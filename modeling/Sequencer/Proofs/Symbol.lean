import Sequencer.Drum
import Sequencer.Duration
import Sequencer.Proofs.Text.Spelling

/-! # The languages of symbols

The readers of symbols know a few words each: they accept exactly the texts that spell one of them,
and report any other text as it was given.
-/

namespace Sequencer

/-- The symbols of a length are its name and the sign with which it is displayed; where it is half
as long again as a plain length, also the name of that one with a point. -/
def Duration.Listed (d : Duration) (word : String) : Prop :=
  word = d.name ∨ word = d.symbol ∨
    ∃ plain : Duration, 2 * d.sixteenths = 3 * plain.sixteenths ∧ word = plain.name ++ "."

def Drum.letters : Drum → String
  | bell => "B"
  | bassDrum => "BD"
  | snare => "SD"
  | closedHiHat => "CH"
  | openHiHat => "OH"
  | crash => "CC"
  | ride => "RC"

def Drum.Listed (piece : Drum) (word : String) : Prop :=
  word = piece.letters

/-- Symbols are read by the words that are listed for their meanings. -/
structure SymbolKind.Reads {α : Type} (kind : SymbolKind) (listed : α → String → Prop)
    (read : String → Except UnknownSymbol α) : Prop where
  accepts_iff : ∀ s a, read s = .ok a ↔ ∃ word, listed a word ∧ Text.Spells s word
  refuses_iff : ∀ s e, read s = .error e ↔
    e = ⟨kind, s⟩ ∧ ∀ a word, listed a word → ¬ Text.Spells s word
  /-- Texts that agree once they are trimmed and their case is folded are read alike. -/
  alike : ∀ s t, Text.fold s = Text.fold t → (read s).toOption = (read t).toOption
  /-- No letter from outside of ASCII is taken for one of a symbol. -/
  foreign : ∀ s c, c ∈ s.toList → 128 ≤ c.toNat → Text.isBlank c = false →
    read s = .error ⟨kind, s⟩

theorem lookup_eq_some_iff_mem {α β : Type} [BEq α] [LawfulBEq α] {table : List (α × β)}
    (hkeys : (table.map Prod.fst).Nodup) {key : α} {b : β} :
    table.lookup key = some b ↔ (key, b) ∈ table := by
  induction table with
  | nil => simp
  | cons entry table ih =>
    obtain ⟨key', b'⟩ := entry
    obtain ⟨hnew, hkeys⟩ := List.nodup_cons.mp hkeys
    rw [List.lookup_cons, List.mem_cons]
    by_cases h : key = key'
    · subst h
      have hother : (key, b) ∉ table := fun hmem => hnew (List.mem_map.mpr ⟨_, hmem, rfl⟩)
      simp [hother, eq_comm]
    · simp [h, ← ih hkeys, beq_false_of_ne h]

namespace SymbolKind

variable {α : Type} {kind : SymbolKind} {form : String → String} {spellings : List (String × α)}

theorem find_eq_ok_iff {s : String} {a : α} :
    kind.find form spellings s = .ok a ↔ spellings.lookup (form s) = some a := by
  rw [find]
  cases spellings.lookup (form s) <;> simp

theorem find_eq_error_iff {s : String} {e : UnknownSymbol} :
    kind.find form spellings s = .error e ↔
      e = ⟨kind, s⟩ ∧ ∀ a, spellings.lookup (form s) ≠ some a := by
  rw [find]
  cases spellings.lookup (form s) <;> simp [eq_comm]

/-- A table that has the listed words, in the form of the reader, for its keys. -/
theorem reads_of_table {listed : α → String → Prop} (hform : Text.Folds form)
    (hkeys : (spellings.map Prod.fst).Nodup)
    (hascii : spellings.all fun entry => entry.1.toList.all fun c => c.toNat < 128)
    (hlisted : ∀ key a, (key, a) ∈ spellings ↔ ∃ word, listed a word ∧ form word = key)
    (htrim : ∀ a word, listed a word → Text.trim word.toList = word.toList) :
    kind.Reads listed (kind.find form spellings) := by
  have hlookup : ∀ s a, spellings.lookup (form s) = some a ↔
      ∃ word, listed a word ∧ Text.Spells s word := by
    intro s a
    rw [lookup_eq_some_iff_mem hkeys, hlisted]
    refine exists_congr fun word => and_congr_right fun hword => ?_
    rw [hform.spells_iff (htrim a word hword), eq_comm]
  constructor
  · intro s a
    rw [find_eq_ok_iff, hlookup]
  · intro s e
    simp only [find_eq_error_iff, Ne, hlookup, not_exists, not_and]
  · intro s t h
    have hsame : form s = form t := by rwa [hform.eq_iff, ← Text.folds_fold.eq_iff]
    rw [find, find, hsame]
    cases spellings.lookup (form t) <;> rfl
  · intro s c hc hforeign hblank
    refine find_eq_error_iff.mpr ⟨rfl, fun a ha => ?_⟩
    have hentry := List.all_eq_true.mp hascii _ ((lookup_eq_some_iff_mem hkeys).mp ha)
    have hsmall := List.all_eq_true.mp hentry c (hform.keeps s c hc hforeign hblank)
    exact absurd (of_decide_eq_true hsmall) (not_lt.mpr hforeign)

end SymbolKind

namespace Duration

theorem dotted_iff {d plain : Duration} : 2 * d.sixteenths = 3 * plain.sixteenths ↔
    (d, plain) ∈ [(dottedHalf, half), (dottedQuarter, quarter), (dottedEighth, eighth)] := by
  cases d <;> cases plain <;> decide

theorem listed_iff {d : Duration} {word : String} : d.Listed word ↔ (word, d) ∈ spellings := by
  simp only [Listed, dotted_iff]
  cases d <;> simp [spellings, name, symbol, or_comm]

theorem reads : SymbolKind.duration.Reads Listed ofSymbol := by
  have hfold : ∀ entry ∈ spellings, Text.fold entry.1 = entry.1 := by decide
  apply SymbolKind.reads_of_table Text.folds_fold
  · decide
  · decide
  · intro key d
    constructor
    · exact fun h => ⟨key, listed_iff.mpr h, hfold (key, d) h⟩
    · rintro ⟨word, hword, rfl⟩
      rw [hfold (word, d) (listed_iff.mp hword)]
      exact listed_iff.mp hword
  · have htrim : ∀ entry ∈ spellings, Text.trim entry.1.toList = entry.1.toList := by decide
    exact fun d word hword => htrim (word, d) (listed_iff.mp hword)

end Duration

namespace Drum

theorem reads : SymbolKind.drum.Reads Listed ofSymbol := by
  apply SymbolKind.reads_of_table Text.folds_foldUpper
  · decide
  · decide
  · intro key piece
    have hletters : (key, piece) ∈ spellings ↔ key = Text.foldUpper piece.letters := by
      cases piece <;> simp [spellings] <;> rfl
    simp [Listed, hletters, eq_comm]
  · rintro piece word rfl
    cases piece <;> decide

end Drum

/-- Both readers of symbols accept exactly the words that are listed for them. The displayed sign of
a length and its name in stored scores are among its words. -/
theorem symbols_read_exactly :
    SymbolKind.duration.Reads Duration.Listed Duration.ofSymbol ∧
      SymbolKind.drum.Reads Drum.Listed Drum.ofSymbol ∧
      ∀ (d : Duration) (s : String), Text.Spells s d.symbol ∨ Text.Spells s d.name →
        Duration.ofSymbol s = .ok d := by
  refine ⟨Duration.reads, Drum.reads, fun d s h => ?_⟩
  rw [Duration.reads.accepts_iff]
  rcases h with h | h
  · exact ⟨d.symbol, .inr (.inl rfl), h⟩
  · exact ⟨d.name, .inl rfl, h⟩

/-- White space that is not of ASCII is dropped; a letter that only looks like a B is kept. -/
theorem symbols_read_exactly_padded :
    Duration.ofSymbol "\u2003DoTTed-Half\n" = .ok .dottedHalf ∧
      Drum.ofSymbol "\u0412D" = .error ⟨.drum, "\u0412D"⟩ := by
  obtain ⟨-, hdrum, hnames⟩ := symbols_read_exactly
  have hspells : Text.Spells "\u2003DoTTed-Half\n" Duration.dottedHalf.name :=
    ⟨['\u2003'], "DoTTed-Half".toList, ['\n'], by decide, List.forall_mem_singleton.mpr (by decide),
      List.forall_mem_singleton.mpr (by decide), Text.forall₂_sameLetter_iff.mpr (by decide)⟩
  exact ⟨hnames .dottedHalf _ (.inr hspells),
    hdrum.foreign "\u0412D" '\u0412' (by decide) (by decide) (by decide)⟩

end Sequencer
