import Mathlib.Data.List.Forall2
import Mathlib.Data.List.TakeWhile
import Mathlib.Tactic
import Sequencer.Symbol

/-! # Spelling

A text spells a word if nothing but white space stands around the letters of the word, each of them
in either case. For a word without white space around it this shows in what is left of the text when
its white space is dropped and its letters are made small.
-/

namespace Sequencer.Text

/-- The same character, or the same letter of the Latin alphabet in the two cases. -/
def SameLetter (c d : Char) : Prop :=
  c = d ∨ (c.isUpper ∧ d.toNat = c.toNat + 32) ∨ (d.isUpper ∧ c.toNat = d.toNat + 32)

def Spells (s word : String) : Prop :=
  ∃ front letters back : List Char, s.toList = front ++ letters ++ back ∧
    (∀ c ∈ front, isBlank c) ∧ (∀ c ∈ back, isBlank c) ∧
    List.Forall₂ SameLetter letters word.toList

theorem isUpper_iff {c : Char} : c.isUpper ↔ 65 ≤ c.toNat ∧ c.toNat ≤ 90 := by
  change decide ('A'.val ≤ c.val ∧ c.val ≤ 'Z'.val) = true ↔ _
  rw [decide_eq_true_eq, UInt32.le_iff_toNat_le, UInt32.le_iff_toNat_le]
  rfl

theorem toNat_toLower (c : Char) :
    c.toLower.toNat = if c.isUpper then c.toNat + 32 else c.toNat := by
  by_cases h : c.isUpper
  · have hrange := isUpper_iff.mp h
    have hlower : c.toLower = _ := dif_pos (of_decide_eq_true h)
    have hshift : ('a'.val - 'A'.val).toNat = 32 := rfl
    rw [if_pos h, hlower, Char.toNat, UInt32.toNat_add, hshift, Char.toNat_val]
    omega
  · have hlower : c.toLower = c := dif_neg fun hrange => h (decide_eq_true hrange)
    rw [if_neg h, hlower]

theorem toNat_toUpper (c : Char) :
    c.toUpper.toNat = if 97 ≤ c.toNat ∧ c.toNat ≤ 122 then c.toNat - 32 else c.toNat := by
  have hrange : 'a'.val ≤ c.val ∧ c.val ≤ 'z'.val ↔ 97 ≤ c.toNat ∧ c.toNat ≤ 122 := by
    rw [UInt32.le_iff_toNat_le, UInt32.le_iff_toNat_le]
    rfl
  by_cases h : 97 ≤ c.toNat ∧ c.toNat ≤ 122
  · have hupper : c.toUpper = _ := dif_pos (hrange.mpr h)
    have hshift : ('A'.val - 'a'.val).toNat = 4294967264 := rfl
    rw [if_pos h, hupper, Char.toNat, UInt32.toNat_add, hshift, Char.toNat_val]
    omega
  · have hupper : c.toUpper = c := dif_neg (mt hrange.mp h)
    rw [if_neg h, hupper]

theorem toLower_eq_toLower_iff {c d : Char} : c.toLower = d.toLower ↔ SameLetter c d := by
  rw [SameLetter, ← Char.toNat_inj, ← Char.toNat_inj, toNat_toLower, toNat_toLower]
  simp only [isUpper_iff]
  split_ifs <;> omega

theorem toUpper_eq_toUpper_iff {c d : Char} : c.toUpper = d.toUpper ↔ SameLetter c d := by
  rw [SameLetter, ← Char.toNat_inj, ← Char.toNat_inj, toNat_toUpper, toNat_toUpper]
  simp only [isUpper_iff]
  split_ifs <;> omega

theorem isBlank_toLower (c : Char) : isBlank c.toLower = isBlank c := by
  by_cases h : c.isUpper
  · have hrange := isUpper_iff.mp h
    have hupper : isBlank c = false := by
      simp [isBlank, blankRanges]
      omega
    have hsmall : isBlank c.toLower = false := by
      simp [isBlank, blankRanges, toNat_toLower, h]
      omega
    rw [hupper, hsmall]
  · simp [isBlank, toNat_toLower, h]

theorem forall₂_sameLetter_iff {cs ds : List Char} :
    List.Forall₂ SameLetter cs ds ↔ cs.map Char.toLower = ds.map Char.toLower := by
  rw [← List.forall₂_eq_eq_eq, List.forall₂_map_left_iff, List.forall₂_map_right_iff]
  simp only [toLower_eq_toLower_iff]

theorem trim_append {front back : List Char} (cs : List Char) (hfront : ∀ c ∈ front, isBlank c)
    (hback : ∀ c ∈ back, isBlank c) : trim (front ++ cs ++ back) = trim cs := by
  have hdrop : ∀ ds : List Char, (∀ c ∈ ds, isBlank c) → ds.dropWhile isBlank = [] := by
    intro ds h
    rwa [List.dropWhile_eq_nil_iff]
  rw [trim, List.append_assoc, List.dropWhile_append_of_pos hfront, List.dropWhile_append]
  split_ifs with hcs
  · rw [List.isEmpty_iff] at hcs
    simp [trim, hcs, hdrop back hback]
  · rw [List.reverse_append,
      List.dropWhile_append_of_pos fun c hc => hback c (List.mem_reverse.mp hc), trim]

theorem exists_trim (cs : List Char) : ∃ front back, cs = front ++ trim cs ++ back ∧
    (∀ c ∈ front, isBlank c) ∧ ∀ c ∈ back, isBlank c := by
  let rest := cs.dropWhile isBlank
  refine ⟨cs.takeWhile isBlank, (rest.reverse.takeWhile isBlank).reverse, ?_, ?_, ?_⟩
  · rw [trim, List.append_assoc, ← List.reverse_append, List.takeWhile_append_dropWhile,
      List.reverse_reverse, List.takeWhile_append_dropWhile]
  · exact fun c => List.mem_takeWhile_imp
  · exact fun c hc => List.mem_takeWhile_imp (List.mem_reverse.mp hc)

theorem trim_map_toLower (cs : List Char) :
    trim (cs.map Char.toLower) = (trim cs).map Char.toLower := by
  have hblank : isBlank ∘ Char.toLower = isBlank := funext isBlank_toLower
  simp [trim, List.dropWhile_map, ← List.map_reverse, hblank]

theorem spells_iff_forall₂ {s word : String} (hword : trim word.toList = word.toList) :
    Spells s word ↔ List.Forall₂ SameLetter (trim s.toList) (trim word.toList) := by
  rw [hword]
  constructor
  · rintro ⟨front, letters, back, hs, hfront, hback, hletters⟩
    rw [forall₂_sameLetter_iff] at hletters ⊢
    rw [hs, trim_append letters hfront hback, ← trim_map_toLower, hletters, trim_map_toLower, hword]
  · intro h
    obtain ⟨front, back, hs, hfront, hback⟩ := exists_trim s.toList
    exact ⟨front, trim s.toList, back, hs, hfront, hback, h⟩

/-- A form in which texts can be compared: trimmed, with all letters in one case. -/
structure Folds (form : String → String) : Prop where
  eq_iff : ∀ s t, form s = form t ↔ List.Forall₂ SameLetter (trim s.toList) (trim t.toList)
  /-- A character from outside of ASCII that is no white space is left as it is. -/
  keeps : ∀ s c, c ∈ s.toList → 128 ≤ c.toNat → isBlank c = false → c ∈ (form s).toList

theorem mem_trim {cs : List Char} {c : Char} (hc : c ∈ cs) (hblank : isBlank c = false) :
    c ∈ trim cs := by
  obtain ⟨front, back, hcs, hfront, hback⟩ := exists_trim cs
  rw [hcs, List.mem_append, List.mem_append] at hc
  rcases hc with (hc | hc) | hc
  · exact absurd (hfront c hc) (by simp [hblank])
  · exact hc
  · exact absurd (hback c hc) (by simp [hblank])

theorem folds_of_letter {letter : Char → Char}
    (hletter : ∀ c d, letter c = letter d ↔ SameLetter c d)
    (hforeign : ∀ c, 128 ≤ c.toNat → letter c = c) :
    Folds fun s => String.ofList ((trim s.toList).map letter) where
  eq_iff s t := by
    rw [String.ofList_inj, ← List.forall₂_eq_eq_eq, List.forall₂_map_left_iff,
      List.forall₂_map_right_iff]
    simp only [hletter]
  keeps s c hc hlarge hblank := by
    rw [String.toList_ofList, ← hforeign c hlarge]
    exact List.mem_map_of_mem (mem_trim hc hblank)

theorem folds_fold : Folds fold := by
  refine folds_of_letter (fun _ _ => toLower_eq_toLower_iff) fun c hc => ?_
  rw [← Char.toNat_inj, toNat_toLower, if_neg (by rw [isUpper_iff]; omega)]

theorem folds_foldUpper : Folds foldUpper := by
  refine folds_of_letter (fun _ _ => toUpper_eq_toUpper_iff) fun c hc => ?_
  rw [← Char.toNat_inj, toNat_toUpper, if_neg (by omega)]

/-- A text spells the words that have its form, if they have no white space around them. -/
theorem Folds.spells_iff {form : String → String} (h : Folds form) {s word : String}
    (hword : trim word.toList = word.toList) : Spells s word ↔ form s = form word := by
  rw [spells_iff_forall₂ hword, h.eq_iff]

end Sequencer.Text
