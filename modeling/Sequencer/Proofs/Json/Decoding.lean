import Mathlib.Tactic
import Sequencer.Json.Decoder
import Sequencer.Proofs.Json.Reading

/-! # Decoding what was written

One law for each way of making decoders: if the parts read the values that stand for the parts,
then the whole reads the value that stands for the whole. A law holds in every mode with enough
room for the depth of the value.
-/

namespace Sequencer.Json

namespace Mode

/-- Arrays and objects may still be nested so deep. -/
def Allows : Mode → (depth : Nat) → Prop
  | direct room, depth => depth ≤ room
  | buffered, _ => True

theorem Allows.mono {mode : Mode} {m n : Nat} (h : mode.Allows n) (hle : m ≤ n) :
    mode.Allows m := by
  cases mode with
  | direct room => exact hle.trans h
  | buffered => trivial

theorem Allows.exists_enter {mode : Mode} {depth : Nat} (h : mode.Allows (depth + 1)) :
    ∃ inner, mode.enter = .ok inner ∧ inner.Allows depth := by
  rcases mode with (_ | room) | _
  · cases h
  · exact ⟨direct room, rfl, Nat.le_of_succ_le_succ h⟩
  · exact ⟨buffered, rfl, trivial⟩

end Mode

namespace Value

/-- The value can be kept to be read later wherever it may be nested so deep. -/
def Kept (depth : Nat) (value : Value) : Prop :=
  ∀ mode : Mode, mode.Allows depth → mode.keeps value.tree

variable {depth : Nat}

theorem Kept.mono {m n : Nat} {value : Value} (h : value.Kept m) (hle : m ≤ n) : value.Kept n :=
  fun mode hmode => h mode (hmode.mono hle)

theorem kept_null : null.Kept depth := by
  rintro (room | _) _ <;> rfl

theorem kept_number {n : Nat} (h : n < UInt64.size) : (number n).Kept depth := by
  rintro (room | _) _
  · rw [Mode.keeps, tree, Tree.isSound, Literal.number?_ofNat h]
    rfl
  · rfl

theorem kept_byte (n : UInt8) : (number n.toNat).Kept depth :=
  kept_number (n.toNat_lt.trans (by decide))

theorem kept_word (n : UInt32) : (number n.toNat).Kept depth :=
  kept_number (n.toNat_lt.trans (by decide))

theorem kept_string (s : String) : (string s).Kept depth := by
  rintro (room | _) _
  · rw [Mode.keeps, tree, Tree.isSound, Piece.text?_ofString]
    rfl
  · rfl

theorem kept_ofOption (s? : Option String) : (ofOption s?).Kept depth := by
  cases s? with
  | none => exact kept_null
  | some s => exact kept_string s

theorem areSound_itemTrees {room : Nat} {items : List Value}
    (h : ∀ item ∈ items, item.tree.isSound room) : Tree.areSound room (itemTrees items) := by
  induction items with
  | nil => rfl
  | cons item items ih =>
    rcases List.forall_mem_cons.mp h with ⟨hitem, hitems⟩
    rw [itemTrees, Tree.areSound, Bool.and_eq_true]
    exact ⟨hitem, ih hitems⟩

theorem membersAreSound_memberTrees {room : Nat} {members : List (String × Value)}
    (h : ∀ member ∈ members, member.2.tree.isSound room) :
    Tree.membersAreSound room (memberTrees members) := by
  induction members with
  | nil => rfl
  | cons member members ih =>
    rcases List.forall_mem_cons.mp h with ⟨hmember, hmembers⟩
    rw [memberTrees, Tree.membersAreSound, Piece.text?_ofString, Bool.and_eq_true,
      Bool.and_eq_true]
    exact ⟨⟨rfl, hmember⟩, ih hmembers⟩

theorem kept_array {items : List Value} (h : ∀ item ∈ items, item.Kept depth) :
    (array items).Kept (depth + 1) := by
  rintro ((_ | room) | _) hroom
  · cases hroom
  · have hsound := areSound_itemTrees fun item hitem =>
      h item hitem (.direct room) (Nat.le_of_succ_le_succ hroom)
    rw [Mode.keeps, tree, Tree.isSound, hsound]
    rfl
  · rfl

theorem kept_object {members : List (String × Value)}
    (h : ∀ member ∈ members, member.2.Kept depth) : (object members).Kept (depth + 1) := by
  rintro ((_ | room) | _) hroom
  · cases hroom
  · have hsound := membersAreSound_memberTrees fun member hmember =>
      h member hmember (.direct room) (Nat.le_of_succ_le_succ hroom)
    rw [Mode.keeps, tree, Tree.isSound, hsound]
    rfl
  · rfl

end Value

theorem readText_ofString (s : String) : readText (Piece.ofString s) = .ok s := by
  rw [readText, Piece.text?_ofString]

namespace Decoder

variable {α : Type} {depth : Nat}

/-- The decoder reads the value as `a` wherever values may be nested so deep. -/
def Reads (decoder : Decoder α) (depth : Nat) (value : Value) (a : α) : Prop :=
  ∀ mode : Mode, mode.Allows depth → decoder mode value.tree = .ok a

theorem Reads.mono {decoder : Decoder α} {m n : Nat} {value : Value} {a : α}
    (h : decoder.Reads m value a) (hle : m ≤ n) : decoder.Reads n value a :=
  fun mode hmode => h mode (hmode.mono hle)

/-- A whole text is read as the value that it was written from. -/
theorem run_render {decoder : Decoder α} {value : Value} {a : α} (h : decoder.Reads depth value a)
    (hdepth : depth ≤ greatestDepth) (style : Style) :
    decoder.run (value.render style) = .ok a := by
  rw [run, Value.ofText_render]
  simp only [h (.direct greatestDepth) hdepth, if_true]

theorem natural_ofNat {n bound : Nat} (h : n < bound) (hsize : bound ≤ UInt64.size)
    (expected : String) (mode : Mode) :
    natural expected bound mode (Value.number n).tree = .ok n := by
  have hbelow : (0 : Int) ≤ n ∧ (n : Int) < bound := ⟨Int.natCast_nonneg n, by exact_mod_cast h⟩
  simp only [natural, Value.tree, Literal.number?_ofNat (h.trans_le hsize), if_pos hbelow,
    Int.toNat_natCast]

theorem byte_reads (n : UInt8) : byte.Reads depth (.number n.toNat) n := by
  intro mode _
  rw [byte, natural_ofNat n.toNat_lt (by decide), Except.map, UInt8.ofNat_toNat]

theorem word_reads (n : UInt32) : word.Reads depth (.number n.toNat) n := by
  intro mode _
  rw [word, natural_ofNat n.toNat_lt (by decide), Except.map, UInt32.ofNat_toNat]

theorem string_reads (s : String) : string.Reads depth (.string s) s :=
  fun _ _ => readText_ofString s

theorem nullable_reads {decoder : Decoder α} {encode : α → Value}
    (h : ∀ a, decoder.Reads depth (encode a) a) (hnull : ∀ a, (encode a).tree ≠ .null)
    (a? : Option α) : (nullable decoder).Reads depth (a?.elim .null encode) a? := by
  intro mode hmode
  cases a? with
  | none => rfl
  | some a =>
    have hread := h a mode hmode
    rw [Option.elim_some, nullable, hread]
    · rfl
    · exact hnull a

theorem text_reads (s? : Option String) :
    (nullable string).Reads depth (.ofOption s?) s? := by
  have hread : (nullable string).Reads depth (s?.elim .null .string) s? :=
    nullable_reads string_reads (fun _ => nofun) s?
  cases s? <;> exact hread

theorem list_reads {decoder : Decoder α} {encode : α → Value} {as : List α}
    (h : ∀ a ∈ as, decoder.Reads depth (encode a) a) :
    (list decoder).Reads (depth + 1) (.array (as.map encode)) as := by
  intro mode hmode
  obtain ⟨inner, henter, hinner⟩ := hmode.exists_enter
  have hitems : (Value.itemTrees (as.map encode)).mapM (decoder inner) = .ok as := by
    induction as with
    | nil => rfl
    | cons a as ih =>
      rcases List.forall_mem_cons.mp h with ⟨ha, has⟩
      rw [List.map_cons, Value.itemTrees, List.mapM_cons, ha inner hinner, ih has]
      rfl
  rw [Value.tree, list, henter]
  simp only [bind, Except.bind, hitems]
  rfl

theorem choice_reads {variants : List (String × α)} {name : String} {a : α}
    (h : variants.lookup name = some a) : (choice variants).Reads depth (.string name) a := by
  intro mode _
  have hnamed : named variants name = .ok a := by rw [named, h]
  rw [choice.eq_def]
  simp only [Value.tree, readText_ofString, bind, Except.bind, hnamed]

end Decoder

namespace RecordField

variable {ρ α : Type} {depth : Nat}

/-- The field takes the value into a record by the change. -/
def Loads (field : RecordField ρ) (depth : Nat) (value : Value) (change : ρ → ρ) : Prop :=
  ∀ mode : Mode, mode.Allows depth → ∀ r, field.load mode value.tree r = .ok (change r)

variable {decoder : Decoder α} {value : Value} {a : α}

theorem required_loads (h : decoder.Reads depth value a) (name : String) (set : α → ρ → ρ) :
    (required name decoder set).Loads depth value (set a) := by
  intro mode hmode r
  simp only [required, h mode hmode, Except.map]

theorem defaulted_loads (h : decoder.Reads depth value a) (name : String) (set : α → ρ → ρ) :
    (defaulted name decoder set).Loads depth value (set a) :=
  required_loads h name set

theorem omissible_loads (h : decoder.Reads depth value a) (name : String) (set : α → ρ → ρ) :
    (omissible name decoder set).Loads depth value (set a) :=
  required_loads h name set

/-- A member has a field that takes it by a change. -/
def Takes (fields : List (RecordField ρ)) (depth : Nat) (member : String × Value)
    (change : ρ → ρ) : Prop :=
  ∃ field, fields.find? (·.name == member.1) = some field ∧ field.Loads depth member.2 change

/-- Members under different names change the record one after another. -/
theorem loadMembers_memberTrees {fields : List (RecordField ρ)} {mode : Mode}
    {members : List (String × Value)} {changes : List (ρ → ρ)} {seen : List String}
    (hmode : mode.Allows depth) (htakes : List.Forall₂ (Takes fields depth) members changes)
    (hnames : (members.map Prod.fst).Nodup) (hnew : ∀ name ∈ members.map Prod.fst, name ∉ seen)
    (r : ρ) :
    loadMembers fields mode seen (Value.memberTrees members) r =
      .ok ((members.map Prod.fst).reverse ++ seen, changes.foldl (fun r change => change r) r) := by
  induction htakes generalizing seen r with
  | nil => rfl
  | @cons member change members changes htake htakes ih =>
    obtain ⟨field, hfind, hload⟩ := htake
    rcases List.forall_mem_cons.mp hnew with ⟨hown, hothers⟩
    rcases List.nodup_cons.mp hnames with ⟨hname, hnames⟩
    have hlater : ∀ name ∈ members.map Prod.fst, name ∉ member.1 :: seen := by
      intro name hmem hseen
      rcases List.mem_cons.mp hseen with rfl | hseen
      · exact hname hmem
      · exact hothers name hmem hseen
    have hrest := ih hnames hlater (change r)
    have hunseen : seen.contains member.1 = false := by simpa using hown
    rw [Value.memberTrees, loadMembers, readText_ofString]
    simp only [bind, Except.bind, hfind, hunseen, Bool.false_eq_true, if_false, hload mode hmode r,
      hrest]
    simp

end RecordField

open RecordField in
/-- A record is read from members under different names that fill the fields it needs. -/
theorem Decoder.record_reads {ρ : Type} {depth : Nat} {fields : List (RecordField ρ)}
    {members : List (String × Value)} {changes : List (ρ → ρ)} {blank r : ρ}
    (names : List String) (hmembers : members.map Prod.fst = names) (hnames : names.Nodup)
    (hfilled : ∀ field ∈ fields, field.optional ∨ field.name ∈ names)
    (htakes : List.Forall₂ (Takes fields depth) members changes)
    (hresult : changes.foldl (fun r change => change r) blank = r) (expected : String) :
    (record expected fields blank).Reads (depth + 1) (.object members) r := by
  subst hmembers
  intro mode hmode
  obtain ⟨inner, henter, hinner⟩ := hmode.exists_enter
  have hload := loadMembers_memberTrees hinner htakes hnames (fun _ _ => List.not_mem_nil) blank
  have hnone : (fields.find? fun field => !field.optional &&
      !((members.map Prod.fst).reverse ++ []).contains field.name) = none := by
    rw [List.find?_eq_none]
    intro field hfield
    rcases hfilled field hfield with hoptional | hmem
    · simp [hoptional]
    · simpa using fun _ => by simpa using hmem
  rw [Value.tree, record, henter]
  simp only [bind, Except.bind, hload, hnone, hresult]
  rfl

namespace Decoder

variable {α β : Type} {depth : Nat}

/-- Members under other names are put aside, if they can be kept. -/
theorem gather_others {key : String} {read : Tree → Except Error β} {mode : Mode}
    {members : List (String × Value)} (hmode : mode.Allows depth)
    (hother : ∀ member ∈ members, member.1 ≠ key)
    (hkept : ∀ member ∈ members, member.2.Kept depth) (found : Option β) :
    gather key read mode (Value.memberTrees members) found =
      .ok (found, Value.memberTrees members) := by
  induction members with
  | nil => rfl
  | cons member members ih =>
    rcases List.forall_mem_cons.mp hother with ⟨hname, hother⟩
    rcases List.forall_mem_cons.mp hkept with ⟨hvalue, hkept⟩
    rw [Value.memberTrees, gather, readText_ofString]
    simp only [bind, Except.bind, if_neg hname, if_pos (hvalue mode hmode), ih hother hkept]
    rfl

/-- The member under the key is read, wherever it stands. -/
theorem gather_member {key : String} {read : Tree → Except Error β} {mode : Mode}
    (before : List (String × Value)) {after : List (String × Value)} {value : Value} {b : β}
    (hmode : mode.Allows depth)
    (hother : ∀ member ∈ before ++ after, member.1 ≠ key)
    (hkept : ∀ member ∈ before ++ after, member.2.Kept depth) (hread : read value.tree = .ok b) :
    gather key read mode (Value.memberTrees (before ++ (key, value) :: after)) none =
      .ok (some b, Value.memberTrees (before ++ after)) := by
  induction before with
  | nil =>
    rw [List.nil_append, Value.memberTrees, gather, readText_ofString]
    simp only [bind, Except.bind, if_true, Option.isSome_none, Bool.false_eq_true, if_false, hread]
    exact gather_others hmode hother hkept (some b)
  | cons member before ih =>
    rcases List.forall_mem_cons.mp hother with ⟨hname, hother⟩
    rcases List.forall_mem_cons.mp hkept with ⟨hvalue, hkept⟩
    rw [List.cons_append, Value.memberTrees, gather, readText_ofString]
    simp only [bind, Except.bind, if_neg hname, if_pos (hvalue mode hmode), ih hother hkept]
    rfl

/-- The tag names the variant that reads the other members. -/
theorem tagged_reads {tag name : String} {variants : List (String × Decoder α)}
    {decoder : Decoder α} {members : List (String × Value)} {a : α}
    (hvariant : variants.lookup name = some decoder)
    (hother : ∀ member ∈ members, member.1 ≠ tag)
    (hkept : ∀ member ∈ members, member.2.Kept depth)
    (hread : decoder .buffered (Value.object members).tree = .ok a) (expected : String) :
    (tagged expected tag variants).Reads (depth + 1)
      (.object ((tag, .string name) :: members)) a := by
  intro mode hmode
  obtain ⟨inner, henter, hinner⟩ := hmode.exists_enter
  have hnamed : identifier variants inner (Value.string name).tree = .ok decoder := by
    rw [identifier.eq_def]
    simp only [Value.tree, readText_ofString, bind, Except.bind, named, hvariant]
  have hgather : gather tag (identifier variants inner) inner
      (Value.memberTrees ((tag, .string name) :: members)) none =
        .ok (some decoder, Value.memberTrees members) :=
    gather_member [] hinner hother hkept hnamed
  rw [Value.tree, tagged, henter]
  simp only [bind, Except.bind, hgather]
  exact hread

end Decoder
end Sequencer.Json
