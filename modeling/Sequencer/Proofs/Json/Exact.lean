import Sequencer.Proofs.Json.Reading

/-! # Exact reading

A reader of trees that takes an integer as it is written, however large, and the members of an
object by their keys, in whatever order they stand. A key that stands twice names no member. What
is written is read back by it from the tree of the value.
-/

namespace Sequencer.Json

namespace Tree

variable {α : Type}

def natural? : Tree → Option Nat
  | number ⟨false, digits, [], none⟩ => some (Literal.natural digits)
  | _ => none

def byte? (tree : Tree) : Option UInt8 := do
  let n ← tree.natural?
  if n < UInt8.size then some (.ofNat n) else none

def word? (tree : Tree) : Option UInt32 := do
  let n ← tree.natural?
  if n < UInt32.size then some (.ofNat n) else none

def text? : Tree → Option String
  | string pieces => Piece.text? pieces
  | _ => none

def optional? : Tree → Option (Option String)
  | null => some none
  | tree => tree.text?.map some

def list? (read : Tree → Option α) : Tree → Option (List α)
  | array items .closed => items.mapM read
  | _ => none

/-- The value of a key that stands once in an object. -/
def member? (key : String) : Tree → Option Tree
  | object members .closed =>
    match members.filter fun member => Piece.text? member.1 == some key with
    | [(_, value)] => some value
    | _ => none
  | _ => none

def field? (key : String) (read : Tree → Option α) (tree : Tree) : Option α :=
  (tree.member? key).bind read

end Tree

namespace Value

mutual

theorem isWhole_tree (value : Value) : value.tree.isWhole :=
  match value with
  | null => rfl
  | number _ => rfl
  | string _ => rfl
  | array items => areWhole_itemTrees items
  | object members => membersAreWhole_memberTrees members

theorem areWhole_itemTrees (items : List Value) : Tree.areWhole (itemTrees items) :=
  match items with
  | [] => rfl
  | item :: items => by
    rw [itemTrees, Tree.areWhole, isWhole_tree item, areWhole_itemTrees items]
    rfl

theorem membersAreWhole_memberTrees (members : List (String × Value)) :
    Tree.membersAreWhole (memberTrees members) :=
  match members with
  | [] => rfl
  | (_, value) :: members => by
    rw [memberTrees, Tree.membersAreWhole, isWhole_tree value,
      membersAreWhole_memberTrees members]
    rfl

end

@[simp] theorem natural?_tree (n : Nat) : (number n).tree.natural? = some n :=
  congrArg some (Literal.natural_digits n)

@[simp] theorem byte?_tree (n : UInt8) : (number n.toNat).tree.byte? = some n := by
  simp [Tree.byte?, n.toNat_lt_size]

@[simp] theorem word?_tree (n : UInt32) : (number n.toNat).tree.word? = some n := by
  simp [Tree.word?, n.toNat_lt_size]

@[simp] theorem text?_tree (s : String) : (string s).tree.text? = some s :=
  Piece.text?_ofString s

@[simp] theorem optional?_tree (s? : Option String) : (ofOption s?).tree.optional? = some s? := by
  cases s? with
  | none => rfl
  | some s => exact congrArg (Option.map some) (text?_tree s)

section Nested

variable {α : Type} {read : Tree → Option α} {encode : α → Value}

theorem list?_tree (h : ∀ a, read (encode a).tree = some a) (as : List α) :
    (array (as.map encode)).tree.list? read = some as := by
  rw [tree, Tree.list?]
  induction as with
  | nil => rfl
  | cons a as ih =>
    rw [List.map_cons, itemTrees, List.mapM_cons, h, ih]
    rfl

/-- Distinct keys leave at most one member to each key. -/
theorem filter_memberTrees (key : String) {members : List (String × Value)}
    (hkeys : (members.map Prod.fst).Nodup) :
    ((memberTrees members).filter fun member => Piece.text? member.1 == some key) =
      ((members.lookup key).map fun value => (Piece.ofString key, value.tree)).toList := by
  induction members with
  | nil => rfl
  | cons member members ih =>
    obtain ⟨first, value⟩ := member
    obtain ⟨hfirst, hkeys⟩ := List.nodup_cons.mp hkeys
    rw [memberTrees, List.filter_cons, Piece.text?_ofString, List.lookup_cons, ih hkeys]
    by_cases hkey : first = key
    · have hothers : members.lookup key = none := by
        rw [List.lookup_eq_none_iff]
        rintro other hother
        exact bne_iff_ne.mpr fun h => hfirst (List.mem_map.mpr ⟨other, hother, hkey ▸ h.symm⟩)
      simp [hkey, hothers]
    · simp [hkey, beq_false_of_ne (Ne.symm hkey)]

/-- In an object with distinct keys the members are found by their keys. -/
theorem member?_tree (key : String) {members : List (String × Value)}
    (hkeys : (members.map Prod.fst).Nodup) :
    (object members).tree.member? key = (members.lookup key).map tree := by
  rw [tree, Tree.member?, filter_memberTrees key hkeys]
  cases members.lookup key <;> rfl

theorem field?_tree (key : String) {members : List (String × Value)}
    (hkeys : (members.map Prod.fst).Nodup) :
    (object members).tree.field? key read =
      (members.lookup key).bind fun value => read value.tree := by
  rw [Tree.field?, member?_tree key hkeys, Option.bind_map]
  rfl

end Nested

end Value
end Sequencer.Json
