import Mathlib.Tactic
import Sequencer.Proofs.Json.Scanning
import Sequencer.Json.Tree

/-! # Trees of a written value

The tokens of a value are read into the tree of its own structure. Inside of frames the value is
read without regard to them, and reading goes on behind it.
-/

namespace Sequencer.Json

namespace Value

mutual

def tree : Value → Tree
  | null => .null
  | number n => .number (.ofNat n)
  | string s => .string (Piece.ofString s)
  | array items => .array (itemTrees items) .closed
  | object members => .object (memberTrees members) .closed

def itemTrees : List Value → List Tree
  | [] => []
  | item :: items => item.tree :: itemTrees items

def memberTrees : List (String × Value) → List (List Piece × Tree)
  | [] => []
  | (key, value) :: members => (Piece.ofString key, value.tree) :: memberTrees members

end

def members : Value → List (String × Value)
  | object members => members
  | _ => []

theorem head?_tokens_ne (value : Value) (ts : List Token) :
    (value.tokens ++ ts).head? ≠ some .closeBracket := by
  rcases value with _ | _ | _ | (_ | _) | (_ | _) <;> exact nofun

theorem readValue_openBracket (frames : List Tree.Frame) {ts : List Token}
    (h : ts.head? ≠ some .closeBracket) :
    Tree.readValue frames (.openBracket :: ts) = Tree.readValue (.array [] :: frames) ts := by
  rw [Tree.readValue]
  rintro _ rfl
  exact h rfl

mutual

/-- The tokens of a value are read into its tree. -/
theorem readValue_tokens (frames : List Tree.Frame) (value : Value) (ts : List Token) :
    Tree.readValue frames (value.tokens ++ ts) = Tree.readNext frames value.tree ts :=
  match value with
  | null => rfl
  | number _ => rfl
  | string _ => rfl
  | array [] => rfl
  | array (item :: items) => by
    simp only [tokens, List.cons_append, List.append_assoc]
    rw [readValue_openBracket frames (head?_tokens_ne item _),
      readValue_tokens (.array [] :: frames) item, readNext_itemTokens]
    rfl
  | object [] => rfl
  | object ((key, value) :: members) => by
    simp only [tokens, List.cons_append, List.append_assoc]
    rw [Tree.readValue, Tree.readMember, readValue_tokens (.object [] _ :: frames) value,
      readNext_memberTokens]
    · rfl
    · exact nofun

theorem readNext_itemTokens (frames : List Tree.Frame) (before : List Tree) (last : Tree)
    (items : List Value) (ts : List Token) :
    Tree.readNext (.array before :: frames) last (itemTokens items ++ ts) =
      Tree.readNext frames (.array ((last :: before).reverse ++ itemTrees items) .closed) ts :=
  match items with
  | [] => by
    rw [itemTokens, List.singleton_append, Tree.readNext, itemTrees, List.append_nil]
    rfl
  | item :: items => by
    simp only [itemTokens, List.cons_append, List.append_assoc]
    rw [Tree.readNext, readValue_tokens (.array (last :: before) :: frames) item,
      readNext_itemTokens, List.reverse_cons, List.append_assoc]
    rfl

theorem readNext_memberTokens (frames : List Tree.Frame) (before : List (List Piece × Tree))
    (key : List Piece) (last : Tree) (members : List (String × Value)) (ts : List Token) :
    Tree.readNext (.object before key :: frames) last (memberTokens members ++ ts) =
      Tree.readNext frames
        (.object (((key, last) :: before).reverse ++ memberTrees members) .closed) ts :=
  match members with
  | [] => by
    rw [memberTokens, List.singleton_append, Tree.readNext, memberTrees, List.append_nil]
    rfl
  | (next, value) :: members => by
    simp only [memberTokens, List.cons_append, List.append_assoc]
    rw [Tree.readNext, Tree.readMember,
      readValue_tokens (.object ((key, last) :: before) _ :: frames) value,
      readNext_memberTokens, List.reverse_cons, List.append_assoc]
    rfl

end

/-- The text of a value is read into its tree, in full. -/
theorem ofText_render (style : Style) (value : Value) :
    Document.ofText (value.render style) = ⟨value.tree, true⟩ := by
  have hread := readValue_tokens [] value []
  rw [List.append_nil] at hread
  rw [Document.ofText, scan_render, hread]
  rfl

end Value
end Sequencer.Json
