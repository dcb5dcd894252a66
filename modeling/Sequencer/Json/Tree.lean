import Sequencer.Json.Number
import Sequencer.Json.Token

/-! # The tree of a JSON text

A text is read into a tree as far as it follows the grammar. Where it does not, the tree
ends: everything before that place is in the tree, nothing behind it is. Whoever walks
over the tree in the order of the text meets the first fault of the text where the tree
ends, and a wrong value before that place earlier.
-/

namespace Sequencer.Json

/-- How the items of an array or an object end. -/
inductive Ending where
  | closed
  /-- The text breaks off before the closing bracket or brace. -/
  | broken
  deriving DecidableEq, Repr, Inhabited

def Ending.isClosed : Ending → Bool
  | closed => true
  | broken => false

inductive Tree where
  /-- No value stands here. -/
  | missing
  | null
  | bool (b : Bool)
  | number (literal : Literal)
  | string (pieces : List Piece)
  | array (items : List Tree) (ending : Ending)
  | object (members : List (List Piece × Tree)) (ending : Ending)
  deriving Repr, Inhabited

structure Document where
  root : Tree
  ended : Bool
  deriving Repr, Inhabited

namespace Tree

/-- An array or object that is being read, with what it holds so far, the last first. -/
inductive Frame where
  | array (items : List Tree)
  /-- The value of the key comes next. -/
  | object (members : List (List Piece × Tree)) (key : List Piece)
  deriving Repr, Inhabited

def Frame.close (value : Tree) (ending : Ending) : Frame → Tree
  | array items => .array (value :: items).reverse ending
  | object members key => .object ((key, value) :: members).reverse ending

def breakOff : List Frame → Tree → Tree
  | [], value => value
  | frame :: frames, value => breakOff frames (frame.close value .broken)

def faulty (frames : List Frame) (value : Tree) : Document :=
  ⟨breakOff frames value, false⟩

mutual

/-- Reads on where a value has to stand, inside the given frames, the innermost first. -/
def readValue (frames : List Frame) : List Token → Document
  | .null :: ts => readNext frames null ts
  | .bool b :: ts => readNext frames (bool b) ts
  | .number literal :: ts => readNext frames (number literal) ts
  | .string pieces :: ts => readNext frames (string pieces) ts
  | .openBracket :: .closeBracket :: ts => readNext frames (array [] .closed) ts
  | .openBracket :: ts => readValue (.array [] :: frames) ts
  | .openBrace :: .closeBrace :: ts => readNext frames (object [] .closed) ts
  | .openBrace :: ts => readMember frames [] ts
  | _ => faulty frames missing

/-- Reads on where a key has to stand, behind the given members. -/
def readMember (frames : List Frame) (members : List (List Piece × Tree)) :
    List Token → Document
  | .string key :: .colon :: ts => readValue (.object members key :: frames) ts
  | .string key :: _ =>
    faulty frames (object ((key, missing) :: members).reverse .broken)
  | _ => faulty frames (object members.reverse .broken)

def readNext (frames : List Frame) (value : Tree) (ts : List Token) : Document :=
  match frames, ts with
  | [], ts => ⟨value, ts.isEmpty⟩
  | .array items :: frames, .comma :: ts => readValue (.array (value :: items) :: frames) ts
  | .object members key :: frames, .comma :: ts =>
    readMember frames ((key, value) :: members) ts
  | .array items :: frames, .closeBracket :: ts =>
    readNext frames ((Frame.array items).close value .closed) ts
  | .object members key :: frames, .closeBrace :: ts =>
    readNext frames ((Frame.object members key).close value .closed) ts
  | frame :: frames, _ => faulty frames (frame.close value .broken)

end

mutual

/-- The text of the value follows the grammar throughout. -/
def isWhole : Tree → Bool
  | missing => false
  | array items ending => ending.isClosed && areWhole items
  | object members ending => ending.isClosed && membersAreWhole members
  | _ => true

def areWhole : List Tree → Bool
  | [] => true
  | item :: items => item.isWhole && areWhole items

def membersAreWhole : List (List Piece × Tree) → Bool
  | [] => true
  | (_, value) :: members => value.isWhole && membersAreWhole members

end

mutual

/-- The value can be read in full: beyond the grammar, its numbers are in range, the
surrogates of its strings are paired, and it is nested no deeper than `room` levels. -/
def isSound (room : Nat) : Tree → Bool
  | missing => false
  | number literal => literal.number?.isSome
  | string pieces => (Piece.text? pieces).isSome
  | array items ending =>
    match room with
    | 0 => false
    | room + 1 => ending.isClosed && areSound room items
  | object members ending =>
    match room with
    | 0 => false
    | room + 1 => ending.isClosed && membersAreSound room members
  | _ => true

def areSound (room : Nat) : List Tree → Bool
  | [] => true
  | item :: items => item.isSound room && areSound room items

def membersAreSound (room : Nat) : List (List Piece × Tree) → Bool
  | [] => true
  | (key, value) :: members =>
    (Piece.text? key).isSome && value.isSound room && membersAreSound room members

end

end Tree

def Document.ofText (text : String) : Document :=
  Tree.readValue [] (Token.scan text.toList)

end Sequencer.Json
