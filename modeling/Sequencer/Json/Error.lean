import Sequencer.Decimal
import Sequencer.Json.Tree
import Sequencer.Text.Quotation

/-! # Faults of JSON texts

A text may break the grammar, or follow it and hold other data than expected. Only faults
of the second kind have a message.
-/

namespace Sequencer.Json

inductive Found where
  | integer (n : Int)
  | float (x : Float)
  | bool (b : Bool)
  | string (s : String)
  | null
  | sequence
  | map
  deriving Repr, Inhabited

inductive Error where
  /-- The text breaks the grammar, or something in it cannot be read. -/
  | malformed
  | invalidType (found : Found) (expected : String)
  | invalidValue (found : Found) (expected : String)
  | invalidLength (length : Nat) (expected : String)
  | unknownVariant (name : String) (variants : List String)
  | missingField (name : String)
  | duplicateField (name : String)
  deriving Repr, Inhabited

/-- Names in messages stand between grave accents. -/
def accented (name : String) : String :=
  "`" ++ name ++ "`"

def Found.text : Found → String
  | integer n => "integer " ++ accented (toString n)
  | float x => "floating point " ++ accented (Decimal.floatText x)
  | bool b => "boolean " ++ accented (if b then "true" else "false")
  | string s => "string " ++ Text.quote s
  | null => "null"
  | sequence => "sequence"
  | map => "map"

def Found.ofNumber : Number → Found
  | .integer n => integer n
  | .float x => float x

namespace Error

/-- A choice of names: two are joined by a word, more are listed. -/
def oneOf : List String → String
  | [a] => accented a
  | [a, b] => accented a ++ " or " ++ accented b
  | names => "one of " ++ String.intercalate ", " (names.map accented)

def message? : Error → Option String
  | malformed => none
  | invalidType found expected => some ("invalid type: " ++ found.text ++ ", expected " ++ expected)
  | invalidValue found expected =>
    some ("invalid value: " ++ found.text ++ ", expected " ++ expected)
  | invalidLength length expected =>
    some ("invalid length " ++ toString length ++ ", expected " ++ expected)
  | unknownVariant name variants =>
    some ("unknown variant " ++ accented name ++ ", expected " ++ oneOf variants)
  | missingField name => some ("missing field " ++ accented name)
  | duplicateField name => some ("duplicate field " ++ accented name)

end Error

def Tree.found? : Tree → Option Found
  | missing => none
  | null => some .null
  | bool b => some (.bool b)
  | number literal => literal.number?.map Found.ofNumber
  | string pieces => (Piece.text? pieces).map Found.string
  | array _ _ => some .sequence
  | object _ _ => some .map

/-- Something was found that is not of the expected type, or cannot be read at all. -/
def Error.mismatch (found : Option Found) (expected : String) : Error :=
  match found with
  | some found => invalidType found expected
  | none => malformed

end Sequencer.Json
