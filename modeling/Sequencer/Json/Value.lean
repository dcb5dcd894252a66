/-! # JSON values and their text

The values that are written: numbers are natural, and the members of an object keep
their order. One printer serves two styles, one without any blank and one with a line
for each item.
-/

namespace Sequencer.Json

inductive Value where
  | null
  | number (n : Nat)
  | string (s : String)
  | array (items : List Value)
  | object (members : List (String × Value))
  deriving Repr, Inhabited

/-- How the items of a value are set apart. -/
inductive Style where
  | compact
  | pretty
  deriving DecidableEq, Repr, Inhabited

/-- What precedes an item at a depth: a line break and two blanks for each level. -/
def Style.lead : Style → Nat → List Char
  | .compact, _ => []
  | .pretty, depth => '\n' :: List.replicate (2 * depth) ' '

def Style.colon : Style → List Char
  | .compact => [':']
  | .pretty => [':', ' ']

def hexDigit (n : Nat) : Char :=
  if n < 10 then Char.ofNat (n + 48) else Char.ofNat (n + 87)

/-- Quotes, backslashes and the characters below the blank are escaped, all others stand
for themselves. -/
def escape (c : Char) : List Char :=
  if c = '"' then ['\\', '"']
  else if c = '\\' then ['\\', '\\']
  else if c = '\x08' then ['\\', 'b']
  else if c = '\x0c' then ['\\', 'f']
  else if c = '\n' then ['\\', 'n']
  else if c = '\r' then ['\\', 'r']
  else if c = '\t' then ['\\', 't']
  else if c.toNat < 0x20 then
    ['\\', 'u', '0', '0', hexDigit (c.toNat / 16), hexDigit (c.toNat % 16)]
  else [c]

def quoted (s : String) : List Char :=
  '"' :: s.toList.flatMap escape ++ ['"']

namespace Value

mutual

/-- The text of a value whose first character is at the given depth. -/
def write (style : Style) (depth : Nat) : Value → List Char
  | null => ['n', 'u', 'l', 'l']
  | number n => Nat.toDigits 10 n
  | string s => quoted s
  | array [] => ['[', ']']
  | array (item :: items) =>
    '[' :: style.lead (depth + 1) ++ item.write style (depth + 1) ++ writeItems style depth items
  | object [] => ['{', '}']
  | object ((key, value) :: members) =>
    '{' :: style.lead (depth + 1) ++ quoted key ++ style.colon ++ value.write style (depth + 1)
      ++ writeMembers style depth members

def writeItems (style : Style) (depth : Nat) : List Value → List Char
  | [] => style.lead depth ++ [']']
  | item :: items =>
    ',' :: style.lead (depth + 1) ++ item.write style (depth + 1) ++ writeItems style depth items

def writeMembers (style : Style) (depth : Nat) : List (String × Value) → List Char
  | [] => style.lead depth ++ ['}']
  | (key, value) :: members =>
    ',' :: style.lead (depth + 1) ++ quoted key ++ style.colon ++ value.write style (depth + 1)
      ++ writeMembers style depth members

end

def render (style : Style) (value : Value) : String :=
  String.ofList (value.write style 0)

def ofOption : Option String → Value
  | some s => string s
  | none => null

end Value
end Sequencer.Json
