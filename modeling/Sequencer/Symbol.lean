/-! # Symbols

A symbol is a short word for a note length or a drum. A table lists the accepted spellings in
letters of one case; white space around a symbol and the case of its letters do not matter. White
space is the Unicode property of that name; letters are those of ASCII alone, so that no other
letter ever turns into one of them.
-/

namespace Sequencer

namespace Text

/-- The code points of the Unicode property `White_Space`, as closed ranges. -/
def blankRanges : List (Nat × Nat) :=
  [(0x9, 0xD), (0x20, 0x20), (0x85, 0x85), (0xA0, 0xA0), (0x1680, 0x1680), (0x2000, 0x200A),
   (0x2028, 0x2029), (0x202F, 0x202F), (0x205F, 0x205F), (0x3000, 0x3000)]

def isBlank (c : Char) : Bool :=
  blankRanges.any fun r => r.1 ≤ c.toNat && c.toNat ≤ r.2

def trim (s : List Char) : List Char :=
  ((s.dropWhile isBlank).reverse.dropWhile isBlank).reverse

/-- A text as it is compared: trimmed, with small ASCII letters. -/
def fold (s : String) : String :=
  String.ofList ((trim s.toList).map Char.toLower)

/-- The same with capital ASCII letters. -/
def foldUpper (s : String) : String :=
  String.ofList ((trim s.toList).map Char.toUpper)

end Text

inductive SymbolKind where
  | duration
  | drum
  deriving DecidableEq, Repr, Inhabited

def SymbolKind.name : SymbolKind → String
  | .duration => "duration"
  | .drum => "drum"

/-- A text that is no symbol of its kind, kept as it was given. -/
structure UnknownSymbol where
  kind : SymbolKind
  symbol : String
  deriving DecidableEq, Repr, Inhabited

def UnknownSymbol.message (e : UnknownSymbol) : String :=
  "unknown " ++ e.kind.name ++ " symbol '" ++ e.symbol ++ "'"

/-- Looks a text up, in the given form, in a table of spellings. -/
def SymbolKind.find (kind : SymbolKind) {α : Type} (form : String → String)
    (spellings : List (String × α)) (s : String) : Except UnknownSymbol α :=
  match spellings.lookup (form s) with
  | some a => .ok a
  | none => .error ⟨kind, s⟩

end Sequencer
