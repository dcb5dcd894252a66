import Sequencer.Json.Literal
import Sequencer.Json.Quoted

/-! # Tokens of a JSON text

A text is cut into tokens up to its end or up to the first place where no token begins;
that place is the last token then.
-/

namespace Sequencer.Json

inductive Token where
  | openBrace
  | closeBrace
  | openBracket
  | closeBracket
  | comma
  | colon
  | null
  | bool (b : Bool)
  | number (literal : Literal)
  | string (pieces : List Piece)
  /-- The text goes on with something that is no token. -/
  | unreadable
  deriving DecidableEq, Repr, Inhabited

namespace Token

/-- The white space of JSON. -/
def isSpace (c : Char) : Bool :=
  c = ' ' || c = '\t' || c = '\n' || c = '\r'

def next? : List Char → Option (Token × List Char)
  | '{' :: cs => some (openBrace, cs)
  | '}' :: cs => some (closeBrace, cs)
  | '[' :: cs => some (openBracket, cs)
  | ']' :: cs => some (closeBracket, cs)
  | ',' :: cs => some (comma, cs)
  | ':' :: cs => some (colon, cs)
  | 'n' :: 'u' :: 'l' :: 'l' :: cs => some (null, cs)
  | 't' :: 'r' :: 'u' :: 'e' :: cs => some (bool true, cs)
  | 'f' :: 'a' :: 'l' :: 's' :: 'e' :: cs => some (bool false, cs)
  | '"' :: cs => (Piece.scan cs).map fun (pieces, rest) => (string pieces, rest)
  | cs => (Literal.scan cs).map fun (literal, rest) => (number literal, rest)

theorem next?_length {cs rest : List Char} {token : Token} (h : next? cs = some (token, rest)) :
    rest.length < cs.length := by
  unfold next? at h
  split at h
  case h_10 =>
    obtain ⟨⟨pieces, tail⟩, found, eq⟩ := Option.map_eq_some_iff.1 h
    cases eq
    exact Nat.lt_succ_of_lt (Piece.scan_length found)
  case h_11 =>
    obtain ⟨⟨literal, tail⟩, found, eq⟩ := Option.map_eq_some_iff.1 h
    cases eq
    exact Literal.scan_length found
  all_goals
    cases h
    simp only [List.length_cons]
    omega

def scan : List Char → List Token
  | [] => []
  | c :: cs =>
    if isSpace c then scan cs
    else
      match _found : next? (c :: cs) with
      | some (token, rest) => token :: scan rest
      | none => [unreadable]
termination_by cs => cs.length
decreasing_by
  · simp
  · exact next?_length _found

end Token
end Sequencer.Json
