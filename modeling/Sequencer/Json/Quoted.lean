/-! # Quoted strings

Between the quotes of a string stand characters and escapes. An escape by number is one
UTF-16 unit; two of them may make one character, and a surrogate unit alone makes none. As
with numbers, the units are put together only when the string is read.
-/

namespace Sequencer.Json

/-- What one place of a quoted string holds. -/
inductive Piece where
  | char (c : Char)
  /-- A UTF-16 unit, below `0x10000`. -/
  | unit (u : Nat)
  deriving DecidableEq, Repr, Inhabited

namespace Piece

def hexValue? (c : Char) : Option Nat :=
  if c.isDigit then some (c.toNat - 48)
  else if 'a' ≤ c ∧ c ≤ 'f' then some (c.toNat - 87)
  else if 'A' ≤ c ∧ c ≤ 'F' then some (c.toNat - 55)
  else none

def unit? (a b c d : Char) : Option Nat := do
  return 4096 * (← hexValue? a) + 256 * (← hexValue? b) + 16 * (← hexValue? c) + (← hexValue? d)

def escaped? : Char → Option Char
  | '"' => some '"'
  | '\\' => some '\\'
  | '/' => some '/'
  | 'b' => some '\x08'
  | 'f' => some '\x0c'
  | 'n' => some '\n'
  | 'r' => some '\r'
  | 't' => some '\t'
  | _ => none

/-- Reads up to the closing quote; also gives what follows the quote. Characters below the
blank have to be escaped. -/
def scan : List Char → Option (List Piece × List Char)
  | [] => none
  | c :: cs =>
    if c = '"' then some ([], cs)
    else if c = '\\' then
      match cs with
      | 'u' :: p :: q :: r :: s :: cs => do
        let u ← unit? p q r s
        let (pieces, rest) ← scan cs
        return (unit u :: pieces, rest)
      | e :: cs => do
        let c ← escaped? e
        let (pieces, rest) ← scan cs
        return (char c :: pieces, rest)
      | [] => none
    else if c.toNat < 0x20 then none
    else do
      let (pieces, rest) ← scan cs
      return (char c :: pieces, rest)

def isHigh (u : Nat) : Bool :=
  0xD800 ≤ u && u ≤ 0xDBFF

def isLow (u : Nat) : Bool :=
  0xDC00 ≤ u && u ≤ 0xDFFF

/-- The character that a high and a low surrogate make. -/
def paired (high low : Nat) : Char :=
  Char.ofNat (0x10000 + (high - 0xD800) * 0x400 + (low - 0xDC00))

/-- The characters of a string, unless a surrogate stands alone. -/
def characters? : List Piece → Option (List Char)
  | [] => some []
  | char c :: pieces => (characters? pieces).map (c :: ·)
  | unit u :: pieces =>
    if isHigh u then
      match pieces with
      | unit v :: pieces => if isLow v then (characters? pieces).map (paired u v :: ·) else none
      | _ => none
    else if isLow u then none
    else (characters? pieces).map (Char.ofNat u :: ·)

def text? (pieces : List Piece) : Option String :=
  (characters? pieces).map String.ofList

theorem scan_length {cs rest : List Char} {pieces : List Piece}
    (h : scan cs = some (pieces, rest)) : rest.length < cs.length := by
  fun_induction scan cs generalizing pieces rest with
  | case1 => simp at h
  | case2 => simp_all
  | case3 p q r s cs _ ih =>
    simp only [Option.bind_eq_bind, Option.bind_eq_some_iff, Prod.exists] at h
    obtain ⟨u, -, ps, rest', found, eq⟩ := h
    cases eq
    have := ih found
    simp only [List.length_cons]
    omega
  | case4 e cs _ _ ih =>
    simp only [Option.bind_eq_bind, Option.bind_eq_some_iff, Prod.exists] at h
    obtain ⟨c, -, ps, rest', found, eq⟩ := h
    cases eq
    have := ih found
    simp only [List.length_cons]
    omega
  | case5 => simp at h
  | case6 => simp at h
  | case7 c cs _ _ _ ih =>
    simp only [Option.bind_eq_bind, Option.bind_eq_some_iff, Prod.exists] at h
    obtain ⟨ps, rest', found, eq⟩ := h
    cases eq
    have := ih found
    simp only [List.length_cons]
    omega

end Piece
end Sequencer.Json
