import Mathlib.Tactic
import Sequencer.Json.Token
import Sequencer.Json.Number
import Sequencer.Json.Value

/-! # Tokens of a written value

A value that is written and cut into tokens again gives the tokens of its own structure, whatever
blanks the style puts between them. What follows the value is cut on its own, as long as it does
not carry on a number.
-/

namespace Sequencer.Json

namespace Literal

def ofNat (n : Nat) : Literal :=
  ⟨false, (Nat.toDigits 10 n).map digit, [], none⟩

theorem natural_digits (n : Nat) : natural ((Nat.toDigits 10 n).map digit) = n := by
  have hvalue := Nat.ofDigitChars_toDigits (b := 10) (n := n) (by decide) (by decide)
  rw [natural, List.foldl_map]
  rw [Nat.ofDigitChars] at hvalue
  simpa [digit, Nat.mul_comm] using hvalue

theorem number?_ofNat {n : Nat} (h : n < UInt64.size) :
    (ofNat n).number? = some (.integer n) := by
  rw [number?, ofNat, natural_digits]
  simp [h]

/-- Nothing stands here that could carry on a number. -/
def Ends (cs : List Char) : Prop :=
  ∀ c ∈ cs.head?, ¬ (c.isDigit ∨ c = '.' ∨ c = 'e' ∨ c = 'E')

theorem scanDigits_append {ds rest : List Char} (hne : ds ≠ []) (hds : ∀ c ∈ ds, c.isDigit)
    (hrest : Ends rest) : scanDigits (ds ++ rest) = some (ds.map digit, rest) := by
  have hstop : rest.takeWhile Char.isDigit = [] ∧ rest.dropWhile Char.isDigit = rest := by
    cases rest with
    | nil => exact ⟨rfl, rfl⟩
    | cons c cs =>
      have hc : c.isDigit = false := by
        simpa using fun h => hrest c rfl (.inl h)
      simp [hc]
  rw [scanDigits, List.takeWhile_append_of_pos hds, List.dropWhile_append_of_pos hds, hstop.1,
    hstop.2, List.append_nil]
  cases ds with
  | nil => exact absurd rfl hne
  | cons d ds => rfl

theorem exists_digits_cons (n : Nat) :
    ∃ d ds, Nat.toDigits 10 n = d :: ds ∧ d.isDigit := by
  obtain ⟨d, ds, hcons⟩ := List.exists_cons_of_ne_nil (Nat.toDigits_ne_nil (b := 10) (n := n))
  refine ⟨d, ds, hcons, ?_⟩
  exact Nat.isDigit_of_mem_toDigits (by decide) (by decide) (hcons ▸ List.mem_cons_self)

/-- A number is written without a leading zero. -/
theorem head?_digits_ne_zero {n : Nat} (h : 0 < n) :
    ((Nat.toDigits 10 n).map digit).head? ≠ some 0 := by
  induction n using Nat.strong_induction_on with
  | h n ih =>
    by_cases hlarge : 10 ≤ n
    · rw [Nat.toDigits_of_base_le (by decide) hlarge, List.map_append, List.head?_append_of_ne_nil]
      · exact ih (n / 10) (by omega) (by omega)
      · simp
    · rw [Nat.toDigits_of_lt_base (by omega)]
      interval_cases n <;> decide

theorem scanWhole_digits (n : Nat) {rest : List Char} (hrest : Ends rest) :
    scanWhole (Nat.toDigits 10 n ++ rest) = some ((Nat.toDigits 10 n).map digit, rest) := by
  have hdigits : scanDigits (Nat.toDigits 10 n ++ rest) =
      some ((Nat.toDigits 10 n).map digit, rest) :=
    scanDigits_append Nat.toDigits_ne_nil
      (fun _ => Nat.isDigit_of_mem_toDigits (by decide) (by decide)) hrest
  rw [scanWhole, hdigits]
  split
  · next hzero =>
    rcases Nat.eq_zero_or_pos n with rfl | hpos
    · cases hzero
    · rw [Option.some.injEq, Prod.mk.injEq] at hzero
      exact absurd (by rw [hzero.1]; rfl) (head?_digits_ne_zero hpos)
  · rfl

theorem scanFraction_of_ends {cs : List Char} (h : Ends cs) : scanFraction cs = some ([], cs) := by
  rw [scanFraction]
  rintro _ rfl
  exact h '.' rfl (by simp)

theorem scanExponent_of_ends {cs : List Char} (h : Ends cs) :
    scanExponent cs = some (none, cs) := by
  cases cs with
  | nil => rfl
  | cons c cs =>
    rw [scanExponent, if_neg]
    rintro (hc | hc)
    · exact h c rfl (by simp [hc])
    · exact h c rfl (by simp [hc])

theorem scan_digits (n : Nat) {rest : List Char} (hrest : Ends rest) :
    scan (Nat.toDigits 10 n ++ rest) = some (ofNat n, rest) := by
  have hunsigned : scanUnsigned false (Nat.toDigits 10 n ++ rest) = some (ofNat n, rest) := by
    simp [scanUnsigned, scanWhole_digits n hrest, scanFraction_of_ends hrest,
      scanExponent_of_ends hrest, ofNat]
  obtain ⟨d, ds, hcons, hdigit⟩ := exists_digits_cons n
  rw [hcons, List.cons_append] at hunsigned ⊢
  rw [scan, hunsigned]
  rintro _ hminus
  cases hminus
  cases hdigit

end Literal

namespace Piece

/-- How a character is found in the text of a string: a control character without an escape of
its own is written by number. -/
def ofChar (c : Char) : Piece :=
  if c ∈ ['\x08', '\x0c', '\n', '\r', '\t'] then char c
  else if c.toNat < 0x20 then unit c.toNat
  else char c

/-- The pieces in which the text of a string is found. -/
def ofString (s : String) : List Piece :=
  s.toList.map ofChar

theorem unit?_hexDigit {n : Nat} (h : n < 0x20) :
    unit? '0' '0' (hexDigit (n / 16)) (hexDigit (n % 16)) = some n := by
  have hall : ∀ n < 0x20, unit? '0' '0' (hexDigit (n / 16)) (hexDigit (n % 16)) = some n := by
    decide
  exact hall n h

def prepend (piece : Piece) (scanned : Option (List Piece × List Char)) :
    Option (List Piece × List Char) :=
  scanned.map fun (pieces, rest) => (piece :: pieces, rest)

theorem scan_quote (cs : List Char) : scan ('"' :: cs) = some ([], cs) := by
  rw [scan.eq_def]
  rfl

theorem scan_escaped {e c : Char} (h : escaped? e = some c) (cs : List Char) :
    scan ('\\' :: e :: cs) = prepend (char c) (scan cs) := by
  have hu : e ≠ 'u' := by
    rintro rfl
    cases h
  rw [scan]
  · simp only [Char.reduceEq, if_false, if_true, h, Option.bind_eq_bind, Option.bind_some]
    cases scan cs <;> rfl
  · intro _ _ _ _ _ he _
    exact hu he

theorem scan_unit {p q r s : Char} {u : Nat} (h : unit? p q r s = some u) (cs : List Char) :
    scan ('\\' :: 'u' :: p :: q :: r :: s :: cs) = prepend (unit u) (scan cs) := by
  rw [scan]
  simp only [Char.reduceEq, if_false, if_true, h, Option.bind_eq_bind, Option.bind_some]
  cases scan cs <;> rfl

theorem scan_plain {c : Char} (hquote : c ≠ '"') (hbackslash : c ≠ '\\')
    (hcontrol : ¬ c.toNat < 0x20) (cs : List Char) :
    scan (c :: cs) = prepend (char c) (scan cs) := by
  rw [scan.eq_def]
  simp only [if_neg hquote, if_neg hbackslash, if_neg hcontrol, Option.bind_eq_bind]
  cases scan cs <;> rfl

/-- An escaped character is one piece. -/
theorem scan_escape (c : Char) (cs : List Char) :
    scan (escape c ++ cs) = prepend (ofChar c) (scan cs) := by
  rw [escape]
  split_ifs with hquote hbackslash hb hf hn hr ht hcontrol
  pick_goal 8
  · rw [ofChar, if_neg (by simp [hb, hf, hn, hr, ht]), if_pos hcontrol]
    exact scan_unit (unit?_hexDigit hcontrol) cs
  pick_goal 8
  · rw [ofChar, if_neg (by simp [hb, hf, hn, hr, ht]), if_neg hcontrol]
    exact scan_plain hquote hbackslash hcontrol cs
  all_goals
    subst_vars
    exact scan_escaped rfl cs

theorem scan_flatMap_escape (s cs : List Char) :
    scan (s.flatMap escape ++ '"' :: cs) = some (s.map ofChar, cs) := by
  induction s with
  | nil => exact scan_quote cs
  | cons c s ih =>
    rw [List.flatMap_cons, List.append_assoc, scan_escape, ih]
    rfl

theorem characters?_unit {u : Nat} (hhigh : isHigh u = false) (hlow : isLow u = false)
    (pieces : List Piece) :
    characters? (unit u :: pieces) = (characters? pieces).map (Char.ofNat u :: ·) := by
  rw [characters?.eq_def]
  simp [hhigh, hlow]

theorem characters?_map_ofChar (cs : List Char) :
    characters? (cs.map ofChar) = some cs := by
  induction cs with
  | nil => rfl
  | cons c cs ih =>
    rw [List.map_cons, ofChar]
    split_ifs with hnamed hcontrol
    · rw [characters?, ih]
      rfl
    · have hhigh : isHigh c.toNat = false := by simp [isHigh]; omega
      have hlow : isLow c.toNat = false := by simp [isLow]; omega
      rw [characters?_unit hhigh hlow, ih, Char.ofNat_toNat]
      rfl
    · rw [characters?, ih]
      rfl

@[simp] theorem text?_ofString (s : String) : text? (ofString s) = some s := by
  rw [text?, ofString, characters?_map_ofChar]
  simp

end Piece

namespace Value

mutual

def tokens : Value → List Token
  | null => [.null]
  | number n => [.number (.ofNat n)]
  | string s => [.string (Piece.ofString s)]
  | array [] => [.openBracket, .closeBracket]
  | array (item :: items) => .openBracket :: item.tokens ++ itemTokens items
  | object [] => [.openBrace, .closeBrace]
  | object ((key, value) :: members) =>
    .openBrace :: .string (Piece.ofString key) :: .colon :: value.tokens ++ memberTokens members

def itemTokens : List Value → List Token
  | [] => [.closeBracket]
  | item :: items => .comma :: item.tokens ++ itemTokens items

def memberTokens : List (String × Value) → List Token
  | [] => [.closeBrace]
  | (key, value) :: members =>
    .comma :: .string (Piece.ofString key) :: .colon :: value.tokens ++ memberTokens members

end

end Value

namespace Token

theorem next?_of_isSpace {c : Char} (h : isSpace c) (cs : List Char) : next? (c :: cs) = none := by
  have hcases : c = ' ' ∨ c = '\t' ∨ c = '\n' ∨ c = '\r' := by simpa [isSpace, or_assoc] using h
  rcases hcases with rfl | rfl | rfl | rfl <;> rfl

theorem scan_of_next? {cs rest : List Char} {token : Token} (h : next? cs = some (token, rest)) :
    scan cs = token :: scan rest := by
  cases cs with
  | nil => cases h
  | cons c cs =>
    have hspace : ¬ isSpace c := fun hspace => by
      rw [next?_of_isSpace hspace] at h
      cases h
    rw [scan, if_neg hspace]
    split
    · next heq =>
      rw [h] at heq
      cases heq
      rfl
    · next heq =>
      rw [h] at heq
      cases heq

theorem scan_comma (cs : List Char) : scan (',' :: cs) = .comma :: scan cs :=
  scan_of_next? rfl

theorem scan_openBracket (cs : List Char) : scan ('[' :: cs) = .openBracket :: scan cs :=
  scan_of_next? rfl

theorem scan_openBrace (cs : List Char) : scan ('{' :: cs) = .openBrace :: scan cs :=
  scan_of_next? rfl

/-- White space before a token is passed over. -/
theorem scan_append_of_spaces {spaces : List Char} (h : ∀ c ∈ spaces, isSpace c)
    (cs : List Char) : scan (spaces ++ cs) = scan cs := by
  induction spaces with
  | nil => rfl
  | cons c spaces ih =>
    rcases List.forall_mem_cons.mp h with ⟨hc, hspaces⟩
    rw [List.cons_append, scan, if_pos hc, ih hspaces]

theorem scan_lead (style : Style) (depth : Nat) (cs : List Char) :
    scan (style.lead depth ++ cs) = scan cs := by
  apply scan_append_of_spaces
  cases style with
  | compact => exact nofun
  | pretty =>
    intro c hc
    rcases List.mem_cons.mp hc with rfl | hc
    · rfl
    · rw [List.eq_of_mem_replicate hc]
      rfl

theorem scan_colon (style : Style) (cs : List Char) :
    scan (style.colon ++ cs) = .colon :: scan cs := by
  cases style with
  | compact => exact scan_of_next? rfl
  | pretty =>
    have hblank : scan (' ' :: cs) = scan cs := by
      rw [scan, if_pos (show isSpace ' ' from rfl)]
    exact (scan_of_next? rfl).trans (congrArg _ hblank)

theorem scan_quoted (s : String) (cs : List Char) :
    scan (quoted s ++ cs) = .string (Piece.ofString s) :: scan cs := by
  apply scan_of_next?
  have hpieces := Piece.scan_flatMap_escape s.toList cs
  simp only [quoted, List.cons_append, List.append_assoc, List.nil_append, next?, hpieces]
  rfl

theorem scan_number (n : Nat) {cs : List Char} (h : Literal.Ends cs) :
    scan (Nat.toDigits 10 n ++ cs) = .number (.ofNat n) :: scan cs := by
  apply scan_of_next?
  have hliteral := Literal.scan_digits n h
  obtain ⟨d, ds, hcons, hdigit⟩ := Literal.exists_digits_cons n
  rw [hcons, List.cons_append] at hliteral ⊢
  rw [next?, hliteral]
  · rfl
  all_goals
    intro _ heq
    obtain ⟨rfl, -⟩ := List.cons.inj heq
    cases hdigit

end Token

namespace Value

theorem ends_lead_append {style : Style} {depth : Nat} {cs : List Char} (h : Literal.Ends cs) :
    Literal.Ends (style.lead depth ++ cs) := by
  cases style with
  | compact => exact h
  | pretty =>
    rintro _ ⟨⟩
    decide

theorem ends_writeItems (style : Style) (depth : Nat) (items : List Value) (cs : List Char) :
    Literal.Ends (writeItems style depth items ++ cs) := by
  cases items with
  | nil =>
    rw [writeItems, List.append_assoc]
    apply ends_lead_append
    rintro _ ⟨⟩
    decide
  | cons item items =>
    rintro _ ⟨⟩
    decide

theorem ends_writeMembers (style : Style) (depth : Nat) (members : List (String × Value))
    (cs : List Char) : Literal.Ends (writeMembers style depth members ++ cs) := by
  cases members with
  | nil =>
    rw [writeMembers, List.append_assoc]
    apply ends_lead_append
    rintro _ ⟨⟩
    decide
  | cons member members =>
    rintro _ ⟨⟩
    decide

open Token in
mutual

/-- The text of a value, cut into tokens. -/
theorem scan_write (style : Style) (depth : Nat) (value : Value) {cs : List Char}
    (h : Literal.Ends cs) :
    Token.scan (value.write style depth ++ cs) = value.tokens ++ Token.scan cs :=
  match value with
  | null => scan_of_next? rfl
  | number n => scan_number n h
  | string s => scan_quoted s cs
  | array [] => (scan_of_next? rfl).trans (congrArg _ (scan_of_next? rfl))
  | array (item :: items) => by
    simp only [write, tokens, List.cons_append, List.append_assoc]
    rw [scan_openBracket, scan_lead,
      scan_write style (depth + 1) item (ends_writeItems style depth items cs),
      scan_writeItems style depth items h]
  | object [] => (scan_of_next? rfl).trans (congrArg _ (scan_of_next? rfl))
  | object ((key, value) :: members) => by
    simp only [write, tokens, List.cons_append, List.append_assoc]
    rw [scan_openBrace, scan_lead, scan_quoted, scan_colon,
      scan_write style (depth + 1) value (ends_writeMembers style depth members cs),
      scan_writeMembers style depth members h]

theorem scan_writeItems (style : Style) (depth : Nat) (items : List Value) {cs : List Char}
    (h : Literal.Ends cs) :
    Token.scan (writeItems style depth items ++ cs) = itemTokens items ++ Token.scan cs :=
  match items with
  | [] => by
    rw [writeItems, List.append_assoc, scan_lead]
    exact scan_of_next? rfl
  | item :: items => by
    simp only [writeItems, itemTokens, List.cons_append, List.append_assoc]
    rw [scan_comma, scan_lead,
      scan_write style (depth + 1) item (ends_writeItems style depth items cs),
      scan_writeItems style depth items h]

theorem scan_writeMembers (style : Style) (depth : Nat) (members : List (String × Value))
    {cs : List Char} (h : Literal.Ends cs) :
    Token.scan (writeMembers style depth members ++ cs) =
      memberTokens members ++ Token.scan cs :=
  match members with
  | [] => by
    rw [writeMembers, List.append_assoc, scan_lead]
    exact scan_of_next? rfl
  | (key, value) :: members => by
    simp only [writeMembers, memberTokens, List.cons_append, List.append_assoc]
    rw [scan_comma, scan_lead, scan_quoted, scan_colon,
      scan_write style (depth + 1) value (ends_writeMembers style depth members cs),
      scan_writeMembers style depth members h]

end

theorem scan_render (style : Style) (value : Value) :
    Token.scan (value.render style).toList = value.tokens := by
  have hwrite : Token.scan (value.write style 0 ++ []) = value.tokens ++ Token.scan [] :=
    scan_write style 0 value nofun
  rw [render, String.toList_ofList]
  simpa [Token.scan] using hwrite

end Value
end Sequencer.Json
