/-! # Number literals

A number in a JSON text is a sign, whole digits without a leading zero, and optionally a
fraction and an exponent. A literal keeps its digits; what number they make is worked out
only when the number is read.
-/

namespace Sequencer.Json

/-- Digits are numbers below ten. There is no fraction when its list is empty, and the
exponent, if any, has its own sign. -/
structure Literal where
  negative : Bool
  whole : List Nat
  fraction : List Nat
  exponent : Option (Bool × List Nat)
  deriving DecidableEq, Repr, Inhabited

namespace Literal

def digit (c : Char) : Nat :=
  c.toNat - 48

def scanDigits (cs : List Char) : Option (List Nat × List Char) :=
  match cs.takeWhile Char.isDigit with
  | [] => none
  | ds => some (ds.map digit, cs.dropWhile Char.isDigit)

def scanWhole (cs : List Char) : Option (List Nat × List Char) :=
  match scanDigits cs with
  | some (0 :: _ :: _, _) => none
  | scanned => scanned

def scanFraction : List Char → Option (List Nat × List Char)
  | '.' :: cs => scanDigits cs
  | cs => some ([], cs)

/-- An optional sign of an exponent; true for a minus. -/
def scanSign : List Char → Bool × List Char
  | '+' :: cs => (false, cs)
  | '-' :: cs => (true, cs)
  | cs => (false, cs)

def scanExponent : List Char → Option (Option (Bool × List Nat) × List Char)
  | c :: cs =>
    if c = 'e' ∨ c = 'E' then
      (scanDigits (scanSign cs).2).map fun (ds, rest) => (some ((scanSign cs).1, ds), rest)
    else some (none, c :: cs)
  | [] => some (none, [])

def scanUnsigned (negative : Bool) (cs : List Char) : Option (Literal × List Char) := do
  let (whole, cs) ← scanWhole cs
  let (fraction, cs) ← scanFraction cs
  let (exponent, cs) ← scanExponent cs
  return (⟨negative, whole, fraction, exponent⟩, cs)

def scan : List Char → Option (Literal × List Char)
  | '-' :: cs => scanUnsigned true cs
  | cs => scanUnsigned false cs

theorem length_dropWhile_le {α : Type} (p : α → Bool) (xs : List α) :
    (xs.dropWhile p).length ≤ xs.length :=
  (xs.dropWhile_suffix p).length_le

theorem scanDigits_length {cs rest : List Char} {ds : List Nat}
    (h : scanDigits cs = some (ds, rest)) : rest.length < cs.length := by
  unfold scanDigits at h
  split at h
  · cases h
  · next found =>
    cases h
    cases cs with
    | nil => simp at found
    | cons c cs =>
      by_cases hc : c.isDigit
      · simpa [List.dropWhile_cons, hc] using
          Nat.lt_succ_of_le (length_dropWhile_le Char.isDigit cs)
      · simp [hc] at found

theorem scanWhole_length {cs rest : List Char} {ds : List Nat}
    (h : scanWhole cs = some (ds, rest)) : rest.length < cs.length := by
  unfold scanWhole at h
  split at h
  · cases h
  · exact scanDigits_length h

theorem scanFraction_length {cs rest : List Char} {ds : List Nat}
    (h : scanFraction cs = some (ds, rest)) : rest.length ≤ cs.length := by
  unfold scanFraction at h
  split at h
  · exact Nat.le_of_lt (Nat.lt_succ_of_lt (scanDigits_length h))
  · cases h
    exact Nat.le_refl _

theorem scanSign_length (cs : List Char) : (scanSign cs).2.length ≤ cs.length := by
  unfold scanSign
  split <;> simp

theorem scanExponent_length {cs rest : List Char} {e : Option (Bool × List Nat)}
    (h : scanExponent cs = some (e, rest)) : rest.length ≤ cs.length := by
  unfold scanExponent at h
  split at h
  · next c cs =>
    split at h
    · obtain ⟨⟨ds, r⟩, found, eq⟩ := Option.map_eq_some_iff.1 h
      cases eq
      have shorter := scanDigits_length found
      have sign := scanSign_length cs
      simp only [List.length_cons]
      omega
    · cases h
      exact Nat.le_refl _
  · cases h
    exact Nat.le_refl _

theorem scanUnsigned_length {negative : Bool} {cs rest : List Char} {l : Literal}
    (h : scanUnsigned negative cs = some (l, rest)) : rest.length < cs.length := by
  simp only [scanUnsigned, Option.bind_eq_bind, Option.bind_eq_some_iff, Prod.exists] at h
  obtain ⟨w, cs₁, hw, f, cs₂, hf, e, cs₃, he, eq⟩ := h
  cases eq
  exact Nat.lt_of_le_of_lt (scanExponent_length he)
    (Nat.lt_of_le_of_lt (scanFraction_length hf) (scanWhole_length hw))

/-- A literal takes at least one character. -/
theorem scan_length {cs rest : List Char} {l : Literal} (h : scan cs = some (l, rest)) :
    rest.length < cs.length := by
  unfold scan at h
  split at h
  · exact Nat.lt_succ_of_lt (scanUnsigned_length h)
  · exact scanUnsigned_length h

end Literal
end Sequencer.Json
