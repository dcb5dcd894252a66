import Sequencer.Decimal
import Sequencer.Json.Literal

/-! # Numbers of a JSON text

A literal without fraction and exponent is an integer if it fits 64 bits; all other
literals are floating-point numbers, and so is a negative zero. Digits that no longer fit
the 64 bits of the significand only count for its exponent.
-/

namespace Sequencer.Json

inductive Number where
  | integer (n : Int)
  | float (x : Float)
  deriving Repr, Inhabited

namespace Literal

/-- Appends digits to a significand as long as it fits 64 bits; gives the digits left over. -/
def extend : Nat → List Nat → Nat × List Nat
  | significand, [] => (significand, [])
  | significand, d :: ds =>
    if significand * 10 + d < UInt64.size then extend (significand * 10 + d) ds
    else (significand, d :: ds)

def natural (digits : List Nat) : Nat :=
  digits.foldl (fun n d => n * 10 + d) 0

/-- Greatest exponent that is taken at its value. A greater one stands for a number that is
too large or for zero. -/
def greatestExponent : Int := Int32.maxValue.toInt

/-- The floating-point number of a significand whose exponent changes by a written one. -/
def withExponent (significand : Nat) (exponent : Int) : Option (Bool × List Nat) → Option Float
  | none => Decimal.scaled? significand exponent
  | some (negative, digits) =>
    let written : Int := natural digits
    if greatestExponent < written then
      if significand ≠ 0 ∧ !negative then none else some 0
    else Decimal.scaled? significand (if negative then exponent - written else exponent + written)

def magnitude? (literal : Literal) : Option Float :=
  let (whole, dropped) := extend 0 literal.whole
  let (significand, ignored) := extend whole literal.fraction
  withExponent significand (dropped.length - (literal.fraction.length - ignored.length))
    literal.exponent

/-- The number of a literal, unless it is too large for a floating-point number. -/
def number? (literal : Literal) : Option Number :=
  let n := natural literal.whole
  let integral := literal.fraction.isEmpty && literal.exponent.isNone
  if integral && !literal.negative && n < UInt64.size then some (.integer n)
  else if integral && literal.negative && n ≠ 0 && n ≤ UInt64.size / 2 then some (.integer (-n))
  else literal.magnitude?.map fun x => .float (if literal.negative then -x else x)

end Literal
end Sequencer.Json
