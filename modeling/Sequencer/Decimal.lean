/-! # Decimals

Floating-point numbers from decimals and back. The number for a significand and a power of ten is
reached in steps: the significand is rounded first, then multiplied or divided by powers of ten, so
that the result can differ in its last bits from the number nearest to the decimal.

A number is written with the fewest digits that read back as it, and of the decimals with that many
digits as the one nearest to it. The search compares exact fractions: a number stands for the reals
around it that round to it, and the first decimal grid with a point among them wins.
-/

namespace Sequencer.Decimal

/-- Greatest exponent of a power of ten among the floating-point numbers. -/
def greatestPower : Nat := 308

def power (n : Nat) : Float :=
  Float.ofScientific 1 false n

/-- Scales by a power of ten; none when the result is too large. Exponents below the range
are reached in several divisions, which stop at zero. -/
def scaleFloat (x : Float) (exponent : Int) : Option Float :=
  if 0 ≤ exponent then
    if exponent.toNat ≤ greatestPower then
      let scaled := x * power exponent.toNat
      if scaled.isInf then none else some scaled
    else if x == 0 then some x
    else none
  else if exponent.natAbs ≤ greatestPower then some (x / power exponent.natAbs)
  else if x == 0 then some x
  else scaleFloat (x / power greatestPower) (exponent + greatestPower)
termination_by exponent.natAbs
decreasing_by simp only [greatestPower] at *; omega

/-- The floating-point number for `significand` times a power of ten. -/
def scaled? (significand : Nat) (exponent : Int) : Option Float :=
  scaleFloat significand.toFloat exponent

/-- Digits, highest first, times a power of ten. -/
structure Digits where
  digits : List Char
  exponent : Int
  deriving DecidableEq, Repr, Inhabited

/-- The reals that round to a positive number, as fractions with one denominator. The ends
belong to them when the number's significand is even. -/
structure Interval where
  low : Nat
  value : Nat
  high : Nat
  denominator : Nat
  closed : Bool
  deriving DecidableEq, Repr, Inhabited

def fractionSize : Nat := 0x10000000000000

/-- The interval of the positive finite number with the given bits. Its lower half is half
as wide where the exponent changes. -/
def Interval.ofBits (bits : Nat) : Interval :=
  let fraction := bits % fractionSize
  let biased := bits / fractionSize % 2048
  let significand := if biased = 0 then fraction else fraction + fractionSize
  let exponent := max biased 1
  let below := if fraction = 0 ∧ 1 < biased then 1 else 2
  let up := Nat.pow 2 (exponent - 1077)
  ⟨(4 * significand - below) * up, 4 * significand * up, (4 * significand + 2) * up,
    Nat.pow 2 (1077 - exponent), significand % 2 = 0⟩

def gridPoint (n : Nat) (exponent : Int) : Nat × Nat :=
  (n * Nat.pow 10 exponent.toNat, Nat.pow 10 (-exponent).toNat)

def Interval.contains (i : Interval) (point : Nat × Nat) : Bool :=
  let scaled := point.1 * i.denominator
  let low := i.low * point.2
  let high := i.high * point.2
  if i.closed then low ≤ scaled && scaled ≤ high else low < scaled && scaled < high

def Interval.distance (i : Interval) (point : Nat × Nat) : Nat :=
  let scaled := point.1 * i.denominator
  let value := i.value * point.2
  max scaled value - min scaled value

/-- The best point of a grid inside the interval: of the two neighbours of the value the
nearer, of two equally near the even one. -/
def Interval.onGrid? (i : Interval) (exponent : Int) : Option Nat :=
  let unit := gridPoint 1 exponent
  let below := i.value * unit.2 / (i.denominator * unit.1)
  let above := below + 1
  let low := gridPoint below exponent
  let high := gridPoint above exponent
  match i.contains low, i.contains high with
  | false, false => none
  | true, false => some below
  | false, true => some above
  | true, true =>
    let d := i.distance low
    let e := i.distance high
    if d < e ∨ (d = e ∧ below % 2 = 0) then some below else some above

/-- The number of digits before the point of a positive fraction; zero or less when it
is below one tenth. Searched from an upper bound downwards. -/
def Interval.magnitude (i : Interval) : Int → Nat → Int
  | e, 0 => e
  | e, steps + 1 =>
    let p := gridPoint 1 (e - 1)
    if p.1 * i.denominator ≤ i.value * p.2 then e else i.magnitude (e - 1) steps

/-- Tries one, two and more digits; seventeen are always enough. -/
def Interval.shortest (i : Interval) : Digits :=
  let top := i.magnitude 310 640
  let hit := (List.range 17).findSome? fun n =>
    let exponent := top - (n + 1 : Nat)
    (i.onGrid? exponent).map fun digits => (digits, exponent)
  match hit with
  | some (digits, exponent) => strip (Nat.toDigits 10 digits).reverse exponent
  | none => ⟨['0'], 0⟩
where
  /-- Drops final zeros from reversed digits. -/
  strip : List Char → Int → Digits
    | '0' :: rest, exponent => strip rest (exponent + 1)
    | reversed, exponent => ⟨reversed.reverse, exponent⟩

/-- From `10⁻⁵` up to `10¹⁶` a number is written with a point and at least one digit on
either side of it; otherwise with a signed exponent, and a point only behind a first of
several digits. -/
def Digits.text (d : Digits) : List Char :=
  let count : Int := d.digits.length
  let point := count + d.exponent
  if 0 ≤ d.exponent ∧ point ≤ 16 then
    d.digits ++ List.replicate d.exponent.toNat '0' ++ ['.', '0']
  else if 0 < point ∧ point ≤ 16 then
    d.digits.take point.toNat ++ '.' :: d.digits.drop point.toNat
  else if -5 < point ∧ point ≤ 0 then
    ['0', '.'] ++ List.replicate (-point).toNat '0' ++ d.digits
  else
    let tail := match d.digits.drop 1 with
      | [] => []
      | rest => '.' :: rest
    let sign := if 0 < point then '+' else '-'
    d.digits.take 1 ++ tail ++ 'e' :: sign :: Nat.toDigits 10 (point - 1).natAbs

def floatText (x : Float) : String :=
  let bits := x.toBits.toNat
  let signSize := UInt64.size / 2
  let sign := if bits < signSize then [] else ['-']
  let size := bits % signSize
  let digits := if size = 0 then ['0', '.', '0'] else (Interval.ofBits size).shortest.text
  String.ofList (sign ++ digits)

end Sequencer.Decimal
