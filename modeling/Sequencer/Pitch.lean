/-! # Named pitches

A pitch named by its step, octave and alteration, as a MIDI note number; the C of
octave 4 is number 60. The number is computed in signed 32-bit words, step by step,
and a result that leaves the words is reported instead of wrapped.
-/

namespace Sequencer.Pitch

/-- Greatest note number, and greatest value of any MIDI data byte. -/
def greatest : UInt8 := 127

inductive Overflow where
  | overflow
  deriving DecidableEq, Repr, Inhabited

/-- Semitones above C, for a step of either ASCII case. -/
def semitone? (step : Char) : Option Int :=
  match step.toUpper with
  | 'C' => some 0
  | 'D' => some 2
  | 'E' => some 4
  | 'F' => some 5
  | 'G' => some 7
  | 'A' => some 9
  | 'B' => some 11
  | _ => none

/-- A value that has to fit a signed 32-bit word. -/
def word (n : Int) : Except Overflow Int :=
  if Int32.minValue.toInt ≤ n ∧ n ≤ Int32.maxValue.toInt then .ok n else .error .overflow

/-- The note number of a named pitch; none for an unknown step and outside 0 to 127. -/
def named (step : Char) (octave alter : Int32) : Except Overflow (Option UInt8) :=
  match semitone? step with
  | none => .ok none
  | some semitone => do
    let octaves ← word (octave.toInt + 1)
    let base ← word (octaves * 12)
    let natural ← word (base + semitone)
    let number ← word (natural + alter.toInt)
    return if 0 ≤ number ∧ number ≤ 127 then some (UInt8.ofNat number.toNat) else none

end Sequencer.Pitch
