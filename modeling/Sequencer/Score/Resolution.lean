import Sequencer.Compile.Error

/-! # The global resolution

The product of the distinct bar resolutions of a score, in ticks per quarter note.
It is a multiple of each of them, so that a sixteenth note of any bar lasts a whole
number of ticks.
-/

namespace Sequencer

/-- Puts a number into a strictly increasing list that may hold it already. -/
def insertDistinct (n : UInt32) : List UInt32 → List UInt32
  | [] => [n]
  | m :: ms =>
    if n < m then n :: m :: ms
    else if n = m then m :: ms
    else m :: insertDistinct n ms

def checkedMul? (m n : UInt32) : Option UInt32 :=
  if m.toNat * n.toNat < UInt32.size then some (m * n) else none

namespace Score

def resolutions (score : Score) : List UInt32 :=
  score.tracks.flatMap fun track => track.bars.map Bar.resolution

def distinctResolutions (score : Score) : List UInt32 :=
  score.resolutions.foldl (fun distinct n => insertDistinct n distinct) []

def firstZeroResolution? (score : Score) : Option (Nat × Nat) :=
  score.tracks.zipIdx.findSome? fun (track, t) =>
    (track.bars.findIdx? fun bar => bar.resolution == 0).map fun b => (t, b)

/-- A score without bars has resolution one. -/
def globalResolution (score : Score) : Except CompileError UInt32 :=
  match score.firstZeroResolution? with
  | some (track, bar) => .error (.zeroResolution track bar)
  | none =>
    match score.distinctResolutions.foldlM checkedMul? 1 with
    | some product => .ok product
    | none => .error (.resolutionOverflow score.distinctResolutions)

end Score

/-- Ticks of a sixteenth note in a bar of the given resolution. -/
def tickMultiplier (global bar : UInt32) : Nat :=
  global.toNat / bar.toNat

end Sequencer
