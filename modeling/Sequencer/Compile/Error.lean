import Sequencer.Score.Basic

/-! # Reasons to reject a score

Tracks, bars and notes are counted from zero.
-/

namespace Sequencer

inductive EmptyScore where
  | noTracks
  | noBarsInFirstTrack
  deriving DecidableEq, Repr, Inhabited

inductive CompileError where
  | emptyScore (reason : EmptyScore)
  | channelCapacityExceeded (track : Nat) (kind : InstrumentClass) (limit : Nat)
  | inconsistentBar (track bar : Nat) (name : Option String) (resolution : UInt32)
      (expected actual : Nat)
  | zeroResolution (track bar : Nat)
  /-- The distinct resolutions, in increasing order. -/
  | resolutionOverflow (resolutions : List UInt32)
  | zeroTempo (track bar : Nat)
  | zeroInitialTempo
  | invalidProgram (track : Nat) (program : UInt8)
  | invalidPitch (track bar note : Nat) (pitch : UInt8)
  deriving DecidableEq, Repr, Inhabited

def EmptyScore.message : EmptyScore → String
  | .noTracks => "no track in the score"
  | .noBarsInFirstTrack => "no bar in the first track"

namespace CompileError

/-- The name of a bar in quotes, after a blank. -/
def label : Option String → String
  | some name => " ('" ++ name ++ "')"
  | none => ""

def message : CompileError → String
  | emptyScore reason => "empty score: " ++ reason.message
  | channelCapacityExceeded track kind limit =>
    "too many " ++ kind.name ++ " tracks: track " ++ toString track ++ " exceeds the limit of "
      ++ toString limit
  | inconsistentBar track bar name resolution expected actual =>
    "inconsistent bar " ++ toString bar ++ label name ++ " in track " ++ toString track
      ++ ": notes span " ++ toString actual ++ " sixteenths, resolution "
      ++ toString resolution.toNat ++ " requires " ++ toString expected
  | zeroResolution track bar =>
    "bar " ++ toString bar ++ " in track " ++ toString track ++ " has a resolution of zero"
  | resolutionOverflow resolutions =>
    "global resolution overflows: product of ["
      ++ String.intercalate ", " (resolutions.map fun r => toString r.toNat) ++ "]"
  | zeroTempo track bar =>
    "bar " ++ toString bar ++ " in track " ++ toString track ++ " has a tempo of zero"
  | zeroInitialTempo => "initial tempo of zero"
  | invalidProgram track program =>
    "track " ++ toString track ++ " has program " ++ toString program.toNat
      ++ ", outside 0..=127"
  | invalidPitch track bar note pitch =>
    "note " ++ toString note ++ " of bar " ++ toString bar ++ " in track " ++ toString track
      ++ " has pitch " ++ toString pitch.toNat ++ ", outside 0..=127"

end CompileError
end Sequencer
