import Sequencer.Compile.Error

/-! # Output channels

Percussion tracks draw two of the sixteen channels, melodic tracks the others. A cursor for
each class stands at the channel that it draws next; it steps upwards, and that of the melodic
tracks jumps over the channels of percussion.
-/

namespace Sequencer

/-- The greatest number of tracks of a class. -/
def InstrumentClass.capacity : InstrumentClass → Nat
  | .melodic => 14
  | .percussion => 2

structure Channels where
  nextMelodic : UInt8
  nextPercussion : UInt8
  deriving DecidableEq, Repr, Inhabited

namespace Channels

def greatest : UInt8 := 15

def firstPercussion : UInt8 := 9

def lastPercussion : UInt8 := firstPercussion + 1

/-- First melodic channel behind those of percussion. -/
def resumption : UInt8 := lastPercussion + 1

def full : Channels :=
  ⟨0, firstPercussion⟩

/-- Draws a channel for a track. A cursor beyond the last channel of its class stays there. -/
def draw (channels : Channels) (track : Nat) (kind : InstrumentClass) :
    Except CompileError UInt8 × Channels :=
  match kind with
  | .melodic =>
    if greatest < channels.nextMelodic then
      (.error (.channelCapacityExceeded track .melodic InstrumentClass.melodic.capacity), channels)
    else
      let next := channels.nextMelodic + 1
      (.ok channels.nextMelodic,
        { channels with nextMelodic := if next = firstPercussion then resumption else next })
  | .percussion =>
    if lastPercussion < channels.nextPercussion then
      (.error (.channelCapacityExceeded track .percussion InstrumentClass.percussion.capacity),
        channels)
    else
      (.ok channels.nextPercussion, { channels with nextPercussion := channels.nextPercussion + 1 })

end Channels
end Sequencer
