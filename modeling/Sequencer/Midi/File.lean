import Sequencer.Midi.Message

/-! # Files

A Standard MIDI File of type 1: a header chunk, then one chunk for each track of a
timeline, in which events follow each other after delta times. The division of the file is
the resolution of the timeline, so that ticks are written as they are.
-/

namespace Sequencer.Midi

structure Layout where
  /-- Whether each chunk begins with the name of its track. -/
  trackNames : Bool := true
  deriving DecidableEq, Repr, Inhabited

/-- Greatest division; bit 15 would select another way of timing. -/
def greatestDivision : Nat := 0x7FFF

def chunk (tag : List UInt8) (contents : List UInt8) : List UInt8 :=
  tag ++ bigEndian 4 contents.length ++ contents

/-- The letters `MThd`. -/
def headerTag : List UInt8 := [0x4D, 0x54, 0x68, 0x64]

/-- The letters `MTrk`. -/
def trackTag : List UInt8 := [0x4D, 0x54, 0x72, 0x6B]

def header (tracks division : Nat) : List UInt8 :=
  chunk headerTag (bigEndian 2 1 ++ bigEndian 2 tracks ++ bigEndian 2 division)

/-- The name under which a track is written: its own, or its number counted from one. -/
def writtenName (track : TrackEvents) : String :=
  track.name.getD ("Track " ++ toString (track.index + 1))

def nameMessage (name : String) : Except Error (List UInt8) := do
  let bytes := name.toUTF8.data.toList
  return [0, 0xFF, 0x03] ++ (← quantity bytes.length) ++ bytes

/-- Events with their delta times, after an event at the tick `last`. -/
def timedMessages : (last : Nat) → List Event → Except Error (List UInt8)
  | _, [] => .ok []
  | last, event :: rest => do
    let delta ← quantity (event.tick - last)
    let bytes ← message event
    return delta ++ bytes ++ (← timedMessages event.tick rest)

def endOfTrack : List UInt8 := [0, 0xFF, 0x2F, 0]

/-- The contents of a track's chunk; the first track also bears the initial tempo. -/
def trackContents (layout : Layout) (initialTempo : Option UInt32) (track : TrackEvents) :
    Except Error (List UInt8) := do
  let name ← if layout.trackNames then nameMessage (writtenName track) else .ok []
  let tempo ← match initialTempo with
    | some bpm => (tempoMessage bpm).map ([0] ++ ·)
    | none => .ok []
  let events ← timedMessages 0 (sortByTick track.events)
  return name ++ tempo ++ events ++ endOfTrack

def trackChunks (layout : Layout) : Option UInt32 → List TrackEvents → Except Error (List UInt8)
  | _, [] => .ok []
  | initialTempo, track :: rest => do
    let contents ← trackContents layout initialTempo track
    return chunk trackTag contents ++ (← trackChunks layout none rest)

def file (layout : Layout) (timeline : Timeline) : Except Error (List UInt8) := do
  let division := timeline.resolution.toNat
  if division = 0 ∨ greatestDivision < division then
    .error (.resolutionOutOfRange timeline.resolution)
  return header timeline.tracks.length division
    ++ (← trackChunks layout (some timeline.initialTempo) timeline.tracks)

end Sequencer.Midi
