import Sequencer.Score.Basic

/-! # Timelines

A timeline holds the events of each track at absolute ticks. Events go into a track
by their tick, and among events of one tick in order of arrival.
-/

namespace Sequencer

inductive EventKind where
  | programChange (program : UInt8)
  | noteOn (pitch velocity : UInt8)
  | noteOff (pitch velocity : UInt8)
  | tempoChange (bpm : UInt32)
  deriving DecidableEq, Repr, Inhabited

/-- A tempo change bears the channel of its track, although it belongs to none. -/
structure Event where
  tick : Nat
  channel : UInt8
  kind : EventKind
  deriving DecidableEq, Repr, Inhabited

structure TrackEvents where
  /-- Position of the track in its score. -/
  index : Nat
  name : Option String
  channel : UInt8
  kind : InstrumentClass
  events : List Event
  /-- The tick after the last note or rest. -/
  endTick : Nat
  deriving DecidableEq, Repr, Inhabited

structure Timeline where
  /-- Ticks of a quarter note. -/
  resolution : UInt32
  /-- The tempo before the first change. -/
  initialTempo : UInt32
  tracks : List TrackEvents
  deriving DecidableEq, Repr, Inhabited

namespace EventKind

def pitch? : EventKind → Option UInt8
  | noteOn pitch _ => some pitch
  | noteOff pitch _ => some pitch
  | _ => none

def isNoteOn : EventKind → Bool
  | noteOn _ _ => true
  | _ => false

end EventKind

/-- Halves a window, the first `size` items of a list, down to one item: the window moves on
to its upper half when that half begins with an item that satisfies `p`, and keeps its lower
half otherwise. The answer counts the items before the last window, and its item if that
satisfies `p`. -/
def searchWindow {α : Type} (p : α → Bool) (xs : List α) (size : Nat) : Nat :=
  if size ≤ 1 then if xs.head?.any p then 1 else 0
  else
    let half := size / 2
    let upper := xs.drop half
    if upper.head?.any p then half + searchWindow p upper (size - half)
    else searchWindow p xs (size - half)
termination_by size
decreasing_by all_goals omega

/-- The number of items before the first that fails `p`, found by binary search. It is that
number only if no item that satisfies `p` comes after one that fails it. -/
def partitionPoint {α : Type} (p : α → Bool) (xs : List α) : Nat :=
  searchWindow p xs xs.length

/-- Events in order of their ticks; the order among equal ticks is kept. -/
def sortByTick (events : List Event) : List Event :=
  events.mergeSort fun a b => a.tick ≤ b.tick

namespace TrackEvents

def empty (index : Nat) (name : Option String) (channel : UInt8) (kind : InstrumentClass) :
    TrackEvents :=
  ⟨index, name, channel, kind, [], 0⟩

/-- Adds an event on the track's channel, behind the events at its tick and at earlier ones. -/
def insert (track : TrackEvents) (tick : Nat) (kind : EventKind) : TrackEvents :=
  let position := partitionPoint (fun e : Event => e.tick ≤ tick) track.events
  { track with
    events := track.events.take position ++ ⟨tick, track.channel, kind⟩
      :: track.events.drop position }

def lastTick? (track : TrackEvents) : Option Nat :=
  track.events.getLast?.map Event.tick

def noteCount (track : TrackEvents) : Nat :=
  track.events.countP fun e => e.kind.isNoteOn

end TrackEvents

namespace Timeline

/-- The events of all tracks by tick; equal ticks keep the order of the tracks. -/
def merged (timeline : Timeline) : List Event :=
  sortByTick (timeline.tracks.flatMap TrackEvents.events)

def eventCount (timeline : Timeline) : Nat :=
  timeline.tracks.foldr (fun track count => track.events.length + count) 0

/-- The greatest last tick of the tracks, zero without events. -/
def lastTick (timeline : Timeline) : Nat :=
  (timeline.tracks.filterMap TrackEvents.lastTick?).foldl max 0

end Timeline
end Sequencer
