import Sequencer.Json.Value
import Sequencer.Timeline.Basic

/-! # Timelines in JSON

A timeline is written in full and with a line for each item. An event is one object, which
names its kind between its place and its contents.
-/

namespace Sequencer

open Json (Value)

namespace EventKind

def name : EventKind → String
  | programChange _ => "program-change"
  | noteOn _ _ => "note-on"
  | noteOff _ _ => "note-off"
  | tempoChange _ => "tempo-change"

def contents : EventKind → List (String × Nat)
  | programChange program => [("program", program.toNat)]
  | noteOn pitch velocity => [("pitch", pitch.toNat), ("velocity", velocity.toNat)]
  | noteOff pitch velocity => [("pitch", pitch.toNat), ("velocity", velocity.toNat)]
  | tempoChange bpm => [("bpm", bpm.toNat)]

end EventKind

def Event.toJson (event : Event) : Value :=
  .object ([("tick", .number event.tick), ("channel", .number event.channel.toNat),
    ("type", .string event.kind.name)] ++ event.kind.contents.map fun (key, n) => (key, .number n))

def TrackEvents.toJson (track : TrackEvents) : Value :=
  .object [("index", .number track.index), ("name", .ofOption track.name),
    ("channel", .number track.channel.toNat), ("class", .string track.kind.name),
    ("events", .array (track.events.map Event.toJson)), ("end_tick", .number track.endTick)]

namespace Timeline

def toJson (timeline : Timeline) : Value :=
  .object [("resolution", .number timeline.resolution.toNat),
    ("initial_tempo", .number timeline.initialTempo.toNat),
    ("tracks", .array (timeline.tracks.map TrackEvents.toJson))]

def text (timeline : Timeline) : String :=
  timeline.toJson.render .pretty

end Timeline
end Sequencer
