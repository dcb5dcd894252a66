import Sequencer.Proofs.Json.Exact
import Sequencer.Timeline.Json

/-! # Reading a timeline back

Everything in a timeline stands in its text: a reader that knows nothing of the order of the
members, and takes integers as they are written, finds the timeline again.
-/

namespace Sequencer

open Json (Document Tree Value)

def InstrumentClass.read? (tree : Tree) : Option InstrumentClass := do
  let name ← tree.text?
  if name = "melodic" then some .melodic
  else if name = "percussion" then some .percussion
  else none

/-- The kind of an event, read from the whole event. -/
def EventKind.read? (tree : Tree) : Option EventKind := do
  let name ← tree.field? "type" Tree.text?
  if name = "program-change" then
    return .programChange (← tree.field? "program" Tree.byte?)
  else if name = "note-on" then
    return .noteOn (← tree.field? "pitch" Tree.byte?) (← tree.field? "velocity" Tree.byte?)
  else if name = "note-off" then
    return .noteOff (← tree.field? "pitch" Tree.byte?) (← tree.field? "velocity" Tree.byte?)
  else if name = "tempo-change" then
    return .tempoChange (← tree.field? "bpm" Tree.word?)
  else none

def Event.read? (tree : Tree) : Option Event :=
  return {
    tick := ← tree.field? "tick" Tree.natural?
    channel := ← tree.field? "channel" Tree.byte?
    kind := ← EventKind.read? tree }

def TrackEvents.read? (tree : Tree) : Option TrackEvents :=
  return {
    index := ← tree.field? "index" Tree.natural?
    name := ← tree.field? "name" Tree.optional?
    channel := ← tree.field? "channel" Tree.byte?
    kind := ← tree.field? "class" InstrumentClass.read?
    events := ← tree.field? "events" (Tree.list? Event.read?)
    endTick := ← tree.field? "end_tick" Tree.natural? }

namespace Timeline

def read? (tree : Tree) : Option Timeline :=
  return {
    resolution := ← tree.field? "resolution" Tree.word?
    initialTempo := ← tree.field? "initial_tempo" Tree.word?
    tracks := ← tree.field? "tracks" (Tree.list? TrackEvents.read?) }

/-- Reads a text that follows the grammar from its beginning to its end. -/
def ofText? (text : String) : Option Timeline :=
  let document := Document.ofText text
  if document.ended && document.root.isWhole then read? document.root else none

end Timeline

theorem InstrumentClass.read?_name (kind : InstrumentClass) :
    InstrumentClass.read? (Value.string kind.name).tree = some kind := by
  cases kind <;> simp [read?, name]

namespace Event

/-- The contents of an event have other keys than its place and its kind. -/
theorem keys_nodup (event : Event) : (event.toJson.members.map Prod.fst).Nodup := by
  obtain ⟨tick, channel, kind⟩ := event
  cases kind <;> simp [toJson, Value.members, EventKind.contents]

theorem field?_toJson {α : Type} (event : Event) (key : String) (read : Tree → Option α) :
    event.toJson.tree.field? key read =
      (event.toJson.members.lookup key).bind fun value => read value.tree :=
  Value.field?_tree key event.keys_nodup

theorem kind_read?_toJson (event : Event) :
    EventKind.read? event.toJson.tree = some event.kind := by
  obtain ⟨tick, channel, kind⟩ := event
  simp only [EventKind.read?, field?_toJson]
  cases kind <;> simp [toJson, Value.members, EventKind.name, EventKind.contents, List.lookup_cons]

theorem read?_toJson (event : Event) : Event.read? event.toJson.tree = some event := by
  simp only [read?, field?_toJson, kind_read?_toJson]
  simp [toJson, Value.members, List.lookup_cons]

end Event

namespace TrackEvents

theorem field?_toJson {α : Type} (track : TrackEvents) (key : String) (read : Tree → Option α) :
    track.toJson.tree.field? key read =
      (track.toJson.members.lookup key).bind fun value => read value.tree :=
  Value.field?_tree key (by simp)

theorem read?_toJson (track : TrackEvents) : TrackEvents.read? track.toJson.tree = some track := by
  have hevents := Value.list?_tree Event.read?_toJson track.events
  simp only [read?, field?_toJson]
  simp [toJson, Value.members, List.lookup_cons, hevents, InstrumentClass.read?_name]

end TrackEvents

namespace Timeline

theorem field?_toJson {α : Type} (timeline : Timeline) (key : String) (read : Tree → Option α) :
    timeline.toJson.tree.field? key read =
      (timeline.toJson.members.lookup key).bind fun value => read value.tree :=
  Value.field?_tree key (by simp)

theorem read?_toJson (timeline : Timeline) : read? timeline.toJson.tree = some timeline := by
  have htracks := Value.list?_tree TrackEvents.read?_toJson timeline.tracks
  simp only [read?, field?_toJson]
  simp [toJson, Value.members, List.lookup_cons, htracks]

theorem ofText?_text (timeline : Timeline) : ofText? timeline.text = some timeline := by
  rw [ofText?, text, Value.ofText_render]
  simp [Value.isWhole_tree, read?_toJson]

/-- The text of a timeline gives back the whole of it, so no two timelines have one text. -/
theorem text_loses_nothing :
    (∀ timeline : Timeline, ofText? timeline.text = some timeline) ∧ Function.Injective text := by
  refine ⟨ofText?_text, fun timeline other h => ?_⟩
  have hread := congrArg ofText? h
  rw [ofText?_text, ofText?_text] at hread
  exact Option.some_injective _ hread

end Timeline
end Sequencer
