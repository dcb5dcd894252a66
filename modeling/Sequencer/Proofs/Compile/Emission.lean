import Sequencer.Compile.Basic
import Sequencer.Proofs.Outputs
import Sequencer.Proofs.Timeline.Order

/-! # What a walk emits

The result of a walk is told in two parts that do not look at the events already there: where
the cursor goes, and what is emitted on the way. A walk that fails has both parts too, up to
the point where it fails. Insertion then sorts all that is emitted by tick.
-/

namespace Sequencer

/-- An event before it reaches its track. -/
structure Emission where
  tick : Nat
  kind : EventKind
  deriving DecidableEq, Repr, Inhabited

def Emission.event (channel : UInt8) (emission : Emission) : Event :=
  ⟨emission.tick, channel, emission.kind⟩

namespace TrackEvents

def insertAll (track : TrackEvents) (emissions : List Emission) : TrackEvents :=
  emissions.foldl (fun track emission => track.insert emission.tick emission.kind) track

@[simp] theorem insertAll_nil (track : TrackEvents) : track.insertAll [] = track := rfl

theorem insertAll_append (track : TrackEvents) (xs ys : List Emission) :
    track.insertAll (xs ++ ys) = (track.insertAll xs).insertAll ys :=
  List.foldl_append

theorem insertAll_eq (track : TrackEvents) (emissions : List Emission) :
    track.insertAll emissions = { track with events := (track.insertAll emissions).events } := by
  induction emissions generalizing track with
  | nil => rfl
  | cons emission rest ih => exact ih (track.insert emission.tick emission.kind)

/-- All that is inserted into a track in tick order is sorted in behind what was there. -/
theorem insertAll_events (track : TrackEvents) (emissions : List Emission)
    (h : InTickOrder track.events) :
    (track.insertAll emissions).events =
      sortByTick (track.events ++ emissions.map (Emission.event track.channel)) := by
  induction emissions generalizing track with
  | nil => simp [sortByTick_eq_self h]
  | cons emission rest ih =>
    have hone := track.insert_events emission.tick emission.kind h
    have hrest := ih (track.insert emission.tick emission.kind)
      (hone ▸ sortByTick_inTickOrder _)
    calc (track.insertAll (emission :: rest)).events
        = sortByTick ((track.insert emission.tick emission.kind).events ++
            rest.map (Emission.event track.channel)) := hrest
      _ = sortByTick (track.events ++ (emission :: rest).map (Emission.event track.channel)) := by
        rw [hone, sortByTick_append_left, List.append_assoc]
        rfl

end TrackEvents

namespace Note

def ticks (multiplier : Nat) (note : Note) : Nat :=
  note.sixteenths * multiplier + 1

/-- The note-on and the note-off of a note; nothing for a rest. -/
def emissions (placement : NoteOff) (multiplier tick : Nat) (note : Note) : List Emission :=
  match note.pitch with
  | none => []
  | some pitch =>
    [⟨tick, .noteOn pitch noteVelocity⟩,
      ⟨tick + Walk.soundingTicks placement (note.sixteenths * multiplier),
        .noteOff pitch noteVelocity⟩]

/-- The tick that notes lead to. -/
def pass (multiplier tick : Nat) (notes : List Note) : Nat :=
  notes.foldl (fun tick note => tick + note.ticks multiplier) tick

def allEmissions (placement : NoteOff) (multiplier tick : Nat) (notes : List Note) :
    List Emission :=
  outputs (fun tick note => tick + note.ticks multiplier) (emissions placement multiplier)
    tick notes

end Note

theorem Walk.note_eq (placement : NoteOff) (multiplier : Nat) (walk : Walk) (note : Note) :
    walk.note placement multiplier note =
      ⟨{ walk.cursor with tick := walk.cursor.tick + note.ticks multiplier },
        walk.track.insertAll (note.emissions placement multiplier walk.cursor.tick)⟩ := by
  cases h : note.pitch <;> simp only [Walk.note, Note.emissions, h] <;> rfl

theorem Walk.notes_snd (placement : NoteOff) (multiplier trackIndex barIndex index : Nat)
    (notes : List Note) (walk : Walk) :
    (walk.notes placement multiplier trackIndex barIndex index notes).2 =
      ⟨{ walk.cursor with
          tick := Note.pass multiplier walk.cursor.tick
            (notes.takeWhile fun note => note.invalidPitch?.isNone) },
        walk.track.insertAll (Note.allEmissions placement multiplier walk.cursor.tick
          (notes.takeWhile fun note => note.invalidPitch?.isNone))⟩ := by
  induction notes generalizing index walk with
  | nil => rfl
  | cons note rest ih =>
    cases h : note.invalidPitch? with
    | some pitch => simp [Walk.notes, h, Note.pass, Note.allEmissions, outputs]
    | none =>
      simp only [Walk.notes, h, ih, Walk.note_eq]
      simp [h, Note.pass, Note.allEmissions, outputs, TrackEvents.insertAll_append]

namespace Bar

/-- The notes that a walk passes over: none in a bar of the wrong length. -/
def played (bar : Bar) : List Note :=
  if bar.totalSixteenths = bar.requiredSixteenths then
    bar.notes.takeWhile fun note => note.invalidPitch?.isNone
  else []

def tempoEmissions (cursor : Cursor) (bar : Bar) : List Emission :=
  if bar.tempo = cursor.tempo then [] else [⟨cursor.tick, .tempoChange bar.tempo⟩]

def emissions (settings : Settings) (cursor : Cursor) (bar : Bar) : List Emission :=
  if bar.tempo = 0 then []
  else bar.tempoEmissions cursor ++ Note.allEmissions settings.options.noteOff
    (tickMultiplier settings.resolution bar.resolution) cursor.tick bar.played

def pass (settings : Settings) (cursor : Cursor) (bar : Bar) : Cursor :=
  if bar.tempo = 0 then cursor
  else ⟨Note.pass (tickMultiplier settings.resolution bar.resolution) cursor.tick bar.played,
    bar.tempo, bar.resolution⟩

end Bar

theorem Walk.enter_eq (walk : Walk) (bar : Bar) :
    walk.enter bar = ⟨⟨walk.cursor.tick, bar.tempo, bar.resolution⟩,
      walk.track.insertAll (bar.tempoEmissions walk.cursor)⟩ := by
  by_cases h : bar.tempo = walk.cursor.tempo
  · simp [Walk.enter, Bar.tempoEmissions, h]
  · simp only [Walk.enter, Bar.tempoEmissions, h, if_false]
    rfl

/-- What a bar does to a walk, also when it fails. -/
theorem Walk.bar_snd (settings : Settings) (trackIndex barIndex : Nat) (bar : Bar)
    (walk : Walk) :
    (walk.bar settings trackIndex barIndex bar).2 =
      ⟨bar.pass settings walk.cursor, walk.track.insertAll (bar.emissions settings walk.cursor)⟩ := by
  by_cases htempo : bar.tempo = 0
  · simp [Walk.bar, Bar.pass, Bar.emissions, htempo]
  · by_cases hlength : bar.totalSixteenths = bar.requiredSixteenths
    · simp only [Walk.bar, Bar.checkLength, Bar.pass, Bar.emissions, Bar.played, htempo, hlength,
        if_true, if_false, Walk.notes_snd, Walk.enter_eq, TrackEvents.insertAll_append]
    · simp [Walk.bar, Bar.checkLength, Bar.pass, Bar.emissions, Bar.played, htempo, hlength,
        Walk.enter_eq, Note.pass, Note.allEmissions, outputs]

end Sequencer
