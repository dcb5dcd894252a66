import Sequencer.Proofs.Compile.Emission

/-! # Order of arrival

A track can be filled by any mixture of insertions, notes and bars, with the cursor moved at
will. Whatever the mixture, its events are those it held at first and those emitted since, in
order of arrival, stably sorted by tick.
-/

namespace Sequencer.Walk

/-- One operation on a track under way. -/
inductive Step where
  | insert (tick : Nat) (kind : EventKind)
  | note (placement : NoteOff) (multiplier : Nat) (note : Note)
  /-- A bar that fails keeps what was done before it failed. -/
  | bar (settings : Settings) (trackIndex barIndex : Nat) (bar : Bar)
  | moveTo (tick : Nat)
  deriving DecidableEq, Repr, Inhabited

namespace Step

def apply (walk : Walk) : Step → Walk
  | .insert tick kind => walk.emit tick kind
  | .note placement multiplier n => walk.note placement multiplier n
  | .bar settings trackIndex barIndex b => (walk.bar settings trackIndex barIndex b).2
  | .moveTo tick => { walk with cursor := { walk.cursor with tick := tick } }

/-- Where a step leaves the cursor. -/
def pass (cursor : Cursor) : Step → Cursor
  | .insert _ _ => cursor
  | .note _ multiplier n => { cursor with tick := cursor.tick + n.ticks multiplier }
  | .bar settings _ _ b => b.pass settings cursor
  | .moveTo tick => { cursor with tick := tick }

def emissions (cursor : Cursor) : Step → List Emission
  | .insert tick kind => [⟨tick, kind⟩]
  | .note placement multiplier n => n.emissions placement multiplier cursor.tick
  | .bar settings _ _ b => b.emissions settings cursor
  | .moveTo _ => []

theorem apply_eq (walk : Walk) (step : Step) :
    step.apply walk = ⟨step.pass walk.cursor, walk.track.insertAll (step.emissions walk.cursor)⟩ := by
  cases step with
  | insert tick kind => rfl
  | note placement multiplier n => exact Walk.note_eq placement multiplier walk n
  | bar settings trackIndex barIndex b => exact Walk.bar_snd settings trackIndex barIndex b walk
  | moveTo tick => rfl

end Step

def run (steps : List Step) (walk : Walk) : Walk :=
  steps.foldl Step.apply walk

def emitted (steps : List Step) (cursor : Cursor) : List Emission :=
  outputs Step.pass Step.emissions cursor steps

/-- All events that a track has seen, in order of arrival. -/
def arrivals (steps : List Step) (walk : Walk) : List Event :=
  walk.track.events ++ (emitted steps walk.cursor).map (Emission.event walk.track.channel)

theorem run_eq (steps : List Step) (walk : Walk) :
    run steps walk =
      ⟨steps.foldl Step.pass walk.cursor, walk.track.insertAll (emitted steps walk.cursor)⟩ := by
  induction steps generalizing walk with
  | nil => rfl
  | cons step rest ih =>
    calc run (step :: rest) walk = run rest (step.apply walk) := rfl
      _ = ⟨(step :: rest).foldl Step.pass walk.cursor,
          walk.track.insertAll (emitted (step :: rest) walk.cursor)⟩ := by
        rw [ih, Step.apply_eq]
        simp [emitted, outputs, TrackEvents.insertAll_append]

/-- A track in tick order stays the stable sort of its arrivals through any run, and nothing
but its events changes. -/
theorem run_track_stable (steps : List Step) (walk : Walk) (h : InTickOrder walk.track.events) :
    (run steps walk).track = { walk.track with events := sortByTick (arrivals steps walk) } ∧
      InTickOrder (run steps walk).track.events ∧
      (run steps walk).track.events.Perm (arrivals steps walk) ∧
      ∀ tick, atTick tick (run steps walk).track.events = atTick tick (arrivals steps walk) := by
  have htrack : (run steps walk).track =
      { walk.track with events := sortByTick (arrivals steps walk) } := by
    rw [run_eq, arrivals, ← walk.track.insertAll_events _ h]
    exact walk.track.insertAll_eq _
  rw [htrack]
  exact ⟨rfl, sortByTick_inTickOrder _, sortByTick_perm _, fun tick => atTick_sortByTick tick _⟩

/-- A long note, a jump back, an insertion on a tie and a bar that fails at its second note. -/
theorem run_track_stable_crowded :
    let steps : List Step := [.note .doubled 1 ⟨some 62, .quarter⟩, .moveTo 2,
      .insert 4 (.tempoChange 90),
      .bar ⟨{}, 4⟩ 0 0 (.ofNotes 150 1 [⟨some 64, .eighth⟩, ⟨some 200, .eighth⟩])]
    let walk : Walk := ⟨.initial 120, ⟨0, none, 2, .melodic, [⟨4, 2, .noteOn 60 60⟩], 0⟩⟩
    InTickOrder walk.track.events ∧
      (run steps walk).track.events = sortByTick (arrivals steps walk) ∧
      (run steps walk).track.events = [⟨1, 2, .noteOn 62 60⟩, ⟨2, 2, .tempoChange 150⟩,
        ⟨2, 2, .noteOn 64 60⟩, ⟨4, 2, .noteOn 60 60⟩, ⟨4, 2, .tempoChange 90⟩,
        ⟨9, 2, .noteOff 62 60⟩, ⟨18, 2, .noteOff 64 60⟩] := by
  intro steps walk
  have hordered : InTickOrder walk.track.events := by decide
  have hstable := (run_track_stable steps walk hordered).1
  exact ⟨hordered, congrArg TrackEvents.events hstable, by decide +kernel⟩

end Sequencer.Walk
