import Sequencer.Proofs.Compile.Acceptance
import Sequencer.Proofs.Timeline.Balance

/-! # Playback

In the timeline of an accepted score every note that begins ends, and none ends before it has
begun: in the events of each track and in those of all tracks together. The notes of a track
begin one after another, in the order of the score.
-/

namespace Sequencer

theorem outputs_paired {σ α : Type*} {step : σ → α → σ} {out : σ → α → List Emission}
    {channel : UInt8} (h : ∀ s a, Paired ((out s a).map (Emission.event channel))) (s : σ)
    (xs : List α) : Paired ((outputs step out s xs).map (Emission.event channel)) := by
  induction xs generalizing s with
  | nil => exact .nil
  | cons a xs ih =>
    rw [outputs, List.map_append]
    exact (h s a).append (ih (step s a))

theorem Note.emissions_paired (placement : NoteOff) (multiplier tick : Nat) (note : Note)
    (channel : UInt8) :
    Paired ((note.emissions placement multiplier tick).map (Emission.event channel)) := by
  cases hpitch : note.pitch with
  | none => simp only [emissions, hpitch]; exact .nil
  | some pitch =>
    simp only [emissions, hpitch]
    exact .note (Nat.le_add_right _ _) .nil

theorem Bar.emissions_paired (settings : Settings) (cursor : Cursor) (bar : Bar)
    (channel : UInt8) : Paired ((bar.emissions settings cursor).map (Emission.event channel)) := by
  rw [emissions, tempoEmissions]
  split_ifs
  · exact .nil
  · exact outputs_paired (fun _ _ => Note.emissions_paired _ _ _ _ _) _ _
  · rw [List.map_append]
    exact (Paired.other rfl .nil).append
      (outputs_paired (fun _ _ => Note.emissions_paired _ _ _ _ _) _ _)

theorem Track.emissions_paired (settings : Settings) (track : Track) (channel : UInt8) :
    Paired ((track.emissions settings).map (Emission.event channel)) := by
  rw [emissions, List.map_append]
  refine Paired.append ?_ (outputs_paired (fun _ _ => Bar.emissions_paired _ _ _ _) _ _)
  cases track.instrument with
  | melodic program => exact .other rfl .nil
  | percussion => exact .nil

/-- The note-ons lie between two ticks, each later than those before it. -/
structure Rising (first last : Nat) (emissions : List Emission) : Prop where
  le : first ≤ last
  bounds : ∀ emission ∈ emissions, emission.kind.isNoteOn →
    first ≤ emission.tick ∧ emission.tick < last
  later : emissions.Pairwise fun a b => a.kind.isNoteOn → b.kind.isNoteOn → a.tick < b.tick

theorem Rising.nil {first last : Nat} (h : first ≤ last) : Rising first last [] :=
  ⟨h, nofun, List.Pairwise.nil⟩

theorem Rising.single {tick : Nat} {emission : Emission} (h : emission.kind.isNoteOn = false) :
    Rising tick tick [emission] where
  le := le_rfl
  bounds := by simp [h]
  later := List.pairwise_singleton _ _

theorem Rising.append {first middle last : Nat} {xs ys : List Emission}
    (hx : Rising first middle xs) (hy : Rising middle last ys) : Rising first last (xs ++ ys) where
  le := hx.le.trans hy.le
  bounds emission hmem hon := by
    rcases List.mem_append.mp hmem with hmem | hmem
    · have := hx.bounds emission hmem hon
      exact ⟨this.1, this.2.trans_le hy.le⟩
    · have := hy.bounds emission hmem hon
      exact ⟨hx.le.trans this.1, this.2⟩
  later := List.pairwise_append.mpr ⟨hx.later, hy.later, fun a ha b hb hona honb =>
    (hx.bounds a ha hona).2.trans_le (hy.bounds b hb honb).1⟩

/-- The note-ons of a run, if each step emits its own before the tick where it leads. -/
theorem outputs_rising {σ α : Type*} {step : σ → α → σ} {out : σ → α → List Emission}
    (tick : σ → Nat) (h : ∀ s a, Rising (tick s) (tick (step s a)) (out s a)) (s : σ)
    (xs : List α) : Rising (tick s) (tick (xs.foldl step s)) (outputs step out s xs) := by
  induction xs generalizing s with
  | nil => exact .nil le_rfl
  | cons a xs ih => exact (h s a).append (ih (step s a))

theorem Note.emissions_rising (placement : NoteOff) (multiplier tick : Nat) (note : Note) :
    Rising tick (tick + note.ticks multiplier) (note.emissions placement multiplier tick) := by
  have hlater : tick < tick + note.ticks multiplier :=
    Nat.lt_add_of_pos_right (Nat.succ_pos _)
  cases hpitch : note.pitch with
  | none =>
    simp only [emissions, hpitch]
    exact .nil hlater.le
  | some pitch =>
    simp only [emissions, hpitch]
    exact ⟨hlater.le, by simp [EventKind.isNoteOn, hlater], by simp [EventKind.isNoteOn]⟩

theorem Bar.emissions_rising (settings : Settings) (cursor : Cursor) (bar : Bar) :
    Rising cursor.tick (bar.pass settings cursor).tick (bar.emissions settings cursor) := by
  have hnotes := outputs_rising id (Note.emissions_rising settings.options.noteOff
    (tickMultiplier settings.resolution bar.resolution)) cursor.tick bar.played
  rw [emissions, pass, tempoEmissions]
  split_ifs
  · exact .nil le_rfl
  · exact hnotes
  · exact (Rising.single rfl).append hnotes

theorem Track.emissions_rising (settings : Settings) (track : Track) :
    ∃ last, Rising firstTick last (track.emissions settings) := by
  have hbars := outputs_rising Cursor.tick (Bar.emissions_rising settings)
    (.initial settings.options.initialTempo) track.bars
  refine ⟨_, Rising.append ?_ hbars⟩
  cases track.instrument with
  | melodic program => exact .single rfl
  | percussion => exact .nil le_rfl

theorem Note.filter_map_emissions (placement : NoteOff) (multiplier tick : Nat) (note : Note) :
    ((note.emissions placement multiplier tick).filter fun emission =>
      emission.kind.isNoteOn).map (fun emission => emission.kind.pitch?) =
        note.pitch.toList.map some := by
  cases hpitch : note.pitch <;> simp [emissions, hpitch, EventKind.isNoteOn, EventKind.pitch?]

theorem Bar.Sound.filter_map_emissions {bar : Bar} (h : bar.Sound) (settings : Settings)
    (cursor : Cursor) :
    ((bar.emissions settings cursor).filter fun emission => emission.kind.isNoteOn).map
      (fun emission => emission.kind.pitch?) = (bar.notes.filterMap Note.pitch).map some := by
  have hmark : ((bar.tempoEmissions cursor).filter fun emission =>
      emission.kind.isNoteOn) = [] := by
    rw [tempoEmissions]
    split_ifs <;> rfl
  rw [h.emissions_eq, List.filter_append, hmark, List.nil_append, Note.allEmissions,
    filter_map_outputs (g := fun note => note.pitch.toList.map some)
      fun _ _ _ => Note.filter_map_emissions _ _ _ _,
    List.filterMap_eq_flatMap_toList, List.map_flatMap]

theorem Track.filter_map_emissions (settings : Settings) {track : Track}
    (h : ∀ bar ∈ track.bars, bar.Sound) :
    ((track.emissions settings).filter fun emission => emission.kind.isNoteOn).map
      (fun emission => emission.kind.pitch?) =
        (track.bars.flatMap fun bar => bar.notes.filterMap Note.pitch).map some := by
  have hprogram : (track.instrument.emissions.filter fun emission =>
      emission.kind.isNoteOn) = [] := by
    cases track.instrument <;> rfl
  rw [emissions, List.filter_append, hprogram, List.nil_append,
    filter_map_outputs (g := fun bar => (bar.notes.filterMap Note.pitch).map some)
      fun _ bar hbar => (h bar hbar).filter_map_emissions _ _,
    List.map_flatMap]

theorem filter_isNoteOn_sortByTick {first last : Nat} {emissions : List Emission}
    (h : Rising first last emissions) (channel : UInt8) :
    (sortByTick (emissions.map (Emission.event channel))).filter (fun e => e.kind.isNoteOn) =
      (emissions.filter fun emission => emission.kind.isNoteOn).map (Emission.event channel) := by
  have hlater := List.pairwise_filter.mpr h.later
  rw [filter_sortByTick, List.filter_map]
  apply sortByTick_eq_self
  exact List.pairwise_map.mpr (hlater.imp fun h => h.le)

theorem Score.compile_track_playable {score : Score} {options : Options} {timeline : Timeline}
    (h : score.compile options = .ok timeline) {events : TrackEvents}
    (hevents : events ∈ timeline.tracks) :
    ∃ arrivals, Paired arrivals ∧ events.events = sortByTick arrivals := by
  obtain ⟨i, track, htrack, hi⟩ := exists_track_of_mem h hevents
  obtain ⟨channel, -, hresult⟩ := compile_track h htrack
  cases hi.symm.trans hresult
  exact ⟨_, track.emissions_paired _ channel, rfl⟩

/-- In playback no note ends before it begins and none keeps on sounding, neither in a track nor
in all tracks together. The notes of a track begin at later and later ticks, in the order of the
score. -/
theorem Score.compile_no_hanging_note {score : Score} {options : Options} {timeline : Timeline}
    (h : score.compile options = .ok timeline) :
    (∀ channel pitch, Balanced channel pitch timeline.merged ∧
      ∀ events ∈ timeline.tracks, Balanced channel pitch events.events) ∧
    ∀ (i : Nat) (track : Track), score.tracks[i]? = some track → ∃ events : TrackEvents,
      timeline.tracks[i]? = some events ∧
      let noteOns := events.events.filter fun event => event.kind.isNoteOn
      noteOns.Pairwise (fun a b => a.tick < b.tick) ∧
        noteOns.map (fun event => event.kind.pitch?) =
          (track.bars.flatMap fun bar => bar.notes.filterMap Note.pitch).map some := by
  constructor
  · intro channel pitch
    constructor
    · apply Playable.balanced
      apply Playable.flatMap
      intro events hevents
      obtain ⟨arrivals, hpaired, heq⟩ := compile_track_playable h hevents
      exact heq ▸ hpaired.playable
    · intro events hevents
      obtain ⟨arrivals, hpaired, heq⟩ := compile_track_playable h hevents
      exact heq ▸ hpaired.balanced channel pitch
  · intro i track htrack
    obtain ⟨channel, hsound, hresult⟩ := compile_track h htrack
    obtain ⟨last, hrising⟩ := track.emissions_rising ⟨options, timeline.resolution⟩
    refine ⟨_, hresult, ?_, ?_⟩
    · rw [filter_isNoteOn_sortByTick hrising]
      exact List.pairwise_map.mpr (List.pairwise_filter.mpr hrising.later)
    · rw [filter_isNoteOn_sortByTick hrising, List.map_map]
      exact track.filter_map_emissions _ hsound

/-- A pitch that is struck again on two tracks while it still sounds. -/
theorem Score.compile_no_hanging_note_restruck :
    let bars : List Bar := [.ofNotes 120 1 [⟨some 60, .eighth⟩, ⟨some 60, .sixteenth⟩,
      ⟨some 60, .sixteenth⟩]]
    let score : Score := ⟨none, [.ofBars (.melodic 0) bars, .ofBars .percussion bars]⟩
    ∃ timeline, score.compile {} = .ok timeline ∧ Balanced 9 60 timeline.merged ∧
      ∃ events : TrackEvents, timeline.tracks[1]? = some events ∧
        events.events = [⟨1, 9, .noteOn 60 60⟩, ⟨4, 9, .noteOn 60 60⟩, ⟨5, 9, .noteOff 60 60⟩,
          ⟨6, 9, .noteOff 60 60⟩, ⟨6, 9, .noteOn 60 60⟩, ⟨8, 9, .noteOff 60 60⟩] ∧
        (events.events.filter fun event => event.kind.isNoteOn).map (fun event =>
          event.kind.pitch?) = [some 60, some 60, some 60] := by
  intro bars score
  have hcompile : score.compile {} = .ok ⟨1, 120, [
      ⟨0, none, 0, .melodic, [⟨1, 0, .programChange 0⟩, ⟨1, 0, .noteOn 60 60⟩,
        ⟨4, 0, .noteOn 60 60⟩, ⟨5, 0, .noteOff 60 60⟩, ⟨6, 0, .noteOff 60 60⟩,
        ⟨6, 0, .noteOn 60 60⟩, ⟨8, 0, .noteOff 60 60⟩], 8⟩,
      ⟨1, none, 9, .percussion, [⟨1, 9, .noteOn 60 60⟩, ⟨4, 9, .noteOn 60 60⟩,
        ⟨5, 9, .noteOff 60 60⟩, ⟨6, 9, .noteOff 60 60⟩, ⟨6, 9, .noteOn 60 60⟩,
        ⟨8, 9, .noteOff 60 60⟩], 8⟩]⟩ := by
    decide +kernel
  obtain ⟨hbalanced, htracks⟩ := Score.compile_no_hanging_note hcompile
  obtain ⟨events, hevents, -, hpitches⟩ := htracks 1 (.ofBars .percussion bars) rfl
  cases hevents
  exact ⟨_, hcompile, (hbalanced 9 60).1, _, rfl, rfl, hpitches⟩

end Sequencer
