import Sequencer.Proofs.Compile.Acceptance

/-! # Timelines in closed form

In an accepted score every bar fills its length, so a bar starts at a tick that depends only on
its number and on how many notes come before it. All events of a track follow from these ticks
without a walk.
-/

namespace Sequencer

namespace Track

def notesBefore (track : Track) (b : Nat) : Nat :=
  ((track.bars.take b).map fun bar => bar.notes.length).sum

/-- The first tick of a bar: four times the global resolution for each bar before it, and a gap
of one tick after each note. -/
def barStart (track : Track) (global b : Nat) : Nat :=
  1 + 4 * global * b + track.notesBefore b

def noteStart (track : Track) (global b : Nat) (bar : Bar) (n : Nat) : Nat :=
  1 + 4 * global * b + (track.notesBefore b + n) +
    global / bar.resolution.toNat * ((bar.notes.take n).map Note.sixteenths).sum

/-- The tempo of the previous bar, and the initial one before the first bar. -/
def tempoBefore (track : Track) (initial : UInt32) (b : Nat) : UInt32 :=
  ((track.bars.take b).getLast?.map Bar.tempo).getD initial

end Track

/-- A pitched note from its first tick; it sounds twice its length if note-offs are doubled. -/
def Note.schedule (placement : NoteOff) (start length : Nat) (note : Note) : List Emission :=
  match note.pitch, placement with
  | none, _ => []
  | some pitch, .doubled => [⟨start, .noteOn pitch 60⟩, ⟨start + 2 * length, .noteOff pitch 60⟩]
  | some pitch, .nominalEnd => [⟨start, .noteOn pitch 60⟩, ⟨start + length, .noteOff pitch 60⟩]

namespace Track

def barSchedule (track : Track) (options : Options) (global : Nat) (bar : Bar) (b : Nat) :
    List Emission :=
  (if bar.tempo = track.tempoBefore options.initialTempo b then []
    else [⟨track.barStart global b, .tempoChange bar.tempo⟩]) ++
  bar.notes.zipIdx.flatMap fun (note, n) => note.schedule options.noteOff
    (track.noteStart global b bar n) (note.sixteenths * (global / bar.resolution.toNat))

/-- The events of a track, bar by bar. -/
def schedule (track : Track) (options : Options) (global : Nat) : List Emission :=
  (match track.instrument with
    | .melodic program => [⟨1, .programChange program⟩]
    | .percussion => []) ++
  track.bars.zipIdx.flatMap fun (bar, b) => track.barSchedule options global bar b

end Track

theorem Note.pass_eq (multiplier tick : Nat) (notes : List Note) :
    Note.pass multiplier tick notes =
      tick + notes.length + multiplier * (notes.map Note.sixteenths).sum := by
  rw [pass]
  induction notes generalizing tick with
  | nil => rfl
  | cons note notes ih =>
    rw [List.foldl_cons, ih, ticks, List.length_cons, List.map_cons, List.sum_cons]
    ring

theorem Note.emissions_eq_schedule (placement : NoteOff) (multiplier start : Nat) (note : Note) :
    note.emissions placement multiplier start =
      note.schedule placement start (note.sixteenths * multiplier) := by
  cases hpitch : note.pitch with
  | none => simp only [emissions, schedule, hpitch]
  | some pitch =>
    cases placement with
    | doubled => simp only [emissions, schedule, hpitch, Walk.soundingTicks, two_mul, noteVelocity]
    | nominalEnd => simp only [emissions, schedule, hpitch, Walk.soundingTicks, noteVelocity]

/-- A sound bar whose resolution divides the global one. -/
structure Bar.Fitting (global : UInt32) (bar : Bar) : Prop extends bar.Sound where
  resolution_pos : 0 < bar.resolution.toNat
  resolution_dvd : bar.resolution.toNat ∣ global.toNat

namespace Bar

variable {settings : Settings} {bars : List Bar}

/-- A fitting bar takes four times the global resolution and a gap for each note. -/
theorem Fitting.pass_tick {bar : Bar} (h : bar.Fitting settings.resolution) (cursor : Cursor) :
    (bar.pass settings cursor).tick =
      cursor.tick + 4 * settings.resolution.toNat + bar.notes.length := by
  rw [h.pass_eq, Note.pass_eq, h.sixteenths_eq, tickMultiplier, mul_left_comm,
    Nat.div_mul_cancel h.resolution_dvd]
  exact Nat.add_right_comm _ _ _

theorem foldl_pass_tick (h : ∀ bar ∈ bars, bar.Fitting settings.resolution) (cursor : Cursor) :
    (bars.foldl (Bar.pass settings) cursor).tick =
      cursor.tick + 4 * settings.resolution.toNat * bars.length +
        (bars.map fun bar => bar.notes.length).sum := by
  induction bars generalizing cursor with
  | nil => rfl
  | cons bar rest ih =>
    rcases List.forall_mem_cons.mp h with ⟨hbar, hrest⟩
    rw [List.foldl_cons, ih hrest, hbar.pass_tick, List.map_cons, List.sum_cons, List.length_cons]
    ring

theorem foldl_pass_tempo (h : ∀ bar ∈ bars, bar.Fitting settings.resolution) (cursor : Cursor) :
    (bars.foldl (Bar.pass settings) cursor).tempo =
      (bars.getLast?.map Bar.tempo).getD cursor.tempo := by
  induction bars generalizing cursor with
  | nil => rfl
  | cons bar rest ih =>
    rcases List.forall_mem_cons.mp h with ⟨hbar, hrest⟩
    rw [List.foldl_cons, ih hrest, hbar.pass_eq, List.getLast?_cons]
    cases rest.getLast? <;> rfl

theorem Fitting.emissions_eq {bar : Bar} (h : bar.Fitting settings.resolution) (cursor : Cursor) :
    bar.emissions settings cursor = bar.tempoEmissions cursor ++
      bar.notes.zipIdx.flatMap fun (note, n) => note.schedule settings.options.noteOff
        (cursor.tick + n + settings.resolution.toNat / bar.resolution.toNat *
          ((bar.notes.take n).map Note.sixteenths).sum)
        (note.sixteenths * (settings.resolution.toNat / bar.resolution.toNat)) := by
  rw [h.toSound.emissions_eq, Note.allEmissions, outputs_eq_flatMap]
  congr 1
  apply List.flatMap_congr
  rintro ⟨note, n⟩ hnote
  have hn : n ≤ bar.notes.length := (List.mem_zipIdx hnote).2.1.le.trans_eq (zero_add _)
  have hstart := Note.pass_eq (tickMultiplier settings.resolution bar.resolution) cursor.tick
    (bar.notes.take n)
  rw [List.length_take_of_le hn, Note.pass] at hstart
  simp only [Note.emissions_eq_schedule, hstart]
  rfl

end Bar

theorem Track.barStart_eq (track : Track) (settings : Settings) {b : Nat}
    (h : ∀ bar ∈ track.bars, bar.Fitting settings.resolution) (hb : b ≤ track.bars.length) :
    ((track.bars.take b).foldl (Bar.pass settings)
      (.initial settings.options.initialTempo)).tick =
        track.barStart settings.resolution.toNat b := by
  rw [Bar.foldl_pass_tick fun bar hbar => h bar (List.mem_of_mem_take hbar),
    List.length_take_of_le hb]
  rfl

theorem Track.emissions_eq_schedule (track : Track) (settings : Settings)
    (h : ∀ bar ∈ track.bars, bar.Fitting settings.resolution) :
    track.emissions settings = track.schedule settings.options settings.resolution.toNat := by
  rw [emissions, schedule, outputs_eq_flatMap]
  congr 1
  apply List.flatMap_congr
  rintro ⟨bar, b⟩ hmem
  have hb : b ≤ track.bars.length := (List.mem_zipIdx hmem).2.1.le.trans_eq (zero_add _)
  have hbar : bar ∈ track.bars :=
    List.mem_of_getElem? (List.mem_zipIdx_iff_getElem?.mp hmem)
  have htick := track.barStart_eq settings h hb
  have hbefore : ∀ bar ∈ track.bars.take b, bar.Fitting settings.resolution :=
    fun bar hbar => h bar (List.mem_of_mem_take hbar)
  have htempo := Bar.foldl_pass_tempo hbefore (.initial settings.options.initialTempo)
  simp only [barSchedule, (h bar hbar).emissions_eq, Bar.tempoEmissions, htick, htempo]
  congr 1
  apply List.flatMap_congr
  rintro ⟨note, n⟩ -
  have hstart : track.noteStart settings.resolution.toNat b bar n =
      track.barStart settings.resolution.toNat b + n +
        settings.resolution.toNat / bar.resolution.toNat *
          ((bar.notes.take n).map Note.sixteenths).sum := by
    simp only [noteStart, barStart, Nat.add_assoc]
  rw [hstart]

/-- An accepted score gives each track its place, its name and its class, the events of its
schedule and an end behind its last bar. -/
theorem Score.compile_closed_form {score : Score} {options : Options} {timeline : Timeline}
    (h : score.compile options = .ok timeline) :
    score.globalResolution = .ok timeline.resolution ∧
      timeline.initialTempo = options.initialTempo ∧
      timeline.tracks.length = score.tracks.length ∧
      ∀ i track, score.tracks[i]? = some track → ∃ events : TrackEvents,
        timeline.tracks[i]? = some events ∧ events.index = i ∧ events.name = track.name ∧
        events.kind = track.instrument.kind ∧
        events.events.Perm ((track.schedule options timeline.resolution.toNat).map
          (Emission.event events.channel)) ∧
        events.endTick = track.barStart timeline.resolution.toNat track.bars.length := by
  obtain ⟨hresolution, htempo, htracks⟩ := compile_eq_ok h
  obtain ⟨hlength, hall⟩ := compileTracks_eq_ok Channels.full_leftBy htracks
  refine ⟨hresolution, htempo, hlength, ?_⟩
  intro i track htrack
  obtain ⟨channel, events, hresult, -, hevents⟩ := hall i track htrack
  obtain ⟨hsound, heq⟩ := Track.eventsOn_eq_ok hevents
  have hfit : ∀ bar ∈ track.bars, bar.Fitting timeline.resolution := by
    intro bar hbar
    have hdvd := dvd_of_globalResolution_eq_ok hresolution (List.mem_of_getElem? htrack) hbar
    exact ⟨hsound bar hbar, hdvd.1, hdvd.2⟩
  subst heq
  refine ⟨_, hresult, Nat.zero_add i, rfl, rfl, ?_, ?_⟩
  · rw [← track.emissions_eq_schedule ⟨options, timeline.resolution⟩ hfit]
    exact sortByTick_perm _
  · have hend := track.barStart_eq ⟨options, timeline.resolution⟩ hfit le_rfl
    rwa [List.take_length] at hend

/-- The note-off of a doubled note comes after the next bar has begun. -/
theorem Score.compile_closed_form_doubled_note :
    let lead : Track := ⟨some "lead", .melodic 5, [
      .ofNotes 120 1 [⟨some 60, .dottedEighth⟩, .rest .sixteenth],
      .ofNotes 90 2 [⟨some 62, .half⟩]]⟩
    let beat : Track := .ofBars .percussion [.ofNotes 120 2 [.rest .quarter, ⟨some 38, .quarter⟩]]
    ∃ timeline, Score.compile ⟨none, [lead, beat]⟩ {} = .ok timeline ∧
      timeline.resolution = 2 ∧ timeline.tracks.length = 2 ∧
      ∃ events : TrackEvents, timeline.tracks[0]? = some events ∧ events.endTick = 20 ∧
        events.events.Perm ((lead.schedule {} 2).map (Emission.event events.channel)) ∧
        lead.schedule {} 2 = [⟨1, .programChange 5⟩, ⟨1, .noteOn 60 60⟩, ⟨13, .noteOff 60 60⟩,
          ⟨11, .tempoChange 90⟩, ⟨11, .noteOn 62 60⟩, ⟨27, .noteOff 62 60⟩] := by
  intro lead beat
  have hcompile : Score.compile ⟨none, [lead, beat]⟩ {} = .ok ⟨2, 120, [
      ⟨0, some "lead", 0, .melodic, [⟨1, 0, .programChange 5⟩, ⟨1, 0, .noteOn 60 60⟩,
        ⟨11, 0, .tempoChange 90⟩, ⟨11, 0, .noteOn 62 60⟩, ⟨13, 0, .noteOff 60 60⟩,
        ⟨27, 0, .noteOff 62 60⟩], 20⟩,
      ⟨1, none, 9, .percussion, [⟨6, 9, .noteOn 38 60⟩, ⟨14, 9, .noteOff 38 60⟩], 11⟩]⟩ := by
    decide +kernel
  obtain ⟨-, -, hlength, htracks⟩ := Score.compile_closed_form hcompile
  obtain ⟨events, hevents, -, -, -, hperm, hend⟩ := htracks 0 lead rfl
  exact ⟨_, hcompile, rfl, hlength, events, hevents, hend, hperm, by decide⟩

end Sequencer
