import Sequencer.Proofs.Compile.Guarantees
import Sequencer.Proofs.Compile.Placement
import Sequencer.Proofs.Score.GlobalResolution

/-! # One note at a time

With note-offs at the nominal ends of the notes, no event of a track is put in before another: the
events stand in the order in which they are emitted, and each note ends before the next one starts.
-/

namespace Sequencer

def Event.isNote (event : Event) : Bool :=
  event.kind.pitch?.isSome

def Track.pitches (track : Track) : List UInt8 :=
  track.bars.flatMap fun bar => bar.notes.filterMap Note.pitch

/-- A note-on and a note-off for each pitch in turn. -/
def alternation (pitches : List UInt8) : List EventKind :=
  pitches.flatMap fun pitch => [.noteOn pitch 60, .noteOff pitch 60]

/-- The events of the track as they are emitted, its notes in turn, one sounding at a time. -/
structure TrackEvents.Monophonic (events : TrackEvents) (track : Track) (options : Options)
    (global : Nat) : Prop where
  events_eq : events.events = (track.schedule options global).map (Emission.event events.channel)
  notes_eq : (events.events.filter Event.isNote).map Event.kind = alternation track.pitches
  notes_rise : (events.events.filter Event.isNote).Pairwise fun a b => a.tick < b.tick
  before_end : ∀ event ∈ events.events, event.tick < events.endTick ∨
    track.bars = [] ∧ event.kind.isProgramChange ∧ event.tick = 1 ∧ events.endTick = 1
  one_sounds : ∀ front, front <+: events.events →
    (front.countP fun event => event.kind.isNoteOff) ≤
        front.countP (fun event => event.kind.isNoteOn) ∧
      front.countP (fun event => event.kind.isNoteOn) ≤
        front.countP (fun event => event.kind.isNoteOff) + 1

namespace Strike

theorem tick_bounds {strike : Strike} {emission : Emission}
    (h : emission ∈ [strike.noteOn, strike.noteOff .nominalEnd]) :
    strike.start ≤ emission.tick ∧ emission.tick ≤ strike.start + strike.length := by
  rcases List.mem_pair.mp h with rfl | rfl
  · exact ⟨le_rfl, Nat.le_add_right _ _⟩
  · exact ⟨Nat.le_add_right _ _, le_rfl⟩

/-- Strikes that leave room between them bring notes at increasing ticks. -/
theorem pairwise_notes {strikes : List Strike}
    (hgap : strikes.Pairwise fun s t => s.start + s.length < t.start)
    (hpos : ∀ strike ∈ strikes, 0 < strike.length) :
    (strikes.flatMap fun strike => [strike.noteOn, strike.noteOff .nominalEnd]).Pairwise
      fun a b => a.tick < b.tick := by
  rw [List.pairwise_flatMap]
  constructor
  · intro strike hstrike
    simpa [noteOn, noteOff, stop] using hpos strike hstrike
  · apply hgap.imp
    intro s t hlt a ha b hb
    exact (tick_bounds ha).2.trans_lt (hlt.trans_le (tick_bounds hb).1)

end Strike

namespace Track

theorem barStrikes_map_pitch (track : Track) (global : Nat) (bar : Bar) (b : Nat) :
    (track.barStrikes global bar b).map Strike.pitch = bar.notes.filterMap Note.pitch := by
  rw [barStrikes, List.map_filterMap]
  simp only [Option.map_map]
  conv_rhs => rw [← List.zipIdx_map_fst 0 bar.notes, List.filterMap_map]
  apply List.filterMap_congr
  rintro ⟨note, n⟩ -
  exact Option.map_id'

theorem strikes_map_pitch (track : Track) (global : Nat) :
    (track.strikes global).map Strike.pitch = track.pitches := by
  simp only [strikes, List.map_flatMap, barStrikes_map_pitch]
  rw [pitches]
  conv_rhs => rw [← List.zipIdx_map_fst 0 track.bars, List.flatMap_map]

variable {track : Track} {options : Options} {global : UInt32}

theorem barStrikes_length_pos (hpos : 0 < global.toNat) {b : Nat} {bar : Bar}
    (hfit : bar.Fitting global) {strike : Strike}
    (h : strike ∈ track.barStrikes global.toNat bar b) : 0 < strike.length := by
  obtain ⟨n, note, pitch, -, -, rfl⟩ := mem_barStrikes.mp h
  exact Nat.mul_pos note.sixteenths_pos
    (Nat.div_pos (Nat.le_of_dvd hpos hfit.resolution_dvd) hfit.resolution_pos)

theorem strikes_length_pos (hpos : 0 < global.toNat) (hfit : ∀ bar ∈ track.bars, bar.Fitting global)
    {strike : Strike} (h : strike ∈ track.strikes global.toNat) : 0 < strike.length := by
  obtain ⟨⟨bar, b⟩, hbar, hstrike⟩ := List.mem_flatMap.mp h
  have hmem := List.mem_of_getElem? (List.mem_zipIdx_iff_getElem?.mp hbar)
  exact barStrikes_length_pos hpos (hfit bar hmem) hstrike

/-- What a bar brings comes before the next bar begins. -/
theorem barSchedule_bounds (hnominal : options.noteOff = .nominalEnd) (hpos : 0 < global.toNat)
    {b : Nat} {bar : Bar} (hbar : track.bars[b]? = some bar) (hfit : bar.Fitting global)
    {emission : Emission} (h : emission ∈ track.barSchedule options global.toNat bar b) :
    track.barStart global.toNat b ≤ emission.tick ∧
      emission.tick < track.barStart global.toNat (b + 1) := by
  rcases mem_barSchedule.mp h with hmark | ⟨strike, hstrike, hkind⟩
  · have hnext : track.barStart global.toNat (b + 1) = _ := barStart_succ hbar
    rw [(mem_tempoMark.mp hmark).2]
    simp only
    omega
  · rw [hnominal] at hkind
    have hstart := barStart_le_start hstrike
    have hend := end_lt_barStart_succ hbar hfit hstrike
    have htick := Strike.tick_bounds (List.mem_pair.mpr hkind)
    omega

theorem barSchedule_pairwise (hnominal : options.noteOff = .nominalEnd) (hpos : 0 < global.toNat)
    {b : Nat} {bar : Bar} (hfit : bar.Fitting global) :
    (track.barSchedule options global.toNat bar b).Pairwise fun a b => a.tick ≤ b.tick := by
  rw [barSchedule_eq, hnominal, List.pairwise_append]
  refine ⟨?_, ?_, ?_⟩
  · rw [tempoMark]
    split_ifs <;> simp
  · exact (Strike.pairwise_notes (track.barStrikes_pairwise global.toNat b bar)
      fun _ => barStrikes_length_pos hpos hfit).imp le_of_lt
  · intro mark hmark emission hemission
    obtain ⟨strike, hstrike, hkind⟩ := List.mem_flatMap.mp hemission
    rw [(mem_tempoMark.mp hmark).2]
    exact (barStart_le_start hstrike).trans (Strike.tick_bounds hkind).1

/-- With note-offs at the nominal ends a schedule is in order as it is. -/
theorem schedule_pairwise (hnominal : options.noteOff = .nominalEnd) (hpos : 0 < global.toNat)
    (hfit : ∀ bar ∈ track.bars, bar.Fitting global) :
    (track.schedule options global.toNat).Pairwise fun a b => a.tick ≤ b.tick := by
  have hfirst : ∀ emission ∈ track.schedule options global.toNat, 1 ≤ emission.tick :=
    fun _ => schedule_tick_pos
  rw [schedule_eq] at hfirst ⊢
  rw [List.pairwise_append]
  refine ⟨?_, ?_, ?_⟩
  · cases track.instrument <;> simp [Instrument.emissions]
  · apply track.pairwise_flatMap_bars global.toNat Emission.tick
    · intro b bar hbar
      exact barSchedule_pairwise hnominal hpos (hfit bar (List.mem_of_getElem? hbar))
    · intro b bar hbar emission hemission
      have hbounds := barSchedule_bounds hnominal hpos hbar (hfit bar (List.mem_of_getElem? hbar))
        hemission
      exact ⟨hbounds.1, hbounds.2.le⟩
  · intro program hprogram emission hemission
    obtain ⟨_, -, rfl⟩ := Instrument.mem_emissions.mp hprogram
    exact hfirst emission (List.mem_append_right _ hemission)

/-- The end of a track lies behind all that it brings, unless that is nothing but its program. -/
theorem lt_barStart_length (hnominal : options.noteOff = .nominalEnd) (hpos : 0 < global.toNat)
    (hfit : ∀ bar ∈ track.bars, bar.Fitting global) {emission : Emission}
    (h : emission ∈ track.schedule options global.toNat) :
    emission.tick < track.barStart global.toNat track.bars.length ∨
      track.bars = [] ∧ emission.kind.isProgramChange ∧ emission.tick = 1 := by
  rcases mem_schedule.mp h with hprogram | ⟨b, bar, hbar, hemission⟩
  · obtain ⟨program, -, rfl⟩ := Instrument.mem_emissions.mp hprogram
    cases hbars : track.bars with
    | nil => exact .inr ⟨rfl, rfl, rfl⟩
    | cons bar bars =>
      left
      simp only [barStart, List.length_cons, Nat.mul_add]
      omega
  · have hlength := (List.getElem?_eq_some_iff.mp hbar).1
    have hlast := (barSchedule_bounds hnominal hpos hbar (hfit bar (List.mem_of_getElem? hbar))
      hemission).2
    exact .inl (hlast.trans_le (track.barStart_mono _ hlength))

theorem filter_isNote_schedule (track : Track) (options : Options) (global : Nat)
    (channel : UInt8) :
    ((track.schedule options global).map (Emission.event channel)).filter Event.isNote =
      ((track.strikes global).flatMap fun strike =>
        [strike.noteOn, strike.noteOff options.noteOff]).map (Emission.event channel) := by
  rw [List.map_flatMap]
  exact filter_schedule_notes track options global channel
    (p := fun kind => kind.pitch?.isSome) (fun _ => rfl) fun _ => rfl

end Track

theorem alternation_map_pitch (strikes : List Strike) (placement : NoteOff) :
    alternation (strikes.map Strike.pitch) = (strikes.flatMap fun strike =>
      [strike.noteOn, strike.noteOff placement]).map Emission.kind := by
  rw [alternation, List.flatMap_map, List.map_flatMap]
  rfl

theorem Track.map_kind_notes (track : Track) (options : Options) (global : Nat)
    (channel : UInt8) :
    (((track.schedule options global).map (Emission.event channel)).filter Event.isNote).map
      Event.kind = alternation track.pitches := by
  rw [filter_isNote_schedule, List.map_map, ← track.strikes_map_pitch global,
    alternation_map_pitch]
  rfl

theorem alternation_cons (pitch : UInt8) (pitches : List UInt8) :
    alternation (pitch :: pitches) =
      .noteOn pitch 60 :: .noteOff pitch 60 :: alternation pitches := rfl

theorem alternation_prefix {pitches : List UInt8} {front : List EventKind}
    (h : front <+: alternation pitches) :
    front.countP EventKind.isNoteOff ≤ front.countP EventKind.isNoteOn ∧
      front.countP EventKind.isNoteOn ≤ front.countP EventKind.isNoteOff + 1 := by
  induction pitches generalizing front with
  | nil =>
    rw [List.prefix_nil.mp h]
    exact ⟨le_rfl, Nat.le_succ 0⟩
  | cons pitch pitches ih =>
    rw [alternation_cons] at h
    match front with
    | [] => exact ⟨le_rfl, Nat.le_succ 0⟩
    | [first] =>
      obtain ⟨rfl, -⟩ := List.cons_prefix_cons.mp h
      exact ⟨Nat.zero_le 1, le_rfl⟩
    | first :: second :: rest =>
      obtain ⟨rfl, htail⟩ := List.cons_prefix_cons.mp h
      obtain ⟨rfl, hrest⟩ := List.cons_prefix_cons.mp htail
      simpa [List.countP_cons, EventKind.isNoteOn, EventKind.isNoteOff] using ih hrest

theorem countP_notes {p : EventKind → Bool} (hp : ∀ kind, p kind → kind.pitch?.isSome)
    (events : List Event) : ((events.filter Event.isNote).map Event.kind).countP p =
      events.countP fun event => p event.kind := by
  rw [List.countP_map, List.countP_filter]
  apply List.countP_congr
  intro event _
  simp only [Function.comp_apply, Bool.and_eq_true, and_iff_left_iff_imp]
  exact hp event.kind

/-- Where the notes alternate, at most one of them sounds at any place of the list. -/
theorem one_sounds_of_alternation {events : List Event} {pitches : List UInt8}
    (h : (events.filter Event.isNote).map Event.kind = alternation pitches) {front : List Event}
    (hfront : front <+: events) :
    (front.countP fun event => event.kind.isNoteOff) ≤
        front.countP (fun event => event.kind.isNoteOn) ∧
      front.countP (fun event => event.kind.isNoteOn) ≤
        front.countP (fun event => event.kind.isNoteOff) + 1 := by
  have hcount := alternation_prefix (h ▸ (hfront.filter Event.isNote).map Event.kind)
  rwa [countP_notes, countP_notes] at hcount
  · rintro (_ | _) <;> simp [EventKind.isNoteOn, EventKind.pitch?]
  · rintro (_ | _) <;> simp [EventKind.isNoteOff, EventKind.pitch?]

theorem TrackEvents.Monophonic.of_schedule {events : TrackEvents} {track : Track}
    {options : Options} {global : UInt32} (hnominal : options.noteOff = .nominalEnd)
    (hpos : 0 < global.toNat) (hfit : ∀ bar ∈ track.bars, bar.Fitting global)
    (hevents : events.events =
      (track.schedule options global.toNat).map (Emission.event events.channel))
    (hend : events.endTick = track.barStart global.toNat track.bars.length) :
    events.Monophonic track options global.toNat := by
  have hkinds := track.map_kind_notes options global.toNat events.channel
  rw [← hevents] at hkinds
  refine ⟨hevents, hkinds, ?_, ?_, fun _ => one_sounds_of_alternation hkinds⟩
  · rw [hevents, Track.filter_isNote_schedule, hnominal, List.pairwise_map]
    exact Strike.pairwise_notes (Track.strikes_pairwise hfit)
      fun _ => Track.strikes_length_pos hpos hfit
  · intro event hevent
    rw [hevents] at hevent
    obtain ⟨emission, hemission, rfl⟩ := List.mem_map.mp hevent
    rw [hend]
    rcases Track.lt_barStart_length hnominal hpos hfit hemission with hlt | ⟨hbars, hkind, htick⟩
    · exact .inl hlt
    · refine .inr ⟨hbars, hkind, htick, ?_⟩
      simp [hbars, Track.barStart, Track.notesBefore]

/-- Every track of an accepted score whose note-offs go to the nominal ends holds its events as they
were emitted: its notes start and end in turn, in the order of the score, and never two sound. -/
theorem Score.compile_monophonic {score : Score} {options : Options} {timeline : Timeline}
    (hnominal : options.noteOff = .nominalEnd) (h : score.compile options = .ok timeline) :
    timeline.tracks.length = score.tracks.length ∧
      ∀ (i : Nat) (track : Track), score.tracks[i]? = some track → ∃ events : TrackEvents,
        timeline.tracks[i]? = some events ∧
          events.Monophonic track options timeline.resolution.toNat := by
  refine ⟨compile_length h, fun i track htrack => ?_⟩
  have hpos := globalResolution_pos (compile_eq_ok h).1
  obtain ⟨hfit, channel, -, hresult⟩ := compile_schedule h htrack
  have horder : InTickOrder ((track.schedule options timeline.resolution.toNat).map
      (Emission.event channel)) :=
    List.pairwise_map.mpr (Track.schedule_pairwise hnominal hpos hfit)
  rw [sortByTick_eq_self horder] at hresult
  exact ⟨_, hresult, .of_schedule hnominal hpos hfit rfl rfl⟩

/-- Bars of different resolution, a rest and a new tempo, beside a track of nothing but its
program. -/
theorem Score.compile_monophonic_resting :
    let lead : Track := ⟨some "lead", .melodic 5, [
      .ofNotes 120 1 [⟨some 60, .dottedEighth⟩, .rest .sixteenth],
      .ofNotes 90 2 [⟨some 62, .half⟩]]⟩
    let score : Score := ⟨none, [lead, .ofBars (.melodic 7) []]⟩
    ∃ timeline, (⟨120, .nominalEnd⟩ : Options).noteOff = .nominalEnd ∧
      score.compile ⟨120, .nominalEnd⟩ = .ok timeline ∧
      ∃ events empty : TrackEvents, timeline.tracks = [events, empty] ∧
        events.Monophonic lead ⟨120, .nominalEnd⟩ 2 ∧
        events.events = [⟨1, 0, .programChange 5⟩, ⟨1, 0, .noteOn 60 60⟩, ⟨7, 0, .noteOff 60 60⟩,
          ⟨11, 0, .tempoChange 90⟩, ⟨11, 0, .noteOn 62 60⟩, ⟨19, 0, .noteOff 62 60⟩] ∧
        events.endTick = 20 ∧
        empty.events = [⟨1, 1, .programChange 7⟩] ∧ empty.endTick = 1 := by
  intro lead score
  have hcompile : score.compile ⟨120, .nominalEnd⟩ = .ok ⟨2, 120, [
      ⟨0, some "lead", 0, .melodic, [⟨1, 0, .programChange 5⟩, ⟨1, 0, .noteOn 60 60⟩,
        ⟨7, 0, .noteOff 60 60⟩, ⟨11, 0, .tempoChange 90⟩, ⟨11, 0, .noteOn 62 60⟩,
        ⟨19, 0, .noteOff 62 60⟩], 20⟩,
      ⟨1, none, 1, .melodic, [⟨1, 1, .programChange 7⟩], 1⟩]⟩ := by
    decide +kernel
  obtain ⟨-, htracks⟩ := compile_monophonic rfl hcompile
  obtain ⟨events, hevents, hmonophonic⟩ := htracks 0 lead rfl
  cases hevents
  exact ⟨_, rfl, hcompile, _, _, rfl, hmonophonic, rfl, rfl, rfl, rfl⟩

end Sequencer
