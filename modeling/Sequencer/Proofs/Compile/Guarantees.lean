import Sequencer.Midi.Message
import Sequencer.Proofs.Compile.Drawing
import Sequencer.Proofs.Compile.Strikes

/-! # What a compiled track guarantees

The writers of a timeline check neither channels nor data bytes, and they would reorder events
that are out of order. None of this ever matters for the timeline of an accepted score: its few
tracks keep to channels of their own, in the range of their class, and their events are in order
and within the ranges of MIDI.
-/

namespace Sequencer

namespace EventKind

/-- The numbers of an event are such as a compiled track may hold. -/
def Valid : EventKind → Prop
  | programChange program => program ≤ 127
  | noteOn pitch velocity => pitch ≤ 127 ∧ velocity = 60
  | noteOff pitch velocity => pitch ≤ 127 ∧ velocity = 60
  | tempoChange bpm => 0 < bpm

def isProgramChange : EventKind → Bool
  | programChange _ => true
  | _ => false

end EventKind

/-- What the writers take for granted of a track. -/
structure TrackEvents.Dependable (track : TrackEvents) : Prop where
  melodic_channel : track.kind = .melodic →
    track.channel ≤ 8 ∨ 11 ≤ track.channel ∧ track.channel ≤ 15
  percussion_channel : track.kind = .percussion → track.channel = 9 ∨ track.channel = 10
  in_order : InTickOrder track.events
  tick_pos : ∀ event ∈ track.events, 1 ≤ event.tick
  own_channel : ∀ event ∈ track.events, event.channel = track.channel
  valid : ∀ event ∈ track.events, event.kind.Valid
  /-- The only program change of a melodic track comes first. -/
  program_first : track.kind = .melodic → ∃ program rest,
    track.events = ⟨1, track.channel, .programChange program⟩ :: rest ∧
      ∀ event ∈ rest, event.kind.isProgramChange = false
  no_program : track.kind = .percussion →
    ∀ event ∈ track.events, event.kind.isProgramChange = false

theorem compileTracks_channels {settings : Settings} {index : Nat} {tracks : List Track}
    {channels : Channels} {results : List TrackEvents}
    (h : compileTracks settings index tracks channels = .ok results) :
    results.map TrackEvents.channel =
      channels.drawn ((tracks.zipIdx index).map fun (track, i) => .compile settings i track) := by
  induction tracks generalizing index channels results with
  | nil =>
    cases h
    rfl
  | cons track rest ih =>
    have hnext := Channels.Call.apply_snd channels (.compile settings index track)
    rw [compileTracks, Track.compile] at h
    rw [List.zipIdx_cons, List.map_cons, Channels.drawn, outputs, ← Channels.drawn, Channels.next,
      hnext]
    simp only [Channels.Call.kind, Channels.Call.index]
    rcases hdraw : channels.draw index track.instrument.kind with ⟨_ | channel, next⟩
    · rw [hdraw] at h
      cases h
    · rw [hdraw] at h
      cases hevents : track.eventsOn settings index channel with
      | error e =>
        simp only [hevents] at h
        cases h
      | ok events =>
        simp only [hevents] at h
        rcases bind_eq_ok.mp h with ⟨others, hothers, h⟩
        cases h
        rw [List.map_cons, ih hothers, (Track.eventsOn_eq_ok hevents).2]
        rfl

/-- No two tracks share a channel, and so there is no track without a channel of the sixteen. -/
theorem Score.compile_channels {score : Score} {options : Options} {timeline : Timeline}
    (h : score.compile options = .ok timeline) :
    timeline.tracks.length ≤ 16 ∧ (timeline.tracks.map TrackEvents.channel).Nodup := by
  have hchannels := compileTracks_channels (compile_eq_ok h).2.2
  have hperm := Channels.drawn_append_remaining Channels.full_proper
    ((score.tracks.zipIdx 0).map fun (track, i) => .compile ⟨options, timeline.resolution⟩ i track)
  rw [← hchannels] at hperm
  constructor
  · have hlength : Channels.full.remaining.length = 16 := rfl
    have hsum := hperm.length_eq
    rw [List.length_append, List.length_map, hlength] at hsum
    omega
  · exact (List.nodup_append.mp (hperm.nodup_iff.mpr (by decide))).1

theorem InstrumentClass.mem_channels {kind : InstrumentClass} {channel : UInt8}
    (h : channel ∈ kind.channels) :
    (kind = .melodic → channel ≤ 8 ∨ 11 ≤ channel ∧ channel ≤ 15) ∧
      (kind = .percussion → channel = 9 ∨ channel = 10) := by
  cases kind with
  | melodic =>
    have hall : (InstrumentClass.channels .melodic).all fun channel =>
        channel ≤ 8 ∨ 11 ≤ channel ∧ channel ≤ 15 := rfl
    exact ⟨fun _ => of_decide_eq_true (List.all_eq_true.mp hall channel h), nofun⟩
  | percussion =>
    have hall : (InstrumentClass.channels .percussion).all fun channel =>
        channel = 9 ∨ channel = 10 := rfl
    exact ⟨nofun, fun _ => of_decide_eq_true (List.all_eq_true.mp hall channel h)⟩

theorem TrackEvents.Dependable.channel_le {track : TrackEvents} (h : track.Dependable) :
    track.channel ≤ 15 := by
  cases hkind : track.kind with
  | melodic =>
    rcases h.melodic_channel hkind with hlow | ⟨-, hhigh⟩
    · exact UInt8.le_trans hlow (by decide)
    · exact hhigh
  | percussion => rcases h.percussion_channel hkind with heq | heq <;> rw [heq] <;> decide

theorem Instrument.mem_emissions {instrument : Instrument} {emission : Emission} :
    emission ∈ instrument.emissions ↔
      ∃ program, instrument = .melodic program ∧ emission = ⟨1, .programChange program⟩ := by
  cases instrument <;> simp [emissions, firstTick]

theorem Score.program_le {score : Score} {options : Options} {timeline : Timeline}
    (h : score.compile options = .ok timeline) {i : Nat} {track : Track}
    (htrack : score.tracks[i]? = some track) {program : UInt8}
    (hprogram : track.instrument = .melodic program) : program ≤ 127 := by
  obtain ⟨-, -, -, -, htracks⟩ := exists_timeline_iff.mp ⟨timeline, h⟩
  exact (htracks i track htrack).program_valid program hprogram

namespace Track

variable {track : Track} {options : Options} {global : Nat} {emission : Emission}

theorem schedule_tick_pos (h : emission ∈ track.schedule options global) : 1 ≤ emission.tick := by
  have hbar : ∀ b, 1 ≤ track.barStart global b := by
    intro b
    simp only [barStart]
    omega
  rcases mem_schedule.mp h with hmark | ⟨b, bar, -, hbars⟩
  · obtain ⟨program, -, rfl⟩ := Instrument.mem_emissions.mp hmark
    exact le_rfl
  · rcases mem_barSchedule.mp hbars with hmark | ⟨strike, hstrike, hkind⟩
    · rw [(mem_tempoMark.mp hmark).2]
      exact hbar b
    · have hstart := (hbar b).trans (barStart_le_start hstrike)
      rcases hkind with rfl | rfl
      · exact hstart
      · exact hstart.trans (strike.start_le_stop _)

theorem schedule_valid (hprogram : ∀ program, track.instrument = .melodic program → program ≤ 127)
    (hsound : ∀ bar ∈ track.bars, bar.Sound) (h : emission ∈ track.schedule options global) :
    emission.kind.Valid := by
  rcases mem_schedule.mp h with hmark | ⟨b, bar, hb, hbars⟩
  · obtain ⟨program, hinstrument, rfl⟩ := Instrument.mem_emissions.mp hmark
    exact hprogram program hinstrument
  · have hbar := hsound bar (List.mem_of_getElem? hb)
    rcases mem_barSchedule.mp hbars with hmark | ⟨strike, hstrike, hkind⟩
    · rw [(mem_tempoMark.mp hmark).2]
      exact UInt32.pos_iff_ne_zero.mpr hbar.tempo_ne_zero
    · obtain ⟨n, note, pitch, hnote, hpitch, rfl⟩ := mem_barStrikes.mp hstrike
      have hvalid := hbar.pitches_valid note (List.mem_of_getElem? hnote)
      have hle := Note.invalidPitch?_eq_none_iff.mp hvalid pitch hpitch
      rcases hkind with rfl | rfl <;> exact ⟨hle, rfl⟩

theorem barSchedule_isProgramChange {bar : Bar} {b : Nat}
    (h : emission ∈ track.barSchedule options global bar b) :
    emission.kind.isProgramChange = false := by
  rcases mem_barSchedule.mp h with hmark | ⟨strike, -, rfl | rfl⟩
  · rw [(mem_tempoMark.mp hmark).2]
    rfl
  · rfl
  · rfl

/-- The events of a track in order: first the program of a melodic one, then those of its bars. -/
theorem sortByTick_schedule (track : Track) (options : Options) (global : Nat) (channel : UInt8) :
    sortByTick ((track.schedule options global).map (Emission.event channel)) =
      track.instrument.emissions.map (Emission.event channel) ++
        sortByTick ((track.bars.zipIdx.flatMap fun (bar, b) =>
          track.barSchedule options global bar b).map (Emission.event channel)) := by
  have hpos : ∀ emission ∈ track.schedule options global, 1 ≤ emission.tick :=
    fun _ => schedule_tick_pos
  rw [schedule_eq] at hpos ⊢
  cases hinstrument : track.instrument with
  | percussion => rfl
  | melodic program =>
    apply sortByTick_cons
    intro event hevent
    obtain ⟨emission, hemission, rfl⟩ := List.mem_map.mp hevent
    exact hpos emission (List.mem_append_right _ hemission)

end Track

theorem Score.compile_track_dependable {score : Score} {options : Options} {timeline : Timeline}
    (h : score.compile options = .ok timeline) {events : TrackEvents}
    (hevents : events ∈ timeline.tracks) : events.Dependable := by
  obtain ⟨i, track, htrack, hi⟩ := exists_track_of_mem h hevents
  obtain ⟨hfit, channel, hchannel, hresult⟩ := compile_schedule h htrack
  cases hi.symm.trans hresult
  have howned := InstrumentClass.mem_channels (List.mem_of_getElem? hchannel)
  have hschedule : ∀ event ∈ sortByTick ((track.schedule options timeline.resolution.toNat).map
      (Emission.event channel)), 1 ≤ event.tick ∧ event.channel = channel ∧ event.kind.Valid := by
    intro event hevent
    obtain ⟨emission, hemission, rfl⟩ := List.mem_map.mp (mem_sortByTick.mp hevent)
    exact ⟨Track.schedule_tick_pos hemission, rfl, Track.schedule_valid
      (fun _ => program_le h htrack) (fun bar hbar => (hfit bar hbar).toSound) hemission⟩
  have hbars : ∀ event ∈ sortByTick ((track.bars.zipIdx.flatMap fun (bar, b) =>
      track.barSchedule options timeline.resolution.toNat bar b).map (Emission.event channel)),
      event.kind.isProgramChange = false := by
    intro event hevent
    obtain ⟨emission, hemission, rfl⟩ := List.mem_map.mp (mem_sortByTick.mp hevent)
    obtain ⟨⟨bar, b⟩, -, hbar⟩ := List.mem_flatMap.mp hemission
    exact Track.barSchedule_isProgramChange hbar
  refine ⟨howned.1, howned.2, sortByTick_inTickOrder _,
    fun event hevent => (hschedule event hevent).1,
    fun event hevent => (hschedule event hevent).2.1,
    fun event hevent => (hschedule event hevent).2.2, ?_, ?_⟩
  · intro hkind
    cases hinstrument : track.instrument with
    | percussion => rw [hinstrument] at hkind; cases hkind
    | melodic program =>
      refine ⟨program, _, ?_, hbars⟩
      rw [Track.sortByTick_schedule, hinstrument]
      rfl
  · intro hkind
    cases hinstrument : track.instrument with
    | melodic program => rw [hinstrument] at hkind; cases hkind
    | percussion =>
      rw [Track.sortByTick_schedule, hinstrument]
      exact hbars

/-- The timeline of an accepted score is what the writers take it for: at most sixteen tracks on
channels of their own, each dependable. So neither sorting a track once more nor masking the
channel of an event makes any difference. -/
theorem Score.compile_dependable {score : Score} {options : Options} {timeline : Timeline}
    (h : score.compile options = .ok timeline) :
    timeline.tracks.length ≤ 16 ∧ (timeline.tracks.map TrackEvents.channel).Nodup ∧
      ∀ track ∈ timeline.tracks, track.Dependable ∧ sortByTick track.events = track.events ∧
        ∀ event ∈ track.events, ∀ kind : UInt8,
          Midi.status kind event.channel = kind ||| event.channel := by
  obtain ⟨hlength, hnodup⟩ := compile_channels h
  refine ⟨hlength, hnodup, fun track htrack => ?_⟩
  have hdependable := compile_track_dependable h htrack
  refine ⟨hdependable, sortByTick_eq_self hdependable.in_order, fun event hevent kind => ?_⟩
  rw [hdependable.own_channel event hevent]
  exact Midi.status_eq hdependable.channel_le kind

/-- The program, a new tempo and a note-on at the first tick, with the greatest numbers that
program and pitch can have. -/
theorem Score.compile_dependable_tied :
    let score : Score := ⟨none, [
      .ofBars (.melodic 127) [.ofNotes 90 1 [⟨some 127, .eighth⟩, ⟨some 0, .eighth⟩]],
      .ofBars .percussion [.ofNotes 120 1 [⟨some 38, .quarter⟩]]]⟩
    ∃ timeline, score.compile {} = .ok timeline ∧ timeline.tracks.length ≤ 16 ∧
      (timeline.tracks.map TrackEvents.channel).Nodup ∧
      ∃ track : TrackEvents, timeline.tracks[0]? = some track ∧ track.Dependable ∧
        track.events = [⟨1, 0, .programChange 127⟩, ⟨1, 0, .tempoChange 90⟩,
          ⟨1, 0, .noteOn 127 60⟩, ⟨4, 0, .noteOn 0 60⟩, ⟨5, 0, .noteOff 127 60⟩,
          ⟨8, 0, .noteOff 0 60⟩] ∧
        sortByTick track.events = track.events := by
  intro score
  have hcompile : score.compile {} = .ok ⟨1, 120, [
      ⟨0, none, 0, .melodic, [⟨1, 0, .programChange 127⟩, ⟨1, 0, .tempoChange 90⟩,
        ⟨1, 0, .noteOn 127 60⟩, ⟨4, 0, .noteOn 0 60⟩, ⟨5, 0, .noteOff 127 60⟩,
        ⟨8, 0, .noteOff 0 60⟩], 7⟩,
      ⟨1, none, 9, .percussion, [⟨1, 9, .noteOn 38 60⟩, ⟨9, 9, .noteOff 38 60⟩], 6⟩]⟩ := by
    decide +kernel
  obtain ⟨hlength, hnodup, htracks⟩ := Score.compile_dependable hcompile
  obtain ⟨hdependable, hsorted, -⟩ := htracks _ List.mem_cons_self
  exact ⟨_, hcompile, hlength, hnodup, _, rfl, hdependable, rfl, hsorted⟩

end Sequencer
