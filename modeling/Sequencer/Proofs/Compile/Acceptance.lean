import Mathlib.Data.List.TakeWhile
import Sequencer.Proofs.Compile.Emission
import Sequencer.Proofs.Compile.Rejection

/-! # What an accepted score compiles to

Each track of an accepted score is made of sound bars, and its events are all that its walk
emits, sorted by tick.
-/

namespace Sequencer

structure Bar.Sound (bar : Bar) : Prop where
  tempo_ne_zero : bar.tempo ≠ 0
  sixteenths_eq : (bar.notes.map Note.sixteenths).sum = 4 * bar.resolution.toNat
  pitches_valid : ∀ note ∈ bar.notes, note.invalidPitch? = none

def Note.InRange (note : Note) : Prop :=
  ∀ pitch, note.pitch = some pitch → pitch ≤ 127

theorem Note.invalidPitch?_eq_none_iff {note : Note} :
    note.invalidPitch? = none ↔ note.InRange := by
  rw [invalidPitch?, Option.filter_eq_none_iff]
  exact forall₂_congr fun pitch _ => decide_eq_true_iff.not.trans UInt8.not_lt

theorem Note.invalidPitch?_eq_some_iff {note : Note} {pitch : UInt8} :
    note.invalidPitch? = some pitch ↔ note.pitch = some pitch ∧ 127 < pitch := by
  rw [invalidPitch?, Option.filter_eq_some_iff]
  exact and_congr_right fun _ => decide_eq_true_iff

theorem Note.violations_eq_nil_iff {track bar index : Nat} {note : Note} :
    note.violations track bar index = [] ↔ note.invalidPitch? = none := by
  rw [invalidPitch?_eq_none_iff, violations, InRange]
  cases note.pitch <;> simp [faultIf_eq_nil_iff]

theorem Bar.violations_eq_nil_iff {track index : Nat} {bar : Bar} :
    bar.violations track index = [] ↔ bar.Sound := by
  simp only [violations, List.append_eq_nil_iff, faultIf_eq_nil_iff, not_not,
    List.flatMap_eq_nil_iff, Prod.forall, Note.violations_eq_nil_iff, forall_mem_zipIdx_iff]
  constructor
  · rintro ⟨htempo, hlength, hnotes⟩
    exact ⟨htempo, hlength, hnotes⟩
  · intro h
    exact ⟨h.tempo_ne_zero, h.sixteenths_eq, h.pitches_valid⟩

theorem Bar.Sound.played_eq {bar : Bar} (h : bar.Sound) : bar.played = bar.notes := by
  rw [played, bar.totalSixteenths_eq, bar.requiredSixteenths_eq, if_pos h.sixteenths_eq]
  apply List.takeWhile_eq_self_iff.mpr
  intro note hnote
  rw [h.pitches_valid note hnote]
  rfl

theorem Bar.Sound.emissions_eq {bar : Bar} (h : bar.Sound) (settings : Settings)
    (cursor : Cursor) :
    bar.emissions settings cursor = bar.tempoEmissions cursor ++
      Note.allEmissions settings.options.noteOff
        (tickMultiplier settings.resolution bar.resolution) cursor.tick bar.notes := by
  rw [emissions, if_neg h.tempo_ne_zero, h.played_eq]

theorem Bar.Sound.pass_eq {bar : Bar} (h : bar.Sound) (settings : Settings) (cursor : Cursor) :
    bar.pass settings cursor =
      ⟨Note.pass (tickMultiplier settings.resolution bar.resolution) cursor.tick bar.notes,
        bar.tempo, bar.resolution⟩ := by
  rw [pass, if_neg h.tempo_ne_zero, h.played_eq]

theorem Walk.bars_snd (settings : Settings) (trackIndex index : Nat) (bars : List Bar)
    (walk : Walk) (h : (walk.bars settings trackIndex index bars).1 = .ok ()) :
    (walk.bars settings trackIndex index bars).2 =
      ⟨bars.foldl (Bar.pass settings) walk.cursor,
        walk.track.insertAll (outputs (Bar.pass settings) (Bar.emissions settings) walk.cursor
          bars)⟩ := by
  induction bars generalizing index walk with
  | nil => rfl
  | cons bar rest ih =>
    have hbar := Walk.bar_snd settings trackIndex index bar walk
    rw [Walk.bars] at h ⊢
    rcases hresult : walk.bar settings trackIndex index bar with ⟨_ | _, next⟩
    · rw [hresult] at h
      cases h
    · rw [hresult] at h hbar
      simp only at h hbar
      show (next.bars settings trackIndex (index + 1) rest).2 = _
      rw [ih (index + 1) next h, hbar]
      simp only [List.foldl_cons, outputs, TrackEvents.insertAll_append]

/-- The program of a melodic track. -/
def Instrument.emissions : Instrument → List Emission
  | .melodic program => [⟨firstTick, .programChange program⟩]
  | .percussion => []

/-- All that the walk over a track emits. -/
def Track.emissions (settings : Settings) (track : Track) : List Emission :=
  track.instrument.emissions ++ outputs (Bar.pass settings) (Bar.emissions settings)
    (.initial settings.options.initialTempo) track.bars

theorem Walk.start_eq_ok {walk started : Walk} {index : Nat} {instrument : Instrument}
    (hcursor : walk.cursor.tick = firstTick) (h : walk.start index instrument = .ok started) :
    started = ⟨walk.cursor, walk.track.insertAll instrument.emissions⟩ := by
  cases instrument with
  | percussion =>
    cases h
    rfl
  | melodic program =>
    simp only [Walk.start, Instrument.program?] at h
    split_ifs at h
    cases h
    rw [hcursor]
    rfl

theorem Track.eventsOn_eq_ok {track : Track} {settings : Settings} {index : Nat}
    {channel : UInt8} {events : TrackEvents}
    (h : track.eventsOn settings index channel = .ok events) :
    (∀ bar ∈ track.bars, bar.Sound) ∧
      events = ⟨index, track.name, channel, track.instrument.kind,
        sortByTick ((track.emissions settings).map (Emission.event channel)),
        (track.bars.foldl (Bar.pass settings)
          (.initial settings.options.initialTempo)).tick⟩ := by
  have haccepted := track.eventsOn_accepted settings index channel
  rw [h] at haccepted
  have hfaults := (List.append_eq_nil_iff.mp (verdict_eq_ok_iff.mp haccepted.symm)).2
  constructor
  · simp only [List.flatMap_eq_nil_iff, Prod.forall, Bar.violations_eq_nil_iff,
      forall_mem_zipIdx_iff] at hfaults
    exact hfaults
  · rw [Track.eventsOn] at h
    rcases bind_eq_ok.mp h with ⟨started, hstart, h⟩
    have hstarted := Walk.start_eq_ok rfl hstart
    have hbars : (started.bars settings index 0 track.bars).1 = .ok () := by
      rw [Walk.bars_fst, hfaults]
      rfl
    have hwalk := Walk.bars_snd settings index 0 track.bars started hbars
    rcases hresult : started.bars settings index 0 track.bars with ⟨_ | _, walk⟩
    · rw [hresult] at hbars
      cases hbars
    · rw [hresult] at h hwalk
      simp only at hwalk
      cases h
      rw [hwalk, hstarted]
      simp only [← TrackEvents.insertAll_append]
      have hsorted := (TrackEvents.empty index track.name channel
        track.instrument.kind).insertAll_events (track.emissions settings) List.Pairwise.nil
      rw [TrackEvents.insertAll_eq, TrackEvents.mk.injEq]
      exact ⟨rfl, rfl, rfl, rfl, hsorted, rfl⟩

/-- A track without violations, if it comes after `earlier` tracks of its class. -/
structure Track.Sound (track : Track) (earlier : Nat) : Prop where
  channel_left : earlier < track.instrument.kind.limit
  program_valid : ∀ program, track.instrument = .melodic program → program ≤ 127
  bars_sound : ∀ bar ∈ track.bars, bar.Sound

theorem Track.violations_eq_nil_iff {earlier index : Nat} {track : Track} :
    track.violations earlier index = [] ↔ track.Sound earlier := by
  have hprogram : track.instrument.violations index = [] ↔
      ∀ program, track.instrument = .melodic program → program ≤ 127 := by
    cases track.instrument <;> simp [Instrument.violations, faultIf_eq_nil_iff]
  simp only [violations, List.append_eq_nil_iff, faultIf_eq_nil_iff, not_le, hprogram,
    List.flatMap_eq_nil_iff, Prod.forall, Bar.violations_eq_nil_iff, forall_mem_zipIdx_iff]
  constructor
  · rintro ⟨hchannel, hprogram, hbars⟩
    exact ⟨hchannel, hprogram, hbars⟩
  · intro h
    exact ⟨h.channel_left, h.program_valid, h.bars_sound⟩

theorem compileTracks_eq_ok {settings : Settings} {before rest : List Track}
    {channels : Channels} {results : List TrackEvents} (hleft : channels.LeftBy before)
    (h : compileTracks settings before.length rest channels = .ok results) :
    results.length = rest.length ∧
      ∀ i track, rest[i]? = some track → ∃ channel events,
        results[i]? = some events ∧
        track.instrument.kind.channels[countOfKind track.instrument.kind
          (before ++ rest.take i)]? = some channel ∧
        track.eventsOn settings (before.length + i) channel = .ok events := by
  induction rest generalizing before channels results with
  | nil =>
    cases h
    exact ⟨rfl, fun i track htrack => nomatch htrack⟩
  | cons track rest ih =>
    rw [compileTracks] at h
    by_cases hroom : track.instrument.kind.limit ≤ countOfKind track.instrument.kind before
    · rw [Track.compile, Channels.draw_of_limit_le hleft hroom] at h
      cases h
    · obtain ⟨channel, next, hcompile, hchannel, hnext⟩ :=
        track.exists_compile hleft (not_le.mp hroom) settings before.length
      rw [hcompile] at h
      cases hevents : track.eventsOn settings before.length channel with
      | error e => rw [hevents] at h; cases h
      | ok events =>
        rw [hevents] at h
        rcases bind_eq_ok.mp h with ⟨others, hcompiled, h⟩
        cases h
        have hlength : before.length + 1 = (before ++ [track]).length := by simp
        rw [hlength] at hcompiled
        obtain ⟨hsize, htracks⟩ := ih hnext hcompiled
        refine ⟨congrArg Nat.succ hsize, ?_⟩
        intro i other hother
        cases i with
        | zero =>
          cases hother
          exact ⟨channel, events, rfl, by simpa using hchannel, hevents⟩
        | succ i =>
          obtain ⟨channel, events, hresult, hchannel, hevents⟩ := htracks i other hother
          refine ⟨channel, events, hresult, by simpa using hchannel, ?_⟩
          rwa [← hlength, Nat.add_assoc, Nat.add_comm 1 i] at hevents

theorem Score.trackViolations_eq_nil_iff (score : Score) :
    (score.tracks.zipIdx.flatMap fun (track, t) =>
      track.violations (countOfKind track.instrument.kind (score.tracks.take t)) t) = [] ↔
        ∀ (i : Nat) (track : Track), score.tracks[i]? = some track →
          track.Sound (countOfKind track.instrument.kind (score.tracks.take i)) := by
  simp only [List.flatMap_eq_nil_iff, Prod.forall, List.mem_zipIdx_iff_getElem?,
    Track.violations_eq_nil_iff]
  exact forall_comm

/-- What it takes for a score to be accepted. -/
theorem Score.exists_timeline_iff {score : Score} {options : Options} :
    (∃ timeline, score.compile options = .ok timeline) ↔
      score.checkNotEmpty = .ok () ∧ options.initialTempo ≠ 0 ∧
        score.firstZeroResolution? = none ∧ score.resolutionProduct < 2 ^ 32 ∧
        ∀ (i : Nat) (track : Track), score.tracks[i]? = some track →
          track.Sound (countOfKind track.instrument.kind (score.tracks.take i)) := by
  have hempty : score.checkNotEmpty = .ok () ↔ score.tracks ≠ [] ∧
      ¬ score.tracks.head?.any fun first => first.bars.isEmpty := by
    cases h : score.tracks <;> simp [checkNotEmpty, h]
  have hzero : score.zeroResolutions = [] ↔ score.firstZeroResolution? = none := by
    rw [← List.head?_eq_none_iff, head?_zeroResolutions, Option.map_eq_none_iff]
  have hproduct : ¬ 2 ^ 32 - 1 < score.resolutionProduct ↔ score.resolutionProduct < 2 ^ 32 := by
    omega
  rw [← accepted_eq_ok_iff, compile_accepted, verdict_eq_ok_iff]
  simp only [violations, List.append_eq_nil_iff, faultIf_eq_nil_iff, hempty, hzero, hproduct,
    trackViolations_eq_nil_iff, and_assoc, ne_eq]

theorem Score.compile_eq_ok {score : Score} {options : Options} {timeline : Timeline}
    (h : score.compile options = .ok timeline) :
    score.globalResolution = .ok timeline.resolution ∧
      timeline.initialTempo = options.initialTempo ∧
      compileTracks ⟨options, timeline.resolution⟩ 0 score.tracks .full = .ok timeline.tracks := by
  rw [compile] at h
  rcases bind_eq_ok.mp h with ⟨_, -, h⟩
  by_cases htempo : options.initialTempo = 0
  · rw [if_pos htempo] at h
    cases h
  · rw [if_neg htempo] at h
    rcases bind_eq_ok.mp h with ⟨resolution, hresolution, h⟩
    rcases bind_eq_ok.mp h with ⟨tracks, htracks, h⟩
    cases h
    exact ⟨hresolution, rfl, htracks⟩

theorem Score.compile_length {score : Score} {options : Options} {timeline : Timeline}
    (h : score.compile options = .ok timeline) : timeline.tracks.length = score.tracks.length :=
  (compileTracks_eq_ok Channels.full_leftBy (compile_eq_ok h).2.2).1

/-- What each track of an accepted score compiles to. -/
theorem Score.compile_track {score : Score} {options : Options} {timeline : Timeline}
    (h : score.compile options = .ok timeline) {i : Nat} {track : Track}
    (htrack : score.tracks[i]? = some track) :
    ∃ channel, (∀ bar ∈ track.bars, bar.Sound) ∧ timeline.tracks[i]? = some
      ⟨i, track.name, channel, track.instrument.kind,
        sortByTick ((track.emissions ⟨options, timeline.resolution⟩).map (Emission.event channel)),
        (track.bars.foldl (Bar.pass ⟨options, timeline.resolution⟩)
          (.initial options.initialTempo)).tick⟩ := by
  obtain ⟨-, -, htracks⟩ := compile_eq_ok h
  have hall := (compileTracks_eq_ok Channels.full_leftBy htracks).2
  obtain ⟨channel, events, hresult, -, hevents⟩ := hall i track htrack
  obtain ⟨hsound, rfl⟩ := Track.eventsOn_eq_ok hevents
  refine ⟨channel, hsound, ?_⟩
  rw [hresult, List.length_nil, Nat.zero_add]

/-- Every compiled track comes from a track of the score. -/
theorem Score.exists_track_of_mem {score : Score} {options : Options} {timeline : Timeline}
    (h : score.compile options = .ok timeline) {events : TrackEvents}
    (hevents : events ∈ timeline.tracks) :
    ∃ (i : Nat) (track : Track), score.tracks[i]? = some track ∧
      timeline.tracks[i]? = some events := by
  have hlength := compile_length h
  obtain ⟨i, hi, rfl⟩ := List.mem_iff_getElem.mp hevents
  exact ⟨i, score.tracks[i], List.getElem?_eq_getElem (hlength ▸ hi), List.getElem?_eq_getElem hi⟩

end Sequencer
