import Sequencer.Proofs.Compile.Strikes

/-! # Where note-offs go

The options decide where note-offs go, and nothing else hangs on that: the same scores are
accepted and rejected, and the tracks of an accepted one are the same but for the note-offs, in
whatever order these lie between the other events.
-/

namespace Sequencer

def EventKind.isNoteOff : EventKind → Bool
  | noteOff _ _ => true
  | _ => false

/-- The tracks agree in everything but their note-offs. -/
structure TrackEvents.SameButNoteOffs (first second : TrackEvents) : Prop where
  index_eq : first.index = second.index
  name_eq : first.name = second.name
  channel_eq : first.channel = second.channel
  kind_eq : first.kind = second.kind
  endTick_eq : first.endTick = second.endTick
  events_eq : (first.events.filter fun event => !event.kind.isNoteOff) =
    second.events.filter fun event => !event.kind.isNoteOff

namespace Track

theorem filter_schedule_congr (track : Track) (tempo : UInt32) (a b : NoteOff) (global : Nat)
    (channel : UInt8) :
    (((track.schedule ⟨tempo, a⟩ global).map (Emission.event channel)).filter
      fun event => !event.kind.isNoteOff) =
        ((track.schedule ⟨tempo, b⟩ global).map (Emission.event channel)).filter
          fun event => !event.kind.isNoteOff := by
  rw [filter_schedule track ⟨tempo, a⟩ global channel fun kind => !kind.isNoteOff,
    filter_schedule track ⟨tempo, b⟩ global channel fun kind => !kind.isNoteOff]
  rfl

theorem filter_schedule_notes (track : Track) (options : Options) (global : Nat) (channel : UInt8)
    {p : EventKind → Bool} (hprogram : ∀ program, p (.programChange program) = false)
    (htempo : ∀ bpm, p (.tempoChange bpm) = false) :
    (((track.schedule options global).map (Emission.event channel)).filter
      fun event => p event.kind) = (track.strikes global).flatMap fun strike =>
        [strike.noteOn.event channel, (strike.noteOff options.noteOff).event channel].filter
          fun event => p event.kind := by
  have hinstrument : ((track.instrument.emissions.map (Emission.event channel)).filter
      fun event => p event.kind) = [] := by
    cases track.instrument <;> simp [Instrument.emissions, Emission.event, hprogram]
  have hmark : ∀ bar b, (((track.tempoMark options.initialTempo global bar b).map
      (Emission.event channel)).filter fun event => p event.kind) = [] := by
    intro bar b
    rw [tempoMark]
    split_ifs <;> simp [Emission.event, htempo]
  simp only [filter_schedule, hinstrument, hmark, List.nil_append, strikes, List.flatMap_assoc]

theorem filter_isNoteOn_schedule (track : Track) (options : Options) (global : Nat)
    (channel : UInt8) :
    (((track.schedule options global).map (Emission.event channel)).filter
      fun event => event.kind.isNoteOn) =
        (track.strikes global).map fun strike => strike.noteOn.event channel :=
  (filter_schedule_notes track options global channel (fun _ => rfl) fun _ => rfl).trans
    List.map_eq_flatMap.symm

theorem filter_isNoteOff_schedule (track : Track) (options : Options) (global : Nat)
    (channel : UInt8) :
    (((track.schedule options global).map (Emission.event channel)).filter
      fun event => event.kind.isNoteOff) =
        (track.strikes global).map fun strike =>
          (strike.noteOff options.noteOff).event channel :=
  (filter_schedule_notes track options global channel (fun _ => rfl) fun _ => rfl).trans
    List.map_eq_flatMap.symm

end Track

namespace Score

variable {score : Score} {tempo : UInt32} {a b : NoteOff}

/-- What is wrong with a score has nothing to do with note-offs. -/
theorem compile_eq_error_congr {e : CompileError} (h : score.compile ⟨tempo, a⟩ = .error e) :
    score.compile ⟨tempo, b⟩ = .error e := by
  have hviolations : score.violations ⟨tempo, a⟩ = score.violations ⟨tempo, b⟩ := rfl
  have haccepted := score.compile_accepted ⟨tempo, a⟩
  rw [h, hviolations, ← compile_accepted] at haccepted
  exact accepted_eq_error_iff.mp haccepted.symm

theorem resolution_congr {first second : Timeline} (hfirst : score.compile ⟨tempo, a⟩ = .ok first)
    (hsecond : score.compile ⟨tempo, b⟩ = .ok second) : first.resolution = second.resolution :=
  Except.ok.inj ((compile_eq_ok hfirst).1.symm.trans (compile_eq_ok hsecond).1)

theorem exists_compiled {options : Options} {timeline : Timeline}
    (h : score.compile options = .ok timeline) {i : Nat} {track : Track}
    (htrack : score.tracks[i]? = some track) :
    ∃ events : TrackEvents, timeline.tracks[i]? = some events := by
  obtain ⟨-, channel, -, hresult⟩ := compile_schedule h htrack
  exact ⟨_, hresult⟩

theorem compile_sameButNoteOffs {first second : Timeline}
    (hfirst : score.compile ⟨tempo, a⟩ = .ok first)
    (hsecond : score.compile ⟨tempo, b⟩ = .ok second) {i : Nat} {xs ys : TrackEvents}
    (hxs : first.tracks[i]? = some xs) (hys : second.tracks[i]? = some ys)
    {track : Track} (htrack : score.tracks[i]? = some track) : xs.SameButNoteOffs ys := by
  obtain ⟨-, channel, hchannel, hresult⟩ := compile_schedule hfirst htrack
  obtain ⟨-, other, hother, hresult'⟩ := compile_schedule hsecond htrack
  cases hchannel.symm.trans hother
  cases hxs.symm.trans hresult
  cases hys.symm.trans hresult'
  rw [resolution_congr hfirst hsecond]
  refine ⟨rfl, rfl, rfl, rfl, rfl, ?_⟩
  rw [filter_sortByTick, filter_sortByTick, Track.filter_schedule_congr track tempo a b]

/-- The note-ons and note-offs of a compiled track are those of its strikes. -/
theorem compile_strikes {options : Options} {timeline : Timeline}
    (h : score.compile options = .ok timeline) {i : Nat} {track : Track} {events : TrackEvents}
    (htrack : score.tracks[i]? = some track) (hevents : timeline.tracks[i]? = some events) :
    (events.events.filter fun event => event.kind.isNoteOn) =
        (track.strikes timeline.resolution.toNat).map (fun strike =>
          strike.noteOn.event events.channel) ∧
      (events.events.filter fun event => event.kind.isNoteOff).Perm
        ((track.strikes timeline.resolution.toNat).map fun strike =>
          (strike.noteOff options.noteOff).event events.channel) := by
  obtain ⟨hfit, channel, -, hresult⟩ := compile_schedule h htrack
  cases hevents.symm.trans hresult
  constructor
  · rw [filter_sortByTick, Track.filter_isNoteOn_schedule]
    apply sortByTick_eq_self
    exact List.pairwise_map.mpr ((Track.strikes_pairwise hfit).imp
      fun hlater => (Nat.le_add_right _ _).trans hlater.le)
  · rw [filter_sortByTick, Track.filter_isNoteOff_schedule]
    exact sortByTick_perm _

/-- The option makes no difference to whether a score is rejected, and for what, nor to anything in
its timeline but the note-offs. These come once the note has sounded its length or, doubled, twice
its length. -/
theorem compile_placement (score : Score) (tempo : UInt32) :
    (∃ e, score.compile ⟨tempo, .doubled⟩ = .error e ∧
      score.compile ⟨tempo, .nominalEnd⟩ = .error e) ∨
    ∃ doubled nominal, score.compile ⟨tempo, .doubled⟩ = .ok doubled ∧
      score.compile ⟨tempo, .nominalEnd⟩ = .ok nominal ∧
      doubled.resolution = nominal.resolution ∧ doubled.initialTempo = nominal.initialTempo ∧
      doubled.tracks.length = score.tracks.length ∧ nominal.tracks.length = score.tracks.length ∧
      ∀ (i : Nat) (track : Track), score.tracks[i]? = some track → ∃ xs ys : TrackEvents,
        doubled.tracks[i]? = some xs ∧ nominal.tracks[i]? = some ys ∧ xs.SameButNoteOffs ys ∧
        let strikes := track.strikes doubled.resolution.toNat
        (xs.events.filter fun event => event.kind.isNoteOn) = strikes.map (fun strike =>
          ⟨strike.start, xs.channel, .noteOn strike.pitch 60⟩) ∧
        (xs.events.filter fun event => event.kind.isNoteOff).Perm (strikes.map fun strike =>
          ⟨strike.start + 2 * strike.length, xs.channel, .noteOff strike.pitch 60⟩) ∧
        (ys.events.filter fun event => event.kind.isNoteOff).Perm (strikes.map fun strike =>
          ⟨strike.start + strike.length, ys.channel, .noteOff strike.pitch 60⟩) := by
  cases hdoubled : score.compile ⟨tempo, .doubled⟩ with
  | error e => exact .inl ⟨e, rfl, compile_eq_error_congr hdoubled⟩
  | ok doubled =>
    cases hnominal : score.compile ⟨tempo, .nominalEnd⟩ with
    | error e => cases hdoubled.symm.trans (compile_eq_error_congr hnominal)
    | ok nominal =>
      have hresolution := resolution_congr hdoubled hnominal
      have htempo : doubled.initialTempo = nominal.initialTempo :=
        (compile_eq_ok hdoubled).2.1.trans (compile_eq_ok hnominal).2.1.symm
      refine .inr ⟨doubled, nominal, rfl, rfl, hresolution, htempo, compile_length hdoubled,
        compile_length hnominal, fun i track htrack => ?_⟩
      obtain ⟨xs, hxs⟩ := exists_compiled hdoubled htrack
      obtain ⟨ys, hys⟩ := exists_compiled hnominal htrack
      obtain ⟨hnoteOns, hdoubledOffs⟩ := compile_strikes hdoubled htrack hxs
      obtain ⟨-, hnominalOffs⟩ := compile_strikes hnominal htrack hys
      rw [← hresolution] at hnominalOffs
      exact ⟨_, _, hxs, hys, compile_sameButNoteOffs hdoubled hnominal hxs hys htrack, hnoteOns,
        hdoubledOffs, hnominalOffs⟩

/-- Two doubled notes last until a bar in a new tempo, whose note-on comes after their note-offs
either way. -/
theorem compile_placement_doubled_ties :
    let score : Score := ⟨none, [.ofBars (.melodic 5) [
      .ofNotes 120 1 [⟨some 60, .dottedEighth⟩, ⟨some 62, .sixteenth⟩],
      .ofNotes 90 1 [⟨some 64, .quarter⟩]]]⟩
    ∃ doubled nominal, score.compile ⟨120, .doubled⟩ = .ok doubled ∧
      score.compile ⟨120, .nominalEnd⟩ = .ok nominal ∧
      ∃ xs ys : TrackEvents, doubled.tracks[0]? = some xs ∧ nominal.tracks[0]? = some ys ∧
        xs.SameButNoteOffs ys ∧
        xs.events = [⟨1, 0, .programChange 5⟩, ⟨1, 0, .noteOn 60 60⟩, ⟨5, 0, .noteOn 62 60⟩,
          ⟨7, 0, .noteOff 60 60⟩, ⟨7, 0, .noteOff 62 60⟩, ⟨7, 0, .tempoChange 90⟩,
          ⟨7, 0, .noteOn 64 60⟩, ⟨15, 0, .noteOff 64 60⟩] ∧
        ys.events = [⟨1, 0, .programChange 5⟩, ⟨1, 0, .noteOn 60 60⟩, ⟨4, 0, .noteOff 60 60⟩,
          ⟨5, 0, .noteOn 62 60⟩, ⟨6, 0, .noteOff 62 60⟩, ⟨7, 0, .tempoChange 90⟩,
          ⟨7, 0, .noteOn 64 60⟩, ⟨11, 0, .noteOff 64 60⟩] := by
  intro score
  have hdoubled : score.compile ⟨120, .doubled⟩ = .ok ⟨1, 120, [⟨0, none, 0, .melodic, [
      ⟨1, 0, .programChange 5⟩, ⟨1, 0, .noteOn 60 60⟩, ⟨5, 0, .noteOn 62 60⟩,
      ⟨7, 0, .noteOff 60 60⟩, ⟨7, 0, .noteOff 62 60⟩, ⟨7, 0, .tempoChange 90⟩,
      ⟨7, 0, .noteOn 64 60⟩, ⟨15, 0, .noteOff 64 60⟩], 12⟩]⟩ := by
    decide +kernel
  have hnominal : score.compile ⟨120, .nominalEnd⟩ = .ok ⟨1, 120, [⟨0, none, 0, .melodic, [
      ⟨1, 0, .programChange 5⟩, ⟨1, 0, .noteOn 60 60⟩, ⟨4, 0, .noteOff 60 60⟩,
      ⟨5, 0, .noteOn 62 60⟩, ⟨6, 0, .noteOff 62 60⟩, ⟨7, 0, .tempoChange 90⟩,
      ⟨7, 0, .noteOn 64 60⟩, ⟨11, 0, .noteOff 64 60⟩], 12⟩]⟩ := by
    decide +kernel
  rcases score.compile_placement 120 with ⟨e, he, -⟩ | ⟨doubled, nominal, hd, hn, -, -, -, -, htracks⟩
  · cases hdoubled.symm.trans he
  · cases hdoubled.symm.trans hd
    cases hnominal.symm.trans hn
    obtain ⟨xs, ys, hxs, hys, hsame, -⟩ := htracks 0 _ rfl
    cases hxs
    cases hys
    exact ⟨_, _, hdoubled, hnominal, _, _, rfl, rfl, hsame, rfl, rfl⟩

end Score
end Sequencer
