import Sequencer.Proofs.Compile.ClosedForm

/-! # Strikes

The schedule of a track is made of marks, of its program and of new tempos, and of strikes: its
pitched notes, each with a start and a length. Strikes follow one another without overlap, bar by
bar, and where their note-offs go is all that the options decide about them.
-/

namespace Sequencer

/-- A pitched note at its place in time. -/
structure Strike where
  start : Nat
  length : Nat
  pitch : UInt8
  deriving DecidableEq, Repr, Inhabited

namespace Strike

def noteOn (strike : Strike) : Emission :=
  ⟨strike.start, .noteOn strike.pitch 60⟩

/-- The tick of the note-off: a doubled note sounds twice its length. -/
def stop (placement : NoteOff) (strike : Strike) : Nat :=
  match placement with
  | .doubled => strike.start + 2 * strike.length
  | .nominalEnd => strike.start + strike.length

def noteOff (placement : NoteOff) (strike : Strike) : Emission :=
  ⟨strike.stop placement, .noteOff strike.pitch 60⟩

theorem start_le_stop (placement : NoteOff) (strike : Strike) :
    strike.start ≤ strike.stop placement := by
  cases placement <;> exact Nat.le_add_right _ _

end Strike

namespace Track

/-- The mark of a bar's tempo; none if the tempo is in force already. -/
def tempoMark (track : Track) (initial : UInt32) (global : Nat) (bar : Bar) (b : Nat) :
    List Emission :=
  if bar.tempo = track.tempoBefore initial b then []
  else [⟨track.barStart global b, .tempoChange bar.tempo⟩]

def barStrikes (track : Track) (global : Nat) (bar : Bar) (b : Nat) : List Strike :=
  bar.notes.zipIdx.filterMap fun (note, n) => note.pitch.map fun pitch =>
    ⟨track.noteStart global b bar n, note.sixteenths * (global / bar.resolution.toNat), pitch⟩

def strikes (track : Track) (global : Nat) : List Strike :=
  track.bars.zipIdx.flatMap fun (bar, b) => track.barStrikes global bar b

end Track

theorem Note.schedule_eq (placement : NoteOff) (start length : Nat) (note : Note) :
    note.schedule placement start length = (note.pitch.map (Strike.mk start length)).toList.flatMap
      fun strike => [strike.noteOn, strike.noteOff placement] := by
  cases hpitch : note.pitch with
  | none => simp only [schedule, hpitch]; rfl
  | some pitch => cases placement <;> simp only [schedule, hpitch] <;> rfl

namespace Track

theorem barSchedule_eq (track : Track) (options : Options) (global : Nat) (bar : Bar) (b : Nat) :
    track.barSchedule options global bar b =
      track.tempoMark options.initialTempo global bar b ++ (track.barStrikes global bar b).flatMap
        fun strike => [strike.noteOn, strike.noteOff options.noteOff] := by
  rw [barSchedule, tempoMark, barStrikes, List.filterMap_eq_flatMap_toList, List.flatMap_assoc]
  simp only [Note.schedule_eq]

theorem schedule_eq (track : Track) (options : Options) (global : Nat) :
    track.schedule options global = track.instrument.emissions ++
      track.bars.zipIdx.flatMap fun (bar, b) => track.barSchedule options global bar b := by
  rw [schedule]
  cases track.instrument <;> rfl

/-- The events of some kinds that a schedule brings. -/
theorem filter_schedule (track : Track) (options : Options) (global : Nat) (channel : UInt8)
    (p : EventKind → Bool) :
    (((track.schedule options global).map (Emission.event channel)).filter
      fun event => p event.kind) =
        ((track.instrument.emissions.map (Emission.event channel)).filter
          fun event => p event.kind) ++ track.bars.zipIdx.flatMap fun (bar, b) =>
        (((track.tempoMark options.initialTempo global bar b).map (Emission.event channel)).filter
          fun event => p event.kind) ++ (track.barStrikes global bar b).flatMap fun strike =>
        [strike.noteOn.event channel, (strike.noteOff options.noteOff).event channel].filter
          fun event => p event.kind := by
  simp only [schedule_eq, barSchedule_eq, List.map_append, List.map_flatMap, List.filter_append,
    List.filter_flatMap, List.map_cons, List.map_nil]

theorem mem_tempoMark {track : Track} {initial : UInt32} {global b : Nat} {bar : Bar}
    {emission : Emission} : emission ∈ track.tempoMark initial global bar b ↔
      bar.tempo ≠ track.tempoBefore initial b ∧
        emission = ⟨track.barStart global b, .tempoChange bar.tempo⟩ := by
  rw [tempoMark]
  split_ifs with h <;> simp [h]

theorem mem_barStrikes {track : Track} {global b : Nat} {bar : Bar} {strike : Strike} :
    strike ∈ track.barStrikes global bar b ↔ ∃ (n : Nat) (note : Note) (pitch : UInt8),
      bar.notes[n]? = some note ∧ note.pitch = some pitch ∧
        strike = ⟨track.noteStart global b bar n,
          note.sixteenths * (global / bar.resolution.toNat), pitch⟩ := by
  simp only [barStrikes, List.mem_filterMap, Prod.exists, List.mem_zipIdx_iff_getElem?,
    Option.map_eq_some_iff]
  constructor
  · rintro ⟨note, n, hnote, pitch, hpitch, rfl⟩
    exact ⟨n, note, pitch, hnote, hpitch, rfl⟩
  · rintro ⟨n, note, pitch, hnote, hpitch, rfl⟩
    exact ⟨note, n, hnote, pitch, hpitch, rfl⟩

theorem mem_barSchedule {track : Track} {options : Options} {global b : Nat} {bar : Bar}
    {emission : Emission} : emission ∈ track.barSchedule options global bar b ↔
      emission ∈ track.tempoMark options.initialTempo global bar b ∨
        ∃ strike ∈ track.barStrikes global bar b,
          emission = strike.noteOn ∨ emission = strike.noteOff options.noteOff := by
  simp only [barSchedule_eq, List.mem_append, List.mem_flatMap, List.mem_cons, List.not_mem_nil,
    or_false]

theorem mem_schedule {track : Track} {options : Options} {global : Nat} {emission : Emission} :
    emission ∈ track.schedule options global ↔
      emission ∈ track.instrument.emissions ∨ ∃ (b : Nat) (bar : Bar), track.bars[b]? = some bar ∧
        emission ∈ track.barSchedule options global bar b := by
  rw [schedule_eq, List.mem_append, List.mem_flatMap, Prod.exists, exists_comm]
  simp only [List.mem_zipIdx_iff_getElem?]

end Track

theorem zipIdx_pairwise {α : Type*} (xs : List α) : xs.zipIdx.Pairwise fun a b => a.2 < b.2 := by
  apply List.pairwise_map.mp
  rw [List.zipIdx_map_snd]
  exact List.pairwise_lt_range'

namespace Track

theorem barStart_succ {track : Track} {global b : Nat} {bar : Bar}
    (hbar : track.bars[b]? = some bar) :
    track.barStart global (b + 1) = track.barStart global b + 4 * global + bar.notes.length := by
  simp only [barStart, notesBefore, List.take_add_one, hbar, Option.toList_some, List.map_append,
    List.map_singleton, List.sum_append, List.sum_singleton]
  ring

theorem barStart_mono (track : Track) (global : Nat) : Monotone (track.barStart global) := by
  intro b c hbc
  have hnotes : track.notesBefore b ≤ track.notesBefore c :=
    ((List.take_sublist_take_left hbc).map _).sum_le_sum fun _ _ => Nat.zero_le _
  have hticks : 4 * global * b ≤ 4 * global * c := Nat.mul_le_mul_left _ hbc
  simp only [barStart]
  omega

/-- What bars bring one after another is in order if it is so within each bar, where it keeps
between the start of the bar and that of the next one. -/
theorem pairwise_flatMap_bars {α : Type*} (track : Track) (global : Nat) (tick : α → Nat)
    {parts : Bar × Nat → List α}
    (hwithin : ∀ b bar, track.bars[b]? = some bar →
      (parts (bar, b)).Pairwise fun x y => tick x ≤ tick y)
    (hbounds : ∀ b bar, track.bars[b]? = some bar → ∀ x ∈ parts (bar, b),
      track.barStart global b ≤ tick x ∧ tick x ≤ track.barStart global (b + 1)) :
    (track.bars.zipIdx.flatMap parts).Pairwise fun x y => tick x ≤ tick y := by
  rw [List.pairwise_flatMap]
  constructor
  · rintro ⟨bar, b⟩ hbar
    exact hwithin b bar (List.mem_zipIdx_iff_getElem?.mp hbar)
  · apply (zipIdx_pairwise track.bars).imp_of_mem
    rintro ⟨bar, b⟩ ⟨later, c⟩ hbar hlater hbc x hx y hy
    calc tick x
        ≤ track.barStart global (b + 1) :=
          (hbounds b bar (List.mem_zipIdx_iff_getElem?.mp hbar) x hx).2
      _ ≤ track.barStart global c := track.barStart_mono global hbc
      _ ≤ tick y := (hbounds c later (List.mem_zipIdx_iff_getElem?.mp hlater) y hy).1

theorem barStart_le_start {track : Track} {global b : Nat} {bar : Bar} {strike : Strike}
    (h : strike ∈ track.barStrikes global bar b) : track.barStart global b ≤ strike.start := by
  obtain ⟨n, note, pitch, -, -, rfl⟩ := mem_barStrikes.mp h
  simp only [barStart, noteStart]
  omega

/-- A note ends before a later note of its bar begins. -/
theorem noteStart_add_lt (track : Track) (global b : Nat) {bar : Bar} {n m : Nat} {note : Note}
    (hnote : bar.notes[n]? = some note) (hnm : n < m) :
    track.noteStart global b bar n + note.sixteenths * (global / bar.resolution.toNat) <
      track.noteStart global b bar m := by
  have hsum : ((bar.notes.take (n + 1)).map Note.sixteenths).sum ≤
      ((bar.notes.take m).map Note.sixteenths).sum :=
    ((List.take_sublist_take_left hnm).map _).sum_le_sum fun _ _ => Nat.zero_le _
  rw [List.take_add_one, hnote, Option.toList_some, List.map_append, List.sum_append,
    List.map_singleton, List.sum_singleton] at hsum
  have hticks := Nat.mul_le_mul_left (global / bar.resolution.toNat) hsum
  rw [Nat.mul_add, Nat.mul_comm _ note.sixteenths] at hticks
  simp only [noteStart]
  omega

variable {track : Track} {global : UInt32}

/-- After its last note a fitting bar has come to the start of the next one. -/
theorem noteStart_length {b : Nat} {bar : Bar} (hbar : track.bars[b]? = some bar)
    (hfit : bar.Fitting global) :
    track.noteStart global.toNat b bar bar.notes.length = track.barStart global.toNat (b + 1) := by
  have hticks : global.toNat / bar.resolution.toNat * (4 * bar.resolution.toNat) =
      4 * global.toNat := by
    rw [mul_left_comm, Nat.div_mul_cancel hfit.resolution_dvd]
  rw [barStart_succ hbar, noteStart, List.take_length, hfit.sixteenths_eq, hticks, barStart]
  ring

theorem end_lt_barStart_succ {b : Nat} {bar : Bar} {strike : Strike}
    (hbar : track.bars[b]? = some bar) (hfit : bar.Fitting global)
    (h : strike ∈ track.barStrikes global.toNat bar b) :
    strike.start + strike.length < track.barStart global.toNat (b + 1) := by
  obtain ⟨n, note, pitch, hnote, -, rfl⟩ := mem_barStrikes.mp h
  rw [← noteStart_length hbar hfit]
  exact noteStart_add_lt track _ b hnote (List.getElem?_eq_some_iff.mp hnote).1

theorem eq_of_mem_barStrikes (hfit : ∀ bar ∈ track.bars, bar.Fitting global) {b c : Nat}
    {bar other : Bar} (hb : track.bars[b]? = some bar) (hc : track.bars[c]? = some other)
    {s t : Strike} (hs : s ∈ track.barStrikes global.toNat bar b)
    (ht : t ∈ track.barStrikes global.toNat other c) (hstart : s.start = t.start) : b = c := by
  have hend := end_lt_barStart_succ hb (hfit bar (List.mem_of_getElem? hb)) hs
  have hend' := end_lt_barStart_succ hc (hfit other (List.mem_of_getElem? hc)) ht
  have hle := barStart_le_start hs
  have hle' := barStart_le_start ht
  rcases lt_trichotomy b c with hlt | heq | hlt
  · have hnext : track.barStart global.toNat (b + 1) ≤ track.barStart global.toNat c :=
      track.barStart_mono _ hlt
    omega
  · exact heq
  · have hnext : track.barStart global.toNat (c + 1) ≤ track.barStart global.toNat b :=
      track.barStart_mono _ hlt
    omega

theorem barStrikes_pairwise (track : Track) (global b : Nat) (bar : Bar) :
    (track.barStrikes global bar b).Pairwise fun s t => s.start + s.length < t.start := by
  rw [barStrikes, List.pairwise_filterMap]
  apply (zipIdx_pairwise bar.notes).imp_of_mem
  rintro ⟨note, n⟩ ⟨later, m⟩ hnote - hnm s hs t ht
  obtain ⟨pitch, -, rfl⟩ := Option.map_eq_some_iff.mp hs
  obtain ⟨pitch', -, rfl⟩ := Option.map_eq_some_iff.mp ht
  exact noteStart_add_lt track global b (List.mem_zipIdx_iff_getElem?.mp hnote) hnm

/-- Each strike ends before the next one starts. -/
theorem strikes_pairwise (hfit : ∀ bar ∈ track.bars, bar.Fitting global) :
    (track.strikes global.toNat).Pairwise fun s t => s.start + s.length < t.start := by
  rw [strikes, List.pairwise_flatMap]
  refine ⟨fun (bar, b) _ => barStrikes_pairwise track global.toNat b bar, ?_⟩
  apply (zipIdx_pairwise track.bars).imp_of_mem
  rintro ⟨bar, b⟩ ⟨later, c⟩ hb - hbc s hs t ht
  have hbar := List.mem_zipIdx_iff_getElem?.mp hb
  calc s.start + s.length
      < track.barStart global.toNat (b + 1) :=
        end_lt_barStart_succ hbar (hfit bar (List.mem_of_getElem? hbar)) hs
    _ ≤ track.barStart global.toNat c := track.barStart_mono global.toNat hbc
    _ ≤ t.start := barStart_le_start ht

end Track

/-- What a track of an accepted score compiles to: its schedule, sorted by tick, on the channel
that the tracks of its class before it leave for it. -/
theorem Score.compile_schedule {score : Score} {options : Options} {timeline : Timeline}
    (h : score.compile options = .ok timeline) {i : Nat} {track : Track}
    (htrack : score.tracks[i]? = some track) :
    (∀ bar ∈ track.bars, bar.Fitting timeline.resolution) ∧
      ∃ channel, track.instrument.kind.channels[countOfKind track.instrument.kind
          (score.tracks.take i)]? = some channel ∧
        timeline.tracks[i]? = some ⟨i, track.name, channel, track.instrument.kind,
          sortByTick ((track.schedule options timeline.resolution.toNat).map
            (Emission.event channel)),
          track.barStart timeline.resolution.toNat track.bars.length⟩ := by
  obtain ⟨hresolution, -, htracks⟩ := compile_eq_ok h
  obtain ⟨channel, events, hresult, hchannel, hevents⟩ :=
    (compileTracks_eq_ok Channels.full_leftBy htracks).2 i track htrack
  obtain ⟨hsound, rfl⟩ := Track.eventsOn_eq_ok hevents
  have hfit : ∀ bar ∈ track.bars, bar.Fitting timeline.resolution := by
    intro bar hbar
    have hdvd := dvd_of_globalResolution_eq_ok hresolution (List.mem_of_getElem? htrack) hbar
    exact ⟨hsound bar hbar, hdvd.1, hdvd.2⟩
  have hend := track.barStart_eq ⟨options, timeline.resolution⟩ hfit le_rfl
  rw [List.take_length] at hend
  refine ⟨hfit, channel, hchannel, ?_⟩
  rw [hresult, hend, track.emissions_eq_schedule ⟨options, timeline.resolution⟩ hfit,
    List.length_nil, Nat.zero_add]

end Sequencer
