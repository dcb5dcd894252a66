import Mathlib.Tactic
import Sequencer.Midi.Buffer
import Sequencer.Proofs.Timeline.Order
import Sequencer.Proofs.Verdict

/-! # Timelines that can be written

A timeline can be written if each of its numbers fits the field of the file that it goes to. If
some do not, the file is refused for the first of them in the order of writing, and no byte of it
reaches a target.
-/

namespace Sequencer

open Midi (Layout)

/-- Beats per minute whose microseconds are positive and fit in 24 bits. -/
def Midi.TempoFits (bpm : UInt32) : Prop :=
  4 ≤ bpm.toNat ∧ bpm.toNat ≤ 60000000

instance (bpm : UInt32) : Decidable (Midi.TempoFits bpm) :=
  inferInstanceAs (Decidable (_ ∧ _))

def TrackEvents.nameSize (track : TrackEvents) : Nat :=
  (track.name.getD ("Track " ++ toString (track.index + 1))).toUTF8.size

/-- A timeline whose numbers fit the fields of a file. -/
structure Timeline.Writable (layout : Layout) (timeline : Timeline) : Prop where
  resolution_fits : 1 ≤ timeline.resolution.toNat ∧ timeline.resolution.toNat ≤ 32767
  initialTempo_fits : timeline.tracks = [] ∨ Midi.TempoFits timeline.initialTempo
  tempos_fit : ∀ track ∈ timeline.tracks, ∀ event ∈ track.events, ∀ bpm,
    event.kind = .tempoChange bpm → Midi.TempoFits bpm
  names_fit : layout.trackNames → ∀ track ∈ timeline.tracks, track.nameSize ≤ 0x0FFFFFFF
  /-- The first tick and the gaps between neighbours, once the events are sorted. -/
  gaps_fit : ∀ track ∈ timeline.tracks, (0 :: (sortByTick track.events).map Event.tick).IsChain
    fun last tick => tick - last ≤ 0x0FFFFFFF

def EventKind.fileFaults : EventKind → List Midi.Error
  | tempoChange bpm => faultIf (¬ Midi.TempoFits bpm) (.tempoOutOfRange bpm)
  | _ => []

/-- The faults of events after the tick `last`: of each event first its delta time, then its
tempo. -/
def eventFaults (last : Nat) (events : List Event) : List Midi.Error :=
  (events.zip (last :: events.map Event.tick)).flatMap fun (event, last) =>
    faultIf (0x0FFFFFFF < event.tick - last) (.deltaOutOfRange (event.tick - last)) ++
      event.kind.fileFaults

/-- The faults of a track: of its name, of the initial tempo if it bears it, and of its events. -/
def TrackEvents.fileFaults (layout : Layout) (initialTempo : Option UInt32)
    (track : TrackEvents) : List Midi.Error :=
  faultIf (layout.trackNames ∧ 0x0FFFFFFF < track.nameSize) (.deltaOutOfRange track.nameSize) ++
    ((initialTempo.toList.flatMap fun bpm =>
      faultIf (¬ Midi.TempoFits bpm) (.tempoOutOfRange bpm)) ++
    eventFaults 0 (sortByTick track.events))

/-- All faults of a timeline. The first track bears the initial tempo. -/
def Timeline.fileFaults (layout : Layout) (timeline : Timeline) : List Midi.Error :=
  faultIf (¬ (1 ≤ timeline.resolution.toNat ∧ timeline.resolution.toNat ≤ 32767))
    (.resolutionOutOfRange timeline.resolution) ++
  timeline.tracks.zipIdx.flatMap fun (track, i) =>
    track.fileFaults layout (if i = 0 then some timeline.initialTempo else none)

namespace Midi

theorem quantity_accepted (n : Nat) :
    accepted (quantity n) = verdict (faultIf (0x0FFFFFFF < n) (.deltaOutOfRange n)) := by
  rw [quantity, greatestQuantity]
  by_cases h : n ≤ 0x0FFFFFFF
  · rw [if_pos h, faultIf, if_neg (not_lt.mpr h)]
    rfl
  · rw [if_neg h, faultIf, if_pos (not_le.mp h)]
    rfl

/-- The bounds on the microseconds are bounds on the beats per minute. -/
theorem micros_fit_iff {bpm : UInt32} (h : bpm ≠ 0) :
    (0 < 60000000 / bpm ∧ 60000000 / bpm ≤ greatestTempo) ↔ TempoFits bpm := by
  have hpos : 0 < bpm.toNat := UInt32.pos_iff_ne_zero.mpr h
  have hmicros : (60000000 / bpm).toNat = 60000000 / bpm.toNat := UInt32.toNat_div _ _
  have hmost : 60000000 / bpm.toNat ≤ 0xFFFFFF ↔ 4 ≤ bpm.toNat := by
    rw [← Nat.lt_succ_iff, Nat.div_lt_iff_lt_mul hpos]
    omega
  have hleast : 0 < 60000000 / bpm.toNat ↔ bpm.toNat ≤ 60000000 := by
    rw [Nat.div_pos_iff]
    omega
  rw [UInt32.lt_iff_toNat_lt, UInt32.le_iff_toNat_le, hmicros]
  exact (and_congr hleast hmost).trans and_comm

theorem tempoMessage_accepted (bpm : UInt32) :
    accepted (tempoMessage bpm) = verdict (faultIf (¬ TempoFits bpm) (.tempoOutOfRange bpm)) := by
  by_cases hzero : bpm = 0
  · rw [hzero]
    rfl
  · rw [tempoMessage, microsPerQuarter?, if_neg hzero]
    simp only [micros_fit_iff hzero]
    by_cases hfits : TempoFits bpm
    · rw [if_pos hfits, faultIf, if_neg (not_not.mpr hfits)]
      rfl
    · rw [if_neg hfits, faultIf, if_pos hfits]
      rfl

theorem message_accepted (event : Event) :
    accepted (message event) = verdict event.kind.fileFaults := by
  rw [message]
  cases event.kind with
  | programChange program => rfl
  | noteOn pitch velocity => rfl
  | noteOff pitch velocity => rfl
  | tempoChange bpm => exact tempoMessage_accepted bpm

theorem timedMessages_accepted (last : Nat) (events : List Event) :
    accepted (timedMessages last events) = verdict (eventFaults last events) := by
  induction events generalizing last with
  | nil => rfl
  | cons event rest ih =>
    rw [eventFaults, List.map_cons, List.zip_cons_cons, List.flatMap_cons, ← eventFaults,
      List.append_assoc, timedMessages]
    refine accepted_bind_eq_verdict (quantity_accepted _) fun delta => ?_
    refine accepted_bind_eq_verdict (message_accepted event) fun bytes => ?_
    exact (accepted_bind_ok _ _).trans (ih event.tick)

theorem nameMessage_accepted (layout : Layout) (track : TrackEvents) :
    accepted (if layout.trackNames then nameMessage (writtenName track) else .ok []) =
      verdict (faultIf (layout.trackNames ∧ 0x0FFFFFFF < track.nameSize)
        (.deltaOutOfRange track.nameSize)) := by
  have hsize : (writtenName track).toUTF8.data.toList.length = track.nameSize :=
    Array.length_toList
  cases layout.trackNames with
  | false => rfl
  | true =>
    simp only [if_true, true_and]
    rw [← hsize, ← quantity_accepted]
    exact accepted_bind_ok _ _

theorem initialTempo_accepted (initialTempo : Option UInt32) :
    accepted (match initialTempo with
      | some bpm => (tempoMessage bpm).map ([0] ++ ·)
      | none => .ok []) = verdict (initialTempo.toList.flatMap fun bpm =>
        faultIf (¬ TempoFits bpm) (.tempoOutOfRange bpm)) := by
  cases initialTempo with
  | none => rfl
  | some bpm =>
    rw [Option.toList_some, List.flatMap_singleton, ← tempoMessage_accepted]
    exact accepted_bind_ok _ _

/-- The parts of a track's contents are encoded one after another. -/
theorem trackContents_eq_bind (layout : Layout) (initialTempo : Option UInt32)
    (track : TrackEvents) :
    trackContents layout initialTempo track =
      (if layout.trackNames then nameMessage (writtenName track) else .ok []).bind fun name =>
        (match initialTempo with
          | some bpm => (tempoMessage bpm).map ([0] ++ ·)
          | none => .ok []).bind fun tempo =>
            (timedMessages 0 (sortByTick track.events)).bind fun events =>
              .ok (name ++ tempo ++ events ++ endOfTrack) := by
  rw [trackContents]
  cases layout.trackNames <;> cases initialTempo <;> rfl

theorem trackContents_accepted (layout : Layout) (initialTempo : Option UInt32)
    (track : TrackEvents) :
    accepted (trackContents layout initialTempo track) =
      verdict (track.fileFaults layout initialTempo) := by
  rw [trackContents_eq_bind, TrackEvents.fileFaults]
  refine accepted_bind_eq_verdict (nameMessage_accepted layout track) fun name => ?_
  refine accepted_bind_eq_verdict (initialTempo_accepted initialTempo) fun tempo => ?_
  exact (accepted_bind_ok _ _).trans (timedMessages_accepted 0 _)

theorem trackChunks_accepted (layout : Layout) (initialTempo : Option UInt32)
    (tracks : List TrackEvents) :
    accepted (trackChunks layout initialTempo tracks) =
      verdict (tracks.zipIdx.flatMap fun (track, i) =>
        track.fileFaults layout (if i = 0 then initialTempo else none)) := by
  induction tracks generalizing initialTempo with
  | nil => rfl
  | cons track tracks ih =>
    have hshift : tracks.zipIdx 1 = tracks.zipIdx.map fun (later, i) => (later, i + 1) :=
      List.zipIdx_succ
    rw [List.zipIdx_cons, List.flatMap_cons, hshift, List.flatMap_map, trackChunks]
    refine accepted_bind_eq_verdict (trackContents_accepted layout initialTempo track)
      fun contents => ?_
    refine (accepted_bind_ok _ _).trans ((ih none).trans ?_)
    simp only [Nat.add_eq_zero_iff, one_ne_zero, and_false, if_false, ite_self]

theorem file_accepted (layout : Layout) (timeline : Timeline) :
    accepted (file layout timeline) = verdict (timeline.fileFaults layout) := by
  rw [Timeline.fileFaults, verdict_faultIf_append, ← trackChunks_accepted, file, greatestDivision]
  by_cases hrange : 1 ≤ timeline.resolution.toNat ∧ timeline.resolution.toNat ≤ 32767
  · rw [if_neg (not_not.mpr hrange)]
    simp only [show ¬ (timeline.resolution.toNat = 0 ∨ 32767 < timeline.resolution.toNat) by omega,
      if_false]
    exact accepted_bind_ok _ _
  · rw [if_pos hrange]
    simp only [show timeline.resolution.toNat = 0 ∨ 32767 < timeline.resolution.toNat by omega,
      if_true]
    rfl

end Midi

theorem EventKind.fileFaults_eq_nil_iff (kind : EventKind) :
    kind.fileFaults = [] ↔ ∀ bpm, kind = .tempoChange bpm → Midi.TempoFits bpm := by
  cases kind <;> simp [fileFaults, faultIf_eq_nil_iff]

theorem eventFaults_eq_nil_iff (last : Nat) (events : List Event) :
    eventFaults last events = [] ↔
      ((last :: events.map Event.tick).IsChain fun last tick => tick - last ≤ 0x0FFFFFFF) ∧
        ∀ event ∈ events, ∀ bpm, event.kind = .tempoChange bpm → Midi.TempoFits bpm := by
  induction events generalizing last with
  | nil => simp [eventFaults]
  | cons event rest ih =>
    rw [eventFaults, List.map_cons, List.zip_cons_cons, List.flatMap_cons, ← eventFaults,
      List.append_eq_nil_iff, List.append_eq_nil_iff, ih, faultIf_eq_nil_iff, not_lt,
      EventKind.fileFaults_eq_nil_iff, List.isChain_cons_cons, List.forall_mem_cons]
    tauto

theorem TrackEvents.fileFaults_eq_nil_iff (layout : Layout) (initialTempo : Option UInt32)
    (track : TrackEvents) :
    track.fileFaults layout initialTempo = [] ↔
      (layout.trackNames → track.nameSize ≤ 0x0FFFFFFF) ∧
      (∀ bpm, initialTempo = some bpm → Midi.TempoFits bpm) ∧
      ((0 :: (sortByTick track.events).map Event.tick).IsChain
        fun last tick => tick - last ≤ 0x0FFFFFFF) ∧
      ∀ event ∈ track.events, ∀ bpm, event.kind = .tempoChange bpm → Midi.TempoFits bpm := by
  have htempo : (initialTempo.toList.flatMap fun bpm =>
      faultIf (¬ Midi.TempoFits bpm) (Midi.Error.tempoOutOfRange bpm)) = [] ↔
        ∀ bpm, initialTempo = some bpm → Midi.TempoFits bpm := by
    cases initialTempo <;> simp [faultIf_eq_nil_iff]
  rw [fileFaults, List.append_eq_nil_iff, List.append_eq_nil_iff, faultIf_eq_nil_iff, htempo,
    eventFaults_eq_nil_iff, not_and, not_lt]
  simp only [mem_sortByTick]

theorem Timeline.initialTempo_fits_iff (timeline : Timeline) :
    (∀ (track : TrackEvents) (i : Nat), (track, i) ∈ timeline.tracks.zipIdx →
      ∀ bpm, (if i = 0 then some timeline.initialTempo else none) = some bpm →
        Midi.TempoFits bpm) ↔
    timeline.tracks = [] ∨ Midi.TempoFits timeline.initialTempo := by
  cases timeline.tracks with
  | nil => simp
  | cons track tracks =>
    constructor
    · intro h
      exact .inr (h track 0 List.mem_cons_self _ rfl)
    · rintro (h | h)
      · cases h
      · intro _ i _ bpm hbpm
        split_ifs at hbpm
        cases hbpm
        exact h

/-- A timeline without faults can be written, and no other can. -/
theorem Timeline.fileFaults_eq_nil_iff (layout : Layout) (timeline : Timeline) :
    timeline.fileFaults layout = [] ↔ timeline.Writable layout := by
  rw [fileFaults, List.append_eq_nil_iff, faultIf_eq_nil_iff, not_not]
  simp only [List.flatMap_eq_nil_iff, Prod.forall, TrackEvents.fileFaults_eq_nil_iff, imp_and,
    forall_and, initialTempo_fits_iff, forall_mem_zipIdx_iff]
  constructor
  · rintro ⟨hresolution, hnames, htempo, hgaps, htempos⟩
    exact ⟨hresolution, htempo, htempos, fun hnamed track htrack => hnames track htrack hnamed,
      hgaps⟩
  · rintro ⟨hresolution, htempo, htempos, hnames, hgaps⟩
    exact ⟨hresolution, fun track htrack hnamed => hnames hnamed track htrack, htempo, hgaps,
      htempos⟩

namespace Midi

theorem sortByTick_isChain (events : List Event) :
    (0 :: (sortByTick events).map Event.tick).IsChain (· ≤ ·) := by
  rw [List.isChain_iff_pairwise, List.pairwise_cons, List.pairwise_map]
  exact ⟨fun tick _ => Nat.zero_le tick, sortByTick_inTickOrder events⟩

/-- A timeline is refused for its first fault in the order of writing, and then nothing is
written; one without faults is written whole, or as far as the target takes it. -/
structure FirstFaultRefuses (layout : Layout) (timeline : Timeline) : Prop where
  accepted_iff : (∃ bytes, file layout timeline = .ok bytes) ↔ timeline.Writable layout
  refused_iff : ∀ e, file layout timeline = .error e ↔ (timeline.fileFaults layout).head? = some e
  /-- No tick is subtracted from a smaller one. -/
  ticks_chain : ∀ track ∈ timeline.tracks,
    (0 :: (sortByTick track.events).map Event.tick).IsChain (· ≤ ·)
  nothing_written : ∀ {ω : Type} (write : Writer ω) (target : ω) e,
    file layout timeline = .error e → writeFile layout timeline write target = (.error e, target)
  whole_written : ∀ {ω : Type} (write : Writer ω) (target : ω) bytes,
    file layout timeline = .ok bytes → writeFile layout timeline write target = write bytes target
  cut_off : ∀ capacity bytes, file layout timeline = .ok bytes →
    writeFile layout timeline Buffer.write (.empty (some capacity)) =
      (if bytes.length ≤ capacity then .ok () else .error .incompleteWrite,
        ⟨some capacity, bytes.take capacity⟩)

theorem file_rejects_first_fault (layout : Layout) (timeline : Timeline) :
    FirstFaultRefuses layout timeline where
  accepted_iff := by
    rw [← accepted_eq_ok_iff, file_accepted, verdict_eq_ok_iff, Timeline.fileFaults_eq_nil_iff]
  refused_iff e := by
    rw [← accepted_eq_error_iff, file_accepted, verdict_eq_error_iff]
  ticks_chain track _ := sortByTick_isChain track.events
  nothing_written write target e h := by rw [writeFile, h]
  whole_written write target bytes h := by rw [writeFile, h]
  cut_off capacity bytes h := by
    rw [writeFile, h]
    rfl

/-- A second track whose name fits, but whose second event comes too late after its first; the
tempo of that event, which is out of range as well, is a later fault. -/
theorem file_rejects_first_fault_late :
    let lead : TrackEvents := ⟨0, some "A", 3, .melodic, [⟨2, 3, .noteOn 60 60⟩], 2⟩
    let late : TrackEvents := ⟨1, none, 4, .melodic,
      [⟨0x10000004, 4, .tempoChange 3⟩, ⟨4, 4, .tempoChange 4⟩], 4⟩
    let timeline : Timeline := ⟨4, 120, [lead, late]⟩
    file {} timeline = .error (.deltaOutOfRange 0x10000000) ∧
      ¬ timeline.Writable {} ∧
      writeFile {} timeline Buffer.write (.empty (some 40)) =
        (.error (.deltaOutOfRange 0x10000000), .empty (some 40)) ∧
      file {} ⟨4, 120, [lead]⟩ = .ok [
        77, 84, 104, 100, 0, 0, 0, 6, 0, 1, 0, 1, 0, 4,
        77, 84, 114, 107, 0, 0, 0, 20, 0, 255, 3, 1, 65, 0, 255, 81, 3, 7, 161, 32, 2, 147, 60, 60,
        0, 255, 47, 0] ∧
      writeFile {} ⟨4, 120, [lead]⟩ Buffer.write (.empty (some 40)) =
        (.error .incompleteWrite, ⟨some 40, [
          77, 84, 104, 100, 0, 0, 0, 6, 0, 1, 0, 1, 0, 4,
          77, 84, 114, 107, 0, 0, 0, 20, 0, 255, 3, 1, 65, 0, 255, 81, 3, 7, 161, 32, 2, 147, 60,
          60, 0, 255]⟩) := by
  intro lead late timeline
  have hrefuses := file_rejects_first_fault {} timeline
  have hwrites := file_rejects_first_fault {} ⟨4, 120, [lead]⟩
  have hsorted : sortByTick late.events = late.events.reverse := by cbv
  have hfaults : late.fileFaults {} none = [.deltaOutOfRange 0x10000000, .tempoOutOfRange 3] := by
    rw [TrackEvents.fileFaults, hsorted]
    decide +kernel
  have hrejected := (hrefuses.refused_iff (.deltaOutOfRange 0x10000000)).mpr (by
    change (lead.fileFaults {} (some 120) ++ (late.fileFaults {} none ++ [])).head? = _
    rw [hfaults]
    decide +kernel)
  have hfile : file {} ⟨4, 120, [lead]⟩ = .ok [
      77, 84, 104, 100, 0, 0, 0, 6, 0, 1, 0, 1, 0, 4,
      77, 84, 114, 107, 0, 0, 0, 20, 0, 255, 3, 1, 65, 0, 255, 81, 3, 7, 161, 32, 2, 147, 60, 60,
      0, 255, 47, 0] := by
    decide +kernel
  refine ⟨hrejected, ?_, hrefuses.nothing_written Buffer.write _ _ hrejected, hfile,
    hwrites.cut_off 40 _ hfile⟩
  rw [← hrefuses.accepted_iff, hrejected]
  rintro ⟨bytes, hbytes⟩
  cases hbytes

end Midi
end Sequencer
