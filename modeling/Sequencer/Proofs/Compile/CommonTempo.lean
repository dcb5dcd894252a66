import Sequencer.Proofs.Compile.Merging
import Sequencer.Proofs.Compile.Tempo

/-! # One tempo for all tracks

Tempos are marked track by track, while in the merged events the marks of all tracks count. A gap
follows each note, so a track with more notes in its bars is late at the next ones, and a note may
begin in a tempo that another track has taken for a later bar, even if all tracks give the same
tempos to their bars. It does not if the tracks are in step wherever the tempo is new.
-/

namespace Sequencer

namespace Track

def newTempos (track : Track) (initial : UInt32) : List Nat :=
  (track.bars.zipIdx.filter fun (bar, b) => bar.tempo ≠ track.tempoBefore initial b).map Prod.snd

/-- The ticks of the tempo marks and of the note-ons in the bars before a number. -/
def cueTicks (track : Track) (initial : UInt32) (global c : Nat) : List Nat :=
  (track.bars.zipIdx.take c).flatMap fun (bar, b) =>
    (track.tempoMark initial global bar b).map Emission.tick ++
      (track.barStrikes global bar b).map Strike.start

end Track

namespace Score

/-- Bars of the same number have the same tempo in all tracks. -/
def SharesTempos (score : Score) : Prop :=
  ∀ track ∈ score.tracks, ∀ other ∈ score.tracks,
    ∀ bars ∈ track.bars.zip other.bars, bars.1.tempo = bars.2.tempo

/-- When a track comes to a bar in a new tempo, the others have begun all notes of earlier bars and
taken their tempos. What falls on the same tick comes in the order of the tracks. -/
def InStep (score : Score) (initial : UInt32) (global : Nat) : Prop :=
  ∀ first ∈ score.tracks.zipIdx, ∀ second ∈ score.tracks.zipIdx,
    ∀ c ∈ second.1.newTempos initial, ∀ tick ∈ first.1.cueTicks initial global c,
      tick < second.1.barStart global c ∨
        tick = second.1.barStart global c ∧ first.2 < second.2

instance (score : Score) : Decidable score.SharesTempos :=
  inferInstanceAs (Decidable (∀ _ ∈ score.tracks, _))

instance (score : Score) (initial : UInt32) (global : Nat) :
    Decidable (score.InStep initial global) :=
  inferInstanceAs (Decidable (∀ _ ∈ score.tracks.zipIdx, _))

/-- The event is a note-on or the tempo mark of a bar, as the timeline has it. -/
structure CueOf (score : Score) (timeline : Timeline) (event : Event) (i : Nat) (track : Track)
    (b : Nat) (bar : Bar) : Prop where
  track_eq : score.tracks[i]? = some track
  bar_eq : track.bars[b]? = some bar
  mem_cues : ∃ events : TrackEvents, timeline.tracks[i]? = some events ∧
    event ∈ track.cues timeline.initialTempo timeline.resolution.toNat events.channel (bar, b)

end Score

namespace Track

variable {track : Track} {initial : UInt32} {global : Nat} {channel : UInt8}

theorem mem_newTempos {b : Nat} : b ∈ track.newTempos initial ↔
    ∃ bar, track.bars[b]? = some bar ∧ bar.tempo ≠ track.tempoBefore initial b := by
  simp only [newTempos, List.mem_map, List.mem_filter, Prod.exists, List.mem_zipIdx_iff_getElem?,
    decide_eq_true_eq]
  constructor
  · rintro ⟨bar, _, h, rfl⟩
    exact ⟨bar, h⟩
  · rintro ⟨bar, h⟩
    exact ⟨bar, b, h, rfl⟩

theorem tempoBefore_succ_of_bar {b : Nat} {bar : Bar} (hbar : track.bars[b]? = some bar) :
    track.tempoBefore initial (b + 1) = bar.tempo := by
  rw [tempoBefore_succ, hbar]
  rfl

theorem tempoBefore_eq {b c : Nat} (hcb : c ≤ b)
    (h : ∀ d ∈ track.newTempos initial, d < c ∨ b ≤ d) :
    track.tempoBefore initial b = track.tempoBefore initial c := by
  induction b, hcb using Nat.le_induction with
  | base => rfl
  | succ b hcb ih =>
    rw [← ih fun d hd => (h d hd).imp_right (Nat.le_of_succ_le)]
    cases hbar : track.bars[b]? with
    | none => rw [tempoBefore_succ, hbar]; rfl
    | some bar =>
      rw [tempoBefore_succ_of_bar hbar]
      by_contra hne
      have := h b (mem_newTempos.mpr ⟨bar, hbar, hne⟩)
      omega

theorem map_tick_cues (bar : Bar) (b : Nat) :
    (track.cues initial global channel (bar, b)).map Event.tick =
      (track.tempoMark initial global bar b).map Emission.tick ++
        (track.barStrikes global bar b).map Strike.start := by
  simp only [cues, noteOns, List.map_append, List.map_map]
  rfl

theorem tick_mem_cueTicks {bar : Bar} {b c : Nat} {event : Event}
    (hbar : track.bars[b]? = some bar) (hbc : b < c)
    (h : event ∈ track.cues initial global channel (bar, b)) :
    event.tick ∈ track.cueTicks initial global c := by
  rw [cueTicks, List.mem_flatMap]
  refine ⟨(bar, b), ?_, ?_⟩
  · apply List.mem_of_getElem? (i := b)
    rw [List.getElem?_take_of_lt hbc, List.getElem?_zipIdx, hbar, Option.map_some, Nat.zero_add]
  · have htick := List.mem_map_of_mem (f := Event.tick) h
    rwa [map_tick_cues] at htick

theorem mark_mem_front {global : UInt32} (hfit : ∀ bar ∈ track.bars, bar.Fitting global)
    {events front back : List Event} {event mark : Event}
    (hcues : (events.filter fun event => event.kind.isCue) =
      track.bars.zipIdx.flatMap (track.cues initial global.toNat channel))
    (hsplit : events = front ++ event :: back) {b d : Nat} {bar other : Bar}
    (hbar : track.bars[b]? = some bar) (hnote : event ∈ track.noteOns global.toNat channel bar b)
    (hother : track.bars[d]? = some other)
    (hmark : mark ∈ (track.tempoMark initial global.toNat other d).map (Emission.event channel))
    (hdb : d ≤ b) : mark ∈ front := by
  have hon := isNoteOn_of_mem_noteOns hnote
  obtain ⟨before, bar', b', after, p, q, hbars, hparts, hfront, -⟩ :=
    exists_bar_of_cue hcues hsplit (by rw [EventKind.isCue, hon, Bool.true_or])
  have hbar' := (zipIdx_eq_append_cons hbars).2
  obtain rfl := eq_of_mem_noteOns hfit hbar' hbar (cues_eq_append_noteOn hparts hon).1 hnote
  cases hbar'.symm.trans hbar
  suffices hcue : mark ∈ front.filter fun event => event.kind.isCue from
    List.mem_of_mem_filter hcue
  rw [hfront, List.mem_append]
  rcases hdb.lt_or_eq with hlt | rfl
  · left
    have hbefore := (mem_of_zipIdx_eq_append_cons hbars hother).1.mpr hlt
    exact List.mem_flatMap.mpr ⟨_, hbefore, List.mem_append_left _ hmark⟩
  · right
    cases hother.symm.trans hbar
    obtain ⟨hnew, rfl⟩ := mem_mark.mp hmark
    rw [cues, tempoMark, if_neg hnew, List.map_singleton, List.singleton_append] at hparts
    rcases List.cons_eq_append_iff.mp hparts with ⟨-, hfirst⟩ | ⟨rest, rfl, -⟩
    · cases hfirst
      cases hon
    · exact List.mem_cons_self

end Track

def Timeline.Holds (timeline : Timeline) (i : Nat) (event : Event) : Prop :=
  ∃ events : TrackEvents, timeline.tracks[i]? = some events ∧ event ∈ events.events

/-- If no two tracks share an event, those of one tick come in the order of the tracks. -/
theorem Timeline.merged_pairwise {timeline : Timeline}
    (hown : ∀ i j event, timeline.Holds i event → timeline.Holds j event → i = j) :
    timeline.merged.Pairwise fun x y => ∀ i j, timeline.Holds i x → timeline.Holds j y →
      x.tick < y.tick ∨ x.tick = y.tick ∧ i ≤ j := by
  have hflat : (timeline.tracks.flatMap TrackEvents.events).Pairwise fun x y =>
      ∀ i j, timeline.Holds i x → timeline.Holds j y → i ≤ j := by
    have hzip : timeline.tracks.flatMap TrackEvents.events =
        timeline.tracks.zipIdx.flatMap fun (events, _) => events.events := by
      conv_lhs => rw [← List.zipIdx_map_fst 0 timeline.tracks, List.flatMap_map]
    rw [hzip, List.pairwise_flatMap]
    have hholds : ∀ {events : TrackEvents} {k : Nat} {event : Event},
        (events, k) ∈ timeline.tracks.zipIdx → event ∈ events.events → timeline.Holds k event :=
      fun hmem hevent => ⟨_, List.mem_zipIdx_iff_getElem?.mp hmem, hevent⟩
    constructor
    · rintro ⟨events, k⟩ hk
      apply List.pairwise_of_forall_mem_list
      intro x hx y hy i j hi hj
      exact ((hown i k x hi (hholds hk hx)).trans (hown j k y hj (hholds hk hy)).symm).le
    · apply (zipIdx_pairwise timeline.tracks).imp_of_mem
      rintro ⟨xs, k⟩ ⟨ys, l⟩ hk hl hkl x hx y hy i j hi hj
      rw [hown i k x hi (hholds hk hx), hown j l y hj (hholds hl hy)]
      exact hkl.le
  have hties : timeline.merged.Pairwise fun x y => x.tick = y.tick →
      ∀ i j, timeline.Holds i x → timeline.Holds j y → i ≤ j :=
    pairwise_sortByTick (hflat.imp fun h _ i j => h i j)
  apply ((sortByTick_inTickOrder _).and hties).imp
  rintro x y ⟨hle, htie⟩ i j hi hj
  exact hle.lt_or_eq.imp_right fun heq => ⟨heq, htie heq i j hi hj⟩

namespace Score

variable {score : Score} {options : Options} {timeline : Timeline}

theorem compile_cues (h : score.compile options = .ok timeline) {i : Nat} {track : Track}
    (htrack : score.tracks[i]? = some track) :
    (∀ bar ∈ track.bars, bar.Fitting timeline.resolution) ∧ ∃ events : TrackEvents,
      timeline.tracks[i]? = some events ∧ (events.events.filter fun event => event.kind.isCue) =
        track.bars.zipIdx.flatMap
          (track.cues timeline.initialTempo timeline.resolution.toNat events.channel) := by
  obtain ⟨hfit, channel, -, hresult⟩ := compile_schedule h htrack
  refine ⟨hfit, _, hresult, ?_⟩
  rw [filter_sortByTick, Track.filter_isCue_schedule, (compile_eq_ok h).2.1]
  exact sortByTick_eq_self (Track.cues_inTickOrder hfit)

theorem compile_channel_eq (h : score.compile options = .ok timeline) {i : Nat} {event : Event}
    {events : TrackEvents} (hevents : timeline.tracks[i]? = some events)
    (hheld : timeline.Holds i event) : event.channel = events.channel := by
  obtain ⟨_, hevents', hevent⟩ := hheld
  cases hevents.symm.trans hevents'
  exact (compile_track_dependable h (List.mem_of_getElem? hevents)).own_channel event hevent

theorem compile_holds_unique (h : score.compile options = .ok timeline) {i j : Nat} {event : Event}
    (hi : timeline.Holds i event) (hj : timeline.Holds j event) : i = j := by
  have ⟨xs, hxs, _⟩ := hi
  have ⟨ys, hys, _⟩ := hj
  have hlength : i < (timeline.tracks.map TrackEvents.channel).length := by
    rw [List.length_map]
    exact (List.getElem?_eq_some_iff.mp hxs).1
  apply (List.getElem?_inj hlength (compile_channels h).2).mp
  rw [List.getElem?_map, List.getElem?_map, hxs, hys, Option.map_some, Option.map_some,
    ← compile_channel_eq h hxs hi, ← compile_channel_eq h hys hj]

/-- The events of a track are those that the merged ones have on its channel. -/
theorem compile_filter_merged (h : score.compile options = .ok timeline) {i : Nat}
    {events : TrackEvents} (hevents : timeline.tracks[i]? = some events) :
    (timeline.merged.filter fun event => event.channel = events.channel) = events.events := by
  have hmem := List.mem_of_getElem? hevents
  rw [Timeline.merged, filter_sortByTick, filter_channel_flatMap
    (fun events hevents => (compile_track_dependable h hevents).own_channel)
    (compile_channels h).2 hmem]
  exact sortByTick_eq_self (compile_track_dependable h hmem).in_order

variable {event : Event} {i b : Nat} {track : Track} {bar : Bar}

theorem CueOf.holds (h : score.compile options = .ok timeline)
    (hcue : score.CueOf timeline event i track b bar) : timeline.Holds i event := by
  obtain ⟨events, hevents, hmem⟩ := hcue.mem_cues
  obtain ⟨-, _, hevents', hcues⟩ := compile_cues h hcue.track_eq
  cases hevents.symm.trans hevents'
  refine ⟨events, hevents, List.mem_of_mem_filter (p := fun event => event.kind.isCue) ?_⟩
  rw [hcues]
  exact List.mem_flatMap.mpr ⟨(bar, b), List.mem_zipIdx_iff_getElem?.mpr hcue.bar_eq, hmem⟩

theorem exists_cueOf (h : score.compile options = .ok timeline)
    (hmem : event ∈ timeline.merged) (hkind : event.kind.isCue) :
    ∃ i track b bar, score.CueOf timeline event i track b bar := by
  rw [Timeline.merged, mem_sortByTick, List.mem_flatMap] at hmem
  obtain ⟨events, hevents, hevent⟩ := hmem
  obtain ⟨i, track, htrack, hi⟩ := exists_track_of_mem h hevents
  obtain ⟨-, _, hi', hcues⟩ := compile_cues h htrack
  cases hi.symm.trans hi'
  have hfiltered : event ∈ events.events.filter fun event => event.kind.isCue :=
    List.mem_filter.mpr ⟨hevent, hkind⟩
  rw [hcues] at hfiltered
  obtain ⟨⟨bar, b⟩, hbar, hcue⟩ := List.mem_flatMap.mp hfiltered
  exact ⟨i, track, b, bar, htrack, List.mem_zipIdx_iff_getElem?.mp hbar, events, hi, hcue⟩

theorem CueOf.mem_noteOns (hcue : score.CueOf timeline event i track b bar)
    (hon : event.kind.isNoteOn) :
    ∃ events : TrackEvents, timeline.tracks[i]? = some events ∧
      event ∈ track.noteOns timeline.resolution.toNat events.channel bar b := by
  obtain ⟨events, hevents, hmem⟩ := hcue.mem_cues
  refine ⟨events, hevents, (List.mem_append.mp hmem).resolve_left fun hmark => ?_⟩
  rw [(Track.mem_mark.mp hmark).2] at hon
  cases hon

theorem CueOf.eq_mark {bpm : UInt32} (hcue : score.CueOf timeline event i track b bar)
    (hkind : event.kind = .tempoChange bpm) :
    b ∈ track.newTempos timeline.initialTempo ∧ bar.tempo = bpm ∧
      event.tick = track.barStart timeline.resolution.toNat b := by
  obtain ⟨events, hevents, hmem⟩ := hcue.mem_cues
  rcases List.mem_append.mp hmem with hmark | hnote
  · obtain ⟨hnew, rfl⟩ := Track.mem_mark.mp hmark
    exact ⟨Track.mem_newTempos.mpr ⟨bar, hcue.bar_eq, hnew⟩, EventKind.tempoChange.inj hkind, rfl⟩
  · have hon := Track.isNoteOn_of_mem_noteOns hnote
    rw [hkind] at hon
    cases hon

theorem CueOf.unique (h : score.compile options = .ok timeline) {j c : Nat} {other : Track}
    {later : Bar} (hcue : score.CueOf timeline event i track b bar)
    (hother : score.CueOf timeline event j other c later) (hon : event.kind.isNoteOn) :
    i = j ∧ b = c := by
  obtain rfl := compile_holds_unique h (hcue.holds h) (hother.holds h)
  obtain ⟨events, hevents, hnote⟩ := hcue.mem_noteOns hon
  obtain ⟨_, hevents', hnote'⟩ := hother.mem_noteOns hon
  cases hevents.symm.trans hevents'
  cases hcue.track_eq.symm.trans hother.track_eq
  exact ⟨rfl, Track.eq_of_mem_noteOns (compile_cues h hcue.track_eq).1 hcue.bar_eq hother.bar_eq
    hnote hnote'⟩

/-- The mark of a new tempo stands before the note-ons of its bar and of later ones. -/
theorem exists_mark_mem (h : score.compile options = .ok timeline) {front back : List Event}
    (hsplit : timeline.merged = front ++ event :: back) (hon : event.kind.isNoteOn) {d : Nat}
    (hcue : score.CueOf timeline event i track b bar)
    (hd : d ∈ track.newTempos timeline.initialTempo) (hdb : d ≤ b) :
    ∃ mark ∈ front, ∃ other, score.CueOf timeline mark i track d other ∧
      mark.kind = .tempoChange other.tempo := by
  obtain ⟨events, hevents, hnote⟩ := hcue.mem_noteOns hon
  obtain ⟨hfit, _, hevents', hcues⟩ := compile_cues h hcue.track_eq
  cases hevents.symm.trans hevents'
  have hown := compile_filter_merged h hevents
  have hchannel := compile_channel_eq h hevents (hcue.holds h)
  rw [hsplit, List.filter_append, List.filter_cons_of_pos (by simpa using hchannel)] at hown
  obtain ⟨other, hother, hnew⟩ := Track.mem_newTempos.mp hd
  have hmark : (⟨track.barStart timeline.resolution.toNat d, events.channel,
      .tempoChange other.tempo⟩ : Event) ∈
        (track.tempoMark timeline.initialTempo timeline.resolution.toNat other d).map
          (Emission.event events.channel) :=
    Track.mem_mark.mpr ⟨hnew, rfl⟩
  have hfront := Track.mark_mem_front hfit hcues hown.symm hcue.bar_eq hnote hother hmark hdb
  exact ⟨_, List.mem_of_mem_filter hfront, other, ⟨hcue.track_eq, hother, events, hevents,
    List.mem_append_left _ hmark⟩, rfl⟩

theorem exists_last_change (initial : UInt32) (events : List Event) :
    (∀ event ∈ events, event.kind.tempo? = none) ∨ ∃ front last back bpm,
      events = front ++ last :: back ∧ last.kind = .tempoChange bpm ∧
        (∀ event ∈ back, event.kind.tempo? = none) ∧ tempoAfter initial events = bpm := by
  induction events using List.reverseRecOn with
  | nil => simp
  | append_singleton events event ih =>
    by_cases hchange : event.kind.tempo? = none
    · rcases ih with hnone | ⟨front, last, back, bpm, rfl, hlast, hback, htempo⟩
      · left
        simpa [or_imp, forall_and, hchange] using hnone
      · right
        refine ⟨front, last, back ++ [event], bpm, by simp, hlast, ?_, ?_⟩
        · simpa [or_imp, forall_and, hchange] using hback
        · rw [tempoAfter_append, htempo]
          exact tempoAfter_eq_self (by simpa using hchange)
    · right
      cases hkind : event.kind with
      | tempoChange bpm =>
        refine ⟨events, event, [], bpm, rfl, hkind, by simp, ?_⟩
        rw [tempoAfter_append]
        simp [tempoAfter, hkind, EventKind.tempo?]
      | _ => simp [hkind, EventKind.tempo?] at hchange

theorem SharesTempos.eq (hshared : score.SharesTempos) {j : Nat} {other : Track} {later : Bar}
    (hi : score.tracks[i]? = some track) (hj : score.tracks[j]? = some other)
    (hbar : track.bars[b]? = some bar) (hlater : other.bars[b]? = some later) :
    bar.tempo = later.tempo := by
  apply hshared track (List.mem_of_getElem? hi) other (List.mem_of_getElem? hj) (bar, later)
  apply List.mem_of_getElem? (i := b)
  rw [List.getElem?_zip_eq_some]
  exact ⟨hbar, hlater⟩

/-- A cue of an earlier bar does not come behind the mark of a new tempo. -/
theorem InStep.cue_before (hstep : score.InStep timeline.initialTempo timeline.resolution.toNat)
    {cue mark : Event} {j c : Nat} {other : Track} {later : Bar} {bpm : UInt32}
    (hcue : score.CueOf timeline cue i track b bar)
    (hmark : score.CueOf timeline mark j other c later) (hkind : mark.kind = .tempoChange bpm)
    (hbc : b < c) : cue.tick < mark.tick ∨ cue.tick = mark.tick ∧ i < j := by
  obtain ⟨events, -, hmem⟩ := hcue.mem_cues
  obtain ⟨hnew, -, htick⟩ := hmark.eq_mark hkind
  rw [htick]
  exact hstep (track, i) (List.mem_zipIdx_iff_getElem?.mpr hcue.track_eq)
    (other, j) (List.mem_zipIdx_iff_getElem?.mpr hmark.track_eq) c hnew cue.tick
    (Track.tick_mem_cueTicks hcue.bar_eq hbc hmem)

/-- In the merged events the mark of a new tempo comes behind all cues of earlier bars. -/
theorem InStep.bar_le (h : score.compile options = .ok timeline)
    (hstep : score.InStep timeline.initialTempo timeline.resolution.toNat)
    {cue mark : Event} {front back : List Event} {j c : Nat} {other : Track} {later : Bar}
    {bpm : UInt32} (hsplit : timeline.merged = front ++ cue :: back) (hmem : mark ∈ front)
    (hcue : score.CueOf timeline cue i track b bar)
    (hmark : score.CueOf timeline mark j other c later) (hkind : mark.kind = .tempoChange bpm) :
    c ≤ b := by
  by_contra hlt
  have horder := timeline.merged_pairwise fun _ _ _ => compile_holds_unique h
  rw [hsplit] at horder
  have hbefore := hstep.cue_before hcue hmark hkind (Nat.lt_of_not_le hlt)
  have hbehind := (List.pairwise_append.mp horder).2.2 mark hmem cue List.mem_cons_self j i
    (hmark.holds h) (hcue.holds h)
  omega

theorem exists_cueOf_of_change (h : score.compile options = .ok timeline) {bpm : UInt32}
    (hmem : event ∈ timeline.merged) (hkind : event.kind = .tempoChange bpm) :
    ∃ i track b bar, score.CueOf timeline event i track b bar ∧ bar.tempo = bpm := by
  obtain ⟨i, track, b, bar, hcue⟩ := exists_cueOf h hmem (by rw [EventKind.isCue, hkind]; rfl)
  exact ⟨i, track, b, bar, hcue, (hcue.eq_mark hkind).2.1⟩

theorem tempo_eq_initial (h : score.compile options = .ok timeline) {front back : List Event}
    (hsplit : timeline.merged = front ++ event :: back) (hon : event.kind.isNoteOn)
    (hcue : score.CueOf timeline event i track b bar)
    (hnone : ∀ earlier ∈ front, earlier.kind.tempo? = none) :
    bar.tempo = timeline.initialTempo := by
  rw [← Track.tempoBefore_succ_of_bar hcue.bar_eq]
  apply Track.tempoBefore_eq (Nat.zero_le (b + 1))
  intro d hd
  right
  by_contra hlt
  obtain ⟨mark, hmark, other, -, hkind⟩ :=
    exists_mark_mem h hsplit hon hcue hd (Nat.le_of_lt_succ (Nat.lt_of_not_le hlt))
  have := hnone mark hmark
  simp [hkind, EventKind.tempo?] at this

/-- In a score whose tracks are in step, no new tempo comes between the bar of the last change before
a note and the bar of the note. -/
theorem notMem_newTempos_of_last (h : score.compile options = .ok timeline)
    (hstep : score.InStep timeline.initialTempo timeline.resolution.toNat)
    {before between back : List Event} {last : Event}
    (hsplit : timeline.merged = (before ++ last :: between) ++ event :: back)
    (hon : event.kind.isNoteOn) (hcue : score.CueOf timeline event i track b bar)
    {j c : Nat} {other : Track} {later : Bar} (hlast : score.CueOf timeline last j other c later)
    (hbetween : ∀ later ∈ between, later.kind.tempo? = none) {d : Nat} (hcd : c < d)
    (hdb : d ≤ b) : d ∉ track.newTempos timeline.initialTempo := by
  intro hd
  obtain ⟨mark, hmark, changed, hmarkCue, hkind⟩ := exists_mark_mem h hsplit hon hcue hd hdb
  rcases List.mem_append.mp hmark with hin | hin
  · have hsplit' : timeline.merged = before ++ last :: (between ++ event :: back) := by
      rw [hsplit, List.append_assoc, List.cons_append]
    exact absurd (hstep.bar_le h hsplit' hin hlast hmarkCue hkind) (Nat.not_le_of_lt hcd)
  · rcases List.mem_cons.mp hin with rfl | hin
    · have hij := compile_holds_unique h (hmarkCue.holds h) (hlast.holds h)
      have hbefore := hstep.cue_before hlast hmarkCue hkind hcd
      omega
    · have := hbetween mark hin
      simp [hkind, EventKind.tempo?] at this

theorem tempo_eq_last (h : score.compile options = .ok timeline) (hshared : score.SharesTempos)
    (hstep : score.InStep timeline.initialTempo timeline.resolution.toNat)
    {before between back : List Event} {last : Event}
    (hsplit : timeline.merged = (before ++ last :: between) ++ event :: back)
    (hon : event.kind.isNoteOn) (hcue : score.CueOf timeline event i track b bar) {bpm : UInt32}
    (hlast : last.kind = .tempoChange bpm)
    (hbetween : ∀ later ∈ between, later.kind.tempo? = none) : bar.tempo = bpm := by
  have hmem : last ∈ before ++ last :: between := by simp
  obtain ⟨j, other, c, later, hlastCue, htempo⟩ :=
    exists_cueOf_of_change h (hsplit ▸ List.mem_append_left _ hmem) hlast
  have hcb := hstep.bar_le h hsplit hmem hcue hlastCue hlast
  have hlength : c < track.bars.length :=
    hcb.trans_lt (List.getElem?_eq_some_iff.mp hcue.bar_eq).1
  have hsame := hshared.eq hcue.track_eq hlastCue.track_eq (List.getElem?_eq_getElem hlength)
    hlastCue.bar_eq
  have hstays : track.tempoBefore timeline.initialTempo (b + 1) =
      track.tempoBefore timeline.initialTempo (c + 1) := by
    apply Track.tempoBefore_eq (Nat.succ_le_succ hcb)
    intro d hd
    by_contra hd'
    exact notMem_newTempos_of_last h hstep hsplit hon hcue hlastCue hbetween (by omega) (by omega)
      hd
  rw [Track.tempoBefore_succ_of_bar hcue.bar_eq,
    Track.tempoBefore_succ_of_bar (List.getElem?_eq_getElem hlength)] at hstays
  rw [hstays, hsame, htempo]

/-- If the tracks of an accepted score give the same tempos to their bars and are in step wherever
the tempo is new, then each note begins in the tempo of the one bar that it comes from, by the last
tempo change before it in all tracks together. -/
theorem compile_common_tempo (h : score.compile options = .ok timeline)
    (hshared : score.SharesTempos)
    (hstep : score.InStep options.initialTempo timeline.resolution.toNat) :
    ∀ front event back, timeline.merged = front ++ event :: back → event.kind.isNoteOn →
      ∃ i track b bar, score.CueOf timeline event i track b bar ∧
        (∀ j other c later, score.CueOf timeline event j other c later → j = i ∧ c = b) ∧
        tempoAfter timeline.initialTempo front = bar.tempo := by
  intro front event back hsplit hon
  rw [← (compile_eq_ok h).2.1] at hstep
  have hmem : event ∈ timeline.merged := by
    rw [hsplit]
    exact List.mem_append_right _ List.mem_cons_self
  obtain ⟨i, track, b, bar, hcue⟩ :=
    exists_cueOf h hmem (by rw [EventKind.isCue, hon, Bool.true_or])
  refine ⟨i, track, b, bar, hcue, fun j other c later hother => hother.unique h hcue hon, ?_⟩
  rcases exists_last_change timeline.initialTempo front with
    hnone | ⟨before, last, between, bpm, rfl, hlast, hbetween, htempo⟩
  · rw [tempoAfter_eq_self hnone, tempo_eq_initial h hsplit hon hcue hnone]
  · rw [htempo, tempo_eq_last h hshared hstep hsplit hon hcue hlast hbetween]

/-- A note at the tick where a later track takes its next tempo, and a bar that only one of the
tracks has. -/
theorem compile_common_tempo_tied :
    let lead : Track := .ofBars (.melodic 5) [
      .ofNotes 120 1 [.rest .sixteenth, .rest .eighth, ⟨some 60, .sixteenth⟩],
      .ofNotes 90 1 [⟨some 62, .quarter⟩]]
    let beat : Track := .ofBars .percussion [.ofNotes 120 1 [⟨some 38, .quarter⟩],
      .ofNotes 90 1 [⟨some 40, .quarter⟩], .ofNotes 100 1 [⟨some 42, .quarter⟩]]
    let score : Score := ⟨none, [lead, beat]⟩
    ∃ timeline, score.compile {} = .ok timeline ∧ score.SharesTempos ∧
      score.InStep 120 timeline.resolution.toNat ∧
      ∃ front back, timeline.merged = front ++ ⟨6, 0, .noteOn 60 60⟩ :: back ∧
        (⟨6, 9, .tempoChange 90⟩ ∈ back) ∧
        ∃ i track b bar, score.CueOf timeline ⟨6, 0, .noteOn 60 60⟩ i track b bar ∧
          tempoAfter 120 front = bar.tempo ∧ bar.tempo = 120 := by
  intro lead beat score
  let timeline : Timeline := ⟨1, 120, [
    ⟨0, none, 0, .melodic, [⟨1, 0, .programChange 5⟩, ⟨6, 0, .noteOn 60 60⟩, ⟨8, 0, .noteOff 60 60⟩,
      ⟨8, 0, .tempoChange 90⟩, ⟨8, 0, .noteOn 62 60⟩, ⟨16, 0, .noteOff 62 60⟩], 13⟩,
    ⟨1, none, 9, .percussion, [⟨1, 9, .noteOn 38 60⟩, ⟨6, 9, .tempoChange 90⟩,
      ⟨6, 9, .noteOn 40 60⟩, ⟨9, 9, .noteOff 38 60⟩, ⟨11, 9, .tempoChange 100⟩,
      ⟨11, 9, .noteOn 42 60⟩, ⟨14, 9, .noteOff 40 60⟩, ⟨19, 9, .noteOff 42 60⟩], 16⟩]⟩
  have hcompile : score.compile {} = .ok timeline := by
    decide +kernel
  have hsplit : timeline.merged = [⟨1, 0, .programChange 5⟩, ⟨1, 9, .noteOn 38 60⟩] ++
      ⟨6, 0, .noteOn 60 60⟩ :: [⟨6, 9, .tempoChange 90⟩, ⟨6, 9, .noteOn 40 60⟩,
        ⟨8, 0, .noteOff 60 60⟩, ⟨8, 0, .tempoChange 90⟩, ⟨8, 0, .noteOn 62 60⟩,
        ⟨9, 9, .noteOff 38 60⟩, ⟨11, 9, .tempoChange 100⟩, ⟨11, 9, .noteOn 42 60⟩,
        ⟨14, 9, .noteOff 40 60⟩, ⟨16, 0, .noteOff 62 60⟩, ⟨19, 9, .noteOff 42 60⟩] := by
    cbv
  have hshared : score.SharesTempos := by decide
  have hstep : score.InStep 120 1 := by decide
  obtain ⟨i, track, b, bar, hcue, -, htempo⟩ :=
    compile_common_tempo hcompile hshared hstep _ _ _ hsplit rfl
  exact ⟨timeline, hcompile, hshared, hstep, _, _, hsplit, by simp, i, track, b, bar, hcue, htempo,
    htempo.symm⟩

/-- A note that begins after another track has taken the tempo of the next bar. -/
theorem compile_tempo_overtaken :
    let quiet : Track := .ofBars .percussion [.ofNotes 120 1 [.rest .quarter],
      .ofNotes 90 1 [.rest .quarter]]
    let beat : Track := .ofBars .percussion [
      .ofNotes 120 1 [.rest .sixteenth, .rest .sixteenth, .rest .sixteenth, ⟨some 38, .sixteenth⟩],
      .ofNotes 90 1 [.rest .quarter]]
    let score : Score := ⟨none, [quiet, beat]⟩
    ∃ timeline, score.compile {} = .ok timeline ∧ score.SharesTempos ∧
      ∃ front event back, timeline.merged = front ++ event :: back ∧ event.kind.isNoteOn ∧
        (∃ i track b bar, score.CueOf timeline event i track b bar) ∧
        ∀ i track b bar, score.CueOf timeline event i track b bar →
          bar.tempo = 120 ∧ tempoAfter timeline.initialTempo front = 90 := by
  intro quiet beat score
  let timeline : Timeline := ⟨1, 120, [⟨0, none, 9, .percussion, [⟨6, 9, .tempoChange 90⟩], 11⟩,
    ⟨1, none, 10, .percussion, [⟨7, 10, .noteOn 38 60⟩, ⟨9, 10, .noteOff 38 60⟩,
      ⟨9, 10, .tempoChange 90⟩], 14⟩]⟩
  have hcompile : score.compile {} = .ok timeline := by
    decide +kernel
  have hsplit : timeline.merged = [⟨6, 9, .tempoChange 90⟩] ++ ⟨7, 10, .noteOn 38 60⟩ ::
      [⟨9, 10, .noteOff 38 60⟩, ⟨9, 10, .tempoChange 90⟩] := by
    cbv
  have hcue : score.CueOf timeline ⟨7, 10, .noteOn 38 60⟩ 1 beat 0 (.ofNotes 120 1
      [.rest .sixteenth, .rest .sixteenth, .rest .sixteenth, ⟨some 38, .sixteenth⟩]) :=
    ⟨rfl, rfl, _, rfl, by decide⟩
  refine ⟨timeline, hcompile, by decide, _, _, _, hsplit, rfl, ⟨_, _, _, _, hcue⟩, ?_⟩
  intro i track b bar hother
  obtain ⟨rfl, rfl⟩ := hother.unique hcompile hcue rfl
  cases hother.track_eq
  cases hother.bar_eq
  exact ⟨rfl, rfl⟩

end Score

end Sequencer
