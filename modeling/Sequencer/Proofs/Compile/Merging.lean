import Mathlib.Data.List.Fold
import Sequencer.Proofs.Compile.Guarantees

/-! # Tracks merged

Insertion keeps a track in order and on its channel. When no two tracks share a channel, nothing
of them is lost by merging: the events of each can be told by their channel and are still in
their order, and the last event of all is the last of some track.
-/

namespace Sequencer

/-- All events of the track have been inserted, one after another. -/
def TrackEvents.Filled (track : TrackEvents) : Prop :=
  ∃ emissions : List Emission, track.events =
    ((TrackEvents.empty track.index track.name track.channel track.kind).insertAll emissions).events

/-- Insertion can make any list of events in order on the track's channel, and no other. -/
theorem TrackEvents.filled_iff {track : TrackEvents} :
    track.Filled ↔
      InTickOrder track.events ∧ ∀ event ∈ track.events, event.channel = track.channel := by
  have hinsert : ∀ emissions : List Emission, ((TrackEvents.empty track.index track.name
      track.channel track.kind).insertAll emissions).events =
        sortByTick (emissions.map (Emission.event track.channel)) :=
    fun emissions => TrackEvents.insertAll_events _ emissions List.Pairwise.nil
  constructor
  · rintro ⟨emissions, heq⟩
    rw [heq, hinsert]
    refine ⟨sortByTick_inTickOrder _, fun event hevent => ?_⟩
    obtain ⟨emission, -, rfl⟩ := List.mem_map.mp (mem_sortByTick.mp hevent)
    rfl
  · rintro ⟨hordered, hchannel⟩
    refine ⟨track.events.map fun event => ⟨event.tick, event.kind⟩, ?_⟩
    have hsame : (track.events.map fun event => Emission.event track.channel
        ⟨event.tick, event.kind⟩) = track.events := by
      refine (List.map_congr_left fun event hevent => ?_).trans (List.map_id _)
      rw [← hchannel event hevent]
      rfl
    rw [hinsert, List.map_map]
    exact ((congrArg sortByTick hsame).trans (sortByTick_eq_self hordered)).symm

def greatestTick (events : List Event) : Nat :=
  (events.map Event.tick).foldr max 0

theorem greatestTick_append (xs ys : List Event) :
    greatestTick (xs ++ ys) = max (greatestTick xs) (greatestTick ys) := by
  induction xs with
  | nil => exact (Nat.zero_max _).symm
  | cons event xs ih =>
    show max event.tick (greatestTick (xs ++ ys)) = max (max event.tick (greatestTick xs)) _
    rw [ih, max_assoc]

theorem greatestTick_perm {xs ys : List Event} (h : xs.Perm ys) :
    greatestTick xs = greatestTick ys :=
  (h.map Event.tick).foldr_eq 0

theorem InTickOrder.getLast?_tick {events : List Event} (h : InTickOrder events) :
    (events.getLast?.map Event.tick).getD 0 = greatestTick events := by
  rcases List.eq_nil_or_concat' events with rfl | ⟨front, last, rfl⟩
  · rfl
  · have hbefore : greatestTick front ≤ last.tick := by
      apply List.max_le_of_forall_le
      intro tick htick
      obtain ⟨event, hevent, rfl⟩ := List.mem_map.mp htick
      exact (List.pairwise_append.mp h).2.2 event hevent last List.mem_cons_self
    rw [greatestTick_append, List.getLast?_append]
    simpa [greatestTick] using hbefore

namespace Timeline

theorem lastTick_eq {timeline : Timeline}
    (h : ∀ track ∈ timeline.tracks, InTickOrder track.events) :
    timeline.lastTick = greatestTick (timeline.tracks.flatMap TrackEvents.events) := by
  rw [lastTick, List.foldl_eq_foldr]
  generalize timeline.tracks = tracks at h ⊢
  induction tracks with
  | nil => rfl
  | cons track rest ih =>
    rcases List.forall_mem_cons.mp h with ⟨htrack, hrest⟩
    have hlast := htrack.getLast?_tick
    rw [List.flatMap_cons, greatestTick_append, ← ih hrest, ← hlast, List.filterMap_cons,
      TrackEvents.lastTick?]
    cases track.events.getLast? with
    | none => exact (Nat.zero_max _).symm
    | some last => rfl

theorem eventCount_eq (timeline : Timeline) :
    timeline.eventCount = (timeline.tracks.flatMap TrackEvents.events).length := by
  rw [eventCount]
  induction timeline.tracks with
  | nil => rfl
  | cons track rest ih => rw [List.foldr_cons, ih, List.flatMap_cons, List.length_append]

end Timeline

theorem filter_channel_flatMap {tracks : List TrackEvents}
    (hown : ∀ track ∈ tracks, ∀ event ∈ track.events, event.channel = track.channel)
    (hnodup : (tracks.map TrackEvents.channel).Nodup) {track : TrackEvents} (h : track ∈ tracks) :
    ((tracks.flatMap TrackEvents.events).filter fun event => event.channel = track.channel) =
      track.events := by
  induction tracks with
  | nil => cases h
  | cons first rest ih =>
    rcases List.forall_mem_cons.mp hown with ⟨hfirst, hrest⟩
    rw [List.map_cons, List.nodup_cons] at hnodup
    rw [List.flatMap_cons, List.filter_append]
    rcases List.mem_cons.mp h with rfl | hlater
    · have hothers : ((rest.flatMap TrackEvents.events).filter fun event =>
          event.channel = track.channel) = [] := by
        apply List.filter_eq_nil_iff.mpr
        intro event hevent heq
        obtain ⟨other, hother, hmem⟩ := List.mem_flatMap.mp hevent
        rw [decide_eq_true_eq, hrest other hother event hmem] at heq
        exact hnodup.1 (heq ▸ List.mem_map_of_mem hother)
      rw [hothers, List.append_nil]
      exact List.filter_eq_self.mpr fun event hevent => decide_eq_true (hfirst event hevent)
    · have hnone : (first.events.filter fun event => event.channel = track.channel) = [] := by
        apply List.filter_eq_nil_iff.mpr
        intro event hevent heq
        rw [decide_eq_true_eq, hfirst event hevent] at heq
        exact hnodup.1 (heq ▸ List.mem_map_of_mem hlater)
      rw [hnone, List.nil_append]
      exact ih hrest hnodup.2 hlater

/-- A merged timeline has all events of the tracks in order of the ticks, those of one tick in order
of the tracks. Each track can be told by its channel, and the last event comes at the last tick. -/
structure Timeline.MergedInOrder (timeline : Timeline) : Prop where
  in_order : InTickOrder timeline.merged
  perm : timeline.merged.Perm (timeline.tracks.flatMap TrackEvents.events)
  length_eq : timeline.merged.length = timeline.eventCount
  atTick_eq : ∀ tick, atTick tick timeline.merged =
    timeline.tracks.flatMap fun track => atTick tick track.events
  channel_eq : ∀ track ∈ timeline.tracks,
    (timeline.merged.filter fun event => event.channel = track.channel) = track.events
  last_tick : (timeline.merged.getLast?.map Event.tick).getD 0 = timeline.lastTick

/-- Accepted scores, and all other timelines that have a channel for each track, lose nothing when
their tracks are merged. -/
theorem Timeline.merged_keeps_tracks {timeline : Timeline}
    (h : (∃ (score : Score) (options : Options), score.compile options = .ok timeline) ∨
      (∀ track ∈ timeline.tracks, track.Filled) ∧
        (timeline.tracks.map TrackEvents.channel).Nodup) :
    timeline.MergedInOrder := by
  have hfilled : (∀ track ∈ timeline.tracks, track.Filled) ∧
      (timeline.tracks.map TrackEvents.channel).Nodup := by
    rcases h with ⟨score, options, hcompile⟩ | hfilled
    · refine ⟨fun track htrack => ?_, (Score.compile_channels hcompile).2⟩
      have hdependable := Score.compile_track_dependable hcompile htrack
      exact TrackEvents.filled_iff.mpr ⟨hdependable.in_order, hdependable.own_channel⟩
    · exact hfilled
  obtain ⟨htracks, hnodup⟩ := hfilled
  have hordered : ∀ track ∈ timeline.tracks, InTickOrder track.events :=
    fun track htrack => (TrackEvents.filled_iff.mp (htracks track htrack)).1
  have hown : ∀ track ∈ timeline.tracks, ∀ event ∈ track.events, event.channel = track.channel :=
    fun track htrack => (TrackEvents.filled_iff.mp (htracks track htrack)).2
  have hperm : timeline.merged.Perm (timeline.tracks.flatMap TrackEvents.events) :=
    sortByTick_perm _
  have hmerged : InTickOrder timeline.merged := sortByTick_inTickOrder _
  constructor
  case in_order => exact hmerged
  case perm => exact hperm
  case length_eq => rw [hperm.length_eq, eventCount_eq]
  case atTick_eq =>
    intro tick
    rw [merged, atTick_sortByTick, atTick, List.filter_flatMap]
    rfl
  case channel_eq =>
    intro track htrack
    rw [merged, filter_sortByTick, filter_channel_flatMap hown hnodup htrack]
    exact sortByTick_eq_self (hordered track htrack)
  case last_tick => rw [hmerged.getLast?_tick, greatestTick_perm hperm, lastTick_eq hordered]

/-- A silent track between two whose events meet at ticks 2 and 5. -/
theorem Timeline.merged_keeps_tracks_tied :
    let beat := (TrackEvents.empty 0 none 9 .percussion).insertAll
      [⟨5, .noteOff 38 60⟩, ⟨2, .noteOn 38 60⟩]
    let silent := TrackEvents.empty 1 none 4 .melodic
    let lead := (TrackEvents.empty 2 none 3 .melodic).insertAll
      [⟨5, .noteOff 60 60⟩, ⟨2, .noteOn 60 60⟩, ⟨9, .noteOff 62 60⟩, ⟨5, .noteOn 62 60⟩]
    let timeline : Timeline := ⟨4, 120, [beat, silent, lead]⟩
    ((∀ track ∈ timeline.tracks, track.Filled) ∧
        (timeline.tracks.map TrackEvents.channel).Nodup) ∧
      timeline.merged = [⟨2, 9, .noteOn 38 60⟩, ⟨2, 3, .noteOn 60 60⟩, ⟨5, 9, .noteOff 38 60⟩,
        ⟨5, 3, .noteOff 60 60⟩, ⟨5, 3, .noteOn 62 60⟩, ⟨9, 3, .noteOff 62 60⟩] ∧
      (timeline.merged.filter fun event => event.channel = 3) = lead.events ∧
      timeline.eventCount = 6 ∧ timeline.lastTick = 9 := by
  intro beat silent lead timeline
  have hfilled : (∀ track ∈ timeline.tracks, track.Filled) ∧
      (timeline.tracks.map TrackEvents.channel).Nodup := by
    refine ⟨?_, by decide⟩
    intro track htrack
    rcases List.mem_cons.mp htrack with rfl | htrack
    · exact ⟨_, rfl⟩
    rcases List.mem_cons.mp htrack with rfl | htrack
    · exact ⟨[], rfl⟩
    · rw [List.mem_singleton.mp htrack]
      exact ⟨_, rfl⟩
  have hmerged : timeline.merged = [⟨2, 9, .noteOn 38 60⟩, ⟨2, 3, .noteOn 60 60⟩,
      ⟨5, 9, .noteOff 38 60⟩, ⟨5, 3, .noteOff 60 60⟩, ⟨5, 3, .noteOn 62 60⟩,
      ⟨9, 3, .noteOff 62 60⟩] := by
    cbv
  have h := Timeline.merged_keeps_tracks (.inr hfilled)
  have hlead := h.channel_eq lead (.tail _ (.tail _ (.head _)))
  have hlength := h.length_eq
  have hlast := h.last_tick
  rw [hmerged] at hlength hlast hlead ⊢
  exact ⟨hfilled, rfl, hlead, hlength.symm, hlast.symm⟩

end Sequencer
