import Sequencer.Proofs.Compile.Strikes

/-! # Tracks by themselves

A compiled track is made of its own notes. All that it shows of the other tracks is which
resolutions occur, by the global one, and how many tracks of its class come before it, by its
channel. So the other tracks can be moved and replaced without any effect on a track as long as
these two stay the same.
-/

namespace Sequencer

section Rank

variable {α : Type*} {p : α → Bool} {xs : List α} {x : α}

/-- An item that satisfies a test keeps its rank when all others are left out. -/
theorem getElem?_filter_countP_take {i : Nat} (hx : xs[i]? = some x) (hp : p x) :
    (xs.filter p)[(xs.take i).countP p]? = some x := by
  induction xs generalizing i with
  | nil => simp at hx
  | cons y ys ih =>
    cases i with
    | zero =>
      simp only [List.getElem?_cons_zero, Option.some.injEq] at hx
      simp [hx, hp]
    | succ i =>
      have hrest := ih (by simpa using hx)
      by_cases hy : p y <;> simp [hy, hrest]

theorem exists_getElem?_of_filter {r : Nat} (hx : (xs.filter p)[r]? = some x) :
    ∃ i, xs[i]? = some x ∧ (xs.take i).countP p = r := by
  induction xs generalizing r with
  | nil => simp at hx
  | cons y ys ih =>
    by_cases hy : p y
    · cases r with
      | zero => exact ⟨0, by simpa [hy] using hx, rfl⟩
      | succ r =>
        obtain ⟨i, hi, hrank⟩ := ih (by simpa [hy] using hx)
        exact ⟨i + 1, by simpa using hi, by simp [hy, hrank]⟩
    · obtain ⟨i, hi, hrank⟩ := ih (by simpa [hy] using hx)
      exact ⟨i + 1, by simpa using hi, by simp [hy, hrank]⟩

end Rank

namespace Score

variable {score other : Score} {options : Options} {first second : Timeline}

def tracksOfKind (score : Score) (kind : InstrumentClass) : List Track :=
  score.tracks.filter fun track => track.instrument.kind = kind

/-- The same tracks in another order, which is the same within each class. -/
def Rearranged (score other : Score) : Prop :=
  ∀ kind, score.tracksOfKind kind = other.tracksOfKind kind

theorem Rearranged.symm (h : score.Rearranged other) : other.Rearranged score :=
  fun kind => (h kind).symm

/-- Every track finds itself again, behind as many tracks of its class as before. -/
theorem Rearranged.exists_place (h : score.Rearranged other) {i : Nat} {track : Track}
    (htrack : score.tracks[i]? = some track) :
    ∃ j : Nat, other.tracks[j]? = some track ∧
      countOfKind track.instrument.kind (other.tracks.take j) =
        countOfKind track.instrument.kind (score.tracks.take i) := by
  apply exists_getElem?_of_filter
  have hrank := getElem?_filter_countP_take
    (p := fun other : Track => other.instrument.kind = track.instrument.kind) htrack (by simp)
  rw [← tracksOfKind, h] at hrank
  exact hrank

theorem Rearranged.subset (h : score.Rearranged other) : score.tracks ⊆ other.tracks := by
  intro track hmem
  obtain ⟨i, hi⟩ := List.mem_iff_getElem?.mp hmem
  obtain ⟨j, hj, -⟩ := h.exists_place hi
  exact List.mem_of_getElem? hj

theorem Rearranged.mem_resolutions_iff (h : score.Rearranged other) (n : UInt32) :
    n ∈ score.resolutions ↔ n ∈ other.resolutions := by
  simp only [resolutions, List.mem_flatMap]
  constructor
  · rintro ⟨track, htrack, hn⟩
    exact ⟨track, h.subset htrack, hn⟩
  · rintro ⟨track, htrack, hn⟩
    exact ⟨track, h.symm.subset htrack, hn⟩

theorem Rearranged.exists_timeline (h : score.Rearranged other)
    (hfirst : score.compile options = .ok first) (hbegin : other.checkNotEmpty = .ok ()) :
    ∃ second, other.compile options = .ok second := by
  obtain ⟨-, htempo, hzero, hproduct, htracks⟩ := exists_timeline_iff.mp ⟨first, hfirst⟩
  have hresolution : other.globalResolution = .ok first.resolution :=
    globalResolution_congr h.mem_resolutions_iff (compile_eq_ok hfirst).1
  obtain ⟨hzero, hproduct⟩ := globalResolution_eq_ok hresolution
  apply exists_timeline_iff.mpr
  refine ⟨hbegin, htempo, hzero, hproduct ▸ first.resolution.toNat_lt, ?_⟩
  intro j track htrack
  obtain ⟨i, hi, hrank⟩ := h.symm.exists_place htrack
  rw [← hrank]
  exact htracks i track hi

/-- Two tracks of any two scores with the same resolution compile alike, but for their numbers, if
they are equal and of the same rank in their classes. -/
theorem compile_track_congr (hfirst : score.compile options = .ok first)
    (hsecond : other.compile options = .ok second)
    (hglobal : score.globalResolution = other.globalResolution) {i j : Nat} {track : Track}
    (hi : score.tracks[i]? = some track) (hj : other.tracks[j]? = some track)
    (hrank : countOfKind track.instrument.kind (score.tracks.take i) =
      countOfKind track.instrument.kind (other.tracks.take j)) :
    ∃ events : TrackEvents, first.tracks[i]? = some events ∧
      second.tracks[j]? = some { events with index := j } := by
  obtain ⟨-, channel, hchannel, hevents⟩ := compile_schedule hfirst hi
  obtain ⟨-, channel', hchannel', hevents'⟩ := compile_schedule hsecond hj
  have hresolution : Except.ok first.resolution = .ok second.resolution :=
    (compile_eq_ok hfirst).1.symm.trans (hglobal.trans (compile_eq_ok hsecond).1)
  rw [hrank] at hchannel
  cases hchannel.symm.trans hchannel'
  exact ⟨_, hevents, by rw [hevents', Except.ok.inj hresolution]⟩

/-- The tracks may differ, but not in their classes, nor in which resolutions occur. -/
structure SameFrame (score other : Score) : Prop where
  kinds_eq : score.tracks.map (fun track => track.instrument.kind) =
    other.tracks.map fun track => track.instrument.kind
  mem_resolutions_iff : ∀ n, n ∈ score.resolutions ↔ n ∈ other.resolutions

theorem SameFrame.countOfKind_eq (h : score.SameFrame other) (kind : InstrumentClass) (i : Nat) :
    countOfKind kind (score.tracks.take i) = countOfKind kind (other.tracks.take i) := by
  have hkinds := congrArg (fun kinds => (kinds.take i).countP (· = kind)) h.kinds_eq
  simpa [countOfKind, ← List.map_take, List.countP_map, Function.comp_def] using hkinds

/-- Nothing gets from one track into another but the global resolution and the rank within the
class. -/
structure Isolated (score : Score) (options : Options) (first : Timeline) : Prop where
  by_rank : ∀ (other : Score) (second : Timeline), other.compile options = .ok second →
    score.globalResolution = other.globalResolution →
    ∀ (i j : Nat) (track : Track), score.tracks[i]? = some track →
      other.tracks[j]? = some track →
      countOfKind track.instrument.kind (score.tracks.take i) =
        countOfKind track.instrument.kind (other.tracks.take j) →
      ∃ events : TrackEvents, first.tracks[i]? = some events ∧
        second.tracks[j]? = some { events with index := j }
  /-- A track compiles alike, but for its number, when the tracks are rearranged. -/
  rearranged : ∀ other : Score, score.Rearranged other → other.checkNotEmpty = .ok () →
    ∃ second, other.compile options = .ok second ∧
      ∀ (i : Nat) (track : Track), score.tracks[i]? = some track →
        ∃ (j : Nat) (events : TrackEvents), other.tracks[j]? = some track ∧
          first.tracks[i]? = some events ∧
          second.tracks[j]? = some { events with index := j }
  /-- It compiles to the same when other tracks are replaced by tracks of their classes and no
  resolution is added or lost. -/
  others_replaced : ∀ (other : Score) (second : Timeline), other.compile options = .ok second →
    score.SameFrame other →
    ∀ (i : Nat) (track : Track), score.tracks[i]? = some track →
      other.tracks[i]? = some track → ∃ events : TrackEvents,
        first.tracks[i]? = some events ∧ second.tracks[i]? = some events

theorem compile_isolated (hfirst : score.compile options = .ok first) :
    score.Isolated options first := by
  have hresolution := (compile_eq_ok hfirst).1
  constructor
  case by_rank =>
    exact fun other second hsecond hglobal i j track => compile_track_congr hfirst hsecond hglobal
  case rearranged =>
    intro other h hbegin
    obtain ⟨second, hsecond⟩ := h.exists_timeline hfirst hbegin
    have hother := globalResolution_congr h.mem_resolutions_iff hresolution
    refine ⟨second, hsecond, fun i track hi => ?_⟩
    obtain ⟨j, hj, hrank⟩ := h.exists_place hi
    obtain ⟨events, hevents, hsame⟩ :=
      compile_track_congr hfirst hsecond (hresolution.trans hother.symm) hi hj hrank.symm
    exact ⟨j, events, hj, hevents, hsame⟩
  case others_replaced =>
    intro other second hsecond h i track hi hj
    have hother := globalResolution_congr h.mem_resolutions_iff hresolution
    obtain ⟨events, hevents, hsame⟩ := compile_track_congr hfirst hsecond
      (hresolution.trans hother.symm) hi hj (h.countOfKind_eq _ i)
    obtain ⟨-, channel, -, hown⟩ := compile_schedule hfirst hi
    cases hevents.symm.trans hown
    exact ⟨_, hevents, hsame⟩

/-- A second melodic track between percussion tracks that it does not have in the other score, and
the first score with its percussion moved to the front. -/
theorem compile_isolated_moved :
    let lead : Track := ⟨some "lead", .melodic 5, [.ofNotes 120 1 [⟨some 60, .quarter⟩]]⟩
    let beat : Track := .ofBars .percussion [.ofNotes 120 2 [.rest .quarter, ⟨some 38, .quarter⟩]]
    let bass : Track := ⟨some "bass", .melodic 33, [
      .ofNotes 120 1 [⟨some 36, .dottedEighth⟩, .rest .sixteenth],
      .ofNotes 90 2 [⟨some 40, .half⟩]]⟩
    let score : Score := ⟨none, [lead, beat, bass]⟩
    let other : Score := ⟨none, [.ofBars .percussion [.ofNotes 60 2 [.rest .half]], beat,
      .ofBars (.melodic 0) [.ofNotes 200 1 [.rest .eighth, ⟨some 72, .eighth⟩]], bass]⟩
    ∃ first second moved : Timeline, score.compile {} = .ok first ∧ other.compile {} = .ok second ∧
      Score.compile ⟨none, [beat, lead, bass]⟩ {} = .ok moved ∧
      (∃ events : TrackEvents, first.tracks[2]? = some events ∧
        second.tracks[3]? = some { events with index := 3 } ∧ events.channel = 1 ∧
        events.events = [⟨1, 1, .programChange 33⟩, ⟨1, 1, .noteOn 36 60⟩,
          ⟨11, 1, .tempoChange 90⟩, ⟨11, 1, .noteOn 40 60⟩, ⟨13, 1, .noteOff 36 60⟩,
          ⟨27, 1, .noteOff 40 60⟩]) ∧
      ∃ (j : Nat) (events : TrackEvents), [beat, lead, bass][j]? = some beat ∧
        first.tracks[1]? = some events ∧ moved.tracks[j]? = some { events with index := j } := by
  intro lead beat bass score other
  have hfirst : score.compile {} = .ok ⟨2, 120, [
      ⟨0, some "lead", 0, .melodic, [⟨1, 0, .programChange 5⟩, ⟨1, 0, .noteOn 60 60⟩,
        ⟨17, 0, .noteOff 60 60⟩], 10⟩,
      ⟨1, none, 9, .percussion, [⟨6, 9, .noteOn 38 60⟩, ⟨14, 9, .noteOff 38 60⟩], 11⟩,
      ⟨2, some "bass", 1, .melodic, [⟨1, 1, .programChange 33⟩, ⟨1, 1, .noteOn 36 60⟩,
        ⟨11, 1, .tempoChange 90⟩, ⟨11, 1, .noteOn 40 60⟩, ⟨13, 1, .noteOff 36 60⟩,
        ⟨27, 1, .noteOff 40 60⟩], 20⟩]⟩ := by
    decide +kernel
  have haccepted : ∃ second, other.compile {} = .ok second := by
    apply accepted_eq_ok_iff.mp
    decide +kernel
  obtain ⟨second, hsecond⟩ := haccepted
  have h := compile_isolated hfirst
  obtain ⟨events, hevents, hsame⟩ := h.by_rank other second hsecond (by decide) 2 3 bass rfl rfl rfl
  obtain ⟨moved, hmoved, htracks⟩ := h.rearranged ⟨none, [beat, lead, bass]⟩
    (by intro kind; cases kind <;> rfl) rfl
  cases hevents
  exact ⟨_, second, moved, hfirst, hsecond, hmoved, ⟨_, rfl, hsame, rfl, rfl⟩, htracks 1 beat rfl⟩

end Score
end Sequencer
