import Mathlib.Tactic
import Sequencer.Timeline.Basic

/-! # Events in tick order

A list in tick order is determined by what it holds at each tick. This singles out the stable
sort, and with it the list that insertion leaves: the binary search finds the end of the
events up to a tick, as long as the list it searches is in order.
-/

namespace Sequencer

/-- Ticks never go back. -/
def InTickOrder (events : List Event) : Prop :=
  events.Pairwise fun a b => a.tick ≤ b.tick

instance (events : List Event) : Decidable (InTickOrder events) :=
  inferInstanceAs (Decidable (events.Pairwise _))

def atTick (tick : Nat) (events : List Event) : List Event :=
  events.filter fun e => e.tick = tick

@[simp] theorem atTick_nil (tick : Nat) : atTick tick [] = [] := rfl

@[simp] theorem atTick_append (tick : Nat) (xs ys : List Event) :
    atTick tick (xs ++ ys) = atTick tick xs ++ atTick tick ys := by
  simp [atTick]

theorem atTick_cons (tick : Nat) (e : Event) (events : List Event) :
    atTick tick (e :: events) = if e.tick = tick then e :: atTick tick events
      else atTick tick events := by
  by_cases h : e.tick = tick <;> simp [atTick, h]

theorem mem_atTick {tick : Nat} {e : Event} {events : List Event} :
    e ∈ atTick tick events ↔ e ∈ events ∧ e.tick = tick := by
  simp [atTick]

theorem atTick_eq_nil {tick : Nat} {events : List Event} (h : ∀ e ∈ events, e.tick ≠ tick) :
    atTick tick events = [] := by
  simpa [atTick] using h

theorem InTickOrder.tick_le {x e : Event} {xs : List Event} (h : InTickOrder (x :: xs))
    (he : e ∈ x :: xs) : x.tick ≤ e.tick := by
  rcases List.mem_cons.mp he with rfl | hmem
  · exact Nat.le_refl e.tick
  · exact (List.pairwise_cons.mp h).1 e hmem

theorem mem_of_atTick_eq {e : Event} {xs ys : List Event} (h : atTick e.tick xs = atTick e.tick ys)
    (he : e ∈ xs) : e ∈ ys := by
  have hat : e ∈ atTick e.tick xs := mem_atTick.mpr ⟨he, rfl⟩
  rw [h] at hat
  exact (mem_atTick.mp hat).1

theorem InTickOrder.head_eq {x y : Event} {xs ys : List Event} (hx : InTickOrder (x :: xs))
    (hy : InTickOrder (y :: ys)) (h : ∀ tick, atTick tick (x :: xs) = atTick tick (y :: ys)) :
    x = y := by
  have htick : x.tick = y.tick := Nat.le_antisymm
    (hx.tick_le (mem_of_atTick_eq (h y.tick).symm List.mem_cons_self))
    (hy.tick_le (mem_of_atTick_eq (h x.tick) List.mem_cons_self))
  have hfirst := h x.tick
  rw [atTick_cons, atTick_cons, if_pos rfl, if_pos htick.symm] at hfirst
  exact (List.cons.inj hfirst).1

theorem atTick_eq_of_cons {x : Event} {xs ys : List Event} {tick : Nat}
    (h : atTick tick (x :: xs) = atTick tick (x :: ys)) : atTick tick xs = atTick tick ys := by
  rw [atTick_cons, atTick_cons] at h
  split_ifs at h
  · exact (List.cons.inj h).2
  · exact h

/-- Two lists in tick order are equal if they hold the same events, in the same order, at
each tick. -/
theorem InTickOrder.ext {xs ys : List Event} (hx : InTickOrder xs) (hy : InTickOrder ys)
    (h : ∀ tick, atTick tick xs = atTick tick ys) : xs = ys := by
  induction xs generalizing ys with
  | nil =>
    cases ys with
    | nil => rfl
    | cons y ys => simpa [atTick_cons] using h y.tick
  | cons x xs ih =>
    cases ys with
    | nil => simpa [atTick_cons] using h x.tick
    | cons y ys =>
      obtain rfl := hx.head_eq hy h
      rw [ih (List.pairwise_cons.mp hx).2 (List.pairwise_cons.mp hy).2 fun tick =>
        atTick_eq_of_cons (h tick)]

/-- A list in tick order splits into the events up to a tick and those after it. -/
theorem InTickOrder.exists_split {events : List Event} (h : InTickOrder events) (tick : Nat) :
    ∃ front back, events = front ++ back ∧ (∀ e ∈ front, e.tick ≤ tick) ∧
      ∀ e ∈ back, tick < e.tick := by
  induction events with
  | nil => exact ⟨[], [], by simp⟩
  | cons e events ih =>
    rcases List.pairwise_cons.mp h with ⟨he, hrest⟩
    by_cases ht : e.tick ≤ tick
    · obtain ⟨front, back, rfl, hfront, hback⟩ := ih hrest
      exact ⟨e :: front, back, rfl, by simpa [ht] using hfront, hback⟩
    · refine ⟨[], e :: events, rfl, by simp, ?_⟩
      intro a ha
      rcases List.mem_cons.mp ha with rfl | ha
      · omega
      · have := he a ha
        omega

theorem InTickOrder.find?_le {events : List Event} (h : InTickOrder events) {p : Event → Bool}
    {found event : Event} (hfound : events.find? p = some found) (hevent : event ∈ events)
    (hp : p event) : found.tick ≤ event.tick := by
  obtain ⟨-, front, back, rfl, hfront⟩ := List.find?_eq_some_iff_append.mp hfound
  rcases List.mem_append.mp hevent with hmem | hmem
  · have := hfront event hmem
    simp [hp] at this
  · rcases List.mem_cons.mp hmem with rfl | hback
    · exact le_rfl
    · exact (List.pairwise_cons.mp (List.pairwise_append.mp h).2.1).1 event hback

theorem sortByTick_inTickOrder (events : List Event) : InTickOrder (sortByTick events) := by
  have h : (sortByTick events).Pairwise fun a b => decide (a.tick ≤ b.tick) :=
    List.pairwise_mergeSort (by intro a b c; simp only [decide_eq_true_eq]; omega)
      (by intro a b; simp only [Bool.or_eq_true, decide_eq_true_eq]; omega) events
  simpa only [InTickOrder, decide_eq_true_eq] using h

theorem sortByTick_perm (events : List Event) : (sortByTick events).Perm events :=
  List.mergeSort_perm _ _

@[simp] theorem mem_sortByTick {e : Event} {events : List Event} :
    e ∈ sortByTick events ↔ e ∈ events :=
  (sortByTick_perm events).mem_iff

/-- Sorting keeps the order among the events of a tick. -/
@[simp] theorem atTick_sortByTick (tick : Nat) (events : List Event) :
    atTick tick (sortByTick events) = atTick tick events := by
  have hordered : (atTick tick events).Pairwise fun a b => decide (a.tick ≤ b.tick) := by
    apply List.pairwise_of_forall_mem_list
    intro a ha b hb
    rw [(mem_atTick.mp ha).2, (mem_atTick.mp hb).2]
    simp
  have hsub : (atTick tick events).Sublist (sortByTick events) :=
    List.sublist_mergeSort
      (by intro a b c; simp only [decide_eq_true_eq]; omega)
      (by intro a b; simp only [Bool.or_eq_true, decide_eq_true_eq]; omega)
      hordered List.filter_sublist
  have hsub' : (atTick tick events).Sublist (atTick tick (sortByTick events)) := by
    simpa [atTick] using hsub.filter fun e => decide (e.tick = tick)
  exact (hsub'.eq_of_length ((sortByTick_perm events).filter _).length_eq.symm).symm

/-- The stable sort keeps what holds between events of one tick. -/
theorem pairwise_sortByTick {S : Event → Event → Prop} {events : List Event}
    (h : events.Pairwise fun a b => a.tick = b.tick → S a b) :
    (sortByTick events).Pairwise fun a b => a.tick = b.tick → S a b := by
  rw [List.pairwise_iff_forall_sublist] at h ⊢
  intro a b hab htick
  have hpair : atTick a.tick [a, b] = [a, b] := by
    simp [atTick, htick]
  have hsub : (atTick a.tick [a, b]).Sublist (atTick a.tick (sortByTick events)) := hab.filter _
  rw [hpair, atTick_sortByTick] at hsub
  exact h (hsub.trans List.filter_sublist) htick

/-- The stable sort is the only list in tick order with the given events at each tick. -/
theorem eq_sortByTick {xs ys : List Event} (hx : InTickOrder xs)
    (h : ∀ tick, atTick tick xs = atTick tick ys) : xs = sortByTick ys :=
  hx.ext (sortByTick_inTickOrder ys) fun tick => by rw [h, atTick_sortByTick]

theorem sortByTick_eq_self {events : List Event} (h : InTickOrder events) :
    sortByTick events = events :=
  (eq_sortByTick h fun _ => rfl).symm

/-- An event that no other precedes in time stays at the front. -/
theorem sortByTick_cons {event : Event} {events : List Event}
    (h : ∀ e ∈ events, event.tick ≤ e.tick) :
    sortByTick (event :: events) = event :: sortByTick events := by
  symm
  apply eq_sortByTick
  · exact List.pairwise_cons.mpr ⟨by simpa using h, sortByTick_inTickOrder events⟩
  · intro tick
    rw [atTick_cons, atTick_cons, atTick_sortByTick]

theorem sortByTick_append_left (xs ys : List Event) :
    sortByTick (sortByTick xs ++ ys) = sortByTick (xs ++ ys) :=
  eq_sortByTick (sortByTick_inTickOrder _) fun tick => by simp

/-- Leaving out events before sorting or after makes no difference. -/
theorem filter_sortByTick (p : Event → Bool) (events : List Event) :
    (sortByTick events).filter p = sortByTick (events.filter p) := by
  apply eq_sortByTick
  · exact (sortByTick_inTickOrder events).filter p
  · intro tick
    have hcomm : ∀ events : List Event, atTick tick (events.filter p) =
        (atTick tick events).filter p := fun _ => List.filter_comm _ _ _
    rw [hcomm, hcomm, atTick_sortByTick]

/-- The last event to arrive is sorted in behind the events up to its tick. -/
theorem exists_sortByTick_concat (events : List Event) (event : Event) :
    ∃ front back, sortByTick events = front ++ back ∧
      sortByTick (events ++ [event]) = front ++ event :: back ∧
      (∀ e ∈ front, e.tick ≤ event.tick) ∧ ∀ e ∈ back, event.tick < e.tick := by
  have hsorted := sortByTick_inTickOrder events
  obtain ⟨front, back, hsplit, hfront, hback⟩ := hsorted.exists_split event.tick
  refine ⟨front, back, hsplit, ?_, hfront, hback⟩
  rw [hsplit] at hsorted
  obtain ⟨hf, hb, hfb⟩ := List.pairwise_append.mp hsorted
  symm
  apply eq_sortByTick
  · have hlater : InTickOrder (event :: back) :=
      List.pairwise_cons.mpr ⟨fun e he => (hback e he).le, hb⟩
    refine List.pairwise_append.mpr ⟨hf, hlater, ?_⟩
    intro a ha e he
    rcases List.mem_cons.mp he with rfl | he
    · exact hfront a ha
    · exact hfb a ha e he
  · intro tick
    have hparts := atTick_sortByTick tick events
    rw [hsplit, atTick_append] at hparts
    rw [atTick_append, atTick_append, ← hparts, atTick_cons, atTick_cons]
    by_cases htick : event.tick = tick
    · have hnil : atTick tick back = [] := atTick_eq_nil fun e he => by
        have := hback e he
        omega
      simp [htick, hnil]
    · simp [htick]

/-- The search finds where a list stops satisfying `p`, if it does not satisfy it again. -/
theorem searchWindow_append {α : Type} (p : α → Bool) (front back : List α) (size : Nat)
    (hfront : ∀ a ∈ front, p a) (hback : ∀ a ∈ back, ¬ p a) (hsize : front.length ≤ size) :
    searchWindow p (front ++ back) size = front.length := by
  induction size using Nat.strong_induction_on generalizing front with
  | h size ih =>
    rw [searchWindow]
    by_cases hone : size ≤ 1
    · rw [if_pos hone]
      cases front with
      | nil =>
        cases back with
        | nil => rfl
        | cons b back => simp [hback b]
      | cons a front =>
        have : front = [] := by
          rw [← List.length_eq_zero_iff]
          simp only [List.length_cons] at hsize
          omega
        simp [this, hfront a]
    · rw [if_neg hone]
      by_cases hhalf : size / 2 < front.length
      · have hhead : ((front ++ back).drop (size / 2)).head?.any p = true := by
          rw [List.head?_drop, List.getElem?_append_left hhalf, List.getElem?_eq_getElem hhalf]
          exact hfront _ (List.getElem_mem hhalf)
        rw [if_pos hhead, List.drop_append_of_le_length hhalf.le,
          ih (size - size / 2) (by omega) (front.drop (size / 2))
            (fun a ha => hfront a (List.mem_of_mem_drop ha))
            (by rw [List.length_drop]; omega),
          List.length_drop]
        omega
      · have hhead : ¬ ((front ++ back).drop (size / 2)).head?.any p = true := by
          rw [List.head?_drop, List.getElem?_append_right (by omega)]
          cases hb : back[size / 2 - front.length]? with
          | none => simp
          | some b => simpa using hback b (List.mem_of_getElem? hb)
        rw [if_neg hhead]
        exact ih (size - size / 2) (by omega) front hfront (by omega)

theorem partitionPoint_append {α : Type} (p : α → Bool) (front back : List α)
    (hfront : ∀ a ∈ front, p a) (hback : ∀ a ∈ back, ¬ p a) :
    partitionPoint p (front ++ back) = front.length :=
  searchWindow_append p front back _ hfront hback (by simp)

namespace TrackEvents

/-- Insertion sorts one more event into a track in tick order. -/
theorem insert_events (track : TrackEvents) (tick : Nat) (kind : EventKind)
    (h : InTickOrder track.events) :
    (track.insert tick kind).events =
      sortByTick (track.events ++ [⟨tick, track.channel, kind⟩]) := by
  obtain ⟨front, back, hsplit, hsorted, hfront, hback⟩ :=
    exists_sortByTick_concat track.events ⟨tick, track.channel, kind⟩
  rw [sortByTick_eq_self h] at hsplit
  have hpoint : partitionPoint (fun e : Event => e.tick ≤ tick) (front ++ back) =
      front.length := by
    apply partitionPoint_append
    · simpa using hfront
    · simpa using hback
  rw [hsorted]
  simp only [insert, hsplit, hpoint, List.take_left, List.drop_left]

end TrackEvents
end Sequencer
