import Sequencer.Proofs.Timeline.Order

/-! # Balanced events

Events are balanced if no note ends more often than it has begun, at any place of the list, and
every note that begins ends. When each note-off arrives right after its note-on, at the same tick
or a later one, the stable sort of all arrivals is balanced, however the notes overlap.
-/

namespace Sequencer

namespace Event

def starts (channel pitch : UInt8) (event : Event) : Bool :=
  match event.kind with
  | .noteOn p _ => event.channel = channel ∧ p = pitch
  | _ => false

def ends (channel pitch : UInt8) (event : Event) : Bool :=
  match event.kind with
  | .noteOff p _ => event.channel = channel ∧ p = pitch
  | _ => false

end Event

/-- The pitch ends on the channel as often as it begins, and in no beginning of the list more
often. -/
structure Balanced (channel pitch : UInt8) (events : List Event) : Prop where
  ends_le : ∀ front, front <+: events →
    front.countP (Event.ends channel pitch) ≤ front.countP (Event.starts channel pitch)
  ends_eq : events.countP (Event.ends channel pitch) = events.countP (Event.starts channel pitch)

theorem prefix_append_cases {α : Type*} {front xs ys : List α} (h : front <+: xs ++ ys) :
    front <+: xs ∨ ∃ rest, rest <+: ys ∧ front = xs ++ rest := by
  rcases List.prefix_or_prefix_of_prefix h (List.prefix_append xs ys) with hx | ⟨rest, rfl⟩
  · exact .inl hx
  · exact .inr ⟨rest, (List.prefix_append_right_inj xs).mp h, rfl⟩

namespace Balanced

variable {channel pitch : UInt8} {xs ys zs : List Event}

theorem nil : Balanced channel pitch [] where
  ends_le front h := by rw [List.prefix_nil.mp h]; exact le_rfl
  ends_eq := rfl

/-- An event that neither starts nor ends the note can be added anywhere. -/
theorem insert {event : Event} (h : Balanced channel pitch (xs ++ ys))
    (hstarts : event.starts channel pitch = false) (hends : event.ends channel pitch = false) :
    Balanced channel pitch (xs ++ event :: ys) where
  ends_le front hfront := by
    rcases prefix_append_cases hfront with hx | ⟨rest, hrest, rfl⟩
    · exact h.ends_le front (hx.trans (List.prefix_append _ _))
    · rcases List.prefix_cons_iff.mp hrest with rfl | ⟨rest, rfl, hy⟩
      · simpa using h.ends_le xs (List.prefix_append _ _)
      · have := h.ends_le (xs ++ rest) ((List.prefix_append_right_inj xs).mpr hy)
        simpa [List.countP_cons, hstarts, hends] using this
  ends_eq := by simpa [List.countP_cons, hstarts, hends] using h.ends_eq

/-- A start can be added anywhere, together with an end anywhere behind it. -/
theorem insert_pair {on off : Event} (h : Balanced channel pitch (xs ++ (ys ++ zs)))
    (hon : on.ends channel pitch = false) (hoff : off.starts channel pitch = false)
    (hpair : on.starts channel pitch = off.ends channel pitch) :
    Balanced channel pitch (xs ++ on :: (ys ++ off :: zs)) where
  ends_le front hfront := by
    rcases prefix_append_cases hfront with hx | ⟨rest, hrest, rfl⟩
    · exact h.ends_le front (hx.trans (List.prefix_append _ _))
    rcases List.prefix_cons_iff.mp hrest with rfl | ⟨rest, rfl, hbehind⟩
    · simpa using h.ends_le xs (List.prefix_append _ _)
    rcases prefix_append_cases hbehind with hy | ⟨rest, hz, rfl⟩
    · have := h.ends_le (xs ++ rest)
        ((List.prefix_append_right_inj xs).mpr (hy.trans (List.prefix_append _ _)))
      simp only [List.countP_append, List.countP_cons, hon] at this ⊢
      simp only [Bool.false_eq_true, if_false]
      omega
    rcases List.prefix_cons_iff.mp hz with rfl | ⟨rest, rfl, hbeyond⟩
    · have := h.ends_le (xs ++ ys)
        ((List.prefix_append_right_inj xs).mpr (List.prefix_append _ _))
      simp only [List.append_nil, List.countP_append, List.countP_cons, hon] at this ⊢
      simp only [Bool.false_eq_true, if_false]
      omega
    · have := h.ends_le (xs ++ (ys ++ rest)) ((List.prefix_append_right_inj xs).mpr
        ((List.prefix_append_right_inj ys).mpr hbeyond))
      simp only [List.countP_append, List.countP_cons, hon, hoff, hpair] at this ⊢
      simp only [Bool.false_eq_true, if_false]
      omega
  ends_eq := by
    have := h.ends_eq
    simp only [List.countP_append, List.countP_cons, hon, hoff, hpair] at this ⊢
    simp only [Bool.false_eq_true, if_false]
    omega

end Balanced

/-- Arrivals in which a note-on is followed by the note-off of its note, not before it in time. -/
inductive Paired : List Event → Prop where
  | nil : Paired []
  | other {events : List Event} {event : Event} (hkind : event.kind.pitch? = none)
      (h : Paired events) : Paired (events ++ [event])
  | note {events : List Event} {start stop : Nat} {channel pitch on off : UInt8}
      (hle : start ≤ stop) (h : Paired events) :
      Paired (events ++ [⟨start, channel, .noteOn pitch on⟩, ⟨stop, channel, .noteOff pitch off⟩])

theorem Paired.append {xs ys : List Event} (hx : Paired xs) (hy : Paired ys) :
    Paired (xs ++ ys) := by
  induction hy with
  | nil => rwa [List.append_nil]
  | other hkind _ ih => rw [← List.append_assoc]; exact .other hkind ih
  | note hle _ ih => rw [← List.append_assoc]; exact .note hle ih

/-- A start and its end are sorted into two places, the end behind the start. -/
theorem exists_sortByTick_pair (events : List Event) {on off : Event} (hle : on.tick ≤ off.tick) :
    ∃ xs ys zs, sortByTick events = xs ++ (ys ++ zs) ∧
      sortByTick (events ++ [on, off]) = xs ++ on :: (ys ++ off :: zs) := by
  obtain ⟨xs, back, hevents, hon, -, hback⟩ := exists_sortByTick_concat events on
  obtain ⟨front, zs, hsplit, hoff, -, hzs⟩ := exists_sortByTick_concat (events ++ [on]) off
  rw [List.append_assoc, List.singleton_append] at hoff
  rw [hon] at hsplit
  have hnot : on ∉ zs := fun hmem => absurd (hzs on hmem) (not_lt.mpr hle)
  rcases List.append_eq_append_iff.mp hsplit with ⟨rest, rfl, hrest⟩ | ⟨rest, rfl, hrest⟩
  · rcases List.cons_eq_append_iff.mp hrest with ⟨-, hzs⟩ | ⟨ys, rfl, rfl⟩
    · exact absurd (hzs ▸ List.mem_cons_self) hnot
    · refine ⟨xs, ys, zs, hevents, ?_⟩
      rw [hoff, List.append_assoc]
      rfl
  · exact absurd (hrest ▸ List.mem_append_right rest List.mem_cons_self) hnot

theorem Paired.balanced {events : List Event} (h : Paired events) (channel pitch : UInt8) :
    Balanced channel pitch (sortByTick events) := by
  induction h with
  | nil => rw [sortByTick_eq_self List.Pairwise.nil]; exact Balanced.nil
  | @other events event hkind _ ih =>
    obtain ⟨front, back, hsplit, hsorted, -, -⟩ := exists_sortByTick_concat events event
    rw [hsorted]
    rw [hsplit] at ih
    apply ih.insert
    · cases hevent : event.kind <;> simp_all [Event.starts, EventKind.pitch?]
    · cases hevent : event.kind <;> simp_all [Event.ends, EventKind.pitch?]
  | @note events start stop owner p on off hle _ ih =>
    obtain ⟨xs, ys, zs, hsplit, hsorted⟩ := exists_sortByTick_pair events
      (show (Event.mk start owner (.noteOn p on)).tick ≤
        (Event.mk stop owner (.noteOff p off)).tick from hle)
    rw [hsorted]
    rw [hsplit] at ih
    exact ih.insert_pair rfl rfl rfl

/-- A list with the same events at each tick as arrivals in pairs. -/
def Playable (events : List Event) : Prop :=
  ∃ arrivals, Paired arrivals ∧ ∀ tick, atTick tick events = atTick tick arrivals

theorem Paired.playable {events : List Event} (h : Paired events) :
    Playable (sortByTick events) :=
  ⟨events, h, fun tick => atTick_sortByTick tick events⟩

theorem Playable.append {xs ys : List Event} (hx : Playable xs) (hy : Playable ys) :
    Playable (xs ++ ys) := by
  obtain ⟨arrivals, hpaired, harrivals⟩ := hx
  obtain ⟨others, hothers, hsame⟩ := hy
  refine ⟨arrivals ++ others, hpaired.append hothers, fun tick => ?_⟩
  rw [atTick_append, atTick_append, harrivals, hsame]

theorem Playable.flatMap {α : Type*} {f : α → List Event} {xs : List α}
    (h : ∀ a ∈ xs, Playable (f a)) : Playable (xs.flatMap f) := by
  induction xs with
  | nil => exact ⟨[], .nil, fun _ => rfl⟩
  | cons a xs ih =>
    rcases List.forall_mem_cons.mp h with ⟨ha, hxs⟩
    exact ha.append (ih hxs)

theorem Playable.balanced {events : List Event} (h : Playable events) (channel pitch : UInt8) :
    Balanced channel pitch (sortByTick events) := by
  obtain ⟨arrivals, hpaired, hsame⟩ := h
  have hsorted : sortByTick events = sortByTick arrivals :=
    eq_sortByTick (sortByTick_inTickOrder events) fun tick => by rw [atTick_sortByTick, hsame]
  rw [hsorted]
  exact hpaired.balanced channel pitch

end Sequencer
