import Sequencer.Proofs.Compile.Strikes

/-! # Tempos

A new tempo is marked at the first tick of a bar, where the first note of the bar may begin as
well, and where note-offs of earlier bars may still come. All the same the marks and the note-ons
of a track stand in its events bar by bar, so that each note begins in the tempo of its bar.
-/

namespace Sequencer

namespace EventKind

def tempo? : EventKind → Option UInt32
  | tempoChange bpm => some bpm
  | _ => none

/-- A note-on or a tempo change. -/
def isCue (kind : EventKind) : Bool :=
  kind.isNoteOn || kind.tempo?.isSome

theorem tempo?_of_isNoteOn {kind : EventKind} (h : kind.isNoteOn = true) : kind.tempo? = none := by
  cases kind <;> simp_all [isNoteOn, tempo?]

end EventKind

/-- The tempo in force after events: that of the last change among them. -/
def tempoAfter (initial : UInt32) (events : List Event) : UInt32 :=
  ((events.filterMap fun event => event.kind.tempo?).getLast?).getD initial

theorem tempoAfter_append (initial : UInt32) (xs ys : List Event) :
    tempoAfter initial (xs ++ ys) = tempoAfter (tempoAfter initial xs) ys := by
  rw [tempoAfter, List.filterMap_append, List.getLast?_append, tempoAfter, tempoAfter]
  cases (ys.filterMap fun event => event.kind.tempo?).getLast? <;> rfl

theorem tempoAfter_eq_self {initial : UInt32} {events : List Event}
    (h : ∀ event ∈ events, event.kind.tempo? = none) : tempoAfter initial events = initial := by
  rw [tempoAfter, List.filterMap_eq_nil_iff.mpr h]
  rfl

theorem tempoAfter_filter_isCue (initial : UInt32) (events : List Event) :
    tempoAfter initial (events.filter fun event => event.kind.isCue) =
      tempoAfter initial events := by
  rw [tempoAfter, tempoAfter, List.filterMap_filter]
  congr 3
  funext event
  cases event.kind <;> rfl

namespace Track

def noteOns (track : Track) (global : Nat) (channel : UInt8) (bar : Bar) (b : Nat) : List Event :=
  (track.barStrikes global bar b).map fun strike => strike.noteOn.event channel

/-- The mark of a bar's tempo, if it is new, and the note-ons of the bar. -/
def cues (track : Track) (initial : UInt32) (global : Nat) (channel : UInt8) :
    Bar × Nat → List Event
  | (bar, b) => (track.tempoMark initial global bar b).map (Emission.event channel) ++
      track.noteOns global channel bar b

end Track

/-- The tempos of a track's events are those of its bars. -/
structure TempoOfBars (track : Track) (initial : UInt32) (global : Nat) (events : TrackEvents) :
    Prop where
  /-- Tempo changes and note-ons stand bar by bar. -/
  filter_isCue : (events.events.filter fun event => event.kind.isCue) =
    track.bars.zipIdx.flatMap (track.cues initial global events.channel)
  /-- A note begins in the tempo of the one bar that it comes from. -/
  tempo_of_note : ∀ front event back, events.events = front ++ event :: back →
    event.kind.isNoteOn → ∃ (b : Nat) (bar : Bar), track.bars[b]? = some bar ∧
      event ∈ track.noteOns global events.channel bar b ∧
      (∀ (c : Nat) (other : Bar), track.bars[c]? = some other →
        event ∈ track.noteOns global events.channel other c → c = b) ∧
      tempoAfter initial front = bar.tempo
  /-- A tempo change is a change. -/
  change_ne : ∀ front event back bpm, events.events = front ++ event :: back →
    event.kind = .tempoChange bpm → bpm ≠ tempoAfter initial front
  /-- There is one for each bar with another tempo than the bar before. -/
  count_changes : (events.events.countP fun event => event.kind.tempo?.isSome) =
    track.bars.zipIdx.countP fun (bar, b) => bar.tempo ≠ track.tempoBefore initial b
  /-- It comes after the note-ons of earlier bars and before those of its own and later ones. -/
  change_between : ∀ front event back bpm, events.events = front ++ event :: back →
    event.kind = .tempoChange bpm → ∃ (b : Nat) (bar : Bar), track.bars[b]? = some bar ∧
      bar.tempo = bpm ∧ event.tick = track.barStart global b ∧
      ∀ (c : Nat) (other : Bar), track.bars[c]? = some other →
        ∀ noteOn ∈ track.noteOns global events.channel other c,
          (noteOn ∈ front ↔ c < b) ∧ (noteOn ∈ back ↔ b ≤ c)

theorem exists_of_flatMap_eq_append_cons {α β : Type*} {f : α → List β} {xs : List α}
    {front back : List β} {b : β} (h : xs.flatMap f = front ++ b :: back) :
    ∃ before a after p q, xs = before ++ a :: after ∧ f a = p ++ b :: q ∧
      front = before.flatMap f ++ p ∧ back = q ++ after.flatMap f := by
  induction xs generalizing front with
  | nil => cases (List.nil_eq_append_iff.mp h).2
  | cons a xs ih =>
    rw [List.flatMap_cons] at h
    rcases List.append_eq_append_iff.mp h with ⟨rest, rfl, hrest⟩ | ⟨rest, ha, hrest⟩
    · obtain ⟨before, c, after, p, q, rfl, hc, rfl, hback⟩ := ih hrest
      exact ⟨a :: before, c, after, p, q, rfl, hc, by rw [List.flatMap_cons, List.append_assoc],
        hback⟩
    · rcases List.cons_eq_append_iff.mp hrest with ⟨rfl, hxs⟩ | ⟨q, rfl, hback⟩
      · obtain ⟨before, c, after, p, q, rfl, hc, hp, hback⟩ := @ih [] hxs
        rw [List.append_nil] at ha
        exact ⟨a :: before, c, after, p, q, rfl, hc, by
          rw [List.flatMap_cons, List.append_assoc, ← hp, List.append_nil, ha], hback⟩
      · exact ⟨[], a, xs, front, q, rfl, ha, rfl, hback⟩

namespace Track

variable {track : Track} {initial : UInt32} {global : Nat} {channel : UInt8}

theorem mem_noteOns {bar : Bar} {b : Nat} {event : Event} :
    event ∈ track.noteOns global channel bar b ↔
      ∃ strike ∈ track.barStrikes global bar b, strike.noteOn.event channel = event :=
  List.mem_map

theorem isNoteOn_of_mem_noteOns {bar : Bar} {b : Nat} {event : Event}
    (h : event ∈ track.noteOns global channel bar b) : event.kind.isNoteOn = true := by
  obtain ⟨strike, -, rfl⟩ := mem_noteOns.mp h
  rfl

theorem mem_mark {bar : Bar} {b : Nat} {event : Event} :
    event ∈ (track.tempoMark initial global bar b).map (Emission.event channel) ↔
      bar.tempo ≠ track.tempoBefore initial b ∧
        event = ⟨track.barStart global b, channel, .tempoChange bar.tempo⟩ := by
  simp only [List.mem_map, mem_tempoMark]
  constructor
  · rintro ⟨emission, ⟨hne, rfl⟩, rfl⟩
    exact ⟨hne, rfl⟩
  · rintro ⟨hne, rfl⟩
    exact ⟨_, ⟨hne, rfl⟩, rfl⟩

theorem filter_isCue_schedule (track : Track) (options : Options) (global : Nat)
    (channel : UInt8) :
    (((track.schedule options global).map (Emission.event channel)).filter
      fun event => event.kind.isCue) =
        track.bars.zipIdx.flatMap (track.cues options.initialTempo global channel) := by
  have hprogram : ((track.instrument.emissions.map (Emission.event channel)).filter
      fun event => event.kind.isCue) = [] := by
    cases track.instrument <;> rfl
  have hmark : ∀ bar b, (((track.tempoMark options.initialTempo global bar b).map
      (Emission.event channel)).filter fun event => event.kind.isCue) =
        (track.tempoMark options.initialTempo global bar b).map (Emission.event channel) := by
    intro bar b
    apply List.filter_eq_self.mpr
    intro event hevent
    rw [(mem_mark.mp hevent).2]
    rfl
  rw [filter_schedule track options global channel EventKind.isCue, hprogram, List.nil_append]
  apply List.flatMap_congr
  rintro ⟨bar, b⟩ -
  rw [cues, noteOns, List.map_eq_flatMap (l := track.barStrikes global bar b), ← hmark]
  rfl

end Track

namespace Track

variable {track : Track} {initial : UInt32} {global : UInt32} {channel : UInt8}

theorem cues_bounds {bar : Bar} {b : Nat} {event : Event} (hbar : track.bars[b]? = some bar)
    (hfit : bar.Fitting global) (h : event ∈ track.cues initial global.toNat channel (bar, b)) :
    track.barStart global.toNat b ≤ event.tick ∧
      event.tick ≤ track.barStart global.toNat (b + 1) := by
  rcases List.mem_append.mp h with hmark | hnote
  · rw [(mem_mark.mp hmark).2]
    exact ⟨le_rfl, track.barStart_mono global.toNat (Nat.le_succ b)⟩
  · obtain ⟨strike, hstrike, rfl⟩ := mem_noteOns.mp hnote
    exact ⟨barStart_le_start hstrike,
      (Nat.le_add_right _ _).trans (end_lt_barStart_succ hbar hfit hstrike).le⟩

theorem cues_inTickOrder (hfit : ∀ bar ∈ track.bars, bar.Fitting global) :
    InTickOrder (track.bars.zipIdx.flatMap (track.cues initial global.toNat channel)) := by
  apply track.pairwise_flatMap_bars global.toNat Event.tick
  · intro b bar _
    rw [cues, List.pairwise_append]
    refine ⟨?_, ?_, ?_⟩
    · rw [tempoMark]
      split_ifs
      · exact List.Pairwise.nil
      · exact List.pairwise_singleton _ _
    · exact List.pairwise_map.mpr ((barStrikes_pairwise track global.toNat b bar).imp
        fun h => (Nat.le_add_right _ _).trans h.le)
    · intro mark hmark event hevent
      obtain ⟨strike, hstrike, rfl⟩ := mem_noteOns.mp hevent
      rw [(mem_mark.mp hmark).2]
      exact barStart_le_start hstrike
  · intro b bar hbar event hevent
    exact cues_bounds hbar (hfit bar (List.mem_of_getElem? hbar)) hevent

theorem eq_of_mem_noteOns (hfit : ∀ bar ∈ track.bars, bar.Fitting global) {b c : Nat}
    {bar other : Bar} (hb : track.bars[b]? = some bar) (hc : track.bars[c]? = some other)
    {event : Event} (h : event ∈ track.noteOns global.toNat channel bar b)
    (h' : event ∈ track.noteOns global.toNat channel other c) : b = c := by
  obtain ⟨s, hs, rfl⟩ := mem_noteOns.mp h
  obtain ⟨t, ht, heq⟩ := mem_noteOns.mp h'
  exact eq_of_mem_barStrikes hfit hb hc hs ht (congrArg Event.tick heq).symm

end Track

/-- The numbers of items tell which of them come before another, and which behind. -/
theorem mem_of_zipIdx_eq_append_cons {α : Type*} {xs : List α} {before after : List (α × Nat)}
    {a c : α} {i j : Nat} (h : xs.zipIdx = before ++ (a, i) :: after) (hj : xs[j]? = some c) :
    ((c, j) ∈ before ↔ j < i) ∧ ((c, j) ∈ after ↔ i < j) := by
  have hpairwise := zipIdx_pairwise xs
  have hmem : (c, j) ∈ xs.zipIdx := List.mem_zipIdx_iff_getElem?.mpr hj
  rw [h] at hpairwise hmem
  obtain ⟨-, hbehind, hbefore⟩ := List.pairwise_append.mp hpairwise
  have hlow : (c, j) ∈ before → j < i := fun hm => hbefore (c, j) hm (a, i) List.mem_cons_self
  have hhigh : (c, j) ∈ after → i < j := (List.pairwise_cons.mp hbehind).1 (c, j)
  have hequal : (c, j) = (a, i) → j = i := congrArg Prod.snd
  rw [List.mem_append, List.mem_cons] at hmem
  constructor
  · refine ⟨hlow, fun hlt => hmem.resolve_right ?_⟩
    rintro (heq | hm)
    · exact absurd (hequal heq) hlt.ne
    · exact absurd (hhigh hm) hlt.not_gt
  · refine ⟨hhigh, fun hlt => (hmem.resolve_left ?_).resolve_left ?_⟩
    · exact fun hm => absurd (hlow hm) hlt.not_gt
    · exact fun heq => absurd (hequal heq) hlt.ne'

theorem zipIdx_eq_append_cons {α : Type*} {xs : List α} {before after : List (α × Nat)} {a : α}
    {i : Nat} (h : xs.zipIdx = before ++ (a, i) :: after) :
    before = xs.zipIdx.take i ∧ xs[i]? = some a := by
  have hat : xs.zipIdx[before.length]? = some (a, i) := by
    rw [h, List.getElem?_append_right le_rfl, Nat.sub_self]
    rfl
  rw [List.getElem?_zipIdx, Option.map_eq_some_iff] at hat
  obtain ⟨_, hget, hpair⟩ := hat
  cases hpair
  rw [Nat.zero_add]
  exact ⟨by rw [h, List.take_left], hget⟩

namespace Track

variable {track : Track} {initial : UInt32} {global : Nat} {channel : UInt8}

/-- The mark of a bar puts its tempo into force. -/
theorem tempoAfter_mark (bar : Bar) (b : Nat) :
    tempoAfter (track.tempoBefore initial b)
      ((track.tempoMark initial global bar b).map (Emission.event channel)) = bar.tempo := by
  by_cases h : bar.tempo = track.tempoBefore initial b
  · rw [tempoMark, if_pos h, h]
    rfl
  · rw [tempoMark, if_neg h]
    rfl

theorem tempoAfter_mark_append {bar : Bar} {b : Nat} {events : List Event}
    (h : ∀ event ∈ events, event.kind.isNoteOn) :
    tempoAfter (track.tempoBefore initial b)
      ((track.tempoMark initial global bar b).map (Emission.event channel) ++ events) =
        bar.tempo := by
  rw [tempoAfter_append, tempoAfter_mark]
  exact tempoAfter_eq_self fun event hevent => EventKind.tempo?_of_isNoteOn (h event hevent)

theorem tempoBefore_succ (track : Track) (initial : UInt32) (b : Nat) :
    track.tempoBefore initial (b + 1) =
      (track.bars[b]?.map Bar.tempo).getD (track.tempoBefore initial b) := by
  rw [tempoBefore, List.take_add_one, List.getLast?_append]
  cases track.bars[b]? <;> rfl

/-- After the cues of some bars the tempo of the last of them is in force. -/
theorem tempoAfter_cues (track : Track) (initial : UInt32) (global : Nat) (channel : UInt8)
    (b : Nat) : tempoAfter initial
      ((track.bars.zipIdx.take b).flatMap (track.cues initial global channel)) =
        track.tempoBefore initial b := by
  induction b with
  | zero => rfl
  | succ b ih =>
    rw [List.take_add_one, List.flatMap_append, tempoAfter_append, ih, List.getElem?_zipIdx,
      tempoBefore_succ, Nat.zero_add]
    cases track.bars[b]? with
    | none => rfl
    | some bar =>
      rw [Option.map_some, Option.toList_some, List.flatMap_singleton]
      exact tempoAfter_mark_append fun event hevent => isNoteOn_of_mem_noteOns hevent

variable {events front back : List Event} {event : Event}

/-- A cue comes from some bar; what stands before and behind it are the cues before and behind it
in that bar, and those of the bars before and behind. -/
theorem exists_bar_of_cue (hcues : (events.filter fun event => event.kind.isCue) =
      track.bars.zipIdx.flatMap (track.cues initial global channel))
    (hsplit : events = front ++ event :: back) (hcue : event.kind.isCue) :
    ∃ before bar b after p q, track.bars.zipIdx = before ++ (bar, b) :: after ∧
      track.cues initial global channel (bar, b) = p ++ event :: q ∧
      (front.filter fun event => event.kind.isCue) =
        before.flatMap (track.cues initial global channel) ++ p ∧
      (back.filter fun event => event.kind.isCue) =
        q ++ after.flatMap (track.cues initial global channel) := by
  rw [hsplit, List.filter_append, List.filter_cons_of_pos (p := fun e : Event => e.kind.isCue)
    hcue] at hcues
  obtain ⟨before, ⟨bar, b⟩, after, p, q, hbars, hbar, hfront, hback⟩ :=
    exists_of_flatMap_eq_append_cons hcues.symm
  exact ⟨before, bar, b, after, p, q, hbars, hbar, hfront, hback⟩

theorem cues_eq_append_noteOn {bar : Bar} {b : Nat} {p q : List Event}
    (h : track.cues initial global channel (bar, b) = p ++ event :: q)
    (hon : event.kind.isNoteOn) :
    event ∈ track.noteOns global channel bar b ∧
      tempoAfter (track.tempoBefore initial b) p = bar.tempo := by
  have hmark : event ∉ (track.tempoMark initial global bar b).map (Emission.event channel) := by
    intro hmem
    rw [(mem_mark.mp hmem).2] at hon
    cases hon
  rcases List.append_eq_append_iff.mp h with ⟨earlier, rfl, hnotes⟩ | ⟨rest, hrest, hnotes⟩
  · have hmem : ∀ e ∈ earlier ++ event :: q, e ∈ track.noteOns global channel bar b :=
      fun e he => hnotes ▸ he
    have hearlier : ∀ e ∈ earlier, e.kind.isNoteOn :=
      fun e he => isNoteOn_of_mem_noteOns (hmem e (List.mem_append_left _ he))
    exact ⟨hmem event (List.mem_append_right _ List.mem_cons_self), tempoAfter_mark_append hearlier⟩
  · rcases List.cons_eq_append_iff.mp hnotes with ⟨rfl, hnotes⟩ | ⟨rest, rfl, -⟩
    · rw [List.append_nil] at hrest
      rw [List.nil_append] at hnotes
      rw [← hrest, tempoAfter_mark]
      exact ⟨hnotes ▸ List.mem_cons_self, rfl⟩
    · exact absurd (hrest ▸ List.mem_append_right _ List.mem_cons_self) hmark

/-- Before the mark of its bar nothing stands in the bar, and behind it all its note-ons. -/
theorem cues_eq_append_mark {bar : Bar} {b : Nat} {p q : List Event} {bpm : UInt32}
    (h : track.cues initial global channel (bar, b) = p ++ event :: q)
    (hbpm : event.kind = .tempoChange bpm) :
    bar.tempo ≠ track.tempoBefore initial b ∧
      event = ⟨track.barStart global b, channel, .tempoChange bar.tempo⟩ ∧
      p = [] ∧ q = track.noteOns global channel bar b := by
  have hnotes : event ∉ track.noteOns global channel bar b := by
    intro hmem
    have hon := isNoteOn_of_mem_noteOns hmem
    rw [hbpm] at hon
    cases hon
  rw [cues, tempoMark] at h
  split_ifs at h with htempo
  · rw [List.map_nil, List.nil_append] at h
    exact absurd (h ▸ List.mem_append_right p List.mem_cons_self) hnotes
  · rw [List.map_singleton, List.singleton_append] at h
    rcases List.cons_eq_append_iff.mp h with ⟨rfl, hq⟩ | ⟨rest, -, hrest⟩
    · cases hq
      exact ⟨htempo, rfl, rfl, rfl⟩
    · exact absurd (hrest ▸ List.mem_append_right rest List.mem_cons_self) hnotes

theorem mem_flatMap_cues {global : UInt32} (hfit : ∀ bar ∈ track.bars, bar.Fitting global)
    {part : List (Bar × Nat)} (hpart : part ⊆ track.bars.zipIdx) {c : Nat} {bar : Bar}
    (hc : track.bars[c]? = some bar) (h : event ∈ track.noteOns global.toNat channel bar c) :
    event ∈ part.flatMap (track.cues initial global.toNat channel) ↔ (bar, c) ∈ part := by
  rw [List.mem_flatMap]
  constructor
  · rintro ⟨⟨other, b⟩, hmem, hcue⟩
    have hb := List.mem_zipIdx_iff_getElem?.mp (hpart hmem)
    rcases List.mem_append.mp hcue with hmark | hnote
    · have hon := isNoteOn_of_mem_noteOns h
      rw [(mem_mark.mp hmark).2] at hon
      cases hon
    · cases eq_of_mem_noteOns hfit hb hc hnote h
      cases hb.symm.trans hc
      exact hmem
  · intro hmem
    exact ⟨(bar, c), hmem, List.mem_append_right _ h⟩

end Track

theorem countP_flatMap_eq {α β : Type*} {f : α → List β} {p : β → Bool} {q : α → Bool}
    (h : ∀ a, (f a).countP p = if q a then 1 else 0) (xs : List α) :
    (xs.flatMap f).countP p = xs.countP q := by
  induction xs with
  | nil => rfl
  | cons a xs ih => rw [List.flatMap_cons, List.countP_append, ih, h, List.countP_cons, add_comm]

theorem Track.countP_cues (track : Track) (initial : UInt32) (global : Nat) (channel : UInt8) :
    (track.bars.zipIdx.flatMap (track.cues initial global channel)).countP
        (fun event => event.kind.tempo?.isSome) =
      track.bars.zipIdx.countP fun (bar, b) => bar.tempo ≠ track.tempoBefore initial b := by
  apply countP_flatMap_eq
  rintro ⟨bar, b⟩
  have hnotes : (track.noteOns global channel bar b).countP
      (fun event => event.kind.tempo?.isSome) = 0 := by
    apply List.countP_eq_zero.mpr
    intro event hevent
    rw [EventKind.tempo?_of_isNoteOn (isNoteOn_of_mem_noteOns hevent)]
    exact Bool.false_ne_true
  rw [cues, List.countP_append, hnotes, add_zero, tempoMark]
  by_cases htempo : bar.tempo = track.tempoBefore initial b <;>
    simp [htempo, EventKind.tempo?, Emission.event]

section Cues

variable {track : Track} {initial global : UInt32} {events : TrackEvents}
  (hcues : (events.events.filter fun event => event.kind.isCue) =
    track.bars.zipIdx.flatMap (track.cues initial global.toNat events.channel))

include hcues

theorem tempo_of_note_of_cues (hfit : ∀ bar ∈ track.bars, bar.Fitting global)
    {front back : List Event} {event : Event} (hsplit : events.events = front ++ event :: back)
    (hon : event.kind.isNoteOn) :
    ∃ (b : Nat) (bar : Bar), track.bars[b]? = some bar ∧
      event ∈ track.noteOns global.toNat events.channel bar b ∧
      (∀ (c : Nat) (other : Bar), track.bars[c]? = some other →
        event ∈ track.noteOns global.toNat events.channel other c → c = b) ∧
      tempoAfter initial front = bar.tempo := by
  obtain ⟨before, bar, b, after, p, q, hbars, hbar, hfront, -⟩ :=
    Track.exists_bar_of_cue hcues hsplit (by rw [EventKind.isCue, hon, Bool.true_or])
  obtain ⟨hbefore, hb⟩ := zipIdx_eq_append_cons hbars
  obtain ⟨hnote, htempo⟩ := Track.cues_eq_append_noteOn hbar hon
  refine ⟨b, bar, hb, hnote, fun c other hc hother => ?_, ?_⟩
  · exact Track.eq_of_mem_noteOns hfit hc hb hother hnote
  · rw [← tempoAfter_filter_isCue, hfront, tempoAfter_append, hbefore, Track.tempoAfter_cues,
      htempo]

theorem change_ne_of_cues {front back : List Event} {event : Event} {bpm : UInt32}
    (hsplit : events.events = front ++ event :: back) (hbpm : event.kind = .tempoChange bpm) :
    bpm ≠ tempoAfter initial front := by
  obtain ⟨before, bar, b, after, p, q, hbars, hbar, hfront, -⟩ :=
    Track.exists_bar_of_cue hcues hsplit (by rw [EventKind.isCue, hbpm]; rfl)
  obtain ⟨hne, rfl, rfl, -⟩ := Track.cues_eq_append_mark hbar hbpm
  cases hbpm
  rwa [← tempoAfter_filter_isCue, hfront, List.append_nil, (zipIdx_eq_append_cons hbars).1,
    Track.tempoAfter_cues]

theorem count_changes_of_cues :
    (events.events.countP fun event => event.kind.tempo?.isSome) =
      track.bars.zipIdx.countP fun (bar, b) => bar.tempo ≠ track.tempoBefore initial b := by
  rw [← Track.countP_cues, ← hcues, List.countP_filter]
  apply List.countP_congr
  intro event _
  cases event.kind <;> simp [EventKind.isCue, EventKind.tempo?]

theorem change_between_of_cues (hfit : ∀ bar ∈ track.bars, bar.Fitting global)
    {front back : List Event} {event : Event} {bpm : UInt32}
    (hsplit : events.events = front ++ event :: back) (hbpm : event.kind = .tempoChange bpm) :
    ∃ (b : Nat) (bar : Bar), track.bars[b]? = some bar ∧ bar.tempo = bpm ∧
      event.tick = track.barStart global.toNat b ∧
      ∀ (c : Nat) (other : Bar), track.bars[c]? = some other →
        ∀ noteOn ∈ track.noteOns global.toNat events.channel other c,
          (noteOn ∈ front ↔ c < b) ∧ (noteOn ∈ back ↔ b ≤ c) := by
  obtain ⟨before, bar, b, after, p, q, hbars, hbar, hfront, hback⟩ :=
    Track.exists_bar_of_cue hcues hsplit (by rw [EventKind.isCue, hbpm]; rfl)
  obtain ⟨-, rfl, rfl, rfl⟩ := Track.cues_eq_append_mark hbar hbpm
  have hb := (zipIdx_eq_append_cons hbars).2
  cases hbpm
  refine ⟨b, bar, hb, rfl, rfl, fun c other hc noteOn hnote => ?_⟩
  have hcue : noteOn.kind.isCue = true := by
    rw [EventKind.isCue, Track.isNoteOn_of_mem_noteOns hnote, Bool.true_or]
  have hfilter : ∀ part : List Event,
      noteOn ∈ part ↔ noteOn ∈ part.filter fun event => event.kind.isCue := fun part => by
    rw [List.mem_filter, and_iff_left hcue]
  have hown : noteOn ∈ track.noteOns global.toNat events.channel bar b ↔ c = b := by
    constructor
    · exact fun hown => (Track.eq_of_mem_noteOns hfit hb hc hown hnote).symm
    · rintro rfl
      cases hb.symm.trans hc
      exact hnote
  obtain ⟨hbefore, hafter⟩ := mem_of_zipIdx_eq_append_cons hbars hc
  have hparts : before ⊆ track.bars.zipIdx ∧ after ⊆ track.bars.zipIdx := by
    rw [hbars]
    exact ⟨List.subset_append_left _ _, fun x hx => List.mem_append_right _ (.tail _ hx)⟩
  constructor
  · rw [hfilter, hfront, List.append_nil, Track.mem_flatMap_cues hfit hparts.1 hc hnote, hbefore]
  · rw [hfilter, hback, List.mem_append, hown, Track.mem_flatMap_cues hfit hparts.2 hc hnote,
      hafter]
    omega

/-- All that is said of the tempos of a track follows from the order of its cues. -/
theorem TempoOfBars.of_filter_isCue (hfit : ∀ bar ∈ track.bars, bar.Fitting global) :
    TempoOfBars track initial global.toNat events where
  filter_isCue := hcues
  tempo_of_note _ _ _ hsplit hon := tempo_of_note_of_cues hcues hfit hsplit hon
  change_ne _ _ _ _ hsplit hbpm := change_ne_of_cues hcues hsplit hbpm
  count_changes := count_changes_of_cues hcues
  change_between _ _ _ _ hsplit hbpm := change_between_of_cues hcues hfit hsplit hbpm

end Cues

/-- Every note of an accepted score begins in the tempo of its bar, by the tempo changes of its
own track; these are as few as can be, and lie between the notes of the bars that they part. -/
theorem Score.compile_tempo_of_bars {score : Score} {options : Options} {timeline : Timeline}
    (h : score.compile options = .ok timeline) :
    timeline.tracks.length = score.tracks.length ∧
      ∀ (i : Nat) (track : Track), score.tracks[i]? = some track → ∃ events : TrackEvents,
        timeline.tracks[i]? = some events ∧
        TempoOfBars track options.initialTempo timeline.resolution.toNat events := by
  refine ⟨compile_length h, fun i track htrack => ?_⟩
  obtain ⟨hfit, channel, -, hresult⟩ := compile_schedule h htrack
  refine ⟨_, hresult, TempoOfBars.of_filter_isCue ?_ hfit⟩
  rw [filter_sortByTick, Track.filter_isCue_schedule]
  exact sortByTick_eq_self (Track.cues_inTickOrder hfit)

/-- A bar without notes, a tempo that is taken up again, and a new tempo at a tick where a note
ends and another begins. -/
theorem Score.compile_tempo_of_bars_alternating :
    let track : Track := .ofBars (.melodic 5) [
      .ofNotes 120 1 [.rest .dottedEighth, ⟨some 60, .sixteenth⟩],
      .ofNotes 90 1 [⟨some 62, .quarter⟩], .ofNotes 90 1 [.rest .quarter],
      .ofNotes 120 1 [⟨some 64, .quarter⟩]]
    ∃ timeline, Score.compile ⟨none, [track]⟩ {} = .ok timeline ∧
      ∃ events : TrackEvents, timeline.tracks[0]? = some events ∧ TempoOfBars track 120 1 events ∧
        events.events = [⟨1, 0, .programChange 5⟩, ⟨5, 0, .noteOn 60 60⟩, ⟨7, 0, .noteOff 60 60⟩,
          ⟨7, 0, .tempoChange 90⟩, ⟨7, 0, .noteOn 62 60⟩, ⟨15, 0, .noteOff 62 60⟩,
          ⟨17, 0, .tempoChange 120⟩, ⟨17, 0, .noteOn 64 60⟩, ⟨25, 0, .noteOff 64 60⟩] := by
  intro track
  have hcompile : Score.compile ⟨none, [track]⟩ {} = .ok ⟨1, 120, [
      ⟨0, none, 0, .melodic, [⟨1, 0, .programChange 5⟩, ⟨5, 0, .noteOn 60 60⟩,
        ⟨7, 0, .noteOff 60 60⟩, ⟨7, 0, .tempoChange 90⟩, ⟨7, 0, .noteOn 62 60⟩,
        ⟨15, 0, .noteOff 62 60⟩, ⟨17, 0, .tempoChange 120⟩, ⟨17, 0, .noteOn 64 60⟩,
        ⟨25, 0, .noteOff 64 60⟩], 22⟩]⟩ := by
    decide +kernel
  obtain ⟨-, htracks⟩ := Score.compile_tempo_of_bars hcompile
  obtain ⟨events, hevents, htempo⟩ := htracks 0 track rfl
  cases hevents
  exact ⟨_, hcompile, _, rfl, htempo, rfl⟩

end Sequencer
