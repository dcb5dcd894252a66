import Sequencer.Proofs.Compile.Monophony

/-! # How long notes sound

A note sounds until the first note-off of its pitch behind its note-on, whichever note that belongs
to. Doubled notes reach into the notes behind them, so it may be that of another: of a note struck
before whose end is still to come, or of a shorter one struck since. It is never later than its own.
-/

namespace Sequencer

def EventKind.ends (pitch : UInt8) : EventKind → Bool
  | noteOff ended _ => ended = pitch
  | _ => false

/-- The note stands in the events, and the first note-off of its pitch behind its note-on comes at
the tick. -/
def TrackEvents.SoundsUntil (events : TrackEvents) (strike : Strike) (tick : Nat) : Prop :=
  strike.noteOn.event events.channel ∈ events.events ∧
    ∀ front back, events.events = front ++ strike.noteOn.event events.channel :: back →
      (back.find? fun event => event.kind.ends strike.pitch).map Event.tick = some tick

/-- The first tick behind the start of a strike where one of its pitch stops. -/
structure Strike.FirstStop (placement : NoteOff) (strikes : List Strike) (strike : Strike)
    (tick : Nat) : Prop where
  start_lt : strike.start < tick
  exists_stop : ∃ other ∈ strikes, other.pitch = strike.pitch ∧ other.stop placement = tick
  le_stop : ∀ other ∈ strikes, other.pitch = strike.pitch → strike.start < other.stop placement →
    tick ≤ other.stop placement

/-- The other strike does not cut this one off: it has another pitch, or it does not stop while this
one sounds. -/
def Strike.SparedBy (placement : NoteOff) (strike other : Strike) : Prop :=
  other.pitch = strike.pitch →
    other.stop placement ≤ strike.start ∨ strike.stop placement ≤ other.stop placement

theorem EventKind.ends_eq_true_iff {pitch : UInt8} {kind : EventKind} :
    kind.ends pitch = true ↔ kind.isNoteOff ∧ kind.pitch? = some pitch := by
  cases kind <;> simp [ends, isNoteOff, pitch?]

theorem TrackEvents.SoundsUntil.unique {events : TrackEvents} {strike : Strike} {t u : Nat}
    (ht : events.SoundsUntil strike t) (hu : events.SoundsUntil strike u) : t = u := by
  obtain ⟨front, back, hsplit⟩ := List.append_of_mem ht.1
  have heq := (ht.2 front back hsplit).symm.trans (hu.2 front back hsplit)
  simpa using heq

namespace Strike.FirstStop

variable {placement : NoteOff} {strikes : List Strike} {strike : Strike} {tick : Nat}

theorem unique {other : Nat} (h : FirstStop placement strikes strike tick)
    (hother : FirstStop placement strikes strike other) : tick = other := by
  apply le_antisymm
  · obtain ⟨last, hmem, hpitch, rfl⟩ := hother.exists_stop
    exact h.le_stop last hmem hpitch hother.start_lt
  · obtain ⟨last, hmem, hpitch, rfl⟩ := h.exists_stop
    exact hother.le_stop last hmem hpitch h.start_lt

theorem le_own_stop (h : FirstStop placement strikes strike tick) (hmem : strike ∈ strikes)
    (hlength : strike.start < strike.stop placement) : tick ≤ strike.stop placement :=
  h.le_stop strike hmem rfl hlength

theorem eq_own_stop_iff (h : FirstStop placement strikes strike tick) (hmem : strike ∈ strikes)
    (hlength : strike.start < strike.stop placement) :
    tick = strike.stop placement ↔ ∀ other ∈ strikes, strike.SparedBy placement other := by
  constructor
  · intro htick other hother hpitch
    by_cases hstop : strike.start < other.stop placement
    · right
      rw [← htick]
      exact h.le_stop other hother hpitch hstop
    · exact .inl (Nat.le_of_not_lt hstop)
  · intro hall
    apply le_antisymm (h.le_own_stop hmem hlength)
    obtain ⟨other, hother, hpitch, hstop⟩ := h.exists_stop
    have hstart := h.start_lt
    have := hall other hother hpitch
    omega

end Strike.FirstStop

/-- Of two strikes of a pitch neither cuts the other off if the first one stops before the second
one starts, or together with it. -/
theorem Strike.sparedBy_and_iff {placement : NoteOff} {s t : Strike}
    (hgap : s.start + s.length < t.start) (hlength : t.start < t.stop placement) :
    s.SparedBy placement t ∧ t.SparedBy placement s ↔
      (s.pitch = t.pitch →
        s.stop placement ≤ t.start ∨ s.stop placement = t.stop placement) := by
  constructor
  · rintro ⟨hfirst, hsecond⟩ hpitch
    have := hfirst hpitch.symm
    have := hsecond hpitch
    omega
  · intro h
    constructor
    · intro hpitch
      have := h hpitch.symm
      omega
    · intro hpitch
      have := h hpitch
      omega

theorem Strike.forall_sparedBy_iff {placement : NoteOff} {strikes : List Strike}
    (hgap : strikes.Pairwise fun s t => s.start + s.length < t.start)
    (hlength : ∀ strike ∈ strikes, strike.start < strike.stop placement) :
    (∀ strike ∈ strikes, ∀ other ∈ strikes, strike.SparedBy placement other) ↔
      strikes.Pairwise fun s t => s.pitch = t.pitch →
        s.stop placement ≤ t.start ∨ s.stop placement = t.stop placement := by
  constructor
  · intro hall
    apply hgap.imp_of_mem
    intro s t hs ht hlt
    exact (sparedBy_and_iff hlt (hlength t ht)).mp ⟨hall s hs t ht, hall t ht s hs⟩
  · intro hpairs strike hstrike other hother
    have hsymm : Std.Symm fun s t : Strike => s.SparedBy placement t ∧ t.SparedBy placement s :=
      ⟨fun _ _ => And.symm⟩
    have hboth : strikes.Pairwise fun s t => s.SparedBy placement t ∧ t.SparedBy placement s := by
      apply (hgap.and hpairs).imp_of_mem
      intro s t hs ht h
      exact (sparedBy_and_iff h.1 (hlength t ht)).mpr h.2
    have hself : ∀ s ∈ strikes, s.SparedBy placement s ∧ s.SparedBy placement s :=
      fun s _ => ⟨fun _ => .inr le_rfl, fun _ => .inr le_rfl⟩
    exact (hboth.forall_of_forall hself hstrike hother).1

namespace Track

variable {track : Track} {options : Options} {global : UInt32}

theorem start_lt_stop (hpos : 0 < global.toNat) (hfit : ∀ bar ∈ track.bars, bar.Fitting global)
    {strike : Strike} (h : strike ∈ track.strikes global.toNat) (placement : NoteOff) :
    strike.start < strike.stop placement := by
  have := strikes_length_pos hpos hfit h
  cases placement <;> simp only [Strike.stop] <;> omega

theorem schedule_noteOff_later (hpos : 0 < global.toNat)
    (hfit : ∀ bar ∈ track.bars, bar.Fitting global) (channel : UInt8) :
    ((track.schedule options global.toNat).map (Emission.event channel)).Pairwise
      fun a b => a.kind.isNoteOn → b.kind.isNoteOff → a.tick < b.tick := by
  have hnotes : (((track.schedule options global.toNat).map (Emission.event channel)).filter
      Event.isNote).Pairwise fun a b => a.kind.isNoteOn → b.kind.isNoteOff → a.tick < b.tick := by
    rw [filter_isNote_schedule, List.pairwise_map, List.pairwise_flatMap]
    constructor
    · intro strike hstrike
      simpa [Emission.event, Strike.noteOn, Strike.noteOff] using
        fun _ _ => start_lt_stop hpos hfit hstrike options.noteOff
    · apply (strikes_pairwise hfit).imp
      intro s t hlt a ha b hb hon hoff
      have hstart : s.start < t.start := (Nat.le_add_right _ _).trans_lt hlt
      rcases List.mem_pair.mp ha with rfl | rfl
      · rcases List.mem_pair.mp hb with rfl | rfl
        · cases hoff
        · exact hstart.trans_le (t.start_le_stop options.noteOff)
      · cases hon
  apply (List.pairwise_filter.mp hnotes).imp
  intro a b h hon hoff
  apply h _ _ hon hoff
  · cases hkind : a.kind <;> simp_all [Event.isNote, EventKind.isNoteOn, EventKind.pitch?]
  · cases hkind : b.kind <;> simp_all [Event.isNote, EventKind.isNoteOff, EventKind.pitch?]

end Track

/-- The events of a track that fits: its schedule, sorted by tick. -/
structure TrackEvents.Scheduled (events : TrackEvents) (track : Track) (options : Options)
    (global : UInt32) : Prop where
  global_pos : 0 < global.toNat
  fitting : ∀ bar ∈ track.bars, bar.Fitting global
  events_eq : events.events =
    sortByTick ((track.schedule options global.toNat).map (Emission.event events.channel))

namespace TrackEvents.Scheduled

variable {events : TrackEvents} {track : Track} {options : Options} {global : UInt32}

theorem inTickOrder (h : events.Scheduled track options global) : InTickOrder events.events :=
  h.events_eq ▸ sortByTick_inTickOrder _

theorem noteOn_mem (h : events.Scheduled track options global) {strike : Strike}
    (hstrike : strike ∈ track.strikes global.toNat) :
    strike.noteOn.event events.channel ∈ events.events := by
  have hmem := List.mem_map_of_mem (f := fun s : Strike => s.noteOn.event events.channel) hstrike
  rw [← track.filter_isNoteOn_schedule options] at hmem
  rw [h.events_eq, mem_sortByTick]
  exact List.mem_of_mem_filter hmem

theorem mem_and_ends_iff (h : events.Scheduled track options global) {pitch : UInt8}
    {event : Event} : event ∈ events.events ∧ event.kind.ends pitch ↔
      ∃ strike ∈ track.strikes global.toNat, strike.pitch = pitch ∧
        event = (strike.noteOff options.noteOff).event events.channel := by
  have hoffs : event ∈ events.events ∧ event.kind.isNoteOff ↔
      ∃ strike ∈ track.strikes global.toNat,
        (strike.noteOff options.noteOff).event events.channel = event := by
    rw [h.events_eq, mem_sortByTick, ← List.mem_map, ← track.filter_isNoteOff_schedule,
      List.mem_filter]
  rw [EventKind.ends_eq_true_iff, ← and_assoc, hoffs]
  constructor
  · rintro ⟨⟨strike, hstrike, rfl⟩, hpitch⟩
    exact ⟨strike, hstrike, Option.some.inj hpitch, rfl⟩
  · rintro ⟨strike, hstrike, rfl, rfl⟩
    exact ⟨⟨strike, hstrike, rfl⟩, rfl⟩

/-- Behind a note-on stand the note-offs of its pitch that come at later ticks. -/
theorem mem_behind_iff (h : events.Scheduled track options global) {noteOn event : Event}
    {front back : List Event} (hsplit : events.events = front ++ noteOn :: back)
    (hon : noteOn.kind.isNoteOn) (hmem : event ∈ events.events) (hoff : event.kind.isNoteOff) :
    event ∈ back ↔ noteOn.tick < event.tick := by
  have horder := h.inTickOrder
  have hties : events.events.Pairwise fun a b =>
      a.tick = b.tick → a.kind.isNoteOn → ¬ b.kind.isNoteOff := by
    rw [h.events_eq]
    apply pairwise_sortByTick
    apply (Track.schedule_noteOff_later h.global_pos h.fitting events.channel).imp
    intro a b hlater htick hon hoff
    exact (hlater hon hoff).ne htick
  rw [hsplit] at horder hties hmem
  have horder := List.pairwise_append.mp horder
  constructor
  · intro hback
    apply lt_of_le_of_ne ((List.pairwise_cons.mp horder.2.1).1 event hback)
    intro htick
    exact (List.pairwise_cons.mp (List.pairwise_append.mp hties).2.1).1 event hback htick hon hoff
  · intro htick
    rcases List.mem_append.mp hmem with hfront | hrest
    · exact absurd (horder.2.2 event hfront noteOn List.mem_cons_self) htick.not_ge
    · exact (List.mem_cons.mp hrest).resolve_left fun heq => htick.ne' (congrArg Event.tick heq)

theorem mem_behind_and_ends_iff (h : events.Scheduled track options global)
    {noteOn event : Event} {front back : List Event}
    (hsplit : events.events = front ++ noteOn :: back) (hon : noteOn.kind.isNoteOn)
    {pitch : UInt8} : event ∈ back ∧ event.kind.ends pitch ↔
      ∃ strike ∈ track.strikes global.toNat, strike.pitch = pitch ∧
        noteOn.tick < strike.stop options.noteOff ∧
          event = (strike.noteOff options.noteOff).event events.channel := by
  constructor
  · rintro ⟨hback, hends⟩
    have hmem : event ∈ events.events := by
      simp [hsplit, hback]
    obtain ⟨strike, hstrike, hpitch, rfl⟩ := h.mem_and_ends_iff.mp ⟨hmem, hends⟩
    exact ⟨strike, hstrike, hpitch, (h.mem_behind_iff hsplit hon hmem rfl).mp hback, rfl⟩
  · rintro ⟨strike, hstrike, hpitch, htick, rfl⟩
    obtain ⟨hmem, hends⟩ := h.mem_and_ends_iff.mpr ⟨strike, hstrike, hpitch, rfl⟩
    exact ⟨(h.mem_behind_iff hsplit hon hmem rfl).mpr htick, hends⟩

/-- The first note-off of its pitch behind a strike comes at the first stop. -/
theorem exists_find?_ends (h : events.Scheduled track options global) {strike : Strike}
    (hstrike : strike ∈ track.strikes global.toNat) {front back : List Event}
    (hsplit : events.events = front ++ strike.noteOn.event events.channel :: back) :
    ∃ found, back.find? (fun event => event.kind.ends strike.pitch) = some found ∧
      strike.FirstStop options.noteOff (track.strikes global.toNat) found.tick := by
  have hbehind : ∀ event, event ∈ back ∧ event.kind.ends strike.pitch ↔ _ :=
    fun event => h.mem_behind_and_ends_iff hsplit rfl
  have hordered : InTickOrder back := by
    have horder := h.inTickOrder
    rw [hsplit] at horder
    exact (List.pairwise_cons.mp (List.pairwise_append.mp horder).2.1).2
  cases hfind : back.find? fun event => event.kind.ends strike.pitch with
  | none =>
    have hlength := Track.start_lt_stop h.global_pos h.fitting hstrike options.noteOff
    obtain ⟨hback, hends⟩ := (hbehind _).mpr ⟨strike, hstrike, rfl, hlength, rfl⟩
    exact absurd hends (List.find?_eq_none.mp hfind _ hback)
  | some found =>
    have hends := List.find?_some hfind
    obtain ⟨other, hother, hpitch, hlater, rfl⟩ :=
      (hbehind found).mp ⟨List.mem_of_find?_eq_some hfind, hends⟩
    refine ⟨_, rfl, hlater, ⟨other, hother, hpitch, rfl⟩, ?_⟩
    intro later hmem hsame hstop
    obtain ⟨hback, hends⟩ := (hbehind _).mpr ⟨later, hmem, hsame, hstop, rfl⟩
    exact hordered.find?_le hfind hback hends

/-- A strike sounds until the first stop of its pitch. -/
theorem exists_soundsUntil (h : events.Scheduled track options global) {strike : Strike}
    (hstrike : strike ∈ track.strikes global.toNat) : ∃ tick, events.SoundsUntil strike tick ∧
      strike.FirstStop options.noteOff (track.strikes global.toNat) tick := by
  have hnoteOn := h.noteOn_mem hstrike
  obtain ⟨front, back, hsplit⟩ := List.append_of_mem hnoteOn
  obtain ⟨found, -, hfirst⟩ := h.exists_find?_ends hstrike hsplit
  refine ⟨found.tick, ⟨hnoteOn, fun front' back' hsplit' => ?_⟩, hfirst⟩
  obtain ⟨found', hfound', hfirst'⟩ := h.exists_find?_ends hstrike hsplit'
  rw [hfound', Option.map_some, hfirst'.unique hfirst]

/-- All strikes sound until their own stops if and only if they keep out of each other's way. -/
theorem forall_soundsUntil_iff (h : events.Scheduled track options global) :
    (∀ strike ∈ track.strikes global.toNat,
        events.SoundsUntil strike (strike.stop options.noteOff)) ↔
      (track.strikes global.toNat).Pairwise fun s t => s.pitch = t.pitch →
        s.stop options.noteOff ≤ t.start ∨ s.stop options.noteOff = t.stop options.noteOff := by
  have hlength : ∀ strike ∈ track.strikes global.toNat,
      strike.start < strike.stop options.noteOff := fun strike hstrike =>
    Track.start_lt_stop h.global_pos h.fitting hstrike _
  rw [← Strike.forall_sparedBy_iff (Track.strikes_pairwise h.fitting) hlength]
  apply forall₂_congr
  intro strike hstrike
  obtain ⟨tick, hsounds, hfirst⟩ := h.exists_soundsUntil hstrike
  rw [← hfirst.eq_own_stop_iff hstrike (hlength strike hstrike)]
  constructor
  · exact hsounds.unique
  · rintro rfl
    exact hsounds

end TrackEvents.Scheduled

theorem Score.compile_scheduled {score : Score} {options : Options} {timeline : Timeline}
    (h : score.compile options = .ok timeline) {i : Nat} {track : Track}
    (htrack : score.tracks[i]? = some track) : ∃ events : TrackEvents,
      timeline.tracks[i]? = some events ∧ events.Scheduled track options timeline.resolution := by
  obtain ⟨hfit, channel, -, hresult⟩ := compile_schedule h htrack
  exact ⟨_, hresult, globalResolution_pos (compile_eq_ok h).1, hfit, rfl⟩

/-- In an accepted score a doubled note sounds until the first note-off of its pitch that comes
after its start. That is not behind twice its length, and it is there just if no strike of the
pitch stops in between. All notes of a track sound twice their lengths if and only if those that
share a pitch do not overlap, or end together. -/
theorem Score.compile_doubled_sounding {score : Score} {options : Options} {timeline : Timeline}
    (hdoubled : options.noteOff = .doubled) (h : score.compile options = .ok timeline) :
    timeline.tracks.length = score.tracks.length ∧
      ∀ (i : Nat) (track : Track), score.tracks[i]? = some track → ∃ events : TrackEvents,
        timeline.tracks[i]? = some events ∧
        let strikes := track.strikes timeline.resolution.toNat
        (∀ strike ∈ strikes, ∃ tick, events.SoundsUntil strike tick ∧
          strike.FirstStop .doubled strikes tick ∧ tick ≤ strike.start + 2 * strike.length ∧
          (tick = strike.start + 2 * strike.length ↔
            ∀ other ∈ strikes, other.pitch = strike.pitch →
              other.start + 2 * other.length ≤ strike.start ∨
                strike.start + 2 * strike.length ≤ other.start + 2 * other.length)) ∧
        ((∀ strike ∈ strikes, events.SoundsUntil strike (strike.start + 2 * strike.length)) ↔
          strikes.Pairwise fun s t => s.pitch = t.pitch →
            s.start + 2 * s.length ≤ t.start ∨
              s.start + 2 * s.length = t.start + 2 * t.length) := by
  refine ⟨compile_length h, fun i track htrack => ?_⟩
  obtain ⟨events, hevents, hscheduled⟩ := compile_scheduled h htrack
  refine ⟨events, hevents, fun strike hstrike => ?_, ?_⟩
  · have hlength := Track.start_lt_stop hscheduled.global_pos hscheduled.fitting hstrike .doubled
    obtain ⟨tick, hsounds, hfirst⟩ := hscheduled.exists_soundsUntil hstrike
    rw [hdoubled] at hfirst
    exact ⟨tick, hsounds, hfirst, hfirst.le_own_stop hstrike hlength,
      hfirst.eq_own_stop_iff hstrike hlength⟩
  · have hall := hscheduled.forall_soundsUntil_iff
    rw [hdoubled] at hall
    exact hall

/-- A long note that a short one on its pitch, struck after it, cuts off. -/
theorem Score.compile_doubled_sounding_inner :
    let track : Track := .ofBars .percussion [.ofNotes 120 4 [⟨some 60, .half⟩,
      ⟨some 60, .sixteenth⟩, ⟨some 62, .sixteenth⟩, .rest .eighth, ⟨some 60, .quarter⟩]]
    ∃ timeline, ({} : Options).noteOff = .doubled ∧
      Score.compile ⟨none, [track]⟩ {} = .ok timeline ∧
      ∃ events : TrackEvents, timeline.tracks[0]? = some events ∧
        events.events = [⟨1, 9, .noteOn 60 60⟩, ⟨10, 9, .noteOn 60 60⟩, ⟨12, 9, .noteOff 60 60⟩,
          ⟨12, 9, .noteOn 62 60⟩, ⟨14, 9, .noteOff 62 60⟩, ⟨17, 9, .noteOff 60 60⟩,
          ⟨17, 9, .noteOn 60 60⟩, ⟨25, 9, .noteOff 60 60⟩] ∧
        events.SoundsUntil ⟨1, 8, 60⟩ 12 ∧ events.SoundsUntil ⟨17, 4, 60⟩ (17 + 2 * 4) := by
  intro track
  have hcompile : Score.compile ⟨none, [track]⟩ {} = .ok ⟨4, 120, [⟨0, none, 9, .percussion, [
      ⟨1, 9, .noteOn 60 60⟩, ⟨10, 9, .noteOn 60 60⟩, ⟨12, 9, .noteOff 60 60⟩,
      ⟨12, 9, .noteOn 62 60⟩, ⟨14, 9, .noteOff 62 60⟩, ⟨17, 9, .noteOff 60 60⟩,
      ⟨17, 9, .noteOn 60 60⟩, ⟨25, 9, .noteOff 60 60⟩], 22⟩]⟩ := by
    decide +kernel
  obtain ⟨-, htracks⟩ := Score.compile_doubled_sounding rfl hcompile
  obtain ⟨events, hevents, hsounds, -⟩ := htracks 0 track rfl
  cases hevents
  obtain ⟨tick, hlong, hfirst, -⟩ := hsounds ⟨1, 8, 60⟩ (by decide)
  obtain ⟨last, hlast, -, -, hown⟩ := hsounds ⟨17, 4, 60⟩ (by decide)
  have htick : tick = 12 := hfirst.unique ⟨by decide, by decide, by decide⟩
  have hlastTick : last = 17 + 2 * 4 := hown.mpr (by decide)
  subst htick hlastTick
  exact ⟨_, rfl, hcompile, _, rfl, rfl, hlong, hlast⟩

/-- A note that is struck again is cut off by its own first sounding. -/
theorem Score.compile_doubled_repeated :
    let track : Track := .ofBars .percussion [.ofNotes 120 2 [⟨some 60, .quarter⟩,
      ⟨some 60, .quarter⟩]]
    ∃ timeline, ({} : Options).noteOff = .doubled ∧
      Score.compile ⟨none, [track]⟩ {} = .ok timeline ∧
      ∃ events : TrackEvents, timeline.tracks[0]? = some events ∧
        events.events = [⟨1, 9, .noteOn 60 60⟩, ⟨6, 9, .noteOn 60 60⟩, ⟨9, 9, .noteOff 60 60⟩,
          ⟨14, 9, .noteOff 60 60⟩] ∧
        ⟨6, 4, 60⟩ ∈ track.strikes timeline.resolution.toNat ∧
        events.SoundsUntil ⟨6, 4, 60⟩ 9 ∧ ¬ events.SoundsUntil ⟨6, 4, 60⟩ (6 + 2 * 4) := by
  intro track
  have hcompile : Score.compile ⟨none, [track]⟩ {} = .ok ⟨2, 120, [⟨0, none, 9, .percussion, [
      ⟨1, 9, .noteOn 60 60⟩, ⟨6, 9, .noteOn 60 60⟩, ⟨9, 9, .noteOff 60 60⟩,
      ⟨14, 9, .noteOff 60 60⟩], 11⟩]⟩ := by
    decide +kernel
  obtain ⟨events, hevents, hscheduled⟩ := compile_scheduled (i := 0) hcompile rfl
  cases hevents
  have hmem : ⟨6, 4, 60⟩ ∈ track.strikes 2 := by decide
  obtain ⟨tick, hsounds, hfirst⟩ := hscheduled.exists_soundsUntil hmem
  have htick : tick = 9 := hfirst.unique ⟨by decide, by decide, by decide⟩
  subst htick
  refine ⟨_, rfl, hcompile, _, rfl, rfl, hmem, hsounds, fun hlong => ?_⟩
  exact absurd (hsounds.unique hlong) (by decide)

end Sequencer
