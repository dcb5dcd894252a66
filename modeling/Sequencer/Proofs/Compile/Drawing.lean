import Sequencer.Proofs.Compile.Acceptance

/-! # Drawing channels

The pools can be used by any mixture of draws and compiled tracks. Whatever the mixture, a call
draws the channel that its number among the calls of its class decides, and what it does with
the channel afterwards makes no difference to later calls.
-/

namespace Sequencer

/-- The channel that a class draws after `k` others: melodic tracks pass over 9 and 10. -/
def InstrumentClass.channel? : InstrumentClass → (k : Nat) → Option UInt8
  | .melodic, k =>
    if k < 9 then some (UInt8.ofNat k) else if k < 14 then some (UInt8.ofNat (k + 2)) else none
  | .percussion, k => if k < 2 then some (UInt8.ofNat (9 + k)) else none

theorem InstrumentClass.channels_getElem? (kind : InstrumentClass) (k : Nat) :
    kind.channels[k]? = kind.channel? k := by
  by_cases hk : k < 14
  · cases kind <;> interval_cases k <;> rfl
  · have hlength : kind.channels.length ≤ k := by
      cases kind <;> simp [channels] <;> omega
    rw [List.getElem?_eq_none hlength]
    cases kind
    · rw [channel?, if_neg (by omega), if_neg hk]
    · rw [channel?, if_neg (by omega)]

namespace Channels

def remaining (channels : Channels) : List UInt8 :=
  channels.free .melodic ++ channels.free .percussion

theorem toOption_draw {channels : Channels} (h : channels.Proper) (track : Nat)
    (kind : InstrumentClass) :
    (channels.draw track kind).1.toOption = (channels.free kind).head? := by
  rw [draw_fst h]
  cases (channels.free kind).head? <;> rfl

theorem draw_snd_of_none {channels : Channels} {track : Nat} {kind : InstrumentClass}
    (h : (channels.draw track kind).1.toOption = none) :
    (channels.draw track kind).2 = channels := by
  rw [draw_eq_ite] at h ⊢
  split_ifs at h ⊢ with hlast
  · rfl
  · cases h

theorem draw_snd_congr (channels : Channels) (track other : Nat) (kind : InstrumentClass) :
    (channels.draw track kind).2 = (channels.draw other kind).2 := by
  rw [draw_eq_ite, draw_eq_ite]
  split_ifs <;> rfl

/-- A use of the pools. -/
inductive Call where
  /-- A channel is drawn for a track of the given number. -/
  | draw (track : Nat) (kind : InstrumentClass)
  /-- A track is compiled on a channel that it draws itself. -/
  | compile (settings : Settings) (index : Nat) (track : Track)
  deriving DecidableEq, Repr, Inhabited

/-- What a call gives when it succeeds. -/
inductive Answer where
  | channel (channel : UInt8)
  | events (events : TrackEvents)
  deriving DecidableEq, Repr, Inhabited

namespace Call

def index : Call → Nat
  | draw track _ => track
  | compile _ index _ => index

def kind : Call → InstrumentClass
  | draw _ kind => kind
  | compile _ _ track => track.instrument.kind

def apply (channels : Channels) : Call → Except CompileError Answer × Channels
  | draw track kind =>
    let (result, channels) := channels.draw track kind
    (result.map .channel, channels)
  | compile settings index track =>
    let (result, channels) := track.compile settings index channels
    (result.map .events, channels)

def answer (call : Call) : Option UInt8 → Except CompileError Answer
  | none => .error (.channelCapacityExceeded call.index call.kind call.kind.limit)
  | some channel =>
    match call with
    | draw _ _ => .ok (.channel channel)
    | compile settings index track => (track.eventsOn settings index channel).map .events

def toDraw (call : Call) : Call :=
  draw call.index call.kind

/-- A call draws once, and nothing that it does later touches the cursors. -/
theorem apply_snd (channels : Channels) (call : Call) :
    (call.apply channels).2 = (channels.draw call.index call.kind).2 := by
  cases call with
  | draw track kind => rfl
  | compile settings index track =>
    simp only [apply, Track.compile, Call.index, Call.kind]
    rcases channels.draw index track.instrument.kind with ⟨_ | _, next⟩ <;> rfl

theorem apply_fst {channels : Channels} (h : channels.Proper) (call : Call) :
    (call.apply channels).1 = call.answer (channels.free call.kind).head? := by
  cases call with
  | draw track kind =>
    simp only [apply, draw_fst h, Call.kind, kind.capacity_eq_limit]
    cases (channels.free kind).head? <;> rfl
  | compile settings index track =>
    have hfst := draw_fst h index track.instrument.kind
    rw [track.instrument.kind.capacity_eq_limit] at hfst
    simp only [apply, Track.compile, Call.kind]
    rcases hdraw : channels.draw index track.instrument.kind with ⟨result, next⟩
    rw [hdraw] at hfst
    subst hfst
    cases (channels.free track.instrument.kind).head? <;> rfl

end Call

def next (channels : Channels) (call : Call) : Channels :=
  (call.apply channels).2

def callsOfKind (kind : InstrumentClass) (calls : List Call) : Nat :=
  calls.countP fun call => call.kind = kind

theorem callsOfKind_cons (kind : InstrumentClass) (call : Call) (calls : List Call) :
    callsOfKind kind (call :: calls) =
      callsOfKind kind calls + if call.kind = kind then 1 else 0 := by
  simp [callsOfKind, List.countP_cons]

def after (channels : Channels) (calls : List Call) : Channels :=
  calls.foldl next channels

/-- The answers of calls, one after another. -/
def answers (channels : Channels) (calls : List Call) : List (Except CompileError Answer) :=
  outputs next (fun channels call => [(call.apply channels).1]) channels calls

/-- The channels that calls draw, also for tracks that fail with them. -/
def drawn (channels : Channels) (calls : List Call) : List UInt8 :=
  outputs next (fun channels call => (channels.draw call.index call.kind).1.toOption.toList)
    channels calls

theorem next_proper {channels : Channels} (h : channels.Proper) (call : Call) :
    (channels.next call).Proper := by
  rw [next, Call.apply_snd]
  exact draw_proper h call.index call.kind

theorem after_proper {channels : Channels} (h : channels.Proper) (calls : List Call) :
    (channels.after calls).Proper := by
  induction calls generalizing channels with
  | nil => exact h
  | cons call calls ih => exact ih (next_proper h call)

theorem free_next {channels : Channels} (h : channels.Proper) (call : Call)
    (kind : InstrumentClass) :
    (channels.next call).free kind =
      if kind = call.kind then (channels.free kind).tail else channels.free kind := by
  rw [next, Call.apply_snd, free_draw h]
  split_ifs with hkind
  · rw [hkind]
  · rfl

theorem free_after {channels : Channels} (h : channels.Proper) (calls : List Call)
    (kind : InstrumentClass) :
    (channels.after calls).free kind =
      (channels.free kind).drop (callsOfKind kind calls) := by
  induction calls generalizing channels with
  | nil => rfl
  | cons call calls ih =>
    rw [after, List.foldl_cons, ← after, ih (next_proper h call), free_next h, callsOfKind_cons]
    by_cases hkind : kind = call.kind
    · rw [if_pos hkind, if_pos hkind.symm, ← List.drop_one, List.drop_drop, Nat.add_comm]
    · rw [if_neg hkind, if_neg (Ne.symm hkind), Nat.add_zero]

/-- The answers are decided by the free channels of each class. -/
theorem answers_eq {channels : Channels} (h : channels.Proper) (calls : List Call) :
    channels.answers calls = calls.zipIdx.map fun (call, i) =>
      call.answer (channels.free call.kind)[callsOfKind call.kind (calls.take i)]? := by
  rw [answers, outputs_eq_flatMap, ← List.map_eq_flatMap]
  apply List.map_congr_left
  rintro ⟨call, i⟩ -
  have hfree := free_after h (calls.take i) call.kind
  have hproper := after_proper h (calls.take i)
  rw [after] at hfree hproper
  rw [Call.apply_fst hproper, hfree, List.head?_drop]

/-- Runs from cursors that agree on a class answer the calls of that class alike. -/
theorem answers_filter_of_free_eq {kind : InstrumentClass} {channels other : Channels}
    (h : channels.Proper) (hother : other.Proper) (hfree : channels.free kind = other.free kind)
    (calls : List Call) :
    ((calls.zip (channels.answers calls)).filter fun (call, _) => call.kind = kind) =
      let own := calls.filter fun call => call.kind = kind
      own.zip (other.answers own) := by
  induction calls generalizing channels other with
  | nil => rfl
  | cons call calls ih =>
    have hproper := next_proper h call
    by_cases hkind : call.kind = kind
    · have hnext : (channels.next call).free kind = (other.next call).free kind := by
        rw [free_next h, free_next hother, hfree]
      have hanswer : (call.apply channels).1 = (call.apply other).1 := by
        rw [Call.apply_fst h, Call.apply_fst hother, hkind, hfree]
      simpa [answers, outputs, hkind, hanswer] using ih hproper (next_proper hother call) hnext
    · have hnext : (channels.next call).free kind = other.free kind := by
        rw [free_next h, if_neg (Ne.symm hkind), hfree]
      simpa [answers, outputs, hkind] using ih hproper hother hnext

theorem remaining_next {channels : Channels} (h : channels.Proper) (call : Call) :
    ((channels.free call.kind).head?.toList ++ (channels.next call).remaining).Perm
      channels.remaining := by
  simp only [remaining, free_next h]
  cases hkind : call.kind with
  | melodic => cases channels.free .melodic <;> simp
  | percussion => cases channels.free .percussion <;> simp [List.perm_middle.symm]

/-- The channels drawn and those still free are together those that were free at first. -/
theorem drawn_append_remaining {channels : Channels} (h : channels.Proper) (calls : List Call) :
    (channels.drawn calls ++ (channels.after calls).remaining).Perm channels.remaining := by
  induction calls generalizing channels with
  | nil => exact List.Perm.refl _
  | cons call calls ih =>
    have hone := remaining_next h call
    rw [drawn, outputs, toOption_draw h, ← drawn, List.append_assoc]
    exact ((ih (next_proper h call)).append_left _).trans hone

theorem drawn_eq {channels : Channels} (h : channels.Proper) (calls : List Call) :
    channels.drawn calls = calls.zipIdx.flatMap fun (call, i) =>
      (channels.free call.kind)[callsOfKind call.kind (calls.take i)]?.toList := by
  rw [drawn, outputs_eq_flatMap]
  apply List.flatMap_congr
  rintro ⟨call, i⟩ -
  have hfree := free_after h (calls.take i) call.kind
  have hproper := after_proper h (calls.take i)
  rw [after] at hfree hproper
  simp only [toOption_draw hproper, hfree, List.head?_drop]

theorem after_map_toDraw (channels : Channels) (calls : List Call) :
    channels.after (calls.map Call.toDraw) = channels.after calls := by
  induction calls generalizing channels with
  | nil => rfl
  | cons call calls ih =>
    have hnext : channels.next call.toDraw = channels.next call := by
      rw [next, next, Call.apply_snd, Call.apply_snd]
      exact channels.draw_snd_congr _ _ _
    rw [List.map_cons, after, List.foldl_cons, ← after, hnext, ih]
    rfl

/-- Each call of a class draws the next channel of the class, whether the other class is used in
between or not, and whether tracks compile on their channels or fail. -/
structure DrawInOrder (calls : List Call) : Prop where
  answers_eq : full.answers calls = calls.zipIdx.map fun (call, i) =>
    call.answer (call.kind.channel? (callsOfKind call.kind (calls.take i)))
  drawn_eq : full.drawn calls = calls.zipIdx.flatMap fun (call, i) =>
    (call.kind.channel? (callsOfKind call.kind (calls.take i))).toList
  after_eq : full.after calls = full.after (calls.map Call.toDraw)
  classes_apart : ∀ kind,
    ((calls.zip (full.answers calls)).filter fun (call, _) => call.kind = kind) =
      let own := calls.filter fun call => call.kind = kind
      own.zip (full.answers own)
  /-- A call for which no channel is left changes nothing. -/
  exhausted : ∀ (channels : Channels) (call : Call),
    (channels.draw call.index call.kind).1.toOption = none → (call.apply channels).2 = channels
  own_channel : ∀ settings index track channel events,
    Call.answer (.compile settings index track) (some channel) = .ok (.events events) →
      events.channel = channel
  nodup : (full.drawn calls).Nodup
  perm : (full.drawn calls ++ (full.after calls).remaining).Perm ((List.range 16).map UInt8.ofNat)

theorem calls_draw_in_order (calls : List Call) : DrawInOrder calls := by
  have hall : full.remaining.Perm ((List.range 16).map UInt8.ofNat) := by decide
  have hperm := (drawn_append_remaining full_proper calls).trans hall
  constructor
  case answers_eq =>
    simp only [Channels.answers_eq full_proper, free_full, InstrumentClass.channels_getElem?]
  case drawn_eq =>
    simp only [Channels.drawn_eq full_proper, free_full, InstrumentClass.channels_getElem?]
  case after_eq => exact (full.after_map_toDraw calls).symm
  case classes_apart =>
    exact fun kind => answers_filter_of_free_eq full_proper full_proper rfl calls
  case exhausted =>
    intro channels call h
    rw [Call.apply_snd, draw_snd_of_none h]
  case own_channel =>
    intro settings index track channel events h
    rw [Call.answer] at h
    cases hevents : track.eventsOn settings index channel with
    | error e => rw [hevents] at h; cases h
    | ok result =>
      rw [hevents] at h
      cases h
      exact congrArg TrackEvents.channel (Track.eventsOn_eq_ok hevents).2
  case nodup => exact (List.nodup_append.mp (hperm.nodup_iff.mpr (by decide))).1
  case perm => exact hperm

/-- A track with an invalid program keeps its channel, and a third percussion track has none. -/
theorem calls_draw_in_order_exhausted :
    let broken : Track := .ofBars (.melodic 200) []
    let calls : List Call := [.compile ⟨{}, 4⟩ 0 broken, .draw 1 .percussion, .draw 2 .percussion,
      .draw 3 .percussion, .draw 4 .melodic]
    full.answers calls = [.error (.invalidProgram 0 200), .ok (.channel 9), .ok (.channel 10),
        .error (.channelCapacityExceeded 3 .percussion 2), .ok (.channel 1)] ∧
      full.drawn calls = [0, 9, 10, 1] ∧
      full.after (calls.take 4) = full.after (calls.take 3) := by
  intro broken calls
  have h := calls_draw_in_order calls
  refine ⟨h.answers_eq.trans (by decide), h.drawn_eq.trans (by decide), ?_⟩
  exact h.exhausted (full.after (calls.take 3)) (.draw 3 .percussion) (by decide)

end Channels
end Sequencer
