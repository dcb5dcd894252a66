import Mathlib.Data.List.Basic
import Sequencer.Channels

/-! # Channels as pools

The two cursors stand for two pools of free channels: the channels of a class that its cursor has
not passed. To the pools a draw is simple. It takes the first channel of one pool, or fails when
that pool is empty, and leaves the other pool alone.
-/

namespace Sequencer

namespace InstrumentClass

/-- The channels of a class, in drawing order. -/
def channels : InstrumentClass → List UInt8
  | melodic => [0, 1, 2, 3, 4, 5, 6, 7, 8, 11, 12, 13, 14, 15]
  | percussion => [9, 10]

def last : InstrumentClass → UInt8
  | melodic => Channels.greatest
  | percussion => Channels.lastPercussion

/-- Where the cursor stands once a channel is drawn. -/
def following : InstrumentClass → UInt8 → UInt8
  | melodic, channel =>
    if channel + 1 = Channels.firstPercussion then Channels.resumption else channel + 1
  | percussion, channel => channel + 1

theorem le_last {kind : InstrumentClass} {channel : UInt8} (h : channel ∈ kind.channels) :
    channel ≤ kind.last := by
  have hall : kind.channels.all fun channel => channel ≤ kind.last := by cases kind <;> rfl
  exact of_decide_eq_true (List.all_eq_true.mp hall channel h)

theorem following_mem {kind : InstrumentClass} {channel : UInt8} (h : channel ∈ kind.channels) :
    kind.following channel ∈ kind.channels ∨ kind.last < kind.following channel := by
  have hall : kind.channels.all fun channel =>
      kind.following channel ∈ kind.channels ∨ kind.last < kind.following channel := by
    cases kind <;> rfl
  exact of_decide_eq_true (List.all_eq_true.mp hall channel h)

/-- Behind a channel of the class come those from the following one on. -/
theorem filter_channels {kind : InstrumentClass} {channel : UInt8} (h : channel ∈ kind.channels) :
    kind.channels.filter (channel ≤ ·) =
      channel :: kind.channels.filter (kind.following channel ≤ ·) := by
  have hall : kind.channels.all fun channel => kind.channels.filter (channel ≤ ·) =
      channel :: kind.channels.filter (kind.following channel ≤ ·) := by
    cases kind <;> rfl
  exact of_decide_eq_true (List.all_eq_true.mp hall channel h)

end InstrumentClass

namespace Channels

variable {channels : Channels} {kind : InstrumentClass}

def cursor (channels : Channels) : InstrumentClass → UInt8
  | .melodic => channels.nextMelodic
  | .percussion => channels.nextPercussion

def setCursor (channels : Channels) (kind : InstrumentClass) (next : UInt8) : Channels :=
  match kind with
  | .melodic => { channels with nextMelodic := next }
  | .percussion => { channels with nextPercussion := next }

def free (channels : Channels) (kind : InstrumentClass) : List UInt8 :=
  kind.channels.filter (channels.cursor kind ≤ ·)

/-- Each cursor stands at a channel of its class or beyond the last of them. -/
def Proper (channels : Channels) : Prop :=
  ∀ kind : InstrumentClass, channels.cursor kind ∈ kind.channels ∨ kind.last < channels.cursor kind

theorem full_proper : full.Proper := by
  rintro ⟨⟩ <;> decide

theorem free_full (kind : InstrumentClass) : full.free kind = kind.channels := by
  cases kind <;> decide

theorem cursor_setCursor (channels : Channels) (kind other : InstrumentClass) (next : UInt8) :
    (channels.setCursor kind next).cursor other =
      if other = kind then next else channels.cursor other := by
  cases kind <;> cases other <;> rfl

theorem draw_eq_ite (channels : Channels) (track : Nat) (kind : InstrumentClass) :
    channels.draw track kind =
      if kind.last < channels.cursor kind then
        (.error (.channelCapacityExceeded track kind kind.capacity), channels)
      else
        (.ok (channels.cursor kind),
          channels.setCursor kind (kind.following (channels.cursor kind))) := by
  cases kind <;> rfl

theorem free_eq_nil (h : kind.last < channels.cursor kind) : channels.free kind = [] := by
  rw [free, List.filter_eq_nil_iff]
  intro channel hchannel
  rw [decide_eq_true_eq, UInt8.not_le]
  exact UInt8.lt_of_le_of_lt (InstrumentClass.le_last hchannel) h

/-- A draw from an empty pool fails and moves no cursor. -/
theorem draw_of_free_nil (h : channels.Proper) (hfree : channels.free kind = []) (track : Nat) :
    channels.draw track kind =
      (.error (.channelCapacityExceeded track kind kind.capacity), channels) := by
  have hlast : kind.last < channels.cursor kind := by
    refine (h kind).resolve_left fun hcursor => ?_
    rw [free, InstrumentClass.filter_channels hcursor] at hfree
    cases hfree
  rw [draw_eq_ite, if_pos hlast]

/-- A draw from any other pool takes its first channel. -/
theorem draw_of_free_cons (h : channels.Proper) {channel : UInt8} {rest : List UInt8}
    (hfree : channels.free kind = channel :: rest) (track : Nat) :
    ∃ next, channels.draw track kind = (.ok channel, next) ∧ next.Proper ∧
      ∀ other, next.free other = if other = kind then rest else channels.free other := by
  have hlast : ¬ kind.last < channels.cursor kind := by
    intro hlast
    rw [free_eq_nil hlast] at hfree
    cases hfree
  have hcursor := (h kind).resolve_right hlast
  rw [free, InstrumentClass.filter_channels hcursor, List.cons.injEq] at hfree
  obtain ⟨rfl, rfl⟩ := hfree
  refine ⟨channels.setCursor kind (kind.following (channels.cursor kind)),
    by rw [draw_eq_ite, if_neg hlast], fun other => ?_, fun other => ?_⟩
  · rw [cursor_setCursor]
    split_ifs with hother
    · rw [hother]
      exact InstrumentClass.following_mem hcursor
    · exact h other
  · rw [free, cursor_setCursor]
    split_ifs with hother
    · rw [hother]
    · rfl

/-- A draw is answered by the pool of its class. -/
theorem draw_fst (h : channels.Proper) (track : Nat) (kind : InstrumentClass) :
    (channels.draw track kind).1 =
      match (channels.free kind).head? with
      | some channel => .ok channel
      | none => .error (.channelCapacityExceeded track kind kind.capacity) := by
  cases hfree : channels.free kind with
  | nil => rw [draw_of_free_nil h hfree, List.head?_nil]
  | cons channel rest =>
    obtain ⟨next, hdraw, -⟩ := draw_of_free_cons h hfree track
    rw [hdraw, List.head?_cons]

theorem draw_proper (h : channels.Proper) (track : Nat) (kind : InstrumentClass) :
    (channels.draw track kind).2.Proper := by
  cases hfree : channels.free kind with
  | nil => rwa [draw_of_free_nil h hfree]
  | cons channel rest =>
    obtain ⟨next, hdraw, hnext, -⟩ := draw_of_free_cons h hfree track
    rwa [hdraw]

theorem free_draw (h : channels.Proper) (track : Nat) (kind other : InstrumentClass) :
    (channels.draw track kind).2.free other =
      if other = kind then (channels.free kind).tail else channels.free other := by
  cases hfree : channels.free kind with
  | nil =>
    rw [draw_of_free_nil h hfree, List.tail_nil]
    split_ifs with hother
    · rw [hother, hfree]
    · rfl
  | cons channel rest =>
    obtain ⟨next, hdraw, -, hnext⟩ := draw_of_free_cons h hfree track
    rw [hdraw, hnext, List.tail_cons]

end Channels
end Sequencer
