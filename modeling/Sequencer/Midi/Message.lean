import Sequencer.Timeline.Basic

/-! # Messages

The bytes of numbers and of single events. Fixed-width numbers have their highest byte first, and
variable-length quantities are digits of base 128, all but the last with bit 7 set. Channel messages
begin with a status byte that holds the channel in its low half; a tempo is a meta message with 24
bits of microseconds.
-/

namespace Sequencer.Midi

/-- Values of a timeline that no field of a file can hold, and buffers that are too small. -/
inductive Error where
  | resolutionOutOfRange (resolution : UInt32)
  | tempoOutOfRange (bpm : UInt32)
  | deltaOutOfRange (ticks : Nat)
  /-- The buffer took only a part of the bytes. -/
  | incompleteWrite
  deriving DecidableEq, Repr, Inhabited

def Error.message : Error → String
  | resolutionOutOfRange resolution =>
    "resolution " ++ toString resolution.toNat
      ++ " cannot be written as a MIDI division (1..=32767)"
  | tempoOutOfRange bpm =>
    "tempo " ++ toString bpm.toNat ++ " bpm cannot be written as a 24-bit MIDI tempo"
  | deltaOutOfRange ticks =>
    "delta time " ++ toString ticks ++ " exceeds the MIDI variable-length limit"
  | incompleteWrite => "write failed: failed to write whole buffer"

/-- The last `width` digits of a number in base 256, the highest first. -/
def bigEndian : (width : Nat) → Nat → List UInt8
  | 0, _ => []
  | width + 1, n => bigEndian width (n / 256) ++ [UInt8.ofNat (n % 256)]

/-- Greatest number that four digits of base 128 hold. -/
def greatestQuantity : Nat := 0x0FFFFFFF

/-- The digits of a number in base 128, each marked as not the last; none for zero. -/
def leadingDigits (n : Nat) : List UInt8 :=
  if n = 0 then [] else leadingDigits (n / 128) ++ [UInt8.ofNat (n % 128 + 128)]
termination_by n
decreasing_by omega

/-- The variable-length form of a number, in at most four bytes. -/
def quantity (n : Nat) : Except Error (List UInt8) :=
  if n ≤ greatestQuantity then .ok (leadingDigits (n / 128) ++ [UInt8.ofNat (n % 128)])
  else .error (.deltaOutOfRange n)

/-- Microseconds of a quarter note, rounded down; none at a tempo of zero. -/
def microsPerQuarter? (bpm : UInt32) : Option UInt32 :=
  if bpm = 0 then none else some (60000000 / bpm)

def greatestTempo : UInt32 := 0xFFFFFF

/-- The number of microseconds has to be positive and fit in 24 bits, which holds from
4 to 60000000 beats per minute. -/
def tempoMessage (bpm : UInt32) : Except Error (List UInt8) :=
  match microsPerQuarter? bpm with
  | some micros =>
    if 0 < micros ∧ micros ≤ greatestTempo then .ok ([0xFF, 0x51, 3] ++ bigEndian 3 micros.toNat)
    else .error (.tempoOutOfRange bpm)
  | none => .error (.tempoOutOfRange bpm)

/-- A status byte: the kind of message, and the low four bits of a channel. -/
def status (kind channel : UInt8) : UInt8 :=
  kind ||| (channel &&& 0x0F)

/-- The low four bits hold any of the sixteen channels. -/
theorem status_eq {channel : UInt8} (h : channel ≤ 15) (kind : UInt8) :
    status kind channel = kind ||| channel := by
  have hlt : channel.toNat < 2 ^ 4 := Nat.lt_succ_of_le (UInt8.le_iff_toNat_le.mp h)
  have hmask : channel &&& 0x0F = channel := by
    apply UInt8.toNat_inj.mp
    rw [UInt8.toNat_and]
    exact (Nat.and_two_pow_sub_one_eq_mod channel.toNat 4).trans (Nat.mod_eq_of_lt hlt)
  rw [status, hmask]

def message (event : Event) : Except Error (List UInt8) :=
  match event.kind with
  | .programChange program => .ok [status 0xC0 event.channel, program]
  | .noteOn pitch velocity => .ok [status 0x90 event.channel, pitch, velocity]
  | .noteOff pitch velocity => .ok [status 0x80 event.channel, pitch, velocity]
  | .tempoChange bpm => tempoMessage bpm

end Sequencer.Midi
