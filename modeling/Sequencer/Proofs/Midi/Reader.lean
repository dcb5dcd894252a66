import Mathlib.Data.FinEnum
import Mathlib.Tactic

/-! # Reading files

A reader of Standard MIDI Files, told from the file format alone. It is strict: chunks have the
lengths that they announce, every message bears its status byte, and the end of a track is the
end of its chunk. Delta times are summed up to absolute ticks.
-/

namespace Sequencer.Midi.Reader

inductive Message where
  | noteOff (channel pitch velocity : UInt8)
  | noteOn (channel pitch velocity : UInt8)
  | programChange (channel program : UInt8)
  /-- Any other channel message, by the high half of its status byte. -/
  | voice (kind : Nat) (channel : UInt8) (data : List UInt8)
  | exclusive (data : List UInt8)
  | trackName (text : List UInt8)
  | setTempo (micros : Nat)
  | endOfTrack
  /-- Any other meta message. -/
  | extra (kind : UInt8) (data : List UInt8)
  deriving DecidableEq, Repr, Inhabited

structure Timed where
  tick : Nat
  message : Message
  deriving DecidableEq, Repr, Inhabited

structure Track where
  messages : List Timed
  /-- The delta time of the end of the track. -/
  endDelta : Nat
  deriving DecidableEq, Repr, Inhabited

structure File where
  format : Nat
  division : Nat
  tracks : List Track
  deriving DecidableEq, Repr, Inhabited

def Track.prepend (messages : List Timed) (track : Track) : Track :=
  { track with messages := messages ++ track.messages }

@[simp] theorem Track.prepend_nil : Track.prepend [] = id := rfl

def readBytes (count : Nat) (bytes : List UInt8) : Option (List UInt8 × List UInt8) :=
  if count ≤ bytes.length then some (bytes.take count, bytes.drop count) else none

/-- The number whose digits in base 256 are given, the highest first. -/
def ofDigits (digits : List UInt8) : Nat :=
  digits.foldl (fun n digit => 256 * n + digit.toNat) 0

def readNumber (width : Nat) (bytes : List UInt8) : Option (Nat × List UInt8) := do
  let (digits, rest) ← readBytes width bytes
  some (ofDigits digits, rest)

/-- Digits in base 128 behind those that make up `value`, up to one without bit 7. -/
def readDigits : (limit value : Nat) → List UInt8 → Option (Nat × List UInt8)
  | 0, _, _ => none
  | _ + 1, _, [] => none
  | limit + 1, value, digit :: rest =>
    if digit < 128 then some (128 * value + digit.toNat, rest)
    else readDigits limit (128 * value + (digit.toNat - 128)) rest

/-- A variable-length quantity has four digits at most. -/
def readQuantity (bytes : List UInt8) : Option (Nat × List UInt8) :=
  readDigits 4 0 bytes

def dataLength (kind : Nat) : Nat :=
  if kind = 0xC ∨ kind = 0xD then 1 else 2

def voiceMessage (kind : Nat) (channel : UInt8) (data : List UInt8) : Message :=
  match kind, data with
  | 0x8, [pitch, velocity] => .noteOff channel pitch velocity
  | 0x9, [pitch, velocity] => .noteOn channel pitch velocity
  | 0xC, [program] => .programChange channel program
  | _, _ => .voice kind channel data

/-- A channel message behind its status byte. Data bytes have bit 7 clear. -/
def readVoice (status : UInt8) (bytes : List UInt8) : Option (Message × List UInt8) := do
  let kind := status.toNat / 16
  guard (0x8 ≤ kind ∧ kind ≤ 0xE)
  let (data, rest) ← readBytes (dataLength kind) bytes
  guard (∀ byte ∈ data, byte < 128)
  some (voiceMessage kind (UInt8.ofNat (status.toNat % 16)) data, rest)

def readCounted (bytes : List UInt8) : Option (List UInt8 × List UInt8) := do
  let (count, rest) ← readQuantity bytes
  readBytes count rest

def metaMessage (kind : UInt8) (data : List UInt8) : Message :=
  if kind = 0x03 then .trackName data
  else if kind = 0x2F ∧ data = [] then .endOfTrack
  else if kind = 0x51 ∧ data.length = 3 then .setTempo (ofDigits data)
  else .extra kind data

def readMeta : List UInt8 → Option (Message × List UInt8)
  | [] => none
  | kind :: bytes => do
    let (data, rest) ← readCounted bytes
    some (metaMessage kind data, rest)

def readMessage : List UInt8 → Option (Message × List UInt8)
  | [] => none
  | status :: bytes =>
    if status = 0xFF then readMeta bytes
    else if status = 0xF0 ∨ status = 0xF7 then do
      let (data, rest) ← readCounted bytes
      some (.exclusive data, rest)
    else readVoice status bytes

def readTimed (bytes : List UInt8) : Option (Nat × Message × List UInt8) := do
  let (delta, rest) ← readQuantity bytes
  let (message, rest) ← readMessage rest
  some (delta, message, rest)

theorem readBytes_length {count : Nat} {bytes data rest : List UInt8}
    (h : readBytes count bytes = some (data, rest)) : rest.length ≤ bytes.length := by
  rw [readBytes] at h
  split_ifs at h
  cases h
  rw [List.length_drop]
  exact Nat.sub_le _ _

theorem readDigits_length {limit value n : Nat} {bytes rest : List UInt8}
    (h : readDigits limit value bytes = some (n, rest)) : rest.length < bytes.length := by
  induction limit generalizing value bytes with
  | zero => cases h
  | succ limit ih =>
    cases bytes with
    | nil => cases h
    | cons digit bytes =>
      rw [readDigits] at h
      split_ifs at h
      · cases h
        exact Nat.lt_succ_self _
      · exact (ih h).trans (Nat.lt_succ_self _)

theorem readCounted_length {bytes data rest : List UInt8}
    (h : readCounted bytes = some (data, rest)) : rest.length ≤ bytes.length := by
  simp only [readCounted, Option.bind_eq_bind, Option.bind_eq_some_iff, Prod.exists] at h
  obtain ⟨count, behind, hcount, hdata⟩ := h
  exact (readBytes_length hdata).trans (readDigits_length hcount).le

theorem readVoice_length {status : UInt8} {message : Message} {bytes rest : List UInt8}
    (h : readVoice status bytes = some (message, rest)) : rest.length ≤ bytes.length := by
  simp only [readVoice, Option.bind_eq_bind, Option.bind_eq_some_iff, Prod.exists] at h
  obtain ⟨-, -, data, behind, hdata, -, -, heq⟩ := h
  cases heq
  exact readBytes_length hdata

theorem readMessage_length {message : Message} {bytes rest : List UInt8}
    (h : readMessage bytes = some (message, rest)) : rest.length ≤ bytes.length := by
  cases bytes with
  | nil => cases h
  | cons status bytes =>
    refine le_trans ?_ (Nat.le_succ _)
    rw [readMessage] at h
    split_ifs at h
    · cases bytes with
      | nil => cases h
      | cons kind bytes =>
        simp only [readMeta, Option.bind_eq_bind, Option.bind_eq_some_iff, Prod.exists] at h
        obtain ⟨data, behind, hdata, heq⟩ := h
        cases heq
        exact (readCounted_length hdata).trans (Nat.le_succ _)
    · simp only [Option.bind_eq_bind, Option.bind_eq_some_iff, Prod.exists] at h
      obtain ⟨data, behind, hdata, heq⟩ := h
      cases heq
      exact readCounted_length hdata
    · exact readVoice_length h

theorem readTimed_length {delta : Nat} {message : Message} {bytes rest : List UInt8}
    (h : readTimed bytes = some (delta, message, rest)) : rest.length < bytes.length := by
  simp only [readTimed, Option.bind_eq_bind, Option.bind_eq_some_iff, Prod.exists] at h
  obtain ⟨n, behind, hdelta, m, last, hmessage, heq⟩ := h
  cases heq
  exact (readMessage_length hmessage).trans_lt (readDigits_length hdelta)

/-- Messages after the tick `last`, up to the end of the track. -/
def readMessages (last : Nat) (bytes : List UInt8) : Option Track :=
  match _h : readTimed bytes with
  | none => none
  | some (delta, message, rest) =>
    if message = .endOfTrack then if rest = [] then some ⟨[], delta⟩ else none
    else (readMessages (last + delta) rest).map (Track.prepend [⟨last + delta, message⟩])
termination_by bytes.length
decreasing_by exact readTimed_length _h

def readChunk (tag : List Char) (bytes : List UInt8) : Option (List UInt8 × List UInt8) := do
  let (letters, rest) ← readBytes 4 bytes
  guard (letters = tag.map Char.toUInt8)
  let (length, rest) ← readNumber 4 rest
  readBytes length rest

def readTracks : Nat → List UInt8 → Option (List Track × List UInt8)
  | 0, bytes => some ([], bytes)
  | count + 1, bytes => do
    let (contents, rest) ← readChunk ['M', 'T', 'r', 'k'] bytes
    let track ← readMessages 0 contents
    let (tracks, rest) ← readTracks count rest
    some (track :: tracks, rest)

/-- A file of ticks per quarter note at the front of the bytes. -/
def readFile (bytes : List UInt8) : Option (File × List UInt8) := do
  let (header, rest) ← readChunk ['M', 'T', 'h', 'd'] bytes
  let (format, fields) ← readNumber 2 header
  let (count, fields) ← readNumber 2 fields
  let (division, fields) ← readNumber 2 fields
  guard (fields = [] ∧ 0 < division ∧ division < 0x8000)
  let (tracks, rest) ← readTracks count rest
  some (⟨format, division, tracks⟩, rest)

end Sequencer.Midi.Reader
