import Sequencer.Request

/-! # Terminated bytes

The entry points for callers that pass and take null-terminated bytes. A caller learns only
whether a request was answered.
-/

namespace Sequencer.Boundary

/-- The text before the first zero byte; none without an argument, or if the bytes are not
UTF-8. -/
def argument? (bytes : Option (List UInt8)) : Option String :=
  bytes.bind fun bytes => String.fromUTF8? ⟨(bytes.takeWhile (· != 0)).toArray⟩

/-- The bytes of a text that a zero byte can end; a text with a zero byte of its own is
replaced by the empty one. -/
def terminable (text : String) : List UInt8 :=
  let bytes := text.toUTF8.data.toList
  if bytes.contains 0 then [] else bytes

def timeline? (request : Option (List UInt8)) : Option (List UInt8) := do
  let text ← argument? request
  (compileText text).toOption.map terminable

/-- The MIDI file for a request. The caller passes a place for its length, which is filled
only when there is a file; without a place there is no answer. -/
def midi (request : Option (List UInt8)) (length : Option Nat) :
    Option (List UInt8) × Option Nat :=
  match length, argument? request with
  | some _, some text =>
    match compileTextToMidi text with
    | .ok bytes => (some bytes, some bytes.length)
    | .error _ => (none, length)
  | _, _ => (none, length)

end Sequencer.Boundary
