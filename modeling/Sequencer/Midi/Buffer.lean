import Sequencer.Midi.File

/-! # Writing files

A file is encoded as a whole before any byte of it is written, so that one that cannot be
encoded leaves its target as it was. A buffer is a target that takes bytes up to its
capacity; it keeps the beginning of a file that does not fit.
-/

namespace Sequencer.Midi

/-- Writes bytes to a target, and tells whether it took them all. -/
abbrev Writer (ω : Type) := List UInt8 → ω → Except Error Unit × ω

def writeFile {ω : Type} (layout : Layout) (timeline : Timeline) (write : Writer ω) (target : ω) :
    Except Error Unit × ω :=
  match file layout timeline with
  | .error e => (.error e, target)
  | .ok bytes => write bytes target

structure Buffer where
  /-- Without a capacity the buffer takes all bytes. -/
  capacity : Option Nat
  bytes : List UInt8
  deriving DecidableEq, Repr, Inhabited

namespace Buffer

def empty (capacity : Option Nat) : Buffer :=
  ⟨capacity, []⟩

/-- Appends as many bytes as fit. -/
def write : Writer Buffer := fun bytes buffer =>
  match buffer.capacity with
  | none => (.ok (), { buffer with bytes := buffer.bytes ++ bytes })
  | some capacity =>
    let room := capacity - buffer.bytes.length
    (if bytes.length ≤ room then .ok () else .error .incompleteWrite,
      { buffer with bytes := buffer.bytes ++ bytes.take room })

end Buffer
end Sequencer.Midi
