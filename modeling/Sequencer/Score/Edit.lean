import Sequencer.Compile.Error

/-! # Bars

Edits of a bar by position: a position past the end appends when a note is inserted and changes
nothing when one is replaced or removed. The notes and rests of a bar that is done fill exactly the
quarter notes that it spans.
-/

namespace Sequencer.Bar

def push (bar : Bar) (note : Note) : Bar :=
  { bar with notes := bar.notes ++ [note] }

/-- Puts a note before the one at a position. -/
def insertNote (bar : Bar) (position : Nat) (note : Note) : Bar :=
  let position := min position bar.notes.length
  { bar with notes := bar.notes.take position ++ note :: bar.notes.drop position }

/-- Replaces the note at a position; the old note comes first. -/
def replaceNote (bar : Bar) (position : Nat) (note : Note) : Option Note × Bar :=
  (bar.notes[position]?, { bar with notes := bar.notes.set position note })

/-- Removes the notes from `first` to `last`, both included, or one note without a `last`;
the removed notes come first. A `last` before `first` removes nothing. -/
def removeNotes (bar : Bar) (first : Nat) (last : Option Nat) : List Note × Bar :=
  let last := last.getD first
  if last < first ∨ bar.notes.length ≤ first then ([], bar)
  else
    let last := min last (bar.notes.length - 1)
    ((bar.notes.take (last + 1)).drop first,
      { bar with notes := bar.notes.take first ++ bar.notes.drop (last + 1) })

def requiredSixteenths (bar : Bar) : Nat :=
  bar.resolution.toNat * 4

def checkLength (bar : Bar) (track index : Nat) : Except CompileError Unit :=
  if bar.totalSixteenths = bar.requiredSixteenths then .ok ()
  else .error (.inconsistentBar track index bar.name bar.resolution bar.requiredSixteenths
    bar.totalSixteenths)

end Sequencer.Bar
