import Sequencer.Pitch
import Sequencer.Score.Edit
import Sequencer.Score.Resolution
import Sequencer.Timeline.Basic

/-! # The walk over a track

A cursor moves over the notes and rests of a track and leaves events behind. Each
note and rest takes one tick more than its length, so that notes never touch. A step
that fails keeps what was done before it.
-/

namespace Sequencer

structure Cursor where
  tick : Nat
  /-- The tempo of the last bar. -/
  tempo : UInt32
  /-- The resolution of the last bar. -/
  resolution : UInt32
  deriving DecidableEq, Repr, Inhabited

/-- What is the same for all tracks of a score. -/
structure Settings where
  options : Options
  /-- Global resolution of the score. -/
  resolution : UInt32
  deriving DecidableEq, Repr, Inhabited

structure Walk where
  cursor : Cursor
  track : TrackEvents
  deriving DecidableEq, Repr, Inhabited

def noteVelocity : UInt8 := 60

def firstTick : Nat := 1

def Cursor.initial (tempo : UInt32) : Cursor :=
  ⟨firstTick, tempo, 4⟩

def Note.invalidPitch? (note : Note) : Option UInt8 :=
  note.pitch.filter fun pitch => Pitch.greatest < pitch

namespace Walk

def emit (walk : Walk) (tick : Nat) (kind : EventKind) : Walk :=
  { walk with track := walk.track.insert tick kind }

def advance (walk : Walk) (ticks : Nat) : Walk :=
  { walk with cursor := { walk.cursor with tick := walk.cursor.tick + ticks } }

/-- Ticks from a note-on to its note-off. -/
def soundingTicks (placement : NoteOff) (length : Nat) : Nat :=
  match placement with
  | .doubled => length + length
  | .nominalEnd => length

/-- Passes over one note or rest, a sixteenth of which lasts `multiplier` ticks. -/
def note (placement : NoteOff) (multiplier : Nat) (walk : Walk) (note : Note) : Walk :=
  let length := note.sixteenths * multiplier
  let start := walk.cursor.tick
  match note.pitch with
  | none => walk.advance (length + 1)
  | some pitch =>
    ((walk.emit start (.noteOn pitch noteVelocity)).emit (start + soundingTicks placement length)
      (.noteOff pitch noteVelocity)).advance (length + 1)

/-- Passes over notes up to the first with an invalid pitch; `index` is the number of the
first of them within the bar. -/
def notes (placement : NoteOff) (multiplier trackIndex barIndex : Nat) :
    Nat → List Note → Walk → Except CompileError Unit × Walk
  | _, [], walk => (.ok (), walk)
  | index, n :: rest, walk =>
    match n.invalidPitch? with
    | some pitch => (.error (.invalidPitch trackIndex barIndex index pitch), walk)
    | none =>
      notes placement multiplier trackIndex barIndex (index + 1) rest
        (walk.note placement multiplier n)

/-- Takes on the tempo and the resolution of a bar; a new tempo is marked by an event. -/
def enter (walk : Walk) (bar : Bar) : Walk :=
  let marked :=
    if bar.tempo = walk.cursor.tempo then walk
    else walk.emit walk.cursor.tick (.tempoChange bar.tempo)
  { marked with
    cursor := { marked.cursor with tempo := bar.tempo, resolution := bar.resolution } }

/-- Passes over a bar: its tempo, its length, then its notes. -/
def bar (settings : Settings) (trackIndex barIndex : Nat) (bar : Bar) (walk : Walk) :
    Except CompileError Unit × Walk :=
  if bar.tempo = 0 then (.error (.zeroTempo trackIndex barIndex), walk)
  else
    let entered := walk.enter bar
    match bar.checkLength trackIndex barIndex with
    | .error e => (.error e, entered)
    | .ok () =>
      entered.notes settings.options.noteOff (tickMultiplier settings.resolution bar.resolution)
        trackIndex barIndex 0 bar.notes

/-- Passes over bars up to the first that fails; `index` is the number of the first of them. -/
def bars (settings : Settings) (trackIndex : Nat) :
    Nat → List Bar → Walk → Except CompileError Unit × Walk
  | _, [], walk => (.ok (), walk)
  | index, b :: rest, walk =>
    match walk.bar settings trackIndex index b with
    | (.error e, walk) => (.error e, walk)
    | (.ok (), walk) => bars settings trackIndex (index + 1) rest walk

end Walk
end Sequencer
