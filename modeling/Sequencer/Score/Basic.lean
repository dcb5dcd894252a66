import Sequencer.Drum
import Sequencer.Duration

/-! # Scores

A score is a list of tracks, a track a list of bars, a bar a list of notes and rests.
Each bar states its tempo and how many quarter notes it spans, its resolution. Options
say what else there is to know of a compilation.
-/

namespace Sequencer

/-- A note of the given pitch, or a rest. -/
structure Note where
  pitch : Option UInt8
  duration : Duration
  deriving DecidableEq, Repr, Inhabited

structure Bar where
  name : Option String
  /-- Beats per minute. -/
  tempo : UInt32
  /-- The number of quarter notes that the bar spans. -/
  resolution : UInt32
  notes : List Note
  deriving DecidableEq, Repr, Inhabited

/-- Melodic and percussion tracks draw their channels from separate pools. -/
inductive InstrumentClass where
  | melodic
  | percussion
  deriving DecidableEq, Repr, Inhabited

inductive Instrument where
  | melodic (program : UInt8)
  | percussion
  deriving DecidableEq, Repr, Inhabited

structure Track where
  name : Option String
  instrument : Instrument
  bars : List Bar
  deriving DecidableEq, Repr, Inhabited

structure Score where
  title : Option String
  tracks : List Track
  deriving DecidableEq, Repr, Inhabited

def InstrumentClass.all : List InstrumentClass :=
  [.melodic, .percussion]

def InstrumentClass.name : InstrumentClass → String
  | .melodic => "melodic"
  | .percussion => "percussion"

namespace Instrument

def kind : Instrument → InstrumentClass
  | .melodic _ => .melodic
  | .percussion => .percussion

def program? : Instrument → Option UInt8
  | .melodic program => some program
  | .percussion => none

end Instrument

namespace Note

def rest (duration : Duration) : Note :=
  ⟨none, duration⟩

def drum (piece : Drum) (duration : Duration) : Note :=
  ⟨some piece.pitch, duration⟩

def sixteenths (note : Note) : Nat :=
  note.duration.sixteenths

end Note

namespace Bar

def ofNotes (tempo resolution : UInt32) (notes : List Note) : Bar :=
  ⟨none, tempo, resolution, notes⟩

/-- The notated length of all notes and rests. -/
def totalSixteenths (bar : Bar) : Nat :=
  bar.notes.foldr (fun note total => note.sixteenths + total) 0

end Bar

def Track.ofBars (instrument : Instrument) (bars : List Bar) : Track :=
  ⟨none, instrument, bars⟩

def Score.empty : Score :=
  ⟨none, []⟩

/-- Where a note-off lands relative to its note-on. -/
inductive NoteOff where
  /-- One note length past the nominal end, so that a note sounds twice its length. -/
  | doubled
  /-- At the nominal end of the note. -/
  | nominalEnd
  deriving DecidableEq, Repr, Inhabited

def NoteOff.all : List NoteOff :=
  [.doubled, .nominalEnd]

def NoteOff.name : NoteOff → String
  | .doubled => "doubled"
  | .nominalEnd => "nominal-end"

structure Options where
  /-- The tempo in force before the first bar. -/
  initialTempo : UInt32 := 120
  noteOff : NoteOff := .doubled
  deriving DecidableEq, Repr, Inhabited

end Sequencer
