import Sequencer.Symbol

/-! # Note lengths

The notated lengths of notes and rests. Each is a whole number of sixteenth notes,
four of which make a quarter note.
-/

namespace Sequencer

inductive Duration where
  | whole
  | dottedHalf
  | half
  | dottedQuarter
  | quarter
  | dottedEighth
  | eighth
  | sixteenth
  deriving DecidableEq, Repr, Inhabited

namespace Duration

def all : List Duration :=
  [whole, dottedHalf, half, dottedQuarter, quarter, dottedEighth, eighth, sixteenth]

def sixteenths : Duration → Nat
  | whole => 16
  | dottedHalf => 12
  | half => 8
  | dottedQuarter => 6
  | quarter => 4
  | dottedEighth => 3
  | eighth => 2
  | sixteenth => 1

def quarters (d : Duration) : Rat :=
  (d.sixteenths : Rat) / 4

/-- The name by which a stored score refers to the length. -/
def name : Duration → String
  | whole => "whole"
  | dottedHalf => "dotted-half"
  | half => "half"
  | dottedQuarter => "dotted-quarter"
  | quarter => "quarter"
  | dottedEighth => "dotted-eighth"
  | eighth => "eighth"
  | sixteenth => "sixteenth"

/-- The symbol with which the length is displayed: its name, but for the sixteenth note. -/
def symbol : Duration → String
  | sixteenth => "16th"
  | d => d.name

/-- A trailing point stands for `dotted`. -/
def spellings : List (String × Duration) :=
  [("whole", whole), ("dotted-half", dottedHalf), ("half.", dottedHalf), ("half", half),
   ("dotted-quarter", dottedQuarter), ("quarter.", dottedQuarter), ("quarter", quarter),
   ("dotted-eighth", dottedEighth), ("eighth.", dottedEighth), ("eighth", eighth),
   ("16th", sixteenth), ("sixteenth", sixteenth)]

def ofSymbol (s : String) : Except UnknownSymbol Duration :=
  SymbolKind.duration.find Text.fold spellings s

end Duration
end Sequencer
