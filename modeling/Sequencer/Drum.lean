import Sequencer.Symbol

/-! # Drums

The pieces of the percussion kit, at their pitches on the General MIDI drum map.
-/

namespace Sequencer

inductive Drum where
  | bell
  | bassDrum
  | snare
  | closedHiHat
  | openHiHat
  | crash
  | ride
  deriving DecidableEq, Repr, Inhabited

namespace Drum

def all : List Drum :=
  [bell, bassDrum, snare, closedHiHat, openHiHat, crash, ride]

def pitch : Drum → UInt8
  | bell => 71
  | bassDrum => 36
  | snare => 38
  | closedHiHat => 42
  | openHiHat => 46
  | crash => 49
  | ride => 51

def name : Drum → String
  | bell => "Bell"
  | bassDrum => "BassDrum"
  | snare => "Snare"
  | closedHiHat => "ClosedHiHat"
  | openHiHat => "OpenHiHat"
  | crash => "Crash"
  | ride => "Ride"

def spellings : List (String × Drum) :=
  [("B", bell), ("BD", bassDrum), ("SD", snare), ("CH", closedHiHat), ("OH", openHiHat),
   ("CC", crash), ("RC", ride)]

def ofSymbol (s : String) : Except UnknownSymbol Drum :=
  SymbolKind.drum.find Text.foldUpper spellings s

end Drum
end Sequencer
