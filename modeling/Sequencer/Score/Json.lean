import Sequencer.Json.Decoder
import Sequencer.Json.Value
import Sequencer.Score.Basic

/-! # Scores in JSON

How scores, their parts and options are written as JSON values and read back. Records are
written as objects with all their fields; a choice without contents is written by name.
-/

namespace Sequencer

open Json (Decoder RecordField Value)

/-- The values of a choice with the names that stand for them. -/
def withNames {α : Type} (name : α → String) (all : List α) : List (String × α) :=
  all.map fun a => (name a, a)

namespace Duration

def toJson (duration : Duration) : Value :=
  .string duration.name

def decoder : Decoder Duration :=
  .choice (withNames name all)

end Duration

namespace Drum

def toJson (piece : Drum) : Value :=
  .string piece.name

def decoder : Decoder Drum :=
  .choice (withNames name all)

end Drum

namespace InstrumentClass

def toJson (kind : InstrumentClass) : Value :=
  .string kind.name

def decoder : Decoder InstrumentClass :=
  .choice (withNames name all)

end InstrumentClass

namespace NoteOff

def toJson (placement : NoteOff) : Value :=
  .string placement.name

def decoder : Decoder NoteOff :=
  .choice (withNames name all)

end NoteOff

namespace Options

def toJson (options : Options) : Value :=
  .object [("initial_tempo", .number options.initialTempo.toNat),
    ("note_off", options.noteOff.toJson)]

def fields : List (RecordField Options) :=
  [.defaulted "initial_tempo" .word fun tempo options => { options with initialTempo := tempo },
   .defaulted "note_off" NoteOff.decoder fun off options => { options with noteOff := off }]

def decoder : Decoder Options :=
  .record "struct CompilerOptions" fields {}

end Options

namespace Note

def toJson (note : Note) : Value :=
  .object [("pitch", note.pitch.elim .null fun pitch => .number pitch.toNat),
    ("duration", note.duration.toJson)]

def fields : List (RecordField Note) :=
  [.omissible "pitch" (.nullable .byte) fun pitch note => { note with pitch },
   .required "duration" Duration.decoder fun duration note => { note with duration }]

def decoder : Decoder Note :=
  .record "struct Note" fields (rest .quarter)

end Note

namespace Bar

def toJson (bar : Bar) : Value :=
  .object [("name", .ofOption bar.name), ("tempo", .number bar.tempo.toNat),
    ("resolution", .number bar.resolution.toNat), ("notes", .array (bar.notes.map Note.toJson))]

def fields : List (RecordField Bar) :=
  [.defaulted "name" (.nullable .string) fun name bar => { bar with name },
   .required "tempo" .word fun tempo bar => { bar with tempo },
   .required "resolution" .word fun resolution bar => { bar with resolution },
   .required "notes" (.list Note.decoder) fun notes bar => { bar with notes }]

def decoder : Decoder Bar :=
  .record "struct Bar" fields (ofNotes 0 0 [])

end Bar

namespace Instrument

/-- An object that names its class first. -/
def toJson (instrument : Instrument) : Value :=
  .object (("kind", instrument.kind.toJson) ::
    instrument.program?.toList.map fun program => ("program", .number program.toNat))

def melodicFields : List (RecordField Instrument) :=
  [.required "program" .byte fun program _ => .melodic program]

/-- A percussion instrument has no contents: fields are passed over, items are not. -/
def percussionDecoder : Decoder Instrument := fun _ tree =>
  match tree with
  | .array (item :: items) _ =>
    .error (.invalidLength (item :: items).length (Json.elements 0 ++ " in sequence"))
  | _ => .ok .percussion

def decoder : Decoder Instrument :=
  .tagged "internally tagged enum Instrument" "kind"
    [(InstrumentClass.melodic.name,
        .record "struct variant Instrument::Melodic" melodicFields .percussion),
     (InstrumentClass.percussion.name, percussionDecoder)]

end Instrument

namespace Track

def toJson (track : Track) : Value :=
  .object [("name", .ofOption track.name), ("instrument", track.instrument.toJson),
    ("bars", .array (track.bars.map Bar.toJson))]

def fields : List (RecordField Track) :=
  [.defaulted "name" (.nullable .string) fun name track => { track with name },
   .required "instrument" Instrument.decoder fun instrument track => { track with instrument },
   .required "bars" (.list Bar.decoder) fun bars track => { track with bars }]

def decoder : Decoder Track :=
  .record "struct Track" fields (ofBars .percussion [])

end Track

namespace Score

def toJson (score : Score) : Value :=
  .object [("title", .ofOption score.title), ("tracks", .array (score.tracks.map Track.toJson))]

def fields : List (RecordField Score) :=
  [.defaulted "title" (.nullable .string) fun title score => { score with title },
   .required "tracks" (.list Track.decoder) fun tracks score => { score with tracks }]

def decoder : Decoder Score :=
  .record "struct Score" fields empty

end Score
end Sequencer
