import Sequencer.Compile.Basic
import Sequencer.Midi.File
import Sequencer.Score.Json
import Sequencer.Timeline.Json

/-! # Requests

A request is a JSON object with the fields of a score and, next to them, options. It is
answered with a timeline as JSON text or with the bytes of a MIDI file.
-/

namespace Sequencer

structure Request where
  score : Score
  options : Options
  deriving DecidableEq, Repr, Inhabited

inductive RequestError where
  | json (e : Json.Error)
  | compile (e : CompileError)
  | midi (e : Midi.Error)
  deriving Repr, Inhabited

def RequestError.message? : RequestError → Option String
  | json e => e.message?.map ("JSON error: " ++ ·)
  | compile e => some e.message
  | midi e => some e.message

namespace Request

/-- Options are read where they stand, the score at the end of the object. -/
def decoder : Json.Decoder Request := fun mode tree =>
  match tree with
  | .object members ending => do
    let inner ← mode.enter
    let (options, others) ←
      Json.Decoder.gather "options" (Options.decoder inner) inner members none
    ending.check
    let score ← Score.decoder .buffered (.object others .closed)
    return ⟨score, options.getD {}⟩
  | tree => .error (.mismatch tree.found? "struct CompileRequest")

def ofText (text : String) : Except RequestError Request :=
  (decoder.run text).mapError .json

end Request

def Score.compileToMidi (score : Score) (options : Options) :
    Except RequestError (List UInt8) := do
  let timeline ← (score.compile options).mapError .compile
  (Midi.file {} timeline).mapError .midi

/-- Answers a request with the text of the timeline. -/
def compileText (text : String) : Except RequestError String := do
  let request ← Request.ofText text
  let timeline ← (request.score.compile request.options).mapError .compile
  return timeline.text

def compileTextToMidi (text : String) : Except RequestError (List UInt8) := do
  let request ← Request.ofText text
  request.score.compileToMidi request.options

end Sequencer
