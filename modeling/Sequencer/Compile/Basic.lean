import Sequencer.Channels
import Sequencer.Compile.Walk

/-! # Compiling a score

A score is checked as a whole first, then walked track by track. The first fault
found rejects the score, and nothing of its timeline remains.
-/

namespace Sequencer

/-- Marks the program of a melodic track at the cursor, which is still at its first tick. -/
def Walk.start (walk : Walk) (trackIndex : Nat) (instrument : Instrument) :
    Except CompileError Walk :=
  match instrument.program? with
  | none => .ok walk
  | some program =>
    if Pitch.greatest < program then .error (.invalidProgram trackIndex program)
    else .ok (walk.emit walk.cursor.tick (.programChange program))

def Track.eventsOn (track : Track) (settings : Settings) (index : Nat) (channel : UInt8) :
    Except CompileError TrackEvents := do
  let events := TrackEvents.empty index track.name channel track.instrument.kind
  let started ← Walk.start ⟨.initial settings.options.initialTempo, events⟩ index track.instrument
  match started.bars settings index 0 track.bars with
  | (.error e, _) => .error e
  | (.ok (), walk) => .ok { walk.track with endTick := walk.cursor.tick }

/-- Compiles a track on a channel of its own. A track that fails keeps its channel. -/
def Track.compile (track : Track) (settings : Settings) (index : Nat) (channels : Channels) :
    Except CompileError TrackEvents × Channels :=
  match channels.draw index track.instrument.kind with
  | (.error e, channels) => (.error e, channels)
  | (.ok channel, channels) => (track.eventsOn settings index channel, channels)

/-- Compiles tracks one after another; `index` is the number of the first of them. -/
def compileTracks (settings : Settings) :
    Nat → List Track → Channels → Except CompileError (List TrackEvents)
  | _, [], _ => .ok []
  | index, track :: rest, channels =>
    match track.compile settings index channels with
    | (.error e, _) => .error e
    | (.ok events, channels) => do
      return events :: (← compileTracks settings (index + 1) rest channels)

namespace Score

def checkNotEmpty (score : Score) : Except CompileError Unit :=
  match score.tracks with
  | [] => .error (.emptyScore .noTracks)
  | first :: _ =>
    if first.bars.isEmpty then .error (.emptyScore .noBarsInFirstTrack) else .ok ()

def compile (score : Score) (options : Options) : Except CompileError Timeline := do
  score.checkNotEmpty
  if options.initialTempo = 0 then .error .zeroInitialTempo
  let resolution ← score.globalResolution
  let tracks ← compileTracks ⟨options, resolution⟩ 0 score.tracks .full
  return ⟨resolution, options.initialTempo, tracks⟩

end Score
end Sequencer
