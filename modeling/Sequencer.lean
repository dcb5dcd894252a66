import Sequencer.Boundary
import Sequencer.Midi.Buffer
import Sequencer.Score.Edit
import Sequencer.Proofs.Compile.Arrival
import Sequencer.Proofs.Compile.ClosedForm
import Sequencer.Proofs.Compile.Drawing
import Sequencer.Proofs.Midi.RoundTrip
import Sequencer.Proofs.Timeline.Balance
import Sequencer.Proofs.Compile.Playback
import Sequencer.Proofs.Midi.Acceptance
import Sequencer.Proofs.Json.Reading
import Sequencer.Proofs.Json.Decoding
import Sequencer.Proofs.Score.Decoding
import Sequencer.Proofs.Request
import Sequencer.Proofs.Compile.Guarantees
import Sequencer.Proofs.Compile.Merging
import Sequencer.Proofs.Compile.Placement
import Sequencer.Proofs.Compile.Tempo
import Sequencer.Proofs.Compile.Isolation
import Sequencer.Proofs.Compile.Words
import Sequencer.Proofs.Score.Stored
import Sequencer.Proofs.Boundary
import Sequencer.Proofs.Score.GlobalResolution
import Sequencer.Proofs.Json.Exact
import Sequencer.Proofs.Timeline.Reading
import Sequencer.Proofs.Compile.Monophony
import Sequencer.Proofs.Compile.Failure
import Sequencer.Proofs.Score.Editing
import Sequencer.Proofs.Midi.Framing
import Sequencer.Proofs.Compile.Sounding
import Sequencer.Proofs.Compile.CommonTempo
import Sequencer.Proofs.Score.BarLength
import Sequencer.Proofs.Pitch
import Sequencer.Proofs.Symbol
