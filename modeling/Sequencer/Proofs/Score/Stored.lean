import Sequencer.Proofs.Score.Decoding

/-! # Stored values

Whatever can be stored as a text is read back from it as it was, in either style and with any
characters in its names. A text that somebody else wrote may spell the same value in another way;
once it has been read and written anew, doing so again makes no difference.
-/

namespace Sequencer

namespace Json.Decoder

variable {α : Type} {decoder : Decoder α} {toJson : α → Value}

/-- Reads a text and writes the value that it stands for. -/
def rewrite (decoder : Decoder α) (toJson : α → Value) (style : Style) (text : String) :
    Except Error String :=
  (decoder.run text).map fun a => (toJson a).render style

/-- The decoder reads what is written, and a text that has been rewritten stands for the same value
as before. -/
structure Inverts (decoder : Decoder α) (toJson : α → Value) : Prop where
  run_render (style : Style) (a : α) : decoder.run ((toJson a).render style) = .ok a
  rewrite_rewrite (first second : Style) (text : String) :
    (decoder.rewrite toJson first text).bind (decoder.rewrite toJson second) =
      decoder.rewrite toJson second text

theorem inverts_of_reads {depth : Nat} (h : ∀ a, decoder.Reads depth (toJson a) a)
    (hdepth : depth ≤ greatestDepth) : decoder.Inverts toJson := by
  have hrun : ∀ (style : Style) (a : α), decoder.run ((toJson a).render style) = .ok a :=
    fun style a => Decoder.run_render (h a) hdepth style
  constructor
  · exact hrun
  · intro first second text
    cases hread : decoder.run text with
    | error e => simp [rewrite, hread, Except.map, Except.bind]
    | ok a => simp [rewrite, hread, Except.map, Except.bind, hrun]

end Json.Decoder

open Json Json.Decoder in
/-- Scores and their parts, options and drums are read back from the texts that they are stored as,
whatever their names, numbers and lengths. -/
theorem stored_values_read_back :
    Score.decoder.Inverts Score.toJson ∧ Track.decoder.Inverts Track.toJson ∧
      Instrument.decoder.Inverts Instrument.toJson ∧
      InstrumentClass.decoder.Inverts InstrumentClass.toJson ∧ Bar.decoder.Inverts Bar.toJson ∧
      Note.decoder.Inverts Note.toJson ∧ Duration.decoder.Inverts Duration.toJson ∧
      Drum.decoder.Inverts Drum.toJson ∧ Options.decoder.Inverts Options.toJson ∧
      NoteOff.decoder.Inverts NoteOff.toJson := by
  have hscore : Score.decoder.Inverts Score.toJson :=
    inverts_of_reads (fun score => Score.decoder_reads (List.Perm.refl score.toJson.members))
      (by decide)
  have htrack : Track.decoder.Inverts Track.toJson :=
    inverts_of_reads (fun track => track.decoder_reads) (by decide)
  have hinstrument : Instrument.decoder.Inverts Instrument.toJson :=
    inverts_of_reads (fun instrument => instrument.decoder_reads) (by decide)
  have hclass : InstrumentClass.decoder.Inverts InstrumentClass.toJson :=
    inverts_of_reads (fun kind => kind.decoder_reads) (Nat.zero_le greatestDepth)
  have hbar : Bar.decoder.Inverts Bar.toJson :=
    inverts_of_reads (fun bar => bar.decoder_reads) (by decide)
  have hnote : Note.decoder.Inverts Note.toJson :=
    inverts_of_reads (fun note => note.decoder_reads) (by decide)
  have hduration : Duration.decoder.Inverts Duration.toJson :=
    inverts_of_reads (fun duration => duration.decoder_reads) (Nat.zero_le greatestDepth)
  have hdrum : Drum.decoder.Inverts Drum.toJson :=
    inverts_of_reads (fun piece => piece.decoder_reads) (Nat.zero_le greatestDepth)
  have hoptions : Options.decoder.Inverts Options.toJson :=
    inverts_of_reads (fun options => Options.decoder_reads (.whole options)) (by decide)
  have hplacement : NoteOff.decoder.Inverts NoteOff.toJson :=
    inverts_of_reads (fun placement => placement.decoder_reads) (Nat.zero_le greatestDepth)
  exact ⟨hscore, htrack, hinstrument, hclass, hbar, hnote, hduration, hdrum, hoptions, hplacement⟩

end Sequencer
