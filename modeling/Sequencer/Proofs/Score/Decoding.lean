import Mathlib.Data.List.Permutation
import Mathlib.Tactic
import Sequencer.Proofs.Json.Decoding
import Sequencer.Score.Json

/-! # Scores read back

Every part of a score is read back from the value that it is written as. Notes are nested one
level deep, and each part one or two levels deeper than its own parts.
-/

namespace Sequencer

open Json Json.Decoder Json.RecordField

theorem Duration.decoder_reads (duration : Duration) {depth : Nat} :
    decoder.Reads depth duration.toJson duration :=
  choice_reads (by cases duration <;> rfl)

theorem Drum.decoder_reads (piece : Drum) {depth : Nat} : decoder.Reads depth piece.toJson piece :=
  choice_reads (by cases piece <;> rfl)

theorem InstrumentClass.decoder_reads (kind : InstrumentClass) {depth : Nat} :
    decoder.Reads depth kind.toJson kind :=
  choice_reads (by cases kind <;> rfl)

theorem NoteOff.decoder_reads (placement : NoteOff) {depth : Nat} :
    decoder.Reads depth placement.toJson placement :=
  choice_reads (by cases placement <;> rfl)

theorem Note.decoder_reads (note : Note) : decoder.Reads 1 note.toJson note := by
  refine record_reads ["pitch", "duration"] rfl (by decide) (by decide)
    (.cons ⟨_, rfl, omissible_loads (nullable_reads byte_reads (fun _ => nofun) note.pitch) _ _⟩
      (.cons ⟨_, rfl, required_loads note.duration.decoder_reads _ _⟩ .nil)) ?_ _
  rfl

theorem Bar.decoder_reads (bar : Bar) : decoder.Reads 3 bar.toJson bar := by
  have hnotes := list_reads fun note (_ : note ∈ bar.notes) => note.decoder_reads
  refine record_reads ["name", "tempo", "resolution", "notes"] rfl (by decide) (by decide)
    (.cons ⟨_, rfl, defaulted_loads (text_reads bar.name) _ _⟩
      (.cons ⟨_, rfl, required_loads (word_reads bar.tempo) _ _⟩
        (.cons ⟨_, rfl, required_loads (word_reads bar.resolution) _ _⟩
          (.cons ⟨_, rfl, required_loads hnotes _ _⟩ .nil)))) ?_ _
  rfl

theorem Instrument.decoder_reads (instrument : Instrument) :
    decoder.Reads 1 instrument.toJson instrument := by
  cases instrument with
  | melodic program =>
    have hread : (record "struct variant Instrument::Melodic" melodicFields .percussion).Reads 1
        (.object [("program", .number program.toNat)]) (.melodic program) := by
      refine record_reads ["program"] rfl (by decide) (by decide)
        (.cons ⟨_, rfl, required_loads (byte_reads program) _ _⟩ .nil) ?_ _
      rfl
    exact tagged_reads rfl (by simp) (by simp [Value.kept_byte]) (hread .buffered trivial) _
  | percussion => exact tagged_reads rfl (by simp) (by simp [Value.kept_byte]) rfl _

theorem Track.decoder_reads (track : Track) : decoder.Reads 5 track.toJson track := by
  have hinstrument := track.instrument.decoder_reads.mono (by decide : 1 ≤ 4)
  have hbars := list_reads fun bar (_ : bar ∈ track.bars) => bar.decoder_reads
  refine record_reads ["name", "instrument", "bars"] rfl (by decide) (by decide)
    (.cons ⟨_, rfl, defaulted_loads (text_reads track.name) _ _⟩
      (.cons ⟨_, rfl, required_loads hinstrument _ _⟩
        (.cons ⟨_, rfl, required_loads hbars _ _⟩ .nil))) ?_ _
  rfl

/-- A score is read whichever of its members comes first. -/
theorem Score.decoder_reads {score : Score} {members : List (String × Value)}
    (h : members.Perm score.toJson.members) : decoder.Reads 7 (.object members) score := by
  have htracks := list_reads fun track (_ : track ∈ score.tracks) => track.decoder_reads
  rcases List.perm_pair.mp h with rfl | rfl
  · refine record_reads ["title", "tracks"] rfl (by decide) (by decide)
      (.cons ⟨_, rfl, defaulted_loads (text_reads score.title) _ _⟩
        (.cons ⟨_, rfl, required_loads htracks _ _⟩ .nil)) ?_ _
    rfl
  · refine record_reads ["tracks", "title"] rfl (by decide) (by decide)
      (.cons ⟨_, rfl, required_loads htracks _ _⟩
        (.cons ⟨_, rfl, defaulted_loads (text_reads score.title) _ _⟩ .nil)) ?_ _
    rfl

/-- Members that state options; what they leave out has its default. -/
inductive Options.Stated : List (String × Value) → Options → Prop
  | whole (options : Options) : Stated options.toJson.members options
  | initialTempo (bpm : UInt32) :
    Stated [("initial_tempo", .number bpm.toNat)] { initialTempo := bpm }
  | noteOff (placement : NoteOff) :
    Stated [("note_off", placement.toJson)] { noteOff := placement }

theorem Options.decoder_reads {members : List (String × Value)} {options : Options}
    (h : Stated members options) : decoder.Reads 1 (.object members) options := by
  cases h with
  | whole =>
    refine record_reads ["initial_tempo", "note_off"] rfl (by decide) (by decide)
      (.cons ⟨_, rfl, defaulted_loads (word_reads options.initialTempo) _ _⟩
        (.cons ⟨_, rfl, defaulted_loads options.noteOff.decoder_reads _ _⟩ .nil)) ?_ _
    rfl
  | initialTempo bpm =>
    refine record_reads ["initial_tempo"] rfl (by decide) (by decide)
      (.cons ⟨_, rfl, defaulted_loads (word_reads bpm) _ _⟩ .nil) ?_ _
    rfl
  | noteOff placement =>
    refine record_reads ["note_off"] rfl (by decide) (by decide)
      (.cons ⟨_, rfl, defaulted_loads placement.decoder_reads _ _⟩ .nil) ?_ _
    rfl

theorem Note.toJson_kept (note : Note) : note.toJson.Kept 1 := by
  have hpitch : (note.pitch.elim Value.null fun pitch => .number pitch.toNat).Kept 0 := by
    cases note.pitch with
    | none => exact Value.kept_null
    | some pitch => exact Value.kept_byte pitch
  apply Value.kept_object
  simp [hpitch, Duration.toJson, Value.kept_string]

theorem Bar.toJson_kept (bar : Bar) : bar.toJson.Kept 3 := by
  have hnotes : (Value.array (bar.notes.map Note.toJson)).Kept 2 := by
    apply Value.kept_array
    simpa using fun note _ => note.toJson_kept
  apply Value.kept_object
  simp [hnotes, Value.kept_ofOption, Value.kept_word]

theorem Instrument.toJson_kept (instrument : Instrument) : instrument.toJson.Kept 1 := by
  apply Value.kept_object
  simp [InstrumentClass.toJson, Value.kept_string, Value.kept_byte]

theorem Track.toJson_kept (track : Track) : track.toJson.Kept 5 := by
  have hinstrument := track.instrument.toJson_kept.mono (by decide : 1 ≤ 4)
  have hbars : (Value.array (track.bars.map Bar.toJson)).Kept 4 := by
    apply Value.kept_array
    simpa using fun bar _ => bar.toJson_kept
  apply Value.kept_object
  simp [hbars, hinstrument, Value.kept_ofOption]

theorem Score.toJson_members_kept (score : Score) :
    ∀ member ∈ score.toJson.members, member.2.Kept 6 := by
  have htracks : (Value.array (score.tracks.map Track.toJson)).Kept 6 := by
    apply Value.kept_array
    simpa using fun track _ => track.toJson_kept
  simp [toJson, Value.members, htracks, Value.kept_ofOption]

end Sequencer
