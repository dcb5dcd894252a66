import Mathlib.Tactic
import Sequencer.Proofs.Score.Decoding
import Sequencer.Request

/-! # Requests as texts

A request that is written as text is answered as if it had been given as it is: the text of the
score and its options reaches the compiler unchanged, in whichever order its members stand.
-/

namespace Sequencer

open Json Json.Decoder

namespace Request

/-- Members, in any order, that state a score and options. Options that are left out have their
defaults, all of them if no member states any. -/
inductive States (score : Score) : List (String × Value) → Options → Prop
  | score {members : List (String × Value)} (hmembers : members.Perm score.toJson.members) :
    States score members {}
  | options {members stated : List (String × Value)} {options : Options}
    (hstated : Options.Stated stated options)
    (hmembers : members.Perm (("options", .object stated) :: score.toJson.members)) :
    States score members options

theorem score_member_ne_options (score : Score) :
    ∀ member ∈ score.toJson.members, member.1 ≠ "options" := by
  simp [Score.toJson, Value.members]

/-- The options are read where they stand, and the members of the score are put aside. -/
theorem States.exists_gather {score : Score} {members : List (String × Value)} {options : Options}
    (h : States score members options) {inner : Mode} (hinner : inner.Allows 6) :
    ∃ found others,
      gather "options" (Options.decoder inner) inner (Value.memberTrees members) none =
        .ok (found, Value.memberTrees others) ∧
      found.getD {} = options ∧ others.Perm score.toJson.members := by
  have hother := score_member_ne_options score
  have hkept := score.toJson_members_kept
  cases h with
  | score hmembers =>
    refine ⟨none, members, gather_others hinner ?_ ?_ none, rfl, hmembers⟩
    · exact fun member hmem => hother member (hmembers.subset hmem)
    · exact fun member hmem => hkept member (hmembers.subset hmem)
  | options hstated hmembers =>
    obtain ⟨before, after, rfl⟩ := List.append_of_mem (hmembers.mem_iff.mpr List.mem_cons_self)
    have hothers : (before ++ after).Perm score.toJson.members :=
      (List.perm_middle.symm.trans hmembers).cons_inv
    have hread := Options.decoder_reads hstated inner (hinner.mono (by decide))
    have hgather := gather_member before hinner
      (fun member hmem => hother member (hothers.subset hmem))
      (fun member hmem => hkept member (hothers.subset hmem)) hread
    exact ⟨some options, before ++ after, hgather, rfl, hothers⟩

theorem decoder_reads {score : Score} {members : List (String × Value)} {options : Options}
    (h : States score members options) : decoder.Reads 7 (.object members) ⟨score, options⟩ := by
  intro mode hmode
  obtain ⟨inner, henter, hinner⟩ := hmode.exists_enter
  obtain ⟨found, others, hgather, hoptions, hothers⟩ := h.exists_gather hinner
  have hscore : Score.decoder .buffered (.object (Value.memberTrees others) .closed) = .ok score :=
    Score.decoder_reads hothers .buffered trivial
  rw [Value.tree, decoder, henter]
  simp only [bind, Except.bind, hgather, Ending.check, Ending.isClosed, if_true, hscore, hoptions]
  rfl

theorem ofText_render {score : Score} {members : List (String × Value)} {options : Options}
    (h : States score members options) (style : Style) :
    ofText ((Value.object members).render style) = .ok ⟨score, options⟩ := by
  rw [ofText, run_render (decoder_reads h) (by decide)]
  rfl

end Request

/-- The text of a score and its options is answered as the score and the options themselves. -/
theorem compileText_render {score : Score} {members : List (String × Value)} {options : Options}
    (h : Request.States score members options) (style : Style) :
    compileText ((Value.object members).render style) =
        ((score.compile options).mapError .compile).map Timeline.text ∧
      compileTextToMidi ((Value.object members).render style) = score.compileToMidi options := by
  constructor
  · rw [compileText, Request.ofText_render h]
    change (((score.compile options).mapError RequestError.compile).bind
      fun timeline => .ok timeline.text) = _
    cases score.compile options <;> rfl
  · rw [compileTextToMidi, Request.ofText_render h]
    rfl

/-- Options between the tracks and the title, of which one is left out, and a title with
characters that are escaped; then a score that is rejected. -/
theorem compileText_render_reordered :
    let text := "\x7b\"tracks\":[\x7b\"name\":null," ++
      "\"instrument\":\x7b\"kind\":\"percussion\"\x7d," ++
      "\"bars\":[\x7b\"name\":null,\"tempo\":90,\"resolution\":1," ++
      "\"notes\":[\x7b\"pitch\":40,\"duration\":\"quarter\"\x7d]\x7d]\x7d]," ++
      "\"options\":\x7b\"note_off\":\"nominal-end\"\x7d,\"title\":\"\\\"ü\\u0000\"\x7d"
    let timeline : Timeline := ⟨1, 120, [⟨0, none, 9, .percussion,
      [⟨1, 9, .tempoChange 90⟩, ⟨1, 9, .noteOn 40 60⟩, ⟨5, 9, .noteOff 40 60⟩], 6⟩]⟩
    compileText text = .ok timeline.text ∧
      compileTextToMidi text = .ok [77, 84, 104, 100, 0, 0, 0, 6, 0, 1, 0, 1, 0, 1,
        77, 84, 114, 107, 0, 0, 0, 37, 0, 255, 3, 7, 84, 114, 97, 99, 107, 32, 49,
        0, 255, 81, 3, 7, 161, 32, 1, 255, 81, 3, 10, 44, 42, 0, 153, 40, 60, 4, 137, 40, 60,
        0, 255, 47, 0] ∧
      compileText "\x7b\"title\":null,\"tracks\":[]\x7d" =
        .error (.compile (.emptyScore .noTracks)) := by
  intro text timeline
  let track : Track := ⟨none, .percussion, [⟨none, 90, 1, [⟨some 40, .quarter⟩]⟩]⟩
  let score : Score := ⟨some "\"ü\x00", [track]⟩
  let tracks : String × Value := ("tracks", .array [track.toJson])
  let options : String × Value := ("options", .object [("note_off", NoteOff.nominalEnd.toJson)])
  let title : String × Value := ("title", .string "\"ü\x00")
  have hstates : Request.States score [tracks, options, title] { noteOff := .nominalEnd } := by
    refine .options (.noteOff .nominalEnd) ?_
    exact (List.Perm.swap options tracks [title]).trans (.cons options (.swap title tracks []))
  have htext : (Value.object [tracks, options, title]).render .compact = text := by
    decide +kernel
  have hcompile : score.compile { noteOff := .nominalEnd } = .ok timeline := by
    decide +kernel
  have hsorted : sortByTick [⟨1, 9, .tempoChange 90⟩, ⟨1, 9, .noteOn 40 60⟩,
      ⟨5, 9, .noteOff 40 60⟩] = [⟨1, 9, .tempoChange 90⟩, ⟨1, 9, .noteOn 40 60⟩,
      ⟨5, 9, .noteOff 40 60⟩] := by
    cbv
  have hfile : Midi.file {} timeline = .ok [77, 84, 104, 100, 0, 0, 0, 6, 0, 1, 0, 1, 0, 1,
      77, 84, 114, 107, 0, 0, 0, 37, 0, 255, 3, 7, 84, 114, 97, 99, 107, 32, 49,
      0, 255, 81, 3, 7, 161, 32, 1, 255, 81, 3, 10, 44, 42, 0, 153, 40, 60, 4, 137, 40, 60,
      0, 255, 47, 0] := by
    simp only [Midi.file, Midi.trackChunks, Midi.trackContents, timeline, hsorted]
    decide +kernel
  obtain ⟨hanswer, hmidi⟩ := compileText_render hstates .compact
  rw [htext, hcompile] at hanswer
  rw [htext, Score.compileToMidi, hcompile] at hmidi
  have hempty : Request.States .empty Score.empty.toJson.members {} := .score (List.Perm.refl _)
  have hrejected := (compileText_render hempty .compact).1
  have hplain : (Value.object Score.empty.toJson.members).render .compact =
      "\x7b\"title\":null,\"tracks\":[]\x7d" := by
    decide +kernel
  rw [hplain] at hrejected
  exact ⟨hanswer, hmidi.trans (congrArg (Except.mapError RequestError.midi) hfile), hrejected⟩

end Sequencer
