import Sequencer.Proofs.Score.Editing

/-! # Bar lengths under edits

The check of a bar knows of its notes only how long they are together. So it sees an edit by the
sixteenths that the edit puts in and takes out: every edit that changes the length of a full bar is
noticed, and edits whose changes cancel are not.
-/

namespace Sequencer

/-- What the check says of a full bar once it has been edited. -/
structure Bar.Guarded (bar : Bar) (track index : Nat) : Prop where
  push_fails : ∀ note, (bar.push note).checkLength track index ≠ .ok ()
  insert_fails : ∀ position note, (bar.insertNote position note).checkLength track index ≠ .ok ()
  replace_passes_iff : ∀ position note old, bar.notes[position]? = some old →
    ((bar.replaceNote position note).2.checkLength track index = .ok () ↔
      note.duration = old.duration)
  remove_passes_iff : ∀ first last,
    (bar.removeNotes first last).2.checkLength track index = .ok () ↔
      (bar.removeNotes first last).1 = []
  /-- Whole sessions are judged by their balance. -/
  session_passes_iff : ∀ edits, (bar.edited edits).checkLength track index = .ok () ↔
    ((bar.brought edits).map Note.sixteenths).sum = ((bar.returned edits).map Note.sixteenths).sum
  /-- The only error. The length that it reports differs from the required one by what was put in
  less what was taken out. -/
  session_error : ∀ edits e, (bar.edited edits).checkLength track index = .error e → ∃ actual,
    e = .inconsistentBar track index bar.name bar.resolution (4 * bar.resolution.toNat) actual ∧
      actual + ((bar.returned edits).map Note.sixteenths).sum =
        4 * bar.resolution.toNat + ((bar.brought edits).map Note.sixteenths).sum
  /-- One edit does not bring the length to the limit of 64-bit words. -/
  edit_fits : ∀ edit : Edit, (edit.apply bar).totalSixteenths < 2 ^ 64

theorem Duration.sixteenths_injective : Function.Injective sixteenths := by
  intro d e
  cases d <;> cases e <;> decide

theorem sum_sixteenths_eq_zero_iff {notes : List Note} :
    (notes.map Note.sixteenths).sum = 0 ↔ notes = [] := by
  cases notes with
  | nil => simp
  | cons note notes =>
    have := note.sixteenths_pos
    simp only [List.map_cons, List.sum_cons, reduceCtorEq, iff_false]
    omega

theorem Edit.sum_brought_le (edit : Edit) (bar : Bar) :
    ((edit.brought bar).map Note.sixteenths).sum ≤ 16 := by
  cases edit with
  | push note => simpa [brought] using note.sixteenths_le
  | insert position note => simpa [brought] using note.sixteenths_le
  | replace position note =>
    rw [brought]
    split_ifs
    · simpa using note.sixteenths_le
    · simp
  | remove first last => simp [brought]

namespace Bar

variable {bar : Bar} {track index : Nat}

theorem checkLength_eq_ok_iff :
    bar.checkLength track index = .ok () ↔ bar.totalSixteenths = bar.requiredSixteenths := by
  by_cases h : bar.totalSixteenths = bar.requiredSixteenths <;> simp [checkLength, h]

theorem eq_of_checkLength_eq_error {e : CompileError}
    (h : bar.checkLength track index = .error e) :
    e = .inconsistentBar track index bar.name bar.resolution bar.requiredSixteenths
      bar.totalSixteenths := by
  by_cases hlength : bar.totalSixteenths = bar.requiredSixteenths
  · simp [checkLength, hlength] at h
  · simpa [checkLength, hlength, eq_comm] using h

theorem name_edited (bar : Bar) (edits : List Edit) : (bar.edited edits).name = bar.name :=
  (congrArg name (bar.edited_rest edits) :)

theorem resolution_edited (bar : Bar) (edits : List Edit) :
    (bar.edited edits).resolution = bar.resolution :=
  (congrArg resolution (bar.edited_rest edits) :)

theorem eq_of_checkLength_edited {edits : List Edit} {e : CompileError}
    (h : (bar.edited edits).checkLength track index = .error e) :
    e = .inconsistentBar track index bar.name bar.resolution (4 * bar.resolution.toNat)
      (bar.edited edits).totalSixteenths := by
  rw [eq_of_checkLength_eq_error h, requiredSixteenths_eq, name_edited, resolution_edited]

section Full

variable (h : bar.totalSixteenths = bar.requiredSixteenths)

include h

/-- The balance of a session, with the required length of the bar in the place of its own. -/
theorem total_edited (edits : List Edit) :
    (bar.edited edits).totalSixteenths + ((bar.returned edits).map Note.sixteenths).sum =
      4 * bar.resolution.toNat + ((bar.brought edits).map Note.sixteenths).sum := by
  rw [← bar.edited_total, h, requiredSixteenths_eq]

theorem checkLength_edited_iff (edits : List Edit) :
    (bar.edited edits).checkLength track index = .ok () ↔
      ((bar.brought edits).map Note.sixteenths).sum =
        ((bar.returned edits).map Note.sixteenths).sum := by
  have htotal := total_edited h edits
  rw [checkLength_eq_ok_iff, requiredSixteenths_eq, resolution_edited]
  omega

theorem checkLength_apply_iff (edit : Edit) :
    (edit.apply bar).checkLength track index = .ok () ↔
      ((edit.brought bar).map Note.sixteenths).sum =
        ((edit.returned bar).map Note.sixteenths).sum := by
  simpa [edited, brought, returned, outputs] using checkLength_edited_iff h [edit]

/-- A note that nothing gives way to makes the bar too long. -/
theorem checkLength_apply_ne_ok (edit : Edit) {note : Note} (hbrought : edit.brought bar = [note])
    (hreturned : edit.returned bar = []) : (edit.apply bar).checkLength track index ≠ .ok () := by
  have hpos := note.sixteenths_pos
  rw [Ne, checkLength_apply_iff h, hbrought, hreturned]
  simpa using hpos.ne'

theorem totalSixteenths_apply_lt (edit : Edit) : (edit.apply bar).totalSixteenths < 2 ^ 64 := by
  have htotal := total_edited h [edit]
  have hbrought := edit.sum_brought_le bar
  have hresolution := bar.resolution.toNat_lt
  rw [show bar.brought [edit] = edit.brought bar from List.append_nil _] at htotal
  change (edit.apply bar).totalSixteenths + _ = _ at htotal
  omega

end Full

/-- A full bar fails the check after every edit that changes its length, and passes it after all
edits that leave its length in balance, wherever in the score it stands. -/
theorem checkLength_notices_edits (h : bar.checkLength track index = .ok ())
    (atTrack atIndex : Nat) : bar.Guarded atTrack atIndex where
  push_fails note := checkLength_apply_ne_ok (checkLength_eq_ok_iff.mp h) (.push note) rfl rfl
  insert_fails position note :=
    checkLength_apply_ne_ok (checkLength_eq_ok_iff.mp h) (.insert position note) rfl rfl
  replace_passes_iff position note old hold := by
    obtain ⟨hposition, rfl⟩ := List.getElem?_eq_some_iff.mp hold
    change (Edit.replace position note |>.apply bar).checkLength atTrack atIndex = .ok () ↔ _
    rw [checkLength_apply_iff (checkLength_eq_ok_iff.mp h),
      ← Duration.sixteenths_injective.eq_iff]
    simp [Edit.brought, Edit.returned, replaceNote, hposition, Note.sixteenths]
  remove_passes_iff first last := by
    change (Edit.remove first last |>.apply bar).checkLength atTrack atIndex = .ok () ↔ _
    rw [checkLength_apply_iff (checkLength_eq_ok_iff.mp h), ← sum_sixteenths_eq_zero_iff, eq_comm]
    rfl
  session_passes_iff := checkLength_edited_iff (checkLength_eq_ok_iff.mp h)
  session_error edits _ herror :=
    ⟨_, eq_of_checkLength_edited herror, total_edited (checkLength_eq_ok_iff.mp h) edits⟩
  edit_fits := totalSixteenths_apply_lt (checkLength_eq_ok_iff.mp h)

/-- A dotted note in the place of a plain one makes a bar too long, until another note gives way. -/
theorem checkLength_notices_edits_dotted :
    let bar : Bar := ⟨some "intro", 120, 4, [⟨some 60, .half⟩, ⟨some 62, .half⟩]⟩
    let dotted : Bar := (bar.replaceNote 0 ⟨some 60, .dottedHalf⟩).2
    let balanced : Bar :=
      bar.edited [.replace 0 ⟨some 60, .dottedHalf⟩, .replace 1 ⟨some 62, .quarter⟩]
    bar.checkLength 0 0 = .ok () ∧
      dotted.checkLength 2 5 = .error (.inconsistentBar 2 5 (some "intro") 4 16 20) ∧
      dotted.checkLength 2 5 ≠ .ok () ∧ balanced.checkLength 2 5 = .ok () := by
  intro bar dotted balanced
  have hfull : bar.checkLength 0 0 = .ok () := by decide
  have hguarded : bar.Guarded 2 5 := checkLength_notices_edits hfull 2 5
  refine ⟨hfull, by decide, ?_, (hguarded.session_passes_iff _).mpr (by decide)⟩
  rw [Ne, hguarded.replace_passes_iff 0 _ ⟨some 60, .half⟩ rfl]
  decide

end Bar
end Sequencer
