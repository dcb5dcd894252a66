import Sequencer.Proofs.Compile.ClosedForm

/-! # What a bar leaves behind

A bar is walked in three steps, and each of them can fail: its tempo is looked at, its length is
checked once it has been entered, and its notes are passed over one by one. What was done before a
step that fails stays, and nothing else does.
-/

namespace Sequencer

namespace Walk

/-- The walk as it enters a bar: the cursor stays at its tick, and a new tempo is marked there
behind the events up to that tick. -/
def entered (walk : Walk) (bar : Bar) : Walk where
  cursor := ⟨walk.cursor.tick, bar.tempo, bar.resolution⟩
  track := { walk.track with
    events := if bar.tempo = walk.cursor.tempo then walk.track.events
      else sortByTick
        (walk.track.events ++ [⟨walk.cursor.tick, walk.track.channel, .tempoChange bar.tempo⟩]) }

/-- The walk over all of the given notes of a bar that it has entered. -/
def passed (settings : Settings) (bar : Bar) (walk : Walk) (notes : List Note) : Walk :=
  notes.foldl (Walk.note settings.options.noteOff
    (tickMultiplier settings.resolution bar.resolution)) (walk.entered bar)

end Walk

/-- What a bar is answered and which walk it leaves: the walk up to the step that fails. -/
inductive Bar.Leaves (settings : Settings) (trackIndex barIndex : Nat) (bar : Bar) (walk : Walk) :
    Except CompileError Unit → Walk → Prop
  | zeroTempo (htempo : bar.tempo = 0) :
    Leaves settings trackIndex barIndex bar walk (.error (.zeroTempo trackIndex barIndex)) walk
  | inconsistent (htempo : bar.tempo ≠ 0)
      (hlength : (bar.notes.map Note.sixteenths).sum ≠ 4 * bar.resolution.toNat) :
    Leaves settings trackIndex barIndex bar walk
      (.error (.inconsistentBar trackIndex barIndex bar.name bar.resolution
        (4 * bar.resolution.toNat) (bar.notes.map Note.sixteenths).sum))
      (walk.entered bar)
  | invalidPitch {k : Nat} {note : Note} {pitch : UInt8} (htempo : bar.tempo ≠ 0)
      (hlength : (bar.notes.map Note.sixteenths).sum = 4 * bar.resolution.toNat)
      (hnote : bar.notes[k]? = some note) (hpitch : note.pitch = some pitch) (hlarge : 127 < pitch)
      (hfirst : ∀ earlier ∈ bar.notes.take k, earlier.InRange) :
    Leaves settings trackIndex barIndex bar walk
      (.error (.invalidPitch trackIndex barIndex k pitch))
      (walk.passed settings bar (bar.notes.take k))
  | passed (htempo : bar.tempo ≠ 0)
      (hlength : (bar.notes.map Note.sixteenths).sum = 4 * bar.resolution.toNat)
      (hpitches : ∀ note ∈ bar.notes, note.InRange) :
    Leaves settings trackIndex barIndex bar walk (.ok ()) (walk.passed settings bar bar.notes)

namespace Walk

variable {settings : Settings} {trackIndex barIndex : Nat} {bar : Bar} {walk : Walk}

theorem enter_eq_entered (h : InTickOrder walk.track.events) :
    walk.enter bar = walk.entered bar := by
  rw [enter_eq, entered, Bar.tempoEmissions]
  split_ifs
  · rfl
  · rw [TrackEvents.insertAll_eq, TrackEvents.insertAll_events _ _ h]
    rfl

theorem notes_append (placement : NoteOff) (multiplier index : Nat) {notes : List Note}
    (rest : List Note) (walk : Walk) (h : ∀ note ∈ notes, note.InRange) :
    walk.notes placement multiplier trackIndex barIndex index (notes ++ rest) =
      (notes.foldl (Walk.note placement multiplier) walk).notes placement multiplier trackIndex
        barIndex (index + notes.length) rest := by
  induction notes generalizing index walk with
  | nil => rfl
  | cons note notes ih =>
    rcases List.forall_mem_cons.mp h with ⟨hnote, hnotes⟩
    rw [List.cons_append, Walk.notes, Note.invalidPitch?_eq_none_iff.mpr hnote]
    simp only
    rw [ih (index + 1) (walk.note placement multiplier note) hnotes, List.foldl_cons,
      List.length_cons, Nat.add_assoc, Nat.add_comm 1]

/-- A bar of the right length comes to its note of number `k`, unless it fails before. -/
theorem bar_eq_notes_drop (htempo : bar.tempo ≠ 0)
    (hlength : (bar.notes.map Note.sixteenths).sum = 4 * bar.resolution.toNat)
    (hordered : InTickOrder walk.track.events) {k : Nat} (hk : k ≤ bar.notes.length)
    (hfirst : ∀ note ∈ bar.notes.take k, note.InRange) :
    walk.bar settings trackIndex barIndex bar =
      (walk.passed settings bar (bar.notes.take k)).notes settings.options.noteOff
        (tickMultiplier settings.resolution bar.resolution) trackIndex barIndex k
        (bar.notes.drop k) := by
  rw [← bar.totalSixteenths_eq, ← bar.requiredSixteenths_eq] at hlength
  rw [Walk.bar, if_neg htempo, Bar.checkLength, if_pos hlength, enter_eq_entered hordered]
  simp only
  conv_lhs => rw [← List.take_append_drop k bar.notes]
  rw [notes_append _ _ _ _ _ hfirst, List.length_take_of_le hk, Nat.zero_add, passed]

end Walk

namespace Bar

variable {settings : Settings} {trackIndex barIndex : Nat} {bar : Bar} {walk next : Walk}
  {result : Except CompileError Unit}

theorem Leaves.bar_eq (hordered : InTickOrder walk.track.events)
    (h : bar.Leaves settings trackIndex barIndex walk result next) :
    walk.bar settings trackIndex barIndex bar = (result, next) := by
  cases h with
  | zeroTempo htempo => rw [Walk.bar, if_pos htempo]
  | inconsistent htempo hlength =>
    rw [← bar.totalSixteenths_eq, ← bar.requiredSixteenths_eq] at hlength ⊢
    rw [Walk.bar, if_neg htempo, checkLength, if_neg hlength, Walk.enter_eq_entered hordered]
  | invalidPitch htempo hlength hnote hpitch hlarge hfirst =>
    have hinvalid := Note.invalidPitch?_eq_some_iff.mpr ⟨hpitch, hlarge⟩
    obtain ⟨hk, rfl⟩ := List.getElem?_eq_some_iff.mp hnote
    rw [Walk.bar_eq_notes_drop htempo hlength hordered hk.le hfirst, List.drop_eq_getElem_cons hk,
      Walk.notes, hinvalid]
  | passed htempo hlength hpitches =>
    rw [← List.take_length (l := bar.notes)] at hpitches
    rw [Walk.bar_eq_notes_drop htempo hlength hordered le_rfl hpitches, List.drop_length,
      List.take_length, Walk.notes]

theorem exists_leaves (settings : Settings) (trackIndex barIndex : Nat) (bar : Bar) (walk : Walk) :
    ∃ result next, bar.Leaves settings trackIndex barIndex walk result next := by
  by_cases htempo : bar.tempo = 0
  · exact ⟨_, _, .zeroTempo htempo⟩
  by_cases hlength : (bar.notes.map Note.sixteenths).sum = 4 * bar.resolution.toNat
  · cases hfirst : bar.notes.findIdx? fun note => note.invalidPitch?.isSome with
    | none =>
      rw [List.findIdx?_eq_none_iff] at hfirst
      refine ⟨_, _, .passed htempo hlength fun note hnote => ?_⟩
      have hnone := Option.isSome_eq_false_iff.mp (hfirst note hnote)
      exact Note.invalidPitch?_eq_none_iff.mp (Option.isNone_iff_eq_none.mp hnone)
    | some k =>
      obtain ⟨hk, hinvalid, hbefore⟩ := List.findIdx?_eq_some_iff_getElem.mp hfirst
      obtain ⟨pitch, hpitch⟩ := Option.isSome_iff_exists.mp hinvalid
      obtain ⟨hpitch, hlarge⟩ := Note.invalidPitch?_eq_some_iff.mp hpitch
      refine ⟨_, _, .invalidPitch htempo hlength (List.getElem?_eq_getElem hk) hpitch hlarge ?_⟩
      intro note hnote
      obtain ⟨j, hj, rfl⟩ := List.mem_take_iff_getElem.mp hnote
      exact Note.invalidPitch?_eq_none_iff.mp
        (Option.not_isSome_iff_eq_none.mp (hbefore j (lt_min_iff.mp hj).1))
  · exact ⟨_, _, .inconsistent htempo hlength⟩

/-- A bar without a fault, of a resolution that divides the global one, takes its full time. -/
theorem cursor_eq_of_ok (hfit : bar.checkLength trackIndex barIndex = .ok () →
      0 < bar.resolution.toNat ∧ bar.resolution.toNat ∣ settings.resolution.toNat)
    (h : (walk.bar settings trackIndex barIndex bar).1 = .ok ()) :
    (walk.bar settings trackIndex barIndex bar).2.cursor =
      ⟨walk.cursor.tick + 4 * settings.resolution.toNat + bar.notes.length, bar.tempo,
        bar.resolution⟩ := by
  rw [Walk.bar_fst, verdict_eq_ok_iff, violations_eq_nil_iff] at h
  have hlength : bar.checkLength trackIndex barIndex = .ok () := by
    rw [checkLength, bar.totalSixteenths_eq, bar.requiredSixteenths_eq, if_pos h.sixteenths_eq]
  have hfitting : bar.Fitting settings.resolution := ⟨h, (hfit hlength).1, (hfit hlength).2⟩
  rw [Walk.bar_snd, ← hfitting.pass_tick, h.pass_eq]

end Bar

theorem Track.compile_snd (track : Track) (settings : Settings) (index : Nat)
    (channels : Channels) :
    (track.compile settings index channels).2 =
      (channels.draw index track.instrument.kind).2 := by
  rw [compile]
  rcases channels.draw index track.instrument.kind with ⟨_ | channel, left⟩ <;> rfl

/-- A bar leaves behind the steps before the one that fails, each of them whole: nothing if its
tempo is zero, its entry if its length is wrong, and its notes up to the first that is out of range.
A bar without a fault leaves all its notes and has taken its full time. Channels are left alone. -/
theorem Walk.bar_leaves (settings : Settings) (trackIndex barIndex : Nat) (bar : Bar) (walk : Walk)
    (hordered : InTickOrder walk.track.events)
    (hfit : bar.checkLength trackIndex barIndex = .ok () →
      0 < bar.resolution.toNat ∧ bar.resolution.toNat ∣ settings.resolution.toNat) :
    (∀ result next, walk.bar settings trackIndex barIndex bar = (result, next) ↔
        bar.Leaves settings trackIndex barIndex walk result next) ∧
      ((walk.bar settings trackIndex barIndex bar).1 = .ok () →
        (walk.bar settings trackIndex barIndex bar).2.cursor =
          ⟨walk.cursor.tick + 4 * settings.resolution.toNat + bar.notes.length, bar.tempo,
            bar.resolution⟩) ∧
      ∀ (track : Track) (channels : Channels), (track.compile settings trackIndex channels).2 =
        (channels.draw trackIndex track.instrument.kind).2 := by
  refine ⟨fun result next => ⟨fun h => ?_, Bar.Leaves.bar_eq hordered⟩, Bar.cursor_eq_of_ok hfit,
    fun track channels => track.compile_snd settings trackIndex channels⟩
  obtain ⟨result', next', hleaves⟩ := bar.exists_leaves settings trackIndex barIndex walk
  cases (hleaves.bar_eq hordered).symm.trans h
  exact hleaves

/-- A bar in a new tempo fails at its third note, amid events that are already there. -/
theorem Walk.bar_leaves_two_notes :
    let settings : Settings := ⟨{}, 4⟩
    let bar : Bar := .ofNotes 150 1 [⟨some 64, .eighth⟩, .rest .sixteenth, ⟨some 200, .sixteenth⟩]
    let walk : Walk := ⟨⟨5, 120, 4⟩,
      ⟨0, none, 2, .melodic, [⟨4, 2, .noteOn 60 60⟩, ⟨9, 2, .noteOff 60 60⟩], 0⟩⟩
    InTickOrder walk.track.events ∧
      (bar.checkLength 0 3 = .ok () → 0 < bar.resolution.toNat ∧ bar.resolution.toNat ∣ 4) ∧
      bar.Leaves settings 0 3 walk (.error (.invalidPitch 0 3 2 200)) ⟨⟨19, 150, 1⟩,
        ⟨0, none, 2, .melodic, [⟨4, 2, .noteOn 60 60⟩, ⟨5, 2, .tempoChange 150⟩,
          ⟨5, 2, .noteOn 64 60⟩, ⟨9, 2, .noteOff 60 60⟩, ⟨21, 2, .noteOff 64 60⟩], 0⟩⟩ := by
  intro settings bar walk
  have hordered : InTickOrder walk.track.events := by decide
  have hfit : bar.checkLength 0 3 = .ok () →
      0 < bar.resolution.toNat ∧ bar.resolution.toNat ∣ settings.resolution.toNat := by decide
  refine ⟨hordered, hfit, ((walk.bar_leaves settings 0 3 bar hordered hfit).1 _ _).mp ?_⟩
  decide +kernel

end Sequencer
