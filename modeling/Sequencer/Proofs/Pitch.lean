import Sequencer.Pitch
import Sequencer.Proofs.Text.Spelling

/-! # Named pitches in full

The number of a named pitch is computed from the left to the right in signed 32-bit words. It is
found whenever no result on the way leaves the words. A result that leaves them is reported, also
where it would come back into them, and even where the pitch itself has a note number.
-/

namespace Sequencer.Pitch

/-- The steps of the scale and their semitones above C. -/
def scale : List (Char × Int) :=
  [('C', 0), ('D', 2), ('E', 4), ('F', 5), ('G', 7), ('A', 9), ('B', 11)]

def IsStep (step : Char) (semitone : Int) : Prop :=
  ∃ letter, (letter, semitone) ∈ scale ∧ Text.SameLetter step letter

def InWords (n : Int) : Prop :=
  -2 ^ 31 ≤ n ∧ n < 2 ^ 31

instance (n : Int) : Decidable (InWords n) :=
  inferInstanceAs (Decidable (_ ∧ _))

def number (octave alter : Int32) (semitone : Int) : Int :=
  12 * (octave.toInt + 1) + semitone + alter.toInt

/-- All results on the way to the number, the number included. -/
def results (octave alter : Int32) (semitone : Int) : List Int :=
  [octave.toInt + 1, 12 * (octave.toInt + 1), 12 * (octave.toInt + 1) + semitone,
    number octave alter semitone]

/-- What a name stands for. -/
inductive Names (step : Char) (octave alter : Int32) : Except Overflow (Option UInt8) → Prop where
  | unknown (hstep : ∀ semitone, ¬ IsStep step semitone) : Names step octave alter (.ok none)
  | overflow {semitone : Int} (hstep : IsStep step semitone)
      (hout : ∃ n ∈ results octave alter semitone, ¬ InWords n) :
      Names step octave alter (.error .overflow)
  | outside {semitone : Int} (hstep : IsStep step semitone)
      (hfits : ∀ n ∈ results octave alter semitone, InWords n)
      (hrange : ¬ (0 ≤ number octave alter semitone ∧ number octave alter semitone ≤ 127)) :
      Names step octave alter (.ok none)
  | pitch {semitone : Int} (hstep : IsStep step semitone)
      (hfits : ∀ n ∈ results octave alter semitone, InWords n) (p : UInt8) (hle : p ≤ 127)
      (hnumber : (p.toNat : Int) = number octave alter semitone) :
      Names step octave alter (.ok (some p))

theorem toUpper_eq_iff {c letter : Char} (h : letter.isUpper) :
    c.toUpper = letter ↔ Text.SameLetter c letter := by
  rw [Text.SameLetter, ← Char.toNat_inj, ← Char.toNat_inj, Text.toNat_toUpper]
  rw [Text.isUpper_iff] at h
  simp only [Text.isUpper_iff]
  split_ifs <;> omega

theorem semitone?_eq_some_iff {step : Char} {semitone : Int} :
    semitone? step = some semitone ↔ IsStep step semitone := by
  have hupper : ∀ entry ∈ scale, entry.1.isUpper := by decide
  have hstep : IsStep step semitone ↔ (step.toUpper, semitone) ∈ scale := by
    constructor
    · rintro ⟨letter, hletter, hsame⟩
      rwa [(toUpper_eq_iff (hupper _ hletter)).mpr hsame]
    · intro h
      exact ⟨step.toUpper, h, (toUpper_eq_iff (hupper _ h)).mp rfl⟩
  rw [hstep, semitone?]
  generalize step.toUpper = letter
  split
  case h_8 =>
    simp only [scale, List.mem_cons, Prod.mk.injEq, List.not_mem_nil]
    tauto
  all_goals simp [scale, eq_comm]

theorem semitone?_eq_none_iff {step : Char} :
    semitone? step = none ↔ ∀ semitone, ¬ IsStep step semitone := by
  simp only [Option.eq_none_iff_forall_ne_some, Ne, semitone?_eq_some_iff]

theorem IsStep.bounds {step : Char} {semitone : Int} (h : IsStep step semitone) :
    0 ≤ semitone ∧ semitone ≤ 11 := by
  have hscale : ∀ entry ∈ scale, 0 ≤ entry.2 ∧ entry.2 ≤ 11 := by decide
  obtain ⟨letter, hletter, -⟩ := h
  exact hscale _ hletter

theorem word_bind {α : Type} (n : Int) (next : Int → Except Overflow α) :
    (word n >>= next) = if InWords n then next n else .error .overflow := by
  have hleast : Int32.minValue.toInt = -2 ^ 31 := rfl
  have hgreatest : Int32.maxValue.toInt = 2 ^ 31 - 1 := rfl
  have hfits : Int32.minValue.toInt ≤ n ∧ n ≤ Int32.maxValue.toInt ↔ InWords n := by
    rw [InWords, hleast, hgreatest, Int.le_sub_one_iff]
  by_cases h : InWords n
  · rw [word, if_pos (hfits.mpr h), if_pos h]
    rfl
  · rw [word, if_neg (mt hfits.mp h), if_neg h]
    rfl

theorem named_of_step {step : Char} {octave alter : Int32} {semitone : Int}
    (hstep : IsStep step semitone) :
    named step octave alter =
      if ∀ n ∈ results octave alter semitone, InWords n then
        .ok (if 0 ≤ number octave alter semitone ∧ number octave alter semitone ≤ 127 then
          some (UInt8.ofNat (number octave alter semitone).toNat) else none)
      else .error .overflow := by
  rw [named, semitone?_eq_some_iff.mpr hstep]
  have hvalue : 12 * (octave.toInt + 1) + semitone + alter.toInt =
    number octave alter semitone := rfl
  simp only [word_bind, mul_comm _ (12 : Int), hvalue]
  generalize (if 0 ≤ number octave alter semitone ∧ number octave alter semitone ≤ 127 then
    some (UInt8.ofNat (number octave alter semitone).toNat) else none) = answer
  by_cases hfits : ∀ n ∈ results octave alter semitone, InWords n
  · rw [if_pos hfits]
    simp only [results, List.forall_mem_cons] at hfits
    obtain ⟨hnext, hbase, hnatural, hnumber, -⟩ := hfits
    rw [if_pos hnext, if_pos hbase, if_pos hnatural, if_pos hnumber]
    rfl
  · rw [if_neg hfits]
    split_ifs with hnext hbase hnatural hnumber
    · exact absurd (by simp [results, hnext, hbase, hnatural, hnumber]) hfits
    all_goals rfl

/-- Every name stands for the answer that it gets. -/
theorem names_named (step : Char) (octave alter : Int32) :
    Names step octave alter (named step octave alter) := by
  cases h : semitone? step with
  | none =>
    rw [named, h]
    exact .unknown (semitone?_eq_none_iff.mp h)
  | some semitone =>
    have hstep := semitone?_eq_some_iff.mp h
    rw [named_of_step hstep]
    split_ifs with hfits hrange
    · refine .pitch hstep hfits _ ?_ ?_
      · rw [UInt8.le_iff_toNat_le, UInt8.toNat_ofNat']
        change _ ≤ 127
        omega
      · rw [UInt8.toNat_ofNat']
        omega
    · exact .outside hstep hfits hrange
    · exact .overflow hstep (by simpa using hfits)

theorem named_eq_iff {step : Char} {octave alter : Int32}
    {answer : Except Overflow (Option UInt8)} :
    named step octave alter = answer ↔ Names step octave alter answer := by
  constructor
  · rintro rfl
    exact names_named step octave alter
  · intro h
    cases h with
    | unknown hstep =>
      rw [named, semitone?_eq_none_iff.mpr hstep]
    | overflow hstep hout =>
      rw [named_of_step hstep, if_neg (by simpa using hout)]
    | outside hstep hfits hrange =>
      rw [named_of_step hstep, if_pos hfits, if_neg hrange]
    | pitch hstep hfits p hle hnumber =>
      have hp : p.toNat ≤ 127 := UInt8.le_iff_toNat_le.mp hle
      rw [named_of_step hstep, if_pos hfits, if_pos (by omega), ← hnumber, Int.toNat_natCast,
        UInt8.ofNat_toNat]

/-- Octaves and alterations of moderate size keep all results within the words. -/
theorem results_inWords {step : Char} {octave alter : Int32} {semitone : Int}
    (hstep : IsStep step semitone) (hoctave : -2 ^ 26 ≤ octave.toInt ∧ octave.toInt ≤ 2 ^ 26)
    (halter : -2 ^ 30 ≤ alter.toInt ∧ alter.toInt ≤ 2 ^ 30) :
    ∀ n ∈ results octave alter semitone, InWords n := by
  have hbounds := hstep.bounds
  simp only [results, number, List.forall_mem_cons, InWords]
  refine ⟨?_, ?_, ?_, ?_, List.forall_mem_nil _⟩ <;> omega

/-- A name gets the one answer that it stands for. An overflow is possible only where the octave or
the alteration is far out of the range of music. -/
theorem named_in_full (step : Char) (octave alter : Int32) :
    (∀ answer, named step octave alter = answer ↔ Names step octave alter answer) ∧
      (-2 ^ 26 ≤ octave.toInt ∧ octave.toInt ≤ 2 ^ 26 →
        -2 ^ 30 ≤ alter.toInt ∧ alter.toInt ≤ 2 ^ 30 →
        ∃ pitch, named step octave alter = .ok pitch) := by
  refine ⟨fun answer => named_eq_iff, fun hoctave halter => ?_⟩
  cases hanswer : named step octave alter with
  | ok pitch => exact ⟨pitch, rfl⟩
  | error e =>
    cases named_eq_iff.mp hanswer with
    | overflow hstep hout =>
      obtain ⟨n, hn, hout⟩ := hout
      exact absurd (results_inWords hstep hoctave halter n hn) hout

/-- The B that is raised to the C of octave 4, and one that is lowered far below all notes. -/
theorem named_in_full_altered :
    named 'b' 3 1 = .ok (some 60) ∧ ∃ pitch, named 'b' 3 (-1000000000) = .ok pitch := by
  have hstep : IsStep 'b' 11 := ⟨'B', by decide, .inr (.inr ⟨by decide, by decide⟩)⟩
  constructor
  · rw [(named_in_full 'b' 3 1).1]
    exact .pitch hstep (by decide) 60 (by decide) (by decide)
  · exact (named_in_full 'b' 3 (-1000000000)).2 (by decide) (by decide)

/-- The C of the greatest octave is far above all note numbers, and the one that is lowered from far
above to number 52 is a note; both leave the words on the way. -/
theorem named_overflows :
    IsStep 'C' 0 ∧ number 2147483647 0 0 = 25769803776 ∧
      named 'C' 2147483647 0 = .error .overflow ∧
      number 178956970 (-2147483600) 0 = 52 ∧
      named 'C' 178956970 (-2147483600) = .error .overflow :=
  ⟨⟨'C', by decide, .inl rfl⟩, by decide, by decide, by decide, by decide⟩

end Sequencer.Pitch
