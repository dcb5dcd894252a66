import Sequencer.Proofs.Compile.Rejection
import Sequencer.Proofs.Outputs
import Sequencer.Score.Edit

/-! # Editing sessions

A session is a list of edits, one after another on the same bar. What it puts in and what it gives
back balances the bar, and a note that no edit takes hold of moves only to make room.
-/

namespace Sequencer

/-- An edit of a bar. -/
inductive Edit where
  | push (note : Note)
  | insert (position : Nat) (note : Note)
  | replace (position : Nat) (note : Note)
  | remove (first : Nat) (last : Option Nat)
  deriving DecidableEq, Repr, Inhabited

namespace Edit

def apply : Edit → Bar → Bar
  | push note, bar => bar.push note
  | insert position note, bar => bar.insertNote position note
  | replace position note, bar => (bar.replaceNote position note).2
  | remove first last, bar => (bar.removeNotes first last).2

def returned : Edit → Bar → List Note
  | push _, _ => []
  | insert _ _, _ => []
  | replace position note, bar => (bar.replaceNote position note).1.toList
  | remove first last, bar => (bar.removeNotes first last).1

/-- The notes that the edit puts in; a replacement past the end puts in none. -/
def brought : Edit → Bar → List Note
  | push note, _ => [note]
  | insert _ note, _ => [note]
  | replace position note, bar => if position < bar.notes.length then [note] else []
  | remove _ _, _ => []

/-- Where the note at a position goes, if it stays. -/
def place : Edit → Nat → Option Nat
  | push _, i => some i
  | insert position _, i => some (if i < position then i else i + 1)
  | replace position _, i => if i = position then none else some i
  | remove first last, i =>
    let last := last.getD first
    if first ≤ i ∧ i ≤ last then none
    else some (if i < first then i else i - (last + 1 - first))

end Edit

namespace Bar

def edited (bar : Bar) (edits : List Edit) : Bar :=
  edits.foldl (fun bar edit => edit.apply bar) bar

def returned (bar : Bar) (edits : List Edit) : List Note :=
  outputs (fun bar edit => Edit.apply edit bar) (fun bar edit => edit.returned bar) bar edits

def brought (bar : Bar) (edits : List Edit) : List Note :=
  outputs (fun bar edit => Edit.apply edit bar) (fun bar edit => edit.brought bar) bar edits

@[simp] theorem edited_cons (bar : Bar) (edit : Edit) (edits : List Edit) :
    bar.edited (edit :: edits) = (edit.apply bar).edited edits := rfl

@[simp] theorem returned_cons (bar : Bar) (edit : Edit) (edits : List Edit) :
    bar.returned (edit :: edits) = edit.returned bar ++ (edit.apply bar).returned edits := rfl

@[simp] theorem brought_cons (bar : Bar) (edit : Edit) (edits : List Edit) :
    bar.brought (edit :: edits) = edit.brought bar ++ (edit.apply bar).brought edits := rfl

/-- Puts notes in one after another, each behind the one before it. -/
def insertNotes (bar : Bar) (position : Nat) (notes : List Note) : Bar :=
  (notes.zipIdx position).foldl (fun bar (note, i) => bar.insertNote i note) bar

end Bar

/-- Where the note at a position is after a session, if no edit has taken it out. -/
def placeAfter (edits : List Edit) (i : Nat) : Option Nat :=
  edits.foldlM (fun i edit => edit.place i) i

@[simp] theorem placeAfter_cons (edit : Edit) (edits : List Edit) (i : Nat) :
    placeAfter (edit :: edits) i = (edit.place i).bind (placeAfter edits) := rfl

/-- Nothing is lost or made up in a session. -/
structure Bar.Conserved (bar : Bar) (edits : List Edit) : Prop where
  notes_eq : (bar.notes : Multiset Note) + bar.brought edits =
    (bar.edited edits).notes + bar.returned edits
  total_eq : bar.totalSixteenths + ((bar.brought edits).map Note.sixteenths).sum =
    (bar.edited edits).totalSixteenths + ((bar.returned edits).map Note.sixteenths).sum
  /-- A note of the bar is where it has been moved to, or has been given back. -/
  found : ∀ (i : Nat) (note : Note), bar.notes[i]? = some note →
    match placeAfter edits i with
    | some j => (bar.edited edits).notes[j]? = some note
    | none => note ∈ bar.returned edits
  /-- The notes that are left have not passed each other. -/
  in_order : ∀ i j i' j', placeAfter edits i = some i' → placeAfter edits j = some j' →
    i < j → i' < j'
  /-- Only the notes are edited. -/
  rest_eq : { bar.edited edits with notes := bar.notes } = bar

/-- Edits that do nothing, and edits that take each other back. -/
structure Bar.Reversible (bar : Bar) : Prop where
  replace_past_end : ∀ position note, bar.notes.length ≤ position →
    bar.replaceNote position note = (none, bar)
  /-- A removal is empty for a reversed range and past the end, and then does nothing. -/
  remove_nothing : ∀ first last,
    ((bar.removeNotes first last).1 = [] ↔ last.getD first < first ∨ bar.notes.length ≤ first) ∧
      ((bar.removeNotes first last).1 = [] → (bar.removeNotes first last).2 = bar)
  insert_removed : ∀ first last,
    (bar.removeNotes first last).2.insertNotes first (bar.removeNotes first last).1 = bar
  replace_back : ∀ position note old, (bar.replaceNote position note).1 = some old →
    (bar.replaceNote position note).2.replaceNote position old = (some note, bar)
  remove_inserted : ∀ position note,
    (bar.insertNote position note).removeNotes (min position bar.notes.length) none =
      ([note], bar)

namespace Bar

variable (bar : Bar) (position first : Nat) (last : Option Nat) (note : Note)

/-- A position past the end needs no special care in an insertion. -/
theorem insertNote_eq :
    bar.insertNote position note =
      { bar with notes := bar.notes.take position ++ note :: bar.notes.drop position } := by
  rw [insertNote, ← List.take_eq_take_min, ← List.drop_eq_drop_min]

@[simp] theorem insertNote_notes :
    (bar.insertNote position note).notes =
      bar.notes.take position ++ note :: bar.notes.drop position := by
  rw [insertNote_eq]

/-- A removal cuts a slice out of the bar, which is empty where the range is. -/
theorem removeNotes_eq :
    bar.removeNotes first last =
      ((bar.notes.take (max first (last.getD first + 1))).drop first,
        { bar with notes :=
            bar.notes.take first ++ bar.notes.drop (max first (last.getD first + 1)) }) := by
  rw [removeNotes]
  generalize last.getD first = last
  by_cases hlast : last < first
  · rw [if_pos (.inl hlast), max_eq_left hlast, List.take_append_drop,
      List.drop_of_length_le (List.length_take_le _ _)]
  · rw [max_eq_right (by omega)]
    by_cases hend : bar.notes.length ≤ first
    · have hslice : (bar.notes.take (last + 1)).drop first = [] :=
        List.drop_of_length_le ((List.length_take_le' _ _).trans hend)
      rw [if_pos (.inr hend), hslice, List.take_of_length_le hend,
        List.drop_of_length_le (by omega), List.append_nil]
    · have hstop : min last (bar.notes.length - 1) + 1 = min (last + 1) bar.notes.length := by
        omega
      rw [if_neg (by omega)]
      simp only [hstop, ← List.take_eq_take_min, ← List.drop_eq_drop_min]

/-- The notes before a removed range, the range, and the notes behind it. -/
theorem removeNotes_notes : ∃ front back,
    bar.notes = front ++ (bar.removeNotes first last).1 ++ back ∧
      (bar.removeNotes first last).2 = { bar with notes := front ++ back } ∧
      front.length = min first bar.notes.length ∧
      front.length + (bar.removeNotes first last).1.length =
        min (max first (last.getD first + 1)) bar.notes.length := by
  rw [removeNotes_eq]
  have hle : first ≤ max first (last.getD first + 1) := le_max_left _ _
  generalize max first (last.getD first + 1) = stop at hle
  refine ⟨bar.notes.take first, bar.notes.drop stop, ?_, rfl, by simp, ?_⟩
  · have hfront : (bar.notes.take stop).take first = bar.notes.take first := by
      rw [List.take_take, min_eq_left hle]
    rw [← hfront, List.take_append_drop, List.take_append_drop]
  · simp only [List.length_take, List.length_drop]
    omega

end Bar

namespace Edit

/-- An edit exchanges a stretch of the bar between two others: what it gives back for what it
brings. The notes before the stretch keep their positions, and those behind it move by the
difference in length. -/
structure Exchanges (edit : Edit) (bar : Bar) (front back : List Note) : Prop where
  notes_eq : bar.notes = front ++ edit.returned bar ++ back
  apply_eq : edit.apply bar = { bar with notes := front ++ edit.brought bar ++ back }
  place_eq : ∀ i < bar.notes.length, edit.place i =
    if i < front.length then some i
    else if i < front.length + (edit.returned bar).length then none
    else some (i + (edit.brought bar).length - (edit.returned bar).length)

section Exchanges

variable (bar : Bar) (note : Note)

theorem push_exchanges : (push note).Exchanges bar bar.notes [] where
  notes_eq := by simp [returned]
  apply_eq := by simp [apply, brought, Bar.push]
  place_eq i hi := by simp [place, hi]

theorem insert_exchanges (position : Nat) : (insert position note).Exchanges bar
    (bar.notes.take position) (bar.notes.drop position) where
  notes_eq := by simp [returned]
  apply_eq := by simp [apply, brought, Bar.insertNote_eq]
  place_eq i hi := by
    by_cases h : i < position <;> simp [place, brought, returned, h, hi]

theorem replace_exchanges {position : Nat} (h : position < bar.notes.length) :
    (replace position note).Exchanges bar
      (bar.notes.take position) (bar.notes.drop (position + 1)) := by
  have hold : returned (replace position note) bar = [bar.notes[position]] := by
    simp [returned, Bar.replaceNote, h]
  have hnew : brought (replace position note) bar = [note] := if_pos h
  constructor
  case notes_eq => simp [hold]
  case apply_eq => simp [apply, hnew, Bar.replaceNote, List.set_eq_take_append_cons_drop, h]
  case place_eq =>
    intro i hi
    rw [hold, hnew, place, List.length_take_of_le h.le]
    simp only [List.length_singleton]
    by_cases hat : i = position
    · rw [if_pos hat, if_neg (by omega), if_pos (by omega)]
    · rw [if_neg hat]
      by_cases hbefore : i < position
      · rw [if_pos hbefore]
      · rw [if_neg hbefore, if_neg (by omega), Nat.add_sub_cancel]

theorem replace_past_end_exchanges {position : Nat} (h : bar.notes.length ≤ position) :
    (replace position note).Exchanges bar bar.notes [] := by
  have hold : returned (replace position note) bar = [] := by
    simp [returned, Bar.replaceNote, h]
  have hnew : brought (replace position note) bar = [] := if_neg (not_lt.mpr h)
  constructor
  case notes_eq => simp [hold]
  case apply_eq => simp [apply, hnew, Bar.replaceNote, List.set_eq_of_length_le h]
  case place_eq =>
    intro i hi
    rw [place, if_pos hi, if_neg (by omega)]

theorem exists_remove_exchanges (first : Nat) (last : Option Nat) :
    ∃ front back, (remove first last).Exchanges bar front back := by
  obtain ⟨front, back, hnotes, hrest, hfront, hlength⟩ := bar.removeNotes_notes first last
  refine ⟨front, back, hnotes, by simp [apply, brought, hrest], fun i hi => ?_⟩
  simp only [place, brought, returned, List.length_nil, add_zero]
  generalize last.getD first = stop at hlength ⊢
  generalize (bar.removeNotes first last).1.length = removed at hlength ⊢
  by_cases hin : first ≤ i ∧ i ≤ stop
  · rw [if_pos hin, if_neg (by omega), if_pos (by omega)]
  · rw [if_neg hin]
    by_cases hbefore : i < first
    · rw [if_pos hbefore, if_pos (by omega)]
    · rw [if_neg hbefore, if_neg (by omega), if_neg (by omega)]
      exact congrArg some (by omega)

end Exchanges

variable (edit : Edit) (bar : Bar)

theorem exists_exchanges : ∃ front back, edit.Exchanges bar front back := by
  cases edit with
  | push note => exact ⟨_, _, push_exchanges bar note⟩
  | insert position note => exact ⟨_, _, insert_exchanges bar note position⟩
  | replace position note =>
    rcases lt_or_ge position bar.notes.length with h | h
    · exact ⟨_, _, replace_exchanges bar note h⟩
    · exact ⟨_, _, replace_past_end_exchanges bar note h⟩
  | remove first last => exact exists_remove_exchanges bar first last

/-- What an edit brings and what it gives back balances the bar. -/
theorem apply_notes : (bar.notes : Multiset Note) + edit.brought bar =
    (edit.apply bar).notes + edit.returned bar := by
  obtain ⟨front, back, hnotes, hafter, -⟩ := edit.exists_exchanges bar
  rw [hafter]
  conv_lhs => rw [hnotes]
  simp only [← Multiset.coe_add]
  abel

/-- A note is moved, or it is given back. -/
theorem apply_found {i : Nat} {note : Note} (h : bar.notes[i]? = some note) :
    match edit.place i with
    | some j => (edit.apply bar).notes[j]? = some note
    | none => note ∈ edit.returned bar := by
  obtain ⟨front, back, hnotes, hafter, hplace⟩ := edit.exists_exchanges bar
  have hi : i < bar.notes.length := (List.getElem?_eq_some_iff.mp h).1
  rw [hplace i hi, hafter]
  rw [hnotes, List.append_assoc] at h
  split_ifs with hfront hout
  · rw [List.getElem?_append_left hfront] at h
    simp only
    rwa [List.append_assoc, List.getElem?_append_left hfront]
  · rw [List.getElem?_append_right (by omega), List.getElem?_append_left (by omega)] at h
    exact List.mem_of_getElem? h
  · rw [List.getElem?_append_right (by omega), List.getElem?_append_right (by omega)] at h
    simp only
    rw [List.append_assoc, List.getElem?_append_right (by omega),
      List.getElem?_append_right (by omega), ← h]
    congr 1
    omega

theorem place_lt {i j i' j' : Nat} (hi : edit.place i = some i') (hj : edit.place j = some j')
    (h : i < j) : i' < j' := by
  cases edit with
  | push note =>
    cases hi
    cases hj
    exact h
  | insert position note =>
    cases hi
    cases hj
    split_ifs <;> omega
  | replace position note =>
    simp only [place, Option.ite_none_left_eq_some, Option.some.injEq] at hi hj
    rwa [← hi.2, ← hj.2]
  | remove first last =>
    simp only [place, Option.ite_none_left_eq_some, Option.some.injEq] at hi hj
    rw [← hi.2, ← hj.2]
    split_ifs <;> omega

end Edit

namespace Bar

theorem edited_notes (bar : Bar) (edits : List Edit) :
    (bar.notes : Multiset Note) + bar.brought edits =
      (bar.edited edits).notes + bar.returned edits := by
  induction edits generalizing bar with
  | nil => rfl
  | cons edit edits ih =>
    simp only [edited_cons, returned_cons, brought_cons, ← Multiset.coe_add]
    calc (bar.notes : Multiset Note) + (edit.brought bar + (edit.apply bar).brought edits)
        = (edit.apply bar).notes + edit.returned bar + (edit.apply bar).brought edits := by
          rw [← add_assoc, edit.apply_notes]
      _ = (edit.apply bar).notes + (edit.apply bar).brought edits + edit.returned bar :=
          add_right_comm _ _ _
      _ = ((edit.apply bar).edited edits).notes +
            (edit.returned bar + (edit.apply bar).returned edits) := by
          rw [ih, add_assoc, add_comm (edit.returned bar : Multiset Note)]

theorem edited_total (bar : Bar) (edits : List Edit) :
    bar.totalSixteenths + ((bar.brought edits).map Note.sixteenths).sum =
      (bar.edited edits).totalSixteenths + ((bar.returned edits).map Note.sixteenths).sum := by
  have h := congrArg (fun notes : Multiset Note => (notes.map Note.sixteenths).sum)
    (bar.edited_notes edits)
  simpa [totalSixteenths_eq] using h

/-- Through a session a note is moved, or it is given back at some edit. -/
theorem edited_found {bar : Bar} {edits : List Edit} {i : Nat} {note : Note}
    (h : bar.notes[i]? = some note) :
    match placeAfter edits i with
    | some j => (bar.edited edits).notes[j]? = some note
    | none => note ∈ bar.returned edits := by
  induction edits generalizing bar i with
  | nil => exact h
  | cons edit edits ih =>
    have hstep := edit.apply_found bar h
    rw [placeAfter_cons, edited_cons, returned_cons]
    cases hplace : edit.place i with
    | none =>
      rw [hplace] at hstep
      exact List.mem_append_left _ hstep
    | some j =>
      rw [hplace] at hstep
      have hrest := ih hstep
      rw [Option.bind_some]
      cases hafter : placeAfter edits j with
      | none =>
        rw [hafter] at hrest
        exact List.mem_append_right _ hrest
      | some k =>
        rw [hafter] at hrest
        exact hrest

theorem edited_rest (bar : Bar) (edits : List Edit) :
    { bar.edited edits with notes := bar.notes } = bar := by
  suffices h : ∀ other : Bar, { other.edited edits with notes := bar.notes } =
      { other with notes := bar.notes } from h bar
  induction edits with
  | nil => exact fun _ => rfl
  | cons edit edits ih =>
    intro other
    rw [edited_cons, ih]
    cases edit with
    | remove first last => simp [Edit.apply, removeNotes_eq]
    | _ => rfl

end Bar

theorem placeAfter_lt {edits : List Edit} {i j i' j' : Nat} (hi : placeAfter edits i = some i')
    (hj : placeAfter edits j = some j') (h : i < j) : i' < j' := by
  induction edits generalizing i j with
  | nil =>
    cases hi
    cases hj
    exact h
  | cons edit edits ih =>
    rw [placeAfter_cons] at hi hj
    obtain ⟨k, hk, hi⟩ := Option.bind_eq_some_iff.mp hi
    obtain ⟨l, hl, hj⟩ := Option.bind_eq_some_iff.mp hj
    exact ih hi hj (edit.place_lt hk hl h)

namespace Bar

/-- Behind the notes in front, notes put in one after another keep their order. -/
theorem insertNotes_eq (bar : Bar) {front back : List Note} (notes : List Note) {position : Nat}
    (hposition : front.length = position) (hnotes : bar.notes = front ++ back) :
    bar.insertNotes position notes = { bar with notes := front ++ notes ++ back } := by
  induction notes generalizing bar front position with
  | nil => simp [insertNotes, ← hnotes]
  | cons note notes ih =>
    have hnext : (bar.insertNote position note).notes = (front ++ [note]) ++ back := by
      rw [insertNote_notes, hnotes, ← hposition, List.take_left, List.drop_left]
      simp
    have hlength : (front ++ [note]).length = position + 1 := by simp [hposition]
    change (bar.insertNote position note).insertNotes (position + 1) notes = _
    rw [ih _ hlength hnext]
    simp [insertNote_eq]

theorem reversible (bar : Bar) : bar.Reversible where
  replace_past_end position note h := by
    simp [replaceNote, h, List.set_eq_of_length_le]
  remove_nothing first last := by
    obtain ⟨front, back, hnotes, hrest, hfront, hlength⟩ := bar.removeNotes_notes first last
    constructor
    · rw [← List.length_eq_zero_iff]
      omega
    · intro h
      rw [h, List.append_nil] at hnotes
      rw [hrest, ← hnotes]
  insert_removed first last := by
    obtain ⟨front, back, hnotes, hrest, hfront, hlength⟩ := bar.removeNotes_notes first last
    rw [hrest]
    by_cases hempty : (bar.removeNotes first last).1 = []
    · rw [hempty, List.append_nil] at hnotes
      rw [hempty, ← hnotes]
      rfl
    · have hsome := List.length_pos_of_ne_nil hempty
      rw [insertNotes_eq _ _ (by omega : front.length = first) rfl, ← hnotes]
  replace_back position note old h := by
    have hposition : position < bar.notes.length := (List.getElem?_eq_some_iff.mp h).1
    have hold : bar.notes[position] = old := (List.getElem?_eq_some_iff.mp h).2
    simp [replaceNote, hposition, ← hold]
  remove_inserted position note := by
    have hfront : (bar.notes.take position).length = min position bar.notes.length :=
      List.length_take
    have hbehind : (bar.notes.take position).drop (min position bar.notes.length + 1) = [] :=
      List.drop_eq_nil_of_le (by omega)
    simp [removeNotes_eq, insertNote_eq, hbehind, List.take_append, List.drop_append]

/-- A session neither loses notes nor makes any up, and does not reorder those that it leaves. The
edits of the bar that it comes to can be taken back. -/
theorem edited_conserves (bar : Bar) (edits : List Edit) :
    bar.Conserved edits ∧ (bar.edited edits).Reversible :=
  ⟨⟨bar.edited_notes edits, bar.edited_total edits, fun _ _ => edited_found,
    fun _ _ _ _ => placeAfter_lt, bar.edited_rest edits⟩, (bar.edited edits).reversible⟩

/-- An insertion, a replacement past the end and a removal that the end of the bar cuts off. -/
example :
    let bar : Bar := .ofNotes 120 4 [⟨some 60, .half⟩, ⟨some 62, .half⟩]
    let edits : List Edit :=
      [.insert 1 (.rest .quarter), .replace 3 ⟨some 65, .eighth⟩, .remove 2 (some 9)]
    (bar.edited edits).notes = [⟨some 60, .half⟩, .rest .quarter] ∧
      bar.returned edits = [⟨some 62, .half⟩] ∧ placeAfter edits 0 = some 0 ∧
      placeAfter edits 1 = none := by
  decide

end Bar
end Sequencer
