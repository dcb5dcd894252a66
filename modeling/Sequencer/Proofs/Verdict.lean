import Mathlib.Tactic

/-! # Verdicts

A check that may end at several faults is told by the list of all of them, in the order in which
it looks for them: it passes if the list is empty and ends at the first fault otherwise.
-/

namespace Sequencer

variable {ε α β : Type*}

theorem bind_eq_ok {result : Except ε α} {next : α → Except ε β} {b : β} :
    result.bind next = .ok b ↔ ∃ a, result = .ok a ∧ next a = .ok b := by
  cases result with
  | error e => exact ⟨nofun, nofun⟩
  | ok a =>
    constructor
    · intro h
      exact ⟨a, rfl, h⟩
    · rintro ⟨_, heq, h⟩
      cases heq
      exact h

def faultIf (p : Prop) [Decidable p] (fault : ε) : List ε :=
  if p then [fault] else []

theorem faultIf_eq_nil_iff {p : Prop} [Decidable p] {fault : ε} :
    faultIf p fault = [] ↔ ¬ p := by
  by_cases h : p <;> simp [faultIf, h]

theorem forall_mem_zipIdx_iff {xs : List α} {p : α → Prop} :
    (∀ (a : α) (i : Nat), (a, i) ∈ xs.zipIdx → p a) ↔ ∀ a ∈ xs, p a := by
  constructor
  · intro h a ha
    obtain ⟨i, hi⟩ := List.mem_iff_getElem?.mp ha
    exact h a i (List.mem_zipIdx_iff_getElem?.mpr hi)
  · intro h a i hi
    exact h a (List.fst_mem_of_mem_zipIdx hi)

/-- Rejects for the first fault of a list. -/
def verdict : List ε → Except ε Unit
  | [] => .ok ()
  | fault :: _ => .error fault

theorem verdict_eq_ok_iff {faults : List ε} : verdict faults = .ok () ↔ faults = [] := by
  cases faults <;> simp [verdict]

theorem verdict_eq_error_iff {faults : List ε} {fault : ε} :
    verdict faults = .error fault ↔ faults.head? = some fault := by
  cases faults <;> simp [verdict]

theorem verdict_append (xs ys : List ε) :
    verdict (xs ++ ys) = (verdict xs).bind fun _ => verdict ys := by
  cases xs <;> rfl

theorem verdict_faultIf_append (p : Prop) [Decidable p] (fault : ε) (faults : List ε) :
    verdict (faultIf p fault ++ faults) = if p then .error fault else verdict faults := by
  by_cases h : p <;> simp [faultIf, verdict, h]

/-- Forgets the result, but not whether there is one. -/
def accepted (result : Except ε α) : Except ε Unit :=
  result.map fun _ => ()

theorem accepted_bind_ok (result : Except ε α) (f : α → β) :
    accepted (result.bind fun a => .ok (f a)) = accepted result := by
  cases result <;> rfl

/-- A check behind another one adds its faults at the end. -/
theorem accepted_bind_eq_verdict {result : Except ε α} {next : α → Except ε β} {xs ys : List ε}
    (hx : accepted result = verdict xs) (hy : ∀ a, accepted (next a) = verdict ys) :
    accepted (result.bind next) = verdict (xs ++ ys) := by
  rw [verdict_append, ← hx]
  cases result with
  | error e => rfl
  | ok a => exact hy a

theorem accepted_eq_ok_iff {result : Except ε α} :
    accepted result = .ok () ↔ ∃ a, result = .ok a := by
  cases result <;> simp [accepted, Except.map]

theorem accepted_eq_error_iff {result : Except ε α} {fault : ε} :
    accepted result = .error fault ↔ result = .error fault := by
  cases result <;> simp [accepted, Except.map]

end Sequencer
