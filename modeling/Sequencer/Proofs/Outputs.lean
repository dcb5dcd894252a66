import Mathlib.Tactic

/-! # Outputs of a run

A run goes through a list from a state to the next and puts something out for each item. Its
outputs can be told without the run: those for an item depend on the state that the items
before it lead to.
-/

namespace Sequencer

variable {σ α β : Type*}

/-- All outputs of a run, in the order of the items. -/
def outputs (step : σ → α → σ) (out : σ → α → List β) : σ → List α → List β
  | _, [] => []
  | s, a :: rest => out s a ++ outputs step out (step s a) rest

theorem outputs_eq_flatMap (step : σ → α → σ) (out : σ → α → List β) (s : σ) (xs : List α) :
    outputs step out s xs = xs.zipIdx.flatMap fun (a, i) => out ((xs.take i).foldl step s) a := by
  suffices h : ∀ before, outputs step out (before.foldl step s) xs =
      (xs.zipIdx before.length).flatMap fun (a, i) =>
        out (((before ++ xs).take i).foldl step s) a from h []
  induction xs with
  | nil => intro before; rfl
  | cons x xs ih =>
    intro before
    have hnext := ih (before ++ [x])
    rw [List.foldl_append, List.length_append, List.append_assoc] at hnext
    simp only [List.foldl_cons, List.foldl_nil, List.length_singleton, List.singleton_append]
      at hnext
    rw [outputs, hnext, List.zipIdx_cons, List.flatMap_cons]
    simp only [List.take_left]

/-- What is kept of the outputs does not depend on the states, if it does not for any item. -/
theorem filter_map_outputs {γ : Type*} {step : σ → α → σ} {out : σ → α → List β} {p : β → Bool}
    {f : β → γ} {g : α → List γ} {xs : List α}
    (h : ∀ s, ∀ a ∈ xs, ((out s a).filter p).map f = g a) (s : σ) :
    ((outputs step out s xs).filter p).map f = xs.flatMap g := by
  induction xs generalizing s with
  | nil => rfl
  | cons a xs ih =>
    rw [outputs, List.filter_append, List.map_append, h s a List.mem_cons_self,
      ih fun s b hb => h s b (List.mem_cons_of_mem a hb)]
    rfl

end Sequencer
