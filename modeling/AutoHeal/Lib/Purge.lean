import Mathlib.Data.List.Basic
import Mathlib.Tactic.Common

/-!
# Inputs that do not matter

A machine takes an input in a state to the next state and an output. `Unwinding` says that some
of its inputs are invisible: two states that look the same still do when one of them takes such
an input, and when both take the same visible one, which has the same output then. So the
outputs of the visible inputs are those of a run without the others (`Unwinding.outputs_purge`).
-/

namespace AutoHeal.Purge

variable {S I O : Type*} (step : S → I → S × O)

/-! ## Runs -/

/-- The state after some inputs. -/
def run (s : S) (inputs : List I) : S := inputs.foldl (fun s i => (step s i).1) s

/-- The outputs of some inputs, in order. -/
def outputs : S → List I → List O
  | _, [] => []
  | s, i :: inputs => (step s i).2 :: outputs (step s i).1 inputs

/-- The outputs of the visible ones among some inputs. -/
def visibleOutputs (visible : I → Bool) : S → List I → List O
  | _, [] => []
  | s, i :: inputs =>
    (if visible i then [(step s i).2] else []) ++ visibleOutputs visible (step s i).1 inputs

variable {step}

/-! ## Purging -/

variable (step) in
/-- Every input is allowed in the state it meets in the run of the visible ones. -/
def AllowedRun (allowed : S → I → Prop) (visible : I → Bool) : S → List I → Prop
  | _, [] => True
  | t, i :: inputs =>
    allowed t i ∧ AllowedRun allowed visible (if visible i then (step t i).1 else t) inputs

/-- Allowed inputs of which `visible` does not hold leave a state as it looks, and visible ones lead
states that look the same to such states, with the same output. -/
structure Unwinding (step : S → I → S × O) (allowed : S → I → Prop) (visible : I → Bool)
    (same : S → S → Prop) : Prop where
  hidden : ∀ s t i, allowed t i → visible i = false → same s t → same (step s i).1 t
  shown : ∀ s t i, allowed t i → visible i = true → same s t →
    same (step s i).1 (step t i).1 ∧ (step s i).2 = (step t i).2

section Unwound

variable {allowed : S → I → Prop} {visible : I → Bool} {same : S → S → Prop} {inputs : List I}
  {s t : S}

/-- It may not depend on the state what is allowed. -/
theorem allowedRun_of_forall {allowed : I → Prop} (h : ∀ i ∈ inputs, allowed i) (t : S) :
    AllowedRun step (fun _ => allowed) visible t inputs := by
  induction inputs generalizing t with
  | nil => trivial
  | cons i inputs ih =>
    exact ⟨h i List.mem_cons_self, ih (fun j hj => h j (List.mem_cons_of_mem _ hj)) _⟩

/-- A run and the run of its visible inputs end in states that look the same, and the visible
inputs have the outputs that they have without the others. -/
theorem Unwinding.purge (h : Unwinding step allowed visible same)
    (hallowed : AllowedRun step allowed visible t inputs) (hst : same s t) :
    same (run step s inputs) (run step t (inputs.filter visible)) ∧
      visibleOutputs step visible s inputs = outputs step t (inputs.filter visible) := by
  induction inputs generalizing s t with
  | nil => exact ⟨hst, rfl⟩
  | cons i inputs ih =>
    rcases hallowed with ⟨hi, hrest⟩
    cases hvisible : visible i with
    | false =>
      rw [if_neg (by simp [hvisible])] at hrest
      rw [List.filter_cons_of_neg (by simp [hvisible])]
      rcases ih hrest (h.hidden s t i hi hvisible hst) with ⟨hend, hout⟩
      refine ⟨hend, ?_⟩
      rw [visibleOutputs, if_neg (by simp [hvisible]), List.nil_append, hout]
    | true =>
      rw [if_pos hvisible] at hrest
      rw [List.filter_cons_of_pos hvisible]
      rcases h.shown s t i hi hvisible hst with ⟨hnext, hanswer⟩
      rcases ih hrest hnext with ⟨hend, hout⟩
      refine ⟨hend, ?_⟩
      rw [visibleOutputs, outputs, if_pos hvisible, hanswer, hout]
      rfl

end Unwound

end AutoHeal.Purge
