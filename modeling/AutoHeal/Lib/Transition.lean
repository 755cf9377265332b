import Mathlib.Data.List.Basic
import Mathlib.Data.List.Nodup
import Mathlib.Tactic.Common

/-!
# Runs and histories

A system takes moves from state to state. `Reachable` are the states of the runs whose
moves are all allowed, and `Reachable.invariant` the rule for what holds in each of them.
`Justified` says of a history, the last event first, that every event of it is justified by
the events before it.
-/

namespace AutoHeal.Transition

/-! ## Runs -/

section Runs

variable {S M : Type*} {init : S → Prop} {step : S → M → S → Prop} {allowed allowed' : S → M → Prop}

/-- The states of the runs that make allowed moves only. -/
inductive Reachable (init : S → Prop) (step : S → M → S → Prop) (allowed : S → M → Prop) : S → Prop
  | start {s : S} : init s → Reachable init step allowed s
  | move {s s' : S} {m : M} :
    Reachable init step allowed s → allowed s m → step s m s' → Reachable init step allowed s'

/-- What holds at the start, and is kept by every allowed move from a reachable state, holds
in every reachable state. -/
theorem Reachable.invariant {inv : S → Prop} {s : S} (h : Reachable init step allowed s)
    (hinit : ∀ s, init s → inv s)
    (hstep : ∀ s m s', Reachable init step allowed s → inv s → allowed s m → step s m s' → inv s') :
    inv s := by
  induction h with
  | start hs => exact hinit _ hs
  | move hs hallowed hmove ih => exact hstep _ _ _ hs ih hallowed hmove

/-- A run is a run where more is allowed. -/
theorem Reachable.mono {s : S} (h : Reachable init step allowed s)
    (hle : ∀ s m, allowed s m → allowed' s m) : Reachable init step allowed' s := by
  induction h with
  | start hs => exact .start hs
  | move _ hallowed hmove ih => exact .move ih (hle _ _ hallowed) hmove

/-- A run may go on. -/
theorem Reachable.trans {s s' : S} (h : Reachable init step allowed s)
    (h' : Reachable (fun t => t = s) step allowed s') : Reachable init step allowed s' := by
  induction h' with
  | start hs => rwa [hs]
  | move _ hallowed hmove ih => exact .move ih hallowed hmove

end Runs

/-! ## Histories -/

section Histories

variable {E : Type*} {R : E → List E → Prop}

/-- Every event is justified by the events before it, which come after it in the list. -/
def Justified (R : E → List E → Prop) : List E → Prop
  | [] => True
  | e :: past => R e past ∧ Justified R past

theorem justified_nil : Justified R [] := trivial

/-- An event of the history is justified by its past. -/
theorem Justified.of_append {later past : List E} {e : E} (h : Justified R (later ++ e :: past)) :
    R e past := by
  induction later with
  | nil => exact h.1
  | cons _ later ih => exact ih h.2

/-- Events that need no justification may be added. -/
theorem Justified.append {later past : List E} (h : Justified R past)
    (hlater : ∀ e ∈ later, ∀ before, R e before) : Justified R (later ++ past) := by
  induction later with
  | nil => exact h
  | cons e later ih =>
    refine ⟨hlater e List.mem_cons_self _, ih fun e' he' => ?_⟩
    exact hlater e' (List.mem_cons_of_mem _ he')

end Histories

/-! ## What the events are about -/

section Subjects

variable {E A : Type*} {f g : E → Option A}

/-- The subjects of some events are among those of more events, in order. -/
theorem filterMap_sublist_filterMap (h : ∀ e a, f e = some a → g e = some a) (history : List E) :
    (history.filterMap f).Sublist (history.filterMap g) := by
  induction history with
  | nil => exact List.Sublist.slnil
  | cons e past ih =>
    cases hf : f e with
    | some a =>
      rw [List.filterMap_cons_some hf, List.filterMap_cons_some (h e a hf)]
      exact ih.cons_cons a
    | none =>
      rw [List.filterMap_cons_none hf]
      cases hg : g e with
      | some a =>
        rw [List.filterMap_cons_some hg]
        exact ih.cons a
      | none =>
        rw [List.filterMap_cons_none hg]
        exact ih

/-- Where every subject has one event, the subject of another event has none. -/
theorem not_mem_filterMap_of_nodup (h : ∀ e a, f e = some a → g e = some a) {history : List E}
    (hnodup : (history.filterMap g).Nodup) {e : E} {a : A} (he : e ∈ history) (hg : g e = some a)
    (hf : f e = none) : a ∉ history.filterMap f := by
  intro hmem
  rcases List.append_of_mem he with ⟨later, past, rfl⟩
  rw [List.filterMap_append, List.filterMap_cons_some hg] at hnodup
  rw [List.filterMap_append, List.filterMap_cons_none hf] at hmem
  have hother : a ∉ later.filterMap g ++ past.filterMap g :=
    (List.nodup_cons.mp (List.nodup_middle.mp hnodup)).1
  rcases List.mem_append.mp hmem with hlater | hpast
  · exact hother (List.mem_append_left _ ((filterMap_sublist_filterMap h later).subset hlater))
  · exact hother (List.mem_append_right _ ((filterMap_sublist_filterMap h past).subset hpast))

end Subjects

end AutoHeal.Transition
