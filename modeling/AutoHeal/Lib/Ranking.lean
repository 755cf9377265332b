import Mathlib.Algebra.Order.BigOperators.Group.Finset
import Mathlib.Algebra.BigOperators.Intervals

/-!
# Moves that come to an end

Some moves of a system go on with work that is there, and lower a rank; the others bring new work,
and raise it by their load at most. So the former are bounded by the rank at the start and the
loads (`Ranked.count_le`). If one of them can be made as long as there is work, the work can be
brought to its end (`Ranked.exists_drained`).
-/

namespace AutoHeal.Ranking

variable {S M : Type*} {step : S → M → S → Prop}

/-- Moves one after the other. -/
inductive Path (step : S → M → S → Prop) : S → List M → S → Prop
  | nil {s : S} : Path step s [] s
  | cons {s s' s'' : S} {m : M} {ms : List M} :
    step s m s' → Path step s' ms s'' → Path step s (m :: ms) s''

/-- What every move keeps holds at the end. -/
theorem Path.invariant {inv : S → Prop} {s s' : S} {ms : List M} (h : Path step s ms s') (hs : inv s)
    (hkeeps : ∀ s m s', inv s → step s m s' → inv s') : inv s' := by
  induction h with
  | nil => exact hs
  | cons hstep _ ih => exact ih (hkeeps _ _ _ hs hstep)

/-- In states with an invariant, moves that go on lower a rank, others raise it by their load, and
while it is positive one that goes on can be made. -/
structure Ranked (step : S → M → S → Prop) (inv : S → Prop) (goes : M → Bool) (load : M → Nat)
    (rank : S → Nat) : Prop where
  keeps : ∀ s m s', inv s → step s m s' → inv s'
  falls : ∀ s m s', inv s → goes m = true → step s m s' → rank s' < rank s
  grows : ∀ s m s', inv s → goes m = false → step s m s' → rank s' ≤ rank s + load m
  moves : ∀ s, inv s → rank s ≠ 0 → ∃ m s', goes m = true ∧ step s m s'

section Work

variable {inv : S → Prop} {goes : M → Bool} {load : M → Nat} {rank : S → Nat}

/-- The moves that go on are paid for by the rank at the start and the loads. -/
theorem Ranked.count_le (h : Ranked step inv goes load rank) {s s' : S} {ms : List M} (hs : inv s)
    (hpath : Path step s ms s') :
    ms.countP goes + rank s' ≤ rank s + ((ms.filter fun m => !goes m).map load).sum := by
  induction hpath with
  | nil => simp
  | @cons s s₁ s₂ m ms hstep _ ih =>
    have hrest := ih (h.keeps _ _ _ hs hstep)
    cases hgoes : goes m with
    | true =>
      have hfalls := h.falls _ _ _ hs hgoes hstep
      rw [List.countP_cons_of_pos hgoes, List.filter_cons_of_neg (by simp [hgoes])]
      omega
    | false =>
      have hgrows := h.grows _ _ _ hs hgoes hstep
      rw [List.countP_cons_of_neg (by simp [hgoes]), List.filter_cons_of_pos (by simp [hgoes]),
        List.map_cons, List.sum_cons]
      omega

/-- Going on as long as it is possible brings the work to its end. -/
theorem Ranked.exists_drained (h : Ranked step inv goes load rank) {s : S} (hs : inv s) :
    ∃ ms s', Path step s ms s' ∧ (∀ m ∈ ms, goes m = true) ∧ rank s' = 0 := by
  induction hrank : rank s using Nat.strong_induction_on generalizing s with
  | _ n ih =>
    subst hrank
    by_cases hzero : rank s = 0
    · exact ⟨[], s, .nil, by simp, hzero⟩
    · rcases h.moves s hs hzero with ⟨m, s₁, hgoes, hstep⟩
      rcases ih _ (h.falls _ _ _ hs hgoes hstep) (h.keeps _ _ _ hs hstep) rfl with
        ⟨ms, s', hpath, hall, hend⟩
      refine ⟨m :: ms, s', .cons hstep hpath, fun m' hm' => ?_, hend⟩
      rcases List.mem_cons.mp hm' with rfl | hm'
      · exact hgoes
      · exact hall m' hm'

end Work

/-! ## Ranks of many -/

/-- The sum of the ranks of those with a number below a bound. -/
def total (rank : Nat → Nat) (n : Nat) : Nat := ∑ i ∈ Finset.range n, rank i

theorem total_eq_zero {rank : Nat → Nat} {n : Nat} : total rank n = 0 ↔ ∀ i < n, rank i = 0 := by
  unfold total
  simp [Finset.sum_eq_zero_iff]

/-- One that falls lowers the sum. -/
theorem total_lt {rank rank' : Nat → Nat} {n i : Nat} (hi : i < n) (hfalls : rank' i < rank i)
    (hsame : ∀ j, j ≠ i → rank' j = rank j) : total rank' n < total rank n := by
  refine Finset.sum_lt_sum (fun j _ => ?_) ⟨i, Finset.mem_range.mpr hi, hfalls⟩
  by_cases hji : j = i
  · rw [hji]
    exact hfalls.le
  · exact (hsame j hji).le

/-- A new one adds its rank. -/
theorem total_succ {rank rank' : Nat → Nat} {n : Nat} (hsame : ∀ j, j ≠ n → rank' j = rank j) :
    total rank' (n + 1) = total rank n + rank' n := by
  unfold total
  rw [Finset.sum_range_succ]
  congr 1
  refine Finset.sum_congr rfl fun j hj => hsame j ?_
  have := Finset.mem_range.mp hj
  omega

end AutoHeal.Ranking
