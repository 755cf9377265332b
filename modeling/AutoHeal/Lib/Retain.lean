import Mathlib.Data.List.Basic
import Mathlib.Tactic.Common

/-!
# Dropping the oldest

A list from which the first `n` elements with a property are dropped, the others staying
in place. This is how a history of bounded length is kept among elements that must not be
lost: `keepLast` drops as many as leave at most `bound` of them.
-/

namespace AutoHeal.Retain

variable {α : Type*} (p : α → Bool)

/-- Drop the first `n` elements with the property. -/
def dropFirst : Nat → List α → List α
  | 0, xs => xs
  | _ + 1, [] => []
  | n + 1, x :: xs => if p x then dropFirst n xs else x :: dropFirst (n + 1) xs

/-- Keep the last `bound` elements with the property, and all the others. -/
def keepLast (bound : Nat) (xs : List α) : List α := dropFirst p (xs.countP p - bound) xs

@[simp] theorem dropFirst_zero (xs : List α) : dropFirst p 0 xs = xs := by
  cases xs <;> rfl

@[simp] theorem dropFirst_nil (n : Nat) : dropFirst p n [] = [] := by
  cases n <;> rfl

variable {p}

theorem dropFirst_cons_pos {x : α} (h : p x = true) (n : Nat) (xs : List α) :
    dropFirst p (n + 1) (x :: xs) = dropFirst p n xs := by
  rw [dropFirst, if_pos h]

theorem dropFirst_cons_neg {x : α} (h : p x = false) (n : Nat) (xs : List α) :
    dropFirst p n (x :: xs) = x :: dropFirst p n xs := by
  cases n with
  | zero => simp
  | succ n => rw [dropFirst, if_neg (by simp [h])]

theorem dropFirst_sublist (n : Nat) (xs : List α) : (dropFirst p n xs).Sublist xs := by
  induction xs generalizing n with
  | nil => simp
  | cons x xs ih =>
    cases n with
    | zero => simp
    | succ n =>
      cases h : p x with
      | true =>
        rw [dropFirst_cons_pos h]
        exact (ih n).cons x
      | false =>
        rw [dropFirst_cons_neg h]
        exact (ih (n + 1)).cons_cons x

/-- What does not have the property stays, in its order. -/
theorem filter_dropFirst (n : Nat) (xs : List α) :
    (dropFirst p n xs).filter (fun x => !p x) = xs.filter fun x => !p x := by
  induction xs generalizing n with
  | nil => simp
  | cons x xs ih =>
    cases n with
    | zero => simp
    | succ n =>
      cases h : p x with
      | true =>
        rw [dropFirst_cons_pos h, ih]
        simp [h]
      | false =>
        rw [dropFirst_cons_neg h, List.filter_cons, List.filter_cons, ih]

theorem countP_dropFirst (n : Nat) (xs : List α) :
    (dropFirst p n xs).countP p = xs.countP p - n := by
  induction xs generalizing n with
  | nil => simp
  | cons x xs ih =>
    cases n with
    | zero => simp
    | succ n =>
      cases h : p x with
      | true =>
        rw [dropFirst_cons_pos h, ih, List.countP_cons_of_pos h]
        omega
      | false =>
        rw [dropFirst_cons_neg h, List.countP_cons_of_neg (by simp [h]), ih,
          List.countP_cons_of_neg (by simp [h])]

theorem dropFirst_append (n : Nat) (xs ys : List α) :
    dropFirst p n (xs ++ ys) = dropFirst p n xs ++ dropFirst p (n - xs.countP p) ys := by
  induction xs generalizing n with
  | nil => simp
  | cons x xs ih =>
    cases n with
    | zero => simp
    | succ n =>
      cases h : p x with
      | true =>
        rw [List.cons_append, dropFirst_cons_pos h, dropFirst_cons_pos h, ih,
          List.countP_cons_of_pos h]
        congr 2
        omega
      | false =>
        rw [List.cons_append, dropFirst_cons_neg h, dropFirst_cons_neg h, ih,
          List.countP_cons_of_neg (by simp [h])]
        rfl

/-! ## Keeping the last -/

theorem keepLast_sublist (bound : Nat) (xs : List α) : (keepLast p bound xs).Sublist xs :=
  dropFirst_sublist _ xs

theorem filter_keepLast (bound : Nat) (xs : List α) :
    (keepLast p bound xs).filter (fun x => !p x) = xs.filter fun x => !p x := filter_dropFirst _ xs

theorem countP_keepLast_le (bound : Nat) (xs : List α) : (keepLast p bound xs).countP p ≤ bound := by
  rw [keepLast, countP_dropFirst]
  omega

theorem keepLast_of_le {bound : Nat} {xs : List α} (h : xs.countP p ≤ bound) :
    keepLast p bound xs = xs := by
  rw [keepLast, Nat.sub_eq_zero_of_le h, dropFirst_zero]

/-- An element with the property stays, with all that comes after it, exactly when fewer
than `bound` others come after it. -/
theorem keepLast_of_lt {bound : Nat} {x : α} (xs : List α) {ys : List α} (hx : p x = true)
    (h : ys.countP p < bound) :
    ∃ n, keepLast p bound (xs ++ x :: ys) = dropFirst p n xs ++ x :: ys := by
  refine ⟨xs.countP p + (ys.countP p + 1) - bound, ?_⟩
  rw [keepLast, dropFirst_append, List.countP_append, List.countP_cons_of_pos hx,
    show xs.countP p + (ys.countP p + 1) - bound - xs.countP p = 0 by omega, dropFirst_zero]

theorem keepLast_of_ge {bound : Nat} {x : α} (xs : List α) {ys : List α} (hx : p x = true)
    (h : bound ≤ ys.countP p) :
    ∃ m n, keepLast p bound (xs ++ x :: ys) = dropFirst p m xs ++ dropFirst p n ys := by
  refine ⟨xs.countP p + (ys.countP p + 1) - bound, ys.countP p - bound, ?_⟩
  rw [keepLast, dropFirst_append, List.countP_append, List.countP_cons_of_pos hx,
    show xs.countP p + (ys.countP p + 1) - bound - xs.countP p = ys.countP p - bound + 1 by omega,
    dropFirst_cons_pos hx]

/-! ## By position -/

/-- The positions, counted from `k`, at which the property holds. -/
def positions (p : α → Bool) (xs : List α) (k : Nat) : List Nat :=
  ((xs.zipIdx k).filter fun y => p y.1).map Prod.snd

theorem positions_cons_pos {x : α} (h : p x = true) (xs : List α) (k : Nat) :
    positions p (x :: xs) k = k :: positions p xs (k + 1) := by
  rw [positions, List.zipIdx_cons, List.filter_cons, if_pos h]
  rfl

theorem positions_cons_neg {x : α} (h : p x = false) (xs : List α) (k : Nat) :
    positions p (x :: xs) k = positions p xs (k + 1) := by
  rw [positions, List.zipIdx_cons, List.filter_cons, if_neg (by simp [h])]
  rfl

theorem le_of_mem_positions {xs : List α} {k j : Nat} (h : j ∈ positions p xs k) : k ≤ j := by
  rcases List.mem_map.mp h with ⟨y, hy, rfl⟩
  exact List.le_snd_of_mem_zipIdx (List.mem_of_mem_filter hy)

theorem length_positions (xs : List α) (k : Nat) : (positions p xs k).length = xs.countP p := by
  induction xs generalizing k with
  | nil => rfl
  | cons x xs ih =>
    cases h : p x with
    | true => rw [positions_cons_pos h, List.length_cons, ih, List.countP_cons_of_pos h]
    | false => rw [positions_cons_neg h, ih, List.countP_cons_of_neg (by simp [h])]

/-- Dropping the first `n` of these positions drops the first `n` such elements. -/
theorem filter_zipIdx_eq_dropFirst (xs : List α) (n k : Nat) :
    ((xs.zipIdx k).filter fun y => !((positions p xs k).take n).contains y.2).map Prod.fst =
      dropFirst p n xs := by
  induction xs generalizing n k with
  | nil => simp
  | cons x xs ih =>
    cases h : p x with
    | false =>
      -- the position of the head is before all of them
      have hhead : ((positions p xs (k + 1)).take n).contains k = false := by
        rw [List.contains_eq_mem, decide_eq_false_iff_not]
        intro hmem
        have hle := le_of_mem_positions (List.mem_of_mem_take hmem)
        omega
      rw [positions_cons_neg h, dropFirst_cons_neg h, ← ih n (k + 1), List.zipIdx_cons,
        List.filter_cons, if_pos (by simpa using hhead)]
      rfl
    | true =>
      cases n with
      | zero => simp
      | succ n =>
        rw [positions_cons_pos h, List.take_succ_cons, dropFirst_cons_pos h, ← ih n (k + 1),
          List.zipIdx_cons, List.filter_cons, if_neg (by simp)]
        congr 1
        refine List.filter_congr fun y hy => ?_
        have hle := List.le_snd_of_mem_zipIdx hy
        have hne : y.2 ≠ k := by omega
        simp [hne]

end AutoHeal.Retain
