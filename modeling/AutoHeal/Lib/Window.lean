import Mathlib.Data.List.Basic
import Mathlib.Order.Lattice
import Mathlib.Tactic.Common

/-!
# Times of a sliding window

Times that come in order, the last first, and a queue that holds the latest of them, the
oldest first. What is dropped from the front of the queue is what is too old
(`dropWhile_reverse_filter`), however late it is dropped.
-/

namespace AutoHeal.Window

variable {α : Type*} [LinearOrder α] {times : List α}

/-- Of times in ascending order, those at the front that are not after a cutoff are all that
are not. -/
theorem dropWhile_eq_filter (h : times.Pairwise (· ≤ ·)) (cutoff : α) :
    (times.dropWhile fun t => decide (t ≤ cutoff)) = times.filter fun t => decide (cutoff < t) := by
  induction times with
  | nil => rfl
  | cons t times ih =>
    rcases List.pairwise_cons.mp h with ⟨hfirst, hrest⟩
    by_cases ht : t ≤ cutoff
    · rw [List.dropWhile_cons_of_pos (by simpa using ht),
        List.filter_cons_of_neg (by simpa using ht)]
      exact ih hrest
    · have hlate : ∀ t' ∈ t :: times, decide (cutoff < t') = true := by
        intro t' ht'
        rcases List.mem_cons.mp ht' with rfl | ht'
        · simpa using ht
        · simpa using lt_of_lt_of_le (not_le.mp ht) (hfirst t' ht')
      rw [List.dropWhile_cons_of_neg (by simpa using ht), List.filter_eq_self.mpr hlate]

/-- A queue that was cut before and is cut again holds the times after the later cutoff. -/
theorem dropWhile_reverse_filter (h : times.Pairwise (· ≥ ·)) {cutoff cutoff' : α}
    (hle : cutoff ≤ cutoff') :
    ((times.filter fun t => decide (cutoff < t)).reverse.dropWhile fun t => decide (t ≤ cutoff')) =
      (times.filter fun t => decide (cutoff' < t)).reverse := by
  have hascending : (times.filter fun t => decide (cutoff < t)).reverse.Pairwise (· ≤ ·) :=
    List.pairwise_reverse.mpr (h.sublist List.filter_sublist)
  rw [dropWhile_eq_filter hascending, List.filter_reverse, List.filter_filter]
  congr 1
  refine List.filter_congr fun t _ => ?_
  by_cases ht : cutoff' < t
  · simp [ht, lt_of_le_of_lt hle ht]
  · simp [ht]

end AutoHeal.Window
