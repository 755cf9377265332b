import Mathlib.Data.List.Basic
import Mathlib.Logic.Function.Basic
import Mathlib.Tactic.Common

/-!
# What is owed and paid

Parties incur what they owe for a subject, and pay it later, each in its own time. Where a
subject is incurred for once and a party does not owe two things at a time, each subject has
one debt that is owed or paid, and never both (`Balanced.cases`).
-/

namespace AutoHeal.Owed

variable {A B : Type*}

/-- What was incurred for a subject, what each party owes of it, and what was paid, the last
first. -/
structure Account (A B : Type*) where
  incurred : A → Option B
  owed : Nat → Option (A × B)
  paid : List (A × B)

/-- Each debt was incurred and is not paid yet, each subject is owed for by one party at most,
each payment is of what was incurred, and what was incurred is owed or was paid once. -/
structure Balanced [DecidableEq A] (account : Account A B) : Prop where
  owed : ∀ i a b, account.owed i = some (a, b) →
    account.incurred a = some b ∧ account.paid.filter (fun p => p.1 = a) = []
  unique : ∀ i j a b c, account.owed i = some (a, b) → account.owed j = some (a, c) → i = j
  paid : ∀ a b, (a, b) ∈ account.paid → account.incurred a = some b
  settled : ∀ a b, account.incurred a = some b →
    (∃ i, account.owed i = some (a, b)) ∨ account.paid.filter (fun p => p.1 = a) = [(a, b)]

variable [DecidableEq A] {account : Account A B} {i : Nat} {a : A} {b : B}

theorem balanced_nil : Balanced (⟨fun _ => none, fun _ => none, []⟩ : Account A B) := by
  constructor
  · intro i a b h
    cases h
  · intro i j a b c h
    cases h
  · intro a b h
    cases h
  · intro a b h
    cases h

/-- Nothing is owed for a new subject, -/
theorem Balanced.ne_of_new (h : Balanced account) (hnew : account.incurred a = none) {j : Nat}
    {a' : A} {b' : B} (hj : account.owed j = some (a', b')) : a' ≠ a := by
  rintro rfl
  rw [(h.owed j _ _ hj).1] at hnew
  cases hnew

/-- and nothing was paid for it. -/
theorem Balanced.unpaid_of_new (h : Balanced account) (hnew : account.incurred a = none) :
    account.paid.filter (fun p => p.1 = a) = [] := by
  apply List.filter_eq_nil_iff.mpr
  intro p hp hsubject
  have hincurred := h.paid p.1 p.2 hp
  rw [of_decide_eq_true hsubject, hnew] at hincurred
  cases hincurred

/-- A party that owes nothing may incur something for a new subject. -/
theorem Balanced.incur (h : Balanced account) (hnew : account.incurred a = none)
    (hfree : account.owed i = none) :
    Balanced ⟨Function.update account.incurred a (some b),
      Function.update account.owed i (some (a, b)), account.paid⟩ := by
  -- after the update a debt is the new one, or an old one over another subject
  have hcases : ∀ {j a' b'}, Function.update account.owed i (some (a, b)) j = some (a', b') →
      j = i ∧ a' = a ∧ b' = b ∨ a' ≠ a ∧ account.owed j = some (a', b') := by
    intro j a' b' hj
    by_cases hji : j = i
    · rw [hji, Function.update_self] at hj
      cases hj
      exact Or.inl ⟨hji, rfl, rfl⟩
    · rw [Function.update_of_ne hji] at hj
      exact Or.inr ⟨h.ne_of_new hnew hj, hj⟩
  constructor
  · intro j a' b' hj
    rcases hcases hj with ⟨-, rfl, rfl⟩ | ⟨hne, hold⟩
    · exact ⟨Function.update_self _ _ _, h.unpaid_of_new hnew⟩
    · exact ⟨(Function.update_of_ne hne _ _).trans (h.owed j a' b' hold).1, (h.owed j a' b' hold).2⟩
  · intro j k a' b' c hj hk
    rcases hcases hj with ⟨rfl, rfl, -⟩ | ⟨hne, hold⟩
    · rcases hcases hk with ⟨rfl, -⟩ | ⟨hne, -⟩
      · rfl
      · exact absurd rfl hne
    · rcases hcases hk with ⟨-, rfl, -⟩ | ⟨-, hold'⟩
      · exact absurd rfl hne
      · exact h.unique j k a' b' c hold hold'
  -- what was paid was incurred before, so it is not the new subject
  · intro a' b' hmem
    have hincurred := h.paid a' b' hmem
    have hne : a' ≠ a := by
      rintro rfl
      rw [hnew] at hincurred
      cases hincurred
    exact (Function.update_of_ne hne _ _).trans hincurred
  · intro a' b' hincurred
    by_cases ha : a' = a
    · subst ha
      change Function.update account.incurred a' (some b) a' = some b' at hincurred
      rw [Function.update_self] at hincurred
      cases hincurred
      exact Or.inl ⟨i, Function.update_self _ _ _⟩
    · change Function.update account.incurred a (some b) a' = some b' at hincurred
      rw [Function.update_of_ne ha] at hincurred
      rcases h.settled a' b' hincurred with ⟨j, hj⟩ | hpaid
      -- the party owed nothing, so an old debt is another party's
      · have hji : j ≠ i := by
          rintro rfl
          rw [hfree] at hj
          cases hj
        exact Or.inl ⟨j, (Function.update_of_ne hji _ _).trans hj⟩
      · exact Or.inr hpaid

/-- A party may pay what it owes. -/
theorem Balanced.pay (h : Balanced account) (hi : account.owed i = some (a, b)) :
    Balanced ⟨account.incurred, Function.update account.owed i none, (a, b) :: account.paid⟩ := by
  have hother : ∀ {j a' b'}, Function.update account.owed i none j = some (a', b') →
      a' ≠ a ∧ account.owed j = some (a', b') := by
    intro j a' b' hj
    by_cases hji : j = i
    · rw [hji, Function.update_self] at hj
      cases hj
    · rw [Function.update_of_ne hji] at hj
      refine ⟨?_, hj⟩
      rintro rfl
      exact hji (h.unique j i _ _ _ hj hi)
  have hfilter : ∀ {a'}, a' ≠ a → ((a, b) :: account.paid).filter (fun p => p.1 = a') =
      account.paid.filter (fun p => p.1 = a') := by
    intro a' hne
    exact List.filter_cons_of_neg (by simpa using hne.symm)
  constructor
  · intro j a' b' hj
    rcases hother hj with ⟨hne, hold⟩
    rw [hfilter hne]
    exact h.owed j a' b' hold
  · intro j k a' b' c hj hk
    exact h.unique j k a' b' c (hother hj).2 (hother hk).2
  · intro a' b' hmem
    rcases List.mem_cons.mp hmem with heq | hmem
    · cases heq
      exact (h.owed i a b hi).1
    · exact h.paid a' b' hmem
  · intro a' b' hincurred
    by_cases ha : a' = a
    · -- nothing was paid for the subject before
      subst ha
      rcases h.owed i a' b hi with ⟨hincurred', hunpaid⟩
      rw [show b' = b from Option.some.inj (hincurred.symm.trans hincurred')]
      refine Or.inr ?_
      show List.filter _ ((a', b) :: account.paid) = [(a', b)]
      rw [List.filter_cons_of_pos (by simp), hunpaid]
    · rcases h.settled a' b' hincurred with ⟨j, hj⟩ | hpaid
      · have hji : j ≠ i := by
          rintro rfl
          rw [hi] at hj
          cases hj
          exact ha rfl
        exact Or.inl ⟨j, (Function.update_of_ne hji _ _).trans hj⟩
      · refine Or.inr ?_
        show List.filter _ ((a, b) :: account.paid) = [(a', b')]
        rw [hfilter ha]
        exact hpaid

/-- What was incurred is owed by one party and not paid, or owed by none and paid once. -/
theorem Balanced.cases (h : Balanced account) (hincurred : account.incurred a = some b) :
    (∃ i, account.owed i = some (a, b) ∧ account.paid.filter (fun p => p.1 = a) = []) ∨
      (∀ i c, account.owed i ≠ some (a, c)) ∧
        account.paid.filter (fun p => p.1 = a) = [(a, b)] := by
  rcases h.settled a b hincurred with ⟨i, hi⟩ | hpaid
  · exact Or.inl ⟨i, hi, (h.owed i a b hi).2⟩
  · refine Or.inr ⟨fun i c hi => ?_, hpaid⟩
    rw [(h.owed i a c hi).2] at hpaid
    cases hpaid

end AutoHeal.Owed
