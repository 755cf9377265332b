import Mathlib.Data.List.Nodup
import Mathlib.Tactic.Common

/-!
# Mappings in the order of insertion

A mapping as the list of its items. Setting a key that is there changes its value in place,
and another key goes to the end. `lookup_set` and `lookup_filter` say what is found after an
update, and `lookup_ofPairs_map` what is found when the keys have been renamed.
-/

namespace AutoHeal.Items

variable {α β : Type*} [DecidableEq α] {items : List (α × β)} {k k' : α} {v : β}

/-- Set the value of a key. -/
def set (k : α) (v : β) : List (α × β) → List (α × β)
  | [] => [(k, v)]
  | (k', w) :: items => if k' = k then (k', v) :: items else (k', w) :: set k v items

/-- The mapping with these items, of which the last counts for a key. -/
def ofPairs (pairs : List (α × β)) : List (α × β) :=
  pairs.foldl (fun items kv => set kv.1 kv.2 items) []

/-! ## Keys -/

theorem mem_keys_set (items : List (α × β)) (k : α) (v : β) :
    ∀ k' ∈ (set k v items).map Prod.fst, k' = k ∨ k' ∈ items.map Prod.fst := by
  induction items with
  | nil =>
    intro k' h
    exact Or.inl (List.mem_singleton.mp h)
  | cons kw items ih =>
    rcases kw with ⟨k₀, w⟩
    intro k' h
    unfold set at h
    split_ifs at h
    · exact Or.inr h
    · rcases List.mem_cons.mp h with rfl | h
      · exact Or.inr List.mem_cons_self
      · rcases ih k' h with h | h
        · exact Or.inl h
        · exact Or.inr (List.mem_cons_of_mem _ h)

theorem nodup_set (h : (items.map Prod.fst).Nodup) (k : α) (v : β) :
    ((set k v items).map Prod.fst).Nodup := by
  induction items with
  | nil => exact List.nodup_singleton _
  | cons kw items ih =>
    rcases kw with ⟨k₀, w⟩
    rcases List.nodup_cons.mp h with ⟨hfirst, hrest⟩
    unfold set
    split_ifs with h₀
    · exact h
    · refine List.nodup_cons.mpr ⟨fun hmem => ?_, ih hrest⟩
      rcases mem_keys_set items k v k₀ hmem with h | h
      · exact h₀ h
      · exact hfirst h

omit [DecidableEq α] in
theorem nodup_filter (h : (items.map Prod.fst).Nodup) (p : α × β → Bool) :
    ((items.filter p).map Prod.fst).Nodup := h.sublist (List.filter_sublist.map Prod.fst)

theorem mem_keys_foldl_set (pairs items : List (α × β)) :
    ∀ k ∈ (pairs.foldl (fun items kv => set kv.1 kv.2 items) items).map Prod.fst,
      k ∈ pairs.map Prod.fst ∨ k ∈ items.map Prod.fst := by
  induction pairs generalizing items with
  | nil =>
    intro k h
    exact Or.inr h
  | cons kv pairs ih =>
    intro k h
    rcases ih _ k h with h | h
    · exact Or.inl (List.mem_cons_of_mem _ h)
    · rcases mem_keys_set items kv.1 kv.2 k h with rfl | h
      · exact Or.inl List.mem_cons_self
      · exact Or.inr h

theorem mem_keys_ofPairs {pairs : List (α × β)} (h : k ∈ (ofPairs pairs).map Prod.fst) :
    k ∈ pairs.map Prod.fst := by
  rcases mem_keys_foldl_set pairs [] k h with h | h
  · exact h
  · cases h

theorem nodup_ofPairs (pairs : List (α × β)) : ((ofPairs pairs).map Prod.fst).Nodup := by
  have haux : ∀ items : List (α × β), (items.map Prod.fst).Nodup →
      ((pairs.foldl (fun items kv => set kv.1 kv.2 items) items).map Prod.fst).Nodup := by
    induction pairs with
    | nil =>
      intro items h
      exact h
    | cons kv pairs ih =>
      intro items h
      exact ih _ (nodup_set h kv.1 kv.2)
  exact haux [] List.nodup_nil

/-! ## Values -/

variable [BEq α] [LawfulBEq α]

omit [DecidableEq α] in
theorem lookup_eq_none (h : k ∉ items.map Prod.fst) : items.lookup k = none := by
  rw [List.lookup_eq_none_iff]
  intro kv hkv
  have hmem : kv.1 ∈ items.map Prod.fst := List.mem_map_of_mem hkv
  have hne : k ≠ kv.1 := by
    intro heq
    rw [← heq] at hmem
    exact h hmem
  simpa using hne

omit [DecidableEq α] in
theorem mem_of_lookup {v : β} (h : items.lookup k = some v) : (k, v) ∈ items := by
  rcases List.lookup_eq_some_iff.mp h with ⟨before, after, rfl, -⟩
  exact List.mem_append_right _ List.mem_cons_self

theorem lookup_set (items : List (α × β)) (k k' : α) (v : β) :
    (set k v items).lookup k' = if k' = k then some v else items.lookup k' := by
  induction items with
  | nil =>
    unfold set
    by_cases h : k' = k
    · simp [h]
    · simp [List.lookup_cons, beq_false_of_ne h, h]
  | cons kw items ih =>
    rcases kw with ⟨k₀, w⟩
    unfold set
    by_cases h₀ : k₀ = k
    · subst h₀
      by_cases h : k' = k₀
      · simp [h]
      · simp [List.lookup_cons, beq_false_of_ne h, h]
    · rw [if_neg h₀, List.lookup_cons, List.lookup_cons, ih]
      by_cases h : k' = k₀
      · subst h
        simp [h₀]
      · simp [beq_false_of_ne h]

/-- Of items with different keys, those that are kept are found as before. -/
theorem lookup_filter (h : (items.map Prod.fst).Nodup) (p : β → Bool) (k : α) :
    (items.filter fun kv => p kv.2).lookup k = (items.lookup k).filter p := by
  induction items with
  | nil => rfl
  | cons kw items ih =>
    rcases kw with ⟨k₀, w⟩
    rcases List.nodup_cons.mp h with ⟨hfirst, hrest⟩
    by_cases hk : k = k₀
    · subst hk
      have hnone : items.lookup k = none := lookup_eq_none hfirst
      cases hp : p w with
      | true => simp [hp, Option.filter_some]
      | false =>
        have hdropped := ih hrest
        rw [hnone] at hdropped
        simp [hp, hdropped, Option.filter_some]
    · cases hp : p w with
      | true => simp [hp, List.lookup_cons, beq_false_of_ne hk, ih hrest]
      | false => simp [hp, List.lookup_cons, beq_false_of_ne hk, ih hrest]

/-- A mapping with its keys renamed has under a key what it had, when no other key got its name. -/
theorem lookup_ofPairs_map (h : (items.map Prod.fst).Nodup) {g : α → α}
    (hg : ∀ k' ∈ items.map Prod.fst, g k' = k ↔ k' = k) :
    (ofPairs (items.map fun kv => (g kv.1, kv.2))).lookup k = items.lookup k := by
  have haux : ∀ before : List (α × β),
      ((items.map fun kv => (g kv.1, kv.2)).foldl (fun items kv => set kv.1 kv.2 items)
        before).lookup k = (items.lookup k).or (before.lookup k) := by
    induction items with
    | nil =>
      intro before
      rfl
    | cons kw items ih =>
      intro before
      rcases kw with ⟨k₀, w⟩
      rcases List.nodup_cons.mp h with ⟨hfirst, hrest⟩
      rw [List.map_cons, List.foldl_cons, ih hrest fun k' hk' => hg k' (List.mem_cons_of_mem _ hk'),
        lookup_set, List.lookup_cons]
      have hfirstg := hg k₀ List.mem_cons_self
      by_cases hk : k₀ = k
      · subst hk
        rw [if_pos (hfirstg.mpr rfl).symm, lookup_eq_none hfirst]
        simp
      · rw [if_neg fun heq => hk (hfirstg.mp heq.symm), beq_false_of_ne (Ne.symm hk)]
  have hempty := haux []
  rw [List.lookup_nil, Option.or_none] at hempty
  exact hempty

end AutoHeal.Items
