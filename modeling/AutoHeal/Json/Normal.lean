import AutoHeal.Json.RoundTrip
import Mathlib.Data.List.Induction

/-!
# JSON values

`JsonValue` are the values a JSON text denotes: string keys, each once, no
object without a JSON form, no split surrogate pair. `loads` gives nothing else
(`jsonValue_of_loads`) and gives every one of them back from its text
(`loads_print`). Two of them are the same value when they differ in the order of
dict items only; then, and only then, their texts with sorted keys are equal
(`print_sortKeys_inj`).
-/

namespace AutoHeal

variable {F : Type}

/-- The dict with `f` applied to every value. -/
def Dict.mapValues (f : PyVal F → PyVal F) (d : Dict F) : Dict F := d.map fun kv => (kv.1, f kv.2)

theorem Dict.mem_mapValues {f : PyVal F → PyVal F} {d : Dict F} {kv : Key F × PyVal F} :
    kv ∈ d.mapValues f ↔ ∃ kw ∈ d, (kw.1, f kw.2) = kv := List.mem_map

/-! ## The recursions as maps -/

section Maps

variable [JsonFloat F]

@[simp] theorem stringifyList_eq (xs : List (PyVal F)) : stringifyList xs = xs.map stringify := by
  induction xs with
  | nil => rfl
  | cons x xs ih => simp [stringifyList, ih]

@[simp] theorem stringifyDict_eq (kvs : Dict F) : stringifyDict kvs =
    kvs.map fun kv => (.str (joinSurrogates (keyText kv.1)), stringify kv.2) := by
  induction kvs with
  | nil => rfl
  | cons kv kvs ih => simp [stringifyDict, ih]

@[simp] theorem sortKeysList_eq (xs : List (PyVal F)) : sortKeysList xs = xs.map sortKeys := by
  induction xs with
  | nil => rfl
  | cons x xs ih => simp [sortKeysList, ih]

@[simp] theorem sortKeysDict_eq (kvs : Dict F) :
    sortKeysDict kvs = Dict.mapValues sortKeys kvs := by
  induction kvs with
  | nil => rfl
  | cons kv kvs ih => simp [sortKeysDict, ih, Dict.mapValues]

omit [JsonFloat F] in
@[simp] theorem resolveList_eq (xs : List (PyVal F)) : resolveList xs = xs.map resolve := by
  induction xs with
  | nil => rfl
  | cons x xs ih => simp [resolveList, ih]

omit [JsonFloat F] in
@[simp] theorem resolveDict_eq (kvs : Dict F) :
    resolveDict kvs = Dict.mapValues resolve kvs := by
  induction kvs with
  | nil => rfl
  | cons kv kvs ih => simp [resolveDict, ih, Dict.mapValues]

end Maps

/-! ## Dict operations on string keys -/

/-- The keys of a dict. -/
def Dict.keys (d : Dict F) : List (Key F) := d.map Prod.fst

/-- Every key is a string. -/
def StrKeys (d : Dict F) : Prop := ∀ kv ∈ d, ∃ s, kv.1 = .str s

theorem Key.isStr_iff {k : Key F} {s : Str} : k.isStr s = true ↔ k = .str s := by
  cases k <;> simp [Key.isStr]

theorem Key.isStr_self (s : Str) : (Key.str s : Key F).isStr s = true := by simp [Key.isStr]

theorem Dict.get?_eq_some_of_mem {d : Dict F} (hd : d.keys.Nodup) {s : Str} {v : PyVal F}
    (h : (Key.str s, v) ∈ d) : Dict.get? s d = some v := by
  induction d with
  | nil => cases h
  | cons kv d ih =>
    obtain ⟨k, w⟩ := kv
    rw [Dict.keys, List.map_cons, List.nodup_cons] at hd
    rcases List.mem_cons.mp h with heq | hmem
    · cases heq
      simp [Dict.get?, Key.isStr_self]
    · have hk : k.isStr s ≠ true := by
        intro hk
        rw [Key.isStr_iff] at hk
        subst hk
        exact hd.1 (List.mem_map.mpr ⟨(.str s, v), hmem, rfl⟩)
      simp [Dict.get?, hk, ih hd.2 hmem]

theorem Dict.mem_of_get? {d : Dict F} {s : Str} {v : PyVal F} (h : Dict.get? s d = some v) :
    (Key.str s, v) ∈ d := by
  induction d with
  | nil => cases h
  | cons kv d ih =>
    obtain ⟨k, w⟩ := kv
    rw [Dict.get?] at h
    split at h
    · next hk =>
      rw [Key.isStr_iff] at hk
      simp_all
    · exact List.mem_cons_of_mem _ (ih h)

theorem Dict.get?_eq_none_iff {d : Dict F} {s : Str} :
    Dict.get? s d = none ↔ Key.str s ∉ d.keys := by
  induction d with
  | nil => simp [Dict.get?, Dict.keys]
  | cons kv d ih =>
    obtain ⟨k, w⟩ := kv
    rw [Dict.get?]
    by_cases hk : k.isStr s = true
    · obtain rfl := Key.isStr_iff.mp hk
      simp [hk, Dict.keys]
    · have hk' : ¬ Key.str s = k := fun h => hk (Key.isStr_iff.mpr h.symm)
      simp only [hk, Bool.false_eq_true, if_false, ih]
      simp [Dict.keys, hk']

theorem Dict.get?_perm {d e : Dict F} (hd : d.keys.Nodup) (h : d.Perm e) (s : Str) :
    Dict.get? s d = Dict.get? s e := by
  have he : e.keys.Nodup := (h.map Prod.fst).nodup_iff.mp hd
  cases hs : Dict.get? s d with
  | none =>
    rw [Dict.get?_eq_none_iff] at hs
    exact (Dict.get?_eq_none_iff.mpr fun hmem => hs ((h.map Prod.fst).mem_iff.mpr hmem)).symm
  | some v => exact (Dict.get?_eq_some_of_mem he (h.mem_iff.mp (Dict.mem_of_get? hs))).symm

/-- Dicts with distinct string keys are permutations of each other when every key
has the same value in both. -/
theorem Dict.perm_of_get? {d e : Dict F} (hd : d.keys.Nodup) (he : e.keys.Nodup)
    (hds : StrKeys d) (hes : StrKeys e)
    (h : ∀ s, Dict.get? s d = Dict.get? s e) : d.Perm e := by
  have hsub : ∀ {d e : Dict F}, d.keys.Nodup → StrKeys d →
      (∀ s, Dict.get? s d = Dict.get? s e) → ∀ kv ∈ d, kv ∈ e := by
    intro d e hd hds h kv hkv
    obtain ⟨s, hs⟩ := hds kv hkv
    obtain ⟨k, v⟩ := kv
    cases hs
    exact Dict.mem_of_get? ((h s).symm.trans (Dict.get?_eq_some_of_mem hd hkv))
  exact (List.perm_ext_iff_of_nodup (List.Nodup.of_map _ hd) (List.Nodup.of_map _ he)).mpr
    fun kv => ⟨hsub hd hds h kv, hsub he hes (fun s => (h s).symm) kv⟩

theorem Dict.get?_mapValues (f : PyVal F → PyVal F) (d : Dict F) (s : Str) :
    Dict.get? s (d.mapValues f) = (Dict.get? s d).map f := by
  induction d with
  | nil => rfl
  | cons kv d ih =>
    rw [Dict.mapValues] at ih
    simp only [Dict.mapValues, List.map_cons, Dict.get?, ih]
    split <;> simp

theorem Dict.keys_mapValues (f : PyVal F → PyVal F) (d : Dict F) :
    (d.mapValues f).keys = d.keys := by
  simp [Dict.keys, Dict.mapValues]

theorem Dict.set_of_notMem {d : Dict F} {s : Str} (h : Key.str s ∉ d.keys) (v : PyVal F) :
    Dict.set s v d = d ++ [(.str s, v)] := by
  induction d with
  | nil => rfl
  | cons kv d ih =>
    obtain ⟨k, w⟩ := kv
    have hk : k.isStr s ≠ true := by
      intro hk
      rw [Key.isStr_iff] at hk
      exact h (by simp [Dict.keys, hk])
    have hd : Key.str s ∉ Dict.keys d := fun hm => h (by simp [Dict.keys] at hm ⊢; tauto)
    simp [Dict.set, hk, ih hd]

theorem Dict.keys_set_of_mem {d : Dict F} {s : Str} (h : Key.str s ∈ d.keys) (v : PyVal F) :
    (Dict.set s v d).keys = d.keys := by
  induction d with
  | nil => cases h
  | cons kv d ih =>
    obtain ⟨k, w⟩ := kv
    by_cases hk : k.isStr s = true
    · simp [Dict.set, hk, Dict.keys]
    · have hd : Key.str s ∈ Dict.keys d := by
        simp only [Dict.keys, List.map_cons, List.mem_cons] at h
        rcases h with h | h
        · exact absurd (Key.isStr_iff.mpr h.symm) hk
        · exact h
      have htail := ih hd
      simp only [Dict.keys] at htail
      simp [Dict.set, hk, Dict.keys, htail]

theorem Dict.keys_set_nodup {d : Dict F} (hd : d.keys.Nodup) (s : Str) (v : PyVal F) :
    (Dict.set s v d).keys.Nodup := by
  by_cases h : Key.str s ∈ d.keys
  · rwa [Dict.keys_set_of_mem h]
  · rw [Dict.set_of_notMem h]
    simp only [Dict.keys, List.map_append, List.map_cons, List.map_nil] at h ⊢
    exact List.nodup_append.mpr ⟨hd, List.nodup_singleton _, fun a ha b hb hab =>
      h (by rw [List.mem_singleton] at hb; exact hb ▸ hab ▸ ha)⟩

theorem Dict.mem_set {d : Dict F} {s : Str} {v : PyVal F} {kv : Key F × PyVal F}
    (h : kv ∈ Dict.set s v d) : kv ∈ d ∨ kv = (.str s, v) := by
  induction d with
  | nil => exact Or.inr (by simpa [Dict.set] using h)
  | cons kw d ih =>
    obtain ⟨k, w⟩ := kw
    rw [Dict.set] at h
    split at h
    · next hk =>
      rw [Key.isStr_iff] at hk
      rcases List.mem_cons.mp h with h | h
      · exact Or.inr (by rw [h, hk])
      · exact Or.inl (List.mem_cons_of_mem _ h)
    · rcases List.mem_cons.mp h with h | h
      · exact Or.inl (by simp [h])
      · rcases ih h with h | h
        · exact Or.inl (List.mem_cons_of_mem _ h)
        · exact Or.inr h

theorem StrKeys.set {d : Dict F} (h : StrKeys d) (s : Str) (v : PyVal F) :
    StrKeys (Dict.set s v d) := by
  intro kv hkv
  rcases Dict.mem_set hkv with hkv | rfl
  · exact h kv hkv
  · exact ⟨s, rfl⟩

/-- Different names are different keys. -/
theorem nodup_map_str {names : List Str} (h : names.Nodup) :
    (names.map (Key.str : Str → Key F)).Nodup :=
  (List.nodup_map_iff fun _ _ => Key.str.inj).mpr h

/-! ## A dict without one of its keys -/

/-- `{k: v for k, v in d.items() if k != s}`. -/
def Dict.erase (s : Str) (d : Dict F) : Dict F := d.filter fun kv => !kv.1.isStr s

theorem Dict.get?_erase (d : Dict F) (s t : Str) :
    Dict.get? t (Dict.erase s d) = if t = s then Option.none else Dict.get? t d := by
  induction d with
  | nil => simp [Dict.erase, Dict.get?]
  | cons kv d ih =>
    obtain ⟨k, v⟩ := kv
    rw [Dict.erase] at ih
    by_cases hs : k.isStr s = true
    · rw [Dict.erase, List.filter_cons_of_neg (by simp [hs]), ih, Dict.get?]
      obtain rfl := Key.isStr_iff.mp hs
      by_cases hts : t = s
      · simp [hts]
      · have : (Key.str s : Key F).isStr t = false := by simp [Key.isStr, Ne.symm hts]
        simp [hts, this]
    · rw [Dict.erase, List.filter_cons_of_pos (by simp [hs]), Dict.get?, ih, Dict.get?]
      by_cases ht : k.isStr t = true
      · have hts : t ≠ s := fun h => hs (h ▸ ht)
        simp [ht, hts]
      · simp [ht]

theorem Dict.mem_erase {d : Dict F} {s : Str} {kv : Key F × PyVal F} (h : kv ∈ Dict.erase s d) :
    kv ∈ d := List.mem_of_mem_filter h

theorem Dict.keys_erase_nodup {d : Dict F} (h : d.keys.Nodup) (s : Str) :
    (Dict.erase s d).keys.Nodup :=
  h.sublist (List.Sublist.map _ List.filter_sublist)

theorem Dict.erase_of_notMem {d : Dict F} {s : Str} (h : Key.str s ∉ d.keys) :
    Dict.erase s d = d := by
  refine List.filter_eq_self.mpr fun kv hkv => ?_
  simp only [Bool.not_eq_true', Bool.eq_false_iff]
  intro hs
  exact h (Key.isStr_iff.mp hs ▸ List.mem_map_of_mem hkv)

theorem Dict.get?_set (d : Dict F) (s t : Str) (v : PyVal F) :
    Dict.get? t (Dict.set s v d) = if t = s then some v else Dict.get? t d := by
  induction d with
  | nil =>
    by_cases h : t = s
    · simp [Dict.set, Dict.get?, Key.isStr, h]
    · simp [Dict.set, Dict.get?, Key.isStr, h, Ne.symm h]
  | cons kv d ih =>
    obtain ⟨k, w⟩ := kv
    rw [Dict.set]
    by_cases hs : k.isStr s = true
    · obtain rfl := Key.isStr_iff.mp hs
      by_cases hts : t = s
      · simp [Dict.get?, hs, hts]
      · have : (Key.str s : Key F).isStr t = false := by simp [Key.isStr, Ne.symm hts]
        simp [Dict.get?, hs, hts, this]
    · rw [if_neg hs, Dict.get?, ih, Dict.get?]
      by_cases ht : k.isStr t = true
      · have hts : t ≠ s := fun h => hs (h ▸ ht)
        simp [ht, hts]
      · simp [ht]

theorem Dict.erase_set (d : Dict F) (s : Str) (v : PyVal F) :
    Dict.erase s (Dict.set s v d) = Dict.erase s d := by
  induction d with
  | nil => simp [Dict.set, Dict.erase, Key.isStr]
  | cons kv d ih =>
    obtain ⟨k, w⟩ := kv
    unfold Dict.erase at ih ⊢
    by_cases hk : k.isStr s = true
    · simp [Dict.set, hk]
    · simp [Dict.set, hk, ih]

/-! ## `dict(pairs)` -/

theorem dictOfPairs_aux {pairs : Dict F} (hp : StrKeys pairs) :
    ∀ acc : Dict F, acc.keys.Nodup →
      (pairs.foldl (fun d kv => match kv.1 with
        | .str s => Dict.set s kv.2 d
        | k => d ++ [(k, kv.2)]) acc).keys.Nodup ∧
      (∀ kv ∈ pairs.foldl (fun d kv => match kv.1 with
        | .str s => Dict.set s kv.2 d
        | k => d ++ [(k, kv.2)]) acc, kv ∈ acc ∨ kv ∈ pairs) ∧
      ((acc ++ pairs).keys.Nodup → pairs.foldl (fun d kv => match kv.1 with
        | .str s => Dict.set s kv.2 d
        | k => d ++ [(k, kv.2)]) acc = acc ++ pairs) := by
  induction pairs with
  | nil => intro acc hacc; simp [hacc]
  | cons kv pairs ih =>
    intro acc hacc
    obtain ⟨s, hs⟩ := hp kv (by simp)
    obtain ⟨k, v⟩ := kv
    simp only at hs
    subst hs
    simp only [List.foldl_cons]
    -- the three facts hold together: the first keeps the last one's hypothesis alive
    have hrest := ih (fun kv hkv => hp kv (by simp [hkv])) (Dict.set s v acc)
      (Dict.keys_set_nodup hacc s v)
    refine ⟨hrest.1, ?_, ?_⟩
    · intro kv hkv
      rcases hrest.2.1 kv hkv with h | h
      · rcases Dict.mem_set h with h | h
        · exact Or.inl h
        · exact Or.inr (by simp [h])
      · exact Or.inr (by simp [h])
    · intro hnodup
      have hfresh : Key.str s ∉ acc.keys := by
        simp only [Dict.keys, List.map_append, List.map_cons] at hnodup
        intro hmem
        exact (List.nodup_append.mp hnodup).2.2 _ hmem _ (by simp) rfl
      rw [Dict.set_of_notMem hfresh] at hrest ⊢
      rw [hrest.2.2 (by simpa [Dict.keys] using hnodup)]
      simp

theorem keys_dictOfPairs_nodup {pairs : Dict F} (hp : StrKeys pairs) :
    (dictOfPairs pairs).keys.Nodup :=
  (dictOfPairs_aux hp [] List.nodup_nil).1

theorem mem_dictOfPairs {pairs : Dict F} (hp : StrKeys pairs) {kv : Key F × PyVal F}
    (h : kv ∈ dictOfPairs pairs) : kv ∈ pairs := by
  rcases (dictOfPairs_aux hp [] List.nodup_nil).2.1 kv h with h | h
  · cases h
  · exact h

/-- Pairs with distinct keys are the dict they make. -/
theorem dictOfPairs_eq_self {pairs : Dict F} (hp : StrKeys pairs) (hn : pairs.keys.Nodup) :
    dictOfPairs pairs = pairs := by
  have h := (dictOfPairs_aux hp [] List.nodup_nil).2.2 (by simpa using hn)
  rwa [List.nil_append] at h

/-- Of the pairs with one key the last counts. -/
theorem Dict.get?_dictOfPairs {pairs : Dict F} (hp : StrKeys pairs) (t : Str) :
    Dict.get? t (dictOfPairs pairs) = Dict.get? t pairs.reverse := by
  induction pairs using List.reverseRecOn with
  | nil => rfl
  | append_singleton pairs kv ih =>
    rcases hp kv (by simp) with ⟨s, hs⟩
    have hset : dictOfPairs (pairs ++ [kv]) = Dict.set s kv.2 (dictOfPairs pairs) := by
      unfold dictOfPairs
      rw [List.foldl_append, List.foldl_cons, List.foldl_nil, hs]
    rw [hset, Dict.get?_set, ih fun kw hkw => hp kw (by simp [hkw]), List.reverse_append,
      List.reverse_singleton, List.singleton_append, Dict.get?, hs]
    by_cases h : t = s
    · rw [if_pos h, if_pos (Key.isStr_iff.mpr (by rw [h]))]
    · rw [if_neg h, if_neg fun hk => h (Key.str.inj (Key.isStr_iff.mp hk)).symm]

/-! ## JSON values -/

/-- A string without split surrogate pairs, used as a key. -/
def JsonKey (k : Key F) : Prop := ∃ s, k = .str s ∧ joinSurrogates s = s

/-- The values a JSON text denotes. -/
inductive JsonValue : PyVal F → Prop
  | none : JsonValue .none
  | bool (b : Bool) : JsonValue (.bool b)
  | int (n : Int) : JsonValue (.int n)
  | float (x : F) : JsonValue (.float x)
  | str {s : Str} : joinSurrogates s = s → JsonValue (.str s)
  | list {xs : List (PyVal F)} : (∀ x ∈ xs, JsonValue x) → JsonValue (.list xs)
  | dict {kvs : Dict F} : kvs.keys.Nodup → (∀ kv ∈ kvs, JsonKey kv.1) →
      (∀ kv ∈ kvs, JsonValue kv.2) → JsonValue (.dict kvs)

theorem JsonValue.strKeys {kvs : Dict F} (h : JsonValue (.dict kvs)) : StrKeys kvs := by
  cases h with
  | dict _ hkey _ =>
    intro kv hmem
    obtain ⟨s, hs, -⟩ := hkey kv hmem
    exact ⟨s, hs⟩

theorem JsonValue.keys_nodup {kvs : Dict F} (h : JsonValue (.dict kvs)) : kvs.keys.Nodup := by
  cases h with
  | dict hn _ _ => exact hn

theorem JsonValue.jsonKey {kvs : Dict F} (h : JsonValue (.dict kvs)) :
    ∀ kv ∈ kvs, JsonKey kv.1 := by
  cases h with
  | dict _ hkey _ => exact hkey

theorem JsonValue.get? {kvs : Dict F} (h : JsonValue (.dict kvs)) {s : Str} {v : PyVal F}
    (hv : Dict.get? s kvs = some v) : JsonValue v := by
  cases h with
  | dict _ _ hval => exact hval _ (Dict.mem_of_get? hv)

theorem JsonValue.erase {d : Dict F} (h : JsonValue (.dict d)) (s : Str) :
    JsonValue (.dict (Dict.erase s d)) := by
  cases h with
  | dict hn hkey hval =>
    exact .dict (Dict.keys_erase_nodup hn s) (fun kv hkv => hkey kv (Dict.mem_erase hkv))
      fun kv hkv => hval kv (Dict.mem_erase hkv)

theorem JsonValue.set {d : Dict F} (h : JsonValue (.dict d)) {s : Str} (hs : joinSurrogates s = s)
    {v : PyVal F} (hv : JsonValue v) : JsonValue (.dict (Dict.set s v d)) := by
  cases h with
  | dict hn hkey hval =>
    refine .dict (Dict.keys_set_nodup hn s v) (fun kv hkv => ?_) (fun kv hkv => ?_)
    · rcases Dict.mem_set hkv with hkv | rfl
      · exact hkey kv hkv
      · exact ⟨s, rfl, hs⟩
    · rcases Dict.mem_set hkv with hkv | rfl
      · exact hval kv hkv
      · exact hv

theorem jsonValue_empty : JsonValue (.dict ([] : Dict F)) :=
  .dict List.nodup_nil (fun _ h => absurd h List.not_mem_nil) fun _ h => absurd h List.not_mem_nil

theorem JsonValue.cons {d : Dict F} (h : JsonValue (.dict d)) {s : Str}
    (hs : joinSurrogates s = s) (hfresh : Dict.get? s d = Option.none) {v : PyVal F}
    (hv : JsonValue v) : JsonValue (.dict ((.str s, v) :: d)) := by
  cases h with
  | dict hn hkey hval =>
    refine .dict ?_ (fun kv hkv => ?_) fun kv hkv => ?_
    · exact List.nodup_cons.mpr ⟨Dict.get?_eq_none_iff.mp hfresh, hn⟩
    · rcases List.mem_cons.mp hkv with rfl | hkv
      · exact ⟨s, rfl, hs⟩
      · exact hkey kv hkv
    · rcases List.mem_cons.mp hkv with rfl | hkv
      · exact hv
      · exact hval kv hkv

variable [JsonFloat F]

theorem stringify_of_jsonValue {v : PyVal F} (h : JsonValue v) : stringify v = v := by
  induction h with
  | none | bool | int | float => rfl
  | str hs => rw [stringify, hs]
  | list _ ih =>
    rw [stringify, stringifyList_eq, List.map_congr_left ih, List.map_id']
  | dict _ hkey _ ih =>
    rw [stringify, stringifyDict_eq]
    congr 1
    refine (List.map_congr_left ?_).trans (List.map_id' _)
    intro kv hmem
    obtain ⟨s, hs, hjoin⟩ := hkey kv hmem
    rw [ih kv hmem, hs, keyText, hjoin, ← hs]

omit [JsonFloat F] in
theorem resolve_of_jsonValue {v : PyVal F} (h : JsonValue v) : resolve v = v := by
  induction h with
  | none | bool | int | float | str => rfl
  | list _ ih => rw [resolve, resolveList_eq, List.map_congr_left ih, List.map_id']
  | @dict kvs hn hkey hval ih =>
    have hmap : kvs.mapValues resolve = kvs := by
      refine (List.map_congr_left ?_).trans (List.map_id' _)
      intro kv hmem
      rw [ih kv hmem]
    rw [resolve, resolveDict_eq, hmap, dictOfPairs_eq_self (JsonValue.dict hn hkey hval).strKeys hn]

/-- A JSON value is read back from its text, in either style. -/
theorem loads_print {v : PyVal F} (h : JsonValue v) (st : Style) : loads (print st v) = some v := by
  rw [loads, parse_print, Option.map_some, stringify_of_jsonValue h, resolve_of_jsonValue h]

/-! ## Plain texts -/

/-- No high surrogate, so that no surrogate pair can begin in the text. -/
def NoHigh (s : Str) : Prop := ∀ c ∈ s, isHighSurrogate c = false

theorem NoHigh.append {s t : Str} (hs : NoHigh s) (ht : NoHigh t) : NoHigh (s ++ t) :=
  List.forall_mem_append.mpr ⟨hs, ht⟩

theorem NoHigh.join {s : Str} (h : NoHigh s) : joinSurrogates s = s := by
  induction s with
  | nil => rfl
  | cons c s ih =>
    rw [joinSurrogates_cons_of_not_high (h c (by simp)), ih fun d hd => h d (by simp [hd])]

theorem Printable.noHigh {s : Str} (h : Printable s) : NoHigh s := by
  intro c hc
  have := (h c hc).2
  simp only [isHighSurrogate, Bool.and_eq_false_iff, decide_eq_false_iff_not]
  omega

/-- A text in which no pair has been joined is the text it was made from. -/
theorem eq_of_joinSurrogates {s t : Str} (h : joinSurrogates s = t)
    (ht : ∀ c ∈ t, c.val < 0x10000) : s = t := by
  fun_induction joinSurrogates s generalizing t with
  | case1 => exact h
  | case2 c => exact h
  | case3 a b s hab ih =>
    subst h
    have hval := ht _ List.mem_cons_self
    simp only [isHighSurrogate, isLowSurrogate, Bool.and_eq_true, decide_eq_true_eq] at hab
    rw [surrogatePair, val_ofNat (by omega)] at hval
    omega
  | case4 a b s hab ih =>
    subst h
    rw [← ih rfl fun c hc => ht c (List.mem_cons_of_mem _ hc)]

/-! ## What `loads` gives -/

theorem joinSurrogates_idem (s : Str) : joinSurrogates (joinSurrogates s) = joinSurrogates s := by
  fun_induction joinSurrogates s with
  | case1 => rfl
  | case2 c => rfl
  | case3 a b s hab ih =>
    -- the pair became a code point above U+FFFF
    have hhigh : isHighSurrogate (surrogatePair a b) = false := by
      simp only [isHighSurrogate, isLowSurrogate, Bool.and_eq_true, decide_eq_true_eq] at hab
      rw [isHighSurrogate, surrogatePair, val_ofNat (by omega)]
      simp only [Bool.and_eq_false_iff, decide_eq_false_iff_not]
      omega
    rw [joinSurrogates_cons_of_not_high hhigh, ih]
  | case4 a b s hab ih =>
    -- what follows `a` starts with `b`, or with the code point of a pair
    by_cases ha : isHighSurrogate a = true
    · have hb : isLowSurrogate b = false := by simpa [ha] using hab
      obtain ⟨c, cs, hc, hlow⟩ : ∃ c cs, joinSurrogates (b :: s) = c :: cs ∧
          isLowSurrogate c = false := by
        cases s with
        | nil => exact ⟨b, [], rfl, hb⟩
        | cons d s =>
          by_cases hbd : (isHighSurrogate b && isLowSurrogate d) = true
          · refine ⟨surrogatePair b d, joinSurrogates s, by simp [joinSurrogates, hbd], ?_⟩
            simp only [isHighSurrogate, isLowSurrogate, Bool.and_eq_true, decide_eq_true_eq] at hbd
            rw [isLowSurrogate, surrogatePair, val_ofNat (by omega)]
            simp only [Bool.and_eq_false_iff, decide_eq_false_iff_not]
            omega
          · exact ⟨b, joinSurrogates (d :: s), by simp [joinSurrogates, hbd], hb⟩
      rw [hc] at ih ⊢
      rw [joinSurrogates_cons_of_not_low hlow, ih]
    · rw [joinSurrogates_cons_of_not_high (by simpa using ha), ih]

theorem stringify_value (l : NumLit) : stringify (l.value : PyVal F) = l.value := by
  rw [NumLit.value]
  split <;> rfl

theorem stringify_of_scanConstant {s : Str} {p : PyVal F × Str} (h : scanConstant s = some p) :
    stringify p.1 = p.1 := by
  obtain ⟨kv, hmem, hkv⟩ := List.exists_of_findSome?_eq_some h
  have hval : p.1 = kv.2 := by
    cases hexp : expect kv.1 s with
    | none => rw [hexp] at hkv; cases hkv
    | some r => rw [hexp] at hkv; cases hkv; rfl
  rw [hval]
  simp only [constants, List.mem_cons, List.not_mem_nil, or_false] at hmem
  rcases hmem with rfl | rfl | rfl | rfl | rfl | rfl <;> rfl

theorem stringify_of_scanString {s : Str} {p : Str × Str} (h : scanString s = some p) :
    joinSurrogates p.1 = p.1 := by
  obtain ⟨q, -, rfl⟩ := Option.map_eq_some_iff.mp h
  exact joinSurrogates_idem q.1

/-- What the three parsers return is in the form `stringify` gives. -/
theorem stringify_of_parse (n : Nat) :
    (∀ s (v : PyVal F) r, parseValue n s = some (v, r) → stringify v = v) ∧
    (∀ s (vs : List (PyVal F)) r, parseElems n s = some (vs, r) → vs.map stringify = vs) ∧
    (∀ s (kvs : Dict F) r, parseMembers n s = some (kvs, r) → stringifyDict kvs = kvs) := by
  induction n with
  -- without fuel the parsers return nothing
  | zero => exact ⟨by simp [parseValue], by simp [parseElems], by simp [parseMembers]⟩
  | succ n ih =>
    obtain ⟨ihv, ihe, ihm⟩ := ih
    refine ⟨?_, ?_, ?_⟩
    · intro s v r h
      cases s with
      | nil => simp [parseValue] at h
      | cons c cs =>
        rw [parseValue] at h
        split_ifs at h
        -- a string, an object, an array and a literal, in the order the parser tries them
        · obtain ⟨p, hp, hv⟩ := Option.map_eq_some_iff.mp h
          cases hv
          rw [stringify, stringify_of_scanString hp]
        · split at h
          · cases h; rfl
          · obtain ⟨p, hp, hv⟩ := Option.map_eq_some_iff.mp h
            cases hv
            rw [stringify, ihm _ _ _ hp]
        · split at h
          · cases h; rfl
          · obtain ⟨p, hp, hv⟩ := Option.map_eq_some_iff.mp h
            cases hv
            rw [stringify, stringifyList_eq, ihe _ _ _ hp]
        · split at h
          · next hp => cases h; exact stringify_of_scanConstant hp
          · obtain ⟨p, hp, hv⟩ := Option.map_eq_some_iff.mp h
            cases hv
            exact stringify_value p.1
    · intro s vs r h
      rw [parseElems] at h
      simp only [Option.bind_eq_bind, Option.bind_eq_some_iff] at h
      obtain ⟨⟨v, r₁⟩, hv, h⟩ := h
      -- the last element, or a comma and more of them
      split at h
      · cases h
        simp [ihv _ _ _ hv]
      · obtain ⟨r₂, -, ⟨ws, r₃⟩, hws, h⟩ := by
          simpa only [Option.bind_eq_bind, Option.bind_eq_some_iff] using h
        cases h
        simp [ihv _ _ _ hv, ihe _ _ _ hws]
    · intro s kvs r h
      cases s with
      | nil => simp [parseMembers] at h
      | cons c cs =>
        rw [parseMembers] at h
        split_ifs at h
        simp only [Option.bind_eq_bind, Option.bind_eq_some_iff] at h
        obtain ⟨⟨k, r₁⟩, hk, r₂, -, ⟨v, r₃⟩, hv, h⟩ := h
        have hkey := stringify_of_scanString hk
        -- the last member, or a comma and more of them
        split at h
        · cases h
          simp [keyText, hkey, ihv _ _ _ hv]
        · obtain ⟨r₄, -, ⟨ws, r₅⟩, hws, h⟩ := by
            simpa only [Option.bind_eq_bind, Option.bind_eq_some_iff] using h
          cases h
          rw [stringifyDict, ihm _ _ _ hws, ihv _ _ _ hv, keyText, hkey]

theorem map_eq_self_iff {α : Type} {f : α → α} {xs : List α} :
    xs.map f = xs ↔ ∀ x ∈ xs, f x = x := by
  simpa using List.map_inj_left (f := f) (g := id) (l := xs)

/-- A value in the form `stringify` gives becomes a JSON value when its dicts are
built. -/
theorem jsonValue_resolve {v : PyVal F} (h : stringify v = v) : JsonValue (resolve v) := by
  induction v with
  | none => exact .none
  | bool b => exact .bool b
  | int n => exact .int n
  | float x => exact .float x
  | str s =>
    rw [stringify, PyVal.str.injEq] at h
    exact .str h
  | list xs ih =>
    rw [stringify, stringifyList_eq, PyVal.list.injEq, map_eq_self_iff] at h
    rw [resolve, resolveList_eq]
    refine .list fun x hx => ?_
    obtain ⟨y, hy, rfl⟩ := List.mem_map.mp hx
    exact ih y hy (h y hy)
  | dict kvs ih =>
    rw [stringify, stringifyDict_eq, PyVal.dict.injEq, map_eq_self_iff] at h
    -- a key that `stringify` leaves alone is a string without a pair to join
    have hkey : ∀ kv ∈ kvs, JsonKey kv.1 := by
      intro kv hkv
      have hk : Key.str (joinSurrogates (keyText kv.1)) = kv.1 := congrArg Prod.fst (h kv hkv)
      refine ⟨_, hk.symm, ?_⟩
      exact joinSurrogates_idem _
    have hstr : StrKeys (kvs.mapValues resolve) := by
      intro kw hkw
      obtain ⟨kv, hkv, rfl⟩ := Dict.mem_mapValues.mp hkw
      obtain ⟨s, hs, -⟩ := hkey kv hkv
      exact ⟨s, hs⟩
    rw [resolve, resolveDict_eq]
    refine .dict (keys_dictOfPairs_nodup hstr) (fun kw hkw => ?_) (fun kw hkw => ?_)
    · obtain ⟨kv, hkv, rfl⟩ := Dict.mem_mapValues.mp (mem_dictOfPairs hstr hkw)
      exact hkey kv hkv
    · obtain ⟨kv, hkv, rfl⟩ := Dict.mem_mapValues.mp (mem_dictOfPairs hstr hkw)
      exact ih kv hkv (congrArg Prod.snd (h kv hkv))
  | obj t => simp [stringify] at h

/-- `loads` gives JSON values only. -/
theorem jsonValue_of_loads {s : Str} {v : PyVal F} (h : loads s = some v) : JsonValue v := by
  obtain ⟨w, hw, rfl⟩ := Option.map_eq_some_iff.mp h
  refine jsonValue_resolve ?_
  rw [parse] at hw
  split at hw
  · next w' r hp =>
    split_ifs at hw
    cases hw
    exact (stringify_of_parse _).1 _ _ _ hp
  · cases hw

/-! ## Keys in order -/

/-- The string a key is read back as. -/
def keyString (k : Key F) : Str := joinSurrogates (keyText k)

theorem JsonKey.eq_str {k : Key F} (h : JsonKey k) : k = .str (keyString k) := by
  obtain ⟨s, rfl, hs⟩ := h
  rw [keyString, keyText, hs]

/-- The items come in strictly ascending order of the strings their keys are read
back as. -/
def Ascending (d : Dict F) : Prop := d.Pairwise fun a b => keyString a.1 < keyString b.1

theorem Ascending.eq_of_perm {d e : Dict F} (hd : Ascending d) (he : Ascending e)
    (h : d.Perm e) : d = e :=
  h.eq_of_pairwise (fun _ _ _ _ hab hba => absurd (hab.trans hba) (lt_irrefl _)) hd he

theorem sortItems_perm (d : Dict F) : (sortItems d).Perm d := List.perm_insertionSort _ d

theorem sortItems_mapValues (f : PyVal F → PyVal F) (d : Dict F) :
    sortItems (d.mapValues f) = (sortItems d).mapValues f :=
  (List.map_insertionSort (fun a b : Key F × PyVal F => keyLe a.1 b.1 = true)
    (fun a b : Key F × PyVal F => keyLe a.1 b.1 = true) (fun kv => (kv.1, f kv.2)) d
    fun _ _ _ _ => Iff.rfl).symm

theorem keyLe_iff {a b : Key F} (ha : JsonKey a) (hb : JsonKey b) :
    keyLe a b = true ↔ keyString a ≤ keyString b := by
  obtain ⟨s, rfl, hs⟩ := ha
  obtain ⟨t, rfl, ht⟩ := hb
  simp [keyLe, keyString, keyText, hs, ht]

/-- Distinct string keys are put in strictly ascending order. -/
theorem ascending_sortItems {d : Dict F} (hkey : ∀ kv ∈ d, JsonKey kv.1) (hn : d.keys.Nodup) :
    Ascending (sortItems d) := by
  have hmap : (sortItems d).map (fun kv => keyString kv.1) =
      (d.map fun kv => keyString kv.1).insertionSort (· ≤ ·) :=
    List.map_insertionSort _ _ _ d fun a ha b hb => keyLe_iff (hkey a ha) (hkey b hb)
  have hsorted : ((sortItems d).map fun kv => keyString kv.1).Pairwise (· ≤ ·) := by
    rw [hmap]
    exact List.pairwise_insertionSort _ _
  have hdistinct : ((sortItems d).map fun kv => keyString kv.1).Nodup := by
    have hkeys : (d.keys.map keyString).Nodup := hn.map_on fun a ha b hb hab => by
      obtain ⟨kv, hkv, rfl⟩ := List.mem_map.mp ha
      obtain ⟨kw, hkw, rfl⟩ := List.mem_map.mp hb
      rw [(hkey kv hkv).eq_str, (hkey kw hkw).eq_str, hab]
    rw [Dict.keys, List.map_map] at hkeys
    exact ((sortItems_perm d).map _).nodup_iff.mpr hkeys
  have hlt := hsorted.and hdistinct
  exact (List.pairwise_map.mp hlt).imp fun h => lt_of_le_of_ne h.1 h.2

/-- Dicts with string keys in order are equal when every key has the same value in
both. -/
theorem sortItems_inj {d e : Dict F} (hd : d.keys.Nodup) (he : e.keys.Nodup)
    (hdk : ∀ kv ∈ d, JsonKey kv.1) (hek : ∀ kv ∈ e, JsonKey kv.1) :
    sortItems d = sortItems e ↔ ∀ s, Dict.get? s d = Dict.get? s e := by
  have hstr : ∀ {c : Dict F}, (∀ kv ∈ c, JsonKey kv.1) → StrKeys c := fun hc kv hkv =>
    ⟨_, (hc kv hkv).eq_str⟩
  constructor
  · intro h s
    rw [Dict.get?_perm hd (sortItems_perm d).symm, h, ← Dict.get?_perm he (sortItems_perm e).symm]
  · intro h
    have hperm := Dict.perm_of_get? hd he (hstr hdk) (hstr hek) h
    exact (ascending_sortItems hdk hd).eq_of_perm (ascending_sortItems hek he)
      (((sortItems_perm d).trans hperm).trans (sortItems_perm e).symm)

theorem JsonValue.sortKeys {v : PyVal F} (h : JsonValue v) : JsonValue (sortKeys v) := by
  induction h with
  | none => exact .none
  | bool b => exact .bool b
  | int n => exact .int n
  | float x => exact .float x
  | str hs => exact .str hs
  | list _ ih =>
    rw [AutoHeal.sortKeys, sortKeysList_eq]
    refine .list fun x hx => ?_
    obtain ⟨y, hy, rfl⟩ := List.mem_map.mp hx
    exact ih y hy
  | @dict kvs hn hkey _ ih =>
    rw [AutoHeal.sortKeys, sortKeysDict_eq]
    have hmem : ∀ kw ∈ sortItems (kvs.mapValues AutoHeal.sortKeys),
        ∃ kv ∈ kvs, (kv.1, AutoHeal.sortKeys kv.2) = kw := fun kw hkw =>
      Dict.mem_mapValues.mp ((sortItems_perm _).mem_iff.mp hkw)
    refine .dict ?_ (fun kw hkw => ?_) (fun kw hkw => ?_)
    · refine ((sortItems_perm _).map Prod.fst).nodup_iff.mpr ?_
      rwa [← Dict.keys_mapValues AutoHeal.sortKeys kvs] at hn
    · obtain ⟨kv, hkv, rfl⟩ := hmem kw hkw
      exact hkey kv hkv
    · obtain ⟨kv, hkv, rfl⟩ := hmem kw hkw
      exact ih kv hkv

/-! ## Equal values -/

/-- Two JSON values are equal when they differ in the order of dict items only. -/
def SameValue (v w : PyVal F) : Prop := sortKeys v = sortKeys w

theorem SameValue.refl (v : PyVal F) : SameValue v v := rfl

theorem SameValue.symm {v w : PyVal F} (h : SameValue v w) : SameValue w v := Eq.symm h

/-- Two dicts are equal when they have the same keys with equal values. -/
theorem sameValue_dict {d e : Dict F} (hd : JsonValue (.dict d)) (he : JsonValue (.dict e)) :
    SameValue (.dict d) (.dict e) ↔
      ∀ s, (Dict.get? s d).map sortKeys = (Dict.get? s e).map sortKeys := by
  have hkey : ∀ {c : Dict F}, JsonValue (.dict c) →
      ∀ kv ∈ c.mapValues sortKeys, JsonKey kv.1 := by
    intro c hc kw hkw
    obtain ⟨kv, hkv, rfl⟩ := Dict.mem_mapValues.mp hkw
    exact hc.jsonKey kv hkv
  rw [SameValue, sortKeys, sortKeysDict_eq, sortKeys, sortKeysDict_eq, PyVal.dict.injEq,
    sortItems_inj ((Dict.keys_mapValues _ d).symm ▸ hd.keys_nodup)
      ((Dict.keys_mapValues _ e).symm ▸ he.keys_nodup) (hkey hd) (hkey he)]
  simp only [Dict.get?_mapValues]

/-- The texts with sorted keys of two JSON values are equal exactly when the values
are. -/
theorem print_sortKeys_inj {v w : PyVal F} (hv : JsonValue v) (hw : JsonValue w) (st : Style) :
    print st (sortKeys v) = print st (sortKeys w) ↔ SameValue v w := by
  refine ⟨fun h => ?_, fun h => by rw [show sortKeys v = sortKeys w from h]⟩
  have hread := loads_print hv.sortKeys st
  rw [h, loads_print hw.sortKeys st, Option.some.injEq] at hread
  exact hread.symm

end AutoHeal
