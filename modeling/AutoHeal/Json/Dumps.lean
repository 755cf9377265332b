import AutoHeal.Python.Runtime

/-!
# What `json.dumps` takes

`json.dumps` raises a `TypeError` at a key it has no text for, at keys it cannot
sort, and, without `default=str`, at a value that is no JSON value. None of this
happens for the values a JSON text denotes. What it writes is read back as
`readBack`; whether the keys are then in the order they were sorted in is
`keysStable`.
-/

namespace AutoHeal

variable {F : Type}

/-! ## What `json.dumps` refuses -/

mutual
/-- `p` holds of the value and of every value inside it. -/
def everyPart (p : PyVal F → Bool) : PyVal F → Bool
  | .list xs => p (.list xs) && everyPartList p xs
  | .dict kvs => p (.dict kvs) && everyPartItems p kvs
  | v => p v
termination_by structural v => v

def everyPartList (p : PyVal F → Bool) : List (PyVal F) → Bool
  | [] => true
  | x :: xs => everyPart p x && everyPartList p xs
termination_by structural xs => xs

def everyPartItems (p : PyVal F → Bool) : Dict F → Bool
  | [] => true
  | (_, v) :: kvs => everyPart p v && everyPartItems p kvs
termination_by structural kvs => kvs
end

@[simp] theorem everyPartList_eq (p : PyVal F → Bool) (xs : List (PyVal F)) :
    everyPartList p xs = xs.all (everyPart p) := by
  induction xs with
  | nil => rfl
  | cons x xs ih => simp [everyPartList, ih]

@[simp] theorem everyPartItems_eq (p : PyVal F → Bool) (kvs : Dict F) :
    everyPartItems p kvs = kvs.all fun kv => everyPart p kv.2 := by
  induction kvs with
  | nil => rfl
  | cons kv kvs ih => simp [everyPartItems, ih]

/-- No dict key that `json.dumps` refuses. -/
def keysAllowed : PyVal F → Bool :=
  everyPart fun
    | .dict kvs => kvs.all fun kv => !(kv.1 matches .other _)
    | _ => true

/-- The keys of every dict can be sorted. -/
def keysSortable : PyVal F → Bool :=
  everyPart fun
    | .dict kvs => comparableKeys kvs
    | _ => true

/-- No value that only `default=str` can write. -/
def plain : PyVal F → Bool := everyPart fun v => !(v matches .obj _)

theorem everyPart_of_jsonValue {p : PyVal F → Bool} (hp : ∀ v, JsonValue v → p v = true)
    {v : PyVal F} (h : JsonValue v) : everyPart p v = true := by
  induction h with
  | none => exact hp _ .none
  | bool b => exact hp _ (.bool b)
  | int n => exact hp _ (.int n)
  | float x => exact hp _ (.float x)
  | str hs => exact hp _ (.str hs)
  | list hxs ih =>
    rw [everyPart, everyPartList_eq, hp _ (.list hxs), Bool.true_and, List.all_eq_true]
    exact ih
  | dict hn hkey hval ih =>
    rw [everyPart, everyPartItems_eq, hp _ (.dict hn hkey hval), Bool.true_and, List.all_eq_true]
    exact ih

theorem keysAllowed_of_jsonValue {v : PyVal F} (h : JsonValue v) : keysAllowed v = true := by
  refine everyPart_of_jsonValue (fun w hw => ?_) h
  cases hw with
  | dict _ hkey _ =>
    rw [List.all_eq_true]
    intro kv hkv
    obtain ⟨s, hs, -⟩ := hkey kv hkv
    simp [hs]
  | none | bool | int | float | str | list => rfl

theorem keysSortable_of_jsonValue {v : PyVal F} (h : JsonValue v) : keysSortable v = true := by
  refine everyPart_of_jsonValue (fun w hw => ?_) h
  cases hw with
  | @dict kvs _ hkey _ =>
    have hall : (kvs.all fun kv => kv.1.isText) = true := by
      rw [List.all_eq_true]
      intro kv hkv
      obtain ⟨s, hs, -⟩ := hkey kv hkv
      rw [hs, Key.isText]
    simp only [comparableKeys, hall, Bool.or_true, Bool.true_or]
  | none | bool | int | float | str | list => rfl

theorem plain_of_jsonValue {v : PyVal F} (h : JsonValue v) : plain v = true := by
  refine everyPart_of_jsonValue (fun w hw => ?_) h
  cases hw <;> rfl

/-- `json.dumps(v)`. -/
def dumps [JsonFloat F] (v : PyVal F) : Py Str :=
  if keysAllowed v && plain v then .ok (print .spaced v) else .error .typeError

/-- What was written could be. -/
theorem of_dumps_ok [JsonFloat F] {v : PyVal F} {t : Str} (h : dumps v = .ok t) :
    keysAllowed v = true ∧ plain v = true ∧ t = print .spaced v := by
  unfold dumps at h
  split_ifs at h with hplain
  rw [Bool.and_eq_true] at hplain
  cases h
  exact ⟨hplain.1, hplain.2, rfl⟩

theorem dumps_of_jsonValue [JsonFloat F] {v : PyVal F} (h : JsonValue v) :
    dumps v = .ok (print .spaced v) := by
  rw [dumps, keysAllowed_of_jsonValue h, plain_of_jsonValue h]
  rfl

/-! ## Reading back -/

section ReadBack

variable [JsonFloat F]

/-- What `json.loads` makes of the text of a value. -/
def readBack (v : PyVal F) : PyVal F := resolve (stringify v)

theorem loads_print_eq (st : Style) (v : PyVal F) : loads (print st v) = some (readBack v) := by
  rw [loads, parse_print]
  rfl

theorem readBack_list (xs : List (PyVal F)) : readBack (.list xs) = .list (xs.map readBack) := by
  unfold readBack
  rw [stringify, stringifyList_eq, resolve, resolveList_eq, List.map_map]
  rfl

/-- The items of a dict with their keys as strings and their values changed. -/
def stringItems (f : PyVal F → PyVal F) (d : Dict F) : Dict F :=
  d.map fun kv => (.str (keyString kv.1), f kv.2)

theorem readBack_dict (d : Dict F) :
    readBack (.dict d) = .dict (dictOfPairs (stringItems readBack d)) := by
  unfold readBack stringItems
  rw [stringify, stringifyDict_eq, resolve, resolveDict_eq, Dict.mapValues, List.map_map]
  rfl

theorem jsonKey_stringItems {f : PyVal F → PyVal F} {d : Dict F} :
    ∀ kv ∈ stringItems f d, JsonKey kv.1 := by
  intro kv hkv
  rcases List.mem_map.mp hkv with ⟨kw, -, rfl⟩
  exact ⟨_, rfl, joinSurrogates_idem _⟩

theorem strKeys_stringItems (f : PyVal F → PyVal F) (d : Dict F) : StrKeys (stringItems f d) :=
  fun kv hkv => ⟨_, (jsonKey_stringItems kv hkv).eq_str⟩

theorem jsonValue_readBack (v : PyVal F) : JsonValue (readBack v) :=
  jsonValue_of_loads (loads_print_eq .compact v)

/-! ## The text of what was read back -/

theorem flatMap_escapeChar_pair {a b : CodePoint}
    (h : (isHighSurrogate a && isLowSurrogate b) = true) :
    escapeChar (surrogatePair a b) = escapeChar a ++ escapeChar b := by
  simp only [isHighSurrogate, isLowSurrogate, Bool.and_eq_true, decide_eq_true_eq] at h
  have hunit : ∀ c : CodePoint, 0xD800 ≤ c.val → c.val < 0x10000 → escapeChar c = escapeUnit c.val := by
    intro c hlow hhigh
    have hne : ∀ k : CodePoint, k.val < 0xD800 → c ≠ k := by
      intro k hk hck
      rw [hck] at hlow
      omega
    unfold escapeChar
    rw [if_neg (hne _ (by decide)), if_neg (hne _ (by decide)), if_neg (hne _ (by decide)),
      if_neg (hne _ (by decide)), if_neg (hne _ (by decide)), if_neg (hne _ (by decide)),
      if_neg (hne _ (by decide)), if_neg (by omega), if_pos hhigh]
  -- neither half nor the pair is one of the seven characters with an escape of their own
  have hval : (surrogatePair a b).val = 0x10000 + (a.val - 0xD800) * 0x400 + (b.val - 0xDC00) := by
    rw [surrogatePair, val_ofNat (by omega)]
  have hne : ∀ k : CodePoint, k.val < 0x10000 → surrogatePair a b ≠ k := by
    intro k hk hpair
    have := congrArg Fin.val hpair
    omega
  rw [hunit a (by omega) (by omega), hunit b (by omega) (by omega)]
  unfold escapeChar
  rw [if_neg (hne _ (by decide)), if_neg (hne _ (by decide)), if_neg (hne _ (by decide)),
    if_neg (hne _ (by decide)), if_neg (hne _ (by decide)), if_neg (hne _ (by decide)),
    if_neg (hne _ (by decide)), if_neg (by omega), if_neg (by omega)]
  have hhigh : 0xD800 + ((surrogatePair a b).val - 0x10000) / 1024 = a.val := by omega
  have hlow : 0xDC00 + ((surrogatePair a b).val - 0x10000) % 1024 = b.val := by omega
  rw [hhigh, hlow]

/-- A string and the string with its surrogate pairs joined have one text. -/
theorem printStr_joinSurrogates (s : Str) : printStr (joinSurrogates s) = printStr s := by
  have hflat : (joinSurrogates s).flatMap escapeChar = s.flatMap escapeChar := by
    fun_induction joinSurrogates s with
    | case1 => rfl
    | case2 c => rfl
    | case3 a b s hab ih =>
      rw [List.flatMap_cons, List.flatMap_cons, List.flatMap_cons, ih, flatMap_escapeChar_pair hab,
        List.append_assoc]
    | case4 a b s hab ih => rw [List.flatMap_cons, ih]; rfl
  rw [printStr, hflat, printStr]

theorem printElems_stringify (st : Style) {xs : List (PyVal F)}
    (h : ∀ x ∈ xs, print st (stringify x) = print st x) :
    printElems st (xs.map stringify) = printElems st xs := by
  induction xs with
  | nil => rfl
  | cons x xs ih =>
    rw [List.map_cons, printElems, printElems, h x (by simp), ih fun y hy => h y (by simp [hy])]

theorem printMembers_stringify (st : Style) {kvs : Dict F}
    (h : ∀ kv ∈ kvs, print st (stringify kv.2) = print st kv.2) :
    printMembers st (kvs.map fun kv => (.str (joinSurrogates (keyText kv.1)), stringify kv.2)) =
      printMembers st kvs := by
  induction kvs with
  | nil => rfl
  | cons kv kvs ih =>
    have hkey : printStr (keyText (.str (joinSurrogates (keyText kv.1)) : Key F)) =
        printStr (keyText kv.1) := printStr_joinSurrogates _
    rw [List.map_cons, printMembers, printMembers, hkey, h kv (by simp),
      ih fun y hy => h y (by simp [hy])]

/-- The text says nothing about the kinds of keys. -/
theorem print_stringify (st : Style) (v : PyVal F) : print st (stringify v) = print st v := by
  induction v with
  | none | bool | int | float => rfl
  | str s => exact printStr_joinSurrogates s
  | obj t => exact printStr_joinSurrogates t
  | list xs ih =>
    cases xs with
    | nil => rfl
    | cons x xs =>
      have helems := printElems_stringify st fun y hy => ih y (List.mem_cons_of_mem x hy)
      rw [stringify, stringifyList_eq, List.map_cons, print, print, ih x (by simp), helems]
  | dict kvs ih =>
    cases kvs with
    | nil => rfl
    | cons kv kvs =>
      have hkey : printStr (keyText (.str (joinSurrogates (keyText kv.1)) : Key F)) =
          printStr (keyText kv.1) := printStr_joinSurrogates _
      have hmembers := printMembers_stringify st fun y hy => ih y (List.mem_cons_of_mem kv hy)
      rw [stringify, stringifyDict_eq, List.map_cons, print, print, hkey, ih kv (by simp), hmembers]

/-- Two values have one text exactly when they are read alike. -/
theorem print_eq_iff {st : Style} {v w : PyVal F} :
    print st v = print st w ↔ stringify v = stringify w := by
  constructor
  · exact print_injective
  · intro h
    rw [← print_stringify st v, h, print_stringify st w]

end ReadBack

/-! ## Keys that keep their order -/

section Stable

variable [JsonFloat F]

/-- The keys, sorted, are distinct and in order as the strings they are read back
as. -/
def keysInOrder (ks : List (Key F)) : Bool :=
  decide (((ks.insertionSort fun a b => keyLe a b = true).map keyString).Pairwise (· < ·))

/-- The keys of every dict keep their order. -/
def keysStable : PyVal F → Bool :=
  everyPart fun
    | .dict kvs => keysInOrder (Dict.keys kvs)
    | _ => true

theorem keysStable_list (xs : List (PyVal F)) :
    keysStable (.list xs) = true ↔ ∀ x ∈ xs, keysStable x = true := by
  unfold keysStable
  rw [everyPart, everyPartList_eq, Bool.true_and, List.all_eq_true]

theorem keysStable_dict_eq (d : Dict F) :
    keysStable (.dict d) = (keysInOrder d.keys && d.all fun kv => keysStable kv.2) := by
  unfold keysStable
  rw [everyPart, everyPartItems_eq]

theorem keysInOrder_iff (d : Dict F) : keysInOrder d.keys = true ↔ Ascending (sortItems d) := by
  have hmap : (sortItems d).map Prod.fst = d.keys.insertionSort fun a b => keyLe a b = true :=
    List.map_insertionSort _ _ Prod.fst d fun _ _ _ _ => Iff.rfl
  unfold keysInOrder
  rw [decide_eq_true_eq, ← hmap, List.pairwise_map, List.pairwise_map]
  rfl

theorem keysStable_dict (d : Dict F) : keysStable (.dict d) = true ↔
    Ascending (sortItems d) ∧ ∀ kv ∈ d, keysStable kv.2 = true := by
  rw [keysStable_dict_eq, Bool.and_eq_true, keysInOrder_iff, List.all_eq_true]

/-- Whether the keys of a dict keep their order depends on the keys, and on which of
the values are stable. -/
theorem keysStable_congr {d e : Dict F}
    (h : List.Forall₂ (fun a b => a.1 = b.1 ∧ keysStable a.2 = keysStable b.2) d e) :
    keysStable (.dict d) = keysStable (.dict e) := by
  rw [keysStable_dict_eq, keysStable_dict_eq]
  have hkeys : d.keys = e.keys := by
    induction h with
    | nil => rfl
    | cons hab _ ih =>
      unfold Dict.keys at ih ⊢
      rw [List.map_cons, List.map_cons, hab.1, ih]
  have hvalues : (d.all fun kv => keysStable kv.2) = e.all fun kv => keysStable kv.2 := by
    clear hkeys
    induction h with
    | nil => rfl
    | cons hab _ ih => rw [List.all_cons, List.all_cons, hab.2, ih]
  rw [hkeys, hvalues]

theorem keyString_strKey (k : Key F) : keyString (.str (keyString k) : Key F) = keyString k :=
  joinSurrogates_idem _

theorem ascending_stringItems (f : PyVal F → PyVal F) (d : Dict F) :
    Ascending (stringItems f d) ↔ Ascending d := by
  unfold Ascending stringItems
  rw [List.pairwise_map]
  simp only [keyString_strKey]

/-- Items in ascending order have distinct keys, also as strings. -/
theorem Ascending.nodup_keyString {d e : Dict F} (h : Ascending d) (hp : d.Perm e) :
    (e.map fun kv => keyString kv.1).Nodup := by
  refine (hp.map _).nodup_iff.mp (List.pairwise_map.mpr (h.imp fun hab => ?_))
  exact ne_of_lt hab

theorem nodup_keys_stringItems {f : PyVal F → PyVal F} {d : Dict F} :
    (stringItems f d).keys.Nodup ↔ (d.map fun kv => keyString kv.1).Nodup := by
  have hinj : Function.Injective (Key.str : Str → Key F) := by
    rintro s t ⟨⟩
    rfl
  rw [← List.nodup_map_iff hinj, Dict.keys, stringItems, List.map_map, List.map_map]
  rfl

theorem stringify_sortKeys_dict (d : Dict F) : stringify (sortKeys (.dict d)) =
    .dict (stringItems (fun v => stringify (sortKeys v)) (sortItems d)) := by
  rw [sortKeys, sortKeysDict_eq, sortItems_mapValues, stringify, stringifyDict_eq, Dict.mapValues,
    List.map_map]
  rfl

/-- Pairs that stay distinct as strings become the items of the dict read back. -/
theorem sortKeys_readBack_dict {d : Dict F} (h : (d.map fun kv => keyString kv.1).Nodup) :
    sortKeys (readBack (.dict d)) =
      .dict (sortItems (stringItems (fun v => sortKeys (readBack v)) d)) := by
  rw [readBack_dict, dictOfPairs_eq_self (strKeys_stringItems readBack d)
    (nodup_keys_stringItems.mpr h), sortKeys, sortKeysDict_eq, stringItems, Dict.mapValues,
    List.map_map]
  rfl

/-- A value with a text that some JSON value has, keys sorted, is one whose keys keep
their order. -/
theorem keysStable_of_sorted {w v : PyVal F} (hv : JsonValue v)
    (h : stringify (sortKeys w) = sortKeys v) : keysStable w = true := by
  induction w generalizing v with
  | none | bool | int | float | str | obj => rfl
  | list xs ih =>
    rw [keysStable_list]
    rw [sortKeys, sortKeysList_eq, stringify, stringifyList_eq, List.map_map] at h
    intro x hx
    cases hv with
    | @list ys hys =>
      rw [sortKeys, sortKeysList_eq, PyVal.list.injEq] at h
      -- each element has such a text itself, so the hypothesis for it applies
      have hmem : stringify (sortKeys x) ∈ ys.map sortKeys := h ▸ List.mem_map_of_mem hx
      rcases List.mem_map.mp hmem with ⟨y, hy, heq⟩
      exact ih x hx (hys y hy) heq.symm
    | dict => rw [sortKeys] at h; cases h
    | none | bool | int | float | str => cases h
  | dict d ih =>
    rw [stringify_sortKeys_dict] at h
    cases hv with
    | @dict e hn hkey hval =>
      rw [sortKeys, sortKeysDict_eq, PyVal.dict.injEq] at h
      have hvalues : ∀ kw ∈ Dict.mapValues sortKeys e, JsonKey kw.1 ∧
          ∃ v, JsonValue v ∧ sortKeys v = kw.2 := by
        intro kw hkw
        rcases Dict.mem_mapValues.mp hkw with ⟨kv, hkv, rfl⟩
        exact ⟨hkey kv hkv, kv.2, hval kv hkv, rfl⟩
      -- sorted JSON keys ascend, and the texts of the keys are the sorted ones
      have hasc : Ascending (sortItems (Dict.mapValues sortKeys e)) :=
        ascending_sortItems (fun kw hkw => (hvalues kw hkw).1) (by rwa [Dict.keys_mapValues])
      rw [← h, ascending_stringItems] at hasc
      refine (keysStable_dict d).mpr ⟨hasc, fun kv hkv => ?_⟩
      have hmem : ((.str (keyString kv.1), stringify (sortKeys kv.2)) : Key F × PyVal F) ∈
          sortItems (Dict.mapValues sortKeys e) := by
        rw [← h]
        exact List.mem_map_of_mem ((sortItems_perm d).mem_iff.mpr hkv)
      rcases (hvalues _ ((sortItems_perm _).mem_iff.mp hmem)).2 with ⟨v, hv, heq⟩
      exact ih kv hkv hv heq.symm
    | list => rw [sortKeys] at h; cases h
    | none | bool | int | float | str => cases h

/-- Reading back a text with sorted keys and sorting again changes nothing exactly when
the keys of every dict keep their order. -/
theorem keysStable_iff (v : PyVal F) :
    keysStable v = true ↔ stringify (sortKeys v) = sortKeys (readBack v) := by
  refine ⟨fun h => ?_, keysStable_of_sorted (jsonValue_readBack v)⟩
  induction v with
  | none | bool | int | float | str | obj => rfl
  | list xs ih =>
    rw [keysStable_list] at h
    rw [readBack_list, sortKeys, sortKeys, sortKeysList_eq, sortKeysList_eq, stringify,
      stringifyList_eq, PyVal.list.injEq, List.map_map, List.map_map, List.map_inj_left]
    intro x hx
    exact ih x hx (h x hx)
  | dict d ih =>
    rcases (keysStable_dict d).mp h with ⟨hasc, hval⟩
    have hnodup := hasc.nodup_keyString (sortItems_perm d)
    rw [stringify_sortKeys_dict, sortKeys_readBack_dict hnodup, PyVal.dict.injEq]
    -- the values agree, so both sides hold the same items, and both are in order
    have hitems : stringItems (fun v => stringify (sortKeys v)) d =
        stringItems (fun v => sortKeys (readBack v)) d := by
      refine List.map_congr_left fun kv hkv => ?_
      exact congrArg (Prod.mk _) (ih kv hkv (hval kv hkv))
    rw [← hitems]
    refine ((ascending_stringItems _ _).mpr hasc).eq_of_perm
      (ascending_sortItems jsonKey_stringItems (nodup_keys_stringItems.mpr hnodup)) ?_
    exact ((sortItems_perm d).map _).trans (sortItems_perm _).symm

end Stable

end AutoHeal
