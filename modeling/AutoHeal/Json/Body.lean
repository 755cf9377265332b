import AutoHeal.Json.Limits

/-!
# The body of a request

`request.json()` decodes the bytes so that surrogates may stand in the text by themselves. The
scanner joins a pair that is written as two escapes, and leaves one that stands in the text as it
is. Where the text has no surrogates this is `json.loads` (`bodyLoads_eq`). What is read has string
keys, each of them once (`keyed_of_bodyLoads`), and may have pairs that are read back joined.
-/

namespace AutoHeal

variable {F : Type}

/-! ## Values with string keys -/

/-- Every dict in the value has string keys, each of them once. -/
inductive Keyed : PyVal F → Prop
  | none : Keyed .none
  | bool (b : Bool) : Keyed (.bool b)
  | int (n : Int) : Keyed (.int n)
  | float (x : F) : Keyed (.float x)
  | str (s : Str) : Keyed (.str s)
  | list {xs : List (PyVal F)} : (∀ x ∈ xs, Keyed x) → Keyed (.list xs)
  | dict {kvs : Dict F} : kvs.keys.Nodup → StrKeys kvs → (∀ kv ∈ kvs, Keyed kv.2) → Keyed (.dict kvs)

theorem JsonValue.keyed {v : PyVal F} (h : JsonValue v) : Keyed v := by
  induction h with
  | none => exact .none
  | bool b => exact .bool b
  | int n => exact .int n
  | float x => exact .float x
  | str _ => exact .str _
  | list _ ih => exact .list ih
  | dict hn hkey hval ih => exact .dict hn (JsonValue.dict hn hkey hval).strKeys ih

theorem Keyed.set {d : Dict F} (h : Keyed (.dict d)) (s : Str) {v : PyVal F} (hv : Keyed v) :
    Keyed (.dict (Dict.set s v d)) := by
  cases h with
  | dict hn hkey hval =>
    refine .dict (Dict.keys_set_nodup hn s v) (hkey.set s v) fun kv hkv => ?_
    rcases Dict.mem_set hkv with hkv | rfl
    · exact hval kv hkv
    · exact hv

theorem keyed_dictOfPairs {kvs : Dict F} (hkey : StrKeys kvs) (hval : ∀ kv ∈ kvs, Keyed kv.2) :
    Keyed (.dict (dictOfPairs kvs)) :=
  .dict (keys_dictOfPairs_nodup hkey) (fun kv hkv => hkey kv (mem_dictOfPairs hkey hkv))
    fun kv hkv => hval kv (mem_dictOfPairs hkey hkv)

section Strings

variable [JsonFloat F]

mutual
/-- The strings in a JSON value, keys among them. -/
def strings : PyVal F → List Str
  | .str s => [s]
  | .obj text => [text]
  | .list xs => stringsList xs
  | .dict kvs => stringsDict kvs
  | _ => []
termination_by structural v => v

def stringsList : List (PyVal F) → List Str
  | [] => []
  | x :: xs => strings x ++ stringsList xs
termination_by structural xs => xs

def stringsDict : Dict F → List Str
  | [] => []
  | (k, v) :: kvs => keyText k :: strings v ++ stringsDict kvs
termination_by structural kvs => kvs
end

theorem mem_stringsList {text : Str} {xs : List (PyVal F)} :
    text ∈ stringsList xs ↔ ∃ x ∈ xs, text ∈ strings x := by
  induction xs with
  | nil => simp [stringsList]
  | cons x xs ih => simp [stringsList, ih]

theorem mem_stringsDict {text : Str} {kvs : Dict F} :
    text ∈ stringsDict kvs ↔ ∃ kv ∈ kvs, text = keyText kv.1 ∨ text ∈ strings kv.2 := by
  induction kvs with
  | nil => simp [stringsDict]
  | cons kv kvs ih => simp [stringsDict, ih, or_assoc]

/-- The texts of a value are read back as they are. -/
def Unsplit (v : PyVal F) : Prop := ∀ s ∈ strings v, joinSurrogates s = s

/-- What has string keys is a JSON value if none of its texts has a pair to join. -/
theorem Keyed.jsonValue_iff {v : PyVal F} (h : Keyed v) : JsonValue v ↔ Unsplit v := by
  unfold Unsplit
  induction h with
  | none => exact iff_of_true .none (by simp [strings])
  | bool b => exact iff_of_true (.bool b) (by simp [strings])
  | int n => exact iff_of_true (.int n) (by simp [strings])
  | float x => exact iff_of_true (.float x) (by simp [strings])
  | str s =>
    constructor
    · rintro ⟨⟩
      simpa [strings]
    · intro h
      exact .str (h s (by simp [strings]))
  | list _ ih =>
    constructor
    · rintro ⟨⟩ s hs
      next hxs =>
      rcases mem_stringsList.mp hs with ⟨x, hx, hs⟩
      exact (ih x hx).mp (hxs x hx) s hs
    · intro h
      exact .list fun x hx => (ih x hx).mpr fun s hs => h s (mem_stringsList.mpr ⟨x, hx, hs⟩)
  | dict hn hkey _ ih =>
    constructor
    · rintro ⟨⟩ s hs
      next hkeys hval =>
      rcases mem_stringsDict.mp hs with ⟨kv, hkv, rfl | hs⟩
      · rcases hkeys kv hkv with ⟨t, ht, hjoin⟩
        rw [ht]
        exact hjoin
      · exact (ih kv hkv).mp (hval kv hkv) s hs
    · intro h
      refine .dict hn (fun kv hkv => ?_) fun kv hkv =>
        (ih kv hkv).mpr fun s hs => h s (mem_stringsDict.mpr ⟨kv, hkv, Or.inr hs⟩)
      rcases hkey kv hkv with ⟨t, ht⟩
      refine ⟨t, ht, h t (mem_stringsDict.mpr ⟨kv, hkv, Or.inl ?_⟩)⟩
      rw [ht]
      rfl

end Strings

/-! ## String literals -/

/-- The body of a string literal up to its closing quote, with the code points that are written
as `\u` escapes marked. -/
def scanMarked : Str → Option (List (CodePoint × Bool) × Str)
  | [] => none
  | c :: cs =>
    if c = 34 then some ([], cs)
    else if c = 92 then
      match cs with
      | [] => none
      | e :: es =>
        if e = 117 then
          match es with
          | a :: b :: c :: d :: ds =>
            (hexUnit a b c d).bind fun u => (scanMarked ds).map fun p => ((u, true) :: p.1, p.2)
          | _ => none
        else (simpleEscape e).bind fun u => (scanMarked es).map fun p => ((u, false) :: p.1, p.2)
    else if c.val < 32 then none
    else (scanMarked cs).map fun p => ((c, false) :: p.1, p.2)

/-- Pairs of surrogates that are both escapes become the code points they stand for. -/
def joinEscapes : List (CodePoint × Bool) → Str
  | [] => []
  | [c] => [c.1]
  | a :: b :: s =>
    if a.2 && b.2 && isHighSurrogate a.1 && isLowSurrogate b.1 then
      surrogatePair a.1 b.1 :: joinEscapes s
    else a.1 :: joinEscapes (b :: s)

/-- A string literal in a body, after its opening quote. -/
def scanBodyString (s : Str) : Option (Str × Str) :=
  (scanMarked s).map fun p => (joinEscapes p.1, p.2)

/-- The text has no surrogates. -/
def NoSurrogates (s : Str) : Prop := ∀ c ∈ s, isHighSurrogate c = false ∧ isLowSurrogate c = false

theorem NoSurrogates.mono {s t : Str} (h : NoSurrogates s) (hsub : t ⊆ s) : NoSurrogates t :=
  fun c hc => h c (hsub hc)

/-- The marks aside, the same units are read. -/
theorem scanUnits_eq_scanMarked (s : Str) :
    scanUnits s = (scanMarked s).map fun p => (p.1.map Prod.fst, p.2) := by
  fun_induction scanMarked s with
  | case1 => rfl
  | case2 cs => rw [scanUnits_quote]; rfl
  | case3 => rw [scanUnits.eq_def]; rfl
  | case4 a b c d ds _ ih =>
    rw [scanUnits.eq_def]
    simp [ih, Option.map_bind, Function.comp_def]
  | case5 es _ hes =>
    rw [scanUnits.eq_def]
    simp
  | case6 e es he _ ih =>
    rw [scanUnits.eq_def]
    simp [he, ih, Option.map_bind, Function.comp_def]
  | case7 c cs hquote hescape hcontrol =>
    rw [scanUnits.eq_def]
    simp [hquote, hescape, hcontrol]
  | case8 c cs hquote hescape hcontrol ih =>
    rw [scanUnits.eq_def]
    simp [hquote, hescape, hcontrol, ih, Function.comp_def]

theorem scanMarked_subset {s : Str} {p : List (CodePoint × Bool) × Str} (h : scanMarked s = some p) :
    p.2 ⊆ s := by
  fun_induction scanMarked s generalizing p with
  | case1 => cases h
  | case2 =>
    cases h
    exact List.subset_cons_self _ _
  | case3 => cases h
  | case4 _ a b c d ds ih =>
    rcases Option.bind_eq_some_iff.mp h with ⟨u, -, h⟩
    rcases Option.map_eq_some_iff.mp h with ⟨q, hq, rfl⟩
    exact fun x hx => by simp [ih hq hx]
  | case5 => cases h
  | case6 _ e es he ih =>
    rcases Option.bind_eq_some_iff.mp h with ⟨u, -, h⟩
    rcases Option.map_eq_some_iff.mp h with ⟨q, hq, rfl⟩
    exact fun x hx => by simp [ih hq hx]
  | case7 => cases h
  | case8 c cs _ _ _ ih =>
    rcases Option.map_eq_some_iff.mp h with ⟨q, hq, rfl⟩
    have hrest : q.2 ⊆ cs := ih hq
    exact List.Subset.trans hrest (List.subset_cons_self _ _)

theorem simpleEscape_noSurrogate {e u : CodePoint} (h : simpleEscape e = some u) :
    isHighSurrogate u = false ∧ isLowSurrogate u = false := by
  unfold simpleEscape at h
  split_ifs at h with hself
  · cases h
    rcases hself with rfl | rfl | rfl <;> decide
  all_goals
    cases h
    decide

/-- In a text without surrogates only escapes are surrogates. -/
theorem unmarked_of_scanMarked {s : Str} (hs : NoSurrogates s)
    {p : List (CodePoint × Bool) × Str} (h : scanMarked s = some p) :
    ∀ x ∈ p.1, x.2 = false → isHighSurrogate x.1 = false ∧ isLowSurrogate x.1 = false := by
  fun_induction scanMarked s generalizing p with
  | case1 => cases h
  | case2 =>
    cases h
    simp
  | case3 => cases h
  | case4 _ a b c d ds ih =>
    rcases Option.bind_eq_some_iff.mp h with ⟨u, -, h⟩
    rcases Option.map_eq_some_iff.mp h with ⟨q, hq, rfl⟩
    have hrest := ih (hs.mono fun x hx => by simp [hx]) hq
    simpa using hrest
  | case5 => cases h
  | case6 _ e es he ih =>
    rcases Option.bind_eq_some_iff.mp h with ⟨u, hu, h⟩
    rcases Option.map_eq_some_iff.mp h with ⟨q, hq, rfl⟩
    have hrest := ih (hs.mono fun x hx => by simp [hx]) hq
    rw [List.forall_mem_cons]
    exact ⟨fun _ => simpleEscape_noSurrogate hu, hrest⟩
  | case7 => cases h
  | case8 c cs _ _ _ ih =>
    rcases Option.map_eq_some_iff.mp h with ⟨q, hq, rfl⟩
    have hrest := ih (hs.mono (List.subset_cons_self _ _)) hq
    rw [List.forall_mem_cons]
    exact ⟨fun _ => hs c List.mem_cons_self, hrest⟩

theorem joinEscapes_eq {l : List (CodePoint × Bool)}
    (h : ∀ x ∈ l, x.2 = false → isHighSurrogate x.1 = false ∧ isLowSurrogate x.1 = false) :
    joinEscapes l = joinSurrogates (l.map Prod.fst) := by
  fun_induction joinEscapes l with
  | case1 => rfl
  | case2 c => rfl
  | case3 a b s hpair ih =>
    simp only [Bool.and_eq_true] at hpair
    rw [ih fun x hx => h x (by simp [hx]), List.map_cons, List.map_cons, joinSurrogates,
      if_pos (by simp [hpair])]
  | case4 a b s hpair ih =>
    have hnot : ¬ (isHighSurrogate a.1 && isLowSurrogate b.1) = true := by
      intro hjoin
      rw [Bool.and_eq_true] at hjoin
      -- a surrogate of the text is an escape, and two of them would have been joined
      have ha : a.2 = true := by
        by_contra hfalse
        rw [(h a (by simp) (by simpa using hfalse)).1] at hjoin
        cases hjoin.1
      have hb : b.2 = true := by
        by_contra hfalse
        rw [(h b (by simp) (by simpa using hfalse)).2] at hjoin
        cases hjoin.2
      exact hpair (by simp [ha, hb, hjoin])
    rw [ih fun x hx => h x (List.mem_cons_of_mem _ hx)]
    exact (if_neg hnot).symm

/-- Where there are no surrogates a string literal is read as in a file. -/
theorem scanBodyString_eq {s : Str} (h : NoSurrogates s) : scanBodyString s = scanString s := by
  unfold scanBodyString scanString
  rw [scanUnits_eq_scanMarked, Option.map_map]
  cases hscan : scanMarked s with
  | none => rfl
  | some p =>
    rw [Option.map_some, Option.map_some, joinEscapes_eq (unmarked_of_scanMarked h hscan)]
    rfl

theorem scanBodyString_subset {s : Str} {p : Str × Str} (h : scanBodyString s = some p) : p.2 ⊆ s := by
  rcases Option.map_eq_some_iff.mp h with ⟨q, hq, rfl⟩
  exact scanMarked_subset hq

/-! ## What a token leaves -/

theorem skipWs_subset (s : Str) : skipWs s ⊆ s := (List.dropWhile_sublist _).subset

theorem token_subset {c : CodePoint} {s r : Str} (h : token c s = some r) : r ⊆ s := by
  unfold token at h
  split at h
  · cases h
  · next d ds hskip =>
    split_ifs at h
    cases h
    have hds : r ⊆ skipWs s := by
      rw [hskip]
      exact List.subset_cons_self _ _
    exact List.Subset.trans hds (skipWs_subset s)

theorem expect_subset {t s r : Str} (h : expect t s = some r) : r ⊆ s := by
  fun_induction expect t s with
  | case1 s =>
    cases h
    exact List.Subset.refl _
  | case2 => cases h
  | case3 cs d ds ih => exact List.Subset.trans (ih h) (List.subset_cons_self _ _)
  | case4 => cases h

theorem scanSign_subset (s : Str) : (scanSign s).2 ⊆ s := by
  unfold scanSign
  split
  · exact List.Subset.refl _
  · split_ifs
    · exact List.subset_cons_self _ _
    · exact List.Subset.refl _

theorem scanInt_subset {s : Str} {p : Str × Str} (h : scanInt s = some p) : p.2 ⊆ s := by
  unfold scanInt at h
  split at h
  · cases h
  · split_ifs at h
    · cases h
      exact List.subset_cons_self _ _
    · cases h
      exact (List.dropWhile_sublist _).subset

theorem scanFrac_subset (s : Str) : (scanFrac s).2 ⊆ s := by
  unfold scanFrac
  split
  · exact List.Subset.refl _
  · split_ifs
    · exact List.Subset.trans (List.dropWhile_sublist _).subset (List.subset_cons_self _ _)
    · exact List.Subset.refl _

theorem scanExp_subset (s : Str) : (scanExp s).2 ⊆ s := by
  unfold scanExp
  split
  · exact List.Subset.refl _
  · split_ifs
    · exact List.Subset.trans (List.Subset.trans (List.dropWhile_sublist _).subset (scanSign_subset _))
        (List.subset_cons_self _ _)
    · exact List.Subset.refl _

theorem scanNumber_subset {s : Str} {p : NumLit × Str} (h : scanNumber s = some p) : p.2 ⊆ s := by
  rcases Option.map_eq_some_iff.mp h with ⟨q, hq, rfl⟩
  refine List.Subset.trans (scanExp_subset _) (List.Subset.trans (scanFrac_subset _)
    (List.Subset.trans (scanInt_subset hq) ?_))
  split
  · exact (List.tail_sublist s).subset
  · exact List.Subset.refl _

section Scan

variable [JsonFloat F]

theorem scanConstant_subset {s : Str} {p : PyVal F × Str} (h : scanConstant s = some p) : p.2 ⊆ s := by
  rcases List.exists_of_findSome?_eq_some h with ⟨kv, -, h⟩
  rcases Option.map_eq_some_iff.mp h with ⟨r, hr, rfl⟩
  exact expect_subset hr

theorem keyed_of_scanConstant {s : Str} {p : PyVal F × Str} (h : scanConstant s = some p) :
    Keyed (resolve p.1) := by
  rcases List.exists_of_findSome?_eq_some h with ⟨kv, hkv, h⟩
  rcases Option.map_eq_some_iff.mp h with ⟨r, -, rfl⟩
  unfold constants at hkv
  simp only [List.mem_cons, List.not_mem_nil, or_false] at hkv
  rcases hkv with rfl | rfl | rfl | rfl | rfl | rfl
  all_goals constructor

omit [JsonFloat F] in
theorem found_eq_ok {α : Type} {o : Option α} {a : α} : found o = .ok a ↔ o = some a := by
  cases o with
  | none => simp [found]
  | some b => simp [found]

omit [JsonFloat F] in
theorem map_eq_ok {α β : Type} {x : Py α} {f : α → β} {b : β} :
    x.map f = .ok b ↔ ∃ a, x = .ok a ∧ f a = b := by
  cases x with
  | error e => simp [Except.map]
  | ok a => simp [Except.map]

omit [JsonFloat F] in
theorem bind_congr_ok {α β : Type} {x : Py α} {f g : α → Py β} (h : ∀ a, x = .ok a → f a = g a) :
    x.bind f = x.bind g := by
  cases x with
  | error e => rfl
  | ok a => exact h a rfl

omit [JsonFloat F] in
theorem keyed_resolve_dict {kvs : Dict F} (hkeys : StrKeys kvs)
    (hvalues : ∀ kv ∈ kvs, Keyed (resolve kv.2)) : Keyed (resolve (.dict kvs)) := by
  rw [resolve, resolveDict_eq]
  refine keyed_dictOfPairs (fun kw hkw => ?_) fun kw hkw => ?_
  · rcases Dict.mem_mapValues.mp hkw with ⟨kv, hkv, rfl⟩
    exact hkeys kv hkv
  · rcases Dict.mem_mapValues.mp hkw with ⟨kv, hkv, rfl⟩
    exact hvalues kv hkv

omit [JsonFloat F] in
theorem keyed_resolve_list {xs : List (PyVal F)} (h : ∀ x ∈ xs, Keyed (resolve x)) :
    Keyed (resolve (.list xs)) := by
  rw [resolve, resolveList_eq]
  refine .list fun y hy => ?_
  rcases List.mem_map.mp hy with ⟨x, hx, rfl⟩
  exact h x hx

theorem keyed_value (l : NumLit) : Keyed (resolve (l.value : PyVal F)) := by
  unfold NumLit.value
  split
  · exact .float _
  · exact .int _

/-! ## What the scanner reads -/

variable {text : Str → Option (Str × Str)}

/-- A value with string keys is read, and what is left is in the text. -/
theorem scan_reads (htext : ∀ s p, text s = some p → p.2 ⊆ s) (n : Nat) :
    (∀ levels s (p : PyVal F × Str), scanValue text levels n s = .ok p →
      Keyed (resolve p.1) ∧ p.2 ⊆ s) ∧
    (∀ levels s (p : List (PyVal F) × Str), scanElems text levels n s = .ok p →
      (∀ v ∈ p.1, Keyed (resolve v)) ∧ p.2 ⊆ s) ∧
    ∀ levels s (p : Dict F × Str), scanMembers text levels n s = .ok p →
      (StrKeys p.1 ∧ ∀ kv ∈ p.1, Keyed (resolve kv.2)) ∧ p.2 ⊆ s := by
  induction n with
  | zero => exact ⟨by rintro _ _ _ ⟨⟩, by rintro _ _ _ ⟨⟩, by rintro _ _ _ ⟨⟩⟩
  | succ n ih =>
    rcases ih with ⟨ihv, ihe, ihm⟩
    refine ⟨fun levels s p h => ?_, fun levels s p h => ?_, fun levels s p h => ?_⟩
    · cases s with
      | nil => cases h
      | cons c cs =>
        rw [scanValue] at h
        -- a string, an object, a list, and a literal
        split_ifs at h
        · rcases map_eq_ok.mp h with ⟨q, hq, rfl⟩
          exact ⟨.str _, List.Subset.trans (htext _ _ (found_eq_ok.mp hq)) (List.subset_cons_self _ _)⟩
        · split at h
          · next r htoken =>
            cases h
            exact ⟨keyed_resolve_dict (by simp [StrKeys]) (by simp),
              List.Subset.trans (token_subset htoken) (List.subset_cons_self _ _)⟩
          · rcases map_eq_ok.mp h with ⟨q, hq, rfl⟩
            rcases ihm _ _ _ hq with ⟨⟨hkeys, hvalues⟩, hrest⟩
            exact ⟨keyed_resolve_dict hkeys hvalues, List.Subset.trans
              (List.Subset.trans hrest (skipWs_subset cs)) (List.subset_cons_self _ _)⟩
        · split at h
          · next r htoken =>
            cases h
            exact ⟨keyed_resolve_list (by simp),
              List.Subset.trans (token_subset htoken) (List.subset_cons_self _ _)⟩
          · rcases map_eq_ok.mp h with ⟨q, hq, rfl⟩
            rcases ihe _ _ _ hq with ⟨hvalues, hrest⟩
            exact ⟨keyed_resolve_list hvalues, List.Subset.trans
              (List.Subset.trans hrest (skipWs_subset cs)) (List.subset_cons_self _ _)⟩
        · split at h
          · next q hconstant =>
            cases h
            exact ⟨keyed_of_scanConstant hconstant, scanConstant_subset hconstant⟩
          · rcases Py.bind_eq_ok.mp h with ⟨q, hnumber, h⟩
            split_ifs at h
            cases h
            exact ⟨keyed_value q.1, scanNumber_subset (found_eq_ok.mp hnumber)⟩
    · rw [scanElems] at h
      rcases Py.bind_eq_ok.mp h with ⟨q, hq, h⟩
      rcases ihv _ _ _ hq with ⟨hvalue, hrest⟩
      split at h
      · next r htoken =>
        cases h
        exact ⟨by simpa using hvalue, List.Subset.trans (token_subset htoken) hrest⟩
      · rcases Py.bind_eq_ok.mp h with ⟨r, htoken, h⟩
        rcases map_eq_ok.mp h with ⟨q', hq', rfl⟩
        rcases ihe _ _ _ hq' with ⟨hvalues, hrest'⟩
        have hr : r ⊆ s := List.Subset.trans (token_subset (found_eq_ok.mp htoken)) hrest
        exact ⟨List.forall_mem_cons.mpr ⟨hvalue, hvalues⟩,
          List.Subset.trans (List.Subset.trans hrest' (skipWs_subset r)) hr⟩
    · cases s with
      | nil => cases h
      | cons c cs =>
        rw [scanMembers] at h
        split_ifs at h
        rcases Py.bind_eq_ok.mp h with ⟨k, hk, h⟩
        rcases Py.bind_eq_ok.mp h with ⟨r, hr, h⟩
        rcases Py.bind_eq_ok.mp h with ⟨q, hq, h⟩
        rcases ihv _ _ _ hq with ⟨hvalue, hrest⟩
        have hcs : r ⊆ c :: cs := List.Subset.trans (token_subset (found_eq_ok.mp hr))
          (List.Subset.trans (htext _ _ (found_eq_ok.mp hk)) (List.subset_cons_self _ _))
        have hleft : q.2 ⊆ c :: cs := List.Subset.trans (List.Subset.trans hrest (skipWs_subset r)) hcs
        split at h
        · next r' htoken =>
          cases h
          exact ⟨⟨by simp [StrKeys], by simpa using hvalue⟩,
            List.Subset.trans (token_subset htoken) hleft⟩
        · rcases Py.bind_eq_ok.mp h with ⟨r', htoken, h⟩
          rcases map_eq_ok.mp h with ⟨q', hq', rfl⟩
          rcases ihm _ _ _ hq' with ⟨⟨hkeys, hvalues⟩, hrest'⟩
          have hr' : r' ⊆ c :: cs := List.Subset.trans (token_subset (found_eq_ok.mp htoken)) hleft
          exact ⟨⟨List.forall_mem_cons.mpr ⟨⟨k.1, rfl⟩, hkeys⟩,
            List.forall_mem_cons.mpr ⟨hvalue, hvalues⟩⟩,
            List.Subset.trans (List.Subset.trans hrest' (skipWs_subset r')) hr'⟩

/-- Two ways to read string literals that agree where there are no surrogates agree on values there. -/
theorem scan_congr {text' : Str → Option (Str × Str)} (htext : ∀ s p, text s = some p → p.2 ⊆ s)
    (hagree : ∀ s, NoSurrogates s → text s = text' s) (n : Nat) :
    (∀ levels s, NoSurrogates s →
      (scanValue text levels n s : Py (PyVal F × Str)) = scanValue text' levels n s) ∧
    (∀ levels s, NoSurrogates s →
      (scanElems text levels n s : Py (List (PyVal F) × Str)) = scanElems text' levels n s) ∧
    ∀ levels s, NoSurrogates s →
      (scanMembers text levels n s : Py (Dict F × Str)) = scanMembers text' levels n s := by
  induction n with
  | zero => exact ⟨fun _ _ _ => rfl, fun _ _ _ => rfl, fun _ _ _ => rfl⟩
  | succ n ih =>
    rcases ih with ⟨ihv, ihe, ihm⟩
    have hreads := @scan_reads F _ text htext n
    refine ⟨fun levels s hs => ?_, fun levels s hs => ?_, fun levels s hs => ?_⟩
    · cases s with
      | nil => rfl
      | cons c cs =>
        have hcs : NoSurrogates cs := hs.mono (List.subset_cons_self _ _)
        rw [scanValue, scanValue, hagree cs hcs, ihm _ _ (hcs.mono (skipWs_subset cs)),
          ihe _ _ (hcs.mono (skipWs_subset cs))]
    · rw [scanElems, scanElems, ← ihv levels s hs]
      refine bind_congr_ok fun p hp => ?_
      have hrest := hs.mono (hreads.1 _ _ _ hp).2
      split
      · rfl
      · refine bind_congr_ok fun r hr => ?_
        rw [ihe _ _ ((hrest.mono (token_subset (found_eq_ok.mp hr))).mono (skipWs_subset r))]
    · cases s with
      | nil => rfl
      | cons c cs =>
        have hcs : NoSurrogates cs := hs.mono (List.subset_cons_self _ _)
        rw [scanMembers, scanMembers, hagree cs hcs]
        split
        · refine bind_congr_ok fun k hk => ?_
          have hk := hcs.mono (htext _ _ ((hagree cs hcs).trans (found_eq_ok.mp hk)))
          refine bind_congr_ok fun r hr => ?_
          have hr := (hk.mono (token_subset (found_eq_ok.mp hr))).mono (skipWs_subset r)
          rw [← ihv _ _ hr]
          refine bind_congr_ok fun p hp => ?_
          have hrest := hr.mono (hreads.1 _ _ _ hp).2
          split
          · rfl
          · refine bind_congr_ok fun r' hr' => ?_
            rw [ihm _ _ ((hrest.mono (token_subset (found_eq_ok.mp hr'))).mono (skipWs_subset r'))]
        · rfl

end Scan

/-! ## `json.loads` of a body -/

section Codec

variable [PyRuntime F]

/-- `json.loads(body)`, the bytes decoded. -/
def bodyLoads (s : Str) : Py (PyVal F) := loadsWith scanBodyString s

theorem keyed_of_bodyLoads {s : Str} {v : PyVal F} (h : bodyLoads s = .ok v) : Keyed v := by
  rcases Py.bind_eq_ok.mp h with ⟨p, hp, h⟩
  split_ifs at h
  cases h
  exact ((scan_reads (fun _ _ => scanBodyString_subset) _).1 _ _ _ hp).1

/-- A body without surrogates is read as a file is. -/
theorem bodyLoads_eq {s : Str} (h : NoSurrogates s) : (bodyLoads s : Py (PyVal F)) = jsonLoads s := by
  unfold bodyLoads jsonLoads loadsWith
  rw [(scan_congr (fun _ _ => scanBodyString_subset) (fun _ => scanBodyString_eq) _).1 _ _
    (h.mono (skipWs_subset s))]

theorem bodyLoads_print (st : Style) {v : PyVal F} (h : JsonValue v) (hfits : Writable v) :
    bodyLoads (print st v) = .ok v := by
  have hplain : NoSurrogates (print st v) := by
    intro c hc
    have hprintable := printable_print st v c hc
    have hhigh : ¬ 0xD800 ≤ c.val := by omega
    have hlow : ¬ 0xDC00 ≤ c.val := by omega
    simp [isHighSurrogate, isLowSurrogate, hhigh, hlow]
  rw [bodyLoads_eq hplain, jsonLoads_print st hfits, readBack, stringify_of_jsonValue h,
    resolve_of_jsonValue h]

end Codec

/-! ## Reading objects of texts -/

/-- A code point that needs no escape. -/
def plainChar (c : CodePoint) : Bool := decide (c.val ≠ 34 ∧ c.val ≠ 92 ∧ 32 ≤ c.val)

/-- What needs no escape is read as it is. -/
theorem scanBodyString_plain {s : Str} (h : s.all plainChar = true) (r : Str) :
    scanBodyString (s ++ 34 :: r) = some (s, r) := by
  have hmarked : scanMarked (s ++ 34 :: r) = some (s.map fun c => (c, false), r) := by
    induction s with
    | nil =>
      rw [List.nil_append, scanMarked.eq_def]
      rfl
    | cons c s ih =>
      rw [List.all_cons, Bool.and_eq_true] at h
      rcases h with ⟨hc, hs⟩
      have hvalues : c.val ≠ 34 ∧ c.val ≠ 92 ∧ 32 ≤ c.val := of_decide_eq_true hc
      have hquote : c ≠ 34 := fun hc => hvalues.1 (by rw [hc]; rfl)
      have hescape : c ≠ 92 := fun hc => hvalues.2.1 (by rw [hc]; rfl)
      have hcontrol : ¬ c.val < 32 := by omega
      rw [List.cons_append, scanMarked.eq_def]
      simp only [hquote, hescape, hcontrol, if_false, ih hs, Option.map_some, List.map_cons]
  have hjoin : ∀ s : Str, joinEscapes (s.map fun c => (c, false)) = s := by
    intro s
    induction s with
    | nil => rfl
    | cons c s ih =>
      cases s with
      | nil => rfl
      | cons d s => exact (if_neg (by simp)).trans (congrArg (c :: ·) ih)
  unfold scanBodyString
  rw [hmarked, Option.map_some, hjoin]

section Members

variable [JsonFloat F] {text : Str → Option (Str × Str)} {levels n : ℕ} {s r cs : Str} {c d : CodePoint}
  {v : PyVal F} {kvs : Dict F}

theorem scanValue_text (h : text cs = some (s, r)) :
    scanValue text levels (n + 1) (34 :: cs) = .ok ((.str s : PyVal F), r) := by
  rw [scanValue, if_pos rfl, h]
  rfl

theorem scanValue_object (hws : isJsonWs c = false) (hc : c ≠ 125)
    (h : scanMembers text levels n (c :: cs) = .ok (kvs, r)) :
    scanValue text (levels + 1) (n + 1) (123 :: c :: cs) = .ok (.dict kvs, r) := by
  rw [scanValue, if_neg (by decide), if_pos rfl, if_neg (by simp), token_other hws hc,
    skipWs_of_head hws, Nat.add_sub_cancel, h]
  rfl

theorem scanMembers_last (hk : text cs = some (s, 58 :: c :: r)) (hws : isJsonWs c = false)
    {r' : Str} (hv : scanValue text levels n (c :: r) = .ok (v, 125 :: r')) :
    scanMembers text levels (n + 1) (34 :: cs) = .ok ([(.str s, v)], r') := by
  rw [scanMembers, if_pos rfl, hk]
  simp only [found, Except.bind, token_self (by decide : isJsonWs 58 = false), skipWs_of_head hws, hv,
    token_self (by decide : isJsonWs 125 = false)]

theorem scanMembers_more (hk : text cs = some (s, 58 :: c :: r)) (hws : isJsonWs c = false)
    {r' r'' : Str} (hv : scanValue text levels n (c :: r) = .ok (v, 44 :: d :: r'))
    (hws' : isJsonWs d = false) (hrest : scanMembers text levels n (d :: r') = .ok (kvs, r'')) :
    scanMembers text levels (n + 1) (34 :: cs) = .ok ((.str s, v) :: kvs, r'') := by
  rw [scanMembers, if_pos rfl, hk]
  simp only [found, Except.bind, token_self (by decide : isJsonWs 58 = false), skipWs_of_head hws, hv,
    token_other (by decide : isJsonWs 44 = false) (by decide : (44 : CodePoint) ≠ 125),
    token_self (by decide : isJsonWs 44 = false), skipWs_of_head hws', hrest, Except.map]

end Members

end AutoHeal
