import AutoHeal.Json.Dumps
import AutoHeal.Python.DateOrder
import Mathlib.Data.List.TakeWhile

/-!
# How much `json` takes

The interpreter reads and writes no integer of more than `maxStrDigits` digits, which is a
`ValueError`, and `json` does not go deeper than `jsonLevels`, which is a `RecursionError`.
`jsonLoads` is `json.loads` with both limits. It raises the first thing it meets; what it does
read, and the texts that are no JSON, are those of `loads` (`jsonLoads_cases`).
-/

namespace AutoHeal

variable {F : Type}

/-! ## Values within the limits -/

/-- `str(n)` has no more digits than are allowed. -/
def short (n : Int) : Bool := decide ((natText n.natAbs).length ≤ maxStrDigits)

theorem short_iff {n : Int} : short n = true ↔ n.natAbs < 10 ^ maxStrDigits := by
  unfold short natText
  rw [decide_eq_true_iff, List.length_map,
    Nat.length_toDigits_le_iff (by decide) (by decide : 0 < maxStrDigits)]

/-- `k` is no integer with too many digits. -/
def Key.short : Key F → Bool
  | .int n => AutoHeal.short n
  | _ => true

mutual
/-- The first limit that is met on the way through a value, where `levels` more are allowed. -/
def overLimits : ℕ → PyVal F → Option PyErr
  | _, .int n => if short n then none else some .valueError
  | levels, .list xs => if levels = 0 then some .recursionError else overLimitsList (levels - 1) xs
  | levels, .dict kvs => if levels = 0 then some .recursionError else overLimitsDict (levels - 1) kvs
  | _, _ => none
termination_by structural _ v => v

def overLimitsList : ℕ → List (PyVal F) → Option PyErr
  | _, [] => none
  | levels, x :: xs => (overLimits levels x).or (overLimitsList levels xs)
termination_by structural _ xs => xs

def overLimitsDict : ℕ → Dict F → Option PyErr
  | _, [] => none
  | levels, (k, v) :: kvs =>
    if k.short then (overLimits levels v).or (overLimitsDict levels kvs) else some .valueError
termination_by structural _ kvs => kvs
end

/-- The value can be written and read again. -/
def Fits (levels : ℕ) (v : PyVal F) : Prop := overLimits levels v = none

instance (levels : ℕ) (v : PyVal F) : Decidable (Fits levels v) :=
  inferInstanceAs (Decidable (_ = none))

theorem fits_int {levels : ℕ} {n : Int} : Fits levels (.int n : PyVal F) ↔ short n = true := by
  unfold Fits overLimits
  split <;> simp_all

theorem fits_str {levels : ℕ} (s : Str) : Fits levels (.str s : PyVal F) := rfl

theorem overLimitsList_eq_none {levels : ℕ} {xs : List (PyVal F)} :
    overLimitsList levels xs = none ↔ ∀ x ∈ xs, Fits levels x := by
  induction xs with
  | nil => simp [overLimitsList]
  | cons x xs ih => simp [overLimitsList, Fits, ih]

theorem overLimitsDict_eq_none {levels : ℕ} {kvs : Dict F} :
    overLimitsDict levels kvs = none ↔ ∀ kv ∈ kvs, kv.1.short = true ∧ Fits levels kv.2 := by
  induction kvs with
  | nil => simp [overLimitsDict]
  | cons kv kvs ih =>
    rcases kv with ⟨k, v⟩
    unfold overLimitsDict
    split_ifs with hk
    · simp [hk, Fits, ih]
    · simp [hk]

theorem fits_list {levels : ℕ} {xs : List (PyVal F)} :
    Fits levels (.list xs) ↔ levels ≠ 0 ∧ ∀ x ∈ xs, Fits (levels - 1) x := by
  rw [← overLimitsList_eq_none]
  unfold Fits overLimits
  split_ifs with hlevels <;> simp [hlevels]

theorem fits_dict {levels : ℕ} {kvs : Dict F} : Fits levels (.dict kvs) ↔
    levels ≠ 0 ∧ ∀ kv ∈ kvs, kv.1.short = true ∧ Fits (levels - 1) kv.2 := by
  rw [← overLimitsDict_eq_none]
  unfold Fits overLimits
  split_ifs with hlevels <;> simp [hlevels]

/-! ## Building and replacing -/

theorem fits_set {levels : ℕ} {d : Dict F} {v : PyVal F} (hd : Fits levels (.dict d))
    (hv : Fits (levels - 1) v) (s : Str) : Fits levels (.dict (Dict.set s v d)) := by
  rw [fits_dict] at hd ⊢
  refine ⟨hd.1, fun kv hkv => ?_⟩
  rcases Dict.mem_set hkv with hkv | rfl
  · exact hd.2 kv hkv
  · exact ⟨rfl, hv⟩

theorem fits_erase {levels : ℕ} {d : Dict F} (h : Fits levels (.dict d)) (s : Str) :
    Fits levels (.dict (Dict.erase s d)) := by
  rw [fits_dict] at h ⊢
  exact ⟨h.1, fun kv hkv => h.2 kv (List.mem_of_mem_filter hkv)⟩

theorem fits_dictOfPairs {levels : ℕ} {kvs : Dict F} (h : Fits levels (.dict kvs)) :
    Fits levels (.dict (dictOfPairs kvs)) := by
  rw [fits_dict] at h
  rcases h with ⟨hlevels, hkvs⟩
  induction kvs using List.reverseRecOn with
  | nil => exact fits_dict.mpr ⟨hlevels, fun _ hkv => absurd hkv List.not_mem_nil⟩
  | append_singleton kvs kv ih =>
    have hinit := ih fun kw hkw => hkvs kw (List.mem_append_left _ hkw)
    have hkv := hkvs kv (by simp)
    rcases kv with ⟨k, v⟩
    unfold dictOfPairs at hinit ⊢
    rw [List.foldl_append, List.foldl_cons, List.foldl_nil]
    cases k with
    | str s => exact fits_set hinit hkv.2 s
    | none | bool | int | float | other =>
      rw [fits_dict] at hinit ⊢
      refine ⟨hlevels, fun kw hkw => ?_⟩
      rcases List.mem_append.mp hkw with hkw | hkw
      · exact hinit.2 kw hkw
      · rw [List.mem_singleton.mp hkw]
        exact hkv

/-- A read text is within the limits when its pieces are. -/
theorem fits_resolve {v : PyVal F} {levels : ℕ} (h : Fits levels v) : Fits levels (resolve v) := by
  induction v generalizing levels with
  | none | bool | int | float | str | obj => exact h
  | list xs ih =>
    rw [fits_list] at h
    rw [resolve, resolveList_eq, fits_list]
    refine ⟨h.1, fun y hy => ?_⟩
    rcases List.mem_map.mp hy with ⟨x, hx, rfl⟩
    exact ih x hx (h.2 x hx)
  | dict kvs ih =>
    rw [fits_dict] at h
    rw [resolve, resolveDict_eq]
    refine fits_dictOfPairs (fits_dict.mpr ⟨h.1, fun kw hkw => ?_⟩)
    rcases Dict.mem_mapValues.mp hkw with ⟨kv, hkv, rfl⟩
    exact ⟨(h.2 kv hkv).1, ih kv hkv (h.2 kv hkv).2⟩

/-- A text is written for every value within the limits. -/
theorem fits_stringify [JsonFloat F] {v : PyVal F} {levels : ℕ} (h : Fits levels v) :
    Fits levels (stringify v) := by
  induction v generalizing levels with
  | none | bool | int | float | str | obj => exact h
  | list xs ih =>
    rw [fits_list] at h
    rw [stringify, stringifyList_eq, fits_list]
    refine ⟨h.1, fun y hy => ?_⟩
    rcases List.mem_map.mp hy with ⟨x, hx, rfl⟩
    exact ih x hx (h.2 x hx)
  | dict kvs ih =>
    rw [fits_dict] at h
    rw [stringify, stringifyDict_eq, fits_dict]
    refine ⟨h.1, fun kw hkw => ?_⟩
    rcases List.mem_map.mp hkw with ⟨kv, hkv, rfl⟩
    exact ⟨rfl, ih kv hkv (h.2 kv hkv).2⟩

/-! ## The scanner -/

/-- What the scanner has found, nothing being a `JSONDecodeError`. -/
def found {α : Type} : Option α → Py α
  | some a => .ok a
  | none => .error .jsonDecodeError

section Scan

variable [JsonFloat F]

section Texts

-- how the rest of a string literal is read, after its opening quote
variable (text : Str → Option (Str × Str))

mutual
/-- Read one value, `levels` lists and objects deep at most. -/
def scanValue : ℕ → Nat → Str → Py (PyVal F × Str)
  | _, 0, _ => .error .jsonDecodeError
  | _, _ + 1, [] => .error .jsonDecodeError
  | levels, n + 1, c :: cs =>
    if c = 34 then (found (text cs)).map fun p => (.str p.1, p.2)
    else if c = 123 then
      if levels = 0 then .error .recursionError
      else
        match token 125 cs with
        | some r => .ok (.dict [], r)
        | none => (scanMembers (levels - 1) n (skipWs cs)).map fun p => (.dict p.1, p.2)
    else if c = 91 then
      if levels = 0 then .error .recursionError
      else
        match token 93 cs with
        | some r => .ok (.list [], r)
        | none => (scanElems (levels - 1) n (skipWs cs)).map fun p => (.list p.1, p.2)
    else
      match scanConstant (c :: cs) with
      | some p => .ok p
      | none =>
        (found (scanNumber (c :: cs))).bind fun p =>
          -- the digits of an integer are handed to `int()`
          if p.1.IsFloat ∨ p.1.int.length ≤ maxStrDigits then .ok (p.1.value, p.2)
          else .error .valueError

/-- The elements of a list, up to the closing bracket. -/
def scanElems : ℕ → Nat → Str → Py (List (PyVal F) × Str)
  | _, 0, _ => .error .jsonDecodeError
  | levels, n + 1, s =>
    (scanValue levels n s).bind fun p =>
      match token 93 p.2 with
      | some r => .ok ([p.1], r)
      | none =>
        (found (token 44 p.2)).bind fun r =>
          (scanElems levels n (skipWs r)).map fun q => (p.1 :: q.1, q.2)

/-- The items of an object, up to the closing brace. -/
def scanMembers : ℕ → Nat → Str → Py (Dict F × Str)
  | _, 0, _ => .error .jsonDecodeError
  | _, _ + 1, [] => .error .jsonDecodeError
  | levels, n + 1, c :: cs =>
    if c = 34 then
      (found (text cs)).bind fun k =>
        (found (token 58 k.2)).bind fun r =>
          (scanValue levels n (skipWs r)).bind fun p =>
            match token 125 p.2 with
            | some r => .ok ([(.str k.1, p.1)], r)
            | none =>
              (found (token 44 p.2)).bind fun r =>
                (scanMembers levels n (skipWs r)).map fun q => ((.str k.1, p.1) :: q.1, q.2)
    else .error .jsonDecodeError
end

end Texts

/-! ## Digits -/

omit [JsonFloat F] in
/-- Digits that do not begin with a zero. -/
structure IntDigits (ds : Str) : Prop where
  ne : ds ≠ []
  digits : ∀ c ∈ ds, isDigit c = true
  zero : ds.head? = some 48 → ds = [48]

theorem intDigits_natText (n : Nat) : IntDigits (natText n) := by
  have hvalid := intLit_valid (n : Int)
  exact ⟨hvalid.int_ne, hvalid.int_digits, hvalid.int_zero⟩

theorem intDigits_of_scanInt {s ds r : Str} (h : scanInt s = some (ds, r)) : IntDigits ds := by
  unfold scanInt at h
  split at h
  · cases h
  · next c cs =>
    split_ifs at h with hzero hdigit
    · cases h
      exact ⟨by simp, by simp [isDigit], fun _ => rfl⟩
    · cases h
      refine ⟨by simp [hdigit], fun d hd => List.mem_takeWhile_imp hd, fun hhead => ?_⟩
      rw [List.takeWhile_cons_of_pos hdigit, List.head?_cons, Option.some.injEq] at hhead
      exact absurd hhead hzero

/-- A number of so many digits is not denoted by fewer. -/
theorem length_le_of_digitsValue {s t : Str} (hs : IntDigits s) (ht : IntDigits t)
    (h : digitsValue t = digitsValue s) : t.length ≤ s.length := by
  have hpos := List.length_pos_iff.mpr hs.ne
  cases t with
  | nil => simp
  | cons c t =>
    by_cases hc : c = 48
    · have hsingle := ht.zero (by rw [hc]; rfl)
      rw [hsingle]
      exact hpos
    · have hdigit := ht.digits c List.mem_cons_self
      have hone : 1 ≤ c.val - 48 := by
        unfold isDigit at hdigit
        simp only [Bool.and_eq_true, decide_eq_true_eq] at hdigit
        have hne : c.val ≠ 48 := fun hval => hc (Fin.ext hval)
        omega
      have hlow := Nat.mul_le_mul_right (10 ^ t.length) hone
      have hhigh := digitsValue_lt hs.digits
      rw [← h, digitsValue_cons] at hhigh
      have hlt : 10 ^ t.length < 10 ^ s.length := by omega
      exact (Nat.pow_lt_pow_iff_right (by decide)).mp hlt

/-- A literal is as long as the text of its number. -/
theorem length_natText_digitsValue {ds : Str} (h : IntDigits ds) :
    (natText (digitsValue ds)).length = ds.length := by
  have hvalue : digitsValue (natText (digitsValue ds)) = digitsValue ds := digitsValue_natText _
  exact le_antisymm (length_le_of_digitsValue h (intDigits_natText _) hvalue)
    (length_le_of_digitsValue (intDigits_natText _) h hvalue.symm)

/-- The value of a literal is within the limits when it is a float or has few digits. -/
theorem fits_value_iff {s r : Str} {l : NumLit} (h : scanNumber s = some (l, r)) (levels : ℕ) :
    Fits levels (l.value : PyVal F) ↔ l.IsFloat ∨ l.int.length ≤ maxStrDigits := by
  rcases Option.map_eq_some_iff.mp h with ⟨p, hp, hl⟩
  have hdigits : IntDigits l.int := by
    cases hl
    exact intDigits_of_scanInt hp
  by_cases hfloat : l.IsFloat
  · rw [NumLit.value, if_pos hfloat]
    exact iff_of_true rfl (Or.inl hfloat)
  · rw [NumLit.value, if_neg hfloat, fits_int, or_iff_right hfloat, short, decide_eq_true_iff]
    have habs : (if l.neg then -(digitsValue l.int : Int) else digitsValue l.int).natAbs =
        digitsValue l.int := by
      split <;> simp
    rw [habs, length_natText_digitsValue hdigits]

theorem fits_of_scanConstant {s : Str} {p : PyVal F × Str} (h : scanConstant s = some p)
    {levels : ℕ} : Fits levels p.1 := by
  unfold scanConstant at h
  rcases List.exists_of_findSome?_eq_some h with ⟨kv, hkv, h⟩
  rcases Option.map_eq_some_iff.mp h with ⟨r, -, rfl⟩
  unfold constants at hkv
  simp only [List.mem_cons, List.not_mem_nil, or_false] at hkv
  rcases hkv with rfl | rfl | rfl | rfl | rfl | rfl
  all_goals rfl

/-! ## The scanner and the grammar -/

omit [JsonFloat F] in
/-- What is read with limits is read without them and is within them, what is no JSON is not read
without them either, and one of the limits is met only where what is read is not within them. -/
inductive Agrees {α : Type} (fits : α → Prop) : Py (α × Str) → Option (α × Str) → Prop
  | ok {a : α} {r : Str} : fits a → Agrees fits (.ok (a, r)) (some (a, r))
  | decodeError : Agrees fits (.error .jsonDecodeError) none
  | limit {e : PyErr} {o : Option (α × Str)} : e = .valueError ∨ e = .recursionError →
    (∀ p, o = some p → ¬ fits p.1) → Agrees fits (.error e) o

section Agrees

variable {α β : Type} {fits : α → Prop} {fits' : β → Prop}

omit [JsonFloat F] in
theorem agrees_found {o : Option (α × Str)} (h : ∀ p, o = some p → fits p.1) :
    Agrees fits (found o) o := by
  cases o with
  | none => exact .decodeError
  | some p => exact .ok (h p rfl)

omit [JsonFloat F] in
theorem Agrees.bind {r : Py (α × Str)} {o : Option (α × Str)} (h : Agrees fits r o)
    {f : α × Str → Py (β × Str)} {g : α × Str → Option (β × Str)}
    (hok : ∀ p, fits p.1 → Agrees fits' (f p) (g p))
    (hlimit : ∀ p q, g p = some q → fits' q.1 → fits p.1) :
    Agrees fits' (r.bind f) (o.bind g) := by
  cases h with
  | ok hfits => exact hok _ hfits
  | decodeError => exact .decodeError
  | limit he hnot =>
    refine .limit he fun q hq hfits => ?_
    rcases Option.bind_eq_some_iff.mp hq with ⟨p, hp, hg⟩
    exact hnot p hp (hlimit p q hg hfits)

omit [JsonFloat F] in
theorem Agrees.map {r : Py (α × Str)} {o : Option (α × Str)} (h : Agrees fits r o) {c : α → β}
    (hc : ∀ a, fits' (c a) ↔ fits a) :
    Agrees fits' (r.map fun p => (c p.1, p.2)) (o.map fun p => (c p.1, p.2)) := by
  cases h with
  | ok hfits => exact .ok ((hc _).mpr hfits)
  | decodeError => exact .decodeError
  | limit he hnot =>
    refine .limit he fun q hq hfits => ?_
    rcases Option.map_eq_some_iff.mp hq with ⟨p, hp, rfl⟩
    exact hnot p hp ((hc _).mp hfits)

omit [JsonFloat F] in
/-- A token is read on both sides, or on neither. -/
theorem Agrees.found {o : Option Str} {f : Str → Py (β × Str)} {g : Str → Option (β × Str)}
    (h : ∀ r, Agrees fits' (f r) (g r)) : Agrees fits' ((found o).bind f) (o.bind g) := by
  cases o with
  | none => exact .decodeError
  | some r => exact h r

end Agrees

theorem parseElems_succ (n : Nat) (s : Str) : (parseElems (n + 1) s : Option (List (PyVal F) × Str)) =
    (parseValue n s).bind fun p =>
      match token 93 p.2 with
      | some r => some ([p.1], r)
      | none =>
        (token 44 p.2).bind fun r =>
          (parseElems n (skipWs r)).map fun q => (p.1 :: q.1, q.2) := by
  rw [parseElems]
  refine congrArg _ (funext fun p => ?_)
  rcases p with ⟨v, r⟩
  cases htoken : token 93 r with
  | some r' => simp only [htoken]
  | none =>
    simp only [htoken]
    refine congrArg _ (funext fun r' => ?_)
    exact Option.map_eq_bind.symm

theorem parseMembers_succ (n : Nat) (cs : Str) : (parseMembers (n + 1) (34 :: cs) : Option (Dict F × Str)) =
    (scanString cs).bind fun k =>
      (token 58 k.2).bind fun r =>
        (parseValue n (skipWs r)).bind fun p =>
          match token 125 p.2 with
          | some r => some ([(.str k.1, p.1)], r)
          | none =>
            (token 44 p.2).bind fun r =>
              (parseMembers n (skipWs r)).map fun q => ((.str k.1, p.1) :: q.1, q.2) := by
  rw [parseMembers, if_pos rfl]
  refine congrArg _ (funext fun p => ?_)
  rcases p with ⟨k, r⟩
  simp only [Option.bind_eq_bind]
  refine congrArg _ (funext fun r' => ?_)
  refine congrArg _ (funext fun p => ?_)
  rcases p with ⟨v, r''⟩
  cases token 125 r'' with
  | some s => rfl
  | none =>
    show (token 44 r'').bind _ = (token 44 r'').bind _
    refine congrArg _ (funext fun s => ?_)
    exact Option.map_eq_bind.symm

/-- The scanner and the grammar agree on every text. -/
theorem scan_agrees (n : Nat) :
    (∀ levels s, Agrees (Fits levels) (scanValue scanString levels n s : Py (PyVal F × Str))
      (parseValue n s)) ∧
    (∀ levels s, Agrees (fun vs => ∀ v ∈ vs, Fits levels v)
      (scanElems scanString levels n s : Py (List (PyVal F) × Str)) (parseElems n s)) ∧
    ∀ levels s, Agrees (fun kvs => ∀ kv ∈ kvs, kv.1.short = true ∧ Fits levels kv.2)
      (scanMembers scanString levels n s : Py (Dict F × Str)) (parseMembers n s) := by
  induction n with
  | zero => exact ⟨fun _ _ => .decodeError, fun _ _ => .decodeError, fun _ _ => .decodeError⟩
  | succ n ih =>
    rcases ih with ⟨ihv, ihe, ihm⟩
    refine ⟨fun levels s => ?_, fun levels s => ?_, fun levels s => ?_⟩
    · cases s with
      | nil => exact .decodeError
      | cons c cs =>
        rw [scanValue, parseValue]
        -- a string, an object, a list, and a literal
        split_ifs with hstring hobject hlevels hlist hlevels
        · exact (@agrees_found _ (fun _ => True) _ fun _ _ => trivial).map
            fun _ => iff_of_true rfl trivial
        · refine .limit (Or.inr rfl) fun p hp => ?_
          have hdict : ∃ kvs, p.1 = .dict kvs := by
            split at hp
            · cases hp
              exact ⟨_, rfl⟩
            · rcases Option.map_eq_some_iff.mp hp with ⟨q, -, rfl⟩
              exact ⟨_, rfl⟩
          rcases hdict with ⟨kvs, hkvs⟩
          rw [hkvs, fits_dict]
          exact fun hfits => hfits.1 hlevels
        · cases token 125 cs with
          | some r => exact .ok (fits_dict.mpr ⟨hlevels, by simp⟩)
          | none =>
            exact (ihm (levels - 1) (skipWs cs)).map fun kvs =>
              fits_dict.trans (and_iff_right hlevels)
        · refine .limit (Or.inr rfl) fun p hp => ?_
          have hlist : ∃ xs, p.1 = .list xs := by
            split at hp
            · cases hp
              exact ⟨_, rfl⟩
            · rcases Option.map_eq_some_iff.mp hp with ⟨q, -, rfl⟩
              exact ⟨_, rfl⟩
          rcases hlist with ⟨xs, hxs⟩
          rw [hxs, fits_list]
          exact fun hfits => hfits.1 hlevels
        · cases token 93 cs with
          | some r => exact .ok (fits_list.mpr ⟨hlevels, by simp⟩)
          | none =>
            exact (ihe (levels - 1) (skipWs cs)).map fun xs =>
              fits_list.trans (and_iff_right hlevels)
        · cases hconstant : (scanConstant (c :: cs) : Option (PyVal F × Str)) with
          | some p => exact .ok (fits_of_scanConstant hconstant)
          | none =>
            cases hnumber : scanNumber (c :: cs) with
            | none => exact .decodeError
            | some p =>
              show Agrees _ (if p.1.IsFloat ∨ p.1.int.length ≤ maxStrDigits then _ else _)
                (some (p.1.value, p.2))
              have hfits := @fits_value_iff F _ (c :: cs) p.2 p.1 hnumber levels
              split_ifs with hshort
              · exact .ok (hfits.mpr hshort)
              · refine .limit (Or.inl rfl) ?_
                rintro _ ⟨⟩
                exact fun h => hshort (hfits.mp h)
    · rw [scanElems, parseElems_succ]
      refine (ihv levels s).bind ?_ ?_
      · rintro ⟨v, r⟩ hv
        cases token 93 r with
        | some r' => exact .ok (by simpa using hv)
        | none =>
          refine .found fun r' => (ihe levels (skipWs r')).map fun vs => ?_
          rw [List.forall_mem_cons, and_iff_right hv]
      · rintro ⟨v, r⟩ q hq hfits
        simp only at hq
        split at hq
        · cases hq
          exact hfits v List.mem_cons_self
        · rcases Option.bind_eq_some_iff.mp hq with ⟨r', -, hq⟩
          rcases Option.map_eq_some_iff.mp hq with ⟨vs, -, rfl⟩
          exact hfits v List.mem_cons_self
    · cases s with
      | nil => exact .decodeError
      | cons c cs =>
        by_cases hquote : c = 34
        · subst hquote
          rw [scanMembers, if_pos rfl, parseMembers_succ]
          refine (@agrees_found _ (fun _ => True) _ fun _ _ => trivial).bind (fun k _ => ?_)
            fun _ _ _ _ => trivial
          refine .found fun r => (ihv levels (skipWs r)).bind ?_ ?_
          · rintro ⟨v, r⟩ hv
            cases token 125 r with
            | some r' => exact .ok (by simpa [Key.short] using hv)
            | none =>
              refine .found fun r' => (ihm levels (skipWs r')).map fun kvs => ?_
              rw [List.forall_mem_cons]
              exact and_iff_right ⟨rfl, hv⟩
          · rintro ⟨v, r⟩ q hq hfits
            simp only at hq
            split at hq
            · cases hq
              exact (hfits _ List.mem_cons_self).2
            · rcases Option.bind_eq_some_iff.mp hq with ⟨r', -, hq⟩
              rcases Option.map_eq_some_iff.mp hq with ⟨kvs, -, rfl⟩
              exact (hfits _ List.mem_cons_self).2
        · rw [scanMembers, if_neg hquote, parseMembers, if_neg hquote]
          exact .decodeError

end Scan

/-! ## `json.loads` and `json.dumps` -/

section Codec

variable [PyRuntime F]

/-- `json.loads(s)`, with string literals read in some way. -/
def loadsWith (text : Str → Option (Str × Str)) (s : Str) : Py (PyVal F) :=
  (scanValue text (PyRuntime.jsonLevels F) (2 * s.length) (skipWs s)).bind fun p =>
    if skipWs p.2 = [] then .ok (resolve p.1) else .error .jsonDecodeError

/-- `json.loads(s)`. -/
def jsonLoads (s : Str) : Py (PyVal F) := loadsWith scanString s

variable (F) in
/-- What `json.loads` raises at a limit. -/
def limitMet (s : Str) : Option PyErr :=
  match (jsonLoads s : Py (PyVal F)) with
  | .ok _ => none
  | .error .jsonDecodeError => none
  | .error e => some e

/-- A value can be written where one that was read can be read. -/
def Writable (v : PyVal F) : Prop := Fits (PyRuntime.jsonLevels F) v

instance (v : PyVal F) : Decidable (Writable v) :=
  inferInstanceAs (Decidable (Fits (PyRuntime.jsonLevels F) v))

/-- What `json.dumps` makes of a value, or what it raises at a limit. -/
def writeLimit {α : Type} (v : PyVal F) (a : α) : Py α :=
  match overLimits (PyRuntime.jsonLevels F) v with
  | some e => .error e
  | none => .ok a

theorem writeLimit_eq_ok {α : Type} {v : PyVal F} {a b : α} :
    writeLimit v a = .ok b ↔ Writable v ∧ a = b := by
  unfold writeLimit Writable Fits
  cases overLimits (PyRuntime.jsonLevels F) v with
  | none => simp
  | some e => simp

/-- `json.dumps(v)`. Of several reasons to raise the one that has to do with types comes
first here. -/
def jsonDumps (v : PyVal F) : Py Str := (dumps v).bind (writeLimit v)

/-- `json.loads` reads the value of the text, or there is none, or it meets a limit. -/
theorem jsonLoads_cases (s : Str) :
    (∃ raw : PyVal F, jsonLoads s = .ok (resolve raw) ∧ parse s = some raw ∧ Writable raw) ∨
    ((jsonLoads s : Py (PyVal F)) = .error .jsonDecodeError ∧
      (parse s : Option (PyVal F)) = none) ∨
    ∃ e, (jsonLoads s : Py (PyVal F)) = .error e ∧ (e = .valueError ∨ e = .recursionError) ∧
      ∀ raw : PyVal F, parse s = some raw → ¬ Writable raw := by
  have hscan := (@scan_agrees F _ (2 * s.length)).1 (PyRuntime.jsonLevels F) (skipWs s)
  unfold jsonLoads loadsWith parse
  generalize (scanValue scanString (PyRuntime.jsonLevels F) (2 * s.length) (skipWs s) :
    Py (PyVal F × Str)) = r at hscan ⊢
  generalize (parseValue (2 * s.length) (skipWs s) : Option (PyVal F × Str)) = o at hscan ⊢
  cases hscan with
  | @ok raw rest hfits =>
    simp only [Except.bind]
    by_cases hrest : skipWs rest = []
    · exact Or.inl ⟨raw, if_pos hrest, if_pos hrest, hfits⟩
    · exact Or.inr (Or.inl ⟨if_neg hrest, if_neg hrest⟩)
  | decodeError => exact Or.inr (Or.inl ⟨rfl, rfl⟩)
  | @limit e o he hnot =>
    refine Or.inr (Or.inr ⟨e, rfl, he, fun raw hraw => ?_⟩)
    rcases o with _ | ⟨raw', rest⟩
    · cases hraw
    · simp only at hraw
      split_ifs at hraw
      cases hraw
      exact hnot _ rfl

/-- What is read is the value of the text, and within the limits. -/
theorem jsonLoads_ok {s : Str} {v : PyVal F} (h : jsonLoads s = .ok v) :
    loads s = some v ∧ Writable v := by
  rcases jsonLoads_cases (F := F) s with ⟨raw, hraw, hparse, hfits⟩ | ⟨herror, -⟩ | ⟨e, herror, -⟩
  · rw [h, Except.ok.injEq] at hraw
    rw [loads, hparse, Option.map_some, hraw]
    exact ⟨rfl, fits_resolve hfits⟩
  · rw [h] at herror
    cases herror
  · rw [h] at herror
    cases herror

/-- Where no limit is met `json.loads` is as without limits. -/
theorem jsonLoads_of_limitMet {s : Str} (h : limitMet F s = none) :
    (jsonLoads s : Py (PyVal F)) = found (loads s) := by
  unfold limitMet at h
  unfold loads
  rcases jsonLoads_cases (F := F) s with ⟨raw, hraw, hparse, -⟩ | ⟨herror, hparse⟩ |
    ⟨e, herror, he, -⟩
  · rw [hraw, hparse]
    rfl
  · rw [herror, hparse]
    rfl
  · rw [herror] at h
    rcases he with rfl | rfl <;> cases h

theorem limitMet_eq_some {s : Str} {e : PyErr} (h : limitMet F s = some e) :
    (jsonLoads s : Py (PyVal F)) = .error e ∧ (e = .valueError ∨ e = .recursionError) := by
  unfold limitMet at h
  rcases jsonLoads_cases (F := F) s with ⟨raw, hraw, -⟩ | ⟨herror, -⟩ | ⟨e', herror, he, -⟩
  · rw [hraw] at h
    cases h
  · rw [herror] at h
    cases h
  · rw [herror] at h ⊢
    rcases he with rfl | rfl <;> cases h <;> exact ⟨rfl, by simp⟩

/-- A limit is met in the text of a value that is not within the limits, in no other text
of a value. -/
theorem limitMet_eq_none_iff {s : Str} {raw : PyVal F} (h : parse s = some raw) :
    limitMet F s = none ↔ Writable raw := by
  unfold limitMet
  rcases jsonLoads_cases (F := F) s with ⟨raw', hraw, hparse, hfits⟩ | ⟨-, hparse⟩ |
    ⟨e, herror, he, hnot⟩
  · rw [h, Option.some.injEq] at hparse
    rw [hraw]
    exact iff_of_true rfl (hparse ▸ hfits)
  · rw [h] at hparse
    cases hparse
  · rw [herror]
    refine iff_of_false ?_ (hnot raw h)
    rcases he with rfl | rfl <;> simp

/-- What was written within the limits is read back. -/
theorem jsonLoads_ws_print (st : Style) {v : PyVal F} (h : Writable v) {ws : Str}
    (hws : ∀ c ∈ ws, isJsonWs c = true) : jsonLoads (ws ++ print st v) = .ok (readBack v) := by
  have hparse := parse_ws_print st v hws
  rw [jsonLoads_of_limitMet ((limitMet_eq_none_iff hparse).mpr (fits_stringify h)), loads, hparse]
  rfl

theorem jsonLoads_print (st : Style) {v : PyVal F} (h : Writable v) :
    jsonLoads (print st v) = .ok (readBack v) :=
  jsonLoads_ws_print st h fun _ hc => absurd hc List.not_mem_nil

theorem limitMet_print (st : Style) {v : PyVal F} (h : Writable v) : limitMet F (print st v) = none :=
  (limitMet_eq_none_iff (parse_print st v)).mpr (fits_stringify h)

end Codec

end AutoHeal
