import AutoHeal.Json.Parse

/-!
# Reading back what `json.dumps` wrote

`parse_print`: the text of a value parses to the value with its keys as strings
and its surrogate pairs joined (`stringify`), in either style of separators. The
equation has no side condition, so texts of values that are already in that form
are different for different values (`print_injective`).
-/

namespace AutoHeal

variable {F : Type} [JsonFloat F]

/-! ## Tokens -/

theorem skipWs_of_head {c : CodePoint} (hc : isJsonWs c = false) (cs : Str) :
    skipWs (c :: cs) = c :: cs := by
  simp [skipWs, List.dropWhile, hc]

theorem skipWs_gap (st : Style) {c : CodePoint} (hc : isJsonWs c = false) (cs : Str) :
    skipWs (st.gap ++ c :: cs) = c :: cs := by
  cases st with
  | spaced => rw [Style.gap, List.singleton_append, skipWs, List.dropWhile_cons_of_pos (by decide)]
              exact skipWs_of_head hc cs
  | compact => exact skipWs_of_head hc cs

theorem token_self {c : CodePoint} (hc : isJsonWs c = false) (cs : Str) :
    token c (c :: cs) = some cs := by
  simp [token, skipWs_of_head hc]

theorem token_other {c d : CodePoint} (hd : isJsonWs d = false) (hne : d ≠ c) (cs : Str) :
    token c (d :: cs) = none := by
  simp [token, skipWs_of_head hd, hne]

/-! ## Strings -/

/-- The code points whose escapes a code point is written as: itself, or the
surrogates of one above U+FFFF. -/
def units (c : CodePoint) : Str :=
  if c.val < 0x10000 then [c]
  else
    [Fin.ofNat 0x110000 (0xD800 + (c.val - 0x10000) / 1024),
      Fin.ofNat 0x110000 (0xDC00 + (c.val - 0x10000) % 1024)]

theorem val_ofNat {n : Nat} (h : n < 0x110000) : (Fin.ofNat 0x110000 n).val = n :=
  Nat.mod_eq_of_lt h

theorem hexValue_hexDigit {n : Nat} (h : n < 16) : hexValue (hexDigit n) = some n := by
  have : ∀ m : Fin 16, hexValue (hexDigit m.val) = some m.val := by decide
  exact this ⟨n, h⟩

theorem scanUnits_quote (s : Str) : scanUnits (34 :: s) = some ([], s) := by
  rw [scanUnits.eq_def]
  simp

theorem scanUnits_simpleEscape {e u : CodePoint} (he : e ≠ 117) (hu : simpleEscape e = some u)
    (s : Str) : scanUnits (92 :: e :: s) = (scanUnits s).map fun p => (u :: p.1, p.2) := by
  rw [scanUnits.eq_def]
  simp [he, hu]

theorem scanUnits_plain {c : CodePoint} (h34 : c ≠ 34) (h92 : c ≠ 92) (hctl : ¬ c.val < 32)
    (s : Str) : scanUnits (c :: s) = (scanUnits s).map fun p => (c :: p.1, p.2) := by
  rw [scanUnits.eq_def]
  simp [h34, h92, hctl]

theorem scanUnits_escapeUnit {u : Nat} (hu : u < 0x10000) (s : Str) :
    scanUnits (escapeUnit u ++ s) =
      (scanUnits s).map fun p => (Fin.ofNat 0x110000 u :: p.1, p.2) := by
  have hunit : hexUnit (hexDigit (u / 4096)) (hexDigit (u / 256 % 16)) (hexDigit (u / 16 % 16))
      (hexDigit (u % 16)) = some (Fin.ofNat 0x110000 u) := by
    rw [hexUnit, hexValue_hexDigit (by omega), hexValue_hexDigit (by omega),
      hexValue_hexDigit (by omega), hexValue_hexDigit (by omega)]
    simp only [Option.bind_eq_bind, Option.bind_some]
    congr 2
    omega
  simp [escapeUnit, scanUnits, hunit]

/-- What a code point is written as inside a string literal. -/
inductive Escaped : CodePoint → Str → Prop
  | simple {c e : CodePoint} (hread : simpleEscape e = some c) (hne : e ≠ 117)
    (hprint : 32 ≤ e.val ∧ e.val < 127) (hsmall : c.val < 0x10000) : Escaped c [92, e]
  | plain {c : CodePoint} (h34 : c ≠ 34) (h92 : c ≠ 92) (hprint : 32 ≤ c.val ∧ c.val < 127) :
    Escaped c [c]
  | unit {c : CodePoint} (hsmall : c.val < 0x10000) : Escaped c (escapeUnit c.val)
  | pair {c : CodePoint} (hlarge : ¬ c.val < 0x10000) :
    Escaped c (escapeUnit (0xD800 + (c.val - 0x10000) / 1024) ++
      escapeUnit (0xDC00 + (c.val - 0x10000) % 1024))

theorem escaped_escapeChar (c : CodePoint) : Escaped c (escapeChar c) := by
  unfold escapeChar
  by_cases h34 : c = 34
  · rw [if_pos h34, h34]
    exact .simple rfl (by decide) (by decide) (by decide)
  rw [if_neg h34]
  by_cases h92 : c = 92
  · rw [if_pos h92, h92]
    exact .simple rfl (by decide) (by decide) (by decide)
  rw [if_neg h92]
  by_cases h10 : c = 10
  · rw [if_pos h10, h10]
    exact .simple rfl (by decide) (by decide) (by decide)
  rw [if_neg h10]
  by_cases h13 : c = 13
  · rw [if_pos h13, h13]
    exact .simple rfl (by decide) (by decide) (by decide)
  rw [if_neg h13]
  by_cases h9 : c = 9
  · rw [if_pos h9, h9]
    exact .simple rfl (by decide) (by decide) (by decide)
  rw [if_neg h9]
  by_cases h12 : c = 12
  · rw [if_pos h12, h12]
    exact .simple rfl (by decide) (by decide) (by decide)
  rw [if_neg h12]
  by_cases h8 : c = 8
  · rw [if_pos h8, h8]
    exact .simple rfl (by decide) (by decide) (by decide)
  rw [if_neg h8]
  by_cases hprint : 32 ≤ c.val ∧ c.val < 127
  · rw [if_pos hprint]
    exact .plain h34 h92 hprint
  rw [if_neg hprint]
  by_cases hsmall : c.val < 0x10000
  · rw [if_pos hsmall]
    exact .unit hsmall
  · rw [if_neg hsmall]
    exact .pair hsmall

theorem scanUnits_escapeChar (c : CodePoint) (s : Str) :
    scanUnits (escapeChar c ++ s) = (scanUnits s).map fun p => (units c ++ p.1, p.2) := by
  have h := escaped_escapeChar c
  generalize escapeChar c = t at h ⊢
  cases h with
  | simple hread hne _ hsmall =>
    rw [units, if_pos hsmall]
    exact scanUnits_simpleEscape hne hread s
  | plain h34 h92 hprint =>
    rw [units, if_pos (by omega)]
    exact scanUnits_plain h34 h92 (by omega) s
  | unit hsmall =>
    rw [scanUnits_escapeUnit hsmall, units, if_pos hsmall, Fin.ofNat_val_eq_self]
    rfl
  | pair hlarge =>
    have hc := c.isLt
    rw [List.append_assoc, scanUnits_escapeUnit (by omega), scanUnits_escapeUnit (by omega)]
    simp [units, hlarge, Option.map_map, Function.comp_def]

theorem scanUnits_flatMap (s r : Str) :
    scanUnits (s.flatMap escapeChar ++ 34 :: r) = some (s.flatMap units, r) := by
  induction s with
  | nil => exact scanUnits_quote r
  | cons c cs ih => simp [scanUnits_escapeChar, ih]

/-- A code point above U+FFFF, joined from its surrogates. -/
theorem joinSurrogates_units_of_ge {c : CodePoint} (hc : ¬ c.val < 0x10000) (s : Str) :
    joinSurrogates (units c ++ s) = c :: joinSurrogates s := by
  have hlt := c.isLt
  have hhi : (Fin.ofNat 0x110000 (0xD800 + (c.val - 0x10000) / 1024)).val =
      0xD800 + (c.val - 0x10000) / 1024 := val_ofNat (by omega)
  have hlo : (Fin.ofNat 0x110000 (0xDC00 + (c.val - 0x10000) % 1024)).val =
      0xDC00 + (c.val - 0x10000) % 1024 := val_ofNat (by omega)
  have hpair : surrogatePair (Fin.ofNat 0x110000 (0xD800 + (c.val - 0x10000) / 1024))
      (Fin.ofNat 0x110000 (0xDC00 + (c.val - 0x10000) % 1024)) = c := by
    apply Fin.ext
    rw [surrogatePair, hhi, hlo, val_ofNat (by omega)]
    omega
  have hcond : (isHighSurrogate (Fin.ofNat 0x110000 (0xD800 + (c.val - 0x10000) / 1024)) &&
      isLowSurrogate (Fin.ofNat 0x110000 (0xDC00 + (c.val - 0x10000) % 1024))) = true := by
    simp only [isHighSurrogate, isLowSurrogate, hhi, hlo, Bool.and_eq_true, decide_eq_true_eq]
    omega
  simp only [units, if_neg hc, List.cons_append, List.nil_append, joinSurrogates, hcond,
    if_true, hpair]

theorem joinSurrogates_cons_of_not_high {a : CodePoint} (ha : isHighSurrogate a = false)
    (s : Str) : joinSurrogates (a :: s) = a :: joinSurrogates s := by
  cases s <;> simp [joinSurrogates, ha]

theorem joinSurrogates_cons_of_not_low {a b : CodePoint} (hb : isLowSurrogate b = false)
    (s : Str) : joinSurrogates (a :: b :: s) = a :: joinSurrogates (b :: s) := by
  simp [joinSurrogates, hb]

/-- Reading the escapes of a string and joining the pairs is joining the pairs of
the string. -/
theorem joinSurrogates_flatMap_units (s : Str) :
    joinSurrogates (s.flatMap units) = joinSurrogates s := by
  -- above the first plane a code point is written as a pair, whose first half is no low one
  have hnot : ∀ {c : CodePoint}, ¬ c.val < 0x10000 → isHighSurrogate c = false := by
    intro c hc
    simp only [isHighSurrogate, Bool.and_eq_false_iff, decide_eq_false_iff_not]
    omega
  have hhead : ∀ {c : CodePoint}, ¬ c.val < 0x10000 → ∃ h l, units c = [h, l] ∧
      isLowSurrogate h = false := by
    intro c hc
    have hlt := c.isLt
    refine ⟨_, _, by rw [units, if_neg hc], ?_⟩
    rw [isLowSurrogate, val_ofNat (by omega)]
    simp only [Bool.and_eq_false_iff, decide_eq_false_iff_not]
    omega
  fun_induction joinSurrogates s with
  | case1 => rfl
  | case2 c =>
    by_cases hc : c.val < 0x10000
    · simp [units, hc, joinSurrogates]
    · have := joinSurrogates_units_of_ge hc []
      simpa [joinSurrogates] using this
  -- a pair that joins: both halves are below the first plane's end, and written as themselves
  | case3 a b s hab ih =>
    have ha : a.val < 0x10000 := by
      by_contra h
      simp [hnot h] at hab
    have hb : b.val < 0x10000 := by
      simp only [isLowSurrogate, Bool.and_eq_true, decide_eq_true_eq] at hab
      omega
    simp [units, ha, hb, joinSurrogates, hab, ih]
  | case4 a b s hab ih =>
    rw [List.flatMap_cons]
    by_cases ha : a.val < 0x10000
    · rw [units, if_pos ha, List.singleton_append]
      by_cases hb : b.val < 0x10000
      · simp only [List.flatMap_cons, units, if_pos hb, List.singleton_append] at ih ⊢
        simp [joinSurrogates, hab, ih]
      -- here `b` is written as a pair, which cannot join `a` in front of it
      · obtain ⟨h, l, hu, hl⟩ := hhead hb
        rw [List.flatMap_cons, hu] at ih ⊢
        rw [List.cons_append, joinSurrogates_cons_of_not_low hl, ← List.cons_append, ih]
    · rw [joinSurrogates_units_of_ge ha, ih]

theorem scanString_printStr (s r : Str) :
    scanString (s.flatMap escapeChar ++ 34 :: r) = some (joinSurrogates s, r) := by
  simp [scanString, scanUnits_flatMap, joinSurrogates_flatMap_units]

/-! ## Numbers -/

/-- What may follow a number literal without becoming part of it. -/
def NumEnd (r : Str) : Prop := ∀ c ∈ r.head?, isDigit c = false ∧ c ≠ 46 ∧ c ≠ 101 ∧ c ≠ 69

/-- What may follow a run of digits. -/
def DigitEnd (r : Str) : Prop := ∀ c ∈ r.head?, isDigit c = false

theorem NumEnd.digitEnd {r : Str} (h : NumEnd r) : DigitEnd r := fun c hc => (h c hc).1

theorem takeWhile_digits {ds r : Str} (hd : ∀ c ∈ ds, isDigit c = true) (hr : DigitEnd r) :
    (ds ++ r).takeWhile isDigit = ds ∧ (ds ++ r).dropWhile isDigit = r := by
  induction ds with
  | nil =>
    cases r with
    | nil => simp
    | cons c cs => simp [hr c (by simp)]
  | cons d ds ih =>
    have hrest := ih (fun c hc => hd c (by simp [hc]))
    simp [hd d (by simp), hrest.1, hrest.2]

theorem scanInt_digits {ds r : Str} (hne : ds ≠ []) (hd : ∀ c ∈ ds, isDigit c = true)
    (hz : ds.head? = some 48 → ds = [48]) (hr : DigitEnd r) :
    scanInt (ds ++ r) = some (ds, r) := by
  cases ds with
  | nil => exact absurd rfl hne
  | cons d ds =>
    by_cases h48 : d = 48
    · have hds : d :: ds = [48] := hz (by simp [h48])
      rw [hds]
      simp [scanInt]
    · have hrun := takeWhile_digits hd hr
      rw [List.cons_append] at hrun ⊢
      simp only [scanInt, if_neg h48, hd d (by simp), if_true, hrun.1, hrun.2]

theorem scanFrac_none {r : Str} (hr : r.head? ≠ some 46) : scanFrac r = ([], r) := by
  cases r with
  | nil => rfl
  | cons c cs =>
    have hc : c ≠ 46 := fun h => hr (by simp [h])
    simp [scanFrac, hc]

theorem scanFrac_some {ds r : Str} (hne : ds ≠ []) (hd : ∀ c ∈ ds, isDigit c = true)
    (hr : DigitEnd r) : scanFrac (46 :: ds ++ r) = (ds, r) := by
  have hrun := takeWhile_digits hd hr
  rw [List.cons_append]
  simp only [scanFrac, hrun.1, hrun.2, hne, ne_eq, not_false_eq_true, and_self, if_true]

theorem scanExp_none {r : Str} (hr : NumEnd r) : scanExp r = ([], r) := by
  cases r with
  | nil => rfl
  | cons c cs =>
    have hc := hr c (by simp)
    simp [scanExp, hc.2.2.1, hc.2.2.2]

theorem scanSign_eq {sign ds r : Str} (hs : sign = [] ∨ sign = [43] ∨ sign = [45]) (hne : ds ≠ [])
    (hd : ∀ c ∈ ds, isDigit c = true) : scanSign (sign ++ ds ++ r) = (sign, ds ++ r) := by
  rcases hs with rfl | rfl | rfl
  · cases ds with
    | nil => exact absurd rfl hne
    | cons d ds =>
      have hd43 : ¬ (d = 43 ∨ d = 45) := by
        rintro (rfl | rfl)
        · exact absurd (hd 43 (by simp)) (by decide)
        · exact absurd (hd 45 (by simp)) (by decide)
      simp [scanSign, hd43]
  · simp [scanSign]
  · simp [scanSign]

theorem scanExp_some {e : CodePoint} {sign ds r : Str} (he : e = 101 ∨ e = 69)
    (hs : sign = [] ∨ sign = [43] ∨ sign = [45]) (hne : ds ≠ [])
    (hd : ∀ c ∈ ds, isDigit c = true) (hr : DigitEnd r) :
    scanExp (e :: (sign ++ ds) ++ r) = (e :: (sign ++ ds), r) := by
  have hrun := takeWhile_digits hd hr
  have hsign := scanSign_eq (r := r) hs hne hd
  rw [List.cons_append]
  simp only [scanExp, hsign, hrun.1, hrun.2, he, hne, ne_eq, not_false_eq_true, and_self, if_true]

theorem exp_head {l : NumLit} (hl : l.Valid) (r : Str) (hr : NumEnd r) :
    (∀ c ∈ (l.exp ++ r).head?, isDigit c = false ∧ c ≠ 46) ∧
      scanExp (l.exp ++ r) = (l.exp, r) := by
  rcases hl.exp_form with h | ⟨e, sign, ds, h, he, hs, hne, hd⟩
  · rw [h, List.nil_append]
    exact ⟨fun c hc => ⟨(hr c hc).1, (hr c hc).2.1⟩, scanExp_none hr⟩
  · rw [h]
    refine ⟨?_, scanExp_some he hs hne hd hr.digitEnd⟩
    intro c hc
    simp only [List.cons_append, List.head?_cons, Option.mem_def, Option.some.injEq] at hc
    subst hc
    rcases he with rfl | rfl <;> exact ⟨by decide, by decide⟩

/-- A literal is scanned to itself. -/
theorem scanNumber_text {l : NumLit} (hl : l.Valid) {r : Str} (hr : NumEnd r) :
    scanNumber (l.text ++ r) = some (l, r) := by
  obtain ⟨hexpHead, hexp⟩ := exp_head hl r hr
  have hfrac : ∃ u, (if l.frac = [] then [] else 46 :: l.frac) ++ (l.exp ++ r) = u ∧
      DigitEnd u ∧ scanFrac u = (l.frac, l.exp ++ r) := by
    refine ⟨_, rfl, ?_⟩
    by_cases h : l.frac = []
    · rw [if_pos h, List.nil_append, h]
      refine ⟨fun c hc => (hexpHead c hc).1, scanFrac_none ?_⟩
      intro h46
      exact (hexpHead 46 h46).2 rfl
    · rw [if_neg h]
      refine ⟨?_, scanFrac_some h hl.frac_digits fun c hc => (hexpHead c hc).1⟩
      intro c hc
      simp only [List.cons_append, List.head?_cons, Option.mem_def, Option.some.injEq] at hc
      subst hc
      decide
  obtain ⟨u, hu, hend, hscan⟩ := hfrac
  have hint := scanInt_digits hl.int_ne hl.int_digits hl.int_zero hend
  have hbody : l.text ++ r = (if l.neg then [45] else []) ++ (l.int ++ u) := by
    simp [NumLit.text, ← hu]
  -- the sign is the first character, and no digit is a minus
  have hneg : ((l.text ++ r).head? == some 45) = l.neg := by
    rw [hbody]
    cases l.neg with
    | true => rfl
    | false =>
      cases hi : l.int with
      | nil => exact absurd hi hl.int_ne
      | cons d ds =>
        have hd := hl.int_digits d (by simp [hi])
        have hd45 : d ≠ 45 := by
          rintro rfl
          exact absurd hd (by decide)
        simp [hd45]
  have htail : (if l.neg then (l.text ++ r).tail else l.text ++ r) = l.int ++ u := by
    rw [hbody]
    cases l.neg <;> simp
  rw [scanNumber]
  simp only [hneg, htail, hint, Option.map_some, hscan, hexp]

/-- The literal of an integer. -/
def intLit (n : Int) : NumLit := ⟨decide (n < 0), natText n.natAbs, [], []⟩

theorem intLit_text (n : Int) : (intLit n).text = intText n := by
  by_cases h : n < 0 <;> simp [NumLit.text, intLit, intText, h]

theorem intLit_valid (n : Int) : (intLit n).Valid where
  int_ne := natText_ne_nil _
  int_digits := fun _ hc => isDigit_of_mem_natText hc
  int_zero := by
    intro h
    by_cases hz : n.natAbs = 0
    · simp only [intLit, hz]
      decide
    · exact absurd h (head_natText hz)
  frac_digits := fun c hc => absurd hc (by simp [intLit])
  exp_form := Or.inl rfl

theorem intLit_value (n : Int) : (intLit n).value = (.int n : PyVal F) := by
  have hfloat : ¬ (intLit n).IsFloat := by simp [NumLit.IsFloat, intLit]
  rw [NumLit.value, if_neg hfloat]
  by_cases h : n < 0
  · have habs : -(n.natAbs : Int) = n := by omega
    simp only [intLit, digitsValue_natText, h, decide_true, if_true, habs]
  · have habs : (n.natAbs : Int) = n := by omega
    simp only [intLit, digitsValue_natText, h, decide_false, Bool.false_eq_true, if_false, habs]

/-! ## Constants -/

theorem scanConstant_of_mem {t : Str} {v : PyVal F} (h : (t, v) ∈ constants) (r : Str) :
    scanConstant (t ++ r) = some (v, r) := by
  simp only [constants, List.mem_cons, Prod.mk.injEq, List.not_mem_nil, or_false] at h
  rcases h with ⟨rfl, rfl⟩ | ⟨rfl, rfl⟩ | ⟨rfl, rfl⟩ | ⟨rfl, rfl⟩ | ⟨rfl, rfl⟩ | ⟨rfl, rfl⟩ <;> rfl

/-- A text that starts a number starts no constant. -/
theorem scanConstant_number {l : NumLit} (hl : l.Valid) (r : Str) :
    (scanConstant (l.text ++ r) : Option (PyVal F × Str)) = none := by
  obtain ⟨d, ds, hint⟩ : ∃ d ds, l.int = d :: ds := List.exists_cons_of_ne_nil hl.int_ne
  have hd : isDigit d = true := hl.int_digits d (by simp [hint])
  have hne : ∀ c : CodePoint, isDigit c = false → d ≠ c := by
    rintro c hc rfl
    rw [hd] at hc
    cases hc
  have h110 : d ≠ 110 := hne _ (by decide)
  have h116 : d ≠ 116 := hne _ (by decide)
  have h102 : d ≠ 102 := hne _ (by decide)
  have h78 : d ≠ 78 := hne _ (by decide)
  have h73 : d ≠ 73 := hne _ (by decide)
  have h45 : d ≠ 45 := hne _ (by decide)
  have hnull : py "null" = [110, 117, 108, 108] := rfl
  have htrue : py "true" = [116, 114, 117, 101] := rfl
  have hfalse : py "false" = [102, 97, 108, 115, 101] := rfl
  have hnan : py "NaN" = [78, 97, 78] := rfl
  have hinf : py "Infinity" = 73 :: py "nfinity" := rfl
  have hneginf : py "-Infinity" = 45 :: 73 :: py "nfinity" := rfl
  cases hneg : l.neg <;>
    simp [scanConstant, constants, NumLit.text, hneg, hint, hnull, htrue, hfalse, hnan, hinf,
      hneginf, expect, h110, h116, h102, h78, h73, h45]

/-! ## Values -/

mutual
/-- What the text of a value reads back to: keys are strings and surrogate pairs
are joined. -/
def stringify : PyVal F → PyVal F
  | .str s => .str (joinSurrogates s)
  | .obj t => .str (joinSurrogates t)
  | .list xs => .list (stringifyList xs)
  | .dict kvs => .dict (stringifyDict kvs)
  | v => v
termination_by structural v => v

def stringifyList : List (PyVal F) → List (PyVal F)
  | [] => []
  | x :: xs => stringify x :: stringifyList xs
termination_by structural xs => xs

def stringifyDict : Dict F → Dict F
  | [] => []
  | (k, v) :: kvs => (.str (joinSurrogates (keyText k)), stringify v) :: stringifyDict kvs
termination_by structural kvs => kvs
end

/-- The first code point of a value's text opens no whitespace and closes no list
or dict. -/
def OpensValue (c : CodePoint) : Prop := isJsonWs c = false ∧ c ≠ 93 ∧ c ≠ 125

theorem opensValue_of_isDigit {c : CodePoint} (hc : isDigit c = true) : OpensValue c := by
  have hne : ∀ d : CodePoint, isDigit d = false → c ≠ d := by
    rintro d hd rfl
    rw [hc] at hd
    cases hd
  have h32 : c ≠ 32 := hne _ (by decide)
  have h9 : c ≠ 9 := hne _ (by decide)
  have h10 : c ≠ 10 := hne _ (by decide)
  have h13 : c ≠ 13 := hne _ (by decide)
  exact ⟨by simp [isJsonWs, h32, h9, h10, h13], hne _ (by decide), hne _ (by decide)⟩

theorem numLit_head {l : NumLit} (hl : l.Valid) :
    ∃ c cs, l.text = c :: cs ∧ OpensValue c ∧ c ≠ 34 ∧ c ≠ 123 ∧ c ≠ 91 := by
  obtain ⟨d, ds, hint⟩ : ∃ d ds, l.int = d :: ds := List.exists_cons_of_ne_nil hl.int_ne
  have hd : isDigit d = true := hl.int_digits d (by simp [hint])
  cases hneg : l.neg with
  | true =>
    refine ⟨45, _, by simp [NumLit.text, hneg]; rfl, ⟨by decide, by decide, by decide⟩, ?_⟩
    exact ⟨by decide, by decide, by decide⟩
  | false =>
    refine ⟨d, _, by simp [NumLit.text, hneg, hint]; rfl, opensValue_of_isDigit hd, ?_⟩
    refine ⟨?_, ?_, ?_⟩ <;> rintro rfl <;> exact absurd hd (by decide)

/-- A number literal is read as its value. -/
theorem parseValue_numLit {l : NumLit} (hl : l.Valid) (n : Nat) {r : Str} (hr : NumEnd r) :
    parseValue (n + 1) (l.text ++ r) = some ((l.value : PyVal F), r) := by
  obtain ⟨c, cs, htext, -, h34, h123, h91⟩ := numLit_head hl
  have hconst : (scanConstant (l.text ++ r) : Option (PyVal F × Str)) = none :=
    scanConstant_number hl r
  have hnum := scanNumber_text hl hr
  rw [htext, List.cons_append] at hconst hnum ⊢
  simp only [parseValue, if_neg h34, if_neg h123, if_neg h91, hconst, hnum, Option.map_some]

/-- A constant is read as its value. -/
theorem parseValue_constant {t : Str} {v : PyVal F} (h : (t, v) ∈ constants) (n : Nat) (r : Str) :
    parseValue (n + 1) (t ++ r) = some (v, r) := by
  have hconst := scanConstant_of_mem h r
  obtain ⟨c, cs, htext, h34, h123, h91⟩ :
      ∃ c cs, t = c :: cs ∧ c ≠ 34 ∧ c ≠ 123 ∧ c ≠ 91 := by
    simp only [constants, List.mem_cons, Prod.mk.injEq, List.not_mem_nil, or_false] at h
    rcases h with ⟨rfl, -⟩ | ⟨rfl, -⟩ | ⟨rfl, -⟩ | ⟨rfl, -⟩ | ⟨rfl, -⟩ | ⟨rfl, -⟩ <;>
      exact ⟨_, _, rfl, by decide, by decide, by decide⟩
  rw [htext, List.cons_append] at hconst ⊢
  simp only [parseValue, if_neg h34, if_neg h123, if_neg h91, hconst]

theorem parseValue_float (x : F) (n : Nat) {r : Str} (hr : NumEnd r) :
    parseValue (n + 1) (JsonFloat.text x ++ r) = some (.float x, r) := by
  have hback := JsonFloat.ofText_text x
  have hnamed : ∀ t, JsonFloat.text x = t → (t, .float (JsonFloat.ofText t)) ∈ constants (F := F) →
      parseValue (n + 1) (JsonFloat.text x ++ r) = some (.float x, r) := by
    intro t ht hmem
    have hread := parseValue_constant hmem n r
    rwa [← ht, hback] at hread
  rcases JsonFloat.text_form x with h | h | h | ⟨l, hl, hfloat, h⟩
  · exact hnamed _ h (by simp [constants])
  · exact hnamed _ h (by simp [constants])
  · exact hnamed _ h (by simp [constants])
  · have hval : (l.value : PyVal F) = .float x := by rw [NumLit.value, if_pos hfloat, h, hback]
    rw [← h, ← hval]
    exact parseValue_numLit hl n hr

theorem parseValue_str (s : Str) (n : Nat) (r : Str) :
    parseValue (n + 1) (printStr s ++ r) = some ((.str (joinSurrogates s) : PyVal F), r) := by
  have hscan := scanString_printStr s r
  simp [printStr, parseValue, hscan]

instance (c : CodePoint) : Decidable (OpensValue c) :=
  inferInstanceAs (Decidable (_ ∧ _ ∧ _))

theorem print_head (st : Style) (v : PyVal F) : ∃ c cs, print st v = c :: cs ∧ OpensValue c := by
  cases v with
  | none => exact ⟨110, py "ull", rfl, by decide⟩
  | bool b => cases b with
    | true => exact ⟨116, py "rue", rfl, by decide⟩
    | false => exact ⟨102, py "alse", rfl, by decide⟩
  | int n =>
    obtain ⟨c, cs, htext, hc, -⟩ := numLit_head (intLit_valid n)
    exact ⟨c, cs, by rw [print, ← intLit_text, htext], hc⟩
  | float x =>
    rw [print]
    rcases JsonFloat.text_form x with h | h | h | ⟨l, hl, -, h⟩
    · exact ⟨78, _, h, by decide⟩
    · exact ⟨73, _, h, by decide⟩
    · exact ⟨45, _, h, by decide⟩
    · obtain ⟨c, cs, htext, hc, -⟩ := numLit_head hl
      exact ⟨c, cs, by rw [← h, htext], hc⟩
  | str s => exact ⟨34, _, by rw [print, printStr], by decide⟩
  | list xs => cases xs <;> exact ⟨91, _, by rw [print], by decide⟩
  | dict kvs => cases kvs <;> exact ⟨123, _, by rw [print], by decide⟩
  | obj t => exact ⟨34, _, by rw [print, printStr], by decide⟩

/-- The text of a value needs no skipping, also after a separator. -/
theorem skipWs_print (st : Style) (v : PyVal F) (r : Str) :
    skipWs (print st v ++ r) = print st v ++ r ∧
      skipWs (st.gap ++ (print st v ++ r)) = print st v ++ r := by
  obtain ⟨c, cs, h, hc⟩ := print_head st v
  rw [h, List.cons_append]
  exact ⟨skipWs_of_head hc.1 _, skipWs_gap st hc.1 _⟩

theorem numEnd_of_head {c : CodePoint} (hc : isDigit c = false ∧ c ≠ 46 ∧ c ≠ 101 ∧ c ≠ 69)
    (r : Str) : NumEnd (c :: r) := by
  intro d hd
  simp only [List.head?_cons, Option.mem_def, Option.some.injEq] at hd
  rwa [← hd]

theorem numEnd_printElems (st : Style) (xs : List (PyVal F)) (r : Str) :
    NumEnd (printElems st xs ++ 93 :: r) := by
  cases xs with
  | nil => exact numEnd_of_head (by decide) r
  | cons x xs => rw [printElems]; exact numEnd_of_head (by decide) _

theorem numEnd_printMembers (st : Style) (kvs : Dict F) (r : Str) :
    NumEnd (printMembers st kvs ++ 125 :: r) := by
  cases kvs with
  | nil => exact numEnd_of_head (by decide) r
  | cons kv kvs => obtain ⟨k, v⟩ := kv; rw [printMembers]; exact numEnd_of_head (by decide) _

/-- With fuel for its text, `parseValue` reads `v` back. -/
def ReadsBack (st : Style) (v : PyVal F) : Prop :=
  ∀ n r, 2 * (print st v).length ≤ n → NumEnd r →
    parseValue n (print st v ++ r) = some (stringify v, r)

/-- The elements of a list are read back, up to the closing bracket. -/
theorem parseElems_print (st : Style) (x : PyVal F) (xs : List (PyVal F))
    (ih : ∀ y ∈ x :: xs, ReadsBack st y) (n : Nat) (r : Str)
    (hn : 2 * (print st x ++ printElems st xs).length ≤ n) :
    parseElems (n + 1) (print st x ++ (printElems st xs ++ 93 :: r)) =
      some (stringifyList (x :: xs), r) := by
  induction xs generalizing x n with
  | nil =>
    have hx := ih x (by simp) n (93 :: r) (by simpa [printElems] using hn)
      (numEnd_of_head (by decide) r)
    simp [parseElems, printElems, hx, token_self (c := 93) (by decide), stringifyList]
  | cons y ys ihs =>
    have hlen : (print st x ++ printElems st (y :: ys)).length =
        (print st x).length + (1 + st.gap.length + (print st y ++ printElems st ys).length) := by
      simp [printElems]
      omega
    have hx := ih x (by simp) n (printElems st (y :: ys) ++ 93 :: r) (by omega)
      (numEnd_printElems st _ r)
    have hys := ihs y (fun z hz => ih z (by simp at hz ⊢; tauto)) (n - 1) (by omega)
    rw [show n - 1 + 1 = n by omega] at hys
    have hskip := (skipWs_print st y (printElems st ys ++ 93 :: r)).2
    rw [parseElems, hx]
    simp only [printElems, List.cons_append, List.append_assoc, Option.bind_eq_bind,
      Option.bind_some, token_other (c := 93) (d := 44) (by decide) (by decide),
      token_self (c := 44) (by decide), hskip, hys, stringifyList]

/-- The items of a dict are read back, up to the closing brace. -/
theorem parseMembers_print (st : Style) (k : Key F) (v : PyVal F) (kvs : Dict F)
    (ih : ∀ kv ∈ (k, v) :: kvs, ReadsBack st kv.2) (n : Nat) (r : Str)
    (hn : 2 * (print st v ++ printMembers st kvs).length ≤ n) :
    parseMembers (n + 1) (printStr (keyText k) ++ 58 :: st.gap ++ (print st v ++
        (printMembers st kvs ++ 125 :: r))) =
      some (stringifyDict ((k, v) :: kvs), r) := by
  induction kvs generalizing k v n with
  | nil =>
    have hv := ih (k, v) (by simp) n (125 :: r) (by simpa [printMembers] using hn)
      (numEnd_of_head (by decide) r)
    have hkey := scanString_printStr (keyText k) (58 :: (st.gap ++ (print st v ++ 125 :: r)))
    have hskip := (skipWs_print st v (125 :: r)).2
    simp [parseMembers, printMembers, printStr, hkey, token_self (c := 58) (by decide), hskip, hv,
      token_self (c := 125) (by decide), stringifyDict]
  | cons kv kvs ihs =>
    obtain ⟨k', v'⟩ := kv
    have hlen : (print st v ++ printMembers st ((k', v') :: kvs)).length =
        (print st v).length + (1 + st.gap.length + (printStr (keyText k')).length + 1 +
          st.gap.length + (print st v' ++ printMembers st kvs).length) := by
      simp [printMembers]
      omega
    have hv := ih (k, v) (by simp) n (printMembers st ((k', v') :: kvs) ++ 125 :: r)
      (by simp only; omega) (numEnd_printMembers st _ r)
    have hkey := scanString_printStr (keyText k)
      (58 :: (st.gap ++ (print st v ++ (printMembers st ((k', v') :: kvs) ++ 125 :: r))))
    have hskip := (skipWs_print st v (printMembers st ((k', v') :: kvs) ++ 125 :: r)).2
    have hrest := ihs k' v' (fun z hz => ih z (by simp at hz ⊢; tauto)) (n - 1) (by omega)
    rw [show n - 1 + 1 = n by omega] at hrest
    have hquote : ∀ u : Str, skipWs (st.gap ++ (printStr (keyText k') ++ u)) =
        printStr (keyText k') ++ u := fun u => skipWs_gap st (by decide) _
    simp only [printStr, List.cons_append, List.append_assoc, List.nil_append] at hrest hquote
    simp only [printStr, List.cons_append, List.append_assoc, List.nil_append, parseMembers,
      if_true, hkey, Option.bind_eq_bind, Option.bind_some, token_self (c := 58) (by decide), hskip,
      hv]
    simp only [printMembers, printStr, List.cons_append, List.append_assoc, List.nil_append,
      token_other (c := 125) (d := 44) (by decide) (by decide), token_self (c := 44) (by decide),
      Option.bind_some, hquote, hrest, stringifyDict]

/-- A text is not empty, so it comes with a unit of fuel to spend. -/
theorem exists_fuel {st : Style} {v : PyVal F} {n : Nat} (hn : 2 * (print st v).length ≤ n) :
    ∃ m, n = m + 1 := by
  obtain ⟨c, cs, h, -⟩ := print_head st v
  rw [h, List.length_cons] at hn
  exact ⟨n - 1, by omega⟩

theorem readsBack (st : Style) (v : PyVal F) : ReadsBack st v := by
  induction v with
  | none =>
    intro n r hn _
    obtain ⟨m, rfl⟩ := exists_fuel hn
    rw [print, stringify]
    · exact parseValue_constant (by simp [constants]) m r
    all_goals simp
  | bool b =>
    intro n r hn _
    obtain ⟨m, rfl⟩ := exists_fuel hn
    cases b with
    | true => exact parseValue_constant (t := py "true") (v := .bool true) (by simp [constants]) m r
    | false =>
      exact parseValue_constant (t := py "false") (v := .bool false) (by simp [constants]) m r
  | int k =>
    intro n r hn hr
    obtain ⟨m, rfl⟩ := exists_fuel hn
    have hread := parseValue_numLit (F := F) (intLit_valid k) m hr
    rwa [intLit_text, intLit_value] at hread
  | float x =>
    intro n r hn hr
    obtain ⟨m, rfl⟩ := exists_fuel hn
    exact parseValue_float x m hr
  | str s =>
    intro n r hn _
    obtain ⟨m, rfl⟩ := exists_fuel hn
    exact parseValue_str s m r
  | obj t =>
    intro n r hn _
    obtain ⟨m, rfl⟩ := exists_fuel hn
    exact parseValue_str t m r
  | list xs ih =>
    intro n r hn _
    obtain ⟨m, rfl⟩ := exists_fuel hn
    cases xs with
    | nil => simp [print, parseValue, token_self (c := 93) (by decide), stringify, stringifyList]
    | cons x xs =>
      -- the fuel is counted by characters, so what is left is enough for the body
      simp only [print, List.length_cons, List.length_append, List.length_nil] at hn
      obtain ⟨k, rfl⟩ : ∃ k, m = k + 1 := ⟨m - 1, by omega⟩
      have helems := parseElems_print st x xs ih k r (by simp only [List.length_append]; omega)
      have hskip := (skipWs_print st x (printElems st xs ++ 93 :: r)).1
      -- an element never begins with the closing bracket
      obtain ⟨c, cs, hc, hopen⟩ := print_head st x
      have hclose : token 93 (print st x ++ (printElems st xs ++ 93 :: r)) = none := by
        rw [hc]
        exact token_other hopen.1 hopen.2.1 _
      simp [print, parseValue, hclose, hskip, helems, stringify]
  | dict kvs ih =>
    intro n r hn _
    obtain ⟨m, rfl⟩ := exists_fuel hn
    cases kvs with
    | nil => simp [print, parseValue, token_self (c := 125) (by decide), stringify, stringifyDict]
    | cons kv kvs =>
      obtain ⟨key, v⟩ := kv
      simp only [print, List.length_cons, List.length_append, List.length_nil] at hn
      obtain ⟨k, rfl⟩ : ∃ k, m = k + 1 := ⟨m - 1, by omega⟩
      have hmembers := parseMembers_print st key v kvs ih k r
        (by simp only [List.length_append]; omega)
      have hskip : ∀ u, skipWs (printStr (keyText key) ++ u) = printStr (keyText key) ++ u :=
        fun u => skipWs_of_head (by decide) _
      have hclose : ∀ u, token 125 (printStr (keyText key) ++ u) = none :=
        fun u => token_other (by decide) (by decide) _
      simp only [List.append_assoc, List.cons_append] at hmembers
      simp [print, parseValue, hclose, hskip, hmembers, stringify]

/-- The text of a value, after any whitespace, parses to the value with string
keys and joined pairs. -/
theorem parse_ws_print (st : Style) (v : PyVal F) {ws : Str}
    (hws : ∀ c ∈ ws, isJsonWs c = true) : parse (ws ++ print st v) = some (stringify v) := by
  have hread := readsBack st v (2 * (ws ++ print st v).length) []
    (by simp only [List.length_append]; omega) (by simp [NumEnd])
  have hskip := (skipWs_print st v []).1
  rw [List.append_nil] at hread hskip
  have hdrop : skipWs (ws ++ print st v) = print st v := by
    rw [skipWs, List.dropWhile_append_of_pos hws]
    exact hskip
  rw [parse, hdrop, hread]
  simp [skipWs]

theorem parse_print (st : Style) (v : PyVal F) : parse (print st v) = some (stringify v) :=
  parse_ws_print st v fun _ hc => absurd hc List.not_mem_nil

/-- Values that read back unchanged have different texts. -/
theorem print_injective {st : Style} {v w : PyVal F} (h : print st v = print st w) :
    stringify v = stringify w := by
  have hv := parse_print st v
  rw [h, parse_print] at hv
  exact (Option.some.inj hv).symm

/-! ## The text is one line of printable ASCII -/

def Printable (s : Str) : Prop := ∀ c ∈ s, 32 ≤ c.val ∧ c.val < 127

instance (s : Str) : Decidable (Printable s) :=
  decidable_of_iff (s.all (fun c => decide (32 ≤ c.val ∧ c.val < 127)) = true)
    (by simp [Printable, List.all_eq_true])

theorem printable_nil : Printable [] := fun _ hc => absurd hc List.not_mem_nil

theorem printable_append {s t : Str} : Printable (s ++ t) ↔ Printable s ∧ Printable t :=
  List.forall_mem_append

theorem printable_cons {c : CodePoint} {s : Str} :
    Printable (c :: s) ↔ (32 ≤ c.val ∧ c.val < 127) ∧ Printable s := List.forall_mem_cons

theorem printable_digits {s : Str} (hs : ∀ c ∈ s, isDigit c = true) : Printable s := by
  intro c hc
  have := hs c hc
  simp only [isDigit, Bool.and_eq_true, decide_eq_true_eq] at this
  omega

theorem printable_escapeUnit (u : Nat) (hu : u < 0x10000) : Printable (escapeUnit u) := by
  have hdigit : ∀ m : Fin 16, 32 ≤ (hexDigit m.val).val ∧ (hexDigit m.val).val < 127 := by decide
  have h : ∀ n, n < 16 → 32 ≤ (hexDigit n).val ∧ (hexDigit n).val < 127 := fun n hn =>
    hdigit ⟨n, hn⟩
  intro c hc
  simp only [escapeUnit, List.mem_cons, List.not_mem_nil, or_false] at hc
  rcases hc with rfl | rfl | rfl | rfl | rfl | rfl
  · decide
  · decide
  · exact h _ (by omega)
  · exact h _ (by omega)
  · exact h _ (by omega)
  · exact h _ (by omega)

theorem printable_escapeChar (c : CodePoint) : Printable (escapeChar c) := by
  have h := escaped_escapeChar c
  generalize escapeChar c = t at h ⊢
  cases h with
  | simple _ _ hprint _ =>
    rw [printable_cons, printable_cons]
    exact ⟨by decide, hprint, printable_nil⟩
  | plain _ _ hprint =>
    intro d hd
    rw [List.mem_singleton.mp hd]
    exact hprint
  | unit hsmall => exact printable_escapeUnit _ hsmall
  | pair _ =>
    have hc := c.isLt
    rw [printable_append]
    exact ⟨printable_escapeUnit _ (by omega), printable_escapeUnit _ (by omega)⟩

theorem printable_printStr (s : Str) : Printable (printStr s) := by
  rw [printStr, printable_cons, printable_append]
  refine ⟨by decide, fun c hc => ?_, by decide⟩
  obtain ⟨d, -, hd⟩ := List.mem_flatMap.mp hc
  exact printable_escapeChar d c hd

theorem printable_numLit {l : NumLit} (hl : l.Valid) : Printable l.text := by
  have hexp : Printable l.exp := by
    rcases hl.exp_form with h | ⟨e, sign, digits, h, he, hsign, -, hdigits⟩
    · rw [h]
      exact printable_nil
    · rw [h, printable_cons, printable_append]
      refine ⟨?_, ?_, printable_digits hdigits⟩
      · rcases he with rfl | rfl <;> decide
      · rcases hsign with rfl | rfl | rfl <;> decide
  rw [NumLit.text, printable_append, printable_append, printable_append]
  refine ⟨⟨⟨?_, printable_digits hl.int_digits⟩, ?_⟩, hexp⟩
  · split <;> decide
  · split
    · decide
    · exact printable_cons.mpr ⟨by decide, printable_digits hl.frac_digits⟩

theorem printable_float (x : F) : Printable (JsonFloat.text x) := by
  rcases JsonFloat.text_form x with h | h | h | ⟨l, hl, -, h⟩
  · rw [h]; decide
  · rw [h]; decide
  · rw [h]; decide
  · rw [← h]; exact printable_numLit hl

theorem printable_gap (st : Style) : Printable st.gap := by
  cases st <;> decide

theorem printable_printElems (st : Style) {xs : List (PyVal F)}
    (h : ∀ x ∈ xs, Printable (print st x)) : Printable (printElems st xs) := by
  induction xs with
  | nil => exact printable_nil
  | cons x xs ih =>
    rw [printElems, printable_cons, printable_append, printable_append]
    exact ⟨by decide, ⟨printable_gap st, h x (by simp)⟩, ih fun y hy => h y (by simp [hy])⟩

theorem printable_printMembers (st : Style) {kvs : Dict F}
    (h : ∀ kv ∈ kvs, Printable (print st kv.2)) : Printable (printMembers st kvs) := by
  induction kvs with
  | nil => exact printable_nil
  | cons kv kvs ih =>
    obtain ⟨k, v⟩ := kv
    simp only [printMembers, printable_cons, printable_append]
    exact ⟨by decide, ⟨⟨⟨printable_gap st, printable_printStr _⟩, by decide, printable_gap st⟩,
      h (k, v) (by simp)⟩, ih fun y hy => h y (by simp [hy])⟩

/-- The text of a value is printable ASCII: it has no line break in it. -/
theorem printable_print (st : Style) (v : PyVal F) : Printable (print st v) := by
  induction v with
  | none => exact (by decide : Printable (py "null"))
  | bool b =>
    cases b with
    | true => exact (by decide : Printable (py "true"))
    | false => exact (by decide : Printable (py "false"))
  | int n => rw [print, ← intLit_text]; exact printable_numLit (intLit_valid n)
  | float x => rw [print]; exact printable_float x
  | str s => rw [print]; exact printable_printStr s
  | obj t => rw [print]; exact printable_printStr t
  | list xs ih =>
    cases xs with
    | nil => exact (by decide : Printable [91, 93])
    | cons x xs =>
      have helems := printable_printElems st fun y hy => ih y (List.mem_cons_of_mem x hy)
      rw [print, printable_cons, printable_append, printable_append]
      exact ⟨by decide, ⟨ih x (by simp), helems⟩, by decide⟩
  | dict kvs ih =>
    cases kvs with
    | nil => exact (by decide : Printable [123, 125])
    | cons kv kvs =>
      obtain ⟨k, v⟩ := kv
      have hmembers := printable_printMembers st fun y hy => ih y (List.mem_cons_of_mem (k, v) hy)
      simp only [print, printable_cons, printable_append]
      exact ⟨by decide, ⟨⟨⟨printable_printStr _, by decide, printable_gap st⟩, ih (k, v) (by simp)⟩,
        hmembers⟩, by decide, printable_nil⟩

end AutoHeal
