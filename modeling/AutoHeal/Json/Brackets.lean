import AutoHeal.Json.Normal
import Mathlib.Data.List.TakeWhile

/-!
# Text that runs into a JSON object

A dict printed right after some other text is only read back when that text is
whitespace (`isJsonWs_of_parse_append`). The argument is a scanner with the
nesting depth outside of strings: what the parser consumes takes it from any depth
back to the same depth, and so does a printed dict. So text before the dict that
opens a brace leaves it open; and if it opens a string, the dict's own strings are
read inside out, which no parser accepts once a `q` outside of strings comes up.
-/

namespace AutoHeal

variable {F : Type} [JsonFloat F]

/-! ## The scanner -/

/-- Outside of strings, inside one, or after a backslash inside one, at a nesting
depth; or past a text no JSON text begins with. -/
inductive Mode where
  | out (k : Nat)
  | str (k : Nat)
  | esc (k : Nat)
  | bad

def Mode.step : Mode → CodePoint → Mode
  | .out k, c =>
    if c = 34 then .str k
    else if c = 123 ∨ c = 91 then .out (k + 1)
    else if c = 125 ∨ c = 93 then (match k with | 0 => .bad | k + 1 => .out k)
    else if c = 92 ∨ c = 113 then .bad  -- no token has a backslash or a `q` in it
    else .out k
  | .str k, c => if c = 34 then .out k else if c = 92 then .esc k else .str k
  | .esc k, c => if c = 123 then .bad else .str k
  | .bad, _ => .bad

def Mode.scan (m : Mode) (s : Str) : Mode := s.foldl Mode.step m

@[simp] theorem Mode.scan_nil (m : Mode) : m.scan [] = m := rfl

@[simp] theorem Mode.scan_cons (m : Mode) (c : CodePoint) (s : Str) :
    m.scan (c :: s) = (m.step c).scan s := rfl

@[simp] theorem Mode.scan_append (m : Mode) (s t : Str) : m.scan (s ++ t) = (m.scan s).scan t :=
  List.foldl_append

@[simp] theorem Mode.scan_bad (s : Str) : Mode.bad.scan s = .bad := by
  induction s with
  | nil => rfl
  | cons c s ih => exact ih

/-- One level further in. -/
def Mode.lift : Mode → Mode
  | .out k => .out (k + 1)
  | .str k => .str (k + 1)
  | .esc k => .esc (k + 1)
  | .bad => .bad

theorem Mode.step_lift {m : Mode} {c : CodePoint} (h : m.step c ≠ .bad) :
    m.lift.step c = (m.step c).lift := by
  cases m with
  | bad => rfl
  | str k =>
    simp only [Mode.step, Mode.lift]
    split_ifs <;> rfl
  | esc k =>
    simp only [Mode.step, Mode.lift]
    split_ifs <;> rfl
  | out k =>
    simp only [Mode.step, Mode.lift] at h ⊢
    split_ifs at h ⊢
    · rfl
    · rfl
    · cases k with
      | zero => exact absurd rfl h
      | succ k => rfl
    · exact absurd rfl h
    · rfl

/-- A text that scans at one depth scans alike further in. -/
theorem Mode.scan_lift {m : Mode} {s : Str} (h : m.scan s ≠ .bad) :
    m.lift.scan s = (m.scan s).lift := by
  induction s generalizing m with
  | nil => rfl
  | cons c s ih =>
    have hstep : m.step c ≠ .bad := by
      intro hbad
      rw [scan_cons, hbad, scan_bad] at h
      exact h rfl
    rw [scan_cons, scan_cons, step_lift hstep, ih h]

/-! ## What the parser consumes -/

/-- The text takes the scanner from any depth back to the same depth. -/
def Balanced (s : Str) : Prop := ∀ k, (Mode.out k).scan s = .out k

/-- A code point the scanner passes over outside of strings. -/
def isFlat (c : CodePoint) : Bool :=
  c != 34 && c != 123 && c != 91 && c != 125 && c != 93 && c != 92 && c != 113

theorem step_flat {c : CodePoint} (h : isFlat c = true) (k : Nat) :
    (Mode.out k).step c = .out k := by
  simp only [isFlat, Bool.and_eq_true, bne_iff_ne] at h
  unfold Mode.step
  simp [h]

theorem balanced_nil : Balanced [] := fun _ => rfl

theorem Balanced.append {s t : Str} (hs : Balanced s) (ht : Balanced t) : Balanced (s ++ t) :=
  fun k => by rw [Mode.scan_append, hs k, ht k]

theorem balanced_of_flat {s : Str} (h : ∀ c ∈ s, isFlat c = true) : Balanced s := by
  intro k
  induction s with
  | nil => rfl
  | cons c s ih =>
    rw [Mode.scan_cons, step_flat (h c (by simp)) k, ih fun d hd => h d (by simp [hd])]

theorem Balanced.cons {c : CodePoint} (hc : isFlat c = true) {s : Str} (hs : Balanced s) :
    Balanced (c :: s) := fun k => by rw [Mode.scan_cons, step_flat hc, hs k]

theorem Balanced.braces {s : Str} (h : Balanced s) : Balanced (123 :: (s ++ [125])) := by
  intro k
  rw [Mode.scan_cons, Mode.scan_append, show (Mode.out k).step 123 = .out (k + 1) from rfl, h (k + 1)]
  rfl

theorem Balanced.brackets {s : Str} (h : Balanced s) : Balanced (91 :: (s ++ [93])) := by
  intro k
  rw [Mode.scan_cons, Mode.scan_append, show (Mode.out k).step 91 = .out (k + 1) from rfl, h (k + 1)]
  rfl

theorem isFlat_of_isJsonWs {c : CodePoint} (h : isJsonWs c = true) : isFlat c = true := by
  simp only [isJsonWs, Bool.or_eq_true, beq_iff_eq] at h
  rcases h with ((rfl | rfl) | rfl) | rfl <;> decide

theorem skipWs_consumes (s : Str) : ∃ w, s = w ++ skipWs s ∧ Balanced w := by
  refine ⟨s.takeWhile isJsonWs, List.takeWhile_append_dropWhile.symm, balanced_of_flat ?_⟩
  intro c hc
  exact isFlat_of_isJsonWs (List.mem_takeWhile_imp hc)

theorem token_consumes {c : CodePoint} {s r : Str} (h : token c s = some r) :
    ∃ w, s = w ++ c :: r ∧ Balanced w := by
  rcases skipWs_consumes s with ⟨w, hw, hbal⟩
  unfold token at h
  split at h
  · cases h
  · next d ds hd =>
    split_ifs at h with hdc
    cases h
    exact ⟨w, by rw [← hdc, ← hd]; exact hw, hbal⟩

theorem expect_consumes {t s r : Str} (h : expect t s = some r) : s = t ++ r := by
  induction t generalizing s with
  | nil => cases h; rfl
  | cons c t ih =>
    cases s with
    | nil => cases h
    | cons d s =>
      unfold expect at h
      split_ifs at h with hdc
      rw [hdc, ih h, List.cons_append]

theorem str_step {c : CodePoint} (h34 : c ≠ 34) (h92 : c ≠ 92) (k : Nat) :
    (Mode.str k).step c = .str k := by
  simp only [Mode.step]
  rw [if_neg h34, if_neg h92]

theorem hexValue_plain {c : CodePoint} {n : Nat} (h : hexValue c = some n) : c ≠ 34 ∧ c ≠ 92 := by
  constructor
  · rintro rfl
    cases h
  · rintro rfl
    cases h

theorem hexUnit_digits {a b c d u : CodePoint} (h : hexUnit a b c d = some u) :
    (∃ n, hexValue a = some n) ∧ (∃ n, hexValue b = some n) ∧ (∃ n, hexValue c = some n) ∧
      ∃ n, hexValue d = some n := by
  unfold hexUnit at h
  simp only [Option.bind_eq_bind, Option.bind_eq_some_iff] at h
  rcases h with ⟨na, ha, nb, hb, nc, hc, nd, hd, -⟩
  exact ⟨⟨na, ha⟩, ⟨nb, hb⟩, ⟨nc, hc⟩, nd, hd⟩

/-- The body of a string keeps the scanner inside the string. -/
theorem scanUnits_consumes {s : Str} {p : Str × Str} (h : scanUnits s = some p) :
    ∃ b, s = b ++ 34 :: p.2 ∧ ∀ k, (Mode.str k).scan b = .str k := by
  fun_induction scanUnits s generalizing p with
  | case1 => cases h
  | case2 ds => cases h; exact ⟨[], rfl, fun _ => rfl⟩
  | case3 => cases h
  | case4 a b c d ds _ ih =>
    -- a `\u` escape
    rcases Option.bind_eq_some_iff.mp h with ⟨u, hu, h⟩
    rcases Option.map_eq_some_iff.mp h with ⟨q, hq, rfl⟩
    rcases ih hq with ⟨body, hbody, hscan⟩
    rcases hexUnit_digits hu with ⟨⟨_, ha⟩, ⟨_, hb⟩, ⟨_, hc⟩, _, hd⟩
    refine ⟨92 :: 117 :: a :: b :: c :: d :: body, by rw [hbody]; rfl, fun k => ?_⟩
    simp only [Mode.scan_cons]
    rw [show ((Mode.str k).step 92).step 117 = .str k from rfl,
      str_step (hexValue_plain ha).1 (hexValue_plain ha).2,
      str_step (hexValue_plain hb).1 (hexValue_plain hb).2,
      str_step (hexValue_plain hc).1 (hexValue_plain hc).2,
      str_step (hexValue_plain hd).1 (hexValue_plain hd).2, hscan]
  | case5 => cases h
  | case6 e es _ _ ih =>
    -- a one-letter escape, which is no brace
    rcases Option.bind_eq_some_iff.mp h with ⟨u, hu, h⟩
    rcases Option.map_eq_some_iff.mp h with ⟨q, hq, rfl⟩
    rcases ih hq with ⟨body, hbody, hscan⟩
    have hbrace : e ≠ 123 := by
      rintro rfl
      cases hu
    refine ⟨92 :: e :: body, by rw [hbody]; rfl, fun k => ?_⟩
    have hesc : ((Mode.str k).step 92).step e = .str k := by
      show (Mode.esc k).step e = .str k
      simp only [Mode.step]
      rw [if_neg hbrace]
    rw [Mode.scan_cons, Mode.scan_cons, hesc, hscan]
  | case7 => cases h
  | case8 d ds h34 h92 _ ih =>
    rcases Option.map_eq_some_iff.mp h with ⟨q, hq, rfl⟩
    rcases ih hq with ⟨body, hbody, hscan⟩
    exact ⟨d :: body, by rw [hbody]; rfl, fun k => by rw [Mode.scan_cons, str_step h34 h92, hscan]⟩

theorem scanString_consumes {s : Str} {p : Str × Str} (h : scanString s = some p) :
    ∃ b, 34 :: s = b ++ p.2 ∧ Balanced b := by
  rcases Option.map_eq_some_iff.mp h with ⟨q, hq, rfl⟩
  rcases scanUnits_consumes hq with ⟨b, hb, hscan⟩
  refine ⟨34 :: (b ++ [34]), by rw [hb]; simp, fun k => ?_⟩
  rw [Mode.scan_cons, Mode.scan_append, show (Mode.out k).step 34 = .str k from rfl, hscan k]
  rfl

/-! ## Numbers and constants are flat -/

theorem isFlat_of_isDigit {c : CodePoint} (h : isDigit c = true) : isFlat c = true := by
  have hne : ∀ d : CodePoint, isDigit d = false → c ≠ d := by
    rintro d hd rfl
    rw [h] at hd
    cases hd
  simp only [isFlat, Bool.and_eq_true, bne_iff_ne]
  exact ⟨⟨⟨⟨⟨⟨hne 34 rfl, hne 123 rfl⟩, hne 91 rfl⟩, hne 125 rfl⟩, hne 93 rfl⟩, hne 92 rfl⟩,
    hne 113 rfl⟩

theorem balanced_digits (s : Str) : Balanced (s.takeWhile isDigit) :=
  balanced_of_flat fun _ hc => isFlat_of_isDigit (List.mem_takeWhile_imp hc)

theorem scanInt_consumes {s : Str} {p : Str × Str} (h : scanInt s = some p) :
    ∃ u, s = u ++ p.2 ∧ Balanced u := by
  unfold scanInt at h
  split at h
  · cases h
  · split_ifs at h with h48 hdigit
    · cases h
      exact ⟨[48], by rw [h48]; rfl, balanced_of_flat (List.all_eq_true.mp rfl)⟩
    · cases h
      exact ⟨_, List.takeWhile_append_dropWhile.symm, balanced_digits _⟩

theorem scanFrac_consumes (s : Str) : ∃ u, s = u ++ (scanFrac s).2 ∧ Balanced u := by
  unfold scanFrac
  split
  · exact ⟨[], rfl, balanced_nil⟩
  · next c cs =>
    split_ifs with h
    · refine ⟨c :: cs.takeWhile isDigit, ?_, (balanced_digits cs).cons (by rw [h.1]; decide)⟩
      rw [List.cons_append, List.takeWhile_append_dropWhile]
    · exact ⟨[], rfl, balanced_nil⟩

theorem scanSign_consumes (s : Str) : s = (scanSign s).1 ++ (scanSign s).2 ∧
    Balanced (scanSign s).1 := by
  unfold scanSign
  split
  · exact ⟨rfl, balanced_nil⟩
  · split_ifs with h
    · refine ⟨rfl, balanced_nil.cons ?_⟩
      rcases h with rfl | rfl <;> decide
    · exact ⟨rfl, balanced_nil⟩

theorem scanExp_consumes (s : Str) : ∃ u, s = u ++ (scanExp s).2 ∧ Balanced u := by
  unfold scanExp
  split
  · exact ⟨[], rfl, balanced_nil⟩
  · next c cs =>
    split_ifs with h
    · rcases scanSign_consumes cs with ⟨hsign, hbal⟩
      refine ⟨c :: ((scanSign cs).1 ++ (scanSign cs).2.takeWhile isDigit), ?_,
        (hbal.append (balanced_digits _)).cons ?_⟩
      · rw [List.cons_append, List.append_assoc, List.takeWhile_append_dropWhile, ← hsign]
      · rcases h.1 with rfl | rfl <;> decide
    · exact ⟨[], rfl, balanced_nil⟩

theorem scanNumber_consumes {s : Str} {p : NumLit × Str} (h : scanNumber s = some p) :
    ∃ u, s = u ++ p.2 ∧ Balanced u := by
  unfold scanNumber at h
  rcases Option.map_eq_some_iff.mp h with ⟨q, hq, rfl⟩
  rcases scanInt_consumes hq with ⟨u, hu, hbal⟩
  rcases scanFrac_consumes q.2 with ⟨v, hv, hbal'⟩
  rcases scanExp_consumes (scanFrac q.2).2 with ⟨w, hw, hbal''⟩
  have hrest : ∃ x, (if (s.head? == some 45) = true then s.tail else s) =
      x ++ (scanExp (scanFrac q.2).2).2 ∧ Balanced x := by
    refine ⟨u ++ (v ++ w), ?_, hbal.append (hbal'.append hbal'')⟩
    rw [hu, List.append_assoc, List.append_assoc, ← hw, ← hv]
  rcases hrest with ⟨x, hx, hxbal⟩
  cases s with
  | nil => exact ⟨x, by simpa using hx, hxbal⟩
  | cons c cs =>
    by_cases hc : c = 45
    · subst hc
      refine ⟨45 :: x, ?_, hxbal.cons (by decide)⟩
      rw [List.cons_append, ← hx]
      rfl
    · refine ⟨x, ?_, hxbal⟩
      rw [← hx]
      simp [hc]

theorem scanConstant_consumes {s : Str} {p : PyVal F × Str} (h : scanConstant s = some p) :
    (∃ u, s = u ++ p.2 ∧ Balanced u) ∧ ∀ d, p.1 ≠ .dict d := by
  rcases List.exists_of_findSome?_eq_some h with ⟨kv, hmem, hkv⟩
  rcases Option.map_eq_some_iff.mp hkv with ⟨r, hr, rfl⟩
  refine ⟨⟨kv.1, expect_consumes hr, balanced_of_flat ?_⟩, ?_⟩
  · simp only [constants, List.mem_cons, List.not_mem_nil, or_false] at hmem
    rcases hmem with rfl | rfl | rfl | rfl | rfl | rfl <;> exact List.all_eq_true.mp rfl
  · simp only [constants, List.mem_cons, List.not_mem_nil, or_false] at hmem
    rcases hmem with rfl | rfl | rfl | rfl | rfl | rfl <;> rintro d ⟨⟩

theorem value_ne_dict (l : NumLit) (d : Dict F) : (l.value : PyVal F) ≠ .dict d := by
  unfold NumLit.value
  split_ifs <;> rintro ⟨⟩

/-! ## Values -/

/-- The three parsers consume balanced text, up to their closing bracket; a dict is
read from braces around balanced text. -/
theorem parse_consumes (n : Nat) :
    (∀ s (v : PyVal F) r, parseValue n s = some (v, r) → ∃ u, s = u ++ r ∧ Balanced u ∧
      ∀ d, v = .dict d → ∃ w, u = 123 :: (w ++ [125]) ∧ Balanced w) ∧
    (∀ s (vs : List (PyVal F)) r, parseElems n s = some (vs, r) →
      ∃ w, s = w ++ 93 :: r ∧ Balanced w) ∧
    (∀ s (kvs : Dict F) r, parseMembers n s = some (kvs, r) →
      ∃ w, s = w ++ 125 :: r ∧ Balanced w) := by
  induction n with
  | zero => exact ⟨by simp [parseValue], by simp [parseElems], by simp [parseMembers]⟩
  | succ n ih =>
    rcases ih with ⟨ihv, ihe, ihm⟩
    refine ⟨?_, ?_, ?_⟩
    · intro s v r h
      cases s with
      | nil => simp [parseValue] at h
      | cons c cs =>
        rw [parseValue] at h
        split_ifs at h with h34 h123 h91
        · rcases Option.map_eq_some_iff.mp h with ⟨p, hp, hv⟩
          cases hv
          rcases scanString_consumes hp with ⟨u, hu, hbal⟩
          exact ⟨u, by rw [h34, hu], hbal, by rintro d ⟨⟩⟩
        · -- an object: empty, or with members
          have hwhole : ∃ w, cs = w ++ 125 :: r ∧ Balanced w := by
            split at h
            · next hr =>
              cases h
              exact token_consumes hr
            · rcases Option.map_eq_some_iff.mp h with ⟨p, hp, hv⟩
              cases hv
              rcases skipWs_consumes cs with ⟨w, hw, hbal⟩
              rcases ihm _ _ _ hp with ⟨w', hw', hbal'⟩
              exact ⟨w ++ w', by rw [List.append_assoc, ← hw', ← hw], hbal.append hbal'⟩
          rcases hwhole with ⟨w, hw, hbal⟩
          exact ⟨123 :: (w ++ [125]), by rw [h123, hw]; simp, hbal.braces, fun d _ =>
            ⟨w, rfl, hbal⟩⟩
        · have hwhole : (∃ w, cs = w ++ 93 :: r ∧ Balanced w) ∧ ∀ d, v ≠ .dict d := by
            split at h
            · next hr =>
              cases h
              exact ⟨token_consumes hr, by rintro d ⟨⟩⟩
            · rcases Option.map_eq_some_iff.mp h with ⟨p, hp, hv⟩
              cases hv
              rcases skipWs_consumes cs with ⟨w, hw, hbal⟩
              rcases ihe _ _ _ hp with ⟨w', hw', hbal'⟩
              exact ⟨⟨w ++ w', by rw [List.append_assoc, ← hw', ← hw], hbal.append hbal'⟩,
                by rintro d ⟨⟩⟩
          rcases hwhole with ⟨⟨w, hw, hbal⟩, hne⟩
          exact ⟨91 :: (w ++ [93]), by rw [h91, hw]; simp, hbal.brackets, fun d hd =>
            absurd hd (hne d)⟩
        · split at h
          · next hp =>
            cases h
            rcases scanConstant_consumes hp with ⟨⟨u, hu, hbal⟩, hne⟩
            exact ⟨u, hu, hbal, fun d hd => absurd hd (hne d)⟩
          · rcases Option.map_eq_some_iff.mp h with ⟨p, hp, hv⟩
            cases hv
            rcases scanNumber_consumes hp with ⟨u, hu, hbal⟩
            exact ⟨u, hu, hbal, fun d hd => absurd hd (value_ne_dict p.1 d)⟩
    · intro s vs r h
      rw [parseElems] at h
      simp only [Option.bind_eq_bind, Option.bind_eq_some_iff] at h
      rcases h with ⟨⟨v, r₁⟩, hv, h⟩
      rcases ihv _ _ _ hv with ⟨u, hu, hbal, -⟩
      split at h
      · next hr =>
        cases h
        rcases token_consumes hr with ⟨w, hw, hbal'⟩
        simp only at hw
        exact ⟨u ++ w, by rw [hu, hw, List.append_assoc], hbal.append hbal'⟩
      · simp only [Option.bind_eq_some_iff] at h
        rcases h with ⟨r₂, hr₂, ⟨ws, r₃⟩, hws, h⟩
        cases h
        rcases token_consumes hr₂ with ⟨w, hw, hbalw⟩
        rcases skipWs_consumes r₂ with ⟨x, hx, hbalx⟩
        rcases ihe _ _ _ hws with ⟨y, hy, hbaly⟩
        refine ⟨u ++ (w ++ 44 :: (x ++ y)), ?_,
          hbal.append (hbalw.append ((hbalx.append hbaly).cons (by decide)))⟩
        rw [hu, hw, hx, hy]
        simp
    · intro s kvs r h
      cases s with
      | nil => simp [parseMembers] at h
      | cons c cs =>
        rw [parseMembers] at h
        split_ifs at h with h34
        simp only [Option.bind_eq_bind, Option.bind_eq_some_iff] at h
        rcases h with ⟨⟨k, r₁⟩, hk, r₂, hr₂, ⟨v, r₃⟩, hv, h⟩
        rcases scanString_consumes hk with ⟨a, ha, hbala⟩
        rcases token_consumes hr₂ with ⟨b, hb, hbalb⟩
        rcases skipWs_consumes r₂ with ⟨x, hx, hbalx⟩
        rcases ihv _ _ _ hv with ⟨u, hu, hbalu, -⟩
        have hitem : c :: cs = (a ++ (b ++ 58 :: (x ++ u))) ++ r₃ := by
          simp only at ha hb
          rw [h34, ha, hb, hx, hu]
          simp
        have hbal : Balanced (a ++ (b ++ 58 :: (x ++ u))) :=
          hbala.append (hbalb.append ((hbalx.append hbalu).cons (by decide)))
        split at h
        · next hr =>
          cases h
          rcases token_consumes hr with ⟨w, hw, hbalw⟩
          simp only at hw
          exact ⟨_, by rw [hitem, hw, ← List.append_assoc], hbal.append hbalw⟩
        · simp only [Option.bind_eq_some_iff] at h
          rcases h with ⟨r₄, hr₄, ⟨ws, r₅⟩, hws, h⟩
          cases h
          rcases token_consumes hr₄ with ⟨w, hw, hbalw⟩
          rcases skipWs_consumes r₄ with ⟨y, hy, hbaly⟩
          rcases ihm _ _ _ hws with ⟨z, hz, hbalz⟩
          refine ⟨(a ++ (b ++ 58 :: (x ++ u))) ++ (w ++ 44 :: (y ++ z)), ?_,
            hbal.append (hbalw.append ((hbaly.append hbalz).cons (by decide)))⟩
          rw [hitem, hw, hy, hz]
          simp

/-! ## A printed value, read from inside a string -/

/-- Inside a string, or past bad text. -/
def Mode.Inside (m : Mode) : Prop := m = .bad ∨ ∃ j, m = .str j

theorem Mode.inside_step {m : Mode} (hm : m.Inside) {c : CodePoint} (h34 : c ≠ 34) (h92 : c ≠ 92) :
    (m.step c).Inside := by
  rcases hm with rfl | ⟨j, rfl⟩
  · exact Or.inl rfl
  · exact Or.inr ⟨j, str_step h34 h92 j⟩

theorem Mode.inside_scan {m : Mode} (hm : m.Inside) {s : Str}
    (hs : ∀ c ∈ s, c ≠ 34 ∧ c ≠ 92) : (m.scan s).Inside := by
  induction s generalizing m with
  | nil => exact hm
  | cons c s ih =>
    rw [scan_cons]
    exact ih (inside_step hm (hs c (by simp)).1 (hs c (by simp)).2) fun d hd => hs d (by simp [hd])

/-- Outside of strings, or past bad text. -/
def Mode.Outside (m : Mode) : Prop := m = .bad ∨ ∃ j, m = .out j

theorem Mode.outside_step {m : Mode} (hm : m.Outside) {c : CodePoint} (h34 : c ≠ 34) :
    (m.step c).Outside := by
  rcases hm with rfl | ⟨j, rfl⟩
  · exact Or.inl rfl
  · simp only [Mode.step, if_neg h34]
    split_ifs
    · exact Or.inr ⟨_, rfl⟩
    · cases j with
      | zero => exact Or.inl rfl
      | succ j => exact Or.inr ⟨_, rfl⟩
    · exact Or.inl rfl
    · exact Or.inr ⟨_, rfl⟩

/-- The escape of a code point: itself, or a backslash and more. -/
theorem escapeChar_form (c : CodePoint) :
    (escapeChar c = [c] ∧ c ≠ 34) ∨ ∃ cs, escapeChar c = 92 :: cs := by
  have h := escaped_escapeChar c
  generalize escapeChar c = t at h ⊢
  cases h with
  | simple _ _ _ _ => exact Or.inr ⟨_, rfl⟩
  | plain h34 _ _ => exact Or.inl ⟨rfl, h34⟩
  | unit _ => exact Or.inr ⟨_, rfl⟩
  | pair _ => exact Or.inr ⟨_, rfl⟩

theorem Mode.outside_flatMap {m : Mode} (hm : m.Outside) (s : Str) :
    (m.scan (s.flatMap escapeChar)).Outside := by
  induction s generalizing m with
  | nil => exact hm
  | cons c s ih =>
    rw [List.flatMap_cons, scan_append]
    apply ih
    rcases escapeChar_form c with ⟨hc, h34⟩ | ⟨cs, hc⟩
    · rw [hc]
      exact outside_step hm h34
    · -- a backslash outside of strings
      rw [hc, scan_cons]
      have hbad : m.step 92 = .bad := by
        rcases hm with rfl | ⟨j, rfl⟩ <;> rfl
      rw [hbad, scan_bad]
      exact Or.inl rfl

/-- A string literal read from inside a string: its content is read outside. -/
theorem Mode.inside_printStr {m : Mode} (hm : m.Inside) (s : Str) :
    (m.scan (printStr s)).Inside := by
  unfold printStr
  rw [scan_cons, scan_append]
  have hopen : (m.step 34).Outside := by
    rcases hm with rfl | ⟨j, rfl⟩
    · exact Or.inl rfl
    · exact Or.inr ⟨j, rfl⟩
  rcases outside_flatMap hopen s with h | ⟨j, h⟩
  · rw [h]
    exact Or.inl rfl
  · rw [h]
    exact Or.inr ⟨j, rfl⟩

theorem printStr_sequence_bad {m : Mode} (hm : m.Inside) :
    m.scan (printStr (py "sequence")) = .bad := by
  rcases hm with rfl | ⟨j, rfl⟩
  · exact Mode.scan_bad _
  · rfl

theorem gap_plain (st : Style) : ∀ c ∈ st.gap, c ≠ 34 ∧ c ≠ 92 := by
  cases st with
  | spaced =>
    intro c hc
    rw [List.mem_singleton.mp hc]
    decide
  | compact => exact fun c hc => absurd hc List.not_mem_nil

theorem flat_plain {c : CodePoint} (h : isFlat c = true) : c ≠ 34 ∧ c ≠ 92 := by
  simp only [isFlat, Bool.and_eq_true, bne_iff_ne] at h
  exact ⟨h.1.1.1.1.1.1, h.1.2⟩

theorem numLit_flat {l : NumLit} (hl : l.Valid) : ∀ c ∈ l.text, isFlat c = true := by
  have hdigits : ∀ s : Str, (∀ c ∈ s, isDigit c = true) → ∀ c ∈ s, isFlat c = true :=
    fun s hs c hc => isFlat_of_isDigit (hs c hc)
  have hexp : ∀ c ∈ l.exp, isFlat c = true := by
    rcases hl.exp_form with h | ⟨e, sign, digits, h, he, hsign, -, hd⟩
    · rw [h]
      exact fun c hc => absurd hc List.not_mem_nil
    · rw [h]
      intro c hc
      rcases List.mem_cons.mp hc with rfl | hc
      · rcases he with rfl | rfl <;> decide
      · rcases List.mem_append.mp hc with hc | hc
        · rcases hsign with rfl | rfl | rfl
          · cases hc
          · rw [List.mem_singleton.mp hc]; decide
          · rw [List.mem_singleton.mp hc]; decide
        · exact hdigits _ hd c hc
  intro c hc
  simp only [NumLit.text, List.mem_append] at hc
  rcases hc with ((hc | hc) | hc) | hc
  · split at hc
    · rw [List.mem_singleton.mp hc]
      decide
    · cases hc
  · exact hdigits _ hl.int_digits c hc
  · split at hc
    · cases hc
    · rcases List.mem_cons.mp hc with rfl | hc
      · decide
      · exact hdigits _ hl.frac_digits c hc
  · exact hexp c hc

theorem float_flat (x : F) : ∀ c ∈ JsonFloat.text x, isFlat c = true := by
  rcases JsonFloat.text_form x with h | h | h | ⟨l, hl, -, h⟩
  · rw [h]; exact List.all_eq_true.mp rfl
  · rw [h]; exact List.all_eq_true.mp rfl
  · rw [h]; exact List.all_eq_true.mp rfl
  · rw [← h]; exact numLit_flat hl

theorem Mode.inside_elems (st : Style) {xs : List (PyVal F)}
    (h : ∀ x ∈ xs, ∀ {m : Mode}, m.Inside → (m.scan (print st x)).Inside) {m : Mode}
    (hm : m.Inside) : (m.scan (printElems st xs)).Inside := by
  induction xs generalizing m with
  | nil => exact hm
  | cons x xs ih =>
    rw [printElems, scan_cons, scan_append, scan_append]
    have hcomma := inside_step (c := 44) hm (by decide) (by decide)
    have hvalue := h x (by simp) (inside_scan hcomma (gap_plain st))
    exact ih (fun y hy => h y (by simp [hy])) hvalue

theorem Mode.inside_members (st : Style) {kvs : Dict F}
    (h : ∀ kv ∈ kvs, ∀ {m : Mode}, m.Inside → (m.scan (print st kv.2)).Inside) {m : Mode}
    (hm : m.Inside) : (m.scan (printMembers st kvs)).Inside := by
  induction kvs generalizing m with
  | nil => exact hm
  | cons kv kvs ih =>
    obtain ⟨k, v⟩ := kv
    simp only [printMembers, scan_cons, scan_append]
    have hcomma := inside_step (c := 44) hm (by decide) (by decide)
    have hkey := inside_printStr (inside_scan hcomma (gap_plain st)) (keyText k)
    have hcolon := inside_step (c := 58) hkey (by decide) (by decide)
    have hvalue := h (k, v) (by simp) (inside_scan hcolon (gap_plain st))
    exact ih (fun y hy => h y (by simp [hy])) hvalue

/-- A printed value read from inside a string ends inside a string, if anywhere. -/
theorem Mode.inside_print (st : Style) (v : PyVal F) {m : Mode} (hm : m.Inside) :
    (m.scan (print st v)).Inside := by
  have hflat : ∀ {m : Mode} {s : Str}, m.Inside → (∀ c ∈ s, isFlat c = true) → (m.scan s).Inside :=
    fun hm hs => inside_scan hm fun c hc => flat_plain (hs c hc)
  induction v generalizing m with
  -- a constant or a number has no quote in it, a string has one at each end
  | none => exact hflat hm (List.all_eq_true.mp rfl)
  | bool b =>
    cases b with
    | true => exact hflat hm (List.all_eq_true.mp rfl)
    | false => exact hflat hm (List.all_eq_true.mp rfl)
  | int n =>
    rw [print, ← intLit_text]
    exact hflat hm (numLit_flat (intLit_valid n))
  | float x =>
    rw [print]
    exact hflat hm (float_flat x)
  | str s =>
    rw [print]
    exact inside_printStr hm s
  | obj t =>
    rw [print]
    exact inside_printStr hm t
  | list xs ih =>
    cases xs with
    | nil => exact inside_step (inside_step hm (by decide) (by decide)) (by decide) (by decide)
    | cons x xs =>
      rw [print, scan_cons, scan_append, scan_append]
      have hopen := inside_step (c := 91) hm (by decide) (by decide)
      have hbody := inside_elems st (fun y hy => ih y (List.mem_cons_of_mem x hy)) (ih x (by simp) hopen)
      exact inside_step hbody (by decide) (by decide)
  | dict kvs ih =>
    cases kvs with
    | nil => exact inside_step (inside_step hm (by decide) (by decide)) (by decide) (by decide)
    | cons kv kvs =>
      obtain ⟨k, v⟩ := kv
      simp only [print, scan_cons, scan_append, scan_nil]
      have hopen := inside_step (c := 123) hm (by decide) (by decide)
      have hkey := inside_printStr hopen (keyText k)
      have hcolon := inside_step (c := 58) hkey (by decide) (by decide)
      have hvalue := ih (k, v) (by simp) (inside_scan hcolon (gap_plain st))
      have hbody := inside_members st (fun y hy => ih y (List.mem_cons_of_mem (k, v) hy)) hvalue
      exact inside_step hbody (by decide) (by decide)

theorem Mode.bad_members (st : Style) {kvs : Dict F} (hseq : Key.str (py "sequence") ∈ kvs.keys)
    {m : Mode} (hm : m.Inside) : m.scan (printMembers st kvs) = .bad := by
  induction kvs generalizing m with
  | nil => cases hseq
  | cons kv kvs ih =>
    obtain ⟨k, v⟩ := kv
    simp only [printMembers, scan_cons, scan_append]
    have hcomma := inside_step (c := 44) hm (by decide) (by decide)
    have hkey := inside_scan hcomma (gap_plain st)
    rcases List.mem_cons.mp hseq with heq | hrest
    · cases heq
      rw [show keyText (Key.str (py "sequence") : Key F) = py "sequence" from rfl,
        printStr_sequence_bad hkey]
      simp only [show Mode.bad.step 58 = .bad from rfl, scan_bad]
    · have hcolon := inside_step (c := 58) (inside_printStr hkey (keyText k)) (by decide) (by decide)
      exact ih hrest (inside_print st v (inside_scan hcolon (gap_plain st)))

/-- A dict with a `sequence`, read from inside a string, is no JSON text. -/
theorem Mode.bad_print (st : Style) {d : Dict F} (hseq : Key.str (py "sequence") ∈ d.keys)
    {m : Mode} (hm : m.Inside) : m.scan (print st (.dict d)) = .bad := by
  cases d with
  | nil => cases hseq
  | cons kv kvs =>
    obtain ⟨k, v⟩ := kv
    simp only [print, scan_cons, scan_append, scan_nil]
    have hopen := inside_step (c := 123) hm (by decide) (by decide)
    rcases List.mem_cons.mp hseq with heq | hrest
    · cases heq
      rw [show keyText (Key.str (py "sequence") : Key F) = py "sequence" from rfl,
        printStr_sequence_bad hopen]
      simp only [show Mode.bad.step 58 = .bad from rfl, scan_bad]
      rfl
    · have hkey := inside_printStr hopen (keyText k)
      have hcolon := inside_step (c := 58) hkey (by decide) (by decide)
      have hvalue := inside_print st v (inside_scan hcolon (gap_plain st))
      rw [bad_members st hrest hvalue]
      rfl

/-! ## Text before a dict -/

theorem balanced_print (st : Style) (v : PyVal F) : Balanced (print st v) := by
  have hread := readsBack st v _ [] le_rfl fun _ h => by cases h
  rcases (parse_consumes _).1 _ _ _ hread with ⟨u, hu, hbal, -⟩
  rw [List.append_nil, List.append_nil] at hu
  rwa [hu]

theorem print_dict (st : Style) (d : Dict F) :
    ∃ body, print st (.dict d) = 123 :: (body ++ [125]) := by
  cases d with
  | nil => exact ⟨[], rfl⟩
  | cons kv d =>
    obtain ⟨k, v⟩ := kv
    exact ⟨_, by rw [print]⟩

/-- When a text followed by a printed dict with a `sequence` is read as an object, the
text is whitespace. -/
theorem isJsonWs_of_parse_append {t : Str} {st : Style} {d w : Dict F}
    (hseq : Key.str (py "sequence") ∈ d.keys)
    (h : parse (t ++ print st (.dict d)) = some (.dict w)) : ∀ c ∈ t, isJsonWs c = true := by
  by_contra hne
  rcases print_dict st d with ⟨body, hbody⟩
  have hrest : skipWs t ≠ [] := fun hnil => hne (List.dropWhile_eq_nil_iff.mp hnil)
  have hskip : skipWs (t ++ print st (.dict d)) = skipWs t ++ print st (.dict d) := by
    unfold skipWs at hrest ⊢
    rw [List.dropWhile_append, if_neg (by simpa using hrest)]
  obtain ⟨r, hp, hr⟩ : ∃ r, parseValue (2 * (t ++ print st (.dict d)).length)
      (skipWs t ++ print st (.dict d)) = some (PyVal.dict w, r) ∧ skipWs r = [] := by
    unfold parse at h
    rw [hskip] at h
    split at h
    · next v r hv =>
      split_ifs at h with hr
      cases h
      exact ⟨r, hv, hr⟩
    · cases h
  rcases (parse_consumes _).1 _ _ _ hp with ⟨u, hu, hbal, hdict⟩
  rcases hdict w rfl with ⟨x, hx, hxbal⟩
  -- nothing is left over, since the dict ends in a brace
  obtain rfl : r = [] := by
    by_contra hrne
    have hlast := congrArg List.getLast? hu
    rw [hbody, ← List.cons_append, ← List.append_assoc, List.getLast?_append,
      List.getLast?_append_of_ne_nil _ hrne] at hlast
    have hmem : (125 : CodePoint) ∈ r := List.mem_of_getLast? hlast.symm
    have := List.dropWhile_eq_nil_iff.mp hr 125 hmem
    cases this
  rw [List.append_nil] at hu
  -- the object is the one whose brace is in the text
  obtain ⟨c, p, hcp⟩ := List.exists_cons_of_ne_nil hrest
  have hsplit : c = 123 ∧ p ++ 123 :: body = x := by
    rw [hcp, hx, hbody, List.cons_append, List.cons.injEq, ← List.cons_append,
      ← List.append_assoc] at hu
    exact ⟨hu.1, List.append_cancel_right hu.2⟩
  rcases hsplit with ⟨rfl, hpx⟩
  have hgood : (Mode.out 0).scan p ≠ .bad := by
    intro hbad
    have hscan := hxbal 0
    rw [← hpx, Mode.scan_append, hbad, Mode.scan_bad] at hscan
    cases hscan
  -- and it would be closed by the brace that closes the dict
  have hclosed : ((Mode.out 0).scan p).lift.scan (print st (.dict d)) = .out 0 := by
    have hscan := hbal 0
    rw [← hu, hcp, List.cons_append, Mode.scan_cons, Mode.scan_append] at hscan
    rw [← Mode.scan_lift hgood]
    exact hscan
  cases hm : (Mode.out 0).scan p with
  | bad => exact hgood hm
  | out j =>
    rw [hm, Mode.lift, balanced_print] at hclosed
    cases hclosed
  | str j =>
    rw [hm, Mode.lift, Mode.bad_print st hseq (Or.inr ⟨_, rfl⟩)] at hclosed
    cases hclosed
  | esc j =>
    rw [hm, Mode.lift, hbody, Mode.scan_cons, show (Mode.esc (j + 1)).step 123 = .bad from rfl,
      Mode.scan_bad] at hclosed
    cases hclosed

end AutoHeal
