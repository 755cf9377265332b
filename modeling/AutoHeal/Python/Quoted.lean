import AutoHeal.Lib.Shell
import AutoHeal.Lib.Template
import AutoHeal.Python.Shlex

/-!
# Quoted values in a shell line

What a shell reads of a template with values that `shlex.quote` has quoted, against the template
with each value as a piece that stands for itself. Every character carries its place, and the quotes
that `shlex.quote` puts in have none. `readsAlike_iff` says when the two readings are the same.
-/

namespace AutoHeal

open Shell

/-! ## The line -/

/-- A character with its place, `none` for what `shlex.quote` puts in. -/
abbrev Placed := CodePoint × Option ℕ

/-- The characters of a value with their places from a number on. -/
def ownChars : ℕ → Str → List Placed
  | _, [] => []
  | n, c :: v => (c, some n) :: ownChars (n + 1) v

/-- The value between the quotes that `shlex.quote` puts around it. -/
def betweenQuotes : ℕ → Str → List Placed
  | _, [] => []
  | n, c :: v =>
    if c = 39 then
      (39, none) :: (34, none) :: (39, some n) :: (34, none) :: (39, none) :: betweenQuotes (n + 1) v
    else (c, some n) :: betweenQuotes (n + 1) v

/-- The value needs no quotes. -/
def isBare (v : Str) : Bool := v ≠ [] && v.all isShellSafe

/-- The characters of `shlex.quote(v)`. -/
def quotedChars (n : ℕ) (v : Str) : List Placed :=
  if isBare v then ownChars n v else (39, none) :: (betweenQuotes n v ++ [(39, none)])

/-- The characters of a template with its values quoted. -/
def lineChars : ℕ → List (Part CodePoint Str) → List Placed
  | _, [] => []
  | n, .lit c :: ps => (c, some n) :: lineChars (n + 1) ps
  | n, .value v :: ps => quotedChars n v ++ lineChars (n + v.length) ps

theorem ownChars_text (n : ℕ) (v : Str) : (ownChars n v).map Prod.fst = v := by
  induction v generalizing n with
  | nil => rfl
  | cons c v ih => rw [ownChars, List.map_cons, ih]

theorem betweenQuotes_text (n : ℕ) (v : Str) :
    (betweenQuotes n v).map Prod.fst = quotedText v := by
  induction v generalizing n with
  | nil => rfl
  | cons c v ih =>
    have hcons : quotedText (c :: v) = (if c = 39 then py "'\"'\"'" else [c]) ++ quotedText v := rfl
    rw [betweenQuotes, hcons]
    split_ifs
    · simp [ih, show py "'\"'\"'" = [39, 34, 39, 34, 39] from rfl]
    · simp [ih]

theorem quotedChars_text (n : ℕ) (v : Str) : (quotedChars n v).map Prod.fst = shlexQuote v := by
  unfold quotedChars isBare shlexQuote
  by_cases hnil : v = []
  · subst hnil
    rfl
  · by_cases hsafe : v.all isShellSafe = true
    · simp [hnil, hsafe, ownChars_text]
    · simp [hnil, hsafe, betweenQuotes_text, quotedText]

theorem lineChars_text (n : ℕ) (ps : List (Part CodePoint Str)) :
    (lineChars n ps).map Prod.fst = fill shlexQuote ps := by
  induction ps generalizing n with
  | nil => rfl
  | cons p ps ih =>
    cases p with
    | lit c => rw [lineChars, List.map_cons, ih, fill_lit]
    | value v => rw [lineChars, List.map_append, quotedChars_text, ih, fill_value]

/-! ## The readings -/

/-- What is meant to be read of a value. In a comment nothing is. -/
def Shell.Reader.valueEvents (r : Reader) (n : ℕ) (v : Str) : List (Event Placed) :=
  if r.mode = .comment then [] else pieceEvents r.begins (ownChars n v)

/-- What is meant to be read of the rest of a template. -/
def intendedFrom : Reader → ℕ → List (Part CodePoint Str) → List (Event Placed)
  | _, _, [] => []
  | r, n, .lit c :: ps => (r.step c).1.events (c, some n) ++ intendedFrom (r.step c).2 (n + 1) ps
  | r, n, .value v :: ps => r.valueEvents n v ++ intendedFrom r.inert (n + v.length) ps

/-- The reader after the rest of a template. -/
def intendedEnd : Reader → List (Part CodePoint Str) → Reader
  | r, [] => r
  | r, .lit c :: ps => intendedEnd (r.step c).2 ps
  | r, .value _ :: ps => intendedEnd r.inert ps

/-- What is meant to be read of a template, and whether it is complete. -/
def intendedReading (ps : List (Part CodePoint Str)) : List (Event Placed) × Bool :=
  (intendedFrom .start 0 ps, (intendedEnd .start ps).complete)

/-- What is read of a line with places. -/
def readingOf (xs : List Placed) : List (Event Placed) × Bool :=
  (eventsFrom Prod.fst .start xs, (Reader.start.after (xs.map Prod.fst)).complete)

/-- The line is read as it is meant. -/
def ReadsAlike (ps : List (Part CodePoint Str)) : Prop := readingOf (lineChars 0 ps) = intendedReading ps

/-! ## When a value stands for itself -/

namespace Shell.Reader

/-- Inside backquotes a value in quotes has no backquote, and no backslash before a backslash or a
dollar sign. -/
def HoldsAll (back : Prop) : (held : Bool) → Str → Prop
  | _, [] => True
  | held, c :: v =>
    if c = 39 then HoldsAll back false v
    else ¬ (back ∧ (c = 96 ∨ held = true ∧ (c = 36 ∨ c = 92))) ∧ HoldsAll back (c == 92) v

instance decidableHoldsAll (back : Prop) [Decidable back] : (held : Bool) → (v : Str) →
    Decidable (HoldsAll back held v)
  | _, [] => .isTrue trivial
  | _, c :: v =>
    have := decidableHoldsAll back false v
    have := decidableHoldsAll back (c == 92) v
    inferInstanceAs (Decidable (if c = 39 then _ else _ ∧ _))

/-- Single quotes are open. -/
def inSingle (r : Reader) : Bool :=
  match r.mode with
  | .single _ => true
  | _ => false

/-- The value stands for itself. Inside single quotes the quotes that are put in close those of the
template. -/
def Inert (r : Reader) (v : Str) : Prop :=
  if r.mode = .comment then 10 ∉ v ∧ (.backquotes ∈ r.frames → 96 ∉ v)
  else if isBare v then r.TakesAll v
  else if r.inSingle then context r.frames ≠ .quoted ∧ (r.step 39).2.TakesAll v
  else r.Opens ∧ HoldsAll (.backquotes ∈ r.frames) false v

instance (r : Reader) (v : Str) : Decidable (r.Inert v) :=
  inferInstanceAs (Decidable (if r.mode = .comment then 10 ∉ v ∧ (.backquotes ∈ r.frames → 96 ∉ v)
    else if isBare v then r.TakesAll v
    else if r.inSingle then context r.frames ≠ .quoted ∧ (r.step 39).2.TakesAll v
    else r.Opens ∧ HoldsAll (.backquotes ∈ r.frames) false v))

/-- The second reader takes every value as it is, and every character like the first. -/
def Agrees : Reader → Reader → List (Part CodePoint Str) → Prop
  | _, _, [] => True
  | r, r', .lit c :: ps => (r.step c).1 = (r'.step c).1 ∧ Agrees (r.step c).2 (r'.step c).2 ps
  | r, r', .value v :: ps => r'.Inert v ∧ Agrees r.inert (r'.after (shlexQuote v)) ps

instance decidableAgrees : (r r' : Reader) → (ps : List (Part CodePoint Str)) →
    Decidable (Agrees r r' ps)
  | _, _, [] => .isTrue trivial
  | r, r', .lit c :: ps =>
    have := decidableAgrees (r.step c).2 (r'.step c).2 ps
    inferInstanceAs (Decidable ((r.step c).1 = (r'.step c).1 ∧ Agrees _ _ ps))
  | r, r', .value v :: ps =>
    have := decidableAgrees r.inert (r'.after (shlexQuote v)) ps
    inferInstanceAs (Decidable (r'.Inert v ∧ Agrees _ _ ps))

end Shell.Reader

/-! ## Values that stand for themselves -/

section Runs

variable {r : Reader}

theorem after_append (r : Reader) (s t : Str) : r.after (s ++ t) = (r.after s).after t :=
  List.foldl_append

/-- A comment goes on. -/
theorem comment_run (hmode : r.mode = .comment) {s : Str}
    (hs : ∀ c ∈ s, c ≠ 10 ∧ (.backquotes ∈ r.frames → c ≠ 96)) (xs : List Placed)
    (hxs : xs.map Prod.fst = s) : eventsFrom Prod.fst r xs = [] ∧ r.after s = r := by
  induction xs generalizing s with
  | nil =>
    subst hxs
    exact ⟨rfl, rfl⟩
  | cons x xs ih =>
    subst hxs
    have hstep : r.step x.1 = (⟨false, none⟩, r) := by
      rcases hs x.1 List.mem_cons_self with ⟨hline, hback⟩
      have hback' : ¬ (x.1 = 96 ∧ .backquotes ∈ r.frames) := fun h => hback h.2 h.1
      simp only [Reader.step, hmode, hline, hback', if_false]
    rcases ih (fun c hc => hs c (List.mem_cons_of_mem _ hc)) rfl with ⟨hevents, hafter⟩
    constructor
    · rw [eventsFrom, hstep, hevents]
      rfl
    · show Reader.after (r.step x.1).2 (xs.map Prod.fst) = r
      rw [hstep, hafter]

theorem step_single (frames : List Frame) (place : Place) (held hereDoc : Bool) :
    Reader.step ⟨frames, place, .single held, hereDoc⟩ 39 =
      (⟨false, none⟩, ⟨frames, .word false, .plain, hereDoc⟩) := rfl

theorem step_reopen {frames : List Frame} (h : context frames ≠ .quoted) (digits hereDoc : Bool) :
    Reader.step ⟨frames, .word digits, .plain, hereDoc⟩ 39 =
      (⟨false, none⟩, ⟨frames, .word false, .single false, hereDoc⟩) := by
  have hopens : Reader.Opens ⟨frames, .word digits, .plain, hereDoc⟩ := ⟨h, Or.inl rfl⟩
  rw [Reader.step_of_opens hopens]
  rfl

theorem step_double {frames : List Frame} (h : context frames ≠ .quoted) (hereDoc : Bool) :
    Reader.step ⟨frames, .word false, .plain, hereDoc⟩ 34 =
      (⟨false, none⟩, ⟨.double :: frames, .word false, .plain, hereDoc⟩) := by
  have hoperator : isOperator 34 = false := by decide
  unfold Reader.step Reader.plain
  cases hcontext : context frames with
  | command => simp [Reader.command, Reader.extended, Reader.delimits, hoperator,
      Reader.unquoted, Reader.begins, Place.begins]
  | expansion => simp [Reader.expansion, Reader.unquoted, Reader.begins, Place.begins]
  | quoted => exact absurd hcontext h

/-- An apostrophe of the value, with the quotes around it. -/
theorem step_apostrophe {frames : List Frame} (h : context frames ≠ .quoted) (held hereDoc : Bool)
    (n : ℕ) (xs : List Placed) :
    let r : Reader := ⟨frames, .word false, .single held, hereDoc⟩
    let r' : Reader := ⟨frames, .word false, .single false, hereDoc⟩
    eventsFrom Prod.fst r
        ((39, none) :: (34, none) :: (39, some n) :: (34, none) :: (39, none) :: xs) =
      .char .literal (39, some n) :: eventsFrom Prod.fst r' xs ∧
      ∀ s, r.after (39 :: 34 :: 39 :: 34 :: 39 :: s) = r'.after s := by
  have hown : Reader.step ⟨.double :: frames, .word false, .plain, hereDoc⟩ 39 =
      (⟨false, some .literal⟩, ⟨.double :: frames, .word false, .plain, hereDoc⟩) := rfl
  have hclose : Reader.step ⟨.double :: frames, .word false, .plain, hereDoc⟩ 34 =
      (⟨false, none⟩, ⟨frames, .word false, .plain, hereDoc⟩) := rfl
  constructor
  · simp only [eventsFrom, step_single, step_double h, hown, hclose, step_reopen h]
    rfl
  · intro s
    simp only [Reader.after, List.foldl_cons, step_single, step_double h, hown, hclose,
      step_reopen h]

/-- In single quotes. -/
theorem betweenQuotes_run {frames : List Frame} (h : context frames ≠ .quoted) (hereDoc : Bool)
    {held : Bool} {v : Str} (hv : Reader.HoldsAll (.backquotes ∈ frames) held v) (n : ℕ) :
    eventsFrom Prod.fst ⟨frames, .word false, .single held, hereDoc⟩ (betweenQuotes n v) =
        (ownChars n v).map (.char .literal) ∧
      ∃ held', Reader.after ⟨frames, .word false, .single held, hereDoc⟩ (quotedText v) =
        ⟨frames, .word false, .single held', hereDoc⟩ := by
  induction v generalizing held n with
  | nil => exact ⟨rfl, held, rfl⟩
  | cons c v ih =>
    have hcons : quotedText (c :: v) = (if c = 39 then py "'\"'\"'" else [c]) ++ quotedText v := rfl
    by_cases hc : c = 39
    · subst hc
      rw [Reader.HoldsAll, if_pos rfl] at hv
      rcases step_apostrophe h held hereDoc n (betweenQuotes (n + 1) v) with ⟨hevents, hafter⟩
      rcases ih hv (n + 1) with ⟨hrest, held', hend⟩
      refine ⟨?_, held', ?_⟩
      · rw [betweenQuotes, if_pos rfl, hevents, hrest]
        rfl
      · rw [hcons, if_pos rfl]
        exact (hafter _).trans hend
    -- a quote is written as five characters; any other is itself, and may begin a backslash
    · rw [Reader.HoldsAll, if_neg hc] at hv
      have hstep : Reader.step ⟨frames, .word false, .single held, hereDoc⟩ c =
          (⟨false, some .literal⟩, ⟨frames, .word false, .single (c == 92), hereDoc⟩) := by
        simp [Reader.step, Reader.single, hc, hv.1, Reader.part, Reader.begins]
      rcases ih hv.2 (n + 1) with ⟨hrest, held', hend⟩
      refine ⟨?_, held', ?_⟩
      · rw [betweenQuotes, if_neg hc, eventsFrom, hstep, hrest]
        rfl
      · rw [hcons, if_neg hc]
        show Reader.after (Reader.step _ c).2 (quotedText v) = _
        rw [hstep, hend]

theorem shlexQuote_bare {v : Str} (h : isBare v = true) : shlexQuote v = v := by
  unfold isBare at h
  rw [Bool.and_eq_true, decide_eq_true_eq] at h
  rw [shlexQuote, if_neg h.1, if_pos h.2]

theorem shlexQuote_quoted {v : Str} (h : ¬ isBare v = true) :
    shlexQuote v = 39 :: (quotedText v ++ [39]) := by
  by_cases hnil : v = []
  · subst hnil
    rfl
  · have hsafe : ¬ v.all isShellSafe = true := by
      intro hall
      exact h (by simp [isBare, hnil, hall])
    rw [shlexQuote, if_neg hnil, if_neg hsafe]
    rfl

theorem mem_shlexQuote {v : Str} {c : CodePoint} (h : c ∈ shlexQuote v) :
    c ∈ v ∨ c = 39 ∨ c = 34 := by
  by_cases hbare : isBare v = true
  · rw [shlexQuote_bare hbare] at h
    exact Or.inl h
  · rw [shlexQuote_quoted hbare] at h
    have hquotes : py "'\"'\"'" = [39, 34, 39, 34, 39] := rfl
    rcases List.mem_cons.mp h with rfl | h
    · exact Or.inr (Or.inl rfl)
    · rcases List.mem_append.mp h with h | h
      · rcases List.mem_flatMap.mp h with ⟨d, hd, hc⟩
        split_ifs at hc
        · rw [hquotes] at hc
          simp at hc
          tauto
        · rw [List.mem_singleton.mp hc]
          exact Or.inl hd
      · exact Or.inr (Or.inl (List.mem_singleton.mp h))

/-- Outside quotes no apostrophe stands for itself. -/
theorem takesAll_unquoted {frames : List Frame} (h : context frames ≠ .quoted) {digits hereDoc : Bool}
    {v : Str} (hv : Reader.TakesAll ⟨frames, .word digits, .plain, hereDoc⟩ v) :
    39 ∉ v ∧ ∃ digits', Reader.after ⟨frames, .word digits, .plain, hereDoc⟩ v =
      ⟨frames, .word digits', .plain, hereDoc⟩ := by
  induction v generalizing digits with
  | nil => exact ⟨List.not_mem_nil, digits, rfl⟩
  | cons c v ih =>
    have hc : c ≠ 39 := by
      rintro rfl
      have hkind := hv.1
      rw [step_reopen h] at hkind
      cases hkind
    rcases hv with ⟨hliteral, hv⟩
    have hkept := (Reader.step_literal hliteral).2
    -- a literal keeps the reader where it is, but for the digits it has seen
    have hnext : ∃ digits', (Reader.step ⟨frames, .word digits, .plain, hereDoc⟩ c).2 =
        ⟨frames, .word digits', .plain, hereDoc⟩ := by
      generalize (Reader.step ⟨frames, .word digits, .plain, hereDoc⟩ c).2 = r' at hkept
      cases hkept with
      | word digits' => exact ⟨digits', rfl⟩
      | single held hmode => cases hmode
    rcases hnext with ⟨digits', hnext⟩
    rw [hnext] at hv
    rcases ih hv with ⟨hnot, hend⟩
    refine ⟨fun hmem => ?_, ?_⟩
    · rcases List.mem_cons.mp hmem with heq | hmem
      · exact hc heq.symm
      · exact hnot hmem
    · show ∃ digits', Reader.after (Reader.step _ c).2 v = _
      rw [hnext]
      exact hend

theorem betweenQuotes_eq {v : Str} (h : 39 ∉ v) (n : ℕ) : betweenQuotes n v = ownChars n v := by
  induction v generalizing n with
  | nil => rfl
  | cons c v ih =>
    have hc : c ≠ 39 := by
      rintro rfl
      exact h List.mem_cons_self
    rw [betweenQuotes, if_neg hc, ih fun hmem => h (List.mem_cons_of_mem _ hmem), ownChars]

theorem ownChars_ne_nil {v : Str} (h : v ≠ []) (n : ℕ) : ownChars n v ≠ [] := by
  cases v with
  | nil => exact absurd rfl h
  | cons => exact List.cons_ne_nil _ _

/-- A value in single quotes of the template, outside of those that are put in. -/
theorem single_run (hsingle : r.inSingle = true) (hcontext : context r.frames ≠ .quoted) {v : Str}
    (hv : (r.step 39).2.TakesAll v) (n : ℕ) :
    eventsFrom Prod.fst r ((39, none) :: (betweenQuotes n v ++ [(39, none)])) =
        pieceEvents r.begins (ownChars n v) ∧
      r.inert.Behind (r.after (39 :: (quotedText v ++ [39]))) := by
  rcases r with ⟨frames, place, mode, hereDoc⟩
  cases mode with
  | single held =>
    rw [step_single] at hv
    rcases takesAll_unquoted hcontext hv with ⟨hnot, digits, hend⟩
    have htext : quotedText v = v := by
      rw [← betweenQuotes_text n, betweenQuotes_eq hnot, ownChars_text]
    constructor
    · have hown := hv
      rw [← ownChars_text n v] at hown
      rw [eventsFrom, step_single, betweenQuotes_eq hnot, eventsFrom_append,
        eventsFrom_of_takesAll hown (Or.inr rfl), ownChars_text, hend, eventsFrom,
        step_reopen hcontext]
      simp [Emit.events, eventsFrom, Reader.begins, Place.begins]
    · left
      rw [htext]
      show _ = Reader.after (Reader.step _ 39).2 (v ++ [39])
      rw [step_single, after_append, hend]
      show _ = (Reader.step ⟨frames, .word digits, .plain, hereDoc⟩ 39).2
      rw [step_reopen hcontext]
      rfl
  | _ => cases hsingle

/-- A value in the quotes that are put in. -/
theorem opens_run (h : r.Opens) {v : Str}
    (hv : Reader.HoldsAll (.backquotes ∈ r.frames) false v) (n : ℕ) :
    eventsFrom Prod.fst r ((39, none) :: (betweenQuotes n v ++ [(39, none)])) =
        pieceEvents r.begins (ownChars n v) ∧
      r.inert.Behind (r.after (39 :: (quotedText v ++ [39]))) := by
  have hopen := Reader.step_of_opens h
  rcases betweenQuotes_run h.1 r.hereDoc hv n with ⟨hevents, held, hend⟩
  constructor
  · rw [eventsFrom, hopen, eventsFrom_append, hevents, betweenQuotes_text, hend, eventsFrom,
      step_single]
    simp [Emit.events, eventsFrom, pieceEvents]
  · left
    show _ = Reader.after (r.step 39).2 (quotedText v ++ [39])
    rw [hopen, after_append, hend]
    show _ = (Reader.step ⟨r.frames, .word false, .single held, r.hereDoc⟩ 39).2
    rw [step_single]
    rcases h.2 with hmode | hmode | hmode
    · simp [Reader.inert, hmode]
    · simp [Reader.inert, hmode]
    · simp [Reader.inert, hmode]

/-- A value that stands for itself is read so. -/
theorem Shell.Reader.Inert.run {v : Str} (h : r.Inert v) (n : ℕ) :
    eventsFrom Prod.fst r (quotedChars n v) = r.valueEvents n v ∧
      r.inert.Behind (r.after (shlexQuote v)) := by
  unfold Reader.Inert at h
  unfold Reader.valueEvents
  by_cases hcomment : r.mode = .comment
  · rw [if_pos hcomment] at h ⊢
    -- in a comment the value vanishes, unless a newline or a backquote ends the comment
    have hchars : ∀ c ∈ shlexQuote v, c ≠ 10 ∧ (.backquotes ∈ r.frames → c ≠ 96) := by
      intro c hc
      rcases mem_shlexQuote hc with hmem | rfl | rfl
      · exact ⟨fun hline => h.1 (hline ▸ hmem), fun hback hquote => h.2 hback (hquote ▸ hmem)⟩
      · exact ⟨by decide, fun _ => by decide⟩
      · exact ⟨by decide, fun _ => by decide⟩
    rcases comment_run hcomment hchars (quotedChars n v) (quotedChars_text n v) with
      ⟨hevents, hafter⟩
    refine ⟨hevents, Or.inl ?_⟩
    rw [hafter, Reader.inert, hcomment]
  · rw [if_neg hcomment] at h ⊢
    by_cases hbare : isBare v = true
    · rw [if_pos hbare] at h
      have hsafe : v ≠ [] ∧ v.all isShellSafe = true := by simpa [isBare] using hbare
      rw [quotedChars, if_pos hbare, shlexQuote_bare hbare]
      constructor
      · apply eventsFrom_of_takesAll
        · rwa [ownChars_text]
        · exact Or.inl (ownChars_ne_nil hsafe.1 n)
      · refine Reader.behind_of_takesAll h hsafe.1 fun _ _ hmem => ?_
        exact absurd (List.all_eq_true.mp hsafe.2 92 hmem) (by decide)
    · rw [if_neg hbare] at h
      rw [quotedChars, if_neg hbare, shlexQuote_quoted hbare]
      by_cases hsingle : r.inSingle = true
      · rw [if_pos hsingle] at h
        exact single_run hsingle h.1 h.2 n
      · rw [if_neg hsingle] at h
        exact opens_run h.1 h.2 n

end Runs

/-! ## What has to stand for itself -/

section Places

/-- Every character that is read has a place, from a number on. -/
def PlacedFrom (n : ℕ) (es : List (Event Placed)) : Prop :=
  ∀ kind c place, .char kind (c, place) ∈ es → ∃ m, place = some m ∧ n ≤ m

/-- The places of a text are from a number on. -/
def Later (n : ℕ) (xs : List Placed) : Prop := ∀ c m, (c, some m) ∈ xs → n ≤ m

theorem mem_ownChars {n : ℕ} {v : Str} {c : CodePoint} {place : Option ℕ}
    (h : (c, place) ∈ ownChars n v) : ∃ m, place = some m ∧ n ≤ m ∧ m < n + v.length := by
  induction v generalizing n with
  | nil => cases h
  | cons d v ih =>
    rcases List.mem_cons.mp h with heq | hmem
    · cases heq
      exact ⟨n, rfl, le_refl n, by simp⟩
    · rcases ih hmem with ⟨m, hplace, hfrom, hto⟩
      refine ⟨m, hplace, by omega, ?_⟩
      rw [List.length_cons]
      omega

theorem mem_betweenQuotes {n : ℕ} {v : Str} {c : CodePoint} {m : ℕ}
    (h : (c, some m) ∈ betweenQuotes n v) : (c, some m) ∈ ownChars n v := by
  induction v generalizing n with
  | nil => cases h
  | cons d v ih =>
    rw [betweenQuotes] at h
    split_ifs at h with hd
    · subst hd
      simp only [List.mem_cons, Prod.mk.injEq, reduceCtorEq, and_false, false_or] at h
      rcases h with ⟨rfl, hm⟩ | hmem
      · cases hm
        exact List.mem_cons_self
      · exact List.mem_cons_of_mem _ (ih hmem)
    · rcases List.mem_cons.mp h with heq | hmem
      · cases heq
        exact List.mem_cons_self
      · exact List.mem_cons_of_mem _ (ih hmem)

theorem Later.betweenQuotes {n : ℕ} {v : Str} {ys : List Placed} (h : Later (n + v.length) ys) :
    Later n (betweenQuotes n v ++ ys) := by
  intro c m hmem
  rcases List.mem_append.mp hmem with hmem | hmem
  · rcases mem_ownChars (mem_betweenQuotes hmem) with ⟨_, heq, hfrom, -⟩
    cases heq
    exact hfrom
  · have := h c m hmem
    omega

theorem Later.ownChars {n : ℕ} {v : Str} {ys : List Placed} (h : Later (n + v.length) ys) :
    Later n (ownChars n v ++ ys) := by
  intro c m hmem
  rcases List.mem_append.mp hmem with hmem | hmem
  · rcases mem_ownChars hmem with ⟨_, heq, hfrom, -⟩
    cases heq
    exact hfrom
  · have := h c m hmem
    omega

theorem mem_events {e : Emit} {x y : Placed} {kind : Kind} (h : .char kind y ∈ e.events x) :
    y = x := by
  rcases e with ⟨begins, kind'⟩
  cases begins <;> cases kind' <;> simp [Emit.events] at h
  · exact h.2
  · exact h.2

theorem mem_eventsFrom {r : Reader} {xs : List Placed} {x : Placed} {kind : Kind}
    (h : .char kind x ∈ eventsFrom Prod.fst r xs) : x ∈ xs := by
  induction xs generalizing r with
  | nil => cases h
  | cons y xs ih =>
    rcases List.mem_append.mp h with hmem | hmem
    · rw [mem_events hmem]
      exact List.mem_cons_self
    · exact List.mem_cons_of_mem _ (ih hmem)

/-- What comes later is not at a place before. -/
theorem Later.notMem {n m : ℕ} {xs : List Placed} (h : Later n xs) (hm : m < n) (r : Reader)
    (c : CodePoint) (kind : Kind) : .char kind (c, some m) ∉ eventsFrom Prod.fst r xs := by
  intro hmem
  have := h c m (mem_eventsFrom hmem)
  omega

/-- What is read of a character that is meant to stand for itself. -/
theorem emit_of_own (begins : Bool) {e : Emit} {x : Placed} {rest others : List (Event Placed)}
    (heq : e.events x ++ rest = (if begins then [.begins] else []) ++ .char .literal x :: others)
    (hrest : ∀ kind, .char kind x ∉ rest) : e = ⟨begins, some .literal⟩ ∧ rest = others := by
  have hnot : rest ≠ .char .literal x :: others := by
    rintro rfl
    exact hrest .literal List.mem_cons_self
  have hnot' : rest ≠ .begins :: .char .literal x :: others := by
    rintro rfl
    exact hrest .literal (List.mem_cons_of_mem _ List.mem_cons_self)
  rcases e with ⟨begins', kind⟩
  cases begins' <;> cases begins <;> cases kind <;> simp_all [Emit.events]

/-- What is read of a character that is put in. -/
theorem emit_of_added {e : Emit} {x : Placed} {rest es : List (Event Placed)}
    (heq : e.events x ++ rest = es) (hes : ∀ kind, .char kind x ∉ es) :
    e.kind = none ∧ (if e.begins then [.begins] else []) ++ rest = es := by
  rcases e with ⟨begins, kind⟩
  cases kind with
  | none => exact ⟨rfl, by simpa [Emit.events] using heq⟩
  | some kind =>
    refine absurd ?_ (hes kind)
    rw [← heq]
    simp [Emit.events]

theorem PlacedFrom.notMem {n : ℕ} {es : List (Event Placed)} (h : PlacedFrom n es) (c : CodePoint)
    (kind : Kind) : .char kind (c, none) ∉ es := by
  intro hmem
  rcases h kind c none hmem with ⟨m, hnone, -⟩
  cases hnone

theorem placedFrom_own {n : ℕ} {v : Str} {es : List (Event Placed)}
    (h : PlacedFrom (n + v.length) es) (begins : Bool) :
    PlacedFrom n (pieceEvents begins (ownChars n v) ++ es) := by
  intro kind c place hmem
  rcases List.mem_append.mp hmem with hmem | hmem
  · unfold pieceEvents at hmem
    have hown : (c, place) ∈ ownChars n v := by
      cases begins <;> simp at hmem
      · exact hmem.1
      · exact hmem.1
    rcases mem_ownChars hown with ⟨m, hplace, hfrom, -⟩
    exact ⟨m, hplace, hfrom⟩
  · rcases h kind c place hmem with ⟨m, hplace, hfrom⟩
    exact ⟨m, hplace, by omega⟩

variable {r : Reader} {n : ℕ} {v : Str} {ys : List Placed} {others : List (Event Placed)}

/-- A value without quotes. -/
theorem takesAll_of_events
    (heq : eventsFrom Prod.fst r (ownChars n v ++ ys) = pieceEvents r.begins (ownChars n v) ++ others)
    (hlater : Later (n + v.length) ys) : r.TakesAll v := by
  induction v generalizing r n with
  | nil => trivial
  | cons c v ih =>
    have hrest : Later (n + 1) (ownChars (n + 1) v ++ ys) := by
      apply Later.ownChars
      rwa [List.length_cons, Nat.add_comm v.length 1, ← Nat.add_assoc] at hlater
    have hsplit : (r.step c).1.events (c, some n) ++
        eventsFrom Prod.fst (r.step c).2 (ownChars (n + 1) v ++ ys) =
        (if r.begins then [.begins] else []) ++ .char .literal (c, some n) ::
          ((ownChars (n + 1) v).map (.char .literal) ++ others) := by
      simpa [pieceEvents, ownChars, eventsFrom] using heq
    rcases emit_of_own _ hsplit fun kind => hrest.notMem (Nat.lt_succ_self n) _ c kind with
      ⟨hemit, hnext⟩
    have hliteral : (r.step c).1.kind = some .literal := by rw [hemit]
    refine ⟨hliteral, ih (n := n + 1) ?_ ?_⟩
    · rw [(Reader.step_literal hliteral).2.begins]
      exact hnext
    · rwa [List.length_cons, Nat.add_comm v.length 1, ← Nat.add_assoc] at hlater

/-- A value in the quotes that are put in. -/
theorem holdsAll_of_events {frames : List Frame} (h : context frames ≠ .quoted) {hereDoc held : Bool}
    (heq : eventsFrom Prod.fst ⟨frames, .word false, .single held, hereDoc⟩ (betweenQuotes n v ++ ys) =
      (ownChars n v).map (.char .literal) ++ others)
    (hlater : Later (n + v.length) ys) : Reader.HoldsAll (.backquotes ∈ frames) held v := by
  induction v generalizing n held with
  | nil => trivial
  | cons c v ih =>
    rw [List.length_cons, Nat.add_comm v.length 1, ← Nat.add_assoc] at hlater
    by_cases hc : c = 39
    · subst hc
      rw [betweenQuotes, if_pos rfl] at heq
      have hquotes := step_apostrophe h held hereDoc n (betweenQuotes (n + 1) v ++ ys)
      have hcut := hquotes.1.symm.trans heq
      rw [Reader.HoldsAll, if_pos rfl]
      exact ih (List.cons.inj hcut).2 hlater
    · rw [betweenQuotes, if_neg hc] at heq
      have hrest : Later (n + 1) (betweenQuotes (n + 1) v ++ ys) := hlater.betweenQuotes
      have hemit := emit_of_own false heq
        fun kind => hrest.notMem (Nat.lt_succ_self n) _ c kind
      -- otherwise the reader would have given up, and the event would be another
      have hback : ¬ (.backquotes ∈ frames ∧ (c = 96 ∨ held = true ∧ (c = 36 ∨ c = 92))) := by
        intro hback
        have hfirst := hemit.1
        simp [Reader.step, Reader.single, hc, hback, Reader.giveUp] at hfirst
      have hstep : Reader.step ⟨frames, .word false, .single held, hereDoc⟩ c =
          (⟨false, some .literal⟩, ⟨frames, .word false, .single (c == 92), hereDoc⟩) := by
        simp [Reader.step, Reader.single, hc, hback, Reader.part, Reader.begins]
      have hnext := hemit.2
      rw [hstep] at hnext
      rw [Reader.HoldsAll, if_neg hc]
      exact ⟨hback, ih hnext hlater⟩

/-- Only outside of quotes is a single quote no part of a word that is being read. -/
theorem unquoted_of_apostrophe {frames : List Frame} {digits hereDoc : Bool}
    (h : (Reader.step ⟨frames, .word digits, .plain, hereDoc⟩ 39).1.kind = none) :
    context frames ≠ .quoted := by
  rcases Reader.opens_or_of_apostrophe h with hopens | ⟨held, hmode⟩ | hmode
  · exact hopens.1
  · cases hmode
  · cases hmode

/-- A value outside quotes, where those that are put in have closed others. -/
theorem unquoted_of_events {frames : List Frame} {digits hereDoc : Bool}
    (heq : eventsFrom Prod.fst ⟨frames, .word digits, .plain, hereDoc⟩ (betweenQuotes n v ++ ys) =
      (ownChars n v).map (.char .literal) ++ others)
    (hlater : Later (n + v.length) ys) (hothers : PlacedFrom (n + v.length) others) :
    Reader.TakesAll ⟨frames, .word digits, .plain, hereDoc⟩ v ∧
      ∃ digits', eventsFrom Prod.fst ⟨frames, .word digits', .plain, hereDoc⟩ ys = others := by
  induction v generalizing n digits with
  | nil => exact ⟨trivial, digits, heq⟩
  | cons c v ih =>
    have hplaced := placedFrom_own hothers false
    rw [List.length_cons, Nat.add_comm v.length 1, ← Nat.add_assoc] at hlater hothers
    by_cases hc : c = 39
    · -- a double quote that is put in would stand in single quotes
      subst hc
      rw [betweenQuotes, if_pos rfl, List.cons_append, List.cons_append, eventsFrom] at heq
      have hadded := emit_of_added heq fun kind => hplaced.notMem 39 kind
      have hcontext := unquoted_of_apostrophe hadded.1
      rw [step_reopen hcontext, eventsFrom] at heq
      have hmem : .char .literal (34, none) ∈
          (ownChars n (39 :: v)).map (.char .literal) ++ others := by
        rw [← heq]
        simp [Reader.step, Reader.single, Reader.part, Emit.events]
      exact absurd hmem (hplaced.notMem 34 .literal)
    · rw [betweenQuotes, if_neg hc] at heq
      have hrest : Later (n + 1) (betweenQuotes (n + 1) v ++ ys) := hlater.betweenQuotes
      have hemit := emit_of_own false heq
        fun kind => hrest.notMem (Nat.lt_succ_self n) _ c kind
      have hliteral : (Reader.step ⟨frames, .word digits, .plain, hereDoc⟩ c).1.kind =
          some .literal := by rw [hemit.1]
      have hkept := (Reader.step_literal hliteral).2
      have hnext := hemit.2
      have hword : ∃ digits', (Reader.step ⟨frames, .word digits, .plain, hereDoc⟩ c).2 =
          ⟨frames, .word digits', .plain, hereDoc⟩ := by
        generalize (Reader.step ⟨frames, .word digits, .plain, hereDoc⟩ c).2 = r' at hkept
        cases hkept with
        | word digits' => exact ⟨digits', rfl⟩
        | single held hmode => cases hmode
      rcases hword with ⟨digits', hword⟩
      rw [hword] at hnext
      rcases ih hnext hlater hothers with ⟨htakes, hend⟩
      rw [Reader.TakesAll, hword]
      exact ⟨⟨hliteral, htakes⟩, hend⟩

/-- A text in a comment of which nothing is read. -/
theorem comment_of_events (hmode : r.mode = .comment) {xs : List Placed}
    (hxs : ∀ x ∈ xs, ∀ kind, .char kind x ∉ eventsFrom Prod.fst r (xs ++ ys)) :
    ∀ x ∈ xs, x.1 ≠ 10 ∧ (.backquotes ∈ r.frames → x.1 ≠ 96) := by
  induction xs with
  | nil =>
    intro x hx
    cases hx
  | cons y xs ih =>
    have hfirst := hxs y List.mem_cons_self
    -- a newline would be an operator, or a document that is not read
    have hline : y.1 ≠ 10 := by
      intro hline
      by_cases hdoc : r.hereDoc = true
      · apply hfirst .unread
        simp [eventsFrom, Reader.step, hmode, hline, Reader.newline, hdoc, Reader.giveUp, Emit.events]
      · apply hfirst .operator
        simp [eventsFrom, Reader.step, hmode, hline, Reader.newline, hdoc, Emit.events]
    have hback : .backquotes ∈ r.frames → y.1 ≠ 96 := by
      intro hback hquote
      apply hfirst .unread
      simp [eventsFrom, Reader.step, hmode, hquote, hback, Reader.giveUp, Emit.events]
    have hstep : r.step y.1 = (⟨false, none⟩, r) := by
      have hback' : ¬ (y.1 = 96 ∧ .backquotes ∈ r.frames) := fun h => hback h.2 h.1
      simp only [Reader.step, hmode, hline, hback', if_false]
    have hrest := ih fun x hx kind hmem => by
      apply hxs x (List.mem_cons_of_mem _ hx) kind
      rw [List.cons_append, eventsFrom, hstep]
      exact List.mem_append_right _ hmem
    intro x hx
    rcases List.mem_cons.mp hx with rfl | hx
    · exact ⟨hline, hback⟩
    · exact hrest x hx

theorem mem_quotedChars {x : Placed} (h : x ∈ ownChars n v) : x ∈ quotedChars n v := by
  have hbetween : x ∈ betweenQuotes n v := by
    induction v generalizing n with
    | nil => cases h
    | cons c v ih =>
      rw [betweenQuotes]
      rcases List.mem_cons.mp h with rfl | hmem
      · split_ifs with hc
        · simp [hc]
        · exact List.mem_cons_self
      · split_ifs
        · simp [ih hmem]
        · exact List.mem_cons_of_mem _ (ih hmem)
  unfold quotedChars
  split_ifs
  · exact h
  · simp [hbetween]

theorem place_of_mem_quotedChars {c : CodePoint} {m : ℕ} (h : (c, some m) ∈ quotedChars n v) :
    m < n + v.length := by
  have hown : (c, some m) ∈ ownChars n v := by
    unfold quotedChars at h
    split_ifs at h
    · exact h
    · apply mem_betweenQuotes
      simpa using h
  rcases mem_ownChars hown with ⟨_, heq, -, hto⟩
  cases heq
  exact hto

/-- A value that is read as it is meant stands for itself. -/
theorem inert_of_events
    (heq : eventsFrom Prod.fst r (quotedChars n v ++ ys) = r.valueEvents n v ++ others)
    (hlater : Later (n + v.length) ys) (hothers : PlacedFrom (n + v.length) others) :
    r.Inert v := by
  unfold Reader.Inert
  unfold Reader.valueEvents at heq
  by_cases hcomment : r.mode = .comment
  · rw [if_pos hcomment] at heq ⊢
    have hnone : ∀ x ∈ quotedChars n v, ∀ kind,
        .char kind x ∉ eventsFrom Prod.fst r (quotedChars n v ++ ys) := by
      rintro ⟨c, place⟩ hx kind hmem
      rw [heq, List.nil_append] at hmem
      rcases hothers kind c place hmem with ⟨m, rfl, hfrom⟩
      have := place_of_mem_quotedChars hx
      omega
    have hchars := comment_of_events hcomment hnone
    have hown : ∀ c ∈ v, ∃ x ∈ quotedChars n v, x.1 = c := by
      intro c hc
      rw [← ownChars_text n v] at hc
      rcases List.mem_map.mp hc with ⟨x, hx, rfl⟩
      exact ⟨x, mem_quotedChars hx, rfl⟩
    constructor
    · intro hmem
      rcases hown 10 hmem with ⟨x, hx, hline⟩
      exact (hchars x hx).1 hline
    · intro hback hmem
      rcases hown 96 hmem with ⟨x, hx, hquote⟩
      exact (hchars x hx).2 hback hquote
  · rw [if_neg hcomment] at heq ⊢
    by_cases hbare : isBare v = true
    · rw [if_pos hbare]
      rw [quotedChars, if_pos hbare] at heq
      exact takesAll_of_events heq hlater
    · rw [if_neg hbare]
      rw [quotedChars, if_neg hbare, List.cons_append, List.append_assoc, List.singleton_append,
        eventsFrom] at heq
      have hplaced := placedFrom_own hothers r.begins
      have hclosing : Later (n + v.length) ((39, none) :: ys) := by
        intro c m hmem
        rcases List.mem_cons.mp hmem with hnone | hmem
        · cases hnone
        · exact hlater c m hmem
      have hquote := emit_of_added heq fun kind => hplaced.notMem 39 kind
      rcases Reader.opens_or_of_apostrophe hquote.1 with hopens | ⟨held, hsingle⟩ | hmode
      · -- the quotes that are put in are open
        have hnot : r.inSingle = false := by
          rcases hopens.2 with hmode | hmode | hmode
          all_goals simp [Reader.inSingle, hmode]
        rw [hnot, if_neg Bool.false_ne_true]
        have hrest := hquote.2
        rw [Reader.step_of_opens hopens, pieceEvents, List.append_assoc] at hrest
        exact ⟨hopens, holdsAll_of_events hopens.1 (List.append_cancel_left hrest) hclosing⟩
      · -- those of the template are closed
        have hin : r.inSingle = true := by simp [Reader.inSingle, hsingle]
        rw [hin, if_pos rfl]
        rcases r with ⟨frames, place, mode, hereDoc⟩
        simp only at hsingle
        subst hsingle
        have hrest := hquote.2
        rw [step_single] at hrest ⊢
        rcases unquoted_of_events hrest hclosing hothers with ⟨htakes, digits, hend⟩
        rw [eventsFrom] at hend
        have hlast := emit_of_added hend fun kind => hothers.notMem 39 kind
        exact ⟨unquoted_of_apostrophe hlast.1, htakes⟩
      · exact absurd hmode hcomment

end Places

/-! ## The two readings -/

theorem later_quotedChars {n : ℕ} {v : Str} {ys : List Placed} (h : Later (n + v.length) ys) :
    Later n (quotedChars n v ++ ys) := by
  unfold quotedChars
  split_ifs
  · exact h.ownChars
  · intro c m hmem
    have hclosing : Later (n + v.length) ((39, none) :: ys) := by
      intro c m hmem
      rcases List.mem_cons.mp hmem with hnone | hmem
      · cases hnone
      · exact h c m hmem
    apply hclosing.betweenQuotes c m
    simpa using hmem

theorem lineChars_later (n : ℕ) (ps : List (Part CodePoint Str)) : Later n (lineChars n ps) := by
  induction ps generalizing n with
  | nil =>
    intro c m hmem
    cases hmem
  | cons p ps ih =>
    cases p with
    | lit c =>
      intro d m hmem
      rcases List.mem_cons.mp hmem with heq | hmem
      · cases heq
        exact le_refl n
      · have := ih (n + 1) d m hmem
        omega
    | value v => exact later_quotedChars (ih (n + v.length))

theorem PlacedFrom.mono {n m : ℕ} {es : List (Event Placed)} (h : PlacedFrom m es) (hn : n ≤ m) :
    PlacedFrom n es := by
  intro kind c place hmem
  rcases h kind c place hmem with ⟨k, hplace, hfrom⟩
  exact ⟨k, hplace, le_trans hn hfrom⟩

theorem placedFrom_intended (r : Reader) (n : ℕ) (ps : List (Part CodePoint Str)) :
    PlacedFrom n (intendedFrom r n ps) := by
  induction ps generalizing r n with
  | nil =>
    intro kind c place hmem
    cases hmem
  | cons p ps ih =>
    cases p with
    | lit c =>
      intro kind d place hmem
      rcases List.mem_append.mp hmem with hmem | hmem
      · have heq := mem_events hmem
        cases heq
        exact ⟨n, rfl, le_refl n⟩
      · rcases ih _ (n + 1) kind d place hmem with ⟨m, hplace, hfrom⟩
        exact ⟨m, hplace, by omega⟩
    | value v =>
      have hrest := ih r.inert (n + v.length)
      unfold intendedFrom Reader.valueEvents
      split_ifs
      · exact hrest.mono (Nat.le_add_right n v.length)
      · exact placedFrom_own hrest r.begins

theorem Shell.Reader.Behind.valueEvents {r r' : Reader} (h : r.Behind r') (n : ℕ) (v : Str) :
    r.valueEvents n v = r'.valueEvents n v := by
  unfold Reader.valueEvents
  rw [h.mode, h.begins]

/-- The line is read as it is meant exactly when every value stands for itself. -/
theorem events_iff {r r' : Reader} (h : r.Behind r') (n : ℕ) (ps : List (Part CodePoint Str)) :
    eventsFrom Prod.fst r' (lineChars n ps) = intendedFrom r n ps ↔ r.Agrees r' ps := by
  induction ps generalizing r r' n with
  | nil => exact iff_of_true rfl trivial
  | cons p ps ih =>
    cases p with
    | lit c =>
      rw [lineChars, eventsFrom, intendedFrom, Reader.Agrees]
      -- the readers may differ in whether digits are a file descriptor, which an operator shows
      rcases h.step c with ⟨hemit, hnext⟩ | ⟨hoperator, hnumbered⟩
      · rw [hemit, List.append_cancel_left_eq, ih hnext (n + 1)]
        exact (and_iff_right rfl).symm
      · rw [hoperator, hnumbered]
        simp [Emit.events]
    | value v =>
      rw [lineChars, intendedFrom, Reader.Agrees]
      have hvalue : r'.Inert v →
          eventsFrom Prod.fst r' (quotedChars n v ++ lineChars (n + v.length) ps) =
            r.valueEvents n v ++
              eventsFrom Prod.fst (r'.after (shlexQuote v)) (lineChars (n + v.length) ps) := by
        intro hinert
        rw [eventsFrom_append, quotedChars_text, (hinert.run n).1, h.valueEvents]
      have hnext : r'.Inert v → r.inert.Behind (r'.after (shlexQuote v)) := by
        intro hinert
        rw [h.inert]
        exact (hinert.run n).2
      constructor
      · intro heq
        have hinert : r'.Inert v := by
          rw [h.valueEvents] at heq
          exact inert_of_events heq (lineChars_later _ ps) (placedFrom_intended _ _ ps)
        rw [hvalue hinert] at heq
        exact ⟨hinert, (ih (hnext hinert) _).mp (List.append_cancel_left heq)⟩
      · rintro ⟨hinert, hrest⟩
        rw [hvalue hinert, (ih (hnext hinert) _).mpr hrest]

theorem Shell.Reader.Behind.complete {r r' : Reader} (h : r.Behind r') :
    r.complete = r'.complete := by
  rcases h with rfl | ⟨-, rfl, -⟩
  · rfl
  · rfl

/-- After the line the reader is where the template leaves it. -/
theorem behind_of_agrees {r r' : Reader} (h : r.Behind r') {ps : List (Part CodePoint Str)}
    (hagrees : r.Agrees r' ps) : (intendedEnd r ps).Behind (r'.after (fill shlexQuote ps)) := by
  induction ps generalizing r r' with
  | nil => exact h
  | cons p ps ih =>
    cases p with
    | lit c =>
      rcases h.step c with htogether | ⟨hoperator, hnumbered⟩
      · exact ih htogether.2 hagrees.2
      · have heq := hagrees.1
        rw [hoperator, hnumbered] at heq
        cases heq
    | value v =>
      have hnext : r.inert.Behind (r'.after (shlexQuote v)) := by
        rw [h.inert]
        exact (hagrees.1.run 0).2
      rw [fill_value, after_append]
      exact ih hnext hagrees.2

/-- Every value stands for itself where it is. -/
def Undisturbed (ps : List (Part CodePoint Str)) : Prop := Reader.start.Agrees .start ps

instance (ps : List (Part CodePoint Str)) : Decidable (Undisturbed ps) :=
  inferInstanceAs (Decidable (Reader.Agrees _ _ ps))

/-- The line is read as it is meant exactly when every value stands for itself. -/
theorem readsAlike_iff (ps : List (Part CodePoint Str)) : ReadsAlike ps ↔ Undisturbed ps := by
  have hstart : Reader.start.Behind .start := Or.inl rfl
  unfold ReadsAlike readingOf intendedReading
  rw [Prod.mk.injEq, events_iff hstart, lineChars_text]
  constructor
  · exact And.left
  · intro h
    exact ⟨h, (behind_of_agrees hstart h).complete.symm⟩

/-! ## Texts -/

/-- What a character is read as, without its place. -/
def Shell.Event.text : Event Placed → Event CodePoint
  | .begins => .begins
  | .char kind x => .char kind x.1

theorem events_text (e : Emit) (x : Placed) : e.events x.1 = (e.events x).map Event.text := by
  rcases e with ⟨begins, kind⟩
  cases begins <;> cases kind <;> rfl

theorem eventsFrom_text (r : Reader) (xs : List Placed) :
    eventsFrom id r (xs.map Prod.fst) = (eventsFrom Prod.fst r xs).map Event.text := by
  induction xs generalizing r with
  | nil => rfl
  | cons x xs ih =>
    rw [List.map_cons, eventsFrom, ih, eventsFrom, List.map_append, ← events_text]
    rfl

/-- What a shell reads of a line, and whether it is complete. -/
def shellReads (line : Str) : List (Event CodePoint) × Bool :=
  (eventsFrom id .start line, (Reader.start.after line).complete)

theorem shellReads_of_readsAlike {ps : List (Part CodePoint Str)} (h : ReadsAlike ps) :
    shellReads (fill shlexQuote ps) =
      ((intendedReading ps).1.map Event.text, (intendedReading ps).2) := by
  unfold ReadsAlike readingOf at h
  rw [← h, lineChars_text, ← eventsFrom_text, lineChars_text]
  rfl

end AutoHeal
