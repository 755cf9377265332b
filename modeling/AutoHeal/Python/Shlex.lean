import AutoHeal.Python.Str

/-!
# `shlex`

`shlex.quote` and `shlex.split`, the second as the state machine that reads words in POSIX mode
and splits at whitespace only. `shlexSplit_unwords` says that quoted words are split as they are.
-/

namespace AutoHeal

/-! ## Quoting -/

/-- The code points a word may have without quotes: ASCII letters and digits, the slash and
`_@%+=:,.-`. -/
def isShellSafe (c : CodePoint) : Bool :=
  isDigit c || (65 ≤ c.val && c.val ≤ 90) || (97 ≤ c.val && c.val ≤ 122) || c == 47 ||
    (py "_@%+=:,.-").contains c

/-- `shlex.quote(s)`. -/
def shlexQuote (s : Str) : Str :=
  if s = [] then py "''"
  else if s.all isShellSafe then s
  else 39 :: ((s.flatMap fun c => if c = 39 then py "'\"'\"'" else [c]) ++ [39])

/-! ## Splitting -/

/-- Between words, in a word, inside quotes, or after a backslash; then with the state to go
back to. -/
inductive ShlexState where
  | between
  | word
  | quoted (quote : CodePoint)
  | escaped (quote : Option CodePoint)

/-- The whitespace of `shlex`. -/
def isShlexSpace (c : CodePoint) : Bool := c == 32 || c == 9 || c == 13 || c == 10

/-- The words of the rest of a text, or the text of a `ValueError`. `token` is what has been read
of a word, and `quotes` says that the word had quotes. -/
def shlexFrom : ShlexState → (token : Str) → (quotes : Bool) → Str → Except Str (List Str)
  | .between, token, quotes, [] | .word, token, quotes, [] =>
    .ok (if token ≠ [] ∨ quotes = true then [token] else [])
  | .quoted _, _, _, [] => .error (py "No closing quotation")
  | .escaped _, _, _, [] => .error (py "No escaped character")
  | .between, token, quotes, c :: cs | .word, token, quotes, c :: cs =>
    if isShlexSpace c then
      (shlexFrom .between [] false cs).map fun words =>
        if token ≠ [] ∨ quotes = true then token :: words else words
    else if c = 92 then shlexFrom (.escaped none) token quotes cs
    else if c = 39 ∨ c = 34 then shlexFrom (.quoted c) token quotes cs
    else shlexFrom .word (token ++ [c]) quotes cs
  | .quoted quote, token, _, c :: cs =>
    if c = quote then shlexFrom .word token true cs
    else if c = 92 ∧ quote = 34 then shlexFrom (.escaped (some quote)) token true cs
    else shlexFrom (.quoted quote) (token ++ [c]) true cs
  | .escaped none, token, quotes, c :: cs => shlexFrom .word (token ++ [c]) quotes cs
  | .escaped (some quote), token, quotes, c :: cs =>
    -- inside quotes a backslash escapes the quote and itself
    if c = 92 ∨ c = quote then shlexFrom (.quoted quote) (token ++ [c]) quotes cs
    else shlexFrom (.quoted quote) (token ++ [92, c]) quotes cs

/-- `shlex.split(s)`. -/
def shlexSplit (s : Str) : Except Str (List Str) := shlexFrom .between [] false s

/-! ## Quoted words are split as they are -/

/-- What a word in quotes has inside them. -/
def quotedText (s : Str) : Str := s.flatMap fun c => if c = 39 then py "'\"'\"'" else [c]

/-- A code point that is an ordinary one outside quotes. -/
def isShlexOrdinary (c : CodePoint) : Bool := !isShlexSpace c && c != 92 && c != 39 && c != 34

theorem isShlexOrdinary_of_isShellSafe {c : CodePoint} (h : isShellSafe c = true) :
    isShlexOrdinary c = true := by
  by_contra hnot
  have hmem : c = 32 ∨ c = 9 ∨ c = 13 ∨ c = 10 ∨ c = 92 ∨ c = 39 ∨ c = 34 := by
    simp [isShlexOrdinary, isShlexSpace] at hnot
    tauto
  rcases hmem with rfl | rfl | rfl | rfl | rfl | rfl | rfl <;> exact absurd h (by decide)

/-- The states outside quotes. -/
def ShlexState.IsUnquoted : ShlexState → Prop
  | .between | .word => True
  | _ => False

/-- Outside quotes an ordinary code point joins the word. -/
theorem shlexFrom_ordinary {st : ShlexState} (hst : st.IsUnquoted) {c : CodePoint}
    (hc : isShlexOrdinary c = true) (token : Str) (quotes : Bool) (cs : Str) :
    shlexFrom st token quotes (c :: cs) = shlexFrom .word (token ++ [c]) quotes cs := by
  simp only [isShlexOrdinary, Bool.and_eq_true, Bool.not_eq_true', bne_iff_ne, ne_eq] at hc
  rcases hc with ⟨⟨⟨hspace, hbackslash⟩, hsingle⟩, hdouble⟩
  cases st with
  | between | word => simp [shlexFrom, hspace, hbackslash, hsingle, hdouble]
  | quoted | escaped => exact hst.elim

theorem shlexFrom_safe {s : Str} (hsafe : s.all isShellSafe = true) (token : Str) (quotes : Bool)
    (rest : Str) :
    shlexFrom .word token quotes (s ++ rest) = shlexFrom .word (token ++ s) quotes rest := by
  induction s generalizing token with
  | nil => rw [List.nil_append, List.append_nil]
  | cons c s ih =>
    simp only [List.all_cons, Bool.and_eq_true] at hsafe
    have hword : ShlexState.word.IsUnquoted := trivial
    have hc := isShlexOrdinary_of_isShellSafe hsafe.1
    rw [List.cons_append, shlexFrom_ordinary hword hc token quotes (s ++ rest), ih hsafe.2,
      List.append_assoc, List.singleton_append]

/-- Inside single quotes. -/
theorem shlexFrom_quotedText (s token : Str) (quotes : Bool) (rest : Str) :
    shlexFrom (.quoted 39) token quotes (quotedText s ++ 39 :: rest) =
      shlexFrom .word (token ++ s) true rest := by
  induction s generalizing token quotes with
  | nil => simp [quotedText, shlexFrom]
  | cons c s ih =>
    by_cases hc : c = 39
    · -- the quotes are closed, the apostrophe stands in double quotes, and they are opened again
      subst hc
      have hquotes : py "'\"'\"'" = [39, 34, 39, 34, 39] := rfl
      have happend : token ++ 39 :: s = token ++ [39] ++ s := by simp
      rw [happend, ← ih (token ++ [39]) true]
      simp [quotedText, shlexFrom, hquotes, isShlexSpace]
    · have happend : token ++ c :: s = token ++ [c] ++ s := by simp
      rw [happend, ← ih (token ++ [c]) true]
      simp [quotedText, shlexFrom, hc]

/-- A quoted word joins the word that is being read, which there is afterwards. -/
theorem shlexFrom_shlexQuote {st : ShlexState} (hst : st.IsUnquoted) (s token : Str) (quotes : Bool)
    (rest : Str) :
    ∃ quotes', (token ++ s ≠ [] ∨ quotes' = true) ∧
      shlexFrom st token quotes (shlexQuote s ++ rest) = shlexFrom .word (token ++ s) quotes' rest := by
  unfold shlexQuote
  by_cases hs : s = []
  · subst hs
    have hquotes : py "''" = [39, 39] := rfl
    refine ⟨true, Or.inr rfl, ?_⟩
    cases st with
    | between | word => simp [shlexFrom, hquotes, isShlexSpace]
    | quoted | escaped => exact hst.elim
  · by_cases hsafe : s.all isShellSafe = true
    -- a safe word is written bare, an empty one as two quotes, the rest in quotes
    · refine ⟨quotes, Or.inl (by simp [hs]), ?_⟩
      rw [if_neg hs, if_pos hsafe]
      cases s with
      | nil => exact absurd rfl hs
      | cons c s =>
        simp only [List.all_cons, Bool.and_eq_true] at hsafe
        rw [List.cons_append,
          shlexFrom_ordinary hst (isShlexOrdinary_of_isShellSafe hsafe.1) token quotes (s ++ rest),
          shlexFrom_safe hsafe.2, List.append_assoc, List.singleton_append]
    · refine ⟨true, Or.inr rfl, ?_⟩
      rw [if_neg hs, if_neg hsafe]
      have hopen : shlexFrom st token quotes (39 :: (quotedText s ++ 39 :: rest)) =
          shlexFrom (.quoted 39) token quotes (quotedText s ++ 39 :: rest) := by
        cases st with
        | between | word => simp [shlexFrom, isShlexSpace]
        | quoted | escaped => exact hst.elim
      rw [← shlexFrom_quotedText s token quotes rest, ← hopen]
      simp [quotedText]

/-- Words that are quoted and joined by spaces are split as they are. -/
theorem shlexSplit_unwords (words : List Str) :
    shlexSplit (List.intercalate [32] (words.map shlexQuote)) = .ok words := by
  have hbetween : ShlexState.between.IsUnquoted := trivial
  unfold shlexSplit
  induction words with
  | nil => simp [List.intercalate, shlexFrom]
  | cons s words ih =>
    cases words with
    | nil =>
      rcases shlexFrom_shlexQuote hbetween s [] false [] with ⟨quotes, hword, hread⟩
      simp only [List.append_nil, List.nil_append] at hword hread
      simp [List.intercalate, hread, shlexFrom, hword]
    | cons t words =>
      have hline : List.intercalate [32] ((s :: t :: words).map shlexQuote) =
          shlexQuote s ++ 32 :: List.intercalate [32] ((t :: words).map shlexQuote) := by
        simp [List.intercalate]
      rcases shlexFrom_shlexQuote hbetween s [] false
        (32 :: List.intercalate [32] ((t :: words).map shlexQuote)) with ⟨quotes, hword, hread⟩
      rw [List.nil_append] at hword hread
      rw [hline, hread]
      simp only [shlexFrom, ih]
      simp [isShlexSpace, hword, Except.map]

end AutoHeal
