import AutoHeal.Python.Shlex

/-!
# What becomes of each character

`shlex.split`, for characters that carry more than their code point and for pieces that have no
meaning to it: each is kept, or is a quote or an escape, or ends a word. On plain texts
`splitWords` is `shlexSplit`.
-/

namespace AutoHeal

/-- What becomes of a character: it joins a word, it is a quote or an escape, or it ends a word. -/
inductive WordRole where
  | kept
  | gone
  | cut
  deriving DecidableEq

/-! ## One character -/

namespace ShlexState

/-- What becomes of a code point, or of a piece without a meaning, by what comes after it. A
backslash in double quotes is an escape before a backslash and a quote. -/
def role : ShlexState → Option CodePoint → Option CodePoint → WordRole
  | .between, some c, _ | .word, some c, _ =>
    if isShlexSpace c then .cut else if c = 92 ∨ c = 39 ∨ c = 34 then .gone else .kept
  | .quoted quote, some c, next =>
    if c = quote then .gone
    else if (c = 92 ∧ quote = 34) ∧ (next = some 92 ∨ next = some quote) then .gone
    else .kept
  | _, _, _ => .kept

/-- The state afterwards. -/
def next : ShlexState → Option CodePoint → ShlexState
  | .between, some c | .word, some c =>
    if isShlexSpace c then .between
    else if c = 92 then .escaped none
    else if c = 39 ∨ c = 34 then .quoted c
    else .word
  | .quoted quote, some c =>
    if c = quote then .word else if c = 92 ∧ quote = 34 then .escaped (some quote) else .quoted quote
  | .quoted quote, none | .escaped (some quote), _ => .quoted quote
  | .between, none | .word, none | .escaped none, _ => .word

end ShlexState

/-! ## Words -/

section Words

variable {α : Type} (code : α → Option CodePoint)

/-- The words of the rest of a text. `token` is what has been read of a word, and `begun` says that
there is one. -/
def wordsFrom : ShlexState → (token : List α) → (begun : Bool) → List α → List (List α)
  | _, token, begun, [] => if begun then [token] else []
  | st, token, begun, x :: xs =>
    match st.role (code x) (xs.head?.bind code) with
    | .kept => wordsFrom (st.next (code x)) (token ++ [x]) true xs
    | .gone => wordsFrom (st.next (code x)) token true xs
    | .cut => (if begun then [token] else []) ++ wordsFrom (st.next (code x)) [] false xs

/-- The state after a text. -/
def stateAfter (st : ShlexState) (xs : List α) : ShlexState :=
  xs.foldl (fun st x => st.next (code x)) st

/-- The words of a text that ends in a state, or the text of a `ValueError`. -/
def wordsAt (words : List (List α)) : ShlexState → Except Str (List (List α))
  | .quoted _ => .error (py "No closing quotation")
  | .escaped _ => .error (py "No escaped character")
  | .between | .word => .ok words

/-- The words of a text. -/
def splitWords (xs : List α) : Except Str (List (List α)) :=
  wordsAt (wordsFrom code .between [] false xs) (stateAfter code .between xs)

end Words

/-! ## Other characters with the same code points -/

section Map

variable {α β : Type} {code : α → Option CodePoint} {code' : β → Option CodePoint} {f : α → β}

theorem wordsFrom_map (h : ∀ x, code' (f x) = code x) (st : ShlexState) (token : List α)
    (begun : Bool) (xs : List α) :
    wordsFrom code' st (token.map f) begun (xs.map f) =
      (wordsFrom code st token begun xs).map (List.map f) := by
  induction xs generalizing st token begun with
  | nil => cases begun <;> simp [wordsFrom]
  | cons x xs ih =>
    have hhead : (xs.map f).head?.bind code' = xs.head?.bind code := by
      cases xs with
      | nil => rfl
      | cons x xs => simp [h]
    rw [List.map_cons]
    unfold wordsFrom
    rw [hhead, h]
    cases st.role (code x) (xs.head?.bind code) with
    | kept => simpa using ih (st.next (code x)) (token ++ [x]) true
    | gone => exact ih (st.next (code x)) token true
    | cut =>
      have hrest := ih (st.next (code x)) [] false
      cases begun <;> simpa using hrest

/-- What a character carries besides its code point plays no part. -/
theorem splitWords_map (h : ∀ x, code' (f x) = code x) (xs : List α) :
    splitWords code' (xs.map f) = (splitWords code xs).map (List.map (List.map f)) := by
  have hstate : stateAfter code' .between (xs.map f) = stateAfter code .between xs := by
    unfold stateAfter
    simp [List.foldl_map, h]
  have hwords := wordsFrom_map h .between [] false xs
  rw [List.map_nil] at hwords
  unfold splitWords
  rw [hstate, hwords]
  cases stateAfter code .between xs <;> rfl

end Map

/-! ## Plain texts -/

/-- The word that is being read, with a backslash in double quotes that turns out to be kept. -/
def ShlexState.pending (st : ShlexState) (token : Str) (s : Str) : Str :=
  match st with
  | .escaped (some quote) =>
    if s.head? = some 92 ∨ s.head? = some quote then token else token ++ [92]
  | _ => token

/-- There is a word that is being read. -/
def ShlexState.begun (st : ShlexState) (token : Str) (quotes : Bool) : Bool :=
  match st with
  | .between | .word => token ≠ [] ∨ quotes = true
  | .quoted _ | .escaped _ => true

theorem wordsAt_append {α : Type} (before words : List (List α)) (st : ShlexState) :
    wordsAt (before ++ words) st = (wordsAt words st).map (before ++ ·) := by
  cases st <;> rfl

/-- The two readings are the same, from any state on. -/
theorem shlexFrom_eq (st : ShlexState) (token : Str) (quotes : Bool) (s : Str) :
    shlexFrom st token quotes s =
      wordsAt (wordsFrom some st (st.pending token s) (st.begun token quotes) s)
        (stateAfter some st s) := by
  induction s generalizing st token quotes with
  | nil =>
    cases st with
    | between | word =>
      simp [shlexFrom, wordsFrom, stateAfter, wordsAt, ShlexState.pending, ShlexState.begun]
    | quoted | escaped => rfl
  | cons c s ih =>
    have hafter : ∀ st, stateAfter some st (c :: s) = stateAfter some (st.next (some c)) s :=
      fun _ => rfl
    rw [hafter]
    cases st with
    | between | word =>
      simp only [shlexFrom, wordsFrom, ShlexState.pending, ShlexState.role, ShlexState.next]
      by_cases hspace : isShlexSpace c = true
      · -- the word ends
        simp only [hspace, if_true, ih, wordsAt_append]
        by_cases hword : token ≠ [] ∨ quotes = true
        · simp [ShlexState.pending, ShlexState.begun, hword]
        · simp [ShlexState.pending, ShlexState.begun, hword]
      · by_cases hbackslash : c = 92
        · subst hbackslash
          simp [hspace, ih, ShlexState.pending, ShlexState.begun]
        · by_cases hquote : c = 39 ∨ c = 34
          · simp [hspace, hbackslash, hquote, ih, ShlexState.pending, ShlexState.begun]
          · simp [hspace, hbackslash, hquote, ih, ShlexState.pending, ShlexState.begun]
    | quoted quote =>
      simp only [shlexFrom, wordsFrom, ShlexState.pending, ShlexState.role, ShlexState.next]
      by_cases hclose : c = quote
      · simp [hclose, ih, ShlexState.pending, ShlexState.begun]
      · by_cases hbackslash : c = 92 ∧ quote = 34
        · -- what comes after the backslash says what becomes of it
          rcases hbackslash with ⟨rfl, rfl⟩
          by_cases hnext : s.head? = some 92 ∨ s.head? = some 34
          · simp [hclose, hnext, ih, ShlexState.pending, ShlexState.begun]
          · simp [hclose, hnext, ih, ShlexState.pending, ShlexState.begun]
        · simp [hclose, hbackslash, ih, ShlexState.pending, ShlexState.begun]
    | escaped quote =>
      rcases quote with _ | quote
      · simp [shlexFrom, wordsFrom, ih, ShlexState.pending, ShlexState.role, ShlexState.next,
          ShlexState.begun]
      · by_cases hescaped : c = 92 ∨ c = quote
        · simp [shlexFrom, wordsFrom, ih, ShlexState.pending, ShlexState.role, ShlexState.next,
            ShlexState.begun, hescaped]
        · simp [shlexFrom, wordsFrom, ih, ShlexState.pending, ShlexState.role, ShlexState.next,
            ShlexState.begun, hescaped]

theorem splitWords_some (s : Str) : splitWords some s = shlexSplit s :=
  (shlexFrom_eq .between [] false s).symm

/-! ## Ordinary texts -/

/-- The quotes are those of `shlex`. -/
def ShlexState.IsProper : ShlexState → Prop
  | .quoted quote | .escaped (some quote) => quote = 39 ∨ quote = 34
  | _ => True

theorem ShlexState.IsProper.next {st : ShlexState} (h : st.IsProper) (code : Option CodePoint) :
    (st.next code).IsProper := by
  rcases code with _ | c
  · rcases st with _ | _ | quote | (_ | quote)
    · trivial
    · trivial
    · exact h
    · trivial
    · exact h
  · rcases st with _ | _ | quote | (_ | quote)
    · simp only [ShlexState.next]
      split_ifs with _ _ hquote
      · trivial
      · trivial
      · exact hquote
      · trivial
    · simp only [ShlexState.next]
      split_ifs with _ _ hquote
      · trivial
      · trivial
      · exact hquote
      · trivial
    -- in quotes the closing one ends them, and any other character stays in them
    · simp only [ShlexState.next]
      split_ifs
      · trivial
      · exact h
      · exact h
    · trivial
    · exact h

/-- An ordinary code point is read like a piece without a meaning. -/
theorem ShlexState.next_ordinary {st : ShlexState} (hst : st.IsProper) {c : CodePoint}
    (hc : isShlexOrdinary c = true) (ahead : Option CodePoint) :
    st.role (some c) ahead = .kept ∧ st.next (some c) = st.next none := by
  simp only [isShlexOrdinary, Bool.and_eq_true, Bool.not_eq_true', bne_iff_ne, ne_eq] at hc
  rcases hc with ⟨⟨⟨hspace, hbackslash⟩, hsingle⟩, hdouble⟩
  rcases st with _ | _ | quote | (_ | quote)
  · simp [role, next, hspace, hbackslash, hsingle, hdouble]
  · simp [role, next, hspace, hbackslash, hsingle, hdouble]
  · rcases hst with rfl | rfl
    all_goals simp [role, next, hbackslash, hsingle, hdouble]
  · exact ⟨rfl, rfl⟩
  · exact ⟨rfl, rfl⟩

theorem ShlexState.next_next_none (st : ShlexState) : (st.next none).next none = st.next none := by
  rcases st with _ | _ | _ | (_ | _) <;> rfl

/-- So is an ordinary text. -/
theorem wordsFrom_ordinary {st : ShlexState} (hst : st.IsProper) {s : Str} (hne : s ≠ [])
    (hs : s.all isShlexOrdinary = true) (token : Str) (begun : Bool) (rest : Str) :
    wordsFrom some st token begun (s ++ rest) =
        wordsFrom some (st.next none) (token ++ s) true rest ∧
      stateAfter some st (s ++ rest) = stateAfter some (st.next none) rest := by
  induction s generalizing st token begun with
  | nil => exact absurd rfl hne
  | cons c s ih =>
    rw [List.all_cons, Bool.and_eq_true] at hs
    have hc := st.next_ordinary hst hs.1
    have hstep : wordsFrom some st token begun (c :: (s ++ rest)) =
        wordsFrom some (st.next none) (token ++ [c]) true (s ++ rest) := by
      rw [wordsFrom, (hc _).1, (hc none).2]
    have hafter : stateAfter some st (c :: (s ++ rest)) =
        stateAfter some (st.next none) (s ++ rest) := by
      rw [← (hc none).2]
      rfl
    rw [List.cons_append, hstep, hafter]
    by_cases hlast : s = []
    · subst hlast
      exact ⟨rfl, rfl⟩
    · have hrest := ih (hst.next none) hlast hs.2 (token ++ [c]) true
      rw [st.next_next_none, List.append_assoc] at hrest
      exact hrest

end AutoHeal
