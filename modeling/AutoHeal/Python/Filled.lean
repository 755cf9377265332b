import Mathlib.Data.List.Flatten
import AutoHeal.Lib.Template
import AutoHeal.Python.Words

/-!
# Filled templates, split

What `shlex.split` makes of a template before and after values are put in: the words of the template
with the values as pieces without a meaning, and the words of the text. `verbatim_iff` says when
they are the same, every character at its place.
-/

namespace AutoHeal

deriving instance DecidableEq for ShlexState

/-- The code point of a part. A value is a piece without a meaning. -/
def Part.code {V : Type} : Part CodePoint V → Option CodePoint
  | .lit c => some c
  | .value _ => none

/-- The parts, each with its characters and their places. -/
abbrev PlacedPart := Part CodePoint Str × List (CodePoint × ℕ)

def PlacedPart.code (p : PlacedPart) : Option CodePoint := p.1.code

@[simp] theorem PlacedPart.code_lit (c : CodePoint) (xs : List (CodePoint × ℕ)) :
    PlacedPart.code (.lit c, xs) = some c := rfl

/-- The code point of a placed character. -/
def placedCode (x : CodePoint × ℕ) : Option CodePoint := some x.1

@[simp] theorem placedCode_mk (c : CodePoint) (n : ℕ) : placedCode (c, n) = some c := rfl

/-- The words of a template, then with the values put in. -/
def intendedWords (ps : List (Part CodePoint Str)) : Except Str (List (List (CodePoint × ℕ))) :=
  (splitWords PlacedPart.code (place id 0 ps)).map fun words => words.map (·.flatMap (·.2))

/-- The words of the text with the values put in. -/
def actualWords (ps : List (Part CodePoint Str)) : Except Str (List (List (CodePoint × ℕ))) :=
  splitWords placedCode ((fill id ps).zipIdx)

/-- The values change no word but by standing in it. -/
def Verbatim (ps : List (Part CodePoint Str)) : Prop :=
  ∃ words, intendedWords ps = .ok words ∧ actualWords ps = .ok words

/-! ## When values are read as they are -/

namespace ShlexState

/-- The state takes the character as it is. -/
def Takes : ShlexState → CodePoint → Prop
  | .between, c | .word, c => isShlexOrdinary c = true
  | .quoted quote, c => c ≠ quote
  | .escaped none, _ => True
  | .escaped (some quote), c => c ≠ 92 ∧ c ≠ quote

instance : (st : ShlexState) → (c : CodePoint) → Decidable (st.Takes c)
  | .between, c | .word, c => inferInstanceAs (Decidable (isShlexOrdinary c = true))
  | .quoted quote, c => inferInstanceAs (Decidable (c ≠ quote))
  | .escaped none, _ => .isTrue trivial
  | .escaped (some quote), c => inferInstanceAs (Decidable (c ≠ 92 ∧ c ≠ quote))

/-- All of a value is taken as it is. -/
def TakesAll : ShlexState → Str → Prop
  | _, [] => True
  | st, c :: cs => st.Takes c ∧ (st.next (some c)).TakesAll cs

instance decidableTakesAll : (st : ShlexState) → (v : Str) → Decidable (st.TakesAll v)
  | _, [] => .isTrue trivial
  | st, c :: cs =>
    have := decidableTakesAll (st.next (some c)) cs
    inferInstanceAs (Decidable (st.Takes c ∧ (st.next (some c)).TakesAll cs))

/-- The character is read alike: a backslash before it that only the second state is after does not
change it. -/
def Agree (S A : ShlexState) (c : CodePoint) : Prop := S = A ∨ A = between ∨ S.Takes c ∧ A.Takes c

instance (S A : ShlexState) (c : CodePoint) : Decidable (S.Agree A c) :=
  inferInstanceAs (Decidable (S = A ∨ A = between ∨ S.Takes c ∧ A.Takes c))

instance : (st : ShlexState) → Decidable st.IsUnquoted
  | .between | .word => .isTrue trivial
  | .quoted _ | .escaped _ => .isFalse id

/-- Every value is taken as it is, and what follows is read alike. The first state is that of the
template, the second that of the text. -/
def Kept : ShlexState → ShlexState → List (Part CodePoint Str) → Prop
  | S, A, [] => S.IsUnquoted ∧ A.IsUnquoted
  | S, A, .lit c :: ps => S.Agree A c ∧ Kept (S.next (some c)) (A.next (some c)) ps
  | S, A, .value v :: ps => A.TakesAll v ∧ Kept (S.next none) (stateAfter some A v) ps

instance decidableKept : (S A : ShlexState) → (ps : List (Part CodePoint Str)) →
    Decidable (Kept S A ps)
  | S, A, [] => inferInstanceAs (Decidable (S.IsUnquoted ∧ A.IsUnquoted))
  | S, A, .lit c :: ps =>
    have := decidableKept (S.next (some c)) (A.next (some c)) ps
    inferInstanceAs (Decidable (S.Agree A c ∧ Kept (S.next (some c)) (A.next (some c)) ps))
  | S, A, .value v :: ps =>
    have := decidableKept (S.next none) (stateAfter some A v) ps
    inferInstanceAs (Decidable (A.TakesAll v ∧ Kept (S.next none) (stateAfter some A v) ps))

/-- No word has only empty values. -/
def Lasts : ShlexState → ShlexState → List (Part CodePoint Str) → Prop
  | S, A, [] => ¬ (S = word ∧ A = between)
  | S, A, .lit c :: ps =>
    ¬ ((S = word ∧ A = between) ∧ isShlexSpace c = true) ∧
      Lasts (S.next (some c)) (A.next (some c)) ps
  | S, A, .value v :: ps => Lasts (S.next none) (stateAfter some A v) ps

instance decidableLasts : (S A : ShlexState) → (ps : List (Part CodePoint Str)) →
    Decidable (Lasts S A ps)
  | S, A, [] => inferInstanceAs (Decidable (¬ (S = word ∧ A = between)))
  | S, A, .lit c :: ps =>
    have := decidableLasts (S.next (some c)) (A.next (some c)) ps
    inferInstanceAs (Decidable (¬ ((S = word ∧ A = between) ∧ isShlexSpace c = true) ∧
      Lasts (S.next (some c)) (A.next (some c)) ps))
  | S, A, .value v :: ps =>
    have := decidableLasts (S.next none) (stateAfter some A v) ps
    inferInstanceAs (Decidable (Lasts (S.next none) (stateAfter some A v) ps))

/-! ## One character in both readings -/

/-- What comes after a backslash in double quotes is nothing that it escapes. -/
def Ahead (A : ShlexState) (text : Str) : Prop :=
  ∀ quote, A = .escaped (some quote) → text.head? ≠ some 92 ∧ text.head? ≠ some quote

theorem ahead_of_unescaped {A : ShlexState} (hA : ∀ quote, A ≠ .escaped (some quote)) (text : Str) :
    A.Ahead text := by
  intro quote h
  exact absurd h (hA quote)

/-- A character stays, with what comes after it, exactly when it is taken. -/
theorem takes_iff (A : ShlexState) (c : CodePoint) (text : Str) :
    A.role (some c) text.head? = .kept ∧ A.Ahead (c :: text) ↔
      A.Takes c ∧ (A.next (some c)).Ahead text := by
  cases A with
  | between | word =>
    by_cases hspace : isShlexSpace c = true
    · simp [role, Takes, isShlexOrdinary, hspace]
    · by_cases hspecial : c = 92 ∨ c = 39 ∨ c = 34
      · rcases hspecial with rfl | rfl | rfl
        all_goals simp [role, Takes, isShlexOrdinary, isShlexSpace]
      · have hspecial' : c ≠ 92 ∧ c ≠ 39 ∧ c ≠ 34 := by tauto
        simp [role, Takes, isShlexOrdinary, next, hspace, hspecial', Ahead]
  | quoted quote =>
    by_cases hclose : c = quote
    · simp [role, Takes, hclose]
    · by_cases hbackslash : c = 92 ∧ quote = 34
      · -- a backslash stays unless it escapes what comes next
        rcases hbackslash with ⟨rfl, rfl⟩
        simp [role, Takes, next, Ahead]
      · simp [role, Takes, next, Ahead, hclose, hbackslash]
  | escaped quote =>
    rcases quote with _ | quote
    · simp [role, Takes, next, Ahead]
    · simp [role, Takes, next, Ahead]

/-! ## The two states -/

/-- The states a template and its text can be in. The text may not have begun the word yet, or may
be after a backslash still. -/
inductive Behind : ShlexState → ShlexState → Prop
  | same (st : ShlexState) : Behind st st
  | unstarted : Behind word between
  | escape : Behind word (escaped none)
  | escapeQuoted (quote : CodePoint) : Behind (quoted quote) (escaped (some quote))

theorem Behind.next_none {S A : ShlexState} (h : Behind S A) : Behind (S.next none) A := by
  cases h with
  | same =>
    rcases S with _ | _ | _ | (_ | _)
    · exact .unstarted
    · exact .same _
    · exact .same _
    · exact .escape
    · exact .escapeQuoted _
  | unstarted => exact .unstarted
  | escape => exact .escape
  | escapeQuoted => exact .escapeQuoted _

/-- Outside quotes what is taken joins the word. -/
theorem next_of_takes (st : ShlexState) (hst : st.IsUnquoted) {c : CodePoint} (hc : st.Takes c) :
    st.next (some c) = word := by
  cases st with
  | between | word =>
    simp only [Takes, isShlexOrdinary, Bool.and_eq_true, Bool.not_eq_true', bne_iff_ne, ne_eq] at hc
    simp [next, hc]
  | quoted | escaped => exact hst.elim

/-- A character that is taken leaves the states as they have to be for values. -/
theorem Behind.takes {S A : ShlexState} (h : Behind S A) (hinert : S.next none = S) {c : CodePoint}
    (hc : A.Takes c) : Behind S (A.next (some c)) := by
  cases h with
  | same =>
    rcases S with _ | _ | quote | (_ | _)
    · cases hinert
    · rw [next_of_takes word trivial hc]
      exact .same _
    · have hopen : c ≠ quote := hc
      by_cases hbackslash : c = 92 ∧ quote = 34
      · rcases hbackslash with ⟨rfl, rfl⟩
        exact .escapeQuoted 34
      · simp only [next, hopen, hbackslash, if_false]
        exact .same _
    · cases hinert
    · cases hinert
  | unstarted =>
    rw [next_of_takes between trivial hc]
    exact .same _
  | escape => exact .same _
  | escapeQuoted => exact .same _

/-- After a value that is taken. -/
theorem Behind.value {S A : ShlexState} (h : Behind S A) {v : Str} (hv : A.TakesAll v) :
    Behind (S.next none) (stateAfter some A v) := by
  have hnext := h.next_none
  have hinert := next_next_none S
  revert hnext hinert
  generalize S.next none = S'
  intro hnext hinert
  clear h
  induction v generalizing A with
  | nil => exact hnext
  | cons c v ih => exact ih hv.2 (hnext.takes hinert hv.1)

/-- After a character that is read alike. -/
theorem Behind.lit {S A : ShlexState} (h : Behind S A) {c : CodePoint} (hc : S.Agree A c) :
    Behind (S.next (some c)) (A.next (some c)) := by
  cases h with
  | same => exact .same _
  | unstarted => exact .same _
  | escape =>
    rcases hc with hsame | hsame | ⟨hc, -⟩
    · cases hsame
    · cases hsame
    · rw [next_of_takes word trivial hc]
      exact .same _
  | escapeQuoted =>
    rcases hc with hsame | hsame | ⟨hc, hc'⟩
    · cases hsame
    · cases hsame
    · have hopen : c ≠ _ := hc
      simp only [next, hopen, hc'.1, false_and, if_false]
      exact .same _

/-- The rest of the template begins with a value. -/
def StartsValue (ps : List (Part CodePoint Str)) : Prop := ∃ v qs, ps = .value v :: qs

/-- Where the states differ or a value follows, no backslash is taken to escape what follows. -/
def Clear (S A : ShlexState) (ps : List (Part CodePoint Str)) : Prop :=
  S ≠ A ∨ StartsValue ps → A.Ahead (fill id ps)

theorem Kept.clear {S A : ShlexState} (h : Behind S A) {ps : List (Part CodePoint Str)}
    (hkept : Kept S A ps) : Clear S A ps := by
  intro hwhere
  rintro quote rfl
  have hstate : S.next none = quoted quote := by
    cases h with
    | same => rfl
    | escapeQuoted => rfl
  induction ps generalizing S with
  | nil => simp
  | cons p ps ih =>
    cases p with
    | lit c =>
      rcases hkept.1 with rfl | hsame | ⟨-, hc⟩
      · -- the states are the same, and it is no value that follows
        rcases hwhere with hne | ⟨v, qs, hvalue⟩
        · exact absurd rfl hne
        · cases hvalue
      · cases hsame
      · simpa [Takes] using hc
    | value v =>
      rcases hkept with ⟨hv, hrest⟩
      cases v with
      | nil =>
        rw [hstate] at hrest
        exact ih (.escapeQuoted quote) hrest (Or.inl (by simp)) rfl
      | cons c v => simpa [Takes] using hv.1

/-- The role of a character depends on what comes next only after a backslash in double quotes. -/
theorem role_congr {st : ShlexState} {code : Option CodePoint} {ahead ahead' : Option CodePoint}
    (h : ∀ quote, st.next code = escaped (some quote) →
      (ahead = some 92 ∨ ahead = some quote ↔ ahead' = some 92 ∨ ahead' = some quote)) :
    st.role code ahead = st.role code ahead' := by
  rcases code with _ | c
  · cases st <;> rfl
  · cases st with
    | between | word => rfl
    | escaped => rfl
    | quoted quote =>
      by_cases hclose : c = quote
      · simp [role, hclose]
      · by_cases hbackslash : c = 92 ∧ quote = 34
        · rcases hbackslash with ⟨rfl, rfl⟩
          simp [role, h 34 rfl]
        · simp [role, hclose, hbackslash]

/-- A character that is read alike has the same role. -/
theorem Agree.role {S A : ShlexState} {c : CodePoint} (hc : S.Agree A c) (h : Behind S A)
    {ps : List (Part CodePoint Str)} (hclear : Clear (S.next (some c)) (A.next (some c)) ps) :
    A.role (some c) (fill id ps).head? = S.role (some c) (ps.head?.bind Part.code) := by
  cases h with
  | same =>
    apply role_congr
    intro quote hnext
    rcases ps with _ | ⟨p, ps⟩
    · rfl
    · cases p with
      | lit d => rfl
      | value v =>
        have hahead := hclear (Or.inr ⟨v, ps, rfl⟩) quote hnext
        simpa [Part.code, not_or] using hahead
  | unstarted => rfl
  -- the text is behind a backslash yet, which the template has left with the piece before
  | escape =>
    rcases hc with hsame | hsame | ⟨hc, -⟩
    · cases hsame
    · cases hsame
    · have hahead : (word.next (some c)).Ahead (fill id ps) := by
        rw [next_of_takes word trivial hc]
        exact ahead_of_unescaped (by simp) _
      exact (((takes_iff word c _).mpr ⟨hc, hahead⟩).1).symm
  | escapeQuoted quote =>
    rcases hc with hsame | hsame | ⟨hc, hc'⟩
    · cases hsame
    · cases hsame
    · have hopen : c ≠ quote := hc
      simp [ShlexState.role, hopen, hc'.1]

/-! ## Words -/

/-- A word has begun. -/
def started : ShlexState → Bool
  | between => false
  | _ => true

theorem started_next {st : ShlexState} {code ahead : Option CodePoint}
    (h : st.role code ahead ≠ .cut) : (st.next code).started = true := by
  rcases code with _ | c
  · rcases st with _ | _ | _ | (_ | _) <;> rfl
  · rcases st with _ | _ | quote | (_ | _)
    · by_cases hspace : isShlexSpace c = true
      · simp [role, hspace] at h
      · simp only [next, hspace, Bool.false_eq_true, if_false]
        split_ifs <;> rfl
    · by_cases hspace : isShlexSpace c = true
      · simp [role, hspace] at h
      · simp only [next, hspace, Bool.false_eq_true, if_false]
        split_ifs <;> rfl
    · simp only [next]
      split_ifs <;> rfl
    · rfl
    · rfl

/-- Only a space outside quotes ends a word. -/
theorem role_eq_cut_iff {st : ShlexState} {c : CodePoint} {ahead : Option CodePoint} :
    st.role (some c) ahead = .cut ↔ st.IsUnquoted ∧ isShlexSpace c = true := by
  rcases st with _ | _ | quote | (_ | _)
  · simp only [role, IsUnquoted]
    split_ifs <;> simp_all
  · simp only [role, IsUnquoted]
    split_ifs <;> simp_all
  · simp only [role, IsUnquoted]
    split_ifs <;> simp_all
  · simp [role, IsUnquoted]
  · simp [role, IsUnquoted]

theorem next_of_space {st : ShlexState} (hst : st.IsUnquoted) {c : CodePoint}
    (hc : isShlexSpace c = true) : st.next (some c) = between := by
  cases st with
  | between | word => simp [next, hc]
  | quoted | escaped => exact hst.elim

end ShlexState

section Steps

variable {α : Type} (code : α → Option CodePoint) (st : ShlexState)

/-- The words with the flag of the state. -/
def wordsOf (token xs : List α) : List (List α) := wordsFrom code st token st.started xs

theorem wordsOf_of_kept {token : List α} {x : α} {xs : List α}
    (h : st.role (code x) (xs.head?.bind code) = .kept) :
    wordsOf code st token (x :: xs) = wordsOf code (st.next (code x)) (token ++ [x]) xs := by
  have hstarted : (st.next (code x)).started = true := ShlexState.started_next (by rw [h]; simp)
  unfold wordsOf
  rw [hstarted]
  simp [wordsFrom, h]

theorem wordsOf_of_gone {token : List α} {x : α} {xs : List α}
    (h : st.role (code x) (xs.head?.bind code) = .gone) :
    wordsOf code st token (x :: xs) = wordsOf code (st.next (code x)) token xs := by
  have hstarted : (st.next (code x)).started = true := ShlexState.started_next (by rw [h]; simp)
  unfold wordsOf
  rw [hstarted]
  simp [wordsFrom, h]

theorem wordsOf_of_cut {token : List α} {x : α} {xs : List α}
    (h : st.role (code x) (xs.head?.bind code) = .cut) :
    wordsOf code st token (x :: xs) =
      (if st.started then [token] else []) ++ wordsOf code .between [] xs := by
  have hnext : st.next (code x) = .between := by
    cases hcode : code x with
    | none =>
      rw [hcode] at h
      rcases st with _ | _ | _ | (_ | _) <;> cases h
    | some c =>
      rw [hcode, ShlexState.role_eq_cut_iff] at h
      exact ShlexState.next_of_space h.1 h.2
  simp [wordsOf, wordsFrom, h, hnext, ShlexState.started]

end Steps

/-! ## Values that are taken -/

theorem head_placedCode (xs : List (CodePoint × ℕ)) :
    xs.head?.bind placedCode = (xs.map Prod.fst).head? := by
  cases xs <;> rfl

theorem head_place (n : ℕ) (ps : List (Part CodePoint Str)) :
    (place id n ps).head?.bind PlacedPart.code = ps.head?.bind Part.code := by
  cases ps <;> rfl

theorem ShlexState.TakesAll.ahead {A : ShlexState} {v text : Str} (hv : A.TakesAll v)
    (hahead : (stateAfter some A v).Ahead text) : A.Ahead (v ++ text) := by
  induction v generalizing A with
  | nil => exact hahead
  | cons c v ih => exact ((A.takes_iff c (v ++ text)).mpr ⟨hv.1, ih hv.2 hahead⟩).2

/-- A value that is taken joins the word. -/
theorem wordsOf_value {A : ShlexState} {v : Str} (hv : A.TakesAll v) {rest : List (CodePoint × ℕ)}
    (hahead : (stateAfter some A v).Ahead (rest.map Prod.fst)) (token : List (CodePoint × ℕ))
    (n : ℕ) :
    wordsOf placedCode A token (v.zipIdx n ++ rest) =
      wordsOf placedCode (stateAfter some A v) (token ++ v.zipIdx n) rest := by
  induction v generalizing A token n with
  | nil => simp [stateAfter]
  | cons c v ih =>
    have hrole : A.role (placedCode (c, n)) ((v.zipIdx (n + 1) ++ rest).head?.bind placedCode) =
        .kept := by
      rw [head_placedCode, List.map_append, List.zipIdx_map_fst]
      exact ((A.takes_iff c _).mpr ⟨hv.1, hv.2.ahead hahead⟩).1
    have hrest := ih hv.2 hahead (token ++ [(c, n)]) (n + 1)
    rw [List.append_assoc] at hrest
    rw [List.zipIdx_cons, List.cons_append, wordsOf_of_kept placedCode A hrole]
    exact hrest

theorem ShlexState.role_none (st : ShlexState) (ahead : Option CodePoint) :
    st.role none ahead = .kept := by
  rcases st with _ | _ | _ | (_ | _) <;> rfl

/-- After a value the rest is read as it should be. -/
theorem ShlexState.Kept.ahead {S A : ShlexState} (h : Behind S A) {v : Str}
    {ps : List (Part CodePoint Str)} (hkept : Kept S A (.value v :: ps)) :
    (stateAfter some A v).Ahead (fill id ps) := by
  have hstates := h.value hkept.1
  by_cases hsame : S.next none = stateAfter some A v
  · rw [← hsame]
    apply ahead_of_unescaped
    rcases S with _ | _ | _ | (_ | _) <;> simp [next]
  · exact hkept.2.clear hstates (Or.inl hsame)

/-! ## The words of a text whose values are taken -/

open ShlexState in
/-- There are no words but those of the template, and all of them unless one has only empty
values. -/
theorem words_of_kept {S A : ShlexState} (h : Behind S A) {ps : List (Part CodePoint Str)}
    (hkept : Kept S A ps) (n : ℕ) (token : List PlacedPart) :
    let actual := wordsOf placedCode A (token.flatMap (·.2)) ((fill id ps).zipIdx n)
    let intended := wordsOf PlacedPart.code S token (place id n ps)
    actual.length ≤ intended.length ∧
      (actual = intended.map (·.flatMap (·.2)) ↔ Lasts S A ps) := by
  induction ps generalizing S A n token with
  | nil =>
    cases h with
    | same =>
      cases S with
      | between | word => simp [wordsOf, wordsFrom, place, started, Lasts]
      | quoted | escaped => exact hkept.1.elim
    | unstarted => simp [wordsOf, wordsFrom, place, started, Lasts]
    | escape => exact hkept.2.elim
    | escapeQuoted => exact hkept.1.elim
  | cons p ps ih =>
    cases p with
    | value v =>
      have htext : (fill id (.value v :: ps)).zipIdx n =
          v.zipIdx n ++ (fill id ps).zipIdx (n + v.length) := List.zipIdx_append
      have hahead : (stateAfter some A v).Ahead
          (((fill id ps).zipIdx (n + v.length)).map Prod.fst) := by
        rw [List.zipIdx_map_fst]
        exact hkept.ahead h
      have hrest := ih (h.value hkept.1) hkept.2 (n + v.length)
        (token ++ [(.value v, v.zipIdx n)])
      have hplace : wordsOf PlacedPart.code S token (place id n (.value v :: ps)) =
          wordsOf PlacedPart.code (S.next none) (token ++ [(.value v, v.zipIdx n)])
            (place id (n + v.length) ps) := wordsOf_of_kept PlacedPart.code S (role_none S _)
      rw [htext, wordsOf_value hkept.1 hahead, hplace]
      simpa [Lasts] using hrest
    | lit c =>
      have hstates := h.lit hkept.1
      have hsame : A.role (placedCode (c, n)) (((fill id ps).zipIdx (n + 1)).head?.bind placedCode) =
          S.role (some c) ((place id (n + 1) ps).head?.bind PlacedPart.code) := by
        rw [head_placedCode, List.zipIdx_map_fst, head_place]
        exact hkept.1.role h (hkept.2.clear hstates)
      have htext : (fill id (.lit c :: ps)).zipIdx n = (c, n) :: (fill id ps).zipIdx (n + 1) := rfl
      have hplace : place id n (.lit c :: ps) =
          (.lit c, [(c, n)]) :: place id (n + 1) ps := rfl
      have hinside : S.role (some c) ((place id (n + 1) ps).head?.bind PlacedPart.code) ≠ .cut →
          ¬ ((S = word ∧ A = between) ∧ isShlexSpace c = true) := by
        rintro hcut ⟨⟨rfl, -⟩, hspace⟩
        have hword : word.IsUnquoted := trivial
        exact hcut (role_eq_cut_iff.mpr ⟨hword, hspace⟩)
      rw [htext, hplace]
      rcases hrole : S.role (some c) ((place id (n + 1) ps).head?.bind PlacedPart.code) with _ | _ | _
      · -- the character joins the word
        have hspace := hinside (by rw [hrole]; simp)
        have hrest := ih hstates hkept.2 (n + 1) (token ++ [(.lit c, [(c, n)])])
        rw [wordsOf_of_kept placedCode A (hsame.trans hrole),
          wordsOf_of_kept (x := ((.lit c, [(c, n)]) : PlacedPart)) PlacedPart.code S hrole]
        simpa [Lasts, hspace] using hrest
      · -- the character is a quote or an escape
        have hspace := hinside (by rw [hrole]; simp)
        have hrest := ih hstates hkept.2 (n + 1) token
        rw [wordsOf_of_gone placedCode A (hsame.trans hrole),
          wordsOf_of_gone (x := ((.lit c, [(c, n)]) : PlacedPart)) PlacedPart.code S hrole]
        simpa [Lasts, hspace] using hrest
      · -- the word ends
        have hcut := role_eq_cut_iff.mp hrole
        have hcut' := role_eq_cut_iff.mp (hsame.trans hrole)
        rw [next_of_space hcut.1 hcut.2, next_of_space hcut'.1 hcut.2] at hstates
        have hkept' := hkept.2
        rw [next_of_space hcut.1 hcut.2, next_of_space hcut'.1 hcut.2] at hkept'
        have hrest := ih hstates hkept' (n + 1) []
        rw [wordsOf_of_cut placedCode A (hsame.trans hrole),
          wordsOf_of_cut (x := ((.lit c, [(c, n)]) : PlacedPart)) PlacedPart.code S hrole]
        have hlasts : Lasts S A (.lit c :: ps) ↔ ¬ (S = word ∧ A = between) ∧ Lasts between between ps := by
          simp [Lasts, hcut.2, next_of_space hcut.1 hcut.2, next_of_space hcut'.1 hcut.2]
        rw [hlasts]
        cases h with
        | same =>
          cases S with
          | between => simpa [started] using hrest
          | word => simpa [started] using hrest
          | quoted | escaped => exact hcut.1.elim
        | unstarted =>
          -- only empty values
          refine ⟨?_, ?_⟩
          · simp [started]
            have := hrest.1
            simp at this
            omega
          · simp [started]
            intro heq
            have hlength := congrArg List.length heq
            have := hrest.1
            simp at this hlength
            omega
        | escape => exact hcut'.1.elim
        | escapeQuoted => exact hcut.1.elim

/-! ## What has to be taken -/

section Kept

variable {α : Type} (code : α → Option CodePoint)

/-- What of a text is kept. -/
def keptFrom : ShlexState → List α → List α
  | _, [] => []
  | st, x :: xs =>
    (if st.role (code x) (xs.head?.bind code) = .kept then [x] else []) ++
      keptFrom (st.next (code x)) xs

theorem keptFrom_sublist (st : ShlexState) (xs : List α) : (keptFrom code st xs).Sublist xs := by
  induction xs generalizing st with
  | nil => exact List.Sublist.refl _
  | cons x xs ih =>
    unfold keptFrom
    split
    · exact (ih _).cons_cons x
    · exact (ih _).cons x

theorem flatten_wordsFrom (st : ShlexState) {token : List α} {begun : Bool}
    (hbegun : begun = false → token = []) (xs : List α) :
    (wordsFrom code st token begun xs).flatten = token ++ keptFrom code st xs := by
  induction xs generalizing st token begun with
  | nil =>
    cases begun with
    | true => simp [wordsFrom, keptFrom]
    | false => simp [wordsFrom, keptFrom, hbegun rfl]
  | cons x xs ih =>
    unfold wordsFrom keptFrom
    cases st.role (code x) (xs.head?.bind code) with
    | kept => simp [ih]
    | gone => simp [ih]
    | cut =>
      cases begun with
      | true => simp [ih]
      | false => simp [ih, hbegun rfl]

end Kept

theorem stateAfter_placedCode (st : ShlexState) (s : Str) (n : ℕ) :
    stateAfter placedCode st (s.zipIdx n) = stateAfter some st s := by
  induction s generalizing st n with
  | nil => rfl
  | cons c s ih => exact ih _ _

namespace ShlexState

theorem keptFrom_cons (A : ShlexState) (n : ℕ) (c : CodePoint) (s : Str) :
    keptFrom placedCode A ((c :: s).zipIdx n) =
      (if A.role (some c) s.head? = .kept then [(c, n)] else []) ++
        keptFrom placedCode (A.next (some c)) (s.zipIdx (n + 1)) := by
  rw [List.zipIdx_cons, keptFrom, head_placedCode, List.zipIdx_map_fst, placedCode_mk]

/-- A value all of whose characters are kept is taken. -/
theorem takesAll_of_kept {A : ShlexState} {v text : Str} (hahead : A.Ahead (v ++ text)) {n : ℕ}
    {others : List (CodePoint × ℕ)}
    (hkept : keptFrom placedCode A ((v ++ text).zipIdx n) = v.zipIdx n ++ others) :
    A.TakesAll v ∧ (stateAfter some A v).Ahead text ∧
      keptFrom placedCode (stateAfter some A v) (text.zipIdx (n + v.length)) = others := by
  induction v generalizing A n with
  | nil => exact ⟨trivial, hahead, by simpa [stateAfter] using hkept⟩
  | cons c v ih =>
    rw [List.cons_append, keptFrom_cons, List.zipIdx_cons] at hkept
    by_cases hrole : A.role (some c) (v ++ text).head? = .kept
    · rw [if_pos hrole] at hkept
      rcases (A.takes_iff c (v ++ text)).mp ⟨hrole, hahead⟩ with ⟨hc, hahead'⟩
      have hrest := ih hahead' (List.cons.inj hkept).2
      rw [show n + (c :: v).length = n + 1 + v.length by simp; omega]
      exact ⟨⟨hc, hrest.1⟩, hrest.2⟩
    · -- its place would come after itself
      rw [if_neg hrole, List.nil_append, List.cons_append] at hkept
      have hmem : (c, n) ∈ keptFrom placedCode (A.next (some c)) ((v ++ text).zipIdx (n + 1)) := by
        rw [hkept]
        exact List.mem_cons_self
      exact absurd ((keptFrom_sublist _ _ _).subset hmem) (notMem_zipIdx (Nat.lt_succ_self n) c)

/-- Only in quotes is a backslash one that may stay. -/
theorem of_next_eq_escaped {st : ShlexState} {c quote : CodePoint}
    (h : st.next (some c) = escaped (some quote)) : st = quoted quote ∧ c ≠ quote := by
  rcases st with _ | _ | quote' | (_ | _)
  · simp only [next] at h
    split_ifs at h
    cases h
  · simp only [next] at h
    split_ifs at h
    cases h
  · by_cases hclose : c = quote'
    · simp [next, hclose] at h
    · simp only [next, hclose, if_false] at h
      split_ifs at h
      cases h
      exact ⟨rfl, hclose⟩
  · cases h
  · cases h

/-- A character that has a role alike in both is read alike. -/
theorem agree_of_roles {S A : ShlexState} (h : Behind S A) {c : CodePoint}
    {ps : List (Part CodePoint Str)} (hclear : Clear S A (.lit c :: ps))
    (hrole : A.role (some c) (fill id ps).head? = .kept ↔
      S.role (some c) (ps.head?.bind Part.code) = .kept) :
    S.Agree A c ∧ Clear (S.next (some c)) (A.next (some c)) ps := by
  cases h with
  | same =>
    refine ⟨Or.inl rfl, ?_⟩
    rintro (hne | ⟨v, qs, rfl⟩)
    · exact absurd rfl hne
    · -- the template keeps a backslash before a value
      intro quote hnext
      rcases of_next_eq_escaped hnext with ⟨rfl, hopen⟩
      have hkept : (quoted quote).role (some c) none = .kept := by simp [role, hopen]
      exact ((takes_iff _ c _).mp ⟨hrole.mpr hkept, ahead_of_unescaped (by simp) _⟩).2 quote hnext
  | unstarted =>
    refine ⟨Or.inr (Or.inl rfl), fun _ => ahead_of_unescaped ?_ _⟩
    intro quote hnext
    cases (of_next_eq_escaped hnext).1
  | escape =>
    have hkept : word.role (some c) (fill id ps).head? = .kept := hrole.mp rfl
    have hc : word.Takes c := ((takes_iff word c _).mp ⟨hkept, ahead_of_unescaped (by simp) _⟩).1
    exact ⟨Or.inr (Or.inr ⟨hc, trivial⟩), fun _ => ahead_of_unescaped (by simp [next]) _⟩
  | escapeQuoted quote =>
    have hc : c ≠ 92 ∧ c ≠ quote := by
      simpa using hclear (Or.inl (by simp)) quote rfl
    exact ⟨Or.inr (Or.inr ⟨hc.2, hc⟩), fun _ => ahead_of_unescaped (by simp [next]) _⟩

theorem keptFrom_value (S : ShlexState) (n : ℕ) (v : Str) (ps : List (Part CodePoint Str)) :
    (keptFrom PlacedPart.code S (place id n (.value v :: ps))).flatMap (·.2) =
      v.zipIdx n ++
        (keptFrom PlacedPart.code (S.next none) (place id (n + v.length) ps)).flatMap (·.2) := by
  have hstep : keptFrom PlacedPart.code S (place id n (.value v :: ps)) =
      (.value v, v.zipIdx n) :: keptFrom PlacedPart.code (S.next none) (place id (n + v.length) ps) :=
    by
      show (if S.role none _ = WordRole.kept then _ else _) ++ _ = _
      rw [role_none, if_pos rfl]
      rfl
  rw [hstep, List.flatMap_cons]

theorem keptFrom_lit (S : ShlexState) (n : ℕ) (c : CodePoint) (ps : List (Part CodePoint Str)) :
    (keptFrom PlacedPart.code S (place id n (.lit c :: ps))).flatMap (·.2) =
      (if S.role (some c) (ps.head?.bind Part.code) = .kept then [(c, n)] else []) ++
        (keptFrom PlacedPart.code (S.next (some c)) (place id (n + 1) ps)).flatMap (·.2) := by
  have hstep : keptFrom PlacedPart.code S (place id n (.lit c :: ps)) =
      (if S.role (some c) (ps.head?.bind Part.code) = .kept then [(.lit c, [(c, n)])] else []) ++
        keptFrom PlacedPart.code (S.next (some c)) (place id (n + 1) ps) := by
    rw [← head_place (n + 1)]
    rfl
  rw [hstep, List.flatMap_append]
  split <;> rfl

/-- Where the same characters are kept the values are taken. -/
theorem kept_of_places {S A : ShlexState} (h : Behind S A) {ps : List (Part CodePoint Str)}
    (hclear : Clear S A ps) {n : ℕ}
    (hplaces : keptFrom placedCode A ((fill id ps).zipIdx n) =
      (keptFrom PlacedPart.code S (place id n ps)).flatMap (·.2))
    (hS : (stateAfter PlacedPart.code S (place id n ps)).IsUnquoted)
    (hA : (stateAfter some A (fill id ps)).IsUnquoted) : Kept S A ps := by
  induction ps generalizing S A n with
  | nil => exact ⟨hS, hA⟩
  | cons p ps ih =>
    cases p with
    | value v =>
      rw [keptFrom_value] at hplaces
      rcases takesAll_of_kept (hclear (Or.inr ⟨v, ps, rfl⟩)) hplaces with ⟨hv, hahead, hrest⟩
      have hA' : (stateAfter some (stateAfter some A v) (fill id ps)).IsUnquoted := by
        unfold stateAfter at hA ⊢
        rwa [fill_value, List.foldl_append] at hA
      exact ⟨hv, ih (h.value hv) (fun _ => hahead) hrest hS hA'⟩
    | lit c =>
      rw [fill_lit, keptFrom_cons, keptFrom_lit] at hplaces
      -- no place comes after itself, so the character is kept in both or in neither
      have hlater : (c, n) ∉ (fill id ps).zipIdx (n + 1) := notMem_zipIdx (Nat.lt_succ_self n) c
      have hactual : (c, n) ∉ keptFrom placedCode (A.next (some c)) ((fill id ps).zipIdx (n + 1)) :=
        fun hmem => hlater ((keptFrom_sublist _ _ _).subset hmem)
      have hintended : (c, n) ∉
          (keptFrom PlacedPart.code (S.next (some c)) (place id (n + 1) ps)).flatMap (·.2) := by
        intro hmem
        apply hlater
        rw [← flatMap_place]
        exact ((keptFrom_sublist _ _ _).flatMap _).subset hmem
      by_cases hroleA : A.role (some c) (fill id ps).head? = .kept
      · by_cases hroleS : S.role (some c) (ps.head?.bind Part.code) = .kept
        · rw [if_pos hroleA, if_pos hroleS] at hplaces
          rcases agree_of_roles h hclear (by simp [hroleA, hroleS]) with ⟨hagree, hclear'⟩
          exact ⟨hagree, ih (h.lit hagree) hclear' (List.append_cancel_left hplaces) hS hA⟩
        · rw [if_pos hroleA, if_neg hroleS] at hplaces
          rw [List.nil_append] at hplaces
          exact absurd (by rw [← hplaces]; simp) hintended
      · by_cases hroleS : S.role (some c) (ps.head?.bind Part.code) = .kept
        · rw [if_neg hroleA, if_pos hroleS, List.nil_append] at hplaces
          exact absurd (by rw [hplaces]; simp) hactual
        · rw [if_neg hroleA, if_neg hroleS, List.nil_append, List.nil_append] at hplaces
          rcases agree_of_roles h hclear (by simp [hroleA, hroleS]) with ⟨hagree, hclear'⟩
          exact ⟨hagree, ih (h.lit hagree) hclear' hplaces hS hA⟩

end ShlexState

/-- The values are harmless where they stand. -/
def Harmless (ps : List (Part CodePoint Str)) : Prop :=
  ShlexState.Kept .between .between ps ∧ ShlexState.Lasts .between .between ps

instance (ps : List (Part CodePoint Str)) : Decidable (Harmless ps) :=
  inferInstanceAs (Decidable (ShlexState.Kept _ _ ps ∧ ShlexState.Lasts _ _ ps))

theorem wordsAt_eq_ok_iff {α : Type} {words words' : List (List α)} {st : ShlexState} :
    wordsAt words st = .ok words' ↔ st.IsUnquoted ∧ words = words' := by
  cases st <;> simp [wordsAt, ShlexState.IsUnquoted]

open ShlexState in
theorem Kept.unquoted {S A : ShlexState} {ps : List (Part CodePoint Str)} (hkept : Kept S A ps)
    (n : ℕ) : (stateAfter PlacedPart.code S (place id n ps)).IsUnquoted ∧
      (stateAfter some A (fill id ps)).IsUnquoted := by
  induction ps generalizing S A n with
  | nil => exact hkept
  | cons p ps ih =>
    cases p with
    | lit c => exact ih hkept.2 (n + 1)
    | value v =>
      have hrest := ih hkept.2 (n + v.length)
      unfold stateAfter at hrest ⊢
      rw [fill_value, List.foldl_append]
      exact hrest

open ShlexState in
/-- The words are those of the template with the values in place exactly when the values are
harmless. -/
theorem verbatim_iff (ps : List (Part CodePoint Str)) : Verbatim ps ↔ Harmless ps := by
  have hstates : Behind between between := .same _
  have hclear : Clear between between ps := fun _ => ahead_of_unescaped (by simp) _
  have hintended : ∀ words, intendedWords ps = .ok words ↔
      (stateAfter PlacedPart.code between (place id 0 ps)).IsUnquoted ∧
        (wordsOf PlacedPart.code between [] (place id 0 ps)).map (·.flatMap (·.2)) = words := by
    intro words
    unfold intendedWords splitWords
    cases hstate : stateAfter PlacedPart.code between (place id 0 ps) with
    | between | word => simp [wordsAt, Except.map, IsUnquoted, wordsOf, started]
    | quoted | escaped => simp [wordsAt, Except.map, IsUnquoted]
  have hactual : ∀ words, actualWords ps = .ok words ↔
      (stateAfter some between (fill id ps)).IsUnquoted ∧
        wordsOf placedCode between [] ((fill id ps).zipIdx) = words := by
    intro words
    unfold actualWords splitWords
    rw [stateAfter_placedCode, wordsAt_eq_ok_iff]
    rfl
  constructor
  · rintro ⟨words, hS, hA⟩
    rcases (hintended words).mp hS with ⟨hendS, hS⟩
    rcases (hactual words).mp hA with ⟨hendA, hA⟩
    have hwords := hA.trans hS.symm
    -- equal words have equal places, and the places tell which characters were kept
    have hplaces : keptFrom placedCode between ((fill id ps).zipIdx) =
        (keptFrom PlacedPart.code between (place id 0 ps)).flatMap (·.2) := by
      have hflat := congrArg List.flatten hwords
      have hjoin : ∀ ws : List (List PlacedPart),
          (ws.map (·.flatMap (·.2))).flatten = ws.flatten.flatMap (·.2) := by
        intro ws
        simp [List.flatMap_def, List.map_flatten, List.flatten_flatten, Function.comp_def]
      unfold wordsOf at hflat
      rw [hjoin, flatten_wordsFrom _ _ (fun _ => rfl), flatten_wordsFrom _ _ (fun _ => rfl)] at hflat
      simpa using hflat
    have hkept := kept_of_places hstates hclear hplaces hendS hendA
    exact ⟨hkept, (words_of_kept hstates hkept 0 []).2.mp hwords⟩
  · rintro ⟨hkept, hlasts⟩
    rcases Kept.unquoted hkept 0 with ⟨hendS, hendA⟩
    exact ⟨_, (hintended _).mpr ⟨hendS, rfl⟩,
      (hactual _).mpr ⟨hendA, (words_of_kept hstates hkept 0 []).2.mpr hlasts⟩⟩

/-! ## The words as texts -/

/-- The words of a text are those of its characters with their places. -/
theorem shlexSplit_of_actual {ps : List (Part CodePoint Str)} {words : List (List (CodePoint × ℕ))}
    (h : actualWords ps = .ok words) :
    shlexSplit (fill id ps) = .ok (words.map (List.map Prod.fst)) := by
  have hcode : ∀ x : CodePoint × ℕ, some x.1 = placedCode x := fun _ => rfl
  have hmap := splitWords_map hcode ((fill id ps).zipIdx)
  unfold actualWords at h
  rw [List.zipIdx_map_fst, h, splitWords_some] at hmap
  exact hmap

/-- A part as a code point with a text. -/
def Part.view (p : Part CodePoint Str) : Option CodePoint × Str := (p.code, p.text id)

def PlacedPart.view (p : PlacedPart) : Option CodePoint × Str := (p.code, p.2.map Prod.fst)

theorem place_view (n : ℕ) (ps : List (Part CodePoint Str)) :
    (place id n ps).map PlacedPart.view = ps.map Part.view := by
  induction ps generalizing n with
  | nil => rfl
  | cons p ps ih =>
    rw [place, List.map_cons, List.map_cons, ih, PlacedPart.view, List.zipIdx_map_fst]
    rfl

/-- The words of a template, with their parts put in, are those with places. -/
theorem splitWords_of_intended {ps : List (Part CodePoint Str)}
    {words : List (List (CodePoint × ℕ))} (h : intendedWords ps = .ok words) :
    ∃ elements, splitWords Part.code ps = .ok elements ∧
      words.map (List.map Prod.fst) = elements.map (fill id) := by
  have hplacedView : ∀ p : PlacedPart, Prod.fst (PlacedPart.view p) = PlacedPart.code p :=
    fun _ => rfl
  have hview : ∀ p : Part CodePoint Str, Prod.fst (Part.view p) = Part.code p := fun _ => rfl
  have hplaced := splitWords_map hplacedView (place id 0 ps)
  rw [place_view, splitWords_map hview ps] at hplaced
  unfold intendedWords at h
  rcases hwords : splitWords PlacedPart.code (place id 0 ps) with e | placed
  · rw [hwords] at h
    cases h
  · rcases helements : splitWords Part.code ps with e | elements
    · rw [hwords, helements] at hplaced
      cases hplaced
    · rw [hwords, helements] at hplaced
      rw [hwords] at h
      cases h
      refine ⟨elements, rfl, ?_⟩
      have hviews : elements.map (List.map Part.view) = placed.map (List.map PlacedPart.view) :=
        Except.ok.inj hplaced
      have htexts := congrArg (List.map fun word => word.flatMap Prod.snd) hviews
      simp only [List.map_map, Function.comp_def, List.flatMap_map] at htexts
      simp only [List.map_map, Function.comp_def, List.map_flatMap]
      exact htexts.symm

/-- Where the values are read as they stand, the words of the text are those of the template with
the values put in. -/
theorem Verbatim.texts {ps : List (Part CodePoint Str)} (h : Verbatim ps) :
    ∃ elements, splitWords Part.code ps = .ok elements ∧
      shlexSplit (fill id ps) = .ok (elements.map (fill id)) := by
  rcases h with ⟨words, hintended, hactual⟩
  rcases splitWords_of_intended hintended with ⟨elements, helements, htexts⟩
  refine ⟨elements, helements, ?_⟩
  rw [shlexSplit_of_actual hactual, htexts]

end AutoHeal
