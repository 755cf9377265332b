import AutoHeal.Lib.ShellWords
import AutoHeal.Python.Quoted

/-!
# What the words of a line with quoted values are

`shlex.quote` leaves a value without quotes if all its characters are safe, and such a value can
still be a reserved word, a part of an assignment, of the name of a user or of a set of characters.
A value is meant to be as in quotes: `roles_of_undisturbed` says that the words are then the same if
nothing that they are rests on a value.
-/

namespace AutoHeal

open Shell

/-- The characters of a template with its values quoted, and whether they are of a value. -/
def ownedChars : List (Part CodePoint Str) → List (CodePoint × Bool)
  | [] => []
  | .lit c :: ps => (c, false) :: ownedChars ps
  | .value v :: ps => (shlexQuote v).map (fun c => (c, true)) ++ ownedChars ps

/-- What is read of a template with its values quoted. -/
def ownedSenses (ps : List (Part CodePoint Str)) : List (ℕ × Sense Inserted) :=
  sensesFrom .start (ownedChars ps)

/-- What is read of a line. -/
def Shell.lineSenses (line : Str) : List (ℕ × Sense Letter) :=
  sensesBy Inserted.letter (sensesFrom .start (line.map fun c => (c, false)))

/-- What is meant to be read of a value. -/
def Shell.Reader.valueSenses (r : Reader) (v : Str) : List (ℕ × Sense Letter) :=
  if r.mode = .comment then [] else r.pieceSenses v

/-- What is meant to be read of the rest of a template, with every value in quotes. -/
def intendedSenses : Reader → List (Part CodePoint Str) → List (ℕ × Sense Letter)
  | _, [] => []
  | r, .lit c :: ps => sensesBy Inserted.letter (r.senses c false) ++ intendedSenses (r.step c).2 ps
  | r, .value v :: ps => r.valueSenses v ++ intendedSenses r.inert ps

/-- What the words are rests on no letter of a value that is outside of quotes. -/
def Ordinary (ps : List (Part CodePoint Str)) : Prop :=
  ∀ s ∈ ownedSenses ps, settled .command false (tokens (sensesAt s.1 (ownedSenses ps))) = true

instance (ps : List (Part CodePoint Str)) : Decidable (Ordinary ps) :=
  inferInstanceAs (Decidable (∀ s ∈ ownedSenses ps, _))

theorem ownedChars_text (ps : List (Part CodePoint Str)) :
    (ownedChars ps).map Prod.fst = fill shlexQuote ps := by
  induction ps with
  | nil => rfl
  | cons p ps ih =>
    cases p with
    | lit c => rw [ownedChars, List.map_cons, ih, fill_lit]
    | value v =>
      rw [ownedChars, List.map_append, List.map_map, ih, fill_value]
      exact congrArg (· ++ _) (List.map_id _)

theorem ownedSenses_letter (ps : List (Part CodePoint Str)) :
    sensesBy Inserted.letter (ownedSenses ps) = lineSenses (fill shlexQuote ps) := by
  unfold ownedSenses lineSenses
  rw [sensesFrom_letter, ← ownedChars_text, List.map_map]
  rfl

theorem quotedChars_own (n : ℕ) (v : Str) :
    (quotedChars n v).map (fun x => (x.1, true)) = (shlexQuote v).map fun c => (c, true) := by
  rw [← quotedChars_text n, List.map_map]
  rfl

/-- A value that stands for itself is read as if it were in quotes. -/
theorem Shell.Reader.Inert.senses {r : Reader} {v : Str} (h : r.Inert v) :
    sensesBy Inserted.meant (sensesFrom r ((shlexQuote v).map fun c => (c, true))) =
      r.valueSenses v := by
  have hevents := (h.run 0).1
  have hliteral : ∀ kind a, .char kind a ∈ eventsFrom Prod.fst r (quotedChars 0 v) →
      kind = .literal := by
    intro kind a hmem
    rw [hevents] at hmem
    unfold valueEvents pieceEvents at hmem
    split_ifs at hmem
    all_goals simp at hmem
    all_goals exact hmem.2.symm
  have hsenses := sensesFrom_literal hliteral
  rw [quotedChars_own, hevents] at hsenses
  rw [hsenses]
  unfold valueEvents valueSenses pieceSenses
  split_ifs
  · rfl
  · rw [pieceEvents_sense, ownChars_text]

theorem sensesBy_append {α β : Type} (f : α → β) (ss ts : List (ℕ × Sense α)) :
    sensesBy f (ss ++ ts) = sensesBy f ss ++ sensesBy f ts := List.map_append

theorem senses_meant (r : Reader) (c : CodePoint) :
    sensesBy Inserted.meant (r.senses c false) = sensesBy Inserted.letter (r.senses c false) := by
  unfold Reader.senses
  rcases r.step c with ⟨⟨begins, kind⟩, next⟩
  cases begins <;> cases kind <;> by_cases hdeeper : r.depth < next.depth <;>
    simp [sensesBy, Sense.map, Inserted.meant, hdeeper]

theorem Shell.Reader.Behind.valueSenses {r r' : Reader} (h : r.Behind r') (v : Str) :
    r.valueSenses v = r'.valueSenses v := by
  unfold Reader.valueSenses Reader.pieceSenses
  rw [h.mode, h.begins, h.depth]

/-- With its values in quotes the line is read as it is meant. -/
theorem senses_of_agrees {r r' : Reader} (h : r.Behind r') {ps : List (Part CodePoint Str)}
    (hagrees : r.Agrees r' ps) :
    sensesBy Inserted.meant (sensesFrom r' (ownedChars ps)) = intendedSenses r ps := by
  induction ps generalizing r r' with
  | nil => rfl
  | cons p ps ih =>
    cases p with
    | lit c =>
      rw [ownedChars, sensesFrom, intendedSenses, sensesBy_append]
      rcases h.step c with htogether | ⟨hoperator, hnumbered⟩
      · rw [ih htogether.2 hagrees.2, senses_meant, h.senses htogether]
      · have heq := hagrees.1
        rw [hoperator, hnumbered] at heq
        cases heq
    | value v =>
      have hnext : r.inert.Behind (r'.after (shlexQuote v)) := by
        rw [h.inert]
        exact (hagrees.1.run 0).2
      have htext : ((shlexQuote v).map fun c => (c, true)).map Prod.fst = shlexQuote v := by
        rw [List.map_map]
        exact List.map_id _
      rw [ownedChars, sensesFrom_append, intendedSenses, sensesBy_append, hagrees.1.senses, htext,
        ih hnext hagrees.2, h.valueSenses]

theorem rolesAt_of_forall_ne {d : ℕ} {ss : List (ℕ × Sense Letter)} (h : ∀ s ∈ ss, s.1 ≠ d) :
    rolesAt d ss = [] := by
  have hnone : sensesAt d ss = [] := by
    unfold sensesAt
    rw [List.map_eq_nil_iff, List.filter_eq_nil_iff]
    intro s hs
    simpa using h s hs
  unfold rolesAt
  rw [hnone]
  rfl

theorem fst_mem_sensesBy {α β : Type} {f : α → β} {ss : List (ℕ × Sense α)} {t : ℕ × Sense β}
    (h : t ∈ sensesBy f ss) : ∃ s ∈ ss, s.1 = t.1 := by
  rcases List.mem_map.mp h with ⟨s, hs, rfl⟩
  exact ⟨s, hs, rfl⟩

/-- The words of the line are what they are meant to be, in every command substitution. -/
theorem roles_of_undisturbed {ps : List (Part CodePoint Str)} (h : Undisturbed ps)
    (hordinary : Ordinary ps) (d : ℕ) :
    rolesAt d (lineSenses (fill shlexQuote ps)) = rolesAt d (intendedSenses .start ps) := by
  have hstart : Reader.start.Behind .start := Or.inl rfl
  rw [← ownedSenses_letter, ← senses_of_agrees hstart h]
  by_cases hdepth : ∃ s ∈ ownedSenses ps, s.1 = d
  · rcases hdepth with ⟨s, hs, rfl⟩
    exact (rolesAt_meant (hordinary s hs)).symm
  · push Not at hdepth
    have hnone {f : Inserted → Letter} : rolesAt d (sensesBy f (ownedSenses ps)) = [] := by
      refine rolesAt_of_forall_ne fun t ht => ?_
      rcases fst_mem_sensesBy ht with ⟨s, hs, hst⟩
      rw [← hst]
      exact hdepth s hs
    exact hnone.trans hnone.symm

/-! ## Lines that are read to their end -/

/-- With some words the shell reads on in another way: in a substitution `case` takes parentheses
that close nothing, and what the standard leaves undefined is not read further. -/
def Shell.Roles.leads (d : ℕ) (ro : Roles) : Bool :=
  ro.reserved.any fun w =>
    [py "[[", py "coproc", py "function", py "namespace", py "select", py "time"].contains w ||
      (decide (0 < d) && w == py "case")

/-- The line is read to its end. -/
def Shell.ReadsOn (ss : List (ℕ × Sense Letter)) (r : Reader) : Prop :=
  r.mode ≠ .unread ∧ ∀ s ∈ ss, ∀ w ∈ rolesAt s.1 ss, w.leads s.1 = false

instance (ss : List (ℕ × Sense Letter)) (r : Reader) : Decidable (ReadsOn ss r) :=
  inferInstanceAs (Decidable (_ ∧ ∀ s ∈ ss, ∀ w ∈ rolesAt s.1 ss, _))

/-- The line is read to its end if the template is. -/
theorem readsOn_of_undisturbed {ps : List (Part CodePoint Str)} (h : Undisturbed ps)
    (hordinary : Ordinary ps) (hreads : ReadsOn (intendedSenses .start ps) (intendedEnd .start ps)) :
    ReadsOn (lineSenses (fill shlexQuote ps)) (Reader.start.after (fill shlexQuote ps)) := by
  have hstart : Reader.start.Behind .start := Or.inl rfl
  constructor
  · rw [← (behind_of_agrees hstart h).mode]
    exact hreads.1
  · intro s hs w hw
    rw [roles_of_undisturbed h hordinary] at hw
    -- a place of the line is one of the template
    have hmeant : ∃ t ∈ intendedSenses .start ps, t.1 = s.1 := by
      rw [← ownedSenses_letter] at hs
      rcases fst_mem_sensesBy hs with ⟨t, ht, hts⟩
      rw [← senses_of_agrees hstart h]
      exact ⟨_, List.mem_map_of_mem ht, hts⟩
    rcases hmeant with ⟨t, ht, hts⟩
    rw [← hts] at hw ⊢
    exact hreads.2 t ht w hw

end AutoHeal
