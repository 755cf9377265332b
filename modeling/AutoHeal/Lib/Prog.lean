import Mathlib.Tactic.Common

/-!
# Programs that ask the outside

A program asks questions of a type `C`, gets an answer of type `A c` to a question `c` and goes
on. `Runs` are its runs, with what was asked and answered in order, for whatever answers;
`runs_bind_iff` cuts the run of a sequence in two. `Calls` says which calls a program can make.
`run` gives the one run in a given world. `label` marks the calls of a part, and `inl` puts a
program among those that have a second outside as well.
-/

namespace AutoHeal

/-- A program with results of type `α`. -/
inductive Prog (C : Type) (A : C → Type) (α : Type) where
  | done (a : α)
  | ask (c : C) (next : A c → Prog C A α)

/-- A question that was asked, and its answer. -/
structure Asked (C : Type) (A : C → Type) where
  call : C
  answer : A call

namespace Prog

variable {C : Type} {A : C → Type} {α β : Type}

/-- One program, then another. -/
def bind : Prog C A α → (α → Prog C A β) → Prog C A β
  | done a, f => f a
  | ask c next, f => ask c fun answer => bind (next answer) f

instance : Monad (Prog C A) where
  pure := done
  bind := bind

/-- The program of one question. -/
def call (c : C) : Prog C A (A c) := ask c done

/-- A run: the questions with their answers, and the result. -/
inductive Runs : Prog C A α → List (Asked C A) → α → Prop
  | done (a : α) : Runs (done a) [] a
  | ask {c : C} {next : A c → Prog C A α} {asked : List (Asked C A)} {a : α} (answer : A c)
      (h : Runs (next answer) asked a) : Runs (ask c next) (⟨c, answer⟩ :: asked) a

theorem runs_done_iff {a b : α} {asked : List (Asked C A)} :
    Runs (done a) asked b ↔ asked = [] ∧ b = a := by
  constructor
  · intro h
    cases h
    exact ⟨rfl, rfl⟩
  · rintro ⟨rfl, rfl⟩
    exact .done _

@[simp] theorem runs_pure_iff {a b : α} {asked : List (Asked C A)} :
    Runs (pure a : Prog C A α) asked b ↔ asked = [] ∧ b = a := runs_done_iff

theorem runs_ask_iff {c : C} {next : A c → Prog C A α} {asked : List (Asked C A)} {b : α} :
    Runs (ask c next) asked b ↔
      ∃ answer rest, asked = ⟨c, answer⟩ :: rest ∧ Runs (next answer) rest b := by
  constructor
  · intro h
    cases h with
    | ask answer h => exact ⟨answer, _, rfl, h⟩
  · rintro ⟨answer, rest, rfl, h⟩
    exact .ask answer h

@[simp] theorem runs_call_iff {c : C} {asked : List (Asked C A)} {b : A c} :
    Runs (call c) asked b ↔ asked = [⟨c, b⟩] := by
  unfold call
  rw [runs_ask_iff]
  constructor
  · rintro ⟨answer, rest, rfl, h⟩
    rcases runs_done_iff.mp h with ⟨rfl, rfl⟩
    rfl
  · rintro rfl
    exact ⟨b, [], rfl, .done b⟩

/-- A run of a sequence is a run of its first part and one of the second. -/
theorem runs_bind_iff {p : Prog C A α} {f : α → Prog C A β} {asked : List (Asked C A)} {b : β} :
    Runs (p >>= f) asked b ↔
      ∃ a before after, asked = before ++ after ∧ Runs p before a ∧ Runs (f a) after b := by
  show Runs (bind p f) asked b ↔ _
  induction p generalizing asked with
  | done a =>
    constructor
    · intro h
      exact ⟨a, [], asked, rfl, .done a, h⟩
    · rintro ⟨a', before, after, rfl, hp, hf⟩
      rcases runs_done_iff.mp hp with ⟨rfl, rfl⟩
      exact hf
  | ask c next ih =>
    unfold bind
    rw [runs_ask_iff]
    constructor
    · rintro ⟨answer, rest, rfl, h⟩
      rcases (ih answer).mp h with ⟨a, before, after, rfl, hp, hf⟩
      exact ⟨a, ⟨c, answer⟩ :: before, after, rfl, .ask answer hp, hf⟩
    · rintro ⟨a, before, after, rfl, hp, hf⟩
      rcases runs_ask_iff.mp hp with ⟨answer, rest, rfl, hrest⟩
      exact ⟨answer, rest ++ after, rfl, (ih answer).mpr ⟨a, rest, after, rfl, hrest, hf⟩⟩

/-- The program makes calls of a kind only, whatever it is answered. -/
def Calls (P : C → Prop) : Prog C A α → Prop
  | done _ => True
  | ask c next => P c ∧ ∀ answer, Calls P (next answer)

theorem Calls.bind {P : C → Prop} {p : Prog C A α} {f : α → Prog C A β} (hp : Calls P p)
    (hf : ∀ a, Calls P (f a)) : Calls P (p >>= f) := by
  show Calls P (Prog.bind p f)
  induction p with
  | done a => exact hf a
  | ask c next ih => exact ⟨hp.1, fun answer => ih answer (hp.2 answer)⟩

theorem Calls.of_runs {P : C → Prop} {p : Prog C A α} (h : Calls P p) {asked : List (Asked C A)}
    {a : α} (hruns : Runs p asked a) : ∀ m ∈ asked, P m.call := by
  induction hruns with
  | done a =>
    intro m hm
    cases hm
  | ask answer hruns ih =>
    intro m hm
    rcases List.mem_cons.mp hm with rfl | hm
    · exact h.1
    · exact ih (h.2 answer) m hm

/-! ## Worlds -/

/-- What is answered to the question with a number. -/
abbrev World (C : Type) (A : C → Type) := ℕ → (c : C) → A c

/-- The run in a world, from the question with a number on. -/
def run (world : World C A) : ℕ → Prog C A α → List (Asked C A) × α
  | _, done a => ([], a)
  | n, ask c next =>
    let rest := run world (n + 1) (next (world n c))
    (⟨c, world n c⟩ :: rest.1, rest.2)

theorem runs_run (world : World C A) (n : ℕ) (p : Prog C A α) :
    Runs p (run world n p).1 (run world n p).2 := by
  induction p generalizing n with
  | done a => exact .done a
  | ask c next ih => exact .ask _ (ih (world n c) (n + 1))

/-- What is done with the result of a program changes the result. -/
theorem run_map (world : World C A) (n : ℕ) (p : Prog C A α) (f : α → β) :
    run world n (p >>= fun a => pure (f a)) = ((run world n p).1, f (run world n p).2) := by
  show run world n (bind p fun a => done (f a)) = _
  induction p generalizing n with
  | done a => rfl
  | ask c next ih =>
    unfold bind run
    simp only [ih]

/-! ## Labels -/

section Labels

variable {T : Type}

/-- The program, with its calls labelled. -/
def label (t : T) : Prog C A α → Prog (T × C) (fun c => A c.2) α
  | done a => done a
  | ask c next => ask (t, c) fun answer => label t (next answer)

/-- A call with a label. -/
def labelled (t : T) (m : Asked C A) : Asked (T × C) (fun c => A c.2) := ⟨(t, m.call), m.answer⟩

theorem runs_label_iff {t : T} {p : Prog C A α} {asked : List (Asked (T × C) (fun c => A c.2))}
    {a : α} : Runs (label t p) asked a ↔ ∃ own, asked = own.map (labelled t) ∧ Runs p own a := by
  induction p generalizing asked with
  | done b =>
    unfold label
    rw [runs_done_iff]
    constructor
    · rintro ⟨rfl, rfl⟩
      exact ⟨[], rfl, .done a⟩
    · rintro ⟨own, rfl, h⟩
      rcases runs_done_iff.mp h with ⟨rfl, rfl⟩
      exact ⟨rfl, rfl⟩
  | ask c next ih =>
    unfold label
    rw [runs_ask_iff]
    constructor
    · rintro ⟨answer, rest, rfl, h⟩
      rcases (ih answer).mp h with ⟨own, rfl, hown⟩
      exact ⟨⟨c, answer⟩ :: own, rfl, .ask answer hown⟩
    · rintro ⟨own, rfl, h⟩
      rcases runs_ask_iff.mp h with ⟨answer, rest, rfl, hrest⟩
      exact ⟨answer, rest.map (labelled t), rfl, (ih answer).mpr ⟨rest, rfl, hrest⟩⟩

variable [DecidableEq T]

/-- The calls with a label. -/
def callsOf (t : T) : List (Asked (T × C) (fun c => A c.2)) → List (Asked C A)
  | [] => []
  | m :: asked => if m.call.1 = t then ⟨m.call.2, m.answer⟩ :: callsOf t asked else callsOf t asked

theorem callsOf_append (t : T) (before after : List (Asked (T × C) (fun c => A c.2))) :
    callsOf t (before ++ after) = callsOf t before ++ callsOf t after := by
  induction before with
  | nil => rfl
  | cons m before ih =>
    simp only [List.cons_append, callsOf]
    split_ifs
    · rw [ih, List.cons_append]
    · exact ih

theorem callsOf_labelled (t : T) (own : List (Asked C A)) : callsOf t (own.map (labelled t)) = own := by
  induction own with
  | nil => rfl
  | cons m own ih =>
    simp only [List.map_cons, callsOf, labelled, if_true]
    exact congrArg (m :: ·) ih

theorem callsOf_labelled_of_ne {t u : T} (h : u ≠ t) (own : List (Asked C A)) :
    callsOf t (own.map (labelled u)) = [] := by
  induction own with
  | nil => rfl
  | cons m own ih =>
    simp only [List.map_cons, callsOf, labelled, h, if_false]
    exact ih

end Labels

/-! ## Two outsides -/

section Sums

variable {D : Type} {B : D → Type}

/-- The program, with the calls of a second outside beside its own. -/
def inl : Prog C A α → Prog (C ⊕ D) (Sum.elim A B) α
  | done a => done a
  | ask c next => ask (.inl c) fun answer => inl (next answer)

/-- A call of the first outside. -/
def left (m : Asked C A) : Asked (C ⊕ D) (Sum.elim A B) := ⟨.inl m.call, m.answer⟩

theorem runs_inl_iff {p : Prog C A α} {asked : List (Asked (C ⊕ D) (Sum.elim A B))} {a : α} :
    Runs (inl p) asked a ↔ ∃ own, asked = own.map left ∧ Runs p own a := by
  induction p generalizing asked with
  | done b =>
    unfold inl
    rw [runs_done_iff]
    constructor
    · rintro ⟨rfl, rfl⟩
      exact ⟨[], rfl, .done a⟩
    · rintro ⟨own, rfl, h⟩
      rcases runs_done_iff.mp h with ⟨rfl, rfl⟩
      exact ⟨rfl, rfl⟩
  | ask c next ih =>
    unfold inl
    rw [runs_ask_iff]
    constructor
    · rintro ⟨answer, rest, rfl, h⟩
      rcases (ih answer).mp h with ⟨own, rfl, hown⟩
      have hask : Runs (ask c next) (⟨c, answer⟩ :: own) a := .ask (c := c) answer hown
      exact ⟨⟨c, answer⟩ :: own, rfl, hask⟩
    · rintro ⟨own, rfl, h⟩
      rcases runs_ask_iff.mp h with ⟨answer, rest, rfl, hrest⟩
      exact ⟨answer, rest.map left, rfl, (ih answer).mpr ⟨rest, rfl, hrest⟩⟩

/-- The calls of the first outside. -/
def lefts : List (Asked (C ⊕ D) (Sum.elim A B)) → List (Asked C A)
  | [] => []
  | ⟨.inl c, answer⟩ :: asked => ⟨c, answer⟩ :: lefts asked
  | ⟨.inr _, _⟩ :: asked => lefts asked

theorem lefts_append (before after : List (Asked (C ⊕ D) (Sum.elim A B))) :
    lefts (before ++ after) = lefts before ++ lefts after := by
  induction before with
  | nil => rfl
  | cons m before ih =>
    rcases m with ⟨c | d, answer⟩
    · exact congrArg (_ :: ·) ih
    · exact ih

theorem lefts_left (own : List (Asked C A)) :
    lefts (own.map left : List (Asked (C ⊕ D) (Sum.elim A B))) = own := by
  induction own with
  | nil => rfl
  | cons m own ih => exact congrArg (m :: ·) ih

end Sums

end Prog

end AutoHeal
