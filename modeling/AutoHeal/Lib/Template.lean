import Mathlib.Data.List.Nodup
import Mathlib.Data.List.Range

/-!
# Filled templates

A template with values put in, as its parts. `fill` is the text, and `place` gives the characters
of each part with their places in it, so that it can be told which characters of a text a reader has
kept, and not only how what it has kept looks.
-/

namespace AutoHeal

variable {C V α : Type}

/-- A part of a filled template: a character of the template, or a value. -/
inductive Part (C V : Type) where
  | lit (c : C)
  | value (v : V)

/-- A part as it is written. -/
def Part.text (shown : V → List C) : Part C V → List C
  | .lit c => [c]
  | .value v => shown v

/-- The text. -/
def fill (shown : V → List C) (ps : List (Part C V)) : List C := ps.flatMap (Part.text shown)

@[simp] theorem fill_nil (shown : V → List C) : fill shown [] = [] := rfl

@[simp] theorem fill_lit (shown : V → List C) (c : C) (ps : List (Part C V)) :
    fill shown (.lit c :: ps) = c :: fill shown ps := rfl

@[simp] theorem fill_value (shown : V → List C) (v : V) (ps : List (Part C V)) :
    fill shown (.value v :: ps) = shown v ++ fill shown ps := rfl

/-- The part with another value. -/
def Part.map {W : Type} (f : V → W) : Part C V → Part C W
  | .lit c => .lit c
  | .value v => .value (f v)

theorem fill_map {W : Type} (f : V → W) (shown : W → List C) (ps : List (Part C V)) :
    fill shown (ps.map (Part.map f)) = fill (fun v => shown (f v)) ps := by
  induction ps with
  | nil => rfl
  | cons p ps ih => cases p <;> simp [Part.map, ih]

/-! ## Places -/

/-- The parts, each with its characters and their places from a number on. -/
def place (shown : V → List C) : ℕ → List (Part C V) → List (Part C V × List (C × ℕ))
  | _, [] => []
  | n, p :: ps => (p, (p.text shown).zipIdx n) :: place shown (n + (p.text shown).length) ps

/-- The places are those of the text. -/
theorem flatMap_place (shown : V → List C) (n : ℕ) (ps : List (Part C V)) :
    (place shown n ps).flatMap (·.2) = (fill shown ps).zipIdx n := by
  induction ps generalizing n with
  | nil => rfl
  | cons p ps ih =>
    show (p.text shown).zipIdx n ++ (place shown (n + (p.text shown).length) ps).flatMap (·.2) =
      (p.text shown ++ fill shown ps).zipIdx n
    rw [ih, List.zipIdx_append]

/-- The places of a text come after those before it. -/
theorem notMem_zipIdx {xs : List C} {n m : ℕ} (h : m < n) (c : C) : (c, m) ∉ xs.zipIdx n := by
  intro hmem
  have := List.le_snd_of_mem_zipIdx hmem
  simp only at this
  omega

end AutoHeal
