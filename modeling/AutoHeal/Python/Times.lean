import Mathlib.Data.Rat.Defs
import Mathlib.Algebra.Order.Ring.Unbundled.Rat
import AutoHeal.Python.Runtime

/-!
# Times and values

The clock gives rational times here. What comes out of a file is compared with them as Python
compares numbers, and is a `TypeError` if it is none.
-/

namespace AutoHeal

/-- Comparisons of floats with times. -/
class FloatTimes (F : Type) where
  /-- `q < x` -/
  ratLt : ℚ → F → Bool
  /-- `x < q` -/
  ltRat : F → ℚ → Bool

variable {F : Type}

/-- A number: an integer, a float, or a boolean. -/
def IsNumber (v : PyVal F) : Prop := v.num ≠ none

variable [FloatTimes F]

/-- `q < v`. -/
def timeLess (q : ℚ) (v : PyVal F) : Py Bool :=
  match v.num with
  | some (.inl n) => .ok (decide (q < n))
  | some (.inr x) => .ok (FloatTimes.ratLt q x)
  | none => .error .typeError

theorem timeLess_isOk_iff {q : ℚ} {v : PyVal F} : (∃ b, timeLess q v = .ok b) ↔ IsNumber v := by
  unfold timeLess IsNumber
  rcases v.num with _ | n | x
  · simp
  · simp
  · simp

/-- Examples have no floats to compare. -/
instance : FloatTimes NanFloat where
  ratLt _ _ := false
  ltRat _ _ := false

/-! ## Times from a file -/

section FromFile

omit [FloatTimes F]

/-- What a float stands for. -/
inductive FloatValue where
  | finite (q : ℚ)
  | posInf
  | negInf
  | nan
  deriving DecidableEq

/-- `x < q`. -/
def FloatValue.less (q : ℚ) : FloatValue → Bool
  | .finite p => p < q
  | .negInf => true
  | .posInf | .nan => false

/-- Floats with what they stand for. -/
class FloatValues (F : Type) where
  value : F → FloatValue

instance : FloatValues NanFloat where
  value _ := .nan

variable [FloatValues F]

/-- `v < q`. -/
def lessTime (v : PyVal F) (q : ℚ) : Py Bool :=
  match v.num with
  | some (.inl n) => .ok (decide ((n : ℚ) < q))
  | some (.inr x) => .ok ((FloatValues.value x).less q)
  | none => .error .typeError

theorem lessTime_isOk_iff {v : PyVal F} {q : ℚ} : (∃ b, lessTime v q = .ok b) ↔ IsNumber v := by
  unfold lessTime IsNumber
  rcases v.num with _ | n | x
  · simp
  · simp
  · simp

/-- No float is as large as the integer: it has no `float()`. -/
def beyondFloat (n : Int) : Bool := 2 ^ 1024 - 2 ^ 970 ≤ n.natAbs

end FromFile

/-! ## Arithmetic -/

/-- `q < x`. -/
def FloatValue.above (q : ℚ) : FloatValue → Bool
  | .finite p => q < p
  | .posInf => true
  | .negInf | .nan => false

/-- `-x`. -/
def FloatValue.neg : FloatValue → FloatValue
  | .finite p => .finite (-p)
  | .posInf => .negInf
  | .negInf => .posInf
  | .nan => .nan

/-- `x + y`. -/
def FloatValue.add : FloatValue → FloatValue → FloatValue
  | .nan, _ | _, .nan => .nan
  | .posInf, .negInf | .negInf, .posInf => .nan
  | .posInf, _ | _, .posInf => .posInf
  | .negInf, _ | _, .negInf => .negInf
  | .finite p, .finite q => .finite (p + q)

/-- A number: an integer, or what a float stands for. -/
inductive Number where
  | int (n : Int)
  | float (x : FloatValue)
  deriving DecidableEq

/-- The number a value is, if it is one. -/
def numberOf [FloatValues F] (v : PyVal F) : Option Number :=
  v.num.map fun
    | .inl n => .int n
    | .inr x => .float (FloatValues.value x)

namespace Number

/-- `x <= 0`. -/
def notPositive : Number → Bool
  | int n => n ≤ 0
  | float (.finite q) => q ≤ 0
  | float .negInf => true
  | float .posInf | float .nan => false

/-- `float(x)`. -/
def toFloat : Number → Py FloatValue
  | int n => if beyondFloat n then .error .overflowError else .ok (.finite n)
  | float x => .ok x

/-- `x - y`. -/
def sub : Number → Number → Py Number
  | int m, int n => .ok (int (m - n))
  | x, y => do
    let x ← x.toFloat
    let y ← y.toFloat
    return float (x.add y.neg)

/-- `max(x, 1)`. -/
def max1 : Number → Number
  | int n => int (max n 1)
  | float x => if x.less 1 then int 1 else float x

/-- `now + x`. -/
def after (now : ℚ) (x : Number) : Py FloatValue := do
  let x ← x.toFloat
  return (FloatValue.finite now).add x

end Number

end AutoHeal
