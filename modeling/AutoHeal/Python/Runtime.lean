import AutoHeal.Json.Normal

/-!
# Built-ins on values

The exceptions the program catches or lets through, and the built-ins it applies
to values that come out of a file: `int()`, `str()`, `==`, `+ 1`, truth.

What stays uninterpreted is gathered in the class `PyRuntime`: float arithmetic,
`repr` of floats and containers, the text of a decoding error, how deep `json` goes,
and SHA-256, of which nothing is assumed unless a theorem says so.
-/

namespace AutoHeal

/-- The exceptions. `jsonDecodeError` and `unicodeDecodeError` are kinds of
`ValueError`, `overflowError` and `recursionError` are not. -/
inductive PyErr where
  | attributeError
  | jsonDecodeError
  | keyError
  | osError
  | overflowError
  | recursionError
  | typeError
  | unicodeDecodeError
  | valueError
  deriving DecidableEq, Repr

/-- A computation that may raise. -/
abbrev Py (α : Type) := Except PyErr α

@[simp] theorem Py.ok_bind {α β : Type} (a : α) (f : α → Py β) : (Except.ok a >>= f) = f a := rfl

@[simp] theorem Py.error_bind {α β : Type} (e : PyErr) (f : α → Py β) :
    (Except.error e >>= f) = .error e := rfl

@[simp] theorem Py.pure_eq {α : Type} (a : α) : (pure a : Py α) = .ok a := rfl

theorem Py.bind_eq_ok {α β : Type} {x : Py α} {f : α → Py β} {b : β} :
    x.bind f = .ok b ↔ ∃ a, x = .ok a ∧ f a = .ok b := by
  cases x with
  | error e => exact iff_of_false (by rintro ⟨⟩) (by rintro ⟨a, ⟨⟩, -⟩)
  | ok a => simp [Except.bind]

/-- The built-ins the program uses and this development does not define. -/
class PyRuntime (F : Type) extends JsonFloat F where
  /-- `hashlib.sha256(text.encode("utf-8")).hexdigest()` -/
  sha256 : Str → Str
  /-- `int(x)`: `nan` is a `ValueError`, an infinity an `OverflowError` -/
  floatToInt : F → Py Int
  /-- `x + 1` -/
  floatSucc : F → F
  /-- `x == y` -/
  floatEq : F → F → Bool
  /-- `x == n` -/
  floatEqInt : F → Int → Bool
  /-- `repr(v)`, for a float, a list or a dict -/
  repr : PyVal F → Str
  /-- the message of the `JSONDecodeError` a text raises -/
  decodeErrorText : Str → Str
  /-- how many lists and dicts `json` reads and writes inside one another, more being a
  `RecursionError` -/
  jsonLevels : ℕ
  /-- how many lists and dicts a response has inside one another at most, more being an error -/
  responseLevels : ℕ
  /-- a digest is hexadecimal -/
  sha256_printable : ∀ s, Printable (sha256 s)
  /-- `repr` escapes surrogates -/
  repr_plain : ∀ v, NoHigh (repr v)
  /-- a dict with a list in it is written -/
  two_le_jsonLevels : 2 ≤ jsonLevels
  /-- so is a list of dicts in a response -/
  two_le_responseLevels : 2 ≤ responseLevels

variable {F : Type}

/-! ## `int(text)` -/

/-- The zeros of the decimal digit ranges of Unicode. -/
def digitZeros : List Nat :=
  [0x30, 0x660, 0x6F0, 0x7C0, 0x966, 0x9E6, 0xA66, 0xAE6, 0xB66, 0xBE6, 0xC66, 0xCE6, 0xD66, 0xDE6,
    0xE50, 0xED0, 0xF20, 0x1040, 0x1090, 0x17E0, 0x1810, 0x1946, 0x19D0, 0x1A80, 0x1A90, 0x1B50,
    0x1BB0, 0x1C40, 0x1C50, 0xA620, 0xA8D0, 0xA900, 0xA9D0, 0xA9F0, 0xAA50, 0xABF0, 0xFF10, 0x104A0,
    0x10D30, 0x11066, 0x110F0, 0x11136, 0x111D0, 0x112F0, 0x11450, 0x114D0, 0x11650, 0x116C0,
    0x11730, 0x118E0, 0x11950, 0x11C50, 0x11D50, 0x11DA0, 0x11F50, 0x16A60, 0x16AC0, 0x16B50,
    0x1D7CE, 0x1D7D8, 0x1D7E2, 0x1D7EC, 0x1D7F6, 0x1E140, 0x1E2F0, 0x1E4F0, 0x1E950, 0x1FBF0]

/-- A digit or a space outside ASCII becomes the ASCII one, what is neither a
question mark. -/
def toAsciiDecimal (c : CodePoint) : CodePoint :=
  if c.val < 127 then c
  else if isSpace c then 32
  else
    match digitZeros.find? fun z => z ≤ c.val && c.val ≤ z + 9 with
    | some z => Fin.ofNat 0x110000 (48 + (c.val - z))
    | none => 63

def isAsciiSpace (c : CodePoint) : Bool := c == 32 || (9 ≤ c.val && c.val ≤ 13)

/-- `sys.get_int_max_str_digits()`: integers of more digits are neither read nor written. -/
def maxStrDigits : ℕ := 4300

/-- Decimal digits, single underscores allowed between two of them. -/
def intDigits (s : Str) : Option Nat :=
  if (s.all fun c => isDigit c || c == 95) && s.head?.any isDigit && s.getLast?.any isDigit &&
      !(s.zip s.tail).any (fun p => p.1 == 95 && p.2 == 95) &&
      decide ((s.filter isDigit).length ≤ maxStrDigits) then
    some (digitsValue (s.filter isDigit))
  else none

/-- `int(text)`, `none` being `ValueError`. -/
def intOfStr (s : Str) : Option Int :=
  let t := s.map toAsciiDecimal
  let u := ((t.dropWhile isAsciiSpace).reverse.dropWhile isAsciiSpace).reverse
  if u.head? = some 45 then (intDigits u.tail).map fun n => -(n : Int)
  else if u.head? = some 43 then (intDigits u.tail).map fun n => (n : Int)
  else (intDigits u).map fun n => (n : Int)

/-! ## Numbers -/

/-- The number a value is compared as. -/
def PyVal.num : PyVal F → Option (Int ⊕ F)
  | .int n => some (.inl n)
  | .bool b => some (.inl (if b then 1 else 0))
  | .float x => some (.inr x)
  | _ => Option.none

variable [PyRuntime F]

/-- `int(v)`. -/
def toInt : PyVal F → Py Int
  | .int n => .ok n
  | .bool b => .ok (if b then 1 else 0)
  | .float x => PyRuntime.floatToInt x
  | .str s =>
    match intOfStr s with
    | some n => .ok n
    | none => .error .valueError
  | _ => .error .typeError

/-- `str(v)`. -/
def pyStr : PyVal F → Str
  | .none => py "None"
  | .bool b => if b then py "True" else py "False"
  | .int n => intText n
  | .str s => s
  | .obj t => t
  | v => PyRuntime.repr v

/-- `v + 1`. -/
def addOne (v : PyVal F) : Py (PyVal F) :=
  match v.num with
  | some (.inl n) => .ok (.int (n + 1))
  | some (.inr x) => .ok (.float (PyRuntime.floatSucc x))
  | none => .error .typeError

def numEq : Int ⊕ F → Int ⊕ F → Bool
  | .inl m, .inl n => m == n
  | .inl m, .inr y => PyRuntime.floatEqInt y m
  | .inr x, .inl n => PyRuntime.floatEqInt x n
  | .inr x, .inr y => PyRuntime.floatEq x y

/-- `v == w`, where one of the two is a string, a number or `None`. -/
def scalarEq : PyVal F → PyVal F → Bool
  | .str s, .str t => s == t
  | .none, .none => true
  | v, w =>
    match v.num, w.num with
    | some m, some n => numEq m n
    | _, _ => false

/-- `bool(v)`. -/
def truthy : PyVal F → Bool
  | .none => false
  | .bool b => b
  | .int n => n != 0
  | .float x => !PyRuntime.floatEqInt x 0
  | .str s => !s.isEmpty
  | .list xs => !xs.isEmpty
  | .dict kvs => !kvs.isEmpty
  | .obj _ => true

@[simp] theorem toInt_int (n : Int) : toInt (.int n : PyVal F) = .ok n := rfl

@[simp] theorem pyStr_str (s : Str) : pyStr (.str s : PyVal F) = s := rfl

@[simp] theorem addOne_int (n : Int) : addOne (.int n : PyVal F) = .ok (.int (n + 1)) := rfl

@[simp] theorem scalarEq_int (m n : Int) : scalarEq (.int m : PyVal F) (.int n) = (m == n) := rfl

@[simp] theorem scalarEq_str (s t : Str) : scalarEq (.str s : PyVal F) (.str t) = (s == t) := rfl

theorem scalarEq_str_iff {v : PyVal F} {s : Str} : scalarEq v (.str s) = true ↔ v = .str s := by
  cases v <;> simp [scalarEq, PyVal.num]

theorem addOne_of_scalarEq_int {v : PyVal F} {n : Int} (h : scalarEq v (.int n) = true) :
    ∃ w, addOne v = .ok w := by
  cases v <;> simp [scalarEq, PyVal.num] at h <;> exact ⟨_, rfl⟩

/-- What equals a number is a number. -/
theorem addOne_of_scalarEq_addOne {v w x : PyVal F} (hw : addOne w = .ok x)
    (h : scalarEq v x = true) : ∃ y, addOne v = .ok y := by
  have hx : (∃ n, x = .int n) ∨ ∃ y, x = .float y := by
    unfold addOne at hw
    split at hw <;> cases hw
    · exact Or.inl ⟨_, rfl⟩
    · exact Or.inr ⟨_, rfl⟩
  rcases hx with ⟨n, rfl⟩ | ⟨y, rfl⟩
  · exact addOne_of_scalarEq_int h
  · cases v <;> simp [scalarEq, PyVal.num] at h <;> exact ⟨_, rfl⟩

/-! ## A runtime to run examples in -/

/-- Floats of which `nan` is the only one. -/
inductive NanFloat where
  | nan
  deriving DecidableEq, Repr

/-- Examples have no floats in them, and the hash of a printable text is the text
itself, so that different texts have different hashes. -/
instance : PyRuntime NanFloat where
  ofText _ := .nan
  text _ := py "NaN"
  le _ _ := false
  leInt _ _ := false
  intLe _ _ := false
  text_form _ := Or.inl rfl
  ofText_text _ := rfl
  sha256 s := s.map fun c => if 32 ≤ c.val ∧ c.val < 127 then c else 63
  floatToInt _ := .error .valueError
  floatSucc x := x
  floatEq _ _ := false
  floatEqInt _ _ := false
  repr _ := py "nan"
  decodeErrorText _ := py "Expecting value: line 1 column 1 (char 0)"
  jsonLevels := 1000
  responseLevels := 250
  sha256_printable s := by
    intro c hc
    rcases List.mem_map.mp hc with ⟨d, -, rfl⟩
    split
    · assumption
    · decide
  repr_plain _ := Printable.noHigh (by decide)
  two_le_jsonLevels := by decide
  two_le_responseLevels := by decide

theorem sha256_nanFloat {s : Str} (h : Printable s) : PyRuntime.sha256 NanFloat s = s := by
  refine (List.map_congr_left fun c hc => ?_).trans (List.map_id' s)
  exact if_pos (h c hc)

end AutoHeal
