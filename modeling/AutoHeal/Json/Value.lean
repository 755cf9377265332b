import AutoHeal.Python.Str
import Mathlib.Data.List.Sort
import Mathlib.Data.List.Lex

/-!
# Python values and `json.dumps`

The values a Python program hands to `json.dumps` and gets from `json.loads`.
Dict keys need not be strings: `json.dumps` writes an `int`, `float`, `bool` or
`None` key as its text. A value with no JSON form keeps the text `str()` gives
it, which is what `default=str` writes.

Floats stay behind the class `JsonFloat`: what matters here is that the text
`json.dumps` writes for one is a float literal that reads back to it.
-/

namespace AutoHeal

/-- A dict key. `other` is a key `json.dumps` refuses, such as a date. -/
inductive Key (F : Type) where
  | str (s : Str)
  | int (n : Int)
  | float (x : F)
  | bool (b : Bool)
  | none
  | other (text : Str)

/-- A Python value. `obj` is a value without a JSON form, such as a date. -/
inductive PyVal (F : Type) where
  | none
  | bool (b : Bool)
  | int (n : Int)
  | float (x : F)
  | str (s : Str)
  | list (xs : List (PyVal F))
  | dict (kvs : List (Key F × PyVal F))
  | obj (text : Str)

/-- The items of a dict, in insertion order. -/
abbrev Dict (F : Type) := List (Key F × PyVal F)

variable {F : Type}

/-- Induction over a value: a list or a dict may assume the motive of what it
holds. -/
@[induction_eliminator]
theorem PyVal.induction {motive : PyVal F → Prop}
    (none : motive .none) (bool : ∀ b, motive (.bool b)) (int : ∀ n, motive (.int n))
    (float : ∀ x, motive (.float x)) (str : ∀ s, motive (.str s))
    (list : ∀ xs : List (PyVal F), (∀ x ∈ xs, motive x) → motive (.list xs))
    (dict : ∀ kvs : Dict F, (∀ kv ∈ kvs, motive kv.2) → motive (.dict kvs))
    (obj : ∀ s, motive (.obj s)) : ∀ v, motive v := by
  intro v
  refine @PyVal.rec F motive (fun xs => ∀ x ∈ xs, motive x)
    (fun kvs => ∀ kv ∈ kvs, motive kv.2) (fun kv => motive kv.2)
    none bool int float str list dict obj ?_ ?_ ?_ ?_ ?_ v
  · intro x hx; cases hx
  · intro x xs hx hxs y hy
    rcases List.mem_cons.mp hy with rfl | hy
    · exact hx
    · exact hxs y hy
  · intro kv hkv; cases hkv
  · intro kv kvs hkv hkvs kv' hkv'
    rcases List.mem_cons.mp hkv' with rfl | hkv'
    · exact hkv
    · exact hkvs kv' hkv'
  · intro k v hv; exact hv

/-! ## Number literals -/

/-- A JSON number literal: sign, integer digits, fraction digits and exponent
part (from the `e` on), the last two empty when absent. -/
structure NumLit where
  neg : Bool
  int : Str
  frac : Str
  exp : Str

/-- The literal as written. -/
def NumLit.text (l : NumLit) : Str :=
  (if l.neg then [45] else []) ++ l.int ++ (if l.frac = [] then [] else 46 :: l.frac) ++ l.exp

/-- The grammar of JSON numbers. -/
structure NumLit.Valid (l : NumLit) : Prop where
  int_ne : l.int ≠ []
  int_digits : ∀ c ∈ l.int, isDigit c = true
  int_zero : l.int.head? = some 48 → l.int = [48]
  frac_digits : ∀ c ∈ l.frac, isDigit c = true
  exp_form : l.exp = [] ∨ ∃ e sign digits, l.exp = e :: (sign ++ digits) ∧ (e = 101 ∨ e = 69) ∧
    (sign = [] ∨ sign = [43] ∨ sign = [45]) ∧ digits ≠ [] ∧ ∀ c ∈ digits, isDigit c = true

/-- A literal with a fraction or an exponent denotes a float. -/
def NumLit.IsFloat (l : NumLit) : Prop := ¬ (l.frac = [] ∧ l.exp = [])

instance (l : NumLit) : Decidable l.IsFloat := inferInstanceAs (Decidable (¬ (_ ∧ _)))

/-- The texts `json.dumps` writes for a float. -/
def FloatText (t : Str) : Prop :=
  t = py "NaN" ∨ t = py "Infinity" ∨ t = py "-Infinity" ∨
    ∃ l : NumLit, l.Valid ∧ l.IsFloat ∧ l.text = t

/-- Python floats, as far as `json` uses them. -/
class JsonFloat (F : Type) where
  /-- `float(text)` -/
  ofText : Str → F
  /-- the text `json.dumps` writes -/
  text : F → Str
  /-- the order `sort_keys` sorts float keys by, against each other and against
  integer keys -/
  le : F → F → Bool
  leInt : F → Int → Bool
  intLe : Int → F → Bool
  text_form : ∀ x, FloatText (text x)
  ofText_text : ∀ x, ofText (text x) = x

variable [JsonFloat F]

/-! ## String literals -/

/-- A lower-case hexadecimal digit. -/
def hexDigit (n : Nat) : CodePoint := Fin.ofNat 0x110000 (if n < 10 then 48 + n else 87 + n)

/-- `\uXXXX` for a number below `0x10000`. -/
def escapeUnit (u : Nat) : Str :=
  [92, 117, hexDigit (u / 4096), hexDigit (u / 256 % 16), hexDigit (u / 16 % 16), hexDigit (u % 16)]

/-- One code point inside a string literal, with `ensure_ascii`. -/
def escapeChar (c : CodePoint) : Str :=
  if c = 34 then [92, 34]            -- "
  else if c = 92 then [92, 92]       -- \
  else if c = 10 then [92, 110]      -- \n
  else if c = 13 then [92, 114]      -- \r
  else if c = 9 then [92, 116]       -- \t
  else if c = 12 then [92, 102]      -- \f
  else if c = 8 then [92, 98]        -- \b
  else if 32 ≤ c.val ∧ c.val < 127 then [c]
  else if c.val < 0x10000 then escapeUnit c.val
  else
    escapeUnit (0xD800 + (c.val - 0x10000) / 1024) ++
      escapeUnit (0xDC00 + (c.val - 0x10000) % 1024)

/-- A string literal. -/
def printStr (s : Str) : Str := 34 :: (s.flatMap escapeChar ++ [34])

/-! ## Printing -/

/-- The separators of `json.dumps`: `(", ", ": ")` by default, or `(",", ":")`. -/
inductive Style where
  | spaced
  | compact

/-- What follows a comma or a colon. -/
def Style.gap : Style → Str
  | .spaced => [32]
  | .compact => []

/-- The text of a dict key. -/
def keyText : Key F → Str
  | .str s => s
  | .int n => intText n
  | .float x => JsonFloat.text x
  | .bool b => if b then py "true" else py "false"
  | .none => py "null"
  | .other t => t

mutual
/-- The text of a value, keys in the order they have. -/
def print (st : Style) : PyVal F → Str
  | .none => py "null"
  | .bool b => if b then py "true" else py "false"
  | .int n => intText n
  | .float x => JsonFloat.text x
  | .str s => printStr s
  | .list [] => [91, 93]
  | .list (x :: xs) => 91 :: (print st x ++ printElems st xs ++ [93])
  | .dict [] => [123, 125]
  | .dict ((k, v) :: kvs) =>
    123 :: (printStr (keyText k) ++ 58 :: st.gap ++ print st v ++ printMembers st kvs ++ [125])
  | .obj t => printStr t
termination_by structural v => v

/-- List elements, each after a comma. -/
def printElems (st : Style) : List (PyVal F) → Str
  | [] => []
  | x :: xs => 44 :: (st.gap ++ print st x ++ printElems st xs)
termination_by structural xs => xs

/-- Dict items, each after a comma. -/
def printMembers (st : Style) : Dict F → Str
  | [] => []
  | (k, v) :: kvs =>
    44 :: (st.gap ++ printStr (keyText k) ++ 58 :: st.gap ++ print st v ++ printMembers st kvs)
termination_by structural kvs => kvs
end

/-! ## Keys in order -/

/-- The order `sort_keys` puts two keys in. -/
def keyLe : Key F → Key F → Bool
  | .str a, .str b => decide (a ≤ b)
  | a, b =>
    match numOf a, numOf b with
    | some (.inl m), some (.inl n) => decide (m ≤ n)
    | some (.inl m), some (.inr y) => JsonFloat.intLe m y
    | some (.inr x), some (.inl n) => JsonFloat.leInt x n
    | some (.inr x), some (.inr y) => JsonFloat.le x y
    | _, _ => true
where
  /-- The number a key is compared as. -/
  numOf : Key F → Option (Int ⊕ F)
    | .int n => some (.inl n)
    | .bool b => some (.inl (if b then 1 else 0))
    | .float x => some (.inr x)
    | _ => Option.none

/-- Dict items in key order. -/
def sortItems (kvs : Dict F) : Dict F :=
  kvs.insertionSort fun a b => keyLe a.1 b.1 = true

mutual
/-- The value with the items of every dict in key order. -/
def sortKeys : PyVal F → PyVal F
  | .list xs => .list (sortKeysList xs)
  | .dict kvs => .dict (sortItems (sortKeysDict kvs))
  | v => v
termination_by structural v => v

def sortKeysList : List (PyVal F) → List (PyVal F)
  | [] => []
  | x :: xs => sortKeys x :: sortKeysList xs
termination_by structural xs => xs

def sortKeysDict : Dict F → Dict F
  | [] => []
  | (k, v) :: kvs => (k, sortKeys v) :: sortKeysDict kvs
termination_by structural kvs => kvs
end

omit [JsonFloat F] in
def Key.isText : Key F → Bool
  | .str _ => true
  | _ => false

omit [JsonFloat F] in
def Key.isNumber : Key F → Bool
  | .int _ | .float _ | .bool _ => true
  | _ => false

omit [JsonFloat F] in
/-- Keys of one kind can be compared: strings with strings, numbers with numbers.
One key alone needs no comparison. -/
def comparableKeys (kvs : Dict F) : Bool :=
  kvs.length ≤ 1 || kvs.all (fun kv => kv.1.isText) || kvs.all (fun kv => kv.1.isNumber)

end AutoHeal
