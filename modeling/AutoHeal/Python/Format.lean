import AutoHeal.Python.Runtime

/-!
# `str.format`

A format string is read code point by code point into its pieces, `pieces`, and these are
rendered one after another until one raises. The fields of a string are looked up among
keyword arguments only, which is how the program formats its templates.

What attributes and items objects have and how they are formatted is behind the class
`PyObjects`. Strings among them behave as strings, `strFormat` being `format(s, spec)`.
-/

namespace AutoHeal

/-- Why `str.format` raises. A `KeyError` and an `IndexError` come with their text. -/
inductive FormatError where
  | keyError (text : Str)
  | indexError (text : Str)
  | raised (error : PyErr)

/-! ## Numbers -/

/-- The value of a decimal digit. -/
def decimalValue (c : CodePoint) : Option ℕ :=
  if isDigit (toAsciiDecimal c) then some ((toAsciiDecimal c).val - 48) else none

/-- `PY_SSIZE_T_MAX`. -/
def maxSsize : ℕ := 2 ^ 63 - 1

/-- What a text is as an index. -/
inductive Index where
  | text
  | tooLarge
  | number (n : ℕ)
  deriving DecidableEq

def indexFrom (value : ℕ) : Str → Index
  | [] => .number value
  | c :: cs =>
    match decimalValue c with
    | none => .text
    | some digit =>
      if maxSsize < 10 * value + digit then .tooLarge else indexFrom (10 * value + digit) cs

def asIndex (s : Str) : Index := if s = [] then .text else indexFrom 0 s

/-! ## Pieces -/

/-- A field as it is written: `{name!conversion:spec}`. -/
structure FieldText where
  name : Str
  conversion : Option CodePoint
  spec : Str
  deriving DecidableEq

/-- A piece of a format string. The string is malformed where one is `bad`. -/
inductive Piece where
  | char (c : CodePoint)
  | field (f : FieldText)
  | bad
  deriving DecidableEq

/-- Where one is in a format string. -/
inductive FormatScan where
  | text
  | opened
  | closed
  | inName (name : Str)
  | inBracket (name : Str)
  | afterBang (name : Str)
  | afterConversion (name : Str) (conversion : CodePoint)
  | inSpec (name : Str) (conversion : Option CodePoint) (depth : ℕ) (spec : Str)

/-- A code point of a field name. -/
def FormatScan.nameStep (name : Str) (c : CodePoint) : Option (List Piece × FormatScan) :=
  if c = 123 then none                                              -- {
  else if c = 91 then some ([], .inBracket (name ++ [c]))           -- [
  else if c = 125 then some ([.field ⟨name, none, []⟩], .text)      -- }
  else if c = 58 then some ([], .inSpec name none 0 [])             -- :
  else if c = 33 then some ([], .afterBang name)                    -- !
  else some ([], .inName (name ++ [c]))

/-- The next code point, `none` being a `ValueError`. -/
def FormatScan.step : FormatScan → CodePoint → Option (List Piece × FormatScan)
  | .text, c =>
    if c = 123 then some ([], .opened)
    else if c = 125 then some ([], .closed)
    else some ([.char c], .text)
  | .opened, c => if c = 123 then some ([.char c], .text) else nameStep [] c
  | .closed, c => if c = 125 then some ([.char c], .text) else none
  | .inName name, c => nameStep name c
  | .inBracket name, c =>
    if c = 93 then some ([], .inName (name ++ [c])) else some ([], .inBracket (name ++ [c]))
  | .afterBang name, c => some ([], .afterConversion name c)
  | .afterConversion name conversion, c =>
    if c = 125 then some ([.field ⟨name, some conversion, []⟩], .text)
    else if c = 58 then some ([], .inSpec name (some conversion) 0 [])
    else none
  | .inSpec name conversion depth spec, c =>
    if c = 123 then some ([], .inSpec name conversion (depth + 1) (spec ++ [c]))
    else if c = 125 then
      match depth with
      | 0 => some ([.field ⟨name, conversion, spec⟩], .text)
      | depth + 1 => some ([], .inSpec name conversion depth (spec ++ [c]))
    else some ([], .inSpec name conversion depth (spec ++ [c]))

/-- The pieces of the rest of a format string. -/
def piecesFrom : FormatScan → Str → List Piece
  | .text, [] => []
  | _, [] => [.bad]
  | scan, c :: cs =>
    match scan.step c with
    | none => [.bad]
    | some (out, scan) => out ++ piecesFrom scan cs

/-- The pieces of a format string, up to where it is malformed. -/
def pieces (template : Str) : List Piece := piecesFrom .text template

/-! ## What follows the first name of a field -/

/-- `.name`, `[3]` or `[name]`. -/
inductive Access where
  | attr (name : Str)
  | item (index : ℕ ⊕ Str)
  | bad

def attrAccess (name : Str) : Access := if name = [] then .bad else .attr name

def itemAccess (name : Str) : Access :=
  match asIndex name with
  | .tooLarge => .bad
  | .number n => .item (.inl n)
  | .text => if name = [] then .bad else .item (.inr name)

/-- Where one is in the accesses of a field. -/
inductive AccessScan where
  | next
  | attr (name : Str)
  | item (name : Str)

/-- The accesses of the rest of a field name, up to where it is malformed. -/
def accesses : AccessScan → Str → List Access
  | .next, [] => []
  | .attr name, [] => [attrAccess name]
  | .item _, [] => [.bad]
  | .next, c :: cs =>
    if c = 46 then accesses (.attr []) cs
    else if c = 91 then accesses (.item []) cs
    else [.bad]
  | .attr name, c :: cs =>
    if c = 46 then attrAccess name :: accesses (.attr []) cs
    else if c = 91 then attrAccess name :: accesses (.item []) cs
    else accesses (.attr (name ++ [c])) cs
  | .item name, c :: cs =>
    if c = 93 then itemAccess name :: accesses .next cs else accesses (.item (name ++ [c])) cs

/-! ## `format(s, spec)` for a string -/

def isAlign (c : CodePoint) : Bool := c == 60 || c == 61 || c == 62 || c == 94

/-- The fill and alignment of a format specification, whether a fill is given, and the rest. -/
def scanAlign : Str → CodePoint × CodePoint × Bool × Str
  | f :: a :: rest =>
    if isAlign a then (f, a, true, rest)
    else if isAlign f then (32, f, false, a :: rest)
    else (32, 60, false, f :: a :: rest)
  | [a] => if isAlign a then (32, a, false, []) else (32, 60, false, [a])
  | [] => (32, 60, false, [])

/-- A number at the start of a text, if there is one, and the rest. -/
def scanDecimal (s : Str) : Option (Option ℕ × Str) :=
  let digits := s.takeWhile fun c => (decimalValue c).isSome
  let rest := s.dropWhile fun c => (decimalValue c).isSome
  match asIndex digits with
  | .tooLarge => none
  | .number n => some (some n, rest)
  | .text => some (none, rest)

/-- A precision at the start of a text, if there is one, and the rest. -/
def scanPrecision : Str → Option (Option ℕ × Str)
  | [] => some (none, [])
  | c :: cs =>
    if c = 46 then (scanDecimal cs).filter fun p => p.1.isSome
    else some (none, c :: cs)

/-- The padding of a text to a width. -/
def padText (fill align : CodePoint) (width : ℕ) (s : Str) : Str :=
  let missing := width - s.length
  let left := if align = 62 then missing else if align = 94 then missing / 2 else 0
  List.replicate left fill ++ s ++ List.replicate (missing - left) fill

/-- `format(s, spec)`, `none` being a `ValueError`. A string takes no sign, no `z`, no `#`, no
grouping and no `=`. -/
def strFormat (spec s : Str) : Option Str :=
  let (fill, align, filled, spec) := scanAlign spec
  if (spec.head?.any fun c => c == 32 || c == 43 || c == 45 || c == 122 || c == 35) then none
  else do
    let (fill, spec) := if !filled && spec.head? == some 48 then (48, spec.tail) else (fill, spec)
    let (width, spec) ← scanDecimal spec
    let (precision, spec) ← scanPrecision spec
    if spec ≠ [] ∧ spec ≠ [115] then none
    else if align = 61 then none
    else some (padText fill align (width.getD 0) (s.take (precision.getD s.length)))

/-- Without a specification a string is itself. -/
theorem strFormat_nil (s : Str) : strFormat [] s = some s := by
  simp [strFormat, scanAlign, scanDecimal, scanPrecision, asIndex, padText]

/-! ## Objects -/

variable (F : Type) [PyRuntime F]

/-- The objects a field can reach: values, their attributes, and what these have. -/
class PyObjects (O : Type) where
  ofVal : PyVal F → O
  /-- `getattr(o, name)` -/
  getAttr : O → Str → Except FormatError O
  /-- `o[index]` -/
  getItem : O → ℕ ⊕ Str → Except FormatError O
  toStr : O → Except FormatError Str
  repr : O → Except FormatError Str
  ascii : O → Except FormatError Str
  /-- `format(o, spec)` -/
  format : O → Str → Except FormatError Str
  toStr_str : ∀ s, toStr (ofVal (.str s)) = .ok s
  getItem_index : ∀ s n, getItem (ofVal (.str s)) (.inl n) =
    match s[n]? with
    | some c => .ok (ofVal (.str [c]))
    | none => .error (.indexError (py "string index out of range"))
  getItem_text : ∀ s name, getItem (ofVal (.str s)) (.inr name) = .error (.raised .typeError)
  format_str : ∀ s spec, format (ofVal (.str s)) spec =
    match strFormat spec s with
    | some t => .ok t
    | none => .error (.raised .valueError)
  format_nil : ∀ v, format (ofVal v) [] = .ok (pyStr v)

variable {O : Type} [PyObjects F O]

/-- An access of an object. -/
def access (o : O) : Access → Except FormatError O
  | .attr name => PyObjects.getAttr F o name
  | .item index => PyObjects.getItem F o index
  | .bad => .error (.raised .valueError)

/-- The object of a field. There are no positional arguments. -/
def fieldObject (kwargs : List (Str × O)) (name : Str) : Except FormatError O :=
  let first := name.takeWhile fun c => c ≠ 46 ∧ c ≠ 91
  let outOfRange (n : ℕ) : FormatError := .indexError (py "Replacement index " ++ natText n ++
    py " out of range for positional args tuple")
  match asIndex first with
  | .tooLarge => .error (.raised .valueError)
  | .number n => .error (outOfRange n)
  | .text =>
    if first = [] then .error (outOfRange 0)
    else
      match kwargs.lookup first with
      | none => .error (.keyError (PyRuntime.repr (.str first : PyVal F)))
      | some o => (accesses .next (name.drop first.length)).foldlM (access F) o

/-- `!s`, `!r` or `!a`. -/
def convert (conversion : Option CodePoint) (o : O) : Except FormatError O :=
  let value (text : Except FormatError Str) : Except FormatError O :=
    text.map fun s => PyObjects.ofVal (.str s : PyVal F)
  match conversion with
  | none => .ok o
  | some c =>
    if c = 115 then value (PyObjects.toStr F o)
    else if c = 114 then value (PyObjects.repr F o)
    else if c = 97 then value (PyObjects.ascii F o)
    else .error (.raised .valueError)

/-- A piece, rendered. `expand` renders the specification of a field that has fields itself. -/
def renderPiece (expand : Str → Except FormatError Str) (kwargs : List (Str × O)) :
    Piece → Except FormatError Str
  | .char c => .ok [c]
  | .bad => .error (.raised .valueError)
  | .field f => do
    let o ← fieldObject F kwargs f.name
    let o ← convert F f.conversion o
    let spec ← if 123 ∈ f.spec then expand f.spec else .ok f.spec
    PyObjects.format F o spec

/-- Pieces, rendered in order. -/
def renderPieces (expand : Str → Except FormatError Str) (kwargs : List (Str × O)) :
    List Piece → Except FormatError Str
  | [] => .ok []
  | p :: ps => do
    let text ← renderPiece F expand kwargs p
    let rest ← renderPieces expand kwargs ps
    return text ++ rest

/-- `template.format(**kwargs)` with fields in specifications down to a depth. -/
def formatDepth (kwargs : List (Str × O)) : ℕ → Str → Except FormatError Str
  | 0, _ => .error (.raised .valueError)
  | depth + 1, template => renderPieces F (formatDepth kwargs depth) kwargs (pieces template)

/-- `template.format(**kwargs)`. -/
def strDotFormat (kwargs : List (Str × O)) (template : Str) : Except FormatError Str :=
  formatDepth F kwargs 2 template

/-! ## Objects to run examples with -/

/-- Values without attributes. -/
instance : PyObjects NanFloat (PyVal NanFloat) where
  ofVal v := v
  getAttr _ _ := .error (.raised .attributeError)
  getItem
    | .str s, .inl n =>
      match s[n]? with
      | some c => .ok (.str [c])
      | none => .error (.indexError (py "string index out of range"))
    | _, _ => .error (.raised .typeError)
  toStr v := .ok (pyStr v)
  repr v := .ok (PyRuntime.repr v)
  ascii v := .ok (PyRuntime.repr v)
  format
    | .str s, spec =>
      match strFormat spec s with
      | some t => .ok t
      | none => .error (.raised .valueError)
    | v, spec => if spec = [] then .ok (pyStr v) else .error (.raised .typeError)
  toStr_str _ := rfl
  getItem_index _ _ := rfl
  getItem_text _ _ := rfl
  format_str _ _ := rfl
  format_nil v := by
    cases v with
    | str s => simp [strFormat_nil]
    | _ => rfl

end AutoHeal
