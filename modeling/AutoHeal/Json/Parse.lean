import AutoHeal.Json.Value

/-!
# `json.loads`

The scanner of Python's `json` module: `parseValue` reads one value and leaves
the rest of the text. Every call gets one unit of fuel less than its caller;
`parse` starts with twice the length of the text, which no text exhausts.

`parse` keeps the items of an object as they are written. `resolve` then builds
the dicts: of several items with one key the last value wins, at the place of
the first.
-/

namespace AutoHeal

variable {F : Type} [JsonFloat F]

/-! ## Tokens -/

/-- JSON whitespace. -/
def isJsonWs (c : CodePoint) : Bool := c == 32 || c == 9 || c == 10 || c == 13

def skipWs (s : Str) : Str := s.dropWhile isJsonWs

/-- Skip whitespace and read the code point `c`. -/
def token (c : CodePoint) (s : Str) : Option Str :=
  match skipWs s with
  | [] => none
  | d :: ds => if d = c then some ds else none

/-- Read a fixed text. -/
def expect : Str → Str → Option Str
  | [], s => some s
  | _ :: _, [] => none
  | c :: cs, d :: ds => if d = c then expect cs ds else none

/-! ## Strings -/

def hexValue (c : CodePoint) : Option Nat :=
  if 48 ≤ c.val ∧ c.val ≤ 57 then some (c.val - 48)
  else if 97 ≤ c.val ∧ c.val ≤ 102 then some (c.val - 87)
  else if 65 ≤ c.val ∧ c.val ≤ 70 then some (c.val - 55)
  else none

/-- The four digits of a `\uXXXX` escape. -/
def hexUnit (a b c d : CodePoint) : Option CodePoint := do
  let a ← hexValue a
  let b ← hexValue b
  let c ← hexValue c
  let d ← hexValue d
  some (Fin.ofNat 0x110000 (((a * 16 + b) * 16 + c) * 16 + d))

/-- The one-letter escapes. -/
def simpleEscape (c : CodePoint) : Option CodePoint :=
  if c = 34 ∨ c = 92 ∨ c = 47 then some c
  else if c = 98 then some 8
  else if c = 102 then some 12
  else if c = 110 then some 10
  else if c = 114 then some 13
  else if c = 116 then some 9
  else none

/-- The body of a string literal up to its closing quote, each escape read as
one code point. -/
def scanUnits : Str → Option (Str × Str)
  | [] => none
  | c :: cs =>
    if c = 34 then some ([], cs)
    else if c = 92 then
      match cs with
      | [] => none
      | e :: es =>
        if e = 117 then
          match es with
          | a :: b :: c :: d :: ds =>
            (hexUnit a b c d).bind fun u => (scanUnits ds).map fun p => (u :: p.1, p.2)
          | _ => none
        else (simpleEscape e).bind fun u => (scanUnits es).map fun p => (u :: p.1, p.2)
    else if c.val < 32 then none
    else (scanUnits cs).map fun p => (c :: p.1, p.2)

def isHighSurrogate (c : CodePoint) : Bool := 0xD800 ≤ c.val && c.val ≤ 0xDBFF

def isLowSurrogate (c : CodePoint) : Bool := 0xDC00 ≤ c.val && c.val ≤ 0xDFFF

/-- The code point a surrogate pair stands for. -/
def surrogatePair (a b : CodePoint) : CodePoint :=
  Fin.ofNat 0x110000 (0x10000 + (a.val - 0xD800) * 1024 + (b.val - 0xDC00))

/-- Surrogate pairs become the code points they stand for. The text of a file is
decoded UTF-8 and has no surrogates, so a pair comes from two escapes. -/
def joinSurrogates : Str → Str
  | [] => []
  | [c] => [c]
  | a :: b :: s =>
    if isHighSurrogate a && isLowSurrogate b then surrogatePair a b :: joinSurrogates s
    else a :: joinSurrogates (b :: s)

/-- A string literal after its opening quote. -/
def scanString (s : Str) : Option (Str × Str) :=
  (scanUnits s).map fun p => (joinSurrogates p.1, p.2)

/-! ## Numbers -/

def scanInt (s : Str) : Option (Str × Str) :=
  match s with
  | [] => none
  | c :: cs =>
    if c = 48 then some ([48], cs)
    else if isDigit c then some (s.takeWhile isDigit, s.dropWhile isDigit)
    else none

/-- The fraction digits, none where the point is not followed by one. -/
def scanFrac (s : Str) : Str × Str :=
  match s with
  | [] => ([], [])
  | c :: cs =>
    if c = 46 ∧ cs.takeWhile isDigit ≠ [] then (cs.takeWhile isDigit, cs.dropWhile isDigit)
    else ([], s)

def scanSign (s : Str) : Str × Str :=
  match s with
  | [] => ([], [])
  | c :: cs => if c = 43 ∨ c = 45 then ([c], cs) else ([], s)

/-- The exponent part, none where it has no digit. -/
def scanExp (s : Str) : Str × Str :=
  match s with
  | [] => ([], [])
  | c :: cs =>
    if (c = 101 ∨ c = 69) ∧ (scanSign cs).2.takeWhile isDigit ≠ [] then
      (c :: ((scanSign cs).1 ++ (scanSign cs).2.takeWhile isDigit),
        (scanSign cs).2.dropWhile isDigit)
    else ([], s)

def scanNumber (s : Str) : Option (NumLit × Str) :=
  let neg := s.head? == some 45
  (scanInt (if neg then s.tail else s)).map fun p =>
    (⟨neg, p.1, (scanFrac p.2).1, (scanExp (scanFrac p.2).2).1⟩, (scanExp (scanFrac p.2).2).2)

/-- The value of a number literal. -/
def NumLit.value (l : NumLit) : PyVal F :=
  if l.IsFloat then .float (JsonFloat.ofText l.text)
  else .int (if l.neg then -(digitsValue l.int : Int) else digitsValue l.int)

/-- The constants, with the floats `json` writes by name. -/
def constants : List (Str × PyVal F) :=
  [(py "null", .none), (py "true", .bool true), (py "false", .bool false),
    (py "NaN", .float (JsonFloat.ofText (py "NaN"))),
    (py "Infinity", .float (JsonFloat.ofText (py "Infinity"))),
    (py "-Infinity", .float (JsonFloat.ofText (py "-Infinity")))]

def scanConstant (s : Str) : Option (PyVal F × Str) :=
  constants.findSome? fun kv => (expect kv.1 s).map fun r => (kv.2, r)

/-! ## Values -/

mutual
/-- Read one value. -/
def parseValue : Nat → Str → Option (PyVal F × Str)
  | 0, _ => none
  | _ + 1, [] => none
  | n + 1, c :: cs =>
    if c = 34 then (scanString cs).map fun p => (.str p.1, p.2)
    else if c = 123 then
      match token 125 cs with
      | some r => some (.dict [], r)
      | none => (parseMembers n (skipWs cs)).map fun p => (.dict p.1, p.2)
    else if c = 91 then
      match token 93 cs with
      | some r => some (.list [], r)
      | none => (parseElems n (skipWs cs)).map fun p => (.list p.1, p.2)
    else
      match scanConstant (c :: cs) with
      | some p => some p
      | none => (scanNumber (c :: cs)).map fun p => (p.1.value, p.2)

/-- The elements of a list, up to the closing bracket. -/
def parseElems : Nat → Str → Option (List (PyVal F) × Str)
  | 0, _ => none
  | n + 1, s => do
    let (v, r) ← parseValue n s
    match token 93 r with
    | some r' => some ([v], r')
    | none =>
      let r' ← token 44 r
      let (vs, r'') ← parseElems n (skipWs r')
      some (v :: vs, r'')

/-- The items of an object, up to the closing brace. -/
def parseMembers : Nat → Str → Option (Dict F × Str)
  | 0, _ => none
  | _ + 1, [] => none
  | n + 1, c :: cs =>
    if c = 34 then do
      let (k, r) ← scanString cs
      let r' ← token 58 r
      let (v, r'') ← parseValue n (skipWs r')
      match token 125 r'' with
      | some s => some ([(.str k, v)], s)
      | none =>
        let s ← token 44 r''
        let (kvs, s') ← parseMembers n (skipWs s)
        some ((.str k, v) :: kvs, s')
    else none
end

/-- One value with whitespace around it. -/
def parse (s : Str) : Option (PyVal F) :=
  match parseValue (2 * s.length) (skipWs s) with
  | some (v, r) => if skipWs r = [] then some v else none
  | none => none

/-! ## Dicts -/

omit [JsonFloat F] in
/-- `k` is the string key `s`. -/
def Key.isStr (s : Str) : Key F → Bool
  | .str t => t == s
  | _ => false

/-- `d[s] = v` for a string key: in place, or at the end. -/
def Dict.set (s : Str) (v : PyVal F) : Dict F → Dict F
  | [] => [(.str s, v)]
  | (k, w) :: kvs => if k.isStr s then (k, v) :: kvs else (k, w) :: Dict.set s v kvs

/-- `d.get(s)` for a string key. -/
def Dict.get? (s : Str) : Dict F → Option (PyVal F)
  | [] => none
  | (k, v) :: kvs => if k.isStr s then some v else Dict.get? s kvs

/-- `dict(pairs)`. -/
def dictOfPairs (kvs : Dict F) : Dict F :=
  kvs.foldl (fun d kv => match kv.1 with
    | .str s => Dict.set s kv.2 d
    | k => d ++ [(k, kv.2)]) []

mutual
/-- Build the dict of every object. -/
def resolve : PyVal F → PyVal F
  | .list xs => .list (resolveList xs)
  | .dict kvs => .dict (dictOfPairs (resolveDict kvs))
  | v => v
termination_by structural v => v

def resolveList : List (PyVal F) → List (PyVal F)
  | [] => []
  | x :: xs => resolve x :: resolveList xs
termination_by structural xs => xs

def resolveDict : Dict F → Dict F
  | [] => []
  | (k, v) :: kvs => (k, resolve v) :: resolveDict kvs
termination_by structural kvs => kvs
end

/-- `json.loads(s)`, `none` being `JSONDecodeError`. -/
def loads (s : Str) : Option (PyVal F) := (parse s).map resolve

end AutoHeal
