import Mathlib.Algebra.GroupWithZero.Nat
import Mathlib.Data.List.Basic
import Mathlib.Data.Fin.Basic
import Mathlib.Tactic.Common

/-!
# Strings, text files and UTF-8

A Python `str` is a list of code points, lone surrogates included, and a file
is a list of bytes. This module has what the programs under verification use of
both: `str.strip`, decimal text, the lines a text-mode file is read in, and the
strict UTF-8 codec.
-/

namespace AutoHeal

/-- A Unicode code point. Surrogates are code points, so a Python `str` may
hold them one by one. -/
abbrev CodePoint := Fin 0x110000

/-- So a literal is a code point. -/
instance neZero_codePoints : NeZero 0x110000 := ⟨by decide⟩

/-- A Python `str`. -/
abbrev Str := List CodePoint

instance lawfulBEq_str : LawfulBEq Str := inferInstance

/-- The content of a file. -/
abbrev Bytes := List UInt8

/-- The code point of a character. -/
def cp (c : Char) : CodePoint := Fin.ofNat 0x110000 c.toNat

/-- A string literal. -/
def py (s : String) : Str := s.toList.map cp

/-! ## Whitespace -/

/-- The code points `str.strip` removes. -/
def isSpace (c : CodePoint) : Bool :=
  (9 ≤ c.val && c.val ≤ 13) || (28 ≤ c.val && c.val ≤ 32) || c.val == 0x85 || c.val == 0xA0 ||
    c.val == 0x1680 || (0x2000 ≤ c.val && c.val ≤ 0x200A) || c.val == 0x2028 ||
    c.val == 0x2029 || c.val == 0x202F || c.val == 0x205F || c.val == 0x3000

/-- `str.strip()`. -/
def strip (s : Str) : Str := ((s.dropWhile isSpace).reverse.dropWhile isSpace).reverse

/-- A text whose first and last code points are not spaces is its own `strip`. -/
theorem strip_eq_self {s : Str} (hhead : ∀ c ∈ s.head?, isSpace c = false)
    (hlast : ∀ c ∈ s.getLast?, isSpace c = false) : strip s = s := by
  have hfront : s.dropWhile isSpace = s := by
    cases s with
    | nil => rfl
    | cons c cs => simp [List.dropWhile, hhead c (by simp)]
  have hback : s.reverse.dropWhile isSpace = s.reverse := by
    cases hr : s.reverse with
    | nil => rfl
    | cons c cs =>
      have hc : s.getLast? = some c := by
        rw [List.getLast?_eq_head?_reverse, hr]
        rfl
      simp [List.dropWhile, hlast c (by simp [hc])]
  rw [strip, hfront, hback, List.reverse_reverse]

/-! ## Decimal text -/

/-- `str(n)` for a natural number. -/
def natText (n : Nat) : Str := (Nat.toDigits 10 n).map cp

/-- `str(n)` for an integer. -/
def intText (n : Int) : Str := if n < 0 then 45 :: natText n.natAbs else natText n.natAbs

/-- An ASCII decimal digit. -/
def isDigit (c : CodePoint) : Bool := 48 ≤ c.val && c.val ≤ 57

/-- The number a run of decimal digits denotes. -/
def digitsValue (s : Str) : Nat := s.foldl (fun acc c => 10 * acc + (c.val - 48)) 0

theorem cp_val {c : Char} (h : c.toNat < 0x110000) : (cp c).val = c.toNat := by
  simp [cp, Fin.ofNat, Nat.mod_eq_of_lt h]

theorem isDigit_cp {c : Char} (h : c.isDigit = true) : isDigit (cp c) = true := by
  have hbounds : 48 ≤ c.toNat ∧ c.toNat ≤ 57 := by
    simp only [Char.isDigit, Bool.and_eq_true, decide_eq_true_eq] at h
    exact ⟨h.1, h.2⟩
  rw [isDigit, cp_val (by omega)]
  simp [hbounds.1, hbounds.2]

theorem isDigit_of_mem_natText {n : Nat} {c : CodePoint} (h : c ∈ natText n) :
    isDigit c = true := by
  obtain ⟨d, hd, rfl⟩ := List.mem_map.mp h
  exact isDigit_cp (Nat.isDigit_of_mem_toDigits (by omega) (by omega) hd)

theorem natText_ne_nil (n : Nat) : natText n ≠ [] := by
  simp [natText, Nat.toDigits_ne_nil]

theorem digitsValue_natText (n : Nat) : digitsValue (natText n) = n := by
  have hval : ∀ c ∈ Nat.toDigits 10 n, (cp c).val = c.toNat := by
    intro c hc
    have hd := Nat.isDigit_of_mem_toDigits (by omega) (by omega) hc
    simp only [Char.isDigit, Bool.and_eq_true, decide_eq_true_eq] at hd
    exact cp_val (lt_of_le_of_lt hd.2 (by decide))
  have hfold : ∀ (l : List Char) (acc : Nat), (∀ c ∈ l, (cp c).val = c.toNat) →
      (l.map cp).foldl (fun acc c => 10 * acc + (c.val - 48)) acc = Nat.ofDigitChars 10 l acc := by
    intro l
    induction l with
    | nil => intro acc _; simp [Nat.ofDigitChars]
    | cons c l ih =>
      intro acc h
      simp only [List.map_cons, List.foldl_cons, Nat.ofDigitChars_cons]
      rw [h c (by simp), ih _ (fun d hd => h d (by simp [hd]))]
      rfl
  rw [digitsValue, natText, hfold _ _ hval, Nat.ofDigitChars_toDigits (by omega) (by omega)]

theorem natText_injective : Function.Injective natText := by
  intro m n h
  have := congrArg digitsValue h
  rwa [digitsValue_natText, digitsValue_natText] at this

/-- Decimal text has no leading zero, except `0` itself. -/
theorem head_natText {n : Nat} (hn : n ≠ 0) : (natText n).head? ≠ some 48 := by
  induction n using Nat.strong_induction_on with
  | _ n ih =>
    rw [natText, Nat.toDigits_eq_if (by omega)]
    split
    · next hlt =>
      have : ∀ m : Nat, m < 10 → m ≠ 0 → ([Nat.digitChar m].map cp).head? ≠ some 48 := by decide
      exact this n hlt hn
    · next hge =>
      have hdiv := ih (n / 10) (by omega) (by omega)
      have hne := natText_ne_nil (n / 10)
      rw [natText] at hdiv hne
      rw [List.map_append, List.head?_append_of_ne_nil _ hne]
      exact hdiv

/-! ## Lines -/

/-- Universal newlines: a text-mode file is read with `\r\n` and `\r` as `\n`. -/
def translateNewlines : Str → Str
  | [] => []
  | c :: cs =>
    if c = 13 then
      match cs with
      | [] => [10]
      | d :: ds => if d = 10 then 10 :: translateNewlines ds else 10 :: translateNewlines (d :: ds)
    else c :: translateNewlines cs

/-- The lines a text has, without their terminators. -/
def splitLines : Str → List Str
  | [] => []
  | c :: cs =>
    if c = 10 then [] :: splitLines cs
    else
      match splitLines cs with
      | [] => [[c]]
      | l :: ls => (c :: l) :: ls

/-- What `for line in f` yields for a text-mode file, terminators left out. -/
def textLines (s : Str) : List Str := splitLines (translateNewlines s)

theorem splitLines_append_newline (s t : Str) :
    splitLines (s ++ 10 :: t) = splitLines (s ++ [10]) ++ splitLines t := by
  induction s with
  | nil => simp [splitLines]
  | cons c cs ih =>
    simp only [List.cons_append, splitLines]
    split
    · simp [ih]
    · rw [ih]
      have hne : splitLines (cs ++ [10]) ≠ [] := by
        cases cs with
        | nil => simp [splitLines]
        | cons d ds => simp only [List.cons_append, splitLines]; split <;> [simp; split <;> simp]
      cases h : splitLines (cs ++ [10]) with
      | nil => exact absurd h hne
      | cons l ls => simp

theorem splitLines_of_no_newline {s : Str} (hs : 10 ∉ s) (t : Str) :
    splitLines (s ++ 10 :: t) = s :: splitLines t := by
  induction s with
  | nil => simp [splitLines]
  | cons c cs ih =>
    have hc : c ≠ 10 := fun h => hs (by simp [h])
    simp [splitLines, hc, ih (fun h => hs (by simp [h]))]

theorem translateNewlines_cons {c : CodePoint} (hc : c ≠ 13) (cs : Str) :
    translateNewlines (c :: cs) = c :: translateNewlines cs := by
  cases cs <;> simp [translateNewlines, hc]

theorem translateNewlines_append_newline (s t : Str) :
    translateNewlines (s ++ 10 :: t) = translateNewlines (s ++ [10]) ++ translateNewlines t := by
  fun_induction translateNewlines s with
  | case1 => simp [translateNewlines, translateNewlines_cons]
  | case2 => simp [translateNewlines]
  | case3 ds ih => simp [translateNewlines, ih]
  | case4 d ds hd ih =>
    simp only [List.cons_append] at ih
    simp [translateNewlines, hd, ih]
  | case5 c cs hc ih => simp [translateNewlines_cons hc, ih]

theorem translateNewlines_of_no_return {s : Str} (hs : 13 ∉ s) : translateNewlines s = s := by
  induction s with
  | nil => rfl
  | cons c cs ih =>
    have hc : c ≠ 13 := fun h => hs (by simp [h])
    rw [translateNewlines_cons hc, ih (fun h => hs (by simp [h]))]

/-- A newline ends a line of a text file whatever follows it. -/
theorem textLines_append_newline (s t : Str) :
    textLines (s ++ 10 :: t) = textLines (s ++ [10]) ++ textLines t := by
  have hend : ∀ u : Str, ∃ v, translateNewlines (u ++ [10]) = v ++ [10] := by
    intro u
    fun_induction translateNewlines u with
    | case1 => exact ⟨[], by simp [translateNewlines]⟩
    | case2 => exact ⟨[], by simp [translateNewlines]⟩
    | case3 ds ih =>
      obtain ⟨v, hv⟩ := ih
      exact ⟨10 :: v, by simp [translateNewlines, hv]⟩
    | case4 d ds hd ih =>
      obtain ⟨v, hv⟩ := ih
      simp only [List.cons_append] at hv
      exact ⟨10 :: v, by simp [translateNewlines, hd, hv]⟩
    | case5 c cs hc ih =>
      obtain ⟨v, hv⟩ := ih
      exact ⟨c :: v, by simp [translateNewlines_cons hc, hv]⟩
  obtain ⟨v, hv⟩ := hend s
  rw [textLines, translateNewlines_append_newline, textLines, textLines, hv, List.append_assoc,
    List.singleton_append, splitLines_append_newline]

/-- A line without line breaks of its own, read at the start of a text file. -/
theorem textLines_line {s : Str} (hs : ∀ c ∈ s, c ≠ 10 ∧ c ≠ 13) (t : Str) :
    textLines (s ++ 10 :: t) = s :: textLines t := by
  have hret : 13 ∉ s ++ [10] := by
    intro h
    rcases List.mem_append.mp h with h | h
    · exact (hs 13 h).2 rfl
    · exact absurd h (by decide)
  rw [textLines_append_newline, textLines, translateNewlines_of_no_return hret,
    splitLines_of_no_newline (fun h => (hs 10 h).1 rfl)]
  simp [splitLines]

end AutoHeal
