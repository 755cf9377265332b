import AutoHeal.Python.Str

/-!
# The UTF-8 codec

`decodeUtf8` is Python's strict decoder, as a machine that reads one byte at a
time: between characters, or owing continuation bytes of which the first is
bounded (this is what excludes overlong forms, surrogates and values above
U+10FFFF).
-/

namespace AutoHeal

/-- Where the decoder stands between two bytes. -/
inductive Utf8State where
  | start
  | owing (count lo hi acc : Nat)

/-- The state after a first byte that is not ASCII. -/
def utf8Lead (b : Nat) : Option Utf8State :=
  if 0xC2 ≤ b ∧ b ≤ 0xDF then some (.owing 1 0x80 0xBF (b - 0xC0))
  else if b = 0xE0 then some (.owing 2 0xA0 0xBF 0)
  else if b = 0xED then some (.owing 2 0x80 0x9F 13)
  else if 0xE1 ≤ b ∧ b ≤ 0xEF then some (.owing 2 0x80 0xBF (b - 0xE0))
  else if b = 0xF0 then some (.owing 3 0x90 0xBF 0)
  else if 0xF1 ≤ b ∧ b ≤ 0xF3 then some (.owing 3 0x80 0xBF (b - 0xF0))
  else if b = 0xF4 then some (.owing 3 0x80 0x8F 4)
  else none

/-- Decode from a state of the machine. -/
def decodeFrom : Utf8State → Bytes → Option Str
  | .start, [] => some []
  | .owing .., [] => none
  | .start, b :: bs =>
    if b.toNat < 0x80 then (decodeFrom .start bs).map (Fin.ofNat 0x110000 b.toNat :: ·)
    else
      match utf8Lead b.toNat with
      | some st => decodeFrom st bs
      | none => none
  | .owing count lo hi acc, b :: bs =>
    if lo ≤ b.toNat ∧ b.toNat ≤ hi then
      let acc' := acc * 64 + (b.toNat - 0x80)
      if count = 1 then (decodeFrom .start bs).map (Fin.ofNat 0x110000 acc' :: ·)
      else decodeFrom (.owing (count - 1) 0x80 0xBF acc') bs
    else none

/-- `data.decode("utf-8")`, `none` being `UnicodeDecodeError`. -/
def decodeUtf8 (bs : Bytes) : Option Str := decodeFrom .start bs

/-- `text.encode("utf-8")` of one code point. -/
def encodeCodePoint (c : CodePoint) : Bytes :=
  let n := c.val
  if n < 0x80 then [UInt8.ofNat n]
  else if n < 0x800 then [UInt8.ofNat (0xC0 + n / 64), UInt8.ofNat (0x80 + n % 64)]
  else if n < 0x10000 then
    [UInt8.ofNat (0xE0 + n / 4096), UInt8.ofNat (0x80 + n / 64 % 64), UInt8.ofNat (0x80 + n % 64)]
  else
    [UInt8.ofNat (0xF0 + n / 262144), UInt8.ofNat (0x80 + n / 4096 % 64),
      UInt8.ofNat (0x80 + n / 64 % 64), UInt8.ofNat (0x80 + n % 64)]

/-- `text.encode("utf-8")`. -/
def encodeUtf8 (s : Str) : Bytes := s.flatMap encodeCodePoint

/-! ## ASCII text -/

/-- A text all of whose code points are below U+0080. -/
def Ascii (s : Str) : Prop := ∀ c ∈ s, c.val < 0x80

theorem encodeUtf8_append (s t : Str) : encodeUtf8 (s ++ t) = encodeUtf8 s ++ encodeUtf8 t := by
  simp [encodeUtf8]

theorem encodeCodePoint_ascii {c : CodePoint} (h : c.val < 0x80) :
    encodeCodePoint c = [UInt8.ofNat c.val] := by
  simp [encodeCodePoint, h]

/-- Bytes of ASCII text decode to it, whatever comes after. -/
theorem decodeUtf8_ascii_append {s : Str} (hs : Ascii s) (bs : Bytes) :
    decodeUtf8 (encodeUtf8 s ++ bs) = (decodeUtf8 bs).map (s ++ ·) := by
  induction s with
  | nil => simp [encodeUtf8]
  | cons c cs ih =>
    have hc : c.val < 0x80 := hs c (by simp)
    have hbyte : (UInt8.ofNat c.val).toNat = c.val := by
      simp only [UInt8.toNat_ofNat']
      omega
    have hcode : Fin.ofNat 0x110000 c.val = c := Fin.ofNat_val_eq_self c
    have htail := ih (fun d hd => hs d (by simp [hd]))
    rw [decodeUtf8] at htail ⊢
    rw [encodeUtf8, List.flatMap_cons, encodeCodePoint_ascii hc, List.singleton_append,
      List.cons_append, decodeFrom, hbyte, if_pos hc, hcode]
    rw [encodeUtf8] at htail
    rw [htail, decodeUtf8]
    cases decodeFrom .start bs <;> simp

theorem decodeUtf8_encodeUtf8 {s : Str} (hs : Ascii s) : decodeUtf8 (encodeUtf8 s) = some s := by
  have h := decodeUtf8_ascii_append hs []
  simpa [decodeUtf8, decodeFrom] using h

/-! ## Splitting at an ASCII character

No multi-byte character has an ASCII byte in it, so bytes decode exactly when the
parts before and after an ASCII byte do. -/

/-- The bounds on a continuation byte leave every ASCII byte out. -/
def Utf8State.Bounded : Utf8State → Prop
  | .start => True
  | .owing _ lo _ _ => 0x80 ≤ lo

theorem utf8Lead_bounded {b : Nat} {st : Utf8State} (h : utf8Lead b = some st) : st.Bounded := by
  unfold utf8Lead at h
  split_ifs at h <;> cases h <;> simp [Utf8State.Bounded]

theorem decodeFrom_append_ascii {c : CodePoint} (hc : c.val < 0x80) {st : Utf8State}
    (hst : st.Bounded) (a b : Bytes) :
    decodeFrom st (a ++ UInt8.ofNat c.val :: b) =
      (decodeFrom st a).bind fun s => (decodeFrom .start b).map fun t => s ++ c :: t := by
  have hbyte : (UInt8.ofNat c.val).toNat = c.val := by
    simp only [UInt8.toNat_ofNat']
    omega
  induction a generalizing st with
  | nil =>
    cases st with
    | start =>
      have hcode : Fin.ofNat 0x110000 c.val = c := Fin.ofNat_val_eq_self c
      have hread : decodeFrom .start (UInt8.ofNat c.val :: b) =
          (decodeFrom .start b).map (c :: ·) := by
        simp only [decodeFrom, hbyte, hc, if_true, hcode]
      rw [List.nil_append, hread]
      rfl
    -- an ASCII byte cannot go on a sequence: both sides have no text
    | owing count lo hi acc =>
      have hlo : ¬ lo ≤ c.val := by
        simp only [Utf8State.Bounded] at hst
        omega
      simp [decodeFrom, hbyte, hlo]
  | cons d cs ih =>
    have hstart := @ih .start trivial
    cases st with
    | start =>
      simp only [List.cons_append, decodeFrom]
      split
      · rw [hstart]
        cases decodeFrom .start cs with
        | none => rfl
        | some s => simp only [Option.bind_some, Option.map_some, Option.map_map]; rfl
      · split
        · next h => exact ih (utf8Lead_bounded h)
        · simp
    | owing count lo hi acc =>
      simp only [List.cons_append, decodeFrom]
      split
      · split
        · rw [hstart]
          cases decodeFrom .start cs with
          | none => rfl
          | some s => simp only [Option.bind_some, Option.map_some, Option.map_map]; rfl
        · exact @ih (.owing (count - 1) 0x80 0xBF _) (le_refl _)
      · simp

theorem decodeUtf8_append_newline (a b : Bytes) :
    decodeUtf8 (a ++ 10 :: b) =
      (decodeUtf8 a).bind fun s => (decodeUtf8 b).map fun t => s ++ 10 :: t :=
  @decodeFrom_append_ascii 10 (by decide) .start trivial a b

/-- Bytes with ASCII text after them decode when they decode by themselves. -/
theorem decodeUtf8_append_ascii (a : Bytes) {s : Str} (hs : Ascii s) :
    decodeUtf8 (a ++ encodeUtf8 s) = (decodeUtf8 a).map (· ++ s) := by
  cases s with
  | nil => simp [encodeUtf8]
  | cons c cs =>
    have hc : c.val < 0x80 := hs c (by simp)
    have htail : decodeUtf8 (encodeUtf8 cs) = some cs :=
      decodeUtf8_encodeUtf8 fun d hd => hs d (by simp [hd])
    have hcons : encodeUtf8 (c :: cs) = UInt8.ofNat c.val :: encodeUtf8 cs := by
      rw [encodeUtf8, List.flatMap_cons, encodeCodePoint_ascii hc, List.singleton_append]
      rfl
    rw [decodeUtf8] at htail ⊢
    rw [hcons, @decodeFrom_append_ascii c hc .start trivial, htail, decodeUtf8]
    cases decodeFrom .start a <;> rfl

/-- A file that ends in a newline decodes to a text that does. -/
theorem decodeUtf8_newline_end {a : Bytes} {s : Str} (h : decodeUtf8 (a ++ [10]) = some s) :
    ∃ t, decodeUtf8 a = some t ∧ s = t ++ [10] := by
  rw [decodeUtf8_append_newline] at h
  cases ha : decodeUtf8 a with
  | none => rw [ha] at h; cases h
  | some t =>
    rw [ha] at h
    exact ⟨t, rfl, by simpa [decodeUtf8, decodeFrom, eq_comm] using h⟩

/-! ## Newlines

A longer form never stands for an ASCII character, so a text has a newline only where its bytes
have one. -/

/-- Whatever continuation bytes come, the character is not ASCII, and a code point. -/
def Utf8State.Large : Utf8State → Prop
  | .start => True
  | .owing count lo hi acc => ∃ scale, (count = 1 ∧ scale = 1 ∨ count = 2 ∧ scale = 64 ∨
      count = 3 ∧ scale = 4096) ∧ 0x80 ≤ lo ∧ hi ≤ 0xBF ∧
      0x80 ≤ (acc * 64 + (lo - 0x80)) * scale ∧ (acc * 64 + (hi - 0x80) + 1) * scale ≤ 0x110000

theorem utf8Lead_large {b : Nat} {st : Utf8State} (h : utf8Lead b = some st) : st.Large := by
  unfold utf8Lead at h
  split_ifs at h
  · cases h
    exact ⟨1, Or.inl ⟨rfl, rfl⟩, by omega⟩
  · cases h
    exact ⟨64, Or.inr (Or.inl ⟨rfl, rfl⟩), by omega⟩
  · cases h
    exact ⟨64, Or.inr (Or.inl ⟨rfl, rfl⟩), by omega⟩
  · cases h
    exact ⟨64, Or.inr (Or.inl ⟨rfl, rfl⟩), by omega⟩
  · cases h
    exact ⟨4096, Or.inr (Or.inr ⟨rfl, rfl⟩), by omega⟩
  · cases h
    exact ⟨4096, Or.inr (Or.inr ⟨rfl, rfl⟩), by omega⟩
  · cases h
    exact ⟨4096, Or.inr (Or.inr ⟨rfl, rfl⟩), by omega⟩

theorem newline_notMem_decodeFrom {st : Utf8State} (hst : st.Large) {bs : Bytes} (hbs : 10 ∉ bs)
    {t : Str} (h : decodeFrom st bs = some t) : 10 ∉ t := by
  induction bs generalizing st t with
  | nil =>
    cases st with
    | start =>
      cases h
      exact List.not_mem_nil
    | owing => cases h
  | cons b bs ih =>
    have hb : b ≠ 10 := fun heq => hbs (by simp [heq])
    have hbs' : 10 ∉ bs := fun hmem => hbs (List.mem_cons_of_mem b hmem)
    -- a character, and then the text of the other bytes
    have hcons : ∀ n, n < 0x110000 → n ≠ 10 →
        (decodeFrom .start bs).map (Fin.ofNat 0x110000 n :: ·) = some t → 10 ∉ t := by
      intro n hlt hne hmap
      rcases Option.map_eq_some_iff.mp hmap with ⟨s, hs, rfl⟩
      intro hmem
      rcases List.mem_cons.mp hmem with heq | hmem
      · have := congrArg Fin.val heq
        simp only [Fin.ofNat, Nat.mod_eq_of_lt hlt] at this
        exact hne this.symm
      · exact ih (show Utf8State.start.Large from trivial) hbs' hs hmem
    cases st with
    | start =>
      simp only [decodeFrom] at h
      by_cases hascii : b.toNat < 0x80
      · rw [if_pos hascii] at h
        refine hcons _ (by omega) (fun heq => hb ?_) h
        exact UInt8.toNat_inj.mp heq
      · rw [if_neg hascii] at h
        cases hlead : utf8Lead b.toNat with
        | none =>
          rw [hlead] at h
          cases h
        | some st =>
          rw [hlead] at h
          exact ih (utf8Lead_large hlead) hbs' h
    | owing count lo hi acc =>
      rcases hst with ⟨scale, hscale, hlo, hhi, hlarge, hbound⟩
      simp only [decodeFrom] at h
      by_cases hrange : lo ≤ b.toNat ∧ b.toNat ≤ hi
      · rw [if_pos hrange] at h
        rcases hscale with ⟨rfl, rfl⟩ | ⟨rfl, rfl⟩ | ⟨rfl, rfl⟩
        · exact hcons _ (by omega) (by omega) h
        · have hnext : (Utf8State.owing 1 0x80 0xBF (acc * 64 + (b.toNat - 0x80))).Large :=
            ⟨1, Or.inl ⟨rfl, rfl⟩, by omega⟩
          exact ih hnext hbs' h
        · have hnext : (Utf8State.owing 2 0x80 0xBF (acc * 64 + (b.toNat - 0x80))).Large :=
            ⟨64, Or.inr (Or.inl ⟨rfl, rfl⟩), by omega⟩
          exact ih hnext hbs' h
      · rw [if_neg hrange] at h
        cases h

theorem newline_notMem_decodeUtf8 {bs : Bytes} {t : Str} (hbs : 10 ∉ bs)
    (h : decodeUtf8 bs = some t) : 10 ∉ t :=
  newline_notMem_decodeFrom (show Utf8State.start.Large from trivial) hbs h

/-- A sequence that has begun gives a character, or no text. -/
theorem decodeFrom_owing_ne_nil (bs : Bytes) (count lo hi acc : Nat) :
    decodeFrom (.owing count lo hi acc) bs ≠ some [] := by
  induction bs generalizing count lo hi acc with
  | nil => simp [decodeFrom]
  | cons b bs ih =>
    simp only [decodeFrom]
    split_ifs
    · intro h
      rcases Option.map_eq_some_iff.mp h with ⟨s, -, hs⟩
      exact List.cons_ne_nil _ _ hs
    · exact ih _ _ _ _
    · exact Option.some_ne_none _ ∘ Eq.symm

/-- Only no bytes at all are the empty text. -/
theorem eq_nil_of_decodeFrom {st : Utf8State} {bs : Bytes} (h : decodeFrom st bs = some []) :
    bs = [] := by
  cases bs with
  | nil => rfl
  | cons b bs =>
    cases st with
    | start =>
      simp only [decodeFrom] at h
      split_ifs at h
      · rcases Option.map_eq_some_iff.mp h with ⟨s, -, hs⟩
        exact absurd hs (List.cons_ne_nil _ _)
      · cases hlead : utf8Lead b.toNat with
        | none =>
          rw [hlead] at h
          cases h
        | some st =>
          rw [hlead] at h
          cases st with
          | start =>
            unfold utf8Lead at hlead
            split_ifs at hlead <;> cases hlead
          | owing => exact absurd h (decodeFrom_owing_ne_nil _ _ _ _ _)
    | owing => exact absurd h (decodeFrom_owing_ne_nil _ _ _ _ _)

/-! ## Text files

A text file is decoded in chunks while its lines are read, so the lines that end
before the chunk with the first error are read before the error is raised. -/

/-- The characters that are complete after some bytes, and where the decoder then
stands. -/
def decodeChunk : Utf8State → Bytes → Option (Str × Utf8State)
  | st, [] => some ([], st)
  | .start, b :: bs =>
    if b.toNat < 0x80 then
      (decodeChunk .start bs).map fun r => (Fin.ofNat 0x110000 b.toNat :: r.1, r.2)
    else
      match utf8Lead b.toNat with
      | some st => decodeChunk st bs
      | none => none
  | .owing count lo hi acc, b :: bs =>
    if lo ≤ b.toNat ∧ b.toNat ≤ hi then
      let acc' := acc * 64 + (b.toNat - 0x80)
      if count = 1 then
        (decodeChunk .start bs).map fun r => (Fin.ofNat 0x110000 acc' :: r.1, r.2)
      else decodeChunk (.owing (count - 1) 0x80 0xBF acc') bs
    else none

/-- The size of the chunks a text file is read in. -/
def textChunk : Nat := 8192

/-- The text of the chunks before the first that cannot be decoded. -/
def textBeforeError (st : Utf8State) : Bytes → Str
  | [] => []
  | b :: bs =>
    match decodeChunk st ((b :: bs).take textChunk) with
    | none => []
    | some (s, st') => s ++ textBeforeError st' ((b :: bs).drop textChunk)
termination_by bs => bs.length
decreasing_by
  rw [List.length_drop, List.length_cons, textChunk]
  omega

/-- The lines of a file that are read before `UnicodeDecodeError` is raised. A final
`\r` may be half of a line break and is held back, a last line without terminator is
not complete. -/
def linesBeforeError (bs : Bytes) : List Str :=
  let text := textBeforeError .start bs
  let held := if text.getLast? = some 13 then text.dropLast else text
  splitLines ((translateNewlines held).reverse.dropWhile fun c => c != 10).reverse

/-- The lines of a file that `for line in f` yields, whether or not it then raises. -/
def readLines (bs : Bytes) : List Str :=
  match decodeUtf8 bs with
  | some text => textLines text
  | none => linesBeforeError bs

end AutoHeal
