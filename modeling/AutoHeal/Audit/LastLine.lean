import AutoHeal.Audit.Append

/-!
# The last line of a text

`_read_last_line` reads a file backward, in chunks of any size. Of a text it finds what a reader of
the whole text finds (`readLastLineIn_exact`): the chunks may end inside a character or inside the
newlines at the end.
-/

namespace AutoHeal

/-! ## Lists with separators -/

section Lists

variable {α : Type} [DecidableEq α] (sep : α)

/-- What is after the last separator before the trailing ones, if anything is. -/
def lastPart (xs : List α) : Option (List α) :=
  let stripped := (xs.reverse.dropWhile fun x => x == sep).reverse
  if stripped = [] then none else some (stripped.reverse.takeWhile fun x => x != sep).reverse

/-- The list ends in this part and trailing separators. -/
def EndsInPart (xs part : List α) : Prop :=
  part ≠ [] ∧ sep ∉ part ∧ ∃ before count, (before = [] ∨ ∃ init, before = init ++ [sep]) ∧
    xs = before ++ part ++ List.replicate count sep

theorem lastPart_of_endsInPart {xs part : List α} (h : EndsInPart sep xs part) :
    lastPart sep xs = some part := by
  rcases h with ⟨hne, hsep, before, count, hbefore, rfl⟩
  have htrailing : (before ++ part ++ List.replicate count sep).reverse =
      List.replicate count sep ++ (part.reverse ++ before.reverse) := by simp
  have hdropped : ((before ++ part ++ List.replicate count sep).reverse.dropWhile
      fun x => x == sep) = part.reverse ++ before.reverse := by
    rw [htrailing, List.dropWhile_append_of_pos (by simp)]
    rcases hpart : part.reverse with _ | ⟨x, rest⟩
    · exact absurd (List.reverse_eq_nil_iff.mp hpart) hne
    · have hx : x ≠ sep := by
        rintro rfl
        exact hsep (List.mem_reverse.mp (hpart ▸ List.mem_cons_self))
      rw [List.cons_append, List.dropWhile_cons_of_neg (by simpa using hx)]
  have hall : ∀ x ∈ part.reverse, (x != sep) = true := by
    intro x hx
    have hx' : x ≠ sep := fun heq => hsep (heq ▸ List.mem_reverse.mp hx)
    simpa using hx'
  have htaken : ((part.reverse ++ before.reverse).takeWhile fun x => x != sep) = part.reverse := by
    rw [List.takeWhile_append_of_pos hall]
    rcases hbefore with rfl | ⟨init, rfl⟩ <;> simp
  unfold lastPart
  simp only [hdropped, List.reverse_reverse, htaken]
  rw [if_neg (by simp [hne])]

theorem lastPart_of_all {xs : List α} (h : ∀ x ∈ xs, x = sep) : lastPart sep xs = none := by
  have hdropped : (xs.reverse.dropWhile fun x => x == sep) = [] := by
    rw [List.dropWhile_eq_nil_iff]
    intro x hx
    simpa using h x (List.mem_reverse.mp hx)
  unfold lastPart
  simp [hdropped]

/-- There are only separators, or a last part. -/
theorem all_or_endsInPart (xs : List α) : (∀ x ∈ xs, x = sep) ∨ ∃ part, EndsInPart sep xs part := by
  induction xs using List.reverseRecOn with
  | nil => exact Or.inl (by simp)
  | append_singleton xs x ih =>
    by_cases hx : x = sep
    · -- one more trailing separator
      subst hx
      rcases ih with hall | ⟨part, hne, hsep, before, count, hbefore, rfl⟩
      · left
        intro y hy
        rcases List.mem_append.mp hy with hy | hy
        · exact hall y hy
        · exact List.mem_singleton.mp hy
      · refine Or.inr ⟨part, hne, hsep, before, count + 1, hbefore, ?_⟩
        rw [List.replicate_succ', List.append_assoc, List.append_assoc]
    · right
      rcases xs.eq_nil_or_concat with rfl | ⟨init, y, rfl⟩
      · exact ⟨[x], by simp, by simpa using Ne.symm hx, [], 0, Or.inl rfl, by simp⟩
      · by_cases hy : y = sep
        · -- the part begins here
          subst hy
          exact ⟨[x], by simp, by simpa using Ne.symm hx, init ++ [y], 0, Or.inr ⟨init, rfl⟩,
            by simp⟩
        · rcases ih with hall | ⟨part, hne, hsep, before, count, hbefore, heq⟩
          · exact absurd (hall y (by simp)) hy
          · -- no separator is at the end of what comes before
            rcases count with _ | count
            · refine ⟨part ++ [x], by simp, ?_, before, 0, hbefore, ?_⟩
              · simpa [hsep] using Ne.symm hx
              · rw [heq]
                simp
            · rw [List.replicate_succ', ← List.append_assoc, List.concat_eq_append] at heq
              have hlast := (List.append_inj' heq rfl).2
              exact absurd (by simpa using hlast) hy

theorem lastPart_eq_none_iff {xs : List α} : lastPart sep xs = none ↔ ∀ x ∈ xs, x = sep := by
  constructor
  · intro h
    rcases all_or_endsInPart sep xs with hall | ⟨part, hpart⟩
    · exact hall
    · rw [lastPart_of_endsInPart sep hpart] at h
      cases h
  · exact lastPart_of_all sep

theorem lastPart_eq_some_iff {xs part : List α} :
    lastPart sep xs = some part ↔ EndsInPart sep xs part := by
  constructor
  · intro h
    rcases all_or_endsInPart sep xs with hall | ⟨part', hpart⟩
    · rw [lastPart_of_all sep hall] at h
      cases h
    · rw [lastPart_of_endsInPart sep hpart] at h
      cases h
      exact hpart
  · exact lastPart_of_endsInPart sep

end Lists

/-! ## Bytes of a text -/

theorem decodeUtf8_replicate (count : ℕ) :
    decodeUtf8 (List.replicate count 10) = some (List.replicate count 10) := by
  induction count with
  | zero => rfl
  | succ count ih =>
    have hcons := decodeUtf8_append_newline [] (List.replicate count 10)
    rw [ih] at hcons
    exact hcons

theorem decodeUtf8_append_replicate (bs : Bytes) (count : ℕ) :
    decodeUtf8 (bs ++ List.replicate count 10) =
      (decodeUtf8 bs).map (· ++ List.replicate count 10) := by
  cases count with
  | zero => simp
  | succ count =>
    rw [List.replicate_succ, decodeUtf8_append_newline, decodeUtf8_replicate]
    cases decodeUtf8 bs <;> rfl

/-- The last line of the bytes is that of the text. -/
theorem endsInPart_decoded {file line : Bytes} {t : Str} (ht : decodeUtf8 file = some t)
    (h : EndsInPart 10 file line) : ∃ s, decodeUtf8 line = some s ∧ EndsInPart 10 t s := by
  rcases h with ⟨hne, hline, before, count, hbefore, rfl⟩
  rw [decodeUtf8_append_replicate] at ht
  rcases Option.map_eq_some_iff.mp ht with ⟨u, hu, rfl⟩
  have hnil : ∀ s, decodeUtf8 line = some s → s ≠ [] := by
    rintro s hs rfl
    exact hne (eq_nil_of_decodeFrom hs)
  rcases hbefore with rfl | ⟨init, rfl⟩
  · rw [List.nil_append] at hu
    exact ⟨u, hu, hnil u hu, newline_notMem_decodeUtf8 hline hu, [], count, Or.inl rfl, by simp⟩
  · rw [List.append_assoc, List.singleton_append, decodeUtf8_append_newline] at hu
    rcases Option.bind_eq_some_iff.mp hu with ⟨first, hfirst, hrest⟩
    rcases Option.map_eq_some_iff.mp hrest with ⟨s, hs, rfl⟩
    exact ⟨s, hs, hnil s hs, newline_notMem_decodeUtf8 hline hs, first ++ [10], count,
      Or.inr ⟨first, rfl⟩, by simp⟩

namespace Audit

/-! ## The reader -/

/-- `_read_last_line`, with its chunk size. -/
def readLastLineIn (chunkSize : ℕ) (hchunk : 0 < chunkSize) (file : Option Bytes) :
    Py (Option Str) :=
  match file with
  | none => .ok none
  | some bytes => lastLineLoop bytes chunkSize hchunk bytes.length []

theorem readLastLine_eq_readLastLineIn (file : Option Bytes) :
    readLastLine file = readLastLineIn 65536 (by decide) file := by
  cases file <;> rfl

/-- The last line does not depend on the chunk size. -/
theorem readLastLineIn_eq (chunkSize : ℕ) (hchunk : 0 < chunkSize) (file : Bytes) :
    readLastLineIn chunkSize hchunk (some file) =
      match lastLine file with
      | none => .ok none
      | some l => (decoded l).map some := by
  unfold readLastLineIn
  rcases Nat.eq_zero_or_pos file.length with hzero | hpos
  · rw [List.length_eq_zero_iff.mp hzero]
    show lastLineLoop [] chunkSize hchunk 0 [] = _
    rw [lastLineLoop, dif_pos rfl]
    rfl
  · have h := lastLineLoop_eq file hchunk hpos le_rfl
    rwa [List.drop_length] at h

/-- Of a text the reader returns the last line, for every chunk size. -/
theorem readLastLineIn_exact (chunkSize : ℕ) (hchunk : 0 < chunkSize) :
    readLastLineIn chunkSize hchunk none = .ok none ∧
    ∀ file t, decodeUtf8 file = some t →
      readLastLineIn chunkSize hchunk (some file) = .ok (lastPart 10 t) ∧
      (lastPart 10 t = none ↔ ∀ c ∈ t, c = 10) ∧
      ∀ line, lastPart 10 t = some line ↔ EndsInPart 10 t line := by
  refine ⟨rfl, fun file t ht => ⟨?_, lastPart_eq_none_iff 10, fun line => lastPart_eq_some_iff 10⟩⟩
  have hlast : lastLine file = lastPart 10 file := rfl
  rw [readLastLineIn_eq, hlast]
  rcases all_or_endsInPart 10 file with hall | ⟨line, hline⟩
  · have hfile := List.eq_replicate_of_mem hall
    rw [hfile, decodeUtf8_replicate] at ht
    cases ht
    rw [lastPart_of_all 10 hall, lastPart_of_all 10 fun c hc => List.eq_of_mem_replicate hc]
  · rcases endsInPart_decoded ht hline with ⟨s, hs, hends⟩
    rw [lastPart_of_endsInPart 10 hline, lastPart_of_endsInPart 10 hends]
    simp [decoded, hs, Except.map]

/-- Chunks of one byte, which end inside the last character and inside the newlines. -/
theorem readLastLineIn_exact_example :
    readLastLineIn 1 (by decide) (some [97, 10, 0xC3, 0xA9, 10, 10]) = .ok (some [233]) := by
  have h := (readLastLineIn_exact 1 (by decide)).2 [97, 10, 0xC3, 0xA9, 10, 10]
    [97, 10, 233, 10, 10] (by decide)
  rw [h.1]
  rfl

end Audit

end AutoHeal
