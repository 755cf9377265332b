import AutoHeal.Audit.Chain
import AutoHeal.Json.Brackets
import Mathlib.Data.List.TakeWhile

/-!
# One append

What a single append does to the file, with rotation disabled.

* `readLastLine_eq`: reading backward in chunks finds the text after the last
  newline of the file;
* `writeLocked_ok`: an entry of JSON values is written as one line of printable
  text, after whatever the file holds;
* `kind_line`: on a line of its own, what is written is read back as the entry
  that was returned.
-/

namespace AutoHeal

theorem Printable.ascii {t : Str} (h : Printable t) : Ascii t := fun c hc => by
  have := (h c hc).2
  omega

namespace Audit

/-! ## The last line -/

/-- The part of the file `_read_last_line` returns. -/
def lastLine (file : Bytes) : Option Bytes :=
  if rstripNewlines file = [] then none else some (afterNewline (rstripNewlines file))

/-- The part of the file after its last newline. -/
abbrev unfinished (file : Bytes) : Bytes := afterNewline file

theorem rstripNewlines_append {xs ys : Bytes} (h : rstripNewlines ys ≠ []) :
    rstripNewlines (xs ++ ys) = xs ++ rstripNewlines ys := by
  unfold rstripNewlines at h ⊢
  have hne : ys.reverse.dropWhile (fun b => b == 10) ≠ [] := by
    intro hnil
    exact h (by rw [hnil]; rfl)
  rw [List.reverse_append, List.dropWhile_append, if_neg (by simpa using hne)]
  simp

theorem rstripNewlines_eq_self {xs : Bytes} (h : 10 ∉ xs) : rstripNewlines xs = xs := by
  unfold rstripNewlines
  have hdrop : xs.reverse.dropWhile (fun b => b == 10) = xs.reverse := by
    cases hr : xs.reverse with
    | nil => rfl
    | cons b bs =>
      have hb : b ≠ 10 := fun hb => h (List.mem_reverse.mp (by rw [hr, hb]; simp))
      rw [List.dropWhile_cons_of_neg (by simpa using hb)]
  rw [hdrop, List.reverse_reverse]

theorem rstripNewlines_snoc (xs : Bytes) : rstripNewlines (xs ++ [10]) = rstripNewlines xs := by
  unfold rstripNewlines
  rw [List.reverse_append, List.reverse_singleton, List.singleton_append,
    List.dropWhile_cons_of_pos (by decide)]

theorem afterNewline_append {xs ys : Bytes} (h : 10 ∈ ys) :
    afterNewline (xs ++ ys) = afterNewline ys := by
  unfold afterNewline
  rw [List.reverse_append, List.takeWhile_append, if_neg ?_]
  intro hlen
  have hall := List.takeWhile_eq_self_iff.mp (List.takeWhile_prefix _ |>.eq_of_length hlen)
  have := hall 10 (List.mem_reverse.mpr h)
  simp at this

theorem afterNewline_eq_self {xs : Bytes} (h : 10 ∉ xs) : afterNewline xs = xs := by
  unfold afterNewline
  rw [List.takeWhile_eq_self_iff.mpr ?_, List.reverse_reverse]
  intro b hb
  have hne : b ≠ 10 := fun hb' => h (hb' ▸ List.mem_reverse.mp hb)
  simpa using hne

theorem newline_notMem_afterNewline (xs : Bytes) : 10 ∉ afterNewline xs := by
  intro h
  have := List.mem_takeWhile_imp (List.mem_reverse.mp h)
  simp at this

/-- A text without newlines extends the unfinished line. -/
theorem afterNewline_append_line (xs : Bytes) {ys : Bytes} (h : 10 ∉ ys) :
    afterNewline (xs ++ ys) = afterNewline xs ++ ys := by
  unfold afterNewline
  have hall : ∀ b ∈ ys.reverse, (b != 10) = true := by
    intro b hb
    have hne : b ≠ 10 := fun hb' => h (hb' ▸ List.mem_reverse.mp hb)
    simpa using hne
  rw [List.reverse_append, List.takeWhile_append_of_pos hall, List.reverse_append,
    List.reverse_reverse]

/-- A file is its finished lines and its unfinished one. -/
theorem exists_finished (file : Bytes) :
    (10 ∉ file ∧ afterNewline file = file) ∨ ∃ a, file = a ++ 10 :: afterNewline file := by
  by_cases h : 10 ∈ file
  · right
    have hsplit := List.takeWhile_append_dropWhile (p := fun b : UInt8 => b != 10) (l := file.reverse)
    have hne : file.reverse.dropWhile (fun b => b != 10) ≠ [] := by
      intro hnil
      have := List.dropWhile_eq_nil_iff.mp hnil 10 (List.mem_reverse.mpr h)
      simp at this
    rcases hd : file.reverse.dropWhile (fun b => b != 10) with _ | ⟨b, bs⟩
    · exact absurd hd hne
    · have hb : b = 10 := by
        have := List.head_dropWhile_not (fun b : UInt8 => b != 10) hne
        simpa [hd] using this
      refine ⟨bs.reverse, ?_⟩
      rw [hd, hb] at hsplit
      have := congrArg List.reverse hsplit
      rw [List.reverse_reverse, List.reverse_append, List.reverse_cons, List.append_assoc] at this
      exact this.symm
  · exact Or.inl ⟨h, afterNewline_eq_self h⟩

/-- The loop finds the last line, whatever the chunk size. -/
theorem lastLineLoop_eq (file : Bytes) {chunkSize : Nat} (hchunk : 0 < chunkSize) {pos : Nat}
    (hpos : 0 < pos) (hle : pos ≤ file.length) :
    lastLineLoop file chunkSize hchunk pos (file.drop pos) =
      match lastLine file with
      | none => .ok none
      | some l => (decoded l).map some := by
  induction pos using Nat.strong_induction_on with
  | _ pos ih =>
    -- what has been read is the file from the position on
    have hdata : (file.drop (pos - min chunkSize pos)).take (min chunkSize pos) ++ file.drop pos =
        file.drop (pos - min chunkSize pos) := by
      have htail : file.drop pos =
          (file.drop (pos - min chunkSize pos)).drop (min chunkSize pos) := by
        rw [List.drop_drop]
        congr 1
        omega
      rw [htail, List.take_append_drop]
    have hfile := List.take_append_drop (pos - min chunkSize pos) file
    rw [lastLineLoop, dif_neg (by omega)]
    simp only [hdata]
    by_cases hmem : 10 ∈ rstripNewlines (file.drop (pos - min chunkSize pos))
    · -- a newline before the last line has been read
      have hne : rstripNewlines (file.drop (pos - min chunkSize pos)) ≠ [] :=
        List.ne_nil_of_mem hmem
      have hwhole := @rstripNewlines_append (file.take (pos - min chunkSize pos)) _ hne
      rw [hfile] at hwhole
      rw [if_pos hmem, lastLine, hwhole, if_neg (by simp [hne]), afterNewline_append hmem]
    · rw [if_neg hmem]
      by_cases hzero : pos - min chunkSize pos = 0
      · rw [hzero, List.drop_zero] at hmem ⊢
        rw [if_pos rfl, lastLine, afterNewline_eq_self hmem]
        split <;> rfl
      · rw [if_neg hzero]
        exact ih _ (by omega) (by omega) (by omega)

/-- `_read_last_line` decodes the last line of the file. -/
theorem readLastLine_eq (file : Bytes) :
    readLastLine (some file) =
      match lastLine file with
      | none => .ok none
      | some l => (decoded l).map some := by
  rw [readLastLine]
  cases file with
  | nil =>
    show lastLineLoop [] 65536 _ 0 [] = _
    rw [lastLineLoop, dif_pos rfl]
    rfl
  | cons b bs =>
    have h := lastLineLoop_eq (b :: bs) (by decide : 0 < 65536) (Nat.succ_pos bs.length) le_rfl
    have hend : (b :: bs).drop bs.length.succ = [] := List.drop_eq_nil_of_le le_rfl
    rwa [hend] at h

/-- A file with an unfinished line has it as its last line. -/
theorem lastLine_of_unfinished {file : Bytes} (h : unfinished file ≠ []) :
    lastLine file = some (unfinished file) := by
  have hstrip : rstripNewlines (unfinished file) = unfinished file :=
    rstripNewlines_eq_self (newline_notMem_afterNewline file)
  rcases exists_finished file with ⟨hmem, heq⟩ | ⟨a, ha⟩
  · rw [lastLine, rstripNewlines_eq_self hmem, if_neg (by rw [← heq]; exact h)]
  · have hrest : rstripNewlines file = file := by
      conv_lhs => rw [ha, ← List.singleton_append, ← List.append_assoc]
      rw [rstripNewlines_append (by rw [hstrip]; exact h), hstrip, List.append_assoc,
        List.singleton_append, ← ha]
    have hne : file ≠ [] := by
      rw [ha]
      simp
    rw [lastLine, hrest, if_neg hne]

/-- The last line after a line has been written. -/
theorem lastLine_append (file : Bytes) {line : Bytes} (hline : 10 ∉ line) (hne : line ≠ []) :
    lastLine (file ++ (line ++ [10])) = some (unfinished file ++ line) := by
  have hafter : unfinished (file ++ line) = unfinished file ++ line :=
    afterNewline_append_line file hline
  have hopen : unfinished (file ++ line) ≠ [] := by
    rw [hafter]
    simp [hne]
  have hlast := lastLine_of_unfinished hopen
  rw [hafter] at hlast
  rw [← hlast, lastLine, lastLine, ← List.append_assoc, rstripNewlines_snoc]

variable {F : Type} [PyRuntime F]

/-! ## The state to link to -/

/-- `str()` of a JSON value has no split surrogate pair. -/
theorem joined_pyStr {v : PyVal F} (h : JsonValue v) : joinSurrogates (pyStr v) = pyStr v := by
  cases h with
  | str hs => exact hs
  | none => exact (Printable.noHigh (by decide : Printable (py "None"))).join
  | bool b =>
    cases b with
    | true => exact (Printable.noHigh (by decide : Printable (py "True"))).join
    | false => exact (Printable.noHigh (by decide : Printable (py "False"))).join
  | int n =>
    have hn : Printable (intText n) := intLit_text n ▸ printable_numLit (intLit_valid n)
    exact hn.noHigh.join
  | float x => exact (PyRuntime.repr_plain _).join
  | list _ => exact (PyRuntime.repr_plain _).join
  | dict _ _ _ => exact (PyRuntime.repr_plain _).join

theorem joined_genesisHash : joinSurrogates genesisHash = genesisHash :=
  NoHigh.join (Printable.noHigh (by decide))

theorem linkOf_joined {last : Str} {s : Int × Str} (h : linkOf (F := F) last = .ok s) :
    joinSurrogates s.2 = s.2 := by
  unfold linkOf at h
  split at h
  · cases h
  · next parsed hl =>
    split at h
    · cases h
    · split at h
      · cases h
      · split at h
        · cases h
        · next entryHash he =>
          cases h
          exact joined_pyStr ((jsonValue_of_loads hl).get? he)
  · cases h

theorem currentState_joined {file : Option Bytes} {s : Int × Str}
    (h : currentState F file = .ok s) : joinSurrogates s.2 = s.2 := by
  unfold currentState at h
  split at h
  · cases h
  · cases h
    exact joined_genesisHash
  · split at h
    · next hs =>
      cases h
      exact linkOf_joined hs
    · split_ifs at h
      cases h
      exact joined_genesisHash

/-! ## The written entry -/

/-- The entry as written, linked to the state `s`. -/
def finalized (entry : Dict F) (s : Int × Str) : Dict F :=
  Dict.set (py "entry_hash") (.str (jsonHash (chained entry s))) (chained entry s)

/-- The line of an entry. -/
def lineText (d : Dict F) : Str := print .spaced (.dict d)

/-- The entry has none of the chain fields. -/
def NoChainFields (entry : Dict F) : Prop :=
  Dict.get? (py "sequence") entry = none ∧ Dict.get? (py "prev_hash") entry = none ∧
    Dict.get? (py "entry_hash") entry = none

section Written

variable {entry : Dict F} {s : Int × Str}

omit [PyRuntime F] in
theorem chained_jsonValue (h : JsonValue (.dict entry)) (hs : joinSurrogates s.2 = s.2) :
    JsonValue (.dict (chained entry s)) :=
  (h.set (by decide) (.int _)).set (by decide) (.str hs)

theorem finalized_jsonValue (h : JsonValue (.dict entry)) (hs : joinSurrogates s.2 = s.2) :
    JsonValue (.dict (finalized entry s)) := by
  refine (chained_jsonValue h hs).set (by decide) (.str ?_)
  exact (PyRuntime.sha256_printable _).noHigh.join

theorem get?_finalized_sequence :
    Dict.get? (py "sequence") (finalized entry s) = some (.int (s.1 + 1)) := by
  unfold finalized chained
  rw [Dict.get?_set, if_neg (by decide), Dict.get?_set, if_neg (by decide), Dict.get?_set,
    if_pos rfl]

theorem get?_finalized_prev_hash :
    Dict.get? (py "prev_hash") (finalized entry s) = some (.str s.2) := by
  unfold finalized chained
  rw [Dict.get?_set, if_neg (by decide), Dict.get?_set, if_pos rfl]

theorem get?_finalized_entry_hash : Dict.get? (py "entry_hash") (finalized entry s) =
    some (.str (jsonHash (chained entry s))) := by
  unfold finalized
  rw [Dict.get?_set, if_pos rfl]

theorem hasChainFields_finalized : hasChainFields (finalized entry s) = true := by
  simp [hasChainFields, get?_finalized_sequence, get?_finalized_prev_hash,
    get?_finalized_entry_hash]

theorem field_finalized_sequence :
    field (py "sequence") (finalized entry s) = .int (s.1 + 1) := by
  rw [field, get?_finalized_sequence]
  rfl

theorem field_finalized_prev_hash : field (py "prev_hash") (finalized entry s) = .str s.2 := by
  rw [field, get?_finalized_prev_hash]
  rfl

theorem field_finalized_entry_hash :
    field (py "entry_hash") (finalized entry s) = .str (jsonHash (chained entry s)) := by
  rw [field, get?_finalized_entry_hash]
  rfl

/-- The other fields are those of the entry. -/
theorem field_finalized_of_ne {t : Str} (hseq : t ≠ py "sequence") (hprev : t ≠ py "prev_hash")
    (hhash : t ≠ py "entry_hash") : field t (finalized entry s) = field t entry := by
  unfold field finalized chained
  rw [Dict.get?_set, if_neg hhash, Dict.get?_set, if_neg hprev, Dict.get?_set, if_neg hseq]

/-- Without its hash the written entry is the entry that was hashed. -/
theorem erase_finalized (h : Dict.get? (py "entry_hash") entry = none) :
    Dict.erase (py "entry_hash") (finalized entry s) = chained entry s := by
  have hnone : Dict.get? (py "entry_hash") (chained entry s) = none := by
    unfold chained
    rw [Dict.get?_set, if_neg (by decide), Dict.get?_set, if_neg (by decide), h]
  unfold finalized
  rw [Dict.erase_set, Dict.erase_of_notMem (Dict.get?_eq_none_iff.mp hnone)]

/-- The written entry has the hash of its other fields. -/
theorem intact_finalized (hv : JsonValue (.dict entry)) (hs : joinSurrogates s.2 = s.2)
    (h : Dict.get? (py "entry_hash") entry = none) : Intact (finalized entry s) := by
  refine ⟨_, ?_, field_finalized_entry_hash⟩
  rw [erase_finalized h, hashEntry_of_jsonValue (chained_jsonValue hv hs)]

end Written

/-! ## The written line -/

theorem strip_lineText (d : Dict F) : strip (lineText d) = lineText d := by
  rcases print_dict .spaced d with ⟨body, hbody⟩
  rw [lineText, hbody]
  apply strip_eq_self
  · intro c hc
    cases hc
    decide
  · intro c hc
    rw [← List.cons_append, List.getLast?_append] at hc
    cases hc
    decide

theorem lineText_ne_nil (d : Dict F) : lineText d ≠ [] := by
  rcases print_dict .spaced d with ⟨body, hbody⟩
  rw [lineText, hbody]
  simp

theorem printable_lineText (d : Dict F) : Printable (lineText d) := printable_print .spaced _

theorem ascii_lineText (d : Dict F) : Ascii (lineText d) := (printable_lineText d).ascii

/-- On a line of its own a written entry is read back. -/
theorem kind_lineText {d : Dict F} (hd : JsonValue (.dict d)) :
    kind F (lineText d) = if hasChainFields d then .chained d else .legacy d := by
  have hl : loads (lineText d) = some (PyVal.dict d) := loads_print hd .spaced
  unfold kind
  rw [strip_lineText, if_neg (lineText_ne_nil d), hl]

theorem kind_line {d : Dict F} (hd : JsonValue (.dict d)) (hf : hasChainFields d = true) :
    kind F (lineText d) = .chained d := by
  rw [kind_lineText hd, if_pos hf]

theorem newline_notMem_encode {t : Str} (h : Printable t) : (10 : UInt8) ∉ encodeUtf8 t := by
  intro hmem
  rcases List.mem_flatMap.mp hmem with ⟨c, hc, hb⟩
  have hbound := h c hc
  rw [encodeCodePoint_ascii (by omega), List.mem_singleton] at hb
  have := congrArg UInt8.toNat hb
  rw [UInt8.toNat_ofNat'] at this
  have h10 : (10 : UInt8).toNat = 10 := rfl
  omega

theorem encodeUtf8_ne_nil {t : Str} (h : Ascii t) (hne : t ≠ []) : encodeUtf8 t ≠ [] := by
  cases t with
  | nil => exact absurd rfl hne
  | cons c t =>
    rw [encodeUtf8, List.flatMap_cons, encodeCodePoint_ascii (h c (by simp))]
    simp

/-- The bytes of a line. -/
def lineBytes (d : Dict F) : Bytes := encodeUtf8 (lineText d) ++ [10]

/-- `_write_locked`, for an entry that can be hashed and written. -/
theorem writeLocked_of {c : AuditChain F} {dir : Dir} {entry : Dict F} {s : Int × Str}
    (hs : currentState F (dir.lookup c.base) = .ok s)
    (hhash : hashEntry (chained entry s) = .ok (jsonHash (chained entry s)))
    (hdumps : dumps (.dict (finalized entry s)) = .ok (lineText (finalized entry s))) :
    writeLocked c dir entry =
      (dir.insert c.base ((dir.lookup c.base).getD [] ++ lineBytes (finalized entry s)),
        .ok (finalized entry s)) := by
  unfold finalized at hdumps
  unfold writeLocked
  simp only [hs, hhash, hdumps]
  rw [encodeUtf8_append]
  rfl

/-- `_write_locked`, for an entry of JSON values. -/
theorem writeLocked_ok {c : AuditChain F} {dir : Dir} {entry : Dict F} {s : Int × Str}
    (hentry : JsonValue (.dict entry)) (hs : currentState F (dir.lookup c.base) = .ok s) :
    writeLocked c dir entry =
      (dir.insert c.base ((dir.lookup c.base).getD [] ++ lineBytes (finalized entry s)),
        .ok (finalized entry s)) := by
  have hjoin := currentState_joined hs
  exact writeLocked_of hs (hashEntry_of_jsonValue (chained_jsonValue hentry hjoin))
    (dumps_of_jsonValue (finalized_jsonValue hentry hjoin))

/-- What a write that did not raise has done. -/
theorem exists_of_writeLocked {c : AuditChain F} {dir dir' : Dir} {entry e : Dict F}
    (h : writeLocked c dir entry = (dir', .ok e)) :
    ∃ s, currentState F (dir.lookup c.base) = .ok s ∧
      keysAllowed (.dict (chained entry s)) = true ∧
      keysSortable (.dict (chained entry s)) = true ∧ plain (.dict (finalized entry s)) = true ∧
      e = finalized entry s ∧
      dir' = dir.insert c.base ((dir.lookup c.base).getD [] ++ lineBytes e) := by
  unfold writeLocked at h
  split at h
  · cases h
  · next s hs =>
    refine ⟨s, hs, ?_⟩
    split at h
    · cases h
    · next hash hhash =>
      -- the hash has been taken, so the keys could be sorted and written
      rcases of_hashEntry_ok hhash with ⟨hallowed, hsortable, rfl⟩
      refine ⟨hallowed, hsortable, ?_⟩
      simp only at h
      split at h
      · cases h
      · next line hline =>
        rcases of_dumps_ok hline with ⟨-, hplain, rfl⟩
        cases h
        refine ⟨hplain, rfl, ?_⟩
        rw [encodeUtf8_append]
        rfl

/-- A raised error of `_current_state` is raised by `_write_locked`. -/
theorem writeLocked_error {c : AuditChain F} {dir : Dir} {e : PyErr} (entry : Dict F)
    (hs : currentState F (dir.lookup c.base) = .error e) :
    writeLocked c dir entry = (dir, .error e) := by
  unfold writeLocked
  rw [hs]

/-- With rotation disabled an append is one write. -/
theorem append_disabled [PyDates F] {c : AuditChain F}
    (hc : truthy (field (py "enabled") c.retention) = false) (env : Env) (dir : Dir)
    (entry : Dict F) : append c env dir entry =
      ((writeLocked c dir entry).1, (writeLocked c dir entry).2.map fun d => (d, none)) := by
  have hrotate : maybeRotateLocked c env dir = (dir, .ok none) := by
    unfold maybeRotateLocked shouldRotateLocked
    rw [hc]
  unfold append
  rw [hrotate]
  rcases hw : writeLocked c dir entry with ⟨dir', e | d⟩ <;> simp only [hw] <;> rfl

/-! ## The file after a line -/

/-- A file that is empty or ends in a newline. -/
def Terminated (file : Bytes) : Prop := file = [] ∨ ∃ a, file = a ++ [10]

/-- A printable line after finished lines is the last of the lines. -/
theorem textLines_append_text {file : Bytes} (hterm : Terminated file) {text : Str}
    (htext : decodeUtf8 file = some text) {t : Str} (ht : Printable t) :
    ∃ text', decodeUtf8 (file ++ (encodeUtf8 t ++ [10])) = some text' ∧
      textLines text' = textLines text ++ [t] := by
  have hbreaks : ∀ c ∈ t, c ≠ 10 ∧ c ≠ 13 := by
    intro c hc
    have := (ht c hc).1
    constructor <;> rintro rfl <;> exact absurd this (by decide)
  have hend : textLines (t ++ [10]) = [t] := textLines_line hbreaks []
  have hline : decodeUtf8 (encodeUtf8 t ++ [10]) = some (t ++ [10]) := by
    rw [decodeUtf8_ascii_append ht.ascii]
    rfl
  rcases hterm with rfl | ⟨a, rfl⟩
  · cases htext
    exact ⟨_, hline, hend⟩
  · rcases decodeUtf8_newline_end htext with ⟨u, hu, rfl⟩
    refine ⟨u ++ 10 :: (t ++ [10]), ?_, ?_⟩
    · rw [List.append_assoc, List.singleton_append, decodeUtf8_append_newline, hu, hline]
      rfl
    · rw [textLines_append_newline, hend]

/-- A line written after finished lines is the last of the lines. -/
theorem textLines_append_line {file : Bytes} (hterm : Terminated file) {text : Str}
    (htext : decodeUtf8 file = some text) (d : Dict F) :
    ∃ text', decodeUtf8 (file ++ lineBytes d) = some text' ∧
      textLines text' = textLines text ++ [lineText d] :=
  textLines_append_text hterm htext (printable_lineText d)

/-! ## The last line after a write -/

/-- The text of the last line. -/
def lastText (file : Bytes) : Option Str := (lastLine file).bind decodeUtf8

theorem Terminated.unfinished {file : Bytes} (h : Terminated file) : unfinished file = [] := by
  rcases h with rfl | ⟨a, rfl⟩
  · rfl
  · show afterNewline (a ++ [10]) = []
    rw [afterNewline_append (by simp)]
    rfl

theorem terminated_append_line (file : Bytes) (d : Dict F) : Terminated (file ++ lineBytes d) :=
  Or.inr ⟨file ++ encodeUtf8 (lineText d), by rw [lineBytes, List.append_assoc]⟩

theorem lastLine_append_line (file : Bytes) (d : Dict F) :
    lastLine (file ++ lineBytes d) = some (unfinished file ++ encodeUtf8 (lineText d)) :=
  lastLine_append file (newline_notMem_encode (printable_lineText d))
    (encodeUtf8_ne_nil (ascii_lineText d) (lineText_ne_nil d))

theorem lastText_append_line {file : Bytes} (h : unfinished file = []) (d : Dict F) :
    lastText (file ++ lineBytes d) = some (lineText d) := by
  rw [lastText, lastLine_append_line, h, List.nil_append, Option.bind_some,
    decodeUtf8_encodeUtf8 (ascii_lineText d)]

/-- What `_current_state` makes of the last line of a text file. -/
theorem currentState_of_lastText {file : Bytes} {last : Str} (h : lastText file = some last) :
    currentState F (some file) =
      match linkOf (F := F) last with
      | .ok s => .ok s
      | .error e => if linkCaught e then .ok (0, genesisHash) else .error e := by
  unfold lastText at h
  unfold currentState
  rw [readLastLine_eq]
  rcases Option.bind_eq_some_iff.mp h with ⟨l, hl, hlast⟩
  simp only [hl, decoded, hlast]
  rfl

/-- The next append links to the entry on the last line. -/
theorem linkOf_of_loads {last : Str} {d : Dict F} {n : Int} {h : Str}
    (hl : loads last = some (PyVal.dict d))
    (hseq : Dict.get? (py "sequence") d = some (.int n))
    (hhash : Dict.get? (py "entry_hash") d = some (.str h)) : linkOf (F := F) last = .ok (n, h) := by
  unfold linkOf
  simp only [hl, hseq, hhash]
  rfl

end Audit

end AutoHeal
