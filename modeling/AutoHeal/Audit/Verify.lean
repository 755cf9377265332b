import AutoHeal.Audit.Entry
import AutoHeal.Lib.Segments
import AutoHeal.Python.Utf8

/-!
# `verify_chain`

The checker of the audit log reads the lines of the file front to back, carrying
the sequence and the hash of the last chained entry. It accepts the files whose
chained entries split into segments: `acceptable_iff_accepts` and
`verifyLines_append` say what it does on a good prefix, `checkLine_broken` what
it does on the first bad line.
-/

namespace AutoHeal.Audit

open Segments

variable {F : Type} [PyRuntime F]

/-! ## The checker -/

/-- The dict `verify_chain` returns. -/
structure Report where
  ok : Bool
  entriesChecked : Nat
  legacyEntries : Nat
  segmentBoundaries : List Nat
  firstBrokenLine : Option Nat
  detail : Option Str
  deriving DecidableEq

/-- The report before the first line. -/
def Report.empty : Report := ⟨true, 0, 0, [], none, none⟩

/-- The report of a log whose first bad line is `n`. -/
def Report.broken (r : Report) (n : Nat) (detail : Str) : Report :=
  { r with ok := false, firstBrokenLine := some n, detail := some detail }

/-- The loop variables: the report so far, and `prev_sequence` and `prev_hash`
once a chained entry has been accepted. -/
structure Scan (F : Type) where
  result : Report
  prev : Option (PyVal F × PyVal F)

def notJsonDetail (F : Type) [PyRuntime F] (n : Nat) (line : Str) : Str :=
  py "Line " ++ natText n ++ py " is not valid JSON: " ++ PyRuntime.decodeErrorText F line

def modifiedDetail (n : Nat) (sequence : PyVal F) : Str :=
  py "Line " ++ natText n ++ py " (sequence=" ++ pyStr sequence ++
    py "): stored entry_hash doesn't match its own content - entry was modified after being written."

def unlinkedDetail (n : Nat) (sequence : PyVal F) : Str :=
  py "Line " ++ natText n ++ py " (sequence=" ++ pyStr sequence ++
    py "): does not continue from the previous chained entry - a line was deleted, reordered, or inserted."

/-- The scan after an accepted chained entry. -/
def Scan.accept (st : Scan F) (n : Nat) (boundary : Bool) (sequence hash : PyVal F) : Scan F where
  result := { st.result with
    entriesChecked := st.result.entriesChecked + 1
    segmentBoundaries := st.result.segmentBoundaries ++ if boundary then [n] else [] }
  prev := some (sequence, hash)

/-- `entry[s]`, for a key that is there. -/
def field (s : Str) (entry : Dict F) : PyVal F := (Dict.get? s entry).getD .none

/-- The entry has `sequence`, `prev_hash` and `entry_hash`. -/
def hasChainFields (entry : Dict F) : Bool :=
  (Dict.get? (py "sequence") entry).isSome && (Dict.get? (py "prev_hash") entry).isSome &&
    (Dict.get? (py "entry_hash") entry).isSome

/-- `is_continuation`. -/
def isContinuation (prev : Option (PyVal F × PyVal F)) (sequence claimedPrevHash : PyVal F) :
    Py Bool :=
  match prev with
  | none => .ok false
  | some (prevSequence, prevHash) =>
    (addOne prevSequence).map fun next =>
      scalarEq sequence next && scalarEq claimedPrevHash prevHash

/-- An entry with the three chain fields: the scan goes on, or the report is
final. -/
def checkEntry (st : Scan F) (n : Nat) (entry : Dict F) : Py (Scan F ⊕ Report) := do
  let sequence := field (py "sequence") entry
  let claimedPrevHash := field (py "prev_hash") entry
  let claimedHash := field (py "entry_hash") entry
  let recomputed ← hashEntry (Dict.erase (py "entry_hash") entry)
  if scalarEq claimedHash (.str recomputed) then
    let isNewSegment := scalarEq sequence (.int 1) && scalarEq claimedPrevHash (.str genesisHash)
    let continues ← isContinuation st.prev sequence claimedPrevHash
    if isNewSegment then
      return .inl (st.accept n st.prev.isSome sequence claimedHash)
    else if continues then
      return .inl (st.accept n false sequence claimedHash)
    else
      return .inr (st.result.broken n (unlinkedDetail n sequence))
  else
    return .inr (st.result.broken n (modifiedDetail n sequence))

/-- The loop body for line `n`. A line that is a JSON value but no object has no
`keys`. -/
def checkLine (st : Scan F) (n : Nat) (raw : Str) : Py (Scan F ⊕ Report) :=
  let line := strip raw
  if line = [] then .ok (.inl st)
  else
    match (loads line : Option (PyVal F)) with
    | none => .ok (.inr (st.result.broken n (notJsonDetail F n line)))
    | some (.dict entry) =>
      if hasChainFields entry then checkEntry st n entry
      else
        .ok (.inl { st with
          result := { st.result with legacyEntries := st.result.legacyEntries + 1 } })
    | some _ => .error .attributeError

/-- The loop, from line `n` on. -/
def verifyLines (st : Scan F) (n : Nat) : List Str → Py Report
  | [] => .ok st.result
  | raw :: rest =>
    match checkLine st n raw with
    | .ok (.inl st') => verifyLines st' (n + 1) rest
    | .ok (.inr r) => .ok r
    | .error e => .error e

variable (F) in
/-- `verify_chain` of an absent file or of a file's content. -/
def verifyChain (file : Option Bytes) : Py Report :=
  match file with
  | none => .ok .empty
  | some bytes =>
    match decodeUtf8 bytes with
    | some text => verifyLines (⟨.empty, none⟩ : Scan F) 1 (textLines text)
    | none =>
      -- the decoder raises, unless a line before that is bad
      (verifyLines (⟨.empty, none⟩ : Scan F) 1 (linesBeforeError bytes)).bind fun r =>
        if r.ok then .error .unicodeDecodeError else .ok r

variable (F) in
/-- `verify_chain` returns a report with `ok`. -/
def Verified (file : Option Bytes) : Prop := ∃ r, verifyChain F file = .ok r ∧ r.ok = true

/-! ## What a line is -/

/-- What a line of the log is. -/
inductive Kind (F : Type) where
  | blank
  | malformed
  | notObject
  | legacy (entry : Dict F)
  | chained (entry : Dict F)

variable (F) in
def kind (raw : Str) : Kind F :=
  if strip raw = [] then .blank
  else
    match (loads (strip raw) : Option (PyVal F)) with
    | none => .malformed
    | some (.dict entry) => if hasChainFields entry then .chained entry else .legacy entry
    | some _ => .notObject

/-- The stored hash is the hash of the other fields. -/
def Intact (entry : Dict F) : Prop :=
  ∃ h, hashEntry (Dict.erase (py "entry_hash") entry) = .ok h ∧
    field (py "entry_hash") entry = .str h

/-- An intact entry with sequence 1 that links to `GENESIS_HASH`. -/
def Starts (entry : Dict F) : Prop :=
  Intact entry ∧ scalarEq (field (py "sequence") entry) (.int 1) = true ∧
    field (py "prev_hash") entry = .str genesisHash

/-- An intact entry `b` with the sequence after that of `a`, linked to `a`. -/
def Continues (a b : Dict F) : Prop :=
  Intact b ∧ (∃ next, addOne (field (py "sequence") a) = .ok next ∧
    scalarEq (field (py "sequence") b) next = true) ∧
    field (py "prev_hash") b = field (py "entry_hash") a

theorem kind_chained {raw : Str} {d : Dict F} (h : kind F raw = .chained d) :
    strip raw ≠ [] ∧ loads (strip raw) = some (PyVal.dict d) ∧ hasChainFields d = true := by
  unfold kind at h
  split_ifs at h with hs
  refine ⟨hs, ?_⟩
  split at h
  · cases h
  · next e he =>
    split_ifs at h with hf
    cases h
    exact ⟨he, hf⟩
  · cases h

theorem kind_legacy {raw : Str} {d : Dict F} (h : kind F raw = .legacy d) :
    strip raw ≠ [] ∧ loads (strip raw) = some (PyVal.dict d) ∧ hasChainFields d = false := by
  unfold kind at h
  split_ifs at h with hs
  refine ⟨hs, ?_⟩
  split at h
  · cases h
  · next e he =>
    split_ifs at h with hf
    cases h
    exact ⟨he, by simpa using hf⟩
  · cases h

/-! ## One line -/

theorem checkLine_blank (st : Scan F) (n : Nat) {raw : Str} (h : kind F raw = .blank) :
    checkLine st n raw = .ok (.inl st) := by
  have hs : strip raw = [] := by
    unfold kind at h
    split_ifs at h with hs
    · exact hs
    · split at h
      · cases h
      · split_ifs at h
      · cases h
  simp [checkLine, hs]

theorem checkLine_malformed (st : Scan F) (n : Nat) {raw : Str} (h : kind F raw = .malformed) :
    checkLine st n raw = .ok (.inr (st.result.broken n (notJsonDetail F n (strip raw)))) := by
  unfold kind at h
  split_ifs at h with hs
  split at h
  · next hl => simp [checkLine, hs, hl]
  · split_ifs at h
  · cases h

theorem checkLine_notObject (st : Scan F) (n : Nat) {raw : Str} (h : kind F raw = .notObject) :
    checkLine st n raw = .error .attributeError := by
  unfold kind at h
  split_ifs at h with hs
  split at h
  · cases h
  · split_ifs at h
  · next v hdict hl =>
    rw [checkLine]
    simp only [hs, if_false, hl]

theorem checkLine_legacy (st : Scan F) (n : Nat) {raw : Str} {d : Dict F}
    (h : kind F raw = .legacy d) : checkLine st n raw =
      .ok (.inl { st with result := { st.result with legacyEntries := st.result.legacyEntries + 1 } }) := by
  obtain ⟨hs, hl, hf⟩ := kind_legacy h
  rw [checkLine]
  simp [hs, hl, hf]

theorem checkLine_chained (st : Scan F) (n : Nat) {raw : Str} {d : Dict F}
    (h : kind F raw = .chained d) : checkLine st n raw = checkEntry st n d := by
  obtain ⟨hs, hl, hf⟩ := kind_chained h
  rw [checkLine]
  simp [hs, hl, hf]

/-- The scan has accepted the entry `p` last, or nothing yet. -/
structure Linked (st : Scan F) (p : Option (Dict F)) : Prop where
  prev : st.prev = p.map fun d => (field (py "sequence") d, field (py "entry_hash") d)
  intact : ∀ d, p = some d → Intact d
  number : ∀ d, p = some d → ∃ next, addOne (field (py "sequence") d) = .ok next

theorem Starts.number {d : Dict F} (h : Starts d) :
    ∃ next, addOne (field (py "sequence") d) = .ok next :=
  addOne_of_scalarEq_int h.2.1

theorem Continues.number {a b : Dict F} (h : Continues a b) :
    ∃ next, addOne (field (py "sequence") b) = .ok next := by
  obtain ⟨-, ⟨next, hnext, heq⟩, -⟩ := h
  exact addOne_of_scalarEq_addOne hnext heq

theorem linked_accept (st : Scan F) (n : Nat) (boundary : Bool) {d : Dict F} (hd : Intact d)
    (hnum : ∃ next, addOne (field (py "sequence") d) = .ok next) :
    Linked (st.accept n boundary (field (py "sequence") d) (field (py "entry_hash") d)) (some d) where
  prev := rfl
  intact := fun _ h => Option.some.inj h ▸ hd
  number := fun _ h => Option.some.inj h ▸ hnum

/-- `is_continuation` of an intact entry. -/
theorem isContinuation_eq {st : Scan F} {p : Option (Dict F)} (hst : Linked st p) {d : Dict F}
    (hd : Intact d) : ∃ b, isContinuation st.prev (field (py "sequence") d)
      (field (py "prev_hash") d) = .ok b ∧ (b = true ↔ ∃ a, p = some a ∧ Continues a d) := by
  cases p with
  | none =>
    refine ⟨false, by simp [isContinuation, hst.prev], by simp⟩
  | some a =>
    obtain ⟨next, hnext⟩ := hst.number a rfl
    obtain ⟨h, -, hh⟩ := hst.intact a rfl
    refine ⟨_, by simp only [isContinuation, hst.prev, Option.map_some, hnext]; rfl, ?_⟩
    rw [hh, Bool.and_eq_true, scalarEq_str_iff]
    constructor
    · rintro ⟨hseq, hprev⟩
      exact ⟨a, rfl, hd, ⟨next, hnext, hseq⟩, hprev.trans hh.symm⟩
    · rintro ⟨b, hb, -, ⟨next', hnext', hseq⟩, hprev⟩
      cases hb
      rw [hnext] at hnext'
      cases hnext'
      exact ⟨hseq, hprev.trans hh⟩

/-- `is_new_segment` of an intact entry. -/
theorem isNewSegment_iff {d : Dict F} (hd : Intact d) :
    (scalarEq (field (py "sequence") d) (.int 1) &&
      scalarEq (field (py "prev_hash") d) (.str genesisHash)) = true ↔ Starts d := by
  rw [Bool.and_eq_true, scalarEq_str_iff]
  exact ⟨fun h => ⟨hd, h⟩, fun h => h.2⟩

section CheckEntry

variable {st : Scan F} {p : Option (Dict F)} {d : Dict F}

/-- What `checkEntry` does with an intact entry. -/
theorem checkEntry_intact (hst : Linked st p) (n : Nat) (hd : Intact d) :
    ∃ new continues : Bool, (new = true ↔ Starts d) ∧
      (continues = true ↔ ∃ a, p = some a ∧ Continues a d) ∧
      checkEntry st n d = .ok (
        if new then .inl (st.accept n p.isSome (field (py "sequence") d) (field (py "entry_hash") d))
        else if continues then
          .inl (st.accept n false (field (py "sequence") d) (field (py "entry_hash") d))
        else .inr (st.result.broken n (unlinkedDetail n (field (py "sequence") d)))) := by
  obtain ⟨continues, hcontinues, hiff⟩ := isContinuation_eq hst hd
  refine ⟨_, continues, isNewSegment_iff hd, hiff, ?_⟩
  obtain ⟨h, hrec, hfield⟩ := hd
  have hself : scalarEq (field (py "entry_hash") d) (.str h) = true := by
    rw [hfield, scalarEq_str, beq_self_eq_true]
  have hsome : st.prev.isSome = p.isSome := by rw [hst.prev, Option.isSome_map]
  simp only [checkEntry, hrec, Py.ok_bind, hself, if_true, hcontinues, hsome, Py.pure_eq]
  split
  · rfl
  · split <;> rfl

theorem checkEntry_starts (hst : Linked st p) (n : Nat) (hd : Starts d) :
    checkEntry st n d = .ok (.inl
      (st.accept n p.isSome (field (py "sequence") d) (field (py "entry_hash") d))) := by
  obtain ⟨new, continues, hnew, -, h⟩ := checkEntry_intact hst n hd.1
  rw [h, if_pos (hnew.mpr hd)]

theorem checkEntry_continues (hst : Linked st p) (n : Nat) (hs : ¬ Starts d) {a : Dict F}
    (ha : p = some a) (hd : Continues a d) :
    checkEntry st n d = .ok (.inl
      (st.accept n false (field (py "sequence") d) (field (py "entry_hash") d))) := by
  obtain ⟨new, continues, hnew, hcont, h⟩ := checkEntry_intact hst n hd.1
  rw [h, if_neg (fun hn => hs (hnew.mp hn)), if_pos (hcont.mpr ⟨a, ha, hd⟩)]

/-- An entry that neither starts a segment nor continues one ends the scan. -/
theorem checkEntry_broken (hst : Linked st p) (n : Nat) (hv : JsonValue (.dict d))
    (hs : ¬ Starts d) (hc : ¬ ∃ a, p = some a ∧ Continues a d) :
    ∃ detail, checkEntry st n d = .ok (.inr (st.result.broken n detail)) := by
  by_cases hd : Intact d
  · obtain ⟨new, continues, hnew, hcont, h⟩ := checkEntry_intact hst n hd
    exact ⟨_, by rw [h, if_neg (fun hn => hs (hnew.mp hn)), if_neg (fun hn => hc (hcont.mp hn))]⟩
  · have hrec := hashEntry_of_jsonValue (hv.erase (py "entry_hash"))
    have hne : scalarEq (field (py "entry_hash") d)
        (.str (jsonHash (Dict.erase (py "entry_hash") d))) = false := by
      rw [Bool.eq_false_iff]
      exact fun h => hd ⟨_, hrec, scalarEq_str_iff.mp h⟩
    exact ⟨_, by simp only [checkEntry, hrec, Py.ok_bind, hne, Bool.false_eq_true, if_false,
      Py.pure_eq]; rfl⟩

end CheckEntry

instance (d : Dict F) : Decidable (Starts d) :=
  decidable_of_iff ((match hashEntry (Dict.erase (py "entry_hash") d) with
      | .ok h => scalarEq (field (py "entry_hash") d) (.str h)
      | .error _ => false) = true ∧
    scalarEq (field (py "sequence") d) (.int 1) = true ∧
      scalarEq (field (py "prev_hash") d) (.str genesisHash) = true) (by
    rw [scalarEq_str_iff, Starts, Intact]
    refine and_congr_left fun _ => ?_
    cases hashEntry (Dict.erase (py "entry_hash") d) with
    | error e => simp
    | ok h => simp [scalarEq_str_iff])

/-! ## A run over lines -/

/-- The line has nothing `verify_chain` stops at before the chain fields. -/
def Kind.isObject : Kind F → Bool
  | .malformed | .notObject => false
  | _ => true

def Kind.isLegacy : Kind F → Bool
  | .legacy _ => true
  | _ => false

variable (F) in
/-- The chained entries of the lines from line `n` on, with their line numbers. -/
def chainedLines (n : Nat) : List Str → List (Nat × Dict F)
  | [] => []
  | raw :: rest =>
    match kind F raw with
    | .chained d => (n, d) :: chainedLines (n + 1) rest
    | _ => chainedLines (n + 1) rest

/-- The numbered entries split into segments. -/
abbrev AcceptsLines (p : Option (Nat × Dict F)) (xs : List (Nat × Dict F)) : Prop :=
  Accepts (fun x : Nat × Dict F => Starts x.2) (fun x y => Continues x.2 y.2) p xs

theorem acceptsLines_snoc {xs : List (Nat × Dict F)} {x : Nat × Dict F} :
    AcceptsLines none (xs ++ [x]) ↔ AcceptsLines none xs ∧
      (Starts x.2 ∨ ∃ y, xs.getLast? = some y ∧ Continues y.2 x.2) := accepts_snoc

/-- The starts in a list of numbered entries, but not the very first entry. -/
def boundaries : Option (Nat × Dict F) → List (Nat × Dict F) → List Nat
  | _, [] => []
  | p, x :: xs => (if p.isSome ∧ Starts x.2 then [x.1] else []) ++ boundaries (some x) xs

/-- The report after lines the checker goes through. -/
def Report.extend (r : Report) (p : Option (Nat × Dict F)) (n : Nat) (lines : List Str) : Report :=
  { r with
    entriesChecked := r.entriesChecked + (chainedLines F n lines).length
    legacyEntries := r.legacyEntries + lines.countP fun l => (kind F l).isLegacy
    segmentBoundaries := r.segmentBoundaries ++ boundaries p (chainedLines F n lines) }

theorem chainedLines_append (n : Nat) (xs ys : List Str) :
    chainedLines F n (xs ++ ys) = chainedLines F n xs ++ chainedLines F (n + xs.length) ys := by
  induction xs generalizing n with
  | nil => rfl
  | cons x xs ih =>
    have hlen : n + (x :: xs).length = n + 1 + xs.length := by simp; omega
    rw [List.cons_append, chainedLines, chainedLines, hlen]
    split <;> simp [ih]

/-- The checker goes through lines whose chained entries it accepts. -/
theorem verifyLines_append {lines : List Str} {st : Scan F} {p : Option (Nat × Dict F)} {n : Nat}
    (hst : Linked st (p.map Prod.snd)) (hobj : ∀ l ∈ lines, (kind F l).isObject = true)
    (hacc : AcceptsLines p (chainedLines F n lines)) (rest : List Str) :
    ∃ st' : Scan F, verifyLines st n (lines ++ rest) = verifyLines st' (n + lines.length) rest ∧
      Linked st' (((chainedLines F n lines).getLast?.or p).map Prod.snd) ∧
      st'.result = st.result.extend p n lines := by
  induction lines generalizing st p n with
  | nil => exact ⟨st, rfl, hst, by simp [Report.extend, chainedLines, boundaries]⟩
  | cons raw lines ih =>
    have hobj' : ∀ l ∈ lines, (kind F l).isObject = true := fun l hl => hobj l (by simp [hl])
    have hlen : n + (raw :: lines).length = n + 1 + lines.length := by simp; omega
    have hraw := hobj raw (by simp)
    rw [List.cons_append, verifyLines, hlen]
    cases hk : kind F raw with
    | malformed => simp [hk, Kind.isObject] at hraw
    | notObject => simp [hk, Kind.isObject] at hraw
    | blank =>
      have hskip : chainedLines F n (raw :: lines) = chainedLines F (n + 1) lines := by
        simp [chainedLines, hk]
      rw [hskip] at hacc ⊢
      obtain ⟨st', hrun, hst', hres⟩ := ih hst hobj' hacc
      refine ⟨st', by rw [checkLine_blank st n hk]; exact hrun, hst', ?_⟩
      rw [hres, Report.extend, Report.extend, hskip]
      simp [hk, Kind.isLegacy]
    | legacy d =>
      have hskip : chainedLines F n (raw :: lines) = chainedLines F (n + 1) lines := by
        simp [chainedLines, hk]
      rw [hskip] at hacc ⊢
      have hst₁ : Linked { st with
          result := { st.result with legacyEntries := st.result.legacyEntries + 1 } }
          (p.map Prod.snd) := ⟨hst.prev, hst.intact, hst.number⟩
      obtain ⟨st', hrun, hst', hres⟩ := ih hst₁ hobj' hacc
      refine ⟨st', by rw [checkLine_legacy st n hk]; exact hrun, hst', ?_⟩
      rw [hres, Report.extend, Report.extend, hskip]
      simp [hk, Kind.isLegacy]
      omega
    | chained d =>
      have hcons : chainedLines F n (raw :: lines) = (n, d) :: chainedLines F (n + 1) lines := by
        simp [chainedLines, hk]
      rw [hcons] at hacc ⊢
      obtain ⟨hd, hacc⟩ := hacc
      -- the entry is accepted, as a start or as a continuation
      obtain ⟨hcheck, hintact, hnum⟩ : checkLine st n raw = .ok (.inl (st.accept n
          (decide (p.isSome = true ∧ Starts d)) (field (py "sequence") d)
          (field (py "entry_hash") d))) ∧ Intact d ∧
          ∃ next, addOne (field (py "sequence") d) = .ok next := by
        rw [checkLine_chained st n hk]
        by_cases hs : Starts d
        · rw [checkEntry_starts hst n hs, Option.isSome_map]
          exact ⟨by simp [hs], hs.1, hs.number⟩
        · obtain ⟨a, ha, hc⟩ := hd.resolve_left hs
          rw [checkEntry_continues hst n hs (by rw [ha]; rfl) hc]
          exact ⟨by simp [hs], hc.1, hc.number⟩
      obtain ⟨st', hrun, hst', hres⟩ := ih (p := some (n, d)) (linked_accept st n _ hintact hnum)
        hobj' hacc
      refine ⟨st', by rw [hcheck]; exact hrun, ?_, ?_⟩
      · cases hlast : (chainedLines F (n + 1) lines).getLast? with
        | none =>
          rw [List.getLast?_eq_none_iff] at hlast
          rw [hlast] at hst' ⊢
          exact hst'
        | some x =>
          rw [hlast] at hst'
          rw [List.getLast?_cons, hlast]
          exact hst'
      · rw [hres, Report.extend, Report.extend, hcons, boundaries]
        simp [Scan.accept, hk, Kind.isLegacy]
        omega

/-! ## The accepted files -/

variable (F) in
/-- Every non-blank line is a JSON object, and the chained entries split into
segments. -/
def Acceptable (lines : List Str) : Prop :=
  (∀ l ∈ lines, (kind F l).isObject = true) ∧
    Segmented (fun x : Nat × Dict F => Starts x.2) (fun x y => Continues x.2 y.2)
      (chainedLines F 1 lines)

theorem acceptable_iff {lines : List Str} : Acceptable F lines ↔
    (∀ l ∈ lines, (kind F l).isObject = true) ∧ AcceptsLines none (chainedLines F 1 lines) :=
  and_congr_right fun _ => accepts_iff_segmented.symm

theorem mem_chainedLines {lines : List Str} {raw : Str} {d : Dict F} (hraw : raw ∈ lines)
    (hk : kind F raw = .chained d) (n : Nat) : ∃ m, (m, d) ∈ chainedLines F n lines := by
  induction lines generalizing n with
  | nil => cases hraw
  | cons line lines ih =>
    rcases List.mem_cons.mp hraw with rfl | hmem
    · exact ⟨n, by simp [chainedLines, hk]⟩
    · rcases ih hmem (n + 1) with ⟨m, hm⟩
      refine ⟨m, ?_⟩
      rw [chainedLines]
      split
      · exact List.mem_cons_of_mem _ hm
      · exact hm

/-- Every chained entry of an accepted file has the hash of its other fields. -/
theorem Acceptable.intact {lines : List Str} (h : Acceptable F lines) {raw : Str} {d : Dict F}
    (hraw : raw ∈ lines) (hk : kind F raw = .chained d) : Intact d := by
  rcases mem_chainedLines hraw hk 1 with ⟨m, hm⟩
  refine Accepts.forall_mem (P := fun x : Nat × Dict F => Intact x.2) ?_ ?_ ?_
    (acceptable_iff.mp h).2 _ hm
  · intro x hx
    exact hx.1
  · intro x y _ hxy
    exact hxy.1
  · intro x hx
    cases hx

theorem acceptable_nil : Acceptable F [] :=
  ⟨fun _ h => absurd h List.not_mem_nil, segmented_nil⟩

theorem Acceptable.of_append {xs ys : List Str} (h : Acceptable F (xs ++ ys)) :
    Acceptable F xs := by
  rw [acceptable_iff, chainedLines_append] at h
  exact acceptable_iff.mpr ⟨fun l hl => h.1 l (List.mem_append_left _ hl), h.2.of_append⟩

theorem linked_empty : Linked (⟨.empty, none⟩ : Scan F) none where
  prev := rfl
  intact := fun _ h => by cases h
  number := fun _ h => by cases h

/-- The report of an acceptable file. -/
theorem verifyLines_acceptable {lines : List Str} (h : Acceptable F lines) :
    verifyLines (⟨.empty, none⟩ : Scan F) 1 lines = .ok (Report.empty.extend (F := F) none 1 lines) := by
  rw [acceptable_iff] at h
  obtain ⟨st', hrun, -, hres⟩ := verifyLines_append linked_empty h.1 h.2 []
  rw [List.append_nil] at hrun
  rw [hrun, verifyLines, hres]

/-- Lines that are not acceptable have a first bad line. -/
theorem exists_first_bad {lines : List Str} (h : ¬ Acceptable F lines) :
    ∃ pre raw post, lines = pre ++ raw :: post ∧ Acceptable F pre ∧
      ¬ Acceptable F (pre ++ [raw]) := by
  induction lines using List.reverseRecOn with
  | nil => exact absurd acceptable_nil h
  | append_singleton lines raw ih =>
    by_cases hl : Acceptable F lines
    · exact ⟨lines, raw, [], rfl, hl, h⟩
    · obtain ⟨pre, raw', post, rfl, hpre, hbad⟩ := ih hl
      exact ⟨pre, raw', post ++ [raw], by simp, hpre, hbad⟩

/-- What the checker does on the first bad line. -/
theorem checkLine_bad {pre : List Str} {raw : Str} (hpre : Acceptable F pre)
    (hbad : ¬ Acceptable F (pre ++ [raw])) {st : Scan F}
    (hst : Linked st (((chainedLines F 1 pre).getLast?).map Prod.snd)) (n : Nat) :
    (kind F raw).isObject = false ∧ kind F raw = .notObject ∧
        checkLine st n raw = .error .attributeError ∨
      ∃ detail, checkLine st n raw = .ok (.inr (st.result.broken n detail)) := by
  rw [acceptable_iff] at hpre hbad
  cases hk : kind F raw with
  | malformed => exact Or.inr ⟨_, checkLine_malformed st n hk⟩
  | notObject => exact Or.inl ⟨rfl, rfl, checkLine_notObject st n hk⟩
  -- blank and legacy lines are never the bad one
  | blank | legacy =>
    refine absurd ⟨?_, ?_⟩ hbad
    · intro l hl
      rcases List.mem_append.mp hl with hl | hl
      · exact hpre.1 l hl
      · rw [List.mem_singleton.mp hl, hk]; rfl
    · rw [chainedLines_append]
      simpa [chainedLines, hk] using hpre.2
  -- a bad entry neither starts a segment nor continues the last one
  | chained d =>
    have hv := (jsonValue_of_loads (kind_chained hk).2.1)
    have hlast : (chainedLines F 1 (pre ++ [raw])) =
        chainedLines F 1 pre ++ [(1 + pre.length, d)] := by
      rw [chainedLines_append]
      simp [chainedLines, hk]
    have hd : ¬ (Starts d ∨ ∃ x, (chainedLines F 1 pre).getLast? = some x ∧ Continues x.2 d) := by
      intro hd
      refine hbad ⟨?_, ?_⟩
      · intro l hl
        rcases List.mem_append.mp hl with hl | hl
        · exact hpre.1 l hl
        · rw [List.mem_singleton.mp hl, hk]; rfl
      · rw [hlast]
        exact acceptsLines_snoc.mpr ⟨hpre.2, hd⟩
    rw [not_or] at hd
    refine Or.inr ?_
    rw [checkLine_chained st n hk]
    refine checkEntry_broken hst n hv hd.1 ?_
    rintro ⟨a, ha, hc⟩
    obtain ⟨x, hx, rfl⟩ := Option.map_eq_some_iff.mp ha
    exact hd.2 ⟨x, hx, hc⟩

/-- The report of a file whose first bad line is no other JSON value. -/
theorem verifyLines_broken {pre : List Str} {raw : Str} (hpre : Acceptable F pre)
    (hbad : ¬ Acceptable F (pre ++ [raw])) (hobj : kind F raw ≠ .notObject) (post : List Str) :
    ∃ detail, verifyLines (⟨.empty, none⟩ : Scan F) 1 (pre ++ raw :: post) =
      .ok ((Report.empty.extend (F := F) none 1 pre).broken (1 + pre.length) detail) := by
  have hacc := acceptable_iff.mp hpre
  obtain ⟨st', hrun, hst', hres⟩ := verifyLines_append linked_empty hacc.1 hacc.2 (raw :: post)
  rw [Option.or_none] at hst'
  rcases checkLine_bad hpre hbad hst' (1 + pre.length) with ⟨-, hk, -⟩ | ⟨detail, hcheck⟩
  · exact absurd hk hobj
  · exact ⟨detail, by rw [hrun, verifyLines, hcheck, hres]⟩

/-- On a text file with no other JSON values than objects `verify_chain` returns a
report. -/
theorem verifyChain_of_objects {file : Bytes} {text : Str} (htext : decodeUtf8 file = some text)
    (hobj : ∀ l ∈ textLines text, kind F l ≠ .notObject) :
    ∃ r, verifyChain F (some file) = .ok r ∧ (r.ok = true ↔ Acceptable F (textLines text)) := by
  unfold verifyChain
  simp only [htext]
  by_cases hacc : Acceptable F (textLines text)
  · exact ⟨_, verifyLines_acceptable hacc, iff_of_true rfl hacc⟩
  · rcases exists_first_bad hacc with ⟨pre, raw, post, hsplit, hpre, hbad⟩
    rcases verifyLines_broken hpre hbad (hobj raw (by rw [hsplit]; simp)) post with ⟨detail, hrun⟩
    exact ⟨_, hsplit ▸ hrun, iff_of_false (by simp [Report.broken]) hacc⟩

/-- `verify_chain` accepts a file exactly when its lines are acceptable. -/
theorem verified_iff {file : Bytes} : Verified F (some file) ↔
    ∃ text, decodeUtf8 file = some text ∧ Acceptable F (textLines text) := by
  rw [Verified, verifyChain]
  cases decodeUtf8 file with
  | none =>
    refine iff_of_false ?_ (by rintro ⟨text, ⟨⟩, -⟩)
    rintro ⟨r, hr, hok⟩
    cases hrun : verifyLines (⟨.empty, none⟩ : Scan F) 1 (linesBeforeError file) with
    | error e =>
      rw [hrun] at hr
      cases hr
    | ok r' =>
      simp only [hrun, Except.bind] at hr
      split_ifs at hr with hok'
      cases hr
      exact hok' hok
  | some text =>
    simp only [Option.some.injEq, exists_eq_left']
    constructor
    · rintro ⟨r, hr, hok⟩
      by_contra hbad
      obtain ⟨pre, raw, post, hlines, hpre, hraw⟩ := exists_first_bad hbad
      rw [hlines] at hr
      by_cases hk : kind F raw = .notObject
      · -- the checker raises
        have hacc := acceptable_iff.mp hpre
        obtain ⟨st', hrun, -, -⟩ := verifyLines_append linked_empty hacc.1 hacc.2 (raw :: post)
        rw [hrun, verifyLines, checkLine_notObject st' _ hk] at hr
        cases hr
      · obtain ⟨detail, hrun⟩ := verifyLines_broken hpre hraw hk post
        rw [hrun] at hr
        cases hr
        cases hok
    · intro h
      exact ⟨_, verifyLines_acceptable h, rfl⟩

/-! ## The entries among lines -/

variable (F) in
/-- The entry of a line with the chain fields. -/
def entryOf (raw : Str) : Option (Dict F) :=
  match kind F raw with
  | .chained d => some d
  | _ => none

theorem entryOf_eq_some {raw : Str} {d : Dict F} :
    entryOf F raw = some d ↔ kind F raw = .chained d := by
  unfold entryOf
  constructor
  · intro h
    split at h
    · next hk =>
      rw [Option.some.injEq] at h
      rwa [← h]
    · cases h
  · intro h
    rw [h]

theorem chainedLines_snd (n : Nat) (lines : List Str) :
    (chainedLines F n lines).map Prod.snd = lines.filterMap (entryOf F) := by
  induction lines generalizing n with
  | nil => rfl
  | cons raw lines ih =>
    rw [chainedLines, List.filterMap_cons, entryOf]
    cases kind F raw with
    | chained d => exact congrArg (List.cons d) (ih (n + 1))
    | blank | malformed | notObject | legacy => exact ih (n + 1)

/-- Lines are acceptable when they are objects or blank and the checker accepts the
entries among them. -/
theorem acceptable_iff_entries {lines : List Str} : Acceptable F lines ↔
    (∀ l ∈ lines, (kind F l).isObject = true) ∧
      Accepts Starts Continues none (lines.filterMap (entryOf F)) := by
  rw [acceptable_iff, ← chainedLines_snd 1]
  exact and_congr_right fun _ => (accepts_map (p := none) Prod.snd).symm

/-- A line that is no chained entry changes nothing. -/
theorem acceptable_insert_legacy {pre post : List Str} {x : Str} {d : Dict F}
    (hx : kind F x = .legacy d) : Acceptable F (pre ++ x :: post) ↔ Acceptable F (pre ++ post) := by
  have hentry : entryOf F x = none := by
    unfold entryOf
    rw [hx]
  rw [acceptable_iff_entries, acceptable_iff_entries, List.filterMap_append, List.filterMap_cons,
    hentry, ← List.filterMap_append]
  refine and_congr_left fun _ => ?_
  rw [List.forall_mem_append, List.forall_mem_cons, List.forall_mem_append, hx]
  exact and_congr_right fun _ => and_iff_right rfl

theorem jsonValue_entryOf {raw : Str} {d : Dict F} (h : entryOf F raw = some d) :
    JsonValue (.dict d) :=
  jsonValue_of_loads (kind_chained (entryOf_eq_some.mp h)).2.1

/-! ## Segment boundaries -/

theorem boundaries_some (x : Nat × Dict F) (xs : List (Nat × Dict F)) :
    boundaries (some x) xs = (xs.filter fun y => decide (Starts y.2)).map Prod.fst := by
  induction xs generalizing x with
  | nil => rfl
  | cons y xs ih =>
    rw [boundaries, ih]
    by_cases h : Starts y.2
    · simp [h]
    · simp [h]

/-- The reported boundaries of accepted entries: all starts but the first. -/
theorem boundaries_none {xs : List (Nat × Dict F)} (h : AcceptsLines none xs) :
    boundaries none xs = ((xs.filter fun y => decide (Starts y.2)).map Prod.fst).tail := by
  cases xs with
  | nil => rfl
  | cons x xs =>
    have hx : Starts x.2 := h.head
    rw [boundaries, boundaries_some]
    simp [hx]

/-- An entry with an integer sequence that continues one with a positive sequence
starts no segment. -/
theorem Continues.not_starts {a b : Dict F} (h : Continues a b) {m n : Int}
    (ha : field (py "sequence") a = .int m) (hb : field (py "sequence") b = .int n) (hm : 1 ≤ m) :
    n = m + 1 ∧ ¬ Starts b := by
  obtain ⟨-, ⟨next, hnext, heq⟩, -⟩ := h
  rw [ha, addOne_int, Except.ok.injEq] at hnext
  rw [hb, ← hnext, scalarEq_int, beq_iff_eq] at heq
  refine ⟨heq, fun hs => ?_⟩
  have := hs.2.1
  rw [hb, scalarEq_int, beq_iff_eq] at this
  omega

/-- With integer sequences, every split of the entries into segments begins them at
the same entries. -/
theorem heads_of_segments {xs : List (Nat × Dict F)}
    (hint : ∀ x ∈ xs, ∃ n, field (py "sequence") x.2 = .int n) {segs : List (List (Nat × Dict F))}
    (hflat : segs.flatten = xs)
    (hsegs : ∀ s ∈ segs, IsSegment (fun x : Nat × Dict F => Starts x.2)
      (fun x y => Continues x.2 y.2) s) :
    xs.filter (fun y => decide (Starts y.2)) = segs.filterMap List.head? := by
  rw [← hflat]
  refine filter_start_flatten hsegs ?_
  rintro s hs a ys rfl
  obtain ⟨a', ys', heq, hstart, hchain⟩ := hsegs _ hs
  cases heq
  have hmem : ∀ x ∈ a :: ys, ∃ n, field (py "sequence") x.2 = .int n := fun x hx =>
    hint x (hflat ▸ List.mem_flatten.mpr ⟨_, hs, hx⟩)
  refine tail_not_start (P := fun x => ∃ n : Int, field (py "sequence") x.2 = .int n ∧ 1 ≤ n)
    ?_ ?_ hchain
  · obtain ⟨n, hn⟩ := hmem a (by simp)
    have := hstart.2.1
    rw [hn, scalarEq_int, beq_iff_eq] at this
    exact ⟨n, hn, by omega⟩
  · rintro x hx y hy ⟨m, hm, hpos⟩ hnext
    obtain ⟨n, hn⟩ := hmem y (List.mem_cons_of_mem _ hy)
    obtain ⟨heq, hns⟩ := hnext.not_starts hm hn hpos
    exact ⟨⟨n, hn, by omega⟩, hns⟩

/-! ## The checker is the grammar -/

variable (F) in
/-- The line is not a JSON value other than an object, and the `sequence` of an
object is an integer. -/
def IntegerLine (raw : Str) : Prop :=
  kind F raw ≠ .notObject ∧ ∀ d, kind F raw = .legacy d ∨ kind F raw = .chained d →
    ∀ v, Dict.get? (py "sequence") d = some v → ∃ n, v = .int n

theorem integer_sequence {lines : List Str} (h : ∀ l ∈ lines, IntegerLine F l) (n : Nat) :
    ∀ x ∈ chainedLines F n lines, ∃ m, field (py "sequence") x.2 = .int m := by
  induction lines generalizing n with
  | nil => intro x hx; cases hx
  | cons raw lines ih =>
    have hrest := ih (fun l hl => h l (by simp [hl])) (n + 1)
    rw [chainedLines]
    split
    · next d hk =>
      intro x hx
      rcases List.mem_cons.mp hx with rfl | hx
      · have hf := (kind_chained hk).2.2
        simp only [hasChainFields, Bool.and_eq_true, Option.isSome_iff_exists] at hf
        obtain ⟨⟨⟨v, hv⟩, -⟩, -⟩ := hf
        obtain ⟨m, rfl⟩ := (h raw (by simp)).2 d (Or.inr hk) v hv
        exact ⟨m, by simp [field, hv]⟩
      · exact hrest x hx
    · exact hrest

variable (F) in
/-- The report says what the grammar says of the lines. When it is `ok` it counts the
chained entries, the other objects and the beginnings of all segments but the first; else it
names the least `n` for which the first `n` lines are not acceptable. -/
structure Describes (r : Report) (lines : List Str) : Prop where
  ok_iff : r.ok = true ↔ Acceptable F lines
  entriesChecked : r.ok = true → r.entriesChecked = (chainedLines F 1 lines).length
  legacyEntries : r.ok = true → r.legacyEntries = lines.countP fun l => (kind F l).isLegacy
  segmentBoundaries : r.ok = true → ∀ segs : List (List (Nat × Dict F)),
    segs.flatten = chainedLines F 1 lines →
    (∀ s ∈ segs, IsSegment (fun x : Nat × Dict F => Starts x.2)
      (fun x y => Continues x.2 y.2) s) →
    r.segmentBoundaries = ((segs.filterMap List.head?).map Prod.fst).tail
  firstBrokenLine : r.ok = false → ∃ n, r.firstBrokenLine = some n ∧ n ≤ lines.length ∧
    ¬ Acceptable F (lines.take n) ∧ ∀ m < n, Acceptable F (lines.take m)

/-- On text files whose non-blank lines are objects with integer sequences or no JSON
at all, `verify_chain` returns the report of the grammar. -/
theorem verifyChain_grammar {file : Bytes} {text : Str} (htext : decodeUtf8 file = some text)
    (hlines : ∀ l ∈ textLines text, IntegerLine F l) :
    ∃ r, verifyChain F (some file) = .ok r ∧ Describes F r (textLines text) := by
  have hint := integer_sequence hlines 1
  have hfile : verifyChain F (some file) =
      verifyLines (⟨.empty, none⟩ : Scan F) 1 (textLines text) := by
    rw [verifyChain, htext]
  rw [hfile]
  generalize textLines text = lines at hint hlines ⊢
  by_cases hacc : Acceptable F lines
  · refine ⟨_, verifyLines_acceptable hacc, iff_of_true rfl hacc, fun _ => ?_, fun _ => ?_,
      fun _ => ?_, by rintro ⟨⟩⟩
    · simp [Report.extend, Report.empty]
    · simp [Report.extend, Report.empty]
    -- each segment but the first reports the line it begins on
    · intro segs hflat hsegs
      rw [Report.extend, ← heads_of_segments hint hflat hsegs]
      simpa [Report.empty] using boundaries_none (acceptable_iff.mp hacc).2
  · obtain ⟨pre, raw, post, hsplit, hpre, hbad⟩ := exists_first_bad hacc
    have hobj := (hlines raw (by rw [hsplit]; simp)).1
    obtain ⟨detail, hrun⟩ := verifyLines_broken hpre hbad hobj post
    have htake : lines.take (1 + pre.length) = pre ++ [raw] := by
      rw [hsplit, Nat.add_comm, List.take_length_add_append]
      rfl
    refine ⟨_, hsplit ▸ hrun, iff_of_false (by simp [Report.broken]) hacc, by rintro ⟨⟩,
      by rintro ⟨⟩, by rintro ⟨⟩, fun _ => ?_⟩
    -- the lines before the first bad one are acceptable, as is every shorter prefix
    refine ⟨1 + pre.length, rfl, by rw [hsplit]; simp; omega, htake ▸ hbad, fun m hm => ?_⟩
    have hinit : lines.take m = pre.take m := by
      rw [hsplit, List.take_append_of_le_length (by omega)]
    rw [hinit]
    rw [← List.take_append_drop m pre] at hpre
    exact hpre.of_append

end AutoHeal.Audit
