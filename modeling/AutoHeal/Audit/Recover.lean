import AutoHeal.Audit.Append

/-!
# What the next append links to

`verify_chain` and `_current_state` each decide on their own what a chained entry
is: the checker asks for three fields, the writer for two of them, and for
something `int()` takes. `verified_write_iff` is that an append keeps a file accepted
exactly when what it links to follows the last chained entry; `stateOf_linkOf_iff` says of
which last lines the writer makes a state with a property.
-/

namespace AutoHeal.Audit

open Segments

variable {F : Type} [PyRuntime F]

/-! ## Reports of accepted files -/

/-- An absent file is checked as an empty one. -/
theorem verifyChain_getD (file : Option Bytes) :
    verifyChain F file = verifyChain F (some (file.getD [])) := by
  cases file with
  | none => rfl
  | some bytes => rfl

theorem currentState_getD (file : Option Bytes) :
    currentState F file = currentState F (some (file.getD [])) := by
  cases file with
  | none =>
    have hempty : readLastLine (some []) = .ok none := readLastLine_eq []
    show _ = currentState F (some [])
    unfold currentState
    rw [hempty]
    rfl
  | some bytes => rfl

variable (F) in
/-- The chained entries of a file, with their line numbers. -/
def chainedEntries (file : Bytes) : List (Nat × Dict F) :=
  match decodeUtf8 file with
  | none => []
  | some text => chainedLines F 1 (textLines text)

/-- The report of an accepted file. -/
theorem report_of_verified {file : Bytes} {r : Report} (hr : verifyChain F (some file) = .ok r)
    (hok : r.ok = true) : ∃ text, decodeUtf8 file = some text ∧ Acceptable F (textLines text) ∧
      r = Report.empty.extend (F := F) none 1 (textLines text) := by
  rcases verified_iff.mp ⟨r, hr, hok⟩ with ⟨text, htext, hacc⟩
  have hrun := verifyLines_acceptable hacc
  unfold verifyChain at hr
  simp only [htext] at hr
  rw [hrun, Except.ok.injEq] at hr
  exact ⟨text, htext, hacc, hr.symm⟩

/-! ## One line more -/

variable (F) in
/-- An entry linked to the state `s` is a legitimate next line of the file. -/
def Follows (file : Bytes) (s : Int × Str) : Prop :=
  s = (0, genesisHash) ∨ ∃ x, (chainedEntries F file).getLast? = some x ∧
    (∃ next, addOne (field (py "sequence") x.2) = .ok next ∧
      scalarEq (.int (s.1 + 1)) next = true) ∧
    field (py "entry_hash") x.2 = .str s.2

theorem starts_finalized_iff {entry : Dict F} {s : Int × Str} (hi : Intact (finalized entry s)) :
    Starts (finalized entry s) ↔ s = (0, genesisHash) := by
  unfold Starts
  rw [field_finalized_sequence, field_finalized_prev_hash, scalarEq_int, beq_iff_eq,
    PyVal.str.injEq]
  constructor
  · rintro ⟨-, hseq, hhash⟩
    exact Prod.ext (by show s.1 = 0; omega) hhash
  · rintro rfl
    exact ⟨hi, rfl, rfl⟩

theorem continues_finalized_iff {entry : Dict F} {s : Int × Str}
    (hi : Intact (finalized entry s)) (a : Dict F) :
    Continues a (finalized entry s) ↔
      (∃ next, addOne (field (py "sequence") a) = .ok next ∧
        scalarEq (.int (s.1 + 1)) next = true) ∧ field (py "entry_hash") a = .str s.2 := by
  unfold Continues
  rw [field_finalized_sequence, field_finalized_prev_hash]
  constructor
  · rintro ⟨-, hseq, hhash⟩
    exact ⟨hseq, hhash.symm⟩
  · rintro ⟨hseq, hhash⟩
    exact ⟨hi, hseq, hhash.symm⟩

section Write

variable {file : Bytes} {r : Report} {entry : Dict F} {s : Int × Str}

/-- A line after an accepted file is accepted exactly when its entry follows the
chained entries of the file, and then it is counted as one of them. -/
theorem verified_write_iff (hr : verifyChain F (some file) = .ok r) (hok : r.ok = true)
    (hterm : Terminated file) (hentry : JsonValue (.dict entry)) (hno : NoChainFields entry)
    (hs : joinSurrogates s.2 = s.2) :
    (Verified F (some (file ++ lineBytes (finalized entry s))) ↔ Follows F file s) ∧
    ∀ r', verifyChain F (some (file ++ lineBytes (finalized entry s))) = .ok r' → r'.ok = true →
      r'.entriesChecked = r.entriesChecked + 1 ∧ r'.legacyEntries = r.legacyEntries := by
  rcases report_of_verified hr hok with ⟨text, htext, hacc, rfl⟩
  rcases textLines_append_line hterm htext (finalized entry s) with ⟨text', htext', hlines⟩
  have hi := intact_finalized hentry hs hno.2.2
  have hk : kind F (lineText (finalized entry s)) = .chained (finalized entry s) :=
    kind_line (finalized_jsonValue hentry hs) hasChainFields_finalized
  -- the entry is one more chained line, behind those the file already had
  have hsnoc : chainedLines F 1 (textLines text') = chainedLines F 1 (textLines text) ++
      [(1 + (textLines text).length, finalized entry s)] := by
    rw [hlines, chainedLines_append]
    simp [chainedLines, hk]
  constructor
  · have hentries : chainedEntries F file = chainedLines F 1 (textLines text) := by
      rw [chainedEntries, htext]
    rw [verified_iff]
    simp only [htext', Option.some.injEq, exists_eq_left']
    rw [acceptable_iff, hsnoc, acceptsLines_snoc, Follows, hentries, hlines]
    simp only [starts_finalized_iff hi, continues_finalized_iff hi]
    rw [acceptable_iff] at hacc
    constructor
    -- the file is acceptable already, so only the last line is in question
    · rintro ⟨-, -, h⟩
      exact h
    · intro h
      refine ⟨fun l hl => ?_, hacc.2, h⟩
      rcases List.mem_append.mp hl with hl | hl
      · exact hacc.1 l hl
      · rw [List.mem_singleton.mp hl, hk]
        rfl
  -- both reports come from the same run of the checker, one line apart
  · intro r' hr' hok'
    rcases report_of_verified hr' hok' with ⟨text₂, htext₂, -, rfl⟩
    rw [htext'] at htext₂
    cases htext₂
    constructor
    · simp [Report.extend, Report.empty, hsnoc]
    · simp [Report.extend, Report.empty, hlines, hk, Kind.isLegacy]

end Write

/-! ## The last line -/

/-- `_current_state`, when it reads the last line. -/
def stateOf (r : Py (Int × Str)) : Py (Int × Str) :=
  match r with
  | .ok s => .ok s
  | .error e => if linkCaught e then .ok (0, genesisHash) else .error e

variable (F) in
/-- The line is no object with a `sequence`, or `int()` of it raises what the writer catches,
or the line has no `entry_hash` either, or the state the two make has the property. -/
def LinkGives (P : Int × Str → Prop) (last : Str) : Prop :=
  ∀ parsed sequence, (loads last : Option (PyVal F)) = some (.dict parsed) →
    Dict.get? (py "sequence") parsed = some sequence →
    (∀ e, toInt sequence = .error e → linkCaught e = true) ∧
    ∀ n entryHash, toInt sequence = .ok n →
      Dict.get? (py "entry_hash") parsed = some entryHash → P (n, pyStr entryHash)

/-- The writer finds a state with a property that a fresh one has exactly when the last line
gives it. -/
theorem stateOf_linkOf_iff {P : Int × Str → Prop} (hfresh : P (0, genesisHash)) (last : Str) :
    (∃ s, stateOf (linkOf (F := F) last) = .ok s ∧ P s) ↔ LinkGives F P last := by
  unfold linkOf LinkGives
  constructor
  · -- each case of the reader, from the outside in
    rintro ⟨s, hs, hP⟩ parsed sequence hparsed hseq
    simp only [hparsed, hseq] at hs
    cases hint : toInt sequence with
    | error e =>
      simp only [hint] at hs
      refine ⟨fun e' he' => ?_, fun n _ hn => (by cases hn)⟩
      cases he'
      by_contra hcaught
      rw [stateOf, if_neg hcaught] at hs
      cases hs
    | ok n =>
      simp only [hint] at hs
      refine ⟨fun _ he' => (by cases he'), fun m entryHash hm hhash => ?_⟩
      cases hm
      simp only [hhash] at hs
      cases hs
      exact hP
  · intro h
    cases hj : (loads last : Option (PyVal F)) with
    | none => exact ⟨_, rfl, hfresh⟩
    | some v =>
      cases v with
      | none | bool | int | float | str | list | obj => exact ⟨_, rfl, hfresh⟩
      | dict parsed =>
        cases hseq : Dict.get? (py "sequence") parsed with
        | none =>
          simp only [hseq]
          exact ⟨_, rfl, hfresh⟩
        | some sequence =>
          rcases h parsed sequence hj hseq with ⟨hcaught, hstate⟩
          simp only [hseq]
          cases hint : toInt sequence with
          | error e =>
            simp only [stateOf, hcaught e hint, if_true]
            exact ⟨_, rfl, hfresh⟩
          | ok n =>
            cases hhash : Dict.get? (py "entry_hash") parsed with
            | none => exact ⟨_, rfl, hfresh⟩
            | some entryHash => exact ⟨_, rfl, hstate n entryHash hint hhash⟩

/-! ## An append -/

omit [PyRuntime F] in
theorem lookup_insert_base (c : AuditChain F) (dir : Dir) (file : Bytes) :
    (dir.insert c.base file).lookup c.base = some file := AList.lookup_insert dir

section Append

variable [PyDates F] {c : AuditChain F} {dir : Dir} {entry : Dict F}

/-- What an append returns and leaves behind, with rotation disabled. -/
theorem append_ok (hc : truthy (field (py "enabled") c.retention) = false) (env : Env)
    {s : Int × Str} (hentry : JsonValue (.dict entry))
    (hs : currentState F (some ((dir.lookup c.base).getD [])) = .ok s) :
    append c env dir entry =
      (dir.insert c.base ((dir.lookup c.base).getD [] ++ lineBytes (finalized entry s)),
        .ok (finalized entry s, none)) := by
  rw [← currentState_getD] at hs
  rw [append_disabled hc, writeLocked_ok hentry hs]
  rfl

end Append

end AutoHeal.Audit
