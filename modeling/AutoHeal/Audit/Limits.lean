import AutoHeal.Audit.Robust
import AutoHeal.Audit.Written
import AutoHeal.Json.Limits

/-!
# The log within the interpreter's limits

`json.loads` and `json.dumps` raise at integers of more than `maxStrDigits` digits and at
more than `jsonLevels` levels. The functions of this module are those of the log with both
limits. A limit is met before anything else is done with a line; where none is met they
are the functions without limits.

`verifyChain_grammar_iff` says of which files the checker reports what the grammar says.
-/

namespace AutoHeal.Audit.Limited

variable {F : Type} [PyRuntime F]

/-! ## The checker -/

/-- The loop body for line `n`. Only the `JSONDecodeError` of `json.loads` is caught. An
entry that was read can be hashed (`hashEntry_of_read`). -/
def checkLine (st : Scan F) (n : Nat) (raw : Str) : Py (Scan F ⊕ Report) :=
  match limitMet F (strip raw) with
  | some e => .error e
  | none => Audit.checkLine st n raw

/-- The loop, from line `n` on. -/
def verifyLines (st : Scan F) (n : Nat) : List Str → Py Report
  | [] => .ok st.result
  | raw :: rest =>
    match checkLine st n raw with
    | .ok (.inl st') => verifyLines st' (n + 1) rest
    | .ok (.inr r) => .ok r
    | .error e => .error e

variable (F) in
/-- `verify_chain` of an absent file or of a file's content. -/
def verifyChain (file : Option Bytes) : Py Report :=
  match file with
  | none => .ok .empty
  | some bytes =>
    match decodeUtf8 bytes with
    | some text => verifyLines (⟨.empty, none⟩ : Scan F) 1 (textLines text)
    | none =>
      (verifyLines (⟨.empty, none⟩ : Scan F) 1 (linesBeforeError bytes)).bind fun r =>
        if r.ok then .error .unicodeDecodeError else .ok r

variable (F) in
/-- `verify_chain` returns a report with `ok`. -/
def Verified (file : Option Bytes) : Prop := ∃ r, verifyChain F file = .ok r ∧ r.ok = true

/-! ## The writer -/

/-- `_hash_entry`. -/
def hashEntry (entry : Dict F) : Py Str :=
  (Audit.hashEntry entry).bind fun h => writeLimit (.dict entry) h

/-- The `try` block of `_current_state`. -/
def linkOf (last : Str) : Py (Int × Str) :=
  match limitMet F last with
  | some e => .error e
  | none => Audit.linkOf (F := F) last

variable (F) in
/-- `_current_state`. -/
def currentState (file : Option Bytes) : Py (Int × Str) :=
  match readLastLine file with
  | .error e => .error e
  | .ok none => .ok (0, genesisHash)
  | .ok (some last) => stateOf (linkOf (F := F) last)

/-- `_write_locked`. -/
def writeLocked (c : AuditChain F) (dir : Dir) (entry : Dict F) : Dir × Py (Dict F) :=
  match currentState F (dir.lookup c.base) with
  | .error e => (dir, .error e)
  | .ok s =>
    match hashEntry (chained entry s) with
    | .error e => (dir, .error e)
    | .ok h =>
      let finalized := Dict.set (py "entry_hash") (.str h) (chained entry s)
      let opened := (dir.lookup c.base).getD []
      match jsonDumps (.dict finalized) with
      | .error e => (dir.insert c.base opened, .error e)
      | .ok line =>
        (dir.insert c.base (opened ++ encodeUtf8 (line ++ py "\n")), .ok finalized)

variable [PyDates F]

variable (F) in
/-- The lines of `_read_first_entry_timestamp`. A `ValueError` is caught, a
`RecursionError` is not. -/
def firstTimestamp : List Str → Py (Option IsoTime)
  | [] => .ok none
  | raw :: rest =>
    if strip raw = [] then firstTimestamp rest
    else
      match limitMet F (strip raw) with
      | some .recursionError => .error .recursionError
      | some _ => .ok none
      | none => Audit.firstTimestamp F [raw]

variable (F) in
/-- `_read_first_entry_timestamp`. -/
def readFirstEntryTimestamp (file : Option Bytes) : Py (Option IsoTime) :=
  match file with
  | none => .ok none
  | some bytes => firstTimestamp F (readLines bytes)

/-- `_should_rotate_locked`. -/
def shouldRotateLocked (c : AuditChain F) (env : Env) (dir : Dir) : Py Bool :=
  match truthy (field (py "enabled") c.retention), dir.lookup c.base with
  | true, some file => rotationDue c env file (readFirstEntryTimestamp F (some file))
  | _, _ => .ok false

/-- `_maybe_rotate_locked`. -/
def maybeRotateLocked (c : AuditChain F) (env : Env) (dir : Dir) : Dir × Py (Option (Rotation F)) :=
  match shouldRotateLocked c env dir with
  | .error e => (dir, .error e)
  | .ok false => (dir, .ok none)
  | .ok true =>
    let archive := archivedName c env dir
    let renamed := rename dir c.base archive
    match sweepRetentionLocked c env renamed with
    | (swept, .error e) => (swept, .error e)
    | (swept, .ok deleted) =>
      match writeLocked c swept (rotationMarker c env archive deleted) with
      | (dir', .error e) => (dir', .error e)
      | (dir', .ok marker) => (dir', .ok (some ⟨archive, deleted, marker⟩))

/-- `AuditChain.append`. -/
def append (c : AuditChain F) (env : Env) (dir : Dir) (entry : Dict F) :
    Dir × Py (Dict F × Option (Rotation F)) :=
  match maybeRotateLocked c env dir with
  | (dir', .error e) => (dir', .error e)
  | (dir', .ok rotation) =>
    match writeLocked c dir' entry with
    | (dir'', .error e) => (dir'', .error e)
    | (dir'', .ok finalized) => (dir'', .ok (finalized, rotation))

/-! ## Lines within the limits -/

omit [PyDates F]

variable (F) in
/-- The line is read without meeting a limit. -/
def Within (raw : Str) : Prop := limitMet F (strip raw) = none

variable (F) in
/-- Before a line at which a limit is met the checker has stopped. -/
def NoLimitReached (lines : List Str) : Prop :=
  ∀ pre raw post, lines = pre ++ raw :: post → ¬ Within F raw → ¬ Acceptable F pre

/-- An entry that was read is hashed without meeting a limit. -/
theorem hashEntry_of_read {s : Str} {entry : Dict F} (h : jsonLoads s = .ok (.dict entry))
    (t : Str) : hashEntry (Dict.erase t entry) = Audit.hashEntry (Dict.erase t entry) := by
  have hfits : Writable (.dict (Dict.erase t entry)) := fits_erase (jsonLoads_ok h).2 t
  unfold hashEntry
  cases Audit.hashEntry (Dict.erase t entry) with
  | error e => rfl
  | ok hash => exact writeLimit_eq_ok.mpr ⟨hfits, rfl⟩

theorem checkLine_of_within (st : Scan F) (n : Nat) {raw : Str} (h : Within F raw) :
    checkLine st n raw = Audit.checkLine st n raw := by
  unfold checkLine
  rw [h]

theorem checkLine_of_not_within (st : Scan F) (n : Nat) {raw : Str} (h : ¬ Within F raw) :
    ∃ e, (e = .valueError ∨ e = .recursionError) ∧ checkLine st n raw = .error e := by
  unfold checkLine
  cases hlimit : limitMet F (strip raw) with
  | none => exact absurd hlimit h
  | some e => exact ⟨e, (limitMet_eq_some hlimit).2, rfl⟩

/-! ## Stopping -/

/-- A scan that goes on has `ok` as before, a final report is not `ok`. -/
def OkOrFinal (ok : Bool) : Scan F ⊕ Report → Prop
  | .inl st => st.result.ok = ok
  | .inr r => r.ok = false

theorem okOrFinal_checkEntry {st : Scan F} {n : Nat} {d : Dict F} {out : Scan F ⊕ Report}
    (h : checkEntry st n d = .ok out) : OkOrFinal st.result.ok out := by
  unfold checkEntry at h
  cases hhash : Audit.hashEntry (Dict.erase (py "entry_hash") d) with
  | error e =>
    rw [hhash] at h
    cases h
  | ok hash =>
    rw [hhash] at h
    simp only [Py.ok_bind] at h
    split at h
    · cases hcont : isContinuation st.prev (field (py "sequence") d) (field (py "prev_hash") d) with
      | error e =>
        rw [hcont] at h
        cases h
      | ok continues =>
        rw [hcont] at h
        simp only [Py.ok_bind] at h
        -- a new segment, a continuation, and a broken link
        split at h
        · cases h
          rfl
        · split at h
          · cases h
            rfl
          · cases h
            rfl
    · cases h
      rfl

theorem okOrFinal_checkLine {st : Scan F} {n : Nat} {raw : Str} {out : Scan F ⊕ Report}
    (h : Audit.checkLine st n raw = .ok out) : OkOrFinal st.result.ok out := by
  cases hk : kind F raw with
  | blank =>
    rw [checkLine_blank st n hk] at h
    cases h
    rfl
  | malformed =>
    rw [checkLine_malformed st n hk] at h
    cases h
    rfl
  | notObject =>
    rw [checkLine_notObject st n hk] at h
    cases h
  | legacy d =>
    rw [checkLine_legacy st n hk] at h
    cases h
    rfl
  | chained d =>
    rw [checkLine_chained st n hk] at h
    exact okOrFinal_checkEntry h

/-- The run up to a line at which a limit is met. -/
theorem verifyLines_over {pre : List Str} {raw : Str} (hpre : ∀ l ∈ pre, Within F l)
    (hover : ¬ Within F raw) (post : List Str) {st : Scan F} (hst : st.result.ok = true) (n : Nat) :
    ∃ e, (e = .valueError ∨ e = .recursionError) ∧
      verifyLines st n (pre ++ raw :: post) =
        (Audit.verifyLines st n pre).bind fun r => if r.ok then .error e else .ok r := by
  induction pre generalizing st n with
  | nil =>
    rcases checkLine_of_not_within st n hover with ⟨e, he, hcheck⟩
    refine ⟨e, he, ?_⟩
    rw [List.nil_append, verifyLines, hcheck, Audit.verifyLines]
    simp [Except.bind, hst]
  | cons l pre ih =>
    have hl := hpre l List.mem_cons_self
    have hrest := fun l hl => hpre l (List.mem_cons_of_mem _ hl)
    rw [List.cons_append, verifyLines, Audit.verifyLines, checkLine_of_within st n hl]
    cases hcheck : Audit.checkLine st n l with
    | error e => exact ⟨.valueError, Or.inl rfl, rfl⟩
    | ok out =>
      cases out with
      | inl st' =>
        have hok : st'.result.ok = st.result.ok := okOrFinal_checkLine hcheck
        exact ih hrest (hok.trans hst) (n + 1)
      | inr r =>
        have hok : r.ok = false := okOrFinal_checkLine hcheck
        refine ⟨.valueError, Or.inl rfl, ?_⟩
        simp [Except.bind, hok]

theorem verifyLines_of_within {lines : List Str} (h : ∀ l ∈ lines, Within F l) (st : Scan F)
    (n : Nat) : verifyLines st n lines = Audit.verifyLines st n lines := by
  induction lines generalizing st n with
  | nil => rfl
  | cons l lines ih =>
    have hrest := ih fun l hl => h l (List.mem_cons_of_mem _ hl)
    rw [verifyLines, Audit.verifyLines, checkLine_of_within st n (h l List.mem_cons_self)]
    cases Audit.checkLine st n l with
    | error e => rfl
    | ok out =>
      cases out with
      | inl st' => exact hrest st' (n + 1)
      | inr r => rfl

variable (F) in
/-- The state of the scan before the first line. -/
def start : Scan F := ⟨.empty, none⟩

/-- The scan after acceptable lines, whatever follows them. -/
theorem verifyLines_acceptable_append {pre : List Str} (h : Acceptable F pre) :
    ∃ st : Scan F, Linked st (((chainedLines F 1 pre).getLast?).map Prod.snd) ∧
      ∀ rest, Audit.verifyLines (start F) 1 (pre ++ rest) =
        Audit.verifyLines st (1 + pre.length) rest := by
  have hacc := acceptable_iff.mp h
  rcases verifyLines_append linked_empty hacc.1 hacc.2 [] with ⟨st, -, hst, hresult⟩
  rw [Option.or_none] at hst
  refine ⟨st, hst, fun rest => ?_⟩
  rcases verifyLines_append linked_empty hacc.1 hacc.2 rest with ⟨st', hrun, hst', hresult'⟩
  rw [Option.or_none] at hst'
  have heq : st' = st := by
    cases st
    cases st'
    exact congrArg₂ Scan.mk (hresult'.trans hresult.symm) (hst'.prev.trans hst.prev.symm)
  rw [start, hrun, heq]

/-- Once the lines are not acceptable the rest of them is not read. -/
theorem verifyLines_of_not_acceptable {pre : List Str} (h : ¬ Acceptable F pre) :
    (∀ r, Audit.verifyLines (start F) 1 pre = .ok r → r.ok = false) ∧
    ∀ rest, Audit.verifyLines (start F) 1 (pre ++ rest) = Audit.verifyLines (start F) 1 pre := by
  rcases exists_first_bad h with ⟨init, bad, post, rfl, hinit, hbad⟩
  rcases verifyLines_acceptable_append hinit with ⟨st, hst, hrun⟩
  have hstop : ∃ out : Py Report, (∀ r, out = .ok r → r.ok = false) ∧
      ∀ more, Audit.verifyLines (start F) 1 (init ++ bad :: more) = out := by
    rcases checkLine_bad hinit hbad hst (1 + init.length) with ⟨-, -, hcheck⟩ | ⟨detail, hcheck⟩
    · refine ⟨.error .attributeError, by rintro r ⟨⟩, fun more => ?_⟩
      rw [hrun, Audit.verifyLines, hcheck]
    · refine ⟨.ok (st.result.broken (1 + init.length) detail), ?_, fun more => ?_⟩
      · rintro r ⟨⟩
        rfl
      · rw [hrun, Audit.verifyLines, hcheck]
  rcases hstop with ⟨out, hout, hrun'⟩
  refine ⟨fun r hr => hout r ((hrun' post).symm.trans hr), fun rest => ?_⟩
  rw [List.append_assoc, List.cons_append, hrun', hrun']

/-! ## The checker with and without limits -/

/-- The first line at which a limit is met. -/
theorem exists_first_over {lines : List Str} (h : ¬ ∀ l ∈ lines, Within F l) :
    ∃ pre raw post, lines = pre ++ raw :: post ∧ (∀ l ∈ pre, Within F l) ∧ ¬ Within F raw := by
  induction lines with
  | nil => exact absurd (fun l hl => absurd hl List.not_mem_nil) h
  | cons l lines ih =>
    by_cases hl : Within F l
    · rcases ih fun hall => h (List.forall_mem_cons.mpr ⟨hl, hall⟩) with
        ⟨pre, raw, post, rfl, hpre, hraw⟩
      exact ⟨l :: pre, raw, post, rfl, List.forall_mem_cons.mpr ⟨hl, hpre⟩, hraw⟩
    · exact ⟨[], l, lines, rfl, fun l hl => absurd hl List.not_mem_nil, hl⟩

/-- While no limit is reached the checker is the one without limits. -/
theorem verifyLines_eq {lines : List Str} (h : NoLimitReached F lines) :
    verifyLines (start F) 1 lines = Audit.verifyLines (start F) 1 lines := by
  by_cases hall : ∀ l ∈ lines, Within F l
  · exact verifyLines_of_within hall (start F) 1
  · rcases exists_first_over hall with ⟨pre, raw, post, rfl, hpre, hraw⟩
    rcases verifyLines_of_not_acceptable (h pre raw post rfl hraw) with ⟨hok, hrest⟩
    rcases @verifyLines_over F _ pre raw hpre hraw post (start F) rfl 1 with ⟨e, -, hrun⟩
    rw [hrun, hrest]
    cases hpre' : Audit.verifyLines (start F) 1 pre with
    | error e => rfl
    | ok r => simp [Except.bind, hok r hpre']

/-- Where a limit is reached the checker raises. -/
theorem verifyLines_error {lines : List Str} (h : ¬ NoLimitReached F lines) :
    ∃ e, (e = .valueError ∨ e = .recursionError) ∧ verifyLines (start F) 1 lines = .error e := by
  unfold NoLimitReached at h
  push Not at h
  rcases h with ⟨pre, raw, post, rfl, hraw, hpre⟩
  have hall : ¬ ∀ l ∈ pre ++ [raw], Within F l := fun hall => hraw (hall raw (by simp))
  rcases exists_first_over hall with ⟨init, past, rest, hsplit, hinit, hover⟩
  have hacc : Acceptable F init := by
    have hprefix : init <+: pre := by
      have hinit : init <+: pre ++ [raw] := ⟨past :: rest, hsplit.symm⟩
      refine List.prefix_of_prefix_length_le hinit (List.prefix_append pre [raw]) ?_
      have hlength := congrArg List.length hsplit
      simp only [List.length_append, List.length_cons, List.length_nil] at hlength
      omega
    rcases hprefix with ⟨more, rfl⟩
    exact hpre.of_append
  have hlines : pre ++ raw :: post = init ++ past :: (rest ++ post) := by
    rw [← List.singleton_append, ← List.append_assoc, hsplit, List.append_assoc, List.cons_append]
  rcases @verifyLines_over F _ init past hinit hover (rest ++ post) (start F) rfl 1 with
    ⟨e, he, hrun⟩
  refine ⟨e, he, ?_⟩
  rw [hlines, hrun, start, verifyLines_acceptable hacc]
  rfl

theorem verifyChain_text {file : Bytes} {text : Str} (htext : decodeUtf8 file = some text) :
    verifyChain F (some file) = verifyLines (start F) 1 (textLines text) := by
  unfold verifyChain
  simp only [htext]
  rfl

theorem verifyChain_text_unlimited {file : Bytes} {text : Str}
    (htext : decodeUtf8 file = some text) :
    Audit.verifyChain F (some file) = Audit.verifyLines (start F) 1 (textLines text) := by
  unfold Audit.verifyChain
  simp only [htext]
  rfl

theorem verifyChain_of_within {file : Bytes} {text : Str} (htext : decodeUtf8 file = some text)
    (h : ∀ l ∈ textLines text, Within F l) :
    verifyChain F (some file) = Audit.verifyChain F (some file) := by
  rw [verifyChain_text htext, verifyChain_text_unlimited htext, verifyLines_of_within h]

theorem noLimitReached_of_within {lines : List Str} (h : ∀ l ∈ lines, Within F l) :
    NoLimitReached F lines := by
  rintro pre raw post rfl hraw
  exact absurd (h raw (by simp)) hraw

/-- The line of an entry within the limits is read without meeting one. -/
theorem within_lineText {d : Dict F} (h : Writable (.dict d)) : Within F (lineText d) := by
  rw [Within, strip_lineText]
  exact limitMet_print .spaced h

/-- With its chain fields an entry is written within the limits when it is so without them
and its number has few digits. -/
theorem writable_finalized {entry : Dict F} (h : Writable (.dict entry)) {s : Int × Str}
    (hs : short (s.1 + 1) = true) : Writable (.dict (finalized entry s)) :=
  fits_set (fits_set (fits_set h (fits_int.mpr hs) _) (fits_str _) _) (fits_str _) _

/-- The checker reports what the grammar says exactly when it reaches no line at which a
limit is met. -/
theorem verifyChain_grammar_iff {file : Bytes} {text : Str} (htext : decodeUtf8 file = some text)
    (hlines : ∀ l ∈ textLines text, IntegerLine F l) :
    (∃ r, verifyChain F (some file) = .ok r ∧ Describes F r (textLines text)) ↔
      NoLimitReached F (textLines text) := by
  rw [verifyChain_text htext]
  constructor
  · rintro ⟨r, hr, -⟩
    by_contra hreached
    rcases verifyLines_error hreached with ⟨e, -, he⟩
    rw [he] at hr
    cases hr
  · intro h
    rcases verifyChain_grammar htext hlines with ⟨r, hr, hdescribes⟩
    rw [verifyChain_text_unlimited htext] at hr
    exact ⟨r, (verifyLines_eq h).trans hr, hdescribes⟩

/-- An accepted file is within the limits, and accepted without them. -/
theorem verifyChain_accepted {file : Bytes} {r : Report} (hr : verifyChain F (some file) = .ok r)
    (hok : r.ok = true) : ∃ text, decodeUtf8 file = some text ∧
      (∀ l ∈ textLines text, Within F l) ∧ Audit.verifyChain F (some file) = .ok r := by
  cases htext : decodeUtf8 file with
  | none =>
    unfold verifyChain at hr
    simp only [htext] at hr
    rcases Py.bind_eq_ok.mp hr with ⟨r', -, hr'⟩
    split_ifs at hr' with hok'
    cases hr'
    exact absurd hok hok'
  | some text =>
    refine ⟨text, rfl, ?_⟩
    rw [verifyChain_text htext] at hr
    have hreached : NoLimitReached F (textLines text) := by
      by_contra hreached
      rcases verifyLines_error hreached with ⟨e, -, he⟩
      rw [he] at hr
      cases hr
    rw [verifyLines_eq hreached] at hr
    rw [verifyChain_text_unlimited htext]
    refine ⟨fun l hl => ?_, hr⟩
    have hacc : Acceptable F (textLines text) := by
      by_contra hacc
      have := (verifyLines_of_not_acceptable hacc).1 r hr
      rw [hok] at this
      cases this
    rcases List.append_of_mem hl with ⟨pre, post, hsplit⟩
    by_contra hover
    rw [hsplit] at hacc
    exact hreached pre l post hsplit hover hacc.of_append

/-! ## A log within the limits and one that is not -/

/-- An entry of an earlier version, without chain fields. -/
def legacyEntry : Dict NanFloat := [(.str (py "action"), .str (py "restart_service"))]

theorem jsonValue_legacyEntry : JsonValue (.dict legacyEntry) :=
  jsonValue_empty.cons (by decide) rfl (.str (by decide))

theorem writable_startedWrite : Writable (.dict startedWrite.result) :=
  writable_finalized (by decide : Writable (.dict startedEntry)) (by decide)

theorem writable_doneWrite : Writable (.dict doneWrite.result) :=
  writable_finalized (by decide : Writable (.dict doneEntry)) (by decide)

/-- One entry of an earlier version, and two chained ones. -/
def upgradedEntries : List (Dict NanFloat) := legacyEntry :: exampleWrites.map Write.result

theorem kind_legacyEntry : kind NanFloat (lineText legacyEntry) = .legacy legacyEntry :=
  kind_lineText jsonValue_legacyEntry

theorem acceptable_upgradedEntries : Acceptable NanFloat (upgradedEntries.map lineText) := by
  rcases verified_iff.mp verified_exampleWrites with ⟨text, htext, hacc⟩
  rcases exists_text_content exampleWrites with ⟨text', htext', hlines⟩
  rw [htext, Option.some.injEq] at htext'
  subst htext'
  rw [hlines] at hacc
  exact (@acceptable_insert_legacy NanFloat _ [] _ _ _ kind_legacyEntry).mpr hacc

theorem integerLine_lineText {d : Dict F} (hd : JsonValue (.dict d))
    (hseq : ∀ v, Dict.get? (py "sequence") d = some v → ∃ n, v = .int n) :
    IntegerLine F (lineText d) := by
  have hkind := kind_lineText hd
  refine ⟨by rw [hkind]; split <;> rintro ⟨⟩, fun e he v hv => ?_⟩
  have hde : e = d := by
    rw [hkind] at he
    split at he
    · rcases he with he | he <;> cases he
      rfl
    · rcases he with he | he <;> cases he
      rfl
  exact hseq v (hde ▸ hv)

/-- The log of an earlier version that appends have been made to. -/
def upgradedLog : Bytes := upgradedEntries.flatMap lineBytes

theorem upgradedLog_text : ∃ text, decodeUtf8 upgradedLog = some text ∧
    textLines text = upgradedEntries.map lineText ∧
    (∀ l ∈ textLines text, Within NanFloat l) ∧ ∀ l ∈ textLines text, IntegerLine NanFloat l := by
  rcases exists_text_lines upgradedEntries with ⟨text, htext, hlines⟩
  have hentry : ∀ d ∈ upgradedEntries, Writable (.dict d) ∧ IntegerLine NanFloat (lineText d) := by
    intro d hd
    rcases List.mem_cons.mp hd with rfl | hd
    · exact ⟨by decide, integerLine_lineText jsonValue_legacyEntry (by rintro v ⟨⟩)⟩
    · rcases List.mem_map.mp hd with ⟨w, hw, rfl⟩
      have hinteger : w.Plain → IntegerLine NanFloat (lineText w.result) := fun h =>
        integerLine_lineText (h.parsed ▸ w.jsonValue_parsed) fun v hv =>
          ⟨_, Option.some.inj (hv.symm.trans get?_finalized_sequence)⟩
      rcases List.mem_cons.mp hw with rfl | hw
      · exact ⟨writable_startedWrite, hinteger plain_startedWrite⟩
      · rcases List.mem_singleton.mp hw with rfl
        exact ⟨writable_doneWrite, hinteger plain_doneWrite⟩
  refine ⟨text, htext, hlines, ?_, ?_⟩
  · rw [hlines, List.forall_mem_map]
    exact fun d hd => within_lineText (hentry d hd).1
  · rw [hlines, List.forall_mem_map]
    exact fun d hd => (hentry d hd).2

theorem chainedLines_upgraded : chainedLines NanFloat 1 (upgradedEntries.map lineText) =
    [(2, startedWrite.parsed), (3, doneWrite.parsed)] := by
  have hkinds : ∀ w : Write NanFloat, kind NanFloat (lineText w.result) = .chained w.parsed :=
    fun w => w.kind_line
  simp [upgradedEntries, exampleWrites, chainedLines, kind_legacyEntry, hkinds]

theorem legacyLines_upgraded :
    (upgradedEntries.map lineText).countP (fun l => (kind NanFloat l).isLegacy) = 1 := by
  have hkinds : ∀ w : Write NanFloat, kind NanFloat (lineText w.result) = .chained w.parsed :=
    fun w => w.kind_line
  simp [upgradedEntries, exampleWrites, Kind.isLegacy, kind_legacyEntry, hkinds]

theorem verifyChain_grammar_upgraded : ∃ r, verifyChain NanFloat (some upgradedLog) = .ok r ∧
    r.ok = true ∧ r.entriesChecked = 2 ∧ r.legacyEntries = 1 := by
  rcases upgradedLog_text with ⟨text, htext, hlines, hwithin, hinteger⟩
  rcases (verifyChain_grammar_iff htext hinteger).mpr (noLimitReached_of_within hwithin) with
    ⟨r, hr, hdescribes⟩
  rw [hlines] at hdescribes
  have hok : r.ok = true := hdescribes.ok_iff.mpr acceptable_upgradedEntries
  refine ⟨r, hr, hok, ?_, ?_⟩
  · rw [hdescribes.entriesChecked hok, chainedLines_upgraded]
    rfl
  · rw [hdescribes.legacyEntries hok, legacyLines_upgraded]

/-- An entry with a number in it. -/
def numberEntry (n : Int) : Dict NanFloat := [(.str (py "a"), .int n)]

section Digits

variable {n : Int} (hn : short n = false)

theorem jsonValue_numberEntry : JsonValue (.dict (numberEntry n)) :=
  jsonValue_empty.cons (by decide) rfl (.int n)

theorem kind_numberEntry :
    kind NanFloat (lineText (numberEntry n)) = .legacy (numberEntry n) :=
  kind_lineText jsonValue_numberEntry

include hn in
theorem not_within_numberEntry : ¬ Within NanFloat (lineText (numberEntry n)) := by
  rw [Within, strip_lineText]
  intro h
  have hfits := (limitMet_eq_none_iff (parse_print .spaced (.dict (numberEntry n)))).mp h
  rw [stringify_of_jsonValue jsonValue_numberEntry] at hfits
  have hnumber := ((fits_dict.mp hfits).2 _ List.mem_cons_self).2
  rw [fits_int, hn] at hnumber
  cases hnumber

include hn in
/-- A line the grammar accepts, and the checker raises at. -/
theorem verifyChain_stopped : ∃ text e,
    decodeUtf8 (lineBytes (numberEntry n)) = some text ∧
    (∀ l ∈ textLines text, IntegerLine NanFloat l) ∧ Acceptable NanFloat (textLines text) ∧
    verifyChain NanFloat (some (lineBytes (numberEntry n))) = .error e := by
  rcases textLines_append_line (Or.inl rfl) rfl (numberEntry n) with ⟨text, htext, hlines⟩
  rw [List.nil_append] at htext
  have hlines' : textLines text = [lineText (numberEntry n)] := hlines
  have hacc : Acceptable NanFloat (textLines text) := by
    rw [hlines']
    exact (@acceptable_insert_legacy NanFloat _ [] [] _ _ kind_numberEntry).mpr acceptable_nil
  have hreached : ¬ NoLimitReached NanFloat (textLines text) := fun h =>
    h [] (lineText (numberEntry n)) [] hlines' (not_within_numberEntry hn) acceptable_nil
  rcases verifyLines_error hreached with ⟨e, -, hrun⟩
  refine ⟨text, e, htext, ?_, hacc, ?_⟩
  · rw [hlines', List.forall_mem_singleton]
    exact integerLine_lineText jsonValue_numberEntry (by rintro v ⟨⟩)
  · rw [verifyChain_text htext]
    exact hrun

end Digits

/-- A number of one digit too many. -/
def longNumber : Int := digitsValue (List.replicate (maxStrDigits + 1) 49)

theorem short_longNumber : short longNumber = false := by
  have hdigits : IntDigits (List.replicate (maxStrDigits + 1) 49) := by
    refine ⟨by simp, fun c hc => ?_, fun h => ?_⟩
    · rw [List.eq_of_mem_replicate hc]
      rfl
    · rw [List.head?_replicate] at h
      simp at h
  have hlength := length_natText_digitsValue hdigits
  rw [List.length_replicate] at hlength
  rw [short, longNumber, Int.natAbs_natCast, hlength]
  simp

theorem verifyChain_stopped_by_digits : ∃ text e,
    decodeUtf8 (lineBytes (numberEntry longNumber)) = some text ∧
    (∀ l ∈ textLines text, IntegerLine NanFloat l) ∧ Acceptable NanFloat (textLines text) ∧
    verifyChain NanFloat (some (lineBytes (numberEntry longNumber))) = .error e :=
  verifyChain_stopped short_longNumber

end AutoHeal.Audit.Limited
