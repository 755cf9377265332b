import AutoHeal.Audit.Limits
import AutoHeal.Audit.Torn

/-!
# Appending within the interpreter's limits

What an append needs of the last line of the log is that the writer makes a state of it
that has a next number (`currentState_iff`).

* `append_keeps_verified_iff`: the log stays accepted exactly when the state also follows the
  chained entries and the entry is within the limits;
* `append_readable_iff`: the entry stands on a line of its own exactly when the file has
  nothing but whitespace after its last newline, or the append raises;
* `append_robust_iff`: on which contents, and under which settings, nothing raises.
-/

namespace AutoHeal.Audit.Limited

variable {F : Type} [PyRuntime F]

/-! ## The state to link to -/

variable (F) in
/-- The last line does not make the writer raise, and the state it gives has the property. -/
def StateGives (P : Int × Str → Prop) (file : Bytes) : Prop :=
  ∀ l, lastLine file = some l → ∃ last, decodeUtf8 l = some last ∧
    limitMet F last ≠ some .recursionError ∧ (limitMet F last = none → LinkGives F P last)

theorem currentState_of_lastLine {file l : Bytes} (h : lastLine file = some l) :
    currentState F (some file) =
      match decodeUtf8 l with
      | some last => stateOf (linkOf (F := F) last)
      | none => .error .unicodeDecodeError := by
  unfold currentState
  rw [readLastLine_eq, h]
  unfold decoded
  cases htext : decodeUtf8 l <;> simp only [htext] <;> rfl

/-- A limit on the number of digits is a `ValueError`, and caught. -/
theorem stateOf_limited_iff {P : Int × Str → Prop} (hfresh : P (0, genesisHash)) (last : Str) :
    (∃ s, stateOf (linkOf (F := F) last) = .ok s ∧ P s) ↔
      limitMet F last ≠ some .recursionError ∧ (limitMet F last = none → LinkGives F P last) := by
  unfold linkOf
  cases hlimit : limitMet F last with
  | none =>
    simp only [ne_eq, reduceCtorEq, not_false_eq_true, forall_const, true_and]
    exact stateOf_linkOf_iff hfresh last
  | some e =>
    rcases (limitMet_eq_some hlimit).2 with rfl | rfl
    · exact iff_of_true ⟨_, rfl, hfresh⟩ (by simp)
    · exact iff_of_false (by rintro ⟨s, ⟨⟩, -⟩) (by simp)

theorem currentState_iff {P : Int × Str → Prop} (hfresh : P (0, genesisHash)) (file : Bytes) :
    (∃ s, currentState F (some file) = .ok s ∧ P s) ↔ StateGives F P file := by
  unfold StateGives
  cases hl : lastLine file with
  | none =>
    have hstate : currentState F (some file) = .ok (0, genesisHash) := by
      unfold currentState
      rw [readLastLine_eq, hl]
    exact iff_of_true ⟨_, hstate, hfresh⟩ (by rintro l ⟨⟩)
  | some l =>
    simp only [Option.some.injEq, forall_eq']
    rw [currentState_of_lastLine hl]
    cases decodeUtf8 l with
    | none => exact iff_of_false (by rintro ⟨s, ⟨⟩, -⟩) (by rintro ⟨last, ⟨⟩, -⟩)
    | some last =>
      simp only [Option.some.injEq, exists_eq_left']
      exact stateOf_limited_iff hfresh last

theorem currentState_getD (file : Option Bytes) :
    currentState F file = currentState F (some (file.getD [])) := by
  cases file with
  | none =>
    have hempty : readLastLine (some []) = .ok none := readLastLine_eq []
    show _ = currentState F (some [])
    unfold currentState
    rw [hempty]
    rfl
  | some bytes => rfl

theorem currentState_of_lastText {file : Bytes} {last : Str} (h : lastText file = some last) :
    currentState F (some file) = stateOf (linkOf (F := F) last) := by
  rcases Option.bind_eq_some_iff.mp h with ⟨l, hl, hlast⟩
  rw [currentState_of_lastLine hl, hlast]

theorem linkOf_of_limitMet {last : Str} (h : limitMet F last = none) :
    linkOf (F := F) last = Audit.linkOf (F := F) last := by
  unfold linkOf
  rw [h]

theorem linkOf_ok {last : Str} {s : Int × Str} (h : linkOf (F := F) last = .ok s) :
    Audit.linkOf (F := F) last = .ok s := by
  unfold linkOf at h
  split at h
  · cases h
  · exact h

theorem currentState_joined {file : Option Bytes} {s : Int × Str}
    (h : currentState F file = .ok s) : joinSurrogates s.2 = s.2 := by
  unfold currentState at h
  split at h
  · cases h
  · cases h
    exact joined_genesisHash
  · unfold stateOf at h
    split at h
    · next hs =>
      cases h
      exact linkOf_joined (linkOf_ok hs)
    · split_ifs at h
      cases h
      exact joined_genesisHash

/-! ## Writing -/

/-- The state has a next number. -/
def HasNext (s : Int × Str) : Prop := short (s.1 + 1) = true

theorem hasNext_fresh : HasNext (0, genesisHash) := by
  unfold HasNext
  decide

section Write

variable {c : AuditChain F} {dir : Dir} {entry : Dict F} {s : Int × Str}

theorem hashEntry_chained (hentry : Serialisable entry) (hfits : Writable (.dict entry))
    (hnext : HasNext s) : hashEntry (chained entry s) = .ok (jsonHash (chained entry s)) := by
  have hchained : Writable (.dict (chained entry s)) :=
    fits_set (fits_set hfits (fits_int.mpr hnext) _) (fits_str _) _
  unfold hashEntry
  rw [(hentry.chained s).hashEntry]
  exact writeLimit_eq_ok.mpr ⟨hchained, rfl⟩

/-- `_write_locked` of an entry that can be written. -/
theorem writeLocked_ok (hentry : Serialisable entry) (hfits : Writable (.dict entry))
    (hs : currentState F (dir.lookup c.base) = .ok s) (hnext : HasNext s) :
    writeLocked c dir entry =
      (dir.insert c.base ((dir.lookup c.base).getD [] ++ lineBytes (finalized entry s)),
        .ok (finalized entry s)) := by
  have hdumps : jsonDumps (.dict (finalized entry s)) = .ok (lineText (finalized entry s)) := by
    unfold jsonDumps finalized
    rw [((hentry.chained s).set_str _ _).dumps]
    exact writeLimit_eq_ok.mpr ⟨writable_finalized hfits hnext, rfl⟩
  unfold finalized at hdumps
  unfold writeLocked
  simp only [hs, hashEntry_chained hentry hfits hnext, hdumps]
  rw [encodeUtf8_append]
  rfl

/-- What a write that did not raise has done. -/
theorem exists_of_writeLocked {dir' : Dir} {e : Dict F}
    (h : writeLocked c dir entry = (dir', .ok e)) :
    ∃ s, currentState F (dir.lookup c.base) = .ok s ∧ keysAllowed (.dict (chained entry s)) = true ∧
      keysSortable (.dict (chained entry s)) = true ∧ Writable (.dict (chained entry s)) ∧
      e = finalized entry s ∧ Writable (.dict e) ∧
      dir' = dir.insert c.base ((dir.lookup c.base).getD [] ++ lineBytes e) := by
  unfold writeLocked at h
  split at h
  · cases h
  · next s hs =>
    refine ⟨s, hs, ?_⟩
    split at h
    · cases h
    · next hash hhash =>
      -- the hash has been taken, so the keys could be sorted and written
      rcases Py.bind_eq_ok.mp hhash with ⟨hash', hbase, hlimit⟩
      rcases writeLimit_eq_ok.mp hlimit with ⟨hchained, rfl⟩
      rcases of_hashEntry_ok hbase with ⟨hallowed, hsortable, rfl⟩
      refine ⟨hallowed, hsortable, hchained, ?_⟩
      simp only at h
      split at h
      · cases h
      · next line hline =>
        rcases Py.bind_eq_ok.mp hline with ⟨line', hdumps, hlimit'⟩
        rcases writeLimit_eq_ok.mp hlimit' with ⟨hfinalized, rfl⟩
        rcases of_dumps_ok hdumps with ⟨-, -, rfl⟩
        cases h
        refine ⟨rfl, hfinalized, ?_⟩
        rw [encodeUtf8_append]
        rfl

theorem hasNext_of_chained (h : Writable (.dict (chained entry s))) : HasNext s := by
  have hseq : Dict.get? (py "sequence") (chained entry s) = some (.int (s.1 + 1)) := by
    unfold chained
    rw [Dict.get?_set, if_neg (by decide), Dict.get?_set, if_pos rfl]
  exact fits_int.mp ((fits_dict.mp h).2 _ (Dict.mem_of_get? hseq)).2

/-- The entry and the next number are within the limits when they can be written. -/
theorem writable_chained_iff (hno : NoChainFields entry) :
    Writable (.dict (chained entry s)) ↔ Writable (.dict entry) ∧ HasNext s := by
  have hprev : Dict.get? (py "prev_hash") (Dict.set (py "sequence") (.int (s.1 + 1)) entry) =
      none := by
    rw [Dict.get?_set, if_neg (by decide)]
    exact hno.2.1
  constructor
  · intro h
    refine ⟨?_, hasNext_of_chained h⟩
    unfold chained at h
    rw [Dict.set_of_notMem (Dict.get?_eq_none_iff.mp hprev),
      Dict.set_of_notMem (Dict.get?_eq_none_iff.mp hno.1)] at h
    rcases fits_dict.mp h with ⟨hlevels, hitems⟩
    exact fits_dict.mpr ⟨hlevels, fun kv hkv => hitems kv (by simp [hkv])⟩
  · rintro ⟨hfits, hnext⟩
    exact fits_set (fits_set hfits (fits_int.mpr hnext) _) (fits_str _) _

end Write

/-! ## One append -/

variable [PyDates F] {c : AuditChain F} {dir : Dir} {entry : Dict F}

/-- With rotation disabled an append is one write. -/
theorem append_disabled (hc : truthy (field (py "enabled") c.retention) = false) (env : Env)
    (dir : Dir) (entry : Dict F) : append c env dir entry =
      ((writeLocked c dir entry).1, (writeLocked c dir entry).2.map fun d => (d, none)) := by
  have hrotate : maybeRotateLocked c env dir = (dir, .ok none) := by
    unfold maybeRotateLocked shouldRotateLocked
    rw [hc]
  unfold append
  rw [hrotate]
  rcases hw : writeLocked c dir entry with ⟨dir', e | d⟩ <;> simp only [hw] <;> rfl

/-- What an append returns and leaves behind, with rotation disabled. -/
theorem append_ok (hc : truthy (field (py "enabled") c.retention) = false) (env : Env)
    {s : Int × Str} (hentry : JsonValue (.dict entry)) (hfits : Writable (.dict entry))
    (hs : currentState F (some ((dir.lookup c.base).getD [])) = .ok s) (hnext : HasNext s) :
    append c env dir entry =
      (dir.insert c.base ((dir.lookup c.base).getD [] ++ lineBytes (finalized entry s)),
        .ok (finalized entry s, none)) := by
  rw [← currentState_getD] at hs
  rw [append_disabled hc, writeLocked_ok (serialisable_of_jsonValue hentry) hfits hs hnext]
  rfl

/-- What an append that did not raise has done, with rotation disabled. -/
theorem exists_of_append (hc : truthy (field (py "enabled") c.retention) = false) {env : Env}
    (hno : NoChainFields entry) {dir' : Dir} {e : Dict F} {rotation : Option (Rotation F)}
    (h : append c env dir entry = (dir', .ok (e, rotation))) :
    ∃ s, currentState F (some ((dir.lookup c.base).getD [])) = .ok s ∧ HasNext s ∧
      Writable (.dict entry) ∧ e = finalized entry s ∧ Writable (.dict e) ∧
      dir' = dir.insert c.base ((dir.lookup c.base).getD [] ++ lineBytes e) := by
  rw [append_disabled hc] at h
  rcases hwrite : writeLocked c dir entry with ⟨dir₁, e₁ | e₁⟩
  · rw [hwrite] at h
    cases h
  · rw [hwrite] at h
    cases h
    rcases exists_of_writeLocked hwrite with ⟨s, hs, -, -, hchained, rfl, hfinalized, rfl⟩
    rcases (writable_chained_iff hno).mp hchained with ⟨hfits, hnext⟩
    rw [currentState_getD] at hs
    exact ⟨s, hs, hnext, hfits, rfl, hfinalized, rfl⟩

/-! ## An append keeps the file accepted -/

variable (F) in
/-- The last line gives a state that follows the chained entries, and has a next number. -/
def TailAgrees (file : Bytes) : Prop :=
  StateGives F (fun s => Follows F file s ∧ HasNext s) file

/-- With rotation disabled, an append to an accepted file leaves an accepted file with one
chained entry more exactly when the last line agrees with the chained entries and the entry
is within the limits. -/
theorem append_keeps_verified_iff (hc : truthy (field (py "enabled") c.retention) = false)
    (env : Env) {r : Report} (hr : verifyChain F (dir.lookup c.base) = .ok r)
    (hok : r.ok = true) (hterm : Terminated ((dir.lookup c.base).getD []))
    (hentry : JsonValue (.dict entry)) (hno : NoChainFields entry) :
    (∃ dir' e r', append c env dir entry = (dir', .ok (e, none)) ∧
      verifyChain F (dir'.lookup c.base) = .ok r' ∧ r'.ok = true ∧
      r'.entriesChecked = r.entriesChecked + 1 ∧ r'.legacyEntries = r.legacyEntries) ↔
    TailAgrees F ((dir.lookup c.base).getD []) ∧ Writable (.dict entry) := by
  have hfile : verifyChain F (some ((dir.lookup c.base).getD [])) = .ok r := by
    cases hlookup : dir.lookup c.base with
    | none =>
      rw [hlookup] at hr
      exact hr
    | some file =>
      rw [hlookup] at hr
      exact hr
  rcases verifyChain_accepted hfile hok with ⟨text, htext, hwithin, hbase⟩
  have hfresh : Follows F ((dir.lookup c.base).getD []) (0, genesisHash) ∧
      HasNext (0, genesisHash) := ⟨Or.inl rfl, hasNext_fresh⟩
  rw [TailAgrees, ← currentState_iff hfresh]
  constructor
  · rintro ⟨dir', e, r', happend, hr', hok', -⟩
    rcases exists_of_append hc hno happend with ⟨s, hs, hnext, hfits, rfl, -, rfl⟩
    rw [lookup_insert_base] at hr'
    rcases verifyChain_accepted hr' hok' with ⟨-, -, -, hbase'⟩
    have hwrite := verified_write_iff hbase hok hterm hentry hno (currentState_joined hs)
    exact ⟨⟨s, hs, hwrite.1.mp ⟨r', hbase', hok'⟩, hnext⟩, hfits⟩
  · rintro ⟨⟨s, hs, hfollows, hnext⟩, hfits⟩
    rcases verified_write_iff hbase hok hterm hentry hno (currentState_joined hs) with
      ⟨hiff, hcounts⟩
    rcases hiff.mpr hfollows with ⟨r', hr', hok'⟩
    rcases textLines_append_line hterm htext (finalized entry s) with ⟨text', htext', hlines⟩
    have hwithin' : ∀ l ∈ textLines text', Within F l := by
      rw [hlines, List.forall_mem_append, List.forall_mem_singleton]
      exact ⟨hwithin, within_lineText (writable_finalized hfits hnext)⟩
    refine ⟨_, _, r', append_ok hc env hentry hfits hs hnext, ?_, hok', hcounts r' hr' hok'⟩
    rw [lookup_insert_base, verifyChain_of_within htext' hwithin']
    exact hr'

theorem lastText_upgradedLog : lastText upgradedLog = some doneWrite.line := by
  have hfile : upgradedLog =
      (legacyEntry :: [startedWrite.result]).flatMap lineBytes ++ lineBytes doneWrite.result := by
    simp [upgradedLog, upgradedEntries, exampleWrites]
  have hunfinished : unfinished ((legacyEntry :: [startedWrite.result]).flatMap lineBytes) = [] := by
    rw [List.flatMap_cons, List.flatMap_singleton]
    exact (terminated_append_line _ _).unfinished
  rw [hfile, lastText_append_line hunfinished]
  rfl

theorem currentState_upgradedLog :
    currentState NanFloat (some upgradedLog) = .ok doneWrite.next := by
  have hlimit : limitMet NanFloat doneWrite.line = none := limitMet_print .spaced writable_doneWrite
  rw [currentState_of_lastText lastText_upgradedLog, linkOf_of_limitMet hlimit,
    linkOf_of_loads doneWrite.loads_line doneWrite.get?_sequence doneWrite.get?_entry_hash]
  rfl

theorem terminated_upgradedLog : Terminated upgradedLog := by
  have hfile : upgradedLog =
      (legacyEntry :: [startedWrite.result]).flatMap lineBytes ++ lineBytes doneWrite.result := by
    simp [upgradedLog, upgradedEntries, exampleWrites]
  rw [hfile]
  exact terminated_append_line _ _

theorem tailAgrees_upgradedLog : TailAgrees NanFloat upgradedLog := by
  rcases upgradedLog_text with ⟨text, htext, hlines, -, -⟩
  refine (currentState_iff ⟨Or.inl rfl, hasNext_fresh⟩ _).mp ⟨_, currentState_upgradedLog, ?_, ?_⟩
  · refine Or.inr ⟨(3, doneWrite.parsed), ?_, ⟨.int (doneWrite.next.1 + 1), ?_, ?_⟩,
      doneWrite.entry_hash⟩
    · unfold chainedEntries
      simp only [htext, hlines, chainedLines_upgraded]
      rfl
    · rw [doneWrite.sequence, addOne_int]
      rfl
    · rw [scalarEq_int]
      exact beq_self_eq_true _
  · unfold HasNext
    decide

/-- The next append to a log of an earlier version that appends have been made to. -/
theorem append_keeps_verified_upgraded : ∃ dir' e r',
    append (exampleChain []) exampleEnv (exampleDir upgradedLog) startedEntry =
      (dir', .ok (e, none)) ∧
    verifyChain NanFloat (dir'.lookup (exampleChain []).base) = .ok r' ∧ r'.ok = true ∧
      r'.entriesChecked = 3 ∧ r'.legacyEntries = 1 := by
  rcases upgradedLog_text with ⟨text, htext, hlines, hwithin, -⟩
  have hfile := lookup_exampleDir upgradedLog []
  have hr : verifyChain NanFloat (some upgradedLog) =
      .ok (Report.empty.extend (F := NanFloat) none 1 (upgradedEntries.map lineText)) := by
    rw [verifyChain_of_within htext hwithin, verifyChain_text_unlimited htext, start,
      ← hlines, verifyLines_acceptable (hlines ▸ acceptable_upgradedEntries)]
  rcases (append_keeps_verified_iff (c := exampleChain []) rfl exampleEnv (hfile ▸ hr) rfl
    (by rw [hfile]; exact terminated_upgradedLog) jsonValue_startedEntry ⟨rfl, rfl, rfl⟩).mpr
    ⟨by rw [hfile]; exact tailAgrees_upgradedLog, by decide⟩ with
    ⟨dir', e, r', happend, hr', hok', hchecked, hlegacy⟩
  refine ⟨dir', e, r', happend, hr', hok', hchecked.trans ?_, hlegacy.trans ?_⟩
  · simp [Report.extend, Report.empty, chainedLines_upgraded]
  · rw [Report.extend, legacyLines_upgraded]
    rfl

/-- An entry with `sequence` and `entry_hash`, but no `prev_hash`: the checker skips
it, the writer links to it. -/
def partialEntry : Dict NanFloat :=
  [(.str (py "sequence"), .int 5), (.str (py "entry_hash"), .str (py "a"))]

theorem partialEntry_jsonValue : JsonValue (.dict partialEntry) :=
  (jsonValue_empty.cons (by decide) rfl (.str (by decide))).cons (by decide) rfl (.int 5)

/-- A log of one partial entry is accepted, and no longer after an append. -/
theorem append_breaks_after_partial_entry : ∃ r dir' e,
    Terminated (lineBytes partialEntry) ∧
    verifyChain NanFloat (some (lineBytes partialEntry)) = .ok r ∧ r.ok = true ∧
    append (exampleChain []) exampleEnv (exampleDir (lineBytes partialEntry)) startedEntry =
      (dir', .ok (e, none)) ∧ ¬ Verified NanFloat (dir'.lookup (exampleChain []).base) := by
  have hterm : Terminated (lineBytes partialEntry) := terminated_append_line [] partialEntry
  have hwritable : Writable (.dict partialEntry) := by decide
  have hkind : kind NanFloat (lineText partialEntry) = .legacy partialEntry :=
    kind_lineText partialEntry_jsonValue
  -- the checker counts the entry as a legacy entry
  rcases textLines_append_line (Or.inl rfl) rfl partialEntry with ⟨text, htext, hlines⟩
  rw [List.nil_append] at htext
  have hlines' : textLines text = [lineText partialEntry] := hlines
  have hwithin : ∀ l ∈ textLines text, Within NanFloat l := by
    rw [hlines', List.forall_mem_singleton]
    exact within_lineText hwritable
  have hacc : Acceptable NanFloat (textLines text) := by
    rw [hlines']
    exact (@acceptable_insert_legacy NanFloat _ [] [] _ _ hkind).mpr acceptable_nil
  rcases verified_iff.mpr ⟨text, htext, hacc⟩ with ⟨r, hr, hok⟩
  -- the writer reads its sequence and hash
  have hs : currentState NanFloat (some (lineBytes partialEntry)) = .ok (5, py "a") := by
    have hlink := linkOf_of_loads (n := 5) (h := py "a")
      (loads_print partialEntry_jsonValue .spaced) rfl rfl
    have hlast : lastText ([] ++ lineBytes partialEntry) = some (lineText partialEntry) :=
      lastText_append_line rfl partialEntry
    rw [List.nil_append] at hlast
    have hlimit : limitMet NanFloat (lineText partialEntry) = none :=
      limitMet_print .spaced hwritable
    rw [currentState_of_lastText hlast, linkOf_of_limitMet hlimit, lineText, hlink]
    rfl
  have hfile := lookup_exampleDir (lineBytes partialEntry) []
  have happend := @append_ok NanFloat _ _ (exampleChain []) (exampleDir (lineBytes partialEntry))
    startedEntry rfl exampleEnv (5, py "a") jsonValue_startedEntry (by decide)
    (by rw [hfile]; exact hs) (by unfold HasNext; decide)
  refine ⟨r, _, _, hterm, by rw [verifyChain_of_within htext hwithin]; exact hr, hok, happend, ?_⟩
  rw [lookup_insert_base, hfile]
  have hiff := @verified_write_iff _ _ _ _ startedEntry (5, py "a") hr hok hterm
    jsonValue_startedEntry ⟨rfl, rfl, rfl⟩ (by decide)
  rintro ⟨r', hr', hok'⟩
  rcases verifyChain_accepted hr' hok' with ⟨-, -, -, hbase⟩
  rcases hiff.1.mp ⟨r', hbase, hok'⟩ with h | ⟨x, hx, -⟩
  · exact absurd h (by decide)
  · have hentries : chainedEntries NanFloat (lineBytes partialEntry) = [] := by
      unfold chainedEntries
      simp [htext, hlines', chainedLines, hkind]
    rw [hentries] at hx
    cases hx

/-! ## An append that can be read -/

/-- An append that returns `e` leaves every earlier byte as it was, and a last line
that is read back as `e`; and an entry that can be written is appended next, and links to
`e`. -/
def AppendReadable (c : AuditChain F) (env : Env) (dir : Dir) (entry : Dict F) : Prop :=
  ∀ dir' e rotation, append c env dir entry = (dir', .ok (e, rotation)) →
    ∃ file' n, dir'.lookup c.base = some file' ∧ (dir.lookup c.base).getD [] <+: file' ∧
      (∃ last, lastText file' = some last ∧ jsonLoads last = .ok (PyVal.dict e)) ∧
      field (py "sequence") e = .int n ∧
      ∀ env' entry', JsonValue (.dict entry') → Writable (.dict entry') → short (n + 1) = true →
        ∃ dir'' e' rotation', append c env' dir' entry' = (dir'', .ok (e', rotation')) ∧
          field (py "prev_hash") e' = field (py "entry_hash") e ∧
          field (py "sequence") e' = .int (n + 1)

/-- `append` raises: the last line makes the writer raise, its number is the last that can be
written, or the entry is not within the limits. -/
def AppendRaises (file : Bytes) (entry : Dict F) : Prop :=
  ¬ StateGives F HasNext file ∨ ¬ Writable (.dict entry)

omit [PyDates F] in
/-- After whitespace a written entry is read back. -/
theorem jsonLoads_after_blank {t : Str} (ht : ∀ c ∈ t, isJsonWs c = true) {d : Dict F}
    (hd : JsonValue (.dict d)) (hfits : Writable (.dict d)) :
    jsonLoads (t ++ lineText d) = .ok (PyVal.dict d) := by
  rw [lineText, jsonLoads_ws_print .spaced hfits ht, readBack, stringify_of_jsonValue hd,
    resolve_of_jsonValue hd]

theorem append_readable_of_blank (hc : truthy (field (py "enabled") c.retention) = false)
    (env : Env) (hentry : JsonValue (.dict entry)) (hno : NoChainFields entry)
    (hblank : BlankTail ((dir.lookup c.base).getD [])) : AppendReadable c env dir entry := by
  intro dir' e rotation happend
  rcases exists_of_append hc hno happend with ⟨s, hs, hnext, hfits, rfl, hwritable, rfl⟩
  have hvalue := finalized_jsonValue hentry (currentState_joined hs)
  rcases hblank with ⟨t, ht, hws⟩
  have hlast : lastText ((dir.lookup c.base).getD [] ++ lineBytes (finalized entry s)) =
      some (t ++ lineText (finalized entry s)) := by
    rw [lastText_write, ht]
    rfl
  have hloads := jsonLoads_after_blank hws hvalue hwritable
  refine ⟨_, s.1 + 1, lookup_insert_base c dir _, List.prefix_append _ _, ⟨_, hlast, hloads⟩,
    field_finalized_sequence, ?_⟩
  intro env' entry' hentry' hfits' hnext'
  have hlimit : limitMet F (t ++ lineText (finalized entry s)) = none := by
    unfold limitMet
    rw [hloads]
  have hlink : currentState F (some (((dir.insert c.base ((dir.lookup c.base).getD [] ++
      lineBytes (finalized entry s))).lookup c.base).getD [])) =
      .ok (s.1 + 1, jsonHash (chained entry s)) := by
    rw [lookup_insert_base, Option.getD_some, currentState_of_lastText hlast,
      linkOf_of_limitMet hlimit, linkOf_of_loads (jsonLoads_ok hloads).1 get?_finalized_sequence
        get?_finalized_entry_hash]
    rfl
  refine ⟨_, _, _, append_ok hc env' hentry' hfits' hlink hnext', ?_, field_finalized_sequence⟩
  rw [field_finalized_prev_hash, field_finalized_entry_hash]

/-- With rotation disabled, an append keeps its promise exactly when it raises, or the
file has nothing but whitespace after its last newline. -/
theorem append_readable_iff (hc : truthy (field (py "enabled") c.retention) = false)
    (env : Env) (hentry : JsonValue (.dict entry)) (hno : NoChainFields entry) :
    AppendReadable c env dir entry ↔
      BlankTail ((dir.lookup c.base).getD []) ∨ AppendRaises ((dir.lookup c.base).getD []) entry := by
  constructor
  · intro h
    by_cases hraises : AppendRaises ((dir.lookup c.base).getD []) entry
    · exact Or.inr hraises
    · left
      unfold AppendRaises at hraises
      rw [not_or, not_not, not_not, ← currentState_iff hasNext_fresh] at hraises
      rcases hraises with ⟨⟨s, hs, hnext⟩, hfits⟩
      rcases h _ _ _ (append_ok hc env hentry hfits hs hnext) with
        ⟨file', n, hfile, -, ⟨last, hlast, hl⟩, -⟩
      rw [lookup_insert_base] at hfile
      cases hfile
      -- the last text is the torn tail and the line; it reads back only where the tail is blank
      rw [lastText_write] at hlast
      rcases Option.map_eq_some_iff.mp hlast with ⟨t, ht, rfl⟩
      refine ⟨t, ht, blank_of_loads ?_ (jsonLoads_ok hl).1⟩
      rw [get?_finalized_sequence]
      rintro ⟨⟩
  · rintro (hblank | hraises)
    · exact append_readable_of_blank hc env hentry hno hblank
    · intro dir' e rotation happend
      rcases exists_of_append hc hno happend with ⟨s, hs, hnext, hfits, -⟩
      rcases hraises with hstate | hentry'
      · exact absurd ((currentState_iff hasNext_fresh _).mp ⟨s, hs, hnext⟩) hstate
      · exact absurd hfits hentry'

theorem blankTail_of_terminated {file : Bytes} (h : Terminated file) : BlankTail file := by
  unfold BlankTail
  rw [h.unfinished]
  exact ⟨[], rfl, fun c hc => absurd hc List.not_mem_nil⟩

/-- An append to a log of an earlier version returns, and is on a line of its own. -/
theorem append_readable_upgraded :
    (∃ dir' e, append (exampleChain []) exampleEnv (exampleDir upgradedLog) startedEntry =
      (dir', .ok (e, none))) ∧
    AppendReadable (exampleChain []) exampleEnv (exampleDir upgradedLog) startedEntry := by
  have hfile := lookup_exampleDir upgradedLog []
  refine ⟨⟨_, _, append_ok rfl exampleEnv jsonValue_startedEntry (by decide)
    (by rw [hfile]; exact currentState_upgradedLog) (by unfold HasNext; decide)⟩, ?_⟩
  refine (append_readable_iff rfl exampleEnv jsonValue_startedEntry ⟨rfl, rfl, rfl⟩).mpr (Or.inl ?_)
  rw [hfile]
  exact blankTail_of_terminated terminated_upgradedLog

/-- The beginning of an entry. -/
def tornText : Str := py "\x7b\"action\": "

/-- The next append glues its line to the torn one. -/
theorem append_unreadable_after_torn :
    ¬ AppendReadable (exampleChain []) exampleEnv (exampleDir (encodeUtf8 tornText))
      startedEntry := by
  intro h
  have hprint : Printable tornText := by decide
  have htext : decodeUtf8 (encodeUtf8 tornText) = some tornText :=
    decodeUtf8_encodeUtf8 hprint.ascii
  have hopen : unfinished (encodeUtf8 tornText) = encodeUtf8 tornText :=
    afterNewline_eq_self (newline_notMem_encode hprint)
  have hne : unfinished (encodeUtf8 tornText) ≠ [] := by
    rw [hopen]
    exact encodeUtf8_ne_nil hprint.ascii (by decide)
  have hlast : lastText (encodeUtf8 tornText) = some tornText := by
    rw [lastText, lastLine_of_unfinished hne, hopen]
    exact htext
  have hs : currentState NanFloat (some (encodeUtf8 tornText)) = .ok (0, genesisHash) := by
    have hlimit : limitMet NanFloat tornText = none := by decide +kernel
    have hnone : (loads tornText : Option (PyVal NanFloat)) = none :=
      Option.isNone_iff_eq_none.mp (by decide +kernel)
    rw [currentState_of_lastText hlast, linkOf_of_limitMet hlimit]
    unfold Audit.linkOf
    rw [hnone]
    rfl
  have hfile := lookup_exampleDir (encodeUtf8 tornText) []
  have happend := @append_ok NanFloat _ _ (exampleChain []) (exampleDir (encodeUtf8 tornText))
    startedEntry rfl exampleEnv (0, genesisHash) jsonValue_startedEntry (by decide)
    (by rw [hfile]; exact hs) hasNext_fresh
  rcases h _ _ _ happend with ⟨file', n, hfile', -, ⟨last, hlast', hl⟩, -⟩
  rw [lookup_insert_base, hfile] at hfile'
  cases hfile'
  rw [Option.getD_some, lastText_write, hopen, htext, Option.map_some, Option.some.injEq] at hlast'
  rw [← hlast'] at hl
  have hblank := blank_of_loads (by rw [get?_finalized_sequence]; rintro ⟨⟩) (jsonLoads_ok hl).1
  have hbrace := hblank 123 (by decide)
  cases hbrace

/-! ## Nothing raises -/

variable (F) in
/-- The first line of the file is read without too many levels, and if it is JSON within the
limits, it is an entry that can be dated. -/
def FirstEntryDated (file : Bytes) : Prop :=
  ∀ raw, firstLine (readLines file) = some raw →
    limitMet F (strip raw) ≠ some .recursionError ∧
    (Within F raw → ∀ v : PyVal F, loads (strip raw) = some v → DatedEntry v)

theorem firstTimestamp_eq (lines : List Str) : firstTimestamp F lines =
    match firstLine lines with
    | none => .ok none
    | some raw => firstTimestamp F [raw] := by
  induction lines with
  | nil => rfl
  | cons raw lines ih =>
    unfold firstLine at ih ⊢
    rw [List.find?_cons]
    by_cases hblank : strip raw = []
    · rw [firstTimestamp, ih, hblank]
      rfl
    · have hline : (!(strip raw).isEmpty) = true := by simpa using hblank
      rw [hline]
      simp only [firstTimestamp, hblank, if_false]

/-- The reader of the first timestamp returns, and no date without a zone, exactly when
the first entry can be dated. -/
theorem firstTimestamp_ok_iff (file : Bytes) :
    (∃ t, readFirstEntryTimestamp F (some file) = .ok t ∧ t ≠ some .naive) ↔
      FirstEntryDated F file := by
  show (∃ t, firstTimestamp F (readLines file) = .ok t ∧ t ≠ some .naive) ↔ _
  unfold FirstEntryDated
  rw [firstTimestamp_eq]
  cases hfirst : firstLine (readLines file) with
  | none => exact iff_of_true ⟨none, rfl, by simp⟩ (by rintro raw ⟨⟩)
  | some raw =>
    have hline := strip_firstLine hfirst
    simp only [firstTimestamp, hline, if_false, Option.some.injEq, forall_eq']
    unfold Within
    cases hlimit : limitMet F (strip raw) with
    | none =>
      simp only [ne_eq, reduceCtorEq, not_false_eq_true, forall_const, true_and]
      exact firstTimestamp_line_iff hline
    | some e =>
      rcases (limitMet_eq_some hlimit).2 with rfl | rfl
      · exact iff_of_true ⟨none, rfl, by simp⟩ ⟨by simp, by rintro ⟨⟩⟩
      · exact iff_of_false (by rintro ⟨t, ⟨⟩, -⟩) (by simp)

/-- `max_bytes` is falsy or a number; where rotation by age is configured, the first
entry can be dated and, if it has a date, `rotate_interval_days` is a time span. -/
structure RotationComputable (c : AuditChain F) (file : Bytes) : Prop where
  size : truthy (field (py "max_bytes") c.retention) = true →
    (field (py "max_bytes") c.retention).num.isSome = true
  dated : ¬ TooLarge c file → truthy (field (py "rotate_interval_days") c.retention) = true →
    FirstEntryDated F file
  interval : ¬ TooLarge c file → truthy (field (py "rotate_interval_days") c.retention) = true →
    ∀ micros, readFirstEntryTimestamp F (some file) = .ok (some (.aware micros)) →
      ∃ span, timedeltaDays (field (py "rotate_interval_days") c.retention) = .ok span

theorem rotationComputable_iff {c : AuditChain F} {file : Bytes} : RotationComputable c file ↔
    DueComputable c file (readFirstEntryTimestamp F (some file)) := by
  have hdated := firstTimestamp_ok_iff (F := F) file
  constructor
  · intro h
    exact ⟨h.size, fun hsmall ha => hdated.mpr (h.dated hsmall ha), h.interval⟩
  · intro h
    exact ⟨h.size, fun hsmall ha => hdated.mp (h.dated hsmall ha), h.interval⟩

theorem shouldRotateLocked_ok_iff {env : Env} {file : Bytes}
    (hfile : dir.lookup c.base = some file) :
    (∃ due, shouldRotateLocked c env dir = .ok due) ↔
      (truthy (field (py "enabled") c.retention) = true → RotationComputable c file) := by
  unfold shouldRotateLocked
  rw [hfile]
  cases henabled : truthy (field (py "enabled") c.retention) with
  | false => exact iff_of_true ⟨false, rfl⟩ (by rintro ⟨⟩)
  | true =>
    simp only [forall_const]
    exact rotationDue_ok_iff.trans rotationComputable_iff.symm

omit [PyDates F] in
/-- The marker of a rotation is within the limits. -/
theorem writable_rotationMarker (env : Env) (archive : Str) (deleted : List Str) :
    Writable (.dict (rotationMarker c env archive deleted)) := by
  have hlevels := PyRuntime.two_le_jsonLevels (F := F)
  refine fits_dict.mpr ⟨by omega, fun kv hkv => ?_⟩
  unfold rotationMarker at hkv
  simp only [List.mem_cons, List.not_mem_nil, or_false] at hkv
  rcases hkv with rfl | rfl | rfl | rfl | rfl | rfl
  case inr.inr.inr.inr.inr =>
    refine ⟨rfl, fits_list.mpr ⟨by omega, fun v hv => ?_⟩⟩
    rcases List.mem_map.mp hv with ⟨name, -, rfl⟩
    exact fits_str name
  all_goals exact ⟨rfl, fits_str _⟩

theorem maybeRotateLocked_of_swept {env : Env} {swept dir' : Dir} {deleted : List Str}
    {marker : Dict F} (hdue : shouldRotateLocked c env dir = .ok true)
    (hsweep : sweepRetentionLocked c env (rename dir c.base (archivedName c env dir)) =
      (swept, .ok deleted))
    (hwrite : writeLocked c swept (rotationMarker c env (archivedName c env dir) deleted) =
      (dir', .ok marker)) :
    maybeRotateLocked c env dir =
      (dir', .ok (some ⟨archivedName c env dir, deleted, marker⟩)) := by
  unfold maybeRotateLocked
  rw [hdue]
  simp only [hsweep, hwrite]

omit [PyDates F] in
/-- The file after the first line of an entry can be linked to. -/
theorem currentState_line (hn : entry.keys.Nodup) (hentry : Serialisable entry) {s : Int × Str}
    (hfits : Writable (.dict (finalized entry s))) :
    currentState F (some (lineBytes (finalized entry s))) =
      .ok (s.1 + 1, jsonHash (chained entry s)) := by
  have hlast : lastText ([] ++ lineBytes (finalized entry s)) =
      some (lineText (finalized entry s)) := lastText_append_line rfl _
  have hlimit : limitMet F (lineText (finalized entry s)) = none := limitMet_print .spaced hfits
  rw [List.nil_append] at hlast
  rw [currentState_of_lastText hlast, linkOf_of_limitMet hlimit, linkOf_lineText hn hentry]
  rfl

/-- A rotation leaves a file that can be linked to. -/
theorem exists_rotated {env : Env} {file : Bytes} (hfile : dir.lookup c.base = some file)
    (hdue : shouldRotateLocked c env dir = .ok true) (hcut : CutoffComputable c env) :
    ∃ dir' rotation s, maybeRotateLocked c env dir = (dir', .ok rotation) ∧
      currentState F (dir'.lookup c.base) = .ok s ∧ HasNext s := by
  have harchive := isArchive_archivedName c env dir
  rcases exists_swept hcut (rename dir c.base (archivedName c env dir)) with
    ⟨swept, deleted, hsweep, hswept⟩
  have hnone : swept.lookup c.base = none := by
    rw [hswept.lookup, lookup_rename hfile, if_neg (Ne.symm (IsArchive.ne_base harchive.1)),
      if_pos rfl]
    split <;> rfl
  have hstate : currentState F (swept.lookup c.base) = .ok (0, genesisHash) := by
    rw [hnone]
    rfl
  have hmarker := serialisable_rotationMarker c env (archivedName c env dir) deleted
  have hfits := writable_rotationMarker (c := c) env (archivedName c env dir) deleted
  have hwrite := writeLocked_ok hmarker hfits hstate hasNext_fresh
  have hnext : HasNext (0 + 1, jsonHash (chained (rotationMarker c env (archivedName c env dir)
      deleted) (0, genesisHash))) := by
    show short (0 + 1 + 1) = true
    decide
  refine ⟨_, _, _, maybeRotateLocked_of_swept hdue hsweep hwrite, ?_, hnext⟩
  rw [lookup_insert_base, hnone]
  exact currentState_line (keys_rotationMarker_nodup c env (archivedName c env dir) deleted) hmarker
    (writable_finalized hfits hasNext_fresh)

/-- What the readers of the log need: settings by which rotation can be decided and done, and
a last line that gives a state with a next number unless the log is rotated. -/
structure Readable (c : AuditChain F) (env : Env) (dir : Dir) (file : Bytes) : Prop where
  rotation : truthy (field (py "enabled") c.retention) = true → RotationComputable c file
  cutoff : shouldRotateLocked c env dir = .ok true → CutoffComputable c env
  last : shouldRotateLocked c env dir = .ok false → StateGives F HasNext file

/-- An append that returned has written the entry on the last line. -/
def Appends (c : AuditChain F) (env : Env) (dir : Dir) (entry : Dict F) : Prop :=
  ∃ dir' s rotation, append c env dir entry = (dir', .ok (finalized entry s, rotation)) ∧
    ∃ old, dir'.lookup c.base = some (old ++ lineBytes (finalized entry s))

theorem append_of_rotated {env : Env} {dir₁ dir' : Dir} {e : Dict F}
    {rotation : Option (Rotation F)} (hrotate : maybeRotateLocked c env dir = (dir₁, .ok rotation))
    (hwrite : writeLocked c dir₁ entry = (dir', .ok e)) :
    append c env dir entry = (dir', .ok (e, rotation)) := by
  unfold append
  rw [hrotate]
  simp only [hwrite]

variable {env : Env} {file : Bytes}

/-- A log that an append has read is readable. -/
theorem readable_of_append {dir' : Dir} {r : Dict F × Option (Rotation F)}
    (hfile : dir.lookup c.base = some file) (happend : append c env dir entry = (dir', .ok r)) :
    Readable c env dir file := by
  unfold append at happend
  split at happend
  · cases happend
  · next dir₁ made hrotate =>
    unfold maybeRotateLocked at hrotate
    split at hrotate
    · cases hrotate
    -- the log is not rotated, so the write has linked to its last line
    · next hdue =>
      cases hrotate
      refine ⟨(shouldRotateLocked_ok_iff hfile).mp ⟨_, hdue⟩, fun h => ?_, fun _ => ?_⟩
      · rw [hdue] at h
        cases h
      · split at happend
        · cases happend
        · next hwrite =>
          rcases exists_of_writeLocked hwrite with ⟨s, hs, -, -, hchained, -⟩
          rw [hfile] at hs
          exact (currentState_iff hasNext_fresh file).mp ⟨s, hs, hasNext_of_chained hchained⟩
    · next hdue =>
      refine ⟨(shouldRotateLocked_ok_iff hfile).mp ⟨_, hdue⟩, fun _ => ?_, fun h => ?_⟩
      · simp only at hrotate
        split at hrotate
        · cases hrotate
        · next hsweep => exact cutoff_of_swept hsweep
      · rw [hdue] at h
        cases h

/-- An entry within the limits that can be written is appended exactly when the log is
readable. -/
theorem appends_iff (hentry : Serialisable entry) (hfits : Writable (.dict entry))
    (hfile : dir.lookup c.base = some file) :
    Appends c env dir entry ↔ Readable c env dir file := by
  constructor
  · rintro ⟨dir', s, rotation, happend, -⟩
    exact readable_of_append hfile happend
  · intro h
    rcases (shouldRotateLocked_ok_iff hfile).mpr h.rotation with ⟨_ | _, hdue⟩
    · have hrotate : maybeRotateLocked c env dir = (dir, .ok none) := by
        unfold maybeRotateLocked
        rw [hdue]
      rcases (currentState_iff hasNext_fresh file).mpr (h.last hdue) with ⟨s, hs, hnext⟩
      rw [← hfile] at hs
      exact ⟨_, s, none, append_of_rotated hrotate (writeLocked_ok hentry hfits hs hnext), _,
        lookup_insert_base c dir _⟩
    · rcases exists_rotated hfile hdue (h.cutoff hdue) with ⟨dir₁, rotation, s, hrotate, hs, hnext⟩
      exact ⟨_, s, rotation, append_of_rotated hrotate (writeLocked_ok hentry hfits hs hnext), _,
        lookup_insert_base c dir₁ _⟩

omit [PyDates F] in
/-- `verify_chain` returns a report exactly when the file is checkable and no limit is reached
in it. -/
theorem verifyChain_ok_iff (file : Bytes) : (∃ r, verifyChain F (some file) = .ok r) ↔
    Checkable F file ∧ NoLimitReached F (readLines file) := by
  rw [← Audit.verifyChain_ok_iff]
  -- what both make of the lines is passed on in one way
  have hpass : ∃ g : Py Report → Py Report, (∀ e, g (.error e) = .error e) ∧
      verifyChain F (some file) = g (verifyLines (start F) 1 (readLines file)) ∧
      Audit.verifyChain F (some file) = g (Audit.verifyLines (start F) 1 (readLines file)) := by
    unfold readLines
    cases htext : decodeUtf8 file with
    | some text =>
      exact ⟨id, fun e => rfl, verifyChain_text htext, verifyChain_text_unlimited htext⟩
    | none =>
      refine ⟨fun r => r.bind fun r => if r.ok then .error .unicodeDecodeError else .ok r,
        fun e => rfl, ?_, ?_⟩
      · unfold verifyChain
        simp only [htext]
        rfl
      · unfold Audit.verifyChain
        simp only [htext]
        rfl
  rcases hpass with ⟨g, hg, hlimited, hunlimited⟩
  rw [hlimited, hunlimited]
  by_cases hreached : NoLimitReached F (readLines file)
  · rw [verifyLines_eq hreached]
    exact (and_iff_left hreached).symm
  · rcases verifyLines_error hreached with ⟨e, -, he⟩
    rw [he, hg]
    exact iff_of_false (by rintro ⟨r, ⟨⟩⟩) fun h => hreached h.2

/-- An entry is appended and the log gets a report exactly when the log is readable and
checkable, and no limit is reached in it. -/
theorem append_robust_iff (hentry : Serialisable entry) (hfits : Writable (.dict entry))
    (hfile : dir.lookup c.base = some file) :
    (Appends c env dir entry ∧ ∃ r, verifyChain F (some file) = .ok r) ↔
      Readable c env dir file ∧ Checkable F file ∧ NoLimitReached F (readLines file) :=
  and_congr (appends_iff hentry hfits hfile) (verifyChain_ok_iff file)

/-- A log that ends in the beginning of an entry, on a line of its own. -/
def damagedLog : Bytes := upgradedLog ++ (encodeUtf8 tornText ++ [10])

theorem damagedLog_text : ∃ text, decodeUtf8 damagedLog = some text ∧
    textLines text = upgradedEntries.map lineText ++ [tornText] := by
  rcases upgradedLog_text with ⟨text, htext, hlines, -, -⟩
  rcases textLines_append_text terminated_upgradedLog htext (by decide : Printable tornText) with
    ⟨text', htext', hlines'⟩
  exact ⟨text', htext', hlines ▸ hlines'⟩

theorem kind_tornText : kind NanFloat tornText = .malformed := by
  have hne : strip tornText ≠ [] := by decide
  have hnone : (loads (strip tornText) : Option (PyVal NanFloat)) = none :=
    Option.isNone_iff_eq_none.mp (by decide +kernel)
  unfold kind
  rw [if_neg hne, hnone]

theorem readable_damagedLog :
    Readable (exampleChain []) exampleEnv (exampleDir damagedLog) damagedLog := by
  have hdue : shouldRotateLocked (exampleChain []) exampleEnv (exampleDir damagedLog) =
      .ok false := rfl
  refine ⟨by rintro ⟨⟩, fun h => ?_, fun _ => ?_⟩
  · rw [hdue] at h
    cases h
  · have hprint : Printable tornText := by decide
    have hlast : lastLine damagedLog = some (encodeUtf8 tornText) := by
      rw [damagedLog, lastLine_append upgradedLog (newline_notMem_encode hprint)
        (encodeUtf8_ne_nil hprint.ascii (by decide)), terminated_upgradedLog.unfinished,
        List.nil_append]
    have hnone : (loads tornText : Option (PyVal NanFloat)) = none :=
      Option.isNone_iff_eq_none.mp (by decide +kernel)
    have hlimit : limitMet NanFloat tornText = none := by decide +kernel
    intro l hl
    rw [hlast, Option.some.injEq] at hl
    subst hl
    refine ⟨tornText, decodeUtf8_encodeUtf8 hprint.ascii, ?_,
      fun _ parsed sequence hparsed => ?_⟩
    · rw [hlimit]
      simp
    · rw [hnone] at hparsed
      cases hparsed

theorem checkable_damagedLog :
    Checkable NanFloat damagedLog ∧ NoLimitReached NanFloat (readLines damagedLog) := by
  rcases damagedLog_text with ⟨text, htext, hlines⟩
  rcases upgradedLog_text with ⟨text₁, -, hlines₁, hwithin, -⟩
  have hread : readLines damagedLog = upgradedEntries.map lineText ++ [tornText] := by
    unfold readLines
    simp only [htext, hlines]
  rw [hread]
  constructor
  · refine Or.inr ⟨tornText, ?_, by rw [kind_tornText]; rintro ⟨⟩⟩
    rw [hread]
    refine ⟨_, [], rfl, acceptable_upgradedEntries, fun h => ?_⟩
    have hobject := (acceptable_iff.mp h).1 tornText (by simp)
    rw [kind_tornText] at hobject
    cases hobject
  · refine noLimitReached_of_within ?_
    rw [List.forall_mem_append, List.forall_mem_singleton, ← hlines₁]
    have htorn : limitMet NanFloat (strip tornText) = none := by decide +kernel
    exact ⟨hwithin, htorn⟩

/-- An append goes on after a damaged line, and the checker reports it. -/
theorem append_robust_damaged :
    Appends (exampleChain []) exampleEnv (exampleDir damagedLog) startedEntry ∧
      ∃ r, verifyChain NanFloat (some damagedLog) = .ok r :=
  (append_robust_iff (serialisable_of_jsonValue jsonValue_startedEntry) (by decide)
    (lookup_exampleDir damagedLog [])).mpr ⟨readable_damagedLog, checkable_damagedLog⟩

/-- A log that is one byte, and that no UTF-8: the append raises and writes nothing, and
the checker raises. -/
theorem append_stopped_by_byte :
    append (exampleChain []) exampleEnv (exampleDir [0xFF]) startedEntry =
        (exampleDir [0xFF], .error .unicodeDecodeError) ∧
      verifyChain NanFloat (some [0xFF]) = .error .unicodeDecodeError := by
  have hstate : currentState NanFloat ((exampleDir [0xFF]).lookup (exampleChain []).base) =
      .error .unicodeDecodeError := by
    have hlast : lastLine [0xFF] = some [0xFF] := rfl
    rw [lookup_exampleDir, currentState_of_lastLine hlast]
    rfl
  constructor
  · rw [append_disabled rfl]
    unfold writeLocked
    rw [hstate]
    rfl
  · have hlines : linesBeforeError [0xFF] = [] := by
      have htext : textBeforeError .start [0xFF] = [] := by
        unfold textBeforeError
        rfl
      unfold linesBeforeError
      rw [htext]
      rfl
    have hdecode : decodeUtf8 [0xFF] = none := rfl
    unfold verifyChain
    simp only [hdecode, hlines]
    rfl

end AutoHeal.Audit.Limited
