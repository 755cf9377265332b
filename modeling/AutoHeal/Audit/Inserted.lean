import AutoHeal.Audit.LimitedAppend
import AutoHeal.Audit.Tamper

/-!
# Inserted lines

A line that is put into a log appends have written. With the three chain fields it is found,
but for a segment start before the first line and a copy of the first line right after it; an
object with none of them is a legacy entry to the checker (`insert_detected_iff`).
-/

namespace AutoHeal.Audit.Limited

variable {F : Type} [PyRuntime F]

/-! ## Logs within the limits -/

/-- The file holds the log of these writes, and all of them are within the limits. -/
def Holds (c : AuditChain F) (dir : Dir) (ws : List (Write F)) : Prop :=
  Audit.Holds c dir ws ∧ ∀ w ∈ ws, Writable (.dict w.result)

theorem linkOf_line {w : Write F} (h : Writable (.dict w.result)) :
    linkOf (F := F) w.line = .ok w.next := by
  have hlimit : limitMet F w.line = none := limitMet_print .spaced h
  rw [linkOf_of_limitMet hlimit]
  exact linkOf_of_loads w.loads_line w.get?_sequence w.get?_entry_hash

/-- The next append links to the last write of the log. -/
theorem currentState_content {ws : List (Write F)} (h : ∀ w ∈ ws, Writable (.dict w.result)) :
    currentState F (some (content ws)) = .ok (endState ws) := by
  rcases List.eq_nil_or_concat' ws with rfl | ⟨init, w, rfl⟩
  · rw [show content ([] : List (Write F)) = (none : Option Bytes).getD [] from rfl,
      ← currentState_getD]
    rfl
  · have hlast := lastText_append_line (terminated_content init).unfinished w.result
    have hlink := linkOf_line (h w (by simp))
    rw [Write.line] at hlink
    rw [content_snoc, currentState_of_lastText hlast, hlink, endState, List.getLast?_concat]
    rfl

/-- A write that did not raise has added one line to the log. -/
theorem Holds.write {c : AuditChain F} {dir dir' : Dir} {ws : List (Write F)} {entry e : Dict F}
    (h : Holds c dir ws) (hn : entry.keys.Nodup)
    (hwrite : writeLocked c dir entry = (dir', .ok e)) : ∃ w, Holds c dir' (ws ++ [w]) := by
  rcases exists_of_writeLocked hwrite with ⟨s, hs, hallowed, hsort, -, rfl, hfits, rfl⟩
  rw [currentState_getD, h.1.2, currentState_content h.2, Except.ok.injEq] at hs
  subst hs
  refine ⟨⟨entry, endState ws, hn, hallowed, hsort, joined_endState ws⟩,
    ⟨fromScratch_snoc.mpr ⟨h.1.1, rfl⟩, ?_⟩, ?_⟩
  · rw [lookup_insert_base, content_snoc, h.1.2]
    rfl
  · rw [List.forall_mem_append, List.forall_mem_singleton]
    exact ⟨h.2, hfits⟩

/-- A write that raised has left the log as it was. -/
theorem Holds.write_error {c : AuditChain F} {dir dir' : Dir} {ws : List (Write F)}
    {entry : Dict F} {err : PyErr} (h : Holds c dir ws)
    (hwrite : writeLocked c dir entry = (dir', .error err)) : Holds c dir' ws := by
  refine ⟨⟨h.1.1, ?_⟩, h.2⟩
  unfold writeLocked at hwrite
  split at hwrite
  · cases hwrite
    exact h.1.2
  · split at hwrite
    · cases hwrite
      exact h.1.2
    · simp only at hwrite
      split at hwrite
      · -- the file was opened before the line could be made
        cases hwrite
        rw [lookup_insert_base]
        exact h.1.2
      · cases hwrite

section Run

variable [PyDates F]

/-- The directory after a run of appends, those that raise among them. -/
def appendAll (c : AuditChain F) (dir : Dir) (calls : List (Env × Dict F)) : Dir :=
  calls.foldl (fun dir call => (append c call.1 dir call.2).1) dir

/-- With rotation disabled a run of appends leaves a log of the same writes and more. -/
theorem Holds.run {c : AuditChain F} (hc : truthy (field (py "enabled") c.retention) = false)
    {calls : List (Env × Dict F)} (hn : ∀ call ∈ calls, call.2.keys.Nodup) {dir : Dir}
    {ws : List (Write F)} (h : Holds c dir ws) :
    ∃ more, Holds c (appendAll c dir calls) (ws ++ more) := by
  induction calls generalizing dir ws with
  | nil => exact ⟨[], by rwa [List.append_nil]⟩
  | cons call calls ih =>
    have hrest := fun call hcall => hn call (List.mem_cons_of_mem _ hcall)
    have hstep : (append c call.1 dir call.2).1 = (writeLocked c dir call.2).1 := by
      rw [append_disabled hc]
    rw [appendAll, List.foldl_cons, hstep]
    rcases hwrite : writeLocked c dir call.2 with ⟨dir', err | e⟩
    · exact ih hrest (h.write_error hwrite)
    · rcases h.write (hn call (by simp)) hwrite with ⟨w, h'⟩
      rcases ih hrest h' with ⟨more, hmore⟩
      exact ⟨w :: more, by rwa [List.append_assoc] at hmore⟩

/-- What a run of appends to an absent file leaves in it. -/
theorem exists_writes_of_run {c : AuditChain F}
    (hc : truthy (field (py "enabled") c.retention) = false) {dir : Dir}
    (habsent : dir.lookup c.base = none) {calls : List (Env × Dict F)}
    (hn : ∀ call ∈ calls, call.2.keys.Nodup) {file : Bytes}
    (hfile : (appendAll c dir calls).lookup c.base = some file) :
    ∃ ws : List (Write F), FromScratch ws ∧ (∀ w ∈ ws, Writable (.dict w.result)) ∧
      file = content ws := by
  have hempty : Holds c dir [] := ⟨holds_of_absent habsent, fun w hw => absurd hw (by simp)⟩
  rcases hempty.run hc hn with ⟨ws, ⟨hws, hcontent⟩, hwritable⟩
  rw [List.nil_append] at hws hcontent hwritable
  rw [hfile] at hcontent
  exact ⟨ws, hws, hwritable, hcontent⟩

/-! ## The checker on an inserted line -/

/-- An object put before the line `k` of a log that appends have written. With the three
chain fields it is accepted only as the start of a segment, before the first line or as a
copy of the first line right after it; without any of them it changes nothing. -/
theorem insert_detected_iff (hinj : Sha256Injective F) {c : AuditChain F}
    (hc : truthy (field (py "enabled") c.retention) = false) {dir : Dir}
    (habsent : dir.lookup c.base = none) {calls : List (Env × Dict F)}
    (hn : ∀ call ∈ calls, call.2.keys.Nodup) {file : Bytes} {text : Str}
    (hfile : (appendAll c dir calls).lookup c.base = some file)
    (htext : decodeUtf8 file = some text) {k : ℕ} (hk : k < (textLines text).length) {x : Str}
    {d : Dict F} (hx : jsonLoads (strip x) = .ok (PyVal.dict d)) {g : Bytes} {text' : Str}
    (hg : decodeUtf8 g = some text')
    (hlines : textLines text' = (textLines text).take k ++ x :: (textLines text).drop k) :
    ∃ r, verifyChain F (some g) = .ok r ∧
      (hasChainFields d = true → (r.ok = true ↔ Verified F (some file) ∧ Starts d ∧
        (k = 0 ∨ k = 1 ∧ ∃ first, (textLines text).head? = some first ∧ SameLine F x first))) ∧
      (NoChainFields d → (r.ok = true ↔ Verified F (some file))) := by
  rcases exists_writes_of_run hc habsent hn hfile with ⟨ws, hws, hwritable, rfl⟩
  rcases exists_text_content ws with ⟨text₂, htext₂, hls⟩
  rw [htext, Option.some.injEq] at htext₂
  subst htext₂
  have hwithin : ∀ l ∈ textLines text, Within F l := by
    rw [hls, List.forall_mem_map]
    exact fun w hw => within_lineText (hwritable w hw)
  have hwithin' : ∀ l ∈ textLines text', Within F l := by
    rw [hlines, List.forall_mem_append, List.forall_mem_cons]
    refine ⟨fun l hl => hwithin l (List.mem_of_mem_take hl), ?_,
      fun l hl => hwithin l (List.mem_of_mem_drop hl)⟩
    unfold Within limitMet
    rw [hx]
  have hverified : Verified F (some (content ws)) ↔ Audit.Verified F (some (content ws)) := by
    unfold Verified Audit.Verified
    rw [verifyChain_of_within htext hwithin]
  rw [hls, List.length_map] at hk
  rw [hls] at hlines ⊢
  rw [hverified, verifyChain_of_within hg hwithin']
  exact insert_into_writes hinj hws hk (jsonLoads_ok hx).1 hg hlines

/-! ## Lines put into a log of two entries -/

theorem append_started : append (exampleChain []) exampleEnv ∅ startedEntry =
    ((∅ : Dir).insert (exampleChain []).base (content [startedWrite]),
      .ok (startedWrite.result, none)) := by
  have happend := @append_ok NanFloat _ _ (exampleChain []) ∅ startedEntry rfl exampleEnv
    (0, genesisHash) jsonValue_startedEntry (by decide) (by rw [← currentState_getD]; rfl)
    hasNext_fresh
  rw [happend]
  exact congrArg (fun file => ((∅ : Dir).insert (exampleChain []).base file,
    Except.ok (startedWrite.result, none))) (content_snoc [] startedWrite).symm

theorem append_done {dir : Dir}
    (h : dir.lookup (exampleChain []).base = some (content [startedWrite])) :
    append (exampleChain []) exampleEnv dir doneEntry =
      (dir.insert (exampleChain []).base (content exampleWrites), .ok (doneWrite.result, none)) := by
  have hstate : currentState NanFloat
      (some ((dir.lookup (exampleChain []).base).getD [])) = .ok startedWrite.next := by
    rw [h]
    have hw : ∀ w ∈ [startedWrite], Writable (.dict w.result) := fun w hw => by
      rw [List.mem_singleton.mp hw]
      exact writable_startedWrite
    exact currentState_content hw
  rw [@append_ok NanFloat _ _ (exampleChain []) dir doneEntry rfl exampleEnv _ jsonValue_doneEntry
    (by decide) hstate (by unfold HasNext; decide), h]
  exact congrArg (fun file => (dir.insert (exampleChain []).base file,
    Except.ok (doneWrite.result, none))) (content_snoc [startedWrite] doneWrite).symm

theorem lookup_exampleWrites : (appendAll (exampleChain []) ∅ exampleCalls).lookup
    (exampleChain []).base = some (content exampleWrites) := by
  unfold appendAll exampleCalls
  rw [List.foldl_cons, List.foldl_cons, List.foldl_nil, append_started,
    append_done (lookup_insert_base _ _ _), lookup_insert_base]

theorem verified_log : Verified NanFloat (some (content exampleWrites)) := by
  rcases exists_text_content exampleWrites with ⟨text, htext, hlines⟩
  have hwithin : ∀ l ∈ textLines text, Within NanFloat l := by
    rw [hlines, List.forall_mem_map]
    intro w hw
    rcases List.mem_cons.mp hw with rfl | hw
    · exact within_lineText writable_startedWrite
    · rcases List.mem_singleton.mp hw with rfl
      exact within_lineText writable_doneWrite
  unfold Verified
  rw [verifyChain_of_within htext hwithin]
  exact verified_exampleWrites

/-- An entry someone made up. -/
def forgedEntry : Dict NanFloat :=
  [(.str (py "action"), .str (py "cleanup_disk")), (.str (py "sequence"), .int 2),
    (.str (py "prev_hash"), .str (py "a")), (.str (py "entry_hash"), .str (py "b"))]

theorem jsonValue_forgedEntry : JsonValue (.dict forgedEntry) :=
  (((jsonValue_empty.cons (by decide) rfl (.str (by decide))).cons (by decide) rfl
    (.str (by decide))).cons (by decide) rfl (.int 2)).cons (by decide) rfl (.str (by decide))

/-- The log with an entry between its two lines. -/
def insertedLog (d : Dict NanFloat) : Bytes :=
  [startedWrite.result, d, doneWrite.result].flatMap lineBytes

omit [PyDates F] in
theorem jsonLoads_lineText {d : Dict F} (hd : JsonValue (.dict d)) (hfits : Writable (.dict d)) :
    jsonLoads (strip (lineText d)) = .ok (PyVal.dict d) := by
  rw [strip_lineText]
  exact jsonLoads_after_blank (t := []) (fun c hc => absurd hc List.not_mem_nil) hd hfits

/-- A forged entry between the two lines is found, an entry of an earlier version is not. -/
theorem insert_detected_forged : ∃ r r',
    verifyChain NanFloat (some (insertedLog forgedEntry)) = .ok r ∧ r.ok = false ∧
    verifyChain NanFloat (some (insertedLog legacyEntry)) = .ok r' ∧ r'.ok = true := by
  rcases exists_text_content exampleWrites with ⟨text, htext, hlines⟩
  have hcalls : ∀ call ∈ exampleCalls, call.2.keys.Nodup := by
    intro call hcall
    rcases List.mem_cons.mp hcall with rfl | hcall
    · exact jsonValue_startedEntry.keys_nodup
    · rw [List.mem_singleton.mp hcall]
      exact jsonValue_doneEntry.keys_nodup
  have hk : 1 < (textLines text).length := by
    rw [hlines]
    decide
  rcases exists_text_lines [startedWrite.result, forgedEntry, doneWrite.result] with
    ⟨text₁, htext₁, hlines₁⟩
  rcases exists_text_lines [startedWrite.result, legacyEntry, doneWrite.result] with
    ⟨text₂, htext₂, hlines₂⟩
  rcases insert_detected_iff sha256Injective_nanFloat (c := exampleChain []) rfl rfl hcalls
    lookup_exampleWrites htext hk (jsonLoads_lineText jsonValue_forgedEntry (by decide)) htext₁
    (by rw [hlines₁, hlines]; rfl) with ⟨r, hr, hchained, -⟩
  rcases insert_detected_iff sha256Injective_nanFloat (c := exampleChain []) rfl rfl hcalls
    lookup_exampleWrites htext hk (jsonLoads_lineText jsonValue_legacyEntry (by decide)) htext₂
    (by rw [hlines₂, hlines]; rfl) with ⟨r', hr', -, hlegacy⟩
  refine ⟨r, r', hr, ?_, hr', (hlegacy ⟨rfl, rfl, rfl⟩).mpr verified_log⟩
  rw [Bool.eq_false_iff]
  intro hok
  have hseq := ((hchained rfl).mp hok).2.1.2.1
  have hfield : field (py "sequence") forgedEntry = .int 2 := by
    simp [field, forgedEntry, Dict.get?, Key.isStr, py, cp]
  rw [hfield] at hseq
  exact absurd hseq (by decide)

/-- An object without chain fields, put before the log of two appends, is not found. -/
theorem insert_undetected : Verified NanFloat (some (content exampleWrites)) ∧
    (appendAll (exampleChain []) ∅ exampleCalls).lookup (exampleChain []).base =
      some (content exampleWrites) ∧
    jsonLoads (lineText legacyEntry) = .ok (PyVal.dict legacyEntry) ∧
    Verified NanFloat (some (lineBytes legacyEntry ++ content exampleWrites)) := by
  have hread := jsonLoads_lineText jsonValue_legacyEntry (by decide)
  rw [strip_lineText] at hread
  refine ⟨verified_log, lookup_exampleWrites, hread, ?_⟩
  rcases upgradedLog_text with ⟨text, htext, hlines, hwithin, -⟩
  have hlog : lineBytes legacyEntry ++ content exampleWrites = upgradedLog := by
    rw [content_eq]
    rfl
  rw [hlog]
  unfold Verified
  rw [verifyChain_of_within htext hwithin]
  exact verified_iff.mpr ⟨text, htext, hlines ▸ acceptable_upgradedEntries⟩

end Run

end AutoHeal.Audit.Limited
