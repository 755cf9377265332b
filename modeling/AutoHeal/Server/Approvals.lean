import AutoHeal.Server.Trail

/-!
# What an approval keeps

An approval that has executed its entry leaves it in the queue and in the state file, with
the result that was answered, exactly when fewer than 500 processed entries stand behind
it, the file can be written, and the result is read back as it is (`approve_keeps_iff`).
-/

namespace AutoHeal.Server

open Audit Retain

variable {F : Type}

/-! ## Texts in the state file -/

/-- No high surrogate stands directly before a low one. -/
def Unpaired (s : Str) : Prop := s.IsChain fun a b => (isHighSurrogate a && isLowSurrogate b) = false

/-- The texts that are read back from the state file as they are. -/
theorem joinSurrogates_eq_self_iff (s : Str) : joinSurrogates s = s ↔ Unpaired s := by
  unfold Unpaired
  fun_induction joinSurrogates s with
  | case1 => simp
  | case2 c => simp
  | case3 a b s hpair ih =>
    refine iff_of_false (fun h => ?_) fun h => ?_
    swap
    · rw [(List.isChain_cons_cons.mp h).1] at hpair
      cases hpair
    -- a pair becomes one character, which is no surrogate
    have hlength := congrArg List.length h
    have hle : (joinSurrogates s).length ≤ s.length := by
      clear h hlength ih
      fun_induction joinSurrogates s with
      | case1 => simp
      | case2 c => simp
      | case3 a b s hpair ih => simp; omega
      | case4 a b s hpair ih => simpa using ih
    simp only [List.length_cons] at hlength
    omega
  | case4 a b s hpair ih =>
    rw [List.cons.injEq, and_iff_right rfl, ih, List.isChain_cons_cons]
    simp [hpair]

/-- The texts of the result are read back as they are. -/
structure ExecResult.Unpaired (r : ExecResult) : Prop where
  stdout : Server.Unpaired r.stdout
  stderr : Server.Unpaired r.stderr
  error : ∀ error, r.error = some error → Server.Unpaired error

theorem optStr_injective : Function.Injective (optStr : Option Str → PyVal F) := by
  rintro (_ | s) (_ | t) h
  · rfl
  · cases h
  · cases h
  · cases h
    rfl

theorem asDict_injective : Function.Injective (ExecResult.asDict : ExecResult → Dict F) := by
  rintro ⟨success, stdout, stderr, exitCode, error⟩ ⟨success', stdout', stderr', exitCode', error'⟩ h
  unfold ExecResult.asDict at h
  simp only [List.cons.injEq, Prod.mk.injEq, PyVal.bool.injEq, PyVal.str.injEq, PyVal.int.injEq,
    true_and, and_true, optStr_injective.eq_iff] at h
  rcases h with ⟨rfl, rfl, rfl, rfl, rfl⟩
  rfl

variable [PyRuntime F]

theorem readDict_asDict_eq_iff (r : ExecResult) :
    readDict (r.asDict : Dict F) = r.asDict ↔ r.Unpaired := by
  have hread : readDict (r.asDict : Dict F) = ExecResult.asDict
      ⟨r.success, joinSurrogates r.stdout, joinSurrogates r.stderr, r.exitCode,
        r.error.map joinSurrogates⟩ := by
    have hbool : readBack (.bool r.success : PyVal F) = .bool r.success := by
      rw [readBack, stringify, resolve]
      all_goals simp
    have hint : readBack (.int r.exitCode : PyVal F) = .int r.exitCode := by
      rw [readBack, stringify, resolve]
      all_goals simp
    rw [readDict, dictOfPairs_eq_self (strKeys_stringItems _ _)]
    · unfold stringItems ExecResult.asDict
      simp only [List.map_cons, List.map_nil]
      rw [hbool, hint, readBack_str, readBack_str, readBack_optStr]
      rfl
    · have hnames : [py "success", py "stdout", py "stderr", py "exit_code", py "error"].Nodup := by
        decide
      exact nodup_map_str hnames
  -- only the three texts can change, and each changes when a pair in it is joined
  have herror : r.error.map joinSurrogates = r.error ↔
      ∀ error, r.error = some error → joinSurrogates error = error := by
    cases r.error <;> simp
  rw [hread, asDict_injective.eq_iff]
  constructor
  · intro h
    have hstdout := congrArg ExecResult.stdout h
    have hstderr := congrArg ExecResult.stderr h
    have herror' := herror.mp (congrArg ExecResult.error h)
    exact ⟨(joinSurrogates_eq_self_iff _).mp hstdout, (joinSurrogates_eq_self_iff _).mp hstderr,
      fun error he => (joinSurrogates_eq_self_iff _).mp (herror' error he)⟩
  · intro h
    rw [(joinSurrogates_eq_self_iff _).mpr h.stdout, (joinSurrogates_eq_self_iff _).mpr h.stderr,
      herror.mpr fun error he => (joinSurrogates_eq_self_iff _).mpr (h.error error he)]

/-! ## Saving an entry -/

section Saving

variable {server : ServerState F} {pre post : List (Approval F)} {e c : Approval F}

/-- A processed entry with fewer than 500 others behind it is saved. -/
theorem saveEntry_of_lt (hids : ((pre ++ e :: post).map Approval.id).Nodup)
    (hqueue : server.queue = pre ++ e :: post) (hid : c.id = e.id) (hc : c.isProcessed = true)
    (hpost : post.countP Approval.isProcessed < maxProcessedApprovals) (writes : Bool) :
    ∃ n, (server.saveEntry c writes).queue = dropFirst Approval.isProcessed n pre ++ c :: post := by
  rcases keepLast_of_lt pre hc hpost with ⟨n, hn⟩
  refine ⟨n, ?_⟩
  show pruneQueue (updateEntry server.queue c.id fun _ => c) = _
  rw [hqueue, hid, updateEntry_append_cons hids, pruneQueue_eq, hn]

/-- With 500 of them behind it, it is dropped. -/
theorem saveEntry_of_ge (hids : ((pre ++ e :: post).map Approval.id).Nodup)
    (hqueue : server.queue = pre ++ e :: post) (hid : c.id = e.id) (hc : c.isProcessed = true)
    (hpost : maxProcessedApprovals ≤ post.countP Approval.isProcessed) (writes : Bool) :
    ∃ m n, (server.saveEntry c writes).queue =
      dropFirst Approval.isProcessed m pre ++ dropFirst Approval.isProcessed n post := by
  rcases keepLast_of_ge pre hc hpost with ⟨m, n, hmn⟩
  refine ⟨m, n, ?_⟩
  show pruneQueue (updateEntry server.queue c.id fun _ => c) = _
  rw [hqueue, hid, updateEntry_append_cons hids, pruneQueue_eq, hmn]

/-- After a save the queue has at most 500 processed entries. -/
theorem countP_saveEntry_le (server : ServerState F) (c : Approval F) (writes : Bool) :
    (server.saveEntry c writes).queue.countP Approval.isProcessed ≤ maxProcessedApprovals := by
  show (pruneQueue _).countP _ ≤ _
  rw [pruneQueue_eq]
  exact countP_keepLast_le _ _

end Saving

/-! ## The entry after an approval -/

section Keeping

variable [PyDates F] [PydanticTypes F] {site : Site F} {env : RequestEnv F}
  {server : ServerState F} {apiKey approvalId : Str} {e : Approval F} {task : Task F}
  {result : ExecResult} {pre post : List (Approval F)}

omit [PyDates F] [PydanticTypes F] in
/-- The two saves of an entry with fewer than 500 processed entries behind it. -/
theorem saveEntry_twice_of_lt {claimed finished : Approval F}
    (hids : ((pre ++ e :: post).map Approval.id).Nodup)
    (hqueue : server.queue = pre ++ e :: post) (hclaimed : claimed.id = e.id)
    (hfinished : finished.id = e.id) (hprocessed : claimed.isProcessed = true)
    (hprocessed' : finished.isProcessed = true)
    (hpost : post.countP Approval.isProcessed < maxProcessedApprovals) (cooldowns : Cooldowns)
    (writes writes' : Bool) :
    ∃ n, (server.saveEntry claimed writes).queue =
        dropFirst Approval.isProcessed n pre ++ claimed :: post ∧
      (({ server.saveEntry claimed writes with cooldowns }).saveEntry finished writes').queue =
        dropFirst Approval.isProcessed n pre ++ finished :: post := by
  rcases saveEntry_of_lt hids hqueue hclaimed hprocessed hpost writes with ⟨n, hn⟩
  have hcount := countP_saveEntry_le server claimed writes
  rw [hn, List.countP_append, List.countP_cons_of_pos hprocessed] at hcount
  have hids' : ((dropFirst Approval.isProcessed n pre ++ claimed :: post).map Approval.id).Nodup := by
    have hsame : (pre ++ claimed :: post).map Approval.id = (pre ++ e :: post).map Approval.id := by
      rw [List.map_append, List.map_append, List.map_cons, List.map_cons, hclaimed]
    rw [← hsame] at hids
    exact (((dropFirst_sublist n pre).append_right _).map _).nodup hids
  refine ⟨n, hn, ?_⟩
  show pruneQueue (updateEntry (server.saveEntry claimed writes).queue finished.id fun _ => finished) = _
  rw [hn, hfinished, ← hclaimed, updateEntry_append_cons hids', pruneQueue_eq, keepLast_of_le]
  rw [List.countP_append, List.countP_cons_of_pos hprocessed']
  exact hcount

/-- What holds of the queue in every reachable state: the ids are distinct, a pending entry
has no result, and the file does not have it as processed. -/
structure ServerState.Sound (server : ServerState F) : Prop where
  ids : (server.queue.map Approval.id).Nodup
  unresolved : ∀ e : Approval F, e ∈ server.queue → e.status = .pending → e.result = none
  behind : ∀ e : Approval F, e ∈ server.queue → e.status = .pending →
    ∀ f : Approval F, f ∈ loadApprovalQueue server.stateFile → f.id = e.id → f.status = .pending

omit [PyRuntime F] [PyDates F] [PydanticTypes F] in
/-- The entry of the queue with this id is approved and has the result. -/
def HasResult (queue : List (Approval F)) (entryId : Str) (result : ExecResult) : Prop :=
  ∃ e ∈ queue, e.id.val = entryId ∧ e.status = .approved ∧ e.result = some result.asDict

omit [PyDates F] [PydanticTypes F] in
/-- The queue has the entry with its result, and so does the state file. -/
def Kept (server : ServerState F) (entryId : Str) (result : ExecResult) : Prop :=
  HasResult server.queue entryId result ∧
    HasResult (loadApprovalQueue server.stateFile : List (Approval F)) entryId result

/-- Where no other call is in progress, an approval saves its entry twice. -/
theorem approve_server (happrovable : Approvable site env server apiKey approvalId e)
    (hclaims : Claims site env.vault server.cooldowns env.clock.check e task)
    (hresult : task.execute env.executor = .ok (some result))
    (hquiet : ∀ server, env.meanwhile server = server) :
    ∃ role cooldowns log, (approve site env server apiKey approvalId).1.server =
      { ({ server.saveEntry (e.claim apiKey role) env.saves with cooldowns }).saveEntry
          ((e.claim apiKey role).finish result) env.savesResult with log } := by
  rw [approve_of_claims happrovable hclaims rfl, approveExecute, hresult]
  simp only [hquiet, Outcome.after]
  generalize getRoleFromApiKey (resolveApiKeys site.auth env.vault.role) apiKey = role
  generalize hcooldowns : task.record (server.saveEntry (e.claim apiKey role) env.saves).cooldowns
    env.clock.record env.clock.prune = cooldowns
  rcases withAudit_server site env
    (({ server.saveEntry (e.claim apiKey role) env.saves with cooldowns }).saveEntry
      ((e.claim apiKey role).finish result) env.savesResult)
    (((e.claim apiKey role).finish result).approvedEntry task apiKey role result)
    (.ok (.ok (approvedBody result)))
    [.notified (task.notify (e.claim apiKey role).requestedBy result)] with ⟨log, hlog⟩
  exact ⟨role, cooldowns, log, hlog⟩

omit [PyDates F] [PydanticTypes F] in
/-- The entry is in the file with its result if the result is read back as it is. -/
theorem hasResult_reread_iff {queue : List (Approval F)} {f : Approval F}
    (hids : (queue.map Approval.id).Nodup) (hmem : f ∈ queue) (hstatus : f.status = .approved)
    (hresult : f.result = some result.asDict) :
    HasResult (queue.map Approval.reread) f.id.val result ↔ result.Unpaired := by
  rw [← readDict_asDict_eq_iff (F := F)]
  constructor
  · rintro ⟨g', hg', hid, -, hg⟩
    rcases List.mem_map.mp hg' with ⟨g, hmem', rfl⟩
    have hsame : g = f := List.inj_on_of_nodup_map hids hmem' hmem (Subtype.ext hid)
    rw [hsame] at hg
    unfold Approval.reread at hg
    simpa [hresult] using hg
  · intro h
    refine ⟨f.reread, List.mem_map_of_mem hmem, rfl, hstatus, ?_⟩
    show f.result.map readDict = _
    rw [hresult, Option.map_some, h]

omit [PyDates F] [PydanticTypes F] in
/-- A file that was written before the result was there does not have it. -/
theorem not_hasResult_reread {queue : List (Approval F)} {f : Approval F}
    (hids : (queue.map Approval.id).Nodup) (hmem : f ∈ queue) (hnone : f.result = none) :
    ¬ HasResult (queue.map Approval.reread) f.id.val result := by
  rintro ⟨g', hg', hid, -, hg⟩
  rcases List.mem_map.mp hg' with ⟨g, hmem', rfl⟩
  have hsame : g = f := List.inj_on_of_nodup_map hids hmem' hmem (Subtype.ext hid)
  rw [hsame] at hg
  unfold Approval.reread at hg
  simp [hnone] at hg

omit [PyDates F] [PydanticTypes F] in
/-- The two saves leave the entry with its result in the queue and in the file exactly
when fewer than 500 processed entries stand behind it, the second save can write the file,
and the result is read back as it is. -/
theorem kept_saveEntry_iff {claimed : Approval F} {cooldowns : Cooldowns} {log : Audit.Dir}
    {writes writes' : Bool} (hsound : server.Sound) (hqueue : server.queue = pre ++ e :: post)
    (hpending : e.status = .pending) (hclaimed : claimed.id = e.id)
    (hstatus : claimed.status = .approved) (hnone : claimed.result = e.result) :
    Kept { ({ server.saveEntry claimed writes with cooldowns }).saveEntry (claimed.finish result)
        writes' with log } e.id.val result ↔
      post.countP Approval.isProcessed < maxProcessedApprovals ∧ writes' = true ∧
        result.Unpaired := by
  have hids : ((pre ++ e :: post).map Approval.id).Nodup := hqueue ▸ hsound.ids
  have hmem : e ∈ server.queue := by
    rw [hqueue]
    exact List.mem_append_right _ List.mem_cons_self
  have hprocessed : claimed.isProcessed = true := by
    rw [Approval.isProcessed, hstatus]
    rfl
  generalize hfinished : claimed.finish result = finished
  have hid : finished.id = e.id := by
    rw [← hfinished]
    exact hclaimed
  have happroved : finished.status = .approved := by
    rw [← hfinished]
    exact hstatus
  have hresult : finished.result = some result.asDict := by
    rw [← hfinished]
    rfl
  have hprocessed' : finished.isProcessed = true := by
    rw [Approval.isProcessed, happroved]
    rfl
  unfold Kept
  by_cases hpost : post.countP Approval.isProcessed < maxProcessedApprovals
  · rcases saveEntry_twice_of_lt hids hqueue hclaimed hid hprocessed hprocessed' hpost cooldowns writes
      writes' with ⟨n, hn, hn'⟩
    have hnodup : ∀ c : Approval F, c.id = e.id →
        ((dropFirst Approval.isProcessed n pre ++ c :: post).map Approval.id).Nodup := by
      intro c hc
      have hsub := ((dropFirst_sublist (p := Approval.isProcessed) n pre).append_right
        (e :: post)).map Approval.id
      have hids' := hsub.nodup hids
      rw [List.map_append, List.map_cons] at hids' ⊢
      rwa [hc]
    have hqueue' : HasResult (({ server.saveEntry claimed writes with cooldowns }).saveEntry finished
        writes').queue e.id.val result := by
      rw [hn']
      exact ⟨finished, List.mem_append_right _ List.mem_cons_self, by rw [hid], happroved, hresult⟩
    rw [and_iff_right hpost, and_iff_right hqueue']
    cases writes' with
    | true =>
      show HasResult (loadApprovalQueue (some (queueText (ServerState.saveEntry _ finished true).queue)))
        _ _ ↔ _
      rw [loadApprovalQueue_queueText, hn', ← hid, and_iff_right rfl]
      exact hasResult_reread_iff (hnodup finished hid)
        (List.mem_append_right _ List.mem_cons_self) happroved hresult
    | false =>
      refine iff_of_false ?_ (by simp)
      -- the file is that of the first save, or older
      show ¬ HasResult (loadApprovalQueue (server.saveEntry claimed writes).stateFile) _ _
      cases writes with
      | true =>
        show ¬ HasResult (loadApprovalQueue (some (queueText (server.saveEntry claimed true).queue)))
          _ _
        rw [loadApprovalQueue_queueText, hn, ← hclaimed]
        exact not_hasResult_reread (hnodup claimed hclaimed)
          (List.mem_append_right _ List.mem_cons_self)
          (hnone.trans (hsound.unresolved e hmem hpending))
      | false =>
        rintro ⟨f, hf, hfid, hfstatus, -⟩
        rw [hsound.behind e hmem hpending f hf (Subtype.ext hfid)] at hfstatus
        cases hfstatus
  · refine iff_of_false (fun h => ?_) fun h => hpost h.1
    rcases saveEntry_of_ge hids hqueue hclaimed hprocessed (not_lt.mp hpost) writes with ⟨m, n, hn⟩
    have hnotMem : e.id ∉ (server.saveEntry claimed writes).queue.map Approval.id := by
      have hsub := (((dropFirst_sublist (p := Approval.isProcessed) m pre).append
        (dropFirst_sublist (p := Approval.isProcessed) n post)).map Approval.id).subset
      rw [List.map_append, List.map_cons, List.nodup_middle, List.nodup_cons,
        ← List.map_append] at hids
      rw [hn]
      exact fun h => hids.1 (hsub h)
    have hsame : (({ server.saveEntry claimed writes with cooldowns }).saveEntry finished
        writes').queue = pruneQueue (server.saveEntry claimed writes).queue := by
      show pruneQueue (updateEntry (server.saveEntry claimed writes).queue finished.id
        fun _ => finished) = _
      rw [hid, updateEntry_of_notMem hnotMem]
    rcases h.1 with ⟨f, hf, hfid, -⟩
    rw [hsame, pruneQueue_eq] at hf
    refine hnotMem ?_
    rw [← Subtype.ext hfid]
    exact List.mem_map_of_mem ((keepLast_sublist _ _).subset hf)

theorem kept_approve_iff (hsound : server.Sound) (hquiet : ∀ server, env.meanwhile server = server)
    (hqueue : server.queue = pre ++ e :: post)
    (happrovable : Approvable site env server apiKey approvalId e)
    (hclaims : Claims site env.vault server.cooldowns env.clock.check e task)
    (hresult : task.execute env.executor = .ok (some result)) :
    Kept (approve site env server apiKey approvalId).1.server approvalId result ↔
      post.countP Approval.isProcessed < maxProcessedApprovals ∧ env.savesResult = true ∧
        result.Unpaired := by
  rcases approve_server happrovable hclaims hresult hquiet with ⟨role, cooldowns, log, hserver⟩
  rw [hserver, ← (findEntry_eq_some happrovable.found).1]
  exact kept_saveEntry_iff hsound hqueue happrovable.pending rfl rfl rfl

/-- An approval that answers `approved` while no other call is in progress leaves the entry
with the result in the queue and in the state file exactly when fewer than 500 processed
entries stand behind the entry, the file can be written when the result is saved, and no
text of the result has the two halves of a surrogate pair. -/
theorem approve_keeps_iff (hsound : server.Sound) (hquiet : ∀ server, env.meanwhile server = server)
    (hqueue : server.queue = pre ++ e :: post) (hid : e.id.val = approvalId)
    (hanswer : (approve site env server apiKey approvalId).1.answer = .ok (.ok (approvedBody result))) :
    Kept (approve site env server apiKey approvalId).1.server approvalId result ↔
      post.countP Approval.isProcessed < maxProcessedApprovals ∧ env.savesResult = true ∧
        result.Unpaired := by
  rcases exists_of_approve_answer hanswer with
    ⟨e', task, result', happrovable, hclaims, hresult, hbody⟩
  have hsame : result = result' := by
    refine asDict_injective (F := F) ?_
    unfold approvedBody at hbody
    simpa using hbody
  subst hsame
  have hentry : e' = e := by
    rcases findEntry_eq_some happrovable.found with ⟨hid', hmem'⟩
    refine List.inj_on_of_nodup_map hsound.ids hmem' ?_ (Subtype.ext (hid'.trans hid.symm))
    rw [hqueue]
    exact List.mem_append_right _ List.mem_cons_self
  subst hentry
  exact kept_approve_iff hsound hquiet hqueue happrovable hclaims hresult

/-- An approval whose execution can be logged answers with its result. -/
theorem approve_answer (happrovable : Approvable site env server apiKey approvalId e)
    (hclaims : Claims site env.vault server.cooldowns env.clock.check e task)
    (hresult : task.execute env.executor = .ok (some result)) (hloggable : task.Loggable)
    (hreadable : LogReadable site env (logAtApproval site env server apiKey e)) :
    (approve site env server apiKey approvalId).1.answer = .ok (.ok (approvedBody result)) := by
  rw [approve_of_claims happrovable hclaims rfl, approveExecute, hresult]
  simp only [Outcome.after]
  generalize hentry : ((e.claim apiKey _).finish result).approvedEntry task apiKey _ result = entry
  have hserialisable : ∀ timestamp, Serialisable (auditLogEntry entry timestamp) := by
    intro timestamp
    rw [← hentry]
    exact serialisable_approvedEntry_iff.mpr hloggable
  have hno : ∀ timestamp, NoChainFields (auditLogEntry entry timestamp) := by
    intro timestamp
    rw [← hentry]
    exact ⟨rfl, rfl, rfl⟩
  rcases withAudit_cases site env _ _ (fun timestamp => (hserialisable timestamp).keys) hno with
    ⟨-, -, log, -, h⟩ | ⟨hnot, -⟩
  · rw [h]
    rfl
  · exact absurd ⟨hserialisable _, hreadable⟩ hnot

end Keeping

/-! ## Examples -/

/-- The example server with a queue, and with the file of that queue. -/
def savedServer (queue : List (Approval NanFloat)) : ServerState NanFloat :=
  { exampleServer queue with stateFile := some (queueText queue) }

/-- An entry that was rejected. -/
def rejectedExample (n : Nat) : Approval NanFloat where
  id := ⟨py "00000000-0000-4000-8000-" ++ natText (100000000000 + n),
    printable_append.mpr ⟨by decide, printable_natText _⟩⟩
  payload := examplePayload true
  status := .rejected
  result := some (errorResult (py "Rejected by approver"))
  requestedBy := py "operator-key"
  role := some (py "operator")
  controller := py "local"
  processed := some (py "admin-key", some (py "admin"))

/-- A pending entry, and rejected ones after it. -/
def exampleQueue (rejected : Nat) : List (Approval NanFloat) :=
  exampleEntry :: (List.range rejected).map rejectedExample

theorem countP_exampleQueue (rejected : Nat) :
    ((List.range rejected).map rejectedExample).countP Approval.isProcessed = rejected := by
  rw [List.countP_map, List.countP_eq_length.mpr, List.length_range]
  intro n _
  rfl

theorem sound_exampleQueue (rejected : Nat) : (savedServer (exampleQueue rejected)).Sound := by
  have hids : ((exampleQueue rejected).map Approval.id).Nodup := by
    unfold exampleQueue
    rw [List.map_cons, List.map_map, List.nodup_cons]
    constructor
    · intro h
      rcases List.mem_map.mp h with ⟨n, -, hn⟩
      have hsecond : some (cp '0') = some (cp 'e') := congrArg (fun id : Uuid => id.val[1]?) hn
      exact absurd hsecond (by decide)
    · refine List.Nodup.map (fun m n h => ?_) List.nodup_range
      have htext := List.append_cancel_left (congrArg Subtype.val h)
      have hsum := natText_injective htext
      omega
  have hpending : ∀ e ∈ exampleQueue rejected, e.status = .pending → e = exampleEntry := by
    intro e he hstatus
    rcases List.mem_cons.mp he with rfl | he
    · rfl
    · rcases List.mem_map.mp he with ⟨n, -, rfl⟩
      cases hstatus
  refine ⟨hids, fun e he hstatus => by rw [hpending e he hstatus]; rfl, fun e he hstatus f hf hid => ?_⟩
  rw [show (savedServer (exampleQueue rejected)).stateFile =
    some (queueText (exampleQueue rejected)) from rfl, loadApprovalQueue_queueText] at hf
  rcases List.mem_map.mp hf with ⟨g, hg, rfl⟩
  rw [List.inj_on_of_nodup_map hids hg he hid]
  exact hstatus

theorem approvable_exampleQueue (rejected : Nat) :
    Approvable (exampleSite (.literal exampleKeys) exampleAction [(py "local", exampleController)])
      (exampleRequestEnv (.steady [])) (savedServer (exampleQueue rejected)) (py "admin-key")
      exampleEntry.id.val exampleEntry :=
  ⟨rfl, rfl, rfl, by decide⟩

/-- The example entry is executed and answered, whatever comes after it in the queue. -/
theorem answer_exampleQueue (rejected : Nat) :
    (approve (exampleSite (.literal exampleKeys) exampleAction [(py "local", exampleController)])
      (exampleRequestEnv (.steady [])) (savedServer (exampleQueue rejected)) (py "admin-key")
      exampleEntry.id.val).1.answer = .ok (.ok (approvedBody ⟨true, [], [], 0, none⟩)) :=
  approve_answer (approvable_exampleQueue rejected) (claims_example _) rfl
    ⟨⟨rfl, rfl, rfl⟩, ⟨rfl, rfl, rfl⟩⟩ (logReadable_exampleDir _ _ _ _)

/-- An entry with 499 rejected ones behind it is kept. -/
theorem approve_keeps_example :
    Kept (approve
      (exampleSite (.literal exampleKeys) exampleAction [(py "local", exampleController)])
      (exampleRequestEnv (.steady [])) (savedServer (exampleQueue 499)) (py "admin-key")
      exampleEntry.id.val).1.server exampleEntry.id.val ⟨true, [], [], 0, none⟩ := by
  have hqueue : (savedServer (exampleQueue 499)).queue =
      [] ++ exampleEntry :: (List.range 499).map rejectedExample := rfl
  refine (approve_keeps_iff (sound_exampleQueue 499) (fun _ => rfl) hqueue rfl
    (answer_exampleQueue 499)).mpr ⟨?_, rfl, ?_⟩
  · rw [countP_exampleQueue]
    decide
  · exact ⟨by simp [Unpaired], by simp [Unpaired], by simp⟩

/-- An entry with 500 rejected ones behind it is executed and is gone. -/
theorem approve_drops_entry :
    let o := (approve
      (exampleSite (.literal exampleKeys) exampleAction [(py "local", exampleController)])
      (exampleRequestEnv (.steady [])) (savedServer (exampleQueue 500)) (py "admin-key")
      exampleEntry.id.val).1
    o.answer = .ok (.ok (approvedBody ⟨true, [], [], 0, none⟩)) ∧
      ¬ Kept o.server exampleEntry.id.val ⟨true, [], [], 0, none⟩ := by
  refine ⟨answer_exampleQueue 500, fun h => ?_⟩
  have hqueue : (savedServer (exampleQueue 500)).queue =
      [] ++ exampleEntry :: (List.range 500).map rejectedExample := rfl
  have hpost := ((kept_approve_iff (sound_exampleQueue 500) (fun _ => rfl) hqueue
    (approvable_exampleQueue 500) (claims_example _) rfl).mp h).1
  rw [countP_exampleQueue] at hpost
  exact absurd hpost (by decide)

end AutoHeal.Server
