import AutoHeal.Server.Approve
import AutoHeal.Audit.Robust

/-!
# The trail of an execution

When an execution leaves its entry in the audit log (`execution_logged_iff`), and when an
approval leaves the entry of the queue in a state that says what happened
(`approve_settles_iff`).
-/

namespace AutoHeal.Server

open Audit

variable {F : Type}

/-! ## Values the log can hold -/

/-- `json.dumps` can write the value, with sorted keys and without `default=str`. -/
structure Loggable (v : PyVal F) : Prop where
  allowed : keysAllowed v = true
  sortable : keysSortable v = true
  plain : AutoHeal.plain v = true

theorem serialisable_iff {d : Dict F} (hkeys : StrKeys d) :
    Serialisable d ↔ ∀ kv ∈ d, Loggable kv.2 := by
  have hparts : ∀ p : PyVal F → Bool, everyPart p (.dict d) = true ↔
      p (.dict d) = true ∧ ∀ kv ∈ d, everyPart p kv.2 = true := by
    intro p
    rw [everyPart, Bool.and_eq_true, everyPartItems_eq, List.all_eq_true]
  constructor
  · intro h kv hkv
    exact ⟨((hparts _).mp h.allowed).2 kv hkv, ((hparts _).mp h.sortable).2 kv hkv,
      ((hparts _).mp h.plain).2 kv hkv⟩
  · intro h
    refine ⟨hkeys, (hparts _).mpr ⟨?_, fun kv hkv => (h kv hkv).allowed⟩,
      (hparts _).mpr ⟨comparableKeys_of_strKeys hkeys, fun kv hkv => (h kv hkv).sortable⟩,
      (hparts _).mpr ⟨rfl, fun kv hkv => (h kv hkv).plain⟩⟩
    -- the keys of the dict itself
    refine List.all_eq_true.mpr fun kv hkv => ?_
    rcases hkeys kv hkv with ⟨s, hs⟩
    rw [hs]
    rfl

theorem loggable_str (s : Str) : Loggable (.str s : PyVal F) := ⟨rfl, rfl, rfl⟩

theorem loggable_bool (b : Bool) : Loggable (.bool b : PyVal F) := ⟨rfl, rfl, rfl⟩

theorem loggable_optStr (s : Option Str) : Loggable (optStr s : PyVal F) := by
  cases s <;> exact ⟨rfl, rfl, rfl⟩

theorem loggable_optBool (b : Option Bool) : Loggable (optBool b : PyVal F) := by
  cases b <;> exact ⟨rfl, rfl, rfl⟩

theorem loggable_asDict (result : ExecResult) : Loggable (.dict result.asDict : PyVal F) := by
  have hkeys : StrKeys (result.asDict : Dict F) := by simp [StrKeys, ExecResult.asDict]
  have h : Serialisable (result.asDict : Dict F) := by
    rw [serialisable_iff hkeys]
    simp only [ExecResult.asDict, List.forall_mem_cons]
    exact ⟨loggable_bool _, loggable_str _, loggable_str _, ⟨rfl, rfl, rfl⟩, loggable_optStr _,
      by rintro kv ⟨⟩⟩
  exact ⟨h.allowed, h.sortable, h.plain⟩

/-! ## The entry of an execution -/

/-- What `write_audit_log` adds to the entry of an execution. -/
def stamp (timestamp : Str) (result : ExecResult) : Dict F :=
  [(.str (py "timestamp"), .str timestamp), (.str (py "status"), .bool result.success),
    (.str (py "error"), optStr result.error)]

section Entries

variable (t : Task F) (user : Str) (role : Option Str) (result : ExecResult) (clientIp : Option Str)
  (timestamp : Str)

theorem auditLogEntry_auditEntry : auditLogEntry (t.auditEntry user role result clientIp) timestamp =
    t.auditEntry user role result clientIp ++ stamp timestamp result := rfl

theorem auditLogEntry_approvedEntry (e : Approval F) (apiKey : Str) :
    auditLogEntry (e.approvedEntry t apiKey role result) timestamp =
      e.approvedEntry t apiKey role result ++ stamp timestamp result := rfl

end Entries

/-- The parameters and the type of the controller can be written to the log. -/
def Task.Loggable (t : Task F) : Prop :=
  Server.Loggable (.dict t.params) ∧ Server.Loggable t.controllerType

section Serialisable

variable {t : Task F} {user : Str} {role : Option Str} {result : ExecResult} {clientIp : Option Str}
  {timestamp : Str}

theorem strKeys_auditEntry : StrKeys (t.auditEntry user role result clientIp ++
    stamp timestamp result) := by
  simp [StrKeys, Task.auditEntry, auditFields, stamp]

theorem strKeys_approvedEntry {e : Approval F} {apiKey : Str} :
    StrKeys (e.approvedEntry t apiKey role result ++ stamp timestamp result) := by
  simp [StrKeys, Approval.approvedEntry, Task.auditEntry, auditFields, stamp]

theorem loggable_auditEntry : (∀ kv ∈ t.auditEntry user role result clientIp, Loggable kv.2) ↔
    t.Loggable := by
  unfold Task.auditEntry auditFields Task.Loggable
  simp only [List.forall_mem_cons]
  constructor
  · rintro ⟨-, -, -, -, htype, hparams, -⟩
    exact ⟨hparams, htype⟩
  · rintro ⟨hparams, htype⟩
    exact ⟨loggable_str _, loggable_optStr _, loggable_str _, loggable_optStr _, htype, hparams,
      loggable_asDict _, loggable_optStr _, loggable_optBool _, by rintro kv ⟨⟩⟩

theorem loggable_stamp : ∀ kv ∈ (stamp timestamp result : Dict F), Loggable kv.2 := by
  unfold stamp
  simp only [List.forall_mem_cons]
  exact ⟨loggable_str _, loggable_bool _, loggable_optStr _, by rintro kv ⟨⟩⟩

theorem serialisable_auditEntry_iff :
    Serialisable (auditLogEntry (t.auditEntry user role result clientIp) timestamp) ↔ t.Loggable := by
  rw [auditLogEntry_auditEntry, serialisable_iff strKeys_auditEntry, List.forall_mem_append,
    loggable_auditEntry]
  exact and_iff_left loggable_stamp

theorem serialisable_approvedEntry_iff {e : Approval F} {apiKey : Str} :
    Serialisable (auditLogEntry (e.approvedEntry t apiKey role result) timestamp) ↔ t.Loggable := by
  rw [auditLogEntry_approvedEntry, serialisable_iff strKeys_approvedEntry, List.forall_mem_append,
    Approval.approvedEntry, List.forall_mem_append, loggable_auditEntry, and_assoc]
  refine and_iff_left ⟨?_, loggable_stamp⟩
  simp only [List.forall_mem_cons]
  exact ⟨loggable_str _, loggable_str _, loggable_str _, loggable_optStr _, by rintro kv ⟨⟩⟩

end Serialisable

/-! ## Writing the entry -/

variable [PyRuntime F] [PyDates F] {site : Site F} {env : RequestEnv F} {server : ServerState F}

/-- The log, where there is one, can be read by an append. -/
def LogReadable (site : Site F) (env : RequestEnv F) (log : Audit.Dir) : Prop :=
  ∀ file, log.lookup site.chain.base = some file → Readable site.chain env.audit log file

/-- The log ends in the line of an entry. -/
def EndsIn (site : Site F) (log : Audit.Dir) (entry : Dict F) : Prop :=
  ∃ old timestamp s, log.lookup site.chain.base =
    some (old ++ lineBytes (finalized (auditLogEntry entry timestamp) s))

/-- An entry that can be written is written exactly when the log is readable, and where it
is not written `next` is not reached. -/
theorem withAudit_cases (site : Site F) (env : RequestEnv F) (server : ServerState F) {entry : Dict F}
    (next : ServerState F → Outcome F)
    (hkeys : ∀ timestamp, StrKeys (auditLogEntry entry timestamp))
    (hno : ∀ timestamp, NoChainFields (auditLogEntry entry timestamp)) :
    (Serialisable (auditLogEntry entry env.clock.audit.isoformatZ) ∧
        LogReadable site env server.log ∧ ∃ log, EndsIn site log entry ∧
        withAudit site env server entry next = (next { server with log }).after [.audited entry]) ∨
      ¬ (Serialisable (auditLogEntry entry env.clock.audit.isoformatZ) ∧
          LogReadable site env server.log) ∧ ∃ log error,
        withAudit site env server entry next = ⟨{ server with log }, .error error, []⟩ := by
  have hok := @append_ok_iff F _ _ site.chain env.audit server.log
    (auditLogEntry entry env.clock.audit.isoformatZ) (hkeys _) (hno _)
  unfold withAudit writeAuditLog
  cases happend : append site.chain env.audit server.log
      (auditLogEntry entry env.clock.audit.isoformatZ) with
  | mk log r =>
    cases r with
    | error e =>
      refine Or.inr ⟨fun h => ?_, log, e, rfl⟩
      rcases hok.mpr h with ⟨dir', r, hr⟩
      rw [happend] at hr
      cases hr
    | ok r =>
      have h := hok.mp ⟨log, r, happend⟩
      rcases writeLocked_of_append happend with ⟨dir₁, hwrite⟩
      rcases exists_of_writeLocked hwrite with ⟨s, -, -, -, -, hfinal, hdir⟩
      refine Or.inl ⟨h.1, h.2, log, ?_, rfl⟩
      unfold EndsIn
      rw [hdir, hfinal]
      exact ⟨_, _, s, lookup_insert_base _ _ _⟩

/-- The request has written one entry to the log, with the result in it, and the log ends
in that entry. -/
def LogsOnce (site : Site F) (o : Outcome F) (result : ExecResult) : Prop :=
  ∃ entry, o.effects.filter Effect.isAudited = [.audited entry] ∧
    Dict.get? (py "execution") entry = some (.dict result.asDict) ∧ EndsIn site o.server.log entry

/-- The last steps of an execution: its entry is written, then a notification is sent. -/
theorem logsOnce_withAudit_iff {t : Task F} {result : ExecResult} {entry : Dict F}
    {answer : Py (Response F)} {call : NotifyCall F}
    (hkeys : ∀ timestamp, StrKeys (auditLogEntry entry timestamp))
    (hno : ∀ timestamp, NoChainFields (auditLogEntry entry timestamp))
    (hloggable : Serialisable (auditLogEntry entry env.clock.audit.isoformatZ) ↔ t.Loggable)
    (hexecution : Dict.get? (py "execution") entry = some (.dict result.asDict)) :
    LogsOnce site ((withAudit site env server entry fun server =>
        ⟨server, answer, [.notified call]⟩).after (t.executed :: t.recorded)) result ↔
      t.Loggable ∧ LogReadable site env server.log := by
  have hbefore : (t.executed :: t.recorded).filter Effect.isAudited = [] := by
    unfold Task.recorded
    split <;> rfl
  unfold LogsOnce
  rw [← hloggable]
  simp only [Outcome.after, List.filter_append, hbefore, List.nil_append]
  rcases withAudit_cases site env server (fun server => ⟨server, answer, [.notified call]⟩) hkeys hno with
    ⟨hserialisable, hreadable, log, hends, h⟩ | ⟨hnot, log, error, h⟩
  · rw [h]
    exact iff_of_true ⟨entry, rfl, hexecution, hends⟩ ⟨hserialisable, hreadable⟩
  · rw [h]
    exact iff_of_false (by rintro ⟨entry, ⟨⟩, -⟩) hnot

variable [PydanticTypes F]

theorem webhook_logged_iff {request : WebhookRequest} {a : Admitted F} {result : ExecResult}
    (hpasses : Passes site env.vault env.clock server.hits request a)
    (hruns : a.Runs server.cooldowns env.clock.check)
    (hresult : a.task.execute env.executor = .ok (some result)) :
    LogsOnce site (webhook site env server request) result ↔
      a.task.Loggable ∧ LogReadable site env (env.meanwhile (counted site env server request)).log := by
  have hremaining : a.task.remaining (counted site env server request).cooldowns
      env.clock.check = none := hruns.2
  rw [webhook_of_passes hpasses, webhookAdmitted, hruns.1]
  simp only [Bool.false_eq_true, if_false]
  rw [hremaining, webhookExecute, hresult]
  exact logsOnce_withAudit_iff (fun _ => strKeys_auditEntry) (fun _ => ⟨rfl, rfl, rfl⟩)
    serialisable_auditEntry_iff rfl

/-- The log when an approval writes to it. -/
def logAtApproval (site : Site F) (env : RequestEnv F) (server : ServerState F) (apiKey : Str)
    (e : Approval F) : Audit.Dir :=
  (env.meanwhile (server.saveEntry (e.claim apiKey
    (getRoleFromApiKey (resolveApiKeys site.auth env.vault.role) apiKey)) env.saves)).log

theorem approve_logged_iff {apiKey approvalId : Str} {e : Approval F} {task : Task F}
    {result : ExecResult} (happrovable : Approvable site env server apiKey approvalId e)
    (hclaims : Claims site env.vault server.cooldowns env.clock.check e task)
    (hresult : task.execute env.executor = .ok (some result)) :
    LogsOnce site (approve site env server apiKey approvalId).1 result ↔
      task.Loggable ∧ LogReadable site env (logAtApproval site env server apiKey e) := by
  rw [approve_of_claims happrovable hclaims rfl, approveExecute, hresult]
  exact logsOnce_withAudit_iff (fun _ => strKeys_approvedEntry) (fun _ => ⟨rfl, rfl, rfl⟩)
    serialisable_approvedEntry_iff rfl

/-- An execution that gives a result is logged exactly when its parameters and the type of
its controller are values `json.dumps` writes, and the log is readable by then: through
`/webhook`, and through an approval. -/
theorem execution_logged_iff (site : Site F) (env : RequestEnv F) (server : ServerState F)
    (result : ExecResult) :
    (∀ request a, Passes site env.vault env.clock server.hits request a →
      a.Runs server.cooldowns env.clock.check → a.task.execute env.executor = .ok (some result) →
      (LogsOnce site (webhook site env server request) result ↔
        a.task.Loggable ∧
          LogReadable site env (env.meanwhile (counted site env server request)).log)) ∧
    (∀ apiKey approvalId e task, Approvable site env server apiKey approvalId e →
      Claims site env.vault server.cooldowns env.clock.check e task →
      task.execute env.executor = .ok (some result) →
      (LogsOnce site (approve site env server apiKey approvalId).1 result ↔
        task.Loggable ∧ LogReadable site env (logAtApproval site env server apiKey e))) :=
  ⟨fun _ _ hpasses hruns hresult => webhook_logged_iff hpasses hruns hresult,
    fun _ _ _ _ happrovable hclaims hresult => approve_logged_iff happrovable hclaims hresult⟩

/-! ## What becomes of an approved entry -/

section Settling

variable {apiKey approvalId : Str} {e : Approval F}

/-- What an approval has made of the entry `e` says what happened: it is pending and was not
executed, it is rejected with a reason, or it is approved and has the result of its
execution, which is in the log. -/
def Settled (site : Site F) (env : RequestEnv F) (server : ServerState F) (e : Approval F)
    (o : Outcome F) (e' : Approval F) : Prop :=
  e'.status = .pending ∧ ¬ o.Executes ∨
    e'.status = .rejected ∧ (∃ reason, e'.result = some (errorResult reason)) ∨
    e'.status = .approved ∧ ∃ task result,
      Claims site env.vault server.cooldowns env.clock.check e task ∧
        task.execute env.executor = .ok (some result) ∧ e'.result = some result.asDict ∧
        LogsOnce site o result

/-- The execution of a task returns, and a result of it can be logged. -/
def Completes (site : Site F) (env : RequestEnv F) (log : Audit.Dir) (task : Task F) : Prop :=
  (∃ r, task.execute env.executor = .ok r) ∧
    ∀ result, task.execute env.executor = .ok (some result) →
      task.Loggable ∧ LogReadable site env log

theorem settled_of_approvable (h : Approvable site env server apiKey approvalId e) :
    (∃ e', (approve site env server apiKey approvalId).2 = some e' ∧
      Settled site env server e (approve site env server apiKey approvalId).1 e') ↔
    ∀ task, Claims site env.vault server.cooldowns env.clock.check e task →
      Completes site env (logAtApproval site env server apiKey e) task := by
  have hexecutes : (∀ task, ¬ Claims site env.vault server.cooldowns env.clock.check e task) →
      ¬ (approve site env server apiKey approvalId).1.Executes := by
    rintro hclaims ⟨_, _, _, _, hexecuted⟩
    rcases executed_mem_approve.mp hexecuted with ⟨e', task, he', ht, -⟩
    have hentry : e' = e := Option.some.inj (he'.found.symm.trans h.found)
    exact hclaims task (hentry ▸ ht)
  have hlogged := fun task result => @approve_logged_iff F _ _ site env server _ apiKey approvalId e
    task result h
  rw [approve_of_approvable h] at hexecutes hlogged ⊢
  simp only [Option.some.injEq, exists_eq_left'] at hexecutes hlogged ⊢
  cases hreview : review site env.vault server.cooldowns env.clock.check e with
  | raised error =>
    have hclaims := not_claims_of_review hreview (by simp)
    refine iff_of_true (Or.inl ⟨?_, hexecutes hclaims⟩) fun task ht => absurd ht (hclaims task)
    rw [approvePending, hreview]
    exact h.pending
  | lost =>
    refine iff_of_true (Or.inr (Or.inl ?_)) fun task ht =>
      absurd ht (not_claims_of_review hreview (by simp) task)
    rw [approvePending, hreview]
    exact ⟨rfl, _, rfl⟩
  | cooling task remaining =>
    have hclaims := not_claims_of_review hreview (by simp)
    refine iff_of_true (Or.inl ⟨?_, hexecutes hclaims⟩) fun task ht => absurd ht (hclaims task)
    rw [approvePending, hreview]
    exact h.pending
  | claimed task =>
    have hclaims := review_eq_claimed.mp hreview
    have hunique : ∀ task', Claims site env.vault server.cooldowns env.clock.check e task' →
        task' = task := fun task' ht =>
      Review.claimed.inj ((review_eq_claimed.mpr ht).symm.trans hreview)
    have hlogs := fun result => hlogged task result hclaims
    unfold approvePending at hlogs ⊢
    rw [hreview] at hlogs ⊢
    simp only at hlogs ⊢
    unfold Completes
    cases hresult : task.execute env.executor with
    | error error =>
      -- the claim stays, without a result
      rw [approveExecute, hresult]
      refine iff_of_false ?_ fun h' => ?_
      · rintro (⟨⟨⟩, -⟩ | ⟨⟨⟩, -⟩ | ⟨-, task', result, ht, hok, -⟩)
        rw [hunique task' ht, hresult] at hok
        cases hok
      · rcases (h' task hclaims).1 with ⟨r, hr⟩
        rw [hresult] at hr
        cases hr
    | ok r =>
      cases r with
      | none =>
        rw [approveExecute, hresult]
        refine iff_of_true (Or.inr (Or.inl ⟨rfl, _, rfl⟩)) fun task' ht => ?_
        rw [hunique task' ht, hresult]
        exact ⟨⟨none, rfl⟩, by rintro result ⟨⟩⟩
      | some result =>
        have hlog := hlogs result hresult
        constructor
        · rintro (⟨hpending, -⟩ | ⟨hrejected, -⟩ | ⟨-, task', result', ht, hok, -, hlogs'⟩)
          · rw [approveExecute, hresult] at hpending
            cases hpending
          · rw [approveExecute, hresult] at hrejected
            cases hrejected
          · intro task'' ht''
            rw [hunique task' ht, hresult] at hok
            cases hok
            rw [hunique task'' ht'', hresult]
            refine ⟨⟨_, rfl⟩, ?_⟩
            rintro _ ⟨⟩
            exact hlog.mp hlogs'
        · intro h'
          have hcompletes := (h' task hclaims).2 result hresult
          refine Or.inr (Or.inr ⟨?_, task, result, hclaims, hresult, ?_, hlog.mpr hcompletes⟩)
          · rw [approveExecute, hresult]
            rfl
          · rw [approveExecute, hresult]
            rfl

/-- An approval of a pending entry leaves the entry in a state that says what happened
exactly when every task it claims is executed without an exception and, with a result, can
be logged. -/
theorem approve_settles_iff (hfound : findEntry server.queue approvalId = some e)
    (hpending : e.status = .pending) :
    Settled site env server e (approve site env server apiKey approvalId).1
        ((approve site env server apiKey approvalId).2.getD e) ↔
      ∀ task, Approvable site env server apiKey approvalId e →
        Claims site env.vault server.cooldowns env.clock.check e task →
        Completes site env (logAtApproval site env server apiKey e) task := by
  by_cases happrovable : Approvable site env server apiKey approvalId e
  · have hsettled := settled_of_approvable happrovable
    constructor
    · intro h task _ hclaims
      refine hsettled.mp ?_ task hclaims
      rw [approve_of_approvable happrovable] at h ⊢
      exact ⟨_, rfl, h⟩
    · intro h
      rcases hsettled.mpr fun task hclaims => h task happrovable hclaims with ⟨e', he', hset⟩
      rw [he']
      exact hset
  · have hnone : ∀ e', ¬ Approvable site env server apiKey approvalId e' := by
      intro e' he'
      have hentry : e' = e := Option.some.inj (he'.found.symm.trans hfound)
      exact happrovable (hentry ▸ he')
    rcases approve_of_not_approvable hnone with ⟨status, detail, hrefused⟩
    refine iff_of_true ?_ fun task h => absurd h happrovable
    rw [hrefused]
    exact Or.inl ⟨hpending, by rintro ⟨_, _, _, _, ⟨⟩⟩⟩

end Settling

/-! ## Examples -/

/-- The example log is readable. -/
theorem logReadable_exampleDir (apiKeys : ApiKeys) (action : ActionConfig NanFloat)
    (controllers : List (Str × Dict NanFloat)) (vault : VaultReads) :
    LogReadable (exampleSite apiKeys action controllers) (exampleRequestEnv vault) (exampleDir []) := by
  intro file hfile
  have hempty : file = [] := Option.some.inj (hfile.symm.trans (lookup_exampleDir [] []))
  subst hempty
  have hstate : currentState NanFloat (some []) = .ok (0, genesisHash) := by
    unfold currentState
    rw [readLastLine_eq]
    rfl
  refine ⟨by rintro ⟨⟩, by rintro ⟨⟩, fun _ hraises => ?_⟩
  rcases (currentState_error_iff []).mpr hraises with ⟨e, he⟩
  rw [hstate] at he
  cases he

/-- What `/webhook` admits of the example payload. -/
def exampleAdmitted (action : ActionConfig NanFloat) (approvalRequired : Bool) : Admitted NanFloat :=
  ⟨examplePayload approvalRequired, ⟨py "check", none, some [], some false, some approvalRequired⟩,
    some (py "operator"), action, py "local", exampleController⟩

/-- A request of `operator-key`. -/
def exampleRequest (approvalRequired : Bool) : WebhookRequest :=
  ⟨py "operator-key", some (print .spaced (examplePayload approvalRequired).val), none⟩

theorem passes_example {action : ActionConfig NanFloat}
    (hcontroller : action.defaultController = some (py "local"))
    (hnonempty : action.isEmpty = false) (approvalRequired : Bool) :
    Passes (exampleSite (.literal exampleKeys) action [(py "local", exampleController)])
      (.steady []) (exampleRequestEnv (.steady [])).clock (exampleServer []).hits
      (exampleRequest approvalRequired) (exampleAdmitted action approvalRequired) :=
  ⟨requestJson_examplePayload _, rfl, rfl, rfl, rfl, hnonempty, rfl, rfl, rfl, by
    simp [exampleAdmitted, overrides], hcontroller, rfl, rfl, rfl⟩

theorem runs_example {action : ActionConfig NanFloat} (hcooldown : action.cooldownSeconds = none) :
    (exampleAdmitted action false).Runs (exampleServer []).cooldowns 0 := by
  refine ⟨rfl, Task.remaining_eq_none.mpr (Or.inr (Or.inl ?_))⟩
  show action.cooldownSeconds.getD 0 = 0
  rw [hcooldown]
  rfl

/-- An action with parameters. -/
def cleanupAction : ActionConfig NanFloat :=
  { exampleAction with
    parameters := some [(.str (py "path"), .str (py "/var/log")), (.str (py "days"), .int 7)] }

/-- Its execution is logged. -/
theorem execution_logged_example :
    (exampleAdmitted cleanupAction false).task.params =
        [(.str (py "path"), .str (py "/var/log")), (.str (py "days"), .int 7)] ∧
      LogsOnce (exampleSite (.literal exampleKeys) cleanupAction [(py "local", exampleController)])
        (webhook (exampleSite (.literal exampleKeys) cleanupAction [(py "local", exampleController)])
          (exampleRequestEnv (.steady [])) (exampleServer []) (exampleRequest false))
        ⟨true, [], [], 0, none⟩ := by
  refine ⟨rfl, ?_⟩
  exact ((execution_logged_iff _ _ _ _).1 _ _ (passes_example rfl rfl false) (runs_example rfl)
    rfl).mpr ⟨⟨⟨rfl, rfl, rfl⟩, ⟨rfl, rfl, rfl⟩⟩, logReadable_exampleDir _ _ _ _⟩

/-- An action with a date among its parameters. -/
def datedAction : ActionConfig NanFloat :=
  { exampleAction with parameters := some [(.str (py "since"), .obj (py "2024-01-01"))] }

/-- An action with a date among its parameters is executed, with a result, and nothing is
logged. -/
theorem webhook_loses_execution :
    Effect.executed datedAction (some exampleController)
        [(.str (py "since"), .obj (py "2024-01-01"))] (some false) ∈
      (webhook (exampleSite (.literal exampleKeys) datedAction [(py "local", exampleController)])
        (exampleRequestEnv (.steady [])) (exampleServer []) (exampleRequest false)).effects ∧
    (exampleAdmitted datedAction false).task.execute exampleExecutor =
      .ok (some ⟨true, [], [], 0, none⟩) ∧
    ¬ LogsOnce (exampleSite (.literal exampleKeys) datedAction [(py "local", exampleController)])
      (webhook (exampleSite (.literal exampleKeys) datedAction [(py "local", exampleController)])
        (exampleRequestEnv (.steady [])) (exampleServer []) (exampleRequest false))
      ⟨true, [], [], 0, none⟩ := by
  have hpasses := @passes_example datedAction rfl rfl false
  refine ⟨executed_mem_webhook.mpr ⟨_, hpasses, runs_example rfl, rfl⟩, rfl, fun h => ?_⟩
  have hparams := ((webhook_logged_iff hpasses (runs_example rfl) rfl).mp h).1.1.plain
  exact absurd hparams (by decide)

/-- What an approval of the example entry executes, with the controllers there are. -/
def exampleTask (controllers : List (Str × Dict NanFloat)) : Task NanFloat :=
  ⟨⟨py "check", none, some [], some false, some true⟩, exampleAction, some (py "local"),
    controllers.lookup (py "local")⟩

theorem claims_example (controllers : List (Str × Dict NanFloat)) :
    Claims (exampleSite (.literal exampleKeys) exampleAction controllers)
      (exampleRequestEnv (.steady [])).vault (exampleServer [exampleEntry]).cooldowns
      (exampleRequestEnv (.steady [])).clock.check exampleEntry (exampleTask controllers) :=
  ⟨rfl, rfl, rfl, rfl, rfl, Task.remaining_eq_none.mpr (Or.inr (Or.inl rfl))⟩

theorem approvable_example (controllers : List (Str × Dict NanFloat)) :
    Approvable (exampleSite (.literal exampleKeys) exampleAction controllers)
      (exampleRequestEnv (.steady [])) (exampleServer [exampleEntry]) (py "admin-key")
      exampleEntry.id.val exampleEntry :=
  ⟨rfl, rfl, rfl, by decide⟩

/-- The example entry is executed on its controller and gets its result. -/
theorem approve_settles_example :
    let site := exampleSite (.literal exampleKeys) exampleAction [(py "local", exampleController)]
    let o := approve site (exampleRequestEnv (.steady [])) (exampleServer [exampleEntry])
      (py "admin-key") exampleEntry.id.val
    Settled site (exampleRequestEnv (.steady [])) (exampleServer [exampleEntry]) exampleEntry o.1
      (o.2.getD exampleEntry) := by
  refine (approve_settles_iff rfl rfl).mpr fun task _ hclaims => ?_
  have htask : task = exampleTask [(py "local", exampleController)] := Review.claimed.inj
    ((review_eq_claimed.mpr hclaims).symm.trans (review_eq_claimed.mpr (claims_example _)))
  rw [htask]
  refine ⟨⟨_, rfl⟩, ?_⟩
  rintro result ⟨⟩
  exact ⟨⟨⟨rfl, rfl, rfl⟩, ⟨rfl, rfl, rfl⟩⟩, logReadable_exampleDir _ _ _ _⟩

/-- The controller of the entry was removed while the entry was pending: the call raises,
and the entry is left approved without a result. -/
theorem approve_leaves_claim :
    let site := exampleSite (.literal exampleKeys) exampleAction []
    let o := approve site (exampleRequestEnv (.steady [])) (exampleServer [exampleEntry])
      (py "admin-key") exampleEntry.id.val
    o.1.answer = .error .attributeError ∧ ∃ e, o.2 = some e ∧ o.1.server.queue = [e] ∧
      e.status = .approved ∧ e.result = none := by
  simp only
  rw [approve_of_claims (approvable_example []) (claims_example []) rfl]
  exact ⟨rfl, _, rfl, rfl, rfl, rfl⟩

end AutoHeal.Server
