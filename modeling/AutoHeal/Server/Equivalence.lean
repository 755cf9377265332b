import AutoHeal.Server.Deferred

/-!
# Direct and approved execution

The payload of a request that asks for no approval, with the flag that asks for one. When
the entry of the second is approved, what is executed, recorded, audited and notified of is
what it is for the first (`approval_equivalent`).
-/

namespace AutoHeal.Server

open Audit

variable {F : Type}

/-! ## The payload that asks for an approval -/

/-- The payload does not say whether it needs an approval. -/
def Unflagged (raw : JsonDoc F) : Prop :=
  ∀ d, raw.val = .dict d → Dict.get? (py "approval_required") d = none

/-- The payload with `approval_required` set. -/
def flagged : JsonDoc F → JsonDoc F
  | ⟨.dict d, h⟩ => ⟨.dict (Dict.set (py "approval_required") (.bool true) d), h.set _ (.bool true)⟩
  | raw => raw

/-- The flag is no text with surrogates. -/
theorem unsplit_flagged {raw : JsonDoc F} [JsonFloat F] (h : Unsplit raw.val) :
    Unsplit (flagged raw).val := by
  have hvalue := raw.property.jsonValue_iff.mpr h
  rcases raw with ⟨v, hv⟩
  cases v with
  | dict d =>
    exact (flagged ⟨.dict d, hv⟩).property.jsonValue_iff.mp (hvalue.set (by decide) (.bool true))
  | _ => exact h

def WebhookPayload.flagged (payload : WebhookPayload F) : WebhookPayload F :=
  { payload with approvalRequired := some true }

def Admitted.flagged (a : Admitted F) : Admitted F :=
  { a with raw := Server.flagged a.raw, payload := a.payload.flagged }

section Flagged

variable [PydanticTypes F]

omit [PydanticTypes F] in
theorem fieldOr_set_of_ne {α : Type} {d : Dict F} {name other : Str} (h : name ≠ other) (v : PyVal F)
    (check : PyVal F → Option α) (default : α) :
    fieldOr (Dict.set other v d) name check default = fieldOr d name check default := by
  unfold fieldOr
  rw [Dict.get?_set, if_neg h]

/-- What `approval_required` is when it is missing, and when it is set. -/
theorem fieldOr_approvalRequired {d : Dict F} (h : Dict.get? (py "approval_required") d = none) :
    fieldOr d (py "approval_required") (optional PydanticTypes.bool) (some false) =
        some (some false) ∧
      fieldOr (Dict.set (py "approval_required") (.bool true) d) (py "approval_required")
        (optional PydanticTypes.bool) (some false) = some (some true) := by
  unfold fieldOr
  rw [h, Dict.get?_set, if_pos rfl]
  refine ⟨rfl, ?_⟩
  show (PydanticTypes.bool (.bool true : PyVal F)).map some = _
  rw [PydanticTypes.bool_bool, Option.map_some]

/-- The other fields are validated as they were, and the missing one is false. -/
theorem webhookPayload_flagged {raw : JsonDoc F} (h : Unflagged raw) :
    webhookPayload (flagged raw).val = (webhookPayload raw.val).map WebhookPayload.flagged ∧
      ∀ payload, webhookPayload raw.val = some payload → payload.approvalRequired = some false := by
  rcases raw with ⟨v, hv⟩
  cases v with
  | dict d =>
    have hfields := fieldOr_approvalRequired (h d rfl)
    have hevent : Dict.get? (py "event_type") (Dict.set (py "approval_required") (.bool true) d) =
        Dict.get? (py "event_type") d := (Dict.get?_set _ _ _ _).trans (if_neg (by decide))
    show webhookPayload (.dict (Dict.set (py "approval_required") (.bool true) d)) =
        (webhookPayload (.dict d)).map WebhookPayload.flagged ∧
      ∀ payload, webhookPayload (.dict d) = some payload → _
    unfold webhookPayload
    simp only
    rw [hevent, fieldOr_set_of_ne (by decide), fieldOr_set_of_ne (by decide),
      fieldOr_set_of_ne (by decide), hfields.1, hfields.2]
    rcases (Dict.get? (py "event_type") d).bind PydanticTypes.str with _ | eventType
    · exact ⟨rfl, by rintro payload ⟨⟩⟩
    rcases fieldOr d (py "controller_override") (optional PydanticTypes.str) none with
      _ | controllerOverride
    · exact ⟨rfl, by rintro payload ⟨⟩⟩
    rcases fieldOr d (py "parameters") (optional PydanticTypes.dict) (some []) with _ | parameters
    · exact ⟨rfl, by rintro payload ⟨⟩⟩
    rcases fieldOr d (py "dry_run") (optional PydanticTypes.bool) (some false) with _ | dryRun
    · exact ⟨rfl, by rintro payload ⟨⟩⟩
    · exact ⟨rfl, by rintro payload ⟨⟩; rfl⟩
  | _ => exact ⟨rfl, by rintro payload ⟨⟩⟩

end Flagged

section Equivalence

variable [PyRuntime F] [PydanticTypes F] {site : Site F} {reads : VaultReads} {clock : Clock}
  {hits : Hits} {request request' : WebhookRequest} {raw : JsonDoc F} {a : Admitted F}

/-- The flag does not matter to the gates. -/
theorem passes_flagged (hraw : Unflagged raw) (hjson : requestJson request.body = some raw)
    (hjson' : requestJson request'.body = some (flagged raw))
    (hkey : request'.apiKey = request.apiKey) :
    (∀ a, Passes site reads clock hits request a → Passes site reads clock hits request' a.flagged) ∧
      ∀ b, Passes site reads clock hits request' b → ∃ a, Passes site reads clock hits request a := by
  constructor
  · intro a h
    have hsame : a.raw = raw := Option.some.inj (h.json.symm.trans hjson)
    have hvalid : webhookPayload (flagged a.raw).val = some a.payload.flagged := by
      rw [(webhookPayload_flagged (hsame ▸ hraw)).1, h.valid, Option.map_some]
    refine ⟨?_, hvalid, ?_, ?_, h.known, h.nonempty, h.limit, ?_⟩
    · show _ = some (Server.flagged a.raw)
      rw [hsame]
      exact hjson'
    · rw [hkey]
      exact h.role
    · rw [hkey]
      exact h.caller
    · rw [hkey]
      rcases h.authorized with ⟨hexecute, hscope, hoverride, hresolved, hknown, hnonempty, hcontroller⟩
      exact ⟨hexecute, hscope, hoverride, hresolved, hknown, hnonempty, hcontroller⟩
  -- back from the flagged request: its payload is that of the other one with the flag set
  · intro b h
    have hsame : b.raw = flagged raw := Option.some.inj (h.json.symm.trans hjson')
    have hvalid := h.valid
    rw [hsame, (webhookPayload_flagged hraw).1] at hvalid
    rcases Option.map_eq_some_iff.mp hvalid with ⟨payload, hpayload, hb⟩
    rcases b with ⟨raw', payload', role, action, name, controller⟩
    have hb' : payload.flagged = payload' := hb
    subst hb'
    rcases h with ⟨-, -, hrole, hcaller, hknown, hnonempty, hlimit, hauth⟩
    rw [hkey] at hrole hcaller hauth
    rcases hauth with ⟨hexecute, hscope, hoverride, hresolved, hconfigured, hempty, hcontroller⟩
    exact ⟨⟨raw, payload, role, action, name, controller⟩, hjson, hpayload, hrole, hcaller, hknown,
      hnonempty, hlimit, hexecute, hscope, hoverride, hresolved, hconfigured, hempty, hcontroller⟩

/-- The scopes of the keys are the same in two sequences of reads. -/
structure SameScopes (site : Site F) (reads reads' : VaultReads) : Prop where
  actions : resolveApiKeys site.auth reads'.actions = resolveApiKeys site.auth reads.actions
  controllers : resolveApiKeys site.auth reads'.controllers = resolveApiKeys site.auth reads.controllers

omit [PydanticTypes F] in
/-- The entry has the key and the role of the request. -/
theorem Admitted.Queued.requester {id : Uuid} {apiKey : Str} {e : Approval F} (h : a.Queued id apiKey e)
    (hkey : Unpaired apiKey) (hrole : ∀ role, a.role = some role → Unpaired role) :
    e.requestedBy = apiKey ∧ e.role = a.role := by
  have hjoined : a.role.map joinSurrogates = a.role := by
    cases hname : a.role with
    | none => rfl
    | some name => rw [Option.map_some, (joinSurrogates_eq_self_iff _).mpr (hrole name hname)]
  rcases h with rfl | rfl
  · exact ⟨rfl, rfl⟩
  · exact ⟨(joinSurrogates_eq_self_iff _).mpr hkey, hjoined⟩

/-- What the review of the entry comes to: what the request would have come to. -/
theorem review_of_queued (hpasses : Passes site reads clock hits request a) {id : Uuid} {e : Approval F}
    (hraw : Unflagged a.raw) (hqueued : a.flagged.Queued id request.apiKey e)
    (hsame : e.payload = a.flagged.raw) (hkey : Unpaired request.apiKey)
    (hrole : ∀ role, a.role = some role → Unpaired role) {reads' : VaultReads}
    (hscopes : SameScopes site reads reads') (cooldowns : Cooldowns) (now : ℚ) :
    review site reads' cooldowns now e =
      match a.task.remaining cooldowns now with
      | some remaining => .cooling a.flagged.task remaining
      | none => .claimed a.flagged.task := by
  have hrequester : e.requestedBy = request.apiKey := (hqueued.requester hkey hrole).1
  have hrole' : e.role = a.role := (hqueued.requester hkey hrole).2
  have hvalid : webhookPayload e.payload.val = some a.payload.flagged := by
    rw [hsame, show a.flagged.raw = Server.flagged a.raw from rfl,
      (webhookPayload_flagged hraw).1, hpasses.valid, Option.map_some]
  have hauth := hpasses.authorized
  have hpermitted : requesterPermitted site reads' e a.payload.eventType (some a.name) = true := by
    unfold requesterPermitted
    rw [hrequester, hrole', hscopes.actions, hscopes.controllers, hauth.execute, hauth.scope,
      hauth.controllerScope]
    rfl
  have hknown : getActionConfig site a.payload.flagged.eventType = some a.action := hpasses.known
  have hresolved : resolveController a.payload.flagged.controllerOverride a.action = some a.name :=
    hauth.resolved
  have hcontroller : getControllerConfig site (some a.name) = some a.controller := hauth.known
  -- every gate of the review has the values that the request had
  unfold review
  rw [hvalid]
  simp only
  rw [hknown]
  simp only
  rw [hresolved, hcontroller]
  show (if !requesterPermitted site reads' e a.payload.eventType (some a.name) then Review.lost
    else _) = _
  rw [hpermitted]
  rfl

end Equivalence

/-! ## What is executed, and what is refused -/

section Ways

variable [PyRuntime F] [PyDates F] {site : Site F} {env : RequestEnv F} {server : ServerState F}
  {t : Task F} {readable : Prop}

/-- The outcome of executing a task: with a result, the cooldown is recorded, the entry is
written if it can be, and a notification is sent if the entry was written. -/
structure Ran (o : Outcome F) (t : Task F) (executor : Executor F) (readable : Prop)
    (entry : ExecResult → Dict F) (call : ExecResult → NotifyCall F) : Prop where
  unblocked : ∀ detail seconds, o.answer ≠ .ok (.blocked 409 detail seconds)
  effects : (∀ result, t.execute executor ≠ .ok (some result)) → o.effects = [t.executed]
  reports : ∀ result, t.execute executor = .ok (some result) →
    t.Loggable ∧ readable ∧ o.effects =
        t.executed :: (t.recorded ++ [.audited (entry result), .notified (call result)]) ∨
      ¬ (t.Loggable ∧ readable) ∧ o.effects = t.executed :: t.recorded

/-- The outcome of a task in cooldown: it is refused, unless the entry about it cannot be
written. -/
structure Cooled (o : Outcome F) (t : Task F) (remaining : ℚ) (readable : Prop) : Prop where
  effects : ∀ effect ∈ o.effects, ∃ entry, effect = .audited entry
  answer : Loggable (.dict t.params : PyVal F) ∧ readable ∧ o.answer = .ok (t.blockResponse remaining) ∨
    ¬ (Loggable (.dict t.params : PyVal F) ∧ readable) ∧ ∃ error, o.answer = .error error

omit [PyRuntime F] [PyDates F] in
theorem auditLogEntry_blockEntry (t : Task F) (apiKey : Str) (role : Option Str) (timestamp : Str) :
    auditLogEntry (t.blockEntry apiKey role) timestamp = t.blockEntry apiKey role ++
      [(.str (py "timestamp"), .str timestamp), (.str (py "status"), .bool false),
        (.str (py "error"), .str (py "blocked-by-cooldown"))] := rfl

omit [PyRuntime F] [PyDates F] in
theorem strKeys_blockEntry {apiKey : Str} {role : Option Str} {timestamp : Str} :
    StrKeys (auditLogEntry (t.blockEntry apiKey role) timestamp) := by
  rw [auditLogEntry_blockEntry]
  simp [StrKeys, Task.blockEntry, cooldownBlockAuditEntry, auditFields]

omit [PyRuntime F] [PyDates F] in
theorem serialisable_blockEntry_iff {apiKey : Str} {role : Option Str} {timestamp : Str} :
    Serialisable (auditLogEntry (t.blockEntry apiKey role) timestamp) ↔
      Loggable (.dict t.params : PyVal F) := by
  rw [serialisable_iff strKeys_blockEntry, auditLogEntry_blockEntry]
  unfold Task.blockEntry cooldownBlockAuditEntry auditFields
  simp only [List.forall_mem_append, List.forall_mem_cons]
  constructor
  · rintro ⟨⟨⟨-, -, -, -, -, hparams, -⟩, -⟩, -⟩
    exact hparams
  · intro hparams
    refine ⟨⟨⟨loggable_str _, loggable_optStr _, loggable_str _, loggable_optStr _, ⟨rfl, rfl, rfl⟩,
      hparams, ⟨rfl, rfl, rfl⟩, ⟨rfl, rfl, rfl⟩, loggable_optBool _, by rintro kv ⟨⟩⟩,
      loggable_str _, by rintro kv ⟨⟩⟩, loggable_str _, loggable_bool _, loggable_str _,
      by rintro kv ⟨⟩⟩

/-- The answer to a task in cooldown. -/
theorem cooled_withAudit (site : Site F) (env : RequestEnv F) (server : ServerState F) (t : Task F)
    (remaining : ℚ) (apiKey : Str) (role : Option Str) :
    Cooled (withAudit site env server (t.blockEntry apiKey role) fun server =>
      ⟨server, .ok (t.blockResponse remaining), []⟩) t remaining
      (LogReadable site env server.log) := by
  have hcases := withAudit_cases site env server (fun server =>
    ⟨server, .ok (t.blockResponse remaining), []⟩)
    (fun _ => @strKeys_blockEntry F t apiKey role _) fun _ => ⟨rfl, rfl, rfl⟩
  rw [serialisable_blockEntry_iff] at hcases
  rcases hcases with ⟨hloggable, hreadable, log, -, h⟩ | ⟨hnot, log, error, h⟩
  · rw [h]
    refine ⟨fun effect heffect => ⟨_, List.mem_singleton.mp heffect⟩, Or.inl ⟨hloggable, hreadable, rfl⟩⟩
  · rw [h]
    exact ⟨by rintro effect ⟨⟩, Or.inr ⟨hnot, error, rfl⟩⟩

/-- The last steps of an execution with a result. -/
theorem ran_withAudit {executor : Executor F} {result : ExecResult}
    (hresult : t.execute executor = .ok (some result)) {entry : ExecResult → Dict F}
    {call : ExecResult → NotifyCall F} {body : Dict F}
    (hkeys : ∀ timestamp, StrKeys (auditLogEntry (entry result) timestamp))
    (hno : ∀ timestamp, NoChainFields (auditLogEntry (entry result) timestamp))
    (hloggable : Serialisable (auditLogEntry (entry result) env.clock.audit.isoformatZ) ↔ t.Loggable) :
    Ran ((withAudit site env server (entry result) fun server =>
        ⟨server, .ok (.ok body), [.notified (call result)]⟩).after (t.executed :: t.recorded)) t executor
      (LogReadable site env server.log) entry call := by
  have hcases := withAudit_cases site env server (fun server =>
    ⟨server, .ok (.ok body), [.notified (call result)]⟩) hkeys hno
  rw [hloggable] at hcases
  have hsame : ∀ result', t.execute executor = .ok (some result') → result' = result := by
    intro result' h
    rw [hresult] at h
    cases h
    rfl
  rcases hcases with ⟨htask, hreadable, log, -, h⟩ | ⟨hnot, log, error, h⟩
  · rw [h]
    refine ⟨by rintro detail seconds ⟨⟩, fun hnone => absurd hresult (hnone result), ?_⟩
    intro result' h'
    rw [hsame result' h']
    exact Or.inl ⟨htask, hreadable, rfl⟩
  · rw [h]
    refine ⟨by rintro detail seconds ⟨⟩, fun hnone => absurd hresult (hnone result), ?_⟩
    intro result' _
    exact Or.inr ⟨hnot, List.append_nil _⟩

theorem ran_webhookExecute (request : WebhookRequest) (a : Admitted F) :
    Ran (webhookExecute site env server request a) a.task env.executor
      (LogReadable site env (env.meanwhile server).log)
      (fun result => a.task.auditEntry request.apiKey a.role result request.clientHost)
      (a.task.notify request.apiKey) := by
  unfold webhookExecute
  cases hresult : a.task.execute env.executor with
  | error error =>
    exact ⟨by rintro detail seconds ⟨⟩, fun _ => rfl, by rintro result h; rw [hresult] at h; cases h⟩
  | ok r =>
    cases r with
    | none =>
      exact ⟨by rintro detail seconds ⟨⟩, fun _ => rfl, by rintro result h; rw [hresult] at h; cases h⟩
    | some result =>
      let entry : ExecResult → Dict F := fun result =>
        a.task.auditEntry request.apiKey a.role result request.clientHost
      have hkeys : ∀ timestamp, StrKeys (auditLogEntry (entry result) timestamp) :=
        fun _ => strKeys_auditEntry
      have hno : ∀ timestamp, NoChainFields (auditLogEntry (entry result) timestamp) :=
        fun _ => ⟨rfl, rfl, rfl⟩
      exact @ran_withAudit F _ _ site env _ a.task env.executor result hresult entry
        (a.task.notify request.apiKey) _ hkeys hno serialisable_auditEntry_iff

theorem ran_approveExecute (apiKey : Str) (role : Option Str) (e : Approval F) :
    Ran (approveExecute site env server apiKey role t e).1 t env.executor
      (LogReadable site env (env.meanwhile server).log)
      (fun result => (e.finish result).approvedEntry t apiKey role result)
      (t.notify e.requestedBy) := by
  unfold approveExecute
  cases hresult : t.execute env.executor with
  | error error =>
    exact ⟨by rintro detail seconds ⟨⟩, fun _ => rfl, by rintro result h; rw [hresult] at h; cases h⟩
  | ok r =>
    cases r with
    | none =>
      exact ⟨by rintro detail seconds ⟨⟩, fun _ => rfl, by rintro result h; rw [hresult] at h; cases h⟩
    | some result =>
      simp only
      generalize hstored : ServerState.saveEntry _ (e.finish result) env.savesResult = stored
      have hlog : stored.log = (env.meanwhile server).log := by
        rw [← hstored]
        rfl
      rw [← hlog]
      let entry : ExecResult → Dict F := fun result => (e.finish result).approvedEntry t apiKey role result
      have hkeys : ∀ timestamp, StrKeys (auditLogEntry (entry result) timestamp) :=
        fun _ => strKeys_approvedEntry
      have hno : ∀ timestamp, NoChainFields (auditLogEntry (entry result) timestamp) :=
        fun _ => ⟨rfl, rfl, rfl⟩
      exact ran_withAudit hresult hkeys hno serialisable_approvedEntry_iff

end Ways

/-! ## One execution, two ways -/

/-- A call of `execute_action`, or a cooldown recorded. -/
def Effect.isExecution : Effect F → Bool
  | .executed .. | .recorded _ => true
  | .queued _ | .audited _ | .notified _ => false

/-- The entry of an effect that writes one. -/
def Effect.entry? : Effect F → Option (Dict F)
  | .audited entry => some entry
  | .executed .. | .recorded _ | .queued _ | .notified _ => none

/-- The notification of an effect that sends one. -/
def Effect.call? : Effect F → Option (NotifyCall F)
  | .notified call => some call
  | .executed .. | .recorded _ | .queued _ | .audited _ => none

/-- What is executed and which cooldown is recorded. -/
def Outcome.execution (o : Outcome F) : List (Effect F) := o.effects.filter Effect.isExecution

/-- The fields in which the audit entries of the two ways agree. -/
def sharedFields : List Str :=
  [py "user", py "role", py "action", py "controller", py "controller_type", py "parameters",
    py "execution", py "dry_run"]

/-- The two outcomes are refused by the cooldown with the same answer, an execution writes
entries that agree, and it notifies of the same. -/
structure SameReports (direct approved : Outcome F) : Prop where
  refused : ∀ detail seconds, direct.answer = .ok (.blocked 409 detail seconds) ↔
    approved.answer = .ok (.blocked 409 detail seconds)
  audited : direct.Executes → List.Forall₂
    (fun entry entry' => ∀ name ∈ sharedFields, Dict.get? name entry = Dict.get? name entry')
    (direct.effects.filterMap Effect.entry?) (approved.effects.filterMap Effect.entry?)
  notified : direct.effects.filterMap Effect.call? = approved.effects.filterMap Effect.call?

/-- The audit entry of an approved execution has the fields of that of a direct one. -/
theorem get?_approvedEntry (e : Approval F) (a : Admitted F) (result : ExecResult)
    (clientIp : Option Str) (apiKey : Str) (role : Option Str) : ∀ name ∈ sharedFields,
      Dict.get? name (a.task.auditEntry e.requestedBy e.role result clientIp) =
        Dict.get? name (e.approvedEntry a.flagged.task apiKey role result) := by
  simp only [sharedFields, List.forall_mem_cons]
  exact ⟨rfl, rfl, rfl, rfl, rfl, rfl, rfl, rfl, by rintro name ⟨⟩⟩

section Same

variable [PyRuntime F] {direct approved : Outcome F} {t t' : Task F} {executor : Executor F}
  {readable readable' : Prop} {entry entry' : ExecResult → Dict F} {call : ExecResult → NotifyCall F}
  {remaining : ℚ}

theorem filter_recorded (t : Task F) : t.recorded.filter Effect.isExecution = t.recorded := by
  unfold Task.recorded
  split <;> rfl

theorem filterMap_entry?_recorded (t : Task F) : t.recorded.filterMap Effect.entry? = [] := by
  unfold Task.recorded
  split <;> rfl

theorem filterMap_call?_recorded (t : Task F) : t.recorded.filterMap Effect.call? = [] := by
  unfold Task.recorded
  split <;> rfl

/-- What an execution executes and records does not depend on the log. -/
theorem Ran.execution (h : Ran direct t executor readable entry call) :
    (∀ result, t.execute executor ≠ .ok (some result)) ∧ direct.execution = [t.executed] ∨
      (∃ result, t.execute executor = .ok (some result)) ∧
        direct.execution = t.executed :: t.recorded := by
  by_cases hresult : ∃ result, t.execute executor = .ok (some result)
  · refine Or.inr ⟨hresult, ?_⟩
    rcases hresult with ⟨result, hresult⟩
    unfold Outcome.execution
    rcases h.reports result hresult with ⟨-, -, heffects⟩ | ⟨-, heffects⟩
    · rw [heffects, List.filter_cons_of_pos (by rfl), List.filter_append, filter_recorded]
      exact congrArg (t.executed :: ·) (List.append_nil _)
    · rw [heffects, List.filter_cons_of_pos (by rfl), filter_recorded]
  · rw [not_exists] at hresult
    refine Or.inl ⟨hresult, ?_⟩
    unfold Outcome.execution
    rw [h.effects hresult]
    rfl

/-- What a refusal by the cooldown executes and records. -/
theorem Cooled.execution (h : Cooled direct t remaining readable) : direct.execution = [] := by
  refine List.filter_eq_nil_iff.mpr fun effect heffect => ?_
  rcases h.effects effect heffect with ⟨entry, rfl⟩
  simp [Effect.isExecution]

/-- What an execution reports. -/
theorem Ran.reported (h : Ran direct t executor readable entry call) :
    (∃ result, t.execute executor = .ok (some result) ∧ (t.Loggable ∧ readable) ∧
        direct.effects.filterMap Effect.entry? = [entry result] ∧
        direct.effects.filterMap Effect.call? = [call result]) ∨
      (∀ result, t.execute executor = .ok (some result) → ¬ (t.Loggable ∧ readable)) ∧
        direct.effects.filterMap Effect.entry? = [] ∧
        direct.effects.filterMap Effect.call? = [] := by
  by_cases hresult : ∃ result, t.execute executor = .ok (some result)
  · rcases hresult with ⟨result, hresult⟩
    rcases h.reports result hresult with ⟨hloggable, hlog, he⟩ | ⟨hnot, he⟩
    · refine Or.inl ⟨result, hresult, ⟨hloggable, hlog⟩, ?_, ?_⟩
      · rw [he, List.filterMap_cons_none (by rfl), List.filterMap_append, filterMap_entry?_recorded]
        rfl
      · rw [he, List.filterMap_cons_none (by rfl), List.filterMap_append, filterMap_call?_recorded]
        rfl
    · refine Or.inr ⟨fun _ _ => hnot, ?_, ?_⟩
      · rw [he, List.filterMap_cons_none (by rfl), filterMap_entry?_recorded]
      · rw [he, List.filterMap_cons_none (by rfl), filterMap_call?_recorded]
  · rw [not_exists] at hresult
    refine Or.inr ⟨fun result hr => absurd hr (hresult result), ?_, ?_⟩
    · rw [h.effects hresult]
      rfl
    · rw [h.effects hresult]
      rfl

theorem Ran.sameReports (h : Ran direct t executor readable entry call)
    (h' : Ran approved t executor readable' entry' call) (hreadable : readable ↔ readable')
    (hfields : ∀ result, ∀ name ∈ sharedFields,
      Dict.get? name (entry result) = Dict.get? name (entry' result)) :
    SameReports direct approved := by
  have hrefused : ∀ detail seconds, direct.answer = .ok (.blocked 409 detail seconds) ↔
      approved.answer = .ok (.blocked 409 detail seconds) :=
    fun detail seconds => iff_of_false (h.unblocked _ _) (h'.unblocked _ _)
  rcases h.reported with ⟨result, hresult, hlogged, hentries, hcalls⟩ | ⟨hnot, hentries, hcalls⟩
  · rcases h'.reported with ⟨result', hresult', -, hentries', hcalls'⟩ | ⟨hnot', -⟩
    · have hsame : result' = result := by
        rw [hresult] at hresult'
        cases hresult'
        rfl
      rw [hsame] at hentries' hcalls'
      refine ⟨hrefused, fun _ => ?_, hcalls.trans hcalls'.symm⟩
      rw [hentries, hentries']
      exact List.Forall₂.cons (hfields result) List.Forall₂.nil
    · exact absurd ⟨hlogged.1, hreadable.mp hlogged.2⟩ (hnot' result hresult)
  · rcases h'.reported with ⟨result, hresult, hlogged, -⟩ | ⟨-, hentries', hcalls'⟩
    · exact absurd ⟨hlogged.1, hreadable.mpr hlogged.2⟩ (hnot result hresult)
    · refine ⟨hrefused, fun _ => ?_, hcalls.trans hcalls'.symm⟩
      rw [hentries, hentries']
      exact List.Forall₂.nil

theorem Cooled.sameReports (h : Cooled direct t remaining readable)
    (h' : Cooled approved t remaining readable') (hreadable : readable ↔ readable') :
    SameReports direct approved := by
  have hcalls : ∀ {o : Outcome F}, (∀ effect ∈ o.effects, ∃ entry, effect = .audited entry) →
      o.effects.filterMap Effect.call? = [] := by
    intro o ho
    refine List.filterMap_eq_nil_iff.mpr fun effect heffect => ?_
    rcases ho effect heffect with ⟨entry, rfl⟩
    rfl
  refine ⟨fun detail seconds => ?_, ?_, (hcalls h.effects).trans (hcalls h'.effects).symm⟩
  · rcases h.answer with ⟨hloggable, hlog, ha⟩ | ⟨hnot, error, ha⟩
    · rcases h'.answer with ⟨-, -, ha'⟩ | ⟨hnot, -⟩
      · rw [ha, ha']
      · exact absurd ⟨hloggable, hreadable.mp hlog⟩ hnot
    · rcases h'.answer with ⟨hloggable, hlog, -⟩ | ⟨-, error', ha'⟩
      · exact absurd ⟨hloggable, hreadable.mpr hlog⟩ hnot
      · rw [ha, ha']
        exact iff_of_false (by rintro ⟨⟩) (by rintro ⟨⟩)
  · rintro ⟨_, _, _, _, hexecuted⟩
    rcases h.effects _ hexecuted with ⟨entry, ⟨⟩⟩

end Same

section Equivalence

variable [PyRuntime F] [PyDates F] [PydanticTypes F] {site : Site F} {env : RequestEnv F}
  {server : ServerState F} {request request' : WebhookRequest} {raw : JsonDoc F}

omit [PyDates F] [PydanticTypes F] in
/-- The flag does not matter to what is executed. -/
theorem Ran.unflagged {o : Outcome F} {a : Admitted F} {executor : Executor F} {readable : Prop}
    {entry : ExecResult → Dict F} {call : ExecResult → NotifyCall F}
    (h : Ran o a.flagged.task executor readable entry call) :
    Ran o a.task executor readable entry call := ⟨h.unblocked, h.effects, h.reports⟩

omit [PyDates F] [PydanticTypes F] in
theorem Cooled.unflagged {o : Outcome F} {a : Admitted F} {remaining : ℚ} {readable : Prop}
    (h : Cooled o a.flagged.task remaining readable) : Cooled o a.task remaining readable :=
  ⟨h.effects, h.answer⟩

/-- What comes of a request that asks for no approval. -/
theorem webhook_of_unflagged {a : Admitted F}
    (hpasses : Passes site env.vault env.clock server.hits request a)
    (hdirect : a.payload.approvalRequired = some false) :
    (∃ remaining, a.task.remaining server.cooldowns env.clock.check = some remaining ∧
      Cooled (webhook site env server request) a.task remaining (LogReadable site env server.log)) ∨
    a.task.remaining server.cooldowns env.clock.check = none ∧
      Ran (webhook site env server request) a.task env.executor
        (LogReadable site env (env.meanwhile (counted site env server request)).log)
        (fun result => a.task.auditEntry request.apiKey a.role result request.clientHost)
        (a.task.notify request.apiKey) := by
  rw [webhook_of_passes hpasses, webhookAdmitted, hdirect]
  simp only [isSet, Option.getD_some, Bool.false_eq_true, if_false]
  rw [show (counted site env server request).cooldowns = server.cooldowns from rfl]
  cases hremaining : a.task.remaining server.cooldowns env.clock.check with
  | some remaining => exact Or.inl ⟨remaining, rfl, cooled_withAudit _ _ _ _ _ _ _⟩
  | none => exact Or.inr ⟨rfl, ran_webhookExecute request a⟩

/-- What comes of its approval, had it asked for one. -/
theorem approve_of_queued {reads : VaultReads} {clock : Clock} {hits : Hits} {a : Admitted F}
    (hpasses : Passes site reads clock hits request a) {id : Uuid} {e : Approval F}
    (hraw : Unflagged a.raw) (hqueued : a.flagged.Queued id request.apiKey e)
    (hsame : e.payload = a.flagged.raw) (hunpaired : Unpaired request.apiKey)
    (hrole : ∀ role, a.role = some role → Unpaired role)
    (hscopes : SameScopes site reads env.vault) {apiKey approvalId : Str}
    (happrovable : Approvable site env server apiKey approvalId e) :
    (∃ remaining, a.task.remaining server.cooldowns env.clock.check = some remaining ∧
      Cooled (approve site env server apiKey approvalId).1 a.task remaining
        (LogReadable site env server.log)) ∨
    a.task.remaining server.cooldowns env.clock.check = none ∧ ∃ role,
      Ran (approve site env server apiKey approvalId).1 a.task env.executor
        (LogReadable site env (logAtApproval site env server apiKey e))
        (fun result => ((e.claim apiKey role).finish result).approvedEntry a.flagged.task apiKey role
          result) (a.task.notify e.requestedBy) := by
  rw [approve_of_approvable happrovable, approvePending,
    review_of_queued hpasses hraw hqueued hsame hunpaired hrole hscopes]
  cases hremaining : a.task.remaining server.cooldowns env.clock.check with
  | some remaining => exact Or.inl ⟨remaining, rfl, (cooled_withAudit _ _ _ _ _ _ _).unflagged⟩
  | none => exact Or.inr ⟨rfl, _, (ran_approveExecute _ _ _).unflagged⟩

/-- A request that asks for no approval passes the gates exactly when it passes them asking
for one. It is then queued, and when another key approves the entry, be it as it was queued
or as it was read back from the state file where no text of the payload has two surrogates next
to each other, with the same scopes of the keys, the same cooldowns, time and executor, it is
refused by the cooldown or executes and records what the request would have executed and recorded.
If the log can be read in both cases or in neither, the answers of the cooldown, the audit entries
and the notifications agree. -/
theorem approval_equivalent (hraw : Unflagged raw) (hjson : requestJson request.body = some raw)
    (hjson' : requestJson request'.body = some (flagged raw)) (hapiKey : request'.apiKey = request.apiKey)
    (hunpaired : Unpaired request.apiKey)
    (hroles : ∀ role, getRoleFromApiKey (resolveApiKeys site.auth env.vault.role) request.apiKey =
      some role → Unpaired role) :
    ((∃ a, Passes site env.vault env.clock server.hits request a) ↔
      ∃ a, Passes site env.vault env.clock server.hits request' a) ∧
    ∀ a, Passes site env.vault env.clock server.hits request a →
      (webhook site env server request').effects =
          [.queued (a.flagged.entry env.uuid request.apiKey)] ∧
      ∀ env' server' apiKey approvalId e, a.flagged.Queued env.uuid request.apiKey e →
        (e = a.flagged.entry env.uuid request.apiKey ∨ Unsplit raw.val) →
        Approvable site env' server' apiKey approvalId e → SameScopes site env.vault env'.vault →
        server'.cooldowns = server.cooldowns → env'.clock.check = env.clock.check →
        env'.executor = env.executor →
        (webhook site env server request).execution =
            (approve site env' server' apiKey approvalId).1.execution ∧
          ((LogReadable site env server.log ↔ LogReadable site env' server'.log) →
            (LogReadable site env (env.meanwhile (counted site env server request)).log ↔
              LogReadable site env' (logAtApproval site env' server' apiKey e)) →
            SameReports (webhook site env server request)
              (approve site env' server' apiKey approvalId).1) := by
  have hflagged := @passes_flagged F _ _ site env.vault env.clock server.hits request request' raw hraw
    hjson hjson' hapiKey
  refine ⟨⟨?_, ?_⟩, ?_⟩
  · rintro ⟨a, ha⟩
    exact ⟨_, hflagged.1 a ha⟩
  · rintro ⟨b, hb⟩
    exact hflagged.2 b hb
  intro a ha
  have hsame : a.raw = raw := Option.some.inj (ha.json.symm.trans hjson)
  have hrole : ∀ role, a.role = some role → Unpaired role := fun role h =>
    hroles role (ha.role.symm.trans h)
  refine ⟨?_, ?_⟩
  · rw [webhook_of_passes (hflagged.1 a ha), webhookAdmitted, if_pos (by rfl), ← hapiKey]
    rfl
  intro env' server' apiKey approvalId e hqueued hwhole happrovable hscopes hcooldowns hcheck hexecutor
  have hpayload : e.payload = a.flagged.raw :=
    hqueued.payload_eq_iff.mpr (hwhole.imp_right fun hunsplit =>
      unsplit_flagged (show Unsplit a.raw.val from hsame ▸ hunsplit))
  -- both ways look at the same cooldown at the same time, so they agree on it
  have hdirect := webhook_of_unflagged ha ((webhookPayload_flagged (hsame ▸ hraw)).2 _ ha.valid)
  have happroved := approve_of_queued ha (hsame ▸ hraw) hqueued hpayload hunpaired hrole hscopes happrovable
  rw [hcooldowns, hcheck, hexecutor] at happroved
  rcases hdirect with ⟨remaining, hremaining, hcooled⟩ | ⟨hfree, hran⟩
  · rcases happroved with ⟨remaining', hremaining', hcooled'⟩ | ⟨hfree', -⟩
    · have hseconds : remaining' = remaining := by
        rw [hremaining] at hremaining'
        exact (Option.some.inj hremaining').symm
      subst hseconds
      exact ⟨hcooled.execution.trans hcooled'.execution.symm,
        fun hlog _ => hcooled.sameReports hcooled' hlog⟩
    · rw [hremaining] at hfree'
      cases hfree'
  · rcases happroved with ⟨remaining', hremaining', -⟩ | ⟨-, role, hran'⟩
    · rw [hfree] at hremaining'
      cases hremaining'
    · have hrequester : e.requestedBy = request.apiKey := (hqueued.requester hunpaired hrole).1
      have hrole' : e.role = a.role := (hqueued.requester hunpaired hrole).2
      rw [hrequester] at hran'
      refine ⟨?_, fun _ hlog => hran.sameReports hran' hlog fun result => ?_⟩
      -- the executor is the same, so it gives a result to both or to neither
      · rcases hran.execution with ⟨hnone, he⟩ | ⟨⟨result, hresult⟩, he⟩
        · rcases hran'.execution with ⟨-, he'⟩ | ⟨⟨result, hresult⟩, -⟩
          · rw [he, he']
          · exact absurd hresult (hnone result)
        · rcases hran'.execution with ⟨hnone, -⟩ | ⟨-, he'⟩
          · exact absurd hresult (hnone result)
          · rw [he, he']
      · have hshared := get?_approvedEntry ((e.claim apiKey role).finish result) a result
          request.clientHost apiKey role
        rw [← hrequester, ← hrole']
        exact hshared

end Equivalence

/-! ## Examples -/

theorem jsonValue_unflagged :
    JsonValue (.dict ([(.str (py "event_type"), .str (py "check"))] : Dict NanFloat)) :=
  jsonValue_empty.cons (by decide) rfl (.str (by decide))

/-- The example payload without a flag. -/
def unflaggedPayload : JsonDoc NanFloat :=
  ⟨.dict [(.str (py "event_type"), .str (py "check"))], jsonValue_unflagged.keyed⟩

/-- The example request is executed as its approval is after a restart. -/
theorem approval_equivalent_example :
    let site := exampleSite (.literal exampleKeys) exampleAction [(py "local", exampleController)]
    (webhook site (exampleRequestEnv (.steady [])) (exampleServer [])
        ⟨py "operator-key", some (print .spaced unflaggedPayload.val), none⟩).execution =
      (approve site (exampleRequestEnv (.steady [])) (savedServer [exampleEntry.reread]) (py "admin-key")
        exampleEntry.id.val).1.execution := by
  have hraw : Unflagged unflaggedPayload := by
    rintro d ⟨⟩
    rfl
  have hunpaired : Unpaired (py "operator-key") := by
    rw [← joinSurrogates_eq_self_iff]
    decide
  have hunsplit : Unsplit unflaggedPayload.val :=
    unflaggedPayload.property.jsonValue_iff.mp jsonValue_unflagged
  have hpasses : Passes
      (exampleSite (.literal exampleKeys) exampleAction [(py "local", exampleController)])
      (.steady []) (exampleRequestEnv (.steady [])).clock (exampleServer []).hits
      ⟨py "operator-key", some (print .spaced unflaggedPayload.val), none⟩
      ⟨unflaggedPayload, ⟨py "check", none, some [], some false, some false⟩, some (py "operator"),
        exampleAction, py "local", exampleController⟩ :=
    ⟨requestJson_print jsonValue_unflagged rfl, rfl, rfl, rfl, rfl, rfl, rfl, rfl, rfl, by
      simp [overrides], rfl, rfl, rfl, rfl⟩
  have h := @approval_equivalent NanFloat _ _ _
    (exampleSite (.literal exampleKeys) exampleAction [(py "local", exampleController)])
    (exampleRequestEnv (.steady [])) (exampleServer [])
    ⟨py "operator-key", some (print .spaced unflaggedPayload.val), none⟩ (exampleRequest true)
    unflaggedPayload hraw (requestJson_print jsonValue_unflagged rfl) (requestJson_examplePayload true)
    rfl hunpaired
    (by rintro role ⟨⟩; rw [← joinSurrogates_eq_self_iff]; decide)
  exact ((h.2 _ hpasses).2 (exampleRequestEnv (.steady [])) (savedServer [exampleEntry.reread]) (py "admin-key")
    exampleEntry.id.val exampleEntry.reread (Or.inr rfl) (Or.inr hunsplit) ⟨rfl, rfl, rfl, by decide⟩
    ⟨rfl, rfl⟩ rfl rfl rfl).1

/-! ## A payload with the halves of a character -/

/-- A body with the two halves of a character in a parameter, as they are. -/
def halvesBody (rest : Str) : Str :=
  py "\x7b\"event_type\":\"check\",\"parameters\":\x7b\"a\":\"" ++ ([highHalf, lowHalf] ++ 34 :: 125 :: rest)

def halvesItems : Dict NanFloat :=
  [(.str (py "event_type"), .str (py "check")),
    (.str (py "parameters"), .dict [(.str (py "a"), .str [highHalf, lowHalf])])]



theorem halvesBody_eq (rest : Str) : halvesBody rest =
    123 :: 34 :: (py "event_type" ++ 34 :: 58 :: 34 :: (py "check" ++ 34 :: 44 ::
      34 :: (py "parameters" ++ 34 :: 58 :: 123 :: 34 :: (py "a" ++ 34 :: 58 :: 34 ::
        ([highHalf, lowHalf] ++ 34 :: 125 :: rest))))) := rfl

theorem scan_parameters (n : ℕ) (rest : Str) :
    scanValue scanBodyString 999 (n + 3)
        (123 :: 34 :: (py "a" ++ 34 :: 58 :: 34 :: ([highHalf, lowHalf] ++ 34 :: 125 :: rest))) =
      .ok ((.dict [(.str (py "a"), .str [highHalf, lowHalf])] : PyVal NanFloat), rest) :=
  scanValue_object (by decide) (by decide) (scanMembers_last (scanBodyString_plain (by decide) _) (by decide)
      (scanValue_text (scanBodyString_plain (s := [highHalf, lowHalf]) (by decide) _)))

/-- What asks for an approval, as the last item. -/
def flagItem : Str := 44 :: 34 :: (py "approval_required" ++ 34 :: 58 :: (py "true" ++ [125]))

theorem scan_true (n : ℕ) : scanValue scanBodyString 999 (n + 1) (py "true" ++ [125]) =
    .ok ((.bool true : PyVal NanFloat), [125]) := rfl

theorem scan_halves (n : ℕ) :
    scanValue scanBodyString 1000 (n + 6) (halvesBody [125]) =
        .ok ((.dict halvesItems : PyVal NanFloat), []) ∧
      scanValue scanBodyString 1000 (n + 6) (halvesBody flagItem) =
        .ok ((.dict (halvesItems ++ [(.str (py "approval_required"), .bool true)]) : PyVal NanFloat),
          []) := by
  rw [halvesBody_eq, halvesBody_eq]
  constructor
  · exact scanValue_object (by decide) (by decide)
      (scanMembers_more (scanBodyString_plain (by decide) _) (by decide)
        (scanValue_text (scanBodyString_plain (by decide) _)) (by decide)
        (scanMembers_last (scanBodyString_plain (by decide) _) (by decide) (scan_parameters _ _)))
  · exact scanValue_object (by decide) (by decide)
      (scanMembers_more (scanBodyString_plain (by decide) _) (by decide)
        (scanValue_text (scanBodyString_plain (by decide) _)) (by decide)
        (scanMembers_more (scanBodyString_plain (by decide) _) (by decide) (scan_parameters _ _) (by decide)
          (scanMembers_last (scanBodyString_plain (by decide) _) (by decide) (scan_true _))))

theorem bodyLoads_halves :
    (bodyLoads (halvesBody [125]) : Py (PyVal NanFloat)) = .ok (.dict halvesItems) ∧
    (bodyLoads (halvesBody flagItem) : Py (PyVal NanFloat)) =
      .ok (.dict (halvesItems ++ [(.str (py "approval_required"), .bool true)])) := by
  have hlength : 2 * (halvesBody [125]).length = 86 + 6 := by decide
  have hlength' : 2 * (halvesBody flagItem).length = 136 + 6 := by decide
  have hstart : ∀ rest, skipWs (halvesBody rest) = halvesBody rest := fun rest =>
    skipWs_of_head (by decide) _
  have hlevels : PyRuntime.jsonLevels NanFloat = 1000 := rfl
  unfold bodyLoads loadsWith
  rw [hlength, hlength', hstart, hstart, hlevels, (scan_halves 86).1, (scan_halves 136).2]
  exact ⟨rfl, rfl⟩
theorem keyed_halves : Keyed (.dict halvesItems) := by
  have hparameters : Keyed (.dict ([(.str (py "a"), .str [highHalf, lowHalf])] : Dict NanFloat)) :=
    jsonValue_empty.keyed.set (py "a") (.str _)
  exact (jsonValue_empty.keyed.set (py "event_type") (.str _)).set (py "parameters") hparameters

def halvesPayload : JsonDoc NanFloat := ⟨.dict halvesItems, keyed_halves⟩

/-- What `/webhook` admits of it, if it asks for no approval. -/
def halvesAdmitted : Admitted NanFloat :=
  ⟨halvesPayload, ⟨py "check", none, some [(py "a", .str [highHalf, lowHalf])], some false, some false⟩,
    some (py "operator"), exampleAction, py "local", exampleController⟩

theorem passes_halves :
    Passes (exampleSite (.literal exampleKeys) exampleAction [(py "local", exampleController)])
      (.steady []) (exampleRequestEnv (.steady [])).clock (exampleServer []).hits
      ⟨py "operator-key", some (halvesBody [125]), none⟩ halvesAdmitted :=
  ⟨requestJson_of_bodyLoads bodyLoads_halves.1, rfl, rfl, rfl, rfl, rfl, rfl, rfl, rfl, by
    simp [halvesAdmitted, overrides], rfl, rfl, rfl, rfl⟩

theorem passes_halves_flagged :
    Passes (exampleSite (.literal exampleKeys) exampleAction [(py "local", exampleController)])
      (.steady []) (exampleRequestEnv (.steady [])).clock (exampleServer []).hits
      ⟨py "operator-key", some (halvesBody flagItem), none⟩ halvesAdmitted.flagged :=
  ⟨requestJson_of_bodyLoads bodyLoads_halves.2, rfl, rfl, rfl, rfl, rfl, rfl, rfl, rfl, by
    simp [halvesAdmitted, Admitted.flagged, WebhookPayload.flagged, overrides], rfl, rfl, rfl, rfl⟩

/-- The entry that is queued. -/
def halvesEntry : Approval NanFloat := halvesAdmitted.flagged.entry exampleEntry.id (py "operator-key")

/-- The payload of the entry, read back. -/
theorem webhookPayload_reread : webhookPayload halvesEntry.reread.payload.val =
    some ⟨py "check", none, some [(py "a", .str [surrogatePair highHalf lowHalf])], some false,
      some true⟩ := rfl

/-- The request is executed with the two halves. The same request, queued, read back and approved,
is executed with the character. -/
theorem approval_differs_after_reload :
    let site := exampleSite (.literal exampleKeys) exampleAction [(py "local", exampleController)]
    let env := exampleRequestEnv (.steady [])
    let direct := webhook site env (exampleServer []) ⟨py "operator-key", some (halvesBody [125]), none⟩
    let asking := webhook site env (exampleServer []) ⟨py "operator-key", some (halvesBody flagItem), none⟩
    let approved := (approve site env (savedServer [halvesEntry.reread]) (py "admin-key")
      exampleEntry.id.val).1
    (requestJson (some (halvesBody [125])) = some halvesPayload ∧ Unflagged halvesPayload ∧
      requestJson (some (halvesBody flagItem)) = some (flagged halvesPayload)) ∧
    .queued halvesEntry ∈ asking.effects ∧
    loadApprovalQueue (some (queueText [halvesEntry])) = [halvesEntry.reread] ∧
    .executed exampleAction (some exampleController) [(.str (py "a"), .str [highHalf, lowHalf])]
      (some false) ∈ direct.effects ∧
    .executed exampleAction (some exampleController)
      [(.str (py "a"), .str [surrogatePair highHalf lowHalf])] (some false) ∈ approved.effects ∧
    direct.execution ≠ approved.execution := by
  intro site env direct asking approved
  have hunflagged : Unflagged halvesPayload := by
    rintro d ⟨⟩
    rfl
  have hdirect : .executed exampleAction (some exampleController)
      [(.str (py "a"), .str [highHalf, lowHalf])] (some false) ∈ direct.effects :=
    executed_mem_webhook.mpr
      ⟨_, passes_halves, ⟨rfl, Task.remaining_eq_none.mpr (Or.inr (Or.inl rfl))⟩, rfl⟩
  have happroved : .executed exampleAction (some exampleController)
      [(.str (py "a"), .str [surrogatePair highHalf lowHalf])] (some false) ∈ approved.effects := by
    let task : Task NanFloat := ⟨⟨py "check", none,
      some [(py "a", .str [surrogatePair highHalf lowHalf])], some false, some true⟩,
      exampleAction, some (py "local"), some exampleController⟩
    exact executed_mem_approve.mpr ⟨halvesEntry.reread, task, ⟨rfl, rfl, rfl, by decide⟩,
      ⟨webhookPayload_reread, rfl, rfl, rfl, rfl, Task.remaining_eq_none.mpr (Or.inr (Or.inl rfl))⟩,
      rfl⟩
  refine ⟨⟨requestJson_of_bodyLoads bodyLoads_halves.1, hunflagged,
    requestJson_of_bodyLoads bodyLoads_halves.2⟩,
    queued_mem_webhook.mpr ⟨_, passes_halves_flagged, rfl, rfl⟩, loadApprovalQueue_queueText _, hdirect,
    happroved, fun hsame => ?_⟩
  -- what is executed directly would be among what the approval executes
  have hmem : .executed exampleAction (some exampleController)
      [(.str (py "a"), .str [highHalf, lowHalf])] (some false) ∈ approved.execution := by
    rw [← hsame]
    exact List.mem_filter.mpr ⟨hdirect, rfl⟩
  rcases executed_mem_approve.mp (List.mem_of_mem_filter hmem) with ⟨e, task, happrovable, hclaims, htask⟩
  have hfound : some e = some halvesEntry.reread := happrovable.found.symm.trans rfl
  have hentry := Option.some.inj hfound
  subst hentry
  have hvalid := hclaims.valid
  rw [webhookPayload_reread] at hvalid
  rcases task with ⟨payload, action, name, controller⟩
  cases hvalid
  injection htask with haction _ hparams
  subst haction
  have hhalves : [(Key.str (py "a"), PyVal.str [surrogatePair highHalf lowHalf])] =
      ([(.str (py "a"), .str [highHalf, lowHalf])] : Dict NanFloat) := hparams
  exact absurd (PyVal.str.inj (Prod.mk.inj (List.cons.inj hhalves).1).2) (by decide)

end AutoHeal.Server
