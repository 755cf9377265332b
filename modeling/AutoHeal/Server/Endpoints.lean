import AutoHeal.Lib.Purge
import AutoHeal.Server.Reads
import AutoHeal.Server.Trail

/-!
# The endpoints

The HTTP interface of the server: every route of `src/main.py` behind `APIKeyAuthMiddleware`,
with the handlers of exceptions around them. A run is a list of requests, one after the other.
`handle_writes` says what a request may do to the audit log: write one entry, or none.
-/

namespace AutoHeal.Server

open Audit Purge

variable {F : Type}

/-! ## Requests and answers -/

/-- The routes, with what a request gives them. A query of the audit log is `none` if its limit
is no integer. -/
inductive Endpoint where
  | health
  | live
  | ready
  | protectedEndpoint
  | canOverrideController
  | webhook (body : Option Str)
  | audit (params : Option AuditQueryParams)
  | auditVerify
  | approvals
  | approve (approvalId : Str)
  | reject (approvalId : Str)

/-- `request.url.path in PUBLIC_PATHS`. -/
def Endpoint.isPublic : Endpoint → Bool
  | .health | .live | .ready => true
  | .protectedEndpoint | .canOverrideController | .webhook _ | .audit _ | .auditVerify | .approvals
  | .approve _ | .reject _ => false

/-- The endpoints that show what is in the audit log. -/
def Endpoint.readsLog : Endpoint → Bool
  | .audit _ | .auditVerify => true
  | .health | .live | .ready | .protectedEndpoint | .canOverrideController | .webhook _ | .approvals
  | .approve _ | .reject _ => false

/-- A request, with the configuration and the surroundings it meets, `API_VERSION`, and what
`pydantic` reports if its query does not validate. -/
structure HttpRequest (F : Type) where
  site : Site F
  env : RequestEnv F
  apiVersion : Str
  errors : PyVal F
  apiKey : Option Str
  clientHost : Option Str
  endpoint : Endpoint

/-- `request.headers.get("x-api-key")`, behind the middleware. -/
def HttpRequest.key (r : HttpRequest F) : Str := r.apiKey.getD []

/-- What is sent back: the response of a handler, JSON with a status, the entries of a listing or
the report about the log. -/
inductive HttpAnswer (F : Type) where
  | response (response : Response F)
  | json (status : Nat) (content : Dict F)
  | items (items : List (PyVal F))
  | report (report : Report)

/-- An `ErrorResponse`. -/
def errorResponse (detail : Str) (code : Nat) (errors : PyVal F) : HttpAnswer F :=
  .json code [(.str (py "detail"), .str detail), (.str (py "code"), .int code),
    (.str (py "errors"), errors)]

/-- `unhandled_exception_handler`. -/
def unhandledException : HttpAnswer F := errorResponse (py "Internal server error") 500 .none

/-- `validation_exception_handler`. -/
def validationException (errors : PyVal F) : HttpAnswer F :=
  errorResponse (py "Validation error") 422 errors

/-- What comes of a request, once exceptions have been handled. -/
structure Handling (F : Type) where
  server : ServerState F
  answer : HttpAnswer F
  effects : List (Effect F)

def Outcome.handling (o : Outcome F) : Handling F where
  server := o.server
  answer :=
    match o.answer with
    | .ok response => .response response
    | .error _ => unhandledException
  effects := o.effects

/-- A request that changes nothing. -/
def ServerState.answers (server : ServerState F) (answer : HttpAnswer F) : Handling F :=
  ⟨server, answer, []⟩

/-! ## Routes -/

/-- The body of a probe. -/
def probeBody (status apiVersion : Str) : HttpAnswer F :=
  .json 200 [(.str (py "status"), .str status), (.str (py "version"), .str apiVersion)]

/-- `health`. It logs the host of the client, which an internal request has not. -/
def health (apiVersion : Str) (clientHost : Option Str) : HttpAnswer F :=
  match clientHost with
  | some _ => probeBody (py "ok") apiVersion
  | none => unhandledException

/-- `liveness_probe`. -/
def livenessProbe (apiVersion : Str) : HttpAnswer F := probeBody (py "live") apiVersion

/-- `readiness_probe`. -/
def readinessProbe (apiVersion : Str) : HttpAnswer F := probeBody (py "ready") apiVersion

/-- `protected`. -/
def protectedEndpoint : HttpAnswer F :=
  .json 200 [(.str (py "message"), .str (py "You have accessed a protected endpoint!"))]

/-- `can_override_controller`. -/
def canOverrideController (site : Site F) (reads : VaultReads) (apiKey : Str) : HttpAnswer F :=
  let role := getRoleFromApiKey (resolveApiKeys site.auth reads.role) apiKey
  if hasPermission site.auth role (py "controller_override") then
    .json 200 [(.str (py "allowed"), .bool true), (.str (py "role"), optStr role)]
  else
    .json 403 [(.str (py "allowed"), .bool false), (.str (py "role"), optStr role),
      (.str (py "detail"), .str (py "Forbidden"))]

def Page.answer : Py (Page F) → HttpAnswer F
  | .ok (.refused response) => .response response
  | .ok (.items entries) => .items entries
  | .error _ => unhandledException

variable [PyRuntime F]

/-- `get_audit_verify`. -/
def getAuditVerify (site : Site F) (reads : VaultReads) (log : Audit.Dir) (apiKey : Str) :
    HttpAnswer F :=
  let role := getRoleFromApiKey (resolveApiKeys site.auth reads.role) apiKey
  if !hasPermission site.auth role (py "audit_read") then .response (.error 403 (py "Forbidden"))
  else
    match verifyChain F (log.lookup site.chain.base) with
    | .ok report => .report report
    | .error _ => unhandledException

variable [PyDates F] [PydanticTypes F]

/-- The handlers. -/
def HttpRequest.respond (r : HttpRequest F) (server : ServerState F) : Handling F :=
  match r.endpoint with
  | .health => server.answers (health r.apiVersion r.clientHost)
  | .live => server.answers (livenessProbe r.apiVersion)
  | .ready => server.answers (readinessProbe r.apiVersion)
  | .protectedEndpoint => server.answers protectedEndpoint
  | .canOverrideController => server.answers (canOverrideController r.site r.env.vault r.key)
  | .webhook body => (webhook r.site r.env server ⟨r.key, body, r.clientHost⟩).handling
  | .audit none => server.answers (validationException r.errors)
  | .audit (some params) =>
    server.answers (Page.answer (getAudit r.site r.env.vault server.log r.key params))
  | .auditVerify => server.answers (getAuditVerify r.site r.env.vault server.log r.key)
  | .approvals =>
    server.answers (Page.answer (.ok (listApprovals r.site r.env.vault server.queue r.key)))
  | .approve approvalId => (approve r.site r.env server r.key approvalId).1.handling
  | .reject approvalId => (reject r.site r.env server r.key approvalId).1.handling

/-- `APIKeyAuthMiddleware.dispatch`. -/
def HttpRequest.dispatch (r : HttpRequest F) (server : ServerState F) : Handling F :=
  if r.endpoint.isPublic then r.respond server
  else if !authenticated r.site.auth r.env.vault r.key then
    server.answers (.response (.error 401 (py "Unauthorized")))
  else r.respond server

theorem HttpRequest.dispatch_of_authenticated {r : HttpRequest F}
    (h : authenticated r.site.auth r.env.vault r.key = true) (server : ServerState F) :
    r.dispatch server = r.respond server := by
  unfold HttpRequest.dispatch
  rw [h]
  split <;> rfl

/-- What holds where nothing happens, and of the handlers that change something, holds of every
request. -/
theorem HttpRequest.dispatch_rule {r : HttpRequest F} {server : ServerState F}
    {P : Handling F → Prop} (hanswers : ∀ answer, P (server.answers answer))
    (hwebhook : ∀ body, r.endpoint = .webhook body →
      P (webhook r.site r.env server ⟨r.key, body, r.clientHost⟩).handling)
    (happrove : ∀ approvalId, r.endpoint = .approve approvalId →
      P (approve r.site r.env server r.key approvalId).1.handling)
    (hreject : ∀ approvalId, r.endpoint = .reject approvalId →
      P (reject r.site r.env server r.key approvalId).1.handling) : P (r.dispatch server) := by
  have hrespond : P (r.respond server) := by
    unfold HttpRequest.respond
    cases hendpoint : r.endpoint with
    | webhook body => exact hwebhook body hendpoint
    | approve approvalId => exact happrove approvalId hendpoint
    | reject approvalId => exact hreject approvalId hendpoint
    | audit params =>
      cases params with
      | none => exact hanswers _
      | some params => exact hanswers _
    | health | live | ready | protectedEndpoint | canOverrideController | auditVerify | approvals =>
      exact hanswers _
  unfold HttpRequest.dispatch
  split_ifs
  · exact hrespond
  · exact hanswers _
  · exact hrespond

/-- One request. Its output is the answer, with what it has done. -/
def handle (server : ServerState F) (r : HttpRequest F) :
    ServerState F × (HttpAnswer F × List (Effect F)) :=
  ((r.dispatch server).server, (r.dispatch server).answer, (r.dispatch server).effects)

/-- A request to `/webhook` that the middleware lets through. -/
theorem dispatch_webhook {r : HttpRequest F} {body : Option Str}
    (h : authenticated r.site.auth r.env.vault r.key = true) (hendpoint : r.endpoint = .webhook body)
    (server : ServerState F) : r.dispatch server =
      (webhook r.site r.env server ⟨r.key, body, r.clientHost⟩).handling := by
  rw [HttpRequest.dispatch_of_authenticated h, HttpRequest.respond, hendpoint]

theorem handle_effects (server : ServerState F) (r : HttpRequest F) :
    (handle server r).2.2 = (r.dispatch server).effects := rfl

omit [PyRuntime F] [PyDates F] [PydanticTypes F] in
theorem effects_handling (o : Outcome F) : o.handling.effects = o.effects := rfl

/-- Nothing else happens to the server while a request executes. -/
def HttpRequest.Alone (r : HttpRequest F) : Prop := ∀ server, r.env.meanwhile server = server

/-! ## What a request does to the log -/

section Writing

omit [PyDates F] [PydanticTypes F]

/-- The entries among some effects that were written to the log. -/
def auditedEntries (effects : List (Effect F)) : List (Dict F) :=
  effects.filterMap fun
    | .audited entry => some entry
    | _ => none

omit [PyRuntime F] in
theorem auditedEntries_append (xs ys : List (Effect F)) :
    auditedEntries (xs ++ ys) = auditedEntries xs ++ auditedEntries ys := List.filterMap_append

omit [PyRuntime F] in
theorem auditedEntries_recorded (t : Task F) [PyRuntime F] : auditedEntries t.recorded = [] := by
  unfold Task.recorded
  split <;> rfl

omit [PyRuntime F] in
/-- The entry that is handed to the log has names for keys, each once, and no chain fields. -/
structure AuditKeys (entry : Dict F) : Prop where
  distinct : ∀ timestamp, (Dict.keys (auditLogEntry entry timestamp)).Nodup
  strings : ∀ timestamp, StrKeys (auditLogEntry entry timestamp)
  unchained : ∀ timestamp, NoChainFields (auditLogEntry entry timestamp)

omit [PyRuntime F] in
theorem auditKeys_of_names {entry : Dict F} (names : List Str)
    (h : ∀ timestamp, Dict.keys (auditLogEntry entry timestamp) = names.map .str)
    (hnodup : names.Nodup)
    (hno : py "sequence" ∉ names ∧ py "prev_hash" ∉ names ∧ py "entry_hash" ∉ names) :
    AuditKeys entry := by
  have hmem : ∀ timestamp name, name ∉ names →
      Dict.get? name (auditLogEntry entry timestamp) = none := by
    intro timestamp name hname
    rw [Dict.get?_eq_none_iff, h timestamp]
    intro hkey
    rcases List.mem_map.mp hkey with ⟨other, hother, heq⟩
    exact hname (Key.str.inj heq ▸ hother)
  refine ⟨fun timestamp => ?_, fun timestamp kv hkv => ?_, fun timestamp => ?_⟩
  · rw [h timestamp]
    exact nodup_map_str hnodup
  · have hkey : kv.1 ∈ Dict.keys (auditLogEntry entry timestamp) := List.mem_map_of_mem hkv
    rw [h timestamp] at hkey
    rcases List.mem_map.mp hkey with ⟨name, -, heq⟩
    exact ⟨name, heq.symm⟩
  · exact ⟨hmem _ _ hno.1, hmem _ _ hno.2.1, hmem _ _ hno.2.2⟩

/-- The keys of `auditFields`. -/
def auditNames : List Str :=
  [py "user", py "role", py "action", py "controller", py "controller_type", py "parameters",
    py "execution", py "client_ip", py "dry_run"]

/-- The keys that `write_audit_log` adds. -/
def stampNames : List Str := [py "timestamp", py "status", py "error"]

/-- The keys about a decision. -/
def decisionNames : List Str :=
  [py "approval_id", py "approval_status", py "approved_by", py "approver_role"]

section Entries

variable (t : Task F) (user : Str) (role : Option Str)

omit [PyRuntime F] in
theorem auditKeys_auditEntry (result : ExecResult) (clientIp : Option Str) :
    AuditKeys (t.auditEntry user role result clientIp) :=
  auditKeys_of_names (auditNames ++ stampNames) (fun _ => rfl) (by decide) (by decide)

omit [PyRuntime F] in
theorem auditKeys_blockEntry : AuditKeys (t.blockEntry user role) :=
  auditKeys_of_names (auditNames ++ [py "blocked_reason"] ++ stampNames) (fun _ => rfl) (by decide)
    (by decide)

omit [PyRuntime F] in
theorem auditKeys_rateLimitBlock (eventType : Str) (parameters : Option (List (Str × PyVal F))) :
    AuditKeys (rateLimitBlockAuditEntry eventType user role parameters) :=
  auditKeys_of_names (auditNames ++ [py "blocked_reason"] ++ stampNames) (fun _ => rfl) (by decide)
    (by decide)

omit [PyRuntime F] in
theorem auditKeys_approvedEntry (e : Approval F) (result : ExecResult) :
    AuditKeys (e.approvedEntry t user role result) :=
  auditKeys_of_names (auditNames ++ decisionNames ++ stampNames) (fun _ => rfl) (by decide) (by decide)

omit [PyRuntime F] in
theorem auditKeys_rejectedEntry (e : Approval F) (payload : Dict F) :
    AuditKeys (e.rejectedEntry payload user role) :=
  auditKeys_of_names (auditNames ++ decisionNames ++ stampNames) (fun _ => rfl) (by decide) (by decide)

end Entries

end Writing

section Wrote

variable {site : Site F} {env : RequestEnv F} {server : ServerState F}

omit [PydanticTypes F] in
/-- The log is as it was, or one entry has been written to it. An entry that could not be written
is no effect. -/
def Wrote (site : Site F) (env : RequestEnv F) (log log' : Audit.Dir) (effects : List (Effect F)) :
    Prop :=
  (log' = log ∧ auditedEntries effects = []) ∨
    ∃ entry, AuditKeys entry ∧
      log' = (writeAuditLog site.chain env.audit env.clock.audit log entry).1 ∧
      auditedEntries effects =
        match (writeAuditLog site.chain env.audit env.clock.audit log entry).2 with
        | .ok _ => [entry]
        | .error _ => []

omit [PydanticTypes F] in
theorem wrote_withAudit {entry : Dict F} (hentry : AuditKeys entry) {next : ServerState F → Outcome F}
    (hlog : ∀ s, (next s).server.log = s.log) (hquiet : ∀ s, auditedEntries (next s).effects = []) :
    Wrote site env server.log (withAudit site env server entry next).server.log
      (withAudit site env server entry next).effects := by
  refine Or.inr ⟨entry, hentry, ?_⟩
  unfold withAudit
  rcases writeAuditLog site.chain env.audit env.clock.audit server.log entry with ⟨log, e | _⟩
  · exact ⟨rfl, rfl⟩
  · refine ⟨hlog _, ?_⟩
    show auditedEntries (.audited entry :: (next _).effects) = [entry]
    rw [← List.singleton_append, auditedEntries_append, hquiet]
    rfl

omit [PydanticTypes F] in
/-- What comes first and writes nothing changes nothing about that. -/
theorem Wrote.after {log : Audit.Dir} {o : Outcome F} {effects : List (Effect F)}
    (h : Wrote site env log o.server.log o.effects) (hquiet : auditedEntries effects = []) :
    Wrote site env log (o.after effects).server.log (o.after effects).effects := by
  have heffects : auditedEntries (o.after effects).effects = auditedEntries o.effects := by
    show auditedEntries (effects ++ o.effects) = _
    rw [auditedEntries_append, hquiet, List.nil_append]
  unfold Wrote at h ⊢
  rw [heffects]
  exact h

omit [PyDates F] [PydanticTypes F] in
theorem auditedEntries_execution (t : Task F) : auditedEntries (t.executed :: t.recorded) = [] := by
  rw [← List.singleton_append, auditedEntries_append, auditedEntries_recorded]
  rfl

omit [PydanticTypes F] in
theorem wrote_webhookExecute (halone : ∀ server, env.meanwhile server = server)
    (request : WebhookRequest) (a : Admitted F) :
    Wrote site env server.log (webhookExecute site env server request a).server.log
      (webhookExecute site env server request a).effects := by
  unfold webhookExecute
  rcases a.task.execute env.executor with e | _ | result
  · exact Or.inl ⟨by rw [halone], rfl⟩
  · exact Or.inl ⟨by rw [halone], rfl⟩
  · simp only [halone]
    exact (wrote_withAudit (auditKeys_auditEntry _ _ _ _ _) (fun _ => rfl) fun _ => rfl).after
      (auditedEntries_execution a.task)

omit [PyRuntime F] [PyDates F] [PydanticTypes F] in
/-- Nobody is held up for what a key may do. -/
theorem authorize_ne_limited {reads : VaultReads} {apiKey : Str} {raw : JsonDoc F}
    {payload : WebhookPayload F} {role : Option Str} {action : ActionConfig F} {response : Response F}
    {entry : Dict F} :
    authorize site reads apiKey raw payload role action ≠ .limited response entry := by
  unfold authorize
  simp only
  split_ifs
  · simp
  · simp
  · simp
  -- the gates that are left are about the controller
  · split
    · split_ifs <;> simp
    · simp
  · split
    · split_ifs <;> simp
    · simp

omit [PyDates F] in
/-- The entry about a request over a limit. -/
theorem limited_entry {reads : VaultReads} {clock : Clock} {hits : Hits} {request : WebhookRequest}
    {response : Response F} {entry : Dict F}
    (h : (webhookGate site reads clock hits request).2 = .limited response entry) :
    ∃ eventType role parameters,
      entry = rateLimitBlockAuditEntry eventType request.apiKey role parameters := by
  unfold webhookGate at h
  cases hjson : (requestJson request.body : Option (JsonDoc F)) with
  | none =>
    rw [hjson] at h
    cases h
  | some raw =>
    simp only [hjson] at h
    cases hpayload : webhookPayload raw.val with
    | none =>
      simp only [hpayload] at h
      split at h <;> cases h
    | some payload =>
      simp only [hpayload] at h
      unfold payloadGate at h
      simp only at h
      split at h
      · -- over the limit of the caller
        cases h
        exact ⟨_, _, _, rfl⟩
      · split at h
        · cases h
        · split at h
          · -- over the limit of the action
            cases h
            exact ⟨_, _, _, rfl⟩
          · exact absurd h authorize_ne_limited

theorem wrote_webhook (halone : ∀ server, env.meanwhile server = server) (request : WebhookRequest) :
    Wrote site env server.log (webhook site env server request).server.log
      (webhook site env server request).effects := by
  unfold webhook
  have hentry := @limited_entry F _ _ site env.vault env.clock server.hits request
  revert hentry
  rcases webhookGate site env.vault env.clock server.hits request with ⟨hits, gate⟩
  intro hentry
  cases gate with
  | refused response => exact Or.inl ⟨rfl, rfl⟩
  | limited response entry =>
    rcases hentry rfl with ⟨eventType, role, parameters, rfl⟩
    exact @wrote_withAudit F _ _ site env { server with hits } _
      (auditKeys_rateLimitBlock _ _ _ _) _ (fun _ => rfl) fun _ => rfl
  | admitted a =>
    simp only
    unfold webhookAdmitted
    split
    · exact Or.inl ⟨rfl, rfl⟩
    · split
      · exact wrote_withAudit (auditKeys_blockEntry _ _ _) (fun _ => rfl) fun _ => rfl
      · exact wrote_webhookExecute halone request a

omit [PydanticTypes F] in
theorem wrote_approveExecute (halone : ∀ server, env.meanwhile server = server) (apiKey : Str)
    (role : Option Str) (task : Task F) (e : Approval F) :
    Wrote site env server.log (approveExecute site env server apiKey role task e).1.server.log
      (approveExecute site env server apiKey role task e).1.effects := by
  unfold approveExecute
  rcases task.execute env.executor with error | _ | result
  · exact Or.inl ⟨by rw [halone], rfl⟩
  · exact Or.inl ⟨by simp only [halone]; rfl, rfl⟩
  · simp only [halone]
    refine Wrote.after ?_ (auditedEntries_execution task)
    exact @wrote_withAudit F _ _ site env (({ server with
        cooldowns := task.record server.cooldowns env.clock.record env.clock.prune }).saveEntry
          (e.finish result) env.savesResult) _
      (auditKeys_approvedEntry _ _ _ _ _) (fun server => ⟨server, _, [.notified _]⟩) (fun _ => rfl)
      fun _ => rfl

theorem wrote_approve (halone : ∀ server, env.meanwhile server = server) (apiKey approvalId : Str) :
    Wrote site env server.log (approve site env server apiKey approvalId).1.server.log
      (approve site env server apiKey approvalId).1.effects := by
  unfold approve
  simp only
  split_ifs
  · exact Or.inl ⟨rfl, rfl⟩
  · cases lookupPending server.queue apiKey approvalId (py "approve") with
    | refused response => exact Or.inl ⟨rfl, rfl⟩
    | found e =>
      simp only
      unfold approvePending
      cases review site env.vault server.cooldowns env.clock.check e with
      | raised error => exact Or.inl ⟨rfl, rfl⟩
      | lost => exact Or.inl ⟨rfl, rfl⟩
      | cooling task remaining =>
        exact wrote_withAudit (auditKeys_blockEntry _ _ _) (fun _ => rfl) fun _ => rfl
      | claimed task =>
        exact @wrote_approveExecute F _ _ site env (server.saveEntry (e.claim apiKey _) env.saves)
          halone apiKey _ task _

omit [PydanticTypes F] in
theorem wrote_reject (apiKey approvalId : Str) :
    Wrote site env server.log (reject site env server apiKey approvalId).1.server.log
      (reject site env server apiKey approvalId).1.effects := by
  unfold reject
  simp only
  split_ifs
  · exact Or.inl ⟨rfl, rfl⟩
  · cases lookupPending server.queue apiKey approvalId (py "reject") with
    | refused response => exact Or.inl ⟨rfl, rfl⟩
    | found e =>
      simp only
      unfold rejectPending
      simp only
      split
      · exact @wrote_withAudit F _ _ site env (server.saveEntry _ env.saves) _
          (auditKeys_rejectedEntry _ _ _ _) (fun server => ⟨server, _, []⟩) (fun _ => rfl) fun _ => rfl
      · exact Or.inl ⟨rfl, rfl⟩

/-- A request writes one entry to the log or none, whatever its endpoint. -/
theorem handle_writes {r : HttpRequest F} (halone : r.Alone) (server : ServerState F) :
    Wrote r.site r.env server.log (handle server r).1.log (handle server r).2.2 := by
  refine @HttpRequest.dispatch_rule F _ _ _ r server
    (fun h => Wrote r.site r.env server.log h.server.log h.effects) ?_ ?_ ?_ ?_
  · exact fun answer => Or.inl ⟨rfl, rfl⟩
  · exact fun body _ => wrote_webhook halone _
  · exact fun approvalId _ => wrote_approve halone _ _
  · exact fun approvalId _ => wrote_reject _ _

end Wrote

end AutoHeal.Server
