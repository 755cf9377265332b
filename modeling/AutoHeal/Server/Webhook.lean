import AutoHeal.Server.Request

/-!
# `/webhook`

The handler refuses a request at one of its gates or admits it. What is admitted is
queued if the payload asks for an approval, and otherwise executed unless it is in
cooldown. `webhook_queue` and `webhook_cooldowns` say what a request leaves unchanged,
`webhook_executes_iff` and `webhook_queues_iff` when it executes and when it queues.
-/

namespace AutoHeal.Server

open Audit

variable {F : Type}

/-! ## The gates -/

/-- A request that the middleware let through. `body` is the text of its body, in which
surrogates may stand as they are, `none` if the bytes are no text. -/
structure WebhookRequest where
  apiKey : Str
  body : Option Str
  clientHost : Option Str

/-- A request that passed the gates: its payload as it came and as it was validated, the
role of its key, and the configuration of the action and of the controller. -/
structure Admitted (F : Type) where
  raw : JsonDoc F
  payload : WebhookPayload F
  role : Option Str
  action : ActionConfig F
  name : Str
  controller : Dict F

def Admitted.task (a : Admitted F) : Task F := ⟨a.payload, a.action, some a.name, some a.controller⟩

/-- What the gates come to. A request over a rate limit leaves an audit entry. -/
inductive Gate (F : Type) where
  | refused (response : Response F)
  | limited (response : Response F) (entry : Dict F)
  | admitted (request : Admitted F)

/-- The keys of the rate limiter. -/
def callerKey (apiKey : Str) : Str := py "caller:" ++ apiKey

def actionKey (eventType : Str) : Str := py "action:" ++ eventType

/-- The gates about what a key may do, for an action that is configured. -/
def authorize (site : Site F) (reads : VaultReads) (apiKey : Str) (raw : JsonDoc F)
    (payload : WebhookPayload F) (role : Option Str) (action : ActionConfig F) : Gate F :=
  let controllerName := resolveController payload.controllerOverride action
  if !hasPermission site.auth role (py "execute_actions") then
    .refused (.error 403 (py "Executing actions is not permitted for your role"))
  else if !isActionAllowedForKey (resolveApiKeys site.auth reads.actions) apiKey
      payload.eventType then
    .refused (.error 403 (py "Action '" ++ payload.eventType ++
      py "' is not permitted for your API key"))
  else if overrides payload.controllerOverride &&
      !hasPermission site.auth role (py "controller_override") then
    .refused (.error 403 (py "Controller override not permitted for your role"))
  else
    match controllerName, getControllerConfig site controllerName with
    | some name, some controller =>
      if controller.isEmpty then .refused (.error 400 (py "Unknown controller"))
      else if !isControllerAllowedForKey (resolveApiKeys site.auth reads.controllers) apiKey
          controllerName then
        .refused (.error 403 (py "Controller '" ++ name ++ py "' is not permitted for your API key"))
      else .admitted ⟨raw, payload, role, action, name, controller⟩
    | _, _ => .refused (.error 400 (py "Unknown controller"))

variable [PyRuntime F]

/-- `await request.json()`, `none` being an exception. -/
def requestJson (body : Option Str) : Option (JsonDoc F) :=
  body.bind fun text =>
    match h : (bodyLoads text : Py (PyVal F)) with
    | .error _ => none
    | .ok v => some ⟨v, keyed_of_bodyLoads h⟩

theorem requestJson_of_bodyLoads {text : Str} {doc : JsonDoc F} (h : bodyLoads text = .ok doc.val) :
    requestJson (some text) = some doc := by
  unfold requestJson
  rw [Option.bind_some]
  split
  · next h' =>
    rw [h] at h'
    cases h'
  · next v h' =>
    rw [h, Except.ok.injEq] at h'
    exact congrArg some (Subtype.ext h'.symm)

/-- A printed value is read, if it is within the limits and none of its texts has a pair. -/
theorem requestJson_print {doc : JsonDoc F} (h : JsonValue doc.val) (hfits : Writable doc.val) :
    requestJson (some (print .spaced doc.val)) = some doc :=
  requestJson_of_bodyLoads (bodyLoads_print .spaced h hfits)

theorem requestJson_examplePayload (approvalRequired : Bool) :
    requestJson (some (print .spaced (examplePayload approvalRequired).val)) =
      some (examplePayload approvalRequired) :=
  requestJson_print (jsonValue_payload approvalRequired) rfl

/-- The gates after a payload was validated, and the rate limiter after them. -/
def payloadGate (site : Site F) (reads : VaultReads) (clock : Clock) (hits : Hits) (apiKey : Str)
    (raw : JsonDoc F) (payload : WebhookPayload F) : Hits × Gate F :=
  let role := getRoleFromApiKey (resolveApiKeys site.auth reads.role) apiKey
  let limitEntry := rateLimitBlockAuditEntry payload.eventType apiKey role payload.parameters
  match RateLimiter.check hits (callerKey apiKey) (limitForRole site.limits role) windowSeconds
      clock.caller with
  | (hits, some retryAfter) => (hits, .limited (rateLimitBlockResponse retryAfter) limitEntry)
  | (hits, none) =>
    match (getActionConfig site payload.eventType).filter fun action => !action.isEmpty with
    | none => (hits, .refused (.error 400 (py "Unknown action/event_type")))
    | some action =>
      match RateLimiter.check hits (actionKey payload.eventType)
          (limitForAction site.limits payload.eventType) windowSeconds clock.action with
      | (hits, some retryAfter) => (hits, .limited (rateLimitBlockResponse retryAfter) limitEntry)
      | (hits, none) => (hits, authorize site reads apiKey raw payload role action)

/-- The gates of the handler. -/
def webhookGate [PydanticTypes F] (site : Site F) (reads : VaultReads) (clock : Clock) (hits : Hits)
    (request : WebhookRequest) : Hits × Gate F :=
  match (requestJson request.body : Option (JsonDoc F)) with
  | none => (hits, .refused (.error 400 (py "Malformed JSON payload")))
  | some raw =>
    match webhookPayload raw.val with
    | some payload => payloadGate site reads clock hits request.apiKey raw payload
    | none =>
      -- what is no mapping has no fields to be invalid
      match raw.val with
      | .dict _ => (hits, .refused (.error 400 (py "Invalid payload")))
      | _ => (hits, .refused (.error 400 (py "Malformed JSON payload")))

/-! ## The handler -/

/-- The entry that is queued for approval. -/
def Admitted.entry (a : Admitted F) (id : Uuid) (apiKey : Str) : Approval F where
  id := id
  payload := a.raw
  status := .pending
  result := none
  requestedBy := apiKey
  role := a.role
  controller := a.name
  processed := none

omit [PyRuntime F] in
def pendingBody (id : Uuid) : Dict F :=
  [(.str (py "approval_id"), .str id.val),
    (.str (py "status"), .str (py "pending")),
    (.str (py "detail"), .str (py "Action requires approval before execution."))]

def Admitted.body (a : Admitted F) (result : ExecResult) : Dict F :=
  [(.str (py "action"), .str a.payload.eventType),
    (.str (py "controller"), .str a.name),
    (.str (py "parameters"), .dict a.task.params),
    (.str (py "role"), optStr a.role),
    (.str (py "controller_type"), field (py "type") a.controller),
    (.str (py "execution"), .dict result.asDict),
    (.str (py "dry_run"), optBool a.task.dryRun)]

/-- Queue for approval. -/
def enqueue (env : RequestEnv F) (server : ServerState F) (entry : Approval F) : Outcome F :=
  let saved := saveApprovalQueueLocked (server.queue ++ [entry]) server.stateFile env.saves
  ⟨{ server with queue := saved.1, stateFile := saved.2 }, .ok (.ok (pendingBody entry.id)),
    [.queued entry]⟩

variable [PyDates F]

/-- Execute, after the cooldown check. -/
def webhookExecute (site : Site F) (env : RequestEnv F) (server : ServerState F)
    (request : WebhookRequest) (a : Admitted F) : Outcome F :=
  match a.task.execute env.executor with
  | .error e => ⟨env.meanwhile server, .error e, [a.task.executed]⟩
  | .ok none =>
    ⟨env.meanwhile server, .ok (.error 400 noExecutableError), [a.task.executed]⟩
  | .ok (some result) =>
    let server := env.meanwhile server
    let recorded := { server with
      cooldowns := a.task.record server.cooldowns env.clock.record env.clock.prune }
    (withAudit site env recorded
        (a.task.auditEntry request.apiKey a.role result request.clientHost) fun server =>
      ⟨server, .ok (.ok (a.body result)), [.notified (a.task.notify request.apiKey result)]⟩).after
      (a.task.executed :: a.task.recorded)

/-- Queue or execute what passed the gates. -/
def webhookAdmitted (site : Site F) (env : RequestEnv F) (server : ServerState F)
    (request : WebhookRequest) (a : Admitted F) : Outcome F :=
  if isSet a.payload.approvalRequired then enqueue env server (a.entry env.uuid request.apiKey)
  else
    match a.task.remaining server.cooldowns env.clock.check with
    | some remaining =>
      withAudit site env server (a.task.blockEntry request.apiKey a.role) fun server =>
        ⟨server, .ok (a.task.blockResponse remaining), []⟩
    | none => webhookExecute site env server request a

/-- `webhook`. -/
def webhook [PydanticTypes F] (site : Site F) (env : RequestEnv F) (server : ServerState F)
    (request : WebhookRequest) : Outcome F :=
  let (hits, gate) := webhookGate site env.vault env.clock server.hits request
  let server := { server with hits }
  match gate with
  | .refused response => ⟨server, .ok response, []⟩
  | .limited response entry => withAudit site env server entry fun server => ⟨server, .ok response, []⟩
  | .admitted a => webhookAdmitted site env server request a

/-! ## What passes the gates -/

section Gates

omit [PyRuntime F] [PyDates F]

/-- The key may trigger the action of the payload on the controller it resolves to, which
is configured. -/
structure Authorized (site : Site F) (reads : VaultReads) (apiKey : Str) (role : Option Str)
    (payload : WebhookPayload F) (action : ActionConfig F) (name : Str) (controller : Dict F) :
    Prop where
  execute : hasPermission site.auth role (py "execute_actions") = true
  scope : isActionAllowedForKey (resolveApiKeys site.auth reads.actions) apiKey
    payload.eventType = true
  override : overrides payload.controllerOverride = true →
    hasPermission site.auth role (py "controller_override") = true
  resolved : resolveController payload.controllerOverride action = some name
  known : site.controllers.lookup name = some controller
  nonempty : controller.isEmpty = false
  controllerScope : isControllerAllowedForKey (resolveApiKeys site.auth reads.controllers) apiKey
    (some name) = true

theorem authorize_eq_admitted {site : Site F} {reads : VaultReads} {apiKey : Str} {raw : JsonDoc F}
    {payload : WebhookPayload F} {role : Option Str} {action : ActionConfig F} {a : Admitted F} :
    authorize site reads apiKey raw payload role action = .admitted a ↔
      a.raw = raw ∧ a.payload = payload ∧ a.role = role ∧ a.action = action ∧
        Authorized site reads apiKey role payload action a.name a.controller := by
  unfold authorize
  constructor
  · intro h
    -- the checks in the order the handler makes them, each closed where it fails
    by_cases hexecute : hasPermission site.auth role (py "execute_actions") = true
    swap
    · simp [hexecute] at h
    by_cases hscope : isActionAllowedForKey (resolveApiKeys site.auth reads.actions) apiKey
        payload.eventType = true
    swap
    · simp [hexecute, hscope] at h
    by_cases hoverride : overrides payload.controllerOverride = true →
        hasPermission site.auth role (py "controller_override") = true
    swap
    · simp only [Classical.not_imp, Bool.not_eq_true] at hoverride
      simp [hexecute, hscope, hoverride.1, hoverride.2] at h
    have hpass : (overrides payload.controllerOverride &&
        !hasPermission site.auth role (py "controller_override")) = false := by
      cases ho : overrides payload.controllerOverride with
      | false => rfl
      | true => simp [hoverride ho]
    simp only [hexecute, hscope, hpass, Bool.not_true, Bool.false_eq_true, if_false] at h
    cases hname : resolveController payload.controllerOverride action with
    | none => simp [hname] at h
    | some name =>
      rw [hname] at h
      cases hknown : getControllerConfig site (some name) with
      | none => simp [hknown] at h
      | some controller =>
        simp only [hknown] at h
        split_ifs at h with hempty hcontroller
        cases h
        refine ⟨rfl, rfl, rfl, rfl, hexecute, hscope, hoverride, hname, hknown, ?_, ?_⟩
        · simpa using hempty
        · simpa using hcontroller
  · rcases a with ⟨raw', payload', role', action', name, controller⟩
    rintro ⟨rfl, rfl, rfl, rfl, h⟩
    have hpass : (overrides payload'.controllerOverride &&
        !hasPermission site.auth role' (py "controller_override")) = false := by
      cases ho : overrides payload'.controllerOverride with
      | false => rfl
      | true => simp [h.override ho]
    have hknown : getControllerConfig site (some name) = some controller := h.known
    simp [h.execute, h.scope, hpass, h.resolved, hknown, h.nonempty, h.controllerScope]

theorem callerKey_ne_actionKey (apiKey eventType : Str) : actionKey eventType ≠ callerKey apiKey := by
  have haction : (actionKey eventType).head? = some (cp 'a') := rfl
  have hcaller : (callerKey apiKey).head? = some (cp 'c') := rfl
  intro h
  rw [h, hcaller] at haction
  exact absurd haction (by decide)

theorem payloadGate_eq_admitted {site : Site F} {reads : VaultReads} {clock : Clock} {hits : Hits}
    {apiKey : Str} {raw : JsonDoc F} {payload : WebhookPayload F} {a : Admitted F} :
    (payloadGate site reads clock hits apiKey raw payload).2 = .admitted a ↔
      (a.raw = raw ∧ a.payload = payload) ∧
        a.role = getRoleFromApiKey (resolveApiKeys site.auth reads.role) apiKey ∧
        (RateLimiter.check hits (callerKey apiKey) (limitForRole site.limits a.role) windowSeconds
          clock.caller).2 = none ∧
        (getActionConfig site payload.eventType = some a.action ∧ a.action.isEmpty = false) ∧
        (RateLimiter.check hits (actionKey payload.eventType)
          (limitForAction site.limits payload.eventType) windowSeconds clock.action).2 = none ∧
        Authorized site reads apiKey a.role payload a.action a.name a.controller := by
  unfold payloadGate
  simp only
  generalize hrole : getRoleFromApiKey (resolveApiKeys site.auth reads.role) apiKey = role
  -- the hit counted for the caller is under another key than those of the action
  have hcheck := RateLimiter.check_of_ne (callerKey_ne_actionKey apiKey payload.eventType) hits
    (limitForRole site.limits role) windowSeconds clock.caller
  cases hcaller : RateLimiter.check hits (callerKey apiKey) (limitForRole site.limits role)
      windowSeconds clock.caller with
  | mk hits' retryAfter =>
    rw [hcaller] at hcheck
    cases retryAfter with
    | some retryAfter =>
      refine iff_of_false (by simp) ?_
      rintro ⟨-, rfl, hadmits, -⟩
      rw [hcaller] at hadmits
      cases hadmits
    | none =>
      simp only
      cases haction : (getActionConfig site payload.eventType).filter fun action => !action.isEmpty with
      | none =>
        refine iff_of_false (by simp) ?_
        rintro ⟨-, -, -, ⟨hknown, hnonempty⟩, -⟩
        rw [hknown, Option.filter_some, hnonempty] at haction
        cases haction
      | some action =>
        have hconfig := Option.filter_eq_some_iff.mp haction
        have hlimit := RateLimiter.check_congr hcheck (limitForAction site.limits payload.eventType)
          windowSeconds clock.action
        simp only
        cases hactionCheck : RateLimiter.check hits' (actionKey payload.eventType)
            (limitForAction site.limits payload.eventType) windowSeconds clock.action with
        | mk hits'' retryAfter =>
          rw [hactionCheck] at hlimit
          cases retryAfter with
          | some retryAfter =>
            refine iff_of_false (by simp) ?_
            rintro ⟨-, -, -, -, hadmits, -⟩
            rw [← hlimit] at hadmits
            cases hadmits
          | none =>
            simp only
            rw [authorize_eq_admitted]
            constructor
            · rintro ⟨hraw, hpayload, rfl, rfl, hauth⟩
              refine ⟨⟨hraw, hpayload⟩, rfl, ?_, ⟨hconfig.1, by simpa using hconfig.2⟩, hlimit.symm,
                hauth⟩
              rw [hcaller]
            · rintro ⟨⟨hraw, hpayload⟩, rfl, -, ⟨hknown, -⟩, -, hauth⟩
              have haction' : a.action = action := by
                rw [hconfig.1] at hknown
                exact (Option.some.inj hknown).symm
              exact ⟨hraw, hpayload, rfl, haction', haction' ▸ hauth⟩

end Gates

section Passes

omit [PyDates F]

variable [PydanticTypes F]

/-- The request passes every gate, as `a`. -/
structure Passes (site : Site F) (reads : VaultReads) (clock : Clock) (hits : Hits)
    (request : WebhookRequest) (a : Admitted F) : Prop where
  json : requestJson request.body = some a.raw
  valid : webhookPayload a.raw.val = some a.payload
  role : a.role = getRoleFromApiKey (resolveApiKeys site.auth reads.role) request.apiKey
  caller : (RateLimiter.check hits (callerKey request.apiKey) (limitForRole site.limits a.role)
    windowSeconds clock.caller).2 = none
  known : getActionConfig site a.payload.eventType = some a.action
  nonempty : a.action.isEmpty = false
  limit : (RateLimiter.check hits (actionKey a.payload.eventType)
    (limitForAction site.limits a.payload.eventType) windowSeconds clock.action).2 = none
  authorized : Authorized site reads request.apiKey a.role a.payload a.action a.name a.controller

/-- The gates admit exactly the requests that pass each of them. -/
theorem webhookGate_eq_admitted {site : Site F} {reads : VaultReads} {clock : Clock} {hits : Hits}
    {request : WebhookRequest} {a : Admitted F} :
    (webhookGate site reads clock hits request).2 = .admitted a ↔
      Passes site reads clock hits request a := by
  unfold webhookGate
  cases hjson : (requestJson request.body : Option (JsonDoc F)) with
  | none =>
    refine iff_of_false (by simp) fun h => ?_
    rw [h.json] at hjson
    cases hjson
  | some raw =>
    simp only
    cases hpayload : webhookPayload raw.val with
    -- a body that is JSON but no payload is refused, whatever else it holds
    | none =>
      refine iff_of_false ?_ fun h => ?_
      · simp only
        split <;> simp
      · have hraw : a.raw = raw := Option.some.inj (h.json.symm.trans hjson)
        have hvalid := h.valid
        rw [hraw, hpayload] at hvalid
        cases hvalid
    | some payload =>
      simp only
      rw [payloadGate_eq_admitted]
      constructor
      · rintro ⟨⟨rfl, rfl⟩, hrole, hcaller, ⟨hknown, hnonempty⟩, hlimit, hauth⟩
        exact ⟨hjson, hpayload, hrole, hcaller, hknown, hnonempty, hlimit, hauth⟩
      · intro h
        have hraw : a.raw = raw := Option.some.inj (h.json.symm.trans hjson)
        have hvalid : a.payload = payload := by
          have hvalid := h.valid
          rw [hraw, hpayload] at hvalid
          exact (Option.some.inj hvalid).symm
        subst hvalid
        exact ⟨⟨hraw, rfl⟩, h.role, h.caller, ⟨h.known, h.nonempty⟩, h.limit, h.authorized⟩

end Passes

/-! ## What the handler does -/

section Handler

variable [PydanticTypes F] {site : Site F} {env : RequestEnv F} {server : ServerState F}
  {request : WebhookRequest} {a : Admitted F}

/-- The server once the gates have counted a request. -/
def counted (site : Site F) (env : RequestEnv F) (server : ServerState F)
    (request : WebhookRequest) : ServerState F :=
  { server with hits := (webhookGate site env.vault env.clock server.hits request).1 }

theorem webhook_of_passes (h : Passes site env.vault env.clock server.hits request a) :
    webhook site env server request =
      webhookAdmitted site env (counted site env server request) request a := by
  unfold webhook counted
  rw [← webhookGate_eq_admitted] at h
  cases hgate : webhookGate site env.vault env.clock server.hits request with
  | mk hits gate =>
    rw [hgate] at h
    simp only at h
    subst h
    rfl

/-- A request that is stopped at a gate changes hits and the log at most, and has no
effect but an audit entry. -/
theorem webhook_of_not_passes
    (h : ∀ a, ¬ Passes site env.vault env.clock server.hits request a) :
    (∃ log, (webhook site env server request).server =
        { counted site env server request with log }) ∧
      ∀ effect ∈ (webhook site env server request).effects, ∃ entry, effect = .audited entry := by
  have hgate : ∀ a, (webhookGate site env.vault env.clock server.hits request).2 ≠ .admitted a :=
    fun a ha => h a (webhookGate_eq_admitted.mp ha)
  unfold webhook counted
  revert hgate
  rcases webhookGate site env.vault env.clock server.hits request with ⟨hits, gate⟩
  intro hgate
  cases gate with
  | refused response => exact ⟨⟨server.log, rfl⟩, by rintro effect ⟨⟩⟩
  | limited response entry =>
    refine ⟨withAudit_server site env _ entry _ [], fun effect heffect => ?_⟩
    rcases withAudit_effects site env { server with hits } entry (.ok response) [] with he | he
    · rw [he] at heffect
      exact ⟨entry, List.mem_singleton.mp heffect⟩
    · rw [he] at heffect
      cases heffect
  | admitted a => exact absurd rfl (hgate a)

omit [PydanticTypes F] in
/-- An execution comes first, and no other execution and no queueing after it. -/
theorem webhookExecute_effects : ∃ reports,
    (webhookExecute site env server request a).effects = a.task.executed :: reports ∧
      ∀ effect ∈ reports, effect.isReport = true := by
  unfold webhookExecute
  rcases a.task.execute env.executor with e | _ | result
  · exact ⟨[], rfl, by rintro effect ⟨⟩⟩
  · exact ⟨[], rfl, by rintro effect ⟨⟩⟩
  · refine ⟨_, rfl, fun effect h => ?_⟩
    rcases List.mem_append.mp h with h | h
    · exact a.task.isReport_of_mem_recorded h
    · rcases withAudit_effects site env _ _ _ _ with he | he
      · rw [he] at h
        rcases List.mem_cons.mp h with rfl | h
        · rfl
        · rw [List.mem_singleton.mp h]
          rfl
      · rw [he] at h
        cases h

/-- What passed the gates is executed at once, not queued and not in cooldown. -/
def Admitted.Runs (a : Admitted F) (cooldowns : Cooldowns) (now : ℚ) : Prop :=
  isSet a.payload.approvalRequired = false ∧ a.task.remaining cooldowns now = none

/-- The effects of a request that passes the gates: it is queued, refused by the cooldown
or executed. -/
theorem webhook_effects_of_passes (h : Passes site env.vault env.clock server.hits request a) :
    (isSet a.payload.approvalRequired = true ∧
        (webhook site env server request).effects = [.queued (a.entry env.uuid request.apiKey)]) ∨
      (isSet a.payload.approvalRequired = false ∧
        a.task.remaining server.cooldowns env.clock.check ≠ none ∧
        ∀ effect ∈ (webhook site env server request).effects, effect.isReport = true) ∨
      a.Runs server.cooldowns env.clock.check ∧ ∃ reports,
        (webhook site env server request).effects = a.task.executed :: reports ∧
          ∀ effect ∈ reports, effect.isReport = true := by
  rw [webhook_of_passes h]
  unfold webhookAdmitted
  cases happroval : isSet a.payload.approvalRequired with
  | true => exact Or.inl ⟨rfl, rfl⟩
  | false =>
    refine Or.inr ?_
    have hcooldowns : (counted site env server request).cooldowns = server.cooldowns := rfl
    simp only [Bool.false_eq_true, if_false]
    rw [hcooldowns]
    cases hremaining : a.task.remaining server.cooldowns env.clock.check with
    | none => exact Or.inr ⟨⟨happroval, hremaining⟩, webhookExecute_effects⟩
    | some remaining =>
      refine Or.inl ⟨trivial, by simp, fun effect heffect => ?_⟩
      rcases withAudit_effects site env (counted site env server request)
        (a.task.blockEntry request.apiKey a.role) (.ok (a.task.blockResponse remaining)) [] with he | he
      · rw [he] at heffect
        rw [List.mem_singleton.mp heffect]
        rfl
      · rw [he] at heffect
        cases heffect

/-- What `execute_action` is called with. -/
theorem executed_mem_webhook {action : ActionConfig F} {controller : Option (Dict F)}
    {params : Dict F} {dryRun : Option Bool} :
    .executed action controller params dryRun ∈ (webhook site env server request).effects ↔
      ∃ a, Passes site env.vault env.clock server.hits request a ∧
        a.Runs server.cooldowns env.clock.check ∧
        a.task.executed = .executed action controller params dryRun := by
  constructor
  · intro h
    by_cases hpasses : ∃ a, Passes site env.vault env.clock server.hits request a
    · rcases hpasses with ⟨a, ha⟩
      rcases webhook_effects_of_passes ha with ⟨-, he⟩ | ⟨-, -, he⟩ | ⟨hruns, reports, he, hreports⟩
      · rw [he] at h
        cases List.mem_singleton.mp h
      · cases he _ h
      · rw [he] at h
        rcases List.mem_cons.mp h with h | h
        · exact ⟨a, ha, hruns, h.symm⟩
        · cases hreports _ h
    · rcases (webhook_of_not_passes (not_exists.mp hpasses)).2 _ h with ⟨entry, ⟨⟩⟩
  · rintro ⟨a, ha, hruns, hexecuted⟩
    rcases webhook_effects_of_passes ha with ⟨happroval, -⟩ | ⟨-, hremaining, -⟩ | ⟨-, reports, he, -⟩
    · rw [hruns.1] at happroval
      cases happroval
    · exact absurd hruns.2 hremaining
    · rw [he, hexecuted]
      exact List.mem_cons_self

/-- What is queued. -/
theorem queued_mem_webhook {entry : Approval F} :
    .queued entry ∈ (webhook site env server request).effects ↔
      ∃ a, Passes site env.vault env.clock server.hits request a ∧
        isSet a.payload.approvalRequired = true ∧ entry = a.entry env.uuid request.apiKey := by
  constructor
  · intro h
    by_cases hpasses : ∃ a, Passes site env.vault env.clock server.hits request a
    · rcases hpasses with ⟨a, ha⟩
      rcases webhook_effects_of_passes ha with ⟨happroval, he⟩ | ⟨-, -, he⟩ | ⟨-, reports, he, hreports⟩
      · rw [he] at h
        exact ⟨a, ha, happroval, Effect.queued.inj (List.mem_singleton.mp h)⟩
      · cases he _ h
      · rw [he] at h
        rcases List.mem_cons.mp h with h | h
        · cases h
        · cases hreports _ h
    · rcases (webhook_of_not_passes (not_exists.mp hpasses)).2 _ h with ⟨entry, ⟨⟩⟩
  · rintro ⟨a, ha, happroval, rfl⟩
    rcases webhook_effects_of_passes ha with ⟨-, he⟩ | ⟨hdirect, -⟩ | ⟨⟨hdirect, -⟩, -⟩
    · rw [he]
      exact List.mem_cons_self
    · rw [happroval] at hdirect
      cases hdirect
    · rw [happroval] at hdirect
      cases hdirect

/-- A request that neither executes nor queues leaves the queue, its file and the
cooldowns as they are. -/
theorem webhook_unchanged (hexecutes : ¬ (webhook site env server request).Executes)
    (hqueues : ¬ (webhook site env server request).Queues) :
    (webhook site env server request).server.queue = server.queue ∧
      (webhook site env server request).server.stateFile = server.stateFile ∧
      (webhook site env server request).server.cooldowns = server.cooldowns := by
  by_cases hpasses : ∃ a, Passes site env.vault env.clock server.hits request a
  · rcases hpasses with ⟨a, ha⟩
    have happroval : isSet a.payload.approvalRequired = false := by
      rw [← Bool.not_eq_true]
      intro h
      exact hqueues ⟨_, queued_mem_webhook.mpr ⟨a, ha, h, rfl⟩⟩
    rw [webhook_of_passes ha]
    unfold webhookAdmitted
    rw [happroval]
    cases hremaining : a.task.remaining (counted site env server request).cooldowns
        env.clock.check with
    | none =>
      exact absurd ⟨_, _, _, _, executed_mem_webhook.mpr ⟨a, ha, ⟨happroval, hremaining⟩, rfl⟩⟩ hexecutes
    | some remaining =>
      simp only [Bool.false_eq_true, if_false]
      rcases withAudit_server site env (counted site env server request)
        (a.task.blockEntry request.apiKey a.role) (.ok (a.task.blockResponse remaining)) [] with ⟨log, hlog⟩
      rw [hlog]
      exact ⟨rfl, rfl, rfl⟩
  · rcases (webhook_of_not_passes (not_exists.mp hpasses)).1 with ⟨log, hlog⟩
    rw [hlog]
    exact ⟨rfl, rfl, rfl⟩

/-- What is queued stands at the end of the queue, and the cooldowns stay. -/
theorem webhook_queued {entry : Approval F}
    (h : .queued entry ∈ (webhook site env server request).effects) :
    (webhook site env server request).server.queue = pruneQueue (server.queue ++ [entry]) ∧
      (webhook site env server request).server.cooldowns = server.cooldowns := by
  rcases queued_mem_webhook.mp h with ⟨a, ha, happroval, rfl⟩
  rw [webhook_of_passes ha, webhookAdmitted, if_pos happroval]
  exact ⟨rfl, rfl⟩

end Handler

end AutoHeal.Server
