import AutoHeal.Server.Approve

/-!
# Who may execute what

When `/webhook` executes or queues (`webhook_mediates`), what the scope of a key is worth
when reads of Vault fail (`scope_respected_iff`), and when an approval would still be
granted to its requester (`approve_reauthorizes_iff`).
-/

namespace AutoHeal.Server

variable {F : Type} [PyRuntime F] [PyDates F] [PydanticTypes F] {site : Site F}
  {env : RequestEnv F} {server : ServerState F}

/-! ## Complete mediation -/

/-- `/webhook` executes exactly the requests that pass every gate, ask for no approval and
do not wait for a cooldown, it queues exactly those that pass every gate and ask for an
approval, and every other request leaves the queue and the cooldowns unchanged. -/
theorem webhook_mediates (site : Site F) (env : RequestEnv F) (server : ServerState F)
    (request : WebhookRequest) :
    ((webhook site env server request).Executes ↔
      ∃ a, Passes site env.vault env.clock server.hits request a ∧
        isSet a.payload.approvalRequired = false ∧
        (isSet a.payload.dryRun = true ∨ a.task.cooldownSeconds = 0 ∨
          secondsRemaining server.cooldowns a.task.cooldownKey a.task.cooldownSeconds
            env.clock.check = none)) ∧
    ((webhook site env server request).Queues ↔
      ∃ a, Passes site env.vault env.clock server.hits request a ∧
        isSet a.payload.approvalRequired = true) ∧
    (¬ (webhook site env server request).Executes → ¬ (webhook site env server request).Queues →
      (webhook site env server request).server.queue = server.queue ∧
        (webhook site env server request).server.cooldowns = server.cooldowns) := by
  refine ⟨?_, ?_, fun hexecutes hqueues => ?_⟩
  · constructor
    -- an execution is the effect of one admitted request
    · rintro ⟨action, controller, params, dryRun, h⟩
      rcases executed_mem_webhook.mp h with ⟨a, ha, ⟨hdirect, hremaining⟩, -⟩
      exact ⟨a, ha, hdirect, Task.remaining_eq_none.mp hremaining⟩
    · rintro ⟨a, ha, hdirect, hfree⟩
      have hruns : a.Runs server.cooldowns env.clock.check :=
        ⟨hdirect, Task.remaining_eq_none.mpr hfree⟩
      exact ⟨_, _, _, _, executed_mem_webhook.mpr ⟨a, ha, hruns, rfl⟩⟩
  · constructor
    · rintro ⟨entry, h⟩
      rcases queued_mem_webhook.mp h with ⟨a, ha, happroval, -⟩
      exact ⟨a, ha, happroval⟩
    · rintro ⟨a, ha, happroval⟩
      exact ⟨_, queued_mem_webhook.mpr ⟨a, ha, happroval, rfl⟩⟩
  · have hsame := webhook_unchanged hexecutes hqueues
    exact ⟨hsame.1, hsame.2.2⟩

theorem webhookPayload_examplePayload (approvalRequired : Bool) :
    webhookPayload (examplePayload approvalRequired).val =
      some ⟨py "check", none, some [], some false, some approvalRequired⟩ := rfl

/-- A request for a controller that is configured as an empty mapping: everything is
allowed, and it is refused as unknown. -/
theorem webhook_refuses_empty_controller :
    let site := exampleSite (.literal exampleKeys) exampleAction [(py "local", [])]
    let env := exampleRequestEnv (.steady exampleKeys)
    let server := exampleServer []
    let request : WebhookRequest :=
      ⟨py "operator-key", some (print .spaced (examplePayload false).val), none⟩
    ∃ payload : WebhookPayload NanFloat,
      (requestJson request.body).bind (fun raw => webhookPayload raw.val) = some payload ∧
      (RateLimiter.check server.hits (callerKey request.apiKey)
        (limitForRole site.limits (some (py "operator"))) windowSeconds env.clock.caller).2 = none ∧
      (RateLimiter.check server.hits (actionKey payload.eventType)
        (limitForAction site.limits payload.eventType) windowSeconds env.clock.action).2 = none ∧
      getActionConfig site payload.eventType = some exampleAction ∧
      getRoleFromApiKey exampleKeys request.apiKey = some (py "operator") ∧
      hasPermission site.auth (some (py "operator")) (py "execute_actions") = true ∧
      isActionAllowedForKey exampleKeys request.apiKey payload.eventType = true ∧
      overrides payload.controllerOverride = false ∧
      getControllerConfig site (resolveController payload.controllerOverride exampleAction) =
        some [] ∧
      isControllerAllowedForKey exampleKeys request.apiKey
        (resolveController payload.controllerOverride exampleAction) = true ∧
      isSet payload.approvalRequired = false ∧ exampleAction.cooldownSeconds = none ∧
      ¬ (webhook site env server request).Executes ∧ ¬ (webhook site env server request).Queues := by
  have hjson := requestJson_examplePayload false
  -- what would pass has the empty mapping for a controller, which counts as no configuration
  have hstopped : ∀ a, ¬ Passes (exampleSite (.literal exampleKeys) exampleAction [(py "local", [])])
      (.steady exampleKeys) (exampleRequestEnv (.steady exampleKeys)).clock (exampleServer []).hits
      ⟨py "operator-key", some (print .spaced (examplePayload false).val), none⟩ a := by
    intro a h
    have hraw : a.raw = examplePayload false := Option.some.inj (h.json.symm.trans hjson)
    have hvalid := h.valid
    rw [hraw, webhookPayload_examplePayload] at hvalid
    have hpayload := (Option.some.inj hvalid).symm
    have haction : a.action = exampleAction := by
      have hknown := h.known
      rw [hpayload] at hknown
      exact (Option.some.inj hknown).symm
    have hname : a.name = py "local" := by
      have hresolved := h.authorized.resolved
      rw [hpayload, haction] at hresolved
      exact (Option.some.inj hresolved).symm
    have hcontroller : a.controller = [] := by
      have hknown := h.authorized.known
      rw [hname] at hknown
      exact (Option.some.inj hknown).symm
    have hnonempty := h.authorized.nonempty
    rw [hcontroller] at hnonempty
    cases hnonempty
  refine ⟨⟨py "check", none, some [], some false, some false⟩, ?_, rfl, rfl, rfl, rfl, rfl, rfl, rfl, rfl,
    rfl, rfl, rfl, ?_, ?_⟩
  · rw [hjson]
    rfl
  · rintro ⟨action, controller, params, dryRun, h⟩
    rcases executed_mem_webhook.mp h with ⟨a, ha, -⟩
    exact hstopped a ha
  · rintro ⟨entry, h⟩
    rcases queued_mem_webhook.mp h with ⟨a, ha, -⟩
    exact hstopped a ha

/-! ## Scopes, with keys in Vault -/

section Scope

/-- The reads of one request, each of which finds the secret or fails. -/
def VaultReads.pattern (secret : KeyMap) (middleware role actions controllers : Bool) :
    VaultReads where
  middleware := if middleware then some secret else none
  role := if role then some secret else none
  actions := if actions then some secret else none
  controllers := if controllers then some secret else none

/-- The reads, had those of the scope failed. -/
def VaultReads.unscoped (reads : VaultReads) : VaultReads :=
  { reads with actions := none, controllers := none }

/-- The scope of a key permits an action on a controller. -/
def permits (keys : KeyMap) (apiKey eventType : Str) (controllerName : Option Str) : Bool :=
  isActionAllowedForKey keys apiKey eventType && isControllerAllowedForKey keys apiKey controllerName

/-- The scope permits the action on the controller, or a read that succeeds finds that it
does not. -/
def ScopeKnown (secret : KeyMap) (reads : VaultReads) (apiKey eventType : Str)
    (controllerName : Option Str) : Prop :=
  permits secret apiKey eventType controllerName = true ∨
    reads.actions.isSome = true ∧ isActionAllowedForKey secret apiKey eventType = false ∨
    reads.controllers.isSome = true ∧
      isControllerAllowedForKey secret apiKey controllerName = false

/-- The two reads of the scope let an action on a controller pass. -/
def ScopeReads (reads : VaultReads) (apiKey eventType : Str) (controllerName : Option Str) : Prop :=
  isActionAllowedForKey (reads.actions.getD []) apiKey eventType = true ∧
    isControllerAllowedForKey (reads.controllers.getD []) apiKey controllerName = true

/-- A read that fails restricts nothing. -/
theorem scopeReads_unscoped (reads : VaultReads) (apiKey eventType : Str)
    (controllerName : Option Str) : ScopeReads reads.unscoped apiKey eventType controllerName :=
  ⟨isActionAllowedForKey_of_lookup rfl eventType,
    isControllerAllowedForKey_of_lookup rfl controllerName⟩

/-- What the reads let pass is permitted exactly when they know the scope or stop it. -/
theorem permits_of_scopeReads_iff {secret : KeyMap} {middleware role actions controllers : Bool}
    {reads : VaultReads} (hreads : reads = .pattern secret middleware role actions controllers)
    (apiKey eventType : Str) (controllerName : Option Str) :
    (ScopeReads reads apiKey eventType controllerName →
        permits secret apiKey eventType controllerName = true) ↔
      ScopeKnown secret reads apiKey eventType controllerName := by
  have haction : isActionAllowedForKey [] apiKey eventType = true :=
    isActionAllowedForKey_of_lookup rfl eventType
  have hcontroller : isControllerAllowedForKey [] apiKey controllerName = true :=
    isControllerAllowedForKey_of_lookup rfl controllerName
  rw [hreads]
  unfold ScopeReads ScopeKnown permits VaultReads.pattern
  cases actions <;> cases controllers <;>
    cases hallowed : isActionAllowedForKey secret apiKey eventType <;>
    cases hallowed' : isControllerAllowedForKey secret apiKey controllerName <;>
    simp [haction, hcontroller, hallowed, hallowed']

omit [PyDates F] in
theorem passes_iff_scopeReads (hvault : site.auth.apiKeys = .vault) {reads : VaultReads}
    {clock : Clock} {hits : Hits} {request : WebhookRequest} {a : Admitted F} :
    Passes site reads clock hits request a ↔
      Passes site reads.unscoped clock hits request a ∧
        ScopeReads reads request.apiKey a.payload.eventType (some a.name) := by
  have hresolve : ∀ read, resolveApiKeys site.auth read = read.getD [] := by
    intro read
    unfold resolveApiKeys
    rw [hvault]
  have hunscoped := scopeReads_unscoped reads request.apiKey a.payload.eventType (some a.name)
  constructor
  · rintro ⟨hjson, hvalid, hrole, hcaller, hknown, hnonempty, hlimit, hauth⟩
    refine ⟨⟨hjson, hvalid, hrole, hcaller, hknown, hnonempty, hlimit, ?_⟩, ?_, ?_⟩
    · exact { hauth with
        scope := by rw [hresolve]; exact hunscoped.1
        controllerScope := by rw [hresolve]; exact hunscoped.2 }
    · rw [← hresolve]
      exact hauth.scope
    · rw [← hresolve]
      exact hauth.controllerScope
  · rintro ⟨⟨hjson, hvalid, hrole, hcaller, hknown, hnonempty, hlimit, hauth⟩, hscope, hcontroller⟩
    refine ⟨hjson, hvalid, hrole, hcaller, hknown, hnonempty, hlimit, ?_⟩
    exact { hauth with
      scope := by rw [hresolve]; exact hscope
      controllerScope := by rw [hresolve]; exact hcontroller }

omit [PyDates F] in
theorem claims_iff_scopeReads (hvault : site.auth.apiKeys = .vault) {reads : VaultReads}
    {cooldowns : Cooldowns} {now : ℚ} {e : Approval F} {task : Task F} :
    Claims site reads cooldowns now e task ↔
      Claims site reads.unscoped cooldowns now e task ∧
        ScopeReads reads e.requestedBy task.payload.eventType task.controllerName := by
  have hresolve : ∀ read, resolveApiKeys site.auth read = read.getD [] := by
    intro read
    unfold resolveApiKeys
    rw [hvault]
  have hpermitted : ∀ reads', requesterPermitted site reads' e task.payload.eventType
      task.controllerName = true ↔ hasPermission site.auth e.role (py "execute_actions") = true ∧
        ScopeReads reads' e.requestedBy task.payload.eventType task.controllerName := by
    intro reads'
    unfold requesterPermitted ScopeReads
    rw [hresolve, hresolve, Bool.and_eq_true, Bool.and_eq_true, and_assoc]
  have hunscoped := scopeReads_unscoped reads e.requestedBy task.payload.eventType task.controllerName
  constructor
  · intro h
    have hscope := (hpermitted reads).mp h.permitted
    exact ⟨{ h with permitted := (hpermitted _).mpr ⟨hscope.1, hunscoped⟩ }, hscope.2⟩
  · rintro ⟨h, hscope⟩
    exact { h with permitted := (hpermitted _).mpr ⟨((hpermitted _).mp h.permitted).1, hscope⟩ }

/-- A request that leads to an execution or to a queued entry is permitted by the scope
that the secret gives its key. -/
def WebhookScoped (site : Site F) (env : RequestEnv F) (server : ServerState F)
    (request : WebhookRequest) (secret : KeyMap) : Prop :=
  ∀ (raw : JsonDoc F) payload action, requestJson request.body = some raw →
    webhookPayload raw.val = some payload → getActionConfig site payload.eventType = some action →
    (webhook site env server request).Executes ∨ (webhook site env server request).Queues →
    permits secret request.apiKey payload.eventType
      (resolveController payload.controllerOverride action) = true

/-- An approval that executes an entry is permitted by the scope that the secret gives
its requester. -/
def ApproveScoped (site : Site F) (env : RequestEnv F) (server : ServerState F)
    (apiKey approvalId : Str) (secret : KeyMap) : Prop :=
  ∀ e payload action, findEntry server.queue approvalId = some e →
    webhookPayload e.payload.val = some payload →
    getActionConfig site payload.eventType = some action →
    (approve site env server apiKey approvalId).1.Executes →
    permits secret e.requestedBy payload.eventType
      (resolveController payload.controllerOverride action) = true

/-- What `/webhook` admits without its scope, and goes on with, needs the scope to be known. -/
theorem webhookScoped_iff (hvault : site.auth.apiKeys = .vault) {secret : KeyMap}
    (hknown : ∀ apiKey eventType controller, (ScopeReads env.vault apiKey eventType controller →
      permits secret apiKey eventType controller = true) ↔
        ScopeKnown secret env.vault apiKey eventType controller)
    (request : WebhookRequest) :
    WebhookScoped site env server request secret ↔
      ∀ a, Passes site env.vault.unscoped env.clock server.hits request a →
        (isSet a.payload.approvalRequired = true ∨
          a.task.remaining server.cooldowns env.clock.check = none) →
        ScopeKnown secret env.vault request.apiKey a.payload.eventType (some a.name) := by
  constructor
  · intro h a hpasses hgoes
    rw [← hknown]
    intro hscope
    have ha := (passes_iff_scopeReads hvault).mpr ⟨hpasses, hscope⟩
    have hleads : (webhook site env server request).Executes ∨
        (webhook site env server request).Queues := by
      cases happroval : isSet a.payload.approvalRequired with
      | true => exact Or.inr ⟨_, queued_mem_webhook.mpr ⟨a, ha, happroval, rfl⟩⟩
      | false =>
        rw [happroval] at hgoes
        have hfree := hgoes.resolve_left Bool.false_ne_true
        exact Or.inl ⟨_, _, _, _, executed_mem_webhook.mpr ⟨a, ha, ⟨happroval, hfree⟩, rfl⟩⟩
    have hpermits := h a.raw a.payload a.action ha.json ha.valid ha.known hleads
    rwa [ha.authorized.resolved] at hpermits
  · intro h raw payload action hjson hvalid haction hleads
    -- an effect tells what was admitted, and that it went on
    have hpasses : ∃ a, Passes site env.vault env.clock server.hits request a ∧
        (isSet a.payload.approvalRequired = true ∨
          a.task.remaining server.cooldowns env.clock.check = none) := by
      rcases hleads with ⟨_, _, _, _, hexecuted⟩ | ⟨entry, hqueued⟩
      · rcases executed_mem_webhook.mp hexecuted with ⟨a, ha, hruns, -⟩
        exact ⟨a, ha, Or.inr hruns.2⟩
      · rcases queued_mem_webhook.mp hqueued with ⟨a, ha, happroval, -⟩
        exact ⟨a, ha, Or.inl happroval⟩
    rcases hpasses with ⟨a, ha, hgoes⟩
    rcases (passes_iff_scopeReads hvault).mp ha with ⟨hunscoped, hscope⟩
    have hpermits := (hknown _ _ _).mpr (h a hunscoped hgoes) hscope
    have hraw : a.raw = raw := Option.some.inj (ha.json.symm.trans hjson)
    have hpayload : a.payload = payload := by
      have hvalid' := ha.valid
      rw [hraw, hvalid] at hvalid'
      exact (Option.some.inj hvalid').symm
    have hconfig : a.action = action := by
      have haction' := ha.known
      rw [hpayload, haction] at haction'
      exact (Option.some.inj haction').symm
    rw [← hpayload, ← hconfig, ha.authorized.resolved]
    exact hpermits

/-- What an approval claims without the scope of the requester needs it to be known. -/
theorem approveScoped_iff (hvault : site.auth.apiKeys = .vault) {secret : KeyMap}
    (hknown : ∀ apiKey eventType controller, (ScopeReads env.vault apiKey eventType controller →
      permits secret apiKey eventType controller = true) ↔
        ScopeKnown secret env.vault apiKey eventType controller)
    (apiKey approvalId : Str) :
    ApproveScoped site env server apiKey approvalId secret ↔
      ∀ e task, Approvable site env server apiKey approvalId e →
        Claims site env.vault.unscoped server.cooldowns env.clock.check e task →
        ScopeKnown secret env.vault e.requestedBy task.payload.eventType task.controllerName := by
  constructor
  · intro h e task happrovable hclaims
    rw [← hknown]
    intro hscope
    have ht := (claims_iff_scopeReads hvault).mpr ⟨hclaims, hscope⟩
    have hpermits := h e task.payload task.action happrovable.found ht.valid ht.known
      ⟨_, _, _, _, executed_mem_approve.mpr ⟨e, task, happrovable, ht, rfl⟩⟩
    rwa [← ht.resolved] at hpermits
  · rintro h e payload action hfound hvalid haction ⟨_, _, _, _, hexecuted⟩
    rcases executed_mem_approve.mp hexecuted with ⟨e', task, happrovable, ht, -⟩
    have hentry : e' = e := Option.some.inj (happrovable.found.symm.trans hfound)
    subst hentry
    rcases (claims_iff_scopeReads hvault).mp ht with ⟨hunscoped, hscope⟩
    have hpermits := (hknown _ _ _).mpr (h e' task happrovable hunscoped) hscope
    rcases ht.payload_action hvalid haction with ⟨rfl, rfl⟩
    rw [← ht.resolved]
    exact hpermits

/-- A request is held to the scope of its key, for every pattern of reads that succeed,
exactly when the scope permits it, a successful read of the scope stops it, or it is
stopped elsewhere. -/
theorem scope_respected_iff (hvault : site.auth.apiKeys = .vault) (secret : KeyMap)
    (middleware role actions controllers : Bool)
    (hreads : env.vault = .pattern secret middleware role actions controllers)
    (request : WebhookRequest) (apiKey approvalId : Str) :
    (WebhookScoped site env server request secret ↔
      ∀ a, Passes site env.vault.unscoped env.clock server.hits request a →
        (isSet a.payload.approvalRequired = true ∨
          a.task.remaining server.cooldowns env.clock.check = none) →
        ScopeKnown secret env.vault request.apiKey a.payload.eventType (some a.name)) ∧
    (ApproveScoped site env server apiKey approvalId secret ↔
      ∀ e task, Approvable site env server apiKey approvalId e →
        Claims site env.vault.unscoped server.cooldowns env.clock.check e task →
        ScopeKnown secret env.vault e.requestedBy task.payload.eventType task.controllerName) := by
  have hknown := permits_of_scopeReads_iff hreads
  constructor
  · exact webhookScoped_iff hvault hknown request
  · exact approveScoped_iff hvault hknown apiKey approvalId

end Scope

/-- The secret of the examples: a key that may trigger no action. -/
def exampleSecret : KeyMap := [(py "ci-key", .scoped (some (py "operator")) (some []) none)]

/-- Where only the read of its controllers fails, `ci-key` is held to its scope. -/
theorem scope_respected_answered :
    WebhookScoped (exampleSite .vault exampleAction [(py "local", exampleController)])
        (exampleRequestEnv (.pattern exampleSecret true true true false)) (exampleServer [])
        ⟨py "ci-key", some (print .spaced (examplePayload false).val), none⟩ exampleSecret ∧
      ApproveScoped (exampleSite .vault exampleAction [(py "local", exampleController)])
        (exampleRequestEnv (.pattern exampleSecret true true true false))
        (exampleServer [{ exampleEntry with requestedBy := py "ci-key" }]) (py "admin-key")
        exampleEntry.id.val exampleSecret := by
  have hknown : ∀ apiKey, apiKey = py "ci-key" → ∀ eventType controllerName, ScopeKnown exampleSecret
      (.pattern exampleSecret true true true false) apiKey eventType controllerName := by
    rintro apiKey rfl eventType controllerName
    exact Or.inr (Or.inl ⟨rfl, rfl⟩)
  constructor
  · exact (scope_respected_iff rfl exampleSecret true true true false rfl _ (py "ci-key") []).1.mpr
      fun _ _ _ => hknown _ rfl _ _
  · refine (scope_respected_iff rfl exampleSecret true true true false rfl
      ⟨py "ci-key", none, none⟩ (py "admin-key") exampleEntry.id.val).2.mpr fun e task happrovable _ => ?_
    have hentry : e = { exampleEntry with requestedBy := py "ci-key" } :=
      (Option.some.inj happrovable.found).symm
    exact hknown _ (by rw [hentry]) _ _

/-- `ci-key` may trigger no action, and triggers one when the read of its actions fails. -/
theorem webhook_ignores_scope_after_failed_read :
    (webhook (exampleSite .vault exampleAction [(py "local", exampleController)])
      (exampleRequestEnv (.pattern exampleSecret true true false true)) (exampleServer [])
      ⟨py "ci-key", some (print .spaced (examplePayload false).val), none⟩).Executes ∧
    permits exampleSecret (py "ci-key") (py "check") (some (py "local")) = false := by
  refine ⟨?_, rfl⟩
  let a : Admitted NanFloat := ⟨examplePayload false, ⟨py "check", none, some [], some false, some false⟩,
    some (py "operator"), exampleAction, py "local", exampleController⟩
  have hpasses : Passes (exampleSite .vault exampleAction [(py "local", exampleController)])
      (.pattern exampleSecret true true false true)
      (exampleRequestEnv (.pattern exampleSecret true true false true)).clock (exampleServer []).hits
      ⟨py "ci-key", some (print .spaced (examplePayload false).val), none⟩ a :=
    ⟨requestJson_examplePayload _, rfl, rfl, rfl, rfl, rfl, rfl, rfl, rfl, by simp [a, overrides], rfl, rfl, rfl,
      rfl⟩
  have hruns : a.Runs (exampleServer []).cooldowns 0 :=
    ⟨rfl, Task.remaining_eq_none.mpr (Or.inr (Or.inl rfl))⟩
  exact ⟨_, _, _, _, executed_mem_webhook.mpr ⟨a, hpasses, hruns, rfl⟩⟩

/-! ## Re-authorization -/

section Reauthorize

/-- The gates of `/webhook` that the requester of an entry passes, with the keys there are
now. -/
structure RequesterPasses (site : Site F) (keys : KeyMap) (e : Approval F)
    (payload : WebhookPayload F) (controllerName : Option Str) : Prop where
  configured : (keys.lookup e.requestedBy).isSome = true
  execute : hasPermission site.auth (getRoleFromApiKey keys e.requestedBy)
    (py "execute_actions") = true
  scope : isActionAllowedForKey keys e.requestedBy payload.eventType = true
  controllerScope : isControllerAllowedForKey keys e.requestedBy controllerName = true
  override : overrides payload.controllerOverride = true →
    hasPermission site.auth (getRoleFromApiKey keys e.requestedBy) (py "controller_override") = true

/-- An approval executes an entry only if its requester would pass the gates now. -/
def Reauthorizes (site : Site F) (env : RequestEnv F) (server : ServerState F)
    (apiKey approvalId : Str) (keys : KeyMap) : Prop :=
  ∀ e payload action, findEntry server.queue approvalId = some e →
    webhookPayload e.payload.val = some payload →
    getActionConfig site payload.eventType = some action →
    (approve site env server apiKey approvalId).1.Executes →
    RequesterPasses site keys e payload (resolveController payload.controllerOverride action)

/-- The role that the key of the requester has now may do what the entry asks for. -/
def RoleKept (site : Site F) (keys : KeyMap) (e : Approval F) (payload : WebhookPayload F) : Prop :=
  hasPermission site.auth (getRoleFromApiKey keys e.requestedBy) (py "execute_actions") = true ∧
    (overrides payload.controllerOverride = true →
      hasPermission site.auth (getRoleFromApiKey keys e.requestedBy) (py "controller_override") = true)

/-- An approval re-authorizes the requester exactly when it executes nothing or the key of
the requester still has a role that may execute, and override where that is asked for:
the role in the entry is checked instead. -/
theorem approve_reauthorizes_iff (secret : KeyMap) (hvault : env.vault = .steady secret)
    (apiKey approvalId : Str) :
    Reauthorizes site env server apiKey approvalId (resolveApiKeys site.auth (some secret)) ↔
      ∀ e task, Approvable site env server apiKey approvalId e →
        Claims site env.vault server.cooldowns env.clock.check e task →
        RoleKept site (resolveApiKeys site.auth (some secret)) e task.payload := by
  constructor
  · intro h e task happrovable hclaims
    have hpasses := h e task.payload task.action happrovable.found hclaims.valid hclaims.known
      ⟨_, _, _, _, executed_mem_approve.mpr ⟨e, task, happrovable, hclaims, rfl⟩⟩
    exact ⟨hpasses.execute, hpasses.override⟩
  · rintro h e payload action hfound hvalid haction ⟨_, _, _, _, hexecuted⟩
    rcases executed_mem_approve.mp hexecuted with ⟨e', task, happrovable, hclaims, -⟩
    have hentry : e' = e := Option.some.inj (happrovable.found.symm.trans hfound)
    subst hentry
    rcases hclaims.payload_action hvalid haction with ⟨rfl, rfl⟩
    have hkept := h e' task happrovable hclaims
    have hpermitted := hclaims.permitted
    unfold requesterPermitted at hpermitted
    rw [hvault, Bool.and_eq_true, Bool.and_eq_true] at hpermitted
    rcases hpermitted with ⟨⟨-, hscope⟩, hcontroller⟩
    rw [← hclaims.resolved]
    exact ⟨exists_lookup_of_hasPermission hkept.1, hkept.1, hscope, hcontroller, hkept.2⟩

end Reauthorize

/-- The requester of the example has kept its key. -/
theorem approve_reauthorizes_operator :
    Reauthorizes (exampleSite (.literal exampleKeys) exampleAction [(py "local", exampleController)])
      (exampleRequestEnv (.steady [])) (exampleServer [exampleEntry]) (py "admin-key")
      exampleEntry.id.val exampleKeys := by
  refine (approve_reauthorizes_iff [] rfl _ _).mpr fun e task happrovable hclaims => ?_
  have hentry : e = exampleEntry := (Option.some.inj happrovable.found).symm
  subst hentry
  have hpayload := Option.some.inj (hclaims.valid.symm.trans (webhookPayload_examplePayload true))
  rw [hpayload]
  exact ⟨rfl, by simp [overrides]⟩

/-- The key of the requester was deleted while the entry was pending, and the entry is
executed all the same. -/
theorem approve_executes_for_deleted_key :
    let keys : KeyMap := [(py "admin-key", .role (py "admin"))]
    (approve (exampleSite (.literal keys) exampleAction [(py "local", exampleController)])
      (exampleRequestEnv (.steady [])) (exampleServer [exampleEntry]) (py "admin-key")
      exampleEntry.id.val).1.Executes ∧
    exampleEntry.status = .pending ∧ keys.lookup exampleEntry.requestedBy = none := by
  refine ⟨?_, rfl, rfl⟩
  let task : Task NanFloat := ⟨⟨py "check", none, some [], some false, some true⟩, exampleAction,
    some (py "local"), some exampleController⟩
  have happrovable : Approvable (exampleSite (.literal [(py "admin-key", .role (py "admin"))])
      exampleAction [(py "local", exampleController)]) (exampleRequestEnv (.steady []))
      (exampleServer [exampleEntry]) (py "admin-key") exampleEntry.id.val exampleEntry :=
    ⟨rfl, rfl, rfl, by decide⟩
  have hclaims : Claims (exampleSite (.literal [(py "admin-key", .role (py "admin"))])
      exampleAction [(py "local", exampleController)]) (.steady [])
      (exampleServer [exampleEntry]).cooldowns 0 exampleEntry task :=
    ⟨rfl, rfl, rfl, rfl, rfl, Task.remaining_eq_none.mpr (Or.inr (Or.inl rfl))⟩
  exact ⟨_, _, _, _, executed_mem_approve.mpr ⟨exampleEntry, task, happrovable, hclaims, rfl⟩⟩

end AutoHeal.Server
