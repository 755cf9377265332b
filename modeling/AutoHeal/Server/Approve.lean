import AutoHeal.Server.Webhook

/-!
# Approving and rejecting

`approve_approval` and `reject_approval`. Each looks an entry up, and what an approval
goes on to is the `Review` of that entry: its payload is validated again, its requester
is checked again, and its cooldown is checked. The entry is claimed before it is
executed and gets its result afterwards. `executed_mem_approve` says when an approval
executes.
-/

namespace AutoHeal.Server

open Audit

variable {F : Type}

/-! ## Entries -/

/-- The entry, approved by a key with a role. -/
def Approval.claim (e : Approval F) (apiKey : Str) (role : Option Str) : Approval F :=
  { e with status := .approved, processed := some (apiKey, role) }

/-- The entry, rejected for a reason. -/
def Approval.fail (e : Approval F) (reason : Str) : Approval F :=
  { e with status := .rejected, result := some (errorResult reason) }

/-- The entry with the result of its execution. -/
def Approval.finish (e : Approval F) (result : ExecResult) : Approval F :=
  { e with result := some result.asDict }

def lostReason : Str := py "Requester is no longer permitted to execute this action/controller"

/-- What stops an approval or a rejection before the entry is looked at: it is unknown,
processed, or the request of the same key. -/
inductive Lookup (F : Type) where
  | refused (response : Response F)
  | found (entry : Approval F)

/-- The first lines of both locked sections, `act` being what is done with an entry. -/
def lookupPending (queue : List (Approval F)) (apiKey approvalId act : Str) : Lookup F :=
  match findEntry queue approvalId with
  | none => .refused (.error 404 (py "Approval not found"))
  | some e =>
    if e.status ≠ .pending then .refused (.error 400 (py "Already " ++ e.status.text))
    else if e.requestedBy = apiKey then
      .refused (.error 403 (py "You cannot " ++ act ++ py " your own request"))
    else .found e

/-! ## Reviewing an entry -/

/-- What the first locked section of an approval comes to for a pending entry. -/
inductive Review (F : Type) where
  | raised (error : PyErr)
  | lost
  | cooling (task : Task F) (remaining : ℚ)
  | claimed (task : Task F)

/-- The requester, with the role in the entry and the scope its key has now, may execute
the action on the controller. -/
def requesterPermitted (site : Site F) (reads : VaultReads) (e : Approval F) (eventType : Str)
    (controllerName : Option Str) : Bool :=
  hasPermission site.auth e.role (py "execute_actions") &&
    isActionAllowedForKey (resolveApiKeys site.auth reads.actions) e.requestedBy eventType &&
    isControllerAllowedForKey (resolveApiKeys site.auth reads.controllers) e.requestedBy
      controllerName

variable [PyRuntime F]

def review [PydanticTypes F] (site : Site F) (reads : VaultReads) (cooldowns : Cooldowns) (now : ℚ)
    (e : Approval F) : Review F :=
  match webhookPayload e.payload.val with
  | none => .raised .valueError
  | some payload =>
    match getActionConfig site payload.eventType with
    | none =>
      -- an action that is gone is asked for its controller, or for its parameters
      if overrides payload.controllerOverride &&
          !requesterPermitted site reads e payload.eventType payload.controllerOverride then .lost
      else .raised .attributeError
    | some action =>
      let controllerName := resolveController payload.controllerOverride action
      let task : Task F := ⟨payload, action, controllerName, getControllerConfig site controllerName⟩
      if !requesterPermitted site reads e payload.eventType controllerName then .lost
      else
        match task.remaining cooldowns now with
        | some remaining => .cooling task remaining
        | none => .claimed task

/-! ## Approving -/

/-- The server after fields of an entry were set and the queue was saved. -/
def ServerState.saveEntry (server : ServerState F) (e : Approval F) (writes : Bool) :
    ServerState F :=
  let saved := saveApprovalQueueLocked (updateEntry server.queue e.id fun _ => e) server.stateFile
    writes
  { server with queue := saved.1, stateFile := saved.2 }

omit [PyRuntime F] in
/-- The audit entry of an approval that was executed. -/
def Approval.approvedEntry (e : Approval F) (task : Task F) (apiKey : Str) (role : Option Str)
    (result : ExecResult) : Dict F :=
  task.auditEntry e.requestedBy e.role result none ++
    [(.str (py "approval_id"), .str e.id.val),
      (.str (py "approval_status"), .str (py "approved")),
      (.str (py "approved_by"), .str apiKey),
      (.str (py "approver_role"), optStr role)]

omit [PyRuntime F] in
def approvedBody (result : ExecResult) : Dict F :=
  [(.str (py "status"), .str (py "approved")), (.str (py "result"), .dict result.asDict)]

variable [PyDates F]

/-- Execute a claimed entry, outside of the lock. The entry it ends with is that of the
handler, whether or not it is still in the queue. -/
def approveExecute (site : Site F) (env : RequestEnv F) (server : ServerState F) (apiKey : Str)
    (role : Option Str) (task : Task F) (e : Approval F) : Outcome F × Approval F :=
  match task.execute env.executor with
  | .error error => (⟨env.meanwhile server, .error error, [task.executed]⟩, e)
  | .ok none =>
    let failed := e.fail noExecutableError
    (⟨(env.meanwhile server).saveEntry failed env.savesResult,
      .ok (.error 400 noExecutableError), [task.executed]⟩, failed)
  | .ok (some result) =>
    let server := env.meanwhile server
    let recorded := { server with
      cooldowns := task.record server.cooldowns env.clock.record env.clock.prune }
    let finished := e.finish result
    let stored := recorded.saveEntry finished env.savesResult
    ((withAudit site env stored (finished.approvedEntry task apiKey role result) fun server =>
        ⟨server, .ok (.ok (approvedBody result)), [.notified (task.notify e.requestedBy result)]⟩).after
      (task.executed :: task.recorded), finished)

variable [PydanticTypes F]

/-- Approve a pending entry. -/
def approvePending (site : Site F) (env : RequestEnv F) (server : ServerState F) (apiKey : Str)
    (role : Option Str) (e : Approval F) : Outcome F × Approval F :=
  match review site env.vault server.cooldowns env.clock.check e with
  | .raised error => (⟨server, .error error, []⟩, e)
  | .lost =>
    let failed := e.fail lostReason
    (⟨server.saveEntry failed env.saves, .ok (.error 403 lostReason), []⟩, failed)
  | .cooling task remaining =>
    (withAudit site env server (task.blockEntry apiKey role) fun server =>
      ⟨server, .ok (task.blockResponse remaining), []⟩, e)
  | .claimed task =>
    let claimed := e.claim apiKey role
    approveExecute site env (server.saveEntry claimed env.saves) apiKey role task claimed

/-- `approve_approval`, with the entry it has approved or tried to. -/
def approve (site : Site F) (env : RequestEnv F) (server : ServerState F) (apiKey approvalId : Str) :
    Outcome F × Option (Approval F) :=
  let role := getRoleFromApiKey (resolveApiKeys site.auth env.vault.role) apiKey
  if !hasPermission site.auth role (py "approve_actions") then
    (⟨server, .ok (.error 403 (py "Approving actions is not permitted for your role")), []⟩, none)
  else
    match lookupPending server.queue apiKey approvalId (py "approve") with
    | .refused response => (⟨server, .ok response, []⟩, none)
    | .found e =>
      let (outcome, e') := approvePending site env server apiKey role e
      (outcome, some e')

/-! ## Rejecting -/

omit [PyDates F] [PydanticTypes F] [PyRuntime F] in
/-- The audit entry of a rejection, of what is in the payload of the entry. -/
def Approval.rejectedEntry (e : Approval F) (payload : Dict F) (apiKey : Str) (role : Option Str) :
    Dict F :=
  auditFields e.requestedBy e.role (field (py "event_type") payload) (.str e.controller) .none
      (field (py "parameters") payload) (notExecuted (py "Rejected by approver")) none
      ((Dict.get? (py "dry_run") payload).getD (.bool false)) ++
    [(.str (py "approval_id"), .str e.id.val),
      (.str (py "approval_status"), .str (py "rejected")),
      (.str (py "approved_by"), .str apiKey),
      (.str (py "approver_role"), optStr role)]

omit [PydanticTypes F] in
/-- Reject a pending entry. -/
def rejectPending (site : Site F) (env : RequestEnv F) (server : ServerState F) (apiKey : Str)
    (role : Option Str) (e : Approval F) : Outcome F × Approval F :=
  let rejected := { e.fail (py "Rejected by approver") with processed := some (apiKey, role) }
  let stored := server.saveEntry rejected env.saves
  match e.payload.val with
  | .dict payload =>
    (withAudit site env stored (rejected.rejectedEntry payload apiKey role) fun server =>
      ⟨server, .ok (.ok [(.str (py "status"), .str (py "rejected"))]), []⟩, rejected)
  | _ => (⟨stored, .error .attributeError, []⟩, rejected)

omit [PydanticTypes F] in
/-- `reject_approval`. -/
def reject (site : Site F) (env : RequestEnv F) (server : ServerState F) (apiKey approvalId : Str) :
    Outcome F × Option (Approval F) :=
  let role := getRoleFromApiKey (resolveApiKeys site.auth env.vault.role) apiKey
  if !hasPermission site.auth role (py "approve_actions") then
    (⟨server, .ok (.error 403 (py "Rejecting actions is not permitted for your role")), []⟩, none)
  else
    match lookupPending server.queue apiKey approvalId (py "reject") with
    | .refused response => (⟨server, .ok response, []⟩, none)
    | .found e =>
      let (outcome, e') := rejectPending site env server apiKey role e
      (outcome, some e')

/-! ## What an approval does -/

section Approving

omit [PyRuntime F] [PyDates F] [PydanticTypes F]

theorem lookupPending_eq_found {queue : List (Approval F)} {apiKey approvalId act : Str}
    {e : Approval F} : lookupPending queue apiKey approvalId act = .found e ↔
      findEntry queue approvalId = some e ∧ e.status = .pending ∧ e.requestedBy ≠ apiKey := by
  unfold lookupPending
  cases hfind : findEntry queue approvalId with
  | none => simp
  | some e' =>
    by_cases hstatus : e'.status = .pending
    · by_cases hown : e'.requestedBy = apiKey
      · refine iff_of_false (by simp [hstatus, hown]) ?_
        rintro ⟨he, -, hne⟩
        cases he
        exact hne hown
      · simp only [hstatus, ne_eq, not_true_eq_false, if_false, hown, Lookup.found.injEq,
          Option.some.injEq]
        constructor
        · rintro rfl
          exact ⟨rfl, hstatus, hown⟩
        · exact fun h => h.1
    · refine iff_of_false (by simp [hstatus]) ?_
      rintro ⟨he, hpending, -⟩
      cases he
      exact hstatus hpending

/-- What is refused is refused with an error. -/
theorem lookupPending_refused {queue : List (Approval F)} {apiKey approvalId act : Str}
    {response : Response F} (h : lookupPending queue apiKey approvalId act = .refused response) :
    ∃ status detail, response = .error status detail := by
  unfold lookupPending at h
  split at h
  · cases h
    exact ⟨_, _, rfl⟩
  · split_ifs at h <;> cases h <;> exact ⟨_, _, rfl⟩

end Approving

section Executing

variable {site : Site F} {env : RequestEnv F} {server : ServerState F} {apiKey approvalId : Str}
  {role : Option Str} {e : Approval F} {task : Task F}

/-- A pending entry, and what is to be executed for it, as the configuration now is. -/
structure Claims (site : Site F) (reads : VaultReads) (cooldowns : Cooldowns) (now : ℚ)
    (e : Approval F) (task : Task F) : Prop where
  valid : webhookPayload e.payload.val = some task.payload
  known : getActionConfig site task.payload.eventType = some task.action
  resolved : task.controllerName = resolveController task.payload.controllerOverride task.action
  controller : task.controller = getControllerConfig site task.controllerName
  permitted : requesterPermitted site reads e task.payload.eventType task.controllerName = true
  free : task.remaining cooldowns now = none

omit [PyDates F] in
theorem review_eq_claimed {reads : VaultReads} {cooldowns : Cooldowns} {now : ℚ} :
    review site reads cooldowns now e = .claimed task ↔ Claims site reads cooldowns now e task := by
  unfold review
  cases hvalid : webhookPayload e.payload.val with
  | none =>
    refine iff_of_false (by simp) fun h => ?_
    rw [h.valid] at hvalid
    cases hvalid
  | some payload =>
    simp only
    cases hknown : getActionConfig site payload.eventType with
    | none =>
      refine iff_of_false ?_ fun h => ?_
      · simp only
        split_ifs <;> simp
      · have hpayload : task.payload = payload := Option.some.inj (h.valid.symm.trans hvalid)
        have hconfig := h.known
        rw [hpayload, hknown] at hconfig
        cases hconfig
    | some action =>
      simp only
      constructor
      -- the two gates that are left are the rights of the requester and the cooldown
      · intro h
        split_ifs at h with hpermitted
        split at h
        · cases h
        · next hfree =>
          cases h
          exact ⟨hvalid, hknown, rfl, rfl, by simpa using hpermitted, hfree⟩
      · intro h
        rcases task with ⟨payload', action', controllerName, controller⟩
        have hpayload : payload' = payload := Option.some.inj (h.valid.symm.trans hvalid)
        subst hpayload
        have haction : action' = action := Option.some.inj (h.known.symm.trans hknown)
        subst haction
        have hname : controllerName = resolveController payload'.controllerOverride action' := h.resolved
        subst hname
        have hcontroller : controller =
            getControllerConfig site (resolveController payload'.controllerOverride action') :=
          h.controller
        subst hcontroller
        have hpermitted := h.permitted
        simp only at hpermitted
        simp only [hpermitted, Bool.not_true, Bool.false_eq_true, if_false]
        rw [h.free]

omit [PyDates F] in
/-- The entry and the configuration decide what a claim is for. -/
theorem Claims.payload_action {reads : VaultReads} {cooldowns : Cooldowns} {now : ℚ}
    (h : Claims site reads cooldowns now e task) {payload : WebhookPayload F} {action : ActionConfig F}
    (hvalid : webhookPayload e.payload.val = some payload)
    (hknown : getActionConfig site payload.eventType = some action) :
    task.payload = payload ∧ task.action = action := by
  have hpayload : task.payload = payload := Option.some.inj (h.valid.symm.trans hvalid)
  have haction := h.known
  rw [hpayload, hknown] at haction
  exact ⟨hpayload, (Option.some.inj haction).symm⟩

omit [PyDates F] in
theorem not_claims_of_review {reads : VaultReads} {cooldowns : Cooldowns} {now : ℚ} {r : Review F}
    (hreview : review site reads cooldowns now e = r) (hr : ∀ task, r ≠ .claimed task)
    (task : Task F) : ¬ Claims site reads cooldowns now e task :=
  fun h => hr task (hreview.symm.trans (review_eq_claimed.mpr h))

omit [PydanticTypes F] in
theorem approveExecute_effects : ∃ reports,
    (approveExecute site env server apiKey role task e).1.effects = task.executed :: reports ∧
      ∀ effect ∈ reports, effect.isReport = true := by
  unfold approveExecute
  rcases task.execute env.executor with error | _ | result
  · exact ⟨[], rfl, by rintro effect ⟨⟩⟩
  · exact ⟨[], rfl, by rintro effect ⟨⟩⟩
  · refine ⟨_, rfl, fun effect h => ?_⟩
    rcases List.mem_append.mp h with h | h
    · exact task.isReport_of_mem_recorded h
    · rcases withAudit_effects site env _ _ _ _ with he | he
      · rw [he] at h
        rcases List.mem_cons.mp h with rfl | h
        · rfl
        · rw [List.mem_singleton.mp h]
          rfl
      · rw [he] at h
        cases h

/-- An approval of a pending entry executes what it claims, and otherwise reports only. -/
theorem approvePending_effects :
    (∃ task, Claims site env.vault server.cooldowns env.clock.check e task ∧ ∃ reports,
      (approvePending site env server apiKey role e).1.effects = task.executed :: reports ∧
        ∀ effect ∈ reports, effect.isReport = true) ∨
    (∀ task, ¬ Claims site env.vault server.cooldowns env.clock.check e task) ∧
      ∀ effect ∈ (approvePending site env server apiKey role e).1.effects,
        effect.isReport = true := by
  unfold approvePending
  cases hreview : review site env.vault server.cooldowns env.clock.check e with
  | raised error => exact Or.inr ⟨not_claims_of_review hreview (by simp), by rintro effect ⟨⟩⟩
  | lost => exact Or.inr ⟨not_claims_of_review hreview (by simp), by rintro effect ⟨⟩⟩
  | cooling task remaining =>
    refine Or.inr ⟨not_claims_of_review hreview (by simp), fun effect heffect => ?_⟩
    rcases withAudit_effects site env server (task.blockEntry apiKey role)
      (.ok (task.blockResponse remaining)) [] with he | he
    · simp only [he] at heffect
      rw [List.mem_singleton.mp heffect]
      rfl
    · simp only [he] at heffect
      cases heffect
  | claimed task => exact Or.inl ⟨task, review_eq_claimed.mp hreview, approveExecute_effects⟩

/-- The entry an approval may execute. -/
structure Approvable (site : Site F) (env : RequestEnv F) (server : ServerState F)
    (apiKey approvalId : Str) (e : Approval F) : Prop where
  approver : hasPermission site.auth
    (getRoleFromApiKey (resolveApiKeys site.auth env.vault.role) apiKey) (py "approve_actions") = true
  found : findEntry server.queue approvalId = some e
  pending : e.status = .pending
  other : e.requestedBy ≠ apiKey

theorem approve_of_approvable (h : Approvable site env server apiKey approvalId e) :
    approve site env server apiKey approvalId =
      ((approvePending site env server apiKey
          (getRoleFromApiKey (resolveApiKeys site.auth env.vault.role) apiKey) e).1,
        some (approvePending site env server apiKey
          (getRoleFromApiKey (resolveApiKeys site.auth env.vault.role) apiKey) e).2) := by
  unfold approve
  simp only [h.approver, Bool.not_true, Bool.false_eq_true, if_false]
  rw [lookupPending_eq_found.mpr ⟨h.found, h.pending, h.other⟩]

/-- An approval that claims its entry goes on to execute it. -/
theorem approve_of_claims (h : Approvable site env server apiKey approvalId e)
    (hclaims : Claims site env.vault server.cooldowns env.clock.check e task)
    (hrole : getRoleFromApiKey (resolveApiKeys site.auth env.vault.role) apiKey = role) :
    approve site env server apiKey approvalId =
      ((approveExecute site env (server.saveEntry (e.claim apiKey role) env.saves) apiKey role task
          (e.claim apiKey role)).1,
        some (approveExecute site env (server.saveEntry (e.claim apiKey role) env.saves) apiKey role
          task (e.claim apiKey role)).2) := by
  rw [approve_of_approvable h, approvePending, review_eq_claimed.mpr hclaims, hrole]

/-- Any other call leaves the server as it is. -/
theorem approve_of_not_approvable (h : ∀ e, ¬ Approvable site env server apiKey approvalId e) :
    ∃ status detail, approve site env server apiKey approvalId =
      (⟨server, .ok (.error status detail), []⟩, none) := by
  unfold approve
  simp only
  split_ifs with happrover
  · exact ⟨_, _, rfl⟩
  · cases hlookup : lookupPending server.queue apiKey approvalId (py "approve") with
    | refused response =>
      rcases lookupPending_refused hlookup with ⟨status, detail, rfl⟩
      exact ⟨status, detail, rfl⟩
    | found e =>
      rcases lookupPending_eq_found.mp hlookup with ⟨hfound, hpending, hother⟩
      exact absurd ⟨by simpa using happrover, hfound, hpending, hother⟩ (h e)

/-- What `execute_action` is called with. -/
theorem executed_mem_approve {action : ActionConfig F} {controller : Option (Dict F)}
    {params : Dict F} {dryRun : Option Bool} :
    .executed action controller params dryRun ∈
        (approve site env server apiKey approvalId).1.effects ↔
      ∃ e task, Approvable site env server apiKey approvalId e ∧
        Claims site env.vault server.cooldowns env.clock.check e task ∧
        task.executed = .executed action controller params dryRun := by
  by_cases happrovable : ∃ e, Approvable site env server apiKey approvalId e
  · rcases happrovable with ⟨e, he⟩
    rw [approve_of_approvable he]
    rcases @approvePending_effects F _ _ _ site env server apiKey
      (getRoleFromApiKey (resolveApiKeys site.auth env.vault.role) apiKey) e with
      ⟨task, hclaims, reports, heffects, hreports⟩ | ⟨hclaims, hreports⟩
    · rw [heffects]
      constructor
      · intro h
        rcases List.mem_cons.mp h with h | h
        · exact ⟨e, task, he, hclaims, h.symm⟩
        · cases hreports _ h
      · rintro ⟨e', task', he', hclaims', h⟩
        have hentry : e' = e := Option.some.inj (he'.found.symm.trans he.found)
        subst hentry
        have htask : task' = task := Review.claimed.inj
          ((review_eq_claimed.mpr hclaims').symm.trans (review_eq_claimed.mpr hclaims))
        rw [← h, htask]
        exact List.mem_cons_self
    · refine iff_of_false (fun h => by cases hreports _ h) ?_
      rintro ⟨e', task', he', hclaims', -⟩
      have hentry : e' = e := Option.some.inj (he'.found.symm.trans he.found)
      exact hclaims task' (hentry ▸ hclaims')
  · rcases approve_of_not_approvable (not_exists.mp happrovable) with ⟨status, detail, h⟩
    rw [h]
    refine iff_of_false (by rintro ⟨⟩) ?_
    rintro ⟨e, -, he, -⟩
    exact happrovable ⟨e, he⟩

/-- An approval that answers with a body has executed its entry. -/
theorem exists_of_approve_answer {body : Dict F}
    (h : (approve site env server apiKey approvalId).1.answer = .ok (.ok body)) :
    ∃ e task result, Approvable site env server apiKey approvalId e ∧
      Claims site env.vault server.cooldowns env.clock.check e task ∧
      task.execute env.executor = .ok (some result) ∧ body = approvedBody result := by
  by_cases happrovable : ∃ e, Approvable site env server apiKey approvalId e
  · rcases happrovable with ⟨e, he⟩
    rw [approve_of_approvable he] at h
    simp only at h
    unfold approvePending at h
    cases hreview : review site env.vault server.cooldowns env.clock.check e with
    | raised error => rw [hreview] at h; cases h
    | lost => rw [hreview] at h; cases h
    | cooling task remaining =>
      rw [hreview] at h
      rcases withAudit_answer site env server (task.blockEntry apiKey
        (getRoleFromApiKey (resolveApiKeys site.auth env.vault.role) apiKey))
        (.ok (task.blockResponse remaining)) [] with ha | ⟨e, ha⟩
      · simp only [ha] at h
        cases h
      · simp only [ha] at h
        cases h
    -- only here is there a body to answer with: every other review refuses or raises
    | claimed task =>
      rw [hreview] at h
      simp only at h
      unfold approveExecute at h
      cases hresult : task.execute env.executor with
      | error error => rw [hresult] at h; cases h
      | ok r =>
        rw [hresult] at h
        cases r with
        | none => cases h
        | some result =>
          refine ⟨e, task, result, he, review_eq_claimed.mp hreview, hresult, ?_⟩
          simp only [Outcome.after] at h
          generalize hentry : ((e.claim apiKey _).finish result).approvedEntry task apiKey _ result =
            entry at h
          rcases withAudit_answer site env _ entry (.ok (.ok (approvedBody result)))
            [.notified (task.notify e.requestedBy result)] with ha | ⟨error, ha⟩
          · rw [show (e.claim apiKey _).requestedBy = e.requestedBy from rfl, ha] at h
            cases h
            rfl
          · rw [show (e.claim apiKey _).requestedBy = e.requestedBy from rfl, ha] at h
            cases h
  · rcases approve_of_not_approvable (not_exists.mp happrovable) with ⟨status, detail, hnone⟩
    rw [hnone] at h
    cases h

end Executing

end AutoHeal.Server
