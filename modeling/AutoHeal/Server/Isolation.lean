import AutoHeal.Server.AuditTrail
import AutoHeal.Server.Throttle

/-!
# What keys without power cannot change

The requests of some keys that may neither execute nor approve can be taken out of a run, and so
can those that only read the log: every other request is answered as it was, and has the same
effects (`powerless_invisible`). The limit of an action is the exception, as a request counts for
it before its key is looked at: a key without power that asks for such an action is heard.
-/

namespace AutoHeal.Server

open Audit Purge

variable {F : Type} [PyRuntime F] [PyDates F]

/-! ## States that look the same -/

/-- The keys of the limiter that no hidden caller is counted under. -/
def Uncounted (hidden : Str → Bool) (key : Str) : Prop :=
  ∀ apiKey, hidden apiKey = true → key ≠ callerKey apiKey

omit [PyDates F] in
/-- Two states with the same queue, cooldowns and state file, the same hits for those who are not
hidden, and logs that can be written. -/
structure Alike (hidden : Str → Bool) (c : AuditChain F) (s t : ServerState F) : Prop where
  queue : s.queue = t.queue
  stateFile : s.stateFile = t.stateFile
  cooldowns : s.cooldowns = t.cooldowns
  hits : ∀ key, Uncounted hidden key → s.hits key = t.hits key
  left : ∃ ws, Holds c s.log ws
  right : ∃ ws, Holds c t.log ws

omit [PyDates F] in
/-- Outcomes that look the same. -/
structure SameOutcome (hidden : Str → Bool) (c : AuditChain F) (o o' : Outcome F) : Prop where
  server : Alike hidden c o.server o'.server
  answer : o.handling.answer = o'.handling.answer
  effects : o.effects = o'.effects

theorem uncounted_callerKey {hidden : Str → Bool} {apiKey : Str} (h : hidden apiKey = false) :
    Uncounted hidden (callerKey apiKey) := by
  intro other hother heq
  rw [← List.append_cancel_left heq, h] at hother
  cases hother

theorem uncounted_actionKey (hidden : Str → Bool) (eventType : Str) :
    Uncounted hidden (actionKey eventType) := fun apiKey _ => callerKey_ne_actionKey apiKey eventType

section Outcomes

variable {hidden : Str → Bool} {c : AuditChain F} {s t : ServerState F} {site : Site F}
  {env : RequestEnv F}

omit [PyDates F] in
theorem SameOutcome.of_response (h : Alike hidden c s t) (answer : Py (Response F))
    (effects : List (Effect F)) : SameOutcome hidden c ⟨s, answer, effects⟩ ⟨t, answer, effects⟩ :=
  ⟨h, rfl, rfl⟩

omit [PyDates F] in
theorem SameOutcome.after {o o' : Outcome F} (h : SameOutcome hidden c o o')
    (effects : List (Effect F)) : SameOutcome hidden c (o.after effects) (o'.after effects) :=
  ⟨h.server, h.answer, congrArg (effects ++ ·) h.effects⟩

/-- An append without rotation leaves a log that can be written. -/
theorem exists_holds_append (hc : truthy (field (py "enabled") c.retention) = false) {dir : Audit.Dir}
    (h : ∃ ws, Holds c dir ws) (env : Audit.Env) {entry : Dict F} (hkeys : entry.keys.Nodup) :
    ∃ ws, Holds c (append c env dir entry).1 ws := by
  rcases h with ⟨ws, hws⟩
  have hcalls : ∀ call ∈ [(env, entry)], call.2.keys.Nodup := by simpa using hkeys
  rcases hws.run hc hcalls with ⟨more, hmore⟩
  exact ⟨_, hmore⟩

/-- Without rotation a log that can be written is readable. -/
theorem readable_of_holds (hc : truthy (field (py "enabled") c.retention) = false) {dir : Audit.Dir}
    (h : ∃ ws, Holds c dir ws) (env : Audit.Env) {file : Bytes} (hfile : dir.lookup c.base = some file) :
    Readable c env dir file := by
  rcases h with ⟨ws, -, hcontent⟩
  rw [hfile, Option.getD_some] at hcontent
  refine ⟨fun henabled => ?_, fun hdue => ?_, fun _ hraises => ?_⟩
  · rw [hc] at henabled
    cases henabled
  · unfold shouldRotateLocked at hdue
    rw [hc] at hdue
    cases hdue
  · rcases (currentState_error_iff file).mpr hraises with ⟨e, he⟩
    rw [hcontent, currentState_content] at he
    cases he

omit [PyDates F] in
theorem Alike.written (h : Alike hidden c s t) {log log' : Audit.Dir} (hlog : ∃ ws, Holds c log ws)
    (hlog' : ∃ ws, Holds c log' ws) : Alike hidden c { s with log } { t with log := log' } :=
  ⟨h.queue, h.stateFile, h.cooldowns, h.hits, hlog, hlog'⟩

/-- Writing to the log succeeds in both states or in none. -/
theorem SameOutcome.withAudit (hc : truthy (field (py "enabled") c.retention) = false)
    (hsite : site.chain = c) (h : Alike hidden c s t) {entry : Dict F} (hkeys : AuditKeys entry)
    {next : ServerState F → Outcome F}
    (hnext : ∀ {s t}, Alike hidden c s t → SameOutcome hidden c (next s) (next t)) :
    SameOutcome hidden c (withAudit site env s entry next) (withAudit site env t entry next) := by
  subst hsite
  have hok : ∀ {dir : Audit.Dir}, (∃ ws, Holds site.chain dir ws) →
      ((∃ dir' r, append site.chain env.audit dir (auditLogEntry entry env.clock.audit.isoformatZ) =
        (dir', .ok r)) ↔ Serialisable (auditLogEntry entry env.clock.audit.isoformatZ)) := by
    intro dir hdir
    rw [append_ok_iff (hkeys.strings _) (hkeys.unchained _)]
    exact and_iff_left fun file hfile => readable_of_holds hc hdir env.audit hfile
  have hleft := hok h.left
  have hright := hok h.right
  have hholdsLeft := exists_holds_append hc h.left env.audit (hkeys.distinct env.clock.audit.isoformatZ)
  have hholdsRight := exists_holds_append hc h.right env.audit (hkeys.distinct env.clock.audit.isoformatZ)
  unfold Server.withAudit writeAuditLog
  revert hleft hright hholdsLeft hholdsRight
  rcases append site.chain env.audit s.log (auditLogEntry entry env.clock.audit.isoformatZ) with
    ⟨log, e | r⟩
  · rcases append site.chain env.audit t.log (auditLogEntry entry env.clock.audit.isoformatZ) with
      ⟨log', e' | r'⟩
    · -- both raise, and both requests are answered the same
      intro _ _ hlog hlog'
      exact ⟨h.written hlog hlog', rfl, rfl⟩
    · intro hleft hright
      rcases hleft.mpr (hright.mp ⟨log', r', rfl⟩) with ⟨dir, r, hr⟩
      cases hr
  · rcases append site.chain env.audit t.log (auditLogEntry entry env.clock.audit.isoformatZ) with
      ⟨log', e' | r'⟩
    · intro hleft hright
      rcases hright.mpr (hleft.mp ⟨log, r, rfl⟩) with ⟨dir, r, hr⟩
      cases hr
    · intro _ _ hlog hlog'
      exact (hnext (h.written hlog hlog')).after _

omit [PyDates F] in
theorem Alike.saveEntry (h : Alike hidden c s t) (e : Approval F) (writes : Bool) :
    Alike hidden c (s.saveEntry e writes) (t.saveEntry e writes) := by
  refine ⟨?_, ?_, h.cooldowns, h.hits, h.left, h.right⟩
  · unfold ServerState.saveEntry
    rw [h.queue, h.stateFile]
  · unfold ServerState.saveEntry
    rw [h.queue, h.stateFile]

omit [PyDates F] in
theorem Alike.record (h : Alike hidden c s t) (task : Task F) (now nowPrune : ℚ) :
    Alike hidden c { s with cooldowns := task.record s.cooldowns now nowPrune }
      { t with cooldowns := task.record t.cooldowns now nowPrune } :=
  ⟨h.queue, h.stateFile, by simp only [h.cooldowns], h.hits, h.left, h.right⟩

end Outcomes

/-! ## Requests that are seen -/

section Seen

variable {hidden : Str → Bool} {c : AuditChain F} {s t : ServerState F} {site : Site F}
  {env : RequestEnv F}

omit [PyRuntime F] [PyDates F] in
/-- A check of a key that is not hidden. -/
theorem check_alike {hits hits' : Hits} (h : ∀ key, Uncounted hidden key → hits key = hits' key)
    {key : Str} (hkey : Uncounted hidden key) (limit : Option Int) (window now : ℚ) :
    (RateLimiter.check hits key limit window now).2 =
        (RateLimiter.check hits' key limit window now).2 ∧
      ∀ other, Uncounted hidden other → (RateLimiter.check hits key limit window now).1 other =
        (RateLimiter.check hits' key limit window now).1 other := by
  refine ⟨RateLimiter.check_congr (h key hkey) limit window now, fun other hother => ?_⟩
  by_cases heq : other = key
  · rw [heq]
    exact RateLimiter.check_self_congr (h key hkey) limit
  · rw [RateLimiter.check_of_ne heq, RateLimiter.check_of_ne heq]
    exact h other hother

omit [PyDates F] in
/-- The gates are the same to a key that is not hidden. -/
theorem webhookGate_alike [PydanticTypes F] {hits hits' : Hits}
    (h : ∀ key, Uncounted hidden key → hits key = hits' key) {request : WebhookRequest}
    (hkey : hidden request.apiKey = false) (reads : VaultReads) (clock : Clock) :
    (webhookGate site reads clock hits request).2 = (webhookGate site reads clock hits' request).2 ∧
      ∀ key, Uncounted hidden key → (webhookGate site reads clock hits request).1 key =
        (webhookGate site reads clock hits' request).1 key := by
  unfold webhookGate
  cases (requestJson request.body : Option (JsonDoc F)) with
  | none => exact ⟨rfl, h⟩
  | some raw =>
    simp only
    cases webhookPayload raw.val with
    | none =>
      simp only
      split <;> exact ⟨rfl, h⟩
    | some payload =>
      simp only
      unfold payloadGate
      simp only
      have hcaller := check_alike h (uncounted_callerKey hkey)
        (limitForRole site.limits (getRoleFromApiKey (resolveApiKeys site.auth reads.role)
          request.apiKey)) windowSeconds clock.caller
      revert hcaller
      generalize RateLimiter.check hits (callerKey request.apiKey) _ _ _ = checked
      generalize RateLimiter.check hits' (callerKey request.apiKey) _ _ _ = checked'
      rcases checked with ⟨hits₁, retry⟩
      rcases checked' with ⟨hits₁', retry'⟩
      rintro ⟨rfl, hhits⟩
      cases retry with
      | some retryAfter => exact ⟨rfl, hhits⟩
      | none =>
        cases (getActionConfig site payload.eventType).filter fun action => !action.isEmpty with
        | none => exact ⟨rfl, hhits⟩
        | some action =>
          simp only
          have haction := check_alike hhits (uncounted_actionKey hidden payload.eventType)
            (limitForAction site.limits payload.eventType) windowSeconds clock.action
          revert haction
          generalize RateLimiter.check hits₁ (actionKey payload.eventType) _ _ _ = checked
          generalize RateLimiter.check hits₁' (actionKey payload.eventType) _ _ _ = checked'
          rcases checked with ⟨hits₂, retry⟩
          rcases checked' with ⟨hits₂', retry'⟩
          rintro ⟨rfl, hhits⟩
          cases retry with
          | some retryAfter => exact ⟨rfl, hhits⟩
          | none => exact ⟨rfl, hhits⟩

variable (hc : truthy (field (py "enabled") c.retention) = false) (hsite : site.chain = c)
  (halone : ∀ server, env.meanwhile server = server)

include hc hsite halone

theorem webhookExecute_alike (h : Alike hidden c s t) (request : WebhookRequest) (a : Admitted F) :
    SameOutcome hidden c (webhookExecute site env s request a) (webhookExecute site env t request a) := by
  unfold webhookExecute
  rcases a.task.execute env.executor with e | _ | result
  · simp only [halone]
    exact .of_response h _ _
  · simp only [halone]
    exact .of_response h _ _
  · simp only [halone]
    exact (SameOutcome.withAudit hc hsite (h.record a.task _ _) (auditKeys_auditEntry _ _ _ _ _)
      fun h => .of_response h _ _).after _

theorem webhookAdmitted_alike (h : Alike hidden c s t) (request : WebhookRequest) (a : Admitted F) :
    SameOutcome hidden c (webhookAdmitted site env s request a)
      (webhookAdmitted site env t request a) := by
  unfold webhookAdmitted
  rw [h.cooldowns]
  split
  · unfold enqueue
    simp only [h.queue, h.stateFile]
    exact ⟨⟨rfl, rfl, h.cooldowns, h.hits, h.left, h.right⟩, rfl, rfl⟩
  · split
    · exact .withAudit hc hsite h (auditKeys_blockEntry _ _ _) fun h => .of_response h _ _
    · exact webhookExecute_alike hc hsite halone h request a

theorem webhook_alike [PydanticTypes F] (h : Alike hidden c s t) {request : WebhookRequest}
    (hkey : hidden request.apiKey = false) :
    SameOutcome hidden c (webhook site env s request) (webhook site env t request) := by
  have hentry := @limited_entry F _ _ site env.vault env.clock s.hits request
  have hgate := @webhookGate_alike F _ hidden site _ s.hits t.hits h.hits request hkey env.vault
    env.clock
  unfold webhook
  revert hentry hgate
  rcases webhookGate site env.vault env.clock s.hits request with ⟨hits, gate⟩
  rcases webhookGate site env.vault env.clock t.hits request with ⟨hits', gate'⟩
  rintro hentry ⟨rfl, hhits⟩
  have hcounted : Alike hidden c { s with hits } { t with hits := hits' } :=
    ⟨h.queue, h.stateFile, h.cooldowns, hhits, h.left, h.right⟩
  cases gate with
  | refused response => exact .of_response hcounted _ _
  | limited response entry =>
    rcases hentry rfl with ⟨eventType, role, parameters, rfl⟩
    exact .withAudit hc hsite hcounted (auditKeys_rateLimitBlock _ _ _ _) fun h =>
      .of_response h _ _
  | admitted a => exact webhookAdmitted_alike hc hsite halone hcounted request a

theorem approveExecute_alike (h : Alike hidden c s t) (apiKey : Str) (role : Option Str)
    (task : Task F) (e : Approval F) :
    SameOutcome hidden c (approveExecute site env s apiKey role task e).1
      (approveExecute site env t apiKey role task e).1 := by
  unfold approveExecute
  rcases task.execute env.executor with error | _ | result
  · simp only [halone]
    exact .of_response h _ _
  · simp only [halone]
    exact .of_response (h.saveEntry _ _) _ _
  · simp only [halone]
    exact (SameOutcome.withAudit hc hsite ((h.record task _ _).saveEntry _ _)
      (auditKeys_approvedEntry _ _ _ _ _) fun h => .of_response h _ _).after _

theorem approve_alike [PydanticTypes F] (h : Alike hidden c s t) (apiKey approvalId : Str) :
    SameOutcome hidden c (approve site env s apiKey approvalId).1
      (approve site env t apiKey approvalId).1 := by
  unfold approve
  simp only [h.queue]
  split_ifs
  · exact .of_response h _ _
  · cases lookupPending t.queue apiKey approvalId (py "approve") with
    | refused response => exact .of_response h _ _
    | found e =>
      simp only
      unfold approvePending
      rw [h.cooldowns]
      cases review site env.vault t.cooldowns env.clock.check e with
      | raised error => exact .of_response h _ _
      | lost => exact .of_response (h.saveEntry _ _) _ _
      | cooling task remaining =>
        exact .withAudit hc hsite h (auditKeys_blockEntry _ _ _) fun h => .of_response h _ _
      | claimed task => exact approveExecute_alike hc hsite halone (h.saveEntry _ _) apiKey _ task _

omit halone in
theorem reject_alike (h : Alike hidden c s t) (apiKey approvalId : Str) :
    SameOutcome hidden c (reject site env s apiKey approvalId).1
      (reject site env t apiKey approvalId).1 := by
  unfold reject
  simp only [h.queue]
  split_ifs
  · exact .of_response h _ _
  · cases lookupPending t.queue apiKey approvalId (py "reject") with
    | refused response => exact .of_response h _ _
    | found e =>
      simp only
      unfold rejectPending
      simp only
      split
      · exact .withAudit hc hsite (h.saveEntry _ _) (auditKeys_rejectedEntry _ _ _ _) fun h =>
          .of_response h _ _
      · exact .of_response (h.saveEntry _ _) _ _

end Seen

/-! ## Requests that are not seen -/

section Unseen

variable [PydanticTypes F] {hidden : Str → Bool} {c : AuditChain F} {s t : ServerState F}

omit [PyDates F] in
/-- The request asks for an action that has a limit of its own. -/
def HttpRequest.AsksLimited (r : HttpRequest F) : Prop :=
  ∃ body, ∃ raw : JsonDoc F, ∃ payload, r.endpoint = .webhook body ∧ requestJson body = some raw ∧
    webhookPayload raw.val = some payload ∧
    ((limitForAction r.site.limits payload.eventType).any fun n => decide (0 < n)) = true

omit [PyDates F] in
/-- The role of the key has neither of the permissions that let a request do something, and the
request asks for no action that has a limit of its own. -/
structure HttpRequest.Powerless (r : HttpRequest F) : Prop where
  execute : hasPermission r.site.auth
    (getRoleFromApiKey (resolveApiKeys r.site.auth r.env.vault.role) r.key) (py "execute_actions") =
      false
  approve : hasPermission r.site.auth
    (getRoleFromApiKey (resolveApiKeys r.site.auth r.env.vault.role) r.key) (py "approve_actions") =
      false
  unlimited : ¬ r.AsksLimited

omit [PyDates F] in
/-- A request for no limited action counts hits of its caller only. -/
theorem webhookGate_hits {site : Site F} {reads : VaultReads} {clock : Clock} {hits : Hits}
    {request : WebhookRequest} (h : ∀ (raw : JsonDoc F) payload, requestJson request.body = some raw →
      webhookPayload raw.val = some payload →
      ((limitForAction site.limits payload.eventType).any fun n => decide (0 < n)) = false)
    {key : Str} (hkey : key ≠ callerKey request.apiKey) :
    (webhookGate site reads clock hits request).1 key = hits key := by
  unfold webhookGate
  cases hraw : (requestJson request.body : Option (JsonDoc F)) with
  | none => rfl
  | some raw =>
    simp only
    cases hpayload : webhookPayload raw.val with
    | none =>
      simp only
      split <;> rfl
    | some payload =>
      simp only
      unfold payloadGate
      simp only
      have hcaller := RateLimiter.check_of_ne hkey hits (limitForRole site.limits
        (getRoleFromApiKey (resolveApiKeys site.auth reads.role) request.apiKey)) windowSeconds
        clock.caller
      revert hcaller
      generalize RateLimiter.check hits (callerKey request.apiKey) _ _ _ = checked
      rcases checked with ⟨hits₁, retry⟩
      intro hcaller
      cases retry with
      | some retryAfter => exact hcaller
      | none =>
        cases (getActionConfig site payload.eventType).filter fun action => !action.isEmpty with
        | none => exact hcaller
        | some action =>
          simp only [RateLimiter.check_unlimited (h raw payload hraw hpayload)]
          exact hcaller

/-- What a request without power leaves of the server: hits of its key, and a log that can be
written. -/
theorem Alike.powerless (hc : truthy (field (py "enabled") c.retention) = false)
    (h : Alike hidden c s t) {r : HttpRequest F} (hsite : r.site.chain = c) (halone : r.Alone)
    (hkey : hidden r.key = true) (hr : r.Powerless) : Alike hidden c (handle s r).1 t := by
  have hwritable : ∃ ws, Holds c (handle s r).1.log ws := by
    rcases handle_writes halone s with ⟨hlog, -⟩ | ⟨entry, hentry, hlog, -⟩
    · rw [hlog]
      exact h.left
    · rw [hlog, hsite]
      unfold writeAuditLog
      have hholds := exists_holds_append hc h.left r.env.audit
        (hentry.distinct r.env.clock.audit.isoformatZ)
      revert hholds
      rcases append c r.env.audit s.log (auditLogEntry entry r.env.clock.audit.isoformatZ) with
        ⟨log, e | written⟩
      · exact id
      · exact id
  -- of the handlers only `/webhook` counts, and only under the key of its caller
  have hdispatch : ∃ hits log, (handle s r).1 = { s with hits, log } ∧
      ∀ key, key ≠ callerKey r.key → hits key = s.hits key := by
    refine @HttpRequest.dispatch_rule F _ _ _ r s (fun h => ∃ hits log,
      h.server = { s with hits, log } ∧ ∀ key, key ≠ callerKey r.key → hits key = s.hits key) ?_ ?_ ?_ ?_
    · exact fun answer => ⟨s.hits, s.log, rfl, fun _ _ => rfl⟩
    · intro body hendpoint
      have hstopped : ∀ a, ¬ Passes r.site r.env.vault r.env.clock s.hits
          ⟨r.key, body, r.clientHost⟩ a := by
        intro a ha
        have hpermitted := ha.authorized.execute
        rw [ha.role] at hpermitted
        exact Bool.false_ne_true (hr.execute.symm.trans hpermitted)
      rcases (webhook_of_not_passes hstopped).1 with ⟨log, hserver⟩
      refine ⟨_, log, hserver, fun key hne => webhookGate_hits (fun raw payload hraw hpayload => ?_) hne⟩
      rw [← Bool.not_eq_true]
      exact fun hlimited => hr.unlimited ⟨body, raw, payload, hendpoint, hraw, hpayload, hlimited⟩
    · intro approvalId _
      refine ⟨s.hits, s.log, ?_, fun _ _ => rfl⟩
      simp only [approve, hr.approve, Bool.not_false, if_true]
      rfl
    · intro approvalId _
      refine ⟨s.hits, s.log, ?_, fun _ _ => rfl⟩
      simp only [reject, hr.approve, Bool.not_false, if_true]
      rfl
  rcases hdispatch with ⟨hits, log, hserver, hhits⟩
  rw [hserver] at hwritable ⊢
  refine ⟨h.queue, h.stateFile, h.cooldowns, fun key hcounted => ?_, hwritable, h.right⟩
  exact (hhits key (hcounted _ hkey)).trans (h.hits key hcounted)

/-- A request that only reads the log changes nothing. -/
theorem handle_readsLog {r : HttpRequest F} (h : r.endpoint.readsLog = true) (server : ServerState F) :
    (handle server r).1 = server := by
  have hother : ∀ {endpoint : Endpoint}, r.endpoint = endpoint → endpoint.readsLog = true :=
    fun hendpoint => hendpoint ▸ h
  refine @HttpRequest.dispatch_rule F _ _ _ r server (fun h => h.server = server) ?_ ?_ ?_ ?_
  · exact fun answer => rfl
  · exact fun body hendpoint => Bool.noConfusion (hother hendpoint)
  · exact fun approvalId hendpoint => Bool.noConfusion (hother hendpoint)
  · exact fun approvalId hendpoint => Bool.noConfusion (hother hendpoint)

/-- A request by a key that is not hidden, which does not read the log. -/
theorem Alike.seen (hc : truthy (field (py "enabled") c.retention) = false) (h : Alike hidden c s t)
    {r : HttpRequest F} (hsite : r.site.chain = c) (halone : r.Alone) (hkey : hidden r.key = false)
    (hreads : r.endpoint.readsLog = false) :
    Alike hidden c (handle s r).1 (handle t r).1 ∧ (handle s r).2 = (handle t r).2 := by
  have hquiet : ∀ answer : HttpAnswer F, Alike hidden c (s.answers answer).server
      (t.answers answer).server ∧ (s.answers answer).answer = (t.answers answer).answer ∧
      (s.answers answer).effects = (t.answers answer).effects := fun _ => ⟨h, rfl, rfl⟩
  have houtcome : ∀ {o o' : Outcome F}, SameOutcome hidden c o o' →
      Alike hidden c o.handling.server o'.handling.server ∧
        o.handling.answer = o'.handling.answer ∧ o.handling.effects = o'.handling.effects :=
    fun hsame => ⟨hsame.server, hsame.answer, hsame.effects⟩
  have hrespond : Alike hidden c (r.respond s).server (r.respond t).server ∧
      (r.respond s).answer = (r.respond t).answer ∧ (r.respond s).effects = (r.respond t).effects := by
    unfold HttpRequest.respond
    revert hreads
    cases r.endpoint with
    | webhook body => exact fun _ => houtcome (webhook_alike hc hsite halone h hkey)
    | approve approvalId => exact fun _ => houtcome (approve_alike hc hsite halone h _ _)
    | reject approvalId => exact fun _ => houtcome (reject_alike hc hsite h _ _)
    | approvals =>
      intro _
      simp only [h.queue]
      exact hquiet _
    | health | live | ready | protectedEndpoint | canOverrideController => exact fun _ => hquiet _
    | audit | auditVerify => exact fun h => Bool.noConfusion h
  have hdispatch : Alike hidden c (r.dispatch s).server (r.dispatch t).server ∧
      (r.dispatch s).answer = (r.dispatch t).answer ∧ (r.dispatch s).effects = (r.dispatch t).effects := by
    unfold HttpRequest.dispatch
    split_ifs
    · exact hrespond
    · exact hquiet _
    · exact hrespond
  exact ⟨hdispatch.1, Prod.ext hdispatch.2.1 hdispatch.2.2⟩

/-! ## Runs -/

omit [PyRuntime F] [PyDates F] [PydanticTypes F] in
/-- Requests of keys that are not hidden, except those that read the log. -/
def HttpRequest.seen (hidden : Str → Bool) (r : HttpRequest F) : Bool :=
  !hidden r.key && !r.endpoint.readsLog

/-- Nothing but what is seen leads states that look the same apart. -/
theorem unwinding_handle (hc : truthy (field (py "enabled") c.retention) = false) :
    Unwinding (handle (F := F))
      (fun _ r => r.site.chain = c ∧ r.Alone ∧ (hidden r.key = true → r.Powerless))
      (HttpRequest.seen hidden) (Alike hidden c) where
  hidden := by
    rintro s t r ⟨hsite, halone, hpowerless⟩ hunseen h
    cases hkey : hidden r.key with
    | true => exact h.powerless hc hsite halone hkey (hpowerless hkey)
    | false =>
      have hreads : r.endpoint.readsLog = true := by simpa [HttpRequest.seen, hkey] using hunseen
      rw [handle_readsLog hreads]
      exact h
  shown := by
    rintro s t r ⟨hsite, halone, -⟩ hseen h
    unfold HttpRequest.seen at hseen
    rw [Bool.and_eq_true, Bool.not_eq_true', Bool.not_eq_true'] at hseen
    exact h.seen hc hsite halone hseen.1 hseen.2

/-- In a run without rotation, keys whose roles may neither execute nor approve can do whatever
they like, short of asking for actions that have a limit of their own. Every other request that
does not read the log is answered and has the effects as in the run without them, and the queue,
its file and the cooldowns end as in that run. -/
theorem powerless_invisible (hc : truthy (field (py "enabled") c.retention) = false)
    {server : ServerState F} (hlog : ∃ ws, Holds c server.log ws) {requests : List (HttpRequest F)}
    (hsite : ∀ r ∈ requests, r.site.chain = c) (halone : ∀ r ∈ requests, r.Alone)
    (hpowerless : ∀ r ∈ requests, hidden r.key = true → r.Powerless) :
    visibleOutputs handle (HttpRequest.seen hidden) server requests =
        outputs handle server (requests.filter (HttpRequest.seen hidden)) ∧
      (run handle server requests).queue =
        (run handle server (requests.filter (HttpRequest.seen hidden))).queue ∧
      (run handle server requests).stateFile =
        (run handle server (requests.filter (HttpRequest.seen hidden))).stateFile ∧
      (run handle server requests).cooldowns =
        (run handle server (requests.filter (HttpRequest.seen hidden))).cooldowns := by
  have hstart : Alike hidden c server server := ⟨rfl, rfl, rfl, fun _ _ => rfl, hlog, hlog⟩
  have hallowed : ∀ r ∈ requests,
      r.site.chain = c ∧ r.Alone ∧ (hidden r.key = true → r.Powerless) :=
    fun r hr => ⟨hsite r hr, halone r hr, hpowerless r hr⟩
  rcases (unwinding_handle hc).purge (allowedRun_of_forall hallowed server) hstart with ⟨hend, hout⟩
  exact ⟨hout, hend.queue, hend.stateFile, hend.cooldowns⟩

/-- What `operator-key` has executed does not depend on a request of `readonly-key` before it. -/
theorem powerless_invisible_example :
    visibleOutputs handle (HttpRequest.seen fun key => key = py "readonly-key") unloggedServer
        [exampleHttpRequest (py "readonly-key") (.webhook (exampleRequest false).body), exampleWebhook] =
      outputs handle unloggedServer [exampleWebhook] := by
  have hpowerless : (exampleHttpRequest (py "readonly-key")
      (.webhook (exampleRequest false).body)).Powerless := by
    refine ⟨rfl, rfl, ?_⟩
    rintro ⟨body, raw, payload, -, -, -, hlimited⟩
    cases hlimited
  refine (@powerless_invisible NanFloat _ _ _ _ (exampleChain []) rfl unloggedServer
    ⟨[], holds_of_absent rfl⟩ _ (by simp; exact ⟨rfl, rfl⟩) (by simp; exact ⟨fun _ => rfl, fun _ => rfl⟩)
    ?_).1.trans ?_
  · intro r hr hkey
    rcases List.mem_cons.mp hr with rfl | hr
    · exact hpowerless
    · rw [List.mem_singleton.mp hr] at hkey
      cases hkey
  · rfl

end Unseen

end AutoHeal.Server
