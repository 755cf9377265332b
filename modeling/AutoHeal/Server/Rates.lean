import AutoHeal.Server.AuditTrail
import AutoHeal.Server.Throttle

/-!
# How much a minute lets through

The limits of `config/rate_limits.yaml` over whole runs. In no window of a minute does `/webhook`
execute or queue an action more often than the limit of the action says, whoever asks, and however
many other requests come in between; nor does it do more for one caller than the limit of its role
says (`rates_bounded`).
-/

namespace AutoHeal.Server

open Audit Purge RateLimiter

variable {F : Type} [PyRuntime F] [PyDates F] [PydanticTypes F]

/-! ## Requests that are served -/

omit [PyRuntime F] [PyDates F] [PydanticTypes F] in
/-- Something was executed or queued. -/
def acts (effects : List (Effect F)) : Bool := effects.any fun effect => !effect.isReport

omit [PyDates F] in
/-- The request is one to `/webhook` for an action. -/
def HttpRequest.asksFor (eventType : Str) (r : HttpRequest F) : Bool :=
  match r.endpoint with
  | .webhook body =>
    ((requestJson body).bind fun raw : JsonDoc F => webhookPayload raw.val).any fun payload =>
      payload.eventType = eventType
  | _ => false

omit [PyRuntime F] [PyDates F] [PydanticTypes F] in
/-- The request is one to `/webhook` by a caller. -/
def HttpRequest.calledBy (apiKey : Str) (r : HttpRequest F) : Bool :=
  match r.endpoint with
  | .webhook _ => r.key = apiKey
  | _ => false

/-- The times of those requests of a run that do something. -/
def actingTimes (asked : HttpRequest F → Bool) (time : HttpRequest F → ℚ) :
    ServerState F → List (HttpRequest F) → List ℚ
  | _, [] => []
  | server, r :: requests =>
    (if asked r && acts (handle server r).2.2 then [time r] else []) ++
      actingTimes asked time (handle server r).1 requests

omit [PyRuntime F] [PyDates F] [PydanticTypes F] in
/-- How many of some times are in the window that ends at `u`. -/
def inWindow (times : List ℚ) (u : ℚ) : Nat :=
  times.countP fun t => decide (u - windowSeconds < t ∧ t ≤ u)

/-! ## One key of the limiter -/

omit [PyRuntime F] [PyDates F] [PydanticTypes F] in
theorem countInWindow_le_cons (key : Str) (c : LimiterCall) (past : List LimiterCall) (u : ℚ) :
    countInWindow key past u ≤ countInWindow key (c :: past) u := by
  unfold countInWindow
  by_cases hrecorded : c.key = key ∧ c.limited = true ∧ answer past c = none
  · rw [recordedTimes_of_recorded hrecorded.1 hrecorded.2.1 hrecorded.2.2]
    exact (List.sublist_cons_self _ _).countP_le
  · rw [recordedTimes_of_not hrecorded]

/-- A request leaves the hits of a key as they are and is none of those that are counted, or it
makes one call of the limiter for that key, and does something only if the call was admitted. -/
def Metered (key : Str) (n : Int) (asked : HttpRequest F → Bool) (time : HttpRequest F → ℚ)
    (r : HttpRequest F) : Prop :=
  ∀ server, ((handle server r).1.hits key = server.hits key ∧
      (asked r && acts (handle server r).2.2) = false) ∨
    ((handle server r).1.hits key = (check server.hits key (some n) windowSeconds (time r)).1 key ∧
      ((asked r && acts (handle server r).2.2) = true →
        (check server.hits key (some n) windowSeconds (time r)).2 = none))

/-- Of requests that are metered by a key, no window has more that do something than the limit
says. The calls of the limiter for the key are those of a `RateLimiter` of its own. -/
theorem actingTimes_le {key : Str} {n : Int} (hn : 0 < n) {asked : HttpRequest F → Bool}
    {time : HttpRequest F → ℚ} {requests : List (HttpRequest F)} {server : ServerState F}
    (hmetered : ∀ r ∈ requests, Metered key n asked time r)
    (hclock : requests.Pairwise fun r r' => time r ≤ time r') {past : List LimiterCall}
    (hticking : Ticking past) (hpast : ∀ c ∈ past, c.key = key → c.limit = some n)
    (hbefore : ∀ c ∈ past, ∀ r ∈ requests, c.now ≤ time r)
    (hhits : server.hits key = hitsAfter past key) (u : ℚ) :
    ((inWindow (actingTimes asked time server requests) u + countInWindow key past u : Nat) : Int) ≤
      n := by
  induction requests generalizing server past with
  | nil =>
    rw [actingTimes, inWindow, List.countP_nil, Nat.zero_add]
    exact countInWindow_le hticking hn hpast u
  | cons r requests ih =>
    have hrest := fun r' hr' => hmetered r' (List.mem_cons_of_mem _ hr')
    rcases List.pairwise_cons.mp hclock with ⟨hfirst, hclock⟩
    rw [actingTimes]
    rcases hmetered r List.mem_cons_self server with ⟨hsame, hidle⟩ | ⟨hcalled, hadmits⟩
    · rw [hidle, if_neg (by simp), List.nil_append]
      exact ih hrest hclock hticking hpast
        (fun c hc r' hr' => hbefore c hc r' (List.mem_cons_of_mem _ hr')) (hsame.trans hhits)
    · -- the call is one more of the key
      let c : LimiterCall := ⟨key, some n, time r⟩
      have hticking' : Ticking (c :: past) :=
        List.pairwise_cons.mpr ⟨fun d hd => hbefore d hd r List.mem_cons_self, hticking⟩
      have hafter : (handle server r).1.hits key = hitsAfter (c :: past) key :=
        hcalled.trans (check_self_congr hhits _)
      have hnext := ih hrest hclock hticking'
        (by
          intro d hd hkey
          rcases List.mem_cons.mp hd with rfl | hd
          · rfl
          · exact hpast d hd hkey)
        (by
          intro d hd r' hr'
          rcases List.mem_cons.mp hd with rfl | hd
          · exact hfirst r' hr'
          · exact hbefore d hd r' (List.mem_cons_of_mem _ hr'))
        hafter
      have hmore := countInWindow_le_cons key c past u
      cases hacts : asked r && acts (handle server r).2.2 with
      | false =>
        rw [if_neg (by simp), List.nil_append]
        omega
      | true =>
        have hanswer : answer past c = none := by
          unfold answer
          rw [← check_congr hhits]
          exact hadmits hacts
        have hcount : inWindow [time r] u + countInWindow key past u = countInWindow key (c :: past) u := by
          have hlimited : c.limited = true := by
            show decide (0 < n) = true
            simpa using hn
          have hrecorded : recordedTimes key (c :: past) = time r :: recordedTimes key past :=
            recordedTimes_of_recorded rfl hlimited hanswer
          unfold countInWindow inWindow
          rw [hrecorded]
          simp only [List.countP_cons, List.countP_nil]
          omega
        rw [if_pos rfl]
        unfold inWindow at hcount hnext ⊢
        rw [List.countP_append]
        omega

/-! ## What the gates count -/

section Gates

variable {site : Site F} {reads : VaultReads} {clock : Clock} {hits : Hits} {request : WebhookRequest}

omit [PyDates F] in
/-- What the gates do to the hits: nothing, a call for the caller, or one for the action behind
it. Only then may they admit. -/
theorem webhookGate_hits_cases :
    ((webhookGate site reads clock hits request).1 = hits ∧
      ∀ a, (webhookGate site reads clock hits request).2 ≠ .admitted a) ∨
    ∃ checked, check hits (callerKey request.apiKey) (limitForRole site.limits
        (getRoleFromApiKey (resolveApiKeys site.auth reads.role) request.apiKey)) windowSeconds
        clock.caller = checked ∧
      ((webhookGate site reads clock hits request).1 = checked.1 ∧
          (∀ a, (webhookGate site reads clock hits request).2 ≠ .admitted a) ∨
        ∃ eventType, (webhookGate site reads clock hits request).1 =
            (check checked.1 (actionKey eventType) (limitForAction site.limits eventType) windowSeconds
              clock.action).1 ∧
          ∀ a, (webhookGate site reads clock hits request).2 = .admitted a →
            a.payload.eventType = eventType) := by
  unfold webhookGate
  cases (requestJson request.body : Option (JsonDoc F)) with
  | none => exact Or.inl ⟨rfl, fun a ha => by cases ha⟩
  | some raw =>
    simp only
    cases webhookPayload raw.val with
    | none =>
      simp only
      split <;> exact Or.inl ⟨rfl, fun a ha => by cases ha⟩
    | some payload =>
      refine Or.inr ⟨_, rfl, ?_⟩
      simp only
      unfold payloadGate
      simp only
      generalize check hits (callerKey request.apiKey) _ _ _ = checked
      rcases checked with ⟨hits₁, _ | retryAfter⟩
      swap
      · exact Or.inl ⟨rfl, fun a ha => by cases ha⟩
      cases (getActionConfig site payload.eventType).filter fun action => !action.isEmpty with
      | none => exact Or.inl ⟨rfl, fun a ha => by cases ha⟩
      | some action =>
        refine Or.inr ⟨payload.eventType, ?_⟩
        simp only
        generalize check hits₁ (actionKey payload.eventType) _ _ _ = checked
        rcases checked with ⟨hits₂, _ | retryAfter⟩
        · refine ⟨rfl, fun a ha => ?_⟩
          rw [(authorize_eq_admitted.mp ha).2.1]
        · exact ⟨rfl, fun a ha => by cases ha⟩

omit [PyDates F] in
/-- The gates ask the limiter about an action, or leave its hits as they are. -/
theorem webhookGate_actionKey (eventType : Str) :
    ((webhookGate site reads clock hits request).1 (actionKey eventType) = hits (actionKey eventType) ∧
        ∀ a, (webhookGate site reads clock hits request).2 = .admitted a →
          a.payload.eventType ≠ eventType) ∨
      (webhookGate site reads clock hits request).1 (actionKey eventType) =
        (check hits (actionKey eventType) (limitForAction site.limits eventType) windowSeconds
          clock.action).1 (actionKey eventType) := by
  rcases @webhookGate_hits_cases F _ _ site reads clock hits request with
    ⟨hhits, hstop⟩ | ⟨checked, rfl, hchecked⟩
  · exact Or.inl ⟨by rw [hhits], fun a ha => absurd ha (hstop a)⟩
  · have hcaller := check_of_ne (callerKey_ne_actionKey request.apiKey eventType) hits
      (limitForRole site.limits (getRoleFromApiKey (resolveApiKeys site.auth reads.role)
        request.apiKey)) windowSeconds clock.caller
    rcases hchecked with ⟨hhits, hstop⟩ | ⟨asked, hhits, hasked⟩
    · exact Or.inl ⟨by rw [hhits, hcaller], fun a ha => absurd ha (hstop a)⟩
    · by_cases heq : asked = eventType
      · subst heq
        right
        rw [hhits]
        exact check_self_congr hcaller _
      · left
        have hne : actionKey eventType ≠ actionKey asked := fun h => heq (List.append_cancel_left h).symm
        refine ⟨by rw [hhits, check_of_ne hne, hcaller], fun a ha => ?_⟩
        rw [hasked a ha]
        exact heq

omit [PyDates F] in
/-- The gates ask the limiter about the caller, or leave its hits as they are. -/
theorem webhookGate_callerKey (apiKey : Str) :
    ((webhookGate site reads clock hits request).1 (callerKey apiKey) = hits (callerKey apiKey) ∧
        (request.apiKey = apiKey → ∀ a, (webhookGate site reads clock hits request).2 ≠ .admitted a)) ∨
      request.apiKey = apiKey ∧ (webhookGate site reads clock hits request).1 (callerKey apiKey) =
        (check hits (callerKey apiKey) (limitForRole site.limits (getRoleFromApiKey
          (resolveApiKeys site.auth reads.role) apiKey)) windowSeconds clock.caller).1
            (callerKey apiKey) := by
  have hother : ∀ {hits : Hits} {eventType : Str}, (check hits (actionKey eventType)
      (limitForAction site.limits eventType) windowSeconds clock.action).1 (callerKey apiKey) =
        hits (callerKey apiKey) := fun {hits eventType} =>
    check_of_ne (callerKey_ne_actionKey apiKey eventType).symm hits _ _ _
  rcases @webhookGate_hits_cases F _ _ site reads clock hits request with
    ⟨hhits, hstop⟩ | ⟨checked, rfl, hchecked⟩
  · exact Or.inl ⟨by rw [hhits], fun _ => hstop⟩
  · -- whatever follows is no call for a caller
    have hafter : (webhookGate site reads clock hits request).1 (callerKey apiKey) =
        (check hits (callerKey request.apiKey) (limitForRole site.limits (getRoleFromApiKey
          (resolveApiKeys site.auth reads.role) request.apiKey)) windowSeconds clock.caller).1
            (callerKey apiKey) := by
      rcases hchecked with ⟨hhits, -⟩ | ⟨asked, hhits, -⟩
      · rw [hhits]
      · rw [hhits, hother]
    by_cases heq : request.apiKey = apiKey
    · subst heq
      exact Or.inr ⟨rfl, hafter⟩
    · left
      have hne : callerKey apiKey ≠ callerKey request.apiKey := fun h =>
        heq (List.append_cancel_left h).symm
      exact ⟨by rw [hafter, check_of_ne hne], fun h => absurd h heq⟩

end Gates

/-! ## What requests count -/

section Requests

variable {r : HttpRequest F} {server : ServerState F}

omit [PydanticTypes F] in
theorem hits_withAudit (site : Site F) (env : RequestEnv F) (server : ServerState F) (entry : Dict F)
    (answer : Py (Response F)) (effects : List (Effect F)) :
    (withAudit site env server entry fun server => ⟨server, answer, effects⟩).server.hits =
      server.hits := by
  rcases withAudit_server site env server entry answer effects with ⟨log, hserver⟩
  rw [hserver]

/-- `/webhook` leaves the hits that its gates leave. -/
theorem webhook_hits_eq {site : Site F} {env : RequestEnv F}
    (halone : ∀ server, env.meanwhile server = server) (request : WebhookRequest) :
    (webhook site env server request).server.hits =
      (webhookGate site env.vault env.clock server.hits request).1 := by
  unfold webhook
  rcases webhookGate site env.vault env.clock server.hits request with ⟨hits, gate⟩
  cases gate with
  | refused response => rfl
  | limited response entry => exact hits_withAudit site env _ entry _ _
  | admitted a =>
    simp only
    unfold webhookAdmitted
    split
    · rfl
    · split
      · exact hits_withAudit site env _ _ _ _
      · unfold webhookExecute
        rcases a.task.execute env.executor with e | _ | result
        · simp only [halone]
        · simp only [halone]
        · simp only [halone]
          exact hits_withAudit site env _ _ _ _

/-- `/webhook` does something only for what its gates admit. -/
theorem admitted_of_acts {site : Site F} {env : RequestEnv F} {request : WebhookRequest}
    (h : acts (webhook site env server request).effects = true) :
    ∃ a, Passes site env.vault env.clock server.hits request a := by
  by_contra hstopped
  rcases List.any_eq_true.mp h with ⟨effect, heffect, hreport⟩
  rcases (webhook_of_not_passes fun a ha => hstopped ⟨a, ha⟩).2 effect heffect with ⟨entry, rfl⟩
  cases hreport

theorem approve_hits {site : Site F} {env : RequestEnv F}
    (halone : ∀ server, env.meanwhile server = server) (apiKey approvalId : Str) :
    (approve site env server apiKey approvalId).1.server.hits = server.hits := by
  unfold approve
  simp only
  split_ifs
  · rfl
  · cases lookupPending server.queue apiKey approvalId (py "approve") with
    | refused response => rfl
    | found e =>
      simp only
      unfold approvePending
      cases review site env.vault server.cooldowns env.clock.check e with
      | raised error => rfl
      | lost => rfl
      | cooling task remaining => exact hits_withAudit site env server _ _ _
      | claimed task =>
        simp only
        unfold approveExecute
        rcases task.execute env.executor with error | _ | result
        · simp only [halone]
          rfl
        · simp only [halone]
          rfl
        · simp only [halone]
          exact hits_withAudit site env _ _ _ _

omit [PydanticTypes F] in
theorem reject_hits {site : Site F} {env : RequestEnv F} (apiKey approvalId : Str) :
    (reject site env server apiKey approvalId).1.server.hits = server.hits := by
  unfold reject
  simp only
  split_ifs
  · rfl
  · cases lookupPending server.queue apiKey approvalId (py "reject") with
    | refused response => rfl
    | found e =>
      simp only
      unfold rejectPending
      simp only
      split
      · exact hits_withAudit site env _ _ _ _
      · rfl

/-- A request leaves the hits alone, or it is one to `/webhook` that was let through. -/
theorem handle_hits (halone : r.Alone) (server : ServerState F) :
    ((handle server r).1.hits = server.hits ∧
        ((∃ body, r.endpoint = .webhook body) → acts (handle server r).2.2 = false)) ∨
      ∃ body, r.endpoint = .webhook body ∧
        (handle server r).1.hits = (webhookGate r.site r.env.vault r.env.clock server.hits
          ⟨r.key, body, r.clientHost⟩).1 ∧
        (handle server r).2.2 = (webhook r.site r.env server ⟨r.key, body, r.clientHost⟩).effects := by
  refine @HttpRequest.dispatch_rule F _ _ _ r server (fun h => (h.server.hits = server.hits ∧
      ((∃ body, r.endpoint = .webhook body) → acts h.effects = false)) ∨
    ∃ body, r.endpoint = .webhook body ∧
      h.server.hits = (webhookGate r.site r.env.vault r.env.clock server.hits
        ⟨r.key, body, r.clientHost⟩).1 ∧
      h.effects = (webhook r.site r.env server ⟨r.key, body, r.clientHost⟩).effects) ?_ ?_ ?_ ?_
  · exact fun answer => Or.inl ⟨rfl, fun _ => rfl⟩
  · exact fun body hendpoint => Or.inr ⟨body, hendpoint, webhook_hits_eq halone _, rfl⟩
  · intro approvalId hendpoint
    refine Or.inl ⟨approve_hits halone _ _, ?_⟩
    rintro ⟨body, hbody⟩
    cases hendpoint.symm.trans hbody
  · intro approvalId hendpoint
    refine Or.inl ⟨reject_hits _ _, ?_⟩
    rintro ⟨body, hbody⟩
    cases hendpoint.symm.trans hbody

/-- Requests for an action are metered by the action. -/
theorem metered_action {eventType : Str} {n : Int} (halone : r.Alone)
    (hlimit : limitForAction r.site.limits eventType = some n) :
    Metered (actionKey eventType) n (HttpRequest.asksFor eventType) (fun r => r.env.clock.action) r := by
  intro server
  rcases handle_hits halone server with ⟨hsame, hidle⟩ | ⟨body, hendpoint, hhits, heffects⟩
  · refine Or.inl ⟨by rw [hsame], ?_⟩
    rw [Bool.and_eq_false_imp]
    intro hasked
    refine hidle ?_
    unfold HttpRequest.asksFor at hasked
    revert hasked
    cases r.endpoint <;> simp
  · have hpasses : (HttpRequest.asksFor eventType r && acts (handle server r).2.2) = true →
        ∃ a, Passes r.site r.env.vault r.env.clock server.hits ⟨r.key, body, r.clientHost⟩ a ∧
          a.payload.eventType = eventType := by
      intro hacting
      rw [Bool.and_eq_true, heffects] at hacting
      rcases admitted_of_acts hacting.2 with ⟨a, ha⟩
      refine ⟨a, ha, ?_⟩
      have hasked := hacting.1
      have hjson : requestJson body = some a.raw := ha.json
      unfold HttpRequest.asksFor at hasked
      simp only [hendpoint, hjson, Option.bind_some, ha.valid, Option.any_some, decide_eq_true_eq]
        at hasked
      exact hasked
    rcases @webhookGate_actionKey F _ _ r.site r.env.vault r.env.clock server.hits
      ⟨r.key, body, r.clientHost⟩ eventType with ⟨hsame, hnot⟩ | hcalled
    · refine Or.inl ⟨by rw [hhits, hsame], ?_⟩
      rw [← Bool.not_eq_true]
      intro hacting
      rcases hpasses hacting with ⟨a, ha, hevent⟩
      exact hnot a (webhookGate_eq_admitted.mpr ha) hevent
    · rw [hlimit] at hcalled
      refine Or.inr ⟨by rw [hhits, hcalled], fun hacting => ?_⟩
      rcases hpasses hacting with ⟨a, ha, rfl⟩
      rw [← hlimit]
      exact ha.limit

/-- Requests of a caller are metered by the caller. -/
theorem metered_caller {apiKey : Str} {n : Int} (halone : r.Alone)
    (hlimit : limitForRole r.site.limits
      (getRoleFromApiKey (resolveApiKeys r.site.auth r.env.vault.role) apiKey) = some n) :
    Metered (callerKey apiKey) n (HttpRequest.calledBy apiKey) (fun r => r.env.clock.caller) r := by
  intro server
  rcases handle_hits halone server with ⟨hsame, hidle⟩ | ⟨body, hendpoint, hhits, heffects⟩
  · refine Or.inl ⟨by rw [hsame], ?_⟩
    rw [Bool.and_eq_false_imp]
    intro hasked
    refine hidle ?_
    unfold HttpRequest.calledBy at hasked
    revert hasked
    cases r.endpoint <;> simp
  · have hpasses : (HttpRequest.calledBy apiKey r && acts (handle server r).2.2) = true →
        r.key = apiKey ∧
          ∃ a, Passes r.site r.env.vault r.env.clock server.hits ⟨r.key, body, r.clientHost⟩ a := by
      intro hacting
      rw [Bool.and_eq_true, heffects] at hacting
      refine ⟨?_, admitted_of_acts hacting.2⟩
      have hcalled := hacting.1
      unfold HttpRequest.calledBy at hcalled
      simpa [hendpoint] using hcalled
    rcases @webhookGate_callerKey F _ _ r.site r.env.vault r.env.clock server.hits
      ⟨r.key, body, r.clientHost⟩ apiKey with ⟨hsame, hnot⟩ | ⟨hkey, hcalled⟩
    · refine Or.inl ⟨by rw [hhits, hsame], ?_⟩
      rw [← Bool.not_eq_true]
      intro hacting
      rcases hpasses hacting with ⟨hkey, a, ha⟩
      exact hnot hkey a (webhookGate_eq_admitted.mpr ha)
    · rw [hlimit] at hcalled
      refine Or.inr ⟨by rw [hhits, hcalled], fun hacting => ?_⟩
      rcases hpasses hacting with ⟨hkey, a, ha⟩
      have hadmitted := ha.caller
      rw [ha.role] at hadmitted
      simp only [hkey, hlimit] at hadmitted
      exact hadmitted

end Requests

/-! ## Runs -/

/-- Over any requests, one after the other, with clocks that do not go back: `/webhook` executes
and queues an action, for all callers together, at most as often in a minute as the limit of the
action says, and does at most as much in a minute for one caller as the limit of its role says. -/
theorem rates_bounded {server : ServerState F} {requests : List (HttpRequest F)}
    (halone : ∀ r ∈ requests, r.Alone) {n : Int} (hn : 0 < n) (u : ℚ) :
    (∀ eventType, server.hits (actionKey eventType) = [] →
        (requests.Pairwise fun r r' => r.env.clock.action ≤ r'.env.clock.action) →
        (∀ r ∈ requests, limitForAction r.site.limits eventType = some n) →
        (inWindow (actingTimes (HttpRequest.asksFor eventType) (fun r => r.env.clock.action) server
          requests) u : Int) ≤ n) ∧
      ∀ apiKey, server.hits (callerKey apiKey) = [] →
        (requests.Pairwise fun r r' => r.env.clock.caller ≤ r'.env.clock.caller) →
        (∀ r ∈ requests, limitForRole r.site.limits
          (getRoleFromApiKey (resolveApiKeys r.site.auth r.env.vault.role) apiKey) = some n) →
        (inWindow (actingTimes (HttpRequest.calledBy apiKey) (fun r => r.env.clock.caller) server
          requests) u : Int) ≤ n := by
  have hstart : ∀ key, server.hits key = [] → server.hits key = hitsAfter [] key := fun _ h => h
  have hempty : ∀ key, countInWindow key [] u = 0 := fun _ => rfl
  constructor
  · intro eventType hhits hclock hlimit
    have hbound := actingTimes_le hn (fun r hr => metered_action (halone r hr) (hlimit r hr)) hclock
      List.Pairwise.nil (by simp) (by simp) (hstart _ hhits) u
    rwa [hempty, Nat.add_zero] at hbound
  · intro apiKey hhits hclock hlimit
    have hbound := actingTimes_le hn (fun r hr => metered_caller (halone r hr) (hlimit r hr)) hclock
      List.Pairwise.nil (by simp) (by simp) (hstart _ hhits) u
    rwa [hempty, Nat.add_zero] at hbound

/-- The request of `operator-key`, for an action that may run once a minute and by a role that may
act once a minute. -/
def meteredWebhook : HttpRequest NanFloat :=
  { exampleWebhook with
    site := { exampleWebhook.site with
      limits := ⟨none, [(py "operator", ⟨some (some 1)⟩)], [(py "check", ⟨some (some 1)⟩)]⟩ } }

/-- Of three such requests at once one at most is not refused. -/
theorem rates_bounded_example :
    (inWindow (actingTimes (HttpRequest.asksFor (py "check")) (fun r => r.env.clock.action)
        (exampleServer []) [meteredWebhook, meteredWebhook, meteredWebhook]) 0 : Int) ≤ 1 ∧
      (inWindow (actingTimes (HttpRequest.calledBy (py "operator-key")) (fun r => r.env.clock.caller)
        (exampleServer []) [meteredWebhook, meteredWebhook, meteredWebhook]) 0 : Int) ≤ 1 := by
  have hmetered : ∀ r ∈ [meteredWebhook, meteredWebhook, meteredWebhook], r = meteredWebhook := by
    simp
  have halone : ∀ r ∈ [meteredWebhook, meteredWebhook, meteredWebhook], r.Alone := by
    intro r hr
    rw [hmetered r hr]
    exact fun _ => rfl
  have hlimit : ∀ r ∈ [meteredWebhook, meteredWebhook, meteredWebhook],
      limitForAction r.site.limits (py "check") = some 1 ∧ limitForRole r.site.limits
        (getRoleFromApiKey (resolveApiKeys r.site.auth r.env.vault.role) (py "operator-key")) =
          some 1 := by
    intro r hr
    rw [hmetered r hr]
    exact ⟨rfl, rfl⟩
  have hbounds := @rates_bounded NanFloat _ _ _ (exampleServer []) _ halone 1 (by decide) 0
  exact ⟨hbounds.1 _ rfl (by simp) fun r hr => (hlimit r hr).1,
    hbounds.2 _ rfl (by simp) fun r hr => (hlimit r hr).2⟩

end AutoHeal.Server
