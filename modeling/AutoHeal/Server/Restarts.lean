import AutoHeal.Lib.Items
import AutoHeal.Server.AuditTrail
import AutoHeal.Server.Persistence
import AutoHeal.Server.Throttle

/-!
# Restarts

The server is restarted between requests: it reads the queue back from its file and forgets whom
the rate limiter has counted. Nobody notices, as long as the file could be written and no request
would have been refused for its rate without the restarts (`restarts_invisible`). The table of the
cooldowns is left as it was, which is what its tracker makes of its own file.
-/

namespace AutoHeal.Server

open Audit Purge

variable {F : Type} [PyRuntime F] [PyDates F] [PydanticTypes F]

/-! ## Inputs -/

/-- What happens to a server: a request, or a restart while there is none. -/
inductive Input (F : Type) where
  | request (r : HttpRequest F)
  | restart

omit [PyRuntime F] [PyDates F] [PydanticTypes F] in
def Input.isRequest : Input F → Bool
  | .request _ => true
  | .restart => false

/-- The process ends, and starts again. -/
def ServerState.restart (server : ServerState F) : ServerState F :=
  { server with queue := loadApprovalQueue server.stateFile, hits := fun _ => [] }

/-- The outputs are those of the requests. -/
def serveInput (server : ServerState F) :
    Input F → ServerState F × Option (HttpAnswer F × List (Effect F))
  | .request r => ((handle server r).1, some (handle server r).2)
  | .restart => (server.restart, none)

/-- What it takes for a restart not to be noticed. Nothing else happens during the request, and the
state file can be written. The names and the payload that it keeps have no surrogates which it would
join. The request is not refused for its rate. -/
structure HttpRequest.Ordinary (r : HttpRequest F) (server : ServerState F) : Prop where
  alone : r.Alone
  saves : r.env.saves = true
  savesResult : r.env.savesResult = true
  key : NoHigh r.key
  role : ∀ role, getRoleFromApiKey (resolveApiKeys r.site.auth r.env.vault.role) r.key = some role →
    NoHigh role
  controllers : ∀ kv ∈ r.site.controllers, NoHigh kv.1
  payload : ∀ body, r.endpoint = .webhook body → ∀ raw : JsonDoc F, requestJson body = some raw →
    Unsplit raw.val
  unlimited : ∀ body, r.endpoint = .webhook body → authenticated r.site.auth r.env.vault r.key = true →
    ∀ response entry, (webhookGate r.site r.env.vault r.env.clock server.hits
      ⟨r.key, body, r.clientHost⟩).2 ≠ .limited response entry

def Input.Ordinary (server : ServerState F) : Input F → Prop
  | .request r => r.Ordinary server
  | .restart => True

/-! ## Entries as they are shown -/

section Shown

omit [PyRuntime F] [PyDates F] [PydanticTypes F]

/-- An entry without its result, which only the state file has. -/
def Approval.shown (e : Approval F) : Approval F := { e with result := none }

/-- A listing leaves the result out. -/
theorem listed_shown (e : Approval F) : e.shown.listed = e.listed := by
  unfold Approval.listed Approval.toJson Approval.shown
  rfl

theorem findEntry_shown (queue : List (Approval F)) (entryId : Str) :
    findEntry (queue.map Approval.shown) entryId = (findEntry queue entryId).map Approval.shown :=
  List.find?_map

theorem updateEntry_shown (queue : List (Approval F)) (e : Approval F) :
    (updateEntry queue e.id fun _ => e).map Approval.shown =
      updateEntry (queue.map Approval.shown) e.id fun _ => e.shown := by
  unfold updateEntry
  rw [List.map_map, List.map_map]
  refine List.map_congr_left fun x _ => ?_
  show (if x.id = e.id then e else x).shown = if x.id = e.id then e.shown else x.shown
  split <;> rfl

theorem pruneQueue_shown (queue : List (Approval F)) :
    (pruneQueue queue).map Approval.shown = pruneQueue (queue.map Approval.shown) := by
  unfold pruneQueue
  generalize maxProcessedApprovals = bound
  rw [List.zipIdx_map]
  simp only [List.filter_map, List.map_map]
  rfl

end Shown

section Entries

omit [PyDates F] [PydanticTypes F]

variable {queue : List (Approval F)} {e e' : Approval F}

/-- The state file has the texts of the entry as they are, and there is no result before there is a
decision. -/
structure Approval.Steady (e : Approval F) : Prop where
  payload : Unsplit e.payload.val
  requestedBy : joinSurrogates e.requestedBy = e.requestedBy
  role : e.role.map joinSurrogates = e.role
  controller : joinSurrogates e.controller = e.controller
  processed : (e.processed.map fun p => (joinSurrogates p.1, p.2.map joinSurrogates)) = e.processed
  unresolved : e.status = .pending → e.result = none

/-- A pending entry is shown as it is. -/
theorem Approval.Steady.eq (h : e.Steady) (h' : e'.Steady) (hpending : e.status = .pending)
    (hshown : e.shown = e'.shown) : e = e' := by
  have hpending' : e'.status = .pending := by
    rw [← hpending]
    exact (congrArg Approval.status hshown).symm
  rcases e with ⟨id, payload, status, result, requestedBy, role, controller, processed⟩
  rcases e' with ⟨id', payload', status', result', requestedBy', role', controller', processed'⟩
  have hresult : result = none := h.unresolved hpending
  have hresult' : result' = none := h'.unresolved hpending'
  subst hresult hresult'
  exact hshown

/-- An entry that is decided stays steady, as the key and the role of who has decided are. -/
theorem Approval.Steady.decide (h : e.Steady) {status : Status} {result : Option (Dict F)}
    {processed : Option (Str × Option Str)} (hstatus : status ≠ .pending)
    (hprocessed : (processed.map fun p => (joinSurrogates p.1, p.2.map joinSurrogates)) = processed) :
    Approval.Steady { e with status, result, processed } where
  payload := h.payload
  requestedBy := h.requestedBy
  role := h.role
  controller := h.controller
  processed := hprocessed
  unresolved := fun hpending => absurd hpending hstatus

theorem processed_join {apiKey : Str} {role : Option Str} (hkey : NoHigh apiKey)
    (hrole : ∀ name, role = some name → NoHigh name) :
    ((some (apiKey, role)).map fun p : Str × Option Str => (joinSurrogates p.1, p.2.map joinSurrogates)) =
      some (apiKey, role) := by
  rw [Option.map_some, hkey.join]
  cases role with
  | none => rfl
  | some name => rw [Option.map_some, (hrole name rfl).join]

theorem steady_updateEntry (hqueue : ∀ x ∈ queue, x.Steady) (he : e.Steady) :
    ∀ x ∈ updateEntry queue e.id fun _ => e, x.Steady := by
  intro x hx
  rcases List.mem_map.mp hx with ⟨y, hy, rfl⟩
  split
  · exact he
  · exact hqueue y hy

end Entries

section Reread

omit [PyDates F] [PydanticTypes F]

variable {e : Approval F}

/-- The state file shows a steady entry as it is. -/
theorem Approval.Steady.shown_reread (h : e.Steady) : e.reread.shown = e.shown := by
  unfold Approval.reread Approval.shown
  simp only [e.payload.reread_eq_iff.mpr h.payload, h.requestedBy, h.role, h.controller, h.processed]

theorem Approval.Steady.reread (h : e.Steady) : e.reread.Steady := by
  constructor
  · show Unsplit e.payload.reread.val
    rw [e.payload.reread_eq_iff.mpr h.payload]
    exact h.payload
  · exact joinSurrogates_idem e.requestedBy
  · show (e.role.map joinSurrogates).map joinSurrogates = e.role.map joinSurrogates
    rw [h.role, h.role]
  · exact joinSurrogates_idem e.controller
  · show (e.processed.map _).map _ = e.processed.map _
    rw [h.processed, h.processed]
  · intro hpending
    show e.result.map readDict = none
    rw [h.unresolved hpending]
    rfl

end Reread

/-! ## States that differ by restarts -/

section Resumed

omit [PyDates F] [PydanticTypes F]

/-- A state of a run with restarts, and one of the run without them. -/
structure Resumed (s t : ServerState F) : Prop where
  queue : s.queue.map Approval.shown = t.queue.map Approval.shown
  cooldowns : s.cooldowns = t.cooldowns
  hits : ∀ key, (s.hits key).Sublist (t.hits key)
  log : s.log = t.log
  saved : loadApprovalQueue s.stateFile = s.queue.map Approval.reread
  left : ∀ e ∈ s.queue, e.Steady
  right : ∀ e ∈ t.queue, e.Steady

variable {s t : ServerState F}

/-- A restart is not noticed. -/
theorem Resumed.restart (h : Resumed s t) : Resumed s.restart t := by
  have hqueue : s.restart.queue = s.queue.map Approval.reread := h.saved
  refine ⟨?_, h.cooldowns, fun key => List.nil_sublist _, h.log, ?_, ?_, h.right⟩
  · rw [hqueue, List.map_map, ← h.queue]
    exact List.map_congr_left fun e he => (h.left e he).shown_reread
  · rw [hqueue, map_reread_reread]
    exact h.saved
  · intro e he
    rw [hqueue] at he
    rcases List.mem_map.mp he with ⟨x, hx, rfl⟩
    exact (h.left x hx).reread

/-- Both queues are changed and saved. -/
theorem Resumed.save (h : Resumed s t) {queue queue' : List (Approval F)}
    (hshown : queue.map Approval.shown = queue'.map Approval.shown)
    (hleft : ∀ e ∈ queue, e.Steady) (hright : ∀ e ∈ queue', e.Steady) (file : Option Str) :
    Resumed
      { s with queue := pruneQueue queue, stateFile := some (queueText (pruneQueue queue)) }
      { t with queue := pruneQueue queue', stateFile := file } := by
  constructor
  · show (pruneQueue queue).map Approval.shown = (pruneQueue queue').map Approval.shown
    rw [pruneQueue_shown, pruneQueue_shown, hshown]
  · exact h.cooldowns
  · exact h.hits
  · exact h.log
  · exact loadApprovalQueue_queueText _
  · exact fun e he => hleft e ((sublist_pruneQueue queue).subset he)
  · exact fun e he => hright e ((sublist_pruneQueue queue').subset he)

theorem Resumed.saveEntry (h : Resumed s t) {e : Approval F} (he : e.Steady) :
    Resumed (s.saveEntry e true) (t.saveEntry e true) := by
  refine h.save ?_ (steady_updateEntry h.left he) (steady_updateEntry h.right he) _
  rw [updateEntry_shown, updateEntry_shown, h.queue]

theorem Resumed.record (h : Resumed s t) (task : Task F) (now nowPrune : ℚ) :
    Resumed { s with cooldowns := task.record s.cooldowns now nowPrune }
      { t with cooldowns := task.record t.cooldowns now nowPrune } :=
  ⟨h.queue, by simp only [h.cooldowns], h.hits, h.log, h.saved, h.left, h.right⟩

theorem Resumed.counted (h : Resumed s t) {hits hits' : Hits}
    (hhits : ∀ key, (hits key).Sublist (hits' key)) :
    Resumed { s with hits } { t with hits := hits' } :=
  ⟨h.queue, h.cooldowns, hhits, h.log, h.saved, h.left, h.right⟩

/-- The same entries are found in both queues. -/
theorem Resumed.lookupPending (h : Resumed s t) (apiKey approvalId act : Str) :
    lookupPending s.queue apiKey approvalId act = lookupPending t.queue apiKey approvalId act := by
  have hfind : (findEntry s.queue approvalId).map Approval.shown =
      (findEntry t.queue approvalId).map Approval.shown := by
    rw [← findEntry_shown, ← findEntry_shown, h.queue]
  unfold Server.lookupPending
  cases hs : findEntry s.queue approvalId with
  | none =>
    cases ht : findEntry t.queue approvalId with
    | none => rfl
    | some e' => simp [hs, ht] at hfind
  | some e =>
    cases ht : findEntry t.queue approvalId with
    | none => simp [hs, ht] at hfind
    | some e' =>
      rw [hs, ht, Option.map_some, Option.map_some] at hfind
      have hshown : e.shown = e'.shown := Option.some.inj hfind
      have hstatus : e.shown.status = e'.shown.status := by rw [hshown]
      have hstatus : e.status = e'.status := hstatus
      simp only
      by_cases hpending : e.status = .pending
      · have hsteady := h.left e (findEntry_eq_some hs).2
        have hsteady' := h.right e' (findEntry_eq_some ht).2
        rw [hsteady.eq hsteady' hpending hshown]
      · have hpending' : e'.status ≠ .pending := hstatus ▸ hpending
        rw [if_pos hpending, if_pos hpending', hstatus]

theorem Resumed.steady_found (h : Resumed s t) {apiKey approvalId act : Str} {e : Approval F}
    (hfound : Server.lookupPending t.queue apiKey approvalId act = .found e) : e.Steady :=
  h.right e (findEntry_eq_some (lookupPending_eq_found.mp hfound).1).2

end Resumed

/-! ## Requests -/

/-- Outcomes of one request in two such states. -/
structure Unnoticed (o o' : Outcome F) : Prop where
  server : Resumed o.server o'.server
  answer : o.answer = o'.answer
  effects : o.effects = o'.effects

section Requests

variable {s t : ServerState F} {site : Site F} {env : RequestEnv F}

omit [PyDates F] [PydanticTypes F] in
theorem Unnoticed.of_response (h : Resumed s t) (answer : Py (Response F)) (effects : List (Effect F)) :
    Unnoticed ⟨s, answer, effects⟩ ⟨t, answer, effects⟩ := ⟨h, rfl, rfl⟩

omit [PyDates F] [PydanticTypes F] in
theorem Unnoticed.after {o o' : Outcome F} (h : Unnoticed o o') (effects : List (Effect F)) :
    Unnoticed (o.after effects) (o'.after effects) :=
  ⟨h.server, h.answer, congrArg (effects ++ ·) h.effects⟩

omit [PydanticTypes F] in
/-- The log is the same, and so is what comes of writing to it. -/
theorem Unnoticed.withAudit (h : Resumed s t) (entry : Dict F) {next : ServerState F → Outcome F}
    (hnext : ∀ {s t}, Resumed s t → Unnoticed (next s) (next t)) :
    Unnoticed (withAudit site env s entry next) (withAudit site env t entry next) := by
  have hwritten : ∀ log, Resumed { s with log } { t with log } := fun log =>
    ⟨h.queue, h.cooldowns, h.hits, rfl, h.saved, h.left, h.right⟩
  unfold Server.withAudit
  rw [h.log]
  rcases writeAuditLog site.chain env.audit env.clock.audit t.log entry with ⟨log, e | _⟩
  · exact ⟨hwritten log, rfl, rfl⟩
  · exact (hnext (hwritten log)).after _

omit [PyRuntime F] [PyDates F] [PydanticTypes F] in
/-- What is left of fewer hits is less. -/
theorem recent_sublist {hits hits' : Hits} {key : Str} (h : (hits key).Sublist (hits' key))
    (window now : ℚ) : (RateLimiter.recent hits key window now).Sublist
      (RateLimiter.recent hits' key window now) := by
  unfold RateLimiter.recent
  generalize hits key = times at h ⊢
  generalize hits' key = times' at h ⊢
  induction h with
  | slnil => exact List.Sublist.slnil
  | @cons l₁ l₂ a hl ih =>
    rw [List.dropWhile_cons]
    split
    · exact ih
    · exact ((List.dropWhile_sublist _).trans hl).cons a
  | @cons_cons l₁ l₂ a hl ih =>
    rw [List.dropWhile_cons, List.dropWhile_cons]
    split
    · exact ih
    · exact hl.cons_cons a

omit [PyRuntime F] [PyDates F] [PydanticTypes F] in
/-- Who is admitted is admitted with fewer hits too, and they stay fewer. -/
theorem check_sublist {hits hits' : Hits} (h : ∀ key, (hits key).Sublist (hits' key)) {key : Str}
    {limit : Option Int} {window now : ℚ}
    (hadmits : (RateLimiter.check hits' key limit window now).2 = none) :
    (RateLimiter.check hits key limit window now).2 = none ∧
      ∀ other, ((RateLimiter.check hits key limit window now).1 other).Sublist
        ((RateLimiter.check hits' key limit window now).1 other) := by
  cases hlimited : limit.any fun n => decide (0 < n) with
  | false =>
    rw [RateLimiter.check_unlimited hlimited, RateLimiter.check_unlimited hlimited]
    exact ⟨rfl, h⟩
  | true =>
    rcases Option.any_eq_true .. |>.mp hlimited with ⟨n, rfl, hn⟩
    have hpositive : 0 < n := by simpa using hn
    have hrecent := recent_sublist (h key) window now
    have hroom' := (RateLimiter.check_eq_none_iff hpositive).mp hadmits
    have hroom : ((RateLimiter.recent hits key window now).length : Int) < n := by
      have := hrecent.length_le
      omega
    rw [RateLimiter.check_admits hpositive hroom, RateLimiter.check_admits hpositive hroom']
    refine ⟨rfl, fun other => ?_⟩
    by_cases hother : other = key
    · subst hother
      simp only [Function.update_self]
      exact hrecent.append (List.Sublist.refl _)
    · simp only [Function.update_of_ne hother]
      exact h other

omit [PyDates F] in
/-- The gates let the same requests through, as long as nobody is over a limit. -/
theorem webhookGate_unnoticed {hits hits' : Hits} (h : ∀ key, (hits key).Sublist (hits' key))
    {reads : VaultReads} {clock : Clock} {request : WebhookRequest}
    (hwithin : ∀ response entry,
      (webhookGate site reads clock hits' request).2 ≠ .limited response entry) :
    (webhookGate site reads clock hits request).2 = (webhookGate site reads clock hits' request).2 ∧
      ∀ key, ((webhookGate site reads clock hits request).1 key).Sublist
        ((webhookGate site reads clock hits' request).1 key) := by
  unfold webhookGate at hwithin ⊢
  cases hjson : (requestJson request.body : Option (JsonDoc F)) with
  | none => exact ⟨rfl, h⟩
  | some raw =>
    simp only [hjson] at hwithin ⊢
    cases hpayload : webhookPayload raw.val with
    | none =>
      simp only
      split <;> exact ⟨rfl, h⟩
    | some payload =>
      simp only [hpayload] at hwithin ⊢
      unfold payloadGate at hwithin ⊢
      simp only at hwithin ⊢
      -- the limit of the caller
      have hcaller := @check_sublist hits hits' h (callerKey request.apiKey)
        (limitForRole site.limits (getRoleFromApiKey (resolveApiKeys site.auth reads.role)
          request.apiKey)) windowSeconds clock.caller
      revert hwithin hcaller
      generalize RateLimiter.check hits (callerKey request.apiKey) _ _ _ = checked
      generalize RateLimiter.check hits' (callerKey request.apiKey) _ _ _ = checked'
      rcases checked with ⟨hits₁, retry⟩
      rcases checked' with ⟨hits₁', _ | retry'⟩
      swap
      · intro hwithin
        exact absurd rfl (hwithin _ _)
      intro hwithin hcaller
      rcases hcaller rfl with ⟨hadmits, hhits⟩
      simp only at hadmits hwithin
      subst hadmits
      simp only
      cases haction : (getActionConfig site payload.eventType).filter fun action => !action.isEmpty with
      | none => exact ⟨rfl, hhits⟩
      | some action =>
        simp only [haction] at hwithin ⊢
        -- the limit of the action
        have hlimit := @check_sublist hits₁ hits₁' hhits (actionKey payload.eventType)
          (limitForAction site.limits payload.eventType) windowSeconds clock.action
        revert hwithin hlimit
        generalize RateLimiter.check hits₁ (actionKey payload.eventType) _ _ _ = checked
        generalize RateLimiter.check hits₁' (actionKey payload.eventType) _ _ _ = checked'
        rcases checked with ⟨hits₂, retry⟩
        rcases checked' with ⟨hits₂', _ | retry'⟩
        swap
        · intro hwithin
          exact absurd rfl (hwithin _ _)
        intro _ hlimit
        rcases hlimit rfl with ⟨hadmits, hhits⟩
        simp only at hadmits
        subst hadmits
        exact ⟨rfl, hhits⟩

variable (halone : ∀ server, env.meanwhile server = server)

include halone

omit [PydanticTypes F] in
theorem webhookExecute_unnoticed (h : Resumed s t) (request : WebhookRequest) (a : Admitted F) :
    Unnoticed (webhookExecute site env s request a) (webhookExecute site env t request a) := by
  unfold webhookExecute
  rcases a.task.execute env.executor with e | _ | result
  · simp only [halone]
    exact .of_response h _ _
  · simp only [halone]
    exact .of_response h _ _
  · simp only [halone]
    exact (Unnoticed.withAudit (h.record a.task _ _) _ fun h => .of_response h _ _).after _

omit [PydanticTypes F] in
theorem webhookAdmitted_unnoticed (hsaves : env.saves = true) (h : Resumed s t)
    (request : WebhookRequest) {a : Admitted F} (ha : (a.entry env.uuid request.apiKey).Steady) :
    Unnoticed (webhookAdmitted site env s request a) (webhookAdmitted site env t request a) := by
  unfold webhookAdmitted
  rw [h.cooldowns]
  split
  · -- the new entry is in both queues
    unfold enqueue saveApprovalQueueLocked
    rw [hsaves]
    refine .of_response (h.save ?_ ?_ ?_ _) _ _
    · rw [List.map_append, List.map_append, h.queue]
    · exact List.forall_mem_append.mpr ⟨h.left, by simpa using ha⟩
    · exact List.forall_mem_append.mpr ⟨h.right, by simpa using ha⟩
  · split
    · exact .withAudit h _ fun h => .of_response h _ _
    · exact webhookExecute_unnoticed halone h request a

theorem webhook_unnoticed (hsaves : env.saves = true) (h : Resumed s t) {request : WebhookRequest}
    (hkey : NoHigh request.apiKey)
    (hrole : ∀ role, getRoleFromApiKey (resolveApiKeys site.auth env.vault.role) request.apiKey =
      some role → NoHigh role)
    (hcontrollers : ∀ kv ∈ site.controllers, NoHigh kv.1)
    (hpayload : ∀ raw : JsonDoc F, requestJson request.body = some raw → Unsplit raw.val)
    (hwithin : ∀ response entry,
      (webhookGate site env.vault env.clock t.hits request).2 ≠ .limited response entry) :
    Unnoticed (webhook site env s request) (webhook site env t request) := by
  have hgate := webhookGate_unnoticed h.hits hwithin
  have hadmitted := @webhookGate_eq_admitted F _ _ site env.vault env.clock t.hits request
  unfold webhook
  revert hwithin hgate hadmitted
  rcases webhookGate site env.vault env.clock s.hits request with ⟨hits, gate⟩
  rcases webhookGate site env.vault env.clock t.hits request with ⟨hits', gate'⟩
  rintro hwithin ⟨hsame, hhits⟩ hadmitted
  simp only at hsame hhits hwithin hadmitted ⊢
  subst hsame
  have hcounted := h.counted hhits
  cases gate with
  | refused response => exact .of_response hcounted _ _
  | limited response entry => exact absurd rfl (hwithin response entry)
  | admitted a =>
    have hpasses := hadmitted.mp rfl
    refine webhookAdmitted_unnoticed halone hsaves hcounted request ?_
    -- its payload, its requester, its role and its controller are kept as they are
    constructor
    · exact hpayload a.raw hpasses.json
    · exact hkey.join
    · show a.role.map joinSurrogates = a.role
      cases hname : a.role with
      | none => rfl
      | some role => exact congrArg some (hrole role (hpasses.role.symm.trans hname)).join
    · exact (hcontrollers _ (Items.mem_of_lookup hpasses.authorized.known)).join
    · rfl
    · intro _
      rfl

omit [PydanticTypes F] in
theorem approveExecute_unnoticed (hsaves : env.savesResult = true) (h : Resumed s t) (apiKey : Str)
    (role : Option Str) (task : Task F) {e : Approval F} (he : e.Steady)
    (hstatus : e.status ≠ .pending) :
    Unnoticed (approveExecute site env s apiKey role task e).1
      (approveExecute site env t apiKey role task e).1 := by
  unfold approveExecute
  rcases task.execute env.executor with error | _ | result
  · simp only [halone]
    exact .of_response h _ _
  · simp only [halone, hsaves]
    exact .of_response (h.saveEntry (he.decide (by decide) he.processed)) _ _
  · simp only [halone, hsaves]
    have hrecorded := h.record task env.clock.record env.clock.prune
    have hsteady : (e.finish result).Steady := he.decide hstatus he.processed
    have hstored := hrecorded.saveEntry hsteady
    exact (Unnoticed.withAudit hstored _ fun h => .of_response h _ _).after _

theorem approve_unnoticed (hsaves : env.saves = true) (hsavesResult : env.savesResult = true)
    (h : Resumed s t) {apiKey : Str} (hkey : NoHigh apiKey)
    (hrole : ∀ role, getRoleFromApiKey (resolveApiKeys site.auth env.vault.role) apiKey = some role →
      NoHigh role) (approvalId : Str) :
    Unnoticed (approve site env s apiKey approvalId).1 (approve site env t apiKey approvalId).1 := by
  unfold approve
  simp only [h.lookupPending]
  split_ifs
  · exact .of_response h _ _
  · cases hfound : lookupPending t.queue apiKey approvalId (py "approve") with
    | refused response => exact .of_response h _ _
    | found e =>
      have he := h.steady_found hfound
      simp only
      unfold approvePending
      rw [h.cooldowns, hsaves]
      cases review site env.vault t.cooldowns env.clock.check e with
      | raised error => exact .of_response h _ _
      | lost => exact .of_response (h.saveEntry (he.decide (by decide) he.processed)) _ _
      | cooling task remaining => exact .withAudit h _ fun h => .of_response h _ _
      | claimed task =>
        have hclaimed : (e.claim apiKey (getRoleFromApiKey
            (resolveApiKeys site.auth env.vault.role) apiKey)).Steady :=
          he.decide (by decide) (processed_join hkey hrole)
        refine approveExecute_unnoticed halone hsavesResult (h.saveEntry hclaimed) apiKey _ task hclaimed ?_
        rintro ⟨⟩

omit [PydanticTypes F] halone in
theorem reject_unnoticed (hsaves : env.saves = true) (h : Resumed s t) {apiKey : Str}
    (hkey : NoHigh apiKey)
    (hrole : ∀ role, getRoleFromApiKey (resolveApiKeys site.auth env.vault.role) apiKey = some role →
      NoHigh role) (approvalId : Str) :
    Unnoticed (reject site env s apiKey approvalId).1 (reject site env t apiKey approvalId).1 := by
  unfold reject
  simp only [h.lookupPending]
  split_ifs
  · exact .of_response h _ _
  · cases hfound : lookupPending t.queue apiKey approvalId (py "reject") with
    | refused response => exact .of_response h _ _
    | found e =>
      have hrejected : Approval.Steady { e.fail (py "Rejected by approver") with
          processed := some (apiKey,
            getRoleFromApiKey (resolveApiKeys site.auth env.vault.role) apiKey) } :=
        (h.steady_found hfound).decide (by simp [Approval.fail]) (processed_join hkey hrole)
      simp only
      unfold rejectPending
      simp only [hsaves]
      split
      · exact .withAudit (h.saveEntry hrejected) _ fun h => .of_response h _ _
      · exact .of_response (h.saveEntry hrejected) _ _

end Requests

/-! ## Runs -/

section Runs

variable {s t : ServerState F} {r : HttpRequest F}

omit [PyDates F] [PydanticTypes F] in
/-- What a handler has done in two such states is the same to the outside. -/
theorem Unnoticed.handling {o o' : Outcome F} (h : Unnoticed o o') :
    Resumed o.handling.server o'.handling.server ∧ o.handling.answer = o'.handling.answer ∧
      o.handling.effects = o'.handling.effects := by
  refine ⟨h.server, ?_, h.effects⟩
  unfold Outcome.handling
  rw [h.answer]

theorem respond_unnoticed (h : Resumed s t) (hr : r.Ordinary t)
    (hkey : r.endpoint.isPublic = false → authenticated r.site.auth r.env.vault r.key = true) :
    Resumed (r.respond s).server (r.respond t).server ∧ (r.respond s).answer = (r.respond t).answer ∧
      (r.respond s).effects = (r.respond t).effects := by
  unfold HttpRequest.respond
  cases hendpoint : r.endpoint with
  | webhook body =>
    have hauthenticated := hkey (by rw [hendpoint]; rfl)
    exact (webhook_unnoticed hr.alone hr.saves h hr.key hr.role hr.controllers
      (hr.payload body hendpoint) (hr.unlimited body hendpoint hauthenticated)).handling
  | approve approvalId =>
    exact (approve_unnoticed hr.alone hr.saves hr.savesResult h hr.key hr.role approvalId).handling
  | reject approvalId => exact (reject_unnoticed hr.saves h hr.key hr.role approvalId).handling
  | audit params =>
    cases params with
    | none => exact ⟨h, rfl, rfl⟩
    | some params =>
      rw [h.log]
      exact ⟨h, rfl, rfl⟩
  | auditVerify =>
    rw [h.log]
    exact ⟨h, rfl, rfl⟩
  | approvals =>
    have hlisted : s.queue.map Approval.listed = t.queue.map Approval.listed := by
      have hshown : ∀ queue : List (Approval F),
          queue.map Approval.listed = (queue.map Approval.shown).map Approval.listed := by
        intro queue
        rw [List.map_map]
        exact List.map_congr_left fun e _ => (listed_shown e).symm
      rw [hshown, hshown t.queue, h.queue]
    refine ⟨h, ?_, rfl⟩
    show Page.answer (.ok (listApprovals _ _ s.queue _)) = Page.answer (.ok (listApprovals _ _ t.queue _))
    unfold listApprovals
    rw [hlisted]
  | health | live | ready | protectedEndpoint | canOverrideController => exact ⟨h, rfl, rfl⟩

/-- A request in two such states is answered the same, and a restart makes no difference. -/
theorem unwinding_restarts :
    Unwinding (serveInput (F := F)) Input.Ordinary Input.isRequest Resumed where
  hidden := by
    intro s t i _ hrestart h
    cases i with
    | request r => cases hrestart
    | restart => exact h.restart
  shown := by
    intro s t i hi hrequest h
    cases i with
    | restart => cases hrequest
    | request r =>
      have hr : r.Ordinary t := hi
      have hdispatch : Resumed (r.dispatch s).server (r.dispatch t).server ∧
          (r.dispatch s).answer = (r.dispatch t).answer ∧
          (r.dispatch s).effects = (r.dispatch t).effects := by
        unfold HttpRequest.dispatch
        by_cases hpublic : r.endpoint.isPublic = true
        · rw [if_pos hpublic, if_pos hpublic]
          exact respond_unnoticed h hr fun hprivate => absurd hpublic (by simp [hprivate])
        · rw [if_neg hpublic, if_neg hpublic]
          by_cases hkey : authenticated r.site.auth r.env.vault r.key = true
          · rw [if_neg (by simp [hkey]), if_neg (by simp [hkey])]
            exact respond_unnoticed h hr fun _ => hkey
          · rw [if_pos (by simpa using hkey), if_pos (by simpa using hkey)]
            exact ⟨h, rfl, rfl⟩
      rcases hdispatch with ⟨hserver, hanswer, heffects⟩
      refine ⟨hserver, ?_⟩
      show some ((r.dispatch s).answer, (r.dispatch s).effects) =
        some ((r.dispatch t).answer, (r.dispatch t).effects)
      rw [hanswer, heffects]

/-- A server whose queue is as its file has it is restarted between requests as often as one likes.
If the state file can be written and no request would be refused for its rate without the restarts,
every request is answered and has the effects as without them. The audit log and the cooldowns end
as they would, and so does the queue but for the results. -/
theorem restarts_invisible {server : ServerState F}
    (hsaved : loadApprovalQueue server.stateFile = server.queue.map Approval.reread)
    (hsteady : ∀ e ∈ server.queue, e.Steady) {inputs : List (Input F)}
    (hinputs : AllowedRun serveInput Input.Ordinary Input.isRequest server inputs) :
    visibleOutputs serveInput Input.isRequest server inputs =
        outputs serveInput server (inputs.filter Input.isRequest) ∧
      (run serveInput server inputs).log =
        (run serveInput server (inputs.filter Input.isRequest)).log ∧
      (run serveInput server inputs).cooldowns =
        (run serveInput server (inputs.filter Input.isRequest)).cooldowns ∧
      (run serveInput server inputs).queue.map Approval.shown =
        (run serveInput server (inputs.filter Input.isRequest)).queue.map Approval.shown := by
  have hstart : Resumed server server :=
    ⟨rfl, rfl, fun key => List.Sublist.refl _, rfl, hsaved, hsteady, hsteady⟩
  rcases unwinding_restarts.purge hinputs hstart with ⟨hend, hout⟩
  exact ⟨hout, hend.log, hend.cooldowns, hend.queue⟩

end Runs

/-! ## Examples -/

/-- `operator-key` asks for an approval. -/
def exampleAsking : HttpRequest NanFloat :=
  exampleHttpRequest (py "operator-key") (.webhook (exampleRequest true).body)

/-- `admin-key` looks at the queue, or approves. -/
def exampleLooking : HttpRequest NanFloat := exampleHttpRequest (py "admin-key") .approvals

def exampleDeciding : HttpRequest NanFloat :=
  exampleHttpRequest (py "admin-key") (.approve exampleEntry.id.val)

theorem noHigh_controllers (key : Str) (endpoint : Endpoint) :
    ∀ kv ∈ (exampleHttpRequest key endpoint).site.controllers, NoHigh kv.1 := by
  intro kv hkv
  rw [List.mem_singleton.mp hkv]
  exact (by decide : Printable (py "local")).noHigh

theorem ordinary_asking : exampleAsking.Ordinary (exampleServer []) := by
  have hrole : ∀ role, getRoleFromApiKey (resolveApiKeys exampleAsking.site.auth
      exampleAsking.env.vault.role) exampleAsking.key = some role → NoHigh role := by
    intro role hrole
    rw [← Option.some.inj hrole]
    exact (by decide : Printable (py "operator")).noHigh
  have hkey : NoHigh exampleAsking.key := (by decide : Printable (py "operator-key")).noHigh
  refine ⟨fun _ => rfl, rfl, rfl, hkey, hrole, noHigh_controllers _ _, ?_, ?_⟩
  · intro body hbody raw hraw
    rw [← Endpoint.webhook.inj hbody] at hraw
    have hread : examplePayload true = raw :=
      Option.some.inj ((requestJson_examplePayload true).symm.trans hraw)
    rw [← hread]
    exact (examplePayload true).property.jsonValue_iff.mp (jsonValue_payload true)
  · intro body hbody _ response entry hlimited
    rw [← Endpoint.webhook.inj hbody] at hlimited
    have hadmitted := webhookGate_eq_admitted.mpr (@passes_example exampleAction rfl rfl true)
    cases hadmitted.symm.trans hlimited

theorem ordinary_admin {endpoint : Endpoint} (hendpoint : ∀ body, endpoint ≠ .webhook body)
    (server : ServerState NanFloat) :
    (exampleHttpRequest (py "admin-key") endpoint).Ordinary server := by
  have hrole : ∀ role, getRoleFromApiKey (resolveApiKeys
      (exampleHttpRequest (py "admin-key") endpoint).site.auth
      (exampleHttpRequest (py "admin-key") endpoint).env.vault.role)
      (exampleHttpRequest (py "admin-key") endpoint).key = some role → NoHigh role := by
    intro role hrole
    rw [← Option.some.inj hrole]
    exact (by decide : Printable (py "admin")).noHigh
  have hkey : NoHigh (exampleHttpRequest (py "admin-key") endpoint).key :=
    (by decide : Printable (py "admin-key")).noHigh
  exact ⟨fun _ => rfl, rfl, rfl, hkey, hrole, noHigh_controllers _ _,
    fun body hbody => absurd hbody (hendpoint body), fun body hbody => absurd hbody (hendpoint body)⟩

/-- The queue is shown after a restart as it would be without it, and so is the entry executed. -/
theorem restarts_invisible_example :
    visibleOutputs serveInput Input.isRequest (exampleServer [])
        [.request exampleAsking, .restart, .request exampleLooking, .restart, .request exampleDeciding] =
      outputs serveInput (exampleServer [])
        [.request exampleAsking, .request exampleLooking, .request exampleDeciding] := by
  have hinputs : AllowedRun serveInput Input.Ordinary Input.isRequest (exampleServer [])
      [.request exampleAsking, .restart, .request exampleLooking, .restart, .request exampleDeciding] :=
    And.intro ordinary_asking ⟨trivial, ordinary_admin (by simp) _, trivial, ordinary_admin (by simp) _,
      trivial⟩
  exact (restarts_invisible rfl (fun e he => absurd he List.not_mem_nil) hinputs).1

end AutoHeal.Server
