import AutoHeal.Lib.Transition
import AutoHeal.Server.Mediation
import AutoHeal.Server.Reads
import AutoHeal.Server.Trail

/-!
# What the responses disclose

An attacker asks with keys it holds or has read. Keys are the names of users in the log and
in the queue, so whoever may read these may read keys that can do more. An attacker without
a key that can execute or approve executes nothing as long as it is shown no such key
(`attacker_executes_nothing`), and is shown one otherwise (`attacker_executes`).
-/

namespace AutoHeal.Server

open Audit Transition

variable {F : Type}

/-! ## Texts of a response -/

section Strings

variable [JsonFloat F]

/-- The strings of a field are among those of the dict. -/
theorem mem_stringsDict_of_get? {name text : Str} {d : Dict F} {v : PyVal F}
    (h : Dict.get? name d = some v) (htext : text ∈ strings v) : text ∈ stringsDict d := by
  induction d with
  | nil => cases h
  | cons kv kvs ih =>
    rcases kv with ⟨k, w⟩
    unfold Dict.get? at h
    unfold stringsDict
    rw [List.cons_append, List.mem_cons, List.mem_append]
    split_ifs at h
    · cases h
      exact Or.inr (Or.inl htext)
    · exact Or.inr (Or.inr (ih h))

/-- The texts of a response, where `errors` are those of what `pydantic` reports. -/
def Response.texts (errors : List Str) : Response F → List Str
  | .error _ detail =>
    py "detail" :: detail :: if detail = py "Invalid payload" then py "errors" :: errors else []
  | .blocked status detail _ =>
    [py "detail", detail,
      if status = 409 then py "cooldown_remaining_seconds" else py "retry_after_seconds"]
  | .ok body => strings (.dict body)

/-- The texts of an `ErrorResponse`. -/
def errorTexts (detail : Str) (errors : List Str) : List Str :=
  py "detail" :: detail :: py "code" :: py "errors" :: errors

/-- The texts of an answer, an exception being answered by `unhandled_exception_handler`. -/
def answerTexts (errors : List Str) : Py (Response F) → List Str
  | .ok response => response.texts errors
  | .error _ => errorTexts (py "Internal server error") []

def pageTexts : Py (Page F) → List Str
  | .ok (.refused response) => response.texts []
  | .ok (.items items) => stringsList items
  | .error _ => errorTexts (py "Internal server error") []

end Strings

/-! ## Requests -/

/-- A request to one of the endpoints, but for its key. A query is `none` if its limit is
no integer. -/
inductive Ask where
  | webhook (body clientHost : Option Str)
  | audit (params : Option AuditQueryParams)
  | approvals
  | approve (approvalId : Str)
  | reject (approvalId : Str)

/-- A request of the attacker with a key, the configuration and the surroundings it meets,
and the texts of what `pydantic` reports if it does not validate. -/
structure Query (F : Type) where
  site : Site F
  env : RequestEnv F
  errors : List Str
  apiKey : Str
  ask : Ask

/-- What a request comes to: the server after it, the texts of the response, and what it
has done. -/
structure Reply (F : Type) where
  server : ServerState F
  texts : List Str
  effects : List (Effect F)

def Outcome.reply [JsonFloat F] (o : Outcome F) (errors : List Str) : Reply F :=
  ⟨o.server, answerTexts errors o.answer, o.effects⟩

variable [PyRuntime F] [PyDates F] [PydanticTypes F]

/-- The middleware and the endpoints. -/
def serve (q : Query F) (server : ServerState F) : Reply F :=
  if !authenticated q.site.auth q.env.vault q.apiKey then
    ⟨server, (Response.error 401 (py "Unauthorized") : Response F).texts [], []⟩
  else
    match q.ask with
    | .webhook body clientHost =>
      (webhook q.site q.env server ⟨q.apiKey, body, clientHost⟩).reply q.errors
    | .audit none => ⟨server, errorTexts (py "Validation error") q.errors, []⟩
    | .audit (some params) =>
      ⟨server, pageTexts (getAudit q.site q.env.vault server.log q.apiKey params), []⟩
    | .approvals =>
      ⟨server, pageTexts (.ok (listApprovals q.site q.env.vault server.queue q.apiKey)), []⟩
    | .approve approvalId => (approve q.site q.env server q.apiKey approvalId).1.reply []
    | .reject approvalId => (reject q.site q.env server q.apiKey approvalId).1.reply []

/-! ## The attack -/

/-- The server, the keys that the attacker knows, and what its requests have done. -/
structure Attack (F : Type) where
  server : ServerState F
  known : Str → Prop
  deeds : List (Effect F)

/-- A key whose role can execute or approve, in one of the configurations that are served.
`serves` relates these to what Vault then answers. -/
def Empowered (serves : Site F → VaultReads → Prop) (key : Str) : Prop :=
  ∃ site reads, serves site reads ∧
    (hasPermission site.auth (getRoleFromApiKey (resolveApiKeys site.auth reads.role) key)
        (py "execute_actions") = true ∨
      hasPermission site.auth (getRoleFromApiKey (resolveApiKeys site.auth reads.role) key)
        (py "approve_actions") = true)

/-- The attacker holds keys that can neither execute nor approve. -/
def Attack.Starts (serves : Site F → VaultReads → Prop) (s : Attack F) : Prop :=
  (∀ key, s.known key → ¬ Empowered serves key) ∧ s.deeds = []

/-- What happens next: something that is no request of the attacker, or one of them. -/
inductive Turn (F : Type) where
  | other
  | attacker (q : Query F)

/-- A request of the attacker. It knows every part of every text it was answered. -/
def Attack.asked (s : Attack F) (q : Query F) : Attack F where
  server := (serve q s.server).server
  known key := s.known key ∨ ∃ text ∈ (serve q s.server).texts, key <:+: text
  deeds := s.deeds ++ (serve q s.server).effects

/-- A turn. `traffic` is what others do to the server. -/
inductive Attack.Step (serves : Site F → VaultReads → Prop)
    (traffic : ServerState F → ServerState F → Prop) : Attack F → Turn F → Attack F → Prop
  | other {s : Attack F} {server : ServerState F} : traffic s.server server →
    Attack.Step serves traffic s .other { s with server }
  | attacker {s : Attack F} {q : Query F} : serves q.site q.env.vault → s.known q.apiKey →
    Attack.Step serves traffic s (.attacker q) (s.asked q)

/-- The requests of users. -/
inductive Served (serves : Site F → VaultReads → Prop) : ServerState F → ServerState F → Prop
  | webhook {site : Site F} {env : RequestEnv F} (server : ServerState F) (request : WebhookRequest) :
    serves site env.vault → authenticated site.auth env.vault request.apiKey = true →
    Served serves server (webhook site env server request).server
  | approve {site : Site F} {env : RequestEnv F} (server : ServerState F) (apiKey approvalId : Str) :
    serves site env.vault → authenticated site.auth env.vault apiKey = true →
    Served serves server (approve site env server apiKey approvalId).1.server
  | reject {site : Site F} {env : RequestEnv F} (server : ServerState F) (apiKey approvalId : Str) :
    serves site env.vault → authenticated site.auth env.vault apiKey = true →
    Served serves server (reject site env server apiKey approvalId).1.server

/-! ## What a key that can do nothing is answered -/

/-- The texts of the responses that do not depend on the request. -/
def refusalTexts : List Str :=
  [py "detail", py "code", py "errors", py "retry_after_seconds", py "Unauthorized", py "Forbidden",
    py "Validation error", py "Internal server error", py "Malformed JSON payload",
    py "Invalid payload", py "Unknown action/event_type",
    py "Executing actions is not permitted for your role",
    py "Approving actions is not permitted for your role",
    py "Rejecting actions is not permitted for your role"]

/-- The detail of `rate_limit_block_response`. -/
def rateLimitDetail (seconds : Int) : Str :=
  py "Rate limit exceeded, retry in " ++ intText seconds ++ py " second(s)"

/-- A text with which a request is refused. -/
def RefusalText (text : Str) : Prop := text ∈ refusalTexts ∨ ∃ seconds, text = rateLimitDetail seconds

/-- The role of the key has a permission. -/
def Query.permitted (q : Query F) (permission : Str) : Bool :=
  hasPermission q.site.auth (getRoleFromApiKey (resolveApiKeys q.site.auth q.env.vault.role) q.apiKey)
    permission

/-- A text of an entry that the request shows. -/
def Shown (q : Query F) (server : ServerState F) (text : Str) : Prop :=
  authenticated q.site.auth q.env.vault q.apiKey = true ∧
    match q.ask with
    | .audit (some params) =>
      q.permitted (py "audit_read") = true ∧ ∃ file content items,
        server.log.lookup q.site.chain.base = some file ∧ decodeUtf8 file = some content ∧
          pageItems (selected params content : List (PyVal F)) = .ok items ∧
          ∃ entry ∈ items, text ∈ strings entry
    | .approvals =>
      q.permitted (py "approvals_read") = true ∧ ∃ e ∈ server.queue, text ∈ strings e.listed
    | _ => False

section Powerless

omit [PyDates F]

variable {site : Site F} {env : RequestEnv F} {server : ServerState F} {apiKey : Str}

omit [PydanticTypes F] in
/-- A refusal with a text of its own has no others. -/
theorem refusalText_of_mem {errors : List Str} {status : Nat} {detail text : Str}
    (hdetail : detail ∈ refusalTexts)
    (h : text ∈ (Response.error status detail : Response F).texts errors) :
    RefusalText text ∨ text ∈ errors := by
  unfold Response.texts at h
  rcases List.mem_cons.mp h with rfl | h
  · exact Or.inl (Or.inl (by simp [refusalTexts]))
  rcases List.mem_cons.mp h with rfl | h
  · exact Or.inl (Or.inl hdetail)
  split_ifs at h
  · rcases List.mem_cons.mp h with rfl | h
    · exact Or.inl (Or.inl (by simp [refusalTexts]))
    · exact Or.inr h
  · cases h

omit [PydanticTypes F] in
theorem refusalText_of_mem_errorTexts {errors : List Str} {detail text : Str}
    (hdetail : detail ∈ refusalTexts) (h : text ∈ errorTexts detail errors) :
    RefusalText text ∨ text ∈ errors := by
  unfold errorTexts at h
  simp only [List.mem_cons] at h
  rcases h with rfl | rfl | rfl | rfl | h
  · exact Or.inl (Or.inl (by simp [refusalTexts]))
  · exact Or.inl (Or.inl hdetail)
  · exact Or.inl (Or.inl (by simp [refusalTexts]))
  · exact Or.inl (Or.inl (by simp [refusalTexts]))
  · exact Or.inr h

/-- The gates refuse a key that cannot execute, at the latest for that. -/
theorem webhookGate_of_not_execute {reads : VaultReads} {clock : Clock} {hits : Hits}
    {request : WebhookRequest}
    (h : hasPermission site.auth
      (getRoleFromApiKey (resolveApiKeys site.auth reads.role) request.apiKey)
      (py "execute_actions") = false) :
    (∃ status, ∃ detail ∈ refusalTexts,
      (webhookGate site reads clock hits request).2 = .refused (.error status detail)) ∨
    ∃ retryAfter entry, (webhookGate site reads clock hits request).2 =
      .limited (rateLimitBlockResponse retryAfter) entry := by
  unfold webhookGate
  cases (requestJson request.body : Option (JsonDoc F)) with
  | none => exact Or.inl ⟨_, _, by simp [refusalTexts], rfl⟩
  | some raw =>
    simp only
    cases webhookPayload raw.val with
    | none =>
      simp only
      split <;> exact Or.inl ⟨_, _, by simp [refusalTexts], rfl⟩
    | some payload =>
      simp only
      unfold payloadGate
      simp only
      split
      · exact Or.inr ⟨_, _, rfl⟩
      · split
        · exact Or.inl ⟨_, _, by simp [refusalTexts], rfl⟩
        · split
          · exact Or.inr ⟨_, _, rfl⟩
          · refine Or.inl ⟨403, py "Executing actions is not permitted for your role",
              by simp [refusalTexts], ?_⟩
            unfold authorize
            simp only [h, Bool.not_false, if_true]

end Powerless

section Serving

variable {serves : Site F → VaultReads → Prop} {q : Query F} {server : ServerState F}

omit [PyRuntime F] [PyDates F] [PydanticTypes F] in
/-- What the role of a key without power lacks. -/
theorem lacks_of_not_empowered (hserves : serves q.site q.env.vault)
    (h : ¬ Empowered serves q.apiKey) :
    q.permitted (py "execute_actions") = false ∧ q.permitted (py "approve_actions") = false := by
  constructor
  · rw [← Bool.not_eq_true]
    exact fun hexecute => h ⟨_, _, hserves, Or.inl hexecute⟩
  · rw [← Bool.not_eq_true]
    exact fun happrove => h ⟨_, _, hserves, Or.inr happrove⟩

theorem serve_webhook {body clientHost : Option Str} (hask : q.ask = .webhook body clientHost)
    (hauthenticated : authenticated q.site.auth q.env.vault q.apiKey = true) :
    serve q server = (webhook q.site q.env server ⟨q.apiKey, body, clientHost⟩).reply q.errors := by
  unfold serve
  rw [if_neg (by simpa using hauthenticated), hask]

/-- What passes the gates is executed for whoever has its key. -/
theorem executed_mem_serve {request : WebhookRequest} {a : Admitted F}
    (hask : q.ask = .webhook request.body request.clientHost) (hkey : q.apiKey = request.apiKey)
    (hauthenticated : authenticated q.site.auth q.env.vault q.apiKey = true)
    (hpasses : Passes q.site q.env.vault q.env.clock server.hits request a)
    (hruns : a.Runs server.cooldowns q.env.clock.check) :
    a.task.executed ∈ (serve q server).effects := by
  rw [serve_webhook hask hauthenticated, hkey]
  exact executed_mem_webhook.mpr ⟨a, hpasses, hruns, rfl⟩

/-- `/webhook` reports at most. -/
theorem webhook_of_not_empowered (hserves : serves q.site q.env.vault)
    (h : ¬ Empowered serves q.apiKey) (body clientHost : Option Str) :
    let reply := (webhook q.site q.env server ⟨q.apiKey, body, clientHost⟩).reply q.errors
    (∀ effect ∈ reply.effects, effect.isReport = true) ∧
      ∀ text ∈ reply.texts, RefusalText text ∨ text ∈ q.errors := by
  have hexecute := (lacks_of_not_empowered hserves h).1
  -- a key without `execute_actions` passes no gate of `/webhook`
  have hstopped : ∀ a, ¬ Passes q.site q.env.vault q.env.clock server.hits
      ⟨q.apiKey, body, clientHost⟩ a := by
    intro a ha
    have hpermitted := ha.authorized.execute
    rw [ha.role] at hpermitted
    exact Bool.false_ne_true (hexecute.symm.trans hpermitted)
  refine ⟨fun effect heffect => ?_, fun text htext => ?_⟩
  · rcases (webhook_of_not_passes hstopped).2 effect heffect with ⟨entry, rfl⟩
    rfl
  · simp only [Outcome.reply] at htext
    unfold webhook at htext
    have hgate := @webhookGate_of_not_execute F _ _ q.site q.env.vault q.env.clock server.hits
      ⟨q.apiKey, body, clientHost⟩ hexecute
    revert hgate htext
    rcases webhookGate q.site q.env.vault q.env.clock server.hits ⟨q.apiKey, body, clientHost⟩ with
      ⟨hits, gate⟩
    intro htext hgate
    -- it is refused, or the limiter blocks it and writes that down
    rcases hgate with ⟨status, detail, hdetail, rfl⟩ | ⟨retryAfter, entry, rfl⟩
    · exact @refusalText_of_mem F _ q.errors status detail text hdetail htext
    · simp only at htext
      rcases withAudit_answer q.site q.env { server with hits } entry
        (.ok (rateLimitBlockResponse retryAfter)) [] with ha | ⟨e, ha⟩
      · rw [ha] at htext
        simp only [answerTexts, rateLimitBlockResponse, Response.texts, List.mem_cons,
          List.not_mem_nil, or_false] at htext
        rcases htext with rfl | rfl | rfl
        · exact Or.inl (Or.inl (by simp [refusalTexts]))
        · exact Or.inl (Or.inr ⟨_, rfl⟩)
        · exact Or.inl (Or.inl (by simp [refusalTexts]))
      · rw [ha] at htext
        rcases refusalText_of_mem_errorTexts (by simp [refusalTexts]) htext with hrefusal | herror
        · exact Or.inl hrefusal
        · cases herror

/-- A request with a key without power reports at most, and is answered refusals, what
`pydantic` reports, and what it is shown. -/
theorem serve_of_not_empowered (hserves : serves q.site q.env.vault)
    (h : ¬ Empowered serves q.apiKey) :
    (∀ effect ∈ (serve q server).effects, effect.isReport = true) ∧
      ∀ text ∈ (serve q server).texts,
        RefusalText text ∨ text ∈ q.errors ∨ Shown q server text := by
  have happrove := (lacks_of_not_empowered hserves h).2
  have hquiet : ∀ effect ∈ ([] : List (Effect F)), effect.isReport = true := by rintro effect ⟨⟩
  have hrefused : ∀ (status : Nat) (detail : Str), detail ∈ refusalTexts →
      ∀ text ∈ (Response.error status detail : Response F).texts [],
        RefusalText text ∨ text ∈ q.errors ∨ Shown q server text := by
    intro status detail hdetail text htext
    rcases refusalText_of_mem hdetail htext with hrefusal | herror
    · exact Or.inl hrefusal
    · cases herror
  have hraised : ∀ text ∈ errorTexts (py "Internal server error") [],
      RefusalText text ∨ text ∈ q.errors ∨ Shown q server text := by
    intro text htext
    rcases refusalText_of_mem_errorTexts (by simp [refusalTexts]) htext with hrefusal | herror
    · exact Or.inl hrefusal
    · cases herror
  unfold serve
  split_ifs with hunknown
  · exact ⟨hquiet, hrefused 401 _ (by simp [refusalTexts])⟩
  have hauthenticated : authenticated q.site.auth q.env.vault q.apiKey = true := by simpa using hunknown
  cases hask : q.ask with
  | webhook body clientHost =>
    have hwebhook := @webhook_of_not_empowered F _ _ _ serves q server hserves h body clientHost
    refine ⟨hwebhook.1, fun text htext => ?_⟩
    rcases hwebhook.2 text htext with hrefusal | herror
    · exact Or.inl hrefusal
    · exact Or.inr (Or.inl herror)
  | audit params =>
    cases params with
    | none =>
      refine ⟨hquiet, fun text htext => ?_⟩
      rcases refusalText_of_mem_errorTexts (by simp [refusalTexts]) htext with hrefusal | herror
      · exact Or.inl hrefusal
      · exact Or.inr (Or.inl herror)
    | some params =>
      refine ⟨hquiet, fun text htext => ?_⟩
      cases hpage : (getAudit q.site q.env.vault server.log q.apiKey params : Py (Page F)) with
      | error e =>
        simp only [hpage] at htext
        exact hraised text htext
      | ok page =>
        simp only [hpage] at htext
        cases page with
        | refused response =>
          rw [getAudit_eq_refused hpage] at htext
          exact hrefused 403 _ (by simp [refusalTexts]) text htext
        | items items =>
          -- items are only ever shown to a key that may read them
          rcases getAudit_eq_items.mp hpage with
            ⟨hpermission, ⟨-, rfl⟩ | ⟨file, content, hfile, hcontent, hitems⟩⟩
          · cases htext
          · refine Or.inr (Or.inr ⟨hauthenticated, ?_⟩)
            rw [hask]
            exact ⟨hpermission, file, content, items, hfile, hcontent, hitems, mem_stringsList.mp htext⟩
  | approvals =>
    refine ⟨hquiet, fun text htext => ?_⟩
    simp only [listApprovals] at htext
    split_ifs at htext with hforbidden
    · exact hrefused 403 _ (by simp [refusalTexts]) text htext
    · rcases mem_stringsList.mp htext with ⟨entry, hentry, htext⟩
      rcases List.mem_map.mp hentry with ⟨e, he, rfl⟩
      refine Or.inr (Or.inr ⟨hauthenticated, ?_⟩)
      rw [hask]
      exact ⟨by simpa [Query.permitted] using hforbidden, e, he, htext⟩
  -- the approver needs the permission that the key lacks
  | approve approvalId =>
    unfold Query.permitted at happrove
    simp only [Outcome.reply, approve, happrove, Bool.not_false, if_true]
    exact ⟨hquiet, hrefused 403 _ (by simp [refusalTexts])⟩
  | reject approvalId =>
    unfold Query.permitted at happrove
    simp only [Outcome.reply, reject, happrove, Bool.not_false, if_true]
    exact ⟨hquiet, hrefused 403 _ (by simp [refusalTexts])⟩

/-- The request is answered with all that it shows. -/
theorem mem_serve_of_shown {text : Str} (h : Shown q server text) :
    text ∈ (serve q server).texts := by
  rcases h with ⟨hauthenticated, h⟩
  unfold serve
  rw [if_neg (by simpa using hauthenticated)]
  cases hask : q.ask with
  | audit params =>
    rw [hask] at h
    cases params with
    | none => cases h
    | some params =>
      rcases h with ⟨hpermission, file, content, items, hfile, hcontent, hitems, htext⟩
      have hpage := getAudit_eq_items.mpr ⟨hpermission, Or.inr ⟨file, content, hfile, hcontent, hitems⟩⟩
      simp only [hpage]
      exact mem_stringsList.mpr htext
  | approvals =>
    rw [hask] at h
    rcases h with ⟨hpermission, e, he, htext⟩
    unfold Query.permitted at hpermission
    simp only [listApprovals, hpermission, Bool.not_true, Bool.false_eq_true, if_false]
    exact mem_stringsList.mpr ⟨_, List.mem_map_of_mem he, htext⟩
  | webhook _ _ => rw [hask] at h; cases h
  | approve _ => rw [hask] at h; cases h
  | reject _ => rw [hask] at h; cases h

end Serving

/-! ## What the attacker never does -/

/-- No part of the text is a key that can execute or approve. -/
def Harmless (serves : Site F → VaultReads → Prop) (text : Str) : Prop :=
  ∀ key, key <:+: text → ¬ Empowered serves key

/-- The entries that a request of the attacker shows, the refusals, and what `pydantic`
reports of its own request are harmless. -/
structure Shielded (serves : Site F → VaultReads → Prop) (q : Query F) (server : ServerState F) :
    Prop where
  shown : ∀ text, Shown q server text → Harmless serves text
  refusals : ∀ text, RefusalText text → Harmless serves text
  errors : ∀ text ∈ q.errors, Harmless serves text

/-- The turns that show the attacker nothing harmful. -/
def Attack.Shields (serves : Site F → VaultReads → Prop) (s : Attack F) : Turn F → Prop
  | .other => True
  | .attacker q => Shielded serves q s.server

/-- The attacker knows no key that can execute or approve, and has only left reports. -/
structure Powerless (serves : Site F → VaultReads → Prop) (s : Attack F) : Prop where
  keys : ∀ key, s.known key → ¬ Empowered serves key
  deeds : ∀ deed ∈ s.deeds, deed.isReport = true

section Attacking

variable {serves : Site F → VaultReads → Prop} {traffic : ServerState F → ServerState F → Prop}
  {s s' : Attack F}

/-- A request leaves the attacker without power exactly when what it shows is harmless. -/
theorem powerless_asked_iff {q : Query F} (hs : Powerless serves s) (hserves : serves q.site q.env.vault)
    (hknown : s.known q.apiKey) (hrefusals : ∀ text, RefusalText text → Harmless serves text)
    (herrors : ∀ text ∈ q.errors, Harmless serves text) :
    Powerless serves (s.asked q) ↔ ∀ text, Shown q s.server text → Harmless serves text := by
  have hreply := @serve_of_not_empowered F _ _ _ serves q s.server hserves (hs.keys _ hknown)
  constructor
  · intro hpowerless text hshown key hkey
    exact hpowerless.keys key (Or.inr ⟨text, mem_serve_of_shown hshown, hkey⟩)
  · intro hshown
    constructor
    · rintro key (hkey | ⟨text, htext, hkey⟩)
      · exact hs.keys key hkey
      · rcases hreply.2 text htext with hrefusal | herror | h
        · exact hrefusals text hrefusal key hkey
        · exact herrors text herror key hkey
        · exact hshown text h key hkey
    · intro deed hdeed
      rcases List.mem_append.mp hdeed with hdeed | hdeed
      · exact hs.deeds deed hdeed
      · exact hreply.1 deed hdeed

theorem powerless_step {turn : Turn F} (hs : Powerless serves s) (hshields : s.Shields serves turn)
    (h : Attack.Step serves traffic s turn s') : Powerless serves s' := by
  cases h with
  | other _ => exact ⟨hs.keys, hs.deeds⟩
  | attacker hserves hknown =>
    exact (powerless_asked_iff hs hserves hknown hshields.refusals hshields.errors).mpr hshields.shown

end Attacking

/-- In every run, with whatever traffic of others, in which an attacker without a key that
can execute or approve is shown no such key, its requests execute nothing and queue
nothing. -/
theorem attacker_executes_nothing {serves : Site F → VaultReads → Prop}
    {traffic : ServerState F → ServerState F → Prop} {s : Attack F}
    (h : Reachable (Attack.Starts serves) (Attack.Step serves traffic) (Attack.Shields serves) s) :
    (∀ action controller params dryRun, .executed action controller params dryRun ∉ s.deeds) ∧
      ∀ entry, .queued entry ∉ s.deeds := by
  have hpowerless : Powerless serves s := by
    refine h.invariant (fun s hs => ⟨hs.1, ?_⟩) fun s turn s' _ hs hshields hstep =>
      powerless_step hs hshields hstep
    rw [hs.2]
    rintro deed ⟨⟩
  constructor
  · intro action controller params dryRun hdeed
    cases hpowerless.deeds _ hdeed
  · intro entry hdeed
    cases hpowerless.deeds _ hdeed

/-! ## An attack with `readonly-key` -/

/-- The keys of `config/auth.yaml`, and one action. -/
def exampleServes (site : Site NanFloat) (reads : VaultReads) : Prop :=
  site = exampleSite (.literal exampleKeys) exampleAction [(py "local", exampleController)] ∧
    reads = .steady []

def exampleAttack : Attack NanFloat := ⟨exampleServer [], fun key => key = py "readonly-key", []⟩

def exampleQuery (apiKey : Str) (ask : Ask) : Query NanFloat :=
  ⟨exampleSite (.literal exampleKeys) exampleAction [(py "local", exampleController)],
    exampleRequestEnv (.steady []), [], apiKey, ask⟩

/-- Only two of the keys can execute or approve. -/
theorem empowered_example {key : Str} (h : Empowered exampleServes key) :
    key = py "admin-key" ∨ key = py "operator-key" := by
  rcases h with ⟨_, _, ⟨rfl, rfl⟩, h⟩
  have hlookup : (exampleKeys.lookup key).isSome = true := by
    rcases h with h | h
    · exact exists_lookup_of_hasPermission h
    · exact exists_lookup_of_hasPermission h
  have hkey : key = py "admin-key" ∨ key = py "operator-key" ∨ key = py "readonly-key" := by
    by_contra hother
    push Not at hother
    have hnone : exampleKeys.lookup key = none := by
      simp only [exampleKeys, List.lookup_cons, List.lookup_nil, beq_false_of_ne hother.1,
        beq_false_of_ne hother.2.1, beq_false_of_ne hother.2.2]
    rw [hnone] at hlookup
    cases hlookup
  rcases hkey with rfl | rfl | rfl
  · exact Or.inl rfl
  · exact Or.inr rfl
  · rcases h with ⟨⟨⟩⟩ | ⟨⟨⟩⟩

theorem starts_example : exampleAttack.Starts exampleServes := by
  refine ⟨?_, rfl⟩
  rintro key rfl h
  rcases empowered_example h with h | h
  · exact absurd h (by decide)
  · exact absurd h (by decide)

/-- The server once `operator-key` has asked for an approval. -/
def exampleWaiting : ServerState NanFloat :=
  (webhook (exampleSite (.literal exampleKeys) exampleAction [(py "local", exampleController)])
    (exampleRequestEnv (.steady [])) (exampleServer []) (exampleRequest true)).server

theorem exampleWaiting_queue : exampleWaiting.queue =
    [(exampleAdmitted exampleAction true).entry (exampleRequestEnv (.steady [])).uuid
      (exampleRequest true).apiKey] := by
  have hpasses := @passes_example exampleAction rfl rfl true
  unfold exampleWaiting
  rw [(webhook_queued (queued_mem_webhook.mpr ⟨_, hpasses, rfl, rfl⟩)).1,
    show (exampleServer []).queue = [] from rfl, List.nil_append, pruneQueue_singleton]

/-- The gates have counted a request that is queued, and nothing else has. -/
theorem webhook_hits {site : Site F} {env : RequestEnv F} {server : ServerState F}
    {request : WebhookRequest} {a : Admitted F}
    (h : Passes site env.vault env.clock server.hits request a)
    (happroval : isSet a.payload.approvalRequired = true) :
    (webhook site env server request).server.hits =
      (webhookGate site env.vault env.clock server.hits request).1 := by
  rw [webhook_of_passes h, webhookAdmitted, if_pos happroval]
  rfl

/-- One call of `operator-key` has been counted. -/
theorem exampleWaiting_hits : exampleWaiting.hits (callerKey (py "operator-key")) = [0] := by
  have hpasses := @passes_example exampleAction rfl rfl true
  have hcheck : RateLimiter.check (exampleServer []).hits (callerKey (py "operator-key")) (some 60)
      windowSeconds 0 = (Function.update (fun _ => []) (callerKey (py "operator-key")) [0], none) := by
    unfold RateLimiter.check
    rfl
  have hlimit : limitForRole
      (exampleSite (.literal exampleKeys) exampleAction [(py "local", exampleController)]).limits
      (getRoleFromApiKey (resolveApiKeys
        (exampleSite (.literal exampleKeys) exampleAction [(py "local", exampleController)]).auth
        (VaultReads.steady []).role) (py "operator-key")) = some 60 := rfl
  have hgate : (webhookGate
      (exampleSite (.literal exampleKeys) exampleAction [(py "local", exampleController)])
      (.steady []) (exampleRequestEnv (.steady [])).clock (exampleServer []).hits
      (exampleRequest true)).1 = Function.update (fun _ => []) (callerKey (py "operator-key")) [0] := by
    unfold webhookGate exampleRequest
    rw [requestJson_examplePayload]
    simp only [webhookPayload_examplePayload]
    unfold payloadGate
    simp only
    rw [hlimit, show (exampleRequestEnv (VaultReads.steady [])).clock.caller = 0 from rfl, hcheck]
    rfl
  have hhits := @webhook_hits NanFloat _ _ _
    (exampleSite (.literal exampleKeys) exampleAction [(py "local", exampleController)])
    (exampleRequestEnv (.steady [])) (exampleServer []) (exampleRequest true)
    (exampleAdmitted exampleAction true) hpasses rfl
  have hgate' := hhits.trans hgate
  unfold exampleWaiting
  rw [hgate', Function.update_self]

/-- A second call is within the limits. -/
theorem passes_second {hits : Hits} (hhits : hits (callerKey (py "operator-key")) = [0]) :
    Passes (exampleSite (.literal exampleKeys) exampleAction [(py "local", exampleController)])
      (.steady []) (exampleRequestEnv (.steady [])).clock hits (exampleRequest false)
      (exampleAdmitted exampleAction false) := by
  have hrecent : ([0] : List ℚ).dropWhile (fun t => decide (t ≤ 0 - windowSeconds)) = [0] := by
    unfold windowSeconds
    norm_num
  refine { passes_example rfl rfl false with caller := ?_, limit := rfl }
  show (RateLimiter.check hits (callerKey (py "operator-key")) (some 60) windowSeconds 0).2 = none
  unfold RateLimiter.check
  simp only [hhits, hrecent]
  norm_num

/-- `readonly-key` is shown the key of a request that waits. -/
theorem shown_example {server : ServerState NanFloat} {e : Approval NanFloat} (he : e ∈ server.queue) :
    Shown (exampleQuery (py "readonly-key") .approvals) server e.requestedBy := by
  rcases requestedBy_mem_listed e with ⟨fields, hlisted, hfield⟩
  refine ⟨rfl, rfl, e, he, ?_⟩
  rw [hlisted]
  exact mem_stringsDict_of_get? hfield (List.mem_singleton.mpr rfl)

/-- The attacker reads `operator-key` in `/approvals`, and executes with it. -/
theorem attacker_executes : exampleAttack.Starts exampleServes ∧
    ∃ s, Reachable (fun s => s = exampleAttack) (Attack.Step exampleServes (Served exampleServes))
        (fun _ _ => True) s ∧
      .executed exampleAction (some exampleController) [] (some false) ∈ s.deeds := by
  refine ⟨starts_example, ?_⟩
  -- `operator-key` asks for an approval
  rcases (⟨exampleWaiting, .webhook _ _ ⟨rfl, rfl⟩ rfl, exampleWaiting_queue, exampleWaiting_hits⟩ :
    ∃ waiting, Served exampleServes exampleAttack.server waiting ∧
      waiting.queue = [(exampleAdmitted exampleAction true).entry (exampleRequestEnv (.steady [])).uuid
        (exampleRequest true).apiKey] ∧ waiting.hits (callerKey (py "operator-key")) = [0]) with
    ⟨waiting, hserved, hqueue, hhits⟩
  have hstart : Reachable (fun s => s = exampleAttack)
      (Attack.Step exampleServes (Served exampleServes)) (fun _ _ => True) exampleAttack := .start rfl
  have hwaiting := hstart.move trivial (.other hserved)
  -- the attacker lists the approvals
  have hlisting := hwaiting.move trivial
    (@Attack.Step.attacker NanFloat _ _ _ exampleServes _ _
      (exampleQuery (py "readonly-key") .approvals) ⟨rfl, rfl⟩ rfl)
  have hknown := mem_serve_of_shown (shown_example
    (hqueue ▸ List.mem_singleton.mpr rfl : (exampleAdmitted exampleAction true).entry
      (exampleRequestEnv (.steady [])).uuid (exampleRequest true).apiKey ∈ waiting.queue))
  -- and executes
  have hexecuting := hlisting.move trivial
    (@Attack.Step.attacker NanFloat _ _ _ exampleServes _ _
      (exampleQuery (py "operator-key") (.webhook (exampleRequest false).body none)) ⟨rfl, rfl⟩
      (Or.inr ⟨_, hknown, List.infix_rfl⟩))
  have hruns : (exampleAdmitted exampleAction false).Runs waiting.cooldowns
      (exampleRequestEnv (.steady [])).clock.check :=
    ⟨rfl, Task.remaining_eq_none.mpr (Or.inr (Or.inl rfl))⟩
  have hserver : (serve (exampleQuery (py "readonly-key") .approvals) waiting).server = waiting := rfl
  have hdeed := @executed_mem_serve NanFloat _ _ _
    (exampleQuery (py "operator-key") (.webhook (exampleRequest false).body none)) waiting
    (exampleRequest false) (exampleAdmitted exampleAction false) rfl rfl rfl (passes_second hhits) hruns
  refine ⟨_, hexecuting, List.mem_append_right _ ?_⟩
  rw [← hserver] at hdeed
  exact hdeed

/-- No refusal has a key in it that can execute or approve. -/
theorem harmless_refusal_example {text : Str} (h : RefusalText text) : Harmless exampleServes text := by
  intro key hkey hempowered
  have hshort : ∀ text ∈ refusalTexts, ¬ py "admin-key" <:+: text ∧ ¬ py "operator-key" <:+: text := by
    decide +kernel
  rcases h with h | ⟨seconds, rfl⟩
  · rcases empowered_example hempowered with rfl | rfl
    · exact (hshort text h).1 hkey
    · exact (hshort text h).2 hkey
  · have hletter : cp 'k' ∈ key := by
      rcases empowered_example hempowered with rfl | rfl
      · decide
      · decide
    have hmem := hkey.subset hletter
    unfold rateLimitDetail at hmem
    rcases List.mem_append.mp hmem with hmem | hmem
    · rcases List.mem_append.mp hmem with hmem | hmem
      · exact absurd hmem (by decide)
      · have hdigits : cp 'k' ∉ natText seconds.natAbs := fun hdigit =>
          absurd (isDigit_of_mem_natText hdigit) (by decide)
        unfold intText at hmem
        split_ifs at hmem
        · rcases List.mem_cons.mp hmem with hmem | hmem
          · exact absurd hmem (by decide)
          · exact hdigits hmem
        · exact hdigits hmem
    · exact absurd hmem (by decide)

/-- An entry that waits since its key has been taken out of the configuration. -/
def retiredEntry : Approval NanFloat := { exampleEntry with requestedBy := py "retired-key" }

theorem harmless_retiredEntry {text : Str} (h : text ∈ strings retiredEntry.listed) :
    Harmless exampleServes text := by
  intro key hkey hempowered
  have hnone : ∀ text ∈ strings retiredEntry.listed,
      ¬ py "admin-key" <:+: text ∧ ¬ py "operator-key" <:+: text := by
    decide +kernel
  rcases empowered_example hempowered with rfl | rfl
  · exact (hnone text h).1 hkey
  · exact (hnone text h).2 hkey

/-- An attacker that is shown a key nobody has any more asks with it for the approval. -/
theorem attacker_executes_nothing_example :
    ∃ s : Attack NanFloat, s.known (py "retired-key") ∧
      (∀ action controller params dryRun, .executed action controller params dryRun ∉ s.deeds) ∧
      ∀ entry, .queued entry ∉ s.deeds := by
  have hstart : Reachable (Attack.Starts exampleServes)
      (Attack.Step exampleServes (Served exampleServes)) (Attack.Shields exampleServes)
      { exampleAttack with server := exampleServer [retiredEntry] } := .start starts_example
  have hmem : retiredEntry ∈ (exampleServer [retiredEntry]).queue := List.mem_singleton.mpr rfl
  have hlisting : Attack.Shields exampleServes
      { exampleAttack with server := exampleServer [retiredEntry] }
      (.attacker (exampleQuery (py "readonly-key") .approvals)) := by
    refine ⟨?_, fun text h => harmless_refusal_example h, ?_⟩
    · rintro text ⟨-, -, e, he, htext⟩
      rw [List.mem_singleton.mp he] at htext
      exact harmless_retiredEntry htext
    · rintro text ⟨⟩
  have hlisted := hstart.move hlisting (.attacker ⟨rfl, rfl⟩ rfl)
  have hknown := mem_serve_of_shown (shown_example hmem)
  -- the key it was shown is that of nobody
  have hshields : Attack.Shields exampleServes (Attack.asked
      { exampleAttack with server := exampleServer [retiredEntry] }
      (exampleQuery (py "readonly-key") .approvals))
      (.attacker (exampleQuery (py "retired-key") (.approve exampleEntry.id.val))) := by
    refine ⟨?_, fun text h => harmless_refusal_example h, ?_⟩
    · rintro text ⟨-, ⟨⟩⟩
    · rintro text ⟨⟩
  have hasked := hlisted.move hshields
    (.attacker ⟨rfl, rfl⟩ (Or.inr ⟨_, hknown, List.infix_rfl⟩))
  exact ⟨_, Or.inl (Or.inr ⟨_, hknown, List.infix_rfl⟩), attacker_executes_nothing hasked⟩

end AutoHeal.Server
