import AutoHeal.Server.Queue

/-!
# Requests

What the handlers of `src/main.py` share: the state of the server, what a request meets
outside of it, and what comes of a request. A `Task` is what a handler has decided to
execute; the cooldown, the execution and the audit entry about it are functions of the
task.
-/

namespace AutoHeal.Server

open Audit

variable {F : Type}

/-! ## The server and its surroundings -/

/-- The state of the server: the approval queue, the text of its file, the cooldowns, the
rate limiter and the directory of the audit log. -/
structure ServerState (F : Type) where
  queue : List (Approval F)
  stateFile : Option Str
  cooldowns : Cooldowns
  hits : Hits
  log : Audit.Dir

/-- The clock, whenever a request reads it. -/
structure Clock where
  caller : ℚ
  action : ℚ
  check : ℚ
  record : ℚ
  prune : ℚ
  audit : DateTime

/-- What a request meets outside the server. `saves` and `savesResult` say whether the
state file can be written, `meanwhile` is what other requests do while this one
executes. -/
structure RequestEnv (F : Type) where
  vault : VaultReads
  clock : Clock
  audit : Audit.Env
  executor : Executor F
  uuid : Uuid
  saves : Bool
  savesResult : Bool
  meanwhile : ServerState F → ServerState F

/-! ## What comes of a request -/

/-- What a request does: an entry put in the approval queue, a call of `execute_action`, a
cooldown recorded, an entry written to the audit log, a notification. -/
inductive Effect (F : Type) where
  | queued (entry : Approval F)
  | executed (action : ActionConfig F) (controller : Option (Dict F)) (params : Dict F)
      (dryRun : Option Bool)
  | recorded (key : Str)
  | audited (entry : Dict F)
  | notified (call : NotifyCall F)

/-- An entry written to the audit log. -/
def Effect.isAudited : Effect F → Bool
  | .audited _ => true
  | .queued _ | .executed .. | .recorded _ | .notified _ => false

/-- A record of what has been done. -/
def Effect.isReport : Effect F → Bool
  | .recorded _ | .audited _ | .notified _ => true
  | .queued _ | .executed .. => false

/-- The server after a request, what it answers or raises, and what it has done. -/
structure Outcome (F : Type) where
  server : ServerState F
  answer : Py (Response F)
  effects : List (Effect F)

/-- The outcome where `effects` came first. -/
def Outcome.after (effects : List (Effect F)) (o : Outcome F) : Outcome F :=
  { o with effects := effects ++ o.effects }

/-- `execute_action` is called. -/
def Outcome.Executes (o : Outcome F) : Prop :=
  ∃ action controller params dryRun, Effect.executed action controller params dryRun ∈ o.effects

/-- An approval entry is appended. -/
def Outcome.Queues (o : Outcome F) : Prop := ∃ entry, Effect.queued entry ∈ o.effects

/-! ## Tasks -/

/-- An action to execute on a controller, and the payload that asked for it. -/
structure Task (F : Type) where
  payload : WebhookPayload F
  action : ActionConfig F
  controllerName : Option Str
  controller : Option (Dict F)

namespace Task

def params (t : Task F) : Dict F := mergedParams t.action t.payload

def dryRun (t : Task F) : Option Bool := t.payload.dryRun

/-- `action_config.get("cooldown_seconds", 0)`. -/
def cooldownSeconds (t : Task F) : ℚ := t.action.cooldownSeconds.getD 0

/-- `not dry_run and cooldown_seconds`. -/
def coolsDown (t : Task F) : Bool := !isSet t.dryRun && t.cooldownSeconds ≠ 0

/-- The call of `execute_action`. -/
def executed (t : Task F) : Effect F := .executed t.action t.controller t.params t.dryRun

/-- `controller_config.get("type")`. -/
def controllerType (t : Task F) : PyVal F := field (py "type") (t.controller.getD [])

def notify (t : Task F) (user : Str) (result : ExecResult) : NotifyCall F where
  action := t.payload.eventType
  controller := t.controllerName
  user := user
  status := result.notifyStatus
  details := result.details
  severity := t.action.severity

variable [PyRuntime F]

def cooldownKey (t : Task F) : Str :=
  cooldownKeyFor t.action t.payload.eventType t.controllerName t.params

/-- The seconds the task has to wait, at a time. -/
def remaining (t : Task F) (cooldowns : Cooldowns) (now : ℚ) : Option ℚ :=
  if t.coolsDown then secondsRemaining cooldowns t.cooldownKey t.cooldownSeconds now else none

/-- A task does not wait if it is a dry run, has no cooldown, or has no time left. -/
theorem remaining_eq_none {t : Task F} {cooldowns : Cooldowns} {now : ℚ} :
    t.remaining cooldowns now = none ↔
      isSet t.dryRun = true ∨ t.cooldownSeconds = 0 ∨
        secondsRemaining cooldowns t.cooldownKey t.cooldownSeconds now = none := by
  unfold remaining coolsDown
  cases hdry : isSet t.dryRun with
  | true => simp
  | false =>
    by_cases hseconds : t.cooldownSeconds = 0
    · simp [hseconds]
    · simp [hseconds]

/-- The cooldowns once the task has been executed. -/
def record (t : Task F) (cooldowns : Cooldowns) (now nowPrune : ℚ) : Cooldowns :=
  if t.coolsDown then recordCooldown cooldowns t.cooldownKey now nowPrune else cooldowns

/-- The record of a cooldown, if the task makes one. -/
def recorded (t : Task F) : List (Effect F) :=
  if t.coolsDown then [.recorded t.cooldownKey] else []

theorem isReport_of_mem_recorded (t : Task F) {effect : Effect F} (h : effect ∈ t.recorded) :
    effect.isReport = true := by
  unfold recorded at h
  split at h
  · rw [List.mem_singleton.mp h]
    rfl
  · cases h

def execute (executor : Executor F) (t : Task F) : Py (Option ExecResult) :=
  executeAction executor t.action t.controller t.params t.dryRun

/-- The audit entry about an execution. -/
def auditEntry (t : Task F) (user : Str) (role : Option Str) (result : ExecResult)
    (clientIp : Option Str) : Dict F :=
  auditFields user role (.str t.payload.eventType) (optStr t.controllerName) t.controllerType
    (.dict t.params) result.asDict clientIp (optBool t.dryRun)

def blockResponse (t : Task F) (remaining : ℚ) : Response F :=
  cooldownBlockResponse t.payload.eventType t.controllerName remaining

def blockEntry (t : Task F) (apiKey : Str) (role : Option Str) : Dict F :=
  cooldownBlockAuditEntry t.payload.eventType t.controllerName t.params apiKey role t.dryRun

end Task

/-! ## Writing to the audit log -/

variable [PyRuntime F] [PyDates F]

/-- `write_audit_log(entry)` and then `next`, unless the former raises. -/
def withAudit (site : Site F) (env : RequestEnv F) (server : ServerState F) (entry : Dict F)
    (next : ServerState F → Outcome F) : Outcome F :=
  match writeAuditLog site.chain env.audit env.clock.audit server.log entry with
  | (log, .ok _) => (next { server with log }).after [.audited entry]
  | (log, .error e) => ⟨{ server with log }, .error e, []⟩

/-- Writing to the audit log changes the log only. -/
theorem withAudit_server (site : Site F) (env : RequestEnv F) (server : ServerState F) (entry : Dict F)
    (answer : Py (Response F)) (effects : List (Effect F)) :
    ∃ log, (withAudit site env server entry fun server => ⟨server, answer, effects⟩).server =
      { server with log } := by
  unfold withAudit
  rcases writeAuditLog site.chain env.audit env.clock.audit server.log entry with ⟨log, _ | _⟩
  · exact ⟨log, rfl⟩
  · exact ⟨log, rfl⟩

/-- The answer is that of the continuation, or an exception. -/
theorem withAudit_answer (site : Site F) (env : RequestEnv F) (server : ServerState F)
    (entry : Dict F) (answer : Py (Response F)) (effects : List (Effect F)) :
    (withAudit site env server entry fun server => ⟨server, answer, effects⟩).answer = answer ∨
      ∃ e, (withAudit site env server entry fun server => ⟨server, answer, effects⟩).answer =
        .error e := by
  unfold withAudit
  rcases writeAuditLog site.chain env.audit env.clock.audit server.log entry with ⟨log, e | _⟩
  · exact Or.inr ⟨e, rfl⟩
  · exact Or.inl rfl

/-- The effects are those of the continuation, with the entry before them, or none. -/
theorem withAudit_effects (site : Site F) (env : RequestEnv F) (server : ServerState F) (entry : Dict F)
    (answer : Py (Response F)) (effects : List (Effect F)) :
    (withAudit site env server entry fun server => ⟨server, answer, effects⟩).effects =
        .audited entry :: effects ∨
      (withAudit site env server entry fun server => ⟨server, answer, effects⟩).effects = [] := by
  unfold withAudit
  rcases writeAuditLog site.chain env.audit env.clock.audit server.log entry with ⟨log, _ | _⟩
  · exact Or.inr rfl
  · exact Or.inl rfl

/-! ## A server to run examples on -/

/-- Examples have values of the declared types only. -/
instance : PydanticTypes NanFloat where
  str
    | .str s => some s
    | _ => none
  dict
    | .dict d => d.mapM fun kv =>
        match kv.1 with
        | .str s => some (s, kv.2)
        | _ => none
    | _ => none
  bool
    | .bool b => some b
    | _ => none
  bool_bool _ := rfl

/-- The permissions of a role in `config/auth.yaml`. -/
def examplePermissions (controllerOverride executeActions approveActions : Bool) :
    List Permission :=
  [.flags [(py "controller_override", controllerOverride)],
    .flags [(py "execute_actions", executeActions)],
    .flags [(py "audit_read", true)],
    .flags [(py "approvals_read", true)],
    .flags [(py "approve_actions", approveActions)]]

/-- The roles of `config/auth.yaml`. -/
def exampleRoles : List (Str × Option (List Permission)) :=
  [(py "admin", some (examplePermissions true true true)),
    (py "operator", some (examplePermissions false true true)),
    (py "readonly", some (examplePermissions false false false))]

/-- The keys of `config/auth.yaml`. -/
def exampleKeys : KeyMap :=
  [(py "admin-key", .role (py "admin")),
    (py "operator-key", .role (py "operator")),
    (py "readonly-key", .role (py "readonly"))]

/-- An action that is a command. -/
def exampleAction : ActionConfig NanFloat where
  defaultController := some (py "local")
  parameters := none
  cooldownSeconds := none
  cooldownKeyParam := none
  severity := none
  playbook := none
  script := none
  command := some (py "uptime")
  kubeAction := none
  others := []

/-- The controller `local`. -/
def exampleController : Dict NanFloat := [(.str (py "type"), .str (py "local"))]

def exampleSite (apiKeys : ApiKeys) (action : ActionConfig NanFloat)
    (controllers : List (Str × Dict NanFloat)) : Site NanFloat where
  auth := ⟨exampleRoles, apiKeys⟩
  actions := [(py "check", action)]
  controllers := controllers
  limits := ⟨none, [], []⟩
  chain := exampleChain []

/-- The halves of a character that is a surrogate pair. -/
def highHalf : CodePoint := 0xD83D

def lowHalf : CodePoint := 0xDE00

theorem jsonValue_payload (approvalRequired : Bool) :
    JsonValue (.dict ([(.str (py "event_type"), .str (py "check")),
      (.str (py "approval_required"), .bool approvalRequired)] : Dict NanFloat)) :=
  (jsonValue_empty.cons (by decide) rfl (.bool approvalRequired)).cons (by decide) rfl
    (.str (by decide))

/-- A payload that asks for an approval or for an execution. -/
def examplePayload (approvalRequired : Bool) : JsonDoc NanFloat :=
  ⟨.dict [(.str (py "event_type"), .str (py "check")),
      (.str (py "approval_required"), .bool approvalRequired)],
    (jsonValue_payload approvalRequired).keyed⟩

/-- A request of `operator-key`, waiting for approval. -/
def exampleEntry : Approval NanFloat where
  id := ⟨py "0e984725-c51c-4bf4-9960-e1c80e27aba0", by decide⟩
  payload := examplePayload true
  status := .pending
  result := none
  requestedBy := py "operator-key"
  role := some (py "operator")
  controller := py "local"
  processed := none

def exampleServer (queue : List (Approval NanFloat)) : ServerState NanFloat where
  queue := queue
  stateFile := none
  cooldowns _ := none
  hits _ := []
  log := exampleDir []

/-- Every command succeeds. -/
def exampleExecutor : Executor NanFloat where
  runPlaybook _ _ _ := ⟨true, [], [], 0, none⟩
  runScript _ _ _ := ⟨true, [], [], 0, none⟩
  runCommand _ _ _ := .ok ⟨true, [], [], 0, none⟩
  runRemote _ _ _ _ := .ok ⟨true, [], [], 0, none⟩
  runKubeAction _ _ _ _ := .ok ⟨true, [], [], 0, none⟩

def exampleRequestEnv (vault : VaultReads) : RequestEnv NanFloat where
  vault := vault
  clock := ⟨0, 0, 0, 0, 0, exampleEnv.nowStamp⟩
  audit := exampleEnv
  executor := exampleExecutor
  uuid := exampleEntry.id
  saves := true
  savesResult := true
  meanwhile server := server

end AutoHeal.Server
