import AutoHeal.Audit.Chain
import AutoHeal.Json.Body
import AutoHeal.Server.Auth
import AutoHeal.Server.Limits

/-!
# Actions

What a request is about and what comes of it: the payload of `/webhook`, the
configuration of actions and controllers, `execute_action`, and the entries of the
audit log.

What the executors do, and how `pydantic` checks the type of a field, is not defined
here.
-/

namespace AutoHeal.Server

open Audit

variable {F : Type}

/-! ## Values -/

/-- A value that came out of a JSON text. Its strings may be any. -/
def JsonDoc (F : Type) := { v : PyVal F // Keyed v }

/-- A string or `None`. -/
def optStr : Option Str → PyVal F
  | some s => .str s
  | none => .none

/-- A boolean or `None`. -/
def optBool : Option Bool → PyVal F
  | some b => .bool b
  | none => .none

/-- `bool(flag)`. -/
def isSet (flag : Option Bool) : Bool := flag.getD false

/-- `d.update(items)`. -/
def updateDict (d : Dict F) (items : List (Str × PyVal F)) : Dict F :=
  items.foldl (fun d item => Dict.set item.1 item.2 d) d

/-! ## The payload -/

/-- What `pydantic` accepts for a field of a type, and what it makes of it. A boolean is
accepted as it is. -/
class PydanticTypes (F : Type) where
  str : PyVal F → Option Str
  dict : PyVal F → Option (List (Str × PyVal F))
  bool : PyVal F → Option Bool
  bool_bool : ∀ b, bool (.bool b) = some b

/-- `Optional[T]`. -/
def optional {α : Type} (check : PyVal F → Option α) : PyVal F → Option (Option α)
  | .none => some none
  | v => (check v).map some

/-- A field that may be missing. -/
def fieldOr {α : Type} (raw : Dict F) (name : Str) (check : PyVal F → Option α) (default : α) :
    Option α :=
  match Dict.get? name raw with
  | some v => check v
  | none => some default

/-- `WebhookPayload`. -/
structure WebhookPayload (F : Type) where
  eventType : Str
  controllerOverride : Option Str
  parameters : Option (List (Str × PyVal F))
  dryRun : Option Bool
  approvalRequired : Option Bool

/-- `WebhookPayload(**raw)`, `none` being an exception. -/
def webhookPayload [PydanticTypes F] : PyVal F → Option (WebhookPayload F)
  | .dict raw => do
    let eventType ← (Dict.get? (py "event_type") raw).bind PydanticTypes.str
    let controllerOverride ←
      fieldOr raw (py "controller_override") (optional PydanticTypes.str) none
    let parameters ← fieldOr raw (py "parameters") (optional PydanticTypes.dict) (some [])
    let dryRun ← fieldOr raw (py "dry_run") (optional PydanticTypes.bool) (some false)
    let approvalRequired ←
      fieldOr raw (py "approval_required") (optional PydanticTypes.bool) (some false)
    return ⟨eventType, controllerOverride, parameters, dryRun, approvalRequired⟩
  | _ => none

/-! ## Configuration -/

/-- An entry of `config/actions.yaml`, or one that was discovered. `others` are the
fields that only executors read. -/
structure ActionConfig (F : Type) where
  defaultController : Option Str
  parameters : Option (Dict F)
  cooldownSeconds : Option ℚ
  cooldownKeyParam : Option Str
  severity : Option (PyVal F)
  playbook : Option Str
  script : Option Str
  command : Option Str
  kubeAction : Option Str
  others : Dict F

/-- `not action_config`. -/
def ActionConfig.isEmpty (action : ActionConfig F) : Bool :=
  action.defaultController.isNone && action.parameters.isNone && action.cooldownSeconds.isNone &&
    action.cooldownKeyParam.isNone && action.severity.isNone && action.playbook.isNone &&
    action.script.isNone && action.command.isNone && action.kubeAction.isNone &&
    action.others.isEmpty

/-- The configuration of a server, and its audit log. -/
structure Site (F : Type) where
  auth : AuthConfig
  actions : List (Str × ActionConfig F)
  controllers : List (Str × Dict F)
  limits : RateLimits
  chain : AuditChain F

/-- `get_action_config`. -/
def getActionConfig (site : Site F) (eventType : Str) : Option (ActionConfig F) :=
  site.actions.lookup eventType

/-- `get_controller_config`. No controller is called `None`. -/
def getControllerConfig (site : Site F) (controllerName : Option Str) : Option (Dict F) :=
  controllerName.bind fun name => site.controllers.lookup name

/-- `controller_override or action_config.get("default_controller")`. -/
def resolveController (controllerOverride : Option Str) (action : ActionConfig F) : Option Str :=
  match controllerOverride with
  | some name => if name = [] then action.defaultController else some name
  | none => action.defaultController

/-- The payload has a non-empty `controller_override`. -/
def overrides (controllerOverride : Option Str) : Bool :=
  match controllerOverride with
  | some name => name ≠ []
  | none => false

/-- The action's default parameters, with those of the payload over them. -/
def mergedParams (action : ActionConfig F) (payload : WebhookPayload F) : Dict F :=
  updateDict (action.parameters.getD []) (payload.parameters.getD [])

variable [PyRuntime F]

/-- `cooldown_key_for`. -/
def cooldownKeyFor (action : ActionConfig F) (eventType : Str) (controllerName : Option Str)
    (params : Dict F) : Str :=
  let dedupValue : PyVal F :=
    match action.cooldownKeyParam with
    | some param => if param = [] then .none else (Dict.get? param params).getD .none
    | none => .none
  makeKey eventType (pyStr (optStr controllerName : PyVal F)) <|
    match dedupValue with
    | .none => none
    | v => some (pyStr v)

/-! ## Execution -/

/-- `ActionExecutionResult`. -/
structure ExecResult where
  success : Bool
  stdout : Str
  stderr : Str
  exitCode : Int
  error : Option Str
  deriving DecidableEq

/-- `as_dict`. -/
def ExecResult.asDict (r : ExecResult) : Dict F :=
  [(.str (py "success"), .bool r.success),
    (.str (py "stdout"), .str r.stdout),
    (.str (py "stderr"), .str r.stderr),
    (.str (py "exit_code"), .int r.exitCode),
    (.str (py "error"), optStr r.error)]

/-- What the methods of `ActionExecutor` do. The first two catch every exception. -/
structure Executor (F : Type) where
  runPlaybook : Str → Dict F → Option Bool → ExecResult
  runScript : Str → Option (List Str) → Option Bool → ExecResult
  runCommand : Str → Dict F → Option Bool → Py ExecResult
  runRemote : Dict F → ActionConfig F → Dict F → Option Bool → Py ExecResult
  runKubeAction : Dict F → ActionConfig F → Dict F → Option Bool → Py ExecResult

/-- `is_local_controller`. -/
def isLocalController (controller : Dict F) : Bool :=
  let host := field (py "host") controller
  scalarEq (field (py "type") controller) (.str (py "local")) || scalarEq host .none ||
    scalarEq host (.str []) || scalarEq host (.str (py "localhost")) ||
    scalarEq host (.str (py "127.0.0.1"))

/-- `NO_EXECUTABLE_ERROR`. -/
def noExecutableError : Str :=
  py "No playbook, script, command, or kube_action defined for action"

/-- `execute_action`. A controller that is not configured has no `get`. -/
def executeAction (executor : Executor F) (action : ActionConfig F) (controller : Option (Dict F))
    (params : Dict F) (dryRun : Option Bool) : Py (Option ExecResult) :=
  match controller with
  | none => .error .attributeError
  | some controller =>
    if scalarEq (field (py "type") controller) (.str (py "kubeapi")) then
      (executor.runKubeAction controller action params dryRun).map some
    else if !isLocalController controller then
      (executor.runRemote controller action params dryRun).map some
    else
      match action.playbook, action.script, action.command with
      | some playbook, _, _ => .ok (some (executor.runPlaybook playbook params dryRun))
      | none, some script, _ =>
        let args := if params.isEmpty then none else some (params.map fun kv => pyStr kv.2)
        .ok (some (executor.runScript script args dryRun))
      | none, none, some command => (executor.runCommand command params dryRun).map some
      | none, none, none => .ok none

/-- A call of `notification_sender.notify`. -/
structure NotifyCall (F : Type) where
  action : Str
  controller : Option Str
  user : Str
  status : Str
  details : Option Str
  severity : Option (PyVal F)

/-- `status` of a notification. -/
def ExecResult.notifyStatus (r : ExecResult) : Str :=
  if r.success then py "success" else py "failure"

/-- `as_dict().get("stdout") or as_dict().get("error")`. -/
def ExecResult.details (r : ExecResult) : Option Str := if r.stdout = [] then r.error else some r.stdout

/-! ## Responses -/

/-- What a handler answers: an error, a refusal that passes with time, or a body. -/
inductive Response (F : Type) where
  | error (status : Nat) (detail : Str)
  | blocked (status : Nat) (detail : Str) (seconds : ℚ)
  | ok (body : Dict F)

/-- The nearest integer, of two the even one. -/
def roundHalfEven (q : ℚ) : Int :=
  let below := ⌊q⌋
  if q - below < 1 / 2 then below
  else if 1 / 2 < q - below then below + 1
  else if below % 2 = 0 then below
  else below + 1

/-- `cooldown_block_response`, the seconds unrounded. -/
def cooldownBlockResponse (eventType : Str) (controllerName : Option Str) (remaining : ℚ) :
    Response F :=
  .blocked 409 (py "Action '" ++ eventType ++ py "' on controller '" ++
    pyStr (optStr controllerName : PyVal F) ++ py "' is in cooldown for " ++
    intText (roundHalfEven remaining) ++ py " more second(s)") remaining

/-- `rate_limit_block_response`, the seconds unrounded. -/
def rateLimitBlockResponse (retryAfter : ℚ) : Response F :=
  .blocked 429 (py "Rate limit exceeded, retry in " ++ intText (roundHalfEven retryAfter) ++
    py " second(s)") retryAfter

/-! ## Audit entries -/

/-- The fields of an entry about an action. -/
def auditFields (user : Str) (role : Option Str) (action : PyVal F) (controller controllerType
    parameters : PyVal F) (execution : Dict F) (clientIp : Option Str) (dryRun : PyVal F) : Dict F :=
  [(.str (py "user"), .str user),
    (.str (py "role"), optStr role),
    (.str (py "action"), action),
    (.str (py "controller"), controller),
    (.str (py "controller_type"), controllerType),
    (.str (py "parameters"), parameters),
    (.str (py "execution"), .dict execution),
    (.str (py "client_ip"), optStr clientIp),
    (.str (py "dry_run"), dryRun)]

/-- An `execution` that did not take place. -/
def notExecuted (error : Str) : Dict F :=
  [(.str (py "success"), .bool false), (.str (py "error"), .str error)]

/-- `cooldown_block_audit_entry`. -/
def cooldownBlockAuditEntry (eventType : Str) (controllerName : Option Str) (params : Dict F)
    (apiKey : Str) (role : Option Str) (dryRun : Option Bool) : Dict F :=
  auditFields apiKey role (.str eventType) (optStr controllerName) .none (.dict params)
      (notExecuted (py "blocked-by-cooldown")) none (optBool dryRun) ++
    [(.str (py "blocked_reason"), .str (py "cooldown"))]

/-- `rate_limit_block_audit_entry`. -/
def rateLimitBlockAuditEntry (eventType apiKey : Str) (role : Option Str)
    (parameters : Option (List (Str × PyVal F))) : Dict F :=
  auditFields apiKey role (.str eventType) .none .none
      (match parameters with
        | some items => .dict (items.map fun item => (.str item.1, item.2))
        | none => .none)
      (notExecuted (py "blocked-by-rate-limit")) none .none ++
    [(.str (py "blocked_reason"), .str (py "rate_limit"))]

/-- The entry `write_audit_log` hands to the log. -/
def auditLogEntry (entry : Dict F) (timestamp : Str) : Dict F :=
  let execution : Dict F :=
    match Dict.get? (py "execution") entry with
    | some (.dict execution) => execution
    | _ => []
  let stamped := Dict.set (py "timestamp") (.str timestamp) entry
  let located := if (Dict.get? (py "client_ip") stamped).isSome then stamped
    else Dict.set (py "client_ip") .none stamped
  Dict.set (py "error") (field (py "error") execution)
    (Dict.set (py "status") (field (py "success") execution)
      (Dict.set (py "execution") (.dict execution) located))

variable [PyDates F]

/-- `write_audit_log` at a time, without the shipping. -/
def writeAuditLog (chain : AuditChain F) (env : Audit.Env) (now : DateTime) (log : Audit.Dir)
    (entry : Dict F) : Audit.Dir × Py Unit :=
  match append chain env log (auditLogEntry entry now.isoformatZ) with
  | (log', .ok _) => (log', .ok ())
  | (log', .error e) => (log', .error e)

end AutoHeal.Server
