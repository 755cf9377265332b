import AutoHeal.Notify.Sender
import AutoHeal.Server.Actions

/-!
# The channels

The `send_*` methods of `src/notifications.py`. Each goes through `sendWith`: a channel that is
not set up, or not for a status, sends nothing; a text is rendered; and the text is delivered.
`Usable` says when a channel raises nothing, `Accepts` when it delivers.
-/

namespace AutoHeal.Notify

open Server

variable {F : Type}

/-! ## What is sent -/

/-- `str.upper`. -/
class PyCase where
  upper : Str → Str

/-- The arguments of a `send_*` method. -/
structure Notice where
  action : Str
  controller : Option Str
  user : Str
  status : Str
  details : Option Str
  severity : Option Str

namespace Notice

/-- `f"{controller}"`. -/
def controllerText (n : Notice) : Str := n.controller.getD (py "None")

/-- `severity or default`. -/
def severityOr (n : Notice) (default : Str) : Str :=
  match n.severity with
  | some s => if s = [] then default else s
  | none => default

/-- `severity or ("critical" if status == "failure" else "info")`. -/
def pagedSeverity (n : Notice) : Str :=
  n.severityOr (if n.status = py "failure" then py "critical" else py "info")

/-- The fields of a template. -/
def fields (n : Notice) (severity : Str) : List (Str × PyVal F) :=
  [(py "action", .str n.action), (py "controller", optStr n.controller), (py "user", .str n.user),
    (py "status", .str n.status), (py "severity", .str severity),
    (py "details", .str (n.details.getD []))]

/-- `if details: text += before + details + after`. -/
def withDetails (n : Notice) (text before after : Str) : Str :=
  match n.details with
  | some details => if details = [] then text else text ++ before ++ details ++ after
  | none => text

variable [PyCase]

def slackText (n : Notice) : Str :=
  n.withDetails (py "*Auto-Healer Notification*\n*Action:* `" ++ n.action ++ py "`\n*Controller:* `" ++
    n.controllerText ++ py "`\n*User:* `" ++ n.user ++ py "`\n*Status:* `" ++ PyCase.upper n.status ++
    py "`") (py "\n*Details:* ") []

def teamsText (n : Notice) : Str :=
  n.withDetails (py "**Auto-Healer Notification**\n**Action:** `" ++ n.action ++
    py "`\n**Controller:** `" ++ n.controllerText ++ py "`\n**User:** `" ++ n.user ++
    py "`\n**Status:** `" ++ PyCase.upper n.status ++ py "`") (py "\n**Details:** ") []

def emailText (n : Notice) : Str :=
  n.withDetails (py "Auto-Healer executed '" ++ n.action ++ py "' on controller '" ++
    n.controllerText ++ py "'.\n\nStatus: " ++ PyCase.upper n.status ++ py "\nSeverity: " ++
    n.severityOr (py "info") ++ py "\nTriggered by: " ++ n.user ++ py "\n") (py "\nDetails:\n") (py "\n")

/-- The text for PagerDuty and Opsgenie. -/
def alertText (n : Notice) : Str :=
  py "Auto-Healer: '" ++ n.action ++ py "' on '" ++ n.controllerText ++ py "' - " ++
    PyCase.upper n.status

def subject (n : Notice) : Str :=
  py "[Auto-Healer] " ++ n.action ++ py " on " ++ n.controllerText ++ py " - " ++
    PyCase.upper n.status

end Notice

/-! ## One channel -/

variable [PyRuntime F]

/-- A channel is set up and wants the status. -/
def ready (settings : List (PyVal F)) (notifyOn : PyVal F) (status : Str) : Py Bool :=
  if settings.all truthy then contains status notifyOn else .ok false

/-- What all `send_*` methods do. -/
def sendWith (ready : Py Bool) (text : Py Str) (deliver : Str → Effect F (Py Bool)) :
    Effect F (Py Bool) :=
  match ready, text with
  | .error e, _ => pure (.error e)
  | .ok false, _ => pure (.ok false)
  | .ok true, .error e => pure (.error e)
  | .ok true, .ok text => deliver text

/-- A mapping of string keys. -/
def obj (items : List (String × PyVal F)) : PyVal F :=
  .dict (items.map fun item => (.str (py item.1), item.2))

/-- `requests.post`, `except Exception`. -/
def postGuarded (url payload : PyVal F) (accepted : List ℕ) : Effect F (Py Bool) := do
  match ← Prog.call (Call.post url payload [] : Call F) with
  | Posted.status code => return .ok (accepted.contains code)
  | Posted.requestException | Posted.osError => return .ok false

/-- `requests.post`, `except requests.RequestException`. -/
def postChecked (url payload : PyVal F) (headers : List (Str × Str)) (accepted : List ℕ) :
    Effect F (Py Bool) := do
  match ← Prog.call (Call.post url payload headers : Call F) with
  | Posted.status code => return .ok (accepted.contains code)
  | Posted.requestException => return .ok false
  | Posted.osError => return .error .osError

/-- A credential, resolved with `except VaultUnavailableError`. -/
def withKey (key : PyVal F) (next : PyVal F → Effect F (Py Bool)) : Effect F (Py Bool) := do
  match ← resolveVaultRef key none with
  | Except.error (.unavailable _) => return .ok false
  | Except.error (.raised e) => return .error e.error
  | Except.ok key => next key

/-! ## Slack and Teams -/

section Send

variable (O : Type) [PyObjects F O] [PyCase]

/-- `send_slack_notification`. -/
def sendSlackNotification (sender : NotificationSender F) (n : Notice) : Effect F (Py Bool) :=
  sendWith (ready [sender.slackEnabled, sender.slackUrl] sender.slackNotifyOn n.status)
    (render O sender .slack n.slackText (n.fields (n.severityOr (py "info")))) fun text =>
      postGuarded sender.slackUrl
        (obj [("channel", sender.slackChannel), ("username", sender.slackUsername),
          ("attachments", .list [obj [("color", .str (py "#439FE0")), ("text", .str text),
            ("mrkdwn_in", .list [.str (py "text")])]])]) [200]

/-- `send_teams_notification`. -/
def sendTeamsNotification (sender : NotificationSender F) (n : Notice) : Effect F (Py Bool) :=
  sendWith (ready [sender.teamsEnabled, sender.teamsUrl] sender.teamsNotifyOn n.status)
    (render O sender .teams n.teamsText (n.fields (n.severityOr (py "info")))) fun text =>
      postGuarded sender.teamsUrl
        (obj [("@type", .str (py "MessageCard")), ("themeColor", .str (py "0076D7")),
          ("sections", .list [obj [("text", .str text)]])]) [200, 201]

/-! ## PagerDuty and Opsgenie -/

/-- `PAGERDUTY_EVENTS_URL`. -/
def pagerdutyEventsUrl : Str := py "https://events.pagerduty.com/v2/enqueue"

/-- `OPSGENIE_ALERTS_URL`. -/
def opsgenieAlertsUrl : Str := py "https://api.opsgenie.com/v2/alerts"

/-- `SEVERITY_TO_PAGERDUTY`. -/
def severityToPagerduty : List (Str × Str) :=
  [(py "info", py "info"), (py "warning", py "warning"), (py "critical", py "critical")]

/-- `SEVERITY_TO_OPSGENIE_PRIORITY`. -/
def severityToOpsgeniePriority : List (Str × Str) :=
  [(py "info", py "P5"), (py "warning", py "P3"), (py "critical", py "P1")]

/-- `send_pagerduty_notification`. -/
def sendPagerdutyNotification (sender : NotificationSender F) (n : Notice) : Effect F (Py Bool) :=
  sendWith (ready [sender.pagerdutyEnabled, sender.pagerdutyRoutingKey] sender.pagerdutyNotifyOn
      n.status)
    (render O sender .pagerduty n.alertText (n.fields n.pagedSeverity)) fun summary =>
      withKey sender.pagerdutyRoutingKey fun routingKey =>
        postChecked (.str pagerdutyEventsUrl)
          (obj [("routing_key", routingKey), ("event_action", .str (py "trigger")),
            ("dedup_key", .str (py "auto-healer:" ++ n.action ++ py ":" ++ n.controllerText)),
            ("payload", obj [("summary", .str summary), ("source", .str (py "auto-healer")),
              ("severity", .str ((severityToPagerduty.lookup n.pagedSeverity).getD (py "info"))),
              ("custom_details", obj [("user", .str n.user), ("status", .str n.status),
                ("details", optStr n.details)])])]) [] [202]

/-- `details or message`. -/
def Notice.description (n : Notice) (message : Str) : Str :=
  match n.details with
  | some details => if details = [] then message else details
  | none => message

/-- `send_opsgenie_notification`. -/
def sendOpsgenieNotification (sender : NotificationSender F) (n : Notice) : Effect F (Py Bool) :=
  sendWith (ready [sender.opsgenieEnabled, sender.opsgenieApiKey] sender.opsgenieNotifyOn n.status)
    (render O sender .opsgenie n.alertText (n.fields n.pagedSeverity)) fun message =>
      withKey sender.opsgenieApiKey fun apiKey =>
        postChecked (.str opsgenieAlertsUrl)
          (obj [("message", .str message), ("description", .str (n.description message)),
            ("priority", .str ((severityToOpsgeniePriority.lookup n.pagedSeverity).getD (py "P5"))),
            ("source", .str (py "auto-healer")),
            ("details", obj [("user", .str n.user), ("controller", optStr n.controller),
              ("status", .str n.status)])])
          [(py "Authorization", py "GenieKey " ++ pyStr apiKey),
            (py "Content-Type", py "application/json")] [202]

/-! ## Email -/

/-- The strings of a list, if they are strings. -/
def textsOf : List (PyVal F) → Option (List Str)
  | [] => some []
  | .str s :: vs => (textsOf vs).map (s :: ·)
  | _ :: _ => none

/-- The keys of a mapping, if they are strings. -/
def keyTexts : Dict F → Option (List Str)
  | [] => some []
  | (.str s, _) :: items => (keyTexts items).map (s :: ·)
  | _ :: _ => none

/-- What `", ".join` joins, if it can. -/
def joinable : PyVal F → Option (List Str)
  | .str s => some (s.map fun c => [c])
  | .list vs => textsOf vs
  | .dict items => keyTexts items
  | _ => none

/-- How the `with` block of a mail ends: the mail is sent, a step raises an `smtplib` or an OS
error, or another exception is raised. -/
inductive Mailed where
  | sent
  | failed
  | raised (e : PyErr)

/-- The steps with a mail server: whether they work. -/
def smtpConnect (host port : PyVal F) : Effect F Bool := Prog.call (Call.smtpConnect host port)

def smtpStarttls : Effect F Bool := Prog.call Call.smtpStarttls

def smtpLogin (username password : PyVal F) : Effect F Bool :=
  Prog.call (Call.smtpLogin username password)

def smtpSend (mailFrom mailTo : PyVal F) (message : Str) : Effect F Bool :=
  Prog.call (Call.smtpSend mailFrom mailTo message)

def smtpQuit : Effect F Bool := Prog.call Call.smtpQuit

/-- `if self.email_use_tls: smtp.starttls()`. -/
def smtpSecure (useTls : PyVal F) : Effect F Bool :=
  if truthy useTls then smtpStarttls else pure true

/-- `if username and password: smtp.login(username, password)`. -/
def smtpAuthenticate (username password : PyVal F) : Effect F Bool :=
  if truthy username && truthy password then smtpLogin username password else pure true

/-- The `with` block of a mail. -/
def mailWithin (useTls username password mailFrom mailTo : PyVal F) (body subject recipients : Str) :
    Effect F Mailed := do
  match ← smtpSecure useTls with
  | false => return .failed
  | true =>
    match ← smtpAuthenticate username password with
    | false => return .failed
    | true =>
      match ← Prog.call (Call.mimeString body subject mailFrom recipients : Call F) with
      | Except.error e => return .raised e
      | Except.ok message =>
        match ← smtpSend mailFrom mailTo message with
        | true => return .sent
        | false => return .failed

/-- A mail. An exception of `QUIT` takes the place of the one that ends the block. -/
def sendMail (sender : NotificationSender F) (n : Notice) (body : Str) (username password : PyVal F) :
    Effect F (Py Bool) := do
  match ← Prog.call (Call.mimeText body : Call F) with
  | Except.error e => return .error e
  | Except.ok () =>
    match joinable sender.emailTo with
    | none => return .error .typeError
    | some recipients =>
      match ← smtpConnect sender.emailSmtpHost sender.emailSmtpPort with
      | false => return .ok false
      | true =>
        let mailFrom := orElse sender.emailFrom (orElse username (.str (py "auto-healer@localhost")))
        let mailed ← mailWithin sender.emailUseTls username password mailFrom sender.emailTo body
          n.subject (List.intercalate (py ", ") recipients)
        let quit ← smtpQuit
        return match mailed, quit with
          | .raised e, true => .error e
          | .sent, true => .ok true
          | _, _ => .ok false

/-- A credential that may be missing. -/
def withOptionalKey (key : PyVal F) (next : PyVal F → Effect F (Py Bool)) : Effect F (Py Bool) :=
  if truthy key then withKey key next else next .none

/-- `send_email_notification`. -/
def sendEmailNotification (sender : NotificationSender F) (n : Notice) : Effect F (Py Bool) :=
  sendWith (ready [sender.emailEnabled, sender.emailSmtpHost, sender.emailTo] sender.emailNotifyOn
      n.status)
    (render O sender .email n.emailText (n.fields (n.severityOr (py "info")))) fun body =>
      withOptionalKey sender.emailUsername fun username =>
        withOptionalKey sender.emailPassword fun password => sendMail sender n body username password

/-- The method of a channel. -/
def send (sender : NotificationSender F) (n : Notice) : Channel → Effect F (Py Bool)
  | .slack => sendSlackNotification O sender n
  | .teams => sendTeamsNotification O sender n
  | .email => sendEmailNotification O sender n
  | .pagerduty => sendPagerdutyNotification O sender n
  | .opsgenie => sendOpsgenieNotification O sender n

end Send

end AutoHeal.Notify
