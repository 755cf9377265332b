import AutoHeal.Outside.Vault
import AutoHeal.Python.Format
import AutoHeal.Python.Times

/-!
# The notification sender

`NotificationSender` of `src/notifications.py` with its attributes, and what decides about a
notification before a channel is tried: its severity, the deduplication, the routing and the
template of its text. What is configured is any value.
-/

namespace AutoHeal.Notify

variable {F : Type}

/-! ## The sender -/

/-- The channels, in the order of `notify`. -/
inductive Channel where
  | slack
  | teams
  | email
  | pagerduty
  | opsgenie
  deriving DecidableEq

def Channel.name : Channel → Str
  | .slack => py "slack"
  | .teams => py "teams"
  | .email => py "email"
  | .pagerduty => py "pagerduty"
  | .opsgenie => py "opsgenie"

def channels : List Channel := [.slack, .teams, .email, .pagerduty, .opsgenie]

/-- The attributes of a `NotificationSender`. -/
structure NotificationSender (F : Type) where
  slackEnabled : PyVal F
  slackUrl : PyVal F
  slackChannel : PyVal F
  slackUsername : PyVal F
  slackNotifyOn : PyVal F
  teamsEnabled : PyVal F
  teamsUrl : PyVal F
  teamsNotifyOn : PyVal F
  emailEnabled : PyVal F
  emailSmtpHost : PyVal F
  emailSmtpPort : PyVal F
  emailUseTls : PyVal F
  emailUsername : PyVal F
  emailPassword : PyVal F
  emailFrom : PyVal F
  emailTo : PyVal F
  emailNotifyOn : PyVal F
  pagerdutyEnabled : PyVal F
  pagerdutyRoutingKey : PyVal F
  pagerdutyNotifyOn : PyVal F
  opsgenieEnabled : PyVal F
  opsgenieApiKey : PyVal F
  opsgenieNotifyOn : PyVal F
  routing : PyVal F
  dedupEnabled : PyVal F
  dedupWindowSeconds : PyVal F
  templates : PyVal F

/-- A section of the configuration. What is no mapping has no `get`. -/
def asSection : PyVal F → Py (Dict F)
  | .dict items => .ok items
  | _ => .error .attributeError

variable [PyRuntime F]

/-- `config.get(name, default)`. -/
def getOr (name : Str) (default : PyVal F) (config : Dict F) : PyVal F :=
  (Dict.get? name config).getD default

/-- `v or default`. -/
def orElse (v default : PyVal F) : PyVal F := if truthy v then v else default

/-- `DEFAULT_DEDUP_WINDOW_SECONDS`. -/
def defaultDedupWindowSeconds : Int := 300

/-- `__init__` with a configuration that was loaded. -/
def NotificationSender.init (config : Dict F) : Py (NotificationSender F) := do
  let successOrFailure : PyVal F := .list [.str (py "success"), .str (py "failure")]
  let failureOnly : PyVal F := .list [.str (py "failure")]
  let slack ← asSection (getOr (py "slack") (.dict []) config)
  let teams ← asSection (getOr (py "teams") (.dict []) config)
  let email ← asSection (orElse (getOr (py "email") (.dict []) config) (.dict []))
  let pagerduty ← asSection (orElse (getOr (py "pagerduty") (.dict []) config) (.dict []))
  let opsgenie ← asSection (orElse (getOr (py "opsgenie") (.dict []) config) (.dict []))
  let dedup ← asSection (orElse (getOr (py "dedup") .none config) (.dict []))
  return {
    slackEnabled := getOr (py "enabled") (.bool false) slack
    slackUrl := getOr (py "webhook_url") .none slack
    slackChannel := getOr (py "channel") .none slack
    slackUsername := getOr (py "username") (.str (py "AutoHealerBot")) slack
    slackNotifyOn := getOr (py "notify_on") successOrFailure slack
    teamsEnabled := getOr (py "enabled") (.bool false) teams
    teamsUrl := getOr (py "webhook_url") .none teams
    teamsNotifyOn := getOr (py "notify_on") successOrFailure teams
    emailEnabled := getOr (py "enabled") (.bool false) email
    emailSmtpHost := getOr (py "smtp_host") .none email
    emailSmtpPort := getOr (py "smtp_port") (.int 587) email
    emailUseTls := getOr (py "use_tls") (.bool true) email
    emailUsername := getOr (py "username") .none email
    emailPassword := getOr (py "password") .none email
    emailFrom := getOr (py "from_addr") .none email
    emailTo := orElse (getOr (py "to_addrs") .none email) (.list [])
    emailNotifyOn := getOr (py "notify_on") successOrFailure email
    pagerdutyEnabled := getOr (py "enabled") (.bool false) pagerduty
    pagerdutyRoutingKey := getOr (py "routing_key") .none pagerduty
    pagerdutyNotifyOn := getOr (py "notify_on") failureOnly pagerduty
    opsgenieEnabled := getOr (py "enabled") (.bool false) opsgenie
    opsgenieApiKey := getOr (py "api_key") .none opsgenie
    opsgenieNotifyOn := getOr (py "notify_on") failureOnly opsgenie
    routing := orElse (getOr (py "routing") .none config) (.dict [])
    dedupEnabled := getOr (py "enabled") (.bool true) dedup
    dedupWindowSeconds := getOr (py "window_seconds") (.int defaultDedupWindowSeconds) dedup
    templates := orElse (getOr (py "templates") .none config) (.dict []) }

/-! ## Severity -/

/-- `SEVERITY_RANK`. -/
def severityRank : List (Str × ℕ) :=
  [(py "info", 0), (py "warning", 1), (py "critical", 2)]

/-- A value that is no key: a list or a mapping. -/
def IsUnhashable : PyVal F → Prop
  | .list _ | .dict _ => True
  | _ => False

/-- `base_severity if base_severity in SEVERITY_RANK else "info"`. -/
def baseSeverity : PyVal F → Py Str
  | .str s => .ok (if (severityRank.lookup s).isSome then s else py "info")
  | .list _ | .dict _ => .error .typeError
  | _ => .ok (py "info")

/-- `_effective_severity`. -/
def effectiveSeverity (base : Option (PyVal F)) (status : Str) : Py Str :=
  (baseSeverity (base.getD .none)).map fun base =>
    let rank (s : Str) : ℕ := (severityRank.lookup s).getD 0
    if status = py "failure" ∧ rank base < rank (py "warning") then py "warning" else base

omit [PyRuntime F] in
theorem effectiveSeverity_isOk_iff {base : Option (PyVal F)} {status : Str} :
    (∃ severity, effectiveSeverity base status = .ok severity) ↔ ¬ IsUnhashable (base.getD .none) := by
  unfold effectiveSeverity
  cases base.getD .none <;> simp [baseSeverity, IsUnhashable, Except.map]

/-! ## Deduplication -/

/-- `_dedup_seen`: when a key was sent last. -/
abbrev Seen := Str → Option ℚ

section Dedup

variable [FloatTimes F]

/-- `_is_duplicate` at the time `now`, with what was seen afterwards. -/
def isDuplicate (sender : NotificationSender F) (seen : Seen) (now : ℚ) (key : Str) :
    Py (Bool × Seen) :=
  if truthy sender.dedupEnabled then
    match seen key with
    | none => .ok (false, Function.update seen key (some now))
    | some lastSent =>
      match timeLess (now - lastSent) sender.dedupWindowSeconds with
      | .error e => .error e
      | .ok true => .ok (true, seen)
      | .ok false => .ok (false, Function.update seen key (some now))
  else .ok (false, seen)

/-- The key was sent less than the window ago. -/
def Duplicate (sender : NotificationSender F) (seen : Seen) (now : ℚ) (key : Str) : Prop :=
  truthy sender.dedupEnabled = true ∧ ∃ lastSent, seen key = some lastSent ∧
    timeLess (now - lastSent) sender.dedupWindowSeconds = .ok true

/-- The window is a number, where it is looked at. -/
def WindowUsable (sender : NotificationSender F) (seen : Seen) (key : Str) : Prop :=
  truthy sender.dedupEnabled = true → seen key ≠ none → IsNumber sender.dedupWindowSeconds

/-- What the check can come to. -/
theorem isDuplicate_cases (sender : NotificationSender F) (seen : Seen) (now : ℚ) (key : Str) :
    (∃ e, isDuplicate sender seen now key = .error e ∧ ¬ WindowUsable sender seen key ∧
      ¬ Duplicate sender seen now key) ∨
    (isDuplicate sender seen now key = .ok (true, seen) ∧ WindowUsable sender seen key ∧
      Duplicate sender seen now key) ∨
    ∃ seen', isDuplicate sender seen now key = .ok (false, seen') ∧ WindowUsable sender seen key ∧
      ¬ Duplicate sender seen now key ∧
      (seen' = seen ∧ truthy sender.dedupEnabled = false ∨
        seen' = Function.update seen key (some now)) := by
  unfold isDuplicate WindowUsable Duplicate
  cases henabled : truthy sender.dedupEnabled with
  | false => exact Or.inr (Or.inr ⟨seen, by simp⟩)
  | true =>
    cases hseen : seen key with
    | none => exact Or.inr (Or.inr ⟨Function.update seen key (some now), by simp⟩)
    | some lastSent =>
      have hnumber := timeLess_isOk_iff (q := now - lastSent) (v := sender.dedupWindowSeconds)
      cases hless : timeLess (now - lastSent) sender.dedupWindowSeconds with
      | error e =>
        rw [hless] at hnumber
        exact Or.inl ⟨e, by simpa [hless] using hnumber⟩
      | ok b =>
        rw [hless] at hnumber
        have hwindow : IsNumber sender.dedupWindowSeconds := hnumber.mp ⟨b, rfl⟩
        cases b with
        | true => exact Or.inr (Or.inl (by simp [hless, hwindow]))
        | false =>
          exact Or.inr (Or.inr ⟨Function.update seen key (some now), by simp [hless, hwindow]⟩)

end Dedup

/-! ## Routing -/

/-- What `in` takes: a string, a list or a mapping. -/
def IsContainer : PyVal F → Prop
  | .str _ | .list _ | .dict _ => True
  | _ => False

theorem contains_isOk_iff {name : Str} {v : PyVal F} :
    (∃ b, contains name v = .ok b) ↔ IsContainer v := by
  cases v <;> simp [contains, IsContainer]

/-- `_wants_channel`. -/
def wantsChannel (sender : NotificationSender F) (channel : Channel) (severity : Str) : Py Bool :=
  if truthy sender.routing then
    match sender.routing with
    | .dict routes => contains channel.name ((Dict.get? severity routes).getD (.list []))
    | _ => .error .attributeError
  else .ok true

/-- The routing has channels for a severity. -/
def RoutingUsable (sender : NotificationSender F) (severity : Str) : Prop :=
  truthy sender.routing = true → ∃ routes, sender.routing = .dict routes ∧
    ∀ v, Dict.get? severity routes = some v → IsContainer v

theorem wantsChannel_isOk_iff {sender : NotificationSender F} {channel : Channel} {severity : Str} :
    (∃ b, wantsChannel sender channel severity = .ok b) ↔ RoutingUsable sender severity := by
  unfold wantsChannel RoutingUsable
  cases hrouting : truthy sender.routing with
  | false => simp
  | true =>
    simp only [if_true, true_implies]
    cases sender.routing with
    | dict routes =>
      rw [contains_isOk_iff]
      cases hroute : Dict.get? severity routes with
      | none => simp [IsContainer, hroute]
      | some v => simp [hroute]
    | _ => simp

/-! ## Templates -/

variable (O : Type) [PyObjects F O]

/-- `self.templates.get(channel) or self.templates.get("default")`. -/
def templateFor (templates : Dict F) (channel : Channel) : PyVal F :=
  orElse (getOr channel.name .none templates) (getOr (py "default") .none templates)

/-- `template.format(**fields)`. -/
def formatFields (text : Str) (fields : List (Str × PyVal F)) : Except FormatError Str :=
  strDotFormat F (fields.map fun f => (f.1, (PyObjects.ofVal f.2 : O))) text

/-- A template, formatted. What is no string has no `format`. -/
def renderTemplate (template : PyVal F) (default : Str) (fields : List (Str × PyVal F)) : Py Str :=
  match template with
  | .str text =>
    match formatFields O text fields with
    | .ok text => .ok text
    | .error (.keyError _) | .error (.indexError _) => .ok default
    | .error (.raised e) => .error e
  | _ => .error .attributeError

/-- `_render`. -/
def render (sender : NotificationSender F) (channel : Channel) (default : Str)
    (fields : List (Str × PyVal F)) : Py Str :=
  match sender.templates with
  | .dict templates =>
    let template := templateFor templates channel
    if truthy template then renderTemplate O template default fields else .ok default
  | _ => .error .attributeError

/-- The template for a channel is empty, or a text that raises nothing else than a `KeyError` or an
`IndexError` when it is formatted. -/
def TemplateUsable (sender : NotificationSender F) (channel : Channel)
    (fields : List (Str × PyVal F)) : Prop :=
  ∃ templates, sender.templates = .dict templates ∧
    (truthy (templateFor templates channel) = true → ∃ text, templateFor templates channel = .str text ∧
      ∀ e, formatFields O text fields ≠ .error (.raised e))

theorem render_isOk_iff {sender : NotificationSender F} {channel : Channel} {default : Str}
    {fields : List (Str × PyVal F)} :
    (∃ text, render O sender channel default fields = .ok text) ↔
      TemplateUsable O sender channel fields := by
  unfold render TemplateUsable
  cases sender.templates with
  | dict templates =>
    cases htruthy : truthy (templateFor templates channel) with
    | false => simp [htruthy]
    | true =>
      simp only [htruthy, if_true, PyVal.dict.injEq, exists_eq_left', true_implies]
      unfold renderTemplate
      cases templateFor templates channel with
      | str text =>
        simp only [PyVal.str.injEq, exists_eq_left']
        rcases formatFields O text fields with (e | e | e) | rendered
        · simp
        · simp
        · simp
        · simp
      | _ => simp
  | _ => simp

end AutoHeal.Notify
