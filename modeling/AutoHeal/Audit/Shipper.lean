import AutoHeal.Audit.Append
import AutoHeal.Notify.Channels
import AutoHeal.Notify.Usable

/-!
# Shipping audit entries

`AuditShipper` of `src/audit.py`: a finished entry is mapped to an ECS document, which goes to
syslog and to an HTTP endpoint as `config/audit.yaml` says. The configuration is any value, and
what Vault, the sockets and `requests` answer is left open. `ship_exact` says when `ship` returns
with both sinks tried.
-/

namespace AutoHeal.Audit

open Notify (getOr orElse obj reads Lookup lookup runs_lookup)

variable {F : Type}

/-! ## What is asked -/

/-- What the sinks ask. -/
inductive ShipCall (F : Type) where
  /-- `SysLogHandler(address=(host, port), facility=facility, socktype=socktype)` -/
  | syslogHandler (host port : PyVal F) (facility : ℕ) (tcp : Bool)
  /-- `handler.emit(record)` -/
  | emit (message : Str)
  /-- `requests.request` -/
  | request (method url : PyVal F) (document headers : Dict F) (timeout : PyVal F)

/-- What comes of `requests.request`. An `OSError` that is no `RequestException` can come too, such
as the one of a certificate bundle that is not there. -/
inductive Response where
  | response (status : ℕ) (text : Str)
  | requestException (text : Str)
  | osError (text : Str)
  | raised (e : Raised)

def ShipAnswer (F : Type) : ShipCall F → Type
  | .syslogHandler _ _ _ _ | .emit _ => Except Raised Unit
  | .request _ _ _ _ _ => Response

/-- A program that ships: it asks Vault as well. -/
abbrev ShipEffect (F : Type) (α : Type) :=
  Prog (Call F ⊕ ShipCall F) (Sum.elim (Answer F) (ShipAnswer F)) α

/-- A call of the shipper that was made. -/
abbrev ShipMade (F : Type) := Asked (Call F ⊕ ShipCall F) (Sum.elim (Answer F) (ShipAnswer F))

/-- A call of a sink. -/
def sinkCall (c : ShipCall F) : ShipEffect F (ShipAnswer F c) := Prog.call (Sum.inr c)

/-! ## The ECS document -/

/-- `SERVICE_NAME`. -/
def serviceName : Str := py "auto-healer"

variable [PyRuntime F]

/-- What a missing attribute raises. -/
def noAttribute (v : PyVal F) (name : Str) : Raised :=
  ⟨.attributeError, py "'" ++ typeName v ++ py "' object has no attribute '" ++ name ++ py "'"⟩

/-- The mapping that has the method. -/
def mapping (method : Str) : PyVal F → Except Raised (Dict F)
  | .dict items => .ok items
  | v => .error (noAttribute v method)

/-- `entry.get("execution") or {}`, of which a key is got. -/
def executionOf (entry : Dict F) : Except Raised (Dict F) :=
  mapping (py "get") (orElse (field (py "execution") entry) (.dict []))

/-- `_summary_message`. -/
def summaryMessage (entry : Dict F) : Except Raised Str :=
  let action := orElse (field (py "action") entry) (.str (py "unknown-action"))
  let controller := orElse (field (py "controller") entry) (.str (py "unknown-controller"))
  let reason := field (py "blocked_reason") entry
  let subject := py "action '" ++ pyStr action ++ py "' on controller '" ++ pyStr controller ++ py "' "
  if truthy reason then .ok (subject ++ py "blocked (" ++ pyStr reason ++ py ")")
  else (executionOf entry).map fun execution =>
    subject ++ if truthy (field (py "success") execution) then py "succeeded" else py "failed"

/-- `"unknown" if success is None else ("success" if success else "failure")`. -/
def outcomeOf (success : PyVal F) : Str :=
  if success matches .none then py "unknown"
  else if truthy success then py "success" else py "failure"

/-- `to_ecs`. -/
def toEcs (entry : Dict F) : Except Raised (Dict F) := do
  let get (name : String) : PyVal F := field (py name) entry
  let execution ← executionOf entry
  let message ← summaryMessage entry
  let doc : Dict F := [
    (.str (py "@timestamp"), get "timestamp"),
    (.str (py "event"), obj [
      ("kind", .str (py "event")),
      ("category", .list [.str (py "process")]),
      ("type", .list [.str (if truthy (get "blocked_reason") then py "denied" else py "change")]),
      ("action", get "action"),
      ("outcome", .str (outcomeOf (field (py "success") execution))),
      ("reason", get "blocked_reason"),
      ("sequence", get "sequence"),
      ("hash", get "entry_hash")]),
    (.str (py "user"), obj [
      ("name", get "user"),
      ("roles", .list (if truthy (get "role") then [get "role"] else []))]),
    (.str (py "source"),
      if truthy (get "client_ip") then obj [("ip", get "client_ip")] else .none),
    (.str (py "service"), obj [("name", .str serviceName), ("type", .str serviceName)]),
    (.str (py "message"), .str message),
    (.str (py "auto_healer"), obj [
      ("controller", get "controller"),
      ("controller_type", get "controller_type"),
      ("parameters", get "parameters"),
      ("execution", .dict execution),
      ("dry_run", get "dry_run"),
      ("approval_id", get "approval_id"),
      ("approval_status", get "approval_status"),
      ("approved_by", get "approved_by"),
      ("approver_role", get "approver_role"),
      ("prev_hash", get "prev_hash")])]
  return doc.filter fun item => !(item.2 matches .none)

/-- An entry has a document when its `execution` is a mapping, or nothing. -/
theorem toEcs_isOk_iff {entry : Dict F} :
    (∃ doc, toEcs entry = .ok doc) ↔ ∃ execution, executionOf entry = .ok execution := by
  unfold toEcs
  rcases hexecution : executionOf entry with e | execution
  · simp [bind, Except.bind]
  · -- the message asks for the same mapping
    have hmessage : ∃ message, summaryMessage entry = .ok message := by
      unfold summaryMessage
      rw [hexecution]
      by_cases hreason : truthy (field (py "blocked_reason") entry) = true
      · exact ⟨_, if_pos hreason⟩
      · exact ⟨_, if_neg hreason⟩
    rcases hmessage with ⟨message, hmessage⟩
    rw [hmessage]
    exact iff_of_true ⟨_, rfl⟩ ⟨_, rfl⟩

/-! ## The syslog sink -/

/-- `SysLogHandler.facility_names`. -/
def facilityNames : List (Str × ℕ) := [
  (py "auth", 4), (py "authpriv", 10), (py "console", 14), (py "cron", 9), (py "daemon", 3),
  (py "ftp", 11), (py "kern", 0), (py "lpr", 6), (py "mail", 2), (py "news", 7), (py "ntp", 12),
  (py "security", 13), (py "solaris-cron", 15), (py "syslog", 5), (py "user", 1), (py "uucp", 8),
  (py "local0", 16), (py "local1", 17), (py "local2", 18), (py "local3", 19), (py "local4", 20),
  (py "local5", 21), (py "local6", 22), (py "local7", 23)]

/-- `facility_names.get(name, LOG_LOCAL0)`. -/
def facilityOf : PyVal F → Except Raised ℕ
  | .str name => .ok ((facilityNames.lookup name).getD 16)
  | .list _ => .error ⟨.typeError, py "unhashable type: 'list'"⟩
  | .dict _ => .error ⟨.typeError, py "unhashable type: 'dict'"⟩
  | _ => .ok 16

/-- Whether a protocol is TCP, of the two that are supported. -/
def isTcp (protocol : PyVal F) : Except Raised Bool :=
  if scalarEq protocol (.str (py "tcp")) then .ok true
  else if scalarEq protocol (.str (py "udp")) then .ok false
  else .error ⟨.valueError, py "Unsupported syslog protocol '" ++ pyStr protocol ++
    py "' (only udp/tcp are supported - see AuditShipper's docstring for TLS options)"⟩

/-- `_get_syslog_handler`, where a handler may be kept from before. The configuration is read once,
so that its key is that of the kept one. -/
def getSyslogHandler (cfg : Dict F) (kept : Bool) : ShipEffect F (Except Raised Unit) :=
  if kept then pure (.ok ())
  else
    match isTcp (getOr (py "protocol") (.str (py "udp")) cfg) with
    | .error e => pure (.error e)
    | .ok tcp =>
      match facilityOf (getOr (py "facility") (.str (py "local0")) cfg) with
      | .error e => pure (.error e)
      | .ok facility =>
        sinkCall (.syslogHandler (getOr (py "host") (.str (py "localhost")) cfg)
          (getOr (py "port") (.int 514) cfg) facility tcp)

/-- `json.dumps(to_ecs(entry))`. -/
def syslogMessage (entry : Dict F) : Except Raised Str :=
  match toEcs entry with
  | .error e => .error e
  | .ok doc =>
    match dumps (.dict doc) with
    | .error e => .error ⟨e, py "Object is not JSON serializable"⟩
    | .ok message => .ok message

/-- The `try` of `_ship_syslog`, and whether a handler is kept afterwards. -/
def trySyslog (entry cfg : Dict F) (kept : Bool) : ShipEffect F (Bool × Except Raised Unit) := do
  match ← getSyslogHandler cfg kept with
  | .error e => return (kept, .error e)
  | .ok () =>
    match syslogMessage entry with
    | .error e => return (true, .error e)
    | .ok message => return (true, ← sinkCall (.emit message))

/-- `_ship_syslog`: what is raised is logged. -/
def shipSyslog (entry cfg : Dict F) (kept : Bool) : ShipEffect F Bool := do
  let (kept, _) ← trySyslog entry cfg kept
  return kept

/-! ## The HTTP sink -/

/-- An exception in the `try` of `_ship_http`: a `VaultUnavailableError`, a `RequestException`, or
another one. -/
inductive HttpError where
  | vaultUnavailable (text : Str)
  | requestException (text : Str)
  | raised (e : Raised)

/-- `headers[name] = value`. The names of a mapping differ, and one may be that of the first
header. -/
def setHeader (name : Key F) (value : PyVal F) (headers : Dict F) : Dict F :=
  match name with
  | .str s => Dict.set s value headers
  | name => headers ++ [(name, value)]

/-- The headers of the configuration, resolved one after the other. -/
def resolveHeaders : Dict F → Dict F → ShipEffect F (Except HttpError (Dict F))
  | [], headers => pure (.ok headers)
  | (name, value) :: items, headers => do
    match ← Prog.inl (resolveVaultRef value none) with
    | .error (.unavailable text) => return .error (.vaultUnavailable text)
    | .error (.raised e) => return .error (.raised e)
    | .ok value => resolveHeaders items (setHeader name value headers)

/-- `requests.request`, as the `try` sees it. -/
def send (method url : PyVal F) (document headers : Dict F) (timeout : PyVal F) :
    ShipEffect F (Except HttpError Unit) := do
  match ← sinkCall (.request method url document headers timeout) with
  | Response.response _ _ => return .ok ()
  | Response.requestException text => return .error (.requestException text)
  | Response.osError text => return .error (.raised ⟨.osError, text⟩)
  | Response.raised e => return .error (.raised e)

/-- The `try` of `_ship_http`. -/
def tryHttp (entry cfg : Dict F) : ShipEffect F (Except HttpError Unit) :=
  match mapping (py "items") (orElse (field (py "headers") cfg) (.dict [])) with
  | .error e => pure (.error (.raised e))
  | .ok items => do
    match ← resolveHeaders items [(.str (py "Content-Type"), .str (py "application/json"))] with
    | .error e => return .error e
    | .ok headers =>
      match toEcs entry with
      | .error e => return .error (.raised e)
      | .ok doc =>
        send (getOr (py "method") (.str (py "POST")) cfg) (field (py "url") cfg) doc headers
          (getOr (py "timeout_seconds") (.int 5) cfg)

/-- `_ship_http`: a `VaultUnavailableError` and a `RequestException` are logged. -/
def shipHttp (entry cfg : Dict F) : ShipEffect F (Except Raised Unit) :=
  if truthy (field (py "url") cfg) then do
    match ← tryHttp entry cfg with
    | .error (.raised e) => return .error e
    | _ => return .ok ()
  else pure (.ok ())

/-! ## The shipper -/

/-- An `AuditShipper`: its configuration, and whether it keeps a syslog handler. -/
structure AuditShipper (F : Type) where
  config : PyVal F
  kept : Bool

/-- `__init__`. What `yaml.safe_load` gives is there unless the file is not, or is not YAML. -/
def AuditShipper.init (loaded : Option (PyVal F)) : AuditShipper F :=
  ⟨orElse (loaded.getD .none) (.dict []), false⟩

/-- `mapping.get(name) or {}`, of which a key is got. -/
def sectionOf (name : Str) (config : Dict F) : Except Raised (Dict F) :=
  mapping (py "get") (orElse (field name config) (.dict []))

/-- `self._config.get("shipping") or {}`. -/
def shippingOf (config : PyVal F) : Except Raised (Dict F) := do
  let config ← mapping (py "get") config
  sectionOf (py "shipping") config

/-- `cfg.get("enabled")`. -/
def enabled (cfg : Dict F) : Bool := truthy (field (py "enabled") cfg)

/-- `if syslog_cfg.get("enabled")`. -/
def syslogSink (entry cfg : Dict F) (kept : Bool) : ShipEffect F Bool :=
  if enabled cfg then shipSyslog entry cfg kept else pure kept

/-- `if http_cfg.get("enabled")`. -/
def httpSink (entry cfg : Dict F) : ShipEffect F (Except Raised Unit) :=
  if enabled cfg then shipHttp entry cfg else pure (.ok ())

/-- `ship`. -/
def AuditShipper.ship (shipper : AuditShipper F) (entry : Dict F) :
    ShipEffect F (AuditShipper F × Except Raised Unit) :=
  match shippingOf shipper.config with
  | .error e => pure (shipper, .error e)
  | .ok shipping =>
    match sectionOf (py "syslog") shipping with
    | .error e => pure (shipper, .error e)
    | .ok syslog => do
      let kept ← syslogSink entry syslog shipper.kept
      match sectionOf (py "http") shipping with
      | .error e => return ({ shipper with kept := kept }, .error e)
      | .ok http => return ({ shipper with kept := kept }, ← httpSink entry http)

/-! ## What the sinks can do -/

variable {entry cfg : Dict F} {asked : List (ShipMade F)}

/-- A call of the syslog sink. -/
def IsSyslog : Call F ⊕ ShipCall F → Prop
  | .inr (.syslogHandler _ _ _ _) | .inr (.emit _) => True
  | _ => False

theorem calls_getSyslogHandler (cfg : Dict F) (kept : Bool) :
    Prog.Calls IsSyslog (getSyslogHandler cfg kept) := by
  unfold getSyslogHandler
  cases kept with
  | true => trivial
  | false =>
    simp only [Bool.false_eq_true, if_false]
    split
    · trivial
    · split
      · trivial
      · exact ⟨trivial, fun _ => trivial⟩

/-- The syslog sink returns, whatever comes of its calls, and calls syslog only. -/
theorem calls_shipSyslog (entry cfg : Dict F) (kept : Bool) :
    Prog.Calls IsSyslog (shipSyslog entry cfg kept) := by
  unfold shipSyslog trySyslog
  apply Prog.Calls.bind
  · apply Prog.Calls.bind (calls_getSyslogHandler cfg kept)
    intro r
    rcases r with e | _
    · trivial
    · rcases hmessage : syslogMessage entry with e | message
      · trivial
      · exact ⟨trivial, fun _ => trivial⟩
  · intro r
    trivial

theorem calls_syslogSink (entry cfg : Dict F) (kept : Bool) :
    Prog.Calls IsSyslog (syslogSink entry cfg kept) := by
  unfold syslogSink
  split
  · exact calls_shipSyslog entry cfg kept
  · trivial

/-- What comes of the values of the headers, when Vault gives these answers. -/
def lookupAll : List (PyVal F) → List (Except SecretError (PyVal F)) → Lookup
  | [], _ => .found
  | value :: values, answers =>
    match lookup value answers with
    | (.found, answers) => lookupAll values answers
    | (outcome, _) => outcome

/-- What came of the headers. -/
def HeadersCame (r : Except HttpError (Dict F)) (outcome : Lookup) : Prop :=
  match r with
  | .ok _ => outcome = .found
  | .error (.vaultUnavailable _) => outcome = .unavailable
  | .error (.requestException _) => False
  | .error (.raised _) => outcome = .raises

/-- The headers are resolved as their values are looked up, and nothing but Vault is asked. -/
theorem runs_resolveHeaders {items headers : Dict F} {r : Except HttpError (Dict F)}
    (h : Prog.Runs (resolveHeaders items headers) asked r) :
    (∃ own : List (Made F), asked = own.map Prog.left) ∧
      HeadersCame r (lookupAll (items.map (·.2)) (reads (Prog.lefts asked))) := by
  induction items generalizing headers asked with
  | nil =>
    rcases Prog.runs_pure_iff.mp h with ⟨rfl, rfl⟩
    exact ⟨⟨[], rfl⟩, rfl⟩
  | cons item items ih =>
    rcases item with ⟨name, value⟩
    rcases Prog.runs_bind_iff.mp h with ⟨answer, before, after, rfl, hvalue, hnext⟩
    rcases Prog.runs_inl_iff.mp hvalue with ⟨own, rfl, hown⟩
    have hlookup : ∀ later, lookup value (reads own ++ later) = (.of answer, later) :=
      (runs_lookup hown).2
    simp only [List.map_cons, lookupAll, Prog.lefts_append, Prog.lefts_left,
      Notify.reads_append, hlookup]
    rcases answer with (text | e) | resolved
    · rcases Prog.runs_pure_iff.mp hnext with ⟨rfl, rfl⟩
      exact ⟨⟨own, by simp⟩, rfl⟩
    · rcases Prog.runs_pure_iff.mp hnext with ⟨rfl, rfl⟩
      exact ⟨⟨own, by simp⟩, rfl⟩
    · -- this one is resolved, and the others follow
      rcases ih hnext with ⟨⟨rest, rfl⟩, hrest⟩
      exact ⟨⟨own ++ rest, by simp⟩, hrest⟩

/-- The request is answered with a response or a `RequestException`. -/
def Answered : ShipMade F → Prop
  | ⟨.inr (.request _ _ _ _ _), answer⟩ =>
    match (answer : Response) with
    | .response _ _ | .requestException _ => True
    | .osError _ | .raised _ => False
  | _ => True

/-- The HTTP sink meets nothing that it does not catch: its headers are a mapping, no value of them
makes the lookup raise, and, when all of them are found, the entry has a document and the request is
answered. -/
def HttpFine (entry cfg : Dict F) (asked : List (ShipMade F)) : Prop :=
  ∃ items, mapping (py "items") (orElse (field (py "headers") cfg) (.dict [])) = .ok items ∧
    lookupAll (items.map (·.2)) (reads (Prog.lefts asked)) ≠ .raises ∧
    (lookupAll (items.map (·.2)) (reads (Prog.lefts asked)) = .found →
      (∃ execution, executionOf entry = .ok execution) ∧ ∀ m ∈ asked, Answered m)

omit [PyRuntime F] in
/-- A request raises something else exactly when it is not answered. -/
theorem runs_send {method url timeout : PyVal F} {document headers : Dict F}
    {r : Except HttpError Unit}
    (h : Prog.Runs (send method url document headers timeout) asked r) :
    Prog.lefts asked = [] ∧ ((∃ e, r = .error (.raised e)) ↔ ¬ ∀ m ∈ asked, Answered m) := by
  rcases Prog.runs_bind_iff.mp h with ⟨answer, before, after, rfl, hcall, hlast⟩
  rcases Prog.runs_call_iff.mp hcall with rfl
  rcases answer with ⟨status, text⟩ | text | text | e
  all_goals
    rcases Prog.runs_pure_iff.mp hlast with ⟨rfl, rfl⟩
    simp [Prog.lefts, Answered]

/-- The `try` raises something that is not caught exactly when the sink is not fine. -/
theorem runs_tryHttp {r : Except HttpError Unit} (h : Prog.Runs (tryHttp entry cfg) asked r) :
    (∃ e, r = .error (.raised e)) ↔ ¬ HttpFine entry cfg asked := by
  unfold tryHttp at h
  unfold HttpFine
  rcases hitems : mapping (py "items") (orElse (field (py "headers") cfg) (.dict [])) with e | items
  · simp only [hitems] at h
    rcases Prog.runs_pure_iff.mp h with ⟨-, rfl⟩
    simp
  · simp only [hitems] at h
    rcases Prog.runs_bind_iff.mp h with ⟨headers, before, after, rfl, hheaders, hnext⟩
    rcases runs_resolveHeaders hheaders with ⟨⟨own, rfl⟩, hcame⟩
    rw [Prog.lefts_left] at hcame
    have hanswered : ∀ m ∈ own.map Prog.left, Answered (F := F) m := by
      intro m hm
      rcases List.mem_map.mp hm with ⟨call, -, rfl⟩
      trivial
    rcases headers with (text | text | e) | headers
    · -- a header is not to be had from Vault
      rcases Prog.runs_pure_iff.mp hnext with ⟨rfl, rfl⟩
      have hlookup : lookupAll (items.map (·.2)) (reads own) = .unavailable := hcame
      simp [Prog.lefts_left, hlookup]
    · exact hcame.elim
    · -- a header raises
      rcases Prog.runs_pure_iff.mp hnext with ⟨rfl, rfl⟩
      have hlookup : lookupAll (items.map (·.2)) (reads own) = .raises := hcame
      simp [Prog.lefts_left, hlookup]
    · have hlookup : lookupAll (items.map (·.2)) (reads own) = .found := hcame
      rcases hdoc : toEcs entry with e | doc
      · -- the entry has no document
        have hnone : ¬ ∃ execution, executionOf entry = .ok execution := by
          rw [← toEcs_isOk_iff, hdoc]
          simp
        simp only [hdoc] at hnext
        rcases Prog.runs_pure_iff.mp hnext with ⟨rfl, rfl⟩
        simp [Prog.lefts_left, hlookup, hnone]
      · -- the request is made
        have hexecution : ∃ execution, executionOf entry = .ok execution :=
          toEcs_isOk_iff.mp ⟨doc, hdoc⟩
        simp only [hdoc] at hnext
        rcases runs_send hnext with ⟨hlefts, hraised⟩
        have hall : (∀ m ∈ own.map Prog.left ++ after, Answered m) ↔ ∀ m ∈ after, Answered m := by
          rw [List.forall_mem_append]
          exact and_iff_right hanswered
        have hfound : lookupAll (items.map (·.2))
            (reads (Prog.lefts (own.map Prog.left ++ after))) = .found := by
          rw [Prog.lefts_append, Prog.lefts_left, hlefts, List.append_nil, hlookup]
        rw [hraised, ← hall]
        apply not_congr
        constructor
        · intro hrequest
          refine ⟨items, rfl, ?_, fun _ => ⟨hexecution, hrequest⟩⟩
          rw [hfound]
          simp
        · intro h
          rcases h with ⟨_, hsame, -, hrest⟩
          cases hsame
          exact (hrest hfound).2

/-- The HTTP sink returns exactly when it has no URL or is fine. -/
theorem shipHttp_returns_iff {r : Except Raised Unit} (h : Prog.Runs (shipHttp entry cfg) asked r) :
    r = .ok () ↔ (truthy (field (py "url") cfg) = true → HttpFine entry cfg asked) := by
  unfold shipHttp at h
  by_cases hurl : truthy (field (py "url") cfg) = true
  · rw [if_pos hurl] at h
    rcases Prog.runs_bind_iff.mp h with ⟨outcome, before, after, rfl, htry, hnext⟩
    have hfine := runs_tryHttp htry
    rcases outcome with (text | text | e) | _
    all_goals
      rcases Prog.runs_pure_iff.mp hnext with ⟨rfl, rfl⟩
      simpa [hurl] using hfine
  · rw [if_neg hurl] at h
    rcases Prog.runs_pure_iff.mp h with ⟨-, rfl⟩
    simp [hurl]

/-! ## When `ship` returns -/

/-- The HTTP sink is switched on, with this configuration. -/
def HttpOn (config : PyVal F) (http : Dict F) : Prop :=
  ∃ shipping, shippingOf config = .ok shipping ∧ sectionOf (py "http") shipping = .ok http ∧
    enabled http = true

/-- If the HTTP sink is switched on, it was run, after nothing but calls to syslog. -/
def HttpTried (config : PyVal F) (entry : Dict F) (asked : List (ShipMade F)) : Prop :=
  ∀ http, HttpOn config http → ∃ before after r, asked = before ++ after ∧
    (∀ m ∈ before, IsSyslog m.call) ∧ Prog.Runs (shipHttp entry http) after r

/-- What is looked into of the configuration is a mapping or nothing, and the HTTP sink, if it is
switched on and has a URL, is fine. -/
def Shippable (config : PyVal F) (entry : Dict F) (asked : List (ShipMade F)) : Prop :=
  ∃ shipping, shippingOf config = .ok shipping ∧
    (∃ syslog, sectionOf (py "syslog") shipping = .ok syslog) ∧
    ∃ http, sectionOf (py "http") shipping = .ok http ∧
      (enabled http = true → truthy (field (py "url") http) = true → HttpFine entry http asked)

omit [PyRuntime F] in
theorem lefts_syslog {before : List (ShipMade F)} (h : ∀ m ∈ before, IsSyslog m.call) :
    Prog.lefts before = [] := by
  induction before with
  | nil => rfl
  | cons m before ih =>
    rcases m with ⟨c | c, answer⟩
    · exact (h _ List.mem_cons_self).elim
    · exact ih fun m hm => h m (List.mem_cons_of_mem _ hm)

omit [PyRuntime F] in
theorem answered_of_isSyslog {m : ShipMade F} (h : IsSyslog m.call) : Answered m := by
  rcases m with ⟨c | c, answer⟩
  · exact h.elim
  · cases c with
    | request => exact h.elim
    | syslogHandler | emit => trivial

/-- Calls to syslog make no difference to the HTTP sink. -/
theorem httpFine_append {before after : List (ShipMade F)} (h : ∀ m ∈ before, IsSyslog m.call) :
    HttpFine entry cfg (before ++ after) ↔ HttpFine entry cfg after := by
  have hanswered : (∀ m ∈ before ++ after, Answered m) ↔ ∀ m ∈ after, Answered m := by
    rw [List.forall_mem_append]
    exact and_iff_right fun m hm => answered_of_isSyslog (h m hm)
  unfold HttpFine
  rw [Prog.lefts_append, lefts_syslog h, List.nil_append, hanswered]

/-- `ship` returns with both sinks tried exactly when the configuration, the entry and what was
answered are such. -/
theorem ship_exact {shipper shipper' : AuditShipper F} {r : Except Raised Unit}
    (h : Prog.Runs (shipper.ship entry) asked (shipper', r)) :
    r = .ok () ∧ HttpTried shipper.config entry asked ↔ Shippable shipper.config entry asked := by
  unfold AuditShipper.ship at h
  unfold Shippable HttpTried HttpOn
  rcases hshipping : shippingOf shipper.config with e | shipping
  · simp only [hshipping] at h
    rcases Prog.runs_pure_iff.mp h with ⟨-, hr⟩
    cases hr
    simp
  · rcases hsyslog : sectionOf (py "syslog") shipping with e | syslog
    · simp only [hshipping, hsyslog] at h
      rcases Prog.runs_pure_iff.mp h with ⟨-, hr⟩
      cases hr
      simp [hsyslog]
    · simp only [hshipping, hsyslog] at h
      rcases Prog.runs_bind_iff.mp h with ⟨kept, before, after, rfl, hfirst, hnext⟩
      have hbefore : ∀ m ∈ before, IsSyslog m.call := (calls_syslogSink entry syslog _).of_runs hfirst
      rcases hhttp : sectionOf (py "http") shipping with e | http
      · simp only [hhttp] at hnext
        rcases Prog.runs_pure_iff.mp hnext with ⟨-, hr⟩
        cases hr
        simp [hhttp]
      · simp only [hhttp] at hnext
        rcases Prog.runs_bind_iff.mp hnext with ⟨outcome, run, rest, rfl, hrun, hlast⟩
        rcases Prog.runs_pure_iff.mp hlast with ⟨rfl, hr⟩
        cases hr
        rw [List.append_nil]
        unfold httpSink at hrun
        by_cases hon : enabled http = true
        · -- the HTTP sink is run, whatever came of syslog
          rw [if_pos hon] at hrun
          have hreturns := shipHttp_returns_iff hrun
          rw [← httpFine_append hbefore] at hreturns
          constructor
          · intro h
            exact ⟨shipping, rfl, ⟨syslog, hsyslog⟩, http, hhttp, fun _ => hreturns.mp h.1⟩
          · intro h
            rcases h with ⟨_, hsame, -, http', hsame', hfine⟩
            cases hsame
            rw [hhttp] at hsame'
            cases hsame'
            refine ⟨hreturns.mpr (hfine hon), ?_⟩
            intro http' hon'
            rcases hon' with ⟨_, hsame, hsame', -⟩
            cases hsame
            rw [hhttp] at hsame'
            cases hsame'
            exact ⟨before, run, r, rfl, hbefore, hrun⟩
        · rw [if_neg hon] at hrun
          rcases Prog.runs_pure_iff.mp hrun with ⟨-, rfl⟩
          simp [hsyslog, hhttp, hon]

/-! ## Shippers -/

/-- A shipper with the HTTP sink switched on, with these headers. -/
def sampleShipper (syslog : Bool) (headers : Dict NanFloat) : AuditShipper NanFloat :=
  .init (some (obj [("shipping", obj [
    ("syslog", obj [("enabled", .bool syslog), ("protocol", .str (py "tcp"))]),
    ("http", obj [("enabled", .bool true), ("url", .str (py "https://logs/_doc")),
      ("headers", .dict headers)])])]))

/-- A finished entry. -/
def sampleEntry : Dict NanFloat :=
  finalized [(.str (py "action"), .str (py "restart_nginx")),
    (.str (py "execution"), obj [("success", .bool true)])] (1, genesisHash)

/-- A refused syslog connection is caught, and the entry goes to the HTTP endpoint. -/
theorem ship_exact_example : ∃ asked, asked.length = 2 ∧
    Prog.Runs ((sampleShipper true []).ship sampleEntry) asked (sampleShipper true [], .ok ()) ∧
    HttpTried (sampleShipper true []).config sampleEntry asked := by
  have hruns : ∃ document, Prog.Runs ((sampleShipper true []).ship sampleEntry)
      [⟨.inr (.syslogHandler (.str (py "localhost")) (.int 514) 16 true),
          Except.error ⟨.osError, py "Connection refused"⟩⟩,
        ⟨.inr (.request (.str (py "POST")) (.str (py "https://logs/_doc")) document
          [(.str (py "Content-Type"), .str (py "application/json"))] (.int 5)),
          Response.response 201 []⟩]
      (sampleShipper true [], .ok ()) :=
    ⟨_, .ask _ (.ask _ (.done _))⟩
  rcases hruns with ⟨document, hruns⟩
  refine ⟨_, rfl, hruns, ((ship_exact hruns).mpr ?_).2⟩
  refine ⟨_, rfl, ⟨_, rfl⟩, _, rfl, fun _ _ => ⟨[], rfl, ?_, fun _ => ⟨⟨_, rfl⟩, ?_⟩⟩⟩
  · simp [lookupAll]
  · simp [Answered]

/-- With a number for a header `ship` raises. -/
theorem ship_number_header :
    Prog.Runs ((sampleShipper false [(.str (py "X-Retry"), .int 5)]).ship sampleEntry) []
      (sampleShipper false [(.str (py "X-Retry"), .int 5)],
        .error ⟨.attributeError, py "'int' object has no attribute 'startswith'"⟩) :=
  .done _

end AutoHeal.Audit
