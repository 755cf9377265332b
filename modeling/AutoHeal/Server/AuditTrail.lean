import AutoHeal.Audit.Assembled
import AutoHeal.Server.Endpoints
import AutoHeal.Server.Newest

/-!
# The audit trail

What the audit log holds after a run of requests. With rotation, the files of the log hold what
the requests have logged, in order, with a marker at the start of each file but the first; every
file is accepted, and `/audit/verify` says so (`trail_kept`). Without rotation `/audit` shows, of
what the requests have logged, the newest entries that its query matches (`audit_shows_trail`).
-/

namespace AutoHeal.Server

open Audit Purge

variable {F : Type} [PyRuntime F] [PyDates F]

/-! ## A log in the course of a run -/

section Appending

variable {c : AuditChain F} {env : Audit.Env} {dir : Audit.Dir} {appended : List (Dict F)}

/-- A directory holds a log of these entries, with the archives that were made of it. -/
def Trail (c : AuditChain F) (dir : Audit.Dir) (appended : List (Dict F)) : Prop :=
  ∃ archives rotations logs live, LogInv c ⟨dir, archives, rotations, appended⟩ logs live

/-- The entries of a log after an append: its own is behind them, unless it has raised. -/
def appendedTo (appended : List (Dict F)) (entry : Dict F) (written : Py (Dict F × Option (Rotation F))) :
    List (Dict F) :=
  match written with
  | .ok _ => appended ++ [entry]
  | .error _ => appended

omit [PyDates F] in
theorem trail_start (habsent : dir.lookup c.base = none)
    (hnone : ∀ name ∈ dir, ¬ (c.base ++ py ".") <+: name) : Trail c dir [] :=
  ⟨[], [], [], [], logInv_start habsent hnone⟩

/-- A rotation adds no entry to the trail. -/
theorem Trail.maybeRotateLocked (h : Trail c dir appended)
    (hcut : shouldRotateLocked c env dir = .ok true → CutoffComputable c env) :
    Trail c (maybeRotateLocked c env dir).1 appended := by
  cases hdue : shouldRotateLocked c env dir with
  | error e =>
    unfold Audit.maybeRotateLocked
    rw [hdue]
    exact h
  | ok due =>
    cases due with
    | false =>
      unfold Audit.maybeRotateLocked
      rw [hdue]
      exact h
    | true =>
      rcases h with ⟨archives, rotations, logs, live, h⟩
      rcases exists_live hdue with ⟨file, hfile⟩
      have hplain : ∀ name ∈ dir, (c.base ++ py ".") <+: name → NoHigh name := by
        intro name hmem hname
        rcases Option.isSome_iff_exists.mp (AList.lookup_isSome.mpr hmem) with ⟨bytes, hbytes⟩
        exact (h.names _ (h.siblings name bytes hbytes hname)).2
      rcases maybeRotateLocked_due hfile hdue (hcut hdue) hplain with
        ⟨swept, deleted, hswept, hjson, hnone, hrotate⟩
      -- the marker is the first line of the new file
      rcases (holds_of_absent hnone).write_plain hjson (noChainFields_rotationMarker c env _ deleted)
        with ⟨m, hentry, hstate, hm, -, hholds⟩
      rw [List.nil_append] at hholds
      have hresult : m.result = finalized (rotationMarker c env (archivedName c env dir) deleted)
          (0, genesisHash) := by
        rw [Write.result, hentry, hstate]
        rfl
      have hcontent : content [m] = lineBytes m.result := content_snoc [] m
      rw [← hresult, ← hcontent] at hrotate
      have hmarked : (⟨archivedName c env dir, deleted, m.result⟩ : Rotation F).Marked c := by
        unfold Rotation.Marked
        rw [hresult, field_finalized_of_ne (by decide) (by decide) (by decide),
          field_finalized_of_ne (by decide) (by decide) (by decide),
          field_finalized_of_ne (by decide) (by decide) (by decide)]
        exact ⟨rfl, rfl, rfl⟩
      rw [hrotate]
      refine ⟨_, _, _, _, h.rotate (r := ⟨archivedName c env dir, deleted, m.result⟩) hfile
        (isArchive_archivedName c env dir) hholds hm rfl hmarked ?_⟩
      intro name bytes hname hbytes
      rw [AList.lookup_insert_ne hname, hswept.lookup, lookup_rename hfile, if_neg hname] at hbytes
      split_ifs at hbytes with hdeleted harchive
      · rw [Option.some.injEq] at hbytes
        exact Or.inl (by rw [harchive, hbytes])
      · exact Or.inr hbytes

omit [PyDates F] in
/-- A write touches the live file only. -/
theorem writeLocked_lookup_ne {entry : Dict F} {name : Str} (hname : name ≠ c.base) :
    (writeLocked c dir entry).1.lookup name = dir.lookup name := by
  unfold writeLocked
  split
  · rfl
  · split
    · rfl
    · simp only
      split <;> exact AList.lookup_insert_ne hname

omit [PyDates F] in
/-- A write that raises leaves the trail as it was. -/
theorem Trail.write_error {entry : Dict F} {e : PyErr} (h : Trail c dir appended)
    (hwrite : (writeLocked c dir entry).2 = .error e) : Trail c (writeLocked c dir entry).1 appended := by
  rcases h with ⟨archives, rotations, logs, live, h⟩
  have hholds : Holds c (writeLocked c dir entry).1 live := h.holds.write_error (Prod.ext rfl hwrite)
  refine ⟨archives, rotations, logs, live, { h with holds := hholds, siblings := ?_ }⟩
  intro name file hfile hname
  have hfile : (writeLocked c dir entry).1.lookup name = some file := hfile
  rw [writeLocked_lookup_ne (IsArchive.ne_base hname)] at hfile
  exact h.siblings name file hfile hname

omit [PyDates F] in
/-- A plain entry is added to the trail. -/
theorem Trail.write_plain {entry : Dict F} (h : Trail c dir appended)
    (hentry : JsonValue (.dict entry)) (hno : NoChainFields entry) :
    Trail c (writeLocked c dir entry).1 (appended ++ [entry]) := by
  rcases h with ⟨archives, rotations, logs, live, h⟩
  rcases h.holds.write_plain hentry hno with ⟨w, rfl, -, hw, hwrite, hholds⟩
  rw [hwrite]
  exact ⟨archives, rotations, logs, live ++ [w], h.write hholds hw fun name hname =>
    AList.lookup_insert_ne hname⟩

/-- One call of `append`: its entry is at the end of the trail, unless it has raised. -/
theorem Trail.append {entry : Dict F} (h : Trail c dir appended)
    (hcut : shouldRotateLocked c env dir = .ok true → CutoffComputable c env)
    (hno : NoChainFields entry)
    (hentry : ∀ written, (append c env dir entry).2 = .ok written → JsonValue (.dict entry)) :
    Trail c (append c env dir entry).1 (appendedTo appended entry (append c env dir entry).2) := by
  have hrotated := h.maybeRotateLocked hcut
  unfold Audit.append at hentry ⊢
  revert hrotated hentry
  rcases Audit.maybeRotateLocked c env dir with ⟨rotated, e | rotation⟩
  · intro _ hrotated
    exact hrotated
  · intro hentry hrotated
    simp only at hentry hrotated ⊢
    cases hwrite : (writeLocked c rotated entry).2 with
    | error e =>
      have hpair : writeLocked c rotated entry = ((writeLocked c rotated entry).1, .error e) :=
        Prod.ext rfl hwrite
      rw [hpair]
      exact hrotated.write_error hwrite
    | ok written =>
      have hpair : writeLocked c rotated entry = ((writeLocked c rotated entry).1, .ok written) :=
        Prod.ext rfl hwrite
      rw [hpair] at hentry ⊢
      exact hrotated.write_plain (hentry _ rfl) hno

end Appending

/-! ## The trail of a run -/

section Run

variable [PydanticTypes F]

/-- The entries that the requests of a run have written to the log, as they were handed to it. -/
def logged : ServerState F → List (HttpRequest F) → List (Dict F)
  | _, [] => []
  | server, r :: requests =>
    (auditedEntries (handle server r).2.2).map
        (fun entry => auditLogEntry entry r.env.clock.audit.isoformatZ) ++
      logged (handle server r).1 requests

theorem logged_singleton (server : ServerState F) (r : HttpRequest F) :
    logged server [r] = (auditedEntries (handle server r).2.2).map
      fun entry => auditLogEntry entry r.env.clock.audit.isoformatZ := List.append_nil _

theorem logged_cons (server : ServerState F) (r : HttpRequest F) (requests : List (HttpRequest F)) :
    logged server (r :: requests) = logged server [r] ++ logged (handle server r).1 requests := by
  rw [logged, logged_singleton]

/-- An execution whose entry can be appended is logged. -/
theorem logged_execution {server : ServerState F} {r : HttpRequest F} {body : Option Str}
    {a : Admitted F} {result : ExecResult} {log : Audit.Dir}
    {written : Dict F × Option (Rotation F)} (halone : r.Alone)
    (hkey : authenticated r.site.auth r.env.vault r.key = true) (hendpoint : r.endpoint = .webhook body)
    (hpasses : Passes r.site r.env.vault r.env.clock server.hits ⟨r.key, body, r.clientHost⟩ a)
    (hruns : a.Runs server.cooldowns r.env.clock.check)
    (hresult : a.task.execute r.env.executor = .ok (some result))
    (happend : append r.site.chain r.env.audit server.log
      (auditLogEntry (a.task.auditEntry r.key a.role result r.clientHost)
        r.env.clock.audit.isoformatZ) = (log, .ok written)) :
    logged server [r] = [auditLogEntry (a.task.auditEntry r.key a.role result r.clientHost)
      r.env.clock.audit.isoformatZ] := by
  have hremaining : a.task.remaining
      (counted r.site r.env server ⟨r.key, body, r.clientHost⟩).cooldowns r.env.clock.check = none :=
    hruns.2
  have hlog : (counted r.site r.env server ⟨r.key, body, r.clientHost⟩).log = server.log := rfl
  rw [logged_singleton, handle_effects, dispatch_webhook hkey hendpoint, effects_handling,
    webhook_of_passes hpasses, webhookAdmitted, hruns.1]
  simp only [Bool.false_eq_true, if_false]
  rw [hremaining, webhookExecute, hresult]
  simp only [halone _, withAudit, writeAuditLog, hlog, happend]
  unfold Outcome.after Task.recorded
  split <;> rfl

variable {c : AuditChain F} {allowed : Audit.Env → Prop} {keeps : Audit.Dir → List (Dict F) → Prop}

/-- What every append keeps of the log and its entries is kept by a request. -/
theorem handle_logged (happend : ∀ {env dir appended entry}, allowed env →
      NoChainFields entry → keeps dir appended →
      (∀ written, (append c env dir entry).2 = .ok written → JsonValue (.dict entry)) →
      keeps (append c env dir entry).1 (appendedTo appended entry (append c env dir entry).2))
    {server : ServerState F} {r : HttpRequest F} {appended : List (Dict F)}
    (h : keeps server.log appended) (hsite : r.site.chain = c) (halone : r.Alone)
    (hallowed : allowed r.env.audit)
    (hjson : ∀ entry ∈ logged server [r], JsonValue (.dict entry)) :
    keeps (handle server r).1.log (appended ++ logged server [r]) := by
  have hlogged := logged_singleton server r
  rcases handle_writes halone server with ⟨hlog, hnone⟩ | ⟨entry, hkeys, hlog, haudited⟩
  · rw [hlog, hlogged, hnone, List.map_nil, List.append_nil]
    exact h
  · rw [hsite] at hlog haudited
    rw [hlogged, haudited] at hjson ⊢
    rw [hlog]
    unfold writeAuditLog at hjson ⊢
    have hkept := happend hallowed (hkeys.unchained r.env.clock.audit.isoformatZ) h
    revert hjson hkept
    rcases Audit.append c r.env.audit server.log
      (auditLogEntry entry r.env.clock.audit.isoformatZ) with ⟨dir', e | written⟩
    · intro hjson hkept
      rw [List.map_nil, List.append_nil]
      exact hkept fun written h => by cases h
    · intro hjson hkept
      exact hkept fun _ _ => hjson _ List.mem_cons_self

/-- What every append keeps of the log and its entries is kept by a run. -/
theorem run_logged (happend : ∀ {env dir appended entry}, allowed env →
      NoChainFields entry → keeps dir appended →
      (∀ written, (append c env dir entry).2 = .ok written → JsonValue (.dict entry)) →
      keeps (append c env dir entry).1 (appendedTo appended entry (append c env dir entry).2))
    {requests : List (HttpRequest F)} {server : ServerState F} {appended : List (Dict F)}
    (h : keeps server.log appended)
    (hsite : ∀ r ∈ requests, r.site.chain = c) (halone : ∀ r ∈ requests, r.Alone)
    (hallowed : ∀ r ∈ requests, allowed r.env.audit)
    (hjson : ∀ entry ∈ logged server requests, JsonValue (.dict entry)) :
    keeps (run handle server requests).log (appended ++ logged server requests) := by
  induction requests generalizing server appended with
  | nil =>
    rw [logged, List.append_nil]
    exact h
  | cons r requests ih =>
    rw [logged_cons] at hjson ⊢
    rw [← List.append_assoc]
    have hstep := handle_logged happend h (hsite r List.mem_cons_self) (halone r List.mem_cons_self)
      (hallowed r List.mem_cons_self) fun entry hentry => hjson entry (List.mem_append_left _ hentry)
    exact ih hstep (fun r hr => hsite r (List.mem_cons_of_mem _ hr))
      (fun r hr => halone r (List.mem_cons_of_mem _ hr))
      (fun r hr => hallowed r (List.mem_cons_of_mem _ hr))
      fun entry hentry => hjson entry (List.mem_append_right _ hentry)

/-! ## A log without rotation -/

omit [PyDates F] [PydanticTypes F] in
/-- A directory holds the log of these entries, all of them plain. -/
def PlainLog (c : AuditChain F) (dir : Audit.Dir) (appended : List (Dict F)) : Prop :=
  ∃ ws, Holds c dir ws ∧ (∀ w ∈ ws, w.Plain) ∧ ws.map Write.entry = appended

omit [PydanticTypes F] in
/-- One call of `append` without rotation. -/
theorem PlainLog.append (hc : truthy (field (py "enabled") c.retention) = false) {env : Audit.Env}
    {dir : Audit.Dir} {appended : List (Dict F)} {entry : Dict F} (h : PlainLog c dir appended)
    (hno : NoChainFields entry)
    (hentry : ∀ written, (append c env dir entry).2 = .ok written → JsonValue (.dict entry)) :
    PlainLog c (append c env dir entry).1 (appendedTo appended entry (append c env dir entry).2) := by
  rcases h with ⟨ws, hholds, hplain, rfl⟩
  rw [append_disabled hc] at hentry ⊢
  cases hwrite : (writeLocked c dir entry).2 with
  | error e =>
    exact ⟨ws, hholds.write_error (Prod.ext rfl hwrite), hplain, rfl⟩
  | ok written =>
    rw [hwrite] at hentry
    rcases hholds.write_plain (hentry _ rfl) hno with ⟨w, rfl, -, hw, hresult, hmore⟩
    refine ⟨ws ++ [w], by rw [hresult]; exact hmore, ?_, List.map_append⟩
    intro v hv
    rcases List.mem_append.mp hv with hv | hv
    · exact hplain v hv
    · rw [List.mem_singleton.mp hv]
      exact hw

/-! ## Reading the trail -/

/-- The key of a request may read the log. -/
def HttpRequest.MayRead (r : HttpRequest F) : Prop :=
  authenticated r.site.auth r.env.vault r.key = true ∧
    hasPermission r.site.auth (getRoleFromApiKey (resolveApiKeys r.site.auth r.env.vault.role) r.key)
      (py "audit_read") = true

theorem HttpRequest.MayRead.verify {r : HttpRequest F} (h : r.MayRead)
    (hendpoint : r.endpoint = .auditVerify) (server : ServerState F) :
    (handle server r).2.1 = match verifyChain F (server.log.lookup r.site.chain.base) with
      | .ok report => .report report
      | .error _ => unhandledException := by
  show (r.dispatch server).answer = _
  rw [HttpRequest.dispatch_of_authenticated h.1, HttpRequest.respond, hendpoint]
  unfold getAuditVerify
  simp only [h.2, Bool.false_eq_true, if_false, Bool.not_true]
  rfl

/-- Requests, one after the other, on a log that was not there: its files hold what they have
logged, in order, with the marker of a rotation first in each file but the first one. Every file
is accepted as one segment, archives that were deleted since included, and `/audit/verify` reports
so about the live one. -/
theorem trail_kept {server : ServerState F} (habsent : server.log.lookup c.base = none)
    (hnone : ∀ name ∈ server.log, ¬ (c.base ++ py ".") <+: name) {requests : List (HttpRequest F)}
    (hsite : ∀ r ∈ requests, r.site.chain = c) (halone : ∀ r ∈ requests, r.Alone)
    (hcut : ∀ r ∈ requests, CutoffComputable c r.env.audit)
    (hjson : ∀ entry ∈ logged server requests, JsonValue (.dict entry)) :
    (∃ archives rotations, Audit.Kept c
        ⟨(run handle server requests).log, archives, rotations, logged server requests⟩) ∧
      ∀ r : HttpRequest F, r.site.chain = c → r.MayRead → r.endpoint = .auditVerify →
        ∃ report, (handle (run handle server requests) r).2.1 = .report report ∧
          report.ok = true ∧ report.segmentBoundaries = [] := by
  have htrail := @run_logged F _ _ _ c (CutoffComputable c) (Trail c)
    (fun hcut hno h => h.append (fun _ => hcut) hno) _ _ _ (trail_start habsent hnone) hsite halone hcut
    hjson
  rw [List.nil_append] at htrail
  rcases htrail with ⟨archives, rotations, logs, live, h⟩
  refine ⟨⟨archives, rotations, h.kept⟩, fun r hchain hread hendpoint => ?_⟩
  rcases h.kept.live with ⟨report, hreport, hok, hboundaries⟩
  refine ⟨report, ?_, hok, hboundaries⟩
  have hreport : verifyChain F ((run handle server requests).log.lookup c.base) = .ok report :=
    hreport
  rw [hread.verify hendpoint, hchain, hreport]

section Example

/-- The example server without a log. -/
def unloggedServer : ServerState NanFloat := { exampleServer [] with log := ∅ }

/-- A request with the surroundings of the examples. -/
def exampleHttpRequest (apiKey : Str) (endpoint : Endpoint) : HttpRequest NanFloat where
  site := exampleSite (.literal exampleKeys) exampleAction [(py "local", exampleController)]
  env := exampleRequestEnv (.steady [])
  apiVersion := py "1.0"
  errors := .none
  apiKey := some apiKey
  clientHost := none
  endpoint := endpoint

/-- The request of `operator-key` that is executed. -/
def exampleWebhook : HttpRequest NanFloat :=
  exampleHttpRequest (py "operator-key") (.webhook (exampleRequest false).body)

/-- The same at some time, on a site that sets no limit. -/
def exampleWebhookAt (stamp : DateTime) : HttpRequest NanFloat :=
  { exampleWebhook with
    site := { exampleWebhook.site with limits := ⟨some ⟨some none⟩, [], []⟩ }
    env := { exampleWebhook.env with clock := ⟨0, 0, 0, 0, 0, stamp⟩ } }

/-- The entry about its execution. -/
def exampleLogged (stamp : DateTime) : Dict NanFloat :=
  auditLogEntry ((exampleAdmitted exampleAction false).task.auditEntry (py "operator-key")
    (some (py "operator")) ⟨true, [], [], 0, none⟩ none) stamp.isoformatZ

/-- The entry with no text for the time. -/
def unstampedEntry : Dict NanFloat :=
  auditLogEntry ((exampleAdmitted exampleAction false).task.auditEntry (py "operator-key")
    (some (py "operator")) ⟨true, [], [], 0, none⟩ none) []

theorem exampleLogged_eq (stamp : DateTime) :
    exampleLogged stamp = Dict.set (py "timestamp") (.str stamp.isoformatZ) unstampedEntry := rfl

theorem jsonValue_exampleLogged (stamp : DateTime) : JsonValue (.dict (exampleLogged stamp)) := by
  have hread : readBack (.dict unstampedEntry) = .dict unstampedEntry := rfl
  have hunstamped : JsonValue (.dict unstampedEntry) := by
    rw [← hread]
    exact jsonValue_readBack _
  rw [exampleLogged_eq]
  exact hunstamped.set (by decide) (.str (printable_isoformatZ stamp).noHigh.join)

/-- A log that can be written to gets the entry about the execution. -/
theorem logged_webhook {server : ServerState NanFloat} {ws : List (Write NanFloat)}
    (h : Holds (exampleChain []) server.log ws) (stamp : DateTime) :
    logged server [exampleWebhookAt stamp] = [exampleLogged stamp] := by
  have hwaiting := @passes_example exampleAction rfl rfl false
  have hpasses : Passes (exampleWebhookAt stamp).site (exampleWebhookAt stamp).env.vault
      (exampleWebhookAt stamp).env.clock server.hits (exampleRequest false)
      (exampleAdmitted exampleAction false) :=
    { hwaiting with caller := rfl, limit := rfl, authorized := { hwaiting.authorized with } }
  have hruns : (exampleAdmitted exampleAction false).Runs server.cooldowns 0 :=
    ⟨rfl, Task.remaining_eq_none.mpr (Or.inr (Or.inl rfl))⟩
  rcases h.write_plain (jsonValue_exampleLogged stamp) ⟨rfl, rfl, rfl⟩ with ⟨w, -, -, -, hwrite, -⟩
  have happend := append_disabled (c := exampleChain []) rfl exampleEnv server.log
    (exampleLogged stamp)
  rw [hwrite] at happend
  exact logged_execution (fun _ => rfl) rfl rfl hpasses hruns rfl happend

def laterStamp : DateTime := ⟨63902736000500000, by decide⟩

/-- Two executions, one after the other. -/
def exampleExecutions : List (HttpRequest NanFloat) :=
  [exampleWebhookAt exampleEnv.nowStamp, exampleWebhookAt laterStamp]

theorem logged_executions : logged unloggedServer exampleExecutions =
    [exampleLogged exampleEnv.nowStamp, exampleLogged laterStamp] := by
  have hstart : Holds (exampleChain []) unloggedServer.log [] := holds_of_absent rfl
  have hfirst := logged_webhook hstart exampleEnv.nowStamp
  have hjson : ∀ entry ∈ logged unloggedServer [exampleWebhookAt exampleEnv.nowStamp],
      JsonValue (.dict entry) := by
    rw [hfirst, List.forall_mem_singleton]
    exact jsonValue_exampleLogged _
  rcases @handle_logged NanFloat _ _ _ (exampleChain []) (fun _ => True) (PlainLog (exampleChain []))
    (fun _ hno h => h.append rfl hno) unloggedServer (exampleWebhookAt exampleEnv.nowStamp) []
    ⟨[], hstart, by simp, rfl⟩ rfl (fun _ => rfl) trivial hjson with ⟨ws, hholds, -⟩
  rw [exampleExecutions, logged_cons, hfirst, logged_webhook hholds, List.singleton_append]

theorem jsonValue_executions :
    ∀ entry ∈ logged unloggedServer exampleExecutions, JsonValue (.dict entry) := by
  intro entry hentry
  rw [logged_executions] at hentry
  rcases List.mem_cons.mp hentry with rfl | hentry
  · exact jsonValue_exampleLogged _
  · rw [List.mem_singleton.mp hentry]
    exact jsonValue_exampleLogged _

theorem chain_executions : ∀ r ∈ exampleExecutions, r.site.chain = exampleChain [] := by
  rw [exampleExecutions, List.forall_mem_cons, List.forall_mem_singleton]
  exact ⟨rfl, rfl⟩

theorem alone_executions : ∀ r ∈ exampleExecutions, r.Alone := by
  rw [exampleExecutions, List.forall_mem_cons, List.forall_mem_singleton]
  exact ⟨fun _ => rfl, fun _ => rfl⟩

/-- The executions are in the trail, and `/audit/verify` accepts the log. -/
theorem trail_kept_example :
    (∃ archives rotations, Audit.Kept (exampleChain [])
      ⟨(run handle unloggedServer exampleExecutions).log, archives, rotations,
        [exampleLogged exampleEnv.nowStamp, exampleLogged laterStamp]⟩) ∧
    ∃ report, (handle (run handle unloggedServer exampleExecutions)
      (exampleHttpRequest (py "readonly-key") .auditVerify)).2.1 = .report report ∧
        report.ok = true := by
  have hnone : ∀ name ∈ (∅ : Audit.Dir), ¬ ((exampleChain [] : AuditChain NanFloat).base ++ py ".") <+:
      name := fun name hname => absurd hname (AList.notMem_empty name)
  have hcut : ∀ r ∈ exampleExecutions, CutoffComputable (exampleChain []) r.env.audit := by
    intro r hr hdays
    cases hdays
  rcases @trail_kept NanFloat _ _ _ (exampleChain []) unloggedServer rfl hnone exampleExecutions
    chain_executions alone_executions hcut jsonValue_executions with ⟨hkept, hverify⟩
  rcases hverify (exampleHttpRequest (py "readonly-key") .auditVerify) rfl ⟨rfl, rfl⟩ rfl with
    ⟨report, hreport, hok, -⟩
  rw [logged_executions] at hkept
  exact ⟨hkept, report, hreport, hok⟩

end Example

/-! ## What `/audit` shows of it -/

omit [PyDates F] [PydanticTypes F] in
/-- A page of a plain log whose entries can be read and shown has the newest ones that the query
matches. -/
theorem PlainLog.page {site : Site F} {reads : VaultReads} {dir : Audit.Dir} {apiKey : Str}
    {appended : List (Dict F)} (h : PlainLog site.chain dir appended)
    (hfits : ∀ entry ∈ appended, Writable (.dict entry))
    (hanswer : ∀ entry ∈ appended, answerable (.list [.dict entry]) = true)
    (hcount : appended.length < 10 ^ maxStrDigits)
    (hpermitted : hasPermission site.auth
      (getRoleFromApiKey (resolveApiKeys site.auth reads.role) apiKey) (py "audit_read") = true)
    (params : AuditQueryParams) :
    ∃ ds : List (Dict F), getAudit site reads dir apiKey params = .ok (.items (ds.map .dict)) ∧
      ds.map callerFields = (appended.reverse.filter params.matches).take (params.room 0) := by
  rcases h with ⟨ws, ⟨hscratch, hcontent⟩, hplain, rfl⟩
  rw [List.length_map] at hcount
  cases hfile : dir.lookup site.chain.base with
  | none =>
    rw [hfile] at hcontent
    rw [content_eq_nil.mp hcontent.symm]
    exact ⟨[], getAudit_eq_items.mpr ⟨hpermitted, Or.inl ⟨hfile, rfl⟩⟩, List.take_nil.symm⟩
  | some file =>
    rw [hfile, Option.getD_some] at hcontent
    rcases exists_text_content ws with ⟨text, htext, hlines⟩
    rw [← hcontent] at htext
    have hreversed : ∀ w ∈ ws.reverse, w.Plain := fun w hw => hplain w (List.mem_reverse.mp hw)
    have hshort : ∀ w ∈ ws, short (w.state.1 + 1) = true ∧ Printable w.state.2 := by
      intro w hw
      rcases List.mem_iff_getElem?.mp hw with ⟨i, hi⟩
      have hbound := (List.getElem?_eq_some_iff.mp hi).1
      have hnumber := hscratch.state_fst.2 i w hi
      exact ⟨short_iff.mpr (by omega), hscratch.printable.2 w hw⟩
    have hwritable : ∀ w ∈ ws.reverse, Writable (.dict w.result) := by
      intro w hw
      have hw := List.mem_reverse.mp hw
      exact Limited.writable_finalized (hfits _ (List.mem_map_of_mem hw)) (hshort w hw).1
    let ds := ((ws.reverse.filter fun w => params.matches w.entry).map Write.result).take
      (params.room 0)
    have hselected : selected params text = ds.map (PyVal.dict (F := F)) := by
      unfold selected
      rw [hlines, ← List.map_reverse, filterMap_collectedEntry params hreversed hwritable, List.map_take]
    refine ⟨ds, getAudit_eq_items.mpr ⟨hpermitted, Or.inr ⟨file, text, hfile, htext, ?_⟩⟩, ?_⟩
    · rw [hselected]
      refine pageItems_eq_ok_iff.mpr ⟨rfl, ?_, answerable_list.mpr ?_⟩
      · rw [List.forall_mem_map]
        exact fun _ _ => rfl
      · rw [List.forall_mem_map]
        intro d hd
        rcases List.mem_map.mp (List.mem_of_mem_take hd) with ⟨w, hw, rfl⟩
        have hw := List.mem_reverse.mp (List.mem_of_mem_filter hw)
        exact Write.answerable_result (hanswer _ (List.mem_map_of_mem hw)) (hshort w hw).2
          (hshort w hw).1
    · -- an entry without its chain fields is the one that was handed in
      rw [← List.map_reverse, List.filter_map, List.map_take, List.map_map]
      congr 1
      refine List.map_congr_left fun w hw => ?_
      exact (hreversed w (List.mem_of_mem_filter hw)).callerFields

theorem HttpRequest.MayRead.page {r : HttpRequest F} (h : r.MayRead) {params : AuditQueryParams}
    (hendpoint : r.endpoint = .audit (some params)) (server : ServerState F) :
    (handle server r).2.1 =
      Page.answer (getAudit r.site r.env.vault server.log r.key params) := by
  show (r.dispatch server).answer = _
  rw [HttpRequest.dispatch_of_authenticated h.1, HttpRequest.respond, hendpoint]
  rfl

/-- Requests, one after the other, on a log that was not there, without rotation, whose entries can
be read and shown: `/audit` then shows, of everything they have logged, the newest entries that the
query matches, as many as its limit says, and `/audit/verify` counts all of them. -/
theorem audit_shows_trail (hc : truthy (field (py "enabled") c.retention) = false)
    {server : ServerState F} (habsent : server.log.lookup c.base = none)
    {requests : List (HttpRequest F)} (hsite : ∀ r ∈ requests, r.site.chain = c)
    (halone : ∀ r ∈ requests, r.Alone)
    (hjson : ∀ entry ∈ logged server requests, JsonValue (.dict entry))
    (hfits : ∀ entry ∈ logged server requests, Writable (.dict entry))
    (hanswer : ∀ entry ∈ logged server requests, answerable (.list [.dict entry]) = true)
    (hcount : (logged server requests).length < 10 ^ maxStrDigits)
    {r : HttpRequest F} (hchain : r.site.chain = c) (hread : r.MayRead) :
    (∀ params, r.endpoint = .audit (some params) →
      ∃ ds : List (Dict F), (handle (run handle server requests) r).2.1 = .items (ds.map .dict) ∧
        ds.map callerFields =
          ((logged server requests).reverse.filter params.matches).take (params.room 0)) ∧
      (r.endpoint = .auditVerify → (handle (run handle server requests) r).2.1 =
        .report ⟨true, (logged server requests).length, 0, [], none, none⟩) := by
  have hstart : PlainLog c server.log [] := ⟨[], holds_of_absent habsent, by simp, rfl⟩
  have hlog := @run_logged F _ _ _ c (fun _ => True) (PlainLog c) (fun _ hno h => h.append hc hno)
    _ _ _ hstart hsite halone (fun _ _ => trivial) hjson
  rw [List.nil_append] at hlog
  constructor
  · intro params hendpoint
    subst hchain
    rcases hlog.page hfits hanswer hcount hread.2 params with ⟨ds, hpage, hds⟩
    refine ⟨ds, ?_, hds⟩
    rw [hread.page hendpoint, hpage]
    rfl
  · intro hendpoint
    rcases hlog with ⟨ws, hholds, hplain, hentries⟩
    have hreport := @verify_joined F _ [ws] (by simpa using hholds.1) (by simpa using hplain)
    rw [List.flatten_cons, List.flatten_nil, List.append_nil] at hreport
    have hsegments : (beginnings F 1 ([ws].map content)).tail = [] := by
      rw [List.map_singleton, beginnings, beginnings]
      split <;> rfl
    rw [hread.verify hendpoint, hchain, verifyChain_getD, hholds.2, hreport, hsegments,
      ← hentries, List.length_map]

theorem writable_exampleLogged (stamp : DateTime) : Writable (.dict (exampleLogged stamp)) := by
  rw [exampleLogged_eq]
  exact fits_set (by decide : Writable (.dict unstampedEntry)) (fits_str _) _

theorem answerable_exampleLogged (stamp : DateTime) :
    answerable (.list [.dict (exampleLogged stamp)]) = true := by
  rw [exampleLogged_eq]
  have hstamp : rendered (.str stamp.isoformatZ : PyVal NanFloat) = true := by
    rw [rendered_str]
    exact encodes_of_printable (printable_isoformatZ stamp)
  have hunstamped : answerable (.list [.dict unstampedEntry]) = true := by decide
  exact answerable_set hunstamped (by decide) hstamp fun _ => fits_str _

/-- Of two executions the later one is shown where one entry is asked for. -/
theorem audit_shows_trail_example : ∃ d : Dict NanFloat,
    (handle (run handle unloggedServer exampleExecutions)
      (exampleHttpRequest (py "readonly-key") (.audit (some (queryFor 1))))).2.1 = .items [.dict d] ∧
      callerFields d = exampleLogged laterStamp := by
  have hfits : ∀ entry ∈ logged unloggedServer exampleExecutions, Writable (.dict entry) := by
    rw [logged_executions, List.forall_mem_cons, List.forall_mem_singleton]
    exact ⟨writable_exampleLogged _, writable_exampleLogged _⟩
  have hanswer : ∀ entry ∈ logged unloggedServer exampleExecutions,
      answerable (.list [.dict entry]) = true := by
    rw [logged_executions, List.forall_mem_cons, List.forall_mem_singleton]
    exact ⟨answerable_exampleLogged _, answerable_exampleLogged _⟩
  have hcount : (logged unloggedServer exampleExecutions).length < 10 ^ maxStrDigits := by
    rw [logged_executions]
    exact lt_of_lt_of_le (by decide : 2 < 10 ^ 1) (Nat.pow_le_pow_right (by decide) (by decide))
  rcases (@audit_shows_trail NanFloat _ _ _ (exampleChain []) rfl unloggedServer rfl exampleExecutions
    chain_executions alone_executions jsonValue_executions hfits hanswer hcount
    (exampleHttpRequest (py "readonly-key") (.audit (some (queryFor 1)))) rfl ⟨rfl, rfl⟩).1 _ rfl with
    ⟨ds, hds, hfields⟩
  have hmatches : [exampleLogged laterStamp, exampleLogged exampleEnv.nowStamp].filter
      (queryFor 1).matches = [exampleLogged laterStamp, exampleLogged exampleEnv.nowStamp] :=
    List.filter_eq_self.mpr fun _ _ => rfl
  rw [logged_executions, List.reverse_cons, List.reverse_singleton, List.singleton_append, hmatches]
    at hfields
  have hlast : ds.map callerFields = [exampleLogged laterStamp] := hfields
  rcases List.map_eq_singleton_iff.mp hlast with ⟨d, rfl, hd⟩
  exact ⟨d, hds, hd⟩

end Run

end AutoHeal.Server
