import AutoHeal.Exec.Cleanup
import AutoHeal.Server.Approve

/-!
# Dry runs

A dry run that a handler executes makes no call, records no cooldown and is refused by none,
`webhook_harmless` and `approve_harmless`. What a dry run of a command reports is what the
execution splits, or hands to `ssh`.
-/

namespace AutoHeal.Exec

open Server Audit

variable {F : Type} [PyRuntime F]

/-! ## The calls -/

section Calls

variable {O : Type} [PyObjects F O] {action : ActionConfig F} {controller params : Dict F}
variable {dryRun : Option Bool} {asked : List (Made F)}

/-- Nothing is asked in a dry run. -/
theorem asked_executeAction (hdry : isSet dryRun = true) {r : Py (Option ExecResult)}
    (h : Prog.Runs (executeAction O action controller params dryRun) asked r) : asked = [] := by
  unfold executeAction at h
  split_ifs at h with hkube hlocal
  · simp only [Prog.runs_bind_iff, Prog.runs_pure_iff] at h
    rcases h with ⟨_, _, _, rfl, hrun, rfl, -⟩
    rcases runs_runKubeAction hrun with rfl | ⟨_, _, _, -, hlive, -⟩
    · rfl
    · rw [hdry] at hlive
      cases hlive
  · simp only [Prog.runs_bind_iff, Prog.runs_pure_iff] at h
    rcases h with ⟨_, _, _, rfl, hrun, rfl, -⟩
    rcases runs_runRemote O hrun with rfl | ⟨_, _, hlive, -⟩
    · rfl
    · rw [hdry] at hlive
      cases hlive
  -- on this host each of the three executables returns before it spawns
  · rcases hexec : localExecutable action with _ | path | path | template
    · rw [hexec] at h
      exact (Prog.runs_pure_iff.mp h).1
    all_goals
      simp only [hexec, Prog.runs_bind_iff, Prog.runs_pure_iff] at h
      rcases h with ⟨_, before, _, rfl, hrun, rfl, -⟩
      rw [List.append_nil]
      unfold runLocal at hrun
    · unfold runPlaybook at hrun
      simp only [hdry, if_true, Prog.runs_bind_iff, Prog.runs_pure_iff] at hrun
      rcases hrun with ⟨_, _, _, rfl, ⟨rfl, -⟩, rfl, -⟩
      rfl
    · unfold runScript at hrun
      simp only [hdry, if_true, Prog.runs_bind_iff, Prog.runs_pure_iff] at hrun
      rcases hrun with ⟨_, _, _, rfl, ⟨rfl, -⟩, rfl, -⟩
      rfl
    · unfold runCommand at hrun
      rcases runs_withRendered hrun with ⟨rfl, -⟩ | ⟨rendered, -, hnext⟩
      · rfl
      · rw [hdry] at hnext
        exact (Prog.runs_pure_iff.mp hnext).1

end Calls

/-! ## The handlers -/

section Handlers

variable {t : Server.Task F}

theorem remaining_of_dry (hdry : isSet t.dryRun = true) (cooldowns : Cooldowns) (now : ℚ) :
    t.remaining cooldowns now = none := Task.remaining_eq_none.mpr (Or.inl hdry)

theorem record_of_dry (hdry : isSet t.dryRun = true) (cooldowns : Cooldowns) (now nowPrune : ℚ) :
    t.record cooldowns now nowPrune = cooldowns := by
  unfold Task.record Task.coolsDown
  simp [hdry]

theorem recorded_of_dry (hdry : isSet t.dryRun = true) : t.recorded = [] := by
  unfold Task.recorded Task.coolsDown
  simp [hdry]

/-- The cooldowns after a dry run are those that other requests left, and no record was made. -/
structure Unrecorded (env : RequestEnv F) (server : ServerState F) (o : Server.Outcome F) : Prop where
  effects : ∀ key, .recorded key ∉ o.effects
  cooldowns : ∃ before, before.cooldowns = server.cooldowns ∧
    o.server.cooldowns = (env.meanwhile before).cooldowns

omit [PyRuntime F] in
theorem Unrecorded.congr {env : RequestEnv F} {server server' : ServerState F} {o : Server.Outcome F}
    (h : Unrecorded env server' o) (hcooldowns : server'.cooldowns = server.cooldowns) :
    Unrecorded env server o := by
  rcases h.cooldowns with ⟨before, hbefore, hafter⟩
  exact ⟨h.effects, before, hbefore.trans hcooldowns, hafter⟩

variable [PyDates F] {site : Site F} {env : RequestEnv F} {server : ServerState F}

theorem not_recorded_withAudit {entry : Dict F} {answer : Py (Response F)} {call : NotifyCall F}
    {key : Str} : .recorded key ∉
      (withAudit site env server entry fun server => ⟨server, answer, [.notified call]⟩).effects := by
  intro h
  rcases withAudit_effects site env server entry answer [.notified call] with he | he
  · rw [he] at h
    simp at h
  · rw [he] at h
    cases h

theorem unrecorded_webhookExecute {request : WebhookRequest} {a : Admitted F}
    (hdry : isSet a.task.dryRun = true) :
    Unrecorded env server (webhookExecute site env server request a) := by
  unfold webhookExecute
  rcases a.task.execute env.executor with e | _ | result
  · exact ⟨by simp [Task.executed], server, rfl, rfl⟩
  · exact ⟨by simp [Task.executed], server, rfl, rfl⟩
  · simp only [record_of_dry hdry, recorded_of_dry hdry, Outcome.after]
    constructor
    · intro key hmem
      rcases List.mem_cons.mp hmem with hmem | hmem
      · cases hmem
      · exact not_recorded_withAudit hmem
    · rcases withAudit_server site env (env.meanwhile server)
        (a.task.auditEntry request.apiKey a.role result request.clientHost)
        (.ok (.ok (a.body result))) [.notified (a.task.notify request.apiKey result)] with ⟨log, hlog⟩
      rw [hlog]
      exact ⟨server, rfl, rfl⟩

theorem unrecorded_approveExecute {apiKey : Str} {role : Option Str} {e : Approval F}
    (hdry : isSet t.dryRun = true) :
    Unrecorded env server (approveExecute site env server apiKey role t e).1 := by
  unfold approveExecute
  rcases t.execute env.executor with error | _ | result
  · exact ⟨by simp [Task.executed], server, rfl, rfl⟩
  · exact ⟨by simp [Task.executed], server, rfl, rfl⟩
  · simp only [record_of_dry hdry, recorded_of_dry hdry, Outcome.after]
    constructor
    · intro key hmem
      rcases List.mem_cons.mp hmem with hmem | hmem
      · cases hmem
      · exact not_recorded_withAudit hmem
    · rcases withAudit_server site env ((env.meanwhile server).saveEntry (e.finish result) env.savesResult)
        ((e.finish result).approvedEntry t apiKey role result) (.ok (.ok (approvedBody result)))
        [.notified (t.notify e.requestedBy result)] with ⟨log, hlog⟩
      rw [hlog]
      exact ⟨server, rfl, rfl⟩

variable (O : Type) [PyObjects F O]

/-- What a dry run leaves alone that `handle` executes: it makes no call, records no cooldown, and
is executed whatever the cooldowns are. -/
structure Harmless (env : RequestEnv F) (server : ServerState F)
    (handle : ServerState F → Server.Outcome F) (action : ActionConfig F) (controller : Option (Dict F))
    (params : Dict F) (dryRun : Option Bool) : Prop where
  silent : ∀ config, controller = some config → ∀ asked r,
    Prog.Runs (executeAction O action config params dryRun) asked r → asked = []
  unrecorded : Unrecorded env server (handle server)
  unrefused : ∀ cooldowns,
    .executed action controller params dryRun ∈ (handle { server with cooldowns }).effects

variable [PydanticTypes F] {action : ActionConfig F} {controller : Option (Dict F)} {params : Dict F}
variable {dryRun : Option Bool}

theorem webhook_harmless {request : WebhookRequest} (hdry : isSet dryRun = true)
    (h : .executed action controller params dryRun ∈ (webhook site env server request).effects) :
    Harmless O env server (webhook site env · request) action controller params dryRun := by
  rcases executed_mem_webhook.mp h with ⟨a, hpasses, hruns, hexecuted⟩
  have htask : isSet a.task.dryRun = true := by
    cases hexecuted
    exact hdry
  constructor
  · intro config _ asked r hasked
    exact asked_executeAction hdry hasked
  · rw [webhook_of_passes hpasses, webhookAdmitted]
    simp only [hruns.1, remaining_of_dry htask, Bool.false_eq_true, if_false]
    exact (unrecorded_webhookExecute htask).congr rfl
  · intro cooldowns
    exact executed_mem_webhook.mpr
      ⟨a, hpasses, ⟨hruns.1, remaining_of_dry htask _ _⟩, hexecuted⟩

theorem approve_harmless {apiKey approvalId : Str} (hdry : isSet dryRun = true)
    (h : .executed action controller params dryRun ∈
      (approve site env server apiKey approvalId).1.effects) :
    Harmless O env server (fun server => (approve site env server apiKey approvalId).1) action
      controller params dryRun := by
  rcases executed_mem_approve.mp h with ⟨e, task, happrovable, hclaims, hexecuted⟩
  have htask : isSet task.dryRun = true := by
    cases hexecuted
    exact hdry
  constructor
  · intro config _ asked r hasked
    exact asked_executeAction hdry hasked
  · simp only [approve_of_claims happrovable hclaims rfl]
    exact (unrecorded_approveExecute htask).congr rfl
  · intro cooldowns
    have happrovable' : Approvable site env { server with cooldowns } apiKey approvalId e :=
      ⟨happrovable.approver, happrovable.found, happrovable.pending, happrovable.other⟩
    have hclaims' : Claims site env.vault cooldowns env.clock.check e task :=
      { hclaims with free := remaining_of_dry htask _ _ }
    exact executed_mem_approve.mpr ⟨e, task, happrovable', hclaims', hexecuted⟩

end Handlers

/-! ## The command that is reported -/

section Reported

variable (O : Type) [PyObjects F O] {params : Dict F} {dry live : Option Bool} {asked : List (Made F)}
variable {result : ExecResult}

/-- `run_command` splits what its dry run reports. -/
theorem reported_runCommand {template : Str} (hdry : isSet dry = true) (hlive : isSet live = false)
    (h : Prog.Runs (runCommand O template params dry) asked (.ok result))
    (hsuccess : result.success = true) :
    ∃ rendered, result.stdout = py "[DRY-RUN] Would run command: " ++ rendered ∧
      runCommand O template params live = do return .ok (← spawn rendered) := by
  unfold runCommand at h ⊢
  simp only [hdry, hlive, if_true, Bool.false_eq_true, if_false] at h ⊢
  rcases hrendered : renderCommand O template params with (text | text | e) | rendered
  all_goals rw [hrendered] at h
  · rcases Prog.runs_pure_iff.mp h with ⟨-, hresult⟩
    cases hresult
    cases hsuccess
  · rcases Prog.runs_pure_iff.mp h with ⟨-, hresult⟩
    cases hresult
    cases hsuccess
  · rcases Prog.runs_pure_iff.mp h with ⟨-, hresult⟩
    cases hresult
  · rcases Prog.runs_pure_iff.mp h with ⟨-, hresult⟩
    cases hresult
    exact ⟨rendered, rfl, rfl⟩

/-- `run_remote` hands to `ssh` what its dry run reports. -/
theorem reported_runRemote {controller : Dict F} {action : ActionConfig F} (hdry : isSet dry = true)
    (hlive : isSet live = false)
    (h : Prog.Runs (runRemote O controller action params dry) asked (.ok result))
    (hsuccess : result.success = true) :
    ∃ remoteCmd, result.stdout =
        py "[DRY-RUN] Would SSH to " ++ sshTarget controller ++ py " and run: " ++ remoteCmd ∧
      runRemote O controller action params live =
        connect (sshTarget controller) (field (py "ssh_key") controller) remoteCmd := by
  unfold runRemote at h ⊢
  cases hhost : truthy (field (py "host") controller) with
  | false =>
    simp only [hhost, Bool.not_false, if_true] at h
    rcases Prog.runs_pure_iff.mp h with ⟨-, hresult⟩
    cases hresult
    cases hsuccess
  | true =>
    cases huser : truthy (field (py "ssh_user") controller) with
    | false =>
      simp only [hhost, huser, Bool.not_true, Bool.not_false, Bool.false_eq_true, if_false,
        if_true] at h
      rcases Prog.runs_pure_iff.mp h with ⟨-, hresult⟩
      cases hresult
      cases hsuccess
    | true =>
      simp only [hhost, huser, hdry, hlive, Bool.not_true, Bool.false_eq_true, if_false,
        if_true] at h ⊢
      -- every way the line can fail reports a failure; only a line is reported as success
      rcases hline : buildRemoteCommand O action params with (text | text | e) | _ | remoteCmd
      all_goals
        rw [hline] at h
        rcases Prog.runs_pure_iff.mp h with ⟨-, hresult⟩
        cases hresult
      · cases hsuccess
      · cases hsuccess
      · cases hsuccess
      · exact ⟨remoteCmd, rfl, rfl⟩

/-- `ssh` is given the command of a connection, and nothing else is started. -/
theorem process_connect {target remoteCmd : Str} {sshKey : PyVal F} {r : Py ExecResult}
    (h : Prog.Runs (connect target sshKey remoteCmd) asked r) {argv : List Str} {outcome : Process}
    (hmem : ⟨.process argv, outcome⟩ ∈ asked) : ∃ key : PyVal F, argv = sshArgs key target remoteCmd := by
  rcases runs_connect h with ⟨_, hfile, -⟩ | ⟨e, hfile, -⟩ |
    ⟨key, path, before, outcome', after, hfile, rfl, hunlink, -⟩
  · exact absurd trivial (hfile.abandoned.unused _ hmem)
  · exact absurd trivial (hfile.abandoned.unused _ hmem)
  · rcases List.mem_append.mp hmem with hmem | hmem
    · exact absurd trivial (hfile.acquired.unused _ hmem)
    · rcases List.mem_cons.mp hmem with hmem | hmem
      · cases hmem
        exact ⟨key, rfl⟩
      · rcases calls_unlinkAll hunlink _ hmem with ⟨tmp, removed, heq⟩
        cases heq

end Reported

/-! ## Both -/

/-- A dry run is harmless on both ways to an execution, and what it reports is what is executed. -/
theorem dry_run_harmless (O : Type) [PyObjects F O] [PyDates F] [PydanticTypes F] :
    (∀ (site : Site F) (env : RequestEnv F) (server : ServerState F) (request : WebhookRequest)
        action controller params dryRun, isSet dryRun = true →
      .executed action controller params dryRun ∈ (webhook site env server request).effects →
      Harmless O env server (webhook site env · request) action controller params dryRun) ∧
    (∀ (site : Site F) (env : RequestEnv F) (server : ServerState F) apiKey approvalId
        action controller params dryRun, isSet dryRun = true →
      .executed action controller params dryRun ∈ (approve site env server apiKey approvalId).1.effects →
      Harmless O env server (fun server => (approve site env server apiKey approvalId).1) action
        controller params dryRun) ∧
    (∀ template (params : Dict F) dry live asked result, isSet dry = true → isSet live = false →
      Prog.Runs (runCommand O template params dry) asked (.ok result) → result.success = true →
      ∃ rendered, result.stdout = py "[DRY-RUN] Would run command: " ++ rendered ∧
        runCommand O template params live = do return .ok (← spawn rendered)) ∧
    ∀ (controller : Dict F) action params dry live asked result,
      isSet dry = true → isSet live = false →
      Prog.Runs (runRemote O controller action params dry) asked (.ok result) →
      result.success = true →
      ∃ remoteCmd, result.stdout =
          py "[DRY-RUN] Would SSH to " ++ sshTarget controller ++ py " and run: " ++ remoteCmd ∧
        runRemote O controller action params live =
          connect (sshTarget controller) (field (py "ssh_key") controller) remoteCmd ∧
        ∀ asked r, Prog.Runs (runRemote O controller action params live) asked r →
          ∀ argv outcome, ⟨.process argv, outcome⟩ ∈ asked →
          ∃ key : PyVal F, argv = sshArgs key (sshTarget controller) remoteCmd := by
  refine ⟨fun _ _ _ _ _ _ _ _ => webhook_harmless O, fun _ _ _ _ _ _ _ _ _ => approve_harmless O,
    fun _ _ _ _ _ _ => reported_runCommand O, ?_⟩
  intro controller action params dry live asked result hdry hlive hruns hsuccess
  rcases reported_runRemote O hdry hlive hruns hsuccess with ⟨remoteCmd, hreported, hprogram⟩
  refine ⟨remoteCmd, hreported, hprogram, fun asked r hrun argv outcome hmem => ?_⟩
  rw [hprogram] at hrun
  exact process_connect hrun hmem

theorem jsonValue_dryPayload : JsonValue (.dict ([(.str (py "event_type"), .str (py "check")),
    (.str (py "dry_run"), .bool true)] : Dict NanFloat)) :=
  (jsonValue_empty.cons (by decide) rfl (.bool true)).cons (by decide) rfl (.str (by decide))

/-- A dry run that is waiting for approval. -/
def dryEntry : Approval NanFloat :=
  { exampleEntry with payload := ⟨.dict [(.str (py "event_type"), .str (py "check")),
      (.str (py "dry_run"), .bool true)], jsonValue_dryPayload.keyed⟩ }

/-- The command of an approved dry run, and of a dry run on a controller. -/
theorem dry_run_harmless_example :
    Harmless (PyVal NanFloat) (exampleRequestEnv (.steady exampleKeys)) (exampleServer [dryEntry])
      (fun server => (approve (exampleSite (.literal exampleKeys) exampleAction
        [(py "local", exampleController)]) (exampleRequestEnv (.steady exampleKeys)) server
        (py "admin-key") exampleEntry.id.val).1)
      exampleAction (some exampleController) [] (some true) ∧
    (∃ rendered, py "[DRY-RUN] Would run command: df" =
        py "[DRY-RUN] Would run command: " ++ rendered ∧
      runCommand (PyVal NanFloat) (py "df") ([] : Dict NanFloat) none =
        do return .ok (← spawn rendered)) ∧
    ∃ remoteCmd, py "[DRY-RUN] Would SSH to ops@10.0.0.1 and run: df" =
        py "[DRY-RUN] Would SSH to " ++ sshTarget sshHost ++ py " and run: " ++ remoteCmd ∧
      runRemote (PyVal NanFloat) sshHost (commandAction "df") [] none =
        connect (sshTarget sshHost) (field (py "ssh_key") sshHost) remoteCmd := by
  rcases dry_run_harmless (F := NanFloat) (PyVal NanFloat) with ⟨-, happrove, hcommand, hremote⟩
  refine ⟨?_, ?_, ?_⟩
  · apply happrove _ _ _ _ _ _ _ _ _ rfl
    let task : Server.Task NanFloat := ⟨⟨py "check", none, some [], some true, some false⟩,
      exampleAction, some (py "local"), some exampleController⟩
    have happrovable : Approvable (exampleSite (.literal exampleKeys) exampleAction
        [(py "local", exampleController)]) (exampleRequestEnv (.steady exampleKeys))
        (exampleServer [dryEntry]) (py "admin-key") exampleEntry.id.val dryEntry :=
      ⟨rfl, rfl, rfl, by decide⟩
    have hclaims : Claims (exampleSite (.literal exampleKeys) exampleAction
        [(py "local", exampleController)]) (.steady exampleKeys)
        (exampleServer [dryEntry]).cooldowns 0 dryEntry task :=
      ⟨rfl, rfl, rfl, rfl, rfl, remaining_of_dry rfl _ _⟩
    exact executed_mem_approve.mpr ⟨dryEntry, task, happrovable, hclaims, rfl⟩
  · exact hcommand _ _ (some true) none [] ⟨true, _, [], 0, none⟩ rfl rfl (.done _) rfl
  · rcases hremote sshHost (commandAction "df") [] (some true) none [] ⟨true, _, [], 0, none⟩ rfl rfl
      (.done _) rfl with ⟨remoteCmd, hreported, hprogram, -⟩
    exact ⟨remoteCmd, hreported, hprogram⟩

end AutoHeal.Exec
