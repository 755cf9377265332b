import AutoHeal.Exec.Kube

/-!
# Dispatch

`execute_action` of `src/main.py` with the calls it makes. `executeAction_world` says that in any
world it returns what the handlers take it to return. `executeAction_returns_iff` says when it
returns, and `executables_agree` what it runs on a controller and on this host.
-/

namespace AutoHeal.Exec

open Server Audit

variable {F : Type} [PyRuntime F] (O : Type) [PyObjects F O]

/-! ## The function -/

/-- What `execute_action` runs of an action on this host. -/
def localExecutable (action : ActionConfig F) : Option Executable :=
  match action.playbook, action.script, action.command with
  | some path, _, _ => some (.playbook path)
  | none, some path, _ => some (.script path)
  | none, none, some template => some (.command template)
  | none, none, none => none

/-- An executable, run on this host. -/
def runLocal (params : Dict F) (dryRun : Option Bool) : Executable → Effect F (Py ExecResult)
  | .playbook path => do return .ok (← runPlaybook path params dryRun)
  | .script path =>
    let args := if params.isEmpty then none else some (params.map fun kv => pyStr kv.2)
    do return .ok (← runScript path args dryRun)
  | .command template => runCommand O template params dryRun

/-- The controller is one for `kube_action`. -/
def isKubeapi (controller : Dict F) : Bool :=
  scalarEq (field (py "type") controller) (.str (py "kubeapi"))

/-- `execute_action`. -/
def executeAction (action : ActionConfig F) (controller params : Dict F) (dryRun : Option Bool) :
    Effect F (Py (Option ExecResult)) :=
  if isKubeapi controller then do
    return (← runKubeAction O controller action params dryRun).map some
  else if !isLocalController controller then do
    return (← runRemote O controller action params dryRun).map some
  else
    match localExecutable action with
    | none => pure (.ok none)
    | some executable => do return (← runLocal O params dryRun executable).map some

/-- The executor in a world. -/
def executor (world : Prog.World (Call F) (Answer F)) : Executor F where
  runPlaybook path vars dryRun := (Prog.run world 0 (runPlaybook path vars dryRun)).2
  runScript path args dryRun := (Prog.run world 0 (runScript path args dryRun)).2
  runCommand template params dryRun := (Prog.run world 0 (runCommand O template params dryRun)).2
  runRemote controller action params dryRun :=
    (Prog.run world 0 (runRemote O controller action params dryRun)).2
  runKubeAction controller action params dryRun :=
    (Prog.run world 0 (runKubeAction O controller action params dryRun)).2

/-- In a world, the function returns what the dispatch of the handlers does. -/
theorem executeAction_world (world : Prog.World (Call F) (Answer F)) (action : ActionConfig F)
    (controller params : Dict F) (dryRun : Option Bool) :
    Server.executeAction (executor O world) action (some controller) params dryRun =
      (Prog.run world 0 (executeAction O action controller params dryRun)).2 := by
  unfold Server.executeAction executeAction localExecutable
  cases hkube : isKubeapi controller with
  | true =>
    unfold isKubeapi at hkube
    simp only [hkube, if_true, Prog.run_map]
    rfl
  | false =>
    unfold isKubeapi at hkube
    simp only [hkube, Bool.false_eq_true, if_false]
    cases isLocalController controller with
    | false =>
      simp only [Bool.not_false, if_true, Prog.run_map]
      rfl
    | true =>
      simp only [Bool.not_true, Bool.false_eq_true, if_false]
      rcases action.playbook with _ | playbook
      · rcases action.script with _ | script
        · rcases action.command with _ | command
          · rfl
          · simp only [runLocal, Prog.run_map]
            rfl
        · simp only [runLocal, Prog.run_map]
          rfl
      · simp only [runLocal, Prog.run_map]
        rfl

/-! ## What is rendered -/

/-- What the function renders of the action, on the way to what it runs. -/
def rendering (action : ActionConfig F) (controller params : Dict F) : Except FormatError Unit :=
  if isKubeapi controller then
    match knownVerb action with
    | none => .ok ()
    | some _ => (renderKubeActionFields O action params).map fun _ => ()
  else if !isLocalController controller then
    if !truthy (field (py "host") controller) || !truthy (field (py "ssh_user") controller) then
      .ok ()
    else (buildRemoteCommand O action params).map fun _ => ()
  else
    match localExecutable action with
    | some (.command template) => (renderCommand O template params).map fun _ => ()
    | _ => .ok ()

/-- The function reaches the `ssh` key. -/
def Connects (action : ActionConfig F) (controller params : Dict F) (dryRun : Option Bool) : Prop :=
  isKubeapi controller = false ∧ isLocalController controller = false ∧
    truthy (field (py "host") controller) = true ∧
    truthy (field (py "ssh_user") controller) = true ∧ isSet dryRun = false ∧
    ∃ remoteCmd, buildRemoteCommand O action params = .ok (some remoteCmd)

/-- After this answer the file of a reference is not to be had, and not because Vault is
unavailable. -/
def Spoils (path field : Str) : Made F → Prop
  | ⟨.getSecret _, answer⟩ =>
    match (answer : Except SecretError (PyVal F)) with
    | .error (.unavailable _) => False
    | .error (.raised _) => True
    | .ok secret =>
      match secretField path field secret with
      | .error (.unavailable _) | .ok (.str _) => False
      | .error (.raised _) | .ok _ => True
  | ⟨.mkstemp, answer⟩ => ∃ e, answer = Except.error e
  | ⟨.writeSecret _ _, answer⟩ => ∃ e, answer = Except.error e
  | _ => False

/-- The key is empty or a text, and a reference is not spoiled by what is answered. -/
def KeyUsable (sshKey : PyVal F) (asked : List (Made F)) : Prop :=
  truthy sshKey = true → ∃ s, sshKey = .str s ∧
    ∀ path field, vaultReference s (some (py "private_key")) = some (path, field) →
      ∀ m ∈ asked, ¬ Spoils path field m

variable {O} {action : ActionConfig F} {controller params : Dict F} {dryRun : Option Bool}
variable {asked : List (Made F)}

/-! ## One method -/

/-- What a method comes to, for something it renders. It raises what a rendering raises other than
a `KeyError` and an `IndexError`, and with a key that is not usable. -/
def Outcome (rendered : Except FormatError Unit) (usable : Prop) (r : Py ExecResult) : Prop :=
  match rendered with
  | .error (.raised e) => r = .error e
  | .error _ => usable ∧ ∃ text, r = .ok (failed text)
  | .ok () => (usable ∧ ∃ result, r = .ok result) ∨ (¬ usable ∧ ∃ e, r = .error e)

omit [PyRuntime F] in
theorem outcome_withRendered {α : Type} {rendered : Except FormatError α} {place : Str}
    {next : α → Effect F (Py ExecResult)} {usable : Prop} {r : Py ExecResult}
    (h : Prog.Runs (withRendered rendered place next) asked r)
    (hlookup : ∀ e, rendered = .error e → usable)
    (hnext : ∀ a, rendered = .ok a → Prog.Runs (next a) asked r →
      (usable ∧ ∃ result, r = .ok result) ∨ (¬ usable ∧ ∃ e, r = .error e)) :
    Outcome (rendered.map fun _ => ()) usable r := by
  unfold withRendered at h
  rcases rendered with (text | text | e) | a
  · rcases Prog.runs_pure_iff.mp h with ⟨-, rfl⟩
    exact ⟨hlookup _ rfl, _, rfl⟩
  · rcases Prog.runs_pure_iff.mp h with ⟨-, rfl⟩
    exact ⟨hlookup _ rfl, _, rfl⟩
  · rcases Prog.runs_pure_iff.mp h with ⟨-, rfl⟩
    exact (rfl : (.error e : Py ExecResult) = .error e)
  · exact hnext a rfl h

/-- A method returns, and with a failure where a rendering failed, when the rendering raises nothing
else than a `KeyError` or an `IndexError` and the key is usable. -/
theorem Outcome.returns_iff {rendered : Except FormatError Unit} {usable : Prop}
    {r : Py ExecResult} (h : Outcome rendered usable r) :
    ((∃ result, r = .ok result) ∧ ∀ e, rendered = .error e → ∃ text, r = .ok (failed text)) ↔
      (∀ e, rendered ≠ .error (.raised e)) ∧ usable := by
  unfold Outcome at h
  rcases rendered with (text | text | e) | ⟨⟩
  · rcases h with ⟨husable, text, rfl⟩
    exact iff_of_true ⟨⟨_, rfl⟩, fun _ _ => ⟨_, rfl⟩⟩ ⟨by simp, husable⟩
  · rcases h with ⟨husable, text, rfl⟩
    exact iff_of_true ⟨⟨_, rfl⟩, fun _ _ => ⟨_, rfl⟩⟩ ⟨by simp, husable⟩
  · have hraised : r = .error e := h
    subst hraised
    exact iff_of_false (by simp) (by simp)
  · rcases h with ⟨husable, result, rfl⟩ | ⟨husable, e, rfl⟩
    · exact iff_of_true ⟨⟨_, rfl⟩, by simp⟩ ⟨by simp, husable⟩
    · exact iff_of_false (by simp) fun h => husable h.2

omit [PyRuntime F] in
/-- A run that ends in a result of some other run. -/
theorem exists_result {p : Effect F ExecResult} {r : Py ExecResult}
    (h : Prog.Runs (do return .ok (← p)) asked r) : ∃ result, r = .ok result := by
  simp only [Prog.runs_bind_iff, Prog.runs_pure_iff] at h
  rcases h with ⟨result, _, _, -, -, -, rfl⟩
  exact ⟨result, rfl⟩

theorem outcome_runCommand {template : Str} {r : Py ExecResult}
    (h : Prog.Runs (runCommand O template params dryRun) asked r) :
    Outcome ((renderCommand O template params).map fun _ => ()) True r := by
  refine outcome_withRendered h (fun _ _ => trivial) fun rendered _ hnext => ?_
  split at hnext
  · rcases Prog.runs_pure_iff.mp hnext with ⟨-, rfl⟩
    exact Or.inl ⟨trivial, _, rfl⟩
  · exact Or.inl ⟨trivial, exists_result hnext⟩

theorem outcome_runKubeAction {r : Py ExecResult}
    (h : Prog.Runs (runKubeAction O controller action params dryRun) asked r) :
    Outcome (match knownVerb action with
      | none => .ok ()
      | some _ => (renderKubeActionFields O action params).map fun _ => ()) True r := by
  unfold runKubeAction at h
  cases hverb : knownVerb action with
  | none =>
    rw [hverb] at h
    rcases Prog.runs_pure_iff.mp h with ⟨-, rfl⟩
    exact Or.inl ⟨trivial, _, rfl⟩
  | some verb =>
    rw [hverb] at h
    refine outcome_withRendered h (fun _ _ => trivial) fun rendered _ hnext => ?_
    split at hnext
    · rcases Prog.runs_pure_iff.mp hnext with ⟨-, rfl⟩
      exact Or.inl ⟨trivial, _, rfl⟩
    · exact Or.inl ⟨trivial, exists_result hnext⟩

/-! ## The key -/

/-- The file of a key is refused with another exception than that of Vault when the key is not
usable. -/
theorem SecretFile.keyUsable_iff {sshKey : PyVal F}
    {r : Except SecretError (PyVal F × Option TempPath)}
    (h : SecretFile (py "private_key") sshKey asked r) :
    KeyUsable sshKey asked ↔ ∀ e, r ≠ .error (.raised e) := by
  -- every answer that was not an exception leaves the key usable
  have hof : ∀ {s path field : Str} {asked : List (Made F)},
      vaultReference s (some (py "private_key")) = some (path, field) →
      (∀ m ∈ asked, ¬ Spoils path field m) → KeyUsable (.str s : PyVal F) asked := by
    intro s path field asked href hmade _
    refine ⟨s, rfl, fun path' field' href' => ?_⟩
    rw [href] at href'
    cases href'
    exact hmade
  -- and one answer that was makes it unusable
  have hnot : ∀ {s path field : Str} {asked : List (Made F)} {m : Made F},
      vaultReference s (some (py "private_key")) = some (path, field) →
      m ∈ asked → Spoils path field m → ¬ KeyUsable (.str s : PyVal F) asked := by
    intro s path field asked m href hmem hspoils husable
    have ht : truthy (.str s : PyVal F) = true := by
      cases s with
      | nil => cases href
      | cons c cs => rfl
    rcases husable ht with ⟨s', hs, hall⟩
    cases hs
    exact hall path field href m hmem hspoils
  cases h with
  | plain h =>
    refine iff_of_true (fun ht => ?_) (by simp)
    rcases h ht with ⟨s, rfl, hplain⟩
    refine ⟨s, rfl, fun path field href => ?_⟩
    unfold vaultReference at href
    rw [hplain] at href
    cases href
  | notText ht h text =>
    refine iff_of_false (fun husable => ?_) (by simp)
    rcases husable ht with ⟨s, hs, -⟩
    exact h s hs
  | noField href text => exact iff_of_true (hof href (by simp)) (by simp)
  | noSecret href e =>
    cases e with
    -- an unavailable vault is a result of its own, any other exception escapes
    | unavailable text => exact iff_of_true (hof href (by simp [Spoils])) (by simp)
    | raised e => exact iff_of_false (hnot href List.mem_cons_self trivial) (by simp)
  | badSecret href he =>
    rename_i secret e
    cases e with
    | unavailable text => exact iff_of_true (hof href (by simp [Spoils, he])) (by simp)
    | raised e =>
      refine iff_of_false (hnot href List.mem_cons_self ?_) (by simp)
      simp [Spoils, he]
  | noFile href hv e =>
    refine iff_of_false (hnot href (List.mem_cons_of_mem _ List.mem_cons_self) ?_) (by simp)
    exact ⟨e, rfl⟩
  | notWritable href hv ht tmp e removed =>
    refine iff_of_false (hnot href List.mem_cons_self ?_) (by simp)
    unfold Spoils
    simp only [hv]
  | notWritten href hv tmp e removed =>
    refine iff_of_false (hnot href
      (List.mem_cons_of_mem _ (List.mem_cons_of_mem _ List.mem_cons_self)) ?_) (by simp)
    exact ⟨e, rfl⟩
  | written href hv tmp =>
    refine iff_of_true (hof href ?_) (by simp)
    intro m hm
    simp only [List.mem_cons, List.not_mem_nil, or_false] at hm
    rcases hm with rfl | rfl | rfl
    · simp [Spoils, hv]
    · simp [Spoils]
    · simp [Spoils]

theorem outcome_runRemote {r : Py ExecResult}
    (h : Prog.Runs (runRemote O controller action params dryRun) asked r)
    (hkube : isKubeapi controller = false) (hlocal : isLocalController controller = false) :
    Outcome (if !truthy (field (py "host") controller) || !truthy (field (py "ssh_user") controller)
        then .ok () else (buildRemoteCommand O action params).map fun _ => ())
      (Connects O action controller params dryRun → KeyUsable (field (py "ssh_key") controller) asked)
      r := by
  unfold runRemote at h
  cases hhost : truthy (field (py "host") controller) with
  | false =>
    simp only [hhost, Bool.not_false, if_true, Bool.true_or] at h ⊢
    rcases Prog.runs_pure_iff.mp h with ⟨-, rfl⟩
    refine Or.inl ⟨fun hconnects => ?_, _, rfl⟩
    exact absurd hconnects.2.2.1 (by simp [hhost])
  | true =>
    cases huser : truthy (field (py "ssh_user") controller) with
    | false =>
      simp only [hhost, huser, Bool.not_true, Bool.not_false, Bool.false_eq_true, if_false, if_true,
        Bool.false_or] at h ⊢
      rcases Prog.runs_pure_iff.mp h with ⟨-, rfl⟩
      refine Or.inl ⟨fun hconnects => ?_, _, rfl⟩
      exact absurd hconnects.2.2.2.1 (by simp [huser])
    | true =>
      simp only [hhost, huser, Bool.not_true, Bool.false_eq_true, if_false, Bool.false_or] at h ⊢
      refine outcome_withRendered h (fun e he hconnects => ?_) fun line hline hnext => ?_
      · rcases hconnects.2.2.2.2.2 with ⟨remoteCmd, hcmd⟩
        rw [he] at hcmd
        cases hcmd
      · cases line with
        | none =>
          rcases Prog.runs_pure_iff.mp hnext with ⟨-, rfl⟩
          refine Or.inl ⟨fun hconnects => ?_, _, rfl⟩
          rcases hconnects.2.2.2.2.2 with ⟨remoteCmd, hcmd⟩
          rw [hline] at hcmd
          cases hcmd
        | some remoteCmd =>
          cases hdry : isSet dryRun with
          | true =>
            simp only [hdry, if_true] at hnext
            rcases Prog.runs_pure_iff.mp hnext with ⟨-, rfl⟩
            refine Or.inl ⟨fun hconnects => ?_, _, rfl⟩
            exact absurd hconnects.2.2.2.2.1 (by simp [hdry])
          | false =>
            simp only [hdry, Bool.false_eq_true, if_false] at hnext
            have hconnects : Connects O action controller params dryRun :=
              ⟨hkube, hlocal, hhost, huser, hdry, remoteCmd, hline⟩
            rcases runs_connect hnext with ⟨_, hfile, text, rfl⟩ | ⟨e, hfile, rfl⟩ |
              ⟨key, path, before, outcome, after, hfile, rfl, hunlink, rfl⟩
            · exact Or.inl ⟨fun _ => hfile.keyUsable_iff.mpr (by simp), _, rfl⟩
            · exact Or.inr ⟨fun husable => hfile.keyUsable_iff.mp (husable hconnects) e rfl, e.error, rfl⟩
            · refine Or.inl ⟨fun _ ht => ?_, _, rfl⟩
              -- neither `ssh` nor the removal of the file spoils the reference
              rcases hfile.keyUsable_iff.mpr (by simp) ht with ⟨s, hs, hbefore⟩
              refine ⟨s, hs, fun p f href m hm => ?_⟩
              rcases List.mem_append.mp hm with hm | hm
              · exact hbefore p f href m hm
              · rcases List.mem_cons.mp hm with rfl | hm
                · exact id
                · rcases calls_unlinkAll hunlink m hm with ⟨tmp, removed, rfl⟩
                  exact id

/-! ## When it returns -/

theorem outcome_executeAction {r : Py (Option ExecResult)}
    (h : Prog.Runs (executeAction O action controller params dryRun) asked r) :
    (r = .ok none ∧ rendering O action controller params = .ok () ∧
      ¬ Connects O action controller params dryRun) ∨
    ∃ r', r = r'.map some ∧ Outcome (rendering O action controller params)
      (Connects O action controller params dryRun → KeyUsable (field (py "ssh_key") controller) asked)
      r' := by
  unfold executeAction at h
  unfold rendering
  cases hkube : isKubeapi controller with
  | true =>
    simp only [hkube, if_true, Prog.runs_bind_iff, Prog.runs_pure_iff] at h
    rcases h with ⟨r', before, _, rfl, hrun, rfl, rfl⟩
    have hnot : ¬ Connects O action controller params dryRun := by
      intro hconnects
      exact absurd hconnects.1 (by simp [hkube])
    refine Or.inr ⟨r', rfl, ?_⟩
    simpa [hnot] using outcome_runKubeAction hrun
  | false =>
    simp only [hkube, Bool.false_eq_true, if_false] at h ⊢
    -- only a remote controller connects, so the key matters in that branch alone
    cases hlocal : isLocalController controller with
    | false =>
      simp only [hlocal, Bool.not_false, if_true, Prog.runs_bind_iff, Prog.runs_pure_iff] at h ⊢
      rcases h with ⟨r', before, _, rfl, hrun, rfl, rfl⟩
      rw [List.append_nil]
      exact Or.inr ⟨r', rfl, outcome_runRemote hrun hkube hlocal⟩
    | true =>
      simp only [hlocal, Bool.not_true, Bool.false_eq_true, if_false] at h ⊢
      have hnot : ¬ Connects O action controller params dryRun := by
        intro hconnects
        exact absurd hconnects.2.1 (by simp [hlocal])
      rcases hexec : localExecutable action with _ | path | path | template
      -- an action without anything to run
      · rw [hexec] at h
        rcases Prog.runs_pure_iff.mp h with ⟨-, rfl⟩
        exact Or.inl ⟨rfl, rfl, hnot⟩
      all_goals
        simp only [hexec, Prog.runs_bind_iff, Prog.runs_pure_iff] at h
        rcases h with ⟨r', before, _, rfl, hrun, rfl, rfl⟩
        refine Or.inr ⟨r', rfl, ?_⟩
      · exact Or.inl ⟨fun hconnects => absurd hconnects hnot, exists_result hrun⟩
      · exact Or.inl ⟨fun hconnects => absurd hconnects hnot, exists_result hrun⟩
      · simpa [hnot] using outcome_runCommand hrun

/-- The function returns, and with a failure where a rendering failed, exactly when the rendering
raises nothing else than a `KeyError` or an `IndexError`, and the key of a connection is usable. -/
theorem executeAction_returns_iff {r : Py (Option ExecResult)}
    (h : Prog.Runs (executeAction O action controller params dryRun) asked r) :
    ((∃ result, r = .ok result) ∧
      ∀ e, rendering O action controller params = .error e → ∃ text, r = .ok (some (failed text))) ↔
    (∀ e, rendering O action controller params ≠ .error (.raised e)) ∧
      (Connects O action controller params dryRun →
        KeyUsable (field (py "ssh_key") controller) asked) := by
  rcases outcome_executeAction h with ⟨rfl, hrendering, hnot⟩ | ⟨r', rfl, houtcome⟩
  · rw [hrendering]
    exact iff_of_true ⟨⟨_, rfl⟩, by simp⟩ ⟨by simp, fun hconnects => absurd hconnects hnot⟩
  · rw [← houtcome.returns_iff]
    cases r' with
    | ok result => simp [Except.map]
    | error e => simp [Except.map]

/-- A controller on this host, and an action that is a command. -/
def thisHost : Dict NanFloat := [(.str (py "type"), .str (py "local"))]

def commandAction (command : String) : ActionConfig NanFloat where
  defaultController := none
  parameters := none
  cooldownSeconds := none
  cooldownKeyParam := none
  severity := none
  playbook := none
  script := none
  command := some (py command)
  kubeAction := none
  others := []

/-- A command with a parameter, run. -/
theorem executeAction_returns_iff_example :
    (∃ result, (.ok (some ⟨true, py "ok", [], 0, none⟩) : Py (Option ExecResult)) = .ok result) ∧
      ∀ e, rendering (PyVal NanFloat) (commandAction "echo \x7bword\x7d") thisHost
          [(.str (py "word"), .str (py "hi"))] = .error e →
        ∃ text, (.ok (some ⟨true, py "ok", [], 0, none⟩) : Py (Option ExecResult)) =
          .ok (some (failed text)) := by
  have hruns : Prog.Runs (executeAction (PyVal NanFloat) (commandAction "echo \x7bword\x7d") thisHost
      [(.str (py "word"), .str (py "hi"))] none)
      [⟨.process [py "echo", py "hi"], Process.finished 0 (py "ok") []⟩]
      (.ok (some ⟨true, py "ok", [], 0, none⟩)) := by
    show Prog.Runs (.ask (Call.process [py "echo", py "hi"]) _) _ _
    exact Prog.runs_ask_iff.mpr ⟨Process.finished 0 (py "ok") [], [], rfl, .done _⟩
  have hrendering : rendering (PyVal NanFloat) (commandAction "echo \x7bword\x7d") thisHost
      [(.str (py "word"), .str (py "hi"))] = .ok () := rfl
  refine (executeAction_returns_iff hruns).mpr ⟨?_, ?_⟩
  · intro e he
    rw [hrendering] at he
    cases he
  · intro hconnects
    exact absurd hconnects.2.1 (by decide)

/-- A command with a brace that is not closed is a `ValueError`. -/
theorem executeAction_raises :
    Prog.Runs (executeAction (PyVal NanFloat) (commandAction "echo \x7bword") thisHost
      [(.str (py "word"), .str (py "hi"))] none) [] (.error .valueError) := .done _

/-! ## What is run where -/

/-- The controller is this host. -/
def isThisHost (controller : Dict F) : Bool := !isKubeapi controller && isLocalController controller

/-- The function returns `None` for an action without an executable on this host, and only then. -/
theorem executeAction_none_iff {r : Py (Option ExecResult)}
    (h : Prog.Runs (executeAction O action controller params dryRun) asked r) :
    r = .ok none ↔ isThisHost controller = true ∧ localExecutable action = none := by
  have hsome : ∀ r' : Py ExecResult, r'.map some ≠ .ok none := by
    intro r'
    cases r' <;> simp [Except.map]
  unfold executeAction at h
  unfold isThisHost
  cases hkube : isKubeapi controller with
  | true =>
    simp only [hkube, if_true, Prog.runs_bind_iff, Prog.runs_pure_iff] at h
    rcases h with ⟨r', _, _, -, -, -, rfl⟩
    simp [hsome r']
  | false =>
    cases hlocal : isLocalController controller with
    | false =>
      simp only [hkube, hlocal, Bool.false_eq_true, if_false, Bool.not_false, if_true,
        Prog.runs_bind_iff, Prog.runs_pure_iff] at h
      rcases h with ⟨r', _, _, -, -, -, rfl⟩
      simp [hsome r']
    -- the other two branches always wrap what they got
    | true =>
      simp only [hkube, hlocal, Bool.false_eq_true, if_false, Bool.not_true] at h
      cases hexec : localExecutable action with
      | none =>
        rw [hexec] at h
        rcases Prog.runs_pure_iff.mp h with ⟨-, rfl⟩
        simp
      | some executable =>
        simp only [hexec, Prog.runs_bind_iff, Prog.runs_pure_iff] at h
        rcases h with ⟨r', _, _, -, -, -, rfl⟩
        simp [hsome r']

omit [PyRuntime F] in
theorem localExecutable_eq_none_iff : localExecutable action = none ↔
    action.playbook = none ∧ action.script = none ∧ action.command = none := by
  unfold localExecutable
  rcases action.playbook with _ | path
  · rcases action.script with _ | path
    · rcases action.command with _ | template
      · simp
      · simp
    · simp
  · simp

/-- On another host an action with nothing defined is a failure. -/
theorem executeAction_failed {r : Py (Option ExecResult)}
    (h : Prog.Runs (executeAction O action controller params dryRun) asked r)
    (hhost : isThisHost controller = false) (hlocal : localExecutable action = none)
    (hkube : action.kubeAction = none) : ∃ error, r = .ok (some (failed error)) := by
  rcases localExecutable_eq_none_iff.mp hlocal with ⟨hplaybook, hscript, hcommand⟩
  unfold executeAction at h
  unfold isThisHost at hhost
  by_cases hkubeapi : isKubeapi controller = true
  · have hverb : knownVerb action = none := by
      unfold knownVerb
      rw [hkube]
      rfl
    rw [if_pos hkubeapi] at h
    unfold runKubeAction at h
    rw [hverb] at h
    exact ⟨_, (Prog.runs_pure_iff.mp h).2⟩
  · have hremote : isLocalController controller = false := by
      simpa [hkubeapi] using hhost
    have hline : buildRemoteCommand O action params = .ok none := by
      unfold buildRemoteCommand remoteExecutable
      rw [hplaybook, hscript, hcommand]
    rw [if_neg hkubeapi, hremote, Bool.not_false, if_pos rfl] at h
    -- the three guards of a connection each give a failed result
    rcases Prog.runs_bind_iff.mp h with ⟨r', before, after, rfl, hrun, hafter⟩
    rw [(Prog.runs_pure_iff.mp hafter).2]
    unfold runRemote at hrun
    split at hrun
    · exact ⟨_, by rw [(Prog.runs_pure_iff.mp hrun).2]; rfl⟩
    · split at hrun
      · exact ⟨_, by rw [(Prog.runs_pure_iff.mp hrun).2]; rfl⟩
      · rw [hline] at hrun
        exact ⟨_, by rw [(Prog.runs_pure_iff.mp hrun).2]; rfl⟩

/-- An action that has a command or a playbook or script, but not both, runs the same on this host
and on a controller. `None` is returned on this host only, for an action without playbook, script
and command; elsewhere an action with nothing defined is a failure. -/
theorem executables_agree (action : ActionConfig F) (params : Dict F) :
    (action.command = none ∨ action.playbook = none ∧ action.script = none →
      localExecutable action = remoteExecutable action) ∧
    ∀ controller dryRun asked r,
      Prog.Runs (executeAction O action controller params dryRun) asked r →
      (r = .ok none ↔ isThisHost controller = true ∧ action.playbook = none ∧ action.script = none ∧
        action.command = none) ∧
      (isThisHost controller = false → action.playbook = none → action.script = none →
        action.command = none → action.kubeAction = none → ∃ error, r = .ok (some (failed error))) := by
  constructor
  -- the two orders differ only in where the command stands
  · intro hone
    unfold localExecutable remoteExecutable
    rcases hone with hcommand | ⟨hplaybook, hscript⟩
    · rw [hcommand]
      rcases action.playbook with _ | path
      · rcases action.script with _ | path
        · rfl
        · rfl
      · rfl
    · rw [hplaybook, hscript]
      rcases action.command with _ | template
      · rfl
      · rfl
  · intro controller dryRun asked r hruns
    refine ⟨?_, fun hhost hplaybook hscript hcommand hkube => ?_⟩
    · rw [executeAction_none_iff hruns, localExecutable_eq_none_iff]
    · exact executeAction_failed hruns hhost
        (localExecutable_eq_none_iff.mpr ⟨hplaybook, hscript, hcommand⟩) hkube

/-- An action without an executable. -/
def emptyAction : ActionConfig NanFloat := { commandAction "" with command := none }

/-- A controller that is reached over SSH, and one for `kube_action`. -/
def sshHost : Dict NanFloat :=
  [(.str (py "type"), .str (py "ansible")), (.str (py "host"), .str (py "10.0.0.1")),
    (.str (py "ssh_user"), .str (py "ops"))]

def kubeHost : Dict NanFloat := [(.str (py "type"), .str (py "kubeapi"))]

/-- A command is the same executable everywhere, and an action without an executable is `None` here
and a failure over SSH. -/
theorem executables_agree_example :
    localExecutable (commandAction "df") = remoteExecutable (commandAction "df") ∧
      isThisHost thisHost = true ∧
      Prog.Runs (executeAction (PyVal NanFloat) emptyAction thisHost [] none) [] (.ok none) ∧
      ∃ r error, Prog.Runs (executeAction (PyVal NanFloat) emptyAction sshHost [] none) [] r ∧
        r = .ok (some (failed error)) := by
  have hhere : Prog.Runs (executeAction (PyVal NanFloat) emptyAction thisHost [] none) []
      (.ok none) := .done _
  have hthere : Prog.Runs (executeAction (PyVal NanFloat) emptyAction sshHost [] none) []
      (.ok (some (failed (py "No playbook, script, or command defined for action.")))) := .done _
  have hhost := ((executables_agree emptyAction []).2 thisHost none [] _ hhere).1.mp rfl
  rcases ((executables_agree emptyAction []).2 sshHost none [] _ hthere).2 rfl rfl rfl rfl rfl with
    ⟨error, herror⟩
  exact ⟨(executables_agree (O := PyVal NanFloat) (commandAction "df") []).1 (Or.inr ⟨rfl, rfl⟩),
    hhost.1, hhere, _, error, hthere, herror⟩

/-- An action with a command and a playbook runs the one on a controller and the other here. An
action without an executable is a failure on a controller, and one that has only a `kube_action`
is `None` here. -/
theorem executables_differ :
    localExecutable { commandAction "df" with playbook := some (py "a.yml") } =
        some (.playbook (py "a.yml")) ∧
      remoteExecutable { commandAction "df" with playbook := some (py "a.yml") } =
        some (.command (py "df")) ∧
      Prog.Runs (executeAction (PyVal NanFloat) emptyAction sshHost [] none) []
        (.ok (some (failed (py "No playbook, script, or command defined for action.")))) ∧
      Prog.Runs (executeAction (PyVal NanFloat) emptyAction kubeHost [] none) []
        (.ok (some (failed (py "Unknown kube_action 'None'")))) ∧
      Prog.Runs (executeAction (PyVal NanFloat)
        { emptyAction with kubeAction := some (py "delete_pod") } thisHost [] none) [] (.ok none) :=
  ⟨rfl, rfl, .done _, .done _, .done _⟩

end AutoHeal.Exec
