import AutoHeal.Exec.Dispatch

/-!
# The words of a line

The line that `_build_remote_command` makes of a playbook or a script has the words that are run on
this host, or the JSON text of the parameters: `remoteLine_words`.
-/

namespace AutoHeal.Exec

open Server

variable {F : Type} [PyRuntime F]

/-- The words of a line that calls a playbook with an argument. -/
def playbookWords (path : Str) : Option Str → List Str
  | none => [py "ansible-playbook", path]
  | some text => [py "ansible-playbook", path, py "--extra-vars", text]

/-- The words of a line that calls a script. -/
def scriptWords (path : Str) (params : Dict F) : List Str := path :: params.map fun kv => pyStr kv.2

/-- The names that stand in a line are words as they are. -/
theorem shlexQuote_names : shlexQuote (py "ansible-playbook") = py "ansible-playbook" ∧
    shlexQuote (py "--extra-vars") = py "--extra-vars" := by decide

variable (O : Type) [PyObjects F O] {path : Str} {params : Dict F}

/-- A playbook without parameters. -/
theorem splits_playbook_nil : ∃ line, remoteLine O ([] : Dict F) (.playbook path) = .ok line ∧
    shlexSplit line = .ok (playbookWords path none) := by
  refine ⟨_, rfl, ?_⟩
  have hwords := shlexSplit_unwords (playbookWords path none)
  unfold playbookWords at hwords ⊢
  simp only [List.map_cons, List.map_nil, shlexQuote_names] at hwords
  exact hwords

/-- A playbook with parameters. -/
theorem splits_playbook (hparams : params ≠ []) {text : Str}
    (htext : dumps (.dict params) = .ok text) :
    ∃ line, remoteLine O params (.playbook path) = .ok line ∧
      shlexSplit line = .ok (playbookWords path (some text)) := by
  have hempty : params.isEmpty = false := by
    cases params with
    | nil => exact absurd rfl hparams
    | cons => rfl
  unfold remoteLine
  simp only [hempty, Bool.false_eq_true, if_false, htext]
  refine ⟨_, rfl, ?_⟩
  have hwords := shlexSplit_unwords (playbookWords path (some text))
  unfold playbookWords at hwords ⊢
  simp only [List.map_cons, List.map_nil, shlexQuote_names] at hwords
  exact hwords

/-- A script. -/
theorem splits_script : ∃ line, remoteLine O params (.script path) = .ok line ∧
    shlexSplit line = .ok (scriptWords path params) := by
  refine ⟨_, rfl, ?_⟩
  have hwords := shlexSplit_unwords (scriptWords path params)
  unfold scriptWords at hwords ⊢
  rw [List.map_cons, List.map_map] at hwords
  exact hwords

variable {action : ActionConfig F}

theorem buildRemoteCommand_of {executable : Executable} (h : remoteExecutable action = some executable)
    {line : Str} (hline : remoteLine O params executable = .ok line) :
    buildRemoteCommand O action params = .ok (some line) := by
  unfold buildRemoteCommand
  simp only [h, hline]
  rfl

omit [PyRuntime F] in
/-- A script that is run on a controller is run on this host as well. -/
theorem localExecutable_script (h : remoteExecutable action = some (.script path)) :
    localExecutable action = some (.script path) := by
  unfold remoteExecutable at h
  unfold localExecutable
  rcases hcommand : action.command with _ | template
  · rcases hplaybook : action.playbook with _ | playbook
    · rcases hscript : action.script with _ | script
      · simp [hcommand, hplaybook, hscript] at h
      · simpa [hcommand, hplaybook, hscript] using h
    · simp [hcommand, hplaybook] at h
  · simp [hcommand] at h

/-- The process of a script on this host. -/
theorem runs_runLocal_script {dryRun : Option Bool} (hset : isSet dryRun = false)
    {asked : List (Made F)} {r : Py ExecResult}
    (h : Prog.Runs (runLocal O params dryRun (.script path)) asked r) :
    ∃ outcome, asked = [⟨.process (scriptWords path params), outcome⟩] := by
  unfold runLocal at h
  rcases Prog.runs_bind_iff.mp h with ⟨result, before, after, rfl, hrun, hlast⟩
  rcases Prog.runs_pure_iff.mp hlast with ⟨rfl, -⟩
  rw [List.append_nil]
  have hargs : (if params.isEmpty then none else some (params.map fun kv => pyStr kv.2)).getD [] =
      params.map fun kv => pyStr kv.2 := by
    cases params with
    | nil => rfl
    | cons => rfl
  unfold runScript at hrun
  simp only [hset, Bool.false_eq_true, if_false, hargs] at hrun
  exact runs_runProcess hrun

/-- The process of a script action on this host. -/
theorem runs_executeAction_script (h : remoteExecutable action = some (.script path))
    {controller : Dict F} (hkube : isKubeapi controller = false)
    (hlocal : isLocalController controller = true) {dryRun : Option Bool}
    (hset : isSet dryRun = false) {asked : List (Made F)} {r : Py (Option ExecResult)}
    (hruns : Prog.Runs (executeAction O action controller params dryRun) asked r) :
    ∃ outcome, asked = [⟨.process (scriptWords path params), outcome⟩] := by
  unfold executeAction at hruns
  simp only [hkube, hlocal, Bool.not_true, Bool.false_eq_true, if_false,
    localExecutable_script h] at hruns
  rcases Prog.runs_bind_iff.mp hruns with ⟨result, before, after, rfl, hrun, hlast⟩
  rcases Prog.runs_pure_iff.mp hlast with ⟨rfl, -⟩
  rw [List.append_nil]
  exact runs_runLocal_script O hset hrun

/-- The words of a line are those of its playbook and the JSON text of the parameters, which reads
back, or those that a script is run with on this host. -/
theorem remoteLine_words (hparams : JsonValue (.dict params)) :
    (remoteExecutable action = some (.playbook path) →
      ∃ line, buildRemoteCommand O action params = .ok (some line) ∧
        if params = [] then shlexSplit line = .ok [py "ansible-playbook", path]
        else ∃ text, dumps (.dict params) = .ok text ∧ loads text = some (.dict params) ∧
          shlexSplit line = .ok [py "ansible-playbook", path, py "--extra-vars", text]) ∧
    (remoteExecutable action = some (.script path) →
      ∃ line argv, buildRemoteCommand O action params = .ok (some line) ∧
        shlexSplit line = .ok argv ∧ argv = path :: params.map (fun kv => pyStr kv.2) ∧
        ∀ controller dryRun asked r, isKubeapi controller = false →
          isLocalController controller = true → isSet dryRun = false →
          Prog.Runs (executeAction O action controller params dryRun) asked r →
          ∃ outcome, asked = [⟨.process argv, outcome⟩]) := by
  constructor
  · intro haction
    by_cases hempty : params = []
    · subst hempty
      rcases @splits_playbook_nil F _ O _ path with ⟨line, hline, hwords⟩
      refine ⟨line, buildRemoteCommand_of O haction hline, ?_⟩
      rw [if_pos rfl]
      exact hwords
    · have htext := dumps_of_jsonValue hparams
      rcases @splits_playbook F _ O _ path _ hempty _ htext with ⟨line, hline, hwords⟩
      refine ⟨line, buildRemoteCommand_of O haction hline, ?_⟩
      rw [if_neg hempty]
      exact ⟨_, htext, loads_print hparams .spaced, hwords⟩
  · intro haction
    rcases @splits_script F _ O _ path params with ⟨line, hline, hwords⟩
    refine ⟨line, scriptWords path params, buildRemoteCommand_of O haction hline, hwords, rfl, ?_⟩
    intro controller dryRun asked r hkube hlocal hset hruns
    exact runs_executeAction_script O haction hkube hlocal hset hruns

/-- A script. -/
def scriptAction (path : Str) : ActionConfig NanFloat where
  defaultController := none
  parameters := none
  cooldownSeconds := none
  cooldownKeyParam := none
  severity := none
  playbook := none
  script := some path
  command := none
  kubeAction := none
  others := []

/-- A script with a value that has a quote, a line break and a substitution in it. -/
theorem remoteLine_words_example : ∃ line,
    buildRemoteCommand (PyVal NanFloat) (scriptAction (py "scripts/fix.sh"))
      [(.str (py "x"), .str (py "it's\n$(id)"))] = .ok (some line) ∧
    shlexSplit line = .ok [py "scripts/fix.sh", py "it's\n$(id)"] := by
  have hparams : JsonValue (.dict [(.str (py "x"), .str (py "it's\n$(id)"))] : PyVal NanFloat) := by
    refine .dict (List.nodup_singleton _) ?_ ?_
    · intro kv hkv
      rw [List.mem_singleton.mp hkv]
      exact ⟨_, rfl, by decide⟩
    · intro kv hkv
      rw [List.mem_singleton.mp hkv]
      exact .str (by decide)
  have haction : remoteExecutable (scriptAction (py "scripts/fix.sh")) =
      some (.script (py "scripts/fix.sh")) := rfl
  rcases (remoteLine_words (PyVal NanFloat) hparams).2 haction with
    ⟨line, argv, hline, hargv, rfl, -⟩
  exact ⟨line, hline, hargv⟩

end AutoHeal.Exec
