import AutoHeal.Outside.Vault
import AutoHeal.Python.Format
import AutoHeal.Python.Shlex
import AutoHeal.Server.Actions

/-!
# Execution on this host

`run_playbook`, `run_script` and `run_command` of `src/executor.py`.
-/

namespace AutoHeal.Exec

open Server

variable {F : Type}

/-! ## Results -/

/-- `ActionExecutionResult(False, "", "", 1, error)`. -/
def failed (error : Str) : ExecResult := ⟨false, [], [], 1, some error⟩

/-- What a dry run reports. -/
def dryRunResult (msg : Str) : ExecResult := ⟨true, msg, [], 0, none⟩

/-- `subprocess.run`, a process that succeeds being one that returns 0. -/
def runProcess (argv : List Str) : Effect F ExecResult := do
  match ← Prog.call (Call.process argv : Call F) with
  | Process.finished returncode stdout stderr =>
    return ⟨decide (returncode = 0), stdout, stderr, returncode, none⟩
  | Process.timeoutExpired text => return failed text
  | Process.raised text => return failed text

theorem runs_runProcess {argv : List Str} {asked : List (Made F)} {r : ExecResult}
    (h : Prog.Runs (runProcess argv) asked r) : ∃ outcome, asked = [⟨.process argv, outcome⟩] := by
  rcases Prog.runs_bind_iff.mp h with ⟨outcome, before, after, rfl, hcall, hlast⟩
  rcases Prog.runs_call_iff.mp hcall with rfl
  refine ⟨outcome, ?_⟩
  rcases outcome with _ | _ | _
  all_goals
    rcases Prog.runs_pure_iff.mp hlast with ⟨rfl, -⟩
    rfl

theorem exists_runs_runProcess (argv : List Str) :
    ∃ (asked : List (Made F)) (r : ExecResult), Prog.Runs (runProcess argv) asked r :=
  ⟨_, failed [], Prog.runs_bind_iff.mpr
    ⟨Process.raised [], _, [], rfl, Prog.runs_call_iff.mpr rfl, .done _⟩⟩

/-! ## Templates -/

/-- `**kwargs`, with values made of those of a dict. -/
def keywords {O : Type} (value : PyVal F → O) : Dict F → Except FormatError (List (Str × O))
  | [] => .ok []
  | (.str name, v) :: items => (keywords value items).map ((name, value v) :: ·)
  | _ :: _ => .error (.raised .typeError)

variable [PyRuntime F]

/-- `str(key)`. -/
def keyStr (key : Key F) : Str :=
  match key with
  | .str s => s
  | .int n => intText n
  | .float x => pyStr (.float x : PyVal F)
  | .bool b => pyStr (.bool b : PyVal F)
  | .none => py "None"
  | .other text => text

variable (O : Type) [PyObjects F O]

/-- `template.format(**params)`, with values changed. -/
def formatWith (value : PyVal F → PyVal F) (template : Str) (params : Dict F) :
    Except FormatError Str :=
  (keywords (fun v => (PyObjects.ofVal (value v) : O)) params).bind fun kwargs =>
    strDotFormat F kwargs template

/-- `" ".join(words)`. -/
def unwords (words : List Str) : Str := List.intercalate [32] words

/-- What a `KeyError` or an `IndexError` of a template is answered. -/
def missingParameter (text place : Str) : ExecResult :=
  failed (py "Missing parameter " ++ text ++ py " for " ++ place)

/-- `try` around a rendering, `except (KeyError, IndexError)`. -/
def withRendered {α : Type} (rendered : Except FormatError α) (place : Str)
    (next : α → Effect F (Py ExecResult)) : Effect F (Py ExecResult) :=
  match rendered with
  | .error (.keyError text) | .error (.indexError text) => pure (.ok (missingParameter text place))
  | .error (.raised e) => pure (.error e)
  | .ok a => next a

omit [PyRuntime F] in
theorem runs_withRendered {α : Type} {rendered : Except FormatError α} {place : Str}
    {next : α → Effect F (Py ExecResult)} {asked : List (Made F)} {r : Py ExecResult}
    (h : Prog.Runs (withRendered rendered place next) asked r) :
    (asked = [] ∧ ∀ a, rendered ≠ .ok a) ∨ ∃ a, rendered = .ok a ∧ Prog.Runs (next a) asked r := by
  unfold withRendered at h
  rcases rendered with (text | text | e) | a
  · exact Or.inl ⟨(Prog.runs_pure_iff.mp h).1, by simp⟩
  · exact Or.inl ⟨(Prog.runs_pure_iff.mp h).1, by simp⟩
  · exact Or.inl ⟨(Prog.runs_pure_iff.mp h).1, by simp⟩
  · exact Or.inr ⟨a, rfl, h⟩

/-! ## The methods -/

/-- `run_playbook`. -/
def runPlaybook (playbookPath : Str) (extraVars : Dict F) (dryRun : Option Bool) :
    Effect F ExecResult :=
  if isSet dryRun then
    pure (dryRunResult (py "[DRY-RUN] Would execute playbook: " ++ playbookPath ++
      py " with vars: " ++ pyStr (.dict extraVars)))
  else
    let extra : List Str :=
      if extraVars.isEmpty then []
      else [py "--extra-vars",
        unwords (extraVars.map fun kv => keyStr kv.1 ++ py "='" ++ pyStr kv.2 ++ py "'")]
    runProcess ([py "ansible-playbook", playbookPath] ++ extra)

/-- `run_script`. -/
def runScript (scriptPath : Str) (args : Option (List Str)) (dryRun : Option Bool) :
    Effect F ExecResult :=
  if isSet dryRun then
    let shown : PyVal F :=
      match args with
      | some args => .list (args.map .str)
      | none => .none
    pure (dryRunResult (py "[DRY-RUN] Would execute script: " ++ scriptPath ++
      py " with args: " ++ pyStr shown))
  else runProcess (scriptPath :: args.getD [])

/-- A rendered command, split and run. -/
def spawn (rendered : Str) : Effect F ExecResult :=
  match shlexSplit rendered with
  | .error text => pure (failed text)
  | .ok argv => runProcess argv

/-- `command_template.format(**{k: str(v) for k, v in params.items()})`. -/
def renderCommand (template : Str) (params : Dict F) : Except FormatError Str :=
  formatWith O (fun v => .str (pyStr v)) template params

/-- `run_command`. -/
def runCommand (commandTemplate : Str) (params : Dict F) (dryRun : Option Bool) :
    Effect F (Py ExecResult) :=
  withRendered (renderCommand O commandTemplate params) (py "command template") fun rendered =>
    if isSet dryRun then
      pure (.ok (dryRunResult (py "[DRY-RUN] Would run command: " ++ rendered)))
    else do return .ok (← spawn rendered)

end AutoHeal.Exec
