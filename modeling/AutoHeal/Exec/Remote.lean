import AutoHeal.Exec.Local

/-!
# Execution on a controller

`_build_remote_command`, `_resolve_secret_file` and `run_remote` of `src/executor.py`.
-/

namespace AutoHeal.Exec

open Server

variable {F : Type}

/-! ## The command line -/

/-- What an action runs. -/
inductive Executable where
  | playbook (path : Str)
  | script (path : Str)
  | command (template : Str)
  deriving DecidableEq

/-- What `_build_remote_command` runs of an action. -/
def remoteExecutable (action : ActionConfig F) : Option Executable :=
  match action.command, action.playbook, action.script with
  | some template, _, _ => some (.command template)
  | none, some path, _ => some (.playbook path)
  | none, none, some path => some (.script path)
  | none, none, none => none

variable [PyRuntime F] (O : Type) [PyObjects F O]

/-- The line for the shell of the controller. -/
def remoteLine (params : Dict F) : Executable → Except FormatError Str
  | .command template => formatWith O (fun v => .str (shlexQuote (pyStr v))) template params
  | .playbook path =>
    if params.isEmpty then .ok (unwords [py "ansible-playbook", shlexQuote path])
    else
      match dumps (.dict params) with
      | .ok text =>
        .ok (unwords [py "ansible-playbook", shlexQuote path, py "--extra-vars", shlexQuote text])
      | .error e => .error (.raised e)
  | .script path =>
    .ok (unwords (shlexQuote path :: params.map fun kv => shlexQuote (pyStr kv.2)))

/-- `_build_remote_command`. -/
def buildRemoteCommand (action : ActionConfig F) (params : Dict F) :
    Except FormatError (Option Str) :=
  match remoteExecutable action with
  | none => .ok none
  | some executable => (remoteLine O params executable).map some

/-! ## Secrets in files -/

/-- The secret, written to the file. A value that is no string is not written. -/
def writeFile (path : TempPath) (secret : PyVal F) : Effect F (Except Raised Unit) :=
  match secret with
  | .str text => Prog.call (Call.writeSecret path text : Call F)
  | v => pure (.error ⟨.typeError, py "write() argument must be str, not " ++ typeName v⟩)

/-- `_resolve_secret_file`: the path to use, and the file to delete afterwards. -/
def resolveSecretFile (value : PyVal F) (defaultField : Str) :
    Effect F (Except SecretError (PyVal F × Option TempPath)) :=
  if truthy value then
    match value with
    | .str s =>
      match dropStart (py "vault:") s with
      | none => pure (.ok (value, none))
      | some _ => do
        match ← resolveVaultRef value (some defaultField) with
        | Except.error e => return .error e
        | Except.ok secret =>
          match ← Prog.call (Call.mkstemp : Call F) with
          | Except.error e => return .error (.raised e)
          | Except.ok path =>
            match ← writeFile path secret with
            | Except.ok () => return .ok (.str path.val, some path)
            | Except.error e =>
              let _ ← Prog.call (Call.unlink path : Call F)
              return .error (.raised e)
    | v => pure (.error (.raised ⟨.attributeError, py "'" ++ typeName v ++
        py "' object has no attribute 'startswith'"⟩))
  else pure (.ok (value, none))

/-- What `_resolve_secret_file` can do. A reference leaves one file when it succeeds, and none
otherwise. -/
inductive SecretFile (defaultField : Str) :
    PyVal F → List (Made F) → Except SecretError (PyVal F × Option TempPath) → Prop
  | plain {v : PyVal F} (h : truthy v = true → ∃ s, v = .str s ∧ dropStart (py "vault:") s = none) :
    SecretFile defaultField v [] (.ok (v, none))
  | notText {v : PyVal F} (ht : truthy v = true) (h : ∀ s, v ≠ .str s) (text : Str) :
    SecretFile defaultField v [] (.error (.raised ⟨.attributeError, text⟩))
  | noField {s path : Str} (h : vaultReference s (some defaultField) = some (path, [])) (text : Str) :
    SecretFile defaultField (.str s) [] (.error (.unavailable text))
  | noSecret {s path field : Str} (h : vaultReference s (some defaultField) = some (path, field))
      (e : SecretError) :
    SecretFile defaultField (.str s) [⟨.getSecret path, Except.error e⟩] (.error e)
  | badSecret {s path field : Str} (h : vaultReference s (some defaultField) = some (path, field))
      {secret : PyVal F} {e : SecretError} (he : secretField path field secret = .error e) :
    SecretFile defaultField (.str s) [⟨.getSecret path, Except.ok secret⟩] (.error e)
  | noFile {s path field : Str} (h : vaultReference s (some defaultField) = some (path, field))
      {secret v : PyVal F} (hv : secretField path field secret = .ok v) (e : Raised) :
    SecretFile defaultField (.str s)
      [⟨.getSecret path, Except.ok secret⟩, ⟨.mkstemp, Except.error e⟩] (.error (.raised e))
  | notWritable {s path field : Str} (h : vaultReference s (some defaultField) = some (path, field))
      {secret v : PyVal F} (hv : secretField path field secret = .ok v) (ht : ∀ t, v ≠ .str t)
      (tmp : TempPath) (e : Raised) (removed : Bool) :
    SecretFile defaultField (.str s)
      [⟨.getSecret path, Except.ok secret⟩, ⟨.mkstemp, Except.ok tmp⟩, ⟨.unlink tmp, removed⟩]
      (.error (.raised e))
  | notWritten {s path field : Str} (h : vaultReference s (some defaultField) = some (path, field))
      {secret : PyVal F} {text : Str} (hv : secretField path field secret = .ok (.str text))
      (tmp : TempPath) (e : Raised) (removed : Bool) :
    SecretFile defaultField (.str s)
      [⟨.getSecret path, Except.ok secret⟩, ⟨.mkstemp, Except.ok tmp⟩,
        ⟨.writeSecret tmp text, Except.error e⟩, ⟨.unlink tmp, removed⟩]
      (.error (.raised e))
  | written {s path field : Str} (h : vaultReference s (some defaultField) = some (path, field))
      {secret : PyVal F} {text : Str} (hv : secretField path field secret = .ok (.str text))
      (tmp : TempPath) :
    SecretFile defaultField (.str s)
      [⟨.getSecret path, Except.ok secret⟩, ⟨.mkstemp, Except.ok tmp⟩,
        ⟨.writeSecret tmp text, Except.ok ()⟩]
      (.ok (.str tmp.val, some tmp))

theorem runs_resolveSecretFile {v : PyVal F} {defaultField : Str} {asked : List (Made F)}
    {r : Except SecretError (PyVal F × Option TempPath)}
    (h : Prog.Runs (resolveSecretFile v defaultField) asked r) : SecretFile defaultField v asked r := by
  unfold resolveSecretFile at h
  by_cases ht : truthy v = true
  · simp only [ht, if_true] at h
    cases v with
    | str s =>
      cases hvault : dropStart (py "vault:") s with
      | none =>
        simp only [hvault, Prog.runs_pure_iff] at h
        rcases h with ⟨rfl, rfl⟩
        exact .plain fun _ => ⟨s, rfl, hvault⟩
      | some rest =>
        simp only [hvault, Prog.runs_bind_iff] at h
        rcases h with ⟨outcome, before, after, rfl, hresolve, hnext⟩
        -- the text has the prefix, so it has a path and a field
        rcases href : vaultReference s (some defaultField) with _ | ⟨path, field⟩
        · unfold vaultReference at href
          rw [hvault] at href
          cases href
        rcases runs_resolveVaultRef ht href hresolve with
          ⟨rfl, rfl, text, rfl⟩ | ⟨e, rfl, rfl⟩ | ⟨secret, rfl, rfl⟩
        · rcases Prog.runs_pure_iff.mp hnext with ⟨rfl, rfl⟩
          exact .noField href text
        · rcases Prog.runs_pure_iff.mp hnext with ⟨rfl, rfl⟩
          exact .noSecret href e
        -- the secret came; now the field, the file and the write can each fail
        · cases hv : secretField path field secret with
          | error e =>
            rw [hv] at hnext
            rcases Prog.runs_pure_iff.mp hnext with ⟨rfl, rfl⟩
            exact .badSecret href hv
          | ok v =>
            rw [hv] at hnext
            simp only [Prog.runs_bind_iff, Prog.runs_call_iff] at hnext
            rcases hnext with ⟨made, _, after, rfl, rfl, hnext⟩
            rcases made with e | tmp
            · rcases Prog.runs_pure_iff.mp hnext with ⟨rfl, rfl⟩
              exact .noFile href hv e
            · simp only [Prog.runs_bind_iff] at hnext
              rcases hnext with ⟨written, wrote, after, rfl, hwrite, hnext⟩
              cases v with
              | str text =>
                have hcall : wrote = [⟨.writeSecret tmp text, written⟩] :=
                  Prog.runs_call_iff.mp hwrite
                subst hcall
                -- a failed write deletes the file and raises again
                rcases written with e | _
                · simp only [Prog.runs_bind_iff, Prog.runs_call_iff, Prog.runs_pure_iff] at hnext
                  rcases hnext with ⟨removed, _, _, rfl, rfl, rfl, rfl⟩
                  exact .notWritten href hv tmp e removed
                · rcases Prog.runs_pure_iff.mp hnext with ⟨rfl, rfl⟩
                  exact .written href hv tmp
              -- `write` refuses what is no text, as if the write had failed
              | _ =>
                unfold writeFile at hwrite
                rcases Prog.runs_pure_iff.mp hwrite with ⟨rfl, rfl⟩
                simp only [Prog.runs_bind_iff, Prog.runs_call_iff, Prog.runs_pure_iff] at hnext
                rcases hnext with ⟨removed, _, _, rfl, rfl, rfl, rfl⟩
                exact .notWritable href hv (by intro t ht; cases ht) tmp _ removed
    | _ =>
      simp only [Prog.runs_pure_iff] at h
      rcases h with ⟨rfl, rfl⟩
      exact .notText ht (by intro s hs; cases hs) _
  · simp only [ht, Bool.false_eq_true, if_false, Prog.runs_pure_iff] at h
    rcases h with ⟨rfl, rfl⟩
    exact .plain fun hv => absurd hv ht

/-- The files are deleted, whether or not that works. -/
def unlinkAll : List TempPath → Effect F Unit
  | [] => pure ()
  | path :: paths => do
    let _ ← Prog.call (Call.unlink path : Call F)
    unlinkAll paths

omit [PyRuntime F] in
theorem calls_unlinkAll {paths : List TempPath} {asked : List (Made F)}
    (h : Prog.Runs (unlinkAll paths : Effect F Unit) asked ()) :
    ∀ m ∈ asked, ∃ path removed, m = ⟨.unlink path, removed⟩ := by
  induction paths generalizing asked with
  | nil =>
    rcases Prog.runs_pure_iff.mp h with ⟨rfl, -⟩
    intro m hm
    cases hm
  | cons path paths ih =>
    unfold unlinkAll at h
    simp only [Prog.runs_bind_iff, Prog.runs_call_iff] at h
    rcases h with ⟨removed, _, after, rfl, rfl, hafter⟩
    intro m hm
    rcases List.mem_cons.mp hm with rfl | hm
    · exact ⟨path, removed, rfl⟩
    · exact ih hafter m hm

/-! ## The method -/

/-- `SSH_CONNECTION_FAILURE_EXIT_CODE`. -/
def sshConnectionFailureExitCode : Int := 255

/-- The result of an `ssh` process. -/
def sshResult (target : Str) : Process → ExecResult
  | .finished returncode stdout stderr =>
    if returncode = sshConnectionFailureExitCode then
      let stripped := strip stderr
      let detail := if stripped = [] then py "SSH exited with code 255" else stripped
      ⟨false, stdout, stderr, returncode,
        some (py "SSH connection to " ++ target ++ py " failed: " ++ detail)⟩
    else ⟨decide (returncode = 0), stdout, stderr, returncode, none⟩
  | .timeoutExpired text => failed (py "Remote execution timed out: " ++ text)
  | .raised text => failed text

/-- The arguments of `ssh`. -/
def sshArgs (key : PyVal F) (target remoteCmd : Str) : List Str :=
  [py "ssh", py "-o", py "BatchMode=yes", py "-o", py "StrictHostKeyChecking=accept-new",
      py "-o", py "ConnectTimeout=10"] ++
    (if truthy key then [py "-i", pyStr key] else []) ++ [target, remoteCmd]

/-- A command run over `ssh`. The key is resolved first, and its file deleted at the end. -/
def connect (target : Str) (sshKey : PyVal F) (remoteCmd : Str) : Effect F (Py ExecResult) := do
  match ← resolveSecretFile sshKey (py "private_key") with
  | Except.error (.unavailable text) =>
    return .ok (failed (py "Failed to resolve SSH key from Vault: " ++ text))
  | Except.error (.raised e) => return .error e.error
  | Except.ok (key, path) =>
    let outcome ← Prog.call (Call.process (sshArgs key target remoteCmd) : Call F)
    unlinkAll path.toList
    return .ok (sshResult target outcome)

/-- What a connection can do: the key is not to be had, or `ssh` runs with it. -/
theorem runs_connect {target : Str} {sshKey : PyVal F} {remoteCmd : Str} {asked : List (Made F)}
    {r : Py ExecResult} (h : Prog.Runs (connect target sshKey remoteCmd) asked r) :
    (∃ text, SecretFile (py "private_key") sshKey asked (.error (.unavailable text)) ∧
      ∃ text, r = .ok (failed text)) ∨
    (∃ e, SecretFile (py "private_key") sshKey asked (.error (.raised e)) ∧ r = .error e.error) ∨
    ∃ key path before outcome after,
      SecretFile (py "private_key") sshKey before (.ok (key, path)) ∧
      asked = before ++ ⟨.process (sshArgs key target remoteCmd), outcome⟩ :: after ∧
      Prog.Runs (unlinkAll path.toList : Effect F Unit) after () ∧
      r = .ok (sshResult target outcome) := by
  unfold connect at h
  rw [Prog.runs_bind_iff] at h
  rcases h with ⟨resolved, before, after, rfl, hresolve, hnext⟩
  have hfile := runs_resolveSecretFile hresolve
  rcases resolved with (text | e) | ⟨key, path⟩
  · rcases Prog.runs_pure_iff.mp hnext with ⟨rfl, rfl⟩
    rw [List.append_nil]
    exact Or.inl ⟨text, hfile, _, rfl⟩
  · rcases Prog.runs_pure_iff.mp hnext with ⟨rfl, rfl⟩
    rw [List.append_nil]
    exact Or.inr (Or.inl ⟨e, hfile, rfl⟩)
  · simp only [Prog.runs_bind_iff, Prog.runs_call_iff, Prog.runs_pure_iff] at hnext
    rcases hnext with ⟨outcome, _, _, rfl, rfl, ⟨⟩, unlinked, _, rfl, hunlink, rfl, rfl⟩
    refine Or.inr (Or.inr ⟨key, path, before, outcome, unlinked, hfile, ?_, hunlink, rfl⟩)
    rw [List.append_nil]
    rfl

/-- `f"{ssh_user}@{host}"`. -/
def sshTarget (controller : Dict F) : Str :=
  pyStr (Audit.field (py "ssh_user") controller) ++ py "@" ++
    pyStr (Audit.field (py "host") controller)

/-- `run_remote`. -/
def runRemote (controller : Dict F) (action : ActionConfig F) (params : Dict F)
    (dryRun : Option Bool) : Effect F (Py ExecResult) :=
  if !truthy (Audit.field (py "host") controller) then
    pure (.ok (failed (py "Controller has no 'host' configured for remote execution.")))
  else if !truthy (Audit.field (py "ssh_user") controller) then
    pure (.ok (failed (py "Controller has no 'ssh_user' configured for remote execution.")))
  else
    withRendered (buildRemoteCommand O action params) (py "command template") fun
      | none => pure (.ok (failed (py "No playbook, script, or command defined for action.")))
      | some remoteCmd =>
        if isSet dryRun then
          pure (.ok (dryRunResult (py "[DRY-RUN] Would SSH to " ++ sshTarget controller ++
            py " and run: " ++ remoteCmd)))
        else connect (sshTarget controller) (Audit.field (py "ssh_key") controller) remoteCmd

/-- What calls anything is a connection. -/
theorem runs_runRemote {controller : Dict F} {action : ActionConfig F} {params : Dict F}
    {dryRun : Option Bool} {asked : List (Made F)} {r : Py ExecResult}
    (h : Prog.Runs (runRemote O controller action params dryRun) asked r) :
    asked = [] ∨ ∃ remoteCmd, buildRemoteCommand O action params = .ok (some remoteCmd) ∧
      isSet dryRun = false ∧
      Prog.Runs (connect (sshTarget controller) (Audit.field (py "ssh_key") controller) remoteCmd)
        asked r := by
  unfold runRemote at h
  split at h
  · exact Or.inl (Prog.runs_pure_iff.mp h).1
  · split at h
    · exact Or.inl (Prog.runs_pure_iff.mp h).1
    · rcases runs_withRendered h with ⟨rfl, -⟩ | ⟨_ | remoteCmd, hline, hnext⟩
      · exact Or.inl rfl
      · exact Or.inl (Prog.runs_pure_iff.mp hnext).1
      · cases hdry : isSet dryRun with
        | true =>
          simp only [hdry, if_true] at hnext
          exact Or.inl (Prog.runs_pure_iff.mp hnext).1
        | false =>
          simp only [hdry, Bool.false_eq_true, if_false] at hnext
          exact Or.inr ⟨remoteCmd, hline, rfl, hnext⟩

end AutoHeal.Exec
