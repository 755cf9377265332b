import AutoHeal.Exec.Dispatch

/-!
# Secrets in files are deleted

The files that `_resolve_secret_file` makes in a run of `run_remote` or `run_kube_action` are
there while `ssh` or the API is used, and gone at the end, and nothing is used when a secret
could not be resolved. A run takes hold of its files, uses them and deletes them: `Tidy` is
what this gives, and `tidy_of_parts` what it takes.
-/

namespace AutoHeal.Exec

open Server Audit

variable {F : Type}

/-! ## Files -/

/-- The files that were made. -/
def created : List (Made F) → List TempPath
  | [] => []
  | ⟨.mkstemp, answer⟩ :: asked =>
    match (answer : Except Raised TempPath) with
    | .ok path => path :: created asked
    | .error _ => created asked
  | _ :: asked => created asked

/-- The files there are after some calls, of those that were there before and those that were
made. -/
def liveAfter (live : List TempPath) : List (Made F) → List TempPath
  | [] => live
  | ⟨.mkstemp, answer⟩ :: asked =>
    match (answer : Except Raised TempPath) with
    | .ok path => liveAfter (path :: live) asked
    | .error _ => liveAfter live asked
  | ⟨.unlink path, removed⟩ :: asked =>
    match (removed : Bool) with
    | true => liveAfter (live.filter (· ≠ path)) asked
    | false => liveAfter live asked
  | _ :: asked => liveAfter live asked

/-- The call deletes a file. -/
def Removes (m : Made F) : Prop :=
  match m.call with
  | .unlink _ => True
  | _ => False

/-- Every deletion works. -/
def AllRemoved (asked : List (Made F)) : Prop :=
  ∀ path removed, ⟨.unlink path, removed⟩ ∈ asked → removed = true

/-- The call starts `ssh`, builds a client or calls the API. -/
def Uses (m : Made F) : Prop :=
  match m.call with
  | .process _ | .apiClient _ | .kube _ _ => True
  | _ => False

theorem liveAfter_append (live : List TempPath) (before after : List (Made F)) :
    liveAfter live (before ++ after) = liveAfter (liveAfter live before) after := by
  induction before generalizing live with
  | nil => rfl
  | cons m before ih =>
    rcases m with ⟨call, answer⟩
    cases call with
    | mkstemp =>
      rcases answer with e | path
      · exact ih live
      · exact ih (path :: live)
    | unlink path =>
      rcases answer with _ | _
      · exact ih live
      · exact ih (live.filter (· ≠ path))
    | _ => exact ih live

/-- Without a deletion the files that were there and those that were made are there. -/
theorem mem_liveAfter {asked : List (Made F)} (h : ∀ m ∈ asked, ¬ Removes m) {path : TempPath}
    (live : List TempPath) (hpath : path ∈ live ∨ path ∈ created asked) :
    path ∈ liveAfter live asked := by
  induction asked generalizing live with
  | nil => exact hpath.resolve_right (by simp [created])
  | cons m asked ih =>
    rcases List.forall_mem_cons.mp h with ⟨hm, hasked⟩
    rcases m with ⟨call, answer⟩
    cases call with
    | mkstemp =>
      rcases answer with e | made
      · exact ih hasked live hpath
      · refine ih hasked (made :: live) ?_
        rcases hpath with hpath | hpath
        · exact Or.inl (List.mem_cons_of_mem _ hpath)
        · rcases List.mem_cons.mp hpath with rfl | hpath
          · exact Or.inl List.mem_cons_self
          · exact Or.inr hpath
    | unlink removed => exact absurd trivial hm
    | _ => exact ih hasked live hpath

/-- What is there was there, or was made. -/
theorem mem_of_mem_liveAfter {asked : List (Made F)} {live : List TempPath} {path : TempPath}
    (h : path ∈ liveAfter live asked) : path ∈ live ∨ path ∈ created asked := by
  induction asked generalizing live with
  | nil => exact Or.inl h
  | cons m asked ih =>
    rcases m with ⟨call, answer⟩
    cases call with
    | mkstemp =>
      rcases answer with e | made
      · exact ih h
      · rcases ih h with h | h
        · rcases List.mem_cons.mp h with rfl | h
          · exact Or.inr List.mem_cons_self
          · exact Or.inl h
        · exact Or.inr (List.mem_cons_of_mem _ h)
    | unlink removed =>
      rcases answer with _ | _
      · exact ih h
      · rcases ih h with h | h
        · exact Or.inl (List.mem_of_mem_filter h)
        · exact Or.inr h
    | _ => exact ih h

/-- What is deleted is gone. -/
theorem liveAfter_unlinkAll {paths : List TempPath} {asked : List (Made F)}
    (h : Prog.Runs (unlinkAll paths : Effect F Unit) asked ()) (hremoved : AllRemoved asked)
    (live : List TempPath) : ∀ path ∈ liveAfter live asked, path ∈ live ∧ path ∉ paths := by
  induction paths generalizing asked live with
  | nil =>
    rcases Prog.runs_pure_iff.mp h with ⟨rfl, -⟩
    intro path hpath
    exact ⟨hpath, List.not_mem_nil⟩
  | cons first paths ih =>
    unfold unlinkAll at h
    simp only [Prog.runs_bind_iff, Prog.runs_call_iff] at h
    rcases h with ⟨removed, _, after, rfl, rfl, hafter⟩
    have hfirst : removed = true := hremoved first removed List.mem_cons_self
    subst hfirst
    intro path hpath
    have hrest := ih hafter (fun p r hr => hremoved p r (List.mem_cons_of_mem _ hr))
      (live.filter (· ≠ first)) path hpath
    rcases List.mem_filter.mp hrest.1 with ⟨hlive, hne⟩
    refine ⟨hlive, ?_⟩
    intro hmem
    rcases List.mem_cons.mp hmem with rfl | hmem
    · simp at hne
    · exact hrest.2 hmem

/-! ## Credentials -/

/-- The secrets that were read, with what was answered. -/
def secretReads : List (Made F) → List (Str × Except SecretError (PyVal F))
  | [] => []
  | ⟨.getSecret path, answer⟩ :: asked => (path, answer) :: secretReads asked
  | _ :: asked => secretReads asked

/-- The `vault:` references among credentials with their default fields. -/
def vaultReferences (credentials : List (PyVal F × Str)) : List (Str × Str) :=
  credentials.filterMap fun credential =>
    match credential.1 with
    | .str s => vaultReference s (some credential.2)
    | _ => none

variable [PyRuntime F]

/-- The credentials `_build_kube_configuration` chooses. -/
def kubeCredentials (controller : Dict F) : List (PyVal F × Str) :=
  if truthy (field (py "in_cluster") controller) then []
  else if truthy (field (py "kubeconfig") controller) then
    [(field (py "kubeconfig") controller, py "kubeconfig")]
  else if truthy (field (py "api_server") controller) && truthy (field (py "token") controller) then
    (field (py "token") controller, py "token") ::
      if truthy (field (py "ca_cert") controller) then
        [(field (py "ca_cert") controller, py "ca_cert")]
      else []
  else []

/-- A reference was resolved to a text by a read. -/
def Resolved (reference : Str × Str) (read : Str × Except SecretError (PyVal F)) : Prop :=
  read.1 = reference.1 ∧ ∃ secret text, read.2 = .ok secret ∧
    secretField reference.1 reference.2 secret = .ok (.str text)

/-- The file of a secret was not made, or not written. -/
def LosesFile : Made F → Prop
  | ⟨.mkstemp, answer⟩ => ∃ e, answer = Except.error e
  | ⟨.writeSecret _ _, answer⟩ => ∃ e, answer = Except.error e
  | _ => False

/-- The files of the credentials are gone at the end and there whenever something is used, and
something is used only when every reference was resolved and its file written. -/
structure Tidy (credentials : List (PyVal F × Str)) (asked : List (Made F)) : Prop where
  gone : AllRemoved asked → liveAfter [] asked = []
  there : ∀ before m after, asked = before ++ m :: after → Uses m →
    ∀ path ∈ created before, path ∈ liveAfter [] before
  resolved : (∃ m ∈ asked, Uses m) →
    List.Forall₂ Resolved (vaultReferences credentials) (secretReads asked) ∧
      ∀ m ∈ asked, ¬ LosesFile m

/-! ## The parts of a run -/

/-- Credentials were resolved, some of them to files. -/
structure Acquired (credentials : List (PyVal F × Str)) (asked : List (Made F))
    (files : List TempPath) : Prop where
  created_eq : created asked = files
  unused : ∀ m ∈ asked, ¬ Uses m
  unremoved : ∀ m ∈ asked, ¬ Removes m
  resolved : List.Forall₂ Resolved (vaultReferences credentials) (secretReads asked)
  kept : ∀ m ∈ asked, ¬ LosesFile m

/-- Credentials were not resolved, and no file is left. -/
structure Abandoned (asked : List (Made F)) : Prop where
  unused : ∀ m ∈ asked, ¬ Uses m
  gone : AllRemoved asked → ∀ live, ∀ path ∈ liveAfter live asked, path ∈ live

/-- A call that neither makes, writes nor deletes a file, nor reads a secret. -/
def Idle (m : Made F) : Prop :=
  match m.call with
  | .mkstemp | .writeSecret _ _ | .unlink _ | .getSecret _ => False
  | _ => True

omit [PyRuntime F] in
theorem created_append (before after : List (Made F)) :
    created (before ++ after) = created before ++ created after := by
  induction before with
  | nil => rfl
  | cons m before ih =>
    rcases m with ⟨call, answer⟩
    cases call with
    | mkstemp =>
      rcases answer with e | path
      · exact ih
      · exact congrArg (path :: ·) ih
    | _ => exact ih

omit [PyRuntime F] in
theorem secretReads_append (before after : List (Made F)) :
    secretReads (before ++ after) = secretReads before ++ secretReads after := by
  induction before with
  | nil => rfl
  | cons m before ih =>
    rcases m with ⟨call, answer⟩
    cases call with
    | getSecret path => exact congrArg ((path, answer) :: ·) ih
    | _ => exact ih

omit [PyRuntime F] in
theorem of_idle {asked : List (Made F)} (h : ∀ m ∈ asked, Idle m) :
    created asked = [] ∧ secretReads asked = [] ∧ (∀ m ∈ asked, ¬ Removes m ∧ ¬ LosesFile m) ∧
      ∀ live, liveAfter live asked = live := by
  induction asked with
  | nil => exact ⟨rfl, rfl, by simp, fun _ => rfl⟩
  | cons m asked ih =>
    rcases List.forall_mem_cons.mp h with ⟨hm, hasked⟩
    rcases ih hasked with ⟨hcreated, hreads, hremoves, hlive⟩
    rcases m with ⟨call, answer⟩
    cases call with
    | mkstemp => exact absurd hm id
    | unlink path => exact absurd hm id
    | getSecret path => exact absurd hm id
    | writeSecret path text => exact absurd hm id
    | _ =>
      refine ⟨hcreated, hreads, ?_, hlive⟩
      intro m hm
      rcases List.mem_cons.mp hm with rfl | hm
      · exact ⟨id, id⟩
      · exact hremoves m hm

omit [PyRuntime F] in
theorem of_unlinkAll {paths : List TempPath} {asked : List (Made F)}
    (h : Prog.Runs (unlinkAll paths : Effect F Unit) asked ()) :
    created asked = [] ∧ secretReads asked = [] ∧ ∀ m ∈ asked, ¬ Uses m ∧ ¬ LosesFile m := by
  have hcalls := calls_unlinkAll h
  clear h
  induction asked with
  | nil => exact ⟨rfl, rfl, by simp⟩
  | cons m asked ih =>
    rcases List.forall_mem_cons.mp hcalls with ⟨⟨path, removed, rfl⟩, hasked⟩
    rcases ih hasked with ⟨hcreated, hreads, huses⟩
    refine ⟨hcreated, hreads, ?_⟩
    intro m hm
    rcases List.mem_cons.mp hm with rfl | hm
    · exact ⟨id, id⟩
    · exact huses m hm

theorem Acquired.append {credentials credentials' : List (PyVal F × Str)}
    {asked asked' : List (Made F)} {files files' : List TempPath}
    (h : Acquired credentials asked files) (h' : Acquired credentials' asked' files') :
    Acquired (credentials ++ credentials') (asked ++ asked') (files ++ files') where
  created_eq := by rw [created_append, h.created_eq, h'.created_eq]
  unused m hm := (List.mem_append.mp hm).elim (h.unused m) (h'.unused m)
  unremoved m hm := (List.mem_append.mp hm).elim (h.unremoved m) (h'.unremoved m)
  resolved := by
    rw [secretReads_append]
    unfold vaultReferences
    rw [List.filterMap_append]
    exact List.rel_append h.resolved h'.resolved
  kept m hm := (List.mem_append.mp hm).elim (h.kept m) (h'.kept m)

/-- Idle calls that use nothing resolve no credentials. -/
theorem acquired_of_idle (asked : List (Made F)) (hidle : ∀ m ∈ asked, Idle m)
    (hunused : ∀ m ∈ asked, ¬ Uses m) : Acquired ([] : List (PyVal F × Str)) asked [] := by
  rcases of_idle hidle with ⟨hcreated, hreads, hremoves, -⟩
  refine ⟨hcreated, hunused, fun m hm => (hremoves m hm).1, ?_, fun m hm => (hremoves m hm).2⟩
  rw [hreads]
  exact List.Forall₂.nil

theorem Abandoned.tidy {asked : List (Made F)} (h : Abandoned asked)
    (credentials : List (PyVal F × Str)) : Tidy credentials asked where
  gone hremoved := List.eq_nil_iff_forall_not_mem.mpr fun path hpath =>
    List.not_mem_nil (h.gone hremoved [] path hpath)
  there _ m _ hsplit huses :=
    absurd huses (h.unused m (hsplit ▸ List.mem_append_right _ List.mem_cons_self))
  resolved := fun ⟨m, hm, huses⟩ => absurd huses (h.unused m hm)

/-- A run that takes hold of files, uses them and deletes them is tidy. -/
theorem tidy_of_parts {credentials : List (PyVal F × Str)} {acquire release : List (Made F)}
    {files : List TempPath} (hacquired : Acquired credentials acquire files) (use : List (Made F))
    (huse : ∀ m ∈ use, Idle m) (hrelease : Prog.Runs (unlinkAll files : Effect F Unit) release ()) :
    Tidy credentials (acquire ++ use ++ release) := by
  rcases of_idle huse with ⟨hcreated, hreads, hremoves, hlive⟩
  rcases of_unlinkAll hrelease with ⟨hcreated', hreads', hunused⟩
  constructor
  · intro hremoved
    rw [List.eq_nil_iff_forall_not_mem]
    intro path hpath
    rw [liveAfter_append, liveAfter_append, hlive] at hpath
    have hrest := liveAfter_unlinkAll hrelease
      (fun p r hr => hremoved p r (List.mem_append_right _ hr)) _ path hpath
    rcases mem_of_mem_liveAfter hrest.1 with hnil | hmade
    · exact List.not_mem_nil hnil
    · rw [hacquired.created_eq] at hmade
      exact hrest.2 hmade
  · intro before m after hsplit huses path hpath
    refine mem_liveAfter (fun n hn => ?_) [] (Or.inr hpath)
    -- `m` is no deletion, so that what comes before it is no deletion either
    rcases List.append_eq_append_iff.mp hsplit with ⟨mid, hbefore, hrest⟩ | ⟨mid, hfront, hrest⟩
    · exfalso
      apply (hunused m _).1 huses
      rw [hrest]
      exact List.mem_append_right _ List.mem_cons_self
    · have hmem : n ∈ acquire ++ use := by
        rw [hfront]
        exact List.mem_append_left _ hn
      exact (List.mem_append.mp hmem).elim (hacquired.unremoved n) fun h => (hremoves n h).1
  · intro _
    rw [secretReads_append, secretReads_append, hreads, hreads', List.append_nil, List.append_nil]
    refine ⟨hacquired.resolved, fun m hm => ?_⟩
    rcases List.mem_append.mp hm with hm | hm
    · exact (List.mem_append.mp hm).elim (hacquired.kept m) fun h => (hremoves m h).2
    · exact (hunused m hm).2

/-! ## One credential -/

theorem vaultReferences_of_plain {v : PyVal F} {name : Str}
    (h : truthy v = true → ∃ s, v = .str s ∧ dropStart (py "vault:") s = none) :
    vaultReferences [(v, name)] = [] := by
  unfold vaultReferences
  cases v with
  | str s =>
    have hplain : vaultReference s (some name) = none := by
      unfold vaultReference
      cases s with
      | nil => rfl
      | cons c cs =>
        rcases h rfl with ⟨s', hs, hnone⟩
        cases hs
        rw [hnone]
        rfl
    simp [hplain]
  | _ => rfl

theorem SecretFile.acquired {v path : PyVal F} {name : Str} {asked : List (Made F)}
    {tmp : Option TempPath} (h : SecretFile name v asked (.ok (path, tmp))) :
    Acquired [(v, name)] asked tmp.toList := by
  cases h with
  | plain h =>
    refine ⟨rfl, by simp, by simp, ?_, by simp⟩
    rw [vaultReferences_of_plain h]
    exact List.Forall₂.nil
  | written href hv tmp =>
    refine ⟨rfl, ?_, ?_, ?_, ?_⟩
    · simp [Uses]
    · simp [Removes]
    · unfold vaultReferences
      simp only [List.filterMap_cons, href, List.filterMap_nil]
      exact List.Forall₂.cons ⟨rfl, _, _, rfl, hv⟩ List.Forall₂.nil
    · simp [LosesFile]

theorem SecretFile.abandoned {v : PyVal F} {name : Str} {asked : List (Made F)} {e : SecretError}
    (h : SecretFile name v asked (.error e)) : Abandoned asked := by
  -- the file that was made is the one that is deleted
  have hdeleted : ∀ {live : List TempPath} {tmp path : TempPath} {removed : Bool}
      {asked : List (Made F)}, ⟨.unlink tmp, removed⟩ ∈ asked → AllRemoved asked →
      path ∈ liveAfter (tmp :: live) [(⟨.unlink tmp, removed⟩ : Made F)] → path ∈ live := by
    intro live tmp path removed asked hmem hremoved hpath
    have hworks : removed = true := hremoved tmp removed hmem
    subst hworks
    rcases List.mem_filter.mp (show path ∈ (tmp :: live).filter (· ≠ tmp) from hpath) with ⟨hin, hne⟩
    rcases List.mem_cons.mp hin with rfl | hin
    · simp at hne
    · exact hin
  cases h with
  | notText ht h text => exact ⟨by simp, fun _ _ _ h => h⟩
  | noField href text => exact ⟨by simp, fun _ _ _ h => h⟩
  | noSecret href e => exact ⟨by simp [Uses], fun _ _ _ h => h⟩
  | badSecret href he => exact ⟨by simp [Uses], fun _ _ _ h => h⟩
  | noFile href hv e => exact ⟨by simp [Uses], fun _ _ _ h => h⟩
  | notWritable href hv ht tmp e removed =>
    exact ⟨by simp [Uses], fun hremoved _ _ hpath => hdeleted (by simp) hremoved hpath⟩
  | notWritten href hv tmp e removed =>
    exact ⟨by simp [Uses], fun hremoved _ _ hpath => hdeleted (by simp) hremoved hpath⟩

/-! ## The methods -/

/-- After files were taken hold of, what fails deletes them. -/
theorem abandoned_of_release {credentials : List (PyVal F × Str)} {acquire failed release : List (Made F)}
    {files : List TempPath} (hacquired : Acquired credentials acquire files)
    (hfailed : Abandoned failed) (hrelease : Prog.Runs (unlinkAll files : Effect F Unit) release ()) :
    Abandoned (acquire ++ failed ++ release) := by
  constructor
  · intro m hm
    rcases List.mem_append.mp hm with hm | hm
    · exact (List.mem_append.mp hm).elim (hacquired.unused m) (hfailed.unused m)
    · exact ((of_unlinkAll hrelease).2.2 m hm).1
  · intro hremoved live path hpath
    rw [liveAfter_append, liveAfter_append] at hpath
    have hrest := liveAfter_unlinkAll hrelease
      (fun p r hr => hremoved p r (List.mem_append_right _ hr)) _ path hpath
    have hmade := hfailed.gone
      (fun p r hr => hremoved p r (List.mem_append_left _ (List.mem_append_right _ hr)))
      _ path hrest.1
    rcases mem_of_mem_liveAfter hmade with hlive | hcreated
    · exact hlive
    · rw [hacquired.created_eq] at hcreated
      exact absurd hcreated hrest.2

variable {controller : Dict F} {asked : List (Made F)}

/-- `run_remote` and its key. -/
theorem tidy_connect {target : Str} {sshKey : PyVal F} {remoteCmd : Str} {r : Py ExecResult}
    (h : Prog.Runs (connect target sshKey remoteCmd) asked r) :
    Tidy [(sshKey, py "private_key")] asked := by
  rcases runs_connect h with ⟨_, hfile, -⟩ | ⟨e, hfile, -⟩ |
    ⟨key, path, before, outcome, after, hfile, rfl, hunlink, -⟩
  · exact hfile.abandoned.tidy _
  · exact hfile.abandoned.tidy _
  · have hidle : ∀ m ∈ [(⟨.process (sshArgs key target remoteCmd), outcome⟩ : Made F)], Idle m := by
      simp [Idle]
    have htidy := tidy_of_parts hfile.acquired _ hidle hunlink
    simpa using htidy

theorem tidy_runRemote (O : Type) [PyObjects F O] {action : ActionConfig F} {params : Dict F}
    {dryRun : Option Bool} {r : Py ExecResult}
    (h : Prog.Runs (runRemote O controller action params dryRun) asked r) :
    Tidy [(field (py "ssh_key") controller, py "private_key")] asked := by
  rcases runs_runRemote O h with rfl | ⟨remoteCmd, -, -, hconnect⟩
  · exact (⟨by simp, fun _ _ _ h => h⟩ : Abandoned ([] : List (Made F))).tidy _
  · exact tidy_connect hconnect

/-- A configuration is made with credentials that were resolved, or no file is left. -/
theorem runs_kubeconfigConfiguration {kubeconfig : PyVal F}
    {r : Except ConfigurationError (KubeConfiguration F × List TempPath)}
    (h : Prog.Runs (kubeconfigConfiguration kubeconfig) asked r) :
    (∃ configuration files, r = .ok (configuration, files) ∧
      Acquired [(kubeconfig, py "kubeconfig")] asked files) ∨
    ∃ e, r = .error e ∧ Abandoned asked := by
  unfold kubeconfigConfiguration at h
  rw [Prog.runs_bind_iff] at h
  rcases h with ⟨resolved, acquire, rest, rfl, hresolve, hnext⟩
  have hfile := runs_resolveSecretFile hresolve
  rcases resolved with e | ⟨path, tmp⟩
  · rcases Prog.runs_pure_iff.mp hnext with ⟨rfl, rfl⟩
    rw [List.append_nil]
    exact Or.inr ⟨_, rfl, hfile.abandoned⟩
  · simp only [Prog.runs_bind_iff, Prog.runs_call_iff] at hnext
    rcases hnext with ⟨loaded, _, after, rfl, rfl, hnext⟩
    rcases loaded with text | _
    · simp only [Prog.runs_bind_iff, Prog.runs_pure_iff] at hnext
      rcases hnext with ⟨_, release, _, rfl, hrelease, rfl, rfl⟩
      refine Or.inr ⟨_, rfl, ?_⟩
      have habandoned := abandoned_of_release hfile.acquired
        (⟨by simp [Uses], fun _ _ _ h => h⟩ :
          Abandoned [(⟨.loadKubeConfig path, Except.error text⟩ : Made F)]) hrelease
      simpa using habandoned
    · rcases Prog.runs_pure_iff.mp hnext with ⟨rfl, rfl⟩
      refine Or.inl ⟨_, _, rfl, ?_⟩
      have hacquired := hfile.acquired.append (acquired_of_idle
        [(⟨.loadKubeConfig path, Except.ok ()⟩ : Made F)] (by simp [Idle]) (by simp [Uses]))
      simpa using hacquired

theorem runs_tokenConfiguration {apiServer token caCert : PyVal F}
    {r : Except ConfigurationError (KubeConfiguration F × List TempPath)}
    (h : Prog.Runs (tokenConfiguration apiServer token caCert) asked r) :
    (∃ configuration files, r = .ok (configuration, files) ∧
      Acquired ((token, py "token") :: if truthy caCert then [(caCert, py "ca_cert")] else []) asked
        files) ∨
    ∃ e, r = .error e ∧ Abandoned asked := by
  unfold tokenConfiguration at h
  rw [Prog.runs_bind_iff] at h
  rcases h with ⟨resolved, acquire, rest, rfl, hresolve, hnext⟩
  have hfile := runs_resolveSecretFile hresolve
  -- the token was not resolved: nothing is behind it to release
  rcases resolved with e | ⟨path, tmp⟩
  · rcases Prog.runs_pure_iff.mp hnext with ⟨rfl, rfl⟩
    rw [List.append_nil]
    exact Or.inr ⟨_, rfl, hfile.abandoned⟩
  simp only [Prog.runs_bind_iff, Prog.runs_call_iff] at hnext
  rcases hnext with ⟨content, _, after, rfl, rfl, hnext⟩
  -- the token's file cannot be read, so it is released and the exception goes on
  rcases content with text | content
  · simp only [Prog.runs_bind_iff, Prog.runs_pure_iff] at hnext
    rcases hnext with ⟨_, release, _, rfl, hrelease, rfl, rfl⟩
    refine Or.inr ⟨_, rfl, ?_⟩
    have habandoned := abandoned_of_release hfile.acquired
      (⟨by simp [Uses], fun _ _ _ h => h⟩ :
        Abandoned [(⟨.readText (pyStr path), Except.error text⟩ : Made F)]) hrelease
    simpa using habandoned
  have hread := hfile.acquired.append (acquired_of_idle
    [(⟨.readText (pyStr path), Except.ok content⟩ : Made F)] (by simp [Idle]) (by simp [Uses]))
  by_cases hca : truthy caCert = true
  · simp only [hca, if_true, Prog.runs_bind_iff] at hnext ⊢
    rcases hnext with ⟨resolved, acquire', rest, rfl, hresolve', hnext⟩
    have hfile' := runs_resolveSecretFile hresolve'
    -- the same for the certificate, when the token's file is already held
    rcases resolved with e | ⟨caPath, caTmp⟩
    · simp only [Prog.runs_bind_iff, Prog.runs_pure_iff] at hnext
      rcases hnext with ⟨_, release, _, rfl, hrelease, rfl, rfl⟩
      simp only [List.append_nil] at hread
      have habandoned := abandoned_of_release hread hfile'.abandoned hrelease
      refine Or.inr ⟨_, rfl, ?_⟩
      simpa using habandoned
    · rcases Prog.runs_pure_iff.mp hnext with ⟨rfl, rfl⟩
      refine Or.inl ⟨_, _, rfl, ?_⟩
      have hacquired := hread.append hfile'.acquired
      simpa using hacquired
  · simp only [hca, Bool.false_eq_true, if_false] at hnext ⊢
    rcases Prog.runs_pure_iff.mp hnext with ⟨rfl, rfl⟩
    refine Or.inl ⟨_, _, rfl, ?_⟩
    simpa using hread

/-- `_build_kube_configuration` resolves the credentials it chooses, or leaves no file. -/
theorem runs_buildKubeConfiguration
    {r : Except ConfigurationError (KubeConfiguration F × List TempPath)}
    (h : Prog.Runs (buildKubeConfiguration controller) asked r) :
    (∃ configuration files, r = .ok (configuration, files) ∧
      Acquired (kubeCredentials controller) asked files) ∨
    ∃ e, r = .error e ∧ Abandoned asked := by
  unfold buildKubeConfiguration at h
  unfold kubeCredentials
  by_cases hcluster : truthy (field (py "in_cluster") controller) = true
  · simp only [hcluster, if_true, Prog.runs_bind_iff, Prog.runs_call_iff] at h ⊢
    rcases h with ⟨loaded, _, after, rfl, rfl, hnext⟩
    rcases loaded with text | _
    · rcases Prog.runs_pure_iff.mp hnext with ⟨rfl, rfl⟩
      exact Or.inr ⟨_, rfl, by simp [Uses], fun _ _ _ h => h⟩
    · rcases Prog.runs_pure_iff.mp hnext with ⟨rfl, rfl⟩
      exact Or.inl ⟨_, _, rfl, acquired_of_idle _ (by simp [Idle]) (by simp [Uses])⟩
  · simp only [hcluster, Bool.false_eq_true, if_false] at h ⊢
    by_cases hconfig : truthy (field (py "kubeconfig") controller) = true
    · simp only [hconfig, if_true] at h ⊢
      exact runs_kubeconfigConfiguration h
    · simp only [hconfig, Bool.false_eq_true, if_false] at h ⊢
      by_cases htoken : (truthy (field (py "api_server") controller) &&
          truthy (field (py "token") controller)) = true
      · simp only [htoken, if_true] at h ⊢
        exact runs_tokenConfiguration h
      · simp only [htoken, Bool.false_eq_true, if_false, Prog.runs_pure_iff] at h
        rcases h with ⟨rfl, rfl⟩
        exact Or.inr ⟨_, rfl, by simp, fun _ _ _ h => h⟩

/-- The API is used by idle calls. -/
theorem idle_handle {configuration : KubeConfiguration F} {verb : Str} {rendered : Dict F}
    {result : ExecResult} (h : Prog.Runs (handle configuration verb rendered) asked result) :
    ∀ m ∈ asked, Idle m := by
  have hidle : ∀ call : Call F, IsApiCall call → ∀ answer, Idle (⟨call, answer⟩ : Made F) := by
    intro call hcall answer
    cases call with
    | kube method args => trivial
    | utcNow => trivial
    | _ => exact absurd hcall id
  unfold handle at h
  simp only [Prog.runs_bind_iff, Prog.runs_call_iff] at h
  rcases h with ⟨built, _, rest, rfl, rfl, hnext⟩
  have hrest : ∀ m ∈ rest, Idle m := by
    rcases built with e | _
    · rw [(Prog.runs_pure_iff.mp hnext).1]
      simp
    · simp only [Prog.runs_bind_iff] at hnext
      rcases hnext with ⟨answer, handled, after, rfl, hhandler, hafter⟩
      have hnone : after = [] := by
        cases answer with
        | error e => exact (Prog.runs_pure_iff.mp hafter).1
        | ok result => exact (Prog.runs_pure_iff.mp hafter).1
      rw [hnone, List.append_nil]
      intro m hm
      exact hidle m.call ((calls_kubeHandler verb rendered).of_runs hhandler m hm) m.answer
  intro m hm
  rcases List.mem_append.mp hm with hbuilt | hm
  · rw [List.mem_singleton.mp hbuilt]
    trivial
  · exact hrest m hm

theorem tidy_applyKubeAction {verb : Str} {rendered : Dict F} {result : ExecResult}
    (h : Prog.Runs (applyKubeAction controller verb rendered) asked result) :
    Tidy (kubeCredentials controller) asked := by
  unfold applyKubeAction at h
  rw [Prog.runs_bind_iff] at h
  rcases h with ⟨built, acquire, rest, rfl, hbuild, hnext⟩
  rcases runs_buildKubeConfiguration hbuild with
    ⟨configuration, files, rfl, hacquired⟩ | ⟨e, rfl, habandoned⟩
  · simp only [Prog.runs_bind_iff, Prog.runs_pure_iff] at hnext
    rcases hnext with ⟨_, use, _, rfl, huse, _, release, _, rfl, hrelease, rfl, -⟩
    have htidy := tidy_of_parts hacquired use (idle_handle huse) hrelease
    simpa using htidy
  · have hnone : rest = [] := by
      cases e with
      | unavailable text => exact (Prog.runs_pure_iff.mp hnext).1
      | other text => exact (Prog.runs_pure_iff.mp hnext).1
    rw [hnone, List.append_nil]
    exact habandoned.tidy _

theorem tidy_runKubeAction (O : Type) [PyObjects F O] {action : ActionConfig F} {params : Dict F}
    {dryRun : Option Bool} {r : Py ExecResult}
    (h : Prog.Runs (runKubeAction O controller action params dryRun) asked r) :
    Tidy (kubeCredentials controller) asked := by
  rcases runs_runKubeAction h with rfl | ⟨verb, rendered, result, -, -, -, hrun⟩
  · exact (⟨by simp, fun _ _ _ h => h⟩ : Abandoned ([] : List (Made F))).tidy _
  · exact tidy_applyKubeAction hrun

/-- Neither method leaves a file of a secret, however it ends, and neither uses anything without
the secrets it needs. -/
theorem secret_files_tidied (O : Type) [PyObjects F O] (controller : Dict F) (action : ActionConfig F)
    (params : Dict F) (dryRun : Option Bool) (asked : List (Made F)) (r : Py ExecResult) :
    (Prog.Runs (runRemote O controller action params dryRun) asked r →
      Tidy [(field (py "ssh_key") controller, py "private_key")] asked) ∧
    (Prog.Runs (runKubeAction O controller action params dryRun) asked r →
      Tidy (kubeCredentials controller) asked) :=
  ⟨tidy_runRemote O, tidy_runKubeAction O⟩

/-! ## A run -/

/-- A controller whose key is in Vault. -/
def vaultHost : Dict NanFloat :=
  (.str (py "ssh_key"), .str (py "vault:ssh/ops")) :: sshHost

/-- A world where everything works and every secret has a key. -/
def workingWorld (tmp : TempPath) : Prog.World (Call NanFloat) (Answer NanFloat)
  | _, .getSecret _ => Except.ok (PyVal.dict [(.str (py "private_key"), .str (py "KEY"))])
  | _, .mkstemp => Except.ok tmp
  | _, .writeSecret _ _ => Except.ok ()
  | _, .unlink _ => true
  | _, .readText _ => Except.ok []
  | _, .process _ => Process.finished 0 [] []
  | _, .loadIncluster | _, .loadKubeConfig _ => Except.ok ()
  | _, .apiClient _ => Except.ok ()
  | _, .utcNow => []
  | _, .kube _ _ => Except.ok []
  | _, .post _ _ _ => Posted.status 200
  | _, .mimeText _ => Except.ok ()
  | _, .mimeString _ _ _ _ => Except.ok []
  | _, .smtpConnect _ _ | _, .smtpStarttls | _, .smtpLogin _ _ | _, .smtpSend _ _ _
  | _, .smtpQuit => true

/-- The key is read, written to a file, used and deleted. -/
theorem secret_files_tidied_example :
    Tidy [(field (py "ssh_key") vaultHost, py "private_key")]
      ([⟨.getSecret (py "ssh/ops"), Except.ok (PyVal.dict [(.str (py "private_key"), .str (py "KEY"))])⟩,
        ⟨.mkstemp, Except.ok ⟨py "/tmp/key", by decide⟩⟩,
        ⟨.writeSecret ⟨py "/tmp/key", by decide⟩ (py "KEY"), Except.ok ()⟩,
        ⟨.process (sshArgs (.str (py "/tmp/key") : PyVal NanFloat) (py "ops@10.0.0.1") (py "df")),
          Process.finished 0 [] []⟩,
        ⟨.unlink ⟨py "/tmp/key", by decide⟩, true⟩] : List (Made NanFloat)) :=
  (secret_files_tidied (PyVal NanFloat) vaultHost (commandAction "df") [] none _
    (.ok ⟨true, [], [], 0, none⟩)).1
    (Prog.runs_run (workingWorld ⟨py "/tmp/key", by decide⟩) 0
      (runRemote (PyVal NanFloat) vaultHost (commandAction "df") [] none))

end AutoHeal.Exec
