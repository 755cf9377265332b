import AutoHeal.Exec.Lines

/-!
# Extra variables

A playbook gets its variables as one `--extra-vars` argument: on this host as `name='value'` pairs,
on a controller as a JSON object. `extraVars_exact` says for which variables these arguments are
those of no others.
-/

namespace AutoHeal.Exec

open Server

variable {F : Type}

/-- Variables with texts as values, in order. -/
abbrev Vars := List (Str × Str)

/-- A name without spaces, quotes and `=`. -/
def IsName (name : Str) : Prop := (32 : CodePoint) ∉ name ∧ (39 : CodePoint) ∉ name ∧
  (34 : CodePoint) ∉ name ∧ (61 : CodePoint) ∉ name

/-- Some variables, of different names. -/
structure IsVars (p : Vars) : Prop where
  nonempty : p ≠ []
  names : ∀ kv ∈ p, IsName kv.1
  nodup : (p.map (·.1)).Nodup

/-- The parameters of an action that are these variables. -/
def paramsOf (p : Vars) : Dict F := p.map fun kv => (.str kv.1, .str kv.2)

/-! ## On this host -/

/-- `name='value'`. -/
def assignment (kv : Str × Str) : Str := kv.1 ++ 61 :: 39 :: (kv.2 ++ [39])

/-- The argument of `run_playbook`. -/
def localArgument (p : Vars) : Str := unwords (p.map assignment)

theorem localArgument_cons (kv : Str × Str) {p : Vars} (hp : p ≠ []) :
    localArgument (kv :: p) = assignment kv ++ 32 :: localArgument p := by
  cases p with
  | nil => exact absurd rfl hp
  | cons kv' p => simp [localArgument, unwords, List.intercalate]

@[simp] theorem localArgument_single (kv : Str × Str) : localArgument [kv] = assignment kv := by
  simp [localArgument, unwords, List.intercalate]

/-- The argument begins with the first name, and it ends with an apostrophe. -/
theorem localArgument_form (kv : Str × Str) (p : Vars) :
    ∃ text, localArgument (kv :: p) = kv.1 ++ 61 :: 39 :: (text ++ [39]) := by
  induction p generalizing kv with
  | nil => exact ⟨kv.2, by simp [assignment]⟩
  | cons kv' p ih =>
    rcases ih kv' with ⟨text, htext⟩
    refine ⟨kv.2 ++ 39 :: 32 :: (kv'.1 ++ 61 :: 39 :: text), ?_⟩
    rw [localArgument_cons kv (List.cons_ne_nil _ _), htext]
    simp [assignment]

/-- What separates a value from the next one. -/
def separator (name : Str) : Str := 39 :: 32 :: (name ++ [61, 39])

/-- Texts that are cut at the first occurrence of a code point. -/
theorem cut_inj {c : CodePoint} {s t u v : Str} (hs : c ∉ s) (ht : c ∉ t)
    (h : s ++ c :: u = t ++ c :: v) : s = t ∧ u = v := by
  induction s generalizing t with
  | nil =>
    cases t with
    | nil => exact ⟨rfl, (List.cons.inj h).2⟩
    | cons d t =>
      rw [(List.cons.inj h).1] at ht
      exact absurd List.mem_cons_self ht
  | cons d s ih =>
    cases t with
    | nil =>
      rw [← (List.cons.inj h).1] at hs
      exact absurd List.mem_cons_self hs
    | cons e t =>
      rcases List.cons.inj h with ⟨rfl, hrest⟩
      rcases ih (fun hmem => hs (List.mem_cons_of_mem _ hmem))
        (fun hmem => ht (List.mem_cons_of_mem _ hmem)) hrest with ⟨rfl, rfl⟩
      exact ⟨rfl, rfl⟩

/-- The variables are one, whose value has no separator in it that names another one. -/
def Alone (p : Vars) : Prop :=
  ∃ name value, p = [(name, value)] ∧
    ∀ first other rest, IsName other → value = first ++ separator other ++ rest → other = name

/-- The argument of one variable is that of others when its value is cut at a separator. -/
theorem localArgument_pair (name first other rest : Str) :
    localArgument [(name, first), (other, rest)] =
      localArgument [(name, first ++ separator other ++ rest)] := by
  rw [localArgument_cons _ (List.cons_ne_nil _ _)]
  simp [assignment, separator]

/-- One variable with the argument of several. -/
theorem exists_single (kv kv' : Str × Str) (p : Vars) :
    ∃ value, localArgument [(kv.1, value)] = localArgument (kv :: kv' :: p) := by
  rcases localArgument_form kv (kv' :: p) with ⟨value, hvalue⟩
  exact ⟨value, by rw [hvalue, localArgument_single]; rfl⟩

/-- The argument of a variable that stands alone is that of no others. -/
theorem eq_of_localArgument_eq {p q : Vars} (hp : IsVars p) (hq : IsVars q) (halone : Alone p)
    (h : localArgument p = localArgument q) : p = q := by
  rcases halone with ⟨name, value, rfl, hvalue⟩
  have hname : (61 : CodePoint) ∉ name := (hp.names _ List.mem_cons_self).2.2.2
  rcases q with _ | ⟨⟨name', value'⟩, _ | ⟨⟨other, value''⟩, q⟩⟩
  · exact absurd rfl hq.nonempty
  · have hname' : (61 : CodePoint) ∉ name' := (hq.names _ List.mem_cons_self).2.2.2
    simp only [localArgument_single, assignment] at h
    rcases cut_inj hname hname' h with ⟨rfl, htail⟩
    rw [List.append_cancel_right (List.cons.inj htail).2]
  · -- the value has a separator in it, which names the second variable
    have hname' : (61 : CodePoint) ∉ name' := (hq.names _ List.mem_cons_self).2.2.2
    rcases localArgument_form (other, value'') q with ⟨text, htext⟩
    rw [localArgument_single, localArgument_cons _ (List.cons_ne_nil _ _), htext] at h
    simp only [assignment, List.append_assoc, List.cons_append] at h
    rcases cut_inj hname hname' h with ⟨rfl, htail⟩
    have hsplit : value ++ [39] = (value' ++ separator other ++ text) ++ [39] := by
      simpa [separator] using (List.cons.inj htail).2
    have hother : other = name :=
      hvalue value' other text (hq.names (other, value'') (by simp)) (List.append_cancel_right hsplit)
    have hnodup := hq.nodup
    simp [hother] at hnodup

/-- A map that differs and has the same argument, for variables that do not stand alone. -/
theorem exists_of_not_alone {p : Vars} (hp : IsVars p) (halone : ¬ Alone p) :
    ∃ q, IsVars q ∧ q.length ≠ p.length ∧ localArgument p = localArgument q := by
  rcases p with _ | ⟨⟨name, value⟩, _ | ⟨kv', p⟩⟩
  · exact absurd rfl hp.nonempty
  · -- the value is cut
    have hcut : ∃ first other rest, IsName other ∧ value = first ++ separator other ++ rest ∧
        other ≠ name := by
      by_contra hnone
      push Not at hnone
      exact halone ⟨name, value, rfl, hnone⟩
    rcases hcut with ⟨first, other, rest, hother, rfl, hne⟩
    have hname : IsName name := hp.names _ List.mem_cons_self
    refine ⟨[(name, first), (other, rest)], ⟨by simp, ?_, ?_⟩, by simp, ?_⟩
    · intro kv hkv
      rcases List.mem_cons.mp hkv with rfl | hkv
      · exact hname
      · rw [List.mem_singleton.mp hkv]
        exact hother
    · simpa using Ne.symm hne
    · exact (localArgument_pair name first other rest).symm
  · -- the others join the value of the first
    rcases exists_single (name, value) kv' p with ⟨value', hvalue'⟩
    refine ⟨[(name, value')], ⟨by simp, ?_, by simp⟩, by simp, hvalue'.symm⟩
    intro kv hkv
    rw [List.mem_singleton.mp hkv]
    exact hp.names (name, value) List.mem_cons_self

/-! ## Values without separators -/

/-- No apostrophe of the value is followed by a space, a name and `=`. -/
def Unmistakable (value : Str) : Prop :=
  ∀ first other rest, IsName other → value ≠ first ++ 39 :: 32 :: (other ++ 61 :: rest)

/-- What may follow a value: nothing, or the next variable. -/
def IsRest (tail : Str) : Prop :=
  tail = [] ∨ ∃ name text, IsName name ∧ tail = 32 :: (name ++ 61 :: 39 :: text)

/-- A value that is longer than another one with the same text around it has the next variable in
it. -/
theorem nil_of_longer {value more tail tail' : Str} (hvalue : Unmistakable (value ++ more))
    (htail : IsRest tail) (h : 39 :: tail = more ++ 39 :: tail') : more = [] := by
  rcases more with _ | ⟨c, more⟩
  · rfl
  · exfalso
    rcases List.cons.inj h with ⟨rfl, hrest⟩
    rcases htail with rfl | ⟨name, text, hname, rfl⟩
    · simp at hrest
    · have hsplit : (32 :: (name ++ [61])) ++ 39 :: text = more ++ 39 :: tail' := by
        simpa using hrest
      rcases List.append_eq_append_iff.mp hsplit with ⟨extra, rfl, -⟩ | ⟨extra, hmore, hextra⟩
      · exact hvalue value name extra hname (by simp)
      · rcases extra with _ | ⟨d, extra⟩
        · rw [List.append_nil] at hmore
          exact hvalue value name [] hname (by rw [← hmore])
        · -- a name has no apostrophe
          rcases List.cons.inj hextra with ⟨rfl, -⟩
          have hmem : (39 : CodePoint) ∈ 32 :: (name ++ [61]) := by
            rw [hmore]
            simp
          have hnot : (39 : CodePoint) ∉ name := hname.2.1
          simp [hnot] at hmem

/-- Two such values with such texts after them are the same. -/
theorem values_inj {value value' tail tail' : Str} (hvalue : Unmistakable value)
    (hvalue' : Unmistakable value') (htail : IsRest tail) (htail' : IsRest tail')
    (h : value ++ 39 :: tail = value' ++ 39 :: tail') : value = value' ∧ tail = tail' := by
  rcases List.append_eq_append_iff.mp h with ⟨more, rfl, hmore⟩ | ⟨more, rfl, hmore⟩
  · have hnil := nil_of_longer hvalue' htail hmore
    subst hnil
    simpa using hmore
  · have hnil := nil_of_longer hvalue htail' hmore
    subst hnil
    simpa using hmore.symm

/-- What follows the value of a variable in the argument. -/
def restOf (p : Vars) : Str := if p = [] then [] else 32 :: localArgument p

theorem localArgument_eq (kv : Str × Str) (p : Vars) :
    localArgument (kv :: p) = kv.1 ++ 61 :: 39 :: (kv.2 ++ 39 :: restOf p) := by
  unfold restOf
  split
  · next hp =>
    subst hp
    simp [assignment]
  · next hp =>
    rw [localArgument_cons kv hp]
    simp [assignment]

theorem isRest_restOf {p : Vars} (hp : ∀ kv ∈ p, IsName kv.1) : IsRest (restOf p) := by
  rcases p with _ | ⟨kv, p⟩
  · exact Or.inl rfl
  · refine Or.inr ⟨kv.1, kv.2 ++ 39 :: restOf p, hp kv List.mem_cons_self, ?_⟩
    rw [← localArgument_eq]
    rfl

/-- Variables whose values have no separators have arguments of their own. -/
theorem eq_of_unmistakable {p q : Vars} (hp : ∀ kv ∈ p, IsName kv.1 ∧ Unmistakable kv.2)
    (hq : ∀ kv ∈ q, IsName kv.1 ∧ Unmistakable kv.2) (h : restOf p = restOf q) : p = q := by
  induction p generalizing q with
  | nil =>
    cases q with
    | nil => rfl
    | cons kv q => simp [restOf] at h
  | cons kv p ih =>
    cases q with
    | nil => simp [restOf] at h
    | cons kv' q =>
      have hargument : localArgument (kv :: p) = localArgument (kv' :: q) := by
        simpa [restOf] using h
      rw [localArgument_eq, localArgument_eq] at hargument
      have hkv := hp kv List.mem_cons_self
      have hkv' := hq kv' List.mem_cons_self
      rcases cut_inj hkv.1.2.2.2 hkv'.1.2.2.2 hargument with ⟨hname, htail⟩
      have hp' : ∀ kv ∈ p, IsName kv.1 ∧ Unmistakable kv.2 :=
        fun kv hmem => hp kv (List.mem_cons_of_mem _ hmem)
      have hq' : ∀ kv ∈ q, IsName kv.1 ∧ Unmistakable kv.2 :=
        fun kv hmem => hq kv (List.mem_cons_of_mem _ hmem)
      rcases values_inj hkv.2 hkv'.2 (isRest_restOf fun kv hmem => (hp' kv hmem).1)
        (isRest_restOf fun kv hmem => (hq' kv hmem).1) (List.cons.inj htail).2 with ⟨hvalue, hrest⟩
      rw [ih hp' hq' hrest, Prod.ext hname hvalue]

/-! ## What is passed -/

section Passed

variable [PyRuntime F]

/-- The process of `run_playbook`. -/
theorem runPlaybook_vars (path : Str) {p : Vars} (hp : p ≠ []) {dryRun : Option Bool}
    (hset : isSet dryRun = false) :
    (runPlaybook path (paramsOf p) dryRun : Effect F ExecResult) =
      runProcess [py "ansible-playbook", path, py "--extra-vars", localArgument p] := by
  have hempty : (paramsOf p : Dict F).isEmpty = false := by
    cases p with
    | nil => exact absurd rfl hp
    | cons => rfl
  have htext : unwords ((paramsOf p : Dict F).map fun kv =>
      keyStr kv.1 ++ py "='" ++ pyStr kv.2 ++ py "'") = localArgument p := by
    have hquote : py "'" = [39] := rfl
    have hequal : py "='" = [61, 39] := rfl
    unfold localArgument paramsOf
    rw [List.map_map]
    congr 1
    refine List.map_congr_left fun kv _ => ?_
    simp [assignment, keyStr, hquote, hequal]
  unfold runPlaybook
  rw [hset, hempty, htext]
  rfl

/-- The texts of variables with surrogate pairs joined, as JSON has them. -/
def joinVars (p : Vars) : Vars := p.map fun kv => (joinSurrogates kv.1, joinSurrogates kv.2)

variable (F)

/-- The JSON text of variables. -/
def jsonArgument (p : Vars) : Str := print .spaced (.dict (paramsOf p) : PyVal F)

/-- JSON texts of variables differ unless the joined texts are the same. -/
theorem jsonArgument_eq_iff (p q : Vars) :
    jsonArgument F p = jsonArgument F q ↔ joinVars p = joinVars q := by
  have hstringify : ∀ p : Vars,
      stringify (.dict (paramsOf p) : PyVal F) = .dict (paramsOf (joinVars p)) := by
    intro p
    rw [stringify, stringifyDict_eq]
    unfold paramsOf joinVars
    simp [keyText, stringify]
  have hinj : ∀ p q : Vars, (paramsOf p : Dict F) = paramsOf q → p = q := by
    intro p q h
    refine List.map_injective_iff.mpr ?_ h
    intro kv kv' hkv
    cases kv
    cases kv'
    cases hkv
    rfl
  unfold jsonArgument
  rw [print_eq_iff, hstringify, hstringify]
  constructor
  · intro h
    exact hinj _ _ (PyVal.dict.inj h)
  · intro h
    rw [h]

theorem dumps_paramsOf (p : Vars) :
    dumps (.dict (paramsOf p) : PyVal F) = .ok (jsonArgument F p) := by
  unfold dumps keysAllowed plain paramsOf
  rw [if_pos]
  · rfl
  · simp [everyPart]

variable {F}
variable (O : Type) [PyObjects F O]

/-- The words of the line for a controller. -/
theorem buildRemoteCommand_vars {action : ActionConfig F} {path : Str} {p : Vars} (hp : p ≠ [])
    (haction : remoteExecutable action = some (.playbook path)) :
    ∃ line, buildRemoteCommand O action (paramsOf p) = .ok (some line) ∧
      shlexSplit line = .ok [py "ansible-playbook", path, py "--extra-vars", jsonArgument F p] := by
  have hparams : (paramsOf p : Dict F) ≠ [] := by
    cases p with
    | nil => exact absurd rfl hp
    | cons => simp [paramsOf]
  rcases @splits_playbook F _ O _ path _ hparams _ (dumps_paramsOf F p) with ⟨line, hline, hwords⟩
  exact ⟨line, buildRemoteCommand_of O haction hline, hwords⟩

/-- `run_playbook` calls different processes for these variables, and the lines for a controller
have different words. -/
def PassedDifferently (action : ActionConfig F) (path : Str) (p q : Vars) : Prop :=
  (∀ dryRun asked asked' r r', isSet dryRun = false →
    Prog.Runs (runPlaybook path (paramsOf p : Dict F) dryRun) asked r →
    Prog.Runs (runPlaybook path (paramsOf q : Dict F) dryRun) asked' r' →
    asked.map (·.call) ≠ asked'.map (·.call)) ∧
  ∀ line line', buildRemoteCommand O action (paramsOf p) = .ok (some line) →
    buildRemoteCommand O action (paramsOf q) = .ok (some line') → shlexSplit line ≠ shlexSplit line'

theorem passedDifferently_iff {action : ActionConfig F} {path : Str} {p q : Vars} (hp : p ≠ [])
    (hq : q ≠ []) (haction : remoteExecutable action = some (.playbook path)) :
    PassedDifferently O action path p q ↔
      localArgument p ≠ localArgument q ∧ joinVars p ≠ joinVars q := by
  rcases buildRemoteCommand_vars O hp haction with ⟨line, hline, hwords⟩
  rcases buildRemoteCommand_vars O hq haction with ⟨line', hline', hwords'⟩
  constructor
  · intro h
    constructor
    · intro hsame
      -- one run with the shared argument stands for both maps
      rcases exists_runs_runProcess (F := F)
        [py "ansible-playbook", path, py "--extra-vars", localArgument p] with ⟨asked, r, hruns⟩
      have hrunp : Prog.Runs (runPlaybook path (paramsOf p : Dict F) none) asked r := by
        rwa [runPlaybook_vars path hp rfl]
      have hrunq : Prog.Runs (runPlaybook path (paramsOf q : Dict F) none) asked r := by
        rwa [runPlaybook_vars path hq rfl, ← hsame]
      exact h.1 none asked asked r r rfl hrunp hrunq rfl
    · intro hsame
      have hjson := (jsonArgument_eq_iff F p q).mpr hsame
      exact h.2 line line' hline hline' (by rw [hwords, hwords', hjson])
  · intro h
    constructor
    · intro dryRun asked asked' r r' hset hrunp hrunq hcalls
      rw [runPlaybook_vars path hp hset] at hrunp
      rw [runPlaybook_vars path hq hset] at hrunq
      -- each run asks for one process, whose last argument is the text
      rcases runs_runProcess hrunp with ⟨outcome, rfl⟩
      rcases runs_runProcess hrunq with ⟨outcome', rfl⟩
      simp only [List.map_cons, List.map_nil, List.cons.injEq, Call.process.injEq, and_true,
        true_and] at hcalls
      exact h.1 hcalls
    · intro first second hfirst hsecond hsplit
      rw [hline] at hfirst
      rw [hline'] at hsecond
      cases hfirst
      cases hsecond
      rw [hwords, hwords'] at hsplit
      simp only [Except.ok.injEq, List.cons.injEq, and_true, true_and] at hsplit
      exact h.2 ((jsonArgument_eq_iff F p q).mp hsplit)

/-- Variables are passed differently from all others exactly when they stand alone; and two maps
whose values have no separators are passed differently. Maps are others when they differ with
surrogate pairs joined. -/
theorem extraVars_exact {action : ActionConfig F} {path : Str} {p : Vars} (hp : IsVars p)
    (haction : remoteExecutable action = some (.playbook path)) :
    ((∀ q, IsVars q → ¬ (joinVars p).Perm (joinVars q) → PassedDifferently O action path p q) ↔
      Alone p) ∧
    ∀ q, IsVars q → (∀ kv ∈ p ++ q, Unmistakable kv.2) → ¬ (joinVars p).Perm (joinVars q) →
      PassedDifferently O action path p q := by
  have hjoined : ∀ q, ¬ (joinVars p).Perm (joinVars q) → joinVars p ≠ joinVars q := by
    intro q hother hsame
    rw [hsame] at hother
    exact hother (List.Perm.refl _)
  refine ⟨⟨?_, ?_⟩, ?_⟩
  · intro h
    by_contra halone
    -- a second map with the same text has another length, so it is no rearrangement
    rcases exists_of_not_alone hp halone with ⟨q, hq, hlength, hsame⟩
    have hother : ¬ (joinVars p).Perm (joinVars q) := by
      intro hperm
      have := hperm.length_eq
      simp only [joinVars, List.length_map] at this
      exact hlength this.symm
    exact ((passedDifferently_iff O hp.nonempty hq.nonempty haction).mp (h q hq hother)).1 hsame
  · intro halone q hq hother
    refine (passedDifferently_iff O hp.nonempty hq.nonempty haction).mpr ⟨?_, hjoined q hother⟩
    intro hsame
    exact hjoined q hother (congrArg joinVars (eq_of_localArgument_eq hp hq halone hsame))
  · intro q hq hvalues hother
    refine (passedDifferently_iff O hp.nonempty hq.nonempty haction).mpr ⟨?_, hjoined q hother⟩
    intro hsame
    -- without separators in the values the text can be cut back into its items
    have hrest : restOf p = restOf q := by
      unfold restOf
      rw [if_neg hp.nonempty, if_neg hq.nonempty, hsame]
    refine hjoined q hother (congrArg joinVars (eq_of_unmistakable ?_ ?_ hrest))
    · intro kv hkv
      exact ⟨hp.names kv hkv, hvalues kv (List.mem_append_left _ hkv)⟩
    · intro kv hkv
      exact ⟨hq.names kv hkv, hvalues kv (List.mem_append_right _ hkv)⟩

end Passed

/-! ## Variables -/

/-- A playbook. -/
def playbookAction (path : Str) : ActionConfig NanFloat where
  defaultController := none
  parameters := none
  cooldownSeconds := none
  cooldownKeyParam := none
  severity := none
  playbook := some path
  script := none
  command := none
  kubeAction := none
  others := []

theorem isName_of_all {name : Str}
    (h : name.all (fun c => c ≠ 32 ∧ c ≠ 39 ∧ c ≠ 34 ∧ c ≠ 61) = true) : IsName name := by
  have hall : ∀ c ∈ name, c ≠ 32 ∧ c ≠ 39 ∧ c ≠ 34 ∧ c ≠ 61 := by simpa using h
  refine ⟨?_, ?_, ?_, ?_⟩ <;> intro hmem
  · exact (hall _ hmem).1 rfl
  · exact (hall _ hmem).2.1 rfl
  · exact (hall _ hmem).2.2.1 rfl
  · exact (hall _ hmem).2.2.2 rfl

/-- One variable without an apostrophe in its value is passed as another is not. -/
theorem extraVars_exact_example :
    PassedDifferently (PyVal NanFloat) (playbookAction (py "fix.yml")) (py "fix.yml")
      [(py "host", py "web-1")] [(py "host", py "web-2")] := by
  have hname : IsName (py "host") := isName_of_all (by decide)
  have hvars : ∀ v, IsVars [(py "host", v)] := by
    intro v
    refine ⟨by simp, ?_, by simp⟩
    intro kv hkv
    rw [List.mem_singleton.mp hkv]
    exact hname
  refine ((extraVars_exact (PyVal NanFloat) (hvars (py "web-1")) rfl).1).mpr
    ⟨_, _, rfl, ?_⟩ _ (hvars (py "web-2")) (by decide)
  intro first other rest hother hvalue
  have hmem : (39 : CodePoint) ∈ py "web-1" := by
    rw [hvalue]
    simp [separator]
  exact absurd hmem (by decide)

/-- A value with a separator sets a second variable. -/
theorem extraVars_collide :
    let p : Vars := [(py "a", py "x' b='y")]
    let q : Vars := [(py "a", py "x"), (py "b", py "y")]
    IsVars p ∧ IsVars q ∧ ¬ (joinVars p).Perm (joinVars q) ∧
      (runPlaybook (py "fix.yml") (paramsOf p) none : Effect NanFloat ExecResult) =
        runPlaybook (py "fix.yml") (paramsOf q) none := by
  refine ⟨⟨by simp, ?_, by simp⟩, ⟨by simp, ?_, by decide⟩, ?_, ?_⟩
  · intro kv hkv
    rw [List.mem_singleton.mp hkv]
    exact isName_of_all (by decide)
  · intro kv hkv
    simp only [List.mem_cons, List.not_mem_nil, or_false] at hkv
    rcases hkv with rfl | rfl
    · exact isName_of_all (by decide)
    · exact isName_of_all (by decide)
  · intro hperm
    exact absurd hperm.length_eq (by decide)
  · rfl

end AutoHeal.Exec
