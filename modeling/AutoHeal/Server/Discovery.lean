import AutoHeal.Exec.Local
import Mathlib.Data.List.Dedup
import Mathlib.Data.List.Sort

/-!
# Discovered actions

`discover_actions` of `src/actions.py`, the table of actions that `lifespan` of `src/main.py` makes
with it, and the check of `scripts/check_action_onboarding.py`. The check looks for names that a
playbook and a script share, but not for names that two playbooks or two scripts share
(`onboarding_exact`).
-/

namespace AutoHeal

/-! ## File names -/

/-- `s.endswith(suffixes)`. -/
def endsWith (s : Str) (suffixes : List Str) : Bool := suffixes.any fun suffix => suffix.isSuffixOf s

/-- `os.path.splitext(p)[0]`. Dots that a file name begins with are no separators. -/
def splitextRoot (p : Str) : Str :=
  match p.reverse.dropWhile fun c => c ≠ 46 ∧ c ≠ 47 with
  | [] => p
  | c :: before =>
    if c = 46 ∧ (before.takeWhile (· ≠ 47)).any (· ≠ 46) then before.reverse else p

example : splitextRoot (py "fix.tar.yml") = py "fix.tar" := by decide

example : splitextRoot (py ".yml") = py ".yml" := by decide

/-- `os.path.join(a, b)`. -/
def joinPath (a b : Str) : Str :=
  if b.head? = some 47 then b
  else if a = [] ∨ a.getLast? = some 47 then a ++ b
  else a ++ 47 :: b

namespace Server

variable {F : Type}

/-! ## Discovery -/

/-- A playbook by its name. -/
def isPlaybook (fname : Str) : Bool := endsWith fname [py ".yml", py ".yaml"]

/-- A script by its name. -/
def isScript (fname : Str) : Bool := endsWith fname [py ".sh", py ".py"]

/-- The action of a playbook. -/
def playbookEntry (fname : Str) : PyVal F :=
  .dict [(.str (py "playbook"), .str (py "playbooks/" ++ fname)),
    (.str (py "default_controller"), .str (py "ansible_local"))]

/-- The action of a script. -/
def scriptEntry (fname : Str) : PyVal F :=
  .dict [(.str (py "script"), .str (py "scripts/" ++ fname)),
    (.str (py "default_controller"), .str (py "local"))]

/-- The loop over the files of a directory. -/
def discoverIn (wanted : Str → Bool) (entry : Str → PyVal F) (actions : Dict F)
    (fnames : List Str) : Dict F :=
  fnames.foldl (fun actions fname =>
    if wanted fname then Dict.set (splitextRoot fname) (entry fname) actions else actions) actions

/-- `discover_actions`, for what `os.listdir` returns of the two directories. -/
def discoverActions (playbooks scripts : List Str) : Dict F :=
  discoverIn isScript scriptEntry (discoverIn isPlaybook playbookEntry [] playbooks) scripts

/-- `{**d, **e}`. -/
def unpack (d e : Dict F) : Dict F :=
  e.foldl (fun d kv => match kv.1 with
    | .str s => Dict.set s kv.2 d
    | k => d ++ [(k, kv.2)]) d

variable [PyRuntime F]

/-- The actions of the server: those of `config/actions.yaml` over those that are discovered. -/
def mergedActions (playbooks scripts : List Str) (config : PyVal F) : Py (Dict F) :=
  match (if truthy config then config else .dict []) with
  | .dict items =>
    match (Dict.get? (py "actions") items).getD (.dict []) with
    | .dict actions => .ok (unpack (discoverActions playbooks scripts) actions)
    | _ => .error .typeError
  | _ => .error .attributeError

/-! ## The check -/

/-- What the check reads: its root directory, what `os.listdir` returns of the two directories,
the configuration of the actions, and which paths are files. -/
structure Checkout (F : Type) where
  root : Str
  playbooks : List Str
  scripts : List Str
  config : PyVal F
  isfile : Str → Bool
  playbooks_nodup : playbooks.Nodup
  scripts_nodup : scripts.Nodup

omit [PyRuntime F] in
/-- The names of the playbooks. -/
def Checkout.playbookNames (t : Checkout F) : List Str :=
  (t.playbooks.filter isPlaybook).map splitextRoot

omit [PyRuntime F] in
/-- The names of the scripts. -/
def Checkout.scriptNames (t : Checkout F) : List Str := (t.scripts.filter isScript).map splitextRoot

omit [PyRuntime F] in
/-- The names that a playbook and a script share. -/
def Checkout.duplicates (t : Checkout F) : List Str :=
  (t.playbookNames.dedup.filter fun name => name ∈ t.scriptNames).insertionSort (· ≤ ·)

/-- A file that an action names, `field` being `playbook` or `script`. -/
def missingFile (t : Checkout F) (field : Str) (name : Key F) (entry : PyVal F) : Py (List Str) := do
  if ← contains field entry then
    match entry with
    | .dict items =>
      match (Dict.get? field items).getD .none with
      | .str path =>
        if t.isfile (joinPath t.root path) then .ok []
        else .ok [py "Mapped " ++ field ++ py " for action '" ++ Exec.keyStr name ++
          py "' not found: " ++ path]
      | _ => .error .typeError
    | _ => .error .typeError
  else .ok []

/-- The loop over the actions of the configuration. -/
def missingFiles (t : Checkout F) : Dict F → Py (List Str)
  | [] => .ok []
  | (name, entry) :: items => do
    let playbook ← missingFile t (py "playbook") name entry
    let script ← missingFile t (py "script") name entry
    return playbook ++ script ++ (← missingFiles t items)

/-- The errors that `main` reports. -/
def checkOnboarding (t : Checkout F) : Py (List Str) :=
  match t.config with
  | .dict config =>
    match (Dict.get? (py "actions") config).getD (.dict config) with
    | .dict configActions =>
      let duplicates : List Str :=
        if t.duplicates = [] then []
        else [py "Duplicate action names in playbooks and scripts: " ++
          PyRuntime.repr (.list (t.duplicates.map .str) : PyVal F)]
      (missingFiles t configActions).map (duplicates ++ ·)
    | _ => .error .attributeError
  | _ => .error .attributeError

/-! ## What is discovered -/

section Discover

variable {wanted : Str → Bool} {entry : Str → PyVal F}

omit [PyRuntime F] in
/-- Files of other names leave an action as it is. -/
theorem get?_discoverIn_of_notMem {fnames : List Str} {name : Str}
    (h : name ∉ (fnames.filter wanted).map splitextRoot) (d : Dict F) :
    Dict.get? name (discoverIn wanted entry d fnames) = Dict.get? name d := by
  induction fnames generalizing d with
  | nil => rfl
  | cons fname fnames ih =>
    show Dict.get? name (discoverIn wanted entry (if wanted fname then _ else d) fnames) = _
    by_cases hwanted : wanted fname = true
    · rw [List.filter_cons_of_pos hwanted, List.map_cons, List.mem_cons, not_or] at h
      rw [if_pos hwanted, ih h.2, Dict.get?_set, if_neg h.1]
    · rw [List.filter_cons_of_neg hwanted] at h
      rw [if_neg hwanted, ih h]

omit [PyRuntime F] in
/-- A file whose name no other file has is discovered. -/
theorem get?_discoverIn_of_mem {fnames : List Str}
    (hnodup : ((fnames.filter wanted).map splitextRoot).Nodup) {fname : Str} (hmem : fname ∈ fnames)
    (hwanted : wanted fname = true) (d : Dict F) :
    Dict.get? (splitextRoot fname) (discoverIn wanted entry d fnames) = some (entry fname) := by
  induction fnames generalizing d with
  | nil => cases hmem
  | cons first fnames ih =>
    show Dict.get? _ (discoverIn wanted entry (if wanted first then _ else d) fnames) = _
    by_cases hfirst : wanted first = true
    · rw [List.filter_cons_of_pos hfirst, List.map_cons, List.nodup_cons] at hnodup
      rw [if_pos hfirst]
      rcases List.mem_cons.mp hmem with rfl | hmem
      · rw [get?_discoverIn_of_notMem hnodup.1, Dict.get?_set, if_pos rfl]
      · exact ih hnodup.2 hmem _
    · rw [List.filter_cons_of_neg hfirst] at hnodup
      rw [if_neg hfirst]
      rcases List.mem_cons.mp hmem with rfl | hmem
      · exact absurd hwanted hfirst
      · exact ih hnodup hmem d

omit [PyRuntime F] in
/-- What is discovered has string keys, each once. -/
theorem keys_discoverIn {d : Dict F} (hkeys : d.keys.Nodup) (hstr : StrKeys d)
    (fnames : List Str) :
    (discoverIn wanted entry d fnames).keys.Nodup ∧ StrKeys (discoverIn wanted entry d fnames) := by
  induction fnames generalizing d with
  | nil => exact ⟨hkeys, hstr⟩
  | cons fname fnames ih =>
    show (discoverIn wanted entry (if wanted fname then _ else d) fnames).keys.Nodup ∧
      StrKeys (discoverIn wanted entry (if wanted fname then _ else d) fnames)
    by_cases hwanted : wanted fname = true
    · rw [if_pos hwanted]
      exact ih (Dict.keys_set_nodup hkeys _ _) (hstr.set _ _)
    · rw [if_neg hwanted]
      exact ih hkeys hstr

omit [PyRuntime F] in
/-- Without a name twice the order of the files does not matter. -/
theorem get?_discoverIn_perm {fnames fnames' : List Str}
    (hnodup : ((fnames.filter wanted).map splitextRoot).Nodup) (hperm : fnames'.Perm fnames)
    {d d' : Dict F} (hd : ∀ s, Dict.get? s d' = Dict.get? s d) (s : Str) :
    Dict.get? s (discoverIn wanted entry d' fnames') =
      Dict.get? s (discoverIn wanted entry d fnames) := by
  have hnames := (hperm.filter wanted).map splitextRoot
  by_cases hmem : s ∈ (fnames.filter wanted).map splitextRoot
  · rcases List.mem_map.mp hmem with ⟨fname, hfname, rfl⟩
    rcases List.mem_filter.mp hfname with ⟨hfname, hwanted⟩
    rw [get?_discoverIn_of_mem hnodup hfname hwanted,
      get?_discoverIn_of_mem (hnames.nodup_iff.mpr hnodup) (hperm.mem_iff.mpr hfname) hwanted]
  · rw [get?_discoverIn_of_notMem hmem,
      get?_discoverIn_of_notMem fun hmem' => hmem (hnames.mem_iff.mp hmem'), hd]

end Discover

/-! ## Tables with the same items -/

section Tables

omit [PyRuntime F]

/-- The string keys of a dict. -/
def strNames (d : Dict F) : List Str :=
  d.filterMap fun kv => match kv.1 with
    | .str s => some s
    | _ => none

theorem mem_strNames {d : Dict F} {s : Str} : s ∈ strNames d ↔ Key.str s ∈ d.keys := by
  unfold strNames Dict.keys
  rw [List.mem_filterMap, List.mem_map]
  constructor
  · rintro ⟨⟨k, v⟩, hkv, hname⟩
    cases k with
    | str t =>
      cases hname
      exact ⟨_, hkv, rfl⟩
    | _ => cases hname
  · rintro ⟨⟨k, v⟩, hkv, rfl⟩
    exact ⟨_, hkv, rfl⟩

theorem strNames_nodup_of_keys {d : Dict F} (h : d.keys.Nodup) : (strNames d).Nodup := by
  induction d with
  | nil => exact List.nodup_nil
  | cons kv d ih =>
    rcases kv with ⟨k, v⟩
    rcases List.nodup_cons.mp h with ⟨hk, hrest⟩
    cases k with
    | str s => exact List.nodup_cons.mpr ⟨fun hmem => hk (mem_strNames.mp hmem), ih hrest⟩
    | _ => exact ih hrest

/-- A key that is set is there once, among the other items. -/
theorem set_perm_cons {d : Dict F} (h : (strNames d).Nodup) (s : Str) (v : PyVal F) :
    (Dict.set s v d).Perm ((.str s, v) :: Dict.erase s d) := by
  induction d with
  | nil => exact List.Perm.refl _
  | cons kv d ih =>
    rcases kv with ⟨k, w⟩
    unfold Dict.set
    by_cases hk : k.isStr s = true
    -- the key is at the head: its names are distinct, so nothing else is erased
    · have hks := Key.isStr_iff.mp hk
      subst hks
      have hfresh : Key.str s ∉ Dict.keys d := by
        intro hmem
        exact (List.nodup_cons.mp h).1 (mem_strNames.mpr hmem)
      have herase : Dict.erase s ((Key.str s, w) :: d) = d := by
        unfold Dict.erase
        rw [List.filter_cons_of_neg (by simp [hk])]
        exact Dict.erase_of_notMem hfresh
      rw [if_pos hk, herase]
    · have herase : Dict.erase s ((k, w) :: d) = (k, w) :: Dict.erase s d := by
        unfold Dict.erase
        rw [List.filter_cons_of_pos (by simp [hk])]
      have hrest : (strNames d).Nodup := by
        unfold strNames at h ⊢
        cases k with
        | str t => exact (List.nodup_cons.mp h).2
        | _ => exact h
      rw [if_neg hk, herase]
      exact ((ih hrest).cons (k, w)).trans (List.Perm.swap _ _ _)

theorem strNames_perm {d e : Dict F} (h : d.Perm e) : (strNames d).Perm (strNames e) :=
  h.filterMap _

theorem strNames_set_nodup {d : Dict F} (h : (strNames d).Nodup) (s : Str) (v : PyVal F) :
    (strNames (Dict.set s v d)).Nodup := by
  have hperm := strNames_perm (set_perm_cons h s v)
  rw [hperm.nodup_iff]
  have hsub : (strNames (Dict.erase s d)).Sublist (strNames d) := List.filter_sublist.filterMap _
  refine List.nodup_cons.mpr ⟨fun hmem => ?_, h.sublist hsub⟩
  have hgone : Dict.get? s (Dict.erase s d) = none := by
    rw [Dict.get?_erase]
    simp
  exact (Dict.get?_eq_none_iff.mp hgone) (mem_strNames.mp hmem)

/-- The order of the items below does not matter for the items of both. -/
theorem unpack_perm {d d' : Dict F} (hnodup : (strNames d).Nodup) (h : d'.Perm d) (e : Dict F) :
    (unpack d' e).Perm (unpack d e) := by
  induction e generalizing d d' with
  | nil => exact h
  | cons kv e ih =>
    rcases kv with ⟨k, v⟩
    cases k with
    | str s =>
      have hset : (Dict.set s v d').Perm (Dict.set s v d) := by
        have hnodup' := (strNames_perm h).nodup_iff.mpr hnodup
        have herase : (Dict.erase s d').Perm (Dict.erase s d) := h.filter _
        exact ((set_perm_cons hnodup' s v).trans (herase.cons _)).trans
          (set_perm_cons hnodup s v).symm
      exact ih (strNames_set_nodup hnodup s v) hset
    | _ =>
      refine ih ?_ (h.append_right _)
      unfold strNames at hnodup ⊢
      rw [List.filterMap_append]
      simpa using hnodup

/-- The same outcome, up to the order of the items. -/
def SameTable : Py (Dict F) → Py (Dict F) → Prop
  | .ok d, .ok e => d.Perm e
  | .error a, .error b => a = b
  | _, _ => False

end Tables

/-! ## What the check misses -/

variable {t : Checkout F}

/-- Every file that is discovered has its own action, and the table of the actions does not depend
on the order in which the files are listed. -/
structure Unambiguous (t : Checkout F) : Prop where
  playbook : ∀ fname ∈ t.playbooks, isPlaybook fname = true →
    Dict.get? (splitextRoot fname) (discoverActions t.playbooks t.scripts) =
      some (playbookEntry fname : PyVal F)
  script : ∀ fname ∈ t.scripts, isScript fname = true →
    Dict.get? (splitextRoot fname) (discoverActions t.playbooks t.scripts) =
      some (scriptEntry fname : PyVal F)
  table : ∀ playbooks scripts, playbooks.Perm t.playbooks → scripts.Perm t.scripts →
    SameTable (mergedActions playbooks scripts t.config)
      (mergedActions t.playbooks t.scripts t.config)

/-- A check without errors has found no name that a playbook and a script share. -/
theorem notMem_scriptNames (hcheck : checkOnboarding t = .ok []) {name : Str}
    (hname : name ∈ t.playbookNames) : name ∉ t.scriptNames := by
  intro hscript
  have hduplicate : name ∈ t.duplicates := by
    unfold Checkout.duplicates
    rw [(List.perm_insertionSort _ _).mem_iff, List.mem_filter, List.mem_dedup]
    exact ⟨hname, decide_eq_true hscript⟩
  have hne : t.duplicates ≠ [] := List.ne_nil_of_mem hduplicate
  unfold checkOnboarding at hcheck
  split at hcheck
  · split at hcheck
    · simp only [if_neg hne] at hcheck
      rcases hmissing : missingFiles t _ with e | missing
      · rw [hmissing] at hcheck
        cases hcheck
      · rw [hmissing] at hcheck
        cases hcheck
    · cases hcheck
  · cases hcheck

/-- Names that stand for one file each. -/
theorem nodup_names {fnames : List Str} {wanted : Str → Bool} (hnodup : fnames.Nodup)
    (hinj : ∀ f ∈ fnames, wanted f = true → ∀ g ∈ fnames, wanted g = true →
      splitextRoot f = splitextRoot g → f = g) :
    ((fnames.filter wanted).map splitextRoot).Nodup := by
  rw [List.nodup_map_iff_inj_on (hnodup.filter _)]
  intro f hf g hg hname
  rcases List.mem_filter.mp hf with ⟨hf, hwantedf⟩
  rcases List.mem_filter.mp hg with ⟨hg, hwantedg⟩
  exact hinj f hf hwantedf g hg hwantedg hname

omit [PyRuntime F] in
theorem playbookEntry_inj {f g : Str} (h : (playbookEntry f : PyVal F) = playbookEntry g) :
    f = g := by
  unfold playbookEntry at h
  simpa using h

omit [PyRuntime F] in
theorem scriptEntry_inj {f g : Str} (h : (scriptEntry f : PyVal F) = scriptEntry g) : f = g := by
  unfold scriptEntry at h
  simpa using h

/-- Where the check reports no error, every file has its own action and the order does not matter
exactly when no two playbooks and no two scripts have the same name. -/
theorem onboarding_exact (hcheck : checkOnboarding t = .ok []) :
    Unambiguous t ↔ t.playbookNames.Nodup ∧ t.scriptNames.Nodup := by
  constructor
  · intro h
    constructor
    · refine nodup_names t.playbooks_nodup fun f hf hwantedf g hg hwantedg hname => ?_
      have hentry := h.playbook f hf hwantedf
      rw [hname, h.playbook g hg hwantedg] at hentry
      exact (playbookEntry_inj (Option.some.inj hentry)).symm
    · refine nodup_names t.scripts_nodup fun f hf hwantedf g hg hwantedg hname => ?_
      have hentry := h.script f hf hwantedf
      rw [hname, h.script g hg hwantedg] at hentry
      exact (scriptEntry_inj (Option.some.inj hentry)).symm
  · rintro ⟨hplaybooks, hscripts⟩
    refine ⟨fun fname hmem hwanted => ?_, fun fname hmem hwanted => ?_, ?_⟩
    · -- no script has the name of a playbook
      have hname : splitextRoot fname ∈ t.playbookNames :=
        List.mem_map_of_mem (List.mem_filter.mpr ⟨hmem, hwanted⟩)
      unfold discoverActions
      rw [get?_discoverIn_of_notMem (notMem_scriptNames hcheck hname),
        get?_discoverIn_of_mem hplaybooks hmem hwanted]
    · exact get?_discoverIn_of_mem hscripts hmem hwanted _
    · intro playbooks scripts hperm hperm'
      have hempty : (Dict.keys ([] : Dict F)).Nodup ∧ StrKeys ([] : Dict F) :=
        ⟨List.nodup_nil, by intro kv hkv; cases hkv⟩
      have hkeys : ∀ playbooks scripts : List Str,
          (discoverActions playbooks scripts : Dict F).keys.Nodup ∧
            StrKeys (discoverActions playbooks scripts : Dict F) := by
        intro playbooks scripts
        have hfirst := @keys_discoverIn F isPlaybook playbookEntry [] hempty.1 hempty.2 playbooks
        exact keys_discoverIn hfirst.1 hfirst.2 scripts
      have hsame : (discoverActions playbooks scripts : Dict F).Perm
          (discoverActions t.playbooks t.scripts) := by
        refine Dict.perm_of_get? (hkeys _ _).1 (hkeys _ _).1 (hkeys _ _).2 (hkeys _ _).2 ?_
        exact get?_discoverIn_perm hscripts hperm'
          (get?_discoverIn_perm hplaybooks hperm fun _ => rfl)
      unfold mergedActions
      split
      · split
        · exact unpack_perm (strNames_nodup_of_keys (hkeys _ _).1) hsame _
        · rfl
      · rfl

/-! ## A playbook in two files -/

/-- A repository with some playbooks and an empty configuration. -/
def exampleCheckout (playbooks : List Str) (h : playbooks.Nodup) : Checkout NanFloat where
  root := py "/srv/app"
  playbooks := playbooks
  scripts := [py "clean.sh"]
  config := .dict [(.str (py "actions"), .dict [])]
  isfile _ := true
  playbooks_nodup := h
  scripts_nodup := List.nodup_singleton _

/-- Playbooks and scripts that all have different names. -/
theorem onboarding_exact_example : Unambiguous
    { exampleCheckout [py "fix.yml", py "restart.yaml", py "notes.txt"] (by decide) with
      scripts := [py "purge.py", py "clean.sh"], scripts_nodup := by decide } :=
  (onboarding_exact rfl).mpr ⟨by decide, by decide⟩

/-- Two playbooks of one name: the check has no error, and the order decides which one is run. -/
theorem onboarding_clash :
    let t := exampleCheckout [py "fix.yml", py "fix.yaml"] (by decide)
    checkOnboarding t = .ok [] ∧
      Dict.get? (py "fix") (discoverActions [py "fix.yml", py "fix.yaml"] t.scripts : Dict NanFloat) =
        some (playbookEntry (py "fix.yaml")) ∧
      Dict.get? (py "fix") (discoverActions [py "fix.yaml", py "fix.yml"] t.scripts : Dict NanFloat) =
        some (playbookEntry (py "fix.yml")) ∧
      ¬ Unambiguous t := by
  refine ⟨rfl, rfl, rfl, fun h => ?_⟩
  have hentry := h.playbook (py "fix.yml") (by decide) (by decide)
  have hlast : Dict.get? (py "fix") (discoverActions [py "fix.yml", py "fix.yaml"]
    [py "clean.sh"] : Dict NanFloat) = some (playbookEntry (py "fix.yaml")) := rfl
  have hboth := hlast.symm.trans hentry
  exact absurd (playbookEntry_inj (Option.some.inj hboth)) (by decide)

end Server

end AutoHeal
