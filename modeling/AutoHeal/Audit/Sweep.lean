import AutoHeal.Audit.Rotate

/-!
# The retention sweep

What the sweep of a rotation deletes is compared with the archives that have expired:
`sweep_exact`. It takes every sibling of the log for an archive, whatever comes after the dot.
-/

namespace AutoHeal.Audit

variable {F : Type}

/-- A name that a rotation gives to an archive. -/
def IsRotated (c : AuditChain F) (name : Str) : Prop :=
  ∃ (t : DateTime) (suffix : ℕ), name = archiveName c.base t.stamp suffix

theorem IsRotated.isSibling {c : AuditChain F} {name : Str} (h : IsRotated c name) :
    IsSibling c name := by
  rcases h with ⟨t, suffix, rfl⟩
  have hprefix : (c.base ++ py ".") <+: archiveName c.base t.stamp suffix :=
    ⟨_, (List.append_assoc _ _ _).symm⟩
  exact ⟨IsArchive.ne_base hprefix, hprefix⟩

variable [PyRuntime F] [PyDates F]

/-- `now - timedelta(days=retention_days)`. -/
def cutoffOf (c : AuditChain F) (env : Env) : Py DateTime :=
  (timedeltaDays (field (py "retention_days") c.retention)).bind env.nowCutoff.sub

omit [PyRuntime F] in
/-- The file is older than the archives are kept. -/
def Expired (c : AuditChain F) (env : Env) (name : Str) : Prop :=
  ∃ cutoff t, cutoffOf c env = .ok cutoff ∧ env.mtime name = some (.ok t) ∧
    t.micros < cutoff.micros

/-- The files that should be deleted. -/
def Doomed (c : AuditChain F) (env : Env) (dir : Dir) (name : Str) : Prop :=
  name ∈ dir ∧ IsRotated c name ∧ Expired c env name ∧ env.removable name = true

/-- The sweep deletes these files, leaves all others as they are, and names each of them once. -/
def SweepsExactly (c : AuditChain F) (env : Env) (dir : Dir) : Prop :=
  ∃ swept deleted, sweepRetentionLocked c env dir = (swept, .ok deleted) ∧ deleted.Nodup ∧
    (∀ name, name ∈ deleted ↔ Doomed c env dir name) ∧
    ∀ name, swept.lookup name = if name ∈ deleted then none else dir.lookup name

/-! ## What is deleted -/

section Loop

variable {c : AuditChain F} {env : Env} {cutoff : DateTime}

omit [PyRuntime F] [PyDates F] in
/-- What one step deletes. -/
theorem sweepOne_deleted {dir dir' : Dir} {deleted deleted' : List Str} {filename : Str}
    (h : sweepOne c env cutoff dir deleted filename = (dir', .ok deleted')) :
    (dir' = dir.erase filename ∧ deleted' = deleted ++ [filename] ∧ filename ∈ dir ∧
        IsSibling c filename ∧ env.removable filename = true ∧
        ∃ t, env.mtime filename = some (.ok t) ∧ t.micros < cutoff.micros) ∨
      (dir' = dir ∧ deleted' = deleted ∧ ¬ (filename ∈ dir ∧ IsSibling c filename ∧
        env.removable filename = true ∧
        ∃ t, env.mtime filename = some (.ok t) ∧ t.micros < cutoff.micros)) := by
  unfold sweepOne at h
  -- the live file and names without its prefix are passed over
  split at h
  · next hname =>
    cases h
    refine Or.inr ⟨rfl, rfl, ?_⟩
    rintro ⟨-, hsibling, -⟩
    rcases hname with hname | hname
    · exact hsibling.1 hname
    · exact hname hsibling.2
  · next hname =>
    rw [not_or, not_not] at hname
    split at h
    -- a file gone before `getmtime` is passed over as well
    · next hnone =>
      cases h
      refine Or.inr ⟨rfl, rfl, ?_⟩
      rintro ⟨-, -, -, t, hmtime, -⟩
      rw [hnone] at hmtime
      cases hmtime
    -- any other failure of `getmtime` leaves the loop
    · cases h
    · next mtime hmtime =>
      split at h
      · next hexpired =>
        cases h
        exact Or.inl ⟨rfl, rfl, hexpired.2.1, hname, hexpired.2.2, mtime, hmtime, hexpired.1⟩
      · next hkept =>
        cases h
        refine Or.inr ⟨rfl, rfl, ?_⟩
        rintro ⟨hmem, -, hremovable, t, ht, hold⟩
        rw [hmtime] at ht
        cases ht
        exact hkept ⟨hold, hmem, hremovable⟩

omit [PyRuntime F] [PyDates F] in
/-- What the loop deletes. -/
theorem sweepFiles_deleted {candidates : List Str} {dir dir' : Dir} {deleted deleted' : List Str}
    (h : sweepFiles c env cutoff candidates dir deleted = (dir', .ok deleted')) :
    ∃ more, deleted' = deleted ++ more ∧ more.Nodup ∧ ∀ name, name ∈ more ↔
      name ∈ candidates ∧ name ∈ dir ∧ IsSibling c name ∧ env.removable name = true ∧
        ∃ t, env.mtime name = some (.ok t) ∧ t.micros < cutoff.micros := by
  induction candidates generalizing dir deleted with
  | nil =>
    cases h
    exact ⟨[], by simp, List.nodup_nil, by simp⟩
  | cons filename candidates ih =>
    unfold sweepFiles at h
    split at h
    · cases h
    · next dir₁ deleted₁ hone =>
      rcases ih h with ⟨more, rfl, hnodup, hmore⟩
      rcases sweepOne_deleted hone with ⟨rfl, rfl, hgone⟩ | ⟨rfl, rfl, hkept⟩
      · refine ⟨filename :: more, by simp, ?_, fun name => ?_⟩
        -- once deleted, a name is not in the directory and not deleted again
        · refine List.nodup_cons.mpr ⟨fun hmem => ?_, hnodup⟩
          have hagain := ((hmore filename).mp hmem).2.1
          rw [AList.mem_erase] at hagain
          exact hagain.1 rfl
        · rw [List.mem_cons, hmore, List.mem_cons, AList.mem_erase]
          by_cases hname : name = filename
          · subst hname
            simp only [true_or, true_and, true_iff]
            exact hgone
          · simp [hname]
      · refine ⟨more, rfl, hnodup, fun name => ?_⟩
        rw [hmore, List.mem_cons]
        constructor
        · rintro ⟨hmem, hrest⟩
          exact ⟨Or.inr hmem, hrest⟩
        · rintro ⟨rfl | hmem, hrest⟩
          · exact absurd hrest hkept
          · exact ⟨hmem, hrest⟩

end Loop

/-! ## The sweep of a listed directory -/

variable {c : AuditChain F} {env : Env} {dir : Dir}

/-- A sweep that returns deletes the expired siblings of the log that can be removed. -/
theorem sweep_deleted (hdays : truthy (field (py "retention_days") c.retention) = true)
    {names : List Str} (hlisting : env.listing = some names) (hall : ∀ name ∈ dir, name ∈ names)
    {swept : Dir} {deleted : List Str}
    (h : sweepRetentionLocked c env dir = (swept, .ok deleted)) :
    deleted.Nodup ∧ ∀ name, name ∈ deleted ↔
      name ∈ dir ∧ IsSibling c name ∧ Expired c env name ∧ env.removable name = true := by
  unfold sweepRetentionLocked at h
  simp only [hdays, if_true, hlisting] at h
  split at h
  · cases h
  · next cutoff hcutoff =>
    rcases sweepFiles_deleted h with ⟨more, rfl, hnodup, hmore⟩
    refine ⟨hnodup, fun name => ?_⟩
    rw [hmore]
    constructor
    · rintro ⟨-, hmem, hsibling, hremovable, t, ht, hold⟩
      exact ⟨hmem, hsibling, ⟨cutoff, t, hcutoff, ht, hold⟩, hremovable⟩
    · rintro ⟨hmem, hsibling, ⟨cutoff', t, hcutoff', ht, hold⟩, hremovable⟩
      unfold cutoffOf at hcutoff'
      rw [hcutoff] at hcutoff'
      cases hcutoff'
      exact ⟨hall name hmem, hmem, hsibling, hremovable, t, ht, hold⟩

/-- The sweep is exact when the cutoff and the ages can be computed and every expired sibling of
the log that can be removed is an archive, and only then. -/
theorem sweep_exact (hdays : truthy (field (py "retention_days") c.retention) = true)
    {names : List Str} (hlisting : env.listing = some names) (hall : ∀ name ∈ dir, name ∈ names) :
    SweepsExactly c env dir ↔ CutoffComputable c env ∧
      ∀ name ∈ dir, IsSibling c name → Expired c env name → env.removable name = true →
        IsRotated c name := by
  constructor
  · rintro ⟨swept, deleted, hsweep, -, hdeleted, -⟩
    refine ⟨cutoff_of_swept hsweep, fun name hmem hsibling hexpired hremovable => ?_⟩
    have hgone := ((sweep_deleted hdays hlisting hall hsweep).2 name).mpr
      ⟨hmem, hsibling, hexpired, hremovable⟩
    exact ((hdeleted name).mp hgone).2.1
  · rintro ⟨hcutoff, harchives⟩
    rcases exists_swept hcutoff dir with ⟨swept, deleted, hsweep, hswept⟩
    rcases sweep_deleted hdays hlisting hall hsweep with ⟨hnodup, hdeleted⟩
    refine ⟨swept, deleted, hsweep, hnodup, fun name => ?_, hswept.lookup⟩
    rw [hdeleted]
    constructor
    · rintro ⟨hmem, hsibling, hexpired, hremovable⟩
      exact ⟨hmem, harchives name hmem hsibling hexpired hremovable, hexpired, hremovable⟩
    · rintro ⟨hmem, hrotated, hexpired, hremovable⟩
      exact ⟨hmem, hrotated.isSibling, hexpired, hremovable⟩

/-! ## Archives kept for 30 days -/

/-- Archives are kept for 30 days. -/
def thirtyDays : AuditChain NanFloat := exampleChain [(.str (py "retention_days"), .int 30)]

/-- A directory with one file, which is as old as can be. -/
def oldFileEnv (name : Str) : Env :=
  { exampleEnv with listing := some [name], mtime := fun _ => some (.ok ⟨0, by decide⟩) }

def oldFileDir (name : Str) : Dir := (∅ : Dir).insert name []

/-- The cutoff of a sweep is a date, 30 days ago. -/
theorem exists_cutoff_thirtyDays : ∃ cutoff, cutoffOf thirtyDays exampleEnv = .ok cutoff ∧
    cutoff.micros < exampleEnv.nowCutoff.micros := by
  have hdays : timedeltaDays (field (py "retention_days") thirtyDays.retention) =
      .ok (30 * dayMicros) := rfl
  have hdate : 0 ≤ (exampleEnv.nowCutoff.micros : Int) - 30 * dayMicros ∧
      ((exampleEnv.nowCutoff.micros : Int) - 30 * dayMicros).toNat < maxMicros := by decide
  have hearlier : ((exampleEnv.nowCutoff.micros : Int) - 30 * dayMicros).toNat <
      exampleEnv.nowCutoff.micros := by decide
  unfold cutoffOf
  simp only [hdays, Except.bind, DateTime.sub, hdate, and_self, dite_true]
  exact ⟨_, rfl, hearlier⟩

/-- An archive that has expired. -/
def oldArchive : Str := archiveName (py "audit.log") exampleEnv.nowStamp.stamp 0

/-- And one that has not. -/
def newArchive : Str := archiveName (py "audit.log") exampleEnv.nowStamp.stamp 1

/-- They are there with the live log, a new copy of it, and another log. -/
def exampleNames : List Str :=
  [oldArchive, newArchive, py "audit.log", py "audit.log.bak", py "access.log"]

/-- A moment at which the second archive and the copy are new and the rest is as old as can be. -/
def sweepEnv : Env :=
  { exampleEnv with
    listing := some exampleNames
    mtime := fun name => if name ∈ [newArchive, py "audit.log.bak"] then
      some (.ok exampleEnv.nowCutoff) else some (.ok ⟨0, by decide⟩) }

theorem mtime_sweepEnv (name : Str) : sweepEnv.mtime name =
    if name ∈ [newArchive, py "audit.log.bak"] then some (.ok exampleEnv.nowCutoff)
    else some (.ok ⟨0, by decide⟩) := rfl

def sweepDir : Dir := exampleNames.foldl (fun dir name => dir.insert name []) ∅

theorem mem_sweepDir {name : Str} (h : name ∈ sweepDir) : name ∈ exampleNames := by
  unfold sweepDir exampleNames at h
  simp only [List.foldl_cons, List.foldl_nil, AList.mem_insert] at h
  unfold exampleNames
  simp only [List.mem_cons, List.not_mem_nil, or_false]
  rcases h with h | h | h | h | h | h
  · exact Or.inr (Or.inr (Or.inr (Or.inr h)))
  · exact Or.inr (Or.inr (Or.inr (Or.inl h)))
  · exact Or.inr (Or.inr (Or.inl h))
  · exact Or.inr (Or.inl h)
  · exact Or.inl h
  · exact absurd h (AList.notMem_empty name)

/-- The expired archive is deleted, and nothing else. -/
theorem sweep_exact_example : SweepsExactly thirtyDays sweepEnv sweepDir := by
  rcases exists_cutoff_thirtyDays with ⟨cutoff, hcutoff, hearlier⟩
  refine (sweep_exact rfl rfl fun name => mem_sweepDir).mpr ⟨?_, ?_⟩
  · intro _
    refine ⟨⟨cutoff, hcutoff⟩, fun candidates _ name _ _ e he => ?_⟩
    rw [mtime_sweepEnv] at he
    split_ifs at he
    all_goals cases he
  · intro name hname hsibling hexpired _
    have hmem := mem_sweepDir hname
    unfold exampleNames at hmem
    simp only [List.mem_cons, List.not_mem_nil, or_false] at hmem
    rcases hmem with rfl | rfl | rfl | rfl | rfl
    · exact ⟨exampleEnv.nowStamp, 0, rfl⟩
    · exact ⟨exampleEnv.nowStamp, 1, rfl⟩
    · exact absurd rfl hsibling.1
    · -- the copy is too new
      rcases hexpired with ⟨cutoff', t, hcutoff', ht, hold⟩
      have hsame : cutoff' = cutoff := Except.ok.inj (hcutoff'.symm.trans hcutoff)
      have hnew : t = exampleEnv.nowCutoff := by
        rw [mtime_sweepEnv, if_pos (by simp)] at ht
        exact (Except.ok.inj (Option.some.inj ht)).symm
      rw [hsame, hnew] at hold
      omega
    · exact absurd hsibling.2 (by decide)

/-- A copy that somebody made of the log is deleted as well. -/
theorem sweep_backup : (∃ swept, sweepRetentionLocked thirtyDays (oldFileEnv (py "audit.log.bak"))
      (oldFileDir (py "audit.log.bak")) = (swept, .ok [py "audit.log.bak"])) ∧
    ¬ IsRotated thirtyDays (py "audit.log.bak") ∧
    ¬ SweepsExactly thirtyDays (oldFileEnv (py "audit.log.bak")) (oldFileDir (py "audit.log.bak")) := by
  have hsweep : ∃ swept, sweepRetentionLocked thirtyDays (oldFileEnv (py "audit.log.bak"))
      (oldFileDir (py "audit.log.bak")) = (swept, .ok [py "audit.log.bak"]) := ⟨_, rfl⟩
  have hname : ¬ IsRotated thirtyDays (py "audit.log.bak") := by
    rintro ⟨t, suffix, hname⟩
    have hletter : (90 : CodePoint) ∈ py "audit.log.bak" := by
      have hzulu : cp 'Z' = 90 := rfl
      rw [hname]
      simp [archiveName, DateTime.stamp, py, hzulu]
    exact absurd hletter (by decide)
  refine ⟨hsweep, hname, ?_⟩
  rintro ⟨swept, deleted, hswept, -, hdeleted, -⟩
  rcases hsweep with ⟨swept', hsweep⟩
  rw [hsweep] at hswept
  cases hswept
  exact hname ((hdeleted _).mp List.mem_cons_self).2.1

end AutoHeal.Audit
