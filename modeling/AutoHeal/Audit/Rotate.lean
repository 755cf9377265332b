import AutoHeal.Audit.Written

/-!
# Rotation

An append to a log that has grown too large or too old renames the file to a name no
file has (`archivedName_notMem`), deletes expired archives and begins the new file with
a marker that names what was deleted. `reachable_kept` follows the log through any run
of appends in which the cutoff of every sweep can be computed: nothing is lost,
duplicated or mis-linked. Where it cannot be computed the append raises between the
renaming and the marker.
-/

namespace AutoHeal.Audit

variable {F : Type}

/-! ## Names of archives -/

theorem archiveName_injective (base stamp : Str) : Function.Injective (archiveName base stamp) := by
  intro m n h
  unfold archiveName at h
  have htail := List.append_cancel_left h
  have hdash : ∀ k : Nat, py "-" ++ natText k ≠ [] := fun k => by simp [natText_ne_nil]
  by_cases hm : m = 0
  · by_cases hn : n = 0
    · rw [hm, hn]
    · rw [if_pos hm, if_neg hn] at htail
      exact absurd htail.symm (hdash n)
  · by_cases hn : n = 0
    · rw [if_neg hm, if_pos hn] at htail
      exact absurd htail (hdash m)
    · rw [if_neg hm, if_neg hn] at htail
      exact natText_injective (List.append_cancel_left htail)

/-- The loop stops at a free name, or all the names it tried are taken. -/
theorem freeSuffix_spec (dir : Dir) (base stamp : Str) (fuel suffix : Nat) :
    archiveName base stamp (freeSuffix dir base stamp fuel suffix) ∉ dir ∨
      ∀ i ≤ fuel, archiveName base stamp (suffix + i) ∈ dir := by
  induction fuel generalizing suffix with
  | zero =>
    by_cases h : archiveName base stamp suffix ∈ dir
    · right
      intro i hi
      rwa [Nat.le_zero.mp hi]
    · exact Or.inl h
  | succ fuel ih =>
    unfold freeSuffix
    by_cases h : archiveName base stamp suffix ∈ dir
    · rw [if_pos h]
      rcases ih (suffix + 1) with hfree | htaken
      · exact Or.inl hfree
      · right
        intro i hi
        rcases i with _ | i
        · exact h
        · rw [Nat.add_comm i 1, ← Nat.add_assoc]
          exact htaken i (by omega)
    · rw [if_neg h]
      exact Or.inl h

/-- A rotation never overwrites a file: more names are tried than there are files. -/
theorem archivedName_notMem (c : AuditChain F) (env : Env) (dir : Dir) :
    archivedName c env dir ∉ dir := by
  unfold archivedName
  rcases freeSuffix_spec dir c.base env.nowStamp.stamp dir.keys.length 0 with hfree | htaken
  · exact hfree
  · exfalso
    have hnodup : ((List.range (dir.keys.length + 1)).map
        (archiveName c.base env.nowStamp.stamp)).Nodup :=
      List.nodup_range.map (archiveName_injective _ _)
    have hsub : (List.range (dir.keys.length + 1)).map (archiveName c.base env.nowStamp.stamp) ⊆
        dir.keys := by
      intro name hname
      rcases List.mem_map.mp hname with ⟨i, hi, rfl⟩
      have htaken' := htaken i (by rw [List.mem_range] at hi; omega)
      rwa [Nat.zero_add] at htaken'
    have hlen := (List.subperm_of_subset hnodup hsub).length_le
    rw [List.length_map, List.length_range] at hlen
    omega

/-- The file belongs to the log: its name begins with the name of the live file and a
dot. -/
def IsArchive (c : AuditChain F) (name : Str) : Prop := (c.base ++ py ".") <+: name ∧ NoHigh name

theorem IsArchive.ne_base {c : AuditChain F} {name : Str} (h : (c.base ++ py ".") <+: name) :
    name ≠ c.base := by
  rintro rfl
  have hlen := h.length_le
  rw [List.length_append] at hlen
  have hdot : (py ".").length = 1 := rfl
  omega

theorem isArchive_archivedName (c : AuditChain F) (env : Env) (dir : Dir) :
    IsArchive c (archivedName c env dir) := by
  unfold archivedName archiveName
  refine ⟨⟨_, (List.append_assoc _ _ _).symm⟩, ?_⟩
  refine ((c.base_plain.append (Printable.noHigh (by decide))).append
    (printable_stamp _).noHigh).append ?_
  split
  · exact printable_nil.noHigh
  · exact (Printable.noHigh (by decide)).append (printable_natText _).noHigh

/-! ## The sweep -/

/-- What a sweep leaves behind: all files but those it names, which are archives. -/
structure Swept (c : AuditChain F) (dir swept : Dir) (deleted : List Str) : Prop where
  lookup : ∀ name, swept.lookup name = if name ∈ deleted then none else dir.lookup name
  named : ∀ name ∈ deleted, (c.base ++ py ".") <+: name ∧ name ∈ dir

theorem swept_refl (c : AuditChain F) (dir : Dir) : Swept c dir dir [] :=
  ⟨fun _ => (if_neg List.not_mem_nil).symm, fun _ h => absurd h List.not_mem_nil⟩

theorem Swept.one {c : AuditChain F} {dir swept dir' : Dir} {deleted deleted' : List Str}
    (h : Swept c dir swept deleted) {env : Env} {cutoff : DateTime} {filename : Str}
    (hone : sweepOne c env cutoff swept deleted filename = (dir', .ok deleted')) :
    Swept c dir dir' deleted' := by
  unfold sweepOne at hone
  split at hone
  · cases hone
    exact h
  · next hname =>
    rw [not_or, not_not] at hname
    split at hone
    · cases hone
      exact h
    · cases hone
    · split at hone
      · next hexpired =>
        cases hone
        -- it is deleted now, so it had not been before and was in the directory from the start
        have hmem : filename ∈ swept := hexpired.2.1
        refine ⟨fun name => ?_, fun name hmem' => ?_⟩
        · by_cases hne : name = filename
          · rw [hne, AList.lookup_erase, if_pos (by simp)]
          · rw [AList.lookup_erase_ne hne, h.lookup]
            simp [hne]
        · rcases List.mem_append.mp hmem' with hmem' | hmem'
          · exact h.named name hmem'
          · rw [List.mem_singleton.mp hmem']
            refine ⟨hname.2, AList.lookup_isSome.mp ?_⟩
            rw [← AList.lookup_isSome, h.lookup] at hmem
            split at hmem
            · cases hmem
            · exact hmem
      · cases hone
        exact h

/-- The names whose ages a sweep looks at. -/
def IsSibling (c : AuditChain F) (name : Str) : Prop := name ≠ c.base ∧ (c.base ++ py ".") <+: name

/-- The age of every file that is looked at is a date, or cannot be had. -/
def AgesComputable (c : AuditChain F) (env : Env) (candidates : List Str) : Prop :=
  ∀ name ∈ candidates, IsSibling c name → ∀ e, env.mtime name ≠ some (.error e)

theorem exists_sweepOne_iff {c : AuditChain F} {env : Env} {cutoff : DateTime} {dir : Dir}
    {deleted : List Str} {filename : Str} :
    (∃ dir' deleted', sweepOne c env cutoff dir deleted filename = (dir', .ok deleted')) ↔
      (IsSibling c filename → ∀ e, env.mtime filename ≠ some (.error e)) := by
  unfold sweepOne IsSibling
  split
  · next hname =>
    refine iff_of_true ⟨dir, deleted, rfl⟩ fun hsibling => ?_
    rcases hname with hname | hname
    · exact absurd hname hsibling.1
    · exact absurd hsibling.2 hname
  · next hname =>
    rw [not_or, not_not] at hname
    split
    · next hnone =>
      refine iff_of_true ⟨dir, deleted, rfl⟩ fun _ e he => ?_
      rw [hnone] at he
      cases he
    · next e herror =>
      refine iff_of_false (by rintro ⟨_, _, ⟨⟩⟩) fun h => h hname e herror
    · next mtime hmtime =>
      refine iff_of_true ?_ fun _ e he => ?_
      · split
        · exact ⟨_, _, rfl⟩
        · exact ⟨_, _, rfl⟩
      · rw [hmtime] at he
        cases he

/-- A sweep whose ages can be computed returns. -/
theorem Swept.all {c : AuditChain F} {dir : Dir} {env : Env} {cutoff : DateTime}
    {candidates : List Str} (hages : AgesComputable c env candidates) {swept : Dir}
    {deleted : List Str} (h : Swept c dir swept deleted) :
    ∃ swept' deleted', sweepFiles c env cutoff candidates swept deleted = (swept', .ok deleted') ∧
      Swept c dir swept' deleted' := by
  induction candidates generalizing swept deleted with
  | nil => exact ⟨swept, deleted, rfl, h⟩
  | cons filename candidates ih =>
    rcases exists_sweepOne_iff.mpr (hages filename List.mem_cons_self) with
      ⟨swept', deleted', hone⟩
    unfold sweepFiles
    rw [hone]
    exact ih (fun name hname => hages name (List.mem_cons_of_mem _ hname)) (h.one hone)

theorem agesComputable_of_sweepFiles {c : AuditChain F} {env : Env} {cutoff : DateTime}
    {candidates : List Str} {dir dir' : Dir} {deleted deleted' : List Str}
    (h : sweepFiles c env cutoff candidates dir deleted = (dir', .ok deleted')) :
    AgesComputable c env candidates := by
  induction candidates generalizing dir deleted with
  | nil =>
    intro name hname
    cases hname
  | cons filename candidates ih =>
    unfold sweepFiles at h
    split at h
    · cases h
    · next hone =>
      intro name hname
      rcases List.mem_cons.mp hname with rfl | hname
      · exact exists_sweepOne_iff.mp ⟨_, _, hone⟩
      · exact ih h name hname

theorem jsonValue_rotationMarker (c : AuditChain F) (env : Env) {archive : Str}
    {deleted : List Str} (harchive : NoHigh archive) (hdeleted : ∀ name ∈ deleted, NoHigh name) :
    JsonValue (.dict (rotationMarker c env archive deleted)) := by
  have hnames : JsonValue (.list (deleted.map .str) : PyVal F) := by
    refine .list fun v hv => ?_
    rcases List.mem_map.mp hv with ⟨name, hname, rfl⟩
    exact .str (hdeleted name hname).join
  unfold rotationMarker
  refine .cons (.cons (.cons (.cons (.cons (.cons jsonValue_empty ?_ rfl hnames) ?_ rfl
    (.str (c.parent_plain.append harchive).join)) ?_ rfl
    (.str (printable_isoformatZ _).noHigh.join)) ?_ rfl (.str ?_)) ?_ rfl (.str ?_)) ?_ rfl
    (.str ?_)
  all_goals decide

theorem noChainFields_rotationMarker (c : AuditChain F) (env : Env) (archive : Str)
    (deleted : List Str) : NoChainFields (rotationMarker c env archive deleted) :=
  ⟨rfl, rfl, rfl⟩

variable [PyRuntime F] [PyDates F]

/-- `retention_days` is falsy, or `now - timedelta(days=retention_days)` is a date, and so are the
modification times that are looked at. -/
def CutoffComputable (c : AuditChain F) (env : Env) : Prop :=
  truthy (field (py "retention_days") c.retention) = true →
    (∃ cutoff, (timedeltaDays (field (py "retention_days") c.retention)).bind env.nowCutoff.sub =
      .ok cutoff) ∧ ∀ candidates ∈ env.listing, AgesComputable c env candidates

theorem exists_swept {c : AuditChain F} {env : Env} (h : CutoffComputable c env) (dir : Dir) :
    ∃ swept deleted, sweepRetentionLocked c env dir = (swept, .ok deleted) ∧
      Swept c dir swept deleted := by
  unfold sweepRetentionLocked
  by_cases hdays : truthy (field (py "retention_days") c.retention) = true
  · rcases h hdays with ⟨⟨cutoff, hcutoff⟩, hages⟩
    simp only [hdays, if_true, hcutoff]
    split
    · exact ⟨_, _, rfl, swept_refl c dir⟩
    · next candidates hlisting => exact (swept_refl c dir).all (hages candidates hlisting)
  · simp only [hdays, Bool.false_eq_true, if_false]
    exact ⟨_, _, rfl, swept_refl c dir⟩

/-- A sweep that returns has computed its cutoff and the ages. -/
theorem cutoff_of_swept {c : AuditChain F} {env : Env} {dir swept : Dir} {deleted : List Str}
    (h : sweepRetentionLocked c env dir = (swept, .ok deleted)) : CutoffComputable c env := by
  intro hdays
  unfold sweepRetentionLocked at h
  simp only [hdays, if_true] at h
  split at h
  · cases h
  · next cutoff hcutoff =>
    refine ⟨⟨cutoff, hcutoff⟩, fun candidates hlisting => ?_⟩
    rw [Option.mem_def] at hlisting
    simp only [hlisting] at h
    exact agesComputable_of_sweepFiles h

/-- A log that is rotated exists. -/
theorem exists_live {c : AuditChain F} {env : Env} {dir : Dir}
    (h : shouldRotateLocked c env dir = .ok true) : ∃ file, dir.lookup c.base = some file := by
  cases hfile : dir.lookup c.base with
  | some file => exact ⟨file, rfl⟩
  | none =>
    unfold shouldRotateLocked at h
    rw [hfile] at h
    split at h
    · next hsome => cases hsome
    · cases h

theorem lookup_rename {dir : Dir} {source target : Str} {file : Bytes}
    (hfile : dir.lookup source = some file) (name : Str) :
    (rename dir source target).lookup name =
      if name = target then some file else if name = source then none else dir.lookup name := by
  unfold rename
  rw [hfile]
  show ((dir.erase source).insert target file).lookup name = _
  by_cases htarget : name = target
  · rw [if_pos htarget, htarget, AList.lookup_insert]
  · rw [if_neg htarget, AList.lookup_insert_ne htarget]
    by_cases hsource : name = source
    · rw [if_pos hsource, hsource, AList.lookup_erase]
    · rw [if_neg hsource, AList.lookup_erase_ne hsource]

/-- A rotation that is due leaves a file with a marker in it. -/
theorem maybeRotateLocked_due {c : AuditChain F} {env : Env} {dir : Dir} {live : Bytes}
    (hlive : dir.lookup c.base = some live) (hdue : shouldRotateLocked c env dir = .ok true)
    (hcut : CutoffComputable c env)
    (hplain : ∀ name ∈ dir, (c.base ++ py ".") <+: name → NoHigh name) :
    ∃ swept deleted, Swept c (rename dir c.base (archivedName c env dir)) swept deleted ∧
      JsonValue (.dict (rotationMarker c env (archivedName c env dir) deleted)) ∧
      swept.lookup c.base = none ∧
      maybeRotateLocked c env dir =
        (swept.insert c.base (lineBytes (finalized
            (rotationMarker c env (archivedName c env dir) deleted) (0, genesisHash))),
          .ok (some ⟨archivedName c env dir, deleted, finalized
            (rotationMarker c env (archivedName c env dir) deleted) (0, genesisHash)⟩)) := by
  -- after the rename the live name is free and the archive holds its bytes
  have harchive := isArchive_archivedName c env dir
  rcases exists_swept hcut (rename dir c.base (archivedName c env dir)) with
    ⟨swept, deleted, hsweep, hswept⟩
  have hnames : ∀ name ∈ deleted, NoHigh name := by
    intro name hname
    rcases hswept.named name hname with ⟨hbase, hmem⟩
    by_cases hnew : name = archivedName c env dir
    · rw [hnew]
      -- an archive deleted by the sweep is the new one, or was there before
      exact harchive.2
    · refine hplain name ?_ hbase
      rw [← AList.lookup_isSome, lookup_rename hlive, if_neg hnew,
        if_neg (IsArchive.ne_base hbase), AList.lookup_isSome] at hmem
      exact hmem
  have hjson := jsonValue_rotationMarker c env harchive.2 hnames
  have hnone : swept.lookup c.base = none := by
    rw [hswept.lookup, lookup_rename hlive, if_neg (Ne.symm (IsArchive.ne_base harchive.1)),
      if_pos rfl]
    split <;> rfl
  have hstate : currentState F (swept.lookup c.base) = .ok (0, genesisHash) := by
    -- the marker is therefore the first entry of an empty log
    rw [hnone]
    rfl
  have hwrite := writeLocked_ok hjson hstate
  refine ⟨swept, deleted, hswept, hjson, hnone, ?_⟩
  unfold maybeRotateLocked
  rw [hdue]
  simp only [hsweep, hwrite]
  rw [hnone]
  rfl

/-! ## Runs -/

/-- A log in the course of a run, with what has happened so far: the archives that were
made, each with the content it had, the rotations that wrote their marker, and the
entries of the calls that returned. -/
structure LogState (F : Type) where
  dir : Dir
  archives : List (Str × Bytes)
  rotations : List (Rotation F)
  appended : List (Dict F)

/-- The archive an append makes: the live file is renamed when a rotation is due. -/
def archiveMade (c : AuditChain F) (env : Env) (dir : Dir) : List (Str × Bytes) :=
  match shouldRotateLocked c env dir, dir.lookup c.base with
  | .ok true, some live => [(archivedName c env dir, live)]
  | _, _ => []

/-- One call of `append`. -/
def LogState.append (c : AuditChain F) (st : LogState F) (env : Env) (entry : Dict F) :
    LogState F :=
  match Audit.append c env st.dir entry with
  | (dir', .error _) => ⟨dir', st.archives ++ archiveMade c env st.dir, st.rotations, st.appended⟩
  | (dir', .ok (_, rotation)) =>
    ⟨dir', st.archives ++ archiveMade c env st.dir, st.rotations ++ rotation.toList,
      st.appended ++ [entry]⟩

/-- The runs from an absent log without archives in which the cutoff of every rotation
can be computed. -/
inductive Reachable (c : AuditChain F) : LogState F → Prop
  | start {dir : Dir} : dir.lookup c.base = none →
      (∀ name ∈ dir, ¬ (c.base ++ py ".") <+: name) → Reachable c ⟨dir, [], [], []⟩
  | append {st : LogState F} {env : Env} {entry : Dict F} : Reachable c st →
      JsonValue (.dict entry) → NoChainFields entry →
      (shouldRotateLocked c env st.dir = .ok true → CutoffComputable c env) →
      Reachable c (st.append c env entry)

/-- The files of the log in the order they were begun, deleted ones with the content
they had. -/
def LogState.files (c : AuditChain F) (st : LogState F) : List Bytes :=
  st.archives.map Prod.snd ++ [(st.dir.lookup c.base).getD []]

omit [PyRuntime F] [PyDates F] in
/-- All elements but the first of each list after the first. -/
def unmarked {α : Type} : List (List α) → List α
  | [] => []
  | xs :: rest => xs ++ rest.flatMap List.tail

/-- The marker of a rotation says which archive it made and which ones it deleted. -/
def Rotation.Marked (c : AuditChain F) (r : Rotation F) : Prop :=
  field (py "action") r.marker = .str (py "audit_log_rotation") ∧
    field (py "rotated_from") r.marker = .str (c.parent ++ r.archive) ∧
    field (py "deleted_archives") r.marker = .list (r.deleted.map .str)

/-- The log of a state is as it should be: every file is accepted as one segment, every
archive that is there is one that was made, every rotation has written one marker, first
in the file it began, and the other entries are those that were appended. -/
structure Kept (c : AuditChain F) (st : LogState F) : Prop where
  live : AcceptedWhole F (st.dir.lookup c.base)
  archives : ∀ a ∈ st.archives, AcceptedWhole F (some a.2)
  siblings : ∀ name file, st.dir.lookup name = some file → (c.base ++ py ".") <+: name →
    (name, file) ∈ st.archives
  rotated : st.rotations.map Rotation.archive = st.archives.map Prod.fst
  marked : ∀ r ∈ st.rotations, r.Marked c
  markers : (st.files c).tail.map (fun file => (entries F file).head?) =
    st.rotations.map fun r => some r.marker
  appended : (unmarked ((st.files c).map (entries F))).map callerFields = st.appended

/-- The state of a run in terms of the writes of its files. -/
structure LogInv (c : AuditChain F) (st : LogState F) (logs : List (List (Write F)))
    (live : List (Write F)) : Prop where
  contents : st.archives.map Prod.snd = logs.map content
  holds : Holds c st.dir live
  closed : ∀ ws ∈ logs, FromScratch ws
  plain : ∀ ws ∈ logs ++ [live], ∀ w ∈ ws, w.Plain
  names : ∀ a ∈ st.archives, IsArchive c a.1
  siblings : ∀ name file, st.dir.lookup name = some file → (c.base ++ py ".") <+: name →
    (name, file) ∈ st.archives
  rotated : st.rotations.map Rotation.archive = st.archives.map Prod.fst
  marked : ∀ r ∈ st.rotations, r.Marked c
  markers : (logs ++ [live]).tail.map (fun ws => ws.head?.map Write.result) =
    st.rotations.map fun r => some r.marker
  appended : (unmarked (logs ++ [live])).map Write.entry = st.appended

omit [PyRuntime F] [PyDates F] in
theorem unmarked_map {α β : Type} (f : α → β) (xss : List (List α)) :
    unmarked (xss.map (List.map f)) = (unmarked xss).map f := by
  cases xss with
  | nil => rfl
  | cons xs rest =>
    rw [List.map_cons, unmarked, unmarked, List.map_append, List.flatMap_map, List.map_flatMap]
    simp only [List.map_tail]

omit [PyRuntime F] [PyDates F] in
theorem exists_of_mem_unmarked {α : Type} {x : α} {xss : List (List α)} (h : x ∈ unmarked xss) :
    ∃ xs ∈ xss, x ∈ xs := by
  cases xss with
  | nil => cases h
  | cons xs rest =>
    rcases List.mem_append.mp h with h | h
    · exact ⟨xs, List.mem_cons_self, h⟩
    · rcases List.mem_flatMap.mp h with ⟨ys, hys, hx⟩
      exact ⟨ys, List.mem_cons_of_mem _ hys, List.mem_of_mem_tail hx⟩

omit [PyRuntime F] [PyDates F] in
/-- A list of one element, put after others, adds nothing. -/
theorem unmarked_snoc_singleton {α : Type} {xss : List (List α)} (h : xss ≠ []) (x : α) :
    unmarked (xss ++ [[x]]) = unmarked xss := by
  cases xss with
  | nil => exact absurd rfl h
  | cons xs rest => simp [unmarked]

omit [PyRuntime F] [PyDates F] in
/-- An element put at the end of the last list is added, if that list is the only one or
has a first element already. -/
theorem unmarked_snoc_append {α : Type} {xss : List (List α)} {xs : List α}
    (h : xss = [] ∨ xs ≠ []) (x : α) :
    unmarked (xss ++ [xs ++ [x]]) = unmarked (xss ++ [xs]) ++ [x] := by
  cases xss with
  | nil => simp [unmarked]
  | cons ys rest =>
    have hne : xs ≠ [] := h.resolve_left (by simp)
    simp [unmarked, List.tail_append_of_ne_nil hne]

section Inv

variable {c : AuditChain F} {st : LogState F} {logs : List (List (Write F))}
  {live : List (Write F)}

omit [PyDates F] in
/-- The live file of a log that has been rotated has a marker in it. -/
theorem LogInv.live_ne_nil (h : LogInv c st logs live) : logs = [] ∨ live ≠ [] := by
  rcases List.eq_nil_or_concat' logs with hnil | ⟨init, ws, rfl⟩
  · exact Or.inl hnil
  · right
    rintro rfl
    have hmarkers := h.markers
    rw [List.tail_append_of_ne_nil (by simp), List.map_append, List.map_singleton] at hmarkers
    have hmem : (([] : List (Write F)).head?.map Write.result) ∈
        st.rotations.map fun r => some r.marker := by
      rw [← hmarkers]
      simp
    rcases List.mem_map.mp hmem with ⟨r, -, hr⟩
    cases hr

omit [PyDates F] in
/-- An entry is written to the live file. -/
theorem LogInv.write {dir' : Dir} {w : Write F} (h : LogInv c st logs live)
    (hholds : Holds c dir' (live ++ [w])) (hw : w.Plain)
    (hframe : ∀ name, name ≠ c.base → dir'.lookup name = st.dir.lookup name) :
    LogInv c ⟨dir', st.archives, st.rotations, st.appended ++ [w.entry]⟩ logs (live ++ [w]) where
  contents := h.contents
  holds := hholds
  closed := h.closed
  plain := by
    intro ws hws v hv
    rcases List.mem_append.mp hws with hws | hws
    · exact h.plain ws (List.mem_append_left _ hws) v hv
    · rw [List.mem_singleton.mp hws] at hv
      rcases List.mem_append.mp hv with hv | hv
      · exact h.plain live (by simp) v hv
      · rw [List.mem_singleton.mp hv]
        exact hw
  names := h.names
  siblings := by
    intro name file hfile hname
    rw [hframe name (IsArchive.ne_base hname)] at hfile
    exact h.siblings name file hfile hname
  rotated := h.rotated
  marked := h.marked
  markers := by
    rw [← h.markers]
    rcases List.eq_nil_or_concat' logs with rfl | ⟨init, ws, rfl⟩
    · rfl
    · have hne : live ≠ [] := h.live_ne_nil.resolve_left (by simp)
      -- a file that is not the first has its marker, and a write goes behind it
      have hhead : (live ++ [w]).head? = live.head? := List.head?_append_of_ne_nil _ hne
      have htail : ∀ x : List (Write F), (init ++ [ws] ++ [x]).tail = (init ++ [ws]).tail ++ [x] :=
        fun x => List.tail_append_of_ne_nil (by simp)
      rw [htail, htail, List.map_append, List.map_append, List.map_singleton, List.map_singleton,
        hhead]
  appended := by
    rw [unmarked_snoc_append h.live_ne_nil, List.map_append, h.appended]
    rfl

omit [PyDates F] in
/-- The live file becomes an archive, and a new file is begun with a marker. -/
theorem LogInv.rotate {dir' : Dir} {m : Write F} {r : Rotation F} {file : Bytes}
    (h : LogInv c st logs live) (hfile : st.dir.lookup c.base = some file)
    (harchive : IsArchive c r.archive) (hholds : Holds c dir' [m]) (hm : m.Plain)
    (hresult : m.result = r.marker) (hmarked : r.Marked c)
    (hframe : ∀ name bytes, name ≠ c.base → dir'.lookup name = some bytes →
      (name, bytes) = (r.archive, file) ∨ st.dir.lookup name = some bytes) :
    LogInv c ⟨dir', st.archives ++ [(r.archive, file)], st.rotations ++ [r], st.appended⟩
      (logs ++ [live]) [m] where
  contents := by
    have hcontent : content live = file := by
      rw [← h.holds.2, hfile]
      rfl
    rw [List.map_append, List.map_append, h.contents, List.map_singleton, List.map_singleton,
      hcontent]
  holds := hholds
  closed := by
    -- the file that was live is closed, the marker alone is the new live file
    intro ws hws
    rcases List.mem_append.mp hws with hws | hws
    · exact h.closed ws hws
    · rw [List.mem_singleton.mp hws]
      exact h.holds.1
  plain := by
    intro ws hws v hv
    rcases List.mem_append.mp hws with hws | hws
    · exact h.plain ws hws v hv
    · rw [List.mem_singleton.mp hws, List.mem_singleton] at hv
      rw [hv]
      exact hm
  names := by
    intro a ha
    rcases List.mem_append.mp ha with ha | ha
    · exact h.names a ha
    · rw [List.mem_singleton.mp ha]
      exact harchive
  siblings := by
    intro name bytes hbytes hname
    rcases hframe name bytes (IsArchive.ne_base hname) hbytes with heq | hold
    -- no archive but the new one appears, since the sweep only deletes
    · rw [heq]
      exact List.mem_append_right _ (List.mem_singleton_self _)
    · exact List.mem_append_left _ (h.siblings name bytes hold hname)
  rotated := by
    rw [List.map_append, List.map_append, h.rotated]
    rfl
  marked := by
    intro r' hr'
    rcases List.mem_append.mp hr' with hr' | hr'
    · exact h.marked r' hr'
    · rw [List.mem_singleton.mp hr']
      exact hmarked
  markers := by
    rw [List.tail_append_of_ne_nil (by simp), List.map_append, List.map_append, h.markers,
      List.map_singleton, List.map_singleton, ← hresult]
    rfl
  appended := by
    rw [unmarked_snoc_singleton (by simp)]
    exact h.appended

/-! ## One call -/

/-- A call in which looking whether to rotate raised changes nothing. -/
theorem append_raised {env : Env} {e : PyErr} (entry : Dict F)
    (h : shouldRotateLocked c env st.dir = .error e) : st.append c env entry = st := by
  have happend : Audit.append c env st.dir entry = (st.dir, .error e) := by
    unfold Audit.append maybeRotateLocked
    rw [h]
  have hmade : archiveMade c env st.dir = [] := by
    unfold archiveMade
    rw [h]
  unfold LogState.append
  rw [happend, hmade]
  simp only [List.append_nil]

/-- A call without a rotation writes its entry. -/
theorem append_idle {env : Env} {entry : Dict F} (h : LogInv c st logs live)
    (hdue : shouldRotateLocked c env st.dir = .ok false) (hentry : JsonValue (.dict entry))
    (hno : NoChainFields entry) :
    ∃ w : Write F, ∃ dir', st.append c env entry =
        ⟨dir', st.archives, st.rotations, st.appended ++ [entry]⟩ ∧
      LogInv c ⟨dir', st.archives, st.rotations, st.appended ++ [entry]⟩ logs (live ++ [w]) ∧
      ∀ name, name ≠ c.base → dir'.lookup name = st.dir.lookup name := by
  rcases h.holds.write_plain hentry hno with ⟨w, rfl, -, hw, hwrite, hholds⟩
  have hframe : ∀ name, name ≠ c.base →
      (st.dir.insert c.base (content (live ++ [w]))).lookup name = st.dir.lookup name :=
    fun name hname => AList.lookup_insert_ne hname
  refine ⟨w, _, ?_, h.write hholds hw hframe, hframe⟩
  have hmade : archiveMade c env st.dir = [] := by
    unfold archiveMade
    rw [hdue]
  unfold LogState.append Audit.append maybeRotateLocked
  rw [hdue, hmade]
  simp only [hwrite, List.append_nil, Option.toList_none]

/-- A call with a rotation renames the live file, begins a new one with a marker and
writes its entry behind it. -/
theorem append_due {env : Env} {entry : Dict F} (h : LogInv c st logs live)
    (hdue : shouldRotateLocked c env st.dir = .ok true) (hcut : CutoffComputable c env)
    (hentry : JsonValue (.dict entry)) (hno : NoChainFields entry) :
    ∃ (m w : Write F) (dir' : Dir) (file : Bytes) (r : Rotation F),
      st.dir.lookup c.base = some file ∧
      st.append c env entry = ⟨dir', st.archives ++ [(r.archive, file)], st.rotations ++ [r],
        st.appended ++ [entry]⟩ ∧
      LogInv c ⟨dir', st.archives ++ [(r.archive, file)], st.rotations ++ [r],
        st.appended ++ [entry]⟩ (logs ++ [live]) [m, w] ∧
      ∀ name, name ≠ c.base → dir'.lookup name =
        if name ∈ r.deleted then none else if name = r.archive then some file
          else st.dir.lookup name := by
  rcases exists_live hdue with ⟨file, hfile⟩
  have hplain : ∀ name ∈ st.dir, (c.base ++ py ".") <+: name → NoHigh name := by
    intro name hmem hname
    rcases Option.isSome_iff_exists.mp (AList.lookup_isSome.mpr hmem) with ⟨bytes, hbytes⟩
    exact (h.names _ (h.siblings name bytes hbytes hname)).2
  rcases maybeRotateLocked_due hfile hdue hcut hplain with
    ⟨swept, deleted, hswept, hjson, hnone, hrotate⟩
  -- the marker
  have habsent : Holds c swept [] := holds_of_absent hnone
  have hno' := noChainFields_rotationMarker c env (archivedName c env st.dir) deleted
  rcases habsent.write_plain hjson hno' with ⟨m, hmentry, hmstate, hm, -, hmholds⟩
  rw [List.nil_append] at hmholds
  have hmresult : m.result = finalized
      (rotationMarker c env (archivedName c env st.dir) deleted) (0, genesisHash) := by
    rw [Write.result, hmentry, hmstate]
    rfl
  have hmcontent : content [m] = lineBytes m.result := content_snoc [] m
  rw [← hmresult, ← hmcontent] at hrotate
  -- the entry behind it
  rcases hmholds.write_plain hentry hno with ⟨w, rfl, -, hw, hwrite, hholds⟩
  have hframe : ∀ name, name ≠ c.base → (swept.insert c.base (content [m])).lookup name =
      if name ∈ deleted then none else if name = archivedName c env st.dir then some file
        else st.dir.lookup name := by
    intro name hname
    rw [AList.lookup_insert_ne hname, hswept.lookup, lookup_rename hfile, if_neg hname]
  have hmarked : (⟨archivedName c env st.dir, deleted, m.result⟩ : Rotation F).Marked c := by
    unfold Rotation.Marked
    rw [hmresult, field_finalized_of_ne (by decide) (by decide) (by decide),
      field_finalized_of_ne (by decide) (by decide) (by decide),
      field_finalized_of_ne (by decide) (by decide) (by decide)]
    exact ⟨rfl, rfl, rfl⟩
  have hrotated := h.rotate (r := ⟨archivedName c env st.dir, deleted, m.result⟩) hfile
    (isArchive_archivedName c env st.dir) hmholds hm rfl hmarked (by
      intro name bytes hname hbytes
      rw [hframe name hname] at hbytes
      split_ifs at hbytes with hdeleted harchive
      · rw [Option.some.injEq] at hbytes
        exact Or.inl (by rw [harchive, hbytes])
      · exact Or.inr hbytes)
  have hframe' : ∀ name, name ≠ c.base →
      ((swept.insert c.base (content [m])).insert c.base (content ([m] ++ [w]))).lookup name =
        (swept.insert c.base (content [m])).lookup name :=
    fun name hname => AList.lookup_insert_ne hname
  have hmade : archiveMade c env st.dir = [(archivedName c env st.dir, file)] := by
    unfold archiveMade
    rw [hdue, hfile]
  refine ⟨m, w, _, file, ⟨archivedName c env st.dir, deleted, m.result⟩, hfile, ?_,
    hrotated.write hholds hw hframe', fun name hname => ?_⟩
  · unfold LogState.append Audit.append
    rw [hrotate, hmade]
    simp only [hwrite, Option.toList_some]
  · rw [hframe' name hname, hframe name hname]

/-! ## What runs keep -/

omit [PyDates F] in
theorem logInv_start {dir : Dir} (habsent : dir.lookup c.base = none)
    (hnone : ∀ name ∈ dir, ¬ (c.base ++ py ".") <+: name) :
    LogInv c (⟨dir, [], [], []⟩ : LogState F) [] [] where
  contents := rfl
  holds := holds_of_absent habsent
  closed := by simp
  plain := by simp
  names := by simp
  siblings := by
    intro name file hfile hname
    refine absurd hname (hnone name (AList.lookup_isSome.mp ?_))
    rw [hfile]
    rfl
  rotated := rfl
  marked := by simp
  markers := rfl
  appended := rfl

/-- Every reachable state is made of writes. -/
theorem exists_logInv (h : Reachable c st) : ∃ logs live, LogInv c st logs live := by
  induction h with
  | start habsent hnone => exact ⟨[], [], logInv_start habsent hnone⟩
  | @append st env entry _ hentry hno hcut ih =>
    rcases ih with ⟨logs, live, ih⟩
    cases hdue : shouldRotateLocked c env st.dir with
    | error e =>
      rw [append_raised entry hdue]
      exact ⟨logs, live, ih⟩
    | ok due =>
      cases due with
      | false =>
        rcases append_idle ih hdue hentry hno with ⟨w, dir', heq, hinv, -⟩
        rw [heq]
        exact ⟨logs, live ++ [w], hinv⟩
      | true =>
        rcases append_due ih hdue (hcut hdue) hentry hno with
          ⟨m, w, dir', file, r, -, heq, hinv, -⟩
        rw [heq]
        exact ⟨logs ++ [live], [m, w], hinv⟩

omit [PyDates F] in
theorem LogInv.kept (h : LogInv c st logs live) : Kept c st := by
  have hfiles : st.files c = (logs ++ [live]).map content := by
    unfold LogState.files
    rw [h.contents, h.holds.2, List.map_append]
    rfl
  -- what is read back from a file is what was written to it
  have hparsed : ∀ ws ∈ logs ++ [live], entries F (content ws) = ws.map Write.result := by
    intro ws hws
    rw [entries_content]
    exact List.map_congr_left fun w hw => (h.plain ws hws w hw).parsed
  refine ⟨?_, ?_, h.siblings, h.rotated, h.marked, ?_, ?_⟩
  · unfold AcceptedWhole
    rw [verifyChain_getD, h.holds.2]
    exact acceptedWhole_content h.holds.1 (h.plain live (by simp))
  · intro a ha
    have hmem : a.2 ∈ logs.map content := by
      rw [← h.contents]
      exact List.mem_map_of_mem ha
    rcases List.mem_map.mp hmem with ⟨ws, hws, hcontent⟩
    rw [← hcontent]
    exact acceptedWhole_content (h.closed ws hws) (h.plain ws (List.mem_append_left _ hws))
  · rw [hfiles, ← h.markers, ← List.map_tail, List.map_map]
    refine List.map_congr_left fun ws hws => ?_
    show (entries F (content ws)).head? = _
    rw [hparsed ws (List.mem_of_mem_tail hws), List.head?_map]
  · have hall : (st.files c).map (entries F) = (logs ++ [live]).map (List.map Write.result) := by
      rw [hfiles, List.map_map]
      exact List.map_congr_left hparsed
    have hmem : ∀ w ∈ unmarked (logs ++ [live]), w.Plain := by
      intro w hw
      rcases exists_of_mem_unmarked hw with ⟨ws, hws, hw⟩
      exact h.plain ws hws w hw
    rw [hall, unmarked_map, List.map_map, ← h.appended]
    exact List.map_congr_left fun w hw => (hmem w hw).callerFields

/-- What is gone from the directory after a call was gone before, or is named in the
marker that the call wrote. -/
theorem LogInv.deleted {env : Env} {entry : Dict F} (h : LogInv c st logs live)
    (hentry : JsonValue (.dict entry)) (hno : NoChainFields entry)
    (hcut : shouldRotateLocked c env st.dir = .ok true → CutoffComputable c env) :
    ∀ a ∈ (st.append c env entry).archives, a.1 ∉ (st.append c env entry).dir →
      (a ∈ st.archives ∧ a.1 ∉ st.dir) ∨
        ∃ r, (st.append c env entry).rotations = st.rotations ++ [r] ∧ a.1 ∈ r.deleted := by
  have hbase : ∀ {logs : List (List (Write F))} {live : List (Write F)} {st : LogState F},
      LogInv c st logs live → ∀ a ∈ st.archives, a.1 ≠ c.base := fun hinv a ha =>
    IsArchive.ne_base (hinv.names a ha).1
  cases hdue : shouldRotateLocked c env st.dir with
  | error e =>
    rw [append_raised entry hdue]
    intro a ha hgone
    exact Or.inl ⟨ha, hgone⟩
  | ok due =>
    cases due with
    | false =>
      rcases append_idle h hdue hentry hno with ⟨w, dir', heq, hinv, hframe⟩
      rw [heq]
      intro a ha hgone
      refine Or.inl ⟨ha, ?_⟩
      rwa [← AList.lookup_eq_none, hframe a.1 (hbase h a ha), AList.lookup_eq_none] at hgone
    | true =>
      rcases append_due h hdue (hcut hdue) hentry hno with
        ⟨m, w, dir', file, r, -, heq, hinv, hframe⟩
      rw [heq]
      intro a ha hgone
      rw [← AList.lookup_eq_none, hframe a.1 (hbase hinv a ha)] at hgone
      split_ifs at hgone with hdeleted harchive
      · exact Or.inr ⟨r, rfl, hdeleted⟩
      · -- not the archive this call has made
        rcases List.mem_append.mp ha with ha | ha
        · exact Or.inl ⟨ha, AList.lookup_eq_none.mp hgone⟩
        · rw [List.mem_singleton.mp ha] at harchive
          exact absurd rfl harchive

/-- In every state of a run whose cutoffs can be computed the log is as it should be; a
rotation that is due then takes a name no file has, and the archives the next call removes
are named in its marker. -/
theorem reachable_kept (h : Reachable c st) : Kept c st ∧
    ∀ (env : Env) (entry : Dict F), JsonValue (.dict entry) → NoChainFields entry →
      (shouldRotateLocked c env st.dir = .ok true → CutoffComputable c env) →
      (shouldRotateLocked c env st.dir = .ok true → archivedName c env st.dir ∉ st.dir) ∧
      ∀ a ∈ (st.append c env entry).archives, a.1 ∉ (st.append c env entry).dir →
        (a ∈ st.archives ∧ a.1 ∉ st.dir) ∨
          ∃ r, (st.append c env entry).rotations = st.rotations ++ [r] ∧ a.1 ∈ r.deleted := by
  rcases exists_logInv h with ⟨logs, live, hinv⟩
  refine ⟨hinv.kept, fun env entry hentry hno hcut => ⟨fun _ => ?_, ?_⟩⟩
  · exact archivedName_notMem c env st.dir
  · exact hinv.deleted hentry hno hcut

end Inv

/-! ## A cutoff that cannot be computed -/

/-- Rotation at every append, and archives that are kept for these many days, if any. -/
def rotatingChain (retentionDays : List (Key NanFloat × PyVal NanFloat)) : AuditChain NanFloat :=
  exampleChain ([(.str (py "enabled"), .bool true), (.str (py "max_bytes"), .int 1)] ++
    retentionDays)

/-- The log before the first append. -/
def noLog : LogState NanFloat := ⟨∅, [], [], []⟩

theorem reachable_noLog (c : AuditChain NanFloat) : Reachable c noLog :=
  .start rfl fun name hname => absurd hname (AList.notMem_empty name)

/-- What is logged of an action, with its time. -/
def timedEntry : Dict NanFloat :=
  [(.str (py "action"), .str (py "cleanup_disk")),
    (.str (py "timestamp"), .str (py "2025-01-01T00:00:00Z"))]

theorem jsonValue_timedEntry : JsonValue (.dict timedEntry) :=
  (jsonValue_empty.cons (by decide) rfl (.str (by decide))).cons (by decide) rfl (.str (by decide))

/-- Two appends, the second of which rotates the log, with archives kept forever. -/
theorem reachable_kept_rotated : Kept (rotatingChain [])
    ((noLog.append (rotatingChain []) exampleEnv timedEntry).append (rotatingChain []) exampleEnv
      timedEntry) := by
  have hcut : CutoffComputable (rotatingChain []) exampleEnv := fun h => by cases h
  have hfirst := (reachable_noLog (rotatingChain [])).append jsonValue_timedEntry ⟨rfl, rfl, rfl⟩
    fun _ => hcut
  exact (reachable_kept (hfirst.append jsonValue_timedEntry ⟨rfl, rfl, rfl⟩ fun _ => hcut)).1

/-- Archives kept for a million days: the cutoff would be in a year before 1. -/
def millionDays : AuditChain NanFloat := rotatingChain [(.str (py "retention_days"), .int 1000000)]

theorem cutoff_millionDays (dir : Dir) :
    sweepRetentionLocked millionDays exampleEnv dir = (dir, .error .overflowError) := by
  unfold sweepRetentionLocked
  rfl

/-- A log that is not empty is due for rotation. -/
theorem due_millionDays {dir : Dir} {file : Bytes}
    (hfile : dir.lookup millionDays.base = some file) (hne : file ≠ []) :
    shouldRotateLocked millionDays exampleEnv dir = .ok true := by
  have hsize : natGe file.length (.int 1 : PyVal NanFloat) = .ok true := by
    have hlen := List.length_pos_iff.mpr hne
    show Except.ok (decide ((1 : Int) ≤ file.length)) = _
    rw [decide_eq_true (by omega)]
  have hmax : field (py "max_bytes") millionDays.retention = .int 1 := rfl
  have henabled : truthy (field (py "enabled") millionDays.retention) = true := rfl
  have htruthy : truthy (.int 1 : PyVal NanFloat) = true := rfl
  unfold shouldRotateLocked rotationDue
  simp only [henabled, hfile, hmax, htruthy, if_true, hsize, Py.ok_bind, Py.pure_eq]

/-- An append to an absent log is not due for rotation. -/
theorem append_absent (st : LogState NanFloat) (h : st.dir.lookup millionDays.base = none) :
    ∃ (w : Write NanFloat) (dir' : Dir), st.append millionDays exampleEnv timedEntry =
        ⟨dir', st.archives, st.rotations, st.appended ++ [timedEntry]⟩ ∧
      dir'.lookup millionDays.base = some (content [w]) := by
  have hdue : shouldRotateLocked millionDays exampleEnv st.dir = .ok false := by
    unfold shouldRotateLocked
    rw [h]
    rfl
  have habsent : Holds millionDays st.dir [] := holds_of_absent h
  rcases habsent.write_plain jsonValue_timedEntry ⟨rfl, rfl, rfl⟩ with ⟨w, -, -, -, hwrite, -⟩
  have hmade : archiveMade millionDays exampleEnv st.dir = [] := by
    unfold archiveMade
    rw [hdue]
  refine ⟨w, _, ?_, lookup_insert_base millionDays st.dir (content [w])⟩
  unfold LogState.append Audit.append maybeRotateLocked
  rw [hdue, hmade]
  simp only [hwrite, List.append_nil, Option.toList_none, List.nil_append]

/-- An append to a log that is not empty renames it and raises. -/
theorem append_overflow (st : LogState NanFloat) {file : Bytes}
    (hfile : st.dir.lookup millionDays.base = some file) (hne : file ≠ []) :
    ∃ dir', st.append millionDays exampleEnv timedEntry =
        ⟨dir', st.archives ++ [(archivedName millionDays exampleEnv st.dir, file)], st.rotations,
          st.appended⟩ ∧
      dir'.lookup millionDays.base = none := by
  have hdue := due_millionDays hfile hne
  have hmade : archiveMade millionDays exampleEnv st.dir =
      [(archivedName millionDays exampleEnv st.dir, file)] := by
    unfold archiveMade
    rw [hdue, hfile]
  have harchive := isArchive_archivedName millionDays exampleEnv st.dir
  refine ⟨rename st.dir millionDays.base (archivedName millionDays exampleEnv st.dir), ?_, ?_⟩
  · unfold LogState.append Audit.append maybeRotateLocked
    rw [hdue, hmade]
    simp only [cutoff_millionDays]
  · rw [lookup_rename hfile, if_neg (Ne.symm (IsArchive.ne_base harchive.1)), if_pos rfl]

/-- Three appends: the second renames the log and raises, the third begins a file
without a marker. -/
theorem rotation_without_marker : ∃ st : LogState NanFloat,
    ((noLog.append millionDays exampleEnv timedEntry).append millionDays exampleEnv
      timedEntry).append millionDays exampleEnv timedEntry = st ∧
    st.archives.length = 1 ∧ st.rotations = [] ∧ st.appended = [timedEntry, timedEntry] ∧
      ¬ Kept millionDays st := by
  rcases append_absent noLog rfl with ⟨w, dir₁, hfirst, hfile⟩
  have hne : content [w] ≠ [] := by
    rw [show content [w] = content [] ++ lineBytes w.result from content_snoc [] w, lineBytes]
    simp
  rcases append_overflow (noLog.append millionDays exampleEnv timedEntry)
    (by rw [hfirst]; exact hfile) hne with ⟨dir₂, hsecond, hgone⟩
  rcases append_absent ((noLog.append millionDays exampleEnv timedEntry).append millionDays
    exampleEnv timedEntry) (by rw [hsecond]; exact hgone) with ⟨v, dir₃, hthird, -⟩
  rw [hthird, hsecond, hfirst]
  refine ⟨_, rfl, rfl, rfl, rfl, fun hkept => ?_⟩
  -- an archive was made and no marker written
  cases hkept.rotated

end AutoHeal.Audit
