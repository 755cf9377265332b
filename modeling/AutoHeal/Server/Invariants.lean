import AutoHeal.Server.System

/-!
# What holds while calls are in progress

The invariants that the runs of the system have, whether or not the state file can be
written and wherever the process crashes: a call in a section has the lock, the ids in the
queue and in the file are distinct, and no call that has claimed an entry finds it pending
again (`consistent_of_reachable`).
-/

namespace AutoHeal.Server

open Audit Transition

variable {F : Type}

/-! ## Where a call goes -/

section Calls

variable {job : Job F} {next : Next F} {p : Phase F}

theorem Next.phase_eq_some (h : next.phase = some p) :
    ∃ job, next = .execute job ∧ p = .ready job := by
  cases next with
  | done => cases h
  | rejected id => cases h
  | execute job =>
    cases h
    exact ⟨job, rfl, rfl⟩

theorem Job.afterExecute_eq_some {answer : Py (Option ExecResult)}
    (h : job.afterExecute answer = some p) :
    (∃ id, job.entryId = some id ∧ p = .storing id none) ∨
      ∃ result, answer = .ok (some result) ∧ p = .recording job result := by
  rcases answer with error | _ | result
  · cases h
  · rcases Option.map_eq_some_iff.mp h with ⟨id, hid, rfl⟩
    exact Or.inl ⟨id, hid, rfl⟩
  · cases h
    exact Or.inr ⟨result, rfl, rfl⟩

theorem Job.afterRecord_eq_some {result : ExecResult} (h : job.afterRecord result = some p) :
    ∃ id, job.entryId = some id ∧ p = .storing id (some result) := by
  rcases Option.map_eq_some_iff.mp h with ⟨id, hid, rfl⟩
  exact ⟨id, hid, rfl⟩

end Calls

/-! ## The lock -/

section Lock

variable {calls : Nat → Option (Phase F)} {holder : Option Nat} {i : Nat} {phase : Phase F}
  {phase' : Option (Phase F)}

/-- Every call in a section has the lock. -/
def Locked (calls : Nat → Option (Phase F)) (holder : Option Nat) : Prop :=
  ∀ i phase, calls i = some phase → phase.locks = true → holder = some i

/-- A call may take the lock when it is free. -/
theorem Locked.take (h : Locked calls none) (i : Nat) (phase' : Option (Phase F)) :
    Locked (Function.update calls i phase') (some i) := by
  intro j phase hj hlocks
  rcases update_calls_eq_some hj with ⟨rfl, -⟩ | ⟨-, hj⟩
  · rfl
  · cases h j phase hj hlocks

/-- A call that has the lock may keep it. -/
theorem Locked.keep (h : Locked calls holder) (hi : calls i = some phase) (hlocks : phase.locks = true)
    (phase' : Option (Phase F)) : Locked (Function.update calls i phase') (some i) := by
  intro j phase hj hlocks'
  rcases update_calls_eq_some hj with ⟨rfl, -⟩ | ⟨-, hj⟩
  · rfl
  · rw [← h j phase hj hlocks', ← h i _ hi hlocks]

/-- It may release it, -/
theorem Locked.release (h : Locked calls holder) (hi : calls i = some phase)
    (hlocks : phase.locks = true) (hphase' : ∀ p, phase' = some p → p.locks = false) :
    Locked (Function.update calls i phase') none := by
  intro j p hj hlocks'
  rcases update_calls_eq_some hj with ⟨-, hj⟩ | ⟨hji, hj⟩
  · rw [hphase' p hj] at hlocks'
    cases hlocks'
  · have hsame : some j = some i := (h j p hj hlocks').symm.trans (h i _ hi hlocks)
    exact absurd (Option.some.inj hsame) hji

/-- and what happens outside of sections does not matter. -/
theorem Locked.outside (h : Locked calls holder) (i : Nat)
    (hphase' : ∀ p, phase' = some p → p.locks = false) :
    Locked (Function.update calls i phase') holder := by
  intro j p hj hlocks'
  rcases update_calls_eq_some hj with ⟨-, hj⟩ | ⟨-, hj⟩
  · rw [hphase' p hj] at hlocks'
    cases hlocks'
  · exact h j p hj hlocks'

theorem Next.locks_phase {next : Next F} (p : Phase F) (h : next.phase = some p) : p.locks = false := by
  rcases Next.phase_eq_some h with ⟨job, -, rfl⟩
  rfl

theorem Job.locks_afterExecute {job : Job F} {answer : Py (Option ExecResult)} (p : Phase F)
    (h : job.afterExecute answer = some p) : p.locks = false := by
  rcases Job.afterExecute_eq_some h with ⟨id, -, rfl⟩ | ⟨result, -, rfl⟩ <;> rfl

theorem Job.locks_afterRecord {job : Job F} {result : ExecResult} (p : Phase F)
    (h : job.afterRecord result = some p) : p.locks = false := by
  rcases Job.afterRecord_eq_some h with ⟨id, -, rfl⟩
  rfl

variable [PyRuntime F] [PydanticTypes F] {s s' : System F} {m : Move F}

theorem locked_step (h : Locked s.calls s.holder) (hstep : Step s m s') :
    Locked s'.calls s'.holder := by
  -- taken at the beginning of a section, kept until the save, and not needed outside
  cases hstep with
  | queue _ _ _ hfree _ => exact Locked.take (hfree ▸ h) _ _
  | enter hfree => exact Locked.take (hfree ▸ h) _ _
  | refuse hcall _ => exact h.release hcall rfl (by simp)
  | lose hcall _ _ => exact h.keep hcall rfl _
  | claim hcall _ _ => exact h.keep hcall rfl _
  | reject hfree _ => exact Locked.take (hfree ▸ h) _ _
  | save hcall => exact h.release hcall rfl Next.locks_phase
  | read _ _ _ =>
    refine h.outside _ ?_
    rintro p ⟨⟩
    rfl
  | cool _ _ => exact h.outside _ (by simp)
  | pass _ _ =>
    refine h.outside _ ?_
    rintro p ⟨⟩
    rfl
  | start _ =>
    refine h.outside _ ?_
    rintro p ⟨⟩
    rfl
  | finish _ => exact h.outside _ Job.locks_afterExecute
  | record _ _ => exact h.outside _ Job.locks_afterRecord
  | store _ hfree => exact Locked.take (hfree ▸ h) _ _
  | tick _ => exact h
  | crash =>
    intro i phase hi
    cases hi

end Lock

/-! ## The numbers of the calls -/

section Numbers

variable [PyRuntime F] [PydanticTypes F] {s s' : System F} {m : Move F}

/-- The number of the next call is that of no call. -/
def Numbered (s : System F) : Prop := ∀ i, s.next ≤ i → s.calls i = none

theorem numbered_step (h : Numbered s) (hstep : Step s m s') : Numbered s' := by
  have hnew : ∀ phase', ∀ i, s.next + 1 ≤ i →
      Function.update s.calls s.next phase' i = none := by
    intro phase' i hi
    rw [Function.update_of_ne (by omega)]
    exact h i (by omega)
  have hold : ∀ {i : Nat} {phase : Phase F} (phase' : Option (Phase F)), s.calls i = some phase →
      ∀ j, s.next ≤ j → Function.update s.calls i phase' j = none := by
    intro i phase phase' hcall j hj
    have hji : j ≠ i := by
      rintro rfl
      rw [h j hj] at hcall
      cases hcall
    rw [Function.update_of_ne hji]
    exact h j hj
  -- a move is of a new call, whose number is used up, or of one that is there
  cases hstep with
  | queue _ _ _ _ _ => exact hnew _
  | enter _ => exact hnew _
  | refuse hcall _ => exact hold _ hcall
  | lose hcall _ _ => exact hold _ hcall
  | claim hcall _ _ => exact hold _ hcall
  | reject _ _ => exact hnew _
  | save hcall => exact hold _ hcall
  | read _ _ _ => exact hnew _
  | cool hcall _ => exact hold _ hcall
  | pass hcall _ => exact hold _ hcall
  | start hcall => exact hold _ hcall
  | finish hcall => exact hold _ hcall
  | record hcall _ => exact hold _ hcall
  | store hcall _ => exact hold _ hcall
  | tick _ => exact h
  | crash => exact fun _ _ => rfl

theorem numbered_of_reachable {allowed : System F → Move F → Prop}
    (h : Reachable System.Starts Step allowed s) : Numbered s := by
  refine h.invariant (fun s hs i _ => ?_) fun _ _ _ _ hs _ hstep => numbered_step hs hstep
  rw [hs.calls]

end Numbers

/-! ## The entries -/

section Entries

variable {used : List Uuid} {queue : List (Approval F)} {id : Uuid} {f : Approval F → Approval F}
  {e : Approval F}

/-- The ids are distinct and were drawn, and a pending entry has no result. -/
structure Entries (used : List Uuid) (queue : List (Approval F)) : Prop where
  ids : (queue.map Approval.id).Nodup
  used : ∀ e : Approval F, e ∈ queue → e.id ∈ used
  unresolved : ∀ e : Approval F, e ∈ queue → e.status = .pending → e.result = none

theorem entries_nil : Entries used ([] : List (Approval F)) :=
  ⟨List.nodup_nil, by rintro e ⟨⟩, by rintro e ⟨⟩⟩

theorem Entries.prune (h : Entries used queue) : Entries used (pruneQueue queue) :=
  ⟨((sublist_pruneQueue queue).map _).nodup h.ids,
    fun e he => h.used e ((sublist_pruneQueue queue).subset he),
    fun e he => h.unresolved e ((sublist_pruneQueue queue).subset he)⟩

theorem Entries.draw (h : Entries used queue) (id : Uuid) : Entries (id :: used) queue :=
  ⟨h.ids, fun e he => List.mem_cons_of_mem _ (h.used e he), h.unresolved⟩

theorem Entries.append (h : Entries used queue) (hfresh : e.id ∉ used) (hresult : e.result = none) :
    Entries (e.id :: used) (queue ++ [e]) := by
  have hnotMem : e.id ∉ queue.map Approval.id := by
    intro hmem
    rcases List.mem_map.mp hmem with ⟨x, hx, hid⟩
    exact hfresh (hid ▸ h.used x hx)
  refine ⟨?_, ?_, ?_⟩
  · rw [List.map_append, List.map_singleton]
    rw [← List.concat_eq_append]
    exact h.ids.concat hnotMem
  · intro x hx
    rcases List.mem_append.mp hx with hx | hx
    · exact List.mem_cons_of_mem _ (h.used x hx)
    · rw [List.mem_singleton.mp hx]
      exact List.mem_cons_self
  · intro x hx hpending
    rcases List.mem_append.mp hx with hx | hx
    · exact h.unresolved x hx hpending
    · rw [List.mem_singleton.mp hx]
      exact hresult

/-- An entry that is not pending afterwards may be changed. -/
theorem Entries.update (h : Entries used queue) (hid : ∀ x : Approval F, x.id = id → (f x).id = id)
    (hf : ∀ x ∈ queue, x.id = id → (f x).status ≠ .pending) :
    Entries used (updateEntry queue id f) := by
  refine ⟨?_, ?_, ?_⟩
  · rw [map_id_updateEntry hid]
    exact h.ids
  · intro x hx
    rcases List.mem_map.mp hx with ⟨y, hy, rfl⟩
    split
    · next hyid =>
      rw [hid y hyid, ← hyid]
      exact h.used y hy
    · exact h.used y hy
  · intro x hx hpending
    rcases List.mem_map.mp hx with ⟨y, hy, rfl⟩
    split at hpending
    · next hyid => exact absurd hpending (hf y hy hyid)
    · next hyid =>
      rw [if_neg hyid]
      exact h.unresolved y hy hpending

theorem Entries.reread [PyRuntime F] (h : Entries used queue) :
    Entries used (queue.map Approval.reread) := by
  refine ⟨?_, ?_, ?_⟩
  · rw [map_id_reread]
    exact h.ids
  · intro x hx
    rcases List.mem_map.mp hx with ⟨y, hy, rfl⟩
    exact h.used y hy
  · intro x hx hpending
    rcases List.mem_map.mp hx with ⟨y, hy, rfl⟩
    show y.result.map readDict = none
    rw [h.unresolved y hy hpending, Option.map_none]

/-- Of two entries with one id, none is pending and the other processed. -/
theorem Entries.not_mem_pendingIds (h : Entries used queue) (he : e ∈ queue)
    (hprocessed : e.status ≠ .pending) : e.id ∉ pendingIds queue := by
  intro hmem
  rcases mem_pendingIds.mp hmem with ⟨x, hx, hid, hpending⟩
  have hsame : x = e := List.inj_on_of_nodup_map h.ids hx he hid
  exact hprocessed (hsame ▸ hpending)

theorem Entries.pending_used (h : Entries used queue) (hid : id ∈ pendingIds queue) : id ∈ used := by
  rcases mem_pendingIds.mp hid with ⟨e, he, rfl, -⟩
  exact h.used e he

end Entries

/-! ## What a move does to the queue and to its file -/

section Stored

variable [PyRuntime F] {s s' : System F}

/-- The queue and the file are left alone, an entry is appended, one leaves `pending`, a
result is stored, the queue is saved, or it is loaded. -/
inductive Stored (s s' : System F) : Prop
  | same (hqueue : s'.queue = s.queue) (hfile : s'.file = s.file) (hused : s'.used = s.used)
  | append {e : Approval F} (hpending : e.status = .pending) (hresult : e.result = none)
      (hfresh : e.id ∉ s.used) (hqueue : s'.queue = pruneQueue (s.queue ++ [e]))
      (hfile : s'.file = s.file) (hused : s'.used = e.id :: s.used)
  | leave {id : Uuid} {f : Approval F → Approval F} (hid : ∀ x : Approval F, x.id = id → (f x).id = id)
      (hf : ∀ x : Approval F, x.id = id → (f x).isProcessed = true)
      (hqueue : s'.queue = pruneQueue (updateEntry s.queue id f))
      (hfile : s'.file = s.file) (hused : s'.used = s.used)
  | settle {i : Nat} {id : Uuid} {result : Option ExecResult}
      (hcall : s.calls i = some (.storing id result))
      (hqueue : s'.queue = pruneQueue (updateEntry s.queue id fun e => e.settle result))
      (hfile : s'.file = s.file) (hused : s'.used = s.used)
  | save (hqueue : s'.queue = s.queue) (hfile : s'.file = s.queue.map Approval.reread)
      (hused : s'.used = s.used)
  | load (hqueue : s'.queue = s.file) (hfile : s'.file = s.file)
      (hused : s'.used = s.used)

variable [PydanticTypes F] {m : Move F}

theorem Step.stored (hstep : Step s m s') : Stored s s' := by
  cases hstep with
  | queue _ _ _ _ hfresh => exact .append rfl rfl hfresh rfl rfl rfl
  | enter _ => exact .same rfl rfl rfl
  | refuse _ _ => exact .same rfl rfl rfl
  | @lose _ _ _ _ e _ _ _ =>
    exact .leave (f := fun _ => e.fail lostReason) (fun _ _ => rfl) (fun _ _ => rfl) rfl rfl rfl
  | @claim _ approver _ _ e _ _ _ _ =>
    exact .leave (f := fun _ => e.claim approver.apiKey approver.role) (fun _ _ => rfl)
      (fun _ _ => rfl) rfl rfl rfl
  | @reject approver _ e _ _ =>
    exact .leave (f := fun _ => { e.fail (py "Rejected by approver") with
      processed := some (approver.apiKey, approver.role) }) (fun _ _ => rfl) (fun _ _ => rfl) rfl rfl rfl
  | @save _ _ writes _ =>
    cases writes with
    | true => exact .save rfl (loadApprovalQueue_queueText s.queue) rfl
    | false => exact .same rfl rfl rfl
  | read _ _ _ => exact .same rfl rfl rfl
  | cool _ _ => exact .same rfl rfl rfl
  | pass _ _ => exact .same rfl rfl rfl
  | start _ => exact .same rfl rfl rfl
  | finish _ => exact .same rfl rfl rfl
  | record _ _ => exact .same rfl rfl rfl
  | store hcall _ => exact .settle hcall rfl rfl rfl
  | tick _ => exact .same rfl rfl rfl
  | crash => exact .load rfl rfl rfl

end Stored

/-! ## The entries of the calls -/

/-- The entry a call has claimed or rejected. -/
def Phase.entryId : Phase F → Option Uuid
  | .saving (.execute job) => job.entryId
  | .saving (.rejected id) => some id
  | .ready job | .executing job | .recording job _ => job.entryId
  | .storing id _ => some id
  | .saving .done | .reviewing .. | .checking .. => none

/-- The entry that leaves `pending` with a move. -/
def Move.leaves : Move F → Option Uuid
  | .lose id | .reject id => some id
  | .claim _ e _ _ => some e.id
  | .queue _ | .enter | .refuse | .save _ | .read | .cool | .pass .. | .start .. | .finish ..
  | .record .. | .store _ | .tick | .crash => none

/-- The pending entries after a move, `file` being those in the file. -/
def Move.pending (m : Move F) (ids file : List Uuid) : List Uuid :=
  match m with
  | .queue id => ids ++ [id]
  | .lose id | .reject id => ids.filter fun id' => id' ≠ id
  | .claim _ e _ _ => ids.filter fun id' => id' ≠ e.id
  | .crash => file
  | .enter | .refuse | .save _ | .read | .cool | .pass .. | .start .. | .finish .. | .record ..
  | .store _ | .tick => ids

/-- A call keeps its entry. -/
theorem Next.entryId_phase {next : Next F} {p : Phase F} (h : next.phase = some p) :
    p.entryId = (Phase.saving next).entryId := by
  rcases Next.phase_eq_some h with ⟨job, rfl, rfl⟩
  rfl

theorem Job.entryId_afterExecute {job : Job F} {answer : Py (Option ExecResult)} {p : Phase F}
    (h : job.afterExecute answer = some p) : p.entryId = job.entryId := by
  rcases Job.afterExecute_eq_some h with ⟨id, hid, rfl⟩ | ⟨result, -, rfl⟩
  · exact hid.symm
  · rfl

theorem Job.entryId_afterRecord {job : Job F} {result : ExecResult} {p : Phase F}
    (h : job.afterRecord result = some p) : p.entryId = job.entryId := by
  rcases Job.afterRecord_eq_some h with ⟨id, hid, rfl⟩
  exact hid.symm

section Calls

variable [PyRuntime F] [PydanticTypes F] {s s' : System F} {m : Move F}

/-- A call gets its entry when the entry leaves `pending`. -/
theorem Step.entryId (hstep : Step s m s') {j : Nat} {phase : Phase F} {id : Uuid}
    (hj : s'.calls j = some phase) (hid : phase.entryId = some id) :
    (∃ phase', s.calls j = some phase' ∧ phase'.entryId = some id) ∨ m.leaves = some id := by
  have hother : ∀ {i : Nat} {phase' : Option (Phase F)},
      Function.update s.calls i phase' j = some phase →
      (j = i ∧ phase' = some phase) ∨ ∃ phase', s.calls j = some phase' ∧ phase'.entryId = some id := by
    intro i phase' h
    rcases update_calls_eq_some h with hsame | ⟨-, hold⟩
    · exact Or.inl hsame
    · exact Or.inr ⟨phase, hold, hid⟩
  -- only leaving `pending` gives a call an entry; every other move keeps the one it has
  cases hstep with
  | queue _ _ _ _ _ => rcases hother hj with ⟨rfl, ⟨⟩⟩ | h; cases hid; exact Or.inl h
  | enter _ => rcases hother hj with ⟨rfl, ⟨⟩⟩ | h; cases hid; exact Or.inl h
  | refuse _ _ => rcases hother hj with ⟨rfl, ⟨⟩⟩ | h; exact Or.inl h
  | lose _ _ _ => rcases hother hj with ⟨rfl, ⟨⟩⟩ | h; cases hid; exact Or.inl h
  | claim _ _ _ =>
    rcases hother hj with ⟨rfl, ⟨⟩⟩ | h
    · exact Or.inr hid
    · exact Or.inl h
  | reject _ _ =>
    rcases hother hj with ⟨rfl, ⟨⟩⟩ | h
    · exact Or.inr hid
    · exact Or.inl h
  | save hcall =>
    rcases hother hj with ⟨rfl, hphase⟩ | h
    · exact Or.inl ⟨_, hcall, (Next.entryId_phase hphase).symm.trans hid⟩
    · exact Or.inl h
  | read _ _ _ => rcases hother hj with ⟨rfl, ⟨⟩⟩ | h; cases hid; exact Or.inl h
  | cool _ _ => rcases hother hj with ⟨rfl, ⟨⟩⟩ | h; exact Or.inl h
  | pass _ _ => rcases hother hj with ⟨rfl, ⟨⟩⟩ | h; cases hid; exact Or.inl h
  | start hcall => rcases hother hj with ⟨rfl, ⟨⟩⟩ | h; exact Or.inl ⟨_, hcall, hid⟩; exact Or.inl h
  | finish hcall =>
    rcases hother hj with ⟨rfl, hphase⟩ | h
    · exact Or.inl ⟨_, hcall, (Job.entryId_afterExecute hphase).symm.trans hid⟩
    · exact Or.inl h
  | record hcall _ =>
    rcases hother hj with ⟨rfl, hphase⟩ | h
    · exact Or.inl ⟨_, hcall, (Job.entryId_afterRecord hphase).symm.trans hid⟩
    · exact Or.inl h
  | store hcall _ => rcases hother hj with ⟨rfl, ⟨⟩⟩ | h; cases hid; exact Or.inl h
  | tick _ => exact Or.inl ⟨phase, hj, hid⟩
  | crash => cases hj

/-- Which entries are pending after a move, where no call stores into a pending one. -/
theorem Step.pendingIds (hstep : Step s m s')
    (hbusy : ∀ i id result, s.calls i = some (.storing id result) → id ∉ Server.pendingIds s.queue) :
    Server.pendingIds s'.queue =
      m.pending (Server.pendingIds s.queue)
        (Server.pendingIds s.file) := by
  -- pruning drops processed entries only, so each move is what it does before it prunes
  cases hstep with
  | queue _ _ _ _ _ => exact (pendingIds_pruneQueue _).trans (pendingIds_append_singleton _ rfl)
  | enter _ => rfl
  | refuse _ _ => rfl
  | @lose _ _ _ _ e _ _ _ =>
    exact (pendingIds_pruneQueue _).trans
      (pendingIds_updateEntry (f := fun _ => e.fail lostReason) fun _ _ => rfl)
  | @claim _ approver _ _ e _ _ _ _ =>
    exact (pendingIds_pruneQueue _).trans
      (pendingIds_updateEntry (f := fun _ => e.claim approver.apiKey approver.role) fun _ _ => rfl)
  | @reject approver _ e _ _ =>
    exact (pendingIds_pruneQueue _).trans
      (pendingIds_updateEntry (f := fun _ => { e.fail (py "Rejected by approver") with
        processed := some (approver.apiKey, approver.role) }) fun _ _ => rfl)
  | save _ => rfl
  | read _ _ _ => rfl
  | cool _ _ => rfl
  | pass _ _ => rfl
  | start _ => rfl
  | finish _ => rfl
  | record _ _ => rfl
  | @store _ id result hcall _ =>
    refine (pendingIds_pruneQueue _).trans ?_
    cases result with
    | some result => exact pendingIds_updateEntry_of_status (fun _ => rfl) fun _ => rfl
    -- a failure would take the entry out of `pending`, but it is not there any more
    | none =>
      rw [pendingIds_updateEntry (f := fun e => e.settle none) fun _ _ => rfl]
      refine List.filter_eq_self.mpr fun id' hid' => ?_
      rw [decide_eq_true_iff]
      rintro rfl
      exact hbusy _ _ _ hcall hid'
  | tick _ => rfl
  | crash => rfl

end Calls

/-! ## Executions -/

/-- What a call is about to execute. -/
def Phase.toExecute : Phase F → Option (Job F)
  | .saving (.execute job) | .ready job => some job
  | .saving .done | .saving (.rejected _) | .reviewing .. | .checking .. | .executing _
  | .recording .. | .storing .. => none

section Executions

variable [PyRuntime F] [PydanticTypes F] {s s' : System F} {m : Move F}

/-- The history grows, and a call that executes was about to. -/
theorem Step.history (hstep : Step s m s') : ∃ events, s'.history = events ++ s.history ∧
    ∀ call job time, .started call job time ∈ events →
      events = [.started call job time] ∧ time = s.now ∧ s.calls call = some (.ready job) := by
  cases hstep with
  | queue _ _ _ _ _ => exact ⟨_, rfl, by simp⟩
  | enter _ => exact ⟨[], rfl, by simp⟩
  | refuse _ _ => exact ⟨[], rfl, by simp⟩
  | lose _ _ _ => exact ⟨_, rfl, by simp⟩
  | claim _ _ _ => exact ⟨_, rfl, by simp⟩
  | reject _ _ => exact ⟨_, rfl, by simp⟩
  | @save _ next _ _ =>
    refine ⟨next.answers, rfl, ?_⟩
    cases next <;> simp [Next.answers]
  | read _ _ _ => exact ⟨[], rfl, by simp⟩
  | cool _ _ => exact ⟨[], rfl, by simp⟩
  | pass _ _ => exact ⟨[], rfl, by simp⟩
  | @start i job hcall =>
    refine ⟨[.started i job s.now], rfl, fun call job' time hmem => ?_⟩
    cases List.mem_singleton.mp hmem
    exact ⟨rfl, rfl, hcall⟩
  | finish _ => exact ⟨[], rfl, by simp⟩
  | record _ _ =>
    refine ⟨_, rfl, fun call job time hmem => ?_⟩
    split at hmem <;> simp at hmem
  | store _ _ => exact ⟨[], rfl, by simp⟩
  | tick _ => exact ⟨[], rfl, by simp⟩
  | crash => exact ⟨[], rfl, by simp⟩

/-- A call is about to execute what it was to, or what it has claimed or passed. -/
theorem Step.toExecute (hstep : Step s m s') {j : Nat} {phase : Phase F} {job : Job F}
    (hj : s'.calls j = some phase) (hjob : phase.toExecute = some job) :
    (∃ phase', s.calls j = some phase' ∧ phase'.toExecute = some job) ∨
      (∃ e cooldowns, m = .claim j e job.task cooldowns ∧ job.entryId = some e.id) ∨
      ∃ cooldowns, m = .pass j job.task cooldowns ∧ job.entryId = none := by
  have hother : ∀ {i : Nat} {phase' : Option (Phase F)},
      Function.update s.calls i phase' j = some phase →
      (∀ p, phase' = some p → p.toExecute = none) →
      ∃ phase', s.calls j = some phase' ∧ phase'.toExecute = some job := by
    intro i phase' h hphase'
    rcases update_calls_eq_some h with ⟨-, hsame⟩ | ⟨-, hold⟩
    · rw [hphase' phase hsame] at hjob
      cases hjob
    · exact ⟨phase, hold, hjob⟩
  -- a claim and a pass make a job; a save hands over the one it was to execute
  cases hstep with
  | queue _ _ _ _ _ => exact Or.inl (hother hj (by rintro p ⟨⟩; rfl))
  | enter _ => exact Or.inl (hother hj (by rintro p ⟨⟩; rfl))
  | refuse _ _ => exact Or.inl (hother hj (by rintro p ⟨⟩))
  | lose _ _ _ => exact Or.inl (hother hj (by rintro p ⟨⟩; rfl))
  | @claim i _ _ _ e _ _ _ _ =>
    rcases update_calls_eq_some hj with ⟨rfl, hsame⟩ | ⟨-, hold⟩
    · cases hsame
      cases hjob
      exact Or.inr (Or.inl ⟨e, _, rfl, rfl⟩)
    · exact Or.inl ⟨phase, hold, hjob⟩
  | reject _ _ => exact Or.inl (hother hj (by rintro p ⟨⟩; rfl))
  | @save i next _ hcall =>
    rcases update_calls_eq_some hj with ⟨rfl, hsame⟩ | ⟨-, hold⟩
    · rcases Next.phase_eq_some hsame with ⟨job', rfl, rfl⟩
      cases hjob
      exact Or.inl ⟨.saving (.execute job), hcall, rfl⟩
    · exact Or.inl ⟨phase, hold, hjob⟩
  | read _ _ _ => exact Or.inl (hother hj (by rintro p ⟨⟩; rfl))
  | cool _ _ => exact Or.inl (hother hj (by rintro p ⟨⟩))
  | @pass i _ _ _ _ =>
    rcases update_calls_eq_some hj with ⟨rfl, hsame⟩ | ⟨-, hold⟩
    · cases hsame
      cases hjob
      exact Or.inr (Or.inr ⟨_, rfl, rfl⟩)
    · exact Or.inl ⟨phase, hold, hjob⟩
  | start _ => exact Or.inl (hother hj (by rintro p ⟨⟩; rfl))
  | finish _ =>
    refine Or.inl (hother hj fun p hp => ?_)
    rcases Job.afterExecute_eq_some hp with ⟨id, -, rfl⟩ | ⟨result, -, rfl⟩ <;> rfl
  | record _ _ =>
    refine Or.inl (hother hj fun p hp => ?_)
    rcases Job.afterRecord_eq_some hp with ⟨id, -, rfl⟩
    rfl
  | store _ _ => exact Or.inl (hother hj (by rintro p ⟨⟩; rfl))
  | tick _ => exact Or.inl ⟨phase, hj, hjob⟩
  | crash => cases hj

end Executions

/-! ## Every run -/

section Runs

variable [PyRuntime F] [PydanticTypes F] {s s' : System F} {m : Move F}

/-- What holds in every run. The file has no entry as processed that is pending in the queue,
and the entry of a call is not pending. -/
structure Consistent (s : System F) : Prop where
  locked : Locked s.calls s.holder
  queue : Entries s.used s.queue
  file : Entries s.used s.file
  behind : ∀ f ∈ s.file, f.status ≠ .pending →
    f.id ∉ pendingIds s.queue
  busy : ∀ i phase id, s.calls i = some phase → phase.entryId = some id →
    id ∈ s.used ∧ id ∉ pendingIds s.queue

omit [PydanticTypes F] in
theorem Consistent.storing (h : Consistent s) {i : Nat} {id : Uuid} {result : Option ExecResult}
    (hcall : s.calls i = some (.storing id result)) : id ∉ pendingIds s.queue :=
  (h.busy i _ id hcall rfl).2

omit [PydanticTypes F] in
theorem consistent_starts (h : s.Starts) : Consistent s := by
  have hfile : s.file = [] := by
    rw [System.file, h.stateFile]
    rfl
  refine ⟨?_, ?_, ?_, ?_, ?_⟩
  · rw [h.calls]
    rintro i phase ⟨⟩
  · rw [h.queue]
    exact entries_nil
  · rw [hfile]
    exact entries_nil
  · rw [hfile]
    rintro f ⟨⟩
  · rw [h.calls]
    rintro i phase id ⟨⟩

omit [PydanticTypes F] in
/-- The entries after a move. -/
theorem Stored.entries (h : Consistent s) (hstored : Stored s s') :
    Entries s'.used s'.queue ∧ Entries s'.used s'.file := by
  cases hstored with
  | same hqueue hfile hused =>
    rw [hqueue, hfile, hused]
    exact ⟨h.queue, h.file⟩
  | @append e hpending hresult hfresh hqueue hfile hused =>
    rw [hqueue, hfile, hused]
    exact ⟨(h.queue.append hfresh hresult).prune, h.file.draw e.id⟩
  | leave hid hf hqueue hfile hused =>
    rw [hqueue, hfile, hused]
    refine ⟨(h.queue.update hid fun x _ hx => ?_).prune, h.file⟩
    simpa [Approval.isProcessed] using hf x hx
  | @settle i id result hcall hqueue hfile hused =>
    rw [hqueue, hfile, hused]
    refine ⟨(h.queue.update (fun x hx => ?_) fun x hmem hx => ?_).prune, h.file⟩
    · cases result <;> exact hx
    · cases result with
      | none => simp [Approval.settle, Approval.fail]
      | some result =>
        intro hpending
        exact h.storing hcall (mem_pendingIds.mpr ⟨x, hmem, hx, hpending⟩)
  | save hqueue hfile hused =>
    rw [hqueue, hfile, hused]
    exact ⟨h.queue, h.queue.reread⟩
  | load hqueue hfile hused =>
    rw [hqueue, hfile, hused]
    exact ⟨h.file, h.file⟩

omit [PydanticTypes F] in
/-- The file after a move. -/
theorem Stored.file (hstored : Stored s s') :
    s'.file = s.file ∨ s'.queue = s.queue ∧ s'.file = s.queue.map Approval.reread := by
  cases hstored with
  | save hqueue hfile _ => exact Or.inr ⟨hqueue, hfile⟩
  | same _ hfile _ => exact Or.inl hfile
  | append _ _ _ _ hfile _ => exact Or.inl hfile
  | leave _ _ _ hfile _ => exact Or.inl hfile
  | settle _ _ hfile _ => exact Or.inl hfile
  | load _ hfile _ => exact Or.inl hfile

/-- Only a new entry and, after a crash, one of the file becomes pending. -/
theorem Step.pending_of_mem (h : Consistent s) (hstep : Step s m s') {id : Uuid}
    (hid : id ∈ Server.pendingIds s'.queue) :
    id ∈ Server.pendingIds s.queue ∧ m ≠ .crash ∨ m = .queue id ∧ id ∉ s.used ∨
      m = .crash ∧ id ∈ Server.pendingIds s.file := by
  rw [hstep.pendingIds fun i id result hcall => h.storing hcall] at hid
  cases hstep with
  | queue _ _ _ _ hfresh =>
    rcases List.mem_append.mp hid with hid | hid
    · exact Or.inl ⟨hid, by simp⟩
    · rw [List.mem_singleton.mp hid]
      exact Or.inr (Or.inl ⟨rfl, hfresh⟩)
  | lose _ _ _ => exact Or.inl ⟨List.mem_of_mem_filter hid, by simp⟩
  | claim _ _ _ => exact Or.inl ⟨List.mem_of_mem_filter hid, by simp⟩
  | reject _ _ => exact Or.inl ⟨List.mem_of_mem_filter hid, by simp⟩
  | crash => exact Or.inr (Or.inr ⟨rfl, hid⟩)
  | _ => exact Or.inl ⟨hid, by simp⟩

/-- What leaves `pending` was pending, -/
theorem Step.pending_of_leaves (hstep : Step s m s') {id : Uuid} (hid : m.leaves = some id) :
    id ∈ Server.pendingIds s.queue := by
  have hfound : ∀ {apiKey approvalId act : Str} {e : Approval F},
      lookupPending s.queue apiKey approvalId act = .found e → e.id ∈ Server.pendingIds s.queue := by
    intro apiKey approvalId act e h
    rcases lookupPending_eq_found.mp h with ⟨hfind, hpending, -⟩
    exact mem_pendingIds.mpr ⟨e, (findEntry_eq_some hfind).2, rfl, hpending⟩
  cases hstep with
  | lose _ h _ =>
    cases hid
    exact hfound h
  | claim _ h _ =>
    cases hid
    exact hfound h
  | reject _ h =>
    cases hid
    exact hfound h
  | _ => cases hid

/-- and is so no more. -/
theorem Step.not_mem_pendingIds (h : Consistent s) (hstep : Step s m s') {id : Uuid}
    (hid : m.leaves = some id) : id ∉ Server.pendingIds s'.queue := by
  rw [hstep.pendingIds fun i id result hcall => h.storing hcall]
  cases hstep with
  | lose _ _ _ =>
    cases hid
    simp [Move.pending]
  | claim _ _ _ =>
    cases hid
    simp [Move.pending]
  | reject _ _ =>
    cases hid
    simp [Move.pending]
  | _ => cases hid

/-- Ids stay drawn. -/
theorem Step.used_subset (hstep : Step s m s') : s.used ⊆ s'.used := by
  intro id hid
  cases hstep with
  | queue _ _ _ _ _ => exact List.mem_cons_of_mem _ hid
  | _ => exact hid

/-- An entry that is pending neither in the queue nor in the file stays so. -/
theorem Step.stays_processed (h : Consistent s) (hstep : Step s m s') {id : Uuid}
    (hused : id ∈ s.used) (hqueue : id ∉ Server.pendingIds s.queue)
    (hfile : id ∉ Server.pendingIds s.file) :
    id ∈ s'.used ∧ id ∉ Server.pendingIds s'.queue ∧ id ∉ Server.pendingIds s'.file := by
  refine ⟨hstep.used_subset hused, fun hmem => ?_, ?_⟩
  · rcases hstep.pending_of_mem h hmem with ⟨hmem, -⟩ | ⟨-, hfresh⟩ | ⟨-, hmem⟩
    · exact hqueue hmem
    · exact hfresh hused
    · exact hfile hmem
  · rcases hstep.stored.file with hsame | ⟨-, hsaved⟩
    · rwa [hsame]
    · rwa [hsaved, pendingIds_reread]

theorem consistent_step (h : Consistent s) (hstep : Step s m s') : Consistent s' := by
  have hentries := hstep.stored.entries h
  have hused := hstep.used_subset
  refine ⟨locked_step h.locked hstep, hentries.1, hentries.2, ?_, ?_⟩
  · intro f hf hprocessed hmem
    rcases hstep.stored.file with hfile | ⟨hqueue, hfile⟩
    · rw [hfile] at hf
      rcases hstep.pending_of_mem h hmem with ⟨hmem, -⟩ | ⟨-, hfresh⟩ | ⟨-, hmem⟩
      · exact h.behind f hf hprocessed hmem
      · exact hfresh (h.file.used f hf)
      · exact h.file.not_mem_pendingIds hf hprocessed hmem
    · rw [hfile] at hf
      rw [hqueue] at hmem
      rcases List.mem_map.mp hf with ⟨g, hg, rfl⟩
      exact h.queue.not_mem_pendingIds hg hprocessed hmem
  · intro j phase id hj hid
    rcases hstep.entryId hj hid with ⟨phase', hj', hid'⟩ | hleaves
    · rcases h.busy j phase' id hj' hid' with ⟨hdrawn, hpending⟩
      refine ⟨hused hdrawn, fun hmem => ?_⟩
      rcases hstep.pending_of_mem h hmem with ⟨hmem, -⟩ | ⟨-, hfresh⟩ | ⟨rfl, -⟩
      · exact hpending hmem
      · exact hfresh hdrawn
      · cases hstep
        cases hj
    · exact ⟨hused (h.queue.pending_used (hstep.pending_of_leaves hleaves)),
        hstep.not_mem_pendingIds h hleaves⟩

/-- It holds in every run, whatever the moves. -/
theorem consistent_of_reachable {allowed : System F → Move F → Prop}
    (h : Reachable System.Starts Step allowed s) : Consistent s :=
  h.invariant (fun _ => consistent_starts) fun _ _ _ _ hs _ hstep => consistent_step hs hstep

/-- The server of a state of the system, between calls. -/
def System.server (s : System F) (hits : Hits) (log : Audit.Dir) : ServerState F :=
  ⟨s.queue, s.stateFile, s.cooldowns, hits, log⟩

omit [PydanticTypes F] in
theorem Consistent.sound (h : Consistent s) (hits : Hits) (log : Audit.Dir) :
    (s.server hits log).Sound := by
  refine ⟨h.queue.ids, h.queue.unresolved, fun e he hpending f hf hid => ?_⟩
  by_contra hprocessed
  exact h.behind f hf hprocessed (mem_pendingIds.mpr ⟨e, he, hid.symm, hpending⟩)

/-- The queue and the file of every state that is reached are as the results about single
calls take them to be. -/
theorem sound_of_reachable {allowed : System F → Move F → Prop}
    (h : Reachable System.Starts Step allowed s) (hits : Hits) (log : Audit.Dir) :
    (s.server hits log).Sound := (consistent_of_reachable h).sound hits log

end Runs

/-! ## A run -/

section Run

variable [PyRuntime F] [PydanticTypes F]

omit [PyRuntime F] [PydanticTypes F] in
theorem updateEntry_singleton (e : Approval F) (f : Approval F → Approval F) :
    updateEntry [e] e.id f = [f e] := by
  unfold updateEntry
  rw [List.map_singleton, if_pos rfl]

/-- A server that starts, with some cooldowns. -/
def System.initial (cooldowns : Cooldowns) : System F where
  queue := []
  stateFile := none
  cooldowns := cooldowns
  holder := none
  loop := none
  calls _ := none
  next := 0
  now := 0
  used := []
  history := []

omit [PyRuntime F] [PydanticTypes F] in
theorem System.starts_initial (cooldowns : Cooldowns) : (System.initial cooldowns : System F).Starts :=
  ⟨rfl, rfl, rfl, rfl, rfl, rfl, rfl⟩

/-- A request can be queued, -/
theorem queued_run {allowed : System F → Move F → Prop} {site : Site F} {reads : VaultReads}
    {clock : Clock} {hits : Hits} {request : WebhookRequest} {a : Admitted F}
    (hpasses : Passes site reads clock hits request a)
    (happroval : isSet a.payload.approvalRequired = true) (id : Uuid) (cooldowns : Cooldowns)
    (hallowed : ∀ s, ∀ m ∈ [Move.queue id, .save true], allowed s m) :
    ∃ s : System F, Reachable System.Starts Step allowed s ∧
      s.queue = [a.entry id request.apiKey] ∧ s.calls = (fun _ => none) ∧ s.cooldowns = cooldowns ∧
      s.holder = none ∧ s.loop = none ∧ s.next = 1 ∧ s.now = 0 ∧ s.history = [.queued id] := by
  have hqueued := Reachable.move (.start (System.starts_initial cooldowns))
    (hallowed _ _ (by simp)) (Step.queue hpasses happroval rfl rfl (List.not_mem_nil : id ∉ []))
  have hsaved := hqueued.move (hallowed _ (.save true) (by simp))
    (.save (Function.update_self _ _ _))
  refine ⟨_, hsaved, ?_, ?_, rfl, rfl, ?_, rfl, rfl, rfl⟩
  · simp only [System.change, System.goTo, System.initial, List.nil_append, pruneQueue_singleton]
  · show Function.update (Function.update (fun _ => none) 0 _) 0 none = fun _ => none
    rw [Function.update_idem, Function.update_eq_self]
  · simp [System.change, System.goTo, System.initial, Next.phase]

/-- and where its review by another key claims it, that call gets as far as the execution. -/
theorem claimed_run {allowed : System F → Move F → Prop} {site : Site F} {reads : VaultReads}
    {clock : Clock} {hits : Hits} {request : WebhookRequest} {a : Admitted F} {approver : Approver F}
    {task : Task F} {cooldowns : Cooldowns} (hpasses : Passes site reads clock hits request a)
    (happroval : isSet a.payload.approvalRequired = true) (id : Uuid)
    (hother : request.apiKey ≠ approver.apiKey)
    (hclaimed : review approver.site approver.reads cooldowns 0 (a.entry id request.apiKey) =
      .claimed task)
    (hallowed : ∀ s, ∀ m ∈ [Move.queue id, .save true, .enter,
      .claim 1 (a.entry id request.apiKey) task cooldowns], allowed s m) :
    ∃ s : System F, Reachable System.Starts Step allowed s ∧
      s.queue = [(a.entry id request.apiKey).claim approver.apiKey approver.role] ∧
      s.calls = Function.update (fun _ => none) 1 (some (.ready ⟨task, some id⟩)) ∧
      s.cooldowns = cooldowns ∧ s.holder = none ∧ s.loop = none ∧ s.next = 2 ∧ s.now = 0 ∧
      s.history = [.claimed (a.entry id request.apiKey) approver, .left id, .queued id] := by
  rcases queued_run hpasses happroval id cooldowns
    (fun s m hm => hallowed s m (List.mem_append_left _ hm)) with
    ⟨s, hreachable, hqueue, hcalls, hcooldowns, hholder, hloop, hnext, hnow, hhistory⟩
  have hentered := hreachable.move (hallowed _ _ (by simp))
    (@Step.enter F _ _ s approver id.val hholder)
  -- the entry is alone in the queue, and another key has asked for it
  have hfound : lookupPending s.queue approver.apiKey id.val (py "approve") =
      .found (a.entry id request.apiKey) := by
    rw [hqueue, lookupPending_eq_found]
    refine ⟨?_, rfl, hother⟩
    unfold findEntry
    rw [List.find?_singleton, if_pos]
    exact decide_eq_true rfl
  have hreview : review approver.site approver.reads s.cooldowns s.now (a.entry id request.apiKey) =
      .claimed task := by
    rw [hcooldowns, hnow]
    exact hclaimed
  have hclaims := hentered.move (hallowed _ _ (by rw [hnext, hcooldowns]; simp))
    (Step.claim (Function.update_self _ _ _) hfound hreview)
  have hready := hclaims.move (hallowed _ (.save true) (by simp))
    (.save (Function.update_self _ _ _))
  refine ⟨_, hready, ?_, ?_, hcooldowns, rfl, ?_, ?_, hnow, ?_⟩
  · show pruneQueue (updateEntry s.queue id _) = _
    rw [hqueue]
    exact (congrArg pruneQueue (updateEntry_singleton (a.entry id request.apiKey) _)).trans
      (pruneQueue_singleton _)
  · show Function.update (Function.update (Function.update s.calls s.next _) s.next _) s.next _ = _
    rw [Function.update_idem, Function.update_idem, hcalls, hnext]
    rfl
  · simp [System.change, System.goTo, hloop]
  · show s.next + 1 = 2
    rw [hnext]
  · show [.claimed _ approver, .left _] ++ s.history = _
    rw [hhistory]
    rfl

/-- A call that is about to execute can get as far as storing the result. -/
theorem settled_run {allowed : System F → Move F → Prop} {s : System F}
    (h : Reachable System.Starts Step allowed s) {i : Nat} {job : Job F} {id : Uuid}
    {result : ExecResult} {executor : Executor F} (hcall : s.calls i = some (.ready job))
    (hid : job.entryId = some id) (hresult : job.task.execute executor = .ok (some result))
    (hfree : s.holder = none)
    (hallowed : ∀ t, ∀ m ∈ [Move.start i job, .finish i job (job.task.execute executor),
      .record i job s.now, .store id, .save true], allowed t m) :
    ∃ s' : System F, Reachable System.Starts Step allowed s' ∧
      s'.queue = pruneQueue (updateEntry s.queue id fun e => e.settle (some result)) ∧
      s'.holder = none := by
  rcases (⟨_, h.move (hallowed _ _ (by simp)) (Step.start hcall), rfl, Function.update_self _ _ _,
      hfree, rfl⟩ :
    ∃ s₁ : System F, Reachable System.Starts Step allowed s₁ ∧ s₁.queue = s.queue ∧
      s₁.calls i = some (.executing job) ∧ s₁.holder = none ∧ s₁.now = s.now) with
    ⟨s₁, h₁, hqueue₁, hcall₁, hfree₁, hnow₁⟩
  have hnext : job.afterExecute (job.task.execute executor) = some (.recording job result) := by
    rw [hresult]
    rfl
  rcases (⟨_, h₁.move (hallowed _ _ (by simp)) (@Step.finish F _ _ s₁ i job executor hcall₁), hqueue₁,
      (Function.update_self _ _ _).trans hnext, hfree₁, hnow₁⟩ :
    ∃ s₂ : System F, Reachable System.Starts Step allowed s₂ ∧ s₂.queue = s.queue ∧
      s₂.calls i = some (.recording job result) ∧ s₂.holder = none ∧ s₂.now = s.now) with
    ⟨s₂, h₂, hqueue₂, hcall₂, hfree₂, hnow₂⟩
  have hlast : job.afterRecord result = some (.storing id (some result)) := by
    unfold Job.afterRecord
    rw [hid]
    rfl
  rcases (⟨_, h₂.move (hallowed _ _ (by simp)) (Step.record hcall₂ hnow₂.le), hqueue₂,
      (Function.update_self _ _ _).trans hlast, hfree₂⟩ :
    ∃ s₃ : System F, Reachable System.Starts Step allowed s₃ ∧ s₃.queue = s.queue ∧
      s₃.calls i = some (.storing id (some result)) ∧ s₃.holder = none) with
    ⟨s₃, h₃, hqueue₃, hcall₃, hfree₃⟩
  have h₄ := h₃.move (hallowed _ _ (by simp)) (Step.store hcall₃ hfree₃)
  refine ⟨_, h₄.move (hallowed _ (.save true) (by simp)) (.save (Function.update_self _ _ _)), ?_, rfl⟩
  rw [← hqueue₃]
  rfl

end Run

end AutoHeal.Server
