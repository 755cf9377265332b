import AutoHeal.Server.Invariants

/-!
# An approval executes at most once

The outcome of an entry is the call of `execute_action` for it, or the answer `rejected`.
While the state file can be written, an entry gets at most one outcome, however the calls
are interleaved and wherever the process crashes, and it is executed only after a claim of
it (`approve_exactly_once`). The invariant relates the calls that owe an outcome, the
outcomes there were, and what is pending in the queue and in the file.
-/

namespace AutoHeal.Server

open Audit Transition

variable {F : Type}

/-! ## Outcomes -/

/-- The entry that is executed, -/
def Event.execution : Event F → Option Uuid
  | .started _ job _ => job.entryId
  | .queued _ | .left _ | .claimed .. | .rejected _ | .recorded .. => none

/-- or that a call has answered `rejected` for. -/
def Event.outcome : Event F → Option Uuid
  | .started _ job _ => job.entryId
  | .rejected id => some id
  | .queued _ | .left _ | .claimed .. | .recorded .. => none

/-- The entries with an outcome, the last first. -/
def outcomes (history : List (Event F)) : List Uuid := history.filterMap Event.outcome

/-- The entries that were executed, the last first. -/
def startedIds (history : List (Event F)) : List Uuid := history.filterMap Event.execution

/-- The entry whose outcome a call still owes. -/
def Phase.owes : Phase F → Option Uuid
  | .saving (.execute job) | .ready job => job.entryId
  | .saving (.rejected id) => some id
  | .saving .done | .reviewing .. | .checking .. | .executing _ | .recording .. | .storing .. => none

/-- The entry was claimed while it was pending, by another key than that of its requester,
which had the right to approve. -/
def ClaimedBefore (id : Uuid) (past : List (Event F)) : Prop :=
  ∃ e approver, .claimed e approver ∈ past ∧ e.id = id ∧ e.status = .pending ∧
    approver.apiKey ≠ e.requestedBy ∧
    hasPermission approver.site.auth approver.role (py "approve_actions") = true

/-- Where an event is an execution for an entry, the entry was claimed before. -/
def FollowsClaim (event : Event F) (past : List (Event F)) : Prop :=
  ∀ call job time id, event = .started call job time → job.entryId = some id → ClaimedBefore id past

/-- The state file can be written. -/
def SavesSucceed (_ : System F) (m : Move F) : Prop := m ≠ .save false

section Histories

variable {history past : List (Event F)} {id : Uuid}

theorem Event.outcome_of_execution {event : Event F} (h : event.execution = some id) :
    event.outcome = some id := by
  cases event with
  | started call job time => exact h
  | _ => cases h

theorem startedIds_sublist (history : List (Event F)) :
    (startedIds history).Sublist (outcomes history) :=
  filterMap_sublist_filterMap (fun _ _ => Event.outcome_of_execution) history

/-- Where outcomes are distinct, what was rejected was not executed. -/
theorem not_mem_startedIds (hnodup : (outcomes history).Nodup) (h : .rejected id ∈ history) :
    id ∉ startedIds history :=
  not_mem_filterMap_of_nodup (fun _ _ => Event.outcome_of_execution) hnodup h rfl rfl

theorem owes_of_mem_answers {next : Next F} (h : id ∈ outcomes next.answers) :
    (Phase.saving next).owes = some id := by
  cases next with
  | done => cases h
  | execute job => cases h
  | rejected id' =>
    rw [show outcomes (Next.rejected id' : Next F).answers = [id'] from rfl] at h
    rw [List.mem_singleton.mp h]
    rfl

theorem Phase.entryId_of_owes {phase : Phase F} (h : phase.owes = some id) :
    phase.entryId = some id := by
  cases phase with
  | saving next => cases next <;> exact h
  | ready job => exact h
  | _ => cases h

theorem ClaimedBefore.later (h : ClaimedBefore id past) (events : List (Event F)) :
    ClaimedBefore id (events ++ past) := by
  rcases h with ⟨e, approver, hmem, hrest⟩
  exact ⟨e, approver, List.mem_append_right _ hmem, hrest⟩

end Histories

/-! ## What a move does to the outcomes -/

section Progress

variable {s s' : System F} {m : Move F}

/-- No call comes to owe an outcome, an entry leaves `pending` and its call comes to owe its
outcome, a call saves, or it executes. -/
inductive Progress (s : System F) (m : Move F) (s' : System F) : Prop
  | same (hm : ∀ writes, m ≠ .save writes)
      (hcalls : ∀ j phase id, s'.calls j = some phase → phase.owes = some id →
        s.calls j = some phase)
      (houtcomes : outcomes s'.history = outcomes s.history)
  | leave {i : Nat} {id : Uuid} {next : Next F} (hm : m.leaves = some id)
      (howes : (Phase.saving next).owes = some id)
      (hcalls : s'.calls = Function.update s.calls i (some (.saving next)))
      (houtcomes : outcomes s'.history = outcomes s.history)
  | save {i : Nat} {next : Next F} {writes : Bool} (hm : m = .save writes)
      (hcall : s.calls i = some (.saving next))
      (hcalls : s'.calls = Function.update s.calls i next.phase)
      (houtcomes : outcomes s'.history = outcomes (next.answers) ++ outcomes s.history)
  | start {i : Nat} {job : Job F} (hm : m = .start i job) (hcall : s.calls i = some (.ready job))
      (hcalls : s'.calls = Function.update s.calls i (some (.executing job)))
      (houtcomes : outcomes s'.history = job.entryId.toList ++ outcomes s.history)

theorem Step.progress [PyRuntime F] [PydanticTypes F] (hstep : Step s m s') : Progress s m s' := by
  have hsame : ∀ {i : Nat} {phase' : Option (Phase F)}, (∀ p, phase' = some p → p.owes = none) →
      ∀ j phase id, Function.update s.calls i phase' j = some phase → phase.owes = some id →
        s.calls j = some phase := by
    intro i phase' hphase' j phase id hj hid
    rcases update_calls_eq_some hj with ⟨-, hsame⟩ | ⟨-, hold⟩
    · rw [hphase' phase hsame] at hid
      cases hid
    · exact hold
  -- a claim, a rejection, a save and a start move what is owed; the rest leaves it alone
  cases hstep with
  | queue _ _ _ _ _ => exact .same (by simp) (hsame (by rintro p ⟨⟩; rfl)) rfl
  | enter _ => exact .same (by simp) (hsame (by rintro p ⟨⟩; rfl)) rfl
  | refuse _ _ => exact .same (by simp) (hsame (by rintro p ⟨⟩)) rfl
  | lose _ _ _ => exact .same (by simp) (hsame (by rintro p ⟨⟩; rfl)) rfl
  | claim _ _ _ => exact .leave rfl rfl rfl rfl
  | reject _ _ => exact .leave rfl rfl rfl rfl
  | @save _ next _ hcall =>
    refine .save rfl hcall rfl ?_
    exact List.filterMap_append
  | read _ _ _ => exact .same (by simp) (hsame (by rintro p ⟨⟩; rfl)) rfl
  | cool _ _ => exact .same (by simp) (hsame (by rintro p ⟨⟩)) rfl
  | pass _ _ => exact .same (by simp) (hsame (by rintro p ⟨⟩; rfl)) rfl
  | @start _ job hcall =>
    refine .start rfl hcall rfl ?_
    cases hid : job.entryId <;> simp [outcomes, Event.outcome, hid]
  | finish _ =>
    refine .same (by simp) (hsame fun p hp => ?_) rfl
    rcases Job.afterExecute_eq_some hp with ⟨id, -, rfl⟩ | ⟨result, -, rfl⟩ <;> rfl
  | record _ _ =>
    refine .same (by simp) (hsame fun p hp => ?_) ?_
    · rcases Job.afterRecord_eq_some hp with ⟨id, -, rfl⟩
      rfl
    · refine List.filterMap_append.trans ?_
      split <;> rfl
  | store _ _ => exact .same (by simp) (hsame (by rintro p ⟨⟩; rfl)) rfl
  | tick _ => exact .same (by simp) (fun _ _ _ hj _ => hj) rfl
  | crash => exact .same (by simp) (by rintro j phase id ⟨⟩) rfl

/-- An outcome is one that a call owed, which owes nothing then. -/
theorem Progress.outcomes (h : Progress s m s') :
    Server.outcomes s'.history = Server.outcomes s.history ∨
      ∃ i phase id, s.calls i = some phase ∧ phase.owes = some id ∧
        (∀ phase', s'.calls i = some phase' → phase'.owes = none) ∧
        Server.outcomes s'.history = id :: Server.outcomes s.history := by
  cases h with
  | same _ _ houtcomes => exact Or.inl houtcomes
  | leave _ _ _ houtcomes => exact Or.inl houtcomes
  | @save i next _ _ hcall hcalls houtcomes =>
    cases next with
    | done => exact Or.inl houtcomes
    | execute job => exact Or.inl houtcomes
    -- a saved rejection is an outcome, a saved claim is none yet
    | rejected id =>
      refine Or.inr ⟨i, _, id, hcall, rfl, ?_, houtcomes⟩
      rw [hcalls, Function.update_self]
      rintro phase' ⟨⟩
  | @start i job _ hcall hcalls houtcomes =>
    cases hid : job.entryId with
    | none =>
      rw [hid] at houtcomes
      exact Or.inl houtcomes
    | some id =>
      rw [hid] at houtcomes
      refine Or.inr ⟨i, _, id, hcall, hid, ?_, houtcomes⟩
      rw [hcalls, Function.update_self]
      rintro phase' ⟨⟩
      rfl

/-- A call comes to owe an outcome when its entry leaves `pending`. -/
theorem Progress.owes (h : Progress s m s') {j : Nat} {phase : Phase F} {id : Uuid}
    (hj : s'.calls j = some phase) (hid : phase.owes = some id) :
    (∃ phase', s.calls j = some phase' ∧ phase'.owes = some id) ∨
      m.leaves = some id ∧ ∀ k, k ≠ j → s'.calls k = s.calls k := by
  cases h with
  | same _ hcalls _ => exact Or.inl ⟨phase, hcalls j phase id hj hid, hid⟩
  | @leave i _ _ hm howes hcalls _ =>
    rw [hcalls] at hj ⊢
    rcases update_calls_eq_some hj with ⟨rfl, hsame⟩ | ⟨-, hold⟩
    · cases hsame
      rw [hid] at howes
      exact Or.inr ⟨hm.trans howes.symm, fun k hk => Function.update_of_ne hk _ _⟩
    · exact Or.inl ⟨phase, hold, hid⟩
  | @save i next _ _ hcall hcalls _ =>
    rw [hcalls] at hj
    rcases update_calls_eq_some hj with ⟨rfl, hsame⟩ | ⟨-, hold⟩
    · rcases Next.phase_eq_some hsame with ⟨job, rfl, rfl⟩
      exact Or.inl ⟨.saving (.execute job), hcall, hid⟩
    · exact Or.inl ⟨phase, hold, hid⟩
  | @start i _ _ _ hcalls _ =>
    rw [hcalls] at hj
    rcases update_calls_eq_some hj with ⟨-, hsame⟩ | ⟨-, hold⟩
    · cases hsame
      cases hid
    · exact Or.inl ⟨phase, hold, hid⟩

end Progress

/-! ## The invariant -/

section Invariant

variable {s s' : System F} {m : Move F}

/-- The entry has its outcome, or a call is about to execute for it. -/
def Taken (s : System F) (id : Uuid) : Prop :=
  id ∈ outcomes s.history ∨ ∃ i job, s.calls i = some (.ready job) ∧ job.entryId = some id

/-- What is taken is taken before, or a call that owes its outcome has saved. -/
theorem Progress.taken (h : Progress s m s') {id : Uuid} (htaken : Taken s' id) :
    Taken s id ∨ ∃ i next writes, m = .save writes ∧ s.calls i = some (.saving next) ∧
      (Phase.saving next).owes = some id := by
  have hold : ∀ {i : Nat} {phase' : Option (Phase F)}, s'.calls = Function.update s.calls i phase' →
      (∀ job, phase' ≠ some (.ready job)) →
      (∃ j job, s'.calls j = some (.ready job) ∧ job.entryId = some id) → Taken s id := by
    rintro i phase' hcalls hphase' ⟨j, job, hj, hid⟩
    rw [hcalls] at hj
    rcases update_calls_eq_some hj with ⟨-, hsame⟩ | ⟨-, hready⟩
    · exact absurd hsame (hphase' job)
    · exact Or.inr ⟨j, job, hready, hid⟩
  -- an outcome that was not there was owed by the call that saved
  cases h with
  | same _ hcalls houtcomes =>
    rcases htaken with hmem | ⟨j, job, hj, hid⟩
    · exact Or.inl (Or.inl (houtcomes ▸ hmem))
    · exact Or.inl (Or.inr ⟨j, job, hcalls j _ id hj hid, hid⟩)
  | leave _ _ hcalls houtcomes =>
    rcases htaken with hmem | hready
    · exact Or.inl (Or.inl (houtcomes ▸ hmem))
    · exact Or.inl (hold hcalls (by simp) hready)
  | @save i next writes hm hcall hcalls houtcomes =>
    rcases htaken with hmem | ⟨j, job, hj, hid⟩
    · rw [houtcomes] at hmem
      rcases List.mem_append.mp hmem with hmem | hmem
      · exact Or.inr ⟨i, next, writes, hm, hcall, owes_of_mem_answers hmem⟩
      · exact Or.inl (Or.inl hmem)
    · rw [hcalls] at hj
      rcases update_calls_eq_some hj with ⟨-, hsame⟩ | ⟨-, hready⟩
      · rcases Next.phase_eq_some hsame with ⟨job', rfl, ⟨⟩⟩
        exact Or.inr ⟨i, _, writes, hm, hcall, hid⟩
      · exact Or.inl (Or.inr ⟨j, job, hready, hid⟩)
  | @start i job _ hcall hcalls houtcomes =>
    rcases htaken with hmem | hready
    · rw [houtcomes] at hmem
      rcases List.mem_append.mp hmem with hmem | hmem
      · exact Or.inl (Or.inr ⟨i, job, hcall, Option.mem_toList.mp hmem⟩)
      · exact Or.inl (Or.inl hmem)
    · exact Or.inl (hold hcalls (by simp) hready)

variable [PyRuntime F]

/-- An entry has one outcome at most, and one call that owes it until then. What is taken is
pending neither in the queue nor in the file. -/
structure Exclusive (s : System F) : Prop where
  nodup : (outcomes s.history).Nodup
  owed : ∀ i phase id, s.calls i = some phase → phase.owes = some id → id ∉ outcomes s.history
  unique : ∀ i j phase phase' id, s.calls i = some phase → s.calls j = some phase' →
    phase.owes = some id → phase'.owes = some id → i = j
  taken : ∀ id, Taken s id →
    id ∈ s.used ∧ id ∉ pendingIds s.queue ∧ id ∉ pendingIds s.file

theorem exclusive_starts (h : s.Starts) : Exclusive s := by
  have hcalls : ∀ i phase, s.calls i ≠ some phase := by
    intro i phase hcall
    rw [h.calls] at hcall
    cases hcall
  have houtcomes : outcomes s.history = [] := by
    rw [h.history]
    rfl
  refine ⟨?_, fun i phase _ hcall => absurd hcall (hcalls i phase),
    fun i _ phase _ _ hcall => absurd hcall (hcalls i phase), ?_⟩
  · rw [houtcomes]
    exact List.nodup_nil
  · rintro id (hmem | ⟨i, job, hcall, -⟩)
    · rw [houtcomes] at hmem
      cases hmem
    · exact absurd hcall (hcalls i _)

variable [PydanticTypes F]

/-- A save writes the queue. -/
theorem Step.saved (hstep : Step s (.save true) s') :
    s'.queue = s.queue ∧ s'.file = s.queue.map Approval.reread := by
  cases hstep
  exact ⟨rfl, loadApprovalQueue_queueText s.queue⟩

theorem exclusive_step (hs : Consistent s) (h : Exclusive s) (hsaves : SavesSucceed s m)
    (hstep : Step s m s') : Exclusive s' := by
  have hnotTaken : ∀ id, m.leaves = some id → id ∉ outcomes s.history := by
    intro id hleaves hmem
    exact (h.taken id (Or.inl hmem)).2.1 (hstep.pending_of_leaves hleaves)
  refine ⟨?_, ?_, ?_, ?_⟩
  · -- an outcome that is new was owed
    rcases hstep.progress.outcomes with hsame | ⟨i, phase, id, hcall, howes, -, hnew⟩
    · rw [hsame]
      exact h.nodup
    · rw [hnew]
      exact List.nodup_cons.mpr ⟨h.owed i phase id hcall howes, h.nodup⟩
  · intro j phase id hj hid hmem
    have hold : id ∉ outcomes s.history := by
      rcases hstep.progress.owes hj hid with ⟨phase', hj', hid'⟩ | ⟨hleaves, -⟩
      · exact h.owed j phase' id hj' hid'
      · exact hnotTaken id hleaves
    rcases hstep.progress.outcomes with hsame | ⟨i, phase', id', hcall, howes, hpaid, hnew⟩
    · rw [hsame] at hmem
      exact hold hmem
    · rw [hnew] at hmem
      rcases List.mem_cons.mp hmem with rfl | hmem
      · -- the call that has paid is the only one that owed it
        rcases hstep.progress.owes hj hid with ⟨phase₀, hj', hid'⟩ | ⟨hleaves, -⟩
        · have hji : j = i := h.unique j i phase₀ phase' id hj' hcall hid' howes
          rw [hpaid phase (hji ▸ hj)] at hid
          cases hid
        · exact (hs.busy i phase' id hcall (Phase.entryId_of_owes howes)).2
            (hstep.pending_of_leaves hleaves)
      · exact hold hmem
  · intro i j phase phase' id hi hj hid hid'
    have hfirst : ∀ k phase₀, s.calls k = some phase₀ → phase₀.owes = some id →
        m.leaves ≠ some id := by
      intro k phase₀ hk hidk hleaves
      exact (hs.busy k phase₀ id hk (Phase.entryId_of_owes hidk)).2 (hstep.pending_of_leaves hleaves)
    rcases hstep.progress.owes hi hid with ⟨p, hi', hp⟩ | ⟨hleaves, hothers⟩
    · rcases hstep.progress.owes hj hid' with ⟨p', hj', hp'⟩ | ⟨hleaves, -⟩
      · exact h.unique i j p p' id hi' hj' hp hp'
      · exact absurd hleaves (hfirst i p hi' hp)
    · by_contra hne
      rw [hothers j (Ne.symm hne)] at hj
      exact hfirst j phase' hj hid' hleaves
  · intro id htaken
    rcases hstep.progress.taken htaken with htaken | ⟨i, next, writes, rfl, hcall, howes⟩
    · rcases h.taken id htaken with ⟨hused, hqueue, hfile⟩
      exact hstep.stays_processed hs hused hqueue hfile
    · -- the save has written the queue, where the entry is processed
      have hwrites : writes = true := by
        cases writes with
        | true => rfl
        | false => exact absurd rfl hsaves
      subst hwrites
      rcases hs.busy i _ id hcall (Phase.entryId_of_owes howes) with ⟨hused, hpending⟩
      rcases hstep.saved with ⟨hqueue, hfile⟩
      refine ⟨hstep.used_subset hused, ?_, ?_⟩
      · rwa [hqueue]
      · rwa [hfile, pendingIds_reread]

end Invariant

/-! ## Claims -/

section Claims

variable [PyRuntime F] {s s' : System F} {m : Move F}

/-- What a call is about to execute for an entry was claimed, as was what it executed. -/
structure Backed (s : System F) : Prop where
  claimed : ∀ i phase job id, s.calls i = some phase → phase.toExecute = some job →
    job.entryId = some id → ClaimedBefore id s.history
  justified : Justified FollowsClaim s.history

omit [PyRuntime F] in
theorem backed_starts (h : s.Starts) : Backed s := by
  refine ⟨fun i phase job id hcall => ?_, ?_⟩
  · rw [h.calls] at hcall
    cases hcall
  · rw [h.history]
    exact justified_nil

variable [PydanticTypes F]

/-- What a call that claims an entry adds to the history. -/
theorem Step.claims {i : Nat} {e : Approval F} {task : Task F} {cooldowns : Cooldowns}
    (hstep : Step s (.claim i e task cooldowns) s') : ClaimedBefore e.id s'.history := by
  cases hstep with
  | @claim _ approver _ _ _ _ _ hfound _ =>
    rcases lookupPending_eq_found.mp hfound with ⟨-, hpending, hown⟩
    exact ⟨e, approver, List.mem_cons_self, rfl, hpending, Ne.symm hown, approver.permitted⟩

theorem backed_step (h : Backed s) (hstep : Step s m s') : Backed s' := by
  rcases hstep.history with ⟨events, hhistory, hevents⟩
  constructor
  · intro j phase job id hj hjob hid
    rcases hstep.toExecute hj hjob with ⟨phase', hj', hjob'⟩ | ⟨e, cooldowns, rfl, hentry⟩ |
      ⟨-, -, hnone⟩
    · rw [hhistory]
      exact (h.claimed j phase' job id hj' hjob' hid).later events
    · rw [← Option.some.inj (hentry.symm.trans hid)]
      exact hstep.claims
    · rw [hnone] at hid
      cases hid
  · rw [hhistory]
    by_cases hstarts : ∃ call job time, .started call job time ∈ events
    · rcases hstarts with ⟨call, job, time, hmem⟩
      rcases hevents call job time hmem with ⟨rfl, -, hready⟩
      refine ⟨?_, h.justified⟩
      rintro _ _ _ id ⟨⟩ hid
      exact h.claimed call _ job id hready rfl hid
    · refine h.justified.append fun event hmem past call job time id hevent _ => ?_
      exact absurd ⟨call, job, time, hevent ▸ hmem⟩ hstarts

end Claims

/-! ## Every run -/

section Runs

variable [PyRuntime F] [PydanticTypes F] {s : System F}

theorem exclusive_of_reachable (h : Reachable System.Starts Step SavesSucceed s) : Exclusive s :=
  h.invariant (fun _ => exclusive_starts) fun _ _ _ hs hexclusive hsaves hstep =>
    exclusive_step (consistent_of_reachable hs) hexclusive hsaves hstep

theorem backed_of_reachable {allowed : System F → Move F → Prop}
    (h : Reachable System.Starts Step allowed s) : Backed s :=
  h.invariant (fun _ => backed_starts) fun _ _ _ _ hbacked _ hstep => backed_step hbacked hstep

/-- In every run in which the state file can be written, an entry is executed at most once,
and never where a call has answered `rejected` for it, and every execution for an entry comes
after a claim of it, while it was pending, by another key with the right to approve. -/
theorem approve_exactly_once (h : Reachable System.Starts Step SavesSucceed s) :
    (startedIds s.history).Nodup ∧
      (∀ id, .rejected id ∈ s.history → id ∉ startedIds s.history) ∧
      Justified FollowsClaim s.history := by
  have hnodup := (exclusive_of_reachable h).nodup
  exact ⟨(startedIds_sublist s.history).nodup hnodup, fun _ => not_mem_startedIds hnodup,
    (backed_of_reachable h).justified⟩

end Runs

/-! ## Examples -/

/-- `admin-key`, where the action of the examples is some action. -/
def exampleApprover (action : ActionConfig NanFloat) : Approver NanFloat where
  apiKey := py "admin-key"
  site := exampleSite (.literal exampleKeys) action [(py "local", exampleController)]
  reads := .steady []
  permitted := rfl

/-- What is executed for the example entry. -/
def exampleClaim (action : ActionConfig NanFloat) : Task NanFloat where
  payload := ⟨py "check", none, some [], some false, some true⟩
  action := action
  controllerName := some (py "local")
  controller := some exampleController

/-- The example entry is claimed when nothing cools down. -/
theorem review_example {action : ActionConfig NanFloat}
    (hcontroller : action.defaultController = some (py "local")) (now : ℚ) :
    review (exampleApprover action).site (exampleApprover action).reads (fun _ => none) now
        ((exampleAdmitted action true).entry exampleEntry.id (exampleRequest true).apiKey) =
      .claimed (exampleClaim action) := by
  refine review_eq_claimed.mpr ⟨rfl, rfl, hcontroller.symm, rfl, rfl, Task.remaining_eq_none.mpr ?_⟩
  by_cases hseconds : (exampleClaim action).cooldownSeconds = 0
  · exact Or.inr (Or.inl hseconds)
  · exact Or.inr (Or.inr ((secondsRemaining_eq_none hseconds).mpr (by simp)))

theorem approve_exactly_once_example : ∃ s : System NanFloat,
    startedIds s.history = [exampleEntry.id] ∧ (startedIds s.history).Nodup ∧
      (∀ id, .rejected id ∈ s.history → id ∉ startedIds s.history) ∧
      Justified FollowsClaim s.history := by
  have hallowed : ∀ (s : System NanFloat), ∀ m ∈ [Move.queue exampleEntry.id, .save true, .enter,
      .claim 1 ((exampleAdmitted exampleAction true).entry exampleEntry.id (exampleRequest true).apiKey)
        (exampleClaim exampleAction) fun _ => none], SavesSucceed s m := by
    intro s m hm
    simp only [List.mem_cons, List.not_mem_nil, or_false] at hm
    rcases hm with rfl | rfl | rfl | rfl <;> simp [SavesSucceed]
  rcases claimed_run (passes_example rfl rfl true) rfl exampleEntry.id (by decide)
    (review_example rfl 0) hallowed with ⟨s, hreachable, -, hcalls, -, -, -, -, -, hhistory⟩
  have hstarted := hreachable.move (by simp [SavesSucceed])
    (Step.start (hcalls ▸ Function.update_self _ _ _ : s.calls 1 = some (.ready ⟨_, _⟩)))
  refine ⟨_, ?_, approve_exactly_once hstarted⟩
  show startedIds (.started 1 _ s.now :: s.history) = [exampleEntry.id]
  rw [hhistory]
  rfl

end AutoHeal.Server
