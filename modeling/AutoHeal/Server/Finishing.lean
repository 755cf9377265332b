import AutoHeal.Lib.Ranking
import AutoHeal.Server.Exclusive

/-!
# Calls come to an end

Calls of `/webhook`, `approve` and `reject` share `approval_lock` and the event loop. They cannot
block one another: as long as one is in progress there is one that can go on, and each makes seven
moves at most (`calls_finish`). A call that `execute_action` keeps waiting is not excluded by this,
as the execution is the move that would be next.
-/

namespace AutoHeal.Server

open Transition Ranking

variable {F : Type}

/-! ## How much is left to do -/

/-- What a call does after a save. -/
def Next.left : Next F → Nat
  | .done | .rejected _ => 0
  | .execute _ => 5

/-- The moves a call may still make. -/
def Phase.left : Phase F → Nat
  | .reviewing .. => 7
  | .saving next => next.left + 1
  | .checking .. => 6
  | .ready _ => 5
  | .executing _ => 4
  | .recording .. => 3
  | .storing .. => 2

/-- The moves that a number may still make: those of its call. -/
def System.leftOf (s : System F) (i : Nat) : Nat := (s.calls i).elim 0 Phase.left

/-- The moves that all calls in progress may still make. -/
def System.left (s : System F) : Nat := total s.leftOf s.next

/-- The moves of calls that are there. -/
def Move.goesOn : Move F → Bool
  | .refuse | .lose _ | .claim .. | .save _ | .cool | .pass .. | .start .. | .finish .. | .record ..
  | .store _ => true
  | .queue _ | .enter | .reject _ | .read | .tick | .crash => false

/-- What a new call may do behind its first move, with one to spare. -/
def Move.load : Move F → Nat
  | .queue _ | .enter | .reject _ | .read => 7
  | .refuse | .lose _ | .claim .. | .save _ | .cool | .pass .. | .start .. | .finish .. | .record ..
  | .store _ | .tick | .crash => 0

/-- Every new call counts seven. -/
theorem loads_le (ms : List (Move F)) :
    ((ms.filter fun m => !m.goesOn).map Move.load).sum ≤ 7 * ms.countP fun m => m.load ≠ 0 := by
  induction ms with
  | nil => simp
  | cons m ms ih =>
    cases m <;> simp [Move.goesOn, Move.load] at ih ⊢ <;> omega

theorem Phase.left_pos (phase : Phase F) : 0 < phase.left := by
  cases phase <;> simp [Phase.left]

theorem Next.left_phase (next : Next F) : next.phase.elim 0 Phase.left = next.left := by
  cases next <;> rfl

theorem Job.left_afterExecute (job : Job F) (answer : Py (Option ExecResult)) :
    (job.afterExecute answer).elim 0 Phase.left < 4 := by
  rcases answer with e | _ | result
  · exact Nat.zero_lt_succ _
  · show (job.entryId.map fun id => Phase.storing id none).elim 0 Phase.left < 4
    cases job.entryId <;> simp [Phase.left]
  · exact Nat.lt_succ_self 3

theorem Job.left_afterRecord (job : Job F) (result : ExecResult) :
    (job.afterRecord result).elim 0 Phase.left < 3 := by
  unfold Job.afterRecord
  cases job.entryId <;> simp [Phase.left]

theorem System.left_eq_zero {s : System F} (hnumbers : Numbered s) :
    s.left = 0 ↔ ∀ i, s.calls i = none := by
  unfold System.left
  rw [total_eq_zero]
  constructor
  · intro h i
    by_cases hi : i < s.next
    · have hzero := h i hi
      unfold System.leftOf at hzero
      cases hcall : s.calls i with
      | none => rfl
      | some phase =>
        rw [hcall] at hzero
        exact absurd hzero phase.left_pos.ne'
    · exact hnumbers i (not_lt.mp hi)
  · intro h i _
    unfold System.leftOf
    rw [h i]
    rfl

/-! ## The lock and the loop are with calls -/

/-- Who has the lock is in a section, and who has the loop is in progress. -/
structure Occupied (s : System F) : Prop where
  holder : ∀ i, s.holder = some i → ∃ phase, s.calls i = some phase ∧ phase.locks = true
  loop : ∀ i, s.loop = some i → s.calls i ≠ none

section Occupancy

variable [PyRuntime F] [PydanticTypes F] {s s' : System F} {m : Move F}

omit [PyRuntime F] [PydanticTypes F] in
/-- A call that returns leaves the loop. -/
theorem System.loop_goTo (h : ∀ j, s.loop = some j → s.calls j ≠ none) (i : Nat)
    (phase' : Option (Phase F)) {j : Nat} (hj : (s.goTo i phase').loop = some j) :
    (s.goTo i phase').calls j ≠ none := by
  have hcases : s.loop = some j ∧ ¬ (phase' = none ∧ j = i) := by
    unfold System.goTo at hj
    simp only at hj
    split_ifs at hj with hleft
    refine ⟨hj, ?_⟩
    rintro ⟨rfl, rfl⟩
    exact hleft ⟨rfl, hj⟩
  by_cases hji : j = i
  · rw [hji, System.goTo_calls_self]
    exact fun hnone => hcases.2 ⟨hnone, hji⟩
  · rw [System.goTo_calls_of_ne s hji]
    exact h j hcases.1

omit [PyRuntime F] [PydanticTypes F] in
/-- The move of a call outside of sections. -/
theorem Occupied.outside (h : Occupied s) {i : Nat}
    (hlocks : ∀ phase, s.calls i = some phase → phase.locks = false) (phase' : Option (Phase F)) :
    Occupied (s.goTo i phase') := by
  refine ⟨fun j hj => ?_, fun j => System.loop_goTo h.loop i phase'⟩
  rcases h.holder j hj with ⟨phase, hphase, hlocked⟩
  have hji : j ≠ i := by
    rintro rfl
    rw [hlocks phase hphase] at hlocked
    cases hlocked
  exact ⟨phase, by rw [System.goTo_calls_of_ne s hji]; exact hphase, hlocked⟩

omit [PyRuntime F] [PydanticTypes F] in
/-- The end of a section. -/
theorem Occupied.release (h : Occupied s) (i : Nat) (phase' : Option (Phase F)) :
    Occupied { s.goTo i phase' with holder := none } := by
  refine ⟨?_, fun j => System.loop_goTo h.loop i phase'⟩
  rintro j ⟨⟩

omit [PyRuntime F] [PydanticTypes F] in
/-- A section has changed the queue and is left with the save. -/
theorem occupied_change {i : Nat} (hloop : ∀ j, s.loop = some j → j = i ∨ s.calls j ≠ none)
    (queue : List (Approval F)) (next : Next F) (events : List (Event F)) :
    Occupied (s.change i queue next events) := by
  constructor
  · intro j hj
    cases hj
    exact ⟨.saving next, Function.update_self _ _ _, rfl⟩
  · intro j hj
    by_cases hji : j = i
    · rw [hji]
      show Function.update s.calls i _ i ≠ none
      rw [Function.update_self]
      simp
    · show Function.update s.calls i _ j ≠ none
      rw [Function.update_of_ne hji]
      exact (hloop j hj).resolve_left hji

theorem occupied_step (hnumbers : Numbered s) (h : Occupied s) (hstep : Step s m s') : Occupied s' := by
  have hloop : ∀ {i : Nat}, ∀ j, s.loop = some j → j = i ∨ s.calls j ≠ none :=
    fun j hj => Or.inr (h.loop j hj)
  have hnone : s.calls s.next = none := hnumbers s.next le_rfl
  have houtside : ∀ {i : Nat} {phase : Phase F}, s.calls i = some phase → phase.locks = false →
      ∀ phase', Occupied (s.goTo i phase') := by
    intro i phase hcall hlocks phase'
    refine h.outside (fun p hp => ?_) phase'
    rw [hcall] at hp
    cases hp
    exact hlocks
  cases hstep with
  | queue _ _ _ _ _ =>
    -- the call of the section has the loop as well
    refine occupied_change (fun j hj => Or.inl ?_) _ _ _
    exact (Option.some.inj hj).symm
  | enter _ =>
    refine ⟨fun j hj => ?_, fun j hj => System.loop_goTo h.loop s.next _ hj⟩
    cases hj
    exact ⟨_, System.goTo_calls_self s _ _, rfl⟩
  | refuse _ _ => exact h.release _ _
  | lose _ _ _ => exact occupied_change hloop _ _ _
  | claim _ _ _ => exact occupied_change hloop _ _ _
  | reject _ _ => exact occupied_change (s := { s with next := s.next + 1 }) hloop _ _ _
  | @save i next _ _ =>
    have hreleased := h.release i next.phase
    exact ⟨hreleased.holder, hreleased.loop⟩
  | @read _ _ _ _ _ a _ _ _ =>
    have hoccupied := h.outside (i := s.next) (by simp [hnone]) (some (.checking a.task s.cooldowns))
    refine ⟨hoccupied.holder, fun j hj => ?_⟩
    cases hj
    exact fun hcall => by simpa using (System.goTo_calls_self s _ _).symm.trans hcall
  | cool hcall _ => exact houtside hcall rfl _
  | pass hcall _ => exact houtside hcall rfl _
  | @start i job hcall =>
    have hoccupied := houtside hcall rfl (some (.executing job))
    exact ⟨hoccupied.holder, hoccupied.loop⟩
  | finish hcall => exact houtside hcall rfl _
  | @record i job result _ hcall _ =>
    have hoccupied := houtside hcall rfl (job.afterRecord result)
    exact ⟨hoccupied.holder, hoccupied.loop⟩
  | store _ _ => exact occupied_change hloop _ _ _
  | tick _ => exact ⟨h.holder, h.loop⟩
  | crash =>
    constructor
    · rintro j ⟨⟩
    · rintro j ⟨⟩

theorem occupied_of_reachable {allowed : System F → Move F → Prop}
    (h : Reachable System.Starts Step allowed s) : Occupied s := by
  refine h.invariant (fun s hs => ?_) fun s m s' hs h _ hstep =>
    occupied_step (numbered_of_reachable hs) h hstep
  exact ⟨fun j hj => by simp [hs.holder] at hj, fun j hj => by simp [hs.loop] at hj⟩

end Occupancy

/-! ## Moves of calls -/

section Moves

variable [PyRuntime F] [PydanticTypes F] {s s' : System F} {m : Move F}

/-- A call that goes on has less to do, and the others have as much as before. -/
theorem Step.left_goesOn (hstep : Step s m s') (hgoes : m.goesOn = true) :
    ∃ i phase phase', s.calls i = some phase ∧ s'.calls = Function.update s.calls i phase' ∧
      phase'.elim 0 Phase.left < phase.left ∧ s'.next = s.next := by
  cases hstep with
  | queue _ _ _ _ _ => cases hgoes
  | enter _ => cases hgoes
  | reject _ _ => cases hgoes
  | read _ _ _ => cases hgoes
  | tick _ => cases hgoes
  | crash => cases hgoes
  | refuse hcall _ => exact ⟨_, _, none, hcall, rfl, Phase.left_pos _, rfl⟩
  | lose hcall _ _ => exact ⟨_, _, some (.saving .done), hcall, rfl, by simp [Phase.left, Next.left], rfl⟩
  | claim hcall _ _ => exact ⟨_, _, some (.saving (.execute _)), hcall, rfl, Nat.lt_succ_self 6, rfl⟩
  | @save _ next _ hcall =>
    refine ⟨_, _, next.phase, hcall, rfl, ?_, rfl⟩
    rw [Next.left_phase]
    exact Nat.lt_succ_self _
  | cool hcall _ => exact ⟨_, _, none, hcall, rfl, Phase.left_pos _, rfl⟩
  | pass hcall _ => exact ⟨_, _, some (.ready _), hcall, rfl, Nat.lt_succ_self 5, rfl⟩
  | start hcall => exact ⟨_, _, some (.executing _), hcall, rfl, Nat.lt_succ_self 4, rfl⟩
  | @finish _ job _ hcall => exact ⟨_, _, _, hcall, rfl, job.left_afterExecute _, rfl⟩
  | @record _ job result _ hcall _ => exact ⟨_, _, _, hcall, rfl, job.left_afterRecord result, rfl⟩
  | store hcall _ => exact ⟨_, _, some (.saving .done), hcall, rfl, Nat.lt_succ_self 1, rfl⟩

/-- A new call has seven moves behind its first one at most. -/
theorem Step.left_comes (hstep : Step s m s') (hcomes : m.goesOn = false) :
    s'.left ≤ s.left + m.load := by
  have hnew : ∀ {t : System F} {phase : Phase F}, t.calls = Function.update s.calls s.next (some phase) →
      t.next = s.next + 1 → phase.left ≤ 7 → t.left ≤ s.left + 7 := by
    intro t phase hcalls hnext hleft
    have hsame : ∀ j, j ≠ s.next → t.leftOf j = s.leftOf j := by
      intro j hj
      unfold System.leftOf
      rw [hcalls, Function.update_of_ne hj]
    have hown : t.leftOf s.next = phase.left := by
      unfold System.leftOf
      rw [hcalls, Function.update_self]
      rfl
    unfold System.left
    rw [hnext, total_succ hsame, hown]
    omega
  cases hstep with
  | queue _ _ _ _ _ => exact hnew rfl rfl (by simp [Phase.left, Next.left])
  | enter _ => exact hnew rfl rfl le_rfl
  | reject _ _ => exact hnew rfl rfl (by simp [Phase.left, Next.left])
  | read _ _ _ => exact hnew rfl rfl (by simp [Phase.left])
  | tick _ => exact le_rfl
  | @crash cooldowns =>
    have hzero : total (System.leftOf { s with
        queue := s.file, cooldowns := cooldowns, holder := none, loop := none, calls := fun _ => none })
        s.next = 0 := total_eq_zero.mpr fun _ _ => rfl
    exact hzero.le.trans (Nat.zero_le _)
  | refuse _ _ => cases hcomes
  | lose _ _ _ => cases hcomes
  | claim _ _ _ => cases hcomes
  | save _ => cases hcomes
  | cool _ _ => cases hcomes
  | pass _ _ => cases hcomes
  | start _ => cases hcomes
  | finish _ => cases hcomes
  | record _ _ => cases hcomes
  | store _ _ => cases hcomes

/-! ## Some call can go on -/

/-- What holds in every state of a run. -/
structure Orderly (s : System F) : Prop where
  numbers : Numbered s
  locked : Locked s.calls s.holder
  occupied : Occupied s

theorem orderly_step (h : Orderly s) (hstep : Step s m s') : Orderly s' :=
  ⟨numbered_step h.numbers hstep, locked_step h.locked hstep,
    occupied_step h.numbers h.occupied hstep⟩

/-- A call that reviews an entry refuses, rejects it for the requester, or claims it. -/
theorem Step.exists_reviewing {i : Nat} {approver : Approver F} {approvalId : Str} {cooldowns : Cooldowns}
    (hcall : s.calls i = some (.reviewing approver approvalId cooldowns)) :
    ∃ m s', m.goesOn = true ∧ Step s m s' := by
  cases hlookup : lookupPending s.queue approver.apiKey approvalId (py "approve") with
  | refused response => exact ⟨_, _, rfl, .refuse hcall (Or.inl ⟨response, hlookup⟩)⟩
  | found e =>
    cases hreview : review approver.site approver.reads cooldowns s.now e with
    | raised error =>
      exact ⟨_, _, rfl, .refuse hcall (Or.inr ⟨e, hlookup, Or.inl ⟨error, hreview⟩⟩)⟩
    | lost => exact ⟨_, _, rfl, .lose hcall hlookup hreview⟩
    | cooling task remaining =>
      exact ⟨_, _, rfl, .refuse hcall (Or.inr ⟨e, hlookup, Or.inr ⟨task, remaining, hreview⟩⟩)⟩
    | claimed task => exact ⟨_, _, rfl, .claim hcall hlookup hreview⟩

/-- What happens when every command fails. -/
instance : Inhabited (Executor F) where
  default :=
    { runPlaybook := fun _ _ _ => ⟨false, [], [], -1, none⟩
      runScript := fun _ _ _ => ⟨false, [], [], -1, none⟩
      runCommand := fun _ _ _ => .ok ⟨false, [], [], -1, none⟩
      runRemote := fun _ _ _ _ => .ok ⟨false, [], [], -1, none⟩
      runKubeAction := fun _ _ _ _ => .ok ⟨false, [], [], -1, none⟩ }

/-- As long as a call is in progress there is one that can go on. -/
theorem Step.exists_goesOn (h : Orderly s) {i : Nat} (hi : s.calls i ≠ none) :
    ∃ m s', m.goesOn = true ∧ Step s m s' := by
  cases hholder : s.holder with
  | some j =>
    -- the call with the lock needs nothing else
    rcases h.occupied.holder j hholder with ⟨phase, hcall, hlocks⟩
    cases phase with
    | reviewing approver approvalId cooldowns => exact Step.exists_reviewing hcall
    | saving next => exact ⟨.save true, _, rfl, .save hcall⟩
    | checking task cooldowns => cases hlocks
    | ready job => cases hlocks
    | executing job => cases hlocks
    | recording job result => cases hlocks
    | storing id result => cases hlocks
  | none =>
    -- the lock is free for the call that is there
    have hunlocked : ∀ phase, s.calls i = some phase → phase.locks = false := by
      intro phase hcall
      rw [← Bool.not_eq_true]
      intro hlocks
      cases (h.locked i phase hcall hlocks).symm.trans hholder
    rcases Option.ne_none_iff_exists'.mp hi with ⟨phase, hcall⟩
    cases phase with
    | reviewing approver approvalId cooldowns => cases hunlocked _ hcall
    | saving next => cases hunlocked _ hcall
    | checking task cooldowns =>
      by_cases hfree : task.remaining cooldowns s.now = none
      · exact ⟨_, _, rfl, .pass hcall hfree⟩
      · exact ⟨_, _, rfl, .cool hcall hfree⟩
    | ready job => exact ⟨_, _, rfl, .start hcall⟩
    | executing job => exact ⟨.finish _ _ (job.task.execute default), _, rfl, .finish hcall⟩
    | recording job result => exact ⟨_, _, rfl, .record hcall le_rfl⟩
    | storing id result => exact ⟨_, _, rfl, .store hcall hholder⟩

/-- So the moves are ranked by what is left to do. -/
theorem ranked_step : Ranked (Step (F := F)) Orderly Move.goesOn Move.load System.left where
  keeps _ _ _ := orderly_step
  falls s m s' h hgoes hstep := by
    rcases hstep.left_goesOn hgoes with ⟨i, phase, phase', hcall, hcalls, hlt, hnext⟩
    have hi : i < s.next := by
      by_contra hle
      rw [h.numbers i (not_lt.mp hle)] at hcall
      cases hcall
    unfold System.left
    rw [hnext]
    refine total_lt hi ?_ fun j hj => ?_
    · unfold System.leftOf
      rw [hcalls, Function.update_self, hcall]
      exact hlt
    · unfold System.leftOf
      rw [hcalls, Function.update_of_ne hj]
  grows _ _ _ _ hcomes hstep := hstep.left_comes hcomes
  moves s h hleft := by
    rw [Ne, System.left_eq_zero h.numbers, not_forall] at hleft
    rcases hleft with ⟨i, hi⟩
    exact Step.exists_goesOn h hi

theorem orderly_of_reachable {allowed : System F → Move F → Prop}
    (h : Reachable System.Starts Step allowed s) : Orderly s := by
  refine ⟨numbered_of_reachable h, ?_, occupied_of_reachable h⟩
  refine h.invariant (fun s hs i phase hcall => ?_) fun s m s' _ h _ hstep => locked_step h hstep
  rw [hs.calls] at hcall
  cases hcall

/-- In every run, the calls in progress cannot block one another: as long as there is one, some
call can make its next move. In whatever order the calls then move and others come in between,
all calls together make no more moves than those in progress had left and seven for each new
one, and when no other comes they can all return, with the lock and the event loop free. -/
theorem calls_finish {allowed : System F → Move F → Prop}
    (h : Reachable System.Starts Step allowed s) :
    (∀ i, s.calls i ≠ none → ∃ m s', m.goesOn = true ∧ Step s m s') ∧
      (∀ ms s', Path Step s ms s' → ms.countP Move.goesOn + s'.left ≤
        s.left + 7 * ms.countP fun m => m.load ≠ 0) ∧
      ∃ ms s', Path Step s ms s' ∧ (∀ m ∈ ms, m.goesOn = true) ∧ (∀ i, s'.calls i = none) ∧
        s'.holder = none ∧ s'.loop = none := by
  have horderly := orderly_of_reachable h
  refine ⟨fun i hi => Step.exists_goesOn horderly hi, fun ms s' hpath => ?_, ?_⟩
  · exact (ranked_step.count_le horderly hpath).trans (Nat.add_le_add_left (loads_le ms) _)
  · rcases ranked_step.exists_drained horderly with ⟨ms, s', hpath, hgoes, hzero⟩
    have horderly' : Orderly s' := hpath.invariant horderly fun _ _ _ => orderly_step
    have hcalls := (System.left_eq_zero horderly'.numbers).mp hzero
    refine ⟨ms, s', hpath, hgoes, hcalls, ?_, ?_⟩
    · cases hholder : s'.holder with
      | none => rfl
      | some i =>
        rcases horderly'.occupied.holder i hholder with ⟨phase, hphase, -⟩
        rw [hcalls i] at hphase
        cases hphase
    · cases hloop : s'.loop with
      | none => rfl
      | some i => exact absurd (hcalls i) (horderly'.occupied.loop i hloop)

end Moves

/-- The approval that has claimed an entry goes on, and can come to its end. -/
theorem calls_finish_example : ∃ s : System NanFloat, s.calls 1 ≠ none ∧
    (∃ m s', m.goesOn = true ∧ Step s m s') ∧ ∃ ms s', Path Step s ms s' ∧ s'.calls 1 = none := by
  have hallowed : ∀ (s : System NanFloat), ∀ m ∈ [Move.queue exampleEntry.id, .save true, .enter,
      .claim 1 ((exampleAdmitted exampleAction true).entry exampleEntry.id (exampleRequest true).apiKey)
        (exampleClaim exampleAction) fun _ => none], (fun _ _ => True) s m := fun _ _ _ => trivial
  rcases claimed_run (passes_example rfl rfl true) rfl exampleEntry.id (by decide)
    (review_example rfl 0) hallowed with ⟨s, hreachable, -, hcalls, -⟩
  have hcall : s.calls 1 ≠ none := by
    rw [hcalls, Function.update_self]
    simp
  rcases calls_finish hreachable with ⟨hmoves, -, ms, s', hpath, -, hnone, -⟩
  exact ⟨s, hcall, hmoves 1 hcall, ms, s', hpath, hnone 1⟩

end AutoHeal.Server
