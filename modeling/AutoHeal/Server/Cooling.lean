import AutoHeal.Server.Exclusive

/-!
# Cooldowns of calls in progress

A cooldown is checked before an execution and recorded after it, and nothing keeps two calls
from being between the two at the same time. Executions on a key are apart by the cooldown in
the runs in which no call passes the check while another is there (`executions_spaced`); the
example at the end is a run in which two of them are.
-/

namespace AutoHeal.Server

open Audit Transition

variable {F : Type}

/-! ## Checks -/

/-- The call that passes the check of a cooldown, for a task, with the cooldowns it has read. -/
def Move.checked : Move F → Option (Nat × Task F × Cooldowns)
  | .claim i _ task cooldowns | .pass i task cooldowns => some (i, task, cooldowns)
  | .queue _ | .enter | .refuse | .lose _ | .reject _ | .save _ | .read | .cool | .start ..
  | .finish .. | .record .. | .store _ | .tick | .crash => none

variable [PyRuntime F]

/-- The task is a real execution on the key. -/
def Task.On (k : Str) (t : Task F) : Prop := isSet t.dryRun = false ∧ t.cooldownKey = k

/-- An execution on the key starts when the cooldown is over of each that has started before. -/
def AfterCooldown (k : Str) (c : ℚ) (event : Event F) (past : List (Event F)) : Prop :=
  ∀ call job time, event = .started call job time → job.task.On k →
    ∀ call' job' time', .started call' job' time' ∈ past → job'.task.On k →
      ∃ recorded, .recorded call' k recorded ∈ past ∧ recorded + c ≤ time

/-- The process does not crash, and the cooldown of the key is constant. -/
def ConstantCooldown (k : Str) (c : ℚ) (_ : System F) (m : Move F) : Prop :=
  m ≠ .crash ∧ ∀ i task cooldowns, m.checked = some (i, task, cooldowns) → task.On k →
    task.cooldownSeconds = c

/-- No call has passed the check for the key and is yet to execute, and each execution on it
has been recorded. -/
structure Idle (k : Str) (s : System F) : Prop where
  waiting : ∀ i phase job, s.calls i = some phase → phase.toExecute = some job → ¬ job.task.On k
  recorded : ∀ call job time, .started call job time ∈ s.history → job.task.On k →
    ∃ recorded, .recorded call k recorded ∈ s.history

/-- A call passes the check for the key only while nothing else is on it, having read the
cooldown that is current, and what is pruned has cooled down. -/
structure Spaced (k : Str) (c : ℚ) (s : System F) (m : Move F) : Prop where
  constant : ConstantCooldown k c s m
  alone : ∀ i task cooldowns, m.checked = some (i, task, cooldowns) → task.On k →
    cooldowns k = s.cooldowns k ∧ Idle k s
  kept : ∀ i job nowPrune, m = .record i job nowPrune →
    ∀ last, last = s.now ∨ s.cooldowns k = some last →
      last < nowPrune - maxCooldownRetentionSeconds → last + c ≤ nowPrune

/-! ## What a move does to the cooldowns -/

section Moves

variable [PydanticTypes F] {s s' : System F} {m : Move F}

theorem Step.now_le (hstep : Step s m s') : s.now ≤ s'.now := by
  cases hstep with
  | record _ hclock => exact hclock
  | tick hclock => exact hclock
  | _ => exact le_rfl

/-- An execution that is new is that of a call that was about to. -/
theorem Step.started (hstep : Step s m s') {call : Nat} {job : Job F} {time : ℚ}
    (hmem : .started call job time ∈ s'.history) :
    .started call job time ∈ s.history ∨ time = s.now ∧ s.calls call = some (.ready job) ∧
      s'.calls call = some (.executing job) := by
  cases hstep with
  | @start i job' hcall =>
    rcases List.mem_cons.mp hmem with hnew | hold
    · cases hnew
      exact Or.inr ⟨rfl, hcall, Function.update_self _ _ _⟩
    · exact Or.inl hold
  | @save _ next _ _ =>
    rcases List.mem_append.mp hmem with hnew | hold
    · cases next <;> simp [Next.answers] at hnew
    · exact Or.inl hold
  | record _ _ =>
    rcases List.mem_append.mp hmem with hnew | hold
    · split at hnew <;> simp at hnew
    · exact Or.inl hold
  | queue _ _ _ _ _ => exact Or.inl (by simpa [System.change] using hmem)
  | lose _ _ _ => exact Or.inl (by simpa [System.change] using hmem)
  | claim _ _ _ => exact Or.inl (by simpa [System.change] using hmem)
  | reject _ _ => exact Or.inl (by simpa [System.change] using hmem)
  | _ => exact Or.inl hmem

/-- A record that is new is of the time it is made. -/
theorem Step.recorded (hstep : Step s m s') {call : Nat} {key : Str} {time : ℚ}
    (hmem : .recorded call key time ∈ s'.history) :
    .recorded call key time ∈ s.history ∨ ∃ job nowPrune, m = .record call job nowPrune ∧
      job.task.coolsDown = true ∧ key = job.task.cooldownKey ∧ time = s.now := by
  cases hstep with
  | start _ => exact Or.inl (by simpa using hmem)
  | @save _ next _ _ =>
    rcases List.mem_append.mp hmem with hnew | hold
    · cases next <;> simp [Next.answers] at hnew
    · exact Or.inl hold
  | @record i job _ nowPrune _ _ =>
    rcases List.mem_append.mp hmem with hnew | hold
    · split at hnew
      · next hcools =>
        cases List.mem_singleton.mp hnew
        exact Or.inr ⟨job, nowPrune, rfl, hcools, rfl, rfl⟩
      · cases hnew
    · exact Or.inl hold
  | queue _ _ _ _ _ => exact Or.inl (by simpa [System.change] using hmem)
  | lose _ _ _ => exact Or.inl (by simpa [System.change] using hmem)
  | claim _ _ _ => exact Or.inl (by simpa [System.change] using hmem)
  | reject _ _ => exact Or.inl (by simpa [System.change] using hmem)
  | _ => exact Or.inl hmem

/-- Only a record changes the cooldowns, unless the process crashes. -/
theorem Step.cooldowns (hstep : Step s m s') (hcrash : m ≠ .crash) :
    s'.cooldowns = s.cooldowns ∧ (∀ i job nowPrune, m ≠ .record i job nowPrune) ∨
      ∃ i job nowPrune, m = .record i job nowPrune ∧
        s'.cooldowns = job.task.record s.cooldowns s.now nowPrune ∧ s'.now = nowPrune := by
  cases hstep with
  | @record i job _ nowPrune _ _ => exact Or.inr ⟨i, job, nowPrune, rfl, rfl, rfl⟩
  | crash => exact absurd rfl hcrash
  | _ => exact Or.inl ⟨rfl, by simp⟩

/-- What passes the check has no time left. -/
theorem Step.free (hstep : Step s m s') {i : Nat} {task : Task F} {cooldowns : Cooldowns}
    (hchecked : m.checked = some (i, task, cooldowns)) : task.remaining cooldowns s.now = none := by
  cases hstep with
  | claim _ _ hclaimed =>
    cases hchecked
    exact (review_eq_claimed.mp hclaimed).free
  | pass _ hfree =>
    cases hchecked
    exact hfree
  | _ => cases hchecked

/-- A call is about to execute what it was to, or what it has passed the check for. -/
theorem Step.toExecute_of_checked (hstep : Step s m s') {j : Nat} {phase : Phase F} {job : Job F}
    (hj : s'.calls j = some phase) (hjob : phase.toExecute = some job) :
    (∃ phase', s.calls j = some phase' ∧ phase'.toExecute = some job) ∨
      ∃ cooldowns, m.checked = some (j, job.task, cooldowns) := by
  rcases hstep.toExecute hj hjob with h | ⟨e, cooldowns, rfl, -⟩ | ⟨cooldowns, rfl, -⟩
  · exact Or.inl h
  · exact Or.inr ⟨cooldowns, rfl⟩
  · exact Or.inr ⟨cooldowns, rfl⟩

end Moves

/-! ## The invariant -/

section Invariant

variable {k : Str} {c : ℚ} {s s' : System F} {m : Move F}

/-- The time of a record is over or in the table. -/
def Covered (k : Str) (c : ℚ) (cooldowns : Cooldowns) (now recorded : ℚ) : Prop :=
  recorded + c ≤ now ∨ ∃ last, cooldowns k = some last ∧ recorded ≤ last

/-- Every record is in the past and covered by the table, and a call that is about to execute
on the key is the only one, when the cooldowns of those before it are over. -/
structure Spacing (k : Str) (c : ℚ) (s : System F) : Prop where
  past : ∀ call recorded, .recorded call k recorded ∈ s.history → recorded ≤ s.now
  covered : ∀ call recorded, .recorded call k recorded ∈ s.history →
    Covered k c s.cooldowns s.now recorded
  expired : ∀ i phase job, s.calls i = some phase → phase.toExecute = some job → job.task.On k →
    ∀ call job' time, .started call job' time ∈ s.history → job'.task.On k →
      ∃ recorded, .recorded call k recorded ∈ s.history ∧ recorded + c ≤ s.now
  alone : ∀ i j phase phase' job job', s.calls i = some phase → s.calls j = some phase' →
    phase.toExecute = some job → phase'.toExecute = some job' → job.task.On k → job'.task.On k →
    i = j
  justified : Justified (AfterCooldown k c) s.history

theorem spacing_starts (h : s.Starts) : Spacing k c s := by
  have hcalls : ∀ i phase, s.calls i ≠ some phase := by
    intro i phase hcall
    rw [h.calls] at hcall
    cases hcall
  refine ⟨?_, ?_, fun i phase _ hcall => absurd hcall (hcalls i phase),
    fun i _ phase _ _ _ hcall => absurd hcall (hcalls i phase), ?_⟩
  · rw [h.history]
    rintro call recorded ⟨⟩
  · rw [h.history]
    rintro call recorded ⟨⟩
  · rw [h.history]
    exact justified_nil

omit [PyRuntime F] in
/-- What is pruned has cooled down, so that a table covers what it has covered. -/
theorem covered_prune {lastRun : Cooldowns} {nowPrune recorded last : ℚ}
    (hkept : last < nowPrune - maxCooldownRetentionSeconds → last + c ≤ nowPrune)
    (hlast : lastRun k = some last) (hle : recorded ≤ last) :
    Covered k c (pruneCooldowns lastRun nowPrune) nowPrune recorded := by
  by_cases hold : last < nowPrune - maxCooldownRetentionSeconds
  · have hover := hkept hold
    exact Or.inl (by linarith)
  · exact Or.inr ⟨last, pruneCooldowns_eq_some.mpr ⟨hlast, not_lt.mp hold⟩, hle⟩

/-- What is over stays over. -/
theorem Covered.later {cooldowns : Cooldowns} {now now' recorded : ℚ}
    (h : Covered k c cooldowns now recorded) (hle : now ≤ now') :
    Covered k c cooldowns now' recorded := by
  rcases h with hover | hlast
  · exact Or.inl (hover.trans hle)
  · exact Or.inr hlast

variable [PydanticTypes F]

/-- The records of the key are covered after a move. -/
theorem covered_step (h : Spacing k c s) (hspaced : Spaced k c s m) (hstep : Step s m s')
    (call : Nat) (recorded : ℚ) (hmem : .recorded call k recorded ∈ s'.history) :
    Covered k c s'.cooldowns s'.now recorded := by
  rcases hstep.cooldowns hspaced.constant.1 with ⟨hsame, hnot⟩ | ⟨i, job, nowPrune, rfl, htable, hnow⟩
  · rcases hstep.recorded hmem with hold | ⟨job, nowPrune, hm, -⟩
    · rw [hsame]
      exact (h.covered call recorded hold).later hstep.now_le
    · exact absurd hm (hnot call job nowPrune)
  · have hkept := hspaced.kept i job nowPrune rfl
    have hle := hstep.now_le
    rw [htable, hnow] at *
    unfold Task.record
    split
    · next hcools =>
      by_cases hkey : job.task.cooldownKey = k
      · -- the record of this move is the last of the key
        have hlast : Function.update s.cooldowns job.task.cooldownKey (some s.now) k = some s.now := by
          rw [hkey, Function.update_self]
        refine covered_prune (hkept s.now (Or.inl rfl)) hlast ?_
        rcases hstep.recorded hmem with hold | ⟨_, _, -, -, -, rfl⟩
        · exact h.past call recorded hold
        · exact le_rfl
      · rcases hstep.recorded hmem with hold | ⟨job', _, hm, -, hkey', -⟩
        · rcases h.covered call recorded hold with hover | ⟨last, hlast, hrecorded⟩
          · exact Or.inl (hover.trans hle)
          · refine covered_prune (hkept last (Or.inr hlast)) ?_ hrecorded
            rw [Function.update_of_ne (Ne.symm hkey)]
            exact hlast
        · cases hm
          exact absurd hkey'.symm hkey
    · next hcools =>
      rcases hstep.recorded hmem with hold | ⟨job', _, hm, hcools', -⟩
      · exact (h.covered call recorded hold).later hle
      · cases hm
        exact absurd hcools' hcools

omit [PyRuntime F] [PydanticTypes F] in
/-- A call that executes is about to no more. -/
theorem not_toExecute_of_started {job job' : Job F} {phase : Phase F} {i : Nat}
    (hstarted : s'.calls i = some (.executing job)) (hi : s'.calls i = some phase) :
    phase.toExecute ≠ some job' := by
  rw [hstarted] at hi
  cases hi
  simp [Phase.toExecute]

/-- The cooldowns before a call that is about to execute are over after a move. -/
theorem over_step (hc : 0 < c) (h : Spacing k c s) (hspaced : Spaced k c s m)
    (hstep : Step s m s') {j : Nat} {phase : Phase F} {job : Job F} (hj : s'.calls j = some phase)
    (hjob : phase.toExecute = some job) (hon : job.task.On k) {call : Nat} {job' : Job F} {time : ℚ}
    (hstarted : .started call job' time ∈ s'.history) (hon' : job'.task.On k) :
    ∃ recorded, .recorded call k recorded ∈ s'.history ∧ recorded + c ≤ s'.now := by
  rcases hstep.history with ⟨events, hhistory, -⟩
  have hlater : ∀ {recorded : ℚ}, .recorded call k recorded ∈ s.history → recorded + c ≤ s.now →
      ∃ recorded, .recorded call k recorded ∈ s'.history ∧ recorded + c ≤ s'.now := by
    intro recorded hmem hover
    refine ⟨recorded, ?_, hover.trans hstep.now_le⟩
    rw [hhistory]
    exact List.mem_append_right _ hmem
  rcases hstep.started hstarted with hold | ⟨-, hready, hexecuting⟩
  · rcases hstep.toExecute_of_checked hj hjob with ⟨phase', hj', hjob'⟩ | ⟨cooldowns, hchecked⟩
    · rcases h.expired j phase' job hj' hjob' hon call job' time hold hon' with ⟨recorded, hmem, hover⟩
      exact hlater hmem hover
    · -- the call has just passed the check, with the table as it is
      rcases hspaced.alone j job.task cooldowns hchecked hon with ⟨hcurrent, hidle⟩
      rcases hidle.recorded call job' time hold hon' with ⟨recorded, hmem⟩
      rcases h.covered call recorded hmem with hover | ⟨last, hlast, hle⟩
      · exact hlater hmem hover
      · have hseconds := hspaced.constant.2 j job.task cooldowns hchecked hon
        rcases Task.remaining_eq_none.mp (hstep.free hchecked) with hdry | hzero | hfree
        · rw [hon.1] at hdry
          cases hdry
        · rw [hseconds] at hzero
          exact absurd hzero hc.ne'
        · rw [hon.2, hseconds, secondsRemaining_eq_none hc.ne'] at hfree
          have hover := hfree last (hcurrent.trans hlast)
          exact hlater hmem (by linarith)
  · -- the execution that has just started was the only one about to
    rcases hstep.toExecute_of_checked hj hjob with ⟨phase', hj', hjob'⟩ | ⟨cooldowns, hchecked⟩
    · have hsame : j = call := h.alone j call phase' _ job job' hj' hready hjob' rfl hon hon'
      subst hsame
      exact absurd hjob (not_toExecute_of_started hexecuting hj)
    · exact absurd hon' ((hspaced.alone j job.task cooldowns hchecked hon).2.waiting call _ job' hready rfl)

theorem spacing_step (hc : 0 < c) (h : Spacing k c s) (hspaced : Spaced k c s m)
    (hstep : Step s m s') : Spacing k c s' := by
  refine ⟨?_, covered_step h hspaced hstep, ?_, ?_, ?_⟩
  · intro call recorded hmem
    rcases hstep.recorded hmem with hold | ⟨_, _, -, -, -, rfl⟩
    · exact (h.past call recorded hold).trans hstep.now_le
    · exact hstep.now_le
  · intro j phase job hj hjob hon call job' time hstarted hon'
    exact over_step hc h hspaced hstep hj hjob hon hstarted hon'
  -- two jobs on the key: neither could pass the check while the other was there
  · intro i j phase phase' job job' hi hj hjob hjob' hon hon'
    rcases hstep.toExecute_of_checked hi hjob with ⟨p, hi', hp⟩ | ⟨cooldowns, hchecked⟩
    · rcases hstep.toExecute_of_checked hj hjob' with ⟨p', hj', hp'⟩ | ⟨cooldowns, hchecked⟩
      · exact h.alone i j p p' job job' hi' hj' hp hp' hon hon'
      · exact absurd hon ((hspaced.alone j job'.task cooldowns hchecked hon').2.waiting i p job hi' hp)
    · rcases hstep.toExecute_of_checked hj hjob' with ⟨p', hj', hp'⟩ | ⟨cooldowns', hchecked'⟩
      · exact absurd hon' ((hspaced.alone i job.task cooldowns hchecked hon).2.waiting j p' job' hj' hp')
      · have hsame := Option.some.inj (hchecked.symm.trans hchecked')
        exact congrArg Prod.fst hsame
  · rcases hstep.history with ⟨events, hhistory, hevents⟩
    rw [hhistory]
    by_cases hstarts : ∃ call job time, .started call job time ∈ events
    · rcases hstarts with ⟨call, job, time, hmem⟩
      rcases hevents call job time hmem with ⟨rfl, rfl, hready⟩
      refine ⟨?_, h.justified⟩
      rintro _ _ _ ⟨⟩ hon call' job' time' hstarted hon'
      exact h.expired call _ job hready rfl hon call' job' time' hstarted hon'
    · refine h.justified.append fun event hmem past call job time hevent _ => ?_
      exact absurd ⟨call, job, time, hevent ▸ hmem⟩ hstarts

end Invariant

/-! ## Every run -/

section Runs

variable [PydanticTypes F] {k : Str} {c : ℚ} {s : System F}

theorem spacing_of_reachable (hc : 0 < c) (h : Reachable System.Starts Step (Spaced k c) s) :
    Spacing k c s :=
  h.invariant (fun _ => spacing_starts) fun _ _ _ _ hspacing hspaced hstep =>
    spacing_step hc hspacing hspaced hstep

/-- Executions on a key are apart by its cooldown, where no call passes the check for the key
while another has passed it and is yet to be recorded. -/
theorem executions_spaced (hc : 0 < c) (h : Reachable System.Starts Step (Spaced k c) s) :
    Justified (AfterCooldown k c) s.history := (spacing_of_reachable hc h).justified

end Runs

/-! ## Examples -/

/-- The action of the examples with a cooldown of a minute. -/
def coolingAction : ActionConfig NanFloat := { exampleAction with cooldownSeconds := some 60 }

/-- The key of its cooldown. -/
def coolingKey : Str := py "check|local|"

theorem on_coolingKey : (exampleClaim coolingAction).On coolingKey := ⟨rfl, by decide⟩

theorem on_coolingKey_direct : (exampleAdmitted coolingAction false).task.On coolingKey :=
  ⟨rfl, by decide⟩

theorem constant_of_ne {s : System NanFloat} {m : Move NanFloat} (hcrash : m ≠ .crash)
    (hchecked : ∀ i task cooldowns, m.checked = some (i, task, cooldowns) → task.action = coolingAction) :
    ConstantCooldown coolingKey 60 s m := by
  refine ⟨hcrash, fun i task cooldowns hm _ => ?_⟩
  show task.action.cooldownSeconds.getD 0 = 60
  rw [hchecked i task cooldowns hm]
  rfl

/-- The job of a request that is executed directly. -/
def coolingJob : Job NanFloat := ⟨(exampleAdmitted coolingAction false).task, none⟩

/-- A move that passes no check and records nothing meets the condition. -/
theorem spaced_of_plain {s : System NanFloat} {m : Move NanFloat} (hcrash : m ≠ .crash)
    (hchecked : m.checked = none) (hrecord : ∀ i job nowPrune, m ≠ .record i job nowPrune) :
    Spaced coolingKey 60 s m := by
  refine ⟨constant_of_ne hcrash fun i task cooldowns hm => ?_, fun i task cooldowns hm => ?_,
    fun i job nowPrune hm => absurd hm (hrecord i job nowPrune)⟩
  · rw [hchecked] at hm
    cases hm
  · rw [hchecked] at hm
    cases hm

/-- A request is read, passes the check and starts, when no other call is there and what has
started was recorded. -/
theorem started_run {s : System NanFloat}
    (h : Reachable System.Starts Step (Spaced coolingKey 60) s) (hloop : s.loop = none)
    (hcalls : s.calls = fun _ => none)
    (hrecorded : ∀ call job time, .started call job time ∈ s.history → job.task.On coolingKey →
      ∃ recorded, .recorded call coolingKey recorded ∈ s.history)
    (hfree : coolingJob.task.remaining s.cooldowns s.now = none) :
    ∃ s', Reachable System.Starts Step (Spaced coolingKey 60) s' ∧
      s'.calls = Function.update (fun _ => none) s.next (some (.executing coolingJob)) ∧
      s'.cooldowns = s.cooldowns ∧ s'.loop = some s.next ∧ s'.next = s.next + 1 ∧ s'.now = s.now ∧
      s'.history = .started s.next coolingJob s.now :: s.history := by
  have hread := h.move (spaced_of_plain (by simp) rfl (by simp))
    (Step.read (@passes_example coolingAction rfl rfl false) rfl hloop)
  have hidle : Idle coolingKey { s.goTo s.next (some (.checking coolingJob.task s.cooldowns)) with
      loop := some s.next, next := s.next + 1 } := by
    refine ⟨fun i phase job hi hjob => ?_, hrecorded⟩
    rcases update_calls_eq_some hi with ⟨-, hphase⟩ | ⟨-, hold⟩
    · cases hphase
      cases hjob
    · rw [hcalls] at hold
      cases hold
  have hpassed := hread.move
    ⟨constant_of_ne (by simp) (by rintro _ _ _ ⟨⟩; rfl),
      by rintro _ _ _ ⟨⟩ _; exact ⟨rfl, hidle⟩, by simp⟩
    (Step.pass (System.goTo_calls_self _ _ _) hfree)
  have hstarted := hpassed.move (spaced_of_plain (by simp) rfl (by simp))
    (Step.start (System.goTo_calls_self _ _ _))
  refine ⟨_, hstarted, ?_, rfl, ?_, rfl, rfl, rfl⟩
  · show Function.update (Function.update (Function.update s.calls s.next _) s.next _) s.next _ = _
    rw [Function.update_idem, Function.update_idem, hcalls]
    rfl
  · simp [System.goTo]

/-- The first execution of a run ends and is recorded at once. -/
theorem recorded_run {s : System NanFloat}
    (h : Reachable System.Starts Step (Spaced coolingKey 60) s)
    (hcalls : s.calls = Function.update (fun _ => none) 0 (some (.executing coolingJob)))
    (hloop : s.loop = some 0) (hcooldowns : s.cooldowns = fun _ => none) (hnow : s.now = 0) :
    ∃ s', Reachable System.Starts Step (Spaced coolingKey 60) s' ∧
      (s'.calls = fun _ => none) ∧ s'.loop = none ∧ s'.cooldowns coolingKey = some 0 ∧
      s'.next = s.next ∧ s'.now = 0 ∧ s'.history = .recorded 0 coolingKey 0 :: s.history := by
  have hexecuting : s.calls 0 = some (.executing coolingJob) := by
    rw [hcalls, Function.update_self]
  have hfinished := h.move (spaced_of_plain (by simp) rfl (by simp))
    (@Step.finish _ _ _ _ 0 _ exampleExecutor hexecuting)
  have hkept : ∀ last, last = s.now ∨ s.cooldowns coolingKey = some last →
      last < 0 - maxCooldownRetentionSeconds → last + 60 ≤ 0 := by
    rintro last (rfl | hlast) hlt
    · rw [hnow] at hlt
      norm_num [maxCooldownRetentionSeconds] at hlt
    · rw [hcooldowns] at hlast
      cases hlast
  have hrecorded := hfinished.move
    ⟨constant_of_ne (by simp) (by rintro _ _ _ ⟨⟩), by rintro _ _ _ ⟨⟩,
      by rintro _ _ _ ⟨⟩; exact hkept⟩
    (@Step.record _ _ _ _ 0 coolingJob ⟨true, [], [], 0, none⟩ 0
      (System.goTo_calls_self _ _ _) hnow.le)
  refine ⟨_, hrecorded, ?_, ?_, ?_, rfl, rfl, ?_⟩
  · show Function.update (Function.update s.calls 0 _) 0 none = _
    rw [Function.update_idem, hcalls, Function.update_idem]
    exact Function.update_eq_self 0 (fun _ => none)
  · simp [System.goTo, Job.afterRecord, coolingJob, hloop]
  · show pruneCooldowns (Function.update s.cooldowns coolingKey (some s.now)) 0 coolingKey = some 0
    rw [hnow]
    refine pruneCooldowns_eq_some.mpr ⟨Function.update_self _ _ _, ?_⟩
    norm_num [maxCooldownRetentionSeconds]
  · show .recorded 0 coolingKey s.now :: s.history = _
    rw [hnow]

/-- Two requests on one key, a minute apart, with the record of the first between them. -/
theorem executions_spaced_example : ∃ s : System NanFloat,
    s.history = [.started 1 coolingJob 60, .recorded 0 coolingKey 0, .started 0 coolingJob 0] ∧
      coolingJob.task.On coolingKey ∧ Justified (AfterCooldown coolingKey 60) s.history := by
  have hstart : Reachable System.Starts Step (Spaced coolingKey 60)
      (System.initial fun _ => none : System NanFloat) := .start (System.starts_initial _)
  rcases started_run hstart rfl rfl (by rintro call job time ⟨⟩) rfl with
    ⟨s₁, h₁, hcalls₁, hcooldowns₁, hloop₁, hnext₁, hnow₁, hhistory₁⟩
  rcases recorded_run h₁ hcalls₁ hloop₁ hcooldowns₁ hnow₁ with
    ⟨s₂, h₂, hcalls₂, hloop₂, hcooldown₂, hnext₂, hnow₂, hhistory₂⟩
  have hlater := h₂.move (spaced_of_plain (by simp) rfl (by simp))
    (@Step.tick _ _ _ _ 60 (by rw [hnow₂]; norm_num))
  have hover : coolingJob.task.remaining s₂.cooldowns 60 = none := by
    refine Task.remaining_eq_none.mpr (Or.inr (Or.inr ?_))
    refine (secondsRemaining_eq_none (by decide)).mpr fun last hlast => ?_
    cases hcooldown₂.symm.trans hlast
    show (0 : ℚ) + 60 ≤ 60
    norm_num
  have hrecorded : ∀ call job time, .started call job time ∈ s₂.history →
      job.task.On coolingKey → ∃ recorded, .recorded call coolingKey recorded ∈ s₂.history := by
    intro call job time hmem _
    rw [hhistory₂, hhistory₁] at hmem ⊢
    have hcall : call = 0 := by
      simp [System.initial] at hmem
      exact hmem.1
    exact ⟨0, by rw [hcall]; exact List.mem_cons_self⟩
  rcases started_run hlater hloop₂ hcalls₂ hrecorded hover with ⟨s₃, h₃, -, -, -, -, -, hhistory₃⟩
  refine ⟨s₃, ?_, on_coolingKey_direct, executions_spaced (by norm_num) h₃⟩
  rw [hhistory₃]
  show .started s₂.next coolingJob 60 :: s₂.history = _
  rw [hhistory₂, hhistory₁, hnext₂, hnext₁]
  rfl

/-- An approval and a request pass the check at the same time, and both execute. -/
theorem executions_overlap : ∃ s : System NanFloat,
    Reachable System.Starts Step (ConstantCooldown coolingKey 60) s ∧
      ¬ Justified (AfterCooldown coolingKey 60) s.history := by
  have hallowed : ∀ (s : System NanFloat), ∀ m ∈ [Move.queue exampleEntry.id, .save true, .enter,
      .claim 1 ((exampleAdmitted coolingAction true).entry exampleEntry.id (exampleRequest true).apiKey)
        (exampleClaim coolingAction) fun _ => none], ConstantCooldown coolingKey 60 s m := by
    intro s m hm
    simp only [List.mem_cons, List.not_mem_nil, or_false] at hm
    rcases hm with rfl | rfl | rfl | rfl <;> refine constant_of_ne (by simp) ?_ <;>
      rintro _ _ _ ⟨⟩
    rfl
  rcases claimed_run (passes_example rfl rfl true) rfl exampleEntry.id (by decide)
    (review_example rfl 0) hallowed with
    ⟨s, hreachable, -, hcalls, hcooldowns, -, hloop, hnext, hnow, hhistory⟩
  have hready : s.calls 1 = some (.ready ⟨exampleClaim coolingAction, some exampleEntry.id⟩) := by
    rw [hcalls, Function.update_self]
  -- the request is numbered 2 and reads the cooldowns before the approval has executed
  have hread := hreachable.move (constant_of_ne (by simp) (by rintro _ _ _ ⟨⟩))
    (Step.read (@passes_example coolingAction rfl rfl false) rfl hloop)
  rcases (⟨_, hread, by rw [← hnext]; exact System.goTo_calls_self _ _ _,
      (System.goTo_calls_of_ne _ (by rw [hnext]; decide) _).trans hready, hnow, hhistory⟩ :
    ∃ s₁ : System NanFloat, Reachable System.Starts Step (ConstantCooldown coolingKey 60) s₁ ∧
      s₁.calls 2 = some (.checking (exampleAdmitted coolingAction false).task s.cooldowns) ∧
      s₁.calls 1 = some (.ready ⟨exampleClaim coolingAction, some exampleEntry.id⟩) ∧
      s₁.now = 0 ∧ s₁.history = _) with ⟨s₁, h₁, hchecking, hready₁, hnow₁, hhistory₁⟩
  have hpassed := h₁.move (constant_of_ne (by simp) (by rintro _ _ _ ⟨⟩; rfl))
    (Step.pass hchecking (by rw [hcooldowns]; rfl))
  rcases (⟨_, hpassed, System.goTo_calls_self _ _ _,
      (System.goTo_calls_of_ne _ (by decide) _).trans hready₁, hhistory₁⟩ :
    ∃ s₂ : System NanFloat, Reachable System.Starts Step (ConstantCooldown coolingKey 60) s₂ ∧
      s₂.calls 2 = some (.ready ⟨(exampleAdmitted coolingAction false).task, none⟩) ∧
      s₂.calls 1 = some (.ready ⟨exampleClaim coolingAction, some exampleEntry.id⟩) ∧
      s₂.history = _) with ⟨s₂, h₂, hready₂, hready₁, hhistory₂⟩
  have hfirst := h₂.move (constant_of_ne (by simp) (by rintro _ _ _ ⟨⟩)) (Step.start hready₁)
  have hsecond := hfirst.move (constant_of_ne (by simp) (by rintro _ _ _ ⟨⟩))
    (Step.start ((System.goTo_calls_of_ne _ (by decide) _).trans hready₂))
  refine ⟨_, hsecond, fun hjustified => ?_⟩
  rcases hjustified.1 2 _ _ rfl on_coolingKey_direct 1 _ _ List.mem_cons_self on_coolingKey with
    ⟨recorded, hmem, -⟩
  change Event.recorded 1 coolingKey recorded ∈ _ :: s₂.history at hmem
  rw [hhistory₂] at hmem
  simp at hmem

end AutoHeal.Server
