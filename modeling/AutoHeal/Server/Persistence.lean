import AutoHeal.Server.Exclusive

/-!
# The queue and its file

What holds in the runs in which the state file can be written and the process is restarted
only while nobody has the lock: then the file is the queue, entries stay in the queue, in
order, until they leave `pending`, none comes back, and a refusal changes nothing
(`queue_persists`).
-/

namespace AutoHeal.Server

open Audit Transition

variable {F : Type}

/-- The state file can be written, and the process crashes only while the lock is free. -/
def QuietRestarts (s : System F) (m : Move F) : Prop :=
  m ≠ .save false ∧ (m = .crash → s.holder = none)

/-! ## What was queued and what has left -/

def Event.queues : Event F → Option Uuid
  | .queued id => some id
  | .left _ | .claimed .. | .rejected _ | .started .. | .recorded .. => none

def Event.leaves : Event F → Option Uuid
  | .left id => some id
  | .queued _ | .claimed .. | .rejected _ | .started .. | .recorded .. => none

/-- The entries that were queued, the last first. -/
def queuedIds (history : List (Event F)) : List Uuid := history.filterMap Event.queues

/-- The entries that have left `pending`, the last first. -/
def leftIds (history : List (Event F)) : List Uuid := history.filterMap Event.leaves

/-- The entry that a move queues. -/
def Move.queues : Move F → Option Uuid
  | .queue id => some id
  | .enter | .refuse | .lose _ | .claim .. | .reject _ | .save _ | .read | .cool | .pass ..
  | .start .. | .finish .. | .record .. | .store _ | .tick | .crash => none

section Moves

variable [PyRuntime F] [PydanticTypes F] {s s' : System F} {m : Move F}

/-- What a move adds to the entries that were queued, and to those that have left. -/
theorem Step.queuedIds (hstep : Step s m s') :
    Server.queuedIds s'.history = m.queues.toList ++ Server.queuedIds s.history ∧
      leftIds s'.history = m.leaves.toList ++ leftIds s.history := by
  cases hstep with
  | @save _ next _ _ => cases next <;> exact ⟨rfl, rfl⟩
  | @record i job result nowPrune _ _ =>
    show Server.queuedIds ((if _ then _ else _) ++ s.history) = _ ∧
      leftIds ((if _ then _ else _) ++ s.history) = _
    split <;> exact ⟨rfl, rfl⟩
  | _ => exact ⟨rfl, rfl⟩

end Moves

/-! ## The invariant -/

section Invariant

variable [PyRuntime F] {s s' : System F} {m : Move F}

/-- Unless a call is about to save, the file is the queue. Neither has too many processed
entries; those pending in the queue are those that were queued and have not left. -/
structure Persisted (s : System F) : Prop where
  agrees : (∀ i next, s.calls i ≠ some (.saving next)) → s.file = s.queue.map Approval.reread
  bounded : s.queue.countP Approval.isProcessed ≤ maxProcessedApprovals
  fileBounded : s.file.countP Approval.isProcessed ≤ maxProcessedApprovals
  pending : pendingIds s.queue =
    (queuedIds s.history).reverse.filter fun id => id ∉ leftIds s.history
  left : ∀ e ∈ s.queue, e.status ≠ .pending → e.id ∈ leftIds s.history
  drawn : ∀ id ∈ leftIds s.history, id ∈ s.used

theorem persisted_starts (h : s.Starts) : Persisted s := by
  have hfile : s.file = [] := by
    rw [System.file, h.stateFile]
    rfl
  refine ⟨fun _ => ?_, ?_, ?_, ?_, ?_, ?_⟩
  · rw [hfile, h.queue]
    rfl
  · rw [h.queue]
    exact Nat.zero_le _
  · rw [hfile]
    exact Nat.zero_le _
  · rw [h.queue, h.history]
    rfl
  · rw [h.queue]
    rintro e ⟨⟩
  · rw [h.history]
    rintro id ⟨⟩

omit [PyRuntime F] in
theorem countP_pruneQueue_le (queue : List (Approval F)) :
    (pruneQueue queue).countP Approval.isProcessed ≤ maxProcessedApprovals := by
  rw [pruneQueue_eq]
  exact Retain.countP_keepLast_le _ _

theorem countP_reread (queue : List (Approval F)) :
    (queue.map Approval.reread).countP Approval.isProcessed = queue.countP Approval.isProcessed := by
  rw [List.countP_map]
  rfl

theorem map_reread_reread (queue : List (Approval F)) :
    (queue.map Approval.reread).map Approval.reread = queue.map Approval.reread := by
  rw [List.map_map]
  exact List.map_congr_left fun e _ => reread_reread e

/-- The lock is free only while no call is about to save. -/
theorem Consistent.not_saving (h : Consistent s) (hfree : s.holder = none) (i : Nat) (next : Next F) :
    s.calls i ≠ some (.saving next) := by
  intro hcall
  have hheld := h.locked i _ hcall rfl
  rw [hfree] at hheld
  cases hheld

variable [PydanticTypes F]

/-- The file after a move, unless a call is then about to save. -/
theorem agrees_step (hs : Consistent s) (hnumbers : Numbered s) (h : Persisted s)
    (hquiet : QuietRestarts s m) (hstep : Step s m s')
    (hnone : ∀ i next, s'.calls i ≠ some (.saving next)) :
    s'.file = s'.queue.map Approval.reread := by
  -- a call that is not about to save may go on, where no other is
  have hkeep : ∀ {i : Nat} {phase' : Option (Phase F)}, (∀ next, s.calls i ≠ some (.saving next)) →
      (∀ j next, Function.update s.calls i phase' j ≠ some (.saving next)) →
      s.file = s.queue.map Approval.reread := by
    intro i phase' hi hothers
    refine h.agrees fun j next hj => ?_
    by_cases hji : j = i
    · exact hi next (hji ▸ hj)
    · refine hothers j next ?_
      rwa [Function.update_of_ne hji]
  have hother : ∀ {i : Nat} {phase : Phase F}, s.calls i = some phase →
      (∀ next, phase ≠ .saving next) → ∀ next, s.calls i ≠ some (.saving next) := by
    intro i phase hcall hphase next hsaving
    exact hphase next (Option.some.inj (hcall.symm.trans hsaving))
  have hnew : ∀ next, s.calls s.next ≠ some (.saving next) := by
    intro next hsaving
    rw [hnumbers s.next le_rfl] at hsaving
    cases hsaving
  cases hstep with
  | queue _ _ _ _ _ => exact absurd (Function.update_self _ _ _) (hnone _ .done)
  | enter _ => exact hkeep hnew hnone
  | refuse hcall _ => exact hkeep (hother hcall (by simp)) hnone
  | lose _ _ _ => exact absurd (Function.update_self _ _ _) (hnone _ .done)
  | claim _ _ _ => exact absurd (Function.update_self _ _ _) (hnone _ _)
  | reject _ _ => exact absurd (Function.update_self _ _ _) (hnone _ _)
  | @save _ _ writes _ =>
    cases writes with
    | true => exact loadApprovalQueue_queueText s.queue
    | false => exact absurd rfl hquiet.1
  | read _ _ _ => exact hkeep hnew hnone
  | cool hcall _ => exact hkeep (hother hcall (by simp)) hnone
  | pass hcall _ => exact hkeep (hother hcall (by simp)) hnone
  | start hcall => exact hkeep (hother hcall (by simp)) hnone
  | finish hcall => exact hkeep (hother hcall (by simp)) hnone
  | record hcall _ => exact hkeep (hother hcall (by simp)) hnone
  | store _ _ => exact absurd (Function.update_self _ _ _) (hnone _ .done)
  | tick _ => exact h.agrees hnone
  | crash =>
    -- the queue is what the file was, which is the queue that was saved
    have hfile := h.agrees (hs.not_saving (hquiet.2 rfl))
    show s.file = s.file.map Approval.reread
    rw [hfile, map_reread_reread]

omit [PydanticTypes F] in
/-- Neither the queue nor the file gets too many processed entries. -/
theorem Stored.bounded (h : Persisted s) (hstored : Stored s s') :
    s'.queue.countP Approval.isProcessed ≤ maxProcessedApprovals ∧
      s'.file.countP Approval.isProcessed ≤ maxProcessedApprovals := by
  cases hstored with
  | same hqueue hfile _ => rw [hqueue, hfile]; exact ⟨h.bounded, h.fileBounded⟩
  | append _ _ _ hqueue hfile _ =>
    rw [hqueue, hfile]; exact ⟨countP_pruneQueue_le _, h.fileBounded⟩
  | leave _ _ hqueue hfile _ => rw [hqueue, hfile]; exact ⟨countP_pruneQueue_le _, h.fileBounded⟩
  | settle _ hqueue hfile _ => rw [hqueue, hfile]; exact ⟨countP_pruneQueue_le _, h.fileBounded⟩
  | save hqueue hfile _ =>
    rw [hqueue, hfile, countP_reread]; exact ⟨h.bounded, h.bounded⟩
  | load hqueue hfile _ => rw [hqueue, hfile]; exact ⟨h.fileBounded, h.fileBounded⟩

/-- What is pending in the queue are still the entries that were queued and have not left. -/
theorem pending_step (hs : Consistent s) (h : Persisted s) (hquiet : QuietRestarts s m)
    (hstep : Step s m s') : pendingIds s'.queue =
      (queuedIds s'.history).reverse.filter fun id => id ∉ leftIds s'.history := by
  have hevents := hstep.queuedIds
  rw [hstep.pendingIds fun i id result hcall => hs.storing hcall, hevents.1, hevents.2]
  have hleave : ∀ id, (pendingIds s.queue).filter (fun id' => id' ≠ id) =
      (queuedIds s.history).reverse.filter fun id' => id' ∉ id :: leftIds s.history := by
    intro id
    rw [h.pending, List.filter_filter]
    refine List.filter_congr fun id' _ => ?_
    simp [not_or]
  cases hstep with
  | @queue _ _ _ _ _ _ id _ _ _ _ hfresh =>
    have hnotLeft : id ∉ leftIds s.history := fun hmem => hfresh (h.drawn id hmem)
    show pendingIds s.queue ++ [id] = (id :: queuedIds s.history).reverse.filter _
    have hkept : [id].filter (fun id' => id' ∉ leftIds s.history) = [id] := by simp [hnotLeft]
    rw [List.reverse_cons, List.filter_append]
    exact congrArg₂ (· ++ ·) h.pending hkept.symm
  | lose _ _ _ => exact hleave _
  | claim _ _ _ => exact hleave _
  | reject _ _ => exact hleave _
  | crash =>
    show pendingIds s.file = _
    rw [h.agrees (hs.not_saving (hquiet.2 rfl)), pendingIds_reread]
    exact h.pending
  | _ => exact h.pending

/-- An entry that is not pending has left. -/
theorem left_step (hs : Consistent s) (h : Persisted s) (hquiet : QuietRestarts s m)
    (hstep : Step s m s') :
    ∀ e ∈ s'.queue, e.status ≠ .pending → e.id ∈ leftIds s'.history := by
  rw [hstep.queuedIds.2]
  have hold : ∀ e ∈ s.queue, e.status ≠ .pending → e.id ∈ m.leaves.toList ++ leftIds s.history :=
    fun e he hprocessed => List.mem_append_right _ (h.left e he hprocessed)
  -- the entry with an id that leaves has left, and any other is as it was
  have hupdated : ∀ {id : Uuid} {f : Approval F → Approval F}, m.leaves = some id →
      (∀ x : Approval F, x.id = id → (f x).id = id) →
      ∀ e ∈ pruneQueue (updateEntry s.queue id f), e.status ≠ .pending →
        e.id ∈ m.leaves.toList ++ leftIds s.history := by
    intro id f hleaves hid e he hprocessed
    rcases List.mem_map.mp ((sublist_pruneQueue _).subset he) with ⟨x, hx, rfl⟩
    split at hprocessed
    · next hxid =>
      rw [if_pos hxid, hid x hxid, hleaves]
      exact List.mem_append_left _ (List.mem_singleton.mpr rfl)
    · next hxid =>
      rw [if_neg hxid]
      exact hold x hx hprocessed
  cases hstep with
  | queue _ _ _ _ _ =>
    intro e he hprocessed
    rcases List.mem_append.mp ((sublist_pruneQueue _).subset he) with he | he
    · exact hold e he hprocessed
    · rw [List.mem_singleton.mp he] at hprocessed
      exact absurd rfl hprocessed
  | lose _ _ _ => exact hupdated rfl fun _ _ => rfl
  | claim _ _ _ => exact hupdated rfl fun _ _ => rfl
  | reject _ _ => exact hupdated rfl fun _ _ => rfl
  | @store _ id result hcall _ =>
    -- the entry of the call is processed already
    intro e he hprocessed
    rcases List.mem_map.mp ((sublist_pruneQueue _).subset he) with ⟨x, hx, rfl⟩
    split at hprocessed
    · next hxid =>
      have hxprocessed : x.status ≠ .pending := by
        intro hpending
        exact hs.storing hcall (mem_pendingIds.mpr ⟨x, hx, hxid, hpending⟩)
      rw [if_pos hxid]
      cases result with
      | none => exact hold x hx hxprocessed
      | some result => exact hold x hx hxprocessed
    · next hxid =>
      rw [if_neg hxid]
      exact hold x hx hprocessed
  | crash =>
    intro e he hprocessed
    change e ∈ s.file at he
    rw [h.agrees (hs.not_saving (hquiet.2 rfl))] at he
    rcases List.mem_map.mp he with ⟨x, hx, rfl⟩
    exact hold x hx hprocessed
  | _ => exact hold

theorem persisted_step (hs : Consistent s) (hnumbers : Numbered s) (h : Persisted s)
    (hquiet : QuietRestarts s m) (hstep : Step s m s') : Persisted s' := by
  have hbounded := hstep.stored.bounded h
  refine ⟨agrees_step hs hnumbers h hquiet hstep, hbounded.1, hbounded.2,
    pending_step hs h hquiet hstep, left_step hs h hquiet hstep, ?_⟩
  intro id hid
  rw [hstep.queuedIds.2] at hid
  refine hstep.used_subset ?_
  rcases List.mem_append.mp hid with hid | hid
  · exact hs.queue.pending_used (hstep.pending_of_leaves (Option.mem_toList.mp hid))
  · exact h.drawn id hid

theorem persisted_of_reachable (h : Reachable System.Starts Step QuietRestarts s) : Persisted s :=
  h.invariant (fun _ => persisted_starts) fun _ _ _ hs hpersisted hquiet hstep =>
    persisted_step (consistent_of_reachable hs) (numbered_of_reachable hs) hpersisted hquiet hstep

end Invariant

/-! ## Refusals -/

/-- The answers of `approve_approval` and `reject_approval` that refuse: the entry is unknown,
or processed, the role has no right to, the request is of the same key, the action cools down. -/
inductive Refusal : Response F → Prop
  | unknown : Refusal (.error 404 (py "Approval not found"))
  | processed (status : Status) : Refusal (.error 400 (py "Already " ++ status.text))
  | approving : Refusal (.error 403 (py "Approving actions is not permitted for your role"))
  | rejecting : Refusal (.error 403 (py "Rejecting actions is not permitted for your role"))
  | approvesOwn : Refusal (.error 403 (py "You cannot approve your own request"))
  | rejectsOwn : Refusal (.error 403 (py "You cannot reject your own request"))
  | cooling (detail : Str) (seconds : ℚ) : Refusal (.blocked 409 detail seconds)

section Refusals

variable {site : Site F} {env : RequestEnv F} {server : ServerState F} {apiKey approvalId : Str}
  {response : Response F}

theorem not_refusal_lost : ¬ Refusal (.error 403 lostReason : Response F) := by
  generalize htext : lostReason = text
  intro h
  cases h <;> exact absurd htext (by decide)

theorem not_refusal_noExecutable : ¬ Refusal (.error 400 noExecutableError : Response F) := by
  generalize htext : noExecutableError = text
  intro h
  cases h with
  | processed status => cases status <;> exact absurd htext (by decide)

variable [PyRuntime F] [PyDates F] [PydanticTypes F]

/-- An approval that answers with a refusal leaves the queue and its file as they are. -/
theorem approve_refusal (hanswer : (approve site env server apiKey approvalId).1.answer = .ok response)
    (hrefusal : Refusal response) :
    (approve site env server apiKey approvalId).1.server.queue = server.queue ∧
      (approve site env server apiKey approvalId).1.server.stateFile = server.stateFile := by
  by_cases happrovable : ∃ e, Approvable site env server apiKey approvalId e
  · rcases happrovable with ⟨e, he⟩
    rw [approve_of_approvable he] at hanswer ⊢
    simp only at hanswer ⊢
    generalize getRoleFromApiKey (resolveApiKeys site.auth env.vault.role) apiKey = role at hanswer ⊢
    unfold approvePending at hanswer ⊢
    cases hreview : review site env.vault server.cooldowns env.clock.check e with
    | raised error => exact ⟨rfl, rfl⟩
    -- an entry that was changed is not answered with a refusal
    | lost =>
      rw [hreview] at hanswer
      cases hanswer
      exact absurd hrefusal not_refusal_lost
    | cooling task remaining =>
      rcases withAudit_server site env server (task.blockEntry apiKey role)
        (.ok (task.blockResponse remaining)) [] with ⟨log, hlog⟩
      simp only [hlog, and_self]
    | claimed task =>
      rw [hreview] at hanswer
      simp only at hanswer
      unfold approveExecute at hanswer
      rcases hresult : task.execute env.executor with error | _ | result
      · rw [hresult] at hanswer
        cases hanswer
      · rw [hresult] at hanswer
        cases hanswer
        exact absurd hrefusal not_refusal_noExecutable
      · rw [hresult] at hanswer
        simp only [Outcome.after] at hanswer
        generalize ((e.claim apiKey role).finish result).approvedEntry task apiKey role result =
          entry at hanswer
        rcases withAudit_answer site env _ entry (.ok (.ok (approvedBody result)))
          [.notified (task.notify (e.claim apiKey role).requestedBy result)] with ha | ⟨error, ha⟩
        · rw [ha] at hanswer
          cases hanswer
          cases hrefusal
        · rw [ha] at hanswer
          cases hanswer
  · rcases approve_of_not_approvable (not_exists.mp happrovable) with ⟨status, detail, h⟩
    rw [h]
    exact ⟨rfl, rfl⟩

omit [PydanticTypes F] in
/-- So does a rejection. -/
theorem reject_refusal (hanswer : (reject site env server apiKey approvalId).1.answer = .ok response)
    (hrefusal : Refusal response) :
    (reject site env server apiKey approvalId).1.server.queue = server.queue ∧
      (reject site env server apiKey approvalId).1.server.stateFile = server.stateFile := by
  unfold reject at hanswer ⊢
  simp only at hanswer ⊢
  generalize getRoleFromApiKey (resolveApiKeys site.auth env.vault.role) apiKey = role at hanswer ⊢
  split_ifs at hanswer ⊢ with hrole
  · exact ⟨rfl, rfl⟩
  · cases hlookup : lookupPending server.queue apiKey approvalId (py "reject") with
    | refused response => exact ⟨rfl, rfl⟩
    | found e =>
      rw [hlookup] at hanswer
      simp only at hanswer
      unfold rejectPending at hanswer
      split at hanswer
      -- past the gates the entry is rejected, and neither answer that follows is a refusal
      · next payload _ =>
        simp only at hanswer
        generalize Approval.rejectedEntry _ payload apiKey role = entry at hanswer
        rcases withAudit_answer site env _ entry
          (.ok (.ok [(.str (py "status"), .str (py "rejected"))])) [] with ha | ⟨error, ha⟩
        · rw [ha] at hanswer
          cases hanswer
          cases hrefusal
        · rw [ha] at hanswer
          cases hanswer
      · cases hanswer

end Refusals

/-! ## Every run -/

section Runs

variable [PyRuntime F] [PyDates F] [PydanticTypes F] {s : System F}

omit [PyDates F] in
/-- What leaves `pending` has left for good. -/
theorem stays_left (h : Reachable System.Starts Step QuietRestarts s) {s' : System F}
    (hrun : Reachable (fun t => t = s) Step QuietRestarts s') {e : Approval F} (he : e ∈ s.queue)
    (hprocessed : e.status ≠ .pending) : e.id ∉ pendingIds s'.queue := by
  have hleft : e.id ∈ leftIds s'.history := by
    refine @Reachable.invariant _ _ _ _ _ (fun t => e.id ∈ leftIds t.history) _ hrun ?_ ?_
    · rintro t rfl
      exact (persisted_of_reachable h).left e he hprocessed
    · intro t m t' _ hmem _ hstep
      rw [hstep.queuedIds.2]
      exact List.mem_append_right _ hmem
  rw [(persisted_of_reachable (h.trans hrun)).pending]
  simp [hleft]

/-- While the lock is free, the file is the queue, with each pair of surrogates that is next
to another in a string as one character. Ids are distinct, there are not too many processed
entries, what was queued and has not left is in the queue, pending and in order, what has left
is not pending again, and a refusal changes neither the queue nor the file. -/
theorem queue_persists (h : Reachable System.Starts Step QuietRestarts s) :
    (s.holder = none → s.file = s.queue.map Approval.reread) ∧
      (s.queue.map Approval.id).Nodup ∧
      s.queue.countP Approval.isProcessed ≤ maxProcessedApprovals ∧
      (pendingIds s.queue =
        (queuedIds s.history).reverse.filter fun id => id ∉ leftIds s.history) ∧
      (∀ e ∈ s.queue, e.status = .pending ↔ e.id ∉ leftIds s.history) ∧
      (∀ s', Reachable (fun t => t = s) Step QuietRestarts s' →
        ∀ e ∈ s.queue, e.status ≠ .pending → e.id ∉ pendingIds s'.queue) ∧
      ∀ site env hits log apiKey approvalId response, Refusal response →
        ((approve site env (s.server hits log) apiKey approvalId).1.answer = .ok response →
          (approve site env (s.server hits log) apiKey approvalId).1.server.queue = s.queue ∧
          (approve site env (s.server hits log) apiKey approvalId).1.server.stateFile =
            s.stateFile) ∧
        ((reject site env (s.server hits log) apiKey approvalId).1.answer = .ok response →
          (reject site env (s.server hits log) apiKey approvalId).1.server.queue = s.queue ∧
          (reject site env (s.server hits log) apiKey approvalId).1.server.stateFile =
            s.stateFile) := by
  have hs := consistent_of_reachable h
  have hpersisted := persisted_of_reachable h
  refine ⟨fun hfree => hpersisted.agrees (hs.not_saving hfree), hs.queue.ids, hpersisted.bounded,
    hpersisted.pending, ?_, fun s' hrun e => stays_left h hrun, ?_⟩
  -- pending ids are those queued that have not left, so an entry in the queue is one or the other
  · intro e he
    constructor
    · intro hpending
      have hmem : e.id ∈ pendingIds s.queue := mem_pendingIds.mpr ⟨e, he, rfl, hpending⟩
      rw [hpersisted.pending] at hmem
      simpa using (List.mem_filter.mp hmem).2
    · intro hstays
      by_contra hprocessed
      exact hstays (hpersisted.left e he hprocessed)
  · intro site env hits log apiKey approvalId response hrefusal
    exact ⟨fun hanswer => approve_refusal hanswer hrefusal,
      fun hanswer => reject_refusal hanswer hrefusal⟩

end Runs

/-! ## Examples -/

theorem quietRestarts_of_ne {s : System F} {m : Move F} (hsave : m ≠ .save false) (hcrash : m ≠ .crash) :
    QuietRestarts s m := ⟨hsave, fun h => absurd h hcrash⟩

/-- A request is queued, and the file is the queue. -/
theorem queue_persists_example : ∃ s : System NanFloat, s.holder = none ∧ s.queue = [exampleEntry] ∧
    s.file = [exampleEntry.reread] := by
  have hallowed : ∀ (s : System NanFloat), ∀ m ∈ [Move.queue exampleEntry.id, .save true],
      QuietRestarts s m := by
    intro s m hm
    simp only [List.mem_cons, List.not_mem_nil, or_false] at hm
    rcases hm with rfl | rfl <;> exact quietRestarts_of_ne (by simp) (by simp)
  rcases queued_run (@passes_example exampleAction rfl rfl true) rfl exampleEntry.id
    (fun _ => none) hallowed with ⟨s, hreachable, hqueue, -, -, hfree, -⟩
  refine ⟨s, hfree, hqueue, ?_⟩
  rw [(queue_persists hreachable).1 hfree, hqueue]
  rfl

/-- An action whose command has two parameters next to each other. -/
def pairAction : ActionConfig NanFloat :=
  { exampleAction with command := some (py "echo \x7ba\x7d\x7bb\x7d") }

theorem jsonValue_pairPayload : JsonValue (.dict ([(.str (py "event_type"), .str (py "check")),
    (.str (py "parameters"), .dict [(.str (py "a"), .str [highHalf]), (.str (py "b"), .str [lowHalf])]),
    (.str (py "dry_run"), .bool true),
    (.str (py "approval_required"), .bool true)] : Dict NanFloat)) := by
  have hparameters : JsonValue (.dict ([(.str (py "a"), .str [highHalf]),
      (.str (py "b"), .str [lowHalf])] : Dict NanFloat)) :=
    (jsonValue_empty.cons (by decide) rfl (.str (by decide))).cons (by decide) rfl (.str (by decide))
  exact (((jsonValue_empty.cons (by decide) rfl (.bool true)).cons (by decide) rfl (.bool true)).cons
    (by decide) rfl hparameters).cons (by decide) rfl (.str (by decide))

/-- A payload with the halves as those parameters. -/
def pairPayload : JsonDoc NanFloat :=
  ⟨.dict [(.str (py "event_type"), .str (py "check")),
      (.str (py "parameters"), .dict [(.str (py "a"), .str [highHalf]), (.str (py "b"), .str [lowHalf])]),
      (.str (py "dry_run"), .bool true),
      (.str (py "approval_required"), .bool true)],
    jsonValue_pairPayload.keyed⟩

def pairAdmitted : Admitted NanFloat :=
  ⟨pairPayload, ⟨py "check", none,
      some [(py "a", .str [highHalf]), (py "b", .str [lowHalf])], some true, some true⟩,
    some (py "operator"), pairAction, py "local", exampleController⟩

def pairRequest : WebhookRequest := ⟨py "operator-key", some (print .spaced pairPayload.val), none⟩

theorem passes_pair :
    Passes (exampleSite (.literal exampleKeys) pairAction [(py "local", exampleController)])
      (.steady []) (exampleRequestEnv (.steady [])).clock (exampleServer []).hits pairRequest
      pairAdmitted :=
  ⟨requestJson_print jsonValue_pairPayload rfl, rfl, rfl, rfl, rfl, rfl, rfl, rfl, rfl, by
    simp [pairAdmitted, overrides], rfl, rfl, rfl, rfl⟩

/-- A dry run of that command says what it would run. -/
def pairExecutor : Executor NanFloat :=
  { exampleExecutor with
    runCommand := fun _ params _ =>
      .ok ⟨true, py "[DRY-RUN] Would run command: echo " ++ params.flatMap fun kv => pyStr kv.2,
        [], 0, none⟩ }

def pairResult : ExecResult :=
  ⟨true, py "[DRY-RUN] Would run command: echo " ++ [highHalf, lowHalf], [], 0, none⟩

theorem execute_pair : pairAdmitted.task.execute pairExecutor = .ok (some pairResult) := rfl

/-- The output of a dry run ends in the two halves. The lock is free, and the file has the
character in place of them. -/
theorem file_is_not_queue : ∃ s : System NanFloat,
    Reachable System.Starts Step QuietRestarts s ∧ s.holder = none ∧ s.file ≠ s.queue := by
  have hreview : review (exampleApprover pairAction).site (exampleApprover pairAction).reads
      (fun _ => none) 0 (pairAdmitted.entry exampleEntry.id pairRequest.apiKey) =
      .claimed pairAdmitted.task :=
    review_eq_claimed.mpr ⟨passes_pair.valid, rfl, rfl, rfl, rfl, Task.remaining_eq_none.mpr (Or.inl rfl)⟩
  have hclaiming : ∀ (s : System NanFloat), ∀ m ∈ [Move.queue exampleEntry.id, .save true, .enter,
      .claim 1 (pairAdmitted.entry exampleEntry.id pairRequest.apiKey) pairAdmitted.task
        fun _ => none], QuietRestarts s m := by
    intro s m hm
    simp only [List.mem_cons, List.not_mem_nil, or_false] at hm
    rcases hm with rfl | rfl | rfl | rfl <;> exact quietRestarts_of_ne (by simp) (by simp)
  rcases claimed_run passes_pair rfl exampleEntry.id (by decide) hreview hclaiming with
    ⟨s₀, h₀, hqueue₀, hcalls, -, hholder, -, -, -, -⟩
  rcases settled_run h₀ (by rw [hcalls, Function.update_self]) rfl execute_pair hholder
    (by
      intro t m hm
      simp only [List.mem_cons, List.not_mem_nil, or_false] at hm
      rcases hm with rfl | rfl | rfl | rfl | rfl <;> exact quietRestarts_of_ne (by simp) (by simp)) with
    ⟨s, hquiet, hqueue, hfree⟩
  let claimed := (pairAdmitted.entry exampleEntry.id pairRequest.apiKey).claim
    (exampleApprover pairAction).apiKey (exampleApprover pairAction).role
  -- the queue has the two halves; the file has what reading them back gives
  have hfinal : s.queue = [claimed.settle (some pairResult)] := by
    rw [hqueue, hqueue₀]
    exact (congrArg pruneQueue (updateEntry_singleton claimed _)).trans (pruneQueue_singleton _)
  refine ⟨s, hquiet, hfree, fun hsame => ?_⟩
  have hreread := (persisted_of_reachable hquiet).agrees
    ((consistent_of_reachable hquiet).not_saving hfree)
  rw [hsame, hfinal] at hreread
  have hresult : pairResult.asDict = readDict (pairResult.asDict : Dict NanFloat) :=
    Option.some.inj (congrArg Approval.result (List.head_eq_of_cons_eq hreread))
  have hunpaired := ((readDict_asDict_eq_iff pairResult).mp hresult.symm).1
  exact absurd ((joinSurrogates_eq_self_iff _).mpr hunpaired) (by decide)

end AutoHeal.Server
