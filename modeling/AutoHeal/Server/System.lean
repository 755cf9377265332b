import AutoHeal.Server.Equivalence
import AutoHeal.Lib.Transition

/-!
# Calls in progress

The server with any number of calls of `/webhook`, `approve` and `reject` in progress. A
call of `/webhook` has the event loop for itself; calls of the other two run in threads of
their own and take `approval_lock` for the sections that read or change the queue. A
section that changes the queue ends in a save, which replaces the state file and releases
the lock. The process may crash at any time and starts again from the state file.
-/

namespace AutoHeal.Server

open Audit

/-! ## Calls -/

/-- A call of `approve_approval` or `reject_approval` by a key that may make it, with the
configuration and the keys it sees. -/
structure Approver (F : Type) where
  apiKey : Str
  site : Site F
  reads : VaultReads
  permitted : hasPermission site.auth
    (getRoleFromApiKey (resolveApiKeys site.auth reads.role) apiKey) (py "approve_actions") = true

def Approver.role {F : Type} (approver : Approver F) : Option Str :=
  getRoleFromApiKey (resolveApiKeys approver.site.auth approver.reads.role) approver.apiKey

/-- What a call is to execute, for an approval entry or for `/webhook`. -/
structure Job (F : Type) where
  task : Task F
  entryId : Option Uuid

/-- What comes after a save. -/
inductive Next (F : Type) where
  | done
  | rejected (id : Uuid)
  | execute (job : Job F)

/-- How far a call is. The cooldowns are those it has read, before it reads the clock. -/
inductive Phase (F : Type) where
  | reviewing (approver : Approver F) (approvalId : Str) (cooldowns : Cooldowns)
  | saving (next : Next F)
  | checking (task : Task F) (cooldowns : Cooldowns)
  | ready (job : Job F)
  | executing (job : Job F)
  | recording (job : Job F) (result : ExecResult)
  | storing (id : Uuid) (result : Option ExecResult)

/-- The call holds `approval_lock`. -/
def Phase.locks {F : Type} : Phase F → Bool
  | .reviewing .. | .saving _ => true
  | .checking .. | .ready _ | .executing _ | .recording .. | .storing .. => false

/-! ## States -/

/-- What has happened: an entry was queued, left `pending`, was claimed, an answer was
`rejected`, `execute_action` was called, a cooldown was recorded. -/
inductive Event (F : Type) where
  | queued (id : Uuid)
  | left (id : Uuid)
  | claimed (entry : Approval F) (approver : Approver F)
  | rejected (id : Uuid)
  | started (call : Nat) (job : Job F) (time : ℚ)
  | recorded (call : Nat) (key : Str) (time : ℚ)

/-- The queue, its file, the cooldowns, who has the lock and the event loop, the calls in
progress by number, the number of the next one, the time, the ids that were drawn, and what
has happened, the last first. -/
structure System (F : Type) where
  queue : List (Approval F)
  stateFile : Option Str
  cooldowns : Cooldowns
  holder : Option Nat
  loop : Option Nat
  calls : Nat → Option (Phase F)
  next : Nat
  now : ℚ
  used : List Uuid
  history : List (Event F)

variable {F : Type}

/-- A server that starts without a state file. -/
structure System.Starts (s : System F) : Prop where
  queue : s.queue = []
  stateFile : s.stateFile = none
  holder : s.holder = none
  loop : s.loop = none
  calls : s.calls = fun _ => none
  used : s.used = []
  history : s.history = []

/-- Where a call goes after its save, and what it answers. -/
def Next.phase : Next F → Option (Phase F)
  | .done | .rejected _ => none
  | .execute job => some (.ready job)

def Next.answers : Next F → List (Event F)
  | .done | .execute _ => []
  | .rejected id => [.rejected id]

/-- Where a call goes after `execute_action`, which gives no result where nothing is
executable. -/
def Job.afterExecute (job : Job F) : Py (Option ExecResult) → Option (Phase F)
  | .error _ => none
  | .ok none => job.entryId.map fun id => .storing id none
  | .ok (some result) => some (.recording job result)

/-- Where it goes after the record. -/
def Job.afterRecord (job : Job F) (result : ExecResult) : Option (Phase F) :=
  job.entryId.map fun id => .storing id (some result)

/-- When one call has moved, a call at a phase is that one, or another that was there before. -/
theorem update_calls_eq_some {calls : Nat → Option (Phase F)} {i j : Nat}
    {phase' : Option (Phase F)} {phase : Phase F} (h : Function.update calls i phase' j = some phase) :
    j = i ∧ phase' = some phase ∨ j ≠ i ∧ calls j = some phase := by
  by_cases hji : j = i
  · rw [hji, Function.update_self] at h
    exact Or.inl ⟨hji, h⟩
  · rw [Function.update_of_ne hji] at h
    exact Or.inr ⟨hji, h⟩

namespace System

/-- A call is at a phase, or has returned. -/
def goTo (s : System F) (i : Nat) (phase : Option (Phase F)) : System F :=
  { s with
    calls := Function.update s.calls i phase
    loop := if phase.isNone = true ∧ s.loop = some i then none else s.loop }

theorem goTo_calls_self (s : System F) (i : Nat) (phase : Option (Phase F)) :
    (s.goTo i phase).calls i = phase := Function.update_self _ _ _

theorem goTo_calls_of_ne (s : System F) {i j : Nat} (h : j ≠ i) (phase : Option (Phase F)) :
    (s.goTo i phase).calls j = s.calls j := Function.update_of_ne h _ _

/-- A call has the lock and has changed the queue. -/
def change (s : System F) (i : Nat) (queue : List (Approval F)) (next : Next F)
    (events : List (Event F)) : System F :=
  { s with
    queue := pruneQueue queue
    holder := some i
    calls := Function.update s.calls i (some (.saving next))
    history := events ++ s.history }

end System

/-- What an execution leaves in its entry. -/
def Approval.settle (e : Approval F) : Option ExecResult → Approval F
  | none => e.fail noExecutableError
  | some result => e.finish result

/-! ## Moves -/

/-- What is done: an entry is queued; an approval takes the lock, refuses, rejects the entry
of a requester that lost its rights, or claims; a call rejects; the queue is saved; `/webhook`
reads the cooldowns, refuses or passes; a task is executed, recorded, and its result stored;
time passes; the process crashes. -/
inductive Move (F : Type) where
  | queue (id : Uuid)
  | enter
  | refuse
  | lose (id : Uuid)
  | claim (call : Nat) (entry : Approval F) (task : Task F) (cooldowns : Cooldowns)
  | reject (id : Uuid)
  | save (writes : Bool)
  | read
  | cool
  | pass (call : Nat) (task : Task F) (cooldowns : Cooldowns)
  | start (call : Nat) (job : Job F)
  | finish (call : Nat) (job : Job F) (answer : Py (Option ExecResult))
  | record (call : Nat) (job : Job F) (nowPrune : ℚ)
  | store (id : Uuid)
  | tick
  | crash

variable [PyRuntime F]

/-- The entries in the state file. -/
abbrev System.file (s : System F) : List (Approval F) := loadApprovalQueue s.stateFile

/-- The review refuses the entry, or raises. -/
def Refuses (review : Review F) : Prop :=
  (∃ error, review = .raised error) ∨ ∃ task remaining, review = .cooling task remaining

variable [PydanticTypes F]

/-- The moves. -/
inductive Step (s : System F) : Move F → System F → Prop
  /-- The section of `webhook` that queues an entry. -/
  | queue {site : Site F} {reads : VaultReads} {clock : Clock} {hits : Hits}
      {request : WebhookRequest} {a : Admitted F} {id : Uuid}
      (hpasses : Passes site reads clock hits request a)
      (happroval : isSet a.payload.approvalRequired = true) (hloop : s.loop = none)
      (hfree : s.holder = none) (hfresh : id ∉ s.used) :
    Step s (.queue id)
      (({ s with loop := some s.next, next := s.next + 1, used := id :: s.used }).change s.next
        (s.queue ++ [a.entry id request.apiKey]) .done [.queued id])
  /-- The first section of `approve_approval`: it reads the cooldowns, -/
  | enter {approver : Approver F} {approvalId : Str} (hfree : s.holder = none) :
    Step s .enter
      { s.goTo s.next (some (.reviewing approver approvalId s.cooldowns)) with
        holder := some s.next, next := s.next + 1 }
  /-- and refuses, -/
  | refuse {i : Nat} {approver : Approver F} {approvalId : Str} {cooldowns : Cooldowns}
      (hcall : s.calls i = some (.reviewing approver approvalId cooldowns))
      (hrefuse : (∃ response,
          lookupPending s.queue approver.apiKey approvalId (py "approve") = .refused response) ∨
        ∃ e, lookupPending s.queue approver.apiKey approvalId (py "approve") = .found e ∧
          Refuses (review approver.site approver.reads cooldowns s.now e)) :
    Step s .refuse { s.goTo i none with holder := none }
  /-- or rejects the entry for the requester, -/
  | lose {i : Nat} {approver : Approver F} {approvalId : Str} {cooldowns : Cooldowns} {e : Approval F}
      (hcall : s.calls i = some (.reviewing approver approvalId cooldowns))
      (hfound : lookupPending s.queue approver.apiKey approvalId (py "approve") = .found e)
      (hlost : review approver.site approver.reads cooldowns s.now e = .lost) :
    Step s (.lose e.id)
      (s.change i (updateEntry s.queue e.id fun _ => e.fail lostReason) .done [.left e.id])
  /-- or claims it. -/
  | claim {i : Nat} {approver : Approver F} {approvalId : Str} {cooldowns : Cooldowns} {e : Approval F}
      {task : Task F} (hcall : s.calls i = some (.reviewing approver approvalId cooldowns))
      (hfound : lookupPending s.queue approver.apiKey approvalId (py "approve") = .found e)
      (hclaimed : review approver.site approver.reads cooldowns s.now e = .claimed task) :
    Step s (.claim i e task cooldowns)
      (s.change i (updateEntry s.queue e.id fun _ => e.claim approver.apiKey approver.role)
        (.execute ⟨task, some e.id⟩) [.claimed e approver, .left e.id])
  /-- The section of `reject_approval`, for an entry it can reject. -/
  | reject {approver : Approver F} {approvalId : Str} {e : Approval F} (hfree : s.holder = none)
      (hfound : lookupPending s.queue approver.apiKey approvalId (py "reject") = .found e) :
    Step s (.reject e.id)
      (({ s with next := s.next + 1 }).change s.next
        (updateEntry s.queue e.id fun _ => { e.fail (py "Rejected by approver") with
          processed := some (approver.apiKey, approver.role) }) (.rejected e.id) [.left e.id])
  /-- The end of a section that changed the queue. -/
  | save {i : Nat} {next : Next F} {writes : Bool} (hcall : s.calls i = some (.saving next)) :
    Step s (.save writes)
      { s.goTo i next.phase with
        stateFile := if writes then some (queueText s.queue) else s.stateFile
        holder := none
        history := next.answers ++ s.history }
  /-- `webhook` reads the cooldowns of a request that is not to be queued, -/
  | read {site : Site F} {reads : VaultReads} {clock : Clock} {hits : Hits}
      {request : WebhookRequest} {a : Admitted F} (hpasses : Passes site reads clock hits request a)
      (hdirect : isSet a.payload.approvalRequired = false) (hloop : s.loop = none) :
    Step s .read
      { s.goTo s.next (some (.checking a.task s.cooldowns)) with
        loop := some s.next, next := s.next + 1 }
  /-- and refuses, -/
  | cool {i : Nat} {task : Task F} {cooldowns : Cooldowns}
      (hcall : s.calls i = some (.checking task cooldowns))
      (hcooling : task.remaining cooldowns s.now ≠ none) : Step s .cool (s.goTo i none)
  /-- or passes. -/
  | pass {i : Nat} {task : Task F} {cooldowns : Cooldowns}
      (hcall : s.calls i = some (.checking task cooldowns))
      (hfree : task.remaining cooldowns s.now = none) :
    Step s (.pass i task cooldowns) (s.goTo i (some (.ready ⟨task, none⟩)))
  /-- `execute_action` is called -/
  | start {i : Nat} {job : Job F} (hcall : s.calls i = some (.ready job)) :
    Step s (.start i job)
      { s.goTo i (some (.executing job)) with history := .started i job s.now :: s.history }
  /-- and returns or raises. -/
  | finish {i : Nat} {job : Job F} {executor : Executor F}
      (hcall : s.calls i = some (.executing job)) :
    Step s (.finish i job (job.task.execute executor))
      (s.goTo i (job.afterExecute (job.task.execute executor)))
  /-- The cooldown is recorded. -/
  | record {i : Nat} {job : Job F} {result : ExecResult} {nowPrune : ℚ}
      (hcall : s.calls i = some (.recording job result)) (hclock : s.now ≤ nowPrune) :
    Step s (.record i job nowPrune)
      { s.goTo i (job.afterRecord result) with
        cooldowns := job.task.record s.cooldowns s.now nowPrune
        now := nowPrune
        history := (if job.task.coolsDown then [Event.recorded i job.task.cooldownKey s.now] else []) ++
          s.history }
  /-- The last section of `approve_approval`. -/
  | store {i : Nat} {id : Uuid} {result : Option ExecResult}
      (hcall : s.calls i = some (.storing id result)) (hfree : s.holder = none) :
    Step s (.store id) (s.change i (updateEntry s.queue id fun e => e.settle result) .done [])
  /-- Time passes. -/
  | tick {now : ℚ} (hclock : s.now ≤ now) : Step s .tick { s with now }
  /-- The process crashes and starts again. -/
  | crash {cooldowns : Cooldowns} :
    Step s .crash
      { s with
        queue := s.file, cooldowns, holder := none, loop := none
        calls := fun _ => none }

end AutoHeal.Server
