import AutoHeal.Server.Persistence
import AutoHeal.Server.Restarts

/-!
# Serving requests

The handlers against the calls in progress. A server that serves its requests one after the other,
and is restarted between them, runs the calls of `System` one at a time: `serving_refines` says that
every such run is a run of the calls, with the same queue, state file and cooldowns, and that what
the requests have done is what has happened in it.
-/

namespace AutoHeal.Server

open Audit Purge Transition

variable {F : Type}

/-! ## Deeds -/

def Uuid.text (id : Uuid) : Str := id.val

theorem Uuid.text_injective : Function.Injective Uuid.text := fun _ _ h => Subtype.ext h

/-- What a request leaves behind but for its reports: an entry in the queue, a call of
`execute_action` for an entry or for `/webhook`, a cooldown. -/
inductive Deed (F : Type) where
  | queued (id : Uuid)
  | executed (entryId : Option Str) (action : ActionConfig F) (controller : Option (Dict F))
      (params : Dict F) (dryRun : Option Bool)
  | recorded (key : Str)

def Task.deed (t : Task F) (entryId : Option Str) : Deed F :=
  .executed entryId t.action t.controller t.params t.dryRun

/-- The deed of an effect, where the request is about an entry or about none. -/
def Effect.deed (entryId : Option Str) : Effect F → Option (Deed F)
  | .queued entry => some (.queued entry.id)
  | .executed action controller params dryRun =>
    some (.executed entryId action controller params dryRun)
  | .recorded key => some (.recorded key)
  | .audited _ | .notified _ => none

def Event.deed : Event F → Option (Deed F)
  | .queued id => some (.queued id)
  | .started _ job _ => some (job.task.deed (job.entryId.map Uuid.text))
  | .recorded _ key _ => some (.recorded key)
  | .left _ | .claimed .. | .rejected _ => none

/-- The entry that a request is to execute. -/
def Endpoint.entryId : Endpoint → Option Str
  | .approve approvalId => some approvalId
  | .health | .live | .ready | .protectedEndpoint | .canOverrideController | .webhook _ | .audit _
  | .auditVerify | .approvals | .reject _ => none

/-- The deeds among some effects, in order. -/
def deedsOf (entryId : Option Str) (effects : List (Effect F)) : List (Deed F) :=
  effects.filterMap (Effect.deed entryId)

/-- The deeds of a history, the first first. -/
def deedsIn (history : List (Event F)) : List (Deed F) := (history.filterMap Event.deed).reverse

theorem deedsOf_append (entryId : Option Str) (xs ys : List (Effect F)) :
    deedsOf entryId (xs ++ ys) = deedsOf entryId xs ++ deedsOf entryId ys := List.filterMap_append

/-- What happens later comes last. -/
theorem deedsIn_append (events history : List (Event F)) :
    deedsIn (events ++ history) = deedsIn history ++ deedsIn events := by
  unfold deedsIn
  rw [List.filterMap_append, List.reverse_append]

theorem Next.deedsIn_answers (next : Next F) : deedsIn next.answers = [] := by
  cases next <;> rfl

variable [PyRuntime F]

theorem deedsOf_recorded (t : Task F) (entryId : Option Str) (i : Nat) (now : ℚ) :
    deedsOf entryId t.recorded =
      deedsIn (if t.coolsDown then [Event.recorded i t.cooldownKey now] else []) := by
  unfold Task.recorded
  split <;> rfl

/-- An execution with its record. -/
theorem deedsOf_execution (t : Task F) (entryId : Option Str) (i : Nat) (now : ℚ) :
    deedsOf entryId (t.executed :: t.recorded) =
      [t.deed entryId] ++
        deedsIn (if t.coolsDown then [Event.recorded i t.cooldownKey now] else []) := by
  rw [← deedsOf_recorded t entryId]
  rfl

/-! ## Calls that have the server for themselves -/

/-- Saves succeed, unless they may fail, and the process crashes only while the lock is free. -/
structure InTurn (mayFail : Bool) (s : System F) (m : Move F) : Prop where
  saves : m = .save false → mayFail = true
  crashes : m = .crash → s.holder = none

omit [PyRuntime F] in
theorem InTurn.savesSucceed {s : System F} {m : Move F} (h : InTurn false s m) : SavesSucceed s m := by
  intro hm
  cases h.saves hm

omit [PyRuntime F] in
theorem InTurn.quietRestarts {s : System F} {m : Move F} (h : InTurn false s m) :
    QuietRestarts s m := by
  constructor
  · intro hm
    cases h.saves hm
  · exact h.crashes

omit [PyRuntime F] in
theorem inTurn_of_ne {mayFail : Bool} {s : System F} {m : Move F} (hsave : m ≠ .save false)
    (hcrash : m ≠ .crash) : InTurn mayFail s m := by
  constructor
  · intro hm
    exact absurd hm hsave
  · intro hm
    exact absurd hm hcrash

/-- The system is between two calls of a server that has these contents. -/
structure Serves (s : System F) (server : ServerState F) : Prop where
  queue : s.queue = server.queue
  stateFile : s.stateFile = server.stateFile
  cooldowns : s.cooldowns = server.cooldowns
  holder : s.holder = none
  loop : s.loop = none

omit [PyRuntime F] in
/-- The log and the hits are no part of it. -/
theorem Serves.congr {s : System F} {server server' : ServerState F} (h : Serves s server)
    (hqueue : server'.queue = server.queue) (hfile : server'.stateFile = server.stateFile)
    (hcooldowns : server'.cooldowns = server.cooldowns) : Serves s server' where
  queue := h.queue.trans hqueue.symm
  stateFile := h.stateFile.trans hfile.symm
  cooldowns := h.cooldowns.trans hcooldowns.symm
  holder := h.holder
  loop := h.loop

variable [PydanticTypes F]

/-- From `s` on, a call has come to a phase or has returned. The server has these contents then, and
the deeds are those since. The call may have drawn an id. -/
structure At (mayFail : Bool) (s : System F) (id : Uuid) (i : Nat) (phase : Option (Phase F))
    (holder : Option Nat) (time : ℚ) (server : ServerState F) (deeds : List (Deed F))
    (t : System F) : Prop where
  path : Reachable (fun u => u = s) Step (InTurn mayFail) t
  queue : t.queue = server.queue
  stateFile : t.stateFile = server.stateFile
  cooldowns : t.cooldowns = server.cooldowns
  holder : t.holder = holder
  loop : t.loop = none ∨ t.loop = some i ∧ phase.isSome = true
  call : t.calls i = phase
  now : t.now = time
  used : ∀ x ∈ t.used, x = id ∨ x ∈ s.used
  deeds : deedsIn t.history = deedsIn s.history ++ deeds

def CallAt (mayFail : Bool) (s : System F) (id : Uuid) (i : Nat) (phase : Option (Phase F))
    (holder : Option Nat) (time : ℚ) (server : ServerState F) (deeds : List (Deed F)) : Prop :=
  ∃ t, At mayFail s id i phase holder time server deeds t

/-- From `s` on, a request has been served. -/
def Answered (mayFail : Bool) (s : System F) (id : Uuid) (bound : ℚ) (server : ServerState F)
    (deeds : List (Deed F)) : Prop :=
  ∃ t, Reachable (fun u => u = s) Step (InTurn mayFail) t ∧ Serves t server ∧ t.now ≤ bound ∧
    (∀ x ∈ t.used, x = id ∨ x ∈ s.used) ∧ deedsIn t.history = deedsIn s.history ++ deeds

section Moves

variable {mayFail : Bool} {s : System F} {id : Uuid} {i : Nat} {phase : Option (Phase F)}
  {holder : Option Nat} {time bound : ℚ} {server : ServerState F} {deeds : List (Deed F)}
  {job : Job F}

omit [PyRuntime F] [PydanticTypes F] in
/-- The call has left the loop once it has returned. -/
theorem System.loop_goTo_call {t : System F} (h : t.loop = none ∨ t.loop = some i)
    (phase' : Option (Phase F)) :
    (t.goTo i phase').loop = none ∨ (t.goTo i phase').loop = some i ∧ phase'.isSome = true := by
  show (if phase'.isNone = true ∧ t.loop = some i then none else t.loop) = none ∨ _
  cases phase' with
  | none =>
    left
    rcases h with hnone | hsome
    · rw [hnone]
      split <;> rfl
    · rw [if_pos ⟨rfl, hsome⟩]
  | some p =>
    rcases h with hnone | hsome
    · left
      rw [hnone]
      split <;> rfl
    · right
      refine ⟨?_, rfl⟩
      show (if (some p).isNone = true ∧ t.loop = some i then none else t.loop) = some i
      rw [if_neg (by simp), hsome]

theorem At.loop_or {t : System F} (h : At mayFail s id i phase holder time server deeds t) :
    t.loop = none ∨ t.loop = some i := by
  rcases h.loop with hnone | ⟨hsome, -⟩
  · exact Or.inl hnone
  · exact Or.inr hsome

/-- Time passes. -/
theorem CallAt.tick (h : CallAt mayFail s id i phase holder time server deeds) {later : ℚ}
    (hlater : time ≤ later) : CallAt mayFail s id i phase holder later server deeds := by
  rcases h with ⟨t, h⟩
  have hstep : Step t .tick { t with now := later } := Step.tick (by rw [h.now]; exact hlater)
  exact ⟨_, { h with
    path := h.path.move (inTurn_of_ne (by simp) (by simp)) hstep
    now := rfl }⟩

/-- The lock is released when the queue has been saved. -/
theorem CallAt.save {next : Next F} {writes : Bool}
    (h : CallAt mayFail s id i (some (.saving next)) holder time server deeds)
    (hwrites : writes = false → mayFail = true) :
    CallAt mayFail s id i next.phase none time
      { server with
        stateFile := if writes then some (queueText server.queue) else server.stateFile } deeds := by
  rcases h with ⟨t, h⟩
  have hallowed : InTurn mayFail t (.save writes) := by
    constructor
    · intro hm
      exact hwrites (Move.save.inj hm)
    · intro hm
      cases hm
  refine ⟨_, h.path.move hallowed (Step.save h.call), h.queue, ?_, h.cooldowns, rfl,
    System.loop_goTo_call h.loop_or _, System.goTo_calls_self _ _ _, h.now, h.used, ?_⟩
  · rw [← h.queue, ← h.stateFile]
  · show deedsIn (next.answers ++ t.history) = _
    rw [deedsIn_append, next.deedsIn_answers, List.append_nil, h.deeds]

/-- `/webhook` refuses. -/
theorem CallAt.cool {task : Task F} {cooldowns : Cooldowns}
    (h : CallAt mayFail s id i (some (.checking task cooldowns)) holder time server deeds)
    (hcooling : task.remaining cooldowns time ≠ none) :
    CallAt mayFail s id i none holder time server deeds := by
  rcases h with ⟨t, h⟩
  rw [← h.now] at hcooling
  exact ⟨_, h.path.move (inTurn_of_ne (by simp) (by simp)) (Step.cool h.call hcooling), h.queue,
    h.stateFile, h.cooldowns, h.holder, System.loop_goTo_call h.loop_or _,
    System.goTo_calls_self _ _ _, h.now, h.used, h.deeds⟩

/-- It passes. -/
theorem CallAt.pass {task : Task F} {cooldowns : Cooldowns}
    (h : CallAt mayFail s id i (some (.checking task cooldowns)) holder time server deeds)
    (hfree : task.remaining cooldowns time = none) :
    CallAt mayFail s id i (some (.ready ⟨task, none⟩)) holder time server deeds := by
  rcases h with ⟨t, h⟩
  rw [← h.now] at hfree
  exact ⟨_, h.path.move (inTurn_of_ne (by simp) (by simp)) (Step.pass h.call hfree), h.queue,
    h.stateFile, h.cooldowns, h.holder, System.loop_goTo_call h.loop_or _,
    System.goTo_calls_self _ _ _, h.now, h.used, h.deeds⟩

/-- `execute_action` is called, and comes back. -/
theorem CallAt.execute (executor : Executor F)
    (h : CallAt mayFail s id i (some (.ready job)) holder time server deeds) :
    CallAt mayFail s id i (job.afterExecute (job.task.execute executor)) holder time server
      (deeds ++ [job.task.deed (job.entryId.map Uuid.text)]) := by
  rcases h with ⟨t, h⟩
  have hstarted := h.path.move (inTurn_of_ne (by simp) (by simp)) (Step.start h.call)
  refine ⟨_, hstarted.move (inTurn_of_ne (by simp) (by simp))
    (@Step.finish F _ _ _ i job executor (System.goTo_calls_self t i _)), h.queue, h.stateFile,
    h.cooldowns, h.holder, ?_, System.goTo_calls_self _ _ _, h.now, h.used, ?_⟩
  · refine System.loop_goTo_call ?_ _
    rcases System.loop_goTo_call h.loop_or (some (.executing job)) with hnone | ⟨hsome, -⟩
    · exact Or.inl hnone
    · exact Or.inr hsome
  · show deedsIn ([.started i job t.now] ++ t.history) = _
    rw [deedsIn_append, h.deeds, List.append_assoc]
    rfl

/-- The cooldown is recorded. -/
theorem CallAt.record {result : ExecResult} {nowPrune : ℚ}
    (h : CallAt mayFail s id i (some (.recording job result)) holder time server deeds)
    (hclock : time ≤ nowPrune) :
    CallAt mayFail s id i (job.afterRecord result) holder nowPrune
      { server with cooldowns := job.task.record server.cooldowns time nowPrune }
      (deeds ++ deedsIn (if job.task.coolsDown then
        [Event.recorded i job.task.cooldownKey time] else [])) := by
  rcases h with ⟨t, h⟩
  rw [← h.now] at hclock
  refine ⟨_, h.path.move (inTurn_of_ne (by simp) (by simp)) (Step.record h.call hclock), h.queue,
    h.stateFile, ?_, h.holder, System.loop_goTo_call h.loop_or _, System.goTo_calls_self _ _ _, rfl,
    h.used, ?_⟩
  · show job.task.record t.cooldowns t.now nowPrune = _
    rw [h.cooldowns, h.now]
  · show deedsIn ((if job.task.coolsDown then [Event.recorded i job.task.cooldownKey t.now] else []) ++
      t.history) = _
    rw [deedsIn_append, h.deeds, h.now, List.append_assoc]

/-- A call that has the lock has changed the queue. -/
theorem At.change {t : System F} {m : Move F} (h : At mayFail s id i phase holder time server deeds t)
    (hallowed : InTurn mayFail t m) {queue : List (Approval F)} {next : Next F}
    {events : List (Event F)} (hevents : deedsIn events = [])
    (hstep : Step t m (t.change i queue next events)) :
    CallAt mayFail s id i (some (.saving next)) (some i) time
      { server with queue := pruneQueue queue } deeds := by
  refine ⟨_, h.path.move hallowed hstep, rfl, h.stateFile, h.cooldowns, rfl, ?_,
    Function.update_self _ _ _, h.now, h.used, ?_⟩
  · rcases h.loop_or with hnone | hsome
    · exact Or.inl hnone
    · exact Or.inr ⟨hsome, rfl⟩
  · show deedsIn (events ++ t.history) = _
    rw [deedsIn_append, hevents, List.append_nil, h.deeds]

/-- The result is stored. -/
theorem CallAt.store {entryId : Uuid} {result : Option ExecResult} {writes : Bool}
    (h : CallAt mayFail s id i (some (.storing entryId result)) none time server deeds)
    (hwrites : writes = false → mayFail = true) :
    CallAt mayFail s id i none none time
      { server with
        queue := pruneQueue (updateEntry server.queue entryId fun e => e.settle result)
        stateFile :=
          if writes then
            some (queueText (pruneQueue (updateEntry server.queue entryId fun e => e.settle result)))
          else server.stateFile } deeds := by
  rcases h with ⟨t, h⟩
  rw [← h.queue]
  exact (h.change (inTurn_of_ne (by simp) (by simp)) rfl (Step.store h.call h.holder)).save hwrites

section Reviewing

variable {approver : Approver F} {approvalId : Str} {cooldowns : Cooldowns} {e : Approval F}
  (h : CallAt mayFail s id i (some (.reviewing approver approvalId cooldowns)) holder time server deeds)

include h

theorem CallAt.refuse
    (hrefuse : (∃ response,
        lookupPending server.queue approver.apiKey approvalId (py "approve") = .refused response) ∨
      ∃ e, lookupPending server.queue approver.apiKey approvalId (py "approve") = .found e ∧
        Refuses (review approver.site approver.reads cooldowns time e)) :
    CallAt mayFail s id i none none time server deeds := by
  rcases h with ⟨t, h⟩
  rw [← h.now, ← h.queue] at hrefuse
  exact ⟨_, h.path.move (inTurn_of_ne (by simp) (by simp)) (Step.refuse h.call hrefuse), h.queue,
    h.stateFile, h.cooldowns, rfl, System.loop_goTo_call h.loop_or _, System.goTo_calls_self _ _ _,
    h.now, h.used, h.deeds⟩

theorem CallAt.lose
    (hfound : lookupPending server.queue approver.apiKey approvalId (py "approve") = .found e)
    (hlost : review approver.site approver.reads cooldowns time e = .lost) :
    CallAt mayFail s id i (some (.saving .done)) (some i) time
      { server with queue := pruneQueue (updateEntry server.queue e.id fun _ => e.fail lostReason) }
      deeds := by
  rcases h with ⟨t, h⟩
  rw [← h.now] at hlost
  rw [← h.queue] at hfound ⊢
  exact h.change (inTurn_of_ne (by simp) (by simp)) rfl (Step.lose h.call hfound hlost)

theorem CallAt.claim {task : Task F}
    (hfound : lookupPending server.queue approver.apiKey approvalId (py "approve") = .found e)
    (hclaimed : review approver.site approver.reads cooldowns time e = .claimed task) :
    CallAt mayFail s id i (some (.saving (.execute ⟨task, some e.id⟩))) (some i) time
      { server with
        queue := pruneQueue (updateEntry server.queue e.id fun _ =>
          e.claim approver.apiKey approver.role) } deeds := by
  rcases h with ⟨t, h⟩
  rw [← h.now] at hclaimed
  rw [← h.queue] at hfound ⊢
  exact h.change (inTurn_of_ne (by simp) (by simp)) rfl (Step.claim h.call hfound hclaimed)

end Reviewing

/-- The call has returned. -/
theorem CallAt.answered (h : CallAt mayFail s id i none none time server deeds) (hbound : time ≤ bound) :
    Answered mayFail s id bound server deeds := by
  rcases h with ⟨t, h⟩
  have hloop : t.loop = none := by
    rcases h.loop with hnone | ⟨-, hphase⟩
    · exact hnone
    · cases hphase
  refine ⟨t, h.path, ⟨h.queue, h.stateFile, h.cooldowns, h.holder, hloop⟩, ?_, h.used, h.deeds⟩
  rw [h.now]
  exact hbound

end Moves

/-! ## One request -/

omit [PyRuntime F] [PydanticTypes F] in
/-- It is the same what every entry with the id becomes, if there is only one such entry. -/
theorem updateEntry_congr {queue : List (Approval F)} {id : Uuid} {f g : Approval F → Approval F}
    (h : ∀ x ∈ queue, x.id = id → f x = g x) : updateEntry queue id f = updateEntry queue id g := by
  refine List.map_congr_left fun x hx => ?_
  split
  · next hid => exact h x hx hid
  · rfl

omit [PyRuntime F] [PydanticTypes F] in
/-- An entry that was set is all there is with its id. -/
theorem eq_of_mem_pruneQueue_updateEntry {queue : List (Approval F)} {e x : Approval F}
    (hx : x ∈ pruneQueue (updateEntry queue e.id fun _ => e)) (hid : x.id = e.id) : x = e := by
  rcases List.mem_map.mp ((sublist_pruneQueue _).subset hx) with ⟨y, -, rfl⟩
  split at hid
  · next hy => rw [if_pos hy]
  · next hy => exact absurd hid hy

/-- The request has the server for itself, with an id that is new, and its clock goes on. Where
saves may not fail, they do not. -/
structure RequestEnv.InTurn (env : RequestEnv F) (mayFail : Bool) (now : ℚ) (used : List Uuid) :
    Prop where
  alone : ∀ server, env.meanwhile server = server
  fresh : env.uuid ∉ used
  check : now ≤ env.clock.check
  record : env.clock.check ≤ env.clock.record
  prune : env.clock.record ≤ env.clock.prune
  saves : env.saves = false → mayFail = true
  savesResult : env.savesResult = false → mayFail = true

section Handlers

variable [PyDates F] {mayFail : Bool} {s : System F} {site : Site F} {env : RequestEnv F}
  {server : ServerState F} {entryId : Option Str} {deeds : List (Deed F)}

/-- The outcome of a request is that of moves from `s` on. -/
def Matched (mayFail : Bool) (s : System F) (env : RequestEnv F) (entryId : Option Str)
    (o : Outcome F) : Prop :=
  Answered mayFail s env.uuid env.clock.prune o.server (deedsOf entryId o.effects)

/-- The audit log is not part of the system, nor are reports. -/
theorem matched_withAudit {effects first : List (Effect F)}
    (h : Answered mayFail s env.uuid env.clock.prune server (deedsOf entryId first)) (entry : Dict F)
    (answer : Py (Response F)) (hquiet : deedsOf entryId effects = []) :
    Matched mayFail s env entryId ((withAudit site env server entry fun server =>
      ⟨server, answer, effects⟩).after first) := by
  rcases h with ⟨t, hpath, hserves, hnow, hused, hdeeds⟩
  refine ⟨t, hpath, ?_, hnow, hused, ?_⟩
  · rcases withAudit_server site env server entry answer effects with ⟨log, hlog⟩
    show Serves t (withAudit site env server entry fun server => ⟨server, answer, effects⟩).server
    rw [hlog]
    exact hserves.congr rfl rfl rfl
  · have hnone : deedsOf entryId (withAudit site env server entry fun server =>
        ⟨server, answer, effects⟩).effects = [] := by
      rcases withAudit_effects site env server entry answer effects with hwritten | hraised
      · rw [hwritten]
        exact hquiet
      · rw [hraised]
        rfl
    show _ = deedsIn s.history ++ deedsOf entryId (first ++ _)
    rw [deedsOf_append, hnone, List.append_nil, hdeeds]

omit [PyDates F] in
theorem reachable_self (s : System F) : Reachable (fun u => u = s) Step (InTurn mayFail) s := .start rfl

/-- Nothing else may come of a request that writes to the log. -/
theorem matched_audit (h : Answered mayFail s env.uuid env.clock.prune server []) (entry : Dict F)
    (answer : Py (Response F)) : Matched mayFail s env entryId
      (withAudit site env server entry fun server => ⟨server, answer, []⟩) := by
  have hfirst : Answered mayFail s env.uuid env.clock.prune server (deedsOf entryId []) := h
  exact matched_withAudit hfirst entry answer rfl

variable (henv : env.InTurn mayFail s.now s.used)

include henv

theorem matched_webhookExecute {request : WebhookRequest} {a : Admitted F}
    (hready : CallAt mayFail s env.uuid s.next (some (.ready ⟨a.task, none⟩)) none env.clock.check
      server []) :
    Matched mayFail s env none (webhookExecute site env server request a) := by
  have hlater := henv.record.trans henv.prune
  have hexecuted := hready.execute env.executor
  unfold webhookExecute
  cases hanswer : a.task.execute env.executor with
  | error error =>
    rw [hanswer] at hexecuted
    simp only [henv.alone]
    exact hexecuted.answered hlater
  | ok answer =>
    rw [hanswer] at hexecuted
    cases answer with
    | none =>
      simp only [henv.alone]
      exact hexecuted.answered hlater
    | some result =>
      have hrecorded := (hexecuted.tick henv.record).record henv.prune
      rw [List.nil_append, ← deedsOf_execution] at hrecorded
      simp only [henv.alone]
      exact matched_withAudit (hrecorded.answered (le_refl _)) _ _ rfl

/-- An approval executes. The entry that gets the result is the one that was claimed. -/
theorem matched_approveExecute {apiKey : Str} {role : Option Str} {task : Task F}
    {queue : List (Approval F)} {e : Approval F}
    (hqueue : server.queue = pruneQueue (updateEntry queue e.id fun _ => e))
    (hready : CallAt mayFail s env.uuid s.next (some (.ready ⟨task, some e.id⟩)) none env.clock.check
      server []) :
    Matched mayFail s env (some e.id.val)
      (approveExecute site env server apiKey role task e).1 := by
  have hlater := henv.record.trans henv.prune
  have hexecuted := hready.execute env.executor
  have hsettled : ∀ result, updateEntry server.queue e.id (fun x => x.settle result) =
      updateEntry server.queue e.id fun _ => e.settle result := by
    intro result
    refine updateEntry_congr fun x hx hid => ?_
    rw [hqueue] at hx
    rw [eq_of_mem_pruneQueue_updateEntry hx hid]
  unfold approveExecute
  cases hanswer : task.execute env.executor with
  | error error =>
    rw [hanswer] at hexecuted
    simp only [henv.alone]
    exact hexecuted.answered hlater
  | ok answer =>
    rw [hanswer] at hexecuted
    cases answer with
    | none =>
      have hstored := hexecuted.store henv.savesResult
      rw [hsettled] at hstored
      simp only [henv.alone]
      exact hstored.answered hlater
    | some result =>
      have hstored := ((hexecuted.tick henv.record).record henv.prune).store henv.savesResult
      rw [List.nil_append, ← deedsOf_execution] at hstored
      simp only at hstored
      rw [hsettled] at hstored
      simp only [henv.alone]
      exact matched_withAudit (hstored.answered (le_refl _)) _ _ rfl

variable (hs : Serves s server)

include hs

omit [PyDates F] in

/-- Nothing has happened. -/
theorem answered_self {server' : ServerState F} (hqueue : server'.queue = server.queue)
    (hfile : server'.stateFile = server.stateFile) (hcooldowns : server'.cooldowns = server.cooldowns) :
    Answered mayFail s env.uuid env.clock.prune server' [] := by
  refine ⟨s, .start rfl, hs.congr hqueue hfile hcooldowns, ?_, fun x hx => Or.inr hx, ?_⟩
  · exact henv.check.trans (henv.record.trans henv.prune)
  · rw [List.append_nil]

omit [PyDates F] in
theorem matched_enqueue {hits : Hits} {request : WebhookRequest} {a : Admitted F}
    (hpasses : Passes site env.vault env.clock hits request a)
    (happroval : isSet a.payload.approvalRequired = true) :
    Matched mayFail s env entryId (enqueue env server (a.entry env.uuid request.apiKey)) := by
  have hstep := Step.queue hpasses happroval hs.loop hs.holder henv.fresh
  have hqueued : CallAt mayFail s env.uuid s.next (some (.saving .done)) (some s.next) s.now
      { server with queue := pruneQueue (server.queue ++ [a.entry env.uuid request.apiKey]) }
      [.queued env.uuid] := by
    rw [← hs.queue]
    refine ⟨_, (reachable_self s).move (inTurn_of_ne (by simp) (by simp)) hstep, rfl, hs.stateFile,
      hs.cooldowns, rfl, Or.inr ⟨rfl, rfl⟩, Function.update_self _ _ _, rfl, ?_, ?_⟩
    · intro x hx
      exact List.mem_cons.mp hx
    · exact deedsIn_append [.queued env.uuid] s.history
  exact (hqueued.save henv.saves).answered (henv.check.trans (henv.record.trans henv.prune))

theorem matched_webhookAdmitted {hits : Hits} {request : WebhookRequest} {a : Admitted F}
    (hpasses : Passes site env.vault env.clock hits request a) :
    Matched mayFail s env none (webhookAdmitted site env server request a) := by
  unfold webhookAdmitted
  cases happroval : isSet a.payload.approvalRequired with
  | true => exact matched_enqueue henv hs hpasses happroval
  | false =>
    have hread : CallAt mayFail s env.uuid s.next (some (.checking a.task server.cooldowns)) none s.now
        server [] := by
      rw [← hs.cooldowns]
      exact ⟨_, (reachable_self s).move (inTurn_of_ne (by simp) (by simp))
        (Step.read hpasses happroval hs.loop), hs.queue, hs.stateFile, hs.cooldowns, hs.holder,
        Or.inr ⟨rfl, rfl⟩, System.goTo_calls_self _ _ _, rfl, fun x hx => Or.inr hx,
        (List.append_nil _).symm⟩
    have hchecking := hread.tick henv.check
    rw [if_neg (by simp)]
    cases hremaining : a.task.remaining server.cooldowns env.clock.check with
    | none => exact matched_webhookExecute henv (hchecking.pass hremaining)
    | some remaining =>
      have hcool := hchecking.cool (by rw [hremaining]; simp)
      exact matched_audit (hcool.answered (henv.record.trans henv.prune)) _ _

theorem matched_webhook (request : WebhookRequest) :
    Matched mayFail s env none (webhook site env server request) := by
  have hadmitted := @webhookGate_eq_admitted F _ _ site env.vault env.clock server.hits request
  unfold webhook
  revert hadmitted
  rcases webhookGate site env.vault env.clock server.hits request with ⟨hits, gate⟩
  intro hadmitted
  have hserves : Serves s { server with hits } := hs.congr rfl rfl rfl
  cases gate with
  | refused response => exact answered_self henv hserves rfl rfl rfl
  | limited response entry =>
    exact matched_audit (answered_self henv hserves rfl rfl rfl) _ _
  | admitted a => exact matched_webhookAdmitted henv hserves (hadmitted.mp rfl)

theorem matched_approve (apiKey approvalId : Str) :
    Matched mayFail s env (some approvalId) (approve site env server apiKey approvalId).1 := by
  have hlater := henv.record.trans henv.prune
  unfold approve
  cases hpermitted : hasPermission site.auth
      (getRoleFromApiKey (resolveApiKeys site.auth env.vault.role) apiKey) (py "approve_actions") with
  | false =>
    simp only [hpermitted, Bool.not_false, if_true]
    exact answered_self henv hs rfl rfl rfl
  | true =>
    let approver : Approver F := ⟨apiKey, site, env.vault, hpermitted⟩
    have hentered : CallAt mayFail s env.uuid s.next
        (some (.reviewing approver approvalId server.cooldowns)) (some s.next) s.now server [] := by
      rw [← hs.cooldowns]
      exact ⟨_, (reachable_self s).move (inTurn_of_ne (by simp) (by simp)) (Step.enter hs.holder),
        hs.queue, hs.stateFile, hs.cooldowns, rfl, Or.inl hs.loop, System.goTo_calls_self _ _ _, rfl,
        fun x hx => Or.inr hx, (List.append_nil _).symm⟩
    have hreviewing := hentered.tick henv.check
    simp only [hpermitted, Bool.not_true, Bool.false_eq_true, if_false]
    cases hlookup : lookupPending server.queue apiKey approvalId (py "approve") with
    | refused response => exact (hreviewing.refuse (Or.inl ⟨response, hlookup⟩)).answered hlater
    | found e =>
      have hid : e.id.val = approvalId :=
        (findEntry_eq_some (lookupPending_eq_found.mp hlookup).1).1
      simp only
      unfold approvePending
      cases hreview : review site env.vault server.cooldowns env.clock.check e with
      | raised error =>
        exact (hreviewing.refuse (Or.inr ⟨e, hlookup, Or.inl ⟨error, hreview⟩⟩)).answered hlater
      | lost =>
        exact ((hreviewing.lose hlookup hreview).save henv.saves).answered hlater
      | cooling task remaining =>
        have hrefused := hreviewing.refuse (Or.inr ⟨e, hlookup, Or.inr ⟨task, remaining, hreview⟩⟩)
        exact matched_audit (hrefused.answered hlater) _ _
      | claimed task =>
        rw [← hid]
        exact matched_approveExecute henv rfl
          ((hreviewing.claim hlookup hreview).save henv.saves)

theorem matched_reject (apiKey approvalId : Str) :
    Matched mayFail s env none (reject site env server apiKey approvalId).1 := by
  have hlater := henv.check.trans (henv.record.trans henv.prune)
  unfold reject
  cases hpermitted : hasPermission site.auth
      (getRoleFromApiKey (resolveApiKeys site.auth env.vault.role) apiKey) (py "approve_actions") with
  | false =>
    simp only [hpermitted, Bool.not_false, if_true]
    exact answered_self henv hs rfl rfl rfl
  | true =>
    let approver : Approver F := ⟨apiKey, site, env.vault, hpermitted⟩
    simp only [hpermitted, Bool.not_true, Bool.false_eq_true, if_false]
    cases hlookup : lookupPending server.queue apiKey approvalId (py "reject") with
    | refused response => exact answered_self henv hs rfl rfl rfl
    | found e =>
      have hrejected : CallAt mayFail s env.uuid s.next (some (.saving (.rejected e.id))) (some s.next)
          s.now { server with queue := pruneQueue (updateEntry server.queue e.id fun _ =>
            { e.fail (py "Rejected by approver") with
              processed := some (apiKey, approver.role) }) } [] := by
        rw [← hs.queue] at hlookup ⊢
        exact ⟨_, (reachable_self s).move (inTurn_of_ne (by simp) (by simp))
          (@Step.reject F _ _ s approver _ e hs.holder hlookup), rfl, hs.stateFile, hs.cooldowns, rfl,
          Or.inl hs.loop, Function.update_self _ _ _, rfl, fun x hx => Or.inr hx,
          (List.append_nil _).symm⟩
      have hsaved := (hrejected.save henv.saves).answered hlater
      simp only
      unfold rejectPending
      simp only
      split
      · exact matched_audit hsaved _ _
      · exact hsaved

end Handlers

section Requests

variable [PyDates F] {mayFail : Bool} {s : System F} {server : ServerState F}

/-- A request is served by moves of the system, and they do what it does. -/
theorem answered_handle {r : HttpRequest F} (hs : Serves s server)
    (henv : r.env.InTurn mayFail s.now s.used) :
    Answered mayFail s r.env.uuid r.env.clock.prune (handle server r).1
      (deedsOf r.endpoint.entryId (handle server r).2.2) := by
  refine @HttpRequest.dispatch_rule F _ _ _ r server (fun h => Answered mayFail s r.env.uuid
    r.env.clock.prune h.server (deedsOf r.endpoint.entryId h.effects)) ?_ ?_ ?_ ?_
  · exact fun answer => answered_self henv hs rfl rfl rfl
  · intro body hendpoint
    rw [hendpoint]
    exact matched_webhook henv hs _
  · intro approvalId hendpoint
    rw [hendpoint]
    exact matched_approve henv hs _ _
  · intro approvalId hendpoint
    rw [hendpoint]
    exact matched_reject henv hs _ _

omit [PyDates F] in
/-- A restart is a crash between two calls. -/
theorem serves_restart (mayFail : Bool) (hs : Serves s server) :
    ∃ t, Reachable (fun u => u = s) Step (InTurn mayFail) t ∧ Serves t server.restart ∧
      t.now = s.now ∧ t.used = s.used ∧ t.history = s.history := by
  have hallowed : InTurn mayFail s .crash := by
    constructor
    · intro hm
      cases hm
    · intro _
      exact hs.holder
  refine ⟨_, (reachable_self s).move hallowed (@Step.crash F _ _ s s.cooldowns), ?_, rfl, rfl, rfl⟩
  refine ⟨?_, hs.stateFile, hs.cooldowns, rfl, rfl⟩
  show loadApprovalQueue s.stateFile = loadApprovalQueue server.stateFile
  rw [hs.stateFile]

end Requests

/-! ## Every run -/

omit [PyRuntime F] [PydanticTypes F] in
/-- Requests that have the server for themselves, one after the other, from a time on and with ids
that have not been drawn. -/
def Sequenced (mayFail : Bool) : ℚ → List Uuid → List (Input F) → Prop
  | _, _, [] => True
  | now, used, .request r :: inputs =>
    r.env.InTurn mayFail now used ∧ Sequenced mayFail r.env.clock.prune (r.env.uuid :: used) inputs
  | now, used, .restart :: inputs => Sequenced mayFail now used inputs

omit [PyRuntime F] [PydanticTypes F] in
theorem RequestEnv.InTurn.sooner {env : RequestEnv F} {mayFail : Bool} {now now' : ℚ}
    {used used' : List Uuid} (h : env.InTurn mayFail now used) (hnow : now' ≤ now)
    (hused : used' ⊆ used) : env.InTurn mayFail now' used' :=
  { h with
    fresh := fun hmem => h.fresh (hused hmem)
    check := hnow.trans h.check }

omit [PyRuntime F] [PydanticTypes F] in
/-- They may as well come after less. -/
theorem Sequenced.sooner {mayFail : Bool} {now now' : ℚ} {used used' : List Uuid}
    {inputs : List (Input F)} (h : Sequenced mayFail now used inputs) (hnow : now' ≤ now)
    (hused : used' ⊆ used) : Sequenced mayFail now' used' inputs := by
  induction inputs generalizing now now' used used' with
  | nil => trivial
  | cons i inputs ih =>
    cases i with
    | request r =>
      rcases h with ⟨hfirst, hrest⟩
      exact ⟨hfirst.sooner hnow hused, ih hrest (le_refl _) (List.cons_subset_cons _ hused)⟩
    | restart => exact ih (show Sequenced mayFail now used inputs from h) hnow hused

variable [PyDates F]

def Input.deeds (server : ServerState F) : Input F → List (Deed F)
  | .request r => deedsOf r.endpoint.entryId (handle server r).2.2
  | .restart => []

/-- What the requests of a run have done, in order. -/
def servedDeeds : ServerState F → List (Input F) → List (Deed F)
  | _, [] => []
  | server, i :: inputs => i.deeds server ++ servedDeeds (serveInput server i).1 inputs

section Runs

variable {mayFail : Bool} {inputs : List (Input F)}

/-- From a state of the system that serves a server, moves lead to one that serves it after the
inputs, and do what they do. -/
theorem serves_run {s : System F} {server : ServerState F} (hs : Serves s server)
    (hinputs : Sequenced mayFail s.now s.used inputs) :
    ∃ t, Reachable (fun u => u = s) Step (InTurn mayFail) t ∧
      Serves t (run serveInput server inputs) ∧
      deedsIn t.history = deedsIn s.history ++ servedDeeds server inputs := by
  induction inputs generalizing s server with
  | nil => exact ⟨s, reachable_self s, hs, (List.append_nil _).symm⟩
  | cons i inputs ih =>
    cases i with
    | request r =>
      rcases hinputs with ⟨henv, hrest⟩
      rcases answered_handle hs henv with ⟨t, hpath, hserves, hnow, hused, hdeeds⟩
      have hnext : t.used ⊆ r.env.uuid :: s.used := fun x hx => List.mem_cons.mpr (hused x hx)
      rcases ih hserves (hrest.sooner hnow hnext) with ⟨u, hpath', hserves', hdeeds'⟩
      refine ⟨u, hpath.trans hpath', hserves', ?_⟩
      rw [hdeeds', hdeeds, List.append_assoc]
      rfl
    | restart =>
      rcases serves_restart mayFail hs with ⟨t, hpath, hserves, hnow, hused, hhistory⟩
      have hrest : Sequenced mayFail t.now t.used inputs := by
        rw [hnow, hused]
        exact hinputs
      rcases ih hserves hrest with ⟨u, hpath', hserves', hdeeds'⟩
      refine ⟨u, hpath.trans hpath', hserves', ?_⟩
      rw [hdeeds', hhistory]
      rfl

omit [PyRuntime F] [PyDates F] [PydanticTypes F] in
theorem serves_start {server : ServerState F} (hqueue : server.queue = [])
    (hfile : server.stateFile = none) (now : ℚ) :
    ∃ s : System F, s.Starts ∧ Serves s server ∧ s.now = now :=
  ⟨{ System.initial server.cooldowns with now }, ⟨rfl, rfl, rfl, rfl, rfl, rfl, rfl⟩,
    ⟨hqueue.symm, hfile.symm, rfl, rfl, rfl⟩, rfl⟩

/-- A server that starts empty and serves requests one after the other, with restarts between them,
is at any time a state of the calls in progress, between two of them: what its requests have done is
what has happened there, in order. -/
theorem serving_refines {server : ServerState F} (hqueue : server.queue = [])
    (hfile : server.stateFile = none) {now : ℚ} (hinputs : Sequenced mayFail now [] inputs) :
    ∃ s, Reachable System.Starts Step (InTurn mayFail) s ∧
      Serves s (run serveInput server inputs) ∧
      deedsIn s.history = servedDeeds server inputs := by
  rcases serves_start hqueue hfile now with ⟨start, hstarts, hserves, rfl⟩
  rw [← hstarts.used] at hinputs
  rcases serves_run hserves hinputs with ⟨s, hpath, hend, hdeeds⟩
  refine ⟨s, (Reachable.start hstarts).trans hpath, hend, ?_⟩
  rw [hdeeds, hstarts.history]
  rfl

end Runs

/-! ## Each entry once -/

section Once

omit [PyRuntime F] [PydanticTypes F] [PyDates F]

def Deed.executedFor : Deed F → Option Str
  | .executed entryId .. => entryId
  | .queued _ | .recorded _ => none

def Deed.queuedFor : Deed F → Option Str
  | .queued id => some id.text
  | .executed .. | .recorded _ => none

/-- The entries that were executed, in order. -/
def executedFor (deeds : List (Deed F)) : List Str := deeds.filterMap Deed.executedFor

/-- The entries that were queued, in order. -/
def queuedFor (deeds : List (Deed F)) : List Str := deeds.filterMap Deed.queuedFor

/-- What is told from the deeds of a history is told from its events. -/
theorem filterMap_deedsIn {f : Deed F → Option Str} {g : Event F → Option Uuid}
    (h : ∀ event : Event F, event.deed.bind f = (g event).map Uuid.text)
    (history : List (Event F)) :
    (deedsIn history).filterMap f = ((history.filterMap g).map Uuid.text).reverse := by
  have hsame : (history.filterMap g).map Uuid.text =
      history.filterMap fun event => event.deed.bind f := by
    rw [funext h]
    exact List.map_filterMap
  unfold deedsIn
  rw [List.filterMap_reverse, List.filterMap_filterMap, hsame]

theorem executedFor_deedsIn (history : List (Event F)) :
    executedFor (deedsIn history) = ((startedIds history).map Uuid.text).reverse := by
  refine filterMap_deedsIn (fun event => ?_) history
  cases event <;> rfl

theorem queuedFor_deedsIn (history : List (Event F)) :
    queuedFor (deedsIn history) = ((queuedIds history).map Uuid.text).reverse := by
  refine filterMap_deedsIn (fun event => ?_) history
  cases event <;> rfl

variable [PyRuntime F] [PydanticTypes F] {s s' : System F} {m : Move F}

/-- What is claimed is pending then. -/
theorem Step.claimed_mem (hstep : Step s m s') {e : Approval F} {approver : Approver F}
    (h : .claimed e approver ∈ s'.history) :
    .claimed e approver ∈ s.history ∨ e.id ∈ Server.pendingIds s.queue := by
  cases hstep with
  | claim _ hfound _ =>
    rcases List.mem_cons.mp h with hclaimed | hbefore
    · cases hclaimed
      rcases lookupPending_eq_found.mp hfound with ⟨hfind, hpending, -⟩
      exact Or.inr (mem_pendingIds.mpr ⟨e, (findEntry_eq_some hfind).2, rfl, hpending⟩)
    · exact Or.inl (by simpa using hbefore)
  | @save _ next _ _ =>
    left
    rcases List.mem_append.mp h with hanswer | hbefore
    · cases next <;> simp [Next.answers] at hanswer
    · exact hbefore
  | record _ _ =>
    left
    rcases List.mem_append.mp h with hrecorded | hbefore
    · split at hrecorded <;> simp at hrecorded
    · exact hbefore
  | queue _ _ _ _ _ => exact Or.inl (by simpa [System.change] using h)
  | lose _ _ _ => exact Or.inl (by simpa [System.change] using h)
  | reject _ _ => exact Or.inl (by simpa [System.change] using h)
  | start _ => exact Or.inl (by simpa using h)
  | store _ _ => exact Or.inl h
  | enter _ | refuse _ _ | read _ _ _ | cool _ _ | pass _ _ | finish _ | tick _ | crash =>
    exact Or.inl h

/-- What was claimed was queued. -/
theorem claimed_queued (h : Reachable System.Starts Step QuietRestarts s) :
    ∀ e approver, .claimed e approver ∈ s.history → e.id ∈ queuedIds s.history := by
  refine @Reachable.invariant _ _ _ _ _
    (fun s => ∀ e approver, .claimed e approver ∈ s.history → e.id ∈ queuedIds s.history) _ h
    (fun s hs => ?_) fun s m s' hs hqueued _ hstep => ?_
  · rw [hs.history]
    rintro e approver ⟨⟩
  · intro e approver hclaimed
    rw [hstep.queuedIds.1]
    refine List.mem_append_right _ ?_
    rcases hstep.claimed_mem hclaimed with hbefore | hpending
    · exact hqueued e approver hbefore
    · rw [(persisted_of_reachable hs).pending] at hpending
      exact List.mem_reverse.mp (List.mem_of_mem_filter hpending)

/-- What was executed was queued. -/
theorem started_queued (h : Reachable System.Starts Step QuietRestarts s) {id : Uuid}
    (hid : id ∈ startedIds s.history) : id ∈ queuedIds s.history := by
  rcases List.mem_filterMap.mp hid with ⟨event, hevent, hexecution⟩
  cases event with
  | started call job time =>
    rcases List.append_of_mem hevent with ⟨later, past, hhistory⟩
    have hjustified := (backed_of_reachable h).justified
    rw [hhistory] at hjustified
    rcases hjustified.of_append call job time id rfl hexecution with ⟨e, approver, hclaimed, rfl, -⟩
    refine claimed_queued h e approver ?_
    rw [hhistory]
    exact List.mem_append_right _ (List.mem_cons_of_mem _ hclaimed)
  | queued _ | left _ | claimed _ _ | rejected _ | recorded _ _ _ => cases hexecution

/-- As long as the state file can be written, an entry is executed at most once, whatever is asked of
the server and however often it is restarted: approvals execute distinct entries, each of which
`/webhook` has queued, and what is pending in the queue was queued and has not been executed. -/
theorem served_once [PyDates F] {server : ServerState F} (hqueue : server.queue = [])
    (hfile : server.stateFile = none) {now : ℚ} {inputs : List (Input F)}
    (hinputs : Sequenced false now [] inputs) :
    (executedFor (servedDeeds server inputs)).Nodup ∧
      executedFor (servedDeeds server inputs) ⊆ queuedFor (servedDeeds server inputs) ∧
      ∀ e ∈ (run serveInput server inputs).queue, e.status = .pending →
        e.id.val ∈ queuedFor (servedDeeds server inputs) ∧
          e.id.val ∉ executedFor (servedDeeds server inputs) := by
  rcases serves_start hqueue hfile now with ⟨start, hstarts, hserves, rfl⟩
  rw [← hstarts.used] at hinputs
  rcases serves_run hserves hinputs with ⟨s, hpath, hend, hdeeds⟩
  rw [hstarts.history] at hdeeds
  have hreachable := (Reachable.start hstarts).trans hpath
  have hquiet := hreachable.mono fun _ _ => InTurn.quietRestarts
  have hexclusive := exclusive_of_reachable (hreachable.mono fun _ _ => InTurn.savesSucceed)
  have houtcomes := startedIds_sublist s.history
  have hacts : servedDeeds server inputs = deedsIn s.history := hdeeds.symm
  rw [hacts, executedFor_deedsIn, queuedFor_deedsIn]
  refine ⟨?_, ?_, ?_⟩
  · exact List.nodup_reverse.mpr ((houtcomes.nodup hexclusive.nodup).map Uuid.text_injective)
  · intro text htext
    rcases List.mem_map.mp (List.mem_reverse.mp htext) with ⟨id, hid, rfl⟩
    exact List.mem_reverse.mpr (List.mem_map_of_mem (started_queued hquiet hid))
  · intro e he hstatus
    rw [← hend.queue] at he
    have hpending : e.id ∈ pendingIds s.queue := mem_pendingIds.mpr ⟨e, he, rfl, hstatus⟩
    constructor
    · have hqueued := hpending
      rw [(persisted_of_reachable hquiet).pending] at hqueued
      exact List.mem_reverse.mpr
        (List.mem_map_of_mem (List.mem_reverse.mp (List.mem_of_mem_filter hqueued)))
    · intro hexecuted
      rcases List.mem_map.mp (List.mem_reverse.mp hexecuted) with ⟨id, hid, htext⟩
      rw [Uuid.text_injective htext] at hid
      exact (hexclusive.taken e.id (Or.inl (houtcomes.subset hid))).2.1 hpending

end Once

/-! ## Examples -/

/-- `admin-key` approves what `operator-key` has asked for. -/
def exampleApproving : HttpRequest NanFloat :=
  { exampleHttpRequest (py "admin-key") (.approve exampleEntry.id.val) with
    env := { exampleRequestEnv (.steady []) with
      uuid := ⟨py "6f2d9a51-58d0-4a35-9c0e-3b7f1f0a4c11", by decide⟩ } }

/-- It does after a restart. -/
def exampleInputs : List (Input NanFloat) :=
  [.request exampleAsking, .restart, .request exampleApproving]

theorem sequenced_example (mayFail : Bool) : Sequenced mayFail 0 [] exampleInputs := by
  have hsaves : true = false → mayFail = true := by simp
  have hasking : exampleAsking.env.InTurn mayFail 0 [] :=
    ⟨fun _ => rfl, List.not_mem_nil, le_refl _, le_refl _, le_refl _, hsaves, hsaves⟩
  have happroving : exampleApproving.env.InTurn mayFail 0 [exampleEntry.id] :=
    ⟨fun _ => rfl, by decide, le_refl _, le_refl _, le_refl _, hsaves, hsaves⟩
  exact ⟨hasking, happroving, trivial⟩

/-- The state file may fail to be written. -/
theorem serving_refines_example : ∃ s, Reachable System.Starts Step (InTurn true) s ∧
    Serves s (run serveInput (exampleServer []) exampleInputs) ∧
    deedsIn s.history = servedDeeds (exampleServer []) exampleInputs :=
  serving_refines rfl rfl (sequenced_example true)

/-- And once more after that. -/
def exampleApprovingAgain : HttpRequest NanFloat :=
  { exampleHttpRequest (py "admin-key") (.approve exampleEntry.id.val) with
    env := { exampleRequestEnv (.steady []) with
      uuid := ⟨py "6f2d9a51-58d0-4a35-9c0e-3b7f1f0a4c12", by decide⟩ } }

def exampleTwice : List (Input NanFloat) :=
  exampleInputs ++ [.restart, .request exampleApprovingAgain]

theorem sequenced_again :
    Sequenced false 0 [] exampleTwice := by
  have hsaves : true = false → false = true := by simp
  have hasking : exampleAsking.env.InTurn false 0 [] :=
    ⟨fun _ => rfl, List.not_mem_nil, le_refl _, le_refl _, le_refl _, hsaves, hsaves⟩
  have happroving : exampleApproving.env.InTurn false 0 [exampleEntry.id] :=
    ⟨fun _ => rfl, by decide, le_refl _, le_refl _, le_refl _, hsaves, hsaves⟩
  have hagain : exampleApprovingAgain.env.InTurn false 0
      [exampleApproving.env.uuid, exampleEntry.id] :=
    ⟨fun _ => rfl, by decide, le_refl _, le_refl _, le_refl _, hsaves, hsaves⟩
  exact ⟨hasking, happroving, hagain, trivial⟩

/-- The second approval of the entry executes nothing. -/
theorem served_once_example :
    (executedFor (servedDeeds (exampleServer []) exampleTwice)).Nodup ∧
      executedFor (servedDeeds (exampleServer []) exampleTwice) ⊆
        queuedFor (servedDeeds (exampleServer []) exampleTwice) ∧
      ∀ e ∈ (run serveInput (exampleServer []) exampleTwice).queue, e.status = .pending →
        e.id.val ∈ queuedFor (servedDeeds (exampleServer []) exampleTwice) ∧
          e.id.val ∉ executedFor (servedDeeds (exampleServer []) exampleTwice) :=
  served_once rfl rfl sequenced_again

end AutoHeal.Server
