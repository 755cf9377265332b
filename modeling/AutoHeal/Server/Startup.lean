import AutoHeal.Python.Times
import AutoHeal.Server.Approve
import AutoHeal.Server.Cooldown
import AutoHeal.Server.Response

/-!
# Starting from the state files

What `CooldownTracker._load` and `_load_approval_queue` take over from `logs/cooldowns.json` and
`logs/approvals.json`, and what the server does with it from then on. The loaders look at the
outermost type only, so a time may be any value, and so may an entry of the queue. Here they stay
what they were read as, and each comparison, subscript and call on them raises where Python's does.
-/

namespace AutoHeal.Server

open Audit

variable {F : Type}

/-! ## The server -/

/-- A value of `_last_run`: one of the state file, or a time of the clock. -/
inductive Stamp (F : Type) where
  | loaded (v : PyVal F)
  | recorded (time : ℚ)

/-- The stamp is one of the clock. -/
def Stamp.isRecorded : Stamp F → Bool
  | .loaded _ => false
  | .recorded _ => true

/-- An object in `approval_queue`. Its fields need not tell it from others, so it has a tag; it is
`loaded` if it came out of the state file. -/
structure Item (F : Type) where
  tag : Nat
  loaded : Bool
  value : PyVal F

/-- An approval that was claimed and executes. -/
structure Execution (F : Type) where
  item : Item F
  task : Task F

/-- The approval queue and the cooldowns as Python has them. -/
structure RawServer (F : Type) where
  queue : List (Item F)
  nextTag : Nat
  lastRun : List (Str × Stamp F)
  executing : List (Execution F)

namespace RawServer

/-! ## Loading -/

section Loading

variable [PyRuntime F]

/-- `json.load` of a file, `none` being a file that is absent or cannot be opened. A text that is no
JSON is caught; bytes that are no text are not. -/
def jsonLoad (file : Option Bytes) : Py (Option (PyVal F)) :=
  match file with
  | none => .ok none
  | some bytes =>
    match decodeUtf8 bytes with
    | none => .error .unicodeDecodeError
    | some text => .ok (loads (translateNewlines text))

/-- `_load` of the cooldown tracker. -/
def loadCooldowns (file : Option Bytes) : Py (List (Str × Stamp F)) := do
  match ← jsonLoad file with
  | some (.dict items) => return items.map fun kv => (keyText kv.1, .loaded kv.2)
  | _ => return []

/-- `_load_approval_queue`, into an empty queue. -/
def loadApprovals (file : Option Bytes) : Py (List (PyVal F)) := do
  match ← jsonLoad file with
  | some (.list entries) => return entries
  | _ => return []

/-- The server once both state files are loaded. -/
def start (cooldowns approvals : Option Bytes) : Py (RawServer F) := do
  let lastRun ← loadCooldowns cooldowns
  let entries ← loadApprovals approvals
  return {
    queue := entries.zipIdx.map fun p => ⟨p.2, true, p.1⟩
    nextTag := entries.length
    lastRun
    executing := [] }

end Loading

/-! ## Cooldowns -/

/-- A waiting time: seconds, or the float `inf`. -/
inductive Rest where
  | seconds (q : ℚ)
  | forever
  deriving DecidableEq

/-- `remaining if remaining > 0 else None`. -/
def ifPositive (remaining : ℚ) : Option Rest := if 0 < remaining then some (.seconds remaining) else none

/-- What is left of a cooldown of `c` seconds that began at a float. -/
def restSince (c now : ℚ) : FloatValue → Option Rest
  | .finite time => ifPositive (c - (now - time))
  | .posInf => some .forever
  | .negInf | .nan => none

section Cooldowns

variable [FloatValues F]

/-- `ts < cutoff`. -/
def before (cutoff : ℚ) : Stamp F → Py Bool
  | .loaded v => lessTime v cutoff
  | .recorded time => .ok (time < cutoff)

/-- `stale_keys`. -/
def staleKeys (cutoff : ℚ) : List (Str × Stamp F) → Py (List Str)
  | [] => .ok []
  | (key, stamp) :: items => do
    let stale ← before cutoff stamp
    let keys ← staleKeys cutoff items
    return if stale then key :: keys else keys

/-- `record`. The time is set before the table is pruned, and stays if that raises. -/
def recordTime (items : List (Str × Stamp F)) (key : Str) (now nowPrune : ℚ) :
    List (Str × Stamp F) × Py Unit :=
  let items := Items.set key (.recorded now) items
  match staleKeys (nowPrune - maxCooldownRetentionSeconds) items with
  | .ok stale => (items.filter fun kv => !stale.contains kv.1, .ok ())
  | .error e => (items, .error e)

/-- What is left of a cooldown of `c` seconds that began with the stamp. -/
def restOf (c now : ℚ) : Stamp F → Py (Option Rest)
  | .recorded time => .ok (ifPositive (c - (now - time)))
  | .loaded .none => .ok none
  | .loaded v =>
    match v.num with
    | some (.inl n) =>
      if beyondFloat n then .error .overflowError else .ok (ifPositive (c - (now - n)))
    | some (.inr x) => .ok (restSince c now (FloatValues.value x))
    | none => .error .typeError

/-- `seconds_remaining`. -/
def remaining (items : List (Str × Stamp F)) (key : Str) (c now : ℚ) : Py (Option Rest) :=
  if c = 0 then .ok none
  else
    match items.lookup key with
    | some stamp => restOf c now stamp
    | none => .ok none

end Cooldowns

/-! ## The queue -/

/-- `entry[key]`. -/
def subscript (key : Str) : PyVal F → Py (PyVal F)
  | .dict d =>
    match Dict.get? key d with
    | some v => .ok v
    | none => .error .keyError
  | _ => .error .typeError

/-- `entry[key] = value`, for each of the fields. -/
def setFields (fields : List (Str × PyVal F)) : PyVal F → PyVal F
  | .dict d => .dict (updateDict d fields)
  | v => v

/-- The server after fields of an object were set. -/
def modify (s : RawServer F) (tag : Nat) (fields : List (Str × PyVal F)) : RawServer F :=
  { s with
    queue := s.queue.map fun item =>
      if item.tag = tag then { item with value := setFields fields item.value } else item }

/-- `{k: v for k, v in entry.items() if k != "result"}`. -/
def listed : PyVal F → Py (Dict F)
  | .dict d => .ok (Dict.erase (py "result") d)
  | _ => .error .attributeError

section Queue

variable [PyRuntime F]

/-- `_find_approval_entry_locked`. -/
def findEntry (entryId : Str) : List (Item F) → Py (Option (Item F))
  | [] => .ok none
  | item :: queue => do
    let id ← subscript (py "id") item.value
    if scalarEq id (.str entryId) then return some item else findEntry entryId queue

/-- `processed_positions`. -/
def processedPositions : List (Item F × Nat) → Py (List Nat)
  | [] => .ok []
  | (item, i) :: rest => do
    let status ← subscript (py "status") item.value
    let positions ← processedPositions rest
    return if scalarEq status (.str (py "pending")) then positions else i :: positions

/-- `_prune_approval_queue_locked`. -/
def pruneQueue (queue : List (Item F)) : Py (List (Item F)) := do
  let processed ← processedPositions queue.zipIdx
  let drop := processed.take (processed.length - maxProcessedApprovals)
  return (queue.zipIdx.filter fun p => !drop.contains p.2).map Prod.fst

/-- `_save_approval_queue_locked`, and what is answered after it. -/
def saveThen {α : Type} (s : RawServer F) (next : RawServer F → RawServer F × Py α) :
    RawServer F × Py α :=
  match pruneQueue s.queue with
  | .ok queue => next { s with queue }
  | .error e => (s, .error e)

end Queue

/-! ## Responses -/

/-- What an operation returns. -/
inductive Answer (F : Type) where
  | done
  | remaining (rest : Option Rest)
  | approvals (entries : List (Dict F))
  | response (response : Response F)
  | executes

/-! ## The requester -/

/-- `has_permission(entry["role"], permission)`. What is no string is no role, if it can be looked up. -/
def roleHasPermission (cfg : AuthConfig) (role : PyVal F) (permission : Str) : Py Bool :=
  match role with
  | .str name => .ok (hasPermission cfg (some name) permission)
  | .list _ | .dict _ => .error .typeError
  | _ => .ok false

/-- The scope of `entry["requested_by"]`. What is no string is an unknown key, which is restricted to
nothing. -/
def keyAllows (allows : Str → Bool) (key : PyVal F) : Py Bool :=
  match key with
  | .str apiKey => .ok (allows apiKey)
  | .list _ | .dict _ => .error .typeError
  | _ => .ok true

/-- The requester may execute the action on the controller. -/
def requesterPermits (site : Site F) (reads : VaultReads) (requestedBy role : PyVal F)
    (eventType : Str) (controllerName : Option Str) : Py Bool := do
  if !(← roleHasPermission site.auth role (py "execute_actions")) then return false
  else if !(← keyAllows (isActionAllowedForKey (resolveApiKeys site.auth reads.actions) · eventType)
      requestedBy) then
    return false
  else
    keyAllows (isControllerAllowedForKey (resolveApiKeys site.auth reads.controllers) ·
      controllerName) requestedBy

/-! ## Approving and rejecting -/

/-- Who makes a request. Neither a header nor the name of a role has surrogates in it. -/
structure Caller (F : Type) where
  apiKey : Str
  site : Site F
  reads : VaultReads
  apiKey_encodes : encodes apiKey = true
  role_encodes : ∀ role ∈ getRoleFromApiKey (resolveApiKeys site.auth reads.role) apiKey,
    encodes role = true

def Caller.role (caller : Caller F) : Option Str :=
  getRoleFromApiKey (resolveApiKeys caller.site.auth caller.reads.role) caller.apiKey

/-- The `approved_by` and `approver_role` of what is approved or rejected. -/
def Caller.fields (caller : Caller F) : List (Str × PyVal F) :=
  [(py "approved_by", .str caller.apiKey), (py "approver_role", optStr caller.role)]

/-- The fields of what is rejected for a reason. -/
def rejectedFields (reason : Str) : List (Str × PyVal F) :=
  [(py "status", .str (py "rejected")), (py "result", .dict (errorResult reason))]

/-- What a locked section finds. -/
inductive Found (F : Type) where
  | refused (response : Response F)
  | pending (item : Item F)

section Handlers

variable [PyRuntime F]

/-- The first lines of both locked sections, `act` being what is done with an entry. -/
def lookupPending (queue : List (Item F)) (apiKey approvalId act : Str) : Py (Found F) := do
  match ← findEntry approvalId queue with
  | none => return .refused (.error 404 (py "Approval not found"))
  | some item =>
    let status ← subscript (py "status") item.value
    if !scalarEq status (.str (py "pending")) then
      if encodes (pyStr status) then return .refused (.error 400 (py "Already " ++ pyStr status))
      else .error .valueError
    else
      let requestedBy ← subscript (py "requested_by") item.value
      if scalarEq requestedBy (.str apiKey) then
        return .refused (.error 403 (py "You cannot " ++ act ++ py " your own request"))
      else return .pending item

/-- What an approval is to execute, `none` if its requester is no longer permitted to. -/
def assess [PydanticTypes F] (site : Site F) (reads : VaultReads) (entry : PyVal F) :
    Py (Option (Task F)) := do
  match webhookPayload (← subscript (py "payload") entry) with
  | none => .error .valueError
  | some payload =>
    match getActionConfig site payload.eventType with
    | none =>
      -- an action that is gone is asked for its controller, or for its parameters
      if overrides payload.controllerOverride then
        let requestedBy ← subscript (py "requested_by") entry
        let role ← subscript (py "role") entry
        if ← requesterPermits site reads requestedBy role payload.eventType
            payload.controllerOverride then .error .attributeError
        else return none
      else .error .attributeError
    | some action =>
      let controllerName := resolveController payload.controllerOverride action
      let requestedBy ← subscript (py "requested_by") entry
      let role ← subscript (py "role") entry
      if ← requesterPermits site reads requestedBy role payload.eventType controllerName then
        return some ⟨payload, action, controllerName, getControllerConfig site controllerName⟩
      else return none

/-- The entry is claimed, and `execute_action` asks its controller for the host. -/
def claim (s : RawServer F) (caller : Caller F) (item : Item F) (task : Task F) :
    RawServer F × Py (Answer F) :=
  let fields := (py "status", .str (py "approved")) :: caller.fields
  (s.modify item.tag fields).saveThen fun s =>
    match task.controller with
    | none => (s, .error .attributeError)
    | some _ =>
      let claimed := { item with value := setFields fields item.value }
      ({ s with executing := ⟨claimed, task⟩ :: s.executing }, .ok .executes)

variable [FloatValues F]

/-- What is left of the cooldown of a task. -/
def restOfTask (s : RawServer F) (task : Task F) (now : ℚ) : Py (Option Rest) :=
  if task.coolsDown then remaining s.lastRun task.cooldownKey task.cooldownSeconds now else .ok none

/-- Approve a pending entry. -/
def approveItem [PydanticTypes F] (s : RawServer F) (caller : Caller F) (now : ℚ) (item : Item F) :
    RawServer F × Py (Answer F) :=
  match assess caller.site caller.reads item.value with
  | .error e => (s, .error e)
  | .ok none =>
    (s.modify item.tag (rejectedFields lostReason)).saveThen fun s =>
      (s, .ok (.response (.error 403 lostReason)))
  | .ok (some task) =>
    match s.restOfTask task now with
    | .error e => (s, .error e)
    | .ok none => s.claim caller item task
    | .ok (some (.seconds q)) => (s, .ok (.response (task.blockResponse q)))
    -- `inf` is no JSON
    | .ok (some .forever) => (s, .error .valueError)

/-- `approve_approval`, until it executes. -/
def approve [PydanticTypes F] (s : RawServer F) (caller : Caller F) (approvalId : Str) (now : ℚ) :
    RawServer F × Py (Answer F) :=
  if !hasPermission caller.site.auth caller.role (py "approve_actions") then
    (s, .ok (.response (.error 403 (py "Approving actions is not permitted for your role"))))
  else
    match lookupPending s.queue caller.apiKey approvalId (py "approve") with
    | .error e => (s, .error e)
    | .ok (.refused response) => (s, .ok (.response response))
    | .ok (.pending item) => s.approveItem caller now item

/-- `entry["requested_by"]` and `entry["role"]`, for the audit log. -/
def requester (entry : PyVal F) : Py (PyVal F × PyVal F) := do
  return (← subscript (py "requested_by") entry, ← subscript (py "role") entry)

/-- `approve_approval`, once `execute_action` has returned. -/
def settle (s : RawServer F) (execution : Execution F) (result : Option ExecResult)
    (now nowPrune : ℚ) : RawServer F × Py (Answer F) :=
  match result with
  | none =>
    (s.modify execution.item.tag (rejectedFields noExecutableError)).saveThen fun s =>
      (s, .ok (.response (.error 400 noExecutableError)))
  | some result =>
    let recorded := if execution.task.coolsDown then
        recordTime s.lastRun execution.task.cooldownKey now nowPrune
      else (s.lastRun, .ok ())
    let s := { s with lastRun := recorded.1 }
    match recorded.2 with
    | .error e => (s, .error e)
    | .ok _ =>
      (s.modify execution.item.tag [(py "result", .dict result.asDict)]).saveThen fun s =>
        match requester execution.item.value with
        | .error e => (s, .error e)
        | .ok _ => (s, .ok (.response (.ok (approvedBody result))))

omit [FloatValues F] in
/-- What a rejection reads of its entry for the audit log. -/
def rejectedDetails (entry : PyVal F) : Py Unit := do
  let _ ← requester entry
  let payload ← subscript (py "payload") entry
  match payload with
  | .dict _ =>
    let _ ← subscript (py "controller") entry
    return ()
  | _ => .error .attributeError

omit [FloatValues F] in
/-- Reject a pending entry. -/
def rejectItem (s : RawServer F) (caller : Caller F) (item : Item F) : RawServer F × Py (Answer F) :=
  (s.modify item.tag (rejectedFields (py "Rejected by approver") ++ caller.fields)).saveThen fun s =>
    match rejectedDetails item.value with
    | .error e => (s, .error e)
    | .ok _ => (s, .ok (.response (.ok [(.str (py "status"), .str (py "rejected"))])))

omit [FloatValues F] in
/-- `reject_approval`. -/
def reject (s : RawServer F) (caller : Caller F) (approvalId : Str) : RawServer F × Py (Answer F) :=
  if !hasPermission caller.site.auth caller.role (py "approve_actions") then
    (s, .ok (.response (.error 403 (py "Rejecting actions is not permitted for your role"))))
  else
    match lookupPending s.queue caller.apiKey approvalId (py "reject") with
    | .error e => (s, .error e)
    | .ok (.refused response) => (s, .ok (.response response))
    | .ok (.pending item) => s.rejectItem caller item

/-- `list_approvals`, and the response that is made of it. -/
def list (s : RawServer F) (caller : Caller F) : Py (Answer F) :=
  if !hasPermission caller.site.auth caller.role (py "approvals_read") then
    .ok (.response (.error 403 (py "Forbidden")))
  else do
    let entries ← s.queue.mapM fun item => listed item.value
    if rendered (.list (entries.map .dict)) then return .approvals entries else .error .valueError

omit [FloatValues F] in
/-- Queue a request that passed the gates of `/webhook`. -/
def enqueue (s : RawServer F) (a : Admitted F) (id : Uuid) (apiKey : Str) :
    RawServer F × Py (Answer F) :=
  let item : Item F := ⟨s.nextTag, false, .dict (a.entry id apiKey).toJson⟩
  saveThen { s with queue := s.queue ++ [item], nextTag := s.nextTag + 1 } fun s =>
    (s, .ok (.response (.ok (pendingBody id))))

end Handlers

/-! ## Operations -/

/-- What may be done with the queue and the cooldowns. An execution is settled by the tag of its
object. -/
inductive Operation (F : Type) where
  | record (key : Str) (now nowPrune : ℚ)
  | secondsRemaining (key : Str) (cooldownSeconds now : ℚ)
  | queue (admitted : Admitted F) (id : Uuid) (apiKey : Str)
  | list (caller : Caller F)
  | approve (caller : Caller F) (approvalId : Str) (now : ℚ)
  | settle (tag : Nat) (result : Option ExecResult) (now nowPrune : ℚ)
  | reject (caller : Caller F) (approvalId : Str)

variable [PyRuntime F] [FloatValues F] [PydanticTypes F]

def perform (s : RawServer F) : Operation F → RawServer F × Py (Answer F)
  | .record key now nowPrune =>
    let (lastRun, returns) := recordTime s.lastRun key now nowPrune
    ({ s with lastRun }, returns.map fun _ => .done)
  | .secondsRemaining key c now => (s, (remaining s.lastRun key c now).map .remaining)
  | .queue admitted id apiKey => s.enqueue admitted id apiKey
  | .list caller => (s, s.list caller)
  | .approve caller approvalId now => s.approve caller approvalId now
  | .settle tag result now nowPrune =>
    match s.executing.find? fun execution => execution.item.tag = tag with
    | none => (s, .ok .done)
    | some execution =>
      settle { s with executing := s.executing.filter fun execution => execution.item.tag ≠ tag }
        execution result now nowPrune
  | .reject caller approvalId => s.reject caller approvalId

/-! ## What the server itself has written

On the objects of typed entries, and on times of the clock, nothing raises, and the operations are
those of the typed queue and of the typed tracker. -/

section Typed

omit [FloatValues F] [PydanticTypes F]

theorem scalarEq_status (e : Approval F) :
    subscript (py "status") (.dict e.toJson) = .ok (.str e.status.text) ∧
      scalarEq (.str e.status.text : PyVal F) (.str (py "pending")) = decide (e.status = .pending) := by
  refine ⟨rfl, ?_⟩
  cases e.status <;> rw [scalarEq_str] <;> decide

variable {toItem : Approval F → Item F} (hvalue : ∀ e, (toItem e).value = .dict e.toJson)

include hvalue

theorem findEntry_map (entries : List (Approval F)) (entryId : Str) :
    findEntry entryId (entries.map toItem) = .ok ((Server.findEntry entries entryId).map toItem) := by
  induction entries with
  | nil => rfl
  | cons e entries ih =>
    have hid : subscript (py "id") (toItem e).value = .ok (.str e.id.val) := by
      rw [hvalue]
      rfl
    rw [List.map_cons, findEntry, hid, Py.ok_bind, scalarEq_str, ih]
    unfold Server.findEntry
    rw [List.find?_cons]
    by_cases h : e.id.val = entryId
    · simp [h]
    · simp [h]

theorem processedPositions_map (positions : List (Approval F × Nat)) :
    processedPositions (positions.map fun p => (toItem p.1, p.2)) =
      .ok ((positions.filter fun p => p.1.status ≠ .pending).map Prod.snd) := by
  induction positions with
  | nil => rfl
  | cons p positions ih =>
    rcases p with ⟨e, i⟩
    rcases scalarEq_status e with ⟨hread, hpending⟩
    rw [List.map_cons, processedPositions, hvalue, hread, Py.ok_bind, ih, Py.ok_bind, hpending]
    by_cases h : e.status = .pending
    · simp [h]
    · simp [h]

theorem pruneQueue_map (entries : List (Approval F)) :
    pruneQueue (entries.map toItem) = .ok ((Server.pruneQueue entries).map toItem) := by
  have hindices : (entries.map toItem).zipIdx = entries.zipIdx.map fun p => (toItem p.1, p.2) :=
    List.zipIdx_map
  unfold pruneQueue Server.pruneQueue
  generalize maxProcessedApprovals = bound
  rw [hindices, processedPositions_map hvalue, Py.ok_bind]
  simp only [List.filter_map, List.map_map]
  rfl

end Typed

omit [PyRuntime F] [PydanticTypes F] in
theorem recordTime_map (tracker : CooldownTracker) (key : Str) (now nowPrune : ℚ)
    (h : (tracker.lastRun.map Prod.fst).Nodup) :
    recordTime (tracker.lastRun.map fun kv => (kv.1, (.recorded kv.2 : Stamp F))) key now nowPrune =
      ((tracker.record key now nowPrune).lastRun.map fun kv => (kv.1, .recorded kv.2), .ok ()) := by
  have hset : ∀ items : List (Str × ℚ),
      Items.set key (.recorded now) (items.map fun kv => (kv.1, (.recorded kv.2 : Stamp F))) =
        (Items.set key now items).map fun kv => (kv.1, .recorded kv.2) := by
    intro items
    induction items with
    | nil => rfl
    | cons kv items ih =>
      by_cases hkey : kv.1 = key
      · simp [Items.set, hkey]
      · simp [Items.set, hkey, ih]
  have hstale : ∀ (cutoff : ℚ) (items : List (Str × ℚ)),
      staleKeys cutoff (items.map fun kv => (kv.1, (.recorded kv.2 : Stamp F))) =
        .ok ((items.filter fun kv => decide (kv.2 < cutoff)).map Prod.fst) := by
    intro cutoff items
    induction items with
    | nil => rfl
    | cons kv items ih =>
      rw [List.map_cons, staleKeys, ih]
      by_cases hlt : kv.2 < cutoff
      · simp [before, hlt]
      · simp [before, hlt]
  have hnodup := Items.nodup_set h key now
  unfold recordTime
  simp only [hset, hstale]
  rw [List.filter_map]
  congr 2
  refine List.filter_congr fun kv hkv => ?_
  -- a key is stale exactly when its own time is, as the keys are distinct
  show (!((List.filter _ (Items.set key now tracker.lastRun)).map Prod.fst).contains kv.1) = _
  congr 1
  rw [Bool.eq_iff_iff, List.contains_iff_mem, List.mem_map]
  constructor
  · rintro ⟨kw, hkw, heq⟩
    rcases List.mem_filter.mp hkw with ⟨hmem, hlt⟩
    rw [← List.inj_on_of_nodup_map hnodup hmem hkv heq]
    exact hlt
  · intro hlt
    exact ⟨kv, List.mem_filter.mpr ⟨hkv, hlt⟩, rfl⟩

end RawServer

end AutoHeal.Server
