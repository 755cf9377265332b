import AutoHeal.Server.Actions
import AutoHeal.Audit.Rehash
import AutoHeal.Lib.Retain

/-!
# The approval queue

The entries of `approval_queue`, their JSON form, and what `src/main.py` does with the
queue while it holds `approval_lock`: find an entry, change it, prune, save, load.
-/

namespace AutoHeal.Server

open Audit

variable {F : Type}

/-! ## Entries -/

/-- The text of a `uuid4`. -/
def Uuid := { s : Str // Printable s }

instance : DecidableEq Uuid := inferInstanceAs (DecidableEq { s : Str // Printable s })

/-- The `status` of an entry. -/
inductive Status where
  | pending
  | approved
  | rejected
  deriving DecidableEq, Repr

def Status.text : Status → Str
  | .pending => py "pending"
  | .approved => py "approved"
  | .rejected => py "rejected"

/-- An entry of `approval_queue`. `processed` is the key and the role of who approved or
rejected it, `approved_by` and `approver_role` in the source. -/
structure Approval (F : Type) where
  id : Uuid
  payload : JsonDoc F
  status : Status
  result : Option (Dict F)
  requestedBy : Str
  role : Option Str
  controller : Str
  processed : Option (Str × Option Str)

/-- `{"error": reason}`. -/
def errorResult (reason : Str) : Dict F := [(.str (py "error"), .str reason)]

/-- The entry as the dict it is in the source. -/
def Approval.toJson (e : Approval F) : Dict F :=
  [(.str (py "id"), .str e.id.val),
    (.str (py "payload"), e.payload.val),
    (.str (py "status"), .str e.status.text),
    (.str (py "result"), match e.result with
      | some result => .dict result
      | none => .none),
    (.str (py "requested_by"), .str e.requestedBy),
    (.str (py "role"), optStr e.role),
    (.str (py "controller"), .str e.controller)] ++
  match e.processed with
  | some (approver, approverRole) =>
    [(.str (py "approved_by"), .str approver), (.str (py "approver_role"), optStr approverRole)]
  | none => []

/-! ## The queue -/

/-- `_find_approval_entry_locked`. -/
def findEntry (queue : List (Approval F)) (entryId : Str) : Option (Approval F) :=
  queue.find? fun e => e.id.val = entryId

/-- The queue after fields of the entry with this id have been set. The ids in a queue
are distinct; an entry that is no longer in the queue changes by itself. -/
def updateEntry (queue : List (Approval F)) (id : Uuid) (f : Approval F → Approval F) :
    List (Approval F) :=
  queue.map fun e => if e.id = id then f e else e

/-- `MAX_PROCESSED_APPROVALS`. -/
def maxProcessedApprovals : Nat := 500

/-- `_prune_approval_queue_locked`. -/
def pruneQueue (queue : List (Approval F)) : List (Approval F) :=
  let processedPositions :=
    (queue.zipIdx.filter fun p => p.1.status ≠ .pending).map Prod.snd
  let excess := processedPositions.length - maxProcessedApprovals
  let drop := processedPositions.take excess
  (queue.zipIdx.filter fun p => !drop.contains p.2).map Prod.fst

/-- The entry has left `pending`. -/
def Approval.isProcessed (e : Approval F) : Bool := e.status ≠ .pending

/-- Pruning keeps the last 500 processed entries, and every pending one. -/
theorem pruneQueue_eq (queue : List (Approval F)) :
    pruneQueue queue = Retain.keepLast Approval.isProcessed maxProcessedApprovals queue := by
  have hlength := Retain.length_positions (p := Approval.isProcessed) queue 0
  unfold pruneQueue
  rw [Retain.keepLast, ← hlength]
  generalize maxProcessedApprovals = bound
  exact Retain.filter_zipIdx_eq_dropFirst (p := Approval.isProcessed) queue _ 0

theorem pruneQueue_singleton (e : Approval F) : pruneQueue [e] = [e] := by
  rw [pruneQueue_eq]
  refine Retain.keepLast_of_le (List.countP_le_length.trans ?_)
  show 1 ≤ 500
  omega

/-! ## Setting fields of an entry -/

section Update

variable {queue pre post : List (Approval F)} {e : Approval F} {id : Uuid}
  {f : Approval F → Approval F}

/-- The entry with an id, where ids are distinct, is the only one that is changed. -/
theorem updateEntry_append_cons (hids : ((pre ++ e :: post).map Approval.id).Nodup)
    (f : Approval F → Approval F) : updateEntry (pre ++ e :: post) e.id f = pre ++ f e :: post := by
  rw [List.map_append, List.map_cons, List.nodup_middle, List.nodup_cons, ← List.map_append] at hids
  have hsame : ∀ x ∈ pre ++ post, (if x.id = e.id then f x else x) = x := by
    intro x hx
    refine if_neg fun hid => hids.1 ?_
    rw [← hid]
    exact List.mem_map_of_mem hx
  unfold updateEntry
  rw [List.map_append, List.map_cons, if_pos rfl,
    List.map_congr_left fun x hx => hsame x (List.mem_append_left _ hx),
    List.map_congr_left fun x hx => hsame x (List.mem_append_right _ hx), List.map_id', List.map_id']

theorem updateEntry_of_notMem (h : id ∉ queue.map Approval.id) : updateEntry queue id f = queue := by
  have hsame : ∀ x ∈ queue, (if x.id = id then f x else x) = x := by
    intro x hx
    refine if_neg fun hid => h ?_
    rw [← hid]
    exact List.mem_map_of_mem hx
  unfold updateEntry
  rw [List.map_congr_left hsame, List.map_id']

/-- Setting fields keeps the ids, in their order. -/
theorem map_id_updateEntry (hf : ∀ x, x.id = id → (f x).id = id) :
    (updateEntry queue id f).map Approval.id = queue.map Approval.id := by
  unfold updateEntry
  rw [List.map_map]
  refine List.map_congr_left fun x _ => ?_
  show (if x.id = id then f x else x).id = x.id
  split
  · next hid => rw [hf x hid, hid]
  · rfl

theorem findEntry_eq_some {s : Str} (h : findEntry queue s = some e) : e.id.val = s ∧ e ∈ queue :=
  ⟨by simpa using List.find?_some h, List.mem_of_find?_eq_some h⟩

end Update

/-! ## Pending entries -/

/-- The ids of the entries that have not left `pending`, in their order. -/
def pendingIds (queue : List (Approval F)) : List Uuid :=
  (queue.filter fun e => !e.isProcessed).map Approval.id

section Pending

variable {queue : List (Approval F)} {id : Uuid} {f : Approval F → Approval F}

theorem mem_pendingIds : id ∈ pendingIds queue ↔ ∃ e ∈ queue, e.id = id ∧ e.status = .pending := by
  unfold pendingIds Approval.isProcessed
  simp only [List.mem_map, List.mem_filter, Bool.not_eq_true', decide_eq_false_iff_not, ne_eq,
    not_not]
  constructor
  · rintro ⟨e, ⟨he, hpending⟩, hid⟩
    exact ⟨e, he, hid, hpending⟩
  · rintro ⟨e, he, hid, hpending⟩
    exact ⟨e, ⟨he, hpending⟩, hid⟩

/-- Pruning loses no pending entry. -/
theorem pendingIds_pruneQueue (queue : List (Approval F)) :
    pendingIds (pruneQueue queue) = pendingIds queue := by
  unfold pendingIds
  rw [pruneQueue_eq]
  exact congrArg _ (Retain.filter_keepLast _ _)

theorem pendingIds_append_singleton (e : Approval F) (h : e.status = .pending) :
    pendingIds (queue ++ [e]) = pendingIds queue ++ [e.id] := by
  unfold pendingIds Approval.isProcessed
  simp [h]

/-- An entry that is processed is pending no more. -/
theorem pendingIds_updateEntry (hf : ∀ x : Approval F, x.id = id → (f x).isProcessed = true) :
    pendingIds (updateEntry queue id f) = (pendingIds queue).filter fun id' => id' ≠ id := by
  unfold pendingIds updateEntry
  induction queue with
  | nil => rfl
  | cons e queue ih =>
    by_cases he : e.id = id
    · rw [List.map_cons, if_pos he, List.filter_cons, if_neg (by simp [hf e he]), ih,
        List.filter_cons]
      split
      · simp [he]
      · rfl
    · rw [List.map_cons, if_neg he, List.filter_cons, List.filter_cons]
      split
      · rw [List.map_cons, List.map_cons, ih, List.filter_cons, if_pos (by simpa using he)]
      · exact ih

/-- Setting other fields leaves the pending entries as they are. -/
theorem pendingIds_updateEntry_of_status (hid : ∀ x : Approval F, (f x).id = x.id)
    (hf : ∀ x : Approval F, (f x).status = x.status) :
    pendingIds (updateEntry queue id f) = pendingIds queue := by
  unfold pendingIds updateEntry Approval.isProcessed
  induction queue with
  | nil => rfl
  | cons e queue ih =>
    have hstatus : (if e.id = id then f e else e).status = e.status := by
      split
      · exact hf e
      · rfl
    have hsame : (if e.id = id then f e else e).id = e.id := by
      split
      · exact hid e
      · rfl
    rw [List.map_cons, List.filter_cons, List.filter_cons, hstatus]
    split
    · rw [List.map_cons, List.map_cons, hsame, ih]
    · exact ih

/-- Pruning loses and adds no id. -/
theorem sublist_pruneQueue (queue : List (Approval F)) : (pruneQueue queue).Sublist queue := by
  rw [pruneQueue_eq]
  exact Retain.keepLast_sublist _ _

end Pending

variable [PyRuntime F]

/-- The text of the state file. -/
def queueText (queue : List (Approval F)) : Str :=
  print .spaced (.list (queue.map fun e => .dict e.toJson))

/-- `_save_approval_queue_locked`: the queue, pruned, and the state file, which stays
what it was if it cannot be written. -/
def saveApprovalQueueLocked (queue : List (Approval F)) (file : Option Str) (writes : Bool) :
    List (Approval F) × Option Str :=
  let pruned := pruneQueue queue
  (pruned, if writes then some (queueText pruned) else file)

/-! ## Loading -/

section Load

omit [PyRuntime F]

/-- The value of a key of a dict that came out of a JSON text. -/
def getDoc {d : Dict F} (hd : JsonValue (.dict d)) (key : Str) : Option (JsonDoc F) :=
  match h : Dict.get? key d with
  | some v => some ⟨v, (hd.get? h).keyed⟩
  | none => none

def uuidOf : PyVal F → Option Uuid
  | .str s => if h : Printable s then some ⟨s, h⟩ else none
  | _ => none

def statusOf : PyVal F → Option Status
  | .str s =>
    if s = py "pending" then some .pending
    else if s = py "approved" then some .approved
    else if s = py "rejected" then some .rejected
    else none
  | _ => none

def resultOf : PyVal F → Option (Option (Dict F))
  | .dict result => some (some result)
  | .none => some none
  | _ => none

def strOf : PyVal F → Option Str
  | .str s => some s
  | _ => none

def optStrOf : PyVal F → Option (Option Str)
  | .str s => some (some s)
  | .none => some none
  | _ => none

/-- The entry a dict in the state file stands for. -/
def Approval.ofJson {d : Dict F} (hd : JsonValue (.dict d)) : Option (Approval F) := do
  let id ← (Dict.get? (py "id") d).bind uuidOf
  let payload ← getDoc hd (py "payload")
  let status ← (Dict.get? (py "status") d).bind statusOf
  let result ← (Dict.get? (py "result") d).bind resultOf
  let requestedBy ← (Dict.get? (py "requested_by") d).bind strOf
  let role ← (Dict.get? (py "role") d).bind optStrOf
  let controller ← (Dict.get? (py "controller") d).bind strOf
  let approver := (Dict.get? (py "approved_by") d).bind strOf
  let approverRole := (Dict.get? (py "approver_role") d).bind optStrOf
  return {
    id, payload, status, result, requestedBy, role, controller
    processed := approver.bind fun key => approverRole.map fun role => (key, role) }

/-- The entries of a list in the state file. The server writes no others. -/
def entriesOf : (xs : List (PyVal F)) → (∀ x ∈ xs, JsonValue x) → List (Approval F)
  | [], _ => []
  | .dict d :: xs, h =>
    (Approval.ofJson (h (.dict d) (by simp))).toList ++ entriesOf xs fun x hx => h x (by simp [hx])
  | _ :: xs, h => entriesOf xs fun x hx => h x (by simp [hx])

theorem jsonValue_of_mem_list {xs : List (PyVal F)} (h : JsonValue (.list xs)) :
    ∀ x ∈ xs, JsonValue x := by
  cases h with
  | list hxs => exact hxs

end Load

/-- `_load_approval_queue`, into an empty queue. -/
def loadApprovalQueue (file : Option Str) : List (Approval F) :=
  match file with
  | none => []
  | some text =>
    match h : (loads text : Option (PyVal F)) with
    | some (.list xs) => entriesOf xs (jsonValue_of_mem_list (jsonValue_of_loads h))
    | _ => []

/-! ## Saving and loading -/

theorem readBack_jsonValue {v : PyVal F} (h : JsonValue v) : readBack v = v := by
  rw [readBack, stringify_of_jsonValue h, resolve_of_jsonValue h]

/-- A value as it is read back from a file. -/
def JsonDoc.reread (doc : JsonDoc F) : JsonDoc F :=
  ⟨readBack doc.val, (jsonValue_readBack doc.val).keyed⟩

/-- It is as it was when none of its texts has two surrogates next to each other. -/
theorem JsonDoc.reread_eq_iff (doc : JsonDoc F) : doc.reread = doc ↔ Unsplit doc.val := by
  rw [← doc.property.jsonValue_iff]
  constructor
  · intro h
    rw [← h]
    exact jsonValue_readBack doc.val
  · intro h
    exact Subtype.ext (readBack_jsonValue h)

/-- An entry as it is read back from the state file: two surrogates next to each other
have become one character. -/
def Approval.reread (e : Approval F) : Approval F :=
  { e with
    payload := e.payload.reread
    result := e.result.map readDict
    requestedBy := joinSurrogates e.requestedBy
    role := e.role.map joinSurrogates
    controller := joinSurrogates e.controller
    processed := e.processed.map fun p => (joinSurrogates p.1, p.2.map joinSurrogates) }

omit [PyRuntime F] in
theorem getDoc_of_get? {d : Dict F} (hd : JsonValue (.dict d)) {key : Str} {v : PyVal F}
    (h : Dict.get? key d = some v) : getDoc hd key = some ⟨v, (hd.get? h).keyed⟩ := by
  unfold getDoc
  split
  · next w hw =>
    rw [hw] at h
    cases h
    rfl
  · next hnone =>
    rw [hnone] at h
    cases h

theorem readBack_str (s : Str) : readBack (.str s : PyVal F) = .str (joinSurrogates s) := by
  rw [readBack, stringify, resolve]
  all_goals simp

theorem readBack_none : readBack (.none : PyVal F) = .none := by
  rw [readBack, stringify, resolve]
  all_goals simp

theorem readBack_optStr (s : Option Str) :
    readBack (optStr s : PyVal F) = optStr (s.map joinSurrogates) := by
  cases s with
  | none => exact readBack_none
  | some s => exact readBack_str s

omit [PyRuntime F] in
theorem strKeys_toJson (e : Approval F) : StrKeys e.toJson := by
  unfold Approval.toJson StrKeys
  rcases e.processed with _ | ⟨approver, approverRole⟩ <;> simp

omit [PyRuntime F] in
theorem keys_toJson_nodup (e : Approval F) : (Dict.keys e.toJson).Nodup := by
  have hnames : [py "id", py "payload", py "status", py "result", py "requested_by", py "role",
      py "controller", py "approved_by", py "approver_role"].Nodup := by decide
  unfold Approval.toJson
  rcases e.processed with _ | ⟨approver, approverRole⟩
  · exact nodup_map_str (hnames.sublist (List.take_sublist 7 _))
  · exact nodup_map_str hnames

theorem get?_readDict_toJson (e : Approval F) {key : Str} (hkey : Printable key) :
    Dict.get? key (readDict e.toJson) = (Dict.get? key e.toJson).map readBack :=
  get?_readDict (strKeys_toJson e) (keys_toJson_nodup e) hkey

theorem resultOf_readBack (result : Option (Dict F)) :
    resultOf (readBack (match result with
      | some result => .dict result
      | none => .none : PyVal F)) = some (result.map readDict) := by
  cases result with
  | none => rw [readBack_none]; rfl
  | some result => rw [readBack_dict]; rfl

/-- What is read from a saved entry, by key. -/
theorem bind_readDict_toJson {α : Type} {e : Approval F} {key : Str} (hkey : Printable key)
    {v : PyVal F} (hv : Dict.get? key e.toJson = some v) {f : PyVal F → Option α} {x : α}
    (hx : f (readBack v) = some x) : (Dict.get? key (readDict e.toJson)).bind f = some x := by
  rw [get?_readDict_toJson e hkey, hv, Option.map_some, Option.bind_some, hx]

/-- A saved entry is read back. -/
theorem ofJson_readDict (e : Approval F) :
    Approval.ofJson (jsonValue_readDict e.toJson) = some e.reread := by
  -- field by field: what is read back is what was written, with its pairs joined
  have hpayload : Dict.get? (py "payload") (readDict e.toJson) = some e.payload.reread.val := by
    rw [get?_readDict_toJson e (by decide),
      show Dict.get? (py "payload") e.toJson = some e.payload.val from rfl, Option.map_some]
    rfl
  have hid : (Dict.get? (py "id") (readDict e.toJson)).bind uuidOf = some e.id := by
    refine bind_readDict_toJson (by decide) rfl ?_
    rw [readBack_str, e.id.property.noHigh.join]
    exact dif_pos e.id.property
  have hstatus : (Dict.get? (py "status") (readDict e.toJson)).bind statusOf = some e.status := by
    refine bind_readDict_toJson (by decide) rfl ?_
    rw [readBack_str]
    cases e.status <;> rfl
  have hresult : (Dict.get? (py "result") (readDict e.toJson)).bind resultOf =
      some (e.result.map readDict) :=
    bind_readDict_toJson (by decide) rfl (resultOf_readBack e.result)
  have hstr : ∀ s : Str, strOf (readBack (.str s) : PyVal F) = some (joinSurrogates s) := by
    intro s
    rw [readBack_str]
    rfl
  have hoptStr : ∀ s : Option Str,
      optStrOf (readBack (optStr s) : PyVal F) = some (s.map joinSurrogates) := by
    intro s
    rw [readBack_optStr]
    cases s <;> rfl
  have hrequestedBy : (Dict.get? (py "requested_by") (readDict e.toJson)).bind strOf =
      some (joinSurrogates e.requestedBy) := bind_readDict_toJson (by decide) rfl (hstr _)
  have hrole : (Dict.get? (py "role") (readDict e.toJson)).bind optStrOf =
      some (e.role.map joinSurrogates) := bind_readDict_toJson (by decide) rfl (hoptStr _)
  have hcontroller : (Dict.get? (py "controller") (readDict e.toJson)).bind strOf =
      some (joinSurrogates e.controller) := bind_readDict_toJson (by decide) rfl (hstr _)
  unfold Approval.ofJson
  rw [hid, getDoc_of_get? _ hpayload, hstatus, hresult, hrequestedBy, hrole, hcontroller,
    get?_readDict_toJson e (by decide), get?_readDict_toJson e (by decide)]
  -- the approver is written once the entry is processed
  rcases e with ⟨id, payload, status, result, requestedBy, role, controller, _ | ⟨approver, approverRole⟩⟩
  · rfl
  · have happrover : Dict.get? (py "approved_by") (Approval.toJson (F := F)
        ⟨id, payload, status, result, requestedBy, role, controller, some (approver, approverRole)⟩) =
        some (.str approver) := rfl
    have happroverRole : Dict.get? (py "approver_role") (Approval.toJson (F := F)
        ⟨id, payload, status, result, requestedBy, role, controller, some (approver, approverRole)⟩) =
        some (optStr approverRole) := rfl
    rw [happrover, happroverRole, Option.map_some, Option.map_some, Option.bind_some,
      Option.bind_some, hstr, hoptStr]
    rfl

theorem entriesOf_readDict (queue : List (Approval F))
    (h : ∀ x ∈ queue.map (fun e => PyVal.dict (readDict e.toJson)), JsonValue x) :
    entriesOf (queue.map fun e => PyVal.dict (readDict e.toJson)) h =
      queue.map Approval.reread := by
  induction queue with
  | nil => rfl
  | cons e queue ih =>
    have hrest := ih fun x hx => h x (List.mem_cons_of_mem _ hx)
    show (Approval.ofJson _).toList ++ entriesOf _ _ = _
    rw [ofJson_readDict, hrest]
    rfl

/-- What was saved is loaded, each entry as it is read back. -/
theorem loadApprovalQueue_queueText (queue : List (Approval F)) :
    loadApprovalQueue (some (queueText queue)) = queue.map Approval.reread := by
  have hload : (loads (queueText queue) : Option (PyVal F)) =
      some (.list (queue.map fun e => PyVal.dict (readDict e.toJson))) := by
    rw [queueText, loads_print_eq, readBack_list, List.map_map]
    congr 3
    funext e
    exact readBack_dict e.toJson
  simp only [loadApprovalQueue]
  split
  · next xs hxs =>
    rw [hload] at hxs
    cases hxs
    exact entriesOf_readDict queue _
  · next hnone => exact absurd hload (hnone _)

theorem pendingIds_reread (queue : List (Approval F)) :
    pendingIds (queue.map Approval.reread) = pendingIds queue := by
  unfold pendingIds
  rw [List.filter_map, List.map_map]
  rfl

theorem map_id_reread (queue : List (Approval F)) :
    (queue.map Approval.reread).map Approval.id = queue.map Approval.id := by
  rw [List.map_map]
  rfl

/-- What was read back once is read back as it is. -/
theorem reread_reread (e : Approval F) : e.reread.reread = e.reread := by
  unfold Approval.reread
  rcases e with ⟨id, payload, status, result, requestedBy, role, controller, processed⟩
  simp only [joinSurrogates_idem, Option.map_map, Approval.mk.injEq, true_and]
  refine ⟨Subtype.ext (readBack_jsonValue (jsonValue_readBack _)), ?_, ?_, ?_⟩
  · cases result with
    | none => rfl
    | some result => exact congrArg some (readDict_of_jsonValue (jsonValue_readDict result))
  · cases role with
    | none => rfl
    | some role => exact congrArg some (joinSurrogates_idem role)
  · rcases processed with _ | ⟨key, _ | role⟩
    · rfl
    · simp [joinSurrogates_idem]
    · simp [joinSurrogates_idem]

end AutoHeal.Server
