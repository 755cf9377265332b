import AutoHeal.Server.Queue
import AutoHeal.Server.Response

/-!
# Reading the log and the queue

`GET /audit` goes through the lines of the log, the newest first, and collects the entries
its query matches until there are as many as the limit says (`selectEntries_eq`). They are shown
when they are objects a response can be made of (`pageItems`).
`GET /approvals` lists the queue without the results.
-/

namespace AutoHeal.Server

open Audit

variable {F : Type}

/-! ## The query -/

/-- `AuditQueryParams`, with `stop` for `end`. -/
structure AuditQueryParams where
  start : Option Str
  stop : Option Str
  action : Option Str
  user : Option Str
  role : Option Str
  controller : Option Str
  limit : Int

/-- A query that asks for nothing in particular. -/
def AuditQueryParams.all : AuditQueryParams := ⟨none, none, none, none, none, none, 100⟩

/-- `bool(text)`, for a text or `None`. -/
def given (text : Option Str) : Bool := text.any (· ≠ [])

/-- `entry.get(name)`. Only a dict has a `get`. -/
def getField (entry : PyVal F) (name : Str) : Py (PyVal F) :=
  match entry with
  | .dict d => .ok (field name d)
  | _ => .error .attributeError

/-- A text is not before `start` and not after `stop`, each of which may be empty. -/
def textWithin (start stop : Option Str) (ts : Str) : Bool :=
  (start.all fun s => s = [] ∨ ¬ ts < s) && stop.all fun s => s = [] ∨ ¬ s < ts

variable [PyRuntime F]

/-- The date filtering. An entry without a timestamp passes, and one whose timestamp is no
text cannot be compared. -/
def inPeriod (entry : PyVal F) (start stop : Option Str) : Py Bool :=
  if given start || given stop then do
    let ts ← getField entry (py "timestamp")
    if truthy ts then
      match ts with
      | .str ts => .ok (textWithin start stop ts)
      | _ => .error .typeError
    else .ok true
  else .ok true

/-- A field is what the query asks for, if it asks. -/
def fieldMatches (entry : PyVal F) (name : Str) (wanted : Option Str) : Py Bool :=
  match wanted.filter (· ≠ []) with
  | some wanted => (getField entry name).map fun v => scalarEq v (.str wanted)
  | none => .ok true

/-- Checks in their order, up to the first that fails. -/
def allPass : List (Py Bool) → Py Bool
  | [] => .ok true
  | check :: checks => check.bind fun passed => if passed then allPass checks else .ok false

/-- `filter_audit_entry`. -/
def filterAuditEntry (entry : PyVal F) (params : AuditQueryParams) : Py Bool :=
  allPass [inPeriod entry params.start params.stop, fieldMatches entry (py "action") params.action,
    fieldMatches entry (py "user") params.user, fieldMatches entry (py "role") params.role,
    fieldMatches entry (py "controller") params.controller]

/-- The entry in a line, if the query matches it, the limits of `json` aside. A line that is no
JSON, or that the filter raises on, is passed over. -/
def matchingEntry (params : AuditQueryParams) (line : Str) : Option (PyVal F) :=
  match (loads line : Option (PyVal F)) with
  | none => none
  | some entry =>
    match filterAuditEntry entry params with
    | .ok true => some entry
    | _ => none

/-- The entry in a line that is collected. A line in which `json` meets a limit is passed over
like one that is no JSON. -/
def collectedEntry (params : AuditQueryParams) (line : Str) : Option (PyVal F) :=
  match (jsonLoads line : Py (PyVal F)) with
  | .error _ => none
  | .ok entry =>
    match filterAuditEntry entry params with
    | .ok true => some entry
    | _ => none

theorem collectedEntry_of_limitMet {line : Str} (h : limitMet F line = none)
    (params : AuditQueryParams) :
    (collectedEntry params line : Option (PyVal F)) = matchingEntry params line := by
  unfold collectedEntry matchingEntry
  rw [jsonLoads_of_limitMet h]
  cases (loads line : Option (PyVal F)) with
  | none => rfl
  | some entry => rfl

/-! ## The endpoints -/

/-- The loop of `get_audit`, with the entries found so far. -/
def selectEntries (params : AuditQueryParams) (found : List (PyVal F)) :
    List Str → List (PyVal F)
  | [] => found
  | line :: lines =>
    match collectedEntry params line with
    | none => selectEntries params found lines
    | some entry =>
      let found := found ++ [entry]
      if params.limit ≤ found.length then found else selectEntries params found lines

/-- What a request that reads is answered: a refusal, or items. -/
inductive Page (F : Type) where
  | refused (response : Response F)
  | items (items : List (PyVal F))

/-- A value is an object. -/
def isDict : PyVal F → Bool
  | .dict _ => true
  | _ => false

/-- The items of a response, with `response_model=List[dict]`. -/
def pageItems (items : List (PyVal F)) : Py (List (PyVal F)) :=
  if items.all isDict && answerable (.list items) then .ok items else .error .valueError

/-- `get_audit`. -/
def getAudit (site : Site F) (reads : VaultReads) (log : Audit.Dir) (apiKey : Str)
    (params : AuditQueryParams) : Py (Page F) :=
  let role := getRoleFromApiKey (resolveApiKeys site.auth reads.role) apiKey
  if !hasPermission site.auth role (py "audit_read") then .ok (.refused (.error 403 (py "Forbidden")))
  else
    match log.lookup site.chain.base with
    | none => .ok (.items [])
    | some file =>
      match decodeUtf8 file with
      | none => .error .unicodeDecodeError
      | some text => (pageItems (selectEntries params [] (textLines text).reverse)).map .items

omit [PyRuntime F] in
/-- `{k: v for k, v in entry.items() if k != "result"}`. -/
def Approval.listed (e : Approval F) : PyVal F := .dict (Dict.erase (py "result") e.toJson)

omit [PyRuntime F] in
/-- `list_approvals`. -/
def listApprovals (site : Site F) (reads : VaultReads) (queue : List (Approval F)) (apiKey : Str) :
    Page F :=
  let role := getRoleFromApiKey (resolveApiKeys site.auth reads.role) apiKey
  if !hasPermission site.auth role (py "approvals_read") then
    .refused (.error 403 (py "Forbidden"))
  else .items (queue.map Approval.listed)

/-! ## What is selected -/

/-- How many entries a query may still find, `n` being found: one even if the limit is
reached, as it is looked at after an entry was appended only. -/
def AuditQueryParams.room (params : AuditQueryParams) (n : Nat) : Nat :=
  max 1 (params.limit - n).toNat

/-- The loop goes on to the first entries that match, as many as there is room for. -/
theorem selectEntries_eq (params : AuditQueryParams) (found : List (PyVal F)) (lines : List Str) :
    selectEntries params found lines =
      found ++ (lines.filterMap (collectedEntry params)).take (params.room found.length) := by
  induction lines generalizing found with
  | nil => simp [selectEntries]
  | cons line lines ih =>
    unfold selectEntries
    cases hmatch : (collectedEntry params line : Option (PyVal F)) with
    | none =>
      rw [List.filterMap_cons_none hmatch]
      exact ih found
    | some entry =>
      rw [List.filterMap_cons_some hmatch]
      have hlength : (found ++ [entry]).length = found.length + 1 := by simp
      by_cases hlimit : params.limit ≤ (found ++ [entry]).length
      · have hroom : params.room found.length = 1 := by
          unfold AuditQueryParams.room
          omega
        simp only [if_pos hlimit, hroom, List.take_succ_cons, List.take_zero]
      · have hroom : params.room found.length = params.room (found ++ [entry]).length + 1 := by
          unfold AuditQueryParams.room
          omega
        simp only [if_neg hlimit, hroom, List.take_succ_cons]
        rw [ih (found ++ [entry]), List.append_assoc, List.singleton_append]

/-- The entries of the log that a query selects, the newest first. -/
def selected (params : AuditQueryParams) (text : Str) : List (PyVal F) :=
  ((textLines text).reverse.filterMap (collectedEntry params)).take (params.room 0)

/-- `/audit` refuses what it does not permit, and nothing else. -/
theorem getAudit_eq_refused {site : Site F} {reads : VaultReads} {log : Audit.Dir} {apiKey : Str}
    {params : AuditQueryParams} {response : Response F}
    (h : getAudit site reads log apiKey params = .ok (.refused response)) :
    response = .error 403 (py "Forbidden") := by
  unfold getAudit at h
  simp only at h
  split_ifs at h
  · cases h
    rfl
  · cases hfile : log.lookup site.chain.base with
    | none =>
      rw [hfile] at h
      cases h
    | some file =>
      cases htext : decodeUtf8 file with
      | none => simp [hfile, htext] at h
      | some text =>
        simp only [hfile, htext, pageItems] at h
        split_ifs at h <;> cases h

/-- What `/audit` shows is selected from the log. -/
theorem getAudit_eq_items {site : Site F} {reads : VaultReads} {log : Audit.Dir} {apiKey : Str}
    {params : AuditQueryParams} {items : List (PyVal F)} :
    getAudit site reads log apiKey params = .ok (.items items) ↔
      hasPermission site.auth (getRoleFromApiKey (resolveApiKeys site.auth reads.role) apiKey)
          (py "audit_read") = true ∧
        (log.lookup site.chain.base = none ∧ items = [] ∨
          ∃ file text, log.lookup site.chain.base = some file ∧ decodeUtf8 file = some text ∧
            pageItems (selected params text) = .ok items) := by
  unfold getAudit
  simp only
  generalize hasPermission site.auth (getRoleFromApiKey (resolveApiKeys site.auth reads.role) apiKey)
    (py "audit_read") = permitted
  cases permitted with
  | false =>
    refine iff_of_false ?_ ?_
    · rintro ⟨⟩
    · rintro ⟨⟨⟩, -⟩
  | true =>
    simp only [Bool.not_true, Bool.false_eq_true, if_false, true_and]
    cases hfile : log.lookup site.chain.base with
    | none =>
      constructor
      · rintro ⟨⟩
        exact Or.inl ⟨rfl, rfl⟩
      · rintro (⟨-, rfl⟩ | ⟨file, text, ⟨⟩, -⟩)
        rfl
    | some file =>
      -- a log that is no UTF-8 raises, and shows nothing
      cases htext : decodeUtf8 file with
      | none =>
        refine iff_of_false (by simp [htext]) ?_
        rintro (⟨⟨⟩, -⟩ | ⟨file', text, ⟨⟩, htext', -⟩)
        rw [htext] at htext'
        cases htext'
      | some text =>
        have hselected : selectEntries params [] (textLines text).reverse =
            (selected params text : List (PyVal F)) := by
          rw [selectEntries_eq]
          rfl
        simp only [htext, hselected]
        constructor
        · intro h
          cases hitems : pageItems (selected params text : List (PyVal F)) with
          | error e =>
            rw [hitems] at h
            cases h
          | ok shown =>
            rw [hitems] at h
            cases h
            exact Or.inr ⟨file, text, rfl, htext, hitems⟩
        · rintro (⟨⟨⟩, -⟩ | ⟨file', text', ⟨⟩, htext', hitems⟩)
          rw [htext] at htext'
          cases htext'
          rw [hitems]
          rfl

omit [PyRuntime F] in
/-- Whoever may read the approvals is shown the key of every requester. -/
theorem requestedBy_mem_listed (e : Approval F) : ∃ fields, e.listed = .dict fields ∧
    Dict.get? (py "requested_by") fields = some (.str e.requestedBy) :=
  ⟨_, rfl, rfl⟩

end AutoHeal.Server
