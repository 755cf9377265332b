import AutoHeal.Lib.Transition
import AutoHeal.Server.Startup

/-!
# What the state files may hold

`Fit` says which values the operations of a server can do with: a number for each cooldown, and for
each approval an object with the fields that are read of it. Every operation keeps what was loaded
fit, so none raises because of it (`loaded_harmless`). Bytes that are no UTF-8 stop the server from
starting, and other values raise once they are met (`loaded_raises`).
-/

namespace AutoHeal.Server

open Audit Transition

variable {F : Type}

namespace RawServer

/-! ## What is fit -/

section Fit

variable [FloatValues F]

/-- A time that can be compared with others and subtracted from them. What never passes is under no
key of a cooldown. -/
structure FitStamp (key : Str) (v : PyVal F) : Prop where
  number : IsNumber v
  small : ∀ n, v.num = some (.inl n) → beyondFloat n = false
  passes : ∀ x, v.num = some (.inr x) → FloatValues.value x = .posInf →
    ∀ eventType controllerName dedupValue, makeKey eventType controllerName dedupValue ≠ key

/-- The value can be the key of a dict. -/
def hashable : PyVal F → Bool
  | .list _ | .dict _ => false
  | _ => true

variable [PyRuntime F] [PydanticTypes F] (sites : Site F → Prop)

/-- A pending entry that can be approved and rejected, under any of the configurations. -/
structure Actionable (d : Dict F) : Prop where
  requestedBy : ∃ v, Dict.get? (py "requested_by") d = some v
  role : ∃ v, Dict.get? (py "role") d = some v ∧ hashable v = true
  known : ∀ name requestedBy, Dict.get? (py "role") d = some (.str name) →
    Dict.get? (py "requested_by") d = some requestedBy → hashable requestedBy = true
  payload : ∃ raw payload, Dict.get? (py "payload") d = some raw ∧ webhookPayload raw = some payload ∧
    ∀ site, sites site → ∃ action controller, getActionConfig site payload.eventType = some action ∧
      getControllerConfig site (resolveController payload.controllerOverride action) = some controller
  controller : ∃ v, Dict.get? (py "controller") d = some v

/-- An entry of the queue. Only one with a string for an id is ever looked up. -/
structure FitEntry (d : Dict F) : Prop where
  id : ∃ v, Dict.get? (py "id") d = some v
  status : ∃ v, Dict.get? (py "status") d = some v
  listed : rendered (.dict (Dict.erase (py "result") d)) = true
  processed : ∀ id status, Dict.get? (py "id") d = some (.str id) →
    Dict.get? (py "status") d = some status → status ≠ .str (py "pending") →
    encodes (pyStr status) = true
  pending : ∀ id, Dict.get? (py "id") d = some (.str id) →
    Dict.get? (py "status") d = some (.str (py "pending")) → Actionable sites d

/-- Both state files are absent or text, and what they hold of the expected type is fit. -/
structure Fit (cooldowns approvals : Option Bytes) : Prop where
  cooldowns_text : ∀ bytes ∈ cooldowns, ∃ text, decodeUtf8 bytes = some text
  approvals_text : ∀ bytes ∈ approvals, ∃ text, decodeUtf8 bytes = some text
  times : ∀ items : Dict F, jsonLoad cooldowns = .ok (some (.dict items)) →
    ∀ kv ∈ items, FitStamp (keyText kv.1) kv.2
  entries : ∀ entries : List (PyVal F), jsonLoad approvals = .ok (some (.list entries)) →
    ∀ v ∈ entries, ∃ d, v = .dict d ∧ FitEntry sites d

end Fit

/-! ## The fields of an entry -/

section Fields

variable [PyRuntime F] [PydanticTypes F] {sites : Site F → Prop} {d : Dict F}
  {field : Str × PyVal F}

/-- A field that a handler sets. -/
def Handled (field : Str × PyVal F) : Prop :=
  field.1 = py "result" ∨
    (field.1 = py "status" ∧ (field.2 = .str (py "approved") ∨ field.2 = .str (py "rejected"))) ∨
    ((field.1 = py "approved_by" ∨ field.1 = py "approver_role") ∧ rendered field.2 = true)

omit [PydanticTypes F] in
/-- What a handler sets is one of four fields. -/
theorem Handled.name (h : Handled field) :
    field.1 ∈ [py "result", py "status", py "approved_by", py "approver_role"] := by
  rcases h with h | ⟨h, -⟩ | ⟨h | h, -⟩ <;> rw [h] <;> decide

omit [PydanticTypes F] in
/-- The other fields stay. -/
theorem Handled.get?_set (h : Handled field) {key : Str}
    (hkey : key ∉ [py "result", py "status", py "approved_by", py "approver_role"]) :
    Dict.get? key (Dict.set field.1 field.2 d) = Dict.get? key d := by
  rw [Dict.get?_set, if_neg]
  rintro rfl
  exact hkey h.name

omit [PydanticTypes F] in
theorem Handled.get?_status (h : Handled field) :
    Dict.get? (py "status") (Dict.set field.1 field.2 d) = Dict.get? (py "status") d ∨
      Dict.get? (py "status") (Dict.set field.1 field.2 d) = some (.str (py "approved")) ∨
      Dict.get? (py "status") (Dict.set field.1 field.2 d) = some (.str (py "rejected")) := by
  rw [Dict.get?_set]
  rcases h with h | ⟨h, hv | hv⟩ | ⟨h | h, -⟩
  · rw [h]
    exact Or.inl (if_neg (by decide))
  · rw [h, if_pos rfl, hv]
    exact Or.inr (Or.inl rfl)
  · rw [h, if_pos rfl, hv]
    exact Or.inr (Or.inr rfl)
  · rw [h]
    exact Or.inl (if_neg (by decide))
  · rw [h]
    exact Or.inl (if_neg (by decide))

theorem Actionable.set (h : Actionable sites d) (hfield : Handled field) :
    Actionable sites (Dict.set field.1 field.2 d) := by
  have hsame : ∀ key ∈ [py "requested_by", py "role", py "payload", py "controller"],
      Dict.get? key (Dict.set field.1 field.2 d) = Dict.get? key d := by
    intro key hkey
    apply hfield.get?_set
    revert key
    decide
  have hrequestedBy := hsame (py "requested_by") (by simp)
  have hrole := hsame (py "role") (by simp)
  have hpayload := hsame (py "payload") (by simp)
  have hcontroller := hsame (py "controller") (by simp)
  constructor
  · rw [hrequestedBy]
    exact h.requestedBy
  · rw [hrole]
    exact h.role
  · rw [hrole, hrequestedBy]
    exact h.known
  · rw [hpayload]
    exact h.payload
  · rw [hcontroller]
    exact h.controller

omit [PydanticTypes F] in
/-- What is shown of an entry can still be written out, since a result is not shown. -/
theorem Handled.rendered_set (hfield : Handled field)
    (h : rendered (.dict (Dict.erase (py "result") d)) = true) :
    rendered (.dict (Dict.erase (py "result") (Dict.set field.1 field.2 d))) = true := by
  rw [rendered_dict]
  intro kv hkv
  rcases List.mem_filter.mp hkv with ⟨hmem, hresult⟩
  rcases Dict.mem_set hmem with hold | rfl
  · exact rendered_dict.mp h kv (List.mem_filter.mpr ⟨hold, hresult⟩)
  · have hname : encodes field.1 = true := by
      have hnames := hfield.name
      revert hnames
      generalize field.1 = name
      revert name
      decide
    refine ⟨hname, ?_⟩
    rcases hfield with hname | ⟨-, hv | hv⟩ | ⟨-, hv⟩
    · simp [Key.isStr, hname] at hresult
    · rw [hv]
      exact (by decide : encodes (py "approved") = true)
    · rw [hv]
      exact (by decide : encodes (py "rejected") = true)
    · exact hv

/-- A handler leaves a fit entry fit. -/
theorem FitEntry.set (h : FitEntry sites d) (hfield : Handled field) :
    FitEntry sites (Dict.set field.1 field.2 d) := by
  have hid : Dict.get? (py "id") (Dict.set field.1 field.2 d) = Dict.get? (py "id") d :=
    hfield.get?_set (by decide)
  constructor
  · rw [hid]
    exact h.id
  · rcases hfield.get?_status (d := d) with hstatus | hstatus | hstatus
    · rw [hstatus]
      exact h.status
    · exact ⟨_, hstatus⟩
    · exact ⟨_, hstatus⟩
  · exact hfield.rendered_set h.listed
  · intro id status hget hstatus hpending
    rw [hid] at hget
    rcases hfield.get?_status (d := d) with hsame | hnew | hnew
    · rw [hsame] at hstatus
      exact h.processed id status hget hstatus hpending
    · rw [hnew] at hstatus
      cases hstatus
      exact (by decide : encodes (py "approved") = true)
    · rw [hnew] at hstatus
      cases hstatus
      exact (by decide : encodes (py "rejected") = true)
  -- a status that was set is no longer `pending`
  · intro id hget hstatus
    rw [hid] at hget
    rcases hfield.get?_status (d := d) with hsame | hnew | hnew
    · rw [hsame] at hstatus
      exact (h.pending id hget hstatus).set hfield
    · rw [hnew] at hstatus
      cases hstatus
    · rw [hnew] at hstatus
      cases hstatus

omit [PydanticTypes F] in
/-- What holds of a dict, and of it with a handled field set, holds once fields are set. -/
theorem updateDict_induction {P : Dict F → Prop} {fields : List (Str × PyVal F)}
    (hfields : ∀ field ∈ fields, Handled field) (h : P d)
    (hset : ∀ d field, Handled field → P d → P (Dict.set field.1 field.2 d)) :
    P (updateDict d fields) := by
  induction fields generalizing d with
  | nil => exact h
  | cons field fields ih =>
    exact ih (fun f hf => hfields f (List.mem_cons_of_mem _ hf))
      (hset d field (hfields field List.mem_cons_self) h)

end Fields

/-! ## The cooldowns -/

section Stamps

variable [FloatValues F] {items : List (Str × Stamp F)} {key : Str}

/-- Every time of the state file is fit. -/
def FitStamps (items : List (Str × Stamp F)) : Prop :=
  ∀ key v, (key, Stamp.loaded v) ∈ items → FitStamp key v

theorem FitStamps.sublist {kept : List (Str × Stamp F)} (h : FitStamps items)
    (hkept : kept.Sublist items) : FitStamps kept :=
  fun key v hmem => h key v (hkept.subset hmem)

theorem FitStamps.set (h : FitStamps items) (key : Str) (now : ℚ) :
    FitStamps (Items.set key (.recorded now) items) := by
  intro k v hmem
  induction items with
  | nil =>
    rw [Items.set, List.mem_singleton] at hmem
    cases hmem
  | cons kv items ih =>
    have hrest : FitStamps items := fun k v hmem => h k v (List.mem_cons_of_mem _ hmem)
    unfold Items.set at hmem
    split at hmem
    · rcases List.mem_cons.mp hmem with heq | hmem
      · cases heq
      · exact hrest k v hmem
    · rcases List.mem_cons.mp hmem with heq | hmem
      · exact h k v (heq ▸ List.mem_cons_self)
      · exact ih hrest hmem

theorem staleKeys_isOk (h : FitStamps items) (cutoff : ℚ) : ∃ keys, staleKeys cutoff items = .ok keys := by
  induction items with
  | nil => exact ⟨[], rfl⟩
  | cons kv items ih =>
    rcases kv with ⟨key, stamp⟩
    rcases ih (fun k v hmem => h k v (List.mem_cons_of_mem _ hmem)) with ⟨keys, hkeys⟩
    have hstamp : ∃ stale, before cutoff stamp = .ok stale := by
      cases stamp with
      | loaded v => exact lessTime_isOk_iff.mpr (h key v List.mem_cons_self).number
      | recorded time => exact ⟨_, rfl⟩
    rcases hstamp with ⟨stale, hstale⟩
    unfold staleKeys
    rw [hstale, hkeys]
    exact ⟨_, rfl⟩

/-- A record returns, and leaves fit what was. -/
theorem recordTime_spec (h : FitStamps items) (key : Str) (now nowPrune : ℚ) :
    ∃ kept, recordTime items key now nowPrune = (kept, .ok ()) ∧
      kept.Sublist (Items.set key (.recorded now) items) := by
  rcases staleKeys_isOk (h.set key now) (nowPrune - maxCooldownRetentionSeconds) with ⟨keys, hkeys⟩
  unfold recordTime
  simp only [hkeys]
  exact ⟨_, rfl, List.filter_sublist⟩

theorem restOf_spec {stamp : Stamp F} (h : ∀ v, stamp = .loaded v → FitStamp key v) (c now : ℚ) :
    ∃ rest, restOf c now stamp = .ok rest ∧
      (rest = some .forever → ∀ eventType controllerName dedupValue,
        makeKey eventType controllerName dedupValue ≠ key) := by
  have hpositive : ∀ q, ifPositive q ≠ some .forever := by
    intro q
    unfold ifPositive
    split <;> simp
  cases stamp with
  | recorded time => exact ⟨_, rfl, fun hrest => absurd hrest (hpositive _)⟩
  | loaded v =>
    have hfit := h v rfl
    have hnone : v ≠ .none := by
      rintro rfl
      exact hfit.number rfl
    unfold restOf
    split
    · next heq => cases heq
    · next heq =>
      cases heq
      exact absurd rfl hnone
    -- `None` apart, a value with a number is subtracted from the clock
    · next w _ heq =>
      cases heq
      rcases hnum : v.num with _ | n | x
      · exact absurd hnum hfit.number
      · simp only [hfit.small n hnum, Bool.false_eq_true, if_false]
        exact ⟨_, rfl, fun hrest => absurd hrest (hpositive _)⟩
      · refine ⟨_, rfl, fun hrest => ?_⟩
        cases hvalue : FloatValues.value x with
        | finite time =>
          rw [hvalue] at hrest
          exact absurd hrest (hpositive _)
        | posInf => exact hfit.passes x hnum hvalue
        | negInf | nan =>
          rw [hvalue] at hrest
          cases hrest

/-- What is left of a cooldown can be told, and passes if it is one of an action. -/
theorem remaining_spec (h : FitStamps items) (key : Str) (c now : ℚ) :
    ∃ rest, remaining items key c now = .ok rest ∧
      (rest = some .forever → ∀ eventType controllerName dedupValue,
        makeKey eventType controllerName dedupValue ≠ key) := by
  unfold remaining
  split
  · exact ⟨none, rfl, by simp⟩
  · cases hstamp : items.lookup key with
    | none => exact ⟨none, rfl, by simp⟩
    | some stamp =>
      refine restOf_spec (fun v hv => h key v ?_) c now
      rw [← hv]
      exact Items.mem_of_lookup hstamp

end Stamps

/-! ## The invariant -/

section Invariant

variable [PyRuntime F] [FloatValues F] [PydanticTypes F] (sites : Site F → Prop)

/-- An object of the queue has an id and a status, and is fit if it was loaded. -/
def FitItem (item : Item F) : Prop :=
  ∃ d, item.value = .dict d ∧ (∃ v, Dict.get? (py "id") d = some v) ∧
    (∃ v, Dict.get? (py "status") d = some v) ∧ (item.loaded = true → FitEntry sites d)

/-- What holds of the server whatever it has done with what was loaded. -/
structure Sound (s : RawServer F) : Prop where
  queue : ∀ item ∈ s.queue, FitItem sites item
  stamps : FitStamps s.lastRun
  keys : (s.lastRun.map Prod.fst).Nodup
  executing : ∀ execution ∈ s.executing, ∃ r, requester execution.item.value = .ok r

omit [PyRuntime F] [FloatValues F] [PydanticTypes F] in
theorem subscript_dict {key : Str} {d : Dict F} {v : PyVal F} (h : Dict.get? key d = some v) :
    subscript key (.dict d) = .ok v := by
  simp only [subscript, h]

variable {sites} {s : RawServer F} {queue : List (Item F)}

omit [FloatValues F] in
theorem FitItem.modify {item : Item F} (h : FitItem sites item) {fields : List (Str × PyVal F)}
    (hfields : ∀ field ∈ fields, Handled field) :
    FitItem sites { item with value := setFields fields item.value } := by
  rcases h with ⟨d, hvalue, hid, hstatus, hloaded⟩
  refine ⟨updateDict d fields, by rw [hvalue]; rfl, ?_, ?_, ?_⟩
  · refine updateDict_induction (P := fun d => ∃ v, Dict.get? (py "id") d = some v) hfields hid
      fun d field hfield hid => ?_
    rw [hfield.get?_set (by decide)]
    exact hid
  · refine updateDict_induction (P := fun d => ∃ v, Dict.get? (py "status") d = some v) hfields
      hstatus fun d field hfield hstatus => ?_
    rcases hfield.get?_status (d := d) with h | h | h
    · rw [h]
      exact hstatus
    · exact ⟨_, h⟩
    · exact ⟨_, h⟩
  · intro hitem
    exact updateDict_induction hfields (hloaded hitem) fun d field hfield hfit => hfit.set hfield

theorem Sound.modify (h : Sound sites s) (tag : Nat) {fields : List (Str × PyVal F)}
    (hfields : ∀ field ∈ fields, Handled field) : Sound sites (s.modify tag fields) := by
  refine ⟨?_, h.stamps, h.keys, h.executing⟩
  intro item hitem
  rcases List.mem_map.mp hitem with ⟨old, hold, rfl⟩
  split
  · exact (h.queue old hold).modify hfields
  · exact h.queue old hold

/-- The server without what was loaded. -/
def unloaded (s : RawServer F) : RawServer F :=
  { s with
    queue := s.queue.filter fun item => !item.loaded
    lastRun := s.lastRun.filter fun kv => kv.2.isRecorded
    executing := s.executing.filter fun execution => !execution.item.loaded }

theorem Sound.unloaded (h : Sound sites s) : Sound sites s.unloaded := by
  constructor
  · intro item hitem
    exact h.queue item (List.mem_of_mem_filter hitem)
  · exact h.stamps.sublist List.filter_sublist
  · exact Items.nodup_filter h.keys _
  · intro execution hexecution
    exact h.executing execution (List.mem_of_mem_filter hexecution)

/-! ## The queue -/

omit [FloatValues F] in
/-- Looking an entry up returns. Without what was loaded, the same is found if it was not. -/
theorem findEntry_spec (h : ∀ item ∈ queue, FitItem sites item) (id : Str) :
    ∃ found, findEntry id queue = .ok found ∧
      (∀ item ∈ found, item ∈ queue ∧ subscript (py "id") item.value = .ok (.str id)) ∧
      ((∀ item ∈ found, item.loaded = false) →
        findEntry id (queue.filter fun item => !item.loaded) = .ok found) := by
  induction queue with
  | nil => exact ⟨none, rfl, by simp, fun _ => rfl⟩
  | cons item queue ih =>
    rcases ih (fun i hi => h i (List.mem_cons_of_mem _ hi)) with ⟨found, hfind, hfound, hown⟩
    rcases h item List.mem_cons_self with ⟨d, hvalue, ⟨v, hid⟩, -, -⟩
    have hread : subscript (py "id") item.value = .ok v := by
      rw [hvalue]
      exact subscript_dict hid
    -- the first entry with the id is found; before it, a loaded one may be left out
    by_cases hsame : scalarEq v (.str id) = true
    · refine ⟨some item, ?_, ?_, ?_⟩
      · unfold findEntry
        rw [hread, Py.ok_bind, if_pos hsame]
        rfl
      · rintro i ⟨⟩
        refine ⟨List.mem_cons_self, ?_⟩
        rw [hread, scalarEq_str_iff.mp hsame]
      · intro hloaded
        rw [List.filter_cons, if_pos (by simp [hloaded item rfl])]
        unfold findEntry
        rw [hread, Py.ok_bind, if_pos hsame]
        rfl
    · refine ⟨found, ?_, ?_, ?_⟩
      · unfold findEntry
        rw [hread, Py.ok_bind, if_neg hsame]
        exact hfind
      · intro i hi
        exact ⟨List.mem_cons_of_mem _ (hfound i hi).1, (hfound i hi).2⟩
      · intro hloaded
        rw [List.filter_cons]
        split
        · unfold findEntry
          rw [hread, Py.ok_bind, if_neg hsame]
          exact hown hloaded
        · exact hown hloaded

omit [FloatValues F] in
theorem processedPositions_isOk {positions : List (Item F × Nat)}
    (h : ∀ p ∈ positions, FitItem sites p.1) :
    ∃ processed, processedPositions positions = .ok processed := by
  induction positions with
  | nil => exact ⟨[], rfl⟩
  | cons p positions ih =>
    rcases p with ⟨item, i⟩
    rcases ih (fun p hp => h p (List.mem_cons_of_mem _ hp)) with ⟨processed, hprocessed⟩
    rcases h (item, i) List.mem_cons_self with ⟨d, hvalue, -, ⟨v, hstatus⟩, -⟩
    unfold processedPositions
    rw [hvalue, subscript_dict hstatus, Py.ok_bind, hprocessed]
    exact ⟨_, rfl⟩

omit [FloatValues F] in
theorem pruneQueue_spec (h : ∀ item ∈ queue, FitItem sites item) :
    ∃ kept, pruneQueue queue = .ok kept ∧ kept.Sublist queue := by
  have hpositions : ∀ p ∈ queue.zipIdx, FitItem sites p.1 :=
    fun p hp => h p.1 (List.fst_mem_of_mem_zipIdx hp)
  rcases processedPositions_isOk hpositions with ⟨processed, hprocessed⟩
  unfold pruneQueue
  rw [hprocessed]
  refine ⟨_, rfl, ?_⟩
  have hsub := List.filter_sublist (p := fun p : Item F × Nat =>
    !(processed.take (processed.length - maxProcessedApprovals)).contains p.2) (l := queue.zipIdx)
  have hmap := hsub.map Prod.fst
  rwa [List.zipIdx_map_fst] at hmap

/-- A save returns, and leaves a sound server. -/
theorem saveThen_spec (h : Sound sites s) : ∃ queue, Sound sites { s with queue } ∧
    ∀ next : RawServer F → RawServer F × Py (Answer F), s.saveThen next = next { s with queue } := by
  rcases pruneQueue_spec h.queue with ⟨kept, hkept, hsub⟩
  refine ⟨kept, ⟨?_, h.stamps, h.keys, h.executing⟩, ?_⟩
  · intro item hitem
    exact h.queue item (hsub.subset hitem)
  · intro next
    unfold saveThen
    rw [hkept]

end Invariant

/-! ## What is loaded does not raise -/

/-- An exception. -/
def Raises {α : Type} (r : Py α) : Prop := ∃ e, r = .error e

section Handlers

variable [PyRuntime F] [FloatValues F] [PydanticTypes F] {sites : Site F → Prop} {s : RawServer F}
  {d : Dict F} {item : Item F} {site : Site F} {reads : VaultReads} {caller : Caller F} {now : ℚ}

theorem remaining_unloaded (h : Sound sites s) {key : Str} {c : ℚ}
    (hfree : remaining s.lastRun key c now = .ok none) :
    remaining s.unloaded.lastRun key c now = .ok none := by
  unfold remaining at hfree ⊢
  split
  · rfl
  · next hc =>
    rw [if_neg hc] at hfree
    have hlookup : s.unloaded.lastRun.lookup key = (s.lastRun.lookup key).filter Stamp.isRecorded :=
      Items.lookup_filter h.keys Stamp.isRecorded key
    rw [hlookup]
    cases hstamp : s.lastRun.lookup key with
    | none => rfl
    | some stamp =>
      rw [hstamp] at hfree
      cases stamp with
      | loaded v => rfl
      | recorded time => exact hfree

/-- What is found is the same without what was loaded, or it is a refusal, or it can be approved
and rejected. -/
theorem lookupPending_cases (h : Sound sites s) (apiKey approvalId act : Str) :
    lookupPending s.unloaded.queue apiKey approvalId act =
        lookupPending s.queue apiKey approvalId act ∨
      (∃ response, lookupPending s.queue apiKey approvalId act = .ok (.refused response)) ∨
      ∃ item d, lookupPending s.queue apiKey approvalId act = .ok (.pending item) ∧
        item.value = .dict d ∧ Actionable sites d := by
  rcases findEntry_spec h.queue approvalId with ⟨found, hfind, hfound, hown⟩
  have hsame : (∀ item ∈ found, item.loaded = false) →
      lookupPending s.unloaded.queue apiKey approvalId act =
        lookupPending s.queue apiKey approvalId act := by
    intro hloaded
    have hfind' : findEntry approvalId s.unloaded.queue = .ok found := hown hloaded
    unfold lookupPending
    rw [hfind, hfind']
  cases found with
  | none => exact Or.inl (hsame (by simp))
  | some item =>
    cases hloaded : item.loaded with
    | false =>
      refine Or.inl (hsame ?_)
      rintro i ⟨⟩
      exact hloaded
    | true =>
      right
      rcases hfound item rfl with ⟨hmem, hid⟩
      rcases h.queue item hmem with ⟨d, hvalue, ⟨v, hget⟩, ⟨status, hstatus⟩, hfit⟩
      have hv : v = .str approvalId := by
        rw [hvalue, subscript_dict hget] at hid
        exact Except.ok.inj hid
      subst hv
      unfold lookupPending
      rw [hfind]
      simp only [Py.ok_bind, hvalue, subscript_dict hstatus]
      by_cases hpending : scalarEq status (.str (py "pending")) = true
      · -- it is pending, so its requester can be read
        have hactionable := (hfit hloaded).pending approvalId hget
          (by rw [hstatus, scalarEq_str_iff.mp hpending])
        rcases hactionable.requestedBy with ⟨requestedBy, hrequestedBy⟩
        simp only [hpending, Bool.not_true, Bool.false_eq_true, if_false, subscript_dict hrequestedBy,
          Py.ok_bind]
        split
        · exact Or.inl ⟨_, rfl⟩
        · exact Or.inr ⟨item, d, rfl, hvalue, hactionable⟩
      · -- it is not, and the response says what it is
        have hne : status ≠ .str (py "pending") := fun heq => hpending (scalarEq_str_iff.mpr heq)
        have hencodes := (hfit hloaded).processed approvalId status hget hstatus hne
        simp only [hpending, Bool.not_false, if_true, hencodes]
        exact Or.inl ⟨_, rfl⟩

omit [PyRuntime F] [FloatValues F] [PydanticTypes F] in
theorem requesterPermits_isOk {requestedBy role : PyVal F} (hrole : hashable role = true)
    (hkey : ∀ name, role = .str name → hashable requestedBy = true) (eventType : Str)
    (controllerName : Option Str) :
    ∃ b, requesterPermits site reads requestedBy role eventType controllerName = .ok b := by
  have hallows : hashable requestedBy = true → ∀ allows, ∃ b, keyAllows allows requestedBy = .ok b := by
    intro hhash allows
    cases requestedBy with
    | list | dict => cases hhash
    | str | none | bool | int | float | obj => exact ⟨_, rfl⟩
  unfold requesterPermits
  cases role with
  | list | dict => cases hrole
  | none | bool | int | float | obj => exact ⟨false, rfl⟩
  | str name =>
    have hhash := hkey name rfl
    simp only [roleHasPermission, Py.ok_bind]
    split
    · exact ⟨false, rfl⟩
    · rcases hallows hhash (isActionAllowedForKey (resolveApiKeys site.auth reads.actions) ·
        eventType) with ⟨b, hb⟩
      rw [hb, Py.ok_bind]
      split
      · exact ⟨false, rfl⟩
      · exact hallows hhash _

omit [PyRuntime F] [FloatValues F] in
/-- An entry that can be approved has a requester who is no longer permitted, or a controller. -/
theorem assess_of_actionable (h : Actionable sites d) (hsite : sites site) :
    assess site reads (.dict d) = .ok none ∨
      ∃ task controller, assess site reads (.dict d) = .ok (some task) ∧
        task.controller = some controller := by
  rcases h.payload with ⟨raw, payload, hraw, hvalid, hknown⟩
  rcases hknown site hsite with ⟨action, controller, haction, hcontroller⟩
  rcases h.requestedBy with ⟨requestedBy, hrequestedBy⟩
  rcases h.role with ⟨role, hrole, hhash⟩
  have hkey : ∀ name, role = .str name → hashable requestedBy = true := by
    rintro name rfl
    exact h.known name requestedBy hrole hrequestedBy
  have hpermits : ∃ b, requesterPermits site reads requestedBy role payload.eventType
      (resolveController payload.controllerOverride action) = .ok b :=
    requesterPermits_isOk hhash hkey _ _
  rcases hpermits with ⟨b, hb⟩
  unfold assess
  simp only [subscript_dict hraw, Py.ok_bind, hvalid, haction, subscript_dict hrequestedBy,
    subscript_dict hrole, hb]
  cases b with
  | false => exact Or.inl rfl
  | true => exact Or.inr ⟨_, controller, rfl, hcontroller⟩

omit [PyRuntime F] [FloatValues F] in
/-- What is executed has been read its requester. -/
theorem requester_of_assess {entry : PyVal F} {task : Task F}
    (h : assess site reads entry = .ok (some task)) : ∃ r, requester entry = .ok r := by
  -- both branches of the assessment read the two fields before they give a task
  have hboth : ∀ next : PyVal F → PyVal F → Py (Option (Task F)),
      (do
        let requestedBy ← subscript (py "requested_by") entry
        let role ← subscript (py "role") entry
        next requestedBy role) = .ok (some task) → ∃ r, requester entry = .ok r := by
    intro next hnext
    unfold requester
    cases hrequestedBy : subscript (py "requested_by") entry with
    | error e =>
      rw [hrequestedBy] at hnext
      cases hnext
    | ok requestedBy =>
      cases hrole : subscript (py "role") entry with
      | error e =>
        rw [hrequestedBy, hrole] at hnext
        cases hnext
      | ok role => exact ⟨_, rfl⟩
  unfold assess at h
  cases hpayload : subscript (py "payload") entry with
  | error e =>
    rw [hpayload] at h
    cases h
  | ok raw =>
    rw [hpayload, Py.ok_bind] at h
    split at h
    · cases h
    · split at h
      · split at h
        · exact hboth _ h
        · cases h
      · exact hboth _ h

omit [FloatValues F] [PydanticTypes F] in
/-- Setting fields leaves the requester as it is. -/
theorem requester_setFields {entry : PyVal F} {fields : List (Str × PyVal F)}
    (hfields : ∀ field ∈ fields, Handled field) (h : ∃ r, requester entry = .ok r) :
    ∃ r, requester (setFields fields entry) = .ok r := by
  cases entry with
  | dict d =>
    refine updateDict_induction (P := fun d => ∃ r, requester (.dict d) = .ok r) hfields h ?_
    intro d field hfield hrequester
    unfold requester subscript at hrequester ⊢
    have hby : py "requested_by" ∉ [py "result", py "status", py "approved_by", py "approver_role"] := by
      decide
    have hrole : py "role" ∉ [py "result", py "status", py "approved_by", py "approver_role"] := by
      decide
    simp only [hfield.get?_set hby, hfield.get?_set hrole]
    exact hrequester
  | none | bool | int | float | str | list | obj => exact h

omit [FloatValues F] [PydanticTypes F] in
theorem handled_rejectedFields (reason : Str) :
    ∀ field ∈ (rejectedFields reason : List (Str × PyVal F)), Handled field := by
  intro field hfield
  rcases List.mem_cons.mp hfield with rfl | hfield
  · exact Or.inr (Or.inl ⟨rfl, Or.inr rfl⟩)
  · rw [List.mem_singleton.mp hfield]
    exact Or.inl rfl

omit [FloatValues F] [PydanticTypes F] in
theorem handled_callerFields (caller : Caller F) : ∀ field ∈ caller.fields, Handled field := by
  intro field hfield
  rcases List.mem_cons.mp hfield with rfl | hfield
  · exact Or.inr (Or.inr ⟨Or.inl rfl, caller.apiKey_encodes⟩)
  · rw [List.mem_singleton.mp hfield]
    refine Or.inr (Or.inr ⟨Or.inr rfl, ?_⟩)
    have hrole := caller.role_encodes
    unfold Caller.role
    cases hname : getRoleFromApiKey (resolveApiKeys caller.site.auth caller.reads.role) caller.apiKey with
    | none => rfl
    | some name => exact hrole name hname

/-- A claim raises exactly when the controller is not configured. -/
theorem claim_spec (h : Sound sites s) {task : Task F}
    (hrequester : ∃ r, requester item.value = .ok r) :
    Sound sites (s.claim caller item task).1 ∧
      (Raises (s.claim caller item task).2 ↔ task.controller = none) := by
  have hfields : ∀ field ∈ (py "status", .str (py "approved")) :: caller.fields, Handled field := by
    intro field hfield
    rcases List.mem_cons.mp hfield with rfl | hfield
    · exact Or.inr (Or.inl ⟨rfl, Or.inl rfl⟩)
    · exact handled_callerFields caller field hfield
  rcases saveThen_spec (h.modify item.tag hfields) with ⟨queue, hsound, hsave⟩
  unfold claim
  simp only [hsave]
  cases task.controller with
  | none => exact ⟨hsound, iff_of_true ⟨_, rfl⟩ rfl⟩
  | some controller =>
    refine ⟨⟨hsound.queue, hsound.stamps, hsound.keys, ?_⟩, iff_of_false ?_ (by simp)⟩
    · intro execution hexecution
      rcases List.mem_cons.mp hexecution with rfl | hold
      · exact requester_setFields hfields hrequester
      · exact hsound.executing execution hold
    · rintro ⟨e, ⟨⟩⟩

theorem restOfTask_spec (h : Sound sites s) (task : Task F) (now : ℚ) :
    ∃ rest, s.restOfTask task now = .ok rest ∧ rest ≠ some .forever := by
  unfold restOfTask
  split
  · rcases remaining_spec h.stamps task.cooldownKey task.cooldownSeconds now with ⟨rest, hrest, hpasses⟩
    refine ⟨rest, hrest, ?_⟩
    intro hforever
    exact hpasses hforever _ _ _ rfl
  · exact ⟨none, rfl, by simp⟩

/-- An approval raises exactly when its entry cannot be assessed, or is claimed for a controller
that is not configured. -/
theorem approveItem_spec (h : Sound sites s) (caller : Caller F) (now : ℚ) (item : Item F) :
    Sound sites (s.approveItem caller now item).1 ∧
      (Raises (s.approveItem caller now item).2 ↔
        Raises (assess caller.site caller.reads item.value) ∨
          ∃ task, assess caller.site caller.reads item.value = .ok (some task) ∧
            s.restOfTask task now = .ok none ∧ task.controller = none) := by
  unfold approveItem
  cases hassess : assess caller.site caller.reads item.value with
  | error e => exact ⟨h, iff_of_true ⟨e, rfl⟩ (Or.inl ⟨e, rfl⟩)⟩
  | ok result =>
    cases result with
    | none =>
      rcases saveThen_spec (h.modify item.tag (handled_rejectedFields lostReason)) with
        ⟨queue, hsound, hsave⟩
      simp only [hsave]
      exact ⟨hsound, iff_of_false (by rintro ⟨e, ⟨⟩⟩) (by simp [Raises])⟩
    | some task =>
      -- a cooldown that never ends is ruled out, since a fit time passes
      rcases restOfTask_spec h task now with ⟨rest, hrest, hpasses⟩
      simp only [hrest]
      rcases rest with _ | q | _
      · have hclaim : Sound sites (s.claim caller item task).1 ∧
            (Raises (s.claim caller item task).2 ↔ task.controller = none) :=
          claim_spec h (requester_of_assess hassess)
        rcases hclaim with ⟨hsound, hraises⟩
        refine ⟨hsound, hraises.trans ?_⟩
        simp [Raises, hrest]
      · exact ⟨h, iff_of_false (by rintro ⟨e, ⟨⟩⟩) (by simp [Raises, hrest])⟩
      · exact absurd rfl hpasses

/-- What is assessed raises for the same entry without what was loaded. -/
theorem approveItem_unloaded (h : Sound sites s)
    (hraises : Raises (s.approveItem caller now item).2) :
    Raises (s.unloaded.approveItem caller now item).2 := by
  rw [(approveItem_spec h caller now item).2] at hraises
  rw [(approveItem_spec h.unloaded caller now item).2]
  rcases hraises with hassess | ⟨task, hassess, hfree, hcontroller⟩
  · exact Or.inl hassess
  · refine Or.inr ⟨task, hassess, ?_, hcontroller⟩
    unfold restOfTask at hfree ⊢
    split
    · next hcools =>
      rw [if_pos hcools] at hfree
      exact remaining_unloaded h hfree
    · rfl

theorem not_raises_approveItem (h : Sound sites s) (hsite : sites caller.site)
    (hvalue : item.value = .dict d) (hactionable : Actionable sites d) :
    ¬ Raises (s.approveItem caller now item).2 := by
  rw [(approveItem_spec h caller now item).2, hvalue]
  have hassess : assess caller.site caller.reads (.dict d) = .ok none ∨
      ∃ task controller, assess caller.site caller.reads (.dict d) = .ok (some task) ∧
        task.controller = some controller :=
    assess_of_actionable hactionable hsite
  rcases hassess with hlost | ⟨task, controller, hassess, hcontroller⟩
  · rw [hlost]
    simp [Raises]
  · rw [hassess]
    simp [Raises, hcontroller]

/-- A rejection raises exactly when its entry lacks what is read of it. -/
theorem rejectItem_spec (h : Sound sites s) (caller : Caller F) (item : Item F) :
    Sound sites (s.rejectItem caller item).1 ∧
      (Raises (s.rejectItem caller item).2 ↔ Raises (rejectedDetails item.value)) := by
  have hfields : ∀ field ∈ rejectedFields (py "Rejected by approver") ++ caller.fields,
      Handled field := by
    intro field hfield
    rcases List.mem_append.mp hfield with hfield | hfield
    · exact handled_rejectedFields _ field hfield
    · exact handled_callerFields caller field hfield
  rcases saveThen_spec (h.modify item.tag hfields) with ⟨queue, hsound, hsave⟩
  unfold rejectItem
  simp only [hsave]
  cases rejectedDetails item.value with
  | error e => exact ⟨hsound, iff_of_true ⟨e, rfl⟩ ⟨e, rfl⟩⟩
  | ok _ => exact ⟨hsound, iff_of_false (by rintro ⟨e, ⟨⟩⟩) (by rintro ⟨e, ⟨⟩⟩)⟩

omit [PyRuntime F] [FloatValues F] in
theorem not_raises_rejectedDetails (hactionable : Actionable sites d) :
    ¬ Raises (rejectedDetails (.dict d)) := by
  rcases hactionable.requestedBy with ⟨requestedBy, hrequestedBy⟩
  rcases hactionable.role with ⟨role, hrole, -⟩
  rcases hactionable.payload with ⟨raw, payload, hraw, hvalid, -⟩
  rcases hactionable.controller with ⟨controller, hcontroller⟩
  have hdict : ∃ fields, raw = .dict fields := by
    cases raw with
    | dict fields => exact ⟨fields, rfl⟩
    | none | bool | int | float | str | list | obj => cases hvalid
  rcases hdict with ⟨fields, rfl⟩
  unfold rejectedDetails requester
  simp only [subscript_dict hrequestedBy, subscript_dict hrole, subscript_dict hraw,
    subscript_dict hcontroller, Py.ok_bind]
  rintro ⟨e, ⟨⟩⟩

end Handlers

/-! ## Operations -/

section Operations

variable [PyRuntime F] [FloatValues F] [PydanticTypes F] {sites : Site F → Prop} {s : RawServer F}
  {caller : Caller F}

/-- An approval in a sound server leaves a sound server, and raises only if it also does without
what was loaded. -/
theorem approve_spec (h : Sound sites s) (hsite : sites caller.site) (approvalId : Str) (now : ℚ) :
    Sound sites (s.approve caller approvalId now).1 ∧
      (Raises (s.approve caller approvalId now).2 →
        Raises (s.unloaded.approve caller approvalId now).2) := by
  unfold approve
  split
  · exact ⟨h, fun hraises => hraises⟩
  · constructor
    · split
      · exact h
      · exact h
      · next item _ => exact (approveItem_spec h caller now item).1
    · rcases lookupPending_cases h caller.apiKey approvalId (py "approve") with
        hsame | ⟨response, hrefused⟩ | ⟨item, d, hfound, hvalue, hactionable⟩
      · rw [hsame]
        split
        · exact fun hraises => hraises
        · exact fun hraises => hraises
        · exact approveItem_unloaded h
      · rw [hrefused]
        rintro ⟨e, ⟨⟩⟩
      · rw [hfound]
        exact fun hraises => absurd hraises (not_raises_approveItem h hsite hvalue hactionable)

theorem reject_spec (h : Sound sites s) (caller : Caller F) (approvalId : Str) :
    Sound sites (s.reject caller approvalId).1 ∧
      (Raises (s.reject caller approvalId).2 → Raises (s.unloaded.reject caller approvalId).2) := by
  unfold reject
  split
  · exact ⟨h, fun hraises => hraises⟩
  · constructor
    · split
      · exact h
      · exact h
      · next item _ => exact (rejectItem_spec h caller item).1
    · rcases lookupPending_cases h caller.apiKey approvalId (py "reject") with
        hsame | ⟨response, hrefused⟩ | ⟨item, d, hfound, hvalue, hactionable⟩
      · rw [hsame]
        split
        · exact fun hraises => hraises
        · exact fun hraises => hraises
        · next item _ =>
          simp only [(rejectItem_spec h caller item).2, (rejectItem_spec h.unloaded caller item).2]
          exact fun hraises => hraises
      · rw [hrefused]
        rintro ⟨e, ⟨⟩⟩
      · rw [hfound]
        simp only [(rejectItem_spec h caller item).2, hvalue]
        exact fun hraises => absurd hraises (not_raises_rejectedDetails hactionable)

omit [FloatValues F] in
/-- Every entry is listed without its result. -/
theorem listed_isOk {queue : List (Item F)} (h : ∀ item ∈ queue, FitItem sites item) :
    ∃ entries, (queue.mapM fun item => listed item.value) = .ok entries ∧
      (entries.all (fun d => rendered (.dict d)) = false ↔
        ∃ item ∈ queue, ∀ d, item.value = .dict d →
          rendered (.dict (Dict.erase (py "result") d)) = false) := by
  induction queue with
  | nil => exact ⟨[], rfl, by simp⟩
  | cons item queue ih =>
    rcases ih (fun i hi => h i (List.mem_cons_of_mem _ hi)) with ⟨entries, hmap, hall⟩
    rcases h item List.mem_cons_self with ⟨d, hvalue, -⟩
    refine ⟨Dict.erase (py "result") d :: entries, ?_, ?_⟩
    · rw [List.mapM_cons, hmap, hvalue]
      rfl
    · rw [List.all_cons, Bool.and_eq_false_iff, hall]
      simp [hvalue]

/-- The list raises exactly when an entry has what JSON has not. -/
theorem list_raises_iff {s : RawServer F} (h : Sound sites s) (caller : Caller F) :
    Raises (s.list caller) ↔
      hasPermission caller.site.auth caller.role (py "approvals_read") = true ∧
        ∃ item ∈ s.queue, ∀ d, item.value = .dict d →
          rendered (.dict (Dict.erase (py "result") d)) = false := by
  rcases listed_isOk h.queue with ⟨entries, hmap, hall⟩
  have hlist : rendered (.list (entries.map .dict)) = entries.all fun d => rendered (.dict d) := by
    unfold rendered
    rw [everyPart, everyPartList_eq, Bool.true_and, List.all_map]
    rfl
  unfold list
  cases hasPermission caller.site.auth caller.role (py "approvals_read") with
  | false => exact iff_of_false (by rintro ⟨e, ⟨⟩⟩) (by simp)
  | true =>
    simp only [Bool.not_true, Bool.false_eq_true, if_false, hmap, Py.ok_bind, hlist, true_and, ← hall]
    cases entries.all fun d => rendered (.dict d) with
    | false => exact iff_of_true ⟨_, rfl⟩ rfl
    | true => exact iff_of_false (by rintro ⟨e, ⟨⟩⟩) (by simp)

theorem list_unloaded (h : Sound sites s) (hraises : Raises (s.list caller)) :
    Raises (s.unloaded.list caller) := by
  rw [list_raises_iff h] at hraises
  rw [list_raises_iff h.unloaded]
  rcases hraises with ⟨hpermitted, item, hitem, hrendered⟩
  refine ⟨hpermitted, item, List.mem_filter.mpr ⟨hitem, ?_⟩, hrendered⟩
  rcases h.queue item hitem with ⟨d, hvalue, -, -, hfit⟩
  cases hloaded : item.loaded with
  | false => rfl
  | true =>
    have hlisted := (hfit hloaded).listed
    rw [hrendered d hvalue] at hlisted
    cases hlisted

/-- Queueing returns. -/
theorem enqueue_spec (h : Sound sites s) (a : Admitted F) (id : Uuid) (apiKey : Str) :
    Sound sites (s.enqueue a id apiKey).1 ∧ ¬ Raises (s.enqueue a id apiKey).2 := by
  have hnew : Sound sites { s with
      queue := s.queue ++ [⟨s.nextTag, false, .dict (a.entry id apiKey).toJson⟩]
      nextTag := s.nextTag + 1 } := by
    refine ⟨?_, h.stamps, h.keys, h.executing⟩
    intro item hitem
    rcases List.mem_append.mp hitem with hitem | hitem
    · exact h.queue item hitem
    · rw [List.mem_singleton.mp hitem]
      exact ⟨_, rfl, ⟨_, rfl⟩, ⟨_, rfl⟩, by simp⟩
  rcases saveThen_spec hnew with ⟨queue, hsound, hsave⟩
  unfold enqueue
  rw [hsave]
  exact ⟨hsound, by rintro ⟨e, ⟨⟩⟩⟩

theorem Sound.setTimes (h : Sound sites s) {key : Str} {now : ℚ} {kept : List (Str × Stamp F)}
    (hkept : kept.Sublist (Items.set key (.recorded now) s.lastRun)) :
    Sound sites { s with lastRun := kept } :=
  ⟨h.queue, (h.stamps.set key now).sublist hkept,
    (Items.nodup_set h.keys key (.recorded now)).sublist (hkept.map Prod.fst), h.executing⟩

/-- Settling returns. -/
theorem settle_spec (h : Sound sites s) {execution : Execution F}
    (hrequester : ∃ r, requester execution.item.value = .ok r) (result : Option ExecResult)
    (now nowPrune : ℚ) :
    Sound sites (s.settle execution result now nowPrune).1 ∧
      ¬ Raises (s.settle execution result now nowPrune).2 := by
  unfold settle
  cases result with
  | none =>
    rcases saveThen_spec (h.modify execution.item.tag (handled_rejectedFields noExecutableError)) with
      ⟨queue, hsound, hsave⟩
    simp only [hsave]
    exact ⟨hsound, by rintro ⟨e, ⟨⟩⟩⟩
  | some result =>
    -- a dry run and an action without a cooldown record nothing
    have hrecord : ∃ kept, (if execution.task.coolsDown then
          recordTime s.lastRun execution.task.cooldownKey now nowPrune else (s.lastRun, .ok ())) =
        (kept, .ok ()) ∧ Sound sites { s with lastRun := kept } := by
      split
      · rcases recordTime_spec h.stamps execution.task.cooldownKey now nowPrune with ⟨kept, heq, hsub⟩
        exact ⟨kept, heq, h.setTimes hsub⟩
      · exact ⟨s.lastRun, rfl, h⟩
    rcases hrecord with ⟨kept, heq, hkept⟩
    have hresult : ∀ field ∈ [(py "result", (.dict result.asDict : PyVal F))], Handled field := by
      intro field hfield
      rw [List.mem_singleton.mp hfield]
      exact Or.inl rfl
    rcases saveThen_spec (hkept.modify execution.item.tag hresult) with ⟨queue, hsound, hsave⟩
    rcases hrequester with ⟨r, hr⟩
    simp only [heq, hsave, hr]
    exact ⟨hsound, by rintro ⟨e, ⟨⟩⟩⟩

/-- The configuration of an approval is one of the given. -/
def Operation.Within (sites : Site F → Prop) : Operation F → Prop
  | .approve caller _ _ => sites caller.site
  | _ => True

/-- The operation raises, and would not if nothing had been loaded. -/
def RaisesForLoaded (s : RawServer F) (op : Operation F) : Prop :=
  Raises (s.perform op).2 ∧ ¬ Raises (s.unloaded.perform op).2

/-- An operation keeps the server sound, and does not raise because of what was loaded. -/
theorem perform_spec (h : Sound sites s) {op : Operation F} (hop : op.Within sites) :
    Sound sites (s.perform op).1 ∧ ¬ s.RaisesForLoaded op := by
  -- either the operation returns, or it raises without what was loaded as well
  have hreturns : ∀ {r : Py (Answer F)}, ¬ Raises r → (s.perform op).2 = r → ¬ s.RaisesForLoaded op := by
    intro r hr heq hraises
    rw [← heq] at hr
    exact hr hraises.1
  have hsame : (Raises (s.perform op).2 → Raises (s.unloaded.perform op).2) → ¬ s.RaisesForLoaded op :=
    fun hle hraises => hraises.2 (hle hraises.1)
  cases op with
  | record key now nowPrune =>
    rcases recordTime_spec h.stamps key now nowPrune with ⟨kept, heq, hsub⟩
    have hperform : s.perform (.record key now nowPrune) = ({ s with lastRun := kept }, .ok .done) := by
      unfold perform
      simp only [heq]
      rfl
    rw [hperform]
    exact ⟨h.setTimes hsub, hreturns (by rintro ⟨e, ⟨⟩⟩) (congrArg Prod.snd hperform)⟩
  | secondsRemaining key c now =>
    rcases remaining_spec h.stamps key c now with ⟨rest, hrest, -⟩
    have hperform : s.perform (.secondsRemaining key c now) = (s, .ok (.remaining rest)) := by
      unfold perform
      simp only [hrest]
      rfl
    rw [hperform]
    exact ⟨h, hreturns (by rintro ⟨e, ⟨⟩⟩) (congrArg Prod.snd hperform)⟩
  | queue admitted id apiKey =>
    rcases enqueue_spec h admitted id apiKey with ⟨hsound, hnot⟩
    exact ⟨hsound, hreturns hnot rfl⟩
  | list caller => exact ⟨h, hsame (list_unloaded h)⟩
  | approve caller approvalId now =>
    rcases approve_spec h hop approvalId now with ⟨hsound, hle⟩
    exact ⟨hsound, hsame hle⟩
  | settle tag result now nowPrune =>
    cases hfind : s.executing.find? fun execution => execution.item.tag = tag with
    | none =>
      have hperform : s.perform (.settle tag result now nowPrune) = (s, .ok .done) := by
        unfold perform
        simp only [hfind]
      rw [hperform]
      exact ⟨h, hreturns (by rintro ⟨e, ⟨⟩⟩) (congrArg Prod.snd hperform)⟩
    | some execution =>
      have hothers : Sound sites { s with
          executing := s.executing.filter fun execution => execution.item.tag ≠ tag } :=
        ⟨h.queue, h.stamps, h.keys, fun other hother =>
          h.executing other (List.mem_of_mem_filter hother)⟩
      have hrequester := h.executing execution (List.mem_of_find?_eq_some hfind)
      rcases settle_spec hothers hrequester result now nowPrune with ⟨hsound, hnot⟩
      have hperform : s.perform (.settle tag result now nowPrune) = settle { s with
          executing := s.executing.filter fun execution => execution.item.tag ≠ tag }
            execution result now nowPrune := by
        unfold perform
        simp only [hfind]
      rw [hperform]
      exact ⟨hsound, hreturns hnot (congrArg Prod.snd hperform)⟩
  | reject caller approvalId =>
    rcases reject_spec h caller approvalId with ⟨hsound, hle⟩
    exact ⟨hsound, hsame hle⟩

end Operations

/-! ## Loading -/

section Loading

variable [PyRuntime F]

theorem jsonValue_of_jsonLoad {file : Option Bytes} {v : PyVal F}
    (h : jsonLoad file = .ok (some v)) : JsonValue v := by
  unfold jsonLoad at h
  split at h
  · cases h
  · split at h
    · cases h
    · exact jsonValue_of_loads (Except.ok.inj h)

theorem jsonLoad_isOk_iff {file : Option Bytes} : (∃ v, (jsonLoad file : Py (Option (PyVal F))) = .ok v) ↔
    ∀ bytes ∈ file, ∃ text, decodeUtf8 bytes = some text := by
  unfold jsonLoad
  rcases file with _ | bytes
  · simp
  · cases hdecode : decodeUtf8 bytes with
    | none => simp [hdecode]
    | some text => simp [hdecode]

/-- What `json.dump` has written is read back. -/
theorem jsonLoad_print (v : PyVal F) :
    jsonLoad (some (encodeUtf8 (print .spaced v))) = .ok (some (readBack v)) := by
  have hprint := printable_print .spaced v
  have hreturn : (13 : CodePoint) ∉ print .spaced v := by
    intro hmem
    exact absurd (hprint 13 hmem).1 (by decide)
  simp only [jsonLoad, decodeUtf8_encodeUtf8 hprint.ascii, translateNewlines_of_no_return hreturn,
    loads_print_eq]

variable [FloatValues F] [PydanticTypes F] {sites : Site F → Prop} {cooldowns approvals : Option Bytes}

omit [FloatValues F] [PydanticTypes F] in
theorem nodup_keyText {items : Dict F} (h : JsonValue (.dict items)) :
    (items.map fun kv => keyText kv.1).Nodup := by
  rw [List.nodup_iff_pairwise_ne, List.pairwise_map]
  have hkeys := h.keys_nodup
  rw [Dict.keys, List.nodup_iff_pairwise_ne, List.pairwise_map] at hkeys
  refine hkeys.imp_of_mem ?_
  intro a b ha hb hne heq
  rcases h.strKeys a ha with ⟨s, hs⟩
  rcases h.strKeys b hb with ⟨t, ht⟩
  rw [hs, ht] at heq hne
  exact hne (congrArg Key.str heq)

/-- Loading fit files returns, and gives a sound server. -/
theorem start_spec (h : Fit sites cooldowns approvals) :
    ∃ s : RawServer F, start cooldowns approvals = .ok s ∧ Sound sites s := by
  -- a file of another type counts as empty
  have htimes : ∃ items : List (Str × Stamp F), loadCooldowns cooldowns = .ok items ∧
      FitStamps items ∧ (items.map Prod.fst).Nodup := by
    rcases (jsonLoad_isOk_iff (F := F)).mpr h.cooldowns_text with ⟨v, hv⟩
    unfold loadCooldowns
    rw [hv, Py.ok_bind]
    split
    · next items =>
      refine ⟨_, rfl, ?_, ?_⟩
      · intro key v hmem
        rcases List.mem_map.mp hmem with ⟨kv, hkv, heq⟩
        cases heq
        exact h.times items hv kv hkv
      · rw [List.map_map]
        exact nodup_keyText (jsonValue_of_jsonLoad hv)
    · exact ⟨[], rfl, fun key v hmem => absurd hmem List.not_mem_nil, List.nodup_nil⟩
  have hentries : ∃ entries : List (PyVal F), loadApprovals approvals = .ok entries ∧
      ∀ v ∈ entries, ∃ d, v = .dict d ∧ FitEntry sites d := by
    rcases (jsonLoad_isOk_iff (F := F)).mpr h.approvals_text with ⟨v, hv⟩
    unfold loadApprovals
    rw [hv, Py.ok_bind]
    split
    · next entries => exact ⟨entries, rfl, h.entries entries hv⟩
    · exact ⟨[], rfl, fun v hmem => absurd hmem List.not_mem_nil⟩
  rcases htimes with ⟨items, hitems, hstamps, hkeys⟩
  rcases hentries with ⟨entries, hload, hfit⟩
  unfold start
  rw [hitems, hload]
  refine ⟨_, rfl, ⟨?_, hstamps, hkeys, fun execution hmem => absurd hmem List.not_mem_nil⟩⟩
  intro item hitem
  rcases List.mem_map.mp hitem with ⟨p, hp, rfl⟩
  rcases hfit p.1 (List.fst_mem_of_mem_zipIdx hp) with ⟨d, hd, hentry⟩
  exact ⟨d, hd, hentry.id, hentry.status, fun _ => hentry⟩

/-- If the state files are fit for the configurations, loading them returns, and whatever is done
with the server then, no operation raises because of what was loaded. -/
theorem loaded_harmless (h : Fit sites cooldowns approvals) :
    ∃ s₀ : RawServer F, start cooldowns approvals = .ok s₀ ∧
      ∀ s, Reachable (fun s => s = s₀) (fun s op s' => s' = (s.perform op).1)
          (fun _ op => op.Within sites) s →
        ∀ op, op.Within sites → ¬ s.RaisesForLoaded op := by
  rcases start_spec h with ⟨s₀, hstart, hsound⟩
  refine ⟨s₀, hstart, ?_⟩
  intro s hreach op hop
  have hs : Sound sites s := by
    refine hreach.invariant ?_ ?_
    · rintro _ rfl
      exact hsound
    · rintro t m _ - ht hm rfl
      exact (perform_spec ht hm).1
  exact (perform_spec hs hop).2

end Loading

/-! ## Two pairs of files -/

/-- A time, and an entry that waits for approval. -/
theorem loaded_harmless_example :
    ∃ s₀ : RawServer NanFloat,
      start (some (encodeUtf8 (print .spaced (.dict [(.str (py "k"), .int 5)] : PyVal NanFloat))))
          (some (encodeUtf8 (print .spaced (.list [.dict exampleEntry.toJson])))) = .ok s₀ ∧
        ∀ s, Reachable (fun s => s = s₀) (fun s op s' => s' = (s.perform op).1)
            (fun _ op => op.Within fun site =>
              site = exampleSite (.literal exampleKeys) exampleAction [(py "local", exampleController)]) s →
          ∀ op, (op.Within fun site => site = exampleSite (.literal exampleKeys) exampleAction
              [(py "local", exampleController)]) → ¬ s.RaisesForLoaded op := by
  apply loaded_harmless
  have htimes : readBack (.dict [(.str (py "k"), .int 5)] : PyVal NanFloat) =
      .dict [(.str (py "k"), .int 5)] :=
    readBack_jsonValue (jsonValue_empty.cons (by decide) rfl (.int 5))
  have hentries : readBack (.list [.dict exampleEntry.toJson] : PyVal NanFloat) =
      .list [.dict exampleEntry.toJson] := by
    refine readBack_jsonValue (.list ?_)
    intro v hv
    rw [List.mem_singleton.mp hv]
    exact ((((((jsonValue_empty.cons (by decide) rfl (.str (by decide))).cons (by decide) rfl
      (.str (by decide))).cons (by decide) rfl (.str (by decide))).cons (by decide) rfl .none).cons
      (by decide) rfl (.str (by decide))).cons (by decide) rfl (jsonValue_payload true)).cons
      (by decide) rfl (.str (by decide))
  constructor
  · rintro _ ⟨⟩
    exact ⟨_, decodeUtf8_encodeUtf8 (printable_print _ _).ascii⟩
  · rintro _ ⟨⟩
    exact ⟨_, decodeUtf8_encodeUtf8 (printable_print _ _).ascii⟩
  -- both files are read back as they were written; what is left is that they are fit
  · intro items hload kv hkv
    rw [jsonLoad_print, htimes] at hload
    cases hload
    rw [List.mem_singleton.mp hkv]
    refine ⟨by simp [IsNumber, PyVal.num], ?_, by simp [PyVal.num]⟩
    rintro n ⟨⟩
    decide +kernel
  · intro entries hload v hv
    rw [jsonLoad_print, hentries] at hload
    cases hload
    rw [List.mem_singleton.mp hv]
    refine ⟨exampleEntry.toJson, rfl, ⟨_, rfl⟩, ⟨_, rfl⟩, by decide +kernel, ?_, ?_⟩
    · rintro id status - ⟨⟩ hpending
      exact absurd rfl hpending
    · rintro id - -
      refine ⟨⟨_, rfl⟩, ⟨_, rfl, rfl⟩, ?_, ?_, ⟨_, rfl⟩⟩
      · rintro name requestedBy - ⟨⟩
        rfl
      · refine ⟨_, ⟨py "check", none, some [], some false, some true⟩, rfl, by rfl, ?_⟩
        rintro site rfl
        exact ⟨exampleAction, exampleController, by rfl, by rfl⟩

/-- Bytes that are no UTF-8 stop the server from starting. A time that is no number raises at the
next record, and an entry without a status at the next request that is queued. -/
theorem loaded_raises :
    start (some [0xFF]) none = (.error .unicodeDecodeError : Py (RawServer NanFloat)) ∧
    start none (some [0xFF]) = (.error .unicodeDecodeError : Py (RawServer NanFloat)) ∧
    (∃ s : RawServer NanFloat,
      start (some (encodeUtf8 (print .spaced
        (.dict [(.str (py "k"), .str (py "x"))] : PyVal NanFloat)))) none = .ok s ∧
      s.RaisesForLoaded (.record (py "j") 0 0)) ∧
    ∃ s : RawServer NanFloat,
      start none (some (encodeUtf8 (print .spaced
        (.list [.dict [(.str (py "id"), .str (py "a"))]] : PyVal NanFloat)))) = .ok s ∧
      s.RaisesForLoaded (.queue ⟨exampleEntry.payload, ⟨py "check", none, some [], some false, some true⟩,
        some (py "operator"), exampleAction, py "local", exampleController⟩ exampleEntry.id
        (py "operator-key")) := by
  have htimes : readBack (.dict [(.str (py "k"), .str (py "x"))] : PyVal NanFloat) =
      .dict [(.str (py "k"), .str (py "x"))] :=
    readBack_jsonValue (jsonValue_empty.cons (by decide) rfl (.str (by decide)))
  have hentries : readBack (.list [.dict [(.str (py "id"), .str (py "a"))]] : PyVal NanFloat) =
      .list [.dict [(.str (py "id"), .str (py "a"))]] := by
    refine readBack_jsonValue (.list ?_)
    intro v hv
    rw [List.mem_singleton.mp hv]
    exact jsonValue_empty.cons (by decide) rfl (.str (by decide))
  refine ⟨rfl, rfl, ?_, ?_⟩
  · refine ⟨⟨[], 0, [(py "k", .loaded (.str (py "x")))], []⟩, ?_, ⟨_, rfl⟩, ?_⟩
    · simp only [start, loadCooldowns, jsonLoad_print, htimes]
      rfl
    · rintro ⟨e, he⟩
      cases he
  · refine ⟨⟨[⟨0, true, .dict [(.str (py "id"), .str (py "a"))]⟩], 1, [], []⟩, ?_, ⟨_, rfl⟩, ?_⟩
    · simp only [start, loadApprovals, jsonLoad_print, hentries]
      rfl
    · rintro ⟨e, he⟩
      cases he

end RawServer

end AutoHeal.Server
