import AutoHeal.Server.Persistence
import AutoHeal.Server.Trail
import AutoHeal.Lib.Owed

/-!
# The record of approvals and rejections

The calls in progress, with the audit log they write to. A call that has claimed an entry,
or rejected it, owes the log an audit entry with its id and its status, which it writes once
it has saved. In the runs in which no requester has lost its rights, each claimed entry gets
a result and the log can be written, each entry that leaves `pending` is owed for until it
is in the log once (`approvals_recorded`). The examples at the end are runs that leave
`pending` and the log as it was.
-/

namespace AutoHeal.Server

open Audit Transition

variable {F : Type}

/-! ## Audit entries about approvals -/

/-- The id and the status that an audit entry carries. -/
def recordOf (entry : Dict F) : Option (Uuid × Status) := do
  let id ← (Dict.get? (py "approval_id") entry).bind uuidOf
  let status ← (Dict.get? (py "approval_status") entry).bind statusOf
  return (id, status)

/-- The audit entries of `approve_approval` and `reject_approval` about an entry. -/
inductive IsRecord : Dict F → Uuid → Status → Prop
  | approved (e : Approval F) (task : Task F) (apiKey : Str) (role : Option Str)
      (result : ExecResult) : IsRecord (e.approvedEntry task apiKey role result) e.id .approved
  | rejected (e : Approval F) (payload : Dict F) (apiKey : Str) (role : Option Str) :
    IsRecord (e.rejectedEntry payload apiKey role) e.id .rejected

/-- The other audit entries: of `/webhook`, and of what cools down or is limited. -/
inductive IsReport : Dict F → Prop
  | executed (task : Task F) (user : Str) (role : Option Str) (result : ExecResult)
      (clientIp : Option Str) : IsReport (task.auditEntry user role result clientIp)
  | cooling (task : Task F) (apiKey : Str) (role : Option Str) : IsReport (task.blockEntry apiKey role)
  | limited (eventType apiKey : Str) (role : Option Str)
      (parameters : Option (List (Str × PyVal F))) :
    IsReport (rateLimitBlockAuditEntry eventType apiKey role parameters)

/-- An audit entry about an entry. -/
structure Record (F : Type) where
  entry : Dict F
  id : Uuid
  status : Status
  about : IsRecord entry id status

theorem uuidOf_val (id : Uuid) : uuidOf (.str id.val : PyVal F) = some id := dif_pos id.property

theorem IsRecord.recordOf {entry : Dict F} {id : Uuid} {status : Status}
    (h : IsRecord entry id status) : Server.recordOf entry = some (id, status) := by
  cases h with
  | approved e task apiKey role result =>
    show ((uuidOf (.str e.id.val : PyVal F)).bind fun id => some (id, Status.approved)) = _
    rw [uuidOf_val]
    rfl
  | rejected e payload apiKey role =>
    show ((uuidOf (.str e.id.val : PyVal F)).bind fun id => some (id, Status.rejected)) = _
    rw [uuidOf_val]
    rfl

theorem IsReport.recordOf {entry : Dict F} (h : IsReport entry) : Server.recordOf entry = none := by
  cases h <;> rfl

/-- What the log adds to them has string keys, and no field of the chain. -/
theorem IsRecord.strKeys {entry : Dict F} {id : Uuid} {status : Status} (h : IsRecord entry id status)
    (timestamp : Str) : StrKeys (auditLogEntry entry timestamp) := by
  cases h with
  | approved e task apiKey role result => exact strKeys_approvedEntry
  | rejected e payload apiKey role =>
    rw [show auditLogEntry (e.rejectedEntry payload apiKey role) timestamp =
      e.rejectedEntry payload apiKey role ++
        [(.str (py "timestamp"), .str timestamp), (.str (py "status"), .bool false),
          (.str (py "error"), .str (py "Rejected by approver"))] from rfl]
    simp [StrKeys, Approval.rejectedEntry, auditFields]

theorem IsRecord.noChainFields {entry : Dict F} {id : Uuid} {status : Status}
    (h : IsRecord entry id status) (timestamp : Str) : NoChainFields (auditLogEntry entry timestamp) := by
  cases h <;> exact ⟨rfl, rfl, rfl⟩

/-! ## The ledger -/

/-- What a call has yet to write: the audit entry of an entry it has claimed, once there is a
result, or an audit entry it has. -/
inductive Debt (F : Type) where
  | claimed (entry : Approval F) (approver : Approver F)
  | due (record : Record F)

/-- The entry and the status it is about. -/
def Debt.about : Debt F → Uuid × Status
  | .claimed e _ => (e.id, .approved)
  | .due record => (record.id, record.status)

/-- What is owed once `execute_action` has returned or raised. Only a result is written. -/
def Debt.afterExecute (job : Job F) : Option (Debt F) → Py (Option ExecResult) → Option (Debt F)
  | some (.claimed e approver), .ok (some result) =>
    some (.due ⟨_, _, _, .approved e job.task approver.apiKey approver.role result⟩)
  | some (.due record), .ok (some _) => some (.due record)
  | _, _ => none

/-- What is owed for a rejected entry. A payload that is no mapping has no fields to write. -/
def Debt.afterReject (e : Approval F) (approver : Approver F) : Option (Debt F) :=
  match e.payload.val with
  | .dict payload => some (.due ⟨_, _, _, .rejected e payload approver.apiKey approver.role⟩)
  | _ => none

/-- The calls in progress and what each owes, the status an entry has left `pending` for, the
log, and the audit entries that were written to it, the last first. -/
structure Ledger (F : Type) where
  system : System F
  debts : Nat → Option (Debt F)
  status : Uuid → Option Status
  log : Audit.Dir
  written : List (Dict F)

/-- A server that starts without a state file, with some log. -/
structure Ledger.Starts (l : Ledger F) : Prop where
  system : l.system.Starts
  debts : l.debts = fun _ => none
  status : l.status = fun _ => none
  written : l.written = []

/-- A move, or a call writes what it owes, or another audit entry is written. -/
inductive LedgerMove (F : Type) where
  | system (m : Move F)
  | write (call : Nat) (record : Record F) (site : Site F) (env : RequestEnv F)
  | report (entry : Dict F)

/-- The moves that change no debt. -/
def Move.isPlain : Move F → Bool
  | .queue _ | .enter | .refuse | .save _ | .read | .cool | .pass .. | .start .. | .record ..
  | .tick => true
  | .lose _ | .claim .. | .reject _ | .finish .. | .store _ | .crash => false

/-- The ids and statuses that what was written carries. -/
def Ledger.records (l : Ledger F) : List (Uuid × Status) := l.written.filterMap recordOf

/-- What was incurred, is owed and was written. -/
def Ledger.account (l : Ledger F) : Owed.Account Uuid Status :=
  ⟨l.status, fun i => (l.debts i).map Debt.about, l.records⟩

variable [PyRuntime F] [PyDates F]

/-- `write_audit_log`. -/
def Ledger.write (l : Ledger F) (site : Site F) (env : RequestEnv F) (entry : Dict F) : Ledger F :=
  match writeAuditLog site.chain env.audit env.clock.audit l.log entry with
  | (log, .ok _) => { l with log, written := entry :: l.written }
  | (log, .error _) => { l with log }

variable [PydanticTypes F]

/-- The moves of the ledger. -/
inductive LedgerStep (l : Ledger F) : LedgerMove F → Ledger F → Prop
  | plain {m : Move F} {s : System F} (hstep : Step l.system m s) (hplain : m.isPlain = true) :
    LedgerStep l (.system m) { l with system := s }
  /-- The entry of a requester that lost its rights is rejected, and nothing is owed for it. -/
  | lose {id : Uuid} {s : System F} (hstep : Step l.system (.lose id) s) :
    LedgerStep l (.system (.lose id))
      { l with system := s, status := Function.update l.status id (some .rejected) }
  | claim {i : Nat} {approver : Approver F} {approvalId : Str} {cooldowns : Cooldowns}
      {e : Approval F} {task : Task F} {s : System F}
      (hcall : l.system.calls i = some (.reviewing approver approvalId cooldowns))
      (hstep : Step l.system (.claim i e task cooldowns) s) :
    LedgerStep l (.system (.claim i e task cooldowns))
      { l with
        system := s
        debts := Function.update l.debts i (some (.claimed e approver))
        status := Function.update l.status e.id (some .approved) }
  | reject {approver : Approver F} {approvalId : Str} {e : Approval F} (hfree : l.system.holder = none)
      (hfound : lookupPending l.system.queue approver.apiKey approvalId (py "reject") = .found e) :
    LedgerStep l (.system (.reject e.id))
      { l with
        system := ({ l.system with next := l.system.next + 1 }).change l.system.next
          (updateEntry l.system.queue e.id fun _ => { e.fail (py "Rejected by approver") with
            processed := some (approver.apiKey, approver.role) }) (.rejected e.id) [.left e.id]
        debts := Function.update l.debts l.system.next (Debt.afterReject e approver)
        status := Function.update l.status e.id (some .rejected) }
  | finish {i : Nat} {job : Job F} {answer : Py (Option ExecResult)} {s : System F}
      (hstep : Step l.system (.finish i job answer) s) :
    LedgerStep l (.system (.finish i job answer))
      { l with
        system := s
        debts := Function.update l.debts i (Debt.afterExecute job (l.debts i) answer) }
  /-- A result is stored; where there is none, the entry is rejected. -/
  | store {i : Nat} {id : Uuid} {result : Option ExecResult}
      (hcall : l.system.calls i = some (.storing id result)) (hfree : l.system.holder = none) :
    LedgerStep l (.system (.store id))
      { l with
        system := l.system.change i (updateEntry l.system.queue id fun e => e.settle result) .done []
        status := if result.isNone then Function.update l.status id (some .rejected) else l.status }
  /-- What the calls owed is lost. -/
  | crash {s : System F} (hstep : Step l.system .crash s) :
    LedgerStep l (.system .crash) { l with system := s, debts := fun _ => none }
  /-- A call that has saved writes what it owes. -/
  | write {i : Nat} {record : Record F} {site : Site F} {env : RequestEnv F}
      (hdebt : l.debts i = some (.due record)) (hcall : l.system.calls i = none) :
    LedgerStep l (.write i record site env)
      { l.write site env record.entry with debts := Function.update l.debts i none }
  | report {entry : Dict F} {site : Site F} {env : RequestEnv F} (hreport : IsReport entry) :
    LedgerStep l (.report entry) (l.write site env entry)

/-- No requester has lost its rights, what is claimed gets a result, what is owed can be
written to the log, and the process restarts only when nothing is owed and the file has
nothing as pending that has left. -/
structure Accounted (l : Ledger F) (m : LedgerMove F) : Prop where
  permitted : ∀ id, m ≠ .system (.lose id)
  completes : ∀ i job answer, m = .system (.finish i job answer) → job.entryId ≠ none →
    ∃ result, answer = .ok (some result)
  writable : ∀ i record site env, m = .write i record site env →
    Serialisable (auditLogEntry record.entry env.clock.audit.isoformatZ) ∧ LogReadable site env l.log
  restarts : m = .system .crash →
    (∀ i, l.debts i = none) ∧ ∀ id ∈ leftIds l.system.history, id ∉ pendingIds l.system.file

/-! ## The calls behind the ledger -/

section Moves

variable {l l' : Ledger F} {m : LedgerMove F}

section Writing

variable (l : Ledger F) (site : Site F) (env : RequestEnv F) (entry : Dict F)

omit [PydanticTypes F]

@[simp] theorem Ledger.write_system : (l.write site env entry).system = l.system := by
  unfold Ledger.write
  split <;> rfl

@[simp] theorem Ledger.write_debts : (l.write site env entry).debts = l.debts := by
  unfold Ledger.write
  split <;> rfl

@[simp] theorem Ledger.write_status : (l.write site env entry).status = l.status := by
  unfold Ledger.write
  split <;> rfl

/-- What is about no entry adds no record, whether or not it is written. -/
theorem Ledger.write_records (hreport : recordOf entry = none) :
    (l.write site env entry).records = l.records := by
  unfold Ledger.write Ledger.records
  split
  · exact List.filterMap_cons_none hreport
  · rfl

end Writing

omit [PydanticTypes F] in
/-- What can be written is, as the last line of the log. -/
theorem Ledger.write_of_writable {site : Site F} {env : RequestEnv F} {record : Record F}
    (hserialisable : Serialisable (auditLogEntry record.entry env.clock.audit.isoformatZ))
    (hreadable : LogReadable site env l.log) :
    ∃ log, EndsIn site log record.entry ∧
      l.write site env record.entry = { l with log, written := record.entry :: l.written } := by
  have happend : ∃ log r, Audit.append site.chain env.audit l.log
      (auditLogEntry record.entry env.clock.audit.isoformatZ) = (log, .ok r) :=
    (append_ok_iff (record.about.strKeys _) (record.about.noChainFields _)).mpr
      ⟨hserialisable, hreadable⟩
  rcases happend with ⟨log, r, happend⟩
  rcases writeLocked_of_append happend with ⟨dir, hwrite⟩
  rcases exists_of_writeLocked hwrite with ⟨s, -, -, -, -, hfinal, hdir⟩
  refine ⟨log, ?_, ?_⟩
  · unfold EndsIn
    rw [hdir, hfinal]
    exact ⟨_, _, s, lookup_insert_base _ _ _⟩
  · unfold Ledger.write writeAuditLog
    rw [happend]

/-- A move of the ledger is one of the system, or leaves it as it is. -/
theorem LedgerStep.system (hstep : LedgerStep l m l') :
    (∃ m', m = .system m' ∧ Step l.system m' l'.system) ∨
      (∀ m', m ≠ .system m') ∧ l'.system = l.system := by
  cases hstep with
  | plain hstep _ => exact Or.inl ⟨_, rfl, hstep⟩
  | lose hstep => exact Or.inl ⟨_, rfl, hstep⟩
  | claim _ hstep => exact Or.inl ⟨_, rfl, hstep⟩
  | reject hfree hfound => exact Or.inl ⟨_, rfl, .reject hfree hfound⟩
  | finish hstep => exact Or.inl ⟨_, rfl, hstep⟩
  | store hcall hfree => exact Or.inl ⟨_, rfl, .store hcall hfree⟩
  | crash hstep => exact Or.inl ⟨_, rfl, hstep⟩
  | write _ _ => exact Or.inr ⟨by simp, by simp⟩
  | report _ => exact Or.inr ⟨by simp, by simp⟩

/-- The system behind a run of the ledger has a run. -/
theorem system_reachable {allowed : Ledger F → LedgerMove F → Prop}
    (h : Reachable Ledger.Starts LedgerStep allowed l) :
    Reachable System.Starts Step (fun _ _ => True) l.system := by
  induction h with
  | start hs => exact .start hs.system
  | move _ _ hmove ih =>
    rcases hmove.system with ⟨m', -, hstep⟩ | ⟨-, hsame⟩
    · exact ih.move trivial hstep
    · rw [hsame]
      exact ih

end Moves

/-! ## The payloads -/

section Payloads

variable {s s' : System F} {m : Move F}

/-- The payloads are mappings. -/
def Mapped (queue : List (Approval F)) : Prop := ∀ e ∈ queue, ∃ payload, e.payload.val = .dict payload

omit [PyRuntime F] [PyDates F] in
theorem exists_of_webhookPayload {v : PyVal F} {payload : WebhookPayload F}
    (h : webhookPayload v = some payload) : ∃ raw, v = .dict raw := by
  cases v with
  | dict raw => exact ⟨raw, rfl⟩
  | _ => cases h

omit [PyRuntime F] [PyDates F] [PydanticTypes F] in
theorem Mapped.prune {queue : List (Approval F)} (h : Mapped queue) : Mapped (pruneQueue queue) :=
  fun e he => h e ((sublist_pruneQueue queue).subset he)

omit [PyRuntime F] [PyDates F] [PydanticTypes F] in
theorem Mapped.update {queue : List (Approval F)} (h : Mapped queue) (id : Uuid)
    (f : Approval F → Approval F) (hf : ∀ x ∈ queue, ∃ y ∈ queue, (f x).payload = y.payload) :
    Mapped (updateEntry queue id f) := by
  intro e he
  rcases List.mem_map.mp he with ⟨x, hx, rfl⟩
  split
  · rcases hf x hx with ⟨y, hy, hsame⟩
    rw [hsame]
    exact h y hy
  · exact h x hx

omit [PyDates F] in
theorem mapped_step (h : Mapped s.queue ∧ Mapped s.file) (hstep : Step s m s') :
    Mapped s'.queue ∧ Mapped s'.file := by
  have hfound : ∀ {apiKey approvalId act : Str} {e : Approval F},
      lookupPending s.queue apiKey approvalId act = .found e → e ∈ s.queue :=
    fun hfound => (findEntry_eq_some (lookupPending_eq_found.mp hfound).1).2
  cases hstep with
  | queue hpasses _ _ _ _ =>
    refine ⟨Mapped.prune fun e he => ?_, h.2⟩
    rcases List.mem_append.mp he with he | he
    · exact h.1 e he
    · rw [List.mem_singleton.mp he]
      exact exists_of_webhookPayload hpasses.valid
  | @lose _ _ _ _ e _ hlookup _ =>
    exact ⟨(h.1.update e.id (fun _ => e.fail lostReason) fun _ _ => ⟨e, hfound hlookup, rfl⟩).prune, h.2⟩
  | @claim _ approver _ _ e _ _ hlookup _ =>
    exact ⟨(h.1.update e.id (fun _ => e.claim approver.apiKey approver.role) fun _ _ =>
      ⟨e, hfound hlookup, rfl⟩).prune, h.2⟩
  | @reject approver _ e _ hlookup =>
    exact ⟨(h.1.update e.id (fun _ => { e.fail (py "Rejected by approver") with
      processed := some (approver.apiKey, approver.role) }) fun _ _ => ⟨e, hfound hlookup, rfl⟩).prune, h.2⟩
  | @save _ _ writes _ =>
    refine ⟨h.1, ?_⟩
    cases writes with
    | false => exact h.2
    | true =>
      show Mapped (loadApprovalQueue (some (queueText s.queue)))
      rw [loadApprovalQueue_queueText]
      intro e he
      rcases List.mem_map.mp he with ⟨x, hx, rfl⟩
      rcases h.1 x hx with ⟨payload, hpayload⟩
      exact ⟨_, (congrArg readBack hpayload).trans (readBack_dict payload)⟩
  | @store _ id result _ _ =>
    refine ⟨(h.1.update id (fun e => e.settle result) fun x hx => ⟨x, hx, ?_⟩).prune, h.2⟩
    cases result <;> rfl
  | crash => exact ⟨h.2, h.2⟩
  | _ => exact h

omit [PyDates F] in
theorem mapped_of_reachable {allowed : System F → Move F → Prop}
    (h : Reachable System.Starts Step allowed s) : Mapped s.queue ∧ Mapped s.file := by
  refine h.invariant (fun s hs => ?_) fun _ _ _ _ hs _ hstep => mapped_step hs hstep
  rw [System.file, hs.queue, hs.stateFile]
  exact ⟨by rintro e ⟨⟩, by rintro e ⟨⟩⟩

end Payloads

/-! ## What a call owes at a phase -/

/-- The entry a call has claimed and has no result for. -/
def Phase.claim : Phase F → Option Uuid
  | .saving (.execute job) | .ready job | .executing job => job.entryId
  | .saving .done | .saving (.rejected _) | .reviewing .. | .checking .. | .recording ..
  | .storing .. => none

/-- The call is about to return. -/
def Phase.closes : Phase F → Bool
  | .saving .done | .saving (.rejected _) | .recording .. | .storing .. => true
  | .saving (.execute _) | .ready _ | .executing _ | .reviewing .. | .checking .. => false

/-- What is owed for a claimed entry is owed by a call that has claimed it, and what is due by
a call that is about to return or has. -/
def Fits (phase : Option (Phase F)) : Option (Debt F) → Prop
  | none => True
  | some (.claimed e _) => ∃ p, phase = some p ∧ p.claim = some e.id
  | some (.due _) => ∀ p, phase = some p → p.closes = true

section Fitting

variable {s s' : System F} {m : Move F} {debts : Nat → Option (Debt F)} {p : Phase F} {i : Nat}

omit [PyRuntime F] [PyDates F] [PydanticTypes F]

theorem Fits.free {debt : Option (Debt F)} (h : Fits (some p) debt) (hclaim : p.claim = none)
    (hcloses : p.closes = false) : debt = none := by
  rcases debt with _ | e | record
  · rfl
  · rcases h with ⟨p', hp', hclaim'⟩
    cases hp'
    rw [hclaim] at hclaim'
    cases hclaim'
  · have hcloses' := h p rfl
    rw [hcloses] at hcloses'
    cases hcloses'

/-- A call goes on with what it has claimed, or to its return. -/
theorem Fits.next {phase' : Option (Phase F)} {debt : Option (Debt F)} (h : Fits (some p) debt)
    (hclaim : ∀ id, p.claim = some id → ∃ p', phase' = some p' ∧ p'.claim = some id)
    (hcloses : p.closes = true → ∀ p', phase' = some p' → p'.closes = true) : Fits phase' debt := by
  rcases debt with _ | e | record
  · trivial
  · rcases h with ⟨p', hp', hclaim'⟩
    cases hp'
    exact hclaim e.id hclaim'
  · exact hcloses (h p rfl)

theorem fits_go (h : ∀ i, Fits (s.calls i) (debts i)) {phase' : Option (Phase F)}
    (hcall : s.calls i = some p)
    (hclaim : ∀ id, p.claim = some id → ∃ p', phase' = some p' ∧ p'.claim = some id)
    (hcloses : p.closes = true → ∀ p', phase' = some p' → p'.closes = true) :
    ∀ j, Fits (Function.update s.calls i phase' j) (debts j) := by
  intro j
  by_cases hji : j = i
  · rw [hji, Function.update_self]
    have hfits := h i
    rw [hcall] at hfits
    exact hfits.next hclaim hcloses
  · rw [Function.update_of_ne hji]
    exact h j

theorem fits_pay (h : ∀ i, Fits (s.calls i) (debts i)) {phase' : Option (Phase F)}
    {debt : Option (Debt F)} (hfits : Fits phase' debt) :
    ∀ j, Fits (Function.update s.calls i phase' j) (Function.update debts i debt j) := by
  intro j
  by_cases hji : j = i
  · rw [hji, Function.update_self, Function.update_self]
    exact hfits
  · rw [Function.update_of_ne hji, Function.update_of_ne hji]
    exact h j

theorem fits_afterExecute {job : Job F} {debt : Option (Debt F)} (answer : Py (Option ExecResult)) :
    Fits (job.afterExecute answer) (Debt.afterExecute job debt answer) := by
  unfold Debt.afterExecute
  split
  · rintro p ⟨⟩
    rfl
  · rintro p ⟨⟩
    rfl
  · trivial

theorem fits_afterReject (e : Approval F) (approver : Approver F) :
    Fits (some (.saving (.rejected e.id))) (Debt.afterReject e approver) := by
  unfold Debt.afterReject
  split
  · rintro p ⟨⟩
    rfl
  · trivial

variable [PyRuntime F] [PydanticTypes F]

/-- A plain move changes no debt. -/
theorem fits_plain (h : ∀ i, Fits (s.calls i) (debts i)) (hnew : debts s.next = none)
    (hstep : Step s m s') (hplain : m.isPlain = true) : ∀ i, Fits (s'.calls i) (debts i) := by
  have hbegin : ∀ phase' i, Fits (Function.update s.calls s.next phase' i) (debts i) := by
    intro phase' i
    by_cases hi : i = s.next
    · rw [hi, hnew]
      trivial
    · rw [Function.update_of_ne hi]
      exact h i
  cases hstep with
  | queue _ _ _ _ _ => exact hbegin _
  | enter _ => exact hbegin _
  | refuse hcall _ => exact fits_go h hcall (by simp [Phase.claim]) (by simp [Phase.closes])
  | @save _ next _ hcall =>
    refine fits_go h hcall ?_ ?_
    · intro id hclaim
      cases next with
      | execute job => exact ⟨.ready job, rfl, hclaim⟩
      | _ => cases hclaim
    · intro hcloses p' hp'
      rcases Next.phase_eq_some hp' with ⟨job, rfl, rfl⟩
      cases hcloses
  | read _ _ _ => exact hbegin _
  | cool hcall _ => exact fits_go h hcall (by simp [Phase.claim]) (by simp [Phase.closes])
  | pass hcall _ => exact fits_go h hcall (by simp [Phase.claim]) (by simp [Phase.closes])
  | @start _ job hcall =>
    refine fits_go h hcall (fun id hclaim => ⟨.executing job, rfl, hclaim⟩) ?_
    simp [Phase.closes]
  | record hcall _ =>
    refine fits_go h hcall (by simp [Phase.claim]) fun _ p' hp' => ?_
    rcases Job.afterRecord_eq_some hp' with ⟨id, -, rfl⟩
    rfl
  | tick _ => exact h
  | _ => cases hplain

theorem Step.next_le (hstep : Step s m s') : s.next ≤ s'.next := by
  cases hstep with
  | queue _ _ _ _ _ => exact Nat.le_succ _
  | enter _ => exact Nat.le_succ _
  | reject _ _ => exact Nat.le_succ _
  | read _ _ _ => exact Nat.le_succ _
  | _ => exact Nat.le_refl _

end Fitting

/-! ## Statuses -/

section Statuses

variable {status : Uuid → Option Status} {queue : List (Approval F)} {e : Approval F} {id : Uuid}

/-- Processed entries have the status they left `pending` for. -/
def Agrees (status : Uuid → Option Status) (queue : List (Approval F)) : Prop :=
  ∀ e ∈ queue, e.status ≠ .pending → status e.id = some e.status

omit [PyRuntime F] [PyDates F] [PydanticTypes F]

theorem Agrees.prune (h : Agrees status queue) : Agrees status (pruneQueue queue) :=
  fun e he => h e ((sublist_pruneQueue queue).subset he)

theorem Agrees.append (h : Agrees status queue) (hpending : e.status = .pending) :
    Agrees status (queue ++ [e]) := by
  intro x hx hprocessed
  rcases List.mem_append.mp hx with hx | hx
  · exact h x hx hprocessed
  · rw [List.mem_singleton.mp hx] at hprocessed
    exact absurd hpending hprocessed

/-- An entry leaves `pending`, -/
theorem Agrees.leave (h : Agrees status queue) (e : Approval F) :
    Agrees (Function.update status e.id (some e.status)) (updateEntry queue e.id fun _ => e) := by
  intro x hx hprocessed
  rcases List.mem_map.mp hx with ⟨y, hy, rfl⟩
  split at hprocessed
  · next hid =>
    rw [if_pos hid]
    exact Function.update_self _ _ _
  · next hid =>
    rw [if_neg hid]
    exact (Function.update_of_ne hid _ _).trans (h y hy hprocessed)

/-- which those of a queue without it do not notice. -/
theorem Agrees.of_new (h : Agrees status queue)
    (hnew : ∀ x ∈ queue, x.status ≠ .pending → x.id ≠ id) (value : Option Status) :
    Agrees (Function.update status id value) queue := by
  intro x hx hprocessed
  exact (Function.update_of_ne (hnew x hx hprocessed) _ _).trans (h x hx hprocessed)

theorem Agrees.settle (h : Agrees status queue) (id : Uuid) (result : ExecResult) :
    Agrees status (updateEntry queue id fun e => e.settle (some result)) := by
  intro x hx hprocessed
  rcases List.mem_map.mp hx with ⟨y, hy, rfl⟩
  split at hprocessed
  · next hid =>
    rw [if_pos hid]
    exact h y hy hprocessed
  · next hid =>
    rw [if_neg hid]
    exact h y hy hprocessed

variable [PyRuntime F]

theorem Agrees.reread (h : Agrees status queue) : Agrees status (queue.map Approval.reread) := by
  intro x hx hprocessed
  rcases List.mem_map.mp hx with ⟨y, hy, rfl⟩
  exact h y hy hprocessed

variable [PydanticTypes F] {s s' : System F} {m : Move F}

theorem agrees_plain (h : Agrees status s.queue ∧ Agrees status s.file) (hstep : Step s m s')
    (hplain : m.isPlain = true) : Agrees status s'.queue ∧ Agrees status s'.file := by
  cases hstep with
  | queue _ _ _ _ _ => exact ⟨(h.1.append rfl).prune, h.2⟩
  | @save _ _ writes _ =>
    refine ⟨h.1, ?_⟩
    cases writes with
    | false => exact h.2
    | true =>
      show Agrees status (loadApprovalQueue (some (queueText s.queue)))
      rw [loadApprovalQueue_queueText]
      exact h.1.reread
  | lose _ _ _ => cases hplain
  | claim _ _ _ => cases hplain
  | reject _ _ => cases hplain
  | store _ _ => cases hplain
  | crash => cases hplain
  | _ => exact h

end Statuses

/-! ## The invariant -/

section Invariant

variable {l l' : Ledger F} {m : LedgerMove F}

/-- Each call owes what fits its phase, each debt is owed or written once, what has left
`pending` has a status and is not pending, and the processed entries have their statuses. -/
structure Recorded (l : Ledger F) : Prop where
  fits : ∀ i, Fits (l.system.calls i) (l.debts i)
  bounded : ∀ i, l.system.next ≤ i → l.debts i = none
  stores : ∀ i id, l.system.calls i ≠ some (.storing id none)
  balanced : Owed.Balanced l.account
  left : ∀ id, l.status id ≠ none ↔ id ∈ leftIds l.system.history
  final : ∀ id, l.status id ≠ some .pending
  processed : ∀ id ∈ leftIds l.system.history,
    id ∈ l.system.used ∧ id ∉ pendingIds l.system.queue
  agrees : Agrees l.status l.system.queue ∧ Agrees l.status l.system.file

omit [PyDates F] [PydanticTypes F] in
theorem recorded_starts (h : l.Starts) : Recorded l := by
  have hfile : l.system.file = [] := by
    rw [System.file, h.system.stateFile]
    rfl
  constructor
  · intro i
    rw [h.debts]
    trivial
  · intro i _
    rw [h.debts]
  · intro i id
    rw [h.system.calls]
    simp
  · unfold Ledger.account Ledger.records
    rw [h.debts, h.status, h.written]
    exact Owed.balanced_nil
  · intro id
    rw [h.status, h.system.history]
    simp [leftIds]
  · intro id
    rw [h.status]
    simp
  · rw [h.system.history]
    rintro id ⟨⟩
  · rw [h.system.queue, hfile]
    exact ⟨by rintro e ⟨⟩, by rintro e ⟨⟩⟩

theorem fits_step (h : Recorded l) (hstep : LedgerStep l m l') :
    ∀ i, Fits (l'.system.calls i) (l'.debts i) := by
  cases hstep with
  | plain hstep hplain => exact fits_plain h.fits (h.bounded _ le_rfl) hstep hplain
  | lose hstep =>
    cases hstep with
    | lose hcall _ _ =>
      exact fits_go h.fits hcall (by simp [Phase.claim]) (by simp [Phase.closes])
  | claim _ hstep =>
    cases hstep with
    | claim _ _ _ => exact fits_pay h.fits ⟨_, rfl, rfl⟩
  | reject _ _ => exact fits_pay h.fits (fits_afterReject _ _)
  | finish hstep =>
    cases hstep with
    | finish _ => exact fits_pay h.fits (fits_afterExecute _)
  | store hcall _ =>
    refine fits_go h.fits hcall (by simp [Phase.claim]) ?_
    rintro _ p ⟨⟩
    rfl
  | crash _ => exact fun _ => trivial
  | @write i record site env _ _ =>
    intro j
    simp only [Ledger.write_system]
    by_cases hji : j = i
    · rw [hji, Function.update_self]
      trivial
    · rw [Function.update_of_ne hji]
      exact h.fits j
  | report _ =>
    simp only [Ledger.write_system, Ledger.write_debts]
    exact h.fits

theorem bounded_step (hnumbers : Numbered l.system) (h : Recorded l) (hstep : LedgerStep l m l') :
    ∀ i, l'.system.next ≤ i → l'.debts i = none := by
  -- a call that is running has a number below `next`
  have hold : ∀ {i : Nat} {p : Phase F} {debt : Option (Debt F)} {j : Nat},
      l.system.calls i = some p → l.system.next ≤ j → Function.update l.debts i debt j = none := by
    intro i p debt j hcall hj
    have hji : j ≠ i := by
      rintro rfl
      rw [hnumbers j hj] at hcall
      cases hcall
    rw [Function.update_of_ne hji]
    exact h.bounded j hj
  cases hstep with
  | plain hstep _ => exact fun j hj => h.bounded j (hstep.next_le.trans hj)
  | lose hstep => exact fun j hj => h.bounded j (hstep.next_le.trans hj)
  | claim hcall hstep => exact fun j hj => hold hcall (hstep.next_le.trans hj)
  | reject _ _ =>
    intro j hj
    change l.system.next + 1 ≤ j at hj
    change Function.update l.debts l.system.next _ j = none
    rw [Function.update_of_ne (by omega)]
    exact h.bounded j (by omega)
  | finish hstep =>
    intro j hj
    have hle := hstep.next_le.trans hj
    cases hstep with
    | finish hcall => exact hold hcall hle
  | store _ _ => exact h.bounded
  | crash _ => exact fun _ _ => rfl
  | @write i record site env _ _ =>
    intro j hj
    simp only [Ledger.write_system] at hj
    by_cases hji : j = i
    · rw [hji]
      exact Function.update_self _ _ _
    · exact (Function.update_of_ne hji _ _).trans (h.bounded j hj)
  | report _ =>
    simp only [Ledger.write_system, Ledger.write_debts]
    exact h.bounded

omit [PyDates F] in
/-- Where every claimed entry gets a result, nothing else is stored. -/
theorem stores_step {s s' : System F} {m : Move F} (h : ∀ i id, s.calls i ≠ some (.storing id none))
    (hcompletes : ∀ i job answer, m = .finish i job answer → job.entryId ≠ none →
      ∃ result, answer = .ok (some result))
    (hstep : Step s m s') : ∀ i id, s'.calls i ≠ some (.storing id none) := by
  have hother : ∀ {i : Nat} {phase' : Option (Phase F)}, (∀ id, phase' ≠ some (.storing id none)) →
      ∀ j id, Function.update s.calls i phase' j ≠ some (.storing id none) := by
    intro i phase' hphase' j id hstoring
    rcases update_calls_eq_some hstoring with ⟨-, hsame⟩ | ⟨-, hold⟩
    · exact hphase' id hsame
    · exact h j id hold
  -- only `finish` sends a call to store, and then with a result
  cases hstep with
  | queue _ _ _ _ _ => exact hother (by simp)
  | enter _ => exact hother (by simp)
  | refuse _ _ => exact hother (by simp)
  | lose _ _ _ => exact hother (by simp)
  | claim _ _ _ => exact hother (by simp)
  | reject _ _ => exact hother (by simp)
  | @save _ next _ _ =>
    refine hother fun id hphase => ?_
    rcases Next.phase_eq_some hphase with ⟨job, -, hready⟩
    cases hready
  | read _ _ _ => exact hother (by simp)
  | cool _ _ => exact hother (by simp)
  | pass _ _ => exact hother (by simp)
  | start _ => exact hother (by simp)
  | @finish i job executor _ =>
    refine hother fun id hphase => ?_
    rcases Job.afterExecute_eq_some hphase with ⟨id', hid, -⟩ | ⟨result, -, hrecording⟩
    · rcases hcompletes i job _ rfl (by simp [hid]) with ⟨result, hresult⟩
      rw [hresult] at hphase
      cases hphase
    · cases hrecording
  | @record _ job result _ _ _ =>
    refine hother fun id hphase => ?_
    rcases Job.afterRecord_eq_some hphase with ⟨id', -, hstoring⟩
    cases hstoring
  | store _ _ => exact hother (by simp)
  | tick _ => exact h
  | crash => simp

omit [PyDates F] in
/-- What has left `pending` stays so, unless it is read back. -/
theorem processed_step {s s' : System F} {m : Move F} (hs : Consistent s)
    (h : ∀ id ∈ leftIds s.history, id ∈ s.used ∧ id ∉ pendingIds s.queue)
    (hfile : m = .crash → ∀ id ∈ leftIds s.history, id ∉ pendingIds s.file) (hstep : Step s m s') :
    ∀ id ∈ leftIds s'.history, id ∈ s'.used ∧ id ∉ pendingIds s'.queue := by
  intro id hid
  rw [hstep.queuedIds.2] at hid
  rcases List.mem_append.mp hid with hid | hid
  · have hleaves := Option.mem_toList.mp hid
    exact ⟨hstep.used_subset (hs.queue.pending_used (hstep.pending_of_leaves hleaves)),
      hstep.not_mem_pendingIds hs hleaves⟩
  · rcases h id hid with ⟨hused, hpending⟩
    refine ⟨hstep.used_subset hused, fun hmem => ?_⟩
    rcases hstep.pending_of_mem hs hmem with ⟨hmem, -⟩ | ⟨-, hfresh⟩ | ⟨rfl, hmem⟩
    · exact hpending hmem
    · exact hfresh hused
    · exact hfile rfl id hid hmem

omit [PyRuntime F] [PyDates F] [PydanticTypes F] in
theorem Move.leaves_of_plain {m : Move F} (hplain : m.isPlain = true) : m.leaves = none := by
  cases m with
  | lose id => cases hplain
  | claim call entry task cooldowns => cases hplain
  | reject id => cases hplain
  | _ => rfl

/-- What leaves `pending` gets a status. -/
theorem status_step (h : Recorded l) (hstep : LedgerStep l m l') :
    ∀ id, l'.status id ≠ none ↔ id ∈ leftIds l'.system.history := by
  have hleave : ∀ {id : Uuid} {status : Status} {s : System F} {m : Move F}, m.leaves = some id →
      Step l.system m s →
      ∀ id', Function.update l.status id (some status) id' ≠ none ↔ id' ∈ leftIds s.history := by
    intro id status s m hleaves hstep id'
    rw [hstep.queuedIds.2, hleaves, List.mem_append, Option.mem_toList, ← h.left id']
    by_cases hid : id' = id
    · rw [hid, Function.update_self]
      simp
    · rw [Function.update_of_ne hid]
      simp [Ne.symm hid]
  have hsame : ∀ {s : System F} {m : Move F}, m.leaves = none → Step l.system m s →
      ∀ id', l.status id' ≠ none ↔ id' ∈ leftIds s.history := by
    intro s m hleaves hstep id'
    rw [hstep.queuedIds.2, hleaves]
    exact h.left id'
  cases hstep with
  | plain hstep hplain => exact hsame (Move.leaves_of_plain hplain) hstep
  | lose hstep => exact hleave rfl hstep
  | claim _ hstep => exact hleave rfl hstep
  | reject hfree hfound => exact hleave rfl (.reject hfree hfound)
  | finish hstep => exact hsame rfl hstep
  | @store i id result hcall hfree =>
    cases result with
    -- only a result is stored, so nothing leaves here
    | none => exact absurd hcall (h.stores i id)
    | some result => exact hsame rfl (.store hcall hfree)
  | crash hstep => exact hsame rfl hstep
  | write _ _ =>
    simp only [Ledger.write_system, Ledger.write_status]
    exact h.left
  | report _ =>
    simp only [Ledger.write_system, Ledger.write_status]
    exact h.left

theorem final_step (h : Recorded l) (hstep : LedgerStep l m l') : ∀ id, l'.status id ≠ some .pending := by
  have hleave : ∀ {id : Uuid} {status : Status}, status ≠ .pending →
      ∀ id', Function.update l.status id (some status) id' ≠ some .pending := by
    intro id status hstatus id'
    by_cases hid : id' = id
    · rw [hid, Function.update_self]
      simpa using hstatus
    · rw [Function.update_of_ne hid]
      exact h.final id'
  cases hstep with
  | lose _ => exact hleave (by simp)
  | claim _ _ => exact hleave (by simp)
  | reject _ _ => exact hleave (by simp)
  | @store _ _ result _ _ =>
    cases result with
    | none => exact hleave (by simp)
    | some result => exact h.final
  | write _ _ =>
    simp only [Ledger.write_status]
    exact h.final
  | report _ =>
    simp only [Ledger.write_status]
    exact h.final
  | _ => exact h.final

theorem agrees_ledger (hs : Consistent l.system) (h : Recorded l) (hstep : LedgerStep l m l') :
    Agrees l'.status l'.system.queue ∧ Agrees l'.status l'.system.file := by
  -- no processed entry of the file has the id of a pending one
  have hnew : ∀ {apiKey approvalId act : Str} {e : Approval F},
      lookupPending l.system.queue apiKey approvalId act = .found e →
      ∀ x ∈ l.system.file, x.status ≠ .pending → x.id ≠ e.id := by
    intro apiKey approvalId act e hfound x hx hprocessed hid
    rcases lookupPending_eq_found.mp hfound with ⟨hfind, hpending, -⟩
    exact hs.behind x hx hprocessed
      (mem_pendingIds.mpr ⟨e, (findEntry_eq_some hfind).2, hid.symm, hpending⟩)
  cases hstep with
  | plain hstep hplain => exact agrees_plain h.agrees hstep hplain
  | lose hstep =>
    cases hstep with
    | @lose _ _ _ _ e _ hfound _ =>
      exact ⟨(h.agrees.1.leave (e.fail lostReason)).prune, h.agrees.2.of_new (hnew hfound) _⟩
  | claim _ hstep =>
    cases hstep with
    | @claim _ approver _ _ _ _ _ hfound _ =>
      exact ⟨(h.agrees.1.leave (Approval.claim _ approver.apiKey approver.role)).prune,
        h.agrees.2.of_new (hnew hfound) _⟩
  | @reject approver _ e _ hfound =>
    exact ⟨(h.agrees.1.leave { e.fail (py "Rejected by approver") with
        processed := some (approver.apiKey, approver.role) }).prune,
      h.agrees.2.of_new (hnew hfound) _⟩
  | finish hstep =>
    cases hstep
    exact h.agrees
  | @store i id result hcall _ =>
    cases result with
    | none => exact absurd hcall (h.stores i id)
    | some result => exact ⟨(h.agrees.1.settle id result).prune, h.agrees.2⟩
  | crash hstep =>
    cases hstep
    exact ⟨h.agrees.2, h.agrees.2⟩
  | write _ _ =>
    simp only [Ledger.write_system, Ledger.write_status]
    exact h.agrees
  | report _ =>
    simp only [Ledger.write_system, Ledger.write_status]
    exact h.agrees

omit [PyRuntime F] [PyDates F] [PydanticTypes F] in
/-- The account after a call comes to owe something for an entry. -/
theorem account_incur {s : System F} {i : Nat} {debt : Debt F} {id : Uuid} {status : Status}
    (habout : debt.about = (id, status)) :
    (⟨s, Function.update l.debts i (some debt), Function.update l.status id (some status), l.log,
        l.written⟩ : Ledger F).account =
      ⟨Function.update l.account.incurred id (some status),
        Function.update l.account.owed i (some (id, status)), l.account.paid⟩ := by
  have howed : (fun j => (Function.update l.debts i (some debt) j).map Debt.about) =
      Function.update l.account.owed i (some (id, status)) := by
    funext j
    by_cases hji : j = i
    · rw [hji, Function.update_self, Function.update_self, Option.map_some, habout]
    · rw [Function.update_of_ne hji, Function.update_of_ne hji]
      rfl
  unfold Ledger.account at howed ⊢
  rw [howed]
  rfl

theorem balanced_step (hmapped : Mapped l.system.queue) (h : Recorded l)
    (haccounted : Accounted l m) (hstep : LedgerStep l m l') : Owed.Balanced l'.account := by
  -- what is pending has not left
  have hnew : ∀ {apiKey approvalId act : Str} {e : Approval F},
      lookupPending l.system.queue apiKey approvalId act = .found e → l.status e.id = none := by
    intro apiKey approvalId act e hfound
    rcases lookupPending_eq_found.mp hfound with ⟨hfind, hpending, -⟩
    by_contra hleft
    exact (h.processed e.id ((h.left e.id).mp hleft)).2
      (mem_pendingIds.mpr ⟨e, (findEntry_eq_some hfind).2, rfl, hpending⟩)
  have howes : ∀ {i : Nat}, l.debts i = none → l.account.owed i = none := by
    intro i hdebt
    show (l.debts i).map Debt.about = none
    rw [hdebt, Option.map_none]
  cases hstep with
  | plain _ _ => exact h.balanced
  | lose _ => exact absurd rfl (haccounted.permitted _)
  | @claim i _ _ _ _ _ _ hcall hstep =>
    cases hstep with
    | claim _ hfound _ =>
      rw [account_incur rfl]
      have hfits := h.fits i
      rw [hcall] at hfits
      exact h.balanced.incur (hnew hfound) (howes (hfits.free rfl rfl))
  | @reject approver _ e _ hfound =>
    rcases hmapped e (findEntry_eq_some (lookupPending_eq_found.mp hfound).1).2 with ⟨payload, hpayload⟩
    have hdebt : Debt.afterReject e approver =
        some (.due ⟨_, _, _, .rejected e payload approver.apiKey approver.role⟩) := by
      unfold Debt.afterReject
      rw [hpayload]
    rw [hdebt, account_incur rfl]
    exact h.balanced.incur (hnew hfound) (howes (h.bounded _ le_rfl))
  | @finish i job answer s hstep =>
    have hsame : (fun j => (Function.update l.debts i (Debt.afterExecute job (l.debts i) answer) j).map
        Debt.about) = fun j => (l.debts j).map Debt.about := by
      funext j
      by_cases hji : j = i
      · subst hji
        rw [Function.update_self]
        have hfits := h.fits j
        cases hstep with
        | @finish _ _ executor hcall =>
          rw [hcall] at hfits
          rcases hdebt : l.debts j with _ | ⟨e, approver⟩ | record
          · rfl
          · rw [hdebt] at hfits
            rcases hfits with ⟨p, hp, hclaim⟩
            cases hp
            rcases haccounted.completes j job _ rfl
              (by rw [show job.entryId = some e.id from hclaim]; simp) with ⟨result, hresult⟩
            rw [hresult]
            rfl
          · rw [hdebt] at hfits
            cases hfits _ rfl
      · rw [Function.update_of_ne hji]
    have hbalanced := h.balanced
    unfold Ledger.account at hbalanced ⊢
    rw [hsame]
    exact hbalanced
  | @store i id result hcall _ =>
    cases result with
    | none => exact absurd hcall (h.stores i id)
    | some result => exact h.balanced
  | crash _ =>
    have hsame : l.debts = fun _ => none := funext (haccounted.restarts rfl).1
    have hbalanced := h.balanced
    unfold Ledger.account at hbalanced
    rw [hsame] at hbalanced
    exact hbalanced
  | @write i record site env hdebt _ =>
    rcases haccounted.writable i record site env rfl with ⟨hserialisable, hreadable⟩
    rcases Ledger.write_of_writable hserialisable hreadable with ⟨log, -, hwrite⟩
    have howed : l.account.owed i = some (record.id, record.status) := by
      show (l.debts i).map Debt.about = _
      rw [hdebt]
      rfl
    have hpaid := h.balanced.pay howed
    have hnone : (fun j => (Function.update l.debts i none j).map Debt.about) =
        Function.update l.account.owed i none := by
      funext j
      by_cases hji : j = i
      · rw [hji, Function.update_self, Function.update_self, Option.map_none]
      · rw [Function.update_of_ne hji, Function.update_of_ne hji]
        rfl
    have hrecords : (record.entry :: l.written).filterMap recordOf =
        (record.id, record.status) :: l.account.paid :=
      List.filterMap_cons_some record.about.recordOf
    rw [hwrite]
    unfold Ledger.account Ledger.records
    rw [hnone, hrecords]
    exact hpaid
  | report hreport =>
    have hbalanced := h.balanced
    unfold Ledger.account at hbalanced ⊢
    rw [Ledger.write_records l _ _ _ hreport.recordOf, Ledger.write_status, Ledger.write_debts]
    exact hbalanced

theorem recorded_step (hs : Consistent l.system) (hnumbers : Numbered l.system)
    (hmapped : Mapped l.system.queue) (h : Recorded l) (haccounted : Accounted l m)
    (hstep : LedgerStep l m l') : Recorded l' := by
  have hsystem : (∀ i id, l'.system.calls i ≠ some (.storing id none)) ∧
      ∀ id ∈ leftIds l'.system.history, id ∈ l'.system.used ∧ id ∉ pendingIds l'.system.queue := by
    rcases hstep.system with ⟨m', rfl, hmove⟩ | ⟨-, hsame⟩
    · exact ⟨stores_step h.stores (fun i job answer hm => haccounted.completes i job answer (hm ▸ rfl))
        hmove, processed_step hs h.processed (fun hm => (haccounted.restarts (hm ▸ rfl)).2) hmove⟩
    · rw [hsame]
      exact ⟨h.stores, h.processed⟩
  exact ⟨fits_step h hstep, bounded_step hnumbers h hstep, hsystem.1,
    balanced_step hmapped h haccounted hstep, status_step h hstep, final_step h hstep,
    hsystem.2, agrees_ledger hs h hstep⟩

theorem recorded_of_reachable (h : Reachable Ledger.Starts LedgerStep Accounted l) : Recorded l := by
  refine h.invariant (fun _ => recorded_starts) fun l m l' hl hrecorded haccounted hstep => ?_
  have hsystem := system_reachable hl
  exact recorded_step (consistent_of_reachable hsystem) (numbered_of_reachable hsystem)
    (mapped_of_reachable hsystem).1 hrecorded haccounted hstep

end Invariant

/-! ## Every run -/

section Runs

variable {l : Ledger F}

/-- The call is in progress, or is about to write. -/
def Ledger.InProgress (l : Ledger F) (i : Nat) : Prop :=
  (∃ phase, l.system.calls i = some phase) ∨ ∃ record, l.debts i = some (.due record)

/-- In every state each entry that has left `pending` has a status it left for, which it has in
the queue and in its file. A call in progress owes the log an audit entry with that id and
status, and there is none in it, or no call does and there is one. There are no others. -/
theorem approvals_recorded (h : Reachable Ledger.Starts LedgerStep Accounted l) :
    (∀ id ∈ leftIds l.system.history, ∃ status, l.status id = some status ∧ status ≠ .pending ∧
      ((∃ i debt, l.debts i = some debt ∧ debt.about = (id, status) ∧ l.InProgress i) ∧
          l.records.filter (fun record => record.1 = id) = [] ∨
        (∀ i debt, l.debts i = some debt → debt.about.1 ≠ id) ∧
          l.records.filter (fun record => record.1 = id) = [(id, status)])) ∧
      (∀ id status, (id, status) ∈ l.records → id ∈ leftIds l.system.history) ∧
      ∀ e ∈ l.system.queue ++ l.system.file, e.status ≠ .pending → l.status e.id = some e.status := by
  have hrecorded := recorded_of_reachable h
  refine ⟨fun id hid => ?_, fun id status hmem => ?_, fun e he => ?_⟩
  -- what has left has a status, which is owed by one call or written, never both
  · rcases Option.ne_none_iff_exists'.mp ((hrecorded.left id).mpr hid) with ⟨status, hstatus⟩
    refine ⟨status, hstatus, ?_, ?_⟩
    · rintro rfl
      exact hrecorded.final id hstatus
    · rcases hrecorded.balanced.cases hstatus with ⟨i, howed, hunpaid⟩ | ⟨howed, hpaid⟩
      · rcases Option.map_eq_some_iff.mp howed with ⟨debt, hdebt, habout⟩
        refine Or.inl ⟨⟨i, debt, hdebt, habout, ?_⟩, hunpaid⟩
        cases debt with
        | claimed e approver =>
          have hfits := hrecorded.fits i
          rw [hdebt] at hfits
          rcases hfits with ⟨phase, hphase, -⟩
          exact Or.inl ⟨phase, hphase⟩
        | due record => exact Or.inr ⟨record, hdebt⟩
      · refine Or.inr ⟨fun i debt hdebt habout => ?_, hpaid⟩
        refine howed i debt.about.2 ?_
        show (l.debts i).map Debt.about = _
        rw [hdebt, Option.map_some, ← habout]
  · have hincurred : l.status id = some status := hrecorded.balanced.paid id status hmem
    exact (hrecorded.left id).mp (by rw [hincurred]; simp)
  · rcases List.mem_append.mp he with he | he
    · exact hrecorded.agrees.1 e he
    · exact hrecorded.agrees.2 e he

end Runs

/-! ## Examples -/

section Plain

variable (allowed : Ledger F → LedgerMove F → Prop)

/-- A run of plain moves is one of the ledger, with any log. -/
theorem ledger_of_plain (log : Audit.Dir) (hallowed : ∀ l m, m.isPlain = true → allowed l (.system m))
    {s : System F} (h : Reachable System.Starts Step (fun _ m => m.isPlain = true) s) :
    Reachable Ledger.Starts LedgerStep allowed ⟨s, fun _ => none, fun _ => none, log, []⟩ := by
  induction h with
  | start hs => exact .start ⟨hs, rfl, rfl, rfl⟩
  | @move s s' m _ hplain hstep ih => exact ih.move (hallowed _ m hplain) (.plain hstep hplain)

omit [PydanticTypes F] in
theorem accounted_plain (l : Ledger F) {m : Move F} (hplain : m.isPlain = true) :
    Accounted l (.system m) := by
  constructor
  · rintro id ⟨⟩
    cases hplain
  · rintro i job answer ⟨⟩
    cases hplain
  · rintro i record site env ⟨⟩
  · rintro ⟨⟩
    cases hplain

end Plain

/-- The example request is queued. -/
theorem queued_ledger (allowed : Ledger NanFloat → LedgerMove NanFloat → Prop)
    (action : ActionConfig NanFloat) (hcontroller : action.defaultController = some (py "local"))
    (hnonempty : action.isEmpty = false)
    (hallowed : ∀ l m, m.isPlain = true → allowed l (.system m)) :
    ∃ s : System NanFloat, Reachable Ledger.Starts LedgerStep allowed
        ⟨s, fun _ => none, fun _ => none, exampleDir [], []⟩ ∧
      s.queue = [exampleEntry] ∧ s.calls = (fun _ => none) ∧ s.cooldowns = (fun _ => none) ∧
      s.holder = none ∧ s.now = 0 ∧ leftIds s.history = [] := by
  have hplain : ∀ (_ : System NanFloat),
      ∀ m ∈ ([.queue exampleEntry.id, .save true] : List (Move NanFloat)), m.isPlain = true := by
    intro _ m hm
    simp only [List.mem_cons, List.not_mem_nil, or_false] at hm
    rcases hm with rfl | rfl <;> rfl
  rcases queued_run (passes_example hcontroller hnonempty true) rfl exampleEntry.id (fun _ => none)
    hplain with ⟨s, hrun, hqueue, hcalls, hcooldowns, hholder, -, -, hnow, hhistory⟩
  refine ⟨s, ledger_of_plain allowed _ hallowed hrun, hqueue, hcalls, hcooldowns, hholder, hnow, ?_⟩
  rw [hhistory]
  rfl

theorem found_example {s : System NanFloat} (hqueue : s.queue = [exampleEntry]) (act : Str) :
    lookupPending s.queue (exampleApprover exampleAction).apiKey exampleEntry.id.val act =
      .found exampleEntry := by
  rw [hqueue, lookupPending_eq_found]
  refine ⟨?_, rfl, by decide⟩
  unfold findEntry
  rw [List.find?_singleton, if_pos (decide_eq_true rfl)]

/-- The audit entry of a rejection of the example entry. -/
def exampleRecord : Record NanFloat :=
  ⟨_, _, _, .rejected exampleEntry
    [(.str (py "event_type"), .str (py "check")), (.str (py "approval_required"), .bool true)]
    (exampleApprover exampleAction).apiKey (exampleApprover exampleAction).role⟩

theorem serialisable_exampleRecord (timestamp : Str) :
    Serialisable (auditLogEntry exampleRecord.entry timestamp) :=
  ⟨exampleRecord.about.strKeys timestamp, rfl, rfl, rfl⟩

/-- The example request is rejected, which is still to be written, -/
theorem rejected_ledger : ∃ (l : Ledger NanFloat) (i : Nat),
    Reachable Ledger.Starts LedgerStep Accounted l ∧ leftIds l.system.history = [exampleEntry.id] ∧
      l.debts = Function.update (fun _ => none) i (some (.due exampleRecord)) ∧
      l.system.calls i = none ∧ l.log = exampleDir [] := by
  rcases queued_ledger Accounted exampleAction rfl rfl accounted_plain with
    ⟨s, h₀, hqueue, -, -, hfree, -, hhistory⟩
  have h₁ := h₀.move ⟨by simp, by simp, by simp, by simp⟩
    (@LedgerStep.reject NanFloat _ _ _ _ (exampleApprover exampleAction) _ _ hfree
      (found_example hqueue _))
  have h₂ := h₁.move (accounted_plain _ rfl)
    (.plain (@Step.save NanFloat _ _ _ s.next _ true (Function.update_self _ _ _)) rfl)
  refine ⟨_, s.next, h₂, ?_, rfl, Function.update_self _ _ _, rfl⟩
  show exampleEntry.id :: leftIds s.history = _
  rw [hhistory]

/-- and then the log has it once. -/
theorem approvals_recorded_example : ∃ (l : Ledger NanFloat) (status : Status),
    leftIds l.system.history = [exampleEntry.id] ∧ l.status exampleEntry.id = some status ∧
      l.records.filter (fun record => record.1 = exampleEntry.id) = [(exampleEntry.id, status)] := by
  rcases rejected_ledger with ⟨l, i, h, hleft, hdebts, hcall, hlog⟩
  have hdebt : l.debts i = some (.due exampleRecord) := by
    rw [hdebts, Function.update_self]
  have haccounted : Accounted l (.write i exampleRecord
      (exampleSite (.literal exampleKeys) exampleAction []) (exampleRequestEnv (.steady []))) := by
    refine ⟨by simp, by simp, ?_, by simp⟩
    rintro _ _ _ _ ⟨⟩
    rw [hlog]
    exact ⟨serialisable_exampleRecord _, logReadable_exampleDir _ _ _ _⟩
  rcases (⟨_, h.move haccounted (.write hdebt hcall), Ledger.write_system _ _ _ _, fun j => by
      show Function.update l.debts i none j = none
      rw [hdebts, Function.update_idem, Function.update_eq_self_iff.mpr rfl]⟩ :
    ∃ l' : Ledger NanFloat, Reachable Ledger.Starts LedgerStep Accounted l' ∧
      l'.system = l.system ∧ ∀ j, l'.debts j = none) with ⟨l', hwritten, hsystem, hnone⟩
  have hleft' : leftIds l'.system.history = [exampleEntry.id] := by
    rw [hsystem, hleft]
  rcases (approvals_recorded hwritten).1 exampleEntry.id (by simp [hleft']) with
    ⟨status, hstatus, -, ⟨⟨j, debt, howed, -⟩, -⟩ | ⟨-, hrecords⟩⟩
  · rw [hnone j] at howed
    cases howed
  · exact ⟨l', status, hleft', hstatus, hrecords⟩

omit [PyRuntime F] [PyDates F] [PydanticTypes F] in
theorem afterExecute_none {job : Job F} {debts : Nat → Option (Debt F)} {i : Nat}
    (h : ∀ k, k ≠ i → debts k = none) (j : Nat) :
    Function.update debts i (Debt.afterExecute job (debts i) (.ok none)) j = none := by
  by_cases hji : j = i
  · rw [hji, Function.update_self]
    rcases debts i with _ | e | record <;> rfl
  · rw [Function.update_of_ne hji]
    exact h j hji

/-- The site of the examples, where `operator-key` may execute nothing any more. -/
def narrowedApprover : Approver NanFloat where
  apiKey := py "admin-key"
  site := exampleSite (.literal [(py "admin-key", .role (py "admin")),
      (py "operator-key", .scoped (some (py "operator")) (some []) none)])
    exampleAction [(py "local", exampleController)]
  reads := .steady []
  permitted := rfl

/-- An action that is nothing to execute. -/
def hollowAction : ActionConfig NanFloat := { exampleAction with command := none }

/-- The entry was rejected, nothing is in progress, and the log has nothing about it. -/
def Unrecorded (l : Ledger F) (e : Approval F) : Prop :=
  l.system.queue = [e] ∧ e.id ∈ leftIds l.system.history ∧ l.status e.id = some .rejected ∧
    (∀ i, l.system.calls i = none ∧ l.debts i = none) ∧
    l.records.filter (fun record => record.1 = e.id) = []

omit [PyRuntime F] [PyDates F] [PydanticTypes F] in
theorem pruneQueue_updateEntry {e : Approval F} (f : Approval F → Approval F) :
    pruneQueue (updateEntry [e] e.id f) = [f e] := by
  rw [updateEntry_singleton, pruneQueue_singleton]

/-- The requester has lost its rights when the example request is approved. -/
theorem unrecorded_lost : ∃ l : Ledger NanFloat,
    Reachable Ledger.Starts LedgerStep (fun _ _ => True) l ∧
      Unrecorded l (exampleEntry.fail lostReason) := by
  rcases queued_ledger (fun _ _ => True) exampleAction rfl rfl fun _ _ _ => trivial with
    ⟨s, h₀, hqueue, hcalls, hcooldowns, hfree, hnow, -⟩
  have h₁ := h₀.move trivial (.plain (@Step.enter _ _ _ s narrowedApprover exampleEntry.id.val hfree) rfl)
  have hreview : review narrowedApprover.site narrowedApprover.reads s.cooldowns s.now exampleEntry =
      .lost := rfl
  have h₂ := h₁.move trivial (.lose (.lose (Function.update_self _ _ _) (found_example hqueue _) hreview))
  have h₃ := h₂.move trivial
    (.plain (@Step.save _ _ _ _ s.next _ true (Function.update_self _ _ _)) rfl)
  refine ⟨_, h₃, ?_, ?_, ?_, fun i => ⟨?_, rfl⟩, rfl⟩
  · show pruneQueue (updateEntry s.queue exampleEntry.id _) = _
    rw [hqueue]
    exact pruneQueue_updateEntry _
  · show exampleEntry.id ∈ exampleEntry.id :: leftIds s.history
    exact List.mem_cons_self
  · show Function.update (fun _ => none) exampleEntry.id (some Status.rejected) exampleEntry.id = _
    exact Function.update_self _ _ _
  · show Function.update (Function.update (Function.update s.calls s.next _) s.next _) s.next none i = none
    rw [Function.update_idem, Function.update_idem, hcalls]
    exact congrFun (Function.update_eq_self _ _) i

/-- The action of the example request is nothing to execute when it is approved. -/
theorem unrecorded_hollow : ∃ l : Ledger NanFloat,
    Reachable Ledger.Starts LedgerStep (fun _ _ => True) l ∧
      Unrecorded l ((exampleEntry.claim (exampleApprover hollowAction).apiKey
        (exampleApprover hollowAction).role).fail noExecutableError) := by
  rcases queued_ledger (fun _ _ => True) hollowAction rfl rfl fun _ _ _ => trivial with
    ⟨s, h₀, hqueue, hcalls, hcooldowns, hfree, hnow, -⟩
  have h₁ := h₀.move trivial
    (.plain (@Step.enter _ _ _ s (exampleApprover hollowAction) exampleEntry.id.val hfree) rfl)
  have hreview : review (exampleApprover hollowAction).site (exampleApprover hollowAction).reads
      s.cooldowns s.now exampleEntry = .claimed (exampleClaim hollowAction) := by
    rw [hcooldowns, hnow]
    exact review_example rfl 0
  -- claim, save, start, finish without a result, store the failure, save
  have h₂ := h₁.move trivial (.claim (Function.update_self _ _ _)
    (.claim (Function.update_self _ _ _) (found_example hqueue _) hreview))
  have h₃ := h₂.move trivial
    (.plain (@Step.save _ _ _ _ s.next _ true (Function.update_self _ _ _)) rfl)
  have h₄ := h₃.move trivial (.plain (@Step.start _ _ _ _ s.next _ (Function.update_self _ _ _)) rfl)
  have h₅ := h₄.move trivial
    (.finish (@Step.finish _ _ _ _ s.next _ exampleExecutor (Function.update_self _ _ _)))
  have h₆ := h₅.move trivial (@LedgerStep.store _ _ _ _ _ s.next exampleEntry.id none
    (Function.update_self _ _ _) rfl)
  have h₇ := h₆.move trivial
    (.plain (@Step.save _ _ _ _ s.next _ true (Function.update_self _ _ _)) rfl)
  refine ⟨_, h₇, ?_, ?_, ?_, fun i => ⟨?_, ?_⟩, rfl⟩
  · show pruneQueue (updateEntry (pruneQueue (updateEntry s.queue exampleEntry.id _))
      exampleEntry.id _) = _
    rw [hqueue, pruneQueue_updateEntry]
    exact pruneQueue_updateEntry _
  · show exampleEntry.id ∈ exampleEntry.id :: leftIds s.history
    exact List.mem_cons_self
  · show Function.update (Function.update (fun _ : Uuid => none) exampleEntry.id
      (some Status.approved)) exampleEntry.id (some .rejected) exampleEntry.id = _
    exact Function.update_self _ _ _
  · show Function.update (Function.update (Function.update (Function.update (Function.update
      (Function.update (Function.update s.calls s.next _) s.next _) s.next _) s.next _) s.next _)
      s.next _) s.next none i = none
    simp only [Function.update_idem, hcalls]
    exact congrFun (Function.update_eq_self _ _) i
  · exact afterExecute_none (fun k hk => Function.update_of_ne hk _ _) i

/-- The entry of a requester that lost its rights, and that of an action that is nothing to
execute, are rejected and never in the log. -/
theorem approvals_unrecorded :
    (∃ l : Ledger NanFloat, Reachable Ledger.Starts LedgerStep (fun _ _ => True) l ∧
      Unrecorded l (exampleEntry.fail lostReason)) ∧
    ∃ l : Ledger NanFloat, Reachable Ledger.Starts LedgerStep (fun _ _ => True) l ∧
      Unrecorded l ((exampleEntry.claim (exampleApprover hollowAction).apiKey
        (exampleApprover hollowAction).role).fail noExecutableError) :=
  ⟨unrecorded_lost, unrecorded_hollow⟩

end AutoHeal.Server
