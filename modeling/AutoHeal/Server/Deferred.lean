import AutoHeal.Lib.Items
import AutoHeal.Server.Approvals

/-!
# What an approval executes

An approval executes what the payload of its entry asks for in the configuration there is
by then. This is what the request would have executed when it was queued exactly when the
configuration still says the same (`approve_executes_queued_iff`).
-/

namespace AutoHeal.Server

open Audit

variable {F : Type}

/-! ## Parameters over defaults -/

section Updating

variable {d d' : Dict F} {items : List (Str × PyVal F)} {kv : Key F × PyVal F}

theorem mem_set_of_ne {s : Str} {v : PyVal F} (h : kv.1 ≠ .str s) : kv ∈ Dict.set s v d ↔ kv ∈ d := by
  constructor
  · intro hmem
    rcases Dict.mem_set hmem with hmem | rfl
    · exact hmem
    · exact absurd rfl h
  · intro hmem
    induction d with
    | nil => cases hmem
    | cons kw d ih =>
      unfold Dict.set
      rcases List.mem_cons.mp hmem with rfl | hmem
      · rw [if_neg fun hs => h (Key.isStr_iff.mp hs)]
        exact List.mem_cons_self
      · split
        · exact List.mem_cons_of_mem _ hmem
        · exact List.mem_cons_of_mem _ (ih hmem)

/-- No item has the key. -/
def Untouched (items : List (Str × PyVal F)) (k : Key F) : Prop := ∀ item ∈ items, k ≠ .str item.1

theorem keys_updateDict_nodup (hd : d.keys.Nodup) : (updateDict d items).keys.Nodup := by
  induction items generalizing d with
  | nil => exact hd
  | cons item items ih => exact ih (Dict.keys_set_nodup hd _ _)

/-- What no item has the key of stays. -/
theorem mem_updateDict_of_untouched (h : Untouched items kv.1) :
    kv ∈ updateDict d items ↔ kv ∈ d := by
  induction items generalizing d with
  | nil => rfl
  | cons item items ih =>
    have hitem := h item List.mem_cons_self
    exact (ih fun item hmem => h item (List.mem_cons_of_mem _ hmem)).trans (mem_set_of_ne hitem)

theorem get?_updateDict_of_notMem {s : Str} (h : s ∉ items.map Prod.fst) :
    Dict.get? s (updateDict d items) = Dict.get? s d := by
  induction items generalizing d with
  | nil => rfl
  | cons item items ih =>
    rw [List.map_cons, List.mem_cons, not_or] at h
    exact (ih h.2).trans ((Dict.get?_set _ _ _ _).trans (if_neg h.1))

/-- What an item has the key of does not depend on the defaults. -/
theorem get?_updateDict_of_mem {s : Str} (h : s ∈ items.map Prod.fst) :
    Dict.get? s (updateDict d items) = Dict.get? s (updateDict d' items) := by
  induction items generalizing d d' with
  | nil => cases h
  | cons item items ih =>
    show Dict.get? s (updateDict (Dict.set item.1 item.2 d) items) =
      Dict.get? s (updateDict (Dict.set item.1 item.2 d') items)
    by_cases hrest : s ∈ items.map Prod.fst
    · exact ih hrest
    · have hs : s = item.1 := by
        rcases List.mem_cons.mp h with hs | hs
        · exact hs
        · exact absurd hs hrest
      rw [get?_updateDict_of_notMem hrest, get?_updateDict_of_notMem hrest, Dict.get?_set,
        Dict.get?_set, if_pos hs, if_pos hs]

/-- The dicts have the same items. -/
def SameItems (d d' : Dict F) : Prop := ∀ kv, kv ∈ d ↔ kv ∈ d'

/-- Two updates with the same items have the same result exactly when what they update
agrees on all other keys. -/
theorem sameItems_updateDict_iff (hd : d.keys.Nodup) (hd' : d'.keys.Nodup) :
    SameItems (updateDict d items) (updateDict d' items) ↔
      ∀ kv : Key F × PyVal F, Untouched items kv.1 → (kv ∈ d ↔ kv ∈ d') := by
  constructor
  · intro h kv hkv
    rw [← mem_updateDict_of_untouched (d := d) hkv, h kv, mem_updateDict_of_untouched hkv]
  · rintro h ⟨k, v⟩
    by_cases hk : Untouched items k
    · rw [mem_updateDict_of_untouched hk, h _ hk, mem_updateDict_of_untouched hk]
    · unfold Untouched at hk
      simp only [not_forall, not_not] at hk
      rcases hk with ⟨item, hitem, rfl⟩
      have hget := @get?_updateDict_of_mem F d d' items item.1 (List.mem_map_of_mem hitem)
      constructor
      · intro hmem
        exact Dict.mem_of_get? (hget.symm.trans
          (Dict.get?_eq_some_of_mem (keys_updateDict_nodup hd) hmem))
      · intro hmem
        exact Dict.mem_of_get? (hget.trans
          (Dict.get?_eq_some_of_mem (keys_updateDict_nodup hd') hmem))

end Updating

/-! ## An entry when its configuration has changed -/

variable [PyRuntime F]

/-- The entry of a request, as it was queued or as it was read back from the state file. -/
def Admitted.Queued (a : Admitted F) (id : Uuid) (apiKey : Str) (e : Approval F) : Prop :=
  e = a.entry id apiKey ∨ e = (a.entry id apiKey).reread

/-- The payload of the entry is that of the request, unless the entry was read back and a text of
the payload has two surrogates next to each other. -/
theorem Admitted.Queued.payload_eq_iff {a : Admitted F} {id : Uuid} {apiKey : Str} {e : Approval F}
    (h : a.Queued id apiKey e) :
    e.payload = a.raw ↔ e = a.entry id apiKey ∨ Unsplit a.raw.val := by
  rcases h with rfl | rfl
  · exact iff_of_true rfl (Or.inl rfl)
  · have hreread : (a.entry id apiKey).reread.payload = a.raw ↔ Unsplit a.raw.val :=
      a.raw.reread_eq_iff
    rw [hreread]
    refine ⟨Or.inr, ?_⟩
    rintro (hsame | hsplit)
    · rw [← hreread, hsame]
      rfl
    · exact hsplit

section Reconfigured

variable [PyDates F] [PydanticTypes F] {site before : Site F} {env : RequestEnv F}
  {server : ServerState F} {reads : VaultReads} {clock : Clock} {hits : Hits}
  {request : WebhookRequest} {a : Admitted F} {e : Approval F} {apiKey approvalId : Str}

omit [PyRuntime F] [PyDates F] [PydanticTypes F] in
/-- A name is resolved from an override, or from the default of the action. -/
theorem resolveController_eq_some_iff {controllerOverride : Option Str} {action action' : ActionConfig F}
    {name : Str} (h : resolveController controllerOverride action = some name) (name' : Str) :
    resolveController controllerOverride action' = some name' ↔
      if overrides controllerOverride then name' = name else action'.defaultController = some name' := by
  cases controllerOverride with
  | none => rfl
  | some given =>
    unfold resolveController overrides at *
    by_cases hgiven : given = []
    · simp [hgiven]
    · simp only [hgiven, if_false, ne_eq, not_false_eq_true, decide_true, if_true] at h ⊢
      rw [Option.some.inj h, Option.some.injEq]
      exact eq_comm

/-- What an approval executes is given by the payload of the entry and the configuration
there is by then. The payload is that of the request if no text of it has two surrogates next
to each other, or the entry was not read back. The controller is then the one in the entry exactly
when the payload names it or it is still the default, and the parameters are those of the request
exactly when the defaults agree on what the payload leaves open. -/
theorem approve_executes_queued_iff (hpasses : Passes before reads clock hits request a) {id : Uuid}
    (hqueued : a.Queued id request.apiKey e) (hfound : findEntry server.queue approvalId = some e)
    (hbefore : (Dict.keys (a.action.parameters.getD [])).Nodup)
    (hsite : ∀ eventType action, getActionConfig site eventType = some action →
      (Dict.keys (action.parameters.getD [])).Nodup)
    {action : ActionConfig F} {controller : Option (Dict F)} {params : Dict F} {dryRun : Option Bool}
    (hexecuted : .executed action controller params dryRun ∈
      (approve site env server apiKey approvalId).1.effects) :
    ∃ payload name, webhookPayload e.payload.val = some payload ∧
      getActionConfig site payload.eventType = some action ∧
      name = resolveController payload.controllerOverride action ∧
      controller = getControllerConfig site name ∧
      params = mergedParams action payload ∧ dryRun = payload.dryRun ∧
      (e.payload = a.raw ↔ e = a.entry id request.apiKey ∨ Unsplit a.raw.val) ∧
      (e.payload = a.raw → payload = a.payload ∧
        (name = some e.controller ↔
          if overrides a.payload.controllerOverride then e.controller = a.name
          else action.defaultController = some e.controller) ∧
        (SameItems params a.task.params ↔
          ∀ kv : Key F × PyVal F, Untouched (a.payload.parameters.getD []) kv.1 →
            (kv ∈ action.parameters.getD [] ↔ kv ∈ a.action.parameters.getD []))) := by
  rcases executed_mem_approve.mp hexecuted with ⟨e', task, happrovable, hclaims, htask⟩
  have hentry : e' = e := Option.some.inj (happrovable.found.symm.trans hfound)
  subst hentry
  rcases task with ⟨payload, action', name, controller'⟩
  cases htask
  have hknown : getActionConfig site payload.eventType = some action' := hclaims.known
  have hname : name = resolveController payload.controllerOverride action' := hclaims.resolved
  refine ⟨payload, name, hclaims.valid, hknown, hname, hclaims.controller, rfl, rfl,
    hqueued.payload_eq_iff, fun hsame => ?_⟩
  -- the entry has the request's payload, and everything else is looked up again
  have hpayload : payload = a.payload := by
    have hvalid := hclaims.valid
    rw [hsame, hpasses.valid] at hvalid
    exact (Option.some.inj hvalid).symm
  subst hpayload
  refine ⟨rfl, ?_, sameItems_updateDict_iff (hsite _ _ hknown) hbefore⟩
  rw [hname]
  exact resolveController_eq_some_iff hpasses.authorized.resolved e'.controller

end Reconfigured

/-! ## Examples -/

/-- The action of the examples after its configuration has changed. -/
def movedAction : ActionConfig NanFloat :=
  { exampleAction with
    defaultController := some (py "edge")
    parameters := some [(.str (py "host"), .str (py "db1"))] }

def edgeController : Dict NanFloat := [(.str (py "type"), .str (py "ssh"))]

def exampleControllers : List (Str × Dict NanFloat) :=
  [(py "local", exampleController), (py "edge", edgeController)]

theorem executed_example (action : ActionConfig NanFloat) (hcooldown : action.cooldownSeconds = none) :
    .executed action
        (getControllerConfig (exampleSite (.literal exampleKeys) action exampleControllers)
          action.defaultController)
        (action.parameters.getD []) (some false) ∈
      (approve (exampleSite (.literal exampleKeys) action exampleControllers)
        (exampleRequestEnv (.steady [])) (savedServer [exampleEntry]) (py "admin-key")
        exampleEntry.id.val).1.effects := by
  let task : Task NanFloat := ⟨⟨py "check", none, some [], some false, some true⟩, action,
    action.defaultController,
    getControllerConfig (exampleSite (.literal exampleKeys) action exampleControllers)
      action.defaultController⟩
  have hseconds : task.cooldownSeconds = 0 := by
    show action.cooldownSeconds.getD 0 = 0
    rw [hcooldown]
    rfl
  refine executed_mem_approve.mpr ⟨exampleEntry, task, ⟨rfl, rfl, rfl, by decide⟩, ?_, rfl⟩
  exact ⟨rfl, rfl, rfl, rfl, rfl, Task.remaining_eq_none.mpr (Or.inr (Or.inl hseconds))⟩

/-- The action with defaults, and after its configuration has changed. -/
def daysAction : ActionConfig NanFloat :=
  { exampleAction with
    parameters := some [(.str (py "days"), .int 7), (.str (py "path"), .str (py "/var"))] }

def changedAction : ActionConfig NanFloat :=
  { exampleAction with
    defaultController := some (py "edge")
    parameters := some [(.str (py "days"), .int 30), (.str (py "path"), .str (py "/opt"))] }

theorem jsonValue_overriding : JsonValue (.dict ([(.str (py "event_type"), .str (py "check")),
    (.str (py "controller_override"), .str (py "local")),
    (.str (py "parameters"), .dict [(.str (py "days"), .int 3)]),
    (.str (py "approval_required"), .bool true)] : Dict NanFloat)) := by
  have hparameters : JsonValue (.dict ([(.str (py "days"), .int 3)] : Dict NanFloat)) :=
    jsonValue_empty.cons (by decide) rfl (.int 3)
  exact (((jsonValue_empty.cons (by decide) rfl (.bool true)).cons (by decide) rfl hparameters).cons
    (by decide) rfl (.str (by decide))).cons (by decide) rfl (.str (by decide))

/-- `admin-key` asks for the action with a parameter, on a controller of its choice. -/
def overridingAdmitted : Admitted NanFloat :=
  ⟨⟨.dict [(.str (py "event_type"), .str (py "check")),
      (.str (py "controller_override"), .str (py "local")),
      (.str (py "parameters"), .dict [(.str (py "days"), .int 3)]),
      (.str (py "approval_required"), .bool true)], jsonValue_overriding.keyed⟩,
    ⟨py "check", some (py "local"), some [(py "days", .int 3)], some false, some true⟩,
    some (py "admin"), daysAction, py "local", exampleController⟩

def overridingEntry : Approval NanFloat := overridingAdmitted.entry exampleEntry.id (py "admin-key")

theorem passes_overriding : Passes (exampleSite (.literal exampleKeys) daysAction exampleControllers)
    (.steady []) (exampleRequestEnv (.steady [])).clock (exampleServer []).hits
    ⟨py "admin-key", some (print .spaced overridingAdmitted.raw.val), none⟩ overridingAdmitted :=
  ⟨requestJson_print jsonValue_overriding rfl, rfl, rfl, rfl, rfl, rfl, rfl, rfl, rfl, fun _ => rfl, rfl,
    rfl, rfl, rfl⟩

theorem reread_overridingEntry : overridingEntry.reread = overridingEntry := by
  have hpayload : overridingEntry.payload.reread = overridingEntry.payload :=
    Subtype.ext (readBack_jsonValue jsonValue_overriding)
  unfold Approval.reread
  rw [hpayload]
  rfl

/-- After a restart with another configuration the entry is executed on the controller it names and
with its own parameter, but with another default for the parameter it leaves open. -/
theorem approve_executes_queued_example :
    .executed changedAction (some exampleController)
        [(.str (py "days"), .int 3), (.str (py "path"), .str (py "/opt"))] (some false) ∈
      (approve (exampleSite (.literal exampleKeys) changedAction exampleControllers)
        (exampleRequestEnv (.steady [])) (savedServer [overridingEntry.reread]) (py "operator-key")
        exampleEntry.id.val).1.effects ∧
    overridingEntry.reread.payload = overridingAdmitted.raw ∧
    getControllerConfig (exampleSite (.literal exampleKeys) changedAction exampleControllers)
      (some overridingEntry.reread.controller) = some exampleController ∧
    ¬ SameItems [(.str (py "days"), .int 3), (.str (py "path"), .str (py "/opt"))]
      overridingAdmitted.task.params := by
  have hexecuted : .executed changedAction (some exampleController)
        [(.str (py "days"), .int 3), (.str (py "path"), .str (py "/opt"))] (some false) ∈
      (approve (exampleSite (.literal exampleKeys) changedAction exampleControllers)
        (exampleRequestEnv (.steady [])) (savedServer [overridingEntry.reread]) (py "operator-key")
        exampleEntry.id.val).1.effects := by
    let task : Task NanFloat := ⟨overridingAdmitted.payload, changedAction, some (py "local"),
      some exampleController⟩
    rw [reread_overridingEntry]
    exact executed_mem_approve.mpr ⟨overridingEntry, task, ⟨rfl, rfl, rfl, by decide⟩,
      ⟨rfl, rfl, rfl, rfl, rfl, Task.remaining_eq_none.mpr (Or.inr (Or.inl rfl))⟩, rfl⟩
  have hdefaults : ∀ eventType action,
      getActionConfig (exampleSite (.literal exampleKeys) changedAction exampleControllers) eventType =
        some action → (Dict.keys (action.parameters.getD [])).Nodup := by
    intro eventType action haction
    have hmem := List.mem_singleton.mp (Items.mem_of_lookup haction)
    rw [(Prod.mk.inj hmem).2]
    exact nodup_map_str (by decide : [py "days", py "path"].Nodup)
  have hbefore : (Dict.keys (overridingAdmitted.action.parameters.getD [])).Nodup :=
    nodup_map_str (by decide : [py "days", py "path"].Nodup)
  rcases approve_executes_queued_iff passes_overriding (Or.inr rfl) rfl hbefore hdefaults hexecuted with
    ⟨payload, name, -, -, -, hcontroller, -, -, hpayload, hsame⟩
  have hunsplit : Unsplit overridingAdmitted.raw.val :=
    overridingAdmitted.raw.property.jsonValue_iff.mp jsonValue_overriding
  have hsame := hsame (hpayload.mpr (Or.inr hunsplit))
  refine ⟨hexecuted, hpayload.mpr (Or.inr hunsplit), ?_, fun hitems => ?_⟩
  · have hname : name = some overridingEntry.reread.controller := hsame.2.1.mpr rfl
    rw [← hname]
    exact hcontroller.symm
  · -- the defaults disagree on what the payload leaves open
    have huntouched : Untouched [(py "days", PyVal.int 3)] (Key.str (py "path") : Key NanFloat) := by
      intro item hitem
      rw [List.mem_singleton.mp hitem]
      exact fun h => absurd (Key.str.inj h) (by decide)
    have hpath := (hsame.2.2.mp hitems (.str (py "path"), .str (py "/opt")) huntouched).mp
      (List.mem_cons_of_mem _ List.mem_cons_self)
    rcases List.mem_cons.mp hpath with h | h
    · exact absurd (Key.str.inj (Prod.mk.inj h).1) (by decide)
    · have hvalue := (Prod.mk.inj (List.mem_singleton.mp h)).2
      exact absurd (PyVal.str.inj hvalue) (by decide)

/-- An entry that was queued for the controller `local`, without parameters, is executed on
another controller and with a parameter, once the configuration of its action has changed. -/
theorem approve_executes_other :
    exampleEntry = (exampleAdmitted exampleAction true).entry exampleEntry.id (py "operator-key") ∧
      exampleEntry.controller = py "local" ∧
      (exampleAdmitted exampleAction true).task.params = [] ∧
      .executed movedAction (some edgeController) [(.str (py "host"), .str (py "db1"))] (some false) ∈
        (approve (exampleSite (.literal exampleKeys) movedAction exampleControllers)
          (exampleRequestEnv (.steady [])) (savedServer [exampleEntry]) (py "admin-key")
          exampleEntry.id.val).1.effects ∧
      getControllerConfig (exampleSite (.literal exampleKeys) movedAction exampleControllers)
        (some exampleEntry.controller) ≠ some edgeController := by
  refine ⟨rfl, rfl, rfl, executed_example movedAction rfl, ?_⟩
  intro h
  have hcontroller : exampleController = edgeController := Option.some.inj h
  unfold exampleController edgeController at hcontroller
  simp only [List.cons.injEq, Prod.mk.injEq, PyVal.str.injEq, and_true, true_and] at hcontroller
  exact absurd hcontroller (by decide)

end AutoHeal.Server
