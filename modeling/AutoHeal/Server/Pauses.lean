import AutoHeal.Server.Cooling
import AutoHeal.Server.Serving

/-!
# Pauses

The cooldowns of requests that are served one after the other, with restarts between them. What one
request does to the table is `Charged`: nothing, or it executes a task that has no time left, and
records it. So two executions on a key that have been recorded are apart by the cooldown of the key,
however many requests and restarts come between them (`pauses_kept`).
-/

namespace AutoHeal.Server

open Audit Purge

variable {F : Type}

/-! ## Recorded executions -/

/-- A cooldown that was recorded: its key, when the check for it was passed, and when it began. -/
structure Spell where
  key : Str
  check : ℚ
  record : ℚ

/-- Those among some effects. -/
def spellsOf (clock : Clock) (effects : List (Effect F)) : List Spell :=
  effects.filterMap fun
    | .recorded key => some ⟨key, clock.check, clock.record⟩
    | _ => none

theorem spellsOf_append (clock : Clock) (xs ys : List (Effect F)) :
    spellsOf clock (xs ++ ys) = spellsOf clock xs ++ spellsOf clock ys := List.filterMap_append

variable [PyRuntime F]

/-- A cooldown of the key is at least `c` seconds, whichever configured action it is of. -/
def CoolsFor (k : Str) (c : ℚ) (site : Site F) : Prop :=
  ∀ t : Task F, getActionConfig site t.payload.eventType = some t.action → t.coolsDown = true →
    t.cooldownKey = k → c ≤ t.cooldownSeconds

/-- A request has left the cooldowns as they were, or has executed a configured action that had no
time left, and has recorded it. -/
def Charged (site : Site F) (clock : Clock) (cooldowns cooldowns' : Cooldowns)
    (effects : List (Effect F)) : Prop :=
  (cooldowns' = cooldowns ∧ spellsOf clock effects = []) ∨
    ∃ t : Task F, getActionConfig site t.payload.eventType = some t.action ∧ t.coolsDown = true ∧
      t.remaining cooldowns clock.check = none ∧
      cooldowns' = recordCooldown cooldowns t.cooldownKey clock.record clock.prune ∧
      spellsOf clock effects = [⟨t.cooldownKey, clock.check, clock.record⟩]

section Requests

variable {site : Site F} {clock : Clock} {cooldowns cooldowns' : Cooldowns} {first : List (Effect F)}

/-- Effects that record nothing may follow. -/
theorem Charged.append (h : Charged site clock cooldowns cooldowns' first) {effects : List (Effect F)}
    (hquiet : spellsOf clock effects = []) :
    Charged site clock cooldowns cooldowns' (first ++ effects) := by
  have hsame : spellsOf clock (first ++ effects) = spellsOf clock first := by
    rw [spellsOf_append, hquiet, List.append_nil]
  unfold Charged
  rw [hsame]
  exact h

/-- An execution is recorded unless the task has no cooldown. -/
theorem charged_execution {t : Task F} (hknown : getActionConfig site t.payload.eventType = some t.action)
    (hfree : t.remaining cooldowns clock.check = none) :
    Charged site clock cooldowns (t.record cooldowns clock.record clock.prune)
      (t.executed :: t.recorded) := by
  unfold Task.record Task.recorded
  cases hcools : t.coolsDown with
  | false => exact Or.inl ⟨rfl, rfl⟩
  | true => exact Or.inr ⟨t, hknown, hcools, hfree, rfl, rfl⟩

variable [PyDates F] {env : RequestEnv F} {server : ServerState F}

/-- Writing to the audit log records nothing. -/
theorem charged_withAudit (h : Charged site env.clock cooldowns server.cooldowns first)
    (entry : Dict F) (answer : Py (Response F)) {effects : List (Effect F)}
    (hquiet : spellsOf env.clock effects = []) :
    Charged site env.clock cooldowns
      ((withAudit site env server entry fun server =>
        ⟨server, answer, effects⟩).after first).server.cooldowns
      ((withAudit site env server entry fun server =>
        ⟨server, answer, effects⟩).after first).effects := by
  have hnone : spellsOf env.clock (withAudit site env server entry fun server =>
      ⟨server, answer, effects⟩).effects = [] := by
    rcases withAudit_effects site env server entry answer effects with hwritten | hraised
    · rw [hwritten]
      exact hquiet
    · rw [hraised]
      rfl
  rcases withAudit_server site env server entry answer effects with ⟨log, hlog⟩
  show Charged site env.clock cooldowns (withAudit site env server entry _).server.cooldowns (first ++ _)
  rw [hlog]
  exact h.append hnone

/-- A request that only writes to it leaves the cooldowns as they are. -/
theorem charged_audit (htable : server.cooldowns = cooldowns) (entry : Dict F)
    (answer : Py (Response F)) :
    Charged site env.clock cooldowns
      (withAudit site env server entry fun server => ⟨server, answer, []⟩).server.cooldowns
      (withAudit site env server entry fun server => ⟨server, answer, []⟩).effects := by
  have hfirst : Charged site env.clock cooldowns server.cooldowns [] := Or.inl ⟨htable, rfl⟩
  exact charged_withAudit hfirst entry answer rfl

variable [PydanticTypes F] (halone : ∀ server, env.meanwhile server = server)

include halone

omit [PydanticTypes F] in
theorem charged_webhookExecute (request : WebhookRequest) {a : Admitted F}
    (hknown : getActionConfig site a.payload.eventType = some a.action)
    (hfree : a.task.remaining server.cooldowns env.clock.check = none) :
    Charged site env.clock server.cooldowns (webhookExecute site env server request a).server.cooldowns
      (webhookExecute site env server request a).effects := by
  unfold webhookExecute
  rcases a.task.execute env.executor with e | _ | result
  · simp only [halone]
    exact Or.inl ⟨rfl, rfl⟩
  · simp only [halone]
    exact Or.inl ⟨rfl, rfl⟩
  · simp only [halone]
    exact charged_withAudit (charged_execution hknown hfree) _ _ rfl

theorem charged_webhook (request : WebhookRequest) :
    Charged site env.clock server.cooldowns (webhook site env server request).server.cooldowns
      (webhook site env server request).effects := by
  have hadmitted := @webhookGate_eq_admitted F _ _ site env.vault env.clock server.hits request
  unfold webhook
  revert hadmitted
  rcases webhookGate site env.vault env.clock server.hits request with ⟨hits, gate⟩
  intro hadmitted
  cases gate with
  | refused response => exact Or.inl ⟨rfl, rfl⟩
  | limited response entry => exact charged_audit rfl entry (.ok response)
  | admitted a =>
    have hknown := (hadmitted.mp rfl).known
    simp only
    unfold webhookAdmitted
    split
    · exact Or.inl ⟨rfl, rfl⟩
    · cases hremaining : a.task.remaining server.cooldowns env.clock.check with
      | none => exact charged_webhookExecute halone request hknown hremaining
      | some remaining => exact charged_audit rfl _ _

omit [PydanticTypes F] in
theorem charged_approveExecute {apiKey : Str} {role : Option Str} {task : Task F} {e : Approval F}
    (hknown : getActionConfig site task.payload.eventType = some task.action)
    (hfree : task.remaining server.cooldowns env.clock.check = none) :
    Charged site env.clock server.cooldowns
      (approveExecute site env server apiKey role task e).1.server.cooldowns
      (approveExecute site env server apiKey role task e).1.effects := by
  unfold approveExecute
  rcases task.execute env.executor with error | _ | result
  · simp only [halone]
    exact Or.inl ⟨rfl, rfl⟩
  · simp only [halone]
    exact Or.inl ⟨rfl, rfl⟩
  · simp only [halone]
    exact charged_withAudit (charged_execution hknown hfree) _ _ rfl

theorem charged_approve (apiKey approvalId : Str) :
    Charged site env.clock server.cooldowns (approve site env server apiKey approvalId).1.server.cooldowns
      (approve site env server apiKey approvalId).1.effects := by
  unfold approve
  simp only
  split_ifs
  · exact Or.inl ⟨rfl, rfl⟩
  · cases lookupPending server.queue apiKey approvalId (py "approve") with
    | refused response => exact Or.inl ⟨rfl, rfl⟩
    | found e =>
      simp only
      unfold approvePending
      cases hreview : review site env.vault server.cooldowns env.clock.check e with
      | raised error => exact Or.inl ⟨rfl, rfl⟩
      | lost => exact Or.inl ⟨rfl, rfl⟩
      | cooling task remaining =>
        exact charged_audit rfl _ _
      | claimed task =>
        have hclaims := review_eq_claimed.mp hreview
        exact charged_approveExecute halone hclaims.known hclaims.free

omit halone [PydanticTypes F] in
theorem charged_reject (apiKey approvalId : Str) :
    Charged site env.clock server.cooldowns (reject site env server apiKey approvalId).1.server.cooldowns
      (reject site env server apiKey approvalId).1.effects := by
  unfold reject
  simp only
  split_ifs
  · exact Or.inl ⟨rfl, rfl⟩
  · cases lookupPending server.queue apiKey approvalId (py "reject") with
    | refused response => exact Or.inl ⟨rfl, rfl⟩
    | found e =>
      simp only
      unfold rejectPending
      simp only
      split
      · exact charged_audit rfl _ _
      · exact Or.inl ⟨rfl, rfl⟩

end Requests

/-! ## Every run -/

variable [PyDates F] [PydanticTypes F]

theorem charged_handle {r : HttpRequest F} {server : ServerState F}
    (halone : ∀ server, r.env.meanwhile server = server) :
    Charged r.site r.env.clock server.cooldowns (handle server r).1.cooldowns (handle server r).2.2 := by
  refine @HttpRequest.dispatch_rule F _ _ _ r server
    (fun h => Charged r.site r.env.clock server.cooldowns h.server.cooldowns h.effects) ?_ ?_ ?_ ?_
  · exact fun answer => Or.inl ⟨rfl, rfl⟩
  · exact fun body _ => charged_webhook halone _
  · exact fun approvalId _ => charged_approve halone _ _
  · exact fun approvalId _ => charged_reject _ _

def Input.spells (server : ServerState F) : Input F → List Spell
  | .request r => spellsOf r.env.clock (handle server r).2.2
  | .restart => []

/-- The cooldowns that the requests of a run have recorded, in order. -/
def servedSpells : ServerState F → List (Input F) → List Spell
  | _, [] => []
  | server, i :: inputs => i.spells server ++ servedSpells (serveInput server i).1 inputs

section Runs

variable {k : Str} {c now : ℚ}

/-- The second comes when the cooldown of the first is over, if both are on the key. -/
def Apart (k : Str) (c : ℚ) (a b : Spell) : Prop := a.key = k → b.key = k → a.record + c ≤ b.check

/-- What has been recorded is in the past, and over or in the table. -/
def Held (k : Str) (c : ℚ) (cooldowns : Cooldowns) (now : ℚ) (past : List Spell) : Prop :=
  ∀ a ∈ past, a.key = k → a.record ≤ now ∧ Covered k c cooldowns now a.record

omit [PyDates F] [PydanticTypes F] in
/-- A request keeps to the cooldowns there are, and the table holds its own. -/
theorem Charged.held {site : Site F} {clock : Clock} {cooldowns cooldowns' : Cooldowns}
    {effects : List (Effect F)} (h : Charged site clock cooldowns cooldowns' effects)
    (hsite : CoolsFor k c site) (hc : c ≤ maxCooldownRetentionSeconds) {past : List Spell}
    (hpast : Held k c cooldowns now past) (hcheck : now ≤ clock.check)
    (hrecord : clock.check ≤ clock.record) (hprune : clock.record ≤ clock.prune) :
    (∀ a ∈ past, ∀ b ∈ spellsOf clock effects, Apart k c a b) ∧
      (spellsOf clock effects).Pairwise (Apart k c) ∧
      Held k c cooldowns' clock.prune (past ++ spellsOf clock effects) := by
  have hlater : now ≤ clock.prune := hcheck.trans (hrecord.trans hprune)
  rcases h with ⟨rfl, hnone⟩ | ⟨t, hknown, hcools, hfree, rfl, hone⟩
  · -- nothing is recorded
    rw [hnone, List.append_nil]
    refine ⟨fun a _ b hb => absurd hb List.not_mem_nil, List.Pairwise.nil, fun a ha hkey => ?_⟩
    rcases hpast a ha hkey with ⟨hbefore, hcovered⟩
    exact ⟨hbefore.trans hlater, hcovered.later hlater⟩
  · rw [hone]
    have hgone : ∀ last : ℚ, last < clock.prune - maxCooldownRetentionSeconds →
        last + c ≤ clock.prune := by
      intro last hlast
      linarith
    refine ⟨fun a ha b hb hkey hkey' => ?_, List.pairwise_singleton _ _, fun a ha hkey => ?_⟩
    · -- the task is on the key, and has no time left of the cooldowns before it
      rw [List.mem_singleton.mp hb] at hkey' ⊢
      have htask : t.cooldownKey = k := hkey'
      have hseconds : t.cooldownSeconds ≠ 0 := by
        have hboth := hcools
        unfold Task.coolsDown at hboth
        simpa using (Bool.and_eq_true_iff.mp hboth).2
      have hclear : ∀ last, cooldowns k = some last → last + t.cooldownSeconds ≤ clock.check := by
        unfold Task.remaining at hfree
        rw [if_pos hcools, htask] at hfree
        exact (secondsRemaining_eq_none hseconds).mp hfree
      have hle := hsite t hknown hcools htask
      rcases (hpast a ha hkey).2 with hover | ⟨last, hlast, hrecorded⟩
      · exact hover.trans hcheck
      · have hend := hclear last hlast
        show a.record + c ≤ clock.check
        linarith
    · rcases List.mem_append.mp ha with hbefore | hnew
      · rcases hpast a hbefore hkey with ⟨hle, hcovered⟩
        refine ⟨hle.trans hlater, ?_⟩
        by_cases htask : t.cooldownKey = k
        · -- the record of the task takes the place of those before it
          refine covered_prune (hgone clock.record) ?_ (by linarith)
          rw [htask, Function.update_self]
        · rcases hcovered with hdone | ⟨last, hlast, hrecorded⟩
          · exact Or.inl (hdone.trans hlater)
          · refine covered_prune (hgone last) ?_ hrecorded
            rw [Function.update_of_ne (Ne.symm htask)]
            exact hlast
      · rw [List.mem_singleton.mp hnew] at hkey ⊢
        refine ⟨hprune, covered_prune (hgone clock.record) ?_ le_rfl⟩
        show Function.update cooldowns t.cooldownKey (some clock.record) k = some clock.record
        rw [← hkey, Function.update_self]

/-- In every run of the requests, the cooldowns that are recorded are apart from each other, and
from those that were recorded before. -/
theorem pauses_run {mayFail : Bool} {used : List Uuid} {inputs : List (Input F)}
    {server : ServerState F} {past : List Spell} (hinputs : Sequenced mayFail now used inputs)
    (hsites : ∀ r, .request r ∈ inputs → CoolsFor k c r.site) (hc : c ≤ maxCooldownRetentionSeconds)
    (hheld : Held k c server.cooldowns now past) (hpast : past.Pairwise (Apart k c)) :
    (past ++ servedSpells server inputs).Pairwise (Apart k c) := by
  induction inputs generalizing now used server past with
  | nil => rwa [servedSpells, List.append_nil]
  | cons i inputs ih =>
    have hrest : ∀ r, .request r ∈ inputs → CoolsFor k c r.site :=
      fun r hr => hsites r (List.mem_cons_of_mem _ hr)
    cases i with
    | request r =>
      rcases hinputs with ⟨henv, hnext⟩
      have hcharged : Charged r.site r.env.clock server.cooldowns (handle server r).1.cooldowns
          (handle server r).2.2 := charged_handle henv.alone
      rcases hcharged.held (hsites r List.mem_cons_self) hc hheld henv.check henv.record henv.prune
        with ⟨hapart, hown, hheld'⟩
      have hpast' : (past ++ spellsOf r.env.clock (handle server r).2.2).Pairwise (Apart k c) :=
        List.pairwise_append.mpr ⟨hpast, hown, hapart⟩
      rw [servedSpells, ← List.append_assoc]
      exact ih hnext hrest hheld' hpast'
    | restart => exact ih (show Sequenced mayFail now used inputs from hinputs) hrest hheld hpast

/-- Requests are served one after the other, with restarts between them. Where every configured action
on the key has a cooldown of at least `c` seconds, and no more than a day, two executions on the key
that were recorded are apart by `c` seconds: the later one passes its check when that long has passed
since the record of the earlier one. -/
theorem pauses_kept {mayFail : Bool} {server : ServerState F} {inputs : List (Input F)}
    (hinputs : Sequenced mayFail now [] inputs)
    (hsites : ∀ r, .request r ∈ inputs → CoolsFor k c r.site)
    (hc : c ≤ maxCooldownRetentionSeconds) :
    (servedSpells server inputs).Pairwise (Apart k c) := by
  have hnone : Held k c server.cooldowns now [] := fun a ha => absurd ha List.not_mem_nil
  exact pauses_run hinputs hsites hc hnone List.Pairwise.nil

end Runs

/-! ## Examples -/

/-- `operator-key` has an action executed that has a cooldown. -/
def exampleCooling : HttpRequest NanFloat :=
  { exampleWebhook with
    site := exampleSite (.literal exampleKeys) coolingAction [(py "local", exampleController)] }

theorem coolsFor_exampleCooling : CoolsFor coolingKey 60 exampleCooling.site := by
  intro t hknown _ _
  have haction : t.action = coolingAction :=
    congrArg Prod.snd (List.mem_singleton.mp (Items.mem_of_lookup hknown))
  show 60 ≤ t.action.cooldownSeconds.getD 0
  rw [haction]
  exact le_refl _

/-- It does so again when a minute has passed. -/
def exampleCoolingLater : HttpRequest NanFloat :=
  { exampleCooling with
    env := { exampleApproving.env with clock := ⟨60, 60, 60, 60, 60, exampleEnv.nowStamp⟩ } }

theorem sequenced_cooling :
    Sequenced true 0 [] [.request exampleCooling, .restart, .request exampleCoolingLater] := by
  have hfirst : exampleCooling.env.InTurn true 0 [] :=
    ⟨fun _ => rfl, List.not_mem_nil, le_refl _, le_refl _, le_refl _, fun _ => rfl, fun _ => rfl⟩
  have hlater : (0 : ℚ) ≤ 60 := by norm_num
  have hsecond : exampleCoolingLater.env.InTurn true 0 [exampleEntry.id] :=
    ⟨fun _ => rfl, by decide, hlater, le_refl _, le_refl _, fun _ => rfl, fun _ => rfl⟩
  exact ⟨hfirst, hsecond, trivial⟩

theorem pauses_kept_example :
    (servedSpells (exampleServer [])
      [.request exampleCooling, .restart, .request exampleCoolingLater]).Pairwise
        (Apart coolingKey 60) := by
  refine pauses_kept sequenced_cooling (fun r hr => ?_) (by norm_num [maxCooldownRetentionSeconds])
  simp only [List.mem_cons, Input.request.injEq, List.not_mem_nil, or_false, reduceCtorEq,
    false_or] at hr
  rcases hr with rfl | rfl
  · exact coolsFor_exampleCooling
  · exact coolsFor_exampleCooling

end AutoHeal.Server
