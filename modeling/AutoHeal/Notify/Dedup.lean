import Mathlib.Tactic.NormNum
import AutoHeal.Notify.Notify

/-!
# Suppressed notifications

Runs of `notify` with the default `dedup_key`. A key is marked before a channel is tried, and the
key is one string made of an action, a controller and a status. Where every call that marks its
key is accepted by a channel, and keys tell their parts apart, a call is suppressed only after one
like it was delivered, `suppressed_after_delivery`.
-/

namespace AutoHeal.Notify

open Server Prog

section Runs

variable {F : Type} [PyRuntime F] [FloatTimes F] (O : Type) [PyObjects F O] [PyCase]

/-! ## Runs -/

/-- A call of `notify`, with what it asked and what it came to. -/
structure Notified (F : Type) where
  call : NotifyCall F
  now : ℚ
  asked : List (MadeFor F)
  result : Py (List (Channel × Bool))

/-- What was seen after a run, of which the last call is the first of the list. -/
def seenAfter (sender : NotificationSender F) : List (Notified F) → Seen
  | [] => fun _ => none
  | step :: past => (notify O sender (seenAfter sender past) step.now step.call none).1

/-- The calls are a run of a sender, and the clock does not go back. -/
def IsRun (sender : NotificationSender F) : List (Notified F) → Prop
  | [] => True
  | step :: past =>
    Runs (notify O sender (seenAfter O sender past) step.now step.call none).2 step.asked step.result ∧
      (∀ last ∈ past.head?, last.now ≤ step.now) ∧ IsRun sender past

/-- The key of a call. -/
def Notified.key (step : Notified F) : Str := keyOf step.call none

/-- Two calls are about the same action, controller and status. -/
def SameEvent (a b : Notified F) : Prop :=
  a.call.action = b.call.action ∧ a.call.controller = b.call.controller ∧
    a.call.status = b.call.status

/-- The call is suppressed. -/
def Suppressed (sender : NotificationSender F) (past : List (Notified F)) (step : Notified F) : Prop :=
  ¬ IsUnhashable (step.call.severity.getD .none) ∧
    Duplicate sender (seenAfter O sender past) step.now step.key

/-- The call was delivered on a channel. -/
def Delivered (sender : NotificationSender F) (step : Notified F) : Prop :=
  ∃ severity channel, effectiveSeverity step.call.severity step.call.status = .ok severity ∧
    Runs (send O sender (noticeOf step.call severity) channel) (callsOf channel step.asked) (.ok true)

/-- Where the call is not suppressed, a channel accepts it. -/
def AcceptedIfMarked (sender : NotificationSender F) (past : List (Notified F)) (step : Notified F) :
    Prop :=
  ¬ IsUnhashable (step.call.severity.getD .none) →
    WindowUsable sender (seenAfter O sender past) step.key →
    ¬ Duplicate sender (seenAfter O sender past) step.now step.key →
    ∃ channel, Accepts (callsOf channel step.asked) channel

/-- A condition on every call of a run and what came before it. -/
def Throughout (P : List (Notified F) → Notified F → Prop) : List (Notified F) → Prop
  | [] => True
  | step :: past => P past step ∧ Throughout P past

variable {O} {sender : NotificationSender F} {run past : List (Notified F)} {step : Notified F}

/-! ## One call -/

/-- A call marks its key or none. -/
theorem seenAfter_cons (henabled : truthy sender.dedupEnabled = true)
    (hrun : IsRun O sender (step :: past)) :
    seenAfter O sender (step :: past) = seenAfter O sender past ∨
    ∃ severity, effectiveSeverity step.call.severity step.call.status = .ok severity ∧
      WindowUsable sender (seenAfter O sender past) step.key ∧
      ¬ Duplicate sender (seenAfter O sender past) step.now step.key ∧
      seenAfter O sender (step :: past) =
        Function.update (seenAfter O sender past) step.key (some step.now) ∧
      Runs (fanOut O sender (noticeOf step.call severity) severity channels) step.asked step.result := by
  have hcall := hrun.1
  have hafter : seenAfter O sender (step :: past) =
      (notify O sender (seenAfter O sender past) step.now step.call none).1 := rfl
  rw [hafter]
  generalize seenAfter O sender past = seen at hcall ⊢
  unfold notify at hcall ⊢
  rcases hseverity : effectiveSeverity step.call.severity step.call.status with e | severity
  · exact Or.inl rfl
  · rw [hseverity] at hcall
    have hkey : keyOf step.call none = step.key := rfl
    rw [hkey] at hcall ⊢
    rcases isDuplicate_cases sender seen step.now step.key with
      ⟨e, hdup, -⟩ | ⟨hdup, -⟩ | ⟨seen', hdup, hwindow, hduplicate, hseen⟩
    all_goals simp only [hdup] at hcall ⊢
    · exact Or.inl trivial
    · exact Or.inl trivial
    -- past the check the key is marked before any channel is tried
    · have hmarked : seen' = Function.update seen step.key (some step.now) := by
        rcases hseen with ⟨-, hdisabled⟩ | hmarked
        · rw [henabled] at hdisabled
          cases hdisabled
        · exact hmarked
      exact Or.inr ⟨severity, rfl, hwindow, hduplicate, hmarked, hcall⟩

omit [FloatTimes F] in
/-- What a channel accepts was delivered. -/
theorem delivered_of_accepts {severity : Str}
    (hseverity : effectiveSeverity step.call.severity step.call.status = .ok severity)
    (hrun : Runs (fanOut O sender (noticeOf step.call severity) severity channels) step.asked
      step.result)
    {channel : Channel} (haccepts : Accepts (callsOf channel step.asked) channel) :
    Delivered O sender step := by
  have hcalls : callsOf channel step.asked ≠ [] := by
    intro hnone
    rw [hnone] at haccepts
    exact not_accepts_nil channel haccepts
  rcases tried_fanOut (by decide) hrun hcalls with ⟨r, hsend⟩
  have hr : r = .ok true := (runs_send hsend).2.mpr haccepts
  exact ⟨severity, channel, hseverity, hr ▸ hsend⟩

/-! ## Runs -/

/-- What was seen was marked by a call that was delivered. -/
theorem exists_of_seen (henabled : truthy sender.dedupEnabled = true) (hrun : IsRun O sender run)
    (haccepted : Throughout (AcceptedIfMarked O sender) run) {key : Str} {t : ℚ}
    (hseen : seenAfter O sender run key = some t) :
    ∃ earlier ∈ run, earlier.key = key ∧ earlier.now = t ∧ Delivered O sender earlier := by
  induction run with
  | nil => cases hseen
  | cons step past ih =>
    have hpast : seenAfter O sender past key = some t →
        ∃ earlier ∈ step :: past, earlier.key = key ∧ earlier.now = t ∧ Delivered O sender earlier := by
      intro h
      rcases ih hrun.2.2 haccepted.2 h with ⟨earlier, hmem, hearlier⟩
      exact ⟨earlier, List.mem_cons_of_mem _ hmem, hearlier⟩
    rcases seenAfter_cons henabled hrun with hsame |
      ⟨severity, hseverity, hwindow, hduplicate, hmarked, hfan⟩
    · exact hpast (hsame ▸ hseen)
    · rw [hmarked] at hseen
      by_cases hkey : key = step.key
      · -- the call has marked the key itself
        subst hkey
        rw [Function.update_self] at hseen
        have hhashable := effectiveSeverity_isOk_iff.mp ⟨severity, hseverity⟩
        rcases haccepted.1 hhashable hwindow hduplicate with ⟨channel, haccepts⟩
        exact ⟨step, List.mem_cons_self, rfl, Option.some.inj hseen,
          delivered_of_accepts hseverity hfan haccepts⟩
      · rw [Function.update_of_ne hkey] at hseen
        exact hpast hseen

omit [PyRuntime F] [FloatTimes F] [PyCase] in
theorem Throughout.and_past {P : List (Notified F) → Notified F → Prop} {after : List (Notified F)}
    (h : Throughout P (after ++ step :: past)) : P past step ∧ Throughout P past := by
  induction after with
  | nil => exact h
  | cons first after ih => exact ih h.2

theorem IsRun.before {after : List (Notified F)} (h : IsRun O sender (after ++ step :: past)) :
    IsRun O sender past := by
  induction after with
  | nil => exact h.2.2
  | cons first after ih => exact ih h.2.2

/-- In a run where a channel accepts every call that marks its key, and calls with the same key are
about the same event, a call is suppressed only after a call about the same event was delivered,
less than the window before. -/
theorem suppressed_after_delivery (henabled : truthy sender.dedupEnabled = true)
    (hrun : IsRun O sender run) (haccepted : Throughout (AcceptedIfMarked O sender) run)
    (hkeys : Throughout (fun past step => ∀ earlier ∈ past, earlier.key = step.key →
      SameEvent earlier step) run) (after : List (Notified F)) (step : Notified F)
    (past : List (Notified F)) (hsplit : run = after ++ step :: past)
    (hsuppressed : Suppressed O sender past step) :
    ∃ earlier ∈ past, SameEvent earlier step ∧ Delivered O sender earlier ∧
      timeLess (step.now - earlier.now) sender.dedupWindowSeconds = .ok true := by
  subst hsplit
  rcases hsuppressed.2 with ⟨-, lastSent, hseen, hless⟩
  rcases exists_of_seen henabled hrun.before haccepted.and_past.2 hseen with
    ⟨earlier, hmem, hkey, rfl, hdelivered⟩
  exact ⟨earlier, hmem, hkeys.and_past.1 earlier hmem hkey, hdelivered, hless⟩

end Runs

/-! ## Runs of two calls -/

/-- A call in a world, after others. -/
def notifiedIn (world : World (Channel × Call NanFloat) (fun c => Answer NanFloat c.2))
    (past : List (Notified NanFloat)) (call : NotifyCall NanFloat) (now : ℚ) : Notified NanFloat :=
  let calls := run world 0 (notify (PyVal NanFloat) (exampleSender "")
    (seenAfter (PyVal NanFloat) (exampleSender "") past) now call none).2
  ⟨call, now, calls.1, calls.2⟩

/-- Two calls in a world, ten seconds apart. -/
def twoCalls (world : World (Channel × Call NanFloat) (fun c => Answer NanFloat c.2))
    (first second : NotifyCall NanFloat) : List (Notified NanFloat) :=
  let earlier := notifiedIn world [] first 0
  [notifiedIn world [earlier] second 10, earlier]

theorem isRun_twoCalls (world : World (Channel × Call NanFloat) (fun c => Answer NanFloat c.2))
    (first second : NotifyCall NanFloat) :
    IsRun (PyVal NanFloat) (exampleSender "") (twoCalls world first second) :=
  ⟨runs_run world 0 _, by simp [notifiedIn], runs_run world 0 _, by simp, trivial⟩

/-- Ten seconds are less than the window. -/
theorem timeLess_exampleWindow :
    timeLess (10 - 0) (exampleSender "").dedupWindowSeconds = .ok true := by
  have hwindow : (exampleSender "").dedupWindowSeconds = .int 300 := rfl
  rw [hwindow]
  norm_num [timeLess, PyVal.num]

/-- The second call is suppressed after the first was delivered. -/
theorem suppressed_after_delivery_example :
    ∃ earlier ∈ [notifiedIn exampleWorld [] exampleCall 0],
      SameEvent earlier (notifiedIn exampleWorld [notifiedIn exampleWorld [] exampleCall 0] exampleCall 10) ∧
      Delivered (PyVal NanFloat) (exampleSender "") earlier ∧
      timeLess (10 - earlier.now) (exampleSender "").dedupWindowSeconds = .ok true := by
  have hduplicate : Duplicate (exampleSender "") (seenAfter (PyVal NanFloat) (exampleSender "")
      [notifiedIn exampleWorld [] exampleCall 0]) 10 (keyOf exampleCall none) :=
    ⟨rfl, 0, rfl, timeLess_exampleWindow⟩
  refine suppressed_after_delivery rfl (isRun_twoCalls exampleWorld exampleCall exampleCall)
    ⟨fun _ _ hnot => absurd hduplicate hnot, fun _ _ _ => ⟨.slack, ?_⟩, trivial⟩
    ⟨?_, by simp, trivial⟩ [] _ _ rfl ⟨id, hduplicate⟩
  · exact ⟨_, List.mem_cons_self, rfl⟩
  · intro earlier hmem _
    rw [List.mem_singleton.mp hmem]
    exact ⟨rfl, rfl, rfl⟩

/-- Every post is answered with 500. -/
def failingWorld : World (Channel × Call NanFloat) (fun c => Answer NanFloat c.2)
  | _, (_, .post _ _ _) => Posted.status 500
  | n, c => exampleWorld n c

/-- A call whose names hold the separator. -/
def colonCall (action controller : String) : NotifyCall NanFloat :=
  { exampleCall with action := py action, controller := some (py controller) }

/-- The second call is suppressed although no channel delivered the first, and although the first
was about another action on another controller. -/
theorem suppressed_without_delivery :
    (∃ first second, IsRun (PyVal NanFloat) (exampleSender "") [second, first] ∧
      Suppressed (PyVal NanFloat) (exampleSender "") [first] second ∧
      ∀ earlier ∈ [first], ¬ Delivered (PyVal NanFloat) (exampleSender "") earlier) ∧
    ∃ first second, IsRun (PyVal NanFloat) (exampleSender "") [second, first] ∧
      Suppressed (PyVal NanFloat) (exampleSender "") [first] second ∧
      ∀ earlier ∈ [first], ¬ SameEvent earlier second := by
  constructor
  · refine ⟨_, _, isRun_twoCalls failingWorld exampleCall exampleCall,
      ⟨id, rfl, 0, rfl, timeLess_exampleWindow⟩, ?_⟩
    intro earlier hmem
    rw [List.mem_singleton.mp hmem]
    rintro ⟨severity, channel, -, hsend⟩
    have haccepts := (runs_send hsend).2.mp rfl
    -- Slack and PagerDuty answer 500, and no other channel is set up
    cases channel with
    | slack =>
      rcases haccepts with ⟨m, hm, haccepted⟩
      rw [List.mem_singleton.mp hm] at haccepted
      cases haccepted
    | teams =>
      rcases haccepts with ⟨m, hm, -⟩
      cases (show m ∈ ([] : List (Made NanFloat)) from hm)
    | email =>
      rcases haccepts.1 with ⟨m, hm, -⟩
      cases (show m ∈ ([] : List (Made NanFloat)) from hm)
    | pagerduty =>
      rcases haccepts with ⟨m, hm, haccepted⟩
      rw [List.mem_singleton.mp hm] at haccepted
      cases haccepted
    | opsgenie =>
      rcases haccepts with ⟨m, hm, -⟩
      cases (show m ∈ ([] : List (Made NanFloat)) from hm)
  · refine ⟨_, _, isRun_twoCalls exampleWorld (colonCall "check:db" "local") (colonCall "check" "db:local"),
      ⟨id, rfl, 0, rfl, timeLess_exampleWindow⟩, ?_⟩
    intro earlier hmem
    rw [List.mem_singleton.mp hmem]
    rintro ⟨haction, -⟩
    revert haction
    decide

end AutoHeal.Notify
