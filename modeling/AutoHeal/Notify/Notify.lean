import AutoHeal.Notify.Usable

/-!
# `notify`

`notify` of `src/notifications.py`: its calls carry the channel they are made for.
`notify_returns_iff` says when it returns what came of every channel a severity is routed to.
-/

namespace AutoHeal.Notify

open Server Prog

variable {F : Type}

/-- A program whose calls are made for channels. -/
abbrev Fanned (F : Type) (α : Type) := Prog (Channel × Call F) (fun c => Answer F c.2) α

/-- A call made for a channel. -/
abbrev MadeFor (F : Type) := Asked (Channel × Call F) (fun c => Answer F c.2)

/-- What a channel is given. -/
def noticeOf (call : NotifyCall F) (severity : Str) : Notice where
  action := call.action
  controller := call.controller
  user := call.user
  status := call.status
  details := call.details
  severity := some severity

/-- `dedup_key or f"{action}:{controller}:{status}"`. -/
def keyOf (call : NotifyCall F) (dedupKey : Option Str) : Str :=
  let default := call.action ++ py ":" ++ call.controller.getD (py "None") ++ py ":" ++ call.status
  match dedupKey with
  | some key => if key = [] then default else key
  | none => default

section Channels

variable [PyRuntime F] (O : Type) [PyObjects F O] [PyCase]

/-- The loop of `notify`. -/
def fanOut (sender : NotificationSender F) (n : Notice) (severity : Str) :
    List Channel → Fanned F (Py (List (Channel × Bool)))
  | [] => pure (.ok [])
  | channel :: rest =>
    match wantsChannel sender channel severity with
    | .error e => pure (.error e)
    | .ok false => fanOut sender n severity rest
    | .ok true => do
      match ← label channel (send O sender n channel) with
      | .error e => return .error e
      | .ok delivered =>
        return (← fanOut sender n severity rest).map ((channel, delivered) :: ·)

/-- `notify` at the time `now`: what was seen afterwards, and the rest of the call. -/
def notify [FloatTimes F] (sender : NotificationSender F) (seen : Seen) (now : ℚ)
    (call : NotifyCall F) (dedupKey : Option Str) :
    Seen × Fanned F (Py (List (Channel × Bool))) :=
  match effectiveSeverity call.severity call.status with
  | .error e => (seen, pure (.error e))
  | .ok severity =>
    match isDuplicate sender seen now (keyOf call dedupKey) with
    | .error e => (seen, pure (.error e))
    | .ok (true, seen) => (seen, pure (.ok []))
    | .ok (false, seen) => (seen, fanOut O sender (noticeOf call severity) severity channels)

/-! ## The loop -/

/-- A severity is routed to a channel. -/
def isWanted (sender : NotificationSender F) (severity : Str) (channel : Channel) : Bool :=
  match wantsChannel sender channel severity with
  | .ok wanted => wanted
  | .error _ => false

variable {O} {sender : NotificationSender F} {n : Notice} {severity : Str}
variable {asked : List (MadeFor F)} {r : Py (List (Channel × Bool))}

/-- What the loop can do with a channel. -/
theorem runs_fanOut_cons {channel : Channel} {rest : List Channel}
    (h : Runs (fanOut O sender n severity (channel :: rest)) asked r) :
    ((∃ e, wantsChannel sender channel severity = .error e) ∧ asked = [] ∧ ∃ e, r = .error e) ∨
    (wantsChannel sender channel severity = .ok false ∧ Runs (fanOut O sender n severity rest) asked r) ∨
    wantsChannel sender channel severity = .ok true ∧ ∃ own after r',
      asked = own.map (labelled channel) ++ after ∧ Runs (send O sender n channel) own r' ∧
        ((after = [] ∧ (∃ e, r' = .error e) ∧ ∃ e, r = .error e) ∨
          ∃ delivered results, r' = .ok delivered ∧ r = results.map ((channel, delivered) :: ·) ∧
            Runs (fanOut O sender n severity rest) after results) := by
  unfold fanOut at h
  rcases hwants : wantsChannel sender channel severity with e | _ | _
  all_goals simp only [hwants] at h
  · rcases runs_pure_iff.mp h with ⟨rfl, rfl⟩
    exact Or.inl ⟨⟨e, rfl⟩, rfl, e, rfl⟩
  · exact Or.inr (Or.inl ⟨rfl, h⟩)
  · rw [runs_bind_iff] at h
    rcases h with ⟨r', before, after, rfl, hsend, hnext⟩
    rcases runs_label_iff.mp hsend with ⟨own, rfl, hown⟩
    refine Or.inr (Or.inr ⟨rfl, own, after, r', rfl, hown, ?_⟩)
    rcases r' with e | delivered
    · rcases runs_pure_iff.mp hnext with ⟨rfl, rfl⟩
      exact Or.inl ⟨rfl, ⟨e, rfl⟩, e, rfl⟩
    · simp only [runs_bind_iff, runs_pure_iff] at hnext
      rcases hnext with ⟨results, calls, _, rfl, hrest, rfl, rfl⟩
      rw [List.append_nil]
      exact Or.inr ⟨delivered, results, rfl, rfl, hrest⟩

/-- The loop makes no call for a channel it does not go through. -/
theorem callsOf_fanOut {cs : List Channel} (h : Runs (fanOut O sender n severity cs) asked r)
    {channel : Channel} (hchannel : channel ∉ cs) : callsOf channel asked = [] := by
  induction cs generalizing asked r with
  | nil =>
    rw [(runs_pure_iff.mp h).1]
    rfl
  | cons first rest ih =>
    have hne : first ≠ channel := fun heq => hchannel (heq ▸ List.mem_cons_self)
    have hrest : channel ∉ rest := fun hmem => hchannel (List.mem_cons_of_mem _ hmem)
    rcases runs_fanOut_cons h with ⟨-, rfl, -⟩ | ⟨-, hrun⟩ | ⟨-, own, after, r', rfl, -, hcases⟩
    · rfl
    · exact ih hrun hrest
    · rw [callsOf_append, callsOf_labelled_of_ne hne, List.nil_append]
      rcases hcases with ⟨rfl, -⟩ | ⟨_, _, -, -, hrun⟩
      · rfl
      · exact ih hrun hrest

/-- The calls for the first channel, and those for the others. -/
theorem callsOf_fanOut_cons {first : Channel} {rest : List Channel} (hnodup : (first :: rest).Nodup)
    (own : List (Made F)) {after : List (MadeFor F)} {results : Py (List (Channel × Bool))}
    (h : Runs (fanOut O sender n severity rest) after results) :
    callsOf first (own.map (labelled first) ++ after) = own ∧
      ∀ channel ∈ rest, callsOf channel (own.map (labelled first) ++ after) = callsOf channel after := by
  rcases List.nodup_cons.mp hnodup with ⟨hfirst, -⟩
  constructor
  · rw [callsOf_append, callsOf_labelled, callsOf_fanOut h hfirst, List.append_nil]
  · intro channel hchannel
    have hne : first ≠ channel := fun heq => hfirst (heq ▸ hchannel)
    rw [callsOf_append, callsOf_labelled_of_ne hne, List.nil_append]

/-- The loop returns exactly when the routing and the channels that are wanted are usable. -/
theorem returns_fanOut {cs : List Channel} (hnodup : cs.Nodup)
    (h : Runs (fanOut O sender n severity cs) asked r) :
    (∃ results, r = .ok results) ↔ (cs ≠ [] → RoutingUsable sender severity) ∧
      ∀ channel ∈ cs, isWanted sender severity channel = true →
        Usable O sender n (callsOf channel asked) channel := by
  induction cs generalizing asked r with
  | nil =>
    rcases runs_pure_iff.mp h with ⟨rfl, rfl⟩
    simp
  | cons first rest ih =>
    have hrest := (List.nodup_cons.mp hnodup).2
    have hrouting : (∃ b, wantsChannel sender first severity = .ok b) ↔ RoutingUsable sender severity :=
      wantsChannel_isOk_iff
    rcases runs_fanOut_cons h with ⟨⟨e, he⟩, rfl, e', rfl⟩ | ⟨hunwanted, hrun⟩ |
      ⟨hwanted, own, after, r', rfl, hsend, ⟨rfl, ⟨e, rfl⟩, e', rfl⟩ | ⟨delivered, results, rfl, rfl, hrun⟩⟩
    · -- there is no routing
      rw [he] at hrouting
      have hnone : ¬ RoutingUsable sender severity := by simpa using hrouting
      simp [hnone]
    · have hunwanted' : isWanted sender severity first = false := by
        unfold isWanted
        rw [hunwanted]
      have husable : RoutingUsable sender severity := hrouting.mp ⟨false, hunwanted⟩
      rw [ih hrest hrun]
      simp [husable, hunwanted']
    · -- the channel raises
      have hwanted' : isWanted sender severity first = true := by
        unfold isWanted
        rw [hwanted]
      refine iff_of_false (by simp) ?_
      rintro ⟨-, hall⟩
      have husable := hall first List.mem_cons_self hwanted'
      rw [List.append_nil, callsOf_labelled] at husable
      rcases (runs_send hsend).1.mpr husable with ⟨b, hb⟩
      cases hb
    · have husable : RoutingUsable sender severity := hrouting.mp ⟨true, hwanted⟩
      rcases callsOf_fanOut_cons hnodup own hrun with ⟨hfirst, hothers⟩
      have hown : Usable O sender n own first := (runs_send hsend).1.mp ⟨delivered, rfl⟩
      have hmap : (∃ list, results.map ((first, delivered) :: ·) = .ok list) ↔
          ∃ list, results = .ok list := by
        cases results <;> simp [Except.map]
      rw [hmap, ih hrest hrun]
      constructor
      · rintro ⟨-, hall⟩
        refine ⟨fun _ => husable, fun channel hmem hwanted => ?_⟩
        rcases List.mem_cons.mp hmem with rfl | hmem
        · rw [hfirst]
          exact hown
        · rw [hothers channel hmem]
          exact hall channel hmem hwanted
      · rintro ⟨-, hall⟩
        refine ⟨fun _ => husable, fun channel hmem hwanted => ?_⟩
        rw [← hothers channel hmem]
        exact hall channel (List.mem_cons_of_mem _ hmem) hwanted

/-- What the loop returns is about the channels that are wanted. -/
theorem keys_fanOut {cs : List Channel} {results : List (Channel × Bool)}
    (h : Runs (fanOut O sender n severity cs) asked (.ok results)) :
    results.map Prod.fst = cs.filter (isWanted sender severity) := by
  induction cs generalizing asked results with
  | nil =>
    rcases runs_pure_iff.mp h with ⟨-, hresults⟩
    cases hresults
    rfl
  | cons first rest ih =>
    rcases runs_fanOut_cons h with ⟨-, -, e, he⟩ | ⟨hunwanted, hrun⟩ |
      ⟨hwanted, own, after, r', -, -, ⟨-, -, e, he⟩ | ⟨delivered, others, -, hresults, hrun⟩⟩
    · cases he
    · rw [List.filter_cons_of_neg (by simp [isWanted, hunwanted])]
      exact ih hrun
    · cases he
    · rcases others with e | list
      · cases hresults
      · cases hresults
        rw [List.filter_cons_of_pos (by simp [isWanted, hwanted]), List.map_cons, ih hrun]

/-- A channel that calls were made for was tried. -/
theorem tried_fanOut {cs : List Channel} (hnodup : cs.Nodup)
    (h : Runs (fanOut O sender n severity cs) asked r) {channel : Channel}
    (hcalls : callsOf channel asked ≠ []) :
    ∃ r', Runs (send O sender n channel) (callsOf channel asked) r' := by
  induction cs generalizing asked r with
  | nil =>
    rw [(runs_pure_iff.mp h).1] at hcalls
    exact absurd rfl hcalls
  | cons first rest ih =>
    have hrest := (List.nodup_cons.mp hnodup).2
    rcases runs_fanOut_cons h with ⟨-, rfl, -⟩ | ⟨-, hrun⟩ |
      ⟨-, own, after, r', rfl, hsend, ⟨rfl, -⟩ | ⟨_, results, -, -, hrun⟩⟩
    · exact absurd rfl hcalls
    · exact ih hrest hrun hcalls
    · by_cases heq : first = channel
      · subst heq
        rw [List.append_nil, callsOf_labelled]
        exact ⟨r', hsend⟩
      · rw [List.append_nil, callsOf_labelled_of_ne heq] at hcalls
        exact absurd rfl hcalls
    · rcases callsOf_fanOut_cons hnodup own hrun with ⟨hfirst, hothers⟩
      by_cases heq : first = channel
      · subst heq
        rw [hfirst]
        exact ⟨r', hsend⟩
      · rw [callsOf_append, callsOf_labelled_of_ne heq, List.nil_append] at hcalls ⊢
        exact ih hrest hrun hcalls

/-! ## The call -/

section Call

variable [FloatTimes F] {seen : Seen} {now : ℚ} {call : NotifyCall F} {dedupKey : Option Str}

/-- The call returns what came of every channel its severity is routed to. A duplicate is about
none. -/
def Returns (sender : NotificationSender F) (seen : Seen) (now : ℚ) (call : NotifyCall F)
    (dedupKey : Option Str) (r : Py (List (Channel × Bool))) : Prop :=
  ∃ results, r = .ok results ∧ (¬ Duplicate sender seen now (keyOf call dedupKey) →
    ∀ severity, effectiveSeverity call.severity call.status = .ok severity →
      results.map Prod.fst = channels.filter (isWanted sender severity))

variable (O)

/-- What is configured and what is answered is usable, as far as it is needed. -/
structure Sound (sender : NotificationSender F) (seen : Seen) (now : ℚ) (call : NotifyCall F)
    (dedupKey : Option Str) (asked : List (MadeFor F)) : Prop where
  severity : ¬ IsUnhashable (call.severity.getD .none)
  window : WindowUsable sender seen (keyOf call dedupKey)
  routing : ¬ Duplicate sender seen now (keyOf call dedupKey) →
    ∀ severity, effectiveSeverity call.severity call.status = .ok severity →
      RoutingUsable sender severity
  channel : ¬ Duplicate sender seen now (keyOf call dedupKey) →
    ∀ severity, effectiveSeverity call.severity call.status = .ok severity →
      ∀ channel ∈ channels, isWanted sender severity channel = true →
        Usable O sender (noticeOf call severity) (callsOf channel asked) channel

variable {O}

/-- What a call can come to: it is stopped, or it goes through the channels. -/
theorem notify_cases (h : Runs (notify O sender seen now call dedupKey).2 asked r) :
    (IsUnhashable (call.severity.getD .none) ∧ ∃ e, r = .error e) ∨
    ∃ severity, effectiveSeverity call.severity call.status = .ok severity ∧
      ((¬ WindowUsable sender seen (keyOf call dedupKey) ∧ ∃ e, r = .error e) ∨
        WindowUsable sender seen (keyOf call dedupKey) ∧
          ((Duplicate sender seen now (keyOf call dedupKey) ∧ r = .ok []) ∨
            ¬ Duplicate sender seen now (keyOf call dedupKey) ∧
              Runs (fanOut O sender (noticeOf call severity) severity channels) asked r)) := by
  have hseverity : (∃ severity, effectiveSeverity call.severity call.status = .ok severity) ↔
      ¬ IsUnhashable (call.severity.getD .none) := effectiveSeverity_isOk_iff
  unfold notify at h
  rcases heffective : effectiveSeverity call.severity call.status with e | severity
  · rw [heffective] at h hseverity
    rcases runs_pure_iff.mp h with ⟨-, rfl⟩
    exact Or.inl ⟨by simpa using hseverity, e, rfl⟩
  · rw [heffective] at h
    refine Or.inr ⟨severity, rfl, ?_⟩
    -- the window is looked at before any channel, and may raise itself
    rcases isDuplicate_cases sender seen now (keyOf call dedupKey) with
      ⟨e, hdup, hwindow, -⟩ | ⟨hdup, hwindow, hduplicate⟩ | ⟨seen', hdup, hwindow, hduplicate, -⟩
    · simp only [hdup] at h
      rcases runs_pure_iff.mp h with ⟨-, rfl⟩
      exact Or.inl ⟨hwindow, e, rfl⟩
    · simp only [hdup] at h
      rcases runs_pure_iff.mp h with ⟨-, rfl⟩
      exact Or.inr ⟨hwindow, Or.inl ⟨hduplicate, rfl⟩⟩
    · simp only [hdup] at h
      exact Or.inr ⟨hwindow, Or.inr ⟨hduplicate, h⟩⟩

/-- The call returns, with every channel it is routed to, exactly when what it needs is usable. -/
theorem notify_returns_iff (h : Runs (notify O sender seen now call dedupKey).2 asked r) :
    Returns sender seen now call dedupKey r ↔ Sound O sender seen now call dedupKey asked := by
  have hraised : ∀ e, r = .error e → ¬ Returns sender seen now call dedupKey r := by
    rintro e rfl ⟨results, hresults, -⟩
    cases hresults
  rcases notify_cases h with ⟨hunhashable, e, he⟩ | ⟨severity, hseverity, ⟨hwindow, e, he⟩ |
    ⟨hwindow, ⟨hduplicate, rfl⟩ | ⟨hduplicate, hrun⟩⟩⟩
  · exact iff_of_false (hraised e he) fun hsound => hsound.severity hunhashable
  · exact iff_of_false (hraised e he) fun hsound => hwindow hsound.window
  · have hhashable := effectiveSeverity_isOk_iff.mp ⟨severity, hseverity⟩
    refine iff_of_true ⟨[], rfl, fun hnot => absurd hduplicate hnot⟩ ⟨hhashable, hwindow, ?_, ?_⟩
    · exact fun hnot => absurd hduplicate hnot
    · exact fun hnot => absurd hduplicate hnot
  · have hhashable := effectiveSeverity_isOk_iff.mp ⟨severity, hseverity⟩
    -- the channels are tried in turn, so each of them has to return
    have hnodup : channels.Nodup := by decide
    have hreturns := returns_fanOut hnodup hrun
    have hone : ∀ severity', effectiveSeverity call.severity call.status = .ok severity' →
        severity' = severity := by
      intro severity' h'
      rw [hseverity] at h'
      exact (Except.ok.inj h').symm
    constructor
    · rintro ⟨results, rfl, -⟩
      rcases hreturns.mp ⟨results, rfl⟩ with ⟨hrouting, hchannels⟩
      refine ⟨hhashable, hwindow, fun _ severity' h' => ?_, fun _ severity' h' => ?_⟩
      · rw [hone severity' h']
        exact hrouting (by decide)
      · rw [hone severity' h']
        exact hchannels
    · intro hsound
      rcases hreturns.mpr ⟨fun _ => hsound.routing hduplicate severity hseverity,
        hsound.channel hduplicate severity hseverity⟩ with ⟨results, rfl⟩
      refine ⟨results, rfl, fun _ severity' h' => ?_⟩
      rw [hone severity' h']
      exact keys_fanOut hrun

end Call

end Channels

/-! ## Two calls -/

/-- Examples have ASCII texts only. -/
instance : PyCase where
  upper s := s.map fun c => if 97 ≤ c.val ∧ c.val ≤ 122 then c - 32 else c

/-- A configuration with Slack and PagerDuty, and a template. -/
def exampleConfig (template : String) : Dict NanFloat :=
  [(.str (py "slack"), obj [("enabled", .bool true), ("webhook_url", .str (py "https://slack"))]),
    (.str (py "pagerduty"), obj [("enabled", .bool true), ("routing_key", .str (py "key"))]),
    (.str (py "templates"), obj [("default", .str (py template))])]

/-- The sender for it. -/
def exampleSender (template : String) : NotificationSender NanFloat :=
  (NotificationSender.init (exampleConfig template)).toOption.get rfl

def exampleCall : NotifyCall NanFloat where
  action := py "check"
  controller := some (py "local")
  user := py "admin-key"
  status := py "failure"
  details := none
  severity := none

/-- Slack and PagerDuty take what they get, and nothing else works. -/
def exampleWorld : World (Channel × Call NanFloat) (fun c => Answer NanFloat c.2)
  | _, (.slack, .post _ _ _) => Posted.status 200
  | _, (_, .post _ _ _) => Posted.status 202
  | _, (_, .getSecret _) => Except.error (.unavailable [])
  | _, (_, .mkstemp) => Except.error ⟨.osError, []⟩
  | _, (_, .writeSecret _ _) => Except.error ⟨.osError, []⟩
  | _, (_, .unlink _) => false
  | _, (_, .readText _) => Except.error []
  | _, (_, .process _) => Process.raised []
  | _, (_, .loadIncluster) | _, (_, .loadKubeConfig _) => Except.error []
  | _, (_, .apiClient _) => Except.error (.other [])
  | _, (_, .utcNow) => []
  | _, (_, .kube _ _) => Except.error (.other [])
  | _, (_, .mimeText _) => Except.error .unicodeDecodeError
  | _, (_, .mimeString _ _ _ _) => Except.error .unicodeDecodeError
  | _, (_, .smtpConnect _ _) | _, (_, .smtpStarttls) | _, (_, .smtpLogin _ _)
  | _, (_, .smtpSend _ _ _) | _, (_, .smtpQuit) => false

/-- A call that is delivered on two channels. -/
theorem notify_returns_iff_example :
    Returns (exampleSender "\x7baction\x7d: \x7bstatus\x7d") (fun _ => none) 0 exampleCall none
        (.ok [(.slack, true), (.teams, false), (.email, false), (.pagerduty, true),
          (.opsgenie, false)]) ∧
      Sound (PyVal NanFloat) (exampleSender "\x7baction\x7d: \x7bstatus\x7d") (fun _ => none) 0
        exampleCall none (run exampleWorld 0 (notify (PyVal NanFloat)
          (exampleSender "\x7baction\x7d: \x7bstatus\x7d") (fun _ => none) 0 exampleCall none).2).1 := by
  have hreturns : Returns (exampleSender "\x7baction\x7d: \x7bstatus\x7d") (fun _ => none) 0 exampleCall
      none (.ok [(.slack, true), (.teams, false), (.email, false), (.pagerduty, true),
        (.opsgenie, false)]) := by
    refine ⟨_, rfl, fun _ severity hseverity => ?_⟩
    cases hseverity
    rfl
  exact ⟨hreturns, (notify_returns_iff (runs_run exampleWorld 0 (notify (PyVal NanFloat)
    (exampleSender "\x7baction\x7d: \x7bstatus\x7d") (fun _ => none) 0 exampleCall none).2)).mp hreturns⟩

/-- A template with a brace that is not closed is a `ValueError`, and PagerDuty is never tried. -/
theorem notify_raises :
    Runs (notify (PyVal NanFloat) (exampleSender "\x7baction") (fun _ => none) 0 exampleCall none).2 []
        (.error .valueError) ∧
      isWanted (exampleSender "\x7baction") (py "warning") .pagerduty = true :=
  ⟨.done _, rfl⟩

end AutoHeal.Notify
