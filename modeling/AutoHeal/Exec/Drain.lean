import AutoHeal.Exec.Cleanup

/-!
# Draining a node

A drained node is drained: `_kube_drain_node` makes the node unschedulable, asks for one eviction
of every pod that no DaemonSet owns, and reports a success when every eviction was accepted.
`Drains` is what the loop over the pods gives, whatever comes of each eviction.
-/

namespace AutoHeal.Exec

open Server

variable {F : Type}

/-- A DaemonSet owns the pod. -/
def Pinned (pod : Pod) : Prop := py "DaemonSet" ∈ pod.owners

instance : DecidablePred Pinned := fun pod => inferInstanceAs (Decidable (_ ∈ pod.owners))

/-- The pods to evict. -/
def evictable (pods : List Pod) : List Pod := pods.filter fun pod => ¬ Pinned pod

/-- The request to evict a pod. -/
def evictionOf (pod : Pod) : Call F :=
  .kube (py "create_namespaced_pod_eviction") [.str pod.name, .str pod.podNamespace]

/-- The method of the API a call is one of. -/
def methodOf : Call F → Option Str
  | .kube method _ => some method
  | _ => none

/-- The call asks for an eviction. -/
def IsEviction (call : Call F) : Prop := methodOf call = some (py "create_namespaced_pod_eviction")

/-- A call of the API was accepted. -/
def Accepted (m : Made F) : Prop :=
  match m with
  | ⟨.kube _ _, answer⟩ => ∃ pods, (answer : Except KubeError (List Pod)) = .ok pods
  | _ => False

/-- A call of the API raised an exception that is no `ApiException`. -/
def Interrupted (m : Made F) : Prop :=
  match m with
  | ⟨.kube _ _, answer⟩ => ∃ text, (answer : Except KubeError (List Pod)) = .error (.other text)
  | _ => False

/-- What the loop gives for some pods: one request a pod to evict, in order, the pods of DaemonSets
skipped, and every other pod either evicted or failed. -/
structure Drains (pods : List Pod) (attempts : List (Made F)) (drained : Drained) : Prop where
  requested : attempts.map Asked.call = (evictable pods).map evictionOf
  skipped : drained.skipped = (pods.filter fun pod => Pinned pod).map Pod.name
  tried : (drained.evicted ++ drained.failed.map Prod.fst).Perm ((evictable pods).map Pod.name)
  clean : drained.failed = [] ↔ ∀ m ∈ attempts, Accepted m

/-- One part of a drain, then another. -/
def Drained.append (before after : Drained) : Drained :=
  ⟨before.evicted ++ after.evicted, before.skipped ++ after.skipped, before.failed ++ after.failed⟩

section Steps

variable {pod : Pod} {pods : List Pod} {attempts : List (Made F)} {drained : Drained}

theorem Drains.nil : Drains [] ([] : List (Made F)) ⟨[], [], []⟩ where
  requested := rfl
  skipped := rfl
  tried := .nil
  clean := ⟨fun _ _ hm => absurd hm List.not_mem_nil, fun _ => rfl⟩

theorem Drains.skip (hpod : Pinned pod) (h : Drains pods attempts drained) :
    Drains (pod :: pods) attempts (Drained.append ⟨[], [pod.name], []⟩ drained) := by
  have hsame : evictable (pod :: pods) = evictable pods := List.filter_cons_of_neg (by simpa using hpod)
  constructor
  · rw [hsame]
    exact h.requested
  · rw [List.filter_cons_of_pos (by simpa using hpod)]
    exact congrArg (pod.name :: ·) h.skipped
  · rw [hsame]
    exact h.tried
  · exact h.clean

/-- The pods to evict, the first of them being one. -/
theorem evictable_cons (hpod : ¬ Pinned pod) : evictable (pod :: pods) = pod :: evictable pods :=
  List.filter_cons_of_pos (by simpa using hpod)

theorem Drains.evict (hpod : ¬ Pinned pod) {answer : Answer F (evictionOf pod)}
    (hanswer : Accepted ⟨evictionOf pod, answer⟩) (h : Drains pods attempts drained) :
    Drains (pod :: pods) (⟨evictionOf pod, answer⟩ :: attempts)
      (Drained.append ⟨[pod.name], [], []⟩ drained) := by
  constructor
  · rw [evictable_cons hpod]
    exact congrArg (evictionOf pod :: ·) h.requested
  · rw [List.filter_cons_of_neg (by simpa using hpod)]
    exact h.skipped
  · rw [evictable_cons hpod]
    exact h.tried.cons pod.name
  · show drained.failed = [] ↔ _
    rw [h.clean, List.forall_mem_cons]
    exact ⟨fun hall => ⟨hanswer, hall⟩, fun hall => hall.2⟩

theorem Drains.fail (error : Str) (hpod : ¬ Pinned pod) {answer : Answer F (evictionOf pod)}
    (hanswer : ¬ Accepted ⟨evictionOf pod, answer⟩) (h : Drains pods attempts drained) :
    Drains (pod :: pods) (⟨evictionOf pod, answer⟩ :: attempts)
      (Drained.append ⟨[], [], [(pod.name, error)]⟩ drained) := by
  constructor
  · rw [evictable_cons hpod]
    exact congrArg (evictionOf pod :: ·) h.requested
  · rw [List.filter_cons_of_neg (by simpa using hpod)]
    exact h.skipped
  · rw [evictable_cons hpod]
    exact List.perm_middle.trans (h.tried.cons pod.name)
  · constructor
    · intro hnone
      cases hnone
    · intro hall
      exact absurd (hall _ List.mem_cons_self) hanswer

/-- The three lists partition the pods. -/
theorem Drains.partition (h : Drains pods attempts drained) :
    (drained.evicted ++ drained.skipped ++ drained.failed.map Prod.fst).Perm (pods.map Pod.name) := by
  have hsplit : ((evictable pods).map Pod.name ++ drained.skipped).Perm (pods.map Pod.name) := by
    rw [h.skipped, ← List.map_append]
    refine (List.perm_append_comm.trans ?_).map Pod.name
    simpa [evictable] using List.filter_append_perm (fun pod => decide (Pinned pod)) pods
  rw [List.append_assoc]
  refine List.Perm.trans ?_ hsplit
  refine (List.perm_append_comm.append_left _).trans ?_
  rw [← List.append_assoc]
  exact h.tried.append_right _

end Steps

/-- The loop: it goes through, or an exception that is no `ApiException` ends it. -/
theorem runs_evictPods {pods : List Pod} {before : Drained} {asked : List (Made F)}
    {r : Except KubeError Drained} (h : Prog.Runs (evictPods before pods) asked r) :
    (∀ m ∈ asked, IsEviction m.call) ∧
      ((∃ drained, r = .ok (before.append drained) ∧ Drains pods asked drained ∧
          ∀ m ∈ asked, ¬ Interrupted m) ∨
        (∃ text, r = .error (.other text)) ∧ ∃ m ∈ asked, Interrupted m) := by
  induction pods generalizing before asked with
  | nil =>
    rcases Prog.runs_pure_iff.mp h with ⟨rfl, rfl⟩
    refine ⟨fun m hm => absurd hm List.not_mem_nil, Or.inl ⟨⟨[], [], []⟩, ?_, .nil, ?_⟩⟩
    · simp [Drained.append]
    · exact fun m hm => absurd hm List.not_mem_nil
  | cons pod pods ih =>
    unfold evictPods at h
    by_cases hpod : Pinned pod
    · rw [if_pos (List.contains_iff_mem.mpr hpod)] at h
      rcases ih h with ⟨hevictions, ⟨drained, rfl, hdrains, hgoes⟩ | hstops⟩
      · refine ⟨hevictions, Or.inl ⟨_, ?_, hdrains.skip hpod, hgoes⟩⟩
        simp [Drained.append]
      · exact ⟨hevictions, Or.inr hstops⟩
    · rw [if_neg (mt List.contains_iff_mem.mp hpod)] at h
      rcases Prog.runs_bind_iff.mp h with ⟨answer, _, after, rfl, hcall, hafter⟩
      rcases Prog.runs_call_iff.mp hcall with rfl
      have hfirst : IsEviction (evictionOf pod : Call F) := rfl
      rcases answer with (⟨body, status, reason, text⟩ | text) | listed
      · -- the eviction was refused: the pod is reported and the loop goes on
        have hfailed : ∃ error, Prog.Runs (evictPods (before.append ⟨[], [], [(pod.name, error)]⟩) pods)
            after r := by
          simp only [Drained.append, List.append_nil]
          exact ⟨_, hafter⟩
        rcases hfailed with ⟨error, hafter⟩
        rcases ih hafter with ⟨hevictions, ⟨drained, rfl, hdrains, hgoes⟩ | ⟨hstops, m, hm, hmi⟩⟩
        · refine ⟨List.forall_mem_cons.mpr ⟨hfirst, hevictions⟩,
            Or.inl ⟨_, ?_, hdrains.fail error hpod ?_, ?_⟩⟩
          · simp only [Drained.append, List.append_assoc]
          · rintro ⟨listed, hlisted⟩
            cases hlisted
          · refine List.forall_mem_cons.mpr ⟨?_, hgoes⟩
            rintro ⟨text, htext⟩
            cases htext
        · exact ⟨List.forall_mem_cons.mpr ⟨hfirst, hevictions⟩,
            Or.inr ⟨hstops, m, List.mem_cons_of_mem _ hm, hmi⟩⟩
      · -- another exception ends the loop
        rcases Prog.runs_pure_iff.mp hafter with ⟨rfl, rfl⟩
        refine ⟨List.forall_mem_cons.mpr ⟨hfirst, fun m hm => absurd hm List.not_mem_nil⟩, Or.inr ?_⟩
        exact ⟨⟨text, rfl⟩, _, List.mem_cons_self, text, rfl⟩
      · rcases ih hafter with ⟨hevictions, ⟨drained, rfl, hdrains, hgoes⟩ | ⟨hstops, m, hm, hmi⟩⟩
        · refine ⟨List.forall_mem_cons.mpr ⟨hfirst, hevictions⟩,
            Or.inl ⟨_, ?_, hdrains.evict hpod ⟨listed, rfl⟩, ?_⟩⟩
          · simp [Drained.append]
          · refine List.forall_mem_cons.mpr ⟨?_, hgoes⟩
            rintro ⟨text, htext⟩
            cases htext
        · exact ⟨List.forall_mem_cons.mpr ⟨hfirst, hevictions⟩,
            Or.inr ⟨hstops, m, List.mem_cons_of_mem _ hm, hmi⟩⟩

/-- A world that refuses the evictions of one namespace. -/
def budgetWorld (closed : Str) : Prog.World (Call NanFloat) (Answer NanFloat)
  | _, .kube _ [_, .str podNamespace] =>
    if podNamespace = closed then Except.error (.api none (some 429) (some (py "Too Many Requests")) [])
    else Except.ok []
  | n, call => workingWorld ⟨py "/tmp/key", by decide⟩ n call

example :
    (Prog.run (budgetWorld (py "db")) 0 (evictPods ⟨[], [], []⟩
      [⟨py "web-1", py "shop", [py "ReplicaSet"]⟩, ⟨py "agent", py "ops", [py "DaemonSet"]⟩,
        ⟨py "pg-0", py "db", []⟩])).2 =
      .ok ⟨[py "web-1"], [py "agent"], [(py "pg-0", py "Too Many Requests")]⟩ := rfl

/-! ## The node -/

variable [PyRuntime F]

/-- The request that makes a node unschedulable. -/
def cordonOf (nodeName : PyVal F) : Call F := .kube (py "patch_node") [nodeName, schedulingPatch true]

/-- The request for the pods of a node. -/
def podsOf (nodeName : PyVal F) : Call F :=
  .kube (py "list_pod_for_all_namespaces") [.str (py "spec.nodeName=" ++ pyStr nodeName)]

/-- The calls before the loop: neither is an eviction, nor is the first a listing. -/
theorem method_ne (nodeName nodeName' : PyVal F) :
    ¬ IsEviction (cordonOf nodeName) ∧ ¬ IsEviction (podsOf nodeName) ∧
      cordonOf nodeName ≠ podsOf nodeName' := by
  refine ⟨?_, ?_, ?_⟩
  · exact fun h => absurd (Option.some.inj h) (by decide)
  · exact fun h => absurd (Option.some.inj h) (by decide)
  · exact fun h => absurd (Option.some.inj (congrArg methodOf h)) (by decide)

/-- What a drain does: it fails before the first eviction, or runs the loop over the pods that
were listed. -/
theorem runs_kubeDrainNode {rendered : Dict F} {asked : List (Made F)}
    {r : Except KubeError ExecResult} (h : Prog.Runs (kubeDrainNode rendered) asked r) :
    ((∃ e, r = .error e) ∧
        ∀ m ∈ asked, ¬ IsEviction m.call ∧ ∀ nodeName pods, m ≠ ⟨podsOf nodeName, .ok pods⟩) ∨
      ∃ nodeName patched pods attempts, required rendered (py "node_name") = .ok nodeName ∧
        asked = ⟨cordonOf nodeName, .ok patched⟩ :: ⟨podsOf nodeName, .ok pods⟩ :: attempts ∧
        (∀ m ∈ attempts, IsEviction m.call) ∧
        ((∃ drained, r = .ok (drained.result nodeName) ∧ Drains pods attempts drained ∧
            ∀ m ∈ attempts, ¬ Interrupted m) ∨
          (∃ text, r = .error (.other text)) ∧ ∃ m ∈ attempts, Interrupted m) := by
  unfold kubeDrainNode at h
  -- three ways to fail first: no node name, no cordon, no list of pods
  cases hname : required rendered (py "node_name") with
  | error e =>
    rw [hname] at h
    rcases Prog.runs_pure_iff.mp h with ⟨rfl, rfl⟩
    exact Or.inl ⟨⟨e, rfl⟩, fun m hm => absurd hm List.not_mem_nil⟩
  | ok nodeName =>
    rw [hname] at h
    have hcordon : ∀ answer : Answer F (cordonOf nodeName),
        ¬ IsEviction (cordonOf nodeName) ∧ ∀ nodeName' pods,
          (⟨cordonOf nodeName, answer⟩ : Made F) ≠ ⟨podsOf nodeName', .ok pods⟩ := by
      intro answer
      refine ⟨(method_ne nodeName nodeName).1, ?_⟩
      intro nodeName' pods heq
      exact (method_ne nodeName nodeName').2.2 (congrArg Asked.call heq)
    rcases Prog.runs_bind_iff.mp h with ⟨patched, _, rest, rfl, hpatch, hrest⟩
    rcases Prog.runs_call_iff.mp hpatch with rfl
    rcases patched with e | patched
    · rcases Prog.runs_pure_iff.mp hrest with ⟨rfl, rfl⟩
      refine Or.inl ⟨⟨e, rfl⟩, ?_⟩
      intro m hm
      rw [List.mem_singleton.mp hm]
      exact hcordon (.error e)
    · rcases Prog.runs_bind_iff.mp hrest with ⟨listed, _, rest, rfl, hlist, hpods⟩
      rcases Prog.runs_call_iff.mp hlist with rfl
      rcases listed with e | pods
      · rcases Prog.runs_pure_iff.mp hpods with ⟨rfl, rfl⟩
        refine Or.inl ⟨⟨e, rfl⟩, ?_⟩
        intro m hm
        rcases List.mem_cons.mp hm with rfl | hm
        · exact hcordon (.ok patched)
        · rw [List.mem_singleton.mp hm]
          refine ⟨(method_ne nodeName nodeName).2.1, ?_⟩
          intro nodeName' pods heq
          cases eq_of_heq (Asked.mk.inj heq).2
      -- from here on the requests are those of the loop
      · rcases Prog.runs_bind_iff.mp hpods with ⟨looped, attempts, after, rfl, hloop, hafter⟩
        rcases runs_evictPods hloop with ⟨hevictions, hend⟩
        have hnone : after = [] := by
          cases looped with
          | error e => exact (Prog.runs_pure_iff.mp hafter).1
          | ok drained => exact (Prog.runs_pure_iff.mp hafter).1
        subst hnone
        refine Or.inr ⟨nodeName, patched, pods, attempts, rfl, ?_, hevictions, ?_⟩
        · rw [List.append_nil]
          rfl
        · rcases hend with ⟨drained, rfl, hdrains, hgoes⟩ | ⟨⟨text, rfl⟩, hstops⟩
          · exact Or.inl ⟨drained, (Prog.runs_pure_iff.mp hafter).2, hdrains, hgoes⟩
          · exact Or.inr ⟨⟨text, (Prog.runs_pure_iff.mp hafter).2⟩, hstops⟩

/-- A drain is a success when nothing failed. -/
theorem Drained.success_iff (drained : Drained) (nodeName : PyVal F) :
    (drained.result nodeName).success = true ↔ drained.failed = [] := by
  unfold Drained.result
  by_cases hfailed : drained.failed = []
  · rw [if_pos hfailed]
    exact iff_of_true rfl hfailed
  · rw [if_neg hfailed]
    exact iff_of_false Bool.false_ne_true hfailed

/-- The node is made unschedulable before any eviction. -/
theorem cordoned_first {rendered : Dict F} {asked : List (Made F)} {r : Except KubeError ExecResult}
    (h : Prog.Runs (kubeDrainNode rendered) asked r) {before after : List (Made F)} {m : Made F}
    (hasked : asked = before ++ m :: after) (hm : IsEviction m.call) :
    ∃ nodeName patched, required rendered (py "node_name") = .ok nodeName ∧
      ⟨cordonOf nodeName, .ok patched⟩ ∈ before := by
  rcases runs_kubeDrainNode h with ⟨-, hnone⟩ | ⟨nodeName, patched, pods, attempts, hname, heq, -, -⟩
  · exact absurd hm (hnone m (hasked ▸ List.mem_append_right _ List.mem_cons_self)).1
  · refine ⟨nodeName, patched, hname, ?_⟩
    rw [heq] at hasked
    cases before with
    | nil =>
      have hfirst : (⟨cordonOf nodeName, .ok patched⟩ : Made F) = m := (List.cons.inj hasked).1
      rw [← hfirst] at hm
      exact absurd hm (method_ne nodeName nodeName).1
    | cons first before =>
      rw [(List.cons.inj hasked).1]
      exact List.mem_cons_self

/-! ## The method -/

/-- The result of a handler, or of its exception. -/
def handledResult : Except KubeError ExecResult → ExecResult
  | .error e => kubeFailure e
  | .ok result => result

variable {O : Type} [PyObjects F O]

/-- A run that drains a node, with what the handler gave. -/
theorem runs_runKubeAction_drain {controller : Dict F} {action : ActionConfig F} {params : Dict F}
    {dryRun : Option Bool} {asked : List (Made F)} {r : Py ExecResult}
    (hverb : action.kubeAction = some (py "drain_node"))
    (h : Prog.Runs (runKubeAction O controller action params dryRun) asked r)
    {m : Made F} (hm : m ∈ asked) (heviction : IsEviction m.call) :
    ∃ rendered drain handled, Prog.Runs (kubeDrainNode rendered) drain handled ∧ m ∈ drain ∧
      r = .ok (handledResult handled) := by
  have huses : Uses m := by
    rcases m with ⟨call, answer⟩
    cases call with
    | kube method args => trivial
    | _ => cases heviction
  rcases runs_runKubeAction h with rfl | ⟨verb, rendered, result, hknown, -, rfl, hrun⟩
  · exact absurd hm List.not_mem_nil
  · have hdrain : verb = py "drain_node" := by
      unfold knownVerb at hknown
      rw [hverb] at hknown
      exact (Option.some.inj (Option.filter_eq_some_iff.mp hknown).1).symm
    subst hdrain
    unfold applyKubeAction at hrun
    rcases Prog.runs_bind_iff.mp hrun with ⟨built, acquire, rest, rfl, hbuild, hnext⟩
    rcases runs_buildKubeConfiguration hbuild with
      ⟨configuration, files, rfl, hacquired⟩ | ⟨e, rfl, habandoned⟩
    · simp only [Prog.runs_bind_iff, Prog.runs_pure_iff] at hnext
      rcases hnext with ⟨_, use, _, rfl, huse, _, release, _, rfl, hrelease, rfl, rfl⟩
      have hmuse : m ∈ use := by
        simp only [List.append_nil, List.mem_append] at hm
        -- the eviction is neither in the acquisition nor in the release of the files
        rcases hm with hm | hm | hm
        · exact absurd huses (hacquired.unused m hm)
        · exact hm
        · exact absurd huses ((of_unlinkAll hrelease).2.2 m hm).1
      unfold handle at huse
      rcases Prog.runs_bind_iff.mp huse with ⟨client, _, rest, rfl, hclient, hrest⟩
      rcases Prog.runs_call_iff.mp hclient with rfl
      rcases client with e | _
      · rcases Prog.runs_pure_iff.mp hrest with ⟨rfl, -⟩
        rw [List.mem_singleton.mp hmuse] at heviction
        cases heviction
      · rcases Prog.runs_bind_iff.mp hrest with ⟨handled, drain, after, rfl, hhandler, hafter⟩
        have hend : after = [] ∧ result = handledResult handled := by
          cases handled with
          | error e => exact Prog.runs_pure_iff.mp hafter
          | ok result => exact Prog.runs_pure_iff.mp hafter
        rcases hend with ⟨rfl, rfl⟩
        refine ⟨rendered, drain, handled, hhandler, ?_, rfl⟩
        rcases List.mem_cons.mp hmuse with rfl | hmuse
        · cases heviction
        · simpa using hmuse
    -- nothing is asked after a configuration that failed
    · have hnone : rest = [] := by
        cases e with
        | unavailable text => exact (Prog.runs_pure_iff.mp hnext).1
        | other text => exact (Prog.runs_pure_iff.mp hnext).1
      rw [hnone, List.append_nil] at hm
      exact absurd huses (habandoned.unused m hm)

/-- What a run that went through has asked and reports: the node was made unschedulable, its pods
were listed, and there was one request a pod to evict, in order. -/
structure Drained.Reports (nodeName : PyVal F) (pods : List Pod) (asked : List (Made F))
    (result : ExecResult) (drained : Drained) : Prop where
  asked : ∃ (patched : List Pod) (attempts : List (Made F)),
    asked = ⟨cordonOf nodeName, .ok patched⟩ :: ⟨podsOf nodeName, .ok pods⟩ :: attempts ∧
      attempts.map Asked.call = (evictable pods).map evictionOf ∧
      ((drained.result nodeName).success = true ↔ ∀ m ∈ attempts, Accepted m)
  result : result = drained.result nodeName
  partition : (drained.evicted ++ drained.skipped ++ drained.failed.map Prod.fst).Perm
    (pods.map Pod.name)
  skipped : drained.skipped = (pods.filter fun pod => Pinned pod).map Pod.name
  success : (drained.result nodeName).success = true ↔ drained.failed = []

theorem Drains.reports {nodeName : PyVal F} {pods patched : List Pod} {attempts : List (Made F)}
    {drained : Drained} (h : Drains pods attempts drained) :
    drained.Reports nodeName pods
      (⟨cordonOf nodeName, .ok patched⟩ :: ⟨podsOf nodeName, .ok pods⟩ :: attempts)
      (drained.result nodeName) where
  asked := ⟨patched, attempts, rfl, h.requested, (drained.success_iff nodeName).trans h.clean⟩
  result := rfl
  partition := h.partition
  skipped := h.skipped
  success := drained.success_iff nodeName

/-- The first request of a drain is to make the node unschedulable. -/
theorem cordon_asked {rendered : Dict F} {asked : List (Made F)} {r : Except KubeError ExecResult}
    (h : Prog.Runs (kubeDrainNode rendered) asked r) {nodeName : PyVal F}
    (hname : required rendered (py "node_name") = .ok nodeName) :
    asked.head?.map Asked.call = some (cordonOf nodeName) := by
  unfold kubeDrainNode at h
  rw [hname] at h
  rcases Prog.runs_bind_iff.mp h with ⟨patched, _, rest, rfl, hpatch, -⟩
  rcases Prog.runs_call_iff.mp hpatch with rfl
  rfl

/-- A drained node is drained. Every run of `_kube_drain_node` asks first that the node be made
unschedulable, and for an eviction only when that was accepted. A run that gives a result has made
the node unschedulable, listed its pods and asked for one eviction a pod to evict, in order; its
summary partitions the pods, and it is a success exactly when no pod failed, all requests being
accepted. Where the pods were listed and every eviction is accepted or refused there is a result.
A run of `run_kube_action` in which another exception ends the loop is a failure. -/
theorem drain_node_exact (O : Type) [PyObjects F O] :
    (∀ (rendered : Dict F) (asked : List (Made F)) (r : Except KubeError ExecResult),
      Prog.Runs (kubeDrainNode rendered) asked r →
        (∀ nodeName, required rendered (py "node_name") = .ok nodeName →
          asked.head?.map Asked.call = some (cordonOf nodeName)) ∧
        (∀ before m after, asked = before ++ m :: after → IsEviction m.call →
          ∃ nodeName patched, required rendered (py "node_name") = .ok nodeName ∧
            ⟨cordonOf nodeName, .ok patched⟩ ∈ before) ∧
        (∀ result, r = .ok result → ∃ nodeName pods drained,
          required rendered (py "node_name") = .ok nodeName ∧
            Drained.Reports nodeName pods asked result drained) ∧
        ∀ nodeName pods, required rendered (py "node_name") = .ok nodeName →
          ⟨podsOf nodeName, .ok pods⟩ ∈ asked → (∀ m ∈ asked, ¬ Interrupted m) →
          ∃ result drained, r = .ok result ∧
            Drained.Reports nodeName pods asked result drained) ∧
    ∀ (controller : Dict F) (action : ActionConfig F) (params : Dict F) (dryRun : Option Bool)
      (asked : List (Made F)) (r : Py ExecResult),
      action.kubeAction = some (py "drain_node") →
      Prog.Runs (runKubeAction O controller action params dryRun) asked r →
      (∃ m ∈ asked, IsEviction m.call ∧ Interrupted m) →
      ∃ result, r = .ok result ∧ result.success = false := by
  constructor
  · intro rendered asked r h
    refine ⟨fun nodeName hname => cordon_asked h hname,
      fun before m after hasked hm => cordoned_first h hasked hm, ?_, ?_⟩
    · rintro result rfl
      rcases runs_kubeDrainNode h with ⟨⟨e, he⟩, -⟩ |
        ⟨nodeName, patched, pods, attempts, hname, rfl, -, hend⟩
      · cases he
      · rcases hend with ⟨drained, heq, hdrains, -⟩ | ⟨⟨text, htext⟩, -⟩
        · cases heq
          exact ⟨nodeName, pods, drained, hname, hdrains.reports⟩
        · cases htext
    · intro nodeName pods hname hlisted hgoes
      rcases runs_kubeDrainNode h with ⟨-, hnone⟩ |
        ⟨nodeName', patched, pods', attempts, hname', rfl, hevictions, hend⟩
      · exact absurd rfl ((hnone _ hlisted).2 nodeName pods)
      · rcases Except.ok.inj (hname.symm.trans hname') with rfl
        have hpods : pods' = pods := by
          rcases List.mem_cons.mp hlisted with heq | hlisted
          · exact absurd (congrArg Asked.call heq).symm (method_ne nodeName nodeName).2.2
          · rcases List.mem_cons.mp hlisted with heq | hlisted
            · exact (Except.ok.inj (eq_of_heq (Asked.mk.inj heq).2)).symm
            · exact absurd (hevictions _ hlisted) (method_ne nodeName nodeName).2.1
        subst hpods
        rcases hend with ⟨drained, rfl, hdrains, -⟩ | ⟨-, m, hm, hstop⟩
        · exact ⟨_, drained, rfl, hdrains.reports⟩
        · exact absurd hstop (hgoes m (List.mem_cons_of_mem _ (List.mem_cons_of_mem _ hm)))
  · intro controller action params dryRun asked r hverb h hinterrupted
    rcases hinterrupted with ⟨m, hm, heviction, hinterrupted⟩
    rcases runs_runKubeAction_drain hverb h hm heviction with
      ⟨rendered, drain, handled, hdrain, hmdrain, rfl⟩
    refine ⟨_, rfl, ?_⟩
    rcases runs_kubeDrainNode hdrain with ⟨-, hnone⟩ |
      ⟨nodeName, patched, pods, attempts, -, rfl, -, hend⟩
    · exact absurd heviction (hnone m hmdrain).1
    · rcases hend with ⟨drained, -, -, hgoes⟩ | ⟨⟨text, rfl⟩, -⟩
      · -- the loop went through, so the eviction that was interrupted is none of the loop's
        rcases List.mem_cons.mp hmdrain with rfl | hmdrain
        · exact absurd heviction (method_ne nodeName nodeName).1
        · rcases List.mem_cons.mp hmdrain with rfl | hmdrain
          · exact absurd heviction (method_ne nodeName nodeName).2.1
          · exact absurd hinterrupted (hgoes m hmdrain)
      · rfl

/-- The pods of the examples: two to evict and one of a DaemonSet between them. -/
def examplePods : List Pod :=
  [⟨py "web-1", py "shop", [py "ReplicaSet"]⟩, ⟨py "agent", py "ops", [py "DaemonSet"]⟩,
    ⟨py "pg-0", py "db", []⟩]

/-- A cluster with these pods that refuses the evictions of one namespace. -/
def podsWorld (closed : Str) : Prog.World (Call NanFloat) (Answer NanFloat)
  | _, .kube _ [_] => Except.ok examplePods
  | n, call => budgetWorld closed n call

/-- One pod is evicted, one is skipped, one is refused: the drain is no success. -/
theorem drain_node_exact_example : ∃ (asked : List (Made NanFloat)) (result : ExecResult)
    (drained : Drained),
    Prog.Runs (kubeDrainNode [(.str (py "node_name"), .str (py "node-3"))]) asked (.ok result) ∧
      asked.map Asked.call = [cordonOf (.str (py "node-3")), podsOf (.str (py "node-3")),
        evictionOf ⟨py "web-1", py "shop", [py "ReplicaSet"]⟩, evictionOf ⟨py "pg-0", py "db", []⟩] ∧
      Drained.Reports (.str (py "node-3")) examplePods asked result drained ∧
      drained.skipped = [py "agent"] ∧ result.success = false := by
  have hrun := Prog.runs_run (podsWorld (py "db")) 0
    (kubeDrainNode [(.str (py "node_name"), .str (py "node-3"))])
  have hclauses := (drain_node_exact (F := NanFloat) (PyVal NanFloat)).1 _ _ _ hrun
  rcases hclauses.2.2.1 _ rfl with ⟨nodeName, pods, drained, hname, hreports⟩
  cases hname
  rcases hreports.asked with ⟨patched, attempts, hasked, -, -⟩
  have hpods : pods = examplePods := by
    have hsecond := (List.cons.inj (List.cons.inj hasked).2).1
    exact (Except.ok.inj (eq_of_heq (Asked.mk.inj hsecond).2)).symm
  subst hpods
  exact ⟨_, _, drained, hrun, rfl, hreports, hreports.skipped, rfl⟩

end AutoHeal.Exec
