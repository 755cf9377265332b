import AutoHeal.Exec.Remote

/-!
# Execution by the Kubernetes API

`_build_kube_configuration`, `_render_kube_action_fields`, the handlers and `run_kube_action` of
`src/executor.py`.
-/

namespace AutoHeal.Exec

open Server Audit

variable {F : Type}

/-! ## The fields of an action -/

/-- `KUBE_ACTION_VERBS`. -/
def kubeActionVerbs : List Str :=
  [py "rollout_restart", py "delete_pod", py "scale", py "cordon_node", py "uncordon_node",
    py "drain_node", py "patch_configmap"]

section Render

variable [PyRuntime F] (O : Type) [PyObjects F O]

/-- `template.format(**params)` for a field. What is no string has no `format`. -/
def renderField (params : Dict F) : PyVal F → Except FormatError Str
  | .str template => formatWith O id template params
  | _ => .error (.raised .attributeError)

/-- A field of an action, rendered if it is there. -/
def renderIfPresent (action : ActionConfig F) (params : Dict F) (name : Str) :
    Except FormatError (Dict F) :=
  match Dict.get? name action.others with
  | none => .ok []
  | some v => (renderField O params v).map fun text => [(.str name, .str text)]

/-- The values of `data`, rendered. -/
def renderItems (params : Dict F) : Dict F → Except FormatError (Dict F)
  | [] => .ok []
  | (k, v) :: items => do
    let text ← renderField O params (.str (pyStr v))
    let rest ← renderItems params items
    return (k, .str text) :: rest

/-- `data`, rendered if it is there. What is no mapping has no `items`. -/
def renderData (action : ActionConfig F) (params : Dict F) : Except FormatError (Dict F) :=
  match Dict.get? (py "data") action.others with
  | none => .ok []
  | some (.dict items) => (renderItems O params items).map fun d => [(.str (py "data"), .dict d)]
  | some _ => .error (.raised .attributeError)

/-- `_render_kube_action_fields`. -/
def renderKubeActionFields (action : ActionConfig F) (params : Dict F) :
    Except FormatError (Dict F) := do
  let resource : Dict F :=
    match Dict.get? (py "resource") action.others with
    | none => []
    | some v => [(.str (py "resource"), v)]
  let name ← renderIfPresent O action params (py "name")
  let nameSpace ← renderIfPresent O action params (py "namespace")
  let nodeName ← renderIfPresent O action params (py "node_name")
  let data ← renderData O action params
  return resource ++ name ++ nameSpace ++ nodeName ++ data

end Render

variable [PyRuntime F]

/-- `rendered.get("resource", "deployment")`. -/
def resourceOf (rendered : Dict F) : PyVal F :=
  (Dict.get? (py "resource") rendered).getD (.str (py "deployment"))

/-- `_describe_kube_action`. -/
def describeKubeAction (verb : Str) (rendered : Dict F) : Str :=
  let shown (name : String) : Str := pyStr (field (py name) rendered)
  if verb = py "cordon_node" ∨ verb = py "uncordon_node" ∨ verb = py "drain_node" then
    verb ++ py " node '" ++ shown "node_name" ++ py "'"
  else if verb = py "patch_configmap" then
    py "patch_configmap '" ++ shown "name" ++ py "' in namespace '" ++ shown "namespace" ++
      py "' with " ++ shown "data"
  else
    verb ++ py " " ++ pyStr (resourceOf rendered) ++ py " '" ++ shown "name" ++
      py "' in namespace '" ++ shown "namespace" ++ py "'"

/-! ## Credentials -/

/-- Why there is no configuration: Vault is unavailable, or another exception was raised. -/
inductive ConfigurationError where
  | unavailable (text : Str)
  | other (text : Str)

def SecretError.toConfiguration : SecretError → ConfigurationError
  | .unavailable text => .unavailable text
  | .raised e => .other e.text

/-- A configuration from a kubeconfig. -/
def kubeconfigConfiguration (kubeconfig : PyVal F) :
    Effect F (Except ConfigurationError (KubeConfiguration F × List TempPath)) := do
  match ← resolveSecretFile kubeconfig (py "kubeconfig") with
  | Except.error e => return .error (SecretError.toConfiguration e)
  | Except.ok (path, tmp) =>
    match ← Prog.call (Call.loadKubeConfig path : Call F) with
    | Except.ok () => return .ok (.file path, tmp.toList)
    | Except.error text =>
      unlinkAll tmp.toList
      return .error (.other text)

/-- A configuration from a server, a token and perhaps a certificate. -/
def tokenConfiguration (apiServer token caCert : PyVal F) :
    Effect F (Except ConfigurationError (KubeConfiguration F × List TempPath)) := do
  match ← resolveSecretFile token (py "token") with
  | Except.error e => return .error (SecretError.toConfiguration e)
  | Except.ok (tokenPath, tokenTmp) =>
    match ← Prog.call (Call.readText (pyStr tokenPath) : Call F) with
    | Except.error text =>
      unlinkAll tokenTmp.toList
      return .error (.other text)
    | Except.ok content =>
      if truthy caCert then
        match ← resolveSecretFile caCert (py "ca_cert") with
        | Except.error e =>
          unlinkAll tokenTmp.toList
          return .error (SecretError.toConfiguration e)
        | Except.ok (caPath, caTmp) =>
          return .ok (.token apiServer (strip content) (some caPath),
            tokenTmp.toList ++ caTmp.toList)
      else return .ok (.token apiServer (strip content) none, tokenTmp.toList)

/-- `_build_kube_configuration`: the configuration, and the files to delete afterwards. -/
def buildKubeConfiguration (controller : Dict F) :
    Effect F (Except ConfigurationError (KubeConfiguration F × List TempPath)) :=
  if truthy (field (py "in_cluster") controller) then do
    match ← Prog.call (Call.loadIncluster : Call F) with
    | Except.ok () => return .ok (.inCluster, [])
    | Except.error text => return .error (.other text)
  else if truthy (field (py "kubeconfig") controller) then
    kubeconfigConfiguration (field (py "kubeconfig") controller)
  else if truthy (field (py "api_server") controller) && truthy (field (py "token") controller) then
    tokenConfiguration (field (py "api_server") controller) (field (py "token") controller)
      (field (py "ca_cert") controller)
  else
    pure (.error (.other (py "Controller has no usable kubeapi credentials configured (need one " ++
      py "of: in_cluster, kubeconfig, or api_server+token).")))

/-! ## The handlers -/

/-- `rendered[name]`. -/
def required (rendered : Dict F) (name : Str) : Except KubeError (PyVal F) :=
  match Dict.get? name rendered with
  | some v => .ok v
  | none => .error (.other (PyRuntime.repr (.str name : PyVal F)))

/-- A method of the API, of which the answer is not used. -/
def kubeCall (method : Str) (args : List (PyVal F)) : Effect F (Except KubeError (List Pod)) :=
  Prog.call (Call.kube method args : Call F)

/-- The method for a resource. Lists and mappings are no keys. -/
def patchFn (table : List (Str × Str)) (resource : PyVal F) : Except KubeError (Option Str) :=
  match resource with
  | .str s => .ok (table.lookup s)
  | .list _ => .error (.other (py "unhashable type: 'list'"))
  | .dict _ => .error (.other (py "unhashable type: 'dict'"))
  | _ => .ok none

/-- A mapping of string keys. -/
def obj (items : List (String × PyVal F)) : PyVal F :=
  .dict (items.map fun item => (.str (py item.1), item.2))

/-- A summary as the output of a result. -/
def summaryResult (summary : PyVal F) : ExecResult := ⟨true, print .spaced summary, [], 0, none⟩

/-- `_kube_rollout_restart`. -/
def kubeRolloutRestart (rendered : Dict F) : Effect F (Except KubeError ExecResult) :=
  let resource := resourceOf rendered
  match required rendered (py "name"), required rendered (py "namespace") with
  | .error e, _ => pure (.error e)
  | .ok _, .error e => pure (.error e)
  | .ok name, .ok nameSpace => do
    let restartedAt ← Prog.call (Call.utcNow : Call F)
    let body : PyVal F := obj [("spec", obj [("template", obj [("metadata", obj [("annotations",
      obj [("kubectl.kubernetes.io/restartedAt", .str restartedAt)])])])])]
    match patchFn [(py "deployment", py "patch_namespaced_deployment"),
        (py "statefulset", py "patch_namespaced_stateful_set"),
        (py "daemonset", py "patch_namespaced_daemon_set")] resource with
    | .error e => return .error e
    | .ok none =>
      return .ok (failed (py "Unsupported resource '" ++ pyStr resource ++
        py "' for rollout_restart"))
    | .ok (some method) =>
      match ← kubeCall method [name, nameSpace, body] with
      | .error e => return .error e
      | .ok _ =>
        return .ok (summaryResult (obj [("resource", resource), ("name", name),
          ("namespace", nameSpace), ("restarted_at", .str restartedAt)]))

/-- `_kube_delete_pod`. -/
def kubeDeletePod (rendered : Dict F) : Effect F (Except KubeError ExecResult) :=
  match required rendered (py "name"), required rendered (py "namespace") with
  | .error e, _ => pure (.error e)
  | .ok _, .error e => pure (.error e)
  | .ok name, .ok nameSpace => do
    match ← kubeCall (py "delete_namespaced_pod") [name, nameSpace] with
    | .error e => return .error e
    | .ok _ =>
      return .ok (summaryResult (obj [("pod", name), ("namespace", nameSpace),
        ("action", .str (py "deleted"))]))

/-- `int(rendered["data"]["replicas"])`, `none` being one of the exceptions that are caught. -/
def replicasOf (rendered : Dict F) : Option Int :=
  match field (py "data") rendered with
  | .dict data => ((Dict.get? (py "replicas") data).bind fun v => (toInt v).toOption)
  | _ => none

/-- `_kube_scale`. -/
def kubeScale (rendered : Dict F) : Effect F (Except KubeError ExecResult) :=
  let resource := resourceOf rendered
  match required rendered (py "name"), required rendered (py "namespace") with
  | .error e, _ => pure (.error e)
  | .ok _, .error e => pure (.error e)
  | .ok name, .ok nameSpace =>
    match replicasOf rendered with
    | none => pure (.ok (failed (py "scale requires an integer 'replicas' in data")))
    | some replicas =>
      match patchFn [(py "deployment", py "patch_namespaced_deployment_scale"),
          (py "statefulset", py "patch_namespaced_stateful_set_scale"),
          (py "replicaset", py "patch_namespaced_replica_set_scale")] resource with
      | .error e => pure (.error e)
      | .ok none =>
        pure (.ok (failed (py "Unsupported resource '" ++ pyStr resource ++ py "' for scale")))
      | .ok (some method) => do
        match ← kubeCall method
            [name, nameSpace, obj [("spec", obj [("replicas", .int replicas)])]] with
        | .error e => return .error e
        | .ok _ =>
          return .ok (summaryResult (obj [("resource", resource), ("name", name),
            ("namespace", nameSpace), ("replicas", .int replicas)]))

/-- The body that makes a node unschedulable, or schedulable. -/
def schedulingPatch (unschedulable : Bool) : PyVal F :=
  obj [("spec", obj [("unschedulable", .bool unschedulable)])]

/-- `_kube_cordon_node` and `_kube_uncordon_node`. -/
def kubeScheduling (unschedulable : Bool) (rendered : Dict F) :
    Effect F (Except KubeError ExecResult) :=
  match required rendered (py "node_name") with
  | .error e => pure (.error e)
  | .ok nodeName => do
    match ← kubeCall (py "patch_node") [nodeName, schedulingPatch unschedulable] with
    | .error e => return .error e
    | .ok _ =>
      return .ok (summaryResult (obj [("node", nodeName), ("unschedulable", .bool unschedulable)]))

def kubeCordonNode : Dict F → Effect F (Except KubeError ExecResult) := kubeScheduling true

def kubeUncordonNode : Dict F → Effect F (Except KubeError ExecResult) := kubeScheduling false

/-- What a drain has done: the pods it evicted, those it skipped, and those that failed with the
errors. -/
structure Drained where
  evicted : List Str
  skipped : List Str
  failed : List (Str × Str)

/-- The loop of `_kube_drain_node`. -/
def evictPods (drained : Drained) : List Pod → Effect F (Except KubeError Drained)
  | [] => pure (.ok drained)
  | pod :: pods =>
    if pod.owners.contains (py "DaemonSet") then
      evictPods { drained with skipped := drained.skipped ++ [pod.name] } pods
    else do
      match ← kubeCall (py "create_namespaced_pod_eviction")
          [.str pod.name, .str pod.podNamespace] with
      | .ok _ => evictPods { drained with evicted := drained.evicted ++ [pod.name] } pods
      | .error (.api _ _ reason text) =>
        let error := match reason.filter (· ≠ []) with
          | some reason => reason
          | none => text
        evictPods { drained with failed := drained.failed ++ [(pod.name, error)] } pods
      | .error (.other text) => return .error (.other text)

/-- The summary of a drain. -/
def Drained.summary (drained : Drained) (nodeName : PyVal F) : PyVal F :=
  obj [("node", nodeName), ("evicted", .list (drained.evicted.map .str)),
    ("skipped_daemonset_pods", .list (drained.skipped.map .str)),
    ("failed", .list (drained.failed.map fun f => obj [("pod", .str f.1), ("error", .str f.2)]))]

/-- The result of a drain. -/
def Drained.result (drained : Drained) (nodeName : PyVal F) : ExecResult :=
  if drained.failed = [] then summaryResult (drained.summary nodeName)
  else
    ⟨false, print .spaced (drained.summary nodeName), [], 1,
      some (natText drained.failed.length ++ py " pod(s) could not be evicted from '" ++
        pyStr nodeName ++ py "'")⟩

/-- `_kube_drain_node`. -/
def kubeDrainNode (rendered : Dict F) : Effect F (Except KubeError ExecResult) :=
  match required rendered (py "node_name") with
  | .error e => pure (.error e)
  | .ok nodeName => do
    match ← kubeCall (py "patch_node") [nodeName, schedulingPatch true] with
    | .error e => return .error e
    | .ok _ =>
      match ← kubeCall (py "list_pod_for_all_namespaces")
          [.str (py "spec.nodeName=" ++ pyStr nodeName)] with
      | .error e => return .error e
      | .ok pods =>
        match ← evictPods ⟨[], [], []⟩ pods with
        | .error e => return .error e
        | .ok drained => return .ok (drained.result nodeName)

/-- `_kube_patch_configmap`. -/
def kubePatchConfigmap (rendered : Dict F) : Effect F (Except KubeError ExecResult) :=
  match required rendered (py "name"), required rendered (py "namespace") with
  | .error e, _ => pure (.error e)
  | .ok _, .error e => pure (.error e)
  | .ok name, .ok nameSpace => do
    let data := field (py "data") rendered
    let data := if truthy data then data else .dict []
    match ← kubeCall (py "patch_namespaced_config_map") [name, nameSpace, obj [("data", data)]] with
    | .error e => return .error e
    | .ok _ =>
      let summary := obj [("configmap", name), ("namespace", nameSpace), ("data", data)]
      -- a key of `data` may be a date
      return if keysAllowed summary then .ok (summaryResult summary)
        else .error (.other (py "keys must be str, int, float, bool or None, not datetime.date"))

/-- `getattr(self, f"_kube_{verb}")`, for a verb there is. -/
def kubeHandler (verb : Str) : Dict F → Effect F (Except KubeError ExecResult) :=
  if verb = py "rollout_restart" then kubeRolloutRestart
  else if verb = py "delete_pod" then kubeDeletePod
  else if verb = py "scale" then kubeScale
  else if verb = py "cordon_node" then kubeCordonNode
  else if verb = py "uncordon_node" then kubeUncordonNode
  else if verb = py "drain_node" then kubeDrainNode
  else kubePatchConfigmap

/-! ## The method -/

/-- The result of an exception of a handler. -/
def kubeFailure : KubeError → ExecResult
  | .api body status reason text =>
    ⟨false, [], body.getD [], (match status with
      | some status => if status = 0 then 1 else status
      | none => 1),
      some (py "Kubernetes API error: " ++ match reason.filter (· ≠ []) with
        | some reason => reason
        | none => text)⟩
  | .other text => failed text

/-- A client is built, and the handler called. -/
def handle (configuration : KubeConfiguration F) (verb : Str) (rendered : Dict F) :
    Effect F ExecResult := do
  match ← Prog.call (Call.apiClient configuration : Call F) with
  | Except.error e => return kubeFailure e
  | Except.ok () =>
    match ← kubeHandler verb rendered with
    | .error e => return kubeFailure e
    | .ok result => return result

/-- A rendered action, executed. The files of the credentials are deleted at the end. -/
def applyKubeAction (controller : Dict F) (verb : Str) (rendered : Dict F) :
    Effect F ExecResult := do
  match ← buildKubeConfiguration controller with
  | .error (.unavailable text) =>
    return failed (py "Failed to resolve kube credentials from Vault: " ++ text)
  | .error (.other text) =>
    return failed (py "Failed to build Kubernetes client config: " ++ text)
  | .ok (configuration, cleanupPaths) =>
    let result ← handle configuration verb rendered
    unlinkAll cleanupPaths
    return result

/-- The verb of an action, if it is one there is. -/
def knownVerb (action : ActionConfig F) : Option Str :=
  action.kubeAction.filter fun verb => verb ∈ kubeActionVerbs

variable (O : Type) [PyObjects F O]

/-- `run_kube_action`. -/
def runKubeAction (controller : Dict F) (action : ActionConfig F) (params : Dict F)
    (dryRun : Option Bool) : Effect F (Py ExecResult) :=
  match knownVerb action with
  | none =>
    pure (.ok (failed (py "Unknown kube_action '" ++
      pyStr (optStr action.kubeAction : PyVal F) ++ py "'")))
  | some verb =>
    withRendered (renderKubeActionFields O action params) (py "kube_action") fun rendered =>
      if isSet dryRun then
        pure (.ok (dryRunResult (py "[DRY-RUN] Would " ++ describeKubeAction verb rendered)))
      else do return .ok (← applyKubeAction controller verb rendered)

variable {O} {controller : Dict F} {action : ActionConfig F} {params : Dict F} {dryRun : Option Bool}
variable {asked : List (Made F)}

/-- What calls anything applies a rendered action. -/
theorem runs_runKubeAction {r : Py ExecResult}
    (h : Prog.Runs (runKubeAction O controller action params dryRun) asked r) :
    asked = [] ∨ ∃ verb rendered result, knownVerb action = some verb ∧ isSet dryRun = false ∧
      r = .ok result ∧ Prog.Runs (applyKubeAction controller verb rendered) asked result := by
  unfold runKubeAction at h
  split at h
  · exact Or.inl (Prog.runs_pure_iff.mp h).1
  · rename_i verb hverb
    rcases runs_withRendered h with ⟨rfl, -⟩ | ⟨rendered, -, hnext⟩
    · exact Or.inl rfl
    · cases hdry : isSet dryRun with
      | true =>
        simp only [hdry, if_true] at hnext
        exact Or.inl (Prog.runs_pure_iff.mp hnext).1
      | false =>
        simp only [hdry, Bool.false_eq_true, if_false, Prog.runs_bind_iff, Prog.runs_pure_iff] at hnext
        rcases hnext with ⟨result, before, _, rfl, hrun, rfl, rfl⟩
        rw [List.append_nil]
        exact Or.inr ⟨verb, rendered, result, hverb, rfl, rfl, hrun⟩

/-! ## The calls of the handlers -/

/-- A call of a handler. -/
def IsApiCall : Call F → Prop
  | .kube _ _ | .utcNow => True
  | _ => False

omit [PyRuntime F] in
theorem calls_kubeCall {α : Type} {method : Str} {args : List (PyVal F)}
    {f : Except KubeError (List Pod) → Effect F α} (h : ∀ answer, Prog.Calls IsApiCall (f answer)) :
    Prog.Calls IsApiCall (kubeCall method args >>= f) :=
  ⟨trivial, h⟩

theorem calls_kubeRolloutRestart (rendered : Dict F) :
    Prog.Calls IsApiCall (kubeRolloutRestart rendered) := by
  unfold kubeRolloutRestart
  cases required rendered (py "name") with
  | error e => trivial
  | ok name =>
    cases required rendered (py "namespace") with
    | error e => trivial
    | ok nameSpace =>
      refine ⟨trivial, fun restartedAt => ?_⟩
      simp only
      split
      · trivial
      · trivial
      · refine calls_kubeCall fun answer => ?_
        cases answer <;> trivial

theorem calls_kubeDeletePod (rendered : Dict F) : Prog.Calls IsApiCall (kubeDeletePod rendered) := by
  unfold kubeDeletePod
  cases required rendered (py "name") with
  | error e => trivial
  | ok name =>
    cases required rendered (py "namespace") with
    | error e => trivial
    | ok nameSpace =>
      refine calls_kubeCall fun answer => ?_
      cases answer <;> trivial

theorem calls_kubeScale (rendered : Dict F) : Prog.Calls IsApiCall (kubeScale rendered) := by
  unfold kubeScale
  cases required rendered (py "name") with
  | error e => trivial
  | ok name =>
    cases required rendered (py "namespace") with
    | error e => trivial
    | ok nameSpace =>
      cases replicasOf rendered with
      | none => trivial
      | some replicas =>
        simp only
        split
        · trivial
        · trivial
        · refine calls_kubeCall fun answer => ?_
          cases answer <;> trivial

theorem calls_kubeScheduling (unschedulable : Bool) (rendered : Dict F) :
    Prog.Calls IsApiCall (kubeScheduling unschedulable rendered) := by
  unfold kubeScheduling
  cases required rendered (py "node_name") with
  | error e => trivial
  | ok nodeName =>
    refine calls_kubeCall fun answer => ?_
    cases answer <;> trivial

omit [PyRuntime F] in
theorem calls_evictPods (drained : Drained) (pods : List Pod) :
    Prog.Calls IsApiCall (evictPods drained pods : Effect F (Except KubeError Drained)) := by
  induction pods generalizing drained with
  | nil => trivial
  | cons pod pods ih =>
    unfold evictPods
    split
    · exact ih _
    · refine calls_kubeCall fun answer => ?_
      rcases answer with (⟨body, status, reason, text⟩ | text) | _
      · exact ih _
      · trivial
      · exact ih _

theorem calls_kubeDrainNode (rendered : Dict F) : Prog.Calls IsApiCall (kubeDrainNode rendered) := by
  unfold kubeDrainNode
  cases required rendered (py "node_name") with
  | error e => trivial
  | ok nodeName =>
    refine calls_kubeCall fun answer => ?_
    cases answer with
    | error e => trivial
    | ok _ =>
      refine calls_kubeCall fun answer => ?_
      cases answer with
      | error e => trivial
      | ok pods =>
        refine (calls_evictPods _ pods).bind fun drained => ?_
        cases drained <;> trivial

theorem calls_kubePatchConfigmap (rendered : Dict F) :
    Prog.Calls IsApiCall (kubePatchConfigmap rendered) := by
  unfold kubePatchConfigmap
  cases required rendered (py "name") with
  | error e => trivial
  | ok name =>
    cases required rendered (py "namespace") with
    | error e => trivial
    | ok nameSpace =>
      refine calls_kubeCall fun answer => ?_
      cases answer <;> trivial

/-- The handlers call the API, and nothing else but the clock. -/
theorem calls_kubeHandler (verb : Str) (rendered : Dict F) :
    Prog.Calls IsApiCall (kubeHandler verb rendered) := by
  unfold kubeHandler
  split_ifs
  · exact calls_kubeRolloutRestart rendered
  · exact calls_kubeDeletePod rendered
  · exact calls_kubeScale rendered
  · exact calls_kubeScheduling true rendered
  · exact calls_kubeScheduling false rendered
  · exact calls_kubeDrainNode rendered
  · exact calls_kubePatchConfigmap rendered

end AutoHeal.Exec
