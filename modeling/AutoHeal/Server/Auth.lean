import AutoHeal.Python.Str

/-!
# Roles and API keys

`src/auth.py`: the permissions of roles, the role and the scope of an API key, and
where the keys come from. Keys are looked up anew for each question, so with keys in
Vault every one of them has a read of its own, which may fail.
-/

namespace AutoHeal.Server

/-! ## `config/auth.yaml` -/

/-- An entry of a role's `permissions`: a name, or names with what is granted. -/
inductive Permission where
  | name (permission : Str)
  | flags (granted : List (Str × Bool))
  deriving DecidableEq

/-- The value of a key in `api_keys`: a role, or a mapping with a role and two optional
lists. `other` is any other value. -/
inductive KeyEntry where
  | role (name : Str)
  | scoped (role : Option Str) (allowedActions allowedControllers : Option (List Str))
  | other
  deriving DecidableEq

/-- What `api_keys` resolves to. -/
abbrev KeyMap := List (Str × KeyEntry)

/-- `api_keys`, literally or as the contents of a Vault secret. -/
inductive ApiKeys where
  | literal (keys : KeyMap)
  | vault

/-- The auth configuration. A role may have no `permissions`. -/
structure AuthConfig where
  roles : List (Str × Option (List Permission))
  apiKeys : ApiKeys

/-- `_resolve_api_keys`, given what Vault answers: `none` is `VaultUnavailableError`. -/
def resolveApiKeys (cfg : AuthConfig) (secret : Option KeyMap) : KeyMap :=
  match cfg.apiKeys with
  | .literal keys => keys
  | .vault => secret.getD []

/-- The reads of Vault that one request makes, in their order: by the middleware, for
the role, for the actions and for the controllers of a key. -/
structure VaultReads where
  middleware : Option KeyMap
  role : Option KeyMap
  actions : Option KeyMap
  controllers : Option KeyMap

/-- All reads find the same secret. -/
def VaultReads.steady (secret : KeyMap) : VaultReads :=
  ⟨some secret, some secret, some secret, some secret⟩

/-! ## What a key may do -/

/-- The role of a key and the lists it is restricted to, if any. -/
structure KeyScope where
  role : Option Str
  allowedActions : Option (List Str)
  allowedControllers : Option (List Str)
  deriving DecidableEq

/-- `_normalize_key_entry`, `none` being an unknown key. -/
def normalizeKeyEntry : Option KeyEntry → KeyScope
  | some (.role name) => ⟨some name, none, none⟩
  | some (.scoped role allowedActions allowedControllers) =>
    ⟨role, allowedActions, allowedControllers⟩
  | some .other => ⟨none, none, none⟩
  | none => ⟨none, none, none⟩

/-- `get_key_scope`. -/
def getKeyScope (keys : KeyMap) (apiKey : Str) : KeyScope := normalizeKeyEntry (keys.lookup apiKey)

/-- `get_role_from_api_key`. -/
def getRoleFromApiKey (keys : KeyMap) (apiKey : Str) : Option Str := (getKeyScope keys apiKey).role

/-- `is_action_allowed_for_key`. -/
def isActionAllowedForKey (keys : KeyMap) (apiKey eventType : Str) : Bool :=
  match (getKeyScope keys apiKey).allowedActions with
  | none => true
  | some allowed => allowed.contains eventType

/-- `is_controller_allowed_for_key`. An action without a controller has the name
`None`, which no list of names contains. -/
def isControllerAllowedForKey (keys : KeyMap) (apiKey : Str) (controllerName : Option Str) : Bool :=
  match (getKeyScope keys apiKey).allowedControllers, controllerName with
  | none, _ => true
  | some allowed, some name => allowed.contains name
  | some _, none => false

/-- The loop of `has_permission`: the first entry about the permission decides. -/
def granted (permission : Str) : List Permission → Bool
  | [] => false
  | .name p :: rest => if p = permission then true else granted permission rest
  | .flags fs :: rest =>
    match fs.lookup permission with
    | some b => b
    | none => granted permission rest

/-- `has_permission`. No role is called `None`. -/
def hasPermission (cfg : AuthConfig) (role : Option Str) (permission : Str) : Bool :=
  match role with
  | none => false
  | some name => granted permission (((cfg.roles.lookup name).getD none).getD [])

/-- `APIKeyAuthMiddleware.dispatch` lets the request through. -/
def authenticated (cfg : AuthConfig) (reads : VaultReads) (apiKey : Str) : Bool :=
  apiKey ≠ [] && ((resolveApiKeys cfg reads.middleware).lookup apiKey).isSome

/-! ## Unknown keys -/

@[simp] theorem hasPermission_none (cfg : AuthConfig) (permission : Str) :
    hasPermission cfg none permission = false := rfl

/-- A key that is not configured has no role. -/
theorem getRoleFromApiKey_of_lookup {keys : KeyMap} {apiKey : Str}
    (h : keys.lookup apiKey = none) : getRoleFromApiKey keys apiKey = none := by
  rw [getRoleFromApiKey, getKeyScope, h]
  rfl

/-- A key whose role has a permission is configured. -/
theorem exists_lookup_of_hasPermission {cfg : AuthConfig} {keys : KeyMap} {apiKey permission : Str}
    (h : hasPermission cfg (getRoleFromApiKey keys apiKey) permission = true) :
    (keys.lookup apiKey).isSome = true := by
  cases hlookup : keys.lookup apiKey with
  | some entry => rfl
  | none =>
    rw [getRoleFromApiKey_of_lookup hlookup, hasPermission_none] at h
    cases h

/-- A key that is not configured is restricted to nothing. -/
theorem isActionAllowedForKey_of_lookup {keys : KeyMap} {apiKey : Str}
    (h : keys.lookup apiKey = none) (eventType : Str) :
    isActionAllowedForKey keys apiKey eventType = true := by
  rw [isActionAllowedForKey, getKeyScope, h]
  rfl

theorem isControllerAllowedForKey_of_lookup {keys : KeyMap} {apiKey : Str}
    (h : keys.lookup apiKey = none) (controllerName : Option Str) :
    isControllerAllowedForKey keys apiKey controllerName = true := by
  unfold isControllerAllowedForKey getKeyScope
  rw [h]
  rfl

end AutoHeal.Server
