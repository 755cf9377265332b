import AutoHeal.Outside.Vault
import AutoHeal.Python.Times

/-!
# The Vault client

`VaultClient` of `src/vault.py`: the cache of secrets, the Kubernetes login, and the reads over
HTTP. Its state goes through the functions, and the clock, the token file and the answers of
Vault are asked for.
-/

namespace AutoHeal

variable {F : Type}

/-! ## The client -/

/-- The fields of a client that do not change. -/
structure VaultConfig where
  addr : Option Str
  token : Option Str
  vaultNamespace : Option Str
  cacheTtl : FloatValue
  authMethod : Str
  role : Option Str
  mountPath : Str
  jwtPath : Str
  tokenRefreshBuffer : Number

/-- The fields that do: `_cache`, `_k8s_token` and `_k8s_token_expires_at`. -/
structure VaultState (F : Type) where
  cache : Str → Option (ℚ × PyVal F)
  k8sToken : PyVal F
  k8sTokenExpiresAt : FloatValue

/-- A new client. -/
def VaultState.new : VaultState F := ⟨fun _ => none, .none, .finite 0⟩

/-- Why a body cannot be used: a `ValueError`, a `KeyError` or a `TypeError`, which are caught, or
another exception, such as the `RecursionError` of a body that is nested too deep. -/
inductive BodyError where
  | caught (text : Str)
  | raised (e : Raised)

/-- What comes of a request: a response, with what `json()` gives or raises, a `RequestException`,
or another exception. -/
inductive Fetched (F : Type) where
  | response (status : ℕ) (text : Str) (json : Except BodyError (PyVal F))
  | requestException (text : Str)
  | raised (e : Raised)

/-- What comes of reading a text file: a text, an `OSError`, or another exception. -/
inductive FileRead where
  | text (content : Str)
  | osError (text : Str)
  | raised (e : Raised)

/-- What the client asks. -/
inductive VaultCall (F : Type) where
  /-- `time.time()` -/
  | time
  /-- `open(path).read()` -/
  | readFile (path : Str)
  /-- `requests.get` -/
  | get (url : Str) (headers : List (Str × PyVal F))
  /-- `requests.post`, with the role and the token of the JSON body -/
  | post (url : Str) (headers : List (Str × PyVal F)) (role : Option Str) (jwt : Str)

def VaultAnswer (F : Type) : VaultCall F → Type
  | .time => ℚ
  | .readFile _ => FileRead
  | .get _ _ | .post _ _ _ _ => Fetched F

abbrev VaultProg (F : Type) (α : Type) := Prog (VaultCall F) (VaultAnswer F) α

abbrev VaultMade (F : Type) := Asked (VaultCall F) (VaultAnswer F)

/-- `s.lstrip(c)`. -/
def lstripOf (c : CodePoint) (s : Str) : Str := s.dropWhile (· = c)

/-- `s.rstrip(c)`. -/
def rstripOf (c : CodePoint) (s : Str) : Str := (s.reverse.dropWhile (· = c)).reverse

/-- `bool(text)`, for a text or `None`. -/
def isGiven (text : Option Str) : Bool := text.any (· ≠ [])

namespace VaultConfig

variable (cfg : VaultConfig)

/-- `self.auth_method == "kubernetes"`. -/
def kubernetes : Bool := cfg.authMethod = py "kubernetes"

/-- `is_configured`. -/
def isConfigured : Bool :=
  if cfg.kubernetes then isGiven cfg.addr && isGiven cfg.role
  else isGiven cfg.addr && isGiven cfg.token

/-- `self.addr.rstrip('/')`, of a client that has an address. -/
def base : Str := rstripOf 47 (cfg.addr.getD [])

/-- The header of the namespace, if there is one. -/
def namespaceHeader : List (Str × PyVal F) :=
  match cfg.vaultNamespace.filter (· ≠ []) with
  | some name => [(py "X-Vault-Namespace", .str name)]
  | none => []

/-- The URL of a secret. -/
def secretUrl (path : Str) : Str := cfg.base ++ py "/v1/" ++ lstripOf 47 path

/-- The URL of the Kubernetes login. -/
def loginUrl : Str :=
  cfg.base ++ py "/v1/auth/" ++ rstripOf 47 (lstripOf 47 cfg.mountPath) ++ py "/login"

end VaultConfig

/-- A text or `None`, in a message. -/
def shownText (text : Option Str) : Str := text.getD (py "None")

/-! ## Values of a response -/

section Body

variable [PyRuntime F]

/-- `v[name]`, or the text of the `KeyError` or the `TypeError`. -/
def subscript (name : Str) : PyVal F → Except BodyError (PyVal F)
  | .dict items =>
    match Dict.get? name items with
    | some v => .ok v
    | none => .error (.caught (PyRuntime.repr (.str name : PyVal F)))
  | .list _ => .error (.caught (py "list indices must be integers or slices, not str"))
  | .str _ => .error (.caught (py "string indices must be integers, not 'str'"))
  | v => .error (.caught (py "'" ++ typeName v ++ py "' object is not subscriptable"))

/-- `resp.json()["data"]["data"]`. -/
def secretData (json : Except BodyError (PyVal F)) : Except BodyError (PyVal F) := do
  let body ← json
  let data ← subscript (py "data") body
  subscript (py "data") data

/-- `auth["client_token"]` and `auth["lease_duration"]`, for `auth = resp.json()["auth"]`. -/
def loginData (json : Except BodyError (PyVal F)) : Except BodyError (PyVal F × PyVal F) := do
  let body ← json
  let auth ← subscript (py "auth") body
  let clientToken ← subscript (py "client_token") auth
  let leaseDuration ← subscript (py "lease_duration") auth
  return (clientToken, leaseDuration)

end Body

/-! ## The Kubernetes login -/

section Login

variable [PyRuntime F] [FloatValues F]

/-- The text of an `OverflowError`. -/
def overflowText : Str := py "int too large to convert to float"

/-- The deadline of a token, by its lease. -/
def deadline (cfg : VaultConfig) (lease : PyVal F) : VaultProg F (Except SecretError FloatValue) :=
  match numberOf lease with
  | none =>
    pure (.error (.raised ⟨.typeError, py "'<=' not supported between instances of '" ++
      typeName lease ++ py "' and 'int'"⟩))
  | some lease =>
    if lease.notPositive then pure (.ok .posInf)
    else do
      let now ← Prog.call (VaultCall.time : VaultCall F)
      match (lease.sub cfg.tokenRefreshBuffer).bind fun left => left.max1.after now with
      | .ok expiresAt => return .ok expiresAt
      | .error e => return .error (.raised ⟨e, overflowText⟩)

/-- `_login_kubernetes`, the token being read. -/
def loginWith (cfg : VaultConfig) (jwt : Str) :
    VaultProg F (Except SecretError (PyVal F × FloatValue)) := do
  match ← Prog.call (VaultCall.post cfg.loginUrl cfg.namespaceHeader cfg.role jwt : VaultCall F) with
  | .requestException text =>
    return .error (.unavailable (py "Failed to reach Vault Kubernetes auth endpoint at " ++
      cfg.loginUrl ++ py ": " ++ text))
  | .raised e => return .error (.raised e)
  | .response status text json =>
    if status ≠ 200 then
      return .error (.unavailable (py "Vault Kubernetes auth login returned " ++ natText status ++
        py " for role '" ++ shownText cfg.role ++ py "': " ++ text.take 200))
    else
      match loginData json with
      | .error (.caught text) =>
        return .error (.unavailable
          (py "Unexpected response shape from Vault Kubernetes auth login: " ++ text))
      | .error (.raised e) => return .error (.raised e)
      | .ok (clientToken, leaseDuration) =>
        match ← deadline cfg leaseDuration with
        | .error e => return .error e
        | .ok expiresAt => return .ok (clientToken, expiresAt)

/-- `_login_kubernetes`: a token and its deadline. -/
def loginKubernetes (cfg : VaultConfig) :
    VaultProg F (Except SecretError (PyVal F × FloatValue)) := do
  match ← Prog.call (VaultCall.readFile cfg.jwtPath : VaultCall F) with
  | .osError text =>
    return .error (.unavailable (py "Failed to read Kubernetes service account token from '" ++
      cfg.jwtPath ++ py "': " ++ text))
  | .raised e => return .error (.raised e)
  | .text content =>
    if strip content = [] then
      return .error (.unavailable (py "Kubernetes service account token at '" ++ cfg.jwtPath ++
        py "' is empty"))
    else loginWith cfg (strip content)

/-- The login of `_ensure_kubernetes_token`, and what it leaves. -/
def renewToken (cfg : VaultConfig) (s : VaultState F) :
    VaultProg F (VaultState F × Except SecretError (PyVal F)) := do
  match ← loginKubernetes cfg with
  | .error e => return (s, .error e)
  | .ok (clientToken, expiresAt) =>
    return ({ s with k8sToken := clientToken, k8sTokenExpiresAt := expiresAt }, .ok clientToken)

/-- `_ensure_kubernetes_token`. -/
def ensureKubernetesToken (cfg : VaultConfig) (s : VaultState F) :
    VaultProg F (VaultState F × Except SecretError (PyVal F)) :=
  if truthy s.k8sToken then do
    let now ← Prog.call (VaultCall.time : VaultCall F)
    if s.k8sTokenExpiresAt.above now then return (s, .ok s.k8sToken) else renewToken cfg s
  else renewToken cfg s

/-- `_resolve_token`. -/
def resolveToken (cfg : VaultConfig) (s : VaultState F) :
    VaultProg F (VaultState F × Except SecretError (PyVal F)) :=
  if cfg.kubernetes then ensureKubernetesToken cfg s
  else
    pure (s, .ok (match cfg.token with
      | some token => .str token
      | none => .none))

/-! ## Reads -/

/-- What a cached secret is still good for: it was stored less than the time to live ago. -/
def VaultConfig.fresh (cfg : VaultConfig) (fetchedAt now : ℚ) : Bool :=
  cfg.cacheTtl.above (now - fetchedAt)

/-- `self._cache[path] = (now, data)`. -/
def VaultState.store (s : VaultState F) (path : Str) (now : ℚ) (data : PyVal F) : VaultState F :=
  { s with cache := Function.update s.cache path (some (now, data)) }

/-- The secret in a response. -/
def secretOf (cfg : VaultConfig) (path : Str) : Fetched F → Except SecretError (PyVal F)
  | .requestException text =>
    .error (.unavailable (py "Failed to reach Vault at " ++ shownText cfg.addr ++ py ": " ++ text))
  | .raised e => .error (.raised e)
  | .response status text json =>
    if status ≠ 200 then
      .error (.unavailable (py "Vault returned " ++ natText status ++ py " for '" ++ path ++
        py "': " ++ text.take 200))
    else
      match secretData json with
      | .error (.caught text) =>
        .error (.unavailable (py "Unexpected response shape from Vault for '" ++ path ++ py "': " ++
          text))
      | .error (.raised e) => .error (.raised e)
      | .ok data => .ok data

/-- The read of a secret that is not in the cache. -/
def fetchSecret (cfg : VaultConfig) (s : VaultState F) (path : Str) :
    VaultProg F (VaultState F × Except SecretError (PyVal F)) := do
  match ← resolveToken cfg s with
  | (s, .error e) => return (s, .error e)
  | (s, .ok token) =>
    let fetched ← Prog.call (VaultCall.get (cfg.secretUrl path)
      ((py "X-Vault-Token", token) :: cfg.namespaceHeader) : VaultCall F)
    match secretOf cfg path fetched with
    | .error e => return (s, .error e)
    | .ok data =>
      let now ← Prog.call (VaultCall.time : VaultCall F)
      return (s.store path now data, .ok data)

/-- `get_secret`. -/
def getSecret (cfg : VaultConfig) (s : VaultState F) (path : Str) :
    VaultProg F (VaultState F × Except SecretError (PyVal F)) :=
  if !cfg.isConfigured then
    pure (s, .error (.unavailable
      (if cfg.kubernetes then py "Vault is not configured (VAULT_ADDR/VAULT_K8S_ROLE not set)"
        else py "Vault is not configured (VAULT_ADDR/VAULT_TOKEN not set)")))
  else
    match s.cache path with
    | none => fetchSecret cfg s path
    | some (fetchedAt, data) => do
      let now ← Prog.call (VaultCall.time : VaultCall F)
      if cfg.fresh fetchedAt now then return (s, .ok data) else fetchSecret cfg s path

/-- What `invalidate` does under `_lock`: it drops a secret, or all of them. -/
def VaultState.drop (s : VaultState F) : Option Str → VaultState F
  | none => { s with cache := fun _ => none }
  | some path => { s with cache := Function.update s.cache path none }

/-- What it does under `_auth_lock`: without a path it drops the token. -/
def VaultState.forget (s : VaultState F) : Option Str → VaultState F
  | none => { s with k8sToken := .none, k8sTokenExpiresAt := .finite 0 }
  | some _ => s

/-- `invalidate`. -/
def VaultState.invalidate (s : VaultState F) (path : Option Str) : VaultState F :=
  (s.drop path).forget path

end Login

/-- A client with a static token. -/
def tokenConfig : VaultConfig :=
  ⟨some (py "https://vault:8200"), some (py "s.1"), none, .finite 300, py "token", none,
    py "kubernetes", py "/jwt", .int 30⟩

end AutoHeal
