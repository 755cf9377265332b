import AutoHeal.Lib.Prog
import AutoHeal.Python.Runtime

/-!
# What the program asks the outside

The calls that leave the program while an action is executed or a notification is sent: to
Vault, to the file system for the secrets it writes, to processes, to a Kubernetes cluster, to
web hooks and to a mail server. What is answered is left open.
-/

namespace AutoHeal

/-- An exception with its text. -/
structure Raised where
  error : PyErr
  text : Str

/-- Why a secret is not to be had: a `VaultUnavailableError` with its text, or another
exception. -/
inductive SecretError where
  | unavailable (text : Str)
  | raised (e : Raised)

/-- What comes of `subprocess.run`. -/
inductive Process where
  | finished (returncode : Int) (stdout stderr : Str)
  | timeoutExpired (text : Str)
  | raised (text : Str)

/-- What a Kubernetes client raises: an `ApiException`, or another exception. -/
inductive KubeError where
  | api (body : Option Str) (status : Option Int) (reason : Option Str) (text : Str)
  | other (text : Str)

/-- A pod of a list, with the kinds of its owners. -/
structure Pod where
  name : Str
  podNamespace : Str
  owners : List Str

/-- What comes of `requests.post`. -/
inductive Posted where
  | status (code : ℕ)
  | requestException
  | osError

/-- The path of a temporary file. -/
abbrev TempPath := { path : Str // path ≠ [] }

/-- The configuration of a Kubernetes client. Without a certificate TLS is not verified. -/
inductive KubeConfiguration (F : Type) where
  | inCluster
  | file (path : PyVal F)
  | token (host : PyVal F) (token : Str) (caCert : Option (PyVal F))

/-- A call. -/
inductive Call (F : Type) where
  /-- `vault_client.get_secret(path)` -/
  | getSecret (path : Str)
  /-- `tempfile.mkstemp` -/
  | mkstemp
  /-- the text of a file, and its mode -/
  | writeSecret (path : TempPath) (text : Str)
  | unlink (path : TempPath)
  | readText (path : Str)
  /-- `subprocess.run` -/
  | process (argv : List Str)
  | loadIncluster
  | loadKubeConfig (path : PyVal F)
  /-- `kubernetes.client.ApiClient` -/
  | apiClient (configuration : KubeConfiguration F)
  | utcNow
  /-- a method of the Kubernetes API -/
  | kube (method : Str) (args : List (PyVal F))
  /-- `requests.post` -/
  | post (url payload : PyVal F) (headers : List (Str × Str))
  /-- `MIMEText(body)` -/
  | mimeText (body : Str)
  /-- `smtplib.SMTP(host, port)` -/
  | smtpConnect (host port : PyVal F)
  | smtpStarttls
  | smtpLogin (username password : PyVal F)
  /-- `msg.as_string()` -/
  | mimeString (body subject : Str) (sender : PyVal F) (recipients : Str)
  | smtpSend (sender recipients : PyVal F) (message : Str)
  | smtpQuit

/-- What a call is answered. A step of a mail that fails has an `smtplib` or an OS error. -/
def Answer (F : Type) : Call F → Type
  | .getSecret _ => Except SecretError (PyVal F)
  | .mkstemp => Except Raised TempPath
  | .writeSecret _ _ => Except Raised Unit
  | .unlink _ => Bool
  | .readText _ => Except Str Str
  | .process _ => Process
  | .loadIncluster | .loadKubeConfig _ => Except Str Unit
  | .apiClient _ => Except KubeError Unit
  | .utcNow => Str
  | .kube _ _ => Except KubeError (List Pod)
  | .post _ _ _ => Posted
  | .mimeText _ => Except PyErr Unit
  | .mimeString _ _ _ _ => Except PyErr Str
  | .smtpConnect _ _ | .smtpStarttls | .smtpLogin _ _ | .smtpSend _ _ _ | .smtpQuit => Bool

/-- A program that makes such calls. -/
abbrev Effect (F : Type) (α : Type) := Prog (Call F) (Answer F) α

/-- A call that was made. -/
abbrev Made (F : Type) := Asked (Call F) (Answer F)

end AutoHeal
