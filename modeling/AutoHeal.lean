import AutoHeal.Python.Str
import AutoHeal.Python.Utf8
import AutoHeal.Json.Value
import AutoHeal.Json.Parse
import AutoHeal.Json.RoundTrip
import AutoHeal.Json.Normal
import AutoHeal.Lib.Segments
import AutoHeal.Lib.Retain
import AutoHeal.Python.Runtime
import AutoHeal.Json.Dumps
import AutoHeal.Audit.Entry
import AutoHeal.Audit.Verify
import AutoHeal.Python.Datetime
import AutoHeal.Python.DateOrder
import AutoHeal.Audit.Chain
import AutoHeal.Audit.Append
import AutoHeal.Audit.Recover
import AutoHeal.Json.Brackets
import AutoHeal.Json.Limits
import AutoHeal.Json.Body
import AutoHeal.Audit.Torn
import AutoHeal.Audit.Rehash
import AutoHeal.Audit.Rotate
import AutoHeal.Audit.Tamper
import AutoHeal.Audit.Robust
import AutoHeal.Server.Auth
import AutoHeal.Server.Limits
import AutoHeal.Server.Actions
import AutoHeal.Server.Queue
import AutoHeal.Server.Request
import AutoHeal.Server.Webhook
import AutoHeal.Server.Approve
import AutoHeal.Server.Mediation
import AutoHeal.Server.Trail
import AutoHeal.Server.Approvals
import AutoHeal.Server.Deferred
import AutoHeal.Server.Equivalence
import AutoHeal.Lib.Transition
import AutoHeal.Server.System
import AutoHeal.Server.Invariants
import AutoHeal.Server.Exclusive
import AutoHeal.Server.Persistence
import AutoHeal.Server.Cooling
import AutoHeal.Server.Response
import AutoHeal.Server.Reads
import AutoHeal.Server.Disclosure
import AutoHeal.Server.Throttle
import AutoHeal.Lib.Items
import AutoHeal.Lib.Prog
import AutoHeal.Python.Format
import AutoHeal.Python.Shlex
import AutoHeal.Python.Times
import AutoHeal.Outside.Calls
import AutoHeal.Outside.Vault
import AutoHeal.Exec.Local
import AutoHeal.Exec.Remote
import AutoHeal.Exec.Kube
import AutoHeal.Exec.Dispatch
import AutoHeal.Exec.Cleanup
import AutoHeal.Exec.DryRun
import AutoHeal.Notify.Sender
import AutoHeal.Notify.Channels
import AutoHeal.Notify.Usable
import AutoHeal.Notify.Notify
import AutoHeal.Notify.Dedup
import AutoHeal.Server.Cooldown
import AutoHeal.Lib.Owed
import AutoHeal.Server.Ledger
import AutoHeal.Server.Startup
import AutoHeal.Server.Loaded
import AutoHeal.Exec.Drain
import AutoHeal.Server.Retry
import AutoHeal.Server.Period
import AutoHeal.Outside.VaultClient
import AutoHeal.Outside.VaultErrors
import AutoHeal.Outside.VaultRuns
import AutoHeal.Audit.Shipper
import AutoHeal.Exec.Lines
import AutoHeal.Exec.ExtraVars
import AutoHeal.Server.Newest
import AutoHeal.Audit.LastLine
import AutoHeal.Audit.Sweep
import AutoHeal.Server.Discovery
import AutoHeal.Lib.Template
import AutoHeal.Python.Words
import AutoHeal.Python.Filled
import AutoHeal.Exec.Templates
import AutoHeal.Lib.Shell
import AutoHeal.Lib.ShellWords
import AutoHeal.Python.Quoted
import AutoHeal.Python.QuotedWords
import AutoHeal.Exec.Quoting
import AutoHeal.Audit.Assembled
import AutoHeal.Audit.Shipped
import AutoHeal.Audit.Limits
import AutoHeal.Audit.LimitedAppend
import AutoHeal.Audit.Inserted
import AutoHeal.Lib.Purge
import AutoHeal.Server.Endpoints
import AutoHeal.Server.AuditTrail
import AutoHeal.Server.Isolation
import AutoHeal.Server.Rates
import AutoHeal.Lib.Ranking
import AutoHeal.Server.Finishing
import AutoHeal.Server.Restarts
import AutoHeal.Server.Serving
import AutoHeal.Server.Pauses
