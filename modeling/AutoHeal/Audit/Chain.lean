import AutoHeal.Audit.Verify
import AutoHeal.Python.Datetime
import Mathlib.Data.List.AList

/-!
# `AuditChain`

The writer of the audit log. Nothing is kept in memory between two appends: the
sequence and hash to link to are read back from the last line of the file, which
is found by reading the file backward in chunks. With retention enabled an append
first renames a file that has grown too large or too old, deletes expired
archives, and writes a marker.

Every operation returns the directory it leaves behind, also where it raises.
-/

namespace AutoHeal.Audit

/-! ## The last line -/

/-- `data.rstrip(b"\n")`. -/
def rstripNewlines (data : Bytes) : Bytes := (data.reverse.dropWhile fun b => b == 10).reverse

/-- `data.rsplit(b"\n", 1)[-1]`. -/
def afterNewline (data : Bytes) : Bytes := (data.reverse.takeWhile fun b => b != 10).reverse

/-- `data.decode("utf-8")`. -/
def decoded (data : Bytes) : Py Str :=
  match decodeUtf8 data with
  | some s => .ok s
  | none => .error .unicodeDecodeError

/-- The loop of `_read_last_line`, with `data` read from position `pos` on. -/
def lastLineLoop (file : Bytes) (chunkSize : Nat) (hchunk : 0 < chunkSize) (pos : Nat)
    (data : Bytes) : Py (Option Str) :=
  if hpos : pos = 0 then .ok none
  else
    let readSize := min chunkSize pos
    let pos' := pos - readSize
    let data' := (file.drop pos').take readSize ++ data
    let stripped := rstripNewlines data'
    if 10 ∈ stripped then (decoded (afterNewline stripped)).map some
    else if pos' = 0 then
      -- the whole file is one line, or newlines only
      if stripped = [] then .ok none else (decoded stripped).map some
    else lastLineLoop file chunkSize hchunk pos' data'
termination_by pos
decreasing_by omega

/-- `_read_last_line`. -/
def readLastLine (file : Option Bytes) : Py (Option Str) :=
  match file with
  | none => .ok none
  | some bytes => lastLineLoop bytes 65536 (by decide) bytes.length []

variable {F : Type} [PyRuntime F]

/-! ## The entry to link to -/

/-- The `try` block of `_current_state`. Only a dict has string keys. -/
def linkOf (last : Str) : Py (Int × Str) :=
  match (loads last : Option (PyVal F)) with
  | none => .error .jsonDecodeError
  | some (.dict parsed) =>
    match Dict.get? (py "sequence") parsed with
    | none => .error .keyError
    | some sequence =>
      match toInt sequence with
      | .error e => .error e
      | .ok n =>
        match Dict.get? (py "entry_hash") parsed with
        | none => .error .keyError
        | some entryHash => .ok (n, pyStr entryHash)
  | some _ => .error .typeError

/-- `except (json.JSONDecodeError, KeyError, TypeError, ValueError)`. -/
def linkCaught : PyErr → Bool
  | .jsonDecodeError | .keyError | .typeError | .valueError | .unicodeDecodeError => true
  | _ => false

variable (F) in
/-- `_current_state`. -/
def currentState (file : Option Bytes) : Py (Int × Str) :=
  match readLastLine file with
  | .error e => .error e
  | .ok none => .ok (0, genesisHash)
  | .ok (some last) =>
    match linkOf (F := F) last with
    | .ok s => .ok s
    | .error e => if linkCaught e then .ok (0, genesisHash) else .error e

/-! ## Writing -/

/-- The entry with its chain fields, linked to the state `s`. -/
def chained (entry : Dict F) (s : Int × Str) : Dict F :=
  Dict.set (py "prev_hash") (.str s.2) (Dict.set (py "sequence") (.int (s.1 + 1)) entry)

/-- `os.path` and the files of the log's directory, by name. -/
abbrev Dir := AList fun _ : Str => Bytes

/-- An `AuditChain`: its path, as the text up to the file name and the file name,
and its retention settings. A path is decoded from bytes, so it has no high
surrogates. -/
structure AuditChain (F : Type) where
  parent : Str
  base : Str
  retention : Dict F
  parent_plain : NoHigh parent
  base_plain : NoHigh base

/-- `_write_locked`: the file is opened, and so created, before the line is made. -/
def writeLocked (c : AuditChain F) (dir : Dir) (entry : Dict F) : Dir × Py (Dict F) :=
  match currentState F (dir.lookup c.base) with
  | .error e => (dir, .error e)
  | .ok s =>
    match hashEntry (chained entry s) with
    | .error e => (dir, .error e)
    | .ok h =>
      let finalized := Dict.set (py "entry_hash") (.str h) (chained entry s)
      let opened := (dir.lookup c.base).getD []
      match dumps (.dict finalized) with
      | .error e => (dir.insert c.base opened, .error e)
      | .ok line =>
        (dir.insert c.base (opened ++ encodeUtf8 (line ++ py "\n")), .ok finalized)

/-! ## Rotation -/

variable [PyDates F]

/-- What an append reads from its surroundings: the clock, whenever it is asked,
the listing of the directory, the ages of files, and which files cannot be
removed. -/
structure Env where
  nowAge : DateTime
  nowStamp : DateTime
  nowCutoff : DateTime
  nowMarker : DateTime
  /-- `os.listdir`, `none` being `OSError` -/
  listing : Option (List Str)
  /-- `datetime.fromtimestamp(os.path.getmtime(path))`, `none` being `OSError` -/
  mtime : Str → Option (Py DateTime)
  removable : Str → Bool

/-- `text.replace("Z", "+00:00")`. -/
def replaceZ (text : Str) : Str := text.flatMap fun c => if c = 90 then py "+00:00" else [c]

variable (F) in
/-- The lines of `_read_first_entry_timestamp`, up to the first that is not
blank. -/
def firstTimestamp : List Str → Py (Option IsoTime)
  | [] => .ok none
  | raw :: rest =>
    let line := strip raw
    if line = [] then firstTimestamp rest
    else
      match (loads line : Option (PyVal F)) with
      | none => .ok none  -- the JSONDecodeError is caught
      | some (.dict entry) =>
        let ts := field (py "timestamp") entry
        if truthy ts then
          match ts with
          | .str text => .ok (PyDates.fromIsoformat F (replaceZ text))
          | _ => .error .attributeError
        else .ok none
      | some _ => .error .attributeError

variable (F) in
/-- `_read_first_entry_timestamp`. A decoding error is a `ValueError`, and caught. -/
def readFirstEntryTimestamp (file : Option Bytes) : Py (Option IsoTime) :=
  match file with
  | none => .ok none
  | some bytes => firstTimestamp F (readLines bytes)

/-- `n >= v`. -/
def natGe (n : Nat) (v : PyVal F) : Py Bool :=
  match v.num with
  | some (.inl m) => .ok (m ≤ n)
  | some (.inr x) => .ok (JsonFloat.leInt x n)
  | none => .error .typeError

/-- `_should_rotate_locked` of a file with the given content and first timestamp. -/
def rotationDue (c : AuditChain F) (env : Env) (file : Bytes) (timestamp : Py (Option IsoTime)) :
    Py Bool := do
  let maxBytes := field (py "max_bytes") c.retention
  if ← (if truthy maxBytes then natGe file.length maxBytes else pure false) then
    return true
  let rotateIntervalDays := field (py "rotate_interval_days") c.retention
  if truthy rotateIntervalDays then
    match ← timestamp with
    | none => return false
    | some startedAt =>
      let age ← env.nowAge.since startedAt
      let interval ← timedeltaDays rotateIntervalDays
      return decide (interval ≤ age)
  else
    return false

/-- `_should_rotate_locked`. -/
def shouldRotateLocked (c : AuditChain F) (env : Env) (dir : Dir) : Py Bool :=
  match truthy (field (py "enabled") c.retention), dir.lookup c.base with
  | true, some file => rotationDue c env file (readFirstEntryTimestamp F (some file))
  | _, _ => .ok false

/-- The names of archives made in one second: `<base>.<stamp>`, `<base>.<stamp>-1`
and so on. -/
def archiveName (base stamp : Str) (suffix : Nat) : Str :=
  base ++ py "." ++ stamp ++ if suffix = 0 then [] else py "-" ++ natText suffix

/-- The loop that looks for a name no file has, at most `fuel` of them being
taken. -/
def freeSuffix (dir : Dir) (base stamp : Str) : Nat → Nat → Nat
  | 0, suffix => suffix
  | fuel + 1, suffix =>
    if archiveName base stamp suffix ∈ dir then freeSuffix dir base stamp fuel (suffix + 1)
    else suffix

/-- The file name of `archived_path`. -/
def archivedName (c : AuditChain F) (env : Env) (dir : Dir) : Str :=
  archiveName c.base env.nowStamp.stamp
    (freeSuffix dir c.base env.nowStamp.stamp dir.keys.length 0)

/-- `os.rename`, which replaces a file that has the new name. -/
def rename (dir : Dir) (source target : Str) : Dir :=
  match dir.lookup source with
  | none => dir
  | some file => (dir.erase source).insert target file

/-- The sweep of one file name, with the names deleted so far. -/
def sweepOne (c : AuditChain F) (env : Env) (cutoff : DateTime) (dir : Dir) (deleted : List Str)
    (filename : Str) : Dir × Py (List Str) :=
  if filename = c.base ∨ ¬ (c.base ++ py ".") <+: filename then (dir, .ok deleted)
  else
    match env.mtime filename with
    | none => (dir, .ok deleted)
    | some (.error e) => (dir, .error e)
    | some (.ok mtime) =>
      if mtime.micros < cutoff.micros ∧ filename ∈ dir ∧ env.removable filename = true then
        (dir.erase filename, .ok (deleted ++ [filename]))
      else (dir, .ok deleted)

/-- The loop over the file names. -/
def sweepFiles (c : AuditChain F) (env : Env) (cutoff : DateTime) :
    List Str → Dir → List Str → Dir × Py (List Str)
  | [], dir, deleted => (dir, .ok deleted)
  | filename :: candidates, dir, deleted =>
    match sweepOne c env cutoff dir deleted filename with
    | (dir, .error e) => (dir, .error e)
    | (dir, .ok deleted) => sweepFiles c env cutoff candidates dir deleted

/-- `_sweep_retention_locked`. -/
def sweepRetentionLocked (c : AuditChain F) (env : Env) (dir : Dir) : Dir × Py (List Str) :=
  let retentionDays := field (py "retention_days") c.retention
  if truthy retentionDays then
    match (timedeltaDays retentionDays).bind env.nowCutoff.sub with
    | .error e => (dir, .error e)
    | .ok cutoff =>
      match env.listing with
      | none => (dir, .ok [])
      | some candidates => sweepFiles c env cutoff candidates dir []
  else (dir, .ok [])

/-- The marker a rotation writes. -/
def rotationMarker (c : AuditChain F) (env : Env) (archive : Str) (deleted : List Str) : Dict F :=
  [(.str (py "action"), .str (py "audit_log_rotation")),
    (.str (py "user"), .str (py "system")),
    (.str (py "role"), .str (py "system")),
    (.str (py "timestamp"), .str env.nowMarker.isoformatZ),
    (.str (py "rotated_from"), .str (c.parent ++ archive)),
    (.str (py "deleted_archives"), .list (deleted.map .str))]

/-- A rotation: the archive it made, the archives it deleted, and the marker as
written. The source returns none of it; it is kept here to speak about runs. -/
structure Rotation (F : Type) where
  archive : Str
  deleted : List Str
  marker : Dict F

/-- `_maybe_rotate_locked`. -/
def maybeRotateLocked (c : AuditChain F) (env : Env) (dir : Dir) : Dir × Py (Option (Rotation F)) :=
  match shouldRotateLocked c env dir with
  | .error e => (dir, .error e)
  | .ok false => (dir, .ok none)
  | .ok true =>
    let archive := archivedName c env dir
    let renamed := rename dir c.base archive
    match sweepRetentionLocked c env renamed with
    | (swept, .error e) => (swept, .error e)
    | (swept, .ok deleted) =>
      match writeLocked c swept (rotationMarker c env archive deleted) with
      | (dir', .error e) => (dir', .error e)
      | (dir', .ok marker) => (dir', .ok (some ⟨archive, deleted, marker⟩))

/-- `AuditChain.append`, with the rotation it made. -/
def append (c : AuditChain F) (env : Env) (dir : Dir) (entry : Dict F) :
    Dir × Py (Dict F × Option (Rotation F)) :=
  match maybeRotateLocked c env dir with
  | (dir', .error e) => (dir', .error e)
  | (dir', .ok rotation) =>
    match writeLocked c dir' entry with
    | (dir'', .error e) => (dir'', .error e)
    | (dir'', .ok finalized) => (dir'', .ok (finalized, rotation))

/-! ## A log to run examples on -/

/-- The log `logs/audit.log`, with some retention settings. -/
def exampleChain (retention : Dict NanFloat) : AuditChain NanFloat where
  parent := py "logs/"
  base := py "audit.log"
  retention := retention
  parent_plain := Printable.noHigh (by decide)
  base_plain := Printable.noHigh (by decide)

/-- A moment at which nothing but the log's own files is there. -/
def exampleEnv : Env where
  nowAge := ⟨63902736000000000, by decide⟩
  nowStamp := ⟨63902736000000000, by decide⟩
  nowCutoff := ⟨63902736000000000, by decide⟩
  nowMarker := ⟨63902736000000000, by decide⟩
  listing := some []
  mtime _ := none
  removable _ := true

/-- A directory with one file, the live log. -/
def exampleDir (file : Bytes) : Dir := (∅ : Dir).insert (py "audit.log") file

theorem lookup_exampleDir (file : Bytes) (retention : Dict NanFloat) :
    (exampleDir file).lookup (exampleChain retention).base = some file :=
  AList.lookup_insert _

end AutoHeal.Audit
