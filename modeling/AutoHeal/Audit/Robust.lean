import AutoHeal.Audit.Torn
import AutoHeal.Audit.Rotate

/-!
# What stops the log

An append reads the last line of the file and, with rotation by age, the first; the
checker reads all of them. `append_robust_iff` says on which contents of the file, and
under which retention settings, none of these readers raises: the exceptions they let
through are a last line that is no text or whose `sequence` is an infinity, a first
line that is no object or has a timestamp without a zone, and lines that are JSON but
no objects.
-/

namespace AutoHeal.Audit

variable {F : Type}

/-! ## Entries that can be written -/

theorem everyPart_set {p : PyVal F → Bool} {d : Dict F} {t : Str} {v : PyVal F}
    (hd : everyPart p (.dict d) = true) (hv : everyPart p v = true)
    (hp : p (.dict (Dict.set t v d)) = true) : everyPart p (.dict (Dict.set t v d)) = true := by
  rw [everyPart, Bool.and_eq_true, everyPartItems_eq, List.all_eq_true] at hd ⊢
  refine ⟨hp, fun kv hkv => ?_⟩
  rcases Dict.mem_set hkv with hkv | rfl
  · exact hd.2 kv hkv
  · exact hv

theorem everyPart_of_set {p : PyVal F → Bool} {d : Dict F} {t : Str} {v : PyVal F}
    (hnone : Dict.get? t d = none) (h : everyPart p (.dict (Dict.set t v d)) = true)
    (hp : p (.dict d) = true) : everyPart p (.dict d) = true := by
  rw [Dict.set_of_notMem (Dict.get?_eq_none_iff.mp hnone)] at h
  rw [everyPart, Bool.and_eq_true, everyPartItems_eq, List.all_eq_true] at h ⊢
  exact ⟨hp, fun kv hkv => h.2 kv (List.mem_append_left _ hkv)⟩

theorem comparableKeys_of_strKeys {d : Dict F} (h : StrKeys d) : comparableKeys d = true := by
  have hall : (d.all fun kv => kv.1.isText) = true := by
    rw [List.all_eq_true]
    intro kv hkv
    rcases h kv hkv with ⟨s, hs⟩
    rw [hs]
    rfl
  rw [comparableKeys, hall, Bool.or_true, Bool.true_or]

/-- A dict with string keys that `json.dumps` writes, with its keys sorted and without
`default=str`. -/
structure Serialisable (entry : Dict F) : Prop where
  keys : StrKeys entry
  allowed : keysAllowed (.dict entry) = true
  sortable : keysSortable (.dict entry) = true
  plain : plain (.dict entry) = true

/-- A field can be set to a value that can be written. -/
theorem Serialisable.set {d : Dict F} (h : Serialisable d) (t : Str) {v : PyVal F}
    (hallowed : keysAllowed v = true) (hsortable : keysSortable v = true)
    (hplain : AutoHeal.plain v = true) : Serialisable (Dict.set t v d) := by
  have hkeys : StrKeys (Dict.set t v d) := h.keys.set t v
  refine ⟨hkeys, everyPart_set h.allowed hallowed ?_, everyPart_set h.sortable hsortable
    (comparableKeys_of_strKeys hkeys), everyPart_set h.plain hplain rfl⟩
  rw [List.all_eq_true]
  intro kv hkv
  rcases hkeys kv hkv with ⟨s, hs⟩
  rw [hs]
  rfl

theorem Serialisable.set_str {d : Dict F} (h : Serialisable d) (t s : Str) :
    Serialisable (Dict.set t (.str s) d) := h.set t rfl rfl rfl

theorem Serialisable.chained {d : Dict F} (h : Serialisable d) (s : Int × Str) :
    Serialisable (chained d s) := (h.set (py "sequence") rfl rfl rfl).set_str _ _

theorem Serialisable.of_set {d : Dict F} {t : Str} {v : PyVal F} (hnone : Dict.get? t d = none)
    (h : Serialisable (Dict.set t v d)) : Serialisable d := by
  have hkeys : StrKeys d := by
    intro kv hkv
    refine h.keys kv ?_
    rw [Dict.set_of_notMem (Dict.get?_eq_none_iff.mp hnone)]
    exact List.mem_append_left _ hkv
  refine ⟨hkeys, everyPart_of_set hnone h.allowed ?_, everyPart_of_set hnone h.sortable
    (comparableKeys_of_strKeys hkeys), everyPart_of_set hnone h.plain rfl⟩
  rw [List.all_eq_true]
  intro kv hkv
  rcases hkeys kv hkv with ⟨s, hs⟩
  rw [hs]
  rfl

theorem serialisable_of_jsonValue {d : Dict F} (h : JsonValue (.dict d)) : Serialisable d :=
  ⟨h.strKeys, keysAllowed_of_jsonValue h, keysSortable_of_jsonValue h, plain_of_jsonValue h⟩

variable [PyRuntime F]

/-! ## Writing -/

theorem Serialisable.hashEntry {d : Dict F} (h : Serialisable d) :
    hashEntry d = .ok (jsonHash d) := hashEntry_of_keys h.allowed h.sortable

theorem Serialisable.dumps {d : Dict F} (h : Serialisable d) :
    dumps (.dict d) = .ok (lineText d) := by
  rw [AutoHeal.dumps, h.allowed, h.plain]
  rfl

/-- `_write_locked` of an entry that can be written. -/
theorem writeLocked_serialisable {c : AuditChain F} {dir : Dir} {entry : Dict F} {s : Int × Str}
    (h : Serialisable entry) (hs : currentState F (dir.lookup c.base) = .ok s) :
    writeLocked c dir entry =
      (dir.insert c.base ((dir.lookup c.base).getD [] ++ lineBytes (finalized entry s)),
        .ok (finalized entry s)) :=
  writeLocked_of hs (h.chained s).hashEntry ((h.chained s).set_str _ _).dumps

/-- The line of an entry can be linked to. -/
theorem linkOf_lineText {entry : Dict F} (hn : entry.keys.Nodup) (h : Serialisable entry)
    (s : Int × Str) : linkOf (F := F) (lineText (finalized entry s)) =
      .ok (s.1 + 1, jsonHash (chained entry s)) := by
  have hsort := (h.chained s).sortable
  have hload : loads (lineText (finalized entry s)) =
      some (PyVal.dict (readDict (finalized entry s))) := by
    rw [lineText, loads_print_eq, readBack_dict]
    rfl
  have hjoin : joinSurrogates (jsonHash (chained entry s)) = jsonHash (chained entry s) :=
    (PyRuntime.sha256_printable _).noHigh.join
  have hseq : Dict.get? (py "sequence") (readDict (finalized entry s)) = some (.int (s.1 + 1)) := by
    rw [get?_readDict_finalized hn hsort (by decide), get?_finalized_sequence]
    rfl
  have hhash : Dict.get? (py "entry_hash") (readDict (finalized entry s)) =
      some (.str (jsonHash (chained entry s))) := by
    rw [get?_readDict_finalized hn hsort (by decide), get?_finalized_entry_hash, Option.map_some,
      readBack, stringify, hjoin, resolve]
    all_goals simp
  exact linkOf_of_loads hload hseq hhash

/-- The file after the first line of an entry can be linked to. -/
theorem exists_currentState_line {entry : Dict F} (hn : entry.keys.Nodup)
    (h : Serialisable entry) (s : Int × Str) :
    ∃ s', currentState F (some (lineBytes (finalized entry s))) = .ok s' := by
  have hlast : lastText ([] ++ lineBytes (finalized entry s)) =
      some (lineText (finalized entry s)) := lastText_append_line rfl _
  rw [List.nil_append] at hlast
  rw [currentState_of_lastText hlast, linkOf_lineText hn h]
  exact ⟨_, rfl⟩

/-! ## Deciding whether to rotate -/

variable [PyDates F]

/-- The first line that is not blank. -/
def firstLine (lines : List Str) : Option Str := lines.find? fun raw => !(strip raw).isEmpty

/-- An object whose `timestamp` is falsy or a string, and no date without a zone. -/
def DatedEntry (v : PyVal F) : Prop :=
  ∃ entry, v = .dict entry ∧ (truthy (field (py "timestamp") entry) = true →
    ∃ text, field (py "timestamp") entry = .str text ∧
      PyDates.fromIsoformat F (replaceZ text) ≠ some .naive)

variable (F) in
/-- The first line of the file, if it is JSON, is an entry that can be dated. -/
def FirstEntryDated (file : Bytes) : Prop :=
  ∀ raw (v : PyVal F), firstLine (readLines file) = some raw → loads (strip raw) = some v →
    DatedEntry v

/-- The file has reached `max_bytes`. -/
def TooLarge (c : AuditChain F) (file : Bytes) : Prop :=
  truthy (field (py "max_bytes") c.retention) = true ∧
    natGe file.length (field (py "max_bytes") c.retention) = .ok true

/-- `max_bytes` is falsy or a number; where rotation by age is configured, the first
entry can be dated and, if it has a date, `rotate_interval_days` is a time span. -/
structure RotationComputable (c : AuditChain F) (file : Bytes) : Prop where
  size : truthy (field (py "max_bytes") c.retention) = true →
    (field (py "max_bytes") c.retention).num.isSome = true
  dated : ¬ TooLarge c file → truthy (field (py "rotate_interval_days") c.retention) = true →
    FirstEntryDated F file
  interval : ¬ TooLarge c file → truthy (field (py "rotate_interval_days") c.retention) = true →
    ∀ micros, readFirstEntryTimestamp F (some file) = .ok (some (.aware micros)) →
      ∃ span, timedeltaDays (field (py "rotate_interval_days") c.retention) = .ok span

theorem firstTimestamp_eq (lines : List Str) : firstTimestamp F lines =
    match firstLine lines with
    | none => .ok none
    | some raw => firstTimestamp F [raw] := by
  induction lines with
  | nil => rfl
  | cons raw lines ih =>
    unfold firstLine at ih ⊢
    rw [List.find?_cons]
    by_cases hblank : strip raw = []
    · rw [firstTimestamp, ih, hblank]
      rfl
    · have hline : (!(strip raw).isEmpty) = true := by simpa using hblank
      rw [hline]
      simp only [firstTimestamp, hblank, if_false]

/-- A line is read, and no date without a zone, exactly when it can be dated. -/
theorem firstTimestamp_line_iff {raw : Str} (hline : strip raw ≠ []) :
    (∃ t, firstTimestamp F [raw] = .ok t ∧ t ≠ some .naive) ↔
      ∀ v : PyVal F, loads (strip raw) = some v → DatedEntry v := by
  simp only [firstTimestamp, hline, if_false]
  -- a line that is no JSON raises a caught error, and no date is read
  cases (loads (strip raw) : Option (PyVal F)) with
  | none => exact iff_of_true ⟨none, rfl, by simp⟩ (by rintro v ⟨⟩)
  | some v =>
    simp only [Option.some.injEq, forall_eq']
    unfold DatedEntry
    cases v with
    | dict entry =>
      simp only [PyVal.dict.injEq, exists_eq_left']
      -- an absent or empty timestamp is skipped before `fromisoformat` sees it
      by_cases htruthy : truthy (field (py "timestamp") entry) = true
      · simp only [htruthy, if_true, forall_const]
        cases field (py "timestamp") entry with
        | str text => simp
        | none | bool | int | float | list | dict | obj => simp
      · simp [htruthy]
    -- `.get` fails on a line that is no object, and nothing here catches that
    | none | bool | int | float | str | list | obj => simp

theorem strip_firstLine {lines : List Str} {raw : Str} (h : firstLine lines = some raw) :
    strip raw ≠ [] := by
  have hline := List.find?_some h
  simpa using hline

/-- The reader of the first timestamp returns, and no date without a zone, exactly when
the first entry can be dated. -/
theorem firstTimestamp_ok_iff (file : Bytes) :
    (∃ t, readFirstEntryTimestamp F (some file) = .ok t ∧ t ≠ some .naive) ↔
      FirstEntryDated F file := by
  show (∃ t, firstTimestamp F (readLines file) = .ok t ∧ t ≠ some .naive) ↔ _
  unfold FirstEntryDated
  rw [firstTimestamp_eq]
  cases hfirst : firstLine (readLines file) with
  | none => exact iff_of_true ⟨none, rfl, by simp⟩ (by rintro raw v ⟨⟩)
  | some raw =>
    simp only [Option.some.injEq]
    rw [firstTimestamp_line_iff (strip_firstLine hfirst)]
    constructor
    · rintro h _ v rfl hv
      exact h v hv
    · intro h v hv
      exact h raw v rfl hv

/-- The second half of `_should_rotate_locked`, where the size does not decide. -/
theorem age_ok_iff (c : AuditChain F) (env : Env) (timestamp : Py (Option IsoTime)) :
    (∃ due, (if truthy (field (py "rotate_interval_days") c.retention) = true then do
        match ← timestamp with
        | none => return false
        | some startedAt =>
          let age ← env.nowAge.since startedAt
          let interval ← timedeltaDays (field (py "rotate_interval_days") c.retention)
          return decide (interval ≤ age)
      else return false : Py Bool) = .ok due) ↔
    (truthy (field (py "rotate_interval_days") c.retention) = true →
      (∃ t, timestamp = .ok t ∧ t ≠ some .naive) ∧
      ∀ micros, timestamp = .ok (some (.aware micros)) →
        ∃ span, timedeltaDays (field (py "rotate_interval_days") c.retention) = .ok span) := by
  by_cases hage : truthy (field (py "rotate_interval_days") c.retention) = true
  · simp only [hage, if_true, forall_const]
    cases timestamp with
    | error e => simp
    | ok t =>
      rcases t with _ | micros | _
      · simp
      · cases timedeltaDays (field (py "rotate_interval_days") c.retention) <;>
          simp [DateTime.since]
      · simp [DateTime.since]
  · simp [hage]

omit [PyDates F] in
theorem natGe_ok_iff (n : Nat) (v : PyVal F) : (∃ b, natGe n v = .ok b) ↔ v.num.isSome = true := by
  unfold natGe
  rcases v.num with _ | m | x <;> simp

/-- The settings and the first timestamp decide whether to rotate. -/
structure DueComputable (c : AuditChain F) (file : Bytes) (timestamp : Py (Option IsoTime)) :
    Prop where
  size : truthy (field (py "max_bytes") c.retention) = true →
    (field (py "max_bytes") c.retention).num.isSome = true
  dated : ¬ TooLarge c file → truthy (field (py "rotate_interval_days") c.retention) = true →
    ∃ t, timestamp = .ok t ∧ t ≠ some .naive
  interval : ¬ TooLarge c file → truthy (field (py "rotate_interval_days") c.retention) = true →
    ∀ micros, timestamp = .ok (some (.aware micros)) →
      ∃ span, timedeltaDays (field (py "rotate_interval_days") c.retention) = .ok span

theorem rotationDue_ok_iff {c : AuditChain F} {env : Env} {file : Bytes}
    {timestamp : Py (Option IsoTime)} :
    (∃ due, rotationDue c env file timestamp = .ok due) ↔ DueComputable c file timestamp := by
  have hage := age_ok_iff c env timestamp
  unfold rotationDue
  by_cases hmax : truthy (field (py "max_bytes") c.retention) = true
  · have hnum := natGe_ok_iff file.length (field (py "max_bytes") c.retention)
    simp only [hmax, if_true]
    cases hsize : natGe file.length (field (py "max_bytes") c.retention) with
    | error e =>
      refine iff_of_false (by rintro ⟨due, ⟨⟩⟩) fun h => ?_
      rcases hnum.mpr (h.size hmax) with ⟨b, hb⟩
      rw [hsize] at hb
      cases hb
    | ok large =>
      have hsome := hnum.mp ⟨large, hsize⟩
      cases large with
      | true =>
        -- the size decides
        have hlarge : TooLarge c file := ⟨hmax, hsize⟩
        exact iff_of_true ⟨true, rfl⟩
          ⟨fun _ => hsome, fun h => absurd hlarge h, fun h => absurd hlarge h⟩
      | false =>
        have hsmall : ¬ TooLarge c file := by
          rintro ⟨-, hlarge⟩
          rw [hsize] at hlarge
          cases hlarge
        refine hage.trans ⟨fun h => ?_, fun h ha => ⟨h.dated hsmall ha, h.interval hsmall ha⟩⟩
        exact ⟨fun _ => hsome, fun _ ha => (h ha).1, fun _ ha => (h ha).2⟩
  · have hsmall : ¬ TooLarge c file := fun h => hmax h.1
    simp only [hmax, Bool.false_eq_true, if_false]
    refine hage.trans ⟨fun h => ?_, fun h ha => ⟨h.dated hsmall ha, h.interval hsmall ha⟩⟩
    exact ⟨fun h' => absurd h' hmax, fun _ ha => (h ha).1, fun _ ha => (h ha).2⟩

theorem rotationComputable_iff {c : AuditChain F} {file : Bytes} : RotationComputable c file ↔
    DueComputable c file (readFirstEntryTimestamp F (some file)) := by
  have hdated := firstTimestamp_ok_iff (F := F) file
  constructor
  · intro h
    exact ⟨h.size, fun hsmall ha => hdated.mpr (h.dated hsmall ha), h.interval⟩
  · intro h
    exact ⟨h.size, fun hsmall ha => hdated.mp (h.dated hsmall ha), h.interval⟩

/-- `_should_rotate_locked` returns exactly when its settings and the first entry let
it. -/
theorem shouldRotateLocked_ok_iff {c : AuditChain F} {env : Env} {dir : Dir} {file : Bytes}
    (hfile : dir.lookup c.base = some file) :
    (∃ due, shouldRotateLocked c env dir = .ok due) ↔
      (truthy (field (py "enabled") c.retention) = true → RotationComputable c file) := by
  unfold shouldRotateLocked
  rw [hfile]
  cases henabled : truthy (field (py "enabled") c.retention) with
  | false => exact iff_of_true ⟨false, rfl⟩ (by rintro ⟨⟩)
  | true =>
    simp only [forall_const]
    exact rotationDue_ok_iff.trans rotationComputable_iff.symm

/-! ## A rotation that is due -/

omit [PyRuntime F] [PyDates F] in
theorem serialisable_rotationMarker (c : AuditChain F) (env : Env) (archive : Str)
    (deleted : List Str) : Serialisable (rotationMarker c env archive deleted) := by
  have hnames : ∀ p : PyVal F → Bool, (∀ s, p (.str s) = true) → p (.list (deleted.map .str)) = true →
      everyPart p (.list (deleted.map .str)) = true := by
    intro p hstr hlist
    rw [everyPart, everyPartList_eq, hlist, Bool.true_and, List.all_eq_true]
    intro v hv
    rcases List.mem_map.mp hv with ⟨name, -, rfl⟩
    exact hstr name
  have hempty : Serialisable ([] : Dict F) := ⟨by rintro _ ⟨⟩, rfl, rfl, rfl⟩
  exact (((((hempty.set_str (py "action") _).set_str (py "user") _).set_str (py "role") _).set_str
    (py "timestamp") _).set_str (py "rotated_from") _).set (py "deleted_archives")
    (hnames _ (fun _ => rfl) rfl) (hnames _ (fun _ => rfl) rfl) (hnames _ (fun _ => rfl) rfl)

omit [PyRuntime F] [PyDates F] in
theorem keys_rotationMarker_nodup (c : AuditChain F) (env : Env) (archive : Str)
    (deleted : List Str) : (rotationMarker c env archive deleted).keys.Nodup := by
  have hset : ∀ {d : Dict F}, d.keys.Nodup → ∀ t v, (Dict.set t v d).keys.Nodup :=
    fun hd t v => Dict.keys_set_nodup hd t v
  have hempty : (Dict.keys ([] : Dict F)).Nodup := List.nodup_nil
  exact hset (hset (hset (hset (hset (hset hempty (py "action") _) (py "user") _) (py "role") _)
    (py "timestamp") _) (py "rotated_from") _) (py "deleted_archives") _

theorem maybeRotateLocked_of_swept {c : AuditChain F} {env : Env} {dir swept dir' : Dir}
    {deleted : List Str} {marker : Dict F} (hdue : shouldRotateLocked c env dir = .ok true)
    (hsweep : sweepRetentionLocked c env (rename dir c.base (archivedName c env dir)) =
      (swept, .ok deleted))
    (hwrite : writeLocked c swept (rotationMarker c env (archivedName c env dir) deleted) =
      (dir', .ok marker)) :
    maybeRotateLocked c env dir =
      (dir', .ok (some ⟨archivedName c env dir, deleted, marker⟩)) := by
  unfold maybeRotateLocked
  rw [hdue]
  simp only [hsweep, hwrite]

theorem append_of_rotated {c : AuditChain F} {env : Env} {dir dir₁ dir' : Dir} {entry e : Dict F}
    {rotation : Option (Rotation F)} (hrotate : maybeRotateLocked c env dir = (dir₁, .ok rotation))
    (hwrite : writeLocked c dir₁ entry = (dir', .ok e)) :
    append c env dir entry = (dir', .ok (e, rotation)) := by
  unfold append
  rw [hrotate]
  simp only [hwrite]

/-- A rotation leaves a file that can be linked to. -/
theorem exists_rotated {c : AuditChain F} {env : Env} {dir : Dir} {file : Bytes}
    (hfile : dir.lookup c.base = some file) (hdue : shouldRotateLocked c env dir = .ok true)
    (hcut : CutoffComputable c env) :
    ∃ dir' rotation s, maybeRotateLocked c env dir = (dir', .ok rotation) ∧
      currentState F (dir'.lookup c.base) = .ok s := by
  have harchive := isArchive_archivedName c env dir
  rcases exists_swept hcut (rename dir c.base (archivedName c env dir)) with
    ⟨swept, deleted, hsweep, hswept⟩
  have hnone : swept.lookup c.base = none := by
    rw [hswept.lookup, lookup_rename hfile, if_neg (Ne.symm (IsArchive.ne_base harchive.1)),
      if_pos rfl]
    split <;> rfl
  have hstate : currentState F (swept.lookup c.base) = .ok (0, genesisHash) := by
    rw [hnone]
    rfl
  have hmarker := serialisable_rotationMarker c env (archivedName c env dir) deleted
  have hwrite := writeLocked_serialisable hmarker hstate
  rcases exists_currentState_line
    (keys_rotationMarker_nodup c env (archivedName c env dir) deleted) hmarker (0, genesisHash) with
    ⟨s, hs⟩
  refine ⟨_, _, s, maybeRotateLocked_of_swept hdue hsweep hwrite, ?_⟩
  rw [lookup_insert_base, hnone]
  exact hs

/-- A rotation that went through has computed its cutoff and the ages it looked at. -/
theorem cutoff_of_rotated {c : AuditChain F} {env : Env} {dir dir' : Dir}
    {rotation : Option (Rotation F)} (hdue : shouldRotateLocked c env dir = .ok true)
    (h : maybeRotateLocked c env dir = (dir', .ok rotation)) : CutoffComputable c env := by
  unfold maybeRotateLocked at h
  rw [hdue] at h
  simp only at h
  split at h
  · cases h
  · next swept deleted hsweep => exact cutoff_of_swept hsweep

/-! ## Checking -/

variable (F) in
/-- The first line at which the lines stop being acceptable. -/
def FirstBad (lines : List Str) (raw : Str) : Prop :=
  ∃ pre post, lines = pre ++ raw :: post ∧ Acceptable F pre ∧ ¬ Acceptable F (pre ++ [raw])

variable (F) in
/-- The file is text with acceptable lines, or it has a first bad line, which is read
before any decoding error and is not JSON other than an object. -/
def Checkable (file : Bytes) : Prop :=
  (∃ text, decodeUtf8 file = some text ∧ Acceptable F (textLines text)) ∨
    ∃ raw, FirstBad F (readLines file) raw ∧ kind F raw ≠ .notObject

omit [PyDates F] in
theorem FirstBad.not_acceptable {lines : List Str} {raw : Str} (h : FirstBad F lines raw) :
    ¬ Acceptable F lines := by
  rcases h with ⟨pre, post, rfl, -, hbad⟩
  intro hacc
  rw [← List.singleton_append, ← List.append_assoc] at hacc
  exact hbad hacc.of_append

omit [PyDates F] in
theorem FirstBad.unique {lines : List Str} {raw raw' : Str} (h : FirstBad F lines raw)
    (h' : FirstBad F lines raw') : raw = raw' := by
  rcases h with ⟨pre, post, hsplit, hpre, hbad⟩
  rcases h' with ⟨pre', post', hsplit', hpre', hbad'⟩
  rcases List.append_eq_append_iff.mp (hsplit.symm.trans hsplit') with
    ⟨mid, hmid, hrest⟩ | ⟨mid, hmid, hrest⟩
  · cases mid with
    | nil => exact (List.cons.inj hrest).1
    | cons x mid =>
      -- the one bad line would be among acceptable lines
      rw [hmid, (List.cons.inj hrest).1.symm, ← List.singleton_append, ← List.append_assoc] at hpre'
      exact absurd hpre'.of_append hbad
  · cases mid with
    | nil => exact (List.cons.inj hrest).1.symm
    | cons x mid =>
      rw [hmid, (List.cons.inj hrest).1.symm, ← List.singleton_append, ← List.append_assoc] at hpre
      exact absurd hpre.of_append hbad'

omit [PyDates F] in
/-- At the first bad line the checker raises, or it reports it. -/
theorem FirstBad.verifyLines {lines : List Str} {raw : Str} (h : FirstBad F lines raw) :
    kind F raw = .notObject ∧
        verifyLines (⟨.empty, none⟩ : Scan F) 1 lines = .error .attributeError ∨
      kind F raw ≠ .notObject ∧
        ∃ r, verifyLines (⟨.empty, none⟩ : Scan F) 1 lines = .ok r ∧ r.ok = false := by
  rcases h with ⟨pre, post, rfl, hpre, hbad⟩
  by_cases hk : kind F raw = .notObject
  · have hacc := acceptable_iff.mp hpre
    rcases verifyLines_append linked_empty hacc.1 hacc.2 (raw :: post) with ⟨st', hrun, -, -⟩
    exact Or.inl ⟨hk, by rw [hrun, Audit.verifyLines, checkLine_notObject st' _ hk]⟩
  · rcases verifyLines_broken hpre hbad hk post with ⟨detail, hrun⟩
    exact Or.inr ⟨hk, _, hrun, rfl⟩

omit [PyDates F] in
/-- `verify_chain` returns a report exactly when the file is checkable. -/
theorem verifyChain_ok_iff (file : Bytes) :
    (∃ r, verifyChain F (some file) = .ok r) ↔ Checkable F file := by
  unfold verifyChain Checkable readLines
  cases htext : decodeUtf8 file with
  | some text =>
    simp only [htext, Option.some.injEq, exists_eq_left']
    by_cases hacc : Acceptable F (textLines text)
    · exact iff_of_true ⟨_, verifyLines_acceptable hacc⟩ (Or.inl hacc)
    · rcases exists_first_bad hacc with ⟨pre, raw, post, hsplit, hpre, hbad⟩
      have hfirst : FirstBad F (textLines text) raw := ⟨pre, post, hsplit, hpre, hbad⟩
      rcases hfirst.verifyLines with ⟨hk, hrun⟩ | ⟨hk, r, hrun, -⟩
      · rw [hrun]
        refine iff_of_false (by rintro ⟨r, ⟨⟩⟩) ?_
        rintro (hacc' | ⟨raw', hfirst', hk'⟩)
        · exact hacc hacc'
        · exact hk' (hfirst'.unique hfirst ▸ hk)
      · exact iff_of_true ⟨r, hrun⟩ (Or.inr ⟨raw, hfirst, hk⟩)
  | none =>
    simp only [htext, reduceCtorEq, false_and, exists_false, false_or]
    by_cases hacc : Acceptable F (linesBeforeError file)
    · -- no line is bad, so the decoder raises
      rw [verifyLines_acceptable hacc]
      refine iff_of_false (by rintro ⟨r, ⟨⟩⟩) ?_
      rintro ⟨raw, hfirst, -⟩
      exact hfirst.not_acceptable hacc
    · rcases exists_first_bad hacc with ⟨pre, raw, post, hsplit, hpre, hbad⟩
      have hfirst : FirstBad F (linesBeforeError file) raw := ⟨pre, post, hsplit, hpre, hbad⟩
      rcases hfirst.verifyLines with ⟨hk, hrun⟩ | ⟨hk, r, hrun, hok⟩
      · rw [hrun]
        refine iff_of_false (by rintro ⟨r, ⟨⟩⟩) ?_
        rintro ⟨raw', hfirst', hk'⟩
        exact hk' (hfirst'.unique hfirst ▸ hk)
      · rw [hrun]
        refine iff_of_true ⟨r, ?_⟩ ⟨raw, hfirst, hk⟩
        simp [Except.bind, hok]

/-! ## One append -/

/-- An append that returned has written the entry on the last line. -/
def Appends (c : AuditChain F) (env : Env) (dir : Dir) (entry : Dict F) : Prop :=
  ∃ dir' s rotation, append c env dir entry = (dir', .ok (finalized entry s, rotation)) ∧
    ∃ old, dir'.lookup c.base = some (old ++ lineBytes (finalized entry s))

/-- What the readers of the log need: settings by which rotation can be decided and
done, a last line that can be linked to unless the log is rotated, and lines that can be
checked. -/
structure Readable (c : AuditChain F) (env : Env) (dir : Dir) (file : Bytes) : Prop where
  rotation : truthy (field (py "enabled") c.retention) = true → RotationComputable c file
  cutoff : shouldRotateLocked c env dir = .ok true → CutoffComputable c env
  last : shouldRotateLocked c env dir = .ok false → ¬ LinkRaises F file

variable {c : AuditChain F} {env : Env} {dir : Dir} {file : Bytes} {entry : Dict F}

/-- A log that an append has read is readable. -/
theorem readable_of_append {dir' : Dir} {r : Dict F × Option (Rotation F)}
    (hfile : dir.lookup c.base = some file) (happend : append c env dir entry = (dir', .ok r)) :
    Readable c env dir file := by
  unfold append at happend
  split at happend
  · cases happend
  · next dir₁ made hrotate =>
    have hdue : ∃ due, shouldRotateLocked c env dir = .ok due := by
      cases h : shouldRotateLocked c env dir with
      | ok due => exact ⟨due, rfl⟩
      | error e =>
        unfold maybeRotateLocked at hrotate
        rw [h] at hrotate
        cases hrotate
    refine ⟨(shouldRotateLocked_ok_iff hfile).mp hdue,
      fun h => cutoff_of_rotated h hrotate, fun h => ?_⟩
    -- the log is not rotated, so the write has linked to its last line
    unfold maybeRotateLocked at hrotate
    rw [h] at hrotate
    cases hrotate
    rw [← currentState_error_iff]
    rintro ⟨e, he⟩
    rw [← hfile] at he
    rw [writeLocked_error entry he] at happend
    cases happend

/-- An entry that can be written is appended exactly when the log is readable. -/
theorem appends_iff (hentry : Serialisable entry) (hfile : dir.lookup c.base = some file) :
    Appends c env dir entry ↔ Readable c env dir file := by
  constructor
  · rintro ⟨dir', s, rotation, happend, -⟩
    exact readable_of_append hfile happend
  · intro h
    rcases (shouldRotateLocked_ok_iff hfile).mpr h.rotation with ⟨_ | _, hdue⟩
    · have hrotate : maybeRotateLocked c env dir = (dir, .ok none) := by
        unfold maybeRotateLocked
        rw [hdue]
      have hstate : ∃ s, currentState F (dir.lookup c.base) = .ok s := by
        rw [hfile]
        cases hs : currentState F (some file) with
        | ok s => exact ⟨s, rfl⟩
        | error e => exact absurd ((currentState_error_iff file).mp ⟨e, hs⟩) (h.last hdue)
      rcases hstate with ⟨s, hs⟩
      exact ⟨_, s, none, append_of_rotated hrotate (writeLocked_serialisable hentry hs), _,
        lookup_insert_base c dir _⟩
    · rcases exists_rotated hfile hdue (h.cutoff hdue) with ⟨dir₁, rotation, s, hrotate, hs⟩
      exact ⟨_, s, rotation, append_of_rotated hrotate (writeLocked_serialisable hentry hs), _,
        lookup_insert_base c dir₁ _⟩

/-- An entry that can be written is appended to a log that does not exist yet. -/
theorem appends_of_lookup_none (hentry : Serialisable entry) (hfile : dir.lookup c.base = none) :
    Appends c env dir entry := by
  have hdue : shouldRotateLocked c env dir = .ok false := by
    unfold shouldRotateLocked
    rw [hfile]
    cases truthy (field (py "enabled") c.retention) <;> rfl
  have hrotate : maybeRotateLocked c env dir = (dir, .ok none) := by
    unfold maybeRotateLocked
    rw [hdue]
  have hstate : currentState F (dir.lookup c.base) = .ok (0, genesisHash) := by
    rw [hfile]
    rfl
  exact ⟨_, _, none, append_of_rotated hrotate (writeLocked_serialisable hentry hstate), _,
    lookup_insert_base c dir _⟩

omit [PyDates F] in
/-- What was written could be written. -/
theorem serialisable_of_writeLocked {dir' : Dir} {e : Dict F} (hkeys : StrKeys entry)
    (hno : NoChainFields entry) (h : writeLocked c dir entry = (dir', .ok e)) :
    Serialisable entry := by
  rcases exists_of_writeLocked h with ⟨s, -, hallowed, hsort, hplain, -, -⟩
  have hchained : StrKeys (chained entry s) := (hkeys.set _ _).set _ _
  have hhash : Dict.get? (py "entry_hash") (chained entry s) = none := by
    unfold chained
    rw [Dict.get?_set, if_neg (by decide), Dict.get?_set, if_neg (by decide)]
    exact hno.2.2
  have hsequence : Dict.get? (py "prev_hash") (Dict.set (py "sequence") (.int (s.1 + 1)) entry) =
      none := by
    rw [Dict.get?_set, if_neg (by decide)]
    exact hno.2.1
  have hwritten : Serialisable (chained entry s) :=
    ⟨hchained, hallowed, hsort, everyPart_of_set hhash hplain rfl⟩
  exact (hwritten.of_set hsequence).of_set hno.1

/-- An append returns exactly when its entry can be written and the log, where there is
one, is readable. -/
theorem append_ok_iff (hkeys : StrKeys entry) (hno : NoChainFields entry) :
    (∃ dir' r, append c env dir entry = (dir', .ok r)) ↔
      Serialisable entry ∧ ∀ file, dir.lookup c.base = some file → Readable c env dir file := by
  constructor
  · rintro ⟨dir', ⟨e, rotation⟩, happend⟩
    rcases writeLocked_of_append happend with ⟨dir₁, hwrite⟩
    exact ⟨serialisable_of_writeLocked hkeys hno hwrite,
      fun file hfile => readable_of_append hfile happend⟩
  · rintro ⟨hentry, hreadable⟩
    have happends : Appends c env dir entry := by
      cases hfile : dir.lookup c.base with
      | none => exact appends_of_lookup_none hentry hfile
      | some file => exact (appends_iff hentry hfile).mpr (hreadable file hfile)
    rcases happends with ⟨dir', s, rotation, happend, -⟩
    exact ⟨dir', _, happend⟩

end AutoHeal.Audit
