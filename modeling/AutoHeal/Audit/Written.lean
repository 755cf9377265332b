import AutoHeal.Audit.Rehash

/-!
# Logs written from nothing

What a run of appends to an absent file leaves in it: a line for every append that
did not raise, the first linked to `GENESIS_HASH` and each later one to the line
before (`exists_writes_of_run`). The state an append links to is the one the last
line was left in, so nothing needs to be kept in memory (`currentState_content`).
-/

namespace AutoHeal.Audit

open Segments

variable {F : Type} [PyRuntime F]

/-! ## Writes -/

/-- What `_write_locked` wrote: the entry it was given and the state it linked it to.
The entry could be hashed. -/
structure Write (F : Type) where
  entry : Dict F
  state : Int × Str
  distinct : entry.keys.Nodup
  allowed : keysAllowed (.dict (chained entry state)) = true
  sortable : keysSortable (.dict (chained entry state)) = true
  joined : joinSurrogates state.2 = state.2

/-- A write of an entry of JSON values. -/
def Write.ofJson (entry : Dict F) (state : Int × Str) (hentry : JsonValue (.dict entry))
    (hs : joinSurrogates state.2 = state.2) : Write F where
  entry := entry
  state := state
  distinct := hentry.keys_nodup
  allowed := keysAllowed_of_jsonValue (chained_jsonValue hentry hs)
  sortable := keysSortable_of_jsonValue (chained_jsonValue hentry hs)
  joined := hs

/-- The entry that was returned. -/
def Write.result (w : Write F) : Dict F := finalized w.entry w.state

/-- The state the next write is linked to. -/
def Write.next (w : Write F) : Int × Str := (w.state.1 + 1, jsonHash (chained w.entry w.state))

/-- The line in the file. -/
def Write.line (w : Write F) : Str := lineText w.result

/-- The dict the line is read back as. -/
def Write.parsed (w : Write F) : Dict F := readDict w.result

section Fields

variable (w : Write F)

theorem Write.kind_line : kind F w.line = .chained w.parsed :=
  kind_finalized_line w.distinct w.sortable

theorem Write.get?_parsed {t : Str} (ht : Printable t) :
    Dict.get? t w.parsed = (Dict.get? t w.result).map readBack :=
  get?_readDict_finalized w.distinct w.sortable ht

theorem Write.loads_line : loads w.line = some (PyVal.dict w.parsed) := by
  have hk := (kind_chained w.kind_line).2.1
  rwa [Write.line, strip_lineText] at hk

theorem Write.jsonValue_parsed : JsonValue (.dict w.parsed) := jsonValue_readDict _

theorem Write.get?_sequence :
    Dict.get? (py "sequence") w.parsed = some (.int (w.state.1 + 1)) := by
  rw [w.get?_parsed (by decide), Write.result, get?_finalized_sequence]
  rfl

theorem Write.get?_prev_hash : Dict.get? (py "prev_hash") w.parsed = some (.str w.state.2) := by
  rw [w.get?_parsed (by decide), Write.result, get?_finalized_prev_hash]
  show some (PyVal.str (joinSurrogates w.state.2)) = _
  rw [w.joined]

theorem Write.joined_next : joinSurrogates w.next.2 = w.next.2 :=
  (PyRuntime.sha256_printable _).noHigh.join

theorem Write.get?_entry_hash : Dict.get? (py "entry_hash") w.parsed = some (.str w.next.2) := by
  rw [w.get?_parsed (by decide), Write.result, get?_finalized_entry_hash]
  show some (PyVal.str (joinSurrogates w.next.2)) = _
  rw [w.joined_next]

theorem Write.sequence : field (py "sequence") w.parsed = .int (w.state.1 + 1) := by
  rw [field, w.get?_sequence]
  rfl

theorem Write.prev_hash : field (py "prev_hash") w.parsed = .str w.state.2 := by
  rw [field, w.get?_prev_hash]
  rfl

theorem Write.entry_hash : field (py "entry_hash") w.parsed = .str w.next.2 := by
  rw [field, w.get?_entry_hash]
  rfl

/-- A line is a segment start when it is the first of its log. -/
theorem Write.starts_iff : Starts w.parsed ↔ Intact w.parsed ∧ w.state = (0, genesisHash) := by
  unfold Starts
  rw [w.sequence, w.prev_hash, scalarEq_int, beq_iff_eq, PyVal.str.injEq]
  refine and_congr_right fun _ => ?_
  constructor
  · rintro ⟨hseq, hhash⟩
    exact Prod.ext (by show w.state.1 = 0; omega) hhash
  · intro h
    rw [h]
    exact ⟨rfl, rfl⟩

end Fields

/-! ## Logs -/

/-- `b` was linked to `a`. -/
def LinkedTo (a b : Write F) : Prop := b.state = a.next

/-- A line continues the one it was linked to when its hash is right. -/
theorem LinkedTo.continues_iff {a b : Write F} (h : LinkedTo a b) :
    Continues a.parsed b.parsed ↔ Intact b.parsed := by
  unfold Continues
  rw [a.sequence, a.entry_hash, b.sequence, b.prev_hash, h]
  refine and_iff_left ⟨⟨_, addOne_int _, ?_⟩, rfl⟩
  rw [scalarEq_int]
  exact beq_self_eq_true _

/-- The state after the writes of a log. -/
def endState (ws : List (Write F)) : Int × Str :=
  match ws.getLast? with
  | none => (0, genesisHash)
  | some w => w.next

/-- The writes of a log that was begun in an absent file. -/
structure FromScratch (ws : List (Write F)) : Prop where
  first : ∀ w ∈ ws.head?, w.state = (0, genesisHash)
  linked : List.IsChain LinkedTo ws

/-- The bytes of a log. -/
def content (ws : List (Write F)) : Bytes := ws.flatMap fun w => lineBytes w.result

theorem fromScratch_nil : FromScratch ([] : List (Write F)) :=
  ⟨fun _ h => absurd h (by simp), List.isChain_nil⟩

theorem fromScratch_snoc {ws : List (Write F)} {w : Write F} :
    FromScratch (ws ++ [w]) ↔ FromScratch ws ∧ w.state = endState ws := by
  rcases List.eq_nil_or_concat' ws with rfl | ⟨init, a, rfl⟩
  · constructor
    · intro h
      exact ⟨fromScratch_nil, h.first w (by simp)⟩
    · rintro ⟨-, h⟩
      refine ⟨fun v hv => ?_, List.isChain_singleton w⟩
      have hvw : w = v := by simpa using hv
      exact hvw ▸ h
  · have hend : endState (init ++ [a]) = a.next := by
      rw [endState, List.getLast?_concat]
    have hhead : ((init ++ [a]) ++ [w]).head? = (init ++ [a]).head? := by
      cases init <;> rfl
    rw [hend]
    constructor
    · intro h
      have hchain := List.isChain_append.mp h.linked
      exact ⟨⟨fun v hv => h.first v (hhead ▸ hv), hchain.1⟩, hchain.2.2 a (by simp) w (by simp)⟩
    · rintro ⟨h, hw⟩
      refine ⟨fun v hv => h.first v (hhead ▸ hv), List.isChain_append.mpr ⟨h.linked,
        List.isChain_singleton w, fun x hx y hy => ?_⟩⟩
      have hxa : a = x := by simpa using hx
      have hyw : w = y := by simpa using hy
      rw [← hxa, ← hyw]
      exact hw

/-- Writes are numbered from zero on. -/
theorem FromScratch.state_fst {ws : List (Write F)} (h : FromScratch ws) :
    (endState ws).1 = ws.length ∧ ∀ (i : Nat) (w : Write F), ws[i]? = some w → w.state.1 = i := by
  induction ws using List.reverseRecOn with
  | nil => exact ⟨rfl, fun i w hw => absurd hw (by simp)⟩
  | append_singleton ws w ih =>
    rcases fromScratch_snoc.mp h with ⟨hinit, hw⟩
    rcases ih hinit with ⟨hend, hall⟩
    constructor
    · rw [endState, List.getLast?_concat]
      show w.state.1 + 1 = _
      rw [hw, hend, List.length_append]
      rfl
    · intro i v hv
      rcases Nat.lt_or_ge i ws.length with hi | hi
      · rw [List.getElem?_append_left hi] at hv
        exact hall i v hv
      · rw [List.getElem?_append_right hi, List.getElem?_singleton] at hv
        split_ifs at hv with hzero
        cases hv
        rw [hw, hend]
        omega

theorem FromScratch.nonneg {ws : List (Write F)} (h : FromScratch ws) :
    ∀ w ∈ ws, 0 ≤ w.state.1 := by
  intro w hw
  rcases List.mem_iff_getElem?.mp hw with ⟨i, hi⟩
  rw [h.state_fst.2 i w hi]
  omega

/-- The hash a write is linked to is a digest, or the text the first one has. -/
theorem FromScratch.printable {ws : List (Write F)} (h : FromScratch ws) :
    Printable (endState ws).2 ∧ ∀ w ∈ ws, Printable w.state.2 := by
  induction ws using List.reverseRecOn with
  | nil => exact ⟨(by decide : Printable genesisHash), fun w hw => absurd hw List.not_mem_nil⟩
  | append_singleton ws w ih =>
    rcases fromScratch_snoc.mp h with ⟨hinit, hw⟩
    rcases ih hinit with ⟨hend, hall⟩
    refine ⟨?_, fun v hv => ?_⟩
    · rw [endState, List.getLast?_concat]
      exact PyRuntime.sha256_printable _
    · rcases List.mem_append.mp hv with hv | hv
      · exact hall v hv
      · rw [List.mem_singleton.mp hv, hw]
        exact hend

theorem content_snoc (ws : List (Write F)) (w : Write F) :
    content (ws ++ [w]) = content ws ++ lineBytes w.result := by
  simp [content]

theorem terminated_content (ws : List (Write F)) : Terminated (content ws) := by
  rcases List.eq_nil_or_concat' ws with rfl | ⟨init, w, rfl⟩
  · exact Or.inl rfl
  · rw [content_snoc]
    exact terminated_append_line _ _

/-- A file of entries is a text of one line for each. -/
theorem exists_text_lines (ds : List (Dict F)) :
    ∃ text, decodeUtf8 (ds.flatMap lineBytes) = some text ∧ textLines text = ds.map lineText := by
  have hterm : ∀ ds : List (Dict F), Terminated (ds.flatMap lineBytes) := by
    intro ds
    rcases List.eq_nil_or_concat' ds with rfl | ⟨init, d, rfl⟩
    · exact Or.inl rfl
    · rw [List.flatMap_append, List.flatMap_singleton]
      exact terminated_append_line _ _
  induction ds using List.reverseRecOn with
  | nil => exact ⟨[], rfl, rfl⟩
  | append_singleton ds d ih =>
    rcases ih with ⟨text, htext, hlines⟩
    rcases textLines_append_line (hterm ds) htext d with ⟨text', htext', hlines'⟩
    refine ⟨text', ?_, ?_⟩
    · rw [List.flatMap_append, List.flatMap_singleton]
      exact htext'
    · rw [hlines', hlines, List.map_append]
      rfl

theorem content_eq (ws : List (Write F)) : content ws = (ws.map Write.result).flatMap lineBytes := by
  rw [content, List.flatMap_map]

/-- The file of a log is a text of one line for each write. -/
theorem exists_text_content (ws : List (Write F)) :
    ∃ text, decodeUtf8 (content ws) = some text ∧ textLines text = ws.map Write.line := by
  rcases exists_text_lines (ws.map Write.result) with ⟨text, htext, hlines⟩
  refine ⟨text, by rw [content_eq]; exact htext, ?_⟩
  rw [hlines, List.map_map]
  rfl

/-- The next append links to the last write of the log. -/
theorem currentState_content (ws : List (Write F)) :
    currentState F (some (content ws)) = .ok (endState ws) := by
  rcases List.eq_nil_or_concat' ws with rfl | ⟨init, w, rfl⟩
  · rw [show content ([] : List (Write F)) = (none : Option Bytes).getD [] from rfl,
      ← currentState_getD]
    rfl
  · have hlast := lastText_append_line (terminated_content init).unfinished w.result
    have hlink : linkOf (F := F) w.line = .ok w.next :=
      linkOf_of_loads w.loads_line w.get?_sequence w.get?_entry_hash
    rw [Write.line] at hlink
    rw [content_snoc, currentState_of_lastText hlast, hlink, endState, List.getLast?_concat]

theorem joined_endState (ws : List (Write F)) : joinSurrogates (endState ws).2 = (endState ws).2 :=
  currentState_joined (currentState_content ws)

/-! ## The entries of a log -/

variable (F) in
/-- The chained lines of a file, legacy lines set aside. -/
def entries (file : Bytes) : List (Dict F) := (chainedEntries F file).map Prod.snd

theorem entries_of_text {file : Bytes} {text : Str} (h : decodeUtf8 file = some text) :
    entries F file = (textLines text).filterMap (entryOf F) := by
  unfold entries chainedEntries
  rw [h]
  exact chainedLines_snd 1 _

theorem entryOf_line (w : Write F) : entryOf F w.line = some w.parsed :=
  entryOf_eq_some.mpr w.kind_line

/-- The lines of a log are accepted when every hash is right. -/
theorem accepts_parsed_iff {ws : List (Write F)} (h : FromScratch ws) :
    Accepts Starts Continues none (ws.map Write.parsed) ↔ ∀ w ∈ ws, Intact w.parsed := by
  induction ws using List.reverseRecOn with
  | nil => exact iff_of_true trivial fun w hw => absurd hw List.not_mem_nil
  | append_singleton ws w ih =>
    rcases fromScratch_snoc.mp h with ⟨hinit, hw⟩
    rw [List.map_append, List.map_singleton, accepts_snoc, ih hinit, List.forall_mem_append,
      List.forall_mem_singleton, w.starts_iff]
    refine and_congr_right fun _ => ?_
    rcases List.eq_nil_or_concat' ws with rfl | ⟨init, a, rfl⟩
    · constructor
      · rintro (hstart | ⟨b, hb, -⟩)
        · exact hstart.1
        · cases hb
      · intro hintact
        exact Or.inl ⟨hintact, hw⟩
    · have hlink : LinkedTo a w := by
        rw [endState, List.getLast?_concat] at hw
        exact hw
      rw [List.map_append, List.map_singleton, List.getLast?_concat]
      constructor
      · rintro (hstart | ⟨b, hb, hcont⟩)
        · exact hstart.1
        · exact hcont.1
      · intro hintact
        exact Or.inr ⟨_, rfl, hlink.continues_iff.mpr hintact⟩

theorem filterMap_lines (ws : List (Write F)) :
    (ws.map Write.line).filterMap (entryOf F) = ws.map Write.parsed := by
  rw [List.filterMap_map, ← List.filterMap_eq_map]
  congr 1
  funext w
  exact entryOf_line w

theorem isObject_lines (ws : List (Write F)) :
    ∀ l ∈ ws.map Write.line, (kind F l).isObject = true := by
  intro l hl
  rcases List.mem_map.mp hl with ⟨w, -, rfl⟩
  rw [w.kind_line]
  rfl

theorem entries_content (ws : List (Write F)) : entries F (content ws) = ws.map Write.parsed := by
  rcases exists_text_content ws with ⟨text, htext, hlines⟩
  rw [entries_of_text htext, hlines, filterMap_lines]

theorem verified_content_iff {ws : List (Write F)} (h : FromScratch ws) :
    Verified F (some (content ws)) ↔ ∀ w ∈ ws, Intact w.parsed := by
  rcases exists_text_content ws with ⟨text, htext, hlines⟩
  rw [verified_iff, ← accepts_parsed_iff h, ← filterMap_lines]
  simp only [htext, Option.some.injEq, exists_eq_left', hlines]
  rw [acceptable_iff_entries]
  exact and_iff_right (isObject_lines ws)

/-! ## Entries of JSON values -/

/-- The entry given to the write was made of JSON values and had no chain fields. -/
def Write.Plain (w : Write F) : Prop := JsonValue (.dict w.entry) ∧ NoChainFields w.entry

theorem Write.Plain.parsed {w : Write F} (h : w.Plain) : w.parsed = w.result :=
  readDict_of_jsonValue (finalized_jsonValue h.1 w.joined)

theorem Write.Plain.intact {w : Write F} (h : w.Plain) : Intact w.parsed := by
  rw [h.parsed]
  exact intact_finalized h.1 w.joined h.2.2.2

/-- An entry as it was handed in. -/
def callerFields (d : Dict F) : Dict F :=
  Dict.erase (py "sequence") (Dict.erase (py "prev_hash") (Dict.erase (py "entry_hash") d))

theorem Write.Plain.callerFields {w : Write F} (h : w.Plain) :
    callerFields w.result = w.entry := by
  have hseq := Dict.erase_of_notMem (Dict.get?_eq_none_iff.mp h.2.1)
  have hprev : Dict.get? (py "prev_hash")
      (Dict.set (py "sequence") (.int (w.state.1 + 1)) w.entry) = none := by
    rw [Dict.get?_set, if_neg (by decide), h.2.2.1]
  have hhash : Dict.get? (py "entry_hash") (chained w.entry w.state) = none := by
    unfold chained
    rw [Dict.get?_set, if_neg (by decide), Dict.get?_set, if_neg (by decide), h.2.2.2]
  unfold Audit.callerFields Write.result
  rw [erase_finalized h.2.2.2]
  unfold chained
  rw [Dict.erase_set, Dict.erase_of_notMem (Dict.get?_eq_none_iff.mp hprev), Dict.erase_set, hseq]

/-- `verify_chain` accepts the file and reports no segment boundary. -/
def AcceptedWhole (F : Type) [PyRuntime F] (file : Option Bytes) : Prop :=
  ∃ r, verifyChain F file = .ok r ∧ r.ok = true ∧ r.segmentBoundaries = []

/-- A log of plain entries is one segment. -/
theorem acceptedWhole_content {ws : List (Write F)} (h : FromScratch ws)
    (hplain : ∀ w ∈ ws, w.Plain) : AcceptedWhole F (some (content ws)) := by
  have hverified := (verified_content_iff h).mpr fun w hw => (hplain w hw).intact
  rcases hverified with ⟨r, hr, hok⟩
  rcases report_of_verified hr hok with ⟨text, htext, hacc, rfl⟩
  refine ⟨_, hr, hok, ?_⟩
  have hentries : (chainedLines F 1 (textLines text)).map Prod.snd = ws.map Write.parsed := by
    rw [chainedLines_snd, ← entries_of_text htext, entries_content]
  have hboundaries := boundaries_none (acceptable_iff.mp hacc).2
  show boundaries none (chainedLines F 1 (textLines text)) = []
  -- only the first line starts a segment
  rcases hc : chainedLines F 1 (textLines text) with _ | ⟨x, xs⟩
  · rfl
  · rw [hc] at hentries
    rcases ws with _ | ⟨w, ws⟩
    · cases hentries
    · rw [boundaries, boundaries_some]
      have hnone : (xs.filter fun y => decide (Starts y.2)) = [] := by
        rw [List.filter_eq_nil_iff]
        intro y hy
        have hmem : y.2 ∈ ws.map Write.parsed := by
          rw [List.map_cons, List.map_cons, List.cons.injEq] at hentries
          rw [← hentries.2]
          exact List.mem_map_of_mem hy
        rcases List.mem_map.mp hmem with ⟨v, hv, hvy⟩
        rw [decide_eq_true_eq, ← hvy, v.starts_iff]
        rintro ⟨-, hstate⟩
        rcases List.mem_iff_getElem?.mp hv with ⟨i, hi⟩
        have hnumber := h.state_fst.2 (i + 1) v (by rw [List.getElem?_cons_succ]; exact hi)
        rw [hstate] at hnumber
        have hzero : ((0, genesisHash) : Int × Str).1 = 0 := rfl
        omega
      rw [hnone]
      rfl

/-! ## Writing to a log -/

/-- The file of a directory holds the log of these writes. -/
def Holds (c : AuditChain F) (dir : Dir) (ws : List (Write F)) : Prop :=
  FromScratch ws ∧ (dir.lookup c.base).getD [] = content ws

theorem holds_of_absent {c : AuditChain F} {dir : Dir} (h : dir.lookup c.base = none) :
    Holds c dir [] := by
  refine ⟨fromScratch_nil, ?_⟩
  rw [h]
  rfl

/-- A write that did not raise has added one line to the log. -/
theorem Holds.write {c : AuditChain F} {dir dir' : Dir} {ws : List (Write F)} {entry e : Dict F}
    (h : Holds c dir ws) (hn : entry.keys.Nodup)
    (hwrite : writeLocked c dir entry = (dir', .ok e)) :
    ∃ w, w.entry = entry ∧ w.result = e ∧ Holds c dir' (ws ++ [w]) := by
  rcases exists_of_writeLocked hwrite with ⟨s, hs, hallowed, hsort, -, rfl, rfl⟩
  rw [currentState_getD, h.2, currentState_content, Except.ok.injEq] at hs
  subst hs
  refine ⟨⟨entry, endState ws, hn, hallowed, hsort, joined_endState ws⟩, rfl, rfl, ?_, ?_⟩
  · exact fromScratch_snoc.mpr ⟨h.1, rfl⟩
  · rw [lookup_insert_base, content_snoc, h.2]
    rfl

/-- A plain entry is written to the end of the log. -/
theorem Holds.write_plain {c : AuditChain F} {dir : Dir} {ws : List (Write F)} {entry : Dict F}
    (h : Holds c dir ws) (hentry : JsonValue (.dict entry)) (hno : NoChainFields entry) :
    ∃ w : Write F, w.entry = entry ∧ w.state = endState ws ∧ w.Plain ∧
      writeLocked c dir entry = (dir.insert c.base (content (ws ++ [w])), .ok w.result) ∧
      Holds c (dir.insert c.base (content (ws ++ [w]))) (ws ++ [w]) := by
  have hstate : currentState F (dir.lookup c.base) = .ok (endState ws) := by
    rw [currentState_getD, h.2, currentState_content]
  have hwrite := writeLocked_ok hentry hstate
  have hcontent : ∀ w : Write F, (dir.lookup c.base).getD [] ++ lineBytes w.result =
      content (ws ++ [w]) := by
    intro w
    rw [h.2, content_snoc]
  let w : Write F := .ofJson entry (endState ws) hentry (joined_endState ws)
  refine ⟨w, rfl, rfl, ⟨hentry, hno⟩, ?_, fromScratch_snoc.mpr ⟨h.1, rfl⟩, ?_⟩
  · rw [hwrite]
    exact congrArg (fun file => (dir.insert c.base file, Except.ok w.result)) (hcontent w)
  · rw [lookup_insert_base]
    rfl

/-- A write that raised has left the log as it was. -/
theorem Holds.write_error {c : AuditChain F} {dir dir' : Dir} {ws : List (Write F)}
    {entry : Dict F} {err : PyErr} (h : Holds c dir ws)
    (hwrite : writeLocked c dir entry = (dir', .error err)) : Holds c dir' ws := by
  refine ⟨h.1, ?_⟩
  unfold writeLocked at hwrite
  split at hwrite
  · cases hwrite
    exact h.2
  · split at hwrite
    · cases hwrite
      exact h.2
    · simp only at hwrite
      split at hwrite
      · -- the file was opened before the line could be made
        cases hwrite
        rw [lookup_insert_base]
        exact h.2
      · cases hwrite

/-! ## Runs -/

section Run

variable [PyDates F]

/-- The directory after a run of appends, those that raise among them. -/
def appendAll (c : AuditChain F) (dir : Dir) (calls : List (Env × Dict F)) : Dir :=
  calls.foldl (fun dir call => (append c call.1 dir call.2).1) dir

/-- With rotation disabled a run of appends leaves a log of the same writes and more. -/
theorem Holds.run {c : AuditChain F} (hc : truthy (field (py "enabled") c.retention) = false)
    {calls : List (Env × Dict F)} (hn : ∀ call ∈ calls, call.2.keys.Nodup) {dir : Dir}
    {ws : List (Write F)} (h : Holds c dir ws) :
    ∃ more, Holds c (appendAll c dir calls) (ws ++ more) := by
  induction calls generalizing dir ws with
  | nil => exact ⟨[], by rwa [List.append_nil]⟩
  | cons call calls ih =>
    have hrest := fun call hcall => hn call (List.mem_cons_of_mem _ hcall)
    have hstep : (append c call.1 dir call.2).1 = (writeLocked c dir call.2).1 := by
      rw [append_disabled hc]
    rw [appendAll, List.foldl_cons, hstep]
    rcases hwrite : writeLocked c dir call.2 with ⟨dir', err | e⟩
    · exact ih hrest (h.write_error hwrite)
    · rcases h.write (hn call (by simp)) hwrite with ⟨w, -, -, h'⟩
      rcases ih hrest h' with ⟨more, hmore⟩
      exact ⟨w :: more, by rwa [List.append_assoc] at hmore⟩

/-- What a run of appends to an absent file leaves in it. -/
theorem exists_writes_of_run {c : AuditChain F}
    (hc : truthy (field (py "enabled") c.retention) = false) {dir : Dir}
    (habsent : dir.lookup c.base = none) {calls : List (Env × Dict F)}
    (hn : ∀ call ∈ calls, call.2.keys.Nodup) {file : Bytes}
    (hfile : (appendAll c dir calls).lookup c.base = some file) :
    ∃ ws : List (Write F), FromScratch ws ∧ file = content ws := by
  rcases (holds_of_absent habsent).run hc hn with ⟨ws, hws, hcontent⟩
  rw [List.nil_append] at hws hcontent
  rw [hfile] at hcontent
  exact ⟨ws, hws, hcontent⟩

/-! ## A log of two entries -/

/-- What an action leaves in the log when it begins. -/
def startedEntry : Dict NanFloat :=
  [(.str (py "action"), .str (py "cleanup_disk")), (.str (py "status"), .str (py "started"))]

/-- And when it has ended. -/
def doneEntry : Dict NanFloat :=
  [(.str (py "action"), .str (py "cleanup_disk")), (.str (py "status"), .str (py "success")),
    (.str (py "parameters"), .dict [(.str (py "path"), .str (py "/tmp")),
      (.str (py "days"), .int 7)])]

theorem jsonValue_startedEntry : JsonValue (.dict startedEntry) :=
  (jsonValue_empty.cons (by decide) rfl (.str (by decide))).cons (by decide) rfl (.str (by decide))

theorem jsonValue_doneEntry : JsonValue (.dict doneEntry) := by
  have hparameters : JsonValue (.dict ([(.str (py "path"), .str (py "/tmp")),
      (.str (py "days"), .int 7)] : Dict NanFloat)) :=
    (jsonValue_empty.cons (by decide) rfl (.int 7)).cons (by decide) rfl (.str (by decide))
  exact ((jsonValue_empty.cons (by decide) rfl hparameters).cons (by decide) rfl
    (.str (by decide))).cons (by decide) rfl (.str (by decide))

/-- The write of the first entry to an absent log. -/
def startedWrite : Write NanFloat :=
  .ofJson startedEntry (0, genesisHash) jsonValue_startedEntry joined_genesisHash

/-- The write of the second one. -/
def doneWrite : Write NanFloat :=
  .ofJson doneEntry startedWrite.next jsonValue_doneEntry startedWrite.joined_next

/-- The log of both. -/
def exampleWrites : List (Write NanFloat) := [startedWrite, doneWrite]

theorem fromScratch_exampleWrites : FromScratch exampleWrites := by
  have hfirst : FromScratch [startedWrite] := fromScratch_snoc.mpr ⟨fromScratch_nil, rfl⟩
  exact fromScratch_snoc.mpr ⟨hfirst, rfl⟩

theorem plain_startedWrite : startedWrite.Plain := ⟨jsonValue_startedEntry, rfl, rfl, rfl⟩

theorem plain_doneWrite : doneWrite.Plain := ⟨jsonValue_doneEntry, rfl, rfl, rfl⟩

theorem verified_exampleWrites : Verified NanFloat (some (content exampleWrites)) := by
  refine (verified_content_iff fromScratch_exampleWrites).mpr fun w hw => ?_
  rcases List.mem_cons.mp hw with rfl | hw
  · exact plain_startedWrite.intact
  · rw [List.mem_singleton.mp hw]
    exact plain_doneWrite.intact

/-- The calls that write it. -/
def exampleCalls : List (Env × Dict NanFloat) :=
  [(exampleEnv, startedEntry), (exampleEnv, doneEntry)]

theorem append_started : append (exampleChain []) exampleEnv ∅ startedEntry =
    ((∅ : Dir).insert (exampleChain []).base (content [startedWrite]),
      .ok (startedWrite.result, none)) := by
  have happend := @append_ok NanFloat _ _ (exampleChain []) ∅ startedEntry rfl exampleEnv
    (0, genesisHash) jsonValue_startedEntry (by rw [← currentState_getD]; rfl)
  rw [happend]
  exact congrArg (fun file => ((∅ : Dir).insert (exampleChain []).base file,
    Except.ok (startedWrite.result, none))) (content_snoc [] startedWrite).symm

theorem append_done {dir : Dir}
    (h : dir.lookup (exampleChain []).base = some (content [startedWrite])) :
    append (exampleChain []) exampleEnv dir doneEntry =
      (dir.insert (exampleChain []).base (content exampleWrites), .ok (doneWrite.result, none)) := by
  have hstate : currentState NanFloat
      (some ((dir.lookup (exampleChain []).base).getD [])) = .ok startedWrite.next := by
    rw [h]
    exact currentState_content [startedWrite]
  rw [@append_ok NanFloat _ _ (exampleChain []) dir doneEntry rfl exampleEnv _ jsonValue_doneEntry
    hstate, h]
  exact congrArg (fun file => (dir.insert (exampleChain []).base file,
    Except.ok (doneWrite.result, none))) (content_snoc [startedWrite] doneWrite).symm

theorem lookup_exampleWrites : (appendAll (exampleChain []) ∅ exampleCalls).lookup
    (exampleChain []).base = some (content exampleWrites) := by
  unfold appendAll exampleCalls
  rw [List.foldl_cons, List.foldl_cons, List.foldl_nil, append_started,
    append_done (lookup_insert_base _ _ _), lookup_insert_base]

end Run

end AutoHeal.Audit
