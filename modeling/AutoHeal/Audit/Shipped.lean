import AutoHeal.Audit.Assembled
import AutoHeal.Audit.Shipper

/-!
# The shipped copy

A document that was shipped has the number and the hash of its entry. `verify_chain` alone cannot
tell a log from one whose end was cut off or written anew; against a shipped document it can: a
file that it accepts and that ends with the hash in the document ends in exactly the entries that
had been logged by then (`shipped_pins_log`).
-/

namespace AutoHeal.Audit

open Segments

variable {F : Type} [PyRuntime F]

/-! ## Documents -/

/-- A field of the section `event` of a document. -/
def eventField (name : Str) (doc : Dict F) : PyVal F :=
  match field (py "event") doc with
  | .dict event => field name event
  | _ => .none

theorem exists_event_toEcs {entry doc : Dict F} (h : toEcs entry = .ok doc) :
    ∃ event, field (py "event") doc = .dict event ∧
      field (py "sequence") event = field (py "sequence") entry ∧
      field (py "hash") event = field (py "entry_hash") entry := by
  unfold toEcs at h
  cases hexecution : executionOf entry with
  | error e =>
    rw [hexecution] at h
    cases h
  | ok execution =>
    cases hmessage : summaryMessage entry with
    | error e =>
      rw [hexecution, hmessage] at h
      cases h
    | ok message =>
      rw [hexecution, hmessage] at h
      cases h
      simp only
      -- a document may be without a timestamp, which comes before the section
      generalize field (py "timestamp") entry = timestamp
      generalize field (py "sequence") entry = sequence
      generalize field (py "entry_hash") entry = hash
      cases timestamp <;> refine ⟨_, rfl, ?_, ?_⟩ <;> simp [field, Dict.get?, Key.isStr, py, cp]

/-- The document of an entry has its number and its hash. -/
theorem eventField_toEcs {entry doc : Dict F} (h : toEcs entry = .ok doc) :
    eventField (py "sequence") doc = field (py "sequence") entry ∧
      eventField (py "hash") doc = field (py "entry_hash") entry := by
  rcases exists_event_toEcs h with ⟨event, hevent, hsequence, hhash⟩
  unfold eventField
  rw [hevent]
  exact ⟨hsequence, hhash⟩

/-! ## Logs -/

variable [PyDates F]

/-- The last call of a run is made in the directory that the others leave. -/
theorem appendAll_concat (c : AuditChain F) (dir : Dir) (calls : List (Env × Dict F))
    (call : Env × Dict F) : appendAll c dir (calls ++ [call]) =
      (append c call.1 (appendAll c dir calls) call.2).1 := by
  unfold appendAll
  rw [List.foldl_append, List.foldl_cons, List.foldl_nil]

/-- Entries of JSON values are logged, with rotation disabled, and the document of the last one is
shipped. The log then is accepted and ends with the hash of the document, which has the number of
its entries, and any file that is accepted and ends with that hash has for its last segment just
the entries of the log. -/
theorem shipped_pins_log (hinj : Sha256Injective F) {c : AuditChain F}
    (hc : truthy (field (py "enabled") c.retention) = false) {dir : Dir}
    (habsent : dir.lookup c.base = none) {before : List (Env × Dict F)} {call : Env × Dict F}
    (hcalls : ∀ x ∈ before ++ [call], JsonValue (.dict x.2) ∧ NoChainFields x.2)
    {e doc : Dict F} {rotation : Option (Rotation F)}
    (happend : (append c call.1 (appendAll c dir before) call.2).2 = .ok (e, rotation))
    (hdoc : toEcs e = .ok doc) :
    ∃ log, (appendAll c dir (before ++ [call])).lookup c.base = some log ∧
      Verified F (some log) ∧
      (entries F log).getLast?.map (field (py "entry_hash")) = some (eventField (py "hash") doc) ∧
      eventField (py "sequence") doc = .int (entries F log).length ∧
      (entries F log).length = before.length + 1 ∧
      ∀ g, Verified F (some g) →
        (entries F g).getLast?.map (field (py "entry_hash")) = some (eventField (py "hash") doc) →
        List.Forall₂ (fun a b => SameValue (.dict a) (.dict b)) (entries F log)
          (Audit.finalEntries F g) := by
  have hbefore : ∀ x ∈ before, JsonValue (.dict x.2) ∧ NoChainFields x.2 :=
    fun x hx => hcalls x (List.mem_append_left _ hx)
  rcases hcalls call (List.mem_append_right _ List.mem_cons_self) with ⟨hentry, hno⟩
  rcases (holds_of_absent habsent).run_plain hc hbefore with ⟨ws, hholds, hplains, hentries⟩
  rw [List.nil_append] at hholds
  rcases hholds.append_plain hc call.1 hentry hno with ⟨w, -, hstate, hplain, hthis, hholds'⟩
  rw [hthis] at happend
  cases happend
  have hfile : (appendAll c dir (before ++ [call])).lookup c.base = some (content (ws ++ [w])) := by
    rw [appendAll_concat, hthis, lookup_insert_base]
  have hall : ∀ v ∈ ws ++ [w], v.Plain :=
    List.forall_mem_append.mpr ⟨hplains, List.forall_mem_singleton.mpr hplain⟩
  have hverified : Verified F (some (content (ws ++ [w]))) :=
    (verified_content_iff hholds'.1).mpr fun v hv => (hall v hv).intact
  have hlast : (entries F (content (ws ++ [w]))).getLast? = some w.parsed := by
    rw [entries_content, List.map_append, List.map_singleton, List.getLast?_concat]
  have hlength : (entries F (content (ws ++ [w]))).length = ws.length + 1 := by
    rw [entries_content, List.length_map, List.length_append, List.length_singleton]
  have hcount : ws.length = before.length := by
    rw [← List.length_map Write.entry, hentries, List.length_map]
  rcases eventField_toEcs hdoc with ⟨hsequence, hhash⟩
  rw [← hplain.parsed] at hsequence hhash
  refine ⟨_, hfile, hverified, ?_, ?_, ?_, ?_⟩
  · rw [hlast, Option.map_some, hhash]
  · rw [hsequence, w.sequence, hstate, hholds.1.state_fst.1, hlength]
    rfl
  · rw [hlength, hcount]
  · intro g hg hend
    rcases Option.map_eq_some_iff.mp hend with ⟨y, hy, hyhash⟩
    have hsame := same_finalEntries hinj hverified hg hlast hy (hhash.symm.trans hyhash.symm)
    rw [hholds'.1.finalEntries, ← entries_content] at hsame
    exact hsame.imp fun a b hab => hab.2.2

/-- The document of the second entry of a log, against the log with an earlier one put before
it. -/
theorem shipped_pins_log_example : ∃ doc : Dict NanFloat, toEcs doneWrite.result = .ok doc ∧
    eventField (py "sequence") doc = .int 2 ∧
    entries NanFloat (content exampleWrites) = [startedWrite.parsed, doneWrite.parsed] ∧
    List.Forall₂ (fun a b => SameValue (.dict a) (.dict b))
      (entries NanFloat (content exampleWrites))
      (Audit.finalEntries NanFloat (content (earlierWrite :: exampleWrites))) := by
  have hexecution : executionOf doneWrite.result = .ok ([] : Dict NanFloat) := rfl
  rcases toEcs_isOk_iff.mpr ⟨_, hexecution⟩ with ⟨doc, hdoc⟩
  have hcalls : ∀ x ∈ [(exampleEnv, startedEntry)] ++ [(exampleEnv, doneEntry)],
      JsonValue (.dict x.2) ∧ NoChainFields x.2 := by
    intro x hx
    rcases List.mem_cons.mp hx with rfl | hx
    · exact plain_startedWrite
    · rw [List.mem_singleton.mp hx]
      exact plain_doneWrite
  have hbefore : (appendAll (exampleChain []) ∅ [(exampleEnv, startedEntry)]).lookup
      (exampleChain []).base = some (content [startedWrite]) := by
    unfold appendAll
    rw [List.foldl_cons, List.foldl_nil, append_started, lookup_insert_base]
  rcases @shipped_pins_log NanFloat _ _ sha256Injective_nanFloat (exampleChain []) rfl ∅ rfl
    [(exampleEnv, startedEntry)] (exampleEnv, doneEntry) hcalls _ doc _
    (congrArg Prod.snd (append_done hbefore)) hdoc with
    ⟨log, hlog, hverified, hlast, hsequence, hlength, hpins⟩
  obtain rfl : log = content exampleWrites :=
    Option.some.inj (hlog.symm.trans lookup_exampleWrites)
  rw [hlength] at hsequence
  have hend : (entries NanFloat (content (earlierWrite :: exampleWrites))).getLast? =
      (entries NanFloat (content exampleWrites)).getLast? := by
    rw [entries_content, entries_content]
    exact List.getLast?_cons_cons
  refine ⟨doc, hdoc, hsequence, entries_content exampleWrites, hpins _ verified_earlier ?_⟩
  rw [hend, hlast]

end AutoHeal.Audit
