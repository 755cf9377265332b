import AutoHeal.Audit.Inserted
import AutoHeal.Server.Reads
import AutoHeal.Server.Request

/-!
# The newest entries

What `/audit` shows of a log is compared with the newest matching entries, as many as the limit
says: `getAudit_exact`. The limit is looked at after an entry was appended, so that one entry is
shown where the limit is none, and what is shown has to be made into a response.
-/

namespace AutoHeal.Server

open Audit

variable {F : Type} [PyRuntime F]

theorem pageItems_eq_ok_iff {items shown : List (PyVal F)} : pageItems items = .ok shown ↔
    shown = items ∧ (∀ item ∈ items, isDict item = true) ∧ answerable (.list items) = true := by
  unfold pageItems
  rw [← List.all_eq_true, ← Bool.and_eq_true]
  split_ifs with hshown
  · simp [hshown, eq_comm]
  · simp [hshown]

/-- The entries of the log that a query matches, the newest first. -/
def matching (params : AuditQueryParams) (text : Str) : List (PyVal F) :=
  (textLines text).reverse.filterMap (collectedEntry params)

/-- The newest of them, as many as the limit says. -/
def newest (params : AuditQueryParams) (text : Str) : List (PyVal F) :=
  (matching params text).take params.limit.toNat

/-- No more is selected than is asked for when something is asked for, or nothing matches. -/
theorem selected_eq_newest_iff {params : AuditQueryParams} {text : Str} :
    (selected params text : List (PyVal F)) = newest params text ↔
      1 ≤ params.limit ∨ (matching params text : List (PyVal F)) = [] := by
  unfold selected newest
  show (matching params text).take (params.room 0) = _ ↔ _
  unfold AuditQueryParams.room
  by_cases hlimit : 1 ≤ params.limit
  · have hroom : max 1 (params.limit - (0 : ℕ)).toNat = params.limit.toNat := by omega
    rw [hroom]
    exact iff_of_true rfl (Or.inl hlimit)
  · have hroom : max 1 (params.limit - (0 : ℕ)).toNat = 1 := by omega
    have hnone : params.limit.toNat = 0 := by omega
    rw [hroom, hnone, List.take_zero]
    simp [hlimit]

/-- A query that is permitted is answered with the newest entries it matches exactly when the log
is text, the limit is positive or nothing matches, and these entries are objects and a response can
be made of them. -/
theorem getAudit_exact {site : Site F} {reads : VaultReads} {log : Audit.Dir} {apiKey : Str}
    {params : AuditQueryParams}
    (hpermitted : hasPermission site.auth
      (getRoleFromApiKey (resolveApiKeys site.auth reads.role) apiKey) (py "audit_read") = true) :
    (log.lookup site.chain.base = none →
      getAudit site reads log apiKey params = .ok (.items [])) ∧
    ∀ file, log.lookup site.chain.base = some file →
      ((∃ text, decodeUtf8 file = some text ∧
          getAudit site reads log apiKey params = .ok (.items (newest params text))) ↔
        ∃ text, decodeUtf8 file = some text ∧
          (1 ≤ params.limit ∨
            ∀ line ∈ textLines text, (collectedEntry params line : Option (PyVal F)) = none) ∧
          (∀ entry ∈ (newest params text : List (PyVal F)), isDict entry = true) ∧
          answerable (.list (newest params text : List (PyVal F))) = true) := by
  constructor
  · intro habsent
    exact getAudit_eq_items.mpr ⟨hpermitted, Or.inl ⟨habsent, rfl⟩⟩
  · intro file hfile
    -- a limit below one keeps the first match, so it is right only where nothing matches
    have hnothing : ∀ text, (matching params text : List (PyVal F)) = [] ↔
        ∀ line ∈ textLines text, (collectedEntry params line : Option (PyVal F)) = none := by
      intro text
      unfold matching
      rw [List.filterMap_eq_nil_iff]
      simp
    refine exists_congr fun text => and_congr_right fun htext => ?_
    rw [← hnothing, ← selected_eq_newest_iff, getAudit_eq_items]
    constructor
    · rintro ⟨-, ⟨habsent, -⟩ | ⟨file', text', hfile', htext', hitems⟩⟩
      · rw [hfile] at habsent
        cases habsent
      · rw [hfile] at hfile'
        cases hfile'
        rw [htext] at htext'
        cases htext'
        rcases pageItems_eq_ok_iff.mp hitems with ⟨heq, hshown⟩
        exact ⟨heq.symm, heq ▸ hshown⟩
    · rintro ⟨heq, hshown⟩
      exact ⟨hpermitted, Or.inr ⟨file, text, hfile, htext,
        pageItems_eq_ok_iff.mpr ⟨heq.symm, heq ▸ hshown⟩⟩⟩

/-! ## Lines of the log -/

/-- The query matches an entry. The filter raises on none that is a mapping with texts. -/
def AuditQueryParams.matches (params : AuditQueryParams) (entry : Dict F) : Bool :=
  match filterAuditEntry (.dict entry) params with
  | .ok passed => passed
  | .error _ => false

/-- The filter looks at five fields. -/
theorem filterAuditEntry_congr {params : AuditQueryParams} {d e : Dict F}
    (h : ∀ name ∈ [py "timestamp", py "action", py "user", py "role", py "controller"],
      field name d = field name e) :
    filterAuditEntry (.dict d) params = filterAuditEntry (.dict e) params := by
  have hget : ∀ name ∈ [py "timestamp", py "action", py "user", py "role", py "controller"],
      getField (.dict d) name = getField (.dict e) name := fun name hname =>
    congrArg Except.ok (h name hname)
  unfold filterAuditEntry inPeriod fieldMatches
  rw [hget (py "timestamp") (by simp), hget (py "action") (by simp), hget (py "user") (by simp),
    hget (py "role") (by simp), hget (py "controller") (by simp)]

/-- What the query finds in a line of the log is what it matches of the entry. -/
theorem collectedEntry_line (params : AuditQueryParams) {w : Write F} (h : w.Plain)
    (hfits : Writable (.dict w.result)) :
    collectedEntry params w.line =
      if params.matches w.entry then some (PyVal.dict w.result) else none := by
  have hsame : filterAuditEntry (.dict w.result) params = filterAuditEntry (.dict w.entry) params := by
    refine filterAuditEntry_congr fun name hname => field_finalized_of_ne ?_ ?_ ?_
    all_goals
      rintro rfl
      revert hname
      decide
  have hlimit : limitMet F w.line = none := limitMet_print .spaced hfits
  rw [collectedEntry_of_limitMet hlimit]
  unfold matchingEntry AuditQueryParams.matches
  rw [w.loads_line, h.parsed]
  simp only [hsame]
  rcases filterAuditEntry (.dict w.entry) params with e | passed
  · rfl
  · cases passed with
    | false => rfl
    | true => rfl

/-- What the query finds in a log, the newest entries first. -/
theorem filterMap_collectedEntry (params : AuditQueryParams) {ws : List (Write F)}
    (h : ∀ w ∈ ws, w.Plain) (hfits : ∀ w ∈ ws, Writable (.dict w.result)) :
    (ws.map Write.line).filterMap (collectedEntry params) =
      ((ws.filter fun w => params.matches w.entry).map Write.result).map PyVal.dict := by
  induction ws with
  | nil => rfl
  | cons w ws ih =>
    have hrest := ih (fun v hv => h v (List.mem_cons_of_mem _ hv))
      fun v hv => hfits v (List.mem_cons_of_mem _ hv)
    have hline := collectedEntry_line params (h w List.mem_cons_self) (hfits w List.mem_cons_self)
    rw [List.map_cons]
    by_cases hw : params.matches w.entry = true
    · rw [if_pos hw] at hline
      rw [List.filterMap_cons_some hline, hrest,
        List.filter_cons_of_pos (p := fun w : Write F => params.matches w.entry) hw]
      rfl
    · rw [if_neg hw] at hline
      rw [List.filterMap_cons_none hline, hrest,
        List.filter_cons_of_neg (p := fun w : Write F => params.matches w.entry) hw]

/-- What is written of an entry can be shown if the entry can be. -/
theorem Write.answerable_result {w : Write F} (hentry : answerable (.list [.dict w.entry]) = true)
    (hprev : Printable w.state.2) (hnext : short (w.state.1 + 1) = true) :
    answerable (.list [.dict w.result]) = true := by
  have hhash : Printable (jsonHash (chained w.entry w.state)) := PyRuntime.sha256_printable _
  have hsequence := answerable_set hentry (by decide : encodes (py "sequence") = true)
    (v := .int (w.state.1 + 1)) rfl fun _ => fits_int.mpr hnext
  have hlink := answerable_set hsequence (by decide : encodes (py "prev_hash") = true)
    (v := .str w.state.2) (encodes_of_printable hprev) fun _ => fits_str _
  exact answerable_set hlink (by decide : encodes (py "entry_hash") = true)
    (encodes_of_printable hhash) fun _ => fits_str _

/-! ## A log of two entries -/

/-- A query for a number of entries. -/
def queryFor (limit : Int) : AuditQueryParams := { AuditQueryParams.all with limit := limit }

/-- A log of two entries. -/
def twoLineLog : Audit.Dir := exampleDir (content exampleWrites)

theorem matching_twoLines {text : Str} (hlines : textLines text = exampleWrites.map Write.line)
    (limit : Int) : (matching (queryFor limit) text : List (PyVal NanFloat)) =
      [.dict doneWrite.result, .dict startedWrite.result] := by
  have hplain : ∀ w ∈ exampleWrites.reverse, w.Plain := by
    intro w hw
    rcases List.mem_cons.mp hw with rfl | hw
    · exact plain_doneWrite
    · rw [List.mem_singleton.mp hw]
      exact plain_startedWrite
  have hfits : ∀ w ∈ exampleWrites.reverse, Writable (.dict w.result) := by
    intro w hw
    rcases List.mem_cons.mp hw with rfl | hw
    · exact Limited.writable_doneWrite
    · rw [List.mem_singleton.mp hw]
      exact Limited.writable_startedWrite
  unfold matching
  rw [hlines, ← List.map_reverse, filterMap_collectedEntry (queryFor limit) hplain hfits]
  rfl

theorem answerable_doneWrite : answerable (.list [.dict doneWrite.result]) = true := by
  refine Write.answerable_result (by decide) ?_ (by decide)
  exact PyRuntime.sha256_printable _

theorem permitted_exampleSite : hasPermission
    (exampleSite (.literal exampleKeys) exampleAction [(py "local", exampleController)]).auth
    (getRoleFromApiKey (resolveApiKeys (exampleSite (.literal exampleKeys) exampleAction
      [(py "local", exampleController)]).auth none) (py "admin-key")) (py "audit_read") = true := by
  decide

/-- The second entry is shown where one is asked for. -/
theorem getAudit_exact_example :
    getAudit (exampleSite (.literal exampleKeys) exampleAction [(py "local", exampleController)])
      ⟨none, none, none, none⟩ twoLineLog (py "admin-key") (queryFor 1) =
      .ok (.items [.dict doneWrite.result]) := by
  rcases exists_text_content exampleWrites with ⟨text, htext, hlines⟩
  have hnewest : (newest (queryFor 1) text : List (PyVal NanFloat)) = [.dict doneWrite.result] := by
    unfold newest
    rw [matching_twoLines hlines]
    rfl
  have hshown : ∀ entry ∈ (newest (queryFor 1) text : List (PyVal NanFloat)), isDict entry = true := by
    rw [hnewest]
    decide
  rcases ((getAudit_exact permitted_exampleSite).2 _ (AList.lookup_insert _)).mpr
    ⟨text, htext, Or.inl (by decide), hshown, by rw [hnewest]; exact answerable_doneWrite⟩ with
    ⟨text', htext', hpage⟩
  rw [htext, Option.some.injEq] at htext'
  subst htext'
  rw [hnewest] at hpage
  exact hpage

/-- One entry is shown where none is asked for. -/
theorem getAudit_limit_zero :
    getAudit (exampleSite (.literal exampleKeys) exampleAction [(py "local", exampleController)])
      ⟨none, none, none, none⟩ twoLineLog (py "admin-key") (queryFor 0) =
      .ok (.items [.dict doneWrite.result]) ∧
    ∀ text, decodeUtf8 (content exampleWrites) = some text →
      (newest (queryFor 0) text : List (PyVal NanFloat)) = [] := by
  rcases exists_text_content exampleWrites with ⟨text, htext, hlines⟩
  refine ⟨getAudit_eq_items.mpr ⟨permitted_exampleSite, Or.inr
    ⟨_, text, AList.lookup_insert _, htext, ?_⟩⟩, fun _ _ => List.take_zero⟩
  have hselected : (selected (queryFor 0) text : List (PyVal NanFloat)) =
      [.dict doneWrite.result] := by
    show (matching (queryFor 0) text).take _ = _
    rw [matching_twoLines hlines]
    rfl
  rw [hselected]
  exact pageItems_eq_ok_iff.mpr ⟨rfl, by decide, answerable_doneWrite⟩

end AutoHeal.Server
