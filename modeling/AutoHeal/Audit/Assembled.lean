import AutoHeal.Audit.Rotate
import AutoHeal.Audit.Tamper

/-!
# Files put together from logs

What `verify_chain` makes of a file that is made of pieces of logs. Two accepted files, one
behind the other, are accepted (`verify_concat`). So are all the files that a run of appends has
left, and any of them, joined in their order: the boundaries that are reported are then the
markers of the rotations (`archives_joined`). Lines of one log in another order are accepted
exactly if they are beginnings of the log, one after the other (`selection_verified_iff`).
-/

namespace AutoHeal.Audit

open Segments

variable {F : Type} [PyRuntime F]

/-! ## One file behind another -/

omit [PyRuntime F] in
/-- The lines of a file behind a terminated one are those of both. -/
theorem decodeUtf8_concat {a b : Bytes} (hterm : Terminated a) {s t : Str}
    (ha : decodeUtf8 a = some s) (hb : decodeUtf8 b = some t) :
    decodeUtf8 (a ++ b) = some (s ++ t) ∧ textLines (s ++ t) = textLines s ++ textLines t := by
  rcases hterm with rfl | ⟨a, rfl⟩
  · cases ha
    exact ⟨hb, rfl⟩
  · rcases decodeUtf8_newline_end ha with ⟨u, hu, rfl⟩
    constructor
    · rw [List.append_assoc, List.singleton_append, decodeUtf8_append_newline, hu, hb]
      simp
    · rw [List.append_assoc, List.singleton_append, textLines_append_newline]

theorem chainedLines_shift (m n : Nat) (lines : List Str) :
    chainedLines F (m + n) lines = (chainedLines F n lines).map fun x => (m + x.1, x.2) := by
  induction lines generalizing n with
  | nil => rfl
  | cons raw lines ih =>
    rw [chainedLines, chainedLines, Nat.add_assoc, ih (n + 1)]
    split
    · rfl
    · rfl

variable (F) in
/-- The lines of a file on which a segment starts. -/
def segmentStarts (file : Bytes) : List Nat :=
  ((chainedEntries F file).filter fun x => decide (Starts x.2)).map Prod.fst

/-- The report of an accepted file, in terms of its entries. -/
theorem report_eq_starts {file : Bytes} {text : Str} (htext : decodeUtf8 file = some text)
    (hacc : Acceptable F (textLines text)) :
    Report.empty.extend (F := F) none 1 (textLines text) =
      ⟨true, (chainedEntries F file).length, (textLines text).countP fun l => (kind F l).isLegacy,
        (segmentStarts F file).tail, none, none⟩ := by
  have hentries : chainedEntries F file = chainedLines F 1 (textLines text) := by
    unfold chainedEntries
    rw [htext]
  have hboundaries := boundaries_none (acceptable_iff.mp hacc).2
  unfold segmentStarts
  rw [Report.extend, hboundaries, hentries]
  simp [Report.empty]

/-- A file behind a terminated one is accepted with it if both are, and the report adds up: the
segments of the second begin as many lines later. -/
theorem verify_concat {a b : Bytes} (hterm : Terminated a) {r s : Report}
    (ha : verifyChain F (some a) = .ok r) (hr : r.ok = true)
    (hb : verifyChain F (some b) = .ok s) (hs : s.ok = true) :
    ∃ text, decodeUtf8 a = some text ∧ verifyChain F (some (a ++ b)) = .ok
      ⟨true, r.entriesChecked + s.entriesChecked, r.legacyEntries + s.legacyEntries,
        (segmentStarts F a ++ (segmentStarts F b).map fun n => (textLines text).length + n).tail,
        none, none⟩ := by
  rcases report_of_verified ha hr with ⟨text, htext, hacc, rfl⟩
  rcases report_of_verified hb hs with ⟨text', htext', hacc', rfl⟩
  rcases decodeUtf8_concat hterm htext htext' with ⟨hjoined, hlines⟩
  refine ⟨text, htext, ?_⟩
  have haccepts : Accepts Starts Continues none ((textLines text).filterMap (entryOf F)) :=
    (acceptable_iff_entries.mp hacc).2
  have hwhole : Acceptable F (textLines (text ++ text')) := by
    rw [acceptable_iff_entries, hlines, List.filterMap_append, accepts_append]
    refine ⟨fun l hl => ?_, haccepts, ?_⟩
    · rcases List.mem_append.mp hl with hl | hl
      · exact hacc.1 l hl
      · exact hacc'.1 l hl
    · -- the first entry of the second file starts a segment, whatever comes before it
      have hsecond := (acceptable_iff_entries.mp hacc').2
      rcases hentries : (textLines text').filterMap (entryOf F) with _ | ⟨d, ds⟩
      · trivial
      · rw [hentries] at hsecond
        exact ⟨Or.inl hsecond.head, hsecond.2⟩
  have hentries : chainedEntries F (a ++ b) = chainedEntries F a ++
      (chainedEntries F b).map fun x => ((textLines text).length + x.1, x.2) := by
    unfold chainedEntries
    simp only [hjoined, htext, htext', hlines]
    rw [chainedLines_append, Nat.add_comm, chainedLines_shift]
  have hstarts : segmentStarts F (a ++ b) =
      segmentStarts F a ++ (segmentStarts F b).map fun n => (textLines text).length + n := by
    unfold segmentStarts
    rw [hentries, List.filter_append, List.map_append, List.filter_map, List.map_map, List.map_map]
    rfl
  have hrun : verifyChain F (some (a ++ b)) =
      .ok (Report.empty.extend (F := F) none 1 (textLines (text ++ text'))) := by
    unfold verifyChain
    simp only [hjoined]
    exact verifyLines_acceptable hwhole
  rw [hrun, report_eq_starts hjoined hwhole, report_eq_starts htext hacc,
    report_eq_starts htext' hacc', hstarts, hentries, hlines, List.countP_append, List.length_append,
    List.length_map]

theorem verified_earlierWrite : Verified NanFloat (some (content [earlierWrite])) := by
  have hscratch : FromScratch [earlierWrite] := fromScratch_snoc.mpr ⟨fromScratch_nil, rfl⟩
  refine (verified_content_iff hscratch).mpr fun w hw => ?_
  rw [List.mem_singleton.mp hw]
  exact Write.Plain.intact ⟨jsonValue_doneEntry, rfl, rfl, rfl⟩

/-- A log of two entries behind another one. -/
theorem verify_concat_example : ∃ r, verifyChain NanFloat
    (some (content [earlierWrite] ++ content exampleWrites)) = .ok r ∧ r.ok = true := by
  rcases verified_earlierWrite with ⟨r, hr, hok⟩
  rcases verified_exampleWrites with ⟨s, hs, hok'⟩
  rcases verify_concat (terminated_content [earlierWrite]) hr hok hs hok' with ⟨text, -, hrun⟩
  exact ⟨_, hrun, rfl⟩

/-! ## Files of written lines -/

/-- A plain entry starts a segment if it was linked to nothing. -/
theorem Write.Plain.starts_iff {w : Write F} (h : w.Plain) :
    Starts w.parsed ↔ w.state = (0, genesisHash) := by
  rw [w.starts_iff]
  exact and_iff_right h.intact

/-- A plain entry continues another if it was linked to it. -/
theorem Write.Plain.continues_iff {v w : Write F} (h : w.Plain) :
    Continues v.parsed w.parsed ↔ LinkedTo v w := by
  constructor
  · rintro ⟨-, ⟨next, hnext, hseq⟩, hprev⟩
    rw [v.sequence, addOne_int, Except.ok.injEq] at hnext
    rw [w.sequence, ← hnext, scalarEq_int, beq_iff_eq] at hseq
    rw [w.prev_hash, v.entry_hash, PyVal.str.injEq] at hprev
    refine Prod.ext ?_ hprev
    show w.state.1 = v.state.1 + 1
    omega
  · intro hlink
    exact hlink.continues_iff.mpr h.intact

/-- The checker goes through plain entries by what they were linked to. -/
theorem accepts_plain_iff {ws : List (Write F)} (h : ∀ w ∈ ws, w.Plain) :
    Accepts Starts Continues none (ws.map Write.parsed) ↔
      Accepts (fun w : Write F => w.state = (0, genesisHash)) LinkedTo none ws := by
  rw [show (none : Option (Dict F)) = (none : Option (Write F)).map Write.parsed from rfl, accepts_map]
  constructor
  · refine Accepts.imp_of_forall (P := Write.Plain) (fun w hw => hw.starts_iff.mp)
      (fun v w _ hw => hw.continues_iff.mp) (fun w hw => ?_) h
    cases hw
  · refine Accepts.imp_of_forall (P := Write.Plain) (fun w hw => hw.starts_iff.mpr)
      (fun v w _ hw => hw.continues_iff.mpr) (fun w hw => ?_) h
    cases hw

/-- Lines that were written are acceptable when the checker accepts their entries. -/
theorem acceptable_lines_iff (ws : List (Write F)) : Acceptable F (ws.map Write.line) ↔
    Accepts Starts Continues none (ws.map Write.parsed) := by
  rw [acceptable_iff_entries, filterMap_lines]
  exact and_iff_right (isObject_lines ws)

/-- The writes of a log of plain entries are accepted, whatever comes before them. -/
theorem FromScratch.accepts {ws : List (Write F)} (h : FromScratch ws) (p : Option (Write F)) :
    Accepts (fun w : Write F => w.state = (0, genesisHash)) LinkedTo p ws := by
  cases ws with
  | nil => trivial
  | cons w ws =>
    refine IsSegment.accepts ⟨w, ws, rfl, ?_, h.linked⟩ p
    exact h.first w rfl

/-! ## The files of a run, joined -/

variable (F) in
/-- The lines that files begin on when they are joined, from line `n` on. An empty file begins
on none. -/
def beginnings (n : Nat) : List Bytes → List Nat
  | [] => []
  | file :: files =>
    (if file = [] then [] else [n]) ++ beginnings (n + (entries F file).length) files

section Joined

variable {ws : List (Write F)}

theorem content_append (vs ws : List (Write F)) : content (vs ++ ws) = content vs ++ content ws :=
  List.flatMap_append

theorem content_flatten (wss : List (List (Write F))) :
    content wss.flatten = (wss.map content).flatten := by
  induction wss with
  | nil => rfl
  | cons ws wss ih => rw [List.flatten_cons, content_append, ih, List.map_cons, List.flatten_cons]

theorem content_eq_nil : content ws = [] ↔ ws = [] := by
  cases ws with
  | nil => exact iff_of_true rfl rfl
  | cons w ws =>
    refine iff_of_false (fun h => ?_) (by simp)
    have hline : lineBytes w.result = [] := (List.append_eq_nil_iff.mp h).1
    unfold lineBytes at hline
    exact absurd hline (by simp)

theorem chainedLines_cons_line (n : Nat) (w : Write F) (ws : List (Write F)) :
    chainedLines F n ((w :: ws).map Write.line) =
      (n, w.parsed) :: chainedLines F (n + 1) (ws.map Write.line) := by
  rw [List.map_cons, chainedLines, w.kind_line]

theorem mem_chainedLines_map {n : Nat} {x : Nat × Dict F}
    (h : x ∈ chainedLines F n (ws.map Write.line)) : ∃ w ∈ ws, x.2 = w.parsed := by
  have hmem : x.2 ∈ ws.map Write.parsed := by
    rw [← filterMap_lines, ← chainedLines_snd n]
    exact List.mem_map_of_mem h
  rcases List.mem_map.mp hmem with ⟨w, hw, hx⟩
  exact ⟨w, hw, hx.symm⟩

/-- Only the first line of a log starts a segment. -/
theorem FromScratch.filter_starts (h : FromScratch ws) (hplain : ∀ w ∈ ws, w.Plain) (n : Nat) :
    (chainedLines F n (ws.map Write.line)).filter (fun x => decide (Starts x.2)) =
      (ws.head?.map fun w => (n, w.parsed)).toList := by
  cases ws with
  | nil => rfl
  | cons w ws =>
    have hfirst : Starts w.parsed := (hplain w List.mem_cons_self).starts_iff.mpr (h.first w rfl)
    have hrest : (chainedLines F (n + 1) (ws.map Write.line)).filter
        (fun x => decide (Starts x.2)) = [] := by
      rw [List.filter_eq_nil_iff]
      intro x hx
      rcases mem_chainedLines_map hx with ⟨v, hv, hxv⟩
      rw [decide_eq_true_eq, hxv, (hplain v (List.mem_cons_of_mem _ hv)).starts_iff]
      intro hstate
      -- a later write is linked to a positive sequence
      rcases List.mem_iff_getElem?.mp hv with ⟨i, hi⟩
      have hnumber := h.state_fst.2 (i + 1) v (by rw [List.getElem?_cons_succ]; exact hi)
      rw [hstate] at hnumber
      simp only at hnumber
      omega
    rw [chainedLines_cons_line, List.filter_cons_of_pos (by simpa using hfirst), hrest]
    rfl

/-- Logs that are joined start segments where they begin. -/
theorem starts_joined {wss : List (List (Write F))} (h : ∀ ws ∈ wss, FromScratch ws)
    (hplain : ∀ ws ∈ wss, ∀ w ∈ ws, w.Plain) (n : Nat) :
    ((chainedLines F n (wss.flatten.map Write.line)).filter fun x => decide (Starts x.2)).map
      Prod.fst = beginnings F n (wss.map content) := by
  induction wss generalizing n with
  | nil => rfl
  | cons ws wss ih =>
    have hws := (h ws List.mem_cons_self).filter_starts (hplain ws List.mem_cons_self) n
    rw [List.flatten_cons, List.map_append, chainedLines_append, List.filter_append, List.map_append,
      hws, ih (fun vs hvs => h vs (List.mem_cons_of_mem _ hvs))
        (fun vs hvs => hplain vs (List.mem_cons_of_mem _ hvs)), List.map_cons, beginnings,
      entries_content, List.length_map, List.length_map]
    congr 1
    cases ws with
    | nil => rfl
    | cons w ws => rw [if_neg (fun h => absurd (content_eq_nil.mp h) (by simp))]; rfl

/-- Logs that are joined are accepted, each being a segment. -/
theorem acceptable_joined {wss : List (List (Write F))} (h : ∀ ws ∈ wss, FromScratch ws)
    (hplain : ∀ ws ∈ wss, ∀ w ∈ ws, w.Plain) : Acceptable F (wss.flatten.map Write.line) := by
  have hflat : ∀ w ∈ wss.flatten, w.Plain := by
    intro w hw
    rcases List.mem_flatten.mp hw with ⟨ws, hws, hw⟩
    exact hplain ws hws w hw
  have hgen : ∀ p, Accepts (fun w : Write F => w.state = (0, genesisHash)) LinkedTo p wss.flatten := by
    clear hplain hflat
    induction wss with
    | nil => intro p; trivial
    | cons ws wss ih =>
      intro p
      rw [List.flatten_cons, accepts_append]
      exact ⟨(h ws List.mem_cons_self).accepts p,
        ih (fun vs hvs => h vs (List.mem_cons_of_mem _ hvs)) _⟩
  rw [acceptable_lines_iff, accepts_plain_iff hflat]
  exact hgen none

/-- What starts a segment in joined logs is the first line of one of them. -/
theorem mem_starts_joined {wss : List (List (Write F))} (h : ∀ ws ∈ wss, FromScratch ws)
    (hplain : ∀ ws ∈ wss, ∀ w ∈ ws, w.Plain) {n : Nat} {x : Nat × Dict F}
    (hx : x ∈ (chainedLines F n (wss.flatten.map Write.line)).filter fun x => decide (Starts x.2)) :
    ∃ ws ∈ wss, ∃ w, ws.head? = some w ∧ x.2 = w.parsed := by
  induction wss generalizing n with
  | nil => cases hx
  | cons ws wss ih =>
    have hws := (h ws List.mem_cons_self).filter_starts (hplain ws List.mem_cons_self) n
    rw [List.flatten_cons, List.map_append, chainedLines_append, List.filter_append, hws] at hx
    rcases List.mem_append.mp hx with hx | hx
    · rcases Option.map_eq_some_iff.mp (Option.mem_toList.mp hx) with ⟨w, hw, rfl⟩
      exact ⟨ws, List.mem_cons_self, w, hw, rfl⟩
    · rcases ih (fun vs hvs => h vs (List.mem_cons_of_mem _ hvs))
        (fun vs hvs => hplain vs (List.mem_cons_of_mem _ hvs)) hx with ⟨vs, hvs, hhead⟩
      exact ⟨vs, List.mem_cons_of_mem _ hvs, hhead⟩

theorem chainedEntries_content (ws : List (Write F)) :
    chainedEntries F (content ws) = chainedLines F 1 (ws.map Write.line) := by
  rcases exists_text_content ws with ⟨text, htext, hlines⟩
  unfold chainedEntries
  rw [htext, ← hlines]

/-- The report of logs that are joined. -/
theorem verify_joined {wss : List (List (Write F))} (h : ∀ ws ∈ wss, FromScratch ws)
    (hplain : ∀ ws ∈ wss, ∀ w ∈ ws, w.Plain) :
    verifyChain F (some (content wss.flatten)) = .ok ⟨true, wss.flatten.length, 0,
      (beginnings F 1 (wss.map content)).tail, none, none⟩ := by
  rcases exists_text_content wss.flatten with ⟨text, htext, hlines⟩
  have hacc : Acceptable F (textLines text) := by
    rw [hlines]
    exact acceptable_joined h hplain
  have hlength : (chainedEntries F (content wss.flatten)).length = wss.flatten.length := by
    rw [← List.length_map Prod.snd, chainedEntries_content, chainedLines_snd, filterMap_lines,
      List.length_map]
  -- every line was written, so none is a legacy line
  have hlegacy : (textLines text).countP (fun l => (kind F l).isLegacy) = 0 := by
    rw [List.countP_eq_zero, hlines]
    intro l hl
    rcases List.mem_map.mp hl with ⟨w, -, rfl⟩
    rw [w.kind_line]
    simp [Kind.isLegacy]
  have hstarts : segmentStarts F (content wss.flatten) = beginnings F 1 (wss.map content) := by
    unfold segmentStarts
    rw [chainedEntries_content]
    exact starts_joined h hplain 1
  have hrun : verifyChain F (some (content wss.flatten)) =
      .ok (Report.empty.extend (F := F) none 1 (textLines text)) := by
    unfold verifyChain
    simp only [htext]
    exact verifyLines_acceptable hacc
  rw [hrun, report_eq_starts htext hacc, hlength, hlegacy, hstarts]

variable [PyDates F] {c : AuditChain F} {st : LogState F}

omit [PyDates F] in
/-- Every file that a run has begun after the first has a marker in its first line. -/
theorem LogInv.marker_of_head {logs : List (List (Write F))} {live ws : List (Write F)} {w : Write F}
    (h : LogInv c st logs live) (hws : ws ∈ (logs ++ [live]).tail) (hw : ws.head? = some w) :
    field (py "action") w.parsed = .str (py "audit_log_rotation") := by
  have hmem : ws.head?.map Write.result ∈ st.rotations.map fun r => some r.marker := by
    rw [← h.markers]
    exact List.mem_map_of_mem hws
  rcases List.mem_map.mp hmem with ⟨r, hr, hmarker⟩
  rw [hw, Option.map_some, Option.some.injEq] at hmarker
  have hplain : w.Plain :=
    h.plain ws (List.mem_of_mem_tail hws) w (List.mem_of_mem_head? hw)
  rw [hplain.parsed, ← hmarker]
  exact (h.marked r hr).1

/-- Of the files that a run of appends has left, archives that were deleted since among them, any
are accepted when they are joined in the order they were begun in. Every entry is counted, the
boundaries that are reported are the lines on which the files after the first begin, and on these
are the markers of the rotations. -/
theorem archives_joined (h : Reachable c st) {files : List Bytes}
    (hfiles : files.Sublist (st.files c)) :
    ∃ r, verifyChain F (some files.flatten) = .ok r ∧ r.ok = true ∧ r.legacyEntries = 0 ∧
      r.entriesChecked = (files.map fun file => (entries F file).length).sum ∧
      r.segmentBoundaries = (beginnings F 1 files).tail ∧
      ∀ n ∈ r.segmentBoundaries, ∃ d, (n, d) ∈ chainedEntries F files.flatten ∧
        field (py "action") d = .str (py "audit_log_rotation") := by
  rcases exists_logInv h with ⟨logs, live, hinv⟩
  have hall : st.files c = (logs ++ [live]).map content := by
    unfold LogState.files
    rw [hinv.contents, hinv.holds.2, List.map_append]
    rfl
  rw [hall] at hfiles
  rcases List.sublist_map_iff.mp hfiles with ⟨wss, hsub, rfl⟩
  have hscratch : ∀ ws ∈ wss, FromScratch ws := by
    intro ws hws
    rcases List.mem_append.mp (hsub.subset hws) with hws | hws
    · exact hinv.closed ws hws
    · rw [List.mem_singleton.mp hws]
      exact hinv.holds.1
  have hplain : ∀ ws ∈ wss, ∀ w ∈ ws, w.Plain := fun ws hws => hinv.plain ws (hsub.subset hws)
  have hrun := verify_joined hscratch hplain
  rw [← content_flatten]
  refine ⟨_, hrun, rfl, rfl, ?_, rfl, ?_⟩
  · simp only [List.length_flatten, List.map_map]
    congr 1
    refine List.map_congr_left fun ws _ => ?_
    show ws.length = (entries F (content ws)).length
    rw [entries_content, List.length_map]
  · intro n hn
    -- the boundaries lie behind the first of the files
    cases wss with
    | nil => cases hn
    | cons ws wss =>
      have hfirst := (hscratch ws List.mem_cons_self).filter_starts (hplain ws List.mem_cons_self) 1
      have hrest : n ∈ ((chainedLines F (1 + (ws.map Write.line).length)
          (wss.flatten.map Write.line)).filter fun x => decide (Starts x.2)).map Prod.fst := by
        have hn : n ∈ (beginnings F 1 ((ws :: wss).map content)).tail := hn
        rw [← starts_joined hscratch hplain 1, List.flatten_cons, List.map_append,
          chainedLines_append, List.filter_append, hfirst, List.map_append] at hn
        cases ws with
        | nil => exact List.mem_of_mem_tail hn
        | cons w ws => exact hn
      rcases List.mem_map.mp hrest with ⟨⟨m, d⟩, hx, rfl⟩
      rcases mem_starts_joined (fun vs hvs => hscratch vs (List.mem_cons_of_mem _ hvs))
        (fun vs hvs => hplain vs (List.mem_cons_of_mem _ hvs)) hx with ⟨vs, hvs, w, hw, hd⟩
      refine ⟨d, ?_, ?_⟩
      · rw [chainedEntries_content, List.flatten_cons, List.map_append, chainedLines_append]
        exact List.mem_append_right _ (List.mem_filter.mp hx).1
      · have hd : d = w.parsed := hd
        rw [hd]
        exact hinv.marker_of_head (hsub.tail.subset hvs) hw

/-- Two rotations: the archives, and the live file behind them. -/
theorem archives_joined_example : ∃ r,
    verifyChain NanFloat (some ((((noLog.append (rotatingChain []) exampleEnv startedEntry).append
      (rotatingChain []) exampleEnv doneEntry).files (rotatingChain [])).flatten)) = .ok r ∧
      r.ok = true := by
  have hcut : CutoffComputable (rotatingChain []) exampleEnv := fun h => by cases h
  have hfirst := (reachable_noLog (rotatingChain [])).append jsonValue_startedEntry ⟨rfl, rfl, rfl⟩
    fun _ => hcut
  rcases archives_joined (hfirst.append jsonValue_doneEntry ⟨rfl, rfl, rfl⟩ fun _ => hcut)
    (List.Sublist.refl _) with ⟨r, hr, hok, -⟩
  exact ⟨r, hr, hok⟩

end Joined

/-! ## Lines of one log in another order -/

/-- Numbers that start at zero or count on are beginnings of the numbers. -/
theorem segmented_numbers_iff {xs : List Nat} :
    Segmented (fun i => i = 0) (fun i j : Nat => j = i + 1) xs ↔
      ∃ ns : List Nat, xs = ns.flatMap List.range := by
  have hrange : ∀ (a : Nat) (ys : List Nat), List.IsChain (fun i j : Nat => j = i + 1) (a :: ys) →
      a :: ys = List.range' a (ys.length + 1) := by
    intro a ys hchain
    induction ys generalizing a with
    | nil => rfl
    | cons b ys ih =>
      rw [List.isChain_cons_cons] at hchain
      rw [ih b hchain.2, hchain.1, List.length_range']
      rfl
  constructor
  · rintro ⟨segs, rfl, hsegs⟩
    refine ⟨segs.map List.length, ?_⟩
    rw [List.flatMap_map, ← List.flatMap_id]
    refine List.flatMap_congr fun seg hseg => ?_
    rcases hsegs seg hseg with ⟨a, ys, rfl, rfl, hchain⟩
    rw [List.range_eq_range']
    exact hrange 0 ys hchain
  · rintro ⟨ns, rfl⟩
    refine accepts_iff_segmented.mp ?_
    have hgen : ∀ p, Accepts (fun i => i = 0) (fun i j : Nat => j = i + 1) p
        (ns.flatMap List.range) := by
      induction ns with
      | nil => intro p; trivial
      | cons n ns ih =>
        intro p
        rw [List.flatMap_cons, accepts_append]
        refine ⟨?_, ih _⟩
        cases n with
        | zero => trivial
        | succ n =>
          have hseg : IsSegment (fun i => i = 0) (fun i j : Nat => j = i + 1) (List.range (n + 1)) := by
            rw [List.range_eq_range']
            exact ⟨0, List.range' 1 n, rfl, rfl, List.isChain_range' 0 (n + 1) 1⟩
          exact hseg.accepts p
    exact hgen none

section Selection

/-- With rotation disabled an append of a plain entry is one write. -/
theorem Holds.append_plain [PyDates F] {c : AuditChain F}
    (hc : truthy (field (py "enabled") c.retention) = false) {dir : Dir} {ws : List (Write F)}
    (h : Holds c dir ws) (env : Env) {entry : Dict F} (hentry : JsonValue (.dict entry))
    (hno : NoChainFields entry) :
    ∃ w : Write F, w.entry = entry ∧ w.state = endState ws ∧ w.Plain ∧
      append c env dir entry =
        (dir.insert c.base (content (ws ++ [w])), .ok (w.result, none)) ∧
      Holds c (dir.insert c.base (content (ws ++ [w]))) (ws ++ [w]) := by
  rcases h.write_plain hentry hno with ⟨w, hw, hstate, hplain, hwrite, hholds⟩
  refine ⟨w, hw, hstate, hplain, ?_, hholds⟩
  rw [append_disabled hc, hwrite]
  rfl

/-- A log keeps every write of plain entries, and nothing else is written. -/
theorem Holds.run_plain [PyDates F] {c : AuditChain F}
    (hc : truthy (field (py "enabled") c.retention) = false) {calls : List (Env × Dict F)}
    (hcalls : ∀ call ∈ calls, JsonValue (.dict call.2) ∧ NoChainFields call.2) {dir : Dir}
    {ws : List (Write F)} (h : Holds c dir ws) :
    ∃ more, Holds c (appendAll c dir calls) (ws ++ more) ∧ (∀ w ∈ more, w.Plain) ∧
      more.map Write.entry = calls.map Prod.snd := by
  induction calls generalizing dir ws with
  | nil => exact ⟨[], by rwa [List.append_nil], by simp, rfl⟩
  | cons call calls ih =>
    rcases hcalls call List.mem_cons_self with ⟨hentry, hno⟩
    rcases h.append_plain hc call.1 hentry hno with ⟨w, hw, -, hplain, happend, hholds⟩
    rcases ih (fun call hcall => hcalls call (List.mem_cons_of_mem _ hcall)) hholds with
      ⟨more, hmore, hall, hentries⟩
    refine ⟨w :: more, ?_, ?_, ?_⟩
    · rw [appendAll, List.foldl_cons, happend]
      rwa [List.append_assoc] at hmore
    · intro v hv
      rcases List.mem_cons.mp hv with rfl | hv
      · exact hplain
      · exact hall v hv
    · rw [List.map_cons, List.map_cons, hentries, hw]

/-- Plain writes of a log, in any order, are accepted by their numbers alone. -/
theorem accepts_selected_iff {ws : List (Write F)} (h : FromScratch ws)
    (hplain : ∀ w ∈ ws, w.Plain) (sel : List (Fin ws.length)) :
    Accepts Starts Continues none ((sel.map ws.get).map Write.parsed) ↔
      ∃ ns : List Nat, sel.map Fin.val = ns.flatMap List.range := by
  have hnumber : ∀ i : Fin ws.length, (ws.get i).state.1 = i := fun i =>
    h.state_fst.2 i (ws.get i) (List.getElem?_eq_getElem i.isLt)
  have hstart : ∀ i : Fin ws.length, (ws.get i).state = (0, genesisHash) ↔ i.val = 0 := by
    intro i
    constructor
    · intro hstate
      have := hnumber i
      rw [hstate] at this
      simp only at this
      omega
    · intro hi
      refine h.first _ ?_
      rw [List.head?_eq_getElem?, ← hi]
      exact List.getElem?_eq_getElem i.isLt
  -- a line was linked to the one before it and to no other
  have hlink : ∀ i j : Fin ws.length, LinkedTo (ws.get i) (ws.get j) ↔ j.val = i.val + 1 := by
    intro i j
    constructor
    · intro hlinked
      have hj := hnumber j
      rw [hlinked, Write.next, hnumber i] at hj
      simp only at hj
      omega
    · intro hij
      have hchain := List.isChain_iff_getElem.mp h.linked i.val (by omega)
      simp only [List.get_eq_getElem, hij]
      exact hchain
  have hsel : ∀ w ∈ sel.map ws.get, w.Plain := by
    intro w hw
    rcases List.mem_map.mp hw with ⟨i, -, rfl⟩
    exact hplain _ (List.get_mem ws i)
  rw [accepts_plain_iff hsel, ← segmented_numbers_iff, ← accepts_iff_segmented,
    show (none : Option (Write F)) = (none : Option (Fin ws.length)).map ws.get from rfl, accepts_map,
    show (none : Option Nat) = (none : Option (Fin ws.length)).map Fin.val from rfl, accepts_map]
  simp only [hstart, hlink]

/-- Lines of a log that was written from nothing, at any positions, in any order and any number
of times: `verify_chain` accepts them exactly if they are beginnings of the log, one after the
other, and names the first line on which they stop to be. -/
theorem selection_verified_iff [PyDates F] {c : AuditChain F}
    (hc : truthy (field (py "enabled") c.retention) = false) {dir : Dir}
    (habsent : dir.lookup c.base = none) {calls : List (Env × Dict F)}
    (hcalls : ∀ call ∈ calls, JsonValue (.dict call.2) ∧ NoChainFields call.2) {file other : Bytes}
    {text text' : Str} (hfile : (appendAll c dir calls).lookup c.base = some file)
    (htext : decodeUtf8 file = some text) (htext' : decodeUtf8 other = some text')
    (sel : List (Fin (textLines text).length)) (hlines : textLines text' = sel.map (textLines text).get) :
    ∃ r, verifyChain F (some other) = .ok r ∧
      (r.ok = true ↔ ∃ ns : List Nat, sel.map Fin.val = ns.flatMap List.range) ∧
      (r.ok = false → ∃ k, r.firstBrokenLine = some (1 + k) ∧
        (∃ ns : List Nat, (sel.take k).map Fin.val = ns.flatMap List.range) ∧
        ¬ ∃ ns : List Nat, (sel.take (k + 1)).map Fin.val = ns.flatMap List.range) := by
  rcases (holds_of_absent habsent).run_plain hc hcalls with ⟨ws, ⟨hscratch, hcontent⟩, hplain, -⟩
  rw [List.nil_append] at hscratch hcontent
  rw [hfile, Option.getD_some] at hcontent
  rcases exists_text_content ws with ⟨t, ht, hwritten⟩
  rw [← hcontent, htext] at ht
  cases ht
  -- the lines that are selected are those of writes
  have hcover : ∀ sel' : List (Fin (textLines text).length),
      (Acceptable F (sel'.map (textLines text).get) ↔
        ∃ ns : List Nat, sel'.map Fin.val = ns.flatMap List.range) := by
    rw [hwritten]
    intro sel'
    have hlength : (ws.map Write.line).length = ws.length := List.length_map _
    have hselected : sel'.map (ws.map Write.line).get =
        ((sel'.map (Fin.cast hlength)).map ws.get).map Write.line := by
      rw [List.map_map, List.map_map]
      refine List.map_congr_left fun i _ => ?_
      simp
    have hvalues : sel'.map Fin.val = (sel'.map (Fin.cast hlength)).map Fin.val := by
      rw [List.map_map]
      rfl
    rw [hselected, acceptable_lines_iff, accepts_selected_iff hscratch hplain, hvalues]
  have hobjects : ∀ l ∈ textLines text', kind F l ≠ .notObject := by
    intro l hl
    rw [hlines] at hl
    rcases List.mem_map.mp hl with ⟨i, -, rfl⟩
    refine isObject_ne (isObject_lines ws _ ?_)
    rw [← hwritten]
    exact List.get_mem _ i
  rcases verifyChain_of_objects htext' hobjects with ⟨r, hr, hok⟩
  refine ⟨r, hr, ?_, fun hbroken => ?_⟩
  · rw [hok, hlines, hcover]
  · have hnot : ¬ Acceptable F (textLines text') := by
      rw [← hok, hbroken]
      simp
    rcases exists_first_bad hnot with ⟨pre, raw, post, hsplit, hpre, hbad⟩
    rcases verifyLines_broken hpre hbad (hobjects raw (by rw [hsplit]; simp)) post with ⟨detail, hrun⟩
    have hreport : r = (Report.empty.extend (F := F) none 1 pre).broken (1 + pre.length) detail := by
      unfold verifyChain at hr
      simp only [htext', hsplit] at hr
      rw [hrun, Except.ok.injEq] at hr
      exact hr.symm
    have htake : ∀ m, (sel.take m).map (textLines text).get = (textLines text').take m := by
      intro m
      rw [hlines, List.map_take]
    refine ⟨pre.length, by rw [hreport]; rfl, ?_, ?_⟩
    · rw [← hcover, htake, hsplit, List.take_left']
      · exact hpre
      · rfl
    · rw [← hcover, htake, hsplit, List.take_length_add_append]
      exact hbad

/-- A log of two lines, and after it its first line again. -/
theorem selection_verified_example : ∃ r,
    verifyChain NanFloat (some (content [startedWrite, doneWrite, startedWrite])) = .ok r ∧
      r.ok = true := by
  rcases exists_text_content exampleWrites with ⟨text, htext, hlines⟩
  rcases exists_text_content [startedWrite, doneWrite, startedWrite] with ⟨text', htext', hlines'⟩
  have hlength : (textLines text).length = 2 := by
    rw [hlines]
    rfl
  let first : Fin (textLines text).length := ⟨0, by omega⟩
  let second : Fin (textLines text).length := ⟨1, by omega⟩
  have hfirst : (textLines text).get first = startedWrite.line := by
    simp only [List.get_eq_getElem, hlines]
    rfl
  have hsecond : (textLines text).get second = doneWrite.line := by
    simp only [List.get_eq_getElem, hlines]
    rfl
  have hcalls : ∀ call ∈ exampleCalls, JsonValue (.dict call.2) ∧ NoChainFields call.2 := by
    intro call hcall
    rcases List.mem_cons.mp hcall with rfl | hcall
    · exact ⟨jsonValue_startedEntry, rfl, rfl, rfl⟩
    · rw [List.mem_singleton.mp hcall]
      exact ⟨jsonValue_doneEntry, rfl, rfl, rfl⟩
  have hselected : textLines text' = [first, second, first].map (textLines text).get := by
    rw [hlines']
    show _ = [(textLines text).get first, (textLines text).get second, (textLines text).get first]
    rw [hfirst, hsecond]
    rfl
  rcases @selection_verified_iff NanFloat _ _ (exampleChain []) rfl ∅ rfl _ hcalls _ _ text text'
    lookup_exampleWrites htext htext' [first, second, first] hselected with ⟨r, hr, hok, -⟩
  exact ⟨r, hr, hok.mpr ⟨[2, 1], rfl⟩⟩

end Selection

end AutoHeal.Audit
