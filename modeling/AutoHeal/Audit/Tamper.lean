import AutoHeal.Audit.Written

/-!
# What the hashes of a log determine

Under `Sha256Injective` an intact entry determines, through its `prev_hash`, the entry
it continues, up to the order of dict items. So the last entry of an accepted file
determines its whole final segment, and a line inserted into a log written by appends
is found out unless it can begin a segment of its own.
-/

namespace AutoHeal.Audit

open Segments

variable {F : Type} [PyRuntime F]

/-! ## Equal entries -/

theorem scalarEq_sortKeys (v x : PyVal F) : scalarEq (sortKeys v) x = scalarEq v x := by
  cases v <;> rfl

theorem addOne_sortKeys (v : PyVal F) : addOne (sortKeys v) = addOne v := by
  cases v <;> rfl

theorem sortKeys_eq_str {v : PyVal F} {s : Str} (h : sortKeys v = .str s) : v = .str s := by
  cases v with
  | str t => exact h
  | none | bool | int | float | list | dict | obj => cases h

/-- An entry that the file format allows and whose hash is right. -/
def Sound (d : Dict F) : Prop := JsonValue (.dict d) ∧ Intact d

/-- Sound entries that differ in the order of items only. -/
def SameEntry (a b : Dict F) : Prop := Sound a ∧ Sound b ∧ SameValue (.dict a) (.dict b)

theorem SameEntry.sortKeys_field {a b : Dict F} (h : SameEntry a b) (t : Str) :
    sortKeys (field t a) = sortKeys (field t b) := by
  have hget := (sameValue_dict h.1.1 h.2.1.1).mp h.2.2 t
  unfold field
  cases ha : Dict.get? t a with
  | none =>
    rw [ha, Option.map_none, eq_comm, Option.map_eq_none_iff] at hget
    rw [hget]
  | some v =>
    rw [ha, Option.map_some, eq_comm, Option.map_eq_some_iff] at hget
    rcases hget with ⟨w, hw, hsort⟩
    rw [hw]
    exact hsort.symm

theorem SameEntry.field_str {a b : Dict F} (h : SameEntry a b) {t s : Str}
    (ha : field t a = .str s) : field t b = .str s := by
  refine sortKeys_eq_str ((h.sortKeys_field t).symm.trans ?_)
  rw [ha, sortKeys]
  all_goals simp

theorem SameEntry.scalarEq_field {a b : Dict F} (h : SameEntry a b) (t : Str) (x : PyVal F) :
    scalarEq (field t a) x = scalarEq (field t b) x := by
  rw [← scalarEq_sortKeys, h.sortKeys_field t, scalarEq_sortKeys]

theorem SameEntry.addOne_field {a b : Dict F} (h : SameEntry a b) (t : Str) :
    addOne (field t a) = addOne (field t b) := by
  rw [← addOne_sortKeys, h.sortKeys_field t, addOne_sortKeys]

theorem SameEntry.symm {a b : Dict F} (h : SameEntry a b) : SameEntry b a :=
  ⟨h.2.1, h.1, h.2.2.symm⟩

/-- Sound entries with one hash are equal. -/
theorem sameEntry_of_hash (hinj : Sha256Injective F) {a b : Dict F} (ha : Sound a) (hb : Sound b)
    (h : field (py "entry_hash") a = field (py "entry_hash") b) : SameEntry a b := by
  refine ⟨ha, hb, ?_⟩
  rcases ha.2 with ⟨x, hx, hfa⟩
  rcases hb.2 with ⟨y, hy, hfb⟩
  have haj := ha.1.erase (py "entry_hash")
  have hbj := hb.1.erase (py "entry_hash")
  rw [hashEntry_of_jsonValue haj, Except.ok.injEq] at hx
  rw [hashEntry_of_jsonValue hbj, Except.ok.injEq] at hy
  have hxy : x = y := by
    rw [hfa, hfb] at h
    exact PyVal.str.inj h
  have hrest := (jsonHash_inj hinj haj hbj).mp (hx.trans (hxy.trans hy.symm))
  -- the fields but `entry_hash` agree by the hash, and `entry_hash` by assumption
  have hsome : ∀ {d : Dict F} {s : Str}, field (py "entry_hash") d = .str s →
      Dict.get? (py "entry_hash") d = some (.str s) := by
    intro d s hd
    unfold field at hd
    cases hget : Dict.get? (py "entry_hash") d with
    | none => rw [hget] at hd; cases hd
    | some v => rw [hget] at hd; exact congrArg some hd
  rw [sameValue_dict ha.1 hb.1]
  intro t
  by_cases ht : t = py "entry_hash"
  · rw [ht, hsome hfa, hsome hfb, hxy]
  · have hget := (sameValue_dict haj hbj).mp hrest t
    rwa [Dict.get?_erase, Dict.get?_erase, if_neg ht, if_neg ht] at hget

/-! ## The entries of accepted files -/

/-- The entries of acceptable lines are sound. -/
theorem Acceptable.sound {lines : List Str} (h : Acceptable F lines) :
    ∀ d ∈ lines.filterMap (entryOf F), Sound d := by
  intro d hd
  rcases List.mem_filterMap.mp hd with ⟨raw, hraw, hd⟩
  exact ⟨jsonValue_entryOf hd, h.intact hraw (entryOf_eq_some.mp hd)⟩

/-! ## The final segment -/

/-- `is_new_segment`. -/
def IsNewSegment (d : Dict F) : Prop :=
  (scalarEq (field (py "sequence") d) (.int 1) &&
    scalarEq (field (py "prev_hash") d) (.str genesisHash)) = true

instance : DecidablePred (IsNewSegment (F := F)) := fun _ => inferInstanceAs (Decidable (_ = true))

variable (F) in
/-- The chained lines from the last segment start to the end. -/
def finalEntries (file : Bytes) : List (Dict F) := finalSegment IsNewSegment (entries F file)

/-- `b` continues `a`, and both are sound. -/
def SoundlyContinues (a b : Dict F) : Prop := Continues a b ∧ Sound a ∧ Sound b

/-- The entries of acceptable lines are accepted with sound links. -/
theorem Acceptable.accepts {lines : List Str} (h : Acceptable F lines) :
    Accepts IsNewSegment SoundlyContinues none (lines.filterMap (entryOf F)) := by
  refine Accepts.imp_of_forall (P := Sound) ?_ ?_ (fun _ h => by cases h) h.sound
    (acceptable_iff_entries.mp h).2
  · intro d hd hstart
    exact (isNewSegment_iff hd.2).mpr hstart
  · intro a b ha hb hab
    exact ⟨hab, ha, hb⟩

/-- What precedes equal entries is equal. -/
theorem sameEntry_back (hinj : Sha256Injective F) {a b a' b' : Dict F} (h : SameEntry a b)
    (ha : SoundlyContinues a' a) (hb : SoundlyContinues b' b) : SameEntry a' b' := by
  apply sameEntry_of_hash hinj ha.2.1 hb.2.1
  rcases ha.2.1.2 with ⟨x, -, hx⟩
  have hprev := h.field_str (ha.1.2.2.trans hx)
  rw [hx, ← hprev]
  exact hb.1.2.2

/-- Accepted files whose last entries have one hash have equal final segments. -/
theorem same_finalEntries (hinj : Sha256Injective F) {f g : Bytes} (hf : Verified F (some f))
    (hg : Verified F (some g)) {x y : Dict F} (hx : (entries F f).getLast? = some x)
    (hy : (entries F g).getLast? = some y)
    (h : field (py "entry_hash") x = field (py "entry_hash") y) :
    List.Forall₂ SameEntry (finalEntries F f) (finalEntries F g) := by
  rcases verified_iff.mp hf with ⟨s, hs, hfacc⟩
  rcases verified_iff.mp hg with ⟨t, ht, hgacc⟩
  unfold finalEntries
  rw [entries_of_text hs] at hx ⊢
  rw [entries_of_text ht] at hy ⊢
  have hlast := sameEntry_of_hash hinj (hfacc.sound x (List.mem_of_getLast? hx))
    (hgacc.sound y (List.mem_of_getLast? hy)) h
  refine same_finalSegment ?_ ?_ hfacc.accepts hgacc.accepts hx hy hlast
  · intro a b hab
    unfold IsNewSegment
    rw [hab.scalarEq_field, hab.scalarEq_field]
  · intro a b a' b' hab ha hb
    exact sameEntry_back hinj hab ha hb

/-- A log has one segment. -/
theorem FromScratch.finalEntries {ws : List (Write F)} (h : FromScratch ws) :
    Audit.finalEntries F (content ws) = ws.map Write.parsed := by
  unfold Audit.finalEntries
  rw [entries_content]
  refine finalSegment_eq_self fun d hd => ?_
  rw [← List.map_tail] at hd
  rcases List.mem_map.mp hd with ⟨w, hw, rfl⟩
  rcases List.mem_iff_getElem?.mp hw with ⟨i, hi⟩
  have hnumber := h.state_fst.2 (i + 1) w (by rw [← List.getElem?_tail]; exact hi)
  unfold IsNewSegment
  rw [w.sequence, scalarEq_int, hnumber, Bool.and_eq_true, beq_iff_eq]
  intro hnew
  have hone := hnew.1
  push_cast at hone
  omega

/-! ## Logs with the last line kept -/

variable (F) in
/-- Two lines that are JSON texts of one value. -/
def SameLine (a b : Str) : Prop :=
  ∃ v w : PyVal F, loads (strip a) = some v ∧ loads (strip b) = some w ∧ SameValue v w

/-- A sound entry with the hash of a write is the entry that was written. -/
theorem Write.sameEntry (hinj : Sha256Injective F) (w : Write F) {x : Dict F} (hx : Sound x)
    (h : field (py "entry_hash") x = .str w.next.2) : SameEntry x w.parsed := by
  have hjson := hx.1.erase (py "entry_hash")
  rcases hx.2 with ⟨y, hy, hfield⟩
  rw [hashEntry_of_jsonValue hjson, Except.ok.injEq] at hy
  have hhash : jsonHash (Dict.erase (py "entry_hash") x) = jsonHash (chained w.entry w.state) := by
    rw [hy]
    exact PyVal.str.inj (hfield.symm.trans h)
  have hnone : Dict.get? (py "entry_hash") (Dict.erase (py "entry_hash") x) = none := by
    rw [Dict.get?_erase, if_pos rfl]
  have hstable := stable_of_jsonHash hinj w.allowed w.sortable hjson hnone hhash
  have hintact : Intact w.parsed :=
    (written_intact_iff hinj w.distinct w.allowed w.sortable).mpr hstable
  exact sameEntry_of_hash hinj hx ⟨w.jsonValue_parsed, hintact⟩ (h.trans w.entry_hash.symm)

/-- A line that holds the entry of a write is the line of that write. -/
theorem sameLine_of_sameEntry {raw : Str} {d : Dict F} {w : Write F} (h : entryOf F raw = some d)
    (hd : SameEntry d w.parsed) : SameLine F raw w.line :=
  ⟨_, _, (kind_chained (entryOf_eq_some.mp h)).2.1, (kind_chained w.kind_line).2.1, hd.2.2⟩

/-- A later write of a log starts no segment. -/
theorem not_isNewSegment {a b : Write F} (h : LinkedTo a b) (ha : 0 ≤ a.state.1) {d : Dict F}
    (hd : SameEntry d b.parsed) : ¬ IsNewSegment d := by
  unfold IsNewSegment
  rw [hd.scalarEq_field, b.sequence, scalarEq_int, h, Bool.and_eq_true, beq_iff_eq]
  rintro ⟨hseq, -⟩
  have hnext : a.next.1 = a.state.1 + 1 := rfl
  omega

omit [PyRuntime F] in
theorem forall₂_of_filterMap {α β γ : Type} {f : α → Option γ} {R : γ → β → Prop} {xs : List α}
    {ys : List β} (hall : ∀ a ∈ xs, (f a).isSome = true)
    (h : List.Forall₂ R (xs.filterMap f) ys) :
    List.Forall₂ (fun a b => ∃ c, f a = some c ∧ R c b) xs ys := by
  induction xs generalizing ys with
  | nil =>
    cases h
    exact .nil
  | cons a xs ih =>
    rcases Option.isSome_iff_exists.mp (hall a (by simp)) with ⟨c, hc⟩
    rw [List.filterMap_cons, hc] at h
    cases h with
    | cons hcy hrest =>
      exact .cons ⟨c, hc, hcy⟩ (ih (fun b hb => hall b (List.mem_cons_of_mem _ hb)) hrest)

/-- No more lines than were written, accepted with the last line kept, are the lines that
were written. -/
theorem lines_determined (hinj : Sha256Injective F) {ws : List (Write F)} (hws : FromScratch ws)
    {ls ms : List Str} {last : Str} (hls : ws.map Write.line = ls ++ [last])
    (hlen : ms.length ≤ ls.length) (hacc : Acceptable F (ms ++ [last])) :
    List.Forall₂ (SameLine F) ms ls := by
  rcases List.eq_nil_or_concat' ws with rfl | ⟨init, w, rfl⟩
  · exact absurd hls (by simp)
  rw [List.map_append, List.map_singleton] at hls
  rcases List.append_inj' hls rfl with ⟨rfl, hlast⟩
  rw [List.singleton_inj] at hlast
  subst hlast
  have hentries : (ms ++ [w.line]).filterMap (entryOf F) =
      ms.filterMap (entryOf F) ++ [w.parsed] := by
    rw [List.filterMap_append, List.filterMap_cons, entryOf_line]
    rfl
  have hsound := hacc.sound
  rw [hentries] at hsound
  have hw : Sound w.parsed := hsound _ (by simp)
  have haccepts := hacc.accepts
  rw [hentries] at haccepts
  have hchain : List.IsChain (fun a b : Write F => LinkedTo a b ∧ 0 ≤ a.state.1) (init ++ [w]) :=
    hws.linked.imp_of_mem_imp fun a b ha _ hab => ⟨hab, hws.nonneg a ha⟩
  -- back along the links, an entry of the file for every write
  have hself : SameEntry w.parsed w.parsed := ⟨hw, hw, SameValue.refl _⟩
  rcases exists_matching_suffix (R := fun d v => SameEntry d v.parsed)
      (fun d a b hd hab => not_isNewSegment hab.1 hab.2 hd) (fun d' d a b hd hcont hab =>
        a.sameEntry hinj hcont.2.1 (by
          rw [← hcont.1.2.2]
          refine hd.symm.field_str ?_
          rw [b.prev_hash, hab.1])) haccepts hchain (by simp) (by simp) hself with
    ⟨pre, post, hsplit, hpost⟩
  -- there are as many lines as writes, so all of them are entries
  have hlength := congrArg List.length hsplit
  have hle := List.length_filterMap_le (entryOf F) ms
  have hwrites := hpost.length_eq
  simp only [List.length_append, List.length_singleton, List.length_map] at hlength hwrites hlen
  have hpre : pre = [] := List.eq_nil_of_length_eq_zero (by omega)
  rw [hpre, List.nil_append] at hsplit
  rw [← hsplit] at hpost
  have hall : ∀ l ∈ ms, (entryOf F l).isSome = true :=
    List.filterMap_length_eq_length.mp (by omega)
  have htake := List.forall₂_take init.length hpost
  rw [List.take_left' (by omega), List.take_left' rfl] at htake
  rw [List.forall₂_map_right_iff]
  refine (forall₂_of_filterMap hall htake).imp ?_
  rintro l v ⟨d, hd, hdv⟩
  exact sameLine_of_sameEntry hd hdv

/-! ## Logs written by appends -/

section Run

variable [PyDates F]

/-- Accepted files with one hash at the end have equal final segments. So a log that
appends have written is, up to the texts of its lines, the only accepted one of as many
lines or fewer that ends in its last line. -/
theorem last_hash_determines_log (hinj : Sha256Injective F) :
    (∀ f g : Bytes, Verified F (some f) → Verified F (some g) →
      ∀ x y, (entries F f).getLast? = some x → (entries F g).getLast? = some y →
        field (py "entry_hash") x = field (py "entry_hash") y →
        List.Forall₂ (fun a b => SameValue (.dict a) (.dict b))
          (finalEntries F f) (finalEntries F g)) ∧
    ∀ (c : AuditChain F) (dir : Dir) (calls : List (Env × Dict F)),
      truthy (field (py "enabled") c.retention) = false → dir.lookup c.base = none →
      (∀ call ∈ calls, call.2.keys.Nodup) →
      ∀ file text ls last, (appendAll c dir calls).lookup c.base = some file →
        decodeUtf8 file = some text → textLines text = ls ++ [last] →
        ∀ g text' ms, decodeUtf8 g = some text' → textLines text' = ms ++ [last] →
          ms.length ≤ ls.length → Verified F (some g) → List.Forall₂ (SameLine F) ms ls := by
  constructor
  · intro f g hf hg x y hx hy h
    exact (same_finalEntries hinj hf hg hx hy h).imp fun a b hab => hab.2.2
  · intro c dir calls hc habsent hn file text ls last hfile htext hls g text' ms htext' hms hlen hg
    rcases exists_writes_of_run hc habsent hn hfile with ⟨ws, hws, rfl⟩
    rcases exists_text_content ws with ⟨text₂, htext₂, hlines⟩
    rw [htext] at htext₂
    cases htext₂
    rcases verified_iff.mp hg with ⟨text₃, htext₃, hacc⟩
    rw [htext'] at htext₃
    cases htext₃
    rw [hms] at hacc
    exact lines_determined hinj hws (hlines.symm.trans hls) hlen hacc

/-- A log that was begun earlier. -/
def earlierWrite : Write NanFloat :=
  .ofJson doneEntry (0, genesisHash) jsonValue_doneEntry joined_genesisHash

/-- The log of two entries, with the other one put before it, is accepted too. -/
theorem verified_earlier :
    Verified NanFloat (some (content (earlierWrite :: exampleWrites))) := by
  have hearlier : Starts earlierWrite.parsed := earlierWrite.starts_iff.mpr
    ⟨Write.Plain.intact ⟨jsonValue_doneEntry, rfl, rfl, rfl⟩, rfl⟩
  have hstarted : Starts startedWrite.parsed :=
    startedWrite.starts_iff.mpr ⟨plain_startedWrite.intact, rfl⟩
  have hlink : LinkedTo startedWrite doneWrite := rfl
  have hdone := hlink.continues_iff.mpr plain_doneWrite.intact
  rcases exists_text_content (earlierWrite :: exampleWrites) with ⟨text, htext, hlines⟩
  refine verified_iff.mpr ⟨text, htext, ?_⟩
  rw [acceptable_iff_entries, hlines, filterMap_lines]
  exact ⟨isObject_lines _, Or.inl hearlier, Or.inl hstarted, Or.inr ⟨_, rfl, hdone⟩, trivial⟩

/-- The text of the log of two entries, with a space before its first line. -/
def spacedText : Str := (32 :: startedWrite.line) ++ 10 :: (doneWrite.line ++ 10 :: [])

theorem decodeUtf8_spacedText : decodeUtf8 (encodeUtf8 spacedText) = some spacedText := by
  refine decodeUtf8_encodeUtf8 fun c hc => ?_
  have hspace : (32 : CodePoint).val < 128 := by decide
  have hnewline : (10 : CodePoint).val < 128 := by decide
  unfold spacedText at hc
  simp only [List.mem_append, List.mem_cons, List.not_mem_nil, or_false] at hc
  rcases hc with (rfl | hc) | rfl | hc | rfl
  · exact hspace
  · exact ascii_lineText _ c hc
  · exact hnewline
  · exact ascii_lineText _ c hc
  · exact hnewline

theorem textLines_spacedText :
    textLines spacedText = (32 :: startedWrite.line) :: [doneWrite.line] := by
  have hbreaks : ∀ d : Dict NanFloat, ∀ c ∈ lineText d, c ≠ 10 ∧ c ≠ 13 := by
    intro d c hc
    have hprint := (printable_lineText d c hc).1
    constructor
    all_goals
      rintro rfl
      exact absurd hprint (by decide)
  have hfirst : ∀ c ∈ 32 :: startedWrite.line, c ≠ 10 ∧ c ≠ 13 := by
    intro c hc
    rcases List.mem_cons.mp hc with rfl | hc
    · decide
    · exact hbreaks _ c hc
  have hsecond : textLines (doneWrite.line ++ 10 :: []) = [doneWrite.line] :=
    textLines_line (hbreaks doneWrite.result) []
  unfold spacedText
  rw [textLines_line hfirst, hsecond]

theorem verified_spaced : Verified NanFloat (some (encodeUtf8 spacedText)) := by
  have hkind : kind NanFloat (32 :: startedWrite.line) = .chained startedWrite.parsed := by
    have hstrip : strip (32 :: startedWrite.line) = strip startedWrite.line := rfl
    rw [← startedWrite.kind_line, kind, kind, hstrip]
  have hentry : entryOf NanFloat (32 :: startedWrite.line) = some startedWrite.parsed :=
    entryOf_eq_some.mpr hkind
  have haccepts := (accepts_parsed_iff fromScratch_exampleWrites).mpr
    ((verified_content_iff fromScratch_exampleWrites).mp verified_exampleWrites)
  refine verified_iff.mpr ⟨_, decodeUtf8_spacedText, ?_⟩
  rw [textLines_spacedText, acceptable_iff_entries]
  constructor
  · intro l hl
    rcases List.mem_cons.mp hl with rfl | hl
    · rw [hkind]
      rfl
    · exact isObject_lines [doneWrite] l hl
  · rw [List.filterMap_cons_some hentry]
    exact (filterMap_lines [doneWrite]).symm ▸ haccepts

/-- The log of two entries, against one with an earlier segment before it and against one with
another text for its first line. -/
theorem last_hash_determines_example :
    (Audit.finalEntries NanFloat (content exampleWrites) =
        [startedWrite.parsed, doneWrite.parsed] ∧
      (entries NanFloat (content (earlierWrite :: exampleWrites))).length = 3 ∧
      List.Forall₂ (fun a b => SameValue (.dict a) (.dict b))
        (Audit.finalEntries NanFloat (content exampleWrites))
        (Audit.finalEntries NanFloat (content (earlierWrite :: exampleWrites)))) ∧
    textLines spacedText ≠ [startedWrite.line, doneWrite.line] ∧
    List.Forall₂ (SameLine NanFloat) [32 :: startedWrite.line] [startedWrite.line] := by
  have hlast : ∀ ws : List (Write NanFloat),
      (entries NanFloat (content (ws ++ exampleWrites))).getLast? = some doneWrite.parsed := by
    intro ws
    rw [entries_content, List.map_append, List.getLast?_append]
    rfl
  rcases exists_text_content exampleWrites with ⟨text, htext, hlines⟩
  rcases last_hash_determines_log (F := NanFloat) sha256Injective_nanFloat with ⟨hsame, hlog⟩
  refine ⟨⟨fromScratch_exampleWrites.finalEntries, ?_, ?_⟩, ?_, ?_⟩
  · rw [entries_content]
    rfl
  · exact hsame _ _ verified_exampleWrites verified_earlier _ _ (hlast []) (hlast [earlierWrite]) rfl
  · rw [textLines_spacedText]
    intro h
    have hlength := congrArg List.length (List.cons.inj h).1
    simp at hlength
  · have hcalls : ∀ call ∈ exampleCalls, call.2.keys.Nodup := by
      intro call hcall
      rcases List.mem_cons.mp hcall with rfl | hcall
      · exact jsonValue_startedEntry.keys_nodup
      · rw [List.mem_singleton.mp hcall]
        exact jsonValue_doneEntry.keys_nodup
    exact hlog (exampleChain []) ∅ exampleCalls rfl rfl hcalls _ text [startedWrite.line]
      doneWrite.line lookup_exampleWrites htext hlines _ spacedText [32 :: startedWrite.line]
      decodeUtf8_spacedText textLines_spacedText le_rfl verified_spaced

/-! ## Inserted lines -/

section Insert

variable {ws : List (Write F)} {k : Nat}

omit [PyDates F] in
/-- An entry before the first line of a log has to start a segment. -/
theorem accepts_insert_first {v : Write F} {rest : List (Write F)} {d : Dict F}
    (hv : v.state = (0, genesisHash)) :
    Accepts Starts Continues none (d :: v.parsed :: rest.map Write.parsed) ↔
      Accepts Starts Continues none (v.parsed :: rest.map Write.parsed) ∧ Starts d := by
  have hstarts : Intact v.parsed ↔ Starts v.parsed := by
    rw [v.starts_iff]
    exact (and_iff_left hv).symm
  constructor
  · rintro ⟨hd, hv', hrest⟩
    have hintact : Intact v.parsed := by
      rcases hv' with h | ⟨b, -, h⟩
      · exact h.1
      · exact h.1
    refine ⟨⟨Or.inl (hstarts.mp hintact), hrest⟩, ?_⟩
    rcases hd with h | ⟨b, hb, -⟩
    · exact h
    · cases hb
  · rintro ⟨hold, hd⟩
    exact ⟨Or.inl hd, Or.inl hold.head, hold.2⟩

omit [PyDates F] in
/-- An entry between two lines of a log has to repeat the first of them and start a
segment. -/
theorem accepts_insert_between (hinj : Sha256Injective F) {a v : Write F}
    {init rest : List (Write F)} {d : Dict F} (hlink : LinkedTo a v) (ha : 0 ≤ a.state.1)
    (hd : JsonValue (.dict d)) :
    Accepts Starts Continues none
        ((init ++ [a]).map Write.parsed ++ d :: v.parsed :: rest.map Write.parsed) ↔
      Accepts Starts Continues none
        ((init ++ [a]).map Write.parsed ++ v.parsed :: rest.map Write.parsed) ∧
      Starts d ∧ SameEntry d a.parsed := by
  have hnot : ¬ Starts v.parsed := by
    rw [v.starts_iff, hlink]
    rintro ⟨-, hstate⟩
    have := congrArg Prod.fst hstate
    have hnext : a.next.1 = a.state.1 + 1 := rfl
    omega
  have hlast : ((init ++ [a]).map Write.parsed).getLast?.or none = some a.parsed := by simp
  rw [accepts_append, accepts_append, hlast]
  constructor
  · rintro ⟨hinit, hdacc, hvacc, hrest⟩
    -- the line after the inserted one is linked to it, so both have one hash
    rcases hvacc.resolve_left hnot with ⟨b, hb, hcont⟩
    rw [Option.some.injEq] at hb
    subst hb
    have hintact : Intact d := by
      rcases hdacc with h | ⟨b, -, h⟩
      · exact h.1
      · exact h.1
    have hhash : field (py "entry_hash") d = .str a.next.2 := by
      rw [← hcont.2.2, v.prev_hash, hlink]
    have hsame := a.sameEntry hinj ⟨hd, hintact⟩ hhash
    refine ⟨⟨hinit, Or.inr ⟨_, rfl, hlink.continues_iff.mpr hcont.1⟩, hrest⟩, ?_, hsame⟩
    rcases hdacc with h | ⟨b, hb, h⟩
    · exact h
    · -- it has the sequence of the line before it, so it does not continue that line
      rw [Option.some.injEq] at hb
      subst hb
      rcases h.2.1 with ⟨next, hnext, hseq⟩
      rw [a.sequence, addOne_int, Except.ok.injEq] at hnext
      rw [hsame.scalarEq_field, a.sequence, ← hnext, scalarEq_int, beq_iff_eq] at hseq
      omega
  · rintro ⟨⟨hinit, hvacc, hrest⟩, hstarts, hsame⟩
    rcases hvacc.resolve_left hnot with ⟨b, hb, hcont⟩
    refine ⟨hinit, Or.inl hstarts, Or.inr ⟨d, rfl, hcont.1, ?_, ?_⟩, hrest⟩
    · rw [hsame.addOne_field]
      exact (hlink.continues_iff.mpr hcont.1).2.1
    · rw [v.prev_hash, hsame.symm.field_str a.entry_hash, hlink]

omit [PyDates F] in
/-- An entry put before the line `k` of a log. -/
theorem acceptable_insert_chained (hinj : Sha256Injective F) (hws : FromScratch ws)
    (hk : k < ws.length) {x : Str} {d : Dict F} (hx : kind F x = .chained d) :
    Acceptable F ((ws.map Write.line).take k ++ x :: (ws.map Write.line).drop k) ↔
      Acceptable F (ws.map Write.line) ∧ Starts d ∧
        (k = 0 ∨ k = 1 ∧ ∃ first, (ws.map Write.line).head? = some first ∧ SameLine F x first) := by
  have hd : JsonValue (.dict d) := jsonValue_entryOf (entryOf_eq_some.mpr hx)
  have hobjects : ∀ l ∈ (ws.map Write.line).take k ++ x :: (ws.map Write.line).drop k,
      (kind F l).isObject = true := by
    intro l hl
    rcases List.mem_append.mp hl with hl | hl
    · exact isObject_lines ws l (List.mem_of_mem_take hl)
    · rcases List.mem_cons.mp hl with rfl | hl
      · rw [hx]
        rfl
      · exact isObject_lines ws l (List.mem_of_mem_drop hl)
  have hentries : ((ws.map Write.line).take k ++ x :: (ws.map Write.line).drop k).filterMap
      (entryOf F) = (ws.take k).map Write.parsed ++ d :: (ws.drop k).map Write.parsed := by
    rw [← List.map_take, ← List.map_drop, List.filterMap_append, List.filterMap_cons,
      entryOf_eq_some.mpr hx, filterMap_lines, filterMap_lines]
  rw [acceptable_iff_entries, acceptable_iff_entries, and_iff_right hobjects,
    and_iff_right (isObject_lines ws), hentries, filterMap_lines]
  have hdrop := List.drop_eq_getElem_cons hk
  rcases k with _ | k
  · rw [List.take_zero, List.map_nil, List.nil_append, hdrop, List.map_cons, Nat.zero_add,
      accepts_insert_first (hws.first _ (by rw [List.head?_eq_getElem?]; simp [hk]))]
    have hall : ws[0].parsed :: (ws.drop 1).map Write.parsed = ws.map Write.parsed := by
      rw [← List.map_cons, ← List.drop_eq_getElem_cons hk, List.drop_zero]
    rw [hall]
    simp
  · have hlink : LinkedTo ws[k] ws[k + 1] := List.isChain_iff_getElem.mp hws.linked k hk
    have hnumber := hws.state_fst.2 k ws[k] (by simp)
    have htake := @List.take_succ_eq_append_getElem _ k ws (by omega)
    have hall : (ws.take k ++ [ws[k]]).map Write.parsed ++
        ws[k + 1].parsed :: (ws.drop (k + 1 + 1)).map Write.parsed = ws.map Write.parsed := by
      rw [← List.map_cons, ← hdrop, ← htake, ← List.map_append, List.take_append_drop]
    rw [htake, hdrop, List.map_cons, accepts_insert_between hinj hlink (by omega) hd, hall]
    refine and_congr_right fun hacc => and_congr_right fun hstarts => ?_
    have hintact : Intact ws[k].parsed := by
      exact (accepts_parsed_iff hws).mp hacc _ (List.getElem_mem _)
    constructor
    · intro hsame
      -- a segment start has sequence 1
      have hzero : k = 0 := by
        have hseq := hstarts.2.1
        rw [hsame.scalarEq_field, ws[k].sequence, scalarEq_int, beq_iff_eq, hnumber] at hseq
        omega
      subst hzero
      refine Or.inr ⟨rfl, ws[0].line, ?_, sameLine_of_sameEntry (entryOf_eq_some.mpr hx) hsame⟩
      rw [List.head?_map, List.head?_eq_getElem?, List.getElem?_eq_getElem (by omega)]
      rfl
    · rintro (hzero | ⟨hone, first, hfirst, v, w, hv, hw, hvw⟩)
      · cases hzero
      · obtain rfl : k = 0 := by omega
        rw [List.head?_map, List.head?_eq_getElem?, List.getElem?_eq_getElem (by omega),
          Option.map_some, Option.some.injEq] at hfirst
        subst hfirst
        rw [(kind_chained hx).2.1, Option.some.injEq] at hv
        rw [(kind_chained ws[0].kind_line).2.1, Option.some.injEq] at hw
        subst hv hw
        exact ⟨⟨hd, hstarts.1⟩, ⟨ws[0].jsonValue_parsed, hintact⟩, hvw⟩

omit [PyDates F] in
theorem isObject_ne {raw : Str} (h : (kind F raw).isObject = true) : kind F raw ≠ .notObject := by
  intro hk
  rw [hk] at h
  cases h

omit [PyDates F] in
/-- An object put before the line `k` of a log. With the three chain fields it is accepted
only as the start of a segment, before the first line or as a copy of the first line right
after it; without any of them it changes nothing. -/
theorem insert_into_writes (hinj : Sha256Injective F) (hws : FromScratch ws)
    (hk : k < ws.length) {x : Str} {d : Dict F} (hx : loads (strip x) = some (PyVal.dict d))
    {g : Bytes} {text : Str} (hg : decodeUtf8 g = some text)
    (hlines : textLines text = (ws.map Write.line).take k ++ x :: (ws.map Write.line).drop k) :
    ∃ r, verifyChain F (some g) = .ok r ∧
      (hasChainFields d = true → (r.ok = true ↔ Verified F (some (content ws)) ∧ Starts d ∧
        (k = 0 ∨ k = 1 ∧ ∃ first, (ws.map Write.line).head? = some first ∧ SameLine F x first))) ∧
      (NoChainFields d → (r.ok = true ↔ Verified F (some (content ws)))) := by
  have hfileacc : Verified F (some (content ws)) ↔ Acceptable F (ws.map Write.line) := by
    rcases exists_text_content ws with ⟨text₂, htext₂, hls⟩
    rw [verified_iff]
    simp only [htext₂, Option.some.injEq, exists_eq_left', hls]
  -- with the chained fields `x` is an entry to check, without them a legacy line
  have hne : strip x ≠ [] := by
    intro hnil
    rw [hnil] at hx
    cases hx
  have hkind : kind F x = if hasChainFields d = true then .chained d else .legacy d := by
    unfold kind
    rw [if_neg hne, hx]
  -- no line is another JSON value, so the checker returns a report
  have hobjects : ∀ l ∈ textLines text, kind F l ≠ .notObject := by
    rw [hlines]
    intro l hl
    rcases List.mem_append.mp hl with hl | hl
    · exact isObject_ne (isObject_lines ws l (List.mem_of_mem_take hl))
    · rcases List.mem_cons.mp hl with rfl | hl
      · rw [hkind]
        split <;> exact fun h => by cases h
      · exact isObject_ne (isObject_lines ws l (List.mem_of_mem_drop hl))
  rcases verifyChain_of_objects hg hobjects with ⟨r, hr, hok⟩
  rw [hlines] at hok
  refine ⟨r, hr, fun hfields => ?_, fun hnone => ?_⟩
  · rw [if_pos hfields] at hkind
    rw [hok, acceptable_insert_chained hinj hws hk hkind, hfileacc]
  · have hfields : hasChainFields d = false := by
      unfold hasChainFields
      rw [hnone.1]
      rfl
    rw [if_neg (by rw [hfields]; simp)] at hkind
    rw [hok, acceptable_insert_legacy hkind, List.take_append_drop, hfileacc]

end Insert

end Run

end AutoHeal.Audit
