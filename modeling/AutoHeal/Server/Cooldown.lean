import AutoHeal.Json.Dumps
import AutoHeal.Lib.Items
import AutoHeal.Server.Limits

/-!
# The cooldown tracker over many records

`CooldownTracker` of `src/cooldown.py` with its table in the order of insertion and its state
file. A record saves the table and a restart reads it back, so what is found for a key is the
latest record for it, until a record that comes more than the retention time later prunes it
(`cooldown_exact`).
-/

namespace AutoHeal.Server

/-- A `CooldownTracker`: `_last_run`, and the object in its state file when there is one. -/
structure CooldownTracker where
  lastRun : List (Str × ℚ)
  stateFile : Option (List (Str × ℚ))

namespace CooldownTracker

/-- `json.load` of a state file: its keys are read back with their surrogates joined. -/
def load (stateFile : List (Str × ℚ)) : List (Str × ℚ) :=
  Items.ofPairs (stateFile.map fun kv => (joinSurrogates kv.1, kv.2))

/-- A tracker for a state file, `__init__` with `_load`. -/
def init (stateFile : Option (List (Str × ℚ))) : CooldownTracker where
  lastRun := (stateFile.map load).getD []
  stateFile := stateFile

/-- `_prune_locked` at the time `now`. -/
def prune (tracker : CooldownTracker) (now : ℚ) : CooldownTracker :=
  { tracker with
    lastRun := tracker.lastRun.filter fun kv => !decide (kv.2 < now - maxCooldownRetentionSeconds) }

/-- `_save_locked` at the time `now`. -/
def save (tracker : CooldownTracker) (now : ℚ) : CooldownTracker :=
  { tracker.prune now with stateFile := some (tracker.prune now).lastRun }

/-- `record`. The clock is read twice, by `record` and by `_prune_locked`. -/
def record (tracker : CooldownTracker) (key : Str) (now nowPrune : ℚ) : CooldownTracker :=
  save { tracker with lastRun := Items.set key now tracker.lastRun } nowPrune

/-- The times by key. -/
def times (tracker : CooldownTracker) : Cooldowns := fun key => tracker.lastRun.lookup key

/-- What the state file is read back as: its text is that of a dict of floats. -/
theorem loads_print_stateFile {F : Type} [JsonFloat F] (float : ℚ → F)
    (items : List (Str × ℚ)) (st : Style) :
    loads (print st (.dict (items.map fun kv => (.str kv.1, .float (float kv.2))))) =
      some (.dict ((load items).map fun kv => (.str kv.1, .float (float kv.2)))) := by
  have hset : ∀ (k : Str) (v : ℚ) (table : List (Str × ℚ)),
      Dict.set k (.float (float v)) (table.map fun kv => (.str kv.1, .float (float kv.2))) =
        (Items.set k v table).map fun kv => (.str kv.1, .float (float kv.2)) := by
    intro k v table
    induction table with
    | nil => rfl
    | cons kv table ih =>
      by_cases h : kv.1 = k
      · simp [Dict.set, Items.set, Key.isStr, h]
      · simp [Dict.set, Items.set, Key.isStr, h, ih]
  have hpairs : ∀ pairs : List (Str × ℚ),
      dictOfPairs (pairs.map fun kv => ((.str kv.1 : Key F), (.float (float kv.2) : PyVal F))) =
        (Items.ofPairs pairs).map fun kv => (.str kv.1, .float (float kv.2)) := by
    intro pairs
    induction pairs using List.reverseRecOn with
    | nil => rfl
    | append_singleton pairs kv ih =>
      unfold Items.ofPairs at ih ⊢
      unfold dictOfPairs at ih ⊢
      rw [List.map_append, List.foldl_append, List.foldl_append, ih]
      exact hset kv.1 kv.2 _
  rw [loads_print_eq, readBack_dict, stringItems, List.map_map, load]
  have hall := hpairs (items.map fun kv => (joinSurrogates kv.1, kv.2))
  rw [List.map_map] at hall
  exact congrArg some (congrArg PyVal.dict hall)

/-! ## Runs -/

/-- What a cooldown is for. -/
structure Target where
  eventType : Str
  controllerName : Str
  dedupValue : Option Str

/-- The key of a target, from `make_key`. -/
def Target.key (target : Target) : Str :=
  makeKey target.eventType target.controllerName target.dedupValue

/-- The same target: an empty value counts as none. -/
def Target.Same (a b : Target) : Prop :=
  a.eventType = b.eventType ∧ a.controllerName = b.controllerName ∧
    a.dedupValue.getD [] = b.dedupValue.getD []

instance (a b : Target) : Decidable (a.Same b) :=
  inferInstanceAs (Decidable (_ ∧ _ ∧ _))

theorem Target.Same.key_eq {a b : Target} (h : a.Same b) : a.key = b.key := by
  rcases h with ⟨hevent, hcontroller, hvalue⟩
  unfold Target.key makeKey
  rw [hevent, hcontroller, hvalue]

/-- What happens to a tracker. -/
inductive Happening where
  | record (target : Target) (now nowPrune : ℚ)
  | restart

/-- The tracker after a run, what happened last being the first of the list. -/
def after : List Happening → CooldownTracker
  | [] => init none
  | .record target now nowPrune :: past => (after past).record target.key now nowPrune
  | .restart :: past => init (after past).stateFile

/-- The time of the latest record for a target. -/
def latest (target : Target) : List Happening → Option ℚ
  | [] => none
  | .record other now _ :: past => if other.Same target then some now else latest target past
  | .restart :: past => latest target past

/-- The time of the latest prune. -/
def lastPrune : List Happening → Option ℚ
  | [] => none
  | .record _ _ nowPrune :: _ => some nowPrune
  | .restart :: past => lastPrune past

/-- The clock does not go back. -/
def Ticking : List Happening → Prop
  | [] => True
  | .record _ now nowPrune :: past =>
    (∀ p ∈ lastPrune past, p ≤ now) ∧ now ≤ nowPrune ∧ Ticking past
  | .restart :: past => Ticking past

/-- No other target of the run has the key of the target, also after it was read back. -/
def Clear (target : Target) (run : List Happening) : Prop :=
  joinSurrogates target.key = target.key ∧
    ∀ other now nowPrune, Happening.record other now nowPrune ∈ run →
      joinSurrogates other.key = target.key → other.Same target

/-- The time of a record is not pruned yet. -/
def Kept (run : List Happening) (s : ℚ) : Prop :=
  ∀ p ∈ lastPrune run, p - s ≤ maxCooldownRetentionSeconds

instance (run : List Happening) (s : ℚ) : Decidable (Kept run s) := by
  unfold Kept
  infer_instance

/-- `seconds_remaining` for a target after a run, at the time `t`. -/
def remaining (run : List Happening) (target : Target) (c t : ℚ) : Option ℚ :=
  secondsRemaining (after run).times target.key c t

/-! ## One happening -/

variable {target other : Target} {run : List Happening} {now nowPrune c t : ℚ}

/-- A record changes the times as `recordCooldown` says. -/
theorem times_record {tracker : CooldownTracker} (h : (tracker.lastRun.map Prod.fst).Nodup)
    (key : Str) (now nowPrune : ℚ) :
    (tracker.record key now nowPrune).times = recordCooldown tracker.times key now nowPrune := by
  funext k
  unfold recordCooldown pruneCooldowns
  show List.lookup k (List.filter _ (Items.set key now tracker.lastRun)) = _
  rw [Items.lookup_filter (Items.nodup_set h key now)
    (fun ts => !decide (ts < nowPrune - maxCooldownRetentionSeconds)), Items.lookup_set]
  congr 1
  unfold times Function.update
  by_cases hk : k = key
  · simp [hk]
  · simp [hk]

theorem nodup_after (run : List Happening) : ((after run).lastRun.map Prod.fst).Nodup := by
  induction run with
  | nil => exact List.nodup_nil
  | cons h past ih =>
    cases h with
    | record other now nowPrune => exact Items.nodup_filter (Items.nodup_set ih _ _) _
    | restart =>
      show ((init (after past).stateFile).lastRun.map Prod.fst).Nodup
      unfold init
      cases (after past).stateFile with
      | none => exact List.nodup_nil
      | some f => exact Items.nodup_ofPairs _

/-- The state file holds the table, or the text the table was read from. -/
theorem stateFile_after (run : List Happening) :
    ((after run).stateFile = none ∧ (after run).lastRun = []) ∨
      ∃ f, (after run).stateFile = some f ∧
        ((after run).lastRun = f ∨ (after run).lastRun = load f) := by
  induction run with
  | nil => exact Or.inl ⟨rfl, rfl⟩
  | cons h past ih =>
    cases h with
    | record other now nowPrune => exact Or.inr ⟨_, rfl, Or.inl rfl⟩
    | restart =>
      rcases ih with ⟨hfile, -⟩ | ⟨f, hfile, -⟩
      · refine Or.inl ⟨hfile, ?_⟩
        show (init (after past).stateFile).lastRun = []
        rw [hfile]
        rfl
      · refine Or.inr ⟨f, hfile, Or.inr ?_⟩
        show (init (after past).stateFile).lastRun = load f
        rw [hfile]
        rfl

/-- A restart keeps the table, or reads its text. -/
theorem lastRun_restart (run : List Happening) :
    (after (.restart :: run)).lastRun = (after run).lastRun ∨
      (after (.restart :: run)).lastRun = load (after run).lastRun := by
  show (init (after run).stateFile).lastRun = _ ∨ (init (after run).stateFile).lastRun = _
  rcases stateFile_after run with ⟨hfile, hempty⟩ | ⟨f, hfile, hsaved | hread⟩
  · left
    rw [hfile, hempty]
    rfl
  · right
    rw [hfile, hsaved]
    rfl
  · left
    rw [hfile, hread]
    rfl

/-! ## The table -/

/-- A key of the table is that of a recorded target, or what that one is read back as. -/
theorem keys_after (run : List Happening) :
    ∀ k ∈ (after run).lastRun.map Prod.fst, ∃ other now nowPrune,
      Happening.record other now nowPrune ∈ run ∧ (k = other.key ∨ k = joinSurrogates other.key) := by
  induction run with
  | nil =>
    intro k hk
    cases hk
  | cons h past ih =>
    intro k hk
    cases h with
    | record other now nowPrune =>
      have hset : k ∈ (Items.set other.key now (after past).lastRun).map Prod.fst :=
        List.Sublist.subset (List.filter_sublist.map Prod.fst) hk
      rcases Items.mem_keys_set _ _ _ k hset with rfl | hold
      · exact ⟨other, now, nowPrune, List.mem_cons_self, Or.inl rfl⟩
      · rcases ih k hold with ⟨a, u, p, hmem, hkey⟩
        exact ⟨a, u, p, List.mem_cons_of_mem _ hmem, hkey⟩
    | restart =>
      rcases lastRun_restart past with hsame | hread
      · rw [hsame] at hk
        rcases ih k hk with ⟨a, u, p, hmem, hkey⟩
        exact ⟨a, u, p, List.mem_cons_of_mem _ hmem, hkey⟩
      · rw [hread] at hk
        have hjoined := Items.mem_keys_ofPairs hk
        rw [List.map_map] at hjoined
        rcases List.mem_map.mp hjoined with ⟨kv, hkv, rfl⟩
        rcases ih kv.1 (List.mem_map_of_mem hkv) with ⟨a, u, p, hmem, hkey⟩
        refine ⟨a, u, p, List.mem_cons_of_mem _ hmem, Or.inr ?_⟩
        rcases hkey with hkey | hkey
        -- joining once more changes nothing
        · exact congrArg joinSurrogates hkey
        · exact (congrArg joinSurrogates hkey).trans (joinSurrogates_idem _)

theorem Clear.tail {h : Happening} (hclear : Clear target (h :: run)) : Clear target run :=
  ⟨hclear.1, fun other now nowPrune hmem => hclear.2 other now nowPrune (List.mem_cons_of_mem _ hmem)⟩

theorem Clear.key_ne (hclear : Clear target (.record other now nowPrune :: run))
    (hother : ¬ other.Same target) : other.key ≠ target.key := by
  intro hkey
  apply hother
  apply hclear.2 other now nowPrune List.mem_cons_self
  rw [hkey]
  exact hclear.1

/-- Reading the table back loses nothing of a target that is clear. -/
theorem times_restart (hclear : Clear target run) :
    (after (.restart :: run)).times target.key = (after run).times target.key := by
  unfold times
  rcases lastRun_restart run with hsame | hread
  · rw [hsame]
  · rw [hread]
    refine Items.lookup_ofPairs_map (nodup_after run) fun k hk => ?_
    constructor
    · intro hjoin
      rcases keys_after run k hk with ⟨other, now, nowPrune, hmem, rfl | rfl⟩
      · exact (hclear.2 other now nowPrune hmem hjoin).key_eq
      · rw [joinSurrogates_idem] at hjoin
        exact hjoin
    · rintro rfl
      exact hclear.1

theorem Kept.of_record (hticks : Ticking (.record other now nowPrune :: run)) {s : ℚ}
    (hkept : nowPrune - s ≤ maxCooldownRetentionSeconds) : Kept run s := by
  intro p hp
  have hbefore := hticks.1 p hp
  have hafter := hticks.2.1
  linarith

/-- The table has the latest record of a target that is clear, until it is pruned. -/
theorem times_after (hticks : Ticking run) (hclear : Clear target run) :
    (after run).times target.key = (latest target run).filter fun s => decide (Kept run s) := by
  induction run with
  | nil => rfl
  | cons h past ih =>
    cases h with
    | restart =>
      rw [times_restart hclear.tail]
      exact ih hticks hclear.tail
    | record other now nowPrune =>
      have hpast := ih hticks.2.2 hclear.tail
      -- what this record prunes is what is no longer kept after it
      have hkept : ∀ s, (!decide (s < nowPrune - maxCooldownRetentionSeconds)) =
          decide (Kept (.record other now nowPrune :: past) s) := by
        intro s
        rw [← decide_not, decide_eq_decide]
        unfold Kept
        simp only [lastPrune, Option.mem_some_iff, forall_eq']
        constructor
        · intro h
          linarith
        · intro h
          linarith
      show ((after past).record other.key now nowPrune).times target.key = _
      rw [times_record (nodup_after past)]
      unfold recordCooldown pruneCooldowns
      simp only [hkept]
      -- a record of the target replaces its time; one of another has another key, as it is clear
      by_cases hsame : other.Same target
      · rw [hsame.key_eq, Function.update_self]
        have hlatest : latest target (.record other now nowPrune :: past) = some now := if_pos hsame
        rw [hlatest]
      · rw [Function.update_of_ne (hclear.key_ne hsame).symm, hpast, Option.filter_filter]
        have hlatest : latest target (.record other now nowPrune :: past) = latest target past :=
          if_neg hsame
        rw [hlatest]
        congr 1
        funext s
        rw [Bool.and_eq_right_iff_imp]
        intro hnew
        rw [decide_eq_true_iff] at hnew ⊢
        exact Kept.of_record hticks (hnew nowPrune rfl)

/-! ## The law -/

/-- A cooldown runs from the latest record of its target, as long as that is not pruned.
Records of other targets change nothing before. -/
theorem cooldown_exact (hc : 0 < c) (hticks : Ticking run) (hclear : Clear target run) (t : ℚ) :
    (∀ r, remaining run target c t = some r ↔
      ∃ s, latest target run = some s ∧ t - s < c ∧ Kept run s ∧ r = c - (t - s)) ∧
    ∀ other now nowPrune, ¬ other.Same target →
      Ticking (.record other now nowPrune :: run) → Clear target (.record other now nowPrune :: run) →
      (∀ s, latest target run = some s → nowPrune - s ≤ maxCooldownRetentionSeconds) →
      remaining (.record other now nowPrune :: run) target c t = remaining run target c t := by
  have hpositive : c ≠ 0 := hc.ne'
  constructor
  · intro r
    unfold remaining secondsRemaining
    rw [if_neg hpositive, times_after hticks hclear]
    cases hlatest : latest target run with
    | none => simp
    | some s =>
      by_cases hkept : Kept run s
      · simp only [Option.filter_some, hkept, decide_true, if_true, Option.some.injEq, exists_eq_left',
          true_and]
        split_ifs with hleft
        · have hlt : t - s < c := by linarith
          simp only [Option.some.injEq, hlt, true_and]
          exact eq_comm
        · have hge : ¬ t - s < c := by
            intro hlt
            apply hleft
            linarith
          simp [hge]
      · simp [Option.filter_some, hkept]
  · intro other now nowPrune hother hticks' hclear' hfresh
    unfold remaining secondsRemaining
    rw [times_after hticks hclear, times_after hticks' hclear']
    -- the other record could only have pruned the one that matters, which is too young
    have hlatest : latest target (.record other now nowPrune :: run) = latest target run := if_neg hother
    rw [hlatest]
    cases hs : latest target run with
    | none => rfl
    | some s =>
      have hkept' : Kept (.record other now nowPrune :: run) s := by
        intro p hp
        cases hp
        exact hfresh s hs
      have hkept : Kept run s := Kept.of_record hticks' (hfresh s hs)
      simp only [Option.filter_some, hkept, hkept']

/-- A cooldown of ten seconds is half over after a restart and a record for another target. -/
theorem cooldown_exact_example :
    let disk : Target := ⟨py "disk", py "web", none⟩
    let load : Target := ⟨py "load", py "web", some (py "a")⟩
    remaining [.record load 4 4, .restart, .record disk 0 1] disk 10 5 = some 5 ∧
      remaining [.record load 4 4, .restart, .record disk 0 1] load 10 5 = some 9 := by
  have hticks : Ticking [.record ⟨py "load", py "web", some (py "a")⟩ 4 4, .restart,
      .record ⟨py "disk", py "web", none⟩ 0 1] := by
    simp [Ticking, lastPrune]
  have hdisk : Clear ⟨py "disk", py "web", none⟩ [.record ⟨py "load", py "web", some (py "a")⟩ 4 4,
      .restart, .record ⟨py "disk", py "web", none⟩ 0 1] := by
    refine ⟨by decide +kernel, ?_⟩
    intro other now nowPrune hmem hjoin
    simp only [List.mem_cons, List.not_mem_nil, Happening.record.injEq, reduceCtorEq, or_false,
      false_or] at hmem
    rcases hmem with ⟨rfl, -⟩ | ⟨rfl, -⟩
    · exact absurd hjoin (by decide +kernel)
    · exact ⟨rfl, rfl, rfl⟩
  have hload : Clear ⟨py "load", py "web", some (py "a")⟩
      [.record ⟨py "load", py "web", some (py "a")⟩ 4 4, .restart,
        .record ⟨py "disk", py "web", none⟩ 0 1] := by
    refine ⟨by decide +kernel, ?_⟩
    intro other now nowPrune hmem hjoin
    simp only [List.mem_cons, List.not_mem_nil, Happening.record.injEq, reduceCtorEq, or_false,
      false_or] at hmem
    rcases hmem with ⟨rfl, -⟩ | ⟨rfl, -⟩
    · exact ⟨rfl, rfl, rfl⟩
    · exact absurd hjoin (by decide +kernel)
  constructor
  · exact ((cooldown_exact (by norm_num) hticks hdisk 5).1 5).mpr
      ⟨0, by decide +kernel, by norm_num, by decide +kernel, by norm_num⟩
  · exact ((cooldown_exact (by norm_num) hticks hload 5).1 9).mpr
      ⟨4, by decide +kernel, by norm_num, by decide +kernel, by norm_num⟩

/-- Where the law needs its conditions. A record for another target a day later drops a longer
cooldown, two targets share the key of `a|b|c|`, and a pair of surrogates is not found after a
restart. -/
theorem cooldown_lost :
    (Ticking [.record ⟨py "load", py "web", none⟩ 90000 90000,
        .record ⟨py "disk", py "web", none⟩ 0 0] ∧
      latest ⟨py "disk", py "web", none⟩ [.record ⟨py "load", py "web", none⟩ 90000 90000,
        .record ⟨py "disk", py "web", none⟩ 0 0] = some 0 ∧
      (90000 : ℚ) - 0 < 100000 ∧
      remaining [.record ⟨py "load", py "web", none⟩ 90000 90000,
        .record ⟨py "disk", py "web", none⟩ 0 0] ⟨py "disk", py "web", none⟩ 100000 90000 = none) ∧
    (Ticking [.record ⟨py "a", py "b|c", none⟩ 0 0] ∧
      latest ⟨py "a|b", py "c", none⟩ [.record ⟨py "a", py "b|c", none⟩ 0 0] = none ∧
      remaining [.record ⟨py "a", py "b|c", none⟩ 0 0] ⟨py "a|b", py "c", none⟩ 10 5 = some 5) ∧
    Ticking [.restart, .record ⟨[0xD83D, 0xDE00], py "c", none⟩ 0 0] ∧
      latest ⟨[0xD83D, 0xDE00], py "c", none⟩
        [.restart, .record ⟨[0xD83D, 0xDE00], py "c", none⟩ 0 0] = some 0 ∧
      (5 : ℚ) - 0 < 10 ∧
      remaining [.restart, .record ⟨[0xD83D, 0xDE00], py "c", none⟩ 0 0]
        ⟨[0xD83D, 0xDE00], py "c", none⟩ 10 5 = none := by
  refine ⟨⟨?_, by decide +kernel, by norm_num, by decide +kernel⟩,
    ⟨?_, by decide +kernel, by decide +kernel⟩, ?_, by decide +kernel, by norm_num,
    by decide +kernel⟩
  · simp [Ticking, lastPrune]
  · simp [Ticking, lastPrune]
  · simp [Ticking, lastPrune]

end CooldownTracker

end AutoHeal.Server
