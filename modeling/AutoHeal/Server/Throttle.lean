import AutoHeal.Lib.Window
import AutoHeal.Server.Webhook

/-!
# The rate limiter over many calls

The table holds for each key the calls that were recorded and are still in the window
(`recent_hitsAfter`), however often and with whatever limits it was asked. So a call is
admitted exactly when fewer than its limit were recorded in the window before it
(`limiter_exact`).
-/

namespace AutoHeal.Server

/-! ## Sequences of calls -/

/-- A call of `check`, with the time it reads. -/
structure LimiterCall where
  key : Str
  limit : Option Int
  now : ℚ

/-- The call has a positive limit. Other calls are admitted, and not recorded. -/
def LimiterCall.limited (c : LimiterCall) : Bool := c.limit.any fun n => decide (0 < n)

namespace RateLimiter

/-- The hits of a key that are in the window, the oldest first. -/
def recent (hits : Hits) (key : Str) (window now : ℚ) : List ℚ :=
  (hits key).dropWhile fun t => decide (t ≤ now - window)

/-- The table after some calls, the last of which is the first of the list. -/
def hitsAfter : List LimiterCall → Hits
  | [] => fun _ => []
  | c :: past => (check (hitsAfter past) c.key c.limit windowSeconds c.now).1

/-- What a call is answered after others. -/
def answer (past : List LimiterCall) (c : LimiterCall) : Option ℚ :=
  (check (hitsAfter past) c.key c.limit windowSeconds c.now).2

/-- The times of the recorded calls of a key, the last first: those with a positive limit
that were admitted. -/
def recordedTimes (key : Str) : List LimiterCall → List ℚ
  | [] => []
  | c :: past =>
    if c.key = key ∧ c.limited = true ∧ answer past c = none then c.now :: recordedTimes key past
    else recordedTimes key past

/-- How many calls of a key were recorded in the window that ends at a time. -/
def countInWindow (key : Str) (calls : List LimiterCall) (u : ℚ) : Nat :=
  (recordedTimes key calls).countP fun s => decide (u - windowSeconds < s ∧ s ≤ u)

/-- The clock does not go back. -/
def Ticking (calls : List LimiterCall) : Prop := calls.Pairwise fun later earlier => earlier.now ≤ later.now

/-! ## One call -/

section Check

variable {hits hits' : Hits} {key : Str} {n : Int} {window now : ℚ}

/-- Without a positive limit a call is admitted, and nothing changes. -/
theorem check_unlimited {limit : Option Int} (h : (limit.any fun n => decide (0 < n)) = false) :
    check hits key limit window now = (hits, none) := by
  unfold check
  cases limit with
  | none => rfl
  | some n =>
    have hn : n ≤ 0 := by simpa using h
    simp only [hn, if_true]

/-- With fewer hits in the window than the limit a call is admitted and recorded. -/
theorem check_admits (hn : 0 < n) (h : ((recent hits key window now).length : Int) < n) :
    check hits key (some n) window now =
      (Function.update hits key (recent hits key window now ++ [now]), none) := by
  unfold check
  unfold recent at h ⊢
  have hpositive : ¬ n ≤ 0 := by omega
  simp only [hpositive, if_false]
  cases hrecent : (hits key).dropWhile fun t => decide (t ≤ now - window) with
  | nil => rfl
  | cons first rest =>
    rw [hrecent] at h
    have hroom : ¬ n ≤ ((first :: rest).length : Int) := by omega
    simp only [hroom, if_false]

/-- Otherwise there is a first hit, and the call has to wait until that one has left the
window. -/
theorem check_refuses (hn : 0 < n) (h : n ≤ ((recent hits key window now).length : Int)) :
    ∃ first rest, recent hits key window now = first :: rest ∧
      check hits key (some n) window now =
        (Function.update hits key (recent hits key window now),
          some (max (first + window - now) (1 / 10))) := by
  unfold check
  unfold recent at h ⊢
  have hpositive : ¬ n ≤ 0 := by omega
  simp only [hpositive, if_false]
  cases hrecent : (hits key).dropWhile fun t => decide (t ≤ now - window) with
  | nil =>
    rw [hrecent] at h
    simp at h
    omega
  | cons first rest =>
    rw [hrecent] at h
    refine ⟨first, rest, rfl, ?_⟩
    simp only [h, if_true]

theorem check_eq_none_iff (hn : 0 < n) :
    (check hits key (some n) window now).2 = none ↔
      ((recent hits key window now).length : Int) < n := by
  constructor
  · intro hnone
    by_contra hfull
    rcases check_refuses hn (not_lt.mp hfull) with ⟨first, rest, -, hcheck⟩
    rw [hcheck] at hnone
    cases hnone
  · intro hroom
    rw [check_admits hn hroom]

/-- What a call leaves for its key depends on the hits of that key. -/
theorem check_self_congr (h : hits key = hits' key) (limit : Option Int) :
    (check hits key limit window now).1 key = (check hits' key limit window now).1 key := by
  cases hlimited : limit.any fun n => decide (0 < n) with
  | false =>
    simp only [check_unlimited hlimited]
    exact h
  | true =>
    rcases Option.any_eq_true .. |>.mp hlimited with ⟨n, rfl, hn⟩
    have hpositive : 0 < n := by simpa using hn
    have hrecent : recent hits key window now = recent hits' key window now := by
      unfold recent
      rw [h]
    by_cases hroom : ((recent hits key window now).length : Int) < n
    · simp only [check_admits hpositive hroom, check_admits hpositive (hrecent ▸ hroom), hrecent,
        Function.update_self]
    · rcases check_refuses hpositive (not_lt.mp hroom) with ⟨_, _, -, hcheck⟩
      rcases check_refuses hpositive (hrecent ▸ not_lt.mp hroom) with ⟨_, _, -, hcheck'⟩
      simp only [hcheck, hcheck', hrecent, Function.update_self]

end Check

/-! ## What the table holds -/

variable {calls : List LimiterCall} {c : LimiterCall} {past : List LimiterCall} {key : Str}

theorem recordedTimes_of_recorded (hkey : c.key = key) (hlimited : c.limited = true)
    (hadmits : answer past c = none) :
    recordedTimes key (c :: past) = c.now :: recordedTimes key past := if_pos ⟨hkey, hlimited, hadmits⟩

theorem recordedTimes_of_not (h : ¬ (c.key = key ∧ c.limited = true ∧ answer past c = none)) :
    recordedTimes key (c :: past) = recordedTimes key past := if_neg h

theorem mem_recordedTimes {t : ℚ} (h : t ∈ recordedTimes key calls) : ∃ c ∈ calls, c.now = t := by
  induction calls with
  | nil => cases h
  | cons c past ih =>
    have hpast : t ∈ recordedTimes key past → ∃ c' ∈ c :: past, c'.now = t := by
      intro h
      rcases ih h with ⟨c', hc', hnow⟩
      exact ⟨c', List.mem_cons_of_mem _ hc', hnow⟩
    unfold recordedTimes at h
    split_ifs at h
    · rcases List.mem_cons.mp h with rfl | h
      · exact ⟨c, List.mem_cons_self, rfl⟩
      · exact hpast h
    · exact hpast h

theorem recordedTimes_le (hnow : ∀ c ∈ calls, c.now ≤ now) : ∀ t ∈ recordedTimes key calls, t ≤ now := by
  intro t ht
  rcases mem_recordedTimes ht with ⟨c, hc, rfl⟩
  exact hnow c hc

/-- The recorded times are in order. -/
theorem recordedTimes_ordered (h : Ticking calls) : (recordedTimes key calls).Pairwise (· ≥ ·) := by
  induction calls with
  | nil => exact List.Pairwise.nil
  | cons c past ih =>
    rcases List.pairwise_cons.mp h with ⟨hfirst, hrest⟩
    unfold recordedTimes
    split_ifs
    · exact List.pairwise_cons.mpr ⟨recordedTimes_le hfirst, ih hrest⟩
    · exact ih hrest

/-- The hits of a key that are in the window are the recorded calls in it. -/
theorem recent_hitsAfter (h : Ticking calls) {now : ℚ} (hnow : ∀ c ∈ calls, c.now ≤ now) (key : Str) :
    recent (hitsAfter calls) key windowSeconds now =
      ((recordedTimes key calls).filter fun t => decide (now - windowSeconds < t)).reverse := by
  induction calls generalizing now with
  | nil => rfl
  | cons c past ih =>
    rcases List.pairwise_cons.mp h with ⟨hfirst, hrest⟩
    have hpast : recent (hitsAfter past) key windowSeconds now =
        ((recordedTimes key past).filter fun t => decide (now - windowSeconds < t)).reverse :=
      ih hrest fun c' hc' => hnow c' (List.mem_cons_of_mem _ hc')
    have hlater : c.now - windowSeconds ≤ now - windowSeconds :=
      sub_le_sub_right (hnow c List.mem_cons_self) _
    by_cases hkey : c.key = key
    swap
    · have hsame : hitsAfter (c :: past) key = hitsAfter past key :=
        check_of_ne (Ne.symm hkey) _ _ _ _
      rw [recordedTimes_of_not fun h => hkey h.1, ← hpast]
      unfold recent
      rw [hsame]
    cases hlimited : c.limited with
    | false =>
      have hsame : hitsAfter (c :: past) = hitsAfter past :=
        congrArg Prod.fst (check_unlimited hlimited)
      rw [recordedTimes_of_not fun h => Bool.false_ne_true (hlimited.symm.trans h.2.1), ← hpast, hsame]
    | true =>
      subst hkey
      rcases Option.any_eq_true .. |>.mp hlimited with ⟨n, hlimit, hn⟩
      have hpositive : 0 < n := by simpa using hn
      -- what the call itself has cut is cut again, later
      have hcut := ih hrest hfirst
      have hordered : (recordedTimes c.key past).Pairwise (· ≥ ·) := recordedTimes_ordered hrest
      by_cases hroom :
          ((recent (hitsAfter past) c.key windowSeconds c.now).length : Int) < n
      · have hcheck := check_admits hpositive hroom
        have hadmits : answer past c = none := by
          unfold answer
          rw [hlimit, hcheck]
        have hfilter : (recent (hitsAfter past) c.key windowSeconds c.now ++ [c.now]) =
            ((c.now :: recordedTimes c.key past).filter
              fun t => decide (c.now - windowSeconds < t)).reverse := by
          rw [hcut, List.filter_cons_of_pos, List.reverse_cons]
          simp [windowSeconds]
        rw [recordedTimes_of_recorded rfl hlimited hadmits,
          ← Window.dropWhile_reverse_filter _ hlater, ← hfilter]
        · have hafter : hitsAfter (c :: past) c.key =
              recent (hitsAfter past) c.key windowSeconds c.now ++ [c.now] := by
            show (check (hitsAfter past) c.key c.limit windowSeconds c.now).1 c.key = _
            rw [hlimit, hcheck]
            exact Function.update_self _ _ _
          rw [← hafter]
          rfl
        · exact List.pairwise_cons.mpr ⟨recordedTimes_le hfirst, hordered⟩
      · rcases check_refuses hpositive (not_lt.mp hroom) with ⟨first, rest, -, hcheck⟩
        have hrefuses : answer past c ≠ none := by
          unfold answer
          rw [hlimit, hcheck]
          simp
        rw [recordedTimes_of_not fun h => hrefuses h.2.2,
          ← Window.dropWhile_reverse_filter hordered hlater, ← hcut]
        have hafter : hitsAfter (c :: past) c.key =
            recent (hitsAfter past) c.key windowSeconds c.now := by
          show (check (hitsAfter past) c.key c.limit windowSeconds c.now).1 c.key = _
          rw [hlimit, hcheck]
          exact Function.update_self _ _ _
        rw [← hafter]
        rfl

/-- The length of the queue at a call is the number of recorded calls in the window. -/
theorem length_recent (h : Ticking (c :: past)) :
    (recent (hitsAfter past) c.key windowSeconds c.now).length = countInWindow c.key past c.now := by
  rcases List.pairwise_cons.mp h with ⟨hfirst, hrest⟩
  rw [recent_hitsAfter hrest hfirst, List.length_reverse, ← List.countP_eq_length_filter]
  refine List.countP_congr fun t ht => ?_
  simp [recordedTimes_le hfirst t ht]

/-- A call with a positive limit is admitted if fewer calls are recorded in its window. -/
theorem answer_eq_none_iff (h : Ticking (c :: past)) {n : Int} (hlimit : c.limit = some n)
    (hn : 0 < n) : answer past c = none ↔ (countInWindow c.key past c.now : Int) < n := by
  unfold answer
  rw [hlimit, check_eq_none_iff hn, length_recent h]

/-- A refusal tells the time until the first hit leaves the window. -/
theorem exists_of_answer {retryAfter : ℚ} (h : answer past c = some retryAfter) :
    ∃ first rest, recent (hitsAfter past) c.key windowSeconds c.now = first :: rest ∧
      retryAfter = max (first + windowSeconds - c.now) (1 / 10) := by
  unfold answer at h
  cases hlimited : c.limit.any fun n => decide (0 < n) with
  | false =>
    rw [check_unlimited hlimited] at h
    cases h
  | true =>
    rcases Option.any_eq_true .. |>.mp hlimited with ⟨n, hlimit, hn⟩
    have hpositive : 0 < n := by simpa using hn
    rw [hlimit] at h
    by_cases hroom : ((recent (hitsAfter past) c.key windowSeconds c.now).length : Int) < n
    · rw [check_admits hpositive hroom] at h
      cases h
    · rcases check_refuses hpositive (not_lt.mp hroom) with ⟨first, rest, hrecent, hcheck⟩
      rw [hcheck] at h
      exact ⟨first, rest, hrecent, (Option.some.inj h).symm⟩

/-! ## Windows and other keys -/

/-- With one limit for a key, no window has more recorded calls of it. The last of them saw
the others in the window before it. -/
theorem countInWindow_le (h : Ticking calls) {n : Int} (hn : 0 < n)
    (hlimit : ∀ c ∈ calls, c.key = key → c.limit = some n) (u : ℚ) :
    (countInWindow key calls u : Int) ≤ n := by
  induction calls with
  | nil =>
    show ((0 : Nat) : Int) ≤ n
    omega
  | cons c past ih =>
    rcases List.pairwise_cons.mp h with ⟨hfirst, hrest⟩
    have hpast := ih hrest fun c' hc' => hlimit c' (List.mem_cons_of_mem _ hc')
    by_cases hrecorded : c.key = key ∧ c.limited = true ∧ answer past c = none
    swap
    · unfold countInWindow
      rw [recordedTimes_of_not hrecorded]
      exact hpast
    rcases hrecorded with ⟨rfl, hlimited, hadmits⟩
    unfold countInWindow
    rw [recordedTimes_of_recorded rfl hlimited hadmits]
    by_cases hin : u - windowSeconds < c.now ∧ c.now ≤ u
    -- it was admitted, so fewer than `n` were in its window
    · have hbefore : (countInWindow c.key past c.now : Int) < n :=
        (answer_eq_none_iff h (hlimit c List.mem_cons_self rfl) hn).mp hadmits
      have hmono : (recordedTimes c.key past).countP (fun s => decide (u - windowSeconds < s ∧ s ≤ u)) ≤
          countInWindow c.key past c.now := by
        refine List.countP_mono_left fun t ht hwindow => ?_
        have hle := recordedTimes_le hfirst t ht
        simp only [decide_eq_true_eq] at hwindow ⊢
        exact ⟨lt_of_le_of_lt (sub_le_sub_right hin.2 _) hwindow.1, hle⟩
      rw [List.countP_cons_of_pos (by simpa using hin)]
      omega
    · rw [List.countP_cons_of_neg (by simpa using hin)]
      exact hpast

/-- What the table holds for a key comes from the calls of that key. -/
theorem hitsAfter_filter (calls : List LimiterCall) (key : Str) :
    hitsAfter calls key = hitsAfter (calls.filter fun c => c.key = key) key := by
  induction calls with
  | nil => rfl
  | cons c past ih =>
    by_cases hkey : c.key = key
    · subst hkey
      rw [List.filter_cons_of_pos (by simp)]
      exact check_self_congr ih _
    · rw [List.filter_cons_of_neg (by simpa using hkey), ← ih]
      exact check_of_ne (Ne.symm hkey) _ _ _ _

end RateLimiter

open RateLimiter in
/-- In every sequence of calls with a clock that does not go back: a call with a positive
limit is admitted exactly when fewer calls of its key are recorded in the window before it,
one without is admitted; with one limit for a key no window has more recorded calls of it;
the calls of other keys change no answer, and callers and actions have different keys; and
what a refusal tells is about a first hit that is there. -/
theorem limiter_exact (past : List LimiterCall) (c : LimiterCall) (h : Ticking (c :: past)) :
    (∀ n, c.limit = some n → 0 < n →
      (answer past c = none ↔ (countInWindow c.key past c.now : Int) < n)) ∧
    (c.limited = false → answer past c = none) ∧
    (∀ key n, 0 < n → (∀ d ∈ c :: past, d.key = key → d.limit = some n) →
      ∀ u, (countInWindow key (c :: past) u : Int) ≤ n) ∧
    (∀ other, (other.filter fun d => d.key = c.key) = (past.filter fun d => d.key = c.key) →
      answer other c = answer past c) ∧
    (∀ apiKey eventType, actionKey eventType ≠ callerKey apiKey) ∧
    ∀ retryAfter, answer past c = some retryAfter →
      ∃ first rest, recent (hitsAfter past) c.key windowSeconds c.now = first :: rest ∧
        retryAfter = max (first + windowSeconds - c.now) (1 / 10) := by
  refine ⟨fun n => answer_eq_none_iff h, fun hlimited => ?_, fun key n hn hlimit u => ?_,
    fun other hother => ?_, callerKey_ne_actionKey, fun retryAfter => exists_of_answer⟩
  · unfold answer
    rw [check_unlimited hlimited]
  · exact countInWindow_le h hn hlimit u
  · have hsame : hitsAfter other c.key = hitsAfter past c.key := by
      rw [hitsAfter_filter other, hother, ← hitsAfter_filter past]
    exact check_congr hsame _ _ _

/-- A call with the limit one. -/
def exampleCall (now : ℚ) : LimiterCall := ⟨py "caller:operator-key", some 1, now⟩

theorem recordedTimes_example :
    RateLimiter.recordedTimes (exampleCall 0).key [exampleCall 0] = [0] := by
  have hadmits : RateLimiter.answer [] (exampleCall 0) = none := by
    unfold RateLimiter.answer
    rw [show (exampleCall 0).limit = some 1 from rfl, RateLimiter.check_eq_none_iff (by decide)]
    exact Int.zero_lt_one
  exact RateLimiter.recordedTimes_of_recorded rfl rfl hadmits

/-- A second call is refused within a minute of the first, and admitted a minute after it. -/
theorem limiter_exact_example :
    RateLimiter.answer [exampleCall 0] (exampleCall 59) ≠ none ∧
      RateLimiter.answer [exampleCall 0] (exampleCall 60) = none := by
  have hticking : ∀ now, 0 ≤ now → RateLimiter.Ticking [exampleCall now, exampleCall 0] := by
    intro now hnow
    refine List.pairwise_cons.mpr ⟨fun c hc => ?_, List.pairwise_singleton _ _⟩
    rw [List.mem_singleton.mp hc]
    exact hnow
  have hcount : ∀ now, RateLimiter.countInWindow (exampleCall now).key [exampleCall 0] now =
      if now - 60 < 0 ∧ 0 ≤ now then 1 else 0 := by
    intro now
    have htimes : RateLimiter.recordedTimes (exampleCall now).key [exampleCall 0] = [0] :=
      recordedTimes_example
    unfold RateLimiter.countInWindow windowSeconds
    rw [htimes, List.countP_singleton]
    simp
  constructor
  · rw [Ne, (limiter_exact [exampleCall 0] (exampleCall 59) (hticking 59 (by norm_num))).1 1 rfl
      (by decide), show (exampleCall 59).now = 59 from rfl, hcount]
    norm_num
  · rw [(limiter_exact [exampleCall 0] (exampleCall 60) (hticking 60 (by norm_num))).1 1 rfl
      (by decide), show (exampleCall 60).now = 60 from rfl, hcount]
    norm_num

end AutoHeal.Server
