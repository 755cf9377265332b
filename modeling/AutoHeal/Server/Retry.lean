import AutoHeal.Server.Throttle

/-!
# When a refused call may come again

A refusal of `check` tells how long to wait, and the time is that of the oldest hit in the window.
The limit of a key may have been higher before, so that more hits are there than the call may
find. `laterHits` is how many of them are still there after the time that was told, and a call
that comes back then is admitted exactly when they are fewer than its limit.
-/

namespace AutoHeal.Server.RateLimiter

/-- The hits in the window that come after its oldest, and in the last 59.9 seconds. -/
def laterHits (hits : Hits) (key : Str) (now : ℚ) : Nat :=
  match recent hits key windowSeconds now with
  | [] => 0
  | first :: rest =>
    rest.countP fun s => decide (first < s ∧ now - windowSeconds + 1 / 10 < s)

variable {past between : List LimiterCall} {c retry : LimiterCall} {retryAfter : ℚ}

/-- A call that is refused is not recorded. -/
theorem recordedTimes_refused (hrefused : answer past c = some retryAfter) (key : Str) :
    recordedTimes key (c :: past) = recordedTimes key past := by
  apply recordedTimes_of_not
  intro h
  rw [hrefused] at h
  cases h.2.2

/-- The later hits are those still in the window after the time that was told. -/
theorem laterHits_eq_countP (h : Ticking (c :: past)) (hrefused : answer past c = some retryAfter) :
    laterHits (hitsAfter past) c.key c.now =
      (recordedTimes c.key past).countP
        fun s => decide (c.now + retryAfter - windowSeconds < s) := by
  rcases List.pairwise_cons.mp h with ⟨hfirst, hrest⟩
  rcases exists_of_answer hrefused with ⟨first, rest, hrecent, rfl⟩
  have hwindow : c.now + max (first + windowSeconds - c.now) (1 / 10) - windowSeconds =
      max first (c.now - windowSeconds + 1 / 10) := by
    rcases le_total (first + windowSeconds - c.now) (1 / 10) with hle | hle
    · rw [max_eq_right hle, max_eq_right (by linarith)]
      ring
    · rw [max_eq_left hle, max_eq_left (by linarith)]
      ring
  have hcut := recent_hitsAfter hrest hfirst c.key
  rw [hrecent] at hcut
  unfold laterHits
  rw [hrecent, hwindow]
  -- the hits before the window are none of those that are counted
  have hcount : (recordedTimes c.key past).countP
      (fun s => decide (max first (c.now - windowSeconds + 1 / 10) < s)) =
      (first :: rest).countP fun s => decide (max first (c.now - windowSeconds + 1 / 10) < s) := by
    rw [hcut, List.countP_reverse, List.countP_filter]
    refine List.countP_congr fun s _ => ?_
    have hin : max first (c.now - windowSeconds + 1 / 10) < s → c.now - windowSeconds < s := by
      intro hs
      have hcutoff := lt_of_le_of_lt (le_max_right _ _) hs
      linarith
    simp only [Bool.and_eq_true, decide_eq_true_eq]
    exact ⟨fun hs => ⟨hs, hin hs⟩, fun hs => hs.1⟩
  rw [hcount, List.countP_cons_of_neg (by simp)]
  refine List.countP_congr fun s _ => ?_
  simp only [decide_eq_true_eq, max_lt_iff]

/-- Where nothing is recorded in between, what is in the window of the retry are the later hits. -/
theorem countInWindow_retry (h : Ticking (retry :: (between ++ c :: past)))
    (hrefused : answer past c = some retryAfter)
    (hquiet : recordedTimes c.key (between ++ c :: past) = recordedTimes c.key (c :: past))
    (htime : retry.now = c.now + retryAfter) :
    countInWindow c.key (between ++ c :: past) retry.now =
      laterHits (hitsAfter past) c.key c.now := by
  rcases List.pairwise_cons.mp h with ⟨hfirst, hrest⟩
  have hticking : Ticking (c :: past) := hrest.sublist (List.sublist_append_right _ _)
  rw [laterHits_eq_countP hticking hrefused]
  unfold countInWindow
  rw [hquiet, recordedTimes_refused hrefused]
  refine List.countP_congr fun s hs => ?_
  have hle : s ≤ retry.now := by
    rcases mem_recordedTimes hs with ⟨d, hd, rfl⟩
    exact hfirst d (List.mem_append_right _ (List.mem_cons_of_mem _ hd))
  simp only [decide_eq_true_eq, htime ▸ hle, and_true, htime]

/-- The retry comes when it was told, and no call of the key was recorded since the refusal. -/
structure ComesBack (past between : List LimiterCall) (c retry : LimiterCall) (retryAfter : ℚ) :
    Prop where
  ticking : Ticking (retry :: (between ++ c :: past))
  refused : answer past c = some retryAfter
  quiet : recordedTimes c.key (between ++ c :: past) = recordedTimes c.key (c :: past)
  same : retry.key = c.key ∧ retry.limit = c.limit
  time : retry.now = c.now + retryAfter

theorem ComesBack.answer_iff (h : ComesBack past between c retry retryAfter) {n : Int}
    (hlimit : c.limit = some n) (hn : 0 < n) :
    answer (between ++ c :: past) retry = none ↔
      (laterHits (hitsAfter past) c.key c.now : Int) < n := by
  rw [answer_eq_none_iff h.ticking (h.same.2.trans hlimit) hn, h.same.1,
    countInWindow_retry h.ticking h.refused h.quiet h.time]

/-- A refused call has a positive limit. -/
theorem limit_of_refused (h : answer past c = some retryAfter) : ∃ n, c.limit = some n ∧ 0 < n := by
  cases hlimited : c.limit.any fun n => decide (0 < n) with
  | false =>
    unfold answer at h
    rw [check_unlimited hlimited] at h
    cases h
  | true =>
    rcases Option.any_eq_true .. |>.mp hlimited with ⟨n, hlimit, hn⟩
    exact ⟨n, hlimit, by simpa using hn⟩

/-- With as many hits in the window as the limit allows, the oldest is the one to wait for. -/
theorem laterHits_lt {hits : Hits} {key : Str} {now : ℚ} {n : Int} (hn : 0 < n)
    (h : ((recent hits key windowSeconds now).length : Int) ≤ n) :
    (laterHits hits key now : Int) < n := by
  unfold laterHits
  cases hrecent : recent hits key windowSeconds now with
  | nil => exact hn
  | cons first rest =>
    rw [hrecent, List.length_cons] at h
    have hle := List.countP_le_length (l := rest)
      (p := fun s => decide (first < s ∧ now - windowSeconds + 1 / 10 < s))
    show ((rest.countP _ : Nat) : Int) < n
    omega

/-- With one limit for a key, a call that comes back when it was told is admitted. -/
theorem retry_admitted_of_one_limit (h : ComesBack past between c retry retryAfter)
    (hlimit : ∀ d ∈ past, d.key = c.key → d.limit = c.limit) :
    answer (between ++ c :: past) retry = none := by
  rcases limit_of_refused h.refused with ⟨n, hc, hn⟩
  have hticking : Ticking (c :: past) :=
    (List.pairwise_cons.mp h.ticking).2.sublist (List.sublist_append_right _ _)
  apply (h.answer_iff hc hn).mpr
  apply laterHits_lt hn
  rw [length_recent hticking]
  exact countInWindow_le (List.pairwise_cons.mp hticking).2 hn
    (fun d hd hkey => (hlimit d hd hkey).trans hc) _

/-- In every state of the limiter that calls reach with a clock that does not go back: a call
that comes back when it was told, nothing of its key being recorded in between, is admitted
exactly when fewer hits than its limit come after the oldest in the window and in the last 59.9
seconds. -/
theorem retry_admitted_iff (past between : List LimiterCall) (c retry : LimiterCall) (retryAfter : ℚ)
    (n : Int) (h : ComesBack past between c retry retryAfter) (hlimit : c.limit = some n) :
    answer (between ++ c :: past) retry = none ↔
      (laterHits (hitsAfter past) c.key c.now : Int) < n := by
  rcases limit_of_refused h.refused with ⟨n', hc, hn⟩
  rcases Option.some.inj (hc.symm.trans hlimit) with rfl
  exact h.answer_iff hlimit hn

/-- A call of a caller with the limit of its role. -/
def callerCall (limit : Int) (now : ℚ) : LimiterCall := ⟨py "caller:k", some limit, now⟩

/-- A call refused three seconds after another comes back when that one has left the window. -/
theorem retry_admitted_iff_example :
    answer ([] ++ callerCall 1 3 :: [callerCall 1 0]) (callerCall 1 60) = none :=
  (retry_admitted_iff [callerCall 1 0] [] (callerCall 1 3) (callerCall 1 60) 57 1
    ⟨by unfold Ticking; decide +kernel, by decide +kernel, rfl, ⟨rfl, rfl⟩, by decide +kernel⟩
    rfl).mpr (by decide +kernel)

/-- After three calls the role of the caller allows one a minute. The fourth is told to wait for
the first to leave the window, and then the other two are still there. -/
theorem retry_refused :
    ¬ ∀ (past between : List LimiterCall) (c retry : LimiterCall) (retryAfter : ℚ),
      ComesBack past between c retry retryAfter → answer (between ++ c :: past) retry = none := by
  intro hclaim
  have hadmitted := hclaim [callerCall 3 2, callerCall 3 1, callerCall 3 0] [] (callerCall 1 3)
    (callerCall 1 60) 57
    ⟨by unfold Ticking; decide +kernel, by decide +kernel, rfl, ⟨rfl, rfl⟩, by decide +kernel⟩
  revert hadmitted
  decide +kernel

end AutoHeal.Server.RateLimiter
