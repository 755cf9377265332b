import AutoHeal.Python.Str
import Mathlib.Data.Rat.Floor
import Mathlib.Tactic.Linarith

/-!
# Rate limits and cooldowns

`src/ratelimit.py` and `src/cooldown.py`: two tables of times, by key. Times are
rationals, in seconds.
-/

namespace AutoHeal.Server

/-! ## The rate limiter -/

/-- A mapping with `requests_per_minute`, which may be absent or null. -/
structure RateEntry where
  requestsPerMinute : Option (Option Int)
  deriving DecidableEq

/-- `config/rate_limits.yaml`. -/
structure RateLimits where
  default : Option RateEntry
  perRole : List (Str × RateEntry)
  perAction : List (Str × RateEntry)

/-- `DEFAULT_REQUESTS_PER_MINUTE`. -/
def defaultRequestsPerMinute : Int := 60

/-- `WINDOW_SECONDS`. -/
def windowSeconds : ℚ := 60

/-- `entry.get("requests_per_minute", DEFAULT_REQUESTS_PER_MINUTE)`. -/
def RateEntry.orDefault (entry : RateEntry) : Option Int :=
  entry.requestsPerMinute.getD (some defaultRequestsPerMinute)

/-- `limit_for_role`. -/
def limitForRole (cfg : RateLimits) (role : Option Str) : Option Int :=
  let fallback := (cfg.default.getD ⟨none⟩).orDefault
  match role with
  | none => fallback
  | some name =>
    match (if name = [] then none else cfg.perRole.lookup name) with
    | some entry => entry.orDefault
    | none => fallback

/-- `limit_for_action`. -/
def limitForAction (cfg : RateLimits) (eventType : Str) : Option Int :=
  match cfg.perAction.lookup eventType with
  | some entry => entry.requestsPerMinute.getD none
  | none => none

/-- The times of the calls admitted for a key, oldest first. -/
abbrev Hits := Str → List ℚ

/-- `RateLimiter.check` at the time `now`: the table, and `none` or the seconds after
which to retry. -/
def RateLimiter.check (hits : Hits) (key : Str) (limit : Option Int) (window now : ℚ) :
    Hits × Option ℚ :=
  match limit with
  | none => (hits, none)
  | some n =>
    if n ≤ 0 then (hits, none)
    else
      let recent := (hits key).dropWhile fun t => decide (t ≤ now - window)
      match recent with
      | first :: _ =>
        if n ≤ recent.length then
          (Function.update hits key recent, some (max (first + window - now) (1 / 10)))
        else (Function.update hits key (recent ++ [now]), none)
      | [] => (Function.update hits key [now], none)

/-- A check touches the calls of its own key only. -/
theorem RateLimiter.check_of_ne {key other : Str} (h : other ≠ key) (hits : Hits)
    (limit : Option Int) (window now : ℚ) :
    (RateLimiter.check hits key limit window now).1 other = hits other := by
  unfold RateLimiter.check
  cases limit with
  | none => rfl
  | some n =>
    by_cases hn : n ≤ 0
    · simp only [hn, if_true]
    · simp only [hn, if_false]
      cases (hits key).dropWhile fun t => decide (t ≤ now - window) with
      | nil => exact Function.update_of_ne h _ _
      | cons first rest =>
        simp only
        split_ifs <;> exact Function.update_of_ne h _ _

/-- What a check answers depends on the calls of its own key. -/
theorem RateLimiter.check_congr {hits hits' : Hits} {key : Str} (h : hits key = hits' key)
    (limit : Option Int) (window now : ℚ) :
    (RateLimiter.check hits key limit window now).2 =
      (RateLimiter.check hits' key limit window now).2 := by
  unfold RateLimiter.check
  rw [h]
  cases limit with
  | none => rfl
  | some n =>
    by_cases hn : n ≤ 0
    · simp only [hn, if_true]
    · simp only [hn, if_false]
      cases (hits' key).dropWhile fun t => decide (t ≤ now - window) with
      | nil => rfl
      | cons first rest =>
        simp only
        split_ifs <;> rfl

/-! ## The cooldown tracker -/

/-- `MAX_COOLDOWN_RETENTION_SECONDS`. -/
def maxCooldownRetentionSeconds : ℚ := 24 * 60 * 60

/-- `_last_run`, also as it is in the state file. -/
abbrev Cooldowns := Str → Option ℚ

/-- `make_key`. -/
def makeKey (eventType controllerName : Str) (dedupValue : Option Str) : Str :=
  eventType ++ py "|" ++ controllerName ++ py "|" ++ dedupValue.getD []

/-- `seconds_remaining` at the time `now`. -/
def secondsRemaining (lastRun : Cooldowns) (key : Str) (cooldownSeconds now : ℚ) : Option ℚ :=
  if cooldownSeconds = 0 then none
  else
    match lastRun key with
    | none => none
    | some last =>
      let remaining := cooldownSeconds - (now - last)
      if remaining > 0 then some remaining else none

/-- `_prune_locked` at the time `now`. -/
def pruneCooldowns (lastRun : Cooldowns) (now : ℚ) : Cooldowns := fun key =>
  (lastRun key).filter fun ts => !decide (ts < now - maxCooldownRetentionSeconds)

/-- `record`. The clock is read twice, by `record` and by `_prune_locked`. -/
def recordCooldown (lastRun : Cooldowns) (key : Str) (now nowPrune : ℚ) : Cooldowns :=
  pruneCooldowns (Function.update lastRun key (some now)) nowPrune

theorem pruneCooldowns_eq_some {lastRun : Cooldowns} {now : ℚ} {key : Str} {ts : ℚ} :
    pruneCooldowns lastRun now key = some ts ↔
      lastRun key = some ts ∧ now - maxCooldownRetentionSeconds ≤ ts := by
  unfold pruneCooldowns
  rw [Option.filter_eq_some_iff]
  simp

/-- A key is free when it has no record or the record has expired. -/
theorem secondsRemaining_eq_none {lastRun : Cooldowns} {key : Str} {c now : ℚ} (hc : c ≠ 0) :
    secondsRemaining lastRun key c now = none ↔
      ∀ last, lastRun key = some last → last + c ≤ now := by
  unfold secondsRemaining
  rw [if_neg hc]
  cases hlast : lastRun key with
  | none => simp
  | some last =>
    simp only [Option.some.injEq, forall_eq']
    split_ifs with h
    · exact iff_of_false (by simp) (by linarith)
    · exact iff_of_true rfl (by linarith)

end AutoHeal.Server
