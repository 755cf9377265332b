import AutoHeal.Lib.Transition
import AutoHeal.Outside.VaultErrors

/-!
# Concurrent reads and invalidations

One client with any number of calls of `get_secret` and `invalidate` in progress. What happens
under a lock is one move; between them a read waits for Vault. The steps are counted, and a secret
carries the step its fetch was issued at, so that it can be said which came first. A fetch that is
in flight while its path is invalidated stores what it read from before: `Undisturbed` are the
moves where no such fetch is.
-/

namespace AutoHeal

open Transition

/-! ## Calls -/

/-- The data of a secret, and the step its fetch was issued at. -/
structure Issued (F : Type) where
  data : PyVal F
  issuedAt : ℕ

/-- How far a call of `get_secret` is. A secret that is returned from the cache comes with its
age. -/
inductive ReadPhase (F : Type) where
  | started
  | found (fetchedAt : ℚ) (secret : Issued F)
  | missed
  | fetching (issuedAt : ℕ)
  | fetched (secret : Issued F)
  | failed
  | returned (secret : Issued F) (age : Option ℚ)

/-- A call of `get_secret`. -/
structure Reading (F : Type) where
  path : Str
  startedAt : ℕ
  phase : ReadPhase F

/-- How far a call of `invalidate` is. -/
inductive DropPhase where
  | started
  | dropped
  | returned (returnedAt : ℕ)

/-- A call of `invalidate`. -/
structure Invalidation where
  target : Option Str
  startedAt : ℕ
  phase : DropPhase

/-- The invalidation is about a path. -/
def Invalidation.Covers (v : Invalidation) (path : Str) : Prop :=
  v.target = none ∨ v.target = some path

variable {F : Type}

/-- The fetch of a read was issued, and its secret is not in the cache yet. -/
def ReadPhase.InFlight : ReadPhase F → ℕ → Prop
  | .fetching issuedAt, n => issuedAt = n
  | .fetched secret, n => secret.issuedAt = n
  | _, _ => False

/-- The read has a secret from the cache, or has returned one. -/
def ReadPhase.Holds : ReadPhase F → Issued F → Prop
  | .found _ secret, s | .returned secret _, s => secret = s
  | _, _ => False

/-! ## Moves -/

/-- A client with calls in progress. `origin` is when the fetches of the cached secrets were
issued. -/
structure VaultRun (F : Type) where
  client : VaultState F
  origin : Str → ℕ
  now : ℚ
  step : ℕ
  reads : ℕ → Option (Reading F)
  drops : ℕ → Option Invalidation

/-- What can happen next. -/
inductive VaultMove (F : Type) where
  | tick (now : ℚ)
  | login (token : PyVal F) (expiresAt : FloatValue)
  | read (i : ℕ) (path : Str)
  | lookup (i : ℕ)
  | check (i : ℕ)
  | issue (i : ℕ)
  | answer (i : ℕ) (data : PyVal F)
  | fail (i : ℕ)
  | store (i : ℕ)
  | invalidate (j : ℕ) (target : Option Str)
  | drop (j : ℕ)
  | finish (j : ℕ)

namespace VaultRun

/-- A new client. -/
structure Starts (x : VaultRun F) : Prop where
  client : x.client = .new
  reads : x.reads = fun _ => none
  drops : x.drops = fun _ => none

/-- A read is at a phase. -/
def readAt (x : VaultRun F) (i : ℕ) (r : Reading F) (phase : ReadPhase F) : VaultRun F :=
  { x with step := x.step + 1, reads := Function.update x.reads i (some { r with phase := phase }) }

/-- An invalidation is at a phase. -/
def dropAt (x : VaultRun F) (j : ℕ) (v : Invalidation) (phase : DropPhase) : VaultRun F :=
  { x with step := x.step + 1, drops := Function.update x.drops j (some { v with phase := phase }) }

/-- What the cache has for a path. -/
def lookup (x : VaultRun F) (path : Str) : ReadPhase F :=
  match x.client.cache path with
  | none => .missed
  | some (fetchedAt, data) => .found fetchedAt ⟨data, x.origin path⟩

/-- Where a read goes that has found a secret. -/
def checked (x : VaultRun F) (cfg : VaultConfig) (fetchedAt : ℚ) (secret : Issued F) : ReadPhase F :=
  if cfg.fresh fetchedAt x.now then .returned secret (some (x.now - fetchedAt)) else .missed

/-- A secret is cached. -/
def stored (x : VaultRun F) (path : Str) (secret : Issued F) : VaultRun F :=
  { x with
    client := x.client.store path x.now secret.data
    origin := Function.update x.origin path secret.issuedAt }

/-- The moves. A read fails when the client is not configured, when it gets no token, or when the
fetch gives no secret. -/
inductive Step (cfg : VaultConfig) : VaultRun F → VaultMove F → VaultRun F → Prop
  | tick {x : VaultRun F} {now : ℚ} (h : x.now ≤ now) :
    Step cfg x (.tick now) { x with now := now, step := x.step + 1 }
  | login {x : VaultRun F} (token : PyVal F) (expiresAt : FloatValue) :
    Step cfg x (.login token expiresAt)
      { x with
        client := { x.client with k8sToken := token, k8sTokenExpiresAt := expiresAt }
        step := x.step + 1 }
  | read {x : VaultRun F} {i : ℕ} (path : Str) (h : x.reads i = none) :
    Step cfg x (.read i path) (x.readAt i ⟨path, x.step, .started⟩ .started)
  | lookup {x : VaultRun F} {i : ℕ} {r : Reading F} (h : x.reads i = some r)
    (hphase : r.phase = .started) (hconfigured : cfg.isConfigured = true) :
    Step cfg x (.lookup i) (x.readAt i r (x.lookup r.path))
  | check {x : VaultRun F} {i : ℕ} {r : Reading F} {fetchedAt : ℚ} {secret : Issued F}
    (h : x.reads i = some r) (hphase : r.phase = .found fetchedAt secret) :
    Step cfg x (.check i) (x.readAt i r (x.checked cfg fetchedAt secret))
  | issue {x : VaultRun F} {i : ℕ} {r : Reading F} (h : x.reads i = some r)
    (hphase : r.phase = .missed) : Step cfg x (.issue i) (x.readAt i r (.fetching x.step))
  | answer {x : VaultRun F} {i n : ℕ} {r : Reading F} (data : PyVal F) (h : x.reads i = some r)
    (hphase : r.phase = .fetching n) :
    Step cfg x (.answer i data) (x.readAt i r (.fetched ⟨data, n⟩))
  | fail {x : VaultRun F} {i : ℕ} {r : Reading F} (h : x.reads i = some r)
    (hphase : r.phase = .started ∧ cfg.isConfigured = false ∨ r.phase = .missed ∨
      ∃ n, r.phase = .fetching n) :
    Step cfg x (.fail i) (x.readAt i r .failed)
  | store {x : VaultRun F} {i : ℕ} {r : Reading F} {secret : Issued F} (h : x.reads i = some r)
    (hphase : r.phase = .fetched secret) :
    Step cfg x (.store i) ((x.stored r.path secret).readAt i r (.returned secret none))
  | invalidate {x : VaultRun F} {j : ℕ} (target : Option Str) (h : x.drops j = none) :
    Step cfg x (.invalidate j target) (x.dropAt j ⟨target, x.step, .started⟩ .started)
  | drop {x : VaultRun F} {j : ℕ} {v : Invalidation} (h : x.drops j = some v)
    (hphase : v.phase = .started) :
    Step cfg x (.drop j) (({ x with client := x.client.drop v.target } : VaultRun F).dropAt j v .dropped)
  | finish {x : VaultRun F} {j : ℕ} {v : Invalidation} (h : x.drops j = some v)
    (hphase : v.phase = .dropped) :
    Step cfg x (.finish j)
      (({ x with client := x.client.forget v.target } : VaultRun F).dropAt j v (.returned x.step))

/-- No secret is dropped while a fetch of it is in flight that was issued before the invalidation
started. -/
def Undisturbed (x : VaultRun F) : VaultMove F → Prop
  | .drop j => ∀ v, x.drops j = some v → ∀ i r n, x.reads i = some r → v.Covers r.path →
      r.phase.InFlight n → v.startedAt ≤ n
  | _ => True

/-! ## What invalidations keep -/

/-- Once an invalidation has dropped its secrets, what the cache has for its paths and what is in
flight for them was fetched after it started, and so was what later reads have. -/
structure Clean (x : VaultRun F) : Prop where
  readsBefore : ∀ i r, x.reads i = some r → r.startedAt < x.step
  dropsBefore : ∀ j v, x.drops j = some v → v.startedAt < x.step
  cached : ∀ j v, x.drops j = some v → v.phase ≠ .started → ∀ path, v.Covers path →
    x.client.cache path ≠ none → v.startedAt ≤ x.origin path
  inFlight : ∀ j v, x.drops j = some v → v.phase ≠ .started → ∀ i r n, x.reads i = some r →
    v.Covers r.path → r.phase.InFlight n → v.startedAt ≤ n
  later : ∀ j v n, x.drops j = some v → v.phase = .returned n → ∀ i r secret,
    x.reads i = some r → n < r.startedAt → v.Covers r.path → r.phase.Holds secret →
      v.startedAt ≤ secret.issuedAt

section Clean

variable {x : VaultRun F} {i j : ℕ} {r : Reading F} {v : Invalidation} {path : Str}

theorem clean_of_starts (h : x.Starts) : Clean x := by
  constructor
  · intro i r hr
    rw [h.reads] at hr
    cases hr
  · intro j v hv
    rw [h.drops] at hv
    cases hv
  · intro j v hv
    rw [h.drops] at hv
    cases hv
  · intro j v hv
    rw [h.drops] at hv
    cases hv
  · intro j v n hv
    rw [h.drops] at hv
    cases hv

theorem reads_readAt {phase : ReadPhase F} {i' : ℕ} {r' : Reading F}
    (h : (x.readAt i r phase).reads i' = some r') :
    r' = { r with phase := phase } ∨ x.reads i' = some r' := by
  by_cases hi : i' = i
  · subst hi
    exact Or.inl (Option.some.inj (h.symm.trans (Function.update_self ..)))
  · exact Or.inr ((Function.update_of_ne hi _ _).symm.trans h)

theorem drops_dropAt {phase : DropPhase} {j' : ℕ} {v' : Invalidation}
    (h : (x.dropAt j v phase).drops j' = some v') :
    v' = { v with phase := phase } ∨ x.drops j' = some v' := by
  by_cases hj : j' = j
  · subst hj
    exact Or.inl (Option.some.inj (h.symm.trans (Function.update_self ..)))
  · exact Or.inr ((Function.update_of_ne hj _ _).symm.trans h)

/-- A read moves on: what it has in flight and what it holds is new enough. -/
theorem Clean.readAt (h : Clean x) {phase : ReadPhase F} (hstarted : r.startedAt ≤ x.step)
    (hflight : ∀ j v, x.drops j = some v → v.phase ≠ .started → v.Covers r.path →
      ∀ n, phase.InFlight n → v.startedAt ≤ n)
    (hholds : ∀ j v n, x.drops j = some v → v.phase = .returned n → n < r.startedAt →
      v.Covers r.path → ∀ secret, phase.Holds secret → v.startedAt ≤ secret.issuedAt) :
    Clean (x.readAt i r phase) := by
  constructor
  · intro i' r' hr'
    rcases reads_readAt hr' with rfl | hr'
    · exact Nat.lt_succ_of_le hstarted
    · exact Nat.lt_succ_of_lt (h.readsBefore i' r' hr')
  · intro j v hv
    exact Nat.lt_succ_of_lt (h.dropsBefore j v hv)
  · exact h.cached
  · intro j v hv hphase i' r' n hr' hcovers hn
    rcases reads_readAt hr' with rfl | hr'
    · exact hflight j v hv hphase hcovers n hn
    · exact h.inFlight j v hv hphase i' r' n hr' hcovers hn
  · intro j v n hv hphase i' r' secret hr' hlt hcovers hsecret
    rcases reads_readAt hr' with rfl | hr'
    · exact hholds j v n hv hphase hlt hcovers secret hsecret
    · exact h.later j v n hv hphase i' r' secret hr' hlt hcovers hsecret

/-- An invalidation moves on: what there is of its paths is new enough, and no read has started
after it has returned. -/
theorem Clean.dropAt (h : Clean x) {phase : DropPhase} (hstarted : v.startedAt ≤ x.step)
    (hcached : phase ≠ .started → ∀ path, v.Covers path → x.client.cache path ≠ none →
      v.startedAt ≤ x.origin path)
    (hflight : phase ≠ .started → ∀ i r n, x.reads i = some r → v.Covers r.path →
      r.phase.InFlight n → v.startedAt ≤ n)
    (hreturned : ∀ n, phase = .returned n → n = x.step) : Clean (x.dropAt j v phase) := by
  constructor
  · intro i r hr
    exact Nat.lt_succ_of_lt (h.readsBefore i r hr)
  · intro j' v' hv'
    rcases drops_dropAt hv' with rfl | hv'
    · exact Nat.lt_succ_of_le hstarted
    · exact Nat.lt_succ_of_lt (h.dropsBefore j' v' hv')
  · intro j' v' hv' hphase path hcovers hentry
    rcases drops_dropAt hv' with rfl | hv'
    · exact hcached hphase path hcovers hentry
    · exact h.cached j' v' hv' hphase path hcovers hentry
  · intro j' v' hv' hphase i r n hr hcovers hn
    rcases drops_dropAt hv' with rfl | hv'
    · exact hflight hphase i r n hr hcovers hn
    · exact h.inFlight j' v' hv' hphase i r n hr hcovers hn
  · intro j' v' n hv' hphase i r secret hr hlt hcovers hsecret
    rcases drops_dropAt hv' with rfl | hv'
    · -- the reads there are have started before now
      have hbefore := h.readsBefore i r hr
      rw [hreturned n hphase] at hlt
      omega
    · exact h.later j' v' n hv' hphase i r secret hr hlt hcovers hsecret

/-- Secrets may leave the cache. -/
theorem Clean.client (h : Clean x) {client : VaultState F}
    (hcache : ∀ path, client.cache path ≠ none → x.client.cache path ≠ none) :
    Clean { x with client := client } where
  readsBefore := h.readsBefore
  dropsBefore := h.dropsBefore
  cached := fun j v hv hphase path hcovers hentry =>
    h.cached j v hv hphase path hcovers (hcache path hentry)
  inFlight := h.inFlight
  later := h.later

/-- A secret that is new enough may be cached. -/
theorem Clean.stored (h : Clean x) {secret : Issued F}
    (hsecret : ∀ j v, x.drops j = some v → v.phase ≠ .started → v.Covers path →
      v.startedAt ≤ secret.issuedAt) : Clean (x.stored path secret) := by
  refine ⟨h.readsBefore, h.dropsBefore, ?_, h.inFlight, h.later⟩
  intro j v hv hphase path' hcovers hentry
  by_cases hpath : path' = path
  · subst hpath
    rw [show (x.stored path' secret).origin path' = secret.issuedAt from Function.update_self ..]
    exact hsecret j v hv hphase hcovers
  · rw [show (x.stored path secret).origin path' = x.origin path' from Function.update_of_ne hpath _ _]
    apply h.cached j v hv hphase path' hcovers
    rwa [show (x.stored path secret).client.cache path' = x.client.cache path' from
      Function.update_of_ne hpath _ _] at hentry

/-- A step that changes neither the calls nor the cache. -/
theorem Clean.idle (h : Clean x) (now : ℚ) : Clean { x with now := now, step := x.step + 1 } where
  readsBefore := fun i r hr => Nat.lt_succ_of_lt (h.readsBefore i r hr)
  dropsBefore := fun j v hv => Nat.lt_succ_of_lt (h.dropsBefore j v hv)
  cached := h.cached
  inFlight := h.inFlight
  later := h.later

theorem cache_drop {s : VaultState F} {target : Option Str} (h : (s.drop target).cache path ≠ none) :
    s.cache path ≠ none ∧ target ≠ none ∧ target ≠ some path := by
  cases target with
  | none => exact absurd rfl h
  | some target =>
    by_cases hpath : path = target
    · subst hpath
      exact absurd (Function.update_self ..) h
    · rw [show (s.drop (some target)).cache path = s.cache path from
        Function.update_of_ne hpath _ _] at h
      exact ⟨h, Option.some_ne_none _, fun htarget => hpath (Option.some.inj htarget).symm⟩

theorem cache_forget (s : VaultState F) (target : Option Str) : (s.forget target).cache = s.cache := by
  cases target with
  | none => rfl
  | some target => rfl

/-- A move keeps what invalidations keep, as long as it disturbs no fetch. -/
theorem clean_step {cfg : VaultConfig} {m : VaultMove F} {x' : VaultRun F} (h : Clean x)
    (hallowed : Undisturbed x m) (hstep : Step cfg x m x') : Clean x' := by
  have hreturned : ∀ {v : Invalidation} {n : ℕ}, v.phase = .returned n → v.phase ≠ .started := by
    intro v n hphase hstarted
    rw [hphase] at hstarted
    cases hstarted
  cases hstep with
  | tick hnow => exact h.idle _
  | login token expiresAt => exact (h.idle x.now).client fun path hentry => hentry
  | read path hnone =>
    apply h.readAt (Nat.le_refl _)
    · intro j v hv hphase hcovers n hn
      exact absurd hn id
    · intro j v n hv hphase hlt hcovers secret hsecret
      exact absurd hsecret id
  | @lookup i r hr hphase hconfigured =>
    have hnow := Nat.le_of_lt (h.readsBefore i r hr)
    unfold VaultRun.lookup
    cases hentry : x.client.cache r.path with
    | none =>
      apply h.readAt hnow
      · intro j v hv hphase hcovers n hn
        exact absurd hn id
      · intro j v n hv hphase hlt hcovers secret hsecret
        exact absurd hsecret id
    | some entry =>
      apply h.readAt hnow
      · intro j v hv hphase hcovers n hn
        exact absurd hn id
      · rintro j v n hv hphase hlt hcovers secret rfl
        apply h.cached j v hv (hreturned hphase) r.path hcovers
        rw [hentry]
        exact Option.some_ne_none _
  | @check i r fetchedAt secret hr hphase =>
    have hnow := Nat.le_of_lt (h.readsBefore i r hr)
    unfold checked
    split_ifs with hfresh
    · apply h.readAt hnow
      · intro j v hv hphase hcovers n hn
        exact absurd hn id
      · rintro j v n hv hreturns hlt hcovers _ rfl
        apply h.later j v n hv hreturns i r secret hr hlt hcovers
        rw [hphase]
        rfl
    · apply h.readAt hnow
      · intro j v hv hphase hcovers n hn
        exact absurd hn id
      · intro j v n hv hphase hlt hcovers secret hsecret
        exact absurd hsecret id
  | @issue i r hr hphase =>
    apply h.readAt (Nat.le_of_lt (h.readsBefore i r hr))
    · rintro j v hv hdropped hcovers n rfl
      exact Nat.le_of_lt (h.dropsBefore j v hv)
    · intro j v n hv hphase hlt hcovers secret hsecret
      exact absurd hsecret id
  | @answer i n r data hr hphase =>
    apply h.readAt (Nat.le_of_lt (h.readsBefore i r hr))
    · rintro j v hv hdropped hcovers _ rfl
      apply h.inFlight j v hv hdropped i r n hr hcovers
      rw [hphase]
      rfl
    · intro j v n hv hphase hlt hcovers secret hsecret
      exact absurd hsecret id
  | @fail i r hr hphase =>
    apply h.readAt (Nat.le_of_lt (h.readsBefore i r hr))
    · intro j v hv hdropped hcovers n hn
      exact absurd hn id
    · intro j v n hv hphase hlt hcovers secret hsecret
      exact absurd hsecret id
  | @store i r secret hr hphase =>
    -- the secret was in flight
    have hsecret : ∀ j v, x.drops j = some v → v.phase ≠ .started → v.Covers r.path →
        v.startedAt ≤ secret.issuedAt := by
      intro j v hv hdropped hcovers
      apply h.inFlight j v hv hdropped i r _ hr hcovers
      rw [hphase]
      rfl
    apply (h.stored hsecret).readAt (Nat.le_of_lt (h.readsBefore i r hr))
    · intro j v hv hdropped hcovers n hn
      exact absurd hn id
    · rintro j v n hv hreturns hlt hcovers _ rfl
      exact hsecret j v hv (hreturned hreturns) hcovers
  | @invalidate j target hnone =>
    apply h.dropAt (Nat.le_refl _)
    · intro hphase
      exact absurd rfl hphase
    · intro hphase
      exact absurd rfl hphase
    · intro n hphase
      cases hphase
  | @drop j v hv hphase =>
    have hclient : Clean { x with client := x.client.drop v.target } :=
      h.client fun path hentry => (cache_drop hentry).1
    apply hclient.dropAt (Nat.le_of_lt (h.dropsBefore j v hv))
    · intro _ path hcovers hentry
      rcases cache_drop hentry with ⟨-, hall, hone⟩
      rcases hcovers with hcovers | hcovers
      · exact absurd hcovers hall
      · exact absurd hcovers hone
    · intro _ i r n hr hcovers hn
      exact hallowed v hv i r n hr hcovers hn
    · intro n hphase
      cases hphase
  | @finish j v hv hphase =>
    have hdropped : v.phase ≠ .started := by
      rw [hphase]
      exact DropPhase.noConfusion
    have hclient : Clean { x with client := x.client.forget v.target } := by
      apply h.client
      intro path hentry
      rwa [cache_forget] at hentry
    apply hclient.dropAt (Nat.le_of_lt (h.dropsBefore j v hv))
    · intro _ path hcovers hentry
      apply h.cached j v hv hdropped path hcovers
      rwa [show ({ x with client := x.client.forget v.target } : VaultRun F).client.cache =
        x.client.cache from cache_forget _ _] at hentry
    · intro _ i r n hr hcovers hn
      exact h.inFlight j v hv hdropped i r n hr hcovers hn
    · rintro n ⟨⟩
      rfl

end Clean

/-! ## Ages -/

/-- A secret that is returned from the cache is younger than the time to live. -/
def Young (cfg : VaultConfig) (phase : ReadPhase F) : Prop :=
  ∀ secret age, phase = .returned secret (some age) → cfg.cacheTtl.above age = true

/-- Every read is so. -/
def AllYoung (cfg : VaultConfig) (x : VaultRun F) : Prop :=
  ∀ i r, x.reads i = some r → Young cfg r.phase

theorem young_step {cfg : VaultConfig} {x x' : VaultRun F} {m : VaultMove F} (h : AllYoung cfg x)
    (hstep : Step cfg x m x') : AllYoung cfg x' := by
  have hmoved : ∀ {y : VaultRun F} {i : ℕ} {r : Reading F} {phase : ReadPhase F},
      y.reads = x.reads → Young cfg phase → AllYoung cfg (y.readAt i r phase) := by
    intro y i r phase hreads hphase i' r' hr'
    rcases reads_readAt hr' with rfl | hr'
    · exact hphase
    · rw [hreads] at hr'
      exact h i' r' hr'
  cases hstep with
  | tick hnow => exact h
  | login token expiresAt => exact h
  | read path hnone => exact hmoved rfl (by rintro secret age ⟨⟩)
  | @lookup i r hr hphase hconfigured =>
    apply hmoved rfl
    unfold VaultRun.lookup
    split
    · rintro secret age ⟨⟩
    · rintro secret age ⟨⟩
  -- the check is where a reading gets its age, and it lets a fresh one through only
  | @check i r fetchedAt secret hr hphase =>
    apply hmoved rfl
    unfold checked
    split_ifs with hfresh
    · rintro _ _ ⟨⟩
      exact hfresh
    · rintro _ _ ⟨⟩
  | issue hr hphase => exact hmoved rfl (by rintro secret age ⟨⟩)
  | answer data hr hphase => exact hmoved rfl (by rintro secret age ⟨⟩)
  | fail hr hphase => exact hmoved rfl (by rintro secret age ⟨⟩)
  | store hr hphase => exact hmoved rfl (by rintro secret age ⟨⟩)
  | invalidate target hnone => exact h
  | drop hv hphase => exact h
  | finish hv hphase => exact h

/-- In every interleaving of reads and invalidations in which no secret is dropped while an older
fetch of it is in flight: a read that starts after an invalidation of its path has returned does not
return what was fetched from before the invalidation started. In every interleaving at all a secret
from the cache is younger than the time to live. -/
theorem invalidations_hold (cfg : VaultConfig) (x : VaultRun F) :
    (Reachable Starts (Step cfg) Undisturbed x →
      ∀ i r j v n secret age, x.reads i = some r → r.phase = .returned secret age →
        x.drops j = some v → v.phase = .returned n → v.Covers r.path → n < r.startedAt →
          v.startedAt ≤ secret.issuedAt) ∧
    (Reachable Starts (Step cfg) (fun _ _ => True) x →
      ∀ i r secret age, x.reads i = some r → r.phase = .returned secret (some age) →
        cfg.cacheTtl.above age = true) := by
  constructor
  · intro h i r j v n secret age hr hphase hv hreturned hcovers hlt
    have hclean : Clean x := by
      refine h.invariant (fun y hy => clean_of_starts hy) ?_
      intro y m y' _ hy hallowed hstep
      exact clean_step hy hallowed hstep
    apply hclean.later j v n hv hreturned i r secret hr hlt hcovers
    rw [hphase]
    rfl
  · intro h i r secret age hr hphase
    have hyoung : AllYoung cfg x := by
      refine h.invariant ?_ ?_
      · intro y hy i r hr
        rw [hy.reads] at hr
        cases hr
      · intro y m y' _ hy _ hstep
        exact young_step hy hstep
    exact hyoung i r hr secret age hphase

/-- A new client, at the time zero. -/
def idle : VaultRun NanFloat := ⟨.new, fun _ => 0, 0, 0, fun _ => none, fun _ => none⟩

/-- A secret is read, invalidated, and read again twice: the last read has from the cache what was
fetched after the invalidation. -/
theorem invalidations_hold_example : ∃ (x : VaultRun NanFloat) (r : Reading NanFloat)
    (v : Invalidation) (n : ℕ) (secret : Issued NanFloat) (age : ℚ),
    Reachable Starts (Step tokenConfig) Undisturbed x ∧ x.reads 2 = some r ∧
      r.phase = .returned secret (some age) ∧ x.drops 0 = some v ∧ v.phase = .returned n ∧
      n < r.startedAt ∧ v.startedAt ≤ secret.issuedAt ∧ tokenConfig.cacheTtl.above age = true := by
  have h₀ : Reachable Starts (Step tokenConfig) Undisturbed idle := .start ⟨rfl, rfl, rfl⟩
  have h₁ := h₀.move (by trivial) (Step.read (i := 0) (py "kv/ops") rfl)
  have h₂ := h₁.move (by trivial) (Step.lookup (i := 0) rfl rfl rfl)
  have h₃ := h₂.move (by trivial) (Step.issue (i := 0) rfl rfl)
  have h₄ := h₃.move (by trivial) (Step.answer (i := 0) (.dict []) rfl rfl)
  have h₅ := h₄.move (by trivial) (Step.store (i := 0) rfl rfl)
  have h₆ := h₅.move (by trivial) (Step.invalidate (j := 0) (some (py "kv/ops")) rfl)
  have h₇ := h₆.move (by
    -- nothing is in flight when the secret is dropped
    rintro v - i r n hr - hflight
    cases i with
    | zero =>
      cases hr
      exact hflight.elim
    | succ i => cases hr) (Step.drop (j := 0) rfl rfl)
  have h₈ := h₇.move (by trivial) (Step.finish (j := 0) rfl rfl)
  have h₉ := h₈.move (by trivial) (Step.read (i := 1) (py "kv/ops") rfl)
  have h₁₀ := h₉.move (by trivial) (Step.lookup (i := 1) rfl rfl rfl)
  have h₁₁ := h₁₀.move (by trivial) (Step.issue (i := 1) rfl rfl)
  have h₁₂ := h₁₁.move (by trivial) (Step.answer (i := 1) (.dict []) rfl rfl)
  have h₁₃ := h₁₂.move (by trivial) (Step.store (i := 1) rfl rfl)
  have h₁₄ := h₁₃.move (by trivial) (Step.read (i := 2) (py "kv/ops") rfl)
  have h₁₅ := h₁₄.move (by trivial) (Step.lookup (i := 2) rfl rfl rfl)
  have h₁₆ := h₁₅.move (by trivial) (Step.check (i := 2) rfl rfl)
  have hfresh : tokenConfig.fresh 0 0 = true := by decide +kernel
  rcases invalidations_hold tokenConfig _ with ⟨hlater, hyoung⟩
  refine ⟨_, _, _, 7, ⟨.dict [], 10⟩, 0 - 0, h₁₆, rfl, if_pos hfresh, rfl, rfl, by decide, ?_, ?_⟩
  · exact hlater h₁₆ 2 _ 0 _ 7 ⟨.dict [], 10⟩ (some (0 - 0)) rfl (if_pos hfresh) rfl rfl
      (Or.inr rfl) (by decide)
  · exact hyoung (h₁₆.mono fun _ _ _ => trivial) 2 _ ⟨.dict [], 10⟩ (0 - 0) rfl (if_pos hfresh)

/-! ## A read on its own -/

section Alone

variable {cfg : VaultConfig} {x : VaultRun F} {i : ℕ} {rd : Reading F} {asked : List (VaultMade F)}
variable {s' : VaultState F} {r : Except SecretError (PyVal F)}

/-- The times that were read. -/
def timesOf : List (VaultMade F) → List ℚ
  | [] => []
  | ⟨.time, now⟩ :: asked => (now : ℚ) :: timesOf asked
  | _ :: asked => timesOf asked

theorem timesOf_append (before after : List (VaultMade F)) :
    timesOf (before ++ after) = timesOf before ++ timesOf after := by
  induction before with
  | nil => rfl
  | cons m before ih =>
    rcases m with ⟨call, answer⟩
    cases call with
    | time => exact congrArg (answer :: ·) ih
    | _ => exact ih

/-- A read has ended with a result. -/
def Ended (phase : ReadPhase F) : Except SecretError (PyVal F) → Prop
  | .ok data => ∃ secret age, phase = .returned secret age ∧ secret.data = data
  | .error _ => phase = .failed

/-- The moves of one read lead to what `get_secret` leaves and returns. -/
def Leads (cfg : VaultConfig) (x : VaultRun F) (i : ℕ) (s' : VaultState F)
    (r : Except SecretError (PyVal F)) : Prop :=
  ∃ x' rd', Reachable (fun y => y = x) (Step cfg) Undisturbed x' ∧ x'.client = s' ∧
    x'.reads i = some rd' ∧ Ended rd'.phase r

/-- One move of the read, and then the others. -/
theorem Leads.move {m : VaultMove F} {x' : VaultRun F} (hstep : Step cfg x m x')
    (hm : Undisturbed x m) (h : Leads cfg x' i s' r) : Leads cfg x i s' r := by
  rcases h with ⟨y, rd', hreach, hclient, hread, hended⟩
  have hstart : Reachable (fun y => y = x) (Step cfg) Undisturbed x := .start rfl
  exact ⟨y, rd', (hstart.move hm hstep).trans hreach, hclient, hread, hended⟩

theorem readAt_self (phase : ReadPhase F) :
    (x.readAt i rd phase).reads i = some { rd with phase := phase } := Function.update_self ..

variable [PyRuntime F] [FloatValues F]

/-- A read that has to fetch. -/
theorem leads_fetchSecret (hread : x.reads i = some rd) (hphase : rd.phase = .missed)
    (h : Prog.Runs (fetchSecret cfg x.client rd.path) asked (s', r))
    (hclock : ∀ t ∈ timesOf asked, x.now ≤ t) : Leads cfg x i s' r := by
  unfold fetchSecret at h
  rcases Prog.runs_bind_iff.mp h with ⟨⟨s₁, outcome⟩, before, after, rfl, htoken, hafter⟩
  have hresolved : TokenResolved cfg IsMapping x.client s₁ before outcome := runs_resolveToken htoken
  have hclient : s₁ = { x.client with
      k8sToken := s₁.k8sToken, k8sTokenExpiresAt := s₁.k8sTokenExpiresAt } := by
    rcases s₁ with ⟨cache, token, expiresAt⟩
    rw [show cache = x.client.cache from hresolved.cache]
  -- the login, if there is one
  refine Leads.move (Step.login s₁.k8sToken s₁.k8sTokenExpiresAt) trivial ?_
  rw [← hclient]
  rcases outcome with e | token
  · rcases Prog.runs_pure_iff.mp hafter with ⟨rfl, heq⟩
    cases heq
    refine Leads.move (Step.fail (i := i) (r := rd) hread (Or.inr (Or.inl hphase))) trivial ?_
    exact ⟨_, _, .start rfl, rfl, readAt_self _, rfl⟩
  · rcases Prog.runs_bind_iff.mp hafter with ⟨fetched, _, rest, rfl, hget, hrest⟩
    rcases Prog.runs_call_iff.mp hget with rfl
    refine Leads.move (Step.issue (i := i) (r := rd) hread hphase) trivial ?_
    cases hsecret : secretOf cfg rd.path fetched with
    | error e =>
      simp only [hsecret, Prog.runs_pure_iff] at hrest
      rcases hrest with ⟨rfl, heq⟩
      cases heq
      refine Leads.move (Step.fail (i := i) (readAt_self _) (Or.inr (Or.inr ⟨_, rfl⟩))) trivial ?_
      exact ⟨_, _, .start rfl, rfl, readAt_self _, rfl⟩
    | ok data =>
      simp only [hsecret, Prog.runs_bind_iff, Prog.runs_call_iff, Prog.runs_pure_iff] at hrest
      rcases hrest with ⟨now, _, _, rfl, rfl, rfl, heq⟩
      cases heq
      have hnow : x.now ≤ now := by
        refine hclock now ?_
        rw [timesOf_append]
        exact List.mem_append_right _ List.mem_cons_self
      refine Leads.move (Step.answer (i := i) data (readAt_self _) rfl) trivial ?_
      refine Leads.move (Step.tick hnow) trivial ?_
      refine Leads.move (Step.store (i := i) (readAt_self _) rfl) trivial ?_
      exact ⟨_, _, .start rfl, rfl, readAt_self _, _, _, rfl, rfl⟩

/-- A run of `get_secret` is a read whose moves follow each other. -/
theorem leads_getSecret {path : Str} (hread : x.reads i = none)
    (h : Prog.Runs (getSecret cfg x.client path) asked (s', r))
    (hclock : (x.now :: timesOf asked).Pairwise (· ≤ ·)) : Leads cfg x i s' r := by
  refine Leads.move (Step.read path hread) trivial ?_
  unfold getSecret at h
  by_cases hconfigured : cfg.isConfigured = true
  · simp only [hconfigured, Bool.not_true, Bool.false_eq_true, if_false] at h
    refine Leads.move (Step.lookup (i := i) (readAt_self _) rfl hconfigured) trivial ?_
    rcases List.pairwise_cons.mp hclock with ⟨hlater, htimes⟩
    cases hcache : x.client.cache path with
    | none =>
      rw [hcache] at h
      -- nothing is cached: the read goes on as a fetch
      have hmissed : VaultRun.lookup (x.readAt i ⟨path, x.step, .started⟩ .started) path = .missed := by
        unfold VaultRun.lookup
        rw [show (x.readAt i ⟨path, x.step, .started⟩ .started).client = x.client from rfl, hcache]
      rw [hmissed]
      exact leads_fetchSecret (readAt_self _) rfl h hlater
    | some entry =>
      rcases entry with ⟨fetchedAt, data⟩
      simp only [hcache] at h
      rcases Prog.runs_bind_iff.mp h with ⟨now, _, rest, rfl, htime, hrest⟩
      rcases Prog.runs_call_iff.mp htime with rfl
      rcases List.pairwise_cons.mp htimes with ⟨hrestLater, -⟩
      -- something is: the clock is read, and the age of the entry decides
      have hfound : VaultRun.lookup (x.readAt i ⟨path, x.step, .started⟩ .started) path =
          .found fetchedAt ⟨data, x.origin path⟩ := by
        unfold VaultRun.lookup
        rw [show (x.readAt i ⟨path, x.step, .started⟩ .started).client = x.client from rfl, hcache]
        rfl
      rw [hfound]
      refine Leads.move (Step.tick (hlater now List.mem_cons_self)) trivial ?_
      refine Leads.move (Step.check (i := i) (readAt_self _) rfl) trivial ?_
      unfold checked
      by_cases hfresh : cfg.fresh fetchedAt now = true
      · rw [if_pos hfresh] at hrest ⊢
        rcases Prog.runs_pure_iff.mp hrest with ⟨rfl, heq⟩
        cases heq
        exact ⟨_, _, .start rfl, rfl, readAt_self _, _, _, rfl, rfl⟩
      · rw [if_neg hfresh] at hrest ⊢
        exact leads_fetchSecret (readAt_self _) rfl hrest hrestLater
  · simp only [hconfigured, Bool.not_false, if_true, Prog.runs_pure_iff] at h
    rcases h with ⟨rfl, heq⟩
    cases heq
    have hnot : cfg.isConfigured = false := by simpa using hconfigured
    refine Leads.move (Step.fail (i := i) (readAt_self _) (Or.inl ⟨rfl, hnot⟩)) trivial ?_
    exact ⟨_, _, .start rfl, rfl, readAt_self _, rfl⟩

end Alone

/-! ## A fetch that is overtaken -/

/-- A fetch is issued, its path is invalidated, and then it is answered. A second read finds in the
cache what was fetched from before the invalidation. -/
theorem stale_read :
    ¬ ∀ (cfg : VaultConfig) (x : VaultRun NanFloat),
      Reachable Starts (Step cfg) (fun _ _ => True) x →
      ∀ i r j v n secret age, x.reads i = some r → r.phase = .returned secret age →
        x.drops j = some v → v.phase = .returned n → v.Covers r.path → n < r.startedAt →
          v.startedAt ≤ secret.issuedAt := by
  intro hclaim
  have h₀ : Reachable Starts (Step tokenConfig) (fun _ _ => True) idle := .start ⟨rfl, rfl, rfl⟩
  have h₁ := h₀.move trivial (Step.read (i := 0) (py "kv/ops") rfl)
  have h₂ := h₁.move trivial (Step.lookup (i := 0) rfl rfl rfl)
  have h₃ := h₂.move trivial (Step.issue (i := 0) rfl rfl)
  have h₄ := h₃.move trivial (Step.invalidate (j := 0) (some (py "kv/ops")) rfl)
  have h₅ := h₄.move trivial (Step.drop (j := 0) rfl rfl)
  have h₆ := h₅.move trivial (Step.finish (j := 0) rfl rfl)
  have h₇ := h₆.move trivial (Step.answer (i := 0) (.dict []) rfl rfl)
  have h₈ := h₇.move trivial (Step.store (i := 0) rfl rfl)
  have h₉ := h₈.move trivial (Step.read (i := 1) (py "kv/ops") rfl)
  have h₁₀ := h₉.move trivial (Step.lookup (i := 1) rfl rfl rfl)
  have h₁₁ := h₁₀.move trivial (Step.check (i := 1) rfl rfl)
  have hfresh : tokenConfig.fresh 0 0 = true := by decide +kernel
  have hlate := hclaim tokenConfig _ h₁₁ 1 _ 0 _ 5 ⟨.dict [], 2⟩ (some (0 - 0)) rfl (if_pos hfresh) rfl
    rfl (Or.inr rfl) (by decide)
  revert hlate
  decide

end VaultRun

end AutoHeal
