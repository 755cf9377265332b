import AutoHeal.Outside.VaultClient

/-!
# Vault fails closed, or not

Callers of the Vault client fail closed on `VaultUnavailableError` alone. `Fine` is what Vault, the
proxy in front of it and the token file may answer without another exception, or a secret that is
no mapping, coming out of `get_secret`.
-/

namespace AutoHeal

section Errors

variable {F : Type} [PyRuntime F] [FloatValues F]

/-! ## What may be answered -/

/-- A lease whose deadline can be computed. -/
def LeaseUsable (cfg : VaultConfig) (lease : PyVal F) : Prop :=
  ∃ n, numberOf lease = some n ∧ (n.notPositive = true ∨
    ∃ left x, n.sub cfg.tokenRefreshBuffer = .ok left ∧ left.max1.toFloat = .ok x)

/-- The value is a mapping. -/
def IsMapping (v : PyVal F) : Prop := ∃ items, v = .dict items

/-- Neither the request nor the decoding of a body that is looked at raises an exception that is
not expected. -/
def NoOther (fetched : Fetched F) : Prop :=
  (∀ e, fetched ≠ .raised e) ∧ ∀ text e, fetched ≠ .response 200 text (.error (.raised e))

/-- What is answered is one of the failures that are expected, or of use: a lease has a deadline,
and a secret is as it should be. -/
def Fine (cfg : VaultConfig) (P : PyVal F → Prop) : VaultMade F → Prop
  | ⟨.time, _⟩ => True
  | ⟨.readFile _, answer⟩ => ∀ e, (answer : FileRead) ≠ .raised e
  | ⟨.post _ _ _ _, answer⟩ => NoOther (answer : Fetched F) ∧ ∀ text json token lease,
      (answer : Fetched F) = .response 200 text json → loginData json = .ok (token, lease) →
        LeaseUsable cfg lease
  | ⟨.get _ _, answer⟩ => NoOther (answer : Fetched F) ∧ ∀ text json data,
      (answer : Fetched F) = .response 200 text json → secretData json = .ok data → P data

/-- No other exception than `VaultUnavailableError` is raised. -/
def NotRaised {α : Type} (r : Except SecretError α) : Prop := ∀ e, r ≠ .error (.raised e)

variable {cfg : VaultConfig} {s s' : VaultState F} {path : Str} {asked : List (VaultMade F)}
variable {P : PyVal F → Prop}

theorem notRaised_ok {α : Type} (a : α) : NotRaised (Except.ok a : Except SecretError α) := by
  intro e h
  cases h

theorem notRaised_unavailable {α : Type} (text : Str) :
    NotRaised (.error (.unavailable text) : Except SecretError α) := by
  intro e h
  cases h

theorem not_notRaised {α : Type} (e : Raised) :
    ¬ NotRaised (.error (.raised e) : Except SecretError α) := fun h => h e rfl

omit [PyRuntime F] [FloatValues F] in
theorem noOther_response {status : ℕ} {text : Str} {json : Except BodyError (PyVal F)}
    (h : status = 200 → ∀ e, json ≠ .error (.raised e)) :
    NoOther (.response status text json : Fetched F) := by
  refine ⟨?_, ?_⟩
  · rintro e ⟨⟩
  · rintro _ e ⟨⟩
    exact h rfl e rfl

omit [PyRuntime F] [FloatValues F] in
theorem noOther_requestException (text : Str) : NoOther (.requestException text : Fetched F) := by
  refine ⟨?_, ?_⟩
  · rintro e ⟨⟩
  · rintro _ e ⟨⟩

omit [FloatValues F] in
/-- What is taken out of a body raises nothing that the decoding of the body has not. -/
theorem subscript_ne_raised (name : Str) (v : PyVal F) (e : Raised) :
    subscript name v ≠ .error (.raised e) := by
  unfold subscript
  split
  · split <;> simp
  all_goals simp

omit [FloatValues F] in
theorem secretData_eq_raised {json : Except BodyError (PyVal F)} {e : Raised} :
    secretData json = .error (.raised e) ↔ json = .error (.raised e) := by
  rcases json with e' | body
  · exact Iff.rfl
  · refine iff_of_false ?_ (by simp)
    show ((subscript (py "data") body).bind fun data => subscript (py "data") data) ≠ _
    cases hdata : subscript (py "data") body with
    | error e' =>
      rintro ⟨⟩
      exact subscript_ne_raised _ _ _ hdata
    | ok data => exact subscript_ne_raised _ _ _

omit [FloatValues F] in
theorem loginData_eq_raised {json : Except BodyError (PyVal F)} {e : Raised} :
    loginData json = .error (.raised e) ↔ json = .error (.raised e) := by
  rcases json with e' | body
  · constructor
    all_goals
      rintro ⟨⟩
      rfl
  · refine iff_of_false ?_ (by simp)
    show ((subscript (py "auth") body).bind fun auth =>
      (subscript (py "client_token") auth).bind fun clientToken =>
        (subscript (py "lease_duration") auth).bind fun lease => .ok (clientToken, lease)) ≠ _
    cases hauth : subscript (py "auth") body with
    | error e' =>
      rintro ⟨⟩
      exact subscript_ne_raised _ _ _ hauth
    | ok auth =>
      cases htoken : subscript (py "client_token") auth with
      | error e' =>
        simp only [Except.bind, htoken]
        rintro ⟨⟩
        exact subscript_ne_raised _ _ _ htoken
      | ok token =>
        cases hlease : subscript (py "lease_duration") auth with
        | error e' =>
          simp only [Except.bind, htoken, hlease]
          rintro ⟨⟩
          exact subscript_ne_raised _ _ _ hlease
        | ok lease => simp [Except.bind, htoken, hlease]

/-- Whether a deadline can be computed does not depend on the time. -/
theorem deadline_isOk_iff (now : ℚ) (lease buffer : Number) :
    (∃ x, ((lease.sub buffer).bind fun left => left.max1.after now) = .ok x) ↔
      ∃ left x, lease.sub buffer = .ok left ∧ left.max1.toFloat = .ok x := by
  cases lease.sub buffer with
  | error e => simp [Except.bind]
  | ok left =>
    have hafter : ∀ x : Number, (∃ v, x.after now = .ok v) ↔ ∃ v, x.toFloat = .ok v := by
      intro x
      unfold Number.after
      cases x.toFloat with
      | error e => simp
      | ok v => simp
    simp only [Except.bind, hafter, Except.ok.injEq, exists_and_left, exists_eq_left']

theorem fine_time (P : PyVal F → Prop) (now : ℚ) : Fine cfg P (⟨.time, now⟩ : VaultMade F) := trivial

/-- The deadline of a lease is computed, or an exception is raised. -/
theorem runs_deadline {lease : PyVal F} {r : Except SecretError FloatValue}
    (h : Prog.Runs (deadline cfg lease) asked r) :
    (∀ m ∈ asked, Fine cfg P m) ∧ (NotRaised r ↔ LeaseUsable cfg lease) := by
  unfold deadline at h
  unfold LeaseUsable
  cases hnumber : numberOf lease with
  | none =>
    simp only [hnumber, Prog.runs_pure_iff] at h
    rcases h with ⟨rfl, rfl⟩
    refine ⟨by simp, iff_of_false (not_notRaised _) ?_⟩
    rintro ⟨n, hn, -⟩
    cases hn
  | some n =>
    simp only [hnumber, Option.some.injEq, exists_eq_left'] at h ⊢
    by_cases hpositive : n.notPositive = true
    · rw [if_pos hpositive] at h
      rcases Prog.runs_pure_iff.mp h with ⟨rfl, rfl⟩
      exact ⟨by simp, iff_of_true (notRaised_ok _) (Or.inl hpositive)⟩
    · rw [if_neg hpositive] at h
      -- the clock is read only for a lease that is a positive number
      rcases Prog.runs_bind_iff.mp h with ⟨now, _, rest, rfl, htime, hrest⟩
      rcases Prog.runs_call_iff.mp htime with rfl
      rw [← deadline_isOk_iff now, or_iff_right hpositive]
      cases hresult : (n.sub cfg.tokenRefreshBuffer).bind fun left => left.max1.after now with
      | error e =>
        simp only [hresult, Prog.runs_pure_iff] at hrest
        rcases hrest with ⟨rfl, rfl⟩
        refine ⟨?_, iff_of_false (not_notRaised _) (by simp)⟩
        exact List.forall_mem_singleton.mpr (fine_time P now)
      | ok v =>
        simp only [hresult, Prog.runs_pure_iff] at hrest
        rcases hrest with ⟨rfl, rfl⟩
        refine ⟨?_, iff_of_true (notRaised_ok _) ⟨v, rfl⟩⟩
        exact List.forall_mem_singleton.mpr (fine_time P now)

/-- The answer of Vault to the login is turned into a token, or an exception is raised. -/
theorem runs_loginWith {jwt : Str} {r : Except SecretError (PyVal F × FloatValue)}
    (h : Prog.Runs (loginWith cfg jwt) asked r) : NotRaised r ↔ ∀ m ∈ asked, Fine cfg P m := by
  unfold loginWith at h
  rcases Prog.runs_bind_iff.mp h with ⟨fetched, _, rest, rfl, hpost, hrest⟩
  rcases Prog.runs_call_iff.mp hpost with rfl
  rw [List.singleton_append, List.forall_mem_cons]
  rcases fetched with ⟨status, text, json⟩ | text | e
  · by_cases hstatus : status = 200
    · subst hstatus
      -- a response of 200 can still fail: its lease has to be a number that can be added
      have hfirst : Fine cfg P (⟨.post cfg.loginUrl cfg.namespaceHeader cfg.role jwt,
          .response 200 text json⟩ : VaultMade F) ↔
          (∀ e, loginData json ≠ .error (.raised e)) ∧
            ∀ token lease, loginData json = .ok (token, lease) → LeaseUsable cfg lease := by
        constructor
        · intro hfine
          refine ⟨fun e he => ?_, fun token lease hlogin => ?_⟩
          · exact hfine.1.2 text e (by rw [loginData_eq_raised.mp he])
          · exact hfine.2 text json token lease rfl hlogin
        · rintro ⟨hnot, husable⟩
          refine ⟨noOther_response fun _ e he => hnot e (loginData_eq_raised.mpr he), ?_⟩
          rintro _ _ token lease ⟨⟩ hlogin
          exact husable token lease hlogin
      rw [hfirst]
      cases hlogin : loginData json with
      | error error =>
        rcases error with text | e
        · simp only [ne_eq, not_true, if_false, hlogin, Prog.runs_pure_iff] at hrest
          rcases hrest with ⟨rfl, rfl⟩
          refine iff_of_true (notRaised_unavailable _) ⟨⟨?_, ?_⟩, by simp⟩
          · rintro e ⟨⟩
          · rintro token lease ⟨⟩
        · simp only [ne_eq, not_true, if_false, hlogin, Prog.runs_pure_iff] at hrest
          rcases hrest with ⟨rfl, rfl⟩
          exact iff_of_false (not_notRaised _) fun hfine => hfine.1.1 e rfl
      | ok data =>
        rcases data with ⟨token, lease⟩
        simp only [ne_eq, not_true, if_false, hlogin, Prog.runs_bind_iff] at hrest
        rcases hrest with ⟨outcome, before, after, rfl, hdeadline, hafter⟩
        rcases runs_deadline hdeadline with ⟨hfine, husable⟩
        -- nothing is asked after the deadline, and its exception is passed on as it is
        have hend : after = [] ∧ (NotRaised r ↔ NotRaised outcome) := by
          rcases outcome with (text | e) | x
          · rcases Prog.runs_pure_iff.mp hafter with ⟨rfl, rfl⟩
            exact ⟨rfl, iff_of_true (notRaised_unavailable _) (notRaised_unavailable _)⟩
          · rcases Prog.runs_pure_iff.mp hafter with ⟨rfl, rfl⟩
            exact ⟨rfl, iff_of_false (not_notRaised _) (not_notRaised _)⟩
          · rcases Prog.runs_pure_iff.mp hafter with ⟨rfl, rfl⟩
            exact ⟨rfl, iff_of_true (notRaised_ok _) (notRaised_ok _)⟩
        rw [hend.1, List.append_nil, hend.2, husable]
        constructor
        · intro hlease
          refine ⟨⟨?_, ?_⟩, hfine⟩
          · rintro e ⟨⟩
          · rintro _ _ ⟨⟩
            exact hlease
        · intro hall
          exact hall.1.2 token lease rfl
    -- another status is an error of Vault's, reported as unavailable
    · simp only [ne_eq, hstatus, not_false_eq_true, if_true, Prog.runs_pure_iff] at hrest
      rcases hrest with ⟨rfl, rfl⟩
      refine iff_of_true (notRaised_unavailable _)
        ⟨⟨noOther_response fun h => absurd h hstatus, ?_⟩, by simp⟩
      rintro _ _ token lease ⟨⟩
      exact absurd rfl hstatus
  · rcases Prog.runs_pure_iff.mp hrest with ⟨rfl, rfl⟩
    refine iff_of_true (notRaised_unavailable _) ⟨⟨noOther_requestException text, ?_⟩, by simp⟩
    rintro text json token lease ⟨⟩
  · rcases Prog.runs_pure_iff.mp hrest with ⟨rfl, rfl⟩
    exact iff_of_false (not_notRaised _) fun hfine => hfine.1.1.1 e rfl

theorem runs_loginKubernetes {r : Except SecretError (PyVal F × FloatValue)}
    (h : Prog.Runs (loginKubernetes cfg) asked r) : NotRaised r ↔ ∀ m ∈ asked, Fine cfg P m := by
  unfold loginKubernetes at h
  rcases Prog.runs_bind_iff.mp h with ⟨content, _, rest, rfl, hread, hrest⟩
  rcases Prog.runs_call_iff.mp hread with rfl
  rw [List.singleton_append, List.forall_mem_cons]
  have hfile : ∀ answer : FileRead, (∀ e, answer ≠ .raised e) →
      Fine cfg P (⟨.readFile cfg.jwtPath, answer⟩ : VaultMade F) := fun _ h => h
  rcases content with content | text | e
  · rw [and_iff_right (hfile _ (by rintro e ⟨⟩))]
    by_cases hempty : strip content = []
    · simp only [hempty, if_true, Prog.runs_pure_iff] at hrest
      rcases hrest with ⟨rfl, rfl⟩
      exact iff_of_true (notRaised_unavailable _) (by simp)
    · simp only [hempty, if_false] at hrest
      exact runs_loginWith hrest
  · rcases Prog.runs_pure_iff.mp hrest with ⟨rfl, rfl⟩
    exact iff_of_true (notRaised_unavailable _) ⟨hfile _ (by rintro e ⟨⟩), by simp⟩
  · rcases Prog.runs_pure_iff.mp hrest with ⟨rfl, rfl⟩
    exact iff_of_false (not_notRaised _) fun hfine => hfine.1 e rfl

/-! ## The token -/

/-- What resolving the token can do: the cache stays, a failure changes nothing, and an exception
comes from an answer that is not fine. -/
structure TokenResolved (cfg : VaultConfig) (P : PyVal F → Prop) (s s' : VaultState F)
    (asked : List (VaultMade F))
    (r : Except SecretError (PyVal F)) : Prop where
  cache : s'.cache = s.cache
  unchanged : ∀ e, r = .error e → s' = s
  fine : NotRaised r ↔ ∀ m ∈ asked, Fine cfg P m

theorem runs_renewToken {r : Except SecretError (PyVal F)}
    (h : Prog.Runs (renewToken cfg s) asked (s', r)) : TokenResolved cfg P s s' asked r := by
  unfold renewToken at h
  rcases Prog.runs_bind_iff.mp h with ⟨outcome, before, after, rfl, hlogin, hafter⟩
  have hfine : NotRaised outcome ↔ ∀ m ∈ before, Fine cfg P m := runs_loginKubernetes hlogin
  rcases outcome with e | ⟨token, expiresAt⟩
  · rcases Prog.runs_pure_iff.mp hafter with ⟨rfl, heq⟩
    cases heq
    refine ⟨rfl, fun _ _ => rfl, ?_⟩
    rw [List.append_nil, ← hfine]
    cases e with
    | unavailable text => exact iff_of_true (notRaised_unavailable _) (notRaised_unavailable _)
    | raised e => exact iff_of_false (not_notRaised _) (not_notRaised _)
  · rcases Prog.runs_pure_iff.mp hafter with ⟨rfl, heq⟩
    cases heq
    refine ⟨rfl, ?_, ?_⟩
    · rintro e ⟨⟩
    · rw [List.append_nil, ← hfine]
      exact iff_of_true (notRaised_ok _) (notRaised_ok _)

theorem runs_ensureKubernetesToken {r : Except SecretError (PyVal F)}
    (h : Prog.Runs (ensureKubernetesToken cfg s) asked (s', r)) :
    TokenResolved cfg P s s' asked r := by
  unfold ensureKubernetesToken at h
  by_cases htoken : truthy s.k8sToken = true
  · rw [if_pos htoken] at h
    rcases Prog.runs_bind_iff.mp h with ⟨now, _, rest, rfl, htime, hrest⟩
    rcases Prog.runs_call_iff.mp htime with rfl
    by_cases hlive : s.k8sTokenExpiresAt.above now = true
    · rw [if_pos hlive] at hrest
      rcases Prog.runs_pure_iff.mp hrest with ⟨rfl, heq⟩
      cases heq
      refine ⟨rfl, fun _ _ => rfl, iff_of_true (notRaised_ok _) ?_⟩
      exact List.forall_mem_singleton.mpr (fine_time P now)
    · rw [if_neg hlive] at hrest
      have hrenewed : TokenResolved cfg P s s' rest r := runs_renewToken hrest
      refine ⟨hrenewed.cache, hrenewed.unchanged, ?_⟩
      rw [List.singleton_append, List.forall_mem_cons, and_iff_right (fine_time P now)]
      exact hrenewed.fine
  · rw [if_neg htoken] at h
    exact runs_renewToken h

theorem runs_resolveToken {r : Except SecretError (PyVal F)}
    (h : Prog.Runs (resolveToken cfg s) asked (s', r)) : TokenResolved cfg P s s' asked r := by
  unfold resolveToken at h
  by_cases hkubernetes : cfg.kubernetes = true
  · rw [if_pos hkubernetes] at h
    exact runs_ensureKubernetesToken h
  · rw [if_neg hkubernetes] at h
    rcases Prog.runs_pure_iff.mp h with ⟨rfl, heq⟩
    cases heq
    exact ⟨rfl, fun _ _ => rfl, iff_of_true (notRaised_ok _) (by simp)⟩

/-! ## Reads -/

/-- A value as it should be, or `VaultUnavailableError`. -/
def Promised (P : PyVal F → Prop) (r : Except SecretError (PyVal F)) : Prop :=
  NotRaised r ∧ ∀ v, r = .ok v → P v

omit [PyRuntime F] [FloatValues F] in
theorem promised_unavailable (text : Str) :
    Promised P (.error (.unavailable text) : Except SecretError (PyVal F)) := by
  refine ⟨notRaised_unavailable text, ?_⟩
  rintro v ⟨⟩

/-- The secret in a response is as promised when the response is fine. -/
theorem promised_secretOf (cfg : VaultConfig) (path url : Str) (headers : List (Str × PyVal F))
    (fetched : Fetched F) :
    Promised P (secretOf cfg path fetched) ↔ Fine cfg P (⟨.get url headers, fetched⟩ : VaultMade F) := by
  rcases fetched with ⟨status, text, json⟩ | text | e
  · by_cases hstatus : status = 200
    · subst hstatus
      unfold secretOf
      simp only [ne_eq, not_true, if_false]
      cases hdata : secretData json with
      | error error =>
        rcases error with text' | e
        · refine iff_of_true (promised_unavailable _) ⟨noOther_response fun _ e he => ?_, ?_⟩
          · cases hdata.symm.trans (secretData_eq_raised.mpr he)
          · rintro _ _ data ⟨⟩ hdata'
            cases hdata.symm.trans hdata'
        · refine iff_of_false (fun h => not_notRaised _ h.1) fun hfine => ?_
          exact hfine.1.2 text e (by rw [secretData_eq_raised.mp hdata])
      | ok data =>
        constructor
        · rintro ⟨-, hmapping⟩
          refine ⟨noOther_response fun _ e he => ?_, ?_⟩
          · cases hdata.symm.trans (secretData_eq_raised.mpr he)
          · rintro _ _ data' ⟨⟩ hdata'
            cases hdata.symm.trans hdata'
            exact hmapping data rfl
        · intro hfine
          refine ⟨notRaised_ok _, ?_⟩
          rintro v ⟨⟩
          exact hfine.2 text json data rfl hdata
    -- another status is reported with its text, and no secret is read
    · unfold secretOf
      simp only [ne_eq, hstatus, not_false_eq_true, if_true]
      refine iff_of_true (promised_unavailable _) ⟨noOther_response fun h => absurd h hstatus, ?_⟩
      rintro _ _ data ⟨⟩
      exact absurd rfl hstatus
  · refine iff_of_true (promised_unavailable _) ⟨noOther_requestException text, ?_⟩
    rintro _ _ data ⟨⟩
  · refine iff_of_false (fun h => not_notRaised _ h.1) fun hfine => hfine.1.1 e rfl

/-- What a read can do: a failure leaves the cache, a success caches what it returns, and the
promise is kept when every answer is fine. -/
structure Read (cfg : VaultConfig) (P : PyVal F → Prop) (s s' : VaultState F) (path : Str)
    (asked : List (VaultMade F))
    (r : Except SecretError (PyVal F)) : Prop where
  failed : ∀ e, r = .error e → s'.cache = s.cache
  cached : ∀ v, r = .ok v → s'.cache = s.cache ∨
    ∃ now, s'.cache = Function.update s.cache path (some (now, v))
  promised : Promised P r ↔ ∀ m ∈ asked, Fine cfg P m

theorem runs_fetchSecret {r : Except SecretError (PyVal F)}
    (h : Prog.Runs (fetchSecret cfg s path) asked (s', r)) : Read cfg P s s' path asked r := by
  unfold fetchSecret at h
  rcases Prog.runs_bind_iff.mp h with ⟨⟨s₁, outcome⟩, before, after, rfl, htoken, hafter⟩
  have hresolved : TokenResolved cfg P s s₁ before outcome := runs_resolveToken htoken
  rcases outcome with e | token
  · rcases Prog.runs_pure_iff.mp hafter with ⟨rfl, heq⟩
    cases heq
    refine ⟨fun _ _ => hresolved.cache, ?_, ?_⟩
    · rintro v ⟨⟩
    · rw [List.append_nil, ← hresolved.fine]
      refine and_iff_left ?_
      rintro v ⟨⟩
  · have hbefore : ∀ m ∈ before, Fine cfg P m := hresolved.fine.mp (notRaised_ok token)
    rcases Prog.runs_bind_iff.mp hafter with ⟨fetched, _, rest, rfl, hget, hrest⟩
    rcases Prog.runs_call_iff.mp hget with rfl
    have hpromised := promised_secretOf (P := P) cfg path (cfg.secretUrl path)
      ((py "X-Vault-Token", token) :: cfg.namespaceHeader) fetched
    -- the token came, so only the answer to the read decides
    have hall : ∀ later : List (VaultMade F), (∀ m ∈ later, Fine cfg P m) →
        ((∀ m ∈ before ++ ([⟨.get (cfg.secretUrl path)
          ((py "X-Vault-Token", token) :: cfg.namespaceHeader), fetched⟩] ++ later), Fine cfg P m) ↔
          Promised P (secretOf cfg path fetched)) := by
      intro later hlater
      rw [List.forall_mem_append, and_iff_right hbefore, List.singleton_append,
        List.forall_mem_cons, and_iff_left hlater, hpromised]
    cases hsecret : secretOf cfg path fetched with
    | error e =>
      simp only [hsecret, Prog.runs_pure_iff] at hrest
      rcases hrest with ⟨rfl, heq⟩
      cases heq
      refine ⟨fun _ _ => hresolved.cache, ?_, ?_⟩
      · rintro v ⟨⟩
      · rw [hall [] (by simp), hsecret]
    | ok data =>
      simp only [hsecret, Prog.runs_bind_iff, Prog.runs_call_iff, Prog.runs_pure_iff] at hrest
      rcases hrest with ⟨now, _, _, rfl, rfl, rfl, heq⟩
      cases heq
      refine ⟨?_, ?_, ?_⟩
      · rintro e ⟨⟩
      · rintro v ⟨⟩
        refine Or.inr ⟨now, ?_⟩
        show Function.update s₁.cache path (some (now, data)) = _
        rw [hresolved.cache]
      · rw [List.append_nil, hall _ (List.forall_mem_singleton.mpr (fine_time P now)), hsecret]

/-- The cache holds mappings. -/
def Mappings (s : VaultState F) : Prop :=
  ∀ path fetchedAt data, s.cache path = some (fetchedAt, data) → IsMapping data

/-- A read from a cache of mappings. -/
theorem runs_getSecret (hP : ∀ v, IsMapping v → P v) (hs : Mappings s)
    {r : Except SecretError (PyVal F)} (h : Prog.Runs (getSecret cfg s path) asked (s', r)) :
    Read cfg P s s' path asked r := by
  unfold getSecret at h
  by_cases hconfigured : cfg.isConfigured = true
  · simp only [hconfigured, Bool.not_true, Bool.false_eq_true, if_false] at h
    cases hcache : s.cache path with
    | none =>
      rw [hcache] at h
      exact runs_fetchSecret h
    | some entry =>
      rcases entry with ⟨fetchedAt, data⟩
      simp only [hcache] at h
      rcases Prog.runs_bind_iff.mp h with ⟨now, _, rest, rfl, htime, hrest⟩
      rcases Prog.runs_call_iff.mp htime with rfl
      by_cases hfresh : cfg.fresh fetchedAt now = true
      · rw [if_pos hfresh] at hrest
        rcases Prog.runs_pure_iff.mp hrest with ⟨rfl, heq⟩
        cases heq
        refine ⟨fun _ _ => rfl, fun _ _ => Or.inl rfl, iff_of_true ⟨notRaised_ok _, ?_⟩ ?_⟩
        · rintro v ⟨⟩
          exact hP _ (hs path fetchedAt data hcache)
        · exact List.forall_mem_singleton.mpr (fine_time P now)
      -- a stale entry stays in the cache until the fetch replaces it
      · rw [if_neg hfresh] at hrest
        have hfetched : Read cfg P s s' path rest r := runs_fetchSecret hrest
        refine ⟨hfetched.failed, hfetched.cached, ?_⟩
        rw [List.singleton_append, List.forall_mem_cons, and_iff_right (fine_time P now)]
        exact hfetched.promised
  · simp only [hconfigured, Bool.not_false, if_true, Prog.runs_pure_iff] at h
    rcases h with ⟨rfl, heq⟩
    cases heq
    exact ⟨fun _ _ => rfl, fun _ _ => Or.inl rfl, iff_of_true (promised_unavailable _) (by simp)⟩

/-- A cache of mappings stays one, as long as mappings are read. -/
theorem Read.mappings {r : Except SecretError (PyVal F)} (hs : Mappings s)
    (h : Read cfg P s s' path asked r) (hr : ∀ v, r = .ok v → IsMapping v) : Mappings s' := by
  intro path' fetchedAt data hcache
  rcases r with e | v
  · rw [h.failed e rfl] at hcache
    exact hs path' fetchedAt data hcache
  · rcases h.cached v rfl with hsame | ⟨now, hupdate⟩
    · rw [hsame] at hcache
      exact hs path' fetchedAt data hcache
    · rw [hupdate] at hcache
      by_cases hpath : path' = path
      · subst hpath
        rw [Function.update_self] at hcache
        cases hcache
        exact hr _ rfl
      · rw [Function.update_of_ne hpath] at hcache
        exact hs path' fetchedAt data hcache

/-! ## References -/

/-- The secret has the field, or says that it has not. -/
def UsableFor (field : Str) (secret : PyVal F) : Prop :=
  IsMapping secret ∨ contains field secret = .ok false

/-- What `resolve_vault_ref` promises: the value of the field in the secret, or
`VaultUnavailableError`. -/
def Resolves (field : Str) (secret r : Except SecretError (PyVal F)) : Prop :=
  (∃ items v, secret = .ok (.dict items) ∧ Dict.get? field items = some v ∧ r = .ok v) ∨
    ∃ text, r = .error (.unavailable text)

omit [FloatValues F] in
theorem resolves_secretField {field : Str} (secret : PyVal F) :
    Resolves field (.ok secret) (secretField path field secret) ↔ UsableFor field secret := by
  unfold secretField UsableFor
  cases hcontains : contains field secret with
  | error e =>
    refine iff_of_false ?_ ?_
    · rintro (⟨_, _, -, -, ⟨⟩⟩ | ⟨_, ⟨⟩⟩)
    · rintro (⟨items, rfl⟩ | hnone)
      · cases hcontains
      · cases hnone
  | ok found =>
    cases found with
    | false => exact iff_of_true (Or.inr ⟨_, rfl⟩) (Or.inr rfl)
    | true =>
      cases secret with
      | dict items =>
        refine iff_of_true ?_ (Or.inl ⟨items, rfl⟩)
        have hsome : (Dict.get? field items).isSome = true := Except.ok.inj hcontains
        rcases Option.isSome_iff_exists.mp hsome with ⟨v, hv⟩
        refine Or.inl ⟨items, v, rfl, hv, ?_⟩
        show Except.ok ((Dict.get? field items).getD .none) = _
        rw [hv]
        rfl
      | _ =>
        refine iff_of_false ?_ ?_
        · rintro (⟨_, _, ⟨⟩, -, -⟩ | ⟨_, ⟨⟩⟩)
        · rintro (⟨_, hdict⟩ | hnone)
          · cases hdict
          · cases hnone

omit [FloatValues F] in
/-- A reference is resolved as promised when its secret is of use. -/
theorem resolves_iff {reference field : Str} {defaultField : Option Str}
    {secret r : Except SecretError (PyVal F)}
    (href : vaultReference reference defaultField = some (path, field)) (hfield : field ≠ [])
    (h : Prog.Runs (resolveVaultRef (.str reference) defaultField) [⟨.getSecret path, secret⟩] r) :
    Resolves field secret r ↔ Promised (UsableFor field) secret := by
  have htext : truthy (.str reference : PyVal F) = true := by
    cases reference with
    | nil => cases href
    | cons c reference => rfl
  rcases runs_resolveVaultRef htext href h with ⟨hnone, -, -⟩ | ⟨e, hasked, rfl⟩ | ⟨v, hasked, rfl⟩
  · exact absurd hnone hfield
  · cases hasked
    cases e with
    | unavailable text => exact iff_of_true (Or.inr ⟨text, rfl⟩) (promised_unavailable text)
    | raised e =>
      refine iff_of_false ?_ fun hpromised => not_notRaised e hpromised.1
      rintro (⟨_, _, ⟨⟩, -, -⟩ | ⟨_, ⟨⟩⟩)
  · cases hasked
    rw [resolves_secretField]
    constructor
    · intro husable
      refine ⟨notRaised_ok v, ?_⟩
      rintro _ ⟨⟩
      exact husable
    · intro hpromised
      exact hpromised.2 v rfl

/-- For every configuration of the client, every state whose cache holds mappings and every
answers of Vault, of a proxy and of the token file: `get_secret` returns a mapping or raises
`VaultUnavailableError` exactly when the answers are fine, and the cache goes on holding mappings
then; a reference is resolved to its field or refused exactly when the answers are fine for that
field; a failed read leaves the cache; and a failed login leaves the client as it was. -/
theorem vault_exact (cfg : VaultConfig) (s s' : VaultState F) (path : Str)
    (asked : List (VaultMade F)) (secret : Except SecretError (PyVal F)) (hs : Mappings s)
    (h : Prog.Runs (getSecret cfg s path) asked (s', secret)) :
    (Promised IsMapping secret ↔ ∀ m ∈ asked, Fine cfg IsMapping m) ∧
    (Promised IsMapping secret → Mappings s') ∧
    (∀ reference defaultField field r, vaultReference reference defaultField = some (path, field) →
      field ≠ [] →
      Prog.Runs (resolveVaultRef (.str reference) defaultField) [⟨.getSecret path, secret⟩] r →
      (Resolves field secret r ↔ ∀ m ∈ asked, Fine cfg (UsableFor field) m)) ∧
    (∀ e, secret = .error e → s'.cache = s.cache) ∧
    ∀ asked' s₁ e, Prog.Runs (ensureKubernetesToken cfg s) asked' (s₁, .error e) → s₁ = s := by
  have hread : Read cfg IsMapping s s' path asked secret := runs_getSecret (fun _ h => h) hs h
  refine ⟨hread.promised, fun hpromised => hread.mappings hs hpromised.2, ?_, hread.failed, ?_⟩
  · intro reference defaultField field r href hfield hresolve
    have hfor : Read cfg (UsableFor field) s s' path asked secret :=
      runs_getSecret (fun _ h => Or.inl h) hs h
    rw [resolves_iff href hfield hresolve]
    exact hfor.promised
  · intro asked' s₁ e hensure
    have hresolved : TokenResolved cfg IsMapping s s₁ asked' (.error e) :=
      runs_ensureKubernetesToken hensure
    exact hresolved.unchanged e rfl

end Errors

/-! ## Runs -/

/-- A world where Vault has a secret, at every path. -/
def secretWorld (data : PyVal NanFloat) : Prog.World (VaultCall NanFloat) (VaultAnswer NanFloat)
  | _, .time => (0 : ℚ)
  | _, .readFile _ => FileRead.text (py "jwt")
  | _, .get _ _ => Fetched.response 200 []
      (.ok (.dict [(.str (py "data"), .dict [(.str (py "data"), data)])]))
  | _, .post _ _ _ _ => Fetched.requestException []

theorem mappings_new {F : Type} : Mappings (.new : VaultState F) := by
  intro path fetchedAt data h
  cases h

/-- A secret that is a mapping is read. -/
theorem vault_exact_example :
    Promised IsMapping (.ok (.dict [] : PyVal NanFloat)) :=
  (vault_exact tokenConfig .new (VaultState.new.store (py "kv/data/ops") 0 (.dict []))
    (py "kv/data/ops") _ (.ok (.dict [])) mappings_new
    (Prog.runs_run (secretWorld (.dict [])) 0
      (getSecret tokenConfig .new (py "kv/data/ops")))).1.mpr (by
    refine List.forall_mem_cons.mpr ⟨⟨noOther_response (by rintro - e ⟨⟩), ?_⟩,
      List.forall_mem_singleton.mpr (fine_time _ 0)⟩
    rintro text json data ⟨⟩ hdata
    cases hdata
    exact ⟨[], rfl⟩)

/-- A secret whose data is `null` is returned as it is. -/
theorem vault_null_secret :
    ¬ ∀ (cfg : VaultConfig) (s s' : VaultState NanFloat) (path : Str)
      (asked : List (VaultMade NanFloat)) (secret : Except SecretError (PyVal NanFloat)),
      Mappings s → Prog.Runs (getSecret cfg s path) asked (s', secret) →
      Promised IsMapping secret := by
  intro hclaim
  have hpromised := hclaim tokenConfig .new (VaultState.new.store (py "kv/data/ops") 0 .none)
    (py "kv/data/ops") _ (.ok .none) mappings_new
    (Prog.runs_run (secretWorld .none) 0 (getSecret tokenConfig .new (py "kv/data/ops")))
  rcases hpromised.2 .none rfl with ⟨items, hitems⟩
  cases hitems

end AutoHeal
