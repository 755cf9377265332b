import AutoHeal.Notify.Channels

/-!
# When a channel works

`Usable` says when a channel raises nothing and `Accepts` when it delivers, in what is configured
and what is answered from outside.
-/

namespace AutoHeal.Notify

open Server

variable {F : Type}

/-! ## Answers -/

/-- A post was answered with one of the codes. -/
def IsAccepted (codes : List ℕ) : Made F → Prop
  | ⟨.post _ _ _, answer⟩ =>
    match (answer : Posted) with
    | .status code => codes.contains code = true
    | .requestException | .osError => False
  | _ => False

/-- A post raised an `OSError` that is no `RequestException`. -/
def IsOsError : Made F → Prop
  | ⟨.post _ _ _, answer⟩ =>
    match (answer : Posted) with
    | .osError => True
    | .status _ | .requestException => False
  | _ => False

/-- The text of a mail could not be encoded. -/
def IsUnencodable : Made F → Prop
  | ⟨.mimeText _, answer⟩ =>
    match (answer : Except PyErr Unit) with
    | .error _ => True
    | .ok _ => False
  | _ => False

/-- The text of a mail was encoded. -/
def IsEncoded : Made F → Prop
  | ⟨.mimeText _, answer⟩ =>
    match (answer : Except PyErr Unit) with
    | .error _ => False
    | .ok _ => True
  | _ => False

/-- A mail could not be written out. -/
def IsUnwritable : Made F → Prop
  | ⟨.mimeString _ _ _ _, answer⟩ =>
    match (answer : Except PyErr Str) with
    | .error _ => True
    | .ok _ => False
  | _ => False

/-- A mail was taken. -/
def IsTaken : Made F → Prop
  | ⟨.smtpSend _ _ _, answer⟩ =>
    match (answer : Bool) with
    | true => True
    | false => False
  | _ => False

/-- A mail server was left in order. -/
def IsLeft : Made F → Prop
  | ⟨.smtpQuit, answer⟩ =>
    match (answer : Bool) with
    | true => True
    | false => False
  | _ => False

/-- What Vault answered. -/
def reads : List (Made F) → List (Except SecretError (PyVal F))
  | [] => []
  | ⟨.getSecret _, answer⟩ :: asked => answer :: reads asked
  | _ :: asked => reads asked

theorem reads_append (before after : List (Made F)) :
    reads (before ++ after) = reads before ++ reads after := by
  induction before with
  | nil => rfl
  | cons m before ih =>
    rcases m with ⟨call, answer⟩
    cases call with
    | getSecret path => exact congrArg (answer :: ·) ih
    | _ => exact ih

/-- A lookup of a secret. -/
def IsRead : Made F → Prop
  | ⟨.getSecret _, _⟩ => True
  | _ => False

/-! ## Credentials -/

/-- What comes of a credential. -/
inductive Lookup where
  | found
  | unavailable
  | raises
  deriving DecidableEq

def Lookup.of : Except SecretError (PyVal F) → Lookup
  | .ok _ => .found
  | .error (.unavailable _) => .unavailable
  | .error (.raised _) => .raises

variable [PyRuntime F]

/-- What comes of a credential when Vault answers with the first of `answers`, and the answers that
are left. -/
def lookup (key : PyVal F) (answers : List (Except SecretError (PyVal F))) :
    Lookup × List (Except SecretError (PyVal F)) :=
  if truthy key then
    match key with
    | .str s =>
      match vaultReference s none with
      | none => (.found, answers)
      | some (path, field) =>
        if field = [] then (.unavailable, answers)
        else
          match answers with
          | [] => (.unavailable, [])
          | .error e :: answers => (.of (.error e : Except SecretError (PyVal F)), answers)
          | .ok secret :: answers => (.of (secretField path field secret), answers)
    | _ => (.raises, answers)
  else (.found, answers)

theorem runs_lookup {key : PyVal F} {asked : List (Made F)} {r : Except SecretError (PyVal F)}
    (h : Prog.Runs (resolveVaultRef key none) asked r) :
    (∀ m ∈ asked, IsRead m) ∧ ∀ later, lookup key (reads asked ++ later) = (.of r, later) := by
  unfold resolveVaultRef at h
  unfold lookup
  cases htruthy : truthy key with
  | false =>
    simp only [htruthy, Bool.false_eq_true, if_false, Prog.runs_pure_iff] at h
    rcases h with ⟨rfl, rfl⟩
    exact ⟨by simp, fun _ => rfl⟩
  | true =>
    simp only [htruthy, if_true] at h ⊢
    cases key with
    | str s =>
      -- only a reference with a path and a field asks Vault
      rcases hreference : vaultReference s none with _ | ⟨path, field⟩
      · simp only [hreference, Prog.runs_pure_iff] at h ⊢
        rcases h with ⟨rfl, rfl⟩
        exact ⟨by simp, fun _ => rfl⟩
      · simp only [hreference] at h ⊢
        by_cases hfield : field = []
        · simp only [hfield, if_true, Prog.runs_pure_iff] at h ⊢
          rcases h with ⟨rfl, rfl⟩
          exact ⟨by simp, fun _ => rfl⟩
        · simp only [hfield, if_false, Prog.runs_bind_iff, Prog.runs_call_iff] at h ⊢
          rcases h with ⟨answer, _, after, rfl, rfl, hnext⟩
          rcases answer with e | secret
          · rcases Prog.runs_pure_iff.mp hnext with ⟨rfl, rfl⟩
            exact ⟨by simp [IsRead], fun _ => rfl⟩
          · rcases Prog.runs_pure_iff.mp hnext with ⟨rfl, rfl⟩
            exact ⟨by simp [IsRead], fun _ => rfl⟩
    | _ =>
      rcases Prog.runs_pure_iff.mp h with ⟨rfl, rfl⟩
      exact ⟨by simp, fun _ => rfl⟩

/-! ## The parts of a method -/

variable {asked : List (Made F)} {r : Py Bool}

omit [PyRuntime F] in
/-- What `sendWith` can do. -/
theorem runs_sendWith {ready : Py Bool} {text : Py Str} {deliver : Str → Effect F (Py Bool)}
    (h : Prog.Runs (sendWith ready text deliver) asked r) :
    ((∃ e, ready = .error e) ∧ asked = [] ∧ ∃ e, r = .error e) ∨
    (ready = .ok false ∧ asked = [] ∧ r = .ok false) ∨
    (ready = .ok true ∧ (∃ e, text = .error e) ∧ asked = [] ∧ ∃ e, r = .error e) ∨
    ready = .ok true ∧ ∃ t, text = .ok t ∧ Prog.Runs (deliver t) asked r := by
  unfold sendWith at h
  rcases ready with e | _ | _
  · rcases Prog.runs_pure_iff.mp h with ⟨rfl, rfl⟩
    exact Or.inl ⟨⟨e, rfl⟩, rfl, e, rfl⟩
  · rcases Prog.runs_pure_iff.mp h with ⟨rfl, rfl⟩
    exact Or.inr (Or.inl ⟨rfl, rfl, rfl⟩)
  · rcases text with e | t
    · rcases Prog.runs_pure_iff.mp h with ⟨rfl, rfl⟩
      exact Or.inr (Or.inr (Or.inl ⟨rfl, ⟨e, rfl⟩, rfl, e, rfl⟩))
    · exact Or.inr (Or.inr (Or.inr ⟨rfl, t, rfl, h⟩))

/-- A channel that is not set up is usable, and one that is needs to know when it is wanted, and
then a template and a delivery. -/
def SendUsable (settings : List (PyVal F)) (notifyOn : PyVal F) (status : Str) (template : Prop)
    (delivery : Prop) : Prop :=
  settings.all truthy = true → IsContainer notifyOn ∧
    (contains status notifyOn = .ok true → template ∧ delivery)

theorem ready_cases (settings : List (PyVal F)) (notifyOn : PyVal F) (status : Str) :
    (settings.all truthy = false ∧ ready settings notifyOn status = .ok false) ∨
    settings.all truthy = true ∧ ready settings notifyOn status = contains status notifyOn := by
  unfold ready
  cases hall : settings.all truthy with
  | false => exact Or.inl ⟨rfl, by simp⟩
  | true => exact Or.inr ⟨rfl, by simp⟩

/-- A method returns exactly when what it needs is usable. -/
theorem returns_sendWith {settings : List (PyVal F)} {notifyOn : PyVal F} {status : Str}
    {text : Py Str} {deliver : Str → Effect F (Py Bool)} {template delivery : Prop}
    (htemplate : (∃ t, text = .ok t) ↔ template)
    (hdelivery : ∀ t, Prog.Runs (deliver t) asked r → ((∃ b, r = .ok b) ↔ delivery))
    (h : Prog.Runs (sendWith (ready settings notifyOn status) text deliver) asked r) :
    (∃ b, r = .ok b) ↔ SendUsable settings notifyOn status template delivery := by
  unfold SendUsable
  have hcontainer : (∃ b, contains status notifyOn = .ok b) ↔ IsContainer notifyOn := contains_isOk_iff
  rcases ready_cases settings notifyOn status with ⟨hall, hready⟩ | ⟨hall, hready⟩
  · -- it is not set up
    rcases runs_sendWith h with ⟨⟨e, he⟩, -⟩ | ⟨-, -, rfl⟩ | ⟨htrue, -⟩ | ⟨htrue, -⟩
    · rw [hready] at he
      cases he
    · simp [hall]
    · rw [hready] at htrue
      cases htrue
    · rw [hready] at htrue
      cases htrue
  · rw [hready] at h
    rw [← hcontainer]
    rcases runs_sendWith h with ⟨⟨e, he⟩, -, e', rfl⟩ | ⟨hfalse, -, rfl⟩ |
      ⟨htrue, ⟨e, he⟩, -, e', rfl⟩ | ⟨htrue, t, ht, hdeliver⟩
    · simp [hall, he]
    · simp [hall, hfalse]
    · have hnone : ¬ template := by
        rw [← htemplate, he]
        simp
      simp [hall, htrue, hnone]
    · rw [hdelivery t hdeliver]
      simp [hall, htrue, htemplate.mp ⟨t, ht⟩]

omit [PyRuntime F] in
/-- A method delivers exactly when something is accepted. -/
theorem delivers_sendWith {ready : Py Bool} {text : Py Str} {deliver : Str → Effect F (Py Bool)}
    {accepted : Prop} (hnone : asked = [] → ¬ accepted)
    (hdeliver : ∀ t, Prog.Runs (deliver t) asked r → (r = .ok true ↔ accepted))
    (h : Prog.Runs (sendWith ready text deliver) asked r) : r = .ok true ↔ accepted := by
  rcases runs_sendWith h with ⟨-, hasked, e, rfl⟩ | ⟨-, hasked, rfl⟩ | ⟨-, -, hasked, e, rfl⟩ |
    ⟨-, t, -, hrun⟩
  · exact iff_of_false (by simp) (hnone hasked)
  · exact iff_of_false (by simp) (hnone hasked)
  · exact iff_of_false (by simp) (hnone hasked)
  · exact hdeliver t hrun

omit [PyRuntime F] in
/-- `requests.post`, `except Exception`, returns, and delivers when a code is accepted. -/
theorem runs_postGuarded {url payload : PyVal F} {codes : List ℕ}
    (h : Prog.Runs (postGuarded url payload codes) asked r) :
    (∃ b, r = .ok b) ∧ (r = .ok true ↔ ∃ m ∈ asked, IsAccepted codes m) := by
  unfold postGuarded at h
  simp only [Prog.runs_bind_iff, Prog.runs_call_iff] at h
  rcases h with ⟨posted, _, after, rfl, rfl, hnext⟩
  rcases posted with code | _ | _
  · rcases Prog.runs_pure_iff.mp hnext with ⟨rfl, rfl⟩
    simp [IsAccepted]
  · rcases Prog.runs_pure_iff.mp hnext with ⟨rfl, rfl⟩
    simp [IsAccepted]
  · rcases Prog.runs_pure_iff.mp hnext with ⟨rfl, rfl⟩
    simp [IsAccepted]

omit [PyRuntime F] in
/-- With `except requests.RequestException` it raises an `OSError` of another kind. -/
theorem runs_postChecked {url payload : PyVal F} {headers : List (Str × Str)} {codes : List ℕ}
    (h : Prog.Runs (postChecked url payload headers codes) asked r) :
    reads asked = [] ∧ ((∃ b, r = .ok b) ↔ ∀ m ∈ asked, ¬ IsOsError m) ∧
      (r = .ok true ↔ ∃ m ∈ asked, IsAccepted codes m) := by
  unfold postChecked at h
  simp only [Prog.runs_bind_iff, Prog.runs_call_iff] at h
  rcases h with ⟨posted, _, after, rfl, rfl, hnext⟩
  rcases posted with code | _ | _
  · rcases Prog.runs_pure_iff.mp hnext with ⟨rfl, rfl⟩
    simp [IsAccepted, IsOsError, reads]
  · rcases Prog.runs_pure_iff.mp hnext with ⟨rfl, rfl⟩
    simp [IsAccepted, IsOsError, reads]
  · rcases Prog.runs_pure_iff.mp hnext with ⟨rfl, rfl⟩
    simp [IsAccepted, IsOsError, reads]

/-- A credential that is looked up. -/
theorem runs_withKey {key : PyVal F} {next : PyVal F → Effect F (Py Bool)}
    (h : Prog.Runs (withKey key next) asked r) :
    ∃ before after, asked = before ++ after ∧ (∀ m ∈ before, IsRead m) ∧
      (((lookup key (reads asked)).1 = .raises ∧ after = [] ∧ ∃ e, r = .error e) ∨
        ((lookup key (reads asked)).1 = .unavailable ∧ after = [] ∧ r = .ok false) ∨
        lookup key (reads asked) = (.found, reads after) ∧ ∃ v, Prog.Runs (next v) after r) := by
  unfold withKey at h
  rw [Prog.runs_bind_iff] at h
  rcases h with ⟨resolved, before, after, rfl, hresolve, hnext⟩
  rcases runs_lookup hresolve with ⟨hreads, hlookup⟩
  refine ⟨before, after, rfl, hreads, ?_⟩
  rw [reads_append, hlookup]
  rcases resolved with (text | e) | v
  · rcases Prog.runs_pure_iff.mp hnext with ⟨rfl, rfl⟩
    exact Or.inr (Or.inl ⟨rfl, rfl, rfl⟩)
  · rcases Prog.runs_pure_iff.mp hnext with ⟨rfl, rfl⟩
    exact Or.inl ⟨rfl, rfl, e.error, rfl⟩
  · exact Or.inr (Or.inr ⟨rfl, v, hnext⟩)

/-- A credential, and then a post. -/
def KeyedUsable (key : PyVal F) (asked : List (Made F)) : Prop :=
  (lookup key (reads asked)).1 ≠ .raises ∧ ∀ m ∈ asked, ¬ IsOsError m

theorem runs_keyed {key : PyVal F} {codes : List ℕ} {next : PyVal F → Effect F (Py Bool)}
    (hnext : ∀ v, ∃ url payload headers, next v = postChecked url payload headers codes)
    (h : Prog.Runs (withKey key next) asked r) :
    ((∃ b, r = .ok b) ↔ KeyedUsable key asked) ∧ (r = .ok true ↔ ∃ m ∈ asked, IsAccepted codes m) := by
  unfold KeyedUsable
  -- reading a credential is no post, and its failure is no `OSError`
  have hquiet : ∀ m : Made F, IsRead m → ¬ IsOsError m ∧ ¬ IsAccepted codes m := by
    rintro ⟨call, answer⟩ hread
    cases call with
    | getSecret path => exact ⟨id, id⟩
    | _ => exact absurd hread id
  rcases runs_withKey h with ⟨before, after, rfl, hreads, ⟨hraises, rfl, e, rfl⟩ |
    ⟨hunavailable, rfl, rfl⟩ | ⟨hfound, v, hrun⟩⟩
  · rw [hraises]
    refine ⟨by simp, iff_of_false (by simp) ?_⟩
    rintro ⟨m, hm, haccepted⟩
    rw [List.append_nil] at hm
    exact (hquiet m (hreads m hm)).2 haccepted
  -- an unavailable vault ends the call before the post
  · rw [hunavailable, List.append_nil]
    refine ⟨iff_of_true ⟨false, rfl⟩ ⟨by simp, fun m hm => (hquiet m (hreads m hm)).1⟩,
      iff_of_false (by simp) ?_⟩
    rintro ⟨m, hm, haccepted⟩
    exact (hquiet m (hreads m hm)).2 haccepted
  · rcases hnext v with ⟨url, payload, headers, hpost⟩
    rw [hpost] at hrun
    rcases runs_postChecked hrun with ⟨-, hreturns, haccepted⟩
    rw [hreturns, haccepted, hfound]
    constructor
    · constructor
      · intro hok
        refine ⟨by simp, fun m hm => ?_⟩
        rcases List.mem_append.mp hm with hm | hm
        · exact (hquiet m (hreads m hm)).1
        · exact hok m hm
      · exact fun hok m hm => hok.2 m (List.mem_append_right _ hm)
    · constructor
      · rintro ⟨m, hm, hacc⟩
        exact ⟨m, List.mem_append_right _ hm, hacc⟩
      · rintro ⟨m, hm, hacc⟩
        rcases List.mem_append.mp hm with hm | hm
        · exact absurd hacc (hquiet m (hreads m hm)).2
        · exact ⟨m, hm, hacc⟩

/-! ## A mail -/

/-- A call within the `with` block of a mail. -/
def IsWithin : Made F → Prop
  | ⟨.smtpStarttls, _⟩ | ⟨.smtpLogin _ _, _⟩ | ⟨.mimeString _ _ _ _, _⟩ | ⟨.smtpSend _ _ _, _⟩ => True
  | _ => False

omit [PyRuntime F] in
theorem IsWithin.quiet {m : Made F} (h : IsWithin m) :
    ¬ IsUnencodable m ∧ ¬ IsEncoded m ∧ ¬ IsLeft m := by
  rcases m with ⟨call, answer⟩
  cases call with
  | smtpStarttls => exact ⟨id, id, id⟩
  | smtpLogin username password => exact ⟨id, id, id⟩
  | mimeString body subject mailFrom recipients => exact ⟨id, id, id⟩
  | smtpSend mailFrom recipients message => exact ⟨id, id, id⟩
  | _ => exact absurd h id

theorem runs_smtpSecure {useTls : PyVal F} {secured : Bool}
    (h : Prog.Runs (smtpSecure useTls) asked secured) :
    ∀ m ∈ asked, IsWithin m ∧ ¬ IsUnwritable m ∧ ¬ IsTaken m := by
  unfold smtpSecure at h
  by_cases htls : truthy useTls = true
  · rw [if_pos htls] at h
    have hasked : asked = [⟨.smtpStarttls, secured⟩] := Prog.runs_call_iff.mp h
    rw [hasked]
    simp [IsWithin, IsUnwritable, IsTaken]
  · rw [if_neg htls] at h
    rw [(Prog.runs_pure_iff.mp h).1]
    simp

theorem runs_smtpAuthenticate {username password : PyVal F} {authenticated : Bool}
    (h : Prog.Runs (smtpAuthenticate username password) asked authenticated) :
    ∀ m ∈ asked, IsWithin m ∧ ¬ IsUnwritable m ∧ ¬ IsTaken m := by
  unfold smtpAuthenticate at h
  by_cases hboth : (truthy username && truthy password) = true
  · rw [if_pos hboth] at h
    have hasked : asked = [⟨.smtpLogin username password, authenticated⟩] := Prog.runs_call_iff.mp h
    rw [hasked]
    simp [IsWithin, IsUnwritable, IsTaken]
  · rw [if_neg hboth] at h
    rw [(Prog.runs_pure_iff.mp h).1]
    simp

/-- How a `with` block ended is told by its calls. -/
structure Ends (asked : List (Made F)) (mailed : Mailed) : Prop where
  within : ∀ m ∈ asked, IsWithin m
  raised : (∃ e, mailed = .raised e) ↔ ∃ m ∈ asked, IsUnwritable m
  sent : mailed = .sent ↔ ∃ m ∈ asked, IsTaken m

omit [PyRuntime F] in
/-- Calls before the last two steps do not tell. -/
theorem Ends.after {before asked : List (Made F)} {mailed : Mailed}
    (hbefore : ∀ m ∈ before, IsWithin m ∧ ¬ IsUnwritable m ∧ ¬ IsTaken m) (h : Ends asked mailed) :
    Ends (before ++ asked) mailed where
  within m hm := (List.mem_append.mp hm).elim (fun hm => (hbefore m hm).1) (h.within m)
  raised := by
    rw [h.raised]
    constructor
    · rintro ⟨m, hm, hunwritable⟩
      exact ⟨m, List.mem_append_right _ hm, hunwritable⟩
    · rintro ⟨m, hm, hunwritable⟩
      rcases List.mem_append.mp hm with hm | hm
      · exact absurd hunwritable (hbefore m hm).2.1
      · exact ⟨m, hm, hunwritable⟩
  sent := by
    rw [h.sent]
    constructor
    · rintro ⟨m, hm, htaken⟩
      exact ⟨m, List.mem_append_right _ hm, htaken⟩
    · rintro ⟨m, hm, htaken⟩
      rcases List.mem_append.mp hm with hm | hm
      · exact absurd htaken (hbefore m hm).2.2
      · exact ⟨m, hm, htaken⟩

theorem runs_mailWithin {useTls username password mailFrom mailTo : PyVal F}
    {body subject recipients : Str} {mailed : Mailed}
    (h : Prog.Runs (mailWithin useTls username password mailFrom mailTo body subject recipients) asked
      mailed) : Ends asked mailed := by
  -- each stage ends the block, or hands over to the next one
  have hfailed : Ends ([] : List (Made F)) .failed := ⟨by simp, by simp, by simp⟩
  unfold mailWithin at h
  rw [Prog.runs_bind_iff] at h
  rcases h with ⟨secured, before, rest, rfl, hsecure, h⟩
  apply Ends.after (runs_smtpSecure hsecure)
  cases secured with
  | false =>
    rcases Prog.runs_pure_iff.mp h with ⟨rfl, rfl⟩
    exact hfailed
  | true =>
    simp only [Prog.runs_bind_iff] at h
    rcases h with ⟨authenticated, before, rest, rfl, hauthenticate, h⟩
    apply Ends.after (runs_smtpAuthenticate hauthenticate)
    cases authenticated with
    | false =>
      rcases Prog.runs_pure_iff.mp h with ⟨rfl, rfl⟩
      exact hfailed
    | true =>
      simp only [Prog.runs_bind_iff, Prog.runs_call_iff] at h
      rcases h with ⟨written, _, rest, rfl, rfl, h⟩
      -- writing the message out may fail before the server is asked to take it
      rcases written with e | message
      · rcases Prog.runs_pure_iff.mp h with ⟨rfl, rfl⟩
        exact ⟨by simp [IsWithin], by simp [IsUnwritable], by simp [IsTaken]⟩
      · simp only [Prog.runs_bind_iff] at h
        rcases h with ⟨taken, calls, rest, rfl, hsend, h⟩
        have hcalls : calls = [⟨.smtpSend mailFrom mailTo message, taken⟩] :=
          Prog.runs_call_iff.mp hsend
        subst hcalls
        cases taken with
        | true =>
          rcases Prog.runs_pure_iff.mp h with ⟨rfl, rfl⟩
          exact ⟨by simp [IsWithin], by simp [IsUnwritable], by simp [IsTaken]⟩
        | false =>
          rcases Prog.runs_pure_iff.mp h with ⟨rfl, rfl⟩
          exact ⟨by simp [IsWithin], by simp [IsUnwritable], by simp [IsTaken]⟩

/-- A mail whose text can be encoded, whose recipients can be joined, and that can be written out,
unless the server is left with an error of its own. -/
def MailUsable (mailTo : PyVal F) (asked : List (Made F)) : Prop :=
  (¬ ∃ m ∈ asked, IsUnencodable m) ∧ ((∃ m ∈ asked, IsEncoded m) → (joinable mailTo).isSome) ∧
    ¬ ((∃ m ∈ asked, IsUnwritable m) ∧ ∃ m ∈ asked, IsLeft m)

/-- The server took the mail and was left in order. -/
def MailAccepted (asked : List (Made F)) : Prop :=
  (∃ m ∈ asked, IsTaken m) ∧ ∃ m ∈ asked, IsLeft m

omit [PyRuntime F] in
/-- What is among the calls of a mail. -/
theorem exists_mem_mail {P : Made F → Prop} {encoding connecting leaving : Made F}
    {within : List (Made F)} (hencoding : ¬ P encoding) (hconnecting : ¬ P connecting) :
    (∃ m ∈ [encoding] ++ ([connecting] ++ (within ++ ([leaving] ++ []))), P m) ↔
      (∃ m ∈ within, P m) ∨ P leaving := by
  simp [hencoding, hconnecting, or_and_right, exists_or]

theorem runs_sendMail [PyCase] {sender : NotificationSender F} {n : Notice} {body : Str}
    {username password : PyVal F} (h : Prog.Runs (sendMail sender n body username password) asked r) :
    ((∃ b, r = .ok b) ↔ MailUsable sender.emailTo asked) ∧ (r = .ok true ↔ MailAccepted asked) := by
  unfold sendMail at h
  unfold MailUsable MailAccepted
  simp only [Prog.runs_bind_iff, Prog.runs_call_iff] at h
  rcases h with ⟨encoded, _, rest, rfl, rfl, h⟩
  rcases encoded with e | done
  · rcases Prog.runs_pure_iff.mp h with ⟨rfl, rfl⟩
    simp [IsUnencodable, IsTaken]
  · cases hjoin : joinable sender.emailTo with
    | none =>
      simp only [hjoin] at h
      rcases Prog.runs_pure_iff.mp h with ⟨rfl, rfl⟩
      simp [IsEncoded, IsTaken]
    | some recipients =>
      simp only [hjoin, Prog.runs_bind_iff] at h
      rcases h with ⟨connected, calls, rest, rfl, hconnect, h⟩
      have hcalls : calls = [⟨.smtpConnect sender.emailSmtpHost sender.emailSmtpPort, connected⟩] :=
        Prog.runs_call_iff.mp hconnect
      subst hcalls
      cases connected with
      | false =>
        rcases Prog.runs_pure_iff.mp h with ⟨rfl, rfl⟩
        simp [IsUnencodable, IsUnwritable, IsTaken]
      | true =>
        simp only [Prog.runs_bind_iff, Prog.runs_pure_iff] at h
        rcases h with ⟨mailed, within, _, rfl, hwithin, left, calls, _, rfl, hleft, rfl, rfl⟩
        have hcalls : calls = [⟨.smtpQuit, left⟩] := Prog.runs_call_iff.mp hleft
        subst hcalls
        have hends := runs_mailWithin hwithin
        have hquiet : ∀ P : Made F → Prop, (∀ m ∈ within, ¬ P m) → ¬ ∃ m ∈ within, P m :=
          fun P h hex => hex.elim fun m hm => h m hm.1 hm.2
        have hencodable := hquiet IsUnencodable fun m hm => (hends.within m hm).quiet.1
        have hleaves := hquiet IsLeft fun m hm => (hends.within m hm).quiet.2.2
        rw [exists_mem_mail (P := IsUnwritable) id id, exists_mem_mail (P := IsTaken) id id,
          exists_mem_mail (P := IsLeft) id id, exists_mem_mail (P := IsUnencodable) id id,
          ← hends.raised, ← hends.sent]
        simp only [hencodable, hleaves, Option.isSome_some, implies_true, true_and, false_or]
        -- a server that is left with an error turns whatever ended the block into `False`
        cases left with
        | false => cases mailed <;> simp [IsLeft, IsUnencodable]
        | true => cases mailed <;> simp [IsLeft, IsUnencodable, IsUnwritable, IsTaken]

omit [PyRuntime F] in
/-- Lookups are no steps of a mail. -/
theorem exists_mem_after_reads (P : Made F → Prop) {before : List (Made F)} (after : List (Made F))
    (hreads : ∀ m ∈ before, IsRead m) (hquiet : ∀ m, IsRead m → ¬ P m) :
    (∃ m ∈ before ++ after, P m) ↔ ∃ m ∈ after, P m := by
  constructor
  · rintro ⟨m, hm, hP⟩
    rcases List.mem_append.mp hm with hm | hm
    · exact absurd hP (hquiet m (hreads m hm))
    · exact ⟨m, hm, hP⟩
  · rintro ⟨m, hm, hP⟩
    exact ⟨m, List.mem_append_right _ hm, hP⟩

omit [PyRuntime F] in
theorem IsRead.quiet {m : Made F} (h : IsRead m) :
    ¬ IsUnencodable m ∧ ¬ IsEncoded m ∧ ¬ IsUnwritable m ∧ ¬ IsTaken m ∧ ¬ IsLeft m := by
  rcases m with ⟨call, answer⟩
  cases call with
  | getSecret path => exact ⟨id, id, id, id, id⟩
  | _ => exact absurd h id

omit [PyRuntime F] in
theorem mailUsable_after_reads {mailTo : PyVal F} {before after : List (Made F)}
    (hreads : ∀ m ∈ before, IsRead m) : MailUsable mailTo (before ++ after) ↔ MailUsable mailTo after := by
  have hunencodable := exists_mem_after_reads IsUnencodable after hreads
    fun m hm => hm.quiet.1
  have hencoded := exists_mem_after_reads IsEncoded after hreads
    fun m hm => hm.quiet.2.1
  have hunwritable := exists_mem_after_reads IsUnwritable after hreads
    fun m hm => hm.quiet.2.2.1
  have hleft := exists_mem_after_reads IsLeft after hreads
    fun m hm => hm.quiet.2.2.2.2
  unfold MailUsable
  rw [hunencodable, hencoded, hunwritable, hleft]

omit [PyRuntime F] in
theorem mailAccepted_after_reads {before after : List (Made F)} (hreads : ∀ m ∈ before, IsRead m) :
    MailAccepted (before ++ after) ↔ MailAccepted after := by
  have htaken := exists_mem_after_reads IsTaken after hreads
    fun m hm => hm.quiet.2.2.2.1
  have hleft := exists_mem_after_reads IsLeft after hreads
    fun m hm => hm.quiet.2.2.2.2
  unfold MailAccepted
  rw [htaken, hleft]

/-! ## The channels -/

/-- The credentials of a mail, and then the mail. -/
def EmailUsable (sender : NotificationSender F) (asked : List (Made F)) : Prop :=
  let (username, answers) := lookup sender.emailUsername (reads asked)
  let (password, _) := lookup sender.emailPassword answers
  username ≠ .raises ∧ (username = .found → password ≠ .raises ∧
    (password = .found → MailUsable sender.emailTo asked))

/-- A credential that may be missing. -/
theorem runs_withOptionalKey {key : PyVal F} {next : PyVal F → Effect F (Py Bool)}
    (h : Prog.Runs (withOptionalKey key next) asked r) :
    ∃ before after, asked = before ++ after ∧ (∀ m ∈ before, IsRead m) ∧
      (((lookup key (reads asked)).1 = .raises ∧ after = [] ∧ ∃ e, r = .error e) ∨
        ((lookup key (reads asked)).1 = .unavailable ∧ after = [] ∧ r = .ok false) ∨
        lookup key (reads asked) = (.found, reads after) ∧ ∃ v, Prog.Runs (next v) after r) := by
  unfold withOptionalKey at h
  by_cases htruthy : truthy key = true
  · rw [if_pos htruthy] at h
    exact runs_withKey h
  · rw [if_neg htruthy] at h
    refine ⟨[], asked, rfl, by simp, Or.inr (Or.inr ⟨?_, .none, h⟩)⟩
    unfold lookup
    rw [if_neg htruthy]

theorem runs_email [PyCase] {sender : NotificationSender F} {n : Notice} {body : Str}
    (h : Prog.Runs (withOptionalKey sender.emailUsername fun username =>
      withOptionalKey sender.emailPassword fun password => sendMail sender n body username password)
      asked r) :
    ((∃ b, r = .ok b) ↔ EmailUsable sender asked) ∧ (r = .ok true ↔ MailAccepted asked) := by
  have hunaccepted : ∀ before : List (Made F), (∀ m ∈ before, IsRead m) → ¬ MailAccepted before := by
    rintro before hreads ⟨⟨m, hm, htaken⟩, -⟩
    exact (hreads m hm).quiet.2.2.2.1 htaken
  unfold EmailUsable
  rcases runs_withOptionalKey h with ⟨before, after, rfl, hreads, ⟨hraises, rfl, e, rfl⟩ |
    ⟨hunavailable, rfl, rfl⟩ | ⟨hfound, username, hrun⟩⟩
  · rw [List.append_nil] at hraises ⊢
    simp [hraises, hunaccepted before hreads]
  · rw [List.append_nil] at hunavailable ⊢
    simp [hunavailable, hunaccepted before hreads]
  · rw [hfound, mailUsable_after_reads hreads, mailAccepted_after_reads hreads]
    rcases runs_withOptionalKey hrun with ⟨before', rest, rfl, hreads', ⟨hraises, rfl, e, rfl⟩ |
      ⟨hunavailable, rfl, rfl⟩ | ⟨hfound', password, hmail⟩⟩
    · rw [List.append_nil] at hraises ⊢
      simp [hraises, hunaccepted before' hreads']
    · rw [List.append_nil] at hunavailable ⊢
      simp [hunavailable, hunaccepted before' hreads']
    · rcases runs_sendMail hmail with ⟨hreturns, haccepted⟩
      rw [hreturns, haccepted, mailUsable_after_reads hreads', mailAccepted_after_reads hreads']
      simp [hfound']

variable (O : Type) [PyObjects F O]

/-- A channel raises nothing: it is not set up, not for the status, or its template and what it
takes to deliver are usable. -/
def Usable (sender : NotificationSender F) (n : Notice) (asked : List (Made F)) : Channel → Prop
  | .slack => SendUsable [sender.slackEnabled, sender.slackUrl] sender.slackNotifyOn n.status
      (TemplateUsable O sender .slack (n.fields (n.severityOr (py "info")))) True
  | .teams => SendUsable [sender.teamsEnabled, sender.teamsUrl] sender.teamsNotifyOn n.status
      (TemplateUsable O sender .teams (n.fields (n.severityOr (py "info")))) True
  | .email => SendUsable [sender.emailEnabled, sender.emailSmtpHost, sender.emailTo]
      sender.emailNotifyOn n.status
      (TemplateUsable O sender .email (n.fields (n.severityOr (py "info")))) (EmailUsable sender asked)
  | .pagerduty => SendUsable [sender.pagerdutyEnabled, sender.pagerdutyRoutingKey]
      sender.pagerdutyNotifyOn n.status
      (TemplateUsable O sender .pagerduty (n.fields n.pagedSeverity))
      (KeyedUsable sender.pagerdutyRoutingKey asked)
  | .opsgenie => SendUsable [sender.opsgenieEnabled, sender.opsgenieApiKey] sender.opsgenieNotifyOn
      n.status (TemplateUsable O sender .opsgenie (n.fields n.pagedSeverity))
      (KeyedUsable sender.opsgenieApiKey asked)

/-- The other side of a channel takes the notification. -/
def Accepts (asked : List (Made F)) : Channel → Prop
  | .slack => ∃ m ∈ asked, IsAccepted [200] m
  | .teams => ∃ m ∈ asked, IsAccepted [200, 201] m
  | .email => MailAccepted asked
  | .pagerduty | .opsgenie => ∃ m ∈ asked, IsAccepted [202] m

omit [PyRuntime F] in
theorem not_accepts_nil (channel : Channel) : ¬ Accepts ([] : List (Made F)) channel := by
  cases channel <;> simp [Accepts, MailAccepted]

variable {O} [PyCase] {sender : NotificationSender F} {n : Notice}

/-- A channel returns exactly when it is usable, and delivers exactly when it is accepted. -/
theorem runs_send {channel : Channel} (h : Prog.Runs (send O sender n channel) asked r) :
    ((∃ b, r = .ok b) ↔ Usable O sender n asked channel) ∧ (r = .ok true ↔ Accepts asked channel) := by
  have hnone : asked = [] → ¬ Accepts asked channel := by
    rintro rfl
    exact not_accepts_nil channel
  cases channel with
  | slack =>
    exact ⟨returns_sendWith (render_isOk_iff O)
        (fun t ht => iff_of_true (runs_postGuarded ht).1 trivial) h,
      delivers_sendWith hnone (fun t ht => (runs_postGuarded ht).2) h⟩
  | teams =>
    exact ⟨returns_sendWith (render_isOk_iff O)
        (fun t ht => iff_of_true (runs_postGuarded ht).1 trivial) h,
      delivers_sendWith hnone (fun t ht => (runs_postGuarded ht).2) h⟩
  | email =>
    exact ⟨returns_sendWith (render_isOk_iff O) (fun t ht => (runs_email ht).1) h,
      delivers_sendWith hnone (fun t ht => (runs_email ht).2) h⟩
  | pagerduty =>
    exact ⟨returns_sendWith (render_isOk_iff O)
        (fun t ht => (runs_keyed (fun v => ⟨_, _, _, rfl⟩) ht).1) h,
      delivers_sendWith hnone
        (fun t ht => (runs_keyed (fun v => ⟨_, _, _, rfl⟩) ht).2) h⟩
  | opsgenie =>
    exact ⟨returns_sendWith (render_isOk_iff O)
        (fun t ht => (runs_keyed (fun v => ⟨_, _, _, rfl⟩) ht).1) h,
      delivers_sendWith hnone
        (fun t ht => (runs_keyed (fun v => ⟨_, _, _, rfl⟩) ht).2) h⟩

end AutoHeal.Notify
