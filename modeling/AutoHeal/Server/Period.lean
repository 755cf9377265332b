import AutoHeal.Python.DateOrder
import AutoHeal.Server.Reads

/-!
# The period of a query

`filter_audit_entry` compares texts where instants are meant. The two orders differ for a bound
in the second of the timestamp where exactly one of the two has a fraction, and then the bound is
read the other way round.
-/

namespace AutoHeal.Server

open Audit

/-- The instant is not before the bound, if there is one. -/
def NotBefore (start : Option DateTime) (t : DateTime) : Prop := ∀ s ∈ start, s.micros ≤ t.micros

/-- The instant is not after the bound, if there is one. -/
def NotAfter (stop : Option DateTime) (t : DateTime) : Prop := ∀ s ∈ stop, t.micros ≤ s.micros

/-- The bound is in the second of the instant, and exactly one of the two has a fraction. -/
def MixedWith (bound : Option DateTime) (t : DateTime) : Prop := ∃ s ∈ bound, Mixed s t

instance (bound : Option DateTime) (t : DateTime) : Decidable (MixedWith bound t) :=
  inferInstanceAs (Decidable (∃ s ∈ bound, Mixed s t))

/-- One bound is read the other way round, the other is not and is met. -/
def Misread (start stop : Option DateTime) (t : DateTime) : Prop :=
  MixedWith start t ∧ ¬ MixedWith stop t ∧ NotAfter stop t ∨
    MixedWith stop t ∧ ¬ MixedWith start t ∧ NotBefore start t

/-! ## The bounds -/

section Bounds

variable {start stop : Option DateTime} {t : DateTime}

theorem isoformatZ_ne_nil (t : DateTime) : t.isoformatZ ≠ [] := by
  rw [isoformatZ_eq]
  simp [fractionText, py]

/-- What the start of a query keeps. -/
theorem start_iff :
    ((start.map DateTime.isoformatZ).all fun s => s = [] ∨ ¬ t.isoformatZ < s) = true ↔
      if MixedWith start t then ¬ NotBefore start t else NotBefore start t := by
  cases start with
  | none => simp [MixedWith, NotBefore]
  | some s =>
    simp only [Option.map_some, Option.all_some, decide_eq_true_eq, isoformatZ_ne_nil, false_or,
      isoformatZ_lt_iff, MixedWith, NotBefore, Option.mem_some_iff, exists_eq_left',
      forall_eq', mixed_comm (a := t)]
    split_ifs with hmixed
    · have hne := hmixed.ne
      omega
    · omega

/-- What the end of a query keeps. -/
theorem stop_iff :
    ((stop.map DateTime.isoformatZ).all fun s => s = [] ∨ ¬ s < t.isoformatZ) = true ↔
      if MixedWith stop t then ¬ NotAfter stop t else NotAfter stop t := by
  cases stop with
  | none => simp [MixedWith, NotAfter]
  | some s =>
    simp only [Option.map_some, Option.all_some, decide_eq_true_eq, isoformatZ_ne_nil, false_or,
      isoformatZ_lt_iff, MixedWith, NotAfter, Option.mem_some_iff, exists_eq_left', forall_eq']
    split_ifs with hmixed
    · have hne := hmixed.ne
      omega
    · omega

/-- Two bounds that are both read the other way round are on one side of the instant. -/
theorem notBefore_iff_of_mixed (hstart : MixedWith start t) (hstop : MixedWith stop t) :
    NotBefore start t ↔ ¬ NotAfter stop t := by
  rcases hstart with ⟨s, hs, hsame, hfraction⟩
  rcases hstop with ⟨e, he, hsame', hfraction'⟩
  rw [Option.mem_def] at hs he
  subst hs he
  simp only [NotBefore, NotAfter, Option.mem_some_iff, forall_eq']
  unfold DateTime.seconds at hsame hsame'
  unfold DateTime.fraction at hfraction hfraction'
  omega

/-- The texts are within a period when the instant is, unless a bound is misread. -/
theorem textWithin_iff :
    (textWithin (start.map DateTime.isoformatZ) (stop.map DateTime.isoformatZ) t.isoformatZ = true ↔
      NotBefore start t ∧ NotAfter stop t) ↔ ¬ Misread start stop t := by
  unfold textWithin Misread
  rw [Bool.and_eq_true, start_iff, stop_iff]
  by_cases hstart : MixedWith start t
  · by_cases hstop : MixedWith stop t
    · have hside := notBefore_iff_of_mixed hstart hstop
      rw [if_pos hstart, if_pos hstop]
      tauto
    · rw [if_pos hstart, if_neg hstop]
      tauto
  · by_cases hstop : MixedWith stop t
    · rw [if_neg hstart, if_pos hstop]
      tauto
    · rw [if_neg hstart, if_neg hstop]
      tauto

end Bounds

/-! ## The filter -/

section Filter

variable {F : Type} [PyRuntime F] {entry : Dict F} {start stop : Option DateTime} {t : DateTime}

/-- A query with a period, and nothing else. -/
def periodQuery (start stop : Option DateTime) : AuditQueryParams :=
  { AuditQueryParams.all with
    start := start.map DateTime.isoformatZ, stop := stop.map DateTime.isoformatZ }

theorem inPeriod_eq (hstamp : field (py "timestamp") entry = .str t.isoformatZ) :
    inPeriod (.dict entry) (start.map DateTime.isoformatZ) (stop.map DateTime.isoformatZ) =
      .ok (textWithin (start.map DateTime.isoformatZ) (stop.map DateTime.isoformatZ)
        t.isoformatZ) := by
  unfold inPeriod
  split_ifs with hgiven
  · simp [getField, hstamp, truthy, isoformatZ_ne_nil, bind, Except.bind]
  · cases start with
    | some s => simp [given, isoformatZ_ne_nil] at hgiven
    | none =>
      cases stop with
      | some s => simp [given, isoformatZ_ne_nil] at hgiven
      | none => rfl

/-- A query with a period alone selects by its date part. -/
theorem matchingEntry_periodQuery {line : Str} (hline : loads line = some (.dict entry)) :
    matchingEntry (periodQuery start stop) line = some (.dict entry) ↔
      inPeriod (.dict entry) (start.map DateTime.isoformatZ) (stop.map DateTime.isoformatZ) =
        .ok true := by
  have hfilter : filterAuditEntry (.dict entry) (periodQuery start stop) =
      allPass [inPeriod (PyVal.dict entry) (start.map DateTime.isoformatZ)
        (stop.map DateTime.isoformatZ), .ok true, .ok true, .ok true, .ok true] := rfl
  unfold matchingEntry
  simp only [hline, hfilter]
  cases inPeriod (PyVal.dict entry) (start.map DateTime.isoformatZ) (stop.map DateTime.isoformatZ) with
  | error e => simp [allPass, Except.bind]
  | ok kept => cases kept <;> simp [allPass, Except.bind]

/-- For every entry with a timestamp as `write_audit_log` writes it and every two bounds of that
form, each of which may be absent: the date part of the filter keeps the entry, and `/audit`
selects its line, exactly when the instant is in the period, if and only if no bound is
misread. -/
theorem period_exact (entry : Dict F) (line : Str) (start stop : Option DateTime) (t : DateTime)
    (hline : loads line = some (.dict entry))
    (hstamp : field (py "timestamp") entry = .str t.isoformatZ) :
    ((inPeriod (.dict entry) (start.map DateTime.isoformatZ) (stop.map DateTime.isoformatZ) =
        .ok true ↔ NotBefore start t ∧ NotAfter stop t) ↔ ¬ Misread start stop t) ∧
      ((matchingEntry (periodQuery start stop) line = some (.dict entry) ↔
        NotBefore start t ∧ NotAfter stop t) ↔ ¬ Misread start stop t) := by
  have hdates : (inPeriod (.dict entry) (start.map DateTime.isoformatZ)
      (stop.map DateTime.isoformatZ) = .ok true ↔ NotBefore start t ∧ NotAfter stop t) ↔
      ¬ Misread start stop t := by
    rw [inPeriod_eq hstamp, ← textWithin_iff]
    simp
  refine ⟨hdates, ?_⟩
  rw [matchingEntry_periodQuery hline]
  exact hdates

end Filter

/-- A second of the year 2026, and half a second after it. -/
def wholeSecond : DateTime := ⟨63902822400000000, by decide⟩

def halfLater : DateTime := ⟨63902822400500000, by decide⟩

/-- An entry of half past a second. -/
def stampedEntry : Dict NanFloat := [(.str (py "timestamp"), .str halfLater.isoformatZ)]

theorem loads_stampedEntry :
    loads (print .spaced (PyVal.dict stampedEntry)) = some (PyVal.dict stampedEntry) := by
  rw [loads_print_eq, readBack_jsonValue]
  exact jsonValue_empty.cons (by decide) rfl (.str (printable_isoformatZ _).noHigh.join)

/-- A period that ends at the timestamp itself. -/
theorem period_exact_example :
    inPeriod (PyVal.dict stampedEntry) none ((some halfLater).map DateTime.isoformatZ) = .ok true ↔
      NotBefore none halfLater ∧ NotAfter (some halfLater) halfLater :=
  (period_exact stampedEntry (print .spaced (PyVal.dict stampedEntry)) none (some halfLater) halfLater
    loads_stampedEntry rfl).1.mpr (by
      rintro (⟨⟨s, hs, -⟩, -⟩ | ⟨⟨s, hs, hmixed⟩, -⟩)
      · cases hs
      · cases hs
        exact hmixed.ne rfl)

/-- An entry of half past a second is dropped when its period begins with that second. -/
theorem period_misread :
    ¬ ∀ (entry : Dict NanFloat) (start stop : Option DateTime) (t : DateTime),
      field (py "timestamp") entry = .str t.isoformatZ →
      (inPeriod (.dict entry) (start.map DateTime.isoformatZ) (stop.map DateTime.isoformatZ) =
        .ok true ↔ NotBefore start t ∧ NotAfter stop t) := by
  intro hclaim
  have hperiod := hclaim stampedEntry (some wholeSecond) none halfLater rfl
  have hstamp : field (py "timestamp") stampedEntry = .str halfLater.isoformatZ := rfl
  rw [inPeriod_eq hstamp, Except.ok.injEq] at hperiod
  have hmixed : MixedWith (some wholeSecond) halfLater := ⟨wholeSecond, rfl, by decide +kernel⟩
  refine textWithin_iff.mp hperiod (Or.inl ⟨hmixed, ?_, ?_⟩)
  · rintro ⟨s, hs, -⟩
    cases hs
  · intro s hs
    cases hs

end AutoHeal.Server
