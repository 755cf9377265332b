import AutoHeal.Python.Runtime

/-!
# Dates

Instants in UTC as microseconds since the beginning of year 1, their two texts
in the program, and the arithmetic of `timedelta`, which raises `OverflowError`
outside of years 1 to 9999.
-/

namespace AutoHeal

/-- The microseconds of a day. -/
def dayMicros : Nat := 86400000000

/-- The microseconds of years 1 to 9999. -/
def maxMicros : Nat := 3652059 * dayMicros

/-- A `datetime` in UTC. -/
structure DateTime where
  micros : Nat
  lt : micros < maxMicros
  deriving DecidableEq

/-- Decimal text with at least `width` digits. -/
def padded (width n : Nat) : Str := List.replicate (width - (natText n).length) 48 ++ natText n

/-- Year, month and day, of a number of days since the beginning of year 1. -/
def civil (days : Nat) : Nat × Nat × Nat :=
  -- years that begin in March, in eras of 400 of them
  let z := days + 306
  let era := z / 146097
  let doe := z % 146097
  let yoe := (doe - doe / 1460 + doe / 36524 - doe / 146096) / 365
  let doy := doe - (365 * yoe + yoe / 4 - yoe / 100)
  let mp := (5 * doy + 2) / 153
  let month := if mp < 10 then mp + 3 else mp - 9
  (yoe + era * 400 + (if month ≤ 2 then 1 else 0), month, doy - (153 * mp + 2) / 5 + 1)

def DateTime.second (t : DateTime) : Nat := t.micros / 1000000 % 86400

/-- `t.isoformat().replace("+00:00", "Z")`. -/
def DateTime.isoformatZ (t : DateTime) : Str :=
  let (year, month, day) := civil (t.micros / dayMicros)
  let fraction := t.micros % 1000000
  padded 4 year ++ py "-" ++ padded 2 month ++ py "-" ++ padded 2 day ++ py "T" ++
    padded 2 (t.second / 3600) ++ py ":" ++ padded 2 (t.second / 60 % 60) ++ py ":" ++
    padded 2 (t.second % 60) ++ (if fraction = 0 then [] else py "." ++ padded 6 fraction) ++ py "Z"

/-- `t.strftime("%Y%m%dT%H%M%SZ")`, the year unpadded. -/
def DateTime.stamp (t : DateTime) : Str :=
  let (year, month, day) := civil (t.micros / dayMicros)
  natText year ++ padded 2 month ++ padded 2 day ++ py "T" ++ padded 2 (t.second / 3600) ++
    padded 2 (t.second / 60 % 60) ++ padded 2 (t.second % 60) ++ py "Z"

example : (⟨63902736000500000, by decide⟩ : DateTime).isoformatZ =
    py "2025-12-31T00:00:00.500000Z" := by decide

/-- What `datetime.fromisoformat` returns: an instant, or a time of no known zone. -/
inductive IsoTime where
  | aware (micros : Int)
  | naive

/-- The conversions of dates the program uses and this development does not
define. -/
class PyDates (F : Type) where
  /-- `datetime.fromisoformat(text)`, `none` being `ValueError` -/
  fromIsoformat : Str → Option IsoTime
  /-- `timedelta(days=x)` of a float, in microseconds -/
  floatDays : F → Py Int

instance : PyDates NanFloat where
  fromIsoformat _ := none
  floatDays _ := .error .valueError

variable {F : Type} [PyDates F]

/-- `timedelta(days=v)`, in microseconds. -/
def timedeltaDays (v : PyVal F) : Py Int :=
  match v.num with
  | some (.inl n) => if n.natAbs ≤ 999999999 then .ok (n * dayMicros) else .error .overflowError
  | some (.inr x) => PyDates.floatDays x
  | none => .error .typeError

/-- `t - delta`. -/
def DateTime.sub (t : DateTime) (delta : Int) : Py DateTime :=
  if h : 0 ≤ (t.micros : Int) - delta ∧ ((t.micros : Int) - delta).toNat < maxMicros then
    .ok ⟨((t.micros : Int) - delta).toNat, h.2⟩
  else .error .overflowError

/-- `t - other`, in microseconds. -/
def DateTime.since (t : DateTime) : IsoTime → Py Int
  | .aware micros => .ok (t.micros - micros)
  | .naive => .error .typeError

/-! ## The texts are plain -/

theorem printable_natText (n : Nat) : Printable (natText n) :=
  printable_digits fun _ hc => isDigit_of_mem_natText hc

theorem printable_padded (width n : Nat) : Printable (padded width n) := by
  rw [padded, printable_append]
  refine ⟨fun c hc => ?_, printable_natText n⟩
  rw [List.eq_of_mem_replicate hc]
  decide

theorem printable_isoformatZ (t : DateTime) : Printable t.isoformatZ := by
  have hfraction : Printable (if t.micros % 1000000 = 0 then []
      else py "." ++ padded 6 (t.micros % 1000000)) := by
    split
    · exact printable_nil
    · exact printable_append.mpr ⟨by decide, printable_padded _ _⟩
  simp only [DateTime.isoformatZ, printable_append, printable_padded, hfraction, and_true, true_and]
  decide

theorem printable_stamp (t : DateTime) : Printable t.stamp := by
  simp only [DateTime.stamp, printable_append, printable_padded, printable_natText, and_true,
    true_and]
  decide

end AutoHeal
