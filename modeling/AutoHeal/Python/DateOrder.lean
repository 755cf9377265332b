import AutoHeal.Python.Datetime
import Mathlib.Tactic.Ring

/-!
# The order of dates and of their texts

Digits of equal length are in the order of their numbers, and the fields of a date are in the
order of the days, so the texts of two instants are in the order of the seconds
(`isoformatZ_lt_of_seconds_lt`). Within a second the text with a fraction is the smaller one, `.`
being before `Z`: where one instant has a fraction and the other has none (`Mixed`), the order of
the texts is not that of the instants.
-/

namespace AutoHeal

/-! ## Digits -/

section Digits

variable {s t u v : Str}

/-- Texts of equal length decide what comes before what. -/
theorem append_lt_append (hlength : s.length = t.length) (h : s < t) (u v : Str) :
    s ++ u < t ++ v := by
  induction s generalizing t with
  | nil =>
    rw [List.eq_nil_of_length_eq_zero hlength.symm] at h
    exact absurd h (lt_irrefl _)
  | cons c s ih =>
    cases t with
    | nil => cases hlength
    | cons d t =>
      rw [List.cons_append, List.cons_append, List.cons_lt_cons_iff]
      rcases List.cons_lt_cons_iff.mp h with hlt | ⟨rfl, hlt⟩
      · exact Or.inl hlt
      · exact Or.inr ⟨rfl, ih (Nat.succ.inj hlength) hlt⟩

theorem append_lt_append_left (s : Str) (h : u < v) : s ++ u < s ++ v := by
  induction s with
  | nil => exact h
  | cons c s ih => exact List.cons_lt_cons_iff.mpr (Or.inr ⟨rfl, ih⟩)

theorem digitsValue_append (s t : Str) :
    digitsValue (s ++ t) = digitsValue s * 10 ^ t.length + digitsValue t := by
  unfold digitsValue
  rw [List.foldl_append]
  generalize s.foldl (fun acc c => 10 * acc + (c.val - 48)) 0 = acc
  induction t generalizing acc with
  | nil => simp
  | cons c t ih =>
    rw [List.foldl_cons, List.foldl_cons, ih, ih (10 * 0 + _), List.length_cons, Nat.pow_succ]
    ring

theorem digitsValue_cons (c : CodePoint) (s : Str) :
    digitsValue (c :: s) = (c.val - 48) * 10 ^ s.length + digitsValue s := by
  have happend := digitsValue_append [c] s
  simpa [digitsValue] using happend

/-- Digits are a number of as many digits. -/
theorem digitsValue_lt (h : ∀ c ∈ s, isDigit c = true) : digitsValue s < 10 ^ s.length := by
  induction s with
  | nil => exact Nat.one_pos
  | cons c s ih =>
    have hc : c.val - 48 ≤ 9 := by
      have hdigit := h c List.mem_cons_self
      unfold isDigit at hdigit
      simp only [Bool.and_eq_true, decide_eq_true_eq] at hdigit
      omega
    have hs := ih fun d hd => h d (List.mem_cons_of_mem _ hd)
    have hle : (c.val - 48) * 10 ^ s.length ≤ 9 * 10 ^ s.length := Nat.mul_le_mul_right _ hc
    rw [digitsValue_cons, List.length_cons, Nat.pow_succ]
    omega

/-- Digits of equal length are in the order of their numbers. -/
theorem lt_of_digitsValue_lt (hs : ∀ c ∈ s, isDigit c = true) (ht : ∀ c ∈ t, isDigit c = true)
    (hlength : s.length = t.length) (h : digitsValue s < digitsValue t) : s < t := by
  induction s generalizing t with
  | nil =>
    rw [List.eq_nil_of_length_eq_zero hlength.symm] at h
    exact absurd h (Nat.lt_irrefl _)
  | cons c s ih =>
    cases t with
    | nil => cases hlength
    | cons d t =>
      rcases List.forall_mem_cons.mp hs with ⟨-, hs'⟩
      rcases List.forall_mem_cons.mp ht with ⟨hd, ht'⟩
      have hrest : s.length = t.length := Nat.succ.inj hlength
      rw [digitsValue_cons, digitsValue_cons, ← hrest] at h
      have hsmall := digitsValue_lt ht'
      rw [← hrest] at hsmall
      apply List.cons_lt_cons_iff.mpr
      rcases lt_trichotomy c d with hlt | rfl | hlt
      · exact Or.inl hlt
      · exact Or.inr ⟨rfl, ih hs' ht' hrest (Nat.lt_of_add_lt_add_left h)⟩
      · -- a larger first digit makes the larger number
        have hval : d.val - 48 + 1 ≤ c.val - 48 := by
          unfold isDigit at hd
          simp only [Bool.and_eq_true, decide_eq_true_eq] at hd
          have hlt : d.val < c.val := hlt
          omega
        have hle := Nat.mul_le_mul_right (10 ^ s.length) hval
        rw [Nat.add_mul] at hle
        omega

end Digits

/-! ## Numbers of a width -/

section Padded

variable {width m n : Nat}

theorem isDigit_of_mem_padded {c : CodePoint} (h : c ∈ padded width n) : isDigit c = true := by
  rcases List.mem_append.mp h with h | h
  · rw [List.eq_of_mem_replicate h]
    decide
  · exact isDigit_of_mem_natText h

theorem length_padded (hwidth : 0 < width) (h : n < 10 ^ width) : (padded width n).length = width := by
  have hle : (natText n).length ≤ width := by
    unfold natText
    rw [List.length_map]
    exact (Nat.length_toDigits_le_iff (by decide) hwidth).mpr h
  unfold padded
  rw [List.length_append, List.length_replicate]
  omega

theorem digitsValue_padded (width n : Nat) : digitsValue (padded width n) = n := by
  have hzeros : ∀ k, digitsValue (List.replicate k 48) = 0 := by
    intro k
    induction k with
    | zero => rfl
    | succ k ih => rw [List.replicate_succ, digitsValue_cons, ih]; simp
  unfold padded
  rw [digitsValue_append, hzeros, digitsValue_natText]
  simp

/-- A field of a smaller number decides. -/
theorem padded_lt (hwidth : 0 < width) (h : m < n) (hn : n < 10 ^ width) (u v : Str) :
    padded width m ++ u < padded width n ++ v := by
  have hlength : (padded width m).length = (padded width n).length := by
    rw [length_padded hwidth hn, length_padded hwidth (h.trans hn)]
  apply append_lt_append hlength
  apply lt_of_digitsValue_lt
  · exact fun c => isDigit_of_mem_padded
  · exact fun c => isDigit_of_mem_padded
  · exact hlength
  · rwa [digitsValue_padded, digitsValue_padded]

end Padded

/-! ## Days -/

section Civil

/-- The days of an era before a day of it that make up years: leap days left out. -/
def eraDays (doe : Nat) : Nat := doe - doe / 1460 + doe / 36524 - doe / 146096

/-- The day of an era that a year of it begins with. -/
def yearBegin (yoe : Nat) : Nat := 365 * yoe + yoe / 4 - yoe / 100

theorem eraDays_mono {doe doe' : Nat} (h : doe ≤ doe') (hdoe : doe' < 146097) :
    eraDays doe ≤ eraDays doe' := by
  induction doe' , h using Nat.le_induction with
  | base => exact Nat.le_refl _
  | succ n hle ih =>
    refine (ih (by omega)).trans ?_
    unfold eraDays
    omega

/-- The years of an era, checked one by one. -/
theorem eraDays_yearBegin : ∀ yoe < 400, 365 * yoe ≤ eraDays (yearBegin yoe) ∧
    (0 < yoe → eraDays (yearBegin yoe - 1) < 365 * yoe) := by
  decide +kernel

/-- The year of an era a day is in. -/
theorem yearBegin_le {doe : Nat} (hdoe : doe < 146097) :
    eraDays doe / 365 < 400 ∧ yearBegin (eraDays doe / 365) ≤ doe ∧
      doe < yearBegin (eraDays doe / 365) + 366 := by
  have hlast : eraDays doe ≤ eraDays 146096 := eraDays_mono (by omega) (by omega)
  have hyears : eraDays doe / 365 < 400 := by
    have hvalue : eraDays 146096 = 145999 := by decide
    omega
  refine ⟨hyears, ?_, ?_⟩
  -- `eraDays` is monotone, so a day before the year begins would be in an earlier year
  · by_contra hlt
    have hpos : 0 < eraDays doe / 365 := by
      by_contra hzero
      have hyear : eraDays doe / 365 = 0 := by omega
      rw [hyear] at hlt
      exact hlt (Nat.zero_le _)
    have hbefore := (eraDays_yearBegin _ hyears).2 hpos
    have hmono : eraDays doe ≤ eraDays (yearBegin (eraDays doe / 365) - 1) := by
      apply eraDays_mono
      · omega
      · unfold yearBegin
        omega
    omega
  · by_contra hge
    have hnext : yearBegin (eraDays doe / 365 + 1) ≤ yearBegin (eraDays doe / 365) + 366 := by
      unfold yearBegin
      omega
    have hend : yearBegin 399 = 145731 := by decide
    -- the last year of an era has no next one in it
    by_cases hlt : eraDays doe / 365 + 1 < 400
    · have hafter := (eraDays_yearBegin _ hlt).1
      have hmono : eraDays (yearBegin (eraDays doe / 365 + 1)) ≤ eraDays doe :=
        eraDays_mono (by omega) hdoe
      omega
    · have hyear : eraDays doe / 365 = 399 := by omega
      rw [hyear, hend] at hge
      omega

/-- The year of a day, beginning in March. -/
def marchYear (days : Nat) : Nat :=
  eraDays ((days + 306) % 146097) / 365 + (days + 306) / 146097 * 400

/-- The day of that year. -/
def marchDay (days : Nat) : Nat :=
  (days + 306) % 146097 - yearBegin (eraDays ((days + 306) % 146097) / 365)

/-- The date of a day of a year that begins in March. -/
def ofMarch (year doy : Nat) : Nat × Nat × Nat :=
  let mp := (5 * doy + 2) / 153
  let month := if mp < 10 then mp + 3 else mp - 9
  (year + (if month ≤ 2 then 1 else 0), month, doy - (153 * mp + 2) / 5 + 1)

theorem civil_eq (days : Nat) : civil days = ofMarch (marchYear days) (marchDay days) := rfl

theorem marchDay_lt (days : Nat) : marchDay days < 366 := by
  have hdoe : (days + 306) % 146097 < 146097 := Nat.mod_lt _ (by decide)
  have hyear := yearBegin_le hdoe
  unfold marchDay
  omega

/-- A later day is in a later year, or later in the same. -/
theorem march_lt {d e : Nat} (h : d < e) :
    marchYear d < marchYear e ∨ marchYear d = marchYear e ∧ marchDay d < marchDay e := by
  have hd := yearBegin_le (Nat.mod_lt (d + 306) (show 0 < 146097 by decide))
  have he := yearBegin_le (Nat.mod_lt (e + 306) (show 0 < 146097 by decide))
  unfold marchYear marchDay
  rcases Nat.lt_or_ge ((d + 306) / 146097) ((e + 306) / 146097) with hera | hera
  · omega
  · have hsame : (d + 306) / 146097 = (e + 306) / 146097 :=
      Nat.le_antisymm (Nat.div_le_div_right (by omega)) hera
    have hdoe : (d + 306) % 146097 < (e + 306) % 146097 := by omega
    have hmono := eraDays_mono (Nat.le_of_lt hdoe) (Nat.mod_lt _ (by decide))
    rcases Nat.lt_or_ge (eraDays ((d + 306) % 146097) / 365)
      (eraDays ((e + 306) % 146097) / 365) with hyear | hyear
    · omega
    · have hyears : eraDays ((d + 306) % 146097) / 365 = eraDays ((e + 306) % 146097) / 365 :=
        Nat.le_antisymm (Nat.div_le_div_right hmono) hyear
      rw [hyears] at hd ⊢
      omega

/-- A date comes before another: by its year, its month, its day. -/
def Earlier (a b : Nat × Nat × Nat) : Prop :=
  a.1 < b.1 ∨ a.1 = b.1 ∧ (a.2.1 < b.2.1 ∨ a.2.1 = b.2.1 ∧ a.2.2 < b.2.2)

/-- Of two days of a year the later has the later date. -/
theorem ofMarch_lt_of_day {y a b : Nat} (h : a < b) (hb : b < 366) :
    Earlier (ofMarch y a) (ofMarch y b) := by
  unfold Earlier ofMarch
  simp only
  have hmonth : (5 * a + 2) / 153 ≤ (5 * b + 2) / 153 := Nat.div_le_div_right (by omega)
  have hlast : (5 * b + 2) / 153 < 12 := by omega
  rcases Nat.lt_or_ge ((5 * a + 2) / 153) ((5 * b + 2) / 153) with hlt | hge
  · generalize (5 * a + 2) / 153 = m, (5 * b + 2) / 153 = n at *
    split_ifs <;> omega
  · have hsame : (5 * a + 2) / 153 = (5 * b + 2) / 153 := Nat.le_antisymm hmonth hge
    have hbegin : (153 * ((5 * b + 2) / 153) + 2) / 5 ≤ a := by omega
    rw [hsame]
    exact Or.inr ⟨rfl, Or.inr ⟨rfl, by omega⟩⟩

/-- In a later year every date is later. -/
theorem ofMarch_lt_of_year {y z a b : Nat} (h : y < z) (ha : a < 366) :
    Earlier (ofMarch y a) (ofMarch z b) := by
  unfold Earlier ofMarch
  simp only
  have hlast : (5 * a + 2) / 153 < 12 := by omega
  generalize (5 * a + 2) / 153 = m, (5 * b + 2) / 153 = n at *
  split_ifs <;> omega

theorem civil_lt {d e : Nat} (h : d < e) : Earlier (civil d) (civil e) := by
  rw [civil_eq, civil_eq]
  rcases march_lt h with hyear | ⟨hyear, hday⟩
  · exact ofMarch_lt_of_year hyear (marchDay_lt d)
  · rw [hyear]
    exact ofMarch_lt_of_day hday (marchDay_lt e)

/-- Months and days have two digits, and years up to 9999 four. -/
theorem civil_le {days : Nat} (h : days < 3652059) :
    (civil days).1 < 10 ^ 4 ∧ (civil days).2.1 < 10 ^ 2 ∧ (civil days).2.2 < 10 ^ 2 := by
  have hyear : (civil days).1 ≤ 9999 := by
    rcases Nat.lt_or_ge days 3652058 with hlt | hge
    · have hlast : (civil 3652058).1 = 9999 := by decide
      rcases civil_lt hlt with hearlier | ⟨hsame, -⟩
      · omega
      · omega
    · rw [show days = 3652058 by omega]
      decide
  have hday := marchDay_lt days
  rw [civil_eq] at hyear ⊢
  refine ⟨by omega, ?_, ?_⟩
  · unfold ofMarch
    simp only
    split_ifs <;> omega
  · unfold ofMarch
    simp only
    omega

end Civil

/-! ## The texts of instants -/

section Texts

/-- The text of a day. -/
def dateText (days : Nat) : Str :=
  padded 4 (civil days).1 ++ (py "-" ++ (padded 2 (civil days).2.1 ++ (py "-" ++
    padded 2 (civil days).2.2)))

/-- The text of a second of a day. -/
def clockText (second : Nat) : Str :=
  padded 2 (second / 3600) ++ (py ":" ++ (padded 2 (second / 60 % 60) ++ (py ":" ++
    padded 2 (second % 60))))

/-- The text after the seconds. -/
def fractionText (fraction : Nat) : Str :=
  (if fraction = 0 then [] else py "." ++ padded 6 fraction) ++ py "Z"

/-- The whole seconds of an instant, and the microseconds after them. -/
def DateTime.seconds (t : DateTime) : Nat := t.micros / 1000000

def DateTime.fraction (t : DateTime) : Nat := t.micros % 1000000

theorem isoformatZ_eq (t : DateTime) :
    t.isoformatZ = dateText (t.seconds / 86400) ++ (py "T" ++ (clockText (t.seconds % 86400) ++
      fractionText t.fraction)) := by
  have hdays : t.micros / dayMicros = t.seconds / 86400 := by
    unfold dayMicros DateTime.seconds
    rw [Nat.div_div_eq_div_mul]
  unfold DateTime.isoformatZ dateText clockText fractionText DateTime.second
  rw [hdays]
  simp only [List.append_assoc]
  rfl

theorem dateText_lt {d e : Nat} (h : d < e) (he : e < 3652059) (u v : Str) :
    dateText d ++ u < dateText e ++ v := by
  rcases civil_le he with ⟨hyear, hmonth, hday⟩
  unfold dateText
  simp only [List.append_assoc]
  rcases civil_lt h with hlt | ⟨hsame, hlt | ⟨hsame', hlt⟩⟩
  · exact padded_lt (by decide) hlt hyear _ _
  · rw [hsame]
    apply append_lt_append_left
    apply append_lt_append_left
    exact padded_lt (by decide) hlt hmonth _ _
  · rw [hsame, hsame']
    iterate 4 apply append_lt_append_left
    exact padded_lt (by decide) hlt hday _ _

theorem clockText_lt {m n : Nat} (h : m < n) (hn : n < 86400) (u v : Str) :
    clockText m ++ u < clockText n ++ v := by
  unfold clockText
  simp only [List.append_assoc]
  rcases Nat.lt_or_ge (m / 3600) (n / 3600) with hlt | hge
  · exact padded_lt (by decide) hlt (by omega) _ _
  · rw [show m / 3600 = n / 3600 by omega]
    apply append_lt_append_left
    apply append_lt_append_left
    rcases Nat.lt_or_ge (m / 60 % 60) (n / 60 % 60) with hlt | hge
    · exact padded_lt (by decide) hlt (by omega) _ _
    · rw [show m / 60 % 60 = n / 60 % 60 by omega]
      apply append_lt_append_left
      apply append_lt_append_left
      exact padded_lt (by decide) (by omega) (by omega) _ _

variable {a b : DateTime}

/-- The texts of instants are in the order of their seconds. -/
theorem isoformatZ_lt_of_seconds_lt (h : a.seconds < b.seconds) : a.isoformatZ < b.isoformatZ := by
  have hb : b.seconds / 86400 < 3652059 := by
    have hlt := b.lt
    unfold maxMicros dayMicros at hlt
    unfold DateTime.seconds
    omega
  rw [isoformatZ_eq, isoformatZ_eq]
  rcases Nat.lt_or_ge (a.seconds / 86400) (b.seconds / 86400) with hlt | hge
  · exact dateText_lt hlt hb _ _
  · rw [show a.seconds / 86400 = b.seconds / 86400 by omega]
    apply append_lt_append_left
    apply append_lt_append_left
    exact clockText_lt (by omega) (Nat.mod_lt _ (by decide)) _ _

/-- Within a second the fractions decide. -/
theorem isoformatZ_lt_of_fraction (h : a.seconds = b.seconds)
    (hlt : fractionText a.fraction < fractionText b.fraction) : a.isoformatZ < b.isoformatZ := by
  rw [isoformatZ_eq, isoformatZ_eq, h]
  iterate 3 apply append_lt_append_left
  exact hlt

theorem fractionText_lt {m n : Nat} (hm : m ≠ 0) (h : m < n) (hn : n < 1000000) :
    fractionText m < fractionText n := by
  unfold fractionText
  rw [if_neg hm, if_neg (by omega), List.append_assoc, List.append_assoc]
  apply append_lt_append_left
  exact padded_lt (by decide) h (by omega) _ _

/-- A text with a fraction comes before one without. -/
theorem fractionText_lt_zero {m : Nat} (hm : m ≠ 0) : fractionText m < fractionText 0 := by
  unfold fractionText
  rw [if_neg hm, if_pos rfl, List.append_assoc]
  exact List.cons_lt_cons_iff.mpr (Or.inl (by decide))

theorem DateTime.ext (h : a.micros = b.micros) : a = b := by
  cases a
  cases b
  cases h
  rfl

/-- Two instants of one second, of which exactly one has a fraction. -/
def Mixed (a b : DateTime) : Prop :=
  a.seconds = b.seconds ∧ (a.fraction = 0 ↔ b.fraction ≠ 0)

instance : DecidableRel Mixed := fun _ _ => inferInstanceAs (Decidable (_ ∧ _))

theorem mixed_comm : Mixed a b ↔ Mixed b a := by
  unfold Mixed
  rw [eq_comm, ← not_iff_not (a := b.fraction = 0), not_iff_comm]
  tauto

/-- Instants that are mixed differ. -/
theorem Mixed.ne {a b : DateTime} (h : Mixed a b) : a.micros ≠ b.micros := by
  intro hsame
  rw [DateTime.ext hsame] at h
  have hfraction := h.2
  tauto

theorem isoformatZ_lt_of_mixed (h : Mixed a b) (hlt : b.micros < a.micros) :
    a.isoformatZ < b.isoformatZ := by
  rcases h with ⟨hseconds, hfraction⟩
  have hsplit : b.fraction < a.fraction := by
    unfold DateTime.fraction
    unfold DateTime.seconds at hseconds
    omega
  have hb : b.fraction = 0 := by
    by_contra hb
    have ha := hfraction.mpr hb
    omega
  apply isoformatZ_lt_of_fraction hseconds
  rw [hb]
  exact fractionText_lt_zero (by omega)

theorem isoformatZ_lt_of_not_mixed (h : ¬ Mixed a b) (hlt : a.micros < b.micros) :
    a.isoformatZ < b.isoformatZ := by
  rcases Nat.lt_or_ge a.seconds b.seconds with hseconds | hseconds
  · exact isoformatZ_lt_of_seconds_lt hseconds
  · have hsame : a.seconds = b.seconds := by
      unfold DateTime.seconds at *
      omega
    have hsplit : a.fraction < b.fraction := by
      unfold DateTime.fraction
      unfold DateTime.seconds at hsame
      omega
    have ha : a.fraction ≠ 0 := by
      intro ha
      exact h ⟨hsame, iff_of_true ha (by omega)⟩
    apply isoformatZ_lt_of_fraction hsame
    exact fractionText_lt ha hsplit (Nat.mod_lt _ (by decide))

/-- The order of the texts: that of the instants, and within a second the other way where exactly
one has a fraction. -/
theorem isoformatZ_lt_iff (a b : DateTime) :
    a.isoformatZ < b.isoformatZ ↔
      if Mixed a b then b.micros < a.micros else a.micros < b.micros := by
  by_cases hmixed : Mixed a b
  · rw [if_pos hmixed]
    refine ⟨fun h => ?_, isoformatZ_lt_of_mixed hmixed⟩
    rcases Nat.lt_trichotomy b.micros a.micros with hlt | hsame | hlt
    · exact hlt
    · rw [DateTime.ext hsame] at h
      exact absurd h (lt_irrefl _)
    · exact absurd h (lt_asymm (isoformatZ_lt_of_mixed (mixed_comm.mp hmixed) hlt))
  · rw [if_neg hmixed]
    refine ⟨fun h => ?_, isoformatZ_lt_of_not_mixed hmixed⟩
    rcases Nat.lt_trichotomy a.micros b.micros with hlt | hsame | hlt
    · exact hlt
    · rw [DateTime.ext hsame] at h
      exact absurd h (lt_irrefl _)
    · exact absurd h (lt_asymm (isoformatZ_lt_of_not_mixed (mt mixed_comm.mpr hmixed) hlt))

end Texts

end AutoHeal
