import Mathlib.Algebra.Order.Group.Int
import Mathlib.Tactic.Common

/-!
# The civil calendar

A date is the number of days since 1970-01-01, an integer. `civil` and `ofCivil` convert to and
from year, month and day of the proleptic Gregorian calendar, by eras of 400 years counted from
March, so that the leap day is the last day of its year (`ofCivil_civil`). `monthStart`, `yearStart`
and `weekStart` are the `date_trunc` of a database, `addMonths` its addition of an interval of
months. Truncation keeps the order of dates (`monthStart_mono`, `yearStart_mono`).
`ConsecutiveDays` is how many days in a row, up to a date, are among some days.
-/

namespace Workforce.Calendar

/-- Year, month and day. -/
structure Civil where
  year : ℤ
  month : ℤ
  day : ℤ
  deriving DecidableEq

/-- Day of the year counted from 1 March, for each month counted from March. -/
def monthOffset (monthFromMarch : ℤ) : ℤ := (153 * monthFromMarch + 2) / 5

def civil (date : ℤ) : Civil :=
  let shifted := date + 719468
  let era := shifted / 146097
  let dayOfEra := shifted % 146097
  let yearOfEra := (dayOfEra - dayOfEra / 1460 + dayOfEra / 36524 - dayOfEra / 146096) / 365
  let dayOfYear := dayOfEra - (365 * yearOfEra + yearOfEra / 4 - yearOfEra / 100)
  let monthFromMarch := (5 * dayOfYear + 2) / 153
  let month := if monthFromMarch < 10 then monthFromMarch + 3 else monthFromMarch - 9
  { year := yearOfEra + era * 400 + if month ≤ 2 then 1 else 0
    month
    day := dayOfYear - monthOffset monthFromMarch + 1 }

def ofCivil (c : Civil) : ℤ :=
  let year := if c.month ≤ 2 then c.year - 1 else c.year
  let era := year / 400
  let yearOfEra := year % 400
  let monthFromMarch := if c.month > 2 then c.month - 3 else c.month + 9
  let dayOfYear := monthOffset monthFromMarch + c.day - 1
  let dayOfEra := yearOfEra * 365 + yearOfEra / 4 - yearOfEra / 100 + dayOfYear
  era * 146097 + dayOfEra - 719468

example : civil (ofCivil ⟨2024, 2, 29⟩) = ⟨2024, 2, 29⟩ := by decide
example : ofCivil ⟨1970, 1, 1⟩ = 0 := by decide

/-! ## A date is the one of its year, month and day -/

/-- A day of the era is not before 1 March of its year. -/
theorem le_dayOfEra {dayOfEra fours centuries eras yearOfEra : ℤ} (h₀ : 0 ≤ dayOfEra)
    (h₁ : dayOfEra < 146097) (hfours : fours = dayOfEra / 1460)
    (hcenturies : centuries = dayOfEra / 36524) (heras : eras = dayOfEra / 146096)
    (hyear : yearOfEra = (dayOfEra - fours + centuries - eras) / 365) :
    365 * yearOfEra + yearOfEra / 4 - yearOfEra / 100 ≤ dayOfEra := by
  obtain ⟨leaps, hleaps⟩ : ∃ leaps, leaps = yearOfEra / 4 := ⟨_, rfl⟩
  obtain ⟨skipped, hskipped⟩ : ∃ skipped, skipped = yearOfEra / 100 := ⟨_, rfl⟩
  rw [← hleaps, ← hskipped]
  have hc₀ : 0 ≤ centuries := by omega
  have hc₄ : centuries ≤ 4 := by omega
  have hs₀ : 0 ≤ skipped := by omega
  have hs₃ : skipped ≤ 3 := by omega
  -- The last days of a century belong to its last year, so the two counts may differ by one.
  have hle : skipped ≤ centuries := by omega
  have hge : centuries ≤ skipped + 1 := by omega
  rcases le_or_gt leaps fours with h | h <;> omega

/-- The days from 1 March of year 0 to 1 March of a year. -/
def yearOffset (year : ℤ) : ℤ := 365 * year + year / 4 - year / 100 + year / 400

/-- A day of the era comes before 1 March of the next year. -/
theorem lt_yearOffset_succ {dayOfEra yearOfEra : ℤ} (h₀ : 0 ≤ dayOfEra) (h₁ : dayOfEra < 146097)
    (hyear : yearOfEra =
      (dayOfEra - dayOfEra / 1460 + dayOfEra / 36524 - dayOfEra / 146096) / 365) :
    dayOfEra < yearOffset (yearOfEra + 1) := by
  obtain ⟨fours, hfours⟩ : ∃ fours, fours = dayOfEra / 1460 := ⟨_, rfl⟩
  obtain ⟨centuries, hcenturies⟩ : ∃ centuries, centuries = dayOfEra / 36524 := ⟨_, rfl⟩
  obtain ⟨eras, heras⟩ : ∃ eras, eras = dayOfEra / 146096 := ⟨_, rfl⟩
  obtain ⟨leaps, hleaps⟩ : ∃ leaps, leaps = (yearOfEra + 1) / 4 := ⟨_, rfl⟩
  obtain ⟨skipped, hskipped⟩ : ∃ skipped, skipped = (yearOfEra + 1) / 100 := ⟨_, rfl⟩
  obtain ⟨kept, hkept⟩ : ∃ kept, kept = (yearOfEra + 1) / 400 := ⟨_, rfl⟩
  rw [← hfours, ← hcenturies, ← heras] at hyear
  rw [yearOffset, ← hleaps, ← hskipped, ← hkept]
  have hc₀ : 0 ≤ centuries := by omega
  have hc₄ : centuries ≤ 4 := by omega
  have hs₀ : 0 ≤ skipped := by omega
  have hs₄ : skipped ≤ 4 := by omega
  have hfours' : fours ≤ 100 := by omega
  have hkept' : 0 ≤ kept ∧ kept ≤ 1 := by omega
  have hcs : centuries = skipped ∨ skipped = centuries + 1 := by omega
  rcases hcs with hc | hc
  · rcases le_or_gt fours leaps with hle | hgt
    · omega
    · omega
  · omega

theorem yearOffset_succ_le (year : ℤ) : yearOffset (year + 1) ≤ yearOffset year + 366 := by
  unfold yearOffset
  omega

/-- A date by its era, the year in the era and the day in the year. -/
theorem exists_civil_eq (date : ℤ) : ∃ era yearOfEra dayOfYear monthFromMarch : ℤ,
    (0 ≤ yearOfEra ∧ yearOfEra < 400) ∧ (0 ≤ monthFromMarch ∧ monthFromMarch ≤ 11) ∧
      monthFromMarch = (5 * dayOfYear + 2) / 153 ∧
      date = era * 146097 + (yearOfEra * 365 + yearOfEra / 4 - yearOfEra / 100 + dayOfYear) -
        719468 ∧
      civil date =
        { year := yearOfEra + era * 400 + if 10 ≤ monthFromMarch then 1 else 0
          month := if monthFromMarch < 10 then monthFromMarch + 3 else monthFromMarch - 9
          day := dayOfYear - monthOffset monthFromMarch + 1 } ∧
      0 ≤ dayOfYear ∧ yearOffset yearOfEra + dayOfYear < yearOffset (yearOfEra + 1) := by
  obtain ⟨era, hera⟩ : ∃ era, era = (date + 719468) / 146097 := ⟨_, rfl⟩
  obtain ⟨dayOfEra, hday⟩ : ∃ dayOfEra, dayOfEra = (date + 719468) % 146097 := ⟨_, rfl⟩
  obtain ⟨y, hy⟩ : ∃ y, y = (dayOfEra - dayOfEra / 1460 + dayOfEra / 36524 - dayOfEra / 146096) /
    365 := ⟨_, rfl⟩
  have hle := le_dayOfEra (by omega) (by omega) rfl rfl rfl hy
  have hnext : dayOfEra < yearOffset (y + 1) := lt_yearOffset_succ (by omega) (by omega) hy
  have hy₀ : 0 ≤ y ∧ y < 400 := by omega
  have hoffset : yearOffset y = 365 * y + y / 4 - y / 100 := by
    unfold yearOffset
    omega
  have hlength := yearOffset_succ_le y
  obtain ⟨n, hn⟩ : ∃ n, n = dayOfEra - (365 * y + y / 4 - y / 100) := ⟨_, rfl⟩
  obtain ⟨m, hm⟩ : ∃ m, m = (5 * n + 2) / 153 := ⟨_, rfl⟩
  have hbounds : 0 ≤ n ∧ n ≤ 365 := by omega
  have hm₀ : 0 ≤ m ∧ m ≤ 11 := by omega
  have hdate : date = era * 146097 + (y * 365 + y / 4 - y / 100 + n) - 719468 := by omega
  refine ⟨era, y, n, m, hy₀, hm₀, hm, hdate, ?_, hbounds.1, by omega⟩
  simp only [civil, ← hera, ← hday, ← hy, ← hn, ← hm]
  clear hdate hn hbounds hle hnext hoffset hlength hy hday hera
  by_cases hlt : m < 10
  · have : ¬ m + 3 ≤ 2 ∧ ¬ 10 ≤ m := by omega
    simp [hlt, this]
  · have : m - 9 ≤ 2 ∧ 10 ≤ m := by omega
    simp [hlt, this]

theorem ofCivil_civil (date : ℤ) : ofCivil (civil date) = date := by
  obtain ⟨era, y, n, m, hy, hm, -, hdate, hcivil, -, -⟩ := exists_civil_eq date
  have hera : (y + era * 400) / 400 = era ∧ (y + era * 400) % 400 = y := by omega
  rw [hcivil, hdate]
  by_cases hlt : m < 10
  · have hmonth : ¬ m + 3 ≤ 2 ∧ m + 3 > 2 ∧ ¬ 10 ≤ m ∧ m + 3 - 3 = m := by omega
    simp only [ofCivil, hlt, hmonth, hera, if_true, if_false, add_zero]
    omega
  · have hmonth : m - 9 ≤ 2 ∧ ¬ m - 9 > 2 ∧ 10 ≤ m ∧ m - 9 + 9 = m ∧
        y + era * 400 + 1 - 1 = y + era * 400 := by omega
    simp only [ofCivil, hlt, hmonth, hera, if_true, if_false]
    omega

theorem civil_bounds (date : ℤ) : (1 ≤ (civil date).month ∧ (civil date).month ≤ 12) ∧
    1 ≤ (civil date).day ∧ (civil date).day ≤ 31 := by
  obtain ⟨era, y, n, m, hy, hm, hmn, -, hcivil, -, -⟩ := exists_civil_eq date
  rw [hcivil]
  simp only [monthOffset]
  split <;> omega

/-! ## Truncation -/

/-- First day of the month. -/
def monthStart (date : ℤ) : ℤ := ofCivil { civil date with day := 1 }

/-- First day of the year. -/
def yearStart (date : ℤ) : ℤ := ofCivil { civil date with month := 1, day := 1 }

theorem yearOffset_le {a b : ℤ} (h : a < b) : yearOffset (a + 1) ≤ yearOffset b := by
  unfold yearOffset
  omega

theorem yearOffset_add_le (a : ℤ) : yearOffset a + 365 ≤ yearOffset (a + 1) := by
  unfold yearOffset
  omega

theorem ofCivil_eq (c : Civil) : ofCivil c =
    yearOffset (if c.month ≤ 2 then c.year - 1 else c.year) +
      monthOffset (if c.month > 2 then c.month - 3 else c.month + 9) + c.day - 1 - 719468 := by
  obtain ⟨year, hyear⟩ : ∃ year, year = if c.month ≤ 2 then c.year - 1 else c.year := ⟨_, rfl⟩
  simp only [ofCivil, ← hyear, yearOffset]
  omega

/-- The starts of the month and of the year of a date, by its year and its day in the year, both
counted from March. -/
theorem exists_starts_eq (date : ℤ) : ∃ year dayOfYear monthFromMarch : ℤ,
    date = yearOffset year + dayOfYear - 719468 ∧
      (0 ≤ dayOfYear ∧ yearOffset year + dayOfYear < yearOffset (year + 1)) ∧
      (0 ≤ monthFromMarch ∧ monthFromMarch ≤ 11) ∧
      monthFromMarch = (5 * dayOfYear + 2) / 153 ∧
      monthStart date = yearOffset year + monthOffset monthFromMarch - 719468 ∧
      yearStart date =
        yearOffset (if 10 ≤ monthFromMarch then year else year - 1) + monthOffset 10 - 719468 := by
  obtain ⟨era, y, n, m, hy, hm, hmn, hdate, hcivil, hn, hnext⟩ := exists_civil_eq date
  have hoffset : yearOffset (y + era * 400) = era * 146097 + (y * 365 + y / 4 - y / 100) ∧
      yearOffset (y + era * 400 + 1) = era * 146097 + yearOffset (y + 1) ∧
      yearOffset (y + era * 400) = era * 146097 + yearOffset y := by
    unfold yearOffset
    omega
  refine ⟨y + era * 400, n, m, by omega, ⟨hn, by omega⟩, hm, hmn, ?_, ?_⟩
  · rw [monthStart, ofCivil_eq, hcivil]
    by_cases hlt : m < 10
    · have hmonth : ¬ m + 3 ≤ 2 ∧ m + 3 > 2 ∧ ¬ 10 ≤ m ∧ m + 3 - 3 = m := by omega
      simp only [hlt, hmonth, if_true, if_false, add_zero]
      omega
    · have hmonth : m - 9 ≤ 2 ∧ ¬ m - 9 > 2 ∧ 10 ≤ m ∧ m - 9 + 9 = m ∧
          y + era * 400 + 1 - 1 = y + era * 400 := by omega
      simp only [hlt, hmonth, if_true, if_false]
      omega
  · rw [yearStart, ofCivil_eq, hcivil]
    by_cases hlt : 10 ≤ m
    · have hyear : y + era * 400 + 1 - 1 = y + era * 400 := by omega
      simp [hlt, hyear]
    · simp [hlt]

theorem monthStart_mono {d d' : ℤ} (h : d ≤ d') : monthStart d ≤ monthStart d' := by
  obtain ⟨y, n, m, hd, hn, hm, hmn, hstart, -⟩ := exists_starts_eq d
  obtain ⟨y', n', m', hd', hn', hm', hmn', hstart', -⟩ := exists_starts_eq d'
  rw [hstart, hstart']
  rcases lt_trichotomy y y' with hlt | rfl | hgt
  · have hnext := yearOffset_le hlt
    have hlong := yearOffset_add_le y
    unfold monthOffset
    omega
  · unfold monthOffset
    omega
  · have hnext := yearOffset_le hgt
    omega

theorem yearStart_mono {d d' : ℤ} (h : d ≤ d') : yearStart d ≤ yearStart d' := by
  obtain ⟨y, n, m, hd, hn, hm, hmn, -, hstart⟩ := exists_starts_eq d
  obtain ⟨y', n', m', hd', hn', hm', hmn', -, hstart'⟩ := exists_starts_eq d'
  have hmono : ∀ {a b : ℤ}, a ≤ b → yearOffset a ≤ yearOffset b := by
    intro a b hab
    unfold yearOffset
    omega
  have hyear : (if 10 ≤ m then y else y - 1) ≤ if 10 ≤ m' then y' else y' - 1 := by
    rcases lt_trichotomy y y' with hlt | rfl | hgt
    · split <;> split <;> omega
    · split <;> split <;> omega
    · have hnext := yearOffset_le hgt
      omega
  have hle := hmono hyear
  omega

/-- ISO weekday, Monday being 1 and Sunday 7; day 0 was a Thursday. -/
def isoDow (date : ℤ) : ℤ := (date + 3) % 7 + 1

/-- The Monday of the ISO week. -/
def weekStart (date : ℤ) : ℤ := date - (isoDow date - 1)

/-- Number of days of a month. -/
def daysInMonth (year month : ℤ) : ℤ :=
  ofCivil ⟨if month = 12 then year + 1 else year, if month = 12 then 1 else month + 1, 1⟩ -
    ofCivil ⟨year, month, 1⟩

/-- The same day some months later, or the last day of that month when it is shorter. -/
def addMonths (date : ℤ) (months : ℕ) : ℤ :=
  let c := civil date
  let index := c.year * 12 + (c.month - 1) + months
  let year := index / 12
  let month := index % 12 + 1
  ofCivil ⟨year, month, min c.day (daysInMonth year month)⟩

example : addMonths (ofCivil ⟨2024, 1, 31⟩) 1 = ofCivil ⟨2024, 2, 29⟩ := by decide

/-! ## Consecutive days -/

/-- The `n` days that end with `d` are all among these days, and the day before them is not. -/
def ConsecutiveDays (days : List ℤ) (d : ℤ) (n : ℕ) : Prop :=
  (∀ k < n, d - k ∈ days) ∧ d - n ∉ days

instance (days : List ℤ) (d : ℤ) (n : ℕ) : Decidable (ConsecutiveDays days d n) :=
  inferInstanceAs (Decidable ((∀ k < n, _) ∧ _))

variable {days : List ℤ}

theorem ConsecutiveDays.unique {d : ℤ} {n m : ℕ} (h : ConsecutiveDays days d n)
    (h' : ConsecutiveDays days d m) : n = m := by
  rcases lt_trichotomy n m with hlt | rfl | hgt
  · exact absurd (h'.1 n hlt) h.2
  · rfl
  · exact absurd (h.1 m hgt) h'.2

theorem consecutiveDays_zero {d : ℤ} :
    ConsecutiveDays days d 0 ↔ d ∉ days := by
  simp [ConsecutiveDays]

/-- A day that is added ends a run one day longer than the one that ended the day before. -/
theorem consecutiveDays_append {d : ℤ} {n : ℕ} :
    ConsecutiveDays (days ++ [d]) d (n + 1) ↔ ConsecutiveDays days (d - 1) n := by
  have hmem : ∀ k : ℕ, d - (k + 1 : ℕ) ∈ days ++ [d] ↔ d - 1 - k ∈ days := by
    intro k
    have hne : d - (k + 1 : ℕ) ≠ d := by omega
    have heq : d - (k + 1 : ℕ) = d - 1 - k := by omega
    rw [List.mem_append, List.mem_singleton, or_iff_left hne, heq]
  unfold ConsecutiveDays
  rw [hmem]
  refine and_congr_left fun _ => ⟨fun h k hk => (hmem k).1 (h (k + 1) (by omega)), fun h k hk => ?_⟩
  cases k with
  | zero => simp
  | succ k => exact (hmem k).2 (h k (by omega))

/-- A day that is there already adds nothing. -/
theorem consecutiveDays_append_of_mem {d e : ℤ} {n : ℕ} (h : e ∈ days) :
    ConsecutiveDays (days ++ [e]) d n ↔ ConsecutiveDays days d n := by
  have hmem : ∀ x, x ∈ days ++ [e] ↔ x ∈ days := by
    intro x
    rw [List.mem_append, List.mem_singleton]
    exact or_iff_left_of_imp fun heq => heq ▸ h
  simp only [ConsecutiveDays, hmem]

end Workforce.Calendar
