import Mathlib.RingTheory.Coprime.Lemmas
import Workforce.Compliance.FloorCheck
import Workforce.Foundations.Doubles
import Workforce.Scheduling.Eligibility

/-!
# The preview of a rule change

`evaluate-schedule-compliance.ts`: the violations of a rule in the shifts of one employee, without a
solver. It sorts the shifts and compares neighbours only, and it counts streaks of days where the
solver looks at all windows. `preview_agrees` says that both find the same schedules compliant.

Instants are milliseconds and dates are days since the epoch: the texts `utcDateKey` makes of them
are distinct and sorted alike in the years that a `datetime` has. Other numbers are doubles, which
both sides round: the preview turns the minimum rest into milliseconds, the solver the gap into
hours. When a gap differs from the rest in the last binary places only, they may disagree
(`preview_disagrees`).
-/

namespace Workforce.Compliance

open Calendar Scheduling List
open Doubles (nearestDouble)

/-! ## The source -/

structure SimulatedShift where
  start : ℤ
  fin : ℤ
  deriving DecidableEq

/-- A violation, with the values its text shows. -/
inductive Violation
  | dailyHours (hours : ℚ) (day : ℤ) (threshold : JsNumber)
  | weeklyHours (hours : ℚ) (week : ℤ) (threshold : JsNumber)
  | rest (gapMs ending starting : ℤ) (minimum : JsNumber)
  | consecutiveDays (runLength : ℕ) (first last : ℤ) (maximum : JsNumber)
  | belowMinimumLength (start : ℤ) (lengthMinutes : ℚ) (minimum : JsNumber)
  | aboveMaximumLength (start : ℤ) (lengthMinutes : ℚ) (maximum : JsNumber)

/-- `a < b`. -/
def JsNumber.lt : JsNumber → JsNumber → Bool
  | nan, _ => false
  | _, nan => false
  | a, b => !b.le a

/-- The double next to a number. -/
def JsNumber.double : JsNumber → JsNumber
  | finite q => if |q| < 2 ^ 1024 - 2 ^ 970 then finite (nearestDouble q) else infinity (q < 0)
  | a => a

/-- `a * factor`, for a positive factor. -/
def JsNumber.times (factor : ℤ) : JsNumber → JsNumber
  | finite q => (finite (q * factor)).double
  | a => a

/-- `numberField`. A field that is missing and one that is `null` are treated alike. -/
def numberField (definition : Json) (field : String) : Option JsNumber :=
  match definition.get field with
  | .null => none
  | entry => if jsNumber entry = .nan then none else some (jsNumber entry).double

def msPerHour : ℤ := 60 * 60 * 1000

def msPerDay : ℤ := 24 * msPerHour

/-- `durationHours`. -/
def SimulatedShift.durationHours (shift : SimulatedShift) : ℚ :=
  nearestDouble (((shift.fin - shift.start : ℤ) : ℚ) / msPerHour)

/-- `utcDateKey`. -/
def utcDateKey (instant : ℤ) : ℤ := instant / msPerDay

/-- `isoWeekStartKey`. -/
def isoWeekStartKey (instant : ℤ) : ℤ := weekStart (utcDateKey instant)

/-- The hours of the shifts with each key, added up in the order of the shifts, in the order of the
keys. -/
def hoursBy (key : ℤ → ℤ) (shifts : List SimulatedShift) : List (ℤ × ℚ) :=
  ((shifts.map fun shift => key shift.start).dedup.insertionSort (· ≤ ·)).map fun k =>
    (k, (shifts.filter fun shift => key shift.start = k).foldl
      (fun hours shift => nearestDouble (hours + shift.durationHours)) 0)

/-- The entries above a threshold, where there is one. -/
def aboveThreshold (threshold : Option JsNumber) (hours : List (ℤ × ℚ))
    (violation : ℚ → ℤ → JsNumber → Violation) : List Violation :=
  match threshold with
  | none => []
  | some threshold =>
    (hours.filter fun entry => threshold.lt (.finite entry.2)).map fun entry =>
      violation entry.2 entry.1 threshold

/-- `checkOvertimeThreshold`. -/
def checkOvertimeThreshold (shifts : List SimulatedShift) (definition : Json) : List Violation :=
  aboveThreshold (numberField definition "dailyThresholdHours") (hoursBy utcDateKey shifts)
      .dailyHours ++
    aboveThreshold (numberField definition "weeklyThresholdHours") (hoursBy isoWeekStartKey shifts)
      .weeklyHours

/-- `minRestMs`. -/
def minRestMs (minimum : JsNumber) : JsNumber := ((minimum.times 60).times 60).times 1000

/-- The body of the loop over neighbours. -/
def restViolation (minimum : JsNumber) (previous shift : SimulatedShift) : Option Violation :=
  let gapMs := shift.start - previous.fin
  if JsNumber.lt (.finite gapMs) (minRestMs minimum) then
    some (.rest gapMs previous.fin shift.start minimum)
  else none

/-- `checkRestPeriodMinimum`. -/
def checkRestPeriodMinimum (shifts : List SimulatedShift) (definition : Json) : List Violation :=
  match numberField definition "minRestHoursBetweenShifts" with
  | none => []
  | some minimum =>
    let sorted := shifts.insertionSort fun a b => a.start ≤ b.start
    (sorted.zip sorted.tail).filterMap fun pair => restViolation minimum pair.1 pair.2

/-- The variables of the loop over the dates. -/
structure RunState where
  violations : List Violation
  runStart : Option ℤ
  runLength : ℕ
  previous : Option ℤ

/-- `closeRun`. -/
def closeRun (maximum : JsNumber) (st : RunState) (lastDateInRun : ℤ) : List Violation :=
  match st.runStart with
  | none => []
  | some runStart =>
    if maximum.lt (.finite st.runLength) then
      [.consecutiveDays st.runLength runStart lastDateInRun maximum]
    else []

/-- The run is closed, where a date has been seen. -/
def closePrevious (maximum : JsNumber) (st : RunState) : List Violation :=
  match st.previous with
  | none => []
  | some previous => closeRun maximum st previous

/-- `isNextCalendarDay`. -/
def isNextCalendarDay (dateKey candidateKey : ℤ) : Bool := dateKey + 1 = candidateKey

/-- The body of the loop over the dates. -/
def visitDate (maximum : JsNumber) (st : RunState) (dateKey : ℤ) : RunState :=
  if st.previous.any (isNextCalendarDay · dateKey) then
    { st with
      runLength := st.runLength + 1
      previous := some dateKey }
  else
    { violations := st.violations ++ closePrevious maximum st
      runStart := some dateKey
      runLength := 1
      previous := some dateKey }

/-- `checkMaxConsecutiveDays`. -/
def checkMaxConsecutiveDays (shifts : List SimulatedShift) (definition : Json) : List Violation :=
  match numberField definition "maxConsecutiveWorkingDays" with
  | none => []
  | some maximum =>
    let workedDates :=
      (shifts.map fun shift => utcDateKey shift.start).dedup.insertionSort (· ≤ ·)
    let st := workedDates.foldl (visitDate maximum) ⟨[], none, 0, none⟩
    st.violations ++ closePrevious maximum st

/-- `checkUnionRule`. -/
def checkUnionRule (shifts : List SimulatedShift) (definition : Json) : List Violation :=
  let minimum := numberField definition "minShiftLengthMinutes"
  let maximum := numberField definition "maxShiftLengthMinutes"
  shifts.flatMap fun shift =>
    let lengthMinutes := nearestDouble (shift.durationHours * 60)
    (minimum.toList.filter fun m => JsNumber.lt (.finite lengthMinutes) m).map
        (.belowMinimumLength shift.start lengthMinutes) ++
      (maximum.toList.filter fun m => m.lt (.finite lengthMinutes)).map
        (.aboveMaximumLength shift.start lengthMinutes)

/-- `findViolations`. -/
def findViolations (ruleType : RuleType) (definition : Json) (shifts : List SimulatedShift) :
    List Violation :=
  match ruleType with
  | .overtimeThreshold => checkOvertimeThreshold shifts definition
  | .restPeriodMinimum => checkRestPeriodMinimum shifts definition
  | .maxConsecutiveDays => checkMaxConsecutiveDays shifts definition
  | .unionRule => checkUnionRule shifts definition
  | .breakRequirement => []

/-- `total_seconds()`. -/
def totalSeconds (micros : ℤ) : ℚ := nearestDouble (micros / 10 ^ 6)

/-- `_conflicts` with its doubles. `Scheduling.conflicts` is the same with exact hours. -/
def conflictsInDoubles (shiftA shiftB : ShiftSlot) (minRestHours : ℚ) : Bool :=
  let (earlier, later) := if shiftA.start.instant ≤ shiftB.start.instant then (shiftA, shiftB)
    else (shiftB, shiftA)
  if later.start.instant < earlier.fin.instant then true
  else
    nearestDouble (totalSeconds (later.start.instant - earlier.fin.instant) / 3600) < minRestHours

/-! ## Gaps and rests in doubles -/

/-- No whole number of milliseconds is within one part in `2 ^ 50` of the rest, other than the rest
itself. -/
def Unambiguous (rest : ℚ) : Prop :=
  ∀ gap : ℤ, |gap - rest * msPerHour| ≤ rest * msPerHour / 2 ^ 50 → (gap : ℚ) = rest * msPerHour

/-- A rest of whole milliseconds is far from the others, up to many thousands of years. -/
theorem unambiguous_of_whole {rest : ℚ} {n : ℤ} (hn : rest * msPerHour = n) (hlt : n < 2 ^ 50) :
    Unambiguous rest := by
  intro gap hgap
  rw [hn] at hgap ⊢
  have hclose : |((gap - n : ℤ) : ℚ)| < 1 := by
    push_cast
    refine hgap.trans_lt ?_
    rw [div_lt_one (by norm_num)]
    exact_mod_cast hlt
  have hzero := Int.abs_lt_one_iff.1 (by exact_mod_cast hclose)
  exact_mod_cast sub_eq_zero.1 hzero

section Doubles

variable {rest : ℚ}

theorem exists_eq_div_of_grid {e : ℕ} {m n : ℤ} (hm : rest * (2 ^ e * 128) = m)
    (hn : rest * msPerHour = n) : ∃ k : ℤ, rest = k / 128 := by
  have hmul : m * 28125 = n * 2 ^ e := by
    have hcast : (m : ℚ) * 28125 = n * 2 ^ e := by
      rw [← hm, ← hn]
      norm_num [msPerHour]
      ring
    exact_mod_cast hcast
  -- the other factor of an hour is odd
  have hcoprime : IsCoprime ((2 : ℤ) ^ e) 28125 := IsCoprime.pow_left ⟨-14062, 1, by norm_num⟩
  obtain ⟨k, rfl⟩ := hcoprime.dvd_of_dvd_mul_right ⟨n, hmul.trans (mul_comm _ _)⟩
  have hpos : (2 : ℚ) ^ e ≠ 0 := by positivity
  refine ⟨k, (eq_div_iff (by norm_num)).2 (mul_left_cancel₀ hpos ?_)⟩
  rw [mul_left_comm, hm]
  push_cast
  ring

/-- A rest that is a double and a whole number of milliseconds is a multiple of the 128th part of an
hour. -/
theorem exists_eq_div_of_whole (hdouble : nearestDouble rest = rest) {n : ℤ}
    (hn : rest * msPerHour = n) : ∃ k : ℤ, rest = k / 128 := by
  obtain ⟨m, hm⟩ := Doubles.onGrid_nearestDouble rest
  rw [hdouble] at hm
  refine exists_eq_div_of_grid (e := 1067) (m := m) ?_ hn
  have hpow : (2 : ℚ) ^ 1067 * 128 = 2 ^ (1074 : ℤ) := by
    rw [show (128 : ℚ) = 2 ^ 7 by norm_num, ← pow_add]
    exact (zpow_natCast 2 1074).symm
  rw [hpow, hm, mul_assoc, ← zpow_add₀ (by norm_num), neg_add_cancel, zpow_zero, mul_one]

theorem nearestDouble_bounds {x : ℚ} (hx : 0 ≤ x)
    (h : Doubles.OnGrid x ∨ 2 ^ (-1022 : ℤ) ≤ |x|) :
    0 ≤ nearestDouble x ∧ x - x / 2 ^ 53 ≤ nearestDouble x ∧
      nearestDouble x ≤ x + x / 2 ^ 53 := by
  have hoff := Doubles.abs_nearestDouble_sub_le_div h
  rw [abs_of_nonneg hx, abs_le] at hoff
  refine ⟨?_, by linarith [hoff.1], by linarith [hoff.2]⟩
  norm_num at hoff
  linarith [hoff.1]

theorem nearestDouble_mul_bounds {x : ℚ} (factor : ℤ) (hx : Doubles.OnGrid x) (hnonneg : 0 ≤ x)
    (hfactor : 0 ≤ factor) :
    0 ≤ nearestDouble (x * factor) ∧ x * factor - x * factor / 2 ^ 53 ≤ nearestDouble (x * factor) ∧
      nearestDouble (x * factor) ≤ x * factor + x * factor / 2 ^ 53 :=
  nearestDouble_bounds (mul_nonneg hnonneg (by exact_mod_cast hfactor)) (.inl (hx.mul_intCast _))

/-- Small numbers are in the range of the finite doubles. -/
theorem lt_doubleMax : (2 : ℚ) ^ 80 < 2 ^ 1024 - 2 ^ 970 := by
  have hpow : (2 : ℚ) ^ 1024 = 2 ^ 970 * 2 ^ 54 := by rw [← pow_add]
  have hle : (2 : ℚ) ^ 80 ≤ 2 ^ 970 := pow_le_pow_right₀ (by norm_num) (by norm_num)
  rw [hpow]
  generalize (2 : ℚ) ^ 970 = least at hle ⊢
  norm_num at hle ⊢
  linarith

theorem times_finite {x : ℚ} {factor : ℤ} (hx : 0 ≤ x) (hfactor : 0 ≤ factor)
    (hlt : x * factor < 2 ^ 80) :
    JsNumber.times factor (.finite x) = .finite (nearestDouble (x * factor)) := by
  refine if_pos ?_
  rw [abs_of_nonneg (mul_nonneg hx (by exact_mod_cast hfactor))]
  exact hlt.trans lt_doubleMax

/-- The product of a rest in milliseconds. -/
def restProduct (rest : ℚ) : ℚ :=
  nearestDouble (nearestDouble (nearestDouble (rest * (60 : ℤ)) * (60 : ℤ)) * (1000 : ℤ))

theorem abs_restProduct_sub_le (hdouble : nearestDouble rest = rest) (hrest : 0 ≤ rest) :
    |restProduct rest - rest * msPerHour| ≤ rest * msPerHour / 2 ^ 51 := by
  have hgrid : Doubles.OnGrid rest := hdouble ▸ Doubles.onGrid_nearestDouble rest
  have hminutes := nearestDouble_mul_bounds 60 hgrid hrest (by norm_num)
  have hseconds := nearestDouble_mul_bounds 60 (Doubles.onGrid_nearestDouble _)
    hminutes.1 (by norm_num)
  have hproduct := nearestDouble_mul_bounds 1000 (Doubles.onGrid_nearestDouble _)
    hseconds.1 (by norm_num)
  unfold restProduct
  norm_num [msPerHour] at *
  rw [abs_le]
  constructor <;> linarith

/-- A whole number of 128th parts of an hour is exact, in any of the units. -/
theorem nearestDouble_of_parts {k : ℤ} (hk : rest = k / 128) (hlt : rest * msPerHour < 2 ^ 50)
    (hrest : 0 ≤ rest) {factor : ℤ} (hfactor : 0 ≤ factor) (hle : factor ≤ 3600) :
    nearestDouble (rest * factor) = rest * factor := by
  refine Doubles.nearestDouble_of_lt (n := k * factor) (e := -7) ?_ (by norm_num) ?_
  · rw [hk]
    norm_num
    ring
  · have hfactor' : (0 : ℚ) ≤ factor := by exact_mod_cast hfactor
    have hle' : (factor : ℚ) ≤ 3600 := by exact_mod_cast hle
    rw [abs_of_nonneg (mul_nonneg hrest hfactor')]
    refine (mul_le_mul_of_nonneg_left hle' hrest).trans_lt ?_
    norm_num [msPerHour] at hlt ⊢
    linarith

theorem restProduct_of_whole {k : ℤ} (hk : rest = k / 128) (hlt : rest * msPerHour < 2 ^ 50)
    (hrest : 0 ≤ rest) : restProduct rest = rest * msPerHour := by
  have hms : rest * msPerHour = ((k * 28125 : ℤ) : ℚ) := by
    rw [hk]
    norm_num [msPerHour]
    ring
  have hseconds : rest * (60 : ℤ) * (60 : ℤ) = rest * (3600 : ℤ) := by norm_num [mul_assoc]
  have hproduct : rest * (3600 : ℤ) * (1000 : ℤ) = rest * msPerHour := by
    norm_num [msPerHour, mul_assoc]
  rw [restProduct, nearestDouble_of_parts hk hlt hrest (by norm_num) (by norm_num), hseconds,
    nearestDouble_of_parts hk hlt hrest (by norm_num) (by norm_num), hproduct]
  refine Doubles.nearestDouble_of_lt (n := k * 28125) (e := 0) (by rw [hms]; simp) (by norm_num) ?_
  rw [abs_of_nonneg (mul_nonneg hrest (by norm_num [msPerHour]))]
  exact hlt.trans (by norm_num)

theorem minRestMs_finite (hdouble : nearestDouble rest = rest) (hrest : 0 ≤ rest)
    (hlt : rest * msPerHour < 2 ^ 50) : minRestMs (.finite rest) = .finite (restProduct rest) := by
  have hms : rest < 2 ^ 50 := by
    refine lt_of_le_of_lt ?_ hlt
    norm_num [msPerHour]
    linarith
  have hgrid : Doubles.OnGrid rest := hdouble ▸ Doubles.onGrid_nearestDouble rest
  have hminutes := nearestDouble_mul_bounds 60 hgrid hrest (by norm_num)
  have hseconds := nearestDouble_mul_bounds 60 (Doubles.onGrid_nearestDouble _)
    hminutes.1 (by norm_num)
  unfold minRestMs restProduct
  rw [times_finite hrest (by norm_num) (by norm_num at hms ⊢; linarith),
    times_finite hminutes.1 (by norm_num) (by norm_num at hms hminutes ⊢; linarith),
    times_finite hseconds.1 (by norm_num) (by norm_num at hms hminutes hseconds ⊢; linarith)]

/-- What is not the rest differs from it by more than the rounding. -/
theorem Unambiguous.margin (h : Unambiguous rest) {gap : ℤ} (hne : (gap : ℚ) ≠ rest * msPerHour) :
    (gap : ℚ) + rest * msPerHour / 2 ^ 50 < rest * msPerHour ∨
      rest * msPerHour + rest * msPerHour / 2 ^ 50 < gap := by
  have hfar := not_le.1 (mt (h gap) hne)
  rcases lt_abs.1 hfar with hfar | hfar
  · exact .inr (by linarith)
  · exact .inl (by linarith)

/-- Two whole numbers are within one part in `2 ^ 50` of a longer rest. -/
theorem Unambiguous.lt (h : Unambiguous rest) : rest * msPerHour < 2 ^ 50 := by
  by_contra hlong
  rw [not_lt] at hlong
  have hpart : 1 ≤ rest * msPerHour / 2 ^ 50 := (one_le_div (by norm_num)).2 hlong
  have hfloor := Int.floor_le (rest * msPerHour)
  have hfloor' := Int.lt_floor_add_one (rest * msPerHour)
  have hbelow := h ⌊rest * msPerHour⌋ (abs_le.2 ⟨by linarith, by linarith⟩)
  have habove := h (⌊rest * msPerHour⌋ + 1)
    (abs_le.2 ⟨by push_cast; linarith, by push_cast; linarith⟩)
  push_cast at habove
  linarith

theorem totalSeconds_mul (gap : ℤ) : totalSeconds (gap * 1000) = nearestDouble (gap / 1000) := by
  rw [totalSeconds]
  congr 1
  push_cast
  ring

/-- The hours of a gap, within the rounding. -/
theorem gapHours_bounds {gap : ℤ} (hgap : 0 ≤ gap) :
    gap - gap / 2 ^ 51 ≤ nearestDouble (totalSeconds (gap * 1000) / 3600) * msPerHour ∧
      nearestDouble (totalSeconds (gap * 1000) / 3600) * msPerHour ≤ gap + (gap : ℚ) / 2 ^ 51 := by
  rw [totalSeconds_mul]
  rcases hgap.eq_or_lt with rfl | hpos
  · simp [nearestDouble, Doubles.roundHalfEven]
  · have hone : (1 : ℚ) ≤ gap := by exact_mod_cast hpos
    have hnormal : (2 : ℚ) ^ (-1022 : ℤ) ≤ 2 ^ (-30 : ℤ) :=
      zpow_le_zpow_right₀ (by norm_num) (by norm_num)
    have hseconds := nearestDouble_bounds (x := (gap : ℚ) / 1000) (by positivity)
      (.inr (hnormal.trans (by rw [abs_of_nonneg (by positivity)]; norm_num; linarith)))
    have hhours := nearestDouble_bounds (x := nearestDouble ((gap : ℚ) / 1000) / 3600)
      (div_nonneg hseconds.1 (by norm_num)) (.inr (hnormal.trans (by
        rw [abs_of_nonneg (div_nonneg hseconds.1 (by norm_num))]
        norm_num at hseconds ⊢
        linarith)))
    norm_num [msPerHour] at hseconds hhours ⊢
    constructor <;> linarith

variable (hdouble : nearestDouble rest = rest) (hrest : 0 ≤ rest) (h : Unambiguous rest)

include hdouble hrest h

theorem lt_restProduct_iff (gap : ℤ) : (gap : ℚ) < restProduct rest ↔ gap < rest * msPerHour := by
  have hoff := abs_le.1 (abs_restProduct_sub_le hdouble hrest)
  have hms : 0 ≤ rest * (msPerHour : ℚ) := mul_nonneg hrest (by norm_num [msPerHour])
  rcases eq_or_ne (gap : ℚ) (rest * msPerHour) with heq | hne
  · obtain ⟨k, hk⟩ := exists_eq_div_of_whole hdouble heq.symm
    rw [restProduct_of_whole hk h.lt hrest]
  · rcases h.margin hne with hbelow | habove
    · exact iff_of_true (by linarith) (by linarith)
    · exact iff_of_false (by linarith) (by linarith)

theorem gapHours_lt_iff (gap : ℤ) (hgap : 0 ≤ gap) :
    nearestDouble (totalSeconds (gap * 1000) / 3600) < rest ↔ gap < rest * msPerHour := by
  have hms : 0 ≤ rest * (msPerHour : ℚ) := mul_nonneg hrest (by norm_num [msPerHour])
  rcases eq_or_ne (gap : ℚ) (rest * msPerHour) with heq | hne
  · obtain ⟨k, hk⟩ := exists_eq_div_of_whole hdouble heq.symm
    have hseconds : (gap : ℚ) / 1000 = rest * (3600 : ℤ) := by
      rw [heq]
      norm_num [msPerHour]
      ring
    rw [totalSeconds_mul, hseconds,
      nearestDouble_of_parts hk h.lt hrest (by norm_num) (by norm_num), Int.cast_ofNat,
      mul_div_cancel_right₀ _ (by norm_num), hdouble, heq]
    exact iff_of_false (lt_irrefl _) (lt_irrefl _)
  · obtain ⟨hle, hge⟩ := gapHours_bounds hgap
    rcases h.margin hne with hbelow | habove
    · refine iff_of_true ?_ (by linarith)
      norm_num [msPerHour] at hge hbelow ⊢
      linarith
    · refine iff_of_false ?_ (by linarith)
      norm_num [msPerHour] at hle habove hrest ⊢
      linarith

end Doubles

/-! ## Rest between neighbours -/

section Rest

variable {rest : ℚ}

/-- The second shift starts at least the rest after the first one ends. -/
def SimulatedShift.Rested (rest : ℚ) (a b : SimulatedShift) : Prop :=
  a.fin + rest * msPerHour ≤ b.start

variable {a b : SimulatedShift}

section Neighbours

variable (hdouble : nearestDouble rest = rest) (hrest : 0 ≤ rest) (hclear : Unambiguous rest)

include hdouble hrest hclear

theorem restViolation_eq_none : restViolation (.finite rest) a b = none ↔ a.Rested rest b := by
  have hlt : JsNumber.lt (.finite ((b.start - a.fin : ℤ) : ℚ)) (minRestMs (.finite rest)) = true ↔
      ¬ a.Rested rest b := by
    rw [minRestMs_finite hdouble hrest (hclear.lt)]
    simp only [JsNumber.lt, JsNumber.le, Bool.not_eq_true', decide_eq_false_iff_not, not_le]
    rw [lt_restProduct_iff hdouble hrest hclear, Int.cast_sub, sub_lt_iff_lt_add',
      SimulatedShift.Rested, not_le]
  simp only [restViolation, ite_eq_right_iff, hlt]
  constructor
  · intro h
    by_contra hno
    cases h hno
  · intro h hno
    exact absurd h hno

/-- No neighbours violate the rest exactly when they are a chain of rested shifts. -/
theorem filterMap_restViolation_eq_nil {l : List SimulatedShift} :
    ((l.zip l.tail).filterMap fun pair => restViolation (.finite rest) pair.1 pair.2) = [] ↔
      l.IsChain (SimulatedShift.Rested rest) := by
  induction l with
  | nil => simp
  | cons a l ih =>
    cases l with
    | nil => simp
    | cons b l =>
      rw [isChain_cons_cons, ← ih, ← restViolation_eq_none hdouble hrest hclear]
      simp only [tail_cons, zip_cons_cons, filterMap_cons]
      cases hfirst : restViolation (.finite rest) a b with
      | none => simp
      | some violation => simp

end Neighbours

/-- Rest between neighbours is rest between all, when shifts end after they start. -/
theorem pairwise_rested_of_isChain {l : List SimulatedShift} (hrest : 0 ≤ rest)
    (hends : ∀ s ∈ l, s.start < s.fin) (h : l.IsChain (SimulatedShift.Rested rest)) :
    l.Pairwise (SimulatedShift.Rested rest) := by
  induction l with
  | nil => exact .nil
  | cons a l ih =>
    have htail := ih (fun s hs => hends s (mem_cons_of_mem _ hs)) h.of_cons
    refine pairwise_cons.2 ⟨fun c hc => ?_, htail⟩
    cases l with
    | nil => cases hc
    | cons b l =>
      have hab : a.Rested rest b := (isChain_cons_cons.1 h).1
      rcases mem_cons.1 hc with rfl | hc
      · exact hab
      · -- The shift in between lasts some time, and its own rest is not negative.
        have hbc : b.Rested rest c := (pairwise_cons.1 htail).1 c hc
        have hb : (b.start : ℚ) < b.fin := by
          exact_mod_cast hends b (mem_cons_of_mem _ mem_cons_self)
        have hnonneg : 0 ≤ rest * (msPerHour : ℚ) := mul_nonneg hrest (by norm_num [msPerHour])
        unfold SimulatedShift.Rested at hab hbc ⊢
        linarith

/-- One of the shifts starts at least the rest after the other ends. -/
def SimulatedShift.Apart (rest : ℚ) (a b : SimulatedShift) : Prop :=
  a.Rested rest b ∨ b.Rested rest a

theorem SimulatedShift.not_rested (hrest : 0 ≤ rest) (hb : b.start < b.fin)
    (h : a.start ≤ b.start) : ¬ b.Rested rest a := by
  have hnonneg : 0 ≤ rest * (msPerHour : ℚ) := mul_nonneg hrest (by norm_num [msPerHour])
  have hlt : (a.start : ℚ) < b.fin := by exact_mod_cast h.trans_lt hb
  unfold SimulatedShift.Rested
  linarith

/-- The check compares neighbours in the order of their starts; all pairs are apart exactly when
these are. -/
theorem checkRest_eq_nil_iff {shifts : List SimulatedShift} {definition : Json}
    (hdouble : nearestDouble rest = rest) (hrest : 0 ≤ rest) (hclear : Unambiguous rest)
    (hends : ∀ s ∈ shifts, s.start < s.fin)
    (hfield : numberField definition "minRestHoursBetweenShifts" = some (.finite rest)) :
    checkRestPeriodMinimum shifts definition = [] ↔
      shifts.Pairwise (SimulatedShift.Apart rest) := by
  let sorted := shifts.insertionSort fun a b => a.start ≤ b.start
  have hperm : sorted.Perm shifts := perm_insertionSort _ _
  have hsorted : sorted.Pairwise fun a b => a.start ≤ b.start :=
    pairwise_insertionSort _ _
  have hends' : ∀ s ∈ sorted, s.start < s.fin := fun s hs => hends s (hperm.mem_iff.1 hs)
  have hsymm : ∀ {a b : SimulatedShift}, a.Apart rest b → b.Apart rest a := Or.symm
  rw [checkRestPeriodMinimum, hfield, ← hperm.pairwise_iff hsymm]
  refine (filterMap_restViolation_eq_nil hdouble hrest hclear).trans ⟨fun h => ?_, fun h => ?_⟩
  · exact (pairwise_rested_of_isChain hrest hends' h).imp Or.inl
  · refine Pairwise.isChain ((hsorted.and h).imp_of_mem ?_)
    rintro a b ha hb ⟨hle, hapart⟩
    exact hapart.resolve_right (SimulatedShift.not_rested hrest (hends' b hb) hle)

/-- The shift that the solver sees, in UTC. -/
def SimulatedShift.SameTimes (shift : SimulatedShift) (slot : ShiftSlot) : Prop :=
  slot.start = ⟨shift.start * 1000, 0⟩ ∧ slot.fin = ⟨shift.fin * 1000, 0⟩

theorem conflicts_eq_false_of_le {s s' : ShiftSlot} (ha : a.SameTimes s) (hb : b.SameTimes s')
    (hrest : 0 ≤ rest) (h : a.start ≤ b.start) :
    conflicts s s' rest = false ↔ a.Rested rest b := by
  obtain ⟨hs, hf⟩ := ha
  obtain ⟨hs', hf'⟩ := hb
  have hmicros : ∀ n : ℤ, (⟨n * 1000, 0⟩ : DateTime).instant = n * 1000 := fun n => sub_zero _
  have hle : s.start.instant ≤ s'.start.instant := by
    rw [hs, hs', hmicros, hmicros]
    omega
  have hgap : ((s'.start.instant - s.fin.instant : ℤ) : ℚ) / microsPerHour =
      ((b.start - a.fin : ℤ) : ℚ) / msPerHour := by
    rw [hs', hf, hmicros, hmicros, ← sub_mul, Int.cast_mul,
      show ((microsPerHour : ℤ) : ℚ) = (msPerHour : ℚ) * (1000 : ℤ) by
        norm_num [microsPerHour, msPerHour]]
    exact mul_div_mul_right _ _ (by norm_num)
  have hhour : (0 : ℚ) < msPerHour := by norm_num [msPerHour]
  simp only [conflicts, if_pos hle, hgap]
  have hrested : a.Rested rest b ↔ rest ≤ ((b.start - a.fin : ℤ) : ℚ) / msPerHour := by
    rw [le_div_iff₀ hhour, SimulatedShift.Rested, Int.cast_sub, le_sub_iff_add_le, add_comm]
  rw [hrested]
  split
  · -- An overlap is less than no rest.
    rename_i hoverlap
    rw [hs', hf, hmicros, hmicros] at hoverlap
    have hneg : ((b.start - a.fin : ℤ) : ℚ) / msPerHour < 0 := by
      refine div_neg_of_neg_of_pos ?_ hhour
      exact_mod_cast (by omega : b.start - a.fin < 0)
    simp only [Bool.true_eq_false, false_iff, not_le]
    exact hneg.trans_le hrest
  · rw [decide_eq_false_iff_not, not_lt]

theorem conflicts_eq_false_iff {s s' : ShiftSlot} (ha : a.SameTimes s) (hb : b.SameTimes s')
    (hrest : 0 ≤ rest) (haend : a.start < a.fin) (hbend : b.start < b.fin) :
    conflicts s s' rest = false ↔ a.Apart rest b := by
  have hends : ∀ {c : SimulatedShift} {slot : ShiftSlot}, c.SameTimes slot → c.start < c.fin →
      slot.start.instant < slot.fin.instant := by
    rintro c slot ⟨hstart, hfin⟩ hc
    rw [hstart, hfin]
    simp only [DateTime.instant]
    omega
  rcases le_total a.start b.start with hle | hle
  · rw [conflicts_eq_false_of_le ha hb hrest hle]
    exact (or_iff_left (SimulatedShift.not_rested hrest hbend hle)).symm
  · rw [conflicts_comm (hends ha haend) (hends hb hbend),
      conflicts_eq_false_of_le hb ha hrest hle]
    exact (or_iff_right (SimulatedShift.not_rested hrest haend hle)).symm

/-- In doubles, the solver finds the conflicts that it finds in exact hours. -/
theorem conflictsInDoubles_eq {s s' : ShiftSlot} (ha : a.SameTimes s) (hb : b.SameTimes s')
    (hdouble : nearestDouble rest = rest) (hrest : 0 ≤ rest) (hclear : Unambiguous rest) :
    conflictsInDoubles s s' rest = conflicts s s' rest := by
  have hgap : ∀ {c c' : SimulatedShift} {t t' : ShiftSlot}, c.SameTimes t → c'.SameTimes t' →
      ¬ t'.start.instant < t.fin.instant →
      decide (nearestDouble (totalSeconds (t'.start.instant - t.fin.instant) / 3600) < rest) =
        decide (((t'.start.instant - t.fin.instant : ℤ) : ℚ) / microsPerHour < rest) := by
    rintro c c' t t' ⟨-, hfin⟩ ⟨hstart, -⟩ hoverlap
    rw [hfin, hstart] at hoverlap ⊢
    simp only [DateTime.instant, sub_zero, ← sub_mul] at hoverlap ⊢
    have hiff := gapHours_lt_iff hdouble hrest hclear (c'.start - c.fin) (by omega)
    rw [decide_eq_decide, hiff, div_lt_iff₀ (by norm_num [microsPerHour])]
    norm_num [microsPerHour, msPerHour]
    constructor <;> intro h <;> linarith
  unfold conflictsInDoubles conflicts
  by_cases hle : s.start.instant ≤ s'.start.instant
  · rw [if_pos hle]
    exact ite_congr rfl (fun _ => rfl) (hgap ha hb)
  · rw [if_neg hle]
    exact ite_congr rfl (fun _ => rfl) (hgap hb ha)

theorem exists_mem_of_forall₂ {α β : Type*} {R : α → β → Prop} {l : List α} {m : List β}
    (h : Forall₂ R l m) {b : β} (hb : b ∈ m) : ∃ a ∈ l, R a b := by
  induction h with
  | nil => cases hb
  | @cons a b' l m hab h ih =>
    rcases mem_cons.1 hb with rfl | hb
    · exact ⟨a, mem_cons_self, hab⟩
    · obtain ⟨a', ha', hR⟩ := ih hb
      exact ⟨a', mem_cons_of_mem _ ha', hR⟩

section Pairs

variable (hdouble : nearestDouble rest = rest) (hrest : 0 ≤ rest) (hclear : Unambiguous rest)

include hdouble hrest hclear

theorem conflictsInDoubles_eq_false_iff {s s' : ShiftSlot} (ha : a.SameTimes s)
    (hb : b.SameTimes s') (haend : a.start < a.fin) (hbend : b.start < b.fin) :
    conflictsInDoubles s s' rest = false ↔ a.Apart rest b := by
  rw [conflictsInDoubles_eq ha hb hdouble hrest hclear]
  exact conflicts_eq_false_iff ha hb hrest haend hbend

theorem pairwise_apart_iff {shifts : List SimulatedShift} {slots : List ShiftSlot}
    (hsame : Forall₂ SimulatedShift.SameTimes shifts slots)
    (hends : ∀ s ∈ shifts, s.start < s.fin) :
    shifts.Pairwise (SimulatedShift.Apart rest) ↔
      slots.Pairwise fun s s' => conflictsInDoubles s s' rest = false := by
  induction hsame with
  | nil => simp
  | @cons a s shifts slots ha hsame ih =>
    have haend := hends a mem_cons_self
    have hends := fun b hb => hends b (mem_cons_of_mem a hb)
    rw [pairwise_cons, pairwise_cons, ih hends]
    refine and_congr_left' ⟨fun h s' hs' => ?_, fun h b hb => ?_⟩
    · obtain ⟨b, hb, hsb⟩ := exists_mem_of_forall₂ hsame hs'
      exact (conflictsInDoubles_eq_false_iff hdouble hrest hclear ha hsb haend
        (hends b hb)).2 (h b hb)
    · obtain ⟨s', hs', hsb⟩ := exists_mem_of_forall₂ hsame.flip hb
      exact (conflictsInDoubles_eq_false_iff hdouble hrest hclear ha hsb haend
        (hends b hb)).1 (h s' hs')

end Pairs

end Rest

/-! ## Streaks of days -/

section Days

variable {cap : ℤ}

/-- In the loop, a run of days up to the previous date is open. -/
structure RunState.Open (st : RunState) (previous : ℤ) : Prop where
  previous_eq : st.previous = some previous
  started : st.runStart.isSome
  pos : 0 < st.runLength

/-- The days of the open run. -/
def RunState.inRun (st : RunState) (previous day : ℤ) : Bool :=
  previous - st.runLength < day && day ≤ previous

theorem closePrevious_eq_nil {st : RunState} {previous : ℤ} (h : st.Open previous)
    (hcap : 0 ≤ cap) : closePrevious (.finite cap) st = [] ↔
      ∀ first, ¬ FullWindow (st.inRun previous) first cap := by
  obtain ⟨runStart, hstart⟩ := Option.isSome_iff_exists.1 h.started
  have hlt : JsNumber.lt (.finite (cap : ℚ)) (.finite (st.runLength : ℚ)) = true ↔
      cap < st.runLength := by
    simp only [JsNumber.lt, JsNumber.le, Bool.not_eq_true', decide_eq_false_iff_not, not_le]
    exact_mod_cast Iff.rfl
  have hclose : closePrevious (.finite cap) st = [] ↔ ¬ cap < st.runLength := by
    simp only [closePrevious, h.previous_eq, closeRun, hstart, ← hlt]
    split <;> simp_all
  rw [hclose]
  constructor
  · intro hshort first hfull
    have hfirst := hfull first (le_refl _) (le_add_of_nonneg_right hcap)
    have hlast := hfull (first + cap) (le_add_of_nonneg_right hcap) (le_refl _)
    simp only [RunState.inRun, Bool.and_eq_true, decide_eq_true_eq] at hfirst hlast
    omega
  · intro hnone hlong
    refine hnone (previous - cap) fun day hfirst hlast => ?_
    simp only [RunState.inRun, Bool.and_eq_true, decide_eq_true_eq]
    omega

theorem fullWindow_or_iff {worked worked' : ℤ → Bool} (free : ℤ)
    (hbefore : ∀ day, worked day = true → day < free)
    (hafter : ∀ day, worked' day = true → free < day) :
    (∀ first, ¬ FullWindow (fun day => worked day || worked' day) first cap) ↔
      (∀ first, ¬ FullWindow worked first cap) ∧ ∀ first, ¬ FullWindow worked' first cap := by
  constructor
  · intro h
    refine ⟨fun first hfull => h first ?_, fun first hfull => h first ?_⟩
    · exact fun day hfirst hlast => Bool.or_eq_true_iff.2 (.inl (hfull day hfirst hlast))
    · exact fun day hfirst hlast => Bool.or_eq_true_iff.2 (.inr (hfull day hfirst hlast))
  · rintro ⟨hworked, hworked'⟩ first hfull
    by_cases hside : first + cap < free
    · refine hworked first fun day hfirst hlast => ?_
      refine (Bool.or_eq_true_iff.1 (hfull day hfirst hlast)).resolve_right fun hday => ?_
      have hlater := hafter day hday
      omega
    · have hlater : free < first := by
        by_contra hearlier
        rcases Bool.or_eq_true_iff.1 (hfull free (by omega) (by omega)) with hday | hday
        · exact absurd (hbefore free hday) (lt_irrefl _)
        · exact absurd (hafter free hday) (lt_irrefl _)
      refine hworked' first fun day hfirst hlast => ?_
      refine (Bool.or_eq_true_iff.1 (hfull day hfirst hlast)).resolve_left fun hday => ?_
      have hearlier := hbefore day hday
      omega

theorem RunState.Open.visitDate_next {st : RunState} {previous date : ℤ} {maximum : JsNumber}
    (h : st.Open previous) (hnext : previous + 1 = date) :
    visitDate maximum st date =
      { st with
        runLength := st.runLength + 1
        previous := some date } := by
  simp [visitDate, h.previous_eq, isNextCalendarDay, hnext]

theorem RunState.Open.visitDate_gap {st : RunState} {previous date : ℤ} {maximum : JsNumber}
    (h : st.Open previous) (hnext : previous + 1 ≠ date) :
    visitDate maximum st date =
      ⟨st.violations ++ closePrevious maximum st, some date, 1, some date⟩ := by
  simp [visitDate, h.previous_eq, isNextCalendarDay, hnext]

theorem inRun_single (violations : List Violation) (date day : ℤ) :
    RunState.inRun ⟨violations, some date, 1, some date⟩ date day = decide (day = date) := by
  rw [RunState.inRun, ← Bool.decide_and, decide_eq_decide]
  push_cast
  omega

/-- What the loop and the last `closeRun` report, from an open run on: nothing more exactly when no
window fits into the run and the dates that follow. -/
theorem foldl_visitDate_eq_nil (hcap : 0 ≤ cap) {dates : List ℤ} :
    ∀ {st : RunState} {previous : ℤ}, st.Open previous →
      (previous :: dates).Pairwise (· < ·) →
        ((dates.foldl (visitDate (.finite cap)) st).violations ++
            closePrevious (.finite cap) (dates.foldl (visitDate (.finite cap)) st) = [] ↔
          st.violations = [] ∧
            ∀ first, ¬ FullWindow (fun day => st.inRun previous day || day ∈ dates) first cap) := by
  induction dates with
  | nil =>
    intro st previous h _
    rw [foldl_nil, append_eq_nil_iff, closePrevious_eq_nil h hcap]
    simp
  | cons date dates ih =>
    intro st previous h hsorted
    obtain ⟨hall, hsorted⟩ := pairwise_cons.1 hsorted
    have hlt := hall date mem_cons_self
    have hlater := (pairwise_cons.1 hsorted).1
    rw [foldl_cons]
    by_cases hnext : previous + 1 = date
    · -- The run goes on.
      have hopen : RunState.Open
          { st with
            runLength := st.runLength + 1
            previous := some date } date := ⟨rfl, h.started, Nat.succ_pos _⟩
      rw [h.visitDate_next hnext, ih hopen hsorted]
      refine and_congr_right' (forall_congr' fun first => not_congr ?_)
      refine forall_congr' fun day => ?_
      simp only [RunState.inRun, Bool.or_eq_true, Bool.and_eq_true, decide_eq_true_eq, mem_cons]
      have hpos := h.pos
      push_cast
      refine imp_congr_right fun _ => imp_congr_right fun _ => ?_
      by_cases hmem : day ∈ dates
      · simp [hmem]
      · simp only [hmem, or_false]
        omega
    · -- The run ends, and a new one starts on the date.
      rw [h.visitDate_gap hnext, ih ⟨rfl, rfl, Nat.one_pos⟩ hsorted, append_eq_nil_iff,
        closePrevious_eq_nil h hcap, and_assoc]
      refine and_congr_right' ?_
      simp only [inRun_single, mem_cons, Bool.decide_or]
      refine (fullWindow_or_iff (previous + 1) ?_ ?_).symm
      · intro day hday
        simp only [RunState.inRun, Bool.and_eq_true, decide_eq_true_eq] at hday
        omega
      · intro day hday
        rcases Bool.or_eq_true_iff.1 hday with hday | hday
        · have hday := of_decide_eq_true hday
          omega
        · have hday := hlater day (of_decide_eq_true hday)
          omega

/-- The check reports nothing exactly when no window is worked on every day. -/
theorem checkMaxConsecutiveDays_eq_nil_iff {shifts : List SimulatedShift} {definition : Json}
    (hcap : 0 ≤ cap)
    (hfield : numberField definition "maxConsecutiveWorkingDays" = some (.finite cap)) :
    checkMaxConsecutiveDays shifts definition = [] ↔ ∀ first,
      ¬ FullWindow (fun day => day ∈ shifts.map fun s => utcDateKey s.start) first cap := by
  let days := shifts.map fun shift => utcDateKey shift.start
  have hmem : ∀ day, day ∈ days.dedup.insertionSort (· ≤ ·) ↔ day ∈ days := by
    intro day
    rw [mem_insertionSort, mem_dedup]
  have hsorted : (days.dedup.insertionSort (· ≤ ·)).Pairwise (· < ·) := by
    have hle := pairwise_insertionSort (· ≤ ·) days.dedup
    have hne : (days.dedup.insertionSort (· ≤ ·)).Nodup :=
      (perm_insertionSort _ _).nodup_iff.2 days.nodup_dedup
    exact (hle.and hne).imp fun h => lt_of_le_of_ne h.1 h.2
  rw [checkMaxConsecutiveDays, hfield]
  show (_ ++ _ = []) ↔ ∀ first, ¬ FullWindow (fun day => decide (day ∈ days)) first cap
  simp only [← hmem]
  cases hdates : days.dedup.insertionSort (· ≤ ·) with
  | nil =>
    refine iff_of_true rfl fun first hfull => ?_
    exact absurd (hfull first (le_refl _) (le_add_of_nonneg_right hcap)) (by simp)
  | cons date dates =>
    rw [hdates] at hsorted
    have hopen : RunState.Open ⟨[], some date, 1, some date⟩ date := ⟨rfl, rfl, Nat.one_pos⟩
    refine (foldl_visitDate_eq_nil hcap hopen hsorted).trans ?_
    rw [and_iff_right rfl]
    refine forall_congr' fun first => not_congr (forall_congr' fun day => ?_)
    simp only [RunState.inRun, mem_cons, Bool.or_eq_true, Bool.and_eq_true, decide_eq_true_eq]
    refine imp_congr_right fun _ => imp_congr_right fun _ => or_congr_left ?_
    push_cast
    omega

theorem map_date_slots {shifts : List SimulatedShift} {slots : List ShiftSlot}
    (hsame : Forall₂ SimulatedShift.SameTimes shifts slots) :
    (slots.map fun s => s.start.date) = shifts.map fun s => utcDateKey s.start := by
  induction hsame with
  | nil => rfl
  | cons h _ ih =>
    rw [map_cons, map_cons, ih, h.1]
    congr 1
    exact Int.mul_ediv_mul_of_pos_left _ msPerDay (by norm_num)

end Days

/-- **The preview agrees with the solver.** For shifts that end after they start, in UTC: it finds
no rest violation exactly when no two of them conflict, for a minimum rest that is a double and
that no other whole number of milliseconds comes close to; and no violation of the maximum of
consecutive days exactly when no window of one day more has more days of work than the maximum. -/
theorem preview_agrees {shifts : List SimulatedShift} {slots : List ShiftSlot}
    (hsame : Forall₂ SimulatedShift.SameTimes shifts slots)
    (hends : ∀ s ∈ shifts, s.start < s.fin) (definition : Json) :
    (∀ rest : ℚ, nearestDouble rest = rest → 0 ≤ rest → Unambiguous rest →
      numberField definition "minRestHoursBetweenShifts" = some (.finite rest) →
        (findViolations .restPeriodMinimum definition shifts = [] ↔
          slots.Pairwise fun s s' => conflictsInDoubles s s' rest = false)) ∧
    ∀ cap : ℤ, 0 < cap →
      numberField definition "maxConsecutiveWorkingDays" = some (.finite cap) →
        (findViolations .maxConsecutiveDays definition shifts = [] ↔
          ∀ first, ((daysFrom first (cap + 1)).countP fun day =>
            day ∈ slots.map fun s => s.start.date : ℤ) ≤ cap) := by
  refine ⟨fun rest hdouble hrest hclear hfield => ?_, fun cap hcap hfield => ?_⟩
  · rw [findViolations, checkRest_eq_nil_iff hdouble hrest hclear hends hfield]
    exact pairwise_apart_iff hdouble hrest hclear hsame hends
  · rw [findViolations, checkMaxConsecutiveDays_eq_nil_iff hcap.le hfield, map_date_slots hsame]
    refine forall_congr' fun first => ?_
    rw [← lt_countP_daysFrom hcap.le, not_lt]

/-- The same shift for the solver. -/
def SimulatedShift.slot (id : UUID) (shift : SimulatedShift) : ShiftSlot :=
  ⟨id, ⟨shift.start * 1000, 0⟩, ⟨shift.fin * 1000, 0⟩, 1, none, 0, none⟩

/-- A shift from 08:00 to 16:00 on a day. -/
def dayShift (day : ℤ) : SimulatedShift :=
  ⟨day * msPerDay + 8 * msPerHour, day * msPerDay + 16 * msPerHour⟩

theorem numberField_num (field : String) {q : ℚ} (hdouble : nearestDouble q = q)
    (hlt : |q| < 2 ^ 80) : numberField (.obj [(field, .num q)]) field = some (.finite q) := by
  have hfinite : (JsNumber.finite q).double = .finite q := by
    rw [JsNumber.double, if_pos (hlt.trans lt_doubleMax), hdouble]
  simp [numberField, Json.get, jsNumber, hfinite]

/-- Three days in a row leave 16 hours of rest, and are one day more than two. -/
theorem threeDays_preview :
    findViolations .restPeriodMinimum (.obj [("minRestHoursBetweenShifts", .num 11)])
        [dayShift 20455, dayShift 20454, dayShift 20456] = [] ∧
      findViolations .maxConsecutiveDays (.obj [("maxConsecutiveWorkingDays", .num 2)])
        [dayShift 20455, dayShift 20454, dayShift 20456] ≠ [] := by
  have hsame : Forall₂ SimulatedShift.SameTimes
      [dayShift 20455, dayShift 20454, dayShift 20456]
      [(dayShift 20455).slot 1, (dayShift 20454).slot 2, (dayShift 20456).slot 3] :=
    .cons ⟨rfl, rfl⟩ (.cons ⟨rfl, rfl⟩ (.cons ⟨rfl, rfl⟩ .nil))
  have hends : ∀ s ∈ [dayShift 20455, dayShift 20454, dayShift 20456], s.start < s.fin := by
    decide
  have hwhole : ∀ n : ℤ, |(n : ℚ)| < 2 ^ 53 → nearestDouble (n : ℚ) = n := fun n hn =>
    Doubles.nearestDouble_of_lt (n := n) (e := 0) (by simp) (by norm_num) (by simpa using hn)
  have heleven : nearestDouble 11 = 11 := by exact_mod_cast hwhole 11 (by norm_num)
  have htwo : nearestDouble 2 = 2 := by exact_mod_cast hwhole 2 (by norm_num)
  have hclear : Unambiguous 11 :=
    unambiguous_of_whole (n := 11 * msPerHour) (by push_cast; ring) (by norm_num [msPerHour])
  constructor
  · refine ((preview_agrees hsame hends _).1 11 heleven (by norm_num) hclear
      (numberField_num _ heleven (by norm_num))).2 ?_
    refine (pairwise_apart_iff heleven (by norm_num) hclear hsame hends).1 ?_
    norm_num [SimulatedShift.Apart, SimulatedShift.Rested, dayShift, msPerDay, msPerHour]
  · intro hnil
    have hle := ((preview_agrees hsame hends _).2 2 (by norm_num)
      (numberField_num _ htwo (by norm_num))).1 hnil 20454
    exact absurd hle (by decide +kernel)

/-- Two shifts with 8 hours and 18 minutes in between. -/
def shortRest : List SimulatedShift :=
  [⟨0, 8 * msPerHour⟩, ⟨8 * msPerHour + 29880000, 24 * msPerHour⟩]

theorem nearestDouble_rest : nearestDouble (83 / 10) = 4672484613396890 * 2 ^ (-49 : ℤ) := by
  rw [Doubles.nearestDouble_eq (e := -49) (n := 4672484613396890)] <;> norm_num

/-- All products are rounded up, but the last. -/
theorem restProduct_rest :
    restProduct (nearestDouble (83 / 10)) = 8020851425280001 * 2 ^ (-28 : ℤ) := by
  have hminutes : nearestDouble (4672484613396890 * 2 ^ (-49 : ℤ) * (60 : ℤ)) =
      8760908650119169 * 2 ^ (-44 : ℤ) := by
    rw [Doubles.nearestDouble_eq (e := -44) (n := 8760908650119169)] <;> norm_num
  have hseconds : nearestDouble (8760908650119169 * 2 ^ (-44 : ℤ) * (60 : ℤ)) =
      8213351859486721 * 2 ^ (-38 : ℤ) := by
    rw [Doubles.nearestDouble_eq (e := -38) (n := 8213351859486721)] <;> norm_num
  rw [restProduct, nearestDouble_rest, hminutes, hseconds,
    Doubles.nearestDouble_eq (e := -28) (n := 8020851425280001)] <;> norm_num

/-- For a minimum of 8.3 hours, the preview reports them, and the solver allows both: the product of
the preview is above 29880000 in its last place. -/
theorem preview_disagrees :
    findViolations .restPeriodMinimum
        (.obj [("minRestHoursBetweenShifts", .num (nearestDouble (83 / 10)))]) shortRest ≠ [] ∧
      (shortRest.zipIdx.map fun p => p.1.slot p.2).Pairwise fun s s' =>
        conflictsInDoubles s s' (nearestDouble (83 / 10)) = false := by
  have hdouble : nearestDouble (nearestDouble (83 / 10)) = nearestDouble (83 / 10) := by
    refine Doubles.nearestDouble_of_lt (n := 4672484613396890) (e := -49) ?_ (by norm_num) ?_
    · exact nearestDouble_rest
    · rw [nearestDouble_rest]
      norm_num
  have hfield := numberField_num "minRestHoursBetweenShifts" hdouble (by
    rw [nearestDouble_rest]
    norm_num)
  have hviolation : restViolation (.finite (nearestDouble (83 / 10))) ⟨0, 8 * msPerHour⟩
      ⟨8 * msPerHour + 29880000, 24 * msPerHour⟩ ≠ none := by
    have hproduct := minRestMs_finite hdouble (by rw [nearestDouble_rest]; norm_num)
      (by rw [nearestDouble_rest]; norm_num [msPerHour])
    rw [restViolation, hproduct, restProduct_rest]
    norm_num [JsNumber.lt, JsNumber.le, msPerHour]
    simp
  constructor
  · rw [findViolations, checkRestPeriodMinimum, hfield]
    obtain ⟨violation, hsome⟩ := Option.ne_none_iff_exists'.1 hviolation
    have hsorted : shortRest.insertionSort (fun a b => a.start ≤ b.start) = shortRest := by decide
    dsimp only
    rw [hsorted]
    simp [shortRest, hsome]
  · have hseconds : totalSeconds 29880000000 = 29880 := by
      refine Eq.trans ?_ (Doubles.nearestDouble_of_lt (n := 29880) (e := 0) ?_ ?_ ?_) <;>
        norm_num [totalSeconds]
    have hgap : conflictsInDoubles (SimulatedShift.slot 0 ⟨0, 8 * msPerHour⟩)
        (SimulatedShift.slot 1 ⟨8 * msPerHour + 29880000, 24 * msPerHour⟩)
        (nearestDouble (83 / 10)) = false := by
      norm_num [conflictsInDoubles, SimulatedShift.slot, DateTime.instant, msPerHour, hseconds]
    simpa [shortRest] using hgap

end Workforce.Compliance
