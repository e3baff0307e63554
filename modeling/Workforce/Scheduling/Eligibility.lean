import Workforce.Foundations.Tables
import Workforce.Scheduling.DecompositionSoundness

/-!
# The eligibility check of a single assignment

`app/solver/eligibility.py`: whether an employee who has some shifts may be given one more, without
a solve. Days and hours are counted here on the shifts themselves, in the windows and the week
around the candidate, where `solve` emits a constraint for every window and every week.

* `withinDays_iff` and `wouldExceedMaxConsecutiveDays_eq_none`: both sides look for a window that is
  worked on every day.
* `eligibility_iff_satisfies`: the check passes exactly when the constraints that `solve` emits for
  the employee hold with the candidate added.
-/

namespace Workforce.Scheduling

open Calendar LinearModel List

/-! ## The source -/

/-- A violation, with the values its detail shows. -/
inductive EligibilityViolation
  | skill (requiredSkillId : Option UUID) (asOf : ℤ)
  | leaveConflict (day : ℤ)
  | shiftOverlap (start fin : DateTime)
  | minRest (start fin : DateTime) (minRestHours : ℚ)
  | maxConsecutiveDays (workedInWindow : ℕ) (windowFirst windowLast maxConsecutiveDays : ℤ)
  | contractedHours (totalMinutes weekStart capMinutes : ℤ)
  deriving DecidableEq

/-- `category`. -/
def EligibilityViolation.category : EligibilityViolation → String
  | skill .. => "skill"
  | leaveConflict .. => "leave_conflict"
  | shiftOverlap .. => "shift_overlap"
  | minRest .. => "min_rest"
  | maxConsecutiveDays .. => "max_consecutive_days"
  | contractedHours .. => "contracted_hours"

/-- `date.min`. -/
def minDate : ℤ := -719162

/-- `date.max`. -/
def maxDate : ℤ := 2932896

/-- `OverflowError`. -/
inductive DateError
  | overflow
  deriving DecidableEq

/-- `day + timedelta(days=days)`. -/
def addDays (day days : ℤ) : Except DateError ℤ :=
  if minDate ≤ day + days ∧ day + days ≤ maxDate then .ok (day + days) else .error .overflow

/-- The body of the loop over the offsets. -/
def windowViolation (candidateDay : ℤ) (workedDays : List ℤ) (maxConsecutiveDays : ℤ)
    (offset : ℕ) : Except DateError (Option EligibilityViolation) := do
  let windowSize := maxConsecutiveDays + 1
  let windowStart ← addDays candidateDay (-(windowSize - 1 - offset))
  let window ← (range windowSize.toNat).mapM fun (d : ℕ) => addDays windowStart d
  let workedInWindow := window.countP (· ∈ workedDays)
  if maxConsecutiveDays < workedInWindow then
    return some (.maxConsecutiveDays workedInWindow windowStart (windowStart + maxConsecutiveDays)
      maxConsecutiveDays)
  else return none

/-- `_would_exceed_max_consecutive_days`. -/
def wouldExceedMaxConsecutiveDays (candidateShift : ShiftSlot) (existingShifts : List ShiftSlot)
    (maxConsecutiveDays : ℤ) : Except DateError (Option EligibilityViolation) :=
  let candidateDay := candidateShift.start.date
  let workedDays := existingShifts.map (fun s => s.start.date) ++ [candidateDay]
  (range (maxConsecutiveDays + 1).toNat).findSomeM?
    (windowViolation candidateDay workedDays maxConsecutiveDays)

/-- `_would_exceed_contracted_hours`. -/
def wouldExceedContractedHours (candidate : Employee) (candidateShift : ShiftSlot)
    (existingShifts : List ShiftSlot) : Except DateError (Option EligibilityViolation) := do
  let week := weekStart candidateShift.start.date
  let weekEnd ← addDays week 6
  let sameWeekMinutes := ((existingShifts.filter fun s =>
    week ≤ s.start.date && s.start.date ≤ weekEnd).map (·.roundedMinutes)).sum
  let totalMinutes := sameWeekMinutes + candidateShift.roundedMinutes
  let capMinutes := roundHalfEven (candidate.contractHoursPerWeek * 60)
  if capMinutes < totalMinutes then return some (.contractedHours totalMinutes week capMinutes)
  else return none

/-- The violation of a shift that the employee already has. -/
def conflictViolation (candidateShift : ShiftSlot) (minRestHours : ℚ) (other : ShiftSlot) :
    Option EligibilityViolation :=
  if conflicts candidateShift other minRestHours then
    if other.start.instant < candidateShift.fin.instant ∧
        candidateShift.start.instant < other.fin.instant then
      some (.shiftOverlap other.start other.fin)
    else some (.minRest other.start other.fin minRestHours)
  else none

/-- `evaluate_assignment_eligibility`. -/
def evaluateAssignmentEligibility (candidate : Employee) (candidateShift : ShiftSlot)
    (existingShifts : List ShiftSlot) (leaveRecords : List LeaveRecord)
    (policy : EmploymentPolicy) : Except DateError (List EligibilityViolation) := do
  let day := candidateShift.start.date
  let skill : List EligibilityViolation :=
    if candidate.hasSkill candidateShift.requiredSkillId day then []
    else [.skill candidateShift.requiredSkillId day]
  let leave : List EligibilityViolation :=
    if isEligible candidate candidateShift leaveRecords then []
    else if skill.any (·.category = "skill") then [] else [.leaveConflict day]
  let conflicting :=
    existingShifts.filterMap (conflictViolation candidateShift policy.minRestHoursBetweenShifts)
  let consecutive ← wouldExceedMaxConsecutiveDays candidateShift existingShifts
    policy.maxConsecutiveWorkingDays
  let hours ← (if candidate.overtimeApproved then .ok none
    else wouldExceedContractedHours candidate candidateShift existingShifts)
  return skill ++ leave ++ conflicting ++ consecutive.toList ++ hours.toList

/-! ## The constraints of one employee -/

/-- The plan that gives these shifts to the employee and nothing to others. -/
def Employee.plan (e : Employee) (assigned : List ShiftSlot) : Plan :=
  .ofPairs (assigned.map fun s => (e.id, s.id))

/-- Giving these shifts to the employee satisfies what `solve` emits for the employee: the shifts
have a variable, and with these variables at 1 the constraints on conflicts, consecutive days and
contracted hours hold. -/
def SatisfiesFor (si : SolveInput) (e : Employee) (assigned : List ShiftSlot) : Prop :=
  ∃ v, Realizes (decisionPairs si) (e.plan assigned) v ∧
    Solves v (addNoConflictConstraints (decisionPairs si) [e] si.shifts si.policy
      si.relaxedCategories si.lockedPairs) ∧
    (.maxConsecutiveWorkingDays ∉ si.relaxedCategories →
      Solves v (addMaxConsecutiveDaysConstraints (decisionPairs si) si.shifts e
        (dateRange si.dateRangeStart si.dateRangeEnd) si.policy.maxConsecutiveWorkingDays
        si.lockedPairs)) ∧
    Solves v (addContractedHoursConstraints (decisionPairs si) [e] si.shifts si.relaxedCategories
      si.lockedPairs)

theorem satisfiesFor_iff {si : SolveInput} {e : Employee} {assigned : List ShiftSlot}
    (hrelaxed : si.relaxedCategories = ∅) (hlocks : si.lockedPairs = []) :
    SatisfiesFor si e assigned ↔
      (∀ s ∈ assigned, (e.id, s.id) ∈ decisionPairs si) ∧
      (e.plan assigned).ConflictFree si.shifts si.policy.minRestHoursBetweenShifts [] e.id ∧
      (e.plan assigned).WithinDays si.shifts (dateRange si.dateRangeStart si.dateRangeEnd)
        si.policy.maxConsecutiveWorkingDays [] e.id ∧
      (e.overtimeApproved = false → (e.plan assigned).WithinHours si.shifts [] e) := by
  have hgated : (∀ p, e.plan assigned p = true → p ∈ decisionPairs si) ↔
      ∀ s ∈ assigned, (e.id, s.id) ∈ decisionPairs si := by
    simp [Employee.plan, Plan.ofPairs]
  have hrest : requiredRest si.policy si.relaxedCategories =
      si.policy.minRestHoursBetweenShifts := by
    simp [requiredRest, hrelaxed]
  have hhours : ∀ v, Realizes (decisionPairs si) (e.plan assigned) v →
      (Solves v (addContractedHoursConstraints (decisionPairs si) [e] si.shifts si.relaxedCategories
        si.lockedPairs) ↔
        (e.overtimeApproved = false → (e.plan assigned).WithinHours si.shifts [] e)) := by
    intro v hv
    rw [hv.solves_contractedHours (by simp [hlocks])]
    simp [hrelaxed, hlocks]
  rw [← hgated]
  constructor
  · rintro ⟨v, hv, hconf, hdays, hsolves⟩
    have hconf := hv.solves_noConflict.1 hconf e mem_cons_self
    have hdays := (hv.solves_maxConsecutiveDays.1 (hdays (by simp [hrelaxed]))).2
    rw [hrest, hlocks] at hconf
    rw [hlocks] at hdays
    exact ⟨hv.gated, hconf, hdays, (hhours v hv).1 hsolves⟩
  · rintro ⟨hgate, hconf, hdays, hcap⟩
    have hv := Plan.realizes_valuation hgate
    refine ⟨_, hv, hv.solves_noConflict.2 ?_, fun _ => hv.solves_maxConsecutiveDays.2 ⟨?_, ?_⟩,
      (hhours _ hv).2 hcap⟩
    · intro e' he'
      rw [mem_singleton.1 he', hrest, hlocks]
      exact hconf
    · exact fun _ _ => rfl
    · rw [hlocks]
      exact hdays

/-! ## Windows of days -/

/-- These days, the ones before and after the candidate included, have a date. -/
structure HasDates (c : ShiftSlot) (maxDays : ℤ) : Prop where
  before : minDate ≤ c.start.date - maxDays
  after : c.start.date + maxDays ≤ maxDate
  monday : minDate ≤ weekStart c.start.date
  week : weekStart c.start.date + 6 ≤ maxDate

/-- `[first + timedelta(days=d) for d in range(length)]`, of days that have a date. -/
def daysFrom (first length : ℤ) : List ℤ :=
  (range length.toNat).map fun (d : ℕ) => first + d

/-- All the `maxDays + 1` days from the first are worked. -/
def FullWindow (worked : ℤ → Bool) (first maxDays : ℤ) : Prop :=
  ∀ day, first ≤ day → day ≤ first + maxDays → worked day = true

theorem mem_daysFrom {first length day : ℤ} :
    day ∈ daysFrom first length ↔ first ≤ day ∧ day < first + length := by
  simp only [daysFrom, mem_map, mem_range]
  constructor
  · rintro ⟨d, hd, rfl⟩
    omega
  · rintro ⟨hfirst, hlast⟩
    exact ⟨(day - first).toNat, by omega, by omega⟩

theorem lt_countP_daysFrom {worked : ℤ → Bool} {first maxDays : ℤ} (hmax : 0 ≤ maxDays) :
    maxDays < (daysFrom first (maxDays + 1)).countP worked ↔ FullWindow worked first maxDays := by
  have hlength : (daysFrom first (maxDays + 1)).length = (maxDays + 1).toNat := by simp [daysFrom]
  have hle : (daysFrom first (maxDays + 1)).countP worked ≤ (daysFrom first (maxDays + 1)).length :=
    countP_le_length
  have hfull : (daysFrom first (maxDays + 1)).countP worked =
      (daysFrom first (maxDays + 1)).length ↔ FullWindow worked first maxDays := by
    rw [countP_eq_length]
    simp only [mem_daysFrom, FullWindow, and_imp, Int.lt_add_one_iff, ← Int.add_assoc]
  rw [← hfull]
  omega

theorem slice_dateRange {start fin size : ℤ} {i : ℕ} (hsize : 0 ≤ size)
    (hi : start + i + size ≤ fin + 1) :
    slice (dateRange start fin) i (i + size) = daysFrom (start + i) size := by
  refine ext_getElem ?_ fun k hk hk' => ?_
  · simp only [slice, dateRange, daysFrom, length_drop, length_take, length_map, length_range]
    split <;> omega
  · simp only [slice, dateRange, daysFrom, getElem_drop, getElem_take, getElem_map, getElem_range]
    push_cast
    ring

theorem mem_dayWindows {start fin maxDays : ℤ} (hrange : start ≤ fin) (hmax : -1 ≤ maxDays)
    {window : List ℤ} : window ∈ dayWindows (dateRange start fin) maxDays ↔
      ∃ first, start ≤ first ∧ first + maxDays ≤ fin ∧ window = daysFrom first (maxDays + 1) := by
  have hlength : ((dateRange start fin).length : ℤ) = fin - start + 1 := by
    simp only [dateRange, length_map, length_range]
    omega
  simp only [dayWindows, hlength]
  split
  · rename_i hshort
    simp only [not_mem_nil, false_iff]
    rintro ⟨first, hfirst, hlast, -⟩
    omega
  · simp only [mem_map, mem_range]
    constructor
    · rintro ⟨i, hi, rfl⟩
      exact ⟨start + i, by omega, by omega, slice_dateRange (by omega) (by omega)⟩
    · rintro ⟨first, hfirst, hlast, rfl⟩
      refine ⟨(first - start).toNat, by omega, ?_⟩
      rw [slice_dateRange (by omega) (by omega)]
      congr 1
      omega

/-- The constraint on consecutive days: no window of the range is worked on every day. -/
theorem withinDays_iff {a : Plan} {shifts : List ShiftSlot} {start fin maxDays : ℤ}
    {employeeId : UUID} (hrange : start ≤ fin) (hmax : -1 ≤ maxDays) :
    a.WithinDays shifts (dateRange start fin) maxDays [] employeeId ↔
      (0 ≤ maxDays → ∀ first, start ≤ first → first + maxDays ≤ fin →
        ¬ FullWindow (a.worksOn shifts employeeId) first maxDays) := by
  have hlocked : ∀ window : List ℤ,
      window.countP ((Plan.ofPairs []).worksOn shifts employeeId) = 0 := fun window =>
    countP_eq_zero.2 fun day _ => by simp
  simp only [Plan.WithinDays, mem_dayWindows hrange hmax, hlocked]
  constructor
  · intro h hpos first hfirst hlast hfull
    have hle := h _ ⟨first, hfirst, hlast, rfl⟩
    have hlt := (lt_countP_daysFrom hpos).2 hfull
    omega
  · rintro h _ ⟨first, hfirst, hlast, rfl⟩
    by_cases hpos : 0 ≤ maxDays
    · have hnot := h hpos first hfirst hlast
      rw [← lt_countP_daysFrom hpos] at hnot
      omega
    · have hnil : daysFrom first (maxDays + 1) = [] := by
        rw [daysFrom, show (maxDays + 1).toNat = 0 by omega]
        rfl
      rw [hnil, countP_nil]
      omega

theorem addDays_eq_ok {day days : ℤ} (hmin : minDate ≤ day + days) (hmax : day + days ≤ maxDate) :
    addDays day days = .ok (day + days) := if_pos ⟨hmin, hmax⟩

theorem mapM_addDays {first length : ℤ} (hmin : minDate ≤ first)
    (hmax : first + length ≤ maxDate + 1) :
    (range length.toNat).mapM (fun (d : ℕ) => addDays first d) = .ok (daysFrom first length) := by
  rw [Tables.mapM_eq_ok_iff, daysFrom, forall₂_map_right_iff, forall₂_same]
  intro d hd
  have hlt := mem_range.1 hd
  exact addDays_eq_ok (by omega) (by omega)

theorem findSomeM?_eq_ok_none {α β ε : Type*} {f : α → Except ε (Option β)} {l : List α} :
    l.findSomeM? f = .ok none ↔ ∀ x ∈ l, f x = .ok none := by
  induction l with
  | nil => exact iff_of_true rfl fun x hx => absurd hx not_mem_nil
  | cons x l ih =>
    rw [forall_mem_cons, ← ih, findSomeM?]
    rcases hx : f x with error | _ | y
    · exact iff_of_false (fun h => by cases h) fun h => by cases h.1
    · exact (and_iff_right rfl).symm
    · exact iff_of_false (fun h => by cases h) fun h => by cases h.1

theorem windowViolation_eq_ok_none {day maxDays : ℤ} {worked : List ℤ} {offset : ℕ}
    (hoffset : offset < (maxDays + 1).toNat) (hmin : minDate ≤ day - maxDays)
    (hmax : day + maxDays ≤ maxDate) :
    windowViolation day worked maxDays offset = .ok none ↔
      ¬ FullWindow (· ∈ worked) (day - maxDays + offset) maxDays := by
  have hstart : day + -(maxDays + 1 - 1 - offset) = day - maxDays + offset := by omega
  rw [windowViolation, addDays_eq_ok (by omega) (by omega), hstart]
  dsimp only [bind, Except.bind]
  rw [mapM_addDays (by omega) (by omega), ← lt_countP_daysFrom (by omega)]
  dsimp only
  split <;> simp [*, pure, Except.pure]

/-- The check on consecutive days: no window around the candidate is worked on every day. -/
theorem wouldExceedMaxConsecutiveDays_eq_none {c : ShiftSlot} {existing : List ShiftSlot}
    {maxDays : ℤ} (hdates : HasDates c maxDays) :
    wouldExceedMaxConsecutiveDays c existing maxDays = .ok none ↔
      (0 ≤ maxDays → ∀ first, first ≤ c.start.date → c.start.date ≤ first + maxDays →
        ¬ FullWindow (fun day => day ∈ existing.map (fun s => s.start.date) ++ [c.start.date])
          first maxDays) := by
  rw [wouldExceedMaxConsecutiveDays, findSomeM?_eq_ok_none]
  simp only [mem_range]
  constructor
  · intro h hpos first hfirst hlast
    have hoffset : (first + maxDays - c.start.date).toNat < (maxDays + 1).toNat := by omega
    have hnone := (windowViolation_eq_ok_none hoffset hdates.before hdates.after).1 (h _ hoffset)
    have hstart :
        c.start.date - maxDays + ((first + maxDays - c.start.date).toNat : ℤ) = first := by
      omega
    rwa [hstart] at hnone
  · intro h offset hoffset
    exact (windowViolation_eq_ok_none hoffset hdates.before hdates.after).2
      (h (by omega) _ (by omega) (by omega))

/-- A window that would begin before the first date is not counted, the check raises. -/
theorem wouldExceedMaxConsecutiveDays_overflow {c : ShiftSlot} {existing : List ShiftSlot}
    {maxDays : ℤ} (hpos : 0 ≤ maxDays) (h : c.start.date - maxDays < minDate) :
    wouldExceedMaxConsecutiveDays c existing maxDays = .error .overflow := by
  obtain ⟨n, hn⟩ : ∃ n, (maxDays + 1).toNat = n + 1 := ⟨maxDays.toNat, by omega⟩
  have hfirst : addDays c.start.date (-(maxDays + 1 - 1 - (0 : ℕ))) = .error .overflow :=
    if_neg fun hin => by omega
  rw [wouldExceedMaxConsecutiveDays, hn, range_succ_eq_map, findSomeM?, windowViolation, hfirst]
  rfl

/-! ## One more shift -/

/-- Which of two shifts is named first does not matter to a conflict, when they end after they
start. -/
theorem conflicts_comm {s s' : ShiftSlot} (h : s.start.instant < s.fin.instant)
    (h' : s'.start.instant < s'.fin.instant) (minRestHours : ℚ) :
    conflicts s s' minRestHours = conflicts s' s minRestHours := by
  unfold conflicts
  rcases lt_trichotomy s.start.instant s'.start.instant with hlt | heq | hgt
  · rw [if_pos hlt.le, if_neg (not_le.2 hlt)]
  · -- Shifts that start together overlap, whichever is taken to be the earlier.
    have hoverlap : s'.start.instant < s.fin.instant := heq ▸ h
    have hoverlap' : s.start.instant < s'.fin.instant := heq ▸ h'
    simp [heq.le, heq.ge, hoverlap, hoverlap']
  · rw [if_neg (not_le.2 hgt), if_pos hgt.le]

section Plan

variable {si : SolveInput} {e : Employee} {assigned : List ShiftSlot} {s : ShiftSlot}

theorem Employee.plan_eq_true (hshift : (si.shifts.map (·.id)).Nodup)
    (hsub : ∀ s ∈ assigned, s ∈ si.shifts) (hs : s ∈ si.shifts) :
    e.plan assigned (e.id, s.id) = true ↔ s ∈ assigned := by
  simp only [Employee.plan, Plan.ofPairs, decide_eq_true_eq, mem_map, Prod.mk.injEq, true_and]
  constructor
  · rintro ⟨s', hs', hid⟩
    rwa [← inj_on_of_nodup_map hshift (hsub s' hs') hs hid]
  · intro hmem
    exact ⟨s, hmem, rfl⟩

theorem Employee.worksOn_plan (hshift : (si.shifts.map (·.id)).Nodup)
    (hsub : ∀ s ∈ assigned, s ∈ si.shifts) (day : ℤ) :
    (e.plan assigned).worksOn si.shifts e.id day = true ↔
      day ∈ assigned.map fun s => s.start.date := by
  simp only [Plan.worksOn, any_eq_true, Bool.and_eq_true, decide_eq_true_eq, mem_map]
  constructor
  · rintro ⟨s, hs, hday, ha⟩
    exact ⟨s, (e.plan_eq_true hshift hsub hs).1 ha, hday⟩
  · rintro ⟨s, hs, hday⟩
    exact ⟨s, hsub s hs, hday, (e.plan_eq_true hshift hsub (hsub s hs)).2 hs⟩

theorem Employee.minutes_plan (hshift : (si.shifts.map (·.id)).Nodup)
    (hsub : ∀ s ∈ assigned, s ∈ si.shifts) (hnodup : assigned.Nodup) (week : ℤ) :
    (e.plan assigned).minutes si.shifts e.id week =
      ((assigned.filter (·.week = week)).map (·.roundedMinutes)).sum := by
  have hperm : (si.shifts.filter fun s => e.plan assigned (e.id, s.id)).Perm assigned := by
    refine (perm_ext_iff_of_nodup ((Nodup.of_map _ hshift).filter _) hnodup).2 fun s => ?_
    rw [mem_filter]
    constructor
    · rintro ⟨hs, ha⟩
      exact (e.plan_eq_true hshift hsub hs).1 ha
    · intro hs
      exact ⟨hsub s hs, (e.plan_eq_true hshift hsub (hsub s hs)).2 hs⟩
  rw [Plan.minutes, ← ((hperm.filter (·.week = week)).map (·.roundedMinutes)).sum_eq, filter_filter]
  simp only [Bool.and_comm]

/-- A pair has a variable exactly when the employee is eligible. -/
theorem mem_decisionPairs_iff (hlocks : si.lockedPairs = [])
    (hemp : (si.employees.map (·.id)).Nodup) (hshift : (si.shifts.map (·.id)).Nodup)
    (he : e ∈ si.employees) (hs : s ∈ si.shifts) :
    (e.id, s.id) ∈ decisionPairs si ↔ isEligible e s si.leaveRecords = true := by
  constructor
  · intro hpair
    refine (locked_or_eligible hemp hshift he hs hpair).resolve_left ?_
    rw [hlocks]
    exact not_mem_nil
  · intro helig
    exact mem_decisionPairs.2 ⟨s, hs, e, he, .inr helig, rfl⟩

end Plan

theorem week_eq_iff {s c : ShiftSlot} : s.week = c.week ↔
    weekStart c.start.date ≤ s.start.date ∧ s.start.date ≤ weekStart c.start.date + 6 := by
  simp only [ShiftSlot.week, weekStart, isoDow]
  omega

/-- One employee, the shifts the employee has and one more, as part of an input without relaxations
and locks: ids are distinct, and the shifts are different ones that start within the range. -/
structure OneMore (si : SolveInput) (e : Employee) (c : ShiftSlot) (existing : List ShiftSlot) :
    Prop where
  relaxed : si.relaxedCategories = ∅
  locks : si.lockedAssignments = []
  employeeIds : (si.employees.map (·.id)).Nodup
  shiftIds : (si.shifts.map (·.id)).Nodup
  employee : e ∈ si.employees
  shifts : ∀ s ∈ existing ++ [c], s ∈ si.shifts
  nodup : (existing ++ [c]).Nodup
  dates : ∀ s ∈ existing ++ [c],
    si.dateRangeStart ≤ s.start.date ∧ s.start.date ≤ si.dateRangeEnd

namespace OneMore

variable {si : SolveInput} {e : Employee} {c : ShiftSlot} {existing : List ShiftSlot}

theorem existing_mem (h : OneMore si e c existing) : ∀ s ∈ existing, s ∈ si.shifts :=
  fun s hs => h.shifts s (mem_append_left _ hs)

theorem candidate_mem (h : OneMore si e c existing) : c ∈ si.shifts :=
  h.shifts c (mem_append_right _ mem_cons_self)

/-- The conflicts that the candidate adds are those with the shifts the employee has. -/
theorem conflictFree_iff (h : OneMore si e c existing)
    (hends : ∀ s ∈ existing ++ [c], s.start.instant < s.fin.instant) {minRestHours : ℚ}
    (hfree : (e.plan existing).ConflictFree si.shifts minRestHours [] e.id) :
    (e.plan (existing ++ [c])).ConflictFree si.shifts minRestHours [] e.id ↔
      ∀ other ∈ existing, ¬ conflicts c other minRestHours = true := by
  have hc : c ∈ existing ++ [c] := mem_append_right _ mem_cons_self
  constructor
  · intro hall other hother hconf
    have hmem := mem_append_left [c] hother
    have hne : c ≠ other := by
      rintro rfl
      exact (nodup_append.1 h.nodup).2.2 c hother c mem_cons_self rfl
    have hplan : ∀ s ∈ existing ++ [c], e.plan (existing ++ [c]) (e.id, s.id) = true := fun s hs =>
      (e.plan_eq_true h.shiftIds h.shifts (h.shifts s hs)).2 hs
    -- The two shifts may be listed in either order.
    rcases mem_orderedPairs (h.shifts c hc) (h.shifts other hmem) hne with hp | hp
    · exact absurd (hall _ hp (hplan c hc) (hplan other hmem) hconf).1 not_mem_nil
    · rw [conflicts_comm (hends c hc) (hends other hmem)] at hconf
      exact absurd (hall _ hp (hplan other hmem) (hplan c hc) hconf).1 not_mem_nil
  · rintro hall ⟨s, s'⟩ hp ha ha' hconf
    obtain ⟨hs, hs'⟩ := mem_of_mem_orderedPairs hp
    have ha := (e.plan_eq_true h.shiftIds h.shifts hs).1 ha
    have ha' := (e.plan_eq_true h.shiftIds h.shifts hs').1 ha'
    have hne : s ≠ s' := ne_of_mem_orderedPairs (Nodup.of_map _ h.shiftIds) hp
    have hcomm := conflicts_comm (hends s ha) (hends s' ha') minRestHours
    rcases Tables.mem_concat.1 ha with hex | rfl
    · rcases mem_append.1 ha' with hex' | hex'
      · exact hfree _ hp ((e.plan_eq_true h.shiftIds h.existing_mem hs).2 hex)
          ((e.plan_eq_true h.shiftIds h.existing_mem hs').2 hex') hconf
      · obtain rfl := mem_singleton.1 hex'
        rw [hcomm] at hconf
        exact absurd hconf (hall s hex)
    · rcases mem_append.1 ha' with hex' | hex'
      · exact absurd hconf (hall s' hex')
      · exact absurd (mem_singleton.1 hex').symm hne

/-- A window that the candidate fills is around the candidate. -/
theorem withinDays_iff_check (h : OneMore si e c existing) {maxDays : ℤ} (hmax : -1 ≤ maxDays)
    (hdates : HasDates c maxDays)
    (hdays : (e.plan existing).WithinDays si.shifts (dateRange si.dateRangeStart si.dateRangeEnd)
      maxDays [] e.id) :
    (e.plan (existing ++ [c])).WithinDays si.shifts (dateRange si.dateRangeStart si.dateRangeEnd)
        maxDays [] e.id ↔ wouldExceedMaxConsecutiveDays c existing maxDays = .ok none := by
  obtain ⟨hstart, hend⟩ := h.dates c (mem_append_right _ mem_cons_self)
  have hrange := hstart.trans hend
  rw [withinDays_iff hrange hmax] at hdays ⊢
  rw [wouldExceedMaxConsecutiveDays_eq_none hdates]
  have hworks : ∀ day, (e.plan (existing ++ [c])).worksOn si.shifts e.id day = true ↔
      day ∈ existing.map (fun s => s.start.date) ++ [c.start.date] := by
    intro day
    rw [e.worksOn_plan h.shiftIds h.shifts, map_append]
    rfl
  constructor
  · intro hnone hpos first hfirst hlast hfull
    have hinside : ∀ day, first ≤ day → day ≤ first + maxDays →
        si.dateRangeStart ≤ day ∧ day ≤ si.dateRangeEnd := by
      intro day hd hd'
      have hmem : day ∈ (existing ++ [c]).map fun s => s.start.date := by
        rw [map_append]
        exact of_decide_eq_true (hfull day hd hd')
      obtain ⟨s, hs, rfl⟩ := mem_map.1 hmem
      exact h.dates s hs
    refine hnone hpos first (hinside first le_rfl (by omega)).1
      (hinside (first + maxDays) (by omega) le_rfl).2 fun day hd hd' => ?_
    exact (hworks day).2 (of_decide_eq_true (hfull day hd hd'))
  · intro hnone hpos first hfirst hlast hfull
    -- If the candidate is not in the window, the shifts that were there before fill it.
    by_cases hin : first ≤ c.start.date ∧ c.start.date ≤ first + maxDays
    · exact hnone hpos first hin.1 hin.2 fun day hd hd' =>
        decide_eq_true ((hworks day).1 (hfull day hd hd'))
    · refine hdays hpos first hfirst hlast fun day hd hd' => ?_
      have hmem := (hworks day).1 (hfull day hd hd')
      rw [e.worksOn_plan h.shiftIds h.existing_mem]
      refine (mem_append.1 hmem).resolve_right fun hday => hin ?_
      rw [← mem_singleton.1 hday]
      exact ⟨hd, hd'⟩

/-- The only week that the candidate adds to is its own. -/
theorem withinHours_iff_check (h : OneMore si e c existing) (hhours : 0 ≤ e.contractHoursPerWeek)
    (hweek : weekStart c.start.date + 6 ≤ maxDate) (hmonday : minDate ≤ weekStart c.start.date)
    (hwithin : (e.plan existing).WithinHours si.shifts [] e) :
    (e.plan (existing ++ [c])).WithinHours si.shifts [] e ↔
      wouldExceedContractedHours e c existing = .ok none := by
  have hcap : 0 ≤ roundHalfEven (e.contractHoursPerWeek * 60) :=
    roundHalfEven_nonneg (mul_nonneg hhours (by norm_num))
  have hminutes : ∀ week, (e.plan (existing ++ [c])).minutes si.shifts e.id week =
      (e.plan existing).minutes si.shifts e.id week +
        if c.week = week then c.roundedMinutes else 0 := by
    intro week
    rw [e.minutes_plan h.shiftIds h.shifts h.nodup, e.minutes_plan h.shiftIds h.existing_mem
      (nodup_append.1 h.nodup).1, filter_append, map_append, sum_append]
    by_cases hweek : c.week = week
    · simp [hweek]
    · simp [hweek]
  have hsame : ((existing.filter fun s => weekStart c.start.date ≤ s.start.date &&
      s.start.date ≤ weekStart c.start.date + 6).map (·.roundedMinutes)).sum =
      (e.plan existing).minutes si.shifts e.id c.week := by
    rw [e.minutes_plan h.shiftIds h.existing_mem (nodup_append.1 h.nodup).1]
    congr 2
    refine filter_congr fun s _ => ?_
    rw [Bool.eq_iff_iff]
    simp only [Bool.and_eq_true, decide_eq_true_eq, week_eq_iff]
  have hcheck : wouldExceedContractedHours e c existing = .ok none ↔
      (e.plan existing).minutes si.shifts e.id c.week + c.roundedMinutes ≤
        roundHalfEven (e.contractHoursPerWeek * 60) := by
    rw [wouldExceedContractedHours, addDays_eq_ok (by omega) hweek]
    dsimp only [bind, Except.bind]
    rw [hsame, ← not_lt]
    split <;> simp [*, pure, Except.pure]
  rw [hcheck]
  constructor
  · intro hall
    have hle := hall c.week
    rw [hminutes, if_pos rfl, Plan.minutes_ofPairs_nil, max_eq_left hcap] at hle
    exact hle
  · intro hle week
    rw [hminutes]
    split
    · rename_i hweek
      rw [← hweek, Plan.minutes_ofPairs_nil, max_eq_left hcap]
      exact hle
    · rw [add_zero]
      exact hwithin week

end OneMore

theorem conflictViolation_eq_none {c other : ShiftSlot} {minRestHours : ℚ} :
    conflictViolation c minRestHours other = none ↔ ¬ conflicts c other minRestHours = true := by
  unfold conflictViolation
  split_ifs <;> simp_all

/-- The checks on skill and leave pass exactly when the employee is eligible. -/
theorem evaluateAssignmentEligibility_eq_nil {e : Employee} {c : ShiftSlot}
    {existing : List ShiftSlot} {leaveRecords : List LeaveRecord} {policy : EmploymentPolicy} :
    evaluateAssignmentEligibility e c existing leaveRecords policy = .ok [] ↔
      isEligible e c leaveRecords = true ∧
      (∀ other ∈ existing, ¬ conflicts c other policy.minRestHoursBetweenShifts = true) ∧
      wouldExceedMaxConsecutiveDays c existing policy.maxConsecutiveWorkingDays = .ok none ∧
      (e.overtimeApproved = false → wouldExceedContractedHours e c existing = .ok none) := by
  have hskill : isEligible e c leaveRecords = true →
      e.hasSkill c.requiredSkillId c.start.date = true := fun h => (Bool.and_eq_true_iff.1 h).1
  rw [evaluateAssignmentEligibility]
  dsimp only [bind, Except.bind]
  rcases wouldExceedMaxConsecutiveDays c existing policy.maxConsecutiveWorkingDays with
    error | consecutive
  · simp
  rcases hhours : (if e.overtimeApproved = true then .ok none
    else wouldExceedContractedHours e c existing) with error | hours
  · cases happroved : e.overtimeApproved <;> simp_all
  · have hboth : (e.overtimeApproved = false → wouldExceedContractedHours e c existing = .ok none) ↔
        hours = none := by
      cases happroved : e.overtimeApproved <;> simp_all
    rw [hboth, hhours]
    dsimp only [pure, Except.pure]
    simp only [Except.ok.injEq, append_eq_nil_iff, filterMap_eq_nil_iff,
      conflictViolation_eq_none, Option.toList_eq_nil_iff, and_assoc]
    by_cases helig : isEligible e c leaveRecords = true
    · simp [helig, hskill helig]
    · by_cases hhas : e.hasSkill c.requiredSkillId c.start.date = true <;> simp [helig, hhas]

/-- **The eligibility check agrees with the solver.** For every employee, candidate and list of
shifts that satisfies the constraints for the employee, in every such input whose maximum of
consecutive days is not below -1 and such that the days it counts have a date, where the contract
hours are not negative and the shifts end after they start: the check finds no violation if and only
if the shifts with the candidate satisfy the constraints. -/
theorem eligibility_iff_satisfies {si : SolveInput} {e : Employee} {c : ShiftSlot}
    {existing : List ShiftSlot} (h : OneMore si e c existing)
    (hmax : -1 ≤ si.policy.maxConsecutiveWorkingDays)
    (hdates : HasDates c si.policy.maxConsecutiveWorkingDays) (hhours : 0 ≤ e.contractHoursPerWeek)
    (hends : ∀ s ∈ existing ++ [c], s.start.instant < s.fin.instant)
    (hexisting : SatisfiesFor si e existing) :
    evaluateAssignmentEligibility e c existing si.leaveRecords si.policy = .ok [] ↔
      SatisfiesFor si e (existing ++ [c]) := by
  have hlocks : si.lockedPairs = [] := by rw [SolveInput.lockedPairs, h.locks, map_nil]
  obtain ⟨hgated, hfree, hdays, hwithin⟩ := (satisfiesFor_iff h.relaxed hlocks).1 hexisting
  have hgate : (∀ s ∈ existing ++ [c], (e.id, s.id) ∈ decisionPairs si) ↔
      isEligible e c si.leaveRecords = true := by
    rw [← mem_decisionPairs_iff hlocks h.employeeIds h.shiftIds h.employee h.candidate_mem]
    constructor
    · exact fun hall => hall c (mem_append_right _ mem_cons_self)
    · intro hc s hs
      rcases mem_append.1 hs with hs | hs
      · exact hgated s hs
      · rwa [mem_singleton.1 hs]
  rw [satisfiesFor_iff h.relaxed hlocks, evaluateAssignmentEligibility_eq_nil, hgate,
    h.conflictFree_iff hends hfree, h.withinDays_iff_check hmax hdates hdays]
  refine and_congr_right fun _ => and_congr_right fun _ => and_congr_right fun _ => ?_
  exact forall_congr' fun happroved =>
    (h.withinHours_iff_check hhours hdates.week hdates.monday (hwithin happroved)).symm

/-- An employee without skills. -/
def worker (contractHours : ℚ) : Employee := ⟨1, contractHours, false, [], ∅, none⟩

/-- Two days and one employee, with these contract hours, shifts and bounds of the policy. -/
def twoDays (contractHours : ℚ) (maxDays : ℤ) (minRestHours : ℚ) (shifts : List ShiftSlot) :
    SolveInput where
  dateRangeStart := 20514
  dateRangeEnd := 20515
  employees := [worker contractHours]
  shifts := shifts
  policy := ⟨maxDays, minRestHours, 0, none, none, none⟩
  leaveRecords := []
  timeLimitSeconds := 30
  fairness := none
  softWeights := ⟨1, 1, 1, 1⟩
  fairnessHistoryCounts := []
  relaxedCategories := ∅
  lockedAssignments := []

/-- A shift on this day, between these seconds of it. -/
def shiftOn (id : UUID) (day first last : ℤ) : ShiftSlot :=
  ⟨id, ⟨day * 86400000000 + first * 1000000, 0⟩, ⟨day * 86400000000 + last * 1000000, 0⟩, 1, none,
    0, none⟩

theorem satisfiesFor_of_solves {si : SolveInput} {e : Employee} {assigned : List ShiftSlot}
    (hgated : ∀ s ∈ assigned, (e.id, s.id) ∈ decisionPairs si)
    (hsolves : Solves ((e.plan assigned).valuation si)
      (addNoConflictConstraints (decisionPairs si) [e] si.shifts si.policy si.relaxedCategories
          si.lockedPairs ++
        addMaxConsecutiveDaysConstraints (decisionPairs si) si.shifts e
          (dateRange si.dateRangeStart si.dateRangeEnd) si.policy.maxConsecutiveWorkingDays
          si.lockedPairs ++
        addContractedHoursConstraints (decisionPairs si) [e] si.shifts si.relaxedCategories
          si.lockedPairs)) : SatisfiesFor si e assigned := by
  obtain ⟨hboth, hhours⟩ := solves_append.1 hsolves
  obtain ⟨hconf, hdays⟩ := solves_append.1 hboth
  refine ⟨_, Plan.realizes_valuation fun p hp => ?_, hconf, fun _ => hdays, hhours⟩
  obtain ⟨s, hs, rfl⟩ := mem_map.1 (of_decide_eq_true hp)
  exact hgated s hs

/-- Four hours on each of two days. -/
theorem twoDays_eligible : SatisfiesFor
    (twoDays 40 6 8 [shiftOn 11 20514 32400 46800, shiftOn 12 20515 32400 46800]) (worker 40)
    [shiftOn 11 20514 32400 46800, shiftOn 12 20515 32400 46800] := by
  refine (@eligibility_iff_satisfies _ _ _ [shiftOn 11 20514 32400 46800]
    ⟨rfl, rfl, by decide, by decide, by decide, by decide, by decide, by decide⟩ (by decide)
    (by constructor <;> decide) (by norm_num [worker]) (by decide)
    (satisfiesFor_of_solves (by decide) (by decide +kernel))).1 ?_
  decide +kernel

/-- The check and the solver differ on whether the employee may have the candidate. -/
def Differs (si : SolveInput) (e : Employee) (c : ShiftSlot) (existing : List ShiftSlot) : Prop :=
  OneMore si e c existing ∧ SatisfiesFor si e existing ∧
    ¬ (evaluateAssignmentEligibility e c existing si.leaveRecords si.policy = .ok [] ↔
      SatisfiesFor si e (existing ++ [c]))

/-- They differ where a bound is negative, a shift runs backwards or a date does not exist: with a
maximum of -2 days, for which the solver counts days in slices that end before they start; with
contract hours below zero, where the solver still allows a shift that rounds to no minutes; for two
shifts that start together, of which one ends before that; and with a maximum of 999999 days, where
the check raises. -/
theorem eligibility_differs :
    Differs (twoDays 40 (-2) 8 [shiftOn 11 20514 32400 46800]) (worker 40)
        (shiftOn 11 20514 32400 46800) [] ∧
      Differs (twoDays (-1) 6 8 [shiftOn 11 20514 32400 32420]) (worker (-1))
        (shiftOn 11 20514 32400 32420) [] ∧
      Differs (twoDays 40 6 0 [shiftOn 11 20514 32400 28800, shiftOn 12 20514 32400 46800])
        (worker 40) (shiftOn 12 20514 32400 46800) [shiftOn 11 20514 32400 28800] ∧
      Differs (twoDays 40 999999 8 [shiftOn 11 20514 32400 46800]) (worker 40)
        (shiftOn 11 20514 32400 46800) [] := by
  refine ⟨⟨?_, ?_, fun hiff => ?_⟩, ⟨?_, ?_, fun hiff => ?_⟩, ⟨?_, ?_, fun hiff => ?_⟩, ?_, ?_,
    fun hiff => ?_⟩
  · exact ⟨rfl, rfl, by decide, by decide, by decide, by decide, by decide, by decide⟩
  · exact satisfiesFor_of_solves (by decide) (by decide +kernel)
  · obtain ⟨-, -, hdays, -⟩ := (satisfiesFor_iff rfl rfl).1 (hiff.1 (by decide +kernel))
    have hle := hdays [20514] (by decide +kernel)
    exact absurd hle (by decide +kernel)
  · exact ⟨rfl, rfl, by decide, by decide, by decide, by decide, by decide, by decide⟩
  · exact satisfiesFor_of_solves (by decide) (by decide +kernel)
  · have hnil := hiff.2 (satisfiesFor_of_solves (by decide +kernel) (by decide +kernel))
    exact absurd hnil (by decide +kernel)
  · exact ⟨rfl, rfl, by decide, by decide, by decide, by decide, by decide, by decide⟩
  · exact satisfiesFor_of_solves (by decide +kernel) (by decide +kernel)
  · have hnil := hiff.2 (satisfiesFor_of_solves (by decide +kernel) (by decide +kernel))
    exact absurd hnil (by decide +kernel)
  · exact ⟨rfl, rfl, by decide, by decide, by decide, by decide, by decide, by decide⟩
  · exact satisfiesFor_of_solves (by decide) (by decide +kernel)
  · have hnil := hiff.2 (satisfiesFor_of_solves (by decide) (by decide +kernel))
    have hraised := (evaluateAssignmentEligibility_eq_nil.1 hnil).2.2.1
    rw [wouldExceedMaxConsecutiveDays_overflow (by decide) (by decide)] at hraised
    cases hraised

end Workforce.Scheduling
