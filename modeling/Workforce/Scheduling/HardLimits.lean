import Mathlib.Tactic.IntervalCases
import Workforce.Scheduling.Demand

/-!
# The hard limits of a schedule

`app/solver/model.py` builds leave, the maximum of consecutive days and the contract hours into the
model, so that no solution should break them. Each of the three is enforced on a shadow of the
shifts: leave on the day a shift starts, the maximum on the days of the job's range, and the hours
on minutes rounded for each shift. For each, what follows is when the limit itself holds of every
solution, whatever is demanded of the same people and shifts:

* `leaveKept_iff`: when no workable shift runs into a leave.
* `daysKept_iff`: when workable runs of days that are too long come inside the range.
* `hoursKept_iff`: when rounding does not hide minutes of workable shifts.
-/

namespace Workforce.Scheduling

open Calendar LinearModel List

/-- Ids identify employees and shifts. -/
structure SolveInput.DistinctIds (si : SolveInput) : Prop where
  employees : (si.employees.map (·.id)).Nodup
  shifts : (si.shifts.map (·.id)).Nodup

variable {si : SolveInput}

/-- A job of five days at most in a row for one employee with 40 hours, from a Monday. -/
def oneWorkerJob (lastDay : ℤ) (leaveRecords : List LeaveRecord) (shifts : List ShiftSlot) :
    SolveInput where
  dateRangeStart := 20514
  dateRangeEnd := lastDay
  employees := [worker 40]
  shifts := shifts
  policy := ⟨5, 8, 60, none, none, none⟩
  leaveRecords := leaveRecords
  timeLimitSeconds := 30
  fairness := none
  softWeights := ⟨1, 1, 1, 1⟩
  fairnessHistoryCounts := []
  relaxedCategories := ∅
  lockedAssignments := []

/-! ## Leave -/

namespace ShiftSlot

variable (s : ShiftSlot)

/-- The calendar day of an instant, on the clock that the shift starts by. -/
def dateAt (t : ℤ) : ℤ := (DateTime.mk (t + s.start.utcOffset) s.start.utcOffset).date

/-- The instant at which a day begins, on the clock that the shift starts by. -/
def midnight (day : ℤ) : ℤ := day * (24 * microsPerHour) - s.start.utcOffset

theorem le_dateAt_iff {day t : ℤ} : day ≤ s.dateAt t ↔ s.midnight day ≤ t := by
  simp only [dateAt, DateTime.date, midnight, microsPerHour]
  omega

theorem dateAt_start : s.dateAt s.start.instant = s.start.date := by
  simp [dateAt, DateTime.date, DateTime.instant]

/-- Some instant of the shift, its end excluded, is on a day of the leave. -/
def Touches (r : LeaveRecord) : Prop :=
  ∃ t, s.start.instant ≤ t ∧ t < s.fin.instant ∧ r.start ≤ s.dateAt t ∧ s.dateAt t ≤ r.fin

/-- The shift starts after the leave or ends by the midnight at which it begins, unless one of the
two is empty. -/
def ClearOf (r : LeaveRecord) : Prop :=
  s.fin.instant ≤ s.start.instant ∨ r.fin < r.start ∨ r.fin < s.start.date ∨
    s.fin.instant ≤ s.midnight r.start
  deriving Decidable

/-- The first moment at which a shift could be on leave is its start or the midnight at which the
leave begins, whichever is later. -/
theorem touches_iff {r : LeaveRecord} : s.Touches r ↔ ¬ s.ClearOf r := by
  have hdays : ∀ t, s.dateAt t ≤ r.fin ↔ t < s.midnight (r.fin + 1) := fun t => by
    rw [← not_le, ← s.le_dateAt_iff, not_le, Int.lt_add_one_iff]
  have hstart : r.fin < s.start.date ↔ s.midnight (r.fin + 1) ≤ s.start.instant := by
    rw [← s.dateAt_start, ← s.le_dateAt_iff, Int.add_one_le_iff]
  have hmidnights : r.fin < r.start ↔ s.midnight (r.fin + 1) ≤ s.midnight r.start := by
    simp only [midnight, microsPerHour]
    omega
  simp only [Touches, ClearOf, s.le_dateAt_iff, hdays, hstart, hmidnights, not_or, not_le]
  constructor
  · rintro ⟨t, hfirst, hlast, hbegun, hover⟩
    omega
  · rintro ⟨hshift, hleave, hbegun, hover⟩
    refine ⟨max s.start.instant (s.midnight r.start), le_max_left _ _, ?_, le_max_right _ _, ?_⟩
    · exact max_lt hshift hover
    · exact max_lt hbegun hleave

end ShiftSlot

/-- No instant of a shift that is assigned without a lock is on leave of its employee. -/
def LeaveKept (si : SolveInput) (v : SolverVar → ℤ) : Prop :=
  ∀ e ∈ si.employees, ∀ s ∈ si.shifts, (e.id, s.id) ∈ assignedPairs si v →
    (e.id, s.id) ∉ si.lockedPairs → ∀ r ∈ si.leaveRecords, r.employeeId = e.id → ¬ s.Touches r

/-- No workable shift runs into a leave of the employee. -/
def ClearOfLeave (si : SolveInput) : Prop :=
  ∀ e ∈ si.employees, ∀ s ∈ si.shifts, Workable si e [s] →
    ∀ r ∈ si.leaveRecords, r.employeeId = e.id → s.ClearOf r

/-- **When leave is never worked.** For every input, the solutions of the emitted constraints keep
leave free under every demand, with any locks and whatever is relaxed, exactly when each shift that
an employee may be given starts after each leave of the employee or ends before it begins. -/
theorem leaveKept_iff (si : SolveInput) :
    (∀ d v, Solves v (emittedModel (si.withDemand d)) → LeaveKept (si.withDemand d) v) ↔
      ClearOfLeave si := by
  constructor
  · intro hkept e he s hs hwork r hr hid
    obtain ⟨v, hsol, hplan⟩ := exists_solves_of_workable hwork
      relaxationOrder.toFinset (by decide) (fun h => absurd (by decide) h)
      (fun h => absurd (by decide) h)
    have hassigned : (e.id, s.id) ∈
        assignedPairs (si.withDemand (.nothing relaxationOrder.toFinset)) v := by
      rw [← planOf_eq_true, hplan]
      exact Employee.plan_eq_true_iff.2 ⟨s, mem_singleton_self s, rfl⟩
    have htouches := hkept _ v hsol e he (s.withHeadcount fun _ => 0) (mem_map_of_mem hs)
      hassigned not_mem_nil r hr hid
    by_contra hclear
    exact htouches (s.touches_iff.2 hclear)
  · intro hclear d v hsol e he s hs hassigned hfree r hr hid htouches
    obtain ⟨s', hs', rfl⟩ := mem_map.1 hs
    have hwork : Workable si e [s'] := workable_of_solves hsol he fun t ht => by
      rw [mem_singleton.1 ht]
      exact ⟨hassigned, hfree⟩
    exact s'.touches_iff.1 htouches (hclear e he s' hs' hwork r hr hid)

/-- A night shift from Monday to Tuesday, for an employee on leave on Tuesday. -/
def nightBeforeLeave : SolveInput :=
  oneWorkerJob 20515 [⟨1, 20515, 20515⟩] [shiftOn 11 20514 79200 108000]

theorem nightBeforeLeave_worked : validate nightBeforeLeave = .ok () ∧
    ∃ v, Solves v (emittedModel nightBeforeLeave) ∧ ¬ LeaveKept nightBeforeLeave v := by
  refine ⟨by decide +kernel, ((worker 40).plan nightBeforeLeave.shifts).valuation nightBeforeLeave,
    by decide +kernel, fun hkept => ?_⟩
  refine hkept _ mem_cons_self _ mem_cons_self (by decide +kernel) not_mem_nil _
    mem_cons_self rfl ((ShiftSlot.touches_iff _).2 (by decide))

/-! ## Consecutive days -/

/-- The checks of the request schemas. -/
structure Admitted (si : SolveInput) : Prop where
  dateRange : si.dateRangeStart ≤ si.dateRangeEnd
  roster : ∀ e ∈ si.employees, 0 < e.contractHoursPerWeek ∧
    ∀ skill ∈ e.skills, 0 ≤ skill.decayScore ∧ skill.decayScore ≤ 1
  shiftSlots : ∀ s ∈ si.shifts,
    s.start.instant < s.fin.instant ∧ 0 ≤ s.requiredHeadcount ∧ 0 ≤ s.breakMinutes
  leaveRecords : ∀ r ∈ si.leaveRecords, r.start ≤ r.fin
  maxConsecutiveWorkingDays : 0 < si.policy.maxConsecutiveWorkingDays
  minRest : 0 ≤ si.policy.minRestHoursBetweenShifts
  shiftLength : 0 < si.policy.minShiftLengthMinutes ∧
    ∀ maxLength, si.policy.maxShiftLengthMinutes = some maxLength → 0 < maxLength
  mandatoryBreak : (∀ hours, si.policy.mandatoryBreakAfterHours = some hours → 0 < hours) ∧
    ∀ minutes, si.policy.mandatoryBreakMinutes = some minutes → 0 ≤ minutes
  softWeights : 0 ≤ si.softWeights.preferenceWeight ∧ 0 ≤ si.softWeights.overtimeCostWeight ∧
    0 ≤ si.softWeights.skillDecayWeight ∧ 0 ≤ si.softWeights.crossSkillBalanceWeight
  fairness : ∀ fairness, si.fairness = some fairness →
    0 < fairness.rollingPeriodWeeks ∧ 0 ≤ fairness.tolerance ∧
      (∀ hour, fairness.nightStartHour = some hour → 0 ≤ hour ∧ hour ≤ 23) ∧
      ∀ hour, fairness.nightEndHour = some hour → 0 ≤ hour ∧ hour ≤ 23

theorem Admitted.nothing (h : Admitted si) (relaxed : Finset RelaxationCategory) :
    Admitted (si.withDemand (.nothing relaxed)) where
  dateRange := h.dateRange
  roster := h.roster
  shiftSlots := by
    intro s hs
    obtain ⟨s', hs', rfl⟩ := mem_map.1 hs
    exact ⟨(h.shiftSlots s' hs').1, le_refl 0, (h.shiftSlots s' hs').2.2⟩
  leaveRecords := h.leaveRecords
  maxConsecutiveWorkingDays := h.maxConsecutiveWorkingDays
  minRest := h.minRest
  shiftLength := h.shiftLength
  mandatoryBreak := h.mandatoryBreak
  softWeights := ⟨le_refl 0, le_refl 0, le_refl 0, le_refl 0⟩
  fairness _ hfair := by cases hfair

/-- Nobody has shifts that start on one more consecutive date than the maximum. -/
def DaysKept (si : SolveInput) (v : SolverVar → ℤ) : Prop :=
  ∀ e ∈ si.employees, ∀ first, ¬ FullWindow ((planOf si v).worksOn si.shifts e.id) first
    si.policy.maxConsecutiveWorkingDays

/-- Where workable shifts start on more consecutive dates than the maximum, they do so inside the
range. -/
def LongRunsInside (si : SolveInput) : Prop :=
  ∀ e ∈ si.employees, ∀ chosen, Workable si e chosen → ∀ first,
    FullWindow ((e.plan chosen).worksOn si.shifts e.id) first si.policy.maxConsecutiveWorkingDays →
    ∃ inside, si.dateRangeStart ≤ inside ∧
      inside + si.policy.maxConsecutiveWorkingDays ≤ si.dateRangeEnd ∧
      FullWindow ((e.plan chosen).worksOn si.shifts e.id) inside si.policy.maxConsecutiveWorkingDays

/-- **When the maximum of consecutive days holds.** For every input that the API admits: the
solutions of the emitted constraints keep the maximum under every demand without locks that does not
relax it, exactly when workable shifts that break it anywhere break it inside the range of the
job. -/
theorem daysKept_iff {si : SolveInput} (h : Admitted si) :
    (∀ d : Demand, d.lockedAssignments = [] → .maxConsecutiveWorkingDays ∉ d.relaxedCategories →
      Admitted (si.withDemand d) → ∀ v, Solves v (emittedModel (si.withDemand d)) →
        DaysKept (si.withDemand d) v) ↔ LongRunsInside si := by
  have hmax : -1 ≤ si.policy.maxConsecutiveWorkingDays := by
    have := h.maxConsecutiveWorkingDays
    omega
  constructor
  · intro hkept e he chosen hwork first hfull
    by_contra hinside
    obtain ⟨v, hsol, hplan⟩ := exists_solves_of_workable hwork
      {.minRestBetweenShifts, .contractedHours} (by decide)
      (fun _ => (withinDays_iff h.dateRange hmax).2 fun _ inside hfirst hlast hfull =>
        hinside ⟨inside, hfirst, hlast, hfull⟩)
      (fun hrelaxed => absurd (by decide) hrelaxed)
    refine hkept _ rfl (by decide) (h.nothing _) v hsol e he first ?_
    rw [hplan, SolveInput.withDemand, (keepsTimes_withHeadcount _).worksOn_map]
    exact hfull
  · intro hinside d hlocks hrelaxed _ v hsol e he first hfull
    obtain ⟨chosen, hwork, hplan⟩ := exists_workable_of_solves hsol he hlocks
    have hparts := solves_emittedModel_iff.1 hsol
    have hdays := ((realizes_planOf hparts.1).solves_maxConsecutiveDays.1
      (hparts.2.2.2.1 hrelaxed e he)).2
    rw [si.lockedPairs_withDemand hlocks] at hdays
    have hnone := (withinDays_iff h.dateRange hmax).1 hdays h.maxConsecutiveWorkingDays.le
    have hworks : (planOf (si.withDemand d) v).worksOn (si.withDemand d).shifts e.id =
        (e.plan chosen).worksOn si.shifts e.id :=
      ((keepsTimes_withHeadcount _).worksOn_map _ _ _).trans (Plan.worksOn_congr hplan).symm
    rw [hworks] at hfull hnone
    obtain ⟨inside, hfirst, hlast, hrun⟩ := hinside e he chosen hwork first hfull
    exact hnone inside hfirst hlast hrun

/-- It is enough that all shifts start inside the range. -/
theorem longRunsInside_of_dates (hmax : 0 ≤ si.policy.maxConsecutiveWorkingDays)
    (hdates : ∀ s ∈ si.shifts,
      si.dateRangeStart ≤ s.start.date ∧ s.start.date ≤ si.dateRangeEnd) : LongRunsInside si := by
  intro e _ chosen _ first hfull
  have hday : ∀ day, first ≤ day → day ≤ first + si.policy.maxConsecutiveWorkingDays →
      si.dateRangeStart ≤ day ∧ day ≤ si.dateRangeEnd := by
    intro day hfirst hlast
    obtain ⟨s, hs, hboth⟩ := any_eq_true.1 (hfull day hfirst hlast)
    rw [← of_decide_eq_true (Bool.and_eq_true_iff.1 hboth).1]
    exact hdates s hs
  exact ⟨first, (hday first le_rfl (by omega)).1, (hday _ (by omega) le_rfl).2, hfull⟩

/-- Four hours on each of six days in a row, the last of them after `lastDay` or not. -/
def sixDays (lastDay : ℤ) : SolveInput :=
  oneWorkerJob lastDay [] ([20514, 20515, 20516, 20517, 20518, 20519].map fun day =>
    shiftOn (BitVec.ofInt 128 day) day 32400 46800)

theorem sixDays_admitted (lastDay : ℤ) (h : 20514 ≤ lastDay) : Admitted (sixDays lastDay) where
  dateRange := h
  roster := by
    intro e he
    rw [mem_singleton.1 he]
    exact ⟨by norm_num [worker], fun _ hskill => by cases hskill⟩
  shiftSlots :=
    (by decide : ∀ s ∈ (sixDays 20519).shifts,
      s.start.instant < s.fin.instant ∧ 0 ≤ s.requiredHeadcount ∧ 0 ≤ s.breakMinutes)
  leaveRecords _ hr := by cases hr
  maxConsecutiveWorkingDays := (by decide : (0 : ℤ) < 5)
  minRest := by norm_num [sixDays, oneWorkerJob]
  shiftLength := ⟨(by decide : (0 : ℤ) < 60), fun _ hlength => by cases hlength⟩
  mandatoryBreak := ⟨fun _ hhours => (by cases hhours), fun _ hminutes => by cases hminutes⟩
  softWeights := ⟨zero_le_one, zero_le_one, zero_le_one, zero_le_one⟩
  fairness _ hfair := by cases hfair

/-- With the six days inside the range, five of them can be worked, and five at most. -/
theorem sixDays_kept : ∃ v, Solves v (emittedModel ((sixDays 20519).withDemand (.nothing ∅))) ∧
    (assignedPairs ((sixDays 20519).withDemand (.nothing ∅)) v).length = 5 ∧
    DaysKept ((sixDays 20519).withDemand (.nothing ∅)) v := by
  have hsol : Solves (((worker 40).plan ((sixDays 20519).shifts.take 5)).valuation (sixDays 20519))
      (emittedModel ((sixDays 20519).withDemand (.nothing ∅))) := by decide +kernel
  have hadmitted := sixDays_admitted 20519 (by decide)
  exact ⟨_, hsol, by decide +kernel, (daysKept_iff hadmitted).2
    (longRunsInside_of_dates (by decide) (by decide)) _ rfl (by decide) (hadmitted.nothing _) _
    hsol⟩

/-- With a range of five days, one employee works six days in a row. -/
theorem sixDays_worked : Admitted (sixDays 20518) ∧ validate (sixDays 20518) = .ok () ∧
    ∃ v, Solves v (emittedModel (sixDays 20518)) ∧ ¬ DaysKept (sixDays 20518) v := by
  refine ⟨sixDays_admitted 20518 (by decide), by decide +kernel,
    ((worker 40).plan (sixDays 20518).shifts).valuation (sixDays 20518), by decide +kernel,
    fun hkept => ?_⟩
  refine hkept _ mem_cons_self 20514 fun day hfirst hlast => ?_
  have hlast : day ≤ 20519 := hlast
  interval_cases day <;> decide +kernel

/-! ## Contract hours -/

/-- The minutes an employee works in a week, not rounded. -/
def Plan.exactMinutes (a : Plan) (shifts : List ShiftSlot) (employeeId : UUID) (week : ℤ) : ℚ :=
  ((shifts.filter fun s => a (employeeId, s.id) && s.week = week).map
    fun s => s.durationHours * 60).sum

theorem Plan.exactMinutes_congr {a b : Plan} {shifts : List ShiftSlot} {employeeId : UUID}
    (h : ∀ s ∈ shifts, a (employeeId, s.id) = b (employeeId, s.id)) :
    a.exactMinutes shifts employeeId = b.exactMinutes shifts employeeId := by
  funext week
  rw [exactMinutes, exactMinutes, filter_congr fun s hs => by rw [h s hs]]

theorem KeepsTimes.exactMinutes_map {f : ShiftSlot → ShiftSlot} (h : KeepsTimes f) (a : Plan)
    (shifts : List ShiftSlot) (employeeId : UUID) :
    a.exactMinutes (shifts.map f) employeeId = a.exactMinutes shifts employeeId := by
  funext week
  simp only [Plan.exactMinutes, filter_map, map_map, Function.comp_def, h.id, h.week_eq,
    h.durationHours_eq]

section Flags

variable {si : SolveInput} {v : SolverVar → ℤ}

theorem find_reverse_eq_some {α : Type*} {l : List α} {id : α → UUID} (hl : (l.map id).Nodup)
    {x : α} (hx : x ∈ l) : l.reverse.find? (fun y => id y = id x) = some x := by
  have hsome : (l.reverse.find? fun y => id y = id x).isSome = true :=
    find?_isSome.2 ⟨x, mem_reverse.2 hx, by simp⟩
  obtain ⟨y, hy⟩ := Option.isSome_iff_exists.1 hsome
  have hid : id y = id x := by simpa using find?_some hy
  rw [hy, inj_on_of_nodup_map hl (mem_reverse.1 (mem_of_find?_eq_some hy)) hx hid]

theorem nodup_decisionPairs (h : si.DistinctIds) : (decisionPairs si).Nodup := by
  refine nodup_flatMap.2 ⟨fun s _ => ?_, ?_⟩
  · refine Nodup.map_on ?_ ((Nodup.of_map _ h.employees).filter _)
    intro e he e' he' heq
    exact inj_on_of_nodup_map h.employees (mem_filter.1 he).1 (mem_filter.1 he').1
      (Prod.mk.inj heq).1
  · refine (pairwise_map.1 h.shifts).imp fun hne p hp hp' => ?_
    obtain ⟨_, -, rfl⟩ := mem_map.1 hp
    obtain ⟨_, -, heq⟩ := mem_map.1 hp'
    exact hne (Prod.mk.inj heq).2.symm

theorem assignedPairs_perm (h : si.DistinctIds) (employeeId : UUID) :
    ((assignedPairs si v).filter (·.1 = employeeId)).Perm
      ((si.shifts.filter fun s => planOf si v (employeeId, s.id)).map
        fun s => (employeeId, s.id)) := by
  have hnodup : ((si.shifts.filter fun s => planOf si v (employeeId, s.id)).map
      fun s => (employeeId, s.id)).Nodup := by
    refine Nodup.map_on ?_ ((Nodup.of_map _ h.shifts).filter _)
    intro s hs s' hs' heq
    exact inj_on_of_nodup_map h.shifts (mem_filter.1 hs).1 (mem_filter.1 hs').1 (Prod.mk.inj heq).2
  refine (perm_ext_iff_of_nodup (((nodup_decisionPairs h).filter _).filter _) hnodup).2 fun p => ?_
  constructor
  · intro hp
    obtain ⟨ha, hid⟩ := mem_filter.1 hp
    obtain ⟨s, hs, e, -, -, rfl⟩ := mem_decisionPairs.1 (mem_assignedPairs.1 ha).1
    obtain rfl : e.id = employeeId := of_decide_eq_true hid
    exact mem_map.2 ⟨s, mem_filter.2 ⟨hs, planOf_eq_true.2 ha⟩, rfl⟩
  · intro hp
    obtain ⟨s, hs, rfl⟩ := mem_map.1 hp
    exact mem_filter.2 ⟨planOf_eq_true.1 (mem_filter.1 hs).2, by simp⟩

theorem filterMap_ite_some {α β : Type*} (l : List α) (p : α → Prop) [DecidablePred p]
    (f : α → β) :
    l.filterMap (fun x => if p x then some (f x) else none) = (l.filter p).map f := by
  induction l with
  | nil => rfl
  | cons x l ih =>
    by_cases hx : p x
    · simp [hx, ih]
    · simp [hx, ih]

theorem assignedMinutes_eq (h : si.DistinctIds) (employeeId : UUID) (week : ℤ) :
    assignedMinutes si v employeeId week =
      (planOf si v).exactMinutes si.shifts employeeId week := by
  rw [assignedMinutes, ((assignedPairs_perm h employeeId).filterMap _).sum_eq, filterMap_map]
  have hfound : (si.shifts.filter fun s => planOf si v (employeeId, s.id)).filterMap
      ((fun pair : UUID × UUID => (si.shifts.reverse.find? (·.id = pair.2)).bind fun shift =>
        if shift.week = week then some (shift.durationHours * 60) else none) ∘
          fun s => (employeeId, s.id)) =
      (si.shifts.filter fun s => planOf si v (employeeId, s.id)).filterMap fun s =>
        if s.week = week then some (s.durationHours * 60) else none := by
    refine filterMap_congr fun s hs => ?_
    rw [Function.comp_apply, find_reverse_eq_some h.shifts (mem_filter.1 hs).1]
    rfl
  rw [hfound, filterMap_ite_some, filter_filter, Plan.exactMinutes]
  simp only [Bool.and_comm]

/-- Nobody who stays within the contract hours is flagged. -/
theorem isOvertime_eq_false (h : si.DistinctIds) {e : Employee} (he : e ∈ si.employees)
    (hle : ∀ week, (planOf si v).exactMinutes si.shifts e.id week ≤ e.contractHoursPerWeek * 60)
    {assignment : Assignment} (hassignment : assignment ∈ assignments si v)
    (hid : assignment.employeeId = e.id) : assignment.isOvertime = false := by
  obtain ⟨⟨employeeId, shiftId⟩, -, rfl⟩ := mem_map.1 hassignment
  obtain rfl : employeeId = e.id := hid
  have hcap : capMinutesByEmployee si.employees e.id = some (e.contractHoursPerWeek * 60) := by
    rw [capMinutesByEmployee, find_reverse_eq_some h.employees he]
    rfl
  rw [Bool.eq_false_iff]
  simp only [hcap, Option.any_some, assignedMinutes_eq h, ne_eq, Option.any_eq_true,
    decide_eq_true_eq, not_exists, not_and, not_lt]
  intro shift _
  linarith [hle shift.week]

end Flags

/-- Nobody without approval works more than the contract hours of a week, nor is flagged. -/
def HoursKept (si : SolveInput) (v : SolverVar → ℤ) : Prop :=
  ∀ e ∈ si.employees, e.overtimeApproved = false →
    (∀ week, (planOf si v).exactMinutes si.shifts e.id week ≤ e.contractHoursPerWeek * 60) ∧
    (si.DistinctIds → ∀ assignment ∈ assignments si v, assignment.employeeId = e.id →
      assignment.isOvertime = false)

/-- Workable shifts that are within the contract hours when they are rounded are within them as they
are. -/
def RoundingHidesNothing (si : SolveInput) : Prop :=
  ∀ e ∈ si.employees, e.overtimeApproved = false → ∀ chosen, Workable si e chosen →
    (∀ e' ∈ si.employees, e'.id = e.id → e'.overtimeApproved = false →
      (e.plan chosen).WithinHours si.shifts [] e') →
    ∀ week, (e.plan chosen).exactMinutes si.shifts e.id week ≤ e.contractHoursPerWeek * 60

/-- **When the contract hours are a hard cap.** For every input: the solutions of the emitted
constraints keep the exact minutes of every week within the contract hours of employees without
approval, and flag none of them, under every demand without locks that does not relax the hours,
exactly when no workable shifts exceed the contract hours by less than rounding hides. -/
theorem hoursKept_iff (si : SolveInput) :
    (∀ d : Demand, d.lockedAssignments = [] → .contractedHours ∉ d.relaxedCategories →
      ∀ v, Solves v (emittedModel (si.withDemand d)) → HoursKept (si.withDemand d) v) ↔
      RoundingHidesNothing si := by
  constructor
  · intro hkept e he hnot chosen hwork hhours week
    obtain ⟨v, hsol, hplan⟩ := exists_solves_of_workable hwork
      {.minRestBetweenShifts, .maxConsecutiveWorkingDays} (by decide)
      (fun hrelaxed => absurd (by decide) hrelaxed) (fun _ => hhours)
    have hle := (hkept _ rfl (by decide) v hsol e he hnot).1 week
    rwa [hplan, SolveInput.withDemand, (keepsTimes_withHeadcount _).exactMinutes_map] at hle
  · intro hrounding d hlocks hrelaxed v hsol e he hnot
    obtain ⟨chosen, hwork, hplan⟩ := exists_workable_of_solves hsol he hlocks
    have hparts := solves_emittedModel_iff.1 hsol
    have hminutes : (planOf (si.withDemand d) v).minutes (si.withDemand d).shifts e.id =
        (e.plan chosen).minutes si.shifts e.id :=
      ((keepsTimes_withHeadcount _).minutes_map _ _ _).trans (Plan.minutes_congr hplan).symm
    have hexact : (planOf (si.withDemand d) v).exactMinutes (si.withDemand d).shifts e.id =
        (e.plan chosen).exactMinutes si.shifts e.id :=
      ((keepsTimes_withHeadcount _).exactMinutes_map _ _ _).trans
        (Plan.exactMinutes_congr hplan).symm
    have hwithin : ∀ e' ∈ si.employees, e'.id = e.id → e'.overtimeApproved = false →
        (e.plan chosen).WithinHours si.shifts [] e' := by
      intro e' he' hid hnot' week
      have hle := (realizes_planOf hparts.1).solves_hours.1 hparts.2.2.2.2.1 e' he'
        (not_or.2 ⟨by simp [hnot'], hrelaxed⟩) week
      rw [hid, hminutes, si.lockedPairs_withDemand hlocks, Plan.minutes_ofPairs_nil] at hle
      rwa [hid, Plan.minutes_ofPairs_nil]
    have hle := hrounding e he hnot chosen hwork hwithin
    refine ⟨fun week => ?_, fun hids assignment hassignment hid => ?_⟩
    · rw [hexact]
      exact hle week
    · refine isOvertime_eq_false hids he (fun week => ?_) hassignment hid
      rw [hexact]
      exact hle week

/-- Five shifts of eight hours and 25 seconds. -/
def longFiveDays : SolveInput :=
  oneWorkerJob 20518 [] ([20514, 20515, 20516, 20517, 20518].map fun day =>
    shiftOn (BitVec.ofInt 128 day) day 32400 61225)

/-- All five are assigned, each of them flagged as overtime. -/
theorem longFiveDays_worked : validate longFiveDays = .ok () ∧ longFiveDays.DistinctIds ∧
    ∃ v, Solves v (emittedModel longFiveDays) ∧ ¬ HoursKept longFiveDays v ∧
      2400 < (planOf longFiveDays v).exactMinutes longFiveDays.shifts 1 20514 ∧
      ∀ assignment ∈ assignments longFiveDays v, assignment.isOvertime = true := by
  have hminutes : 2400 < (planOf longFiveDays (((worker 40).plan longFiveDays.shifts).valuation
      longFiveDays)).exactMinutes longFiveDays.shifts 1 20514 := by decide +kernel
  refine ⟨by decide +kernel, ⟨by decide, by decide⟩,
    ((worker 40).plan longFiveDays.shifts).valuation longFiveDays, by decide +kernel,
    fun hkept => ?_, hminutes, by decide +kernel⟩
  have hle := (hkept _ mem_cons_self rfl).1 20514
  have hcap : (worker 40).contractHoursPerWeek * 60 = 2400 := by norm_num [worker]
  rw [hcap] at hle
  exact absurd hminutes (not_lt.2 hle)

end Workforce.Scheduling
