import Workforce.Foundations.LinearModel
import Workforce.Scheduling.Types

/-!
# The constraint model of the solver

`app/solver/model.py`: the checks before a solve, and the variables, constraints and objective that
`solve` hands to the solver. Each `add…` function of the source is the part of the model it adds. A
variable is named by its label in the source, so two are the same when their labels are; with
distinct employee and shift ids every label is created once.

The dictionary `x` of decision variables is the list of its keys (`decisionPairs`). Where the
source groups shifts in a dictionary, only the order of the groups is lost.
-/

namespace Workforce.Scheduling

open Calendar LinearModel

/-! ## Checks before the solve -/

/-- The reason a shift violates the union rules, with the values the message shows. -/
inductive UnionRule
  | belowMinimumLength (durationMinutes : ℚ) (minShiftLengthMinutes : ℤ)
  | exceedsMaximumLength (durationMinutes : ℚ) (maxShiftLengthMinutes : ℤ)
  | breakTooShort (durationHours mandatoryBreakAfterHours : ℚ) (breakMinutes : ℤ)
      (mandatoryBreakMinutes : Option ℤ)
  deriving DecidableEq

inductive SolveError
  | shiftViolatesUnionRules (shiftId : UUID) (reason : UnionRule)
  | unknownLockedAssignment (employeeId shiftId : UUID)
  deriving DecidableEq

/-- The length of a shift is within the bounds of the policy. -/
def validateShiftLength (policy : EmploymentPolicy) (shift : ShiftSlot) :
    Except SolveError Unit := do
  let durationMinutes := shift.durationHours * 60
  if durationMinutes < policy.minShiftLengthMinutes then
    throw (.shiftViolatesUnionRules shift.id
      (.belowMinimumLength durationMinutes policy.minShiftLengthMinutes))
  if let some maxLength := policy.maxShiftLengthMinutes then
    if maxLength < durationMinutes then
      throw (.shiftViolatesUnionRules shift.id (.exceedsMaximumLength durationMinutes maxLength))

/-- A shift that is long enough carries the mandatory break. -/
def validateShiftBreak (policy : EmploymentPolicy) (shift : ShiftSlot) :
    Except SolveError Unit := do
  if let some breakAfter := policy.mandatoryBreakAfterHours then
    if breakAfter < shift.durationHours ∧
        shift.breakMinutes < policy.mandatoryBreakMinutes.getD 0 then
      throw (.shiftViolatesUnionRules shift.id (.breakTooShort shift.durationHours breakAfter
        shift.breakMinutes policy.mandatoryBreakMinutes))

/-- The body of the loop of `_validate_shifts`: only the length bounds can be relaxed. -/
def validateShift (policy : EmploymentPolicy) (relaxed : Finset RelaxationCategory)
    (shift : ShiftSlot) : Except SolveError Unit := do
  if .shiftLengthBounds ∉ relaxed then validateShiftLength policy shift
  validateShiftBreak policy shift

/-- `_validate_shifts`. -/
def validateShifts (shifts : List ShiftSlot) (policy : EmploymentPolicy)
    (relaxed : Finset RelaxationCategory) : Except SolveError Unit :=
  shifts.forM (validateShift policy relaxed)

/-- `_validate_locked_assignments`. -/
def validateLockedAssignments (si : SolveInput) : Except SolveError Unit :=
  si.lockedAssignments.forM fun locked =>
    if locked.employeeId ∉ si.employees.map (·.id) ∨ locked.shiftId ∉ si.shifts.map (·.id) then
      throw (.unknownLockedAssignment locked.employeeId locked.shiftId)
    else pure ()

/-- `_is_eligible`. -/
def isEligible (employee : Employee) (shift : ShiftSlot) (leaveRecords : List LeaveRecord) : Bool :=
  employee.hasSkill shift.requiredSkillId shift.start.date &&
    !leaveRecords.any fun record => record.employeeId = employee.id && record.blocks shift.start

/-! ## Decision variables -/

inductive SolverVar
  | x (employeeId shiftId : UUID)
  | worked (employeeId : UUID) (day : ℤ)
  | overtime (employeeId : UUID) (week : ℤ)
  | skillUsed (employeeId skillId : UUID)

/-- The keys of `x`: a locked pair gets a variable even when the employee is not eligible. -/
def decisionPairs (si : SolveInput) : List (UUID × UUID) :=
  si.shifts.flatMap fun shift =>
    (si.employees.filter fun employee => (employee.id, shift.id) ∈ si.lockedPairs ||
      isEligible employee shift si.leaveRecords).map fun employee => (employee.id, shift.id)

/-- `x[(employee_id, shift_id)]`. -/
def xVar (employeeId shiftId : UUID) : LinExpr SolverVar := .var (.x employeeId shiftId)

/-- The variables of `x`, those of the locked pairs fixed to 1. -/
def decisionModel (si : SolveInput) : CpModel SolverVar where
  vars := (decisionPairs si).map fun pair => boolVar (.x pair.1 pair.2)
  constraints := si.lockedPairs.dedup.map fun pair => ⟨xVar pair.1 pair.2, .eq, (1 : ℤ)⟩

section Builders

variable (x : List (UUID × UUID)) (employees : List Employee) (shifts : List ShiftSlot)

/-- The shifts an employee has a variable for. -/
def candidateShifts (employee : Employee) : List ShiftSlot :=
  shifts.filter fun shift => (employee.id, shift.id) ∈ x

/-- The variables of a shift. -/
def varsForShift (shift : ShiftSlot) : List (LinExpr SolverVar) :=
  (employees.filter fun employee => (employee.id, shift.id) ∈ x).map fun employee =>
    xVar employee.id shift.id

/-- `_add_coverage_constraints`. -/
def addCoverageConstraints : CpModel SolverVar :=
  .ofConstraints <| shifts.map fun shift =>
    ⟨(varsForShift x employees shift).sum, .ge, (shift.requiredHeadcount : ℤ)⟩

/-- `_conflicts`, with the gap in exact hours. -/
def conflicts (shiftA shiftB : ShiftSlot) (minRestHours : ℚ) : Bool :=
  let (earlier, later) := if shiftA.start.instant ≤ shiftB.start.instant then (shiftA, shiftB)
    else (shiftB, shiftA)
  if later.start.instant < earlier.fin.instant then true -- time overlap
  else ((later.start.instant - earlier.fin.instant : ℤ) : ℚ) / microsPerHour < minRestHours

/-- The pairs of a list at two positions, the earlier position first. -/
def orderedPairs {α : Type*} : List α → List (α × α)
  | [] => []
  | a :: l => l.map (a, ·) ++ orderedPairs l

/-- `_add_no_conflict_constraints`. -/
def addNoConflictConstraints (policy : EmploymentPolicy) (relaxed : Finset RelaxationCategory)
    (lockedPairs : List (UUID × UUID)) : CpModel SolverVar :=
  let minRestHours :=
    if .minRestBetweenShifts ∈ relaxed then 0 else policy.minRestHoursBetweenShifts
  .ofConstraints <| employees.flatMap fun employee =>
    ((orderedPairs (candidateShifts x shifts employee)).filter fun (shiftA, shiftB) =>
      !((employee.id, shiftA.id) ∈ lockedPairs && (employee.id, shiftB.id) ∈ lockedPairs) &&
        conflicts shiftA shiftB minRestHours).map fun (shiftA, shiftB) =>
      ⟨xVar employee.id shiftA.id + xVar employee.id shiftB.id, .le, (1 : ℤ)⟩

/-- `_date_range`. -/
def dateRange (start fin : ℤ) : List ℤ :=
  (List.range (fin - start + 1).toNat).map fun (offset : ℕ) => start + offset

/-- `l[start:stop]`; a negative `stop` counts from the end. -/
def slice {α : Type*} (l : List α) (start : ℕ) (stop : ℤ) : List α :=
  (l.take (if stop < 0 then stop + l.length else stop).toNat).drop start

/-- The variable `worked` of a day: 1 exactly when a shift of that day is assigned. -/
def workedModel (employee : Employee) (day : ℤ) : CpModel SolverVar :=
  let worked : LinExpr SolverVar := .var (.worked employee.id day)
  let dayVars :=
    ((candidateShifts x shifts employee).filter fun shift => shift.start.date = day).map
      fun shift => xVar employee.id shift.id
  { vars := [boolVar (.worked employee.id day)]
    constraints :=
      if dayVars = [] then [⟨worked, .eq, (0 : ℤ)⟩]
      else dayVars.map (fun var => ⟨worked, .ge, var⟩) ++ [⟨worked, .le, dayVars.sum⟩] }

/-- `_add_max_consecutive_days_constraints`. -/
def addMaxConsecutiveDaysConstraints (employee : Employee) (allDays : List ℤ)
    (maxConsecutiveDays : ℤ) (lockedPairs : List (UUID × UUID)) : CpModel SolverVar :=
  let lockedDays := (shifts.filter fun shift => (employee.id, shift.id) ∈ lockedPairs).map
    fun shift => shift.start.date
  let windowSize := maxConsecutiveDays + 1
  let windows :=
    if windowSize > allDays.length then []
    else (List.range (allDays.length - windowSize + 1).toNat).map fun (startIdx : ℕ) =>
      slice allDays startIdx (startIdx + windowSize)
  .join (allDays.map (workedModel x shifts employee)) ++
    .ofConstraints (windows.map fun window =>
      let lockedCountInWindow : ℤ := window.countP (· ∈ lockedDays)
      ⟨(window.map fun day => LinExpr.var (.worked employee.id day)).sum, .le,
        (max maxConsecutiveDays lockedCountInWindow : ℤ)⟩)

/-- `round(shift.duration_hours * 60)`. -/
def ShiftSlot.roundedMinutes (shift : ShiftSlot) : ℤ := roundHalfEven (shift.durationHours * 60)

/-- `_week_start` of the start date. -/
def ShiftSlot.week (shift : ShiftSlot) : ℤ := weekStart shift.start.date

/-- The weeks of an employee's candidate shifts, with those shifts. -/
def shiftsByWeek (employee : Employee) : List (ℤ × List ShiftSlot) :=
  let candidates := candidateShifts x shifts employee
  (candidates.map (·.week)).dedup.map fun week => (week, candidates.filter (·.week = week))

/-- The minutes assigned of these shifts. -/
def minutesExpr (employee : Employee) (weekShifts : List ShiftSlot) : LinExpr SolverVar :=
  (weekShifts.map fun shift => shift.roundedMinutes • xVar employee.id shift.id).sum

/-- `cap_minutes_by_employee`. -/
def capMinutesByEmployee (employeeId : UUID) : Option ℚ :=
  (employees.reverse.find? (·.id = employeeId)).map (·.contractHoursPerWeek * 60)

/-- `_add_contracted_hours_constraints`. -/
def addContractedHoursConstraints (relaxed : Finset RelaxationCategory)
    (lockedPairs : List (UUID × UUID)) : CpModel SolverVar :=
  .ofConstraints <| employees.flatMap fun employee =>
    if employee.overtimeApproved ∨ .contractedHours ∈ relaxed then []
    else (shiftsByWeek x shifts employee).map fun (week, weekShifts) =>
      let lockedMinutes := ((shifts.filter fun shift => (employee.id, shift.id) ∈ lockedPairs ∧
        shift.week = week).map (·.roundedMinutes)).sum
      ⟨minutesExpr employee weekShifts, .le,
        (max (roundHalfEven (employee.contractHoursPerWeek * 60)) lockedMinutes : ℤ)⟩

/-- `_add_fairness_constraint`. -/
def addFairnessConstraint (fairness : FairnessConfig) (fairnessHistoryCounts : List (UUID × ℤ)) :
    CpModel SolverVar :=
  let n : ℤ := employees.length
  let undesirableShiftIds := ((shifts.filter fun shift => fairness.isUndesirable shift.start).map
    (·.id)).dedup
  let totalCount (employeeId : UUID) : LinExpr SolverVar :=
    ((fairnessHistoryCounts.lookup employeeId).getD 0 : ℤ) +
      ((undesirableShiftIds.filter fun shiftId => (employeeId, shiftId) ∈ x).map fun shiftId =>
        xVar employeeId shiftId).sum
  let totalExpr := ((employees.map (·.id)).dedup.map totalCount).sum
  let toleranceN : LinExpr SolverVar := (fairness.tolerance * n : ℤ)
  .ofConstraints <|
    if n = 0 ∨ undesirableShiftIds = [] then []
    else employees.flatMap fun employee =>
      [⟨n • totalCount employee.id - totalExpr, .le, toleranceN⟩,
        ⟨totalExpr - n • totalCount employee.id, .le, toleranceN⟩]

/-! ## The objective -/

/-- `_add_overtime_penalty_vars`: the part of the model, and the variables. -/
def addOvertimePenaltyVars : CpModel SolverVar × List (LinExpr SolverVar) :=
  let weeks := (employees.filter (·.overtimeApproved)).flatMap fun employee =>
    (shiftsByWeek x shifts employee).map fun (week, weekShifts) => (employee, week, weekShifts)
  let capMinutes (employee : Employee) :=
    roundHalfEven ((capMinutesByEmployee employees employee.id).getD 0)
  ({ vars := weeks.map fun (employee, week, weekShifts) =>
      ⟨.overtime employee.id week, 0,
        max ((weekShifts.map (·.roundedMinutes)).sum - capMinutes employee) 0⟩
     constraints := weeks.map fun (employee, week, weekShifts) =>
      ⟨.var (.overtime employee.id week), .ge,
        minutesExpr employee weekShifts - (capMinutes employee : ℤ)⟩ },
    weeks.map fun (employee, week, _) => .var (.overtime employee.id week))

/-- `_coverage_excess_terms`. -/
def coverageExcessTerms : List (LinExpr SolverVar) :=
  (shifts.filter fun shift => varsForShift x employees shift ≠ []).map fun shift =>
    (varsForShift x employees shift).sum - (shift.requiredHeadcount : ℤ)

/-- `_cross_skill_balance_vars`: the part of the model, and the variables. -/
def crossSkillBalanceVars : CpModel SolverVar × List (LinExpr SolverVar) :=
  let skillIds := (shifts.filterMap (·.requiredSkillId)).dedup
  let uses := skillIds.flatMap fun skillId =>
    (employees.map fun employee => (employee.id, skillId,
      ((candidateShifts x shifts employee).filter fun shift =>
        shift.requiredSkillId = some skillId).map fun shift => xVar employee.id shift.id)).filter
      fun (_, _, candidateVars) => candidateVars ≠ []
  ({ vars := uses.map fun (employeeId, skillId, _) => boolVar (.skillUsed employeeId skillId)
     constraints := uses.flatMap fun (employeeId, skillId, candidateVars) =>
      candidateVars.map (fun var => ⟨.var (.skillUsed employeeId skillId), .ge, var⟩) ++
        [⟨.var (.skillUsed employeeId skillId), .le, candidateVars.sum⟩] },
    uses.map fun (employeeId, skillId, _) => .var (.skillUsed employeeId skillId))

/-- The objective term of a weight, unless there is nothing to weigh. -/
def weighted (weight : ℤ) (exprs : List (LinExpr SolverVar)) : List (LinExpr SolverVar) :=
  if exprs = [] then [] else [weight • exprs.sum]

/-- `_build_objective_terms`: the part of the model, and the terms. A weight of 0 leaves out its
term with the variables of it. -/
def buildObjectiveTerms (softWeights : SoftWeights) :
    CpModel SolverVar × List (LinExpr SolverVar) :=
  let pairs := employees.flatMap fun employee =>
    (candidateShifts x shifts employee).map fun shift => (employee, shift)
  let preference :=
    (pairs.filter fun (employee, shift) => shift.id ∈ employee.preferredShiftIds).map
      fun (employee, shift) => xVar employee.id shift.id
  let decay := (pairs.filter fun (_, shift) => shift.requiredSkillId.isSome).map
    fun (employee, shift) =>
      roundHalfEven (employee.decayScoreFor shift.requiredSkillId * 1000) •
        xVar employee.id shift.id
  let (overtimeModel, overtimeVars) :=
    if softWeights.overtimeCostWeight = 0 then (.join [], [])
    else addOvertimePenaltyVars x employees shifts
  let excess :=
    if softWeights.overtimeCostWeight = 0 then [] else coverageExcessTerms x employees shifts
  let (balanceModel, usedVars) :=
    if softWeights.crossSkillBalanceWeight = 0 then (.join [], [])
    else crossSkillBalanceVars x employees shifts
  (overtimeModel ++ balanceModel,
    (if softWeights.preferenceWeight = 0 then []
      else weighted softWeights.preferenceWeight preference) ++
    weighted (-softWeights.overtimeCostWeight) (overtimeVars ++ excess) ++
    (if softWeights.skillDecayWeight = 0 then []
      else weighted (-softWeights.skillDecayWeight) decay) ++
    weighted softWeights.crossSkillBalanceWeight usedVars)

end Builders

/-! ## Solving -/

/-- All the variables and constraints `solve` emits. -/
def emittedModel (si : SolveInput) : CpModel SolverVar :=
  let x := decisionPairs si
  decisionModel si ++ addCoverageConstraints x si.employees si.shifts ++
    addNoConflictConstraints x si.employees si.shifts si.policy si.relaxedCategories
      si.lockedPairs ++
    (if .maxConsecutiveWorkingDays ∈ si.relaxedCategories then .join []
      else .join (si.employees.map fun employee =>
        addMaxConsecutiveDaysConstraints x si.shifts employee
          (dateRange si.dateRangeStart si.dateRangeEnd) si.policy.maxConsecutiveWorkingDays
          si.lockedPairs)) ++
    addContractedHoursConstraints x si.employees si.shifts si.relaxedCategories si.lockedPairs ++
    (match si.fairness with
      | none => .join []
      | some fairness =>
        addFairnessConstraint x si.employees si.shifts fairness si.fairnessHistoryCounts) ++
    (buildObjectiveTerms x si.employees si.shifts si.softWeights).1

/-- The terms whose sum is maximised. -/
def objectiveTerms (si : SolveInput) : List (LinExpr SolverVar) :=
  (buildObjectiveTerms (decisionPairs si) si.employees si.shifts si.softWeights).2

/-- The checks that `solve` makes first. -/
def validate (si : SolveInput) : Except SolveError Unit := do
  validateShifts si.shifts si.policy si.relaxedCategories
  validateLockedAssignments si

inductive CpStatus
  | optimal | feasible | infeasible | unknown | modelInvalid
  deriving DecidableEq

/-- `_STATUS_NAMES`. -/
def CpStatus.name : CpStatus → SolveStatus
  | optimal => .optimal
  | feasible => .feasible
  | infeasible => .infeasible
  | unknown => .unknown
  | modelInvalid => .unknown

/-- The pairs a valuation assigns. -/
def assignedPairs (si : SolveInput) (v : SolverVar → ℤ) : List (UUID × UUID) :=
  (decisionPairs si).filter fun pair => v (.x pair.1 pair.2) ≠ 0

/-- `assigned_minutes_by_employee_week`. -/
def assignedMinutes (si : SolveInput) (v : SolverVar → ℤ) (employeeId : UUID) (week : ℤ) : ℚ :=
  (((assignedPairs si v).filter (·.1 = employeeId)).filterMap fun pair =>
    (si.shifts.reverse.find? (·.id = pair.2)).bind fun shift =>
      if shift.week = week then some (shift.durationHours * 60) else none).sum

/-- The assignments of a solution. -/
def assignments (si : SolveInput) (v : SolverVar → ℤ) : List Assignment :=
  (assignedPairs si v).map fun (employeeId, shiftId) =>
    { employeeId, shiftId
      isOvertime := (si.shifts.reverse.find? (·.id = shiftId)).any fun shift =>
        (capMinutesByEmployee si.employees employeeId).any fun cap =>
          cap + 1 / 1000000 < assignedMinutes si v employeeId shift.week }

/-- `solve`, with the solver a parameter: from a model, the objective and the time limit, a status
and a valuation. -/
def solve (cpSolve : CpModel SolverVar → List (LinExpr SolverVar) → ℚ → CpStatus × (SolverVar → ℤ))
    (si : SolveInput) : Except SolveError SolveResult := do
  validate si
  let terms := objectiveTerms si
  let (status, v) := cpSolve (emittedModel si) terms si.timeLimitSeconds
  if status ≠ .optimal ∧ status ≠ .feasible then
    return { status := status.name, assignments := [], objectiveValue := none }
  return { status := status.name, assignments := assignments si v
           objectiveValue := if terms = [] then none else some (terms.sum.eval v) }

end Workforce.Scheduling
