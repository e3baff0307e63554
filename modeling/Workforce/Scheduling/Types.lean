import Mathlib.Data.Finset.Basic
import Mathlib.Data.Rat.Floor
import Workforce.Foundations.Calendar

/-!
# The input of the solver

`app/solver/types.py`. Dates are day numbers. A `datetime` is its wall clock in microseconds with
its offset from UTC. Hours, scores and other floating point inputs are exact rationals, so that
`duration_hours` is the exact length of a shift.
-/

namespace Workforce.Scheduling

open Calendar

abbrev UUID := BitVec 128

-- membership in a list of these is in every module decided in one way
instance : LawfulBEq UUID := inferInstance

instance : LawfulBEq (UUID × UUID) := inferInstance

def microsPerHour : ℤ := 3600000000

/-! ## Dates and times -/

/-- A `datetime` with a fixed offset from UTC. -/
structure DateTime where
  wall : ℤ
  utcOffset : ℤ
  deriving DecidableEq

namespace DateTime

/-- The point in time, by which `datetime`s are compared and subtracted. -/
def instant (t : DateTime) : ℤ := t.wall - t.utcOffset

/-- `date()`: the date on the wall clock. -/
def date (t : DateTime) : ℤ := t.wall / (24 * microsPerHour)

/-- `hour` on the wall clock. -/
def hour (t : DateTime) : ℤ := t.wall % (24 * microsPerHour) / microsPerHour

/-- `weekday()`: Monday is 0. -/
def weekday (t : DateTime) : ℤ := isoDow t.date - 1

end DateTime

/-- `round`: the nearest integer, the even one of two. -/
def roundHalfEven (q : ℚ) : ℤ :=
  if q - ⌊q⌋ < 1 / 2 then ⌊q⌋
  else if 1 / 2 < q - ⌊q⌋ then ⌊q⌋ + 1
  else if ⌊q⌋ % 2 = 0 then ⌊q⌋ else ⌊q⌋ + 1

/-! ## Employees and shifts -/

structure EmployeeSkill where
  skillId : UUID
  expiresAt : Option ℤ
  decayScore : ℚ
  deriving DecidableEq

def EmployeeSkill.covers (s : EmployeeSkill) (asOf : ℤ) : Bool := s.expiresAt.all (asOf ≤ ·)

structure Employee where
  id : UUID
  contractHoursPerWeek : ℚ
  overtimeApproved : Bool
  skills : List EmployeeSkill
  preferredShiftIds : Finset UUID
  orgUnitId : Option UUID
  deriving DecidableEq

/-- `has_skill`. A shift may require no skill. -/
def Employee.hasSkill (e : Employee) (skillId : Option UUID) (asOf : ℤ) : Bool :=
  skillId.all fun id => e.skills.any fun s => s.skillId = id && s.covers asOf

def Employee.decayScoreFor (e : Employee) (skillId : Option UUID) : ℚ :=
  (skillId.bind fun id => (e.skills.find? (·.skillId = id)).map (·.decayScore)).getD 0

structure LeaveRecord where
  employeeId : UUID
  start : ℤ
  /-- The last day of leave. -/
  fin : ℤ

def LeaveRecord.blocks (r : LeaveRecord) (shiftStart : DateTime) : Bool :=
  r.start ≤ shiftStart.date && shiftStart.date ≤ r.fin

structure ShiftSlot where
  id : UUID
  start : DateTime
  fin : DateTime
  requiredHeadcount : ℤ
  requiredSkillId : Option UUID
  breakMinutes : ℤ
  orgUnitId : Option UUID
  deriving DecidableEq

def ShiftSlot.durationHours (s : ShiftSlot) : ℚ :=
  ((s.fin.instant - s.start.instant : ℤ) : ℚ) / microsPerHour

/-! ## Policies -/

inductive RelaxationCategory
  | contractedHours | shiftLengthBounds | minRestBetweenShifts | maxConsecutiveWorkingDays
  deriving DecidableEq

/-- `RELAXATION_ORDER`. -/
def relaxationOrder : List RelaxationCategory :=
  [.contractedHours, .shiftLengthBounds, .minRestBetweenShifts, .maxConsecutiveWorkingDays]

structure EmploymentPolicy where
  maxConsecutiveWorkingDays : ℤ
  minRestHoursBetweenShifts : ℚ
  minShiftLengthMinutes : ℤ
  maxShiftLengthMinutes : Option ℤ
  mandatoryBreakAfterHours : Option ℚ
  mandatoryBreakMinutes : Option ℤ

structure FairnessConfig where
  rollingPeriodWeeks : ℤ
  tolerance : ℤ
  includeWeekends : Bool
  nightStartHour : Option ℤ
  nightEndHour : Option ℤ
  holidayDates : Finset ℤ

/-- `is_undesirable`. -/
def FairnessConfig.isUndesirable (f : FairnessConfig) (shiftStart : DateTime) : Bool :=
  if shiftStart.date ∈ f.holidayDates then true
  else if f.includeWeekends && 5 ≤ shiftStart.weekday then true
  else
    match f.nightStartHour, f.nightEndHour with
    | some nightStart, some nightEnd =>
      if nightStart ≤ nightEnd then nightStart ≤ shiftStart.hour && shiftStart.hour < nightEnd
      else nightStart ≤ shiftStart.hour || shiftStart.hour < nightEnd -- wraps midnight
    | _, _ => false

inductive AssignmentSource
  | autoGenerated | manualOverride | swap | bid | claim
  deriving DecidableEq

structure LockedAssignment where
  employeeId : UUID
  shiftId : UUID
  assignmentSource : AssignmentSource

structure SoftWeights where
  preferenceWeight : ℤ
  overtimeCostWeight : ℤ
  skillDecayWeight : ℤ
  crossSkillBalanceWeight : ℤ

structure SolveInput where
  dateRangeStart : ℤ
  dateRangeEnd : ℤ
  employees : List Employee
  shifts : List ShiftSlot
  policy : EmploymentPolicy
  leaveRecords : List LeaveRecord
  timeLimitSeconds : ℚ
  fairness : Option FairnessConfig
  softWeights : SoftWeights
  /-- A dictionary. -/
  fairnessHistoryCounts : List (UUID × ℤ)
  relaxedCategories : Finset RelaxationCategory
  lockedAssignments : List LockedAssignment

/-- The pairs of employee and shift that are already decided. -/
def SolveInput.lockedPairs (si : SolveInput) : List (UUID × UUID) :=
  si.lockedAssignments.map fun locked => (locked.employeeId, locked.shiftId)

/-! ## Results -/

structure Assignment where
  employeeId : UUID
  shiftId : UUID
  isOvertime : Bool

inductive SolveStatus
  | optimal | feasible | infeasible | unknown
  deriving DecidableEq

/-- The result, but for how long it took. -/
structure SolveResult where
  status : SolveStatus
  assignments : List Assignment
  objectiveValue : Option ℤ

end Workforce.Scheduling
