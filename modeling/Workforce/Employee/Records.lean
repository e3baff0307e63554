import Workforce.Org.History

/-!
# Employees

The table `employees` of a tenant with the trigger that keeps `employee_history`, and the service
that creates, updates and transfers employees. The live row changes at once; a version of it is
opened when the org unit, the manager, the status or the cost centre changes, with effect from the
date that the caller gives, or from now on.

Of an employee the model has the columns that the history stores, and the dates that the table
checks. Hours are hundredths of an hour.
-/

namespace Workforce.Employees

open Runs Tables Versions

/-! ## The tables -/

inductive EmploymentType
  | fullTime | partTime | contractor | seasonal
  deriving DecidableEq

inductive EmployeeStatus
  | active | onLeave | terminated | pendingOnboarding
  deriving DecidableEq

/-- The columns that a version stores. -/
structure EmployeeColumns where
  orgUnitId : ℕ
  employeeNumber : String
  employmentType : EmploymentType
  contractHoursPerWeek : ℕ
  costCenter : Option String
  managerEmployeeId : Option ℕ
  status : EmployeeStatus
  deriving DecidableEq

/-- The columns of which a change is a version. -/
structure TrackedColumns where
  orgUnitId : ℕ
  managerEmployeeId : Option ℕ
  status : EmployeeStatus
  costCenter : Option String
  deriving DecidableEq

def EmployeeColumns.tracked (c : EmployeeColumns) : TrackedColumns :=
  ⟨c.orgUnitId, c.managerEmployeeId, c.status, c.costCenter⟩

structure Employee where
  id : ℕ
  columns : EmployeeColumns
  /-- Dates are days. -/
  hireDate : ℤ
  terminationDate : Option ℤ
  createdAt : ℤ
  deriving DecidableEq

/-- A version of an employee, which has the id of the employee as its key. -/
abbrev EmployeeHistory := Version ℕ EmployeeColumns

inductive EmployeeError
  | systemLimitExceeded (limit : ℕ)
  | orgUnitNotFound (id : ℕ)
  | employeeNotFound (id : ℕ)
  /-- The primary key. -/
  | duplicateId
  /-- `uq_employees_tenant_id_employee_number`. -/
  | duplicateEmployeeNumber
  /-- `employees_not_self_manager`. -/
  | selfManager
  /-- `employees_termination_after_hire`. -/
  | terminationBeforeHire
  /-- `employee_history_valid_range`. -/
  | validRange

/-- The organisation, the employees, and the versions the triggers write. -/
structure State where
  org : Org.State
  employees : List Employee
  history : List EmployeeHistory

namespace State

def init : State := ⟨Org.State.init, [], []⟩

variable (s : State)

def findById (id : ℕ) : Option Employee := lookup (·.id) id s.employees

/-- `findVersionAsOf` of the history. -/
def findVersionAsOf (employeeId : ℕ) (asOf : ℤ) : Option EmployeeHistory :=
  Versions.asOf s.history employeeId asOf

/-- The day of now, in UTC; instants are milliseconds. -/
def today : ℤ := s.org.clock / 86400000

/-- `findById` of the service, which throws. -/
def requireEmployee (id : ℕ) : Except EmployeeError Employee :=
  match s.findById id with
  | none => .error (.employeeNotFound id)
  | some employee => .ok employee

def requireOrgUnit (id : ℕ) : Except EmployeeError Unit :=
  if (s.org.findById id).isSome then .ok () else .error (.orgUnitNotFound id)

def requireManager : Option ℕ → Except EmployeeError Unit
  | none => .ok ()
  | some id => do
    let _ ← s.requireEmployee id
    .ok ()

/-! ## The statements -/

/-- The update branch of `fn_employee_history_track`. -/
def historyTrack (effectiveAt : ℤ) (old new : Employee) : Except EmployeeError State :=
  if new.columns.tracked ≠ old.columns.tracked then
    match supersede s.history new.id effectiveAt new.columns with
    | none => .error .validRange
    | some history => .ok { s with history := history }
  else .ok s

/-- The checks of a row. -/
def checkRow (new : Employee) : Except EmployeeError Unit :=
  if new.columns.managerEmployeeId = some new.id then .error .selfManager
  else if new.terminationDate.any fun d => d < new.hireDate then .error .terminationBeforeHire
  else .ok ()

/-- The `INSERT`, with the constraints of the table and the trigger. -/
def insertRow (new : Employee) : Except EmployeeError State := do
  checkRow new
  if new.id ∈ s.employees.map (·.id) then .error .duplicateId
  else if new.columns.employeeNumber ∈ s.employees.map (·.columns.employeeNumber) then
    .error .duplicateEmployeeNumber
  else
    .ok { s with
      employees := s.employees ++ [new]
      history := s.history ++ [⟨new.id, new.createdAt, none, new.columns⟩] }

/-- `updateWithOutboxEvent` on the row `old`. -/
def updateRow (old new : Employee) (effectiveAt : Option ℤ) : Except EmployeeError State := do
  checkRow new
  historyTrack { s with employees := modify (·.id) old.id (fun _ => new) s.employees }
    (effectiveAt.getD s.org.clock) old new

end State

/-! ## The service -/

structure CreateEmployeeInput where
  orgUnitId : ℕ
  employeeNumber : String
  employmentType : EmploymentType
  contractHoursPerWeek : ℕ
  hireDate : ℤ
  costCenter : Option String
  managerEmployeeId : Option ℕ

/-- A field that is absent is left as it is. -/
structure UpdateEmployeeInput where
  employmentType : Option EmploymentType
  contractHoursPerWeek : Option ℕ
  costCenter : Option (Option String)
  status : Option EmployeeStatus
  terminationDate : Option ℤ
  effectiveDate : Option ℤ

/-- What an update sets in a row. A termination without a date is one of today. -/
def UpdateEmployeeInput.apply (input : UpdateEmployeeInput) (today : ℤ) (old : Employee) :
    Employee :=
  { old with
    columns :=
      { old.columns with
        employmentType := input.employmentType.getD old.columns.employmentType
        contractHoursPerWeek := input.contractHoursPerWeek.getD old.columns.contractHoursPerWeek
        costCenter := input.costCenter.getD old.columns.costCenter
        status := input.status.getD old.columns.status }
    terminationDate :=
      if input.status = some .terminated then some (input.terminationDate.getD today)
      else input.terminationDate.or old.terminationDate }

structure TransferInput where
  newOrgUnitId : ℕ
  /-- The manager stays when it is absent. -/
  newManagerEmployeeId : Option (Option ℕ)
  effectiveDate : Option ℤ

/-- The row that a transfer saves. -/
def TransferInput.apply (input : TransferInput) (old : Employee) : Employee :=
  { old with
    columns :=
      { old.columns with
        orgUnitId := input.newOrgUnitId
        managerEmployeeId := input.newManagerEmployeeId.getD old.columns.managerEmployeeId } }

namespace State

variable (s : State)

/-- `assertWithinLimit` for `maxEmployees`. -/
def assertWithinLimit : Option ℕ → Except EmployeeError Unit
  | none => .ok ()
  | some limit =>
    if s.employees.length < limit then .ok () else .error (.systemLimitExceeded limit)

def create (maxEmployees : Option ℕ) (id : ℕ) (input : CreateEmployeeInput) :
    Except EmployeeError State := do
  s.assertWithinLimit maxEmployees
  s.requireOrgUnit input.orgUnitId
  s.requireManager input.managerEmployeeId
  s.insertRow
    { id := id
      columns :=
        { orgUnitId := input.orgUnitId
          employeeNumber := input.employeeNumber
          employmentType := input.employmentType
          contractHoursPerWeek := input.contractHoursPerWeek
          costCenter := input.costCenter
          managerEmployeeId := input.managerEmployeeId
          status := .pendingOnboarding }
      hireDate := input.hireDate
      terminationDate := none
      createdAt := s.org.clock }

def update (id : ℕ) (input : UpdateEmployeeInput) : Except EmployeeError State := do
  let old ← s.requireEmployee id
  s.updateRow old (input.apply s.today old) input.effectiveDate

def transfer (employeeId : ℕ) (input : TransferInput) : Except EmployeeError State := do
  let old ← s.requireEmployee employeeId
  s.requireOrgUnit input.newOrgUnitId
  s.requireManager (input.newManagerEmployeeId.getD none)
  s.updateRow old (input.apply old) input.effectiveDate

end State

/-! ## Steps -/

inductive Action
  | org (a : Org.Action)
  | create (id : ℕ) (input : CreateEmployeeInput)
  | update (id : ℕ) (input : UpdateEmployeeInput)
  | transfer (id : ℕ) (input : TransferInput)

/-- One step: of the org units, or a call that does not throw. -/
def step (maxEmployees : Option ℕ) (s : State) : Action → Option State
  | .org a => (Org.step s.org a).map fun org => { s with org := org }
  | .create id input => (s.create maxEmployees id input).toOption
  | .update id input => (s.update id input).toOption
  | .transfer id input => (s.transfer id input).toOption

end Workforce.Employees
