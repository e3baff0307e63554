import Workforce.Foundations.Calendar
import Workforce.Foundations.Runs
import Workforce.Foundations.Tables

/-!
# Leave balances and leave requests

The tables `leave_balance` and `leave_request` and what changes them: `provision`,
`requestLeave`, `submitBackdatedLeave`, `decide`, and the statements of the carryover and accrual
jobs. Each is one transaction, or one statement, and is one step.

The day columns are `numeric(6,2)`: integers in hundredths of a day, at most 9999.99 days. The
services compare them as floating point numbers, exactly: `used_days` and `pending_days` are whole,
so nothing closer than a hundredth is ever compared with a whole number of days. Rates, caps and
carryover rules with more than two decimals are read as the columns round them. Dates are day
numbers.

A request and its decision each look their balance row up by dates. `getOne` returns some row that
covers them; which one, when there are several, is left to the database (`pick`).
-/

namespace Workforce.Leave

open Tables Calendar

/-! ## The tables -/

inductive AccrualFrequency
  | weekly | biweekly | monthly | annually
  deriving DecidableEq

/-- An active `accrual_policy`. -/
structure AccrualPolicy where
  accrualRatePerPeriod : ℕ
  accrualFrequency : AccrualFrequency
  maxBalanceCap : Option ℤ
  deriving DecidableEq

/-- A leave type with the rules of its `carryover_rules` that are well formed, and its active
accrual policy. -/
structure LeaveType where
  id : ℕ
  tenantId : ℕ
  requiresApproval : Bool
  maxCarryoverDays : Option ℕ
  carryoverExpiryMonths : Option ℕ
  accrualPolicy : Option AccrualPolicy

/-- The primary key of `leave_balance`. -/
structure BalanceKey where
  employeeId : ℕ
  leaveTypeId : ℕ
  periodStart : ℤ
  periodEnd : ℤ
  deriving DecidableEq

/-- A row of `leave_balance`. `carriedDays` and `creditedDays` are no columns: what the rollover
carried into the row, and what of it the expiry did not take back. They are for the statements; no
operation reads them. -/
structure LeaveBalance where
  key : BalanceKey
  tenantId : ℕ
  accruedDays : ℤ
  usedDays : ℤ
  pendingDays : ℤ
  carryoverDaysIn : ℤ
  carryoverExpiryDate : Option ℤ
  carryoverApplied : Bool
  lastAccruedAt : Option ℤ
  carriedDays : ℤ
  creditedDays : ℤ
  deriving DecidableEq

inductive LeaveRequestStatus
  | pending | approved | rejected | cancelled
  deriving DecidableEq

/-- A row of `leave_request`. `reservedOn` is no column: it is the balance row its days were
reserved on, for the statements; no operation reads it. -/
structure LeaveRequest where
  id : ℕ
  tenantId : ℕ
  employeeId : ℕ
  leaveTypeId : ℕ
  dateRangeStart : ℤ
  dateRangeEnd : ℤ
  status : LeaveRequestStatus
  approvalChainId : Option ℕ
  decidedBy : Option ℕ
  decisionReason : Option String
  isBackdated : Bool
  backdatedReason : Option String
  backdatedApprovedBy : Option ℕ
  reservedOn : BalanceKey

/-- `inclusiveDayCount`. -/
def inclusiveDayCount (dateRangeStart dateRangeEnd : ℤ) : ℤ := dateRangeEnd - dateRangeStart + 1

def LeaveRequest.dayCount (r : LeaveRequest) : ℤ :=
  inclusiveDayCount r.dateRangeStart r.dateRangeEnd

/-- `accrued_days - used_days - pending_days`. -/
def LeaveBalance.availableDays (b : LeaveBalance) : ℤ := b.accruedDays - b.usedDays - b.pendingDays

/-- A value of a `numeric(6,2)` column that passes the non-negative check. -/
def storableDays (days : ℤ) : Bool := 0 ≤ days && days ≤ 999999

/-- The row passes the checks of the table. -/
def LeaveBalance.storable (b : LeaveBalance) : Bool :=
  b.key.periodStart ≤ b.key.periodEnd && storableDays b.accruedDays && storableDays b.usedDays &&
    storableDays b.pendingDays && storableDays b.carryoverDaysIn

structure LeaveState where
  today : ℤ
  leaveTypes : List LeaveType
  balances : List LeaveBalance
  requests : List LeaveRequest

inductive LeaveError
  | leaveTypeNotFound (leaveTypeId : ℕ)
  | leaveBalanceAlreadyExists (key : BalanceKey)
  | checkViolation
  | invalidLeaveRequest (message : String)
  | backdatedLeaveNotSupported
  | notActuallyBackdated
  | leaveBalanceNotFound (employeeId leaveTypeId : ℕ)
  | insufficientLeaveBalance (requestedDays availableDays : ℤ)
  | leaveRequestOverlap (employeeId : ℕ) (dateRangeStart dateRangeEnd : ℤ)
  | leaveRequestNotFound (leaveRequestId : ℕ)
  | leaveRequestAlreadyDecided (leaveRequestId : ℕ) (status : LeaveRequestStatus)
  | insufficientPermission (permission : String)

/-! ## Provisioning -/

structure ProvisionLeaveBalanceDto where
  leaveTypeId : ℕ
  periodStart : ℤ
  periodEnd : ℤ
  accruedDays : ℕ
  carryoverDaysIn : Option ℕ
  carryoverExpiryDate : Option ℤ

/-- The row `provision` inserts. -/
def ProvisionLeaveBalanceDto.row (dto : ProvisionLeaveBalanceDto) (tenantId employeeId : ℕ) :
    LeaveBalance :=
  { key := ⟨employeeId, dto.leaveTypeId, dto.periodStart, dto.periodEnd⟩, tenantId
    accruedDays := dto.accruedDays, usedDays := 0, pendingDays := 0
    carryoverDaysIn := dto.carryoverDaysIn.getD 0, carryoverExpiryDate := dto.carryoverExpiryDate
    carryoverApplied := false, lastAccruedAt := none, carriedDays := 0, creditedDays := 0 }

/-- `provision`. Nothing keeps the period apart from the periods that exist. -/
def provision (s : LeaveState) (tenantId employeeId : ℕ) (dto : ProvisionLeaveBalanceDto) :
    Except LeaveError LeaveState :=
  let row := dto.row tenantId employeeId
  if !s.leaveTypes.any (fun lt => lt.id = dto.leaveTypeId && lt.tenantId = tenantId) then
    .error (.leaveTypeNotFound dto.leaveTypeId)
  else if s.balances.any (fun b => b.key = row.key) then .error (.leaveBalanceAlreadyExists row.key)
  else if !row.storable then .error .checkViolation
  else .ok { s with balances := s.balances ++ [row] }

/-! ## Requests and decisions -/

/-- The `WHERE` clause by which a request and its decision look the balance row up. -/
def LeaveBalance.covers (b : LeaveBalance) (tenantId employeeId leaveTypeId : ℕ)
    (dateRangeStart dateRangeEnd : ℤ) : Bool :=
  b.tenantId = tenantId && b.key.employeeId = employeeId && b.key.leaveTypeId = leaveTypeId &&
    b.key.periodStart ≤ dateRangeStart && dateRangeEnd ≤ b.key.periodEnd

/-- `getOne`: a row of the result, if there is one. -/
def getOne (pick : ℕ) (rows : List LeaveBalance) : Option LeaveBalance := rows[pick % rows.length]?

def LeaveState.findBalance (s : LeaveState) (tenantId employeeId leaveTypeId : ℕ)
    (dateRangeStart dateRangeEnd : ℤ) (pick : ℕ) : Option LeaveBalance :=
  getOne pick (s.balances.filter
    (·.covers tenantId employeeId leaveTypeId dateRangeStart dateRangeEnd))

/-- `manager.increment` and `decrement` on the row with this key; the checks of the table apply. -/
def LeaveState.updateBalance (s : LeaveState) (balance : LeaveBalance)
    (f : LeaveBalance → LeaveBalance) : Except LeaveError LeaveState :=
  if (f balance).storable then .ok { s with balances := modify (·.key) balance.key f s.balances }
  else .error .checkViolation

/-- The exclusion constraint on active requests of an employee. -/
def LeaveRequest.overlaps (r r' : LeaveRequest) : Bool :=
  (r'.status = .pending || r'.status = .approved) && r'.tenantId = r.tenantId &&
    r'.employeeId = r.employeeId && r.dateRangeStart ≤ r'.dateRangeEnd &&
    r'.dateRangeStart ≤ r.dateRangeEnd

/-- `insertLeaveRequestOrThrowOverlap`. -/
def LeaveState.insertRequest (s : LeaveState) (r : LeaveRequest) : Except LeaveError LeaveState :=
  if s.requests.any (fun r' => r.overlaps r' || r'.id = r.id) then
    .error (.leaveRequestOverlap r.employeeId r.dateRangeStart r.dateRangeEnd)
  else .ok { s with requests := s.requests ++ [r] }

structure RequestLeaveDto where
  employeeId : ℕ
  leaveTypeId : ℕ
  dateRangeStart : ℤ
  dateRangeEnd : ℤ

/-- The options of `reserveAndSubmit`, with the ids it generates. -/
structure SubmitOptions where
  forcePending : Bool
  isBackdated : Bool
  backdatedReason : Option String
  id : ℕ
  approvalChainId : ℕ

/-- The request `reserveAndSubmit` inserts, pending a decision or approved at once. -/
def newRequest (tenantId : ℕ) (dto : RequestLeaveDto) (options : SubmitOptions)
    (needsDecision : Bool) (balance : LeaveBalance) : LeaveRequest :=
  { id := options.id, tenantId, employeeId := dto.employeeId, leaveTypeId := dto.leaveTypeId
    dateRangeStart := dto.dateRangeStart, dateRangeEnd := dto.dateRangeEnd
    status := if needsDecision then .pending else .approved
    approvalChainId := if needsDecision then some options.approvalChainId else none
    decidedBy := none, decisionReason := none, isBackdated := options.isBackdated
    backdatedReason := options.backdatedReason, backdatedApprovedBy := none
    reservedOn := balance.key }

def LeaveBalance.addPending (days : ℤ) (b : LeaveBalance) : LeaveBalance :=
  { b with pendingDays := b.pendingDays + 100 * days }

def LeaveBalance.addUsed (days : ℤ) (b : LeaveBalance) : LeaveBalance :=
  { b with usedDays := b.usedDays + 100 * days }

/-- A reservation, or the use of the days at once. -/
def LeaveBalance.reserve (needsDecision : Bool) (days : ℤ) (b : LeaveBalance) : LeaveBalance :=
  if needsDecision then b.addPending days else b.addUsed days

/-- `reserveAndSubmit`. -/
def reserveAndSubmit (s : LeaveState) (tenantId : ℕ) (dto : RequestLeaveDto)
    (options : SubmitOptions) (pick : ℕ) : Except LeaveError LeaveState :=
  match s.findBalance tenantId dto.employeeId dto.leaveTypeId dto.dateRangeStart dto.dateRangeEnd
      pick with
  | none => .error (.leaveBalanceNotFound dto.employeeId dto.leaveTypeId)
  | some balance => do
    let requestedDays := inclusiveDayCount dto.dateRangeStart dto.dateRangeEnd
    if 100 * requestedDays > balance.availableDays then
      throw (.insufficientLeaveBalance requestedDays balance.availableDays)
    match s.leaveTypes.find? (·.id = balance.key.leaveTypeId) with
    | none => throw (.leaveTypeNotFound balance.key.leaveTypeId)
    | some leaveType =>
      let needsDecision := leaveType.requiresApproval || options.forcePending
      let s ← s.updateBalance balance (.reserve needsDecision requestedDays)
      s.insertRequest (newRequest tenantId dto options needsDecision balance)

/-- `requestLeave`; the conflict check has passed. -/
def requestLeave (s : LeaveState) (tenantId : ℕ) (dto : RequestLeaveDto)
    (id approvalChainId pick : ℕ) : Except LeaveError LeaveState := do
  if dto.dateRangeEnd < dto.dateRangeStart then
    throw (.invalidLeaveRequest "dateRangeEnd must not be before dateRangeStart.")
  if dto.dateRangeStart < s.today then throw .backdatedLeaveNotSupported
  reserveAndSubmit s tenantId dto ⟨false, false, none, id, approvalChainId⟩ pick

/-- `submitBackdatedLeave`; the conflict check has passed. -/
def submitBackdatedLeave (s : LeaveState) (tenantId : ℕ) (dto : RequestLeaveDto)
    (backdatedReason : String) (id approvalChainId pick : ℕ) : Except LeaveError LeaveState := do
  if dto.dateRangeEnd < dto.dateRangeStart then
    throw (.invalidLeaveRequest "dateRangeEnd must not be before dateRangeStart.")
  if s.today ≤ dto.dateRangeStart then throw .notActuallyBackdated
  reserveAndSubmit s tenantId dto ⟨true, true, some backdatedReason, id, approvalChainId⟩ pick

structure DecideLeaveRequestDto where
  approve : Bool
  decidedBy : ℕ
  actorPermissions : List String
  reason : Option String

def backdatedLeaveApprovePermission : String := "backdated_leave_entry:approve"

/-- The decided request. -/
def LeaveRequest.decided (dto : DecideLeaveRequestDto) (r : LeaveRequest) : LeaveRequest :=
  { r with
    status := if dto.approve then .approved else .rejected
    decidedBy := some dto.decidedBy
    decisionReason := dto.reason <|> r.decisionReason
    backdatedApprovedBy := if r.isBackdated && dto.approve then some dto.decidedBy else none }

/-- The decided reservation. -/
def LeaveBalance.decided (approve : Bool) (days : ℤ) (b : LeaveBalance) : LeaveBalance :=
  if approve then (b.addPending (-days)).addUsed days else b.addPending (-days)

/-- `applyDecision`. -/
def applyDecision (s : LeaveState) (tenantId leaveRequestId : ℕ) (dto : DecideLeaveRequestDto)
    (pick : ℕ) : Except LeaveError LeaveState :=
  match s.requests.find? (fun r => r.id = leaveRequestId && r.tenantId = tenantId) with
  | none => .error (.leaveRequestNotFound leaveRequestId)
  | some request => do
    if request.status ≠ .pending then
      throw (.leaveRequestAlreadyDecided leaveRequestId request.status)
    if request.isBackdated && dto.approve &&
        !dto.actorPermissions.contains backdatedLeaveApprovePermission then
      throw (.insufficientPermission backdatedLeaveApprovePermission)
    match s.findBalance tenantId request.employeeId request.leaveTypeId request.dateRangeStart
        request.dateRangeEnd pick with
    | none => throw (.leaveBalanceNotFound request.employeeId request.leaveTypeId)
    | some balance =>
      let s ← s.updateBalance balance (.decided dto.approve request.dayCount)
      return { s with requests := modify (·.id) leaveRequestId (·.decided dto) s.requests }

/-! ## The jobs -/

/-- `predecessor` is the closed period right before `successor`. -/
def LeaveBalance.closedBefore (successor : LeaveBalance) (today : ℤ) (predecessor : LeaveBalance) :
    Bool :=
  successor.tenantId = predecessor.tenantId &&
    successor.key.employeeId = predecessor.key.employeeId &&
    successor.key.leaveTypeId = predecessor.key.leaveTypeId &&
    successor.key.periodStart = predecessor.key.periodEnd + 1 && predecessor.key.periodEnd < today

/-- What is carried over: the leftover, capped and not negative. -/
def LeaveBalance.carryover (predecessor : LeaveBalance) (lt : LeaveType) : ℤ :=
  max (min predecessor.availableDays (lt.maxCarryoverDays.getD 0)) 0

/-- The `SET` clause of `ROLLOVER_SQL`. -/
def LeaveBalance.rollOver (successor predecessor : LeaveBalance) (lt : LeaveType) : LeaveBalance :=
  { successor with
    accruedDays := successor.accruedDays + predecessor.carryover lt
    carryoverDaysIn := predecessor.carryover lt
    carryoverExpiryDate := lt.carryoverExpiryMonths.map fun months =>
      addMonths (predecessor.key.periodEnd + 1) months
    carryoverApplied := true
    carriedDays := predecessor.carryover lt
    creditedDays := successor.creditedDays + predecessor.carryover lt }

/-- `ROLLOVER_SQL` on one row. All rows are read as they are before the statement; of several
predecessors one is used. -/
def rolledOver (s : LeaveState) (pick : BalanceKey → ℕ) (successor : LeaveBalance) : LeaveBalance :=
  if successor.carryoverApplied then successor
  else
    match getOne (pick successor.key) (s.balances.filter (successor.closedBefore s.today)) with
    | none => successor
    | some predecessor =>
      match s.leaveTypes.find? (·.id = predecessor.key.leaveTypeId) with
      | none => successor
      | some lt => successor.rollOver predecessor lt

/-- What the expiry takes back. -/
def LeaveBalance.clawback (b : LeaveBalance) : ℤ := min b.carryoverDaysIn (max b.availableDays 0)

/-- The row holds carryover whose date has passed. -/
def LeaveBalance.expired (today : ℤ) (b : LeaveBalance) : Bool :=
  0 < b.carryoverDaysIn && b.carryoverExpiryDate.any (· < today)

/-- `EXPIRY_SQL` on one row. Carryover that the rollover did not credit was provisioned. -/
def LeaveBalance.expire (today : ℤ) (b : LeaveBalance) : LeaveBalance :=
  if b.expired today then
    { b with
      accruedDays := b.accruedDays - b.clawback, carryoverDaysIn := 0, carryoverExpiryDate := none
      creditedDays := if b.carryoverApplied then b.creditedDays - b.clawback else b.creditedDays }
  else b

/-- The frequency of the policy is due. -/
def AccrualFrequency.due (today : ℤ) (lastAccruedAt : Option ℤ) : AccrualFrequency → Bool
  | weekly => lastAccruedAt.all (· ≤ today - 7)
  | biweekly => lastAccruedAt.all (· ≤ today - 14)
  | monthly => lastAccruedAt.all (monthStart · < monthStart today)
  | annually => lastAccruedAt.all (yearStart · < yearStart today)

/-- `ACCRUAL_SQL` on one row. -/
def accrued (s : LeaveState) (b : LeaveBalance) : LeaveBalance :=
  match s.leaveTypes.find? (fun lt => lt.id = b.key.leaveTypeId && lt.tenantId = b.tenantId) with
  | some { accrualPolicy := some ap, .. } =>
    if b.key.periodStart ≤ s.today && s.today ≤ b.key.periodEnd &&
        ap.maxBalanceCap.all (b.accruedDays < ·) && ap.accrualFrequency.due s.today b.lastAccruedAt
    then
      { b with
        accruedDays := min (b.accruedDays + ap.accrualRatePerPeriod)
          (ap.maxBalanceCap.getD (b.accruedDays + ap.accrualRatePerPeriod))
        lastAccruedAt := some s.today }
    else b
  | _ => b

/-- A statement over the whole table: it fails as a whole when a row fails the checks. -/
def LeaveState.updateAll (s : LeaveState) (f : LeaveBalance → LeaveBalance) :
    Except LeaveError LeaveState :=
  if s.balances.all (fun b => f b = b || (f b).storable) then
    .ok { s with balances := s.balances.map f }
  else .error .checkViolation

/-! ## Steps -/

/-- The operations, with what they take from outside: generated ids and the choices of the
database. Leave types and accrual policies are edited by services of their own. -/
inductive LeaveAction
  | passDays (days : ℕ)
  | setLeaveTypes (leaveTypes : List LeaveType)
  | provision (tenantId employeeId : ℕ) (dto : ProvisionLeaveBalanceDto)
  | requestLeave (tenantId : ℕ) (dto : RequestLeaveDto) (id approvalChainId pick : ℕ)
  | submitBackdatedLeave (tenantId : ℕ) (dto : RequestLeaveDto) (backdatedReason : String)
      (id approvalChainId pick : ℕ)
  | decide (tenantId leaveRequestId : ℕ) (dto : DecideLeaveRequestDto) (pick : ℕ)
  | rollover (pick : BalanceKey → ℕ)
  | expiry
  | accrual

/-- One operation; `none` when it throws, which changes nothing. -/
def leaveStep (s : LeaveState) : LeaveAction → Option LeaveState
  | .passDays days => some { s with today := s.today + days }
  | .setLeaveTypes leaveTypes => some { s with leaveTypes }
  | .provision tenantId employeeId dto => (provision s tenantId employeeId dto).toOption
  | .requestLeave tenantId dto id chain pick => (requestLeave s tenantId dto id chain pick).toOption
  | .submitBackdatedLeave tenantId dto reason id chain pick =>
    (submitBackdatedLeave s tenantId dto reason id chain pick).toOption
  | .decide tenantId requestId dto pick => (applyDecision s tenantId requestId dto pick).toOption
  | .rollover pick => (s.updateAll (rolledOver s pick)).toOption
  | .expiry => (s.updateAll (.expire s.today)).toOption
  | .accrual => (s.updateAll (accrued s)).toOption

end Workforce.Leave
