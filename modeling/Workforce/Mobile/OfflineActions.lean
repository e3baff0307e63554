import Workforce.Attendance.Ingestion

/-!
# Offline actions on the server

`mobile-sync.service.ts`: a request of `/v1/mobile/sync` reads the action's row, forwards the action
upstream and saves what came of it. Nothing is held between the three, so other requests for the
same action move in between, and a request may be cut off anywhere. A forward that outlives its
request is one of a request that is never heard of again. Where no row was found, `save` looks once
more: it inserts a row, or sets the columns of one that another request has inserted.

Clock events go to `AttendanceIngestionService` (`Attendance.prepare` and `Attendance.commit`);
leave requests and claims go to services that reject a repeated one.

* `KeepsOutcome`: a row that is synced or in conflict stays so, and an action that was accepted
  upstream is not reported as a conflict.
* `keepsOutcome_iff`: exactly when that holds in every state of a run.
-/

namespace Workforce.Mobile

open List

/-! ## Rows and requests -/

inductive OfflineActionType
  | clockEvent
  | leaveRequest
  | marketplaceClaim
  deriving DecidableEq

inductive OfflineActionStatus
  | pendingSync
  | synced
  | failed
  | conflict
  deriving DecidableEq

def OfflineActionStatus.isTerminal (status : OfflineActionStatus) : Bool :=
  status = .synced || status = .conflict

structure Coordinates where
  latitude : ℚ
  longitude : ℚ
  deriving DecidableEq

/-- The keys of the payloads of the three types. -/
structure Payload where
  eventType : Option String := none
  leaveTypeId : Option String := none
  dateRangeStart : Option String := none
  dateRangeEnd : Option String := none
  marketplacePostId : Option String := none
  location : Option Coordinates := none
  deriving DecidableEq

structure MobileSyncActionDto where
  id : String
  employeeId : ℕ
  actionType : OfflineActionType
  payload : Payload
  createdAtDevice : ℤ

structure ConflictDetails where
  code : String
  message : String
  deriving DecidableEq

structure OfflineActionQueue where
  id : String
  tenantId : ℕ
  employeeId : ℕ
  actionType : OfflineActionType
  payload : Payload
  status : OfflineActionStatus
  createdAtDevice : ℤ
  conflictDetails : Option ConflictDetails
  geofenceVerified : Option Bool

structure MobileSyncActionResult where
  actionId : String
  actionType : OfflineActionType
  status : OfflineActionStatus
  conflictDetails : Option ConflictDetails
  detail : Option String

def stripLocation (payload : Payload) : Payload := { payload with location := none }

/-- The row a request inserts. -/
def newRow (tenantId : ℕ) (action : MobileSyncActionDto) : OfflineActionQueue :=
  { id := action.id
    tenantId := tenantId
    employeeId := action.employeeId
    actionType := action.actionType
    payload := stripLocation action.payload
    status := .pendingSync
    createdAtDevice := action.createdAtDevice
    conflictDetails := none
    geofenceVerified := none }

/-- What a statement leaves in a column: it sets what differs from the row that was found. -/
def setChanged {α : Type*} [DecidableEq α] (found fresh current : α) : α :=
  if fresh = found then current else fresh

/-- What `save` of a new row makes of the row, when it has found one. -/
def OfflineActionQueue.overwrite (found fresh current : OfflineActionQueue) : OfflineActionQueue :=
  { id := current.id
    tenantId := current.tenantId
    employeeId := setChanged found.employeeId fresh.employeeId current.employeeId
    actionType := setChanged found.actionType fresh.actionType current.actionType
    payload := setChanged found.payload fresh.payload current.payload
    status := setChanged found.status fresh.status current.status
    createdAtDevice :=
      setChanged found.createdAtDevice fresh.createdAtDevice current.createdAtDevice
    conflictDetails :=
      setChanged found.conflictDetails fresh.conflictDetails current.conflictDetails
    geofenceVerified :=
      setChanged found.geofenceVerified fresh.geofenceVerified current.geofenceVerified }

/-- What a row that is settled answers. -/
def toResult (row : OfflineActionQueue) : MobileSyncActionResult :=
  match row.status with
  | .conflict => ⟨row.id, row.actionType, .conflict, row.conflictDetails, none⟩
  | .synced => ⟨row.id, row.actionType, .synced, none, none⟩
  | .pendingSync | .failed => ⟨row.id, row.actionType, .failed, none, none⟩

/-! ## What comes of an action -/

/-- What `processByActionType` learns: the forward was accepted, or an exception was thrown. -/
inductive Answer
  | accepted (geofenceVerified : Option Bool)
  | geofenceViolation
  | conflict (details : ConflictDetails)
  | failed (detail : String)

def Answer.status : Answer → OfflineActionStatus
  | .accepted _ => .synced
  | .geofenceViolation | .conflict _ => .conflict
  | .failed _ => .failed

def geofenceViolationDetails : ConflictDetails :=
  ⟨"GEOFENCE_VIOLATION",
    "Clock event location is outside the configured geofence boundary (hard enforcement)."⟩

/-- The row that is saved. -/
def OfflineActionQueue.settle (row : OfflineActionQueue) : Answer → OfflineActionQueue
  | .accepted verified =>
    { row with
      status := .synced
      geofenceVerified := if row.actionType = .clockEvent then verified else row.geofenceVerified }
  | .geofenceViolation =>
    { row with
      status := .conflict
      geofenceVerified := some false
      conflictDetails := some geofenceViolationDetails }
  | .conflict details => { row with status := .conflict, conflictDetails := some details }
  | .failed _ => { row with status := .failed }

/-- The result that is returned. -/
def Answer.result (row : OfflineActionQueue) : Answer → MobileSyncActionResult
  | .accepted _ => ⟨row.id, row.actionType, .synced, none, none⟩
  | .geofenceViolation => ⟨row.id, row.actionType, .conflict, some geofenceViolationDetails, none⟩
  | .conflict details => ⟨row.id, row.actionType, .conflict, some details, none⟩
  | .failed detail => ⟨row.id, row.actionType, .failed, none, some detail⟩

@[simp] theorem settle_status (row : OfflineActionQueue) (answer : Answer) :
    (row.settle answer).status = answer.status := by
  cases answer <;> rfl

@[simp] theorem result_status (row : OfflineActionQueue) (answer : Answer) :
    (answer.result row).status = answer.status := by
  cases answer <;> rfl

theorem toResult_status {row : OfflineActionQueue} (h : row.status.isTerminal) :
    (toResult row).status = row.status := by
  cases hstatus : row.status <;> simp_all [toResult, OfflineActionStatus.isTerminal]

/-- A key that is there and not empty. -/
def isSet : Option String → Bool
  | none => false
  | some s => s ≠ ""

def clockEventType (row : OfflineActionQueue) : Option Attendance.AttendanceClockEventType :=
  match row.payload.eventType with
  | some "clock_in" => some .clockIn
  | some "clock_out" => some .clockOut
  | _ => none

/-- What is wrong with the payload. -/
def malformed (row : OfflineActionQueue) : Option String :=
  match row.actionType with
  | .clockEvent =>
    if (clockEventType row).isSome then none
    else some "payload.eventType must be clock_in or clock_out."
  | .leaveRequest =>
    if isSet row.payload.leaveTypeId && isSet row.payload.dateRangeStart &&
        isSet row.payload.dateRangeEnd then none
    else some "payload must include leaveTypeId, dateRangeStart, and dateRangeEnd."
  | .marketplaceClaim =>
    if isSet row.payload.marketplacePostId then none
    else some "payload must include marketplacePostId."

/-- `GeofenceEvaluation`. -/
structure GeofenceEvaluation where
  enabled : Bool
  verified : Option Bool
  hard : Bool

/-- Hard enforcement decides without the attendance service. -/
def GeofenceEvaluation.violated (g : GeofenceEvaluation) : Bool :=
  g.enabled && g.hard && g.verified = some false

/-- What `AttendanceClockEventClient.forward` makes of an error of the ingestion. -/
def answerOfError : Attendance.IngestionError → Answer
  | .noOpenAttendanceRecord employeeId =>
    .conflict ⟨"NO_OPEN_ATTENDANCE_RECORD",
      "No open attendance record found for employee " ++ employeeId.repr ++ " to clock out."⟩
  | .attendanceRecordConflict recordId =>
    .conflict ⟨"ATTENDANCE_RECORD_CONFLICT",
      "Attendance record " ++ recordId.repr ++ " was already closed by a concurrent event."⟩
  | .upstreamUnavailable => .failed "HTTP 503"
  | .uniqueViolation | .checkViolation | .entityNotFound => .failed "HTTP 500"

/-- The event that is forwarded. -/
def clockEvent (row : OfflineActionQueue) (eventType : Attendance.AttendanceClockEventType)
    (verified : Option Bool) : Attendance.ClockEventDto :=
  { sourceEventId := row.id
    employeeId := row.employeeId
    eventType := eventType
    occurredAt := row.createdAtDevice
    source := .mobileApp
    geofenceVerified := verified }

/-! ## Requests for one action -/

/-- How far a request has come. -/
inductive Stage
  /-- No row was found. -/
  | inserting (action : MobileSyncActionDto)
  /-- `save` of a new row has looked for it. -/
  | writing (action : MobileSyncActionDto) (found : Option OfflineActionQueue)
  | loaded (row : OfflineActionQueue)
  /-- The attendance service has read what it needs. -/
  | ingesting (row : OfflineActionQueue) (event : Attendance.ClockEventDto)
      (write : Attendance.RecordWrite)
  | answered (row : OfflineActionQueue) (answer : Answer)

/-- What the services for leave requests and claims do. -/
inductive Reply
  | accepts
  /-- The request is accepted, but the answer does not arrive. -/
  | acceptsUnheard (detail : String)
  | rejects (details : ConflictDetails)
  | fails (detail : String)

def Reply.accepting : Reply → Bool
  | .accepts | .acceptsUnheard _ => true
  | .rejects _ | .fails _ => false

def Reply.answer : Reply → Answer
  | .accepts => .accepted none
  | .acceptsUnheard detail | .fails detail => .failed detail
  | .rejects details => .conflict details

/-- The row of an action, and where every request for it is. -/
structure SyncState where
  row : Option OfflineActionQueue
  requests : ℕ → Option Stage
  /-- The leave request or claim has been accepted. -/
  granted : Bool
  attendance : Attendance.AttendanceDb
  /-- The first terminal status of the row. -/
  settled : Option OfflineActionStatus
  results : List MobileSyncActionResult

/-- A statement of a request, or what another service does. -/
inductive SyncStep
  | begin (q : ℕ) (action : MobileSyncActionDto)
  | selectNew (q : ℕ)
  | writeNew (q : ℕ)
  /-- The payload is malformed, or the upstream service cannot be reached. -/
  | giveUp (q : ℕ) (detail : String)
  | forwardClockEvent (q : ℕ) (geofence : GeofenceEvaluation)
      (getShiftAssignments : Attendance.GetShiftAssignments) (attendanceRecordId : ℕ)
  /-- The transaction of the ingestion; its answer may not arrive. -/
  | ingest (q : ℕ) (unheard : Option String)
  | forwardRequest (q : ℕ) (reply : Reply)
  | save (q : ℕ)
  | crash (q : ℕ)
  /-- Other events change the attendance tables. -/
  | elsewhere (attendance : Attendance.AttendanceDb)

section Steps

variable (config : Attendance.GraceConfig) (tenantId : ℕ) (actionId : String)

namespace SyncState

variable (s : SyncState)

/-- The action's event in the ledger of the attendance service. -/
def ledgerRow (db : Attendance.AttendanceDb) : Option Attendance.AttendanceIngestionEvent :=
  db.findEvent tenantId .mobileApp actionId

/-- A forward of the action has been accepted. -/
def accepted : Bool := s.granted || (ledgerRow tenantId actionId s.attendance).isSome

def status : Option OfflineActionStatus := s.row.map (·.status)

def setStage (q : ℕ) (stage : Option Stage) : SyncState :=
  { s with requests := Function.update s.requests q stage }

/-- A row that was read is returned when it is terminal and processed otherwise. -/
def proceed (q : ℕ) (row : OfflineActionQueue) : SyncState :=
  if row.status.isTerminal then { s.setStage q none with results := s.results ++ [toResult row] }
  else s.setStage q (some (.loaded row))

/-- The row is saved with its answer, and the request is over. -/
def saveRow (q : ℕ) (row : OfflineActionQueue) (answer : Answer) : SyncState :=
  { s.setStage q none with
    row := some (row.settle answer)
    settled := s.settled.or (if answer.status.isTerminal then some answer.status else none)
    results := s.results ++ [answer.result row] }

end SyncState

open SyncState

/-- The forward of a clock event, up to the transaction of the ingestion. -/
def forwardClockEvent (s : SyncState) (row : OfflineActionQueue) (geofence : GeofenceEvaluation)
    (getShiftAssignments : Attendance.GetShiftAssignments) (attendanceRecordId : ℕ)
    (eventType : Attendance.AttendanceClockEventType) : Stage :=
  if geofence.violated then .answered row .geofenceViolation
  else
    let event := clockEvent row eventType geofence.verified
    match Attendance.prepare config getShiftAssignments s.attendance tenantId event
        attendanceRecordId with
    | .error e => .answered row (answerOfError e)
    | .ok write => .ingesting row event write

/-- What the request learns of the transaction. -/
def ingestAnswer (event : Attendance.ClockEventDto) (unheard : Option String)
    (result : Except Attendance.IngestionError Attendance.IngestionResult) : Answer :=
  match unheard, result with
  | some detail, _ => .failed detail
  | none, .ok _ => .accepted event.geofenceVerified
  | none, .error e => answerOfError e

/-- What a step does; `none` where it cannot happen. -/
def syncStep (s : SyncState) : SyncStep → Option SyncState
  | .begin q action =>
    if (s.requests q).isNone ∧ action.id = actionId then
      match s.row with
      | none => some (s.setStage q (some (.inserting action)))
      | some row => some (s.proceed q row)
    else none
  | .selectNew q =>
    match s.requests q with
    | some (.inserting action) => some (s.setStage q (some (.writing action s.row)))
    | _ => none
  | .writeNew q =>
    match s.requests q with
    | some (.writing action found) =>
      let fresh := newRow tenantId action
      match s.row, found with
      | none, _ => some { s.setStage q (some (.loaded fresh)) with row := some fresh }
      -- a unique violation: the row is read
      | some row, none => some (s.proceed q row)
      | some row, some found =>
        some { s.setStage q (some (.loaded fresh)) with row := some (found.overwrite fresh row) }
    | _ => none
  | .giveUp q detail =>
    match s.requests q with
    | some (.loaded row) =>
      some (s.setStage q (some (.answered row (.failed ((malformed row).getD detail)))))
    | _ => none
  | .forwardClockEvent q geofence getShiftAssignments attendanceRecordId =>
    match s.requests q with
    | some (.loaded row) =>
      match row.actionType, clockEventType row with
      | .clockEvent, some eventType =>
        some (s.setStage q (some (forwardClockEvent config tenantId s row geofence
          getShiftAssignments attendanceRecordId eventType)))
      | _, _ => none
    | _ => none
  | .ingest q unheard =>
    match s.requests q with
    | some (.ingesting row event write) =>
      let (result, attendance) := Attendance.commit s.attendance tenantId event write
      some { s.setStage q (some (.answered row (ingestAnswer event unheard result))) with
        attendance := attendance }
    | _ => none
  | .forwardRequest q reply =>
    match s.requests q with
    | some (.loaded row) =>
      -- a repeated request is rejected
      if row.actionType ≠ .clockEvent ∧ malformed row = none ∧ ¬ (reply.accepting ∧ s.granted) then
        some { s.setStage q (some (.answered row reply.answer)) with
          granted := s.granted || reply.accepting }
      else none
    | _ => none
  | .save q =>
    match s.requests q with
    | some (.answered row answer) => some (s.saveRow q row answer)
    | _ => none
  | .crash q => some (s.setStage q none)
  | .elsewhere attendance =>
    if ledgerRow tenantId actionId attendance = ledgerRow tenantId actionId s.attendance then
      some { s with attendance := attendance }
    else none

/-! ## Outcomes that are kept -/

variable {config tenantId actionId}

/-- A terminal status does not change, and an accepted action is in conflict neither in its row nor
in a result. -/
structure KeepsOutcome (tenantId : ℕ) (actionId : String) (s : SyncState) : Prop where
  settled : ∀ st ∈ s.settled, s.status = some st
  accepted : s.accepted tenantId actionId = true →
    s.status ≠ some .conflict ∧ ∀ r ∈ s.results, r.status ≠ .conflict

/-- What is saved is what the row says already, if that is terminal, and is no conflict when the
action has been accepted. -/
def SavesOwn (tenantId : ℕ) (actionId : String) (s : SyncState) : Option Stage → Prop
  | some (.answered _ answer) =>
    (∀ row ∈ s.row, row.status.isTerminal → row.status = answer.status) ∧
      (answer.status = .conflict → s.accepted tenantId actionId = false)
  | _ => True

/-- A new row is not written over a row that is terminal: where another request had inserted one
that was no longer pending, it is not terminal. -/
def WritesOwn (s : SyncState) : Option Stage → Prop
  | some (.writing _ (some found)) =>
    found.status ≠ .pendingSync → ∀ st ∈ s.status, st.isTerminal = false
  | _ => True

/-- The requests do not undo what others have done: what is saved agrees with the row and the
upstream service, no new row replaces a terminal one, and the upstream service accepts no action
that is in conflict. -/
def Undisturbed (config : Attendance.GraceConfig) (tenantId : ℕ) (actionId : String)
    (s : SyncState) : SyncStep → Prop
  | .save q => SavesOwn tenantId actionId s (s.requests q)
  | .writeNew q => WritesOwn s (s.requests q)
  | a => s.accepted tenantId actionId = false →
      (syncStep config tenantId actionId s a).any (·.accepted tenantId actionId) = true →
        s.status ≠ some .conflict

instance (s : SyncState) : DecidablePred (SavesOwn tenantId actionId s) := fun stage => by
  unfold SavesOwn
  split <;> infer_instance

instance (s : SyncState) : DecidablePred (WritesOwn s) := fun stage => by
  unfold WritesOwn
  split <;> infer_instance

instance (s : SyncState) : DecidablePred (Undisturbed config tenantId actionId s) := fun a => by
  cases a <;> unfold Undisturbed <;> infer_instance

/-- What the proofs need to know of the state: `KeepsOutcome`, and the history says what the row
says. -/
structure SyncInv (tenantId : ℕ) (actionId : String) (s : SyncState) : Prop where
  keeps : KeepsOutcome tenantId actionId s
  isTerminal : ∀ st ∈ s.settled, st.isTerminal
  terminal : ∀ st ∈ s.status, st.isTerminal → s.settled = some st
  results : ∀ r ∈ s.results, r.status = .conflict → s.settled = some .conflict

/-- What a step does that saves no outcome: it leaves the status, or writes a new row where there is
no terminal one. -/
structure Leaves (s t : SyncState) : Prop where
  status : t.status = s.status ∨
    (∀ st ∈ s.status, st.isTerminal = false) ∧ t.status = some .pendingSync
  settled : t.settled = s.settled
  results : t.results = s.results ∨
    ∃ row ∈ s.row, row.status.isTerminal ∧ t.results = s.results ++ [toResult row]

theorem leaves_proceed {s : SyncState} {row : OfflineActionQueue} (h : s.row = some row) (q : ℕ) :
    Leaves s (s.proceed q row) := by
  unfold SyncState.proceed
  split
  · rename_i hterminal
    exact ⟨.inl rfl, rfl, .inr ⟨row, h, hterminal, rfl⟩⟩
  · exact ⟨.inl rfl, rfl, .inl rfl⟩

variable {s t : SyncState}

theorem writesOwn_of_open (h : ∀ st ∈ s.status, st.isTerminal = false) (stage : Option Stage) :
    WritesOwn s stage := by
  unfold WritesOwn
  split
  · exact fun _ => h
  · trivial

theorem writeNew_cases {q : ℕ} (h : syncStep config tenantId actionId s (.writeNew q) = some t) :
    t.accepted tenantId actionId = s.accepted tenantId actionId ∧ t.settled = s.settled ∧
      ((¬ WritesOwn s (s.requests q) ∧ t.status = some .pendingSync) ∨
        (WritesOwn s (s.requests q) ∧ Leaves s t)) := by
  simp only [syncStep] at h
  split at h
  · rename_i action found hrequest
    rw [hrequest]
    cases hrow : s.row with
    | none =>
      simp only [hrow] at h
      cases h
      have hopen : ∀ st ∈ s.status, st.isTerminal = false := by simp [SyncState.status, hrow]
      exact ⟨rfl, rfl, .inr ⟨writesOwn_of_open hopen _, .inr ⟨hopen, rfl⟩, rfl, .inl rfl⟩⟩
    | some row =>
      cases found with
      | none =>
        simp only [hrow] at h
        cases h
        have hleaves := leaves_proceed hrow q
        refine ⟨?_, hleaves.settled, .inr ⟨trivial, hleaves⟩⟩
        unfold SyncState.proceed
        split <;> rfl
      | some found =>
        simp only [hrow] at h
        cases h
        have hstatus : s.status = some row.status := by rw [SyncState.status, hrow]; rfl
        refine ⟨rfl, rfl, ?_⟩
        -- the status is set unless the row that was found was pending
        by_cases hpending : found.status = .pendingSync
        · refine .inr ⟨fun h => absurd hpending h, .inl ?_, rfl, .inl rfl⟩
          rw [hstatus]
          exact congrArg some (if_pos hpending.symm)
        · have hset : (found.overwrite (newRow tenantId action) row).status = .pendingSync :=
            if_neg fun h => hpending h.symm
          by_cases hopen : ∀ st ∈ s.status, st.isTerminal = false
          · exact .inr ⟨fun _ => hopen, .inr ⟨hopen, congrArg some hset⟩, rfl, .inl rfl⟩
          · exact .inl ⟨fun h => hopen (h hpending), congrArg some hset⟩
  · cases h

theorem syncStep_cases {a : SyncStep} (h : syncStep config tenantId actionId s a = some t) :
    (∃ q row answer, a = .save q ∧ s.requests q = some (.answered row answer) ∧
      t = s.saveRow q row answer) ∨ (∃ q, a = .writeNew q) ∨
      (∀ q, a ≠ .save q ∧ a ≠ .writeNew q) ∧ Leaves s t := by
  have hstage : ∀ q stage, Leaves s (s.setStage q stage) := fun q stage =>
    ⟨.inl rfl, rfl, .inl rfl⟩
  cases a with
  | «begin» q action =>
    refine .inr (.inr ⟨fun _ => ⟨SyncStep.noConfusion, SyncStep.noConfusion⟩, ?_⟩)
    simp only [syncStep] at h
    split at h
    · split at h
      · exact Option.some.inj h ▸ hstage ..
      · rename_i row hrow
        exact Option.some.inj h ▸ leaves_proceed hrow q
    · cases h
  | selectNew q =>
    refine .inr (.inr ⟨fun _ => ⟨SyncStep.noConfusion, SyncStep.noConfusion⟩, ?_⟩)
    simp only [syncStep] at h
    split at h
    · exact Option.some.inj h ▸ hstage ..
    · cases h
  | writeNew q => exact .inr (.inl ⟨q, rfl⟩)
  | giveUp q detail =>
    refine .inr (.inr ⟨fun _ => ⟨SyncStep.noConfusion, SyncStep.noConfusion⟩, ?_⟩)
    simp only [syncStep] at h
    split at h
    · exact Option.some.inj h ▸ hstage ..
    · cases h
  | forwardClockEvent q geofence getShiftAssignments attendanceRecordId =>
    refine .inr (.inr ⟨fun _ => ⟨SyncStep.noConfusion, SyncStep.noConfusion⟩, ?_⟩)
    simp only [syncStep] at h
    split at h
    · split at h
      · exact Option.some.inj h ▸ hstage ..
      · cases h
    · cases h
  | ingest q unheard =>
    refine .inr (.inr ⟨fun _ => ⟨SyncStep.noConfusion, SyncStep.noConfusion⟩, ?_⟩)
    simp only [syncStep] at h
    split at h
    · exact Option.some.inj h ▸ ⟨.inl rfl, rfl, .inl rfl⟩
    · cases h
  | forwardRequest q reply =>
    refine .inr (.inr ⟨fun _ => ⟨SyncStep.noConfusion, SyncStep.noConfusion⟩, ?_⟩)
    simp only [syncStep] at h
    split at h
    · split at h
      · exact Option.some.inj h ▸ ⟨.inl rfl, rfl, .inl rfl⟩
      · cases h
    · cases h
  | save q =>
    simp only [syncStep] at h
    split at h
    · rename_i row answer hrequest
      exact .inl ⟨q, row, answer, rfl, hrequest, (Option.some.inj h).symm⟩
    · cases h
  | crash q =>
    refine .inr (.inr ⟨fun _ => ⟨SyncStep.noConfusion, SyncStep.noConfusion⟩, ?_⟩)
    exact Option.some.inj h ▸ hstage ..
  | elsewhere attendance =>
    refine .inr (.inr ⟨fun _ => ⟨SyncStep.noConfusion, SyncStep.noConfusion⟩, ?_⟩)
    simp only [syncStep] at h
    split at h
    · exact Option.some.inj h ▸ ⟨.inl rfl, rfl, .inl rfl⟩
    · cases h

section Leaving

variable {s t : SyncState}

theorem Leaves.status_eq_conflict (h : Leaves s t) :
    t.status = some .conflict ↔ s.status = some .conflict := by
  rcases h.status with hsame | ⟨hopen, hpending⟩
  · rw [hsame]
  · rw [hpending]
    refine iff_of_false (fun h => by cases h) fun h => ?_
    exact absurd (hopen _ h) Bool.noConfusion

theorem Leaves.inv (h : Leaves s t) (hinv : SyncInv tenantId actionId s)
    (hok : t.accepted tenantId actionId = true → t.status ≠ some .conflict) :
    SyncInv tenantId actionId t := by
  have hresults : ∀ r ∈ t.results, r.status = .conflict → t.settled = some .conflict := by
    intro r hr hconflict
    rw [h.settled]
    rcases h.results with hsame | ⟨row, hrow, hterminal, hmore⟩
    · exact hinv.results r (hsame ▸ hr) hconflict
    · rw [hmore, mem_append, mem_singleton] at hr
      rcases hr with hr | rfl
      · exact hinv.results r hr hconflict
      · rw [toResult_status hterminal] at hconflict
        exact hconflict ▸ hinv.terminal _ (Option.mem_map_of_mem _ hrow) hterminal
  have hsettled : ∀ st ∈ t.settled, t.status = some st := by
    intro st hst
    rw [h.settled] at hst
    have hstatus := hinv.keeps.settled st hst
    rcases h.status with hsame | ⟨hopen, -⟩
    · rwa [hsame]
    · have hterminal := hinv.isTerminal st hst
      rw [hopen st hstatus] at hterminal
      cases hterminal
  refine ⟨⟨hsettled, fun haccepted => ⟨hok haccepted, fun r hr hconflict => ?_⟩⟩,
    h.settled ▸ hinv.isTerminal, ?_, hresults⟩
  · exact hok haccepted (hsettled _ (hresults r hr hconflict))
  · intro st hst hterminal
    rw [h.settled]
    rcases h.status with hsame | ⟨-, hpending⟩
    · exact hinv.terminal st (hsame ▸ hst) hterminal
    · obtain rfl := Option.some.inj (hpending.symm.trans hst)
      cases hterminal

/-- A step that leaves the row is undisturbed when it accepts no action that is in conflict. -/
theorem Leaves.undisturbed_iff (h : Leaves s t) (hinv : SyncInv tenantId actionId s) {a : SyncStep}
    (ha : ∀ q, a ≠ .save q ∧ a ≠ .writeNew q)
    (hstep : syncStep config tenantId actionId s a = some t) :
    Undisturbed config tenantId actionId s a ↔
      (t.accepted tenantId actionId = true → t.status ≠ some .conflict) := by
  have hdef : Undisturbed config tenantId actionId s a ↔ (s.accepted tenantId actionId = false →
      t.accepted tenantId actionId = true → s.status ≠ some .conflict) := by
    cases a with
    | save q => exact absurd rfl (ha q).1
    | writeNew q => exact absurd rfl (ha q).2
    | _ => simp only [Undisturbed, hstep, Option.any_some]
  rw [hdef]
  constructor
  · intro hok haccepted hconflict
    rw [h.status_eq_conflict] at hconflict
    cases hbefore : s.accepted tenantId actionId with
    | true => exact (hinv.keeps.accepted hbefore).1 hconflict
    | false => exact hok hbefore haccepted hconflict
  · intro hok _ haccepted hconflict
    exact hok haccepted (h.status_eq_conflict.2 hconflict)

end Leaving

section Saving

variable {s : SyncState} (q : ℕ) (row : OfflineActionQueue) (answer : Answer)

theorem saveRow_status : (s.saveRow q row answer).status = some answer.status := by
  simp [SyncState.status, SyncState.saveRow]

theorem saveRow_inv (hinv : SyncInv tenantId actionId s)
    (hok : SavesOwn tenantId actionId s (some (.answered row answer))) :
    SyncInv tenantId actionId (s.saveRow q row answer) := by
  -- what has been settled is what is saved
  have hsame : ∀ st ∈ s.settled, answer.status = st := by
    intro st hst
    obtain ⟨row', hrow', rfl⟩ := Option.map_eq_some_iff.1 (hinv.keeps.settled st hst)
    exact (hok.1 row' hrow' (hinv.isTerminal _ hst)).symm
  have hsettled : ∀ st ∈ (s.saveRow q row answer).settled,
      st = answer.status ∧ st.isTerminal := by
    intro st hst
    rcases Option.or_eq_some_iff.1 hst with hold | ⟨-, hnew⟩
    · exact ⟨(hsame st hold).symm, hinv.isTerminal st hold⟩
    · split at hnew
      · rename_i hterminal
        exact Option.some.inj hnew ▸ ⟨rfl, hterminal⟩
      · cases hnew
  have hterminal : answer.status.isTerminal →
      (s.saveRow q row answer).settled = some answer.status := by
    intro h
    simp only [SyncState.saveRow, h, if_true]
    cases hold : s.settled with
    | none => rfl
    | some st => exact congrArg some (hsame st hold).symm
  have hresults : ∀ r ∈ (s.saveRow q row answer).results, r.status = .conflict →
      answer.status = .conflict := by
    intro r hr hconflict
    rcases mem_append.1 hr with hold | hnew
    · exact hsame _ (hinv.results r hold hconflict)
    · rwa [mem_singleton.1 hnew, result_status] at hconflict
  refine ⟨⟨fun st hst => ?_, fun haccepted => ?_⟩, fun st hst => (hsettled st hst).2, ?_, ?_⟩
  · rw [saveRow_status, (hsettled st hst).1]
  · have hno : answer.status ≠ .conflict := by
      intro hconflict
      have hbefore : s.accepted tenantId actionId = true := haccepted
      rw [hok.2 hconflict] at hbefore
      cases hbefore
    refine ⟨?_, fun r hr hconflict => hno (hresults r hr hconflict)⟩
    rw [saveRow_status]
    exact fun h => hno (Option.some.inj h)
  · intro st hst h
    rw [saveRow_status] at hst
    cases hst
    exact hterminal h
  · intro r hr hconflict
    have hanswer := hresults r hr hconflict
    exact hanswer ▸ hterminal (by rw [hanswer]; rfl)

theorem savesOwn_of_keeps (hinv : SyncInv tenantId actionId s)
    (h : KeepsOutcome tenantId actionId (s.saveRow q row answer)) :
    SavesOwn tenantId actionId s (some (.answered row answer)) := by
  refine ⟨fun row' hrow' hterminal => ?_, fun hconflict => ?_⟩
  · have hbefore := hinv.terminal _ (Option.mem_map_of_mem _ hrow') hterminal
    have hafter := h.settled row'.status (by simp [SyncState.saveRow, hbefore])
    rw [saveRow_status] at hafter
    exact (Option.some.inj hafter).symm
  · by_contra haccepted
    rw [Bool.not_eq_false] at haccepted
    refine (h.accepted haccepted).1 ?_
    rw [saveRow_status, hconflict]

end Saving

theorem inv_syncStep {a : SyncStep} (hinv : SyncInv tenantId actionId s)
    (hok : Undisturbed config tenantId actionId s a)
    (h : syncStep config tenantId actionId s a = some t) : SyncInv tenantId actionId t := by
  rcases syncStep_cases h with ⟨q, row, answer, rfl, hrequest, rfl⟩ | ⟨q, rfl⟩ | ⟨ha, hleaves⟩
  · rw [Undisturbed, hrequest] at hok
    exact saveRow_inv q row answer hinv hok
  · obtain ⟨haccepted, -, ⟨hno, -⟩ | ⟨-, hleaves⟩⟩ := writeNew_cases h
    · exact absurd hok hno
    · refine hleaves.inv hinv fun h hconflict => ?_
      exact (hinv.keeps.accepted (haccepted ▸ h)).1 (hleaves.status_eq_conflict.1 hconflict)
  · exact hleaves.inv hinv ((hleaves.undisturbed_iff hinv ha h).1 hok)

theorem not_keeps_syncStep {a : SyncStep} (hinv : SyncInv tenantId actionId s)
    (hno : ¬ Undisturbed config tenantId actionId s a)
    (h : syncStep config tenantId actionId s a = some t) : ¬ KeepsOutcome tenantId actionId t := by
  intro hkeeps
  refine hno ?_
  rcases syncStep_cases h with ⟨q, row, answer, rfl, hrequest, rfl⟩ | ⟨q, rfl⟩ | ⟨ha, hleaves⟩
  · rw [Undisturbed, hrequest]
    exact savesOwn_of_keeps q row answer hinv hkeeps
  · obtain ⟨-, hsettled, ⟨-, hpending⟩ | ⟨hown, -⟩⟩ := writeNew_cases h
    · -- what has been settled is pending again
      refine writesOwn_of_open (fun st hst => ?_) _
      by_contra hterminal
      rw [Bool.not_eq_false] at hterminal
      have hafter := hkeeps.settled st (hsettled.trans (hinv.terminal st hst hterminal))
      rw [hpending] at hafter
      cases hafter
      cases hterminal
    · exact hown
  · exact (hleaves.undisturbed_iff hinv ha h).2 fun haccepted => (hkeeps.accepted haccepted).1

/-- The action has not been sent. -/
def SyncState.init (attendance : Attendance.AttendanceDb) : SyncState :=
  ⟨none, fun _ => none, false, attendance, none, []⟩

theorem inv_init (attendance : Attendance.AttendanceDb) :
    SyncInv tenantId actionId (SyncState.init attendance) where
  keeps :=
    { settled := fun _ h => absurd h (Option.not_mem_none _)
      accepted := fun _ => ⟨(Option.some_ne_none _).symm, forall_mem_nil _⟩ }
  isTerminal := fun _ h => absurd h (Option.not_mem_none _)
  terminal := fun _ h => absurd h (Option.not_mem_none _)
  results := forall_mem_nil _

/-- **When an action keeps its outcome**: in every state of a run of any requests for it, a terminal
status of its row is the first one it had and an accepted action is not in conflict, exactly when
every outcome that is saved agrees with a row that is terminal already, no new row is written over a
terminal one, no conflict is saved of an action that has been accepted, and none is accepted whose
row is in conflict. -/
theorem keepsOutcome_iff (attendance : Attendance.AttendanceDb) {steps : List SyncStep}
    {t : SyncState}
    (h : Runs.exec (syncStep config tenantId actionId) (SyncState.init attendance) steps = some t) :
    Runs.Always (syncStep config tenantId actionId) (KeepsOutcome tenantId actionId)
        (SyncState.init attendance) steps ↔
      Runs.Meets (syncStep config tenantId actionId) (Undisturbed config tenantId actionId)
        (SyncState.init attendance) steps :=
  Runs.always_iff_meets (fun _ => SyncInv.keeps) (fun _ _ _ => inv_syncStep)
    (fun _ _ _ => not_keeps_syncStep) (inv_init attendance) h

end Steps

/-- A day of leave. -/
def leaveDay : MobileSyncActionDto :=
  { id := "a1"
    employeeId := 3
    actionType := .leaveRequest
    payload :=
      { leaveTypeId := some "annual"
        dateRangeStart := some "2026-09-01"
        dateRangeEnd := some "2026-09-01" }
    createdAtDevice := 0 }

def insufficientBalance : ConflictDetails :=
  ⟨"INSUFFICIENT_LEAVE_BALANCE", "Insufficient leave balance."⟩

/-- Two requests find no row, and the second one writes its new row over that of the first. The
first forward fails, the second is accepted, and the action is sent once more. -/
def sentAgain : List SyncStep :=
  [.begin 0 leaveDay, .begin 1 leaveDay, .selectNew 0, .writeNew 0, .selectNew 1,
    .forwardRequest 0 (.fails "HTTP 503"), .save 0, .writeNew 1, .forwardRequest 1 .accepts,
    .save 1, .begin 2 leaveDay]

theorem sentAgain_keepsOutcome :
    Runs.Always (syncStep {} 7 "a1") (KeepsOutcome 7 "a1") (SyncState.init ⟨[], []⟩) sentAgain := by
  obtain ⟨t, ht, -⟩ : ∃ t, Runs.exec (syncStep {} 7 "a1") (SyncState.init ⟨[], []⟩) sentAgain =
      some t ∧ t.status = some .synced := Runs.exists_exec (by decide)
  exact (keepsOutcome_iff _ ht).2 (by decide)

/-- A second request reads the row while the first one has not saved it. -/
def sentTwice : List SyncStep :=
  [.begin 0 leaveDay, .selectNew 0, .writeNew 0, .begin 1 leaveDay, .forwardRequest 0 .accepts,
    .save 0, .forwardRequest 1 (.rejects insufficientBalance), .save 1]

/-- The leave has been granted and is reported as a conflict; the row was synced before. -/
theorem sentTwice_not_keepsOutcome : ∃ t, Runs.exec (syncStep {} 7 "a1") (SyncState.init ⟨[], []⟩)
      sentTwice = some t ∧ t.settled = some .synced ∧ t.status = some .conflict ∧
    t.granted = true ∧ ¬ KeepsOutcome 7 "a1" t := by
  obtain ⟨t, ht, hsettled, hstatus, hgranted⟩ : ∃ t, Runs.exec (syncStep {} 7 "a1")
      (SyncState.init ⟨[], []⟩) sentTwice = some t ∧ t.settled = some .synced ∧
        t.status = some .conflict ∧ t.granted = true := Runs.exists_exec (by decide)
  refine ⟨t, ht, hsettled, hstatus, hgranted, fun hkeeps => ?_⟩
  have h := hkeeps.settled _ hsettled
  rw [hstatus] at h
  cases h

end Workforce.Mobile
