import Mathlib.Data.List.Sort
import Mathlib.Tactic.NormNum
import Workforce.Foundations.Runs

/-!
# Ingestion of clock events

`AttendanceIngestionService.ingest` and the exception detection it calls, over the tables
`attendance_record` and `attendance_ingestion_event`. A call has two parts, and other calls move
between them: first the reads, the open record of a clock-out and the answer of the scheduling
service (`prepare`), then one transaction that writes the attendance record and the ledger row
together (`commit`). A unique violation of the ledger rolls the transaction back and is the sign
of a duplicate.

The ledger is looked at last, after the reads have found a record to close. So a clock-out that is
delivered again is known as a duplicate only while the employee has an open record
(`Redeliverable`).

Instants are milliseconds. The scheduling service is a parameter: for a tenant, an employee and a
window it answers with assignments or fails.
-/

namespace Workforce.Attendance

open List

/-! ## The tables -/

/-- `AttendanceSource`. -/
inductive AttendanceSource
  | badge | biometric | manual | mobileApp
  deriving DecidableEq

/-- `AttendanceClockEventType`. -/
inductive AttendanceClockEventType
  | clockIn | clockOut
  deriving DecidableEq

/-- `AttendanceExceptionType`. -/
inductive AttendanceExceptionType
  | late | earlyLeave | noShow | unscheduledWork | geofenceViolation

structure AttendanceRecord where
  id : ℕ
  tenantId : ℕ
  employeeId : ℕ
  clockInAt : ℤ
  clockOutAt : Option ℤ
  source : AttendanceSource
  scheduledShiftId : Option ℕ
  exceptionType : Option AttendanceExceptionType
  exceptionMinutes : Option ℤ
  geofenceVerified : Option Bool

/-- A row of the ledger. `(tenantId, source, sourceEventId)` is unique. -/
structure AttendanceIngestionEvent where
  tenantId : ℕ
  source : AttendanceSource
  sourceEventId : String
  eventType : AttendanceClockEventType
  attendanceRecordId : ℕ
  deriving DecidableEq

/-- The records, and the ledger of the events that were ingested. -/
structure AttendanceDb where
  records : List AttendanceRecord
  ledger : List AttendanceIngestionEvent

/-- `ClockEventDto`; a `null` geofence result and an absent one are the same. -/
structure ClockEventDto where
  sourceEventId : String
  employeeId : ℕ
  eventType : AttendanceClockEventType
  occurredAt : ℤ
  source : AttendanceSource
  geofenceVerified : Option Bool

inductive IngestionError
  | noOpenAttendanceRecord (employeeId : ℕ)
  | attendanceRecordConflict (attendanceRecordId : ℕ)
  | upstreamUnavailable
  | uniqueViolation
  | checkViolation
  | entityNotFound

inductive Outcome
  | accepted | duplicate

structure IngestionResult where
  outcome : Outcome
  attendanceRecordId : ℕ

/-! ## Exception detection -/

/-- The fields of `EmployeeShiftAssignment` that the detection reads. -/
structure EmployeeShiftAssignment where
  id : ℕ
  shiftStart : ℤ
  shiftEnd : ℤ

/-- `ScheduleServiceClient.getShiftAssignments`: `none` when the call throws. -/
abbrev GetShiftAssignments :=
  (tenantId employeeId : ℕ) → (windowStart windowEnd : ℤ) → Option (List EmployeeShiftAssignment)

/-- The two grace periods of the configuration, in minutes. -/
structure GraceConfig where
  lateGraceMinutes : ℚ := 10
  earlyLeaveGraceMinutes : ℚ := 10

def minutes : ℤ := 60000

/-- `Math.round(ms / MINUTES)`: to the nearest minute, halves up. -/
def roundedMinutes (ms : ℤ) : ℤ := (ms + minutes / 2) / minutes

structure ClockInExceptionResult where
  scheduledShiftId : Option ℕ
  exceptionType : Option AttendanceExceptionType
  exceptionMinutes : Option ℤ

structure ClockOutExceptionResult where
  exceptionType : Option AttendanceExceptionType
  exceptionMinutes : Option ℤ

/-- Of the shifts that cover the instant within the grace period, the one with the closest start;
the sort is stable. -/
def findCoveringShift (assignments : List EmployeeShiftAssignment) (occurredAt : ℤ)
    (graceMinutes : ℚ) : Option EmployeeShiftAssignment :=
  let graceMs : ℚ := graceMinutes * minutes
  let candidates := assignments.filter fun a =>
    (a.shiftStart : ℚ) - graceMs ≤ occurredAt && (occurredAt : ℚ) ≤ a.shiftEnd + graceMs
  (candidates.insertionSort fun a b =>
    |a.shiftStart - occurredAt| ≤ |b.shiftStart - occurredAt|).head?

section Detection

variable (config : GraceConfig) (getShiftAssignments : GetShiftAssignments)

/-- `detectForClockIn`; `none` when the scheduling service fails. -/
def detectForClockIn (tenantId employeeId : ℕ) (occurredAt : ℤ) : Option ClockInExceptionResult :=
  (getShiftAssignments tenantId employeeId (occurredAt - 12 * 60 * minutes)
    (occurredAt + 12 * 60 * minutes)).map fun assignments =>
    match findCoveringShift assignments occurredAt config.lateGraceMinutes with
    | none => ⟨none, some .unscheduledWork, none⟩
    | some shift =>
      let lateMinutes := roundedMinutes (occurredAt - shift.shiftStart)
      if config.lateGraceMinutes < lateMinutes then ⟨some shift.id, some .late, some lateMinutes⟩
      else ⟨some shift.id, none, none⟩

/-- `detectForClockOut` asks the scheduling service: the record has a shift and no exception. -/
def comparesShift (openRecord : AttendanceRecord) : Bool :=
  openRecord.scheduledShiftId.isSome && openRecord.exceptionType.isNone

/-- `detectForClockOut`; `none` when the scheduling service fails. -/
def detectForClockOut (tenantId employeeId : ℕ) (openRecord : AttendanceRecord) (occurredAt : ℤ) :
    Option ClockOutExceptionResult :=
  if comparesShift openRecord then
    (getShiftAssignments tenantId employeeId (openRecord.clockInAt - 60 * minutes)
      (occurredAt + 60 * minutes)).map fun assignments =>
      match assignments.find? fun a => openRecord.scheduledShiftId = some a.id with
      | none => ⟨none, none⟩
      | some shift =>
        let earlyMinutes := roundedMinutes (shift.shiftEnd - occurredAt)
        if config.earlyLeaveGraceMinutes < earlyMinutes then
          ⟨some .earlyLeave, some earlyMinutes⟩
        else ⟨none, none⟩
  else some ⟨none, none⟩

end Detection

/-! ## The two parts of a call -/

namespace AttendanceDb

/-- The employee's open record with the latest clock-in. The database may return any of several with
the same one; here it is the first. -/
def findOpenRecord (db : AttendanceDb) (tenantId employeeId : ℕ) : Option AttendanceRecord :=
  ((db.records.filter fun r =>
    r.tenantId = tenantId && r.employeeId = employeeId && r.clockOutAt.isNone).insertionSort
    fun a b => b.clockInAt ≤ a.clockInAt).head?

/-- The ledger row of an event. -/
def findEvent (db : AttendanceDb) (tenantId : ℕ) (source : AttendanceSource)
    (sourceEventId : String) : Option AttendanceIngestionEvent :=
  db.ledger.find? fun e =>
    e.tenantId = tenantId && e.source = source && e.sourceEventId = sourceEventId

/-- The record, if it is still open. -/
def stillOpen (db : AttendanceDb) (id : ℕ) : Option AttendanceRecord :=
  db.records.find? fun r => r.id = id && r.clockOutAt.isNone

end AttendanceDb

/-- What `writeAttendanceRecord` is to do: insert a record, or close one with the values of the
clock-out. -/
inductive RecordWrite
  | insert (record : AttendanceRecord)
  | close (id : ℕ) (clockOutAt : ℤ) (exceptionType : Option AttendanceExceptionType)
      (exceptionMinutes : Option ℤ) (geofenceVerified : Option Bool)

/-- The reads of `ingest`, up to the transaction. `attendanceRecordId` is the fresh identifier a
clock-in draws. -/
def prepare (config : GraceConfig) (getShiftAssignments : GetShiftAssignments) (db : AttendanceDb)
    (tenantId : ℕ) (event : ClockEventDto) (attendanceRecordId : ℕ) :
    Except IngestionError RecordWrite :=
  match event.eventType with
  | .clockIn =>
    match detectForClockIn config getShiftAssignments tenantId event.employeeId
        event.occurredAt with
    | none => .error .upstreamUnavailable
    | some ex =>
      let exceptionType :=
        if event.geofenceVerified = some false && ex.exceptionType.isNone then
          some .geofenceViolation
        else ex.exceptionType
      .ok (.insert
        { id := attendanceRecordId
          tenantId := tenantId
          employeeId := event.employeeId
          clockInAt := event.occurredAt
          clockOutAt := none
          source := event.source
          scheduledShiftId := ex.scheduledShiftId
          exceptionType := exceptionType
          exceptionMinutes := ex.exceptionMinutes
          geofenceVerified := event.geofenceVerified })
  | .clockOut =>
    match db.findOpenRecord tenantId event.employeeId with
    | none => .error (.noOpenAttendanceRecord event.employeeId)
    | some openRecord =>
      match detectForClockOut config getShiftAssignments tenantId event.employeeId openRecord
          event.occurredAt with
      | none => .error .upstreamUnavailable
      | some ex =>
        let exceptionType :=
          if event.geofenceVerified = some false && ex.exceptionType.isNone &&
              openRecord.exceptionType.isNone then
            some .geofenceViolation
          else ex.exceptionType
        .ok (.close openRecord.id event.occurredAt (exceptionType.or openRecord.exceptionType)
          (ex.exceptionMinutes.or openRecord.exceptionMinutes)
          (event.geofenceVerified.or openRecord.geofenceVerified))

/-- `writeAttendanceRecord`, inside the transaction: the primary key guards the insert, the check
on `clock_out_at` the update. -/
def writeAttendanceRecord (db : AttendanceDb) :
    RecordWrite → Except IngestionError (ℕ × AttendanceDb)
  | .insert record =>
    if db.records.any (fun r => r.id = record.id) then .error .uniqueViolation
    else .ok (record.id, { db with records := db.records ++ [record] })
  | .close id clockOutAt exceptionType exceptionMinutes geofenceVerified =>
    match db.stillOpen id with
    | none => .error (.attendanceRecordConflict id)
    | some row =>
      if clockOutAt < row.clockInAt then .error .checkViolation
      else .ok (id, { db with records := db.records.map fun r =>
        if r.id = id && r.clockOutAt.isNone then
          { r with
            clockOutAt := some clockOutAt
            exceptionType := exceptionType
            exceptionMinutes := exceptionMinutes
            geofenceVerified := geofenceVerified }
        else r })

/-- The insert of the ledger row. -/
def insertEvent (db : AttendanceDb) (row : AttendanceIngestionEvent) :
    Except IngestionError AttendanceDb :=
  if (db.findEvent row.tenantId row.source row.sourceEventId).isSome then .error .uniqueViolation
  else .ok { db with ledger := db.ledger ++ [row] }

/-- The transaction: the record write, then the ledger row that names it. -/
def transaction (db : AttendanceDb) (tenantId : ℕ) (event : ClockEventDto) (write : RecordWrite) :
    Except IngestionError (ℕ × AttendanceDb) :=
  match writeAttendanceRecord db write with
  | .error e => .error e
  | .ok (recordId, db') =>
    (insertEvent db' ⟨tenantId, event.source, event.sourceEventId, event.eventType, recordId⟩).map
      fun db'' => (recordId, db'')

/-- `commit`: a transaction that fails leaves the tables as they were, and a unique violation is
answered with the record the ledger names. -/
def commit (db : AttendanceDb) (tenantId : ℕ) (event : ClockEventDto) (write : RecordWrite) :
    Except IngestionError IngestionResult × AttendanceDb :=
  match transaction db tenantId event write with
  | .ok (recordId, db') => (.ok ⟨.accepted, recordId⟩, db')
  | .error .uniqueViolation =>
    match db.findEvent tenantId event.source event.sourceEventId with
    | some existing => (.ok ⟨.duplicate, existing.attendanceRecordId⟩, db)
    | none => (.error .entityNotFound, db)
  | .error e => (.error e, db)

/-- `ingest`, for a call whose reads see `db` and whose transaction finds `db'`. -/
def ingest (config : GraceConfig) (getShiftAssignments : GetShiftAssignments)
    (db db' : AttendanceDb) (tenantId : ℕ) (event : ClockEventDto) (attendanceRecordId : ℕ) :
    Except IngestionError IngestionResult × AttendanceDb :=
  match prepare config getShiftAssignments db tenantId event attendanceRecordId with
  | .error e => (.error e, db')
  | .ok write => commit db' tenantId event write

/-! ## Runs -/

/-- A call between its reads and its transaction. -/
structure IngestionCall where
  callId : ℕ
  tenantId : ℕ
  event : ClockEventDto
  write : RecordWrite

/-- What a call answered. -/
structure Reply where
  tenantId : ℕ
  event : ClockEventDto
  result : Except IngestionError IngestionResult

/-- The tables, the calls in progress and the answers given so far. -/
structure State where
  db : AttendanceDb
  calls : List IngestionCall
  replies : List Reply

def State.init : State := ⟨⟨[], []⟩, [], []⟩

inductive Action
  | read (callId tenantId : ℕ) (event : ClockEventDto) (attendanceRecordId : ℕ)
      (getShiftAssignments : GetShiftAssignments)
  | write (callId : ℕ)

/-- One part of one call. Any number of calls may be in progress, in any order. -/
def step (config : GraceConfig) (s : State) : Action → Option State
  | .read callId tenantId event attendanceRecordId getShiftAssignments =>
    if s.calls.any (fun c => c.callId = callId) then none
    else
      match prepare config getShiftAssignments s.db tenantId event attendanceRecordId with
      | .error e => some { s with replies := s.replies ++ [⟨tenantId, event, .error e⟩] }
      | .ok write => some { s with calls := s.calls ++ [⟨callId, tenantId, event, write⟩] }
  | .write callId =>
    (s.calls.find? fun c => c.callId = callId).map fun c =>
      let (result, db) := commit s.db c.tenantId c.event c.write
      { db := db
        calls := s.calls.filter fun c => c.callId ≠ callId
        replies := s.replies ++ [⟨c.tenantId, c.event, result⟩] }

/-- An event with this key has been accepted, for the record `attendanceRecordId`. -/
def State.Accepted (s : State) (tenantId : ℕ) (source : AttendanceSource) (sourceEventId : String)
    (attendanceRecordId : ℕ) : Prop :=
  ∃ r ∈ s.replies, r.tenantId = tenantId ∧ r.event.source = source ∧
    r.event.sourceEventId = sourceEventId ∧ r.result = .ok ⟨.accepted, attendanceRecordId⟩

/-! ## What a transaction does to the ledger -/

namespace AttendanceDb

/-- The ledger names the record for this key. -/
def Names (db : AttendanceDb) (tenantId : ℕ) (source : AttendanceSource) (sourceEventId : String)
    (attendanceRecordId : ℕ) : Prop :=
  ∃ e, db.findEvent tenantId source sourceEventId = some e ∧
    e.attendanceRecordId = attendanceRecordId

end AttendanceDb

variable {write : RecordWrite}

theorem writeAttendanceRecord_ledger {db db' : AttendanceDb} {recordId : ℕ}
    (h : writeAttendanceRecord db write = .ok (recordId, db')) : db'.ledger = db.ledger := by
  cases write with
  | insert record =>
    simp only [writeAttendanceRecord] at h
    split at h
    · cases h
    · cases h
      rfl
  | close id clockOutAt exceptionType exceptionMinutes geofenceVerified =>
    simp only [writeAttendanceRecord] at h
    split at h
    · cases h
    · split at h
      · cases h
      · cases h
        rfl

theorem findEvent_congr {db db' : AttendanceDb} (h : db'.ledger = db.ledger) (tenantId : ℕ)
    (source : AttendanceSource) (sourceEventId : String) :
    db'.findEvent tenantId source sourceEventId = db.findEvent tenantId source sourceEventId := by
  rw [AttendanceDb.findEvent, AttendanceDb.findEvent, h]

variable {tenantId : ℕ} {event : ClockEventDto}

/-- A transaction that succeeds met no ledger row for its event and adds one. -/
theorem transaction_eq_ok {db db' : AttendanceDb} {recordId : ℕ}
    (h : transaction db tenantId event write = .ok (recordId, db')) :
    db.findEvent tenantId event.source event.sourceEventId = none ∧
      db'.ledger = db.ledger ++
        [⟨tenantId, event.source, event.sourceEventId, event.eventType, recordId⟩] := by
  unfold transaction at h
  split at h
  · cases h
  · rename_i id db₁ hw
    have hledger := writeAttendanceRecord_ledger hw
    unfold insertEvent at h
    rw [findEvent_congr hledger] at h
    split at h
    · cases h
    · rename_i hnone
      cases h
      exact ⟨by simpa using hnone, by rw [hledger]⟩

variable {db : AttendanceDb}

/-- Once the ledger has a row for the key of an event, its transaction never succeeds. -/
theorem transaction_ne_ok (write : RecordWrite) {attendanceRecordId : ℕ}
    (h : db.Names tenantId event.source event.sourceEventId attendanceRecordId)
    (r : ℕ × AttendanceDb) : transaction db tenantId event write ≠ .ok r := by
  intro hok
  obtain ⟨e, he, -⟩ := h
  obtain ⟨recordId, db'⟩ := r
  obtain ⟨hnone, -⟩ := transaction_eq_ok hok
  rw [he] at hnone
  cases hnone

theorem commit_cases (db : AttendanceDb) (tenantId : ℕ) (event : ClockEventDto)
    (write : RecordWrite) :
    ((commit db tenantId event write).2 = db ∧
        ∀ id, (commit db tenantId event write).1 ≠ .ok ⟨.accepted, id⟩) ∨
      ∃ id db', transaction db tenantId event write = .ok (id, db') ∧
        commit db tenantId event write = (.ok ⟨.accepted, id⟩, db') := by
  unfold commit
  split
  · rename_i id db' h
    exact .inr ⟨id, db', h, rfl⟩
  · left
    split <;> exact ⟨rfl, by simp⟩
  · left
    exact ⟨rfl, by simp⟩

variable {id : ℕ}

theorem AttendanceDb.Names.commit {t : ℕ} {source : AttendanceSource} {sourceEventId : String}
    (h : db.Names t source sourceEventId id) (tenantId : ℕ) (event : ClockEventDto)
    (write : RecordWrite) :
    (commit db tenantId event write).2.Names t source sourceEventId id := by
  obtain ⟨hdb, -⟩ | ⟨recordId, db', htx, hcommit⟩ := commit_cases db tenantId event write
  · rw [hdb]
    exact h
  · obtain ⟨e, he, hid⟩ := h
    rw [hcommit]
    refine ⟨e, ?_, hid⟩
    rw [AttendanceDb.findEvent, (transaction_eq_ok htx).2, find?_append]
    rw [AttendanceDb.findEvent] at he
    rw [he]
    rfl

/-- An accepted event is in the ledger, with its record. -/
theorem names_of_accepted (h : (commit db tenantId event write).1 = .ok ⟨.accepted, id⟩) :
    (commit db tenantId event write).2.Names tenantId event.source event.sourceEventId id := by
  obtain ⟨-, hno⟩ | ⟨recordId, db', htx, hcommit⟩ := commit_cases db tenantId event write
  · exact absurd h (hno id)
  · rw [hcommit] at h ⊢
    obtain rfl : recordId = id := by simpa using h
    obtain ⟨hnone, hledger⟩ := transaction_eq_ok htx
    refine ⟨⟨tenantId, event.source, event.sourceEventId, event.eventType, recordId⟩, ?_, rfl⟩
    rw [AttendanceDb.findEvent, hledger, find?_append]
    rw [AttendanceDb.findEvent] at hnone
    rw [hnone]
    simp

/-! ## The invariant of the runs -/

/-- Every accepted event is in the ledger, with the record it was accepted for. -/
def State.Recorded (s : State) : Prop :=
  ∀ tenantId source sourceEventId id, s.Accepted tenantId source sourceEventId id →
    s.db.Names tenantId source sourceEventId id

theorem recorded_init : State.init.Recorded := by
  rintro tenantId source sourceEventId id ⟨r, hr, -⟩
  simp [State.init] at hr

theorem names_step {config : GraceConfig} {s s' : State} {a : Action} {source : AttendanceSource}
    {sourceEventId : String} (h : s.db.Names tenantId source sourceEventId id)
    (hstep : step config s a = some s') :
    s'.db.Names tenantId source sourceEventId id := by
  cases a with
  | read callId t event newId schedule =>
    simp only [step] at hstep
    split at hstep
    · cases hstep
    · split at hstep
      all_goals
        cases hstep
        exact h
  | write callId =>
    simp only [step, Option.map_eq_some_iff] at hstep
    obtain ⟨c, -, rfl⟩ := hstep
    exact h.commit c.tenantId c.event c.write

theorem recorded_step {config : GraceConfig} {s s' : State} {a : Action} (h : s.Recorded)
    (hstep : step config s a = some s') : s'.Recorded := by
  rintro tenantId source sourceEventId id ⟨r, hr, ht, hsource, hevent, hresult⟩
  have hold : r ∈ s.replies → s'.db.Names tenantId source sourceEventId id := by
    intro hr
    have hacc : s.Accepted tenantId source sourceEventId id :=
      ⟨r, hr, ht, hsource, hevent, hresult⟩
    exact names_step (h _ _ _ _ hacc) hstep
  cases a with
  | read callId t event newId schedule =>
    simp only [step] at hstep
    split at hstep
    · cases hstep
    · split at hstep
      · cases hstep
        simp only [mem_append, mem_singleton] at hr
        obtain hr | rfl := hr
        · exact hold hr
        · cases hresult
      · cases hstep
        exact hold hr
  | write callId =>
    simp only [step, Option.map_eq_some_iff] at hstep
    obtain ⟨c, hc, rfl⟩ := hstep
    simp only [mem_append, mem_singleton] at hr
    obtain hr | rfl := hr
    · exact hold hr
    · subst ht hsource hevent
      exact names_of_accepted hresult

/-! ## Redelivery -/

section Redelivery

variable (config : GraceConfig) (getShiftAssignments : GetShiftAssignments)

/-- What an event needs to get as far as the ledger, when its reads see `db` and its transaction
finds `db'`. A clock-in needs an answer of the scheduling service. A clock-out needs an open record
to close, no later than itself and still open at the transaction, and an answer where the record
has a shift to compare with. -/
def Redeliverable (db db' : AttendanceDb) (tenantId : ℕ) (event : ClockEventDto) : Prop :=
  match event.eventType with
  | .clockIn =>
    (getShiftAssignments tenantId event.employeeId (event.occurredAt - 12 * 60 * minutes)
      (event.occurredAt + 12 * 60 * minutes)).isSome
  | .clockOut =>
    ∃ openRecord, db.findOpenRecord tenantId event.employeeId = some openRecord ∧
      (comparesShift openRecord →
        (getShiftAssignments tenantId event.employeeId (openRecord.clockInAt - 60 * minutes)
          (event.occurredAt + 60 * minutes)).isSome) ∧
      ∃ row, db'.stillOpen openRecord.id = some row ∧ row.clockInAt ≤ event.occurredAt

end Redelivery

/-- The write gets past the record: an insert whatever its identifier, a close when the record is
still open and not later. -/
def RecordWrite.Reaches (db : AttendanceDb) : RecordWrite → Prop
  | .insert _ => True
  | .close id clockOutAt _ _ _ => ∃ row, db.stillOpen id = some row ∧ row.clockInAt ≤ clockOutAt

/-- For a key that the ledger has, the transaction ends in a unique violation exactly when its
write gets past the record. -/
theorem transaction_unique_iff (h : db.Names tenantId event.source event.sourceEventId id)
    (write : RecordWrite) :
    transaction db tenantId event write = .error .uniqueViolation ↔ write.Reaches db := by
  obtain ⟨e, he, -⟩ := h
  cases write with
  | insert record =>
    refine iff_of_true ?_ trivial
    simp only [transaction, writeAttendanceRecord]
    split
    · rename_i hw
      split at hw
      · cases hw
        rfl
      · cases hw
    · rename_i hw
      split at hw
      · cases hw
      · cases hw
        have hfind : (⟨db.records ++ [record], db.ledger⟩ : AttendanceDb).findEvent tenantId
            event.source event.sourceEventId = some e := he
        simp [insertEvent, hfind, Except.map]
  | close rid clockOutAt exceptionType exceptionMinutes geofenceVerified =>
    simp only [transaction, writeAttendanceRecord, RecordWrite.Reaches]
    cases hopen : db.stillOpen rid with
    | none => simp
    | some row =>
      by_cases hlt : clockOutAt < row.clockInAt
      · simp [hlt]
      · simp only [hlt, if_false, insertEvent, AttendanceDb.findEvent]
        rw [AttendanceDb.findEvent] at he
        simp only [he, Option.isSome_some, if_true, Except.map, true_iff]
        exact ⟨row, rfl, not_lt.1 hlt⟩

/-- For a key that the ledger has, a commit changes nothing, and reports the ledger's record
exactly when its write gets past the record. -/
theorem commit_duplicate_iff (h : db.Names tenantId event.source event.sourceEventId id)
    (write : RecordWrite) :
    (commit db tenantId event write).2 = db ∧
      ((commit db tenantId event write).1 = .ok ⟨.duplicate, id⟩ ↔ write.Reaches db) := by
  rw [← transaction_unique_iff h]
  obtain ⟨e, he, rfl⟩ := h
  unfold commit
  split
  · rename_i hok
    exact absurd hok (transaction_ne_ok write ⟨e, he, rfl⟩ _)
  · rename_i hunique
    simp [hunique, he]
  · rename_i err hne herr
    refine ⟨rfl, iff_of_false (by simp) ?_⟩
    rw [herr]
    simpa using hne

section Redelivery

variable {config : GraceConfig} {getShiftAssignments : GetShiftAssignments}

/-- An event gets as far as the ledger exactly when its reads succeed and its write gets past the
record. -/
theorem redeliverable_iff {db db' : AttendanceDb} {tenantId : ℕ} {event : ClockEventDto}
    (newId : ℕ) :
    Redeliverable getShiftAssignments db db' tenantId event ↔
      ∃ write, prepare config getShiftAssignments db tenantId event newId = .ok write ∧
        write.Reaches db' := by
  unfold Redeliverable prepare
  cases event.eventType with
  | clockIn =>
    simp only [detectForClockIn]
    cases getShiftAssignments tenantId event.employeeId (event.occurredAt - 12 * 60 * minutes)
        (event.occurredAt + 12 * 60 * minutes) with
    | none => simp
    | some assignments => simp [RecordWrite.Reaches]
  | clockOut =>
    cases db.findOpenRecord tenantId event.employeeId with
    | none => simp
    | some openRecord =>
      simp only [Option.some.injEq, exists_eq_left', detectForClockOut]
      cases comparesShift openRecord with
      | false => simp [RecordWrite.Reaches]
      | true =>
        cases getShiftAssignments tenantId event.employeeId (openRecord.clockInAt - 60 * minutes)
            (event.occurredAt + 60 * minutes) with
        | none => simp
        | some assignments => simp [RecordWrite.Reaches]

/-- For a key that the ledger has, `ingest` changes nothing, and reports a duplicate of the
ledger's record exactly when the event gets as far as the ledger. -/
theorem ingest_duplicate_iff {db db' : AttendanceDb} {tenantId : ℕ} {event : ClockEventDto}
    {id : ℕ} (newId : ℕ) (h : db'.Names tenantId event.source event.sourceEventId id) :
    (ingest config getShiftAssignments db db' tenantId event newId).2 = db' ∧
      ((ingest config getShiftAssignments db db' tenantId event newId).1 = .ok ⟨.duplicate, id⟩ ↔
        Redeliverable getShiftAssignments db db' tenantId event) := by
  rw [@redeliverable_iff config _ _ _ _ _ newId]
  unfold ingest
  split
  · rename_i hprep
    simp [hprep]
  · rename_i write hprep
    simpa [hprep] using commit_duplicate_iff h write

end Redelivery

/-- **A redelivered clock event.** Once an event was accepted, at any later point of any run the
delivery of an event with its key changes no record; it is reported as a duplicate of the same
record exactly when the event gets as far as the ledger. -/
theorem redelivery_is_duplicate_iff {config : GraceConfig} {as bs cs : List Action}
    {s s₁ s₂ : State} {tenantId id : ℕ} {event : ClockEventDto}
    (hs : Runs.exec (step config) State.init as = some s)
    (hacc : s.Accepted tenantId event.source event.sourceEventId id)
    (hs₁ : Runs.exec (step config) s bs = some s₁) (hs₂ : Runs.exec (step config) s₁ cs = some s₂)
    (getShiftAssignments : GetShiftAssignments) (newId : ℕ) :
    (ingest config getShiftAssignments s₁.db s₂.db tenantId event newId).2 = s₂.db ∧
      ((ingest config getShiftAssignments s₁.db s₂.db tenantId event newId).1 =
          .ok ⟨.duplicate, id⟩ ↔
        Redeliverable getShiftAssignments s₁.db s₂.db tenantId event) := by
  have hrec : s.Recorded :=
    Runs.exec_keeps State.Recorded (fun _ _ _ h hstep => recorded_step h hstep) recorded_init hs
  have hkeep : ∀ s a s', s.db.Names tenantId event.source event.sourceEventId id →
      step config s a = some s' → s'.db.Names tenantId event.source event.sourceEventId id :=
    fun _ _ _ h hstep => names_step h hstep
  have h₁ := Runs.exec_keeps (fun s : State => s.db.Names tenantId event.source
    event.sourceEventId id) hkeep (hrec _ _ _ _ hacc) hs₁
  have h₂ := Runs.exec_keeps (fun s : State => s.db.Names tenantId event.source
    event.sourceEventId id) hkeep h₁ hs₂
  exact ingest_duplicate_iff newId h₂

/-! ### One shift

A badge reader reports a clock-in at nine and a clock-out at five, and delivers the clock-out a
second time. -/

/-- The scheduling service answers with the shift from nine to five. -/
def nineToFive : GetShiftAssignments := fun _ _ _ _ => some [⟨1, 32400000, 61200000⟩]

def tapIn : ClockEventDto := ⟨"in-1", 7, .clockIn, 32400000, .badge, none⟩

def tapOut : ClockEventDto := ⟨"out-1", 7, .clockOut, 61200000, .badge, none⟩

def oneShift : List Action :=
  [.read 1 1 tapIn 10 nineToFive, .write 1, .read 2 1 tapOut 11 nineToFive, .write 2]

def afterOneShift : State :=
  { db :=
      { records := [⟨10, 1, 7, 32400000, some 61200000, .badge, some 1, none, none, none⟩]
        ledger := [⟨1, .badge, "in-1", .clockIn, 10⟩, ⟨1, .badge, "out-1", .clockOut, 10⟩] }
    calls := []
    replies := [⟨1, tapIn, .ok ⟨.accepted, 10⟩⟩, ⟨1, tapOut, .ok ⟨.accepted, 10⟩⟩] }

theorem detectForClockIn_tapIn :
    detectForClockIn {} nineToFive 1 7 32400000 = some ⟨some 1, none, none⟩ := by
  norm_num [detectForClockIn, nineToFive, findCoveringShift, minutes, roundedMinutes]

theorem exec_oneShift : Runs.exec (step {}) State.init oneShift = some afterOneShift := by
  simp only [oneShift, Runs.exec_cons, step, prepare, State.init, tapIn, detectForClockIn_tapIn]
  rfl

/-- The clock-out was accepted for record 10, and its second delivery is refused: the employee has
no open record. -/
theorem redelivered_clockOut_refused :
    Runs.exec (step {}) State.init oneShift = some afterOneShift ∧
      afterOneShift.Accepted 1 tapOut.source tapOut.sourceEventId 10 ∧
      ingest {} nineToFive afterOneShift.db afterOneShift.db 1 tapOut 12 =
        (.error (.noOpenAttendanceRecord 7), afterOneShift.db) := by
  have hacc : afterOneShift.Accepted 1 tapOut.source tapOut.sourceEventId 10 :=
    ⟨_, mem_cons_of_mem _ (mem_singleton_self _), rfl, rfl, rfl, rfl⟩
  exact ⟨exec_oneShift, hacc, rfl⟩

/-- The second delivery of the clock-in is reported as a duplicate. -/
theorem redelivered_clockIn_duplicate :
    Redeliverable nineToFive afterOneShift.db afterOneShift.db 1 tapIn ∧
      (ingest {} nineToFive afterOneShift.db afterOneShift.db 1 tapIn 12).1 =
        .ok ⟨.duplicate, 10⟩ := by
  have hred : Redeliverable nineToFive afterOneShift.db afterOneShift.db 1 tapIn := rfl
  have hacc : afterOneShift.Accepted 1 tapIn.source tapIn.sourceEventId 10 :=
    ⟨_, mem_cons_self, rfl, rfl, rfl, rfl⟩
  exact ⟨hred, ((@redelivery_is_duplicate_iff {} oneShift [] [] _ _ _ _ _ tapIn exec_oneShift hacc
    rfl rfl nineToFive 12).2).2 hred⟩

end Workforce.Attendance
