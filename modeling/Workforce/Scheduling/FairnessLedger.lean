import Workforce.Foundations.Runs
import Workforce.Foundations.Tables
import Workforce.Scheduling.FairnessPolicy

/-!
# Publishing schedules and the fairness ledger

The operations of `schedule_service.py` that change schedules and assignments after a solve has
persisted them: `publish_schedule`, `override_assignment`, `apply_marketplace_claim` and
`apply_marketplace_swap`, over the tables `schedules`, `shift_assignments`, `schedule_conflicts` and
`fairness_ledger`. A re-optimization persists a new draft schedule and leaves its source as it was,
so it is the same step as any other solve.

A publish reads the schedule and its assignments, inserts the ledger rows and commits; what other
transactions commit between its reads and its commit is not read again, so the two are steps of
their own. The other operations change rows they find by key, and are one step each.

The ledger is a record of publication. Only a publish writes to it, one row for each assignment it
read, in the name of the employee who held it then, and nothing ever changes or removes a row. So
an assignment that changes hands afterwards keeps the row of its old holder, and the new one gets
none. Since only drafts are published, publishes of a schedule that do not overlap leave one row for
each of its assignments.
-/

namespace Workforce.Scheduling.Ledger

open Tables List

/-! ## The tables -/

inductive ScheduleStatus
  | draft | published | archived
  deriving DecidableEq

/-- A schedule with the fairness policy of its job, as `parse_fairness_config` reads it. -/
structure Schedule where
  id : UUID
  tenantId : UUID
  status : ScheduleStatus
  fairness : FairnessConfig

structure ShiftAssignment where
  id : UUID
  tenantId : UUID
  scheduleId : UUID
  employeeId : UUID
  shiftStart : DateTime
  shiftEnd : DateTime
  assignmentSource : AssignmentSource

/-- A `double_booking` conflict. -/
structure ScheduleConflict where
  tenantId : UUID
  scheduleId : UUID
  affectedEmployeeId : UUID
  deriving DecidableEq

structure FairnessLedger where
  tenantId : UUID
  employeeId : UUID
  scheduleId : UUID
  shiftStart : DateTime
  shiftEnd : DateTime
  isUndesirable : Bool
  deriving DecidableEq

inductive ScheduleError
  | scheduleByIdNotFound (scheduleId : UUID)
  | scheduleNotPublishable (scheduleId : UUID) (status : ScheduleStatus)
  | scheduleArchived (scheduleId : UUID)
  | shiftAssignmentNotFound (scheduleId assignmentId : UUID)
  | shiftAssignmentNotFoundById (assignmentId : UUID)

structure ScheduleDb where
  schedules : List Schedule
  assignments : List ShiftAssignment
  conflicts : List ScheduleConflict
  ledger : List FairnessLedger

namespace ScheduleDb

/-- `select(Schedule).where(tenant_id, id)`. -/
def findSchedule (db : ScheduleDb) (tenantId scheduleId : UUID) : Option Schedule :=
  db.schedules.find? fun s => s.id = scheduleId && s.tenantId = tenantId

/-- `_load_assignment_by_id`. -/
def findAssignment (db : ScheduleDb) (tenantId assignmentId : UUID) : Option ShiftAssignment :=
  db.assignments.find? fun a => a.id = assignmentId && a.tenantId = tenantId

/-- The assignments of a schedule. -/
def assignmentsOf (db : ScheduleDb) (tenantId scheduleId : UUID) : List ShiftAssignment :=
  db.assignments.filter fun a => a.scheduleId = scheduleId && a.tenantId = tenantId

/-- The assignment goes to another employee. -/
def reassign (db : ScheduleDb) (assignmentId employeeId : UUID) (source : AssignmentSource) :
    ScheduleDb :=
  { db with
    assignments := modify ShiftAssignment.id assignmentId
      (fun a => { a with employeeId := employeeId, assignmentSource := source }) db.assignments }

/-- `_record_double_booking_if_any`: the assignment's new holder has another assignment on the
schedule that overlaps it. -/
def recordDoubleBookingIfAny (db : ScheduleDb) (assignment : ShiftAssignment) : ScheduleDb :=
  if db.assignments.any (fun other =>
      other.tenantId = assignment.tenantId && other.scheduleId = assignment.scheduleId &&
      other.employeeId = assignment.employeeId && other.id ≠ assignment.id &&
      assignment.shiftStart.instant < other.shiftEnd.instant &&
      other.shiftStart.instant < assignment.shiftEnd.instant) then
    { db with
      conflicts := db.conflicts ++
        [⟨assignment.tenantId, assignment.scheduleId, assignment.employeeId⟩] }
  else db

end ScheduleDb

/-! ## The operations -/

/-- `override_assignment`. -/
def overrideAssignment (db : ScheduleDb) (tenantId scheduleId assignmentId newEmployeeId : UUID) :
    Except ScheduleError ScheduleDb :=
  match db.findSchedule tenantId scheduleId with
  | none => .error (.scheduleByIdNotFound scheduleId)
  | some schedule =>
    if schedule.status = .archived then .error (.scheduleArchived scheduleId)
    else
      match (db.assignmentsOf tenantId scheduleId).find? fun a => a.id = assignmentId with
      | none => .error (.shiftAssignmentNotFound scheduleId assignmentId)
      | some assignment =>
        .ok ((db.reassign assignmentId newEmployeeId .manualOverride).recordDoubleBookingIfAny
          { assignment with employeeId := newEmployeeId, assignmentSource := .manualOverride })

/-- `apply_marketplace_claim`; `bid` says that the event came from a closed bid opportunity. -/
def applyMarketplaceClaim (db : ScheduleDb) (tenantId shiftAssignmentId newEmployeeId : UUID)
    (bid : Bool) : Except ScheduleError ScheduleDb :=
  let source : AssignmentSource := if bid then .bid else .claim
  match db.findAssignment tenantId shiftAssignmentId with
  | none => .error (.shiftAssignmentNotFoundById shiftAssignmentId)
  | some assignment =>
    .ok ((db.reassign shiftAssignmentId newEmployeeId source).recordDoubleBookingIfAny
      { assignment with employeeId := newEmployeeId, assignmentSource := source })

/-- `apply_marketplace_swap`: both sides or neither. -/
def applyMarketplaceSwap (db : ScheduleDb) (tenantId initiatorShiftId initiatorEmployeeId
    targetShiftId targetEmployeeId : UUID) : Except ScheduleError ScheduleDb :=
  match db.findAssignment tenantId initiatorShiftId, db.findAssignment tenantId targetShiftId with
  | none, _ => .error (.shiftAssignmentNotFoundById initiatorShiftId)
  | some _, none => .error (.shiftAssignmentNotFoundById targetShiftId)
  | some initiator, some target =>
    let db := (db.reassign initiatorShiftId targetEmployeeId .swap).reassign targetShiftId
      initiatorEmployeeId .swap
    -- an event that names one shift twice loads one row, and the second holder is the last
    let newHolder := if initiatorShiftId = targetShiftId then initiatorEmployeeId
      else targetEmployeeId
    let db := db.recordDoubleBookingIfAny
      { initiator with employeeId := newHolder, assignmentSource := .swap }
    .ok (db.recordDoubleBookingIfAny
      { target with employeeId := initiatorEmployeeId, assignmentSource := .swap })

/-- The reads of `publish_schedule`. -/
def publishCheck (db : ScheduleDb) (tenantId scheduleId : UUID) :
    Except ScheduleError (Schedule × List ShiftAssignment) :=
  match db.findSchedule tenantId scheduleId with
  | none => .error (.scheduleByIdNotFound scheduleId)
  | some schedule =>
    if schedule.status ≠ .draft then
      .error (.scheduleNotPublishable scheduleId schedule.status)
    else .ok (schedule, db.assignmentsOf tenantId scheduleId)

/-- The row that a publish inserts for an assignment. -/
def ledgerRow (schedule : Schedule) (assignment : ShiftAssignment) : FairnessLedger :=
  { tenantId := schedule.tenantId
    employeeId := assignment.employeeId
    scheduleId := schedule.id
    shiftStart := assignment.shiftStart
    shiftEnd := assignment.shiftEnd
    isUndesirable := schedule.fairness.isUndesirable assignment.shiftStart }

/-- The writes of `publish_schedule`: the ledger rows, then the status of the schedule. -/
def publishCommit (db : ScheduleDb) (schedule : Schedule) (assignments : List ShiftAssignment) :
    ScheduleDb :=
  { db with
    ledger := db.ledger ++ assignments.map (ledgerRow schedule)
    schedules := modify Schedule.id schedule.id (fun s => { s with status := .published })
      db.schedules }

/-- One assignment of a solve's result, with its shift. -/
structure SolvedAssignment where
  id : UUID
  employeeId : UUID
  start : DateTime
  fin : DateTime
  assignmentSource : AssignmentSource

/-- `_persist_schedule`: a draft with the assignments of the result. The starts and ends go through
`timestamptz` columns. -/
def persistSchedule (db : ScheduleDb) (tenantId scheduleId : UUID) (fairness : FairnessConfig)
    (result : List SolvedAssignment) : ScheduleDb :=
  { db with
    schedules := db.schedules ++ [⟨scheduleId, tenantId, .draft, fairness⟩]
    assignments := db.assignments ++ result.map fun a =>
      ⟨a.id, tenantId, scheduleId, a.employeeId, a.start.toUtc, a.fin.toUtc, a.assignmentSource⟩ }

/-! ## Runs -/

/-- A publish between its reads and its commit. -/
structure PublishCall where
  callId : ℕ
  schedule : Schedule
  assignments : List ShiftAssignment

/-- The tables, the publishes in progress, and the publishes that have committed, with what they
read. The last are for the statements; no operation reads them. -/
structure State where
  db : ScheduleDb
  calls : List PublishCall
  publications : List (Schedule × List ShiftAssignment)

def State.init : State := ⟨⟨[], [], [], []⟩, [], []⟩

inductive Action
  /-- A solve, first or again, persists a draft. -/
  | persist (tenantId scheduleId : UUID) (fairness : FairnessConfig)
      (result : List SolvedAssignment)
  | publishRead (callId : ℕ) (tenantId scheduleId : UUID)
  | publishWrite (callId : ℕ)
  /-- The event could not be published: the transaction is rolled back. -/
  | publishFail (callId : ℕ)
  | override (tenantId scheduleId assignmentId newEmployeeId : UUID)
  | claim (tenantId shiftAssignmentId newEmployeeId : UUID) (bid : Bool)
  | swap (tenantId initiatorShiftId initiatorEmployeeId targetShiftId targetEmployeeId : UUID)

/-- An operation that throws changes nothing. -/
def State.run (s : State) (result : Except ScheduleError ScheduleDb) : State :=
  match result with
  | .error _ => s
  | .ok db => { s with db := db }

/-- One step of one operation. A fresh schedule and fresh assignments have fresh identifiers. -/
def step (s : State) : Action → Option State
  | .persist tenantId scheduleId fairness result =>
    if s.db.schedules.any (fun c => c.id = scheduleId) ||
        result.any (fun a => s.db.assignments.any fun b => b.id = a.id) ||
        !decide (result.map SolvedAssignment.id).Nodup then none
    else some { s with db := persistSchedule s.db tenantId scheduleId fairness result }
  | .publishRead callId tenantId scheduleId =>
    match publishCheck s.db tenantId scheduleId with
    | .error _ => some s
    | .ok (schedule, assignments) =>
      some { s with calls := s.calls ++ [⟨callId, schedule, assignments⟩] }
  | .publishWrite callId =>
    match lookup PublishCall.callId callId s.calls with
    | none => none
    | some c =>
      some
        { db := publishCommit s.db c.schedule c.assignments
          calls := s.calls.filter fun c => c.callId ≠ callId
          publications := s.publications ++ [(c.schedule, c.assignments)] }
  | .publishFail callId => some { s with calls := s.calls.filter fun c => c.callId ≠ callId }
  | .override tenantId scheduleId assignmentId newEmployeeId =>
    some (s.run (overrideAssignment s.db tenantId scheduleId assignmentId newEmployeeId))
  | .claim tenantId shiftAssignmentId newEmployeeId bid =>
    some (s.run (applyMarketplaceClaim s.db tenantId shiftAssignmentId newEmployeeId bid))
  | .swap tenantId initiatorShiftId initiatorEmployeeId targetShiftId targetEmployeeId =>
    some (s.run (applyMarketplaceSwap s.db tenantId initiatorShiftId initiatorEmployeeId
      targetShiftId targetEmployeeId))

/-! ## The statements -/

/-- What of an assignment no operation changes. -/
def ShiftAssignment.shift (a : ShiftAssignment) : UUID × UUID × UUID × DateTime × DateTime :=
  (a.id, a.tenantId, a.scheduleId, a.shiftStart, a.shiftEnd)

/-- A publication is as the tables still have it, up to who holds the assignments: its schedule is
published, and has the assignments the publish read, with their shifts. -/
structure Publication (db : ScheduleDb) (p : Schedule × List ShiftAssignment) : Prop where
  published : ∃ s ∈ db.schedules, s.id = p.1.id ∧ s.tenantId = p.1.tenantId ∧
    s.status = .published
  assignments : p.2.map ShiftAssignment.shift =
    (db.assignmentsOf p.1.tenantId p.1.id).map ShiftAssignment.shift

/-- No publish of a schedule begins while another one of it is in progress. -/
def Apart (s : State) : Action → Prop
  | .publishRead _ _ scheduleId => ∀ c ∈ s.calls, c.schedule.id ≠ scheduleId
  | _ => True

instance (s : State) (a : Action) : Decidable (Apart s a) := by
  cases a <;> unfold Apart <;> infer_instance

/-- The rows of the schedule are those of one reading of its assignments, a row each. -/
def OneRowEach (s : State) (schedule : Schedule) : Prop :=
  ∃ p ∈ s.publications,
    s.db.ledger.filter (·.scheduleId = schedule.id) = p.2.map (ledgerRow p.1) ∧
    p.2.map ShiftAssignment.shift =
      (s.db.assignmentsOf schedule.tenantId schedule.id).map ShiftAssignment.shift

/-- The rows of an employee for one shift of a schedule. -/
def rowsFor (db : ScheduleDb) (employeeId scheduleId : UUID) (start fin : DateTime) :
    List FairnessLedger :=
  db.ledger.filter fun r => r.employeeId = employeeId && r.scheduleId = scheduleId &&
    r.shiftStart = start && r.shiftEnd = fin

/-- The assignments an employee holds now for one shift of a published schedule. -/
def heldNow (db : ScheduleDb) (employeeId scheduleId : UUID) (start fin : DateTime) :
    List ShiftAssignment :=
  db.assignments.filter fun a => a.employeeId = employeeId && a.scheduleId = scheduleId &&
    a.shiftStart = start && a.shiftEnd = fin &&
    db.schedules.any fun s => s.id = scheduleId && s.status = .published

/-- Every employee has at most one row for each assignment that employee holds now. -/
def CountsCurrent (db : ScheduleDb) : Prop :=
  ∀ employeeId scheduleId start fin,
    (rowsFor db employeeId scheduleId start fin).length ≤
      (heldNow db employeeId scheduleId start fin).length

/-! ## Reassignments leave the shifts and the ledger alone -/

/-- The tables differ in who holds the assignments, and in the conflicts, at most. -/
structure SameShifts (db db' : ScheduleDb) : Prop where
  schedules : db'.schedules = db.schedules
  shifts : db'.assignments.map ShiftAssignment.shift = db.assignments.map ShiftAssignment.shift
  ledger : db'.ledger = db.ledger

theorem SameShifts.refl (db : ScheduleDb) : SameShifts db db := ⟨rfl, rfl, rfl⟩

theorem SameShifts.trans {db₁ db₂ db₃ : ScheduleDb} (h₁ : SameShifts db₁ db₂)
    (h₂ : SameShifts db₂ db₃) : SameShifts db₁ db₃ :=
  ⟨h₂.schedules.trans h₁.schedules, h₂.shifts.trans h₁.shifts, h₂.ledger.trans h₁.ledger⟩

theorem sameShifts_reassign (db : ScheduleDb) (assignmentId employeeId : UUID)
    (source : AssignmentSource) : SameShifts db (db.reassign assignmentId employeeId source) where
  schedules := rfl
  shifts := by
    apply map_modify
    exact fun _ => rfl
  ledger := rfl

theorem sameShifts_recordDoubleBooking (db : ScheduleDb) (assignment : ShiftAssignment) :
    SameShifts db (db.recordDoubleBookingIfAny assignment) := by
  unfold ScheduleDb.recordDoubleBookingIfAny
  split
  · exact ⟨rfl, rfl, rfl⟩
  · exact .refl db

variable {db db' : ScheduleDb}

theorem sameShifts_override {tenantId scheduleId assignmentId newEmployeeId : UUID}
    (h : overrideAssignment db tenantId scheduleId assignmentId newEmployeeId = .ok db') :
    SameShifts db db' := by
  unfold overrideAssignment at h
  split at h
  · cases h
  · split at h
    · cases h
    · split at h
      · cases h
      · cases h
        exact (sameShifts_reassign _ _ _ _).trans (sameShifts_recordDoubleBooking _ _)

theorem sameShifts_claim {tenantId shiftAssignmentId newEmployeeId : UUID} {bid : Bool}
    (h : applyMarketplaceClaim db tenantId shiftAssignmentId newEmployeeId bid = .ok db') :
    SameShifts db db' := by
  unfold applyMarketplaceClaim at h
  simp only at h
  split at h
  · cases h
  · cases h
    exact (sameShifts_reassign _ _ _ _).trans (sameShifts_recordDoubleBooking _ _)

theorem sameShifts_swap
    {tenantId initiatorShiftId initiatorEmployeeId targetShiftId targetEmployeeId : UUID}
    (h : applyMarketplaceSwap db tenantId initiatorShiftId initiatorEmployeeId targetShiftId
      targetEmployeeId = .ok db') : SameShifts db db' := by
  unfold applyMarketplaceSwap at h
  split at h
  · cases h
  · cases h
  · cases h
    refine (sameShifts_reassign db initiatorShiftId targetEmployeeId .swap).trans ?_
    refine (sameShifts_reassign _ targetShiftId initiatorEmployeeId .swap).trans ?_
    exact (sameShifts_recordDoubleBooking _ _).trans (sameShifts_recordDoubleBooking _ _)

theorem map_shift_assignmentsOf (db : ScheduleDb) (tenantId scheduleId : UUID) :
    (db.assignmentsOf tenantId scheduleId).map ShiftAssignment.shift =
      (db.assignments.map ShiftAssignment.shift).filter fun x =>
        x.2.2.1 = scheduleId && x.2.1 = tenantId := by
  rw [ScheduleDb.assignmentsOf, filter_map]
  rfl

theorem SameShifts.assignmentsOf (h : SameShifts db db') (tenantId scheduleId : UUID) :
    (db'.assignmentsOf tenantId scheduleId).map ShiftAssignment.shift =
      (db.assignmentsOf tenantId scheduleId).map ShiftAssignment.shift := by
  rw [map_shift_assignmentsOf, map_shift_assignmentsOf, h.shifts]

variable {tenantId scheduleId : UUID}

theorem assignmentsOf_persist {db : ScheduleDb} {fairness : FairnessConfig}
    {result : List SolvedAssignment} {t c : UUID} (hne : c ≠ scheduleId) :
    (persistSchedule db tenantId scheduleId fairness result).assignmentsOf t c =
      db.assignmentsOf t c := by
  have hnone : (result.map fun a => (⟨a.id, tenantId, scheduleId, a.employeeId, a.start.toUtc,
      a.fin.toUtc, a.assignmentSource⟩ : ShiftAssignment)).filter
        (fun a => a.scheduleId = c && a.tenantId = t) = [] := by
    rw [filter_eq_nil_iff]
    intro a ha
    obtain ⟨b, -, rfl⟩ := mem_map.1 ha
    simp [hne.symm]
  rw [ScheduleDb.assignmentsOf, persistSchedule, filter_append, hnone, append_nil]
  rfl

/-! ## The invariant -/

/-- A call has read the assignments its schedule has, up to who holds them. -/
structure Reads (db : ScheduleDb) (c : PublishCall) : Prop where
  schedule : ∃ s ∈ db.schedules, s.id = c.schedule.id ∧ s.tenantId = c.schedule.tenantId
  assignments : c.assignments.map ShiftAssignment.shift =
    (db.assignmentsOf c.schedule.tenantId c.schedule.id).map ShiftAssignment.shift

structure Inv (s : State) : Prop where
  calls : ∀ c ∈ s.calls, Reads s.db c
  publications : ∀ p ∈ s.publications, Publication s.db p
  ledger : s.db.ledger = s.publications.flatMap fun p => p.2.map (ledgerRow p.1)

theorem inv_init : Inv State.init := by
  constructor <;> simp [State.init]

variable {s : State}

theorem Inv.sameShifts (h : Inv s) {db : ScheduleDb} (hsame : SameShifts s.db db) :
    Inv { s with db := db } where
  calls c hc := by
    obtain ⟨hschedule, hassign⟩ := h.calls c hc
    exact ⟨hsame.schedules ▸ hschedule, hassign.trans (hsame.assignmentsOf _ _).symm⟩
  publications p hp := by
    obtain ⟨hpub, hassign⟩ := h.publications p hp
    exact ⟨hsame.schedules ▸ hpub, hassign.trans (hsame.assignmentsOf _ _).symm⟩
  ledger := hsame.ledger.trans h.ledger

theorem Inv.persist (h : Inv s) {fairness : FairnessConfig} {result : List SolvedAssignment}
    (hfresh : ∀ c ∈ s.db.schedules, c.id ≠ scheduleId) :
    Inv { s with db := persistSchedule s.db tenantId scheduleId fairness result } where
  calls c hc := by
    obtain ⟨⟨sched, hsched, hid, htenant⟩, hassign⟩ := h.calls c hc
    refine ⟨⟨sched, mem_append_left _ hsched, hid, htenant⟩, ?_⟩
    rw [assignmentsOf_persist (hid ▸ hfresh sched hsched)]
    exact hassign
  publications p hp := by
    obtain ⟨⟨sched, hsched, hid, hpub⟩, hassign⟩ := h.publications p hp
    refine ⟨⟨sched, mem_append_left _ hsched, hid, hpub⟩, ?_⟩
    rw [assignmentsOf_persist (hid ▸ hfresh sched hsched)]
    exact hassign
  ledger := h.ledger

theorem exists_published {schedules : List Schedule} {id id' tenantId : UUID} {s : Schedule}
    (hs : s ∈ schedules) (hid : s.id = id') (htenant : s.tenantId = tenantId)
    (h : s.status = .published ∨ id' = id) :
    ∃ s' ∈ modify Schedule.id id (fun s => { s with status := .published }) schedules,
      s'.id = id' ∧ s'.tenantId = tenantId ∧ s'.status = .published := by
  by_cases heq : s.id = id
  · exact ⟨{ s with status := .published }, mem_modify.2 (.inl ⟨s, hs, heq, rfl⟩), hid, htenant,
      rfl⟩
  · refine ⟨s, mem_modify.2 (.inr ⟨hs, heq⟩), hid, htenant, ?_⟩
    exact h.resolve_right fun h => heq (hid.trans h)

theorem Inv.publish (h : Inv s) {c : PublishCall} (hc : c ∈ s.calls) :
    Inv { s with
      db := publishCommit s.db c.schedule c.assignments
      publications := s.publications ++ [(c.schedule, c.assignments)] } where
  calls c' hc' := by
    obtain ⟨⟨sched, hsched, hid, htenant⟩, hassign⟩ := h.calls c' hc'
    refine ⟨?_, hassign⟩
    by_cases heq : sched.id = c.schedule.id
    · refine ⟨{ sched with status := .published }, ?_, hid, htenant⟩
      exact mem_modify.2 (.inl ⟨sched, hsched, heq, rfl⟩)
    · exact ⟨sched, mem_modify.2 (.inr ⟨hsched, heq⟩), hid, htenant⟩
  publications p hp := by
    rcases Tables.mem_concat.1 hp with hp | rfl
    · obtain ⟨⟨sched, hsched, hid, htenant, hpub⟩, hassign⟩ := h.publications p hp
      exact ⟨exists_published hsched hid htenant (.inl hpub), hassign⟩
    · obtain ⟨⟨sched, hsched, hid, htenant⟩, hassign⟩ := h.calls c hc
      exact ⟨exists_published hsched hid htenant (.inr rfl), hassign⟩
  ledger := by
    rw [flatMap_append, ← h.ledger]
    simp [publishCommit]

theorem publishCheck_eq_ok {db : ScheduleDb} {schedule : Schedule}
    {assignments : List ShiftAssignment}
    (h : publishCheck db tenantId scheduleId = .ok (schedule, assignments)) :
    schedule ∈ db.schedules ∧ schedule.id = scheduleId ∧ schedule.tenantId = tenantId ∧
      schedule.status = .draft ∧ assignments = db.assignmentsOf tenantId scheduleId := by
  unfold publishCheck at h
  split at h
  · cases h
  · rename_i found hfind
    split at h
    · cases h
    · rename_i hdraft
      cases h
      have hp := find?_some hfind
      simp only [Bool.and_eq_true, decide_eq_true_eq] at hp
      exact ⟨mem_of_find?_eq_some hfind, hp.1, hp.2, not_not.1 hdraft, rfl⟩

/-! ## What a step does -/

/-- A step persists a draft, begins, ends or gives up a publish, or leaves the shifts alone. -/
inductive Move (s : State) : Action → State → Prop
  | persist {tenantId scheduleId : UUID} {fairness : FairnessConfig}
      {result : List SolvedAssignment} (hfresh : ∀ c ∈ s.db.schedules, c.id ≠ scheduleId) :
      Move s (.persist tenantId scheduleId fairness result)
        { s with db := persistSchedule s.db tenantId scheduleId fairness result }
  | read {callId : ℕ} {tenantId scheduleId : UUID} {schedule : Schedule}
      {assignments : List ShiftAssignment}
      (hcheck : publishCheck s.db tenantId scheduleId = .ok (schedule, assignments)) :
      Move s (.publishRead callId tenantId scheduleId)
        { s with calls := s.calls ++ [⟨callId, schedule, assignments⟩] }
  | write {callId : ℕ} {c : PublishCall}
      (hlookup : lookup PublishCall.callId callId s.calls = some c) :
      Move s (.publishWrite callId)
        { db := publishCommit s.db c.schedule c.assignments
          calls := s.calls.filter fun c => c.callId ≠ callId
          publications := s.publications ++ [(c.schedule, c.assignments)] }
  | fail {callId : ℕ} :
      Move s (.publishFail callId) { s with calls := s.calls.filter fun c => c.callId ≠ callId }
  | reassign {a : Action} {db : ScheduleDb} (ha : ∀ callId, a ≠ .publishWrite callId)
      (hsame : SameShifts s.db db) : Move s a { s with db := db }

variable {a : Action} {t : State}

theorem Move.run (ha : ∀ callId, a ≠ .publishWrite callId)
    {result : Except ScheduleError ScheduleDb}
    (hsame : ∀ db, result = .ok db → SameShifts s.db db) : Move s a (s.run result) := by
  cases result with
  | error e => exact .reassign ha (.refl _)
  | ok db => exact .reassign ha (hsame db rfl)

theorem move_of_step (hstep : step s a = some t) : Move s a t := by
  cases a with
  | persist tenantId scheduleId fairness result =>
    simp only [step] at hstep
    split at hstep
    · cases hstep
    · rename_i hfresh
      cases hstep
      simp only [Bool.or_eq_true, any_eq_true, decide_eq_true_eq, not_or] at hfresh
      exact .persist fun c hc hid => hfresh.1.1 ⟨c, hc, hid⟩
  | publishRead callId tenantId scheduleId =>
    simp only [step] at hstep
    split at hstep
    · cases hstep
      exact .reassign (fun _ => Action.noConfusion) (.refl _)
    · rename_i hcheck
      cases hstep
      exact .read hcheck
  | publishWrite callId =>
    simp only [step] at hstep
    split at hstep
    · cases hstep
    · rename_i hlookup
      cases hstep
      exact .write hlookup
  | publishFail callId =>
    cases hstep
    exact .fail
  | override tenantId scheduleId assignmentId newEmployeeId =>
    cases hstep
    exact .run (fun _ => Action.noConfusion) fun _ => sameShifts_override
  | claim tenantId shiftAssignmentId newEmployeeId bid =>
    cases hstep
    exact .run (fun _ => Action.noConfusion) fun _ => sameShifts_claim
  | swap tenantId initiatorShiftId initiatorEmployeeId targetShiftId targetEmployeeId =>
    cases hstep
    exact .run (fun _ => Action.noConfusion) fun _ => sameShifts_swap

theorem inv_move (h : Inv s) (hmove : Move s a t) : Inv t := by
  cases hmove with
  | persist hfresh => exact h.persist hfresh
  | @read callId tenantId scheduleId schedule assignments hcheck =>
    obtain ⟨hmem, rfl, rfl, -, rfl⟩ := publishCheck_eq_ok hcheck
    refine ⟨fun c hc => ?_, h.publications, h.ledger⟩
    rcases Tables.mem_concat.1 hc with hc | rfl
    · exact h.calls c hc
    · exact ⟨⟨schedule, hmem, rfl, rfl⟩, rfl⟩
  | write hlookup =>
    obtain ⟨hcalls, hpubs, hledger⟩ := h.publish (mem_of_lookup hlookup).1
    exact ⟨fun c hc => hcalls c (mem_of_mem_filter hc), hpubs, hledger⟩
  | fail => exact ⟨fun c hc => h.calls c (mem_of_mem_filter hc), h.publications, h.ledger⟩
  | reassign ha hsame => exact h.sameShifts hsame

/-! ## What the ledger holds -/

theorem Move.ledger (ha : ∀ callId, a ≠ .publishWrite callId) (hmove : Move s a t) :
    t.db.ledger = s.db.ledger := by
  cases hmove with
  | persist | read | fail => rfl
  | write => exact absurd rfl (ha _)
  | reassign ha hsame => exact hsame.ledger

theorem Move.mem_calls (hmove : Move s a t) {c : PublishCall} (hc : c ∈ t.calls) : c ∈ s.calls ∨
    publishCheck s.db c.schedule.tenantId c.schedule.id = .ok (c.schedule, c.assignments) := by
  cases hmove with
  | persist | reassign => exact .inl hc
  | write | fail => exact .inl (mem_of_mem_filter hc)
  | read hcheck =>
    rcases Tables.mem_concat.1 hc with hc | rfl
    · exact .inl hc
    · obtain ⟨-, rfl, rfl, -, -⟩ := publishCheck_eq_ok hcheck
      exact .inr hcheck

theorem Move.mem_publications (hmove : Move s a t) {p : Schedule × List ShiftAssignment}
    (hp : p ∈ t.publications) :
    p ∈ s.publications ∨ ∃ c ∈ s.calls, p = (c.schedule, c.assignments) := by
  cases hmove with
  | persist | read | fail | reassign => exact .inl hp
  | write hlookup =>
    obtain hp | hp := mem_append.1 hp
    · exact .inl hp
    · exact .inr ⟨_, (mem_of_lookup hlookup).1, mem_singleton.1 hp⟩

/-- Some state of the run answered the reads of a publish with this. -/
def ReadIn (as : List Action) (p : Schedule × List ShiftAssignment) : Prop :=
  ∃ bs t, bs <+: as ∧ Runs.exec step State.init bs = some t ∧
    publishCheck t.db p.1.tenantId p.1.id = .ok p

theorem ReadIn.mono {as : List Action} {p : Schedule × List ShiftAssignment} (h : ReadIn as p)
    (bs : List Action) : ReadIn (as ++ bs) p := by
  obtain ⟨cs, t, hcs, ht, hp⟩ := h
  exact ⟨cs, t, hcs.trans (prefix_append _ _), ht, hp⟩

/-- What the publishes of a run work with, they read in the run. The induction is on the run, its
last step taken off. -/
theorem readIn_of_exec {as : List Action} (hs : Runs.exec step State.init as = some s) :
    (∀ c ∈ s.calls, ReadIn as (c.schedule, c.assignments)) ∧
      ∀ p ∈ s.publications, ReadIn as p := by
  induction as using reverseRecOn generalizing s with
  | nil =>
    cases hs
    simp [State.init]
  | append_singleton as a ih =>
    obtain ⟨r, hr, hlast⟩ := Runs.exec_append_eq_some.1 hs
    obtain ⟨u, hstep, hu⟩ := Runs.exec_cons_eq_some.1 hlast
    cases hu
    obtain ⟨hcalls, hpubs⟩ := ih hr
    constructor
    · intro c hc
      obtain hc | hcheck := (move_of_step hstep).mem_calls hc
      · exact (hcalls c hc).mono [a]
      · exact ⟨as, r, prefix_append _ _, hr, hcheck⟩
    · intro p hp
      obtain hp | ⟨c, hc, rfl⟩ := (move_of_step hstep).mem_publications hp
      · exact (hpubs p hp).mono [a]
      · exact (hcalls c hc).mono [a]

/-! ## Publishes that do not overlap -/

/-- What moreover holds when the publishes of a schedule are apart: each is published once. -/
structure ApartInv (s : State) : Prop extends Inv s where
  ids : (s.db.schedules.map Schedule.id).Nodup
  apart : (s.calls.map (·.schedule.id)).Nodup
  /-- The schedule of a call is still a draft. -/
  drafts : ∀ c ∈ s.calls, ∀ p ∈ s.publications, p.1.id ≠ c.schedule.id
  once : (s.publications.map (·.1.id)).Nodup
  published : ∀ schedule ∈ s.db.schedules, schedule.status = .published →
    ∃ p ∈ s.publications, p.1.id = schedule.id

/-- Of a schedule that is read as a draft nothing has been published. -/
theorem ApartInv.not_published (h : ApartInv s) {schedule : Schedule}
    (hmem : schedule ∈ s.db.schedules) (hdraft : schedule.status = .draft) :
    ∀ p ∈ s.publications, p.1.id ≠ schedule.id := by
  intro p hp hid
  obtain ⟨published, hpublished, hid', -, hstatus⟩ := (h.publications p hp).published
  obtain rfl := inj_on_of_nodup_map h.ids hpublished hmem (hid'.trans hid)
  rw [hdraft] at hstatus
  cases hstatus

theorem ApartInv.publish (h : ApartInv s) {callId : ℕ} {c : PublishCall}
    (hc : lookup PublishCall.callId callId s.calls = some c) :
    ApartInv
      { db := publishCommit s.db c.schedule c.assignments
        calls := s.calls.filter fun c => c.callId ≠ callId
        publications := s.publications ++ [(c.schedule, c.assignments)] } := by
  obtain ⟨hmem, hid⟩ := mem_of_lookup hc
  obtain ⟨hcalls, hpubs, hledger⟩ := h.toInv.publish hmem
  refine ⟨⟨fun c' hc' => hcalls c' (mem_of_mem_filter hc'), hpubs, hledger⟩, ?_, ?_, ?_, ?_, ?_⟩
  · have hids : (publishCommit s.db c.schedule c.assignments).schedules.map Schedule.id =
        s.db.schedules.map Schedule.id := by
      apply map_key_modify
      exact fun _ => rfl
    exact hids ▸ h.ids
  · exact h.apart.sublist (filter_sublist.map _)
  · -- the other calls are of other schedules
    intro c' hc' p hp
    obtain ⟨hmem', hne⟩ := mem_filter.1 hc'
    rcases Tables.mem_concat.1 hp with hp | rfl
    · exact h.drafts c' hmem' p hp
    · intro heq
      obtain rfl := inj_on_of_nodup_map h.apart hmem hmem' heq
      exact absurd hid (of_decide_eq_true hne)
  · rw [map_append, nodup_append]
    refine ⟨h.once, nodup_singleton _, ?_⟩
    rintro _ hp _ hlast rfl
    obtain ⟨p, hp, hpid⟩ := mem_map.1 hp
    exact h.drafts c hmem p hp (hpid.trans (mem_singleton.1 hlast))
  · intro schedule hschedule hstatus
    rcases mem_modify.1 hschedule with ⟨old, hold, hkey, rfl⟩ | ⟨hold, -⟩
    · exact ⟨_, mem_append_right _ mem_cons_self, hkey.symm⟩
    · obtain ⟨p, hp, hpid⟩ := h.published schedule hold hstatus
      exact ⟨p, mem_append_left _ hp, hpid⟩

theorem apartInv_move (h : ApartInv s) (hok : Apart s a) (hmove : Move s a t) : ApartInv t := by
  have hinv := inv_move h.toInv hmove
  cases hmove with
  | persist hfresh =>
    refine { hinv with ids := ?_, apart := h.apart, drafts := h.drafts, once := h.once,
                       published := ?_ }
    · show ((s.db.schedules ++ [_]).map Schedule.id).Nodup
      rw [map_append, nodup_append]
      refine ⟨h.ids, nodup_singleton _, ?_⟩
      rintro _ hc _ hlast rfl
      obtain ⟨c, hc, hid⟩ := mem_map.1 hc
      exact hfresh c hc (hid.trans (mem_singleton.1 hlast))
    · intro schedule hschedule hstatus
      rcases Tables.mem_concat.1 hschedule with hold | rfl
      · exact h.published schedule hold hstatus
      · cases hstatus
  | read hcheck =>
    obtain ⟨hmem, rfl, rfl, hdraft, rfl⟩ := publishCheck_eq_ok hcheck
    refine { hinv with ids := h.ids, apart := ?_, drafts := ?_, once := h.once,
                       published := h.published }
    · rw [map_append, nodup_append]
      refine ⟨h.apart, nodup_singleton _, ?_⟩
      rintro _ hc _ hlast rfl
      obtain ⟨c, hc, hid⟩ := mem_map.1 hc
      exact hok c hc (hid.trans (mem_singleton.1 hlast))
    · intro c hc
      rcases Tables.mem_concat.1 hc with hc | rfl
      · exact h.drafts c hc
      · exact h.not_published hmem hdraft
  | write hlookup => exact h.publish hlookup
  | fail =>
    exact { hinv with
      ids := h.ids
      apart := h.apart.sublist (filter_sublist.map _)
      drafts := fun c hc => h.drafts c (mem_of_mem_filter hc)
      once := h.once
      published := h.published }
  | reassign ha hsame =>
    exact { hinv with
      ids := hsame.schedules ▸ h.ids
      apart := h.apart
      drafts := h.drafts
      once := h.once
      published := hsame.schedules ▸ h.published }

/-- Of publications with different schedules, the rows of a schedule are those of its own. -/
theorem filter_flatMap_ledgerRow {publications : List (Schedule × List ShiftAssignment)}
    (hnodup : (publications.map (·.1.id)).Nodup) {p : Schedule × List ShiftAssignment}
    (hp : p ∈ publications) :
    (publications.flatMap fun p => p.2.map (ledgerRow p.1)).filter (·.scheduleId = p.1.id) =
      p.2.map (ledgerRow p.1) := by
  have hrows : ∀ q : Schedule × List ShiftAssignment,
      (q.2.map (ledgerRow q.1)).filter (·.scheduleId = p.1.id) =
        if q.1.id = p.1.id then q.2.map (ledgerRow q.1) else [] := by
    intro q
    split
    · rename_i heq
      refine filter_eq_self.2 fun r hr => decide_eq_true ?_
      obtain ⟨a, -, rfl⟩ := mem_map.1 hr
      exact heq
    · rename_i hne
      refine filter_eq_nil_iff.2 fun r hr heq => hne ?_
      obtain ⟨a, -, rfl⟩ := mem_map.1 hr
      exact of_decide_eq_true heq
  induction publications with
  | nil => cases hp
  | cons q publications ih =>
    obtain ⟨hfirst, hrest⟩ := nodup_cons.1 hnodup
    rw [flatMap_cons, filter_append, hrows]
    rcases mem_cons.1 hp with rfl | hp
    · rw [if_pos rfl, filter_flatMap]
      refine append_right_eq_self.2 (flatMap_eq_nil_iff.2 fun q hq => ?_)
      rw [hrows, if_neg fun heq => hfirst (mem_map.2 ⟨q, hq, heq⟩)]
    · rw [if_neg fun heq => hfirst (mem_map.2 ⟨p, hp, heq.symm⟩), ih hrest hp]
      rfl

theorem ApartInv.oneRowEach (h : ApartInv s) {schedule : Schedule}
    (hmem : schedule ∈ s.db.schedules) (hstatus : schedule.status = .published) :
    OneRowEach s schedule := by
  obtain ⟨p, hp, hid⟩ := h.published schedule hmem hstatus
  obtain ⟨⟨found, hfound, hid', htenant, -⟩, hassign⟩ := h.publications p hp
  obtain rfl := inj_on_of_nodup_map h.ids hfound hmem (hid'.trans hid)
  refine ⟨p, hp, ?_, ?_⟩
  · rw [h.ledger, ← hid, filter_flatMap_ledgerRow h.once hp]
  · rw [hassign, htenant, hid]

/-- **The ledger is a record of publication.** In every state of every run the ledger is, publish by
publish, one row for each assignment the publish read, in the name of the employee who held it
then. The schedules of these publishes are published, with the same shifts. No other step writes to
the ledger: an assignment that changes hands keeps the row it has. Where no two publishes of a
schedule overlap, every published schedule has exactly one row for each of its assignments. -/
theorem ledger_records_publications {as : List Action} {s : State}
    (hs : Runs.exec step State.init as = some s) :
    s.db.ledger = s.publications.flatMap (fun p => p.2.map (ledgerRow p.1)) ∧
      (∀ p ∈ s.publications, ReadIn as p ∧ Publication s.db p) ∧
      (∀ a t, (∀ callId, a ≠ .publishWrite callId) → step s a = some t →
        t.db.ledger = s.db.ledger) ∧
      (Runs.Meets step Apart State.init as → ∀ schedule ∈ s.db.schedules,
        schedule.status = .published → OneRowEach s schedule) := by
  have hinv : Inv s :=
    Runs.exec_keeps Inv (fun _ _ _ h hstep => inv_move h (move_of_step hstep)) inv_init hs
  refine ⟨hinv.ledger, fun p hp => ?_, fun a t ha hstep => (move_of_step hstep).ledger ha,
    fun hmeets schedule hmem hstatus => ?_⟩
  · exact ⟨(readIn_of_exec hs).2 p hp, hinv.publications p hp⟩
  · have hinit : ApartInv State.init :=
      ⟨inv_init, nodup_nil, nodup_nil, forall_mem_nil _, nodup_nil, forall_mem_nil _⟩
    have hapart : ApartInv s := Runs.exec_invariant
      (fun _ _ _ h hok hstep => apartInv_move h hok (move_of_step hstep)) hinit hmeets hs
    exact hapart.oneRowEach hmem hstatus

/-! ### An override after publication -/

/-- A night shift of employee 7 is published, and then given to employee 8. A second publish is
refused. -/
def overrideAfterPublish : List Action :=
  [.persist 1 10 defaultFairnessConfig
      [⟨20, 7, ⟨82800000000, 0⟩, ⟨111600000000, 0⟩, .autoGenerated⟩],
    .publishRead 1 1 10, .publishWrite 1, .override 1 10 20 8, .publishRead 2 1 10]

def publishedRow : FairnessLedger := ⟨1, 7, 10, ⟨82800000000, 0⟩, ⟨111600000000, 0⟩, true⟩

/-- Employee 7 holds no assignment any more and still has the row. -/
theorem override_leaves_row :
    ∃ s, Runs.exec step State.init overrideAfterPublish = some s ∧ s.db.ledger = [publishedRow] ∧
      (s.db.assignments.map fun a => (a.id, a.employeeId)) = [(20, 8)] ∧
      ¬ CountsCurrent s.db := by
  refine ⟨_, rfl, by decide, by decide, fun h => ?_⟩
  exact absurd (h 7 10 ⟨82800000000, 0⟩ ⟨111600000000, 0⟩) (by decide)

/-- The run of the override: one publish, one row, in the name of employee 7. -/
theorem override_records_publication :
    ∃ s, Runs.exec step State.init overrideAfterPublish = some s ∧ s.publications.length = 1 ∧
      s.db.ledger = s.publications.flatMap (fun p => p.2.map (ledgerRow p.1)) ∧
      ∀ schedule ∈ s.db.schedules, schedule.status = .published → OneRowEach s schedule := by
  obtain ⟨s, hs, hlen⟩ : ∃ s, Runs.exec step State.init overrideAfterPublish = some s ∧
      s.publications.length = 1 := ⟨_, rfl, by decide⟩
  obtain ⟨hledger, -, -, hone⟩ := ledger_records_publications hs
  exact ⟨s, hs, hlen, hledger, hone (by decide)⟩

end Workforce.Scheduling.Ledger
