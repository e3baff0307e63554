import Workforce.Scheduling.FairnessLedger

/-!
# A marketplace event that is delivered again

The consumer acknowledges an event after its transaction has committed; when the acknowledgement is
lost, or raises, the broker delivers the event again. `schedule_service` then applies it a second
time.

Who holds which assignment is the same after one delivery and after two (`handle_assignments`): the
event names the holders outright. The conflicts are not. A handling that leaves an affected
assignment overlapping another of its holder adds a `double_booking` row without looking for the one
that is there, so `handle_twice_iff`: two deliveries are as one exactly when the event leaves no
such overlap.
-/

namespace Workforce.Scheduling.Ledger

open Tables List

inductive MarketplaceEvent
  | claimApproved (tenantId shiftAssignmentId claimantEmployeeId : UUID) (bid : Bool)
  | swapExecuted (tenantId initiatorShiftId initiatorEmployeeId targetShiftId
      targetEmployeeId : UUID)

/-- `_apply_claim_approved`, `_apply_swap_executed`. -/
def applyMarketplaceEvent (db : ScheduleDb) : MarketplaceEvent → Except ScheduleError ScheduleDb
  | .claimApproved tenantId shiftAssignmentId claimantEmployeeId bid =>
    applyMarketplaceClaim db tenantId shiftAssignmentId claimantEmployeeId bid
  | .swapExecuted tenantId initiatorShiftId initiatorEmployeeId targetShiftId targetEmployeeId =>
    applyMarketplaceSwap db tenantId initiatorShiftId initiatorEmployeeId targetShiftId
      targetEmployeeId

/-- One delivery: the session commits, or is rolled back when the operation throws. -/
def handle (db : ScheduleDb) (e : MarketplaceEvent) : ScheduleDb :=
  match applyMarketplaceEvent db e with
  | .error _ => db
  | .ok db' => db'

/-! ## What an event does -/

/-- The two shifts share an instant. -/
def ShiftAssignment.Overlaps (a b : ShiftAssignment) : Prop :=
  a.shiftStart.instant < b.shiftEnd.instant ∧ b.shiftStart.instant < a.shiftEnd.instant
  deriving Decidable

/-- The holder of the assignment has another on the schedule that overlaps it. -/
def DoubleBooked (assignments : List ShiftAssignment) (a : ShiftAssignment) : Prop :=
  ∃ other ∈ assignments, other.tenantId = a.tenantId ∧ other.scheduleId = a.scheduleId ∧
    other.employeeId = a.employeeId ∧ other.id ≠ a.id ∧ a.Overlaps other
  deriving Decidable

/-- The conflict that is recorded for the assignment, if one is. -/
def bookingConflicts (assignments : List ShiftAssignment) (a : ShiftAssignment) :
    List ScheduleConflict :=
  if DoubleBooked assignments a then [⟨a.tenantId, a.scheduleId, a.employeeId⟩] else []

theorem recordDoubleBookingIfAny_eq (db : ScheduleDb) (a : ShiftAssignment) :
    db.recordDoubleBookingIfAny a =
      { db with conflicts := db.conflicts ++ bookingConflicts db.assignments a } := by
  have hany : (db.assignments.any fun other =>
      other.tenantId = a.tenantId && other.scheduleId = a.scheduleId &&
      other.employeeId = a.employeeId && other.id ≠ a.id &&
      a.shiftStart.instant < other.shiftEnd.instant &&
      other.shiftStart.instant < a.shiftEnd.instant) = true ↔ DoubleBooked db.assignments a := by
    simp [DoubleBooked, ShiftAssignment.Overlaps, and_assoc]
  unfold ScheduleDb.recordDoubleBookingIfAny bookingConflicts
  split
  · rename_i h
    rw [if_pos (hany.1 h)]
  · rename_i h
    rw [if_neg fun hd => h (hany.2 hd)]
    simp

namespace MarketplaceEvent

/-- What the event makes of an assignment. -/
def put (e : MarketplaceEvent) (a : ShiftAssignment) : ShiftAssignment :=
  match e with
  | claimApproved _ shiftAssignmentId claimantEmployeeId bid =>
    if a.id = shiftAssignmentId then
      { a with employeeId := claimantEmployeeId, assignmentSource := if bid then .bid else .claim }
    else a
  | swapExecuted _ initiatorShiftId initiatorEmployeeId targetShiftId targetEmployeeId =>
    if a.id = targetShiftId then
      { a with employeeId := initiatorEmployeeId, assignmentSource := .swap }
    else if a.id = initiatorShiftId then
      { a with employeeId := targetEmployeeId, assignmentSource := .swap }
    else a

/-- The assignments the event names; `none` when one of them is missing, which throws. -/
def affected (e : MarketplaceEvent) (db : ScheduleDb) : Option (List ShiftAssignment) :=
  match e with
  | claimApproved tenantId shiftAssignmentId _ _ =>
    (db.findAssignment tenantId shiftAssignmentId).map fun a => [a]
  | swapExecuted tenantId initiatorShiftId _ targetShiftId _ =>
    (db.findAssignment tenantId initiatorShiftId).bind fun initiator =>
      (db.findAssignment tenantId targetShiftId).map fun target => [initiator, target]

variable (e : MarketplaceEvent) (a : ShiftAssignment)

@[simp] theorem put_id : (e.put a).id = a.id := by
  cases e <;> simp only [put] <;> split_ifs <;> rfl

@[simp] theorem put_tenantId : (e.put a).tenantId = a.tenantId := by
  cases e <;> simp only [put] <;> split_ifs <;> rfl

@[simp] theorem put_scheduleId : (e.put a).scheduleId = a.scheduleId := by
  cases e <;> simp only [put] <;> split_ifs <;> rfl

@[simp] theorem put_overlaps (b : ShiftAssignment) :
    (e.put a).Overlaps (e.put b) ↔ a.Overlaps b := by
  have hput : ∀ c, (e.put c).shiftStart = c.shiftStart ∧ (e.put c).shiftEnd = c.shiftEnd := by
    intro c
    cases e <;> simp only [put] <;> split_ifs <;> exact ⟨rfl, rfl⟩
  simp [ShiftAssignment.Overlaps, hput]

@[simp] theorem put_put : e.put (e.put a) = e.put a := by
  cases e with
  | claimApproved tenantId shiftAssignmentId claimantEmployeeId bid =>
    simp only [put]
    split_ifs <;> rfl
  | swapExecuted tenantId initiatorShiftId initiatorEmployeeId targetShiftId targetEmployeeId =>
    simp only [put]
    split_ifs <;> rfl

end MarketplaceEvent

theorem findAssignment_some {db : ScheduleDb} {tenantId assignmentId : UUID} {a : ShiftAssignment}
    (h : db.findAssignment tenantId assignmentId = some a) : a.id = assignmentId := by
  have hp := find?_some h
  simp only [Bool.and_eq_true, decide_eq_true_eq] at hp
  exact hp.1

/-- The event puts its holders in place, and records a conflict for each assignment it names that
is double booked then. -/
theorem handle_eq (db : ScheduleDb) (e : MarketplaceEvent) : handle db e =
    match e.affected db with
    | none => db
    | some rows =>
      { db with
        assignments := db.assignments.map e.put
        conflicts := db.conflicts ++
          (rows.map e.put).flatMap (bookingConflicts (db.assignments.map e.put)) } := by
  cases e with
  | claimApproved tenantId shiftAssignmentId claimantEmployeeId bid =>
    simp only [handle, applyMarketplaceEvent, applyMarketplaceClaim, MarketplaceEvent.affected]
    cases hfind : db.findAssignment tenantId shiftAssignmentId with
    | none => rfl
    | some a =>
      have hput : (MarketplaceEvent.claimApproved tenantId shiftAssignmentId claimantEmployeeId
          bid).put a = { a with
            employeeId := claimantEmployeeId
            assignmentSource := if bid then .bid else .claim } :=
        if_pos (findAssignment_some hfind)
      simp only [recordDoubleBookingIfAny_eq, Option.map_some, map_cons, map_nil,
        flatMap_cons, flatMap_nil, append_nil, hput]
      rfl
  | swapExecuted tenantId initiatorShiftId initiatorEmployeeId targetShiftId targetEmployeeId =>
    simp only [handle, applyMarketplaceEvent, applyMarketplaceSwap, MarketplaceEvent.affected]
    cases hi : db.findAssignment tenantId initiatorShiftId with
    | none => rfl
    | some initiator =>
      cases ht : db.findAssignment tenantId targetShiftId with
      | none => rfl
      | some target =>
        have hmap : ((db.reassign initiatorShiftId targetEmployeeId .swap).reassign targetShiftId
            initiatorEmployeeId .swap).assignments = db.assignments.map (MarketplaceEvent.put
              (.swapExecuted tenantId initiatorShiftId initiatorEmployeeId targetShiftId
                targetEmployeeId)) := by
          simp only [ScheduleDb.reassign, Tables.modify, map_map]
          refine map_congr_left fun a _ => ?_
          simp only [Function.comp_apply, MarketplaceEvent.put]
          split_ifs <;> simp_all
        have hputi : (MarketplaceEvent.swapExecuted tenantId initiatorShiftId initiatorEmployeeId
            targetShiftId targetEmployeeId).put initiator = { initiator with
              employeeId := if initiatorShiftId = targetShiftId then initiatorEmployeeId
                else targetEmployeeId
              assignmentSource := .swap } := by
          simp only [MarketplaceEvent.put, findAssignment_some hi, if_true]
          split_ifs <;> rfl
        have hputt : (MarketplaceEvent.swapExecuted tenantId initiatorShiftId initiatorEmployeeId
            targetShiftId targetEmployeeId).put target = { target with
              employeeId := initiatorEmployeeId, assignmentSource := .swap } :=
          if_pos (findAssignment_some ht)
        simp only [recordDoubleBookingIfAny_eq, hmap, Option.bind_some, Option.map_some,
          map_cons, map_nil, flatMap_cons, flatMap_nil, append_nil, hputi,
          hputt, append_assoc]
        rfl

/-! ## Twice -/

theorem findAssignment_map_put (db : ScheduleDb) (e : MarketplaceEvent) (db' : ScheduleDb)
    (h : db'.assignments = db.assignments.map e.put) (tenantId assignmentId : UUID) :
    db'.findAssignment tenantId assignmentId =
      (db.findAssignment tenantId assignmentId).map e.put := by
  simp only [ScheduleDb.findAssignment, h, find?_map]
  congr 2
  funext a
  simp

/-- The second delivery names the assignments as the first one left them. -/
theorem affected_map_put (db : ScheduleDb) (e : MarketplaceEvent) (db' : ScheduleDb)
    (h : db'.assignments = db.assignments.map e.put) :
    e.affected db' = (e.affected db).map (map e.put) := by
  cases e with
  | claimApproved tenantId shiftAssignmentId claimantEmployeeId bid =>
    simp only [MarketplaceEvent.affected, findAssignment_map_put db _ db' h, Option.map_map]
    rfl
  | swapExecuted tenantId initiatorShiftId initiatorEmployeeId targetShiftId targetEmployeeId =>
    simp only [MarketplaceEvent.affected, findAssignment_map_put db _ db' h]
    cases db.findAssignment tenantId initiatorShiftId with
    | none => rfl
    | some initiator => cases db.findAssignment tenantId targetShiftId <;> rfl

theorem map_put_map_put (e : MarketplaceEvent) (rows : List ShiftAssignment) :
    (rows.map e.put).map e.put = rows.map e.put := by
  simp [map_map, Function.comp_def]

/-- Two deliveries give the assignments to the same employees as one. -/
theorem handle_assignments (db : ScheduleDb) (e : MarketplaceEvent) :
    (handle (handle db e) e).assignments = (handle db e).assignments := by
  cases hrows : e.affected db with
  | none =>
    have hsame : handle db e = db := by rw [handle_eq, hrows]
    rw [hsame, hsame]
  | some rows =>
    have h₁ : (handle db e).assignments = db.assignments.map e.put := by rw [handle_eq, hrows]
    rw [handle_eq (handle db e), affected_map_put db e _ h₁, hrows]
    simp only [Option.map_some, h₁, map_put_map_put]

/-- The second delivery records the conflicts of the first once more. -/
theorem handle_conflicts {db : ScheduleDb} {e : MarketplaceEvent} {rows : List ShiftAssignment}
    (hrows : e.affected db = some rows) :
    (handle (handle db e) e).conflicts = (handle db e).conflicts ++
      (rows.map e.put).flatMap (bookingConflicts (db.assignments.map e.put)) := by
  have h₁ : (handle db e).assignments = db.assignments.map e.put := by rw [handle_eq, hrows]
  rw [handle_eq (handle db e), affected_map_put db e _ h₁, hrows]
  simp only [Option.map_some, h₁, map_put_map_put]

/-- The event leaves the assignment overlapping another of the employee it gives it to. -/
def MarketplaceEvent.LeavesOverlap (e : MarketplaceEvent) (db : ScheduleDb) (a : ShiftAssignment) :
    Prop :=
  ∃ other ∈ db.assignments, other.tenantId = a.tenantId ∧ other.scheduleId = a.scheduleId ∧
    (e.put other).employeeId = (e.put a).employeeId ∧ other.id ≠ a.id ∧ a.Overlaps other

theorem doubleBooked_map_put (db : ScheduleDb) (e : MarketplaceEvent) (a : ShiftAssignment) :
    DoubleBooked (db.assignments.map e.put) (e.put a) ↔ e.LeavesOverlap db a := by
  simp [DoubleBooked, MarketplaceEvent.LeavesOverlap]

theorem bookingConflicts_eq_nil {assignments : List ShiftAssignment} {a : ShiftAssignment} :
    bookingConflicts assignments a = [] ↔ ¬ DoubleBooked assignments a := by
  unfold bookingConflicts
  split_ifs with h <;> simp [h]

/-- **Twice is once exactly when nobody is double booked by it.** For all tables and every event, a
second delivery leaves the assignments and the conflicts as the first one did if and only if the
event throws, or leaves none of the assignments it names overlapping another of its holder. -/
theorem handle_twice_iff (db : ScheduleDb) (e : MarketplaceEvent) :
    ((handle (handle db e) e).assignments = (handle db e).assignments ∧
        (handle (handle db e) e).conflicts = (handle db e).conflicts) ↔
      ∀ rows, e.affected db = some rows → ∀ a ∈ rows, ¬ e.LeavesOverlap db a := by
  cases hrows : e.affected db with
  | none =>
    have hsame : handle db e = db := by rw [handle_eq, hrows]
    simp [hsame]
  | some rows =>
    simp only [handle_assignments, handle_conflicts hrows, true_and, append_right_eq_self,
      flatMap_eq_nil_iff, forall_mem_map, bookingConflicts_eq_nil, doubleBooked_map_put,
      Option.some.injEq, forall_eq']

/-- Employee 8 works from eight to sixteen, and claims a shift of employee 7 from twelve on. -/
def overlappingClaim : ScheduleDb where
  schedules := [⟨10, 1, .published, defaultFairnessConfig⟩]
  assignments := [⟨20, 1, 10, 7, ⟨43200000000, 0⟩, ⟨72000000000, 0⟩, .autoGenerated⟩,
    ⟨21, 1, 10, 8, ⟨28800000000, 0⟩, ⟨57600000000, 0⟩, .autoGenerated⟩]
  conflicts := []
  ledger := []

/-- One conflict after the first delivery, and two after the second. -/
theorem conflict_recorded_twice :
    (handle overlappingClaim (.claimApproved 1 20 8 false)).conflicts = [⟨1, 10, 8⟩] ∧
      (handle (handle overlappingClaim (.claimApproved 1 20 8 false))
        (.claimApproved 1 20 8 false)).conflicts = [⟨1, 10, 8⟩, ⟨1, 10, 8⟩] := by
  decide

end Workforce.Scheduling.Ledger
