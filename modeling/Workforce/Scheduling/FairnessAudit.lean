import Mathlib.Algebra.BigOperators.Ring.Finset
import Workforce.Scheduling.FairnessLedger
import Workforce.Scheduling.Reoptimization

/-!
# The fairness audit against the solver's bound

`_add_fairness_constraint` keeps every employee of the roster within the tolerance of the roster's
average: history plus new assignments, with the zeros. `audit_fairness` counts the undesirable rows
that are in the ledger, by employee, and averages over the employees that have one.

So an employee without an undesirable row is missing from the report, and the average is over fewer
employees. `audit_fair_of_onRecord`: where the two count the same rows (`SameWindow`), the report
shows every employee of the roster within the tolerance when each has an undesirable row on record;
and it never does otherwise.
-/

namespace Workforce.Scheduling.Ledger

open Tables LinearModel List Function

/-! ## The source -/

/-- `datetime(day.year, day.month, day.day, tzinfo=UTC)`. -/
def midnightUtc (day : ℤ) : ℤ := day * (24 * microsPerHour)

/-- The start is in the days from `start` up to `fin`, which is exclusive. -/
def within (start fin : ℤ) (t : DateTime) : Bool :=
  midnightUtc start ≤ t.instant && t.instant < midnightUtc fin

/-- The employees of the undesirable rows of a tenant in a window, a row each. -/
def undesirableHolders (ledger : List FairnessLedger) (tenantId : UUID) (start fin : ℤ) :
    List UUID :=
  (ledger.filter fun r => r.tenantId = tenantId && r.isUndesirable &&
    within start fin r.shiftStart).map (·.employeeId)

/-- `get_historical_undesirable_counts`. -/
def getHistoricalUndesirableCounts (ledger : List FairnessLedger) (tenantId : UUID)
    (employeeIds : List UUID) (windowStart windowEnd : ℤ) : List (UUID × ℤ) :=
  employeeIds.map fun employeeId =>
    (employeeId, (undesirableHolders ledger tenantId windowStart windowEnd).count employeeId)

/-- `audit_fairness`: the counts by employee, and their average. -/
def auditFairness (ledger : List FairnessLedger) (tenantId : UUID) (periodStart periodEnd : ℤ) :
    List (UUID × ℕ) × ℚ :=
  let holders := undesirableHolders ledger tenantId periodStart periodEnd
  let counts := holders.dedup.map fun employeeId => (employeeId, holders.count employeeId)
  (counts, if counts = [] then 0 else ((counts.map (·.2)).sum : ℕ) / counts.length)

/-- `exceeds_tolerance`. -/
def exceedsTolerance (count : ℕ) (average : ℚ) (tolerance : ℤ) : Bool :=
  (tolerance : ℚ) < |(count : ℚ) - average|

/-- Every employee of the roster appears, and none of them is flagged. -/
def ReportsFair (report : List (UUID × ℕ) × ℚ) (roster : List Employee) (tolerance : ℤ) : Prop :=
  ∀ e ∈ roster, ∃ count, (e.id, count) ∈ report.1 ∧
    exceedsTolerance count report.2 tolerance = false

/-! ## An accepted assignment set, published -/

/-- The pairs of a result. -/
def assignedOf (result : SolveResult) : List (UUID × UUID) :=
  result.assignments.map fun a => (a.employeeId, a.shiftId)

/-- The start of the history that a job balances against. -/
def windowStart (si : SolveInput) (fairness : FairnessConfig) : ℤ :=
  si.dateRangeStart - 7 * fairness.rollingPeriodWeeks

/-- The job read its history from the ledger, and `_add_fairness_constraint` accepts its result. -/
structure Accepted (ledger : List FairnessLedger) (schedule : Schedule) (si : SolveInput)
    (result : SolveResult) : Prop where
  history : si.fairnessHistoryCounts = getHistoricalUndesirableCounts ledger schedule.tenantId
    (si.employees.map (·.id)) (windowStart si schedule.fairness) si.dateRangeStart
  accepted : ∃ x v, Realizes x (.ofPairs (assignedOf result)) v ∧
    Solves v (addFairnessConstraint x si.employees si.shifts schedule.fairness
      si.fairnessHistoryCounts)

/-- The assignments a publish reads are the rows of the result, in some order. -/
def Publishes (si : SolveInput) (result : SolveResult) (published : List ShiftAssignment) : Prop :=
  ∃ rows, persistedRows si result = some rows ∧
    (published.map fun a => (a.employeeId, a.shiftStart)).Perm
      (rows.map fun r => (r.employeeId, r.shiftStart))

/-- The report of the window of the job: its history and its range. -/
def auditReport (db : ScheduleDb) (schedule : Schedule) (si : SolveInput) :
    List (UUID × ℕ) × ℚ :=
  auditFairness db.ledger schedule.tenantId (windowStart si schedule.fairness)
    (si.dateRangeEnd + 1)

/-- Who holds an undesirable shift of the window, by history and by the assignments published: a
shift each. -/
def onRecord (ledger : List FairnessLedger) (schedule : Schedule) (si : SolveInput)
    (published : List ShiftAssignment) : List UUID :=
  undesirableHolders ledger schedule.tenantId (windowStart si schedule.fairness)
      (si.dateRangeEnd + 1) ++
    (published.filter fun a => schedule.fairness.isUndesirable a.shiftStart &&
      within (windowStart si schedule.fairness) (si.dateRangeEnd + 1) a.shiftStart).map
        (·.employeeId)

/-! ## The report -/

theorem undesirableHolders_publish (db : ScheduleDb) (schedule : Schedule) (si : SolveInput)
    (published : List ShiftAssignment) :
    undesirableHolders (publishCommit db schedule published).ledger schedule.tenantId
        (windowStart si schedule.fairness) (si.dateRangeEnd + 1) =
      onRecord db.ledger schedule si published := by
  simp [undesirableHolders, publishCommit, onRecord, filter_map, ledgerRow, comp_def]

theorem auditFairness_average (ledger : List FairnessLedger) (tenantId : UUID) (start fin : ℤ) :
    (auditFairness ledger tenantId start fin).2 =
      (undesirableHolders ledger tenantId start fin).length /
        (undesirableHolders ledger tenantId start fin).dedup.length := by
  generalize hh : undesirableHolders ledger tenantId start fin = holders
  simp only [auditFairness, hh, map_map, comp_def, length_map, map_eq_nil_iff]
  rw [sum_map_count_dedup_eq_length]
  split_ifs with hnil
  · simp [hnil]
  · rfl

/-- `|count - total / n| ≤ tolerance`, without the division. -/
theorem exceedsTolerance_eq_false_iff {count total n : ℕ} (hn : 0 < n) {tolerance : ℤ} :
    exceedsTolerance count ((total : ℚ) / n) tolerance = false ↔
      |(count : ℤ) * n - total| ≤ tolerance * n := by
  have hpos : (0 : ℚ) < n := by exact_mod_cast hn
  have hmul : |(count : ℚ) - total / n| * n = |(count : ℚ) * n - total| := by
    rw [← abs_of_pos hpos, ← abs_mul, abs_of_pos hpos, sub_mul, div_mul_cancel₀ _ hpos.ne']
  rw [exceedsTolerance, decide_eq_false_iff_not, not_lt, ← mul_le_mul_iff_left₀ hpos, hmul]
  exact_mod_cast Iff.rfl

/-- The report is fair when everyone of the roster is on record, within the tolerance of the
average of those on record. -/
theorem reportsFair_iff (ledger : List FairnessLedger) (tenantId : UUID) (start fin : ℤ)
    (roster : List Employee) (tolerance : ℤ) :
    ReportsFair (auditFairness ledger tenantId start fin) roster tolerance ↔
      ∀ e ∈ roster, e.id ∈ undesirableHolders ledger tenantId start fin ∧
        |((undesirableHolders ledger tenantId start fin).count e.id : ℤ) *
            (undesirableHolders ledger tenantId start fin).dedup.length -
          (undesirableHolders ledger tenantId start fin).length| ≤
        tolerance * (undesirableHolders ledger tenantId start fin).dedup.length := by
  refine forall₂_congr fun e _ => ?_
  rw [auditFairness_average]
  generalize hh : undesirableHolders ledger tenantId start fin = holders
  have hmem : ∀ count, (e.id, count) ∈ (auditFairness ledger tenantId start fin).1 ↔
      e.id ∈ holders ∧ count = holders.count e.id := by
    intro count
    simp only [auditFairness, hh, mem_map, mem_dedup, Prod.mk.injEq]
    constructor
    · rintro ⟨_, hm, rfl, rfl⟩
      exact ⟨hm, rfl⟩
    · rintro ⟨hm, rfl⟩
      exact ⟨_, hm, rfl, rfl⟩
  simp only [hmem, and_assoc, exists_and_left, exists_eq_left]
  refine and_congr_right fun hin => exceedsTolerance_eq_false_iff ?_
  exact length_pos_of_mem (mem_dedup.2 hin)

/-! ## Where the audit counts what the solver counted -/

/-- The window of the audit shows the shifts that the constraint was about, and no others. -/
structure SameWindow (ledger : List FairnessLedger) (schedule : Schedule) (si : SolveInput)
    (result : SolveResult) : Prop where
  /-- Some shift is undesirable; otherwise nothing is constrained. -/
  posted : undesirableShiftIds schedule.fairness si.shifts ≠ []
  employees : (si.employees.map (·.id)).Nodup
  shifts : (si.shifts.map (·.id)).Nodup
  pairs : (assignedOf result).Nodup
  roster : ∀ p ∈ assignedOf result, ∃ e ∈ si.employees, e.id = p.1
  weeks : 0 ≤ schedule.fairness.rollingPeriodWeeks
  range : si.dateRangeStart ≤ si.dateRangeEnd + 1
  /-- Shifts start in the range, at the hour that the ledger will show. -/
  starts : ∀ s ∈ si.shifts,
    s.start.ShowsUtc ∧ within si.dateRangeStart (si.dateRangeEnd + 1) s.start = true
  /-- Nobody else is in the ledger, and nothing of the range is yet. -/
  history : ∀ r ∈ ledger, r.tenantId = schedule.tenantId → r.isUndesirable = true →
    within (windowStart si schedule.fairness) (si.dateRangeEnd + 1) r.shiftStart = true →
      r.shiftStart.instant < midnightUtc si.dateRangeStart ∧
        ∃ e ∈ si.employees, e.id = r.employeeId

theorem midnightUtc_mono {day day' : ℤ} (h : day ≤ day') : midnightUtc day ≤ midnightUtc day' := by
  unfold midnightUtc microsPerHour
  omega

theorem within_eq_true {start fin : ℤ} {t : DateTime} : within start fin t = true ↔
    midnightUtc start ≤ t.instant ∧ t.instant < midnightUtc fin := by
  simp [within]

theorem lookup_map_mem {α β : Type*} [BEq α] [LawfulBEq α] {f : α → β} {ks : List α} {k : α}
    (hk : k ∈ ks) : (ks.map fun k => (k, f k)).lookup k = some (f k) := by
  induction ks with
  | nil => cases hk
  | cons k' ks ih =>
    rw [map_cons, lookup_cons]
    by_cases heq : k = k'
    · simp [heq]
    · have hne : (k == k') = false := by simpa using heq
      rw [hne]
      exact ih ((mem_cons.1 hk).resolve_left heq)

theorem mem_undesirableShiftIds {fairness : FairnessConfig} {shifts : List ShiftSlot} {id : UUID} :
    id ∈ undesirableShiftIds fairness shifts ↔
      ∃ s ∈ shifts, fairness.isUndesirable s.start = true ∧ s.id = id := by
  simp [undesirableShiftIds, and_assoc]

section SameWindow

variable {ledger : List FairnessLedger} {schedule : Schedule} {si : SolveInput}
  {result : SolveResult} {published : List ShiftAssignment}

theorem SameWindow.history_eq (h : SameWindow ledger schedule si result) :
    undesirableHolders ledger schedule.tenantId (windowStart si schedule.fairness)
        (si.dateRangeEnd + 1) =
      undesirableHolders ledger schedule.tenantId (windowStart si schedule.fairness)
        si.dateRangeStart := by
  unfold undesirableHolders
  congr 1
  refine filter_congr fun r hr => ?_
  by_cases hrow : r.tenantId = schedule.tenantId ∧ r.isUndesirable = true
  · have hle := midnightUtc_mono h.range
    have hbefore := h.history r hr hrow.1 hrow.2
    simp only [hrow.1, hrow.2, decide_true, Bool.true_and]
    rw [Bool.eq_iff_iff]
    simp only [within_eq_true] at hbefore ⊢
    constructor
    · intro hin
      exact ⟨hin.1, (hbefore hin).1⟩
    · intro hin
      exact ⟨hin.1, hin.2.trans_le hle⟩
  · have hno : (decide (r.tenantId = schedule.tenantId) && r.isUndesirable) = false := by
      simpa using hrow
    rw [hno, Bool.false_and, Bool.false_and]

/-- An assignment is published as undesirable exactly when its shift is one the solver balances. -/
theorem SameWindow.undesirable_iff (h : SameWindow ledger schedule si result) {shift : ShiftSlot}
    (hshift : shift ∈ si.shifts) :
    (schedule.fairness.isUndesirable shift.start.toUtc &&
        within (windowStart si schedule.fairness) (si.dateRangeEnd + 1) shift.start.toUtc) =
      decide (shift.id ∈ undesirableShiftIds schedule.fairness si.shifts) := by
  obtain ⟨hutc, hin⟩ := h.starts shift hshift
  have hsame : schedule.fairness.isUndesirable shift.start.toUtc =
      schedule.fairness.isUndesirable shift.start :=
    (isUndesirable_congr _ hutc.1 hutc.2).symm
  have hstart : midnightUtc (windowStart si schedule.fairness) ≤ midnightUtc si.dateRangeStart :=
    midnightUtc_mono (by
      have := h.weeks
      unfold windowStart
      omega)
  rw [within_eq_true] at hin
  have hwithin : within (windowStart si schedule.fairness) (si.dateRangeEnd + 1)
      shift.start.toUtc = true := by
    rw [within_eq_true, toUtc_instant]
    exact ⟨hstart.trans hin.1, hin.2⟩
  rw [hwithin, Bool.and_true, hsame, Bool.eq_iff_iff, decide_eq_true_eq, mem_undesirableShiftIds]
  constructor
  · intro hund
    exact ⟨shift, hshift, hund, rfl⟩
  · rintro ⟨s, hs, hund, hid⟩
    obtain rfl := eq_of_key_eq h.shifts hs hshift hid
    exact hund

/-- The published undesirable shifts of an employee are those the plan gives them. -/
theorem SameWindow.published_count (h : SameWindow ledger schedule si result)
    (hpub : Publishes si result published) (employeeId : UUID) :
    ((published.filter fun a => schedule.fairness.isUndesirable a.shiftStart &&
        within (windowStart si schedule.fairness) (si.dateRangeEnd + 1) a.shiftStart).map
          (·.employeeId)).count employeeId =
      (undesirableShiftIds schedule.fairness si.shifts).countP fun shiftId =>
        Plan.ofPairs (assignedOf result) (employeeId, shiftId) := by
  obtain ⟨rows, hrows, hperm⟩ := hpub
  let counts : UUID × DateTime → Bool := fun p => p.1 = employeeId &&
    (schedule.fairness.isUndesirable p.2 &&
      within (windowStart si schedule.fairness) (si.dateRangeEnd + 1) p.2)
  calc _ = (published.map fun a => (a.employeeId, a.shiftStart)).countP counts := by
        rw [count, countP_map, countP_filter, countP_map]
        refine countP_congr fun a _ => ?_
        simp [counts]
    _ = rows.countP fun r => counts (r.employeeId, r.shiftStart) := by
        rw [hperm.countP_eq, countP_map]
        rfl
    _ = (assignedOf result).countP fun p => p.1 = employeeId &&
          p.2 ∈ undesirableShiftIds schedule.fairness si.shifts := by
        rw [countP_of_mapM hrows, assignedOf, countP_map]
        refine countP_congr fun a ha => ?_
        obtain ⟨row, -, hrow⟩ := exists_mem_of_mapM hrows ha
        obtain ⟨shift, hshift, -⟩ := Option.map_eq_some_iff.1 hrow
        obtain ⟨hmem, hid⟩ : shift ∈ si.shifts ∧ shift.id = a.shiftId :=
          ⟨mem_reverse.1 (mem_of_find?_eq_some hshift),
            by simpa using find?_some hshift⟩
        rw [hshift, Option.map_some, Option.any_some]
        simp only [counts, h.undesirable_iff hmem, hid, comp_apply]
    _ = _ := by
        have hids : (undesirableShiftIds schedule.fairness si.shifts).Nodup := nodup_dedup _
        rw [countP_pairs h.pairs hids]
        rfl

/-- **The same window, the same counts.** -/
theorem SameWindow.count_eq (h : SameWindow ledger schedule si result)
    (hacc : Accepted ledger schedule si result) (hpub : Publishes si result published)
    {employeeId : UUID} (he : employeeId ∈ si.employees.map (·.id)) :
    ((onRecord ledger schedule si published).count employeeId : ℤ) =
      (Plan.ofPairs (assignedOf result)).undesirableCount schedule.fairness si.shifts
        si.fairnessHistoryCounts employeeId := by
  rw [onRecord, count_append, h.published_count hpub, h.history_eq, Plan.undesirableCount,
    hacc.history, getHistoricalUndesirableCounts, lookup_map_mem he]
  simp

theorem SameWindow.mem_roster (h : SameWindow ledger schedule si result)
    (hpub : Publishes si result published) {employeeId : UUID}
    (hin : employeeId ∈ onRecord ledger schedule si published) :
    employeeId ∈ si.employees.map (·.id) := by
  rcases mem_append.1 hin with hold | hnew
  · obtain ⟨r, hr, rfl⟩ := mem_map.1 hold
    simp only [mem_filter, Bool.and_eq_true, decide_eq_true_eq] at hr
    obtain ⟨-, e, he, hid⟩ := h.history r hr.1 hr.2.1.1 hr.2.1.2 hr.2.2
    exact mem_map.2 ⟨e, he, hid⟩
  · obtain ⟨rows, hrows, hperm⟩ := hpub
    obtain ⟨a, ha, rfl⟩ := mem_map.1 hnew
    have hmem := hperm.mem_iff.1 (mem_map_of_mem (mem_of_mem_filter ha))
    obtain ⟨row, hrow, heq⟩ := mem_map.1 hmem
    obtain ⟨b, hb, hstored⟩ := exists_of_mem_mapM hrows hrow
    obtain ⟨shift, -, rfl⟩ := Option.map_eq_some_iff.1 hstored
    obtain ⟨e, he, hid⟩ := h.roster _ (mem_map_of_mem hb)
    refine mem_map.2 ⟨e, he, hid.trans ?_⟩
    exact (Prod.mk.inj heq).1

/-- When the roster is all on record, those on record are the roster, and the audit's average is
the one that the constraint bounds. -/
theorem SameWindow.within_tolerance (h : SameWindow ledger schedule si result)
    (hacc : Accepted ledger schedule si result) (hpub : Publishes si result published)
    (hall : ∀ e ∈ si.employees, e.id ∈ onRecord ledger schedule si published) {e : Employee}
    (he : e ∈ si.employees) :
    |((onRecord ledger schedule si published).count e.id : ℤ) *
        (onRecord ledger schedule si published).dedup.length -
      (onRecord ledger schedule si published).length| ≤
    schedule.fairness.tolerance * (onRecord ledger schedule si published).dedup.length := by
  generalize hrec : onRecord ledger schedule si published = holders at hall ⊢
  have hperm : holders.dedup.Perm (si.employees.map (·.id)) := by
    refine (perm_ext_iff_of_nodup (nodup_dedup _) h.employees).2 fun id => ?_
    rw [mem_dedup]
    constructor
    · intro hin
      exact h.mem_roster hpub (hrec ▸ hin)
    · intro hin
      obtain ⟨e, he, rfl⟩ := mem_map.1 hin
      exact hall e he
  have hlen : holders.dedup.length = si.employees.length := by
    rw [hperm.length_eq, length_map]
  have hcount : ∀ id ∈ si.employees.map (·.id), (holders.count id : ℤ) =
      (Plan.ofPairs (assignedOf result)).undesirableCount schedule.fairness si.shifts
        si.fairnessHistoryCounts id := fun id hid => hrec ▸ h.count_eq hacc hpub hid
  have htotal : ((si.employees.map (·.id)).dedup.map
      ((Plan.ofPairs (assignedOf result)).undesirableCount schedule.fairness si.shifts
        si.fairnessHistoryCounts)).sum = holders.length := by
    rw [h.employees.dedup, ← map_congr_left hcount, ← (hperm.map _).sum_eq,
      ← sum_map_count_dedup_eq_length holders, Nat.cast_list_sum, map_map]
    rfl
  obtain ⟨x, v, hreal, hsol⟩ := hacc.accepted
  obtain hnil | hbound := hreal.solves_fairness.1 hsol
  · exact absurd hnil h.posted
  · obtain ⟨hupper, hlower⟩ := hbound e he
    rw [htotal, ← hcount e.id (mem_map_of_mem he)] at hupper hlower
    rw [hlen, abs_le, mul_comm (holders.count e.id : ℤ)]
    constructor
    · linarith
    · linarith

/-- **The audit agrees with the bound when nobody is missing.** An assignment set that
`_add_fairness_constraint` accepts is published. Where the window of the audit shows what the
constraint was about and every employee of the roster has an undesirable shift on record, all of
them appear in the audit and none is flagged. In no case do they where one has none on record. -/
theorem audit_fair_of_onRecord (db : ScheduleDb) (hacc : Accepted db.ledger schedule si result)
    (hpub : Publishes si result published) :
    (SameWindow db.ledger schedule si result →
      (∀ e ∈ si.employees, e.id ∈ onRecord db.ledger schedule si published) →
        ReportsFair (auditReport (publishCommit db schedule published) schedule si) si.employees
          schedule.fairness.tolerance) ∧
    (ReportsFair (auditReport (publishCommit db schedule published) schedule si) si.employees
        schedule.fairness.tolerance →
      ∀ e ∈ si.employees, e.id ∈ onRecord db.ledger schedule si published) := by
  rw [auditReport, reportsFair_iff, undesirableHolders_publish]
  exact ⟨fun hsame hall e he => ⟨hall e he, hsame.within_tolerance hacc hpub hall he⟩,
    fun hfair e he => (hfair e he).1⟩

end SameWindow

/-! ## Seven employees -/

/-- A night shift, 22:00 to 04:00. -/
def nightShift : ShiftSlot :=
  ⟨11, ⟨20514 * 86400000000 + 22 * 3600000000, 0⟩, ⟨20515 * 86400000000 + 4 * 3600000000, 0⟩, 1,
    none, 0, none⟩

/-- One night shift is to be given to one of the employees, at a tolerance of three. -/
def nightInput (ids : List UUID) (ledger : List FairnessLedger) : SolveInput where
  dateRangeStart := 20514
  dateRangeEnd := 20514
  employees := ids.map fun id => ⟨id, 40, false, [], ∅, none⟩
  shifts := [nightShift]
  policy := ⟨6, 8, 60, none, none, none⟩
  leaveRecords := []
  timeLimitSeconds := 30
  fairness := some ⟨4, 3, false, some 21, some 5, ∅⟩
  softWeights := ⟨1, 1, 1, 1⟩
  fairnessHistoryCounts := getHistoricalUndesirableCounts ledger 1 ids (20514 - 28) 20514
  relaxedCategories := ∅
  lockedAssignments := []

def nightSchedule : Schedule := ⟨10, 1, .draft, ⟨4, 3, false, some 21, some 5, ∅⟩⟩

/-- A night of the week before. -/
def nightRow (employeeId : UUID) : FairnessLedger :=
  ⟨1, employeeId, 9, ⟨20507 * 86400000000 + 22 * 3600000000, 0⟩,
    ⟨20508 * 86400000000 + 4 * 3600000000, 0⟩, true⟩

def nightDb (holders : List UUID) : ScheduleDb :=
  { schedules := [nightSchedule], assignments := [], conflicts := []
    ledger := holders.map nightRow }

/-- The night goes to employee 5. -/
def nightResult : SolveResult := ⟨.optimal, [⟨5, 11, false⟩], none⟩

def nightAssignment : ShiftAssignment :=
  ⟨20, 1, 10, 5, ⟨20514 * 86400000000 + 22 * 3600000000, 0⟩,
    ⟨20515 * 86400000000 + 4 * 3600000000, 0⟩, .autoGenerated⟩

theorem publishes_night (ids : List UUID) (ledger : List FairnessLedger) :
    Publishes (nightInput ids ledger) nightResult [nightAssignment] :=
  ⟨_, rfl, .refl _⟩

/-- The constraint accepts the night where the counts with it are fair. -/
theorem accepted_night {ids holders : List UUID}
    (hfair : (Plan.ofPairs [(5, 11)]).Fair (nightInput ids (nightDb holders).ledger).employees
      [nightShift] ⟨4, 3, false, some 21, some 5, ∅⟩
      (nightInput ids (nightDb holders).ledger).fairnessHistoryCounts) :
    Accepted (nightDb holders).ledger nightSchedule (nightInput ids (nightDb holders).ledger)
      nightResult where
  history := by
    simp [nightInput, nightSchedule, windowStart, comp_def]
  accepted := by
    have hreal : Realizes [(5, 11)] (.ofPairs [(5, 11)]) fun y => match y with
        | .x e s => if (e, s) ∈ [((5, 11) : UUID × UUID)] then 1 else 0
        | _ => 0 := ⟨by simp [Plan.ofPairs], by simp [Plan.ofPairs]⟩
    exact ⟨_, _, hreal, hreal.solves_fairness.2 hfair⟩

/-- Two employees who both have a night on record. -/
theorem night_audit_fair :
    ReportsFair (auditReport (publishCommit (nightDb [5, 6]) nightSchedule [nightAssignment])
        nightSchedule (nightInput [5, 6] (nightDb [5, 6]).ledger))
      (nightInput [5, 6] (nightDb [5, 6]).ledger).employees 3 := by
  refine (audit_fair_of_onRecord _ (accepted_night (.inr (by decide +kernel)))
    (publishes_night _ _)).1 ?_ (by decide +kernel)
  exact
    { posted := by decide +kernel
      employees := by decide
      shifts := by decide
      pairs := by decide
      roster := by
        intro p hp
        obtain rfl := mem_singleton.1 hp
        exact ⟨_, mem_cons_self, rfl⟩
      weeks := by decide
      range := by decide
      starts := by decide +kernel
      history := by decide +kernel }

/-- Four employees have five nights on record, employee 5 gets one, employees 6 and 7 have none. All
are within three of the average, which is three. The audit leaves out two of them, averages 4.2
over the others, and flags employee 5. -/
theorem night_audit_flags :
    let holders := replicate 5 1 ++ replicate 5 2 ++ replicate 5 3 ++ replicate 5 4
    let si := nightInput [1, 2, 3, 4, 5, 6, 7] (nightDb holders).ledger
    let report := auditReport (publishCommit (nightDb holders) nightSchedule [nightAssignment])
      nightSchedule si
    Accepted (nightDb holders).ledger nightSchedule si nightResult ∧
      Publishes si nightResult [nightAssignment] ∧
      report = ([(1, 5), (2, 5), (3, 5), (4, 5), (5, 1)], 21 / 5) ∧
      exceedsTolerance 1 report.2 3 = true ∧ ¬ ReportsFair report si.employees 3 := by
  intro holders si report
  have hreport : report = ([(1, 5), (2, 5), (3, 5), (4, 5), (5, 1)], 21 / 5) := by decide +kernel
  refine ⟨accepted_night (.inr (by decide +kernel)), publishes_night _ _, hreport, ?_, fun h => ?_⟩
  · rw [hreport]
    decide +kernel
  · obtain ⟨count, hmem, -⟩ := h ⟨6, 40, false, [], ∅, none⟩ (by decide)
    rw [hreport] at hmem
    simp at hmem

end Workforce.Scheduling.Ledger
