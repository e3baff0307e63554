import Workforce.Scheduling.FairnessPolicy
import Workforce.Scheduling.RelaxationCosts

/-!
# Re-optimizing a schedule

`_execute_reoptimize` and `_persist_schedule` of `app/services/job_service.py`. The rows of the base
schedule that a human decided become locked assignments: each row is matched to the slot of the
request with its start, end and skill, and locks the pair of its employee and that slot. The solve
assigns every locked pair, and persisting writes one row per assigned pair, with the source of the
lock.

A pair has one row and one source. Two locked rows of one employee with the same start, end and
skill lock one pair, and the source of the later one is written for both. So
`reoptimize_keeps_locked_iff`: every locked row is found again exactly when each is what its pair,
or the pair of another locked row, leads back to; with distinct slot ids this says that locked rows
of one employee for one shift agree on their source (`keepsLocks_iff`).
-/

namespace Workforce.Scheduling

open Tables List

/-! ## The source -/

/-- A row of `shift_assignments`. -/
structure StoredAssignment where
  employeeId : UUID
  shiftStart : DateTime
  shiftEnd : DateTime
  skillId : Option UUID
  assignmentSource : AssignmentSource
  isOvertime : Bool
  deriving DecidableEq

/-- The generated column `locked`. -/
def StoredAssignment.locked (row : StoredAssignment) : Bool :=
  row.assignmentSource ≠ .autoGenerated

/-- The slot has the key of the row; times are equal when they are one instant. -/
def ShiftSlot.HasKey (shift : ShiftSlot) (row : StoredAssignment) : Prop :=
  shift.start.instant = row.shiftStart.instant ∧ shift.fin.instant = row.shiftEnd.instant ∧
    shift.requiredSkillId = row.skillId
  deriving Decidable

/-- `shift_by_key.get(…)`: of slots with one key the last. -/
def matchedShift (shifts : List ShiftSlot) (row : StoredAssignment) : Option ShiftSlot :=
  shifts.reverse.find? fun shift => shift.HasKey row

/-- The lock that a row becomes. -/
def lockedAssignment (shifts : List ShiftSlot) (row : StoredAssignment) :
    Option LockedAssignment :=
  (matchedShift shifts row).map fun matched => ⟨row.employeeId, matched.id, row.assignmentSource⟩

inductive ReoptimizeError
  | lockedShiftMissing (employeeId : UUID) (shiftStart shiftEnd : DateTime)

/-- The input `_execute_reoptimize` builds: what the request says, and the locked rows of the base
schedule. The first row without a slot ends the loop. -/
def reoptimizeInput (base : List StoredAssignment) (request : SolveInput) :
    Except ReoptimizeError SolveInput :=
  let lockedRows := base.filter (·.locked)
  match lockedRows.find? fun row => (matchedShift request.shifts row).isNone with
  | some row => .error (.lockedShiftMissing row.employeeId row.shiftStart row.shiftEnd)
  | none => .ok { request with
      lockedAssignments := lockedRows.filterMap (lockedAssignment request.shifts) }

/-- `locked_sources.get(pair)`: of locks on one pair the last. -/
def lockedSource (locks : List LockedAssignment) (pair : UUID × UUID) : Option AssignmentSource :=
  (locks.reverse.find? fun la => (la.employeeId, la.shiftId) = pair).map (·.assignmentSource)

/-- The rows that `_persist_schedule` inserts; an unknown shift is a `KeyError`. The times go
through `timestamptz` columns. -/
def persistedRows (si : SolveInput) (result : SolveResult) : Option (List StoredAssignment) :=
  result.assignments.mapM fun a => (shiftById si.shifts a.shiftId).map fun shift =>
    { employeeId := a.employeeId
      shiftStart := shift.start.toUtc
      shiftEnd := shift.fin.toUtc
      skillId := shift.requiredSkillId
      assignmentSource :=
        (lockedSource si.lockedAssignments (a.employeeId, a.shiftId)).getD .autoGenerated
      isOvertime := a.isOvertime }

/-- The job completes with these rows: when it is executed, or when it is found infeasible and the
relaxation that is reported is approved. -/
inductive Completes (cpSolve : CpSolver) (si : SolveInput) (rows : List StoredAssignment) : Prop
  | executed {result : SolveResult} {plan : List GroupPlan}
      (hjob : decomposeSolvePersist cpSolve si false = .ok (.completed result plan))
      (hrows : persistedRows si result = some rows)
  | approved {report : RelaxationReport} {snapshot : Json} {relaxedInput : SolveInput}
      {result : SolveResult} {plan : List GroupPlan}
      (hjob : decomposeSolvePersist cpSolve si false = .ok (.infeasible report snapshot))
      (hinput : approvedInput report snapshot = .ok relaxedInput)
      (happroval : decomposeSolvePersist cpSolve relaxedInput true = .ok (.completed result plan))
      (hrows : persistedRows relaxedInput result = some rows)

/-! ## The locked pairs are assigned -/

section Completed

variable {cpSolve : CpSolver} {si : SolveInput} {isReproof : Bool} {result : SolveResult}
  {plan : List GroupPlan}

theorem decomposeSolvePersist_completed
    (h : decomposeSolvePersist cpSolve si isReproof = .ok (.completed result plan)) :
    ∃ results, (decompose si).mapM (solveGroup cpSolve) = .ok results ∧
      result.assignments = results.flatMap (·.assignments) ∧
      ∀ g r, (g, r) ∈ (decompose si).zip results → r.status = .optimal ∨ r.status = .feasible := by
  unfold decomposeSolvePersist at h
  cases hresults : (decompose si).mapM (solveGroup cpSolve) with
  | error e => simp [hresults, bind, Except.bind] at h
  | ok results =>
    refine ⟨results, rfl, ?_⟩
    simp only [hresults, bind, Except.bind, pure, Except.pure] at h
    split at h
    · cases h
    · rename_i hunknown
      split at h
      · split at h
        · cases h
        · split at h <;> cases h
      · rename_i hinfeasible
        obtain ⟨rfl, -⟩ := JobOutcome.completed.inj (Except.ok.inj h)
        refine ⟨rfl, fun g r hr => ?_⟩
        have hno : r.status ≠ .unknown := fun hs =>
          hunknown (any_eq_true.2 ⟨r, (of_mem_zip hr).2, by simpa using hs⟩)
        have hnot : r.status ≠ .infeasible := fun hs =>
          hinfeasible (ne_nil_of_mem (mem_filter.2 ⟨hr, by simpa using hs⟩))
        cases hs : r.status <;> simp_all

theorem exists_group_of_locked {pair : UUID × UUID} (hlocked : pair ∈ si.lockedPairs)
    (hshift : ∃ s ∈ si.shifts, s.id = pair.2) :
    ∃ g ∈ decompose si, pair ∈ g.solveInput.lockedPairs := by
  have hmem : ∀ input ∈ (decompose si).map (·.solveInput), ∃ g ∈ decompose si,
      g.solveInput = input := fun input h => by simpa using h
  rcases decompose_inputs si with ⟨-, heq⟩ | ⟨hsplit, heq⟩
  · obtain ⟨g, hg, hinput⟩ := hmem si (by rw [heq]; exact mem_singleton_self _)
    exact ⟨g, hg, by rwa [hinput]⟩
  · obtain ⟨s, hs, hid⟩ := hshift
    obtain ⟨G, hG, hin⟩ := hsplit.exists_group hs
    obtain ⟨g, hg, hinput⟩ := hmem (groupInput si G) (by rw [heq]; exact mem_map_of_mem hG)
    exact ⟨g, hg, by rw [hinput]; exact mem_groupInput_lockedPairs.2 ⟨hlocked, s, hin, hid⟩⟩

/-- **A completed job assigns every locked pair**, whichever groups it is split into. -/
theorem locked_assigned (hcp : ReturnsSolutions cpSolve)
    (h : decomposeSolvePersist cpSolve si isReproof = .ok (.completed result plan))
    {pair : UUID × UUID} (hlocked : pair ∈ si.lockedPairs)
    (hshift : ∃ s ∈ si.shifts, s.id = pair.2) :
    ∃ a ∈ result.assignments, (a.employeeId, a.shiftId) = pair := by
  obtain ⟨results, hresults, hassign, hstatus⟩ := decomposeSolvePersist_completed h
  obtain ⟨g, hg, hpair⟩ := exists_group_of_locked hlocked hshift
  obtain ⟨r, hr, hgroup⟩ := exists_mem_zip_of_mapM hresults g hg
  obtain ⟨hvalid, v, hv, hassigned⟩ :=
    solve_eq_ok hcp (solve_of_solveGroup hgroup) (hstatus g r hr)
  have hfeasible : Feasible g.solveInput (planOf g.solveInput v) :=
    (feasible_iff (known_of_validate hvalid)).2 ⟨v, hv, fun _ => planOf_eq_true⟩
  have hmem := planOf_eq_true.1 (hfeasible.locked pair hpair)
  rw [← map_assignments, ← hassigned] at hmem
  obtain ⟨a, ha, rfl⟩ := mem_map.1 hmem
  refine ⟨a, ?_, rfl⟩
  rw [hassign]
  exact mem_flatMap.2 ⟨r, (of_mem_zip hr).2, ha⟩

end Completed

/-! ## What a lock leads back to -/

/-- The row of the new schedule says what the row of the base schedule says. -/
def SameAssignment (row row' : StoredAssignment) : Prop :=
  row'.employeeId = row.employeeId ∧ row'.shiftStart.instant = row.shiftStart.instant ∧
    row'.shiftEnd.instant = row.shiftEnd.instant ∧ row'.skillId = row.skillId ∧
    row'.assignmentSource = row.assignmentSource
  deriving Decidable

/-- A lock is on the row's employee, its slot, looked up by the id, has the row's key, and the last
lock on the pair has the row's source. -/
def LeadsBack (shifts : List ShiftSlot) (locks : List LockedAssignment) (lock : LockedAssignment)
    (row : StoredAssignment) : Prop :=
  lock.employeeId = row.employeeId ∧
    (∃ shift, shiftById shifts lock.shiftId = some shift ∧ shift.HasKey row) ∧
    lockedSource locks (lock.employeeId, lock.shiftId) = some row.assignmentSource

theorem exists_of_lockedSource {locks : List LockedAssignment} {pair : UUID × UUID}
    {source : AssignmentSource} (h : lockedSource locks pair = some source) :
    ∃ lock ∈ locks, (lock.employeeId, lock.shiftId) = pair ∧ lock.assignmentSource = source := by
  obtain ⟨lock, hfind, hsource⟩ := Option.map_eq_some_iff.1 h
  exact ⟨lock, mem_reverse.1 (mem_of_find?_eq_some hfind),
    by simpa using find?_some hfind, hsource⟩

theorem exists_lockedSource {locks : List LockedAssignment} {lock : LockedAssignment}
    (h : lock ∈ locks) :
    ∃ source, lockedSource locks (lock.employeeId, lock.shiftId) = some source := by
  rw [← Option.isSome_iff_exists, lockedSource, Option.isSome_map, find?_isSome]
  exact ⟨lock, mem_reverse.2 h, by simp⟩

theorem exists_of_shiftById {shifts : List ShiftSlot} {id : UUID} {shift : ShiftSlot}
    (h : shiftById shifts id = some shift) : ∃ s ∈ shifts, s.id = id :=
  ⟨shift, mem_reverse.1 (mem_of_find?_eq_some h), by simpa using find?_some h⟩

theorem toUtc_instant (t : DateTime) : t.toUtc.instant = t.instant := by
  simp [DateTime.toUtc, DateTime.instant]

/-- A locked row is in the rows of a completed job exactly when a lock leads back to it. -/
theorem exists_sameAssignment_iff {cpSolve : CpSolver} (hcp : ReturnsSolutions cpSolve)
    {si : SolveInput} {isReproof : Bool} {result : SolveResult} {plan : List GroupPlan}
    (hjob : decomposeSolvePersist cpSolve si isReproof = .ok (.completed result plan))
    {rows : List StoredAssignment} (hrows : persistedRows si result = some rows)
    {row : StoredAssignment} (hlocked : row.locked = true) :
    (∃ row' ∈ rows, SameAssignment row row') ↔
      ∃ lock ∈ si.lockedAssignments, LeadsBack si.shifts si.lockedAssignments lock row := by
  constructor
  · rintro ⟨row', hrow', hsame⟩
    obtain ⟨a, -, hstored⟩ := exists_of_mem_mapM hrows hrow'
    obtain ⟨shift, hshift, rfl⟩ := Option.map_eq_some_iff.1 hstored
    obtain ⟨hemployee, hstart, hend, hskill, hsource⟩ := hsame
    -- the source is not the default, so it is that of a lock
    cases hlock : lockedSource si.lockedAssignments (a.employeeId, a.shiftId) with
    | none =>
      simp only [hlock, Option.getD_none] at hsource
      simp [StoredAssignment.locked, ← hsource] at hlocked
    | some source =>
      simp only [hlock, Option.getD_some] at hsource
      obtain ⟨lock, hmem, hpair, -⟩ := exists_of_lockedSource hlock
      obtain ⟨hle, hls⟩ := Prod.mk.inj hpair
      refine ⟨lock, hmem, hle.trans hemployee, ⟨shift, by rw [hls, hshift], ?_⟩, ?_⟩
      · exact ⟨(toUtc_instant _).symm.trans hstart, (toUtc_instant _).symm.trans hend, hskill⟩
      · rw [hpair, hlock, hsource]
  · rintro ⟨lock, hmem, hemployee, ⟨shift, hshift, hstart, hend, hskill⟩, hsource⟩
    have hlocked : (lock.employeeId, lock.shiftId) ∈ si.lockedPairs :=
      mem_map.2 ⟨lock, hmem, rfl⟩
    obtain ⟨a, ha, hpair⟩ := locked_assigned hcp hjob hlocked (exists_of_shiftById hshift)
    obtain ⟨hae, has⟩ := Prod.mk.inj hpair
    obtain ⟨row', hrow', hstored⟩ := exists_mem_of_mapM hrows ha
    rw [has, hshift, Option.map_some, Option.some.injEq] at hstored
    subst hstored
    refine ⟨_, hrow', hae.trans hemployee, (toUtc_instant _).trans hstart,
      (toUtc_instant _).trans hend, hskill, ?_⟩
    rw [hae, hsource]
    rfl

/-! ## Re-optimizing keeps the locked rows -/

section Reoptimize

variable {base : List StoredAssignment} {request si : SolveInput}

/-- The locks of the rows of the base schedule. -/
def locksOf (base : List StoredAssignment) (shifts : List ShiftSlot) : List LockedAssignment :=
  (base.filter (·.locked)).filterMap (lockedAssignment shifts)

theorem reoptimizeInput_ok (h : reoptimizeInput base request = .ok si) :
    si = { request with lockedAssignments := locksOf base request.shifts } ∧
      ∀ row ∈ base, row.locked = true →
        ∃ matched, matchedShift request.shifts row = some matched := by
  unfold reoptimizeInput at h
  dsimp only at h
  split at h
  · cases h
  · rename_i hnone
    refine ⟨(Except.ok.inj h).symm, fun row hrow hlocked => ?_⟩
    have hsome := find?_eq_none.1 hnone row (mem_filter.2 ⟨hrow, hlocked⟩)
    exact Option.ne_none_iff_exists'.1 (by simpa using hsome)

/-- Every locked row of the base schedule is what some lock leads back to. -/
def KeepsLocks (base : List StoredAssignment) (shifts : List ShiftSlot) : Prop :=
  ∀ row ∈ base, row.locked = true → ∃ lock ∈ locksOf base shifts,
    LeadsBack shifts (locksOf base shifts) lock row

/-- The two rows are for one shift of one employee. -/
def SameShift (row row' : StoredAssignment) : Prop :=
  row'.employeeId = row.employeeId ∧ row'.shiftStart.instant = row.shiftStart.instant ∧
    row'.shiftEnd.instant = row.shiftEnd.instant ∧ row'.skillId = row.skillId

variable {shifts : List ShiftSlot}

theorem matchedShift_congr {row row' : StoredAssignment} (h : SameShift row row') :
    matchedShift shifts row' = matchedShift shifts row := by
  obtain ⟨-, hstart, hend, hskill⟩ := h
  unfold matchedShift
  congr 1
  funext shift
  refine decide_eq_decide.2 ?_
  simp only [ShiftSlot.HasKey, hstart, hend, hskill]

theorem hasKey_of_matchedShift {row : StoredAssignment} {matched : ShiftSlot}
    (h : matchedShift shifts row = some matched) :
    matched ∈ shifts ∧ matched.HasKey row :=
  ⟨mem_reverse.1 (mem_of_find?_eq_some h), by simpa using find?_some h⟩

theorem mem_locksOf {base : List StoredAssignment} {lock : LockedAssignment} :
    lock ∈ locksOf base shifts ↔
      ∃ row ∈ base, row.locked = true ∧ ∃ matched, matchedShift shifts row = some matched ∧
        lock = ⟨row.employeeId, matched.id, row.assignmentSource⟩ := by
  simp only [locksOf, mem_filterMap, mem_filter, lockedAssignment,
    Option.map_eq_some_iff, and_assoc, eq_comm (b := lock)]

theorem shiftById_of_mem (hids : (shifts.map (·.id)).Nodup) {shift : ShiftSlot}
    (h : shift ∈ shifts) : shiftById shifts shift.id = some shift := by
  have hrev : (shifts.reverse.map (·.id)).Nodup := by rwa [map_reverse, nodup_reverse]
  exact lookup_eq_some hrev (mem_reverse.2 h)

/-- **With distinct slot ids, the locks lead back exactly when locked rows of one employee for one
shift agree on their source.** -/
theorem keepsLocks_iff (hids : (shifts.map (·.id)).Nodup)
    (hmatched : ∀ row ∈ base, row.locked = true → ∃ m, matchedShift shifts row = some m) :
    KeepsLocks base shifts ↔ ∀ row ∈ base, ∀ row' ∈ base, row.locked = true →
      row'.locked = true → SameShift row row' → row'.assignmentSource = row.assignmentSource := by
  constructor
  · intro hkeeps
    -- the lock that leads back to a row is on the row's own slot
    have hsource : ∀ row ∈ base, row.locked = true → ∀ m, matchedShift shifts row = some m →
        lockedSource (locksOf base shifts) (row.employeeId, m.id) = some row.assignmentSource := by
      intro row hrow hlocked m hm
      obtain ⟨lock, hlock, hemployee, ⟨shift, hshift, hkey⟩, hsource⟩ := hkeeps row hrow hlocked
      obtain ⟨row₂, -, -, m₂, hm₂, rfl⟩ := mem_locksOf.1 hlock
      obtain ⟨hmem₂, hkey₂⟩ := hasKey_of_matchedShift hm₂
      obtain rfl : m₂ = shift := by simpa [shiftById_of_mem hids hmem₂] using hshift
      have hsame : SameShift row row₂ := ⟨hemployee, hkey₂.1.symm.trans hkey.1,
        hkey₂.2.1.symm.trans hkey.2.1, hkey₂.2.2.symm.trans hkey.2.2⟩
      rw [matchedShift_congr hsame] at hm₂
      obtain rfl := Option.some.inj (hm₂.symm.trans hm)
      rwa [hemployee] at hsource
    intro row hrow row' hrow' hlocked hlocked' hsame
    obtain ⟨m, hm⟩ := hmatched row hrow hlocked
    have h := hsource row hrow hlocked m hm
    have h' := hsource row' hrow' hlocked' m ((matchedShift_congr hsame).trans hm)
    rw [hsame.1] at h'
    exact Option.some.inj (h'.symm.trans h)
  · intro hagree row hrow hlocked
    obtain ⟨m, hm⟩ := hmatched row hrow hlocked
    obtain ⟨hmem, hkey⟩ := hasKey_of_matchedShift hm
    refine ⟨⟨row.employeeId, m.id, row.assignmentSource⟩,
      mem_locksOf.2 ⟨row, hrow, hlocked, m, hm, rfl⟩, rfl,
      ⟨m, shiftById_of_mem hids hmem, hkey⟩, ?_⟩
    obtain ⟨source, hsource⟩ := exists_lockedSource
      (mem_locksOf.2 ⟨row, hrow, hlocked, m, hm, rfl⟩ : _ ∈ locksOf base shifts)
    obtain ⟨last, hlast, hpair, rfl⟩ := exists_of_lockedSource hsource
    obtain ⟨row₂, hrow₂, hlocked₂, m₂, hm₂, rfl⟩ := mem_locksOf.1 hlast
    obtain ⟨hmem₂, hkey₂⟩ := hasKey_of_matchedShift hm₂
    obtain ⟨hemployee, hid⟩ := Prod.mk.inj hpair
    obtain rfl : m₂ = m := eq_of_key_eq hids hmem₂ hmem hid
    have hsame : SameShift row row₂ := ⟨hemployee, hkey₂.1.symm.trans hkey.1,
      hkey₂.2.1.symm.trans hkey.2.1, hkey₂.2.2.symm.trans hkey.2.2⟩
    rw [hsource]
    exact congrArg some (hagree row hrow row₂ hrow₂ hlocked hlocked₂ hsame)

theorem leadsBack_withoutSite {locks : List LockedAssignment} {lock : LockedAssignment}
    {row : StoredAssignment} :
    LeadsBack (shifts.map ShiftSlot.withoutSite) locks lock row ↔
      LeadsBack shifts locks lock row := by
  have hfind : shiftById (shifts.map ShiftSlot.withoutSite) lock.shiftId =
      (shiftById shifts lock.shiftId).map ShiftSlot.withoutSite := by
    simp only [shiftById, ← map_reverse, find?_map]
    rfl
  refine and_congr_right fun _ => and_congr_left fun _ => ?_
  rw [hfind]
  constructor
  · rintro ⟨shift, hshift, hkey⟩
    obtain ⟨s, hs, rfl⟩ := Option.map_eq_some_iff.1 hshift
    exact ⟨s, hs, hkey⟩
  · rintro ⟨s, hs, hkey⟩
    exact ⟨s.withoutSite, by rw [hs]; rfl, hkey⟩

/-- **Re-optimizing keeps the locked assignments exactly when its locks lead back to them.** For
every base schedule and every request whose re-optimization completes, with a solver that answers
with solutions, at once or by approval of the relaxation it reports, every locked row of the base
schedule is in the new schedule, with its employee, times, skill and source, if and only if every
one of them is what the lock of a row leads back to. -/
theorem reoptimize_keeps_locked_iff {cpSolve : CpSolver} (hcp : ReturnsSolutions cpSolve)
    (hrep : request.Representable) (hinput : reoptimizeInput base request = .ok si)
    {rows : List StoredAssignment} (hrows : Completes cpSolve si rows) :
    (∀ row ∈ base, row.locked = true → ∃ row' ∈ rows, SameAssignment row row') ↔
      KeepsLocks base request.shifts := by
  obtain ⟨rfl, -⟩ := reoptimizeInput_ok hinput
  refine forall₃_congr fun row _ hlocked => ?_
  cases hrows with
  | executed hjob hrows => exact exists_sameAssignment_iff hcp hjob hrows hlocked
  | approved hjob happroved happroval hrows =>
    rename_i report snapshot relaxedInput result plan
    obtain ⟨-, -, -, -, rfl⟩ := decomposeSolvePersist_infeasible hjob
    have hrep' : SolveInput.Representable { request with
        lockedAssignments := locksOf base request.shifts } :=
      ⟨hrep.dateRangeStart, hrep.dateRangeEnd, hrep.expiresAt, hrep.shifts, hrep.leaveRecords,
        hrep.holidayDates⟩
    rw [approvedInput_serialize hrep'] at happroved
    cases happroved
    rw [exists_sameAssignment_iff hcp happroval hrows hlocked]
    exact exists_congr fun lock => and_congr_right fun _ => leadsBack_withoutSite

end Reoptimize

/-! ## One shift -/

/-- The rows of a job that completes when it is executed. -/
def executedRows (cpSolve : CpSolver) (si : SolveInput) : Option (List StoredAssignment) :=
  match decomposeSolvePersist cpSolve si false with
  | .ok (.completed result _) => persistedRows si result
  | _ => none

theorem completes_of_executedRows {cpSolve : CpSolver} {si : SolveInput}
    {rows : List StoredAssignment} (h : executedRows cpSolve si = some rows) :
    Completes cpSolve si rows := by
  unfold executedRows at h
  split at h
  · rename_i result plan hjob
    exact .executed hjob h
  · cases h

/-- One employee, and a shift from nine to thirteen. -/
def oneShift : SolveInput where
  dateRangeStart := 20514
  dateRangeEnd := 20514
  employees := [⟨1, 40, false, [⟨9, none, 0⟩], ∅, none⟩]
  shifts := [⟨11, ⟨20514 * 86400000000 + 9 * 3600000000, 0⟩,
    ⟨20514 * 86400000000 + 13 * 3600000000, 0⟩, 1, some 9, 0, none⟩]
  policy := ⟨6, 8, 60, none, none, none⟩
  leaveRecords := []
  timeLimitSeconds := 30
  fairness := none
  softWeights := ⟨1, 1, 1, 1⟩
  fairnessHistoryCounts := []
  relaxedCategories := ∅
  lockedAssignments := []

/-- The employee's row for the shift. -/
def shiftRow (source : AssignmentSource) : StoredAssignment :=
  ⟨1, ⟨20514 * 86400000000 + 9 * 3600000000, 0⟩, ⟨20514 * 86400000000 + 13 * 3600000000, 0⟩,
    some 9, source, false⟩

/-- A solver that finds the one schedule there is. -/
def oneShiftSolver : CpSolver := solveAmong [(Plan.ofPairs [(1, 11)]).valuation oneShift]

theorem oneShift_representable : oneShift.Representable where
  dateRangeStart := by
    show DateInRange 20514
    decide
  dateRangeEnd := by
    show DateInRange 20514
    decide
  expiresAt := by
    intro e he skill hskill d hd
    obtain rfl := mem_singleton.1 he
    obtain rfl := mem_singleton.1 hskill
    cases hd
  shifts := by decide +kernel
  leaveRecords := by simp [oneShift]
  holidayDates := by simp [oneShift]

/-- A claimed shift is re-optimized. -/
theorem oneShift_keeps_claim : ∃ si rows, reoptimizeInput [shiftRow .claim] oneShift = .ok si ∧
    Completes oneShiftSolver si rows ∧
      ∀ row ∈ [shiftRow .claim], row.locked = true → ∃ row' ∈ rows, SameAssignment row row' := by
  have hinput : reoptimizeInput [shiftRow .claim] oneShift =
      .ok { oneShift with lockedAssignments := [⟨1, 11, .claim⟩] } := rfl
  have hrows : executedRows oneShiftSolver { oneShift with
      lockedAssignments := [⟨1, 11, .claim⟩] } = some [shiftRow .claim] := by decide +kernel
  have hcompletes := completes_of_executedRows hrows
  refine ⟨_, _, hinput, hcompletes, (reoptimize_keeps_locked_iff (returnsSolutions_solveAmong _)
    oneShift_representable hinput hcompletes).2 ?_⟩
  refine (keepsLocks_iff (by decide) (reoptimizeInput_ok hinput).2).2 ?_
  intro row hrow row' hrow' _ _ _
  rw [mem_singleton.1 hrow, mem_singleton.1 hrow']

/-- The employee claimed the shift, and was then given another row for it by hand. The new schedule
has the row of the override; the claim is gone. -/
theorem claim_relabelled : ∃ si rows,
    reoptimizeInput [shiftRow .claim, shiftRow .manualOverride] oneShift = .ok si ∧
      Completes oneShiftSolver si rows ∧ rows = [shiftRow .manualOverride] ∧
      ¬ ∀ row ∈ [shiftRow .claim, shiftRow .manualOverride], row.locked = true →
        ∃ row' ∈ rows, SameAssignment row row' := by
  have hrows : executedRows oneShiftSolver { oneShift with
      lockedAssignments := [⟨1, 11, .claim⟩, ⟨1, 11, .manualOverride⟩] } =
        some [shiftRow .manualOverride] := by decide +kernel
  exact ⟨_, _, rfl, completes_of_executedRows hrows, rfl, by decide⟩

end Workforce.Scheduling
