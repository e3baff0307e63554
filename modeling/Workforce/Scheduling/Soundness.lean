import Workforce.Scheduling.Model

/-!
# Solutions of the solver's model are legal schedules

`LegalSchedule` says what no relaxation may give up: whoever is assigned to a shift and not locked
to it holds its skill and is not on leave, nobody works two shifts at a time unless locked to both,
every shift is staffed, and long shifts carry their break.

* `solutions_legal`: every solution of the constraints that `solve` emits is legal, whatever
  categories are relaxed.
* `solve_legal`: so is every schedule that `solve` returns, when the solver only returns solutions.
-/

namespace Workforce.Scheduling

open LinearModel List

/-! ## What is asked of a schedule -/

/-- The two shifts share a moment. -/
def ShiftSlot.Overlaps (s s' : ShiftSlot) : Prop :=
  s.start.instant < s'.fin.instant ∧ s'.start.instant < s.fin.instant

/-- Some skill of the employee is the one the shift requires and has not expired when it starts. -/
def Employee.Qualified (e : Employee) (s : ShiftSlot) : Prop :=
  ∀ skillId, s.requiredSkillId = some skillId →
    ∃ skill ∈ e.skills, skill.skillId = skillId ∧
      ∀ expiresAt, skill.expiresAt = some expiresAt → s.start.date ≤ expiresAt

/-- A leave record of the employee covers the day the shift starts. -/
def Employee.OnLeave (e : Employee) (leaveRecords : List LeaveRecord) (s : ShiftSlot) : Prop :=
  ∃ r ∈ leaveRecords, r.employeeId = e.id ∧ r.start ≤ s.start.date ∧ s.start.date ≤ r.fin

/-- What holds of the assigned pairs of a schedule, however much is relaxed. -/
structure LegalSchedule (si : SolveInput) (assigned : List (UUID × UUID)) : Prop where
  eligible : ∀ e ∈ si.employees, ∀ s ∈ si.shifts, (e.id, s.id) ∈ assigned →
    (e.id, s.id) ∈ si.lockedPairs ∨ e.Qualified s ∧ ¬ e.OnLeave si.leaveRecords s
  noOverlap : ∀ e ∈ si.employees, ∀ s ∈ si.shifts, ∀ s' ∈ si.shifts, s ≠ s' →
    (e.id, s.id) ∈ assigned → (e.id, s'.id) ∈ assigned → s.Overlaps s' →
    (e.id, s.id) ∈ si.lockedPairs ∧ (e.id, s'.id) ∈ si.lockedPairs
  staffed : ∀ s ∈ si.shifts,
    s.requiredHeadcount ≤ si.employees.countP fun e => (e.id, s.id) ∈ assigned
  breaks : ∀ s ∈ si.shifts, ∀ breakAfter, si.policy.mandatoryBreakAfterHours = some breakAfter →
    breakAfter < s.durationHours → si.policy.mandatoryBreakMinutes.getD 0 ≤ s.breakMinutes

/-! ## The checks -/

theorem seq_eq_ok {ε : Type*} {x y : Except ε Unit} :
    (x >>= fun _ => y) = .ok () ↔ x = .ok () ∧ y = .ok () := by
  cases x with
  | error e => simp [bind, Except.bind]
  | ok u => simp [bind, Except.bind]

theorem forM_eq_ok {ε α : Type*} {l : List α} {f : α → Except ε Unit} :
    l.forM f = .ok () ↔ ∀ a ∈ l, f a = .ok () := by
  induction l with
  | nil => simp [List.forM, pure, Except.pure]
  | cons a l ih =>
    rw [forall_mem_cons, ← ih]
    exact seq_eq_ok

variable {policy : EmploymentPolicy} {s : ShiftSlot}

theorem validateShiftBreak_eq_ok :
    validateShiftBreak policy s = .ok () ↔
      ∀ breakAfter, policy.mandatoryBreakAfterHours = some breakAfter →
        breakAfter < s.durationHours → policy.mandatoryBreakMinutes.getD 0 ≤ s.breakMinutes := by
  unfold validateShiftBreak
  cases policy.mandatoryBreakAfterHours with
  | none => simp [pure, Except.pure]
  | some breakAfter =>
    by_cases h : breakAfter < s.durationHours ∧ s.breakMinutes < policy.mandatoryBreakMinutes.getD 0
    · simp [h, throw, throwThe, MonadExceptOf.throw]
    · simp only [if_neg h, pure, Except.pure, true_iff]
      intro _ heq hlong
      cases heq
      exact not_lt.1 fun hshort => h ⟨hlong, hshort⟩

theorem validateShift_eq_ok {relaxed : Finset RelaxationCategory} :
    validateShift policy relaxed s = .ok () ↔
      (.shiftLengthBounds ∉ relaxed → validateShiftLength policy s = .ok ()) ∧
        validateShiftBreak policy s = .ok () := by
  unfold validateShift
  by_cases h : RelaxationCategory.shiftLengthBounds ∈ relaxed
  · simp [h]
  · simp [h, seq_eq_ok]

theorem validate_eq_ok {si : SolveInput} : validate si = .ok () ↔
    (∀ s ∈ si.shifts, validateShift si.policy si.relaxedCategories s = .ok ()) ∧
      validateLockedAssignments si = .ok () := by
  unfold validate validateShifts
  rw [seq_eq_ok, forM_eq_ok]

theorem breaks_of_validate {si : SolveInput} (h : validate si = .ok ()) (hs : s ∈ si.shifts) :
    ∀ breakAfter, si.policy.mandatoryBreakAfterHours = some breakAfter →
      breakAfter < s.durationHours → si.policy.mandatoryBreakMinutes.getD 0 ≤ s.breakMinutes :=
  validateShiftBreak_eq_ok.1 (validateShift_eq_ok.1 ((validate_eq_ok.1 h).1 s hs)).2

/-! ## The parts of the model -/

variable {si : SolveInput} {v : SolverVar → ℤ}

theorem solves_emittedModel (h : Solves v (emittedModel si)) :
    Solves v (decisionModel si) ∧
      Solves v (addCoverageConstraints (decisionPairs si) si.employees si.shifts) ∧
      Solves v (addNoConflictConstraints (decisionPairs si) si.employees si.shifts si.policy
        si.relaxedCategories si.lockedPairs) := by
  simp only [emittedModel, solves_append] at h
  exact ⟨h.1.1.1.1.1.1, h.1.1.1.1.1.2, h.1.1.1.1.2⟩

theorem mem_decisionPairs {pair : UUID × UUID} :
    pair ∈ decisionPairs si ↔ ∃ s ∈ si.shifts, ∃ e ∈ si.employees,
      ((e.id, s.id) ∈ si.lockedPairs ∨ isEligible e s si.leaveRecords = true) ∧
        (e.id, s.id) = pair := by
  simp [decisionPairs, and_assoc]

theorem mem_assignedPairs {pair : UUID × UUID} :
    pair ∈ assignedPairs si v ↔ pair ∈ decisionPairs si ∧ v (.x pair.1 pair.2) ≠ 0 := by
  simp [assignedPairs]

theorem eq_one_of_assigned (h : Solves v (decisionModel si)) {e s : UUID}
    (ha : (e, s) ∈ assignedPairs si v) : v (.x e s) = 1 := by
  obtain ⟨hx, hne⟩ := mem_assignedPairs.1 ha
  exact (h.bool (mem_map.2 ⟨(e, s), hx, rfl⟩)).resolve_left hne

/-! ### Skills and leave -/

variable {e : Employee}

theorem qualified_of_isEligible {leaveRecords : List LeaveRecord}
    (h : isEligible e s leaveRecords = true) : e.Qualified s ∧ ¬ e.OnLeave leaveRecords s := by
  simp only [isEligible, Bool.and_eq_true, Bool.not_eq_true', any_eq_false] at h
  obtain ⟨hskill, hleave⟩ := h
  constructor
  · intro skillId hreq
    rw [hreq] at hskill
    simp only [Employee.hasSkill, Option.all_some, any_eq_true, Bool.and_eq_true,
      decide_eq_true_eq] at hskill
    obtain ⟨skill, hmem, hid, hcov⟩ := hskill
    refine ⟨skill, hmem, hid, fun expiresAt hexp => ?_⟩
    simpa [EmployeeSkill.covers, hexp] using hcov
  · rintro ⟨r, hr, hid, hstart, hend⟩
    exact hleave r hr (by simp [hid, LeaveRecord.blocks, hstart, hend])

/-- With distinct ids, a pair has a variable when it is locked or its employee is eligible. -/
theorem locked_or_eligible (hemp : (si.employees.map (·.id)).Nodup)
    (hshift : (si.shifts.map (·.id)).Nodup) (he : e ∈ si.employees) (hs : s ∈ si.shifts)
    (h : (e.id, s.id) ∈ decisionPairs si) :
    (e.id, s.id) ∈ si.lockedPairs ∨ isEligible e s si.leaveRecords = true := by
  obtain ⟨s', hs', e', he', hcase, heq⟩ := mem_decisionPairs.1 h
  obtain ⟨hide, hids⟩ := Prod.mk.inj heq
  obtain rfl := inj_on_of_nodup_map hemp he' he hide
  obtain rfl := inj_on_of_nodup_map hshift hs' hs hids
  exact hcase

theorem eligible_of_assigned (hemp : (si.employees.map (·.id)).Nodup)
    (hshift : (si.shifts.map (·.id)).Nodup) (he : e ∈ si.employees) (hs : s ∈ si.shifts)
    (ha : (e.id, s.id) ∈ assignedPairs si v) :
    (e.id, s.id) ∈ si.lockedPairs ∨ e.Qualified s ∧ ¬ e.OnLeave si.leaveRecords s :=
  (locked_or_eligible hemp hshift he hs (mem_assignedPairs.1 ha).1).imp_right
    qualified_of_isEligible

/-! ### Overlaps -/

theorem conflicts_of_overlaps {s s' : ShiftSlot} (h : s.Overlaps s') (minRestHours : ℚ) :
    conflicts s s' minRestHours = true := by
  obtain ⟨h₁, h₂⟩ := h
  unfold conflicts
  by_cases hle : s.start.instant ≤ s'.start.instant
  · simp [hle, h₂]
  · simp [hle, h₁]

theorem ShiftSlot.Overlaps.symm {s s' : ShiftSlot} (h : s.Overlaps s') : s'.Overlaps s :=
  ⟨h.2, h.1⟩

/-- Two elements of a list are a pair of it, in the one order or the other. -/
theorem mem_orderedPairs {α : Type*} {l : List α} {a b : α} (ha : a ∈ l) (hb : b ∈ l)
    (hne : a ≠ b) : (a, b) ∈ orderedPairs l ∨ (b, a) ∈ orderedPairs l := by
  induction l with
  | nil => cases ha
  | cons c l ih =>
    simp only [orderedPairs, mem_append, mem_map, Prod.mk.injEq]
    rcases mem_cons.1 ha with rfl | ha'
    · rcases mem_cons.1 hb with rfl | hb'
      · exact absurd rfl hne
      · exact .inl (.inl ⟨b, hb', rfl, rfl⟩)
    · rcases mem_cons.1 hb with rfl | hb'
      · exact .inr (.inl ⟨a, ha', rfl, rfl⟩)
      · exact (ih ha' hb').imp .inr .inr

/-- Of two overlapping shifts an employee has variables for, not both locked, one is not
assigned. -/
theorem sum_le_one_of_overlaps {x : List (UUID × UUID)} {employees : List Employee}
    {shifts : List ShiftSlot} {relaxed : Finset RelaxationCategory}
    {lockedPairs : List (UUID × UUID)}
    (h : Solves v (addNoConflictConstraints x employees shifts policy relaxed lockedPairs))
    (he : e ∈ employees) {s s' : ShiftSlot} (hs : s ∈ shifts) (hs' : s' ∈ shifts)
    (hx : (e.id, s.id) ∈ x) (hx' : (e.id, s'.id) ∈ x) (hne : s ≠ s') (hover : s.Overlaps s')
    (hlocked : ¬ ((e.id, s.id) ∈ lockedPairs ∧ (e.id, s'.id) ∈ lockedPairs)) :
    v (.x e.id s.id) + v (.x e.id s'.id) ≤ 1 := by
  have hpair : ∀ {a b : ShiftSlot}, (a, b) ∈ orderedPairs (candidateShifts x shifts e) →
      a.Overlaps b → ¬ ((e.id, a.id) ∈ lockedPairs ∧ (e.id, b.id) ∈ lockedPairs) →
      v (.x e.id a.id) + v (.x e.id b.id) ≤ 1 := by
    intro a b hab hov hno
    have hc := h.holds ⟨xVar e.id a.id + xVar e.id b.id, .le, (1 : ℤ)⟩ ?_
    · simpa [Constraint.Holds, xVar] using hc
    · refine mem_flatMap.2 ⟨e, he, mem_map.2 ⟨(a, b), mem_filter.2 ⟨hab, ?_⟩, rfl⟩⟩
      simpa [conflicts_of_overlaps hov] using not_and_or.1 hno
  have hcand : s ∈ candidateShifts x shifts e := by simp [candidateShifts, hs, hx]
  have hcand' : s' ∈ candidateShifts x shifts e := by simp [candidateShifts, hs', hx']
  rcases mem_orderedPairs hcand hcand' hne with hmem | hmem
  · exact hpair hmem hover hlocked
  · have hle := hpair hmem hover.symm fun hboth => hlocked ⟨hboth.2, hboth.1⟩
    omega

theorem locked_of_overlaps (h : Solves v (emittedModel si)) (he : e ∈ si.employees)
    {s s' : ShiftSlot} (hs : s ∈ si.shifts) (hs' : s' ∈ si.shifts) (hne : s ≠ s')
    (ha : (e.id, s.id) ∈ assignedPairs si v) (ha' : (e.id, s'.id) ∈ assignedPairs si v)
    (hover : s.Overlaps s') : (e.id, s.id) ∈ si.lockedPairs ∧ (e.id, s'.id) ∈ si.lockedPairs := by
  obtain ⟨hdec, -, hconf⟩ := solves_emittedModel h
  by_contra hlocked
  have hle := sum_le_one_of_overlaps hconf he hs hs' (mem_assignedPairs.1 ha).1
    (mem_assignedPairs.1 ha').1 hne hover hlocked
  have hone := eq_one_of_assigned hdec ha
  have hone' := eq_one_of_assigned hdec ha'
  omega

/-! ### Coverage -/

/-- The sum over the variables of a shift is the number of employees assigned to it. -/
theorem eval_varsForShift (h : Solves v (decisionModel si)) (s : ShiftSlot) :
    ((varsForShift (decisionPairs si) si.employees s).sum.eval v) =
      si.employees.countP fun e => (e.id, s.id) ∈ assignedPairs si v := by
  have hbool : ∀ e ∈ si.employees.filter fun e => (e.id, s.id) ∈ decisionPairs si,
      v (.x e.id s.id) = 0 ∨ v (.x e.id s.id) = 1 := by
    intro e he
    have hx : (e.id, s.id) ∈ decisionPairs si := by simpa using (mem_filter.1 he).2
    exact h.bool (mem_map.2 ⟨(e.id, s.id), hx, rfl⟩)
  rw [LinExpr.eval_sum, varsForShift, map_map]
  have hsum := sum_eq_countP hbool
  simp only [Function.comp_def, xVar, LinExpr.eval_var]
  rw [hsum, countP_filter]
  congr 1
  refine countP_congr fun e he => ?_
  simp only [Bool.and_eq_true, decide_eq_true_eq, mem_assignedPairs]
  constructor
  · rintro ⟨hone, hx⟩
    exact ⟨hx, by omega⟩
  · rintro ⟨hx, hne⟩
    exact ⟨(h.bool (mem_map.2 ⟨(e.id, s.id), hx, rfl⟩)).resolve_left hne, hx⟩

theorem staffed_of_solves (h : Solves v (emittedModel si)) (hs : s ∈ si.shifts) :
    s.requiredHeadcount ≤ si.employees.countP fun e => (e.id, s.id) ∈ assignedPairs si v := by
  obtain ⟨hdec, hcov, -⟩ := solves_emittedModel h
  have hc := hcov.holds _ (mem_map.2 ⟨s, hs, rfl⟩)
  simp only [Constraint.Holds, LinExpr.eval_intCast] at hc
  rwa [eval_varsForShift hdec] at hc

/-! ## Soundness -/

/-- **Every solution is a legal schedule, whatever is relaxed.** For every input that passes the
checks of `solve` with distinct employee ids and distinct shift ids, and every valuation that
satisfies all the constraints emitted for it: the assigned pairs are locked, or of employees who
hold the required skill on the start date and are not on leave then; two shifts of an employee that
overlap are both locked; every shift has its headcount; and every shift longer than the threshold
carries the mandatory break. The relaxed categories are arbitrary. -/
theorem solutions_legal (hval : validate si = .ok ()) (hemp : (si.employees.map (·.id)).Nodup)
    (hshift : (si.shifts.map (·.id)).Nodup) (hsol : Solves v (emittedModel si)) :
    LegalSchedule si (assignedPairs si v) where
  eligible _ he _ hs := eligible_of_assigned hemp hshift he hs
  noOverlap _ he _ hs _ hs' := locked_of_overlaps hsol he hs hs'
  staffed _ hs := staffed_of_solves hsol hs
  breaks _ hs := breaks_of_validate hval hs

/-- Employee 1 is certified, employee 2 not any more and employee 3 is on leave. The two shifts
overlap; employee 2 is locked to the second one. Everything that can be relaxed is. -/
def relaxedInput : SolveInput where
  dateRangeStart := 20454
  dateRangeEnd := 20455
  employees := [⟨1, 40, false, [⟨9, some 20460, 0⟩], ∅, none⟩,
    ⟨2, 40, false, [⟨9, some 20400, 0⟩], ∅, none⟩, ⟨3, 40, true, [⟨9, none, 1 / 2⟩], {11}, none⟩]
  shifts := [⟨11, ⟨20454 * 86400000000 + 8 * 3600000000, 0⟩,
      ⟨20454 * 86400000000 + 16 * 3600000000, 0⟩, 1, some 9, 30, none⟩,
    ⟨12, ⟨20454 * 86400000000 + 12 * 3600000000, 0⟩, ⟨20454 * 86400000000 + 20 * 3600000000, 0⟩, 1,
      some 9, 30, none⟩]
  policy := ⟨5, 11, 240, some 600, some 6, some 30⟩
  leaveRecords := [⟨3, 20450, 20454⟩]
  timeLimitSeconds := 30
  fairness := none
  softWeights := ⟨1, 1, 1, 1⟩
  fairnessHistoryCounts := []
  relaxedCategories := relaxationOrder.toFinset
  lockedAssignments := [⟨2, 12, .manualOverride⟩]

/-- Employee 1 works the first shift and employee 2 the second. -/
def relaxedSolution : SolverVar → ℤ
  | .x e s => if (e = 1 ∧ s = 11) ∨ (e = 2 ∧ s = 12) then 1 else 0
  | .skillUsed e _ => if e = 1 ∨ e = 2 then 1 else 0
  | _ => 0

theorem relaxedSolution_legal : LegalSchedule relaxedInput [(1, 11), (2, 12)] := by
  have h : assignedPairs relaxedInput relaxedSolution = [(1, 11), (2, 12)] := by decide +kernel
  rw [← h]
  exact solutions_legal (by decide +kernel) (by decide) (by decide) (by decide +kernel)

/-- A solver that answers with solutions only. -/
def ReturnsSolutions
    (cpSolve : CpModel SolverVar → List (LinExpr SolverVar) → ℚ → CpStatus × (SolverVar → ℤ)) :
    Prop :=
  ∀ m terms limit status v, cpSolve m terms limit = (status, v) →
    status = .optimal ∨ status = .feasible → Solves v m

/-- A schedule that `solve` returns is that of a solution of the emitted constraints. -/
theorem solve_eq_ok
    {cpSolve : CpModel SolverVar → List (LinExpr SolverVar) → ℚ → CpStatus × (SolverVar → ℤ)}
    (hcp : ReturnsSolutions cpSolve) {r : SolveResult} (hr : solve cpSolve si = .ok r)
    (hstatus : r.status = .optimal ∨ r.status = .feasible) :
    validate si = .ok () ∧ ∃ v, Solves v (emittedModel si) ∧ r.assignments = assignments si v := by
  unfold solve at hr
  cases hval : validate si with
  | error e => simp [hval, bind, Except.bind] at hr
  | ok u =>
    cases hans : cpSolve (emittedModel si) (objectiveTerms si) si.timeLimitSeconds with
    | mk status v =>
      simp only [hval, hans, bind, Except.bind, pure, Except.pure] at hr
      split at hr
      · rename_i hno
        cases hr
        cases status <;> simp_all [CpStatus.name]
      · rename_i hyes
        cases hr
        refine ⟨rfl, v, hcp _ _ _ status v hans ?_, rfl⟩
        by_contra hcon
        exact hyes (not_or.1 hcon)

theorem map_assignments (si : SolveInput) (v : SolverVar → ℤ) :
    (assignments si v).map (fun a => (a.employeeId, a.shiftId)) = assignedPairs si v := by
  simp [assignments, Function.comp_def]

/-- Every schedule that `solve` returns is legal, whatever is relaxed. -/
theorem solve_legal
    {cpSolve : CpModel SolverVar → List (LinExpr SolverVar) → ℚ → CpStatus × (SolverVar → ℤ)}
    (hcp : ReturnsSolutions cpSolve) (hemp : (si.employees.map (·.id)).Nodup)
    (hshift : (si.shifts.map (·.id)).Nodup) {r : SolveResult} (hr : solve cpSolve si = .ok r)
    (hstatus : r.status = .optimal ∨ r.status = .feasible) :
    LegalSchedule si (r.assignments.map fun a => (a.employeeId, a.shiftId)) := by
  obtain ⟨hval, v, hsol, hassign⟩ := solve_eq_ok hcp hr hstatus
  rw [hassign, map_assignments]
  exact ⟨fun _ he _ hs => eligible_of_assigned hemp hshift he hs,
    fun _ he _ hs _ hs' => locked_of_overlaps hsol he hs hs', fun _ hs => staffed_of_solves hsol hs,
    fun _ hs => breaks_of_validate hval hs⟩

end Workforce.Scheduling
