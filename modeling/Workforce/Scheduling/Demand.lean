import Workforce.Scheduling.Eligibility

/-!
# The same people and shifts under another demand

Whether an input has a solution at all is decided by what is demanded: the headcounts, the fairness
bound, the locks. What a solution can assign to one employee is decided by the gate, the times of
the shifts, and the bounds of the employee. `withDemand` changes the demand and nothing else, and
`Workable` says what an employee could be given if nobody else were asked for:

* `workable_of_solves`: what a solution assigns without a lock is workable, under every demand.
* `exists_solves_of_workable`: what is workable is assigned under some demand.

So a property of what one employee works holds under every demand exactly when it holds of what is
workable and within the bounds that are not relaxed.
-/

namespace Workforce.Scheduling

open Calendar LinearModel List

/-! ## Demands -/

/-- What is asked of the people and the shifts of an input. -/
structure Demand where
  headcount : ShiftSlot → ℤ
  fairness : Option FairnessConfig
  fairnessHistoryCounts : List (UUID × ℤ)
  softWeights : SoftWeights
  relaxedCategories : Finset RelaxationCategory
  lockedAssignments : List LockedAssignment

def ShiftSlot.withHeadcount (headcount : ShiftSlot → ℤ) (s : ShiftSlot) : ShiftSlot :=
  { s with requiredHeadcount := headcount s }

/-- The input with another demand. -/
def SolveInput.withDemand (si : SolveInput) (d : Demand) : SolveInput :=
  { si with
    shifts := si.shifts.map (ShiftSlot.withHeadcount d.headcount)
    fairness := d.fairness
    fairnessHistoryCounts := d.fairnessHistoryCounts
    softWeights := d.softWeights
    relaxedCategories := d.relaxedCategories
    lockedAssignments := d.lockedAssignments }

theorem SolveInput.lockedPairs_withDemand (si : SolveInput) {d : Demand}
    (hlocks : d.lockedAssignments = []) : (si.withDemand d).lockedPairs = [] := by
  rw [lockedPairs, withDemand, hlocks, map_nil]

/-- Nothing is asked for, and some categories are relaxed. -/
def Demand.nothing (relaxed : Finset RelaxationCategory) : Demand where
  headcount := fun _ => 0
  fairness := none
  fairnessHistoryCounts := []
  softWeights := ⟨0, 0, 0, 0⟩
  relaxedCategories := relaxed
  lockedAssignments := []

theorem keepsTimes_withHeadcount (headcount : ShiftSlot → ℤ) :
    KeepsTimes (ShiftSlot.withHeadcount headcount) :=
  ⟨fun _ => rfl, fun _ => rfl, fun _ => rfl⟩

/-! ## What one employee can be given -/

/-- The employee may be given these shifts together when nobody else is asked for: there is a
variable for each, without any locks, and no two of them overlap. -/
structure Workable (si : SolveInput) (e : Employee) (chosen : List ShiftSlot) : Prop where
  gated : ∀ s ∈ chosen, (e.id, s.id) ∈ decisionPairs { si with lockedAssignments := [] }
  conflictFree : (e.plan chosen).ConflictFree si.shifts 0 [] e.id

theorem Employee.plan_eq_true_iff {e : Employee} {chosen : List ShiftSlot} {p : UUID × UUID} :
    e.plan chosen p = true ↔ ∃ s ∈ chosen, (e.id, s.id) = p := by
  simp [Employee.plan, Plan.ofPairs]

/-- Only the pairs of the employee and the shifts matter to the days worked. -/
theorem Plan.worksOn_congr {a b : Plan} {shifts : List ShiftSlot} {employeeId : UUID}
    (h : ∀ s ∈ shifts, a (employeeId, s.id) = b (employeeId, s.id)) :
    a.worksOn shifts employeeId = b.worksOn shifts employeeId := by
  funext day
  rw [worksOn, worksOn, Bool.eq_iff_iff, any_eq_true, any_eq_true]
  exact exists_congr fun s => and_congr_right fun hs => by rw [h s hs]

theorem Plan.minutes_congr {a b : Plan} {shifts : List ShiftSlot} {employeeId : UUID}
    (h : ∀ s ∈ shifts, a (employeeId, s.id) = b (employeeId, s.id)) :
    a.minutes shifts employeeId = b.minutes shifts employeeId := by
  funext week
  rw [minutes, minutes, filter_congr fun s hs => by rw [h s hs]]

theorem Employee.plan_eq_false {e : Employee} {chosen : List ShiftSlot} {employeeId shiftId : UUID}
    (hne : employeeId ≠ e.id) : e.plan chosen (employeeId, shiftId) = false := by
  rw [Bool.eq_false_iff, ne_eq, Employee.plan_eq_true_iff]
  rintro ⟨s, -, heq⟩
  exact hne (Prod.mk.inj heq).1.symm

section Others

variable {e : Employee} {chosen : List ShiftSlot}

theorem Employee.conflictFree_plan_of_ne {employeeId : UUID} (hne : employeeId ≠ e.id)
    (shifts : List ShiftSlot) (minRestHours : ℚ) (lockedPairs : List (UUID × UUID)) :
    (e.plan chosen).ConflictFree shifts minRestHours lockedPairs employeeId := by
  intro p _ ha
  rw [Employee.plan_eq_false hne] at ha
  cases ha

theorem Employee.withinDays_plan_of_ne {employeeId : UUID} (hne : employeeId ≠ e.id)
    (shifts : List ShiftSlot) (allDays : List ℤ) (maxConsecutiveDays : ℤ)
    (lockedPairs : List (UUID × UUID)) :
    (e.plan chosen).WithinDays shifts allDays maxConsecutiveDays lockedPairs employeeId := by
  intro window _
  have hzero : window.countP ((e.plan chosen).worksOn shifts employeeId) = 0 := by
    refine countP_eq_zero.2 fun day _ => ?_
    rw [Plan.worksOn_eq_false (fun _ _ => Employee.plan_eq_false hne)]
    exact Bool.false_ne_true
  rw [hzero]
  exact le_max_of_le_right (Int.natCast_nonneg _)

theorem Employee.withinHours_plan_of_ne {e' : Employee} (hne : e'.id ≠ e.id)
    (shifts : List ShiftSlot) : (e.plan chosen).WithinHours shifts [] e' := by
  intro week
  rw [Plan.minutes_eq_zero_of_forall (fun _ _ => Employee.plan_eq_false hne),
    Plan.minutes_ofPairs_nil]
  exact le_max_right _ _

end Others

section Reduction

variable {si : SolveInput} {d : Demand} {v : SolverVar → ℤ} {e : Employee}
  {chosen : List ShiftSlot}

/-- The gate does not ask for what is demanded: without a lock, there is a variable under one demand
exactly when there is one under any other. -/
theorem mem_decisionPairs_withDemand {p : UUID × UUID}
    (hp : p ∉ (si.withDemand d).lockedPairs) : p ∈ decisionPairs (si.withDemand d) ↔
      p ∈ decisionPairs { si with lockedAssignments := [] } := by
  simp only [mem_decisionPairs, SolveInput.withDemand, mem_map, exists_exists_and_eq_and]
  refine exists_congr fun s => and_congr_right fun _ => exists_congr fun e => and_congr_right
    fun _ => and_congr_left fun heq => ?_
  have hlocked : (e.id, s.id) ∉ (si.withDemand d).lockedPairs := heq ▸ hp
  exact (or_iff_right hlocked).trans (or_iff_right not_mem_nil).symm

/-- **What a solution assigns without locks is workable**, whatever is demanded. -/
theorem workable_of_solves (hsol : Solves v (emittedModel (si.withDemand d)))
    (he : e ∈ si.employees) (hchosen : ∀ s ∈ chosen, (e.id, s.id) ∈
      assignedPairs (si.withDemand d) v ∧ (e.id, s.id) ∉ (si.withDemand d).lockedPairs) :
    Workable si e chosen := by
  have hparts := solves_emittedModel_iff.1 hsol
  refine ⟨fun s hs => ?_, fun p hp ha ha' hconf => ?_⟩
  · obtain ⟨ha, hfree⟩ := hchosen s hs
    exact (mem_decisionPairs_withDemand hfree).1 (mem_assignedPairs.1 ha).1
  · obtain ⟨s, hs, heq⟩ := Employee.plan_eq_true_iff.1 ha
    obtain ⟨s', hs', heq'⟩ := Employee.plan_eq_true_iff.1 ha'
    have hplan : ∀ s ∈ chosen, planOf (si.withDemand d) v (e.id, s.id) = true := fun s hs =>
      planOf_eq_true.2 (hchosen s hs).1
    have hall := (realizes_planOf hparts.1).solves_noConflict.1 hparts.2.2.1 e he
    have hlocked := ((keepsTimes_withHeadcount d.headcount).conflictFree_map _ _ _).1 hall p hp
      (heq ▸ hplan s hs) (heq' ▸ hplan s' hs') (conflicts_of_zero hconf _)
    exact absurd (heq ▸ hlocked.1) (hchosen s hs).2

/-- Without any locks, all that an employee works is workable together. -/
theorem exists_workable_of_solves (hsol : Solves v (emittedModel (si.withDemand d)))
    (he : e ∈ si.employees) (hlocks : d.lockedAssignments = []) : ∃ chosen, Workable si e chosen ∧
      ∀ s ∈ si.shifts, e.plan chosen (e.id, s.id) = planOf (si.withDemand d) v (e.id, s.id) := by
  refine ⟨si.shifts.filter fun s => planOf (si.withDemand d) v (e.id, s.id),
    workable_of_solves hsol he fun s hs => ?_, fun s hs => ?_⟩
  · refine ⟨planOf_eq_true.1 (mem_filter.1 hs).2, ?_⟩
    rw [si.lockedPairs_withDemand hlocks]
    exact not_mem_nil
  · rw [Bool.eq_iff_iff, Employee.plan_eq_true_iff]
    constructor
    · rintro ⟨s', hs', heq⟩
      rw [← heq]
      exact (mem_filter.1 hs').2
    · intro ha
      exact ⟨s, mem_filter.2 ⟨hs, ha⟩, rfl⟩

/-- What is workable and within the bounds that are not relaxed is a feasible plan when nothing is
demanded. -/
theorem Workable.feasible (h : Workable si e chosen) (relaxed : Finset RelaxationCategory)
    (hrest : .minRestBetweenShifts ∈ relaxed)
    (hdays : .maxConsecutiveWorkingDays ∉ relaxed → (e.plan chosen).WithinDays si.shifts
      (dateRange si.dateRangeStart si.dateRangeEnd) si.policy.maxConsecutiveWorkingDays [] e.id)
    (hhours : .contractedHours ∉ relaxed → ∀ e' ∈ si.employees, e'.id = e.id →
      e'.overtimeApproved = false → (e.plan chosen).WithinHours si.shifts [] e') :
    Feasible (si.withDemand (.nothing relaxed)) (e.plan chosen) where
  gated := by
    intro p hp
    obtain ⟨s, hs, rfl⟩ := Employee.plan_eq_true_iff.1 hp
    exact (mem_decisionPairs_withDemand not_mem_nil).2 (h.gated s hs)
  locked _ hp := absurd hp not_mem_nil
  staffed := by
    intro s hs
    obtain ⟨s', -, rfl⟩ := mem_map.1 hs
    exact Int.natCast_nonneg _
  conflictFree := by
    intro e' _
    have hrelaxed : requiredRest si.policy relaxed = 0 := if_pos hrest
    refine ((keepsTimes_withHeadcount _).conflictFree_map _ _ _).2 ?_
    show (e.plan chosen).ConflictFree si.shifts (requiredRest si.policy relaxed) [] e'.id
    rw [hrelaxed]
    by_cases hid : e'.id = e.id
    · rw [hid]
      exact h.conflictFree
    · exact Employee.conflictFree_plan_of_ne hid _ _ _
  withinDays := by
    intro hrelaxed e' _
    rw [SolveInput.withDemand, Plan.WithinDays]
    simp only [(keepsTimes_withHeadcount _).worksOn_map]
    by_cases hid : e'.id = e.id
    · rw [hid]
      exact hdays hrelaxed
    · exact Employee.withinDays_plan_of_ne hid _ _ _ _
  withinHours := by
    intro e' he' hbound
    rw [SolveInput.withDemand, Plan.WithinHours]
    simp only [(keepsTimes_withHeadcount _).minutes_map]
    by_cases hid : e'.id = e.id
    · refine hhours (fun hrelaxed => hbound (.inr hrelaxed)) e' he' hid ?_
      exact Bool.eq_false_iff.2 fun happroved => hbound (.inl happroved)
    · exact Employee.withinHours_plan_of_ne hid _
  fair _ hfair := by cases hfair
  withinOvertime hweight := absurd rfl hweight

/-- **What is workable is assigned under some demand**, when it is within the bounds that are not
relaxed. -/
theorem exists_solves_of_workable (h : Workable si e chosen) (relaxed : Finset RelaxationCategory)
    (hrest : .minRestBetweenShifts ∈ relaxed)
    (hdays : .maxConsecutiveWorkingDays ∉ relaxed → (e.plan chosen).WithinDays si.shifts
      (dateRange si.dateRangeStart si.dateRangeEnd) si.policy.maxConsecutiveWorkingDays [] e.id)
    (hhours : .contractedHours ∉ relaxed → ∀ e' ∈ si.employees, e'.id = e.id →
      e'.overtimeApproved = false → (e.plan chosen).WithinHours si.shifts [] e') :
    ∃ v, Solves v (emittedModel (si.withDemand (.nothing relaxed))) ∧
      planOf (si.withDemand (.nothing relaxed)) v = e.plan chosen := by
  obtain ⟨v, hsol, hplan⟩ := (feasible_iff fun p hp => absurd hp not_mem_nil).1
    (h.feasible relaxed hrest hdays hhours)
  refine ⟨v, hsol, ?_⟩
  funext p
  rw [Bool.eq_iff_iff, planOf_eq_true, hplan]

end Reduction

end Workforce.Scheduling
