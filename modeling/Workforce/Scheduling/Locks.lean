import Workforce.Scheduling.DecompositionSoundness

/-!
# Locked assignments alone

Every family of constraints but two makes room for the locks: a conflict of two locks is not
forbidden, and the bounds on days and hours are raised to what the locks already make. Fairness and
the bound of the overtime variables are not adjusted. `locked_plan_feasible_iff` says that those two
decide whether the locks alone are a schedule.
-/

namespace Workforce.Scheduling

open LinearModel List

section Locked

variable {si : SolveInput}

theorem countP_lockedPairs_le (h : validateLockedAssignments si = .ok ()) (shiftId : UUID) :
    si.lockedPairs.dedup.countP (·.2 = shiftId) ≤
      si.employees.countP fun e => Plan.ofPairs si.lockedPairs (e.id, shiftId) := by
  have hnodup : ((si.lockedPairs.dedup.filter (·.2 = shiftId)).map Prod.fst).Nodup := by
    refine Nodup.map_on ?_ ((nodup_dedup _).filter _)
    intro p hp q hq hfst
    have hp := (mem_filter.1 hp).2
    have hq := (mem_filter.1 hq).2
    rw [decide_eq_true_eq] at hp hq
    exact Prod.ext hfst (hp.trans hq.symm)
  have hsubset : (si.lockedPairs.dedup.filter (·.2 = shiftId)).map Prod.fst ⊆
      (si.employees.filter fun e => Plan.ofPairs si.lockedPairs (e.id, shiftId)).map (·.id) := by
    intro id hid
    obtain ⟨p, hp, rfl⟩ := mem_map.1 hid
    obtain ⟨hp, hshift⟩ := mem_filter.1 hp
    rw [decide_eq_true_eq] at hshift
    have hp := mem_dedup.1 hp
    obtain ⟨locked, hlocked, rfl⟩ := mem_map.1 hp
    obtain ⟨⟨e, he, hide⟩, -⟩ := validateLockedAssignments_eq_ok.1 h locked hlocked
    refine mem_map.2 ⟨e, mem_filter.2 ⟨he, ?_⟩, hide⟩
    rw [hide, ← hshift, Plan.ofPairs, decide_eq_true_eq]
    exact hp
  have hle := (hnodup.subperm hsubset).length_le
  rw [length_map, length_map] at hle
  rwa [countP_eq_length_filter, countP_eq_length_filter]

theorem feasible_locked_iff (hvalid : validate si = .ok ())
    (hmeet : ∀ s ∈ si.shifts, s.requiredHeadcount ≤ si.lockedPairs.dedup.countP (·.2 = s.id)) :
    Feasible si (.ofPairs si.lockedPairs) ↔
      (∀ fairness, si.fairness = some fairness → (Plan.ofPairs si.lockedPairs).Fair si.employees
        si.shifts fairness si.fairnessHistoryCounts) ∧
      (si.softWeights.overtimeCostWeight ≠ 0 → ∀ e ∈ si.employees, e.overtimeApproved = true →
        (Plan.ofPairs si.lockedPairs).WithinOvertime (decisionPairs si) si.employees si.shifts
          e.id) := by
  refine ⟨fun h => ⟨h.fair, h.withinOvertime⟩, fun ⟨hfair, hovertime⟩ => ?_⟩
  have hlocked : ∀ p, Plan.ofPairs si.lockedPairs p = true ↔ p ∈ si.lockedPairs := fun p => by
    simp [Plan.ofPairs]
  exact
    { gated := fun p hp => known_of_validate hvalid p ((hlocked p).1 hp)
      locked := fun p hp => (hlocked p).2 hp
      staffed := by
        intro s hs
        have hle := countP_lockedPairs_le (validate_eq_ok.1 hvalid).2 s.id
        have hneed := hmeet s hs
        omega
      conflictFree := fun e _ p _ ha ha' _ => ⟨(hlocked _).1 ha, (hlocked _).1 ha'⟩
      withinDays := fun _ _ _ _ _ => le_max_right _ _
      withinHours := fun _ _ _ _ => le_max_right _ _
      fair := hfair
      withinOvertime := hovertime }

/-- **When the locks alone are a schedule.** For every input that passes the checks of `solve` and
whose locks meet the headcount of every shift, whatever is relaxed: a solution assigns exactly the
locked pairs if and only if these are fair, where fairness is asked for, and the overtime they make
is within the bound of its variables, where overtime costs. -/
theorem locked_plan_feasible_iff (hvalid : validate si = .ok ())
    (hmeet : ∀ s ∈ si.shifts, s.requiredHeadcount ≤ si.lockedPairs.dedup.countP (·.2 = s.id)) :
    (∃ v, Solves v (emittedModel si) ∧ ∀ p, p ∈ assignedPairs si v ↔ p ∈ si.lockedPairs) ↔
      (∀ fairness, si.fairness = some fairness → (Plan.ofPairs si.lockedPairs).Fair si.employees
        si.shifts fairness si.fairnessHistoryCounts) ∧
      (si.softWeights.overtimeCostWeight ≠ 0 → ∀ e ∈ si.employees, e.overtimeApproved = true →
        (Plan.ofPairs si.lockedPairs).WithinOvertime (decisionPairs si) si.employees si.shifts
          e.id) := by
  rw [← feasible_locked_iff hvalid hmeet, feasible_iff (known_of_validate hvalid)]
  refine exists_congr fun v => and_congr_right fun _ => forall_congr' fun p => ?_
  rw [Plan.ofPairs, decide_eq_true_eq]
  exact Iff.comm

end Locked

/-- Three night shifts, all locked to employee 1; employee 2 does not have the skill. -/
def lockedNights (tolerance : ℤ) : SolveInput where
  dateRangeStart := 20514
  dateRangeEnd := 20516
  employees := [⟨1, 40, false, [⟨9, none, 0⟩], ∅, none⟩, ⟨2, 40, false, [], ∅, none⟩]
  shifts := [20514, 20515, 20516].map fun day => ⟨BitVec.ofInt 128 day,
    ⟨day * 86400000000 + 22 * 3600000000, 0⟩, ⟨(day + 1) * 86400000000 + 4 * 3600000000, 0⟩, 1,
    some 9, 0, none⟩
  policy := ⟨6, 8, 60, none, none, none⟩
  leaveRecords := []
  timeLimitSeconds := 30
  fairness := some ⟨4, tolerance, true, some 21, some 5, ∅⟩
  softWeights := ⟨1, 1, 1, 1⟩
  fairnessHistoryCounts := []
  relaxedCategories := ∅
  lockedAssignments := [20514, 20515, 20516].map fun day => ⟨1, day, .manualOverride⟩

/-- A tolerance of two shifts lets one employee have three and the other none. -/
theorem lockedNights_two_feasible : ∃ v, Solves v (emittedModel (lockedNights 2)) ∧
    ∀ p, p ∈ assignedPairs (lockedNights 2) v ↔ p ∈ (lockedNights 2).lockedPairs := by
  refine (locked_plan_feasible_iff (by decide +kernel) (by decide +kernel)).2 ⟨?_, ?_⟩
  · rintro _ ⟨⟩
    exact .inr (by decide +kernel)
  · intro _ e he happroved
    simp only [lockedNights, mem_cons, not_mem_nil, or_false] at he
    rcases he with rfl | rfl
    · cases happroved
    · cases happroved

/-- A tolerance of one does not, and there is no schedule at all. -/
theorem lockedNights_one_infeasible : validate (lockedNights 1) = .ok () ∧
    (∀ s ∈ (lockedNights 1).shifts,
      s.requiredHeadcount ≤ (lockedNights 1).lockedPairs.dedup.countP (·.2 = s.id)) ∧
    ¬ ∃ v, Solves v (emittedModel (lockedNights 1)) := by
  refine ⟨by decide +kernel, by decide +kernel, ?_⟩
  rintro ⟨v, hv⟩
  have hvalid : validate (lockedNights 1) = .ok () := by decide +kernel
  have hfeasible := (feasible_iff (known_of_validate hvalid)).2
    ⟨v, hv, fun p => planOf_eq_true⟩
  -- Only the locked pairs have a variable.
  have hpairs : decisionPairs (lockedNights 1) = (lockedNights 1).lockedPairs := by decide +kernel
  have hplan : planOf (lockedNights 1) v = .ofPairs (lockedNights 1).lockedPairs := by
    funext p
    rw [Bool.eq_iff_iff, Plan.ofPairs, decide_eq_true_eq, ← hpairs]
    exact ⟨hfeasible.gated p, fun hp => hfeasible.locked p (hpairs ▸ hp)⟩
  have hfair := hfeasible.fair _ rfl
  rw [hplan] at hfair
  rcases hfair with hnil | hall
  · exact absurd hnil (by decide +kernel)
  · exact absurd (hall _ mem_cons_self).1 (by decide +kernel)

end Workforce.Scheduling
