import Workforce.Scheduling.Eligibility

/-!
# Locks open no headroom

The bounds on days and hours are raised to what the locks of an employee already make, so that locks
alone never break them. `NoHeadroom` says that this lets nothing else in: where the locks reach a
bound, nothing is added to them, and nothing is added that conflicts with a lock.
`locks_open_no_headroom` proves it of every solution in which nothing is relaxed.
-/

namespace Workforce.Scheduling

open Calendar LinearModel List

/-! ## Bounds that are raised to what is fixed -/

section Raised

variable {ι : Type*} {l : List ι} {chosen fixed : ι → Bool} {weight : ι → ℤ}

theorem sum_filter_eq (l : List ι) (p : ι → Bool) (weight : ι → ℤ) :
    ((l.filter p).map weight).sum = (l.map fun i => if p i then weight i else 0).sum := by
  induction l with
  | nil => rfl
  | cons i l ih =>
    by_cases hi : p i = true
    · simp [hi, ih]
    · simp [hi, ih]

/-- A bound raised to the weight of what is fixed leaves no room where what is fixed reaches it. -/
theorem fixed_of_le_max {bound : ℤ} (hnonneg : ∀ i ∈ l, 0 ≤ weight i)
    (hfixed : ∀ i ∈ l, fixed i = true → chosen i = true)
    (hle : ((l.filter chosen).map weight).sum ≤ max bound ((l.filter fixed).map weight).sum)
    (hfull : bound ≤ ((l.filter fixed).map weight).sum) {i : ι} (hi : i ∈ l)
    (hchosen : chosen i = true) (hpos : 0 < weight i) : fixed i = true := by
  rw [max_eq_right hfull, sum_filter_eq, sum_filter_eq] at hle
  by_contra hnot
  refine absurd hle (not_le.2 (sum_lt_sum _ _ (fun j hj => ?_) ⟨i, hi, ?_⟩))
  · have hj₀ := hnonneg j hj
    by_cases hjf : fixed j = true
    · rw [if_pos hjf, if_pos (hfixed j hj hjf)]
    · rw [if_neg hjf]
      split
      · exact hj₀
      · exact le_refl 0
  · rw [if_neg hnot, if_pos hchosen]
    exact hpos

theorem fixed_of_countP_le_max {bound : ℤ} (hfixed : ∀ i ∈ l, fixed i = true → chosen i = true)
    (hle : (l.countP chosen : ℤ) ≤ max bound (l.countP fixed)) (hfull : bound ≤ l.countP fixed)
    {i : ι} (hi : i ∈ l) (hchosen : chosen i = true) : fixed i = true := by
  have hcount : ∀ p : ι → Bool, (l.countP p : ℤ) = ((l.filter p).map fun _ => (1 : ℤ)).sum :=
    fun p => by simp [countP_eq_length_filter]
  rw [hcount, hcount] at hle
  rw [hcount] at hfull
  exact fixed_of_le_max (fun _ _ => zero_le_one) hfixed hle hfull hi hchosen zero_lt_one

end Raised

/-! ## What the locks leave -/

/-- Nothing is added to the locks of an employee where they reach a bound, and nothing that
conflicts with one of them. -/
structure NoHeadroom (si : SolveInput) (v : SolverVar → ℤ) (e : Employee) : Prop where
  hours : e.overtimeApproved = false → ∀ s ∈ si.shifts,
    roundHalfEven (e.contractHoursPerWeek * 60) ≤
      (Plan.ofPairs si.lockedPairs).minutes si.shifts e.id s.week →
    (e.id, s.id) ∈ assignedPairs si v → 0 < s.roundedMinutes → (e.id, s.id) ∈ si.lockedPairs
  days : ∀ first, si.dateRangeStart ≤ first →
    first + si.policy.maxConsecutiveWorkingDays ≤ si.dateRangeEnd →
    si.policy.maxConsecutiveWorkingDays ≤
      (daysFrom first (si.policy.maxConsecutiveWorkingDays + 1)).countP
        ((Plan.ofPairs si.lockedPairs).worksOn si.shifts e.id) →
    ∀ day, first ≤ day → day ≤ first + si.policy.maxConsecutiveWorkingDays →
      (planOf si v).worksOn si.shifts e.id day = true →
      (Plan.ofPairs si.lockedPairs).worksOn si.shifts e.id day = true
  conflicts : ∀ s ∈ si.shifts, ∀ s' ∈ si.shifts, (e.id, s.id) ∈ assignedPairs si v →
    (e.id, s.id) ∉ si.lockedPairs → (e.id, s'.id) ∈ si.lockedPairs →
    conflicts s s' si.policy.minRestHoursBetweenShifts = false

section Solutions

variable {si : SolveInput} {v : SolverVar → ℤ} {e : Employee}

theorem locked_le_planOf (h : Solves v (decisionModel si)) (he : e ∈ si.employees) {s : ShiftSlot}
    (hs : s ∈ si.shifts) (hlocked : Plan.ofPairs si.lockedPairs (e.id, s.id) = true) :
    planOf si v (e.id, s.id) = true := by
  have hlocked := of_decide_eq_true hlocked
  have hone := h.holds _ (mem_map.2 ⟨_, mem_dedup.2 hlocked, rfl⟩)
  simp only [Constraint.Holds, xVar, LinExpr.eval_var, LinExpr.eval_intCast] at hone
  refine planOf_eq_true.2 (mem_assignedPairs.2 ⟨locked_mem_decisionPairs he hs hlocked, ?_⟩)
  rw [hone]
  exact one_ne_zero

theorem noHeadroom_hours (hrelaxed : si.relaxedCategories = ∅)
    (hends : ∀ s ∈ si.shifts, s.start.instant ≤ s.fin.instant) (hsol : Solves v (emittedModel si))
    (he : e ∈ si.employees) (hnot : e.overtimeApproved = false) {s : ShiftSlot} (hs : s ∈ si.shifts)
    (hfull : roundHalfEven (e.contractHoursPerWeek * 60) ≤
      (Plan.ofPairs si.lockedPairs).minutes si.shifts e.id s.week)
    (hassigned : (e.id, s.id) ∈ assignedPairs si v) (hpos : 0 < s.roundedMinutes) :
    (e.id, s.id) ∈ si.lockedPairs := by
  have hparts := solves_emittedModel_iff.1 hsol
  have hle := (realizes_planOf hparts.1).solves_hours.1 hparts.2.2.2.2.1 e he
    (by simp [hnot, hrelaxed]) s.week
  have hfixed : ∀ t ∈ si.shifts, (Plan.ofPairs si.lockedPairs (e.id, t.id) && t.week = s.week) =
      true → (planOf si v (e.id, t.id) && t.week = s.week) = true := by
    intro t ht hboth
    obtain ⟨hlocked, hweek⟩ := Bool.and_eq_true_iff.1 hboth
    exact Bool.and_eq_true_iff.2 ⟨locked_le_planOf hparts.1 he ht hlocked, hweek⟩
  have hboth := fixed_of_le_max (fun t ht => roundedMinutes_nonneg (hends t ht)) hfixed hle hfull hs
    (Bool.and_eq_true_iff.2 ⟨planOf_eq_true.2 hassigned, decide_eq_true rfl⟩) hpos
  exact of_decide_eq_true (Bool.and_eq_true_iff.1 hboth).1

theorem noHeadroom_days (hrelaxed : si.relaxedCategories = ∅) (hsol : Solves v (emittedModel si))
    (he : e ∈ si.employees) {first day : ℤ} (hstart : si.dateRangeStart ≤ first)
    (hend : first + si.policy.maxConsecutiveWorkingDays ≤ si.dateRangeEnd)
    (hfull : si.policy.maxConsecutiveWorkingDays ≤
      (daysFrom first (si.policy.maxConsecutiveWorkingDays + 1)).countP
        ((Plan.ofPairs si.lockedPairs).worksOn si.shifts e.id))
    (hfirst : first ≤ day) (hlast : day ≤ first + si.policy.maxConsecutiveWorkingDays)
    (hworks : (planOf si v).worksOn si.shifts e.id day = true) :
    (Plan.ofPairs si.lockedPairs).worksOn si.shifts e.id day = true := by
  have hparts := solves_emittedModel_iff.1 hsol
  have hwithin := ((realizes_planOf hparts.1).solves_maxConsecutiveDays.1
    (hparts.2.2.2.1 (by simp [hrelaxed]) e he)).2
  have hwindow := (mem_dayWindows (hstart.trans (by omega)) (by omega)).2 ⟨first, hstart, hend, rfl⟩
  refine fixed_of_countP_le_max (fun d _ hlocked => ?_) (hwithin _ hwindow) hfull
    (mem_daysFrom.2 ⟨hfirst, by omega⟩) hworks
  obtain ⟨s, hs, hboth⟩ := any_eq_true.1 hlocked
  obtain ⟨hday, hlocked⟩ := Bool.and_eq_true_iff.1 hboth
  exact any_eq_true.2 ⟨s, hs,
    Bool.and_eq_true_iff.2 ⟨hday, locked_le_planOf hparts.1 he hs hlocked⟩⟩

theorem noHeadroom_conflicts (hrelaxed : si.relaxedCategories = ∅)
    (hends : ∀ s ∈ si.shifts, s.start.instant < s.fin.instant) (hsol : Solves v (emittedModel si))
    (he : e ∈ si.employees) {s s' : ShiftSlot} (hs : s ∈ si.shifts) (hs' : s' ∈ si.shifts)
    (hassigned : (e.id, s.id) ∈ assignedPairs si v) (hfree : (e.id, s.id) ∉ si.lockedPairs)
    (hlocked : (e.id, s'.id) ∈ si.lockedPairs) :
    conflicts s s' si.policy.minRestHoursBetweenShifts = false := by
  have hparts := solves_emittedModel_iff.1 hsol
  have hrest : requiredRest si.policy si.relaxedCategories =
      si.policy.minRestHoursBetweenShifts := by
    simp [requiredRest, hrelaxed]
  have hconf := (realizes_planOf hparts.1).solves_noConflict.1 hparts.2.2.1 e he
  rw [hrest] at hconf
  have ha := planOf_eq_true.2 hassigned
  have ha' := locked_le_planOf hparts.1 he hs' (decide_eq_true hlocked)
  have hne : s ≠ s' := by
    rintro rfl
    exact hfree hlocked
  rw [Bool.eq_false_iff]
  intro hboth
  -- The constraint is on the pair as it is listed, and a conflict does not depend on the order.
  rcases mem_orderedPairs hs hs' hne with hp | hp
  · exact hfree (hconf _ hp ha ha' hboth).1
  · rw [conflicts_comm (hends s hs) (hends s' hs')] at hboth
    exact hfree (hconf _ hp ha' ha hboth).2

/-- **Locks open no headroom.** For every input with nothing relaxed whose shifts end after they
start, and every solution of the emitted constraints: in a week where the locked minutes of an
employee without approval reach the rounded contract hours, the employee gets no other shift of
positive length; in a window of the range where the locked days reach the maximum, no other day is
worked; and no shift conflicts with a lock of the same employee unless it is locked, too. -/
theorem locks_open_no_headroom (hrelaxed : si.relaxedCategories = ∅)
    (hends : ∀ s ∈ si.shifts, s.start.instant < s.fin.instant)
    (hsol : Solves v (emittedModel si)) : ∀ e ∈ si.employees, NoHeadroom si v e := by
  intro e he
  exact
    { hours := fun hnot s hs hfull hassigned hpos =>
        noHeadroom_hours hrelaxed (fun t ht => (hends t ht).le) hsol he hnot hs hfull hassigned hpos
      days := fun first hstart hend hfull day hfirst hlast hworks =>
        noHeadroom_days hrelaxed hsol he hstart hend hfull hfirst hlast hworks
      conflicts := fun s hs s' hs' hassigned hfree hlocked =>
        noHeadroom_conflicts hrelaxed hends hsol he hs hs' hassigned hfree hlocked }

end Solutions

/-- Two employees with four contract hours, a lock that takes all those of the first, a shift of two
hours, and one from 10:00 to another second of the day. -/
def lockedOut (minShiftLength lastSecond : ℤ) : SolveInput where
  dateRangeStart := 20514
  dateRangeEnd := 20520
  employees := [worker 4, { worker 4 with id := 2 }]
  shifts := [shiftOn 11 20514 32400 46800, shiftOn 12 20515 32400 39600,
    shiftOn 13 20516 36000 lastSecond]
  policy := ⟨5, 8, minShiftLength, none, none, none⟩
  leaveRecords := []
  timeLimitSeconds := 30
  fairness := none
  softWeights := ⟨1, 1, 1, 1⟩
  fairnessHistoryCounts := []
  relaxedCategories := ∅
  lockedAssignments := [⟨1, 11, .manualOverride⟩]

/-- The second employee gets the two shifts that are not locked. -/
def lockedOutSolution : SolverVar → ℤ :=
  (Plan.ofPairs [(1, 11), (2, 12), (2, 13)]).valuation (lockedOut 60 39600)

theorem lockedOut_noHeadroom : NoHeadroom (lockedOut 60 39600) lockedOutSolution (worker 4) :=
  locks_open_no_headroom rfl (by decide) (by decide +kernel) (worker 4) mem_cons_self

/-- A shift of minus two hours makes room for one of two hours. -/
theorem backwardShift_opens_headroom : validate (lockedOut (-120) 28800) = .ok () ∧
    ∃ v, Solves v (emittedModel (lockedOut (-120) 28800)) ∧
      ¬ ∀ e ∈ (lockedOut (-120) 28800).employees, NoHeadroom (lockedOut (-120) 28800) v e := by
  refine ⟨by decide +kernel, (Plan.ofPairs [(1, 11), (1, 12), (1, 13)]).valuation
    (lockedOut (-120) 28800), by decide +kernel, fun hall => ?_⟩
  have hlocked := (hall (worker 4) mem_cons_self).hours rfl (shiftOn 12 20515 32400 39600)
    (by decide) (by decide +kernel) (by decide +kernel) (by decide +kernel)
  exact absurd hlocked (by decide)

end Workforce.Scheduling
