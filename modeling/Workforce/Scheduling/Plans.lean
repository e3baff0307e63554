import Workforce.Scheduling.Soundness

/-!
# What the constraints say of a plan

A plan says which pairs of employee and shift are assigned. The other variables of the solver's
model are determined by it, so the constraints can be read as conditions on the plan alone:
`Feasible` lists them, one for each family of constraints, and `feasible_iff` says that a plan is
feasible exactly when a solution of the emitted model realizes it.
-/

namespace Workforce.Scheduling

open Calendar LinearModel List Function

/-- Which pairs of employee and shift are assigned. -/
abbrev Plan := UUID × UUID → Bool

namespace Plan

/-- The plan that assigns the pairs of a list, such as the locked ones. -/
def ofPairs (pairs : List (UUID × UUID)) : Plan := fun pair => pair ∈ pairs

variable (a : Plan) (shifts : List ShiftSlot) (employeeId : UUID)

/-- The employee works a shift that starts on the day. -/
def worksOn (day : ℤ) : Bool := shifts.any fun s => s.start.date = day && a (employeeId, s.id)

/-- The minutes the employee works in a week. -/
def minutes (week : ℤ) : ℤ :=
  ((shifts.filter fun s => a (employeeId, s.id) && s.week = week).map (·.roundedMinutes)).sum

/-- The employee works a shift that requires the skill. -/
def uses (skillId : UUID) : Bool :=
  shifts.any fun s => s.requiredSkillId = some skillId && a (employeeId, s.id)

end Plan

/-- The valuation assigns the pairs of the plan, which all have a variable. -/
structure Realizes (x : List (UUID × UUID)) (a : Plan) (v : SolverVar → ℤ) : Prop where
  gated : ∀ p, a p = true → p ∈ x
  value : ∀ p ∈ x, v (.x p.1 p.2) = if a p then 1 else 0

section Families

variable {x : List (UUID × UUID)} {a : Plan} {v : SolverVar → ℤ}

/-- A weighted sum over the variables of a list is the weight of what is assigned of it. -/
theorem Realizes.sum_mul {ι : Type*} (h : Realizes x a v) (l : List ι) (f : ι → UUID × UUID)
    (w : ι → ℤ) :
    ((l.filter fun i => f i ∈ x).map fun i => w i * v (.x (f i).1 (f i).2)).sum =
      ((l.filter fun i => a (f i)).map w).sum := by
  induction l with
  | nil => rfl
  | cons i l ih =>
    by_cases hx : f i ∈ x
    · rw [filter_cons_of_pos (by simpa using hx), map_cons, sum_cons, ih, h.value _ hx]
      by_cases ha : a (f i) = true
      · simp [ha]
      · simp [ha]
    · have ha : a (f i) ≠ true := fun ha => hx (h.gated _ ha)
      simp [hx, ha, ih]

theorem Realizes.sum_eq_countP {ι : Type*} (h : Realizes x a v) (l : List ι) (f : ι → UUID × UUID) :
    ((l.filter fun i => f i ∈ x).map fun i => v (.x (f i).1 (f i).2)).sum =
      l.countP fun i => a (f i) := by
  have hsum := h.sum_mul l f fun _ => 1
  simp only [one_mul] at hsum
  rw [hsum, countP_eq_length_filter]
  simp

/-! ## Coverage and conflicts -/

variable {employees : List Employee} {shifts : List ShiftSlot}

theorem Realizes.solves_coverage (h : Realizes x a v) :
    Solves v (addCoverageConstraints x employees shifts) ↔
      ∀ s ∈ shifts, s.requiredHeadcount ≤ employees.countP fun e => a (e.id, s.id) := by
  have heval : ∀ s : ShiftSlot, (varsForShift x employees s).sum.eval v =
      employees.countP fun e => a (e.id, s.id) := by
    intro s
    rw [← h.sum_eq_countP, LinExpr.eval_sum, varsForShift, map_map]
    simp [comp_def, xVar]
  rw [addCoverageConstraints, solves_ofConstraints, forall_mem_map]
  simp [Constraint.Holds, heval]

theorem mem_orderedPairs_filter {α : Type*} {l : List α} {p : α → Bool} {b c : α} :
    (b, c) ∈ orderedPairs (l.filter p) ↔ (b, c) ∈ orderedPairs l ∧ p b = true ∧ p c = true := by
  induction l with
  | nil => simp [orderedPairs]
  | cons d l ih =>
    by_cases hd : p d = true
    · rw [filter_cons_of_pos hd]
      simp only [orderedPairs, mem_append, mem_map, mem_filter, Prod.mk.injEq, ih]
      constructor
      · rintro (⟨e, ⟨he, hpe⟩, rfl, rfl⟩ | ⟨hbc, hb, hc⟩)
        · exact ⟨.inl ⟨e, he, rfl, rfl⟩, hd, hpe⟩
        · exact ⟨.inr hbc, hb, hc⟩
      · rintro ⟨⟨e, he, rfl, rfl⟩ | hbc, hb, hc⟩
        · exact .inl ⟨e, ⟨he, hc⟩, rfl, rfl⟩
        · exact .inr ⟨hbc, hb, hc⟩
    · rw [filter_cons_of_neg hd, ih]
      simp only [orderedPairs, mem_append, mem_map, Prod.mk.injEq]
      constructor
      · rintro ⟨hbc, hb, hc⟩
        exact ⟨.inr hbc, hb, hc⟩
      · rintro ⟨⟨e, he, rfl, rfl⟩ | hbc, hb, hc⟩
        · exact absurd hb hd
        · exact ⟨hbc, hb, hc⟩

theorem mem_of_mem_orderedPairs {α : Type*} {l : List α} {b c : α} (h : (b, c) ∈ orderedPairs l) :
    b ∈ l ∧ c ∈ l := by
  induction l with
  | nil => cases h
  | cons d l ih =>
    rcases mem_append.1 h with h | h
    · obtain ⟨_, he, heq⟩ := mem_map.1 h
      cases heq
      exact ⟨mem_cons_self, mem_cons_of_mem _ he⟩
    · exact ⟨mem_cons_of_mem _ (ih h).1, mem_cons_of_mem _ (ih h).2⟩

theorem ne_of_mem_orderedPairs {α : Type*} {l : List α} (hl : l.Nodup) {b c : α}
    (h : (b, c) ∈ orderedPairs l) : b ≠ c := by
  induction l with
  | nil => cases h
  | cons d l ih =>
    rw [nodup_cons] at hl
    rcases mem_append.1 h with h | h
    · obtain ⟨_, he, heq⟩ := mem_map.1 h
      cases heq
      rintro rfl
      exact hl.1 he
    · exact ih hl.2 h

theorem conflicts_of_zero {s s' : ShiftSlot} (h : conflicts s s' 0 = true) (minRestHours : ℚ) :
    conflicts s s' minRestHours = true := by
  unfold conflicts at h ⊢
  generalize (if s.start.instant ≤ s'.start.instant then (s, s') else (s', s)) = pair at h ⊢
  obtain ⟨earlier, later⟩ := pair
  by_cases hoverlap : later.start.instant < earlier.fin.instant
  · simp [hoverlap]
  · simp only [if_neg hoverlap, decide_eq_true_eq] at h
    have hgap : (0 : ℚ) ≤ ((later.start.instant - earlier.fin.instant : ℤ) : ℚ) := by
      exact_mod_cast sub_nonneg.2 (not_lt.1 hoverlap)
    exact absurd h (not_lt.2 (div_nonneg hgap (by norm_num [microsPerHour])))

/-- The rest that is required between shifts, less what is relaxed. -/
def requiredRest (policy : EmploymentPolicy) (relaxed : Finset RelaxationCategory) : ℚ :=
  if .minRestBetweenShifts ∈ relaxed then 0 else policy.minRestHoursBetweenShifts

/-- The employee has no two shifts that conflict, but for pairs that are both locked. -/
def Plan.ConflictFree (a : Plan) (shifts : List ShiftSlot) (minRestHours : ℚ)
    (lockedPairs : List (UUID × UUID)) (employeeId : UUID) : Prop :=
  ∀ p ∈ orderedPairs shifts, a (employeeId, p.1.id) = true → a (employeeId, p.2.id) = true →
    conflicts p.1 p.2 minRestHours = true →
      (employeeId, p.1.id) ∈ lockedPairs ∧ (employeeId, p.2.id) ∈ lockedPairs

variable {lockedPairs : List (UUID × UUID)}

theorem Realizes.solves_noConflict (h : Realizes x a v) {policy : EmploymentPolicy}
    {relaxed : Finset RelaxationCategory} :
    Solves v (addNoConflictConstraints x employees shifts policy relaxed lockedPairs) ↔
      ∀ e ∈ employees, a.ConflictFree shifts (requiredRest policy relaxed) lockedPairs e.id := by
  simp only [addNoConflictConstraints, solves_ofConstraints, mem_flatMap, mem_map,
    mem_filter, candidateShifts]
  constructor
  · rintro hsol e he ⟨s, s'⟩ hp ha ha' hconf
    by_contra hlocked
    rw [requiredRest] at hconf
    have hx := h.gated _ ha
    have hx' := h.gated _ ha'
    have hc := hsol ⟨xVar e.id s.id + xVar e.id s'.id, .le, (1 : ℤ)⟩
      ⟨e, he, (s, s'), ⟨mem_orderedPairs_filter.2 ⟨hp, by simpa using hx, by simpa using hx'⟩,
        by simpa [hconf] using not_and_or.1 hlocked⟩, rfl⟩
    simp only [Constraint.Holds, LinExpr.eval_add, xVar, LinExpr.eval_var, LinExpr.eval_intCast,
      h.value _ hx, h.value _ hx', ha, ha', if_true] at hc
    omega
  · rintro hfree _ ⟨e, he, ⟨s, s'⟩, ⟨hp, hcond⟩, rfl⟩
    obtain ⟨hp, hx, hx'⟩ := mem_orderedPairs_filter.1 hp
    rw [decide_eq_true_eq] at hx hx'
    simp only [Bool.and_eq_true, Bool.not_eq_true', Bool.and_eq_false_iff,
      decide_eq_false_iff_not] at hcond
    have hnot : ¬ (a (e.id, s.id) = true ∧ a (e.id, s'.id) = true) := by
      rintro ⟨ha, ha'⟩
      obtain ⟨hl, hl'⟩ := hfree e he (s, s') hp ha ha' hcond.2
      exact hcond.1.elim (absurd hl) (absurd hl')
    simp only [Constraint.Holds, LinExpr.eval_add, xVar, LinExpr.eval_var, LinExpr.eval_intCast,
      h.value _ hx, h.value _ hx']
    by_cases ha : a (e.id, s.id) = true
    · have ha' : a (e.id, s'.id) ≠ true := fun ha' => hnot ⟨ha, ha'⟩
      simp [ha, ha']
    · rw [if_neg ha]
      split <;> omega

/-! ## Consecutive days -/

/-- The windows of days that are checked. -/
def dayWindows (allDays : List ℤ) (maxConsecutiveDays : ℤ) : List (List ℤ) :=
  let windowSize := maxConsecutiveDays + 1
  if windowSize > allDays.length then []
  else (range (allDays.length - windowSize + 1).toNat).map fun (startIdx : ℕ) =>
    slice allDays startIdx (startIdx + windowSize)

theorem mem_of_mem_dayWindows {allDays window : List ℤ} {maxConsecutiveDays day : ℤ}
    (hw : window ∈ dayWindows allDays maxConsecutiveDays) (hd : day ∈ window) : day ∈ allDays := by
  simp only [dayWindows] at hw
  split at hw
  · cases hw
  · obtain ⟨_, -, rfl⟩ := mem_map.1 hw
    exact mem_of_mem_take (mem_of_mem_drop hd)

/-- In no window are there more working days than allowed, or than the locks already make. -/
def Plan.WithinDays (a : Plan) (shifts : List ShiftSlot) (allDays : List ℤ)
    (maxConsecutiveDays : ℤ) (lockedPairs : List (UUID × UUID)) (employeeId : UUID) : Prop :=
  ∀ window ∈ dayWindows allDays maxConsecutiveDays,
    (window.countP (a.worksOn shifts employeeId) : ℤ) ≤
      max maxConsecutiveDays (window.countP ((Plan.ofPairs lockedPairs).worksOn shifts employeeId))

/-- The variables of the shifts an employee may work, of those that meet a test. -/
def candidateVars (x : List (UUID × UUID)) (shifts : List ShiftSlot) (employee : Employee)
    (test : ShiftSlot → Bool) : List (LinExpr SolverVar) :=
  ((candidateShifts x shifts employee).filter test).map fun shift => xVar employee.id shift.id

variable {employee : Employee} {test : ShiftSlot → Bool}

theorem mem_candidateVars {e : LinExpr SolverVar} : e ∈ candidateVars x shifts employee test ↔
      ∃ s ∈ shifts, test s = true ∧ (employee.id, s.id) ∈ x ∧ xVar employee.id s.id = e := by
  simp [candidateVars, candidateShifts, and_assoc]

theorem Realizes.eval_bool (h : Realizes x a v) {e : LinExpr SolverVar}
    (he : e ∈ candidateVars x shifts employee test) : e.eval v = 0 ∨ e.eval v = 1 := by
  obtain ⟨s, -, -, hx, rfl⟩ := mem_candidateVars.1 he
  rw [xVar, LinExpr.eval_var, h.value _ hx]
  split
  · exact .inr rfl
  · exact .inl rfl

/-- The employee works a shift that meets the test exactly when one of its variables is 1. -/
theorem Realizes.any_iff (h : Realizes x a v) :
    (shifts.any fun s => test s && a (employee.id, s.id)) = true ↔
      ∃ e ∈ candidateVars x shifts employee test, e.eval v = 1 := by
  rw [any_eq_true]
  constructor
  · rintro ⟨s, hs, hboth⟩
    obtain ⟨htest, ha⟩ := Bool.and_eq_true_iff.1 hboth
    have hx := h.gated _ ha
    refine ⟨_, mem_candidateVars.2 ⟨s, hs, htest, hx, rfl⟩, ?_⟩
    rw [xVar, LinExpr.eval_var, h.value _ hx, if_pos ha]
  · rintro ⟨_, he, hone⟩
    obtain ⟨s, hs, htest, hx, rfl⟩ := mem_candidateVars.1 he
    refine ⟨s, hs, Bool.and_eq_true_iff.2 ⟨htest, ?_⟩⟩
    rw [xVar, LinExpr.eval_var, h.value _ hx] at hone
    by_contra ha
    rw [if_neg ha] at hone
    cases hone

theorem Realizes.solves_workedModel (h : Realizes x a v) {day : ℤ} :
    Solves v (workedModel x shifts employee day) ↔
      v (.worked employee.id day) = if a.worksOn shifts employee.id day then 1 else 0 := by
  have hor : Solves v (orModel (.worked employee.id day)
      (candidateVars x shifts employee fun s => s.start.date = day)) ↔
      v (.worked employee.id day) = if a.worksOn shifts employee.id day then 1 else 0 :=
    solves_orModel (fun e he => h.eval_bool he) h.any_iff
  rw [← hor]
  have hmodel : workedModel x shifts employee day =
      if (candidateVars x shifts employee fun s => s.start.date = day) = [] then
        { vars := [boolVar (.worked employee.id day)]
          constraints := [⟨.var (.worked employee.id day), .eq, (0 : ℤ)⟩] }
      else orModel (.worked employee.id day)
        (candidateVars x shifts employee fun s => s.start.date = day) := by
    split
    · rename_i hnil
      simp only [workedModel]
      exact congrArg _ (if_pos hnil)
    · rename_i hne
      simp only [workedModel]
      exact congrArg _ (if_neg hne)
  rw [hmodel]
  split
  · rename_i hnil
    -- With nothing to work that day, the variable is set to 0 instead of bounded by an empty sum.
    rw [hnil]
    constructor
    · rintro ⟨hbounds, hholds⟩
      refine ⟨hbounds, fun c hc => ?_⟩
      have hzero := hholds _ mem_cons_self
      rw [orModel, map_nil, nil_append, mem_singleton] at hc
      simp only [Constraint.Holds, LinExpr.eval_var, LinExpr.eval_intCast] at hzero
      simp [hc, Constraint.Holds, hzero]
    · rintro ⟨hbounds, hholds⟩
      refine ⟨hbounds, fun c hc => ?_⟩
      have hlower : 0 ≤ v (.worked employee.id day) := (hbounds _ mem_cons_self).1
      have hle := hholds _ (mem_append_right _ mem_cons_self)
      simp only [Constraint.Holds, LinExpr.eval_var, sum_nil, LinExpr.eval_zero] at hle
      rw [mem_singleton.1 hc]
      simp only [Constraint.Holds, LinExpr.eval_var, LinExpr.eval_intCast]
      omega
  · exact Iff.rfl

theorem mem_lockedDays {employeeId : UUID} {day : ℤ} :
    day ∈ (shifts.filter fun s => (employeeId, s.id) ∈ lockedPairs).map (fun s => s.start.date) ↔
      (Plan.ofPairs lockedPairs).worksOn shifts employeeId day = true := by
  simp only [Plan.worksOn, Plan.ofPairs, mem_map, mem_filter, any_eq_true,
    Bool.and_eq_true, decide_eq_true_eq]
  exact exists_congr fun s => by tauto

theorem sum_worked {employeeId : UUID} {days : List ℤ}
    (h : ∀ day ∈ days, v (.worked employeeId day) =
      if a.worksOn shifts employeeId day then 1 else 0) :
    (days.map fun day => v (.worked employeeId day)).sum =
      days.countP (a.worksOn shifts employeeId) := by
  rw [sum_eq_countP]
  · congr 1
    refine countP_congr fun day hday => ?_
    rw [h day hday]
    split <;> simp_all
  · intro day hday
    rw [h day hday]
    split
    · exact .inr rfl
    · exact .inl rfl

theorem Realizes.solves_maxConsecutiveDays (h : Realizes x a v) {allDays : List ℤ}
    {maxConsecutiveDays : ℤ} :
    Solves v (addMaxConsecutiveDaysConstraints x shifts employee allDays maxConsecutiveDays
        lockedPairs) ↔
      (∀ day ∈ allDays, v (.worked employee.id day) =
        if a.worksOn shifts employee.id day then 1 else 0) ∧
      a.WithinDays shifts allDays maxConsecutiveDays lockedPairs employee.id := by
  have hlocked : ∀ window : List ℤ, window.countP (· ∈ (shifts.filter fun s =>
      (employee.id, s.id) ∈ lockedPairs).map fun s => s.start.date) =
      window.countP ((Plan.ofPairs lockedPairs).worksOn shifts employee.id) := fun window =>
    countP_congr fun day _ => by rw [decide_eq_true_eq, mem_lockedDays]
  rw [addMaxConsecutiveDaysConstraints, solves_append, solves_join, solves_ofConstraints]
  simp only [forall_mem_map, h.solves_workedModel]
  refine and_congr_right fun hworked => ?_
  show (∀ window ∈ dayWindows allDays maxConsecutiveDays, _) ↔ _
  refine forall₂_congr fun window hw => ?_
  have hsum := sum_worked fun day hd => hworked day (mem_of_mem_dayWindows hw hd)
  simp only [Constraint.Holds, LinExpr.eval_sum, map_map, comp_def,
    LinExpr.eval_var, LinExpr.eval_intCast, hsum, hlocked]

/-! ## Hours -/

/-- In no week are there more minutes than contracted, or than the locks already make. -/
def Plan.WithinHours (a : Plan) (shifts : List ShiftSlot) (lockedPairs : List (UUID × UUID))
    (employee : Employee) : Prop :=
  ∀ week, a.minutes shifts employee.id week ≤
    max (roundHalfEven (employee.contractHoursPerWeek * 60))
      ((Plan.ofPairs lockedPairs).minutes shifts employee.id week)

theorem Realizes.eval_minutesExpr (h : Realizes x a v) {week : ℤ} :
    (minutesExpr employee ((candidateShifts x shifts employee).filter (·.week = week))).eval v =
      a.minutes shifts employee.id week := by
  have hsum := h.sum_mul (shifts.filter (·.week = week)) (fun s => (employee.id, s.id))
    (·.roundedMinutes)
  simp only [minutesExpr, LinExpr.eval_sum, map_map, comp_def, LinExpr.eval_smul,
    xVar, LinExpr.eval_var, candidateShifts, Plan.minutes, filter_filter] at hsum ⊢
  rw [← hsum]
  simp only [Bool.and_comm]

/-- A plan of pairs that have a variable needs no minutes in a week without candidates. -/
theorem Plan.minutes_eq_zero {b : Plan} {week : ℤ}
    (hb : ∀ s ∈ shifts, b (employee.id, s.id) = true → (employee.id, s.id) ∈ x)
    (hweek : week ∉ (candidateShifts x shifts employee).map (·.week)) :
    b.minutes shifts employee.id week = 0 := by
  have hnil : (shifts.filter fun s => b (employee.id, s.id) && s.week = week) = [] := by
    refine filter_eq_nil_iff.2 fun s hs hboth => hweek ?_
    simp only [Bool.and_eq_true, decide_eq_true_eq] at hboth
    exact mem_map.2 ⟨s, by simpa [candidateShifts, hs] using hb s hs hboth.1, hboth.2⟩
  rw [Plan.minutes, hnil]
  rfl

theorem forall_shiftsByWeek {p : ℤ × List ShiftSlot → Prop} :
    (∀ q ∈ shiftsByWeek x shifts employee, p q) ↔
      ∀ week ∈ (candidateShifts x shifts employee).map (·.week),
        p (week, (candidateShifts x shifts employee).filter (·.week = week)) := by
  simp [shiftsByWeek]

theorem Realizes.solves_contractedHours (h : Realizes x a v) {relaxed : Finset RelaxationCategory}
    (hlocked : ∀ e ∈ employees, ∀ s ∈ shifts, (e.id, s.id) ∈ lockedPairs → (e.id, s.id) ∈ x) :
    Solves v (addContractedHoursConstraints x employees shifts relaxed lockedPairs) ↔
      ∀ e ∈ employees, ¬ (e.overtimeApproved = true ∨ .contractedHours ∈ relaxed) →
        a.WithinHours shifts lockedPairs e := by
  have hmin : ∀ (e : Employee) (week : ℤ), ((shifts.filter fun s => (e.id, s.id) ∈ lockedPairs ∧
      s.week = week).map (·.roundedMinutes)).sum =
      (Plan.ofPairs lockedPairs).minutes shifts e.id week := by
    intro e week
    simp [Plan.minutes, Plan.ofPairs]
  rw [addContractedHoursConstraints, solves_ofConstraints]
  simp only [forall_mem_flatMap]
  refine forall₂_congr fun e he => ?_
  by_cases hskip : e.overtimeApproved = true ∨ .contractedHours ∈ relaxed
  · simp [hskip]
  · simp only [if_neg hskip, forall_mem_map]
    rw [forall_shiftsByWeek]
    simp only [Constraint.Holds, h.eval_minutesExpr, LinExpr.eval_intCast, hmin]
    refine ⟨fun hweeks _ week => ?_, fun hall week _ => hall hskip week⟩
    by_cases hweek : week ∈ (candidateShifts x shifts e).map (·.week)
    · exact hweeks week hweek
    · rw [Plan.minutes_eq_zero (fun s _ ha => h.gated _ ha) hweek, Plan.minutes_eq_zero
        (fun s hs hl => hlocked e he s hs (by simpa [Plan.ofPairs] using hl)) hweek]
      exact le_max_right _ _

/-- `cap_minutes` of the overtime penalty. -/
def capMinutes (employees : List Employee) (employeeId : UUID) : ℤ :=
  roundHalfEven ((capMinutesByEmployee employees employeeId).getD 0)

/-- In no week is there more overtime than if everything possible were worked. -/
def Plan.WithinOvertime (a : Plan) (x : List (UUID × UUID)) (employees : List Employee)
    (shifts : List ShiftSlot) (employeeId : UUID) : Prop :=
  ∀ week, a.minutes shifts employeeId week - capMinutes employees employeeId ≤
    max ((Plan.ofPairs x).minutes shifts employeeId week - capMinutes employees employeeId) 0

theorem sum_candidate_minutes {week : ℤ} :
    (((candidateShifts x shifts employee).filter (·.week = week)).map (·.roundedMinutes)).sum =
      (Plan.ofPairs x).minutes shifts employee.id week := by
  simp only [candidateShifts, Plan.minutes, Plan.ofPairs, filter_filter]
  simp only [Bool.and_comm]

theorem Realizes.solves_overtime_iff (h : Realizes x a v) :
    Solves v (addOvertimePenaltyVars x employees shifts).1 ↔
      ∀ e ∈ employees, e.overtimeApproved = true →
        ∀ week ∈ (candidateShifts x shifts e).map (·.week),
          (0 ≤ v (.overtime e.id week) ∧ v (.overtime e.id week) ≤
            max ((Plan.ofPairs x).minutes shifts e.id week - capMinutes employees e.id) 0) ∧
          a.minutes shifts e.id week - capMinutes employees e.id ≤ v (.overtime e.id week) := by
  have hsolves : Solves v (addOvertimePenaltyVars x employees shifts).1 ↔
      ∀ e ∈ employees.filter (·.overtimeApproved), ∀ q ∈ shiftsByWeek x shifts e,
        (0 ≤ v (.overtime e.id q.1) ∧ v (.overtime e.id q.1) ≤
          max ((q.2.map (·.roundedMinutes)).sum - capMinutes employees e.id) 0) ∧
        (minutesExpr e q.2).eval v - capMinutes employees e.id ≤ v (.overtime e.id q.1) := by
    constructor
    · rintro ⟨hbounds, hholds⟩ e he q hq
      have hmem : (e, q.1, q.2) ∈ (employees.filter (·.overtimeApproved)).flatMap fun employee =>
          (shiftsByWeek x shifts employee).map fun q => (employee, q.1, q.2) :=
        mem_flatMap.2 ⟨e, he, mem_map.2 ⟨q, hq, rfl⟩⟩
      refine ⟨hbounds _ (mem_map.2 ⟨_, hmem, rfl⟩), ?_⟩
      have hc := hholds _ (mem_map.2 ⟨_, hmem, rfl⟩)
      simpa [Constraint.Holds, capMinutes] using hc
    · intro hall
      refine ⟨fun y hy => ?_, fun c hc => ?_⟩
      · obtain ⟨⟨e, q₁, q₂⟩, hmem, rfl⟩ := mem_map.1 hy
        obtain ⟨e', he, hmem⟩ := mem_flatMap.1 hmem
        obtain ⟨q, hq, heq⟩ := mem_map.1 hmem
        cases heq
        exact (hall e he q hq).1
      · obtain ⟨⟨e, q₁, q₂⟩, hmem, rfl⟩ := mem_map.1 hc
        obtain ⟨e', he, hmem⟩ := mem_flatMap.1 hmem
        obtain ⟨q, hq, heq⟩ := mem_map.1 hmem
        cases heq
        have hle := (hall e he q hq).2
        simpa [Constraint.Holds, capMinutes] using hle
  rw [hsolves]
  simp only [forall_shiftsByWeek, h.eval_minutesExpr, sum_candidate_minutes, mem_filter, and_imp]

theorem Realizes.withinOvertime_of_solves (h : Realizes x a v)
    (hsol : Solves v (addOvertimePenaltyVars x employees shifts).1) {e : Employee}
    (he : e ∈ employees) (happroved : e.overtimeApproved = true) :
    a.WithinOvertime x employees shifts e.id := by
  intro week
  by_cases hweek : week ∈ (candidateShifts x shifts e).map (·.week)
  · obtain ⟨⟨-, hle⟩, hge⟩ := h.solves_overtime_iff.1 hsol e he happroved week hweek
    exact hge.trans hle
  · rw [Plan.minutes_eq_zero (fun s _ ha => h.gated _ ha) hweek, Plan.minutes_eq_zero
      (fun s _ hl => by simpa [Plan.ofPairs] using hl) hweek]
    exact le_max_left _ _

theorem Realizes.solves_overtime (h : Realizes x a v)
    (hv : ∀ e week, v (.overtime e week) = max (a.minutes shifts e week - capMinutes employees e) 0)
    (hwithin : ∀ e ∈ employees, e.overtimeApproved = true →
      a.WithinOvertime x employees shifts e.id) :
    Solves v (addOvertimePenaltyVars x employees shifts).1 := by
  refine h.solves_overtime_iff.2 fun e he happroved week _ => ?_
  have hle := hwithin e he happroved week
  rw [hv]
  exact ⟨⟨le_max_right _ _, max_le hle (le_max_right _ _)⟩, le_max_left _ _⟩

/-! ## Fairness and the balance of skills -/

/-- `undesirable_shift_ids`. -/
def undesirableShiftIds (fairness : FairnessConfig) (shifts : List ShiftSlot) : List UUID :=
  ((shifts.filter fun shift => fairness.isUndesirable shift.start).map (·.id)).dedup

/-- There are no undesirable shifts to balance. -/
def NoUndesirable (si : SolveInput) : Prop :=
  ∀ fairness, si.fairness = some fairness → undesirableShiftIds fairness si.shifts = []

/-- The undesirable shifts of an employee, those of the past included. -/
def Plan.undesirableCount (a : Plan) (fairness : FairnessConfig) (shifts : List ShiftSlot)
    (fairnessHistoryCounts : List (UUID × ℤ)) (employeeId : UUID) : ℤ :=
  (fairnessHistoryCounts.lookup employeeId).getD 0 +
    (undesirableShiftIds fairness shifts).countP fun shiftId => a (employeeId, shiftId)

/-- Nobody is further from the average of undesirable shifts than tolerated. -/
def Plan.Fair (a : Plan) (employees : List Employee) (shifts : List ShiftSlot)
    (fairness : FairnessConfig) (fairnessHistoryCounts : List (UUID × ℤ)) : Prop :=
  let count := a.undesirableCount fairness shifts fairnessHistoryCounts
  let total := ((employees.map (·.id)).dedup.map count).sum
  undesirableShiftIds fairness shifts = [] ∨ ∀ e ∈ employees,
    employees.length * count e.id - total ≤ fairness.tolerance * employees.length ∧
      total - employees.length * count e.id ≤ fairness.tolerance * employees.length

theorem Realizes.solves_fairness (h : Realizes x a v) {fairness : FairnessConfig}
    {fairnessHistoryCounts : List (UUID × ℤ)} :
    Solves v (addFairnessConstraint x employees shifts fairness fairnessHistoryCounts) ↔
      a.Fair employees shifts fairness fairnessHistoryCounts := by
  have hcount : ∀ employeeId, LinExpr.eval v
      (((fairnessHistoryCounts.lookup employeeId).getD 0 : ℤ) +
        (((undesirableShiftIds fairness shifts).filter fun shiftId =>
          (employeeId, shiftId) ∈ x).map fun shiftId => xVar employeeId shiftId).sum) =
      a.undesirableCount fairness shifts fairnessHistoryCounts employeeId := by
    intro employeeId
    have hsum := h.sum_eq_countP (undesirableShiftIds fairness shifts) fun s => (employeeId, s)
    simp only [LinExpr.eval_add, LinExpr.eval_intCast, LinExpr.eval_sum, map_map,
      comp_def, xVar, LinExpr.eval_var, Plan.undesirableCount, hsum]
  rw [addFairnessConstraint, solves_ofConstraints]
  show (∀ c ∈ (if (employees.length : ℤ) = 0 ∨ undesirableShiftIds fairness shifts = [] then _
    else _), _) ↔ _
  by_cases hnil : undesirableShiftIds fairness shifts = []
  · simp [hnil, Plan.Fair]
  by_cases hzero : (employees.length : ℤ) = 0
  · have hemployees : employees = [] := length_eq_zero_iff.1 (by exact_mod_cast hzero)
    simp [hemployees, Plan.Fair]
  · rw [if_neg (not_or.2 ⟨hzero, hnil⟩)]
    simp only [forall_mem_flatMap, Plan.Fair, hnil, false_or]
    refine forall₂_congr fun e _ => ?_
    simp only [forall_mem_cons, not_mem_nil, false_imp_iff, implies_true, and_true]
    rw [undesirableShiftIds] at hcount
    simp only [Constraint.Holds, LinExpr.eval_sub, LinExpr.eval_smul, LinExpr.eval_sum,
      LinExpr.eval_intCast, map_map, comp_def, hcount]

/-- The variables of the balance of skills are determined by the plan. -/
theorem Realizes.solves_crossSkillBalance (h : Realizes x a v)
    (hv : ∀ e skillId, v (.skillUsed e skillId) = if a.uses shifts e skillId then 1 else 0) :
    Solves v (crossSkillBalanceVars x employees shifts).1 := by
  have hor : ∀ (e : Employee) (skillId : UUID), Solves v (orModel (.skillUsed e.id skillId)
      (candidateVars x shifts e fun s => s.requiredSkillId = some skillId)) := fun e skillId =>
    (solves_orModel (fun _ he => h.eval_bool he) h.any_iff).2 (hv e.id skillId)
  refine ⟨fun y hy => ?_, fun c hc => ?_⟩
  · obtain ⟨⟨_, _, _⟩, huse, rfl⟩ := mem_map.1 hy
    obtain ⟨skillId, -, huse⟩ := mem_flatMap.1 huse
    obtain ⟨e, -, heq⟩ := mem_map.1 (mem_filter.1 huse).1
    cases heq
    exact (hor e _).bounds _ mem_cons_self
  · obtain ⟨⟨_, _, _⟩, huse, hc⟩ := mem_flatMap.1 hc
    obtain ⟨skillId, -, huse⟩ := mem_flatMap.1 huse
    obtain ⟨e, -, heq⟩ := mem_map.1 (mem_filter.1 huse).1
    cases heq
    exact (hor e _).holds c hc

end Families

/-! ## Shifts with other fields -/

/-- The function changes neither the id of a shift nor its times. -/
structure KeepsTimes (f : ShiftSlot → ShiftSlot) : Prop where
  id : ∀ s, (f s).id = s.id
  start : ∀ s, (f s).start = s.start
  fin : ∀ s, (f s).fin = s.fin

theorem orderedPairs_map {α β : Type*} (f : α → β) (l : List α) :
    orderedPairs (l.map f) = (orderedPairs l).map (Prod.map f f) := by
  induction l with
  | nil => rfl
  | cons b l ih => simp [orderedPairs, ih, comp_def]

namespace KeepsTimes

variable {f : ShiftSlot → ShiftSlot} (h : KeepsTimes f) (a : Plan) (shifts : List ShiftSlot)
  (employeeId : UUID)
include h

theorem worksOn_map : a.worksOn (shifts.map f) employeeId = a.worksOn shifts employeeId := by
  funext day
  simp only [Plan.worksOn, any_map, comp_def, h.id, h.start]

theorem week_eq (s : ShiftSlot) : (f s).week = s.week := by
  rw [ShiftSlot.week, h.start]
  rfl

theorem durationHours_eq (s : ShiftSlot) : (f s).durationHours = s.durationHours := by
  rw [ShiftSlot.durationHours, h.start, h.fin]
  rfl

theorem minutes_map : a.minutes (shifts.map f) employeeId = a.minutes shifts employeeId := by
  funext week
  simp only [Plan.minutes, ShiftSlot.roundedMinutes, filter_map, map_map,
    comp_def, h.id, h.week_eq, h.durationHours_eq]

theorem conflicts_eq (s s' : ShiftSlot) (minRestHours : ℚ) :
    conflicts (f s) (f s') minRestHours = conflicts s s' minRestHours := by
  unfold conflicts
  by_cases hle : s.start.instant ≤ s'.start.instant
  · simp only [h.start, if_pos hle, h.fin]
  · simp only [h.start, if_neg hle, h.fin]

theorem conflictFree_map {minRestHours : ℚ} {lockedPairs : List (UUID × UUID)} :
    a.ConflictFree (shifts.map f) minRestHours lockedPairs employeeId ↔
      a.ConflictFree shifts minRestHours lockedPairs employeeId := by
  rw [Plan.ConflictFree, orderedPairs_map, forall_mem_map]
  simp only [Prod.map_fst, Prod.map_snd, h.id, h.conflicts_eq]
  rfl

end KeepsTimes

/-! ## Feasible plans -/

/-- What the constraints that `solve` emits ask of the assigned pairs. -/
structure Feasible (si : SolveInput) (a : Plan) : Prop where
  gated : ∀ p, a p = true → p ∈ decisionPairs si
  locked : ∀ p ∈ si.lockedPairs, a p = true
  staffed : ∀ s ∈ si.shifts, s.requiredHeadcount ≤ si.employees.countP fun e => a (e.id, s.id)
  conflictFree : ∀ e ∈ si.employees,
    a.ConflictFree si.shifts (requiredRest si.policy si.relaxedCategories) si.lockedPairs e.id
  withinDays : .maxConsecutiveWorkingDays ∉ si.relaxedCategories → ∀ e ∈ si.employees,
    a.WithinDays si.shifts (dateRange si.dateRangeStart si.dateRangeEnd)
      si.policy.maxConsecutiveWorkingDays si.lockedPairs e.id
  withinHours : ∀ e ∈ si.employees,
    ¬ (e.overtimeApproved = true ∨ .contractedHours ∈ si.relaxedCategories) →
      a.WithinHours si.shifts si.lockedPairs e
  fair : ∀ fairness, si.fairness = some fairness →
    a.Fair si.employees si.shifts fairness si.fairnessHistoryCounts
  withinOvertime : si.softWeights.overtimeCostWeight ≠ 0 → ∀ e ∈ si.employees,
    e.overtimeApproved = true → a.WithinOvertime (decisionPairs si) si.employees si.shifts e.id

/-- The variables of the model as a plan determines them. -/
def Plan.valuation (a : Plan) (si : SolveInput) : SolverVar → ℤ
  | .x e s => if a (e, s) then 1 else 0
  | .worked e day => if a.worksOn si.shifts e day then 1 else 0
  | .overtime e week => max (a.minutes si.shifts e week - capMinutes si.employees e) 0
  | .skillUsed e skillId => if a.uses si.shifts e skillId then 1 else 0

section Feasibility

variable {si : SolveInput} {a : Plan} {v : SolverVar → ℤ}

theorem locked_mem_decisionPairs {e : Employee} (he : e ∈ si.employees) {s : ShiftSlot}
    (hs : s ∈ si.shifts) (hlocked : (e.id, s.id) ∈ si.lockedPairs) :
    (e.id, s.id) ∈ decisionPairs si :=
  mem_decisionPairs.2 ⟨s, hs, e, he, .inl hlocked, rfl⟩

theorem Realizes.solves_decisionModel (h : Realizes (decisionPairs si) a v)
    (hknown : ∀ p ∈ si.lockedPairs, p ∈ decisionPairs si) :
    Solves v (decisionModel si) ↔ ∀ p ∈ si.lockedPairs, a p = true := by
  constructor
  · intro hsol p hp
    have hc := hsol.holds _ (mem_map.2 ⟨p, mem_dedup.2 hp, rfl⟩)
    simp only [Constraint.Holds, xVar, LinExpr.eval_var, LinExpr.eval_intCast,
      h.value p (hknown p hp)] at hc
    by_contra ha
    rw [if_neg ha] at hc
    cases hc
  · intro hlocked
    refine ⟨fun y hy => ?_, fun c hc => ?_⟩
    · obtain ⟨p, hp, rfl⟩ := mem_map.1 hy
      show 0 ≤ v (.x p.1 p.2) ∧ v (.x p.1 p.2) ≤ 1
      rw [h.value p hp]
      split <;> omega
    · obtain ⟨p, hp, rfl⟩ := mem_map.1 hc
      have hp := mem_dedup.1 hp
      simp only [Constraint.Holds, xVar, LinExpr.eval_var, LinExpr.eval_intCast,
        h.value p (hknown p hp), hlocked p hp, if_true]

theorem solves_buildObjectiveTerms {x : List (UUID × UUID)} {employees : List Employee}
    {shifts : List ShiftSlot} {softWeights : SoftWeights} :
    Solves v (buildObjectiveTerms x employees shifts softWeights).1 ↔
      (softWeights.overtimeCostWeight ≠ 0 →
        Solves v (addOvertimePenaltyVars x employees shifts).1) ∧
      (softWeights.crossSkillBalanceWeight ≠ 0 →
        Solves v (crossSkillBalanceVars x employees shifts).1) := by
  have hempty : Solves v (.join []) := solves_join.2 nofun
  simp only [buildObjectiveTerms, solves_append]
  by_cases hovertime : softWeights.overtimeCostWeight = 0
  · by_cases hbalance : softWeights.crossSkillBalanceWeight = 0
    · simp [hovertime, hbalance, hempty]
    · simp [hovertime, hbalance, hempty]
  · by_cases hbalance : softWeights.crossSkillBalanceWeight = 0
    · simp [hovertime, hbalance, hempty]
    · simp [hovertime, hbalance]

theorem solves_emittedModel_iff : Solves v (emittedModel si) ↔
    Solves v (decisionModel si) ∧
    Solves v (addCoverageConstraints (decisionPairs si) si.employees si.shifts) ∧
    Solves v (addNoConflictConstraints (decisionPairs si) si.employees si.shifts si.policy
      si.relaxedCategories si.lockedPairs) ∧
    (.maxConsecutiveWorkingDays ∉ si.relaxedCategories → ∀ e ∈ si.employees,
      Solves v (addMaxConsecutiveDaysConstraints (decisionPairs si) si.shifts e
        (dateRange si.dateRangeStart si.dateRangeEnd) si.policy.maxConsecutiveWorkingDays
        si.lockedPairs)) ∧
    Solves v (addContractedHoursConstraints (decisionPairs si) si.employees si.shifts
      si.relaxedCategories si.lockedPairs) ∧
    (∀ fairness, si.fairness = some fairness → Solves v (addFairnessConstraint (decisionPairs si)
      si.employees si.shifts fairness si.fairnessHistoryCounts)) ∧
    Solves v (buildObjectiveTerms (decisionPairs si) si.employees si.shifts si.softWeights).1 := by
  have hempty : Solves v (.join []) := solves_join.2 nofun
  have hdays : Solves v (if .maxConsecutiveWorkingDays ∈ si.relaxedCategories then .join []
      else .join (si.employees.map fun employee =>
        addMaxConsecutiveDaysConstraints (decisionPairs si) si.shifts employee
          (dateRange si.dateRangeStart si.dateRangeEnd) si.policy.maxConsecutiveWorkingDays
          si.lockedPairs)) ↔
      (.maxConsecutiveWorkingDays ∉ si.relaxedCategories → ∀ e ∈ si.employees,
        Solves v (addMaxConsecutiveDaysConstraints (decisionPairs si) si.shifts e
          (dateRange si.dateRangeStart si.dateRangeEnd) si.policy.maxConsecutiveWorkingDays
          si.lockedPairs)) := by
    by_cases hrelaxed : RelaxationCategory.maxConsecutiveWorkingDays ∈ si.relaxedCategories
    · simp [hrelaxed, hempty]
    · simp [hrelaxed, solves_join]
  simp only [emittedModel, solves_append, hdays, and_assoc]
  refine and_congr_right' <| and_congr_right' <| and_congr_right' <| and_congr_right' <|
    and_congr_right' <| and_congr_left' ?_
  cases si.fairness with
  | none => simp [hempty]
  | some fairness => simp

theorem Realizes.solves_hours (h : Realizes (decisionPairs si) a v) :
    Solves v (addContractedHoursConstraints (decisionPairs si) si.employees si.shifts
        si.relaxedCategories si.lockedPairs) ↔
      ∀ e ∈ si.employees,
        ¬ (e.overtimeApproved = true ∨ .contractedHours ∈ si.relaxedCategories) →
          a.WithinHours si.shifts si.lockedPairs e :=
  h.solves_contractedHours fun _ he _ hs => locked_mem_decisionPairs he hs

theorem Realizes.feasible (h : Realizes (decisionPairs si) a v)
    (hknown : ∀ p ∈ si.lockedPairs, p ∈ decisionPairs si) (hsol : Solves v (emittedModel si)) :
    Feasible si a := by
  obtain ⟨hdec, hcov, hconf, hdays, hhours, hfair, hobj⟩ := solves_emittedModel_iff.1 hsol
  exact
    { gated := h.gated
      locked := (h.solves_decisionModel hknown).1 hdec
      staffed := h.solves_coverage.1 hcov
      conflictFree := h.solves_noConflict.1 hconf
      withinDays := fun hr e he => (h.solves_maxConsecutiveDays.1 (hdays hr e he)).2
      withinHours := h.solves_hours.1 hhours
      fair := fun fairness hf => h.solves_fairness.1 (hfair fairness hf)
      withinOvertime := fun hw e he happroved =>
        h.withinOvertime_of_solves ((solves_buildObjectiveTerms.1 hobj).1 hw) he happroved }

theorem Plan.realizes_valuation (hgated : ∀ p, a p = true → p ∈ decisionPairs si) :
    Realizes (decisionPairs si) a (a.valuation si) :=
  ⟨hgated, fun _ _ => rfl⟩

theorem Feasible.solves (h : Feasible si a) : Solves (a.valuation si) (emittedModel si) := by
  have hr := Plan.realizes_valuation h.gated
  refine solves_emittedModel_iff.2 ⟨?_, hr.solves_coverage.2 h.staffed,
    hr.solves_noConflict.2 h.conflictFree, fun hrelaxed e he => ?_, hr.solves_hours.2 h.withinHours,
    fun fairness hf => hr.solves_fairness.2 (h.fair fairness hf), ?_⟩
  · exact (hr.solves_decisionModel fun p hp => h.gated p (h.locked p hp)).2 h.locked
  · exact hr.solves_maxConsecutiveDays.2 ⟨fun _ _ => rfl, h.withinDays hrelaxed e he⟩
  · exact solves_buildObjectiveTerms.2 ⟨fun hw => hr.solves_overtime (fun _ _ => rfl)
      (h.withinOvertime hw), fun _ => hr.solves_crossSkillBalance fun _ _ => rfl⟩

/-- The plan of a valuation. -/
def planOf (si : SolveInput) (v : SolverVar → ℤ) : Plan := .ofPairs (assignedPairs si v)

theorem planOf_eq_true {p : UUID × UUID} : planOf si v p = true ↔ p ∈ assignedPairs si v := by
  simp [planOf, Plan.ofPairs]

theorem realizes_planOf (h : Solves v (decisionModel si)) :
    Realizes (decisionPairs si) (planOf si v) v := by
  refine ⟨fun p hp => (mem_assignedPairs.1 (planOf_eq_true.1 hp)).1, fun p hp => ?_⟩
  by_cases ha : planOf si v p = true
  · rw [if_pos ha]
    exact eq_one_of_assigned h (planOf_eq_true.1 ha)
  · rw [if_neg ha]
    by_contra hne
    exact ha (planOf_eq_true.2 (mem_assignedPairs.2 ⟨hp, hne⟩))

/-- A plan is feasible exactly when a solution assigns its pairs. -/
theorem feasible_iff (hknown : ∀ p ∈ si.lockedPairs, p ∈ decisionPairs si) :
    Feasible si a ↔ ∃ v, Solves v (emittedModel si) ∧
      ∀ p, a p = true ↔ p ∈ assignedPairs si v := by
  constructor
  · intro h
    refine ⟨a.valuation si, h.solves, fun p => ?_⟩
    rw [mem_assignedPairs]
    constructor
    · intro ha
      exact ⟨h.gated p ha, by simp [Plan.valuation, ha]⟩
    · rintro ⟨-, hne⟩
      simpa [Plan.valuation] using hne
  · rintro ⟨v, hsol, hiff⟩
    have hplan : a = planOf si v := by
      funext p
      rw [Bool.eq_iff_iff, hiff, planOf_eq_true]
    rw [hplan]
    exact (realizes_planOf (solves_emittedModel_iff.1 hsol).1).feasible hknown hsol

end Feasibility

end Workforce.Scheduling
