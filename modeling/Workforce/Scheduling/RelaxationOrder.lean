import Workforce.Scheduling.Relaxation

/-!
# Relaxing only widens

`search_relaxations` tries growing prefixes of `RELAXATION_ORDER` and stops at the first that
solves. That order means something because a relaxation never takes a solution away: whichever
family it touches, by leaving constraints out or by changing a bound, what remains is implied.

* `Extendable.mono`: an assignment of the `x` variables that extends to a solution still does
  after relaxing more.
* `searchFrom_least`: the loop stops at the shortest extension of what is relaxed already.
* `relaxing_widens`: both, with the checks of the shifts. The search starts with one category, so
  it never returns the empty prefix; its callers have found that infeasible.
-/

namespace Workforce.Scheduling

open LinearModel List

/-! ## Solutions -/

section Widen

variable {si : SolveInput} {v : SolverVar → ℤ} {R R' : Finset RelaxationCategory}

/-- Every pair that conflicts under the shorter rest conflicts under the longer. -/
theorem solves_noConflict_mono {x : List (UUID × UUID)} {employees : List Employee}
    {shifts : List ShiftSlot} {policy : EmploymentPolicy} {lockedPairs : List (UUID × UUID)}
    (hsub : R ⊆ R')
    (h : Solves v (addNoConflictConstraints x employees shifts policy R lockedPairs)) :
    Solves v (addNoConflictConstraints x employees shifts policy R' lockedPairs) := by
  rw [addNoConflictConstraints, solves_ofConstraints] at h ⊢
  intro c hc
  obtain ⟨e, he, hc⟩ := mem_flatMap.1 hc
  obtain ⟨⟨s, s'⟩, hp, rfl⟩ := mem_map.1 hc
  obtain ⟨hpair, hkept⟩ := mem_filter.1 hp
  obtain ⟨hunlocked, hconf⟩ := Bool.and_eq_true_iff.1 hkept
  refine h _ (mem_flatMap.2 ⟨e, he, mem_map.2 ⟨(s, s'), ?_, rfl⟩⟩)
  refine mem_filter.2 ⟨hpair, Bool.and_eq_true_iff.2 ⟨hunlocked, ?_⟩⟩
  exact conflicts_requiredRest hsub hconf

/-- An employee who is capped after relaxing more was capped before, with the same bounds. -/
theorem solves_contractedHours_mono {x : List (UUID × UUID)} {employees : List Employee}
    {shifts : List ShiftSlot} {lockedPairs : List (UUID × UUID)} (hsub : R ⊆ R')
    (h : Solves v (addContractedHoursConstraints x employees shifts R lockedPairs)) :
    Solves v (addContractedHoursConstraints x employees shifts R' lockedPairs) := by
  rw [addContractedHoursConstraints, solves_ofConstraints] at h ⊢
  intro c hc
  obtain ⟨e, he, hc⟩ := mem_flatMap.1 hc
  by_cases hcap : e.overtimeApproved = true ∨ RelaxationCategory.contractedHours ∈ R'
  · rw [if_pos hcap] at hc
    cases hc
  · have hcapped : ¬ (e.overtimeApproved = true ∨ RelaxationCategory.contractedHours ∈ R) :=
      fun hor => hcap (hor.imp_right fun hmem => hsub hmem)
    rw [if_neg hcap] at hc
    refine h c (mem_flatMap.2 ⟨e, he, ?_⟩)
    rw [if_neg hcapped]
    exact hc

/-- A solution stays one when more is relaxed. The auxiliary variables keep their values: those of
a family that is left out are no longer looked at. -/
theorem solves_emittedModel_mono (hsub : R ⊆ R')
    (h : Solves v (emittedModel { si with relaxedCategories := R })) :
    Solves v (emittedModel { si with relaxedCategories := R' }) := by
  obtain ⟨hdec, hcov, hconf, hdays, hhours, hfair, hobj⟩ := solves_emittedModel_iff.1 h
  exact solves_emittedModel_iff.2 ⟨hdec, hcov, solves_noConflict_mono hsub hconf,
    fun hrelaxed => hdays fun hmem => hrelaxed (hsub hmem),
    solves_contractedHours_mono hsub hhours, hfair, hobj⟩

/-- An assignment of the `x` variables that extends to a solution of the emitted model. -/
def Extendable (si : SolveInput) (f : UUID → UUID → ℤ) : Prop :=
  ∃ v, (∀ employeeId shiftId, v (.x employeeId shiftId) = f employeeId shiftId) ∧
    Solves v (emittedModel si)

theorem Extendable.mono {f : UUID → UUID → ℤ} (hsub : R ⊆ R')
    (h : Extendable { si with relaxedCategories := R } f) :
    Extendable { si with relaxedCategories := R' } f := by
  obtain ⟨v, hx, hv⟩ := h
  exact ⟨v, hx, solves_emittedModel_mono hsub hv⟩

theorem validateShifts_mono {shifts : List ShiftSlot} {policy : EmploymentPolicy} (hsub : R ⊆ R')
    (h : validateShifts shifts policy R = .ok ()) : validateShifts shifts policy R' = .ok () := by
  rw [validateShifts, forM_eq_ok] at h ⊢
  intro s hs
  obtain ⟨hlength, hbreak⟩ := validateShift_eq_ok.1 (h s hs)
  exact validateShift_eq_ok.2 ⟨fun hmem => hlength fun hin => hmem (hsub hin), hbreak⟩

end Widen

/-! ## The search -/

section Search

variable {cpSolve : CpSolver} {si : SolveInput}

/-- The input of the search after relaxing these categories. -/
def SolveInput.relaxing (si : SolveInput) (applied : List RelaxationCategory) : SolveInput :=
  { si with relaxedCategories := applied.toFinset }

/-- The status of the solver on the emitted model. -/
def cpStatus (cpSolve : CpSolver) (si : SolveInput) : CpStatus :=
  (cpSolve (emittedModel si) (objectiveTerms si) si.timeLimitSeconds).1

/-- The solver answers with a status of success exactly when there is a solution, for the input
under every set of relaxed categories. -/
def DecidesFeasibility (cpSolve : CpSolver) (si : SolveInput) : Prop :=
  ∀ R : Finset RelaxationCategory,
    (cpStatus cpSolve { si with relaxedCategories := R } = .optimal ∨
      cpStatus cpSolve { si with relaxedCategories := R } = .feasible) ↔
    ∃ v, Solves v (emittedModel { si with relaxedCategories := R })

/-- A solver that decides feasibility succeeds when the checks pass and there is a solution. -/
theorem solve_of_schedulable (hdec : DecidesFeasibility cpSolve si)
    {applied : List RelaxationCategory} (h : Schedulable (si.relaxing applied)) :
    ∃ result, solve cpSolve (si.relaxing applied) = .ok result ∧
      (result.status = .optimal ∨ result.status = .feasible) := by
  obtain ⟨hvalid, hv⟩ := h
  have hstatus := (hdec applied.toFinset).2 hv
  simp only [solve, hvalid, bind, Except.bind, pure, Except.pure]
  rw [if_neg fun hno => hstatus.elim hno.1 hno.2]
  refine ⟨_, rfl, ?_⟩
  rcases hstatus with hstatus | hstatus
  · exact .inl (congrArg CpStatus.name hstatus)
  · exact .inr (congrArg CpStatus.name hstatus)

/-- The checks of a shift fail with one kind of error. -/
def SolveError.IsViolation : SolveError → Prop
  | .shiftViolatesUnionRules _ _ => True
  | .unknownLockedAssignment _ _ => False

theorem validateShiftLength_error {policy : EmploymentPolicy} {s : ShiftSlot} {err : SolveError}
    (h : validateShiftLength policy s = .error err) : err.IsViolation := by
  simp only [validateShiftLength, bind, Except.bind, pure, Except.pure, throw, throwThe,
    MonadExceptOf.throw] at h
  by_cases hmin : s.durationHours * 60 < policy.minShiftLengthMinutes
  · rw [if_pos hmin] at h
    obtain rfl := Except.error.inj h
    trivial
  · rw [if_neg hmin] at h
    cases hlength : policy.maxShiftLengthMinutes with
    | none => simp [hlength] at h
    | some maxLength =>
      simp only [hlength] at h
      split at h
      · obtain rfl := Except.error.inj h
        trivial
      · cases h

theorem validateShiftBreak_error {policy : EmploymentPolicy} {s : ShiftSlot} {err : SolveError}
    (h : validateShiftBreak policy s = .error err) : err.IsViolation := by
  simp only [validateShiftBreak, pure, Except.pure, throw, throwThe, MonadExceptOf.throw] at h
  cases hbreak : policy.mandatoryBreakAfterHours with
  | none => simp [hbreak] at h
  | some breakAfter =>
    simp only [hbreak] at h
    split at h
    · obtain rfl := Except.error.inj h
      trivial
    · cases h

theorem seq_eq_error {ε : Type*} {x y : Except ε Unit} {err : ε}
    (h : (x >>= fun _ => y) = .error err) : x = .error err ∨ y = .error err := by
  cases x with
  | error e => exact .inl h
  | ok u => exact .inr h

theorem validateShift_error {policy : EmploymentPolicy} {R : Finset RelaxationCategory}
    {s : ShiftSlot} {err : SolveError} (h : validateShift policy R s = .error err) :
    err.IsViolation := by
  unfold validateShift at h
  by_cases hmem : RelaxationCategory.shiftLengthBounds ∈ R
  · rw [if_neg (not_not.2 hmem)] at h
    exact validateShiftBreak_error h
  · rw [if_pos hmem] at h
    exact (seq_eq_error h).elim validateShiftLength_error validateShiftBreak_error

theorem forM_eq_error {ε α : Type*} {l : List α} {f : α → Except ε Unit} {err : ε}
    (h : l.forM f = .error err) : ∃ a ∈ l, f a = .error err := by
  induction l with
  | nil => cases h
  | cons a l ih =>
    rcases seq_eq_error h with ha | hl
    · exact ⟨a, mem_cons_self, ha⟩
    · obtain ⟨b, hb, hfb⟩ := ih hl
      exact ⟨b, mem_cons_of_mem _ hb, hfb⟩

theorem validate_error (hlocks : validateLockedAssignments si = .ok ()) {err : SolveError}
    (h : validate si = .error err) : err.IsViolation := by
  rcases seq_eq_error h with hshifts | hlocked
  · obtain ⟨s, -, hs⟩ := forM_eq_error hshifts
    exact validateShift_error hs
  · rw [hlocks] at hlocked
    cases hlocked

/-- Without a schedule, a solver that decides feasibility reports none, or the checks fail. -/
theorem solve_of_not_schedulable (hdec : DecidesFeasibility cpSolve si)
    (hlocks : validateLockedAssignments si = .ok ()) {applied : List RelaxationCategory}
    (h : ¬ Schedulable (si.relaxing applied)) :
    (∃ shiftId reason, solve cpSolve (si.relaxing applied) =
      .error (.shiftViolatesUnionRules shiftId reason)) ∨
    ∃ result, solve cpSolve (si.relaxing applied) = .ok result ∧
      ¬ (result.status = .optimal ∨ result.status = .feasible) := by
  cases hvalid : validate (si.relaxing applied) with
  | error err =>
    have hviolation := @validate_error (si.relaxing applied) hlocks err hvalid
    cases err with
    | shiftViolatesUnionRules shiftId reason =>
      refine .inl ⟨shiftId, reason, ?_⟩
      simp only [solve, hvalid, bind, Except.bind]
    | unknownLockedAssignment employeeId shiftId => exact hviolation.elim
  | ok u =>
    have hno := mt (hdec applied.toFinset).1 fun hv => h ⟨hvalid, hv⟩
    refine .inr ⟨⟨(cpStatus cpSolve (si.relaxing applied)).name, [], none⟩, ?_, ?_⟩
    · simp only [solve, hvalid, bind, Except.bind, pure, Except.pure]
      exact if_pos (not_or.1 hno)
    · rw [SolveInput.relaxing]
      revert hno
      generalize cpStatus cpSolve { si with relaxedCategories := applied.toFinset } = status
      cases status <;> simp [CpStatus.name]

/-- The prefix that the loop returns, after relaxing `applied`: it adds at least one category, the
model with it is feasible, and with fewer (but one or more) it is not. -/
structure LeastExtension (cpSolve : CpSolver) (si : SolveInput)
    (applied rest : List RelaxationCategory) (k : ℕ) (r : RelaxationSearchResult) : Prop where
  pos : 0 < k
  le_length : k ≤ rest.length
  feasible : r.feasible = true
  attempted : r.attemptedCategories = applied ++ rest.take k
  schedulable : Schedulable (si.relaxing (applied ++ rest.take k))
  result : ∃ result, r.result = some result ∧
    solve cpSolve (si.relaxing (applied ++ rest.take k)) = .ok result
  least : ∀ j, 0 < j → j < k → ¬ Schedulable (si.relaxing (applied ++ rest.take j))

theorem searchFrom_stop (hdec : DecidesFeasibility cpSolve si)
    {applied rest : List RelaxationCategory} {category : RelaxationCategory}
    (hone : Schedulable (si.relaxing (applied ++ [category]))) :
    ∃ r, searchFrom cpSolve si applied (category :: rest) = .ok r ∧
      LeastExtension cpSolve si applied (category :: rest) 1 r := by
  obtain ⟨result, hsolve, hstatus⟩ := solve_of_schedulable hdec hone
  refine ⟨⟨applied ++ [category], true, some result⟩, ?_, ?_⟩
  · rw [SolveInput.relaxing] at hsolve
    simp only [searchFrom, hsolve]
    rw [if_pos hstatus]
  · exact
      { pos := Nat.one_pos
        le_length := by simp
        feasible := rfl
        attempted := rfl
        schedulable := hone
        result := ⟨result, rfl, hsolve⟩
        least := fun j hj hj' => absurd hj' (by omega) }

theorem searchFrom_skip (hdec : DecidesFeasibility cpSolve si)
    (hlocks : validateLockedAssignments si = .ok ()) {applied rest : List RelaxationCategory}
    {category : RelaxationCategory}
    (hone : ¬ Schedulable (si.relaxing (applied ++ [category]))) :
    searchFrom cpSolve si applied (category :: rest) =
      searchFrom cpSolve si (applied ++ [category]) rest := by
  rcases solve_of_not_schedulable hdec hlocks hone with
    ⟨shiftId, reason, hsolve⟩ | ⟨result, hsolve, hstatus⟩
  · rw [SolveInput.relaxing] at hsolve
    simp only [searchFrom, hsolve]
  · rw [SolveInput.relaxing] at hsolve
    simp only [searchFrom, hsolve]
    rw [if_neg hstatus]

theorem append_take_cons (applied rest : List RelaxationCategory) (category : RelaxationCategory)
    (j : ℕ) : applied ++ (category :: rest).take (j + 1) =
      applied ++ [category] ++ rest.take j := by
  simp

theorem LeastExtension.cons {applied rest : List RelaxationCategory}
    {category : RelaxationCategory} {k : ℕ} {r : RelaxationSearchResult}
    (hone : ¬ Schedulable (si.relaxing (applied ++ [category])))
    (h : LeastExtension cpSolve si (applied ++ [category]) rest k r) :
    LeastExtension cpSolve si applied (category :: rest) (k + 1) r where
  pos := Nat.succ_pos k
  le_length := Nat.succ_le_succ h.le_length
  feasible := h.feasible
  attempted := by rw [append_take_cons, h.attempted]
  schedulable := by
    rw [append_take_cons]
    exact h.schedulable
  result := by
    rw [append_take_cons]
    exact h.result
  least := by
    intro j hj hjk
    obtain ⟨i, rfl⟩ : ∃ i, j = i + 1 := ⟨j - 1, by omega⟩
    rw [append_take_cons]
    rcases Nat.eq_zero_or_pos i with rfl | hi
    · simpa using hone
    · exact h.least i hi (by omega)

/-- The loop stops at the shortest extension that has a schedule. -/
theorem searchFrom_least (hdec : DecidesFeasibility cpSolve si)
    (hlocks : validateLockedAssignments si = .ok ()) {rest : List RelaxationCategory} :
    ∀ {applied : List RelaxationCategory} {n : ℕ}, 0 < n → n ≤ rest.length →
      Schedulable (si.relaxing (applied ++ rest.take n)) →
        ∃ k r, searchFrom cpSolve si applied rest = .ok r ∧
          LeastExtension cpSolve si applied rest k r := by
  induction rest with
  | nil =>
    intro applied n hpos hle _
    exact absurd hle (by simpa using hpos.ne')
  | cons category rest ih =>
    intro applied n hpos hle hn
    by_cases hone : Schedulable (si.relaxing (applied ++ [category]))
    · obtain ⟨r, hr, hleast⟩ := searchFrom_stop hdec hone
      exact ⟨1, r, hr, hleast⟩
    · -- The category alone is not enough, so a longer prefix of the rest is meant.
      obtain ⟨m, rfl⟩ : ∃ m, n = m + 1 := ⟨n - 1, by omega⟩
      rw [append_take_cons] at hn
      have hm : 0 < m := by
        rcases Nat.eq_zero_or_pos m with rfl | hm
        · exact absurd (by simpa using hn) hone
        · exact hm
      obtain ⟨k, r, hr, hleast⟩ := ih hm (Nat.le_of_succ_le_succ hle) hn
      exact ⟨k + 1, r, (searchFrom_skip hdec hlocks hone).trans hr, hleast.cons hone⟩

/-- The model with the first `n` categories of the order relaxed is feasible. -/
def PrefixFeasible (si : SolveInput) (n : ℕ) : Prop :=
  Schedulable (si.relaxing (relaxationOrder.take n))

theorem PrefixFeasible.mono {n m : ℕ} (h : PrefixFeasible si n) (hle : n ≤ m) :
    PrefixFeasible si m := by
  refine @Schedulable.mono (si.relaxing (relaxationOrder.take n)) _ h fun category hmem => ?_
  rw [mem_toFinset]
  exact (take_subset_take_left relaxationOrder hle) (mem_toFinset.1 hmem)

/-- A prefix that is feasible gives a nonempty one, no longer than the order. -/
theorem PrefixFeasible.exists_pos {n : ℕ} (h : PrefixFeasible si n) :
    ∃ m, 0 < m ∧ m ≤ relaxationOrder.length ∧ PrefixFeasible si m := by
  by_cases hle : n ≤ relaxationOrder.length
  · refine ⟨max n 1, by omega, ?_, h.mono (le_max_left n 1)⟩
    exact max_le hle (by decide)
  · refine ⟨relaxationOrder.length, by decide, le_refl _, ?_⟩
    rw [PrefixFeasible, take_of_length_le (by omega)] at h
    rw [PrefixFeasible, take_length]
    exact h

/-- **Relaxing only widens.** For categories `R ⊆ R'`, assignments that extend to a solution under
`R` do under `R'`, and shifts that pass the checks under `R` pass them under `R'`. So the search,
when any prefix of the order is feasible, returns the shortest nonempty one that is; it is the
shortest of all unless the input was feasible with nothing relaxed. -/
theorem relaxing_widens (si : SolveInput) :
    (∀ R R' : Finset RelaxationCategory, R ⊆ R' →
      (∀ f, Extendable { si with relaxedCategories := R } f →
        Extendable { si with relaxedCategories := R' } f) ∧
      (validateShifts si.shifts si.policy R = .ok () →
        validateShifts si.shifts si.policy R' = .ok ())) ∧
    ∀ cpSolve, DecidesFeasibility cpSolve si → (∃ n, PrefixFeasible si n) →
      ∃ k r, searchRelaxations cpSolve si = .ok r ∧ r.feasible = true ∧
        r.attemptedCategories = relaxationOrder.take k ∧ 0 < k ∧ k ≤ relaxationOrder.length ∧
        (∃ result, r.result = some result ∧
          solve cpSolve (si.relaxing (relaxationOrder.take k)) = .ok result) ∧
        PrefixFeasible si k ∧ (∀ j, 0 < j → j < k → ¬ PrefixFeasible si j) ∧
        (¬ PrefixFeasible si 0 → ∀ j < k, ¬ PrefixFeasible si j) := by
  refine ⟨fun R R' hsub => ⟨fun f => .mono hsub, validateShifts_mono hsub⟩, ?_⟩
  rintro cpSolve hdec ⟨n, hn⟩
  obtain ⟨m, hpos, hle, hm⟩ := hn.exists_pos
  have hlocks : validateLockedAssignments si = .ok () := (validate_eq_ok.1 hm.1).2
  obtain ⟨k, r, hr, hleast⟩ := @searchFrom_least cpSolve si hdec hlocks relaxationOrder [] m hpos
    hle hm
  refine ⟨k, r, hr, hleast.feasible, hleast.attempted, hleast.pos, hleast.le_length, hleast.result,
    hleast.schedulable, hleast.least, fun hbase j hj => ?_⟩
  rcases Nat.eq_zero_or_pos j with rfl | hj0
  · exact hbase
  · exact hleast.least j hj0 hj

end Search

/-! ## Two inputs -/

section Inputs

/-- A solver that knows a valuation decides feasibility where that solves whatever has a
solution. -/
theorem decidesFeasibility_solveAmong {si : SolveInput} {v₀ : SolverVar → ℤ}
    (h : ∀ R, (∃ v, Solves v (emittedModel { si with relaxedCategories := R })) →
      Solves v₀ (emittedModel { si with relaxedCategories := R })) :
    DecidesFeasibility (solveAmong [v₀]) si := by
  intro R
  by_cases hsol : Solves v₀ (emittedModel { si with relaxedCategories := R })
  · have hfind : cpStatus (solveAmong [v₀]) { si with relaxedCategories := R } = .optimal := by
      simp [cpStatus, solveAmong, hsol]
    exact ⟨fun _ => ⟨v₀, hsol⟩, fun _ => .inl hfind⟩
  · have hfind : cpStatus (solveAmong [v₀]) { si with relaxedCategories := R } = .infeasible := by
      simp [cpStatus, solveAmong, hsol]
    rw [hfind]
    exact ⟨fun hstatus => absurd hstatus (by decide), fun hv => absurd (h R hv) hsol⟩

/-- One employee for two shifts of a day, with an hour between them. -/
def oneWorker (minRestHours : ℚ) : SolveInput where
  dateRangeStart := 20454
  dateRangeEnd := 20455
  employees := [⟨1, 40, false, [⟨9, none, 0⟩], ∅, none⟩]
  shifts := [⟨11, ⟨20454 * 86400000000 + 8 * 3600000000, 0⟩,
      ⟨20454 * 86400000000 + 12 * 3600000000, 0⟩, 1, some 9, 30, none⟩,
    ⟨12, ⟨20454 * 86400000000 + 13 * 3600000000, 0⟩, ⟨20454 * 86400000000 + 17 * 3600000000, 0⟩, 1,
      some 9, 30, none⟩]
  policy := ⟨5, minRestHours, 240, some 600, some 6, some 30⟩
  leaveRecords := []
  timeLimitSeconds := 30
  fairness := none
  softWeights := ⟨1, 1, 1, 1⟩
  fairnessHistoryCounts := []
  relaxedCategories := ∅
  lockedAssignments := []

/-- The employee works both shifts. -/
def bothShifts : SolverVar → ℤ := (Plan.ofPairs [(1, 11), (1, 12)]).valuation (oneWorker 0)

theorem bothShifts_solves (minRestHours : ℚ) {R : Finset RelaxationCategory}
    (h : .minRestBetweenShifts ∈ R) :
    Solves bothShifts (emittedModel { oneWorker minRestHours with relaxedCategories := R }) := by
  have hone : Solves bothShifts (emittedModel
      { oneWorker minRestHours with relaxedCategories := {.minRestBetweenShifts} }) := by
    have hmodel : emittedModel
        { oneWorker minRestHours with relaxedCategories := {.minRestBetweenShifts} } =
          emittedModel { oneWorker 0 with relaxedCategories := {.minRestBetweenShifts} } := rfl
    rw [hmodel]
    decide +kernel
  exact solves_emittedModel_mono (Finset.singleton_subset_iff.2 h) hone

/-- With a rest of 8 hours the shifts conflict, and nobody else can work one of them. -/
theorem oneWorker_unsolvable {R : Finset RelaxationCategory} (h : .minRestBetweenShifts ∉ R)
    (v : SolverVar → ℤ) :
    ¬ Solves v (emittedModel { oneWorker 8 with relaxedCategories := R }) := by
  intro hv
  let si := { oneWorker 8 with relaxedCategories := R }
  have ha : Feasible si (planOf si v) :=
    (realizes_planOf (solves_emittedModel_iff.1 hv).1).feasible (fun _ hp => by cases hp) hv
  have hhead : ∀ s ∈ (oneWorker 8).shifts, s.requiredHeadcount = 1 := by decide
  have hworks : ∀ s ∈ (oneWorker 8).shifts, planOf si v (1, s.id) = true := by
    intro s hs
    have hcount := ha.staffed s hs
    rw [hhead s hs] at hcount
    by_contra hno
    have hzero : si.employees.countP (fun e => planOf si v (e.id, s.id)) = 0 := by
      rw [countP_eq_zero]
      intro e he
      obtain rfl := mem_singleton.1 he
      exact hno
    omega
  let first := (oneWorker 8).shifts.get ⟨0, by decide⟩
  let second := (oneWorker 8).shifts.get ⟨1, by decide⟩
  have hconf : conflicts first second (requiredRest (oneWorker 8).policy R) = true := by
    rw [requiredRest, if_neg h]
    decide +kernel
  have hlocked := ha.conflictFree _ mem_cons_self (first, second) mem_cons_self
    (hworks first (get_mem _ _)) (hworks second (get_mem _ _)) hconf
  cases hlocked.1

theorem oneWorker_prefixFeasible : PrefixFeasible (oneWorker 8) 3 :=
  ⟨by decide +kernel, bothShifts, bothShifts_solves 8 (by decide)⟩

/-- With a rest of 8 hours the third category is needed, and the search returns the first three. -/
theorem oneWorker_search : ∃ r, searchRelaxations (solveAmong [bothShifts]) (oneWorker 8) = .ok r ∧
    r.feasible = true ∧ r.attemptedCategories =
      [.contractedHours, .shiftLengthBounds, .minRestBetweenShifts] := by
  have hdec : DecidesFeasibility (solveAmong [bothShifts]) (oneWorker 8) := by
    refine decidesFeasibility_solveAmong fun R hsome => ?_
    obtain ⟨v, hv⟩ := hsome
    by_cases h : RelaxationCategory.minRestBetweenShifts ∈ R
    · exact bothShifts_solves 8 h
    · exact absurd hv (oneWorker_unsolvable h v)
  obtain ⟨k, r, hr, hfeasible, hattempted, hpos, -, -, hk, hleast, -⟩ :=
    (relaxing_widens (oneWorker 8)).2 _ hdec ⟨3, oneWorker_prefixFeasible⟩
  have hthree : k = 3 := by
    have hle : k ≤ 3 := by
      by_contra hlt
      exact hleast 3 (by omega) (by omega) (oneWorker_prefixFeasible)
    have hmem : RelaxationCategory.minRestBetweenShifts ∈ (relaxationOrder.take k).toFinset := by
      by_contra hno
      obtain ⟨-, v, hv⟩ := hk
      exact oneWorker_unsolvable hno v hv
    have hlt : ¬ k < 3 := by
      intro hlt
      obtain rfl | rfl : k = 1 ∨ k = 2 := by omega
      · exact absurd hmem (by decide)
      · exact absurd hmem (by decide)
    omega
  subst hthree
  exact ⟨r, hr, hfeasible, hattempted⟩

/-- With no rest nothing has to be relaxed, and the search relaxes the contracted hours. -/
theorem oneWorker_relaxed_needlessly :
    DecidesFeasibility (solveAmong [bothShifts]) (oneWorker 0) ∧ PrefixFeasible (oneWorker 0) 0 ∧
      ∃ r, searchRelaxations (solveAmong [bothShifts]) (oneWorker 0) = .ok r ∧
        r.feasible = true ∧ r.attemptedCategories = [.contractedHours] := by
  have hbase : Solves bothShifts (emittedModel { oneWorker 0 with relaxedCategories := ∅ }) := by
    decide +kernel
  have hdec : DecidesFeasibility (solveAmong [bothShifts]) (oneWorker 0) :=
    decidesFeasibility_solveAmong fun R _ => solves_emittedModel_mono (Finset.empty_subset R) hbase
  have hfeasible : ∀ n, PrefixFeasible (oneWorker 0) n := by
    intro n
    have hzero : PrefixFeasible (oneWorker 0) 0 := ⟨by decide +kernel, bothShifts, hbase⟩
    exact hzero.mono (Nat.zero_le n)
  refine ⟨hdec, hfeasible 0, ?_⟩
  obtain ⟨result, hsolve, hstatus⟩ := solve_of_schedulable hdec (hfeasible 1)
  refine ⟨⟨[.contractedHours], true, some result⟩, ?_, rfl, rfl⟩
  have hsolve : solve (solveAmong [bothShifts])
      { oneWorker 0 with relaxedCategories := [RelaxationCategory.contractedHours].toFinset } =
        .ok result := hsolve
  simp only [searchRelaxations, relaxationOrder, searchFrom, nil_append, hsolve]
  rw [if_pos hstatus]

end Inputs

end Workforce.Scheduling
