import Workforce.Scheduling.DecompositionSoundness
import Workforce.Scheduling.Snapshot

/-!
# Relaxations and their approval

`app/solver/relaxation.py`, and the shared core of `app/services/job_service.py` that solves the
groups of a job. An infeasible group is searched for a set of constraints whose relaxation makes it
feasible; the search is recorded with a snapshot of the input, and an approval solves the snapshot
again with the recorded categories relaxed. What a relaxation costs, and the texts that explain it,
are not modelled: nothing is decided by them.

* `Feasible.mono`: relaxing more keeps a plan feasible.
* `schedulable_snapshot`: the sites, which a snapshot drops, are no part of the constraints.
* `approval_schedulable`: when the approval of a reported relaxation finds a schedule.
-/

namespace Workforce.Scheduling

open LinearModel List

/-! ## The source -/

abbrev CpSolver := CpModel SolverVar → List (LinExpr SolverVar) → ℚ → CpStatus × (SolverVar → ℤ)

structure RelaxationSearchResult where
  attemptedCategories : List RelaxationCategory
  feasible : Bool
  result : Option SolveResult

/-- The loop of `search_relaxations`, with the categories that are already relaxed. -/
def searchFrom (cpSolve : CpSolver) (si : SolveInput) (applied : List RelaxationCategory) :
    List RelaxationCategory → Except SolveError RelaxationSearchResult
  | [] => .ok { attemptedCategories := applied, feasible := false, result := none }
  | category :: rest =>
    let applied := applied ++ [category]
    match solve cpSolve { si with relaxedCategories := applied.toFinset } with
    | .error (.shiftViolatesUnionRules _ _) => searchFrom cpSolve si applied rest
    | .error err => .error err
    | .ok result =>
      if result.status = .optimal ∨ result.status = .feasible then
        .ok { attemptedCategories := applied, feasible := true, result := some result }
      else searchFrom cpSolve si applied rest

/-- `search_relaxations`. -/
def searchRelaxations (cpSolve : CpSolver) (si : SolveInput) :
    Except SolveError RelaxationSearchResult :=
  searchFrom cpSolve si [] relaxationOrder

/-- The record of a search on a job. -/
structure RelaxationReport where
  attemptedCategories : List RelaxationCategory
  feasible : Bool
  approved : Bool
  deriving DecidableEq

inductive JobError
  | invalidShiftDefinition (shiftId : UUID) (reason : UnionRule)
  | lockedAssignmentEmployeeMissing (employeeId : UUID)
  | commercialFallbackRequired (employeeCount : ℕ)
  | relaxationNotAvailable (reason : String)
  /-- Not one of the errors that a job reports as a failure. -/
  | uncaughtSolve (err : SolveError)
  | uncaughtSnapshot (err : Json.Error)

/-- `_build_relaxations_applied`. -/
def buildRelaxationsApplied (cpSolve : CpSolver) (infeasible : List DecompositionGroup) :
    Except SolveError RelaxationReport := do
  let searches ← infeasible.mapM fun group => searchRelaxations cpSolve group.solveInput
  return { attemptedCategories := relaxationOrder.filter fun category =>
             searches.any fun search => category ∈ search.attemptedCategories
           feasible := searches.all (·.feasible)
           approved := false }

/-- `COMMERCIAL_FALLBACK_EMPLOYEE_THRESHOLD`. -/
def commercialFallbackEmployeeThreshold : ℕ := 300

/-- `should_trigger_commercial_fallback`. -/
def shouldTriggerCommercialFallback (employeeCount : ℕ) (result : SolveResult) : Bool :=
  result.status = .unknown && commercialFallbackEmployeeThreshold < employeeCount

/-- The body of the loop over the groups. -/
def solveGroup (cpSolve : CpSolver) (group : DecompositionGroup) : Except JobError SolveResult :=
  match solve cpSolve group.solveInput with
  | .error (.shiftViolatesUnionRules shiftId reason) =>
    .error (.invalidShiftDefinition shiftId reason)
  | .error (.unknownLockedAssignment employeeId _) =>
    .error (.lockedAssignmentEmployeeMissing employeeId)
  | .ok result =>
    if shouldTriggerCommercialFallback group.solveInput.employees.length result then
      .error (.commercialFallbackRequired group.solveInput.employees.length)
    else .ok result

/-- An entry of `_build_decomposition_plan`. -/
structure GroupPlan where
  groupId : String
  orgUnitIds : Finset UUID
  employeeCount : ℕ
  shiftCount : ℕ
  status : SolveStatus

inductive JobOutcome
  | failed
  | infeasible (relaxationsApplied : RelaxationReport) (solveInputSnapshot : Json)
  | completed (result : SolveResult) (decompositionPlan : List GroupPlan)

/-- `_sum_or_none`. -/
def sumOrNone (values : List (Option ℤ)) : Option ℤ :=
  let collected := values.filterMap id
  if collected = [] then none else some collected.sum

/-- `merged_result`. -/
def mergedResult (results : List SolveResult) : SolveResult where
  status := if results.all (·.status = .optimal) then .optimal else .feasible
  assignments := results.flatMap (·.assignments)
  objectiveValue := sumOrNone (results.map (·.objectiveValue))

/-- `_build_decomposition_plan`. -/
def buildDecompositionPlan (groups : List DecompositionGroup) (results : List SolveResult) :
    List GroupPlan :=
  (groups.zip results).map fun (g, r) =>
    { groupId := g.groupId
      orgUnitIds := g.orgUnitIds
      employeeCount := g.solveInput.employees.length
      shiftCount := g.solveInput.shifts.length
      status := r.status }

/-- `_decompose_solve_persist`, but for what it stores. -/
def decomposeSolvePersist (cpSolve : CpSolver) (si : SolveInput) (isReproof : Bool) :
    Except JobError JobOutcome := do
  let groups := decompose si
  let results ← groups.mapM (solveGroup cpSolve)
  if results.any (·.status = .unknown) then return .failed
  let infeasible := (groups.zip results).filter fun (_, r) => r.status = .infeasible
  if infeasible ≠ [] then
    if isReproof then
      throw (.relaxationNotAvailable
        "re-solving with the approved relaxation did not reproduce a feasible schedule")
    match buildRelaxationsApplied cpSolve (infeasible.map (·.1)) with
    | .error err => throw (.uncaughtSolve err)
    | .ok relaxationsApplied => return .infeasible relaxationsApplied (serialize si)
  return .completed (mergedResult results) (buildDecompositionPlan groups results)

/-- The input that an approval solves. -/
def approvedInput (relaxationsApplied : RelaxationReport) (solveInputSnapshot : Json) :
    Except Json.Error SolveInput := do
  let originalInput ← deserialize solveInputSnapshot
  return { originalInput with
    relaxedCategories := relaxationsApplied.attemptedCategories.toFinset }

/-- `_execute_relaxation_approval`. -/
def executeRelaxationApproval (cpSolve : CpSolver) (relaxationsApplied : RelaxationReport)
    (solveInputSnapshot : Json) : Except JobError JobOutcome :=
  match approvedInput relaxationsApplied solveInputSnapshot with
  | .error err => .error (.uncaughtSnapshot err)
  | .ok relaxedInput => decomposeSolvePersist cpSolve relaxedInput true

/-! ## Relaxing more -/

section Mono

variable {si : SolveInput} {a : Plan} {R : Finset RelaxationCategory}

theorem conflicts_requiredRest {policy : EmploymentPolicy} {R' : Finset RelaxationCategory}
    (hsub : R ⊆ R') {s s' : ShiftSlot} (h : conflicts s s' (requiredRest policy R') = true) :
    conflicts s s' (requiredRest policy R) = true := by
  by_cases hrest : RelaxationCategory.minRestBetweenShifts ∈ R'
  · rw [requiredRest, if_pos hrest] at h
    exact conflicts_of_zero h _
  · rw [requiredRest, if_neg hrest] at h
    rwa [requiredRest, if_neg fun hmem => hrest (hsub hmem)]

theorem Feasible.mono (h : Feasible si a) (hsub : si.relaxedCategories ⊆ R) :
    Feasible { si with relaxedCategories := R } a where
  gated := h.gated
  locked := h.locked
  staffed := h.staffed
  conflictFree := fun e he p hp ha ha' hconf =>
    h.conflictFree e he p hp ha ha' (conflicts_requiredRest hsub hconf)
  withinDays := fun hrelaxed => h.withinDays fun hmem => hrelaxed (hsub hmem)
  withinHours := fun e he hcap => h.withinHours e he fun hor =>
    hcap (hor.imp_right fun hmem => hsub hmem)
  fair := h.fair
  withinOvertime := h.withinOvertime

theorem validate_mono (h : validate si = .ok ()) (hsub : si.relaxedCategories ⊆ R) :
    validate { si with relaxedCategories := R } = .ok () := by
  obtain ⟨hshifts, hlocks⟩ := validate_eq_ok.1 h
  refine validate_eq_ok.2 ⟨fun s hs => ?_, hlocks⟩
  obtain ⟨hlength, hbreak⟩ := validateShift_eq_ok.1 (hshifts s hs)
  exact validateShift_eq_ok.2 ⟨fun hmem => hlength fun hin => hmem (hsub hin), hbreak⟩

theorem Schedulable.mono (h : Schedulable si) (hsub : si.relaxedCategories ⊆ R) :
    Schedulable { si with relaxedCategories := R } := by
  obtain ⟨hvalid, a, ha⟩ := schedulable_iff.1 h
  exact schedulable_iff.2 ⟨validate_mono hvalid hsub, a, ha.mono hsub⟩

end Mono

/-! ## Dropping the sites -/

section Sites

variable {si : SolveInput} {a : Plan}

/-- The input without the sites of employees and shifts. -/
def SolveInput.withoutSites (si : SolveInput) : SolveInput :=
  { si with
    employees := si.employees.map Employee.withoutSite
    shifts := si.shifts.map ShiftSlot.withoutSite }

theorem keepsTimes_withoutSite : KeepsTimes ShiftSlot.withoutSite :=
  ⟨fun _ => rfl, fun _ => rfl, fun _ => rfl⟩

theorem decisionPairs_withoutSites (si : SolveInput) :
    decisionPairs si.withoutSites = decisionPairs si := by
  simp only [decisionPairs, SolveInput.withoutSites, flatMap_map, filter_map, map_map]
  rfl

theorem undesirableShiftIds_withoutSite (fairness : FairnessConfig) (shifts : List ShiftSlot) :
    undesirableShiftIds fairness (shifts.map ShiftSlot.withoutSite) =
      undesirableShiftIds fairness shifts := by
  simp only [undesirableShiftIds, filter_map, map_map]
  rfl

theorem capMinutes_withoutSite (employees : List Employee) (employeeId : UUID) :
    capMinutes (employees.map Employee.withoutSite) employeeId =
      capMinutes employees employeeId := by
  simp only [capMinutes, capMinutesByEmployee, ← map_reverse, find?_map, Option.map_map]
  rfl

theorem Plan.Fair.withoutSites {employees : List Employee} {shifts : List ShiftSlot}
    {fairness : FairnessConfig} {counts : List (UUID × ℤ)}
    (h : a.Fair employees shifts fairness counts) :
    a.Fair (employees.map Employee.withoutSite) (shifts.map ShiftSlot.withoutSite) fairness
      counts := by
  have hids : (employees.map Employee.withoutSite).map (·.id) = employees.map (·.id) := by
    rw [map_map]
    rfl
  have hcount : a.undesirableCount fairness (shifts.map ShiftSlot.withoutSite) counts =
      a.undesirableCount fairness shifts counts := by
    funext employeeId
    rw [Plan.undesirableCount, undesirableShiftIds_withoutSite, Plan.undesirableCount]
  refine h.imp (fun hnil => ?_) fun hall e he => ?_
  · rw [undesirableShiftIds_withoutSite]
    exact hnil
  · obtain ⟨e, hmem, rfl⟩ := mem_map.1 he
    show _ ∧ _
    rw [hids, hcount, length_map]
    exact hall e hmem

theorem Feasible.withoutSites (h : Feasible si a) : Feasible si.withoutSites a where
  gated := by
    rw [decisionPairs_withoutSites]
    exact h.gated
  locked := h.locked
  staffed := by
    intro s hs
    obtain ⟨s, hmem, rfl⟩ := mem_map.1 hs
    rw [SolveInput.withoutSites, countP_map]
    exact h.staffed s hmem
  conflictFree := by
    intro e he
    obtain ⟨e, hmem, rfl⟩ := mem_map.1 he
    exact (keepsTimes_withoutSite.conflictFree_map _ _ _).2 (h.conflictFree e hmem)
  withinDays := by
    intro hrelaxed e he window hw
    obtain ⟨e, hmem, rfl⟩ := mem_map.1 he
    have hle := h.withinDays hrelaxed e hmem window hw
    have hdays : ∀ b : Plan, b.worksOn si.withoutSites.shifts e.withoutSite.id =
        b.worksOn si.shifts e.id := fun b => keepsTimes_withoutSite.worksOn_map _ _ _
    rw [hdays, hdays]
    exact hle
  withinHours := by
    intro e he hcap week
    obtain ⟨e, hmem, rfl⟩ := mem_map.1 he
    have hle := h.withinHours e hmem hcap week
    rw [SolveInput.withoutSites, keepsTimes_withoutSite.minutes_map,
      keepsTimes_withoutSite.minutes_map]
    exact hle
  fair := fun fairness hsome => (h.fair fairness hsome).withoutSites
  withinOvertime := by
    intro hw e he happroved week
    obtain ⟨e, hmem, rfl⟩ := mem_map.1 he
    have hle := h.withinOvertime hw e hmem happroved week
    rw [decisionPairs_withoutSites, SolveInput.withoutSites, keepsTimes_withoutSite.minutes_map,
      keepsTimes_withoutSite.minutes_map, capMinutes_withoutSite]
    exact hle

theorem validate_withoutSites (h : validate si = .ok ()) : validate si.withoutSites = .ok () := by
  obtain ⟨hshifts, hlocks⟩ := validate_eq_ok.1 h
  refine validate_eq_ok.2
    ⟨fun s hs => ?_, validateLockedAssignments_eq_ok.2 fun locked hlocked => ?_⟩
  · obtain ⟨s, hmem, rfl⟩ := mem_map.1 hs
    exact hshifts s hmem
  · obtain ⟨⟨e, he, hide⟩, s, hs, hids⟩ :=
      validateLockedAssignments_eq_ok.1 hlocks locked hlocked
    exact ⟨⟨e.withoutSite, mem_map_of_mem he, hide⟩, s.withoutSite, mem_map_of_mem hs, hids⟩

theorem Schedulable.withoutSites (h : Schedulable si) : Schedulable si.withoutSites := by
  obtain ⟨hvalid, a, ha⟩ := schedulable_iff.1 h
  exact schedulable_iff.2 ⟨validate_withoutSites hvalid, a, ha.withoutSites⟩

theorem not_splits_withoutSites (si : SolveInput) : ¬ Splits si.withoutSites := by
  rintro ⟨-, hall, htwo⟩
  cases hsites : siteIds si.withoutSites with
  | nil =>
    rw [hsites] at htwo
    simp at htwo
  | cons site l =>
    obtain ⟨s, hs, -⟩ := mem_siteIds.1 (hsites ▸ mem_cons_self : site ∈ _)
    refine hall s hs ?_
    obtain ⟨s, -, rfl⟩ := mem_map.1 hs
    rfl

end Sites

/-! ## What a report says -/

section Report

variable {cpSolve : CpSolver} {si : SolveInput}

/-- A search that finds a feasible set finds one that makes the problem schedulable. -/
theorem searchFrom_schedulable (hcp : ReturnsSolutions cpSolve) {rest : List RelaxationCategory} :
    ∀ {applied : List RelaxationCategory} {r : RelaxationSearchResult},
      searchFrom cpSolve si applied rest = .ok r → r.feasible = true →
        Schedulable { si with relaxedCategories := r.attemptedCategories.toFinset } := by
  induction rest with
  | nil =>
    intro applied r h hfeasible
    cases h
    cases hfeasible
  | cons category rest ih =>
    intro applied r h hfeasible
    simp only [searchFrom] at h
    split at h
    · exact ih h hfeasible
    · cases h
    · rename_i result hsolve
      split at h
      · rename_i hstatus
        cases h
        obtain ⟨hvalid, v, hv, -⟩ := solve_eq_ok hcp hsolve hstatus
        exact ⟨hvalid, v, hv⟩
      · exact ih h hfeasible

theorem exists_mem_zip_of_mapM {ε α β : Type} {f : α → Except ε β} {l : List α} :
    ∀ {rs : List β}, l.mapM f = .ok rs → ∀ x ∈ l, ∃ r, (x, r) ∈ l.zip rs ∧ f x = .ok r := by
  induction l with
  | nil =>
    intro rs _ x hx
    cases hx
  | cons y l ih =>
    intro rs h x hx
    rw [mapM_cons] at h
    cases hy : f y with
    | error e => simp [hy, bind, Except.bind] at h
    | ok r =>
      cases hl : l.mapM f with
      | error e => simp [hy, hl, bind, Except.bind] at h
      | ok rs' =>
        simp only [hy, hl, bind, Except.bind, pure, Except.pure, Except.ok.injEq] at h
        subst h
        rcases mem_cons.1 hx with rfl | hx
        · exact ⟨r, mem_cons_self, hy⟩
        · obtain ⟨r', hr', hfx⟩ := ih hl x hx
          exact ⟨r', mem_cons_of_mem _ hr', hfx⟩

variable {report : RelaxationReport}

theorem decomposeSolvePersist_infeasible {isReproof : Bool} {snapshot : Json}
    (h : decomposeSolvePersist cpSolve si isReproof = .ok (.infeasible report snapshot)) :
    ∃ results, (decompose si).mapM (solveGroup cpSolve) = .ok results ∧
      (∀ r ∈ results, r.status ≠ .unknown) ∧
      buildRelaxationsApplied cpSolve ((((decompose si).zip results).filter fun (_, r) =>
        r.status = .infeasible).map (·.1)) = .ok report ∧
      snapshot = serialize si := by
  unfold decomposeSolvePersist at h
  cases hresults : (decompose si).mapM (solveGroup cpSolve) with
  | error e => simp [hresults, bind, Except.bind] at h
  | ok results =>
    refine ⟨results, rfl, ?_⟩
    simp only [hresults, bind, Except.bind, pure, Except.pure] at h
    split at h
    · cases h
    · rename_i hunknown
      split at h
      · split at h
        · cases h
        · split at h
          · cases h
          · rename_i report' hbuild
            obtain ⟨rfl, rfl⟩ := JobOutcome.infeasible.inj (Except.ok.inj h)
            refine ⟨fun r hr hstatus => hunknown ?_, hbuild, rfl⟩
            exact any_eq_true.2 ⟨r, hr, by simpa using hstatus⟩
      · cases h

theorem solve_of_solveGroup {g : DecompositionGroup} {r : SolveResult}
    (h : solveGroup cpSolve g = .ok r) : solve cpSolve g.solveInput = .ok r := by
  unfold solveGroup at h
  split at h
  · cases h
  · cases h
  · rename_i result hsolve
    split at h
    · cases h
    · cases h
      exact hsolve

theorem mem_relaxationOrder (category : RelaxationCategory) : category ∈ relaxationOrder := by
  cases category <;> decide

/-- A report that is feasible names categories that make every group it searched schedulable. -/
theorem schedulable_of_build (hcp : ReturnsSolutions cpSolve)
    {infeasible : List DecompositionGroup}
    (h : buildRelaxationsApplied cpSolve infeasible = .ok report)
    (hfeasible : report.feasible = true) {g : DecompositionGroup} (hg : g ∈ infeasible) :
    Schedulable { g.solveInput with
      relaxedCategories := report.attemptedCategories.toFinset } := by
  unfold buildRelaxationsApplied at h
  cases hsearches : infeasible.mapM (fun group => searchRelaxations cpSolve group.solveInput) with
  | error e => simp [hsearches, bind, Except.bind] at h
  | ok searches =>
    simp only [hsearches, bind, Except.bind, pure, Except.pure, Except.ok.injEq] at h
    subst h
    obtain ⟨search, hmem, hsearch⟩ := exists_mem_zip_of_mapM hsearches g hg
    have hmem := (of_mem_zip hmem).2
    have hsched := searchFrom_schedulable hcp hsearch (all_eq_true.1 hfeasible search hmem)
    refine hsched.mono fun category hcategory => ?_
    rw [mem_toFinset] at hcategory ⊢
    exact mem_filter.2 ⟨mem_relaxationOrder category,
      any_eq_true.2 ⟨search, hmem, by simpa using hcategory⟩⟩

/-- **A feasible report makes every group schedulable**, those that were feasible without it
included. -/
theorem schedulable_of_report (hcp : ReturnsSolutions cpSolve) (hbase : si.relaxedCategories = ∅)
    {snapshot : Json}
    (h : decomposeSolvePersist cpSolve si false = .ok (.infeasible report snapshot))
    (hfeasible : report.feasible = true) : ∀ g ∈ decompose si,
      Schedulable { g.solveInput with
        relaxedCategories := report.attemptedCategories.toFinset } := by
  intro g hg
  obtain ⟨results, hresults, hknown, hbuild, -⟩ := decomposeSolvePersist_infeasible h
  obtain ⟨r, hmem, hr⟩ := exists_mem_zip_of_mapM hresults g hg
  by_cases hstatus : r.status = .infeasible
  · refine schedulable_of_build hcp hbuild hfeasible (mem_map.2 ⟨(g, r), ?_, rfl⟩)
    exact mem_filter.2 ⟨hmem, by simpa using hstatus⟩
  · have hdone : r.status = .optimal ∨ r.status = .feasible := by
      have hunknown := hknown r (of_mem_zip hmem).2
      cases hs : r.status <;> simp_all
    obtain ⟨hvalid, v, hv, -⟩ := solve_eq_ok hcp (solve_of_solveGroup hr) hdone
    have hsched : Schedulable g.solveInput := ⟨hvalid, v, hv⟩
    refine hsched.mono ?_
    rcases solveInput_of_mem hg with ⟨-, hinput⟩ | ⟨-, G, -, hinput⟩
    · rw [hinput, hbase]
      exact Finset.empty_subset _
    · rw [hinput]
      exact hbase ▸ Finset.empty_subset _

end Report

/-! ## What an approval finds -/

section Approval

variable {si : SolveInput}

/-- Everybody is at home at every shift: the sites of the shifts are all coupled, and every employee
is at home at one of them. -/
def OneGroup (si : SolveInput) : Prop := ∀ e ∈ si.employees, ∀ s ∈ si.shifts, AtHome si e s

theorem OneGroup.exists_group (h : OneGroup si) (hsplit : Splits si) : ∃ G ∈ siteGroups si,
    (groupInput si G).employees = si.employees ∧ (groupInput si G).shifts = si.shifts := by
  obtain ⟨hsize, -, htwo⟩ := hsplit
  obtain ⟨e, he⟩ : ∃ e, e ∈ si.employees := exists_mem_of_length_pos (by omega)
  obtain ⟨site, hsite⟩ : ∃ site, site ∈ siteIds si := exists_mem_of_length_pos (by omega)
  obtain ⟨s, hs, -⟩ := mem_siteIds.1 hsite
  obtain ⟨G, hG, hemp, hshift⟩ := (atHome_iff he hs).1 (h e he s hs)
  refine ⟨G, hG, filter_eq_self.2 fun e' he' => ?_, filter_eq_self.2 fun s' hs' => ?_⟩
  · obtain ⟨G', hG', hemp', hshift'⟩ := (atHome_iff he' hs).1 (h e' he' s hs)
    obtain rfl := group_unique_of_shift hG hG' hshift hshift'
    exact (mem_filter.1 hemp').2
  · obtain ⟨G', hG', hemp', hshift'⟩ := (atHome_iff he hs').1 (h e he s' hs')
    obtain rfl := group_unique_of_employee hG hG' hemp hemp'
    exact (mem_filter.1 hshift').2

theorem lookup_filter {α β : Type*} [BEq α] [LawfulBEq α] {p : α → Bool} (l : List (α × β)) {k : α}
    (hk : p k = true) : (l.filter fun entry => p entry.1).lookup k = l.lookup k := by
  induction l with
  | nil => rfl
  | cons entry l ih =>
    obtain ⟨k', b⟩ := entry
    by_cases hp : p k' = true
    · rw [filter_cons, if_pos hp, lookup_cons, lookup_cons, ih]
    · have hne : (k == k') = false := by
        rw [beq_eq_false_iff_ne]
        rintro rfl
        exact hp hk
      rw [filter_cons, if_neg hp, ih, lookup_cons, hne]

theorem Feasible.of_history {a : Plan} (h : Feasible { si with
    fairnessHistoryCounts := si.fairnessHistoryCounts.filter fun entry =>
      entry.1 ∈ si.employees.map (·.id) } a) : Feasible si a where
  gated := h.gated
  locked := h.locked
  staffed := h.staffed
  conflictFree := h.conflictFree
  withinDays := h.withinDays
  withinHours := h.withinHours
  fair := by
    intro fairness hsome
    have hcount : ∀ id ∈ si.employees.map (·.id),
        a.undesirableCount fairness si.shifts (si.fairnessHistoryCounts.filter fun entry =>
          entry.1 ∈ si.employees.map (·.id)) id =
        a.undesirableCount fairness si.shifts si.fairnessHistoryCounts id := by
      intro id hid
      have hlookup := @lookup_filter _ _ _ _ (fun id => decide (id ∈ si.employees.map (·.id)))
        si.fairnessHistoryCounts id (by simpa using hid)
      rw [Plan.undesirableCount, Plan.undesirableCount, hlookup]
    refine (h.fair fairness hsome).imp_right fun hall e he => ?_
    have htotal := map_congr_left fun id hid => hcount id (mem_dedup.1 hid)
    have hboth := hall e he
    simp only [htotal, hcount e.id (mem_map_of_mem he)] at hboth
    exact hboth
  withinOvertime := h.withinOvertime

/-- One group that holds everything is the whole problem. -/
theorem OneGroup.schedulable (h : OneGroup si) (hsplit : Splits si)
    (hknown : ∀ locked ∈ si.lockedAssignments, ∃ s ∈ si.shifts, s.id = locked.shiftId)
    (hgroups : ∀ G ∈ siteGroups si, Schedulable (groupInput si G)) : Schedulable si := by
  obtain ⟨G, hG, hemp, hshift⟩ := h.exists_group hsplit
  have hlocks : (si.lockedAssignments.filter fun locked => locked.shiftId ∈ si.shifts.map (·.id)) =
      si.lockedAssignments := by
    refine filter_eq_self.2 fun locked hlocked => ?_
    obtain ⟨s, hs, hid⟩ := hknown locked hlocked
    rw [decide_eq_true_eq, ← hid]
    exact mem_map_of_mem hs
  have hinput : groupInput si G = { si with
      fairnessHistoryCounts := si.fairnessHistoryCounts.filter fun entry =>
        entry.1 ∈ si.employees.map (·.id) } := by
    simp only [groupInput] at hemp hshift ⊢
    simp only [hemp, hshift, hlocks]
  obtain ⟨hvalid, a, ha⟩ := schedulable_iff.1 (hgroups G hG)
  rw [hinput] at hvalid ha
  exact schedulable_iff.2 ⟨hvalid, a, ha.of_history⟩

/-- Without fairness, schedules of the groups give one of the whole. -/
theorem schedulable_of_groups (hsplit : Splits si) (hsites : SameSites si)
    (hends : ∀ s ∈ si.shifts, s.start.instant ≤ s.fin.instant) (hfair : NoUndesirable si)
    (hknown : ∀ locked ∈ si.lockedAssignments, ∃ s ∈ si.shifts, s.id = locked.shiftId)
    (hgroups : ∀ G ∈ siteGroups si, Schedulable (groupInput si G)) : Schedulable si := by
  have hland : LocksLand si := by
    intro locked hlocked
    obtain ⟨s, hs, hid⟩ := hknown locked hlocked
    obtain ⟨G, hG, hshift⟩ := hsplit.exists_group hs
    have hvalid := validateLockedAssignments_eq_ok.1 (validate_eq_ok.1 (hgroups G hG).1).2 locked
      (mem_groupInput_lockedAssignments.2 ⟨hlocked, s, hshift, hid⟩)
    have hinput : groupInput si G ∈ (decompose si).map (·.solveInput) := by
      rcases decompose_inputs si with ⟨hno, -⟩ | ⟨-, heq⟩
      · exact absurd hsplit hno
      · rw [heq]
        exact mem_map_of_mem hG
    obtain ⟨g, hg, heq⟩ := mem_map.1 hinput
    refine ⟨g, hg, ?_⟩
    rw [heq]
    exact hvalid
  obtain ⟨l, hl⟩ := exists_isSplit hgroups
  have hvalid := (@forall_decompose si fun input => validate input = .ok ()).2
    ⟨fun hno => absurd hsplit hno, fun _ G hG => (hgroups G hG).1⟩
  exact schedulable_iff.2 ⟨validate_of_groups hland hvalid, _,
    hl.feasible_union hsplit hsites hland (fun s hs => roundedMinutes_nonneg (hends s hs)) hfair⟩

/-- Schedules of what is left of the groups, once more is relaxed, are ones of the whole. -/
theorem schedulable_whole {R : Finset RelaxationCategory}
    (hcond : Splits si → (∀ locked ∈ si.lockedAssignments, ∃ s ∈ si.shifts, s.id = locked.shiftId) ∧
      (OneGroup si ∨ SameSites si ∧ (∀ s ∈ si.shifts, s.start.instant ≤ s.fin.instant) ∧
        NoUndesirable si))
    (h : ∀ g ∈ decompose si, Schedulable { g.solveInput with relaxedCategories := R }) :
    Schedulable { si with relaxedCategories := R } := by
  obtain ⟨hwhole, hgroups⟩ := (@forall_decompose si fun input =>
    Schedulable { input with relaxedCategories := R }).1 h
  by_cases hsplit : Splits si
  · obtain ⟨hknown, hcase⟩ := hcond hsplit
    rcases hcase with hone | ⟨hsites, hends, hfair⟩
    · exact @OneGroup.schedulable { si with relaxedCategories := R } hone hsplit hknown
        (hgroups hsplit)
    · exact @schedulable_of_groups { si with relaxedCategories := R } hsplit
        ⟨hsites.employees, hsites.shifts⟩ hends hfair hknown (hgroups hsplit)
  · exact hwhole hsplit

/-- An approval solves the whole problem, with more of it relaxed and without its sites. -/
theorem approvedInput_serialize (hrep : si.Representable) (report : RelaxationReport) :
    approvedInput report (serialize si) = .ok (SolveInput.withoutSites
      { si with relaxedCategories := report.attemptedCategories.toFinset }) := by
  simp only [approvedInput, deserialize_serialize hrep, bind, Except.bind, pure, Except.pure]
  rfl

theorem forall_decompose_withoutSites {p : SolveInput → Prop} :
    (∀ g ∈ decompose si.withoutSites, p g.solveInput) ↔ p si.withoutSites := by
  rw [forall_decompose]
  have hno := not_splits_withoutSites si
  exact ⟨fun h => h.1 hno, fun h => ⟨fun _ => h, fun hsplit => absurd hsplit hno⟩⟩

/-- An approval finds a schedule: whenever a job on the input, with a solver that answers with
solutions, ends with a feasible report, every group of the input that its approval solves is
schedulable. -/
def ApprovalReproduces (si : SolveInput) : Prop :=
  ∀ cpSolve, ReturnsSolutions cpSolve → ∀ report snapshot,
    decomposeSolvePersist cpSolve si false = .ok (.infeasible report snapshot) →
      report.feasible = true → ∃ relaxedInput, approvedInput report snapshot = .ok relaxedInput ∧
        ∀ g ∈ decompose relaxedInput, Schedulable g.solveInput

/-- **When an approved relaxation is reproducible.** The snapshot has no sites, so an approval
solves the whole problem. It finds a schedule if the problem was not split; or if its locks are on
shifts of it, and either one group holds everything, or there is no undesirable shift to balance
(where equal ids are at equal sites and shifts do not end before they start). -/
theorem approval_schedulable (hrep : si.Representable) (hbase : si.relaxedCategories = ∅)
    (hcond : Splits si → (∀ locked ∈ si.lockedAssignments, ∃ s ∈ si.shifts, s.id = locked.shiftId) ∧
      (OneGroup si ∨ SameSites si ∧ (∀ s ∈ si.shifts, s.start.instant ≤ s.fin.instant) ∧
        NoUndesirable si)) : ApprovalReproduces si := by
  intro cpSolve hcp report snapshot hjob hfeasible
  have hgroups := schedulable_of_report hcp hbase hjob hfeasible
  obtain ⟨-, -, -, -, rfl⟩ := decomposeSolvePersist_infeasible hjob
  exact ⟨_, approvedInput_serialize hrep report,
    forall_decompose_withoutSites.2 (schedulable_whole hcond hgroups).withoutSites⟩

end Approval

/-- A solver that looks for a solution among some valuations. -/
def solveAmong (candidates : List (SolverVar → ℤ)) : CpSolver := fun m _ _ =>
  match candidates.find? fun v => Solves v m with
  | some v => (.optimal, v)
  | none => (.infeasible, fun _ => 0)

theorem returnsSolutions_solveAmong (candidates : List (SolverVar → ℤ)) :
    ReturnsSolutions (solveAmong candidates) := by
  intro m terms limit status v h hstatus
  unfold solveAmong at h
  split at h
  · rename_i v' hfind
    cases h
    simpa using find?_some hfind
  · cases h
    simp at hstatus

/-- Two sites, where the shift at site 5 is longer than the hours of those who may work it. -/
def shortHours : SolveInput :=
  { twoSites with
    employees := [⟨1, 2, false, [⟨9, none, 0⟩], ∅, some 5⟩,
      ⟨2, 2, false, [⟨9, none, 0⟩], ∅, some 5⟩, ⟨3, 40, false, [⟨9, none, 0⟩], ∅, some 6⟩] ++
        crowd }

/-- The group of site 5 has no schedule within the hours. Beyond them, employee 1 can work there. -/
def shortHoursSolver : CpSolver :=
  solveAmong [(Plan.ofPairs [(1, 11)]).valuation (groupInput shortHours [5]),
    (Plan.ofPairs [(3, 12)]).valuation (groupInput shortHours [6])]

/-- The job reports that relaxing the contracted hours makes it feasible. -/
def ReportsHours (outcome : Except JobError JobOutcome) : Bool :=
  match outcome with
  | .ok (.infeasible report _) => report = ⟨[.contractedHours], true, false⟩
  | _ => false

theorem exists_report {si : SolveInput} {cpSolve : CpSolver}
    (h : ReportsHours (decomposeSolvePersist cpSolve si false) = true) :
    ∃ report snapshot, decomposeSolvePersist cpSolve si false =
      .ok (.infeasible report snapshot) ∧ report.feasible = true := by
  unfold ReportsHours at h
  split at h
  · rename_i report snapshot hjob
    obtain rfl := of_decide_eq_true h
    exact ⟨_, snapshot, hjob, rfl⟩
  · cases h

theorem shortHours_representable : shortHours.Representable where
  dateRangeStart := by
    show DateInRange 20514
    decide
  dateRangeEnd := by
    show DateInRange 20514
    decide
  expiresAt := by
    have hnone : ∀ e ∈ shortHours.employees, ∀ skill ∈ e.skills, skill.expiresAt = none := by
      decide +kernel
    intro e he skill hskill d hd
    rw [hnone e he skill hskill] at hd
    cases hd
  shifts := by decide +kernel
  leaveRecords := by simp [shortHours, twoSites]
  holidayDates := by simp [shortHours, twoSites]

/-- Without fairness the relaxation that is reported for site 5 has a schedule. -/
theorem shortHours_approval : ∃ report snapshot relaxedInput,
    decomposeSolvePersist shortHoursSolver shortHours false = .ok (.infeasible report snapshot) ∧
      approvedInput report snapshot = .ok relaxedInput ∧
        ∀ g ∈ decompose relaxedInput, Schedulable g.solveInput := by
  have hjob : ReportsHours (decomposeSolvePersist shortHoursSolver shortHours false) = true := by
    decide +kernel
  obtain ⟨report, snapshot, hjob, hfeasible⟩ := exists_report hjob
  have hreproduces : ApprovalReproduces shortHours := by
    refine approval_schedulable shortHours_representable rfl fun _ => ⟨?_, .inr ⟨?_, ?_, ?_⟩⟩
    · rintro _ ⟨⟩
    · exact .of_isChain (by decide +kernel) (by decide +kernel)
    · decide +kernel
    · rintro _ ⟨⟩
  obtain ⟨relaxedInput, happroved, hgroups⟩ :=
    hreproduces _ (returnsSolutions_solveAmong _) report snapshot hjob hfeasible
  exact ⟨report, snapshot, relaxedInput, hjob, happroved, hgroups⟩

/-- In addition the day is a holiday, of which employee 3 has worked five before. Site 6 alone,
where nobody else works, is balanced; all employees together are not. -/
def unbalanced : SolveInput :=
  { shortHours with
    fairness := some ⟨4, 1, false, none, none, {20514}⟩
    fairnessHistoryCounts := [(3, 5)] }

theorem unbalanced_representable : unbalanced.Representable :=
  { shortHours_representable with
    holidayDates := by
      intro f hf d hd
      cases hf
      obtain rfl := Finset.mem_singleton.1 hd
      decide }

theorem Plan.undesirableCount_mono {a b : Plan} (h : ∀ p, a p = true → b p = true)
    (fairness : FairnessConfig) (shifts : List ShiftSlot) (counts : List (UUID × ℤ)) (id : UUID) :
    a.undesirableCount fairness shifts counts id ≤
      b.undesirableCount fairness shifts counts id := by
  have hle : (undesirableShiftIds fairness shifts).countP (fun s => a (id, s)) ≤
      (undesirableShiftIds fairness shifts).countP fun s => b (id, s) :=
    countP_mono_left fun s _ hs => h _ hs
  simp only [Plan.undesirableCount]
  omega

/-- All employees together have no schedule, whatever is relaxed. -/
theorem unbalanced_not_schedulable (R : Finset RelaxationCategory) :
    ¬ Schedulable (SolveInput.withoutSites { unbalanced with relaxedCategories := R }) := by
  intro hsched
  obtain ⟨-, a, ha⟩ := schedulable_iff.1 hsched
  let fairness : FairnessConfig := ⟨4, 1, false, none, none, {20514}⟩
  let ids := unbalanced.withoutSites.employees.map (·.id)
  let count (b : Plan) := b.undesirableCount fairness unbalanced.withoutSites.shifts [(3, 5)]
  have hnil : undesirableShiftIds fairness unbalanced.withoutSites.shifts ≠ [] := by decide +kernel
  have hfair : (unbalanced.withoutSites.employees.length : ℤ) * count a 3 -
      (ids.dedup.map (count a)).sum ≤ 1 * unbalanced.withoutSites.employees.length :=
    ((ha.fair fairness rfl).resolve_left hnil
      (unbalanced.withoutSites.employees.get ⟨2, by decide +kernel⟩) (get_mem _ _)).1
  have hdedup : ids.dedup = ids := (nodup_of_isChain (by decide +kernel)).dedup
  have hlength : unbalanced.withoutSites.employees.length = 203 := by decide +kernel
  rw [hdedup, hlength] at hfair
  -- Employee 3 has 5 of at most 11 undesirable shifts, where the average is below 1.
  have hcount : 5 ≤ count a 3 := by
    show (5 : ℤ) ≤ 5 + (_ : ℕ)
    omega
  have hpairs : decisionPairs unbalanced.withoutSites =
      [(1, 11), (2, 11), (3, 11), (1, 12), (2, 12), (3, 12)] := by decide +kernel
  have hgated : ∀ p, a p = true → p ∈ decisionPairs unbalanced.withoutSites := ha.gated
  rw [hpairs] at hgated
  have htotal : (ids.map (count a)).sum ≤ (ids.map (count (.ofPairs
      [(1, 11), (2, 11), (3, 11), (1, 12), (2, 12), (3, 12)]))).sum :=
    sum_le_sum fun id _ => Plan.undesirableCount_mono
      (fun p hp => by simpa [Plan.ofPairs] using hgated p hp) _ _ _ id
  have heleven : (ids.map (count (.ofPairs
      [(1, 11), (2, 11), (3, 11), (1, 12), (2, 12), (3, 12)]))).sum = 11 := by
    decide +kernel
  omega

/-- The relaxation that is reported for site 5 alone has no schedule when it is approved. -/
theorem unbalanced_approval_fails : unbalanced.Representable ∧ unbalanced.relaxedCategories = ∅ ∧
    ¬ ApprovalReproduces unbalanced := by
  refine ⟨unbalanced_representable, rfl, fun hreproduces => ?_⟩
  have hjob : ReportsHours (decomposeSolvePersist shortHoursSolver unbalanced false) = true := by
    decide +kernel
  obtain ⟨report, snapshot, hjob, hfeasible⟩ := exists_report hjob
  obtain ⟨relaxedInput, happroved, hgroups⟩ :=
    hreproduces _ (returnsSolutions_solveAmong _) report snapshot hjob hfeasible
  obtain ⟨-, -, -, -, rfl⟩ := decomposeSolvePersist_infeasible hjob
  rw [approvedInput_serialize unbalanced_representable, Except.ok.injEq] at happroved
  subst happroved
  exact unbalanced_not_schedulable _ (forall_decompose_withoutSites.1 hgroups)

end Workforce.Scheduling
