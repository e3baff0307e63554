import Workforce.Scheduling.Reoptimization

/-!
# What jobs complete with

A job solves its groups one by one and merges their schedules. Nothing checks the merged schedule
again, nor the one that an approved relaxation leads to: `jobs_complete_legal` says that both are
legal for the input that was submitted.
-/

namespace Workforce.Scheduling

open List

/-! ## The schedules of the groups -/

variable {si : SolveInput} {cpSolve : CpSolver} {isReproof : Bool} {result : SolveResult}
  {plan : List GroupPlan}

/-- Who is assigned to what. -/
def SolveResult.pairs (result : SolveResult) : List (UUID × UUID) :=
  result.assignments.map fun a => (a.employeeId, a.shiftId)

/-- This is the schedule that a group is solved with. -/
def Solved (cpSolve : CpSolver) (g : DecompositionGroup) (r : SolveResult) : Prop :=
  solve cpSolve g.solveInput = .ok r ∧ (r.status = .optimal ∨ r.status = .feasible)

/-- A job that completes has solved each of its groups, and merged their schedules. -/
theorem exists_solved
    (h : decomposeSolvePersist cpSolve si isReproof = .ok (.completed result plan)) :
    ∃ solved : List (DecompositionGroup × SolveResult), solved.map Prod.fst = decompose si ∧
      (∀ x ∈ solved, Solved cpSolve x.1 x.2) ∧
      ∀ p, p ∈ result.pairs ↔ ∃ x ∈ solved, p ∈ x.2.pairs := by
  obtain ⟨results, hresults, hassign, hstatus⟩ := decomposeSolvePersist_completed h
  have hall := Tables.mapM_eq_ok_iff.1 hresults
  have hlength := hall.length_eq
  refine ⟨(decompose si).zip results, map_fst_zip hlength.le, fun x hx => ⟨?_, ?_⟩, fun p => ?_⟩
  · exact solve_of_solveGroup ((forall₂_iff_zip.1 hall).2 hx)
  · exact hstatus x.1 x.2 hx
  · have hmap : results = ((decompose si).zip results).map Prod.snd :=
      (map_snd_zip hlength.ge).symm
    rw [SolveResult.pairs, hassign]
    conv_lhs => rw [hmap]
    simp only [SolveResult.pairs, map_flatMap, mem_flatMap, mem_map, exists_exists_and_eq_and]

/-! ## From the groups to the job -/

/-- What the problem of a group takes over from the whole one. -/
structure PartOf (input si : SolveInput) : Prop where
  employees : input.employees.Sublist si.employees
  shifts : input.shifts.Sublist si.shifts
  locked : ∀ p ∈ input.lockedPairs, p ∈ si.lockedPairs
  leaveRecords : input.leaveRecords = si.leaveRecords
  policy : input.policy = si.policy

theorem partOf_of_mem {g : DecompositionGroup} (hg : g ∈ decompose si) :
    PartOf g.solveInput si := by
  rcases solveInput_of_mem hg with ⟨-, hinput⟩ | ⟨-, G, -, hinput⟩
  · rw [hinput]
    exact ⟨.refl _, .refl _, fun _ hp => hp, rfl, rfl⟩
  · rw [hinput]
    exact ⟨filter_sublist, filter_sublist,
      fun p hp => (mem_groupInput_lockedPairs.1 hp).1, rfl, rfl⟩

/-- Groups that have an employee in common have the same problem. -/
theorem solveInput_unique {g g' : DecompositionGroup} (hg : g ∈ decompose si)
    (hg' : g' ∈ decompose si) {e : Employee} (he : e ∈ g.solveInput.employees)
    (he' : e ∈ g'.solveInput.employees) : g.solveInput = g'.solveInput := by
  rcases solveInput_of_mem hg with ⟨hno, hinput⟩ | ⟨hsplit, G, hG, hinput⟩ <;>
    rcases solveInput_of_mem hg' with ⟨hno', hinput'⟩ | ⟨hsplit', G', hG', hinput'⟩
  · rw [hinput, hinput']
  · exact absurd hsplit' hno
  · exact absurd hsplit hno'
  · rw [hinput] at he
    rw [hinput'] at he'
    rw [hinput, hinput', group_unique_of_employee hG hG' he he']

section Legal

variable (hcp : ReturnsSolutions cpSolve) (hemp : (si.employees.map (·.id)).Nodup)
  (hshift : (si.shifts.map (·.id)).Nodup)

include hcp hemp hshift

/-- The schedule of a group is legal there, and has employees and shifts of the group only. -/
theorem Solved.legal {g : DecompositionGroup} {r : SolveResult} (h : Solved cpSolve g r)
    (hpart : PartOf g.solveInput si) : LegalSchedule g.solveInput r.pairs ∧
      ∀ e ∈ si.employees, ∀ s ∈ si.shifts, (e.id, s.id) ∈ r.pairs →
        e ∈ g.solveInput.employees ∧ s ∈ g.solveInput.shifts := by
  have hemp' := hemp.sublist (hpart.employees.map (·.id))
  have hshift' := hshift.sublist (hpart.shifts.map (·.id))
  refine ⟨solve_legal hcp hemp' hshift' h.1 h.2, fun e he s hs hp => ?_⟩
  obtain ⟨-, v, -, hassign⟩ := solve_eq_ok hcp h.1 h.2
  rw [SolveResult.pairs, hassign, map_assignments] at hp
  obtain ⟨s', hs', e', he', -, heq⟩ := mem_decisionPairs.1 (mem_assignedPairs.1 hp).1
  obtain ⟨hide, hids⟩ := Prod.mk.inj heq
  obtain rfl := inj_on_of_nodup_map hemp (hpart.employees.subset he') he hide
  obtain rfl := inj_on_of_nodup_map hshift (hpart.shifts.subset hs') hs hids
  exact ⟨he', hs'⟩

/-- The merged schedule of a job is legal for the whole problem. -/
theorem completed_legal
    (h : decomposeSolvePersist cpSolve si isReproof = .ok (.completed result plan)) :
    LegalSchedule si result.pairs := by
  obtain ⟨solved, hgroups, hsolved, hpairs⟩ := exists_solved h
  have hmem : ∀ x ∈ solved, x.1 ∈ decompose si := fun x hx => hgroups ▸ mem_map_of_mem hx
  have hlegal := fun x hx =>
    (hsolved x hx).legal hcp hemp hshift (partOf_of_mem (hmem x hx))
  -- the group that a shift is in
  have hshifts : ∀ s ∈ si.shifts, ∃ x ∈ solved, s ∈ x.1.solveInput.shifts := by
    intro s hs
    have hpos : 0 < (decompose si).countP (fun g => s ∈ g.solveInput.shifts) := by
      rw [countP_shift hs]
      exact Nat.one_pos
    obtain ⟨g, hg, hsg⟩ := countP_pos_iff.1 hpos
    rw [← hgroups] at hg
    obtain ⟨x, hx, rfl⟩ := mem_map.1 hg
    exact ⟨x, hx, of_decide_eq_true hsg⟩
  constructor
  · intro e he s hs hp
    obtain ⟨x, hx, hp⟩ := (hpairs _).1 hp
    obtain ⟨hleg, hin⟩ := hlegal x hx
    have hpart := partOf_of_mem (hmem x hx)
    obtain ⟨he, hs⟩ := hin e he s hs hp
    rw [← hpart.leaveRecords]
    exact (hleg.eligible e he s hs hp).imp_left (hpart.locked _)
  · intro e he s hs s' hs' hne hp hp' hover
    obtain ⟨x, hx, hp⟩ := (hpairs _).1 hp
    obtain ⟨x', hx', hp'⟩ := (hpairs _).1 hp'
    obtain ⟨hleg, hin⟩ := hlegal x hx
    obtain ⟨hex, hsx⟩ := hin e he s hs hp
    obtain ⟨hex', hsx'⟩ := (hlegal x' hx').2 e he s' hs' hp'
    -- both are in the group of the employee, which is solved once
    have hinput := solveInput_unique (hmem x hx) (hmem x' hx') hex hex'
    have hsame : x.2 = x'.2 := by
      have hr := (hsolved x hx).1
      rw [hinput, (hsolved x' hx').1] at hr
      exact (Except.ok.inj hr).symm
    rw [← hsame] at hp'
    rw [← hinput] at hsx'
    have hpart := partOf_of_mem (hmem x hx)
    exact (hleg.noOverlap e hex s hsx s' hsx' hne hp hp' hover).imp (hpart.locked _)
      (hpart.locked _)
  · intro s hs
    obtain ⟨x, hx, hsx⟩ := hshifts s hs
    refine ((hlegal x hx).1.staffed s hsx).trans (Int.ofNat_le.2 ?_)
    refine le_trans (countP_mono_left fun e _ ha => ?_)
      (partOf_of_mem (hmem x hx)).employees.countP_le
    have hp := of_decide_eq_true ha
    exact decide_eq_true ((hpairs _).2 ⟨x, hx, hp⟩)
  · intro s hs
    obtain ⟨x, hx, hsx⟩ := hshifts s hs
    rw [← (partOf_of_mem (hmem x hx)).policy]
    exact (hlegal x hx).1.breaks s hsx

end Legal

/-- Legality looks neither at the sites nor at what is relaxed. -/
theorem LegalSchedule.of_withoutSites {R : Finset RelaxationCategory}
    {assigned : List (UUID × UUID)} (hshift : (si.shifts.map (·.id)).Nodup)
    (h : LegalSchedule (SolveInput.withoutSites { si with relaxedCategories := R }) assigned) :
    LegalSchedule si assigned where
  eligible e he s hs :=
    h.eligible e.withoutSite (mem_map_of_mem he) s.withoutSite (mem_map_of_mem hs)
  noOverlap e he s hs s' hs' hne := by
    refine h.noOverlap e.withoutSite (mem_map_of_mem he) s.withoutSite
      (mem_map_of_mem hs) s'.withoutSite (mem_map_of_mem hs') fun heq => hne ?_
    have hid : s.withoutSite.id = s'.withoutSite.id := congrArg _ heq
    exact inj_on_of_nodup_map hshift hs hs' hid
  staffed s hs := by
    have hle := h.staffed s.withoutSite (mem_map_of_mem hs)
    rwa [SolveInput.withoutSites, countP_map] at hle
  breaks s hs := h.breaks s.withoutSite (mem_map_of_mem hs)

/-- **What a job completes with is legal.** Whether it was split, and whether the input is solved as
it was submitted or, with an approved relaxation, as its snapshot has it: when the solver answers
with solutions only, the merged schedule is legal for the input that was submitted. -/
theorem jobs_complete_legal (hcp : ReturnsSolutions cpSolve)
    (hemp : (si.employees.map (·.id)).Nodup) (hshift : (si.shifts.map (·.id)).Nodup) :
    (∀ isReproof result plan,
      decomposeSolvePersist cpSolve si isReproof = .ok (.completed result plan) →
        LegalSchedule si result.pairs) ∧
    (si.Representable → ∀ report result plan,
      executeRelaxationApproval cpSolve report (serialize si) = .ok (.completed result plan) →
        LegalSchedule si result.pairs) := by
  refine ⟨fun isReproof result plan h => completed_legal hcp hemp hshift h,
    fun hrep report result plan h => ?_⟩
  rw [executeRelaxationApproval, approvedInput_serialize hrep] at h
  refine .of_withoutSites hshift (completed_legal hcp ?_ ?_ h)
  · simpa [SolveInput.withoutSites, Function.comp_def, Employee.withoutSite] using hemp
  · simpa [SolveInput.withoutSites, Function.comp_def, ShiftSlot.withoutSite] using hshift

/-- The schedule that a job completes with. -/
def completedPairs : Except JobError JobOutcome → Option (List (UUID × UUID))
  | .ok (.completed result _) => some result.pairs
  | _ => none

theorem exists_completed {outcome : Except JobError JobOutcome} {pairs : List (UUID × UUID)}
    (h : completedPairs outcome = some pairs) :
    ∃ result plan, outcome = .ok (.completed result plan) ∧ result.pairs = pairs := by
  unfold completedPairs at h
  split at h
  · exact ⟨_, _, rfl, Option.some.inj h⟩
  · cases h

theorem relaxedInput_completes_legal : ∃ result plan,
    decomposeSolvePersist (solveAmong [relaxedSolution]) relaxedInput false =
      .ok (.completed result plan) ∧ result.pairs = [(1, 11), (2, 12)] ∧
      LegalSchedule relaxedInput result.pairs := by
  have hjob : completedPairs (decomposeSolvePersist (solveAmong [relaxedSolution]) relaxedInput
      false) = some [(1, 11), (2, 12)] := by decide +kernel
  obtain ⟨result, plan, h, hpairs⟩ := exists_completed hjob
  exact ⟨result, plan, h, hpairs, (jobs_complete_legal (returnsSolutions_solveAmong _) (by decide)
    (by decide)).1 false result plan h⟩

end Workforce.Scheduling
