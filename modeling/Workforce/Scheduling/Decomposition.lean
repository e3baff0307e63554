import Mathlib.Data.List.Sort
import Workforce.Foundations.UnionFind
import Workforce.Scheduling.Soundness

/-!
# Splitting a large problem by site

`app/solver/decomposition.py`. A problem with many employees is split by the sites of its shifts.
Sites that need a skill which one of them cannot cover with its own employees are kept together, by
union-find over the sites; each group gets the shifts of its sites, the employees at home there, and
the locks on its shifts.

* `mem_siteGroup_iff`: the groups are the classes of `Coupled`, the equivalence generated by sharing
  a skill in short supply.
* `decompose_cases`: what `decompose` returns, by whether the problem is split at all.
* `lockedAssignments_valid_iff`: when the locks of every group pass the check of `solve`.
-/

namespace Workforce.Scheduling

open LinearModel List

/-! ## The source -/

/-- `DECOMPOSITION_EMPLOYEE_THRESHOLD`. -/
def decompositionEmployeeThreshold : ℕ := 200

structure DecompositionGroup where
  groupId : String
  orgUnitIds : Finset UUID
  solveInput : SolveInput

/-- `site_ids`: the sites of the shifts. -/
def siteIds (si : SolveInput) : List UUID := (si.shifts.filterMap (·.orgUnitId)).dedup

/-- `_single_group`. -/
def singleGroup (si : SolveInput) : DecompositionGroup where
  groupId := "single"
  orgUnitIds := (siteIds si).toFinset
  solveInput := si

/-- `skill_sites[skill_id]`: the sites with a shift that requires the skill. -/
def skillSites (si : SolveInput) (skillId : UUID) : List UUID :=
  ((si.shifts.filter (·.requiredSkillId = some skillId)).filterMap (·.orgUnitId)).dedup

/-- `required`: the headcount a site needs of a skill. -/
def requiredAt (si : SolveInput) (skillId site : UUID) : ℤ :=
  ((si.shifts.filter fun shift => shift.orgUnitId = some site ∧
    shift.requiredSkillId = some skillId).map (·.requiredHeadcount)).sum

/-- `qualified`: the employees at home at a site who have the skill when the range starts. -/
def qualifiedAt (si : SolveInput) (skillId site : UUID) : ℤ :=
  (si.employees.filter (·.orgUnitId = some site)).countP fun employee =>
    employee.hasSkill (some skillId) si.dateRangeStart

/-- `sorted(sites, key=str)`: the texts of ids are ordered as the ids are. -/
def sortSites (sites : List UUID) : List UUID := sites.insertionSort (· ≤ ·)

/-- The pairs of sites that a skill joins: all its sites, when one of them is short of it. -/
def couplingPairs (si : SolveInput) (skillId : UUID) : List (UUID × UUID) :=
  let sites := skillSites si skillId
  if sites.length < 2 then []
  else if sites.any fun site => qualifiedAt si skillId site < requiredAt si skillId site then
    (sortSites sites).zip (sortSites sites).tail
  else []

/-- The pairs of sites that are joined, for all skills. -/
def allCouplingPairs (si : SolveInput) : List (UUID × UUID) :=
  (si.shifts.filterMap (·.requiredSkillId)).dedup.flatMap (couplingPairs si)

/-- `_merge_coupled_sites`: the values of the dictionary it returns. -/
def mergeCoupledSites (si : SolveInput) : List (List UUID) :=
  let sites := siteIds si
  let parent := UnionFind.unions sites.length id (allCouplingPairs si)
  let found := UnionFind.roots sites.length parent sites
  (found.map (·.1)).dedup.map fun root => (found.filter (·.1 = root)).map (·.2)

/-- The problem of a group: `solve_input` with the employees, shifts, history and locks of it. -/
def groupInput (si : SolveInput) (memberSites : List UUID) : SolveInput :=
  let employees := si.employees.filter fun employee => employee.orgUnitId.any (· ∈ memberSites)
  let shifts := si.shifts.filter fun shift => shift.orgUnitId.any (· ∈ memberSites)
  { si with
    employees
    shifts
    fairnessHistoryCounts := si.fairnessHistoryCounts.filter fun entry =>
      entry.1 ∈ employees.map (·.id)
    lockedAssignments := si.lockedAssignments.filter fun locked =>
      locked.shiftId ∈ shifts.map (·.id) }

/-- The groups of sites in the order in which they are numbered. -/
def siteGroups (si : SolveInput) : List (List UUID) :=
  (mergeCoupledSites si).insertionSort fun a b => sortSites a ≤ sortSites b

/-- `_materialize_groups`. -/
def materializeGroups (si : SolveInput) : List DecompositionGroup :=
  (siteGroups si).zipIdx.map fun (memberSites, index) =>
    { groupId := s!"group-{index}"
      orgUnitIds := memberSites.toFinset
      solveInput := groupInput si memberSites }

/-- The problem is split: it is large, and its shifts name two sites or more and all name one. -/
def Splits (si : SolveInput) : Prop :=
  decompositionEmployeeThreshold < si.employees.length ∧
    (∀ s ∈ si.shifts, s.orgUnitId ≠ none) ∧ 2 ≤ (siteIds si).length

/-- `decompose`. -/
def decompose (si : SolveInput) : List DecompositionGroup :=
  if si.employees.length ≤ decompositionEmployeeThreshold then [singleGroup si]
  else if si.shifts = [] ∨ si.shifts.any (·.orgUnitId.isNone) then [singleGroup si]
  else if (siteIds si).length < 2 then [singleGroup si]
  else materializeGroups si

theorem decompose_cases (si : SolveInput) :
    ¬ Splits si ∧ decompose si = [singleGroup si] ∨
      Splits si ∧ decompose si = materializeGroups si := by
  unfold decompose Splits
  by_cases hsize : si.employees.length ≤ decompositionEmployeeThreshold
  · exact .inl ⟨fun h => absurd h.1 (by omega), by simp [hsize]⟩
  by_cases hsites : si.shifts = [] ∨ si.shifts.any (·.orgUnitId.isNone)
  · refine .inl ⟨fun h => ?_, by rw [if_neg hsize, if_pos hsites]⟩
    rcases hsites with hnil | hnone
    · simp [siteIds, hnil] at h
    · obtain ⟨s, hs, hsome⟩ := any_eq_true.1 hnone
      exact h.2.1 s hs (by simpa using hsome)
  by_cases htwo : (siteIds si).length < 2
  · exact .inl ⟨fun h => absurd h.2.2 (by omega), by rw [if_neg hsize, if_neg hsites, if_pos htwo]⟩
  refine .inr ⟨⟨by omega, fun s hs hnone => hsites (.inr ?_), by omega⟩, ?_⟩
  · exact any_eq_true.2 ⟨s, hs, by simp [hnone]⟩
  · rw [if_neg hsize, if_neg hsites, if_neg htwo]

/-! ## The groups of sites -/

section Groups

variable {si : SolveInput}

theorem mem_siteIds {site : UUID} :
    site ∈ siteIds si ↔ ∃ s ∈ si.shifts, s.orgUnitId = some site := by
  simp [siteIds]

theorem mem_skillSites {skillId site : UUID} : site ∈ skillSites si skillId ↔
    ∃ s ∈ si.shifts, s.requiredSkillId = some skillId ∧ s.orgUnitId = some site := by
  simp [skillSites, and_assoc]

/-- Both sites need a skill that a site needing it cannot cover with its own employees. -/
def SharesShortSkill (si : SolveInput) (a b : UUID) : Prop :=
  ∃ skillId, a ∈ skillSites si skillId ∧ b ∈ skillSites si skillId ∧
    ∃ site ∈ skillSites si skillId, qualifiedAt si skillId site < requiredAt si skillId site

/-- The sites have to stay together, directly or by way of others. -/
def Coupled (si : SolveInput) : UUID → UUID → Prop := Relation.EqvGen (SharesShortSkill si)

theorem eqvGen_head {α : Type*} {x : α} {l : List α} {a : α} (ha : a ∈ x :: l) :
    Relation.EqvGen (fun p q => (p, q) ∈ (x :: l).zip l) x a := by
  induction l generalizing x with
  | nil =>
    rw [mem_singleton.1 ha]
    exact .refl _
  | cons y l ih =>
    rcases mem_cons.1 ha with rfl | ha
    · exact .refl _
    · refine .trans _ y _ (.rel _ _ ?_) ((ih ha).mono fun _ _ h => ?_)
      · exact mem_cons_self
      · exact mem_cons_of_mem _ h

theorem eqvGen_zip_tail {α : Type*} {l : List α} {a b : α} (ha : a ∈ l) (hb : b ∈ l) :
    Relation.EqvGen (fun p q => (p, q) ∈ l.zip l.tail) a b := by
  cases l with
  | nil => cases ha
  | cons x l => exact .trans _ x _ (.symm _ _ (eqvGen_head ha)) (eqvGen_head hb)

theorem mem_sortSites {sites : List UUID} {site : UUID} :
    site ∈ sortSites sites ↔ site ∈ sites :=
  (perm_insertionSort _ _).mem_iff

theorem couplingPairs_mem {skillId a b : UUID} (h : (a, b) ∈ couplingPairs si skillId) :
    a ∈ skillSites si skillId ∧ b ∈ skillSites si skillId ∧
      ∃ site ∈ skillSites si skillId, qualifiedAt si skillId site < requiredAt si skillId site := by
  simp only [couplingPairs] at h
  split_ifs at h with _ hshort
  · cases h
  · obtain ⟨ha, hb⟩ := of_mem_zip h
    refine ⟨mem_sortSites.1 ha, mem_sortSites.1 (mem_of_mem_tail hb), ?_⟩
    simpa using hshort
  · cases h

theorem eqvGen_couplingPairs_of_short {skillId a b : UUID} (ha : a ∈ skillSites si skillId)
    (hb : b ∈ skillSites si skillId)
    (hshort : ∃ site ∈ skillSites si skillId,
      qualifiedAt si skillId site < requiredAt si skillId site) :
    Relation.EqvGen (fun a b => (a, b) ∈ couplingPairs si skillId) a b := by
  by_cases htwo : (skillSites si skillId).length < 2
  · obtain ⟨c, hc⟩ : ∃ c, skillSites si skillId = [c] := by
      have hpos := length_pos_of_mem ha
      exact length_eq_one_iff.1 (by omega)
    rw [hc, mem_singleton] at ha hb
    rw [ha, hb]
    exact .refl _
  · have hpairs : couplingPairs si skillId =
        (sortSites (skillSites si skillId)).zip (sortSites (skillSites si skillId)).tail := by
      unfold couplingPairs
      rw [if_neg htwo, if_pos (by simpa using hshort)]
    rw [hpairs]
    exact eqvGen_zip_tail (mem_sortSites.2 ha) (mem_sortSites.2 hb)

theorem eqvGen_allCouplingPairs (a b : UUID) :
    Relation.EqvGen (fun a b => (a, b) ∈ allCouplingPairs si) a b ↔ Coupled si a b := by
  constructor
  · intro h
    refine h.mono fun x y hxy => ?_
    obtain ⟨skillId, -, hpair⟩ := mem_flatMap.1 hxy
    exact ⟨skillId, couplingPairs_mem hpair⟩
  · intro h
    induction h with
    | rel x y hxy =>
      obtain ⟨skillId, hx, hy, hshort⟩ := hxy
      refine (eqvGen_couplingPairs_of_short hx hy hshort).mono fun x y hpair => ?_
      obtain ⟨s, hs, hskill, -⟩ := mem_skillSites.1 hx
      exact mem_flatMap.2 ⟨skillId, by simpa using ⟨s, hs, hskill⟩, hpair⟩
    | refl x => exact .refl _
    | symm x y _ ih => exact .symm _ _ ih
    | trans x y z _ _ ih ih' => exact .trans _ _ _ ih ih'

theorem allCouplingPairs_mem {p : UUID × UUID} (hp : p ∈ allCouplingPairs si) :
    p.1 ∈ (siteIds si).toFinset ∧ p.2 ∈ (siteIds si).toFinset := by
  obtain ⟨skillId, -, hpair⟩ := mem_flatMap.1 hp
  obtain ⟨ha, hb, -⟩ := couplingPairs_mem hpair
  obtain ⟨s, hs, -, hsite⟩ := mem_skillSites.1 ha
  obtain ⟨s', hs', -, hsite'⟩ := mem_skillSites.1 hb
  exact ⟨mem_toFinset.2 (mem_siteIds.2 ⟨s, hs, hsite⟩),
    mem_toFinset.2 (mem_siteIds.2 ⟨s', hs', hsite'⟩)⟩

/-- What union-find computes: the sites of each class of the coupling, in no particular order. -/
theorem exists_mergeCoupledSites (si : SolveInput) : ∃ rep : UUID → UUID,
    mergeCoupledSites si = ((siteIds si).map rep).dedup.map (fun root =>
      (siteIds si).filter fun site => rep site = root) ∧
    ∀ a b, rep a = rep b ↔ Coupled si a b := by
  have hcard : (siteIds si).length = (siteIds si).toFinset.card := by
    rw [toFinset_card_of_nodup]
    exact nodup_dedup _
  obtain ⟨rep, rank, hforest, hiff⟩ :=
    UnionFind.exists_forest_unions fun p hp => allCouplingPairs_mem hp
  refine ⟨rep, ?_, fun a b => (hiff a b).trans (eqvGen_allCouplingPairs a b)⟩
  rw [mergeCoupledSites, hcard]
  exact UnionFind.groups_eq hforest fun x hx => mem_toFinset.2 hx

theorem exists_perm_siteGroups (si : SolveInput) : ∃ rep : UUID → UUID,
    (siteGroups si).Perm (((siteIds si).map rep).dedup.map fun root =>
      (siteIds si).filter fun site => rep site = root) ∧
    ∀ a b, rep a = rep b ↔ Coupled si a b := by
  obtain ⟨rep, heq, hiff⟩ := exists_mergeCoupledSites si
  refine ⟨rep, ?_, hiff⟩
  rw [← heq]
  exact perm_insertionSort _ _

/-- The sites of a group are those coupled with any of them. -/
theorem mem_siteGroup_iff {G : List UUID} (hG : G ∈ siteGroups si) {a b : UUID} (ha : a ∈ G) :
    b ∈ G ↔ b ∈ siteIds si ∧ Coupled si a b := by
  obtain ⟨rep, hperm, hiff⟩ := exists_perm_siteGroups si
  obtain ⟨root, -, rfl⟩ := mem_map.1 (hperm.mem_iff.1 hG)
  have hroot : rep a = root := by simpa using (mem_filter.1 ha).2
  simp only [mem_filter, decide_eq_true_eq, ← hiff, hroot]
  exact and_congr_right fun _ => eq_comm

theorem mem_siteIds_of_mem_group {G : List UUID} (hG : G ∈ siteGroups si) {a : UUID} (ha : a ∈ G) :
    a ∈ siteIds si :=
  ((mem_siteGroup_iff hG ha).1 ha).1

theorem countP_siteGroups {a : UUID} (ha : a ∈ siteIds si) :
    (siteGroups si).countP (a ∈ ·) = 1 := by
  obtain ⟨rep, hperm, -⟩ := exists_perm_siteGroups si
  rw [hperm.countP_eq, countP_map]
  have hcongr : ((siteIds si).map rep).dedup.countP ((fun G => decide (a ∈ G)) ∘ fun root =>
      (siteIds si).filter fun site => rep site = root) =
      ((siteIds si).map rep).dedup.count (rep a) := by
    refine countP_congr fun root _ => ?_
    simp only [Function.comp_apply, decide_eq_true_eq, mem_filter, ha, true_and, beq_iff_eq]
    exact eq_comm
  rw [hcongr]
  exact count_eq_one_of_mem (nodup_dedup _) (mem_dedup.2 (mem_map_of_mem ha))

theorem exists_group {a : UUID} (ha : a ∈ siteIds si) : ∃ G ∈ siteGroups si, a ∈ G := by
  have hpos : 0 < (siteGroups si).countP (a ∈ ·) := by
    rw [countP_siteGroups ha]
    exact Nat.one_pos
  simpa using countP_pos_iff.1 hpos

end Groups

/-! ## The groups -/

theorem map_solveInput_materializeGroups (si : SolveInput) :
    (materializeGroups si).map (·.solveInput) = (siteGroups si).map (groupInput si) := by
  rw [materializeGroups, map_map]
  conv_rhs => rw [← zipIdx_map_fst 0 (siteGroups si), map_map]
  rfl

theorem decompose_inputs (si : SolveInput) :
    ¬ Splits si ∧ (decompose si).map (·.solveInput) = [si] ∨
      Splits si ∧ (decompose si).map (·.solveInput) = (siteGroups si).map (groupInput si) := by
  rcases decompose_cases si with ⟨hno, heq⟩ | ⟨hyes, heq⟩
  · exact .inl ⟨hno, by rw [heq]; rfl⟩
  · exact .inr ⟨hyes, by rw [heq, map_solveInput_materializeGroups]⟩

variable {si : SolveInput}

theorem forall_decompose {p : SolveInput → Prop} :
    (∀ g ∈ decompose si, p g.solveInput) ↔
      (¬ Splits si → p si) ∧ (Splits si → ∀ G ∈ siteGroups si, p (groupInput si G)) := by
  have hmap : (∀ g ∈ decompose si, p g.solveInput) ↔
      ∀ input ∈ (decompose si).map (·.solveInput), p input := by simp
  rw [hmap]
  rcases decompose_inputs si with ⟨hno, heq⟩ | ⟨hyes, heq⟩
  · simp [heq, hno]
  · simp [heq, hyes]

section Members

variable {si : SolveInput} {G : List UUID}

theorem mem_groupInput_employees {e : Employee} : e ∈ (groupInput si G).employees ↔
    e ∈ si.employees ∧ ∃ home ∈ G, e.orgUnitId = some home := by
  simp only [groupInput, mem_filter, Option.any_eq_true, decide_eq_true_eq]
  exact and_congr_right fun _ => exists_congr fun _ => and_comm

theorem mem_groupInput_shifts {s : ShiftSlot} : s ∈ (groupInput si G).shifts ↔
    s ∈ si.shifts ∧ ∃ site ∈ G, s.orgUnitId = some site := by
  simp only [groupInput, mem_filter, Option.any_eq_true, decide_eq_true_eq]
  exact and_congr_right fun _ => exists_congr fun _ => and_comm

theorem mem_groupInput_lockedAssignments {locked : LockedAssignment} :
    locked ∈ (groupInput si G).lockedAssignments ↔ locked ∈ si.lockedAssignments ∧
      ∃ s ∈ (groupInput si G).shifts, s.id = locked.shiftId := by
  simp [groupInput]

end Members

/-! ## Locks -/

theorem validateLockedAssignments_eq_ok :
    validateLockedAssignments si = .ok () ↔ ∀ locked ∈ si.lockedAssignments,
      (∃ e ∈ si.employees, e.id = locked.employeeId) ∧
        ∃ s ∈ si.shifts, s.id = locked.shiftId := by
  rw [validateLockedAssignments, forM_eq_ok]
  refine forall₂_congr fun locked _ => ?_
  by_cases h : locked.employeeId ∉ si.employees.map (·.id) ∨
      locked.shiftId ∉ si.shifts.map (·.id)
  · rw [if_pos h]
    simp only [mem_map] at h
    constructor
    · intro herr
      cases herr
    · rintro ⟨hemp, hshift⟩
      exact (h.elim (absurd hemp) (absurd hshift) : False).elim
  · rw [if_neg h]
    simp only [mem_map, not_or, not_not] at h
    exact ⟨fun _ => h, fun _ => rfl⟩

theorem Coupled.mem_iff {a b : UUID} (h : Coupled si a b) :
    a ∈ siteIds si ↔ b ∈ siteIds si := by
  induction h with
  | rel x y hxy =>
    obtain ⟨skillId, hx, hy, -⟩ := hxy
    obtain ⟨s, hs, -, hsite⟩ := mem_skillSites.1 hx
    obtain ⟨s', hs', -, hsite'⟩ := mem_skillSites.1 hy
    exact iff_of_true (mem_siteIds.2 ⟨s, hs, hsite⟩) (mem_siteIds.2 ⟨s', hs', hsite'⟩)
  | refl x => exact Iff.rfl
  | symm x y _ ih => exact ih.symm
  | trans x y z _ _ ih ih' => exact ih.trans ih'

/-- The employee of every lock is at home at the site of the shift, or at one coupled with it. -/
def LocksAtHome (si : SolveInput) : Prop :=
  ∀ locked ∈ si.lockedAssignments, ∀ s ∈ si.shifts, s.id = locked.shiftId →
    ∀ site, s.orgUnitId = some site → ∃ e ∈ si.employees, e.id = locked.employeeId ∧
      ∃ home, e.orgUnitId = some home ∧ Coupled si site home

/-- The groups keep their locks solvable exactly when the locked employees are at home. -/
theorem groups_locks_valid_iff :
    (∀ G ∈ siteGroups si, validateLockedAssignments (groupInput si G) = .ok ()) ↔
      LocksAtHome si := by
  constructor
  · intro h locked hlocked s hs hid site hsite
    have hmem : site ∈ siteIds si := mem_siteIds.2 ⟨s, hs, hsite⟩
    obtain ⟨G, hG, hin⟩ := exists_group hmem
    have hshift : s ∈ (groupInput si G).shifts := mem_groupInput_shifts.2 ⟨hs, site, hin, hsite⟩
    have hlock : locked ∈ (groupInput si G).lockedAssignments :=
      mem_groupInput_lockedAssignments.2 ⟨hlocked, s, hshift, hid⟩
    obtain ⟨⟨e, he, heid⟩, -⟩ := validateLockedAssignments_eq_ok.1 (h G hG) locked hlock
    obtain ⟨he, home, hhome, hunit⟩ := mem_groupInput_employees.1 he
    exact ⟨e, he, heid, home, hunit, ((mem_siteGroup_iff hG hin).1 hhome).2⟩
  · intro h G hG
    refine validateLockedAssignments_eq_ok.2 fun locked hlock => ?_
    obtain ⟨hlocked, s, hshift, hid⟩ := mem_groupInput_lockedAssignments.1 hlock
    obtain ⟨hs, site, hin, hsite⟩ := mem_groupInput_shifts.1 hshift
    obtain ⟨e, he, heid, home, hunit, hcoupled⟩ := h locked hlocked s hs hid site hsite
    have hhome : home ∈ siteIds si := hcoupled.mem_iff.1 (mem_siteIds.2 ⟨s, hs, hsite⟩)
    refine ⟨⟨e, mem_groupInput_employees.2 ⟨he, home, ?_, hunit⟩, heid⟩, s, hshift, hid⟩
    exact (mem_siteGroup_iff hG hin).2 ⟨hhome, hcoupled⟩

/-- **Splitting keeps locks solvable exactly when locked employees are at home.** For every input
whose locks name known employees and shifts, the locks of every group do so too exactly when the
problem is not split, or every lock is on a shift at the employee's home site or at a site coupled
with it. -/
theorem lockedAssignments_valid_iff {si : SolveInput} (h : validateLockedAssignments si = .ok ()) :
    (∀ g ∈ decompose si, validateLockedAssignments g.solveInput = .ok ()) ↔
      (Splits si → LocksAtHome si) := by
  have hsplit := @forall_decompose si fun input => validateLockedAssignments input = .ok ()
  rw [hsplit, groups_locks_valid_iff]
  exact and_iff_right fun _ => h

/-- 200 employees without skills or a site. -/
def crowd : List Employee :=
  (range 200).map fun i => ⟨BitVec.ofNat 128 (1000 + i), 40, false, [], ∅, none⟩

/-- Sites 5 and 6 with a day shift each that requires skill 9. Employees 1 and 2 have the skill and
are at home at site 5, employee 3 has it and is at home at site 6. -/
def twoSites : SolveInput where
  dateRangeStart := 20514
  dateRangeEnd := 20514
  employees := [⟨1, 40, false, [⟨9, none, 0⟩], ∅, some 5⟩,
    ⟨2, 40, false, [⟨9, none, 0⟩], ∅, some 5⟩, ⟨3, 40, false, [⟨9, none, 0⟩], ∅, some 6⟩] ++ crowd
  shifts := [⟨11, ⟨20514 * 86400000000 + 9 * 3600000000, 0⟩,
      ⟨20514 * 86400000000 + 13 * 3600000000, 0⟩, 1, some 9, 0, some 5⟩,
    ⟨12, ⟨20514 * 86400000000 + 9 * 3600000000, 0⟩,
      ⟨20514 * 86400000000 + 13 * 3600000000, 0⟩, 1, some 9, 0, some 6⟩]
  policy := ⟨6, 8, 60, none, none, none⟩
  leaveRecords := []
  timeLimitSeconds := 30
  fairness := none
  softWeights := ⟨1, 1, 1, 1⟩
  fairnessHistoryCounts := []
  relaxedCategories := ∅
  lockedAssignments := []

/-- Employee 3 locked to the shift at home. -/
theorem twoSites_home_lock_valid :
    validateLockedAssignments { twoSites with lockedAssignments := [⟨3, 12, .manualOverride⟩] } =
      .ok () ∧
    ∀ g ∈ decompose { twoSites with lockedAssignments := [⟨3, 12, .manualOverride⟩] },
      validateLockedAssignments g.solveInput = .ok () := by
  have hvalid : validateLockedAssignments { twoSites with
      lockedAssignments := [⟨3, 12, .manualOverride⟩] } = .ok () := by decide +kernel
  refine ⟨hvalid, (lockedAssignments_valid_iff hvalid).2 fun _ => ?_⟩
  intro locked hlocked s hs hid site hsite
  obtain rfl := mem_singleton.1 hlocked
  simp only [twoSites, mem_cons, not_mem_nil, or_false] at hs
  rcases hs with rfl | rfl
  · simp at hid
  · cases hsite
    exact ⟨_, mem_append_left _ (.tail _ (.tail _ (.head _))), rfl, 6, rfl, .refl _⟩

/-- Employee 2, of site 5, locked to the shift at site 6. -/
theorem twoSites_away_lock_invalid :
    validateLockedAssignments { twoSites with lockedAssignments := [⟨2, 12, .manualOverride⟩] } =
      .ok () ∧
    ¬ ∀ g ∈ decompose { twoSites with lockedAssignments := [⟨2, 12, .manualOverride⟩] },
      validateLockedAssignments g.solveInput = .ok () := by
  decide +kernel

end Workforce.Scheduling
