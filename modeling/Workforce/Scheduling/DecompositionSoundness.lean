import Workforce.Scheduling.Decomposition
import Workforce.Scheduling.Plans

/-!
# What splitting a problem keeps

Plans of the groups against plans of the whole problem.

* `IsSplit.feasible_union`: feasible plans of the groups are, taken together, a feasible plan of the
  whole problem, when fairness asks for nothing.
* `Feasible.restrict`: a feasible plan in which everybody works at home gives one of every group.
* `decompose_sound` and `decompose_satisfiable`: what follows for the solutions of the models.
-/

namespace Workforce.Scheduling

open LinearModel List

/-! ## Plans on some of the shifts -/

section Filter

variable {a b : Plan} {shifts : List ShiftSlot} {p : ShiftSlot → Bool} {employeeId : UUID}

/-- A plan that works only some of the shifts works the same days on those alone. -/
theorem Plan.worksOn_filter (h : ∀ s ∈ shifts, a (employeeId, s.id) = true ↔
    p s = true ∧ b (employeeId, s.id) = true) (day : ℤ) :
    a.worksOn shifts employeeId day = b.worksOn (shifts.filter p) employeeId day := by
  rw [Bool.eq_iff_iff, Plan.worksOn, Plan.worksOn, any_eq_true, any_eq_true]
  refine exists_congr fun s => ?_
  simp only [mem_filter, Bool.and_eq_true, and_assoc]
  refine and_congr_right fun hs => ?_
  rw [h s hs]
  exact and_left_comm

/-- A plan that works only some of the shifts works the same minutes on those alone. -/
theorem Plan.minutes_filter (h : ∀ s ∈ shifts, a (employeeId, s.id) = true ↔
    p s = true ∧ b (employeeId, s.id) = true) (week : ℤ) :
    a.minutes shifts employeeId week = b.minutes (shifts.filter p) employeeId week := by
  have hfilter : (shifts.filter fun s => a (employeeId, s.id) && s.week = week) =
      (shifts.filter p).filter fun s => b (employeeId, s.id) && s.week = week := by
    rw [filter_filter]
    refine filter_congr fun s hs => ?_
    rw [Bool.eq_iff_iff]
    simp only [Bool.and_eq_true, h s hs]
    tauto
  rw [Plan.minutes, Plan.minutes, hfilter]

theorem Plan.worksOn_eq_false (h : ∀ s ∈ shifts, a (employeeId, s.id) = false) (day : ℤ) :
    a.worksOn shifts employeeId day = false := by
  rw [Plan.worksOn, any_eq_false]
  intro s hs
  simp [h s hs]

theorem Plan.minutes_eq_zero_of_forall (h : ∀ s ∈ shifts, a (employeeId, s.id) = false)
    (week : ℤ) : a.minutes shifts employeeId week = 0 := by
  have hnil : (shifts.filter fun s => a (employeeId, s.id) && s.week = week) = [] :=
    filter_eq_nil_iff.2 fun s hs => by simp [h s hs]
  rw [Plan.minutes, hnil]
  rfl

end Filter

@[simp] theorem Plan.worksOn_ofPairs_nil (shifts : List ShiftSlot) (employeeId : UUID) (day : ℤ) :
    (Plan.ofPairs []).worksOn shifts employeeId day = false :=
  Plan.worksOn_eq_false (fun _ _ => rfl) day

@[simp] theorem Plan.minutes_ofPairs_nil (shifts : List ShiftSlot) (employeeId : UUID) (week : ℤ) :
    (Plan.ofPairs []).minutes shifts employeeId week = 0 :=
  Plan.minutes_eq_zero_of_forall (fun _ _ => rfl) week

theorem roundHalfEven_nonneg {q : ℚ} (h : 0 ≤ q) : 0 ≤ roundHalfEven q := by
  have hfloor : 0 ≤ ⌊q⌋ := Int.floor_nonneg.2 h
  unfold roundHalfEven
  split_ifs <;> omega

theorem roundedMinutes_nonneg {s : ShiftSlot} (h : s.start.instant ≤ s.fin.instant) :
    0 ≤ s.roundedMinutes := by
  have hlength : (0 : ℚ) ≤ ((s.fin.instant - s.start.instant : ℤ) : ℚ) := by
    exact_mod_cast sub_nonneg.2 h
  refine roundHalfEven_nonneg (mul_nonneg (div_nonneg hlength ?_) (by norm_num))
  norm_num [microsPerHour]

/-- More of the shifts are more minutes, when no shift has a negative length. -/
theorem Plan.minutes_mono {a b : Plan} {shifts : List ShiftSlot} {employeeId : UUID}
    (hnonneg : ∀ s ∈ shifts, 0 ≤ s.roundedMinutes)
    (h : ∀ s ∈ shifts, a (employeeId, s.id) = true → b (employeeId, s.id) = true) (week : ℤ) :
    a.minutes shifts employeeId week ≤ b.minutes shifts employeeId week := by
  induction shifts with
  | nil => exact le_refl _
  | cons s shifts ih =>
    have ih := ih (fun s' hs' => hnonneg s' (mem_cons_of_mem _ hs'))
      (fun s' hs' => h s' (mem_cons_of_mem _ hs'))
    have hs := hnonneg s mem_cons_self
    have hab := h s mem_cons_self
    simp only [Plan.minutes, filter_cons] at ih ⊢
    by_cases ha : (a (employeeId, s.id) && s.week = week) = true
    · have hb : (b (employeeId, s.id) && s.week = week) = true := by
        simp only [Bool.and_eq_true] at ha ⊢
        exact ⟨hab ha.1, ha.2⟩
      rw [if_pos ha, if_pos hb, map_cons, map_cons, sum_cons, sum_cons]
      omega
    · rw [if_neg ha]
      split
      · rw [map_cons, sum_cons]
        omega
      · exact ih

/-- Overtime is within its bound of itself, when no shift has a negative length. -/
theorem Plan.withinOvertime {a : Plan} {x : List (UUID × UUID)} {employees : List Employee}
    {shifts : List ShiftSlot} {employeeId : UUID} (hgated : ∀ p, a p = true → p ∈ x)
    (hnonneg : ∀ s ∈ shifts, 0 ≤ s.roundedMinutes) :
    a.WithinOvertime x employees shifts employeeId := by
  intro week
  have hle := @Plan.minutes_mono a (.ofPairs x) shifts employeeId hnonneg
    (fun s _ ha => by simpa [Plan.ofPairs] using hgated _ ha) week
  exact le_max_of_le_left (by omega)

/-! ## The parts of a split problem -/

/-- Employees that share an id share their home site, and shifts that share an id their site. -/
structure SameSites (si : SolveInput) : Prop where
  employees : ∀ e ∈ si.employees, ∀ e' ∈ si.employees, e.id = e'.id → e.orgUnitId = e'.orgUnitId
  shifts : ∀ s ∈ si.shifts, ∀ s' ∈ si.shifts, s.id = s'.id → s.orgUnitId = s'.orgUnitId

theorem nodup_of_isChain {ids : List UUID} (h : ids.IsChain (· < ·)) : ids.Nodup :=
  (isChain_iff_pairwise.1 h).imp BitVec.ne_of_lt

variable {si : SolveInput}

theorem SameSites.of_isChain (hemployees : (si.employees.map (·.id)).IsChain (· < ·))
    (hshifts : (si.shifts.map (·.id)).IsChain (· < ·)) : SameSites si := by
  refine ⟨fun e he e' he' hid => ?_, fun s hs s' hs' hid => ?_⟩
  · rw [inj_on_of_nodup_map (nodup_of_isChain hemployees) he he' hid]
  · rw [inj_on_of_nodup_map (nodup_of_isChain hshifts) hs hs' hid]

/-- Every lock pairs an employee and a shift that land in the same group. -/
def LocksLand (si : SolveInput) : Prop :=
  ∀ locked ∈ si.lockedAssignments, ∃ g ∈ decompose si,
    (∃ e ∈ g.solveInput.employees, e.id = locked.employeeId) ∧
      ∃ s ∈ g.solveInput.shifts, s.id = locked.shiftId

/-- At most one element of a list meets a test that it counts at most once. -/
theorem eq_of_countP_le_one {α : Type*} {l : List α} {p : α → Bool} (h : l.countP p ≤ 1) {x y : α}
    (hx : x ∈ l) (hy : y ∈ l) (hpx : p x = true) (hpy : p y = true) : x = y := by
  rw [countP_eq_length_filter] at h
  have hx' := mem_filter.2 ⟨hx, hpx⟩
  have hy' := mem_filter.2 ⟨hy, hpy⟩
  match hl : l.filter p with
  | [] =>
    rw [hl] at hx'
    cases hx'
  | [z] =>
    rw [hl, mem_singleton] at hx' hy'
    rw [hx', hy']
  | _ :: _ :: _ =>
    rw [hl, length_cons, length_cons] at h
    omega

section Parts

variable {si : SolveInput} {G G' : List UUID}

theorem siteGroup_unique (hG : G ∈ siteGroups si) (hG' : G' ∈ siteGroups si) {site : UUID}
    (h : site ∈ G) (h' : site ∈ G') : G = G' :=
  eq_of_countP_le_one (countP_siteGroups (mem_siteIds_of_mem_group hG h)).le hG hG'
    (by simpa using h) (by simpa using h')

theorem SameSites.mem_employees (hsites : SameSites si) {e e' : Employee} (he : e ∈ si.employees)
    (he' : e' ∈ (groupInput si G).employees) (hid : e'.id = e.id) :
    e ∈ (groupInput si G).employees := by
  obtain ⟨he', home, hhome, hunit⟩ := mem_groupInput_employees.1 he'
  exact mem_groupInput_employees.2
    ⟨he, home, hhome, (hsites.employees e he e' he' hid.symm).trans hunit⟩

theorem SameSites.mem_shifts (hsites : SameSites si) {s s' : ShiftSlot} (hs : s ∈ si.shifts)
    (hs' : s' ∈ (groupInput si G).shifts) (hid : s'.id = s.id) :
    s ∈ (groupInput si G).shifts := by
  obtain ⟨hs', site, hsite, hunit⟩ := mem_groupInput_shifts.1 hs'
  exact mem_groupInput_shifts.2 ⟨hs, site, hsite, (hsites.shifts s hs s' hs' hid.symm).trans hunit⟩

theorem group_unique_of_employee (hG : G ∈ siteGroups si) (hG' : G' ∈ siteGroups si) {e : Employee}
    (h : e ∈ (groupInput si G).employees) (h' : e ∈ (groupInput si G').employees) : G = G' := by
  obtain ⟨-, home, hhome, hunit⟩ := mem_groupInput_employees.1 h
  obtain ⟨-, home', hhome', hunit'⟩ := mem_groupInput_employees.1 h'
  obtain rfl := Option.some.inj (hunit.symm.trans hunit')
  exact siteGroup_unique hG hG' hhome hhome'

theorem group_unique_of_shift (hG : G ∈ siteGroups si) (hG' : G' ∈ siteGroups si) {s : ShiftSlot}
    (h : s ∈ (groupInput si G).shifts) (h' : s ∈ (groupInput si G').shifts) : G = G' := by
  obtain ⟨-, site, hsite, hunit⟩ := mem_groupInput_shifts.1 h
  obtain ⟨-, site', hsite', hunit'⟩ := mem_groupInput_shifts.1 h'
  obtain rfl := Option.some.inj (hunit.symm.trans hunit')
  exact siteGroup_unique hG hG' hsite hsite'

theorem Splits.exists_group (hsplit : Splits si) {s : ShiftSlot} (hs : s ∈ si.shifts) :
    ∃ G ∈ siteGroups si, s ∈ (groupInput si G).shifts := by
  obtain ⟨site, hsite⟩ := Option.ne_none_iff_exists'.1 (hsplit.2.1 s hs)
  obtain ⟨G, hG, hmem⟩ := Scheduling.exists_group (mem_siteIds.2 ⟨s, hs, hsite⟩)
  exact ⟨G, hG, mem_groupInput_shifts.2 ⟨hs, site, hmem, hsite⟩⟩

/-- The problem of a group is the whole one, or that of a group of sites. -/
theorem solveInput_of_mem {g : DecompositionGroup} (hg : g ∈ decompose si) :
    ¬ Splits si ∧ g.solveInput = si ∨
      Splits si ∧ ∃ G ∈ siteGroups si, g.solveInput = groupInput si G := by
  have hmem : g.solveInput ∈ (decompose si).map (·.solveInput) := mem_map_of_mem hg
  rcases decompose_inputs si with ⟨hno, heq⟩ | ⟨hsplit, heq⟩
  · rw [heq, mem_singleton] at hmem
    exact .inl ⟨hno, hmem⟩
  · rw [heq, mem_map] at hmem
    obtain ⟨G, hG, hinput⟩ := hmem
    exact .inr ⟨hsplit, G, hG, hinput.symm⟩

variable {pair : UUID × UUID}

theorem mem_groupInput_lockedPairs :
    pair ∈ (groupInput si G).lockedPairs ↔
      pair ∈ si.lockedPairs ∧ ∃ s ∈ (groupInput si G).shifts, s.id = pair.2 := by
  simp only [SolveInput.lockedPairs, mem_map, mem_groupInput_lockedAssignments]
  constructor
  · rintro ⟨locked, ⟨hlocked, hshift⟩, rfl⟩
    exact ⟨⟨locked, hlocked, rfl⟩, hshift⟩
  · rintro ⟨⟨locked, hlocked, rfl⟩, hshift⟩
    exact ⟨locked, ⟨hlocked, hshift⟩, rfl⟩

theorem LocksLand.exists_group (hland : LocksLand si) (hsplit : Splits si)
    (hlocked : pair ∈ si.lockedPairs) : ∃ G ∈ siteGroups si,
      (∃ e ∈ (groupInput si G).employees, e.id = pair.1) ∧
        ∃ s ∈ (groupInput si G).shifts, s.id = pair.2 := by
  obtain ⟨locked, hmem, rfl⟩ := mem_map.1 hlocked
  obtain ⟨g, hg, hboth⟩ := hland locked hmem
  rcases solveInput_of_mem hg with ⟨hno, -⟩ | ⟨-, G, hG, hinput⟩
  · exact absurd hsplit hno
  · rw [hinput] at hboth
    exact ⟨G, hG, hboth⟩

theorem decisionPairs_group_subset (h : pair ∈ decisionPairs (groupInput si G)) :
    pair ∈ decisionPairs si := by
  obtain ⟨s, hs, e, he, hcond, rfl⟩ := mem_decisionPairs.1 h
  refine mem_decisionPairs.2 ⟨s, (mem_groupInput_shifts.1 hs).1, e,
    (mem_groupInput_employees.1 he).1, ?_, rfl⟩
  exact hcond.imp (fun hl => (mem_groupInput_lockedPairs.1 hl).1) id

theorem LocksLand.locked_iff (hland : LocksLand si) (hsplit : Splits si) (hsites : SameSites si)
    (hG : G ∈ siteGroups si) {e : Employee} (he : e ∈ (groupInput si G).employees) {s : ShiftSlot}
    (hs : s ∈ si.shifts) : (e.id, s.id) ∈ si.lockedPairs ↔
      s ∈ (groupInput si G).shifts ∧ (e.id, s.id) ∈ (groupInput si G).lockedPairs := by
  constructor
  · intro hlocked
    obtain ⟨G', hG', ⟨e', he', hide⟩, s', hs', hids⟩ := hland.exists_group hsplit hlocked
    have hmem := hsites.mem_employees (mem_groupInput_employees.1 he).1 he' hide
    obtain rfl := group_unique_of_employee hG hG' he hmem
    exact ⟨hsites.mem_shifts hs hs' hids, mem_groupInput_lockedPairs.2 ⟨hlocked, s', hs', hids⟩⟩
  · rintro ⟨-, hlocked⟩
    exact (mem_groupInput_lockedPairs.1 hlocked).1

/-- The locks of a group name employees and shifts of it. -/
theorem LocksLand.known (hland : LocksLand si) (hsplit : Splits si) (hsites : SameSites si)
    (hG : G ∈ siteGroups si) (hpair : pair ∈ (groupInput si G).lockedPairs) :
    pair ∈ decisionPairs (groupInput si G) := by
  obtain ⟨hlocked, s, hs, hids⟩ := mem_groupInput_lockedPairs.1 hpair
  obtain ⟨G', hG', ⟨e, he, hide⟩, s', hs', hids'⟩ := hland.exists_group hsplit hlocked
  have hmem := hsites.mem_shifts (mem_groupInput_shifts.1 hs).1 hs' (hids'.trans hids.symm)
  obtain rfl := group_unique_of_shift hG hG' hs hmem
  have heq : (e.id, s.id) = pair := Prod.ext hide hids
  exact mem_decisionPairs.2 ⟨s, hs, e, he, .inl (heq ▸ hpair), heq⟩

end Parts

/-! ## From the groups to the whole -/

/-- A plan for every group of sites, feasible there. -/
structure IsSplit (si : SolveInput) (l : List (List UUID × Plan)) : Prop where
  sites : l.map Prod.fst = siteGroups si
  feasible : ∀ q ∈ l, Feasible (groupInput si q.1) q.2

/-- The plans of the groups, taken together. -/
def unionPlan (l : List (List UUID × Plan)) : Plan := fun p => l.any fun q => q.2 p

theorem unionPlan_eq_true {l : List (List UUID × Plan)} {p : UUID × UUID} :
    unionPlan l p = true ↔ ∃ q ∈ l, q.2 p = true := by
  simp [unionPlan]

namespace IsSplit

variable {si : SolveInput} {l : List (List UUID × Plan)} {q : List UUID × Plan} {e : Employee}
  {s : ShiftSlot}

theorem mem_siteGroups (h : IsSplit si l) (hq : q ∈ l) : q.1 ∈ siteGroups si := by
  rw [← h.sites]
  exact mem_map_of_mem hq

theorem exists_part (h : IsSplit si l) {G : List UUID} (hG : G ∈ siteGroups si) :
    ∃ q ∈ l, q.1 = G := by
  rw [← h.sites] at hG
  exact mem_map.1 hG

theorem unique (h : IsSplit si l) {q' : List UUID × Plan} (hq : q ∈ l) (hq' : q' ∈ l)
    (he : e ∈ (groupInput si q.1).employees) (he' : e ∈ (groupInput si q'.1).employees) :
    q = q' := by
  obtain ⟨-, home, hhome, hunit⟩ := mem_groupInput_employees.1 he
  obtain ⟨-, home', hhome', hunit'⟩ := mem_groupInput_employees.1 he'
  obtain rfl := Option.some.inj (hunit.symm.trans hunit')
  have hcount := countP_siteGroups (mem_siteIds_of_mem_group (h.mem_siteGroups hq) hhome)
  rw [← h.sites, countP_map] at hcount
  exact eq_of_countP_le_one hcount.le hq hq' (by simpa using hhome) (by simpa using hhome')

theorem mem_of_assigned (h : IsSplit si l) (hsites : SameSites si) (hq : q ∈ l)
    (he : e ∈ si.employees) (hs : s ∈ si.shifts) (ha : q.2 (e.id, s.id) = true) :
    e ∈ (groupInput si q.1).employees ∧ s ∈ (groupInput si q.1).shifts := by
  obtain ⟨s', hs', e', he', -, heq⟩ := mem_decisionPairs.1 ((h.feasible q hq).gated _ ha)
  obtain ⟨hide, hids⟩ := Prod.mk.inj heq
  exact ⟨hsites.mem_employees he he' hide, hsites.mem_shifts hs hs' hids⟩

theorem unionPlan_iff (h : IsSplit si l) (hsites : SameSites si) (hq : q ∈ l)
    (he : e ∈ (groupInput si q.1).employees) (hs : s ∈ si.shifts) :
    unionPlan l (e.id, s.id) = true ↔
      s ∈ (groupInput si q.1).shifts ∧ q.2 (e.id, s.id) = true := by
  rw [unionPlan_eq_true]
  constructor
  · rintro ⟨q', hq', ha⟩
    obtain ⟨he', hs'⟩ := h.mem_of_assigned hsites hq' (mem_groupInput_employees.1 he).1 hs ha
    obtain rfl := h.unique hq hq' he he'
    exact ⟨hs', ha⟩
  · rintro ⟨-, ha⟩
    exact ⟨q, hq, ha⟩

theorem unionPlan_eq_false (h : IsSplit si l) (hsites : SameSites si) (he : e ∈ si.employees)
    (hno : ∀ q ∈ l, e ∉ (groupInput si q.1).employees) (hs : s ∈ si.shifts) :
    unionPlan l (e.id, s.id) = false := by
  rw [← Bool.not_eq_true, unionPlan_eq_true]
  rintro ⟨q, hq, ha⟩
  exact hno q hq (h.mem_of_assigned hsites hq he hs ha).1

theorem not_locked (h : IsSplit si l) (hsplit : Splits si) (hsites : SameSites si)
    (hland : LocksLand si) (he : e ∈ si.employees)
    (hno : ∀ q ∈ l, e ∉ (groupInput si q.1).employees) :
    (e.id, s.id) ∉ si.lockedPairs := by
  intro hlocked
  obtain ⟨G, hG, ⟨e', he', hide⟩, -⟩ := hland.exists_group hsplit hlocked
  obtain ⟨q, hq, rfl⟩ := h.exists_part hG
  exact hno q hq (hsites.mem_employees he he' hide)

theorem mem_shifts_iff {G : List UUID} (hs : s ∈ si.shifts) :
    s ∈ (groupInput si G).shifts ↔ (s.orgUnitId.any fun site => site ∈ G) = true := by
  rw [groupInput, mem_filter]
  exact and_iff_right hs

theorem worksOn_eq (h : IsSplit si l) (hsites : SameSites si) (hq : q ∈ l)
    (he : e ∈ (groupInput si q.1).employees) (day : ℤ) :
    (unionPlan l).worksOn si.shifts e.id day =
      q.2.worksOn (groupInput si q.1).shifts e.id day :=
  Plan.worksOn_filter (fun s hs => by
    rw [h.unionPlan_iff hsites hq he hs, mem_shifts_iff hs]) day

theorem minutes_eq (h : IsSplit si l) (hsites : SameSites si) (hq : q ∈ l)
    (he : e ∈ (groupInput si q.1).employees) (week : ℤ) :
    (unionPlan l).minutes si.shifts e.id week =
      q.2.minutes (groupInput si q.1).shifts e.id week :=
  Plan.minutes_filter (fun s hs => by
    rw [h.unionPlan_iff hsites hq he hs, mem_shifts_iff hs]) week

theorem staffed (h : IsSplit si l) (hsplit : Splits si) (hs : s ∈ si.shifts) :
    s.requiredHeadcount ≤ si.employees.countP fun e => unionPlan l (e.id, s.id) := by
  obtain ⟨G, hG, hmem⟩ := hsplit.exists_group hs
  obtain ⟨q, hq, rfl⟩ := h.exists_part hG
  have hle := (h.feasible q hq).staffed s hmem
  have hcount : (groupInput si q.1).employees.countP (fun e => q.2 (e.id, s.id)) ≤
      si.employees.countP fun e => unionPlan l (e.id, s.id) := by
    refine le_trans (countP_mono_left fun e _ ha => ?_) filter_sublist.countP_le
    exact unionPlan_eq_true.2 ⟨q, hq, ha⟩
  omega

theorem conflictFree (h : IsSplit si l) (hsites : SameSites si) (he : e ∈ si.employees) :
    (unionPlan l).ConflictFree si.shifts (requiredRest si.policy si.relaxedCategories)
      si.lockedPairs e.id := by
  rintro ⟨s, s'⟩ hp ha ha' hconf
  obtain ⟨hs, hs'⟩ := mem_of_mem_orderedPairs hp
  by_cases hno : ∀ q ∈ l, e ∉ (groupInput si q.1).employees
  · rw [h.unionPlan_eq_false hsites he hno hs] at ha
    cases ha
  · push Not at hno
    obtain ⟨q, hq, hmem⟩ := hno
    obtain ⟨hin, ha⟩ := (h.unionPlan_iff hsites hq hmem hs).1 ha
    obtain ⟨hin', ha'⟩ := (h.unionPlan_iff hsites hq hmem hs').1 ha'
    have hpair : (s, s') ∈ orderedPairs (groupInput si q.1).shifts :=
      mem_orderedPairs_filter.2 ⟨hp, (mem_shifts_iff hs).1 hin, (mem_shifts_iff hs').1 hin'⟩
    obtain ⟨hl, hl'⟩ := (h.feasible q hq).conflictFree e hmem (s, s') hpair ha ha' hconf
    exact ⟨(mem_groupInput_lockedPairs.1 hl).1, (mem_groupInput_lockedPairs.1 hl').1⟩

section Locks

variable (h : IsSplit si l) (hsplit : Splits si) (hsites : SameSites si) (hland : LocksLand si)

include h hsites hland hsplit

theorem locked_iff_bool (hq : q ∈ l) (he : e ∈ (groupInput si q.1).employees) (hs : s ∈ si.shifts) :
    Plan.ofPairs si.lockedPairs (e.id, s.id) = true ↔
      (s.orgUnitId.any fun site => site ∈ q.1) = true ∧
        Plan.ofPairs (groupInput si q.1).lockedPairs (e.id, s.id) = true := by
  simp only [Plan.ofPairs, decide_eq_true_eq]
  rw [hland.locked_iff hsplit hsites (h.mem_siteGroups hq) he hs, mem_shifts_iff hs]

theorem withinDays (hrelaxed : .maxConsecutiveWorkingDays ∉ si.relaxedCategories)
    (he : e ∈ si.employees) : (unionPlan l).WithinDays si.shifts
      (dateRange si.dateRangeStart si.dateRangeEnd) si.policy.maxConsecutiveWorkingDays
      si.lockedPairs e.id := by
  intro window hw
  by_cases hno : ∀ q ∈ l, e ∉ (groupInput si q.1).employees
  · have hzero : window.countP ((unionPlan l).worksOn si.shifts e.id) = 0 :=
      countP_eq_zero.2 fun day _ => by
        rw [Plan.worksOn_eq_false fun s hs => h.unionPlan_eq_false hsites he hno hs]
        exact Bool.false_ne_true
    rw [hzero]
    exact le_max_of_le_right (by omega)
  · push Not at hno
    obtain ⟨q, hq, hmem⟩ := hno
    have hle := (h.feasible q hq).withinDays hrelaxed e hmem window hw
    have hdays := funext (h.worksOn_eq hsites hq hmem)
    have hlocked := funext (Plan.worksOn_filter
      fun s hs => h.locked_iff_bool hsplit hsites hland hq hmem hs)
    rw [hdays, hlocked]
    exact hle

theorem withinHours (he : e ∈ si.employees)
    (hcap : ¬ (e.overtimeApproved = true ∨ .contractedHours ∈ si.relaxedCategories)) :
    (unionPlan l).WithinHours si.shifts si.lockedPairs e := by
  intro week
  by_cases hno : ∀ q ∈ l, e ∉ (groupInput si q.1).employees
  · rw [Plan.minutes_eq_zero_of_forall fun s hs => h.unionPlan_eq_false hsites he hno hs,
      Plan.minutes_eq_zero_of_forall fun s _ => by
        simpa [Plan.ofPairs] using h.not_locked hsplit hsites hland he hno]
    exact le_max_right _ _
  · push Not at hno
    obtain ⟨q, hq, hmem⟩ := hno
    have hle := (h.feasible q hq).withinHours e hmem hcap week
    rw [h.minutes_eq hsites hq hmem, Plan.minutes_filter
      (fun s hs => h.locked_iff_bool hsplit hsites hland hq hmem hs) week]
    exact hle

/-- **Feasible plans of the groups make a feasible plan of the whole problem.** -/
theorem feasible_union (hnonneg : ∀ s ∈ si.shifts, 0 ≤ s.roundedMinutes)
    (hfair : NoUndesirable si) : Feasible si (unionPlan l) := by
  have hgated : ∀ p, unionPlan l p = true → p ∈ decisionPairs si := by
    intro p hp
    obtain ⟨q, hq, ha⟩ := unionPlan_eq_true.1 hp
    exact decisionPairs_group_subset ((h.feasible q hq).gated p ha)
  exact
    { gated := hgated
      locked := by
        intro p hp
        obtain ⟨G, hG, -, hshift⟩ := hland.exists_group hsplit hp
        obtain ⟨q, hq, rfl⟩ := h.exists_part hG
        exact unionPlan_eq_true.2 ⟨q, hq, (h.feasible q hq).locked p
          (mem_groupInput_lockedPairs.2 ⟨hp, hshift⟩)⟩
      staffed := fun _ hs => h.staffed hsplit hs
      conflictFree := fun _ he => h.conflictFree hsites he
      withinDays := fun hrelaxed _ he => h.withinDays hsplit hsites hland hrelaxed he
      withinHours := fun _ he hcap => h.withinHours hsplit hsites hland he hcap
      fair := fun fairness hf => .inl (hfair fairness hf)
      withinOvertime := fun _ _ _ _ => Plan.withinOvertime hgated hnonneg }

end Locks

end IsSplit

/-! ## Solutions of the groups -/

section Counts

variable {si : SolveInput}

theorem countP_decompose (p : SolveInput → Bool) :
    (decompose si).countP (fun g => p g.solveInput) =
      ((decompose si).map (·.solveInput)).countP p := by
  rw [countP_map]
  rfl

theorem countP_shift {s : ShiftSlot} (hs : s ∈ si.shifts) :
    (decompose si).countP (fun g => s ∈ g.solveInput.shifts) = 1 := by
  rw [countP_decompose fun input => s ∈ input.shifts]
  rcases decompose_inputs si with ⟨-, heq⟩ | ⟨hsplit, heq⟩
  · rw [heq, countP_singleton, if_pos (by simpa using hs)]
  · obtain ⟨site, hsite⟩ := Option.ne_none_iff_exists'.1 (hsplit.2.1 s hs)
    rw [heq, countP_map, ← countP_siteGroups (mem_siteIds.2 ⟨s, hs, hsite⟩)]
    refine countP_congr fun G _ => ?_
    simp [mem_groupInput_shifts, hs, hsite]

theorem countP_employee {e : Employee} (he : e ∈ si.employees) :
    (decompose si).countP (fun g => e ∈ g.solveInput.employees) ≤ 1 := by
  rw [countP_decompose fun input => e ∈ input.employees]
  rcases decompose_inputs si with ⟨-, heq⟩ | ⟨hsplit, heq⟩
  · rw [heq, countP_singleton, if_pos (by simpa using he)]
  · rw [heq, countP_map]
    by_cases hhome : ∃ home ∈ siteIds si, e.orgUnitId = some home
    · obtain ⟨home, hmem, hunit⟩ := hhome
      rw [← countP_siteGroups hmem]
      refine (countP_congr fun G _ => ?_).le
      simp [mem_groupInput_employees, he, hunit]
    · have hzero : (siteGroups si).countP ((fun input : SolveInput =>
          decide (e ∈ input.employees)) ∘ groupInput si) = 0 := by
        refine countP_eq_zero.2 fun G hG hmem => hhome ?_
        obtain ⟨-, home, hin, hunit⟩ := mem_groupInput_employees.1 (of_decide_eq_true hmem)
        exact ⟨home, mem_siteIds_of_mem_group hG hin, hunit⟩
      omega

theorem validate_of_groups (hland : LocksLand si)
    (h : ∀ g ∈ decompose si, validate g.solveInput = .ok ()) : validate si = .ok () := by
  refine validate_eq_ok.2
    ⟨fun s hs => ?_, validateLockedAssignments_eq_ok.2 fun locked hlocked => ?_⟩
  · have hpos : 0 < (decompose si).countP (fun g => s ∈ g.solveInput.shifts) := by
      rw [countP_shift hs]
      exact Nat.one_pos
    obtain ⟨g, hg, hmem⟩ := countP_pos_iff.1 hpos
    have hvalid := (validate_eq_ok.1 (h g hg)).1 s (by simpa using hmem)
    rcases solveInput_of_mem hg with ⟨-, hinput⟩ | ⟨-, G, -, hinput⟩
    · rwa [hinput] at hvalid
    · rwa [hinput] at hvalid
  · obtain ⟨g, hg, ⟨e, he, hide⟩, s, hs, hids⟩ := hland locked hlocked
    rcases solveInput_of_mem hg with ⟨-, hinput⟩ | ⟨-, G, -, hinput⟩
    · rw [hinput] at he hs
      exact ⟨⟨e, he, hide⟩, s, hs, hids⟩
    · rw [hinput] at he hs
      exact ⟨⟨e, (mem_groupInput_employees.1 he).1, hide⟩, s, (mem_groupInput_shifts.1 hs).1, hids⟩

end Counts

/-- The solutions of the groups, however they are chosen, together are one of the whole problem. -/
def MergesSolutions (si : SolveInput) : Prop :=
  ∀ v : DecompositionGroup → SolverVar → ℤ,
    (∀ g ∈ decompose si, Solves (v g) (emittedModel g.solveInput)) →
      ∃ w, Solves w (emittedModel si) ∧ ∀ p, p ∈ assignedPairs si w ↔
        ∃ g ∈ decompose si, p ∈ assignedPairs g.solveInput (v g)

theorem LocksLand.known_group (hland : LocksLand si) (hsites : SameSites si)
    {g : DecompositionGroup} (hg : g ∈ decompose si) :
    ∀ p ∈ g.solveInput.lockedPairs, p ∈ decisionPairs g.solveInput := by
  intro p hp
  rcases solveInput_of_mem hg with ⟨hno, hinput⟩ | ⟨hsplit, G, hG, hinput⟩
  · rw [hinput] at hp ⊢
    obtain ⟨locked, hlocked, rfl⟩ := mem_map.1 hp
    obtain ⟨g', hg', ⟨e, he, hide⟩, s, hs, hids⟩ := hland locked hlocked
    rcases solveInput_of_mem hg' with ⟨-, hinput'⟩ | ⟨hsplit, -⟩
    · rw [hinput'] at he hs
      rw [← hide, ← hids] at hp ⊢
      exact locked_mem_decisionPairs he hs hp
    · exact absurd hsplit hno
  · rw [hinput] at hp ⊢
    exact hland.known hsplit hsites hG hp

theorem merges_of_splits (hsplit : Splits si) (hsites : SameSites si) (hland : LocksLand si)
    (hnonneg : ∀ s ∈ si.shifts, 0 ≤ s.roundedMinutes) (hfair : NoUndesirable si) :
    MergesSolutions si := by
  intro v hv
  have hgroups : decompose si = materializeGroups si :=
    (decompose_cases si).elim (fun h => absurd hsplit h.1) And.right
  -- The groups with their plans, in the order of the groups.
  let group : List UUID × ℕ → DecompositionGroup := fun q =>
    ⟨s!"group-{q.2}", q.1.toFinset, groupInput si q.1⟩
  let l := (siteGroups si).zipIdx.map fun q => (q.1, planOf (groupInput si q.1) (v (group q)))
  have hl : IsSplit si l := by
    refine ⟨?_, fun q hq => ?_⟩
    · rw [map_map]
      exact zipIdx_map_fst 0 _
    · obtain ⟨q', hq', rfl⟩ := mem_map.1 hq
      have hg : group q' ∈ decompose si := by
        rw [hgroups]
        exact mem_map_of_mem hq'
      have hsol := hv _ hg
      exact (realizes_planOf (solves_emittedModel_iff.1 hsol).1).feasible
        (hland.known_group hsites hg) hsol
  have hfeasible := hl.feasible_union hsplit hsites hland hnonneg hfair
  obtain ⟨w, hw, hiff⟩ := (feasible_iff fun p hp => hfeasible.gated p (hfeasible.locked p hp)).1
    hfeasible
  refine ⟨w, hw, fun p => ?_⟩
  rw [← hiff, unionPlan_eq_true, hgroups, materializeGroups]
  simp only [l, mem_map, exists_exists_and_eq_and, planOf_eq_true]
  rfl

/-- **Splitting a problem is sound.** For every input without fairness whose locks land in groups,
whose equal ids are at equal sites and whose shifts do not end before they start: every shift is in
one group, every employee in one at most, shifts that pass the checks of their groups pass those of
the whole, and solutions of the groups together solve the whole. -/
theorem decompose_sound {si : SolveInput} (hfair : si.fairness = none) (hland : LocksLand si)
    (hsites : SameSites si) (hends : ∀ s ∈ si.shifts, s.start.instant ≤ s.fin.instant) :
    (∀ s ∈ si.shifts, (decompose si).countP (fun g => s ∈ g.solveInput.shifts) = 1) ∧
      (∀ e ∈ si.employees, (decompose si).countP (fun g => e ∈ g.solveInput.employees) ≤ 1) ∧
      ((∀ g ∈ decompose si, validate g.solveInput = .ok ()) → validate si = .ok ()) ∧
      MergesSolutions si := by
  refine ⟨fun s hs => countP_shift hs, fun e he => countP_employee he, validate_of_groups hland, ?_⟩
  by_cases hsplit : Splits si
  · refine merges_of_splits hsplit hsites hland (fun s hs => roundedMinutes_nonneg (hends s hs)) ?_
    intro fairness hsome
    rw [hfair] at hsome
    cases hsome
  · intro v hv
    have hgroup : decompose si = [singleGroup si] :=
      (decompose_cases si).elim And.right fun h => absurd h.1 hsplit
    rw [hgroup] at hv ⊢
    refine ⟨v (singleGroup si), hv _ mem_cons_self, fun p => ?_⟩
    simp [singleGroup]

/-- Two sites, with employee 3 locked to the shift at home. -/
theorem twoSites_merges :
    MergesSolutions { twoSites with lockedAssignments := [⟨3, 12, .manualOverride⟩] } := by
  refine (decompose_sound rfl ?_ (.of_isChain ?_ ?_) ?_).2.2.2
  · unfold LocksLand
    decide +kernel
  · decide +kernel
  · decide +kernel
  · decide +kernel

/-- Employee 1 has two records, one at each of the two sites. -/
def twinEmployee : SolveInput :=
  { twoSites with
    employees := [⟨1, 40, false, [⟨9, none, 0⟩], ∅, some 5⟩,
      ⟨1, 40, false, [⟨9, none, 0⟩], ∅, some 6⟩] ++ crowd }

/-- The shifts of the two sites have the same id. -/
def twinShift : SolveInput :=
  { twoSites with shifts := twoSites.shifts.map fun s => { s with id := 11 } }

/-- The shift at site 6 ends before it starts, and all work of employee 1 is overtime. -/
def backwardShift : SolveInput :=
  { twoSites with
    employees := [⟨1, 0, true, [⟨9, none, 0⟩], ∅, some 5⟩,
      ⟨3, 40, false, [⟨9, none, 0⟩], ∅, some 6⟩] ++ crowd
    shifts := twoSites.shifts.map fun s =>
      if s.id = 12 then { s with start := s.fin, fin := s.start } else s
    relaxedCategories := {.shiftLengthBounds} }

/-- Solutions do not merge when the groups can assign pairs that together are not feasible. -/
theorem not_merges (pairs : List (UUID × UUID)) (hlocks : si.lockedPairs = [])
    (hv : ∀ g ∈ decompose si,
      Solves ((Plan.ofPairs pairs).valuation g.solveInput) (emittedModel g.solveInput))
    (hassigned : pairs.all fun p => (decompose si).any fun g =>
      p ∈ assignedPairs g.solveInput ((Plan.ofPairs pairs).valuation g.solveInput))
    (hno : ¬ Feasible si (.ofPairs pairs)) : ¬ MergesSolutions si := by
  intro hmerges
  obtain ⟨w, hw, hiff⟩ := hmerges (fun g => (Plan.ofPairs pairs).valuation g.solveInput) hv
  have hknown : ∀ p ∈ si.lockedPairs, p ∈ decisionPairs si := by simp [hlocks]
  refine hno ((feasible_iff hknown).2 ⟨w, hw, fun p => ?_⟩)
  rw [hiff]
  constructor
  · intro hp
    have hany := all_eq_true.1 hassigned p (by simpa [Plan.ofPairs] using hp)
    simpa using hany
  · rintro ⟨g, -, hp⟩
    simpa [Plan.valuation] using (mem_assignedPairs.1 hp).2

/-- Solutions of the groups do not merge when an employee or a shift is at two sites, or when
shifts run backwards. -/
theorem decompose_unsound :
    (twinEmployee.fairness = none ∧ LocksLand twinEmployee ∧ ¬ MergesSolutions twinEmployee) ∧
      (twinShift.fairness = none ∧ LocksLand twinShift ∧ ¬ MergesSolutions twinShift) ∧
      backwardShift.fairness = none ∧ LocksLand backwardShift ∧
        ¬ MergesSolutions backwardShift := by
  refine ⟨⟨rfl, by simp [LocksLand, twinEmployee, twoSites], ?_⟩,
    ⟨rfl, by simp [LocksLand, twinShift, twoSites], ?_⟩,
    rfl, by simp [LocksLand, backwardShift, twoSites], ?_⟩
  · refine not_merges [(1, 11), (1, 12)] rfl (by decide +kernel) (by decide +kernel) ?_
    intro hfeasible
    have hfree := hfeasible.conflictFree _ mem_cons_self
      (twoSites.shifts.get ⟨0, by decide⟩, twoSites.shifts.get ⟨1, by decide⟩) mem_cons_self
      rfl rfl (by decide +kernel)
    exact not_mem_nil hfree.1
  · refine not_merges [(1, 11), (3, 11)] rfl (by decide +kernel) (by decide +kernel) ?_
    intro hfeasible
    have hfree := hfeasible.conflictFree _ mem_cons_self
      (twinShift.shifts.get ⟨0, by decide⟩, twinShift.shifts.get ⟨1, by decide⟩) mem_cons_self
      rfl rfl (by decide +kernel)
    exact not_mem_nil hfree.1
  · refine not_merges [(1, 11), (3, 12)] rfl (by decide +kernel) (by decide +kernel) ?_
    intro hfeasible
    -- The bound of the overtime variable is the sum of 240 minutes and -240 minutes.
    have hwithin := hfeasible.withinOvertime (by decide) _ mem_cons_self rfl
      (twoSites.shifts.get ⟨0, by decide⟩).week
    exact absurd hwithin (by decide +kernel)

/-! ## From the whole to the groups -/

/-- A schedule exists: the checks of `solve` pass and its model has a solution. -/
def Schedulable (si : SolveInput) : Prop :=
  validate si = .ok () ∧ ∃ v, Solves v (emittedModel si)

theorem known_of_validate (h : validate si = .ok ()) :
    ∀ p ∈ si.lockedPairs, p ∈ decisionPairs si := by
  intro p hp
  obtain ⟨locked, hlocked, rfl⟩ := mem_map.1 hp
  obtain ⟨⟨e, he, hide⟩, s, hs, hids⟩ :=
    validateLockedAssignments_eq_ok.1 (validate_eq_ok.1 h).2 locked hlocked
  rw [← hide, ← hids] at hp ⊢
  exact locked_mem_decisionPairs he hs hp

theorem schedulable_iff :
    Schedulable si ↔ validate si = .ok () ∧ ∃ a, Feasible si a := by
  refine and_congr_right fun hvalid => ?_
  constructor
  · rintro ⟨v, hv⟩
    exact ⟨planOf si v, (feasible_iff (known_of_validate hvalid)).2
      ⟨v, hv, fun p => planOf_eq_true⟩⟩
  · rintro ⟨a, ha⟩
    exact ⟨_, ha.solves⟩

/-- The shift is at the home site of the employee, or at a site coupled with it. -/
def AtHome (si : SolveInput) (e : Employee) (s : ShiftSlot) : Prop :=
  ∃ site home, s.orgUnitId = some site ∧ e.orgUnitId = some home ∧ Coupled si site home

section Restrict

variable {si : SolveInput} {a : Plan} {G : List UUID} {e : Employee} {s : ShiftSlot}

theorem atHome_iff (he : e ∈ si.employees) (hs : s ∈ si.shifts) : AtHome si e s ↔
    ∃ G ∈ siteGroups si, e ∈ (groupInput si G).employees ∧ s ∈ (groupInput si G).shifts := by
  constructor
  · rintro ⟨site, home, hsite, hunit, hcoupled⟩
    have hmem : site ∈ siteIds si := mem_siteIds.2 ⟨s, hs, hsite⟩
    obtain ⟨G, hG, hin⟩ := exists_group hmem
    have hhome := (mem_siteGroup_iff hG hin).2 ⟨hcoupled.mem_iff.1 hmem, hcoupled⟩
    exact ⟨G, hG, mem_groupInput_employees.2 ⟨he, home, hhome, hunit⟩,
      mem_groupInput_shifts.2 ⟨hs, site, hin, hsite⟩⟩
  · rintro ⟨G, hG, hemp, hshift⟩
    obtain ⟨-, home, hhome, hunit⟩ := mem_groupInput_employees.1 hemp
    obtain ⟨-, site, hin, hsite⟩ := mem_groupInput_shifts.1 hshift
    exact ⟨site, home, hsite, hunit, ((mem_siteGroup_iff hG hin).1 hhome).2⟩

/-- Everybody works at home. -/
def Plan.StaysHome (a : Plan) (si : SolveInput) : Prop :=
  ∀ e ∈ si.employees, ∀ s ∈ si.shifts, a (e.id, s.id) = true → AtHome si e s

/-- What a plan assigns in a group. -/
def Plan.restrict (a : Plan) (si : SolveInput) (G : List UUID) : Plan :=
  fun p => a p && p ∈ decisionPairs (groupInput si G)

theorem Plan.restrict_eq_true {p : UUID × UUID} : a.restrict si G p = true ↔
    a p = true ∧ p ∈ decisionPairs (groupInput si G) := by
  simp [Plan.restrict]

/-- What is assigned at home has a variable in its group. -/
theorem Feasible.exists_group (h : Feasible si a) (hhome : a.StaysHome si)
    (hlocks : si.lockedPairs = []) (he : e ∈ si.employees) (hs : s ∈ si.shifts)
    (ha : a (e.id, s.id) = true) : ∃ G ∈ siteGroups si, e ∈ (groupInput si G).employees ∧
      s ∈ (groupInput si G).shifts ∧ (e.id, s.id) ∈ decisionPairs (groupInput si G) := by
  obtain ⟨s', hs', e', he', helig, heq⟩ := mem_decisionPairs.1 (h.gated _ ha)
  obtain ⟨hide, hids⟩ := Prod.mk.inj heq
  -- The variable may be that of other records with the same ids; all of them are in one group.
  obtain ⟨G, hG, hemp, hshift⟩ := (atHome_iff he hs).1 (hhome e he s hs ha)
  obtain ⟨G₁, hG₁, hemp₁, hshift₁⟩ := (atHome_iff he hs').1 (hhome e he s' hs' (by rwa [hids]))
  obtain ⟨G₂, hG₂, hemp₂, hshift₂⟩ :=
    (atHome_iff he' hs').1 (hhome e' he' s' hs' (by rwa [hide, hids]))
  obtain rfl := group_unique_of_employee hG hG₁ hemp hemp₁
  obtain rfl := group_unique_of_shift hG hG₂ hshift₁ hshift₂
  refine ⟨G, hG, hemp, hshift, mem_decisionPairs.2 ⟨s', hshift₁, e', hemp₂, .inr ?_, heq⟩⟩
  exact helig.resolve_left (by simp [hlocks])

theorem Feasible.restrict_iff (h : Feasible si a) (hhome : a.StaysHome si)
    (hlocks : si.lockedPairs = []) (hG : G ∈ siteGroups si)
    (he : e ∈ (groupInput si G).employees) (hs : s ∈ si.shifts) : a (e.id, s.id) = true ↔
      (s.orgUnitId.any fun site => site ∈ G) = true ∧ a.restrict si G (e.id, s.id) = true := by
  rw [← IsSplit.mem_shifts_iff hs, Plan.restrict_eq_true]
  constructor
  · intro ha
    obtain ⟨G', hG', hemp, hshift, hpair⟩ :=
      h.exists_group hhome hlocks (mem_groupInput_employees.1 he).1 hs ha
    obtain rfl := group_unique_of_employee hG hG' he hemp
    exact ⟨hshift, ha, hpair⟩
  · rintro ⟨-, ha, -⟩
    exact ha

theorem Feasible.countP_le_restrict (h : Feasible si a) (hhome : a.StaysHome si)
    (hlocks : si.lockedPairs = []) (hG : G ∈ siteGroups si) (hs : s ∈ (groupInput si G).shifts) :
    si.employees.countP (fun e => a (e.id, s.id)) ≤
      (groupInput si G).employees.countP fun e => a.restrict si G (e.id, s.id) := by
  show _ ≤ (si.employees.filter _).countP _
  rw [countP_filter]
  refine countP_mono_left fun e he ha => ?_
  obtain ⟨G', hG', hemp, hshift, hpair⟩ :=
    h.exists_group hhome hlocks he (mem_groupInput_shifts.1 hs).1 ha
  obtain rfl := group_unique_of_shift hG hG' hs hshift
  rw [Bool.and_eq_true, Plan.restrict_eq_true]
  exact ⟨⟨ha, hpair⟩, (mem_filter.1 hemp).2⟩

theorem NoUndesirable.groupInput (hfair : NoUndesirable si) :
    NoUndesirable (Scheduling.groupInput si G) := by
  intro fairness hsome
  refine eq_nil_iff_forall_not_mem.2 fun id hid => ?_
  simp only [undesirableShiftIds, mem_dedup, mem_map, mem_filter] at hid
  obtain ⟨s, ⟨hs, hbad⟩, rfl⟩ := hid
  have hin : s.id ∈ undesirableShiftIds fairness si.shifts := by
    simp only [undesirableShiftIds, mem_dedup, mem_map, mem_filter]
    exact ⟨s, ⟨(mem_groupInput_shifts.1 hs).1, hbad⟩, rfl⟩
  rw [hfair fairness hsome] at hin
  cases hin

/-- A feasible plan in which everybody works at home gives a feasible plan of every group. -/
theorem Feasible.restrict (h : Feasible si a) (hhome : a.StaysHome si)
    (hlocks : si.lockedPairs = []) (hnonneg : ∀ s ∈ si.shifts, 0 ≤ s.roundedMinutes)
    (hfair : NoUndesirable si) (hG : G ∈ siteGroups si) :
    Feasible (groupInput si G) (a.restrict si G) := by
  have hgated : ∀ p, a.restrict si G p = true → p ∈ decisionPairs (groupInput si G) :=
    fun p hp => (Plan.restrict_eq_true.1 hp).2
  have hlocksG : (groupInput si G).lockedPairs = [] := by
    refine eq_nil_iff_forall_not_mem.2 fun p hp => ?_
    have hp := (mem_groupInput_lockedPairs.1 hp).1
    rw [hlocks] at hp
    cases hp
  exact
    { gated := hgated
      locked := by simp [hlocksG]
      staffed := fun s hs => (h.staffed s (mem_groupInput_shifts.1 hs).1).trans
        (Int.ofNat_le.2 (h.countP_le_restrict hhome hlocks hG hs))
      conflictFree := by
        rintro e he ⟨s, s'⟩ hp ha ha' hconf
        have hfree := h.conflictFree e (mem_groupInput_employees.1 he).1 (s, s')
          (mem_orderedPairs_filter.1 hp).1 (Plan.restrict_eq_true.1 ha).1
          (Plan.restrict_eq_true.1 ha').1 hconf
        rw [hlocks] at hfree
        exact absurd hfree.1 not_mem_nil
      withinDays := by
        intro hrelaxed e he window hw
        have hle := h.withinDays hrelaxed e (mem_groupInput_employees.1 he).1 window hw
        have hdays := funext (Plan.worksOn_filter
          fun s hs => h.restrict_iff hhome hlocks hG he hs)
        have hlocked : (Plan.ofPairs si.lockedPairs).worksOn si.shifts e.id =
            (Plan.ofPairs (groupInput si G).lockedPairs).worksOn (groupInput si G).shifts e.id := by
          funext day
          rw [hlocks, hlocksG, Plan.worksOn_ofPairs_nil, Plan.worksOn_ofPairs_nil]
        rw [hdays, hlocked] at hle
        exact hle
      withinHours := by
        intro e he hcap week
        have hle := h.withinHours e (mem_groupInput_employees.1 he).1 hcap week
        rw [Plan.minutes_filter (fun s hs => h.restrict_iff hhome hlocks hG he hs) week, hlocks,
          Plan.minutes_ofPairs_nil] at hle
        rw [hlocksG, Plan.minutes_ofPairs_nil]
        exact hle
      fair := fun fairness hsome => .inl (hfair.groupInput fairness hsome)
      withinOvertime := fun _ _ _ _ =>
        Plan.withinOvertime hgated fun s hs => hnonneg s (mem_groupInput_shifts.1 hs).1 }

end Restrict

/-- Splitting the problem does not lose its schedules. -/
def KeepsSchedulable (si : SolveInput) : Prop :=
  Schedulable si → ∀ g ∈ decompose si, Schedulable g.solveInput

section Keeps

variable {si : SolveInput}

theorem validate_group (hlocks : si.lockedAssignments = []) (h : validate si = .ok ())
    (G : List UUID) : validate (groupInput si G) = .ok () := by
  refine validate_eq_ok.2 ⟨fun s hs => ?_, validateLockedAssignments_eq_ok.2 fun locked hlock => ?_⟩
  · exact (validate_eq_ok.1 h).1 s (mem_groupInput_shifts.1 hs).1
  · have hmem := (mem_groupInput_lockedAssignments.1 hlock).1
    rw [hlocks] at hmem
    cases hmem

/-- A schedule in which everybody works at home splits into schedules of the groups. -/
theorem schedulable_groups (hlocks : si.lockedAssignments = [])
    (hends : ∀ s ∈ si.shifts, s.start.instant ≤ s.fin.instant)
    (hfair : NoUndesirable si) (hvalid : validate si = .ok ()) {a : Plan} (ha : Feasible si a)
    (hhome : a.StaysHome si) :
    ∀ G ∈ siteGroups si, Schedulable (groupInput si G) := by
  intro G hG
  have hpairs : si.lockedPairs = [] := by rw [SolveInput.lockedPairs, hlocks, map_nil]
  exact schedulable_iff.2 ⟨validate_group hlocks hvalid G, _,
    ha.restrict hhome hpairs (fun s hs => roundedMinutes_nonneg (hends s hs)) hfair hG⟩

theorem exists_isSplit (h : ∀ G ∈ siteGroups si, Schedulable (groupInput si G)) :
    ∃ l, IsSplit si l := by
  choose! a ha using fun G hG => (schedulable_iff.1 (h G hG)).2
  refine ⟨(siteGroups si).map fun G => (G, a G), by simp [Function.comp_def], fun q hq => ?_⟩
  obtain ⟨G, hG, rfl⟩ := mem_map.1 hq
  exact ha G hG

/-- Schedules of the groups make one of the whole in which everybody works at home. -/
theorem exists_staysHome (hsplit : Splits si) (hlocks : si.lockedAssignments = [])
    (hends : ∀ s ∈ si.shifts, s.start.instant ≤ s.fin.instant) (hsites : SameSites si)
    (hfair : NoUndesirable si) (h : ∀ G ∈ siteGroups si, Schedulable (groupInput si G)) :
    ∃ a, Feasible si a ∧ a.StaysHome si := by
  obtain ⟨l, hl⟩ := exists_isSplit h
  have hland : LocksLand si := by
    intro locked hlocked
    rw [hlocks] at hlocked
    cases hlocked
  refine ⟨_, hl.feasible_union hsplit hsites hland
    (fun s hs => roundedMinutes_nonneg (hends s hs)) hfair, fun e he s hs hassigned => ?_⟩
  obtain ⟨q, hq, hassigned⟩ := unionPlan_eq_true.1 hassigned
  exact (atHome_iff he hs).2
    ⟨q.1, hl.mem_siteGroups hq, hl.mem_of_assigned hsites hq he hs hassigned⟩

/-- **When splitting keeps a schedule.** For every input without locks: a problem that is not split
keeps its schedules, and so does one in which fairness asks for nothing and nobody may work away
from home. Without fairness, a problem that is split keeps them exactly when it has a schedule in
which everybody works at home, if it has one at all. -/
theorem decompose_schedulable (hlocks : si.lockedAssignments = [])
    (hends : ∀ s ∈ si.shifts, s.start.instant ≤ s.fin.instant) :
    ((Splits si → NoUndesirable si ∧ (Plan.ofPairs (decisionPairs si)).StaysHome si) →
        KeepsSchedulable si) ∧
      (Splits si → SameSites si → NoUndesirable si →
        (KeepsSchedulable si ↔ (Schedulable si → ∃ a, Feasible si a ∧ a.StaysHome si))) := by
  refine ⟨fun hcond hsched => ?_, fun hsplit hsites hfair => ?_⟩
  · refine forall_decompose.2 ⟨fun _ => hsched, fun hsplit => ?_⟩
    obtain ⟨hfair, hhome⟩ := hcond hsplit
    obtain ⟨hvalid, a, ha⟩ := schedulable_iff.1 hsched
    refine schedulable_groups hlocks hends hfair hvalid ha fun e he s hs hassigned => ?_
    exact hhome e he s hs (by simpa [Plan.ofPairs] using ha.gated _ hassigned)
  · constructor
    · intro hkeeps hsched
      exact exists_staysHome hsplit hlocks hends hsites hfair
        ((forall_decompose.1 (hkeeps hsched)).2 hsplit)
    · intro hhome hsched
      obtain ⟨a, ha, hstays⟩ := hhome hsched
      exact forall_decompose.2 ⟨fun hno => absurd hsplit hno, fun _ =>
        schedulable_groups hlocks hends hfair hsched.1 ha hstays⟩

end Keeps

/-- Employees 1 and 3 can cover the shifts of their sites. -/
theorem twoSites_keeps : KeepsSchedulable twoSites := by
  refine ((decompose_schedulable rfl (by decide)).2 ?_ (.of_isChain ?_ ?_) ?_).2 fun _ => ?_
  · exact ⟨by decide +kernel, by decide, by decide⟩
  · decide +kernel
  · decide +kernel
  · rintro _ ⟨⟩
  · have hsolves : Solves ((Plan.ofPairs [(1, 11), (3, 12)]).valuation twoSites)
        (emittedModel twoSites) := by
      decide +kernel
    have hsites : ∀ e ∈ twoSites.employees, ∀ s ∈ twoSites.shifts,
        (e.id, s.id) ∈ assignedPairs twoSites
            ((Plan.ofPairs [(1, 11), (3, 12)]).valuation twoSites) →
          s.orgUnitId = e.orgUnitId ∧ s.orgUnitId ≠ none := by
      decide +kernel
    refine ⟨_, (feasible_iff (by simp [twoSites, SolveInput.lockedPairs])).2
      ⟨_, hsolves, fun p => planOf_eq_true⟩, fun e he s hs ha => ?_⟩
    obtain ⟨heq, hne⟩ := hsites e he s hs (planOf_eq_true.1 ha)
    obtain ⟨site, hsite⟩ := Option.ne_none_iff_exists'.1 hne
    exact ⟨site, site, hsite, heq.symm.trans hsite, .refl _⟩

/-- Employee 3, the only one at home at site 6, is on leave on the day of the shifts. -/
def onLeave : SolveInput := { twoSites with leaveRecords := [⟨3, 20514, 20514⟩] }

/-- Employee 2 could cover the shift at site 6, but is not in the group of the site. -/
theorem onLeave_loses_schedule : onLeave.lockedAssignments = [] ∧ ¬ KeepsSchedulable onLeave := by
  refine ⟨rfl, fun hkeeps => ?_⟩
  have hsched : Schedulable onLeave :=
    ⟨by decide +kernel, (Plan.ofPairs [(1, 11), (2, 12)]).valuation onLeave, by decide +kernel⟩
  have hsplit : Splits onLeave := ⟨by decide +kernel, by decide, by decide⟩
  have hgroup := (forall_decompose.1 (hkeeps hsched)).2 hsplit [6] (by decide +kernel)
  obtain ⟨-, a, ha⟩ := schedulable_iff.1 hgroup
  have hnone : decisionPairs (groupInput onLeave [6]) = [] := by decide +kernel
  have hcount : (groupInput onLeave [6]).employees.countP (fun e => a (e.id, 12)) = 0 := by
    refine countP_eq_zero.2 fun e _ hassigned => ?_
    have hmem := ha.gated _ hassigned
    rw [hnone] at hmem
    cases hmem
  have hstaffed := ha.staffed (twoSites.shifts.get ⟨1, by decide⟩) (by decide +kernel)
  have hone : (1 : ℤ) ≤ ((groupInput onLeave [6]).employees.countP fun e => a (e.id, 12) : ℕ) :=
    hstaffed
  omega

end Workforce.Scheduling
