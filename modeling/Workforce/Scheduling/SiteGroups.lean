import Workforce.Scheduling.Decomposition

/-!
# The groups of sites are connected components

`_merge_coupled_sites`, which `decompose` calls when every shift names a site, goes through a
dictionary of skills, through the set of sites of each skill, and through the set of all sites.
`IterationOrder` is any order in which it may do so.
`mergeCoupledSites_components` says that the order does not matter: the groups are the connected
components of `SharesScarceSkill`, and every search of the run ends.
-/

namespace Workforce.Scheduling

open UnionFind List

/-- An order of the dictionary `skill_sites`, of each of its sets, and of `site_ids`. -/
structure IterationOrder (si : SolveInput) where
  skills : List UUID
  sitesOf : UUID → List UUID
  sites : List UUID
  skills_perm : skills.Perm (si.shifts.filterMap (·.requiredSkillId)).dedup
  sitesOf_perm : ∀ skillId, (sitesOf skillId).Perm (skillSites si skillId)
  sites_perm : sites.Perm (siteIds si)

namespace IterationOrder

variable {si : SolveInput} (order : IterationOrder si)

/-- The pairs of sites that a skill joins. -/
def couplingPairs (skillId : UUID) : List (UUID × UUID) :=
  let sites := order.sitesOf skillId
  if sites.length < 2 then []
  else if sites.any fun site => qualifiedAt si skillId site < requiredAt si skillId site then
    (sortSites sites).zip (sortSites sites).tail
  else []

/-- The pairs of sites in the order in which they are joined. -/
def allCouplingPairs : List (UUID × UUID) := order.skills.flatMap order.couplingPairs

/-- `parent` after all unions. -/
def parent : UUID → UUID := unions order.sites.length id order.allCouplingPairs

/-- `_merge_coupled_sites` in this order. -/
def mergeCoupledSites : List (List UUID) :=
  let found := roots order.sites.length order.parent order.sites
  (found.map (·.1)).dedup.map fun root => (found.filter (·.1 = root)).map (·.2)

/-- `parent` after each round of the searches of the run. -/
def parents : List (UUID → UUID) :=
  unionsPointers order.sites.length id order.allCouplingPairs ++
    rootsPointers order.sites.length order.parent order.sites

end IterationOrder

/-! ## The relation -/

/-- Both sites require a skill that two sites or more require and that one of them cannot cover. -/
def SharesScarceSkill (si : SolveInput) (a b : UUID) : Prop :=
  ∃ skillId, a ∈ skillSites si skillId ∧ b ∈ skillSites si skillId ∧
    2 ≤ (skillSites si skillId).length ∧
    ∃ site ∈ skillSites si skillId, qualifiedAt si skillId site < requiredAt si skillId site

/-- Two sites are connected. -/
def Connected (si : SolveInput) : UUID → UUID → Prop := Relation.EqvGen (SharesScarceSkill si)

theorem connected_iff {si : SolveInput} {a b : UUID} : Connected si a b ↔ Coupled si a b := by
  constructor
  · intro h
    refine h.mono fun x y hxy => ?_
    obtain ⟨skillId, hx, hy, -, hshort⟩ := hxy
    exact ⟨skillId, hx, hy, hshort⟩
  · intro h
    induction h with
    | rel x y hxy =>
      obtain ⟨skillId, hx, hy, hshort⟩ := hxy
      by_cases heq : x = y
      · rw [heq]
        exact .refl _
      · -- Two different sites are two sites.
        refine .rel _ _ ⟨skillId, hx, hy, ?_, hshort⟩
        by_contra hone
        obtain ⟨c, hc⟩ := length_eq_one_iff.1
          (show (skillSites si skillId).length = 1 by
            have := length_pos_of_mem hx
            omega)
        rw [hc, mem_singleton] at hx hy
        exact heq (hx.trans hy.symm)
    | refl x => exact .refl _
    | symm x y _ ih => exact .symm _ _ ih
    | trans x y z _ _ ih ih' => exact .trans _ _ _ ih ih'

/-! ## Any order -/

theorem sortSites_eq_of_perm {l l' : List UUID} (h : l.Perm l') : sortSites l = sortSites l' :=
  (((perm_insertionSort _ l).trans h).trans
    (perm_insertionSort _ l').symm).eq_of_pairwise' (pairwise_insertionSort _ _)
      (pairwise_insertionSort _ _)

namespace IterationOrder

variable {si : SolveInput} (order : IterationOrder si)

theorem couplingPairs_eq (skillId : UUID) :
    order.couplingPairs skillId = Scheduling.couplingPairs si skillId := by
  have hperm := order.sitesOf_perm skillId
  have hany : ((order.sitesOf skillId).any fun site =>
      qualifiedAt si skillId site < requiredAt si skillId site) =
      (skillSites si skillId).any fun site =>
        qualifiedAt si skillId site < requiredAt si skillId site := by
    rw [Bool.eq_iff_iff, any_eq_true, any_eq_true]
    exact exists_congr fun site => and_congr_left fun _ => hperm.mem_iff
  simp only [couplingPairs, Scheduling.couplingPairs, hperm.length_eq, hany,
    sortSites_eq_of_perm hperm]

theorem mem_allCouplingPairs {p : UUID × UUID} :
    p ∈ order.allCouplingPairs ↔ p ∈ Scheduling.allCouplingPairs si := by
  simp only [allCouplingPairs, Scheduling.allCouplingPairs, mem_flatMap, couplingPairs_eq,
    order.skills_perm.mem_iff]

theorem length_sites : order.sites.length = (siteIds si).toFinset.card := by
  rw [order.sites_perm.length_eq, toFinset_card_of_nodup]
  exact nodup_dedup _

theorem mem_sites {site : UUID} : site ∈ order.sites ↔ site ∈ (siteIds si).toFinset := by
  rw [order.sites_perm.mem_iff, mem_toFinset]

theorem exists_forest_parent : ∃ rep rank, Forest (siteIds si).toFinset order.parent rep rank ∧
    ∀ a b, rep a = rep b ↔ Connected si a b := by
  obtain ⟨rep, rank, hforest, hiff⟩ := exists_forest_unions fun p hp =>
    allCouplingPairs_mem (order.mem_allCouplingPairs.1 hp)
  rw [← order.length_sites] at hforest
  refine ⟨rep, rank, hforest, fun a b => (hiff a b).trans ?_⟩
  have hpairs : (fun a b => (a, b) ∈ order.allCouplingPairs) =
      fun a b => (a, b) ∈ Scheduling.allCouplingPairs si := by
    funext a b
    exact propext order.mem_allCouplingPairs
  rw [hpairs, eqvGen_allCouplingPairs, connected_iff]

theorem exists_mergeCoupledSites : ∃ rep : UUID → UUID,
    order.mergeCoupledSites = (order.sites.map rep).dedup.map (fun root =>
      order.sites.filter fun site => rep site = root) ∧
    ∀ a b, rep a = rep b ↔ Connected si a b := by
  obtain ⟨rep, rank, hforest, hiff⟩ := order.exists_forest_parent
  refine ⟨rep, ?_, hiff⟩
  rw [mergeCoupledSites, order.length_sites]
  exact groups_eq hforest fun x hx => order.mem_sites.1 hx

/-- Every map of parents that the run meets is a forest. -/
theorem exists_forest_of_mem_parents {pointers : UUID → UUID} (h : pointers ∈ order.parents) :
    ∃ rep rank, Forest (siteIds si).toFinset pointers rep rank := by
  rcases mem_append.1 h with h | h
  · rw [order.length_sites] at h
    exact forest_of_mem_unionsPointers (Forest.initial _)
      (fun p hp => allCouplingPairs_mem (order.mem_allCouplingPairs.1 hp)) h
  · obtain ⟨rep, rank, hforest, -⟩ := order.exists_forest_parent
    exact ⟨rep, rank, forest_of_mem_rootsPointers hforest h⟩

end IterationOrder

/-- The sites are a connected component. -/
def IsComponent (si : SolveInput) (sites : Finset UUID) : Prop :=
  ∃ a ∈ siteIds si, ∀ b, b ∈ sites ↔ b ∈ siteIds si ∧ Connected si a b

namespace IterationOrder

variable {si : SolveInput} (order : IterationOrder si)

theorem mem_mergeCoupledSites {sites : Finset UUID} :
    sites ∈ order.mergeCoupledSites.map toFinset ↔ IsComponent si sites := by
  obtain ⟨rep, hgroups, hiff⟩ := order.exists_mergeCoupledSites
  have hgroup : ∀ a b, b ∈ (order.sites.filter fun site => rep site = rep a).toFinset ↔
      b ∈ siteIds si ∧ Connected si a b := by
    intro a b
    rw [mem_toFinset, mem_filter, order.sites_perm.mem_iff, decide_eq_true_eq,
      ← hiff, eq_comm (a := rep a)]
  rw [hgroups, map_map, mem_map]
  constructor
  · rintro ⟨root, hroot, rfl⟩
    obtain ⟨a, ha, rfl⟩ := mem_map.1 (mem_dedup.1 hroot)
    exact ⟨a, order.sites_perm.mem_iff.1 ha, hgroup a⟩
  · rintro ⟨a, ha, hsites⟩
    refine ⟨rep a, mem_dedup.2 (mem_map_of_mem (order.sites_perm.mem_iff.2 ha)), ?_⟩
    ext b
    rw [hsites, Function.comp_apply, hgroup]

theorem nodup_mergeCoupledSites : (order.mergeCoupledSites.map toFinset).Nodup := by
  obtain ⟨rep, hgroups, -⟩ := order.exists_mergeCoupledSites
  rw [hgroups, map_map]
  refine Nodup.map_on (fun root hroot root' _ heq => ?_) (nodup_dedup _)
  obtain ⟨a, ha, rfl⟩ := mem_map.1 (mem_dedup.1 hroot)
  have hmem : a ∈ (order.sites.filter fun site => rep site = rep a).toFinset :=
    mem_toFinset.2 (mem_filter.2 ⟨ha, decide_eq_true rfl⟩)
  have hmem' : a ∈ (order.sites.filter fun site => rep site = root').toFinset :=
    (congrArg (a ∈ ·) heq).mp hmem
  exact of_decide_eq_true (mem_filter.1 (mem_toFinset.1 hmem')).2

theorem nodup_of_mem_mergeCoupledSites {G : List UUID} (hG : G ∈ order.mergeCoupledSites) :
    G.Nodup := by
  obtain ⟨rep, hgroups, -⟩ := order.exists_mergeCoupledSites
  rw [hgroups] at hG
  obtain ⟨root, -, rfl⟩ := mem_map.1 hG
  exact (order.sites_perm.nodup_iff.2 (nodup_dedup _)).filter _

end IterationOrder

/-- **The groups of sites are the connected components.** For every input and every order in which
`_merge_coupled_sites` goes through its dictionaries and sets: the groups are sets of sites, each
component of `SharesScarceSkill` is one of them exactly once and there are no others, any other
order gives the same groups, and `find` ends at every site for every map of parents on the way. -/
theorem mergeCoupledSites_components (si : SolveInput) (order : IterationOrder si) :
    (∀ G ∈ order.mergeCoupledSites, G.Nodup) ∧
    (order.mergeCoupledSites.map toFinset).Nodup ∧
    (∀ sites, sites ∈ order.mergeCoupledSites.map toFinset ↔ IsComponent si sites) ∧
    (∀ order' : IterationOrder si, (order.mergeCoupledSites.map toFinset).Perm
      (order'.mergeCoupledSites.map toFinset)) ∧
    ∀ parent ∈ order.parents, ∀ site ∈ siteIds si, Halts parent site := by
  refine ⟨fun G hG => order.nodup_of_mem_mergeCoupledSites hG, order.nodup_mergeCoupledSites,
    fun sites => order.mem_mergeCoupledSites, fun order' => ?_, fun parent hparent site hsite => ?_⟩
  · exact (perm_ext_iff_of_nodup order.nodup_mergeCoupledSites
      order'.nodup_mergeCoupledSites).2 fun sites =>
        order.mem_mergeCoupledSites.trans order'.mem_mergeCoupledSites.symm
  · obtain ⟨rep, rank, hforest⟩ := order.exists_forest_of_mem_parents hparent
    exact find_halts hforest (mem_toFinset.2 hsite)

end Workforce.Scheduling
