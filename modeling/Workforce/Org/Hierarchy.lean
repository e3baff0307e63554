import Workforce.Org.History
import Mathlib.Order.WellFoundedSet

/-!
# The hierarchy as of a date

`getHierarchyAsOf` takes the version of every unit that is valid at an instant and builds the tree
below a unit from the parents that they record. A recursive function builds it, so it does not end
when the parents lead back to a unit.

A change is checked against the tree of now, and enters the history with effect from its own date.
So the hierarchies as of all dates are forests along a run exactly when no unit gets a parent that
is below it at some instant from the effective date on (`hierarchy_forest_iff`). The hierarchy of
now always has the unit and those below it (`getCurrentHierarchy_complete`).
-/

namespace Workforce.Org

open Runs Tables Versions Paths Relation List

/-! ## The service -/

structure TreeEdge where
  id : ℕ
  parentOrgUnitId : Option ℕ

/-- A unit with the units below it. -/
inductive OrgUnitSnapshot
  | node (id : ℕ) (columns : OrgUnitColumns) (children : List OrgUnitSnapshot)

inductive HierarchyError
  | orgUnitNotFound (id : ℕ)
  /-- The recursion goes deeper than the bound that the model gives it. -/
  | unfinished

/-- `childIdsByParent`. -/
def childIdsByParent (edges : List TreeEdge) (id : ℕ) : List ℕ :=
  (edges.filter fun edge => edge.parentOrgUnitId = some id).map (·.id)

/-- `assembleTree`: the function `build`, with a bound on its depth. -/
def assembleTree (edges : List TreeEdge) (nodesById : ℕ → Option OrgUnitColumns) :
    ℕ → ℕ → Except HierarchyError OrgUnitSnapshot
  | 0, _ => .error .unfinished
  | depth + 1, id =>
    match nodesById id with
    | none => .error (.orgUnitNotFound id)
    | some columns =>
      .node id columns <$> (childIdsByParent edges id).mapM (assembleTree edges nodesById depth)

namespace State

variable (s : State)

/-- The edges of `getHierarchyAsOf`. -/
def edgesAsOf (asOf : ℤ) : List TreeEdge :=
  (s.findAllAsOf asOf).map fun v => ⟨v.key, v.columns.parentOrgUnitId⟩

/-- Its nodes: a later entry of a map replaces an earlier one. -/
def nodesAsOf (asOf : ℤ) (id : ℕ) : Option OrgUnitColumns :=
  (lookup Version.key id (s.findAllAsOf asOf).reverse).map (·.columns)

def getHierarchyAsOf (depth : ℕ) (rootId : ℕ) (asOf : ℤ) : Except HierarchyError OrgUnitSnapshot :=
  match s.findVersionAsOf rootId asOf with
  | none => .error (.orgUnitNotFound rootId)
  | some _ => assembleTree (s.edgesAsOf asOf) (s.nodesAsOf asOf) depth rootId

/-- The edges of `getCurrentHierarchy`. -/
def currentEdges (rootId : ℕ) : List TreeEdge :=
  (s.findSubtree rootId).map fun r => ⟨r.id, r.columns.parentOrgUnitId⟩

def currentNodes (rootId id : ℕ) : Option OrgUnitColumns :=
  (lookup (·.id) id (s.findSubtree rootId).reverse).map (·.columns)

def getCurrentHierarchy (depth : ℕ) (rootId : ℕ) : Except HierarchyError OrgUnitSnapshot :=
  if (s.findSubtree rootId).isEmpty then .error (.orgUnitNotFound rootId)
  else assembleTree (s.currentEdges rootId) (s.currentNodes rootId) depth rootId

def getHierarchy (depth : ℕ) (rootId : ℕ) : Option ℤ → Except HierarchyError OrgUnitSnapshot
  | some asOf => s.getHierarchyAsOf depth rootId asOf
  | none => s.getCurrentHierarchy depth rootId

/-! ## What is asked of it -/

/-- The version of the first unit that is valid at the instant names the second as its parent. -/
def ParentAsOf (asOf : ℤ) (a b : ℕ) : Prop :=
  ∃ v, s.findVersionAsOf a asOf = some v ∧ v.columns.parentOrgUnitId = some b

/-- The building of the tree ends: with every bound from some one on it has a result. -/
def HierarchyEnds (rootId : ℕ) (asOf : Option ℤ) : Prop :=
  ∃ n, ∀ depth ≥ n, s.getHierarchy depth rootId asOf ≠ .error .unfinished

/-- The hierarchies as of all instants are forests. -/
def Forest : Prop :=
  ∀ asOf, (∀ id, ¬ TransGen (s.ParentAsOf asOf) id id) ∧
    ∀ rootId, s.HierarchyEnds rootId (some asOf)

end State

/-- When a unit gets another parent, that one is not below it at any instant from the effective date
on. -/
def Action.NotBelow (s : State) : Action → Prop
  | .update id patch effectiveAt =>
    ∀ old, s.findById id = some old → ∀ p, (patch.apply old.columns).parentOrgUnitId = some p →
      old.columns.parentOrgUnitId ≠ some p →
        ∀ asOf, effectiveAt.getD s.clock ≤ asOf → ¬ ReflTransGen (s.ParentAsOf asOf) p id
  | _ => True

/-! ## The building of a tree -/

theorem mapM_eq_error {α β ε : Type*} {f : α → Except ε β} {e : ε} {l : List α}
    (h : l.mapM f = .error e) : ∃ a ∈ l, f a = .error e := by
  induction l with
  | nil => cases h
  | cons a l ih =>
    rw [mapM_cons] at h
    cases hfa : f a with
    | error e' =>
      rw [hfa] at h
      obtain rfl : e' = e := Except.error.inj (show Except.error e' = .error e from h)
      exact ⟨a, mem_cons_self, hfa⟩
    | ok b =>
      rw [hfa] at h
      cases hfl : l.mapM f with
      | error e' =>
        rw [hfl] at h
        obtain rfl : e' = e := Except.error.inj (show Except.error e' = .error e from h)
        obtain ⟨a', ha', herror⟩ := ih hfl
        exact ⟨a', mem_cons_of_mem _ ha', herror⟩
      | ok bs =>
        rw [hfl] at h
        cases h

theorem mapM_eq_ok {α β ε : Type*} {f : α → Except ε β} {l : List α} {bs : List β}
    (h : l.mapM f = .ok bs) : ∀ a ∈ l, ∃ b, f a = .ok b := by
  induction l generalizing bs with
  | nil => simp
  | cons a l ih =>
    rw [mapM_cons] at h
    cases hfa : f a with
    | error e =>
      rw [hfa] at h
      cases h
    | ok b =>
      rw [hfa] at h
      cases hfl : l.mapM f with
      | error e =>
        rw [hfl] at h
        cases h
      | ok bs' =>
        intro a' ha'
        rcases mem_cons.1 ha' with rfl | ha'
        · exact ⟨b, hfa⟩
        · exact ih hfl a' ha'

/-- An edge of the list leads from the first id to the second. -/
def EdgeOf (edges : List TreeEdge) (a b : ℕ) : Prop := ⟨a, some b⟩ ∈ edges

section Assemble

variable {edges : List TreeEdge} {nodesById : ℕ → Option OrgUnitColumns}

theorem mem_childIdsByParent {id child : ℕ} :
    child ∈ childIdsByParent edges id ↔ EdgeOf edges child id := by
  simp only [childIdsByParent, mem_map, mem_filter, decide_eq_true_eq, EdgeOf]
  constructor
  · rintro ⟨edge, ⟨hedge, hparent⟩, rfl⟩
    rwa [← hparent]
  · intro hedge
    exact ⟨⟨child, some id⟩, ⟨hedge, rfl⟩, rfl⟩

/-- The tree below a unit is built when the trees below its children are. -/
theorem assembleTree_ends_of_children {id : ℕ}
    (h : ∀ child, EdgeOf edges child id →
      ∃ n, ∀ depth ≥ n, assembleTree edges nodesById depth child ≠ .error .unfinished) :
    ∃ n, ∀ depth ≥ n, assembleTree edges nodesById depth id ≠ .error .unfinished := by
  obtain ⟨n, hn⟩ : ∃ n, ∀ child ∈ childIdsByParent edges id, ∀ depth ≥ n,
      assembleTree edges nodesById depth child ≠ .error .unfinished := by
    choose! bound hbound using h
    refine ⟨((childIdsByParent edges id).map bound).sum, fun child hchild depth hdepth => ?_⟩
    refine hbound child (mem_childIdsByParent.1 hchild) depth (le_trans ?_ hdepth)
    exact single_le_sum (by simp) _ (mem_map_of_mem hchild)
  refine ⟨n + 1, fun depth hdepth herror => ?_⟩
  obtain ⟨depth, rfl⟩ : ∃ d, depth = d + 1 := ⟨depth - 1, by omega⟩
  rw [assembleTree] at herror
  split at herror
  · cases herror
  · cases hchildren : (childIdsByParent edges id).mapM (assembleTree edges nodesById depth) with
    | ok children =>
      rw [hchildren] at herror
      cases herror
    | error e =>
      rw [hchildren] at herror
      obtain rfl : e = .unfinished := by simpa using herror
      obtain ⟨child, hchild, hunfinished⟩ := mapM_eq_error hchildren
      exact hn child hchild depth (by omega) hunfinished

variable (nodesById) in
/-- Without a cycle the building of a tree ends, at whatever unit it starts. -/
theorem assembleTree_ends (hacyclic : ∀ id, ¬ TransGen (EdgeOf edges) id id) (id : ℕ) :
    ∃ n, ∀ depth ≥ n, assembleTree edges nodesById depth id ≠ .error .unfinished := by
  -- the edges are finitely many, so going down them is well-founded
  have hfinite : {child | child ∈ edges.map (·.id)}.Finite := finite_toSet _
  have : IsStrictOrder ℕ (TransGen (EdgeOf edges)) :=
    { irrefl := hacyclic, trans := fun _ _ _ => TransGen.trans }
  have hchild : ∀ {child id}, EdgeOf edges child id → child ∈ edges.map (·.id) := fun hedge =>
    mem_map_of_mem (f := fun edge : TreeEdge => edge.id) hedge
  have hlisted : ∀ id ∈ edges.map (·.id), ∃ n, ∀ depth ≥ n,
      assembleTree edges nodesById depth id ≠ .error .unfinished := by
    intro id hid
    have hwf : {child | child ∈ edges.map (·.id)}.WellFoundedOn (TransGen (EdgeOf edges)) :=
      hfinite.wellFoundedOn
    refine hwf.induction (P := fun id => ∃ n, ∀ depth ≥ n,
      assembleTree edges nodesById depth id ≠ .error .unfinished) hid fun id _ ih => ?_
    exact assembleTree_ends_of_children fun child hedge => ih child (hchild hedge) (.single hedge)
  exact assembleTree_ends_of_children fun child hedge => hlisted child (hchild hedge)

/-- Every unit of an edge has a node, so only a root may be missing. -/
theorem eq_unfinished (hnodes : ∀ edge ∈ edges, (nodesById edge.id).isSome) {e : HierarchyError} :
    ∀ {depth id : ℕ}, (nodesById id).isSome → assembleTree edges nodesById depth id = .error e →
      e = .unfinished
  | 0, _, _, herror => (Except.error.inj herror).symm
  | depth + 1, id, hid, herror => by
    obtain ⟨columns, hcolumns⟩ := Option.isSome_iff_exists.1 hid
    simp only [assembleTree, hcolumns] at herror
    cases hchildren : (childIdsByParent edges id).mapM (assembleTree edges nodesById depth) with
    | ok children =>
      rw [hchildren] at herror
      cases herror
    | error e' =>
      rw [hchildren] at herror
      obtain rfl : e' = e := Except.error.inj (show Except.error e' = .error e from herror)
      obtain ⟨child, hchild, herror'⟩ := mapM_eq_error hchildren
      exact eq_unfinished hnodes (hnodes _ (mem_childIdsByParent.1 hchild)) herror'

theorem assembleTree_of_cycle (hnodes : ∀ edge ∈ edges, (nodesById edge.id).isSome) :
    ∀ (depth : ℕ) {id : ℕ}, TransGen (EdgeOf edges) id id →
      assembleTree edges nodesById depth id = .error .unfinished
  | 0, _, _ => rfl
  | depth + 1, id, hcycle => by
    obtain ⟨next, hnext, -⟩ := TransGen.head'_iff.1 hcycle
    obtain ⟨columns, hcolumns⟩ := Option.isSome_iff_exists.1 (hnodes _ hnext)
    -- the child on the cycle is on it again
    obtain ⟨child, hback, hchild⟩ := TransGen.tail'_iff.1 hcycle
    have herror := assembleTree_of_cycle hnodes depth (.head' hchild hback)
    cases htree : assembleTree edges nodesById (depth + 1) id with
    | error e => rw [eq_unfinished hnodes (hnodes _ hnext) htree]
    | ok tree =>
      simp only [assembleTree, hcolumns] at htree
      cases hchildren : (childIdsByParent edges id).mapM (assembleTree edges nodesById depth) with
      | error e =>
        rw [hchildren] at htree
        cases htree
      | ok children =>
        obtain ⟨_, hok⟩ := mapM_eq_ok hchildren child (mem_childIdsByParent.2 hchild)
        rw [herror] at hok
        cases hok

end Assemble

/-! ## The edges as of an instant -/

variable {s t : State} {asOf : ℤ}

theorem parentAsOf_iff {a b : ℕ} : s.ParentAsOf asOf a b ↔
    ∃ columns, columnsAsOf s.history a asOf = some columns ∧ columns.parentOrgUnitId = some b := by
  constructor
  · rintro ⟨v, hv, hparent⟩
    exact ⟨v.columns, Option.map_eq_some_iff.2 ⟨v, hv, rfl⟩, hparent⟩
  · rintro ⟨columns, hcolumns, hparent⟩
    obtain ⟨v, hv, rfl⟩ := Option.map_eq_some_iff.1 hcolumns
    exact ⟨v, hv, hparent⟩

theorem edgeOf_edgesAsOf (hinv : Inv s) (asOf : ℤ) :
    EdgeOf (s.edgesAsOf asOf) = s.ParentAsOf asOf := by
  ext a b
  simp only [EdgeOf, State.edgesAsOf, State.findAllAsOf, mem_map, mem_filter,
    decide_eq_true_eq, TreeEdge.mk.injEq, State.ParentAsOf, State.findVersionAsOf,
    asOf_eq_some hinv.lineages]
  constructor
  · rintro ⟨v, ⟨hv, hvalid⟩, hkey, hparent⟩
    exact ⟨v, ⟨hv, hkey, hvalid⟩, hparent⟩
  · rintro ⟨v, ⟨hv, hkey, hvalid⟩, hparent⟩
    exact ⟨v, ⟨hv, hvalid⟩, hkey, hparent⟩

theorem nodesAsOf_isSome : ∀ edge ∈ s.edgesAsOf asOf, (s.nodesAsOf asOf edge.id).isSome := by
  intro edge hedge
  obtain ⟨v, hv, rfl⟩ := mem_map.1 hedge
  rw [State.nodesAsOf, Option.isSome_map, lookup_isSome]
  exact mem_map_of_mem (mem_reverse.2 hv)

/-- Without a cycle the building of the trees as of an instant ends. -/
theorem hierarchyEnds_asOf (hinv : Inv s) (hacyclic : ∀ id, ¬ TransGen (s.ParentAsOf asOf) id id)
    (rootId : ℕ) : s.HierarchyEnds rootId (some asOf) := by
  rw [← edgeOf_edgesAsOf hinv] at hacyclic
  obtain ⟨n, hn⟩ := assembleTree_ends (s.nodesAsOf asOf) hacyclic rootId
  refine ⟨n, fun depth hdepth => ?_⟩
  simp only [State.getHierarchy, State.getHierarchyAsOf]
  split
  · exact fun herror => by cases herror
  · exact hn depth hdepth

/-- From a unit on a cycle the building does not end. -/
theorem getHierarchyAsOf_of_cycle (hinv : Inv s) {id : ℕ}
    (hcycle : TransGen (s.ParentAsOf asOf) id id) (depth : ℕ) :
    s.getHierarchyAsOf depth id asOf = .error .unfinished := by
  obtain ⟨_, ⟨v, hv, -⟩, -⟩ := TransGen.head'_iff.1 hcycle
  rw [← edgeOf_edgesAsOf hinv] at hcycle
  rw [State.getHierarchyAsOf, hv]
  exact assembleTree_of_cycle nodesAsOf_isSome depth hcycle

theorem forest_iff (hinv : Inv s) :
    s.Forest ↔ ∀ asOf id, ¬ TransGen (s.ParentAsOf asOf) id id :=
  ⟨fun h asOf => (h asOf).1, fun h asOf => ⟨h asOf, hierarchyEnds_asOf hinv (h asOf)⟩⟩

/-! ## The hierarchy of now -/

/-- The unit is in the tree. -/
inductive OrgUnitSnapshot.Holds (x : ℕ) : OrgUnitSnapshot → Prop
  | root {columns children} : Holds x (.node x columns children)
  | under {id columns children child} (hchild : child ∈ children) (h : Holds x child) :
      Holds x (.node id columns children)

/-- The tree has the units that the edges lead from to its root. -/
theorem holds_assembleTree {edges : List TreeEdge} {nodesById : ℕ → Option OrgUnitColumns} (x : ℕ) :
    ∀ {depth id : ℕ} {tree : OrgUnitSnapshot}, assembleTree edges nodesById depth id = .ok tree →
      (tree.Holds x ↔ ReflTransGen (EdgeOf edges) x id)
  | 0, _, _, h => nomatch h
  | depth + 1, id, tree, h => by
    rw [assembleTree] at h
    split at h
    · cases h
    · cases hchildren : (childIdsByParent edges id).mapM (assembleTree edges nodesById depth) with
      | error e =>
        rw [hchildren] at h
        cases h
      | ok children =>
        rw [hchildren] at h
        cases h
        have hbelow := forall₂_iff_get.1 (mapM_eq_ok_iff.1 hchildren)
        constructor
        · rintro (_ | ⟨hchild, hx⟩)
          · exact .refl
          · obtain ⟨i, rfl⟩ := get_of_mem hchild
            have htree := hbelow.2 i (by omega) i.isLt
            exact ((holds_assembleTree x htree).1 hx).tail (mem_childIdsByParent.1 (get_mem _ _))
        · intro hway
          rcases ReflTransGen.cases_tail hway with rfl | ⟨childId, hrest, hedge⟩
          · exact .root
          · obtain ⟨i, rfl⟩ := get_of_mem (mem_childIdsByParent.2 hedge)
            have htree := hbelow.2 i i.isLt (by omega)
            exact .under (get_mem _ _) ((holds_assembleTree x htree).2 hrest)

theorem State.Tree.parentEdge_of_currentEdge (htree : s.Tree) {rootId a b : ℕ}
    (h : EdgeOf (s.currentEdges rootId) a b) : ∃ u w, s.ParentEdge u w ∧ u.id = a ∧ w.id = b := by
  obtain ⟨u, hu, heq⟩ := mem_map.1 h
  obtain ⟨hid, hparent⟩ := TreeEdge.mk.inj heq
  have hmem : u ∈ s.units := by
    unfold State.findSubtree at hu
    split at hu
    · cases hu
    · exact (mem_filter.1 hu).1
  obtain ⟨w, hw, hkey, -⟩ := htree.child u hmem b hparent
  exact ⟨u, w, ⟨hmem, hw, hparent.trans (congrArg some hkey.symm)⟩, hid, hkey⟩

theorem State.Tree.transGen_of_currentEdges (htree : s.Tree) {rootId a b : ℕ}
    (h : TransGen (EdgeOf (s.currentEdges rootId)) a b) :
    ∃ u w, TransGen s.ParentEdge u w ∧ w ∈ s.units ∧ u.id = a ∧ w.id = b := by
  induction h with
  | single hedge =>
    obtain ⟨u, w, hparent, hid, hwid⟩ := htree.parentEdge_of_currentEdge hedge
    exact ⟨u, w, .single hparent, hparent.2.1, hid, hwid⟩
  | tail _ hedge ih =>
    obtain ⟨u, w, hway, hw, hid, hwid⟩ := ih
    obtain ⟨w', z, hparent, hid', hzid⟩ := htree.parentEdge_of_currentEdge hedge
    obtain rfl := htree.key_inj w hw w' hparent.1 (hwid.trans hid'.symm)
    exact ⟨u, z, hway.tail hparent, hparent.2.1, hid, hzid⟩

theorem State.Tree.hierarchyEnds (htree : s.Tree) (rootId : ℕ) : s.HierarchyEnds rootId none := by
  have hacyclic : ∀ id, ¬ TransGen (EdgeOf (s.currentEdges rootId)) id id := by
    intro id hcycle
    obtain ⟨u, w, hway, hw, hid, hwid⟩ := htree.transGen_of_currentEdges hcycle
    have hu : u ∈ s.units := (TransGen.head'_iff.1 hway).elim fun _ h => h.1.1
    rw [htree.key_inj u hu w hw (hid.trans hwid.symm)] at hway
    exact htree.acyclic w hway
  obtain ⟨n, hn⟩ := assembleTree_ends (s.currentNodes rootId) hacyclic rootId
  refine ⟨n, fun depth hdepth => ?_⟩
  simp only [State.getHierarchy, State.getCurrentHierarchy]
  split
  · exact fun herror => by cases herror
  · exact hn depth hdepth

theorem State.Tree.currentEdges_iff (htree : s.Tree) {r : OrgUnit} (hr : r ∈ s.units) (x : ℕ) :
    ReflTransGen (EdgeOf (s.currentEdges r.id)) x r.id ↔
      ∃ u ∈ s.units, u.id = x ∧ ReflTransGen s.ParentEdge u r := by
  constructor
  · intro hway
    induction hway using ReflTransGen.head_induction_on with
    | refl => exact ⟨r, hr, rfl, .refl⟩
    | head hedge _ ih =>
      obtain ⟨u, w, hparent, hid, hwid⟩ := htree.parentEdge_of_currentEdge hedge
      obtain ⟨w', hw', hid', hbelow⟩ := ih
      obtain rfl := htree.key_inj w hparent.2.1 w' hw' (hwid.trans hid'.symm)
      exact ⟨u, hparent.1, hid, .head hparent hbelow⟩
  · rintro ⟨u, hu, rfl, hbelow⟩
    induction hbelow using ReflTransGen.head_induction_on with
    | refl => exact .refl
    | head hparent hrest ih =>
      rename_i u w
      have hin : u ∈ s.findSubtree r.id :=
        (htree.mem_findSubtree hr u).2 ⟨hu, (htree.prefix_iff hu hr).2 (.head hparent hrest)⟩
      refine .head (b := w.id) (mem_map.2 ⟨u, hin, ?_⟩) (ih hparent.2.1)
      rw [hparent.2.2]

/-- **The hierarchy of now is complete.** After every sequence of statements it is built for every
unit, and has the unit and the units below it. -/
theorem getCurrentHierarchy_complete {as : List Action} (h : exec step State.init as = some s)
    {r : OrgUnit} (hr : r ∈ s.units) :
    ∃ n, ∀ depth ≥ n, ∃ tree, s.getHierarchy depth r.id none = .ok tree ∧
      ∀ x, tree.Holds x ↔ ∃ u ∈ s.units, u.id = x ∧ ReflTransGen s.ParentEdge u r := by
  have htree := tree_of_exec h
  have hroot : r ∈ s.findSubtree r.id := (htree.mem_findSubtree hr r).2 ⟨hr, prefix_rfl⟩
  have hnodes : ∀ u ∈ s.findSubtree r.id, (s.currentNodes r.id u.id).isSome := by
    intro u hu
    rw [State.currentNodes, Option.isSome_map, lookup_isSome]
    exact mem_map_of_mem (mem_reverse.2 hu)
  obtain ⟨n, hn⟩ := htree.hierarchyEnds r.id
  refine ⟨n, fun depth hdepth => ?_⟩
  have hends := hn depth hdepth
  have hbuild : s.getHierarchy depth r.id none =
      assembleTree (s.currentEdges r.id) (s.currentNodes r.id) depth r.id :=
    if_neg fun hempty => ne_nil_of_mem hroot (isEmpty_iff.1 hempty)
  rw [hbuild] at hends ⊢
  cases hresult : assembleTree (s.currentEdges r.id) (s.currentNodes r.id) depth r.id with
  | error e =>
    refine absurd (hresult.trans (congrArg _ ?_)) hends
    refine eq_unfinished (fun edge hedge => ?_) (hnodes r hroot) hresult
    obtain ⟨u, hu, rfl⟩ := mem_map.1 hedge
    exact hnodes u hu
  | ok tree =>
    exact ⟨tree, rfl, fun x => (holds_assembleTree x hresult).trans (htree.currentEdges_iff hr x)⟩

theorem reorganisation_hierarchy : ∃ s r, exec step State.init reorganisation = some s ∧
    r ∈ s.units ∧ r.id = 4 ∧ ∃ n, ∀ depth ≥ n, ∃ tree, s.getHierarchy depth 4 none = .ok tree ∧
      ∀ x, tree.Holds x ↔ ∃ u ∈ s.units, u.id = x ∧ ReflTransGen s.ParentEdge u r := by
  obtain ⟨s, hs, hunit⟩ : ∃ s, exec step State.init reorganisation = some s ∧
      ∃ r ∈ s.units, r.id = 4 := exists_exec (by decide)
  obtain ⟨r, hr, hid⟩ := hunit
  exact ⟨s, r, hs, hr, hid, hid ▸ getCurrentHierarchy_complete hs hr⟩

/-! ## Steps -/

/-- The parents as of all instants have no cycle. -/
abbrev State.Acyclic (s : State) : Prop := ∀ asOf id, ¬ TransGen (s.ParentAsOf asOf) id id

section Change

variable {id : ℕ} {effectiveAt : ℤ} {columns : OrgUnitColumns}

/-- A unit gets columns with effect from an instant on. The parents have no cycle afterwards exactly
when at no instant from there on the new parent leads to the unit. -/
theorem acyclic_change_iff (hacyclic : s.Acyclic)
    (hchange : ∀ k asOf, columnsAsOf t.history k asOf =
      if k = id ∧ effectiveAt ≤ asOf then some columns else columnsAsOf s.history k asOf) :
    t.Acyclic ↔ ∀ p, columns.parentOrgUnitId = some p → ∀ asOf, effectiveAt ≤ asOf →
      ¬ ReflTransGen (s.ParentAsOf asOf) p id := by
  have hparent : ∀ asOf a b, t.ParentAsOf asOf a b ↔
      if a = id ∧ effectiveAt ≤ asOf then columns.parentOrgUnitId = some b
      else s.ParentAsOf asOf a b := by
    intro asOf a b
    rw [parentAsOf_iff, hchange]
    split
    · simp
    · rw [parentAsOf_iff]
  have hbefore : ∀ asOf, ¬ effectiveAt ≤ asOf → t.ParentAsOf asOf = s.ParentAsOf asOf := by
    intro asOf hlt
    ext a b
    rw [hparent, if_neg fun h => hlt h.2]
  have hredirect : ∀ {p asOf}, columns.parentOrgUnitId = some p → effectiveAt ≤ asOf →
      t.ParentAsOf asOf = Redirect (s.ParentAsOf asOf) id p := by
    intro p asOf hp hle
    ext a b
    rw [hparent, Redirect]
    by_cases ha : a = id
    · simp [ha, hle, hp, eq_comm]
    · simp [ha]
  constructor
  · intro ht p hp asOf hle
    rw [← acyclic_redirect_iff (hacyclic asOf), ← hredirect hp hle]
    exact ht asOf
  · intro hno asOf
    by_cases hle : effectiveAt ≤ asOf
    · cases hp : columns.parentOrgUnitId with
      | some p =>
        rw [hredirect hp hle, acyclic_redirect_iff (hacyclic asOf)]
        exact hno p hp asOf hle
      | none =>
        -- a unit that becomes a root only loses an edge
        have hsub : ∀ a b, t.ParentAsOf asOf a b → s.ParentAsOf asOf a b := by
          intro a b
          rw [hparent, hp]
          split
          · exact fun h => by cases h
          · exact fun h => h
        exact fun k hcycle => hacyclic asOf k (TransGen.mono hsub k k hcycle)
    · rw [hbefore asOf hle]
      exact hacyclic asOf

end Change

theorem acyclic_insert (hinv : Inv s) (hacyclic : s.Acyclic) {id : ℕ} {columns : OrgUnitColumns}
    (h : s.insert id columns = .ok t) : t.Acyclic := by
  obtain ⟨hfresh, -⟩ := insert_ok h
  refine (acyclic_change_iff hacyclic (columnsAsOf_insert hinv h)).2 fun p hp asOf _ hway => ?_
  rcases ReflTransGen.cases_tail hway with heq | ⟨a, -, v, hv, hparent⟩
  · exact hfresh (heq ▸ parent_of_insert h hp)
  · have hmem := ((asOf_eq_some hinv.lineages).1 hv).1
    exact hfresh (hinv.parent v hmem id hparent)

section Update

variable {old : OrgUnit} {patch : OrgUnitPatch} {effectiveAt : Option ℤ}

theorem acyclic_updateRow_iff (hinv : Inv s) (hacyclic : s.Acyclic)
    (hold : old ∈ s.units) (h : s.updateRow old patch effectiveAt = .ok t) :
    t.Acyclic ↔ ∀ p, (patch.apply old.columns).parentOrgUnitId = some p →
      old.columns.parentOrgUnitId ≠ some p →
        ∀ asOf, effectiveAt.getD s.clock ≤ asOf → ¬ ReflTransGen (s.ParentAsOf asOf) p old.id := by
  by_cases hsame : patch.apply old.columns = old.columns
  · rw [hsame]
    refine iff_of_true (fun asOf => ?_) fun p hp hne => absurd hp hne
    have hhistory := history_updateRow_of_eq hinv hold h hsame
    have hparents : t.ParentAsOf asOf = s.ParentAsOf asOf := by
      ext a b
      rw [parentAsOf_iff, parentAsOf_iff, hhistory]
    rw [hparents]
    exact hacyclic asOf
  · rw [acyclic_change_iff hacyclic (columnsAsOf_updateRow hinv hold h hsame)]
    refine forall₂_congr fun p hp => ⟨fun hno _ => hno, fun hno asOf hle hway => ?_⟩
    by_cases hparent : old.columns.parentOrgUnitId = some p
    · -- the unit has had this parent already
      have hedge : s.ParentAsOf asOf old.id p :=
        parentAsOf_iff.2 ⟨old.columns, columnsAsOf_old hinv hold h hsame hle, hparent⟩
      exact hacyclic asOf old.id (.head' hedge hway)
    · exact hno hparent asOf hle hway

end Update

/-- A step keeps the forests exactly when it puts no unit below itself. -/
theorem forest_step_iff (hinv : Inv s) (hforest : s.Forest) {a : Action}
    (h : step s a = some t) : t.Forest ↔ a.NotBelow s := by
  rw [forest_iff (hinv.step h)]
  have hacyclic : s.Acyclic := (forest_iff hinv).1 hforest
  cases a with
  | tick d =>
    cases h
    exact iff_of_true hacyclic trivial
  | insert id columns =>
    exact iff_of_true (acyclic_insert hinv hacyclic (toOption_eq_some h)) trivial
  | update id patch effectiveAt =>
    rcases update_ok (toOption_eq_some h) with ⟨hnone, rfl⟩ | ⟨old, hfind, hrow⟩
    · refine iff_of_true hacyclic fun old hfind => ?_
      rw [hnone] at hfind
      cases hfind
    · obtain ⟨hold, rfl⟩ := mem_of_lookup hfind
      refine (acyclic_updateRow_iff hinv hacyclic hold hrow).trans ?_
      constructor
      · intro hno old' hfind'
        obtain rfl := Option.some.inj (hfind.symm.trans hfind')
        exact hno
      · exact fun hno => hno old hfind

theorem forest_init : State.init.Forest := by
  refine (forest_iff inv_init).2 fun asOf id hcycle => ?_
  obtain ⟨_, ⟨v, hv, -⟩, -⟩ := TransGen.head'_iff.1 hcycle
  cases hv

/-- Along every accepted run the hierarchies as of all instants are forests, and the building of a
tree ends for every unit and every instant, exactly when no unit ever gets a parent that is below it
at some instant from the effective date on. -/
theorem hierarchy_forest_iff {as : List Action} (h : exec step State.init as = some t) :
    Always step State.Forest State.init as ↔
      Meets step (fun s a => a.NotBelow s) State.init as :=
  always_iff_meets (I := fun s => Inv s ∧ s.Forest) (fun _ hI => hI.2)
    (fun _ _ _ hI hok hstep => ⟨hI.1.step hstep, (forest_step_iff hI.1 hI.2 hstep).2 hok⟩)
    (fun _ _ _ hI hno hstep hforest => hno ((forest_step_iff hI.1 hI.2 hstep).1 hforest))
    ⟨inv_init, forest_init⟩ h

/-! ## Two runs -/

/-- Two roots, of which one is put below the other. -/
def firstMove : List Action :=
  let columns : OrgUnitColumns := ⟨none, .department, "Support", "UTC", "DE", .active⟩
  [.insert 1 columns, .insert 2 columns, .tick 300,
    .update 2 ⟨some (some 1), none, none, none, none, none⟩ (some 150)]

theorem firstMove_forest : ∃ s, exec step State.init firstMove = some s ∧
    Always step State.Forest State.init firstMove := by
  obtain ⟨s, hs, -⟩ : ∃ s, exec step State.init firstMove = some s ∧ s.clock = 300 :=
    exists_exec (by decide)
  refine ⟨s, hs, (hierarchy_forest_iff hs).2 ?_⟩
  refine meets_cons.2 ⟨trivial, fun s₁ h₁ => meets_cons.2 ⟨trivial, fun s₂ h₂ =>
    meets_cons.2 ⟨trivial, fun s₃ h₃ => meets_cons.2 ⟨?_, fun _ _ => meets_nil⟩⟩⟩⟩
  have hroots : ∀ v ∈ s₃.history, v.columns.parentOrgUnitId = none := by
    cases h₁
    cases h₂
    cases h₃
    decide
  intro old _ p hp _ asOf _ hway
  obtain rfl : 1 = p := Option.some.inj hp
  -- the new parent is a root at every instant
  rcases ReflTransGen.cases_head hway with heq | ⟨_, ⟨v, hv, hparent⟩, -⟩
  · cases heq
  · rw [hroots v (mem_of_find?_eq_some hv)] at hparent
    cases hparent

/-- Two corrections of the past: a unit was below another for a while, and within that while the
other one was below the unit. -/
def corrections : List Action :=
  let columns : OrgUnitColumns := ⟨none, .department, "Support", "UTC", "DE", .active⟩
  let parent (parentOrgUnitId : Option ℕ) : OrgUnitPatch :=
    ⟨some parentOrgUnitId, none, none, none, none, none⟩
  [.insert 1 columns, .insert 2 columns, .tick 300, .update 1 (parent (some 2)) (some 100),
    .update 1 (parent none) (some 200), .update 2 (parent (some 1)) (some 150)]

theorem corrections_cycle : ∃ s, exec step State.init corrections = some s ∧
    TransGen (s.ParentAsOf 150) 1 1 ∧
    ∀ depth, s.getHierarchyAsOf depth 1 150 = .error .unfinished := by
  obtain ⟨s, hs, h₁, h₂⟩ : ∃ s, exec step State.init corrections = some s ∧
      (columnsAsOf s.history 1 150).map (·.parentOrgUnitId) = some (some 2) ∧
      (columnsAsOf s.history 2 150).map (·.parentOrgUnitId) = some (some 1) :=
    exists_exec (by decide)
  have hcycle : TransGen (s.ParentAsOf 150) 1 1 :=
    .tail (.single (parentAsOf_iff.2 (Option.map_eq_some_iff.1 h₁)))
      (parentAsOf_iff.2 (Option.map_eq_some_iff.1 h₂))
  exact ⟨s, hs, hcycle, getHierarchyAsOf_of_cycle (inv_of_exec hs) hcycle⟩

end Workforce.Org
