import Workforce.Org.Units
import Workforce.Foundations.Paths

/-!
# The tree of org units

Whatever units are created and moved, one statement after another, the path of a unit is that of its
parent followed by the unit itself. So the parents have no cycle, and the units whose path extends
that of a unit are the ones below it (`org_tree`).

An update gives the paths below a moved unit their new prefix in one pass: the triggers that this
pass fires find no unit left under a path of before (`afterUpdate_eq`).
-/

namespace Workforce.Org

open Runs Tables Versions Paths Relation List

/-! ## The tree -/

/-- The columns that make up the tree. -/
@[simps]
def treeColumns : Columns OrgUnit ℕ where
  key := OrgUnit.id
  parent := fun u => u.columns.parentOrgUnitId
  path := OrgUnit.path

/-- The units of a state. -/
def State.rows (s : State) : Set OrgUnit := {u | u ∈ s.units}

/-- The second unit is the parent of the first. -/
def State.ParentEdge (s : State) (u v : OrgUnit) : Prop :=
  u ∈ s.units ∧ v ∈ s.units ∧ u.columns.parentOrgUnitId = some v.id

/-- The path of a unit is that of its parent followed by the unit, and that of a root the root. -/
def State.PathsFollowParents (s : State) : Prop :=
  ∀ u ∈ s.units,
    match u.columns.parentOrgUnitId with
    | none => u.path = [u.id]
    | some parentOrgUnitId => ∃ p ∈ s.units, p.id = parentOrgUnitId ∧ u.path = p.path ++ [u.id]

/-- `findSubtree`. -/
def State.findSubtree (s : State) (rootId : ℕ) : List OrgUnit :=
  match s.pathOf rootId with
  | none => []
  | some path => s.units.filter fun u => path <+: u.path

/-- The invariant of the tree. -/
abbrev State.Tree (s : State) : Prop := Consistent treeColumns s.rows

variable {s t : State} {old new : OrgUnit} {effectiveAt : ℤ}

theorem pathOf_eq_some {id : ℕ} {path : List ℕ} (h : s.pathOf id = some path) :
    ∃ u ∈ s.units, u.id = id ∧ u.path = path := by
  obtain ⟨u, hu, hpath⟩ := Option.map_eq_some_iff.1 h
  obtain ⟨hmem, hid⟩ := mem_of_lookup hu
  exact ⟨u, hmem, hid, hpath⟩

/-! ## The trigger before an update -/

theorem State.Tree.place_self (h : s.Tree) (hold : old ∈ s.units) :
    Place treeColumns s.rows old old.columns.parentOrgUnitId old.path := by
  cases hparent : old.columns.parentOrgUnitId with
  | none => exact .inl ⟨rfl, h.root old hold hparent⟩
  | some k =>
    obtain ⟨p, hp, rfl, hpath⟩ := h.child old hold k hparent
    refine .inr ⟨p, hp, rfl, fun hunder => ?_, hpath⟩
    have hle := hunder.length_le
    rw [hpath, length_append, length_singleton] at hle
    omega

/-- What the trigger accepts is a place in the tree, and only the path is set. -/
theorem recomputePath_ok (h : s.Tree) (hold : old ∈ s.units) {row : OrgUnit}
    (hrow : recomputePath s old new = .ok row) (hid : new.id = old.id)
    (hpath : new.path = old.path) :
    (∃ path, row = { new with path := path }) ∧
      Place treeColumns s.rows old row.columns.parentOrgUnitId row.path := by
  unfold recomputePath at hrow
  split at hrow
  case isFalse hsame =>
    cases hrow
    rw [not_not] at hsame
    refine ⟨⟨new.path, rfl⟩, ?_⟩
    rw [hsame, hpath]
    exact h.place_self hold
  case isTrue =>
    split at hrow
    case h_1 hnone =>
      cases hrow
      exact ⟨⟨_, rfl⟩, .inl ⟨hnone, congrArg (fun id => [id]) hid⟩⟩
    case h_2 parentOrgUnitId hsome =>
      split at hrow
      case h_1 => cases hrow
      case h_2 parentPath hparent =>
        split at hrow
        case isTrue => cases hrow
        case isFalse hunder =>
          cases hrow
          obtain ⟨p, hp, rfl, rfl⟩ := pathOf_eq_some hparent
          exact ⟨⟨_, rfl⟩, .inr ⟨p, hp, hsome, hunder, congrArg (fun id => p.path ++ [id]) hid⟩⟩

/-! ## The triggers after an update -/

theorem historyTrack_ok (h : historyTrack effectiveAt s old new = .ok t) :
    (new.columns = old.columns ∧ t = s) ∨
      ∃ history, supersede s.history new.id effectiveAt new.columns = some history ∧
        t = { s with history := history } := by
  unfold historyTrack at h
  split at h
  case isFalse hsame => exact .inl ⟨not_not.1 hsame, (Except.ok.inj h).symm⟩
  case isTrue =>
    split at h
    case h_1 => cases h
    case h_2 history hsome => exact .inr ⟨history, hsome, (Except.ok.inj h).symm⟩

theorem historyTrack_units (h : historyTrack effectiveAt s old new = .ok t) :
    t.units = s.units := by
  rcases historyTrack_ok h with ⟨-, rfl⟩ | ⟨_, -, rfl⟩ <;> rfl

theorem historyTrack_of_eq (h : new.columns = old.columns) :
    historyTrack effectiveAt s old new = .ok s := by
  simp [historyTrack, h]

/-- The triggers of a unit do nothing when no unit is under its old path and no tracked column has
changed. -/
theorem afterUpdate_of_forall_not_prefix {depth : ℕ} (hcolumns : new.columns = old.columns)
    (hunder : ∀ u ∈ s.units, ¬ old.path <+: u.path) :
    afterUpdate effectiveAt (depth + 1) s old new = .ok s := by
  have hcascade : cascadePath (afterUpdate effectiveAt depth) s old new = .ok s := by
    have htargets : s.units.filter (old.cascades new) = [] := by
      rw [filter_eq_nil_iff]
      intro u hu
      simp [OrgUnit.cascades, hunder u hu]
    have hmap : (s.units.map fun u => if old.cascades new u then old.cascade new u else u)
        = s.units := by
      rw [map_congr_left (g := id), map_id]
      intro u hu
      simp [OrgUnit.cascades, hunder u hu]
    rw [cascadePath, htargets, hmap]
    rfl
  rw [afterUpdate, hcascade, ite_self]
  exact historyTrack_of_eq hcolumns

theorem foldlM_of_forall {σ α ε : Type*} {f : σ → α → Except ε σ} {b : σ} {l : List α}
    (h : ∀ a ∈ l, f b a = .ok b) : l.foldlM f b = .ok b := by
  induction l with
  | nil => rfl
  | cons a l ih =>
    rw [foldlM_cons, h a mem_cons_self]
    exact ih fun a' ha' => h a' (mem_cons_of_mem _ ha')

/-- What the update of a unit does to the units: it is replaced, and the paths under its old one
get the new prefix. -/
def moved (old new u : OrgUnit) : OrgUnit :=
  if u.id = old.id then new else if old.path <+: u.path then old.cascade new u else u

theorem moved_id (hid : new.id = old.id) (u : OrgUnit) : (moved old new u).id = u.id := by
  unfold moved
  split
  case isTrue heq => exact hid.trans heq.symm
  case isFalse => split <;> rfl

theorem map_moved (hid : new.id = old.id) :
    (modify (·.id) old.id (fun _ => new) s.units).map
      (fun u => if old.cascades new u then old.cascade new u else u)
      = s.units.map (moved old new) := by
  rw [Tables.modify, List.map_map]
  refine List.map_congr_left fun u _ => ?_
  by_cases hu : u.id = old.id
  · simp [moved, hu, OrgUnit.cascades]
  · simp [moved, hu, OrgUnit.cascades, hid]

theorem moved_of_path_eq {u : OrgUnit} (hpath : old.path = new.path) (hne : u.id ≠ old.id) :
    moved old new u = u := by
  rw [moved, if_neg hne]
  split
  case isTrue hunder => rw [OrgUnit.cascade, ← hpath, prefix_iff_eq_append.1 hunder]
  case isFalse => rfl

theorem map_moved_of_path_eq (hpath : old.path = new.path) :
    s.units.map (moved old new) = modify (·.id) old.id (fun _ => new) s.units := by
  refine map_congr_left fun u _ => ?_
  by_cases hu : u.id = old.id
  · simp [moved, hu]
  · rw [moved_of_path_eq hpath hu, if_neg hu]

section Update

variable (h : s.Tree) (hold : old ∈ s.units) (hid : new.id = old.id)
  (hplace : Place treeColumns s.rows old new.columns.parentOrgUnitId new.path)

include h hold hid hplace

omit hid in
theorem not_prefix_moved (hdiff : old.path ≠ new.path) (u : OrgUnit) :
    ¬ old.path <+: (moved old new u).path := by
  have hno := h.not_prefix_append hold hplace hdiff
  unfold moved
  split
  · simpa using hno []
  · split
    · exact hno _
    · assumption

/-- The pass over the units below a moved one is the only one that changes a path. -/
theorem cascadePath_eq {depth : ℕ} (hdiff : old.path ≠ new.path) :
    cascadePath (afterUpdate effectiveAt (depth + 1))
      { s with units := modify (·.id) old.id (fun _ => new) s.units } old new
      = .ok { s with units := s.units.map (moved old new) } := by
  have htarget : ∀ u ∈ (modify (·.id) old.id (fun _ => new) s.units).filter (old.cascades new),
      u ∈ s.units ∧ u ≠ old ∧ old.path <+: u.path := by
    intro u hu
    obtain ⟨hu, hcascades⟩ := mem_filter.1 hu
    obtain ⟨hunder, hother⟩ := OrgUnit.cascades_iff.1 hcascades
    rcases mem_modify.1 hu with ⟨_, -, -, rfl⟩ | ⟨hu, hne⟩
    · exact absurd rfl hother
    · exact ⟨hu, fun heq => hne (congrArg OrgUnit.id heq), hunder⟩
  have hpositions : ¬ ((modify (·.id) old.id (fun _ => new) s.units).filter (old.cascades new)).any
      (fun u => u.path.length ≤ old.path.length) = true := by
    rw [any_eq_true]
    rintro ⟨u, hu, hle⟩
    obtain ⟨hmem, hne, hunder⟩ := htarget u hu
    have heq : old.path = u.path := hunder.eq_of_length_le (of_decide_eq_true hle)
    exact hne (h.eq_of_path hmem hold heq.symm)
  unfold cascadePath
  simp only
  rw [if_neg hpositions, map_moved hid]
  refine foldlM_of_forall fun u hu => ?_
  obtain ⟨-, -, hunder⟩ := htarget u hu
  refine afterUpdate_of_forall_not_prefix rfl fun v hv hprefix => ?_
  obtain ⟨w, -, rfl⟩ := mem_map.1 hv
  exact not_prefix_moved h hold hplace hdiff w (hunder.trans hprefix)

/-- The triggers after the update of a unit, where `s` is the state before it. -/
theorem afterUpdate_eq (depth : ℕ) :
    afterUpdate effectiveAt (depth + 2)
      { s with units := modify (·.id) old.id (fun _ => new) s.units } old new
      = historyTrack effectiveAt { s with units := s.units.map (moved old new) } old new := by
  rw [afterUpdate]
  by_cases hpath : old.path = new.path
  · rw [if_neg (not_not.2 hpath), map_moved_of_path_eq hpath]
    rfl
  · rw [if_pos hpath, cascadePath_eq h hold hid hplace hpath]
    rfl

theorem moves_moved :
    Moves treeColumns s.rows old new.columns.parentOrgUnitId new.path (moved old new) := by
  have hself : moved old new old = new := by simp [moved]
  have hother : ∀ u ∈ s.units, u ≠ old → u.id ≠ old.id := fun u hu hne heq =>
    hne (h.key_inj u hu old hold heq)
  refine ⟨fun u _ => ?_, by simp [hself], fun u hu hne => ?_, by simp [hself],
    fun u hu hne hunder => ?_, fun u hu hunder => ?_⟩ <;>
    simp only [treeColumns_key, treeColumns_parent, treeColumns_path] at *
  · exact moved_id hid u
  · rw [moved, if_neg (hother u hu hne)]
    split <;> rfl
  · rw [moved, if_neg (hother u hu hne), if_pos hunder]
    rfl
  · have hne : u ≠ old := by
      rintro rfl
      exact hunder (prefix_refl _)
    rw [moved, if_neg (hother u hu hne), if_neg hunder]

theorem State.Tree.map_moved : Consistent treeColumns {u | u ∈ s.units.map (moved old new)} := by
  have himage : {u | u ∈ s.units.map (moved old new)} = Set.image (moved old new) s.rows := by
    ext u
    simp [State.rows]
  rw [himage]
  exact h.move hold hplace (moves_moved h hold hid hplace)

end Update

/-! ## The statements -/

theorem insert_ok {id : ℕ} {columns : OrgUnitColumns} (h : s.insert id columns = .ok t) :
    id ∉ s.units.map (·.id) ∧ ∃ path,
      setPath s ⟨id, columns, [], s.clock⟩ = .ok ⟨id, columns, path, s.clock⟩ ∧
      t = { s with
        units := s.units ++ [⟨id, columns, path, s.clock⟩]
        history := s.history ++ [⟨id, s.clock, none, columns⟩] } := by
  obtain ⟨new, hpath, h⟩ := bind_eq_ok h
  obtain ⟨path, rfl⟩ : ∃ path, new = ⟨id, columns, path, s.clock⟩ := by
    unfold setPath at hpath
    split at hpath
    · exact ⟨_, (Except.ok.inj hpath).symm⟩
    · split at hpath
      · cases hpath
      · exact ⟨_, (Except.ok.inj hpath).symm⟩
  split at h
  case isTrue => cases h
  case isFalse hfresh =>
    split at h
    · cases h
    · exact ⟨hfresh, path, hpath, (Except.ok.inj h).symm⟩

variable {patch : OrgUnitPatch} {effectiveAt : Option ℤ}

theorem updateRow_ok (htree : s.Tree) (hold : old ∈ s.units)
    (h : s.updateRow old patch effectiveAt = .ok t) :
    ∃ path,
      let new : OrgUnit := ⟨old.id, patch.apply old.columns, path, old.createdAt⟩
      recomputePath s old { old with columns := patch.apply old.columns } = .ok new ∧
      Place treeColumns s.rows old new.columns.parentOrgUnitId path ∧
      historyTrack (effectiveAt.getD s.clock) { s with units := s.units.map (moved old new) }
        old new = .ok t := by
  obtain ⟨new, hpath, h⟩ := bind_eq_ok h
  obtain ⟨⟨path, rfl⟩, hplace⟩ := recomputePath_ok htree hold hpath rfl rfl
  split at h
  · cases h
  · refine ⟨path, hpath, hplace, ?_⟩
    rw [← h, maxTriggerDepth, afterUpdate_eq htree hold ?_ hplace 98]
    rfl

theorem State.Tree.insert (htree : s.Tree) {id : ℕ} {columns : OrgUnitColumns}
    (h : s.insert id columns = .ok t) : t.Tree := by
  obtain ⟨hfresh, path, hpath, rfl⟩ := insert_ok h
  have hunion : State.rows { s with
      units := s.units ++ [⟨id, columns, path, s.clock⟩]
      history := s.history ++ [⟨id, s.clock, none, columns⟩] } =
      s.rows ∪ {⟨id, columns, path, s.clock⟩} := by
    ext u
    simp [State.rows, or_comm]
  rw [State.Tree, hunion]
  refine Consistent.insert htree (fun u hu heq => hfresh ?_) ?_
  · rw [mem_map]
    exact ⟨u, hu, heq⟩
  · unfold setPath at hpath
    split at hpath
    case h_1 hnone =>
      exact .inl ⟨hnone, (congrArg OrgUnit.path (Except.ok.inj hpath)).symm⟩
    case h_2 parentOrgUnitId hsome =>
      split at hpath
      case h_1 => cases hpath
      case h_2 parentPath hparent =>
        obtain ⟨p, hp, rfl, rfl⟩ := pathOf_eq_some hparent
        exact .inr ⟨p, hp, hsome, (congrArg OrgUnit.path (Except.ok.inj hpath)).symm⟩

theorem State.Tree.updateRow (htree : s.Tree) (hold : old ∈ s.units)
    (h : s.updateRow old patch effectiveAt = .ok t) : t.Tree := by
  obtain ⟨path, -, hplace, htrack⟩ := updateRow_ok htree hold h
  rw [State.Tree, State.rows, historyTrack_units htrack]
  exact htree.map_moved hold rfl hplace

/-- What an accepted update does: nothing, or it updates the row with the id. -/
theorem update_ok {id : ℕ} (h : s.update id patch effectiveAt = .ok t) :
    (s.findById id = none ∧ t = s) ∨
      ∃ old, s.findById id = some old ∧ s.updateRow old patch effectiveAt = .ok t := by
  unfold State.update at h
  split at h
  case h_1 hnone => exact .inl ⟨hnone, (Except.ok.inj h).symm⟩
  case h_2 old hfind => exact .inr ⟨old, hfind, h⟩

theorem State.Tree.step {a : Action} (htree : s.Tree) (h : step s a = some t) : t.Tree := by
  cases a with
  | tick d =>
    cases h
    exact htree
  | insert id columns => exact htree.insert (toOption_eq_some h)
  | update id patch effectiveAt =>
    rcases update_ok (toOption_eq_some h) with ⟨-, rfl⟩ | ⟨old, hfind, hrow⟩
    · exact htree
    · exact htree.updateRow (mem_of_lookup hfind).1 hrow

theorem tree_init : State.init.Tree := ⟨by simp [State.init, State.rows],
  by simp [State.init, State.rows], by simp [State.init, State.rows]⟩

theorem tree_of_exec {as : List Action} (h : exec step State.init as = some s) : s.Tree :=
  exec_keeps State.Tree (fun _ _ _ htree hstep => htree.step hstep) tree_init h

/-! ## What the invariant says -/

theorem State.Tree.pathsFollowParents (h : s.Tree) : s.PathsFollowParents := by
  intro u hu
  split
  case h_1 hnone => exact h.root u hu hnone
  case h_2 parentOrgUnitId hsome => exact h.child u hu parentOrgUnitId hsome

theorem State.Tree.findById_eq (h : s.Tree) {u : OrgUnit} (hu : u ∈ s.units) :
    s.findById u.id = some u := by
  obtain ⟨u', hu'⟩ : ∃ u', s.findById u.id = some u' := by
    rw [← Option.isSome_iff_exists, State.findById, lookup_isSome]
    exact mem_map_of_mem hu
  obtain ⟨hmem, hid⟩ := mem_of_lookup hu'
  rw [hu', h.key_inj u' hmem u hu hid]

theorem State.Tree.mem_findSubtree (h : s.Tree) {r : OrgUnit} (hr : r ∈ s.units) (u : OrgUnit) :
    u ∈ s.findSubtree r.id ↔ u ∈ s.units ∧ r.path <+: u.path := by
  simp [State.findSubtree, State.pathOf, h.findById_eq hr]

/-- After every sequence of statements: each path is the parent's followed by the unit's own id, the
parents have no cycle, and the paths that extend that of a unit are those of the units below it and
its own. These are the units that `findSubtree` returns. -/
theorem org_tree {as : List Action} (h : exec step State.init as = some s) :
    s.PathsFollowParents ∧ (∀ u, ¬ TransGen s.ParentEdge u u) ∧
      (∀ r ∈ s.units, ∀ u ∈ s.units, r.path <+: u.path ↔ ReflTransGen s.ParentEdge u r) ∧
      ∀ r ∈ s.units, ∀ u, u ∈ s.findSubtree r.id ↔
        u ∈ s.units ∧ ReflTransGen s.ParentEdge u r := by
  have htree := tree_of_exec h
  refine ⟨htree.pathsFollowParents, htree.acyclic, fun r hr u hu => htree.prefix_iff hu hr,
    fun r hr u => ?_⟩
  rw [htree.mem_findSubtree hr]
  exact and_congr_right fun hu => htree.prefix_iff hu hr

/-- A department moves to another root with the team below it. -/
def reorganisation : List Action :=
  let columns (parentOrgUnitId : Option ℕ) : OrgUnitColumns :=
    ⟨parentOrgUnitId, .department, "Support", "UTC", "DE", .active⟩
  [.insert 1 (columns none), .insert 2 (columns (some 1)), .insert 3 (columns (some 2)),
    .insert 4 (columns none), .tick 1, .update 2 ⟨some (some 4), none, none, none, none, none⟩ none]

theorem reorganisation_tree : ∃ s, exec step State.init reorganisation = some s ∧
    s.units.map (·.path) = [[1], [4, 2], [4, 2, 3], [4]] ∧ s.PathsFollowParents := by
  obtain ⟨s, hs, hpaths⟩ : ∃ s, exec step State.init reorganisation = some s ∧
      s.units.map (·.path) = [[1], [4, 2], [4, 2, 3], [4]] := exists_exec (by decide)
  exact ⟨s, hs, hpaths, (org_tree hs).1⟩

end Workforce.Org
