import Workforce.Org.Tree

/-!
# The history of org units

Every unit has an open version with its columns, and the versions of a unit come one after the
other (`Inv`). A change of a unit with effect from an instant on is what is valid from there on, and
what was valid before it stays so (`columnsAsOf_insert`, `columnsAsOf_updateRow`).
-/

namespace Workforce.Org

open Runs Tables Versions Paths List

namespace State

variable (s : State)

/-- `findVersionAsOf` of the history. -/
def findVersionAsOf (orgUnitId : ℕ) (asOf : ℤ) : Option OrgUnitHistory :=
  Versions.asOf s.history orgUnitId asOf

/-- `findAllAsOf`. -/
def findAllAsOf (asOf : ℤ) : List OrgUnitHistory :=
  s.history.filter fun v => v.window.Contains asOf

end State

/-! ## The invariant -/

structure Inv (s : State) : Prop where
  tree : s.Tree
  lineages : Lineages s.history
  /-- The open version of a unit has its columns. -/
  live : ∀ u ∈ s.units, Current s.history u.id u.columns
  /-- The versions are of units. -/
  unit : ∀ v ∈ s.history, v.key ∈ s.units.map (·.id)
  /-- So are the parents they name. -/
  parent : ∀ v ∈ s.history, ∀ p ∈ v.columns.parentOrgUnitId, p ∈ s.units.map (·.id)

theorem inv_init : Inv State.init where
  tree := tree_init
  lineages := Successions.Succession.nil
  live := by simp [State.init]
  unit := by simp [State.init]
  parent := by simp [State.init]

variable {s t : State} {old : OrgUnit} {patch : OrgUnitPatch} {effectiveAt : Option ℤ}

/-! ## A unit is created -/

section Insert

variable {id : ℕ} {columns : OrgUnitColumns} (hinv : Inv s) (h : s.insert id columns = .ok t)

include hinv h

theorem Inv.history_fresh : ∀ v ∈ s.history, v.key ≠ id := by
  obtain ⟨hfresh, -⟩ := insert_ok h
  rintro v hv rfl
  exact hfresh (hinv.unit v hv)

theorem columnsAsOf_insert (k : ℕ) (asOf : ℤ) :
    columnsAsOf t.history k asOf =
      if k = id ∧ s.clock ≤ asOf then some columns else columnsAsOf s.history k asOf := by
  have hkey := hinv.history_fresh h
  obtain ⟨-, -, -, rfl⟩ := insert_ok h
  exact columnsAsOf_append hinv.lineages hkey s.clock columns k asOf

omit hinv in
theorem parent_of_insert {p : ℕ} (hp : columns.parentOrgUnitId = some p) :
    p ∈ s.units.map (·.id) := by
  obtain ⟨-, path, hpath, -⟩ := insert_ok h
  unfold setPath at hpath
  simp only [hp] at hpath
  split at hpath
  case h_1 => cases hpath
  case h_2 hparent =>
    obtain ⟨u, hu, rfl, -⟩ := pathOf_eq_some hparent
    exact mem_map_of_mem hu

theorem Inv.insert : Inv t := by
  have htree := hinv.tree.insert h
  have hkey := hinv.history_fresh h
  have hparent : ∀ {p}, columns.parentOrgUnitId = some p → p ∈ s.units.map (·.id) :=
    parent_of_insert h
  obtain ⟨-, path, -, rfl⟩ := insert_ok h
  refine ⟨htree, hinv.lineages.append hkey s.clock columns, ?_, ?_, ?_⟩
  · intro u hu
    rcases Tables.mem_concat.1 hu with hu | rfl
    · exact (hinv.live u hu).append _
    · exact ⟨⟨id, s.clock, none, columns⟩, by simp, rfl, rfl, rfl⟩
  · intro v hv
    rw [map_append]
    rcases Tables.mem_concat.1 hv with hv | rfl
    · exact mem_append_left _ (hinv.unit v hv)
    · simp
  · intro v hv p hp
    rw [map_append]
    rcases Tables.mem_concat.1 hv with hv | rfl
    · exact mem_append_left _ (hinv.parent v hv p hp)
    · exact mem_append_left _ (hparent hp)

end Insert

/-! ## A unit is changed -/

theorem moved_columns_of_ne {new u : OrgUnit} (h : u.id ≠ old.id) :
    (moved old new u).columns = u.columns := by
  rw [moved, if_neg h]
  split <;> rfl

section Update

variable (hinv : Inv s) (hold : old ∈ s.units) (h : s.updateRow old patch effectiveAt = .ok t)

include hinv hold h

theorem history_updateRow :
    (patch.apply old.columns = old.columns ∧ t.history = s.history) ∨
      supersede s.history old.id (effectiveAt.getD s.clock) (patch.apply old.columns)
        = some t.history := by
  obtain ⟨path, -, -, htrack⟩ := updateRow_ok hinv.tree hold h
  rcases historyTrack_ok htrack with ⟨hsame, rfl⟩ | ⟨history, hsome, rfl⟩
  · exact .inl ⟨hsame, rfl⟩
  · exact .inr hsome

theorem history_updateRow_of_eq (hsame : patch.apply old.columns = old.columns) :
    t.history = s.history := by
  obtain ⟨path, -, -, htrack⟩ := updateRow_ok hinv.tree hold h
  rw [historyTrack_of_eq hsame] at htrack
  rw [← Except.ok.inj htrack]

theorem lineages_updateRow : Lineages t.history := by
  rcases history_updateRow hinv hold h with ⟨-, heq⟩ | hsome
  · exact heq ▸ hinv.lineages
  · exact lineages_supersede hinv.lineages hsome (hinv.live old hold)

theorem columnsAsOf_old (hne : patch.apply old.columns ≠ old.columns) {asOf : ℤ}
    (hle : effectiveAt.getD s.clock ≤ asOf) :
    columnsAsOf s.history old.id asOf = some old.columns := by
  obtain ⟨v, hv, hkey, hopen, hcolumns⟩ := hinv.live old hold
  have hsome := (history_updateRow hinv hold h).resolve_left fun hsame => hne hsame.1
  have hlt := (supersede_eq_some hsome).1 v hv hkey hopen
  rw [columnsAsOf, ← hkey, asOf_of_open hinv.lineages hv hopen (by omega), Option.map_some,
    hcolumns]

theorem columnsAsOf_updateRow (hne : patch.apply old.columns ≠ old.columns) (k : ℕ) (asOf : ℤ) :
    columnsAsOf t.history k asOf =
      if k = old.id ∧ effectiveAt.getD s.clock ≤ asOf then some (patch.apply old.columns)
      else columnsAsOf s.history k asOf := by
  have hsome := (history_updateRow hinv hold h).resolve_left fun hsame => hne hsame.1
  exact columnsAsOf_supersede hinv.lineages hsome (hinv.live old hold) k asOf

theorem units_updateRow : ∃ new : OrgUnit, new.id = old.id ∧
    new.columns = patch.apply old.columns ∧ t.units = s.units.map (moved old new) := by
  obtain ⟨path, -, -, htrack⟩ := updateRow_ok hinv.tree hold h
  exact ⟨⟨old.id, patch.apply old.columns, path, old.createdAt⟩, rfl, rfl,
    historyTrack_units htrack⟩

theorem ids_updateRow : t.units.map (·.id) = s.units.map (·.id) := by
  obtain ⟨new, hid, -, hunits⟩ := units_updateRow hinv hold h
  rw [hunits, map_map]
  exact map_congr_left fun u _ => moved_id hid u

theorem live_updateRow : ∀ u ∈ t.units, Current t.history u.id u.columns := by
  obtain ⟨new, hid, hcolumns, hunits⟩ := units_updateRow hinv hold h
  rw [hunits]
  intro u' hu'
  obtain ⟨u, hu, rfl⟩ := mem_map.1 hu'
  rw [moved_id hid]
  by_cases heq : u.id = old.id
  · rw [moved, if_pos heq, heq, hcolumns]
    rcases history_updateRow hinv hold h with ⟨hsame, hhistory⟩ | hsome
    · rw [hhistory, hsame]
      exact hinv.live old hold
    · exact current_supersede hsome
  · rw [moved_columns_of_ne heq]
    rcases history_updateRow hinv hold h with ⟨-, hhistory⟩ | hsome
    · rw [hhistory]
      exact hinv.live u hu
    · exact (hinv.live u hu).supersede hsome heq

/-- A version after an update has the key and the columns of one before it, or is the new one. -/
theorem mem_history_updateRow {v : OrgUnitHistory} (hv : v ∈ t.history) :
    (∃ v₀ ∈ s.history, v.key = v₀.key ∧ v.columns = v₀.columns) ∨
      v.key = old.id ∧ v.columns = patch.apply old.columns := by
  rcases history_updateRow hinv hold h with ⟨-, heq⟩ | hsome
  · exact .inl ⟨v, heq ▸ hv, rfl, rfl⟩
  · exact mem_of_mem_supersede hsome hv

theorem parent_updateRow {p : ℕ} (hp : (patch.apply old.columns).parentOrgUnitId = some p) :
    p ∈ s.units.map (·.id) := by
  obtain ⟨path, -, hplace, -⟩ := updateRow_ok hinv.tree hold h
  rcases hplace with ⟨hnone, -⟩ | ⟨a, ha, hsome, -⟩
  · rw [hnone] at hp
    cases hp
  · obtain rfl : a.id = p := Option.some.inj (hsome.symm.trans hp)
    exact mem_map_of_mem ha

theorem Inv.updateRow : Inv t where
  tree := hinv.tree.updateRow hold h
  lineages := lineages_updateRow hinv hold h
  live := live_updateRow hinv hold h
  unit := by
    intro v hv
    rw [ids_updateRow hinv hold h]
    rcases mem_history_updateRow hinv hold h hv with ⟨v₀, hv₀, hkey, -⟩ | ⟨hkey, -⟩
    · exact hkey ▸ hinv.unit v₀ hv₀
    · exact hkey ▸ mem_map_of_mem hold
  parent := by
    intro v hv p hp
    rw [ids_updateRow hinv hold h]
    rcases mem_history_updateRow hinv hold h hv with ⟨v₀, hv₀, -, hcolumns⟩ | ⟨-, hcolumns⟩
    · exact hinv.parent v₀ hv₀ p (hcolumns ▸ hp)
    · exact parent_updateRow hinv hold h (hcolumns ▸ hp)

end Update

theorem Inv.step {a : Action} (hinv : Inv s) (h : step s a = some t) : Inv t := by
  cases a with
  | tick d =>
    cases h
    exact ⟨hinv.tree, hinv.lineages, hinv.live, hinv.unit, hinv.parent⟩
  | insert id columns => exact hinv.insert (toOption_eq_some h)
  | update id patch effectiveAt =>
    rcases update_ok (toOption_eq_some h) with ⟨-, rfl⟩ | ⟨old, hfind, hrow⟩
    · exact hinv
    · exact hinv.updateRow (mem_of_lookup hfind).1 hrow

theorem inv_of_exec {as : List Action} (h : exec step State.init as = some s) : Inv s :=
  exec_keeps Inv (fun _ _ _ hinv hstep => hinv.step hstep) inv_init h

end Workforce.Org
