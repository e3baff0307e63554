import Workforce.Employee.Records

/-!
# The history of employees and org units, and the live rows

After every sequence of calls, the open version of a row is the row as it was after the last change
of a tracked column, and it is the version that is valid from the effective date of that change on
(`history_follows_rows`). So from then on the version valid now agrees with the live row on the
tracked columns; before, and on the other columns, it need not.
-/

namespace Workforce.Employees

open Runs Tables Versions List

/-! ## What is tracked -/

/-- From when on a call is effective. -/
def Action.effectiveAt (s : State) : Action → ℤ
  | .org (.update _ _ effectiveAt) => effectiveAt.getD s.org.clock
  | .org _ => s.org.clock
  | .create _ _ => s.org.clock
  | .update _ input => input.effectiveDate.getD s.org.clock
  | .transfer _ input => input.effectiveDate.getD s.org.clock

/-- The employee that a call updates, and what the call makes of it. -/
def Action.sets (s : State) : Action → Option (Employee × Employee)
  | .org _ => none
  | .create _ _ => none
  | .update id input => (s.findById id).map fun old => (old, input.apply s.today old)
  | .transfer id input => (s.findById id).map fun old => (old, input.apply old)

/-- An employee: the trigger tracks some columns, and no call changes the employee number. -/
def employeeTracking (id : ℕ) : Tracking State Action ℕ EmployeeColumns TrackedColumns String where
  key := id
  row := fun s => (s.findById id).map (·.columns)
  history := State.history
  effectiveAt := fun s a => a.effectiveAt s
  tracked := EmployeeColumns.tracked
  fixed := EmployeeColumns.employeeNumber

/-- An org unit: the trigger tracks all columns that it stores. -/
def orgUnitTracking (id : ℕ) :
    Tracking State Action ℕ Org.OrgUnitColumns Org.OrgUnitColumns Unit where
  key := id
  row := fun s => (s.org.findById id).map (·.columns)
  history := fun s => s.org.history
  effectiveAt := fun s a => a.effectiveAt s
  tracked := fun columns => columns
  fixed := fun _ => ()

/-! ## What a step does -/

variable {maxEmployees : Option ℕ} {s t : State} {a : Action} {old new : Employee}

theorem insertRow_ok (h : s.insertRow new = .ok t) :
    new.id ∉ s.employees.map (·.id) ∧
      t = { s with
        employees := s.employees ++ [new]
        history := s.history ++ [⟨new.id, new.createdAt, none, new.columns⟩] } := by
  obtain ⟨-, -, h⟩ := bind_eq_ok h
  split at h
  case isTrue => cases h
  case isFalse hfresh =>
    split at h
    · cases h
    · exact ⟨hfresh, (Except.ok.inj h).symm⟩

/-- What the trigger does: nothing when no tracked column changes, else it opens a version. -/
theorem historyTrack_ok {effectiveAt : ℤ} (h : s.historyTrack effectiveAt old new = .ok t) :
    (new.columns.tracked = old.columns.tracked ∧ t = s) ∨
      (new.columns.tracked ≠ old.columns.tracked ∧
        ∃ history, supersede s.history new.id effectiveAt new.columns = some history ∧
          t = { s with history := history }) := by
  unfold State.historyTrack at h
  split at h
  case isFalse hsame => exact .inl ⟨not_not.1 hsame, (Except.ok.inj h).symm⟩
  case isTrue hchanged =>
    split at h
    case h_1 => cases h
    case h_2 history hsome => exact .inr ⟨hchanged, history, hsome, (Except.ok.inj h).symm⟩

theorem requireEmployee_ok {id : ℕ} (h : s.requireEmployee id = .ok old) :
    s.findById id = some old := by
  unfold State.requireEmployee at h
  split at h
  case h_1 => cases h
  case h_2 employee hfind => rw [hfind, Except.ok.inj h]

/-- The row of an employee is updated. -/
def Updates (s : State) (effectiveAt : ℤ) (t : State) (old new : Employee) : Prop :=
  old ∈ s.employees ∧ new.id = old.id ∧
    new.columns.employeeNumber = old.columns.employeeNumber ∧
    State.historyTrack { s with employees := modify (·.id) old.id (fun _ => new) s.employees }
      effectiveAt old new = .ok t

/-- Every step is one of the org units, creates an employee or makes of one what the call sets. -/
theorem step_cases (h : step maxEmployees s a = some t) :
    (∃ b org, a = .org b ∧ Org.step s.org b = some org ∧ t = { s with org := org }) ∨
      (∃ id input new, a = .create id input ∧ new.createdAt = a.effectiveAt s ∧
        s.insertRow new = .ok t) ∨
      ∃ old new, a.sets s = some (old, new) ∧ Updates s (a.effectiveAt s) t old new := by
  cases a with
  | org b =>
    obtain ⟨org, horg, rfl⟩ := Option.map_eq_some_iff.1 h
    exact .inl ⟨b, org, rfl, horg, rfl⟩
  | create id input =>
    obtain ⟨-, -, h⟩ := bind_eq_ok (toOption_eq_some h)
    obtain ⟨-, -, h⟩ := bind_eq_ok h
    obtain ⟨-, -, h⟩ := bind_eq_ok h
    exact .inr (.inl ⟨id, input, _, rfl, rfl, h⟩)
  | update id input =>
    obtain ⟨old, hold, h⟩ := bind_eq_ok (toOption_eq_some h)
    have hfind := requireEmployee_ok hold
    obtain ⟨-, -, h⟩ := bind_eq_ok h
    exact .inr (.inr ⟨old, input.apply s.today old, by simp [Action.sets, hfind],
      (mem_of_lookup hfind).1, rfl, rfl, h⟩)
  | transfer id input =>
    obtain ⟨old, hold, h⟩ := bind_eq_ok (toOption_eq_some h)
    have hfind := requireEmployee_ok hold
    obtain ⟨-, -, h⟩ := bind_eq_ok h
    obtain ⟨-, -, h⟩ := bind_eq_ok h
    obtain ⟨-, -, h⟩ := bind_eq_ok h
    exact .inr (.inr ⟨old, input.apply old, by simp [Action.sets, hfind],
      (mem_of_lookup hfind).1, rfl, rfl, h⟩)

/-! ## The invariant -/

structure Inv (s : State) : Prop where
  org : Org.Inv s.org
  ids : (s.employees.map (·.id)).Nodup
  lineages : Lineages s.history
  /-- Every employee has an open version. -/
  current : ∀ x ∈ s.employees, ∃ columns, Current s.history x.id columns
  /-- The versions are of employees. -/
  employee : ∀ v ∈ s.history, v.key ∈ s.employees.map (·.id)

theorem inv_init : Inv State.init where
  org := Org.inv_init
  ids := by simp [State.init]
  lineages := Successions.Succession.nil
  current := by simp [State.init]
  employee := by simp [State.init]

theorem Inv.insertRow (hinv : Inv s) (h : s.insertRow new = .ok t) : Inv t := by
  obtain ⟨hfresh, rfl⟩ := insertRow_ok h
  have hkey : ∀ v ∈ s.history, v.key ≠ new.id := by
    rintro v hv heq
    exact hfresh (heq ▸ hinv.employee v hv)
  refine ⟨hinv.org, nodup_append_singleton hinv.ids fun x hx heq => hfresh ?_,
    hinv.lineages.append hkey new.createdAt new.columns, ?_, ?_⟩
  · exact heq ▸ mem_map_of_mem hx
  · intro x hx
    rcases Tables.mem_concat.1 hx with hx | rfl
    · obtain ⟨columns, hcurrent⟩ := hinv.current x hx
      exact ⟨columns, hcurrent.append _⟩
    · exact ⟨x.columns, ⟨x.id, x.createdAt, none, x.columns⟩, by simp, rfl, rfl, rfl⟩
  · intro v hv
    rw [map_append]
    rcases Tables.mem_concat.1 hv with hv | rfl
    · exact mem_append_left _ (hinv.employee v hv)
    · simp

theorem ids_modify (hid : new.id = old.id) :
    (modify (·.id) old.id (fun _ => new) s.employees).map (·.id) = s.employees.map (·.id) := by
  rw [Tables.modify, map_map]
  refine map_congr_left fun x _ => ?_
  by_cases hx : x.id = old.id
  · simp [hx, hid]
  · simp [hx]

theorem exists_id_of_mem_modify (hid : new.id = old.id) {x : Employee}
    (hx : x ∈ modify (·.id) old.id (fun _ => new) s.employees) : x.id ∈ s.employees.map (·.id) :=
  ids_modify hid ▸ mem_map_of_mem hx

theorem Inv.updates {effectiveAt : ℤ} (hinv : Inv s) (h : Updates s effectiveAt t old new) :
    Inv t := by
  obtain ⟨hold, hid, -, htrack⟩ := h
  have hcurrent : ∀ x ∈ modify (·.id) old.id (fun _ => new) s.employees,
      ∃ columns, Current s.history x.id columns := by
    intro x hx
    obtain ⟨y, hy, hyx⟩ := mem_map.1 (exists_id_of_mem_modify hid hx)
    exact hyx ▸ hinv.current y hy
  rcases historyTrack_ok htrack with ⟨-, rfl⟩ | ⟨-, history, hsome, rfl⟩
  · refine ⟨hinv.org, ?_, hinv.lineages, hcurrent, fun v hv => ?_⟩
    · exact (ids_modify hid).symm ▸ hinv.ids
    · exact (ids_modify hid).symm ▸ hinv.employee v hv
  · obtain ⟨columns, hopen⟩ := hinv.current old hold
    rw [← hid] at hopen
    refine ⟨hinv.org, ?_, lineages_supersede hinv.lineages hsome hopen, fun x hx => ?_,
      fun v hv => ?_⟩
    · exact (ids_modify hid).symm ▸ hinv.ids
    · by_cases hx' : x.id = new.id
      · exact ⟨new.columns, hx' ▸ current_supersede hsome⟩
      · obtain ⟨c, hc⟩ := hcurrent x hx
        exact ⟨c, hc.supersede hsome hx'⟩
    · change v.key ∈ (modify (·.id) old.id (fun _ => new) s.employees).map (·.id)
      rw [ids_modify hid]
      rcases mem_of_mem_supersede hsome hv with ⟨v₀, hv₀, hkey, -⟩ | ⟨hkey, -⟩
      · exact hkey ▸ hinv.employee v₀ hv₀
      · exact (hkey.trans hid) ▸ mem_map_of_mem hold

theorem Inv.step (hinv : Inv s) (h : step maxEmployees s a = some t) : Inv t := by
  rcases step_cases h with ⟨b, org, -, horg, rfl⟩ | ⟨-, -, new, -, -, hinsert⟩ |
    ⟨old, new, -, hupdates⟩
  · exact ⟨hinv.org.step horg, hinv.ids, hinv.lineages, hinv.current, hinv.employee⟩
  · exact hinv.insertRow hinsert
  · exact hinv.updates hupdates

/-! ## The rows after a step -/

theorem follows_of_row_eq {σ α κ γ τ φ : Type*} [DecidableEq τ] {T : Tracking σ α κ γ τ φ}
    {s t : σ} {a : α} (hrow : T.row t = T.row s)
    (hstays : ∀ v ∈ T.history s, v.key = T.key → v.validTo = none → v ∈ T.history t) :
    T.Follows s a t where
  fixed := by
    intro c hc c' hc'
    rw [hrow, hc] at hc'
    rw [Option.some.inj hc']
  opened := fun hne => absurd (congrArg (Option.map T.tracked) hrow) hne
  stays := fun _ => hstays

theorem follows_insertRow (hcreated : new.createdAt = a.effectiveAt s)
    (h : s.insertRow new = .ok t) (id : ℕ) : (employeeTracking id).Follows s a t := by
  obtain ⟨hfresh, rfl⟩ := insertRow_ok h
  have hnew : ∀ x ∈ s.employees, x.id ≠ new.id := fun x hx heq =>
    hfresh (heq ▸ mem_map_of_mem hx)
  have hstays : ∀ v ∈ s.history,
      v ∈ s.history ++ [⟨new.id, new.createdAt, none, new.columns⟩] := fun v hv =>
    mem_append_left _ hv
  by_cases hid : id = new.id
  · have hnone : s.findById id = none := by
      rw [State.findById, ← Option.not_isSome_iff_eq_none, lookup_isSome, hid]
      exact hfresh
    refine ⟨fun c hc => ?_, fun _ c hc => ?_, fun _ v hv _ _ => hstays v hv⟩
    · simp [employeeTracking, hnone] at hc
    · simp only [employeeTracking, State.findById, lookup_append_singleton hnew, if_pos hid,
        Option.map_some, Option.some.injEq] at hc ⊢
      rw [← hc, hid, ← hcreated]
      simp
  · refine follows_of_row_eq ?_ fun v hv _ _ => hstays v hv
    simp [employeeTracking, State.findById, lookup_append_singleton hnew, hid]

theorem findById_modify (hold : old ∈ s.employees) (hinv : Inv s) (hid : new.id = old.id)
    (id : ℕ) :
    lookup (·.id) id (modify (·.id) old.id (fun _ => new) s.employees) =
      if id = old.id then some new else s.findById id := by
  have hkeep : ∀ x : Employee, (if x.id = old.id then new else x).id = x.id := by
    intro x
    split
    case isTrue heq => exact hid.trans heq.symm
    case isFalse => rfl
  rw [Tables.modify, lookup_map hkeep]
  split
  case isTrue heq =>
    rw [heq, lookup_eq_some hinv.ids hold, Option.map_some, if_pos rfl]
  case isFalse hne =>
    cases hx : lookup (·.id) id s.employees with
    | none => rw [State.findById, hx, Option.map_none]
    | some x =>
      obtain ⟨-, rfl⟩ := mem_of_lookup hx
      rw [State.findById, hx, Option.map_some, if_neg hne]

theorem follows_updates (hinv : Inv s) (h : Updates s (a.effectiveAt s) t old new) (id : ℕ) :
    (employeeTracking id).Follows s a t := by
  obtain ⟨hold, hid, hnumber, htrack⟩ := h
  have hfind := findById_modify hold hinv hid id
  have hlive : s.findById old.id = some old := lookup_eq_some hinv.ids hold
  have hrow : (employeeTracking id).row t =
      if id = old.id then some new.columns else (employeeTracking id).row s := by
    have hemployees : t.findById id =
        lookup (·.id) id (modify (·.id) old.id (fun _ => new) s.employees) := by
      rcases historyTrack_ok htrack with ⟨-, rfl⟩ | ⟨-, _, -, rfl⟩ <;> rfl
    simp only [employeeTracking, hemployees, hfind]
    split <;> rfl
  by_cases heq : id = old.id
  · subst heq
    rw [if_pos rfl] at hrow
    have hbefore : (employeeTracking old.id).row s = some old.columns := by
      simp [employeeTracking, hlive]
    refine ⟨fun c hc c' hc' => ?_, fun hne c hc => ?_, fun hsame v hv hkey hopen => ?_⟩
    · rw [hbefore] at hc
      rw [hrow] at hc'
      cases hc
      obtain rfl := Option.some.inj hc'
      exact hnumber
    · rw [hrow, hbefore, Option.map_some, Option.map_some] at hne
      rcases historyTrack_ok htrack with ⟨hsame, -⟩ | ⟨-, history, hsome, rfl⟩
      · exact absurd (congrArg some hsame) hne
      · rw [hrow] at hc
        cases hc
        have hmem := mem_supersede hsome
        rwa [hid] at hmem
    · rw [hrow, hbefore, Option.map_some, Option.map_some] at hsame
      rcases historyTrack_ok htrack with ⟨-, rfl⟩ | ⟨hchanged, -⟩
      · exact hv
      · exact absurd (Option.some.inj hsame) hchanged
  · rw [if_neg heq] at hrow
    refine follows_of_row_eq hrow fun v hv hkey _ => ?_
    rcases historyTrack_ok htrack with ⟨-, rfl⟩ | ⟨-, history, hsome, rfl⟩
    · exact hv
    · exact mem_supersede_of_ne hsome hv fun h => heq (hkey.symm.trans (h.trans hid))

theorem follows_employee (hinv : Inv s) (h : step maxEmployees s a = some t) (id : ℕ) :
    (employeeTracking id).Follows s a t := by
  rcases step_cases h with ⟨b, org, -, -, rfl⟩ | ⟨-, -, new, -, hcreated, hinsert⟩ |
    ⟨old, new, -, hupdates⟩
  · exact follows_of_row_eq rfl fun v hv _ _ => hv
  · exact follows_insertRow hcreated hinsert id
  · exact follows_updates hinv hupdates id

/-! ## The units after a step -/

section Units

variable {org : Org.State} {id : ℕ}

theorem follows_insertUnit {k : ℕ} {columns : Org.OrgUnitColumns}
    (h : s.org.insert k columns = .ok org) :
    (orgUnitTracking id).Follows s (.org (.insert k columns)) { s with org := org } := by
  obtain ⟨hfresh, path, -, rfl⟩ := Org.insert_ok h
  have hnew : ∀ u ∈ s.org.units,
      u.id ≠ (⟨k, columns, path, s.org.clock⟩ : Org.OrgUnit).id := fun u hu heq =>
    hfresh (mem_map.2 ⟨u, hu, heq⟩)
  have hstays : ∀ v ∈ s.org.history,
      v ∈ s.org.history ++ [⟨k, s.org.clock, none, columns⟩] := fun v hv =>
    mem_append_left _ hv
  by_cases hid : id = k
  · have hnone : s.org.findById id = none := by
      rw [Org.State.findById, ← Option.not_isSome_iff_eq_none, lookup_isSome, hid]
      exact hfresh
    refine ⟨fun _ _ _ _ => rfl, fun _ c hc => ?_, fun _ v hv _ _ => hstays v hv⟩
    simp only [orgUnitTracking, Org.State.findById, lookup_append_singleton hnew, if_pos hid,
      Option.map_some, Option.some.injEq] at hc ⊢
    rw [← hc, hid]
    simp [Action.effectiveAt]
  · refine follows_of_row_eq ?_ fun v hv _ _ => hstays v hv
    simp [orgUnitTracking, Org.State.findById, lookup_append_singleton hnew, hid]

theorem follows_updateUnit (hinv : Org.Inv s.org) {k : ℕ} {old : Org.OrgUnit}
    {patch : Org.OrgUnitPatch} {effectiveAt : Option ℤ} (hfind : s.org.findById k = some old)
    (h : s.org.updateRow old patch effectiveAt = .ok org) :
    (orgUnitTracking id).Follows s (.org (.update k patch effectiveAt)) { s with org := org } := by
  obtain ⟨hold, rfl⟩ := mem_of_lookup hfind
  obtain ⟨new, hid, hcolumns, hunits⟩ := Org.units_updateRow hinv hold h
  have hrow : org.findById id = (s.org.findById id).map (Org.moved old new) := by
    rw [Org.State.findById, hunits, lookup_map (Org.moved_id hid)]
    rfl
  by_cases heq : id = old.id
  · subst heq
    have hafter : (org.findById old.id).map (·.columns) = some (patch.apply old.columns) := by
      rw [hrow, hfind, Option.map_some, Option.map_some, Org.moved, if_pos rfl, hcolumns]
    refine ⟨fun _ _ _ _ => rfl, fun hne c hc => ?_, fun hsame v hv hkey hopen => ?_⟩
    · obtain rfl : patch.apply old.columns = c := Option.some.inj (hafter.symm.trans hc)
      rcases Org.history_updateRow hinv hold h with ⟨hsame, -⟩ | hsome
      · refine absurd ?_ hne
        simp [orgUnitTracking, hafter, hfind, hsame]
      · exact mem_supersede hsome
    · have hsame' : patch.apply old.columns = old.columns := by
        simpa [orgUnitTracking, hafter, hfind] using hsame
      change v ∈ org.history
      rw [Org.history_updateRow_of_eq hinv hold h hsame']
      exact hv
  · have hother : (orgUnitTracking id).row { s with org := org } = (orgUnitTracking id).row s := by
      simp only [orgUnitTracking, hrow, Option.map_map]
      cases hu : s.org.findById id with
      | none => rfl
      | some u =>
        obtain ⟨-, rfl⟩ := mem_of_lookup hu
        simp [Org.moved_columns_of_ne heq]
    refine follows_of_row_eq hother fun v hv hkey _ => ?_
    change v ∈ org.history
    rcases Org.history_updateRow hinv hold h with ⟨-, hhistory⟩ | hsome
    · rw [hhistory]
      exact hv
    · exact mem_supersede_of_ne hsome hv fun h => heq (hkey.symm.trans h)

end Units

theorem follows_orgUnit (hinv : Inv s) (h : step maxEmployees s a = some t) (id : ℕ) :
    (orgUnitTracking id).Follows s a t := by
  rcases step_cases h with ⟨b, org, rfl, horg, rfl⟩ | ⟨-, -, new, -, -, hinsert⟩ |
    ⟨old, new, -, -, -, -, htrack⟩
  · cases b with
    | tick d =>
      cases horg
      exact follows_of_row_eq rfl fun v hv _ _ => hv
    | insert k columns => exact follows_insertUnit (toOption_eq_some horg)
    | update k patch effectiveAt =>
      rcases Org.update_ok (toOption_eq_some horg) with ⟨-, rfl⟩ | ⟨old, hfind, hrow⟩
      · exact follows_of_row_eq rfl fun v hv _ _ => hv
      · exact follows_updateUnit hinv.org hfind hrow
  · obtain ⟨-, rfl⟩ := insertRow_ok hinsert
    exact follows_of_row_eq rfl fun v hv _ _ => hv
  · rcases historyTrack_ok htrack with ⟨-, rfl⟩ | ⟨-, _, -, rfl⟩ <;>
      exact follows_of_row_eq rfl fun v hv _ _ => hv

/-! ## The result -/

/-- After every sequence of calls, for every org unit and every employee: at every instant from the
effective date of its last tracked change on, the valid version is the row as it was right after
that change. A unit is still so; an employee has still the tracked columns and the employee number
of then. -/
theorem history_follows_rows {as : List Action}
    (h : exec (step maxEmployees) State.init as = some s) :
    (∀ u ∈ s.org.units, ∃ e,
      (orgUnitTracking u.id).lastChange (step maxEmployees) none State.init as
        = some (e, u.columns) ∧
      ∀ asOf, e ≤ asOf → (s.org.findVersionAsOf u.id asOf).map (·.columns) = some u.columns) ∧
    ∀ x ∈ s.employees, ∃ e columns,
      (employeeTracking x.id).lastChange (step maxEmployees) none State.init as
        = some (e, columns) ∧
      columns.tracked = x.columns.tracked ∧
      columns.employeeNumber = x.columns.employeeNumber ∧
      ∀ asOf, e ≤ asOf → (s.findVersionAsOf x.id asOf).map (·.columns) = some columns := by
  have hkeep : ∀ s a t, Inv s → step maxEmployees s a = some t → Inv t :=
    fun _ _ _ hinv hstep => hinv.step hstep
  have hinv : Inv s := exec_keeps Inv hkeep inv_init h
  constructor
  · intro u hu
    have hinit : (orgUnitTracking u.id).Snapshot none State.init := fun c hc => by cases hc
    have hsnapshot := snapshot_lastChange hkeep
      (fun _ _ _ hinv hstep => follows_orgUnit hinv hstep u.id) inv_init hinit h
    have hrow : (orgUnitTracking u.id).row s = some u.columns := by
      simp [orgUnitTracking, hinv.org.tree.findById_eq hu]
    obtain ⟨e, columns, hlast, rfl, -, hmem⟩ := hsnapshot u.columns hrow
    refine ⟨e, hlast, fun asOf hle => ?_⟩
    have hvalid := asOf_of_open hinv.org.lineages hmem rfl hle
    exact congrArg (Option.map Version.columns) hvalid
  · intro x hx
    have hinit : (employeeTracking x.id).Snapshot none State.init := fun c hc => by cases hc
    have hsnapshot := snapshot_lastChange hkeep
      (fun _ _ _ hinv hstep => follows_employee hinv hstep x.id) inv_init hinit h
    have hrow : (employeeTracking x.id).row s = some x.columns := by
      simp [employeeTracking, State.findById, lookup_eq_some hinv.ids hx]
    obtain ⟨e, columns, hlast, htracked, hnumber, hmem⟩ := hsnapshot x.columns hrow
    refine ⟨e, columns, hlast, htracked, hnumber, fun asOf hle => ?_⟩
    have hvalid := asOf_of_open hinv.lineages hmem rfl hle
    exact congrArg (Option.map Version.columns) hvalid

/-! ## Two runs -/

/-- An employee of one unit, and another unit. -/
def staffed : List Action :=
  let columns : Org.OrgUnitColumns := ⟨none, .department, "Support", "UTC", "DE", .active⟩
  [.org (.insert 1 columns), .org (.insert 2 columns),
    .create 7 ⟨1, "E-7", .fullTime, 4000, 0, none, none⟩, .org (.tick 100)]

/-- The employee is transferred with effect from a date that lies ahead. -/
def transferAhead : List Action := staffed ++ [.transfer 7 ⟨2, none, some 500⟩]

/-- The contract hours of the employee are changed. -/
def fewerHours : List Action := staffed ++ [.update 7 ⟨none, some 2000, none, none, none, none⟩]

/-- The version that is valid now has the old org unit in the one run and the old contract hours in
the other. -/
theorem history_behind_rows :
    (∃ s, exec (step none) State.init transferAhead = some s ∧
      (s.findById 7).map (·.columns.orgUnitId) = some 2 ∧
      (s.findVersionAsOf 7 s.org.clock).map (·.columns.orgUnitId) = some 1) ∧
    ∃ s, exec (step none) State.init fewerHours = some s ∧
      (s.findById 7).map (·.columns.contractHoursPerWeek) = some 2000 ∧
      (s.findVersionAsOf 7 s.org.clock).map (·.columns.contractHoursPerWeek) = some 4000 :=
  ⟨exists_exec (by decide), exists_exec (by decide)⟩

theorem transferAhead_history : ∃ s, exec (step none) State.init transferAhead = some s ∧
    (∃ x ∈ s.employees, x.columns.orgUnitId = 2) ∧
    ∀ x ∈ s.employees, ∃ e columns,
      (employeeTracking x.id).lastChange (step none) none State.init transferAhead
        = some (e, columns) ∧
      ∀ asOf, e ≤ asOf → (s.findVersionAsOf x.id asOf).map (·.columns) = some columns := by
  obtain ⟨s, hs, hx⟩ : ∃ s, exec (step none) State.init transferAhead = some s ∧
      ∃ x ∈ s.employees, x.columns.orgUnitId = 2 := exists_exec (by decide)
  refine ⟨s, hs, hx, fun x hx => ?_⟩
  obtain ⟨e, columns, hlast, -, -, hvalid⟩ := (history_follows_rows hs).2 x hx
  exact ⟨e, columns, hlast, hvalid⟩

end Workforce.Employees
