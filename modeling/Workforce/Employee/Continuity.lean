import Workforce.Employee.History

/-!
# The history of employees and org units has no gaps

The history of a row starts when the row is created; each version ends where the next one starts,
and one is open (`history_unbroken`). This holds because the open version ends where the new one
starts, and because the check of the range refuses a version that would end before it starts. The
refusal is of the whole call. So a call that changes a tracked column is refused when it is not
effective after the start of the open version; one that changes none does not reach the history,
and is accepted whatever its effective date (`backdated_update_accepted`).
-/

namespace Workforce.Employees

open Runs Tables Versions List

/-! ## Calls -/

/-- The state after a call; one that throws is rolled back. -/
def State.attempt (maxEmployees : Option ℕ) (s : State) (a : Action) : State :=
  (step maxEmployees s a).getD s

/-- The org unit that a call updates, and the columns that the call gives it. -/
def Action.setsUnit (s : State) : Action → Option (Org.OrgUnit × Org.OrgUnitColumns)
  | .org (.update id patch _) => (s.org.findById id).map fun old => (old, patch.apply old.columns)
  | _ => none

/-- A call updates a row with effect from an instant that is not after the start of its open
version. -/
def NotAfter (s : State) (a : Action) : Prop :=
  (∃ x ∈ a.sets s, ∃ v ∈ s.history,
    v.key = x.1.id ∧ v.validTo = none ∧ a.effectiveAt s ≤ v.validFrom) ∨
  ∃ u ∈ a.setsUnit s, ∃ v ∈ s.org.history,
    v.key = u.1.id ∧ v.validTo = none ∧ a.effectiveAt s ≤ v.validFrom
  deriving Decidable

/-- A call changes a tracked column of a row. -/
def SetsTracked (s : State) (a : Action) : Prop :=
  (∃ x ∈ a.sets s, x.2.columns.tracked ≠ x.1.columns.tracked) ∨
  ∃ u ∈ a.setsUnit s, u.2 ≠ u.1.columns
  deriving Decidable

variable {maxEmployees : Option ℕ} {s t : State} {a : Action}

/-! ## The versions of employees -/

/-- The history of every employee starts when the employee is created. -/
def EmployeesContiguous (s : State) : Prop :=
  ∀ x ∈ s.employees, Contiguous x.createdAt (versionsOf s.history x.id)

section Employees

variable {old new : Employee}

theorem versionsOf_fresh (hinv : Inv s) {id : ℕ} (hfresh : id ∉ s.employees.map (·.id)) :
    versionsOf s.history id = [] := by
  refine filter_eq_nil_iff.2 fun v hv hkey => hfresh ?_
  obtain rfl := of_decide_eq_true hkey
  exact hinv.employee v hv

theorem EmployeesContiguous.insertRow (hc : EmployeesContiguous s) (hinv : Inv s)
    (h : s.insertRow new = .ok t) : EmployeesContiguous t := by
  obtain ⟨hfresh, rfl⟩ := insertRow_ok h
  intro x hx
  change Contiguous x.createdAt (versionsOf (s.history ++ [_]) x.id)
  rw [versionsOf_append]
  rcases Tables.mem_concat.1 hx with hx | rfl
  · have hne : new.id ≠ x.id := fun heq => hfresh (heq ▸ mem_map_of_mem hx)
    rw [if_neg hne, append_nil]
    exact hc x hx
  · rw [versionsOf_fresh hinv hfresh, if_pos rfl]
    exact contiguous_cons.2 ⟨rfl, .inl ⟨rfl, rfl⟩⟩

theorem EmployeesContiguous.updates {effectiveAt : ℤ} (hc : EmployeesContiguous s)
    (hcreated : new.createdAt = old.createdAt) (h : Updates s effectiveAt t old new) :
    EmployeesContiguous t := by
  obtain ⟨hold, hid, -, htrack⟩ := h
  have hrows : ∀ x ∈ modify (·.id) old.id (fun _ => new) s.employees,
      Contiguous x.createdAt (versionsOf s.history x.id) := by
    intro x hx
    rcases mem_modify.1 hx with ⟨-, -, -, rfl⟩ | ⟨hx, -⟩
    · rw [hcreated, hid]
      exact hc old hold
    · exact hc x hx
  rcases historyTrack_ok htrack with ⟨-, rfl⟩ | ⟨-, history, hsome, rfl⟩
  · exact hrows
  · exact fun x hx => (hrows x hx).supersede hsome

end Employees

/-! ## The versions of org units -/

/-- The history of every org unit starts when the unit is created. -/
def UnitsContiguous (org : Org.State) : Prop :=
  ∀ u ∈ org.units, Contiguous u.createdAt (versionsOf org.history u.id)

section Units

variable {org org' : Org.State}

theorem UnitsContiguous.insert (hc : UnitsContiguous org) (hinv : Org.Inv org) {id : ℕ}
    {columns : Org.OrgUnitColumns} (h : org.insert id columns = .ok org') :
    UnitsContiguous org' := by
  have hnone : versionsOf org.history id = [] :=
    filter_eq_nil_iff.2 fun v hv hkey => hinv.history_fresh h v hv (of_decide_eq_true hkey)
  obtain ⟨hfresh, path, -, rfl⟩ := Org.insert_ok h
  intro u hu
  change Contiguous u.createdAt (versionsOf (org.history ++ [_]) u.id)
  rw [versionsOf_append]
  rcases Tables.mem_concat.1 hu with hu | rfl
  · have hne : id ≠ u.id := fun heq => hfresh (heq ▸ mem_map_of_mem hu)
    rw [if_neg hne, append_nil]
    exact hc u hu
  · rw [hnone, if_pos rfl]
    exact contiguous_cons.2 ⟨rfl, .inl ⟨rfl, rfl⟩⟩

theorem createdAt_updateRow (hinv : Org.Inv org) {old : Org.OrgUnit} (hold : old ∈ org.units)
    {patch : Org.OrgUnitPatch} {effectiveAt : Option ℤ}
    (h : org.updateRow old patch effectiveAt = .ok org') {u : Org.OrgUnit} (hu : u ∈ org'.units) :
    ∃ u₀ ∈ org.units, u₀.id = u.id ∧ u₀.createdAt = u.createdAt := by
  obtain ⟨path, -, -, htrack⟩ := Org.updateRow_ok hinv.tree hold h
  rw [Org.historyTrack_units htrack] at hu
  obtain ⟨u₀, hu₀, rfl⟩ := mem_map.1 hu
  refine ⟨u₀, hu₀, (Org.moved_id (by rfl) u₀).symm, ?_⟩
  unfold Org.moved
  split
  case isTrue heq =>
    have hlive : some u₀ = some old := by
      rw [← hinv.tree.findById_eq hu₀, heq, hinv.tree.findById_eq hold]
    rw [Option.some.inj hlive]
  case isFalse => split <;> rfl

theorem UnitsContiguous.updateRow (hc : UnitsContiguous org) (hinv : Org.Inv org)
    {old : Org.OrgUnit} (hold : old ∈ org.units) {patch : Org.OrgUnitPatch}
    {effectiveAt : Option ℤ} (h : org.updateRow old patch effectiveAt = .ok org') :
    UnitsContiguous org' := by
  intro u hu
  obtain ⟨u₀, hu₀, hid, hcreated⟩ := createdAt_updateRow hinv hold h hu
  rw [← hid, ← hcreated]
  rcases Org.history_updateRow hinv hold h with ⟨-, heq⟩ | hsome
  · rw [heq]
    exact hc u₀ hu₀
  · exact (hc u₀ hu₀).supersede hsome

theorem UnitsContiguous.step {b : Org.Action} (hc : UnitsContiguous org) (hinv : Org.Inv org)
    (h : Org.step org b = some org') : UnitsContiguous org' := by
  cases b with
  | tick d =>
    cases h
    exact hc
  | insert id columns => exact hc.insert hinv (toOption_eq_some h)
  | update id patch effectiveAt =>
    rcases Org.update_ok (toOption_eq_some h) with ⟨-, rfl⟩ | ⟨old, hfind, hrow⟩
    · exact hc
    · exact hc.updateRow hinv (mem_of_lookup hfind).1 hrow

end Units

/-! ## A step -/

theorem createdAt_of_sets {old new : Employee} (h : a.sets s = some (old, new)) :
    new.createdAt = old.createdAt := by
  cases a with
  | org b => cases h
  | create id input => cases h
  | update id input =>
    obtain ⟨x, -, hx⟩ := Option.map_eq_some_iff.1 h
    cases hx
    rfl
  | transfer id input =>
    obtain ⟨x, -, hx⟩ := Option.map_eq_some_iff.1 h
    cases hx
    rfl

/-- The history of every row has no gaps. -/
structure Continuous (s : State) : Prop where
  inv : Inv s
  units : UnitsContiguous s.org
  employees : EmployeesContiguous s

theorem continuous_init : Continuous State.init where
  inv := inv_init
  units := by simp [UnitsContiguous, State.init, Org.State.init]
  employees := by simp [EmployeesContiguous, State.init]

theorem Continuous.step (hs : Continuous s) (h : step maxEmployees s a = some t) :
    Continuous t := by
  refine ⟨hs.inv.step h, ?_, ?_⟩
  · rcases step_cases h with ⟨b, org, -, horg, rfl⟩ | ⟨-, -, new, -, -, hinsert⟩ |
      ⟨old, new, -, -, -, -, htrack⟩
    · exact hs.units.step hs.inv.org horg
    · obtain ⟨-, rfl⟩ := insertRow_ok hinsert
      exact hs.units
    · rcases historyTrack_ok htrack with ⟨-, rfl⟩ | ⟨-, _, -, rfl⟩ <;> exact hs.units
  · rcases step_cases h with ⟨b, org, -, -, rfl⟩ | ⟨-, -, new, -, -, hinsert⟩ |
      ⟨old, new, hsets, hupdates⟩
    · exact hs.employees
    · exact hs.employees.insertRow hs.inv hinsert
    · exact hs.employees.updates (createdAt_of_sets hsets) hupdates

/-! ## Calls that come too early -/

theorem not_supersede {κ γ : Type*} [DecidableEq κ] {history history' : List (Version κ γ)} {k : κ}
    {effectiveAt : ℤ} {columns : γ}
    (hlate : ∃ v ∈ history, v.key = k ∧ v.validTo = none ∧ effectiveAt ≤ v.validFrom) :
    supersede history k effectiveAt columns ≠ some history' := by
  intro hsome
  obtain ⟨v, hv, hkey, hopen, hle⟩ := hlate
  have hlt := (supersede_eq_some hsome).1 v hv hkey hopen
  omega

/-- A call that is accepted and effective too early for a version changes no tracked column. -/
theorem step_of_notAfter (hs : Continuous s) (hlate : NotAfter s a)
    (h : step maxEmployees s a = some t) :
    t.history = s.history ∧ t.org.history = s.org.history ∧ ¬ SetsTracked s a := by
  rcases step_cases h with ⟨b, org, rfl, horg, rfl⟩ | ⟨id, input, -, rfl, -, -⟩ |
    ⟨old, new, hsets, hold, hid, -, htrack⟩
  · rcases hlate with ⟨x, hx, -⟩ | ⟨u, hu, hlate⟩
    · cases hx
    · cases b with
      | tick d => cases hu
      | insert id columns => cases hu
      | update id patch effectiveAt =>
        obtain ⟨old, hfind, rfl⟩ := Option.map_eq_some_iff.1 hu
        rcases Org.update_ok (toOption_eq_some horg) with ⟨hnone, -⟩ | ⟨old', hfind', hrow⟩
        · cases hfind.symm.trans hnone
        · obtain rfl := Option.some.inj (hfind.symm.trans hfind')
          have hold := (mem_of_lookup hfind).1
          obtain ⟨hsame, heq⟩ := (Org.history_updateRow hs.inv.org hold hrow).resolve_right
            (not_supersede hlate)
          refine ⟨rfl, heq, ?_⟩
          rintro (⟨x, hx, -⟩ | ⟨u, hu', hne⟩)
          · cases hx
          · obtain rfl := Option.some.inj (hu.symm.trans hu')
            exact hne hsame
  · rcases hlate with ⟨x, hx, -⟩ | ⟨u, hu, -⟩
    · cases hx
    · cases hu
  · have hunit : a.setsUnit s = none := by
      cases a with
      | org b => cases hsets
      | create id input => cases hsets
      | update id input => rfl
      | transfer id input => rfl
    rcases hlate with ⟨x, hx, hlate⟩ | ⟨u, hu, -⟩
    · obtain rfl := Option.some.inj (hsets.symm.trans hx)
      rw [← hid] at hlate
      rcases historyTrack_ok htrack with ⟨hsame, rfl⟩ | ⟨-, history, hsome, -⟩
      · refine ⟨rfl, rfl, ?_⟩
        rintro (⟨y, hy, hne⟩ | ⟨u, hu, -⟩)
        · obtain rfl := Option.some.inj (hsets.symm.trans hy)
          exact hne hsame
        · cases hunit.symm.trans hu
      · exact absurd hsome (not_supersede hlate)
    · cases hunit.symm.trans hu

/-! ## The result -/

/-- After every sequence of accepted calls, the history of every org unit and every employee has no
gaps and no overlaps. A call that updates a row with effect from an instant that is not after the
start of the open version leaves every history as it is, and when it changes a tracked column it is
refused, with every row left as it is too. -/
theorem history_unbroken {as : List Action}
    (h : exec (step maxEmployees) State.init as = some s) :
    (∀ u ∈ s.org.units, Unbroken s.org.history u.id u.createdAt) ∧
      (∀ x ∈ s.employees, Unbroken s.history x.id x.createdAt) ∧
      ∀ a, NotAfter s a →
        (s.attempt maxEmployees a).org.history = s.org.history ∧
        (s.attempt maxEmployees a).history = s.history ∧
        (SetsTracked s a → step maxEmployees s a = none ∧ s.attempt maxEmployees a = s) := by
  have hs : Continuous s :=
    exec_keeps Continuous (fun _ _ _ hs hstep => hs.step hstep) continuous_init h
  refine ⟨fun u hu => (hs.units u hu).unbroken, fun x hx => (hs.employees x hx).unbroken, ?_⟩
  intro a hlate
  unfold State.attempt
  cases hstep : step maxEmployees s a with
  | none => exact ⟨rfl, rfl, fun _ => ⟨rfl, rfl⟩⟩
  | some t =>
    obtain ⟨hhistory, hunits, hsame⟩ := step_of_notAfter hs hlate hstep
    exact ⟨hunits, hhistory, fun hne => absurd hne hsame⟩

/-- The employee of `staffed` is transferred with effect from a date that has passed by then. -/
def transferred : List Action :=
  staffed ++ [.transfer 7 ⟨2, none, some 50⟩]

theorem transferred_unbroken : ∃ s, exec (step none) State.init transferred = some s ∧
    (s.findVersionAsOf 7 40).map (·.columns.orgUnitId) = some 1 ∧
    (s.findVersionAsOf 7 50).map (·.columns.orgUnitId) = some 2 ∧
    (∀ x ∈ s.employees, Unbroken s.history x.id x.createdAt) ∧
    s.attempt none (.transfer 7 ⟨1, none, some 50⟩) = s := by
  obtain ⟨s, hs, hbefore, hafter, hlate, hsets⟩ : ∃ s,
      exec (step none) State.init transferred = some s ∧
      (s.findVersionAsOf 7 40).map (·.columns.orgUnitId) = some 1 ∧
      (s.findVersionAsOf 7 50).map (·.columns.orgUnitId) = some 2 ∧
      NotAfter s (.transfer 7 ⟨1, none, some 50⟩) ∧
      SetsTracked s (.transfer 7 ⟨1, none, some 50⟩) := exists_exec (by decide)
  obtain ⟨-, hemployees, hrefused⟩ := history_unbroken hs
  exact ⟨s, hs, hbefore, hafter, hemployees, ((hrefused _ hlate).2.2 hsets).2⟩

/-- An update of the contract hours, which are not tracked, is accepted with effect from a date
before the start of the open version: the live row changes. -/
theorem backdated_update_accepted :
    ∃ s, exec (step none) State.init transferred = some s ∧
      NotAfter s (.update 7 ⟨none, some 2000, none, none, none, some 10⟩) ∧
      (s.findById 7).map (·.columns.contractHoursPerWeek) = some 4000 ∧
      ((s.attempt none (.update 7 ⟨none, some 2000, none, none, none, some 10⟩)).findById 7).map
        (·.columns.contractHoursPerWeek) = some 2000 :=
  exists_exec (by decide)

end Workforce.Employees
