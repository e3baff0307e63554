import Workforce.Policy.Scoping

/-!
# Scopes over employees

`abac.service.ts`: `isPermittedForEmployee` decides for one employee, grant by grant, and
`getEmployeeScopeFilter` returns allow-lists, by which `employees()` of the resolver filters a list.

* `passes_getEmployeeScopeFilter`: both decide alike.
* `employees_eq_filter`: the list that is shown has the employees that pass the allow-lists.
-/

namespace Workforce.Policies.Scoping

open List

/-- A row of `employee_group_members`. -/
structure EmployeeGroupMember where
  tenantId : ℕ
  groupId : ℕ
  employeeId : ℕ

/-- What the checks read of an employee. -/
structure TargetEmployee where
  id : ℕ
  orgUnitId : ℕ

/-- The allow-lists. -/
structure EmployeeScopeFilter where
  tenantWide : Bool
  orgUnitIds : List ℕ
  employeeIdsInScopedGroups : List ℕ

/-- The condition of `isPermittedForEmployee` on the scope of a role. -/
def UserRole.coversEmployee (ur : UserRole) (members : List EmployeeGroupMember)
    (targetEmployee : TargetEmployee) : Bool :=
  ur.scopeOrgUnitId.isNone && ur.scopeGroupId.isNone ||
    ur.scopeOrgUnitId = some targetEmployee.orgUnitId ||
    ur.scopeGroupId.any fun groupId => members.any fun egm =>
      egm.tenantId = ur.tenantId && egm.groupId = groupId && egm.employeeId = targetEmployee.id

/-- An employee passes the allow-lists. -/
def EmployeeScopeFilter.passes (scope : EmployeeScopeFilter) (e : TargetEmployee) : Bool :=
  scope.tenantWide || scope.orgUnitIds.contains e.orgUnitId ||
    scope.employeeIdsInScopedGroups.contains e.id

namespace Grants

variable (grants : Grants) (members : List EmployeeGroupMember) (tenantId userId : ℕ)
  (resource action : String)

/-- The rows of the join: a role of the user appears once for each way in which it has the
permission. -/
def scopeRows : List UserRole :=
  grants.userRoles.flatMap fun ur =>
    grants.rolePermissions.flatMap fun rp =>
      (grants.permissions.filter fun p =>
        rp.roleId = ur.roleId && p.id = rp.permissionId && ur.tenantId = tenantId &&
          ur.userId = userId && p.resource = resource && p.action = action).map fun _ => ur

/-- `isPermittedForEmployee`. -/
def isPermittedForEmployee (targetEmployee : TargetEmployee) : Bool :=
  grants.userRoles.any fun ur =>
    ur.tenantId = tenantId && ur.userId = userId && ur.coversEmployee members targetEmployee &&
      grants.rolePermissions.any fun rp =>
        rp.roleId = ur.roleId && grants.permissions.any fun p =>
          p.id = rp.permissionId && p.resource = resource && p.action = action

/-- `getEmployeeScopeFilter`. -/
def getEmployeeScopeFilter : EmployeeScopeFilter :=
  let scopeRows := grants.scopeRows tenantId userId resource action
  let tenantWide := scopeRows.any fun r => r.scopeOrgUnitId.isNone && r.scopeGroupId.isNone
  let orgUnitIds := (scopeRows.filterMap (·.scopeOrgUnitId)).eraseDups
  let groupIds := (scopeRows.filterMap (·.scopeGroupId)).eraseDups
  if tenantWide || groupIds.length = 0 then
    { tenantWide, orgUnitIds, employeeIdsInScopedGroups := [] }
  else
    let memberRows := members.filter fun egm =>
      egm.tenantId = tenantId && groupIds.contains egm.groupId
    { tenantWide, orgUnitIds
      employeeIdsInScopedGroups := (memberRows.map (·.employeeId)).eraseDups }

/-- `employees` of the resolver, from the list that the service returns. -/
def employees (results : List TargetEmployee) : List TargetEmployee :=
  let scope := grants.getEmployeeScopeFilter members tenantId userId "employee" "read"
  if scope.tenantWide then results
  else
    results.filter fun e =>
      scope.orgUnitIds.contains e.orgUnitId || scope.employeeIdsInScopedGroups.contains e.id

/-! ## Both decide alike -/

variable {grants members tenantId userId resource action} {ur : UserRole}
  {targetEmployee : TargetEmployee}

theorem mem_scopeRows : ur ∈ grants.scopeRows tenantId userId resource action ↔
    ur ∈ grants.userRoles ∧ (ur.tenantId = tenantId ∧ ur.userId = userId) ∧
      ∃ rp ∈ grants.rolePermissions, rp.roleId = ur.roleId ∧ ∃ p ∈ grants.permissions,
        p.id = rp.permissionId ∧ p.resource = resource ∧ p.action = action := by
  simp only [scopeRows, mem_flatMap, mem_map, mem_filter, Bool.and_eq_true, decide_eq_true_eq]
  constructor
  · rintro ⟨ur', hur, rp, hrp, p, ⟨hp, ⟨⟨⟨⟨hrole, hpermission⟩, htenant⟩, huser⟩, hresource⟩,
      haction⟩, rfl⟩
    exact ⟨hur, ⟨htenant, huser⟩, rp, hrp, hrole, p, hp, hpermission, hresource, haction⟩
  · rintro ⟨hur, ⟨htenant, huser⟩, rp, hrp, hrole, p, hp, hpermission, hresource, haction⟩
    exact ⟨ur, hur, rp, hrp, p, ⟨hp, ⟨⟨⟨⟨hrole, hpermission⟩, htenant⟩, huser⟩, hresource⟩,
      haction⟩, rfl⟩

/-- The point check looks for a role in the join that covers the employee. -/
theorem isPermittedForEmployee_iff :
    grants.isPermittedForEmployee members tenantId userId resource action targetEmployee = true ↔
      ∃ ur ∈ grants.scopeRows tenantId userId resource action,
        ur.coversEmployee members targetEmployee = true := by
  simp only [isPermittedForEmployee, any_eq_true, Bool.and_eq_true, decide_eq_true_eq,
    mem_scopeRows]
  constructor
  · rintro ⟨ur, hur, ⟨⟨htenant, huser⟩, hcovers⟩, rp, hrp, hrole, p, hp, ⟨hpermission, hresource⟩,
      haction⟩
    exact ⟨ur, ⟨hur, ⟨htenant, huser⟩, rp, hrp, hrole, p, hp, hpermission, hresource, haction⟩,
      hcovers⟩
  · rintro ⟨ur, ⟨hur, ⟨htenant, huser⟩, rp, hrp, hrole, p, hp, hpermission, hresource, haction⟩,
      hcovers⟩
    exact ⟨ur, hur, ⟨⟨htenant, huser⟩, hcovers⟩, rp, hrp, hrole, p, hp, ⟨hpermission, hresource⟩,
      haction⟩

/-- What a role covers: everyone, an org unit, or the members of a group. -/
theorem coversEmployee_iff : ur.coversEmployee members targetEmployee = true ↔
    (ur.scopeOrgUnitId = none ∧ ur.scopeGroupId = none) ∨
      ur.scopeOrgUnitId = some targetEmployee.orgUnitId ∨
      ∃ egm ∈ members, egm.tenantId = ur.tenantId ∧ ur.scopeGroupId = some egm.groupId ∧
        egm.employeeId = targetEmployee.id := by
  simp only [UserRole.coversEmployee, Bool.or_eq_true, Bool.and_eq_true, Option.isNone_iff_eq_none,
    decide_eq_true_eq, Option.any_eq_true, any_eq_true, or_assoc]
  refine or_congr_right (or_congr_right ?_)
  constructor
  · rintro ⟨groupId, hgroup, egm, hegm, ⟨htenant, rfl⟩, hid⟩
    exact ⟨egm, hegm, htenant, hgroup, hid⟩
  · rintro ⟨egm, hegm, htenant, hgroup, hid⟩
    exact ⟨egm.groupId, hgroup, egm, hegm, ⟨htenant, rfl⟩, hid⟩

/-- The employees of the scoped groups are the members that some role covers through its group. -/
theorem contains_members_iff {groupIds : List ℕ} (hgroups : ∀ groupId, groupId ∈ groupIds ↔
      ∃ ur ∈ grants.scopeRows tenantId userId resource action, ur.scopeGroupId = some groupId) :
    (((members.filter fun egm => egm.tenantId = tenantId && groupIds.contains egm.groupId).map
        (·.employeeId)).eraseDups.contains targetEmployee.id = true) ↔
      ∃ ur ∈ grants.scopeRows tenantId userId resource action, ∃ egm ∈ members,
        egm.tenantId = ur.tenantId ∧ ur.scopeGroupId = some egm.groupId ∧
          egm.employeeId = targetEmployee.id := by
  simp only [contains_iff_mem, mem_eraseDups, mem_map, mem_filter,
    Bool.and_eq_true, decide_eq_true_eq, hgroups]
  constructor
  · rintro ⟨egm, ⟨hegm, htenant, ur, hur, hgroup⟩, hid⟩
    obtain ⟨-, ⟨rfl, -⟩, -⟩ := mem_scopeRows.1 hur
    exact ⟨ur, hur, egm, hegm, htenant, hgroup, hid⟩
  · rintro ⟨ur, hur, egm, hegm, htenant, hgroup, hid⟩
    obtain ⟨-, ⟨rfl, -⟩, -⟩ := mem_scopeRows.1 hur
    exact ⟨egm, ⟨hegm, htenant, ur, hur, hgroup⟩, hid⟩

/-- **Scopes**: an employee passes the allow-lists exactly when the point check permits it. -/
theorem passes_getEmployeeScopeFilter (grants : Grants) (members : List EmployeeGroupMember)
    (tenantId userId : ℕ) (resource action : String) (e : TargetEmployee) :
    (grants.getEmployeeScopeFilter members tenantId userId resource action).passes e =
      grants.isPermittedForEmployee members tenantId userId resource action e := by
  have hgroups : ∀ groupId,
      groupId ∈ ((grants.scopeRows tenantId userId resource action).filterMap
        (·.scopeGroupId)).eraseDups ↔
      ∃ ur ∈ grants.scopeRows tenantId userId resource action, ur.scopeGroupId = some groupId := by
    intro groupId
    rw [mem_eraseDups, mem_filterMap]
  have hunits : ((grants.scopeRows tenantId userId resource action).filterMap
        (·.scopeOrgUnitId)).eraseDups.contains e.orgUnitId = true ↔
      ∃ ur ∈ grants.scopeRows tenantId userId resource action,
        ur.scopeOrgUnitId = some e.orgUnitId := by
    rw [contains_iff_mem, mem_eraseDups, mem_filterMap]
  have hwide : (grants.scopeRows tenantId userId resource action).any (fun r =>
        r.scopeOrgUnitId.isNone && r.scopeGroupId.isNone) = true ↔
      ∃ ur ∈ grants.scopeRows tenantId userId resource action,
        ur.scopeOrgUnitId = none ∧ ur.scopeGroupId = none := by
    simp only [any_eq_true, Bool.and_eq_true, Option.isNone_iff_eq_none]
  rw [Bool.eq_iff_iff, isPermittedForEmployee_iff]
  simp only [coversEmployee_iff, and_or_left, exists_or, ← hwide, ← hunits,
    ← contains_members_iff hgroups]
  unfold getEmployeeScopeFilter
  dsimp only
  split
  · -- Nothing is asked of the members: everyone passes, or no role has a group.
    rename_i hearly
    simp only [EmployeeScopeFilter.passes, Bool.or_eq_true, or_assoc, contains_nil]
    refine or_congr_right' fun hnarrow => or_congr_right ?_
    have hnone := length_eq_zero_iff.1 (of_decide_eq_true
      ((Bool.or_eq_true_iff.1 hearly).resolve_left hnarrow))
    rw [hnone]
    simp
  · simp only [EmployeeScopeFilter.passes, Bool.or_eq_true, or_assoc]

/-- The list of employees has those that pass the allow-lists. -/
theorem employees_eq_filter (grants : Grants) (members : List EmployeeGroupMember)
    (tenantId userId : ℕ) (results : List TargetEmployee) :
    grants.employees members tenantId userId results = results.filter
      (grants.getEmployeeScopeFilter members tenantId userId "employee" "read").passes := by
  unfold employees
  dsimp only
  split
  · rename_i hwide
    exact (filter_eq_self.2 fun e _ => by simp [EmployeeScopeFilter.passes, hwide]).symm
  · rename_i hnarrow
    exact filter_congr fun e _ => by simp [EmployeeScopeFilter.passes, hnarrow]

end Grants

end Workforce.Policies.Scoping
