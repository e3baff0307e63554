import Workforce.Foundations.Outcomes
import Workforce.Scim.Users

/-!
# Groups of SCIM

A group of `/scim/v2/Groups` is a role of the tenant, and its members are the users who have the
role for the whole tenant. `applyPatch` runs a list of operations over the tables, where every call
of a repository is a transaction of its own: what is written before an operation throws stays
written.

TypeORM and PostgreSQL are a `Database`. The rows have the columns that the service reads.
-/

namespace Workforce.Scim

open Outcomes List

/-! ## Tables -/

structure Role where
  id : String
  tenantId : Option String
  name : String

structure UserRole where
  tenantId : String
  userId : String
  roleId : String
  scopeOrgUnitId : Option String
  scopeGroupId : Option String
  deriving DecidableEq

/-- An assignment to the whole tenant. -/
def tenantWide (tenantId userId roleId : String) : UserRole :=
  ⟨tenantId, userId, roleId, none, none⟩

structure Tables where
  users : List User
  roles : List Role
  userRoles : List UserRole
  /-- `fk_user_roles_tenant_user`. -/
  assigned : ∀ a ∈ userRoles, ∃ u ∈ users, u.tenantId = a.tenantId ∧ u.id = a.userId

namespace Tables

variable (db : Tables) {tenantId userId roleId : String}

def insert (a : UserRole) (h : ∃ u ∈ db.users, u.tenantId = a.tenantId ∧ u.id = a.userId) :
    Tables where
  users := db.users
  roles := db.roles
  userRoles := db.userRoles ++ [a]
  assigned := forall_mem_append.2 ⟨db.assigned, forall_mem_singleton.2 h⟩

def deleteWhere (p : UserRole → Bool) : Tables where
  users := db.users
  roles := db.roles
  userRoles := db.userRoles.filter fun a => !p a
  assigned a ha := db.assigned a (mem_of_mem_filter ha)

def withRoles (roles : List Role) : Tables := { db with roles }

/-- The users who have the role for the whole tenant. -/
def members (tenantId roleId : String) : Finset String :=
  ((db.userRoles.filter fun a => a = tenantWide tenantId a.userId roleId).map (·.userId)).toFinset

theorem mem_members : userId ∈ db.members tenantId roleId ↔
    tenantWide tenantId userId roleId ∈ db.userRoles := by
  unfold members
  simp only [mem_toFinset, mem_map, mem_filter, decide_eq_true_eq]
  constructor
  · rintro ⟨a, ⟨ha, hwide⟩, rfl⟩
    exact hwide ▸ ha
  · intro h
    exact ⟨_, ⟨h, rfl⟩, rfl⟩

theorem mem_members_insert (x : String)
    (h : ∃ u ∈ db.users, u.tenantId = tenantId ∧ u.id = userId) :
    x ∈ (db.insert (tenantWide tenantId userId roleId) h).members tenantId roleId ↔
      x ∈ db.members tenantId roleId ∨ x = userId := by
  simp only [mem_members, insert, mem_append, mem_singleton, tenantWide,
    UserRole.mk.injEq, true_and, and_true]

theorem exists_user_of_mem_members (h : userId ∈ db.members tenantId roleId) :
    ∃ u ∈ db.users, u.tenantId = tenantId ∧ u.id = userId :=
  db.assigned _ (db.mem_members.1 h)

end Tables

/-- A write of the assignments of a role. -/
inductive MemberWrite
  | add (userId : String)
  | remove (userId : String)
  deriving DecidableEq

/-- PostgreSQL, and TypeORM before it. -/
structure Database where
  /-- A text that is read as a uuid, in the spelling that the database gives back. -/
  uuid : String → Option String
  /-- Whether `find` takes a row that has the value where its `where` has `null`. -/
  findsAtNull : Option String → Bool
  findsAtNull_none : findsAtNull none = true
  /-- Whether `delete` takes a row that has the value where its criteria have `null`. -/
  deletesAtNull : Option String → Bool
  deletesAtNull_none : deletesAtNull none = true
  /-- What a value is in the column `roles.name`. -/
  roleName : Json → Option String
  /-- The order in which writes that were started together are committed. -/
  commits : Tables → List MemberWrite → List MemberWrite
  commits_perm : ∀ db writes, (commits db writes).Perm writes

/-- A request: it may throw, and what it has written by then stays. -/
abbrev ScimM := ExceptT ScimError (StateM Tables)

section Service

variable (database : Database) (tenantId : String)

/-- A parameter that PostgreSQL casts to `uuid`. -/
def readUuid (text : String) : Except ScimError String :=
  match database.uuid text with
  | some id => .ok id
  | none => .error .invalidText

/-! ## Repositories -/

/-- The assignments of a role that have no scope. -/
def findTenantWideForRole (roleId : String) : ScimM (List UserRole) := do
  let roleId ← readUuid database roleId
  let db ← get
  return db.userRoles.filter fun a =>
    a.tenantId = tenantId ∧ a.roleId = roleId ∧ database.findsAtNull a.scopeOrgUnitId ∧
      database.findsAtNull a.scopeGroupId

/-- `uq_user_roles_tenant_wide` admits an assignment to the whole tenant once. -/
def addMember (userId roleId : String) : ScimM Unit := do
  let userId ← readUuid database userId
  let roleId ← readUuid database roleId
  let db ← get
  if tenantWide tenantId userId roleId ∈ db.userRoles then throw .uniqueViolation
  else if h : ∃ u ∈ db.users, u.tenantId = tenantId ∧ u.id = userId then
    set (db.insert (tenantWide tenantId userId roleId) h)
  else throw .foreignKeyViolation

/-- One `DELETE` for one member. -/
def removeMember (userId roleId : String) : ScimM Unit := do
  let userId ← readUuid database userId
  let roleId ← readUuid database roleId
  let db ← get
  set <| db.deleteWhere fun a =>
    a.tenantId = tenantId ∧ a.userId = userId ∧ a.roleId = roleId ∧
      database.deletesAtNull a.scopeOrgUnitId

/-- `RolesRepository.findById`. -/
def findRole (id : String) : ScimM (Option Role) := do
  let id ← readUuid database id
  let db ← get
  return db.roles.find? fun r => r.tenantId = some tenantId ∧ r.id = id

/-- `RolesRepository.update` of the name. `uq_roles_tenant_id_name` admits a name once. -/
def updateRoleName (id : String) (name : Json) : ScimM Unit := do
  let id ← readUuid database id
  match database.roleName name with
  | none => throw .invalidText
  | some name =>
    let db ← get
    if (∃ r ∈ db.roles, r.tenantId = some tenantId ∧ r.id = id) ∧
        ∃ r ∈ db.roles, r.tenantId = some tenantId ∧ r.name = name ∧ r.id ≠ id then
      throw .uniqueViolation
    else
      set <| db.withRoles <| db.roles.map fun r =>
        if r.tenantId = some tenantId ∧ r.id = id then { r with name } else r

/-! ## The service of groups -/

structure ScimGroupRecord where
  role : Role
  members : List User

/-- The users behind the assignments; one that is gone is left out. -/
def membersOf (roleId : String) : ScimM (List User) := do
  let assignments ← findTenantWideForRole database tenantId roleId
  let db ← get
  return assignments.filterMap fun a =>
    db.users.find? fun u => u.tenantId = tenantId ∧ u.id = a.userId

def getOrFail (id : String) : ScimM ScimGroupRecord := do
  match ← findRole database tenantId id with
  | none => throw (.notFound "Group" id)
  | some role => return { role, members := ← membersOf database tenantId id }

/-- The id of an entry. An entry of another kind has no `value`; `null` cannot be asked for one. -/
def memberId : Json → Except ScimError (Option String)
  | .null => .error .typeError
  | .str id => .ok (some id)
  | entry =>
    match entry.get "value" with
    | .str id => .ok (some id)
    | _ => .ok none

/-- The `value` of each entry; what is no list names nobody. -/
def extractMemberIds (value : Option Json) : Except ScimError (List String) :=
  match value with
  | some (.arr entries) => do return (← entries.mapM memberId).reduceOption
  | _ => .ok []

def write (roleId : String) : MemberWrite → ScimM Unit
  | .add userId => addMember database tenantId userId roleId
  | .remove userId => removeMember database tenantId userId roleId

/-- `Promise.all` over the writes. -/
def writeAll (roleId : String) (writes : List MemberWrite) : ScimM Unit := do
  let db ← get
  settleAll ((database.commits db writes).map (write database tenantId roleId))

/-- Only users who are not members yet are added. -/
def addMembers (roleId : String) (userIds : List String) : ScimM Unit := do
  let current := (← findTenantWideForRole database tenantId roleId).map (·.userId)
  writeAll database tenantId roleId ((userIds.filter (· ∉ current)).map .add)

def removeMembers (roleId : String) (userIds : List String) : ScimM Unit :=
  writeAll database tenantId roleId (userIds.map .remove)

/-- `currentIds` is a set, in the order in which the ids come first. -/
def setMembers (roleId : String) (targetUserIds : List String) : ScimM Unit := do
  let current ← findTenantWideForRole database tenantId roleId
  let currentIds := (current.map (·.userId)).eraseDups
  writeAll database tenantId roleId <|
    (targetUserIds.filter (· ∉ currentIds)).map .add ++
      (currentIds.filter (· ∉ targetUserIds)).map .remove

/-- The lower case of an `op` that the DTO admits. -/
inductive PatchOp
  | add
  | remove
  | replace
  deriving DecidableEq

structure ScimPatchOperation where
  op : PatchOp
  path : Option String
  value : Option Json

/-- `if (value.displayName)`. -/
def replaceDisplayName (id : String) (fields : List (String × Json)) : ScimM Unit :=
  match fields.lookup "displayName" with
  | some name => if name.truthy then updateRoleName database tenantId id name else pure ()
  | none => pure ()

/-- `if (value.members !== undefined)`. -/
def replaceMembers (id : String) (fields : List (String × Json)) : ScimM Unit :=
  match fields.lookup "members" with
  | some members => do setMembers database tenantId id (← extractMemberIds (some members))
  | none => pure ()

/-- The body of the loop of `applyPatch`. -/
def applyOperation (id : String) (operation : ScimPatchOperation) : ScimM Unit := do
  if operation.path = some "members" ∧ operation.op = .add then
    addMembers database tenantId id (← extractMemberIds operation.value)
  else if operation.path = some "members" ∧ operation.op = .remove then
    removeMembers database tenantId id (← extractMemberIds operation.value)
  else if operation.path = some "members" ∧ operation.op = .replace then
    setMembers database tenantId id (← extractMemberIds operation.value)
  else
    match operation.path.filter (· ≠ ""), operation.op, operation.value with
    | some path, .replace, some (.str name) =>
      if path = "displayName" then updateRoleName database tenantId id (.str name)
    | none, .replace, some (.obj fields) =>
      replaceDisplayName database tenantId id fields
      replaceMembers database tenantId id fields
    | _, _, _ => pure ()

/-- The operations in turn, each on what the one before it has left. -/
def applyPatch (id : String) (operations : List ScimPatchOperation) : ScimM ScimGroupRecord := do
  let _ ← getOrFail database tenantId id
  operations.forM (applyOperation database tenantId id)
  getOrFail database tenantId id

end Service

end Workforce.Scim
