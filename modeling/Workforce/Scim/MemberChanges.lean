import Workforce.Scim.Groups

/-!
# Changes of the members of a group

What an operation of a patch asks for is a `MemberChange`, a function of the set of members.
`memberChange` reads it from the operation as the documented subset has it, and `Ready` is what the
writes of the service need of the tables. `Ready.of_changeMembers` says that the writes of a change
make it, in whatever order they are committed, and `Ready.exists_changeMembers` when they can be
made.
-/

namespace Workforce.Scim

open Outcomes List

/-! ## Changes of a set -/

/-- What an operation asks of the members of a group. -/
inductive MemberChange
  | add (ids : List String)
  | remove (ids : List String)
  | replace (ids : List String)
  | keep
  deriving DecidableEq

namespace MemberChange

def apply : MemberChange → Finset String → Finset String
  | add ids, s => s ∪ ids.toFinset
  | remove ids, s => s \ ids.toFinset
  | replace ids, _ => ids.toFinset
  | keep, s => s

def ids : MemberChange → List String
  | add ids | remove ids | replace ids => ids
  | keep => []

/-- The ids that the change names and that come to be members by it. -/
def newIds (change : MemberChange) (s : Finset String) : List String :=
  match change with
  | add ids | replace ids => ids.filter (· ∉ s)
  | remove _ | keep => []

end MemberChange

/-- A member in a value: its id, or an object that has it as its `value`. -/
def memberReference : Json → Option String
  | .str id => some id
  | .obj fields =>
    match fields.lookup "value" with
    | some (.str id) => some id
    | _ => none
  | _ => none

/-- The ids of a value that is a list of members. -/
def memberList : Option Json → Option (List String)
  | some (.arr entries) => entries.mapM memberReference
  | _ => none

/-- The documented meaning of an operation: `add`, `remove` and `replace` of `members`, and a
`replace` without a path of an object that has `members`. Every other operation leaves the members
as they are. A value that is no list of members has no meaning here. -/
def memberChange (operation : ScimPatchOperation) : Option MemberChange :=
  match operation.path.filter (· ≠ "") with
  | some path =>
    if path = "members" then
      (memberList operation.value).map fun ids =>
        match operation.op with
        | .add => .add ids
        | .remove => .remove ids
        | .replace => .replace ids
    else some .keep
  | none =>
    match operation.op, operation.value with
    | .replace, some (.obj fields) =>
      match fields.lookup "members" with
      | some members => (memberList (some members)).map .replace
      | none => some .keep
    | _, _ => some .keep

/-- What an operation sets the name of the group to. -/
def newName (operation : ScimPatchOperation) : Option Json :=
  match operation.path.filter (· ≠ ""), operation.op, operation.value with
  | some path, .replace, some (.str name) => if path = "displayName" then some (.str name) else none
  | none, .replace, some (.obj fields) => (fields.lookup "displayName").filter Json.truthy
  | _, _, _ => none

theorem memberId_of_reference {entry : Json} {id : String} (h : memberReference entry = some id) :
    memberId entry = .ok (some id) := by
  unfold memberReference at h
  split at h
  · cases h
    rfl
  · rename_i fields
    split at h
    · rename_i hvalue
      cases h
      simp only [memberId, Json.get, hvalue, Option.getD_some]
    · cases h
  · cases h

theorem mapM_memberId {entries : List Json} {ids : List String}
    (h : entries.mapM memberReference = some ids) :
    entries.mapM memberId = .ok (ids.map some) := by
  induction entries generalizing ids with
  | nil =>
    cases h
    rfl
  | cons entry entries ih =>
    simp only [mapM_cons, Option.bind_eq_bind, Option.bind_eq_some_iff, Option.pure_def,
      Option.some.injEq] at h
    obtain ⟨id, hid, rest, hrest, rfl⟩ := h
    rw [mapM_cons, memberId_of_reference hid, ih hrest]
    rfl

theorem extractMemberIds_of_memberList {value : Option Json} {ids : List String}
    (h : memberList value = some ids) : extractMemberIds value = .ok ids := by
  unfold memberList at h
  split at h
  · simp only [extractMemberIds, mapM_memberId h]
    change Except.ok ((ids.map some).filterMap id) = .ok ids
    rw [filterMap_map, Function.id_comp, filterMap_some]
  · cases h

/-! ## What a group keeps -/

section Tables

variable (database : Database) (tenantId role : String) (known : Finset String)
  (names : Set String)

/-- What the steps of a patch of the role rely on and keep. -/
structure Ready (db : Tables) : Prop where
  found : ∃ r ∈ db.roles, r.tenantId = some tenantId ∧ r.id = role
  /-- `find` takes no scoped assignment of the role for one to the whole tenant. -/
  reads_wide : ∀ a ∈ db.userRoles, a.tenantId = tenantId → a.roleId = role →
    database.findsAtNull a.scopeOrgUnitId → database.findsAtNull a.scopeGroupId →
    a.scopeOrgUnitId = none ∧ a.scopeGroupId = none
  /-- The ids in the tables are spelled as the database gives them back. -/
  stored : ∀ u ∈ db.users, database.uuid u.id = some u.id
  known_users : ∀ id ∈ known, ∃ u ∈ db.users, u.tenantId = tenantId ∧ u.id = id
  names_free : ∀ name ∈ names, ∀ r ∈ db.roles,
    r.tenantId = some tenantId → r.name = name → r.id = role

variable {database tenantId role known names} {id : String} {db db' : Tables}

theorem ends_readUuid_bind_iff {α : Type} {text : String} {f : String → ScimM α} {a : α} :
    Ends (liftM (readUuid database text) >>= f) db a db' ↔
      ∃ u, database.uuid text = some u ∧ Ends (f u) db a db' := by
  rw [ends_liftExcept_bind_iff]
  refine exists_congr fun u => and_congr_left fun _ => ?_
  unfold readUuid
  cases database.uuid text with
  | none => exact iff_of_false nofun nofun
  | some v => exact (Except.ok.injEq v u).to_iff.trans (Option.some.injEq v u).to_iff.symm

theorem ends_addMember_iff (hrole : database.uuid id = some role) {userId : String} :
    Ends (addMember database tenantId userId id) db () db' ↔
      ∃ u, database.uuid userId = some u ∧ u ∉ db.members tenantId role ∧
        ∃ h : ∃ x ∈ db.users, x.tenantId = tenantId ∧ x.id = u,
          db' = db.insert (tenantWide tenantId u role) h := by
  unfold addMember
  rw [ends_readUuid_bind_iff]
  refine exists_congr fun u => and_congr_right fun _ => ?_
  simp only [ends_readUuid_bind_iff, ends_get_bind_iff, hrole, Option.some.injEq, exists_eq_left',
    Tables.mem_members]
  split
  · rename_i hmem
    exact iff_of_false not_ends_throw fun h => h.1 hmem
  · rename_i hnew
    rw [and_iff_right hnew]
    split
    · rename_i huser
      rw [ends_set_iff]
      exact ⟨fun h => ⟨huser, h⟩, fun ⟨_, h⟩ => h⟩
    · rename_i huser
      exact iff_of_false not_ends_throw fun ⟨h, _⟩ => huser h

/-- The rows that `removeMember` deletes. -/
def deletes (database : Database) (tenantId u role : String) (a : UserRole) : Bool :=
  a.tenantId = tenantId ∧ a.userId = u ∧ a.roleId = role ∧ database.deletesAtNull a.scopeOrgUnitId

theorem ends_removeMember_iff (hrole : database.uuid id = some role) {userId : String} :
    Ends (removeMember database tenantId userId id) db () db' ↔
      ∃ u, database.uuid userId = some u ∧
        db' = db.deleteWhere (deletes database tenantId u role) := by
  unfold removeMember
  simp only [ends_readUuid_bind_iff, ends_get_bind_iff, ends_set_iff, hrole, Option.some.injEq,
    exists_eq_left']
  rfl

theorem mem_members_deleteWhere (x u : String) :
    x ∈ (db.deleteWhere (deletes database tenantId u role)).members tenantId role ↔
      x ∈ db.members tenantId role ∧ x ≠ u := by
  simp only [Tables.mem_members, Tables.deleteWhere, mem_filter]
  refine and_congr_right fun _ => ?_
  simp [deletes, tenantWide, database.deletesAtNull_none]

/-- The rows that `findTenantWideForRole` answers. -/
def foundRows (database : Database) (tenantId role : String) (db : Tables) : List UserRole :=
  db.userRoles.filter fun a =>
    a.tenantId = tenantId ∧ a.roleId = role ∧ database.findsAtNull a.scopeOrgUnitId ∧
      database.findsAtNull a.scopeGroupId

theorem ends_findTenantWideForRole_iff (hrole : database.uuid id = some role)
    {rows : List UserRole} :
    Ends (findTenantWideForRole database tenantId id) db rows db' ↔
      rows = foundRows database tenantId role db ∧ db' = db := by
  unfold findTenantWideForRole
  simp only [ends_readUuid_bind_iff, ends_get_bind_iff, ends_pure_iff, hrole, Option.some.injEq,
    exists_eq_left']
  rfl

theorem ends_findTenantWideForRole_bind_iff (hrole : database.uuid id = some role) {α : Type}
    {f : List UserRole → ScimM α} {a : α} :
    Ends (findTenantWideForRole database tenantId id >>= f) db a db' ↔
      Ends (f (foundRows database tenantId role db)) db a db' :=
  ends_bind_of_outcome fun _ _ => ends_findTenantWideForRole_iff hrole

namespace Ready

variable (h : Ready database tenantId role known names db)

include h

theorem mem_foundRows (x : String) :
    x ∈ (foundRows database tenantId role db).map (·.userId) ↔ x ∈ db.members tenantId role := by
  rw [Tables.mem_members, mem_map]
  constructor
  · rintro ⟨a, ha, rfl⟩
    obtain ⟨hmem, hrow⟩ := mem_filter.1 ha
    obtain ⟨htenant, hrole, horg, hgroup⟩ := of_decide_eq_true hrow
    obtain ⟨horg, hgroup⟩ := h.reads_wide a hmem htenant hrole horg hgroup
    obtain ⟨_, _, _, _, _⟩ := a
    cases htenant
    cases hrole
    cases horg
    cases hgroup
    exact hmem
  · intro hmem
    refine ⟨_, mem_filter.2 ⟨hmem, decide_eq_true ?_⟩, rfl⟩
    exact ⟨rfl, rfl, database.findsAtNull_none, database.findsAtNull_none⟩

theorem uuid_of_mem_members {x : String} (hx : x ∈ db.members tenantId role) :
    database.uuid x = some x := by
  obtain ⟨u, hu, -, rfl⟩ := db.exists_user_of_mem_members hx
  exact h.stored u hu

theorem uuid_of_mem_known {x : String} (hx : x ∈ known) : database.uuid x = some x := by
  obtain ⟨u, hu, -, rfl⟩ := h.known_users x hx
  exact h.stored u hu

theorem insert {u : String} (huser : ∃ x ∈ db.users, x.tenantId = tenantId ∧ x.id = u) :
    Ready database tenantId role known names (db.insert (tenantWide tenantId u role) huser) where
  found := h.found
  reads_wide := forall_mem_append.2 ⟨h.reads_wide, forall_mem_singleton.2 fun _ _ _ _ => ⟨rfl, rfl⟩⟩
  stored := h.stored
  known_users := h.known_users
  names_free := h.names_free

theorem deleteWhere (p : UserRole → Bool) :
    Ready database tenantId role known names (db.deleteWhere p) where
  found := h.found
  reads_wide a ha := h.reads_wide a (mem_of_mem_filter ha)
  stored := h.stored
  known_users := h.known_users
  names_free := h.names_free

end Ready

/-! ## Writes -/

def MemberWrite.userId : MemberWrite → String
  | add userId | remove userId => userId

/-- The database spells the id as it is spelled, where it reads it. -/
def Canonical (database : Database) (id : String) : Prop := ∀ u, database.uuid id = some u → u = id

theorem Ready.of_write (hrole : database.uuid id = some role)
    (h : Ready database tenantId role known names db) {w : MemberWrite}
    (hw : Canonical database w.userId) (hends : Ends (write database tenantId id w) db () db') :
    Ready database tenantId role known names db' ∧ ∀ x, x ∈ db'.members tenantId role ↔
      (x ∈ db.members tenantId role ∧ w ≠ .remove x) ∨ w = .add x := by
  cases w with
  | add userId =>
    obtain ⟨u, hu, -, huser, rfl⟩ := (ends_addMember_iff hrole).1 hends
    obtain rfl := hw u hu
    refine ⟨h.insert huser, fun x => ?_⟩
    rw [Tables.mem_members_insert]
    simp [eq_comm]
  | remove userId =>
    obtain ⟨u, hu, rfl⟩ := (ends_removeMember_iff hrole).1 hends
    obtain rfl := hw u hu
    refine ⟨h.deleteWhere _, fun x => ?_⟩
    rw [mem_members_deleteWhere]
    simp [eq_comm]

/-- Writes that add nobody they remove leave the members that they do not remove, and those they
add. -/
theorem Ready.of_settleAll (hrole : database.uuid id = some role) {writes : List MemberWrite}
    (hcanonical : ∀ w ∈ writes, Canonical database w.userId)
    (hdisjoint : ∀ x, .add x ∈ writes → .remove x ∉ writes)
    (h : Ready database tenantId role known names db)
    (hends : Ends (settleAll (writes.map (write database tenantId id))) db () db') :
    Ready database tenantId role known names db' ∧ ∀ x, x ∈ db'.members tenantId role ↔
      (x ∈ db.members tenantId role ∧ .remove x ∉ writes) ∨ .add x ∈ writes := by
  induction writes generalizing db with
  | nil =>
    obtain rfl := ends_settleAll_nil_iff.1 hends
    exact ⟨h, fun x => by simp⟩
  | cons w writes ih =>
    obtain ⟨t, hw, hrest⟩ := ends_settleAll_cons_iff.1 hends
    obtain ⟨ht, hstep⟩ := h.of_write hrole (hcanonical w mem_cons_self) hw
    obtain ⟨hdb', hrun⟩ := ih (fun w hw => hcanonical w (mem_cons_of_mem _ hw))
      (fun x hadd hremove => hdisjoint x (mem_cons_of_mem _ hadd)
        (mem_cons_of_mem _ hremove)) ht hrest
    refine ⟨hdb', fun x => ?_⟩
    have hx := hdisjoint x
    rw [hrun, hstep]
    simp only [mem_cons, eq_comm (a := w)] at hx ⊢
    tauto

theorem Ready.of_writeAll (hrole : database.uuid id = some role) {writes : List MemberWrite}
    (hcanonical : ∀ w ∈ writes, Canonical database w.userId)
    (hdisjoint : ∀ x, .add x ∈ writes → .remove x ∉ writes)
    (h : Ready database tenantId role known names db)
    (hends : Ends (writeAll database tenantId id writes) db () db') :
    Ready database tenantId role known names db' ∧ ∀ x, x ∈ db'.members tenantId role ↔
      (x ∈ db.members tenantId role ∧ .remove x ∉ writes) ∨ .add x ∈ writes := by
  have hperm := database.commits_perm db writes
  have hmem : ∀ w, w ∈ database.commits db writes ↔ w ∈ writes := fun w => hperm.mem_iff
  obtain ⟨hdb', hrun⟩ := h.of_settleAll hrole (fun w hw => hcanonical w ((hmem w).1 hw))
    (fun x hadd hremove => hdisjoint x ((hmem _).1 hadd) ((hmem _).1 hremove)) hends
  exact ⟨hdb', fun x => by rw [hrun, hmem, hmem]⟩

/-- The writes can be made one after the other: what they remove can be read, and who they add is a
user and no member, and is added once. -/
structure Writable (database : Database) (known members : Finset String)
    (writes : List MemberWrite) : Prop where
  readable : ∀ x, .remove x ∈ writes → (database.uuid x).isSome
  users : ∀ x, .add x ∈ writes → x ∈ known ∧ x ∉ members
  once : (writes.filter fun w => w = .add w.userId).Nodup

theorem Ready.exists_write (hrole : database.uuid id = some role)
    (h : Ready database tenantId role known names db) {w : MemberWrite} {writes : List MemberWrite}
    (hw : Writable database known (db.members tenantId role) (w :: writes)) :
    ∃ t, Ends (write database tenantId id w) db () t := by
  cases w with
  | add userId =>
    obtain ⟨hknown, hnew⟩ := hw.users userId mem_cons_self
    exact ⟨_, (ends_addMember_iff hrole).2
      ⟨userId, h.uuid_of_mem_known hknown, hnew, h.known_users userId hknown, rfl⟩⟩
  | remove userId =>
    obtain ⟨u, hu⟩ := Option.isSome_iff_exists.1 (hw.readable userId mem_cons_self)
    exact ⟨_, (ends_removeMember_iff hrole).2 ⟨u, hu, rfl⟩⟩

theorem Ready.exists_settleAll (hrole : database.uuid id = some role) {writes : List MemberWrite}
    (hcanonical : ∀ w ∈ writes, Canonical database w.userId)
    (h : Ready database tenantId role known names db)
    (hw : Writable database known (db.members tenantId role) writes) :
    ∃ t, Ends (settleAll (writes.map (write database tenantId id))) db () t := by
  induction writes generalizing db with
  | nil => exact ⟨db, ends_settleAll_nil_iff.2 rfl⟩
  | cons w writes ih =>
    obtain ⟨t, hfirst⟩ := h.exists_write hrole hw
    obtain ⟨ht, hstep⟩ := h.of_write hrole (hcanonical w mem_cons_self) hfirst
    have hrest : Writable database known (t.members tenantId role) writes := by
      refine ⟨fun x hx => hw.readable x (mem_cons_of_mem _ hx), fun x hx => ?_, ?_⟩
      · obtain ⟨hknown, hnew⟩ := hw.users x (mem_cons_of_mem _ hx)
        refine ⟨hknown, fun hmem => ?_⟩
        rcases (hstep x).1 hmem with ⟨hold, -⟩ | rfl
        · exact hnew hold
        · have honce := hw.once
          simp only [filter_cons, MemberWrite.userId, decide_true, if_true] at honce
          exact (nodup_cons.1 honce).1 (mem_filter.2 ⟨hx, by simp⟩)
      · exact hw.once.sublist ((sublist_cons_self w writes).filter _)
    obtain ⟨s', hs'⟩ := ih (fun w hw => hcanonical w (mem_cons_of_mem _ hw)) ht hrest
    exact ⟨s', ends_settleAll_cons_iff.2 ⟨t, hfirst, hs'⟩⟩

theorem Ready.exists_writeAll (hrole : database.uuid id = some role) {writes : List MemberWrite}
    (hcanonical : ∀ w ∈ writes, Canonical database w.userId)
    (h : Ready database tenantId role known names db)
    (hw : Writable database known (db.members tenantId role) writes) :
    ∃ t, Ends (writeAll database tenantId id writes) db () t := by
  have hperm := database.commits_perm db writes
  have hmem : ∀ w, w ∈ database.commits db writes ↔ w ∈ writes := fun w => hperm.mem_iff
  refine h.exists_settleAll hrole (fun w hw => hcanonical w ((hmem w).1 hw)) ⟨?_, ?_, ?_⟩
  · exact fun x hx => hw.readable x ((hmem _).1 hx)
  · exact fun x hx => hw.users x ((hmem _).1 hx)
  · exact (hperm.filter _).nodup_iff.2 hw.once

/-! ## Changes -/

/-- The writes of a change, where the members are read as `current`. -/
def MemberChange.writes (current : List String) : MemberChange → List MemberWrite
  | add ids => (ids.filter (· ∉ current)).map .add
  | remove ids => ids.map .remove
  | replace ids =>
    (ids.filter (· ∉ current.eraseDups)).map .add ++
      (current.eraseDups.filter (· ∉ ids)).map .remove
  | keep => []

section Writes

variable {s : Finset String} {current : List String} (hcurrent : ∀ x, x ∈ current ↔ x ∈ s)

include hcurrent

theorem MemberChange.add_mem_writes (change : MemberChange) (x : String) :
    .add x ∈ change.writes current ↔ x ∈ change.newIds s := by
  cases change <;> simp [writes, newIds, hcurrent]

theorem MemberChange.remove_mem_writes (change : MemberChange) (x : String) :
    .remove x ∈ change.writes current → x ∉ change.newIds s ∧ (x ∈ change.ids ∨ x ∈ s) := by
  cases change with
  | replace targets =>
    simp only [writes, newIds, MemberChange.ids, mem_append, mem_map, mem_filter,
      reduceCtorEq, and_false, exists_false, false_or, MemberWrite.remove.injEq, exists_eq_right,
      mem_eraseDups, hcurrent, decide_eq_true_eq]
    tauto
  | remove targets =>
    simp only [writes, newIds, MemberChange.ids, mem_map, MemberWrite.remove.injEq,
      exists_eq_right, not_mem_nil, not_false_eq_true, true_and]
    exact .inl
  | _ => simp [writes]

theorem MemberChange.mem_apply_iff (change : MemberChange) (x : String) :
    x ∈ change.apply s ↔
      (x ∈ s ∧ .remove x ∉ change.writes current) ∨ .add x ∈ change.writes current := by
  rw [change.add_mem_writes hcurrent]
  cases change with
  | add targets =>
    simp only [apply, newIds, writes, Finset.mem_union, mem_toFinset, mem_filter,
      mem_map, reduceCtorEq, and_false, exists_false, not_false_eq_true, and_true,
      decide_eq_true_eq]
    tauto
  | remove targets => simp [apply, newIds, writes]
  | replace targets =>
    simp only [apply, newIds, writes, mem_toFinset, mem_append, mem_filter,
      mem_map, reduceCtorEq, and_false, exists_false, false_or, MemberWrite.remove.injEq,
      exists_eq_right, mem_eraseDups, hcurrent, decide_eq_true_eq]
    tauto
  | keep => simp [apply, newIds, writes]

theorem MemberChange.added_writes (change : MemberChange) :
    ((change.writes current).filter fun w => w = .add w.userId) =
      (change.newIds s).map .add := by
  cases change <;>
    simp [writes, newIds, filter_map, MemberWrite.userId, Function.comp_def, hcurrent]

end Writes

def changeMembers (database : Database) (tenantId id : String) : MemberChange → ScimM Unit
  | .add ids => addMembers database tenantId id ids
  | .remove ids => removeMembers database tenantId id ids
  | .replace ids => setMembers database tenantId id ids
  | .keep => pure ()

theorem ends_writeAll_nil_iff : Ends (writeAll database tenantId id []) db () db' ↔ db' = db := by
  unfold writeAll
  rw [ends_get_bind_iff, (database.commits_perm db []).eq_nil]
  exact ends_settleAll_nil_iff

theorem ends_changeMembers_iff (hrole : database.uuid id = some role) (change : MemberChange) :
    Ends (changeMembers database tenantId id change) db () db' ↔
      Ends (writeAll database tenantId id
        (change.writes ((foundRows database tenantId role db).map (·.userId)))) db () db' := by
  cases change with
  | add ids => exact ends_findTenantWideForRole_bind_iff hrole
  | remove ids => exact Iff.rfl
  | replace ids => exact ends_findTenantWideForRole_bind_iff hrole
  | keep => exact ends_pure_iff.trans ((and_iff_right rfl).trans ends_writeAll_nil_iff.symm)

/-- What the database asks of a change: ids that it reads, and new members that are users and are
named once. -/
structure MemberChange.Enabled (database : Database) (known : Finset String)
    (change : MemberChange) (s : Finset String) : Prop where
  readable : ∀ x ∈ change.ids, (database.uuid x).isSome
  users : ∀ x ∈ change.newIds s, x ∈ known
  once : (change.newIds s).Nodup

section Change

variable {change : MemberChange} (hrole : database.uuid id = some role)
  (hcanonical : ∀ x ∈ change.ids, Canonical database x)
  (h : Ready database tenantId role known names db)

include hcanonical h

theorem Ready.canonical_writes :
    ∀ w ∈ change.writes ((foundRows database tenantId role db).map (·.userId)),
      Canonical database w.userId := by
  intro w hw
  cases w with
  | add x =>
    refine hcanonical x ?_
    have hnew := (change.add_mem_writes h.mem_foundRows x).1 hw
    cases change with
    | add ids | replace ids => exact mem_of_mem_filter hnew
    | remove ids | keep => cases hnew
  | remove x =>
    obtain ⟨-, hx | hx⟩ := change.remove_mem_writes h.mem_foundRows x hw
    · exact hcanonical x hx
    · intro u hu
      rw [MemberWrite.userId, h.uuid_of_mem_members hx] at hu
      exact (Option.some.inj hu).symm

include hrole

theorem Ready.of_changeMembers
    (hends : Ends (changeMembers database tenantId id change) db () db') :
    Ready database tenantId role known names db' ∧
      db'.members tenantId role = change.apply (db.members tenantId role) := by
  rw [ends_changeMembers_iff hrole] at hends
  obtain ⟨hdb', hmembers⟩ := h.of_writeAll hrole (h.canonical_writes hcanonical)
    (fun x hadd hremove => (change.remove_mem_writes h.mem_foundRows x hremove).1
      ((change.add_mem_writes h.mem_foundRows x).1 hadd)) hends
  refine ⟨hdb', Finset.ext fun x => ?_⟩
  rw [hmembers, change.mem_apply_iff h.mem_foundRows]

theorem Ready.exists_changeMembers
    (henabled : change.Enabled database known (db.members tenantId role)) :
    ∃ t, Ends (changeMembers database tenantId id change) db () t := by
  simp only [ends_changeMembers_iff hrole]
  refine h.exists_writeAll hrole (h.canonical_writes hcanonical)
    ⟨fun x hx => ?_, fun x hx => ?_, ?_⟩
  · obtain ⟨-, hx | hx⟩ := change.remove_mem_writes h.mem_foundRows x hx
    · exact henabled.readable x hx
    · rw [h.uuid_of_mem_members hx]
      rfl
  · have hnew := (change.add_mem_writes h.mem_foundRows x).1 hx
    refine ⟨henabled.users x hnew, ?_⟩
    cases change with
    | add ids | replace ids => exact of_decide_eq_true (mem_filter.1 hnew).2
    | remove ids | keep => cases hnew
  · rw [change.added_writes h.mem_foundRows]
    exact henabled.once.map fun _ _ heq => MemberWrite.add.inj heq

end Change

end Tables

end Workforce.Scim
