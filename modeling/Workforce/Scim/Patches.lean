import Workforce.Scim.MemberChanges

/-!
# Patches of SCIM groups

An operation sets the name of the group, if it does, and then changes the members
(`ends_applyOperation_iff`). A patch that answers has made the changes of its operations one after
the other (`members_of_applyPatch`), and it answers where each can be made when its turn comes
(`exists_applyPatch`).
-/

namespace Workforce.Scim

open Outcomes List

section Tables

variable {database : Database} {tenantId role : String} {known : Finset String}
  {names : Set String} {id : String} {db db' : Tables}

/-! ## Operations -/

theorem ends_updateRoleName_iff (hrole : database.uuid id = some role) {name : Json} :
    Ends (updateRoleName database tenantId id name) db () db' ↔
      ∃ text, database.roleName name = some text ∧
        ¬ ((∃ r ∈ db.roles, r.tenantId = some tenantId ∧ r.id = role) ∧
          ∃ r ∈ db.roles, r.tenantId = some tenantId ∧ r.name = text ∧ r.id ≠ role) ∧
        db' = db.withRoles (db.roles.map fun r =>
          if r.tenantId = some tenantId ∧ r.id = role then { r with name := text } else r) := by
  unfold updateRoleName
  simp only [ends_readUuid_bind_iff, hrole, Option.some.injEq, exists_eq_left']
  cases database.roleName name with
  | none => exact iff_of_false not_ends_throw nofun
  | some text =>
    simp only [ends_get_bind_iff, Option.some.injEq, exists_eq_left']
    split
    · rename_i htaken
      exact iff_of_false not_ends_throw fun h => h.1 htaken
    · rename_i hfree
      rw [ends_set_iff, and_iff_right hfree]

def setName (database : Database) (tenantId id : String) : Option Json → ScimM Unit
  | some name => updateRoleName database tenantId id name
  | none => pure ()

theorem ends_extractMemberIds_bind_iff {value : Option Json} {ids : List String}
    (hids : memberList value = some ids) {f : List String → ScimM Unit} :
    Ends (liftM (extractMemberIds value) >>= f) db () db' ↔ Ends (f ids) db () db' := by
  rw [ends_liftExcept_bind_iff, extractMemberIds_of_memberList hids]
  simp only [Except.ok.injEq, exists_eq_left']

theorem ends_setName_none_iff {t : Tables} :
    Ends (setName database tenantId id none) db () t ↔ t = db :=
  ends_pure_iff.trans (and_iff_right rfl)

theorem ends_ignored_iff :
    Ends (pure () : ScimM Unit) db () db' ↔
      ∃ t, Ends (setName database tenantId id none) db () t ∧
        Ends (changeMembers database tenantId id .keep) t () db' := by
  simp only [ends_setName_none_iff, exists_eq_left]
  exact Iff.rfl

theorem ends_setName_keep_iff (name : Option Json) :
    Ends (setName database tenantId id name) db () db' ↔
      ∃ t, Ends (setName database tenantId id name) db () t ∧
        Ends (changeMembers database tenantId id .keep) t () db' := by
  simp only [changeMembers, ends_pure_iff, true_and, exists_eq_right']

theorem replaceDisplayName_eq (fields : List (String × Json)) :
    replaceDisplayName database tenantId id fields =
      setName database tenantId id ((fields.lookup "displayName").filter Json.truthy) := by
  unfold replaceDisplayName
  cases fields.lookup "displayName" with
  | none => rfl
  | some name =>
    rw [Option.filter_some, apply_ite (setName database tenantId id)]
    rfl

theorem ends_replaceMembers_iff {fields : List (String × Json)} {change : MemberChange}
    (hchange : (match fields.lookup "members" with
      | some members => (memberList (some members)).map .replace
      | none => some .keep) = some change) :
    Ends (replaceMembers database tenantId id fields) db () db' ↔
      Ends (changeMembers database tenantId id change) db () db' := by
  unfold replaceMembers
  cases hlookup : fields.lookup "members" with
  | none =>
    rw [hlookup] at hchange
    cases hchange
    rfl
  | some members =>
    rw [hlookup] at hchange
    obtain ⟨ids, hids, rfl⟩ := Option.map_eq_some_iff.1 hchange
    exact ends_extractMemberIds_bind_iff hids

/-- The operation sets the name, if it does, and then changes the members. -/
theorem ends_applyOperation_iff {operation : ScimPatchOperation} {change : MemberChange}
    (hchange : memberChange operation = some change) :
    Ends (applyOperation database tenantId id operation) db () db' ↔
      ∃ t, Ends (setName database tenantId id (newName operation)) db () t ∧
        Ends (changeMembers database tenantId id change) t () db' := by
  obtain ⟨op, path, value⟩ := operation
  by_cases hmembers : path = some "members"
  · subst hmembers
    obtain ⟨ids, hids, rfl⟩ := Option.map_eq_some_iff.1 hchange
    have hname : newName ⟨op, some "members", value⟩ = none := by
      unfold newName
      split
      · rename_i hpath _ _
        cases hpath
        rfl
      · rename_i hpath _ _
        cases hpath
      · rfl
    simp only [hname, ends_setName_none_iff, exists_eq_left]
    cases op with
    | add => exact ends_extractMemberIds_bind_iff hids
    | remove => exact ends_extractMemberIds_bind_iff hids
    | replace => exact ends_extractMemberIds_bind_iff hids
  · simp only [applyOperation, hmembers, false_and, if_false]
    cases hpath : path.filter (· ≠ "") with
    | some p =>
      have hp : p ≠ "members" := fun h => hmembers (h ▸ (Option.filter_eq_some_iff.1 hpath).1)
      obtain rfl : MemberChange.keep = change := by
        simpa only [memberChange, hpath, if_neg hp, Option.some.injEq] using hchange
      simp only [newName, hpath]
      cases op with
      | add | remove => exact ends_ignored_iff
      | replace =>
        obtain _ | _ | _ | _ | name | _ | _ := value
        case some.str =>
          by_cases hname : p = "displayName"
          · simp only [if_pos hname]
            exact ends_setName_keep_iff (some (.str name))
          · simp only [if_neg hname]
            exact ends_ignored_iff
        all_goals exact ends_ignored_iff
    | none =>
      simp only [memberChange, hpath] at hchange
      simp only [newName, hpath]
      cases op with
      | add | remove =>
        cases hchange
        exact ends_ignored_iff
      | replace =>
        obtain _ | _ | _ | _ | _ | _ | fields := value
        case some.obj =>
          simp only [ends_andThen_iff, replaceDisplayName_eq]
          exact exists_congr fun t => and_congr_right fun _ => ends_replaceMembers_iff hchange
        all_goals
          cases hchange
          exact ends_ignored_iff

/-! ## Patches -/

theorem Ready.of_setName (hrole : database.uuid id = some role)
    (h : Ready database tenantId role known names db) {name : Option Json}
    (hends : Ends (setName database tenantId id name) db () db') :
    Ready database tenantId role known names db' ∧
      db'.members tenantId role = db.members tenantId role := by
  cases name with
  | none =>
    obtain rfl := ends_setName_none_iff.1 hends
    exact ⟨h, rfl⟩
  | some name =>
    obtain ⟨text, -, -, rfl⟩ := (ends_updateRoleName_iff hrole).1 hends
    refine ⟨⟨?_, h.reads_wide, h.stored, h.known_users, fun name hname r hr htenant heq => ?_⟩, rfl⟩
    · obtain ⟨r, hr, htenant, hid⟩ := h.found
      exact ⟨_, mem_map_of_mem hr, by rw [if_pos ⟨htenant, hid⟩]; exact ⟨htenant, hid⟩⟩
    · obtain ⟨r₀, hr₀, rfl⟩ := mem_map.1 hr
      by_cases hself : r₀.tenantId = some tenantId ∧ r₀.id = role
      · rw [if_pos hself]
        exact hself.2
      · rw [if_neg hself] at htenant heq ⊢
        exact h.names_free name hname r₀ hr₀ htenant heq

theorem Ready.exists_setName (hrole : database.uuid id = some role)
    (h : Ready database tenantId role known names db) {name : Option Json}
    (hname : ∀ value ∈ name, ∃ text ∈ names, database.roleName value = some text) :
    ∃ t, Ends (setName database tenantId id name) db () t := by
  cases name with
  | none => exact ⟨db, ends_setName_none_iff.2 rfl⟩
  | some name =>
    obtain ⟨text, hmem, htext⟩ := hname name rfl
    refine ⟨_, (ends_updateRoleName_iff hrole).2 ⟨text, htext, ?_, rfl⟩⟩
    rintro ⟨-, r, hr, htenant, heq, hne⟩
    exact hne (h.names_free text hmem r hr htenant heq)

section Operation

variable {operation : ScimPatchOperation} {change : MemberChange}
  (hrole : database.uuid id = some role) (hchange : memberChange operation = some change)
  (hcanonical : ∀ x ∈ change.ids, Canonical database x)
  (h : Ready database tenantId role known names db)

include hrole hchange hcanonical h

theorem Ready.of_applyOperation
    (hends : Ends (applyOperation database tenantId id operation) db () db') :
    Ready database tenantId role known names db' ∧
      db'.members tenantId role = change.apply (db.members tenantId role) := by
  obtain ⟨t, hname, hends⟩ := (ends_applyOperation_iff hchange).1 hends
  obtain ⟨ht, hmembers⟩ := h.of_setName hrole hname
  rw [← hmembers]
  exact ht.of_changeMembers hrole hcanonical hends

theorem Ready.exists_applyOperation
    (hname : ∀ value ∈ newName operation, ∃ text ∈ names, database.roleName value = some text)
    (henabled : change.Enabled database known (db.members tenantId role)) :
    ∃ t, Ends (applyOperation database tenantId id operation) db () t := by
  obtain ⟨s, hs⟩ := h.exists_setName hrole hname
  obtain ⟨hready, hmembers⟩ := h.of_setName hrole hs
  rw [← hmembers] at henabled
  obtain ⟨t, ht⟩ := hready.exists_changeMembers hrole hcanonical henabled
  exact ⟨t, (ends_applyOperation_iff hchange).2 ⟨s, hs, ht⟩⟩

end Operation

section Record

variable (hrole : database.uuid id = some role)

include hrole

theorem ends_findRole_iff {found : Option Role} :
    Ends (findRole database tenantId id) db found db' ↔
      found = db.roles.find? (fun r => r.tenantId = some tenantId ∧ r.id = role) ∧ db' = db := by
  unfold findRole
  simp only [ends_readUuid_bind_iff, ends_get_bind_iff, ends_pure_iff, hrole, Option.some.injEq,
    exists_eq_left']

theorem ends_membersOf_iff {users : List User} :
    Ends (membersOf database tenantId id) db users db' ↔
      users = (foundRows database tenantId role db).filterMap (fun a =>
        db.users.find? fun u => u.tenantId = tenantId ∧ u.id = a.userId) ∧ db' = db := by
  unfold membersOf
  rw [ends_findTenantWideForRole_bind_iff hrole]
  exact ends_pure_iff

theorem ends_getOrFail_iff {record : ScimGroupRecord} :
    Ends (getOrFail database tenantId id) db record db' ↔
      ∃ r, db.roles.find? (fun r => r.tenantId = some tenantId ∧ r.id = role) = some r ∧
        record = ⟨r, (foundRows database tenantId role db).filterMap fun a =>
          db.users.find? fun u => u.tenantId = tenantId ∧ u.id = a.userId⟩ ∧ db' = db := by
  unfold getOrFail
  rw [ends_bind_of_outcome fun _ _ => ends_findRole_iff hrole]
  cases db.roles.find? (fun r => r.tenantId = some tenantId ∧ r.id = role) with
  | none => exact iff_of_false not_ends_throw nofun
  | some r =>
    simp only [Option.some.injEq, exists_eq_left']
    rw [ends_bind_of_outcome fun _ _ => ends_membersOf_iff hrole]
    exact ends_pure_iff

theorem Ready.record_members (h : Ready database tenantId role known names db)
    {record : ScimGroupRecord} (hends : Ends (getOrFail database tenantId id) db record db') :
    db' = db ∧ (record.members.map (·.id)).toFinset = db.members tenantId role := by
  obtain ⟨r, -, rfl, rfl⟩ := (ends_getOrFail_iff hrole).1 hends
  refine ⟨rfl, Finset.ext fun x => ?_⟩
  rw [mem_toFinset]
  constructor
  · intro hx
    obtain ⟨u, hu, rfl⟩ := mem_map.1 hx
    obtain ⟨a, ha, hfind⟩ := mem_filterMap.1 hu
    have hfound := find?_some hfind
    have hid := (of_decide_eq_true hfound).2
    exact (h.mem_foundRows u.id).1 (mem_map.2 ⟨a, ha, hid.symm⟩)
  · intro hx
    obtain ⟨a, ha, rfl⟩ := mem_map.1 ((h.mem_foundRows x).2 hx)
    obtain ⟨u, hu, htenant, hid⟩ := db'.exists_user_of_mem_members hx
    obtain ⟨u', hu'⟩ := Option.isSome_iff_exists.1 <|
      find?_isSome (p := fun u => u.tenantId = tenantId ∧ u.id = a.userId) |>.2
        ⟨u, hu, decide_eq_true ⟨htenant, hid⟩⟩
    have hfound := find?_some hu'
    have hid' := (of_decide_eq_true hfound).2
    exact mem_map.2 ⟨u', mem_filterMap.2 ⟨a, ha, hu'⟩, hid'⟩

theorem Ready.exists_getOrFail (h : Ready database tenantId role known names db) :
    ∃ record, Ends (getOrFail database tenantId id) db record db := by
  obtain ⟨r, hr, htenant, hid⟩ := h.found
  obtain ⟨r', hr'⟩ := Option.isSome_iff_exists.1 <|
    find?_isSome (p := fun r => r.tenantId = some tenantId ∧ r.id = role) |>.2
      ⟨r, hr, decide_eq_true ⟨htenant, hid⟩⟩
  exact ⟨_, (ends_getOrFail_iff hrole).2 ⟨r', hr', rfl, rfl⟩⟩

end Record

/-- The documented meaning of an operation whose ids are spelled as the database spells them. -/
def Means (database : Database) (operation : ScimPatchOperation) (change : MemberChange) : Prop :=
  memberChange operation = some change ∧ ∀ x ∈ change.ids, Canonical database x

section Patch

variable {operations : List ScimPatchOperation} {changes : List MemberChange}
  (hrole : database.uuid id = some role)
  (hmeans : Forall₂ (Means database) operations changes)
  (h : Ready database tenantId role known names db)

include hrole hmeans h

theorem Ready.of_operations
    (hends : Ends (operations.forM (applyOperation database tenantId id)) db () db') :
    Ready database tenantId role known names db' ∧ db'.members tenantId role =
      changes.foldl (fun s change => change.apply s) (db.members tenantId role) :=
  hends.forM hmeans
    (fun _ _ _ _ _ hmeans h hends => h.of_applyOperation hrole hmeans.1 hmeans.2 hends) h

/-- A patch that answers has made the changes of its operations one after the other, and answers
the members that there are then. -/
theorem members_of_applyPatch {record : ScimGroupRecord}
    (hends : Ends (applyPatch database tenantId id operations) db record db') :
    db'.members tenantId role =
        changes.foldl (fun s change => change.apply s) (db.members tenantId role) ∧
      (record.members.map (·.id)).toFinset = db'.members tenantId role := by
  obtain ⟨_, s, hfirst, hrest⟩ := ends_bind_iff.1 hends
  obtain ⟨rfl, -⟩ := h.record_members hrole hfirst
  obtain ⟨t, hloop, hlast⟩ := ends_andThen_iff.1 hrest
  obtain ⟨ht, hmembers⟩ := h.of_operations hrole hmeans hloop
  obtain ⟨rfl, hrecord⟩ := ht.record_members hrole hlast
  exact ⟨hmembers, hrecord⟩

theorem exists_applyPatch
    (hnames : ∀ operation ∈ operations, ∀ value ∈ newName operation,
      ∃ text ∈ names, database.roleName value = some text)
    (henabled : AllEnabled MemberChange.apply (MemberChange.Enabled database known) changes
      (db.members tenantId role)) :
    ∃ record t, Ends (applyPatch database tenantId id operations) db record t := by
  obtain ⟨first, hfirst⟩ := h.exists_getOrFail hrole
  obtain ⟨t, hloop⟩ : ∃ t, Ends (operations.forM (applyOperation database tenantId id)) db () t :=
    exists_ends_forM hmeans
      (fun _ _ _ _ _ hmeans h hends => h.of_applyOperation hrole hmeans.1 hmeans.2 hends)
      (fun operation hmem _ _ hmeans h henabled =>
        h.exists_applyOperation hrole hmeans.1 hmeans.2 (hnames operation hmem) henabled)
      h henabled
  obtain ⟨ht, -⟩ := h.of_operations hrole hmeans hloop
  obtain ⟨record, hlast⟩ := ht.exists_getOrFail hrole
  exact ⟨record, t, ends_bind_iff.2 ⟨first, db, hfirst, ends_andThen_iff.2 ⟨t, hloop, hlast⟩⟩⟩

end Patch

end Tables

/-! ## Filters and patches -/

/-- A filter by an attribute that has a column lists users who have the value in it. A patch that
answers leaves the members that its changes make one after the other, and it answers where its names
are free and each change can be made when its turn comes. -/
theorem filters_and_patches (database : Database) (tenantId : String) :
    (∀ (users : List User) (filter : String) (attr value : List Char) (column : UserColumn)
        (startIndex : ℤ) (count : ℕ),
      IsEqFilter filter.toList attr value →
      filterAttributeToColumn.lookup (toLowerCase (String.ofList attr)) = some column →
      ∃ page, list tenantId users (some filter) startIndex count = .ok page ∧
        ∀ u ∈ page.resources, u.tenantId = tenantId ∧
          u.get column = some (String.ofList value)) ∧
    ∀ (id role : String) (known : Finset String) (names : Set String) (db : Tables)
      (operations : List ScimPatchOperation) (changes : List MemberChange),
      database.uuid id = some role → Ready database tenantId role known names db →
      Forall₂ (Means database) operations changes →
      (∀ record db', Ends (applyPatch database tenantId id operations) db record db' →
        db'.members tenantId role =
            changes.foldl (fun s change => change.apply s) (db.members tenantId role) ∧
          (record.members.map (·.id)).toFinset = db'.members tenantId role) ∧
      ((∀ operation ∈ operations, ∀ value ∈ newName operation,
          ∃ text ∈ names, database.roleName value = some text) →
        AllEnabled MemberChange.apply (MemberChange.Enabled database known) changes
          (db.members tenantId role) →
        ∃ record db', Ends (applyPatch database tenantId id operations) db record db') := by
  constructor
  · intro users filter attr value column startIndex count hfilter hcolumn
    obtain ⟨found, hfound, hlist⟩ :=
      list_of_supported hfilter hcolumn tenantId users startIndex count
    refine ⟨_, hlist, fun u hu => ?_⟩
    have hmem : u ∈ found := mem_of_mem_drop (mem_of_mem_take hu)
    rw [hfound] at hmem
    exact of_decide_eq_true (mem_filter.1 hmem).2
  · intro id role known names db operations changes hrole h hmeans
    exact ⟨fun record db' => members_of_applyPatch hrole hmeans h,
      exists_applyPatch hrole hmeans h⟩

def acme : String := "7c9e6679-7425-40de-944b-e07fc1f90ae7"
def agents : String := "1b4e28ba-2fa1-41d2-883f-0016d3cca427"
def alice : String := "16fd2706-8baf-433b-82eb-8c7fada847da"
def bob : String := "886313e1-3b8a-4372-9b90-0c9aee199e5d"

/-- The group `agents` of the tenant `acme`, with the member `alice`. -/
def exampleTables : Tables where
  users := [⟨alice, acme, none, "alice@example.com"⟩, ⟨bob, acme, none, "bob@example.com"⟩]
  roles := [⟨agents, some acme, "Agents"⟩]
  userRoles := [tenantWide acme alice agents]
  assigned := by simp [tenantWide]

/-- A database in which `find` passes over a `null` of its `where`. -/
def exampleDatabase : Database where
  uuid := some
  findsAtNull _ := true
  findsAtNull_none := rfl
  deletesAtNull := Option.isNone
  deletesAtNull_none := rfl
  roleName
    | .str name => some name
    | _ => none
  commits _ writes := writes
  commits_perm _ writes := .refl writes

theorem exampleTables_members : exampleTables.members acme agents = {alice} := by decide

theorem exampleTables_ready :
    Ready exampleDatabase acme agents {alice, bob} {"Team"} exampleTables where
  found := ⟨_, mem_singleton_self _, rfl, rfl⟩
  reads_wide := forall_mem_singleton.2 fun _ _ _ _ => ⟨rfl, rfl⟩
  stored _ _ := rfl
  known_users := by simp [exampleTables]
  names_free _ _ := forall_mem_singleton.2 fun _ _ => rfl

theorem canonical_example (x : String) : Canonical exampleDatabase x := fun _ h =>
  (Option.some.inj h).symm

/-- The operation that removes the member whose `value` is the id, by a path with a filter. -/
def removeByPath (id : String) : ScimPatchOperation :=
  ⟨.remove, some ("members[value eq \"" ++ id ++ "\"]"), none⟩

/-- A path with a filter is outside of the documented subset: `alice` stays a member. -/
theorem removeByPath_keeps : ∃ record db',
    Ends (applyPatch exampleDatabase acme agents [removeByPath alice]) exampleTables record db' ∧
      db'.members acme agents ≠
        (MemberChange.remove [alice]).apply (exampleTables.members acme agents) := by
  have hmeans : Forall₂ (Means exampleDatabase) [removeByPath alice] [.keep] :=
    .cons ⟨by decide, fun _ _ => canonical_example _⟩ .nil
  obtain ⟨record, db', hends⟩ := exists_applyPatch rfl hmeans exampleTables_ready
    (forall_mem_singleton.2 nofun) ⟨⟨nofun, nofun, .nil⟩, trivial⟩
  refine ⟨record, db', hends, ?_⟩
  rw [(members_of_applyPatch rfl hmeans exampleTables_ready hends).1]
  decide

/-- Adds `bob`, names the group `Team`, and removes `alice`, who is named twice. -/
def examplePatch : List ScimPatchOperation :=
  [⟨.add, some "members", some (.arr [.str alice, .obj [("value", .str bob)]])⟩,
    ⟨.replace, none, some (.obj [("displayName", .str "Team")])⟩,
    ⟨.remove, some "members", some (.arr [.str alice, .str alice])⟩]

theorem filters_and_patches_example :
    (∃ page, list acme exampleTables.users (some "userName eq \"bob@example.com\"") 1 100 =
        .ok page ∧
      ∀ u ∈ page.resources, u.tenantId = acme ∧ u.get .email = some "bob@example.com") ∧
    ∃ record db',
      Ends (applyPatch exampleDatabase acme agents examplePatch) exampleTables record db' ∧
        db'.members acme agents = {bob} := by
  obtain ⟨hfilters, hpatches⟩ := filters_and_patches exampleDatabase acme
  have hmeans : Forall₂ (Means exampleDatabase) examplePatch
      [.add [alice, bob], .keep, .remove [alice, alice]] :=
    .cons ⟨rfl, fun _ _ => canonical_example _⟩ <| .cons ⟨rfl, fun _ _ => canonical_example _⟩ <|
      .cons ⟨rfl, fun _ _ => canonical_example _⟩ .nil
  obtain ⟨hmembers, hanswers⟩ := hpatches agents agents {alice, bob} {"Team"} exampleTables
    examplePatch _ rfl exampleTables_ready hmeans
  constructor
  · exact hfilters exampleTables.users "userName eq \"bob@example.com\"" "userName".toList
      "bob@example.com".toList .email 1 100 (matchFilter_eq_some_iff.1 (by decide)) (by decide)
  · have hnames : ∀ operation ∈ examplePatch, ∀ value ∈ newName operation,
        ∃ text ∈ ({"Team"} : Set String), exampleDatabase.roleName value = some text := by
      refine forall_mem_cons.2 ⟨nofun, forall_mem_cons.2 ⟨?_, ?_⟩⟩
      · rintro _ ⟨⟩
        exact ⟨"Team", rfl, rfl⟩
      · exact forall_mem_singleton.2 nofun
    obtain ⟨record, db', hends⟩ := hanswers hnames
      ⟨⟨fun _ _ => rfl, by decide, by decide⟩, ⟨nofun, nofun, .nil⟩,
        ⟨fun _ _ => rfl, nofun, .nil⟩, trivial⟩
    refine ⟨record, db', hends, ?_⟩
    rw [(hmembers record db' hends).1]
    decide

end Workforce.Scim
