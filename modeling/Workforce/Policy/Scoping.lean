import Workforce.Policy.Lineages

/-!
# Org-unit scoping of policy writes

`policy-management.service.ts` and `abac.service.ts`: a call of `createOrVersion` or `deactivate` is
checked for one org unit. The first is checked for the unit of the version it writes; the second for
the unit of the version that `findOpenVersion` returns, which may be any of the lineage.

* `Touches`: the versions that a call creates, closes or changes.
* `policy_writes_scoped_iff`: the runs in which every call touches only what its caller may write.
-/

namespace Workforce.Policies.Scoping

open List

variable {Definition : Type*}

/-! ## Roles and permissions -/

structure UserRole where
  tenantId : ℕ
  userId : ℕ
  roleId : ℕ
  scopeOrgUnitId : Option ℕ
  scopeGroupId : Option ℕ

structure RolePermission where
  roleId : ℕ
  permissionId : ℕ

structure Permission where
  id : ℕ
  resource : String
  action : String

structure Grants where
  userRoles : List UserRole
  rolePermissions : List RolePermission
  permissions : List Permission

/-- The condition on the scope of a role; in SQL nothing equals `NULL`. -/
def UserRole.covers (role : UserRole) (targetOrgUnitId : Option ℕ) : Bool :=
  role.scopeOrgUnitId.isNone && role.scopeGroupId.isNone ||
    role.scopeOrgUnitId.isSome && role.scopeOrgUnitId = targetOrgUnitId

/-- `isPermittedForOrgUnit`. -/
def Grants.isPermittedForOrgUnit (grants : Grants) (tenantId userId : ℕ) (resource action : String)
    (targetOrgUnitId : Option ℕ) : Bool :=
  grants.userRoles.any fun ur =>
    ur.tenantId = tenantId && ur.userId = userId && ur.covers targetOrgUnitId &&
      grants.rolePermissions.any fun rp =>
        rp.roleId = ur.roleId && grants.permissions.any fun p =>
          p.id = rp.permissionId && p.resource = resource && p.action = action

/-- The user holds `policy:write` for the org unit. -/
def Grants.mayWrite (grants : Grants) (tenantId userId : ℕ) (orgUnitId : Option ℕ) : Bool :=
  grants.isPermittedForOrgUnit tenantId userId "policy" "write" orgUnitId

/-! ## The service -/

structure CreatePolicyDto (Definition : Type*) where
  policyGroupId : Option ℕ
  policyType : PolicyType
  orgUnitId : Option ℕ
  definition : Definition
  effectiveFrom : Option ℤ

/-- The version that is asked for; without a date it starts now. -/
def CreatePolicyDto.lineageInput (input : CreatePolicyDto Definition) (now : ℤ) :
    LineageInput Definition :=
  ⟨input.policyType, input.orgUnitId, input.definition, input.effectiveFrom.getD now⟩

inductive ServiceError
  | abacScopeDenied (targetOrgUnitId : Option ℕ)
  | policy (e : PolicyError)

structure State (Definition : Type*) where
  store : Policies.State Definition
  grants : Grants

inductive Call (Definition : Type*)
  | createOrVersion (actorUserId tenantId id : ℕ) (input : CreatePolicyDto Definition) (now : ℤ)
      (interrupted : Bool)
  /-- The query of `findOpenVersion` returns the row `found`. -/
  | deactivate (actorUserId tenantId policyGroupId : ℕ) (found : Option ℕ) (now : ℤ)
      (interrupted : Bool)
  /-- The roles and permissions change. -/
  | grant (grants : Grants)

namespace State

variable (s : State Definition)

/-- The outcome of a transaction on the policies. -/
def write (r : Except PolicyError (Policy Definition) × Policies.State Definition) :
    Except ServiceError (Policy Definition) × State Definition :=
  (r.1.mapError .policy, { s with store := r.2 })

def createOrVersion (actorUserId tenantId id : ℕ) (input : CreatePolicyDto Definition) (now : ℤ)
    (interrupted : Bool) : Except ServiceError (Policy Definition) × State Definition :=
  if s.grants.mayWrite tenantId actorUserId input.orgUnitId then
    match input.policyGroupId with
    | some policyGroupId =>
      s.write (transact s.store interrupted
        (s.store.supersede tenantId policyGroupId id (input.lineageInput now)))
    | none =>
      s.write (transact s.store interrupted
        (s.store.createLineage tenantId id (input.lineageInput now)))
  else (.error (.abacScopeDenied input.orgUnitId), s)

def deactivate (actorUserId tenantId policyGroupId : ℕ) (found : Option (Policy Definition))
    (now : ℤ) (interrupted : Bool) :
    Except ServiceError (Policy Definition) × State Definition :=
  match found with
  | none => (.error (.policy (.policyNotFound policyGroupId)), s)
  | some current =>
    if s.grants.mayWrite tenantId actorUserId current.orgUnitId then
      s.write (transact s.store interrupted (s.store.deactivate tenantId policyGroupId now))
    else (.error (.abacScopeDenied current.orgUnitId), s)

end State

/-- What a call leaves. -/
def call (s : State Definition) : Call Definition → State Definition
  | .createOrVersion actorUserId tenantId id input now interrupted =>
    (s.createOrVersion actorUserId tenantId id input now interrupted).2
  | .deactivate actorUserId tenantId policyGroupId found now interrupted =>
    (s.deactivate actorUserId tenantId policyGroupId (found.bind s.store.findById) now
      interrupted).2
  | .grant grants => { s with grants := grants }

/-- What a call may meet: the ids are random, and the query returns what it may. -/
def admissible (s : State Definition) : Call Definition → Bool
  | .createOrVersion _ _ id _ _ _ => fresh s.store id
  | .deactivate _ tenantId policyGroupId found _ _ => mayFind s.store tenantId policyGroupId found
  | .grant _ => true

/-- One step: a call, whatever it returns. -/
def step (s : State Definition) (c : Call Definition) : Option (State Definition) :=
  if admissible s c then some (call s c) else none

/-- No policy exists; the roles are any. -/
def State.init (grants : Grants) : State Definition := ⟨.init, grants⟩

/-! ## What has to hold -/

/-- The version was created, closed or changed. -/
def Touches (s t : State Definition) (p : Policy Definition) : Prop :=
  p ∈ t.store.policies ∧ p ∉ s.store.policies ∨ p ∈ s.store.policies ∧ p ∉ t.store.policies

/-- The user and the tenant of a call. -/
def Call.actor : Call Definition → Option (ℕ × ℕ)
  | .createOrVersion actorUserId tenantId _ _ _ _ => some (actorUserId, tenantId)
  | .deactivate actorUserId tenantId _ _ _ _ => some (actorUserId, tenantId)
  | .grant _ => none

/-- A call touches only versions of org units for which its caller holds `policy:write`. -/
def Scoped (s : State Definition) (c : Call Definition) : Prop :=
  ∀ actorUserId tenantId, c.actor = some (actorUserId, tenantId) → ∀ p, Touches s (call s c) p →
    s.grants.mayWrite tenantId actorUserId p.orgUnitId

/-- A call that passes its check and gets to end the open version of a lineage is made by a user who
may write that version too. -/
def Covered (s : State Definition) : Call Definition → Prop
  | .createOrVersion actorUserId tenantId _ input now interrupted =>
    interrupted = false → s.grants.mayWrite tenantId actorUserId input.orgUnitId →
    ∀ policyGroupId ∈ input.policyGroupId, ∀ c ∈ s.store.findOpen tenantId policyGroupId,
      c.effectiveFrom < input.effectiveFrom.getD now →
      s.grants.mayWrite tenantId actorUserId c.orgUnitId
  | .deactivate actorUserId tenantId policyGroupId found now interrupted =>
    interrupted = false → ∀ current ∈ found.bind s.store.findById,
      s.grants.mayWrite tenantId actorUserId current.orgUnitId →
      ∀ c ∈ s.store.findOpen tenantId policyGroupId, c.effectiveFrom < now →
        s.grants.mayWrite tenantId actorUserId c.orgUnitId
  | .grant _ => True

/-! ## What a call touches -/

variable {s t : State Definition}

theorem not_touches_self (s : State Definition) (p : Policy Definition) : ¬ Touches s s p := by
  rintro (⟨h, hno⟩ | ⟨h, hno⟩) <;> exact hno h

theorem touches_congr {t' : State Definition} (h : t.store.policies = t'.store.policies)
    (p : Policy Definition) : Touches s t p ↔ Touches s t' p := by
  rw [Touches, Touches, h]

section Endings

variable {c p : Policy Definition} {e : ℤ} {new : List (Policy Definition)}

theorem orgUnit_of_touches (hs : Inv s.store.policies) (hc : c ∈ s.store.policies)
    (ht : t.store.policies = s.store.policies.map (Policy.endAt c.tenantId c.id e) ++ new)
    (h : Touches s t p) : p.orgUnitId = c.orgUnitId ∨ p ∈ new := by
  have hkeep : ∀ q ∈ s.store.policies, q ≠ c → q.endAt c.tenantId c.id e = q := by
    intro q hq hne
    exact if_neg fun hid => hne (hs.eq_of_id hq hc hid.1)
  have hunit : ∀ q : Policy Definition, (q.endAt c.tenantId c.id e).orgUnitId = q.orgUnitId := by
    intro q
    unfold Policy.endAt
    split <;> rfl
  rw [Touches, ht] at h
  rcases h with ⟨hp, hno⟩ | ⟨hp, hno⟩
  · rcases mem_append.1 hp with hp | hp
    · obtain ⟨q, hq, rfl⟩ := mem_map.1 hp
      by_cases hqc : q = c
      · rw [hqc, hunit]
        exact .inl rfl
      · rw [hkeep q hq hqc] at hno
        exact absurd hq hno
    · exact .inr hp
  · by_cases hpc : p = c
    · exact .inl (by rw [hpc])
    · refine absurd (mem_append_left _ ?_) hno
      exact mem_map.2 ⟨p, hp, hkeep p hp hpc⟩

theorem touches_of_open (hs : Inv s.store.policies) (hc : c ∈ s.store.policies)
    (hopen : c.effectiveTo = none)
    (ht : t.store.policies = s.store.policies.map (Policy.endAt c.tenantId c.id e) ++ new)
    (hnew : ∀ p ∈ new, p ∉ s.store.policies) : Touches s t c := by
  refine .inr ⟨hc, ?_⟩
  rw [ht, mem_append]
  rintro (hmem | hmem)
  · obtain ⟨q, hq, heq⟩ := mem_map.1 hmem
    have hid : q.id = c.id := by rw [← heq, Policy.endAt_id]
    rw [hs.eq_of_id hq hc hid] at heq
    have hend := c.endAt_self e
    rw [heq, hopen] at hend
    cases hend
  · exact hnew c hmem hc

end Endings

theorem transact_ok (store : Policies.State Definition)
    (r : Policies.State Definition × Policy Definition) :
    (transact store false (.ok r)).2 = r.1 := rfl

theorem transact_interrupted (store : Policies.State Definition)
    (result : Except PolicyError (Policies.State Definition × Policy Definition)) :
    (transact store true result).2 = store := rfl

theorem transact_threw (store : Policies.State Definition) (interrupted : Bool) (e : PolicyError) :
    (transact store interrupted (.error e)).2 = store := by
  cases interrupted <;> rfl

theorem notMem_of_fresh {id : ℕ} (hfresh : fresh s.store id) {p : Policy Definition}
    (hid : p.id = id) : p ∉ s.store.policies :=
  fun hp => (fresh_iff.1 hfresh p hp).1 hid

section Calls

variable {actorUserId tenantId : ℕ}

theorem scoped_of_unchanged {c : Call Definition}
    (h : (call s c).store.policies = s.store.policies) : Scoped s c := by
  intro _ _ _ p hp
  exact absurd ((touches_congr h p).1 hp) (not_touches_self s p)

/-- A call by which a version is ended, and others with the unit it was checked for are added: it is
scoped exactly when the caller may write the version that is ended. -/
theorem scoped_iff_of_ended {c : Call Definition} {current : Policy Definition} {e : ℤ}
    {new : List (Policy Definition)} (hs : Inv s.store.policies)
    (hactor : c.actor = some (actorUserId, tenantId)) (hc : current ∈ s.store.policies)
    (hopen : current.effectiveTo = none)
    (ht : (call s c).store.policies =
      s.store.policies.map (Policy.endAt current.tenantId current.id e) ++ new)
    (hfresh : ∀ p ∈ new, p ∉ s.store.policies)
    (hnew : ∀ p ∈ new, s.grants.mayWrite tenantId actorUserId p.orgUnitId) :
    Scoped s c ↔ s.grants.mayWrite tenantId actorUserId current.orgUnitId := by
  constructor
  · intro h
    exact h actorUserId tenantId hactor current (touches_of_open hs hc hopen ht hfresh)
  · intro hmay actorUserId' tenantId' hactor' p hp
    obtain ⟨rfl, rfl⟩ := Prod.mk.inj (Option.some.inj (hactor.symm.trans hactor'))
    rcases orgUnit_of_touches hs hc ht hp with heq | hmem
    · rwa [heq]
    · exact hnew p hmem

theorem scoped_of_first {id : ℕ} {input : CreatePolicyDto Definition} {now : ℤ}
    (hmay : s.grants.mayWrite tenantId actorUserId input.orgUnitId)
    (hgroup : input.policyGroupId = none) :
    Scoped s (.createOrVersion actorUserId tenantId id input now false) := by
  have hcall : call s (.createOrVersion actorUserId tenantId id input now false) =
      { s with store := (transact s.store false
        (s.store.createLineage tenantId id (input.lineageInput now))).2 } := by
    simp only [call, State.createOrVersion, if_pos hmay, hgroup, State.write]
  cases hcreate : s.store.createLineage tenantId id (input.lineageInput now) with
  | error e =>
    refine scoped_of_unchanged ?_
    rw [hcall, hcreate, transact_threw]
  | ok r =>
    obtain ⟨hp, hrows⟩ := createLineage_ok hcreate
    intro actorUserId' tenantId' hactor p htouches
    cases hactor
    rw [hcall, hcreate, Touches, transact_ok, hrows, mem_append, mem_singleton] at htouches
    rcases htouches with ⟨hmem | rfl, hno⟩ | ⟨hmem, hno⟩
    · exact absurd hmem hno
    · rw [hp]
      exact hmay
    · exact absurd (.inl hmem) hno

theorem scoped_iff_covered_createOrVersion (hs : Inv s.store.policies) {id : ℕ}
    (input : CreatePolicyDto Definition) (now : ℤ) (interrupted : Bool)
    (hfresh : fresh s.store id) :
    Scoped s (.createOrVersion actorUserId tenantId id input now interrupted) ↔
      Covered s (.createOrVersion actorUserId tenantId id input now interrupted) := by
  by_cases hmay : s.grants.mayWrite tenantId actorUserId input.orgUnitId
  swap
  · refine iff_of_true (scoped_of_unchanged ?_) fun _ h => absurd h hmay
    simp only [call, State.createOrVersion, if_neg hmay]
  cases interrupted with
  | true =>
    refine iff_of_true (scoped_of_unchanged ?_) fun h => by cases h
    simp only [call, State.createOrVersion, if_pos hmay, State.write, transact_interrupted]
    split <;> rfl
  | false =>
    cases hgroup : input.policyGroupId with
    | none => exact iff_of_true (scoped_of_first hmay hgroup) fun _ _ g hg => by simp [hgroup] at hg
    | some policyGroupId =>
      have hcall : call s (.createOrVersion actorUserId tenantId id input now false) =
          { s with store := (transact s.store false
            (s.store.supersede tenantId policyGroupId id (input.lineageInput now))).2 } := by
        simp only [call, State.createOrVersion, if_pos hmay, hgroup, State.write]
      by_cases hlt : ∃ c ∈ s.store.findOpen tenantId policyGroupId,
          c.effectiveFrom < input.effectiveFrom.getD now
      · obtain ⟨c, hfind, hrange⟩ := hlt
        obtain ⟨hc, hlineage, hopen⟩ := findOpen_eq_some hfind
        obtain ⟨hok, -⟩ := supersede_of_lt hs hfresh hfind (input.lineageInput now) hrange
        have hactor : (Call.createOrVersion actorUserId tenantId id input now false).actor =
          some (actorUserId, tenantId) := rfl
        refine (scoped_iff_of_ended hs hactor hc hopen (by rw [hcall, hok]; rfl) ?_ ?_).trans ?_
        · exact fun p hp => notMem_of_fresh hfresh (by rw [mem_singleton.1 hp]; rfl)
        · intro p hp
          rw [mem_singleton.1 hp]
          exact hmay
        · refine ⟨fun h _ _ g hg c' hc' _ => ?_, fun h => h rfl hmay _ hgroup c hfind hrange⟩
          obtain rfl := Option.some.inj (hgroup.symm.trans hg)
          obtain rfl : c = c' := Option.some.inj (hfind.symm.trans hc')
          exact h
      · obtain ⟨e, he⟩ := supersede_of_not_lt hs id (input.lineageInput now)
          fun c hc hrange => hlt ⟨c, hc, hrange⟩
        refine iff_of_true (scoped_of_unchanged ?_) fun _ _ g hg c hc hrange => ?_
        · rw [hcall, he, transact_threw]
        · obtain rfl := Option.some.inj (hgroup.symm.trans hg)
          exact absurd ⟨c, hc, hrange⟩ hlt

theorem scoped_iff_covered_deactivate (hs : Inv s.store.policies) (policyGroupId : ℕ)
    (found : Option ℕ) (now : ℤ) (interrupted : Bool) :
    Scoped s (.deactivate actorUserId tenantId policyGroupId found now interrupted) ↔
      Covered s (.deactivate actorUserId tenantId policyGroupId found now interrupted) := by
  cases hfound : found.bind s.store.findById with
  | none =>
    refine iff_of_true (scoped_of_unchanged ?_) fun _ current hcurrent => ?_
    · simp only [call, State.deactivate, hfound]
    · rw [hfound] at hcurrent
      cases hcurrent
  | some current =>
    by_cases hmay : s.grants.mayWrite tenantId actorUserId current.orgUnitId
    swap
    · refine iff_of_true (scoped_of_unchanged ?_) fun _ current' hcurrent' h => ?_
      · simp only [call, State.deactivate, hfound, if_neg hmay]
      · obtain rfl := Option.some.inj (hfound.symm.trans hcurrent')
        exact absurd h hmay
    have hcall : call s (.deactivate actorUserId tenantId policyGroupId found now interrupted) =
        { s with store := (transact s.store interrupted
          (s.store.deactivate tenantId policyGroupId now)).2 } := by
      simp only [call, State.deactivate, hfound, if_pos hmay, State.write]
    cases interrupted with
    | true =>
      refine iff_of_true (scoped_of_unchanged ?_) fun h => by cases h
      rw [hcall, transact_interrupted]
    | false =>
      by_cases hlt : ∃ c ∈ s.store.findOpen tenantId policyGroupId, c.effectiveFrom < now
      · obtain ⟨c, hfind, hrange⟩ := hlt
        obtain ⟨hc, hlineage, hopen⟩ := findOpen_eq_some hfind
        obtain ⟨⟨p, hok⟩, -⟩ := deactivate_of_lt hs hfind hrange
        have hactor : (Call.deactivate actorUserId tenantId policyGroupId found now false :
          Call Definition).actor = some (actorUserId, tenantId) := rfl
        have hrows : (call s (.deactivate actorUserId tenantId policyGroupId found now
            false)).store.policies =
            s.store.policies.map (Policy.endAt c.tenantId c.id now) ++ [] := by
          rw [hcall, hok, append_nil]
          rfl
        refine (scoped_iff_of_ended hs hactor hc hopen hrows (by simp) (by simp)).trans ?_
        refine ⟨fun h _ _ _ _ c' hc' _ => ?_, fun h => h rfl current hfound hmay c hfind hrange⟩
        obtain rfl : c = c' := Option.some.inj (hfind.symm.trans hc')
        exact h
      · obtain ⟨e, he⟩ := deactivate_of_not_lt hs fun c hc hrange => hlt ⟨c, hc, hrange⟩
        refine iff_of_true (scoped_of_unchanged ?_) fun _ _ _ _ c hc hrange => ?_
        · rw [hcall, he, transact_threw]
        · exact absurd ⟨c, hc, hrange⟩ hlt

end Calls

variable {c : Call Definition}

theorem scoped_iff_covered (hs : Inv s.store.policies) (ha : admissible s c) :
    Scoped s c ↔ Covered s c := by
  cases c with
  | createOrVersion actorUserId tenantId id input now interrupted =>
    exact scoped_iff_covered_createOrVersion hs input now interrupted ha
  | deactivate actorUserId tenantId policyGroupId found now interrupted =>
    exact scoped_iff_covered_deactivate hs policyGroupId found now interrupted
  | grant grants => exact iff_of_true (scoped_of_unchanged rfl) trivial

theorem inv_call (hs : Inv s.store.policies) (ha : admissible s c) :
    Inv (call s c).store.policies := by
  cases c with
  | createOrVersion actorUserId tenantId id input now interrupted =>
    simp only [call, State.createOrVersion]
    split
    · split
      · exact inv_transact hs interrupted fun _ _ => inv_supersede hs ha
      · exact inv_transact hs interrupted fun _ _ => inv_createLineage hs ha
    · exact hs
  | deactivate actorUserId tenantId policyGroupId found now interrupted =>
    simp only [call, State.deactivate]
    split
    · exact hs
    · split
      · exact inv_transact hs interrupted fun _ _ => inv_deactivate hs
      · exact hs
  | grant grants => exact hs

theorem step_eq_some (h : step s c = some t) :
    admissible s c ∧ t = call s c := by
  unfold step at h
  split at h
  · rename_i ha
    exact ⟨ha, (Option.some.inj h).symm⟩
  · cases h

/-- **Org-unit scoping.** In a run of calls from the empty table, with any roles that may change
between them, every call touches only versions that its caller may write exactly when whoever ends
the open version of a lineage may write that version. -/
theorem policy_writes_scoped_iff {grants : Grants} {calls : List (Call Definition)}
    (h : Runs.exec step (State.init grants) calls = some s) :
    Runs.Meets step Scoped (State.init grants) calls ↔
      Runs.Meets step Covered (State.init grants) calls := by
  refine Runs.meets_congr (I := fun s => Inv s.store.policies) (fun s c t hs _ hstep => ?_)
    (fun s c t hs hstep => scoped_iff_covered hs (step_eq_some hstep).1) inv_nil h
  obtain ⟨ha, rfl⟩ := step_eq_some hstep
  exact inv_call hs ha

/-! ## Runs -/

/-- The user 5 may write the policies of the org unit 1, and no others. -/
def unitOneOnly : Grants :=
  { userRoles := [⟨7, 5, 1, some 1, none⟩, ⟨7, 6, 1, none, none⟩]
    rolePermissions := [⟨1, 1⟩]
    permissions := [⟨1, "policy", "write"⟩] }

def unionRuleOf (orgUnitId : ℕ) (policyGroupId : Option ℕ) (effectiveFrom : ℤ) :
    CreatePolicyDto Unit :=
  ⟨policyGroupId, .unionRule, some orgUnitId, (), some effectiveFrom⟩

/-- The user versions a policy of its own unit. -/
def ownVersions : List (Call Unit) :=
  [.createOrVersion 5 7 1 (unionRuleOf 1 none 1) 0 false,
    .createOrVersion 5 7 2 (unionRuleOf 1 (some 1) 10) 0 false]

theorem ownVersions_scoped :
    ∃ s, Runs.exec step (State.init unitOneOnly) ownVersions = some s ∧
      s.store.policies.map (·.window) = [⟨1, some 10⟩, ⟨10, none⟩] ∧
      Runs.Meets step Scoped (State.init unitOneOnly) ownVersions := by
  obtain ⟨s, hs, hwindows⟩ : ∃ s, Runs.exec step (State.init unitOneOnly) ownVersions = some s ∧
      s.store.policies.map (·.window) = [⟨1, some 10⟩, ⟨10, none⟩] := Runs.exists_exec (by decide)
  refine ⟨s, hs, hwindows, (policy_writes_scoped_iff hs).2 ?_⟩
  refine Runs.meets_cons.2 ⟨fun _ _ g hg => (nomatch hg), fun t ht => ?_⟩
  cases ht
  refine Runs.meets_cons.2 ⟨fun _ _ g hg c hc _ => ?_, fun _ _ => Runs.meets_nil⟩
  cases hg
  cases hc
  decide

/-- The user may not write the policies of the unit 2, and ends the version of that unit by adding
one of the unit 1 to its lineage. -/
theorem foreign_version_ended :
    ∃ s, Runs.exec step (State.init unitOneOnly)
        [.createOrVersion 6 7 1 (unionRuleOf 2 none 1) 0 false] = some s ∧
      s.grants.mayWrite 7 5 (some 2) = false ∧
      s.store.policies.map (fun p => (p.orgUnitId, p.window)) = [(some 2, ⟨1, none⟩)] ∧
      (call s (.createOrVersion 5 7 2 (unionRuleOf 1 (some 1) 10) 0 false)).store.policies.map
        (fun p => (p.orgUnitId, p.window)) = [(some 2, ⟨1, some 10⟩), (some 1, ⟨10, none⟩)] ∧
      ¬ Scoped s (.createOrVersion 5 7 2 (unionRuleOf 1 (some 1) 10) 0 false) := by
  refine ⟨_, rfl, by decide, by decide, by decide, fun h => ?_⟩
  have hdenied := h 5 7 rfl _ (.inr ⟨mem_singleton.2 rfl, by decide⟩)
  exact absurd hdenied (by decide)

end Workforce.Policies.Scoping
