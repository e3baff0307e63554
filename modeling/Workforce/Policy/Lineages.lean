import Workforce.Foundations.Runs
import Workforce.Foundations.Successions
import Workforce.Foundations.Tables

/-!
# Policy lineages

`policies.repository.ts` and `employment-policies.service.ts`: the versions of a policy form a
lineage. The repository creates a lineage, supersedes its open version and deactivates it, each in
one transaction; `EmploymentPoliciesService.create` adds a version in two transactions, and takes
for the open version whatever row of the lineage its query returns, since a `null` in a `find` adds
no condition.

* `Inv`: the versions of a lineage are numbered without gaps, and come one after the other.
* `lineages_disjoint_iff`: the runs in which lineages never overlap and no call that throws changes
  a row.
-/

namespace Workforce.Policies

open Tables Successions List

/-! ## The table -/

inductive PolicyType
  | overtimeRule | breakRule | approvalChain | dataRetention | rateLimit
  | overtimeThreshold | restPeriodMinimum | maxConsecutiveDays | unionRule
  | skillDecayHalfLife | authMethodPolicy | geofenceBoundary | accessRestrictionPolicy
  | systemLimits | maintenanceMode
  deriving DecidableEq

/-- `EMPLOYMENT_POLICY_TYPES`. -/
def employmentPolicyTypes : List PolicyType :=
  [.overtimeThreshold, .restPeriodMinimum, .maxConsecutiveDays, .unionRule]

structure Policy (Definition : Type*) where
  id : ℕ
  tenantId : ℕ
  policyGroupId : ℕ
  policyType : PolicyType
  orgUnitId : Option ℕ
  definition : Definition
  effectiveFrom : ℤ
  effectiveTo : Option ℤ
  version : ℕ
  deriving DecidableEq

variable {Definition : Type*}

namespace Policy

def lineage (p : Policy Definition) : ℕ × ℕ := (p.tenantId, p.policyGroupId)

def window (p : Policy Definition) : Window := ⟨p.effectiveFrom, p.effectiveTo⟩

/-- A row after the `UPDATE` that ends a version. -/
def endAt (tenantId id : ℕ) (effectiveTo : ℤ) (p : Policy Definition) : Policy Definition :=
  if p.id = id ∧ p.tenantId = tenantId then { p with effectiveTo := some effectiveTo } else p

end Policy

/-- An insert: the primary key, `policies_version_positive`, `policies_effective_range`,
`uq_policies_tenant_group_version` and `uq_policies_one_open_version`. -/
def insertPolicy (rows : List (Policy Definition)) (p : Policy Definition) :
    Option (List (Policy Definition)) :=
  if p.id ∉ rows.map (·.id) ∧ 0 < p.version ∧ p.window.Wf ∧
      (∀ q ∈ rows, q.lineage = p.lineage → q.version ≠ p.version) ∧
      (p.effectiveTo = none → ∀ q ∈ rows, q.lineage = p.lineage → q.effectiveTo ≠ none) then
    some (rows ++ [p])
  else none

/-- The `UPDATE` that ends a version, under `policies_effective_range`. -/
def closePolicy (rows : List (Policy Definition)) (tenantId id : ℕ) (effectiveTo : ℤ) :
    Option (List (Policy Definition)) :=
  if ∀ p ∈ rows, p.id = id → p.tenantId = tenantId → p.effectiveFrom < effectiveTo then
    some (rows.map (Policy.endAt tenantId id effectiveTo))
  else none

/-- `findActiveAsOf`: every row that the query may return. -/
def activeAsOf (rows : List (Policy Definition)) (tenantId policyGroupId : ℕ) (asOf : ℤ) :
    List (Policy Definition) :=
  rows.filter fun p => p.tenantId = tenantId && p.policyGroupId = policyGroupId &&
    p.effectiveFrom ≤ asOf && p.effectiveTo.all (asOf < ·)

/-- `findActiveAsOf` of the employment policies. -/
def employmentActiveAsOf (rows : List (Policy Definition)) (tenantId policyGroupId : ℕ) (asOf : ℤ) :
    List (Policy Definition) :=
  (activeAsOf rows tenantId policyGroupId asOf).filter (·.policyType ∈ employmentPolicyTypes)

/-! ## The repository -/

structure LineageInput (Definition : Type*) where
  policyType : PolicyType
  orgUnitId : Option ℕ
  definition : Definition
  effectiveFrom : ℤ

/-- A new version, which is open. -/
def LineageInput.version (input : LineageInput Definition) (id tenantId policyGroupId version : ℕ) :
    Policy Definition :=
  { id := id
    tenantId := tenantId
    policyGroupId := policyGroupId
    policyType := input.policyType
    orgUnitId := input.orgUnitId
    definition := input.definition
    effectiveFrom := input.effectiveFrom
    effectiveTo := none
    version := version }

/-- The payload of `POLICY_CHANGED`. -/
structure PolicyChanged where
  policyId : ℕ
  policyGroupId : ℕ
  tenantId : ℕ
  policyType : PolicyType
  orgUnitId : Option ℕ
  version : ℕ
  effectiveFrom : ℤ

def policyChanged (p : Policy Definition) : PolicyChanged :=
  ⟨p.id, p.policyGroupId, p.tenantId, p.policyType, p.orgUnitId, p.version, p.effectiveFrom⟩

inductive PolicyError
  | policyNotFound (policyGroupId : ℕ)
  | employmentPolicyNotFound (policyGroupId : ℕ)
  | orgUnitNotFound (orgUnitId : ℕ)
  | complianceFloor (jurisdiction : String)
  /-- A constraint of the table. -/
  | constraint
  /-- The database or the connection failed. -/
  | interrupted
  deriving DecidableEq

structure State (Definition : Type*) where
  policies : List (Policy Definition)
  outbox : List PolicyChanged

namespace State

variable (s : State Definition)

/-- A version and its event, written by a transaction. -/
def publish (rows : List (Policy Definition)) (p : Policy Definition) : State Definition :=
  ⟨rows, s.outbox ++ [policyChanged p]⟩

/-- The open version, as the repository reads it in its transactions. -/
def findOpen (tenantId policyGroupId : ℕ) : Option (Policy Definition) :=
  s.policies.find? fun p =>
    p.tenantId = tenantId && p.policyGroupId = policyGroupId && p.effectiveTo.isNone

def createLineage (tenantId id : ℕ) (input : LineageInput Definition) :
    Except PolicyError (State Definition × Policy Definition) :=
  let saved := input.version id tenantId id 1
  match insertPolicy s.policies saved with
  | none => .error .constraint
  | some rows => .ok (s.publish rows saved, saved)

/-- The open version is closed, and the new one begins where it ends. -/
def supersede (tenantId policyGroupId id : ℕ) (input : LineageInput Definition) :
    Except PolicyError (State Definition × Policy Definition) :=
  match s.findOpen tenantId policyGroupId with
  | none => .error (.policyNotFound policyGroupId)
  | some current =>
    match closePolicy s.policies tenantId current.id input.effectiveFrom with
    | none => .error .constraint
    | some rows =>
      let saved := input.version id tenantId policyGroupId (current.version + 1)
      match insertPolicy rows saved with
      | none => .error .constraint
      | some rows => .ok (s.publish rows saved, saved)

def deactivate (tenantId policyGroupId : ℕ) (now : ℤ) :
    Except PolicyError (State Definition × Policy Definition) :=
  match s.findOpen tenantId policyGroupId with
  | none => .error (.policyNotFound policyGroupId)
  | some current =>
    match closePolicy s.policies tenantId current.id now with
    | none => .error .constraint
    | some rows =>
      let updated := { current with effectiveTo := some now }
      .ok (s.publish rows updated, updated)

end State

/-! ## The employment policies -/

structure CreateEmploymentPolicyInput (Definition : Type*) where
  policyGroupId : Option ℕ
  policyType : PolicyType
  orgUnitId : Option ℕ
  jurisdiction : Option String
  definition : Definition
  effectiveFrom : ℤ

/-- What the service asks of others: the country code of an org unit of a tenant, if there is one,
and whether a definition meets the floor of a jurisdiction. -/
structure Services (Definition : Type*) where
  findOrgUnit : (tenantId orgUnitId : ℕ) → Option (Option String)
  meetsFloor : String → PolicyType → Definition → Bool

/-- The checks of `create`, before it writes. -/
def checkEmploymentPolicy (services : Services Definition) (tenantId : ℕ)
    (input : CreateEmploymentPolicyInput Definition) : Except PolicyError Unit := do
  let countryCode ← match input.orgUnitId with
    | none => .ok none
    | some orgUnitId =>
      match services.findOrgUnit tenantId orgUnitId with
      | none => .error (.orgUnitNotFound orgUnitId)
      | some countryCode => .ok countryCode
  match input.jurisdiction.or countryCode with
  | none => .ok ()
  | some jurisdiction =>
    if jurisdiction = "" ∨ services.meetsFloor jurisdiction input.policyType input.definition then
      .ok ()
    else .error (.complianceFloor jurisdiction)

def CreateEmploymentPolicyInput.lineageInput (input : CreateEmploymentPolicyInput Definition) :
    LineageInput Definition :=
  ⟨input.policyType, input.orgUnitId, input.definition, input.effectiveFrom⟩

/-- Where a call is interrupted, if it is: before it has written anything, or between its two
transactions. -/
inductive Interruption
  | never | early | between
  deriving DecidableEq

/-- `create`. The query of `findOpenVersion` has returned `found`. -/
def State.createEmploymentPolicy (services : Services Definition) (s : State Definition)
    (tenantId id : ℕ) (input : CreateEmploymentPolicyInput Definition)
    (found : Option (Policy Definition)) (interruption : Interruption) :
    Except PolicyError (Policy Definition) × State Definition :=
  if interruption = .early then (.error .interrupted, s)
  else
    match checkEmploymentPolicy services tenantId input with
    | .error e => (.error e, s)
    | .ok () =>
      match input.policyGroupId with
      | some policyGroupId =>
        match found with
        | none => (.error (.employmentPolicyNotFound policyGroupId), s)
        | some openVersion =>
          match closePolicy s.policies tenantId openVersion.id input.effectiveFrom with
          | none => (.error .constraint, s)
          | some rows =>
            let closed : State Definition := { s with policies := rows }
            if interruption = .between then (.error .interrupted, closed)
            else
              let saved := input.lineageInput.version id tenantId policyGroupId
                (openVersion.version + 1)
              match insertPolicy rows saved with
              | none => (.error .constraint, closed)
              | some rows => (.ok saved, { s with policies := rows })
      | none =>
        let saved := input.lineageInput.version id tenantId id 1
        match insertPolicy s.policies saved with
        | none => (.error .constraint, s)
        | some rows => (.ok saved, { s with policies := rows })

/-! ## Calls -/

/-- A request, whose second write may not happen. -/
inductive Call (Definition : Type*)
  | createLineage (tenantId id : ℕ) (input : LineageInput Definition) (interrupted : Bool)
  | supersede (tenantId policyGroupId id : ℕ) (input : LineageInput Definition)
      (interrupted : Bool)
  | deactivate (tenantId policyGroupId : ℕ) (now : ℤ) (interrupted : Bool)
  /-- The query of `findOpenVersion` returns the row `found`. -/
  | create (tenantId id : ℕ) (input : CreateEmploymentPolicyInput Definition) (found : Option ℕ)
      (interruption : Interruption)

/-- A transaction: what throws is rolled back. -/
def transact (s : State Definition) (interrupted : Bool)
    (result : Except PolicyError (State Definition × Policy Definition)) :
    Except PolicyError (Policy Definition) × State Definition :=
  if interrupted then (.error .interrupted, s)
  else
    match result with
    | .error e => (.error e, s)
    | .ok (t, p) => (.ok p, t)

/-- The row with an id. -/
def State.findById (s : State Definition) (id : ℕ) : Option (Policy Definition) :=
  lookup (·.id) id s.policies

/-- What a call returns, or throws, and what it leaves. -/
def call (services : Services Definition) (s : State Definition) :
    Call Definition → Except PolicyError (Policy Definition) × State Definition
  | .createLineage tenantId id input interrupted =>
    transact s interrupted (s.createLineage tenantId id input)
  | .supersede tenantId policyGroupId id input interrupted =>
    transact s interrupted (s.supersede tenantId policyGroupId id input)
  | .deactivate tenantId policyGroupId now interrupted =>
    transact s interrupted (s.deactivate tenantId policyGroupId now)
  | .create tenantId id input found interruption =>
    s.createEmploymentPolicy services tenantId id input (found.bind s.findById) interruption

/-- What `findOpenVersion` may return: any row of the lineage, if it has one. -/
def mayFind (s : State Definition) (tenantId policyGroupId : ℕ) : Option ℕ → Bool
  | none => s.policies.all fun p => p.lineage ≠ (tenantId, policyGroupId)
  | some id => s.policies.any fun p => p.id = id && p.lineage = (tenantId, policyGroupId)

/-- The id is used by no row and by no lineage. -/
def fresh (s : State Definition) (id : ℕ) : Bool :=
  s.policies.all fun p => p.id ≠ id && p.policyGroupId ≠ id

/-- What a call may meet: the ids are random, and the query returns what it may. -/
def admissible (s : State Definition) : Call Definition → Bool
  | .createLineage _ id _ _ => fresh s id
  | .supersede _ _ id _ _ => fresh s id
  | .deactivate _ _ _ _ => true
  | .create tenantId id input found _ =>
    fresh s id && input.policyGroupId.all fun policyGroupId =>
      mayFind s tenantId policyGroupId found

/-- One step: a call, whatever it returns. -/
def step (services : Services Definition) (s : State Definition) (c : Call Definition) :
    Option (State Definition) :=
  if admissible s c then some (call services s c).2 else none

/-- No policy exists. -/
def State.init : State Definition := ⟨[], []⟩

/-! ## What has to hold -/

/-- The versions of each lineage are in force in disjoint windows, at most one is open, and a query
for an instant has at most one answer. -/
structure Disjoint (rows : List (Policy Definition)) : Prop where
  windows : ∀ p ∈ rows, ∀ q ∈ rows, p.lineage = q.lineage → p.id ≠ q.id → ∀ t,
    ¬ (p.window.Contains t ∧ q.window.Contains t)
  oneOpen : ∀ p ∈ rows, ∀ q ∈ rows, p.lineage = q.lineage → p.effectiveTo = none →
    q.effectiveTo = none → p.id = q.id
  asOf : ∀ tenantId policyGroupId t, (activeAsOf rows tenantId policyGroupId t).length ≤ 1 ∧
    (employmentActiveAsOf rows tenantId policyGroupId t).length ≤ 1

/-- A call that throws changes no row. -/
def Atomic (services : Services Definition) (s : State Definition) (c : Call Definition) : Prop :=
  ∀ e, (call services s c).1 = .error e → (call services s c).2.policies = s.policies

/-- The row is the last version of its lineage. -/
def Latest (rows : List (Policy Definition)) (p : Policy Definition) : Prop :=
  ∀ q ∈ rows, q.lineage = p.lineage → q.version ≤ p.version

/-- A call of `create` that reaches its first transaction and moves the end of the version it found
has found the last version, and is not interrupted before its second one. -/
def Sound (services : Services Definition) (s : State Definition) : Call Definition → Prop
  | .create tenantId _ input found interruption =>
    interruption ≠ .early → checkEmploymentPolicy services tenantId input = .ok () →
    input.policyGroupId.isSome → ∀ id ∈ found, ∀ p ∈ s.findById id,
      p.effectiveFrom < input.effectiveFrom → p.effectiveTo ≠ some input.effectiveFrom →
      Latest s.policies p ∧ interruption ≠ .between
  | _ => True

/-! ## The invariant -/

/-- The versions of a lineage are numbered from one without gaps, in the order in which they were
inserted, and come one after the other. -/
structure Inv (rows : List (Policy Definition)) : Prop where
  ids : (rows.map (·.id)).Nodup
  succession : Succession Policy.lineage Policy.window rows
  versions : rows.Pairwise fun p q => p.lineage = q.lineage → p.version < q.version
  gapless : ∀ p ∈ rows, ∀ v, 0 < v → v < p.version →
    ∃ q ∈ rows, q.lineage = p.lineage ∧ q.version = v

theorem inv_nil : Inv ([] : List (Policy Definition)) :=
  ⟨nodup_nil, .nil, Pairwise.nil, by simp⟩

namespace Policy

variable (tenantId i : ℕ) (e : ℤ) (p : Policy Definition)

@[simp] theorem endAt_id : (p.endAt tenantId i e).id = p.id := by
  unfold endAt
  split <;> rfl

@[simp] theorem endAt_lineage : (p.endAt tenantId i e).lineage = p.lineage := by
  unfold endAt
  split <;> rfl

@[simp] theorem endAt_version : (p.endAt tenantId i e).version = p.version := by
  unfold endAt
  split <;> rfl

@[simp] theorem endAt_effectiveFrom : (p.endAt tenantId i e).effectiveFrom = p.effectiveFrom := by
  unfold endAt
  split <;> rfl

theorem endAt_self : (p.endAt p.tenantId p.id e).effectiveTo = some e := by
  rw [endAt, if_pos ⟨rfl, rfl⟩]

end Policy

section Rows

variable {rows rows' : List (Policy Definition)} {c p : Policy Definition}

theorem closePolicy_eq_some {tenantId id : ℕ} {e : ℤ} :
    closePolicy rows tenantId id e = some rows' ↔
      (∀ p ∈ rows, p.id = id → p.tenantId = tenantId → p.effectiveFrom < e) ∧
        rows' = rows.map (Policy.endAt tenantId id e) := by
  unfold closePolicy
  split
  · rename_i h
    exact ⟨fun heq => ⟨h, (Option.some.inj heq).symm⟩, fun heq => congrArg some heq.2.symm⟩
  · rename_i h
    simp only [reduceCtorEq, false_iff, not_and]
    exact fun h' => absurd h' h

namespace Inv

theorem eq_of_id (h : Inv rows) (hp : p ∈ rows) (hc : c ∈ rows) (hid : p.id = c.id) : p = c :=
  eq_of_key_eq h.ids hp hc hid

theorem last_of_latest (h : Inv rows) (hc : c ∈ rows) (hlatest : Latest rows c) :
    Last Policy.lineage Policy.window rows c := by
  intro q hq hlineage
  by_cases hne : q = c
  · exact .inl hne
  · rcases rel_or_rel (h.succession.ordered.and h.versions) hq hc hne with hqc | hcq
    · exact .inr (hqc.1 hlineage)
    · have hlt := hcq.2 hlineage.symm
      have hle := hlatest q hq hlineage
      omega

theorem latest_of_open (h : Inv rows) (hc : c ∈ rows) (hopen : c.effectiveTo = none) :
    Latest rows c := by
  intro q hq hlineage
  by_cases hne : q = c
  · rw [hne]
  · rcases rel_or_rel (h.succession.ordered.and h.versions) hq hc hne with hqc | hcq
    · exact (hqc.2 hlineage).le
    · obtain ⟨e, he, -⟩ := hcq.1 hlineage.symm
      rw [Policy.window, hopen] at he
      cases he

theorem endAt (h : Inv rows) (hc : c ∈ rows) (hlatest : Latest rows c) {e : ℤ}
    (he : c.effectiveFrom < e) : Inv (rows.map (Policy.endAt c.tenantId c.id e)) where
  ids := by
    rw [map_map]
    simpa [Function.comp_def] using h.ids
  succession := by
    refine h.succession.map (Policy.endAt_lineage _ _ _) (Policy.endAt_effectiveFrom _ _ _)
      (fun p hp => ?_) fun p hp => ?_
    · by_cases hid : p.id = c.id ∧ p.tenantId = c.tenantId
      · rw [h.eq_of_id hp hc hid.1]
        intro e' he'
        rw [Policy.window, Policy.endAt_self] at he'
        obtain rfl := Option.some.inj he'
        simpa [Policy.window] using he
      · rw [Policy.endAt, if_neg hid]
        exact h.succession.wf p hp
    · by_cases hid : p.id = c.id ∧ p.tenantId = c.tenantId
      · rw [h.eq_of_id hp hc hid.1]
        exact .inr (h.last_of_latest hc hlatest)
      · rw [Policy.endAt, if_neg hid]
        exact .inl rfl
  versions := by
    rw [pairwise_map]
    simpa using h.versions
  gapless := fun p hp v hv hlt => by
    obtain ⟨p₀, hp₀, rfl⟩ := mem_map.1 hp
    rw [Policy.endAt_version] at hlt
    obtain ⟨q, hq, hlineage, hversion⟩ := h.gapless p₀ hp₀ v hv hlt
    exact ⟨_, mem_map_of_mem hq, by simpa using hlineage, by simpa using hversion⟩

theorem append_first (h : Inv rows) (hid : ∀ q ∈ rows, q.id ≠ p.id)
    (hlineage : ∀ q ∈ rows, q.lineage ≠ p.lineage) (hopen : p.effectiveTo = none)
    (hversion : p.version = 1) : Inv (rows ++ [p]) where
  ids := nodup_append_singleton h.ids hid
  succession := by
    refine h.succession.append (fun e he => ?_) fun q hq heq => absurd heq (hlineage q hq)
    rw [Policy.window, hopen] at he
    cases he
  versions := by
    rw [pairwise_append]
    refine ⟨h.versions, pairwise_singleton _ _, fun q hq p' hp' heq => ?_⟩
    rw [mem_singleton.1 hp'] at heq
    exact absurd heq (hlineage q hq)
  gapless := fun q hq v hv hlt => by
    rcases Tables.mem_concat.1 hq with hq | rfl
    · obtain ⟨q', hq', hlineage', hversion'⟩ := h.gapless q hq v hv hlt
      exact ⟨q', mem_append_left _ hq', hlineage', hversion'⟩
    · rw [hversion] at hlt
      omega

theorem append_next (h : Inv rows) (hc : c ∈ rows) (hlatest : Latest rows c)
    (hid : ∀ q ∈ rows, q.id ≠ p.id) (hlineage : p.lineage = c.lineage)
    (hstart : c.effectiveTo = some p.effectiveFrom) (hopen : p.effectiveTo = none)
    (hversion : p.version = c.version + 1) : Inv (rows ++ [p]) where
  ids := nodup_append_singleton h.ids hid
  succession := by
    have hend : c.window.Before p.window := ⟨p.effectiveFrom, hstart, le_rfl⟩
    refine h.succession.append (fun e he => ?_) fun q hq heq => ?_
    · rw [Policy.window, hopen] at he
      cases he
    · rcases h.last_of_latest hc hlatest q hq (heq.trans hlineage) with rfl | hbefore
      · exact hend
      · exact hbefore.trans (h.succession.wf c hc) hend
  versions := by
    rw [pairwise_append]
    refine ⟨h.versions, pairwise_singleton _ _, fun q hq p' hp' heq => ?_⟩
    obtain rfl := mem_singleton.1 hp'
    have hle := hlatest q hq (heq.trans hlineage)
    omega
  gapless := fun q hq v hv hlt => by
    rcases Tables.mem_concat.1 hq with hq | rfl
    · obtain ⟨q', hq', hlineage', hversion'⟩ := h.gapless q hq v hv hlt
      exact ⟨q', mem_append_left _ hq', hlineage', hversion'⟩
    · by_cases hv' : v = c.version
      · exact ⟨c, mem_append_left _ hc, hlineage.symm, hv'.symm⟩
      · obtain ⟨q', hq', hlineage', hversion'⟩ := h.gapless c hc v hv (by omega)
        exact ⟨q', mem_append_left _ hq', hlineage'.trans hlineage.symm, hversion'⟩

theorem insert_next (h : Inv rows) (hc : c ∈ rows) (hlatest : Latest rows c)
    (hid : ∀ q ∈ rows, q.id ≠ p.id) (hlineage : p.lineage = c.lineage)
    (hstart : c.effectiveTo = some p.effectiveFrom) (hopen : p.effectiveTo = none)
    (hversion : p.version = c.version + 1) : insertPolicy rows p = some (rows ++ [p]) := by
  refine if_pos ⟨fun hmem => ?_, by omega, fun e he => ?_, fun q hq heq hv => ?_,
    fun _ q hq heq hq' => ?_⟩
  · obtain ⟨q, hq, heq⟩ := mem_map.1 hmem
    exact hid q hq heq
  · rw [Policy.window, hopen] at he
    cases he
  · have hle := hlatest q hq (heq.trans hlineage)
    omega
  · -- an open version would be the last one, which has ended
    have hsame := h.last_of_latest hc hlatest q hq (heq.trans hlineage)
    rcases hsame with rfl | ⟨e, he, -⟩
    · rw [hq'] at hstart
      cases hstart
    · rw [Policy.window, hq'] at he
      cases he

theorem disjoint (h : Inv rows) : Disjoint rows where
  windows := fun p hp q hq hlineage hne t ht => by
    refine hne (congrArg Policy.id ?_)
    exact h.succession.eq_of_contains hp hq hlineage ht.1 ht.2
  oneOpen := fun p hp q hq hlineage hp' hq' =>
    congrArg Policy.id (h.succession.eq_of_open hp hq hlineage hp' hq')
  asOf := fun tenantId policyGroupId t => by
    have hone : (activeAsOf rows tenantId policyGroupId t).length ≤ 1 := by
      refine h.succession.length_filter_le_one (k := (tenantId, policyGroupId)) (t := t) ?_
      intro p _ hp
      simp only [Bool.and_eq_true, decide_eq_true_eq, Option.all_eq_true] at hp
      obtain ⟨⟨⟨htenant, hgroup⟩, hfrom⟩, hto⟩ := hp
      exact ⟨Prod.ext htenant hgroup, hfrom, hto⟩
    exact ⟨hone, (length_filter_le _ _).trans hone⟩

end Inv

theorem insertPolicy_eq_some (h : insertPolicy rows p = some rows') : rows' = rows ++ [p] := by
  unfold insertPolicy at h
  split at h
  · exact (Option.some.inj h).symm
  · cases h

/-- A version is the last one when the table takes the next number, also after an update of ends. -/
theorem Inv.latest_of_insert (h : Inv rows) {tenantId i : ℕ} {e : ℤ}
    (hlineage : p.lineage = c.lineage) (hversion : p.version = c.version + 1)
    (hinsert : insertPolicy (rows.map (Policy.endAt tenantId i e)) p = some rows') :
    Latest rows c := by
  unfold insertPolicy at hinsert
  split at hinsert
  · rename_i hok
    intro q hq hq'
    by_contra hlt
    -- a later version has one before it with this number
    have hex : ∃ q' ∈ rows, q'.lineage = c.lineage ∧ q'.version = c.version + 1 := by
      by_cases heq : q.version = c.version + 1
      · exact ⟨q, hq, hq', heq⟩
      · obtain ⟨q', hq'', hlineage', hv⟩ := h.gapless q hq (c.version + 1) (by omega) (by omega)
        exact ⟨q', hq'', hlineage'.trans hq', hv⟩
    obtain ⟨q', hq'', hlineage', hv⟩ := hex
    refine hok.2.2.2.1 _ (mem_map_of_mem hq'') ?_ ?_
    · rw [Policy.endAt_lineage, hlineage', hlineage]
    · rw [Policy.endAt_version, hv, hversion]
  · cases hinsert

/-- The last version of a lineage is still the last one after it has ended. -/
theorem latest_endAt (hlatest : Latest rows c) (e : ℤ) :
    Latest (rows.map (Policy.endAt c.tenantId c.id e)) (c.endAt c.tenantId c.id e) := by
  intro q hq hlineage
  obtain ⟨q₀, hq₀, rfl⟩ := mem_map.1 hq
  simp only [Policy.endAt_lineage, Policy.endAt_version] at hlineage ⊢
  exact hlatest q₀ hq₀ hlineage

theorem Inv.next (h : Inv rows) (hc : c ∈ rows) (hlatest : Latest rows c)
    (hid : ∀ q ∈ rows, q.id ≠ p.id) (hlineage : p.lineage = c.lineage) {e : ℤ}
    (he : p.effectiveFrom = e) (hstart : c.effectiveFrom < e) (hopen : p.effectiveTo = none)
    (hversion : p.version = c.version + 1) :
    insertPolicy (rows.map (Policy.endAt c.tenantId c.id e)) p =
        some (rows.map (Policy.endAt c.tenantId c.id e) ++ [p]) ∧
      Inv (rows.map (Policy.endAt c.tenantId c.id e) ++ [p]) := by
  have hended := h.endAt hc hlatest hstart
  have hc' := mem_map_of_mem (f := Policy.endAt c.tenantId c.id e) hc
  have hid' : ∀ q ∈ rows.map (Policy.endAt c.tenantId c.id e), q.id ≠ p.id := by
    intro q hq
    obtain ⟨q₀, hq₀, rfl⟩ := mem_map.1 hq
    rw [Policy.endAt_id]
    exact hid q₀ hq₀
  have hend : (c.endAt c.tenantId c.id e).effectiveTo = some p.effectiveFrom := by
    rw [Policy.endAt_self, he]
  have hlineage' : p.lineage = (c.endAt c.tenantId c.id e).lineage := by
    rw [hlineage, Policy.endAt_lineage]
  have hversion' : p.version = (c.endAt c.tenantId c.id e).version + 1 := by
    rw [hversion, Policy.endAt_version]
  have hlatest' := latest_endAt hlatest e
  exact ⟨hended.insert_next hc' hlatest' hid' hlineage' hend hopen hversion',
    hended.append_next hc' hlatest' hid' hlineage' hend hopen hversion'⟩

end Rows

/-! ## What a call does -/

variable {services : Services Definition} {s t : State Definition}

theorem fresh_iff {id : ℕ} :
    fresh s id ↔ ∀ p ∈ s.policies, p.id ≠ id ∧ p.policyGroupId ≠ id := by
  simp [fresh]

theorem findOpen_eq_some {tenantId policyGroupId : ℕ} {c : Policy Definition}
    (h : s.findOpen tenantId policyGroupId = some c) :
    c ∈ s.policies ∧ c.lineage = (tenantId, policyGroupId) ∧ c.effectiveTo = none := by
  have hc := find?_some h
  simp only [Bool.and_eq_true, decide_eq_true_eq, Option.isNone_iff_eq_none] at hc
  exact ⟨mem_of_find?_eq_some h, Prod.ext hc.1.1 hc.1.2, hc.2⟩

variable {result : Except PolicyError (State Definition × Policy Definition)}

theorem inv_transact (hs : Inv s.policies) (interrupted : Bool)
    (h : ∀ t p, result = .ok (t, p) → Inv t.policies) :
    Inv (transact s interrupted result).2.policies := by
  unfold transact
  split
  · exact hs
  · cases result with
    | error e => exact hs
    | ok r => exact h r.1 r.2 rfl

theorem transact_error {interrupted : Bool} {e : PolicyError}
    (h : (transact s interrupted result).1 = .error e) :
    (transact s interrupted result).2 = s := by
  unfold transact at h ⊢
  split
  · rfl
  · rename_i hno
    rw [if_neg hno] at h
    cases result with
    | error e => rfl
    | ok r => cases h

variable {c : Call Definition}

/-- Every call of the repository throws without a change. -/
theorem atomic_of_transact {interrupted : Bool}
    (h : call services s c = transact s interrupted result) : Atomic services s c := by
  intro e he
  rw [h] at he ⊢
  rw [transact_error he]

variable {tenantId id : ℕ}

theorem createLineage_ok {input : LineageInput Definition} {p : Policy Definition}
    (h : s.createLineage tenantId id input = .ok (t, p)) :
    p = input.version id tenantId id 1 ∧ t.policies = s.policies ++ [p] := by
  simp only [State.createLineage] at h
  split at h
  · cases h
  · rename_i rows hinsert
    cases h
    exact ⟨rfl, insertPolicy_eq_some hinsert⟩

theorem inv_createLineage (hs : Inv s.policies) {input : LineageInput Definition}
    (hfresh : fresh s id) {p : Policy Definition}
    (h : s.createLineage tenantId id input = .ok (t, p)) : Inv t.policies := by
  obtain ⟨rfl, hrows⟩ := createLineage_ok h
  rw [hrows]
  refine hs.append_first (fun q hq => (fresh_iff.1 hfresh q hq).1) (fun q hq heq => ?_) rfl rfl
  exact (fresh_iff.1 hfresh q hq).2 (congrArg Prod.snd heq)

theorem Inv.closePolicy_eq (hs : Inv s.policies) {c : Policy Definition} (hc : c ∈ s.policies)
    {tenantId : ℕ} (htenant : c.tenantId = tenantId) {e : ℤ} :
    closePolicy s.policies tenantId c.id e =
      if c.effectiveFrom < e then some (s.policies.map (Policy.endAt c.tenantId c.id e))
      else none := by
  subst htenant
  split
  · rename_i hrange
    refine closePolicy_eq_some.2 ⟨fun p hp hid _ => ?_, rfl⟩
    rwa [hs.eq_of_id hp hc hid]
  · rename_i hrange
    refine Option.eq_none_iff_forall_ne_some.2 fun rows hclose => hrange ?_
    exact (closePolicy_eq_some.1 hclose).1 c hc rfl rfl

section Open

variable {tenantId policyGroupId id : ℕ} {c : Policy Definition}

theorem supersede_of_lt (hs : Inv s.policies) (hfresh : fresh s id)
    (hfind : s.findOpen tenantId policyGroupId = some c) (input : LineageInput Definition)
    (hrange : c.effectiveFrom < input.effectiveFrom) :
    let saved := input.version id tenantId policyGroupId (c.version + 1)
    let rows := s.policies.map (Policy.endAt c.tenantId c.id input.effectiveFrom) ++ [saved]
    s.supersede tenantId policyGroupId id input = .ok (s.publish rows saved, saved) ∧ Inv rows := by
  obtain ⟨hc, hlineage, hopen⟩ := findOpen_eq_some hfind
  obtain ⟨hinsert, hinv⟩ := hs.next
    (p := input.version id tenantId policyGroupId (c.version + 1)) (e := input.effectiveFrom) hc
    (hs.latest_of_open hc hopen)
    (fun q hq => (fresh_iff.1 hfresh q hq).1) hlineage.symm rfl hrange rfl rfl
  refine ⟨?_, hinv⟩
  simp only [State.supersede, hfind, hs.closePolicy_eq hc (congrArg Prod.fst hlineage),
    if_pos hrange, hinsert]

theorem supersede_of_not_lt (hs : Inv s.policies) (id : ℕ) (input : LineageInput Definition)
    (h : ∀ c ∈ s.findOpen tenantId policyGroupId, ¬ c.effectiveFrom < input.effectiveFrom) :
    ∃ e, s.supersede tenantId policyGroupId id input = .error e := by
  cases hfind : s.findOpen tenantId policyGroupId with
  | none => exact ⟨.policyNotFound policyGroupId, by simp only [State.supersede, hfind]⟩
  | some c =>
    obtain ⟨hc, hlineage, -⟩ := findOpen_eq_some hfind
    exact ⟨.constraint, by simp only [State.supersede, hfind,
      hs.closePolicy_eq hc (congrArg Prod.fst hlineage), if_neg (h c hfind)]⟩

theorem deactivate_of_lt (hs : Inv s.policies) (hfind : s.findOpen tenantId policyGroupId = some c)
    {now : ℤ} (hrange : c.effectiveFrom < now) :
    let rows := s.policies.map (Policy.endAt c.tenantId c.id now)
    (∃ p, s.deactivate tenantId policyGroupId now = .ok (s.publish rows p, p)) ∧ Inv rows := by
  obtain ⟨hc, hlineage, hopen⟩ := findOpen_eq_some hfind
  refine ⟨⟨{ c with effectiveTo := some now }, ?_⟩,
    hs.endAt hc (hs.latest_of_open hc hopen) hrange⟩
  simp only [State.deactivate, hfind, hs.closePolicy_eq hc (congrArg Prod.fst hlineage),
    if_pos hrange]

theorem deactivate_of_not_lt (hs : Inv s.policies) {now : ℤ}
    (h : ∀ c ∈ s.findOpen tenantId policyGroupId, ¬ c.effectiveFrom < now) :
    ∃ e, s.deactivate tenantId policyGroupId now = .error e := by
  cases hfind : s.findOpen tenantId policyGroupId with
  | none => exact ⟨.policyNotFound policyGroupId, by simp only [State.deactivate, hfind]⟩
  | some c =>
    obtain ⟨hc, hlineage, -⟩ := findOpen_eq_some hfind
    exact ⟨.constraint, by simp only [State.deactivate, hfind,
      hs.closePolicy_eq hc (congrArg Prod.fst hlineage), if_neg (h c hfind)]⟩

theorem inv_supersede (hs : Inv s.policies) {input : LineageInput Definition} (hfresh : fresh s id)
    {p : Policy Definition} (h : s.supersede tenantId policyGroupId id input = .ok (t, p)) :
    Inv t.policies := by
  by_cases hlt : ∃ c ∈ s.findOpen tenantId policyGroupId, c.effectiveFrom < input.effectiveFrom
  · obtain ⟨c, hfind, hrange⟩ := hlt
    obtain ⟨hok, hinv⟩ := supersede_of_lt hs hfresh hfind input hrange
    obtain ⟨rfl, -⟩ := Prod.mk.inj (Except.ok.inj (hok.symm.trans h))
    exact hinv
  · obtain ⟨e, he⟩ := supersede_of_not_lt hs id input fun c hc hrange => hlt ⟨c, hc, hrange⟩
    cases he.symm.trans h

theorem inv_deactivate (hs : Inv s.policies) {now : ℤ} {p : Policy Definition}
    (h : s.deactivate tenantId policyGroupId now = .ok (t, p)) : Inv t.policies := by
  by_cases hlt : ∃ c ∈ s.findOpen tenantId policyGroupId, c.effectiveFrom < now
  · obtain ⟨c, hfind, hrange⟩ := hlt
    obtain ⟨⟨p, hok⟩, hinv⟩ := deactivate_of_lt hs hfind hrange
    obtain ⟨rfl, -⟩ := Prod.mk.inj (Except.ok.inj (hok.symm.trans h))
    exact hinv
  · obtain ⟨e, he⟩ := deactivate_of_not_lt hs fun c hc hrange => hlt ⟨c, hc, hrange⟩
    cases he.symm.trans h

end Open

variable {input : CreateEmploymentPolicyInput Definition}

theorem createEmploymentPolicy_found {tenantId id policyGroupId : ℕ} {c : Policy Definition}
    {interruption : Interruption} (hearly : interruption ≠ .early)
    (hcheck : checkEmploymentPolicy services tenantId input = .ok ())
    (hgroup : input.policyGroupId = some policyGroupId) (htenant : c.tenantId = tenantId)
    (hrange : ∀ p ∈ s.policies, p.id = c.id → p.tenantId = c.tenantId →
      p.effectiveFrom < input.effectiveFrom) :
    s.createEmploymentPolicy services tenantId id input (some c) interruption =
      let rows := s.policies.map (Policy.endAt c.tenantId c.id input.effectiveFrom)
      let saved := input.lineageInput.version id tenantId policyGroupId (c.version + 1)
      if interruption = .between then (.error .interrupted, { s with policies := rows })
      else
        match insertPolicy rows saved with
        | none => (.error .constraint, { s with policies := rows })
        | some rows => (.ok saved, { s with policies := rows }) := by
  subst htenant
  simp only [State.createEmploymentPolicy, if_neg hearly, hcheck, hgroup,
    closePolicy_eq_some.2 ⟨hrange, rfl⟩]

/-- A call of `create` that does not get to move the end of a version. -/
theorem createEmploymentPolicy_refused {found : Option (Policy Definition)}
    {interruption : Interruption}
    (h : interruption = .early ∨ checkEmploymentPolicy services tenantId input ≠ .ok () ∨
      input.policyGroupId.isSome ∧ ∀ c ∈ found,
        closePolicy s.policies tenantId c.id input.effectiveFrom = none) :
    (s.createEmploymentPolicy services tenantId id input found interruption).2 = s := by
  unfold State.createEmploymentPolicy
  split
  · rfl
  · rename_i hearly
    split
    · rfl
    · rename_i hcheck
      obtain ⟨hgroup, hclose⟩ := (h.resolve_left hearly).resolve_left (not_not.2 hcheck)
      obtain ⟨policyGroupId, hgroup⟩ := Option.isSome_iff_exists.1 hgroup
      simp only [hgroup]
      cases found with
      | none => rfl
      | some c => simp only [hclose c rfl]

theorem inv_createEmploymentPolicy_first (hs : Inv s.policies) (services : Services Definition)
    (tenantId : ℕ) {id : ℕ} (found : Option (Policy Definition)) (interruption : Interruption)
    (hfresh : fresh s id) (hgroup : input.policyGroupId = none) :
    Inv (s.createEmploymentPolicy services tenantId id input found interruption).2.policies ∧
      ∀ e, (s.createEmploymentPolicy services tenantId id input found interruption).1 = .error e →
        (s.createEmploymentPolicy services tenantId id input found interruption).2 = s := by
  unfold State.createEmploymentPolicy
  split
  · exact ⟨hs, fun _ _ => rfl⟩
  · split
    · exact ⟨hs, fun _ _ => rfl⟩
    · simp only [hgroup]
      split
      · exact ⟨hs, fun _ _ => rfl⟩
      · rename_i rows hinsert
        refine ⟨?_, fun _ h => by cases h⟩
        change Inv rows
        rw [insertPolicy_eq_some hinsert]
        refine hs.append_first (fun q hq => (fresh_iff.1 hfresh q hq).1) (fun q hq heq => ?_) rfl
          rfl
        exact (fresh_iff.1 hfresh q hq).2 (congrArg Prod.snd heq)

theorem mayFind_some {tenantId policyGroupId i : ℕ} (hs : Inv s.policies)
    (h : mayFind s tenantId policyGroupId (some i)) :
    ∃ c ∈ s.policies, s.findById i = some c ∧ c.lineage = (tenantId, policyGroupId) := by
  obtain ⟨c, hc, hok⟩ := any_eq_true.1 h
  rw [Bool.and_eq_true, decide_eq_true_eq, decide_eq_true_eq] at hok
  exact ⟨c, hc, hok.1 ▸ lookup_eq_some hs.ids hc, hok.2⟩

section Create

variable {tenantId id policyGroupId i : ℕ} {input : CreateEmploymentPolicyInput Definition}
  {c : Policy Definition} {interruption : Interruption}

/-- A call of `create` that moves the end of the version it found. -/
structure Moves (services : Services Definition) (s : State Definition) (tenantId policyGroupId : ℕ)
    (input : CreateEmploymentPolicyInput Definition) (c : Policy Definition)
    (interruption : Interruption) : Prop where
  late : interruption ≠ .early
  checked : checkEmploymentPolicy services tenantId input = .ok ()
  group : input.policyGroupId = some policyGroupId
  mem : c ∈ s.policies
  lineage : c.lineage = (tenantId, policyGroupId)
  range : c.effectiveFrom < input.effectiveFrom

theorem Moves.eq (h : Moves services s tenantId policyGroupId input c interruption)
    (hs : Inv s.policies) :
    s.createEmploymentPolicy services tenantId id input (some c) interruption =
      let rows := s.policies.map (Policy.endAt c.tenantId c.id input.effectiveFrom)
      let saved := input.lineageInput.version id tenantId policyGroupId (c.version + 1)
      if interruption = .between then (.error .interrupted, { s with policies := rows })
      else
        match insertPolicy rows saved with
        | none => (.error .constraint, { s with policies := rows })
        | some rows => (.ok saved, { s with policies := rows }) := by
  refine createEmploymentPolicy_found h.late h.checked h.group (congrArg Prod.fst h.lineage) ?_
  intro p hp hid _
  rw [hs.eq_of_id hp h.mem hid]
  exact h.range

/-- When the version found is the last one and the call is not interrupted, it succeeds. -/
theorem Moves.success (h : Moves services s tenantId policyGroupId input c interruption)
    (hs : Inv s.policies) (hfresh : fresh s id) (hlatest : Latest s.policies c)
    (hbetween : interruption ≠ .between) :
    ∃ p, (s.createEmploymentPolicy services tenantId id input (some c) interruption).1 = .ok p ∧
      Inv (s.createEmploymentPolicy services tenantId id input (some c)
        interruption).2.policies := by
  obtain ⟨hinsert, hinv⟩ := hs.next
    (p := input.lineageInput.version id tenantId policyGroupId (c.version + 1))
    (e := input.effectiveFrom) h.mem hlatest
    (fun q hq => (fresh_iff.1 hfresh q hq).1) h.lineage.symm rfl h.range rfl rfl
  rw [h.eq hs]
  simp only [if_neg hbetween, hinsert]
  exact ⟨_, rfl, hinv⟩

theorem Moves.failure (h : Moves services s tenantId policyGroupId input c interruption)
    (hs : Inv s.policies) (id : ℕ) (hbad : ¬ (Latest s.policies c ∧ interruption ≠ .between)) :
    ∃ e, (s.createEmploymentPolicy services tenantId id input (some c) interruption).1 = .error e ∧
      (s.createEmploymentPolicy services tenantId id input (some c) interruption).2.policies =
        s.policies.map (Policy.endAt c.tenantId c.id input.effectiveFrom) := by
  rw [h.eq hs]
  by_cases hbetween : interruption = .between
  · exact ⟨.interrupted, by simp only [if_pos hbetween], by simp only [if_pos hbetween]⟩
  · have hnot : ¬ Latest s.policies c := fun hlatest => hbad ⟨hlatest, hbetween⟩
    have hinsert : insertPolicy (s.policies.map
        (Policy.endAt c.tenantId c.id input.effectiveFrom))
        (input.lineageInput.version id tenantId policyGroupId (c.version + 1)) = none := by
      rw [Option.eq_none_iff_forall_ne_some]
      intro rows hinsert
      have hlineage : (input.lineageInput.version id tenantId policyGroupId
          (c.version + 1)).lineage = c.lineage := h.lineage.symm
      exact hnot (hs.latest_of_insert hlineage rfl hinsert)
    exact ⟨.constraint, by simp only [if_neg hbetween, hinsert],
      by simp only [if_neg hbetween, hinsert]⟩

theorem endAt_eq_self (hs : Inv s.policies) (hc : c ∈ s.policies) {e : ℤ}
    (he : c.effectiveTo = some e) :
    s.policies.map (Policy.endAt c.tenantId c.id e) = s.policies := by
  refine (map_congr_left fun p hp => ?_).trans (map_id _)
  by_cases hid : p.id = c.id ∧ p.tenantId = c.tenantId
  · rw [Policy.endAt, if_pos hid, hs.eq_of_id hp hc hid.1, ← he]
    rfl
  · rw [Policy.endAt, if_neg hid]
    rfl

theorem endAt_ne_self (hc : c ∈ s.policies) {e : ℤ} (he : c.effectiveTo ≠ some e) :
    s.policies.map (Policy.endAt c.tenantId c.id e) ≠ s.policies := by
  intro heq
  have hfix : ∀ p ∈ s.policies, p.endAt c.tenantId c.id e = p :=
    map_inj_left.1 (heq.trans (map_id _).symm)
  exact he ((congrArg Policy.effectiveTo (hfix c hc)).symm.trans (c.endAt_self e))

theorem create_cases (services : Services Definition) (hs : Inv s.policies) {found : Option ℕ}
    (ha : admissible s (.create tenantId id input found interruption))
    (hgroup : input.policyGroupId = some policyGroupId) :
    (s.createEmploymentPolicy services tenantId id input (found.bind s.findById) interruption).2 =
        s ∧ Sound services s (.create tenantId id input found interruption) ∨
      ∃ i c, found = some i ∧ s.findById i = some c ∧
        Moves services s tenantId policyGroupId input c interruption := by
  have hfind := (Bool.and_eq_true _ _ ▸ ha : _ ∧ _).2
  rw [hgroup, Option.all_some] at hfind
  by_cases hlate : interruption = .early
  · exact .inl ⟨createEmploymentPolicy_refused (.inl hlate), fun hno => absurd hlate hno⟩
  by_cases hcheck : checkEmploymentPolicy services tenantId input = .ok ()
  swap
  · exact .inl ⟨createEmploymentPolicy_refused (.inr (.inl hcheck)), fun _ hno => absurd hno hcheck⟩
  cases found with
  | none =>
    refine .inl ⟨createEmploymentPolicy_refused (.inr (.inr ⟨by rw [hgroup]; rfl, ?_⟩)), ?_⟩
    · exact fun _ hc => by cases hc
    · exact fun _ _ _ _ hi => by cases hi
  | some i =>
    obtain ⟨c, hc, hi, hlineage⟩ := mayFind_some hs hfind
    by_cases hrange : c.effectiveFrom < input.effectiveFrom
    · exact .inr ⟨i, c, rfl, hi, hlate, hcheck, hgroup, hc, hlineage, hrange⟩
    · refine .inl ⟨createEmploymentPolicy_refused (.inr (.inr ⟨by rw [hgroup]; rfl, ?_⟩)), ?_⟩
      · intro c' hc'
        obtain rfl : c = c' := Option.some.inj (hi.symm.trans hc')
        refine Option.eq_none_iff_forall_ne_some.2 fun rows hclose => hrange ?_
        exact (closePolicy_eq_some.1 hclose).1 c hc rfl (congrArg Prod.fst hlineage)
      · intro _ _ _ i' hi' p hp hlt
        obtain rfl := Option.some.inj hi'
        obtain rfl : c = p := Option.some.inj (hi.symm.trans hp)
        exact absurd hlt hrange

/-- When a call moves the end of a version, whether it is sound depends on the version. -/
theorem Moves.sound_iff (h : Moves services s tenantId policyGroupId input c interruption)
    (hi : s.findById i = some c) :
    Sound services s (.create tenantId id input (some i) interruption) ↔
      (c.effectiveTo ≠ some input.effectiveFrom →
        Latest s.policies c ∧ interruption ≠ .between) := by
  constructor
  · intro hsound
    exact hsound h.late h.checked (by rw [h.group]; rfl) i rfl c hi h.range
  · intro hgood _ _ _ i' hi' p hp _ hend
    obtain rfl := Option.some.inj hi'
    obtain rfl : c = p := Option.some.inj (hi.symm.trans hp)
    exact hgood hend

theorem Moves.spec (h : Moves services s tenantId policyGroupId input c interruption)
    (hs : Inv s.policies) (hfresh : fresh s id) (hi : s.findById i = some c) :
    (Sound services s (.create tenantId id input (some i) interruption) ↔
        Atomic services s (.create tenantId id input (some i) interruption)) ∧
      (Sound services s (.create tenantId id input (some i) interruption) →
        Inv (call services s (.create tenantId id input (some i) interruption)).2.policies) := by
  have hcall : call services s (.create tenantId id input (some i) interruption) =
      s.createEmploymentPolicy services tenantId id input (some c) interruption := by
    rw [call, Option.bind_some, hi]
  rw [h.sound_iff hi, Atomic, hcall]
  by_cases hgood : Latest s.policies c ∧ interruption ≠ .between
  · obtain ⟨p, hok, hinv⟩ := h.success hs hfresh hgood.1 hgood.2
    refine ⟨iff_of_true (fun _ => hgood) fun e he => ?_, fun _ => hinv⟩
    rw [hok] at he
    cases he
  · obtain ⟨e, herror, hrows⟩ := h.failure hs id hgood
    rw [hrows]
    by_cases hend : c.effectiveTo = some input.effectiveFrom
    · rw [endAt_eq_self hs h.mem hend]
      exact ⟨iff_of_true (fun hne => absurd hend hne) fun _ _ => rfl, fun _ => hs⟩
    · refine ⟨iff_of_false (fun hsound => hgood (hsound hend)) fun hatomic => ?_,
        fun hsound => absurd (hsound hend) hgood⟩
      exact endAt_ne_self h.mem hend (hatomic e herror)

/-- For `create`: no row changes when it throws exactly when the call is sound, and then the
invariant is kept. -/
theorem create_spec (hs : Inv s.policies) {found : Option ℕ}
    (ha : admissible s (.create tenantId id input found interruption)) :
    (Sound services s (.create tenantId id input found interruption) ↔
        Atomic services s (.create tenantId id input found interruption)) ∧
      (Sound services s (.create tenantId id input found interruption) →
        Inv (call services s (.create tenantId id input found interruption)).2.policies) := by
  have hfresh : fresh s id := (Bool.and_eq_true _ _ ▸ ha : _ ∧ _).1
  cases hgroup : input.policyGroupId with
  | none =>
    obtain ⟨hinv, hatomic⟩ := inv_createEmploymentPolicy_first hs services tenantId
      (found.bind s.findById) interruption hfresh hgroup
    refine ⟨iff_of_true (fun _ _ hsome => ?_) fun e he => ?_, fun _ => hinv⟩
    · rw [hgroup] at hsome
      cases hsome
    · exact congrArg State.policies (hatomic e he)
  | some policyGroupId =>
    rcases create_cases services hs ha hgroup with ⟨hsame, hsound⟩ | ⟨i, c, rfl, hi, hmoves⟩
    · refine ⟨iff_of_true hsound fun e _ => congrArg State.policies hsame, fun _ => ?_⟩
      rw [call, hsame]
      exact hs
    · exact hmoves.spec hs hfresh hi

end Create

/-- A call is sound exactly when it changes nothing if it throws. -/
theorem sound_iff_atomic (hs : Inv s.policies) (ha : admissible s c) :
    Sound services s c ↔ Atomic services s c := by
  cases c with
  | createLineage tenantId id input interrupted =>
    exact iff_of_true trivial (atomic_of_transact rfl)
  | supersede tenantId policyGroupId id input interrupted =>
    exact iff_of_true trivial (atomic_of_transact rfl)
  | deactivate tenantId policyGroupId now interrupted =>
    exact iff_of_true trivial (atomic_of_transact rfl)
  | create tenantId id input found interruption => exact (create_spec hs ha).1

theorem inv_call (hs : Inv s.policies) (ha : admissible s c) (hsound : Sound services s c) :
    Inv (call services s c).2.policies := by
  cases c with
  | createLineage tenantId id input interrupted =>
    exact inv_transact hs interrupted fun _ _ => inv_createLineage hs ha
  | supersede tenantId policyGroupId id input interrupted =>
    exact inv_transact hs interrupted fun _ _ => inv_supersede hs ha
  | deactivate tenantId policyGroupId now interrupted =>
    exact inv_transact hs interrupted fun _ _ => inv_deactivate hs
  | create tenantId id input found interruption => exact (create_spec hs ha).2 hsound

theorem step_eq_some (h : step services s c = some t) :
    admissible s c ∧ t = (call services s c).2 := by
  unfold step at h
  split at h
  · rename_i ha
    exact ⟨ha, (Option.some.inj h).symm⟩
  · cases h

/-- **Policy lineages.** In a run of calls from the empty table, lineages never overlap and no call
that throws changes a row exactly when every call of `create` that moves the end of a version has
found the last one of its lineage and gets to its second transaction. -/
theorem lineages_disjoint_iff {calls : List (Call Definition)}
    (h : Runs.exec (step services) State.init calls = some s) :
    (Runs.Always (step services) (fun s => Disjoint s.policies) State.init calls ∧
        Runs.Meets (step services) (Atomic services) State.init calls) ↔
      Runs.Meets (step services) (Sound services) State.init calls := by
  have hstep : ∀ s c t, Inv s.policies → Sound services s c → step services s c = some t →
      Inv t.policies := by
    intro s c t hs hsound h
    obtain ⟨ha, rfl⟩ := step_eq_some h
    exact inv_call hs ha hsound
  have hiff := Runs.meets_congr hstep
    (fun s c t hs h => sound_iff_atomic hs (step_eq_some h).1) inv_nil h
  constructor
  · exact fun hboth => hiff.2 hboth.2
  · intro hsound
    exact ⟨Runs.always_of_invariant (fun _ hs => hs.disjoint) hstep inv_nil hsound, hiff.1 hsound⟩

/-! ## Runs -/

/-- There is no floor and no org unit. -/
def noServices : Services Unit := ⟨fun _ _ => none, fun _ _ _ => true⟩

def unionRuleFrom (effectiveFrom : ℤ) : LineageInput Unit := ⟨.unionRule, none, (), effectiveFrom⟩

def unionRuleVersion (effectiveFrom : ℤ) : CreateEmploymentPolicyInput Unit :=
  ⟨some 1, .unionRule, none, none, (), effectiveFrom⟩

/-- A version is added where the first one was found. -/
def twoVersions : List (Call Unit) :=
  [.createLineage 7 1 (unionRuleFrom 1) false, .create 7 2 (unionRuleVersion 10) (some 1) .never]

theorem twoVersions_disjoint :
    ∃ s, Runs.exec (step noServices) State.init twoVersions = some s ∧
      s.policies.map (·.window) = [⟨1, some 10⟩, ⟨10, none⟩] ∧ Disjoint s.policies := by
  obtain ⟨s, hs, hwindows⟩ : ∃ s, Runs.exec (step noServices) State.init twoVersions = some s ∧
      s.policies.map (·.window) = [⟨1, some 10⟩, ⟨10, none⟩] := Runs.exists_exec (by decide)
  have hsound : Runs.Meets (step noServices) (Sound noServices) State.init twoVersions := by
    refine Runs.meets_cons.2 ⟨trivial, fun t ht => ?_⟩
    cases ht
    refine Runs.meets_cons.2 ⟨?_, fun _ _ => Runs.meets_nil⟩
    intro _ _ _ i hi p hp _ _
    cases hi
    cases hp
    exact ⟨by unfold Latest; decide, by decide⟩
  exact ⟨s, hs, hwindows, ((lineages_disjoint_iff hs).2 hsound).1 _ s (prefix_refl _) hs⟩

/-- The second version is open, and `create` finds the first one: it ends it later, which makes the
two overlap, and throws. -/
theorem first_version_revived :
    ∃ s, Runs.exec (step noServices) State.init
        [.createLineage 7 1 (unionRuleFrom 1) false,
          .supersede 7 1 2 (unionRuleFrom 10) false] = some s ∧
      admissible s (.create 7 3 (unionRuleVersion 20) (some 1) .never) ∧
      (call noServices s (.create 7 3 (unionRuleVersion 20) (some 1) .never)).1 =
        .error .constraint ∧
      (call noServices s (.create 7 3 (unionRuleVersion 20) (some 1) .never)).2.policies.map
        (·.window) = [⟨1, some 20⟩, ⟨10, none⟩] ∧
      (activeAsOf (call noServices s
        (.create 7 3 (unionRuleVersion 20) (some 1) .never)).2.policies 7 1 15).length = 2 := by
  refine ⟨_, rfl, ?_, ?_, ?_, ?_⟩ <;> decide

end Workforce.Policies
