import Workforce.Policy.Lineages

/-!
# Lists of active policies

`findForOrgUnit` of `employment-policies.service.ts` and `listActive` of
`policy-management.service.ts` list the versions that are open. `findActiveAsOf` returns a version
whose window has the instant. A version that is open may start later, and one that is in force may
have an end.

* `WellFormed`: what the constraints of the table say, for any dates.
* `active_lists_iff`: when the lists show what `findActiveAsOf` returns, and when a deactivation
  ends a lineage.
-/

namespace Workforce.Policies

open Tables Runs List Function

variable {Definition : Type*}

/-! ## The lists -/

/-- `findForOrgUnit` of the repository: every version. -/
def findVersionsForOrgUnit (rows : List (Policy Definition)) (tenantId : ℕ)
    (orgUnitId : Option ℕ) : List (Policy Definition) :=
  rows.filter fun p =>
    p.tenantId = tenantId && p.policyType ∈ employmentPolicyTypes && p.orgUnitId = orgUnitId

/-- `findForOrgUnit` of the service. -/
def findForOrgUnit (rows : List (Policy Definition)) (tenantId : ℕ) (orgUnitId : Option ℕ) :
    List (Policy Definition) :=
  (findVersionsForOrgUnit rows tenantId orgUnitId).filter (·.effectiveTo.isNone)

/-- `listActive`, for one type of policy or for all. -/
def listActive (rows : List (Policy Definition)) (tenantId : ℕ) (policyType : Option PolicyType) :
    List (Policy Definition) :=
  rows.filter fun p =>
    p.tenantId = tenantId && p.effectiveTo.isNone && policyType.all (p.policyType = ·)

/-! ## What is claimed of them -/

/-- What `findActiveAsOf` may return. -/
def MayAnswer (rows : List (Policy Definition)) (tenantId policyGroupId : ℕ) (asOf : ℤ)
    (answer : Option (Policy Definition)) : Prop :=
  match answer with
  | none => activeAsOf rows tenantId policyGroupId asOf = []
  | some p => p ∈ activeAsOf rows tenantId policyGroupId asOf

/-- The list has, each once, the versions in scope that `findActiveAsOf` returns for the lineages of
the tenant, whatever it returns of those it may. -/
def ShowsActive (rows : List (Policy Definition)) (tenantId : ℕ) (now : ℤ)
    (inScope : Policy Definition → Bool) (listed : List (Policy Definition)) : Prop :=
  listed.Nodup ∧ ∀ answer : ℕ → Option (Policy Definition),
    (∀ policyGroupId, MayAnswer rows tenantId policyGroupId now (answer policyGroupId)) →
      ∀ p, p ∈ listed ↔ inScope p = true ∧ ∃ policyGroupId, answer policyGroupId = some p

/-- A successful `deactivate` leaves nothing of the lineage in force from now on. -/
def EndsLineage (s : State Definition) (tenantId policyGroupId : ℕ) (now : ℤ) : Prop :=
  ∀ t p, s.deactivate tenantId policyGroupId now = .ok (t, p) →
    ∀ time, now ≤ time → activeAsOf t.policies tenantId policyGroupId time = []

/-- The open versions in scope have started, and a version in force that has an end is not in scope,
nor is the open version of its lineage. -/
structure OpenAreActive (rows : List (Policy Definition)) (tenantId : ℕ) (now : ℤ)
    (inScope : Policy Definition → Bool) : Prop where
  started : ∀ p ∈ rows, p.tenantId = tenantId → inScope p = true → p.effectiveTo = none →
    p.effectiveFrom ≤ now
  ended : ∀ q ∈ rows, q.tenantId = tenantId → q.effectiveTo ≠ none → q.window.Contains now →
    inScope q = false ∧
      ∀ p ∈ rows, p.lineage = q.lineage → p.effectiveTo = none → inScope p = false

/-- If the open version of the lineage can be ended, every other one has ended. -/
def OthersEnded (s : State Definition) (tenantId policyGroupId : ℕ) (now : ℤ) : Prop :=
  ∀ c ∈ s.findOpen tenantId policyGroupId, c.effectiveFrom < now →
    ∀ q ∈ s.policies, q.lineage = (tenantId, policyGroupId) → ∀ e ∈ q.effectiveTo, e ≤ now

/-! ## The constraints of the table -/

/-- The primary key, `policies_effective_range` and `uq_policies_one_open_version`. -/
structure WellFormed (rows : List (Policy Definition)) : Prop where
  ids : (rows.map (·.id)).Nodup
  ranges : ∀ p ∈ rows, p.window.Wf
  oneOpen : ∀ p ∈ rows, ∀ q ∈ rows, p.lineage = q.lineage → p.effectiveTo = none →
    q.effectiveTo = none → p = q

section Rows

variable {rows rows' : List (Policy Definition)} {p q : Policy Definition}
  {tenantId policyGroupId : ℕ} {now asOf : ℤ} {inScope : Policy Definition → Bool}

theorem mem_activeAsOf : p ∈ activeAsOf rows tenantId policyGroupId asOf ↔
    p ∈ rows ∧ p.lineage = (tenantId, policyGroupId) ∧ p.window.Contains asOf := by
  simp only [activeAsOf, mem_filter, Bool.and_eq_true, decide_eq_true_eq, Option.all_eq_true,
    Policy.lineage, Prod.mk.injEq, Successions.Window.Contains, Policy.window, Option.mem_def,
    and_assoc]

theorem endAt_eq_or (tenantId id : ℕ) (e : ℤ) (p : Policy Definition) :
    p.endAt tenantId id e = p ∨ p.id = id ∧ p.tenantId = tenantId ∧
      p.endAt tenantId id e = { p with effectiveTo := some e } := by
  unfold Policy.endAt
  split
  · rename_i h
    exact .inr ⟨h.1, h.2, rfl⟩
  · exact .inl rfl

namespace WellFormed

theorem nil : WellFormed ([] : List (Policy Definition)) :=
  ⟨nodup_nil, by simp, by simp⟩

theorem insert (h : WellFormed rows) (hinsert : insertPolicy rows p = some rows') :
    WellFormed rows' := by
  unfold insertPolicy at hinsert
  split at hinsert
  · rename_i hok
    obtain ⟨hid, -, hrange, -, hopen⟩ := hok
    cases hinsert
    refine ⟨nodup_append_singleton h.ids fun q hq heq => hid (heq ▸ mem_map_of_mem hq), ?_, ?_⟩
    · intro q hq
      rcases mem_append.1 hq with hold | hnew
      · exact h.ranges q hold
      · exact mem_singleton.1 hnew ▸ hrange
    · intro q hq r hr hlineage hq' hr'
      rcases mem_append.1 hq with hold | hnew <;>
        rcases mem_append.1 hr with hold' | hnew'
      · exact h.oneOpen q hold r hold' hlineage hq' hr'
      · obtain rfl := mem_singleton.1 hnew'
        exact absurd hq' (hopen hr' q hold hlineage)
      · obtain rfl := mem_singleton.1 hnew
        exact absurd hr' (hopen hq' r hold' hlineage.symm)
      · rw [mem_singleton.1 hnew, mem_singleton.1 hnew']
  · cases hinsert

theorem close (h : WellFormed rows) {id : ℕ} {e : ℤ}
    (hclose : closePolicy rows tenantId id e = some rows') : WellFormed rows' := by
  obtain ⟨hrange, rfl⟩ := closePolicy_eq_some.1 hclose
  refine ⟨?_, ?_, ?_⟩
  · rw [map_map]
    simpa [comp_def] using h.ids
  · intro q hq
    obtain ⟨q₀, hq₀, rfl⟩ := mem_map.1 hq
    rcases endAt_eq_or tenantId id e q₀ with heq | ⟨hid, htenant, heq⟩
    · rw [heq]
      exact h.ranges q₀ hq₀
    · rw [heq]
      intro e' he'
      obtain rfl := Option.some.inj he'
      exact hrange q₀ hq₀ hid htenant
  · intro q hq r hr hlineage hq' hr'
    obtain ⟨q₀, hq₀, rfl⟩ := mem_map.1 hq
    obtain ⟨r₀, hr₀, rfl⟩ := mem_map.1 hr
    have hopen : ∀ x : Policy Definition, (x.endAt tenantId id e).effectiveTo = none →
        x.endAt tenantId id e = x := by
      intro x hx
      rcases endAt_eq_or tenantId id e x with heq | ⟨-, -, heq⟩
      · exact heq
      · rw [heq] at hx
        cases hx
    rw [hopen q₀ hq', hopen r₀ hr'] at hlineage ⊢
    rw [hopen q₀ hq'] at hq'
    rw [hopen r₀ hr'] at hr'
    exact h.oneOpen q₀ hq₀ r₀ hr₀ hlineage hq' hr'

end WellFormed

/-! ## The lists and the answers -/

theorem exists_mayAnswer (rows : List (Policy Definition)) (tenantId : ℕ) (now : ℤ) :
    ∃ answer : ℕ → Option (Policy Definition),
      ∀ policyGroupId, MayAnswer rows tenantId policyGroupId now (answer policyGroupId) := by
  refine ⟨fun policyGroupId => (activeAsOf rows tenantId policyGroupId now).head?, ?_⟩
  intro policyGroupId
  cases h : (activeAsOf rows tenantId policyGroupId now).head? with
  | none =>
    simp only [h]
    exact head?_eq_none_iff.1 h
  | some p =>
    simp only [h]
    exact mem_of_head? h

theorem exists_mayAnswer_eq (hq : q ∈ rows) (htenant : q.tenantId = tenantId)
    (hforce : q.window.Contains now) : ∃ answer : ℕ → Option (Policy Definition),
      (∀ policyGroupId, MayAnswer rows tenantId policyGroupId now (answer policyGroupId)) ∧
        answer q.policyGroupId = some q := by
  obtain ⟨answer, hanswer⟩ := exists_mayAnswer rows tenantId now
  refine ⟨update answer q.policyGroupId (some q), fun policyGroupId => ?_, update_self ..⟩
  by_cases h : policyGroupId = q.policyGroupId
  · subst h
    rw [update_self]
    exact mem_activeAsOf.2 ⟨hq, Prod.ext htenant rfl, hforce⟩
  · rw [update_of_ne h]
    exact hanswer policyGroupId

theorem MayAnswer.mem {answer : Option (Policy Definition)}
    (h : MayAnswer rows tenantId policyGroupId now answer) (hp : answer = some p) :
    p ∈ rows ∧ p.lineage = (tenantId, policyGroupId) ∧ p.window.Contains now := by
  subst hp
  exact mem_activeAsOf.1 h

theorem contains_of_open (hopen : p.effectiveTo = none) :
    p.window.Contains now ↔ p.effectiveFrom ≤ now := by
  simp [Successions.Window.Contains, Policy.window, hopen]

/-- **A list of open versions** shows what applies exactly when open and active coincide in it. -/
theorem showsActive_iff (hrows : WellFormed rows) {listed : List (Policy Definition)}
    (hnodup : listed.Nodup) (hlisted : ∀ p, p ∈ listed ↔
      p ∈ rows ∧ p.tenantId = tenantId ∧ inScope p = true ∧ p.effectiveTo = none) :
    ShowsActive rows tenantId now inScope listed ↔ OpenAreActive rows tenantId now inScope := by
  constructor
  · rintro ⟨-, hshows⟩
    refine ⟨fun p hp htenant hscope hopen => ?_, fun q hq htenant hended hforce => ?_⟩
    · obtain ⟨answer, hanswer⟩ := exists_mayAnswer rows tenantId now
      obtain ⟨-, policyGroupId, hgroup⟩ :=
        (hshows answer hanswer p).1 ((hlisted p).2 ⟨hp, htenant, hscope, hopen⟩)
      exact ((hanswer policyGroupId).mem hgroup).2.2.1
    · obtain ⟨answer, hanswer, hself⟩ := exists_mayAnswer_eq hq htenant hforce
      constructor
      · refine Bool.eq_false_iff.2 fun hscope => hended ?_
        exact ((hlisted q).1 ((hshows answer hanswer q).2 ⟨hscope, _, hself⟩)).2.2.2
      · intro p hp hlineage hopen
        refine Bool.eq_false_iff.2 fun hscope => hended ?_
        have htenant' : p.tenantId = tenantId := (congrArg Prod.fst hlineage).trans htenant
        obtain ⟨-, policyGroupId, hgroup⟩ :=
          (hshows answer hanswer p).1 ((hlisted p).2 ⟨hp, htenant', hscope, hopen⟩)
        obtain ⟨-, hlineage', -⟩ := (hanswer policyGroupId).mem hgroup
        have hsame : policyGroupId = q.policyGroupId :=
          (congrArg Prod.snd hlineage').symm.trans (congrArg Prod.snd hlineage)
        rw [hsame, hself] at hgroup
        rw [Option.some.inj hgroup]
        exact hopen
  · rintro ⟨hstarted, hendedVersions⟩
    refine ⟨hnodup, fun answer hanswer p => ⟨fun hp => ?_, ?_⟩⟩
    · obtain ⟨hp, rfl, hscope, hopen⟩ := (hlisted p).1 hp
      have hforce := (contains_of_open hopen).2 (hstarted p hp rfl hscope hopen)
      refine ⟨hscope, p.policyGroupId, ?_⟩
      cases hsome : answer p.policyGroupId with
      | none =>
        have hnone := hanswer p.policyGroupId
        rw [hsome] at hnone
        have hmem := mem_activeAsOf.2 ⟨hp, rfl, hforce⟩
        rw [show activeAsOf rows p.tenantId p.policyGroupId now = [] from hnone] at hmem
        cases hmem
      | some q =>
        obtain ⟨hq, hlineage, hforce'⟩ := (hanswer p.policyGroupId).mem hsome
        -- A version with an end would hide the open one.
        have hopen' : q.effectiveTo = none := by
          by_contra hended
          have hout := (hendedVersions q hq (congrArg Prod.fst hlineage) hended hforce').2 p hp
            hlineage.symm hopen
          rw [hscope] at hout
          cases hout
        rw [hrows.oneOpen q hq p hp hlineage hopen' hopen]
    · rintro ⟨hscope, policyGroupId, hgroup⟩
      obtain ⟨hp, hlineage, hforce⟩ := (hanswer policyGroupId).mem hgroup
      have htenant : p.tenantId = tenantId := congrArg Prod.fst hlineage
      refine (hlisted p).2 ⟨hp, htenant, hscope, ?_⟩
      by_contra hended
      have hout := (hendedVersions p hp htenant hended hforce).1
      rw [hscope] at hout
      cases hout

end Rows

/-! ## Deactivation -/

section Deactivate

variable {s t : State Definition} {tenantId policyGroupId : ℕ} {now : ℤ} {p : Policy Definition}

/-- A successful `deactivate` ends the open version, which has started. -/
theorem deactivate_ok (h : s.deactivate tenantId policyGroupId now = .ok (t, p)) :
    ∃ c, s.findOpen tenantId policyGroupId = some c ∧ c.effectiveFrom < now ∧
      t.policies = s.policies.map (Policy.endAt tenantId c.id now) := by
  unfold State.deactivate at h
  split at h
  · cases h
  · rename_i c hfind
    split at h
    · cases h
    · rename_i rows hclose
      obtain ⟨hrange, rfl⟩ := closePolicy_eq_some.1 hclose
      obtain ⟨hc, hlineage, -⟩ := findOpen_eq_some hfind
      cases h
      exact ⟨c, hfind, hrange c hc rfl (congrArg Prod.fst hlineage), rfl⟩

theorem exists_deactivate (hs : WellFormed s.policies) {c : Policy Definition}
    (hfind : s.findOpen tenantId policyGroupId = some c) (hstart : c.effectiveFrom < now) :
    ∃ t p, s.deactivate tenantId policyGroupId now = .ok (t, p) := by
  obtain ⟨hc, hlineage, -⟩ := findOpen_eq_some hfind
  have hclose : closePolicy s.policies tenantId c.id now =
      some (s.policies.map (Policy.endAt tenantId c.id now)) := by
    refine closePolicy_eq_some.2 ⟨fun q hq hid _ => ?_, rfl⟩
    rwa [eq_of_key_eq hs.ids hq hc hid]
  unfold State.deactivate
  simp only [hfind, hclose]
  exact ⟨_, _, rfl⟩

/-- **Deactivation** ends a lineage exactly when every other version of it has ended. -/
theorem endsLineage_iff (hs : WellFormed s.policies) :
    EndsLineage s tenantId policyGroupId now ↔ OthersEnded s tenantId policyGroupId now := by
  constructor
  · intro hends c hfind hstart q hq hlineage e he
    obtain ⟨t, p, hdeactivate⟩ := exists_deactivate hs hfind hstart
    obtain ⟨c', hfind', -, hrows⟩ := deactivate_ok hdeactivate
    obtain rfl := Option.some.inj (hfind.symm.trans hfind')
    obtain ⟨hc, -, hopen⟩ := findOpen_eq_some hfind
    by_contra hlater
    -- The version is still there and in force at the later of its start and now.
    have hkeep : q.endAt tenantId c.id now = q := by
      rcases endAt_eq_or tenantId c.id now q with heq | ⟨hid, -, -⟩
      · exact heq
      · rw [eq_of_key_eq hs.ids hq hc hid, hopen] at he
        cases he
    have hwindow : q.effectiveFrom < e := hs.ranges q hq e he
    have hmem : q ∈ activeAsOf t.policies tenantId policyGroupId (max now q.effectiveFrom) := by
      rw [hrows, mem_activeAsOf]
      refine ⟨mem_map.2 ⟨q, hq, hkeep⟩, hlineage, le_max_right _ _, fun e' he' => ?_⟩
      obtain rfl := Option.some.inj (he.symm.trans he')
      exact max_lt (not_le.1 hlater) hwindow
    rw [hends t p hdeactivate _ (le_max_left _ _)] at hmem
    cases hmem
  · intro hothers t p hdeactivate time htime
    obtain ⟨c, hfind, hstart, hrows⟩ := deactivate_ok hdeactivate
    obtain ⟨hc, hclineage, hopen⟩ := findOpen_eq_some hfind
    refine eq_nil_iff_forall_not_mem.2 fun q hq => ?_
    rw [hrows, mem_activeAsOf] at hq
    obtain ⟨hq, hlineage, -, hforce⟩ := hq
    obtain ⟨q₀, hq₀, rfl⟩ := mem_map.1 hq
    rw [Policy.endAt_lineage] at hlineage
    rcases endAt_eq_or tenantId c.id now q₀ with heq | ⟨-, -, heq⟩
    · rw [heq] at hforce
      cases hto : q₀.effectiveTo with
      | none =>
        -- It would be the open version, which has been ended.
        obtain rfl := hs.oneOpen q₀ hq₀ c hc (hlineage.trans hclineage.symm) hto hopen
        have hended := Policy.endAt_self now q₀
        rw [show q₀.tenantId = tenantId from congrArg Prod.fst hlineage, heq, hto] at hended
        cases hended
      | some e =>
        have hle := hothers c hfind hstart q₀ hq₀ hlineage e hto
        have hlt := hforce e hto
        omega
    · rw [heq] at hforce
      have hlt := hforce now rfl
      omega

end Deactivate

/-! ## Every call keeps the constraints -/

section Calls

variable {services : Services Definition} {s t : State Definition} {p : Policy Definition}
  {tenantId policyGroupId id : ℕ}

theorem wellFormed_transact (hs : WellFormed s.policies) (interrupted : Bool)
    {result : Except PolicyError (State Definition × Policy Definition)}
    (h : ∀ t p, result = .ok (t, p) → WellFormed t.policies) :
    WellFormed (transact s interrupted result).2.policies := by
  unfold transact
  split
  · exact hs
  · cases result with
    | error e => exact hs
    | ok r => exact h r.1 r.2 rfl

theorem WellFormed.createLineage (hs : WellFormed s.policies) {input : LineageInput Definition}
    (h : s.createLineage tenantId id input = .ok (t, p)) : WellFormed t.policies := by
  unfold State.createLineage at h
  simp only at h
  split at h
  · cases h
  · rename_i rows hinsert
    cases h
    exact hs.insert hinsert

theorem WellFormed.supersede (hs : WellFormed s.policies) {input : LineageInput Definition}
    (h : s.supersede tenantId policyGroupId id input = .ok (t, p)) : WellFormed t.policies := by
  unfold State.supersede at h
  split at h
  · cases h
  split at h
  · cases h
  rename_i rows hclose
  simp only at h
  split at h
  · cases h
  · rename_i rows' hinsert
    cases h
    exact (hs.close hclose).insert hinsert

theorem WellFormed.deactivate (hs : WellFormed s.policies) {now : ℤ}
    (h : s.deactivate tenantId policyGroupId now = .ok (t, p)) : WellFormed t.policies := by
  unfold State.deactivate at h
  split at h
  · cases h
  split at h
  · cases h
  · rename_i rows hclose
    cases h
    exact hs.close hclose

theorem WellFormed.createEmploymentPolicy (hs : WellFormed s.policies)
    (input : CreateEmploymentPolicyInput Definition) (found : Option (Policy Definition))
    (interruption : Interruption) :
    WellFormed (s.createEmploymentPolicy services tenantId id input found
      interruption).2.policies := by
  unfold State.createEmploymentPolicy
  split
  · exact hs
  split
  · exact hs
  split
  · split
    · exact hs
    split
    · exact hs
    rename_i rows hclose
    have hclosed := hs.close hclose
    simp only
    split
    · exact hclosed
    split
    · exact hclosed
    · rename_i rows' hinsert
      exact hclosed.insert hinsert
  · simp only
    split
    · exact hs
    · rename_i rows hinsert
      exact hs.insert hinsert

theorem WellFormed.step (hs : WellFormed s.policies) {c : Call Definition}
    (h : step services s c = some t) : WellFormed t.policies := by
  unfold Policies.step at h
  split at h
  · cases h
    cases c with
    | createLineage tenantId id input interrupted =>
      exact wellFormed_transact hs interrupted fun t p => hs.createLineage
    | supersede tenantId policyGroupId id input interrupted =>
      exact wellFormed_transact hs interrupted fun t p => hs.supersede
    | deactivate tenantId policyGroupId now interrupted =>
      exact wellFormed_transact hs interrupted fun t p => hs.deactivate
    | create tenantId id input found interruption =>
      exact hs.createEmploymentPolicy input (found.bind s.findById) interruption
  · cases h

/-- Whatever the dates of the calls, the constraints hold. -/
theorem wellFormed_exec {calls : List (Call Definition)}
    (h : exec (step services) State.init calls = some s) : WellFormed s.policies :=
  exec_keeps (fun s : State Definition => WellFormed s.policies) (fun _ _ _ hs => hs.step) .nil h

end Calls

/-! ## The lists and the deactivation -/

/-- The versions that `findForOrgUnit` is asked for. -/
def forOrgUnit (orgUnitId : Option ℕ) (p : Policy Definition) : Bool :=
  p.policyType ∈ employmentPolicyTypes && p.orgUnitId = orgUnitId

/-- The versions that `listActive` is asked for. -/
def ofType (policyType : Option PolicyType) (p : Policy Definition) : Bool :=
  policyType.all (p.policyType = ·)

/-- **Active lists**: for any versions and dates, each list shows what `findActiveAsOf` returns
exactly when open and active coincide in its scope, and a deactivation ends a lineage exactly when
every other version of it has ended. -/
theorem active_lists_iff {s : State Definition} (hs : WellFormed s.policies) (tenantId : ℕ)
    (now : ℤ) :
    (∀ orgUnitId, ShowsActive s.policies tenantId now (forOrgUnit orgUnitId)
        (findForOrgUnit s.policies tenantId orgUnitId) ↔
      OpenAreActive s.policies tenantId now (forOrgUnit orgUnitId)) ∧
    (∀ policyType, ShowsActive s.policies tenantId now (ofType policyType)
        (listActive s.policies tenantId policyType) ↔
      OpenAreActive s.policies tenantId now (ofType policyType)) ∧
    ∀ policyGroupId, EndsLineage s tenantId policyGroupId now ↔
      OthersEnded s tenantId policyGroupId now := by
  have hnodup : s.policies.Nodup := .of_map _ hs.ids
  refine ⟨fun orgUnitId => ?_, fun policyType => ?_, fun policyGroupId => endsLineage_iff hs⟩
  · refine showsActive_iff hs ((hnodup.filter _).filter _) fun p => ?_
    simp only [findForOrgUnit, findVersionsForOrgUnit, mem_filter, forOrgUnit,
      Bool.and_eq_true, decide_eq_true_eq, Option.isNone_iff_eq_none, and_assoc]
  · refine showsActive_iff hs (hnodup.filter _) fun p => ?_
    simp only [listActive, mem_filter, ofType, Bool.and_eq_true, decide_eq_true_eq,
      Option.isNone_iff_eq_none]
    tauto

/-- Once the second version has started, it is what the lists show. -/
theorem twoVersions_started : ∃ s, exec (step noServices) State.init twoVersions = some s ∧
    ShowsActive s.policies 7 15 (forOrgUnit none) (findForOrgUnit s.policies 7 none) ∧
    ShowsActive s.policies 7 15 (ofType none) (listActive s.policies 7 none) := by
  obtain ⟨s, hs, hrows⟩ : ∃ s, exec (step noServices) State.init twoVersions = some s ∧
      s.policies = [⟨1, 7, 1, .unionRule, none, (), 1, some 10, 1⟩,
        ⟨2, 7, 1, .unionRule, none, (), 10, none, 2⟩] := exists_exec (by decide)
  have hopen : ∀ inScope, OpenAreActive s.policies 7 15 inScope := by
    intro inScope
    rw [hrows]
    refine ⟨fun p hp _ _ hopen => ?_, fun q hq _ hended hforce => ?_⟩
    · rcases mem_pair.1 hp with rfl | rfl
      · cases hopen
      · decide
    · rcases mem_pair.1 hq with rfl | rfl
      · exact absurd (hforce.2 10 rfl) (by decide)
      · exact absurd rfl hended
  obtain ⟨hlists, hlists', -⟩ := active_lists_iff (wellFormed_exec hs) 7 15
  exact ⟨s, hs, (hlists none).2 (hopen _), (hlists' none).2 (hopen _)⟩

/-- Before that, the lists show it and not the first version, which is in force. -/
theorem twoVersions_not_started : ∃ s, exec (step noServices) State.init twoVersions = some s ∧
    ¬ ShowsActive s.policies 7 5 (forOrgUnit none) (findForOrgUnit s.policies 7 none) ∧
    ¬ ShowsActive s.policies 7 5 (ofType none) (listActive s.policies 7 none) := by
  obtain ⟨s, hs, hrows⟩ : ∃ s, exec (step noServices) State.init twoVersions = some s ∧
      s.policies = [⟨1, 7, 1, .unionRule, none, (), 1, some 10, 1⟩,
        ⟨2, 7, 1, .unionRule, none, (), 10, none, 2⟩] := exists_exec (by decide)
  have hfirst : ⟨1, 7, 1, .unionRule, none, (), 1, some 10, 1⟩ ∈ s.policies := by
    rw [hrows]
    exact mem_cons_self
  have hforce : Successions.Window.Contains ⟨1, some 10⟩ 5 := by decide
  obtain ⟨answer, hanswer, hself⟩ := exists_mayAnswer_eq hfirst rfl hforce
  refine ⟨s, hs, fun hshows => ?_, fun hshows => ?_⟩
  · have hlisted := (hshows.2 answer hanswer _).2 ⟨by decide, 1, hself⟩
    rw [hrows] at hlisted
    revert hlisted
    decide
  · have hlisted := (hshows.2 answer hanswer _).2 ⟨by decide, 1, hself⟩
    rw [hrows] at hlisted
    revert hlisted
    decide

end Workforce.Policies
