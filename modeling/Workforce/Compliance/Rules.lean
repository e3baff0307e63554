import Workforce.Compliance.FloorCheck
import Workforce.Foundations.Runs
import Workforce.Foundations.Tables

/-!
# Compliance rules

`ComplianceRuleService`: rules are created pending review, previewed and activated, one version
after another for a tenant, a jurisdiction and a type of rule. `resolve-effective-rules.ts` decides
which of them is in effect at an instant. A rule that another one replaces is marked superseded and
keeps its window, so it still takes part in the resolution.

A date is a number of days and an instant a number of milliseconds, both since 1970-01-01.

* `getActiveRule_eq_some_iff`: the rule that is resolved.
* `mem_findEffectiveRules_iff`: the rules in effect, together and each alone.
* `activations_take_effect_iff`: the runs in which every activation takes effect.
-/

namespace Workforce.Compliance

open Scheduling Tables Runs

/-! ## The tables -/

/-- `ComplianceRuleStatus`. -/
inductive ComplianceRuleStatus
  | pendingReview | active | superseded | rejected
  deriving DecidableEq

/-- The text of a status. -/
def ComplianceRuleStatus.value : ComplianceRuleStatus → String
  | pendingReview => "pending_review"
  | active => "active"
  | superseded => "superseded"
  | rejected => "rejected"

/-- A row of `compliance_rule`; without a tenant it is a default of the platform. -/
structure ComplianceRule where
  id : UUID
  tenantId : Option UUID
  jurisdiction : String
  ruleType : RuleType
  definition : Json
  effectiveFrom : ℤ
  effectiveTo : Option ℤ
  version : ℤ
  citation : String
  status : ComplianceRuleStatus
  activationDelayUntil : Option ℤ
  createdAt : ℤ
  activatedAt : Option ℤ

/-- A row of `rule_change_impact_preview`. -/
structure RuleChangeImpactPreview where
  tenantId : UUID
  complianceRuleId : UUID
  wouldBecomeNoncompliantCount : ℕ
  generatedAt : ℤ

structure RuleDb where
  rules : List ComplianceRule
  previews : List RuleChangeImpactPreview

/-- `CreateComplianceRuleInput`. -/
structure CreateComplianceRuleInput where
  jurisdiction : String
  ruleType : RuleType
  definition : Json
  effectiveFrom : ℤ
  effectiveTo : Option ℤ
  citation : String

/-- The errors of the service, and those of the database. -/
inductive RuleError
  | complianceRuleNotFound (ruleId : UUID)
  | complianceRuleNotOwned (ruleId : UUID)
  | complianceRuleNotPendingReview (ruleId : UUID) (actualStatus : ComplianceRuleStatus)
  | complianceRuleCitationRequired
  | invalidComplianceRuleEffectiveRange
  | impactPreviewRequired (ruleId : UUID)
  | activationJustificationRequired (ruleId : UUID)
  | integerOutOfRange
  | uniqueViolation

/-- The code and the text of an error of the service. -/
def RuleError.describe : RuleError → Option (String × String)
  | complianceRuleNotFound ruleId => some ("COMPLIANCE_RULE_NOT_FOUND",
      "Compliance rule " ++ uuidStr ruleId ++ " was not found.")
  | complianceRuleNotOwned ruleId => some ("COMPLIANCE_RULE_NOT_OWNED",
      "Compliance rule " ++ uuidStr ruleId ++
        " is not owned by this tenant and cannot be modified.")
  | complianceRuleNotPendingReview ruleId actualStatus =>
    some ("COMPLIANCE_RULE_NOT_PENDING_REVIEW",
      "Compliance rule " ++ uuidStr ruleId ++ " cannot be activated - its status is \"" ++
        actualStatus.value ++ "\", not \"pending_review\".")
  | complianceRuleCitationRequired => some ("COMPLIANCE_RULE_CITATION_REQUIRED",
      "citation must be a non-empty legal reference.")
  | invalidComplianceRuleEffectiveRange => some ("INVALID_COMPLIANCE_RULE_EFFECTIVE_RANGE",
      "effectiveTo must not be before effectiveFrom.")
  | impactPreviewRequired ruleId => some ("IMPACT_PREVIEW_REQUIRED",
      "Compliance rule " ++ uuidStr ruleId ++
        " cannot be activated until a RuleChangeImpactPreview has been generated for it.")
  | activationJustificationRequired ruleId => some ("ACTIVATION_JUSTIFICATION_REQUIRED",
      "Compliance rule " ++ uuidStr ruleId ++ " has a preview flagging non-compliant schedules" ++
        " — activating anyway requires a non-empty justificationNote.")
  | integerOutOfRange => none
  | uniqueViolation => none

namespace ComplianceRule

/-- The rules that replace one another. -/
def scope (r : ComplianceRule) : Option UUID × String × RuleType :=
  (r.tenantId, r.jurisdiction, r.ruleType)

/-- The key of the two unique indexes, on the rules of a tenant and on those of the platform. -/
def versionKey (r : ComplianceRule) : (Option UUID × String × RuleType) × ℤ := (r.scope, r.version)

end ComplianceRule

namespace RuleDb

/-- The rules that row-level security shows to a tenant: its own and those of the platform. -/
def visible (db : RuleDb) (tenantId : UUID) : List ComplianceRule :=
  db.rules.filter fun r => r.tenantId = some tenantId ∨ r.tenantId = none

/-- `findOne(ComplianceRule, { where: { id: ruleId } })` on the connection of a tenant. -/
def findRule (db : RuleDb) (tenantId ruleId : UUID) : Option ComplianceRule :=
  lookup (·.id) ruleId (db.visible tenantId)

/-- The preview of a rule that was generated last. -/
def latestPreview (db : RuleDb) (tenantId ruleId : UUID) : Option RuleChangeImpactPreview :=
  ((db.previews.filter fun p => p.tenantId = tenantId ∧ p.complianceRuleId = ruleId).insertionSort
    fun p q => q.generatedAt ≤ p.generatedAt).head?

/-- `manager.insert(ComplianceRule, …)`: the primary key and the unique indexes apply. -/
def insertRule (db : RuleDb) (r : ComplianceRule) : Except RuleError RuleDb :=
  if db.rules.any fun q => q.id = r.id || q.versionKey = r.versionKey then .error .uniqueViolation
  else .ok { db with rules := db.rules ++ [r] }

end RuleDb

/-! ## Creating and activating -/

/-- `nextVersion`, in a column of 32 bits. -/
def nextVersion (db : RuleDb) (tenantId : UUID) (jurisdiction : String) (ruleType : RuleType) :
    Except RuleError ℤ :=
  let versions := (db.rules.filter fun r => r.scope = (some tenantId, jurisdiction, ruleType)).map
    (·.version)
  let version := versions.max?.getD 0 + 1
  if version < 2 ^ 31 then .ok version else .error .integerOutOfRange

/-- `createRule`, with the identifier it draws and the time of the call. -/
def createRule (db : RuleDb) (tenantId : UUID) (input : CreateComplianceRuleInput) (id : UUID)
    (now : ℤ) : Except RuleError (RuleDb × ComplianceRule) := do
  let citation := jsTrim input.citation.toList
  if citation.length = 0 then throw .complianceRuleCitationRequired
  if input.effectiveTo.any (· < input.effectiveFrom) then throw .invalidComplianceRuleEffectiveRange
  let version ← nextVersion db tenantId input.jurisdiction input.ruleType
  let rule : ComplianceRule :=
    { id, tenantId, jurisdiction := input.jurisdiction, ruleType := input.ruleType
      definition := input.definition, effectiveFrom := input.effectiveFrom
      effectiveTo := input.effectiveTo, version, citation := String.ofList citation
      status := .pendingReview, activationDelayUntil := none, createdAt := now
      activatedAt := none }
  let db' ← db.insertRule rule
  return (db', rule)

/-- `getOwnedRule`. -/
def getOwnedRule (db : RuleDb) (tenantId ruleId : UUID) : Except RuleError ComplianceRule :=
  match db.findRule tenantId ruleId with
  | none => .error (.complianceRuleNotFound ruleId)
  | some existing =>
    if existing.tenantId ≠ some tenantId then .error (.complianceRuleNotOwned ruleId)
    else .ok existing

/-- `generatePreview`, with the number of employees that its simulation finds. -/
def generatePreview (db : RuleDb) (tenantId ruleId : UUID) (affectedEmployees : ℕ) (now : ℤ) :
    Except RuleError RuleDb := do
  let _ ← getOwnedRule db tenantId ruleId
  return { db with previews := db.previews ++
    [{ tenantId, complianceRuleId := ruleId, wouldBecomeNoncompliantCount := affectedEmployees
       generatedAt := now }] }

/-- The active rules of a scope become superseded; their windows stay as they are. -/
def supersede (scope : Option UUID × String × RuleType) (r : ComplianceRule) : ComplianceRule :=
  if r.scope = scope ∧ r.status = .active then { r with status := .superseded } else r

/-- What an activation writes to its rule. -/
def ComplianceRule.activated (r : ComplianceRule) (effectiveAt : Option ℤ) (now : ℤ) :
    ComplianceRule :=
  { r with status := .active, activatedAt := some now, activationDelayUntil := effectiveAt }

/-- The two updates of an activation. -/
def RuleDb.activate (db : RuleDb) (scope : Option UUID × String × RuleType) (ruleId : UUID)
    (effectiveAt : Option ℤ) (now : ℤ) : RuleDb :=
  let superseded := db.rules.map (supersede scope)
  { db with rules := modify (·.id) ruleId (fun r => r.activated effectiveAt now) superseded }

/-- `activateRule`, at the time of the call; the rule it returns is the one it reads back. -/
def activateRule (db : RuleDb) (tenantId ruleId : UUID) (effectiveAt : Option ℤ)
    (justificationNote : Option String) (now : ℤ) : Except RuleError (RuleDb × ComplianceRule) :=
  match db.findRule tenantId ruleId with
  | none => .error (.complianceRuleNotFound ruleId)
  | some existing =>
    if existing.tenantId ≠ some tenantId then .error (.complianceRuleNotOwned ruleId)
    else if existing.status ≠ .pendingReview then
      .error (.complianceRuleNotPendingReview ruleId existing.status)
    else
      match db.latestPreview tenantId ruleId with
      | none => .error (.impactPreviewRequired ruleId)
      | some latestPreview =>
        if 0 < latestPreview.wouldBecomeNoncompliantCount ∧
            (justificationNote.all fun note => (jsTrim note.toList).isEmpty) then
          .error (.activationJustificationRequired ruleId)
        else
          let scope := (some tenantId, existing.jurisdiction, existing.ruleType)
          .ok (db.activate scope ruleId effectiveAt now, existing.activated effectiveAt now)

/-! ## Resolving -/

/-- `isoDate`: the date of an instant, in UTC. -/
def isoDate (instant : ℤ) : ℤ := instant / 86400000

namespace ComplianceRule

/-- The window of the rule covers the instant. -/
def covers (r : ComplianceRule) (asOf : ℤ) : Bool :=
  r.effectiveFrom ≤ isoDate asOf && r.effectiveTo.all (isoDate asOf ≤ ·)

/-- The rule was activated, its window covers the instant and the delay of its activation is
over. -/
def inForce (r : ComplianceRule) (asOf : ℤ) : Bool :=
  (r.status = .active || r.status = .superseded) && r.covers asOf &&
    r.activationDelayUntil.all (· ≤ asOf)

/-- `isMoreSpecific`: a rule of a tenant before a default, then the higher version. -/
def isMoreSpecific (candidate current : ComplianceRule) : Bool :=
  if candidate.tenantId.isSome ≠ current.tenantId.isSome then candidate.tenantId.isSome
  else current.version < candidate.version

end ComplianceRule

/-- `resolveEffectiveRules`. -/
def resolveEffectiveRules (rules : List ComplianceRule) (asOf : ℤ) : List ComplianceRule :=
  (rules.filter (·.inForce asOf)).foldl (keepBest (·.ruleType) ComplianceRule.isMoreSpecific) []

/-- The place of a type of rule in the order of their texts. -/
def RuleType.alphabetical : RuleType → ℕ
  | breakRequirement => 0
  | maxConsecutiveDays => 1
  | overtimeThreshold => 2
  | restPeriodMinimum => 3
  | unionRule => 4

/-- `listRules`: by type, the latest version first. -/
def listRules (db : RuleDb) (tenantId : UUID) (jurisdiction : String) : List ComplianceRule :=
  ((db.visible tenantId).filter fun r => r.jurisdiction = jurisdiction).insertionSort fun r q =>
    r.ruleType.alphabetical < q.ruleType.alphabetical ∨
      r.ruleType = q.ruleType ∧ q.version ≤ r.version

/-- `findEffectiveRules`, at the time of the call. -/
def findEffectiveRules (db : RuleDb) (tenantId : UUID) (jurisdiction : String) (now : ℤ) :
    List ComplianceRule :=
  resolveEffectiveRules (listRules db tenantId jurisdiction) now

/-- `getActiveRule`. -/
def getActiveRule (db : RuleDb) (tenantId : UUID) (jurisdiction : String) (ruleType : RuleType)
    (asOf : ℤ) : Option ComplianceRule :=
  (resolveEffectiveRules
    ((listRules db tenantId jurisdiction).filter fun r => r.ruleType = ruleType) asOf).head?

/-! ## Runs -/

/-- The calls that write. -/
inductive RuleAction
  | createRule (tenantId : UUID) (input : CreateComplianceRuleInput) (id : UUID) (now : ℤ)
  | generatePreview (tenantId ruleId : UUID) (affectedEmployees : ℕ) (now : ℤ)
  | activateRule (tenantId ruleId : UUID) (effectiveAt : Option ℤ)
      (justificationNote : Option String) (now : ℤ)

/-- A call that is accepted changes the tables; one that throws is rolled back. -/
def ruleStep (db : RuleDb) : RuleAction → Option RuleDb
  | .createRule tenantId input id now => (createRule db tenantId input id now).toOption.map (·.1)
  | .generatePreview tenantId ruleId affectedEmployees now =>
    (generatePreview db tenantId ruleId affectedEmployees now).toOption
  | .activateRule tenantId ruleId effectiveAt justificationNote now =>
    (activateRule db tenantId ruleId effectiveAt justificationNote now).toOption.map (·.1)

/-! ## What the constraints of the table keep -/

/-- The primary key and the unique indexes hold. -/
structure RuleDb.WellFormed (db : RuleDb) : Prop where
  ids : (db.rules.map (·.id)).Nodup
  versions : (db.rules.map (·.versionKey)).Nodup

theorem supersede_eq (scope : Option UUID × String × RuleType) (r : ComplianceRule) :
    supersede scope r = r ∨
      r.status = .active ∧ supersede scope r = { r with status := .superseded } := by
  unfold supersede
  split
  · rename_i h
    exact .inr ⟨h.2, rfl⟩
  · exact .inl rfl

@[simp] theorem supersede_id (scope : Option UUID × String × RuleType) (r : ComplianceRule) :
    (supersede scope r).id = r.id := by
  obtain h | ⟨-, h⟩ := supersede_eq scope r <;> rw [h]

@[simp] theorem supersede_scope (scope : Option UUID × String × RuleType) (r : ComplianceRule) :
    (supersede scope r).scope = r.scope := by
  obtain h | ⟨-, h⟩ := supersede_eq scope r
  · rw [h]
  · rw [h]
    rfl

@[simp] theorem supersede_version (scope : Option UUID × String × RuleType) (r : ComplianceRule) :
    (supersede scope r).version = r.version := by
  obtain h | ⟨-, h⟩ := supersede_eq scope r <;> rw [h]

@[simp] theorem supersede_inForce (scope : Option UUID × String × RuleType) (r : ComplianceRule)
    (asOf : ℤ) : (supersede scope r).inForce asOf = r.inForce asOf := by
  obtain h | ⟨hactive, h⟩ := supersede_eq scope r
  · rw [h]
  · rw [h]
    simp [ComplianceRule.inForce, ComplianceRule.covers, hactive]

variable {db db' : RuleDb} {r : ComplianceRule}

theorem insertRule_ok (h : db.insertRule r = .ok db') :
    db' = { db with rules := db.rules ++ [r] } ∧
      ∀ q ∈ db.rules, q.id ≠ r.id ∧ q.versionKey ≠ r.versionKey := by
  unfold RuleDb.insertRule at h
  split at h
  · cases h
  · rename_i hfree
    refine ⟨(Except.ok.inj h).symm, fun q hq => ?_⟩
    simp only [List.any_eq_true, not_exists, not_and] at hfree
    simpa using hfree q hq

theorem createRule_ok {tenantId id : UUID} {input : CreateComplianceRuleInput} {now : ℤ}
    (h : createRule db tenantId input id now = .ok (db', r)) :
    db.insertRule r = .ok db' ∧ r.scope = (some tenantId, input.jurisdiction, input.ruleType) ∧
      r.status = .pendingReview := by
  simp only [createRule, bind, Except.bind, pure, Except.pure, throw, throwThe,
    MonadExceptOf.throw] at h
  split at h
  · cases h
  split at h
  · cases h
  cases hversion : nextVersion db tenantId input.jurisdiction input.ruleType with
  | error e => simp [hversion] at h
  | ok version =>
    simp only [hversion] at h
    split at h
    · cases h
    · rename_i db'' hinsert
      cases h
      exact ⟨hinsert, rfl, rfl⟩

theorem generatePreview_ok {tenantId ruleId : UUID} {affectedEmployees : ℕ} {now : ℤ}
    (h : generatePreview db tenantId ruleId affectedEmployees now = .ok db') :
    db'.rules = db.rules := by
  simp only [generatePreview, bind, Except.bind, pure, Except.pure] at h
  split at h
  · cases h
  · cases h
    rfl

/-- An accepted `activateRule` finds a rule of the tenant that is pending review. -/
theorem activateRule_ok {tenantId ruleId : UUID} {effectiveAt : Option ℤ}
    {justificationNote : Option String} {now : ℤ}
    (h : activateRule db tenantId ruleId effectiveAt justificationNote now = .ok (db', r)) :
    ∃ existing ∈ db.rules, existing.id = ruleId ∧ existing.tenantId = some tenantId ∧
      existing.status = .pendingReview ∧ r = existing.activated effectiveAt now ∧
      db' = db.activate existing.scope ruleId effectiveAt now := by
  unfold activateRule at h
  split at h
  · cases h
  rename_i existing hfind
  obtain ⟨hvisible, hid⟩ := mem_of_lookup hfind
  split at h
  · cases h
  rename_i howned
  split at h
  · cases h
  rename_i hpending
  split at h
  · cases h
  split at h
  · cases h
  have htenant : existing.tenantId = some tenantId := not_not.1 howned
  cases h
  refine ⟨existing, (List.mem_filter.1 hvisible).1, hid, htenant, not_not.1 hpending, rfl, ?_⟩
  rw [ComplianceRule.scope, htenant]

namespace RuleDb.WellFormed

variable {db : RuleDb}

theorem map_activate {β : Type} {key : ComplianceRule → β} {scope : Option UUID × String × RuleType}
    {effectiveAt : Option ℤ} {now : ℤ} (hsupersede : ∀ r, key (supersede scope r) = key r)
    (hactivated : ∀ r, key (r.activated effectiveAt now) = key r) (ruleId : UUID) :
    (db.activate scope ruleId effectiveAt now).rules.map key = db.rules.map key := by
  rw [RuleDb.activate, map_modify hactivated, List.map_map]
  exact List.map_congr_left fun r _ => hsupersede r

theorem activate (hdb : db.WellFormed) (scope : Option UUID × String × RuleType) (ruleId : UUID)
    (effectiveAt : Option ℤ) (now : ℤ) : (db.activate scope ruleId effectiveAt now).WellFormed := by
  constructor
  · rw [map_activate (supersede_id scope) fun r => rfl]
    exact hdb.ids
  · have hversion (r : ComplianceRule) : (supersede scope r).versionKey = r.versionKey := by
      rw [ComplianceRule.versionKey, supersede_scope, supersede_version, ComplianceRule.versionKey]
    rw [map_activate hversion fun r => rfl]
    exact hdb.versions

theorem insertRule (hdb : db.WellFormed) {db' : RuleDb} {r : ComplianceRule}
    (h : db.insertRule r = .ok db') : db'.WellFormed := by
  obtain ⟨rfl, hfree⟩ := insertRule_ok h
  exact ⟨nodup_append_singleton hdb.ids fun q hq => (hfree q hq).1,
    nodup_append_singleton hdb.versions fun q hq => (hfree q hq).2⟩

theorem step (hdb : db.WellFormed) {action : RuleAction} {db' : RuleDb}
    (h : ruleStep db action = some db') : db'.WellFormed := by
  cases action with
  | createRule tenantId input id now =>
    obtain ⟨⟨db'', r⟩, hcreate, rfl⟩ := toOption_map_eq_some h
    exact hdb.insertRule (createRule_ok hcreate).1
  | generatePreview tenantId ruleId affectedEmployees now =>
    have hrules := generatePreview_ok (toOption_eq_some h)
    exact ⟨hrules ▸ hdb.ids, hrules ▸ hdb.versions⟩
  | activateRule tenantId ruleId effectiveAt justificationNote now =>
    obtain ⟨⟨db'', r⟩, hactivate, rfl⟩ := toOption_map_eq_some h
    obtain ⟨existing, -, -, -, -, -, rfl⟩ := activateRule_ok hactivate
    exact hdb.activate existing.scope ruleId effectiveAt now

end RuleDb.WellFormed

/-! ## The rule that is resolved -/

theorem isMoreSpecific_asymm (a b : ComplianceRule) (h : a.isMoreSpecific b = true) :
    b.isMoreSpecific a = false := by
  unfold ComplianceRule.isMoreSpecific at h ⊢
  cases ha : a.tenantId.isSome <;> cases hb : b.tenantId.isSome <;> simp [ha, hb] at h ⊢ <;> omega

theorem not_isMoreSpecific_trans (a b c : ComplianceRule) (hab : a.isMoreSpecific b = false)
    (hbc : b.isMoreSpecific c = false) : a.isMoreSpecific c = false := by
  unfold ComplianceRule.isMoreSpecific at hab hbc ⊢
  cases ha : a.tenantId.isSome <;> cases hb : b.tenantId.isSome <;>
    cases hc : c.tenantId.isSome <;> simp [ha, hb, hc] at hab hbc ⊢ <;> omega

/-- The rules that `getActiveRule` chooses from. -/
structure Candidate (db : RuleDb) (tenantId : UUID) (jurisdiction : String) (ruleType : RuleType)
    (asOf : ℤ) (r : ComplianceRule) : Prop where
  mem : r ∈ db.rules
  visible : r.tenantId = some tenantId ∨ r.tenantId = none
  jurisdiction : r.jurisdiction = jurisdiction
  ruleType : r.ruleType = ruleType
  inForce : r.inForce asOf = true

section Resolution

variable {db : RuleDb} {tenantId : UUID} {jurisdiction : String} {ruleType : RuleType} {asOf : ℤ}
  {r q : ComplianceRule}

theorem mem_filter_listRules : r ∈ ((listRules db tenantId jurisdiction).filter fun r =>
    r.ruleType = ruleType).filter (·.inForce asOf) ↔
      Candidate db tenantId jurisdiction ruleType asOf r := by
  simp only [List.mem_filter, listRules, List.mem_insertionSort, RuleDb.visible, decide_eq_true_eq]
  constructor
  · rintro ⟨⟨⟨⟨hmem, hvisible⟩, hj⟩, ht⟩, hforce⟩
    exact ⟨hmem, hvisible, hj, ht, hforce⟩
  · rintro ⟨hmem, hvisible, hj, ht, hforce⟩
    exact ⟨⟨⟨⟨hmem, hvisible⟩, hj⟩, ht⟩, hforce⟩

theorem head?_resolveEffectiveRules {rules : List ComplianceRule}
    (h : ∀ r ∈ rules, r.ruleType = ruleType) :
    (resolveEffectiveRules rules asOf).head? =
      (rules.filter (·.inForce asOf)).foldl (pickBest ComplianceRule.isMoreSpecific) none := by
  have hkey : ∀ r ∈ rules.filter (·.inForce asOf), r.ruleType = ruleType :=
    fun r hr => h r (List.mem_filter.1 hr).1
  have hhead : (resolveEffectiveRules rules asOf).head? =
      lookup (·.ruleType) ruleType (resolveEffectiveRules rules asOf) := by
    cases hresolved : resolveEffectiveRules rules asOf with
    | nil => rfl
    | cons r rest =>
      have hr : r ∈ resolveEffectiveRules rules asOf := hresolved ▸ List.mem_cons_self
      have hr' := (mem_of_mem_foldl_keepBest hr).resolve_right List.not_mem_nil
      simp [lookup, hkey r hr']
  have hall : (rules.filter (·.inForce asOf)).filter (fun r => r.ruleType = ruleType) =
      rules.filter (·.inForce asOf) :=
    List.filter_eq_self.2 fun r hr => by simpa using hkey r hr
  rw [hhead, resolveEffectiveRules, lookup_foldl_keepBest, hall]
  rfl

/-- The candidates that the tenant owns are those of its scope. -/
theorem candidate_of_scope (hmem : r ∈ db.rules)
    (hscope : r.scope = (some tenantId, jurisdiction, ruleType)) (hforce : r.inForce asOf = true) :
    Candidate db tenantId jurisdiction ruleType asOf r := by
  obtain ⟨htenant, hj, ht⟩ : r.tenantId = some tenantId ∧ r.jurisdiction = jurisdiction ∧
      r.ruleType = ruleType := by simpa [ComplianceRule.scope] using hscope
  exact ⟨hmem, .inl htenant, hj, ht, hforce⟩

theorem Candidate.scope_eq (h : Candidate db tenantId jurisdiction ruleType asOf r)
    (hsome : r.tenantId.isSome = true) : r.scope = (some tenantId, jurisdiction, ruleType) := by
  have htenant : r.tenantId = some tenantId := by
    refine h.visible.resolve_right fun hnone => ?_
    rw [hnone] at hsome
    cases hsome
  rw [ComplianceRule.scope, htenant, h.jurisdiction, h.ruleType]

/-- Of two candidates, neither more specific than the other, there is one. -/
theorem Candidate.eq_of_not_isMoreSpecific (hdb : db.WellFormed)
    (hr : Candidate db tenantId jurisdiction ruleType asOf r)
    (hq : Candidate db tenantId jurisdiction ruleType asOf q) (hrq : r.isMoreSpecific q = false)
    (hqr : q.isMoreSpecific r = false) : r = q := by
  unfold ComplianceRule.isMoreSpecific at hrq hqr
  have htenant : r.tenantId = q.tenantId ∧ r.version = q.version := by
    rcases hr.visible with ht | ht <;> rcases hq.visible with ht' | ht' <;>
      simp [ht, ht'] at hrq hqr ⊢ <;> omega
  refine eq_of_key_eq hdb.versions hr.mem hq.mem ?_
  simp only [ComplianceRule.versionKey, ComplianceRule.scope, htenant.1, htenant.2,
    hr.jurisdiction, hq.jurisdiction, hr.ruleType, hq.ruleType]

/-- **Resolution**: the rule that is resolved is the candidate that no other is more specific
than. -/
theorem getActiveRule_eq_some_iff (hdb : db.WellFormed) :
    getActiveRule db tenantId jurisdiction ruleType asOf = some r ↔
      Candidate db tenantId jurisdiction ruleType asOf r ∧
        ∀ q, Candidate db tenantId jurisdiction ruleType asOf q → q.isMoreSpecific r = false := by
  rw [getActiveRule, head?_resolveEffectiveRules fun r hr => by
    simpa using (List.mem_filter.1 hr).2]
  cases hcandidates : ((listRules db tenantId jurisdiction).filter fun r =>
      r.ruleType = ruleType).filter (·.inForce asOf) with
  | nil =>
    refine iff_of_false (by simp) ?_
    rintro ⟨hr, -⟩
    rw [← mem_filter_listRules, hcandidates] at hr
    cases hr
  | cons c rest =>
    obtain ⟨best, hbest, hmem, hc, hrest⟩ := foldl_pickBest isMoreSpecific_asymm
      not_isMoreSpecific_trans rest c
    have hmem' : Candidate db tenantId jurisdiction ruleType asOf best := by
      rw [← mem_filter_listRules, hcandidates, List.mem_cons]
      exact hmem
    have hmax : ∀ q, Candidate db tenantId jurisdiction ruleType asOf q →
        q.isMoreSpecific best = false := by
      intro q hq
      rw [← mem_filter_listRules, hcandidates] at hq
      rcases List.mem_cons.1 hq with rfl | hq
      · exact hc
      · exact hrest q hq
    rw [List.foldl_cons, pickBest, hbest, Option.some_inj]
    constructor
    · rintro rfl
      exact ⟨hmem', hmax⟩
    · rintro ⟨hr, hrmax⟩
      exact hmem'.eq_of_not_isMoreSpecific hdb hr (hrmax best hmem') (hmax r hr)

/-- **The rules together and each alone**: the list of the rules in effect has the rule that is
resolved for each type alone, and nothing else. -/
theorem mem_findEffectiveRules_iff : r ∈ findEffectiveRules db tenantId jurisdiction asOf ↔
    getActiveRule db tenantId jurisdiction r.ruleType asOf = some r := by
  have hactive : getActiveRule db tenantId jurisdiction r.ruleType asOf =
      lookup (·.ruleType) r.ruleType (findEffectiveRules db tenantId jurisdiction asOf) := by
    rw [getActiveRule, head?_resolveEffectiveRules fun q hq =>
      of_decide_eq_true (List.mem_filter.1 hq).2, findEffectiveRules, resolveEffectiveRules,
      lookup_foldl_keepBest, List.filter_filter, List.filter_filter]
    simp only [Bool.and_comm]
    rfl
  rw [hactive]
  exact ⟨lookup_eq_some (nodup_foldl_keepBest List.nodup_nil), fun h => (mem_of_lookup h).1⟩

end Resolution

/-! ## Whether an activation takes effect -/

/-- The activation, if it is accepted and sets no time in the future, takes effect: from then on the
rule is resolved at every instant of its window. -/
def TakesEffect (db : RuleDb) : RuleAction → Prop
  | .activateRule tenantId ruleId effectiveAt justificationNote now =>
    ∀ db' r, activateRule db tenantId ruleId effectiveAt justificationNote now = .ok (db', r) →
      (∀ time ∈ effectiveAt, time ≤ now) → ∀ asOf, now ≤ asOf → r.covers asOf = true →
        getActiveRule db' tenantId r.jurisdiction r.ruleType asOf = some r
  | _ => True

/-- Before the activation, no rule of the same scope with a higher version is in force at an
instant of the window of the rule, from the activation on. -/
def NoHigherInForce (db : RuleDb) : RuleAction → Prop
  | .activateRule _ ruleId effectiveAt _ now =>
    (∀ time ∈ effectiveAt, time ≤ now) → ∀ r ∈ db.rules, r.id = ruleId →
      ∀ asOf, now ≤ asOf → r.covers asOf = true →
        ∀ q ∈ db.rules, q.scope = r.scope → q.inForce asOf = true → q.version ≤ r.version
  | _ => True

section Activation

variable {db : RuleDb} {tenantId ruleId : UUID} {effectiveAt : Option ℤ} {now asOf : ℤ}
  {existing q : ComplianceRule}

theorem mem_activate (hdb : db.WellFormed) (hmem : existing ∈ db.rules)
    (hpending : existing.status = .pendingReview) {scope : Option UUID × String × RuleType} :
    q ∈ (db.activate scope existing.id effectiveAt now).rules ↔
      q = existing.activated effectiveAt now ∨
        ∃ q₀ ∈ db.rules, q₀.id ≠ existing.id ∧ q = supersede scope q₀ := by
  have hkeep : supersede scope existing = existing := by
    unfold supersede
    rw [if_neg]
    rintro ⟨-, hactive⟩
    rw [hpending] at hactive
    cases hactive
  simp only [RuleDb.activate, mem_modify, List.mem_map]
  constructor
  · rintro (⟨_, ⟨q₀, hq₀, rfl⟩, hid, rfl⟩ | ⟨⟨q₀, hq₀, rfl⟩, hid⟩)
    · rw [supersede_id] at hid
      obtain rfl := eq_of_key_eq hdb.ids hq₀ hmem hid
      rw [hkeep]
      exact .inl rfl
    · rw [supersede_id] at hid
      exact .inr ⟨q₀, hq₀, hid, rfl⟩
  · rintro (rfl | ⟨q₀, hq₀, hid, rfl⟩)
    · exact .inl ⟨existing, ⟨existing, hmem, hkeep⟩, rfl, rfl⟩
    · exact .inr ⟨⟨q₀, hq₀, rfl⟩, by rwa [supersede_id]⟩

theorem activated_inForce (hdelay : ∀ time ∈ effectiveAt, time ≤ asOf)
    (hcovers : existing.covers asOf = true) :
    (existing.activated effectiveAt now).inForce asOf = true := by
  have hover : effectiveAt.all (· ≤ asOf) = true := by
    cases effectiveAt with
    | none => rfl
    | some time => simpa using hdelay time rfl
  have hcovers' : (existing.activated effectiveAt now).covers asOf = true := hcovers
  rw [ComplianceRule.inForce, hcovers', Bool.and_true, Bool.and_eq_true]
  exact ⟨rfl, hover⟩

/-- **One activation**: once its delay is over, the rule is resolved unless a rule of the scope with
a higher version is in force. -/
theorem getActiveRule_activate_iff (hdb : db.WellFormed) (hmem : existing ∈ db.rules)
    (htenant : existing.tenantId = some tenantId) (hpending : existing.status = .pendingReview)
    (hdelay : ∀ time ∈ effectiveAt, time ≤ asOf) (hcovers : existing.covers asOf = true) :
    getActiveRule (db.activate existing.scope existing.id effectiveAt now) tenantId
        existing.jurisdiction existing.ruleType asOf = some (existing.activated effectiveAt now) ↔
      ∀ q ∈ db.rules, q.scope = existing.scope → q.inForce asOf = true →
        q.version ≤ existing.version := by
  have hscope : existing.scope = (some tenantId, existing.jurisdiction, existing.ruleType) := by
    rw [ComplianceRule.scope, htenant]
  have hspecific (q : ComplianceRule) : q.isMoreSpecific (existing.activated effectiveAt now) =
      (q.tenantId.isSome && decide (existing.version < q.version)) := by
    cases hq : q.tenantId <;>
      simp [ComplianceRule.isMoreSpecific, ComplianceRule.activated, htenant, hq]
  rw [getActiveRule_eq_some_iff (hdb.activate existing.scope existing.id effectiveAt now)]
  constructor
  · rintro ⟨-, hmax⟩ q hq hqscope hforce
    -- A rule that is in force is not the pending one, so it stays in the table, in force.
    have hne : q.id ≠ existing.id := by
      intro hid
      obtain rfl := eq_of_key_eq hdb.ids hq hmem hid
      simp [ComplianceRule.inForce, hpending] at hforce
    have hq' := hmax (supersede existing.scope q) <| candidate_of_scope
      ((mem_activate hdb hmem hpending).2 (.inr ⟨q, hq, hne, rfl⟩))
      (by rw [supersede_scope, hqscope, hscope]) (by rw [supersede_inForce, hforce])
    have hsome : (supersede existing.scope q).tenantId.isSome = true := by
      have htenant' := congrArg Prod.fst ((supersede_scope existing.scope q).trans hqscope)
      rw [show (supersede existing.scope q).tenantId = some tenantId from htenant'.trans htenant]
      rfl
    rw [hspecific, hsome, Bool.true_and, decide_eq_false_iff_not, supersede_version, not_lt] at hq'
    exact hq'
  · intro hle
    refine ⟨candidate_of_scope ((mem_activate hdb hmem hpending).2 (.inl rfl)) hscope
      (activated_inForce hdelay hcovers), fun q hq => ?_⟩
    rw [hspecific, Bool.and_eq_false_imp, decide_eq_false_iff_not, not_lt]
    intro hsome
    rcases (mem_activate hdb hmem hpending).1 hq.mem with rfl | ⟨q₀, hq₀, -, rfl⟩
    · exact le_rfl
    · have hq₀scope := hq.scope_eq hsome
      have hforce := hq.inForce
      rw [supersede_scope, ← hscope] at hq₀scope
      rw [supersede_inForce] at hforce
      rw [supersede_version]
      exact hle q₀ hq₀ hq₀scope hforce

end Activation

/-- **Activations and resolution**: in an accepted run every activation takes effect exactly when
none of them leaves a higher version of its scope in force. -/
theorem activations_take_effect_iff {db db' : RuleDb} {actions : List RuleAction}
    (hdb : db.WellFormed) (hrun : exec ruleStep db actions = some db') :
    Runs.Meets ruleStep TakesEffect db actions ↔
      Runs.Meets ruleStep NoHigherInForce db actions := by
  refine meets_congr (fun s a t hs _ => hs.step) (fun s a t hs hstep => ?_) hdb hrun
  cases a with
  | createRule tenantId input id now => exact Iff.rfl
  | generatePreview tenantId ruleId affectedEmployees now => exact Iff.rfl
  | activateRule tenantId ruleId effectiveAt justificationNote now =>
    obtain ⟨⟨t, r⟩, hactivate, -⟩ := toOption_map_eq_some hstep
    obtain ⟨existing, hmem, rfl, htenant, hpending, rfl, rfl⟩ := activateRule_ok hactivate
    constructor
    · intro heffect hdelay r hr hid asOf hasOf hcovers
      obtain rfl := eq_of_key_eq hs.ids hr hmem hid
      have hover : ∀ time ∈ effectiveAt, time ≤ asOf := fun time h => (hdelay time h).trans hasOf
      exact (getActiveRule_activate_iff hs hmem htenant hpending hover hcovers).1
        (heffect _ _ hactivate hdelay asOf hasOf hcovers)
    · intro hhigher t' r' hactivate' hdelay asOf hasOf hcovers
      obtain ⟨rfl, rfl⟩ := Prod.mk.inj (Except.ok.inj (hactivate.symm.trans hactivate'))
      have hover : ∀ time ∈ effectiveAt, time ≤ asOf := fun time h => (hdelay time h).trans hasOf
      exact (getActiveRule_activate_iff hs hmem htenant hpending hover hcovers).2
        (hhigher hdelay existing hmem rfl asOf hasOf hcovers)

theorem status_of_inForce {asOf : ℤ} (h : r.inForce asOf = true) :
    r.status = .active ∨ r.status = .superseded := by
  simp only [ComplianceRule.inForce, Bool.and_eq_true, Bool.or_eq_true, decide_eq_true_eq] at h
  exact h.1.1

/-- The activation is of the highest version that its scope has seen activated. -/
def ActivatesInOrder (db : RuleDb) : RuleAction → Prop
  | .activateRule _ ruleId _ _ _ => ∀ r ∈ db.rules, r.id = ruleId → ∀ q ∈ db.rules,
      q.scope = r.scope → q.status = .active ∨ q.status = .superseded → q.version ≤ r.version
  | _ => True

instance (db : RuleDb) : DecidablePred (ActivatesInOrder db) := fun action => by
  cases action <;> unfold ActivatesInOrder <;> infer_instance

theorem ActivatesInOrder.noHigherInForce {db : RuleDb} {action : RuleAction}
    (h : ActivatesInOrder db action) : NoHigherInForce db action := by
  cases action with
  | createRule tenantId input id now => trivial
  | generatePreview tenantId ruleId affectedEmployees now => trivial
  | activateRule tenantId ruleId effectiveAt justificationNote now =>
    intro _ r hr hid asOf _ _ q hq hscope hforce
    exact h r hr hid q hq hscope (status_of_inForce hforce)

/-- Two versions of a rule, valid from 2026-01-01 on, and activations of both. -/
def twoVersions (first second : UUID) : List RuleAction :=
  let input : CreateComplianceRuleInput :=
    { jurisdiction := "US-CA", ruleType := .restPeriodMinimum, definition := .obj []
      effectiveFrom := 20454, effectiveTo := none, citation := "Cal. Labor Code 226.7" }
  [.createRule 7 input 1 1767225600000, .createRule 7 input 2 1767225600000,
    .generatePreview 7 1 0 1767225600000, .generatePreview 7 2 0 1767225600000,
    .activateRule 7 first none none 1767312000000, .activateRule 7 second none none 1767312000000]

theorem twoVersions_in_order : (exec ruleStep ⟨[], []⟩ (twoVersions 1 2)).isSome ∧
    Runs.Meets ruleStep TakesEffect ⟨[], []⟩ (twoVersions 1 2) := by
  have haccepted : (exec ruleStep ⟨[], []⟩ (twoVersions 1 2)).isSome := by decide +kernel
  have horder : Runs.Meets ruleStep ActivatesInOrder ⟨[], []⟩ (twoVersions 1 2) := by
    decide +kernel
  have hempty : RuleDb.WellFormed ⟨[], []⟩ := ⟨List.nodup_nil, List.nodup_nil⟩
  obtain ⟨db, hrun⟩ := Option.isSome_iff_exists.1 haccepted
  refine ⟨haccepted, (activations_take_effect_iff hempty hrun).2 ?_⟩
  intro before action db hbefore hexec
  exact (horder before action db hbefore hexec).noHigherInForce

/-- The second version is activated before the first, which then does not take effect: the second
one is still resolved. -/
theorem twoVersions_out_of_order : (exec ruleStep ⟨[], []⟩ (twoVersions 2 1)).isSome ∧
    ¬ Runs.Meets ruleStep TakesEffect ⟨[], []⟩ (twoVersions 2 1) := by
  refine ⟨by decide +kernel, fun h => ?_⟩
  have hlast : ((exec ruleStep ⟨[], []⟩ ((twoVersions 2 1).take 5)).any fun db =>
      (activateRule db 7 1 none none 1767312000000).toOption.any fun (db', r) =>
        r.covers 1767312000000 && (getActiveRule db' 7 r.jurisdiction r.ruleType 1767312000000).any
          fun q => q.version = 2 && r.version = 1) = true := by decide +kernel
  obtain ⟨db, hexec, hlast⟩ := (Option.any_eq_true _ _).1 hlast
  obtain ⟨⟨db', r⟩, hactivate, hlast⟩ := (Option.any_eq_true _ _).1 hlast
  simp only [Bool.and_eq_true, Option.any_eq_true, decide_eq_true_eq] at hlast
  obtain ⟨hcovers, q, hq, hsecond, hfirst⟩ := hlast
  have heffect := h _ (.activateRule 7 1 none none 1767312000000) db List.prefix_rfl hexec db' r
    (toOption_eq_some hactivate) (by simp) 1767312000000 le_rfl hcovers
  obtain rfl := Option.some.inj (heffect.symm.trans hq)
  omega

end Workforce.Compliance
