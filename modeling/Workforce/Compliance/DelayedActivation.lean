import Workforce.Compliance.Rules

/-!
# Delayed activations

`activateRule` with an `effectiveAt` in the future supersedes the other active rules of the scope at
once and activates its rule at once; the resolution looks at the delay. Before `effectiveAt` every
tenant resolves the rules it resolved before the activation (`resolveEffectiveRules_activate`), and
from then on the rule that was activated is resolved, within its window.

* `HiddenUntil`: what an activation shows, and when.
* `delayed_activations`: it does so in every run that activates versions in increasing order.
-/

namespace Workforce.Compliance

open Scheduling Tables Runs List

/-- A rule, whether it is active or superseded. -/
def ComplianceRule.content (r : ComplianceRule) : ComplianceRule := { r with status := .active }

/-- An activation with a delay shows nothing before its time, and from then on its rule, at the
instants at which `shown` has it in effect. -/
def HiddenUntil (shown : ComplianceRule → ℤ → Bool) (db : RuleDb) : RuleAction → Prop
  | .activateRule tenantId ruleId (some effectiveAt) justificationNote now =>
    ∀ db' r, activateRule db tenantId ruleId (some effectiveAt) justificationNote now
        = .ok (db', r) → now < effectiveAt →
      (∀ asOf, asOf < effectiveAt → ∀ viewer jurisdiction ruleType,
        (getActiveRule db' viewer jurisdiction ruleType asOf).map ComplianceRule.content =
          (getActiveRule db viewer jurisdiction ruleType asOf).map ComplianceRule.content) ∧
      ∀ asOf, effectiveAt ≤ asOf → shown r asOf = true →
        getActiveRule db' tenantId r.jurisdiction r.ruleType asOf = some r
  | _ => True

/-- The rule has not ended. -/
def ComplianceRule.notEnded (r : ComplianceRule) (asOf : ℤ) : Bool :=
  r.effectiveTo.all (isoDate asOf ≤ ·)

/-! ## Before the delay is over -/

/-- What changes neither the rank of a rule nor, for the rules of a table, whether it is in force,
changes no choice. -/
theorem resolveEffectiveRules_map {f : ComplianceRule → ComplianceRule}
    {rules : List ComplianceRule} {asOf : ℤ} (htype : ∀ r, (f r).ruleType = r.ruleType)
    (htenant : ∀ r, (f r).tenantId = r.tenantId)
    (hversion : ∀ r, (f r).version = r.version)
    (hforce : ∀ r ∈ rules, (f r).inForce asOf = r.inForce asOf) :
    resolveEffectiveRules (rules.map f) asOf = (resolveEffectiveRules rules asOf).map f := by
  have hrank : ∀ a b : ComplianceRule, (f a).isMoreSpecific (f b) = a.isMoreSpecific b := by
    intro a b
    simp only [ComplianceRule.isMoreSpecific, htenant, hversion]
  have hfilter : (rules.map f).filter (·.inForce asOf) = (rules.filter (·.inForce asOf)).map f := by
    rw [filter_map]
    exact congrArg (map f) (filter_congr hforce)
  rw [resolveEffectiveRules, hfilter, ← map_nil (f := f), foldl_keepBest_map htype hrank]
  rfl

/-- What an activation makes of a row. -/
def activation (scope : Option UUID × String × RuleType) (ruleId : UUID) (effectiveAt : Option ℤ)
    (now : ℤ) (r : ComplianceRule) : ComplianceRule :=
  if r.id = ruleId then (supersede scope r).activated effectiveAt now else supersede scope r

section Activation

variable {db : RuleDb} {scope : Option UUID × String × RuleType} {ruleId : UUID}
  {effectiveAt : Option ℤ} {now asOf : ℤ} {existing r : ComplianceRule}

theorem activate_rules : (db.activate scope ruleId effectiveAt now).rules =
    db.rules.map (activation scope ruleId effectiveAt now) := by
  rw [RuleDb.activate, Tables.modify, map_map]
  refine map_congr_left fun r _ => ?_
  simp only [Function.comp_apply, supersede_id, activation]

/-- An activation changes the status of a row and when it was activated. -/
theorem activation_eq (scope : Option UUID × String × RuleType) (ruleId : UUID)
    (effectiveAt : Option ℤ) (now : ℤ) (r : ComplianceRule) :
    ∃ status activatedAt activationDelayUntil, activation scope ruleId effectiveAt now r =
      { r with
        status := status
        activatedAt := activatedAt
        activationDelayUntil := activationDelayUntil } := by
  have hsupersede : ∃ status, supersede scope r = { r with status := status } := by
    obtain h | ⟨-, h⟩ := supersede_eq scope r
    · exact ⟨r.status, h⟩
    · exact ⟨.superseded, h⟩
  obtain ⟨status, h⟩ := hsupersede
  unfold activation
  split
  · rw [h]
    exact ⟨.active, some now, effectiveAt, rfl⟩
  · rw [h]
    exact ⟨status, r.activatedAt, r.activationDelayUntil, rfl⟩

theorem activation_keeps (scope : Option UUID × String × RuleType) (ruleId : UUID)
    (effectiveAt : Option ℤ) (now : ℤ) (r : ComplianceRule) :
    (activation scope ruleId effectiveAt now r).tenantId = r.tenantId ∧
      (activation scope ruleId effectiveAt now r).jurisdiction = r.jurisdiction ∧
      (activation scope ruleId effectiveAt now r).ruleType = r.ruleType ∧
      (activation scope ruleId effectiveAt now r).version = r.version := by
  obtain ⟨status, activatedAt, delay, h⟩ := activation_eq scope ruleId effectiveAt now r
  rw [h]
  exact ⟨rfl, rfl, rfl, rfl⟩

theorem activation_of_ne (hne : r.id ≠ ruleId) :
    (activation scope ruleId effectiveAt now r).content = r.content := by
  rw [activation, if_neg hne]
  obtain h | ⟨-, h⟩ := supersede_eq scope r <;> rw [h]
  rfl

/-- The rule is not in force before its activation, nor until the delay is over. -/
theorem activation_inForce (hdb : db.WellFormed) (hmem : existing ∈ db.rules)
    (hpending : existing.status = .pendingReview) {time : ℤ} (hasOf : asOf < time)
    (hr : r ∈ db.rules) :
    (activation scope existing.id (some time) now r).inForce asOf = r.inForce asOf := by
  unfold activation
  split
  · rename_i hid
    obtain rfl := eq_of_key_eq hdb.ids hr hmem hid
    have hbefore : r.inForce asOf = false := by simp [ComplianceRule.inForce, hpending]
    have hdelayed : ((supersede scope r).activated (some time) now).inForce asOf = false := by
      simp [ComplianceRule.inForce, ComplianceRule.activated, not_le.2 hasOf]
    rw [hbefore, hdelayed]
  · exact supersede_inForce scope r asOf

theorem listRules_activate (tenantId : UUID) (jurisdiction : String) :
    listRules (db.activate scope ruleId effectiveAt now) tenantId jurisdiction =
      (listRules db tenantId jurisdiction).map (activation scope ruleId effectiveAt now) := by
  let order (r q : ComplianceRule) : Prop := r.ruleType.alphabetical < q.ruleType.alphabetical ∨
    r.ruleType = q.ruleType ∧ q.version ≤ r.version
  have horder : ∀ a b : ComplianceRule, order a b ↔
      order (activation scope ruleId effectiveAt now a)
        (activation scope ruleId effectiveAt now b) := by
    intro a b
    obtain ⟨-, -, hta, hva⟩ := activation_keeps scope ruleId effectiveAt now a
    obtain ⟨-, -, htb, hvb⟩ := activation_keeps scope ruleId effectiveAt now b
    simp only [order, hta, hva, htb, hvb]
  unfold listRules RuleDb.visible
  rw [activate_rules, filter_map, filter_map]
  refine Eq.trans ?_ (map_insertionSort order order _ _ fun a _ b _ => horder a b).symm
  simp only [Function.comp_def, (activation_keeps _ _ _ _ _).1, (activation_keeps _ _ _ _ _).2.1]
  rfl

/-- **Before its time** an activation changes no resolution. -/
theorem resolveEffectiveRules_activate (hdb : db.WellFormed) (hmem : existing ∈ db.rules)
    (hpending : existing.status = .pendingReview) {time : ℤ} (hasOf : asOf < time)
    {rules : List ComplianceRule} (hrules : ∀ r ∈ rules, r ∈ db.rules) :
    (resolveEffectiveRules (rules.map (activation scope existing.id (some time) now)) asOf).map
        ComplianceRule.content =
      (resolveEffectiveRules rules asOf).map ComplianceRule.content := by
  rw [resolveEffectiveRules_map (fun r => (activation_keeps scope _ _ _ r).2.2.1)
    (fun r => (activation_keeps scope _ _ _ r).1) (fun r => (activation_keeps scope _ _ _ r).2.2.2)
    (fun r hr => activation_inForce hdb hmem hpending hasOf (hrules r hr)), map_map]
  refine map_congr_left fun r hr => activation_of_ne ?_
  -- What is resolved was in force, and the rule to be activated was not.
  have hr' := (mem_of_mem_foldl_keepBest hr).resolve_right not_mem_nil
  obtain ⟨hr', hforce⟩ := mem_filter.1 hr'
  intro hid
  obtain rfl := eq_of_key_eq hdb.ids (hrules r hr') hmem hid
  simp [ComplianceRule.inForce, hpending] at hforce

theorem mem_of_mem_listRules {tenantId : UUID} {jurisdiction : String}
    (h : r ∈ listRules db tenantId jurisdiction) : r ∈ db.rules := by
  simp only [listRules, mem_insertionSort, RuleDb.visible, mem_filter] at h
  exact h.1.1

theorem getActiveRule_activate_before (hdb : db.WellFormed) (hmem : existing ∈ db.rules)
    (hpending : existing.status = .pendingReview) {time : ℤ} (hasOf : asOf < time)
    (tenantId : UUID) (jurisdiction : String) (ruleType : RuleType) :
    (getActiveRule (db.activate scope existing.id (some time) now) tenantId jurisdiction ruleType
        asOf).map ComplianceRule.content =
      (getActiveRule db tenantId jurisdiction ruleType asOf).map ComplianceRule.content := by
  have hrules : ∀ r ∈ (listRules db tenantId jurisdiction).filter fun r => r.ruleType = ruleType,
      r ∈ db.rules := fun r hr => mem_of_mem_listRules (mem_filter.1 hr).1
  rw [getActiveRule, listRules_activate, filter_map, ← head?_map]
  simp only [Function.comp_def, (activation_keeps _ _ _ _ _).2.2.1]
  rw [resolveEffectiveRules_activate hdb hmem hpending hasOf hrules, head?_map, getActiveRule]

end Activation

/-! ## Every run -/

/-- An activation of the highest version shows its rule within its window. -/
theorem ActivatesInOrder.hiddenUntil {db : RuleDb} {action : RuleAction} (hdb : db.WellFormed)
    (h : ActivatesInOrder db action) : HiddenUntil ComplianceRule.covers db action := by
  rcases action with _ | _ | ⟨tenantId, ruleId, _ | effectiveAt, justificationNote, now⟩
  · trivial
  · trivial
  · trivial
  · intro db' r hactivate hlater
    obtain ⟨existing, hmem, rfl, htenant, hpending, rfl, rfl⟩ := activateRule_ok hactivate
    refine ⟨fun asOf hasOf viewer jurisdiction ruleType =>
      getActiveRule_activate_before hdb hmem hpending hasOf viewer jurisdiction ruleType,
      fun asOf hasOf hcovers => ?_⟩
    have hdelay : ∀ time ∈ some effectiveAt, time ≤ asOf := by simpa using hasOf
    refine (getActiveRule_activate_iff hdb hmem htenant hpending hdelay hcovers).2 ?_
    intro q hq hscope hforce
    exact h existing hmem rfl q hq hscope (status_of_inForce hforce)

/-- **Delayed activations**: in a run that activates versions in increasing order, nothing of an
activation is seen before its time, and from then on its rule is resolved within its window. -/
theorem delayed_activations {db db' : RuleDb} {actions : List RuleAction} (hdb : db.WellFormed)
    (hrun : exec ruleStep db actions = some db')
    (horder : Runs.Meets ruleStep ActivatesInOrder db actions) :
    Runs.Meets ruleStep (HiddenUntil ComplianceRule.covers) db actions :=
  meets_of_invariant (fun _ _ hs h => h.hiddenUntil hs) (fun _ _ _ hs _ => hs.step) hdb horder hrun

/-- Two versions, valid from 2026-01-01 and from `effectiveFrom` on; the second is activated on
2026-01-02 with a delay until 2026-02-01. -/
def delayedVersion (effectiveFrom : ℤ) : List RuleAction :=
  let input : CreateComplianceRuleInput :=
    { jurisdiction := "US-CA", ruleType := .restPeriodMinimum, definition := .obj []
      effectiveFrom := 20454, effectiveTo := none, citation := "Cal. Labor Code 226.7" }
  [.createRule 7 input 1 1767225600000,
    .createRule 7 { input with effectiveFrom } 2 1767225600000,
    .generatePreview 7 1 0 1767225600000, .generatePreview 7 2 0 1767225600000,
    .activateRule 7 1 none none 1767225600000,
    .activateRule 7 2 (some 1769904000000) none 1767312000000]

theorem delayedVersion_in_order : (exec ruleStep ⟨[], []⟩ (delayedVersion 20454)).isSome ∧
    Runs.Meets ruleStep (HiddenUntil ComplianceRule.covers) ⟨[], []⟩ (delayedVersion 20454) := by
  have haccepted : (exec ruleStep ⟨[], []⟩ (delayedVersion 20454)).isSome := by decide +kernel
  have horder : Runs.Meets ruleStep ActivatesInOrder ⟨[], []⟩ (delayedVersion 20454) := by
    decide +kernel
  obtain ⟨db, hrun⟩ := Option.isSome_iff_exists.1 haccepted
  exact ⟨haccepted, delayed_activations ⟨nodup_nil, nodup_nil⟩ hrun horder⟩

/-- The second version starts a month after its delay is over; in between the first one is still
resolved. -/
theorem delayedVersion_starts_later : (exec ruleStep ⟨[], []⟩ (delayedVersion 20513)).isSome ∧
    Runs.Meets ruleStep ActivatesInOrder ⟨[], []⟩ (delayedVersion 20513) ∧
    ¬ Runs.Meets ruleStep (HiddenUntil ComplianceRule.notEnded) ⟨[], []⟩
      (delayedVersion 20513) := by
  refine ⟨by decide +kernel, by decide +kernel, fun h => ?_⟩
  have hlast : ((exec ruleStep ⟨[], []⟩ ((delayedVersion 20513).take 5)).any fun db =>
      (activateRule db 7 2 (some 1769904000000) none 1767312000000).toOption.any fun (db', r) =>
        r.notEnded 1769904000000 && (getActiveRule db' 7 r.jurisdiction r.ruleType
          1769904000000).any fun q => q.version = 1 && r.version = 2) = true := by decide +kernel
  obtain ⟨db, hexec, hlast⟩ := (Option.any_eq_true _ _).1 hlast
  obtain ⟨⟨db', r⟩, hactivate, hlast⟩ := (Option.any_eq_true _ _).1 hlast
  simp only [Bool.and_eq_true, Option.any_eq_true, decide_eq_true_eq] at hlast
  obtain ⟨hopen, q, hq, hfirst, hsecond⟩ := hlast
  have hshown := (h _ (.activateRule 7 2 (some 1769904000000) none 1767312000000) db
    prefix_rfl hexec db' r (toOption_eq_some hactivate) (by decide)).2 1769904000000 le_rfl
    hopen
  obtain rfl := Option.some.inj (hq.symm.trans hshown)
  omega

end Workforce.Compliance
