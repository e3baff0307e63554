import Workforce.Scheduling.Relaxation

/-!
# The compliance floor of a policy

The legal floor of a jurisdiction bounds the employment policy that a schedule is solved with.
`app/services/solve_input_resolver.py` merges it into the policy of a submitted job, field by field
with the stricter value winning; a policy also reaches the solver by a re-optimization, by the
approval of a relaxation, and reaches the eligibility check from core.

* `meetsFloor_mergeFloors_iff`: when the merged policy is at least as strict as the floor.
* `usedPolicy_meetsFloor_iff`: the same for every path by which a policy is used.
-/

namespace Workforce.Compliance

open Scheduling

/-! ## Reading numbers -/

/-- The number that `isinstance(value, int | float)` lets through; a `bool` is an `int`. -/
def pyNumber : Json → Option ℚ
  | .num q => some q
  | .bool b => some (if b then 1 else 0)
  | _ => none

/-- `int(x)`: towards zero. -/
def pyInt (q : ℚ) : ℤ := if 0 ≤ q then ⌊q⌋ else ⌈q⌉

/-- A definition as a service answers it: whether there is one, and what its text parses to. -/
structure DefinitionResponse where
  found : Bool
  definitionJson : Option Json

/-- The dictionary of a definition, if there is one and its text is that of a dictionary. -/
def DefinitionResponse.parsed (response : DefinitionResponse) : Option Json :=
  if response.found then
    match response.definitionJson with
    | some (.obj fields) => some (.obj fields)
    | _ => none
  else none

/-- `{}`, where there is no dictionary. -/
def DefinitionResponse.definition (response : DefinitionResponse) : Json :=
  response.parsed.getD (.obj [])

/-! ## The policy that is stored in core -/

/-- The types of rules and of policies. -/
inductive RuleType
  | overtimeThreshold | restPeriodMinimum | maxConsecutiveDays | breakRequirement | unionRule
  deriving DecidableEq

/-- `_field_or_default`. -/
def fieldOrDefault (definition : Json) (field : String) (default : ℚ) : ℚ :=
  (pyNumber (definition.get field)).getD default

/-- `_optional_int_field`. -/
def optionalIntField (definition : Json) (field : String) : Option ℤ :=
  (pyNumber (definition.get field)).map pyInt

/-- `_optional_float_field`. -/
def optionalFloatField (definition : Json) (field : String) : Option ℚ :=
  pyNumber (definition.get field)

/-- `get_active_employment_policy`, from what `GetActivePolicy` answers for each type. -/
def getActiveEmploymentPolicy (activePolicy : RuleType → DefinitionResponse) : EmploymentPolicy :=
  let unionRuleDefinition := (activePolicy .unionRule).definition
  { maxConsecutiveWorkingDays := pyInt (fieldOrDefault (activePolicy .maxConsecutiveDays).definition
      "maxConsecutiveWorkingDays" 6)
    minRestHoursBetweenShifts := fieldOrDefault (activePolicy .restPeriodMinimum).definition
      "minRestHoursBetweenShifts" 8
    minShiftLengthMinutes := pyInt (fieldOrDefault unionRuleDefinition "minShiftLengthMinutes" 0)
    maxShiftLengthMinutes := optionalIntField unionRuleDefinition "maxShiftLengthMinutes"
    mandatoryBreakAfterHours := optionalFloatField unionRuleDefinition "mandatoryBreakAfterHours"
    mandatoryBreakMinutes := optionalIntField unionRuleDefinition "mandatoryBreakMinutes" }

/-! ## The merge -/

/-- Which values of a field protect more. -/
inductive FieldDirection
  | lowerIsStricter | higherIsStricter

namespace FieldDirection

/-- The stricter of two values. -/
def stricterOf : FieldDirection → ℚ → ℚ → ℚ
  | lowerIsStricter => min
  | higherIsStricter => max

/-- A value is at least as strict as that of the floor. -/
def AtLeastAsStrict : FieldDirection → ℚ → ℚ → Prop
  | lowerIsStricter, value, floorValue => value ≤ floorValue
  | higherIsStricter, value, floorValue => floorValue ≤ value

instance (d : FieldDirection) (value floorValue : ℚ) :
    Decidable (d.AtLeastAsStrict value floorValue) := by
  cases d <;> unfold AtLeastAsStrict <;> infer_instance

end FieldDirection

/-- The value of a policy made as strict as the floor. -/
def stricter (d : FieldDirection) (policyValue : Option ℚ) (floorValue : Json) : Option ℚ :=
  match pyNumber floorValue, policyValue with
  | none, _ => policyValue
  | some floorNumber, none => some floorNumber
  | some floorNumber, some value => some (d.stricterOf value floorNumber)

/-- `_stricter_lower`. -/
def stricterLower := stricter .lowerIsStricter

/-- `_stricter_higher`. -/
def stricterHigher := stricter .higherIsStricter

/-- The floor of a jurisdiction: the dictionaries of the rules that are merged. -/
structure Floor where
  rest : Json
  maxDays : Json
  union : Json

/-- The part of `_merge_compliance_floor` that follows its calls. -/
def mergeFloors (policy : EmploymentPolicy) (floor : Floor) : EmploymentPolicy :=
  let minRest := stricterHigher (some policy.minRestHoursBetweenShifts)
    (floor.rest.get "minRestHoursBetweenShifts")
  let maxDays := stricterLower (some policy.maxConsecutiveWorkingDays)
    (floor.maxDays.get "maxConsecutiveWorkingDays")
  let minShift := stricterHigher (some policy.minShiftLengthMinutes)
    (floor.union.get "minShiftLengthMinutes")
  let maxShift := stricterLower (policy.maxShiftLengthMinutes.map fun (n : ℤ) => (n : ℚ))
    (floor.union.get "maxShiftLengthMinutes")
  let breakAfter := stricterLower policy.mandatoryBreakAfterHours
    (floor.union.get "mandatoryBreakAfterHours")
  let breakMinutes := stricterHigher (policy.mandatoryBreakMinutes.map fun (n : ℤ) => (n : ℚ))
    (floor.union.get "mandatoryBreakMinutes")
  { maxConsecutiveWorkingDays := (maxDays.map pyInt).getD policy.maxConsecutiveWorkingDays
    minRestHoursBetweenShifts := minRest.getD policy.minRestHoursBetweenShifts
    minShiftLengthMinutes := (minShift.map pyInt).getD policy.minShiftLengthMinutes
    maxShiftLengthMinutes := maxShift.map pyInt
    mandatoryBreakAfterHours := breakAfter
    mandatoryBreakMinutes := breakMinutes.map pyInt }

/-- What the other services answer for the unit and the date of a request. A call that fails ends
the job without a solve. -/
structure Upstream where
  countryCode : Option String
  activeRule : String → RuleType → DefinitionResponse
  activePolicy : RuleType → DefinitionResponse

/-- The floor in force: none, where no jurisdiction is known. -/
def Upstream.floor (up : Upstream) : Floor :=
  let rule (ruleType : RuleType) : Json :=
    (up.countryCode.map fun code => (up.activeRule code ruleType).definition).getD (.obj [])
  ⟨rule .restPeriodMinimum, rule .maxConsecutiveDays, rule .unionRule⟩

/-- `_merge_compliance_floor`. -/
def mergeComplianceFloor (up : Upstream) (policy : EmploymentPolicy) : EmploymentPolicy :=
  match up.countryCode with
  | none => policy
  | some code => mergeFloors policy ⟨(up.activeRule code .restPeriodMinimum).definition,
      (up.activeRule code .maxConsecutiveDays).definition,
      (up.activeRule code .unionRule).definition⟩

/-- The policy of a submission before the merge: the requested one, or the one stored in core. -/
def basePolicy (up : Upstream) (requested : Option EmploymentPolicy) : EmploymentPolicy :=
  requested.getD (getActiveEmploymentPolicy up.activePolicy)

/-- `_resolve_policy`. -/
def resolvePolicy (up : Upstream) (requested : Option EmploymentPolicy) : EmploymentPolicy :=
  mergeComplianceFloor up (basePolicy up requested)

/-! ## When a policy meets the floor -/

/-- A value is at least as strict as the floor's, where the floor has a number. -/
def Meets (d : FieldDirection) (value : Option ℚ) (floorValue : Json) : Prop :=
  ∀ floorNumber, pyNumber floorValue = some floorNumber →
    ∃ v, value = some v ∧ d.AtLeastAsStrict v floorNumber

/-- Field by field, the policy is at least as strict as the floor. -/
structure MeetsFloor (policy : EmploymentPolicy) (floor : Floor) : Prop where
  minRest : Meets .higherIsStricter (some policy.minRestHoursBetweenShifts)
    (floor.rest.get "minRestHoursBetweenShifts")
  maxDays : Meets .lowerIsStricter (some policy.maxConsecutiveWorkingDays)
    (floor.maxDays.get "maxConsecutiveWorkingDays")
  minShift : Meets .higherIsStricter (some policy.minShiftLengthMinutes)
    (floor.union.get "minShiftLengthMinutes")
  maxShift : Meets .lowerIsStricter (policy.maxShiftLengthMinutes.map fun (n : ℤ) => (n : ℚ))
    (floor.union.get "maxShiftLengthMinutes")
  breakAfter : Meets .lowerIsStricter policy.mandatoryBreakAfterHours
    (floor.union.get "mandatoryBreakAfterHours")
  breakMinutes : Meets .higherIsStricter (policy.mandatoryBreakMinutes.map fun (n : ℤ) => (n : ℚ))
    (floor.union.get "mandatoryBreakMinutes")

/-- `int` does not lose the floor of a field: the policy is at least as strict by itself, or cutting
the floor's number towards zero does not make it less strict. -/
def Kept (d : FieldDirection) (policyValue : Option ℤ) (floorValue : Json) : Prop :=
  ∀ floorNumber, pyNumber floorValue = some floorNumber →
    (∃ n : ℤ, policyValue = some n ∧ d.AtLeastAsStrict n floorNumber) ∨
      d.AtLeastAsStrict 0 floorNumber ∨ floorNumber.den = 1

/-- `int` does not lose the floor of any of the fields that are whole numbers. -/
structure FloorKept (policy : EmploymentPolicy) (floor : Floor) : Prop where
  maxDays : Kept .lowerIsStricter (some policy.maxConsecutiveWorkingDays)
    (floor.maxDays.get "maxConsecutiveWorkingDays")
  minShift : Kept .higherIsStricter (some policy.minShiftLengthMinutes)
    (floor.union.get "minShiftLengthMinutes")
  maxShift : Kept .lowerIsStricter policy.maxShiftLengthMinutes
    (floor.union.get "maxShiftLengthMinutes")
  breakMinutes : Kept .higherIsStricter policy.mandatoryBreakMinutes
    (floor.union.get "mandatoryBreakMinutes")

theorem pyInt_intCast (n : ℤ) : pyInt n = n := by
  unfold pyInt
  split <;> simp

theorem cast_ceil_le_iff {q : ℚ} : (⌈q⌉ : ℚ) ≤ q ↔ q.den = 1 := by
  constructor
  · intro h
    rw [le_antisymm (Int.le_ceil q) h]
    exact Rat.den_intCast _
  · intro h
    rw [← Rat.coe_int_num_of_den_eq_one h, Int.ceil_intCast]

theorem le_cast_floor_iff {q : ℚ} : q ≤ (⌊q⌋ : ℚ) ↔ q.den = 1 := by
  constructor
  · intro h
    rw [le_antisymm h (Int.floor_le q)]
    exact Rat.den_intCast _
  · intro h
    rw [← Rat.coe_int_num_of_den_eq_one h, Int.floor_intCast]

variable {d : FieldDirection}

/-- Cutting a number towards zero keeps it as strict when zero is, or when there is nothing to
cut. -/
theorem atLeastAsStrict_pyInt {q : ℚ} :
    d.AtLeastAsStrict (pyInt q) q ↔ d.AtLeastAsStrict 0 q ∨ q.den = 1 := by
  unfold pyInt
  cases d with
  | lowerIsStricter =>
    simp only [FieldDirection.AtLeastAsStrict]
    by_cases hq : 0 ≤ q
    · simp [hq, Int.floor_le]
    · simp [hq, cast_ceil_le_iff]
  | higherIsStricter =>
    simp only [FieldDirection.AtLeastAsStrict]
    by_cases hq : 0 ≤ q
    · rw [if_pos hq, le_cast_floor_iff]
      constructor
      · exact .inr
      · rintro (hle | hden)
        · rw [le_antisymm hle hq]
          rfl
        · exact hden
    · rw [if_neg hq]
      exact iff_of_true (Int.le_ceil q) (.inl (not_le.1 hq).le)

theorem stricterOf_eq_left {v f : ℚ} (h : d.AtLeastAsStrict v f) :
    d.stricterOf v f = v := by
  cases d with
  | lowerIsStricter => exact min_eq_left h
  | higherIsStricter => exact max_eq_left h

theorem stricterOf_eq_right {v f : ℚ} (h : ¬ d.AtLeastAsStrict v f) :
    d.stricterOf v f = f := by
  cases d with
  | lowerIsStricter => exact min_eq_right (not_le.1 h).le
  | higherIsStricter => exact max_eq_right (not_le.1 h).le

theorem FieldDirection.atLeastAsStrict_self (d : FieldDirection) (f : ℚ) :
    d.AtLeastAsStrict f f := by
  cases d <;> exact le_refl f

theorem meets_stricter (d : FieldDirection) (value : Option ℚ) (floorValue : Json) :
    Meets d (stricter d value floorValue) floorValue := by
  intro f hf
  cases value with
  | none => exact ⟨f, by simp [stricter, hf], d.atLeastAsStrict_self f⟩
  | some v =>
    refine ⟨d.stricterOf v f, by simp [stricter, hf], ?_⟩
    by_cases h : d.AtLeastAsStrict v f
    · rwa [stricterOf_eq_left h]
    · rw [stricterOf_eq_right h]
      exact d.atLeastAsStrict_self f

/-- The merged value of a whole number meets the floor exactly when `int` does not lose it. -/
theorem meets_map_pyInt_iff {value : Option ℤ} {floorValue : Json} :
    Meets d ((stricter d (value.map fun (n : ℤ) => (n : ℚ)) floorValue).map
      fun q => (pyInt q : ℚ)) floorValue ↔ Kept d value floorValue := by
  refine forall₂_congr fun f hf => ?_
  rw [← atLeastAsStrict_pyInt]
  cases value with
  | none => simp [stricter, hf]
  | some n =>
    simp only [stricter, hf, Option.map_some, Option.some.injEq, exists_eq_left']
    by_cases h : d.AtLeastAsStrict n f
    · simp [stricterOf_eq_left h, pyInt_intCast, h]
    · simp [stricterOf_eq_right h, h]

theorem exists_stricter_some (d : FieldDirection) (v : ℚ) (floorValue : Json) :
    ∃ q, stricter d (some v) floorValue = some q := by
  unfold stricter
  split
  · exact ⟨v, rfl⟩
  · exact ⟨_, rfl⟩
  · exact ⟨_, rfl⟩

theorem some_getD_stricter (d : FieldDirection) (v : ℚ) (floorValue : Json) :
    some ((stricter d (some v) floorValue).getD v) = stricter d (some v) floorValue := by
  obtain ⟨q, hq⟩ := exists_stricter_some d v floorValue
  rw [hq, Option.getD_some]

theorem some_getD_map_pyInt (d : FieldDirection) (n : ℤ) (floorValue : Json) :
    some ((((stricter d (some n) floorValue).map pyInt).getD n : ℤ) : ℚ) =
      (stricter d (some n) floorValue).map fun q => (pyInt q : ℚ) := by
  obtain ⟨q, hq⟩ := exists_stricter_some d n floorValue
  rw [hq, Option.map_some, Option.getD_some, Option.map_some]

/-- The merged policy meets the floor exactly when `int` does not lose it. -/
theorem meetsFloor_mergeFloors_iff {policy : EmploymentPolicy} {floor : Floor} :
    MeetsFloor (mergeFloors policy floor) floor ↔ FloorKept policy floor := by
  have hdays := @meets_map_pyInt_iff .lowerIsStricter (some policy.maxConsecutiveWorkingDays)
    (floor.maxDays.get "maxConsecutiveWorkingDays")
  have hmin := @meets_map_pyInt_iff .higherIsStricter (some policy.minShiftLengthMinutes)
    (floor.union.get "minShiftLengthMinutes")
  have hmax := @meets_map_pyInt_iff .lowerIsStricter policy.maxShiftLengthMinutes
    (floor.union.get "maxShiftLengthMinutes")
  have hbreak := @meets_map_pyInt_iff .higherIsStricter policy.mandatoryBreakMinutes
    (floor.union.get "mandatoryBreakMinutes")
  rw [Option.map_some, ← some_getD_map_pyInt] at hdays hmin
  rw [← Function.comp_def (fun n : ℤ => (n : ℚ)) pyInt, ← Option.map_map] at hmax hbreak
  constructor
  · intro h
    exact ⟨hdays.1 h.maxDays, hmin.1 h.minShift, hmax.1 h.maxShift, hbreak.1 h.breakMinutes⟩
  · intro h
    refine ⟨?_, hdays.2 h.maxDays, hmin.2 h.minShift, hmax.2 h.maxShift, meets_stricter _ _ _,
      hbreak.2 h.breakMinutes⟩
    show Meets _ (some ((stricter _ _ _).getD _)) _
    rw [some_getD_stricter]
    exact meets_stricter _ _ _

/-! ## The paths of a policy -/

/-- How a policy reaches the solver or the eligibility check. -/
inductive PolicyPath
  /-- A submitted job, with the policy of its request. -/
  | submit (requested : Option EmploymentPolicy)
  /-- A re-optimization, with the policy of its request. -/
  | reoptimize (requested : EmploymentPolicy)
  /-- The approval of a relaxation, on the stored input of an earlier job. -/
  | approval (report : RelaxationReport) (stored : SolveInput)
  /-- The eligibility check of a claim or a swap. -/
  | eligibility

/-- The policy that is used. -/
def usedPolicy (up : Upstream) : PolicyPath → Except Json.Error EmploymentPolicy
  | .submit requested => .ok (resolvePolicy up requested)
  | .reoptimize requested => .ok requested
  | .approval report stored => do
    let relaxedInput ← approvedInput report (serialize stored)
    return relaxedInput.policy
  | .eligibility => .ok (getActiveEmploymentPolicy up.activePolicy)

/-- On a submission `int` does not lose the floor; on every other path the policy that is supplied
or stored meets the floor by itself. -/
def FloorRespected (up : Upstream) : PolicyPath → Prop
  | .submit requested => FloorKept (basePolicy up requested) up.floor
  | .reoptimize requested => MeetsFloor requested up.floor
  | .approval _ stored => MeetsFloor stored.policy up.floor
  | .eligibility => MeetsFloor (getActiveEmploymentPolicy up.activePolicy) up.floor

/-- Without a known jurisdiction there is no floor to meet. -/
theorem meetsFloor_empty (policy : EmploymentPolicy) :
    MeetsFloor policy ⟨.obj [], .obj [], .obj []⟩ ∧
      FloorKept policy ⟨.obj [], .obj [], .obj []⟩ := by
  refine ⟨⟨?_, ?_, ?_, ?_, ?_, ?_⟩, ⟨?_, ?_, ?_, ?_⟩⟩ <;>
    · intro f hf
      cases hf

theorem resolvePolicy_meetsFloor_iff (up : Upstream) (requested : Option EmploymentPolicy) :
    MeetsFloor (resolvePolicy up requested) up.floor ↔
      FloorKept (basePolicy up requested) up.floor := by
  unfold resolvePolicy mergeComplianceFloor Upstream.floor
  cases up.countryCode with
  | none => exact iff_of_true (meetsFloor_empty _).1 (meetsFloor_empty _).2
  | some code => exact meetsFloor_mergeFloors_iff

/-- **When the compliance floor applies.** For every path by which a policy is used, and whatever
the floor, the request and the policy stored in core are: the policy that is used is at least as
strict as the floor if and only if the path respects the floor. -/
theorem usedPolicy_meetsFloor_iff {up : Upstream} {path : PolicyPath}
    (hstored : ∀ report stored, path = .approval report stored → stored.Representable) :
    ∃ policy, usedPolicy up path = .ok policy ∧
      (MeetsFloor policy up.floor ↔ FloorRespected up path) := by
  cases path with
  | submit requested => exact ⟨_, rfl, resolvePolicy_meetsFloor_iff up requested⟩
  | reoptimize requested => exact ⟨_, rfl, Iff.rfl⟩
  | approval report stored =>
    refine ⟨stored.policy, ?_, Iff.rfl⟩
    simp only [usedPolicy, approvedInput_serialize (hstored report stored rfl), bind, Except.bind,
      pure, Except.pure]
    rfl
  | eligibility => exact ⟨_, rfl, Iff.rfl⟩

/-- A jurisdiction that requires 11 hours of rest, at most 6 days in a row and shifts of 4 hours or
more, and a tenant without policies of its own. -/
def elevenHours : Upstream where
  countryCode := some "DE"
  activeRule := fun _ ruleType => match ruleType with
    | .restPeriodMinimum => ⟨true, some (.obj [("minRestHoursBetweenShifts", .num 11)])⟩
    | .maxConsecutiveDays => ⟨true, some (.obj [("maxConsecutiveWorkingDays", .num 6)])⟩
    | .unionRule => ⟨true, some (.obj [("minShiftLengthMinutes", .num 240)])⟩
    | _ => ⟨false, none⟩
  activePolicy := fun _ => ⟨false, none⟩

/-- The approval of a job that was stored with 11 hours of rest. -/
theorem elevenHours_approval : ∃ policy,
    usedPolicy elevenHours (.approval ⟨[.contractedHours], true, false⟩ (siteInput none)) =
      .ok policy ∧ MeetsFloor policy elevenHours.floor := by
  obtain ⟨policy, hused, hiff⟩ := @usedPolicy_meetsFloor_iff elevenHours
    (.approval ⟨[.contractedHours], true, false⟩ (siteInput none))
    (by rintro _ _ ⟨⟩; exact siteInput_representable none)
  refine ⟨policy, hused, hiff.2 ⟨?_, ?_, ?_, ?_, ?_, ?_⟩⟩
  · rintro _ ⟨⟩
    exact ⟨11, rfl, by decide +kernel⟩
  · rintro _ ⟨⟩
    exact ⟨5, rfl, by decide +kernel⟩
  · rintro _ ⟨⟩
    exact ⟨240, rfl, by decide +kernel⟩
  · rintro _ ⟨⟩
  · rintro _ ⟨⟩
  · rintro _ ⟨⟩

/-- A re-optimization that asks for no rest gets none, and an eligibility check without a policy in
core asks for 8 hours of it. -/
theorem elevenHours_not_applied :
    (∃ policy, usedPolicy elevenHours (.reoptimize ⟨6, 0, 60, none, none, none⟩) = .ok policy ∧
      ¬ MeetsFloor policy elevenHours.floor) ∧
    ∃ policy, usedPolicy elevenHours .eligibility = .ok policy ∧
      ¬ MeetsFloor policy elevenHours.floor := by
  refine ⟨⟨_, rfl, fun h => ?_⟩, _, rfl, fun h => ?_⟩
  · obtain ⟨v, hv, hle⟩ := h.minRest 11 rfl
    cases hv
    exact absurd hle (by decide +kernel)
  · obtain ⟨v, hv, hle⟩ := h.minRest 11 rfl
    cases hv
    exact absurd hle (by decide +kernel)

end Workforce.Compliance
