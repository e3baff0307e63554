import Workforce.Compliance.Floor

/-!
# The check of a policy against the floor

`validate-policy-against-floor.ts`: the service that owns the rules compares a policy with a floor
field by field. It reads numbers with JavaScript's `Number`, where the merge of the scheduling
service takes only values that are numbers. `merged_policy_accepted` says when a merged policy
passes.
-/

namespace Workforce.Compliance

open Scheduling List

/-! ## Numbers of JavaScript -/

/-- A number of JavaScript, with its finite values exact. -/
inductive JsNumber
  | nan
  | infinity (negative : Bool)
  | finite (q : ℚ)
  deriving DecidableEq

/-- `a <= b`. -/
def JsNumber.le : JsNumber → JsNumber → Bool
  | nan, _ => false
  | _, nan => false
  | infinity true, _ => true
  | _, infinity false => true
  | finite p, finite q => p ≤ q
  | _, _ => false

/-- White space and line terminators, which `Number` drops at both ends of a text. -/
def jsWhitespace (c : Char) : Bool :=
  c.toNat ∈ [0x09, 0x0a, 0x0b, 0x0c, 0x0d, 0x20, 0xa0, 0x1680, 0x2000, 0x2001, 0x2002, 0x2003,
    0x2004, 0x2005, 0x2006, 0x2007, 0x2008, 0x2009, 0x200a, 0x2028, 0x2029, 0x202f, 0x205f, 0x3000,
    0xfeff]

/-- The value of a digit of the base. -/
def digitIn (base : ℕ) (c : Char) : Option ℕ := (FixedWidth.digitValue c).filter (· < base)

/-- The number that the digits at the front make, how many they are, and what follows them. -/
def takeDigits (base value count : ℕ) : List Char → ℕ × ℕ × List Char
  | [] => (value, count, [])
  | c :: cs =>
    match digitIn base c with
    | some d => takeDigits base (value * base + d) (count + 1) cs
    | none => (value, count, c :: cs)

/-- A text of digits only. -/
def wholeNumber (base : ℕ) (cs : List Char) : Option ℕ :=
  match takeDigits base 0 0 cs with
  | (value, count, []) => if count = 0 then none else some value
  | _ => none

/-- What may follow the digits of a decimal number. -/
def exponentPart : List Char → Option ℤ
  | [] => some 0
  | e :: cs =>
    if e = 'e' ∨ e = 'E' then
      match cs with
      | '-' :: ds => (wholeNumber 10 ds).map fun n => -(n : ℤ)
      | '+' :: ds => (wholeNumber 10 ds).map fun n => (n : ℤ)
      | ds => (wholeNumber 10 ds).map fun n => (n : ℤ)
    else none

/-- A decimal number without a sign. -/
def unsignedDecimal (cs : List Char) : Option ℚ :=
  let (whole, wholeCount, rest) := takeDigits 10 0 0 cs
  let (fraction, fractionCount, rest) :=
    match rest with
    | '.' :: ds => takeDigits 10 0 0 ds
    | ds => (0, 0, ds)
  if wholeCount + fractionCount = 0 then none
  else (exponentPart rest).map fun exponent =>
    (whole + (fraction : ℚ) / 10 ^ fractionCount) * 10 ^ exponent

/-- A decimal number or infinity. -/
def decimalNumber (negative : Bool) (cs : List Char) : JsNumber :=
  if cs = "Infinity".toList then .infinity negative
  else
    match unsignedDecimal cs with
    | some q => .finite (if negative then -q else q)
    | none => .nan

/-- A whole number with a prefix for its base. -/
def prefixedNumber (base : ℕ) (cs : List Char) : JsNumber :=
  match wholeNumber base cs with
  | some n => .finite n
  | none => .nan

/-- `text.trim()`. -/
def jsTrim (text : List Char) : List Char :=
  ((text.dropWhile jsWhitespace).reverse.dropWhile jsWhitespace).reverse

/-- `Number(text)`. -/
def jsStringNumber (text : String) : JsNumber :=
  match jsTrim text.toList with
  | [] => .finite 0
  | '0' :: 'x' :: cs => prefixedNumber 16 cs
  | '0' :: 'X' :: cs => prefixedNumber 16 cs
  | '0' :: 'o' :: cs => prefixedNumber 8 cs
  | '0' :: 'O' :: cs => prefixedNumber 8 cs
  | '0' :: 'b' :: cs => prefixedNumber 2 cs
  | '0' :: 'B' :: cs => prefixedNumber 2 cs
  | '-' :: cs => decimalNumber true cs
  | '+' :: cs => decimalNumber false cs
  | cs => decimalNumber false cs

/-- The number that the text of a value in an array makes: `null` has an empty text there, and a
list of two or more has a comma in it. -/
def jsElementNumber : Json → JsNumber
  | .null => .finite 0
  | .bool _ => .nan
  | .num q => .finite q
  | .str s => jsStringNumber s
  | .arr [] => .finite 0
  | .arr [item] => jsElementNumber item
  | .arr _ => .nan
  | .obj _ => .nan

/-- `Number(value)`. -/
def jsNumber : Json → JsNumber
  | .null => .finite 0
  | .bool b => .finite (if b then 1 else 0)
  | .num q => .finite q
  | .str s => jsStringNumber s
  | .arr items => jsElementNumber (.arr items)
  | .obj _ => .nan

/-! ## The check -/

/-- `FIELD_DIRECTIONS`. -/
def fieldDirections : RuleType → List (String × FieldDirection)
  | .overtimeThreshold => [("dailyThresholdHours", .lowerIsStricter),
      ("weeklyThresholdHours", .lowerIsStricter), ("multiplier", .higherIsStricter)]
  | .restPeriodMinimum => [("minRestHoursBetweenShifts", .higherIsStricter)]
  | .maxConsecutiveDays => [("maxConsecutiveWorkingDays", .lowerIsStricter)]
  | .unionRule => [("minShiftLengthMinutes", .higherIsStricter),
      ("maxShiftLengthMinutes", .lowerIsStricter), ("mandatoryBreakAfterHours", .lowerIsStricter),
      ("mandatoryBreakMinutes", .higherIsStricter)]
  | .breakRequirement => []

/-- A violation, with the values its text shows. -/
inductive FloorViolation
  | missing (field : String)
  | notANumber (field : String)
  | lessProtective (field : String) (policyValue floorValue : JsNumber)

/-- `isAtLeastAsStrict`. -/
def isAtLeastAsStrict : FieldDirection → JsNumber → JsNumber → Bool
  | .lowerIsStricter, policyValue, floorValue => policyValue.le floorValue
  | .higherIsStricter, policyValue, floorValue => floorValue.le policyValue

/-- The body of the loop. A missing field and one that is `null` are treated alike. -/
def fieldViolation (policyDefinition floorDefinition : Json) :
    String × FieldDirection → Option FloorViolation
  | (field, direction) =>
    match floorDefinition.get field with
    | .null => none
    | floorEntry =>
      if jsNumber floorEntry = .nan then none
      else
        match policyDefinition.get field with
        | .null => some (.missing field)
        | policyEntry =>
          if jsNumber policyEntry = .nan then some (.notANumber field)
          else if isAtLeastAsStrict direction (jsNumber policyEntry) (jsNumber floorEntry) then none
          else some (.lessProtective field (jsNumber policyEntry) (jsNumber floorEntry))

/-- `validatePolicyAgainstFloor`: the violations, of which a valid policy has none. -/
def validatePolicyAgainstFloor (ruleType : RuleType) (policyDefinition floorDefinition : Json) :
    List FloorViolation :=
  (fieldDirections ruleType).filterMap (fieldViolation policyDefinition floorDefinition)

/-! ## Merged policies -/

/-- Both services read the value as a number, or the check reads none. -/
def ReadsAlike (value : Json) : Prop :=
  (∃ q, pyNumber value = some q) ∨ value = .null ∨ jsNumber value = .nan

theorem jsNumber_of_pyNumber {value : Json} {q : ℚ} (h : pyNumber value = some q) :
    jsNumber value = .finite q := by
  cases value with
  | num p => simpa [pyNumber, jsNumber] using h
  | bool b => simpa [pyNumber, jsNumber] using h
  | null => cases h
  | str s => cases h
  | arr items => cases h
  | obj fields => cases h

theorem isAtLeastAsStrict_finite {d : FieldDirection} {p q : ℚ} :
    isAtLeastAsStrict d (.finite p) (.finite q) = true ↔ d.AtLeastAsStrict p q := by
  cases d <;> simp [isAtLeastAsStrict, JsNumber.le, FieldDirection.AtLeastAsStrict]

theorem fieldViolation_eq_none {policyDefinition floorDefinition : Json} {field : String}
    {d : FieldDirection} {value : Option ℚ}
    (hentry : policyDefinition.get field = Json.ofOption .num value)
    (hmeets : Meets d value (floorDefinition.get field))
    (hread : ReadsAlike (floorDefinition.get field)) :
    fieldViolation policyDefinition floorDefinition (field, d) = none := by
  rcases hread with ⟨f, hf⟩ | hnull | hnan
  · obtain ⟨v, rfl, hstrict⟩ := hmeets f hf
    have hfloor := jsNumber_of_pyNumber hf
    have hpolicy : policyDefinition.get field = .num v := hentry
    have hok := isAtLeastAsStrict_finite.2 hstrict
    unfold fieldViolation
    dsimp only
    split
    · rfl
    · rw [hpolicy, hfloor]
      simp [jsNumber, hok]
  · simp [fieldViolation, hnull]
  · unfold fieldViolation
    dsimp only
    split
    · rfl
    · rw [if_pos hnan]

theorem ofOption_intCast (n : Option ℤ) :
    Json.ofOption (fun n => .num (n : ℤ)) n =
      Json.ofOption .num (n.map fun (n : ℤ) => (n : ℚ)) := by
  cases n <;> rfl

/-- The floor that is merged, of the rules of a jurisdiction. -/
def floorOf (rules : RuleType → Json) : Floor :=
  ⟨rules .restPeriodMinimum, rules .maxConsecutiveDays, rules .unionRule⟩

/-- A policy that meets the floor passes the check of every rule type that is merged. -/
theorem validate_of_meetsFloor {policy : EmploymentPolicy} {rules : RuleType → Json}
    (hmeets : MeetsFloor policy (floorOf rules)) {ruleType : RuleType}
    (htype : ruleType ≠ .overtimeThreshold)
    (hread : ∀ entry ∈ fieldDirections ruleType, ReadsAlike ((rules ruleType).get entry.1)) :
    validatePolicyAgainstFloor ruleType (serializePolicy policy) (rules ruleType) = [] := by
  refine filterMap_eq_nil_iff.2 fun entry hentry => ?_
  have hread := hread entry hentry
  cases ruleType with
  | overtimeThreshold => exact absurd rfl htype
  | breakRequirement => cases hentry
  | restPeriodMinimum =>
    obtain rfl := mem_singleton.1 hentry
    exact fieldViolation_eq_none rfl hmeets.minRest hread
  | maxConsecutiveDays =>
    obtain rfl := mem_singleton.1 hentry
    exact fieldViolation_eq_none rfl hmeets.maxDays hread
  | unionRule =>
    simp only [fieldDirections, mem_cons, not_mem_nil, or_false] at hentry
    rcases hentry with rfl | rfl | rfl | rfl
    · exact fieldViolation_eq_none rfl hmeets.minShift hread
    · exact fieldViolation_eq_none (ofOption_intCast _) hmeets.maxShift hread
    · exact fieldViolation_eq_none rfl hmeets.breakAfter hread
    · exact fieldViolation_eq_none (ofOption_intCast _) hmeets.breakMinutes hread

/-- **A merged policy passes the check of the floor it was merged with.** For every policy and the
rules of every jurisdiction, and for every rule type but the threshold of overtime, which no field
of a policy has to do with: where both services read the floor alike and `int` does not lose it,
the merged policy has no violations. -/
theorem merged_policy_accepted {policy : EmploymentPolicy} {rules : RuleType → Json}
    (hread : ∀ ruleType ≠ .overtimeThreshold, ∀ entry ∈ fieldDirections ruleType,
      ReadsAlike ((rules ruleType).get entry.1))
    (hkept : FloorKept policy (floorOf rules)) :
    ∀ ruleType ≠ .overtimeThreshold, validatePolicyAgainstFloor ruleType
      (serializePolicy (mergeFloors policy (floorOf rules))) (rules ruleType) = [] := by
  intro ruleType htype
  exact validate_of_meetsFloor (meetsFloor_mergeFloors_iff.2 hkept) htype (hread ruleType htype)

/-- The rules of `elevenHours`, with this entry for the least length of a shift, and a threshold of
overtime. -/
def exampleRules (minShiftLength : Json) : RuleType → Json
  | .restPeriodMinimum => .obj [("minRestHoursBetweenShifts", .num 11)]
  | .maxConsecutiveDays => .obj [("maxConsecutiveWorkingDays", .num 6)]
  | .unionRule => .obj [("minShiftLengthMinutes", minShiftLength)]
  | .overtimeThreshold => .obj [("weeklyThresholdHours", .num 40)]
  | .breakRequirement => .obj []

/-- A floor of 240 minutes is merged and checked alike. -/
theorem exampleRules_accepted :
    FloorKept ⟨7, 0, 60, none, none, none⟩ (floorOf (exampleRules (.num 240))) ∧
      ∀ ruleType ≠ .overtimeThreshold, validatePolicyAgainstFloor ruleType
        (serializePolicy (mergeFloors ⟨7, 0, 60, none, none, none⟩
          (floorOf (exampleRules (.num 240))))) (exampleRules (.num 240) ruleType) = [] := by
  have hkept : FloorKept ⟨7, 0, 60, none, none, none⟩ (floorOf (exampleRules (.num 240))) := by
    refine ⟨?_, ?_, ?_, ?_⟩
    · rintro _ ⟨⟩
      exact .inr (.inr rfl)
    · rintro _ ⟨⟩
      exact .inr (.inr rfl)
    · rintro _ ⟨⟩
    · rintro _ ⟨⟩
  refine ⟨hkept, merged_policy_accepted ?_ hkept⟩
  intro ruleType htype entry hentry
  cases ruleType with
  | overtimeThreshold => exact absurd rfl htype
  | breakRequirement => cases hentry
  | restPeriodMinimum =>
    obtain rfl := mem_singleton.1 hentry
    exact .inl ⟨11, rfl⟩
  | maxConsecutiveDays =>
    obtain rfl := mem_singleton.1 hentry
    exact .inl ⟨6, rfl⟩
  | unionRule =>
    simp only [fieldDirections, mem_cons, not_mem_nil, or_false] at hentry
    rcases hentry with rfl | rfl | rfl | rfl
    · exact .inl ⟨240, rfl⟩
    · exact .inr (.inl rfl)
    · exact .inr (.inl rfl)
    · exact .inr (.inl rfl)

/-- The threshold of overtime is checked and not merged; half a minute is cut off by the merge; and
a text of digits is a number to the check only. -/
theorem exampleRules_rejected :
    validatePolicyAgainstFloor .overtimeThreshold (serializePolicy (mergeFloors
        ⟨7, 0, 60, none, none, none⟩ (floorOf (exampleRules (.num 240)))))
        (exampleRules (.num 240) .overtimeThreshold) ≠ [] ∧
      validatePolicyAgainstFloor .unionRule (serializePolicy (mergeFloors
        ⟨7, 0, 60, none, none, none⟩ (floorOf (exampleRules (.num (481 / 2))))))
        (exampleRules (.num (481 / 2)) .unionRule) ≠ [] ∧
      validatePolicyAgainstFloor .unionRule (serializePolicy (mergeFloors
        ⟨7, 0, 60, none, none, none⟩ (floorOf (exampleRules (.str "240")))))
        (exampleRules (.str "240") .unionRule) ≠ [] := by
  decide +kernel

end Workforce.Compliance
