import Workforce.Foundations.Json
import Workforce.Foundations.Tables

/-!
# The governance of AI recommendations

What decides how far a recommendation may go on its own.

* `ai-governance-policy-resolver.service.ts`: the policy of an action type (`resolve`).
* `risk-threshold-evaluator.service.ts`: the thresholds for executing it without a human
  (`evaluate`).
* `rationale-suspicion-detector.ts`: the phrases in a rationale that ask for a human
  (`detectSuspiciousRationalePhrases`).

`requiresHumanApproval` puts them together; a human is left out only where all three agree
(`requiresHumanApproval_eq_false`).
-/

namespace Workforce.Ai

open Tables

/-! ## Policies -/

inductive AiAutonomyLevel
  | suggestOnly | approveRequired | autoExecuteLowRisk
  deriving DecidableEq

structure AiGovernancePolicy where
  tenantId : ℕ
  actionType : String
  autonomyLevel : AiAutonomyLevel
  riskThresholdConfig : Json

def defaultActionType : String := "default"

def platformDefaultAutonomyLevel : AiAutonomyLevel := .suggestOnly

structure ResolvedGovernance where
  autonomyLevel : AiAutonomyLevel
  riskThresholdConfig : Json

/-- `findByActionType`: at most one row, by the unique constraint. -/
def findByActionType (policies : List AiGovernancePolicy) (tenantId : ℕ) (actionType : String) :
    Option ResolvedGovernance :=
  (lookup (fun p => (p.tenantId, p.actionType)) (tenantId, actionType) policies).map fun p =>
    ⟨p.autonomyLevel, p.riskThresholdConfig⟩

/-- What `resolve` returns when neither of its queries has found a row. -/
def platformDefault : ResolvedGovernance := ⟨platformDefaultAutonomyLevel, .obj []⟩

/-! ## Risk thresholds -/

structure RiskEvaluationContext where
  affectedEmployeeCount : ℕ
  confidenceIndicator : Option ℚ

inductive FailedCriterion
  | affectedEmployeeCount (count : ℕ) (maxAffectedEmployees : ℚ)
  | confidenceIndicator (indicator : Option ℚ) (minConfidenceIndicator : ℚ)
  | noRecognizedCriteria

structure RiskEvaluationResult where
  passed : Bool
  failedCriteria : List FailedCriterion

/-- `maxAffectedEmployees`: what fails, if it is a number. -/
def checkAffectedEmployees (config : Json) (context : RiskEvaluationContext) :
    Option (List FailedCriterion) :=
  match config.get "maxAffectedEmployees" with
  | .num most =>
    some (if most < context.affectedEmployeeCount then
      [.affectedEmployeeCount context.affectedEmployeeCount most] else [])
  | _ => none

/-- `minConfidenceIndicator`: what fails, if it is a number. -/
def checkConfidence (config : Json) (context : RiskEvaluationContext) :
    Option (List FailedCriterion) :=
  match config.get "minConfidenceIndicator" with
  | .num least =>
    match context.confidenceIndicator with
    | none => some [.confidenceIndicator none least]
    | some indicator =>
      some (if indicator < least then [.confidenceIndicator (some indicator) least] else [])
  | _ => none

/-- The criteria that are set are checked, and some must be set. -/
def evaluate (config : Json) (context : RiskEvaluationContext) : RiskEvaluationResult :=
  let failedCriteria :=
    match checkAffectedEmployees config context, checkConfidence config context with
    | none, none => [.noRecognizedCriteria]
    | employees, confidence => employees.getD [] ++ confidence.getD []
  ⟨failedCriteria.isEmpty, failedCriteria⟩

/-! ## Suspicious phrases -/

/-- The patterns that the detector is written with: regular expressions without repetition. Texts
are matched without regard to case. -/
inductive Pattern
  | text (s : String)
  | oneOf (chars : List Char)
  /-- `\b`. -/
  | boundary
  | fails
  | opt (p : Pattern)
  | seq (p q : Pattern)
  | alt (p q : Pattern)

namespace Pattern

/-- A place in a text: the character before, and the rest. -/
abbrev Place := Option Char × List Char

def isWord (c : Char) : Bool := c.isAlphanum || c = '_'

def eat (allowed : Char → Bool) : Place → List Place
  | (_, c :: rest) => if allowed c then [(some c, rest)] else []
  | (_, []) => []

/-- The places at which a match that starts here may end. -/
def ends : Pattern → Place → List Place
  | text s, place =>
    s.toList.foldl (fun places c => places.flatMap (eat fun d => d.toLower = c.toLower)) [place]
  | oneOf chars, place => eat (· ∈ chars) place
  | boundary, (before, rest) =>
    if before.any isWord ≠ rest.head?.any isWord then [(before, rest)] else []
  | fails, _ => []
  | opt p, place => place :: p.ends place
  | seq p q, place => (p.ends place).flatMap q.ends
  | alt p q, place => p.ends place ++ q.ends place

/-- `RegExp.test`, from a place on. -/
def testFrom (p : Pattern) : Option Char → List Char → Bool
  | before, [] => !(p.ends (before, [])).isEmpty
  | before, c :: rest => !(p.ends (before, c :: rest)).isEmpty || p.testFrom (some c) rest

def test (p : Pattern) (s : String) : Bool := p.testFrom none s.toList

def all (ps : List Pattern) : Pattern := ps.foldr seq (text "")

def any (ps : List Pattern) : Pattern := ps.foldr alt fails

/-- `(one|another)`. -/
def texts (ss : List String) : Pattern := any (ss.map text)

/-- `\b(…)\b`. -/
def words (p : Pattern) : Pattern := all [boundary, p, boundary]

end Pattern

open Pattern in
/-- `SUSPICIOUS_PHRASE_PATTERNS`. -/
def suspiciousPhrasePatterns : List (String × Pattern) :=
  [("claims_prior_approval",
      words (any [
        all [text "pre", opt (text "-"), text "approved"],
        text "already approved",
        text "previously approved",
        all [text "approved by ", opt (text "the "),
          texts ["admin", "administrator", "platform"]]])),
    ("discourages_review",
      words (any [
        all [text "no ", opt (texts ["further ", "additional "]), text "review ",
          opt (text "is "), texts ["needed", "required", "necessary"]],
        all [text "skip ", opt (text "the "), text "review"],
        all [text "no need to ", texts ["check", "verify", "confirm"]]])),
    ("claims_already_executed",
      words (any [
        all [text "already ", texts ["executed", "completed", "finalized", "done"]],
        all [texts ["has", "have"], text " ", opt (text "already "), text "been ",
          texts ["executed", "completed", "finalized"]]])),
    ("urgency_pressure",
      words (any [
        all [text "urgent", opt (text "ly"), opt (oneOf [',', '.']), text " ",
          texts ["approve", "confirm", "act"], text " ", texts ["now", "immediately"]],
        text "act now",
        text "immediate action required"])),
    ("instruction_to_system",
      words (any [
        all [text "set ", texts ["autonomy", "confidence"]],
        all [text "auto", opt (oneOf ['_', '-']), text "execute"],
        all [text "ignore ", texts ["previous", "prior"], text " instructions"]]))]

def detectSuspiciousRationalePhrases (text : String) : List String :=
  (suspiciousPhrasePatterns.filter fun entry => entry.2.test text).map (·.1)

example : detectSuspiciousRationalePhrases "Already approved: no review needed, ACT NOW." =
    ["claims_prior_approval", "discourages_review", "urgency_pressure"] := by
  decide +kernel

/-! ## Human approval -/

/-- Whether a recommendation waits for a human: under any level but the automatic one, when a
threshold fails, and when the rationale is suspicious. -/
def requiresHumanApproval (governance : ResolvedGovernance) (context : RiskEvaluationContext)
    (rationale : String) : Bool :=
  governance.autonomyLevel ≠ .autoExecuteLowRisk ||
    !(evaluate governance.riskThresholdConfig context).passed ||
    !(detectSuspiciousRationalePhrases rationale).isEmpty

theorem requiresHumanApproval_eq_false {governance : ResolvedGovernance}
    {context : RiskEvaluationContext} {rationale : String} :
    requiresHumanApproval governance context rationale = false ↔
      governance.autonomyLevel = .autoExecuteLowRisk ∧
        (evaluate governance.riskThresholdConfig context).passed = true ∧
          detectSuspiciousRationalePhrases rationale = [] := by
  simp [requiresHumanApproval, and_assoc]

end Workforce.Ai
