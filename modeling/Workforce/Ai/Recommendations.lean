import Workforce.Ai.Governance
import Workforce.Eventing.Outbox

/-!
# AI recommendations

`ai-recommendation.service.ts`: a recommendation is created from an interaction
(`createFromInteraction`), executed at once when its governance leaves the human out, and decided by
a human otherwise (`decideRecommendation`). To execute it is to have the owning module approve the
reallocation that it recommends, by a remote call, and then to save the new status.

The calls overlap: each reads its row once, may wait for the owning module, and saves the row as it
has read it, with the new status, whatever the row has become. The remote call succeeds, fails, or
succeeds and its answer is lost.

* `DecidedOnce`: one decision and one execution, neither of a rejected nor of an advisory one.
* `decidedOnce_iff`: the runs in which a recommendation is so, exactly.
* `recommendations_settle`: the parts that hold in every run.
-/

namespace Workforce.Recommendations

open Runs Tables Eventing Ai List

/-! ## Rows -/

inductive AiInteractionType
  | forecastExplanation | scheduleExplanation | reallocationRationale | nlQuery
  | rootCauseAnalysis | analyticsNlBridge
  deriving DecidableEq

structure AiInteraction where
  id : ℕ
  tenantId : ℕ
  interactionType : AiInteractionType
  inputContext : Json
  outputText : Option String
  confidenceIndicator : Option ℚ
  degradedMode : Bool

inductive AiRecommendationSourceModule
  | scheduling | forecasting | intraday
  deriving DecidableEq

inductive AiRecommendationStatus
  | suggested | approved | rejected | autoExecuted
  deriving DecidableEq

structure AiRecommendation where
  id : ℕ
  tenantId : ℕ
  recommendationType : String
  sourceModule : AiRecommendationSourceModule
  rationaleText : String
  supportingDataJson : Json
  status : AiRecommendationStatus
  requiresHumanApproval : Bool
  suspiciousLanguageFlags : List String
  resolvedAutonomyLevel : AiAutonomyLevel
  decidedBy : Option ℕ
  decidedAt : Option ℤ
  aiInteractionId : ℕ

inductive ReallocationStatus
  | suggested | approved | rejected | autoExecuted | executed
  deriving DecidableEq

/-- A row of the owning module. -/
structure ReallocationAction where
  id : String
  tenantId : ℕ
  status : ReallocationStatus

inductive RecommendationDecision
  | approved | rejected

inductive AiError
  | aiInteractionNotFound (id : ℕ)
  | aiInteractionNotRecommendable (interactionType : AiInteractionType)
  | aiInteractionDegraded (id : ℕ)
  | aiRecommendationNotFound (id : ℕ)
  | aiRecommendationNotDecidable (id : ℕ) (status : AiRecommendationStatus)

inductive IntradayError
  | reallocationNotFound (id : String)
  | reallocationNotSuggested (id : String) (status : ReallocationStatus)

/-! ## The parts of a call -/

/-- The checks of `createFromInteraction`: the interaction, and its text. -/
def findRecommendable (interactions : List AiInteraction) (tenantId aiInteractionId : ℕ) :
    Except AiError (AiInteraction × String) :=
  match interactions.find? fun i => i.id = aiInteractionId && i.tenantId = tenantId with
  | none => .error (.aiInteractionNotFound aiInteractionId)
  | some interaction =>
    if interaction.interactionType ≠ .reallocationRationale then
      .error (.aiInteractionNotRecommendable interaction.interactionType)
    else if interaction.degradedMode then .error (.aiInteractionDegraded aiInteractionId)
    else
      match interaction.outputText with
      | none => .error (.aiInteractionDegraded aiInteractionId)
      | some text =>
        if text = "" then .error (.aiInteractionDegraded aiInteractionId)
        else .ok (interaction, text)

def recommendationType : String := "reallocation"

def affectedEmployeeCount (context : Json) : ℕ :=
  match context.get "affectedEmployeeIds" with
  | .arr items => items.length
  | _ => 0

/-- The recommendation that `createFromInteraction` inserts. -/
def newRecommendation (id : ℕ) (interaction : AiInteraction) (text : String)
    (governance : ResolvedGovernance) : AiRecommendation where
  id := id
  tenantId := interaction.tenantId
  recommendationType := recommendationType
  sourceModule := .intraday
  rationaleText := text
  supportingDataJson := interaction.inputContext
  status := .suggested
  requiresHumanApproval :=
    requiresHumanApproval governance
      ⟨affectedEmployeeCount interaction.inputContext, interaction.confidenceIndicator⟩ text
  suspiciousLanguageFlags := detectSuspiciousRationalePhrases text
  resolvedAutonomyLevel := governance.autonomyLevel
  decidedBy := none
  decidedAt := none
  aiInteractionId := interaction.id

/-- The checks of `decideRecommendation`. -/
def findDecidable (rows : List AiRecommendation) (tenantId recommendationId : ℕ) :
    Except AiError AiRecommendation :=
  match lookup (·.id) recommendationId rows with
  | none => .error (.aiRecommendationNotFound recommendationId)
  | some row =>
    if row.tenantId ≠ tenantId then .error (.aiRecommendationNotFound recommendationId)
    else if row.status ≠ .suggested then
      .error (.aiRecommendationNotDecidable recommendationId row.status)
    else .ok row

namespace AiRecommendation

variable (r : AiRecommendation)

/-- The recommendation with a decision. -/
def decide (status : AiRecommendationStatus) (decidedBy : Option ℕ) (now : ℤ) : AiRecommendation :=
  { r with status := status, decidedBy := decidedBy, decidedAt := some now }

/-- A value that is no string is not the id of an action. -/
def reallocationActionId : Option String :=
  match r.supportingDataJson.get "reallocationActionId" with
  | .str id => some id
  | _ => none

end AiRecommendation

/-- `save` of a decided recommendation. The other columns are as they were loaded: nothing assigns
them. -/
def saveOver (loaded saved row : AiRecommendation) : AiRecommendation :=
  { row with
    status := saveColumn loaded.status saved.status row.status
    decidedBy := saveColumn loaded.decidedBy saved.decidedBy row.decidedBy
    decidedAt := saveColumn loaded.decidedAt saved.decidedAt row.decidedAt }

/-- `ReallocationApprovalService.approve` of the owning module: a transaction that locks the row. -/
def approve (actions : List ReallocationAction) (tenantId : ℕ) (id : String) :
    Except IntradayError (List ReallocationAction) :=
  match lookup (·.id) id actions with
  | none => .error (.reallocationNotFound id)
  | some action =>
    if action.tenantId ≠ tenantId then .error (.reallocationNotFound id)
    else if action.status ≠ .suggested then
      .error (.reallocationNotSuggested id action.status)
    else .ok (Tables.modify (·.id) id (fun a => { a with status := .executed }) actions)

/-! ## Steps -/

/-- Where a call is. -/
inductive Process
  | idle
  /-- `resolve`: the query for the action type is next. -/
  | resolving (interaction : AiInteraction) (text : String)
  /-- The query for the default is next. -/
  | defaulting (interaction : AiInteraction) (text : String)
  | resolved (interaction : AiInteraction) (text : String) (governance : ResolvedGovernance)
  /-- `execute`: the remote call is next. -/
  | executing (r : AiRecommendation) (decidedBy : Option ℕ) (finalStatus : AiRecommendationStatus)
  /-- A decided recommendation is to be saved. -/
  | saving (r : AiRecommendation)
  /-- `save` has loaded the row. -/
  | loaded (r row : AiRecommendation)

structure State (ι : Type*) where
  interactions : List AiInteraction
  policies : List AiGovernancePolicy
  recommendations : List AiRecommendation
  actions : List ReallocationAction
  processes : ι → Process
  /-- The recommendations on which a decision has been saved. -/
  decided : List ℕ
  /-- The recommendations for which the owning module has carried out an approval. -/
  approvals : List ℕ

inductive Action (ι : Type*)
  /-- The tables of interactions and policies are edited. -/
  | edit (interactions : List AiInteraction) (policies : List AiGovernancePolicy)
  /-- The owning module suggests a reallocation. -/
  | suggest (id : String) (tenantId : ℕ)
  /-- The owning module approves one for somebody else. -/
  | approveElsewhere (tenantId : ℕ) (id : String)
  | createFromInteraction (i : ι) (tenantId aiInteractionId : ℕ)
  | resolve (i : ι)
  | insert (i : ι) (id : ℕ) (c : Commit)
  | decideRecommendation (i : ι) (tenantId : ℕ) (userId : Option ℕ) (recommendationId : ℕ)
    (decision : RecommendationDecision) (now : ℤ)
  | approveReallocation (i : ι) (c : Commit) (now : ℤ)
  | load (i : ι)
  | save (i : ι) (c : Commit)
  | crash (i : ι)

variable {ι : Type*} [DecidableEq ι]

namespace State

variable (s : State ι)

def init : State ι := ⟨[], [], [], [], fun _ => .idle, [], []⟩

def setProcess (i : ι) (p : Process) : State ι :=
  { s with processes := Function.update s.processes i p }

/-- The actions after the approval that `execute` asks the owning module for; none if it throws. -/
def approval (r : AiRecommendation) : Option (List ReallocationAction) :=
  if r.sourceModule ≠ .intraday then none
  else
    match r.reallocationActionId with
    -- The path has no id, and is refused.
    | none => none
    | some id => (approve s.actions r.tenantId id).toOption

/-- The transaction of the owning module. -/
def commitApproval (c : Commit) (r : AiRecommendation) (actions : List ReallocationAction) :
    State ι :=
  match c with
  | .ok | .lost _ => { s with actions := actions, approvals := r.id :: s.approvals }
  | .failed _ => s

def commitInsert (c : Commit) (r : AiRecommendation) : State ι :=
  match c with
  | .ok | .lost _ => { s with recommendations := s.recommendations ++ [r] }
  | .failed _ => s

def commitSave (c : Commit) (r row : AiRecommendation) : State ι :=
  match c with
  | .ok | .lost _ =>
    { s with
      recommendations := Tables.modify (·.id) r.id (saveOver row r) s.recommendations
      decided := r.id :: s.decided }
  | .failed _ => s

@[simp] theorem setProcess_same {s : State ι} {i : ι} {p : Process} :
    (s.setProcess i p).processes i = p := Function.update_self ..

@[simp] theorem setProcess_of_ne {s : State ι} {i j : ι} {p : Process} (h : j ≠ i) :
    (s.setProcess i p).processes j = s.processes j := Function.update_of_ne h ..

end State

/-- How `decideRecommendation` goes on with a recommendation that is suggested. -/
def decideNext (r : AiRecommendation) (userId : Option ℕ) (now : ℤ) :
    RecommendationDecision → Process
  | .rejected => .saving (r.decide .rejected userId now)
  | .approved =>
    if r.resolvedAutonomyLevel = .suggestOnly then .saving (r.decide .approved userId now)
    else .executing { r with decidedBy := userId } userId .approved

/-- How `createFromInteraction` goes on with a recommendation that it has inserted. -/
def createNext (r : AiRecommendation) : Process :=
  if r.requiresHumanApproval then .idle else .executing r none .autoExecuted

/-- One step. A call that throws ends; one that stops while the owning module is at work is one
whose answer is lost. -/
def step (s : State ι) : Action ι → Option (State ι)
  | .edit interactions policies =>
    some { s with interactions := interactions, policies := policies }
  | .suggest id tenantId =>
    if id ∈ s.actions.map (·.id) then none
    else some { s with actions := s.actions ++ [⟨id, tenantId, .suggested⟩] }
  | .approveElsewhere tenantId id =>
    (approve s.actions tenantId id).toOption.map fun actions => { s with actions := actions }
  | .createFromInteraction i tenantId aiInteractionId =>
    match s.processes i with
    | .idle =>
      match findRecommendable s.interactions tenantId aiInteractionId with
      | .error _ => some s
      | .ok (interaction, text) => some (s.setProcess i (.resolving interaction text))
    | _ => none
  | .resolve i =>
    match s.processes i with
    | .resolving interaction text =>
      match findByActionType s.policies interaction.tenantId recommendationType with
      | some governance => some (s.setProcess i (.resolved interaction text governance))
      | none => some (s.setProcess i (.defaulting interaction text))
    | .defaulting interaction text =>
      let governance :=
        (findByActionType s.policies interaction.tenantId defaultActionType).getD platformDefault
      some (s.setProcess i (.resolved interaction text governance))
    | _ => none
  | .insert i id c =>
    match s.processes i with
    | .resolved interaction text governance =>
      if id ∈ s.recommendations.map (·.id) then none
      else
        let r := newRecommendation id interaction text governance
        some ((s.commitInsert c r).setProcess i (if c.error.isNone then createNext r else .idle))
    | _ => none
  | .decideRecommendation i tenantId userId recommendationId decision now =>
    match s.processes i with
    | .idle =>
      match findDecidable s.recommendations tenantId recommendationId with
      | .error _ => some s
      | .ok r => some (s.setProcess i (decideNext r userId now decision))
    | _ => none
  | .approveReallocation i c now =>
    match s.processes i with
    | .executing r decidedBy finalStatus =>
      match s.approval r with
      | none => some (s.setProcess i .idle)
      | some actions =>
        some ((s.commitApproval c r actions).setProcess i
          (if c.error.isNone then .saving (r.decide finalStatus decidedBy now) else .idle))
    | _ => none
  | .load i =>
    match s.processes i with
    | .saving r =>
      (lookup (·.id) r.id s.recommendations).map fun row => s.setProcess i (.loaded r row)
    | _ => none
  | .save i c =>
    match s.processes i with
    | .loaded r row => some ((s.commitSave c r row).setProcess i .idle)
    | _ => none
  | .crash i => some (s.setProcess i .idle)

/-! ## What should hold of a recommendation -/

/-- The columns that an execution depends on. -/
def AiRecommendation.terms (r : AiRecommendation) : AiAutonomyLevel × Option String :=
  (r.resolvedAutonomyLevel, r.reallocationActionId)

namespace State

variable (s : State ι) (x : ℕ)

def status : Option AiRecommendationStatus :=
  (lookup (·.id) x s.recommendations).map (·.status)

def terms : Option (AiAutonomyLevel × Option String) :=
  (lookup (·.id) x s.recommendations).map (·.terms)

def level : Option AiAutonomyLevel := (s.terms x).map (·.1)

end State

/-- One decision at most, and nothing executed against it. -/
structure DecidedOnce (x : ℕ) (s : State ι) : Prop where
  /-- One call takes it out of its status `suggested`. -/
  decided : s.decided.count x ≤ 1
  executed : s.approvals.count x ≤ 1
  rejected : s.status x = some .rejected → x ∉ s.approvals
  suggestOnly : s.level x = some .suggestOnly → x ∉ s.approvals

namespace Process

/-- The recommendation that is about to be executed. -/
def execution : Process → Option AiRecommendation
  | .executing r _ _ => some r
  | _ => none

/-- The recommendation that is about to be saved. -/
def decision : Process → Option AiRecommendation
  | .loaded r _ => some r
  | _ => none

end Process

/-- Nobody gets in the way of this step: a decision that is saved finds the recommendation still
suggested, and, where it is a rejection, not executed; and an approval that is carried out finds it
not rejected. -/
def Undisputed (x : ℕ) (s : State ι) : Action ι → Prop
  | .save i c => c.Took → ∀ r ∈ (s.processes i).decision, r.id = x →
      s.status x = some .suggested ∧ (r.status = .rejected → x ∉ s.approvals)
  | .approveReallocation i c _ => c.Took → ∀ r ∈ (s.processes i).execution, r.id = x →
      (s.approval r).isSome → s.status x ≠ some .rejected
  | _ => True

instance (x : ℕ) (s : State ι) (a : Action ι) : Decidable (Undisputed x s a) := by
  cases a <;> unfold Undisputed <;> infer_instance

/-! ## What the tables may become -/

/-- The action is no longer suggested. -/
def Settled (actions : List ReallocationAction) (id : String) : Prop :=
  ∃ a, lookup (·.id) id actions = some a ∧ a.status ≠ .suggested

/-- An approval finds the action suggested and settles it; settled actions stay so. -/
theorem approve_eq_ok {actions actions' : List ReallocationAction} {tenantId : ℕ} {id : String}
    (h : approve actions tenantId id = .ok actions') :
    ¬ Settled actions id ∧ Settled actions' id ∧
      ∀ id', Settled actions id' → Settled actions' id' := by
  unfold approve at h
  split at h
  · cases h
  · rename_i action hlookup
    split at h
    · cases h
    · split at h
      · cases h
      · rename_i hsuggested
        cases h
        have hmodify : ∀ id', lookup (·.id) id'
            (Tables.modify (·.id) id (fun a => { a with status := .executed }) actions) =
              if id' = id then
                (lookup (·.id) id' actions).map fun a => { a with status := .executed }
              else lookup (·.id) id' actions :=
          fun id' => lookup_modify (f := fun a => { a with status := .executed }) (fun _ => rfl)
            actions
        refine ⟨?_, ?_, ?_⟩
        · rintro ⟨a, ha, hne⟩
          obtain rfl := Option.some.inj (hlookup.symm.trans ha)
          exact hsuggested hne
        · exact ⟨{ action with status := .executed }, by simp [hmodify, hlookup],
            fun h => by cases h⟩
        · rintro id' ⟨a, ha, hne⟩
          by_cases hid : id' = id
          · subst hid
            exact ⟨{ a with status := .executed }, by simp [hmodify, ha],
              fun h => by cases h⟩
          · exact ⟨a, by simp [hmodify, hid, ha], hne⟩

theorem settled_append {actions : List ReallocationAction} {id : String} {a : ReallocationAction}
    (hfresh : a.id ∉ actions.map (·.id)) (h : Settled actions id) :
    Settled (actions ++ [a]) id := by
  obtain ⟨b, hb, hne⟩ := h
  have hid : id ≠ a.id := by
    rintro rfl
    obtain ⟨hmem, hkey⟩ := mem_of_lookup hb
    exact hfresh (hkey ▸ mem_map_of_mem hmem)
  have hother : ∀ c ∈ actions, c.id ≠ a.id := by
    intro c hc heq
    exact hfresh (heq ▸ mem_map_of_mem hc)
  exact ⟨b, by rw [lookup_append_singleton hother, if_neg hid, hb], hne⟩

namespace State

variable {s : State ι} {x : ℕ}

omit [DecidableEq ι]

theorem status_eq_none_iff : s.status x = none ↔ s.terms x = none := by
  simp [status, terms]

theorem lookup_insert {r : AiRecommendation}
    (hfresh : r.id ∉ s.recommendations.map (·.id)) (x : ℕ) :
    lookup (·.id) x (s.recommendations ++ [r]) =
      if x = r.id then some r else lookup (·.id) x s.recommendations := by
  refine lookup_append_singleton fun q hq heq => ?_
  exact hfresh (heq ▸ mem_map_of_mem hq)

theorem status_eq_none_of_fresh (hfresh : x ∉ s.recommendations.map (·.id)) :
    s.status x = none := by
  rw [status, Option.map_eq_none_iff, ← Option.not_isSome_iff_eq_none, lookup_isSome]
  exact hfresh

theorem lookup_save (rows : List AiRecommendation) (r row : AiRecommendation) (x : ℕ) :
    lookup (·.id) x (Tables.modify (·.id) r.id (saveOver row r) rows) =
      if x = r.id then (lookup (·.id) x rows).map (saveOver row r) else lookup (·.id) x rows :=
  lookup_modify (f := saveOver row r) (fun _ => rfl) rows

theorem status_save (s : State ι) (r row : AiRecommendation) (x : ℕ) :
    State.status { s with
      recommendations := Tables.modify (·.id) r.id (saveOver row r) s.recommendations
      decided := r.id :: s.decided } x =
        if x = r.id then (s.status x).map (saveColumn row.status r.status) else s.status x := by
  rw [status, lookup_save]
  split
  · rw [status, Option.map_map, Option.map_map]
    rfl
  · rfl

theorem terms_save (s : State ι) (r row : AiRecommendation) (x : ℕ) :
    State.terms { s with
      recommendations := Tables.modify (·.id) r.id (saveOver row r) s.recommendations
      decided := r.id :: s.decided } x = s.terms x := by
  rw [terms, lookup_save]
  split
  · rw [Option.map_map]
    rfl
  · rfl

theorem approval_eq_some {r : AiRecommendation} {actions : List ReallocationAction}
    (h : s.approval r = some actions) :
    ∃ id, r.reallocationActionId = some id ∧ approve s.actions r.tenantId id = .ok actions := by
  unfold approval at h
  split at h
  · cases h
  · split at h
    · cases h
    · rename_i id hid
      exact ⟨id, hid, toOption_eq_some h⟩

variable {c : Commit} {r row : AiRecommendation}

theorem commitSave_of_took (hc : c.Took) (s : State ι) (r row : AiRecommendation) :
    s.commitSave c r row =
      { s with
        recommendations := Tables.modify (·.id) r.id (saveOver row r) s.recommendations
        decided := r.id :: s.decided } := by
  cases c with
  | failed message => exact hc.elim
  | _ => rfl

theorem commitApproval_of_took (hc : c.Took) (s : State ι) (r : AiRecommendation)
    (actions : List ReallocationAction) :
    s.commitApproval c r actions =
      { s with actions := actions, approvals := r.id :: s.approvals } := by
  cases c with
  | failed message => exact hc.elim
  | _ => rfl

theorem commitSave_of_not_took (hc : ¬ c.Took) (s : State ι) (r row : AiRecommendation) :
    s.commitSave c r row = s := by
  cases c with
  | failed message => rfl
  | _ => exact absurd trivial hc

theorem commitApproval_of_not_took (hc : ¬ c.Took) (s : State ι) (r : AiRecommendation)
    (actions : List ReallocationAction) : s.commitApproval c r actions = s := by
  cases c with
  | failed message => rfl
  | _ => exact absurd trivial hc

theorem commitInsert_of_took (hc : c.Took) (s : State ι) (r : AiRecommendation) :
    s.commitInsert c r = { s with recommendations := s.recommendations ++ [r] } := by
  cases c with
  | failed message => exact hc.elim
  | _ => rfl

end State

/-! ## What always holds -/

/-- Later states: what recommendations there are, and the terms of them, stays, and none is
suggested again. -/
structure Later (s t : State ι) : Prop where
  terms : ∀ x v, s.terms x = some v → t.terms x = some v
  suggested : ∀ x v, s.terms x = some v → t.status x = some .suggested →
    s.status x = some .suggested

/-- What a call holds is right. -/
def Fits (s : State ι) : Process → Prop
  | .executing r _ finalStatus =>
    s.terms r.id = some r.terms ∧ r.resolvedAutonomyLevel ≠ .suggestOnly ∧ finalStatus ≠ .suggested
  | .saving r => (s.terms r.id).isSome ∧ r.status ≠ .suggested
  | .loaded r row => (s.terms r.id).isSome ∧ r.status ≠ .suggested ∧
      (s.status r.id = some .suggested → row.status = .suggested)
  | _ => True

omit [DecidableEq ι] in
theorem Fits.later {s t : State ι} (hlater : Later s t) {p : Process} (h : Fits s p) :
    Fits t p := by
  have hsome : ∀ x, (s.terms x).isSome → (t.terms x).isSome := by
    intro x hx
    obtain ⟨v, hv⟩ := Option.isSome_iff_exists.1 hx
    rw [hlater.terms x v hv]
    rfl
  cases p with
  | executing r decidedBy finalStatus => exact ⟨hlater.terms _ _ h.1, h.2⟩
  | saving r => exact ⟨hsome _ h.1, h.2⟩
  | loaded r row =>
    obtain ⟨hr, hstatus, hrow⟩ := h
    obtain ⟨v, hv⟩ := Option.isSome_iff_exists.1 hr
    exact ⟨hsome _ hr, hstatus, fun hs => hrow (hlater.suggested _ v hv hs)⟩
  | _ => trivial

/-- In every state of every run, a recommendation is decided exactly when it is not suggested; one
that is executed has the right to be, and its action is settled. -/
structure Sound (s : State ι) : Prop where
  fits : ∀ i, Fits s (s.processes i)
  decided : ∀ x, x ∈ s.decided ↔ ∃ status, s.status x = some status ∧ status ≠ .suggested
  approved : ∀ x ∈ s.approvals, ∃ level id, s.terms x = some (level, some id) ∧
    level ≠ .suggestOnly ∧ Settled s.actions id
  once : s.approvals.Nodup

omit [DecidableEq ι] in
theorem sound_init : Sound (State.init : State ι) where
  fits := fun _ => trivial
  decided := by
    intro x
    refine iff_of_false not_mem_nil ?_
    rintro ⟨_, h, -⟩
    cases h
  approved := forall_mem_nil _
  once := nodup_nil

namespace Sound

variable {s t : State ι} {i : ι}

theorem setProcess (h : Sound s) {p : Process} (hp : Fits s p) : Sound (s.setProcess i p) where
  fits j := by
    have hlater : Later s (s.setProcess i p) := ⟨fun _ _ => id, fun _ _ _ => id⟩
    refine Fits.later hlater ?_
    rcases eq_or_ne j i with rfl | hj
    · rw [State.setProcess_same]
      exact hp
    · rw [State.setProcess_of_ne hj]
      exact h.fits j
  decided := h.decided
  approved := h.approved
  once := h.once

omit [DecidableEq ι] in
theorem setActions (h : Sound s) {actions : List ReallocationAction}
    (hactions : ∀ id, Settled s.actions id → Settled actions id) :
    Sound { s with actions := actions } where
  fits j := Fits.later ⟨fun _ _ => id, fun _ _ _ => id⟩ (h.fits j)
  decided := h.decided
  approved x hx := by
    obtain ⟨level, id, hterms, hlevel, hsettled⟩ := h.approved x hx
    exact ⟨level, id, hterms, hlevel, hactions id hsettled⟩
  once := h.once

omit [DecidableEq ι] in
theorem insert (h : Sound s) {r : AiRecommendation}
    (hfresh : r.id ∉ s.recommendations.map (·.id)) (hr : r.status = .suggested) :
    Sound { s with recommendations := s.recommendations ++ [r] } ∧
      Later s { s with recommendations := s.recommendations ++ [r] } ∧
        State.terms { s with recommendations := s.recommendations ++ [r] } r.id = some r.terms := by
  have hnone : s.status r.id = none := State.status_eq_none_of_fresh hfresh
  have hterms : ∀ x, State.terms { s with recommendations := s.recommendations ++ [r] } x =
      if x = r.id then some r.terms else s.terms x := by
    intro x
    rw [State.terms, State.lookup_insert hfresh]
    split <;> rfl
  have hstatus : ∀ x, State.status { s with recommendations := s.recommendations ++ [r] } x =
      if x = r.id then some .suggested else s.status x := by
    intro x
    rw [State.status, State.lookup_insert hfresh]
    split
    · exact congrArg some hr
    · rfl
  have hlater : Later s { s with recommendations := s.recommendations ++ [r] } := by
    have hne : ∀ x v, s.terms x = some v → x ≠ r.id := by
      rintro x v hx rfl
      rw [State.status_eq_none_iff.1 hnone] at hx
      cases hx
    refine ⟨fun x v hx => ?_, fun x v hx => ?_⟩
    · rw [hterms, if_neg (hne x v hx)]
      exact hx
    · rw [hstatus, if_neg (hne x v hx)]
      exact id
  refine ⟨⟨fun j => (h.fits j).later hlater, fun x => ?_, fun x hx => ?_, h.once⟩, hlater, ?_⟩
  · rw [hstatus]
    split
    · rename_i hx
      refine iff_of_false (fun hmem => ?_) ?_
      · obtain ⟨status, hs, -⟩ := (h.decided x).1 hmem
        rw [hx, hnone] at hs
        cases hs
      · rintro ⟨status, ⟨⟩, hne⟩
        exact hne rfl
    · exact h.decided x
  · obtain ⟨level, id, hx, hlevel, hsettled⟩ := h.approved x hx
    exact ⟨level, id, hlater.terms x _ hx, hlevel, hsettled⟩
  · rw [hterms, if_pos rfl]

omit [DecidableEq ι] in
theorem save (h : Sound s) {r row : AiRecommendation} (hi : s.processes i = .loaded r row)
    {t : State ι} (ht : t = { s with
      recommendations := Tables.modify (·.id) r.id (saveOver row r) s.recommendations
      decided := r.id :: s.decided }) :
    Sound t ∧ (∃ status, t.status r.id = some status ∧ status ≠ .suggested) ∧
      (s.status r.id = some .suggested → t.status r.id = some r.status) := by
  obtain ⟨hr, hdecided, hrow⟩ : (s.terms r.id).isSome ∧ r.status ≠ .suggested ∧
      (s.status r.id = some .suggested → row.status = .suggested) := by
    have hfits := h.fits i
    rwa [hi] at hfits
  have hterms : ∀ x, t.terms x = s.terms x := by
    subst ht
    exact State.terms_save s r row
  have hstatus : ∀ x, t.status x =
      if x = r.id then (s.status x).map (saveColumn row.status r.status) else s.status x := by
    subst ht
    exact State.status_save s r row
  obtain ⟨found, hfound⟩ : ∃ found, s.status r.id = some found := by
    rw [← Option.ne_none_iff_exists', ne_eq, State.status_eq_none_iff]
    exact Option.isSome_iff_ne_none.1 hr
  have hleft : t.status r.id = some (saveColumn row.status r.status found) := by
    rw [hstatus, if_pos rfl, hfound]
    rfl
  have hsaved : found = .suggested → saveColumn row.status r.status found = r.status := by
    rintro rfl
    have hne : r.status ≠ row.status := by
      rw [hrow hfound]
      exact hdecided
    exact if_neg hne
  have hnew : saveColumn row.status r.status found ≠ .suggested := by
    by_cases hf : found = .suggested
    · rw [hsaved hf]
      exact hdecided
    · unfold saveColumn
      split
      · exact hf
      · exact hdecided
  have hlater : Later s t := by
    refine ⟨fun x v hx => (hterms x).trans hx, fun x v _ hx => ?_⟩
    by_cases hxr : x = r.id
    · rw [hxr, hleft] at hx
      exact absurd (Option.some.inj hx) hnew
    · rwa [hstatus, if_neg hxr] at hx
  refine ⟨⟨fun j => ?_, fun x => ?_, fun x hx => ?_, ?_⟩, ⟨_, hleft, hnew⟩, fun hs => ?_⟩
  · have hsame : t.processes = s.processes := by rw [ht]
    rw [hsame]
    exact (h.fits j).later hlater
  · have hmem : x ∈ t.decided ↔ x = r.id ∨ x ∈ s.decided := by
      subst ht
      exact mem_cons
    rw [hmem]
    by_cases hxr : x = r.id
    · subst hxr
      exact iff_of_true (.inl rfl) ⟨_, hleft, hnew⟩
    · rw [hstatus, if_neg hxr]
      simpa [hxr] using h.decided x
  · subst ht
    obtain ⟨level, id, hx, hlevel, hsettled⟩ := h.approved x hx
    exact ⟨level, id, (hterms x).trans hx, hlevel, hsettled⟩
  · subst ht
    exact h.once
  · rw [hleft, hsaved (Option.some.inj (hfound.symm.trans hs))]

omit [DecidableEq ι] in
/-- The owning module carries out an approval: it is the first one of the recommendation. -/
theorem approval (h : Sound s) {r : AiRecommendation} {decidedBy : Option ℕ}
    {finalStatus : AiRecommendationStatus} (hi : s.processes i = .executing r decidedBy finalStatus)
    {actions : List ReallocationAction} (hactions : s.approval r = some actions) :
    Sound { s with actions := actions, approvals := r.id :: s.approvals } := by
  obtain ⟨hr, hlevel, -⟩ : s.terms r.id = some r.terms ∧ r.resolvedAutonomyLevel ≠ .suggestOnly ∧
      finalStatus ≠ .suggested := by
    have hfits := h.fits i
    rwa [hi] at hfits
  obtain ⟨id, hid, happrove⟩ := State.approval_eq_some hactions
  obtain ⟨hopen, hsettled, hkeep⟩ := approve_eq_ok happrove
  have hterms : s.terms r.id = some (r.resolvedAutonomyLevel, some id) := by
    rw [hr, AiRecommendation.terms, hid]
  have hfirst : r.id ∉ s.approvals := by
    intro hmem
    obtain ⟨level, id', hx, -, hsettled'⟩ := h.approved r.id hmem
    obtain ⟨-, hid'⟩ := Prod.ext_iff.1 (Option.some.inj (hterms.symm.trans hx))
    obtain rfl := Option.some.inj hid'
    exact hopen hsettled'
  refine ⟨(h.setActions hkeep).fits, h.decided, ?_, nodup_cons.2 ⟨hfirst, h.once⟩⟩
  exact forall_mem_cons.2 ⟨⟨_, id, hterms, hlevel, hsettled⟩, (h.setActions hkeep).approved⟩

omit [DecidableEq ι] in
theorem not_approved (h : Sound s) {x : ℕ} (hx : s.level x = some .suggestOnly) :
    x ∉ s.approvals := by
  intro hmem
  obtain ⟨level, id, hterms, hlevel, -⟩ := h.approved x hmem
  rw [State.level, hterms] at hx
  exact hlevel (Option.some.inj hx)

end Sound

/-! ## What a step does to a recommendation -/

/-- What counts for a recommendation is as before. -/
structure Unmoved (s t : State ι) : Prop where
  decided : t.decided = s.decided
  approvals : t.approvals = s.approvals
  rejected : ∀ x, t.status x = some .rejected → s.status x = some .rejected

section Steps

variable {s t : State ι} {i : ι}

omit [DecidableEq ι] in
theorem Unmoved.refl (s : State ι) : Unmoved s s := ⟨rfl, rfl, fun _ => id⟩

theorem Unmoved.setProcess (h : Unmoved s t) (p : Process) : Unmoved s (t.setProcess i p) :=
  ⟨h.decided, h.approvals, h.rejected⟩

/-- A save that does not take effect only ends the call. One that does makes the decision. -/
theorem step_save {c : Commit} (h : Sound s) (hstep : step s (.save i c) = some t) :
    Sound t ∧ (¬ c.Took → Unmoved s t) ∧ (c.Took → ∃ r ∈ (s.processes i).decision,
      t.decided = r.id :: s.decided ∧ t.approvals = s.approvals ∧
        (∃ status, s.status r.id = some status) ∧
        (s.status r.id = some .suggested → t.status r.id = some r.status) ∧
        ∀ x, x ≠ r.id → t.status x = s.status x) := by
  simp only [step] at hstep
  split at hstep
  · rename_i r row hi
    cases hstep
    have hr : ∃ status, s.status r.id = some status := by
      have hfits := h.fits i
      rw [hi] at hfits
      rw [← Option.ne_none_iff_exists', ne_eq, State.status_eq_none_iff]
      exact Option.isSome_iff_ne_none.1 hfits.1
    by_cases hc : c.Took
    · obtain ⟨hsound, -, hsaved⟩ := h.save hi rfl
      rw [State.commitSave_of_took hc]
      refine ⟨hsound.setProcess trivial, fun hno => absurd hc hno, fun _ => ?_⟩
      refine ⟨r, by rw [hi]; rfl, rfl, rfl, hr, hsaved, fun x hx => ?_⟩
      exact (State.status_save s r row x).trans (if_neg hx)
    · rw [State.commitSave_of_not_took hc]
      exact ⟨h.setProcess trivial, fun _ => (Unmoved.refl s).setProcess _,
        fun hc' => absurd hc' hc⟩
  · cases hstep

/-- An approval that is not carried out leaves everything as it is. -/
theorem step_approveReallocation {c : Commit} {now : ℤ} (h : Sound s)
    (hstep : step s (.approveReallocation i c now) = some t) :
    ∃ r ∈ (s.processes i).execution, Sound t ∧
      ((¬ c.Took ∨ s.approval r = none) → Unmoved s t) ∧
      (c.Took → (s.approval r).isSome →
        t.decided = s.decided ∧ t.approvals = r.id :: s.approvals ∧
          ∀ x, t.status x = s.status x) := by
  simp only [step] at hstep
  split at hstep
  · rename_i r decidedBy finalStatus hi
    refine ⟨r, by rw [hi]; rfl, ?_⟩
    split at hstep
    · rename_i hnone
      cases hstep
      refine ⟨h.setProcess trivial, fun _ => (Unmoved.refl s).setProcess _, fun _ hsome => ?_⟩
      rw [hnone] at hsome
      cases hsome
    · rename_i actions hactions
      cases hstep
      have hfits := h.fits i
      rw [hi] at hfits
      have hnext : Fits s (if c.error.isNone then .saving (r.decide finalStatus decidedBy now)
          else .idle) := by
        split
        · exact ⟨Option.isSome_iff_exists.2 ⟨_, hfits.1⟩, hfits.2.2⟩
        · trivial
      by_cases hc : c.Took
      · rw [State.commitApproval_of_took hc]
        refine ⟨(h.approval hi hactions).setProcess (hnext.later ⟨fun _ _ => id, fun _ _ _ => id⟩),
          fun hno => ?_, fun _ _ => ⟨rfl, rfl, fun _ => rfl⟩⟩
        rcases hno with hno | hno
        · exact absurd hc hno
        · rw [hactions] at hno
          cases hno
      · rw [State.commitApproval_of_not_took hc]
        exact ⟨h.setProcess hnext, fun _ => (Unmoved.refl s).setProcess _,
          fun hc' => absurd hc' hc⟩
  · cases hstep

/-- A new recommendation is executed at once only under the automatic level. -/
theorem step_insert {id : ℕ} {c : Commit} (h : Sound s)
    (hstep : step s (.insert i id c) = some t) : Sound t ∧ Unmoved s t := by
  simp only [step] at hstep
  split at hstep
  · rename_i interaction text governance hi
    obtain ⟨hfresh, hstep⟩ := Option.ite_none_left_eq_some.1 hstep
    cases hstep
    by_cases hc : c.Took
    · rw [State.commitInsert_of_took hc]
      obtain ⟨hsound, -, hterms⟩ :=
        h.insert (r := newRecommendation id interaction text governance) hfresh rfl
      have hunmoved : Unmoved s { s with
          recommendations :=
            s.recommendations ++ [newRecommendation id interaction text governance] } := by
        refine ⟨rfl, rfl, fun x hx => ?_⟩
        rw [State.status, State.lookup_insert hfresh] at hx
        split at hx
        · cases hx
        · exact hx
      refine ⟨hsound.setProcess ?_, hunmoved.setProcess _⟩
      unfold createNext
      split
      · split
        · trivial
        · rename_i hhuman
          have hlevel : governance.autonomyLevel = .autoExecuteLowRisk :=
            (requiresHumanApproval_eq_false.1 (Bool.eq_false_iff.2 hhuman)).1
          exact ⟨hterms, fun hno => AiAutonomyLevel.noConfusion (hlevel.symm.trans hno),
            fun hno => by cases hno⟩
      · trivial
    · cases c with
      | failed message => exact ⟨h.setProcess trivial, (Unmoved.refl s).setProcess _⟩
      | ok => exact absurd trivial hc
      | lost message => exact absurd trivial hc
  · cases hstep

omit [DecidableEq ι] in
theorem fits_decideNext {tenantId recommendationId : ℕ} {r : AiRecommendation} {userId : Option ℕ}
    {now : ℤ} {decision : RecommendationDecision}
    (h : findDecidable s.recommendations tenantId recommendationId = .ok r) :
    Fits s (decideNext r userId now decision) := by
  have hterms : s.terms r.id = some r.terms := by
    unfold findDecidable at h
    split at h
    · cases h
    · rename_i row hrow
      split at h
      · cases h
      · split at h
        · cases h
        · cases h
          obtain rfl := (mem_of_lookup hrow).2
          rw [State.terms, hrow]
          rfl
  have hsome : (s.terms r.id).isSome := by
    rw [hterms]
    rfl
  cases decision with
  | rejected => exact ⟨hsome, nofun⟩
  | approved =>
    by_cases hlevel : r.resolvedAutonomyLevel = .suggestOnly
    · have hnext : decideNext r userId now .approved = .saving (r.decide .approved userId now) :=
        if_pos hlevel
      rw [hnext]
      exact ⟨hsome, nofun⟩
    · have hnext : decideNext r userId now .approved =
          .executing { r with decidedBy := userId } userId .approved := if_neg hlevel
      rw [hnext]
      exact ⟨hterms, hlevel, nofun⟩

theorem step_other {a : Action ι} (h : Sound s) (hstep : step s a = some t)
    (hsave : ∀ i c, a ≠ .save i c) (happrove : ∀ i c now, a ≠ .approveReallocation i c now) :
    Sound t ∧ Unmoved s t := by
  cases a with
  | save i c => exact absurd rfl (hsave i c)
  | approveReallocation i c now => exact absurd rfl (happrove i c now)
  | edit interactions policies =>
    cases hstep
    exact ⟨⟨h.fits, h.decided, h.approved, h.once⟩, rfl, rfl, fun _ => id⟩
  | suggest id tenantId =>
    obtain ⟨hfresh, hstep⟩ := Option.ite_none_left_eq_some.1 hstep
    cases hstep
    exact ⟨h.setActions fun _ hid' => settled_append hfresh hid', rfl, rfl, fun _ h' => h'⟩
  | approveElsewhere tenantId id =>
    obtain ⟨actions, hactions, rfl⟩ := Option.map_eq_some_iff.1 hstep
    obtain ⟨-, -, hkeep⟩ := approve_eq_ok (toOption_eq_some hactions)
    exact ⟨h.setActions hkeep, rfl, rfl, fun _ h' => h'⟩
  | createFromInteraction i tenantId aiInteractionId =>
    simp only [step] at hstep
    split at hstep
    · split at hstep
      · cases hstep
        exact ⟨h, Unmoved.refl s⟩
      · cases hstep
        exact ⟨h.setProcess trivial, (Unmoved.refl s).setProcess _⟩
    · cases hstep
  | resolve i =>
    simp only [step] at hstep
    split at hstep
    · split at hstep
      · cases hstep
        exact ⟨h.setProcess trivial, (Unmoved.refl s).setProcess _⟩
      · cases hstep
        exact ⟨h.setProcess trivial, (Unmoved.refl s).setProcess _⟩
    · cases hstep
      exact ⟨h.setProcess trivial, (Unmoved.refl s).setProcess _⟩
    · cases hstep
  | insert i id c => exact step_insert h hstep
  | decideRecommendation i tenantId userId recommendationId decision now =>
    simp only [step] at hstep
    split at hstep
    · split at hstep
      · cases hstep
        exact ⟨h, Unmoved.refl s⟩
      · rename_i r hfind
        cases hstep
        exact ⟨h.setProcess (fits_decideNext hfind), (Unmoved.refl s).setProcess _⟩
    · cases hstep
  | load i =>
    simp only [step] at hstep
    split at hstep
    · rename_i r hi
      obtain ⟨row, hrow, rfl⟩ := Option.map_eq_some_iff.1 hstep
      have hfits := h.fits i
      rw [hi] at hfits
      have hstatus : s.status r.id = some .suggested → row.status = .suggested := by
        intro hs
        rw [State.status, hrow] at hs
        exact Option.some.inj hs
      exact ⟨h.setProcess ⟨hfits.1, hfits.2, hstatus⟩, (Unmoved.refl s).setProcess _⟩
    · cases hstep
  | crash i =>
    cases hstep
    exact ⟨h.setProcess trivial, (Unmoved.refl s).setProcess _⟩

/-- What one step can do: a decision is saved, an approval is carried out, or nothing that counts
happens. -/
theorem step_cases {a : Action ι} (h : Sound s) (hstep : step s a = some t) :
    Sound t ∧ (Unmoved s t ∨
      (∃ i c, a = .save i c ∧ c.Took ∧ ∃ r ∈ (s.processes i).decision,
        t.decided = r.id :: s.decided ∧ t.approvals = s.approvals ∧
          (∃ status, s.status r.id = some status) ∧
          (s.status r.id = some .suggested → t.status r.id = some r.status) ∧
          ∀ x, x ≠ r.id → t.status x = s.status x) ∨
      ∃ i c now, a = .approveReallocation i c now ∧ c.Took ∧ ∃ r ∈ (s.processes i).execution,
        (s.approval r).isSome ∧ t.decided = s.decided ∧ t.approvals = r.id :: s.approvals ∧
          ∀ x, t.status x = s.status x) := by
  by_cases hsave : ∃ i c, a = .save i c
  · obtain ⟨i, c, rfl⟩ := hsave
    obtain ⟨hsound, hno, hyes⟩ := step_save h hstep
    by_cases hc : c.Took
    · exact ⟨hsound, .inr (.inl ⟨i, c, rfl, hc, hyes hc⟩)⟩
    · exact ⟨hsound, .inl (hno hc)⟩
  · by_cases happrove : ∃ i c now, a = .approveReallocation i c now
    · obtain ⟨i, c, now, rfl⟩ := happrove
      obtain ⟨r, hr, hsound, hno, hyes⟩ := step_approveReallocation h hstep
      by_cases hc : c.Took
      · cases hactions : s.approval r with
        | none => exact ⟨hsound, .inl (hno (.inr hactions))⟩
        | some actions =>
          have hsome : (s.approval r).isSome := Option.isSome_iff_exists.2 ⟨_, hactions⟩
          exact ⟨hsound, .inr (.inr ⟨i, c, now, rfl, hc, r, hr, hsome, hyes hc hsome⟩)⟩
      · exact ⟨hsound, .inl (hno (.inl hc))⟩
    · obtain ⟨hsound, hunmoved⟩ := step_other h hstep (fun i c ha => hsave ⟨i, c, ha⟩)
        fun i c now ha => happrove ⟨i, c, now, ha⟩
      exact ⟨hsound, .inl hunmoved⟩

end Steps

variable {as : List (Action ι)}

theorem sound_exec {t : State ι} (ht : exec step State.init as = some t) :
    Sound t :=
  exec_keeps Sound (fun _ _ _ h hstep => (step_cases h hstep).1) sound_init ht

/-! ## What holds in every run -/

/-- The owning module carries out at most one approval for a recommendation. -/
theorem approvals_nodup {t : State ι} (ht : exec step State.init as = some t) : t.approvals.Nodup :=
  (sound_exec ht).once

/-- A recommendation that may only suggest is never executed. -/
theorem not_approved_of_suggestOnly {t : State ι} (ht : exec step State.init as = some t) {x : ℕ}
    (hx : t.level x = some .suggestOnly) :
    x ∉ t.approvals :=
  (sound_exec ht).not_approved hx

/-- A recommendation that has left its status `suggested` never takes it again. -/
theorem not_suggested_again {s t : State ι} (h : Sound s) (ht : exec step s as = some t) {x : ℕ}
    {status : AiRecommendationStatus} (hs : s.status x = some status) (hne : status ≠ .suggested) :
    t.status x ≠ some .suggested := by
  have hkeep : Sound t ∧ x ∈ t.decided := by
    refine exec_keeps (fun s => Sound s ∧ x ∈ s.decided) ?_ ⟨h, (h.decided x).2 ⟨_, hs, hne⟩⟩ ht
    rintro s a t ⟨h, hx⟩ hstep
    obtain ⟨hsound, hcases⟩ := step_cases h hstep
    refine ⟨hsound, ?_⟩
    obtain hsame | ⟨_, _, _, _, r, _, hdecided, _⟩ | ⟨_, _, _, _, _, r, _, _, hdecided, _⟩ := hcases
    · rwa [hsame.decided]
    · rw [hdecided]
      exact mem_cons_of_mem _ hx
    · rwa [hdecided]
  obtain ⟨left, hleft, hne'⟩ := (hkeep.1.decided x).1 hkeep.2
  rw [hleft]
  exact fun heq => hne' (Option.some.inj heq)

/-- **In every run**, however its calls overlap, fail and lose their answers: the owning module
carries out at most one approval for a recommendation, and none for one that may only suggest; and
one that has left its status `suggested` never takes it again. -/
theorem recommendations_settle {s t : State ι} {as bs : List (Action ι)}
    (hs : exec step State.init as = some s) (ht : exec step s bs = some t) :
    t.approvals.Nodup ∧ (∀ x, t.level x = some .suggestOnly → x ∉ t.approvals) ∧
      ∀ x status, s.status x = some status → status ≠ .suggested →
        t.status x ≠ some .suggested := by
  have hrun := exec_append_eq_some.2 ⟨s, hs, ht⟩
  exact ⟨approvals_nodup hrun, fun x => not_approved_of_suggestOnly hrun,
    fun x status => not_suggested_again (sound_exec hs) ht⟩

/-! ## When a recommendation is decided once -/

section Decided

variable {s t : State ι} {x : ℕ} {a : Action ι}

omit [DecidableEq ι] in
theorem decidedOnce_iff_of_sound (h : Sound s) :
    DecidedOnce x s ↔
      s.decided.count x ≤ 1 ∧ (s.status x = some .rejected → x ∉ s.approvals) :=
  ⟨fun hx => ⟨hx.decided, hx.rejected⟩, fun hx =>
    ⟨hx.1, nodup_iff_count_le_one.1 h.once x, hx.2, h.not_approved⟩⟩

theorem decidedOnce_step (h : Sound s) (hx : DecidedOnce x s) (hok : Undisputed x s a)
    (hstep : step s a = some t) : DecidedOnce x t := by
  obtain ⟨hsound, hcases⟩ := step_cases h hstep
  rw [decidedOnce_iff_of_sound hsound]
  obtain hsame | ⟨i, c, rfl, hc, r, hr, hdecided, happrovals, -, hleft, hothers⟩ |
    ⟨i, c, now, rfl, hc, r, hr, hsome, hdecided, happrovals, hstatus⟩ := hcases
  · rw [hsame.decided, hsame.approvals]
    exact ⟨hx.decided, fun hrejected => hx.rejected (hsame.rejected x hrejected)⟩
  · rw [hdecided, happrovals]
    by_cases hid : r.id = x
    · obtain ⟨hsuggested, hrejected⟩ := hok hc r hr hid
      subst hid
      have hopen : r.id ∉ s.decided := by
        rw [h.decided]
        rintro ⟨status, hs, hne⟩
        exact hne (Option.some.inj (hs.symm.trans hsuggested))
      refine ⟨by simp [count_eq_zero_of_not_mem hopen], fun hs => hrejected ?_⟩
      exact Option.some.inj ((hleft hsuggested).symm.trans hs)
    · rw [count_cons_of_ne hid, hothers x fun hxr => hid hxr.symm]
      exact ⟨hx.decided, hx.rejected⟩
  · rw [hdecided, happrovals, hstatus]
    refine ⟨hx.decided, fun hs => ?_⟩
    rw [mem_cons, not_or]
    refine ⟨fun hid => hok hc r hr hid.symm hsome hs, hx.rejected hs⟩

/-- A step that somebody gets in the way of leaves the recommendation decided twice, or executed
though rejected. -/
theorem not_decidedOnce_step (h : Sound s) (hno : ¬ Undisputed x s a) (hstep : step s a = some t) :
    ¬ DecidedOnce x t := by
  intro hx
  apply hno
  cases a with
  | save i c =>
    rintro hc r hr rfl
    obtain ⟨-, -, hyes⟩ := step_save h hstep
    obtain ⟨r', hr', hdecided, happrovals, ⟨status, hstatus⟩, hleft, -⟩ := hyes hc
    obtain rfl := Option.mem_unique hr hr'
    have hsuggested : status = .suggested := by
      by_contra hne
      have hmem : r.id ∈ s.decided := (h.decided r.id).2 ⟨status, hstatus, hne⟩
      have hcount := hx.decided
      rw [hdecided, count_cons_self] at hcount
      have hpos : 0 < s.decided.count r.id := count_pos_iff.2 hmem
      omega
    subst hsuggested
    refine ⟨hstatus, fun hrejected => ?_⟩
    rw [← happrovals]
    exact hx.rejected ((hleft hstatus).trans (congrArg some hrejected))
  | approveReallocation i c now =>
    rintro hc r hr rfl hsome hrejected
    obtain ⟨r', hr', -, -, hyes⟩ := step_approveReallocation h hstep
    obtain rfl := Option.mem_unique hr hr'
    obtain ⟨-, happrovals, hstatus⟩ := hyes hc hsome
    have hfree := hx.rejected ((hstatus r.id).trans hrejected)
    rw [happrovals] at hfree
    exact hfree mem_cons_self
  | _ => trivial

/-- A recommendation is decided and executed once, in all states of a run, exactly when nobody gets
in the way of its decisions and executions. -/
theorem decidedOnce_iff (x : ℕ) {as : List (Action ι)} {t : State ι}
    (ht : exec step State.init as = some t) :
    Always step (DecidedOnce x) State.init as ↔ Meets step (Undisputed x) State.init as :=
  always_iff_meets (I := fun s => Sound s ∧ DecidedOnce x s) (fun _ h => h.2)
    (fun _ _ _ h hok hstep =>
      ⟨(step_cases h.1 hstep).1, decidedOnce_step h.1 h.2 hok hstep⟩)
    (fun _ _ _ h hno hstep => not_decidedOnce_step h.1 hno hstep)
    ⟨sound_init, by simp [State.init], by simp [State.init], nofun, nofun⟩ ht

end Decided

/-- An interaction that recommends the reallocation `r`. -/
def rationale : AiInteraction where
  id := 5
  tenantId := 1
  interactionType := .reallocationRationale
  inputContext := .obj [("reallocationActionId", .str "r")]
  outputText := some "Queue B is short of two agents."
  confidenceIndicator := none
  degradedMode := false

/-- A recommendation 1 is created under a policy that requires approval. -/
def created : List (Action Bool) :=
  [.edit [rationale] [⟨1, "default", .approveRequired, .obj []⟩], .suggest "r" 1,
    .createFromInteraction false 1 5, .resolve false, .resolve false, .insert false 1 .ok]

/-- One call approves it while another one approves it as well, and is refused; a third one comes
too late. -/
def reviewed : List (Action Bool) :=
  created ++ [.decideRecommendation false 1 (some 7) 1 .approved 10,
    .decideRecommendation true 1 (some 8) 1 .approved 11, .approveReallocation false .ok 12,
    .approveReallocation true .ok 13, .load false, .save false .ok,
    .decideRecommendation true 1 (some 8) 1 .rejected 14]

theorem reviewed_decidedOnce :
    (∃ t, exec step State.init reviewed = some t ∧ t.status 1 = some .approved ∧
      t.approvals = [1]) ∧ Always step (DecidedOnce 1) State.init reviewed := by
  have hrun : ∃ t, exec step State.init reviewed = some t ∧ t.status 1 = some .approved ∧
      t.approvals = [1] := exists_exec (by decide +kernel)
  obtain ⟨t, ht, hleft⟩ := hrun
  exact ⟨⟨t, ht, hleft⟩, (decidedOnce_iff 1 ht).2 (by decide +kernel)⟩

theorem reviewed_settles : ∃ s t, exec step State.init created = some s ∧
    exec step State.init reviewed = some t ∧ t.approvals.Nodup ∧ t.status 1 = some .approved := by
  obtain ⟨t, ht, hstatus⟩ : ∃ t, exec step State.init reviewed = some t ∧
      t.status 1 = some .approved := exists_exec (by decide +kernel)
  obtain ⟨s, hs, hrest⟩ := exec_append_eq_some.1 ht
  exact ⟨s, t, hs, ht, (recommendations_settle hs hrest).1, hstatus⟩

/-- One call approves the recommendation, another one rejects it. -/
def crossed : List (Action Bool) :=
  created ++ [.decideRecommendation false 1 (some 7) 1 .approved 10,
    .decideRecommendation true 1 (some 8) 1 .rejected 11, .approveReallocation false .ok 12,
    .load false, .save false .ok, .load true, .save true .ok]

/-- The owning module's answer to the approval is lost, and the recommendation is then rejected. -/
def unanswered : List (Action Bool) :=
  created ++ [.decideRecommendation false 1 (some 7) 1 .approved 10,
    .approveReallocation false (.lost "fetch failed") 12,
    .decideRecommendation false 1 (some 7) 1 .rejected 13, .load false, .save false .ok]

/-- A recommendation may be decided twice, and end rejected though it was executed. -/
theorem crossed_rejected :
    (∃ t, exec step State.init crossed = some t ∧ t.decided = [1, 1] ∧
      t.status 1 = some .rejected ∧ 1 ∈ t.approvals) ∧
      ∃ t, exec step State.init unanswered = some t ∧ t.status 1 = some .rejected ∧
        1 ∈ t.approvals :=
  ⟨exists_exec (by decide +kernel), exists_exec (by decide +kernel)⟩

end Workforce.Recommendations
