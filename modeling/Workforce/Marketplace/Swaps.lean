import Workforce.Marketplace.Claims

/-!
# Shift swaps

`SwapRequestService` (`proposeSwap`, `reject`, `processAccept`) and the swap half of
`ApproveMarketplaceActionService` (`approveSwap`, `rejectSwap`), as interleaved calls over the
tables `swap_request` and `marketplace_outbox_event`. A transaction is a read step followed by a
write step, as in `Workforce.Marketplace.Claims`.

Two kinds of write decide a swap. `processAccept` ends in an `UPDATE` that is guarded by
`status = 'pending'` on the row it locks. The other paths save the entity they loaded, whatever
the row has become.
-/

namespace Workforce.Marketplace

open Tables

/-! ## The tables -/

/-- `SwapRequestStatus`. -/
inductive SwapRequestStatus
  | pending | pendingApproval | accepted | rejected | cancelled | superseded
  deriving DecidableEq

/-- The `validation_result` column of a swap. -/
structure SwapValidationResult where
  eligible : Bool
  reason : Option String
  initiatorViolations : Option (List Violation)
  responderViolations : Option (List Violation)

structure SwapRequest where
  id : ℕ
  tenantId : ℕ
  initiatorEmployeeId : ℕ
  initiatorShiftId : ℕ
  initiatorOrgUnitId : ℕ
  targetEmployeeId : Option ℕ
  targetShiftId : Option ℕ
  targetOrgUnitId : Option ℕ
  status : SwapRequestStatus
  requiresSupervisorApproval : Bool
  validationResult : Option SwapValidationResult
  decisionReason : Option String

/-- `SwapExecutedEvent`, as written to the outbox. -/
structure SwapExecutedEvent where
  tenantId : ℕ
  swapRequestId : ℕ
  initiatorEmployeeId : ℕ
  initiatorShiftId : ℕ
  targetEmployeeId : Option ℕ
  targetShiftId : Option ℕ
  approvedBy : Option ℕ

structure SwapDb where
  swaps : List SwapRequest
  outbox : List SwapExecutedEvent

/-- `ProposeSwapInput`. -/
structure ProposeSwapInput where
  tenantId : ℕ
  initiatorEmployeeId : ℕ
  initiatorShiftId : ℕ
  initiatorOrgUnitId : ℕ
  targetEmployeeId : Option ℕ
  targetShiftId : Option ℕ
  targetOrgUnitId : Option ℕ

/-- `RespondToSwapInput`, less the flag that selects the method. -/
structure RespondToSwapInput where
  tenantId : ℕ
  swapRequestId : ℕ
  respondingEmployeeId : ℕ
  offeredShiftId : Option ℕ
  offeredOrgUnitId : Option ℕ

inductive SwapError
  | swapRequestNotFound (swapRequestId : ℕ)
  | swapRequestNotPending (swapRequestId : ℕ) (status : SwapRequestStatus)
  | notYourSwapToRespondTo (swapRequestId : ℕ)
  | swapOfferedShiftRequired (swapRequestId : ℕ)
  | swapAlreadyBeingRespondedTo (swapRequestId : ℕ)
  | actionNotPendingApproval (swapRequestId : ℕ) (status : SwapRequestStatus)

namespace SwapDb

/-- `findOne(SwapRequest, { id, tenantId })`. -/
def findSwap (db : SwapDb) (tenantId swapRequestId : ℕ) : Option SwapRequest :=
  db.swaps.find? fun s => s.id = swapRequestId ∧ s.tenantId = tenantId

/-- `manager.save(swap)` of a loaded row: every column in which the row differs from the loaded
entity is written back, by id. -/
def saveSwap (db : SwapDb) (swap : SwapRequest) : SwapDb :=
  { db with swaps := modify (·.id) swap.id (fun row => { row with
      targetEmployeeId := swap.targetEmployeeId
      targetShiftId := swap.targetShiftId
      targetOrgUnitId := swap.targetOrgUnitId
      status := swap.status
      validationResult := swap.validationResult
      decisionReason := swap.decisionReason }) db.swaps }

/-- `recordSwapExecuted`: the outbox row, written in the caller's transaction. -/
def recordSwapExecuted (db : SwapDb) (swap : SwapRequest) (approvedBy : Option ℕ) : SwapDb :=
  { db with outbox := db.outbox ++ [{
      tenantId := swap.tenantId
      swapRequestId := swap.id
      initiatorEmployeeId := swap.initiatorEmployeeId
      initiatorShiftId := swap.initiatorShiftId
      targetEmployeeId := swap.targetEmployeeId
      targetShiftId := swap.targetShiftId
      approvedBy }] }

end SwapDb

open SwapDb

/-! ## The transactions -/

/-- The row `proposeSwap` inserts. -/
def newSwap (id : ℕ) (input : ProposeSwapInput) : SwapRequest :=
  { id, tenantId := input.tenantId, initiatorEmployeeId := input.initiatorEmployeeId
    initiatorShiftId := input.initiatorShiftId, initiatorOrgUnitId := input.initiatorOrgUnitId
    targetEmployeeId := input.targetEmployeeId, targetShiftId := input.targetShiftId
    targetOrgUnitId := input.targetOrgUnitId, status := .pending
    requiresSupervisorApproval := true, validationResult := none, decisionReason := none }

/-- `proposeSwap`; `none` when the generated id is taken. -/
def proposeSwap (db : SwapDb) (id : ℕ) (input : ProposeSwapInput) : Option SwapDb :=
  if db.swaps.any (fun s => s.id = id) then none
  else some { db with swaps := db.swaps ++ [newSwap id input] }

/-- `reject`, the read and its checks. -/
def rejectCheck (db : SwapDb) (tenantId swapRequestId respondingEmployeeId : ℕ) :
    Except SwapError SwapRequest :=
  match db.findSwap tenantId swapRequestId with
  | none => .error (.swapRequestNotFound swapRequestId)
  | some swap =>
    if swap.status ≠ .pending then .error (.swapRequestNotPending swapRequestId swap.status)
    else if swap.targetEmployeeId ≠ some respondingEmployeeId then
      .error (.notYourSwapToRespondTo swapRequestId)
    else .ok swap

/-- `reject`, the write. -/
def rejectPending (db : SwapDb) (swap : SwapRequest) : SwapDb :=
  db.saveSwap { swap with status := .rejected }

/-- `processAccept`, first transaction, the read and its checks: the loaded swap with what it is
to be resolved to. -/
def acceptCheck (db : SwapDb) (input : RespondToSwapInput) : Except SwapError SwapRequest :=
  match db.findSwap input.tenantId input.swapRequestId with
  | none => .error (.swapRequestNotFound input.swapRequestId)
  | some swap =>
    if swap.status ≠ .pending then .error (.swapRequestNotPending input.swapRequestId swap.status)
    else if swap.targetEmployeeId ≠ none ∧
        swap.targetEmployeeId ≠ some input.respondingEmployeeId then
      .error (.notYourSwapToRespondTo input.swapRequestId)
    else
      match swap.targetShiftId <|> input.offeredShiftId,
          swap.targetOrgUnitId <|> input.offeredOrgUnitId with
      | some targetShiftId, some targetOrgUnitId =>
        .ok { swap with
          targetEmployeeId := some input.respondingEmployeeId
          targetShiftId := some targetShiftId
          targetOrgUnitId := some targetOrgUnitId }
      | _, _ => .error (.swapOfferedShiftRequired input.swapRequestId)

/-- The row a guarded `UPDATE` of the swap locks, if its guard holds there. -/
def lockPending (db : SwapDb) (swap : SwapRequest) (guard : SwapRequest → Bool) :
    Except SwapError SwapRequest :=
  match db.findSwap swap.tenantId swap.id with
  | none => .error (.swapAlreadyBeingRespondedTo swap.id)
  | some row =>
    if row.status = .pending ∧ guard row then .ok row
    else .error (.swapAlreadyBeingRespondedTo swap.id)

/-- `processAccept`, first transaction, the guarded `UPDATE` of the target. -/
def acceptResolve (db : SwapDb) (swap : SwapRequest) : Except SwapError SwapDb := do
  let row ← lockPending db swap fun row =>
    row.targetEmployeeId = none ∨ row.targetEmployeeId = swap.targetEmployeeId
  return db.saveSwap { row with
    targetEmployeeId := swap.targetEmployeeId
    targetShiftId := swap.targetShiftId
    targetOrgUnitId := swap.targetOrgUnitId }

/-- `findOneOrFail` at the start of the last transaction. -/
def reloadSwap (db : SwapDb) (swap : SwapRequest) : Option SwapRequest :=
  db.findSwap swap.tenantId swap.id

/-- `processAccept`, when a guardrail check throws. -/
def acceptUnavailable (db : SwapDb) (failedSwap : SwapRequest) : SwapDb :=
  db.saveSwap { failedSwap with
    status := .rejected
    validationResult := some ⟨false, some "guardrail_validation_unavailable", none, none⟩ }

/-- Both sides of the trade are eligible. -/
def bothEligible (initiatorSide responderSide : EligibilityResult) : Bool :=
  initiatorSide.shiftAssignmentFound && initiatorSide.eligible &&
    responderSide.shiftAssignmentFound && responderSide.eligible

/-- What `processAccept` decides. -/
def nextStatus (eligible autoApprovalEnabled : Bool) (finalSwap : SwapRequest) :
    SwapRequestStatus :=
  if !eligible then .rejected
  else if autoApprovalEnabled || !finalSwap.requiresSupervisorApproval then .accepted
  else .pendingApproval

/-- The violations of one side; a shift that is gone is reported as stale. -/
def sideViolations (side : EligibilityResult) (detail : String) : List Violation :=
  if side.shiftAssignmentFound then side.violations else [⟨"stale_shift", detail⟩]

/-- `processAccept`, last transaction: the guarded decision, and the event of an executed swap. -/
def acceptDecide (db : SwapDb) (finalSwap : SwapRequest)
    (initiatorSide responderSide : EligibilityResult) (autoApprovalEnabled : Bool) :
    Except SwapError SwapDb := do
  let eligible := bothEligible initiatorSide responderSide
  let status := nextStatus eligible autoApprovalEnabled finalSwap
  let validationResult : SwapValidationResult :=
    ⟨eligible, none,
      some (sideViolations initiatorSide "the target shift no longer resolves"),
      some (sideViolations responderSide "the initiator shift no longer resolves")⟩
  let row ← lockPending db finalSwap fun _ => true
  let db := db.saveSwap { row with status, validationResult := some validationResult }
  return if status = .accepted then db.recordSwapExecuted finalSwap none else db

/-- The read and check shared by `approveSwap` and `rejectSwap`. -/
def swapDecisionCheck (db : SwapDb) (tenantId swapRequestId : ℕ) :
    Except SwapError SwapRequest :=
  match db.findSwap tenantId swapRequestId with
  | none => .error (.swapRequestNotFound swapRequestId)
  | some swap =>
    if swap.status ≠ .pendingApproval then
      .error (.actionNotPendingApproval swapRequestId swap.status)
    else .ok swap

/-- `approveSwap`, the writes. -/
def approveSwap (db : SwapDb) (swap : SwapRequest) (approverId : ℕ) : SwapDb :=
  let swap := { swap with status := .accepted }
  (db.saveSwap swap).recordSwapExecuted swap (some approverId)

/-- `rejectSwap`, the write. -/
def rejectSwap (db : SwapDb) (swap : SwapRequest) (reason : String) : SwapDb :=
  db.saveSwap { swap with status := .rejected, decisionReason := some reason }

/-! ## Interleaved calls -/

/-- Where a call on a swap stands, with the row it has loaded. -/
inductive SwapCall
  | idle
  /-- `reject` passed its checks. -/
  | rejecting (swap : SwapRequest)
  /-- `processAccept` passed its checks. -/
  | resolving (swap : SwapRequest)
  /-- `processAccept` committed the target and waits for both guardrail checks. -/
  | validating (swap : SwapRequest)
  /-- A guardrail check threw; the swap is loaded again. -/
  | failing (failedSwap : SwapRequest)
  /-- Both checks answered; the swap is loaded again. -/
  | deciding (finalSwap : SwapRequest) (initiatorSide responderSide : EligibilityResult)
  /-- `approveSwap` found the swap pending approval. -/
  | approving (swap : SwapRequest) (approverId : ℕ)
  /-- `rejectSwap` found the swap pending approval. -/
  | disapproving (swap : SwapRequest) (reason : String)

structure SwapState where
  db : SwapDb
  calls : ℕ → SwapCall

namespace SwapState

def setCall (s : SwapState) (p : ℕ) (c : SwapCall) : SwapState :=
  { s with calls := fun q => if q = p then c else s.calls q }

def finish (s : SwapState) (p : ℕ) (db : SwapDb) : SwapState :=
  { s with db }.setCall p .idle

end SwapState

/-- The steps of the calls; `p` names the call. -/
inductive SwapAction
  | propose (id : ℕ) (input : ProposeSwapInput)
  | rejectRead (p tenantId swapRequestId respondingEmployeeId : ℕ)
  | rejectWrite (p : ℕ)
  | acceptRead (p : ℕ) (input : RespondToSwapInput)
  | acceptResolve (p : ℕ)
  /-- The guardrail checks end; `none`: one of them threw. -/
  | validated (p : ℕ) (sides : Option (EligibilityResult × EligibilityResult))
  | failWrite (p : ℕ)
  | decideWrite (p : ℕ) (autoApprovalEnabled : Bool)
  | approveRead (p tenantId swapRequestId approverId : ℕ)
  | approveWrite (p : ℕ)
  | disapproveRead (p tenantId swapRequestId : ℕ) (reason : String)
  | disapproveWrite (p : ℕ)
  | abandon (p : ℕ)

/-- One step; `none` when the call is not there or throws, which changes nothing. -/
def swapStep (s : SwapState) : SwapAction → Option SwapState
  | .propose id input => (proposeSwap s.db id input).map fun db => { s with db }
  | .rejectRead p tenantId id responding =>
    match s.calls p, rejectCheck s.db tenantId id responding with
    | .idle, .ok swap => some (s.setCall p (.rejecting swap))
    | _, _ => none
  | .rejectWrite p =>
    match s.calls p with
    | .rejecting swap => some (s.finish p (rejectPending s.db swap))
    | _ => none
  | .acceptRead p input =>
    match s.calls p, acceptCheck s.db input with
    | .idle, .ok swap => some (s.setCall p (.resolving swap))
    | _, _ => none
  | .acceptResolve p =>
    match s.calls p with
    | .resolving swap =>
      (acceptResolve s.db swap).toOption.map fun db => { s with db }.setCall p (.validating swap)
    | _ => none
  | .validated p sides =>
    match s.calls p with
    | .validating swap =>
      match reloadSwap s.db swap, sides with
      | some failedSwap, none => some (s.setCall p (.failing failedSwap))
      | some finalSwap, some (initiatorSide, responderSide) =>
        some (s.setCall p (.deciding finalSwap initiatorSide responderSide))
      | none, _ => none
    | _ => none
  | .failWrite p =>
    match s.calls p with
    | .failing failedSwap => some (s.finish p (acceptUnavailable s.db failedSwap))
    | _ => none
  | .decideWrite p autoApprovalEnabled =>
    match s.calls p with
    | .deciding finalSwap initiatorSide responderSide =>
      (acceptDecide s.db finalSwap initiatorSide responderSide autoApprovalEnabled).toOption.map
        (s.finish p)
    | _ => none
  | .approveRead p tenantId id approverId =>
    match s.calls p, swapDecisionCheck s.db tenantId id with
    | .idle, .ok swap => some (s.setCall p (.approving swap approverId))
    | _, _ => none
  | .approveWrite p =>
    match s.calls p with
    | .approving swap approverId => some (s.finish p (approveSwap s.db swap approverId))
    | _ => none
  | .disapproveRead p tenantId id reason =>
    match s.calls p, swapDecisionCheck s.db tenantId id with
    | .idle, .ok swap => some (s.setCall p (.disapproving swap reason))
    | _, _ => none
  | .disapproveWrite p =>
    match s.calls p with
    | .disapproving swap reason => some (s.finish p (rejectSwap s.db swap reason))
    | _ => none
  | .abandon p => some (s.setCall p .idle)

/-- The start: no swap, no event, no call. -/
structure SwapInit (s : SwapState) : Prop where
  swaps : s.db.swaps = []
  outbox : s.db.outbox = []
  calls : ∀ p, s.calls p = .idle

end Workforce.Marketplace
