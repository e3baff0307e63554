import Workforce.Foundations.Runs
import Workforce.Foundations.Tables

/-!
# Marketplace posts, claims and the calls that compete for them

The claim side of the shift marketplace: `ClaimOpenShiftService.processClaim`,
`BidService.convertWinningBidToClaim` and `ApproveMarketplaceActionService.approveClaim` and
`rejectClaim`, over the tables `marketplace_post`, `marketplace_claim` and
`marketplace_outbox_event`.

Each service call is a sequence of transactions under READ COMMITTED, and calls interleave. A
transaction's reads see what is committed when they run, so a status check is a step of its own
(`claimRead`, `bidRead`, `approveRead`, `rejectRead`). Its writes take the row locks and become
visible together at the commit, a conditional `UPDATE` being evaluated on the row it locks, so
the writes of one transaction are one step. Between two steps of a call any other call may move.
The Redis lock is left out: it may be lost, and then restrains nothing.
-/

namespace Workforce.Marketplace

open Tables

/-! ## The tables -/

/-- `MarketplacePostStatus`. -/
inductive MarketplacePostStatus
  | open_ | claimed | expired | cancelled
  deriving DecidableEq

/-- `MarketplaceClaimStatus`. -/
inductive MarketplaceClaimStatus
  | pendingValidation | pendingApproval | approved | rejected | superseded
  deriving DecidableEq

/-- `MarketplaceClaimSource`. -/
inductive MarketplaceClaimSource
  | openShiftClaim | bid
  deriving DecidableEq

namespace MarketplaceClaimStatus

/-- The statuses of the partial unique index `uq_marketplace_claim_one_live_per_post`. -/
def indexed : MarketplaceClaimStatus → Bool
  | pendingValidation | pendingApproval | approved => true
  | rejected | superseded => false

/-- The claim holds its post: it waits for approval or has it. -/
def live : MarketplaceClaimStatus → Bool
  | pendingApproval | approved => true
  | pendingValidation | rejected | superseded => false

theorem indexed_of_live {st : MarketplaceClaimStatus} (h : st.live = true) :
    st.indexed = true := by
  cases st <;> first | rfl | cases h

end MarketplaceClaimStatus

structure MarketplacePost where
  id : ℕ
  tenantId : ℕ
  shiftAssignmentId : ℕ
  orgUnitId : ℕ
  status : MarketplacePostStatus
  deriving DecidableEq

/-- One violation of the guardrail check. -/
structure Violation where
  category : String
  detail : String
  deriving DecidableEq

/-- The `validation_result` column. -/
structure ValidationResult where
  eligible : Bool
  reason : Option String
  violations : Option (List Violation)
  deriving DecidableEq

structure MarketplaceClaim where
  id : ℕ
  tenantId : ℕ
  marketplacePostId : ℕ
  claimantEmployeeId : ℕ
  status : MarketplaceClaimStatus
  source : MarketplaceClaimSource
  validationResult : Option ValidationResult
  decisionReason : Option String
  deriving DecidableEq

/-- `ClaimApprovedEvent`, as written to the outbox; `approvedBy = none` is an automatic approval. -/
structure ClaimApprovedEvent where
  tenantId : ℕ
  marketplaceClaimId : ℕ
  marketplacePostId : ℕ
  shiftAssignmentId : ℕ
  claimantEmployeeId : ℕ
  approvedBy : Option ℕ
  source : MarketplaceClaimSource

structure ClaimDb where
  posts : List MarketplacePost
  claims : List MarketplaceClaim
  outbox : List ClaimApprovedEvent

/-- What the calls throw. -/
inductive MarketplaceError
  | postNotFound (postId : ℕ)
  | postNotOpen (postId : ℕ) (status : MarketplacePostStatus)
  | postAlreadyBeingClaimed (postId : ℕ)
  | claimNotFound (claimId : ℕ)
  | actionNotPendingApproval (claimId : ℕ) (status : MarketplaceClaimStatus)
  | uniqueViolation

/-- What `GuardrailValidationService.checkEligibility` answers. -/
structure EligibilityResult where
  shiftAssignmentFound : Bool
  eligible : Bool
  violations : List Violation

namespace ClaimDb

/-- `findOne(MarketplacePost, { id, tenantId })`. -/
def findPost (db : ClaimDb) (tenantId postId : ℕ) : Option MarketplacePost :=
  db.posts.find? fun p => p.id = postId ∧ p.tenantId = tenantId

/-- `findOne(MarketplaceClaim, { id, tenantId })`. -/
def findClaim (db : ClaimDb) (tenantId claimId : ℕ) : Option MarketplaceClaim :=
  db.claims.find? fun c => c.id = claimId ∧ c.tenantId = tenantId

/-- The partial unique index refuses a claim on `postId` with an indexed status: another claim
than `claimId` has one. -/
def indexConflict (db : ClaimDb) (postId claimId : ℕ) : Bool :=
  db.claims.any fun c => c.marketplacePostId = postId ∧ c.id ≠ claimId ∧ c.status.indexed

/-- `INSERT` of a claim: the primary key and the partial unique index must allow it. -/
def insertClaim (db : ClaimDb) (claim : MarketplaceClaim) : Except MarketplaceError ClaimDb :=
  if db.claims.any (fun c => c.id = claim.id) then .error .uniqueViolation
  else if claim.status.indexed && db.indexConflict claim.marketplacePostId claim.id then
    .error .uniqueViolation
  else .ok { db with claims := db.claims ++ [claim] }

/-- `manager.save(claim)` of a loaded row: an `UPDATE … WHERE id` of the columns the services
change, whatever the row holds by then. The partial unique index is checked again. -/
def saveClaim (db : ClaimDb) (claim : MarketplaceClaim) : Except MarketplaceError ClaimDb :=
  if claim.status.indexed && db.indexConflict claim.marketplacePostId claim.id then
    .error .uniqueViolation
  else
    .ok { db with
      claims := modify (·.id) claim.id (fun row => { row with
        status := claim.status
        validationResult := claim.validationResult
        decisionReason := claim.decisionReason }) db.claims }

/-- `UPDATE marketplace_post SET status = … WHERE id = …`. -/
def setPostStatus (db : ClaimDb) (postId : ℕ) (status : MarketplacePostStatus) : ClaimDb :=
  { db with posts := modify (·.id) postId (fun p => { p with status }) db.posts }

/-- `recordClaimApproved`: the outbox row, written in the caller's transaction. -/
def recordClaimApproved (db : ClaimDb) (claim : MarketplaceClaim) (post : MarketplacePost)
    (approvedBy : Option ℕ) : ClaimDb :=
  { db with outbox := db.outbox ++ [{
      tenantId := claim.tenantId
      marketplaceClaimId := claim.id
      marketplacePostId := post.id
      shiftAssignmentId := post.shiftAssignmentId
      claimantEmployeeId := claim.claimantEmployeeId
      approvedBy
      source := claim.source }] }

end ClaimDb

/-! ## The transactions -/

open ClaimDb

/-- `processClaim`, first transaction, the read: the post exists and is open. -/
def claimCheck (db : ClaimDb) (tenantId postId : ℕ) : Except MarketplaceError MarketplacePost :=
  match db.findPost tenantId postId with
  | none => .error (.postNotFound postId)
  | some post =>
    if post.status ≠ .open_ then .error (.postNotOpen postId post.status) else .ok post

/-- The claim `processClaim` inserts. -/
def newOpenShiftClaim (id : ℕ) (post : MarketplacePost) (claimantEmployeeId : ℕ) :
    MarketplaceClaim :=
  { id, tenantId := post.tenantId, marketplacePostId := post.id, claimantEmployeeId
    status := .pendingValidation, source := .openShiftClaim, validationResult := none
    decisionReason := none }

/-- `processClaim`, first transaction, the insert; a unique violation is reported as the post
being claimed already. -/
def claimInsert (db : ClaimDb) (claim : MarketplaceClaim) : Except MarketplaceError ClaimDb :=
  match db.insertClaim claim with
  | .error _ => .error (.postAlreadyBeingClaimed claim.marketplacePostId)
  | .ok db => .ok db

/-- `processClaim`, when the guardrail check throws: the claim is rejected, the post untouched. -/
def claimUnavailable (db : ClaimDb) (claim : MarketplaceClaim) : Except MarketplaceError ClaimDb :=
  db.saveClaim { claim with
    status := .rejected
    validationResult := some ⟨false, some "guardrail_validation_unavailable", none⟩ }

/-- `processClaim`, last transaction, on the guardrail's answer. -/
def claimFinalize (db : ClaimDb) (claim : MarketplaceClaim) (validation : EligibilityResult)
    (autoApproved : Bool) : Except MarketplaceError ClaimDb :=
  match db.findPost claim.tenantId claim.marketplacePostId with
  | none => .error (.postNotFound claim.marketplacePostId)
  | some post =>
    if !validation.shiftAssignmentFound then do
      let db ← db.saveClaim { claim with
        status := .rejected, validationResult := some ⟨false, some "stale_post", some []⟩ }
      return db.setPostStatus post.id .expired
    else if !validation.eligible then
      db.saveClaim { claim with
        status := .rejected, validationResult := some ⟨false, none, some validation.violations⟩ }
    -- the conditional `UPDATE … WHERE status = 'open'`
    else if post.status ≠ .open_ then
      db.saveClaim { claim with
        status := .rejected
        validationResult := some ⟨false, some "post_no_longer_open", some []⟩ }
    else do
      let claim := { claim with
        status := if autoApproved then .approved else .pendingApproval
        validationResult := some ⟨true, none, some []⟩ }
      let db ← (db.setPostStatus post.id .claimed).saveClaim claim
      return if autoApproved then db.recordClaimApproved claim post none else db

/-- The claim `convertWinningBidToClaim` inserts. -/
def newBidClaim (id : ℕ) (post : MarketplacePost) (winner : ℕ) (autoApproved : Bool) :
    MarketplaceClaim :=
  { id, tenantId := post.tenantId, marketplacePostId := post.id, claimantEmployeeId := winner
    status := if autoApproved then .approved else .pendingApproval
    source := .bid, validationResult := some ⟨true, none, some []⟩, decisionReason := none }

/-- `convertWinningBidToClaim`, last transaction. A unique violation converts nothing; neither
does a post that is no longer open, whose freshly inserted claim is deleted again. -/
def bidFinalize (db : ClaimDb) (id : ℕ) (post : MarketplacePost) (winner : ℕ)
    (autoApproved : Bool) : ClaimDb :=
  let claim := newBidClaim id post winner autoApproved
  match db.insertClaim claim with
  | .error _ => db
  | .ok inserted =>
    match db.findPost post.tenantId post.id with
    | some ⟨_, _, _, _, .open_⟩ =>
      let db := inserted.setPostStatus post.id .claimed
      if autoApproved then db.recordClaimApproved claim post none else db
    | _ => db

/-- The read and check shared by `approveClaim` and `rejectClaim`. -/
def decisionCheck (db : ClaimDb) (tenantId claimId : ℕ) :
    Except MarketplaceError MarketplaceClaim :=
  match db.findClaim tenantId claimId with
  | none => .error (.claimNotFound claimId)
  | some claim =>
    if claim.status ≠ .pendingApproval then .error (.actionNotPendingApproval claimId claim.status)
    else .ok claim

/-- `approveClaim`, the writes: the loaded claim is saved as approved and the event recorded. -/
def approveClaim (db : ClaimDb) (claim : MarketplaceClaim) (approverId : ℕ) :
    Except MarketplaceError ClaimDb := do
  let claim := { claim with status := .approved }
  let db ← db.saveClaim claim
  match db.findPost claim.tenantId claim.marketplacePostId with
  | none => .error (.postNotFound claim.marketplacePostId)
  | some post => return db.recordClaimApproved claim post (some approverId)

/-- `rejectClaim`, the write. The post is not touched. -/
def rejectClaim (db : ClaimDb) (claim : MarketplaceClaim) (reason : String) :
    Except MarketplaceError ClaimDb :=
  db.saveClaim { claim with status := .rejected, decisionReason := some reason }

/-! ## Interleaved calls -/

/-- Where a service call stands between two of its transactions, with the rows it has loaded. -/
inductive Call
  | idle
  /-- `processClaim` found the post open. -/
  | claiming (post : MarketplacePost) (claimantEmployeeId : ℕ)
  /-- `processClaim` committed its `pending_validation` claim and waits for the guardrail. -/
  | validating (claim : MarketplaceClaim)
  /-- `convertWinningBidToClaim` found the post open and waits for the guardrail. -/
  | converting (post : MarketplacePost) (winner : ℕ)
  /-- `approveClaim` found the claim pending. -/
  | approving (claim : MarketplaceClaim) (approverId : ℕ)
  /-- `rejectClaim` found the claim pending. -/
  | rejecting (claim : MarketplaceClaim) (reason : String)

/-- The committed tables and every call in flight. -/
structure ClaimState where
  db : ClaimDb
  calls : ℕ → Call

namespace ClaimState

/-- Call `p` moves to `c`. -/
def setCall (s : ClaimState) (p : ℕ) (c : Call) : ClaimState :=
  { s with calls := fun q => if q = p then c else s.calls q }

/-- Call `p` ends with the tables `db`. -/
def finish (s : ClaimState) (p : ℕ) (db : ClaimDb) : ClaimState :=
  { s with db }.setCall p .idle

end ClaimState

/-- The steps of the calls; `p` names the call. Generated ids, the guardrail's answer (`none`:
it was unavailable) and the tenant's auto-approval policy are inputs of the step. -/
inductive ClaimAction
  | claimRead (p tenantId postId claimantEmployeeId : ℕ)
  | claimInsert (p id : ℕ)
  | claimValidated (p : ℕ) (validation : Option EligibilityResult) (autoApproved : Bool)
  | bidRead (p tenantId postId winner : ℕ)
  | bidValidated (p id : ℕ) (validation : Option EligibilityResult) (autoApproved : Bool)
  | approveRead (p tenantId claimId approverId : ℕ)
  | approveWrite (p : ℕ)
  | rejectRead (p tenantId claimId : ℕ) (reason : String)
  | rejectWrite (p : ℕ)
  /-- The process dies, or the call throws before its next write. -/
  | abandon (p : ℕ)

/-- One step; `none` when the call is not there or throws, which changes nothing. -/
def claimStep (s : ClaimState) : ClaimAction → Option ClaimState
  | .claimRead p tenantId postId claimant =>
    match s.calls p, claimCheck s.db tenantId postId with
    | .idle, .ok post => some (s.setCall p (.claiming post claimant))
    | _, _ => none
  | .claimInsert p id =>
    match s.calls p with
    | .claiming post claimant =>
      let claim := newOpenShiftClaim id post claimant
      match claimInsert s.db claim with
      | .ok db => some ({ s with db }.setCall p (.validating claim))
      | .error _ => none
    | _ => none
  | .claimValidated p validation autoApproved =>
    match s.calls p with
    | .validating claim =>
      match validation with
      | none => (claimUnavailable s.db claim).toOption.map (s.finish p)
      | some v => (claimFinalize s.db claim v autoApproved).toOption.map (s.finish p)
    | _ => none
  | .bidRead p tenantId postId winner =>
    match s.calls p, claimCheck s.db tenantId postId with
    | .idle, .ok post => some (s.setCall p (.converting post winner))
    | _, _ => none
  | .bidValidated p id validation autoApproved =>
    match s.calls p with
    | .converting post winner =>
      match validation with
      | some ⟨true, true, _⟩ => some (s.finish p (bidFinalize s.db id post winner autoApproved))
      | _ => some (s.setCall p .idle)
    | _ => none
  | .approveRead p tenantId claimId approverId =>
    match s.calls p, decisionCheck s.db tenantId claimId with
    | .idle, .ok claim => some (s.setCall p (.approving claim approverId))
    | _, _ => none
  | .approveWrite p =>
    match s.calls p with
    | .approving claim approverId =>
      (approveClaim s.db claim approverId).toOption.map (s.finish p)
    | _ => none
  | .rejectRead p tenantId claimId reason =>
    match s.calls p, decisionCheck s.db tenantId claimId with
    | .idle, .ok claim => some (s.setCall p (.rejecting claim reason))
    | _, _ => none
  | .rejectWrite p =>
    match s.calls p with
    | .rejecting claim reason => (rejectClaim s.db claim reason).toOption.map (s.finish p)
    | _ => none
  | .abandon p => some (s.setCall p .idle)

/-- The start: posts with distinct ids, none of them claimed, no claim, no event, no call. -/
structure ClaimInit (s : ClaimState) : Prop where
  post_ids : (s.db.posts.map (·.id)).Nodup
  not_claimed : ∀ post ∈ s.db.posts, post.status ≠ .claimed
  claims : s.db.claims = []
  outbox : s.db.outbox = []
  calls : ∀ p, s.calls p = .idle

end Workforce.Marketplace
