import Workforce.Marketplace.Board

/-!
# The calls refine the board

`ClaimState.board` reads a board off the tables and the calls in flight. `claimStep_board`: what a
step of the calls does to it is a `Board.Step`, with the decision the step writes. It needs the
keys of the tables to be keys and every loaded claim to have its row (`ClaimState.WellFormed`),
which every step keeps (`claimStep_wellFormed`).
-/

namespace Workforce.Marketplace

open Tables Function Runs

/-! ## Reading a board off the tables -/

namespace ClaimDb

def postAt (db : ClaimDb) (id : ℕ) : Option MarketplacePostStatus :=
  (lookup (·.id) id db.posts).map (·.status)

def claimAt (db : ClaimDb) (id : ℕ) : Option (ℕ × MarketplaceClaimStatus) :=
  (lookup (·.id) id db.claims).map fun c => (c.marketplacePostId, c.status)

/-- How often the approval of the claim was recorded in the outbox. -/
def approvals (db : ClaimDb) (id : ℕ) : ℕ := db.outbox.countP (·.marketplaceClaimId = id)

end ClaimDb

/-- The claim a call has loaded and is going to write. -/
def Call.loaded : Call → Option MarketplaceClaim
  | .validating claim | .approving claim _ | .rejecting claim _ => some claim
  | .idle | .claiming _ _ | .converting _ _ => none

def Call.intent : Call → Intent
  | .validating claim => .validating claim.id
  | .approving claim _ => .approving claim.id
  | .rejecting claim _ => .rejecting claim.id
  | .idle | .claiming _ _ | .converting _ _ => .none_

namespace ClaimState

def board (s : ClaimState) : Board where
  post := s.db.postAt
  claim := s.db.claimAt
  approvals := s.db.approvals
  intent p := (s.calls p).intent

/-- The decision the action writes. -/
def decision (s : ClaimState) : ClaimAction → Decision
  | .approveWrite p => match s.calls p with
    | .approving claim _ => .approve claim.id
    | _ => .none_
  | .rejectWrite p => match s.calls p with
    | .rejecting claim _ => .reject claim.id
    | _ => .none_
  | _ => .none_

/-- The keys are keys, and a loaded claim has its row, for the post it was loaded with. -/
structure WellFormed (s : ClaimState) : Prop where
  post_ids : (s.db.posts.map (·.id)).Nodup
  claim_ids : (s.db.claims.map (·.id)).Nodup
  loaded : ∀ p claim, (s.calls p).loaded = some claim →
    ∃ st, s.db.claimAt claim.id = some (claim.marketplacePostId, st)

end ClaimState

/-! ## What the statements do to the board -/

namespace ClaimDb

theorem indexConflict_eq_false {db : ClaimDb} {post c : ℕ}
    (h : db.indexConflict post c = false) {c' : ℕ} {st : MarketplaceClaimStatus} (hne : c' ≠ c)
    (hc' : db.claimAt c' = some (post, st)) : st.indexed = false := by
  simp only [claimAt, Option.map_eq_some_iff, Prod.mk.injEq] at hc'
  obtain ⟨row, hrow, hpost, rfl⟩ := hc'
  obtain ⟨hm, hid⟩ := mem_of_lookup hrow
  simp only [indexConflict, List.any_eq_false] at h
  have := h row hm
  simpa [hpost, hid, hne] using this

variable {claim : MarketplaceClaim}

theorem saveClaim_ok {db db' : ClaimDb} (h : db.saveClaim claim = .ok db') :
    (claim.status.indexed → db.indexConflict claim.marketplacePostId claim.id = false) ∧
      db'.posts = db.posts ∧ db'.outbox = db.outbox ∧
      db'.claims.map (·.id) = db.claims.map (·.id) ∧
      db'.claimAt = update db.claimAt claim.id
        ((db.claimAt claim.id).map fun x => (x.1, claim.status)) := by
  unfold saveClaim at h
  split at h
  · cases h
  · rename_i hx
    cases h
    refine ⟨fun hi => by simpa [hi] using hx, rfl, rfl, map_key_modify (by intro; rfl) _, ?_⟩
    funext id
    simp only [claimAt, update_apply]
    rw [lookup_modify (by intro; rfl)]
    split
    · rename_i hid
      subst hid
      simp [Function.comp_def]
    · rfl

theorem insertClaim_ok {db db' : ClaimDb} (h : db.insertClaim claim = .ok db') :
    db.claimAt claim.id = none ∧
      (claim.status.indexed → db.indexConflict claim.marketplacePostId claim.id = false) ∧
      db'.posts = db.posts ∧ db'.outbox = db.outbox ∧
      db'.claims = db.claims ++ [claim] ∧ (∀ c ∈ db.claims, c.id ≠ claim.id) ∧
      db'.claimAt = update db.claimAt claim.id (some (claim.marketplacePostId, claim.status)) := by
  unfold insertClaim at h
  split at h
  · cases h
  · rename_i hid
    split at h
    · cases h
    · rename_i hx
      cases h
      have hfresh : ∀ c ∈ db.claims, c.id ≠ claim.id := by simpa using hid
      have hnone : lookup (fun c : MarketplaceClaim => c.id) claim.id db.claims = none := by
        simpa [lookup, List.find?_eq_none] using hfresh
      refine ⟨by simp [claimAt, hnone], fun hi => by simpa [hi] using hx, rfl, rfl, rfl, hfresh, ?_⟩
      funext id
      simp only [claimAt, update_apply]
      rw [lookup_append_singleton hfresh]
      split <;> simp_all

theorem postAt_setPostStatus (db : ClaimDb) {post : ℕ} (status : MarketplacePostStatus)
    (h : (db.postAt post).isSome) :
    (db.setPostStatus post status).postAt = update db.postAt post (some status) := by
  funext id
  simp only [postAt, setPostStatus, update_apply, Option.isSome_map] at h ⊢
  rw [lookup_modify (by intro; rfl)]
  split
  · rename_i hid
    subst hid
    obtain ⟨row, hrow⟩ := Option.isSome_iff_exists.1 h
    simp [hrow]
  · rfl

theorem postAt_of_findPost {db : ClaimDb} (hn : (db.posts.map (·.id)).Nodup) {tenant id : ℕ}
    {post : MarketplacePost} (h : db.findPost tenant id = some post) :
    post.id = id ∧ db.postAt id = some post.status := by
  have hm := List.mem_of_find?_eq_some h
  have hid : post.id = id := (by simpa using List.find?_some h : _ ∧ _).1
  refine ⟨hid, ?_⟩
  rw [postAt, ← hid, lookup_eq_some hn hm]
  rfl

theorem claimAt_of_findClaim {db : ClaimDb} (hn : (db.claims.map (·.id)).Nodup) {tenant id : ℕ}
    (h : db.findClaim tenant id = some claim) :
    claim.id = id ∧ db.claimAt id = some (claim.marketplacePostId, claim.status) := by
  have hm := List.mem_of_find?_eq_some h
  have hid : claim.id = id := (by simpa using List.find?_some h : _ ∧ _).1
  refine ⟨hid, ?_⟩
  rw [claimAt, ← hid, lookup_eq_some hn hm]
  rfl

theorem claimAt_setPostStatus (db : ClaimDb) (post : ℕ) (status : MarketplacePostStatus) :
    (db.setPostStatus post status).claimAt = db.claimAt := rfl

theorem approvals_setPostStatus (db : ClaimDb) (post : ℕ) (status : MarketplacePostStatus) :
    (db.setPostStatus post status).approvals = db.approvals := rfl

theorem postAt_recordClaimApproved (db : ClaimDb) (claim : MarketplaceClaim)
    (post : MarketplacePost) (by_ : Option ℕ) :
    (db.recordClaimApproved claim post by_).postAt = db.postAt := rfl

theorem claimAt_recordClaimApproved (db : ClaimDb) (claim : MarketplaceClaim)
    (post : MarketplacePost) (by_ : Option ℕ) :
    (db.recordClaimApproved claim post by_).claimAt = db.claimAt := rfl

theorem approvals_recordClaimApproved (db : ClaimDb) (claim : MarketplaceClaim)
    (post : MarketplacePost) (by_ : Option ℕ) :
    (db.recordClaimApproved claim post by_).approvals =
      update db.approvals claim.id (db.approvals claim.id + 1) := by
  funext id
  simp only [approvals, recordClaimApproved, List.countP_append, update_apply]
  by_cases hid : id = claim.id
  · simp [hid]
  · have hid' : claim.id ≠ id := fun h => hid h.symm
    simp [hid, hid']

end ClaimDb

/-! ## The refinement -/

namespace ClaimState

theorem board_setCall (s : ClaimState) (p : ℕ) (c : Call) :
    (s.setCall p c).board = { s.board with intent := update s.board.intent p c.intent } := by
  simp only [board, setCall, Board.mk.injEq, true_and]
  funext q
  by_cases hq : q = p <;> simp [hq]

theorem board_finish (s : ClaimState) (p : ℕ) (db : ClaimDb) :
    (s.finish p db).board =
      ⟨db.postAt, db.claimAt, db.approvals, update s.board.intent p .none_⟩ := by
  rw [finish, board_setCall]
  rfl

end ClaimState

open ClaimState Board

theorem postAt_congr {db db' : ClaimDb} (h : db'.posts = db.posts) : db'.postAt = db.postAt := by
  funext id
  simp [ClaimDb.postAt, h]

theorem approvals_congr {db db' : ClaimDb} (h : db'.outbox = db.outbox) :
    db'.approvals = db.approvals := by
  funext id
  simp [ClaimDb.approvals, h]

section Refinement

variable {s : ClaimState} (hw : s.WellFormed) {p : ℕ} {claim : MarketplaceClaim}

include hw

/-- The board row of a loaded claim, and what saving the claim with another status does to it. -/
theorem loaded_row (hl : (s.calls p).loaded = some claim) :
    ∃ st, s.db.claimAt claim.id = some (claim.marketplacePostId, st) ∧
      ∀ {db db' : ClaimDb} {claim' : MarketplaceClaim}, db.saveClaim claim' = .ok db' →
        db.claims = s.db.claims → claim'.id = claim.id →
        db'.claimAt =
          update s.db.claimAt claim.id (some (claim.marketplacePostId, claim'.status)) := by
  obtain ⟨st, hc⟩ := hw.loaded p claim hl
  refine ⟨st, hc, fun {db db' claim'} h hclaims hid => ?_⟩
  obtain ⟨-, -, -, -, hclaim⟩ := ClaimDb.saveClaim_ok h
  have hat : db.claimAt = s.db.claimAt := by
    funext id
    simp [ClaimDb.claimAt, hclaims]
  rw [hclaim, hid, hat, hc]
  rfl

variable {db : ClaimDb}

theorem board_finish_saveClaim (hl : (s.calls p).loaded = some claim) {claim' : MarketplaceClaim}
    (h : s.db.saveClaim claim' = .ok db) (hid : claim'.id = claim.id) :
    (s.finish p db).board = { s.board with
      claim := update s.board.claim claim.id (some (claim.marketplacePostId, claim'.status))
      intent := update s.board.intent p .none_ } := by
  obtain ⟨st, hc, hsave⟩ := loaded_row hw hl
  obtain ⟨-, hposts, hout, -⟩ := ClaimDb.saveClaim_ok h
  rw [board_finish, hsave h rfl hid, postAt_congr hposts, approvals_congr hout]
  rfl

theorem claimUnavailable_board (hp : s.calls p = .validating claim)
    (h : claimUnavailable s.db claim = .ok db) : Step .none_ s.board (s.finish p db).board := by
  have hl : (s.calls p).loaded = some claim := by rw [hp]; rfl
  obtain ⟨st, hc⟩ := hw.loaded p claim hl
  rw [board_finish_saveClaim hw hl h rfl]
  exact .lose p false (by simp [board, hp, Call.intent]) hc

theorem claimFinalize_board (hp : s.calls p = .validating claim) {v : EligibilityResult}
    {auto : Bool} (h : claimFinalize s.db claim v auto = .ok db) :
    Step .none_ s.board (s.finish p db).board := by
  have hl : (s.calls p).loaded = some claim := by rw [hp]; rfl
  obtain ⟨st, hc, hsave⟩ := loaded_row hw hl
  have hint : s.board.intent p = .validating claim.id := by simp [board, hp, Call.intent]
  unfold claimFinalize at h
  split at h
  · cases h
  rename_i post hpost
  obtain ⟨hid, hat⟩ := ClaimDb.postAt_of_findPost hw.post_ids hpost
  split at h
  · -- the shift is gone: the claim is rejected and the post expires
    cases hs : s.db.saveClaim { claim with
        status := .rejected, validationResult := some ⟨false, some "stale_post", some []⟩ } with
    | error e => simp [hs, bind, Except.bind] at h
    | ok db₁ =>
      simp only [hs, bind, Except.bind, pure, Except.pure, Except.ok.injEq] at h
      subst h
      obtain ⟨-, hposts, hout, -⟩ := ClaimDb.saveClaim_ok hs
      have hsome : (db₁.postAt claim.marketplacePostId).isSome := by
        rw [postAt_congr hposts, hat]
        rfl
      rw [hid, board_finish, ClaimDb.postAt_setPostStatus db₁ _ hsome,
        ClaimDb.claimAt_setPostStatus, ClaimDb.approvals_setPostStatus, hsave hs rfl rfl,
        postAt_congr hposts, approvals_congr hout]
      exact .lose p true hint hc
  split at h
  · rw [board_finish_saveClaim hw hl h rfl]
    exact .lose p false hint hc
  split at h
  · rw [board_finish_saveClaim hw hl h rfl]
    exact .lose p false hint hc
  · rename_i hopen
    have hopen' : s.board.post claim.marketplacePostId = some .open_ := by
      have : post.status = .open_ := by simpa using hopen
      rw [← this]
      exact hat
    simp only [bind, Except.bind] at h
    split at h
    · cases h
    rename_i db₁ hs
    simp only [pure, Except.pure, Except.ok.injEq] at h
    obtain ⟨-, hposts, hout, -⟩ := ClaimDb.saveClaim_ok hs
    have hpost₁ : db₁.postAt = update s.db.postAt claim.marketplacePostId (some .claimed) := by
      rw [postAt_congr hposts, hid]
      exact ClaimDb.postAt_setPostStatus s.db _ (by rw [hat]; rfl)
    have happ₁ : db₁.approvals = s.db.approvals := approvals_congr hout
    have hclaim₁ := hsave hs rfl rfl
    cases auto with
    | false =>
      simp only [Bool.false_eq_true, if_false] at h
      subst h
      rw [board_finish, hpost₁, hclaim₁, happ₁]
      exact .win p false hint hc hopen'
    | true =>
      simp only [if_true] at h
      subst h
      rw [board_finish, ClaimDb.approvals_recordClaimApproved, ClaimDb.postAt_recordClaimApproved,
        ClaimDb.claimAt_recordClaimApproved, hpost₁, hclaim₁, happ₁]
      exact .win p true hint hc hopen'

omit hw in
theorem claimInsert_ok {db db' : ClaimDb} {claim : MarketplaceClaim}
    (h : claimInsert db claim = .ok db') : db.insertClaim claim = .ok db' := by
  unfold claimInsert at h
  split at h
  · cases h
  · rename_i hi
    cases h
    exact hi

omit hw in
theorem claimInsert_board {post : MarketplacePost} {claimant id : ℕ}
    (h : claimInsert s.db (newOpenShiftClaim id post claimant) = .ok db) :
    Step .none_ s.board
      ({ s with db }.setCall p (.validating (newOpenShiftClaim id post claimant))).board := by
  obtain ⟨hnone, hx, hposts, hout, -, -, hclaim⟩ := ClaimDb.insertClaim_ok (claimInsert_ok h)
  have hboard : ({ s with db }.setCall p
      (.validating (newOpenShiftClaim id post claimant))).board =
      ⟨db.postAt, db.claimAt, db.approvals, update s.board.intent p (.validating id)⟩ := by
    rw [board_setCall]
    rfl
  rw [hboard, hclaim, postAt_congr hposts, approvals_congr hout]
  exact .enter p hnone fun c' st hne hc' => ClaimDb.indexConflict_eq_false (hx rfl) hne hc'

theorem bidFinalize_board {post : MarketplacePost} {winner id : ℕ} {auto : Bool} :
    Step .none_ s.board (s.finish p (bidFinalize s.db id post winner auto)).board := by
  have hidle : Step .none_ s.board (s.finish p s.db).board := by
    rw [board_finish]
    exact .idle p
  unfold bidFinalize
  dsimp only
  split
  · exact hidle
  rename_i db₁ hi
  split
  · rename_i a b c d hfind
    obtain ⟨hnone, hx, hposts, hout, -, -, hclaim⟩ := ClaimDb.insertClaim_ok hi
    obtain ⟨-, hopen⟩ := ClaimDb.postAt_of_findPost hw.post_ids hfind
    have hpost₁ : (db₁.setPostStatus post.id .claimed).postAt =
        update s.db.postAt post.id (some .claimed) := by
      rw [← postAt_congr hposts]
      exact ClaimDb.postAt_setPostStatus db₁ _ (by rw [postAt_congr hposts, hopen]; rfl)
    have happ₁ : (db₁.setPostStatus post.id .claimed).approvals = s.db.approvals :=
      approvals_congr hout
    have hfree : s.board.IndexFree post.id id := fun c' st hne hc' =>
      ClaimDb.indexConflict_eq_false (hx (by cases auto <;> rfl)) hne hc'
    cases auto with
    | false =>
      simp only [Bool.false_eq_true, if_false]
      rw [board_finish, hpost₁, ClaimDb.claimAt_setPostStatus, happ₁, hclaim]
      exact .bid p false hnone hfree hopen
    | true =>
      simp only [if_true]
      rw [board_finish, ClaimDb.approvals_recordClaimApproved, ClaimDb.postAt_recordClaimApproved,
        ClaimDb.claimAt_recordClaimApproved, hpost₁, ClaimDb.claimAt_setPostStatus, happ₁, hclaim]
      exact .bid p true hnone hfree hopen
  · exact hidle

theorem approveClaim_board {approver : ℕ} (hp : s.calls p = .approving claim approver)
    (h : approveClaim s.db claim approver = .ok db) :
    Step (.approve claim.id) s.board (s.finish p db).board := by
  have hl : (s.calls p).loaded = some claim := by rw [hp]; rfl
  obtain ⟨st, hc, hsave⟩ := loaded_row hw hl
  simp only [approveClaim, bind, Except.bind] at h
  split at h
  · cases h
  rename_i db₁ hs
  split at h
  · cases h
  rename_i post hfind
  cases h
  obtain ⟨hx, hposts, hout, -⟩ := ClaimDb.saveClaim_ok hs
  rw [board_finish, ClaimDb.approvals_recordClaimApproved, ClaimDb.postAt_recordClaimApproved,
    ClaimDb.claimAt_recordClaimApproved, hsave hs rfl rfl, postAt_congr hposts,
    approvals_congr hout]
  exact .approve p (by simp [board, hp, Call.intent]) hc fun c' st' hne hc' =>
    ClaimDb.indexConflict_eq_false (hx rfl) hne hc'

theorem rejectClaim_board {reason : String} (hp : s.calls p = .rejecting claim reason)
    (h : rejectClaim s.db claim reason = .ok db) :
    Step (.reject claim.id) s.board (s.finish p db).board := by
  have hl : (s.calls p).loaded = some claim := by rw [hp]; rfl
  obtain ⟨st, hc⟩ := hw.loaded p claim hl
  rw [board_finish_saveClaim hw hl h rfl]
  exact .reject p (by simp [board, hp, Call.intent]) hc

end Refinement

/-! ## What a step of the calls does -/

/-- Everything a step can do; the label is the decision it writes. -/
inductive ClaimMove (s : ClaimState) : Decision → ClaimState → Prop
  /-- A call loads a post, or ends without a write. -/
  | pass (p : ℕ) {c : Call} (hl : c.loaded = none) : ClaimMove s .none_ (s.setCall p c)
  /-- A call loads a claim that is pending approval. -/
  | load (p : ℕ) {tenant id : ℕ} {claim : MarketplaceClaim} {c : Call}
      (h : decisionCheck s.db tenant id = .ok claim) (hl : c.loaded = some claim)
      (hi : c.intent.decides claim.id) : ClaimMove s .none_ (s.setCall p c)
  | insert (p : ℕ) {id claimant : ℕ} {post : MarketplacePost} {db : ClaimDb}
      (h : claimInsert s.db (newOpenShiftClaim id post claimant) = .ok db) :
      ClaimMove s .none_
        ({ s with db }.setCall p (.validating (newOpenShiftClaim id post claimant)))
  | unavailable {p : ℕ} {claim : MarketplaceClaim} {db : ClaimDb}
      (hp : s.calls p = .validating claim) (h : claimUnavailable s.db claim = .ok db) :
      ClaimMove s .none_ (s.finish p db)
  | finalize {p : ℕ} {claim : MarketplaceClaim} {v : EligibilityResult} {auto : Bool} {db : ClaimDb}
      (hp : s.calls p = .validating claim) (h : claimFinalize s.db claim v auto = .ok db) :
      ClaimMove s .none_ (s.finish p db)
  | convert (p id : ℕ) (post : MarketplacePost) (winner : ℕ) (auto : Bool) :
      ClaimMove s .none_ (s.finish p (bidFinalize s.db id post winner auto))
  | approve {p approver : ℕ} {claim : MarketplaceClaim} {db : ClaimDb}
      (hp : s.calls p = .approving claim approver) (h : approveClaim s.db claim approver = .ok db) :
      ClaimMove s (.approve claim.id) (s.finish p db)
  | reject {p : ℕ} {reason : String} {claim : MarketplaceClaim} {db : ClaimDb}
      (hp : s.calls p = .rejecting claim reason) (h : rejectClaim s.db claim reason = .ok db) :
      ClaimMove s (.reject claim.id) (s.finish p db)

variable {s t : ClaimState} {a : ClaimAction}

theorem claimStep_move (h : claimStep s a = some t) :
    ClaimMove s (s.decision a) t := by
  cases a with
  | claimRead p tenantId postId claimant | bidRead p tenantId postId winner =>
    simp only [claimStep] at h
    split at h
    · cases h
      exact .pass p rfl
    · cases h
  | claimInsert p id =>
    simp only [claimStep] at h
    split at h
    · split at h
      · rename_i hi
        cases h
        exact .insert p hi
      · cases h
    · cases h
  | claimValidated p validation auto =>
    simp only [claimStep] at h
    split at h
    · rename_i claim hp
      cases validation with
      | none =>
        obtain ⟨db, hdb, rfl⟩ := toOption_map_eq_some h
        exact .unavailable hp hdb
      | some v =>
        obtain ⟨db, hdb, rfl⟩ := toOption_map_eq_some h
        exact .finalize hp hdb
    · cases h
  | bidValidated p id validation auto =>
    simp only [claimStep] at h
    split at h
    · split at h
      · cases h
        exact .convert p id _ _ auto
      · cases h
        exact .pass p rfl
    · cases h
  | approveRead p tenantId claimId approver =>
    simp only [claimStep] at h
    split at h
    · rename_i hck
      cases h
      exact .load p hck rfl (.inl rfl)
    · cases h
  | rejectRead p tenantId claimId reason =>
    simp only [claimStep] at h
    split at h
    · rename_i hck
      cases h
      exact .load p hck rfl (.inr rfl)
    · cases h
  | approveWrite p =>
    simp only [claimStep] at h
    split at h
    · rename_i claim approver hp
      obtain ⟨db, hdb, rfl⟩ := toOption_map_eq_some h
      simp only [ClaimState.decision, hp]
      exact .approve hp hdb
    · cases h
  | rejectWrite p =>
    simp only [claimStep] at h
    split at h
    · rename_i claim reason hp
      obtain ⟨db, hdb, rfl⟩ := toOption_map_eq_some h
      simp only [ClaimState.decision, hp]
      exact .reject hp hdb
    · cases h
  | abandon p =>
    cases h
    exact .pass p rfl

theorem decisionCheck_ok {db : ClaimDb} {tenant id : ℕ} {claim : MarketplaceClaim}
    (h : decisionCheck db tenant id = .ok claim) :
    db.findClaim tenant id = some claim ∧ claim.status = .pendingApproval := by
  unfold decisionCheck at h
  split at h
  · cases h
  · split at h
    · cases h
    · rename_i c hc ho
      cases h
      exact ⟨hc, by simpa using ho⟩

theorem Call.intent_of_loaded_eq_none {c : Call} (h : c.loaded = none) : c.intent = .none_ := by
  cases c with
  | idle | claiming | converting => rfl
  | validating | approving | rejecting => cases h

theorem ClaimMove.board {d : Decision} (hw : s.WellFormed) (h : ClaimMove s d t) :
    Step d s.board t.board := by
  cases h with
  | pass p hl =>
    rw [board_setCall, Call.intent_of_loaded_eq_none hl]
    exact .idle p
  | load p hck hl hi =>
    obtain ⟨hfind, hst⟩ := decisionCheck_ok hck
    obtain ⟨hid, hat⟩ := ClaimDb.claimAt_of_findClaim hw.claim_ids hfind
    rw [hst, ← hid] at hat
    rw [board_setCall]
    exact .read p hi hat
  | insert p h => exact claimInsert_board h
  | unavailable hp h => exact claimUnavailable_board hw hp h
  | finalize hp h => exact claimFinalize_board hw hp h
  | convert => exact bidFinalize_board hw
  | approve hp h => exact approveClaim_board hw hp h
  | reject hp h => exact rejectClaim_board hw hp h

/-- **Refinement**: a step of the calls is a step of the board, writing the same decision. -/
theorem claimStep_board (hw : s.WellFormed) (h : claimStep s a = some t) :
    Step (s.decision a) s.board t.board :=
  (claimStep_move h).board hw

/-! ## The keys stay keys -/

/-- No post comes or goes, and the claims keep distinct ids. -/
structure KeepsKeys (db db' : ClaimDb) : Prop where
  posts : db'.posts.map (·.id) = db.posts.map (·.id)
  claims : (db.claims.map (·.id)).Nodup → (db'.claims.map (·.id)).Nodup

namespace KeepsKeys

theorem refl (db : ClaimDb) : KeepsKeys db db := ⟨rfl, id⟩

theorem trans {db₁ db₂ db₃ : ClaimDb} (h : KeepsKeys db₁ db₂) (h' : KeepsKeys db₂ db₃) :
    KeepsKeys db₁ db₃ :=
  ⟨h'.posts.trans h.posts, fun hn => h'.claims (h.claims hn)⟩

theorem setPostStatus (db : ClaimDb) (post : ℕ) (status : MarketplacePostStatus) :
    KeepsKeys db (db.setPostStatus post status) :=
  ⟨map_key_modify (by intro; rfl) _, id⟩

theorem recordClaimApproved (db : ClaimDb) (claim : MarketplaceClaim) (post : MarketplacePost)
    (approvedBy : Option ℕ) : KeepsKeys db (db.recordClaimApproved claim post approvedBy) :=
  ⟨rfl, id⟩

variable {db db' : ClaimDb} {claim : MarketplaceClaim}

theorem saveClaim (h : db.saveClaim claim = .ok db') : KeepsKeys db db' := by
  obtain ⟨-, hposts, -, hids, -⟩ := ClaimDb.saveClaim_ok h
  exact ⟨by rw [hposts], fun hn => by rwa [hids]⟩

theorem insertClaim (h : db.insertClaim claim = .ok db') : KeepsKeys db db' := by
  obtain ⟨-, -, hposts, -, hclaims, hfresh, -⟩ := ClaimDb.insertClaim_ok h
  refine ⟨by rw [hposts], fun hn => ?_⟩
  rw [hclaims]
  exact nodup_append_singleton hn hfresh

theorem claimFinalize {v : EligibilityResult} {auto : Bool}
    (h : claimFinalize db claim v auto = .ok db') : KeepsKeys db db' := by
  unfold Marketplace.claimFinalize at h
  split at h
  · cases h
  split at h
  · simp only [bind, Except.bind] at h
    split at h
    · cases h
    · rename_i hs
      cases h
      exact (saveClaim hs).trans (setPostStatus _ _ _)
  split at h
  · exact saveClaim h
  split at h
  · exact saveClaim h
  · simp only [bind, Except.bind] at h
    split at h
    · cases h
    · rename_i hs
      cases h
      refine ((setPostStatus _ _ _).trans (saveClaim hs)).trans ?_
      split
      · exact recordClaimApproved _ _ _ _
      · exact refl _

theorem bidFinalize (db : ClaimDb) (id : ℕ) (post : MarketplacePost) (winner : ℕ) (auto : Bool) :
    KeepsKeys db (bidFinalize db id post winner auto) := by
  unfold Marketplace.bidFinalize
  dsimp only
  split
  · exact refl db
  rename_i hi
  split
  · refine ((insertClaim hi).trans (setPostStatus _ post.id .claimed)).trans ?_
    split
    · exact recordClaimApproved _ _ _ _
    · exact refl _
  · exact refl db

theorem approveClaim {approver : ℕ} (h : approveClaim db claim approver = .ok db') :
    KeepsKeys db db' := by
  simp only [Marketplace.approveClaim, bind, Except.bind] at h
  split at h
  · cases h
  rename_i hs
  split at h
  · cases h
  · cases h
    exact (saveClaim hs).trans (recordClaimApproved _ _ _ _)

end KeepsKeys

theorem ClaimMove.keepsKeys {d : Decision} (h : ClaimMove s d t) :
    KeepsKeys s.db t.db := by
  cases h with
  | pass | load => exact .refl _
  | insert p h => exact .insertClaim (claimInsert_ok h)
  | unavailable hp h | reject hp h => exact .saveClaim h
  | finalize hp h => exact .claimFinalize h
  | convert => exact .bidFinalize _ _ _ _ _
  | approve hp h => exact .approveClaim h

theorem ClaimMove.loaded {d : Decision} (hw : s.WellFormed) (h : ClaimMove s d t) {p : ℕ}
    {claim : MarketplaceClaim} (hl : (t.calls p).loaded = some claim) :
    (s.calls p).loaded = some claim ∨
      ∃ st, t.db.claimAt claim.id = some (claim.marketplacePostId, st) := by
  have hset : ∀ (q : ℕ) (c : Call), ((s.setCall q c).calls p).loaded = some claim →
      (s.calls p).loaded = some claim ∨ c.loaded = some claim := by
    intro q c hq
    simp only [ClaimState.setCall] at hq
    split at hq
    · exact .inr hq
    · exact .inl hq
  cases h with
  | pass q hc =>
    obtain hl | hl := hset q _ hl
    · exact .inl hl
    · simp [hc] at hl
  | load q hck hc =>
    obtain hl | hl := hset q _ hl
    · exact .inl hl
    · obtain rfl := Option.some.inj (hc.symm.trans hl)
      obtain ⟨hfind, -⟩ := decisionCheck_ok hck
      obtain ⟨hid, hat⟩ := ClaimDb.claimAt_of_findClaim hw.claim_ids hfind
      exact .inr ⟨_, by rw [hid]; exact hat⟩
  | insert q h =>
    obtain hl | hl := hset q _ hl
    · exact .inl hl
    · cases hl
      obtain ⟨-, -, -, -, -, -, hclaim⟩ := ClaimDb.insertClaim_ok (claimInsert_ok h)
      exact .inr ⟨_, (congrFun hclaim _).trans (update_self ..)⟩
  | unavailable | finalize | convert | approve | reject =>
    obtain hl | hl := hset _ .idle hl
    · exact .inl hl
    · cases hl

theorem claimStep_wellFormed (hw : s.WellFormed) (h : claimStep s a = some t) : t.WellFormed where
  post_ids := by
    rw [(claimStep_move h).keepsKeys.posts]
    exact hw.post_ids
  claim_ids := (claimStep_move h).keepsKeys.claims hw.claim_ids
  loaded := by
    intro p claim hl
    rcases (claimStep_move h).loaded hw hl with hl' | hnew
    · obtain ⟨st, hst⟩ := hw.loaded p claim hl'
      obtain ⟨st', hst', -⟩ := (claimStep_board hw h).claim_some hst
      exact ⟨st', hst'⟩
    · exact hnew

/-! ## Rows and board -/

namespace ClaimState

variable {s : ClaimState}

theorem WellFormed.claim_of_mem (hw : s.WellFormed) {c : MarketplaceClaim}
    (hc : c ∈ s.db.claims) : s.board.claim c.id = some (c.marketplacePostId, c.status) := by
  simp only [board, ClaimDb.claimAt]
  rw [lookup_eq_some hw.claim_ids hc]
  rfl

theorem WellFormed.post_of_mem (hw : s.WellFormed) {post : MarketplacePost}
    (hp : post ∈ s.db.posts) : s.board.post post.id = some post.status := by
  simp only [board, ClaimDb.postAt]
  rw [lookup_eq_some hw.post_ids hp]
  rfl

theorem exists_claim {c post : ℕ} {st : MarketplaceClaimStatus}
    (h : s.board.claim c = some (post, st)) :
    ∃ row ∈ s.db.claims, row.id = c ∧ row.marketplacePostId = post ∧ row.status = st := by
  simp only [board, ClaimDb.claimAt, Option.map_eq_some_iff, Prod.mk.injEq] at h
  obtain ⟨row, hrow, hpost, hst⟩ := h
  obtain ⟨hm, hid⟩ := mem_of_lookup hrow
  exact ⟨row, hm, hid, hpost, hst⟩

theorem exists_post {post : ℕ} {st : MarketplacePostStatus} (h : s.board.post post = some st) :
    ∃ row ∈ s.db.posts, row.id = post ∧ row.status = st := by
  simp only [board, ClaimDb.postAt, Option.map_eq_some_iff] at h
  obtain ⟨row, hrow, hst⟩ := h
  obtain ⟨hm, hid⟩ := mem_of_lookup hrow
  exact ⟨row, hm, hid, hst⟩

end ClaimState

/-! ## The start -/

namespace ClaimInit

variable {s : ClaimState} (h : ClaimInit s)

include h

theorem wellFormed : s.WellFormed where
  post_ids := h.post_ids
  claim_ids := by simp [h.claims]
  loaded := by
    intro p claim hl
    simp [h.calls p, Call.loaded] at hl

theorem claimAt (c : ℕ) : s.db.claimAt c = none := by
  simp [ClaimDb.claimAt, lookup, h.claims]

theorem sound : s.board.Sound := by
  have hi : ∀ p, s.board.intent p = .none_ := fun p => by simp [board, h.calls p, Call.intent]
  have hc : ∀ c, s.board.claim c = none := h.claimAt
  constructor <;> simp [hi, hc, Intent.decides, Board.Contends]

end ClaimInit

end Workforce.Marketplace
