import Workforce.Marketplace.Winners
import Workforce.Marketplace.SwapLedger

/-!
# Decisions of supervisors

`approveClaim`, `rejectClaim`, `approveSwap` and `rejectSwap` check that the row they load is
pending approval and then save it. Between the two another call may have decided the row.

`decisions_final_iff`: a claim or a swap has at most one approval event, and stays approved once it
has one, along a run exactly when no decision of the run is saved over an approved row.
-/

namespace Workforce.Marketplace

open Tables Function Runs ClaimState

/-! ## Approvals of claims -/

/-- A claim is approved at most once, and stays approved. -/
def ApprovalsFinal (s : ClaimState) : Prop :=
  (∀ id, s.db.approvals id ≤ 1) ∧
    ∀ claim ∈ s.db.claims, 0 < s.db.approvals claim.id → claim.status = .approved

/-- A swap is executed at most once, and stays accepted. -/
def ExecutionsFinal (s : SwapState) : Prop :=
  (∀ id, s.db.executions id ≤ 1) ∧
    ∀ swap ∈ s.db.swaps, 0 < s.db.executions swap.id → swap.status = .accepted

/-- The claim a decision is about. -/
def Decision.claim : Decision → Option ℕ
  | .none_ => none
  | .approve c | .reject c => some c

def ClaimDb.statusOf (db : ClaimDb) (c : ℕ) : Option MarketplaceClaimStatus :=
  (db.claimAt c).map Prod.snd

/-- The action does not save a decision over an approved claim. -/
def NoLateDecision (s : ClaimState) (a : ClaimAction) : Prop :=
  ∀ c, (s.decision a).claim = some c → s.db.statusOf c ≠ some .approved

instance (s : ClaimState) (a : ClaimAction) : Decidable (NoLateDecision s a) :=
  match h : (s.decision a).claim with
  | none => isTrue (by simp [NoLateDecision, h])
  | some c => decidable_of_iff (s.db.statusOf c ≠ some .approved) (by simp [NoLateDecision, h])

namespace Board

def status (b : Board) (c : ℕ) : Option MarketplaceClaimStatus := (b.claim c).map Prod.snd

/-- Every recorded approval is the one of an approved claim. -/
def Final (b : Board) : Prop :=
  ∀ c, b.approvals c = if b.status c = some .approved then 1 else 0

variable {b b' : Board}

theorem status_of_ne {c i : ℕ} {v : Option (ℕ × MarketplaceClaimStatus)}
    (h : b'.claim = update b.claim c v) (hic : i ≠ c) : b'.status i = b.status i := by
  simp [status, h, hic]

theorem status_self {c post : ℕ} {st : MarketplaceClaimStatus}
    (h : b'.claim = update b.claim c (some (post, st))) : b'.status c = some st := by
  simp [status, h]

theorem Sound.status_validating {b : Board} (hs : b.Sound) {p c : ℕ}
    (h : b.intent p = .validating c) : b.status c ≠ some .approved := by
  obtain ⟨post, hval⟩ := hs.validating p c h
  simp [status, hval]

/-- Writing a claim that is not approved, and recording its approval with an approval. -/
theorem Final.write (hf : b.Final) {c post : ℕ} {st : MarketplaceClaimStatus}
    (hclaim : b'.claim = update b.claim c (some (post, st))) (hna : b.status c ≠ some .approved)
    (happ : ∀ i, b'.approvals i = b.approvals i + if i = c ∧ st = .approved then 1 else 0) :
    b'.Final := by
  intro i
  rw [happ i, hf i]
  by_cases hic : i = c
  · subst hic
    rw [status_self hclaim]
    simp [hna]
  · rw [status_of_ne hclaim hic]
    simp [hic]

theorem approvals_record (b : Board) (c : ℕ) (auto : Bool) (i : ℕ) :
    (if auto then update b.approvals c (b.approvals c + 1) else b.approvals) i =
      b.approvals i + if i = c ∧
        (if auto then MarketplaceClaimStatus.approved else .pendingApproval) = .approved
        then 1 else 0 := by
  cases auto with
  | false => simp
  | true => by_cases hic : i = c <;> simp [hic]

theorem Step.final {d : Decision} (h : Step d b b') (hs : b.Sound) (hf : b.Final)
    (hd : ∀ c, d.claim = some c → b.status c ≠ some .approved) : b'.Final := by
  cases h with
  | idle | read => exact hf
  | enter p hc hx => exact hf.write rfl (by simp [status, hc]) (by simp)
  | lose p expires hp hc => exact hf.write rfl (hs.status_validating hp) (by simp)
  | win p auto hp hc ho =>
    exact hf.write rfl (hs.status_validating hp) (b.approvals_record _ auto)
  | bid p auto hc hx ho =>
    exact hf.write rfl (by simp [status, hc]) (b.approvals_record _ auto)
  | approve p hp hc hx => exact hf.write rfl (hd _ rfl) (b.approvals_record _ true)
  | reject p hp hc => exact hf.write rfl (hd _ rfl) (by simp)

/-- A decision saved over an approved claim approves it again, or rejects it. -/
theorem Step.decide_approved {d : Decision} (h : Step d b b') (hf : b.Final) {c : ℕ}
    (hd : d.claim = some c) (hc : b.status c = some .approved) :
    b'.approvals c = 2 ∨ b'.approvals c = 1 ∧ b'.status c = some .rejected := by
  have hone := hf c
  rw [if_pos hc] at hone
  cases h with
  | idle | read | enter | lose | win | bid => cases hd
  | approve p hp hc' hx =>
    cases hd
    exact .inl (by simp [hone])
  | reject p hp hc' =>
    cases hd
    exact .inr ⟨hone, status_self rfl⟩

end Board

/-- The invariant of the runs in which no decision lands on an approved claim. -/
structure DecisionInvariant (s : ClaimState) : Prop extends ClaimInvariant s where
  final : s.board.Final

namespace DecisionInvariant

variable {s t : ClaimState} {a : ClaimAction}

theorem step (h : DecisionInvariant s) (hok : NoLateDecision s a) (ha : claimStep s a = some t) :
    DecisionInvariant t where
  toClaimInvariant := h.toClaimInvariant.step ha
  final := (claimStep_board h.wellFormed ha).final h.sound h.final hok

theorem approvalsFinal (h : DecisionInvariant s) : ApprovalsFinal s := by
  have hf : ∀ c, s.db.approvals c = if s.board.status c = some .approved then 1 else 0 := h.final
  refine ⟨fun id => ?_, fun claim hm he => ?_⟩
  · have hid := hf id
    split at hid <;> omega
  · have hid := hf claim.id
    have hst : s.board.status claim.id = some claim.status := by
      rw [Board.status, h.wellFormed.claim_of_mem hm]
      rfl
    by_contra hne
    rw [hst, if_neg (by simpa using hne)] at hid
    omega

theorem decision_breaks (h : DecisionInvariant s) (ha : claimStep s a = some t)
    (hno : ¬ NoLateDecision s a) : ¬ ApprovalsFinal t := by
  simp only [NoLateDecision, not_forall, not_not] at hno
  obtain ⟨c, hd, hst⟩ := hno
  rintro ⟨hle, happ⟩
  rcases (claimStep_board h.wellFormed ha).decide_approved h.final hd hst with h2 | ⟨h1, hrej⟩
  · have h2' : t.db.approvals c = 2 := h2
    have := hle c
    omega
  · have h1' : t.db.approvals c = 1 := h1
    obtain ⟨⟨post, st⟩, hc, rfl⟩ := Option.map_eq_some_iff.1 hrej
    obtain ⟨row, hm, rfl, -, hst⟩ := exists_claim hc
    have hrow := happ row hm (by omega)
    rw [hst] at hrow
    cases hrow

end DecisionInvariant

theorem ClaimInit.decisionInvariant {s : ClaimState} (h : ClaimInit s) : DecisionInvariant s where
  toClaimInvariant := h.invariant
  final := by
    intro c
    have hc : s.board.status c = none := by
      rw [Board.status, show s.board.claim c = none from h.claimAt c]
      rfl
    rw [hc]
    simp [board, ClaimDb.approvals, h.outbox]

/-! ## Claims and swaps together -/

/-- **Decisions are final exactly as long as none is saved over an approved row.** For every run of
the claim calls and every run of the swap calls: at most one approval event is recorded for each
claim (swap), and with one it is approved (accepted) from then on, if and only if no step of the
run saves a decision over a claim (a loaded swap over a swap) that is approved by then. -/
theorem decisions_final_iff {s t : ClaimState} {as : List ClaimAction} {s' t' : SwapState}
    {bs : List SwapAction} (h₀ : ClaimInit s) (ht : exec claimStep s as = some t)
    (h₀' : SwapInit s') (ht' : exec swapStep s' bs = some t') :
    (Always claimStep ApprovalsFinal s as ↔ Meets claimStep NoLateDecision s as) ∧
      (Always swapStep ExecutionsFinal s' bs ↔ Meets swapStep NoSaveOnAccepted s' bs) := by
  constructor
  · exact always_iff_meets (fun _ hs => hs.approvalsFinal) (fun _ _ _ hs hok ha => hs.step hok ha)
      (fun _ _ _ hs hno ha => hs.decision_breaks ha hno) h₀.decisionInvariant ht
  · refine always_iff_meets (fun _ hs => ⟨hs.executions_le_one, fun _ hm he => hs.accepted hm he⟩)
      (fun _ _ _ hs hok ha => hs.step hok ha) ?_ h₀'.invariant ht'
    rintro s a t hs hno ha ⟨hle, hacc⟩
    obtain ⟨id, h2 | ⟨h1, swap, hm, rfl, hst⟩⟩ := hs.save_breaks ha hno
    · have := hle id
      omega
    · have hrow := hacc swap hm (by omega)
      rw [hst] at hrow
      cases hrow

theorem decisions_final_on_single_approvals :
    Always claimStep ApprovalsFinal openPostStart (racingRun ++ approvalRun) ∧
      Always swapStep ExecutionsFinal noSwaps acceptedRun := by
  obtain ⟨t, ht, -⟩ :
      ∃ t, exec claimStep openPostStart (racingRun ++ approvalRun) = some t ∧ True :=
    exists_exec (by decide)
  obtain ⟨t', ht', -⟩ : ∃ t, exec swapStep noSwaps acceptedRun = some t ∧ True :=
    exists_exec (by decide)
  have h := decisions_final_iff claimInit_openPostStart ht swapInit_noSwaps ht'
  exact ⟨h.1.2 (by decide), h.2.2 (by decide)⟩

/-- Two supervisors approve the claim at the same time, and a third rejects it. -/
def concurrentDecisionsRun : List ClaimAction :=
  [.approveRead 3 7 10 90, .approveRead 4 7 10 91, .rejectRead 5 7 10 "short notice",
    .approveWrite 3, .approveWrite 4, .rejectWrite 5]

theorem concurrent_decisions_not_final : ClaimInit openPostStart ∧
    ∃ t, exec claimStep openPostStart (racingRun ++ concurrentDecisionsRun) = some t ∧
      t.db.approvals 10 = 2 ∧ (∃ claim ∈ t.db.claims, claim.id = 10 ∧ claim.status = .rejected) ∧
      ¬ ApprovalsFinal t := by
  refine ⟨claimInit_openPostStart, ?_⟩
  obtain ⟨t, ht, htwo, hrej⟩ : ∃ t,
      exec claimStep openPostStart (racingRun ++ concurrentDecisionsRun) = some t ∧
      t.db.approvals 10 = 2 ∧ ∃ claim ∈ t.db.claims, claim.id = 10 ∧ claim.status = .rejected :=
    exists_exec (by decide)
  refine ⟨t, ht, htwo, hrej, fun h => ?_⟩
  have := h.1 10
  omega

end Workforce.Marketplace
