import Workforce.Marketplace.Refinement

/-!
# Who holds a post

* `one_winner_per_post`: however the calls interleave, a post never has two live claims, and two
  claims of one post are never both approved, not even at different times.
* `posts_agree_iff_no_rejection`: a claimed post has exactly one live claim along a run exactly
  when the run writes no rejection of a claim. `rejectClaim` leaves the post claimed, with nobody
  holding it.
-/

namespace Workforce.Marketplace

open Tables Function Runs ClaimState

/-- The claims that hold the post. -/
def ClaimDb.liveClaims (db : ClaimDb) (postId : ℕ) : List MarketplaceClaim :=
  db.claims.filter fun c => c.marketplacePostId = postId && c.status.live

theorem ClaimDb.mem_liveClaims {db : ClaimDb} {postId : ℕ} {c : MarketplaceClaim} :
    c ∈ db.liveClaims postId ↔
      c ∈ db.claims ∧ c.marketplacePostId = postId ∧ c.status.live = true := by
  simp [liveClaims]

/-! ## One winner -/

/-- What holds in every state the calls reach, whatever they decided. -/
structure ClaimInvariant (s : ClaimState) : Prop where
  wellFormed : s.WellFormed
  sound : s.board.Sound

theorem ClaimInit.invariant {s : ClaimState} (h : ClaimInit s) : ClaimInvariant s :=
  ⟨h.wellFormed, h.sound⟩

variable {s t : ClaimState} {a : ClaimAction}

theorem ClaimInvariant.step (h : ClaimInvariant s) (ha : claimStep s a = some t) :
    ClaimInvariant t :=
  ⟨claimStep_wellFormed h.wellFormed ha, (claimStep_board h.wellFormed ha).sound h.sound⟩

theorem ClaimInvariant.exec {as : List ClaimAction} (h : ClaimInvariant s)
    (ht : exec claimStep s as = some t) : ClaimInvariant t :=
  exec_keeps ClaimInvariant (fun _ _ _ hs ha => hs.step ha) h ht

section Winner

variable {s t : ClaimState} {c c' : MarketplaceClaim}

theorem ClaimInvariant.contends (h : ClaimInvariant s) (hc : c ∈ s.db.claims)
    (hl : c.status.live = true) : s.board.Contends c.marketplacePostId c.id :=
  ⟨c.status, h.wellFormed.claim_of_mem hc, .inl hl⟩

theorem ClaimInvariant.length_liveClaims_le_one (h : ClaimInvariant s) (postId : ℕ) :
    (s.db.liveClaims postId).length ≤ 1 := by
  refine length_filter_le_one h.wellFormed.claim_ids fun c hc c' hc' hp hp' => ?_
  simp only [Bool.and_eq_true, decide_eq_true_eq] at hp hp'
  have hcont := h.contends hc hp.2
  have hcont' := h.contends hc' hp'.2
  rw [hp.1] at hcont
  rw [hp'.1] at hcont'
  exact h.sound.unique postId c.id c'.id hcont hcont'

/-- A closed post keeps its only contender: later steps add none. -/
theorem ClaimInvariant.contender_stays (h : ClaimInvariant s) {as : List ClaimAction}
    (ht : Runs.exec claimStep s as = some t) {post c₀ : ℕ} (hc : s.board.Contends post c₀) :
    ∀ c', t.board.Contends post c' → c' = c₀ := by
  have hrun : ClaimInvariant t ∧ t.board.post post ≠ some .open_ ∧
      ∀ c', t.board.Contends post c' → c' = c₀ := by
    refine exec_keeps (fun u => ClaimInvariant u ∧ u.board.post post ≠ some .open_ ∧
      ∀ c', u.board.Contends post c' → c' = c₀) ?_ ?_ ht
    · rintro u a v ⟨hu, hclosed, honly⟩ ha
      have hboard := claimStep_board hu.wellFormed ha
      refine ⟨hu.step ha, fun ho => hclosed (hboard.post_open ho), fun c' hc' => ?_⟩
      rcases hboard.contends hu.sound with hall | ⟨post₀, c₁, ho, -, hall⟩
      · exact honly c' (hall _ _ hc')
      · rcases hall _ _ hc' with h₁ | ⟨rfl, -⟩
        · exact honly c' h₁
        · exact absurd ho hclosed
    · exact ⟨h, h.sound.closed post c₀ hc, fun c' hc' => h.sound.unique post c' c₀ hc' hc⟩
  exact hrun.2.2

end Winner

/-- **At most one winner per post.** From any start, after any interleaving `as` of claims, bid
conversions, approvals and rejections, no post has two live claims; and whatever happens next
(`bs`), a claim approved then and a claim approved now on the same post are one claim. -/
theorem one_winner_per_post {s₀ s₁ s₂ : ClaimState} {as bs : List ClaimAction}
    (h₀ : ClaimInit s₀) (h₁ : exec claimStep s₀ as = some s₁)
    (h₂ : exec claimStep s₁ bs = some s₂) :
    (∀ postId, (s₁.db.liveClaims postId).length ≤ 1) ∧
      ∀ c ∈ s₁.db.claims, ∀ c' ∈ s₂.db.claims, c.marketplacePostId = c'.marketplacePostId →
        c.status = .approved → c'.status = .approved → c.id = c'.id := by
  have hinv₁ := h₀.invariant.exec h₁
  have hinv₂ := hinv₁.exec h₂
  refine ⟨hinv₁.length_liveClaims_le_one, fun c hc c' hc' hpost hst hst' => ?_⟩
  have hcont := hinv₁.contends hc (by rw [hst]; rfl)
  have hcont' := hinv₂.contends hc' (by rw [hst']; rfl)
  rw [← hpost] at hcont'
  exact (hinv₁.contender_stays h₂ hcont c'.id hcont').symm

/-- One open post, and no call in flight. -/
def openPostStart : ClaimState where
  db := { posts := [⟨1, 7, 30, 2, .open_⟩], claims := [], outbox := [] }
  calls _ := .idle

theorem claimInit_openPostStart : ClaimInit openPostStart where
  post_ids := by decide
  not_claimed := by decide
  claims := rfl
  outbox := rfl
  calls _ := rfl

/-- Two employees claim the post while a bid on it closes. The first claim is inserted and, past
its validation, holds the post. -/
def racingRun : List ClaimAction :=
  [.claimRead 0 7 1 40, .claimRead 1 7 1 41, .bidRead 2 7 1 42, .claimInsert 0 10,
    .bidValidated 2 12 (some ⟨true, true, []⟩) true,
    .claimValidated 0 (some ⟨true, true, []⟩) false]

/-- A supervisor approves the claim that holds the post. -/
def approvalRun : List ClaimAction := [.approveRead 3 7 10 90, .approveWrite 3]

theorem one_winner_of_racingRun : ∃ s₁ s₂, exec claimStep openPostStart racingRun = some s₁ ∧
    exec claimStep s₁ approvalRun = some s₂ ∧
    (∀ postId, (s₁.db.liveClaims postId).length ≤ 1) ∧
      ∀ c ∈ s₁.db.claims, ∀ c' ∈ s₂.db.claims, c.marketplacePostId = c'.marketplacePostId →
        c.status = .approved → c'.status = .approved → c.id = c'.id := by
  obtain ⟨s₂, h, -⟩ :
      ∃ t, exec claimStep openPostStart (racingRun ++ approvalRun) = some t ∧ True :=
    exists_exec (by decide)
  obtain ⟨s₁, h₁, h₂⟩ := exec_append_eq_some.1 h
  exact ⟨s₁, s₂, h₁, h₂, one_winner_per_post claimInit_openPostStart h₁ h₂⟩

/-! ## Claimed posts and live claims -/

/-- A claimed post has exactly one live claim, and a post without one is not claimed. -/
def PostsAgree (s : ClaimState) : Prop :=
  ∀ post ∈ s.db.posts, (post.status = .claimed → (s.db.liveClaims post.id).length = 1) ∧
    (s.db.liveClaims post.id = [] → post.status ≠ .claimed)
  deriving Decidable

/-- The action does not write a rejection of a claim. -/
def NoRejection (_ : ClaimState) : ClaimAction → Prop
  | .rejectWrite _ => False
  | _ => True

/-- Claimed posts and live claims belong together, as long as nothing was rejected. -/
structure Board.Paired (b : Board) : Prop where
  claimed : ∀ post, b.post post = some .claimed → ∃ c st, b.claim c = some (post, st) ∧ st.live
  live : ∀ post c st, b.claim c = some (post, st) → st.live → b.post post = some .claimed
  deciding : ∀ p c, (b.intent p).decides c → ∃ post st, b.claim c = some (post, st) ∧ st.live

namespace Board

variable {d : Decision} {b b' : Board}

theorem Sound.validating_ne_of_live (hs : b.Sound) {c post : ℕ} {st : MarketplaceClaimStatus}
    (hc : b.claim c = some (post, st)) (hl : st.live = true) (p : ℕ) :
    b.intent p ≠ .validating c := by
  intro hp
  obtain ⟨post', hc'⟩ := hs.validating p c hp
  obtain ⟨-, rfl⟩ : post' = post ∧ .pendingValidation = st := by simpa using hc'.symm.trans hc
  cases hl

theorem Step.live_stays (h : Step d b b') (hs : b.Sound) (hd : ∀ c, d ≠ .reject c) {c post : ℕ}
    {st : MarketplaceClaimStatus} (hc : b.claim c = some (post, st)) (hl : st.live = true) :
    ∃ st', b'.claim c = some (post, st') ∧ st'.live = true := by
  cases h with
  | idle | read => exact ⟨st, hc, hl⟩
  | @enter _ p c₀ post₀ hnone hx | @bid _ p c₀ post₀ auto hnone hx ho =>
    have hne : c ≠ c₀ := by
      rintro rfl
      simp [hnone] at hc
    exact ⟨st, (update_of_ne hne ..).trans hc, hl⟩
  | @lose _ p c₀ post₀ st₀ expires hv hc₀ | @win _ p c₀ post₀ st₀ auto hv hc₀ ho =>
    have hne : c ≠ c₀ := by
      rintro rfl
      exact hs.validating_ne_of_live hc hl p hv
    exact ⟨st, (update_of_ne hne ..).trans hc, hl⟩
  | @approve _ p c₀ post₀ st₀ hp hc₀ hx =>
    by_cases hcc : c = c₀
    · subst hcc
      obtain ⟨rfl, -⟩ : post₀ = post ∧ st₀ = st := by simpa using hc₀.symm.trans hc
      exact ⟨.approved, update_self .., rfl⟩
    · exact ⟨st, (update_of_ne hcc ..).trans hc, hl⟩
  | reject => exact absurd rfl (hd _)

theorem Paired.claimed_of_contends (hp : b.Paired) {post c : ℕ} (h : b.Contends post c) :
    b.post post = some .claimed := by
  obtain ⟨st, hc, hl | ⟨p, hdec⟩⟩ := h
  · exact hp.live post c st hc hl
  · obtain ⟨post', st', hc', hl'⟩ := hp.deciding p c hdec
    obtain ⟨rfl, -⟩ : post' = post ∧ st' = st := by simpa using hc'.symm.trans hc
    exact hp.live _ c st' hc' hl'

theorem Step.claimed_stays (h : Step d b b') (hs : b.Sound) (hp : b.Paired) {post : ℕ}
    (hpost : b.post post = some .claimed) : b'.post post = some .claimed := by
  cases h with
  | idle | read | enter | approve | reject => exact hpost
  | win | bid =>
    simp only [update_apply]
    split
    · rfl
    · exact hpost
  | @lose _ p c₀ post₀ st₀ expires hv hc₀ =>
    cases expires with
    | false => exact hpost
    | true =>
      -- an expiring post is being validated, so the unique index admits no live claim on it
      have hne : post ≠ post₀ := by
        rintro rfl
        obtain ⟨post', hval⟩ := hs.validating p c₀ hv
        obtain ⟨rfl, -⟩ : post' = post ∧ .pendingValidation = st₀ := by
          simpa using hval.symm.trans hc₀
        obtain ⟨c, st, hc, hl⟩ := hp.claimed _ hpost
        have hcc := hs.index _ c c₀ st _ hc hval (MarketplaceClaimStatus.indexed_of_live hl) rfl
        exact hs.validating_ne_of_live hc hl p (hcc ▸ hv)
      simpa [hne] using hpost

theorem Step.claimed_cases (h : Step d b b') {post : ℕ} (hpost : b'.post post = some .claimed) :
    b.post post = some .claimed ∨ ∃ c st, b'.claim c = some (post, st) ∧ st.live = true := by
  cases h with
  | idle | read | enter | approve | reject => exact .inl hpost
  | @lose _ p c₀ post₀ st₀ expires =>
    cases expires with
    | false => exact .inl hpost
    | true =>
      obtain ⟨-, hne⟩ | ⟨-, hold⟩ := update_apply_eq_iff.1 hpost
      · cases hne
      · exact .inl hold
  | @win _ p c₀ post₀ _ auto | @bid _ p c₀ post₀ auto =>
    obtain ⟨rfl, -⟩ | ⟨-, hold⟩ := update_apply_eq_iff.1 hpost
    · exact .inr ⟨c₀, _, update_self .., by cases auto <;> rfl⟩
    · exact .inl hold

theorem Step.paired (h : Step d b b') (hs : b.Sound) (hp : b.Paired) (hd : ∀ c, d ≠ .reject c) :
    b'.Paired where
  claimed := by
    intro post hpost
    obtain hold | hnew := h.claimed_cases hpost
    · obtain ⟨c, st, hc, hl⟩ := hp.claimed post hold
      obtain ⟨st', hc', hl'⟩ := h.live_stays hs hd hc hl
      exact ⟨c, st', hc', hl'⟩
    · exact hnew
  live := by
    intro post c st hc hl
    have hstays : b.Contends post c → b'.post post = some .claimed := fun hcont =>
      h.claimed_stays hs hp (hp.claimed_of_contends hcont)
    rcases h.live_cases with hlive | ⟨post₀, c₀, -, hcl, hlive⟩
    · exact hstays (hlive post c st hc hl)
    · rcases hlive post c st hc hl with hcont | ⟨rfl, -⟩
      · exact hstays hcont
      · exact hcl
  deciding := by
    intro q c hq
    obtain hq₀ | ⟨⟨post, hc⟩, heq⟩ := h.decides_cases hq
    · obtain ⟨post, st, hc, hl⟩ := hp.deciding q c hq₀
      obtain ⟨st', hc', hl'⟩ := h.live_stays hs hd hc hl
      exact ⟨post, st', hc', hl'⟩
    · exact ⟨post, .pendingApproval, by rw [heq, hc], rfl⟩

end Board

/-- The invariant of the runs that reject nothing. -/
structure PairedInvariant (s : ClaimState) : Prop extends ClaimInvariant s where
  paired : s.board.Paired

theorem ClaimInit.pairedInvariant {s : ClaimState} (h : ClaimInit s) : PairedInvariant s where
  toClaimInvariant := h.invariant
  paired := by
    have hc : ∀ c, s.board.claim c = none := h.claimAt
    have hi : ∀ p, s.board.intent p = .none_ := fun p => by simp [board, h.calls p, Call.intent]
    refine ⟨fun post hpost => ?_, by simp [hc], by simp [hi, Intent.decides]⟩
    obtain ⟨row, hrow, -, hst⟩ := exists_post hpost
    exact absurd hst (h.not_claimed row hrow)

theorem NoRejection.decision {s : ClaimState} (h : NoRejection s a) (c : ℕ) :
    s.decision a ≠ .reject c := by
  cases a with
  | rejectWrite p => exact h.elim
  | approveWrite p => simp only [ClaimState.decision]; split <;> simp
  | _ => simp [ClaimState.decision]

theorem PairedInvariant.step (h : PairedInvariant s) (hok : NoRejection s a)
    (ha : claimStep s a = some t) : PairedInvariant t where
  toClaimInvariant := h.toClaimInvariant.step ha
  paired := (claimStep_board h.wellFormed ha).paired h.sound h.paired hok.decision

theorem PairedInvariant.postsAgree {s : ClaimState} (h : PairedInvariant s) : PostsAgree s := by
  intro post hpost
  have hat := h.wellFormed.post_of_mem hpost
  have hex : post.status = .claimed → s.db.liveClaims post.id ≠ [] := by
    intro hst
    rw [hst] at hat
    obtain ⟨c, st, hc, hl⟩ := h.paired.claimed post.id hat
    obtain ⟨row, hrow, rfl, hpid, rfl⟩ := exists_claim hc
    exact List.ne_nil_of_mem (ClaimDb.mem_liveClaims.2 ⟨hrow, hpid, hl⟩)
  refine ⟨fun hst => ?_, fun hnil hst => hex hst hnil⟩
  have hle := h.length_liveClaims_le_one post.id
  have hpos := List.length_pos_iff.2 (hex hst)
  omega

/-- A rejection takes the live claim away from a post that stays claimed. -/
theorem PairedInvariant.reject_breaks {p : ℕ} (h : PairedInvariant s)
    (ha : claimStep s (.rejectWrite p) = some t) : ¬ PostsAgree t := by
  have hinv := h.toClaimInvariant.step ha
  have hboard := claimStep_board h.wellFormed ha
  simp only [claimStep] at ha
  split at ha
  · rename_i claim reason hp
    have hd : s.decision (.rejectWrite p) = .reject claim.id := by simp [ClaimState.decision, hp]
    rw [hd] at hboard
    generalize hb' : t.board = b' at hboard
    cases hboard with
    | reject q hq hc =>
      rename_i post st
      obtain ⟨post', st', hc', hl⟩ := h.paired.deciding q claim.id (.inr hq)
      obtain ⟨rfl, rfl⟩ : post = post' ∧ st = st' := by simpa using hc.symm.trans hc'
      have hclaimed := h.paired.live post claim.id st hc hl
      have hpost : t.board.post post = some .claimed := by rw [hb']; exact hclaimed
      obtain ⟨row, hrow, rfl, hst⟩ := exists_post hpost
      intro hagree
      have hlen := (hagree row hrow).1 hst
      obtain ⟨c, hcm⟩ :=
        List.exists_mem_of_length_pos (by omega : 0 < (t.db.liveClaims row.id).length)
      obtain ⟨hcm, hpid, hlive⟩ := ClaimDb.mem_liveClaims.1 hcm
      have hat := hinv.wellFormed.claim_of_mem hcm
      rw [hb', hpid] at hat
      by_cases hid : c.id = claim.id
      · simp only [hid, update_self, Option.some.injEq, Prod.mk.injEq, true_and] at hat
        rw [← hat] at hlive
        cases hlive
      · simp only [ne_eq, hid, not_false_eq_true, update_of_ne] at hat
        exact hid (h.sound.index row.id c.id claim.id _ _ hat hc
          (MarketplaceClaimStatus.indexed_of_live hlive)
          (MarketplaceClaimStatus.indexed_of_live hl))
  · cases ha

/-- **Posts and claims agree exactly as long as nothing is rejected.** From any start, every state
of a run has its claimed posts held by exactly one live claim if and only if no step of the run
writes a rejection. -/
theorem posts_agree_iff_no_rejection {s t : ClaimState} {as : List ClaimAction}
    (h₀ : ClaimInit s) (ht : exec claimStep s as = some t) :
    Always claimStep PostsAgree s as ↔ Meets claimStep NoRejection s as := by
  refine always_iff_meets (fun _ hs => hs.postsAgree) (fun _ _ _ hs hok ha => hs.step hok ha) ?_
    h₀.pairedInvariant ht
  intro s a t hs hno ha
  cases a with
  | rejectWrite p => exact hs.reject_breaks ha
  | _ => exact absurd trivial hno

theorem posts_agree_on_approvalRun :
    Always claimStep PostsAgree openPostStart (racingRun ++ approvalRun) := by
  obtain ⟨t, ht, -⟩ :
      ∃ t, exec claimStep openPostStart (racingRun ++ approvalRun) = some t ∧ True :=
    exists_exec (by decide)
  refine (posts_agree_iff_no_rejection claimInit_openPostStart ht).2 (meets_of_mem ?_)
  simp [racingRun, approvalRun, NoRejection]

/-- A supervisor rejects the claim that holds the post. -/
def rejectionRun : List ClaimAction :=
  [.rejectRead 3 7 10 "short notice", .rejectWrite 3]

theorem rejection_strands_post : ClaimInit openPostStart ∧
    ∃ t, exec claimStep openPostStart (racingRun ++ rejectionRun) = some t ∧ ¬ PostsAgree t :=
  ⟨claimInit_openPostStart, exists_exec (by decide)⟩

end Workforce.Marketplace
