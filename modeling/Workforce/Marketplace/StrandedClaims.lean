import Workforce.Marketplace.Winners

/-!
# Claims that no call is going to settle

`processClaim` commits its `pending_validation` claim before it asks the guardrail, and settles it
in a transaction of its own afterwards. Between the two the open post has a claim of the partial
unique index, and the call in flight is all that will ever take it out again.

`none_stranded_iff`: along a run no open post is left with such a claim and no call, exactly as
long as no validating call gives up on an open post. A rejection, an unavailable guardrail and a
stale post all settle the claim; a failure of the settling write does not, and nothing else looks
for the claim later: it stays where it is in every run that follows (`Stranded.exec`), and every
further claim of the post is refused (`abandoned_claim_blocks_post`).
-/

namespace Workforce.Marketplace

open Tables Function Runs ClaimState

/-- An open post has a claim of the unique index only while a call is validating the claim. -/
def NoneStranded (s : ClaimState) : Prop :=
  ∀ post ∈ s.db.posts, post.status = .open_ → ∀ claim ∈ s.db.claims,
    claim.marketplacePostId = post.id → claim.status.indexed = true →
      ∃ p, (s.calls p).intent = .validating claim.id

/-- The call does not give up while it validates a claim of an open post. -/
def KeepsValidating (s : ClaimState) : ClaimAction → Prop
  | .abandon p => ∀ claim, s.calls p = .validating claim →
      s.db.postAt claim.marketplacePostId ≠ some .open_
  | _ => True

namespace Board

variable {d : Decision} {b b' : Board}

/-- The claim is in the unique index for a post that is open. -/
def Blocks (b : Board) (c post : ℕ) : Prop :=
  b.post post = some .open_ ∧ ∃ st, b.claim c = some (post, st) ∧ st.indexed = true

def Attended (b : Board) : Prop := ∀ c post, b.Blocks c post → ∃ p, b.intent p = .validating c

theorem Step.new_claim (h : Step d b b') {c post : ℕ} {st : MarketplaceClaimStatus}
    (hnone : b.claim c = none) (hc : b'.claim c = some (post, st)) :
    (∃ p, b'.intent p = .validating c) ∨ b'.post post = some .claimed := by
  have hwrote : ∀ {c₀ : ℕ} {x : ℕ × MarketplaceClaimStatus},
      update b.claim c₀ (some x) c = some (post, st) → c = c₀ ∧ x.1 = post := by
    intro c₀ x hx
    obtain ⟨hcc, hx⟩ | ⟨-, hold⟩ := update_apply_eq_iff.1 hx
    · exact ⟨hcc, by rw [Option.some.inj hx]⟩
    · simp [hnone] at hold
  cases h with
  | idle | read => simp [hnone] at hc
  | enter p =>
    obtain ⟨rfl, -⟩ := hwrote hc
    exact .inl ⟨p, update_self ..⟩
  | bid =>
    obtain ⟨-, rfl⟩ := hwrote hc
    exact .inr (update_self ..)
  | lose p expires hp hc₀ | win p auto hp hc₀ | approve p hp hc₀ | reject p hp hc₀ =>
    obtain ⟨rfl, -⟩ := hwrote hc
    simp [hnone] at hc₀

theorem Step.blocks (h : Step d b b') (hs : b.Sound) {c post : ℕ} (hb : b'.Blocks c post) :
    b.Blocks c post ∨ ∃ p, b'.intent p = .validating c := by
  obtain ⟨ho, st, hc, hi⟩ := hb
  have hopen := h.post_open ho
  cases hc₀ : b.claim c with
  | none =>
    obtain hp | hcl := h.new_claim hc₀ hc
    · exact .inr hp
    · simp [ho] at hcl
  | some x =>
    obtain ⟨post₀, st₀⟩ := x
    obtain ⟨st', hc', -⟩ := h.claim_some hc₀
    obtain ⟨rfl, rfl⟩ : post₀ = post ∧ st' = st := by simpa using hc'.symm.trans hc
    refine .inl ⟨hopen, st₀, hc₀, ?_⟩
    obtain heq | ⟨p, c₁, post₁, st₁, heq, hw⟩ := h.claim_cases
    · rw [heq, hc₀] at hc
      obtain rfl : st₀ = st' := by simpa using hc
      exact hi
    by_cases hcc : c = c₁
    · subst hcc
      obtain ⟨hnone, -⟩ | ⟨st₂, hc₂, -, -, hv | ⟨hd, -⟩⟩ := hw
      · simp [hnone] at hc₀
      · obtain ⟨post', hval⟩ := hs.validating p c hv
        obtain ⟨-, rfl⟩ : _ ∧ .pendingValidation = st₀ := by simpa using hval.symm.trans hc₀
        rfl
      · -- a claim that is being decided has closed its post
        exact absurd hopen (hs.closed post₀ c ⟨st₀, hc₀, .inr ⟨p, hd⟩⟩)
    · rw [heq, update_of_ne hcc, hc₀] at hc
      obtain rfl : st₀ = st' := by simpa using hc
      exact hi

/-- When a call stops validating only what no longer blocks, every blocking claim has its call. -/
theorem Step.attended (h : Step d b b') (hs : b.Sound) (ha : b.Attended)
    (hgone : ∀ p c, b.intent p = .validating c → b'.intent p = .validating c ∨
      ∀ post, ¬ b'.Blocks c post) : b'.Attended := by
  intro c post hb
  obtain hb₀ | hp := h.blocks hs hb
  · obtain ⟨p, hp⟩ := ha c post hb₀
    obtain hp' | hno := hgone p c hp
    · exact ⟨p, hp'⟩
    · exact absurd hb (hno post)
  · exact hp

end Board

/-! ## Which steps end a validation -/

variable {s t : ClaimState} {a : ClaimAction} {claim : MarketplaceClaim}

/-- Only its own last transaction, or giving up, ends the validation of a claim. -/
theorem claimStep_validating (ha : claimStep s a = some t) {q : ℕ}
    (hq : s.calls q = .validating claim) :
    t.calls q = s.calls q ∨ (∃ v auto, a = .claimValidated q v auto) ∨ a = .abandon q := by
  have hset : ∀ {p : ℕ} {c : Call} {db : ClaimDb}, p ≠ q →
      (({ s with db } : ClaimState).setCall p c).calls q = s.calls q := by
    intro p c db hne
    simp [ClaimState.setCall, Ne.symm hne]
  cases a with
  | claimRead p tenantId postId claimant | bidRead p tenantId postId winner
  | approveRead p tenantId claimId approver | rejectRead p tenantId claimId reason =>
    simp only [claimStep] at ha
    split at ha
    · rename_i hp _
      cases ha
      exact .inl (hset (by rintro rfl; simp [hq] at hp))
    · cases ha
  | claimInsert p id =>
    simp only [claimStep] at ha
    split at ha
    · rename_i hp
      split at ha
      · cases ha
        exact .inl (hset (by rintro rfl; simp [hq] at hp))
      · cases ha
    · cases ha
  | bidValidated p id validation auto =>
    simp only [claimStep] at ha
    split at ha
    · rename_i hp
      split at ha <;> obtain rfl := Option.some.inj ha <;>
        exact .inl (hset (by rintro rfl; simp [hq] at hp))
    · cases ha
  | approveWrite p | rejectWrite p =>
    simp only [claimStep] at ha
    split at ha
    · rename_i hp
      obtain ⟨db, -, rfl⟩ := toOption_map_eq_some ha
      exact .inl (hset (by rintro rfl; simp [hq] at hp))
    · cases ha
  | claimValidated p v auto =>
    by_cases hpq : p = q
    · exact .inr (.inl ⟨v, auto, by rw [hpq]⟩)
    simp only [claimStep] at ha
    split at ha
    · split at ha <;> obtain ⟨db, -, rfl⟩ := toOption_map_eq_some ha <;> exact .inl (hset hpq)
    · cases ha
  | abandon p =>
    by_cases hpq : p = q
    · exact .inr (.inr (by rw [hpq]))
    cases ha
    exact .inl (hset hpq)

section Settle

variable {s : ClaimState} {p : ℕ} {claim : MarketplaceClaim} {db : ClaimDb}

/-- The last transaction rejects its claim or closes the post. -/
theorem claimFinalize_settles (hw : s.WellFormed) (hp : s.calls p = .validating claim)
    {v : EligibilityResult} {auto : Bool} (h : claimFinalize s.db claim v auto = .ok db) :
    db.claimAt claim.id = some (claim.marketplacePostId, .rejected) ∨
      db.postAt claim.marketplacePostId = some .claimed := by
  have hl : (s.calls p).loaded = some claim := by rw [hp]; rfl
  obtain ⟨st, hc, hsave⟩ := loaded_row hw hl
  unfold claimFinalize at h
  split at h
  · cases h
  rename_i post hpost
  obtain ⟨hid, hat⟩ := ClaimDb.postAt_of_findPost hw.post_ids hpost
  split at h
  · simp only [bind, Except.bind] at h
    split at h
    · cases h
    rename_i db₁ hs
    cases h
    exact .inl (by rw [ClaimDb.claimAt_setPostStatus, hsave hs rfl rfl, update_self])
  split at h
  · exact .inl (by rw [hsave h rfl rfl, update_self])
  split at h
  · exact .inl (by rw [hsave h rfl rfl, update_self])
  · simp only [bind, Except.bind] at h
    split at h
    · cases h
    rename_i db₁ hs
    cases h
    obtain ⟨-, hposts, -⟩ := ClaimDb.saveClaim_ok hs
    have hpost₁ : db₁.postAt claim.marketplacePostId = some .claimed := by
      rw [postAt_congr hposts, hid, ClaimDb.postAt_setPostStatus s.db _ (by rw [hat]; rfl),
        update_self]
    refine .inr ?_
    split
    · exact hpost₁
    · exact hpost₁

theorem claimUnavailable_settles (hw : s.WellFormed) (hp : s.calls p = .validating claim)
    (h : claimUnavailable s.db claim = .ok db) :
    db.claimAt claim.id = some (claim.marketplacePostId, .rejected) := by
  have hl : (s.calls p).loaded = some claim := by rw [hp]; rfl
  obtain ⟨st, hc, hsave⟩ := loaded_row hw hl
  rw [hsave h rfl rfl, update_self]

end Settle

/-- Whatever the guardrail answered, or when it did not, the claim blocks nothing afterwards. -/
theorem claimValidated_settles {p : ℕ} {v : Option EligibilityResult} {auto : Bool}
    (hw : s.WellFormed) (hp : s.calls p = .validating claim)
    (ha : claimStep s (.claimValidated p v auto) = some t) (post : ℕ) :
    ¬ t.board.Blocks claim.id post := by
  have hsettled : t.db.claimAt claim.id = some (claim.marketplacePostId, .rejected) ∨
      t.db.postAt claim.marketplacePostId = some .claimed := by
    simp only [claimStep, hp] at ha
    cases v with
    | none =>
      obtain ⟨db, hdb, rfl⟩ := toOption_map_eq_some ha
      exact .inl (claimUnavailable_settles hw hp hdb)
    | some v =>
      obtain ⟨db, hdb, rfl⟩ := toOption_map_eq_some ha
      exact claimFinalize_settles hw hp hdb
  rintro ⟨ho, st, hc, hi⟩
  obtain ⟨st₀, hc₀⟩ := hw.loaded p claim (by rw [hp]; rfl)
  obtain ⟨st', hc', -⟩ := (claimStep_board hw ha).claim_some hc₀
  obtain ⟨rfl, rfl⟩ : claim.marketplacePostId = post ∧ st' = st := by simpa using hc'.symm.trans hc
  obtain hrej | hcl := hsettled
  · obtain rfl : .rejected = st' := by simpa using hrej.symm.trans hc
    cases hi
  · simp [board, hcl] at ho

theorem noneStranded_iff {s : ClaimState} (hw : s.WellFormed) :
    NoneStranded s ↔ s.board.Attended := by
  constructor
  · rintro h c post ⟨ho, st, hc, hi⟩
    obtain ⟨row, hrow, rfl, hpid, rfl⟩ := exists_claim hc
    obtain ⟨prow, hprow, rfl, hst⟩ := exists_post ho
    exact h prow hprow hst row hrow hpid hi
  · intro h post hpost hst claim hclaim hpid hi
    refine h claim.id post.id ⟨by rw [hw.post_of_mem hpost, hst], claim.status, ?_, hi⟩
    rw [hw.claim_of_mem hclaim, hpid]

/-! ## A stranded claim stays -/

namespace Board

variable {d : Decision} {b b' : Board} {c post : ℕ}

/-- Nobody writes a pending claim that no call validates. -/
theorem Step.blocking_claim_stays (h : Step d b b') (hs : b.Sound)
    (ho : b.post post = some .open_) (hc : b.claim c = some (post, .pendingValidation))
    (hnobody : ∀ p, b.intent p ≠ .validating c) :
    b'.claim c = some (post, .pendingValidation) := by
  obtain heq | ⟨p, c₀, post₀, st', heq, hw⟩ := h.claim_cases
  · rw [heq, hc]
  have hne : c ≠ c₀ := by
    rintro rfl
    obtain ⟨hnone, -⟩ | ⟨st, -, -, -, hv | ⟨hd, -⟩⟩ := hw
    · simp [hc] at hnone
    · exact hnobody p hv
    · exact hs.closed post c ⟨_, hc, .inr ⟨p, hd⟩⟩ ho
  rw [heq, update_of_ne hne, hc]

/-- The post of a pending claim that no call validates stays open: a post is closed or expires on
behalf of a claim of the index on it, and the index admits no second one. -/
theorem Step.blocked_post_stays (h : Step d b b') (hs : b.Sound)
    (ho : b.post post = some .open_) (hc : b.claim c = some (post, .pendingValidation))
    (hnobody : ∀ p, b.intent p ≠ .validating c) : b'.post post = some .open_ := by
  have hother : ∀ {p c₀ post₀ : ℕ} {st₀ : MarketplaceClaimStatus}, b.intent p = .validating c₀ →
      b.claim c₀ = some (post₀, st₀) → post ≠ post₀ := by
    rintro p c₀ post₀ st₀ hv hc₀ rfl
    obtain ⟨post', hval⟩ := hs.validating p c₀ hv
    obtain ⟨rfl, rfl⟩ : post' = post ∧ .pendingValidation = st₀ := by
      simpa using hval.symm.trans hc₀
    obtain rfl := hs.index _ _ _ _ _ hc₀ hc rfl rfl
    exact hnobody p hv
  cases h with
  | idle | read | enter | approve | reject => exact ho
  | lose p expires hv hc₀ =>
    cases expires with
    | false => exact ho
    | true => exact (update_of_ne (hother hv hc₀) ..).trans ho
  | win p auto hv hc₀ => exact (update_of_ne (hother hv hc₀) ..).trans ho
  | @bid _ p c₀ post₀ auto hnone hx =>
    have hne : post ≠ post₀ := by
      rintro rfl
      have hcc : c ≠ c₀ := by
        rintro rfl
        simp [hc] at hnone
      cases hx c _ hcc hc
    exact (update_of_ne hne ..).trans ho

end Board

/-- The claim blocks the open post, and no call is going to write it. -/
structure Stranded (s : ClaimState) (c post : ℕ) : Prop extends ClaimInvariant s where
  open_ : s.board.post post = some .open_
  pending : s.board.claim c = some (post, .pendingValidation)
  nobody : ∀ p, s.board.intent p ≠ .validating c

theorem Stranded.step {c post : ℕ} (h : Stranded s c post) (ha : claimStep s a = some t) :
    Stranded t c post := by
  have hboard := claimStep_board h.wellFormed ha
  refine ⟨h.toClaimInvariant.step ha, ?_, ?_, fun p hp => ?_⟩
  · exact hboard.blocked_post_stays h.sound h.open_ h.pending h.nobody
  · exact hboard.blocking_claim_stays h.sound h.open_ h.pending h.nobody
  · obtain hp₀ | ⟨hnone, -⟩ := hboard.validating_cases hp
    · exact h.nobody p hp₀
    · simp [h.pending] at hnone

theorem Stranded.not_noneStranded {s : ClaimState} {c post : ℕ} (h : Stranded s c post) :
    ¬ NoneStranded s := by
  intro hnone
  obtain ⟨p, hp⟩ := (noneStranded_iff h.wellFormed).1 hnone c post ⟨h.open_, _, h.pending, rfl⟩
  exact h.nobody p hp

/-- No run takes a stranded claim off its post: nothing sweeps the claims. -/
theorem Stranded.exec {as : List ClaimAction} {c post : ℕ} (h : Stranded s c post)
    (ht : exec claimStep s as = some t) : Stranded t c post :=
  exec_keeps (Stranded · c post) (fun _ _ _ hs ha => hs.step ha) h ht

/-- Every further claim of the post is refused, as being claimed already. -/
theorem Stranded.claimInsert_error {s : ClaimState} {c : ℕ} {post : MarketplacePost}
    (h : Stranded s c post.id) (id claimant : ℕ) :
    claimInsert s.db (newOpenShiftClaim id post claimant) =
      .error (.postAlreadyBeingClaimed post.id) := by
  cases hi : claimInsert s.db (newOpenShiftClaim id post claimant) with
  | error e =>
    unfold claimInsert at hi
    split at hi
    · exact hi.symm
    · cases hi
  | ok db =>
    obtain ⟨hnone, hx, -⟩ := ClaimDb.insertClaim_ok (claimInsert_ok hi)
    have hne : c ≠ id := by
      rintro rfl
      exact absurd (hnone.symm.trans h.pending) (by simp)
    cases ClaimDb.indexConflict_eq_false (hx rfl) hne h.pending

/-- A call that gives up on an open post leaves its claim behind. -/
theorem ClaimInvariant.abandon_strands {p : ℕ} (h : ClaimInvariant s)
    (hp : s.calls p = .validating claim) (ho : s.db.postAt claim.marketplacePostId = some .open_)
    (ha : claimStep s (.abandon p) = some t) :
    Stranded t claim.id claim.marketplacePostId := by
  have hinv := h.step ha
  have hint : s.board.intent p = .validating claim.id := by simp [board, hp, Call.intent]
  obtain ⟨post, hc⟩ := h.sound.validating p claim.id hint
  obtain ⟨st, hc₀⟩ := h.wellFormed.loaded p claim (by rw [hp]; rfl)
  obtain ⟨rfl, -⟩ : claim.marketplacePostId = post ∧ st = .pendingValidation := by
    simpa using hc₀.symm.trans hc
  cases ha
  refine ⟨hinv, ho, hc, fun q hq => ?_⟩
  rw [board_setCall] at hq
  obtain ⟨-, hq⟩ | ⟨hne, hq⟩ := update_apply_eq_iff.1 hq
  · cases hq
  · exact hne (h.sound.validating_inj q p claim.id hq hint)

/-- **A failed last transaction shuts the post for good.** When a call of a run gives up its
validation while the post is open, the post stays open in every run that follows, and every further
claim of it is refused at the insert. -/
theorem abandoned_claim_blocks_post {s₀ u : ClaimState} {as bs : List ClaimAction} {p : ℕ}
    {claim : MarketplaceClaim} (h₀ : ClaimInit s₀) (hs : exec claimStep s₀ as = some s)
    (hp : s.calls p = .validating claim) (ho : s.db.postAt claim.marketplacePostId = some .open_)
    (ha : claimStep s (.abandon p) = some t) (hu : exec claimStep t bs = some u) :
    u.db.postAt claim.marketplacePostId = some .open_ ∧
      ∀ (id claimant : ℕ) (post : MarketplacePost), post.id = claim.marketplacePostId →
        claimInsert u.db (newOpenShiftClaim id post claimant) =
          .error (.postAlreadyBeingClaimed post.id) := by
  have hinv : ClaimInvariant s := exec_keeps ClaimInvariant (fun _ _ _ h ha => h.step ha)
    h₀.invariant hs
  have hstranded := (hinv.abandon_strands hp ho ha).exec hu
  exact ⟨hstranded.open_, fun id claimant post hpost =>
    Stranded.claimInsert_error (by rw [hpost]; exact hstranded) id claimant⟩

/-! ## Along a run -/

/-- The invariant of the runs in which no validating call gives up on an open post. -/
structure AttendedInvariant (s : ClaimState) : Prop extends ClaimInvariant s where
  attended : s.board.Attended

theorem ClaimInit.attendedInvariant {s : ClaimState} (h : ClaimInit s) : AttendedInvariant s where
  toClaimInvariant := h.invariant
  attended := by
    rintro c post ⟨-, st, hc, -⟩
    simp [board, h.claimAt c] at hc

theorem AttendedInvariant.step (h : AttendedInvariant s) (hok : KeepsValidating s a)
    (ha : claimStep s a = some t) : AttendedInvariant t where
  toClaimInvariant := h.toClaimInvariant.step ha
  attended := by
    have hboard := claimStep_board h.wellFormed ha
    refine hboard.attended h.sound h.attended fun p c hp => ?_
    obtain ⟨claim, hcall, rfl⟩ : ∃ claim, s.calls p = .validating claim ∧ claim.id = c := by
      simp only [board, Call.intent] at hp
      split at hp <;> simp_all
    obtain heq | ⟨v, auto, rfl⟩ | rfl := claimStep_validating ha hcall
    · exact .inl (by simp [board, heq, hcall, Call.intent])
    · exact .inr (claimValidated_settles h.wellFormed hcall ha)
    · refine .inr fun post hb => hok claim hcall ?_
      obtain ⟨st₀, hc₀⟩ := h.wellFormed.loaded p claim (by rw [hcall]; rfl)
      obtain ⟨ho, st, hc, -⟩ := hb
      obtain ⟨st', hc', -⟩ := hboard.claim_some hc₀
      obtain ⟨rfl, -⟩ : claim.marketplacePostId = post ∧ st' = st := by
        simpa using hc'.symm.trans hc
      exact hboard.post_open ho

/-- **A failed claim leaves the post claimable exactly when its last write goes through.** From any
start, no state of a run has an open post with a claim of the unique index that no call is
validating if and only if no step of the run gives up a validation while the post is open. -/
theorem none_stranded_iff {s t : ClaimState} {as : List ClaimAction} (h₀ : ClaimInit s)
    (ht : exec claimStep s as = some t) :
    Always claimStep NoneStranded s as ↔ Meets claimStep KeepsValidating s as := by
  refine always_iff_meets (fun _ hs => (noneStranded_iff hs.wellFormed).2 hs.attended)
    (fun _ _ _ hs hok ha => hs.step hok ha) ?_ h₀.attendedInvariant ht
  intro s a t hs hno ha
  cases a with
  | abandon p =>
    simp only [KeepsValidating, not_forall, ne_eq, not_not] at hno
    obtain ⟨claim, hp, ho⟩ := hno
    exact (hs.abandon_strands hp ho ha).not_noneStranded
  | _ => exact absurd trivial hno

/-- The guardrail is unavailable for the first claim and rejects the second; the third gets the
post. -/
def failedClaimsRun : List ClaimAction :=
  [.claimRead 0 7 1 40, .claimInsert 0 10, .claimValidated 0 none false,
    .claimRead 1 7 1 41, .claimInsert 1 11, .claimValidated 1 (some ⟨true, false, []⟩) false,
    .claimRead 2 7 1 42, .claimInsert 2 12, .claimValidated 2 (some ⟨true, true, []⟩) true]

theorem none_stranded_by_failedClaimsRun :
    Always claimStep NoneStranded openPostStart failedClaimsRun := by
  obtain ⟨t, ht, -⟩ : ∃ t, exec claimStep openPostStart failedClaimsRun = some t ∧ True :=
    exists_exec (by decide)
  refine (none_stranded_iff claimInit_openPostStart ht).2 (meets_of_mem ?_)
  simp [failedClaimsRun, KeepsValidating]

/-- The last transaction of a claim fails, and so does every later claim of the post. -/
def failedWriteRun : List ClaimAction := [.claimRead 0 7 1 40, .claimInsert 0 10, .abandon 0]

theorem claim_stranded_by_failed_write : ClaimInit openPostStart ∧
    ∃ t, exec claimStep openPostStart failedWriteRun = some t ∧ (∀ p, t.calls p = .idle) ∧
      ¬ NoneStranded t ∧
      claimStep t (.claimRead 1 7 1 41) ≠ none ∧
      exec claimStep t [.claimRead 1 7 1 41, .claimInsert 1 11] = none := by
  refine ⟨claimInit_openPostStart, _, rfl, fun p => ?_, fun h => ?_, by decide, by decide⟩
  · by_cases hp : p = 0 <;> simp [ClaimState.setCall, openPostStart, hp]
  · obtain ⟨p, hp⟩ := h ⟨1, 7, 30, 2, .open_⟩ (by decide) rfl
      (newOpenShiftClaim 10 ⟨1, 7, 30, 2, .open_⟩ 40) (by decide) rfl rfl
    by_cases hp0 : p = 0 <;> simp [ClaimState.setCall, openPostStart, hp0, Call.intent] at hp

theorem failedWriteRun_blocks_post : ∃ t,
    exec claimStep openPostStart (failedWriteRun ++ [.claimRead 1 7 1 41]) = some t ∧
    t.db.postAt 1 = some .open_ ∧ ∀ (id claimant : ℕ) (post : MarketplacePost), post.id = 1 →
      claimInsert t.db (newOpenShiftClaim id post claimant) =
        .error (.postAlreadyBeingClaimed post.id) := by
  have hblocked := abandoned_claim_blocks_post (p := 0) claimInit_openPostStart
    (show exec claimStep openPostStart [.claimRead 0 7 1 40, .claimInsert 0 10] = some _ from rfl)
    rfl rfl rfl (show exec claimStep _ [.claimRead 1 7 1 41] = some _ from rfl)
  exact ⟨_, rfl, hblocked⟩

end Workforce.Marketplace
