import Workforce.Marketplace.Claims

/-!
# The claim board

What the tables and the calls of `Workforce.Marketplace.Claims` amount to: for every post its
status, for every claim the post it is for and its status, how often its approval was recorded,
and which claim each call in flight is about to write. `Board.Step` says everything a step can do
to that; every step of the calls is such a step (`Workforce.Marketplace.Refinement`).

`Board.Sound` is the invariant of all interleavings. A claim *contends* for its post when it is
live, or when a call has read it as pending and may still decide it; at most one claim contends
for a post, and a post that is contended for is no longer open.
-/

namespace Workforce.Marketplace

open Tables Function

/-- The claim a call is going to write. -/
inductive Intent
  | none_
  | validating (claimId : ℕ)
  | approving (claimId : ℕ)
  | rejecting (claimId : ℕ)

/-- The call has read the claim as pending and will decide it. -/
def Intent.decides (i : Intent) (c : ℕ) : Prop := i = .approving c ∨ i = .rejecting c

theorem Intent.decides.unique {i : Intent} {c c' : ℕ} (h : i.decides c) (h' : i.decides c') :
    c = c' := by
  rcases h with rfl | rfl <;> simpa [Intent.decides] using h'

theorem Intent.decides_update {f : ℕ → Intent} {i : Intent} {p q c : ℕ}
    (h : (update f p i q).decides c) : i.decides c ∨ (f q).decides c := by
  by_cases hq : q = p
  · subst hq
    exact .inl (by simpa using h)
  · exact .inr (by simpa [hq] using h)

structure Board where
  post : ℕ → Option MarketplacePostStatus
  claim : ℕ → Option (ℕ × MarketplaceClaimStatus)
  approvals : ℕ → ℕ
  intent : ℕ → Intent

/-- The decision a step writes, if it writes one. -/
inductive Decision
  | none_
  | approve (claimId : ℕ)
  | reject (claimId : ℕ)

namespace Board

/-- No other claim on the post has a status of the partial unique index. -/
def IndexFree (b : Board) (post c : ℕ) : Prop :=
  ∀ c' st, c' ≠ c → b.claim c' = some (post, st) → st.indexed = false

/-- What one step can do to the board. -/
inductive Step : Decision → Board → Board → Prop
  /-- A call starts, ends or loads a post. -/
  | idle {b : Board} (p : ℕ) : Step .none_ b { b with intent := update b.intent p .none_ }
  /-- A call loads a claim that is pending approval. -/
  | read {b : Board} (p : ℕ) {c post : ℕ} {i : Intent} (hi : i.decides c)
      (hc : b.claim c = some (post, .pendingApproval)) :
      Step .none_ b { b with intent := update b.intent p i }
  /-- A new claim enters, to be validated. -/
  | enter {b : Board} (p : ℕ) {c post : ℕ} (hc : b.claim c = none) (hx : b.IndexFree post c) :
      Step .none_ b { b with
        claim := update b.claim c (some (post, .pendingValidation))
        intent := update b.intent p (.validating c) }
  /-- Validation fails; a post whose shift is gone expires. -/
  | lose {b : Board} (p : ℕ) {c post : ℕ} {st : MarketplaceClaimStatus} (expires : Bool)
      (hp : b.intent p = .validating c) (hc : b.claim c = some (post, st)) :
      Step .none_ b { b with
        post := if expires then update b.post post (some .expired) else b.post
        claim := update b.claim c (some (post, .rejected))
        intent := update b.intent p .none_ }
  /-- Validation passes on an open post. -/
  | win {b : Board} (p : ℕ) {c post : ℕ} {st : MarketplaceClaimStatus} (auto : Bool)
      (hp : b.intent p = .validating c) (hc : b.claim c = some (post, st))
      (ho : b.post post = some .open_) :
      Step .none_ b { b with
        post := update b.post post (some .claimed)
        claim := update b.claim c (some (post, if auto then .approved else .pendingApproval))
        approvals := if auto then update b.approvals c (b.approvals c + 1) else b.approvals
        intent := update b.intent p .none_ }
  /-- The winner of a bid gets an open post. -/
  | bid {b : Board} (p : ℕ) {c post : ℕ} (auto : Bool) (hc : b.claim c = none)
      (hx : b.IndexFree post c) (ho : b.post post = some .open_) :
      Step .none_ b { b with
        post := update b.post post (some .claimed)
        claim := update b.claim c (some (post, if auto then .approved else .pendingApproval))
        approvals := if auto then update b.approvals c (b.approvals c + 1) else b.approvals
        intent := update b.intent p .none_ }
  /-- A loaded claim is written as approved and the approval recorded. -/
  | approve {b : Board} (p : ℕ) {c post : ℕ} {st : MarketplaceClaimStatus}
      (hp : b.intent p = .approving c) (hc : b.claim c = some (post, st))
      (hx : b.IndexFree post c) :
      Step (.approve c) b { b with
        claim := update b.claim c (some (post, .approved))
        approvals := update b.approvals c (b.approvals c + 1)
        intent := update b.intent p .none_ }
  /-- A loaded claim is written as rejected. -/
  | reject {b : Board} (p : ℕ) {c post : ℕ} {st : MarketplaceClaimStatus}
      (hp : b.intent p = .rejecting c) (hc : b.claim c = some (post, st)) :
      Step (.reject c) b { b with
        claim := update b.claim c (some (post, .rejected))
        intent := update b.intent p .none_ }

/-! ## What a step does to one claim and one call -/

section Step

variable {d : Decision} {b b' : Board}

theorem Step.post_open (h : Step d b b') {post : ℕ} (ho : b'.post post = some .open_) :
    b.post post = some .open_ := by
  cases h with
  | idle | read | enter | approve | reject => exact ho
  | lose p expires =>
    cases expires with
    | false => exact ho
    | true =>
      obtain ⟨-, hne⟩ | ⟨-, hb⟩ := update_apply_eq_iff.1 ho
      · cases hne
      · exact hb
  | win | bid =>
    obtain ⟨-, hne⟩ | ⟨-, hb⟩ := update_apply_eq_iff.1 ho
    · cases hne
    · exact hb

/-- A step writes no claim, or one: a new one, one the call validates, or one the call decides. -/
theorem Step.claim_cases (h : Step d b b') :
    b'.claim = b.claim ∨ ∃ p c post st', b'.claim = update b.claim c (some (post, st')) ∧
      (b.claim c = none ∧ b.IndexFree post c ∨
        ∃ st, b.claim c = some (post, st) ∧ st' ≠ .pendingValidation ∧ b'.intent p = .none_ ∧
          (b.intent p = .validating c ∨
            (b.intent p).decides c ∧ (st'.indexed → b.IndexFree post c))) := by
  cases h with
  | idle | read => exact .inl rfl
  | @enter _ p c post hc hx => exact .inr ⟨p, c, post, _, rfl, .inl ⟨hc, hx⟩⟩
  | @bid _ p c post auto hc hx ho => exact .inr ⟨p, c, post, _, rfl, .inl ⟨hc, hx⟩⟩
  | @lose _ p c post st expires hp hc =>
    exact .inr ⟨p, c, post, _, rfl, .inr ⟨st, hc, nofun, update_self .., .inl hp⟩⟩
  | @win _ p c post st auto hp hc ho =>
    have hne : (if auto then .approved else .pendingApproval) ≠
        MarketplaceClaimStatus.pendingValidation := by
      cases auto <;> nofun
    exact .inr ⟨p, c, post, _, rfl, .inr ⟨st, hc, hne, update_self .., .inl hp⟩⟩
  | @approve _ p c post st hp hc hx =>
    refine .inr ⟨p, c, post, _, rfl, .inr ⟨st, hc, nofun, update_self .., .inr ⟨.inl hp, ?_⟩⟩⟩
    exact fun _ => hx
  | @reject _ p c post st hp hc =>
    refine .inr ⟨p, c, post, _, rfl, .inr ⟨st, hc, nofun, update_self .., .inr ⟨.inr hp, ?_⟩⟩⟩
    exact nofun

theorem Step.claim_some (h : Step d b b') {c post : ℕ} {st : MarketplaceClaimStatus}
    (hc : b.claim c = some (post, st)) :
    ∃ st', b'.claim c = some (post, st') ∧
      (st ≠ .pendingValidation → st' ≠ .pendingValidation) := by
  obtain heq | ⟨p, c₀, post₀, st', heq, hw⟩ := h.claim_cases
  · exact ⟨st, by rw [heq, hc], id⟩
  by_cases hcc : c = c₀
  · subst hcc
    obtain ⟨hnone, -⟩ | ⟨st₀, hc₀, hne, -⟩ := hw
    · simp [hnone] at hc
    · obtain ⟨rfl, -⟩ : post₀ = post ∧ st₀ = st := by simpa using hc₀.symm.trans hc
      exact ⟨st', by simp [heq], fun _ => hne⟩
  · exact ⟨st, by rw [heq, update_of_ne hcc, hc], id⟩

/-- A call that decides a claim did so before, or has just read the claim as pending. -/
theorem Step.decides_cases (h : Step d b b') {q c : ℕ} (hq : (b'.intent q).decides c) :
    (b.intent q).decides c ∨
      (∃ post, b.claim c = some (post, .pendingApproval)) ∧ b'.claim = b.claim := by
  cases h with
  | idle | lose | win | bid | approve | reject | enter =>
    obtain hd | hd := Intent.decides_update hq
    · simp [Intent.decides] at hd
    · exact .inl hd
  | read p hi hc =>
    obtain hd | hd := Intent.decides_update hq
    · obtain rfl := hi.unique hd
      exact .inr ⟨⟨_, hc⟩, rfl⟩
    · exact .inl hd

/-- A call that validates a claim did so before, or has just inserted the claim. -/
theorem Step.validating_cases (h : Step d b b') {q c : ℕ} (hq : b'.intent q = .validating c) :
    b.intent q = .validating c ∨
      b.claim c = none ∧ (∃ post, b'.claim c = some (post, .pendingValidation)) ∧
        ∀ q' ≠ q, b'.intent q' = b.intent q' := by
  have hother : ∀ {p : ℕ} {i : Intent}, i ≠ .validating c →
      update b.intent p i q = .validating c → b.intent q = .validating c := by
    intro p i hi hv
    obtain ⟨-, hv⟩ | ⟨-, hv⟩ := update_apply_eq_iff.1 hv
    · exact absurd hv hi
    · exact hv
  cases h with
  | idle | lose | win | bid | approve | reject => exact .inl (hother (by nofun) hq)
  | read p hi hc => exact .inl (hother (by rintro rfl; simp [Intent.decides] at hi) hq)
  | @enter _ p c₀ post hc hx =>
    obtain ⟨rfl, hv⟩ | ⟨-, hv⟩ := update_apply_eq_iff.1 hq
    · obtain rfl : c₀ = c := by simpa using hv
      exact .inr ⟨hc, ⟨post, by simp⟩, fun q' hne => update_of_ne hne ..⟩
    · exact .inl hv

end Step

/-! ## The invariant of all interleavings -/

/-- The claim is live on the post, or a call that read it as pending may still decide it. -/
def Contends (b : Board) (post c : ℕ) : Prop :=
  ∃ st, b.claim c = some (post, st) ∧ (st.live ∨ ∃ p, (b.intent p).decides c)

structure Sound (b : Board) : Prop where
  /-- A claim being validated is still pending validation. -/
  validating : ∀ p c, b.intent p = .validating c →
    ∃ post, b.claim c = some (post, .pendingValidation)
  /-- A claim is validated by one call only. -/
  validating_inj : ∀ p q c, b.intent p = .validating c → b.intent q = .validating c → p = q
  /-- A claim being decided exists and is past validation. -/
  deciding : ∀ p c, (b.intent p).decides c →
    ∃ post st, b.claim c = some (post, st) ∧ st ≠ .pendingValidation
  /-- The partial unique index. -/
  index : ∀ post c c' st st', b.claim c = some (post, st) → b.claim c' = some (post, st') →
    st.indexed → st'.indexed → c = c'
  /-- One contender for each post. -/
  unique : ∀ post c c', b.Contends post c → b.Contends post c' → c = c'
  /-- A post that is contended for has been closed. -/
  closed : ∀ post c, b.Contends post c → b.post post ≠ some .open_

/-! ## Every step keeps it -/

section Sound

variable {d : Decision} {b b' : Board}

theorem Sound.indexFree (hs : b.Sound) {c post : ℕ} {st : MarketplaceClaimStatus}
    (hc : b.claim c = some (post, st)) (hi : st.indexed = true) : b.IndexFree post c := by
  intro c' st' hne hc'
  by_contra hi'
  exact hne (hs.index post c' c st' st hc' hc (by simpa using hi') hi)

/-- Only the call that validates a claim writes it, and that call ends with the write. -/
theorem Step.claim_of_validating (h : Step d b b') (hs : b.Sound) {q c : ℕ}
    (hq : b.intent q = .validating c) (hq' : b'.intent q = .validating c) :
    b'.claim c = b.claim c := by
  obtain ⟨post, hc⟩ := hs.validating q c hq
  obtain heq | ⟨p, c₀, post₀, st', heq, hw⟩ := h.claim_cases
  · rw [heq]
  rw [heq]
  refine update_of_ne ?_ ..
  rintro rfl
  obtain ⟨hnone, -⟩ | ⟨st₀, -, -, hend, hv | ⟨hd, -⟩⟩ := hw
  · simp [hnone] at hc
  · obtain rfl := hs.validating_inj p q c hv hq
    rw [hend] at hq'
    cases hq'
  · obtain ⟨post', st, hc', hne⟩ := hs.deciding p c hd
    obtain ⟨-, rfl⟩ : post' = post ∧ st = .pendingValidation := by simpa using hc'.symm.trans hc
    exact hne rfl

/-- A written claim that gets an indexed status has no rival in the index. -/
theorem Step.indexed_write (h : Step d b b') (hs : b.Sound) :
    b'.claim = b.claim ∨ ∃ c post st', b'.claim = update b.claim c (some (post, st')) ∧
      (st'.indexed = true → b.IndexFree post c) := by
  obtain heq | ⟨p, c, post, st', heq, hw⟩ := h.claim_cases
  · exact .inl heq
  refine .inr ⟨c, post, st', heq, fun hi => ?_⟩
  obtain ⟨-, hx⟩ | ⟨st, hc, -, -, hv | ⟨-, hx⟩⟩ := hw
  · exact hx
  · obtain ⟨post', hc'⟩ := hs.validating p c hv
    obtain ⟨rfl, -⟩ : post' = post ∧ .pendingValidation = st := by simpa using hc'.symm.trans hc
    exact hs.indexFree hc' rfl
  · exact hx hi

theorem Step.contends_of_decides (h : Step d b b') (hs : b.Sound) {q c post : ℕ}
    {st : MarketplaceClaimStatus} (hq : (b'.intent q).decides c)
    (hc : b'.claim c = some (post, st)) : b.Contends post c := by
  obtain hq | ⟨⟨post', hc'⟩, heq⟩ := h.decides_cases hq
  · obtain ⟨post', st', hc', -⟩ := hs.deciding q c hq
    obtain ⟨st'', hc'', -⟩ := h.claim_some hc'
    obtain ⟨rfl, -⟩ : post' = post ∧ st'' = st := by simpa using hc''.symm.trans hc
    exact ⟨st', hc', .inr ⟨q, hq⟩⟩
  · rw [heq, hc'] at hc
    obtain ⟨rfl, rfl⟩ : post' = post ∧ .pendingApproval = st := by simpa using hc
    exact ⟨_, hc', .inl rfl⟩

/-- A step makes a claim live only where it closes an open post, or where it approves a claim that
contended already. -/
theorem Step.live_cases (h : Step d b b') :
    (∀ post c st, b'.claim c = some (post, st) → st.live = true → b.Contends post c) ∨
      ∃ post₀ c₀, b.post post₀ = some .open_ ∧ b'.post post₀ = some .claimed ∧
        ∀ post c st, b'.claim c = some (post, st) → st.live = true →
          b.Contends post c ∨ post = post₀ ∧ c = c₀ := by
  cases h with
  | idle | read => exact .inl fun post c st hc hl => ⟨st, hc, .inl hl⟩
  | enter | lose | reject =>
    refine .inl fun post c st hc hl => ?_
    obtain ⟨-, hst⟩ | ⟨-, hc⟩ := update_apply_eq_iff.1 hc
    · cases hst
      cases hl
    · exact ⟨st, hc, .inl hl⟩
  | @win _ p c₀ post₀ _ auto _ _ ho | @bid _ p c₀ post₀ auto _ _ ho =>
    refine .inr ⟨post₀, c₀, ho, update_self .., fun post c st hc hl => ?_⟩
    obtain ⟨rfl, hst⟩ | ⟨-, hc⟩ := update_apply_eq_iff.1 hc
    · exact .inr ⟨(Prod.mk.inj (Option.some.inj hst)).1.symm, rfl⟩
    · exact .inl ⟨st, hc, .inl hl⟩
  | @approve _ p c₀ post₀ st₀ hp hc₀ hx =>
    refine .inl fun post c st hc hl => ?_
    obtain ⟨rfl, hst⟩ | ⟨-, hc⟩ := update_apply_eq_iff.1 hc
    · cases hst
      exact ⟨st₀, hc₀, .inr ⟨p, .inl hp⟩⟩
    · exact ⟨st, hc, .inl hl⟩

/-- A step adds a contender only where it closes an open post. -/
theorem Step.contends (h : Step d b b') (hs : b.Sound) :
    (∀ post c, b'.Contends post c → b.Contends post c) ∨
      ∃ post₀ c₀, b.post post₀ = some .open_ ∧ b'.post post₀ = some .claimed ∧
        ∀ post c, b'.Contends post c → b.Contends post c ∨ post = post₀ ∧ c = c₀ := by
  rcases h.live_cases with hlive | ⟨post₀, c₀, ho, hcl, hlive⟩
  · refine .inl fun post c ⟨st, hc, hcont⟩ => ?_
    rcases hcont with hl | ⟨q, hq⟩
    · exact hlive post c st hc hl
    · exact h.contends_of_decides hs hq hc
  · refine .inr ⟨post₀, c₀, ho, hcl, fun post c ⟨st, hc, hcont⟩ => ?_⟩
    rcases hcont with hl | ⟨q, hq⟩
    · exact hlive post c st hc hl
    · exact .inl (h.contends_of_decides hs hq hc)

theorem Step.sound (h : Step d b b') (hs : b.Sound) : b'.Sound where
  validating := by
    intro q c hq
    obtain hq₀ | ⟨-, hc, -⟩ := h.validating_cases hq
    · rw [h.claim_of_validating hs hq₀ hq]
      exact hs.validating q c hq₀
    · exact hc
  validating_inj := by
    intro p q c hp hq
    by_contra hne
    obtain hp₀ | ⟨hnone, -, hother⟩ := h.validating_cases hp
    · obtain hq₀ | ⟨hnone, -, -⟩ := h.validating_cases hq
      · exact hne (hs.validating_inj p q c hp₀ hq₀)
      · obtain ⟨post, hc⟩ := hs.validating p c hp₀
        simp [hnone] at hc
    · rw [hother q (Ne.symm hne)] at hq
      obtain ⟨post, hc⟩ := hs.validating q c hq
      simp [hnone] at hc
  deciding := by
    intro q c hq
    obtain hq₀ | ⟨⟨post, hc⟩, heq⟩ := h.decides_cases hq
    · obtain ⟨post, st, hc, hne⟩ := hs.deciding q c hq₀
      obtain ⟨st', hc', hne'⟩ := h.claim_some hc
      exact ⟨post, st', hc', hne' hne⟩
    · exact ⟨post, .pendingApproval, by rw [heq, hc], nofun⟩
  index := by
    intro post c c' st st' hc hc' hi hi'
    by_contra hne
    obtain heq | ⟨c₀, post₀, st₀, heq, hx⟩ := h.indexed_write hs
    · rw [heq] at hc hc'
      exact hne (hs.index post c c' st st' hc hc' hi hi')
    rw [heq] at hc hc'
    -- at most one of the two claims is the one written; it has no rival
    obtain ⟨rfl, hst⟩ | ⟨-, hold⟩ := update_apply_eq_iff.1 hc
    · cases hst
      rw [update_of_ne (Ne.symm hne)] at hc'
      simp [hx hi c' st' (Ne.symm hne) hc'] at hi'
    · obtain ⟨rfl, hst⟩ | ⟨-, hold'⟩ := update_apply_eq_iff.1 hc'
      · cases hst
        simp [hx hi' c st hne hold] at hi
      · exact hne (hs.index post c c' st st' hold hold' hi hi')
  unique := by
    intro post c c' hc hc'
    rcases h.contends hs with hall | ⟨post₀, c₀, ho, -, hall⟩
    · exact hs.unique post c c' (hall _ _ hc) (hall _ _ hc')
    · rcases hall _ _ hc with h₁ | ⟨rfl, rfl⟩ <;> rcases hall _ _ hc' with h₂ | ⟨h₃, h₄⟩
      · exact hs.unique post c c' h₁ h₂
      · exact absurd ho (h₃ ▸ hs.closed _ _ h₁)
      · exact absurd ho (hs.closed _ _ h₂)
      · exact h₄.symm
  closed := by
    intro post c hc ho
    have ho' := h.post_open ho
    rcases h.contends hs with hall | ⟨post₀, c₀, -, hcl, hall⟩
    · exact hs.closed post c (hall _ _ hc) ho'
    · rcases hall _ _ hc with h₁ | ⟨rfl, -⟩
      · exact hs.closed post c h₁ ho'
      · simp [ho] at hcl

end Sound

end Board

end Workforce.Marketplace
