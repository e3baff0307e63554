import Mathlib.Data.List.Sort
import Mathlib.Data.Rat.Floor
import Workforce.Foundations.Runs
import Workforce.Foundations.Tables

/-!
# Bids and the close of a bid opportunity

`BidService.submitBid` and `closeBidOpportunity`, the sweep that calls the latter, and the rankings
of `bid-ranking.ts`, over the tables `bid_opportunity` and `bid`.

Both calls read in one transaction and write in another. `submitBid` checks the window, asks the
guardrail and only then inserts; `closeBidOpportunity` reads the bids, asks for the roster where it
ranks by seniority and only then saves the ranks it computed. Between the two parts of a call any
other call may move. The save of the ranks is one transaction and one step.

A close ranks the bids it read. A bid that is inserted afterwards is not among them, and no later
close takes it in: the next one finds the opportunity closed. When no bid arrives after a close has
read, the bids of a closed opportunity are ranked from 1 to their number.

Instants are milliseconds, scores and years of service exact rationals.
-/

namespace Workforce.Marketplace.Bids

open Tables List

/-! ## The tables -/

/-- `BidRankingMethod`. -/
inductive BidRankingMethod
  | seniority | preferenceScore | firstCome
  deriving DecidableEq

structure BidOpportunity where
  id : ℕ
  tenantId : ℕ
  marketplacePostId : ℕ
  biddingWindowStart : ℤ
  biddingWindowEnd : ℤ
  rankingMethod : BidRankingMethod

/-- `rank_explanation`: one shape for each method. A score that is no number is `null` in the
column. -/
inductive RankExplanation
  | firstCome (yourSubmittedAt : ℤ) (cutoffSubmittedAt : Option ℤ)
      (yourPosition totalBidders : ℕ)
  | preferenceScore (yourScore cutoffScore : Option ℚ) (yourPosition totalBidders : ℕ)
  | seniority (yourValue cutoffValue : Option String) (yourPosition totalBidders : ℕ)

structure Bid where
  id : ℕ
  tenantId : ℕ
  bidOpportunityId : ℕ
  employeeId : ℕ
  rankScore : Option ℚ
  rankPosition : Option ℕ
  rankExplanation : Option RankExplanation
  submittedAt : ℤ

/-! ## The rankings -/

structure RankedBid where
  id : ℕ
  rankScore : Option ℚ
  rankPosition : ℕ
  rankExplanation : RankExplanation

/-- `sorted.map((bid, index) => …)` with `index + 1` for the position. -/
def numbered {β : Type} (rank : β → ℕ → RankedBid) (sorted : List β) : List RankedBid :=
  sorted.mapIdx fun index b => rank b (index + 1)

def rankByFirstCome (bids : List Bid) : List RankedBid :=
  let sorted := bids.insertionSort fun a b => a.submittedAt ≤ b.submittedAt
  let cutoffSubmittedAt := sorted.head?.map (·.submittedAt)
  numbered (fun bid position => ⟨bid.id, none, position,
    .firstCome bid.submittedAt cutoffSubmittedAt position sorted.length⟩) sorted

/-- `scoreOf(b) - scoreOf(a) <= 0`, where a missing score is minus infinity. -/
def scoreAtLeast (a b : Option ℚ) : Bool :=
  match a, b with
  | _, none => true
  | none, some _ => false
  | some x, some y => y ≤ x

def rankByPreferenceScore (bids : List Bid) : List RankedBid :=
  let sorted := bids.insertionSort fun a b => scoreAtLeast a.rankScore b.rankScore
  let cutoffScore := sorted.head?.bind (·.rankScore)
  numbered (fun bid position => ⟨bid.id, bid.rankScore, position,
    .preferenceScore bid.rankScore cutoffScore position sorted.length⟩) sorted

/-- `MS_PER_YEAR`. -/
def msPerYear : ℚ := 36525 / 100 * 24 * 3600 * 1000

/-- The digits of `x.toFixed(digits)` without sign and point: halves away from zero. -/
def fixedDigits (digits : ℕ) (x : ℚ) : ℕ := (⌊|x| * 10 ^ digits + 1 / 2⌋).toNat

/-- `years.toFixed(4)`, as the numeric column holds it. -/
def toFixedFour (years : ℚ) : ℚ :=
  (if years < 0 then -1 else 1) * fixedDigits 4 years / 10 ^ 4

/-- `formatYears`. -/
def formatYears (years : ℚ) : String :=
  let tenths := fixedDigits 1 years
  (if years < 0 then "-" else "") ++ toString (tenths / 10) ++ "." ++ toString (tenths % 10) ++
    " years"

/-- The comparator of the seniority ranking, `<= 0`: known years first, the most first; unknown
ones by submission. -/
def seniorFirst (a b : Bid × Option ℚ) : Bool :=
  match a.2, b.2 with
  | none, none => a.1.submittedAt ≤ b.1.submittedAt
  | none, some _ => false
  | some _, none => true
  | some x, some y => y ≤ x

def rankBySeniority (bids : List Bid) (hireDateByEmployeeId : List (ℕ × ℤ)) (asOf : ℤ) :
    List RankedBid :=
  let withYears := bids.map fun bid =>
    (bid, (lookup Prod.fst bid.employeeId hireDateByEmployeeId).map fun entry =>
      ((asOf - entry.2 : ℤ) : ℚ) / msPerYear)
  let sorted := withYears.insertionSort fun a b => seniorFirst a b
  let cutoffValue := sorted.head?.bind fun b => b.2.map formatYears
  numbered (fun b position => ⟨b.1.id, b.2.map toFixedFour, position,
    .seniority (b.2.map formatYears) cutoffValue position sorted.length⟩) sorted

def computeRankings (method : BidRankingMethod) (bids : List Bid) (asOf : ℤ)
    (hireDateByEmployeeId : List (ℕ × ℤ)) : List RankedBid :=
  match method with
  | .firstCome => rankByFirstCome bids
  | .preferenceScore => rankByPreferenceScore bids
  | .seniority => rankBySeniority bids hireDateByEmployeeId asOf

/-! ## The calls -/

structure SubmitBidInput where
  tenantId : ℕ
  bidOpportunityId : ℕ
  employeeId : ℕ
  preferenceScore : Option ℚ

inductive BidError
  | bidOpportunityNotFound (bidOpportunityId : ℕ)
  | biddingWindowNotYetOpen (bidOpportunityId : ℕ)
  | biddingWindowClosed (bidOpportunityId : ℕ)
  | preferenceScoreRequired (bidOpportunityId : ℕ)
  | bidderNotEligible (bidOpportunityId : ℕ)
  | alreadyBid (bidOpportunityId : ℕ)
  | bidOpportunityAlreadyClosed (bidOpportunityId : ℕ)

structure BidDb where
  opportunities : List BidOpportunity
  bids : List Bid

namespace BidDb

/-- `findOne(BidOpportunity, { id, tenantId })`. -/
def findOpportunity (db : BidDb) (tenantId bidOpportunityId : ℕ) : Option BidOpportunity :=
  db.opportunities.find? fun o => o.id = bidOpportunityId && o.tenantId = tenantId

/-- The bids stored for an opportunity. -/
def bidsOf (db : BidDb) (bidOpportunityId : ℕ) : List Bid :=
  db.bids.filter fun b => b.bidOpportunityId = bidOpportunityId

/-- `find(Bid, { bidOpportunityId, tenantId })`. -/
def findBids (db : BidDb) (tenantId bidOpportunityId : ℕ) : List Bid :=
  db.bids.filter fun b => b.bidOpportunityId = bidOpportunityId && b.tenantId = tenantId

end BidDb

/-- `submitBid` up to its insert. `eligible` is the guardrail's answer. -/
def submitCheck (db : BidDb) (input : SubmitBidInput) (now : ℤ) (eligible : Bool) :
    Except BidError BidOpportunity :=
  match db.findOpportunity input.tenantId input.bidOpportunityId with
  | none => .error (.bidOpportunityNotFound input.bidOpportunityId)
  | some opportunity =>
    if now < opportunity.biddingWindowStart then
      .error (.biddingWindowNotYetOpen input.bidOpportunityId)
    else if opportunity.biddingWindowEnd < now then
      .error (.biddingWindowClosed input.bidOpportunityId)
    else if opportunity.rankingMethod = .preferenceScore && input.preferenceScore.isNone then
      .error (.preferenceScoreRequired input.bidOpportunityId)
    else if !eligible then .error (.bidderNotEligible input.bidOpportunityId)
    else .ok opportunity

/-- The bid that `submitBid` inserts. -/
def newBid (opportunity : BidOpportunity) (input : SubmitBidInput) (id : ℕ) (submittedAt : ℤ) :
    Bid :=
  { id := id
    tenantId := input.tenantId
    bidOpportunityId := input.bidOpportunityId
    employeeId := input.employeeId
    rankScore :=
      if opportunity.rankingMethod = .preferenceScore then input.preferenceScore else none
    rankPosition := none
    rankExplanation := none
    submittedAt := submittedAt }

/-- The insert: the primary key and `bid_opportunity_employee_unique` must allow it. -/
def insertBid (db : BidDb) (bid : Bid) : Except BidError BidDb :=
  if db.bids.any (fun b => b.id = bid.id ||
      (b.bidOpportunityId = bid.bidOpportunityId && b.employeeId = bid.employeeId)) then
    .error (.alreadyBid bid.bidOpportunityId)
  else .ok { db with bids := db.bids ++ [bid] }

/-- The reads of `closeBidOpportunity`: `none` when there is nothing to rank. -/
def closeCheck (db : BidDb) (tenantId bidOpportunityId : ℕ) :
    Except BidError (Option (BidOpportunity × List Bid)) :=
  match db.findOpportunity tenantId bidOpportunityId with
  | none => .error (.bidOpportunityNotFound bidOpportunityId)
  | some opportunity =>
    let bids := db.findBids tenantId bidOpportunityId
    if bids.any (fun b => b.rankPosition.isSome) then
      .error (.bidOpportunityAlreadyClosed bidOpportunityId)
    else if bids.isEmpty then .ok none
    else .ok (some (opportunity, bids))

/-- A bid with the rank that was computed for it. -/
def Bid.withRank (ranked : List RankedBid) (bid : Bid) : Bid :=
  match lookup RankedBid.id bid.id ranked with
  | none => bid
  | some r =>
    { bid with
      rankScore := r.rankScore
      rankPosition := some r.rankPosition
      rankExplanation := some r.rankExplanation }

/-- The transaction that saves the ranks, each bid by its identifier. -/
def saveRanks (db : BidDb) (ranked : List RankedBid) : BidDb :=
  { db with bids := db.bids.map (Bid.withRank ranked) }

/-! ## Runs -/

/-- A `submitBid` that has passed its checks. -/
structure SubmitCall where
  callId : ℕ
  input : SubmitBidInput
  opportunity : BidOpportunity

/-- A `closeBidOpportunity` that has read the bids it will rank. -/
structure CloseCall where
  callId : ℕ
  opportunity : BidOpportunity
  bids : List Bid

structure State where
  db : BidDb
  submits : List SubmitCall
  closes : List CloseCall

def State.init : State := ⟨⟨[], []⟩, [], []⟩

inductive Action
  | createOpportunity (opportunity : BidOpportunity)
  | submitRead (callId : ℕ) (input : SubmitBidInput) (now : ℤ) (eligible : Bool)
  | submitWrite (callId bidId : ℕ) (submittedAt : ℤ)
  | closeRead (callId tenantId bidOpportunityId : ℕ)
  /-- The ranks are saved; `hireDateByEmployeeId` is the roster's answer. -/
  | closeWrite (callId : ℕ) (asOf : ℤ) (hireDateByEmployeeId : List (ℕ × ℤ))
  /-- The roster could not be read, or the save failed: the close ends without a change. -/
  | closeFail (callId : ℕ)

/-- One part of one call. A call that throws ends and leaves the tables as they were. A close may
be tried at any time: the sweep tries those whose window has ended. -/
def step (s : State) : Action → Option State
  | .createOpportunity opportunity =>
    if s.db.opportunities.any (fun o => o.id = opportunity.id) then none
    else if opportunity.biddingWindowEnd ≤ opportunity.biddingWindowStart then none
    else some { s with
      db := { s.db with opportunities := s.db.opportunities ++ [opportunity] } }
  | .submitRead callId input now eligible =>
    match submitCheck s.db input now eligible with
    | .error _ => some s
    | .ok opportunity => some { s with submits := s.submits ++ [⟨callId, input, opportunity⟩] }
  | .submitWrite callId bidId submittedAt =>
    match lookup SubmitCall.callId callId s.submits with
    | none => none
    | some c =>
      let submits := s.submits.filter fun c => c.callId ≠ callId
      match insertBid s.db (newBid c.opportunity c.input bidId submittedAt) with
      | .error _ => some { s with submits := submits }
      | .ok db => some { s with db := db, submits := submits }
  | .closeRead callId tenantId bidOpportunityId =>
    match closeCheck s.db tenantId bidOpportunityId with
    | .error _ => some s
    | .ok none => some s
    | .ok (some (opportunity, bids)) =>
      some { s with closes := s.closes ++ [⟨callId, opportunity, bids⟩] }
  | .closeWrite callId asOf hireDateByEmployeeId =>
    match lookup CloseCall.callId callId s.closes with
    | none => none
    | some c =>
      some { s with
        db := saveRanks s.db
          (computeRankings c.opportunity.rankingMethod c.bids asOf hireDateByEmployeeId)
        closes := s.closes.filter fun c => c.callId ≠ callId }
  | .closeFail callId =>
    some { s with closes := s.closes.filter fun c => c.callId ≠ callId }

/-! ## The statements -/

namespace State

/-- The opportunity is closed, as `closeBidOpportunity` sees it: some bid of it has a rank. -/
def Closed (s : State) (bidOpportunityId : ℕ) : Prop :=
  ∃ b ∈ s.db.bidsOf bidOpportunityId, b.rankPosition.isSome
  deriving Decidable

/-- A close of the opportunity has read its bids and has not saved yet. -/
def Closing (s : State) (bidOpportunityId : ℕ) : Prop :=
  ∃ c ∈ s.closes, c.opportunity.id = bidOpportunityId
  deriving Decidable

/-- The bids of the opportunity all have a rank, and the ranks are 1 to their number. -/
def FullyRanked (s : State) (bidOpportunityId : ℕ) : Prop :=
  ((s.db.bidsOf bidOpportunityId).map Bid.rankPosition).Perm
    ((range' 1 (s.db.bidsOf bidOpportunityId).length).map some)
  deriving Decidable

/-- Every closed opportunity is fully ranked. -/
def ClosedRanked (s : State) : Prop :=
  ∀ bidOpportunityId, s.Closed bidOpportunityId → s.FullyRanked bidOpportunityId

end State

/-- No bid is inserted once a close of its opportunity has read the bids. -/
def BidsInTime (s : State) : Action → Prop
  | .submitWrite callId _ _ =>
    ∀ c ∈ s.submits, c.callId = callId →
      ¬ s.Closing c.input.bidOpportunityId ∧ ¬ s.Closed c.input.bidOpportunityId
  | _ => True

instance (s : State) : DecidablePred (BidsInTime s) := fun a => by
  cases a <;> unfold BidsInTime <;> infer_instance

/-! ## The rankings number every bid once -/

/-- The ranking has a position for every bid, and the positions are 1, 2, … in its order. -/
structure IsRanking (ranked : List RankedBid) (bids : List Bid) : Prop where
  ids : (ranked.map RankedBid.id).Perm (bids.map Bid.id)
  positions : ranked.map RankedBid.rankPosition = range' 1 bids.length

theorem isRanking_numbered {β : Type} {rank : β → ℕ → RankedBid} {bidOf : β → Bid}
    (hid : ∀ b position, (rank b position).id = (bidOf b).id)
    (hpos : ∀ b position, (rank b position).rankPosition = position) {sorted : List β}
    {bids : List Bid} (hperm : (sorted.map bidOf).Perm bids) :
    IsRanking (numbered rank sorted) bids where
  ids := by
    have h : (numbered rank sorted).map RankedBid.id = (sorted.map bidOf).map Bid.id := by
      apply ext_getElem
      · simp [numbered]
      · intro i h₁ h₂
        simp [numbered, hid]
    rw [h]
    exact hperm.map _
  positions := by
    rw [← hperm.length_eq]
    apply ext_getElem
    · simp [numbered]
    · intro i h₁ h₂
      simp [numbered, hpos, Nat.add_comm]

theorem isRanking_computeRankings (method : BidRankingMethod) (bids : List Bid) (asOf : ℤ)
    (hireDateByEmployeeId : List (ℕ × ℤ)) :
    IsRanking (computeRankings method bids asOf hireDateByEmployeeId) bids := by
  cases method with
  | firstCome =>
    unfold computeRankings rankByFirstCome
    apply @isRanking_numbered Bid _ id
    · exact fun _ _ => rfl
    · exact fun _ _ => rfl
    · rw [map_id]
      exact perm_insertionSort _ _
  | preferenceScore =>
    unfold computeRankings rankByPreferenceScore
    apply @isRanking_numbered Bid _ id
    · exact fun _ _ => rfl
    · exact fun _ _ => rfl
    · rw [map_id]
      exact perm_insertionSort _ _
  | seniority =>
    unfold computeRankings rankBySeniority
    apply @isRanking_numbered (Bid × Option ℚ) _ Prod.fst
    · exact fun _ _ => rfl
    · exact fun _ _ => rfl
    · refine ((perm_insertionSort _ _).map _).trans ?_
      rw [map_map]
      exact Perm.of_eq (map_id bids)

/-- Looking the position of every identifier up gives the positions of the ranking. -/
theorem map_lookup_perm {ranked : List RankedBid} {ids : List ℕ} (hids : ids.Nodup)
    (hperm : (ranked.map RankedBid.id).Perm ids) :
    (ids.map fun id => (lookup RankedBid.id id ranked).map RankedBid.rankPosition).Perm
      (ranked.map fun r => some r.rankPosition) := by
  have hnodup : (ranked.map RankedBid.id).Nodup := hperm.nodup_iff.2 hids
  refine (hperm.symm.map _).trans ?_
  rw [map_map]
  refine Perm.of_eq (map_congr_left fun r hr => ?_)
  simp [lookup_eq_some hnodup hr]

/-! ## What saving the ranks does -/

section WithRank

variable (ranked : List RankedBid) (bid : Bid)

@[simp] theorem withRank_id : (bid.withRank ranked).id = bid.id := by
  unfold Bid.withRank
  split <;> rfl

@[simp] theorem withRank_tenantId : (bid.withRank ranked).tenantId = bid.tenantId := by
  unfold Bid.withRank
  split <;> rfl

@[simp] theorem withRank_bidOpportunityId :
    (bid.withRank ranked).bidOpportunityId = bid.bidOpportunityId := by
  unfold Bid.withRank
  split <;> rfl

theorem withRank_rankPosition : (bid.withRank ranked).rankPosition =
    ((lookup RankedBid.id bid.id ranked).map RankedBid.rankPosition).or bid.rankPosition := by
  unfold Bid.withRank
  split
  · rename_i h
    simp [h]
  · rename_i r h
    simp [h]

end WithRank

theorem bidsOf_saveRanks (db : BidDb) (ranked : List RankedBid) (o : ℕ) :
    (saveRanks db ranked).bidsOf o = (db.bidsOf o).map (Bid.withRank ranked) := by
  unfold BidDb.bidsOf saveRanks
  rw [filter_map]
  congr 1
  refine filter_congr fun b _ => ?_
  simp

theorem map_id_bidsOf_saveRanks (db : BidDb) (ranked : List RankedBid) (o : ℕ) :
    ((saveRanks db ranked).bidsOf o).map Bid.id = (db.bidsOf o).map Bid.id := by
  rw [bidsOf_saveRanks, map_map]
  exact map_congr_left fun b _ => withRank_id ranked b

theorem fullyRanked_save {db : BidDb} {ranked : List RankedBid} {bids : List Bid} {o : ℕ}
    (hids : (db.bids.map Bid.id).Nodup) (hrank : IsRanking ranked bids)
    (hbids : bids.map Bid.id = (db.bidsOf o).map Bid.id) :
    (((saveRanks db ranked).bidsOf o).map Bid.rankPosition).Perm
      ((range' 1 ((saveRanks db ranked).bidsOf o).length).map some) := by
  have hnodup : ((db.bidsOf o).map Bid.id).Nodup :=
    hids.sublist (filter_sublist.map _)
  have hlen : bids.length = (db.bidsOf o).length := by
    simpa using congrArg length hbids
  have hperm : (ranked.map RankedBid.id).Perm ((db.bidsOf o).map Bid.id) := hbids ▸ hrank.ids
  -- every bid of the opportunity has an entry, so its old position does not matter
  have hpos : ((saveRanks db ranked).bidsOf o).map Bid.rankPosition =
      ((db.bidsOf o).map Bid.id).map fun id =>
        (lookup RankedBid.id id ranked).map RankedBid.rankPosition := by
    rw [bidsOf_saveRanks, map_map, map_map]
    refine map_congr_left fun b hb => ?_
    have hmem : b.id ∈ ranked.map RankedBid.id := hperm.mem_iff.2 (mem_map_of_mem hb)
    obtain ⟨r, hr⟩ := Option.isSome_iff_exists.1 (lookup_isSome.2 hmem)
    simp [withRank_rankPosition, hr]
  rw [hpos, bidsOf_saveRanks, length_map, ← hlen, ← hrank.positions,
    @List.map_map _ _ _ some RankedBid.rankPosition]
  exact map_lookup_perm hnodup hperm

/-- Saving a ranking of the bids of one opportunity leaves those of another alone. -/
theorem bidsOf_saveRanks_of_ne {db : BidDb} {ranked : List RankedBid} {bids : List Bid} {o o' : ℕ}
    (hids : (db.bids.map Bid.id).Nodup) (hrank : IsRanking ranked bids)
    (hbids : bids.map Bid.id = (db.bidsOf o).map Bid.id) (hne : o' ≠ o) :
    (saveRanks db ranked).bidsOf o' = db.bidsOf o' := by
  rw [bidsOf_saveRanks]
  conv_rhs => rw [← map_id (db.bidsOf o')]
  refine map_congr_left fun b hb => ?_
  have hnone : lookup RankedBid.id b.id ranked = none := by
    rw [← Option.not_isSome_iff_eq_none, lookup_isSome, hrank.ids.mem_iff, hbids]
    intro hmem
    obtain ⟨b', hb', hid⟩ := mem_map.1 hmem
    simp only [BidDb.bidsOf, mem_filter, decide_eq_true_eq] at hb hb'
    obtain rfl := eq_of_key_eq hids hb'.1 hb.1 hid
    exact hne (hb.2.symm.trans hb'.2)
  simp [Bid.withRank, hnone]

/-! ## The invariant -/

/-- Identifiers are unique, bids and submissions belong to opportunities of their tenant, a close in
progress has read the bids there are, and closed opportunities are fully ranked. -/
structure Inv (s : State) : Prop where
  opportunityIds : (s.db.opportunities.map BidOpportunity.id).Nodup
  bidIds : (s.db.bids.map Bid.id).Nodup
  tenants : ∀ b ∈ s.db.bids, ∃ o ∈ s.db.opportunities,
    o.id = b.bidOpportunityId ∧ o.tenantId = b.tenantId
  submits : ∀ c ∈ s.submits, ∃ o ∈ s.db.opportunities,
    o.id = c.input.bidOpportunityId ∧ o.tenantId = c.input.tenantId
  closes : ∀ c ∈ s.closes, c.bids.map Bid.id = (s.db.bidsOf c.opportunity.id).map Bid.id
  ranked : s.ClosedRanked

theorem inv_init : Inv State.init := by
  constructor <;> simp [State.init, State.ClosedRanked, State.Closed, BidDb.bidsOf]

theorem mem_of_findOpportunity {db : BidDb} {tenantId o : ℕ} {opportunity : BidOpportunity}
    (h : db.findOpportunity tenantId o = some opportunity) :
    opportunity ∈ db.opportunities ∧ opportunity.id = o ∧ opportunity.tenantId = tenantId := by
  have hp := find?_some h
  simp only [Bool.and_eq_true, decide_eq_true_eq] at hp
  exact ⟨mem_of_find?_eq_some h, hp⟩

/-- The bids a close reads, by opportunity and tenant, are all bids of the opportunity. -/
theorem Inv.findBids_eq {s : State} (h : Inv s) {tenantId o : ℕ} {opportunity : BidOpportunity}
    (hfind : s.db.findOpportunity tenantId o = some opportunity) :
    s.db.findBids tenantId o = s.db.bidsOf o := by
  obtain ⟨hmem, hid, htenant⟩ := mem_of_findOpportunity hfind
  refine filter_congr fun b hb => ?_
  obtain ⟨o', ho', hid', htenant'⟩ := h.tenants b hb
  by_cases hb' : b.bidOpportunityId = o
  · have heq : o' = opportunity :=
      eq_of_key_eq h.opportunityIds ho' hmem (by rw [hid', hb', hid])
    simp [hb', ← htenant', heq, htenant]
  · simp [hb']

theorem closeCheck_eq_some {db : BidDb} {tenantId o : ℕ} {opportunity : BidOpportunity}
    {bids : List Bid} (h : closeCheck db tenantId o = .ok (some (opportunity, bids))) :
    db.findOpportunity tenantId o = some opportunity ∧ bids = db.findBids tenantId o := by
  unfold closeCheck at h
  split at h
  · cases h
  · rename_i opp hfind
    simp only at h
    split at h
    · cases h
    · split at h
      · cases h
      · cases h
        exact ⟨hfind, rfl⟩

theorem submitCheck_eq_ok {db : BidDb} {input : SubmitBidInput} {now : ℤ} {eligible : Bool}
    {opportunity : BidOpportunity} (h : submitCheck db input now eligible = .ok opportunity) :
    db.findOpportunity input.tenantId input.bidOpportunityId = some opportunity := by
  unfold submitCheck at h
  split at h
  · cases h
  · rename_i opp hfind
    repeat' split at h
    all_goals cases h
    exact hfind

theorem insertBid_eq_ok {db db' : BidDb} {bid : Bid} (h : insertBid db bid = .ok db') :
    (∀ b ∈ db.bids, b.id ≠ bid.id) ∧ db' = { db with bids := db.bids ++ [bid] } := by
  unfold insertBid at h
  split at h
  · cases h
  · rename_i hno
    cases h
    refine ⟨fun b hb hid => hno ?_, rfl⟩
    exact any_eq_true.2 ⟨b, hb, by simp [hid]⟩

theorem Inv.shrink {s : State} (h : Inv s) {submits : List SubmitCall} {closes : List CloseCall}
    (hsubmits : submits ⊆ s.submits) (hcloses : closes ⊆ s.closes) :
    Inv { s with submits := submits, closes := closes } where
  opportunityIds := h.opportunityIds
  bidIds := h.bidIds
  tenants := h.tenants
  submits c hc := h.submits c (hsubmits hc)
  closes c hc := h.closes c (hcloses hc)
  ranked := h.ranked

theorem Inv.create {s : State} (h : Inv s) {opportunity : BidOpportunity}
    (hne : ∀ o ∈ s.db.opportunities, o.id ≠ opportunity.id) :
    Inv { s with db := { s.db with opportunities := s.db.opportunities ++ [opportunity] } } where
  opportunityIds := nodup_append_singleton h.opportunityIds hne
  bidIds := h.bidIds
  tenants b hb := by
    obtain ⟨o, ho, heq⟩ := h.tenants b hb
    exact ⟨o, mem_append_left _ ho, heq⟩
  submits c hc := by
    obtain ⟨o, ho, heq⟩ := h.submits c hc
    exact ⟨o, mem_append_left _ ho, heq⟩
  closes := h.closes
  ranked := h.ranked

theorem Inv.beginSubmit {s : State} (h : Inv s) {call : SubmitCall}
    (hopp : ∃ o ∈ s.db.opportunities,
      o.id = call.input.bidOpportunityId ∧ o.tenantId = call.input.tenantId) :
    Inv { s with submits := s.submits ++ [call] } where
  opportunityIds := h.opportunityIds
  bidIds := h.bidIds
  tenants := h.tenants
  submits c hc := by
    rcases Tables.mem_concat.1 hc with hc | rfl
    · exact h.submits c hc
    · exact hopp
  closes := h.closes
  ranked := h.ranked

theorem Inv.beginClose {s : State} (h : Inv s) {call : CloseCall}
    (hbids : call.bids.map Bid.id = (s.db.bidsOf call.opportunity.id).map Bid.id) :
    Inv { s with closes := s.closes ++ [call] } where
  opportunityIds := h.opportunityIds
  bidIds := h.bidIds
  tenants := h.tenants
  submits := h.submits
  closes c hc := by
    rcases Tables.mem_concat.1 hc with hc | rfl
    · exact h.closes c hc
    · exact hbids
  ranked := h.ranked

/-- A bid that arrives before any close has read keeps the invariant: its opportunity is open
before and after. -/
theorem Inv.insert {s : State} (h : Inv s) {bid : Bid} (hfresh : ∀ b ∈ s.db.bids, b.id ≠ bid.id)
    (htenant : ∃ o ∈ s.db.opportunities, o.id = bid.bidOpportunityId ∧ o.tenantId = bid.tenantId)
    (hrank : bid.rankPosition = none) (hclosing : ¬ s.Closing bid.bidOpportunityId)
    (hclosed : ¬ s.Closed bid.bidOpportunityId) :
    Inv { s with db := { s.db with bids := s.db.bids ++ [bid] } } := by
  have hother : ∀ o, o ≠ bid.bidOpportunityId →
      (⟨s.db.opportunities, s.db.bids ++ [bid]⟩ : BidDb).bidsOf o = s.db.bidsOf o := by
    intro o ho
    simp [BidDb.bidsOf, filter_append, ho.symm]
  refine ⟨h.opportunityIds, nodup_append_singleton h.bidIds hfresh, ?_, h.submits, ?_, ?_⟩
  · intro b hb
    rcases Tables.mem_concat.1 hb with hb | rfl
    · exact h.tenants b hb
    · exact htenant
  · intro c hc
    have hne : c.opportunity.id ≠ bid.bidOpportunityId := fun heq => hclosing ⟨c, hc, heq⟩
    rw [h.closes c hc, hother _ hne]
  · intro o ho
    by_cases hne : o = bid.bidOpportunityId
    · -- the opportunity of the new bid has no ranked bid
      subst hne
      obtain ⟨b, hb, hsome⟩ := ho
      simp only [BidDb.bidsOf, filter_append, mem_append, mem_filter,
        decide_eq_true_eq, mem_singleton] at hb
      obtain hb | ⟨rfl, -⟩ := hb
      · exact absurd ⟨b, by simpa [BidDb.bidsOf] using hb, hsome⟩ hclosed
      · rw [hrank] at hsome
        cases hsome
    · obtain ⟨b, hb, hsome⟩ := ho
      rw [hother o hne] at hb
      have hranked := h.ranked o ⟨b, hb, hsome⟩
      rw [State.FullyRanked] at hranked ⊢
      rwa [hother o hne]

theorem Inv.save {s : State} (h : Inv s) {c : CloseCall} (hc : c ∈ s.closes)
    {ranked : List RankedBid} (hrank : IsRanking ranked c.bids) :
    Inv { s with db := saveRanks s.db ranked } := by
  have hbids := h.closes c hc
  refine ⟨h.opportunityIds, ?_, ?_, h.submits, ?_, ?_⟩
  · have hmap : (saveRanks s.db ranked).bids.map Bid.id = s.db.bids.map Bid.id := by
      rw [saveRanks, map_map]
      exact map_congr_left fun b _ => withRank_id ranked b
    rw [hmap]
    exact h.bidIds
  · intro b hb
    obtain ⟨b', hb', rfl⟩ := mem_map.1 hb
    simpa [saveRanks] using h.tenants b' hb'
  · intro c' hc'
    rw [map_id_bidsOf_saveRanks]
    exact h.closes c' hc'
  · intro o ho
    by_cases hne : o = c.opportunity.id
    · subst hne
      exact fullyRanked_save h.bidIds hrank hbids
    · have hsame := bidsOf_saveRanks_of_ne h.bidIds hrank hbids hne
      obtain ⟨b, hb, hsome⟩ := ho
      have hranked := h.ranked o ⟨b, hsame ▸ hb, hsome⟩
      rw [State.FullyRanked] at hranked ⊢
      rwa [hsame]

/-- **The step lemma**: bids that arrive in time keep the invariant, and so does every other
step. -/
theorem inv_step (s : State) (a : Action) (t : State) (h : Inv s) (hok : BidsInTime s a)
    (hstep : step s a = some t) : Inv t := by
  cases a with
  | createOpportunity opportunity =>
    simp only [step] at hstep
    split at hstep
    · cases hstep
    · split at hstep
      · cases hstep
      · rename_i hfresh _
        cases hstep
        have hne : ∀ o ∈ s.db.opportunities, o.id ≠ opportunity.id := by simpa using hfresh
        exact h.create hne
  | submitRead callId input now eligible =>
    simp only [step] at hstep
    split at hstep
    · cases hstep
      exact h
    · rename_i opportunity hcheck
      cases hstep
      obtain ⟨hmem, hid, htenant⟩ := mem_of_findOpportunity (submitCheck_eq_ok hcheck)
      exact h.beginSubmit ⟨opportunity, hmem, hid, htenant⟩
  | submitWrite callId bidId submittedAt =>
    simp only [step] at hstep
    split at hstep
    · cases hstep
    · rename_i c hlookup
      obtain ⟨hc, hcall⟩ := mem_of_lookup hlookup
      split at hstep
      · cases hstep
        exact h.shrink (filter_subset_self _) (Subset.refl _)
      · rename_i db hinsert
        cases hstep
        obtain ⟨hfresh, rfl⟩ := insertBid_eq_ok hinsert
        obtain ⟨hclosing, hclosed⟩ := hok c hc hcall
        have hins := h.insert hfresh (h.submits c hc) rfl hclosing hclosed
        exact hins.shrink (filter_subset_self _) (Subset.refl _)
  | closeRead callId tenantId o =>
    simp only [step] at hstep
    split at hstep
    · cases hstep
      exact h
    · cases hstep
      exact h
    · rename_i opportunity bids hcheck
      cases hstep
      obtain ⟨hfind, rfl⟩ := closeCheck_eq_some hcheck
      refine h.beginClose ?_
      simp only [h.findBids_eq hfind, (mem_of_findOpportunity hfind).2.1]
  | closeWrite callId asOf hireDateByEmployeeId =>
    simp only [step] at hstep
    split at hstep
    · cases hstep
    · rename_i c hlookup
      cases hstep
      obtain ⟨hc, -⟩ := mem_of_lookup hlookup
      have hsave := h.save hc (isRanking_computeRankings c.opportunity.rankingMethod c.bids asOf
        hireDateByEmployeeId)
      exact hsave.shrink (Subset.refl _) (filter_subset_self _)
  | closeFail callId =>
    cases hstep
    exact h.shrink (Subset.refl _) (filter_subset_self _)

/-- **Closed opportunities.** In every run in which no bid arrives after a close of its opportunity
has read the bids, every state has all bids of every closed opportunity ranked, from 1 to their
number. -/
theorem closed_fully_ranked {as : List Action} (hok : Runs.Meets step BidsInTime State.init as) :
    Runs.Always step State.ClosedRanked State.init as :=
  Runs.always_of_invariant (fun _ h => h.ranked) inv_step inv_init hok

/-! ### A late bid -/

def nightShift : BidOpportunity := ⟨1, 1, 7, 0, 100, .firstCome⟩

/-- Employee 2 passes the check at the end of the window, and inserts after the sweep has closed. -/
def lateBid : List Action :=
  [.createOpportunity nightShift, .submitRead 1 ⟨1, 1, 1, none⟩ 50 true, .submitWrite 1 10 50,
    .submitRead 2 ⟨1, 1, 2, none⟩ 100 true, .closeRead 3 1 1, .closeWrite 3 101 [],
    .submitWrite 2 20 102]

/-- The opportunity is closed, the late bid has no rank, and no other close will give it one. -/
theorem late_bid_unranked :
    ∃ s, Runs.exec step State.init lateBid = some s ∧ s.Closed 1 ∧ ¬ s.FullyRanked 1 ∧
      (∃ b ∈ s.db.bidsOf 1, b.id = 20 ∧ b.rankPosition = none) ∧
      closeCheck s.db 1 1 = .error (.bidOpportunityAlreadyClosed 1) := by
  refine ⟨_, rfl, ?_, ?_, ?_, rfl⟩
  · decide
  · decide
  · decide

/-- Both bids arrive before the close reads. -/
def bidsInTime : List Action :=
  [.createOpportunity nightShift, .submitRead 1 ⟨1, 1, 1, none⟩ 50 true,
    .submitRead 2 ⟨1, 1, 2, none⟩ 100 true, .submitWrite 2 20 102, .submitWrite 1 10 50,
    .closeRead 3 1 1, .closeWrite 3 101 []]

theorem bids_in_time_ranked :
    ∃ s, Runs.exec step State.init bidsInTime = some s ∧ s.Closed 1 ∧ s.FullyRanked 1 := by
  have hok : Runs.Meets step BidsInTime State.init bidsInTime := by decide
  obtain ⟨s, hs, hclosed⟩ : ∃ s, Runs.exec step State.init bidsInTime = some s ∧ s.Closed 1 :=
    ⟨_, rfl, by decide⟩
  exact ⟨s, hs, hclosed, closed_fully_ranked hok bidsInTime s (prefix_refl _) hs 1 hclosed⟩

end Workforce.Marketplace.Bids
