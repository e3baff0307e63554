import Workforce.Foundations.Sorting
import Workforce.Marketplace.Bids

/-!
# The order in which a close reads the bids

`closeBidOpportunity` reads the bids with no `ORDER BY` and hands the rows to `computeRankings`,
which sorts them by one key and by nothing after it. The sort is stable, so bids that tie keep the
order of the rows. The positions are those of every order of the rows if and only if no two bids
tie: equal instants of submission, equal scores, equal hire dates, or no known hire date and equal
instants.

* `sameForEveryOrder_iff`: this, for every method, every list of bids and every roster.
-/

namespace Workforce.Marketplace.Bids

open Tables List

/-! ## The comparators -/

/-- The hire date of a bidder, where the roster has one. -/
def hireDateOf (hireDateByEmployeeId : List (ℕ × ℤ)) (bid : Bid) : Option ℤ :=
  (lookup Prod.fst bid.employeeId hireDateByEmployeeId).map Prod.snd

/-- The years of service of a bidder, as `rankBySeniority` computes them. -/
def withYears (hireDateByEmployeeId : List (ℕ × ℤ)) (asOf : ℤ) (bid : Bid) : Bid × Option ℚ :=
  (bid, (lookup Prod.fst bid.employeeId hireDateByEmployeeId).map fun entry =>
    ((asOf - entry.2 : ℤ) : ℚ) / msPerYear)

/-- The comparator of a method, `<= 0`. -/
def ranksBefore (method : BidRankingMethod) (hireDateByEmployeeId : List (ℕ × ℤ)) (asOf : ℤ)
    (a b : Bid) : Prop :=
  match method with
  | .firstCome => a.submittedAt ≤ b.submittedAt
  | .preferenceScore => scoreAtLeast a.rankScore b.rankScore = true
  | .seniority => seniorFirst (withYears hireDateByEmployeeId asOf a)
      (withYears hireDateByEmployeeId asOf b) = true

instance (method : BidRankingMethod) (hireDateByEmployeeId : List (ℕ × ℤ)) (asOf : ℤ) :
    DecidableRel (ranksBefore method hireDateByEmployeeId asOf) := fun a b => by
  cases method <;> unfold ranksBefore <;> infer_instance

/-- Two bids that a method does not order. -/
def Tie (method : BidRankingMethod) (hireDateByEmployeeId : List (ℕ × ℤ)) (a b : Bid) : Prop :=
  match method with
  | .firstCome => a.submittedAt = b.submittedAt
  | .preferenceScore => a.rankScore = b.rankScore
  | .seniority => hireDateOf hireDateByEmployeeId a = hireDateOf hireDateByEmployeeId b ∧
      (hireDateOf hireDateByEmployeeId a = none → a.submittedAt = b.submittedAt)

instance (method : BidRankingMethod) (hireDateByEmployeeId : List (ℕ × ℤ)) :
    DecidableRel (Tie method hireDateByEmployeeId) := fun a b => by
  cases method <;> unfold Tie <;> infer_instance

variable {method : BidRankingMethod} {hireDateByEmployeeId : List (ℕ × ℤ)} {asOf : ℤ}

theorem scoreAtLeast_total (a b : Option ℚ) :
    scoreAtLeast a b = true ∨ scoreAtLeast b a = true := by
  cases a <;> cases b <;> simp [scoreAtLeast, le_total]

theorem scoreAtLeast_trans {a b c : Option ℚ} (hab : scoreAtLeast a b = true)
    (hbc : scoreAtLeast b c = true) : scoreAtLeast a c = true := by
  cases a <;> cases b <;> cases c <;> simp_all [scoreAtLeast]
  exact hbc.trans hab

theorem scoreAtLeast_antisymm {a b : Option ℚ} (hab : scoreAtLeast a b = true)
    (hba : scoreAtLeast b a = true) : a = b := by
  cases a <;> cases b <;> simp_all [scoreAtLeast]
  exact le_antisymm hba hab

theorem seniorFirst_total (a b : Bid × Option ℚ) :
    seniorFirst a b = true ∨ seniorFirst b a = true := by
  obtain ⟨a, _ | x⟩ := a <;> obtain ⟨b, _ | y⟩ := b <;> simp [seniorFirst, le_total]

theorem seniorFirst_trans {a b c : Bid × Option ℚ} (hab : seniorFirst a b = true)
    (hbc : seniorFirst b c = true) : seniorFirst a c = true := by
  obtain ⟨a, _ | x⟩ := a <;> obtain ⟨b, _ | y⟩ := b <;> obtain ⟨c, _ | z⟩ := c <;>
    simp_all [seniorFirst]
  · exact hab.trans hbc
  · exact hbc.trans hab

theorem seniorFirst_ties_iff (a b : Bid × Option ℚ) :
    (seniorFirst a b = true ∧ seniorFirst b a = true) ↔
      a.2 = b.2 ∧ (a.2 = none → a.1.submittedAt = b.1.submittedAt) := by
  obtain ⟨a, _ | x⟩ := a <;> obtain ⟨b, _ | y⟩ := b <;> simp only [seniorFirst]
  · simp [Int.le_antisymm_iff]
  · simp
  · simp
  · simp [Rat.le_antisymm_iff, and_comm]

theorem msPerYear_ne_zero : msPerYear ≠ 0 := by
  norm_num [msPerYear]

theorem withYears_eq_iff (a b : Bid) :
    (withYears hireDateByEmployeeId asOf a).2 = (withYears hireDateByEmployeeId asOf b).2 ↔
      hireDateOf hireDateByEmployeeId a = hireDateOf hireDateByEmployeeId b := by
  unfold withYears hireDateOf
  cases lookup Prod.fst a.employeeId hireDateByEmployeeId <;>
    cases lookup Prod.fst b.employeeId hireDateByEmployeeId <;>
    simp [div_left_inj' msPerYear_ne_zero]

theorem withYears_eq_none_iff (a : Bid) :
    (withYears hireDateByEmployeeId asOf a).2 = none ↔
      hireDateOf hireDateByEmployeeId a = none := by
  simp [withYears, hireDateOf]

instance : Std.Total (ranksBefore method hireDateByEmployeeId asOf) where
  total a b := by
    cases method with
    | firstCome => exact le_total a.submittedAt b.submittedAt
    | preferenceScore => exact scoreAtLeast_total _ _
    | seniority => exact seniorFirst_total _ _

instance : IsTrans Bid (ranksBefore method hireDateByEmployeeId asOf) where
  trans a b c hab hbc := by
    cases method with
    | firstCome => exact le_trans (α := ℤ) hab hbc
    | preferenceScore => exact scoreAtLeast_trans hab hbc
    | seniority => exact seniorFirst_trans hab hbc

theorem tie_iff (a b : Bid) :
    (ranksBefore method hireDateByEmployeeId asOf a b ∧
      ranksBefore method hireDateByEmployeeId asOf b a) ↔ Tie method hireDateByEmployeeId a b := by
  cases method with
  | firstCome => exact (le_antisymm_iff (a := a.submittedAt)).symm
  | preferenceScore =>
    constructor
    · rintro ⟨hab, hba⟩
      exact scoreAtLeast_antisymm hab hba
    · intro h
      have hrefl : ranksBefore .preferenceScore hireDateByEmployeeId asOf b b := refl_of _ b
      simp only [Tie] at h
      simp only [ranksBefore] at hrefl ⊢
      rw [h]
      exact ⟨hrefl, hrefl⟩
  | seniority =>
    refine (seniorFirst_ties_iff _ _).trans ?_
    rw [withYears_eq_iff, withYears_eq_none_iff]
    rfl

/-! ## Positions -/

/-- Which bid has which position. -/
def positions (ranked : List RankedBid) : List (ℕ × ℕ) :=
  ranked.map fun r => (r.id, r.rankPosition)

/-- The identifiers of a list with their places, counted from 1. -/
def places (ids : List ℕ) : List (ℕ × ℕ) := ids.mapIdx fun index id => (id, index + 1)

theorem places_injective : Function.Injective places := by
  have hids : ∀ ids, (places ids).map Prod.fst = ids := by
    intro ids
    refine ext_getElem? fun i => ?_
    simp only [places, getElem?_map, getElem?_mapIdx, Option.map_map]
    exact Option.map_id'
  exact Function.LeftInverse.injective hids

theorem positions_numbered {β : Type} {rank : β → ℕ → RankedBid} {sorted : List β} (id : β → ℕ)
    (hid : ∀ b p, (rank b p).id = id b) (hpos : ∀ b p, (rank b p).rankPosition = p) :
    positions (numbered rank sorted) = places (sorted.map id) := by
  refine ext_getElem? fun i => ?_
  simp only [positions, places, numbered, getElem?_map, getElem?_mapIdx, Option.map_map]
  refine congrArg (fun g => Option.map g sorted[i]?) (funext fun b => ?_)
  simp [hid, hpos]

/-- `computeRankings` numbers the bids in the order of the method's comparator. -/
theorem positions_computeRankings (bids : List Bid) :
    positions (computeRankings method bids asOf hireDateByEmployeeId) =
      places ((bids.insertionSort (ranksBefore method hireDateByEmployeeId asOf)).map Bid.id) := by
  cases method with
  | firstCome =>
    rw [computeRankings, rankByFirstCome, positions_numbered Bid.id (by simp) (by simp)]
    rfl
  | preferenceScore =>
    rw [computeRankings, rankByPreferenceScore, positions_numbered Bid.id (by simp) (by simp)]
    rfl
  | seniority =>
    have hsort : (bids.insertionSort (ranksBefore .seniority hireDateByEmployeeId asOf)).map
        (withYears hireDateByEmployeeId asOf) =
        (bids.map (withYears hireDateByEmployeeId asOf)).insertionSort
          fun a b => seniorFirst a b = true :=
      map_insertionSort _ _ _ _ fun _ _ _ _ => Iff.rfl
    rw [computeRankings, rankBySeniority,
      positions_numbered (fun b : Bid × Option ℚ => b.1.id) (by simp) (by simp)]
    refine congrArg places ((congrArg (map fun b => b.1.id) hsort).symm.trans ?_)
    rw [map_map]
    rfl

/-! ## Every order of the rows -/

/-- Each bid has the same position for every order of the rows. -/
def SameForEveryOrder (method : BidRankingMethod) (bids : List Bid) (asOf : ℤ)
    (hireDateByEmployeeId : List (ℕ × ℤ)) : Prop :=
  ∀ bids' : List Bid, bids'.Perm bids →
    positions (computeRankings method bids' asOf hireDateByEmployeeId) =
      positions (computeRankings method bids asOf hireDateByEmployeeId)

/-- **The order of the rows.** The positions are the same for every order of the rows if and only
if no two bids tie. -/
theorem sameForEveryOrder_iff (method : BidRankingMethod) (bids : List Bid) (asOf : ℤ)
    (hireDateByEmployeeId : List (ℕ × ℤ)) :
    SameForEveryOrder method bids asOf hireDateByEmployeeId ↔
      ∀ a ∈ bids, ∀ b ∈ bids, Tie method hireDateByEmployeeId a b → a.id = b.id := by
  simp only [SameForEveryOrder, positions_computeRankings, places_injective.eq_iff,
    Sorting.map_insertionSort_perm_iff, ← @tie_iff method hireDateByEmployeeId asOf, and_imp]

/-- Two bidders with one score. -/
def equalScores : List Bid :=
  [⟨1, 1, 1, 11, some 80, none, none, 50⟩, ⟨2, 1, 1, 12, some 80, none, none, 40⟩]

/-- The bid that is read first wins. -/
theorem equal_scores_follow_the_rows :
    ¬ SameForEveryOrder .preferenceScore equalScores 100 [] := by
  intro h
  have hswap := h equalScores.reverse equalScores.reverse_perm
  revert hswap
  decide

end Workforce.Marketplace.Bids
