import Workforce.Foundations.Erlang
import Mathlib.Analysis.Complex.Exponential

/-!
# The conversion to headcount

`erlang.py`: how many agents a volume of calls takes. The probability that a call waits is computed
through Erlang B; the agents are searched for upwards from the offered load, until both the service
level and the occupancy are as required.

Numbers are those of an ordered field, and `exp` is a function on it.

* `erlangC_correct`: the probability is the one of Erlang's formula, and moves the right way.
* `requiredAgents_least`: what the search returns is the least that is enough, and it never falls
  when there is more to do.
-/

namespace Workforce.Forecasting

open Erlang

/-- `_MAX_AGENTS_SEARCH`. -/
def maxAgentsSearch : ℤ := 10000

section Definitions

variable {K : Type*} [Field K] [LinearOrder K]

/-- The loop of `erlang_c_probability`. -/
def erlangB (offeredLoad : K) (agents : ℤ) : K :=
  (List.range' 1 agents.toNat).foldl
    (fun erlangB (k : ℕ) => (offeredLoad * erlangB) / (k + offeredLoad * erlangB)) 1

def erlangDenominator (offeredLoad : K) (agents : ℤ) : K :=
  1 - offeredLoad / agents * (1 - erlangB offeredLoad agents)

def erlangCProbability (offeredLoad : K) (agents : ℤ) : K :=
  if offeredLoad ≤ 0 then 0
  else if agents ≤ 0 then 1
  -- an unstable system
  else if agents ≤ offeredLoad then 1
  else if erlangDenominator offeredLoad agents ≤ 0 then 1
  else erlangB offeredLoad agents / erlangDenominator offeredLoad agents

variable (exp : K → K)

def serviceLevel (offeredLoad : K) (agents : ℤ) (ahtSeconds targetAnswerSeconds : K) : K :=
  if agents ≤ offeredLoad then 0
  else
    1 - erlangCProbability offeredLoad agents *
      exp (-(agents - offeredLoad) * (targetAnswerSeconds / ahtSeconds))

/-- The parameters that are not of the interval. -/
structure StaffingTarget (K : Type*) where
  intervalSeconds : K
  targetServiceLevel : K
  targetAnswerSeconds : K
  maxOccupancy : K

/-- Both the service level and the occupancy are as required. -/
def Clears (target : StaffingTarget K) (offeredLoad ahtSeconds : K) (agents : ℤ) : Prop :=
  target.targetServiceLevel ≤
      serviceLevel exp offeredLoad agents ahtSeconds target.targetAnswerSeconds ∧
    offeredLoad / agents ≤ target.maxOccupancy
  deriving Decidable

/-- The `while` loop, for so many agents from some on. -/
def searchAgents (p : ℤ → Prop) [DecidablePred p] : ℕ → ℤ → Option ℤ
  | 0, _ => none
  | n + 1, agents => if p agents then some agents else searchAgents p n (agents + 1)

inductive RequiredAgentsError (K : Type*)
  /-- `required_agents did not converge`. -/
  | didNotConverge (offeredLoad : K)

variable [FloorRing K]

def requiredAgents (target : StaffingTarget K) (volume ahtSeconds : K) :
    Except (RequiredAgentsError K) ℤ :=
  if volume ≤ 0 ∨ ahtSeconds ≤ 0 then .ok 0
  else
    let offeredLoad := volume * ahtSeconds / target.intervalSeconds
    let agents := max 1 (⌊offeredLoad⌋ + 1)
    match searchAgents (Clears exp target offeredLoad ahtSeconds)
      (maxAgentsSearch + 1 - agents).toNat agents with
    | some agents => .ok agents
    | none => .error (.didNotConverge offeredLoad)

/-- A shrinkage that is none is replaced. -/
def effectiveShrinkage (shrinkage : K) : K :=
  if 0 ≤ shrinkage ∧ shrinkage < 1 then shrinkage else 30 / 100

/-- So many agents at work, where some of the time is lost. -/
def headcountFor (agents : ℤ) (shrinkage : K) : K :=
  if agents = 0 then 0 else agents / (1 - effectiveShrinkage shrinkage)

def requiredHeadcount (target : StaffingTarget K) (volume ahtSeconds : Option K) (shrinkage : K) :
    Except (RequiredAgentsError K) (Option K) :=
  match volume, ahtSeconds with
  | some volume, some ahtSeconds =>
    match requiredAgents exp target volume ahtSeconds with
    | .error error => .error error
    | .ok agents => .ok (some (headcountFor agents shrinkage))
  | _, _ => .ok none

end Definitions

/-! ## The probability to wait -/

section Probability

variable {K : Type*} [Field K] [LinearOrder K] [IsStrictOrderedRing K] {a b : K}

/-- Erlang C for `n` servers. -/
def erlangCFormula (a : K) (n : ℕ) : K :=
  a ^ n / n.factorial * (n / (n - a)) /
    (∑ k ∈ Finset.range n, a ^ k / k.factorial + a ^ n / n.factorial * (n / (n - a)))

omit [LinearOrder K] [IsStrictOrderedRing K] in
theorem erlangB_succ (a : K) (n : ℕ) : erlangB a (n + 1 : ℤ) =
    a * erlangB a n / ((n + 1 : ℕ) + a * erlangB a n) := by
  have hsucc : (n + 1 : ℤ).toNat = n + 1 := rfl
  rw [erlangB, hsucc, List.range'_1_concat, List.foldl_concat, Nat.add_comm 1 n]
  rfl

theorem erlangB_eq (ha : 0 < a) (n : ℕ) : erlangB a (n : ℤ) = (invBlocking a n)⁻¹ := by
  induction n with
  | zero => simp [erlangB, invBlocking]
  | succ n ih =>
    have hpos := invBlocking_pos ha n
    have hsucc : (0 : K) < n + 1 := by positivity
    rw [Nat.cast_succ, erlangB_succ, ih, invBlocking, Nat.cast_succ]
    field_simp
    ring

theorem erlangDenominator_eq (ha : 0 < a) (n : ℕ) : erlangDenominator a (n + 1 : ℤ) =
    invDelay a n / invBlocking a (n + 1) := by
  have hpos := invBlocking_pos ha n
  have hsucc : (0 : K) < n + 1 := by positivity
  have hB := erlangB_eq ha (n + 1)
  rw [Nat.cast_succ] at hB
  rw [erlangDenominator, hB, invDelay, invBlocking]
  push_cast
  field_simp
  ring

theorem erlangDenominator_pos (ha : 0 < a) {n : ℕ} (h : a < n + 1) :
    0 < erlangDenominator a (n + 1 : ℤ) := by
  rw [erlangDenominator_eq ha]
  exact div_pos (one_pos.trans (one_lt_invDelay ha h)) (invBlocking_pos ha _)

theorem erlangCProbability_eq (ha : 0 < a) {n : ℕ} (h : a < n + 1) :
    erlangCProbability a (n + 1 : ℤ) = (invDelay a n)⁻¹ := by
  have hB := erlangB_eq ha (n + 1)
  rw [Nat.cast_succ] at hB
  rw [erlangCProbability, if_neg (not_le.2 ha), if_neg (by omega),
    if_neg (by push_cast; exact not_le.2 h), if_neg (not_le.2 (erlangDenominator_pos ha h)), hB,
    erlangDenominator_eq ha, inv_div_left]
  have hpos := invBlocking_pos ha (n + 1)
  field_simp

theorem exists_eq_succ (ha : 0 < a) {n : ℤ} (h : a < n) : ∃ k : ℕ, n = k + 1 ∧ a < k + 1 := by
  have hpos : 0 < n := Int.cast_pos.1 (ha.trans h)
  obtain ⟨k, rfl⟩ : ∃ k : ℕ, n = k + 1 := ⟨(n - 1).toNat, by omega⟩
  refine ⟨k, rfl, ?_⟩
  push_cast at h
  exact h

omit [IsStrictOrderedRing K] in
theorem erlangCProbability_of_le (ha : 0 < a) {n : ℤ} (h : (n : K) ≤ a) :
    erlangCProbability a n = 1 := by
  rw [erlangCProbability, if_neg (not_le.2 ha), if_pos h, ite_self]

theorem erlangCProbability_pos (ha : 0 < a) (n : ℤ) : 0 < erlangCProbability a n := by
  rcases lt_or_ge a n with h | h
  · obtain ⟨k, rfl, hk⟩ := exists_eq_succ ha h
    rw [erlangCProbability_eq ha hk]
    exact inv_pos.2 (one_pos.trans (one_lt_invDelay ha hk))
  · rw [erlangCProbability_of_le ha h]
    exact one_pos

theorem erlangCProbability_lt_one (ha : 0 < a) {n : ℤ} (h : a < n) :
    erlangCProbability a n < 1 := by
  obtain ⟨k, rfl, hk⟩ := exists_eq_succ ha h
  rw [erlangCProbability_eq ha hk]
  exact inv_lt_one_of_one_lt₀ (one_lt_invDelay ha hk)

theorem erlangCProbability_strictAnti (ha : 0 < a) {n m : ℤ} (h : a < n) (hnm : n < m) :
    erlangCProbability a m < erlangCProbability a n := by
  obtain ⟨k, rfl, hk⟩ := exists_eq_succ ha h
  obtain ⟨d, rfl⟩ : ∃ d : ℕ, m = ((k + d + 1 : ℕ) : ℤ) + 1 := ⟨(m - k - 2).toNat, by omega⟩
  clear hnm h
  have hgrow : ∀ d : ℕ, invDelay a k < invDelay a (k + d + 1) ∧ a < ((k + d + 1 : ℕ) : K) + 1 := by
    intro d
    induction d with
    | zero =>
      refine ⟨invDelay_lt_succ ha hk, ?_⟩
      push_cast
      linarith
    | succ d ih =>
      refine ⟨ih.1.trans (invDelay_lt_succ ha ih.2), ?_⟩
      have hless := ih.2
      push_cast at hless ⊢
      linarith
  rw [erlangCProbability_eq ha hk, erlangCProbability_eq ha (hgrow d).2]
  exact (inv_lt_inv₀ (one_pos.trans (one_lt_invDelay ha (hgrow d).2))
    (one_pos.trans (one_lt_invDelay ha hk))).2 (hgrow d).1

theorem erlangCProbability_strictMono (ha : 0 < a) (hab : a < b) {n : ℤ} (h : a < n) :
    erlangCProbability a n < erlangCProbability b n := by
  rcases lt_or_ge b n with hb | hb
  · obtain ⟨k, rfl, hk⟩ := exists_eq_succ ha h
    have hbk : b < k + 1 := by
      push_cast at hb
      exact hb
    rw [erlangCProbability_eq ha hk, erlangCProbability_eq (ha.trans hab) hbk]
    exact (inv_lt_inv₀ (one_pos.trans (one_lt_invDelay ha hk))
      (one_pos.trans (one_lt_invDelay (ha.trans hab) hbk))).2 (invDelay_strictAnti ha hab hbk)
  · rw [erlangCProbability_of_le (ha.trans hab) hb]
    exact erlangCProbability_lt_one ha h

/-- **Erlang C**: the loop computes the closed form, without its guard, which is a probability that
falls with each agent and grows with the load. -/
theorem erlangC_correct (ha : 0 < a) {n : ℤ} (h : a < n) :
    erlangCProbability a n = erlangCFormula a n.toNat ∧ 0 < erlangDenominator a n ∧
      0 < erlangCProbability a n ∧ erlangCProbability a n < 1 ∧
      (∀ m : ℤ, n < m → erlangCProbability a m < erlangCProbability a n) ∧
      ∀ b, a < b → erlangCProbability a n < erlangCProbability b n := by
  refine ⟨?_, ?_, erlangCProbability_pos ha n, erlangCProbability_lt_one ha h,
    fun m hm => erlangCProbability_strictAnti ha h hm,
    fun b hb => erlangCProbability_strictMono ha hb h⟩
  · obtain ⟨k, rfl, hk⟩ := exists_eq_succ ha h
    have hsucc : (k + 1 : ℤ).toNat = k + 1 := rfl
    rw [erlangCProbability_eq ha hk, inv_invDelay ha hk, erlangCFormula, hsucc, Nat.cast_succ]
  · obtain ⟨k, rfl, hk⟩ := exists_eq_succ ha h
    exact erlangDenominator_pos ha hk

/-- Two agents for one Erlang. -/
theorem erlangC_oneErlang : erlangCProbability (1 : ℚ) 2 = erlangCFormula (1 : ℚ) (2 : ℤ).toNat ∧
    erlangCProbability (1 : ℚ) 2 = 1 / 3 :=
  ⟨(erlangC_correct (a := (1 : ℚ)) (n := 2) (by norm_num) (by norm_num)).1, by decide +kernel⟩

end Probability

/-! ## The service level -/

/-- What is asked for can be met and is worth meeting. -/
structure StaffingTarget.Valid {K : Type*} [Field K] [LinearOrder K] (target : StaffingTarget K) :
    Prop where
  interval : 0 < target.intervalSeconds
  level_pos : 0 < target.targetServiceLevel
  level_le : target.targetServiceLevel ≤ 1
  answer : 0 < target.targetAnswerSeconds
  occupancy_pos : 0 < target.maxOccupancy
  occupancy_le : target.maxOccupancy ≤ 1

section Service

variable {K : Type*} [Field K] [LinearOrder K] [IsStrictOrderedRing K] {exp : K → K} {a b : K}
  {ahtSeconds ahtSeconds' answer : K} {n m : ℤ}

omit [IsStrictOrderedRing K] in
theorem serviceLevel_of_le (h : (n : K) ≤ a) : serviceLevel exp a n ahtSeconds answer = 0 :=
  if_pos h

omit [IsStrictOrderedRing K] in
theorem serviceLevel_of_lt (h : a < n) : serviceLevel exp a n ahtSeconds answer =
    1 - erlangCProbability a n * exp (-(n - a) * (answer / ahtSeconds)) :=
  if_neg (not_le.2 h)

variable (hmono : Monotone exp) (hpos : ∀ x, 0 < exp x)

include hmono hpos

/-- Fewer calls wait, with more of the agents' time to spare. -/
theorem serviceLevel_le (ha : 0 < a) (hn : b < n) (hm : a < m)
    (hwait : erlangCProbability a m ≤ erlangCProbability b n)
    (hspare : (n - b) * (answer / ahtSeconds') ≤ (m - a) * (answer / ahtSeconds)) :
    serviceLevel exp b n ahtSeconds' answer ≤ serviceLevel exp a m ahtSeconds answer := by
  have hexp : exp (-(m - a) * (answer / ahtSeconds)) ≤ exp (-(n - b) * (answer / ahtSeconds')) := by
    refine hmono ?_
    rw [neg_mul, neg_mul]
    exact neg_le_neg hspare
  rw [serviceLevel_of_lt hn, serviceLevel_of_lt hm, sub_le_sub_iff_left]
  exact mul_le_mul hwait hexp (hpos _).le ((erlangCProbability_pos ha m).le.trans hwait)

theorem serviceLevel_mono (ha : 0 < a) (haht : 0 < ahtSeconds) (hanswer : 0 < answer) (h : a < n)
    (hnm : n ≤ m) :
    serviceLevel exp a n ahtSeconds answer ≤ serviceLevel exp a m ahtSeconds answer := by
  rcases hnm.eq_or_lt with rfl | hlt
  · exact le_rfl
  have hcast : (n : K) ≤ m := Int.cast_le.2 hnm
  refine serviceLevel_le hmono hpos ha h (h.trans_le hcast)
    (erlangCProbability_strictAnti ha h hlt).le ?_
  exact mul_le_mul_of_nonneg_right (sub_le_sub_right hcast a) (div_pos hanswer haht).le

theorem serviceLevel_anti (ha : 0 < a) (haht : 0 < ahtSeconds) (hanswer : 0 < answer)
    (hab : a ≤ b) (hahts : ahtSeconds ≤ ahtSeconds') (h : b < n) :
    serviceLevel exp b n ahtSeconds' answer ≤ serviceLevel exp a n ahtSeconds answer := by
  have hwait : erlangCProbability a n ≤ erlangCProbability b n := by
    rcases hab.eq_or_lt with rfl | hlt
    · exact le_rfl
    · exact (erlangCProbability_strictMono ha hlt (hab.trans_lt h)).le
  refine serviceLevel_le hmono hpos ha h (hab.trans_lt h) hwait ?_
  exact mul_le_mul (sub_le_sub_left hab _) (div_le_div_of_nonneg_left hanswer.le haht hahts)
    (div_pos hanswer (haht.trans_le hahts)).le (sub_pos.2 (hab.trans_lt h)).le

end Service

/-! ## The search -/

theorem searchAgents_eq_some {p : ℤ → Prop} [DecidablePred p] {k : ℕ} {start n : ℤ}
    (h : searchAgents p k start = some n) :
    start ≤ n ∧ p n ∧ ∀ m, start ≤ m → m < n → ¬ p m := by
  induction k generalizing start with
  | zero => cases h
  | succ k ih =>
    rw [searchAgents] at h
    split at h
    · cases h
      exact ⟨le_rfl, ‹_›, fun m hle hlt => absurd hle (not_le.2 hlt)⟩
    · obtain ⟨hle, hn, hleast⟩ := ih h
      refine ⟨by omega, hn, fun m hm hlt => ?_⟩
      rcases hm.eq_or_lt with rfl | hstart
      · assumption
      · exact hleast m (by omega) hlt

section Search

variable {K : Type*} [Field K] [LinearOrder K] [IsStrictOrderedRing K] {exp : K → K}
  {target : StaffingTarget K} {a b ahtSeconds ahtSeconds' volume volume' : K} {n m : ℤ}

omit [IsStrictOrderedRing K] in
theorem Clears.load_lt (htarget : target.Valid) (h : Clears exp target a ahtSeconds n) : a < n := by
  by_contra hle
  have hlevel := h.1
  rw [serviceLevel_of_le (not_lt.1 hle)] at hlevel
  exact absurd htarget.level_pos (not_lt.2 hlevel)

variable (hmono : Monotone exp) (hpos : ∀ x, 0 < exp x)

include hmono hpos

theorem Clears.of_le (htarget : target.Valid) (haht : 0 < ahtSeconds) (ha : 0 < a)
    (h : Clears exp target a ahtSeconds n) (hnm : n ≤ m) : Clears exp target a ahtSeconds m := by
  have hload := h.load_lt htarget
  have hcast : (n : K) ≤ m := Int.cast_le.2 hnm
  refine ⟨h.1.trans (serviceLevel_mono hmono hpos ha haht htarget.answer hload hnm), ?_⟩
  exact (div_le_div_of_nonneg_left ha.le (ha.trans hload) hcast).trans h.2

theorem Clears.of_load_le (htarget : target.Valid) (haht : 0 < ahtSeconds) (ha : 0 < a)
    (hab : a ≤ b) (hahts : ahtSeconds ≤ ahtSeconds') (h : Clears exp target b ahtSeconds' n) :
    Clears exp target a ahtSeconds n := by
  have hload := h.load_lt htarget
  refine ⟨h.1.trans (serviceLevel_anti hmono hpos ha haht htarget.answer hab hahts hload), ?_⟩
  exact (div_le_div_of_nonneg_right hab ((ha.trans_le hab).trans hload).le).trans h.2

variable [FloorRing K]

omit hmono hpos [IsStrictOrderedRing K] in
/-- The search starts at the first number above the load, so it finds the least one. -/
theorem requiredAgents_eq_ok (htarget : target.Valid) (haht : 0 < ahtSeconds) (hvolume : 0 < volume)
    (h : requiredAgents exp target volume ahtSeconds = .ok n) :
    0 < n ∧ Clears exp target (volume * ahtSeconds / target.intervalSeconds) ahtSeconds n ∧
      ∀ m, 0 < m → m < n →
        ¬ Clears exp target (volume * ahtSeconds / target.intervalSeconds) ahtSeconds m := by
  rw [requiredAgents, if_neg (not_or.2 ⟨not_le.2 hvolume, not_le.2 haht⟩)] at h
  dsimp only at h
  split at h
  · cases h
    obtain ⟨hstart, hclears, hleast⟩ := searchAgents_eq_some ‹_›
    refine ⟨by omega, hclears, fun m hm hlt hclears' => ?_⟩
    rcases le_or_gt (max 1 (⌊volume * ahtSeconds / target.intervalSeconds⌋ + 1)) m with hle | hless
    · exact hleast m hle hlt hclears'
    · have hfloor : m ≤ ⌊volume * ahtSeconds / target.intervalSeconds⌋ := by omega
      exact absurd (hclears'.load_lt htarget) (not_lt.2 (Int.le_floor.1 hfloor))
  · cases h

omit hmono hpos [IsStrictOrderedRing K] in
/-- Nothing is searched when the first number is enough. -/
theorem requiredAgents_of_first (haht : 0 < ahtSeconds) (hvolume : 0 < volume)
    (hfirst : max 1 (⌊volume * ahtSeconds / target.intervalSeconds⌋ + 1) = n)
    (hle : n ≤ maxAgentsSearch)
    (hclears : Clears exp target (volume * ahtSeconds / target.intervalSeconds) ahtSeconds n) :
    requiredAgents exp target volume ahtSeconds = .ok n := by
  obtain ⟨turns, hturns⟩ : ∃ turns, (maxAgentsSearch + 1 - n).toNat = turns + 1 :=
    Nat.exists_eq_add_one.2 (by omega)
  rw [requiredAgents, if_neg (not_or.2 ⟨not_le.2 hvolume, not_le.2 haht⟩)]
  dsimp only
  rw [hfirst, hturns, searchAgents, if_pos hclears]

/-- More and longer calls do not take fewer agents. -/
theorem requiredAgents_mono (htarget : target.Valid) (haht : 0 < ahtSeconds) (hvolume : 0 < volume)
    (hle : volume ≤ volume') (hahts : ahtSeconds ≤ ahtSeconds')
    (h : requiredAgents exp target volume ahtSeconds = .ok n)
    (h' : requiredAgents exp target volume' ahtSeconds' = .ok m) : n ≤ m := by
  obtain ⟨-, -, hleast⟩ := requiredAgents_eq_ok htarget haht hvolume h
  obtain ⟨hm, hclears, -⟩ :=
    requiredAgents_eq_ok htarget (haht.trans_le hahts) (hvolume.trans_le hle) h'
  by_contra hlt
  have hload : volume * ahtSeconds / target.intervalSeconds ≤
      volume' * ahtSeconds' / target.intervalSeconds := by
    have hinterval := htarget.interval
    have hvolume' := hvolume.trans_le hle
    gcongr
  have hpositive : 0 < volume * ahtSeconds / target.intervalSeconds :=
    div_pos (mul_pos hvolume haht) htarget.interval
  exact hleast m hm (not_le.1 hlt)
    (hclears.of_load_le hmono hpos htarget haht hpositive hload hahts)

/-! ## The headcount -/

omit hmono hpos [IsStrictOrderedRing K] in
theorem requiredHeadcount_of_nonpos (h : volume ≤ 0) (shrinkage : K) :
    requiredHeadcount exp target (some volume) (some ahtSeconds) shrinkage = .ok (some 0) := by
  rw [requiredHeadcount, requiredAgents, if_pos (.inl h)]
  exact congrArg _ (congrArg _ (if_pos rfl))

omit hmono hpos [IsStrictOrderedRing K] in
theorem requiredHeadcount_eq_ok (htarget : target.Valid) (haht : 0 < ahtSeconds)
    (hvolume : 0 < volume) {shrinkage x : K}
    (h : requiredHeadcount exp target (some volume) (some ahtSeconds) shrinkage = .ok (some x)) :
    ∃ n, 0 < n ∧ requiredAgents exp target volume ahtSeconds = .ok n ∧
      x = headcountFor n shrinkage := by
  rw [requiredHeadcount] at h
  split at h
  · cases h
  · rename_i n hagents
    cases h
    exact ⟨n, (requiredAgents_eq_ok htarget haht hvolume hagents).1, hagents, rfl⟩

omit hmono hpos [FloorRing K] in
theorem effectiveShrinkage_lt_one (shrinkage : K) : effectiveShrinkage shrinkage < 1 := by
  rw [effectiveShrinkage]
  split
  · exact And.right ‹_›
  · norm_num

omit hmono hpos [IsStrictOrderedRing K] [FloorRing K] in
theorem effectiveShrinkage_eq {shrinkage : K} (hnonneg : 0 ≤ shrinkage) (hlt : shrinkage < 1) :
    effectiveShrinkage shrinkage = shrinkage :=
  if_pos ⟨hnonneg, hlt⟩

omit hmono hpos [FloorRing K] in
theorem headcountFor_nonneg (hn : 0 ≤ n) (shrinkage : K) : 0 ≤ headcountFor n shrinkage := by
  rw [headcountFor]
  split
  · exact le_rfl
  · exact div_nonneg (Int.cast_nonneg hn) (sub_pos.2 (effectiveShrinkage_lt_one shrinkage)).le

omit hmono hpos [FloorRing K] in
theorem headcountFor_mono (hn : 0 < n) (hnm : n ≤ m) {shrinkage shrinkage' : K}
    (hshrinkage : 0 ≤ shrinkage) (hle : shrinkage ≤ shrinkage') (hlt : shrinkage' < 1) :
    headcountFor n shrinkage ≤ headcountFor m shrinkage' := by
  rw [headcountFor, if_neg hn.ne', headcountFor, if_neg (hn.trans_le hnm).ne',
    effectiveShrinkage_eq hshrinkage (hle.trans_lt hlt),
    effectiveShrinkage_eq (hshrinkage.trans hle) hlt]
  exact div_le_div₀ (Int.cast_nonneg (hn.le.trans hnm)) (Int.cast_le.2 hnm) (sub_pos.2 hlt)
    (sub_le_sub_left hle 1)

/-- The headcount does not fall when there is more to do, or more time is lost. -/
theorem requiredHeadcount_mono (htarget : target.Valid) (haht : 0 < ahtSeconds)
    (hvolume : volume ≤ volume') {shrinkage shrinkage' : K} (hshrinkage : 0 ≤ shrinkage)
    (hle : shrinkage ≤ shrinkage') (hlt : shrinkage' < 1) {x x' : K}
    (h : requiredHeadcount exp target (some volume) (some ahtSeconds) shrinkage = .ok (some x))
    (h' : requiredHeadcount exp target (some volume') (some ahtSeconds) shrinkage' =
      .ok (some x')) : x ≤ x' := by
  rcases le_or_gt volume' 0 with hnone' | hpositive'
  · rw [requiredHeadcount_of_nonpos hnone'] at h'
    rw [requiredHeadcount_of_nonpos (hvolume.trans hnone')] at h
    cases h
    cases h'
    exact le_rfl
  obtain ⟨m, hm, hagents', rfl⟩ := requiredHeadcount_eq_ok htarget haht hpositive' h'
  rcases le_or_gt volume 0 with hnone | hpositive
  · rw [requiredHeadcount_of_nonpos hnone] at h
    cases h
    exact headcountFor_nonneg hm.le shrinkage'
  · obtain ⟨n, hn, hagents, rfl⟩ := requiredHeadcount_eq_ok htarget haht hpositive h
    have hnm := requiredAgents_mono hmono hpos htarget haht hpositive hvolume le_rfl hagents
      hagents'
    exact headcountFor_mono hn hnm hshrinkage hle hlt

end Search

/-- **The required agents** are the least number that is enough, any more are enough too, the
headcount is what is needed for them to be there, and neither falls when there is more to do. -/
theorem requiredAgents_least {target : StaffingTarget ℝ} (htarget : target.Valid) {ahtSeconds : ℝ}
    (haht : 0 < ahtSeconds) :
    (∀ volume n, 0 < volume → requiredAgents Real.exp target volume ahtSeconds = .ok n →
      0 < n ∧
      (∀ m, 0 < m →
        (Clears Real.exp target (volume * ahtSeconds / target.intervalSeconds) ahtSeconds m ↔
          n ≤ m)) ∧
      (∀ shrinkage, 0 ≤ shrinkage → shrinkage < 1 →
        requiredHeadcount Real.exp target (some volume) (some ahtSeconds) shrinkage =
          .ok (some (n / (1 - shrinkage)))) ∧
      ∀ volume' m, volume ≤ volume' →
        requiredAgents Real.exp target volume' ahtSeconds = .ok m → n ≤ m) ∧
    ∀ volume volume' shrinkage shrinkage' x x', volume ≤ volume' → 0 ≤ shrinkage →
      shrinkage ≤ shrinkage' → shrinkage' < 1 →
      requiredHeadcount Real.exp target (some volume) (some ahtSeconds) shrinkage =
        .ok (some x) →
      requiredHeadcount Real.exp target (some volume') (some ahtSeconds) shrinkage' =
        .ok (some x') → x ≤ x' := by
  refine ⟨fun volume n hvolume h => ?_, fun volume volume' shrinkage shrinkage' x x' hle hshrinkage
    hless hlt h h' => requiredHeadcount_mono Real.exp_monotone Real.exp_pos htarget haht hle
      hshrinkage hless hlt h h'⟩
  obtain ⟨hn, hclears, hleast⟩ := requiredAgents_eq_ok htarget haht hvolume h
  have hload : 0 < volume * ahtSeconds / target.intervalSeconds :=
    div_pos (mul_pos hvolume haht) htarget.interval
  refine ⟨hn, fun m hm => ⟨fun hm' => ?_, fun hnm => ?_⟩, fun shrinkage hnonneg hlt => ?_,
    fun volume' m hle h' =>
      requiredAgents_mono Real.exp_monotone Real.exp_pos htarget haht hvolume hle le_rfl h h'⟩
  · exact not_lt.1 fun hlt => hleast m hm hlt hm'
  · exact hclears.of_le Real.exp_monotone Real.exp_pos htarget haht hload hnm
  · rw [requiredHeadcount, h]
    dsimp only
    rw [headcountFor, if_neg hn.ne', effectiveShrinkage_eq hnonneg hlt]

/-- Two calls of one second every two seconds, half of which are to be answered at once. -/
noncomputable def halfErlang : StaffingTarget ℝ := ⟨2, 1 / 2, 1, 1⟩

theorem halfErlang_valid : halfErlang.Valid := by
  constructor <;> norm_num [halfErlang]

theorem halfErlang_load : (2 * 1 / halfErlang.intervalSeconds : ℝ) = 1 := by
  norm_num [halfErlang]

theorem halfErlang_clears :
    Clears Real.exp halfErlang (2 * 1 / halfErlang.intervalSeconds) 1 2 := by
  have hwait : erlangCProbability (1 : ℝ) 2 = 1 / 3 := by
    have h := erlangCProbability_eq (a := (1 : ℝ)) (n := 1) (by norm_num) (by norm_num)
    norm_num at h
    rw [h, invDelay, invBlocking, invBlocking]
    norm_num
  rw [halfErlang_load]
  refine ⟨?_, by norm_num [halfErlang]⟩
  rw [serviceLevel_of_lt (by norm_num), hwait]
  norm_num [halfErlang]
  linarith [Real.exp_le_one_iff.2 (by norm_num : -(1 : ℝ) ≤ 0)]

theorem halfErlang_floor : ⌊(2 * 1 / halfErlang.intervalSeconds : ℝ)⌋ = 1 := by
  rw [halfErlang_load, Int.floor_one]

/-- One agent is kept busy by the calls alone, two are enough. -/
theorem requiredAgents_halfErlang : requiredAgents Real.exp halfErlang 2 1 = .ok 2 ∧
    ∀ m, 0 < m → (Clears Real.exp halfErlang (2 * 1 / halfErlang.intervalSeconds) 1 m ↔ 2 ≤ m) := by
  have hfirst : max 1 (⌊(2 * 1 / halfErlang.intervalSeconds : ℝ)⌋ + 1) = 2 := by
    rw [halfErlang_floor]
    rfl
  have hok : requiredAgents Real.exp halfErlang 2 1 = .ok 2 :=
    requiredAgents_of_first one_pos two_pos hfirst (by decide) halfErlang_clears
  exact ⟨hok, ((requiredAgents_least halfErlang_valid one_pos).1 2 2 two_pos hok).2.1⟩

end Workforce.Forecasting
