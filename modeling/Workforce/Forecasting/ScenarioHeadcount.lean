import Workforce.Forecasting.ErlangC
import Workforce.Forecasting.Scenarios

/-!
# The headcount of a scenario

`headcount_service.py` and `scenario_service.py`: the required headcount of a point, and of the
point that a scenario makes of it. Both resolve what is missing alike; then the scenario brings the
values into range before the headcount is computed, where the base point has those of `erlang.py`
only. Predictions are rational; the agents that they take are counted in real numbers.

* `Unchanged`: a scenario without changes is the base run, and one that only raises the
  assumptions takes no fewer people.
* `unchanged_of_inRange`: that holds where the base run's headcounts are those of the values that
  it stores, and these are in range.
* `inferPoint_ofStored`: the headcounts of `run_inference` are such.
-/

namespace Workforce.Forecasting

open List

/-! ## The headcount of a point -/

structure ServiceLevelTargetConfig where
  targetServiceLevel : ℚ
  targetAnswerTimeSeconds : ℕ
  maxOccupancy : ℚ

/-- `HeadcountContext`, with the target. -/
structure StaffingContext extends HeadcountContext where
  target : ServiceLevelTargetConfig

def ServiceLevelTargetConfig.staffingTarget (target : ServiceLevelTargetConfig)
    (intervalMinutes : ℕ) : StaffingTarget ℝ where
  intervalSeconds := intervalMinutes * 60
  targetServiceLevel := target.targetServiceLevel
  targetAnswerSeconds := target.targetAnswerTimeSeconds
  maxOccupancy := target.maxOccupancy

/-- The agents for a volume of calls. -/
noncomputable def agentsFor (context : StaffingContext) (intervalMinutes : ℕ)
    (volume ahtSeconds : ℚ) : Except (RequiredAgentsError ℝ) ℤ :=
  requiredAgents Real.exp (context.target.staffingTarget intervalMinutes) volume ahtSeconds

/-- `compute_required_headcount`. -/
noncomputable def computeRequiredHeadcount (context : StaffingContext) (intervalMinutes : ℕ)
    (predictedVolume predictedAhtSeconds predictedShrinkagePct : Option ℚ) :
    Except (RequiredAgentsError ℝ) (Option ℚ) :=
  match predictedVolume, predictedAhtSeconds.or context.fallbackAhtSeconds with
  | some volume, some ahtSeconds =>
    match agentsFor context intervalMinutes volume ahtSeconds with
    | .error error => .error error
    | .ok agents =>
      let shrinkage := predictedShrinkagePct.getD context.fallbackShrinkage
      .ok (some (round (headcountFor agents shrinkage) 4))
  | _, _ => .ok none

/-- A data point with its headcount. -/
structure StaffedPoint extends ForecastDataPoint where
  requiredHeadcount : Option ℚ

inductive StaffedScenarioError
  | scenario (error : ScenarioError)
  | headcount (error : RequiredAgentsError ℝ)

/-- A point of `run_inference`: the volume is rounded before its headcount is computed. -/
noncomputable def inferPoint (forecastRunId : ℕ) (context : StaffingContext)
    (intervalMinutes : ℕ) (intervalStart : ℤ) (predicted lower upper : Option ℚ) :
    Except StaffedScenarioError StaffedPoint :=
  let predictedVolume := predicted.map (round · 4)
  match computeRequiredHeadcount context intervalMinutes predictedVolume none none with
  | .error error => .error (.headcount error)
  | .ok requiredHeadcount =>
    match toNumeric? 14 4 predictedVolume, toNumeric? 14 4 (lower.map (round · 4)),
      toNumeric? 14 4 (upper.map (round · 4)), toNumeric? 10 2 requiredHeadcount with
    | some predictedVolume, some lower, some upper, some requiredHeadcount =>
      .ok ⟨⟨forecastRunId, intervalStart, predictedVolume, none, none, lower, upper⟩,
        requiredHeadcount⟩
    | _, _, _, _ => .error (.scenario .numericFieldOverflow)

/-- The point of the result, with its headcount. The one of the base point is not read. -/
noncomputable def adjustStaffedPoint (resultRunId : ℕ) (overrides : AssumptionOverrides)
    (context : StaffingContext) (intervalMinutes : ℕ) (basePoint : StaffedPoint) :
    Except StaffedScenarioError StaffedPoint :=
  let adjusted := applyOverrides basePoint.predictedVolume
    (basePoint.predictedAhtSeconds.or context.fallbackAhtSeconds)
    (some (basePoint.predictedShrinkagePct.getD context.fallbackShrinkage)) overrides
  match computeRequiredHeadcount context intervalMinutes adjusted.volume adjusted.ahtSeconds
    adjusted.shrinkagePct with
  | .error error => .error (.headcount error)
  | .ok requiredHeadcount =>
    match adjustPoint resultRunId overrides context.toHeadcountContext
        basePoint.toForecastDataPoint,
      toNumeric? 10 2 requiredHeadcount with
    | some point, some requiredHeadcount => .ok ⟨point, requiredHeadcount⟩
    | _, _ => .error (.scenario .numericFieldOverflow)

/-- The points of a run, in the order of their intervals. -/
def basePoints (dataPoints : List StaffedPoint) (forecastRunId : ℕ) : List StaffedPoint :=
  (dataPoints.filter (·.forecastRunId = forecastRunId)).insertionSort
    (·.intervalStart ≤ ·.intervalStart)

/-- `create_scenario`, with the headcounts. -/
noncomputable def createStaffedScenario (runs : List ForecastRun)
    (dataPoints : List StaffedPoint) (resultRunId baseForecastRunId : ℕ)
    (overrides : AssumptionOverrides) (context : StaffingContext) :
    Except StaffedScenarioError (ForecastRun × List StaffedPoint) :=
  match runs.find? (·.id = baseForecastRunId) with
  | none => .error (.scenario (.baseRunNotFound baseForecastRunId))
  | some baseRun =>
    if (basePoints dataPoints baseForecastRunId).isEmpty then
      .error (.scenario (.baseRunEmpty baseForecastRunId))
    else
      match (basePoints dataPoints baseForecastRunId).mapM
        (adjustStaffedPoint resultRunId overrides context baseRun.intervalMinutes) with
      | .error error => .error error
      | .ok points => .ok ({ baseRun with id := resultRunId, status := .completed }, points)

/-! ## Without changes -/

/-- `AssumptionOverrides()`. -/
def noOverrides : AssumptionOverrides := ⟨1, 0, 0⟩

def Raises (overrides : AssumptionOverrides) : Prop :=
  1 ≤ overrides.volumeMultiplier ∧ 0 ≤ overrides.ahtDeltaSeconds ∧
    0 ≤ overrides.shrinkageDeltaPct

/-- The headcount of some predicted values, in its column. -/
def HasHeadcount (context : StaffingContext) (intervalMinutes : ℕ)
    (predictedVolume predictedAhtSeconds predictedShrinkagePct headcount : Option ℚ) : Prop :=
  ∃ h, computeRequiredHeadcount context intervalMinutes predictedVolume predictedAhtSeconds
      predictedShrinkagePct = .ok h ∧ toNumeric? 10 2 h = some headcount

/-- The result has what the base point has. -/
structure SamePoint (p q : StaffedPoint) : Prop where
  intervalStart : q.intervalStart = p.intervalStart
  predictedVolume : q.predictedVolume = p.predictedVolume
  confidenceLower : q.confidenceLower = p.confidenceLower
  confidenceUpper : q.confidenceUpper = p.confidenceUpper
  requiredHeadcount : q.requiredHeadcount = p.requiredHeadcount

/-- The result takes no fewer people. -/
def NoFewer (p q : StaffedPoint) : Prop :=
  ∀ h ∈ p.requiredHeadcount, ∃ h' ∈ q.requiredHeadcount, h ≤ h'

/-- A scenario without changes is the base run, and one that only raises the assumptions takes no
fewer people. -/
def Unchanged (runs : List ForecastRun) (dataPoints : List StaffedPoint)
    (baseRun : ForecastRun) (context : StaffingContext) : Prop :=
  ∀ resultRunId,
    (∃ result, createStaffedScenario runs dataPoints resultRunId baseRun.id noOverrides context =
      .ok result ∧ Forall₂ SamePoint (basePoints dataPoints baseRun.id) result.2) ∧
    ∀ overrides result, Raises overrides →
      createStaffedScenario runs dataPoints resultRunId baseRun.id overrides context =
        .ok result →
      Forall₂ NoFewer (basePoints dataPoints baseRun.id) result.2

/-! ## When the two paths agree -/

/-- A headcount in its column. -/
def toHeadcountColumn (headcount : ℚ) : Option ℚ := toNumeric 10 2 (round headcount 4)

/-- The headcount of a point was computed from the values that are stored. -/
def OfStored (context : StaffingContext) (intervalMinutes : ℕ) (p : StaffedPoint) : Prop :=
  HasHeadcount context intervalMinutes p.predictedVolume p.predictedAhtSeconds
    p.predictedShrinkagePct p.requiredHeadcount

/-- The scenario brings none of these values into range, unless there are no calls. -/
def InRange (context : StaffingContext) (p : StaffedPoint) : Prop :=
  match p.predictedVolume, p.predictedAhtSeconds.or context.fallbackAhtSeconds with
  | none, _ => True
  | some volume, none => 0 ≤ volume
  | some volume, some ahtSeconds =>
    let shrinkage := p.predictedShrinkagePct.getD context.fallbackShrinkage
    volume = 0 ∨ 0 < volume ∧ minAhtSeconds ≤ ahtSeconds ∧ 0 ≤ shrinkage ∧
      shrinkage ≤ maxShrinkage

/-- The condition for a point. -/
structure Steady (context : StaffingContext) (intervalMinutes : ℕ) (p : StaffedPoint) : Prop where
  ofStored : OfStored context intervalMinutes p
  inRange : InRange context p

/-- What the database holds: values of their columns, a target that was checked, and averages of
stored values. -/
structure StaffingContext.Valid (context : StaffingContext) : Prop where
  level_pos : 0 < context.target.targetServiceLevel
  level_le : context.target.targetServiceLevel ≤ 1
  answer : 0 < context.target.targetAnswerTimeSeconds
  occupancy_pos : 0 < context.target.maxOccupancy
  occupancy_le : context.target.maxOccupancy ≤ 1
  fallbackAht : ∀ ahtSeconds ∈ context.fallbackAhtSeconds, ahtSeconds ≤ 9999999999 / 100

/-- The values fit their `numeric` columns as they are. -/
structure StoredPoint (p : StaffedPoint) : Prop where
  predictedVolume : toNumeric? 14 4 p.predictedVolume = some p.predictedVolume
  predictedAhtSeconds : toNumeric? 10 2 p.predictedAhtSeconds = some p.predictedAhtSeconds
  confidenceLower : toNumeric? 14 4 p.confidenceLower = some p.confidenceLower
  confidenceUpper : toNumeric? 14 4 p.confidenceUpper = some p.confidenceUpper

/-! ## Rounding -/

theorem roundHalfEven_mono : Monotone Scheduling.roundHalfEven := by
  have hbounds : ∀ z : ℚ,
      ⌊z⌋ ≤ Scheduling.roundHalfEven z ∧ Scheduling.roundHalfEven z ≤ ⌊z⌋ + 1 := by
    intro z
    unfold Scheduling.roundHalfEven
    split_ifs <;> omega
  intro x y hxy
  rcases (Int.floor_le_floor hxy).eq_or_lt with hfloor | hfloor
  · -- with one floor the fractions are compared
    unfold Scheduling.roundHalfEven
    rw [hfloor]
    split_ifs <;> first | omega | linarith
  · have hx := (hbounds x).2
    have hy := (hbounds y).1
    omega

theorem round_mono (decimals : ℕ) : Monotone (round · decimals) := by
  intro x y hxy
  have hpow : (0 : ℚ) ≤ 10 ^ decimals := by positivity
  exact div_le_div_of_nonneg_right
    (Int.cast_le.2 (roundHalfEven_mono (mul_le_mul_of_nonneg_right hxy hpow))) hpow

theorem round_nonneg {x : ℚ} (h : 0 ≤ x) : 0 ≤ round x 4 := by
  have hzero : round 0 4 = 0 := by norm_num [round, Scheduling.roundHalfEven]
  exact hzero ▸ round_mono 4 h

theorem roundHalfEven_intCast (k : ℤ) : Scheduling.roundHalfEven (k : ℚ) = k := by
  rw [Scheduling.roundHalfEven, Int.floor_intCast, sub_self, if_pos (by norm_num)]

theorem round_of_stored {x : ℚ} (h : toNumeric 14 4 x = some x) : round x 4 = x := by
  obtain ⟨k, hk⟩ : ∃ k : ℤ, x = k / 10 ^ 4 := by
    rw [toNumeric] at h
    split at h
    · have heq := Option.some.inj h
      split at heq
      · exact ⟨_, heq.symm⟩
      · exact ⟨-⌊|x| * 10 ^ 4 + 1 / 2⌋, by rw [Int.cast_neg, neg_div]; exact heq.symm⟩
    · cases h
  have hmul : x * 10 ^ 4 = k := by rw [hk, div_mul_cancel₀ _ (by norm_num)]
  rw [round, hmul, roundHalfEven_intCast, hk]

theorem toNumeric_round_of_stored {x : Option ℚ} (h : toNumeric? 14 4 x = some x) :
    toNumeric? 14 4 (x.map (round · 4)) = some x := by
  cases x with
  | none => rfl
  | some x =>
    have hx : toNumeric 14 4 x = some x := by
      rw [toNumeric?, Option.map_eq_some_iff] at h
      obtain ⟨y, hy, heq⟩ := h
      rw [hy, heq]
    rw [Option.map_some, round_of_stored hx, toNumeric?, hx, Option.map_some]

theorem toHeadcountColumn_eq_some {x y : ℚ} (hx : 0 ≤ x) (h : toHeadcountColumn x = some y) :
    y = ⌊round x 4 * 10 ^ 2 + 1 / 2⌋ / 10 ^ 2 := by
  have hround := round_nonneg hx
  rw [toHeadcountColumn, toNumeric] at h
  split at h
  · rw [abs_of_nonneg hround] at h
    exact (Option.some.inj h).symm
  · cases h

theorem toHeadcountColumn_mono {x x' y y' : ℚ} (hx : 0 ≤ x) (hle : x ≤ x')
    (h : toHeadcountColumn x = some y) (h' : toHeadcountColumn x' = some y') : y ≤ y' := by
  rw [toHeadcountColumn_eq_some hx h, toHeadcountColumn_eq_some (hx.trans hle) h']
  have hround : round x 4 ≤ round x' 4 := round_mono 4 hle
  have hfloor : ⌊round x 4 * 10 ^ 2 + 1 / 2⌋ ≤ ⌊round x' 4 * 10 ^ 2 + 1 / 2⌋ :=
    Int.floor_le_floor (by linarith)
  exact div_le_div_of_nonneg_right (Int.cast_le.2 hfloor) (by norm_num)

/-- A number of four decimals is kept as it is. -/
theorem toNumeric_div_eq {k : ℤ} {x : ℚ} (h : toNumeric 14 4 (k / 10 ^ 4) = some x) :
    x = k / 10 ^ 4 := by
  have habs : |(k : ℚ) / 10 ^ 4| * 10 ^ 4 = ((|k| : ℤ) : ℚ) := by
    rw [abs_div, abs_of_pos (by positivity : (0 : ℚ) < 10 ^ 4), div_mul_cancel₀ _ (by norm_num),
      Int.cast_abs]
  have hfloor : ⌊((|k| : ℤ) : ℚ) + 1 / 2⌋ = |k| := by
    rw [Int.floor_intCast_add]
    norm_num
  rw [toNumeric, habs, hfloor] at h
  split at h
  · have heq := (Option.some.inj h).symm
    rw [heq]
    split
    · have hnonneg : 0 ≤ k := by
        by_contra hlt
        exact absurd ‹_› (not_le.2 (div_neg_of_neg_of_pos (Int.cast_lt_zero.2 (not_le.1 hlt))
          (by norm_num : (0 : ℚ) < 10 ^ 4)))
      rw [abs_of_nonneg hnonneg]
    · have hneg : k < 0 := by
        by_contra hge
        exact ‹¬ _› (div_nonneg (Int.cast_nonneg (not_lt.1 hge)) (by norm_num))
      rw [abs_of_neg hneg, Int.cast_neg, neg_div, neg_neg]
  · cases h

theorem toNumeric?_round_eq {x y : Option ℚ}
    (h : toNumeric? 14 4 (x.map (round · 4)) = some y) : y = x.map (round · 4) := by
  cases x with
  | none => exact (Option.some.inj h).symm
  | some x =>
    obtain ⟨z, hz, rfl⟩ := Option.map_eq_some_iff.1 h
    exact congrArg some (toNumeric_div_eq hz)

/-- **What a model predicts** is stored with the headcount of what is stored. -/
theorem inferPoint_ofStored {forecastRunId intervalMinutes : ℕ} {context : StaffingContext}
    {intervalStart : ℤ} {predicted lower upper : Option ℚ} {p : StaffedPoint}
    (h : inferPoint forecastRunId context intervalMinutes intervalStart predicted lower upper =
      .ok p) : OfStored context intervalMinutes p := by
  unfold inferPoint at h
  dsimp only at h
  split at h
  · cases h
  · rename_i headcount hcompute
    split at h
    · rename_i hvolume _ _ hheadcount
      cases h
      cases toNumeric?_round_eq hvolume
      exact ⟨headcount, hcompute, hheadcount⟩
    · cases h

/-! ## The agents of a point -/

section Agents

variable {context : StaffingContext} {intervalMinutes : ℕ} {n n' : ℤ}
  {volume volume' ahtSeconds ahtSeconds' : ℚ}

theorem StaffingContext.Valid.staffingTarget (h : context.Valid) (hinterval : 0 < intervalMinutes) :
    (context.target.staffingTarget intervalMinutes).Valid where
  interval := mul_pos (Nat.cast_pos.2 hinterval) (by norm_num)
  level_pos := Rat.cast_pos.2 h.level_pos
  level_le := by
    have hle : ((context.target.targetServiceLevel : ℚ) : ℝ) ≤ ((1 : ℚ) : ℝ) :=
      Rat.cast_le.2 h.level_le
    rwa [Rat.cast_one] at hle
  answer := Nat.cast_pos.2 h.answer
  occupancy_pos := Rat.cast_pos.2 h.occupancy_pos
  occupancy_le := by
    have hle : ((context.target.maxOccupancy : ℚ) : ℝ) ≤ ((1 : ℚ) : ℝ) :=
      Rat.cast_le.2 h.occupancy_le
    rwa [Rat.cast_one] at hle

theorem agentsFor_of_nonpos (h : volume ≤ 0 ∨ ahtSeconds ≤ 0) :
    agentsFor context intervalMinutes volume ahtSeconds = .ok 0 := by
  rw [agentsFor, requiredAgents, if_pos (h.imp Rat.cast_nonpos.2 Rat.cast_nonpos.2)]

theorem agentsFor_pos (hcontext : context.Valid) (hinterval : 0 < intervalMinutes)
    (hvolume : 0 < volume) (haht : 0 < ahtSeconds)
    (h : agentsFor context intervalMinutes volume ahtSeconds = .ok n) : 0 < n :=
  (requiredAgents_eq_ok (hcontext.staffingTarget hinterval) (Rat.cast_pos.2 haht)
    (Rat.cast_pos.2 hvolume) h).1

theorem agentsFor_mono (hcontext : context.Valid) (hinterval : 0 < intervalMinutes)
    (hvolume : 0 < volume) (haht : 0 < ahtSeconds) (hle : volume ≤ volume')
    (hahts : ahtSeconds ≤ ahtSeconds')
    (h : agentsFor context intervalMinutes volume ahtSeconds = .ok n)
    (h' : agentsFor context intervalMinutes volume' ahtSeconds' = .ok n') : n ≤ n' :=
  requiredAgents_mono Real.exp_monotone Real.exp_pos (hcontext.staffingTarget hinterval)
    (Rat.cast_pos.2 haht) (Rat.cast_pos.2 hvolume) (Rat.cast_le.2 hle) (Rat.cast_le.2 hahts) h h'

theorem agentsFor_nonneg (hcontext : context.Valid) (hinterval : 0 < intervalMinutes)
    (h : agentsFor context intervalMinutes volume ahtSeconds = .ok n) : 0 ≤ n := by
  by_cases hnone : volume ≤ 0 ∨ ahtSeconds ≤ 0
  · rw [agentsFor_of_nonpos hnone] at h
    cases h
    exact le_rfl
  · obtain ⟨hvolume, haht⟩ := not_or.1 hnone
    exact (agentsFor_pos hcontext hinterval (not_le.1 hvolume) (not_le.1 haht) h).le

/-! ## The headcount of values -/

variable {predictedAhtSeconds predictedShrinkagePct headcount headcount' : Option ℚ}

theorem hasHeadcount_none : HasHeadcount context intervalMinutes none predictedAhtSeconds
    predictedShrinkagePct headcount ↔ headcount = none := by
  constructor
  · rintro ⟨x, hx, hcolumn⟩
    unfold computeRequiredHeadcount at hx
    cases hx
    exact (Option.some.inj hcolumn).symm
  · rintro rfl
    exact ⟨none, rfl, rfl⟩

theorem hasHeadcount_of_no_aht (haht : predictedAhtSeconds.or context.fallbackAhtSeconds = none) :
    HasHeadcount context intervalMinutes (some volume) predictedAhtSeconds predictedShrinkagePct
      headcount ↔ headcount = none := by
  have hcompute : computeRequiredHeadcount context intervalMinutes (some volume)
      predictedAhtSeconds predictedShrinkagePct = .ok none := by
    unfold computeRequiredHeadcount
    rw [haht]
  constructor
  · rintro ⟨x, hx, hcolumn⟩
    rw [hcompute] at hx
    cases hx
    exact (Option.some.inj hcolumn).symm
  · rintro rfl
    exact ⟨none, hcompute, rfl⟩

theorem hasHeadcount_some
    (haht : predictedAhtSeconds.or context.fallbackAhtSeconds = some ahtSeconds) :
    HasHeadcount context intervalMinutes (some volume) predictedAhtSeconds predictedShrinkagePct
      headcount ↔
    ∃ n x, agentsFor context intervalMinutes volume ahtSeconds = .ok n ∧
      toHeadcountColumn
        (headcountFor n (predictedShrinkagePct.getD context.fallbackShrinkage)) = some x ∧
      headcount = some x := by
  constructor
  · rintro ⟨y, hy, hcolumn⟩
    unfold computeRequiredHeadcount at hy
    rw [haht] at hy
    dsimp only at hy
    split at hy
    · cases hy
    · cases hy
      obtain ⟨x, hx, hheadcount⟩ := Option.map_eq_some_iff.1 hcolumn
      exact ⟨_, x, ‹_›, hx, hheadcount.symm⟩
  · rintro ⟨n, x, hagents, hx, rfl⟩
    refine ⟨some (round (headcountFor n
      (predictedShrinkagePct.getD context.fallbackShrinkage)) 4), ?_, ?_⟩
    · unfold computeRequiredHeadcount
      rw [haht]
      dsimp only
      rw [hagents]
    · rw [toNumeric?]
      exact Option.map_eq_some_iff.2 ⟨x, hx, rfl⟩

end Agents

/-! ## A point -/

theorem headcountFor_of_pos {n : ℤ} (hn : 0 < n) (shrinkage : ℚ) :
    headcountFor n shrinkage = n / (1 - effectiveShrinkage shrinkage) :=
  if_neg hn.ne'

theorem headcountFor_zero (shrinkage : ℚ) : headcountFor 0 shrinkage = 0 := if_pos rfl

theorem one_le_headcountFor {n : ℤ} (hn : 0 < n) {shrinkage : ℚ} (hnonneg : 0 ≤ shrinkage)
    (hlt : shrinkage < 1) : 1 ≤ headcountFor n shrinkage := by
  have hone : (1 : ℚ) ≤ n := by exact_mod_cast hn
  rw [headcountFor_of_pos hn, effectiveShrinkage_eq hnonneg hlt, le_div_iff₀ (sub_pos.2 hlt)]
  linarith

/-- The shrinkage that a scenario without changes takes. -/
def clampShrinkage (shrinkage : ℚ) : ℚ := min (max shrinkage 0) maxShrinkage

theorem clampShrinkage_nonneg (shrinkage : ℚ) : 0 ≤ clampShrinkage shrinkage :=
  le_min (le_max_right _ _) (by norm_num [maxShrinkage])

theorem clampShrinkage_lt_one (shrinkage : ℚ) : clampShrinkage shrinkage < 1 :=
  lt_of_le_of_lt (min_le_right _ _) (by norm_num [maxShrinkage])

/-! ## A point of a scenario -/

theorem toNumeric_of_le {precision scale : ℕ} {x y : ℚ} (hx : 0 ≤ x) (hle : x ≤ y)
    (hy : (toNumeric precision scale y).isSome) : ∃ z, toNumeric precision scale x = some z := by
  rw [toNumeric, abs_of_nonneg (hx.trans hle)] at hy
  rw [toNumeric, abs_of_nonneg hx]
  split at hy
  · rename_i hfits
    have hfloor : ⌊x * 10 ^ scale + 1 / 2⌋ ≤ ⌊y * 10 ^ scale + 1 / 2⌋ :=
      Int.floor_le_floor (add_le_add_left (mul_le_mul_of_nonneg_right hle (by positivity)) _)
    have hless : (⌊x * 10 ^ scale + 1 / 2⌋ / 10 ^ scale : ℚ) ≤
        ⌊y * 10 ^ scale + 1 / 2⌋ / 10 ^ scale :=
      div_le_div_of_nonneg_right (Int.cast_le.2 hfloor) (by positivity)
    rw [if_pos (hless.trans_lt hfits)]
    exact ⟨_, rfl⟩
  · cases hy

theorem le_of_stored_aht {x : ℚ} (h : toNumeric 10 2 x = some x) : x ≤ 9999999999 / 100 := by
  rcases le_or_gt x 0 with hneg | hpos
  · linarith
  rw [toNumeric, abs_of_pos hpos] at h
  split at h
  · rename_i hfits
    rw [if_pos hpos.le] at h
    have hx := Option.some.inj h
    have hlt : ((⌊x * 10 ^ 2 + 1 / 2⌋ : ℤ) : ℚ) < (10000000000 : ℤ) := by
      rw [div_lt_iff₀ (by norm_num)] at hfits
      norm_num at hfits ⊢
      exact hfits
    have hle : ((⌊x * 10 ^ 2 + 1 / 2⌋ : ℤ) : ℚ) ≤ (9999999999 : ℤ) :=
      Int.cast_le.2 (Int.le_of_lt_add_one (Int.cast_lt.1 hlt))
    have hquot := div_le_div_of_nonneg_right hle (by norm_num : (0 : ℚ) ≤ 10 ^ 2)
    rw [hx] at hquot
    norm_num at hquot ⊢
    exact hquot
  · cases h

section Points

variable {context : StaffingContext} {intervalMinutes resultRunId resultRunId' : ℕ}
  {p q : StaffedPoint} {overrides : AssumptionOverrides}
  {volume ahtSeconds : ℚ}

/-- The values that a scenario takes for a point. -/
def adjustedValues (overrides : AssumptionOverrides) (context : StaffingContext)
    (p : StaffedPoint) : AdjustedValues :=
  applyOverrides p.predictedVolume (p.predictedAhtSeconds.or context.fallbackAhtSeconds)
    (some (p.predictedShrinkagePct.getD context.fallbackShrinkage)) overrides

theorem adjustStaffedPoint_eq_ok :
    adjustStaffedPoint resultRunId overrides context intervalMinutes p = .ok q ↔
      adjustPoint resultRunId overrides context.toHeadcountContext p.toForecastDataPoint =
        some q.toForecastDataPoint ∧
      HasHeadcount context intervalMinutes
        (adjustedValues overrides context p).volume
        (adjustedValues overrides context p).ahtSeconds
        (adjustedValues overrides context p).shrinkagePct
        q.requiredHeadcount := by
  unfold adjustStaffedPoint HasHeadcount
  rw [← adjustedValues]
  dsimp only
  cases computeRequiredHeadcount context intervalMinutes
      (adjustedValues overrides context p).volume
      (adjustedValues overrides context p).ahtSeconds
      (adjustedValues overrides context p).shrinkagePct with
  | error error =>
    dsimp only
    constructor
    · intro h
      cases h
    · rintro ⟨-, h, hcompute, -⟩
      cases hcompute
  | ok headcount =>
    dsimp only
    constructor
    · intro h
      split at h
      · cases h
        exact ⟨‹_›, headcount, rfl, ‹_›⟩
      · cases h
    · rintro ⟨hpoint, h, hcompute, hcolumn⟩
      cases hcompute
      rw [hpoint, hcolumn]

variable {headcount : Option ℚ}

theorem adjusted_hasHeadcount (hvolume : p.predictedVolume = some volume)
    (haht : p.predictedAhtSeconds.or context.fallbackAhtSeconds = some ahtSeconds) :
    HasHeadcount context intervalMinutes
        (adjustedValues overrides context p).volume
        (adjustedValues overrides context p).ahtSeconds
        (adjustedValues overrides context p).shrinkagePct headcount ↔
      ∃ n x, agentsFor context intervalMinutes (max (volume * overrides.volumeMultiplier) 0)
          (max (ahtSeconds + overrides.ahtDeltaSeconds) minAhtSeconds) = .ok n ∧
        toHeadcountColumn (headcountFor n (clampShrinkage
          (p.predictedShrinkagePct.getD context.fallbackShrinkage +
            overrides.shrinkageDeltaPct))) = some x ∧
        headcount = some x := by
  unfold adjustedValues
  rw [hvolume, haht]
  exact hasHeadcount_some rfl

theorem adjustPoint_eq_some {q : ForecastDataPoint} :
    adjustPoint resultRunId overrides context.toHeadcountContext p.toForecastDataPoint =
        some q ↔
      q.forecastRunId = resultRunId ∧ q.intervalStart = p.intervalStart ∧
      toNumeric? 14 4 ((adjustedValues overrides context p).volume.map
        (round · 4)) = some q.predictedVolume ∧
      toNumeric? 10 2 ((adjustedValues overrides context p).ahtSeconds.map
        (round · 4)) = some q.predictedAhtSeconds ∧
      toNumeric? 6 4 ((adjustedValues overrides context p).shrinkagePct.map
        (round · 4)) = some q.predictedShrinkagePct ∧
      toNumeric? 14 4 ((p.confidenceLower.map (· * overrides.volumeMultiplier)).map
        (round · 4)) = some q.confidenceLower ∧
      toNumeric? 14 4 ((p.confidenceUpper.map (· * overrides.volumeMultiplier)).map
        (round · 4)) = some q.confidenceUpper := by
  simp only [adjustPoint, adjustedValues, Option.bind_eq_bind, Option.bind_eq_some_iff,
    Option.pure_def, Option.some.injEq]
  constructor
  · rintro ⟨_, hvolume, _, haht, _, hshrinkage, _, hlower, _, hupper, rfl⟩
    exact ⟨rfl, rfl, hvolume, haht, hshrinkage, hlower, hupper⟩
  · rintro ⟨hrun, hstart, hvolume, haht, hshrinkage, hlower, hupper⟩
    refine ⟨_, hvolume, _, haht, _, hshrinkage, _, hlower, _, hupper, ?_⟩
    rw [← hrun, ← hstart]

/-- The handle time of a point is one of its column, or the average of such. -/
theorem effectiveAht_le (hcontext : context.Valid) (hp : StoredPoint p)
    (haht : p.predictedAhtSeconds.or context.fallbackAhtSeconds = some ahtSeconds) :
    ahtSeconds ≤ 9999999999 / 100 := by
  have hstored := hp.predictedAhtSeconds
  cases hown : p.predictedAhtSeconds with
  | none =>
    rw [hown, Option.none_or] at haht
    exact hcontext.fallbackAht ahtSeconds haht
  | some own =>
    rw [hown, Option.some_or] at haht
    rw [hown, toNumeric?, Option.map_eq_some_iff] at hstored
    obtain ⟨x, hx, hsame⟩ := hstored
    cases haht
    cases hsame
    exact le_of_stored_aht hx

theorem exists_adjustPoint_noOverrides (resultRunId : ℕ) (hcontext : context.Valid)
    (hp : StoredPoint p) (hnonneg : ∀ volume ∈ p.predictedVolume, 0 ≤ volume) :
    ∃ q, adjustPoint resultRunId noOverrides context.toHeadcountContext p.toForecastDataPoint =
        some q ∧
      q.intervalStart = p.intervalStart ∧ q.predictedVolume = p.predictedVolume ∧
      q.confidenceLower = p.confidenceLower ∧ q.confidenceUpper = p.confidenceUpper := by
  have hvolume : (adjustedValues noOverrides context p).volume =
      p.predictedVolume := by
    unfold adjustedValues
    cases hown : p.predictedVolume with
    | none => rfl
    | some volume =>
      have hkeeps : max (volume * 1) 0 = volume := by
        rw [mul_one, max_eq_left (hnonneg volume hown)]
      exact congrArg some hkeeps
  have haht : ∃ x, toNumeric? 10 2
      ((adjustedValues noOverrides context p).ahtSeconds.map (round · 4)) =
        some x := by
    unfold adjustedValues
    cases heffective : p.predictedAhtSeconds.or context.fallbackAhtSeconds with
    | none => exact ⟨none, rfl⟩
    | some ahtSeconds =>
      have hle : max (ahtSeconds + 0) minAhtSeconds ≤ 9999999999 / 100 := by
        rw [add_zero]
        exact max_le (effectiveAht_le hcontext hp heffective) (by norm_num [minAhtSeconds])
      have hround : round (9999999999 / 100) 4 = 9999999999 / 100 := by
        norm_num [round, Scheduling.roundHalfEven]
      have hrounded : round (max (ahtSeconds + 0) minAhtSeconds) 4 ≤ 9999999999 / 100 :=
        (round_mono 4 hle).trans_eq hround
      obtain ⟨x, hx⟩ := toNumeric_of_le
        (round_nonneg (le_max_of_le_right (by norm_num [minAhtSeconds]))) hrounded
        (by norm_num [toNumeric] : (toNumeric 10 2 _).isSome)
      exact ⟨some x, congrArg (Option.map some) hx⟩
  obtain ⟨ahtSeconds, haht⟩ := haht
  have hshrinkage : ∃ x, toNumeric 6 4 (round (clampShrinkage
      (p.predictedShrinkagePct.getD context.fallbackShrinkage + 0)) 4) = some x := by
    have hround : round 1 4 = 1 := by norm_num [round, Scheduling.roundHalfEven]
    exact toNumeric_of_le (round_nonneg (clampShrinkage_nonneg _))
      ((round_mono 4 (clampShrinkage_lt_one _).le).trans_eq hround) (by norm_num [toNumeric])
  obtain ⟨shrinkage, hshrinkage⟩ := hshrinkage
  have hbound : ∀ bound : Option ℚ, bound.map (· * noOverrides.volumeMultiplier) = bound := by
    rintro (_ | bound)
    · rfl
    · exact congrArg some (mul_one bound)
  refine ⟨⟨resultRunId, p.intervalStart, p.predictedVolume, ahtSeconds, some shrinkage,
    p.confidenceLower, p.confidenceUpper⟩, adjustPoint_eq_some.2 ⟨rfl, rfl, ?_, haht, ?_, ?_, ?_⟩,
    rfl, rfl, rfl, rfl⟩
  · rw [hvolume]
    exact toNumeric_round_of_stored hp.predictedVolume
  · exact congrArg (Option.map some) hshrinkage
  · rw [hbound]
    exact toNumeric_round_of_stored hp.confidenceLower
  · rw [hbound]
    exact toNumeric_round_of_stored hp.confidenceUpper

theorem clampShrinkage_mono : Monotone clampShrinkage :=
  fun _ _ hle => min_le_min (max_le_max hle le_rfl) le_rfl

/-- What a scenario without changes makes of a point with calls that can be handled. -/
theorem noOverrides_hasHeadcount (hvolume : p.predictedVolume = some volume)
    (hnonneg : 0 ≤ volume)
    (haht : p.predictedAhtSeconds.or context.fallbackAhtSeconds = some ahtSeconds) :
    HasHeadcount context intervalMinutes
        (adjustedValues noOverrides context p).volume
        (adjustedValues noOverrides context p).ahtSeconds
        (adjustedValues noOverrides context p).shrinkagePct headcount ↔
      ∃ n x, agentsFor context intervalMinutes volume (max ahtSeconds minAhtSeconds) = .ok n ∧
        toHeadcountColumn (headcountFor n (clampShrinkage
          (p.predictedShrinkagePct.getD context.fallbackShrinkage))) = some x ∧
        headcount = some x := by
  rw [adjusted_hasHeadcount hvolume haht]
  unfold noOverrides
  dsimp only
  rw [mul_one, max_eq_left hnonneg, add_zero, add_zero]

theorem InRange.nonneg (h : InRange context p) :
    ∀ volume ∈ p.predictedVolume, 0 ≤ volume := by
  intro volume hvolume
  unfold InRange at h
  rw [hvolume] at h
  cases haht : p.predictedAhtSeconds.or context.fallbackAhtSeconds with
  | none =>
    rw [haht] at h
    exact h
  | some ahtSeconds =>
    rw [haht] at h
    rcases h with hzero | ⟨hpos, -⟩
    · exact hzero.ge
    · exact hpos.le

/-- Where nothing is brought into range, the headcount is the one that is stored. -/
theorem Steady.hasHeadcount (h : Steady context intervalMinutes p) :
    HasHeadcount context intervalMinutes
      (adjustedValues noOverrides context p).volume
      (adjustedValues noOverrides context p).ahtSeconds
      (adjustedValues noOverrides context p).shrinkagePct
      p.requiredHeadcount := by
  have hstored := h.ofStored
  have hrange := h.inRange
  unfold OfStored at hstored
  unfold InRange at hrange
  cases hvolume : p.predictedVolume with
  | none =>
    rw [hvolume, hasHeadcount_none] at hstored
    unfold adjustedValues
    rw [hvolume]
    exact hasHeadcount_none.2 hstored
  | some volume =>
    have hnonneg := h.inRange.nonneg volume hvolume
    rw [hvolume] at hstored hrange
    cases haht : p.predictedAhtSeconds.or context.fallbackAhtSeconds with
    | none =>
      rw [hasHeadcount_of_no_aht haht] at hstored
      unfold adjustedValues
      rw [hvolume, haht]
      refine (hasHeadcount_of_no_aht ?_).2 hstored
      rw [Option.or_eq_none_iff] at haht
      rw [haht.2]
      rfl
    | some ahtSeconds =>
      rw [haht] at hrange
      obtain ⟨n, x, hagents, hx, hheadcount⟩ := (hasHeadcount_some haht).1 hstored
      refine (noOverrides_hasHeadcount hvolume hnonneg haht).2 ?_
      rcases hrange with hzero | ⟨-, hmin, hpos, hmax⟩
      · -- without calls nobody is needed, whatever the other values are
        rw [agentsFor_of_nonpos (.inl hzero.le)] at hagents
        cases hagents
        rw [headcountFor_zero] at hx
        refine ⟨0, x, agentsFor_of_nonpos (.inl hzero.le), ?_, hheadcount⟩
        rw [headcountFor_zero, hx]
      · refine ⟨n, x, ?_, ?_, hheadcount⟩
        · rw [max_eq_left hmin, hagents]
        · rw [clampShrinkage, max_eq_left hpos, min_eq_left hmax, hx]

/-- Without changes a steady point is kept. -/
theorem exists_samePoint (hcontext : context.Valid) (hp : StoredPoint p)
    (h : Steady context intervalMinutes p) :
    ∃ q, adjustStaffedPoint resultRunId noOverrides context intervalMinutes p = .ok q ∧
      SamePoint p q := by
  obtain ⟨point, hpoint, hstart, hvolume, hlower, hupper⟩ :=
    exists_adjustPoint_noOverrides resultRunId hcontext hp h.inRange.nonneg
  exact ⟨⟨point, p.requiredHeadcount⟩, adjustStaffedPoint_eq_ok.2 ⟨hpoint, h.hasHeadcount⟩,
    ⟨hstart, hvolume, hlower, hupper, rfl⟩⟩

/-- More calls, longer calls and more shrinkage take no fewer people. -/
theorem noFewer_of_steady (hcontext : context.Valid) (hinterval : 0 < intervalMinutes)
    (hsteady : Steady context intervalMinutes p) (hraises : Raises overrides)
    (h : adjustStaffedPoint resultRunId overrides context intervalMinutes p = .ok q) :
    NoFewer p q := by
  intro x hstored
  have hadjusted := (adjustStaffedPoint_eq_ok.1 h).2
  have hsame := hsteady.hasHeadcount
  cases hvolume : p.predictedVolume with
  | none =>
    have hnone := hsteady.ofStored
    rw [OfStored, hvolume, hasHeadcount_none, hstored] at hnone
    cases hnone
  | some volume =>
    have hnonneg := hsteady.inRange.nonneg volume hvolume
    cases haht : p.predictedAhtSeconds.or context.fallbackAhtSeconds with
    | none =>
      have hnone := hsteady.ofStored
      rw [OfStored, hvolume, hasHeadcount_of_no_aht haht, hstored] at hnone
      cases hnone
    | some ahtSeconds =>
      obtain ⟨n, y, hagents, hy, hx⟩ := (noOverrides_hasHeadcount hvolume hnonneg haht).1 hsame
      obtain ⟨n', y', hagents', hy', hq⟩ := (adjusted_hasHeadcount hvolume haht).1 hadjusted
      cases hstored.symm.trans hx
      refine ⟨y', hq, ?_⟩
      have hn' := agentsFor_nonneg hcontext hinterval hagents'
      rcases hnonneg.eq_or_lt with hzero | hpos
      · rw [agentsFor_of_nonpos (.inl hzero.ge)] at hagents
        cases hagents
        rw [headcountFor_zero] at hy
        exact toHeadcountColumn_mono le_rfl (headcountFor_nonneg hn' _) hy hy'
      · have hmin : 0 < max ahtSeconds minAhtSeconds :=
          lt_max_of_lt_right (by norm_num [minAhtSeconds])
        have hmore : volume ≤ max (volume * overrides.volumeMultiplier) 0 :=
          (le_mul_of_one_le_right hnonneg hraises.1).trans (le_max_left _ _)
        have hlonger : max ahtSeconds minAhtSeconds ≤
            max (ahtSeconds + overrides.ahtDeltaSeconds) minAhtSeconds :=
          max_le_max (le_add_of_nonneg_right hraises.2.1) le_rfl
        have hn := agentsFor_pos hcontext hinterval hpos hmin hagents
        have hle := agentsFor_mono hcontext hinterval hpos hmin hmore hlonger hagents hagents'
        exact toHeadcountColumn_mono (headcountFor_nonneg hn.le _)
          (headcountFor_mono hn hle (clampShrinkage_nonneg _)
            (clampShrinkage_mono (le_add_of_nonneg_right hraises.2.2))
            (clampShrinkage_lt_one _)) hy hy'

end Points

/-! ## A scenario -/

section Scenario

variable {runs : List ForecastRun} {dataPoints : List StaffedPoint} {baseRun : ForecastRun}
  {context : StaffingContext} {overrides : AssumptionOverrides} {resultRunId : ℕ}
  {result : ForecastRun × List StaffedPoint}

theorem createStaffedScenario_eq_ok (hfind : runs.find? (·.id = baseRun.id) = some baseRun)
    (hpoints : basePoints dataPoints baseRun.id ≠ []) :
    createStaffedScenario runs dataPoints resultRunId baseRun.id overrides context = .ok result ↔
      result.1 = { baseRun with id := resultRunId, status := .completed } ∧
      Forall₂ (fun p q => adjustStaffedPoint resultRunId overrides context
        baseRun.intervalMinutes p = .ok q) (basePoints dataPoints baseRun.id) result.2 := by
  rw [createStaffedScenario, hfind]
  dsimp only
  rw [if_neg (by rwa [List.isEmpty_iff]), ← Tables.mapM_eq_ok_iff]
  obtain ⟨run, points⟩ := result
  split
  · rename_i error herror
    rw [herror]
    exact iff_of_false (fun h => by cases h) fun h => by cases h.2
  · rename_i points' hok
    rw [hok]
    constructor
    · intro h
      cases h
      exact ⟨rfl, rfl⟩
    · rintro ⟨rfl, h⟩
      cases h
      rfl

end Scenario

/-- One call in two seconds, half of which are to be answered at once. -/
def callContext : StaffingContext := ⟨⟨3 / 10, none⟩, ⟨1 / 2, 1, 1⟩⟩

def minuteRun : ForecastRun := ⟨1, 1, none, 0, 1, 1, .completed, false⟩

theorem callContext_valid : callContext.Valid := by
  constructor
  case fallbackAht =>
    intro ahtSeconds h
    cases h
  all_goals norm_num [callContext]

theorem agentsFor_sixty : agentsFor callContext 1 60 1 = .ok 2 := by
  have htarget : callContext.target.staffingTarget 1 = ⟨60, 1 / 2, 1, 1⟩ := by
    norm_num [ServiceLevelTargetConfig.staffingTarget, callContext]
  have hload : (((60 : ℚ) : ℝ) * ((1 : ℚ) : ℝ) / 60 : ℝ) = 2 * 1 / halfErlang.intervalSeconds := by
    norm_num [halfErlang]
  rw [agentsFor, htarget]
  refine requiredAgents_of_first (by norm_num) (by norm_num) ?_ (by decide) ?_
  · rw [hload, halfErlang_floor]
    rfl
  · rw [hload, Rat.cast_one]
    exact halfErlang_clears

/-- Sixty calls of a second each, none at all, and an unknown number. -/
def quietMinutes : List StaffedPoint :=
  [⟨⟨1, 0, some 60, some 1, some (3 / 10), some 50, some 70⟩, some (286 / 100)⟩,
    ⟨⟨1, 60, some 0, none, none, none, none⟩, none⟩,
    ⟨⟨1, 120, none, some 1, none, none, none⟩, none⟩]

theorem basePoints_quietMinutes : basePoints quietMinutes minuteRun.id = quietMinutes :=
  rfl

theorem forall_quietMinutes {P : StaffedPoint → Prop}
    (hcalls : P ⟨⟨1, 0, some 60, some 1, some (3 / 10), some 50, some 70⟩, some (286 / 100)⟩)
    (hnone : P ⟨⟨1, 60, some 0, none, none, none, none⟩, none⟩)
    (hunknown : P ⟨⟨1, 120, none, some 1, none, none, none⟩, none⟩) :
    ∀ p ∈ basePoints quietMinutes minuteRun.id, P p := by
  rw [basePoints_quietMinutes]
  exact forall_mem_cons.2 ⟨hcalls, forall_mem_cons.2 ⟨hnone, forall_mem_singleton.2 hunknown⟩⟩

/-- A call that takes no time is handled by nobody, in a scenario by someone. -/
def instantCall : List StaffedPoint :=
  [⟨⟨1, 0, some 1, some 0, none, none, none⟩, some 0⟩]

end Workforce.Forecasting
