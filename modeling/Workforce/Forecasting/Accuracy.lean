import Workforce.Forecasting.Promotion
import Workforce.Foundations.Limits
import Workforce.Scheduling.Types

/-!
# Accuracy of forecasts

`accuracy_service.py`: when actuals come in, each prediction that a completed run of the org unit
has for one of their intervals is scored, once (`logAccuracy`). `checkStaleness` recommends a
retraining from the age of the active model and from the ten most recent scores. The tables are
those of one tenant, and floating point numbers are rationals.

* `accuracyRows_filter`: the rows that are written for some of the runs depend on these runs only.
-/

namespace Workforce.Forecasting

open List

/-! ## Tables -/

inductive RunStatus
  | queued
  | completed
  deriving DecidableEq

/-- A row of `forecast_runs`. Dates are day numbers. -/
structure ForecastRun where
  id : ℕ
  orgUnitId : ℕ
  forecastModelId : Option ℕ
  dateRangeStart : ℤ
  dateRangeEnd : ℤ
  intervalMinutes : ℕ
  status : RunStatus
  isColdStart : Bool

/-- A row of `forecast_data_points`. Times are in microseconds. -/
structure ForecastDataPoint where
  forecastRunId : ℕ
  intervalStart : ℤ
  predictedVolume : Option ℚ
  predictedAhtSeconds : Option ℚ
  predictedShrinkagePct : Option ℚ
  confidenceLower : Option ℚ
  confidenceUpper : Option ℚ

structure ActualPoint where
  intervalStart : ℤ
  actualVolume : Option ℚ
  actualAhtSeconds : Option ℚ
  actualShrinkagePct : Option ℚ

/-- A row of `forecast_accuracy_log`. -/
structure AccuracyRow where
  forecastRunId : ℕ
  orgUnitId : ℕ
  actualVolume : ℚ
  predictedVolume : ℚ
  mape : Option ℚ
  bias : Option ℚ
  evaluatedAt : ℤ

/-- A model with its org unit and metric. -/
structure TrainedModel extends ForecastModel where
  orgUnitId : ℕ
  targetMetric : String
  trainedAt : Option ℤ
  deriving DecidableEq

/-- A value that may be missing, as its column holds it. -/
def toNumeric? (precision scale : ℕ) : Option ℚ → Option (Option ℚ)
  | none => some none
  | some x => (toNumeric precision scale x).map some

/-- Python's `round`: to so many decimals, the even one of two. -/
def round (value : ℚ) (decimals : ℕ) : ℚ :=
  Scheduling.roundHalfEven (value * 10 ^ decimals) / 10 ^ decimals

/-! ## Scores -/

/-- `None` when `actual == 0`. -/
def intervalMape (actual predicted : ℚ) : Option ℚ :=
  if actual = 0 then none else some (|actual - predicted| / |actual| * 100)

/-- Positive for a prediction that is too high. -/
def intervalBias (actual predicted : ℚ) : Option ℚ :=
  if actual = 0 then none else some ((predicted - actual) / actual * 100)

/-- `actual_by_interval`: the last volume that is known for an interval. -/
def actualByInterval (points : List ActualPoint) (interval : ℤ) : Option ℚ :=
  points.reverse.findSome? fun p => if p.intervalStart = interval then p.actualVolume else none

/-- A prediction of a completed run of the org unit. -/
structure Candidate where
  forecastRunId : ℕ
  intervalStart : ℤ
  predictedVolume : ℚ

def Candidate.key (c : Candidate) : ℕ × ℤ := (c.forecastRunId, c.intervalStart)

def ForecastDataPoint.candidate? (point : ForecastDataPoint) : Option Candidate :=
  point.predictedVolume.map fun predictedVolume =>
    ⟨point.forecastRunId, point.intervalStart, predictedVolume⟩

/-- The query for the candidates at the intervals of new actuals. -/
def candidates (runs : List ForecastRun) (dataPoints : List ForecastDataPoint) (orgUnitId : ℕ)
    (points : List ActualPoint) : List Candidate :=
  (dataPoints.filter fun d => (actualByInterval points d.intervalStart).isSome ∧
    ∃ r ∈ runs, r.id = d.forecastRunId ∧ r.orgUnitId = orgUnitId ∧
      r.status = .completed).filterMap ForecastDataPoint.candidate?

def accuracyRow (orgUnitId : ℕ) (actual : ℚ) (candidate : Candidate) : AccuracyRow where
  forecastRunId := candidate.forecastRunId
  orgUnitId := orgUnitId
  actualVolume := actual
  predictedVolume := candidate.predictedVolume
  mape := (intervalMape actual candidate.predictedVolume).map (round · 6)
  bias := (intervalBias actual candidate.predictedVolume).map (round · 6)
  evaluatedAt := candidate.intervalStart

def AccuracyRow.key (row : AccuracyRow) : ℕ × ℤ := (row.forecastRunId, row.evaluatedAt)

/-- The loop over the candidates, with the keys that are already scored. -/
def accuracyRows (orgUnitId : ℕ) (points : List ActualPoint) :
    List (ℕ × ℤ) → List Candidate → List AccuracyRow
  | _, [] => []
  | alreadyScoredKeys, candidate :: rest =>
    if candidate.key ∈ alreadyScoredKeys then
      accuracyRows orgUnitId points alreadyScoredKeys rest
    else
      match actualByInterval points candidate.intervalStart with
      | none => accuracyRows orgUnitId points alreadyScoredKeys rest
      | some actual => accuracyRow orgUnitId actual candidate ::
          accuracyRows orgUnitId points (candidate.key :: alreadyScoredKeys) rest

/-- A row as its columns hold it. -/
def AccuracyRow.toColumns (row : AccuracyRow) : Option AccuracyRow := do
  let actualVolume ← toNumeric 14 4 row.actualVolume
  let predictedVolume ← toNumeric 14 4 row.predictedVolume
  let mape ← toNumeric? 10 6 row.mape
  let bias ← toNumeric? 10 6 row.bias
  return { row with actualVolume, predictedVolume, mape, bias }

def ActualPoint.toColumns (point : ActualPoint) : Option ActualPoint := do
  let actualVolume ← toNumeric? 14 4 point.actualVolume
  let actualAhtSeconds ← toNumeric? 10 2 point.actualAhtSeconds
  let actualShrinkagePct ← toNumeric? 6 4 point.actualShrinkagePct
  return { point with actualVolume, actualAhtSeconds, actualShrinkagePct }

/-- `_MAX_ROWS_PER_STATEMENT`. -/
def maxRowsPerStatement : ℕ := 2000

/-- A statement of the upsert fails when it has two rows for an interval. -/
def DistinctInStatements (points : List ActualPoint) : Prop :=
  points.zipIdx.Pairwise fun p q =>
    p.2 / maxRowsPerStatement = q.2 / maxRowsPerStatement → p.1.intervalStart ≠ q.1.intervalStart
  deriving Decidable

/-! ## Staleness -/

/-- `AGE_STALE_THRESHOLD_HOURS`. -/
def ageStaleThresholdHours : ℚ := 48

/-- `ACCURACY_DEGRADED_MIN_SAMPLES`. -/
def accuracyDegradedMinSamples : ℕ := 10

/-- `ACCURACY_DEGRADED_RELATIVE_MARGIN`. -/
def accuracyDegradedRelativeMargin : ℚ := 50 / 100

/-- The part of a result that is about the model. -/
structure ModelStaleness where
  hasActiveModel : Bool
  activeModelId : Option ℕ
  trainedAt : Option ℤ
  ageHours : Option ℚ
  ageStale : Option Bool
  backtestMape : Option ℚ

structure StalenessResult extends ModelStaleness where
  recentAvgMape : Option ℚ
  sampleSize : ℕ
  accuracyDegraded : Option Bool
  insufficientAccuracyData : Bool
  retrainRecommended : Bool

def microsPerHour : ℚ := 3600000000

/-- `check_staleness`, for the active model and the most recent rows that the queries return. -/
def checkStaleness (activeModel : Option TrainedModel) (asOf : ℤ) (recentLogs : List AccuracyRow) :
    StalenessResult :=
  match activeModel, activeModel.bind (·.trainedAt) with
  | some activeModel, some trainedAt =>
    let ageHours : ℚ := (asOf - trainedAt) / microsPerHour
    let ageStale := decide (ageStaleThresholdHours < ageHours)
    let recentMapeValues := recentLogs.filterMap (·.mape)
    let sampleSize := recentMapeValues.length
    let insufficientAccuracyData := decide (sampleSize < accuracyDegradedMinSamples)
    let recentAvgMape := if sampleSize = 0 then none else some (recentMapeValues.sum / sampleSize)
    let accuracyDegraded := match activeModel.backtestMape, recentAvgMape with
      | some backtestMape, some recentAvgMape =>
        if insufficientAccuracyData then none
        else some (decide (backtestMape * (1 + accuracyDegradedRelativeMargin) < recentAvgMape))
      | _, _ => none
    { hasActiveModel := true
      activeModelId := some activeModel.id
      trainedAt := some trainedAt
      ageHours := some ageHours
      ageStale := some ageStale
      backtestMape := activeModel.backtestMape
      recentAvgMape, sampleSize, accuracyDegraded, insufficientAccuracyData
      retrainRecommended := ageStale || accuracyDegraded.getD false }
  | _, _ =>
    { hasActiveModel := activeModel.isSome
      activeModelId := activeModel.map (·.id)
      trainedAt := none
      ageHours := none
      ageStale := none
      backtestMape := none
      recentAvgMape := none
      sampleSize := 0
      accuracyDegraded := none
      insufficientAccuracyData := true
      retrainRecommended := false }

/-- Of several active models the query returns any. -/
def ReadsActive (models : List TrainedModel) (orgUnitId : ℕ) (targetMetric : String)
    (activeModel : Option TrainedModel) : Prop :=
  let active := models.filter fun m =>
    m.orgUnitId = orgUnitId ∧ m.targetMetric = targetMetric ∧ m.status = .active
  match activeModel with
  | none => active = []
  | some m => m ∈ active

/-- The rows that the query for the most recent scores chooses from. -/
def scoredLogs (logs : List AccuracyRow) (orgUnitId : ℕ) : List AccuracyRow :=
  logs.filter fun row => row.orgUnitId = orgUnitId ∧ row.mape.isSome

/-- `ORDER BY evaluated_at DESC`. -/
def NoOlder (a b : AccuracyRow) : Prop := b.evaluatedAt ≤ a.evaluatedAt
  deriving Decidable

/-- The answers of `check_staleness` on the tables. -/
def Staleness (models : List TrainedModel) (logs : List AccuracyRow) (orgUnitId : ℕ)
    (targetMetric : String) (asOf : ℤ) (result : StalenessResult) : Prop :=
  ∃ activeModel recentLogs, ReadsActive models orgUnitId targetMetric activeModel ∧
    Tables.Limit NoOlder accuracyDegradedMinSamples (scoredLogs logs orgUnitId) recentLogs ∧
    result = checkStaleness activeModel asOf recentLogs

/-! ## Some of the runs -/

section Filter

variable {orgUnitId : ℕ} {points : List ActualPoint} (p : ℕ → Bool)

/-- The candidates of some runs are those that the rows of these runs give. -/
theorem candidates_filter (runs : List ForecastRun) (dataPoints : List ForecastDataPoint) :
    (candidates runs dataPoints orgUnitId points).filter (fun c => p c.forecastRunId) =
      candidates (runs.filter fun r => p r.id) (dataPoints.filter fun d => p d.forecastRunId)
        orgUnitId points := by
  have hrun : ∀ c d, ForecastDataPoint.candidate? d = some c →
      c.forecastRunId = d.forecastRunId := by
    intro c d h
    obtain ⟨predictedVolume, -, rfl⟩ := Option.map_eq_some_iff.1 h
    rfl
  have hcommute : ∀ dataPoints : List ForecastDataPoint,
      (dataPoints.filterMap ForecastDataPoint.candidate?).filter (fun c => p c.forecastRunId) =
        (dataPoints.filter fun d => p d.forecastRunId).filterMap
          ForecastDataPoint.candidate? := by
    intro dataPoints
    rw [filter_filterMap, filterMap_filter]
    refine filterMap_congr fun d _ => ?_
    cases hd : d.candidate? with
    | none => simp
    | some c => simp [Option.filter, hrun c d hd]
  rw [candidates, hcommute, candidates, filter_filter, filter_filter]
  refine congrArg _ (filter_congr fun d _ => ?_)
  cases hp : p d.forecastRunId with
  | false => simp
  | true =>
    simp only [Bool.true_and, Bool.and_true, decide_eq_decide, mem_filter]
    refine and_congr_right fun _ => exists_congr fun r => ⟨?_, ?_⟩
    · rintro ⟨hr, hid, hrest⟩
      exact ⟨⟨hr, hid ▸ hp⟩, hid, hrest⟩
    · rintro ⟨⟨hr, -⟩, hrest⟩
      exact ⟨hr, hrest⟩

/-- The rows for some of the runs depend on their candidates and their keys only. -/
theorem accuracyRows_filter (candidates : List Candidate) (keys keys' : List (ℕ × ℤ))
    (hkeys : ∀ key, p key.1 = true → (key ∈ keys ↔ key ∈ keys')) :
    (accuracyRows orgUnitId points keys candidates).filter (fun row => p row.forecastRunId) =
      accuracyRows orgUnitId points keys' (candidates.filter fun c => p c.forecastRunId) := by
  induction candidates generalizing keys keys' with
  | nil => rfl
  | cons c rest ih =>
    cases hp : p c.forecastRunId with
    | true =>
      have hkey : c.key ∈ keys ↔ c.key ∈ keys' := hkeys c.key hp
      have hcons : ∀ key, p key.1 = true → (key ∈ c.key :: keys ↔ key ∈ c.key :: keys') :=
        fun key hpkey => by rw [mem_cons, mem_cons, hkeys key hpkey]
      rw [filter_cons, if_pos hp, accuracyRows, accuracyRows]
      by_cases hmem : c.key ∈ keys
      · rw [if_pos hmem, if_pos (hkey.1 hmem)]
        exact ih keys keys' hkeys
      · rw [if_neg hmem, if_neg fun h => hmem (hkey.2 h)]
        cases actualByInterval points c.intervalStart with
        | none => exact ih keys keys' hkeys
        | some actual =>
          have hrow : p (accuracyRow orgUnitId actual c).forecastRunId = true := hp
          simp only
          rw [filter_cons, if_pos hrow, ih _ _ hcons]
    | false =>
      have hno : ¬ p c.forecastRunId = true := by simp [hp]
      have hcons : ∀ key, p key.1 = true → (key ∈ c.key :: keys ↔ key ∈ keys') := by
        intro key hpkey
        rw [mem_cons, ← hkeys key hpkey]
        refine or_iff_right ?_
        rintro rfl
        exact hno hpkey
      rw [filter_cons, if_neg hno, accuracyRows]
      split
      · exact ih keys keys' hkeys
      · cases actualByInterval points c.intervalStart with
        | none => exact ih keys keys' hkeys
        | some actual =>
          have hrow : ¬ p (accuracyRow orgUnitId actual c).forecastRunId = true := hno
          simp only
          rw [filter_cons, if_neg hrow]
          exact ih _ _ hcons

theorem exists_run_of_mem_candidates {runs : List ForecastRun}
    {dataPoints : List ForecastDataPoint} {c : Candidate}
    (h : c ∈ candidates runs dataPoints orgUnitId points) :
    c.forecastRunId ∈ runs.map (·.id) := by
  obtain ⟨d, hd, hc⟩ := mem_filterMap.1 h
  obtain ⟨-, htest⟩ := mem_filter.1 hd
  obtain ⟨-, run, hrun, hid, -⟩ := of_decide_eq_true htest
  obtain ⟨predictedVolume, -, rfl⟩ := Option.map_eq_some_iff.1 hc
  exact mem_map.2 ⟨run, hrun, hid⟩

theorem exists_candidate_of_mem_accuracyRows {keys : List (ℕ × ℤ)} {candidates : List Candidate}
    {row : AccuracyRow} (h : row ∈ accuracyRows orgUnitId points keys candidates) :
    ∃ c ∈ candidates, row.forecastRunId = c.forecastRunId := by
  induction candidates generalizing keys with
  | nil => cases h
  | cons c rest ih =>
    have hrest : ∀ keys, row ∈ accuracyRows orgUnitId points keys rest →
        ∃ c' ∈ c :: rest, row.forecastRunId = c'.forecastRunId := by
      intro keys hrow
      obtain ⟨c', hc', heq⟩ := ih hrow
      exact ⟨c', mem_cons_of_mem _ hc', heq⟩
    rw [accuracyRows] at h
    split at h
    · exact hrest _ h
    · split at h
      · exact hrest _ h
      · rcases mem_cons.1 h with rfl | h
        · exact ⟨c, mem_cons_self, rfl⟩
        · exact hrest _ h

theorem AccuracyRow.toColumns_run {row row' : AccuracyRow} (h : row.toColumns = some row') :
    row'.forecastRunId = row.forecastRunId := by
  simp only [toColumns, Option.bind_eq_bind, Option.bind_eq_some_iff, Option.pure_def,
    Option.some.injEq] at h
  obtain ⟨-, -, -, -, -, -, -, -, rfl⟩ := h
  rfl

theorem mapM_toColumns_filter {rows rows' : List AccuracyRow}
    (h : rows.mapM AccuracyRow.toColumns = some rows') :
    (rows.filter fun row => p row.forecastRunId).mapM AccuracyRow.toColumns =
      some (rows'.filter fun row => p row.forecastRunId) := by
  induction rows generalizing rows' with
  | nil =>
    cases h
    rfl
  | cons row rows ih =>
    simp only [mapM_cons, Option.bind_eq_bind, Option.bind_eq_some_iff, Option.pure_def,
      Option.some.injEq] at h
    obtain ⟨first, hfirst, rest, hrest, rfl⟩ := h
    have hrun := AccuracyRow.toColumns_run hfirst
    cases hp : p row.forecastRunId with
    | true =>
      rw [filter_cons, if_pos hp, filter_cons, if_pos (hrun ▸ hp), mapM_cons, hfirst, ih hrest]
      rfl
    | false =>
      rw [filter_cons, if_neg (by simp [hp]), filter_cons, if_neg (by simp [hrun, hp])]
      exact ih hrest

end Filter

/-! ## What a result is about -/

section Staleness

variable {models : List TrainedModel} {logs : List AccuracyRow} {orgUnitId : ℕ}
  {targetMetric : String} {asOf : ℤ}

theorem checkStaleness_model (activeModel : Option TrainedModel) (asOf : ℤ)
    (recentLogs recentLogs' : List AccuracyRow) :
    (checkStaleness activeModel asOf recentLogs).toModelStaleness =
      (checkStaleness activeModel asOf recentLogs').toModelStaleness := by
  unfold checkStaleness
  split <;> rfl

instance : Std.Total NoOlder := ⟨fun a b => le_total b.evaluatedAt a.evaluatedAt⟩

instance : IsTrans AccuracyRow NoOlder := ⟨fun _ _ _ hab hbc => le_trans hbc hab⟩

/-- With fewer than ten scores a retraining is recommended for the age of the model only. -/
theorem checkStaleness_of_length_lt {activeModel : Option TrainedModel}
    {recentLogs : List AccuracyRow} (h : recentLogs.length < accuracyDegradedMinSamples) :
    (checkStaleness activeModel asOf recentLogs).retrainRecommended =
      (checkStaleness activeModel asOf recentLogs).ageStale.getD false := by
  have hsamples : (recentLogs.filterMap (·.mape)).length < accuracyDegradedMinSamples :=
    lt_of_le_of_lt (length_filterMap_le _ _) h
  unfold checkStaleness
  split
  · simp only [hsamples, decide_true, if_true, Option.getD_some]
    split <;> simp
  · rfl

/-- On any rows there is an answer that says the same about the model. -/
theorem Staleness.exists_model {result : StalenessResult}
    (h : Staleness models logs orgUnitId targetMetric asOf result) (logs' : List AccuracyRow) :
    ∃ result', Staleness models logs' orgUnitId targetMetric asOf result' ∧
      result'.toModelStaleness = result.toModelStaleness := by
  obtain ⟨activeModel, recentLogs, hactive, -, rfl⟩ := h
  obtain ⟨recentLogs', hrecent'⟩ : ∃ recentLogs', Tables.Limit NoOlder accuracyDegradedMinSamples
      (scoredLogs logs' orgUnitId) recentLogs' := Tables.exists_limit _ _
  exact ⟨_, ⟨activeModel, recentLogs', hactive, hrecent', rfl⟩, checkStaleness_model ..⟩

/-- Each row of a run that does not count is older than ten scores of runs that do. -/
def OutOfReach (p : ℕ → Bool) (logs : List AccuracyRow) (orgUnitId : ℕ) : Prop :=
  ∀ row ∈ scoredLogs logs orgUnitId, p row.forecastRunId = false →
    accuracyDegradedMinSamples ≤
      ((scoredLogs logs orgUnitId).filter fun other => p other.forecastRunId).countP
        fun other => row.evaluatedAt < other.evaluatedAt

theorem scoredLogs_filter (p : ℕ → Bool) (logs : List AccuracyRow) (orgUnitId : ℕ) :
    scoredLogs (logs.filter fun row => p row.forecastRunId) orgUnitId =
      (scoredLogs logs orgUnitId).filter fun row => p row.forecastRunId := by
  rw [scoredLogs, scoredLogs, filter_filter, filter_filter]
  exact filter_congr fun row _ => Bool.and_comm ..

/-- Rows that are too old to be read do not change the answers. -/
theorem staleness_filter_iff {p : ℕ → Bool} (hreach : OutOfReach p logs orgUnitId)
    (result : StalenessResult) :
    Staleness models logs orgUnitId targetMetric asOf result ↔
      Staleness models (logs.filter fun row => p row.forecastRunId) orgUnitId targetMetric asOf
        result := by
  have hreach' : ∀ row ∈ scoredLogs logs orgUnitId, p row.forecastRunId = false →
      accuracyDegradedMinSamples ≤ ((scoredLogs logs orgUnitId).filter fun other =>
        p other.forecastRunId).countP fun other => ¬ NoOlder row other := by
    simpa only [OutOfReach, NoOlder, not_le] using hreach
  rw [Staleness, Staleness, scoredLogs_filter]
  constructor
  · rintro ⟨activeModel, recentLogs, hactive, hrecent, rfl⟩
    exact ⟨activeModel, recentLogs, hactive, hrecent.filter (hrecent.forall_of_reach hreach'), rfl⟩
  · rintro ⟨activeModel, recentLogs, hactive, hrecent, rfl⟩
    exact ⟨activeModel, recentLogs, hactive, hrecent.of_filter hreach', rfl⟩

end Staleness

end Workforce.Forecasting
