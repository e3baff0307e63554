import Workforce.Forecasting.Accuracy
import Workforce.Foundations.Interference

/-!
# What-if scenarios

`scenario_service.py`: a scenario takes the predictions of a run, adjusts them, and stores them as
those of a new run, which is completed like any other. What scores the predictions of completed
runs scores these as well.

* `forecastingStep`: jobs, scenarios, retrainings, and ingestions of actuals, whose statements may
  be separated by other requests.
* `ForecastingState.live`: the tables without what belongs to the results of scenarios.
* `scenarios_leave_live`: without its scenarios a run leads to these tables.
-/

namespace Workforce.Forecasting

open Runs List Function

/-! ## Scenarios -/

structure AssumptionOverrides where
  volumeMultiplier : ℚ
  ahtDeltaSeconds : ℚ
  shrinkageDeltaPct : ℚ

structure AdjustedValues where
  volume : Option ℚ
  ahtSeconds : Option ℚ
  shrinkagePct : Option ℚ

/-- `_MIN_AHT_SECONDS`. -/
def minAhtSeconds : ℚ := 1 / 100

/-- `_MAX_SHRINKAGE`. -/
def maxShrinkage : ℚ := 99 / 100

def applyOverrides (volume ahtSeconds shrinkagePct : Option ℚ) (overrides : AssumptionOverrides) :
    AdjustedValues where
  volume := volume.map fun volume => max (volume * overrides.volumeMultiplier) 0
  ahtSeconds := ahtSeconds.map fun ahtSeconds =>
    max (ahtSeconds + overrides.ahtDeltaSeconds) minAhtSeconds
  shrinkagePct := shrinkagePct.map fun shrinkagePct =>
    min (max (shrinkagePct + overrides.shrinkageDeltaPct) 0) maxShrinkage

/-- The fallbacks of `build_headcount_context`. -/
structure HeadcountContext where
  fallbackShrinkage : ℚ
  fallbackAhtSeconds : Option ℚ

/-- The point of the result for a point of the base run. -/
def adjustPoint (resultRunId : ℕ) (overrides : AssumptionOverrides) (context : HeadcountContext)
    (basePoint : ForecastDataPoint) : Option ForecastDataPoint := do
  let effectiveAht := basePoint.predictedAhtSeconds.or context.fallbackAhtSeconds
  let effectiveShrinkage := basePoint.predictedShrinkagePct.getD context.fallbackShrinkage
  let adjusted :=
    applyOverrides basePoint.predictedVolume effectiveAht (some effectiveShrinkage) overrides
  let adjustedLower := basePoint.confidenceLower.map (· * overrides.volumeMultiplier)
  let adjustedUpper := basePoint.confidenceUpper.map (· * overrides.volumeMultiplier)
  let predictedVolume ← toNumeric? 14 4 (adjusted.volume.map (round · 4))
  let predictedAhtSeconds ← toNumeric? 10 2 (adjusted.ahtSeconds.map (round · 4))
  let predictedShrinkagePct ← toNumeric? 6 4 (adjusted.shrinkagePct.map (round · 4))
  let confidenceLower ← toNumeric? 14 4 (adjustedLower.map (round · 4))
  let confidenceUpper ← toNumeric? 14 4 (adjustedUpper.map (round · 4))
  return { forecastRunId := resultRunId, intervalStart := basePoint.intervalStart, predictedVolume,
           predictedAhtSeconds, predictedShrinkagePct, confidenceLower, confidenceUpper }

inductive ScenarioError
  | baseRunNotFound (baseForecastRunId : ℕ)
  | baseRunEmpty (baseForecastRunId : ℕ)
  /-- An adjusted value does not fit its column. -/
  | numericFieldOverflow

/-- `create_scenario`: the run and the points that it stores. -/
def createScenario (runs : List ForecastRun) (dataPoints : List ForecastDataPoint)
    (resultRunId baseForecastRunId : ℕ) (overrides : AssumptionOverrides)
    (context : HeadcountContext) :
    Except ScenarioError (ForecastRun × List ForecastDataPoint) :=
  match runs.find? (·.id = baseForecastRunId) with
  | none => .error (.baseRunNotFound baseForecastRunId)
  | some baseRun =>
    let basePoints := (dataPoints.filter (·.forecastRunId = baseForecastRunId)).insertionSort
      (·.intervalStart ≤ ·.intervalStart)
    if basePoints.isEmpty then .error (.baseRunEmpty baseForecastRunId)
    else
      match basePoints.mapM (adjustPoint resultRunId overrides context) with
      | none => .error .numericFieldOverflow
      | some points => .ok ({ baseRun with id := resultRunId, status := .completed }, points)

/-- A row of `scenario_simulations`. -/
structure ScenarioSimulation where
  baseForecastRunId : ℕ
  assumptionOverrides : AssumptionOverrides
  resultForecastRunId : ℕ

/-! ## Requests that overlap -/

/-- An ingestion of actuals between its statements. -/
inductive Ingestion
  | selected (orgUnitId : ℕ) (points : List ActualPoint) (candidates : List Candidate)
  | scored (orgUnitId : ℕ) (points : List ActualPoint) (rows : List AccuracyRow)

structure ForecastingState where
  runs : List ForecastRun
  dataPoints : List ForecastDataPoint
  scenarios : List ScenarioSimulation
  /-- `historical_actuals`, by org unit and interval. -/
  actuals : ℕ → ℤ → Option ActualPoint
  logs : List AccuracyRow
  models : List TrainedModel
  ingestions : ℕ → Option Ingestion

def ForecastingState.empty : ForecastingState :=
  ⟨[], [], [], fun _ _ => none, [], [], fun _ => none⟩

inductive ForecastingStep
  /-- `create_job`: a run with what it predicts, if it is fulfilled at once. -/
  | job (run : ForecastRun) (points : List ForecastDataPoint)
  /-- A retraining leaves other models. -/
  | retrain (models : List TrainedModel)
  | scenario (resultRunId baseForecastRunId : ℕ) (overrides : AssumptionOverrides)
      (context : HeadcountContext)
  /-- `ingest_actuals`, up to the query for the candidates. -/
  | select (q orgUnitId : ℕ) (points : List ActualPoint)
  /-- The query for what is already scored; with no candidates there is nothing to look up. -/
  | score (q : ℕ)
  /-- The new rows are written, and with the actuals they become visible. -/
  | commit (q : ℕ)

/-- The upsert into `historical_actuals`. -/
def upsertActuals (orgUnitId : ℕ) (points : List ActualPoint)
    (actuals : ℕ → ℤ → Option ActualPoint) : ℕ → ℤ → Option ActualPoint :=
  update actuals orgUnitId
    (points.foldl (fun row p => update row p.intervalStart (some p)) (actuals orgUnitId))

def forecastingStep (s : ForecastingState) : ForecastingStep → Option ForecastingState
  | .job run points =>
    if run.id ∉ s.runs.map (·.id) ∧ ∀ d ∈ points, d.forecastRunId = run.id then
      some { s with runs := s.runs ++ [run], dataPoints := s.dataPoints ++ points }
    else none
  | .retrain models => some { s with models }
  | .scenario resultRunId baseForecastRunId overrides context =>
    if resultRunId ∉ s.runs.map (·.id) then
      match createScenario s.runs s.dataPoints resultRunId baseForecastRunId overrides context with
      | .error _ => none
      | .ok (resultRun, points) =>
        some { s with
          runs := s.runs ++ [resultRun]
          dataPoints := s.dataPoints ++ points
          scenarios := s.scenarios ++ [⟨baseForecastRunId, overrides, resultRunId⟩] }
    else none
  | .select q orgUnitId points =>
    if (s.ingestions q).isNone ∧ points ≠ [] ∧ DistinctInStatements points then
      some { s with ingestions := update s.ingestions q (some (.selected orgUnitId points
        (candidates s.runs s.dataPoints orgUnitId points))) }
    else none
  | .score q =>
    match s.ingestions q with
    | some (.selected orgUnitId points candidates) =>
      some { s with ingestions := update s.ingestions q (some (.scored orgUnitId points
        (accuracyRows orgUnitId points (s.logs.map (·.key)) candidates))) }
    | _ => none
  | .commit q =>
    match s.ingestions q with
    | some (.scored orgUnitId points rows) =>
      -- a value that does not fit its column makes the request fail as a whole
      match points.mapM ActualPoint.toColumns, rows.mapM AccuracyRow.toColumns with
      | some points, some rows =>
        some { s with
          actuals := upsertActuals orgUnitId points s.actuals
          logs := s.logs ++ rows
          ingestions := update s.ingestions q none }
      | _, _ => none
    | _ => none

def isScenario : ForecastingStep → Bool
  | .scenario .. => true
  | _ => false

/-! ## The tables of live runs -/

/-- The runs that are results of scenarios. -/
def ForecastingState.results (s : ForecastingState) : List ℕ :=
  s.scenarios.map (·.resultForecastRunId)

def Ingestion.only (p : ℕ → Bool) : Ingestion → Ingestion
  | .selected orgUnitId points candidates =>
    .selected orgUnitId points (candidates.filter fun c => p c.forecastRunId)
  | .scored orgUnitId points rows =>
    .scored orgUnitId points (rows.filter fun row => p row.forecastRunId)

/-- The tables with what belongs to some runs only. -/
def ForecastingState.only (p : ℕ → Bool) (s : ForecastingState) : ForecastingState where
  runs := s.runs.filter fun r => p r.id
  dataPoints := s.dataPoints.filter fun d => p d.forecastRunId
  scenarios := s.scenarios.filter fun x => p x.resultForecastRunId
  actuals := s.actuals
  logs := s.logs.filter fun row => p row.forecastRunId
  models := s.models
  ingestions q := (s.ingestions q).map (Ingestion.only p)

def ForecastingState.isLive (s : ForecastingState) (runId : ℕ) : Bool := runId ∉ s.results

def ForecastingState.live (s : ForecastingState) : ForecastingState := s.only s.isLive

/-- The runs whose rows an ingestion holds. -/
def Ingestion.runIds : Ingestion → List ℕ
  | .selected _ _ candidates => candidates.map (·.forecastRunId)
  | .scored _ _ rows => rows.map (·.forecastRunId)

/-- The foreign keys. -/
structure References (s : ForecastingState) : Prop where
  dataPoints : ∀ d ∈ s.dataPoints, d.forecastRunId ∈ s.runs.map (·.id)
  scenarios : ∀ runId ∈ s.results, runId ∈ s.runs.map (·.id)
  logs : ∀ row ∈ s.logs, row.forecastRunId ∈ s.runs.map (·.id)
  ingestions : ∀ q, ∀ i ∈ s.ingestions q, ∀ runId ∈ i.runIds, runId ∈ s.runs.map (·.id)

section Steps

variable {s t : ForecastingState}

theorem createScenario_ok {resultRunId baseForecastRunId : ℕ} {overrides : AssumptionOverrides}
    {context : HeadcountContext} {run : ForecastRun} {points : List ForecastDataPoint}
    (h : createScenario s.runs s.dataPoints resultRunId baseForecastRunId overrides context =
      .ok (run, points)) :
    run.id = resultRunId ∧ ∀ d ∈ points, d.forecastRunId = resultRunId := by
  have hadjust : ∀ basePoint point, adjustPoint resultRunId overrides context basePoint =
      some point → point.forecastRunId = resultRunId := by
    intro basePoint point hpoint
    simp only [adjustPoint, Option.bind_eq_bind, Option.bind_eq_some_iff, Option.pure_def,
      Option.some.injEq] at hpoint
    obtain ⟨-, -, -, -, -, -, -, -, -, -, rfl⟩ := hpoint
    rfl
  simp only [createScenario] at h
  split at h
  · cases h
  · split at h
    · cases h
    · split at h
      · cases h
      · rename_i points' hpoints
        cases h
        refine ⟨rfl, fun d hd => ?_⟩
        obtain ⟨basePoint, -, hd⟩ := Tables.exists_of_mem_mapM hpoints hd
        exact hadjust basePoint d hd

/-- What an ingestion holds is of runs that are there, also when it is the last one written. -/
theorem References.update_ingestions (h : References s) {q : ℕ} {ingestion : Option Ingestion}
    (hnew : ∀ i ∈ ingestion, ∀ runId ∈ i.runIds, runId ∈ s.runs.map (·.id)) :
    ∀ q', ∀ i ∈ update s.ingestions q ingestion q', ∀ runId ∈ i.runIds,
      runId ∈ s.runs.map (·.id) := by
  intro q' i hi
  by_cases hq : q' = q
  · subst hq
    rw [update_self] at hi
    exact hnew i hi
  · rw [update_of_ne hq] at hi
    exact h.ingestions q' i hi

theorem References.add_run (h : References s) {run : ForecastRun}
    {points : List ForecastDataPoint} {scenarios : List ScenarioSimulation}
    (hpoints : ∀ d ∈ points, d.forecastRunId = run.id)
    (hscenarios : ∀ x ∈ scenarios, x.resultForecastRunId = run.id) :
    References { s with
      runs := s.runs ++ [run]
      dataPoints := s.dataPoints ++ points
      scenarios := s.scenarios ++ scenarios } := by
  have hold : ∀ runId ∈ s.runs.map (·.id), runId ∈ (s.runs ++ [run]).map (·.id) := by
    intro runId hrun
    rw [map_append]
    exact mem_append_left _ hrun
  have hself : run.id ∈ (s.runs ++ [run]).map (·.id) := by simp
  refine ⟨fun d hd => ?_, fun runId hrun => ?_, fun row hrow => hold _ (h.logs row hrow),
    fun q i hi runId hrun => hold _ (h.ingestions q i hi runId hrun)⟩
  · rcases mem_append.1 hd with hd | hd
    · exact hold _ (h.dataPoints d hd)
    · exact hpoints d hd ▸ hself
  · simp only [ForecastingState.results, map_append, mem_append, mem_map] at hrun
    rcases hrun with ⟨x, hx, rfl⟩ | ⟨x, hx, rfl⟩
    · exact hold _ (h.scenarios _ (mem_map_of_mem hx))
    · exact hscenarios x hx ▸ hself

variable {step : ForecastingStep}

theorem forecastingStep_references (h : References s) (hstep : forecastingStep s step = some t) :
    References t := by
  cases step with
  | job run points =>
    simp only [forecastingStep] at hstep
    split at hstep
    · rename_i hok
      cases hstep
      have hadd : References { s with
          runs := s.runs ++ [run]
          dataPoints := s.dataPoints ++ points
          scenarios := s.scenarios ++ [] } :=
        h.add_run hok.2 nofun
      rwa [append_nil] at hadd
    · cases hstep
  | retrain models =>
    cases hstep
    exact ⟨h.dataPoints, h.scenarios, h.logs, h.ingestions⟩
  | scenario resultRunId baseForecastRunId overrides context =>
    simp only [forecastingStep] at hstep
    split at hstep
    · split at hstep
      · cases hstep
      · rename_i run points hcreate
        cases hstep
        obtain ⟨rfl, hpoints⟩ := createScenario_ok hcreate
        exact h.add_run hpoints fun x hx => by rw [mem_singleton.1 hx]
    · cases hstep
  | select q orgUnitId points =>
    simp only [forecastingStep] at hstep
    split at hstep
    · cases hstep
      refine ⟨h.dataPoints, h.scenarios, h.logs, h.update_ingestions fun i hi runId hrun => ?_⟩
      cases hi
      obtain ⟨c, hc, rfl⟩ := mem_map.1 hrun
      exact exists_run_of_mem_candidates hc
    · cases hstep
  | score q =>
    simp only [forecastingStep] at hstep
    split at hstep
    · rename_i orgUnitId points candidates hq
      cases hstep
      refine ⟨h.dataPoints, h.scenarios, h.logs, h.update_ingestions fun i hi runId hrun => ?_⟩
      cases hi
      obtain ⟨row, hrow, rfl⟩ := mem_map.1 hrun
      obtain ⟨c, hc, heq⟩ := exists_candidate_of_mem_accuracyRows hrow
      exact heq ▸ h.ingestions q _ hq _ (mem_map_of_mem hc)
    · cases hstep
  | commit q =>
    simp only [forecastingStep] at hstep
    split at hstep
    · rename_i orgUnitId points rows hq
      split at hstep
      · rename_i points' rows' hpoints hrows
        cases hstep
        refine ⟨h.dataPoints, h.scenarios, fun row hrow => ?_,
          h.update_ingestions fun _ hi => absurd hi (Option.not_mem_none _)⟩
        rcases mem_append.1 hrow with hrow | hrow
        · exact h.logs row hrow
        · obtain ⟨row', hrow', hcolumns⟩ := Tables.exists_of_mem_mapM hrows hrow
          rw [AccuracyRow.toColumns_run hcolumns]
          exact h.ingestions q _ hq _ (mem_map_of_mem hrow')
      · cases hstep
    · cases hstep

/-- Tables restricted to some runs agree when these runs are the same among those there are. -/
theorem References.only_congr (h : References s) {p p' : ℕ → Bool}
    (hp : ∀ runId ∈ s.runs.map (·.id), p runId = p' runId) : s.only p = s.only p' := by
  have hingestion : ∀ q, (s.ingestions q).map (Ingestion.only p) =
      (s.ingestions q).map (Ingestion.only p') := by
    intro q
    cases hq : s.ingestions q with
    | none => rfl
    | some i =>
      have hids := h.ingestions q i hq
      cases i with
      | selected orgUnitId points candidates =>
        have hfilter := filter_congr (l := candidates) fun c hc =>
          hp c.forecastRunId (hids _ (mem_map_of_mem hc))
        simp only [Option.map_some, Ingestion.only, hfilter]
      | scored orgUnitId points rows =>
        have hfilter := filter_congr (l := rows) fun row hrow =>
          hp row.forecastRunId (hids _ (mem_map_of_mem hrow))
        simp only [Option.map_some, Ingestion.only, hfilter]
  have hruns := filter_congr (l := s.runs) fun r hr => hp r.id (mem_map_of_mem hr)
  have hpoints := filter_congr (l := s.dataPoints) fun d hd => hp _ (h.dataPoints d hd)
  have hscenarios := filter_congr (l := s.scenarios) fun x hx =>
    hp _ (h.scenarios x.resultForecastRunId (mem_map_of_mem hx))
  have hlogs := filter_congr (l := s.logs) fun row hrow => hp _ (h.logs row hrow)
  simp only [ForecastingState.only, hruns, hpoints, hscenarios, hlogs, hingestion]

/-- **A step of a live request**: on the tables of some runs, which a new run is one of, it does
what it does on all tables. -/
theorem forecastingStep_only {p : ℕ → Bool} (hstep : forecastingStep s step = some t)
    (hlive : isScenario step = false) (hnew : ∀ runId, runId ∉ s.runs.map (·.id) → p runId = true) :
    forecastingStep (s.only p) step = some (t.only p) := by
  have hupdate : ∀ q ingestion, (fun q' => (update s.ingestions q ingestion q').map
      (Ingestion.only p)) = update (fun q' => (s.ingestions q').map (Ingestion.only p)) q
        (ingestion.map (Ingestion.only p)) := by
    intro q ingestion
    funext q'
    by_cases hq : q' = q
    · subst hq
      rw [update_self, update_self]
    · rw [update_of_ne hq, update_of_ne hq]
  cases step with
  | job run points =>
    simp only [forecastingStep] at hstep ⊢
    split at hstep
    · rename_i hok
      cases hstep
      have hp : p run.id = true := hnew run.id hok.1
      have hfresh : run.id ∉ (s.only p).runs.map (·.id) := by
        intro hmem
        obtain ⟨r, hr, hid⟩ := mem_map.1 hmem
        exact hok.1 (mem_map.2 ⟨r, mem_of_mem_filter hr, hid⟩)
      have hpoints : points.filter (fun d => p d.forecastRunId) = points :=
        filter_eq_self.2 fun d hd => by rw [hok.2 d hd, hp]
      rw [if_pos ⟨hfresh, hok.2⟩]
      simp only [ForecastingState.only, filter_append, hpoints]
      rw [filter_cons, if_pos hp, filter_nil]
    · cases hstep
  | retrain models =>
    cases hstep
    rfl
  | scenario resultRunId baseForecastRunId overrides context => cases hlive
  | select q orgUnitId points =>
    simp only [forecastingStep] at hstep ⊢
    split at hstep
    · rename_i hok
      cases hstep
      have hnone : ((s.only p).ingestions q).isNone := by
        change ((s.ingestions q).map (Ingestion.only p)).isNone
        rw [Option.isNone_map]
        exact hok.1
      rw [if_pos ⟨hnone, hok.2⟩]
      simp only [ForecastingState.only, hupdate, Option.map_some, Ingestion.only,
        candidates_filter]
    · cases hstep
  | score q =>
    simp only [forecastingStep] at hstep ⊢
    split at hstep
    · rename_i orgUnitId points candidates hq
      cases hstep
      have hkeys : ∀ key : ℕ × ℤ, p key.1 = true → (key ∈ s.logs.map (·.key) ↔
          key ∈ (s.logs.filter fun row => p row.forecastRunId).map (·.key)) := by
        intro key hp
        simp only [mem_map, mem_filter]
        refine exists_congr fun row => ⟨?_, fun h => ⟨h.1.1, h.2⟩⟩
        rintro ⟨hrow, rfl⟩
        exact ⟨⟨hrow, hp⟩, rfl⟩
      have hrows : (accuracyRows orgUnitId points (s.logs.map (·.key)) candidates).filter
          (fun row => p row.forecastRunId) = accuracyRows orgUnitId points
            ((s.logs.filter fun row => p row.forecastRunId).map (·.key))
            (candidates.filter fun c => p c.forecastRunId) :=
        accuracyRows_filter p candidates _ _ hkeys
      have hq' : (s.only p).ingestions q =
          some (.selected orgUnitId points (candidates.filter fun c => p c.forecastRunId)) := by
        change (s.ingestions q).map (Ingestion.only p) = _
        rw [hq]
        rfl
      rw [hq']
      simp only [ForecastingState.only, hupdate, Option.map_some, Ingestion.only, hrows]
    · cases hstep
  | commit q =>
    simp only [forecastingStep] at hstep ⊢
    split at hstep
    · rename_i orgUnitId points rows hq
      split at hstep
      · rename_i points' rows' hpoints hrows
        cases hstep
        have hq' : (s.only p).ingestions q =
            some (.scored orgUnitId points (rows.filter fun row => p row.forecastRunId)) := by
          change (s.ingestions q).map (Ingestion.only p) = _
          rw [hq]
          rfl
        rw [hq']
        simp only [hpoints, mapM_toColumns_filter p hrows]
        simp only [ForecastingState.only, hupdate, Option.map_none, filter_append]
      · cases hstep
    · cases hstep

theorem results_eq (hstep : forecastingStep s step = some t) (hlive : isScenario step = false) :
    t.results = s.results := by
  cases step with
  | scenario resultRunId baseForecastRunId overrides context => cases hlive
  | retrain models =>
    cases hstep
    rfl
  | job | select =>
    simp only [forecastingStep] at hstep
    split at hstep
    · cases hstep
      rfl
    · cases hstep
  | score q =>
    simp only [forecastingStep] at hstep
    split at hstep
    · cases hstep
      rfl
    · cases hstep
  | commit q =>
    simp only [forecastingStep] at hstep
    split at hstep
    · split at hstep
      · cases hstep
        rfl
      · cases hstep
    · cases hstep

/-- A scenario changes nothing in the tables of live runs. -/
theorem scenario_live (h : References s) {resultRunId baseForecastRunId : ℕ}
    {overrides : AssumptionOverrides} {context : HeadcountContext}
    (hstep : forecastingStep s (.scenario resultRunId baseForecastRunId overrides context) =
      some t) : t.live = s.live := by
  simp only [forecastingStep] at hstep
  split at hstep
  · rename_i hfresh
    split at hstep
    · cases hstep
    · rename_i run points hcreate
      cases hstep
      obtain ⟨rfl, hpoints⟩ := createScenario_ok hcreate
      set t : ForecastingState := { s with
        runs := s.runs ++ [run]
        dataPoints := s.dataPoints ++ points
        scenarios := s.scenarios ++ [⟨baseForecastRunId, overrides, run.id⟩] } with ht
      have hresults : t.results = s.results ++ [run.id] := by
        simp [ht, ForecastingState.results]
      have hself : ¬ t.isLive run.id = true := by
        simp [ForecastingState.isLive, hresults]
      have hcongr : s.only t.isLive = s.only s.isLive := h.only_congr fun runId hrun => by
        have hne : runId ≠ run.id := fun heq => hfresh (heq ▸ hrun)
        simp [ForecastingState.isLive, hresults, hne]
      have hnone : points.filter (fun d => t.isLive d.forecastRunId) = [] :=
        filter_eq_nil_iff.2 fun d hd => by rw [hpoints d hd]; exact hself
      calc t.live = s.only t.isLive := by
            simp only [ForecastingState.live, ForecastingState.only, ht, filter_append]
            simp only [← ht, hnone, append_nil]
            rw [filter_cons, if_neg hself, filter_cons, if_neg hself, filter_nil,
              filter_nil, append_nil, append_nil]
        _ = s.live := hcongr
  · cases hstep

end Steps

theorem unwinding : Unwinding forecastingStep isScenario (fun s => (s.models, s.actuals))
    (fun s s' => References s ∧ s' = s.live) (fun _ => True) (fun _ _ => True) where
  view := by
    rintro s - ⟨-, rfl⟩
    rfl
  byOthers := by
    rintro s - step t ⟨hs, rfl⟩ hlive hstep
    have ht := forecastingStep_references hs hstep
    have hresults := results_eq hstep hlive
    have hisLive : t.isLive = s.isLive := by
      funext runId
      simp only [ForecastingState.isLive, hresults]
    refine ⟨t.live, ?_, ht, rfl⟩
    rw [ForecastingState.live, ForecastingState.live, hisLive]
    exact forecastingStep_only hstep hlive fun runId hfresh =>
      decide_eq_true fun hresult => hfresh (hs.scenarios runId hresult)
  byParty := by
    rintro s - step t ⟨hs, rfl⟩ hscenario - - hstep
    refine ⟨forecastingStep_references hs hstep, ?_⟩
    cases step with
    | scenario resultRunId baseForecastRunId overrides context =>
      exact (scenario_live hs hstep).symm
    | _ => cases hscenario

/-! ## A history with and without its scenarios -/

/-- **Scenarios leave live runs alone**: without its scenarios a history leads to the tables
without what belongs to their results. So the accuracy rows of live runs, the actuals and what
`check_staleness` says about the model are the same, and its whole answers are the same as long as
each score of a scenario is older than ten scores of live runs. -/
theorem scenarios_leave_live {steps : List ForecastingStep} {t : ForecastingState}
    (h : exec forecastingStep .empty steps = some t) : ∃ t',
    exec forecastingStep .empty (others isScenario steps) = some t' ∧
    t'.logs = (t.logs.filter fun row => t.isLive row.forecastRunId) ∧
    t'.actuals = t.actuals ∧
    ∀ orgUnitId targetMetric asOf,
      (∀ result, Staleness t.models t.logs orgUnitId targetMetric asOf result →
        ∃ result', Staleness t'.models t'.logs orgUnitId targetMetric asOf result' ∧
          result'.toModelStaleness = result.toModelStaleness) ∧
      (∀ result', Staleness t'.models t'.logs orgUnitId targetMetric asOf result' →
        ∃ result, Staleness t.models t.logs orgUnitId targetMetric asOf result ∧
          result.toModelStaleness = result'.toModelStaleness) ∧
      (OutOfReach t.isLive t.logs orgUnitId → ∀ result,
        Staleness t.models t.logs orgUnitId targetMetric asOf result ↔
          Staleness t'.models t'.logs orgUnitId targetMetric asOf result) := by
  have hempty : References .empty :=
    ⟨forall_mem_nil _, forall_mem_nil _, forall_mem_nil _, fun _ => Tables.forall_mem_none⟩
  have hquiet : Meets forecastingStep (fun _ step => isScenario step = true → True) .empty steps :=
    meets_of_mem fun _ _ _ _ => trivial
  obtain ⟨t', ht', -, rfl⟩ := unwinding.exec_others ⟨hempty, rfl⟩ (fun _ _ _ => trivial) hquiet h
  refine ⟨t.live, ht', rfl, rfl, fun orgUnitId targetMetric asOf => ⟨fun result hresult => ?_,
    fun result' hresult' => ?_, fun hreach result => ?_⟩⟩
  · exact hresult.exists_model _
  · exact hresult'.exists_model _
  · exact staleness_filter_iff hreach result

/-- A model is promoted, predicts five intervals, and turns out to be right. In between somebody
asks what twice the volume would mean. -/
def doubled : List ForecastingStep :=
  let hour := 3600000000
  let intervals : List ℤ := [0, hour, 2 * hour, 3 * hour, 4 * hour]
  [.retrain [⟨⟨1, "sarima", some 10, .active⟩, 0, "volume", some 0⟩],
    .job ⟨1, 0, some 1, 0, 0, 60, .completed, false⟩
      (intervals.map fun interval => ⟨1, interval, some 20, none, none, none, none⟩),
    .scenario 2 1 ⟨2, 0, 0⟩ ⟨3 / 10, none⟩,
    .select 0 0 (intervals.map fun interval => ⟨interval, some 20, none, none⟩), .score 0,
    .commit 0]

theorem doubled_leaves_live : ∃ t t', exec forecastingStep .empty doubled = some t ∧
    exec forecastingStep .empty (others isScenario doubled) = some t' ∧
    t'.logs = (t.logs.filter fun row => t.isLive row.forecastRunId) ∧ t'.logs.length = 5 := by
  obtain ⟨t, ht, hlength⟩ : ∃ t, exec forecastingStep .empty doubled = some t ∧
      (t.logs.filter fun row => t.isLive row.forecastRunId).length = 5 :=
    exists_exec (by decide +kernel)
  obtain ⟨t', ht', hlogs, -⟩ := scenarios_leave_live ht
  exact ⟨t, t', ht, ht', hlogs, hlogs ▸ hlength⟩

/-- With the scenario there are ten scores, and they are bad. -/
theorem doubled_noticed : ∃ t t' result, exec forecastingStep .empty doubled = some t ∧
    exec forecastingStep .empty (others isScenario doubled) = some t' ∧
    Staleness t.models t.logs 0 "volume" 0 result ∧ result.retrainRecommended = true ∧
    ∀ result', Staleness t'.models t'.logs 0 "volume" 0 result' →
      result'.retrainRecommended = false := by
  let model : TrainedModel := ⟨⟨1, "sarima", some 10, .active⟩, 0, "volume", some 0⟩
  let read (t : ForecastingState) : List AccuracyRow :=
    ((scoredLogs t.logs 0).insertionSort NoOlder).take accuracyDegradedMinSamples
  obtain ⟨t, ht, hmodels, hretrain⟩ : ∃ t, exec forecastingStep .empty doubled = some t ∧
      t.models = [model] ∧ (checkStaleness (some model) 0 (read t)).retrainRecommended = true :=
    exists_exec (by decide +kernel)
  obtain ⟨t', ht', hmodels', hfew⟩ : ∃ t',
      exec forecastingStep .empty (others isScenario doubled) = some t' ∧ t'.models = [model] ∧
        (scoredLogs t'.logs 0).length < accuracyDegradedMinSamples :=
    exists_exec (by decide +kernel)
  refine ⟨t, t', _, ht, ht', ⟨some model, read t, ?_, ⟨_, perm_insertionSort NoOlder _,
    pairwise_insertionSort NoOlder _, rfl⟩, rfl⟩, hretrain, ?_⟩
  · rw [hmodels]
    exact mem_singleton.2 rfl
  · rintro - ⟨activeModel, recentLogs, hactive, hrecent, rfl⟩
    have hlength : recentLogs.length < accuracyDegradedMinSamples := by
      rw [hrecent.length_eq]
      exact lt_of_le_of_lt (min_le_right _ _) hfew
    rw [checkStaleness_of_length_lt hlength]
    rw [hmodels'] at hactive
    cases activeModel with
    | none => rfl
    | some m =>
      obtain rfl := mem_singleton.1 hactive
      have hage : (checkStaleness (some model) 0 recentLogs).ageStale =
          (checkStaleness (some model) 0 []).ageStale :=
        congrArg ModelStaleness.ageStale (checkStaleness_model (some model) 0 recentLogs [])
      rw [hage]
      decide +kernel

end Workforce.Forecasting
