import Workforce.Scheduling.Snapshot

/-!
# The fairness policy of a job

A job's fairness block from the API to the two places that classify shifts with it. The solver uses
`to_fairness_config` of the submitted block, on the start it was given; publishing uses
`parse_fairness_config` of the stored `constraint_config`, on the start the database returns, a
`timestamptz` read back in UTC.

The block comes back from the column as it went in (`parseFairnessConfig_modelDump`). The start
does not: its offset is gone, and `is_undesirable` reads the date and the hour of the wall clock.
The two classifications agree for every policy exactly when the wall clock of the start shows the
date and the hour of UTC.
-/

namespace Workforce.Scheduling

/-- `FairnessConfigInput`, with the bounds its fields are validated by. -/
structure FairnessConfigInput where
  rollingPeriodWeeks : ℤ := 4
  tolerance : ℤ := 1
  includeWeekends : Bool := true
  nightStartHour : Option ℤ := some 22
  nightEndHour : Option ℤ := some 6
  holidayDates : List ℤ := []
  weeks_pos : 0 < rollingPeriodWeeks := by decide
  tolerance_nonneg : 0 ≤ tolerance := by decide
  nightStart_range : ∀ h ∈ nightStartHour, 0 ≤ h ∧ h ≤ 23 := by decide
  nightEnd_range : ∀ h ∈ nightEndHour, 0 ≤ h ∧ h ≤ 23 := by decide
  holidays_range : ∀ d ∈ holidayDates, DateInRange d := by decide

/-- `to_fairness_config`. -/
def toFairnessConfig (fairness : FairnessConfigInput) : FairnessConfig where
  rollingPeriodWeeks := fairness.rollingPeriodWeeks
  tolerance := fairness.tolerance
  includeWeekends := fairness.includeWeekends
  nightStartHour := fairness.nightStartHour
  nightEndHour := fairness.nightEndHour
  holidayDates := fairness.holidayDates.toFinset

/-- `FairnessConfigInput.model_dump(mode="json", by_alias=True)`. -/
def FairnessConfigInput.modelDump (fairness : FairnessConfigInput) : Json :=
  .obj [("rollingPeriodWeeks", .num fairness.rollingPeriodWeeks),
    ("tolerance", .num fairness.tolerance),
    ("includeWeekends", .bool fairness.includeWeekends),
    ("nightStartHour", Json.ofOption (fun n => .num (n : ℤ)) fairness.nightStartHour),
    ("nightEndHour", Json.ofOption (fun n => .num (n : ℤ)) fairness.nightEndHour),
    ("holidayDates", .arr (fairness.holidayDates.map fun d => .str (dateIsoformat d)))]

/-- `ConstraintConfigInput`. The soft weights are validated as non-negative. -/
structure ConstraintConfigInput where
  fairness : Option FairnessConfigInput
  softWeights : SoftWeights

/-- `ConstraintConfigInput.model_dump(mode="json", by_alias=True)`: the column
`constraint_config`. -/
def ConstraintConfigInput.modelDump (config : ConstraintConfigInput) : Json :=
  .obj [("fairness", Json.ofOption FairnessConfigInput.modelDump config.fairness),
    ("softWeights", serializeSoftWeights config.softWeights)]

/-- `default_fairness_config`. -/
def defaultFairnessConfig : FairnessConfig := ⟨4, 1, true, some 22, some 6, ∅⟩

/-- `parse_fairness_config`. A key that is present with `null` is not replaced by its default. -/
def parseFairnessConfig (constraintConfig : Json) : Except Json.Error FairnessConfig := do
  let fairness := constraintConfig.get "fairness"
  if !fairness.truthy then return defaultFairnessConfig
  let holidayDates ← readList readDay (fairness.getOr "holidayDates" (.arr []))
  return { rollingPeriodWeeks := ← (fairness.getOr "rollingPeriodWeeks" (.num 4)).asInt
           tolerance := ← (fairness.getOr "tolerance" (.num 1)).asInt
           includeWeekends := ← (fairness.getOr "includeWeekends" (.bool true)).asBool
           nightStartHour := ← (fairness.getOr "nightStartHour" (.num 22)).asOption Json.asInt
           nightEndHour := ← (fairness.getOr "nightEndHour" (.num 6)).asOption Json.asInt
           holidayDates := holidayDates.toFinset }

/-! ## The block through the column -/

theorem parseFairnessConfig_modelDump (fairness : FairnessConfigInput) (weights : SoftWeights) :
    parseFairnessConfig (ConstraintConfigInput.modelDump ⟨some fairness, weights⟩) =
      .ok (toFairnessConfig fairness) := by
  have hblock : (ConstraintConfigInput.modelDump ⟨some fairness, weights⟩).get "fairness" =
      fairness.modelDump := rfl
  have htruthy : fairness.modelDump.truthy = true := rfl
  have hweeks : (fairness.modelDump.getOr "rollingPeriodWeeks" (.num 4)) =
      .num fairness.rollingPeriodWeeks := rfl
  have htolerance : (fairness.modelDump.getOr "tolerance" (.num 1)) =
      .num fairness.tolerance := rfl
  have hweekends : (fairness.modelDump.getOr "includeWeekends" (.bool true)) =
      .bool fairness.includeWeekends := rfl
  have hstart : (fairness.modelDump.getOr "nightStartHour" (.num 22)).asOption Json.asInt =
      .ok fairness.nightStartHour := asOption_int _
  have hend : (fairness.modelDump.getOr "nightEndHour" (.num 6)).asOption Json.asInt =
      .ok fairness.nightEndHour := asOption_int _
  have hholidays : readList readDay (fairness.modelDump.getOr "holidayDates" (.arr [])) =
      .ok fairness.holidayDates :=
    readList_self fun d hd => readDay_str (fairness.holidays_range d hd)
  simp [parseFairnessConfig, hblock, htruthy, hweeks, htolerance, hweekends, hstart, hend,
    hholidays, Json.asInt_intCast, Json.asBool, toFairnessConfig, bind, Except.bind, pure,
    Except.pure]

/-! ## The start through the column -/

/-- A start as the driver returns it from a `timestamptz`: the instant, in UTC. -/
def DateTime.toUtc (t : DateTime) : DateTime := ⟨t.instant, 0⟩

/-- The wall clock shows the date and the hour of UTC. -/
def DateTime.ShowsUtc (t : DateTime) : Prop := t.date = t.toUtc.date ∧ t.hour = t.toUtc.hour
  deriving Decidable

/-- What the solver computes for a shift. -/
def undesirableAtSolve (fairness : FairnessConfigInput) (start : DateTime) : Bool :=
  (toFairnessConfig fairness).isUndesirable start

/-- What publishing writes for the assignment of the shift. -/
def undesirableAtPublish (constraintConfig : Json) (start : DateTime) : Except Json.Error Bool :=
  (parseFairnessConfig constraintConfig).map (·.isUndesirable start.toUtc)

theorem isUndesirable_congr (f : FairnessConfig) {t u : DateTime} (hdate : t.date = u.date)
    (hhour : t.hour = u.hour) : f.isUndesirable t = f.isUndesirable u := by
  have hweekday : t.weekday = u.weekday := by rw [DateTime.weekday, DateTime.weekday, hdate]
  unfold FairnessConfig.isUndesirable
  rw [hdate, hhour, hweekday]

theorem undesirableAtPublish_eq (fairness : FairnessConfigInput) (weights : SoftWeights)
    (start : DateTime) :
    undesirableAtPublish (ConstraintConfigInput.modelDump ⟨some fairness, weights⟩) start =
      .ok ((toFairnessConfig fairness).isUndesirable start.toUtc) := by
  rw [undesirableAtPublish, parseFairnessConfig_modelDump]
  rfl

/-! ## Policies that tell two readings apart -/

/-- A policy that finds one date undesirable, and nothing else. -/
def onlyHoliday (date : ℤ) (h : DateInRange date) : FairnessConfigInput where
  includeWeekends := false
  nightStartHour := none
  nightEndHour := none
  holidayDates := [date]
  nightStart_range := by simp
  nightEnd_range := by simp
  holidays_range := by simpa using h

theorem undesirable_onlyHoliday {date : ℤ} (h : DateInRange date) (t : DateTime) :
    (toFairnessConfig (onlyHoliday date h)).isUndesirable t = decide (t.date = date) := by
  by_cases ht : t.date = date <;>
    simp [FairnessConfig.isUndesirable, toFairnessConfig, onlyHoliday, ht]

/-- A policy that finds one hour of the day undesirable, and nothing else. -/
def onlyHour (hour : ℤ) (h : 0 ≤ hour ∧ hour ≤ 23) : FairnessConfigInput where
  includeWeekends := false
  nightStartHour := some hour
  nightEndHour := some (if hour = 23 then 0 else hour + 1)
  nightStart_range := by simpa using h
  nightEnd_range := by
    intro n hn
    cases hn
    split <;> omega

theorem DateTime.hour_range (t : DateTime) : 0 ≤ t.hour ∧ t.hour ≤ 23 := by
  unfold hour microsPerHour
  omega

theorem isUndesirable_night {f : FairnessConfig} {t : DateTime} {nightStart nightEnd : ℤ}
    (hholidays : f.holidayDates = ∅) (hweekends : f.includeWeekends = false)
    (hstart : f.nightStartHour = some nightStart) (hend : f.nightEndHour = some nightEnd) :
    f.isUndesirable t =
      if nightStart ≤ nightEnd then decide (nightStart ≤ t.hour ∧ t.hour < nightEnd)
      else decide (nightStart ≤ t.hour ∨ t.hour < nightEnd) := by
  simp [FairnessConfig.isUndesirable, hholidays, hweekends, hstart, hend, Bool.decide_and,
    Bool.decide_or]

theorem undesirable_onlyHour {hour : ℤ} (h : 0 ≤ hour ∧ hour ≤ 23) (t : DateTime) :
    (toFairnessConfig (onlyHour hour h)).isUndesirable t = decide (t.hour = hour) := by
  have ht := t.hour_range
  rw [isUndesirable_night rfl rfl rfl rfl]
  by_cases hlast : hour = 23
  · -- the window of the last hour wraps midnight
    rw [if_pos hlast, if_neg (by omega), decide_eq_decide]
    omega
  · rw [if_neg hlast, if_pos (by omega), decide_eq_decide]
    omega

/-- **Classification at solve and at publish.** The two agree on a start for every policy the API
accepts exactly when the wall clock of the start shows the date and the hour of UTC. -/
theorem undesirable_agree_iff {start : DateTime} (hstart : start.InRange) :
    (∀ (fairness : FairnessConfigInput) (weights : SoftWeights),
        undesirableAtPublish (ConstraintConfigInput.modelDump ⟨some fairness, weights⟩) start =
          .ok (undesirableAtSolve fairness start)) ↔ start.ShowsUtc := by
  constructor
  · intro hagree
    have hsame : ∀ fairness : FairnessConfigInput,
        (toFairnessConfig fairness).isUndesirable start.toUtc =
          (toFairnessConfig fairness).isUndesirable start := by
      intro fairness
      have h := hagree fairness ⟨1, 1, 1, 1⟩
      rw [undesirableAtPublish_eq] at h
      exact Except.ok.inj h
    constructor
    · have h := hsame (onlyHoliday start.date hstart.1)
      rw [undesirable_onlyHoliday, undesirable_onlyHoliday] at h
      exact (by simpa using h : start.toUtc.date = start.date).symm
    · have h := hsame (onlyHour start.hour start.hour_range)
      rw [undesirable_onlyHour, undesirable_onlyHour] at h
      exact (by simpa using h : start.toUtc.hour = start.hour).symm
  · rintro ⟨hdate, hhour⟩ fairness weights
    rw [undesirableAtPublish_eq, undesirableAtSolve,
      isUndesirable_congr (toFairnessConfig fairness) hdate hhour]

/-! ### A late shift east of Greenwich -/

/-- 22:30 on Monday 2026-08-10, two hours east of UTC. -/
def mondayNight : DateTime where
  wall := 20675 * (24 * microsPerHour) + 45 * microsPerHour / 2
  utcOffset := 2 * microsPerHour

/-- With the default policy the solver counts the shift as a night shift and publishing does
not. -/
theorem mondayNight_disagrees :
    mondayNight.InRange ∧ undesirableAtSolve {} mondayNight = true ∧
      undesirableAtPublish (ConstraintConfigInput.modelDump ⟨some {}, ⟨1, 1, 1, 1⟩⟩) mondayNight =
        .ok false := by
  refine ⟨by decide, by decide, ?_⟩
  rw [undesirableAtPublish_eq]
  decide

/-- The same wall clock at offset zero. -/
theorem mondayNight_utc_agrees :
    undesirableAtPublish (ConstraintConfigInput.modelDump ⟨some {}, ⟨1, 1, 1, 1⟩⟩)
        ⟨mondayNight.wall, 0⟩ = .ok (undesirableAtSolve {} ⟨mondayNight.wall, 0⟩) := by
  have hrange : (⟨mondayNight.wall, 0⟩ : DateTime).InRange := by decide
  have hutc : (⟨mondayNight.wall, 0⟩ : DateTime).ShowsUtc := by decide
  exact (undesirable_agree_iff hrange).2 hutc {} ⟨1, 1, 1, 1⟩

end Workforce.Scheduling
