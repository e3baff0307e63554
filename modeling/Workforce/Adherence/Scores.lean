import Workforce.Foundations.Tables

/-!
# Adherence scores

The table `compliance.adherence_score` and what the two rollup jobs share: timezones, the rows of a
period, and the statements of a tick, one for each tenant and timezone.

Instants are in microseconds since 1970-01-01 UTC, local days are day numbers. What a statement
would write to a table with an integer too large for its column is not modelled.
-/

namespace Workforce.Adherence

open Tables List

/-! ## Timezones -/

def microsPerSecond : ℤ := 1000000
def microsPerDay : ℤ := 86400 * microsPerSecond

/-- A timezone as `AT TIME ZONE` and `date_trunc` see it: the local day of an instant, and the
instant at which a local day starts. Days may be of different lengths; none is skipped. Of the
timezones of the IANA database that leaves out those with a change of the clocks that repeats local
midnight (today `Atlantic/Azores` and `America/Havana`) or skips a day. -/
structure Zone where
  localDay : ℤ → ℤ
  dayStart : ℤ → ℤ
  localDay_eq_iff : ∀ t d, localDay t = d ↔ dayStart d ≤ t ∧ t < dayStart (d + 1)
  dayStart_lt : ∀ d, dayStart d < dayStart (d + 1)

/-- A timezone with a fixed offset from UTC. -/
def Zone.ofOffset (offset : ℤ) : Zone where
  localDay t := (t + offset) / microsPerDay
  dayStart d := d * microsPerDay - offset
  localDay_eq_iff t d := by
    unfold microsPerDay microsPerSecond
    omega
  dayStart_lt d := by
    unfold microsPerDay microsPerSecond
    omega

namespace Zone

variable (zone : Zone)

/-- The instant at which the local day of `t` ends. -/
def dayEnd (t : ℤ) : ℤ := zone.dayStart (zone.localDay t + 1)

theorem dayStart_le (t : ℤ) : zone.dayStart (zone.localDay t) ≤ t :=
  ((zone.localDay_eq_iff t _).1 rfl).1

theorem lt_dayEnd (t : ℤ) : t < zone.dayEnd t := ((zone.localDay_eq_iff t _).1 rfl).2

@[simp] theorem localDay_dayStart (d : ℤ) : zone.localDay (zone.dayStart d) = d :=
  (zone.localDay_eq_iff _ d).2 ⟨le_refl _, zone.dayStart_lt d⟩

/-- What comes later than an instant of a day, and is not on that day, comes after its end. -/
theorem dayEnd_le {t t' : ℤ} (h : t ≤ t') (hne : zone.localDay t' ≠ zone.localDay t) :
    zone.dayEnd t ≤ t' := by
  by_contra hlt
  refine hne ((zone.localDay_eq_iff _ _).2 ⟨(zone.dayStart_le t).trans h, ?_⟩)
  exact not_le.1 hlt

end Zone

/-! ## The table -/

inductive PeriodType
  | shift | day | week | month
  deriving DecidableEq

/-- The unique key of the table. -/
structure ScoreKey where
  tenantId : ℕ
  employeeId : ℕ
  periodType : PeriodType
  periodStart : ℤ
  deriving DecidableEq

/-- The counters of a row. -/
structure ScoreCounts where
  adherentSeconds : ℕ
  totalScheduledSeconds : ℕ
  majorDeviationCount : ℕ
  deriving DecidableEq

/-- A row of `adherence_score`. The percentage is in hundredths; `none` is `NULL`, which the table
does not take. -/
structure AdherenceScore where
  key : ScoreKey
  periodEnd : ℤ
  counts : ScoreCounts
  adherencePct : Option ℕ
  deriving DecidableEq

/-- `ROUND(100.0 * part / NULLIF(whole, 0), 2)`. -/
def percent (part whole : ℕ) : Option ℕ :=
  if whole = 0 then none else some ((20000 * part + whole) / (2 * whole))

/-- The row passes the checks of the table. -/
def AdherenceScore.storable (r : AdherenceScore) : Bool := r.adherencePct.any (· ≤ 10000)

theorem percent_storable {part whole : ℕ} (hpos : 0 < whole) (hle : part ≤ whole) :
    (percent part whole).any (· ≤ 10000) = true := by
  have hdiv : (20000 * part + whole) / (2 * whole) < 10001 := by
    rw [Nat.div_lt_iff_lt_mul (by omega)]
    omega
  simp only [percent, if_neg (Nat.pos_iff_ne_zero.1 hpos), Option.any_some, decide_eq_true_eq]
  omega

/-! ## The statements of a tick -/

/-- The statements of a tick, one for each tenant and timezone, from the employees found. -/
def statementGroups (rows : List (ℕ × ℕ)) (timezoneOf : ℕ → ℕ → String) :
    List (ℕ × String × List ℕ) :=
  (rows.map (·.1)).eraseDups.flatMap fun tenantId =>
    let employeeIds := (rows.filter (·.1 = tenantId)).map (·.2)
    (employeeIds.map (timezoneOf tenantId)).eraseDups.map fun timezone =>
      (tenantId, timezone, employeeIds.filter (timezoneOf tenantId · = timezone))

theorem mem_statementGroups {rows : List (ℕ × ℕ)} {timezoneOf : ℕ → ℕ → String}
    {group : ℕ × String × List ℕ} (h : group ∈ statementGroups rows timezoneOf) {employeeId : ℕ}
    (he : employeeId ∈ group.2.2) :
    (group.1, employeeId) ∈ rows ∧ timezoneOf group.1 employeeId = group.2.1 := by
  simp only [statementGroups, mem_flatMap, mem_map, mem_eraseDups] at h
  obtain ⟨tenantId, -, timezone, -, rfl⟩ := h
  simpa using he

theorem exists_statementGroup {rows : List (ℕ × ℕ)} (timezoneOf : ℕ → ℕ → String)
    {tenantId employeeId : ℕ} (h : (tenantId, employeeId) ∈ rows) :
    ∃ employeeIds, employeeId ∈ employeeIds ∧
      (tenantId, timezoneOf tenantId employeeId, employeeIds) ∈
        statementGroups rows timezoneOf := by
  refine ⟨((rows.filter (·.1 = tenantId)).map (·.2)).filter
    (timezoneOf tenantId · = timezoneOf tenantId employeeId), by simpa using h, ?_⟩
  simp only [statementGroups, mem_flatMap, mem_map, mem_eraseDups]
  refine ⟨tenantId, ⟨_, h, rfl⟩, timezoneOf tenantId employeeId, ⟨employeeId, ?_, rfl⟩, rfl⟩
  exact ⟨(tenantId, employeeId), by simp [h], rfl⟩

/-- Statements run one after another, each from the table it finds to rows that are inserted or
replaced. One that the table refuses writes nothing and ends the tick. Returned are the rows
written and the table. -/
def runStatements : List (List AdherenceScore → List AdherenceScore) → List AdherenceScore →
    List AdherenceScore × List AdherenceScore
  | [], scores => ([], scores)
  | statement :: statements, scores =>
    if (statement scores).all (·.storable) then
      let (written, scores') :=
        runStatements statements (upsertAll (·.key) (statement scores) scores)
      (statement scores ++ written, scores')
    else ([], scores)

/-- Statements that never fail and do not read the table write all their rows. -/
theorem runStatements_const {new : List (List AdherenceScore)}
    (h : ∀ rows ∈ new, ∀ r ∈ rows, r.storable = true) (scores : List AdherenceScore) :
    runStatements (new.map fun rows _ => rows) scores =
      (new.flatten, upsertAll (·.key) new.flatten scores) := by
  induction new generalizing scores with
  | nil => rfl
  | cons rows new ih =>
    have hrows : rows.all (·.storable) = true := all_eq_true.2 (h rows mem_cons_self)
    have ih := ih fun rows' hrows' => h rows' (mem_cons_of_mem _ hrows')
    simp only [map_cons, runStatements, hrows, if_true, ih, flatten_cons]
    simp [upsertAll, foldl_append]

end Workforce.Adherence
