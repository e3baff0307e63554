import Workforce.Adherence.Scores
import Workforce.Foundations.Calendar

/-!
# The weekly and monthly adherence rollup

`AdherenceWeeklyMonthlyRollupJobService.rollupTrailingWindow`: the rows of weeks and months are
sums of the stored rows of days, of those whose start is in the window of the tick.

The window starts on a Sunday, at 00:00 UTC: that of the week before the first Monday needed for
the month of 35 days ago. It cuts the month before, and in timezones at or west of UTC the week
that ends on that Sunday.

* `written_whole_iff`: the sums of a tick are those of whole periods exactly when the rows of days
  left out have nothing to add.
* `window_cuts_week_and_month`: they are not, on two rows.

The order in which the database returns the employees is taken from outside (`arrange`), and so is
the timezone that the resolver gives each of them.
-/

namespace Workforce.Adherence

open Tables Calendar List

/-! ## Weeks and months -/

/-- The two kinds of periods that are summed. -/
inductive RollupPeriod
  | week | month

namespace RollupPeriod

def periodType : RollupPeriod → PeriodType
  | week => .week
  | month => .month

/-- `date_trunc`: the first day of the period. -/
def trunc : RollupPeriod → ℤ → ℤ
  | week => weekStart
  | month => monthStart

/-- The day after the period, from its first day. -/
def next : RollupPeriod → ℤ → ℤ
  | week => fun start => start + 7
  | month => fun start => addMonths start 1

end RollupPeriod

/-- The first day of the period a row of a day is in. -/
def AdherenceScore.periodStart (p : RollupPeriod) (zone : Zone) (r : AdherenceScore) : ℤ :=
  p.trunc (zone.localDay r.key.periodStart)

/-- The row is of a day of this employee. -/
def AdherenceScore.isDayOf (tenantId employeeId : ℕ) (r : AdherenceScore) : Bool :=
  r.key.periodType = .day && r.key.tenantId = tenantId && r.key.employeeId = employeeId

/-- The sums of the counters. -/
def sumCounts (rows : List AdherenceScore) : ScoreCounts where
  adherentSeconds := (rows.map (·.counts.adherentSeconds)).sum
  totalScheduledSeconds := (rows.map (·.counts.totalScheduledSeconds)).sum
  majorDeviationCount := (rows.map (·.counts.majorDeviationCount)).sum

/-! ## `WEEK_ROLLUP_SQL` and `MONTH_ROLLUP_SQL` -/

/-- The window of a tick. -/
structure Window where
  start : ℤ
  fin : ℤ

/-- The rows of days of an employee that a statement reads. -/
def windowRows (window : Window) (scores : List AdherenceScore) (tenantId employeeId : ℕ) :
    List AdherenceScore :=
  scores.filter fun r => r.isDayOf tenantId employeeId && window.start ≤ r.key.periodStart &&
    r.key.periodStart < window.fin

/-- The row of a period, from rows of its days. -/
def periodRow (p : RollupPeriod) (zone : Zone) (tenantId employeeId : ℕ) (start : ℤ)
    (rows : List AdherenceScore) : AdherenceScore :=
  let counts := sumCounts rows
  { key := ⟨tenantId, employeeId, p.periodType, zone.dayStart start⟩
    periodEnd := zone.dayStart (p.next start)
    counts
    adherencePct := percent counts.adherentSeconds counts.totalScheduledSeconds }

/-- The rows that a statement inserts or replaces: for each employee, one for each period with a
row of a day in the window. -/
def periodRollup (p : RollupPeriod) (zone : Zone) (window : Window) (tenantId : ℕ)
    (employeeIds : List ℕ) (scores : List AdherenceScore) : List AdherenceScore :=
  employeeIds.flatMap fun employeeId =>
    let rows := windowRows window scores tenantId employeeId
    (rows.map (·.periodStart p zone)).eraseDups.map fun start =>
      periodRow p zone tenantId employeeId start (rows.filter (·.periodStart p zone = start))

/-- `WEEK_ROLLUP_SQL`. -/
def weekRollup : Zone → Window → ℕ → List ℕ → List AdherenceScore → List AdherenceScore :=
  periodRollup .week

/-- `MONTH_ROLLUP_SQL`. -/
def monthRollup : Zone → Window → ℕ → List ℕ → List AdherenceScore → List AdherenceScore :=
  periodRollup .month

/-! ## The tick -/

namespace WeeklyMonthly

/-- The window of `rollupTrailingWindow`: from the Sunday before the Monday on or before the first
of the month of `trailingDays` ago. -/
def window (trailingDays now : ℤ) : Window :=
  let rawWindowStart := now - trailingDays * microsPerDay
  let monthStart := monthStart (rawWindowStart / microsPerDay)
  { start := (monthStart - isoDow monthStart) * microsPerDay, fin := now + microsPerDay }

/-- `DISTINCT_DAY_EMPLOYEES_SQL`. -/
def dayEmployees (w : Window) (scores : List AdherenceScore) : List (ℕ × ℕ) :=
  ((scores.filter fun r => r.key.periodType = .day && w.start ≤ r.key.periodStart &&
    r.key.periodStart < w.fin).map fun r => (r.key.tenantId, r.key.employeeId)).eraseDups

/-- One of the two statements for a tenant and timezone. -/
structure Statement where
  period : RollupPeriod
  tenantId : ℕ
  timezone : String
  employeeIds : List ℕ

/-- The rows of a statement. -/
def Statement.rows (zones : String → Zone) (w : Window) (st : Statement) :
    List AdherenceScore → List AdherenceScore :=
  match st.period with
  | .week => weekRollup (zones st.timezone) w st.tenantId st.employeeIds
  | .month => monthRollup (zones st.timezone) w st.tenantId st.employeeIds

/-- The statements of a tick, in order. -/
def statements (w : Window) (timezoneOf : ℕ → ℕ → String)
    (arrange : List (ℕ × ℕ) → List (ℕ × ℕ)) (scores : List AdherenceScore) : List Statement :=
  (statementGroups (arrange (dayEmployees w scores)) timezoneOf).flatMap
    fun (tenantId, timezone, employeeIds) =>
      [⟨.week, tenantId, timezone, employeeIds⟩, ⟨.month, tenantId, timezone, employeeIds⟩]

/-- `rollupTrailingWindow`: the rows written and the table. -/
def rollupTrailingWindow (trailingDays : ℤ) (zones : String → Zone) (now : ℤ)
    (timezoneOf : ℕ → ℕ → String) (arrange : List (ℕ × ℕ) → List (ℕ × ℕ))
    (scores : List AdherenceScore) : List AdherenceScore × List AdherenceScore :=
  let w := window trailingDays now
  runStatements ((statements w timezoneOf arrange scores).map (·.rows zones w)) scores

/-- The statements that run: those before the first one that the table refuses. -/
def accepted (zones : String → Zone) (w : Window) (sts : List Statement)
    (scores : List AdherenceScore) : List Statement :=
  sts.takeWhile fun st => (st.rows zones w scores).all (·.storable)

/-! ## What a tick writes -/

variable {zones : String → Zone} {w : Window} {scores : List AdherenceScore}

theorem Statement.rows_eq (st : Statement) (scores : List AdherenceScore) :
    st.rows zones w scores =
      periodRollup st.period (zones st.timezone) w st.tenantId st.employeeIds scores := by
  cases h : st.period <;> simp [rows, h, weekRollup, monthRollup]

theorem windowRows_congr {scores' : List AdherenceScore}
    (h : scores'.filter (·.key.periodType = .day) = scores.filter (·.key.periodType = .day))
    (tenantId employeeId : ℕ) :
    windowRows w scores' tenantId employeeId = windowRows w scores tenantId employeeId := by
  have hdays : ∀ l : List AdherenceScore, windowRows w l tenantId employeeId =
      (l.filter (·.key.periodType = .day)).filter fun r => r.isDayOf tenantId employeeId &&
        w.start ≤ r.key.periodStart && r.key.periodStart < w.fin := by
    intro l
    rw [windowRows, filter_filter]
    refine filter_congr fun r _ => ?_
    by_cases hd : r.key.periodType = .day
    · simp [hd]
    · simp [hd, AdherenceScore.isDayOf]
  rw [hdays, hdays scores, h]

theorem rows_congr (zones : String → Zone) (w : Window) (st : Statement)
    {scores' : List AdherenceScore}
    (h : scores'.filter (·.key.periodType = .day) = scores.filter (·.key.periodType = .day)) :
    st.rows zones w scores' = st.rows zones w scores := by
  rw [st.rows_eq, st.rows_eq]
  simp only [periodRollup, windowRows_congr h]

theorem mem_rows {st : Statement} {r : AdherenceScore} : r ∈ st.rows zones w scores ↔
    ∃ employeeId ∈ st.employeeIds, ∃ y ∈ windowRows w scores st.tenantId employeeId,
      r = periodRow st.period (zones st.timezone) st.tenantId employeeId
        (y.periodStart st.period (zones st.timezone))
        ((windowRows w scores st.tenantId employeeId).filter fun x =>
          x.periodStart st.period (zones st.timezone) =
            y.periodStart st.period (zones st.timezone)) := by
  simp only [st.rows_eq, periodRollup, mem_flatMap, mem_map, mem_eraseDups]
  constructor
  · rintro ⟨employeeId, he, start, ⟨y, hy, rfl⟩, rfl⟩
    exact ⟨employeeId, he, y, hy, rfl⟩
  · rintro ⟨employeeId, he, y, hy, rfl⟩
    exact ⟨employeeId, he, _, ⟨y, hy, rfl⟩, rfl⟩

theorem filter_upsertAll_rows (zones : String → Zone) (w : Window) (st : Statement)
    (current : List AdherenceScore) :
    (upsertAll (·.key) (st.rows zones w current) current).filter (·.key.periodType = .day) =
      current.filter (·.key.periodType = .day) := by
  refine filter_upsertAll (fun r hr => ?_) (fun r r' h => by rw [h]) current
  obtain ⟨employeeId, -, y, -, rfl⟩ := mem_rows.1 hr
  cases hp : st.period <;> simp [periodRow, RollupPeriod.periodType]

theorem runStatements_written (sts : List Statement) {current : List AdherenceScore}
    (h : current.filter (·.key.periodType = .day) = scores.filter (·.key.periodType = .day)) :
    (runStatements (sts.map (·.rows zones w)) current).1 =
      (accepted zones w sts scores).flatMap (·.rows zones w scores) := by
  induction sts generalizing current with
  | nil => rfl
  | cons st sts ih =>
    have hrows := rows_congr zones w st h
    have ih := ih ((filter_upsertAll_rows zones w st current).trans h)
    simp only [accepted, map_cons, runStatements, takeWhile_cons, hrows] at ih ⊢
    split
    · rw [flatMap_cons, ← ih]
    · rfl

/-! ## Whole periods -/

/-- The counters of a written row are the sums over all the employee's stored rows of days that are
in its week or month and before the end of the window. -/
def Whole (zones : String → Zone) (timezoneOf : ℕ → ℕ → String) (w : Window)
    (scores : List AdherenceScore) (r : AdherenceScore) : Prop :=
  let zone := zones (timezoneOf r.key.tenantId r.key.employeeId)
  ∀ p : RollupPeriod, r.key.periodType = p.periodType →
    r.counts = sumCounts (scores.filter fun x => x.isDayOf r.key.tenantId r.key.employeeId &&
      x.periodStart p zone = zone.localDay r.key.periodStart && x.key.periodStart < w.fin)

/-- The statement leaves out nothing: where it reads a row of a day, the rows of days of the same
employee and the same period that are before the window have counters 0. -/
def CutsNothing (zones : String → Zone) (w : Window) (scores : List AdherenceScore)
    (st : Statement) : Prop :=
  ∀ employeeId ∈ st.employeeIds, ∀ y ∈ windowRows w scores st.tenantId employeeId, ∀ x ∈ scores,
    x.isDayOf st.tenantId employeeId = true → x.key.periodStart < w.start →
    x.periodStart st.period (zones st.timezone) = y.periodStart st.period (zones st.timezone) →
    x.counts = ⟨0, 0, 0⟩

/-- A sum over the rows from the start of the window on is the sum over all rows exactly when the
earlier rows add nothing. -/
theorem sum_filter_window_eq_iff (rows : List AdherenceScore) (f : AdherenceScore → ℕ) :
    ((rows.filter fun x => w.start ≤ x.key.periodStart).map f).sum = (rows.map f).sum ↔
      ∀ x ∈ rows, x.key.periodStart < w.start → f x = 0 := by
  rw [← sum_filter_split (fun x : AdherenceScore => w.start ≤ x.key.periodStart) f rows,
    left_eq_add, sum_eq_zero_iff]
  simp only [mem_map, mem_filter, Bool.not_eq_true', decide_eq_false_iff_not, not_le]
  constructor
  · intro h x hx hlt
    exact h _ ⟨x, ⟨hx, hlt⟩, rfl⟩
  · rintro h _ ⟨x, ⟨hx, hlt⟩, rfl⟩
    exact h x hx hlt

theorem sumCounts_filter_window_eq_iff (rows : List AdherenceScore) :
    sumCounts (rows.filter fun x => w.start ≤ x.key.periodStart) = sumCounts rows ↔
      ∀ x ∈ rows, x.key.periodStart < w.start → x.counts = ⟨0, 0, 0⟩ := by
  simp only [sumCounts, ScoreCounts.mk.injEq, sum_filter_window_eq_iff]
  constructor
  · rintro ⟨h₁, h₂, h₃⟩ x hx hlt
    have h := And.intro (h₁ x hx hlt) (And.intro (h₂ x hx hlt) (h₃ x hx hlt))
    cases hc : x.counts with
    | mk a b c => simpa [hc] using h
  · intro h
    refine ⟨fun x hx hlt => ?_, fun x hx hlt => ?_, fun x hx hlt => ?_⟩ <;> rw [h x hx hlt]

variable {tenantId employeeId : ℕ}

/-- The rows of days of a period up to the end of the window are those in the window and those
before it. -/
theorem sumCounts_windowRows_eq_iff {p : RollupPeriod} {zone : Zone} {start : ℤ}
    (hw : w.start ≤ w.fin) :
    sumCounts ((windowRows w scores tenantId employeeId).filter (·.periodStart p zone = start)) =
        sumCounts (scores.filter fun x => x.isDayOf tenantId employeeId &&
          x.periodStart p zone = start && x.key.periodStart < w.fin) ↔
      ∀ x ∈ scores, x.isDayOf tenantId employeeId = true → x.key.periodStart < w.start →
        x.periodStart p zone = start → x.counts = ⟨0, 0, 0⟩ := by
  have hin : (windowRows w scores tenantId employeeId).filter (·.periodStart p zone = start) =
      (scores.filter fun x => x.isDayOf tenantId employeeId && x.periodStart p zone = start &&
        x.key.periodStart < w.fin).filter fun x => w.start ≤ x.key.periodStart := by
    rw [windowRows, filter_filter, filter_filter]
    refine filter_congr fun x _ => ?_
    ac_rfl
  rw [hin, sumCounts_filter_window_eq_iff]
  simp only [mem_filter, Bool.and_eq_true, decide_eq_true_eq]
  constructor
  · intro h x hx hof hlt hper
    exact h x ⟨hx, ⟨hof, hper⟩, hlt.trans_le hw⟩ hlt
  · rintro h x ⟨hx, ⟨hof, hper⟩, -⟩ hlt
    exact h x hx hof hlt hper

theorem window_le_of_mem {y : AdherenceScore} (hy : y ∈ windowRows w scores tenantId employeeId) :
    w.start ≤ w.fin := by
  simp only [windowRows, mem_filter, Bool.and_eq_true, decide_eq_true_eq] at hy
  omega

theorem periodType_injective {p p' : RollupPeriod} (h : p.periodType = p'.periodType) : p = p' := by
  cases p <;> cases p' <;> first | rfl | cases h

/-- A row of a statement is whole exactly when nothing of its period was cut. -/
theorem whole_periodRow_iff {timezoneOf : ℕ → ℕ → String} {timezone : String}
    (htz : timezoneOf tenantId employeeId = timezone) {p : RollupPeriod} {start : ℤ}
    (hw : w.start ≤ w.fin) :
    Whole zones timezoneOf w scores (periodRow p (zones timezone) tenantId employeeId start
        ((windowRows w scores tenantId employeeId).filter
          (·.periodStart p (zones timezone) = start))) ↔
      ∀ x ∈ scores, x.isDayOf tenantId employeeId = true → x.key.periodStart < w.start →
        x.periodStart p (zones timezone) = start → x.counts = ⟨0, 0, 0⟩ := by
  rw [← sumCounts_windowRows_eq_iff hw]
  simp only [Whole, periodRow, htz, Zone.localDay_dayStart]
  constructor
  · intro h
    exact h p rfl
  · intro h p' hp
    obtain rfl := periodType_injective hp
    exact h

theorem timezone_of_mem_statements {timezoneOf : ℕ → ℕ → String}
    {arrange : List (ℕ × ℕ) → List (ℕ × ℕ)} {st : Statement}
    (h : st ∈ statements w timezoneOf arrange scores) {employeeId : ℕ}
    (he : employeeId ∈ st.employeeIds) : timezoneOf st.tenantId employeeId = st.timezone := by
  obtain ⟨⟨tenantId, timezone, employeeIds⟩, hgroup, hst⟩ := mem_flatMap.1 h
  rcases mem_cons.1 hst with rfl | hst
  · exact (mem_statementGroups hgroup he).2
  · obtain rfl := mem_singleton.1 hst
    exact (mem_statementGroups hgroup he).2

/-- **A tick writes sums of whole weeks and months exactly when it cuts nothing that counts.** For
all stored rows, timezones and tick times, and in whatever order the employees are found: every row
of a week or month that the tick writes has the sums over all the employee's rows of days of that
week or month before the end of the window, if and only if, for every statement that runs and every
period it reads a row of a day of, the rows of days of the period before the window have counters
0. -/
theorem written_whole_iff (trailingDays : ℤ) (zones : String → Zone) (now : ℤ)
    (timezoneOf : ℕ → ℕ → String) (arrange : List (ℕ × ℕ) → List (ℕ × ℕ))
    (scores : List AdherenceScore) :
    (∀ r ∈ (rollupTrailingWindow trailingDays zones now timezoneOf arrange scores).1,
      Whole zones timezoneOf (window trailingDays now) scores r) ↔
    ∀ st ∈ accepted zones (window trailingDays now)
        (statements (window trailingDays now) timezoneOf arrange scores) scores,
      CutsNothing zones (window trailingDays now) scores st := by
  generalize hw : window trailingDays now = w
  have hwritten : (rollupTrailingWindow trailingDays zones now timezoneOf arrange scores).1 =
      (accepted zones w (statements w timezoneOf arrange scores) scores).flatMap
        (·.rows zones w scores) := by
    rw [rollupTrailingWindow, hw]
    exact runStatements_written _ rfl
  have htz : ∀ st ∈ accepted zones w (statements w timezoneOf arrange scores) scores,
      ∀ employeeId ∈ st.employeeIds, timezoneOf st.tenantId employeeId = st.timezone :=
    fun st hst _ he => timezone_of_mem_statements ((takeWhile_sublist _).subset hst) he
  rw [hwritten]
  constructor
  · intro h st hst employeeId he y hy
    have hrow := h _ (mem_flatMap.2 ⟨st, hst, mem_rows.2 ⟨employeeId, he, y, hy, rfl⟩⟩)
    exact (whole_periodRow_iff (htz st hst employeeId he) (window_le_of_mem hy)).1 hrow
  · intro h r hr
    obtain ⟨st, hst, hr⟩ := mem_flatMap.1 hr
    obtain ⟨employeeId, he, y, hy, rfl⟩ := mem_rows.1 hr
    have hcut := h st hst employeeId he y hy
    exact (whole_periodRow_iff (htz st hst employeeId he) (window_le_of_mem hy)).2 hcut

/-- The rows of Saturday 2025-12-27 and Sunday 2025-12-28, in UTC. -/
def weekendRows : List AdherenceScore :=
  [⟨⟨7, 40, .day, 20449 * microsPerDay⟩, 20450 * microsPerDay, ⟨20000, 28800, 2⟩, some 6944⟩,
    ⟨⟨7, 40, .day, 20450 * microsPerDay⟩, 20451 * microsPerDay, ⟨10000, 14400, 1⟩, some 6944⟩]

/-- At 2026-02-05 01:30 UTC the window starts on Sunday 2025-12-28, and the tick writes the week of
2025-12-22 and December 2025 from that one day. -/
theorem window_cuts_week_and_month :
    ∃ r ∈ (rollupTrailingWindow 35 (fun _ => .ofOffset 0) ((20489 * 86400 + 5400) * microsPerSecond)
        (fun _ _ => "UTC") id weekendRows).1,
      ¬ Whole (fun _ => .ofOffset 0) (fun _ _ => "UTC")
        (window 35 ((20489 * 86400 + 5400) * microsPerSecond)) weekendRows r := by
  refine ⟨_, mem_cons_self, fun h => ?_⟩
  have hweek := h .week rfl
  revert hweek
  decide

end WeeklyMonthly

end Workforce.Adherence
