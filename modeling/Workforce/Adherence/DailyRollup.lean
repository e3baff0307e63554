import Mathlib.Data.List.Sort
import Workforce.Adherence.Scores
import Workforce.Foundations.Runs

/-!
# The daily adherence rollup

`AdherenceDailyRollupJobService.rollupTrailingWindow` over the tables `adherence_event`, to which
events are only ever added, and `adherence_score`.

A tick is one step: an event that arrives while it runs counts as arriving before or after it. It
scans the events of a window of instants, by employee in the order of their timestamps,
attributes to each event the time until the next one or the end of its local day, and writes a row
for every local day it has scanned an event of. `DailyConvergence` says when the rows are right.

What the database does not fix is taken from the action: the order of events with one timestamp
(`rank`) and the order in which the active employees are found. So is the timezone that the
resolver gives an employee, which falls back to UTC when a service does not answer.
-/

namespace Workforce.Adherence

open Tables

/-- A row of `adherence_event`, with the columns the job reads. -/
structure AdherenceEvent where
  id : ℕ
  tenantId : ℕ
  employeeId : ℕ
  timestamp : ℤ
  scheduledActivity : Option String

def AdherenceEvent.isAdherent (e : AdherenceEvent) : Bool := e.scheduledActivity = some "on_shift"

/-- The event is of this employee. -/
def AdherenceEvent.isOf (tenantId employeeId : ℕ) (e : AdherenceEvent) : Bool :=
  e.tenantId = tenantId && e.employeeId = employeeId

structure RollupConfig where
  trailingDays : ℤ
  majorDeviationThresholdSeconds : ℤ

/-! ## `DAILY_ROLLUP_SQL` -/

/-- A row of the CTE `segments`. -/
structure Segment where
  localDay : ℤ
  micros : ℕ
  isAdherent : Bool

/-- The time from an event to the next one, or to the end of its local day if that is earlier. -/
def segmentMicros (zone : Zone) (timestamp : ℤ) (nextTimestamp : Option ℤ) : ℕ :=
  (min (nextTimestamp.getD (zone.dayEnd timestamp)) (zone.dayEnd timestamp) - timestamp).toNat

/-- The segments of an employee's events, which are in the order of the window function: the next
timestamp is that of the next event. -/
def segments (zone : Zone) : List AdherenceEvent → List Segment
  | [] => []
  | e :: events =>
    { localDay := zone.localDay e.timestamp
      micros := segmentMicros zone e.timestamp (events.head?.map (·.timestamp))
      isAdherent := e.isAdherent } :: segments zone events

/-- `ORDER BY "timestamp"`; events with one timestamp come in any order, here by `rank`. -/
def Before (rank : ℕ → ℕ) (e e' : AdherenceEvent) : Prop :=
  e.timestamp < e'.timestamp ∨ e.timestamp = e'.timestamp ∧ rank e.id ≤ rank e'.id
  deriving Decidable

/-- The events of an employee that the statement reads. -/
def scanned (events : List AdherenceEvent) (tenantId employeeId : ℕ) (scanStart scanEnd : ℤ)
    (rank : ℕ → ℕ) : List AdherenceEvent :=
  (events.filter fun e => e.isOf tenantId employeeId && scanStart ≤ e.timestamp &&
    e.timestamp < scanEnd).insertionSort (Before rank)

/-- The row of a local day, from its segments. -/
def dayRow (config : RollupConfig) (zone : Zone) (tenantId employeeId : ℕ) (day : ℤ)
    (segs : List Segment) : AdherenceScore :=
  let adherentMicros := ((segs.filter (·.isAdherent)).map (·.micros)).sum
  let totalMicros := (segs.map (·.micros)).sum
  { key := ⟨tenantId, employeeId, .day, zone.dayStart day⟩
    periodEnd := zone.dayStart (day + 1)
    counts :=
      { adherentSeconds := adherentMicros / microsPerSecond.toNat
        totalScheduledSeconds := totalMicros / microsPerSecond.toNat
        majorDeviationCount := segs.countP fun seg =>
          !seg.isAdherent && config.majorDeviationThresholdSeconds * microsPerSecond ≤ seg.micros }
    adherencePct := percent adherentMicros totalMicros }

/-- The rows of an employee: one for each local day of the segments. -/
def employeeRows (config : RollupConfig) (zone : Zone) (tenantId employeeId : ℕ)
    (segs : List Segment) : List AdherenceScore :=
  (segs.map (·.localDay)).eraseDups.map fun day =>
    dayRow config zone tenantId employeeId day (segs.filter (·.localDay = day))

/-- The rows that `DAILY_ROLLUP_SQL` inserts or replaces. -/
def dailyRollup (config : RollupConfig) (zone : Zone) (events : List AdherenceEvent)
    (tenantId : ℕ) (employeeIds : List ℕ) (scanStart scanEnd : ℤ) (rank : ℕ → ℕ) :
    List AdherenceScore :=
  employeeIds.flatMap fun employeeId =>
    employeeRows config zone tenantId employeeId
      (segments zone (scanned events tenantId employeeId scanStart scanEnd rank))

/-! ## The tick -/

/-- The events, and the scores computed of them. -/
structure RollupState where
  events : List AdherenceEvent
  scores : List AdherenceScore

/-- A tick reads the events from here on. -/
def scanStart (config : RollupConfig) (now : ℤ) : ℤ :=
  now - (config.trailingDays + 1) * microsPerDay

def scanEnd (now : ℤ) : ℤ := now + microsPerDay

/-- `DISTINCT_ACTIVE_EMPLOYEES_SQL`. -/
def activeEmployees (config : RollupConfig) (now : ℤ) (events : List AdherenceEvent) :
    List (ℕ × ℕ) :=
  ((events.filter fun e => scanStart config now ≤ e.timestamp && e.timestamp < scanEnd now).map
    fun e => (e.tenantId, e.employeeId)).eraseDups

/-- The table after `rollupTrailingWindow`, when `rows` are the active employees as found. -/
def rollupTrailingWindow (config : RollupConfig) (zones : String → Zone) (now : ℤ)
    (timezoneOf : ℕ → ℕ → String) (rows : List (ℕ × ℕ)) (rank : ℕ → ℕ) (s : RollupState) :
    List AdherenceScore :=
  (runStatements ((statementGroups rows timezoneOf).map fun (tenantId, timezone, employeeIds) _ =>
    dailyRollup config (zones timezone) s.events tenantId employeeIds (scanStart config now)
      (scanEnd now) rank) s.scores).2

inductive RollupAction
  | arrive (event : AdherenceEvent)
  | tick (now : ℤ) (timezoneOf : ℕ → ℕ → String) (rows : List (ℕ × ℕ)) (rank : ℕ → ℕ)

/-- An event arrives, or a tick runs; `rows` lists the active employees in some order. -/
def rollupStep (config : RollupConfig) (zones : String → Zone) (s : RollupState) :
    RollupAction → Option RollupState
  | .arrive event => some { s with events := s.events ++ [event] }
  | .tick now timezoneOf rows rank =>
    if rows.Perm (activeEmployees config now s.events) then
      some { s with scores := rollupTrailingWindow config zones now timezoneOf rows rank s }
    else none

end Workforce.Adherence
