import Workforce.Foundations.Calendar
import Workforce.Foundations.Runs
import Workforce.Foundations.Tables

/-!
# The engagement score

`MarketplaceEngagementService.recordEvent` for one employee. A call is a transaction that makes
sure of the row of `marketplace_engagement_score`, locks it, reads it, writes the new totals and
appends a row to the ledger `marketplace_engagement_event`. The transactions of several calls are
interleaved statement by statement; the database keeps a row that one has locked or inserted from
the others until that one ends, and an end undoes what it does not commit. `recordFailedAttempt`,
the other writer of the table, may create the row and changes none of the totals.

The days are those on which the service says that it is `today`, on any clock. The last one is a
`date` of the database, and what the driver makes of it is a parameter: its text, which the code
expects, or a `Date` at midnight in the timezone of the process, which `pg` gives.

* `tallied_of_exec`: points and badges are always what the ledger says.
* `score_exact_iff`: in all states of a run the streak is the number of consecutive days up to the
  last one, too, exactly when every commit of the run keeps the streak.
* `same_day_resets_streak`: a second event on the second day of a streak makes it 1.
-/

namespace Workforce.Marketplace

open Calendar Runs Tables List

inductive EngagementEventType
  | claimApproved | swapExecuted

inductive Badge
  | firstFill | teamPlayer | weekStreak | monthStreak | centuryClub | marketplaceChampion
  deriving DecidableEq

/-- `STREAK_BADGE_THRESHOLDS`. -/
def streakBadgeThresholds : List (ℕ × Badge) := [(7, .weekStreak), (30, .monthStreak)]

/-- `POINTS_BADGE_THRESHOLDS`. -/
def pointsBadgeThresholds : List (ℤ × Badge) := [(100, .centuryClub), (500, .marketplaceChampion)]

/-- `FIRST_EVENT_BADGE`. -/
def firstEventBadge : EngagementEventType → Badge
  | .claimApproved => .firstFill
  | .swapExecuted => .teamPlayer

/-- The row of `marketplace_engagement_score`, with the columns that the service reads. Dates are
days since 1970-01-01. -/
structure ScoreRow where
  points : ℤ
  streakDays : ℕ
  badges : List Badge
  lastEngagementDate : Option ℤ

/-- The row as it is inserted. -/
def freshRow : ScoreRow := ⟨0, 0, [], none⟩

/-- A row of `marketplace_engagement_event`, and the day that the service recorded it on. -/
structure EngagementEvent where
  eventType : EngagementEventType
  referenceId : ℕ
  pointsDelta : ℤ
  streakDaysAfter : ℕ
  badgesAwarded : List Badge
  day : ℤ

/-! ## Dates, as the service gets them -/

def millisPerHour : ℤ := 3600000

def millisPerDay : ℤ := 24 * millisPerHour

/-- A date of the database in the process: its text, or a `Date`. -/
inductive DateValue
  | text (day : ℤ)
  | instant (millis : ℤ)
  deriving DecidableEq

/-- `Date.parse`. -/
def DateValue.parse : DateValue → ℤ
  | .text day => day * millisPerDay
  | .instant millis => millis

/-- The timezone of the process: how far its midnight is ahead of that of UTC, for each date. -/
structure ProcessZone where
  offset : ℤ → ℤ
  neg_le_offset : ∀ d, -(12 * millisPerHour) ≤ offset d
  offset_le : ∀ d, offset d ≤ 14 * millisPerHour

def ProcessZone.utc : ProcessZone := ⟨fun _ => 0, fun _ => by decide, fun _ => by decide⟩

/-- What the driver makes of a column of type `date`. -/
inductive DateDriver
  | text
  | localMidnight (zone : ProcessZone)

def DateDriver.read : DateDriver → ℤ → DateValue
  | .text, day => .text day
  | .localMidnight zone, day => .instant (day * millisPerDay - zone.offset day)

/-- `Math.round` of the days between a date and today. -/
def diffDays (last : DateValue) (today : ℤ) : ℤ :=
  (2 * (today * millisPerDay - last.parse) + millisPerDay) / (2 * millisPerDay)

/-- It grows on the day after the last one, stays on the same day, or starts again. -/
def nextStreak (lastEngagementDate : Option DateValue) (today : ℤ) (currentStreak : ℕ) : ℕ :=
  match lastEngagementDate with
  | none => 1
  | some last =>
    if last = .text today then if currentStreak = 0 then 1 else currentStreak
    else if diffDays last today = 1 then currentStreak + 1
    else 1

/-! ## `awardBadges` and `applyEvent` -/

/-- The badges so far and the newly awarded ones, after `maybeAward`. -/
def maybeAward (badges : List Badge × List Badge) (badge : Badge) : List Badge × List Badge :=
  if badge ∈ badges.1 then badges else (badges.1 ++ [badge], badges.2 ++ [badge])

def awardBadges (existing : List Badge) (eventType : EngagementEventType) (points : ℤ)
    (streakDays : ℕ) : List Badge × List Badge :=
  let first := maybeAward (existing.eraseDups, []) (firstEventBadge eventType)
  let streak := (streakBadgeThresholds.filter (·.1 ≤ streakDays)).foldl
    (fun badges threshold => maybeAward badges threshold.2) first
  (pointsBadgeThresholds.filter (·.1 ≤ points)).foldl
    (fun badges threshold => maybeAward badges threshold.2) streak

structure RecordEngagementEventInput where
  eventType : EngagementEventType
  referenceId : ℕ

/-- The new row and the row of the ledger. -/
def applyEvent (driver : DateDriver) (pointsByEventType : EngagementEventType → ℤ)
    (row : ScoreRow) (input : RecordEngagementEventInput) (today : ℤ) :
    ScoreRow × EngagementEvent :=
  let pointsDelta := pointsByEventType input.eventType
  let newPoints := row.points + pointsDelta
  let newStreak := nextStreak (row.lastEngagementDate.map driver.read) today row.streakDays
  let (newBadges, newlyAwarded) := awardBadges row.badges input.eventType newPoints newStreak
  (⟨newPoints, newStreak, newBadges, some today⟩,
    ⟨input.eventType, input.referenceId, pointsDelta, newStreak, newlyAwarded, today⟩)

/-- The columns are of type `integer`, and a check keeps the totals from being negative. -/
def ScoreRow.storable (row : ScoreRow) : Bool :=
  0 ≤ row.points && row.points < 2 ^ 31 && row.streakDays < 2 ^ 31

def EngagementEvent.storable (event : EngagementEvent) : Bool :=
  -2 ^ 31 ≤ event.pointsDelta && event.pointsDelta < 2 ^ 31 && event.streakDaysAfter < 2 ^ 31

/-! ## The transactions -/

/-- How far a transaction has come: the row exists or is inserted, the row is locked and read, the
new totals are written, the ledger has the event as well. -/
inductive Stage
  | started
  | ensured
  | selected (row : ScoreRow)
  | updated (row : ScoreRow) (event : EngagementEvent)
  | recorded (row : ScoreRow) (event : EngagementEvent)

structure EngagementTxn where
  input : RecordEngagementEventInput
  stage : Stage

/-- The committed rows, the transaction that holds the row of the score, and the transactions. -/
structure EngagementState where
  score : Option ScoreRow
  ledger : List EngagementEvent
  lock : Option ℕ
  txns : ℕ → Option EngagementTxn

def EngagementState.empty : EngagementState := ⟨none, [], none, fun _ => none⟩

/-- The committed row, or the one that is inserted in its place. -/
def EngagementState.row (s : EngagementState) : ScoreRow := s.score.getD freshRow

def EngagementState.setTxn (s : EngagementState) (t : ℕ) (txn : Option EngagementTxn) :
    EngagementState :=
  { s with txns := Function.update s.txns t txn }

inductive EngagementAction
  | start (t : ℕ) (input : RecordEngagementEventInput)
  | ensureRow (t : ℕ)
  | selectForUpdate (t : ℕ)
  | update (t : ℕ) (today : ℤ)
  | insertEvent (t : ℕ)
  | commit (t : ℕ)
  | rollback (t : ℕ)
  | failedAttempt

/-- A statement of a transaction, or its end. `none`: the action is not possible, or waits. -/
def engagementStep (driver : DateDriver) (pointsByEventType : EngagementEventType → ℤ)
    (s : EngagementState) : EngagementAction → Option EngagementState
  | .start t input =>
    if s.txns t = none then some (s.setTxn t (some ⟨input, .started⟩)) else none
  | .ensureRow t =>
    match s.txns t with
    | some ⟨input, .started⟩ =>
      if s.score ≠ none then some (s.setTxn t (some ⟨input, .ensured⟩))
      else if s.lock = none then
        some ({ s with lock := some t }.setTxn t (some ⟨input, .ensured⟩))
      else none
    | _ => none
  | .selectForUpdate t =>
    match s.txns t with
    | some ⟨input, .ensured⟩ =>
      if s.lock = none ∨ s.lock = some t then
        some ({ s with lock := some t }.setTxn t (some ⟨input, .selected s.row⟩))
      else none
    | _ => none
  | .update t today =>
    match s.txns t with
    | some ⟨input, .selected row⟩ =>
      let (newRow, event) := applyEvent driver pointsByEventType row input today
      if newRow.storable then some (s.setTxn t (some ⟨input, .updated newRow event⟩)) else none
    | _ => none
  | .insertEvent t =>
    match s.txns t with
    | some ⟨input, .updated row event⟩ =>
      if event.storable then some (s.setTxn t (some ⟨input, .recorded row event⟩)) else none
    | _ => none
  | .commit t =>
    match s.txns t with
    | some ⟨_, .recorded row event⟩ =>
      some ({ s with score := some row, ledger := s.ledger ++ [event], lock := none }.setTxn t none)
    | _ => none
  | .rollback t =>
    match s.txns t with
    | some _ => some ({ s with lock := if s.lock = some t then none else s.lock }.setTxn t none)
    | none => none
  | .failedAttempt => if s.lock = none then some { s with score := some s.row } else none

/-! ## The property -/

/-- The days of the ledger. -/
def engagementDays (ledger : List EngagementEvent) : List ℤ := ledger.map (·.day)

/-- Points are what the ledger adds up to, and badges what it has awarded, each of them once. -/
structure Tallied (row : ScoreRow) (ledger : List EngagementEvent) : Prop where
  points_eq : row.points = (ledger.map (·.pointsDelta)).sum
  badges_eq : row.badges = ledger.flatMap (·.badgesAwarded)
  badges_nodup : row.badges.Nodup

instance (row : ScoreRow) (ledger : List EngagementEvent) : Decidable (Tallied row ledger) :=
  decidable_of_iff (row.points = (ledger.map (·.pointsDelta)).sum ∧
      row.badges = ledger.flatMap (·.badgesAwarded) ∧ row.badges.Nodup)
    ⟨fun ⟨hp, hb, hn⟩ => ⟨hp, hb, hn⟩, fun h => ⟨h.points_eq, h.badges_eq, h.badges_nodup⟩⟩

/-- The streak is the number of consecutive days with an event up to the last one, which is one. -/
def StreakExact (row : ScoreRow) (ledger : List EngagementEvent) : Prop :=
  match row.lastEngagementDate with
  | none => ledger = [] ∧ row.streakDays = 0
  | some last => last ∈ engagementDays ledger ∧
      ConsecutiveDays (engagementDays ledger) last row.streakDays

theorem streakExact_of_none {row : ScoreRow} {ledger : List EngagementEvent}
    (h : row.lastEngagementDate = none) :
    StreakExact row ledger ↔ ledger = [] ∧ row.streakDays = 0 := by
  rw [StreakExact, h]

theorem streakExact_of_some {row : ScoreRow} {ledger : List EngagementEvent} {last : ℤ}
    (h : row.lastEngagementDate = some last) :
    StreakExact row ledger ↔ last ∈ engagementDays ledger ∧
      ConsecutiveDays (engagementDays ledger) last row.streakDays := by
  rw [StreakExact, h]

instance (row : ScoreRow) (ledger : List EngagementEvent) : Decidable (StreakExact row ledger) :=
  match h : row.lastEngagementDate with
  | none => decidable_of_iff _ (streakExact_of_none h).symm
  | some _ => decidable_of_iff _ (streakExact_of_some h).symm

/-- The row of the score is what its ledger says. -/
def ScoreExact (row : ScoreRow) (ledger : List EngagementEvent) : Prop :=
  Tallied row ledger ∧ StreakExact row ledger
  deriving Decidable

/-- Of two states of the run, the later one has the badges of the earlier one, and any new ones
after them. -/
def BadgesGrow (step : EngagementState → EngagementAction → Option EngagementState)
    (s : EngagementState) (as : List EngagementAction) : Prop :=
  ∀ bs cs u v, bs ++ cs <+: as → exec step s bs = some u → exec step u cs = some v →
    u.row.badges <+: v.row.badges

/-! ## The condition -/

/-- An event on this day keeps the streak that ended on the last one: it is the next day, or there
is no event the day before; with the text of the last date it may be the same day too. In a process
whose midnight is half a day or more ahead of UTC, the next day does not count as such, and the same
day does. -/
def DateDriver.Keeps : DateDriver → ℤ → ℤ → List ℤ → Prop
  | .text, last, day, days => day = last ∨ day = last + 1 ∨ day - 1 ∉ days
  | .localMidnight zone, last, day, days =>
    if zone.offset last < 12 * millisPerHour then day = last + 1 ∨ day - 1 ∉ days
    else day ≠ last ∧ day - 1 ∉ days

instance (driver : DateDriver) (last day : ℤ) (days : List ℤ) :
    Decidable (driver.Keeps last day days) :=
  match driver with
  | .text => inferInstanceAs (Decidable (day = last ∨ day = last + 1 ∨ day - 1 ∉ days))
  | .localMidnight zone =>
    inferInstanceAs (Decidable (if zone.offset last < 12 * millisPerHour then
      day = last + 1 ∨ day - 1 ∉ days else day ≠ last ∧ day - 1 ∉ days))

/-- The first event, or one that keeps the streak. -/
def KeepsStreak (driver : DateDriver) (row : ScoreRow) (ledger : List EngagementEvent) (day : ℤ) :
    Prop :=
  ∀ last ∈ row.lastEngagementDate, driver.Keeps last day (engagementDays ledger)
  deriving Decidable

/-- The event that an action commits. -/
def EngagementState.committedBy (s : EngagementState) : EngagementAction → Option EngagementEvent
  | .commit t =>
    match s.txns t with
    | some ⟨_, .recorded _ event⟩ => some event
    | _ => none
  | _ => none

/-- An event that is committed keeps the streak. -/
def CommitKeeps (driver : DateDriver) (s : EngagementState) (a : EngagementAction) : Prop :=
  ∀ event ∈ s.committedBy a, KeepsStreak driver s.row s.ledger event.day
  deriving Decidable

/-! ## One event -/

section Event

variable {driver : DateDriver} {pointsByEventType : EngagementEventType → ℤ} {row : ScoreRow}
  {ledger : List EngagementEvent} {input : RecordEngagementEventInput} {today : ℤ}

/-- The badges are the existing ones and the newly awarded ones, none of them twice. -/
def Awarded (existing : List Badge) (badges : List Badge × List Badge) : Prop :=
  badges.1 = existing ++ badges.2 ∧ badges.1.Nodup

variable {existing : List Badge}

theorem Awarded.maybeAward {badges : List Badge × List Badge} (h : Awarded existing badges)
    (badge : Badge) : Awarded existing (maybeAward badges badge) := by
  unfold Marketplace.maybeAward
  split
  · exact h
  · rename_i hnew
    refine ⟨by rw [h.1, append_assoc], ?_⟩
    exact nodup_append.2 ⟨h.2, nodup_singleton _, fun b hb b' hb' heq => hnew
      (mem_singleton.1 hb' ▸ heq ▸ hb)⟩

theorem Awarded.foldl {τ : Type} {badges : List Badge × List Badge} (h : Awarded existing badges)
    (thresholds : List (τ × Badge)) :
    Awarded existing (thresholds.foldl (fun badges threshold =>
      Marketplace.maybeAward badges threshold.2) badges) := by
  induction thresholds generalizing badges with
  | nil => exact h
  | cons threshold thresholds ih => exact ih (h.maybeAward threshold.2)

theorem awarded_awardBadges (h : existing.Nodup) (eventType : EngagementEventType) (points : ℤ)
    (streakDays : ℕ) :
    Awarded existing (awardBadges existing eventType points streakDays) := by
  have hstart : Awarded existing (existing.eraseDups, []) := by
    rw [eraseDups_of_nodup h]
    exact ⟨(append_nil _).symm, h⟩
  exact ((hstart.maybeAward _).foldl _).foldl _

theorem Tallied.applyEvent (h : Tallied row ledger) :
    Tallied (applyEvent driver pointsByEventType row input today).1
      (ledger ++ [(applyEvent driver pointsByEventType row input today).2]) := by
  obtain ⟨hbadges, hnodup⟩ := awarded_awardBadges h.badges_nodup input.eventType
    (row.points + pointsByEventType input.eventType)
    (nextStreak (row.lastEngagementDate.map driver.read) today row.streakDays)
  refine ⟨?_, ?_, hnodup⟩
  · simp [Marketplace.applyEvent, h.points_eq]
  · rw [flatMap_append, ← h.badges_eq]
    simpa [Marketplace.applyEvent] using hbadges

theorem badges_prefix_applyEvent (h : row.badges.Nodup) :
    row.badges <+: (applyEvent driver pointsByEventType row input today).1.badges := by
  obtain ⟨hbadges, -⟩ := awarded_awardBadges h input.eventType
    (row.points + pointsByEventType input.eventType)
    (nextStreak (row.lastEngagementDate.map driver.read) today row.streakDays)
  exact ⟨_, hbadges.symm⟩

/-! ## The streak after an event -/

theorem nextStreak_text {last today : ℤ} {streak : ℕ} (hpos : 0 < streak) :
    nextStreak (some (.text last)) today streak =
      if today = last then streak else if today = last + 1 then streak + 1 else 1 := by
  have hdiff : diffDays (.text last) today = 1 ↔ today = last + 1 := by
    simp only [diffDays, DateValue.parse, millisPerDay, millisPerHour]
    omega
  simp only [nextStreak, hdiff, DateValue.text.injEq, hpos.ne', if_false, eq_comm (a := last)]

/-- A `Date` is never the same as the text of today. -/
theorem nextStreak_instant {millis today : ℤ} {streak : ℕ} :
    nextStreak (some (.instant millis)) today streak =
      if diffDays (.instant millis) today = 1 then streak + 1 else 1 := by
  simp [nextStreak]

theorem diffDays_localMidnight (zone : ProcessZone) (last today : ℤ) :
    diffDays ((DateDriver.localMidnight zone).read last) today =
      if zone.offset last < 12 * millisPerHour then today - last else today - last + 1 := by
  have hlow := zone.neg_le_offset last
  have hhigh := zone.offset_le last
  have hparse : ((DateDriver.localMidnight zone).read last).parse =
    last * millisPerDay - zone.offset last := rfl
  rw [diffDays, hparse]
  unfold millisPerDay millisPerHour at *
  split
  · omega
  · omega

/-- A day that is added is a run of its own when the day before it is not there. -/
theorem consecutiveDays_one_iff {days : List ℤ} {today : ℤ} :
    ConsecutiveDays (days ++ [today]) today 1 ↔ today - 1 ∉ days :=
  consecutiveDays_append.trans consecutiveDays_zero

/-- What `nextStreak` makes of a streak that is exact, and when that is exact again. -/
theorem consecutiveDays_nextStreak_iff {days : List ℤ} {last : ℤ} {streak : ℕ}
    (hmem : last ∈ days) (hstreak : ConsecutiveDays days last streak) :
    ConsecutiveDays (days ++ [today]) today
        (nextStreak (some (driver.read last)) today streak) ↔
      driver.Keeps last today days := by
  have hpos : 0 < streak := by
    refine Nat.pos_of_ne_zero fun hzero => ?_
    rw [hzero, consecutiveDays_zero] at hstreak
    exact hstreak hmem
  -- The next day makes the streak one longer, and the same day leaves it.
  have hnext : today = last + 1 → ConsecutiveDays (days ++ [today]) today (streak + 1) := by
    rintro rfl
    rw [consecutiveDays_append, add_sub_cancel_right]
    exact hstreak
  have hsame : today = last → ConsecutiveDays (days ++ [today]) today streak := by
    rintro rfl
    exact (consecutiveDays_append_of_mem hmem).2 hstreak
  cases driver with
  | text =>
    rw [DateDriver.read, nextStreak_text hpos]
    simp only [DateDriver.Keeps]
    split_ifs with hsameDay hnextDay
    · exact iff_of_true (hsame hsameDay) (.inl hsameDay)
    · exact iff_of_true (hnext hnextDay) (.inr (.inl hnextDay))
    · rw [consecutiveDays_one_iff]
      tauto
  | localMidnight zone =>
    have hread : (DateDriver.localMidnight zone).read last =
      .instant (last * millisPerDay - zone.offset last) := rfl
    rw [hread, nextStreak_instant, ← hread, diffDays_localMidnight]
    simp only [DateDriver.Keeps]
    by_cases hzone : zone.offset last < 12 * millisPerHour
    · simp only [if_pos hzone]
      split_ifs with hone
      · have hday : today = last + 1 := by omega
        exact iff_of_true (hnext hday) (.inl hday)
      · rw [consecutiveDays_one_iff]
        have hday : today ≠ last + 1 := by omega
        tauto
    · simp only [if_neg hzone]
      split_ifs with hone
      · -- The same day counts as the next one.
        have hday : today = last := by omega
        refine iff_of_false (fun h => ?_) fun h => h.1 hday
        have := h.unique (hsame hday)
        omega
      · rw [consecutiveDays_one_iff]
        have hday : today ≠ last := by omega
        tauto

/-- An event keeps the streak exact when it keeps the streak. -/
theorem streakExact_applyEvent_iff (h : StreakExact row ledger) :
    StreakExact (applyEvent driver pointsByEventType row input today).1
        (ledger ++ [(applyEvent driver pointsByEventType row input today).2]) ↔
      KeepsStreak driver row ledger today := by
  have hdays : engagementDays (ledger ++
      [(applyEvent driver pointsByEventType row input today).2]) =
      engagementDays ledger ++ [today] := by
    simp [engagementDays, applyEvent]
  have hrow : StreakExact (applyEvent driver pointsByEventType row input today).1
        (ledger ++ [(applyEvent driver pointsByEventType row input today).2]) ↔
      ConsecutiveDays (engagementDays ledger ++ [today]) today
        (nextStreak (row.lastEngagementDate.map driver.read) today row.streakDays) := by
    rw [streakExact_of_some rfl, hdays]
    exact and_iff_right (by simp)
  rw [hrow]
  unfold KeepsStreak
  cases hlast : row.lastEngagementDate with
  | none =>
    obtain ⟨rfl, -⟩ := (streakExact_of_none hlast).1 h
    simp [nextStreak, engagementDays, ConsecutiveDays]
  | some last =>
    obtain ⟨hmem, hstreak⟩ := (streakExact_of_some hlast).1 h
    rw [Option.map_some, consecutiveDays_nextStreak_iff hmem hstreak]
    simp

end Event

/-! ## The transactions, one behind the other -/

section Txns

variable {driver : DateDriver} {pointsByEventType : EngagementEventType → ℤ}
  {s s' : EngagementState} {a : EngagementAction} {t : ℕ}

/-- What a transaction has at its stage: the row once it is ensured, and from its `SELECT` on the
lock, and what it has computed from the committed row. -/
def StageOk (driver : DateDriver) (pointsByEventType : EngagementEventType → ℤ)
    (s : EngagementState) (t : ℕ) (txn : EngagementTxn) : Prop :=
  match txn.stage with
  | .started => True
  | .ensured => s.score ≠ none ∨ s.lock = some t
  | .selected row => s.lock = some t ∧ row = s.row
  | .updated row event | .recorded row event => s.lock = some t ∧
      applyEvent driver pointsByEventType s.row txn.input event.day = (row, event)

/-- Every transaction is in order, and so are points and badges. -/
structure Consistent (driver : DateDriver) (pointsByEventType : EngagementEventType → ℤ)
    (s : EngagementState) : Prop where
  stageOk : ∀ t txn, s.txns t = some txn → StageOk driver pointsByEventType s t txn
  tallied : Tallied s.row s.ledger

theorem consistent_empty : Consistent driver pointsByEventType .empty where
  stageOk _ _ h := by cases h
  tallied := ⟨rfl, rfl, nodup_nil⟩

/-- A transaction stays in order while the row is the same and its lock is kept. -/
theorem StageOk.keep {txn : EngagementTxn} (h : StageOk driver pointsByEventType s t txn)
    (hrow : s'.row = s.row) (hscore : s.score ≠ none → s'.score ≠ none)
    (hlock : s.lock = some t → s'.lock = some t) : StageOk driver pointsByEventType s' t txn := by
  unfold StageOk at *
  split at h
  · trivial
  · exact h.imp hscore hlock
  · exact ⟨hlock h.1, hrow ▸ h.2⟩
  · exact ⟨hlock h.1, hrow ▸ h.2⟩
  · exact ⟨hlock h.1, hrow ▸ h.2⟩

theorem StageOk.of_not_holder {txn : EngagementTxn}
    (h : StageOk driver pointsByEventType s t txn) (hlock : s.lock ≠ some t)
    (hscore : s'.score ≠ none) : StageOk driver pointsByEventType s' t txn := by
  unfold StageOk at *
  split at h
  · trivial
  · exact .inl hscore
  · exact absurd h.1 hlock
  · exact absurd h.1 hlock
  · exact absurd h.1 hlock

theorem Consistent.setTxn {r : EngagementState} {txn : Option EngagementTxn}
    (htallied : Tallied r.row r.ledger) (htxns : r.txns = s.txns)
    (hothers : ∀ t' txn', t' ≠ t → s.txns t' = some txn' →
      StageOk driver pointsByEventType r t' txn')
    (hself : ∀ txn' ∈ txn, StageOk driver pointsByEventType r t txn') :
    Consistent driver pointsByEventType (r.setTxn t txn) := by
  refine ⟨fun t' txn' h => ?_, htallied⟩
  have hok : StageOk driver pointsByEventType r t' txn' := by
    by_cases heq : t' = t
    · subst heq
      exact hself txn' (by simpa [EngagementState.setTxn] using h)
    · refine hothers t' txn' heq ?_
      simpa [EngagementState.setTxn, Function.update_of_ne heq, htxns] using h
  exact hok.keep rfl id id

/-- What a step does: a transaction takes the lock, if need be, and comes to a stage at which it is
in order, or ends without a commit; or it commits; or a failed attempt makes sure of the row. -/
theorem engagementStep_cases (hs : Consistent driver pointsByEventType s)
    (h : engagementStep driver pointsByEventType s a = some s') :
    (∃ t txn lock, s.committedBy a = none ∧ s' = { s with lock := lock }.setTxn t txn ∧
      (∀ t', t' ≠ t → s.lock = some t' → lock = some t') ∧
      ∀ txn' ∈ txn, StageOk driver pointsByEventType { s with lock := lock } t txn') ∨
    (∃ t input row event, a = .commit t ∧ s.txns t = some ⟨input, .recorded row event⟩ ∧
      s' = { s with score := some row, ledger := s.ledger ++ [event], lock := none }.setTxn t
        none) ∨
    (a = .failedAttempt ∧ s' = { s with score := some s.row }) := by
  -- The lock is free, or this transaction's own.
  have hown : ∀ {t t' : ℕ} {l : Option ℕ}, s.lock = none ∨ s.lock = some t → t' ≠ t →
      s.lock = some t' → l = some t' := by
    intro t t' l hfree hne hlock
    rw [hlock] at hfree
    rcases hfree with hnone | hsome
    · cases hnone
    · exact absurd (Option.some.inj hsome) hne
  cases a with
  | start t input =>
    simp only [engagementStep] at h
    split at h
    · cases h
      refine .inl ⟨t, _, s.lock, rfl, rfl, fun _ _ => id, ?_⟩
      rintro txn ⟨⟩
      trivial
    · cases h
  | ensureRow t =>
    simp only [engagementStep] at h
    split at h
    · split at h
      · rename_i hscore
        cases h
        refine .inl ⟨t, _, s.lock, rfl, rfl, fun _ _ => id, ?_⟩
        rintro txn ⟨⟩
        exact .inl hscore
      · split at h
        · rename_i hfree
          cases h
          refine .inl ⟨t, _, some t, rfl, rfl, fun t' => hown (.inl hfree), ?_⟩
          rintro txn ⟨⟩
          exact .inr rfl
        · cases h
    · cases h
  | selectForUpdate t =>
    simp only [engagementStep] at h
    split at h
    · split at h
      · rename_i hfree
        cases h
        refine .inl ⟨t, _, some t, rfl, rfl, fun t' => hown hfree, ?_⟩
        rintro txn ⟨⟩
        exact ⟨rfl, rfl⟩
      · cases h
    · cases h
  | update t today =>
    simp only [engagementStep] at h
    split at h
    · rename_i input row htxn
      obtain ⟨hlock, rfl⟩ := hs.stageOk t _ htxn
      split at h
      · cases h
        refine .inl ⟨t, _, s.lock, rfl, rfl, fun _ _ => id, ?_⟩
        rintro txn ⟨⟩
        exact ⟨hlock, rfl⟩
      · cases h
    · cases h
  | insertEvent t =>
    simp only [engagementStep] at h
    split at h
    · rename_i input row event htxn
      obtain ⟨hlock, happly⟩ := hs.stageOk t _ htxn
      split at h
      · cases h
        refine .inl ⟨t, _, s.lock, rfl, rfl, fun _ _ => id, ?_⟩
        rintro txn ⟨⟩
        exact ⟨hlock, happly⟩
      · cases h
    · cases h
  | commit t =>
    simp only [engagementStep] at h
    split at h
    · rename_i input row event htxn
      cases h
      exact .inr (.inl ⟨t, input, row, event, rfl, htxn, rfl⟩)
    · cases h
  | rollback t =>
    simp only [engagementStep] at h
    split at h
    · cases h
      refine .inl ⟨t, none, _, rfl, rfl, fun t' hne hlock => ?_, ?_⟩
      · have hother : s.lock ≠ some t := by
          rw [hlock]
          exact fun heq => hne (Option.some.inj heq)
        rw [if_neg hother, hlock]
      · rintro txn ⟨⟩
    · cases h
  | failedAttempt =>
    simp only [engagementStep] at h
    split at h
    · exact .inr (.inr ⟨rfl, (Option.some.inj h).symm⟩)
    · cases h

/-- What a step does to the committed rows: nothing, or it commits an event that was computed from
the row as it is. -/
theorem engagementStep_rows (hs : Consistent driver pointsByEventType s)
    (h : engagementStep driver pointsByEventType s a = some s') :
    (s.committedBy a = none ∧ s'.row = s.row ∧ s'.ledger = s.ledger) ∨
    ∃ input event, s.committedBy a = some event ∧
      applyEvent driver pointsByEventType s.row input event.day = (s'.row, event) ∧
      s'.ledger = s.ledger ++ [event] := by
  rcases engagementStep_cases hs h with ⟨t, txn, lock, hnone, rfl, -, -⟩ |
    ⟨t, input, row, event, rfl, htxn, rfl⟩ | ⟨rfl, rfl⟩
  · exact .inl ⟨hnone, rfl, rfl⟩
  · obtain ⟨-, happly⟩ := hs.stageOk t _ htxn
    exact .inr ⟨input, event, by simp [EngagementState.committedBy, htxn], happly, rfl⟩
  · exact .inl ⟨rfl, rfl, rfl⟩

theorem Consistent.step (hs : Consistent driver pointsByEventType s)
    (h : engagementStep driver pointsByEventType s a = some s') :
    Consistent driver pointsByEventType s' := by
  have htallied : Tallied s'.row s'.ledger := by
    rcases engagementStep_rows hs h with ⟨-, hrow, hledger⟩ | ⟨input, event, -, happly, hledger⟩
    · rw [hrow, hledger]
      exact hs.tallied
    · have hnew : Tallied (applyEvent driver pointsByEventType s.row input event.day).1
          (s.ledger ++ [(applyEvent driver pointsByEventType s.row input event.day).2]) :=
        hs.tallied.applyEvent
      rwa [happly, ← hledger] at hnew
  rcases engagementStep_cases hs h with ⟨t, txn, lock, -, rfl, hlock, hself⟩ |
    ⟨t, input, row, event, -, htxn, rfl⟩ | ⟨-, rfl⟩
  · refine Consistent.setTxn htallied rfl (fun t' txn' hne htxn' => ?_) hself
    exact (hs.stageOk t' txn' htxn').keep rfl id (hlock t' hne)
  · refine Consistent.setTxn htallied rfl (fun t' txn' hne htxn' => ?_) (fun _ hnone => ?_)
    · have hholder : s.lock = some t := (hs.stageOk t _ htxn).1
      refine (hs.stageOk t' txn' htxn').of_not_holder (fun heq => hne ?_) (Option.some_ne_none _)
      exact Option.some.inj (heq.symm.trans hholder)
    · cases hnone
  · refine ⟨fun t' txn' htxn' => (hs.stageOk t' txn' htxn').keep rfl (fun _ => ?_) id, htallied⟩
    exact Option.some_ne_none _

theorem badges_prefix_step (hs : Consistent driver pointsByEventType s)
    (h : engagementStep driver pointsByEventType s a = some s') :
    s.row.badges <+: s'.row.badges := by
  rcases engagementStep_rows hs h with ⟨-, hrow, -⟩ | ⟨input, event, -, happly, -⟩
  · rw [hrow]
  · have hnew : s.row.badges <+:
        (applyEvent driver pointsByEventType s.row input event.day).1.badges :=
      badges_prefix_applyEvent hs.tallied.badges_nodup
    rwa [happly] at hnew

/-- An exact streak stays exact in a step exactly when what the step commits keeps it. -/
theorem streakExact_step_iff (hs : Consistent driver pointsByEventType s)
    (hexact : StreakExact s.row s.ledger)
    (h : engagementStep driver pointsByEventType s a = some s') :
    StreakExact s'.row s'.ledger ↔ CommitKeeps driver s a := by
  rcases engagementStep_rows hs h with ⟨hnone, hrow, hledger⟩ |
    ⟨input, event, hsome, happly, hledger⟩
  · rw [hrow, hledger, CommitKeeps, hnone]
    exact iff_of_true hexact fun _ hmem => by cases hmem
  · have hiff : StreakExact (applyEvent driver pointsByEventType s.row input event.day).1
        (s.ledger ++ [(applyEvent driver pointsByEventType s.row input event.day).2]) ↔
          KeepsStreak driver s.row s.ledger event.day := streakExact_applyEvent_iff hexact
    rw [happly, ← hledger] at hiff
    rw [hiff, CommitKeeps, hsome]
    simp

/-! ## Runs -/

variable {as : List EngagementAction}

theorem consistent_of_exec
    (h : exec (engagementStep driver pointsByEventType) .empty as = some s) :
    Consistent driver pointsByEventType s :=
  exec_keeps _ (fun _ _ _ hs hstep => hs.step hstep) consistent_empty h

theorem badgesGrow (driver : DateDriver) (pointsByEventType : EngagementEventType → ℤ)
    (as : List EngagementAction) :
    BadgesGrow (engagementStep driver pointsByEventType) .empty as := by
  intro bs cs u v _ hu hv
  have hkeeps : Consistent driver pointsByEventType v ∧ u.row.badges <+: v.row.badges := by
    refine exec_keeps (fun x => Consistent driver pointsByEventType x ∧
      u.row.badges <+: x.row.badges) ?_ ⟨consistent_of_exec hu, prefix_refl _⟩ hv
    rintro x a y ⟨hx, hgrow⟩ hstep
    exact ⟨hx.step hstep, hgrow.trans (badges_prefix_step hx hstep)⟩
  exact hkeeps.2

/-- **When the score is what its ledger says.** For every driver and all points for the types of
events, along every run of the transactions of an employee: badges only grow, and in every state the
points are what the ledger adds up to, the badges what it has awarded, each once, and the streak the
number of consecutive days with an event up to the last one, if and only if every event that the run
commits keeps the streak. -/
theorem score_exact_iff (driver : DateDriver) (pointsByEventType : EngagementEventType → ℤ)
    {as : List EngagementAction} {t : EngagementState}
    (ht : exec (engagementStep driver pointsByEventType) .empty as = some t) :
    (BadgesGrow (engagementStep driver pointsByEventType) .empty as ∧
        Always (engagementStep driver pointsByEventType) (fun s => ScoreExact s.row s.ledger)
          .empty as) ↔
      Meets (engagementStep driver pointsByEventType) (CommitKeeps driver) .empty as := by
  rw [and_iff_right (badgesGrow driver pointsByEventType as)]
  refine always_iff_meets (I := fun s => Consistent driver pointsByEventType s ∧
    StreakExact s.row s.ledger) (fun s hs => ⟨hs.1.tallied, hs.2⟩) ?_ ?_ ?_ ht
  · rintro s a u ⟨hs, hexact⟩ hkeeps hstep
    exact ⟨hs.step hstep, (streakExact_step_iff hs hexact hstep).2 hkeeps⟩
  · rintro s a u ⟨hs, hexact⟩ hbreaks hstep hu
    exact hbreaks ((streakExact_step_iff hs hexact hstep).1 hu.2)
  · exact ⟨consistent_empty, (streakExact_of_none rfl).2 ⟨rfl, rfl⟩⟩

end Txns

/-! ## Runs of a few events -/

/-- The defaults of `MARKETPLACE_POINTS_CLAIM_APPROVED` and `MARKETPLACE_POINTS_SWAP_EXECUTED`. -/
def defaultPoints : EngagementEventType → ℤ
  | .claimApproved => 10
  | .swapExecuted => 5

/-- A call of `recordEvent` with no other in between. -/
def recordEvent (t : ℕ) (input : RecordEngagementEventInput) (today : ℤ) :
    List EngagementAction :=
  [.start t input, .ensureRow t, .selectForUpdate t, .update t today, .insertEvent t, .commit t]

/-- Two calls at once on 1 March 2026, the second of which waits for the row that the first one
inserts, then one that is rolled back, and one on the next day. -/
def interleavedRun : List EngagementAction :=
  [.start 1 ⟨.claimApproved, 11⟩, .start 2 ⟨.swapExecuted, 12⟩, .ensureRow 1, .selectForUpdate 1,
    .update 1 20513, .insertEvent 1, .commit 1, .failedAttempt, .ensureRow 2,
    .start 3 ⟨.claimApproved, 13⟩, .ensureRow 3, .selectForUpdate 3, .update 3 20513, .rollback 3,
    .selectForUpdate 2, .update 2 20513, .insertEvent 2, .commit 2] ++
  recordEvent 4 ⟨.claimApproved, 14⟩ 20514

theorem score_exact_on_interleavedRun : ∃ t,
    exec (engagementStep (.localMidnight .utc) defaultPoints) .empty interleavedRun = some t ∧
    BadgesGrow (engagementStep (.localMidnight .utc) defaultPoints) .empty interleavedRun ∧
    Always (engagementStep (.localMidnight .utc) defaultPoints)
      (fun s => ScoreExact s.row s.ledger) .empty interleavedRun := by
  obtain ⟨t, ht⟩ : ∃ t, exec (engagementStep (.localMidnight .utc) defaultPoints) .empty
    interleavedRun = some t := ⟨_, rfl⟩
  exact ⟨t, ht, (score_exact_iff _ _ ht).2 (by decide)⟩

/-- A claim is approved on 1 March, another one the day after, and then a swap on that day too. -/
def sameDayRun : List EngagementAction :=
  recordEvent 1 ⟨.claimApproved, 11⟩ 20513 ++ recordEvent 2 ⟨.claimApproved, 12⟩ 20514 ++
    recordEvent 3 ⟨.swapExecuted, 13⟩ 20514

/-- The swap makes the streak of two days one of 1. -/
theorem same_day_resets_streak : ∃ s,
    exec (engagementStep (.localMidnight .utc) defaultPoints) .empty sameDayRun = some s ∧
    s.row.lastEngagementDate = some 20514 ∧ s.row.streakDays = 1 ∧
    ConsecutiveDays (engagementDays s.ledger) 20514 2 ∧ ¬ ScoreExact s.row s.ledger :=
  exists_exec (by decide)

end Workforce.Marketplace
