import Workforce.Adherence.DailyRollup

/-!
# When the daily rows are right

The window of a tick starts at an instant, so it may hold the later events of a local day and not
the earlier ones. The tick then replaces the row of that day by one computed from the events it has
scanned.

* `day_row_converges`: once a local day is over and its events are stored, the row of the day is
  what all its events give, and stays so, along every run whose ticks scan all events of the day or
  none of them, beginning with one that scans all, provided that events of the day with the same
  timestamp agree on whether they are adherent.
* `late_tick_truncates_day`: a tick that scans some of the events of a day spoils its row.
-/

namespace Workforce.Adherence

open Tables Runs List

variable {config : RollupConfig} {zones : String → Zone} {zone : Zone}

/-! ## What all the events of a day give -/

/-- The employee's events on a local day. -/
def dayEvents (zone : Zone) (tenantId employeeId : ℕ) (day : ℤ) (events : List AdherenceEvent) :
    List AdherenceEvent :=
  events.filter fun e => e.isOf tenantId employeeId && zone.localDay e.timestamp = day

/-- The row that the rollup computes from all the employee's events of a local day. -/
def fullRow (config : RollupConfig) (zone : Zone) (tenantId employeeId : ℕ) (day : ℤ)
    (events : List AdherenceEvent) : Option AdherenceScore :=
  let all := dayEvents zone tenantId employeeId day events
  if all = [] then none
  else some (dayRow config zone tenantId employeeId day
    (segments zone (all.insertionSort (Before id))))

/-- The key of the row of a local day. -/
def dayKey (zone : Zone) (tenantId employeeId : ℕ) (day : ℤ) : ScoreKey :=
  ⟨tenantId, employeeId, .day, zone.dayStart day⟩

/-- The stored row of the day is this row, which is what all its events give. -/
def DayRowIs (config : RollupConfig) (zone : Zone) (tenantId employeeId : ℕ) (day : ℤ)
    (row : AdherenceScore) (s : RollupState) : Prop :=
  fullRow config zone tenantId employeeId day s.events = some row ∧
    lookup (·.key) (dayKey zone tenantId employeeId day) s.scores = some row
  deriving Decidable

/-- The day is over, its events are stored, and the employee is in this timezone. -/
def Settled (zones : String → Zone) (timezone : String) (tenantId employeeId : ℕ) (day : ℤ)
    (_ : RollupState) : RollupAction → Prop
  | .arrive event => ¬ (event.isOf tenantId employeeId = true ∧
      (zones timezone).localDay event.timestamp = day)
  | .tick now timezoneOf _ _ => (zones timezone).dayStart (day + 1) ≤ now ∧
      timezoneOf tenantId employeeId = timezone

instance (timezone : String) (tenantId employeeId : ℕ) (day : ℤ) (s : RollupState)
    (a : RollupAction) : Decidable (Settled zones timezone tenantId employeeId day s a) := by
  cases a <;> unfold Settled <;> infer_instance

/-- The window of a tick starts before all these events. -/
def ScansAll (config : RollupConfig) (now : ℤ) (events : List AdherenceEvent) : Prop :=
  ∀ e ∈ events, scanStart config now ≤ e.timestamp
  deriving Decidable

/-- The window of a tick starts after all these events. -/
def ScansNone (config : RollupConfig) (now : ℤ) (events : List AdherenceEvent) : Prop :=
  ∀ e ∈ events, e.timestamp < scanStart config now
  deriving Decidable

/-- A tick scans all events of the day or none of them. -/
def ScansWholeDay (config : RollupConfig) (zone : Zone) (tenantId employeeId : ℕ) (day : ℤ)
    (s : RollupState) : RollupAction → Prop
  | .arrive _ => True
  | .tick now _ _ _ => ScansAll config now (dayEvents zone tenantId employeeId day s.events) ∨
      ScansNone config now (dayEvents zone tenantId employeeId day s.events)

instance (tenantId employeeId : ℕ) (day : ℤ) (s : RollupState) (a : RollupAction) :
    Decidable (ScansWholeDay config zone tenantId employeeId day s a) := by
  cases a <;> unfold ScansWholeDay <;> infer_instance

/-- Events with the same timestamp agree on whether they are adherent. -/
def TiesAgree (events : List AdherenceEvent) : Prop :=
  ∀ e ∈ events, ∀ e' ∈ events, e.timestamp = e'.timestamp → e.isAdherent = e'.isAdherent
  deriving Decidable

/-! ## Segments -/

theorem before_total (rank : ℕ → ℕ) (e e' : AdherenceEvent) :
    Before rank e e' ∨ Before rank e' e := by
  unfold Before
  omega

theorem before_trans (rank : ℕ → ℕ) {e e' e'' : AdherenceEvent} (h : Before rank e e')
    (h' : Before rank e' e'') : Before rank e e'' := by
  unfold Before at *
  omega

instance (rank : ℕ → ℕ) : Std.Total (Before rank) := ⟨before_total rank⟩

instance (rank : ℕ → ℕ) : IsTrans AdherenceEvent (Before rank) := ⟨fun _ _ _ => before_trans rank⟩

/-- In the order of their timestamps. -/
def InOrder (events : List AdherenceEvent) : Prop :=
  events.Pairwise fun e e' => e.timestamp ≤ e'.timestamp

theorem inOrder_insertionSort (rank : ℕ → ℕ) (events : List AdherenceEvent) :
    InOrder (events.insertionSort (Before rank)) := by
  refine (pairwise_insertionSort (Before rank) events).imp fun h => ?_
  unfold Before at h
  omega

variable {events : List AdherenceEvent}

theorem InOrder.head_le {e x : AdherenceEvent} (h : InOrder (e :: events)) (hx : x ∈ e :: events) :
    e.timestamp ≤ x.timestamp := by
  rcases mem_cons.1 hx with rfl | hmem
  · exact le_refl _
  · exact (pairwise_cons.1 h).1 x hmem

theorem filter_eq_nil_of_later {e e' : AdherenceEvent} (h : InOrder (e :: e' :: events))
    (hne : zone.localDay e'.timestamp ≠ zone.localDay e.timestamp) :
    (e' :: events).filter (fun x => zone.localDay x.timestamp = zone.localDay e.timestamp) =
      [] := by
  obtain ⟨hfirst, hrest⟩ := pairwise_cons.1 h
  have hend := zone.dayEnd_le (hfirst e' mem_cons_self) hne
  rw [filter_eq_nil_iff]
  intro x hx
  have hle : e'.timestamp ≤ x.timestamp := InOrder.head_le hrest hx
  intro hday
  have hlt := zone.lt_dayEnd x.timestamp
  unfold Zone.dayEnd at hend hlt
  rw [of_decide_eq_true hday] at hlt
  omega

/-- A segment ends with the day, so its next event can be taken among those of the day. -/
theorem segmentMicros_filter {e : AdherenceEvent} (h : InOrder (e :: events)) :
    segmentMicros zone e.timestamp (events.head?.map (·.timestamp)) =
      segmentMicros zone e.timestamp ((events.filter fun x =>
        zone.localDay x.timestamp = zone.localDay e.timestamp).head?.map (·.timestamp)) := by
  cases events with
  | nil => rfl
  | cons e' events =>
    by_cases hday : zone.localDay e'.timestamp = zone.localDay e.timestamp
    · simp [hday]
    · have hend := zone.dayEnd_le ((pairwise_cons.1 h).1 e' mem_cons_self) hday
      rw [filter_eq_nil_of_later h hday]
      simp only [segmentMicros, head?_cons, Option.map_some, Option.getD_some,
        head?_nil, Option.map_none, Option.getD_none, min_self, min_eq_right hend]

theorem filter_segments (h : InOrder events) (day : ℤ) :
    (segments zone events).filter (·.localDay = day) =
      segments zone (events.filter fun e => zone.localDay e.timestamp = day) := by
  induction events with
  | nil => rfl
  | cons e events ih =>
    have ih := ih (pairwise_cons.1 h).2
    by_cases hday : zone.localDay e.timestamp = day
    · subst hday
      simp only [segments, decide_true, filter_cons_of_pos, ih, segmentMicros_filter h]
    · simp only [segments, hday, decide_false, Bool.false_eq_true, not_false_eq_true,
        filter_cons_of_neg, ih]

theorem segments_congr {events events' : List AdherenceEvent}
    (h : events.map (fun e => (e.timestamp, e.isAdherent)) =
      events'.map fun e => (e.timestamp, e.isAdherent)) :
    segments zone events = segments zone events' := by
  induction events generalizing events' with
  | nil =>
    cases events' with
    | nil => rfl
    | cons e' events' => simp at h
  | cons e events ih =>
    cases events' with
    | nil => simp at h
    | cons e' events' =>
      simp only [map_cons, cons.injEq, Prod.mk.injEq] at h
      obtain ⟨⟨htime, hadh⟩, hrest⟩ := h
      have hhead : events.head?.map (·.timestamp) = events'.head?.map (·.timestamp) := by
        have := congrArg (fun l => l.head?.map Prod.fst) hrest
        simpa [head?_map, Function.comp_def] using this
      simp only [segments, htime, hadh, hhead, ih hrest]

/-- Two orders by timestamp of the same events give the same segments, when ties agree. -/
theorem segments_eq_of_perm {events events' : List AdherenceEvent} (hp : events.Perm events')
    (h : InOrder events) (h' : InOrder events') (hties : TiesAgree events) :
    segments zone events = segments zone events' := by
  have hmap : ∀ {l : List AdherenceEvent}, InOrder l →
      (l.map fun e => (e.timestamp, e.isAdherent)).Pairwise fun p q => p.1 ≤ q.1 := by
    intro l hl
    exact pairwise_map.2 hl
  refine segments_congr (Perm.eq_of_pairwise ?_ (hmap h) (hmap h') (hp.map _))
  intro p q hmem hmem' hle hge
  obtain ⟨e, he, rfl⟩ := mem_map.1 hmem
  obtain ⟨e', he', rfl⟩ := mem_map.1 hmem'
  have htime : e.timestamp = e'.timestamp := le_antisymm hle hge
  rw [htime, hties e he e' (hp.symm.subset he') htime]

theorem localDay_of_mem_segments {seg : Segment} (h : seg ∈ segments zone events) :
    ∃ e ∈ events, zone.localDay e.timestamp = seg.localDay := by
  induction events with
  | nil => cases h
  | cons e events ih =>
    rcases mem_cons.1 h with rfl | h
    · exact ⟨e, mem_cons_self, rfl⟩
    · obtain ⟨e', he', hday⟩ := ih h
      exact ⟨e', mem_cons_of_mem _ he', hday⟩

theorem exists_segment (zone : Zone) {e : AdherenceEvent} (h : e ∈ events) :
    ∃ seg ∈ segments zone events, seg.localDay = zone.localDay e.timestamp := by
  induction events with
  | nil => cases h
  | cons e' events ih =>
    rcases mem_cons.1 h with rfl | h
    · exact ⟨_, mem_cons_self, rfl⟩
    · obtain ⟨seg, hseg, hday⟩ := ih h
      exact ⟨seg, mem_cons_of_mem _ hseg, hday⟩

/-! ## The table accepts every row -/

/-- The last segment is not empty: its event comes before the end of its day. -/
theorem sum_segments_pos (h : events ≠ []) :
    0 < ((segments zone events).map (·.micros)).sum := by
  induction events with
  | nil => exact absurd rfl h
  | cons e events ih =>
    simp only [segments, map_cons, sum_cons]
    cases events with
    | nil =>
      have hlt := zone.lt_dayEnd e.timestamp
      simp only [segmentMicros, segments, head?_nil, Option.map_none, Option.getD_none,
        min_self, map_nil, sum_nil]
      omega
    | cons e' events =>
      have := ih (cons_ne_nil _ _)
      omega

theorem sum_adherent_le (segs : List Segment) :
    ((segs.filter (·.isAdherent)).map (·.micros)).sum ≤ (segs.map (·.micros)).sum :=
  (filter_sublist.map _).sum_le_sum fun _ _ => Nat.zero_le _

theorem employeeRows_storable (h : InOrder events) {tenantId employeeId : ℕ} {r : AdherenceScore}
    (hr : r ∈ employeeRows config zone tenantId employeeId (segments zone events)) :
    r.storable = true := by
  simp only [employeeRows, mem_map, mem_eraseDups] at hr
  obtain ⟨day, ⟨seg, hseg, rfl⟩, rfl⟩ := hr
  obtain ⟨e, he, hday⟩ := localDay_of_mem_segments hseg
  refine percent_storable ?_ (sum_adherent_le _)
  rw [filter_segments h]
  refine sum_segments_pos fun hnil => ?_
  exact filter_eq_nil_iff.1 hnil e he (by simpa using hday)

/-! ## What a tick writes -/

/-- All the rows of a tick. -/
def writtenRows (config : RollupConfig) (zones : String → Zone) (now : ℤ)
    (timezoneOf : ℕ → ℕ → String) (rows : List (ℕ × ℕ)) (rank : ℕ → ℕ)
    (events : List AdherenceEvent) : List AdherenceScore :=
  ((statementGroups rows timezoneOf).map fun (tenantId, timezone, employeeIds) =>
    dailyRollup config (zones timezone) events tenantId employeeIds (scanStart config now)
      (scanEnd now) rank).flatten

section Tick

variable {now : ℤ} {timezoneOf : ℕ → ℕ → String} {rows : List (ℕ × ℕ)} {rank : ℕ → ℕ}
  {tenantId employeeId : ℕ} {day : ℤ}

theorem inOrder_scanned (events : List AdherenceEvent) (tenantId employeeId : ℕ) (start fin : ℤ) :
    InOrder (scanned events tenantId employeeId start fin rank) := inOrder_insertionSort rank _

theorem rollupTrailingWindow_eq (s : RollupState) :
    rollupTrailingWindow config zones now timezoneOf rows rank s =
      upsertAll (·.key) (writtenRows config zones now timezoneOf rows rank s.events) s.scores := by
  unfold rollupTrailingWindow writtenRows
  have hmap : ((statementGroups rows timezoneOf).map fun (tenantId, timezone, employeeIds) _ =>
      dailyRollup config (zones timezone) s.events tenantId employeeIds (scanStart config now)
        (scanEnd now) rank) =
      ((statementGroups rows timezoneOf).map fun (tenantId, timezone, employeeIds) =>
        dailyRollup config (zones timezone) s.events tenantId employeeIds (scanStart config now)
          (scanEnd now) rank).map
        fun (rows : List AdherenceScore) (_ : List AdherenceScore) => rows := by
    simp [Function.comp_def]
  rw [hmap, runStatements_const]
  intro new hnew r hr
  obtain ⟨⟨tenantId, timezone, employeeIds⟩, -, rfl⟩ := mem_map.1 hnew
  obtain ⟨employeeId, -, hr⟩ := mem_flatMap.1 hr
  exact employeeRows_storable (inOrder_scanned _ _ _ _ _) hr

variable {events : List AdherenceEvent}

theorem mem_writtenRows {r : AdherenceScore} :
    r ∈ writtenRows config zones now timezoneOf rows rank events ↔
      ∃ tenantId timezone employeeIds employeeId,
        (tenantId, timezone, employeeIds) ∈ statementGroups rows timezoneOf ∧
        employeeId ∈ employeeIds ∧
        r ∈ employeeRows config (zones timezone) tenantId employeeId (segments (zones timezone)
          (scanned events tenantId employeeId (scanStart config now) (scanEnd now) rank)) := by
  simp only [writtenRows, dailyRollup, mem_flatten, mem_map, Prod.exists]
  constructor
  · rintro ⟨new, ⟨tenantId, timezone, employeeIds, hgroup, rfl⟩, hr⟩
    obtain ⟨employeeId, he, hr⟩ := mem_flatMap.1 hr
    exact ⟨tenantId, timezone, employeeIds, employeeId, hgroup, he, hr⟩
  · rintro ⟨tenantId, timezone, employeeIds, employeeId, hgroup, he, hr⟩
    exact ⟨_, ⟨tenantId, timezone, employeeIds, hgroup, rfl⟩, mem_flatMap.2 ⟨employeeId, he, hr⟩⟩

variable {timezone : String} (htz : timezoneOf tenantId employeeId = timezone)

include htz

/-- The row that a tick writes for a day is computed from the events of the day it has scanned. -/
theorem eq_dayRow_of_written {r : AdherenceScore}
    (hr : r ∈ writtenRows config zones now timezoneOf rows rank events)
    (hkey : r.key = dayKey (zones timezone) tenantId employeeId day) :
    (∃ x ∈ scanned events tenantId employeeId (scanStart config now) (scanEnd now) rank,
      (zones timezone).localDay x.timestamp = day) ∧
    r = dayRow config (zones timezone) tenantId employeeId day ((segments (zones timezone)
      (scanned events tenantId employeeId (scanStart config now) (scanEnd now) rank)).filter
        (·.localDay = day)) := by
  obtain ⟨tenantId', timezone', employeeIds, employeeId', hgroup, hmem, hr⟩ := mem_writtenRows.1 hr
  simp only [employeeRows, mem_map, mem_eraseDups] at hr
  obtain ⟨d, ⟨seg, hseg, hd⟩, rfl⟩ := hr
  obtain ⟨rfl, rfl, -, hstart⟩ := ScoreKey.mk.inj hkey
  obtain rfl : timezone' = timezone := (mem_statementGroups hgroup hmem).2.symm.trans htz
  obtain ⟨x, hx, hxd⟩ := localDay_of_mem_segments hseg
  obtain rfl : d = day := by
    rw [← (zones timezone').localDay_dayStart d, hstart, Zone.localDay_dayStart]
  exact ⟨⟨x, hx, hxd.trans hd⟩, rfl⟩

theorem dayRow_mem_written (hrows : (tenantId, employeeId) ∈ rows) {e : AdherenceEvent}
    (he : e ∈ scanned events tenantId employeeId (scanStart config now) (scanEnd now) rank)
    (hday : (zones timezone).localDay e.timestamp = day) :
    dayRow config (zones timezone) tenantId employeeId day ((segments (zones timezone)
      (scanned events tenantId employeeId (scanStart config now) (scanEnd now) rank)).filter
        (·.localDay = day)) ∈ writtenRows config zones now timezoneOf rows rank events := by
  obtain ⟨employeeIds, hmem, hgroup⟩ := exists_statementGroup timezoneOf hrows
  rw [htz] at hgroup
  refine mem_writtenRows.2 ⟨tenantId, timezone, employeeIds, employeeId, hgroup, hmem, ?_⟩
  obtain ⟨seg, hseg, hsd⟩ := exists_segment (zones timezone) he
  refine mem_map.2 ⟨day, mem_eraseDups.2 (mem_map.2 ⟨seg, hseg, ?_⟩), rfl⟩
  exact hsd.trans hday

omit htz in
/-- A tick after the day that starts its scan before the day scans its events. -/
theorem scanned_perm (rank : ℕ → ℕ) (hover : zone.dayStart (day + 1) ≤ now)
    (hall : ScansAll config now (dayEvents zone tenantId employeeId day events)) :
    ((scanned events tenantId employeeId (scanStart config now) (scanEnd now) rank).filter
      fun e => zone.localDay e.timestamp = day).Perm
        (dayEvents zone tenantId employeeId day events) := by
  refine ((perm_insertionSort (Before rank) _).filter _).trans (.of_eq ?_)
  rw [filter_filter, dayEvents]
  refine filter_congr fun e he => ?_
  by_cases hday : zone.localDay e.timestamp = day
  · by_cases hof : e.isOf tenantId employeeId = true
    · have hstart := hall e (mem_filter.2 ⟨he, by simp [hof, hday]⟩)
      have hend := ((zone.localDay_eq_iff e.timestamp day).1 hday).2
      have hlt : e.timestamp < scanEnd now := by
        unfold scanEnd microsPerDay microsPerSecond
        omega
      simp [hday, hof, hstart, hlt]
    · simp [hof]
  · simp [hday]

/-- A tick after the day that scans all its events stores what they give. -/
theorem lookup_of_scansAll {s : RollupState}
    (hrows : rows.Perm (activeEmployees config now s.events))
    (hover : (zones timezone).dayStart (day + 1) ≤ now)
    (hall : ScansAll config now (dayEvents (zones timezone) tenantId employeeId day s.events))
    (hties : TiesAgree (dayEvents (zones timezone) tenantId employeeId day s.events))
    {row : AdherenceScore}
    (hrow : fullRow config (zones timezone) tenantId employeeId day s.events = some row) :
    lookup (·.key) (dayKey (zones timezone) tenantId employeeId day)
      (rollupTrailingWindow config zones now timezoneOf rows rank s) = some row := by
  have hperm := scanned_perm rank hover hall
  simp only [fullRow] at hrow
  split at hrow
  · cases hrow
  rename_i hne
  cases hrow
  obtain ⟨e, he⟩ := exists_mem_of_ne_nil _ hne
  obtain ⟨hes, hday⟩ := mem_filter.1 (hperm.symm.subset he)
  have hday : (zones timezone).localDay e.timestamp = day := by simpa using hday
  -- the segments are those of all the events of the day
  have hsegs : (segments (zones timezone) (scanned s.events tenantId employeeId
      (scanStart config now) (scanEnd now) rank)).filter (·.localDay = day) =
      segments (zones timezone) ((dayEvents (zones timezone) tenantId employeeId day
        s.events).insertionSort (Before id)) := by
    rw [filter_segments (inOrder_scanned _ _ _ _ _)]
    refine segments_eq_of_perm (hperm.trans (perm_insertionSort _ _).symm) ?_
      (inOrder_insertionSort id _) ?_
    · exact Pairwise.filter _ (inOrder_scanned _ _ _ _ _)
    · exact fun e he e' he' => hties e (hperm.subset he) e' (hperm.subset he')
  have hactive : (tenantId, employeeId) ∈ rows := by
    have hscan : e ∈ s.events.filter fun e => e.isOf tenantId employeeId &&
        scanStart config now ≤ e.timestamp && e.timestamp < scanEnd now :=
      (mem_insertionSort _).1 hes
    simp only [AdherenceEvent.isOf, mem_filter, Bool.and_eq_true, decide_eq_true_eq] at hscan
    obtain ⟨hmem, ⟨⟨rfl, rfl⟩, hstart⟩, hend⟩ := hscan
    refine hrows.symm.subset (mem_eraseDups.2 (mem_map.2 ⟨e, ?_, rfl⟩))
    simp [hmem, hstart, hend]
  rw [rollupTrailingWindow_eq, ← hsegs]
  refine lookup_upsertAll_of_mem (dayRow_mem_written htz hactive hes hday) rfl ?_ _
  intro r hr hkey
  exact (eq_dayRow_of_written htz hr hkey).2

theorem lookup_of_scansNone {s : RollupState}
    (hnone : ScansNone config now (dayEvents (zones timezone) tenantId employeeId day s.events)) :
    lookup (·.key) (dayKey (zones timezone) tenantId employeeId day)
      (rollupTrailingWindow config zones now timezoneOf rows rank s) =
    lookup (·.key) (dayKey (zones timezone) tenantId employeeId day) s.scores := by
  rw [rollupTrailingWindow_eq]
  refine lookup_upsertAll_of_forall_ne (fun r hr hkey => ?_) _
  obtain ⟨⟨x, hx, hday⟩, -⟩ := eq_dayRow_of_written htz hr hkey
  have hscan : x ∈ s.events.filter fun e => e.isOf tenantId employeeId &&
      scanStart config now ≤ e.timestamp && e.timestamp < scanEnd now :=
    (mem_insertionSort _).1 hx
  simp only [mem_filter, Bool.and_eq_true, decide_eq_true_eq] at hscan
  obtain ⟨hmem, ⟨hof, hstart⟩, -⟩ := hscan
  have hlt := hnone x (mem_filter.2 ⟨hmem, by simp [hof, hday]⟩)
  omega

end Tick

/-! ## Runs -/

section Runs

variable {timezone : String} {tenantId employeeId : ℕ} {day : ℤ} {row : AdherenceScore}
  {s t : RollupState}

/-- Events of other days, or of other employees, do not change the events of the day. -/
theorem dayEvents_arrive {event : AdherenceEvent}
    (h : ¬ (event.isOf tenantId employeeId = true ∧ zone.localDay event.timestamp = day))
    (events : List AdherenceEvent) :
    dayEvents zone tenantId employeeId day (events ++ [event]) =
      dayEvents zone tenantId employeeId day events := by
  have hnil : [event].filter (fun e => e.isOf tenantId employeeId &&
      zone.localDay e.timestamp = day) = [] := by
    rw [filter_eq_nil_iff]
    intro e he
    obtain rfl := mem_singleton.1 he
    simpa using h
  unfold dayEvents
  rw [filter_append, hnil, append_nil]

theorem tick_some {now : ℤ} {timezoneOf : ℕ → ℕ → String} {rows : List (ℕ × ℕ)} {rank : ℕ → ℕ}
    (h : rollupStep config zones s (.tick now timezoneOf rows rank) = some t) :
    rows.Perm (activeEmployees config now s.events) ∧
      t = { s with scores := rollupTrailingWindow config zones now timezoneOf rows rank s } := by
  simp only [rollupStep] at h
  split at h
  · rename_i hrows
    exact ⟨hrows, (Option.some.inj h).symm⟩
  · cases h

theorem DayRowIs.step {a : RollupAction}
    (hs : DayRowIs config (zones timezone) tenantId employeeId day row s)
    (hties : TiesAgree (dayEvents (zones timezone) tenantId employeeId day s.events))
    (hset : Settled zones timezone tenantId employeeId day s a)
    (hok : ScansWholeDay config (zones timezone) tenantId employeeId day s a)
    (ha : rollupStep config zones s a = some t) :
    DayRowIs config (zones timezone) tenantId employeeId day row t ∧
      dayEvents (zones timezone) tenantId employeeId day t.events =
        dayEvents (zones timezone) tenantId employeeId day s.events := by
  cases a with
  | arrive event =>
    cases ha
    have hsame := dayEvents_arrive hset s.events
    refine ⟨⟨?_, hs.2⟩, hsame⟩
    rw [fullRow, hsame]
    exact hs.1
  | tick now timezoneOf rows rank =>
    obtain ⟨hrows, rfl⟩ := tick_some ha
    refine ⟨⟨hs.1, ?_⟩, rfl⟩
    rcases hok with hall | hnone
    · exact lookup_of_scansAll hset.2 hrows hset.1 hall hties hs.1
    · exact (lookup_of_scansNone hset.2 hnone).trans hs.2

/-- **The row of a day converges when no tick cuts the day.** For every timezone, every stored
scores and every event history: once a local day is over and its events are stored, a tick that
scans all of them, and any further ticks and arrivals of other events, of which each tick scans all
events of the day or none of them, leave the row of the day as all its events give it, the same row
in every state. Events of the day with the same timestamp are to agree on whether they are
adherent. -/
theorem day_row_converges {now : ℤ} {timezoneOf : ℕ → ℕ → String} {rows : List (ℕ × ℕ)}
    {rank : ℕ → ℕ} {as : List RollupAction}
    (hrow : fullRow config (zones timezone) tenantId employeeId day s.events = some row)
    (hties : TiesAgree (dayEvents (zones timezone) tenantId employeeId day s.events))
    (hset : Meets (rollupStep config zones) (Settled zones timezone tenantId employeeId day) s
      (.tick now timezoneOf rows rank :: as))
    (hall : ScansAll config now (dayEvents (zones timezone) tenantId employeeId day s.events))
    (hok : Meets (rollupStep config zones)
      (ScansWholeDay config (zones timezone) tenantId employeeId day) s
      (.tick now timezoneOf rows rank :: as))
    (hfirst : rollupStep config zones s (.tick now timezoneOf rows rank) = some t) :
    Always (rollupStep config zones)
      (DayRowIs config (zones timezone) tenantId employeeId day row) t as := by
  obtain ⟨hset₀, hset⟩ := meets_cons.1 hset
  obtain ⟨-, hok⟩ := meets_cons.1 hok
  have hset := hset t hfirst
  have hok := hok t hfirst
  obtain ⟨hrows, rfl⟩ := tick_some hfirst
  refine always_of_invariant (I := fun u =>
    DayRowIs config (zones timezone) tenantId employeeId day row u ∧
      TiesAgree (dayEvents (zones timezone) tenantId employeeId day u.events))
    (fun u hu => hu.1) ?_ ⟨⟨hrow, ?_⟩, hties⟩
    (fun bs a u hbs hu => And.intro (hset bs a u hbs hu) (hok bs a u hbs hu))
  · rintro u a w ⟨hu, hagree⟩ ⟨hsettled, hwhole⟩ ha
    obtain ⟨hw, hsame⟩ := hu.step hagree hsettled hwhole ha
    exact ⟨hw, hsame ▸ hagree⟩
  · exact lookup_of_scansAll hset₀.2 hrows hset₀.1 hall hties hrow

end Runs

/-! ## Runs on two events -/

def twoZones (timezone : String) : Zone :=
  if timezone = "Asia/Kolkata" then .ofOffset (19800 * microsPerSecond) else .ofOffset 0

/-- An instant on day 20454 or later, in UTC. -/
def instantAt (day hour minute : ℤ) : ℤ :=
  ((20454 + day) * 86400 + hour * 3600 + minute * 60) * microsPerSecond

/-- On shift from 00:30, off from 12:00. -/
def shiftEvents : RollupState :=
  ⟨[⟨1, 7, 40, instantAt 0 0 30, some "on_shift"⟩, ⟨2, 7, 40, instantAt 0 12 0, none⟩], []⟩

def defaultConfig : RollupConfig := ⟨2, 300⟩

/-- A tick at that time, with the employee in this timezone. -/
def tickAt (now : ℤ) (timezone : String) (rows : List (ℕ × ℕ)) : RollupAction :=
  .tick now (fun _ _ => timezone) rows id

/-- In Kolkata the two events are on the same day, which ends at 18:30 UTC. The second tick scans
both events again; an event of another day arrives, and the last tick scans only that. -/
def wholeDayRun : List RollupAction :=
  [tickAt (instantAt 2 0 15) "Asia/Kolkata" [(7, 40)],
    .arrive ⟨3, 7, 40, instantAt 4 9 0, some "on_shift"⟩,
    tickAt (instantAt 4 10 0) "Asia/Kolkata" [(7, 40)]]

theorem day_row_converges_on_wholeDayRun : ∃ row t,
    rollupStep defaultConfig twoZones shiftEvents
      (tickAt (instantAt 0 19 0) "Asia/Kolkata" [(7, 40)]) = some t ∧
    Always (rollupStep defaultConfig twoZones)
      (DayRowIs defaultConfig (twoZones "Asia/Kolkata") 7 40 20454 row) t wholeDayRun := by
  obtain ⟨t, ht⟩ : ∃ t, rollupStep defaultConfig twoZones shiftEvents
      (tickAt (instantAt 0 19 0) "Asia/Kolkata" [(7, 40)]) = some t := ⟨_, rfl⟩
  refine ⟨_, t, ht, day_row_converges (s := shiftEvents) rfl ?_ ?_ ?_ ?_ ht⟩
  · decide
  · decide
  · decide
  · decide

/-- The tick at 00:15 of the next day stores the row of the day; the tick at 06:00 two days later
starts its scan at 06:00 of the day. -/
def cutDayRun : List RollupAction :=
  [tickAt (instantAt 1 0 15) "UTC" [(7, 40)], tickAt (instantAt 3 6 0) "UTC" [(7, 40)]]

/-- A tick that scans the second event of a day and not the first replaces the row of the day, over
and settled, by the row of the second event alone. -/
theorem late_tick_truncates_day :
    Meets (rollupStep defaultConfig twoZones) (Settled twoZones "UTC" 7 40 20454) shiftEvents
      cutDayRun ∧
    TiesAgree (dayEvents (twoZones "UTC") 7 40 20454 shiftEvents.events) ∧
    ∃ row, fullRow defaultConfig (twoZones "UTC") 7 40 20454 shiftEvents.events = some row ∧
    ∃ t, exec (rollupStep defaultConfig twoZones) shiftEvents cutDayRun = some t ∧
      fullRow defaultConfig (twoZones "UTC") 7 40 20454 t.events = some row ∧
      (lookup (·.key) (dayKey (twoZones "UTC") 7 40 20454) t.scores).map (·.counts) ≠
        some row.counts := by
  exact ⟨by decide, by decide, _, rfl, exists_exec (by decide)⟩

end Workforce.Adherence
