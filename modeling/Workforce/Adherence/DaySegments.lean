import Workforce.Adherence.DailyConvergence

/-!
# What the segments of a local day add up to

`DailyRollup` takes a timezone whose local days are what lies between two midnights. The statement
relies on two conversions of Postgres, the local day of an instant and the instant of a local
midnight, and here these are any two functions: where a change of the clocks repeats a midnight,
the day begins before the one instant that the conversion gives for it.

* `day_exact_iff`: the segments of a local day add up to the time from its first event to its end,
  and no longer than the day, exactly when the two conversions agree from the first event on.
* `zone_day_exact`: so they do in every timezone of `DailyRollup`, and `change_day_exact` across a
  change of the clocks that splits no midnight.
* `repeated_midnight_splits_day`: in the Azores, on the day of the autumn change, they do not.
-/

namespace Workforce.Adherence

open List

variable {config : RollupConfig} {zone : Zone}

/-! ## Segments, for any two conversions -/

/-- The conversions `AT TIME ZONE` of the statement: the local day of an instant, and the instant
of a local midnight. -/
structure Clock where
  localDay : ℤ → ℤ
  dayStart : ℤ → ℤ

def Zone.clock (zone : Zone) : Clock := ⟨zone.localDay, zone.dayStart⟩

/-- A segment and the instant of its event. -/
structure PlacedSegment where
  start : ℤ
  segment : Segment

/-- The instant is one of the segment's, which does not include its end. -/
def PlacedSegment.Covers (p : PlacedSegment) (t : ℤ) : Prop :=
  p.start ≤ t ∧ t < p.start + p.segment.micros

def PlacedSegment.Disjoint (p q : PlacedSegment) : Prop := ∀ t, ¬ (p.Covers t ∧ q.Covers t)

namespace Clock

variable (clock : Clock)

/-- The instant at which the local day of `t` ends. -/
def dayEnd (t : ℤ) : ℤ := clock.dayStart (clock.localDay t + 1)

/-- The time from an event to the next one, or to the end of its local day if that is earlier. -/
def segmentMicros (timestamp : ℤ) (nextTimestamp : Option ℤ) : ℕ :=
  (min (nextTimestamp.getD (clock.dayEnd timestamp)) (clock.dayEnd timestamp) - timestamp).toNat

/-- The segments of an employee's events, which are in the order of the window function. -/
def segments : List AdherenceEvent → List PlacedSegment
  | [] => []
  | e :: events =>
    { start := e.timestamp
      segment :=
        { localDay := clock.localDay e.timestamp
          micros := clock.segmentMicros e.timestamp (events.head?.map (·.timestamp))
          isAdherent := e.isAdherent } } :: segments events

/-- The segments that are grouped under a local day. -/
def daySegments (day : ℤ) (events : List AdherenceEvent) : List PlacedSegment :=
  (clock.segments events).filter (·.segment.localDay = day)

/-- The row of a local day. -/
def dayRow (config : RollupConfig) (tenantId employeeId : ℕ) (day : ℤ)
    (events : List AdherenceEvent) : AdherenceScore :=
  let segs := (clock.daySegments day events).map (·.segment)
  let adherentMicros := ((segs.filter (·.isAdherent)).map (·.micros)).sum
  let totalMicros := (segs.map (·.micros)).sum
  { key := ⟨tenantId, employeeId, .day, clock.dayStart day⟩
    periodEnd := clock.dayStart (day + 1)
    counts :=
      { adherentSeconds := adherentMicros / microsPerSecond.toNat
        totalScheduledSeconds := totalMicros / microsPerSecond.toNat
        majorDeviationCount := segs.countP fun seg =>
          !seg.isAdherent && config.majorDeviationThresholdSeconds * microsPerSecond ≤ seg.micros }
    adherencePct := percent adherentMicros totalMicros }

/-- The time that the segments of a local day take together. -/
def totalMicros (day : ℤ) (events : List AdherenceEvent) : ℕ :=
  ((clock.daySegments day events).map (·.segment.micros)).sum

end Clock

/-- In a timezone these are the segments of `DailyRollup`. -/
theorem map_segments_clock (zone : Zone) (events : List AdherenceEvent) :
    (zone.clock.segments events).map (·.segment) = segments zone events := by
  induction events with
  | nil => rfl
  | cons e events ih =>
    simp only [Clock.segments, segments, map_cons, ih]
    rfl

/-- And the row of a local day is the row of `DailyRollup`. -/
theorem dayRow_clock (config : RollupConfig) (zone : Zone) (tenantId employeeId : ℕ) (day : ℤ)
    (events : List AdherenceEvent) :
    zone.clock.dayRow config tenantId employeeId day events =
      dayRow config zone tenantId employeeId day
        ((segments zone events).filter (·.localDay = day)) := by
  have hsegs : (zone.clock.daySegments day events).map (·.segment) =
      (segments zone events).filter (·.localDay = day) := by
    rw [← map_segments_clock, filter_map]
    rfl
  unfold Clock.dayRow
  rw [hsegs]
  rfl

/-! ## The property -/

/-- The first event of a local day, among these, is at this instant. -/
def FirstOfDay (clock : Clock) (events : List AdherenceEvent) (day first : ℤ) : Prop :=
  (∃ e ∈ events, clock.localDay e.timestamp = day ∧ e.timestamp = first) ∧
    ∀ e ∈ events, clock.localDay e.timestamp = day → first ≤ e.timestamp
  deriving Decidable

/-- The segments of a local day are disjoint, they add up to the time from its first event to its
end, and the seconds of its row are in order and no more than the length of the day. -/
structure DayExact (config : RollupConfig) (clock : Clock) (tenantId employeeId : ℕ)
    (events : List AdherenceEvent) (day first : ℤ) : Prop where
  disjoint : (clock.daySegments day events).Pairwise PlacedSegment.Disjoint
  total_eq : (clock.totalMicros day events : ℤ) = clock.dayStart (day + 1) - first
  adherent_le : (clock.dayRow config tenantId employeeId day events).counts.adherentSeconds ≤
    (clock.dayRow config tenantId employeeId day events).counts.totalScheduledSeconds
  total_le : (clock.dayRow config tenantId employeeId day events).counts.totalScheduledSeconds *
    microsPerSecond ≤ clock.dayStart (day + 1) - clock.dayStart day

/-- From the first event of a local day on, the two conversions agree about the day: it is not over
at its first event, every event before its end is of the day, and the whole seconds until its end
are no more than its length. -/
structure AgreesFrom (clock : Clock) (events : List AdherenceEvent) (day first : ℤ) : Prop where
  first_le : first ≤ clock.dayStart (day + 1)
  localDay_eq : ∀ e ∈ events, first ≤ e.timestamp → e.timestamp < clock.dayStart (day + 1) →
    clock.localDay e.timestamp = day
  seconds_le : (clock.dayStart (day + 1) - first) / microsPerSecond * microsPerSecond ≤
    clock.dayStart (day + 1) - clock.dayStart day

/-! ## The segments are disjoint -/

section Segments

variable {clock : Clock} {day first : ℤ} {e : AdherenceEvent} {events : List AdherenceEvent}

theorem start_of_mem_segments {p : PlacedSegment} (h : p ∈ clock.segments events) :
    ∃ e ∈ events, e.timestamp = p.start := by
  induction events with
  | nil => cases h
  | cons e events ih =>
    rcases mem_cons.1 h with rfl | h
    · exact ⟨e, mem_cons_self, rfl⟩
    · obtain ⟨e', he', hstart⟩ := ih h
      exact ⟨e', mem_cons_of_mem _ he', hstart⟩

theorem segment_le_next {e' : AdherenceEvent} (h : e.timestamp ≤ e'.timestamp) :
    e.timestamp + clock.segmentMicros e.timestamp (some e'.timestamp) ≤ e'.timestamp := by
  simp only [Clock.segmentMicros, Option.getD_some]
  omega

theorem segments_disjoint (h : InOrder events) :
    (clock.segments events).Pairwise PlacedSegment.Disjoint := by
  induction events with
  | nil => exact Pairwise.nil
  | cons e events ih =>
    obtain ⟨hfirst, hrest⟩ := pairwise_cons.1 h
    refine pairwise_cons.2 ⟨fun q hq => ?_, ih hrest⟩
    obtain ⟨x, hx, hstart⟩ := start_of_mem_segments hq
    cases events with
    | nil => cases hx
    | cons e' events =>
      have hnext : e.timestamp + clock.segmentMicros e.timestamp (some e'.timestamp) ≤
          e'.timestamp := segment_le_next (hfirst e' mem_cons_self)
      have hle : e'.timestamp ≤ q.start := hstart ▸ InOrder.head_le hrest hx
      rintro t ⟨⟨-, hlt⟩, hge, -⟩
      exact absurd (hlt.trans_le (hnext.trans hle)) (not_lt.2 hge)

/-! ## What they add up to -/

/-- The time from an event to the next one, or to that instant if it is earlier. -/
def microsUntil (fin timestamp : ℤ) (nextTimestamp : Option ℤ) : ℕ :=
  (min (nextTimestamp.getD fin) fin - timestamp).toNat

theorem totalMicros_cons :
    clock.totalMicros day (e :: events) =
      (if clock.localDay e.timestamp = day then
        microsUntil (clock.dayStart (day + 1)) e.timestamp (events.head?.map (·.timestamp))
      else 0) + clock.totalMicros day events := by
  unfold Clock.totalMicros Clock.daySegments
  by_cases hday : clock.localDay e.timestamp = day
  · subst hday
    simp [Clock.segments, Clock.segmentMicros, Clock.dayEnd, microsUntil]
  · simp [Clock.segments, hday]

/-- The time until the end of the local day that goes to the events of other days. -/
def otherMicros (clock : Clock) (day : ℤ) : List AdherenceEvent → ℕ
  | [] => 0
  | e :: events =>
    (if clock.localDay e.timestamp = day then 0
    else microsUntil (clock.dayStart (day + 1)) e.timestamp (events.head?.map (·.timestamp))) +
      otherMicros clock day events

/-- The time from an event to the end of the day goes to the events from this one on. -/
theorem total_add_other (h : InOrder (e :: events)) :
    clock.totalMicros day (e :: events) + otherMicros clock day (e :: events) =
      (clock.dayStart (day + 1) - e.timestamp).toNat := by
  have hcons : clock.totalMicros day (e :: events) + otherMicros clock day (e :: events) =
      microsUntil (clock.dayStart (day + 1)) e.timestamp (events.head?.map (·.timestamp)) +
        (clock.totalMicros day events + otherMicros clock day events) := by
    rw [totalMicros_cons, otherMicros]
    split <;> omega
  induction events generalizing e with
  | nil =>
    rw [hcons]
    simp [microsUntil, Clock.totalMicros, Clock.daySegments, Clock.segments, otherMicros]
  | cons e' events ih =>
    obtain ⟨hfirst, hrest⟩ := pairwise_cons.1 h
    have hle := hfirst e' mem_cons_self
    have hnext := ih hrest (by rw [totalMicros_cons, otherMicros]; split <;> omega)
    rw [hcons, hnext]
    simp only [microsUntil, head?_cons, Option.map_some, Option.getD_some]
    omega

/-- No time goes to events of other days exactly when these come after the end of the day. -/
theorem otherMicros_eq_zero_iff (h : InOrder events) :
    otherMicros clock day events = 0 ↔
      ∀ e ∈ events, clock.localDay e.timestamp ≠ day →
        clock.dayStart (day + 1) ≤ e.timestamp := by
  induction events with
  | nil => simp [otherMicros]
  | cons e events ih =>
    obtain ⟨hfirst, hrest⟩ := pairwise_cons.1 h
    rw [otherMicros, Nat.add_eq_zero_iff, ih hrest, forall_mem_cons]
    refine and_congr_left fun hlater => ?_
    by_cases hday : clock.localDay e.timestamp = day
    · simp [hday]
    · rw [if_neg hday, forall_prop_of_true hday]
      cases events with
      | nil =>
        simp only [microsUntil, head?_nil, Option.map_none, Option.getD_none, min_self]
        omega
      | cons e' events =>
        have hle := hfirst e' mem_cons_self
        have hend := hlater e' mem_cons_self
        simp only [microsUntil, head?_cons, Option.map_some, Option.getD_some]
        constructor
        · intro hzero
          -- An event at the same instant is of the same day, so it comes after the end too.
          by_cases hsame : e'.timestamp = e.timestamp
          · rw [hsame] at hend
            exact hend hday
          · omega
        · omega

/-- The segments of a day add up to the time from its first event to its end exactly when that time
is not negative and holds no event of another day. -/
theorem totalMicros_eq_iff (h : InOrder events) (hfirst : FirstOfDay clock events day first) :
    (clock.totalMicros day events : ℤ) = clock.dayStart (day + 1) - first ↔
      first ≤ clock.dayStart (day + 1) ∧ ∀ e ∈ events, first ≤ e.timestamp →
        e.timestamp < clock.dayStart (day + 1) → clock.localDay e.timestamp = day := by
  induction events with
  | nil =>
    obtain ⟨⟨x, hx, -⟩, -⟩ := hfirst
    cases hx
  | cons e events ih =>
    obtain ⟨hle, hrest⟩ := pairwise_cons.1 h
    obtain ⟨⟨x, hx, hxday, hxfirst⟩, hmin⟩ := hfirst
    by_cases hday : clock.localDay e.timestamp = day
    · -- The sum begins with the first event of the day.
      have hfirst : first = e.timestamp := by
        refine le_antisymm (hmin e mem_cons_self hday) ?_
        rw [← hxfirst]
        exact h.head_le hx
      subst hfirst
      have hsum : clock.totalMicros day (e :: events) + otherMicros clock day (e :: events) =
          (clock.dayStart (day + 1) - e.timestamp).toNat := total_add_other h
      have hother : otherMicros clock day (e :: events) = 0 ↔ ∀ y ∈ e :: events,
          e.timestamp ≤ y.timestamp → y.timestamp < clock.dayStart (day + 1) →
            clock.localDay y.timestamp = day := by
        rw [otherMicros_eq_zero_iff h]
        refine forall₂_congr fun y hy => ?_
        rw [forall_prop_of_true (h.head_le hy), ← not_lt, not_imp_not]
      rw [← hother]
      omega
    · -- An event of another day before the first one has no part in the sum.
      have hmem : x ∈ events := by
        rcases mem_cons.1 hx with rfl | hmem
        · exact absurd hxday hday
        · exact hmem
      have hlt : e.timestamp < first := by
        refine lt_of_le_of_ne (hxfirst ▸ hle x hmem) fun heq => hday ?_
        rw [heq, ← hxfirst, hxday]
      have htail := ih hrest ⟨⟨x, hmem, hxday, hxfirst⟩, fun y hy => hmin y (mem_cons_of_mem _ hy)⟩
      rw [totalMicros_cons, if_neg hday, Nat.zero_add, htail, forall_mem_cons]
      refine and_congr_right fun _ => ⟨fun hall => ⟨fun hge => absurd hge (not_le.2 hlt), hall⟩,
        fun hall => hall.2⟩

/-! ## When the day is exact -/

variable {tenantId employeeId : ℕ}

theorem adherentSeconds_le :
    (clock.dayRow config tenantId employeeId day events).counts.adherentSeconds ≤
      (clock.dayRow config tenantId employeeId day events).counts.totalScheduledSeconds :=
  Nat.div_le_div_right (sum_adherent_le _)

theorem totalScheduledSeconds_eq :
    ((clock.dayRow config tenantId employeeId day events).counts.totalScheduledSeconds : ℤ) =
      clock.totalMicros day events / microsPerSecond := by
  simp only [Clock.dayRow, Clock.totalMicros, map_map, microsPerSecond]
  rfl

theorem dayExact_iff_agreesFrom (h : InOrder events)
    (hfirst : FirstOfDay clock events day first) :
    DayExact config clock tenantId employeeId events day first ↔
      AgreesFrom clock events day first := by
  constructor
  · intro hexact
    obtain ⟨hle, hday⟩ := (totalMicros_eq_iff h hfirst).1 hexact.total_eq
    refine ⟨hle, hday, ?_⟩
    have hseconds := hexact.total_le
    rwa [totalScheduledSeconds_eq, hexact.total_eq] at hseconds
  · intro hagree
    have htotal := (totalMicros_eq_iff h hfirst).2 ⟨hagree.first_le, hagree.localDay_eq⟩
    refine ⟨(segments_disjoint h).filter _, htotal, adherentSeconds_le, ?_⟩
    rw [totalScheduledSeconds_eq, htotal]
    exact hagree.seconds_le

/-- In a timezone whose local days are what lies between two midnights, the conversions agree. -/
theorem agreesFrom_zone (hfirst : FirstOfDay zone.clock events day first) :
    AgreesFrom zone.clock events day first := by
  obtain ⟨⟨x, -, hday, rfl⟩, -⟩ := hfirst
  obtain ⟨hstart, hend⟩ := (zone.localDay_eq_iff _ _).1 hday
  refine ⟨hend.le, fun e _ hge hlt => (zone.localDay_eq_iff _ _).2 ⟨hstart.trans hge, hlt⟩, ?_⟩
  refine (Int.ediv_mul_le _ (by decide)).trans ?_
  exact sub_le_sub_left hstart _

end Segments

/-! ## A change of the clocks -/

/-- A timezone whose offset from UTC changes at one instant. -/
structure Transition where
  boundary : ℤ
  before : ℤ
  after : ℤ

namespace Transition

variable (tr : Transition)

def offset (t : ℤ) : ℤ := if t < tr.boundary then tr.before else tr.after

/-- The instant of a local time. One that does not exist is read with the offset before the change,
one that comes twice with the offset after it. -/
def instant (localTime : ℤ) : ℤ :=
  let beforeTime := localTime - tr.before
  let afterTime := localTime - tr.after
  if beforeTime < tr.boundary ∧ afterTime < tr.boundary then beforeTime
  else if tr.boundary < beforeTime ∧ tr.boundary ≤ afterTime then afterTime
  else if afterTime < beforeTime then beforeTime
  else afterTime

def clock : Clock where
  localDay t := (t + tr.offset t) / microsPerDay
  dayStart d := tr.instant (d * microsPerDay)

/-- A local midnight comes twice, or lies within the hour that is left out. -/
def SplitsMidnight : Prop :=
  ∃ d : ℤ, tr.boundary + tr.after ≤ d * microsPerDay ∧ d * microsPerDay < tr.boundary + tr.before ∨
    tr.boundary + tr.before < d * microsPerDay ∧ d * microsPerDay < tr.boundary + tr.after

variable {tr} in
/-- A midnight that the change does not split parts the instants. -/
theorem lt_dayStart_iff (hwhole : ¬ tr.SplitsMidnight) (t d : ℤ) :
    t < tr.clock.dayStart d ↔ t + tr.offset t < d * microsPerDay := by
  have hday := not_exists.1 hwhole d
  simp only [clock, offset, instant]
  split_ifs <;> omega

/-- A change of less than a day that splits no midnight leaves every local day whole, be it longer
or shorter. -/
def toZone (hshort : |tr.after - tr.before| < microsPerDay) (hwhole : ¬ tr.SplitsMidnight) :
    Zone where
  localDay := tr.clock.localDay
  dayStart := tr.clock.dayStart
  localDay_eq_iff t d := by
    show (t + tr.offset t) / microsPerDay = d ↔ _
    rw [Int.ediv_eq_iff_of_pos (by decide), ← add_one_mul, ← lt_dayStart_iff hwhole, ← not_lt,
      ← lt_dayStart_iff hwhole, not_lt]
  dayStart_lt d := by
    have hbefore := (lt_dayStart_iff hwhole _ d).1 (Int.sub_one_lt_of_le le_rfl)
    rw [abs_lt] at hshort
    rw [lt_dayStart_iff hwhole, add_one_mul]
    simp only [offset] at hbefore ⊢
    split_ifs at hbefore ⊢ <;> omega

end Transition

/-! ## The segments of a scan -/

/-- **When a local day is exact.** For every two conversions, every stored events, every scan and
every local day that an event of the scan is on: the segments of the day are disjoint, add up to
the time from the first of these events to the end of the day, and give a row whose seconds are in
order and no more than the day, if and only if the day is not over at that event, the events from
it to the end of the day are all of the day, and the whole seconds between them are no more than the
length of the day. -/
theorem day_exact_iff (config : RollupConfig) (clock : Clock) (events : List AdherenceEvent)
    (tenantId employeeId : ℕ) (start fin : ℤ) (rank : ℕ → ℕ) {day first : ℤ}
    (hfirst : FirstOfDay clock (scanned events tenantId employeeId start fin rank) day first) :
    DayExact config clock tenantId employeeId (scanned events tenantId employeeId start fin rank)
        day first ↔
      AgreesFrom clock (scanned events tenantId employeeId start fin rank) day first :=
  dayExact_iff_agreesFrom (inOrder_scanned _ _ _ _ _) hfirst

/-- In every timezone of `DailyRollup` every local day is exact. -/
theorem zone_day_exact (config : RollupConfig) (zone : Zone) (events : List AdherenceEvent)
    (tenantId employeeId : ℕ) (start fin : ℤ) (rank : ℕ → ℕ) {day first : ℤ}
    (hfirst : FirstOfDay zone.clock (scanned events tenantId employeeId start fin rank) day
      first) :
    DayExact config zone.clock tenantId employeeId
      (scanned events tenantId employeeId start fin rank) day first :=
  (dayExact_iff_agreesFrom (inOrder_scanned _ _ _ _ _) hfirst).2 (agreesFrom_zone hfirst)

/-- So are the days of a change of the clocks that splits no midnight, the longer and the shorter
ones. -/
theorem change_day_exact (config : RollupConfig) (tr : Transition)
    (hshort : |tr.after - tr.before| < microsPerDay) (hwhole : ¬ tr.SplitsMidnight)
    (events : List AdherenceEvent) (tenantId employeeId : ℕ) (start fin : ℤ) (rank : ℕ → ℕ)
    {day first : ℤ}
    (hfirst : FirstOfDay tr.clock (scanned events tenantId employeeId start fin rank) day first) :
    DayExact config tr.clock tenantId employeeId
      (scanned events tenantId employeeId start fin rank) day first :=
  zone_day_exact config (tr.toZone hshort hwhole) events tenantId employeeId start fin rank hfirst

/-- Berlin on 25 October 2026: from 01:00 UTC on, one hour ahead of UTC and not two. -/
def berlin : Transition :=
  ⟨instantAt 297 1 0, 7200 * microsPerSecond, 3600 * microsPerSecond⟩

/-- On shift at 02:30, off at 02:30 when it comes again, and on shift the next day. -/
def berlinEvents : List AdherenceEvent :=
  [⟨1, 7, 40, instantAt 297 0 30, some "on_shift"⟩, ⟨2, 7, 40, instantAt 297 1 30, none⟩,
    ⟨3, 7, 40, instantAt 298 8 0, some "on_shift"⟩]

/-- The day of 25 hours is exact. -/
theorem berlin_day_exact :
    berlin.clock.dayStart 20752 - berlin.clock.dayStart 20751 = 25 * 3600 * microsPerSecond ∧
    DayExact defaultConfig berlin.clock 7 40
      (scanned berlinEvents 7 40 (instantAt 295 0 0) (instantAt 299 0 0) id) 20751
      (instantAt 297 0 30) :=
  ⟨by decide, (day_exact_iff _ _ _ _ _ _ _ _ (by decide)).2
    ⟨by decide, by decide, by decide⟩⟩

theorem berlin_change_exact : DayExact defaultConfig berlin.clock 7 40
    (scanned berlinEvents 7 40 (instantAt 295 0 0) (instantAt 299 0 0) id) 20751
      (instantAt 297 0 30) := by
  refine change_day_exact _ berlin (by decide) ?_ _ _ _ _ _ _ (by decide)
  rintro ⟨d, h⟩
  simp only [berlin, instantAt, microsPerDay, microsPerSecond] at h
  omega

/-- The Azores on that day: from 01:00 UTC on, one hour behind UTC. Local midnight comes at 00:00
UTC and again at 01:00 UTC. -/
def azores : Transition := ⟨instantAt 297 1 0, 0, -3600 * microsPerSecond⟩

/-- On shift from noon of the day before, off at half past midnight. -/
def azoresEvents : List AdherenceEvent :=
  [⟨1, 7, 40, instantAt 296 12 0, some "on_shift"⟩, ⟨2, 7, 40, instantAt 297 0 30, none⟩]

/-- The second event is on a day that begins, by the instant of its midnight, half an hour later.
The day before ends at that instant too, and its one segment ends half an hour before it; and the
segment of the second event is half an hour longer than its day. -/
theorem repeated_midnight_splits_day :
    (azoresEvents.map (·.timestamp)).Nodup ∧
    (FirstOfDay azores.clock
        (scanned azoresEvents 7 40 (instantAt 295 0 0) (instantAt 299 0 0) id) 20750
        (instantAt 296 12 0) ∧
      ¬ DayExact defaultConfig azores.clock 7 40
        (scanned azoresEvents 7 40 (instantAt 295 0 0) (instantAt 299 0 0) id) 20750
        (instantAt 296 12 0)) ∧
    (azores.clock.dayRow defaultConfig 7 40 20751 (scanned azoresEvents 7 40
      (instantAt 295 0 0) (instantAt 299 0 0) id)).counts.totalScheduledSeconds = 88200 ∧
    azores.clock.dayStart 20752 - azores.clock.dayStart 20751 = 86400 * microsPerSecond := by
  refine ⟨by decide, ⟨by decide, fun hexact => ?_⟩, by decide, by decide⟩
  exact absurd hexact.total_eq (by decide)

end Workforce.Adherence
