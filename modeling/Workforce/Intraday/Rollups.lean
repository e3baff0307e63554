import Workforce.Foundations.Tables
import Workforce.Intraday.AdherenceEvents

/-!
# The adherence rollups

`AdherenceRollupSchedulerService`: every tick aggregates the events of a trailing window by hour and
then those of another by day, and puts what it finds in place of the rows there are. The windows
start at a fixed time before now, wherever that falls in an hour or a day. A tick that comes while
one is running returns at once; a statement may fail, and the rest of the tick is then left out.

* `Settled`: the buckets that are over, with all their events stored and a statement run since, have
  the rollup of all their events.
* `settled_iff`: exactly when that holds all along a run.
-/

namespace Workforce.Intraday

open List Function

open Tables (lookup upsertAll)

inductive Granularity
  | hour
  | day
  deriving DecidableEq

/-- The primary key of a rollup table. -/
structure RollupKey where
  tenantId : ℕ
  employeeId : ℕ
  bucketStart : ℤ
  deriving DecidableEq

structure AdherenceRollup where
  key : RollupKey
  totalEvents : ℕ
  nonAdherentEvents : ℕ
  totalDeviationSeconds : ℤ
  deriving DecidableEq

/-- `HOURLY_WINDOW_HOURS` and `DAILY_WINDOW_DAYS`, in milliseconds. -/
def window : Granularity → ℤ
  | .hour => 2 * 60 * 60 * 1000
  | .day => 2 * 24 * 60 * 60 * 1000

/-- The aggregates of some events. -/
def rollupOf (k : RollupKey) (events : List AdherenceEvent) : AdherenceRollup :=
  { key := k
    totalEvents := events.length
    nonAdherentEvents := events.countP fun e => !isAdherent e.scheduledActivity
    totalDeviationSeconds := (events.map (·.deviationSeconds)).sum }

/-- The tick that is running: the window starts of the statements that are still to come. -/
inductive Ticking
  | idle
  | hourly (hourlyWindowStart dailyWindowStart : ℤ)
  | daily (dailyWindowStart : ℤ)
  deriving DecidableEq

/-- The events, the rollups, and the tick that is under way. -/
structure RollupState where
  events : List AdherenceEvent
  rollups : Granularity → List AdherenceRollup
  ticking : Ticking
  now : ℤ
  /-- The buckets that are over and get no more events. -/
  closed : Granularity → List RollupKey
  /-- Those that were closed when a statement last ran. -/
  settled : Granularity → List RollupKey
  /-- The buckets all of whose events were in the window when a statement last had one of them, with
  none stored since. -/
  seen : Granularity → List RollupKey

/-- An event arrives, a tick begins or goes on, or a bucket is over. -/
inductive RollupStep
  | store (event : AdherenceEvent)
  | tick (hourlyNow dailyNow : ℤ)
  /-- The next statement of the tick; it may commit although it throws. -/
  | statement (commits throws : Bool)
  | close (g : Granularity) (k : RollupKey)

section Rollup

-- `date_trunc` in the time zone of the database session
variable (dateTrunc : Granularity → ℤ → ℤ)

def keyOf (g : Granularity) (e : AdherenceEvent) : RollupKey :=
  ⟨e.tenantId, e.employeeId, dateTrunc g e.timestamp⟩

/-- The events of a bucket. -/
def bucket (g : Granularity) (k : RollupKey) (events : List AdherenceEvent) :
    List AdherenceEvent :=
  events.filter fun e => keyOf dateTrunc g e = k

/-- The rows that `HOURLY_ROLLUP_SQL` and `DAILY_ROLLUP_SQL` insert or replace. -/
def rollupRows (g : Granularity) (windowStart : ℤ) (events : List AdherenceEvent) :
    List AdherenceRollup :=
  let scanned := events.filter fun e => windowStart ≤ e.timestamp
  (scanned.map (keyOf dateTrunc g)).eraseDups.map fun k =>
    rollupOf k (bucket dateTrunc g k scanned)

/-- The window includes every event of the bucket. -/
def Includes (g : Granularity) (windowStart : ℤ) (events : List AdherenceEvent) (k : RollupKey) :
    Prop := ∀ e ∈ bucket dateTrunc g k events, windowStart ≤ e.timestamp
  deriving Decidable

/-- The window includes no event of the bucket. -/
def Misses (g : Granularity) (windowStart : ℤ) (events : List AdherenceEvent) (k : RollupKey) :
    Prop := ∀ e ∈ bucket dateTrunc g k events, e.timestamp < windowStart
  deriving Decidable

/-- A statement runs and commits. -/
def runStatement (s : RollupState) (g : Granularity) (windowStart : ℤ) : RollupState :=
  { s with
    rollups := update s.rollups g (upsertAll AdherenceRollup.key
      (rollupRows dateTrunc g windowStart s.events) (s.rollups g))
    settled := update s.settled g (s.closed g)
    seen := update s.seen g ((s.events.map (keyOf dateTrunc g)).filter fun k =>
      Includes dateTrunc g windowStart s.events k ∨
        Misses dateTrunc g windowStart s.events k ∧ k ∈ s.seen g) }

def rollupStep (s : RollupState) : RollupStep → Option RollupState
  | .store event =>
    if keyOf dateTrunc .hour event ∉ s.closed .hour ∧ keyOf dateTrunc .day event ∉ s.closed .day
    then some { s with
      events := s.events ++ [event]
      seen := fun g => (s.seen g).filter (· ≠ keyOf dateTrunc g event) }
    else none
  | .tick hourlyNow dailyNow =>
    if s.now ≤ hourlyNow ∧ hourlyNow ≤ dailyNow then
      some { s with
        now := dailyNow
        ticking := if s.ticking = .idle then
          .hourly (hourlyNow - window .hour) (dailyNow - window .day) else s.ticking }
    else none
  | .statement commits throws =>
    if commits ∨ throws then
      match s.ticking with
      | .idle => none
      | .hourly hourlyWindowStart dailyWindowStart =>
        some { (if commits then runStatement dateTrunc s .hour hourlyWindowStart else s) with
          ticking := if throws then .idle else .daily dailyWindowStart }
      | .daily dailyWindowStart =>
        some { (if commits then runStatement dateTrunc s .day dailyWindowStart else s) with
          ticking := .idle }
    else none
  | .close g k =>
    if k.bucketStart < dateTrunc g s.now then
      some { s with closed := update s.closed g (s.closed g ++ [k]) }
    else none

/-! ## Rollups of whole buckets -/

/-- The row that a bucket should have. -/
def total (g : Granularity) (k : RollupKey) (events : List AdherenceEvent) :
    Option AdherenceRollup :=
  if bucket dateTrunc g k events = [] then none
  else some (rollupOf k (bucket dateTrunc g k events))

/-- A bucket that was rolled up after its last event has all of them. -/
def Settled (s : RollupState) : Prop :=
  ∀ g, ∀ k ∈ s.settled g,
    lookup AdherenceRollup.key k (s.rollups g) = total dateTrunc g k s.events

/-- The window cuts no bucket that is closed, and leaves out only those that have been seen. -/
def Fits (s : RollupState) (g : Granularity) (windowStart : ℤ) : Prop :=
  ∀ k ∈ s.closed g, Includes dateTrunc g windowStart s.events k ∨
    Misses dateTrunc g windowStart s.events k ∧ k ∈ s.seen g
  deriving Decidable

def Ticking.Fits (s : RollupState) : Ticking → Prop
  | .idle => True
  | .hourly hourlyWindowStart _ => Intraday.Fits dateTrunc s .hour hourlyWindowStart
  | .daily dailyWindowStart => Intraday.Fits dateTrunc s .day dailyWindowStart

instance (s : RollupState) : ∀ ticking : Ticking, Decidable (ticking.Fits dateTrunc s)
  | .idle => inferInstanceAs (Decidable True)
  | .hourly .. | .daily _ => inferInstanceAs (Decidable (Intraday.Fits ..))

/-- What a statement does to the buckets that are closed. -/
def WindowsFit (s : RollupState) : RollupStep → Prop
  | .statement commits _ => commits → s.ticking.Fits dateTrunc s
  | _ => True

instance (s : RollupState) : DecidablePred (WindowsFit dateTrunc s) := fun step => by
  cases step <;> unfold WindowsFit <;> infer_instance

structure RollupInv (s : RollupState) : Prop where
  count : ∀ g k, ∀ row ∈ lookup AdherenceRollup.key k (s.rollups g),
    0 < row.totalEvents ∧ row.totalEvents ≤ (bucket dateTrunc g k s.events).length
  seen : ∀ g k, k ∈ s.seen g ↔ bucket dateTrunc g k s.events ≠ [] ∧
    lookup AdherenceRollup.key k (s.rollups g) = total dateTrunc g k s.events
  settled : Settled dateTrunc s
  settled_closed : ∀ g, ∀ k ∈ s.settled g, k ∈ s.closed g

variable {dateTrunc} {g : Granularity} {k : RollupKey} {windowStart : ℤ}
  {events : List AdherenceEvent} {s t : RollupState}

/-! ## A statement -/

theorem bucket_filter : bucket dateTrunc g k (events.filter fun e => windowStart ≤ e.timestamp) =
    (bucket dateTrunc g k events).filter fun e => windowStart ≤ e.timestamp := by
  unfold bucket
  rw [filter_filter, filter_filter]
  exact filter_congr fun e _ => Bool.and_comm ..

/-- A bucket with an event in the window gets the rollup of those events; the others keep their
rows. -/
theorem lookup_rollupRows (rows : List AdherenceRollup) :
    lookup AdherenceRollup.key k
        (upsertAll AdherenceRollup.key (rollupRows dateTrunc g windowStart events) rows) =
      if Misses dateTrunc g windowStart events k then lookup AdherenceRollup.key k rows
      else some (rollupOf k
        ((bucket dateTrunc g k events).filter fun e => windowStart ≤ e.timestamp)) := by
  set scanned := events.filter fun e => windowStart ≤ e.timestamp with hscanned
  have hrow : ∀ row ∈ rollupRows dateTrunc g windowStart events, ∃ e ∈ scanned,
      keyOf dateTrunc g e = row.key ∧
        row = rollupOf row.key (bucket dateTrunc g row.key scanned) := by
    intro row hrow
    obtain ⟨k', hk', rfl⟩ := mem_map.1 hrow
    obtain ⟨e, he, rfl⟩ := mem_map.1 (mem_eraseDups.1 hk')
    exact ⟨e, he, rfl, rfl⟩
  split
  · rename_i hmisses
    refine Tables.lookup_upsertAll_of_forall_ne (fun row hmem hkey => ?_) rows
    obtain ⟨e, he, hkeyOf, -⟩ := hrow row hmem
    obtain ⟨hevent, hwindow⟩ := mem_filter.1 he
    have hlt := hmisses e (mem_filter.2 ⟨hevent, decide_eq_true (hkeyOf.trans hkey)⟩)
    exact absurd (of_decide_eq_true hwindow) (not_le.2 hlt)
  · rename_i hhits
    simp only [Misses, not_forall, not_lt] at hhits
    obtain ⟨e, he, hwindow⟩ := hhits
    obtain ⟨hevent, hkeyOf⟩ := mem_filter.1 he
    have hmem : rollupOf k (bucket dateTrunc g k scanned) ∈
        rollupRows dateTrunc g windowStart events := by
      refine mem_map_of_mem (mem_eraseDups.2 (mem_map.2 ⟨e, ?_, ?_⟩))
      · exact mem_filter.2 ⟨hevent, decide_eq_true hwindow⟩
      · exact of_decide_eq_true hkeyOf
    rw [← bucket_filter]
    refine Tables.lookup_upsertAll_of_mem hmem rfl (fun row hmem' hkey => ?_) rows
    obtain ⟨-, -, -, heq⟩ := hrow row hmem'
    rw [heq, hkey]
    rfl

theorem lookup_runStatement (s : RollupState) (g' : Granularity) :
    lookup AdherenceRollup.key k ((runStatement dateTrunc s g windowStart).rollups g') =
      if g' = g ∧ ¬ Misses dateTrunc g windowStart s.events k then
        some (rollupOf k
          ((bucket dateTrunc g k s.events).filter fun e => windowStart ≤ e.timestamp))
      else lookup AdherenceRollup.key k (s.rollups g') := by
  by_cases hg : g' = g
  · subst hg
    simp only [runStatement, update_self, lookup_rollupRows, true_and, ite_not]
  · simp only [runStatement, update_of_ne hg, hg, false_and, if_false]

/-- A window that has some events of a bucket gives it the rollup of all exactly when it includes
them all. -/
theorem rollupOf_filter_iff (hhits : ¬ Misses dateTrunc g windowStart events k) :
    some (rollupOf k ((bucket dateTrunc g k events).filter fun e => windowStart ≤ e.timestamp)) =
      total dateTrunc g k events ↔ Includes dateTrunc g windowStart events k := by
  have hsome : bucket dateTrunc g k events ≠ [] := by
    intro hnil
    refine hhits fun e he => ?_
    rw [hnil] at he
    cases he
  rw [total, if_neg hsome, Option.some.injEq]
  constructor
  · intro heq
    have hlength := congrArg AdherenceRollup.totalEvents heq
    have hall := (length_filter_eq_length_iff.1 hlength)
    exact fun e he => of_decide_eq_true (hall e he)
  · intro hincludes
    rw [filter_eq_self.2 fun e he => decide_eq_true (hincludes e he)]

theorem bucket_ne_nil_iff :
    k ∈ events.map (keyOf dateTrunc g) ↔ bucket dateTrunc g k events ≠ [] := by
  rw [mem_map, Ne, bucket, filter_eq_nil_iff]
  simp

theorem mem_settled_runStatement (s : RollupState) (g' : Granularity) :
    k ∈ (runStatement dateTrunc s g windowStart).settled g' ↔
      if g' = g then k ∈ s.closed g else k ∈ s.settled g' := by
  by_cases hg : g' = g
  · subst hg
    simp [runStatement]
  · simp [runStatement, hg]

theorem mem_seen_runStatement (s : RollupState) (g' : Granularity) :
    k ∈ (runStatement dateTrunc s g windowStart).seen g' ↔
      if g' = g then bucket dateTrunc g k s.events ≠ [] ∧
        (Includes dateTrunc g windowStart s.events k ∨
          Misses dateTrunc g windowStart s.events k ∧ k ∈ s.seen g)
      else k ∈ s.seen g' := by
  by_cases hg : g' = g
  · subst hg
    simp only [runStatement, update_self, mem_filter, bucket_ne_nil_iff, decide_eq_true_eq, if_true]
  · simp [runStatement, hg]

theorem seen_runStatement (h : RollupInv dateTrunc s) (g' : Granularity) (k : RollupKey) :
    k ∈ (runStatement dateTrunc s g windowStart).seen g' ↔ bucket dateTrunc g' k s.events ≠ [] ∧
      lookup AdherenceRollup.key k ((runStatement dateTrunc s g windowStart).rollups g') =
        total dateTrunc g' k s.events := by
  rw [lookup_runStatement, mem_seen_runStatement]
  by_cases hg : g' = g
  · subst hg
    rw [if_pos rfl]
    simp only [true_and]
    refine and_congr_right fun hsome => ?_
    split
    · rename_i hhits
      rw [rollupOf_filter_iff hhits]
      exact or_iff_left fun hmisses => hhits hmisses.1
    · rename_i hmisses
      rw [not_not] at hmisses
      obtain ⟨e, he⟩ := exists_mem_of_ne_nil _ hsome
      have hno : ¬ Includes dateTrunc g' windowStart s.events k :=
        fun hincludes => absurd (hincludes e he) (not_le.2 (hmisses e he))
      rw [or_iff_right hno, and_iff_right hmisses, h.seen, and_iff_right hsome]
  · rw [if_neg hg, if_neg fun hand => hg hand.1]
    exact h.seen g' k

theorem RollupInv.lookup_of_nil (h : RollupInv dateTrunc s)
    (hnil : bucket dateTrunc g k s.events = []) :
    lookup AdherenceRollup.key k (s.rollups g) = total dateTrunc g k s.events := by
  rw [total, if_pos hnil]
  by_contra hsome
  obtain ⟨row, hrow⟩ := Option.ne_none_iff_exists'.1 hsome
  obtain ⟨hpos, hle⟩ := h.count g k row hrow
  rw [hnil] at hle
  exact absurd (hpos.trans_le hle) (lt_irrefl 0)

theorem inv_runStatement (h : RollupInv dateTrunc s) (hfits : Fits dateTrunc s g windowStart) :
    RollupInv dateTrunc (runStatement dateTrunc s g windowStart) := by
  have hcount : ∀ g' k, ∀ row ∈ lookup AdherenceRollup.key k
      ((runStatement dateTrunc s g windowStart).rollups g'),
        0 < row.totalEvents ∧ row.totalEvents ≤ (bucket dateTrunc g' k s.events).length := by
    intro g' k row hrow
    rw [lookup_runStatement] at hrow
    split at hrow
    · rename_i hhits
      cases hrow
      obtain ⟨rfl, hhits⟩ := hhits
      simp only [Misses, not_forall, not_lt] at hhits
      obtain ⟨e, he, hwindow⟩ := hhits
      exact ⟨length_pos_of_mem (mem_filter.2 ⟨he, decide_eq_true hwindow⟩), length_filter_le _ _⟩
    · exact h.count g' k row hrow
  refine ⟨hcount, seen_runStatement h, fun g' k hk => ?_, fun g' k hk => ?_⟩
  · rw [mem_settled_runStatement] at hk
    split at hk
    · rename_i hg
      subst hg
      by_cases hsome : bucket dateTrunc g' k s.events = []
      · rw [lookup_runStatement, if_neg]
        · exact h.lookup_of_nil hsome
        · refine fun hhits => hhits.2 fun e he => ?_
          rw [hsome] at he
          cases he
      · refine ((seen_runStatement h g' k).1 ?_).2
        rw [mem_seen_runStatement, if_pos rfl]
        exact ⟨hsome, hfits k hk⟩
    · rename_i hg
      rw [lookup_runStatement, if_neg fun hand => hg hand.1]
      exact h.settled g' k hk
  · rw [mem_settled_runStatement] at hk
    split at hk
    · rename_i hg
      exact hg ▸ hk
    · exact h.settled_closed g' k hk

/-- A statement whose window cuts a closed bucket, or comes too late for it, leaves a closed bucket
without its rollup. -/
theorem not_settled_runStatement (h : RollupInv dateTrunc s)
    (hno : ¬ Fits dateTrunc s g windowStart) :
    ¬ Settled dateTrunc (runStatement dateTrunc s g windowStart) := by
  intro hsettled
  refine hno fun k hk => ?_
  by_cases hsome : bucket dateTrunc g k s.events = []
  · refine .inl fun e he => ?_
    rw [hsome] at he
    cases he
  · have hrow := hsettled g k (by rwa [mem_settled_runStatement, if_pos rfl])
    have hseen := (seen_runStatement h g k).2 ⟨hsome, hrow⟩
    rw [mem_seen_runStatement, if_pos rfl] at hseen
    exact hseen.2

/-! ## The steps -/

theorem inv_store (h : RollupInv dateTrunc s) {event : AdherenceEvent}
    (hopen : ∀ g, keyOf dateTrunc g event ∉ s.closed g) :
    RollupInv dateTrunc { s with
      events := s.events ++ [event]
      seen := fun g => (s.seen g).filter (· ≠ keyOf dateTrunc g event) } := by
  have hbucket : ∀ g k, bucket dateTrunc g k (s.events ++ [event]) =
      bucket dateTrunc g k s.events ++ if keyOf dateTrunc g event = k then [event] else [] := by
    intro g k
    simp only [bucket, filter_append, filter_cons, filter_nil, decide_eq_true_eq]
  have hother : ∀ {g k}, keyOf dateTrunc g event ≠ k →
      bucket dateTrunc g k (s.events ++ [event]) = bucket dateTrunc g k s.events := by
    intro g k hne
    rw [hbucket, if_neg hne, append_nil]
  refine ⟨fun g k row hrow => ?_, fun g k => ?_, fun g k hk => ?_, h.settled_closed⟩
  · obtain ⟨hpos, hle⟩ := h.count g k row hrow
    refine ⟨hpos, hle.trans ?_⟩
    rw [hbucket, length_append]
    exact Nat.le_add_right _ _
  · rw [mem_filter, decide_eq_true_eq]
    by_cases hkey : keyOf dateTrunc g event = k
    · -- the row of the bucket counts fewer events
      refine iff_of_false (fun hmem => hmem.2 hkey.symm) fun hrow => ?_
      rw [total, if_neg hrow.1] at hrow
      have hcount := (h.count g k _ hrow.2).2
      change (bucket dateTrunc g k (s.events ++ [event])).length ≤ _ at hcount
      rw [hbucket, if_pos hkey, length_append, length_singleton] at hcount
      omega
    · rw [total, hother hkey, ← total, ← h.seen g k]
      exact and_iff_left (Ne.symm hkey)
  · have hkey : keyOf dateTrunc g event ≠ k :=
      fun hkey => hopen g (hkey ▸ h.settled_closed g k hk)
    rw [total, hother hkey, ← total]
    exact h.settled g k hk

theorem RollupInv.congr (h : RollupInv dateTrunc s) (hevents : t.events = s.events)
    (hrollups : t.rollups = s.rollups) (hseen : t.seen = s.seen) (hsettled : t.settled = s.settled)
    (hclosed : ∀ g, ∀ k ∈ s.closed g, k ∈ t.closed g) : RollupInv dateTrunc t := by
  refine ⟨?_, ?_, ?_, ?_⟩
  · rw [hevents, hrollups]
    exact h.count
  · rw [hevents, hrollups, hseen]
    exact h.seen
  · unfold Settled
    rw [hevents, hrollups, hsettled]
    exact h.settled
  · rw [hsettled]
    exact fun g k hk => hclosed g k (h.settled_closed g k hk)

theorem statement_cases (h : RollupInv dateTrunc s) (commits : Bool) (ticking : Ticking) :
    let t := { (if commits then runStatement dateTrunc s g windowStart else s) with
      ticking := ticking }
    ((commits → Fits dateTrunc s g windowStart) ∧ RollupInv dateTrunc t) ∨
      (¬ (commits → Fits dateTrunc s g windowStart) ∧ ¬ Settled dateTrunc t) := by
  cases commits with
  | false =>
    refine .inl ⟨fun hno => Bool.noConfusion hno, ?_⟩
    exact h.congr rfl rfl rfl rfl fun _ _ hk => hk
  | true =>
    by_cases hfits : Fits dateTrunc s g windowStart
    · refine .inl ⟨fun _ => hfits, ?_⟩
      exact (inv_runStatement h hfits).congr rfl rfl rfl rfl fun _ _ hk => hk
    · exact .inr ⟨fun hall => hfits (hall rfl), not_settled_runStatement h hfits⟩

/-- A step keeps the rollups of the closed buckets, or is a statement whose window does not fit and
loses one. -/
theorem rollupStep_cases {step : RollupStep} (h : RollupInv dateTrunc s)
    (hstep : rollupStep dateTrunc s step = some t) :
    (WindowsFit dateTrunc s step ∧ RollupInv dateTrunc t) ∨
      (¬ WindowsFit dateTrunc s step ∧ ¬ Settled dateTrunc t) := by
  cases step with
  | store event =>
    simp only [rollupStep] at hstep
    split at hstep
    · rename_i hopen
      cases hstep
      refine .inl ⟨trivial, inv_store h fun g => ?_⟩
      cases g
      · exact hopen.1
      · exact hopen.2
    · cases hstep
  | tick hourlyNow dailyNow =>
    simp only [rollupStep] at hstep
    split at hstep
    · cases hstep
      exact .inl ⟨trivial, h.congr rfl rfl rfl rfl fun _ _ hk => hk⟩
    · cases hstep
  | statement commits throws =>
    simp only [rollupStep] at hstep
    split at hstep
    · unfold WindowsFit
      split at hstep
      · cases hstep
      · rename_i hourlyWindowStart dailyWindowStart hticking
        cases hstep
        rw [hticking]
        exact statement_cases h commits _
      · rename_i dailyWindowStart hticking
        cases hstep
        rw [hticking]
        exact statement_cases h commits _
    · cases hstep
  | close g k =>
    simp only [rollupStep] at hstep
    split at hstep
    · cases hstep
      refine .inl ⟨trivial, h.congr rfl rfl rfl rfl fun g' k' hk => ?_⟩
      dsimp only
      by_cases hg : g' = g
      · subst hg
        rw [update_self]
        exact mem_append_left _ hk
      · rwa [update_of_ne hg]
    · cases hstep

/-! ## Runs of the scheduler -/

def RollupState.init (now : ℤ) : RollupState :=
  { events := []
    rollups := fun _ => []
    ticking := .idle
    now := now
    closed := fun _ => []
    settled := fun _ => []
    seen := fun _ => [] }

theorem inv_init_rollups (now : ℤ) : RollupInv dateTrunc (.init now) where
  count := fun _ _ _ hrow => absurd hrow (Option.not_mem_none _)
  seen := fun _ _ => iff_of_false not_mem_nil fun h => h.1 rfl
  settled := fun _ _ hk => absurd hk not_mem_nil
  settled_closed := fun _ _ hk => absurd hk not_mem_nil

/-- **When the rollups converge**: in every state of a run the buckets that are over, with all their
events stored and a statement run since, have the rollup of all their events, exactly when the
window of every statement includes all events of each bucket that is closed, or none of them and an
earlier statement had included them all. -/
theorem settled_iff (now : ℤ) {steps : List RollupStep}
    (h : Runs.exec (rollupStep dateTrunc) (.init now) steps = some t) :
    Runs.Always (rollupStep dateTrunc) (Settled dateTrunc) (.init now) steps ↔
      Runs.Meets (rollupStep dateTrunc) (WindowsFit dateTrunc) (.init now) steps := by
  refine Runs.always_iff_meets (fun _ => RollupInv.settled) (fun s step t hinv hok hstep => ?_)
    (fun s step t hinv hno hstep => ?_) (inv_init_rollups now) h
  · exact (rollupStep_cases hinv hstep).elim And.right fun h => absurd hok h.1
  · exact (rollupStep_cases hinv hstep).elim (fun h => absurd h.1 hno) And.right

end Rollup

/-! ## A day of an agent -/

def dateTruncUtc : Granularity → ℤ → ℤ
  | .hour, t => t / 3600000 * 3600000
  | .day, t => t / 86400000 * 86400000

/-- The event of an agent off shift at a minute of the day. -/
def offShiftAt (minute : ℤ) : AdherenceEvent :=
  { tenantId := 7
    employeeId := 3
    eventType := "activity_changed"
    fromActivity := none
    toActivity := "call"
    scheduledActivity := none
    deviationSeconds := 60
    timestamp := minute * 60000 }

/-- Two events late in the first day, and ticks a few milliseconds after the hour. -/
def lateEvents : List RollupStep :=
  [.store (offShiftAt 1390), .store (offShiftAt 1430), .tick 86400005 86400005,
    .close .hour ⟨7, 3, 82800000⟩, .close .day ⟨7, 3, 0⟩, .statement true false,
    .statement true false, .tick 90000005 90000005, .statement true false, .statement true false]

theorem lateEvents_settled :
    Runs.Always (rollupStep dateTruncUtc) (Settled dateTruncUtc) (.init 0) lateEvents := by
  obtain ⟨t, ht, -⟩ : ∃ t, Runs.exec (rollupStep dateTruncUtc) (.init 0) lateEvents = some t ∧
      t.ticking = .idle := Runs.exists_exec (by decide)
  exact (settled_iff 0 ht).2 (by decide)

/-- An event in the morning and one in the evening of the first day, and a tick at noon of the third
one. -/
def noonTick : List RollupStep :=
  [.store (offShiftAt 60), .store (offShiftAt 1200), .tick 86400005 86400005,
    .statement true false, .statement true false, .close .day ⟨7, 3, 0⟩, .tick 216000005 216000005,
    .statement true false, .statement true false]

/-- The daily row counts one event of two. -/
theorem noonTick_not_settled : ∃ t, Runs.exec (rollupStep dateTruncUtc) (.init 0) noonTick =
      some t ∧
    lookup AdherenceRollup.key ⟨7, 3, 0⟩ (t.rollups .day) = some ⟨⟨7, 3, 0⟩, 1, 1, 60⟩ ∧
    total dateTruncUtc .day ⟨7, 3, 0⟩ t.events = some ⟨⟨7, 3, 0⟩, 2, 2, 120⟩ ∧
    ¬ Settled dateTruncUtc t := by
  obtain ⟨t, ht, hclosed, hrow, htotal⟩ : ∃ t,
      Runs.exec (rollupStep dateTruncUtc) (.init 0) noonTick = some t ∧
      ⟨7, 3, 0⟩ ∈ t.settled .day ∧
      lookup AdherenceRollup.key ⟨7, 3, 0⟩ (t.rollups .day) = some ⟨⟨7, 3, 0⟩, 1, 1, 60⟩ ∧
      total dateTruncUtc .day ⟨7, 3, 0⟩ t.events = some ⟨⟨7, 3, 0⟩, 2, 2, 120⟩ :=
    Runs.exists_exec (by decide)
  refine ⟨t, ht, hrow, htotal, fun hsettled => ?_⟩
  have heq := hsettled .day _ hclosed
  rw [hrow, htotal] at heq
  exact absurd heq (by decide)

end Workforce.Intraday
