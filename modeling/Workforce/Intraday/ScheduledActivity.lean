import Workforce.Intraday.QueueMembership

/-!
# The scheduled activity

Whether an employee is on shift is written into the live state by a tick every minute, for the
employees that have a marker: a `schedule.published` message sets the marker of its employees, and
an `assignment.changed` message that of its employee, each for a time that is counted from the
message.

* `onShift_iff`: in a run every tick within a published shift leaves its employee on shift, and
  every tick after it (with no other shift there) not on shift, exactly when at each tick the
  employee still has the marker, and is not looked at just when the shift starts, or else what is
  recorded is right already.
-/

namespace Workforce.Intraday.LiveState

open Tables List

/-- `ON_SHIFT_ACTIVITY`. -/
def onShift : String := "on_shift"

/-- What is read of a published assignment. -/
structure EmployeeShiftAssignment where
  id : ℕ
  tenantId : ℕ
  employeeId : ℕ
  /-- In milliseconds. -/
  shiftStart : ℕ
  shiftEnd : ℕ

def EmployeeShiftAssignment.Of (x : EmployeeShiftAssignment) (tenantId employeeId : ℕ) : Prop :=
  x.tenantId = tenantId ∧ x.employeeId = employeeId
  deriving Decidable

structure ScheduleState (F : Type*) where
  redis : Redis F
  /-- The assignments of published schedules, in the scheduling service. -/
  published : List EmployeeShiftAssignment
  /-- When the tick that has just completed began, and when it was over. -/
  lastTick : Option (ℕ × ℕ)

section Services

variable {F : Type*}

/-- `DEFAULT_TRACKED_EMPLOYEE_TTL_SECONDS`. -/
def defaultTrackedEmployeeTtlSeconds : ℕ := 48 * 60 * 60

/-- What the scheduling service answers: `shift_start < to AND shift_end > from`. -/
def getShiftAssignments (published : List EmployeeShiftAssignment)
    (tenantId employeeId windowStart windowEnd : ℕ) : List EmployeeShiftAssignment :=
  published.filter fun x =>
    x.Of tenantId employeeId ∧ x.shiftStart < windowEnd ∧ windowStart < x.shiftEnd

/-- `ScheduledActivityService.refresh`. -/
def Redis.refresh (r : Redis F) (published : List EmployeeShiftAssignment)
    (tenantId employeeId now : ℕ) : Redis F :=
  let assignments := getShiftAssignments published tenantId employeeId now now
  r.writeAgentLiveState tenantId employeeId now
    { scheduledActivity := some (if assignments = [] then none else some onShift) }

/-- What both consumers do for an employee of a message. -/
def Redis.track (r : Redis F) (published : List EmployeeShiftAssignment) (ttlSeconds tenantId : ℕ)
    (visit : ℕ × ℕ) : Redis F :=
  (r.trackEmployeeForScheduleSync tenantId visit.1 visit.2 ttlSeconds).refresh published tenantId
    visit.1 visit.2

/-- The employees found by a scan are refreshed one by one, each with its reading of the clock. -/
def Redis.runOnce (r : Redis F) (published : List EmployeeShiftAssignment)
    (visits : List ((ℕ × ℕ) × ℕ)) : Redis F :=
  visits.foldl (fun r v => r.refresh published v.1.1 v.1.2 v.2) r

end Services

/-! ## Runs -/

section Runs

variable {F : Type*} (ttlSeconds : ℕ)

inductive ScheduleStep
  /-- A schedule is published, and its message is handled, each employee at a time. -/
  | schedulePublished (tenantId : ℕ) (assignments : List EmployeeShiftAssignment)
      (visits : List (ℕ × ℕ))
  /-- An assignment goes to another employee, and the message is handled. -/
  | assignmentChanged (assignmentId employeeId now : ℕ)
  | agentStateChanged (payload : AgentStateChangedPayload) (now : ℕ)
  /-- A tick with the time of its scan, the time of each refresh, and the time it is over. -/
  | tick (start : ℕ) (visits : List ((ℕ × ℕ) × ℕ)) (stop : ℕ)

/-- What a scan returns: the employees that are tracked, in some order, some of them perhaps more
than once; they are refreshed before the tick is over. -/
structure Scanned (r : Redis F) (start : ℕ) (visits : List ((ℕ × ℕ) × ℕ)) (stop : ℕ) : Prop where
  tracked : ∀ k, k ∈ visits.map Prod.fst ↔ k ∈ r.listTrackedEmployees start
  within : ∀ v ∈ visits, start ≤ v.2 ∧ v.2 ≤ stop

instance (r : Redis F) (start : ℕ) (visits : List ((ℕ × ℕ) × ℕ)) (stop : ℕ) :
    Decidable (Scanned r start visits stop) :=
  decidable_of_iff ((∀ k ∈ visits.map Prod.fst, k ∈ r.listTrackedEmployees start) ∧
      (∀ k ∈ r.listTrackedEmployees start, k ∈ visits.map Prod.fst) ∧
      ∀ v ∈ visits, start ≤ v.2 ∧ v.2 ≤ stop)
    ⟨fun h => ⟨fun k => ⟨h.1 k, h.2.1 k⟩, h.2.2⟩,
      fun h => ⟨fun k => (h.1 k).1, fun k => (h.1 k).2, h.2⟩⟩

def scheduleStep (s : ScheduleState F) : ScheduleStep → Option (ScheduleState F)
  | .schedulePublished tenantId assignments visits =>
    if (∀ x ∈ assignments, x.tenantId = tenantId ∧ x.employeeId ∈ visits.map Prod.fst) ∧
        ∀ x ∈ assignments, x.id ∉ s.published.map (·.id) then
      let published := s.published ++ assignments
      some
        { redis := visits.foldl (fun r v => r.track published ttlSeconds tenantId v) s.redis
          published := published
          lastTick := none }
    else none
  | .assignmentChanged assignmentId employeeId now =>
    match lookup (·.id) assignmentId s.published with
    | none => none
    | some x =>
      let published :=
        modify (·.id) assignmentId (fun x => { x with employeeId := employeeId }) s.published
      some
        { redis := s.redis.track published ttlSeconds x.tenantId (employeeId, now)
          published := published
          lastTick := none }
  | .agentStateChanged payload now =>
    some { s with redis := s.redis.handlePayload payload now, lastTick := none }
  | .tick start visits stop =>
    if Scanned s.redis start visits stop then
      some { s with redis := s.redis.runOnce s.published visits, lastTick := some (start, stop) }
    else none

variable (s : ScheduleState F)

def ScheduleState.init : ScheduleState F := ⟨.init, [], none⟩

/-- The scheduled activity that is recorded of an employee. -/
def Redis.activityOf (r : Redis F) (k : ℕ × ℕ) : Option String :=
  (r.agents k.1 k.2).scheduledActivity

def EmployeeShiftAssignment.key (x : EmployeeShiftAssignment) : ℕ × ℕ := (x.tenantId, x.employeeId)

/-- The tick is within the shift. -/
def EmployeeShiftAssignment.Contains (x : EmployeeShiftAssignment) (start stop : ℕ) : Prop :=
  x.shiftStart ≤ start ∧ stop < x.shiftEnd
  deriving Decidable

/-- The tick is after the shift, and no shift of the employee covers a part of it. -/
def EmployeeShiftAssignment.Over (x : EmployeeShiftAssignment)
    (published : List EmployeeShiftAssignment) (start stop : ℕ) : Prop :=
  x.shiftEnd ≤ start ∧
    ∀ y ∈ published, y.key = x.key → ¬ (y.shiftStart ≤ stop ∧ start < y.shiftEnd)
  deriving Decidable

/-- What is recorded is what a shift asks for during a tick. -/
structure Follows (r : Redis F) (published : List EmployeeShiftAssignment)
    (x : EmployeeShiftAssignment) (start stop : ℕ) : Prop where
  inside : x.Contains start stop → r.activityOf x.key = some onShift
  after : x.Over published start stop → r.activityOf x.key ≠ some onShift

/-- After a tick, the recorded activities follow the published shifts. -/
def ScheduleState.OnShift : Prop :=
  ∀ tick ∈ s.lastTick, ∀ x ∈ s.published, Follows s.redis s.published x tick.1 tick.2

/-- When an employee is looked at last. -/
def lastVisit (visits : List ((ℕ × ℕ) × ℕ)) (k : ℕ × ℕ) : Option ℕ :=
  visits.foldl (fun last v => if v.1 = k then some v.2 else last) none

instance (r : Redis F) (published : List EmployeeShiftAssignment) (x : EmployeeShiftAssignment)
    (start stop : ℕ) : Decidable (Follows r published x start stop) :=
  decidable_of_iff (_ ∧ _) ⟨fun h => ⟨h.1, h.2⟩, fun h => ⟨h.1, h.2⟩⟩

/-- At a tick, an employee who has the marker is not looked at just when the shift starts, unless
another shift covers that time; for one whose marker has expired, what is recorded is right. -/
def InTime : ScheduleStep → Prop
  | .tick start visits stop =>
    ∀ x ∈ s.published,
      if x.key ∈ s.redis.listTrackedEmployees start then
        x.Contains start stop → lastVisit visits x.key = some x.shiftStart →
          ∃ y ∈ s.published, y.key = x.key ∧ y.shiftStart < x.shiftStart ∧
            x.shiftStart < y.shiftEnd
      else Follows s.redis s.published x start stop
  | _ => True

instance : DecidablePred (InTime s) := fun a => by
  cases a <;> unfold InTime <;> infer_instance

end Runs

/-! ## What a tick records -/

section Tick

variable {F : Type*} {r : Redis F} {published : List EmployeeShiftAssignment}
  {visits : List ((ℕ × ℕ) × ℕ)} {k : ℕ × ℕ} {start stop : ℕ}

variable {x : EmployeeShiftAssignment}

theorem mem_getShiftAssignments {tenantId employeeId now : ℕ} :
    x ∈ getShiftAssignments published tenantId employeeId now now ↔
      x ∈ published ∧ x.key = (tenantId, employeeId) ∧ x.shiftStart < now ∧ now < x.shiftEnd := by
  unfold getShiftAssignments
  rw [mem_filter, decide_eq_true_eq]
  simp only [EmployeeShiftAssignment.Of, EmployeeShiftAssignment.key, Prod.mk.injEq]

theorem activityOf_refresh (v : (ℕ × ℕ) × ℕ) :
    (r.refresh published v.1.1 v.1.2 v.2).activityOf k =
      if v.1 = k then
        if getShiftAssignments published k.1 k.2 v.2 v.2 = [] then none else some onShift
      else r.activityOf k := by
  obtain ⟨⟨tenantId, employeeId⟩, now⟩ := v
  obtain ⟨tenantId', employeeId'⟩ := k
  by_cases ht : tenantId' = tenantId
  · subst ht
    by_cases he : employeeId' = employeeId
    · subst he
      simp [Redis.refresh, Redis.activityOf, Redis.writeAgentLiveState, AgentLiveState.write,
        writeField]
    · have he' : employeeId ≠ employeeId' := fun h => he h.symm
      simp [Redis.refresh, Redis.activityOf, Redis.writeAgentLiveState, he, he']
  · have ht' : tenantId ≠ tenantId' := fun h => ht h.symm
    simp [Redis.refresh, Redis.activityOf, Redis.writeAgentLiveState, ht, ht']

theorem lastVisit_concat (v : (ℕ × ℕ) × ℕ) :
    lastVisit (visits ++ [v]) k = if v.1 = k then some v.2 else lastVisit visits k := by
  simp [lastVisit, foldl_append]

theorem mem_of_lastVisit {now : ℕ} (h : lastVisit visits k = some now) : (k, now) ∈ visits := by
  induction visits using reverseRecOn with
  | nil => cases h
  | append_singleton visits v ih =>
    rw [lastVisit_concat] at h
    split at h
    · rename_i hk
      cases h
      rw [← hk]
      exact mem_concat_self
    · exact mem_append_left _ (ih h)

theorem lastVisit_eq_none_iff : lastVisit visits k = none ↔ k ∉ visits.map Prod.fst := by
  induction visits using reverseRecOn with
  | nil => simp [lastVisit]
  | append_singleton visits v ih =>
    rw [lastVisit_concat]
    by_cases hk : v.1 = k
    · simp [hk]
    · have hk' : k ≠ v.1 := fun h => hk h.symm
      simp [hk, hk', ih]

theorem activityOf_runOnce :
    (r.runOnce published visits).activityOf k =
      match lastVisit visits k with
      | none => r.activityOf k
      | some now =>
        if getShiftAssignments published k.1 k.2 now now = [] then none else some onShift := by
  induction visits using reverseRecOn with
  | nil => rfl
  | append_singleton visits v ih =>
    have hstep : r.runOnce published (visits ++ [v]) =
        (r.runOnce published visits).refresh published v.1.1 v.1.2 v.2 := by
      simp [Redis.runOnce, foldl_append]
    rw [hstep, activityOf_refresh, lastVisit_concat]
    by_cases hk : v.1 = k
    · simp [hk]
    · simp only [hk, if_false]
      exact ih

theorem follows_of_not_tracked (hscan : Scanned r start visits stop)
    (hx : x.key ∉ r.listTrackedEmployees start) :
    Follows (r.runOnce published visits) published x start stop ↔
      Follows r published x start stop := by
  have hnone : lastVisit visits x.key = none :=
    lastVisit_eq_none_iff.2 fun h => hx ((hscan.tracked _).1 h)
  have hsame : (r.runOnce published visits).activityOf x.key = r.activityOf x.key := by
    rw [activityOf_runOnce, hnone]
  exact ⟨fun h => ⟨fun hin => hsame ▸ h.inside hin, fun hover => hsame ▸ h.after hover⟩,
    fun h => ⟨fun hin => hsame ▸ h.inside hin, fun hover => hsame ▸ h.after hover⟩⟩

/-- An employee who is looked at is recorded rightly, unless that is just when the shift starts. -/
theorem follows_of_tracked (hscan : Scanned r start visits stop) (hmem : x ∈ published)
    (hx : x.key ∈ r.listTrackedEmployees start) :
    Follows (r.runOnce published visits) published x start stop ↔
      (x.Contains start stop → lastVisit visits x.key = some x.shiftStart →
        ∃ y ∈ published, y.key = x.key ∧ y.shiftStart < x.shiftStart ∧
          x.shiftStart < y.shiftEnd) := by
  obtain ⟨now, hnow⟩ : ∃ now, lastVisit visits x.key = some now := by
    rw [← Option.ne_none_iff_exists']
    exact fun hnone => lastVisit_eq_none_iff.1 hnone ((hscan.tracked _).2 hx)
  obtain ⟨hstart, hstop⟩ := hscan.within _ (mem_of_lastVisit hnow)
  have hactivity : (r.runOnce published visits).activityOf x.key =
      if getShiftAssignments published x.key.1 x.key.2 now now = [] then none
      else some onShift := by
    rw [activityOf_runOnce, hnow]
  have hcovered : getShiftAssignments published x.key.1 x.key.2 now now ≠ [] ↔
      ∃ y ∈ published, y.key = x.key ∧ y.shiftStart < now ∧ now < y.shiftEnd := by
    rw [Ne, eq_nil_iff_forall_not_mem]
    simp only [mem_getShiftAssignments, not_forall, not_not]
  rw [hnow]
  constructor
  · intro h hin heq
    cases heq
    refine hcovered.1 fun hnil => ?_
    have hon := h.inside hin
    rw [hactivity, if_pos hnil] at hon
    cases hon
  · intro h
    refine ⟨fun hin => ?_, fun hover => ?_⟩
    · rw [hactivity, if_neg]
      refine hcovered.2 ?_
      by_cases heq : now = x.shiftStart
      · subst heq
        exact h hin rfl
      · exact ⟨x, hmem, rfl, by have := hin.1; omega, by have := hin.2; omega⟩
    · rw [hactivity, if_pos]
      · exact fun h => by cases h
      · by_contra hne
        obtain ⟨y, hy, hkey, hlt, hgt⟩ := hcovered.1 hne
        exact hover.2 y hy hkey ⟨by omega, by omega⟩

end Tick

/-! ## Runs of messages and ticks -/

section Always

variable {F : Type*} {ttlSeconds : ℕ} {s t : ScheduleState F} {a : ScheduleStep}

theorem onShift_step (hstep : scheduleStep ttlSeconds s a = some t) : t.OnShift ↔ InTime s a := by
  cases a with
  | schedulePublished tenantId assignments visits =>
    simp only [scheduleStep] at hstep
    split at hstep
    · cases hstep
      exact iff_of_true forall_mem_none trivial
    · cases hstep
  | assignmentChanged assignmentId employeeId now =>
    simp only [scheduleStep] at hstep
    split at hstep
    · cases hstep
    · cases hstep
      exact iff_of_true forall_mem_none trivial
  | agentStateChanged payload now =>
    cases hstep
    exact iff_of_true forall_mem_none trivial
  | tick start visits stop =>
    simp only [scheduleStep] at hstep
    split at hstep
    · rename_i hscan
      cases hstep
      simp only [ScheduleState.OnShift, Option.mem_def, Option.some.injEq, forall_eq', InTime]
      refine forall₂_congr fun x hx => ?_
      split
      · rename_i htracked
        exact follows_of_tracked hscan hx htracked
      · rename_i htracked
        exact follows_of_not_tracked hscan htracked
    · cases hstep

/-- **When the scheduled activity follows the published shifts**: in a run every tick within a
published shift leaves its employee on shift, and every tick after it (with no other shift there)
not on shift, exactly when at each tick the employee still has the marker, and is not looked at just
when the shift starts, or else what is recorded is right already. -/
theorem onShift_iff {steps : List ScheduleStep}
    (hrun : Runs.exec (scheduleStep ttlSeconds) .init steps = some t) :
    Runs.Always (scheduleStep ttlSeconds) ScheduleState.OnShift (.init : ScheduleState F) steps ↔
      Runs.Meets (scheduleStep ttlSeconds) InTime (.init : ScheduleState F) steps := by
  refine Runs.always_iff_meets (I := ScheduleState.OnShift) (fun _ h => h) ?_ ?_ forall_mem_none
    hrun
  · exact fun s a t _ hok hstep => (onShift_step hstep).2 hok
  · exact fun s a t _ hno hstep h => hno ((onShift_step hstep).1 h)

/-- A schedule with one shift is published at the time zero; the hours of the shift are given. -/
def publishShift (shiftStart shiftEnd : ℕ) : ScheduleStep :=
  .schedulePublished 1 [⟨1, 1, 7, shiftStart * 3600000, shiftEnd * 3600000⟩] [(7, 0)]

/-- A tick on the hour that looks at the employee. -/
def look (hour : ℕ) : ScheduleStep :=
  .tick (hour * 3600000) [((1, 7), hour * 3600000 + 40)] (hour * 3600000 + 50)

/-- A tick on the hour that finds no marker. -/
def miss (hour : ℕ) : ScheduleStep := .tick (hour * 3600000) [] (hour * 3600000 + 50)

abbrev defaultScheduleStep : ScheduleState ℤ → ScheduleStep → Option (ScheduleState ℤ) :=
  scheduleStep defaultTrackedEmployeeTtlSeconds

/-- A shift on the day after. -/
theorem onShift_nextDay :
    Runs.Always defaultScheduleStep ScheduleState.OnShift .init
      [publishShift 30 38, look 29, look 30, look 38] := by
  have hrun : ∃ t, Runs.exec defaultScheduleStep .init
      [publishShift 30 38, look 29, look 30, look 38] = some t ∧
        t.redis.activityOf (1, 7) = none := Runs.exists_exec (by decide)
  obtain ⟨t, ht, -⟩ := hrun
  exact (onShift_iff ht).2 (by decide)

/-- A shift three days ahead is never noticed; one that ends after the marker has expired goes on
for ever. -/
theorem onShift_expired :
    (∃ t, Runs.exec defaultScheduleStep .init [publishShift 72 80, miss 73] = some t ∧
        ¬ t.OnShift) ∧
      ∃ t, Runs.exec defaultScheduleStep .init [publishShift 44 52, look 45, miss 53] = some t ∧
        ¬ t.OnShift := by
  have hmissed : ∃ t, Runs.exec defaultScheduleStep .init [publishShift 72 80, miss 73] = some t ∧
      ¬ ∀ tick ∈ t.lastTick, ∀ x ∈ t.published, Follows t.redis t.published x tick.1 tick.2 :=
    Runs.exists_exec (by decide)
  have hstale : ∃ t,
      Runs.exec defaultScheduleStep .init [publishShift 44 52, look 45, miss 53] = some t ∧
        ¬ ∀ tick ∈ t.lastTick, ∀ x ∈ t.published, Follows t.redis t.published x tick.1 tick.2 :=
    Runs.exists_exec (by decide)
  exact ⟨hmissed, hstale⟩

end Always

end Workforce.Intraday.LiveState
