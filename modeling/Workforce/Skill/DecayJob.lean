import Workforce.Foundations.Runs
import Mathlib.Data.List.Sort

/-!
# The nightly skill decay

`SkillDecayJobService.runForTenant`, for one tenant and one date. A call pages through the employees
by id, applies the decay step to a batch, records its progress in the row of the run, and at the end
marks the run completed and records an alert for every skill that expires soon. Each of these is a
transaction of its own. Any number of calls may be under way, a transaction may fail, or commit
without its caller seeing that, and a call may crash at any point.

A batch that fails is passed over, a batch whose progress is not recorded is applied again, and
alerts come after the completion. `Action.Undisturbed` leaves out the runs in which two calls
overlap or a call is cut off where it cannot be resumed; in all others every employee that was there
throughout gets the decay step once, unless its batch failed, and every alert is recorded once.
-/

namespace Workforce.Skills

open Runs List Function

/-! ## The tables -/

inductive DecayJobRunStatus
  | running | completed | failed
  deriving DecidableEq

/-- The row of the run in `decay_job_runs`; there is one for a tenant and a date. -/
structure DecayJobRun where
  status : DecayJobRunStatus
  lastProcessedEmployeeId : Option ℕ
  employeesProcessed : ℕ
  failuresCount : ℕ
  deriving DecidableEq

/-- A skill of an employee. -/
structure EmployeeSkill where
  employeeId : ℕ
  skillId : ℕ
  deriving DecidableEq

/-- What comes of a transaction. -/
inductive Outcome
  | done
  | rolledBack
  /-- It has committed, and its caller gets an error. -/
  | unseen
  deriving DecidableEq

def Outcome.commits : Outcome → Bool
  | .rolledBack => false
  | _ => true

/-- Where a call of `runForTenant` is. -/
inductive Call
  | idle
  /-- `findForDate` has returned. -/
  | found (run : Option DecayJobRun)
  /-- At the start of the loop. -/
  | paging (cursor : Option ℕ)
  | batch (employeeIds : List ℕ)
  /-- The decay step of a batch has been tried. -/
  | applied (employeeIds : List ℕ) (batchFailures : ℕ)
  /-- The loop has ended. -/
  | completing
  /-- `markCompleted` has returned. -/
  | completed
  /-- Alerts still to record. -/
  | alerting (skills : List EmployeeSkill)
  /-- In the `catch` of the whole job. -/
  | failing
  deriving DecidableEq

/-- The row of the run, its calls, and what has been done to whom. -/
structure State where
  employees : List ℕ
  decayJobRun : Option DecayJobRun
  calls : ℕ → Call
  /-- The skills that `findExpiringWithin` selects, in its order. -/
  expiring : List EmployeeSkill
  /-- How often the decay step has been applied to an employee. -/
  applied : ℕ → ℕ
  /-- The `SkillExpiring` events on the outbox. -/
  alerts : List EmployeeSkill
  /-- The employees when the run was created. None is ever deleted. -/
  present : List ℕ
  /-- The employees when the run was marked completed. -/
  final : List ℕ
  /-- Those whose batch was rolled back when it was last tried. -/
  skipped : ℕ → Bool
  /-- The skills that have been expiring ever since the run was marked completed. -/
  due : List EmployeeSkill

/-- The default of `batchSize`. -/
def defaultBatchSize : ℕ := 200

/-- The limit on the skills to alert on. -/
def alertLimit : ℕ := 100000

/-- `id > afterId`, when there is a cursor. -/
def beyond (afterId : Option ℕ) (id : ℕ) : Bool := afterId.all (· < id)

namespace State

def init : State := ⟨[], none, fun _ => .idle, [], fun _ => 0, [], [], [], fun _ => false, []⟩

variable (s : State)

/-- The next page of the ids, after the last one processed. -/
def findIdsPage (afterId : Option ℕ) (limit : ℕ) : List ℕ :=
  ((s.employees.filter (beyond afterId)).insertionSort (· ≤ ·)).take limit

def findExpiringWithin : List EmployeeSkill := s.expiring.take alertLimit

def goTo (call : ℕ) (c : Call) : State := { s with calls := update s.calls call c }

/-- An update of the row of the run. -/
def updateRun (f : DecayJobRun → DecayJobRun) : State :=
  { s with decayJobRun := s.decayJobRun.map f }

def isCompleted : Bool := s.decayJobRun.any (·.status = .completed)

/-! ## The transactions -/

def createRunning : State :=
  { s with decayJobRun := some ⟨.running, none, 0, 0⟩, present := s.employees }

def markRunning : State := s.updateRun fun r => { r with status := .running }

def applyDecayForEmployees (employeeIds : List ℕ) : State :=
  { s with
    applied := fun id => if id ∈ employeeIds then s.applied id + 1 else s.applied id
    skipped := fun id => if id ∈ employeeIds then false else s.skipped id }

/-- The decay step is rolled back. -/
def skip (employeeIds : List ℕ) : State :=
  { s with skipped := fun id => if id ∈ employeeIds then true else s.skipped id }

def recordProgress (employeeIds : List ℕ) (batchFailures : ℕ) : State :=
  s.updateRun fun r =>
    { r with
      lastProcessedEmployeeId := employeeIds.getLast?
      employeesProcessed := r.employeesProcessed + employeeIds.length
      failuresCount := r.failuresCount + batchFailures }

def markCompleted : State :=
  { s.updateRun fun r => { r with status := .completed } with
    final := s.employees
    due := s.expiring }

def markFailed : State := s.updateRun fun r => { r with status := .failed }

def record (skill : EmployeeSkill) : State := { s with alerts := s.alerts ++ [skill] }

/-- A transaction, by what comes of it. -/
def transact (f : State → State) (outcome : Outcome) : State := if outcome.commits then f s else s

/-- A call goes on after a transaction, or elsewhere when it gets an error. -/
def transactTo (f : State → State) (outcome : Outcome) (call : ℕ) (next error : Call) : State :=
  (s.transact f outcome).goTo call (if outcome = .done then next else error)

end State

/-- After the alerts for some skills are recorded, the call ends. -/
def Call.alertingOn : List EmployeeSkill → Call
  | [] => .idle
  | skills => .alerting skills

/-! ## Steps -/

inductive Action
  | hire (id : ℕ)
  /-- The skills that are expiring change. -/
  | setExpiring (skills : List EmployeeSkill)
  | find (call : ℕ)
  /-- The row of the run is created or marked running. -/
  | start (call : ℕ) (outcome : Outcome)
  | page (call : ℕ) (error : Bool)
  | apply (call : ℕ) (outcome : Outcome)
  | recordProgress (call : ℕ) (outcome : Outcome)
  | markCompleted (call : ℕ) (outcome : Outcome)
  | findExpiring (call : ℕ) (error : Bool)
  /-- The next alert is recorded, and its manager notified. -/
  | record (call : ℕ) (outcome : Outcome)
  | markFailed (call : ℕ) (outcome : Outcome)
  | crash (call : ℕ)

def step (s : State) : Action → Option State
  | .hire id => if id ∈ s.employees then none else some { s with employees := s.employees ++ [id] }
  | .setExpiring skills =>
    if skills.Nodup then some { s with expiring := skills, due := s.due.filter (· ∈ skills) }
    else none
  | .find call =>
    match s.calls call with
    | .idle =>
      if s.isCompleted then some s
      else some (s.goTo call (.found s.decayJobRun))
    | _ => none
  | .start call outcome =>
    match s.calls call with
    | .found none =>
      -- the unique constraint on tenant and date
      if s.decayJobRun.isSome then some (s.goTo call .idle)
      else some (s.transactTo State.createRunning outcome call (.paging none) .idle)
    | .found (some run) =>
      some (s.transactTo State.markRunning outcome call (.paging run.lastProcessedEmployeeId) .idle)
    | _ => none
  | .page call error =>
    match s.calls call with
    | .paging cursor =>
      if error then some (s.goTo call .failing)
      else
        match s.findIdsPage cursor defaultBatchSize with
        | [] => some (s.goTo call .completing)
        | id :: ids => some (s.goTo call (.batch (id :: ids)))
    | _ => none
  | .apply call outcome =>
    match s.calls call with
    | .batch ids =>
      let batchFailures := if outcome = .done then 0 else ids.length
      some ((if outcome.commits then s.applyDecayForEmployees ids else s.skip ids).goTo call
        (.applied ids batchFailures))
    | _ => none
  | .recordProgress call outcome =>
    match s.calls call with
    | .applied ids batchFailures =>
      some (s.transactTo (·.recordProgress ids batchFailures) outcome call (.paging ids.getLast?)
        .failing)
    | _ => none
  | .markCompleted call outcome =>
    match s.calls call with
    | .completing => some (s.transactTo State.markCompleted outcome call .completed .failing)
    | _ => none
  | .findExpiring call error =>
    match s.calls call with
    | .completed =>
      some (s.goTo call (if error then .failing else Call.alertingOn s.findExpiringWithin))
    | _ => none
  | .record call outcome =>
    match s.calls call with
    | .alerting (skill :: skills) =>
      some (s.transactTo (·.record skill) outcome call (Call.alertingOn skills) .failing)
    | _ => none
  | .markFailed call outcome =>
    match s.calls call with
    | .failing => some (s.transactTo State.markFailed outcome call .idle .idle)
    | _ => none
  | .crash call => some (s.goTo call .idle)

/-! ## What is asked of it -/

/-- Every alert that was due has been recorded exactly once, and no other one more often. -/
def State.AlertedOnce (s : State) : Prop :=
  (∀ skill ∈ s.due, s.alerts.count skill = 1) ∧ ∀ skill, s.alerts.count skill ≤ 1

/-- When the run is completed, the decay step has been applied exactly once to every employee that
was there throughout, and they have been counted; once no call is under way, all alerts have been
recorded. -/
def State.DecayedOnce (s : State) : Prop :=
  ∀ r, s.decayJobRun = some r → r.status = .completed →
    (∀ id ∈ s.present, s.applied id = 1) ∧ r.employeesProcessed = s.present.length ∧
      ((∀ call, s.calls call = .idle) → s.AlertedOnce)

/-- The same, but batches that have failed are passed over and counted as failures, and employees
hired in the meantime may be processed too. -/
def State.DecayedUnlessSkipped (s : State) : Prop :=
  ∀ r, s.decayJobRun = some r → r.status = .completed →
    (∀ id ∈ s.present, s.applied id = if s.skipped id then 0 else 1) ∧
      (∀ id, s.applied id ≤ 1) ∧
      (s.present.filter s.skipped).length ≤ r.failuresCount ∧
      s.present.length ≤ r.employeesProcessed ∧ r.employeesProcessed ≤ s.final.length ∧
      ((∀ call, s.calls call = .idle) → s.AlertedOnce)

/-- A call that may not be cut off: between a batch that has been applied and the record of its
progress, or between the completion of the run and the last alert. -/
def State.Critical (s : State) : Call → Bool
  | .applied ids _ => ids.any (!s.skipped ·)
  | .completed | .alerting _ => true
  | .failing => s.isCompleted
  | _ => false

/-- The condition on a step. No call begins while another one is under way on a run that is not
completed. No call is cut off between a batch that has been applied and the record of its progress,
or between the completion of the run and the last alert, unless no alert has been recorded and the
run is marked failed. The skills to alert on fit the limit. -/
def Action.Undisturbed (s : State) : Action → Prop
  | .find _ => s.isCompleted ∨ ∀ call, s.calls call = .idle
  | .recordProgress call outcome => outcome = .rolledBack → s.Critical (s.calls call) = false
  | .findExpiring _ error => error = false → s.expiring.length ≤ alertLimit
  | .record _ outcome => outcome = .done ∨ outcome = .rolledBack ∧ s.alerts = []
  | .markFailed call outcome => outcome = .rolledBack → s.Critical (s.calls call) = false
  | .crash call => s.Critical (s.calls call) = false
  | _ => True

/-! ## A page of employees -/

/-- The ids are the next ones after the cursor; none of those present is left out. -/
structure Page (employees present : List ℕ) (cursor : Option ℕ) (ids : List ℕ) : Prop where
  nodup : ids.Nodup
  mem : ∀ id ∈ ids, id ∈ employees ∧ beyond cursor id ∧ beyond ids.getLast? id = false
  /-- What is beyond the page is beyond the cursor. -/
  beyond_of_beyond : ∀ id, beyond ids.getLast? id → beyond cursor id
  complete : ∀ id ∈ present, beyond cursor id → beyond ids.getLast? id = false → id ∈ ids

theorem beyond_some {c id : ℕ} : beyond (some c) id = true ↔ c < id := by
  simp [beyond]

variable {cursor : Option ℕ}

theorem beyond_trans {c id : ℕ} (h : beyond cursor c) (hlt : c < id) :
    beyond cursor id := by
  cases cursor with
  | none => rfl
  | some b => exact beyond_some.2 ((beyond_some.1 h).trans hlt)

variable {s t : State}

theorem beyond_eq_false_of_page (h : s.findIdsPage cursor defaultBatchSize = []) {id : ℕ}
    (hid : id ∈ s.employees) :
    beyond cursor id = false := by
  rw [State.findIdsPage, take_eq_nil_iff] at h
  have hnil : (s.employees.filter (beyond cursor)).insertionSort (· ≤ ·) = [] :=
    h.resolve_left (by decide)
  by_contra hbeyond
  have hmem : id ∈ (s.employees.filter (beyond cursor)).insertionSort (· ≤ ·) := by
    rw [mem_insertionSort, mem_filter]
    exact ⟨hid, by simpa using hbeyond⟩
  rw [hnil] at hmem
  cases hmem

theorem mem_take_iff {l : List ℕ} (hsorted : l.Pairwise (· ≤ ·)) (hnodup : l.Nodup) {n c : ℕ}
    (hlast : (l.take n).getLast? = some c) {x : ℕ} (hx : x ∈ l) : x ∈ l.take n ↔ ¬ c < x := by
  obtain ⟨front, hfront⟩ := getLast?_eq_some_iff.1 hlast
  have hsplit : l = front ++ [c] ++ l.drop n := by rw [← hfront, take_append_drop]
  rw [hsplit] at hsorted hnodup hx
  rw [hfront]
  obtain ⟨hfront', -, hafter⟩ := pairwise_append.1 hsorted
  obtain ⟨-, -, hdistinct⟩ := nodup_append.1 hnodup
  constructor
  · intro hmem
    rcases mem_append.1 hmem with hmem | hmem
    · exact not_lt.2 ((pairwise_append.1 hfront').2.2 x hmem c (by simp))
    · rw [mem_singleton.1 hmem]
      exact lt_irrefl c
  · intro hnot
    refine (mem_append.1 hx).resolve_right fun hdrop => hnot ?_
    have hle := hafter c (by simp) x hdrop
    have hne := hdistinct c (by simp) x hdrop
    omega

theorem page_findIdsPage (hids : s.employees.Nodup)
    (hpresent : ∀ id ∈ s.present, id ∈ s.employees)
    (hne : s.findIdsPage cursor defaultBatchSize ≠ []) :
    Page s.employees s.present cursor (s.findIdsPage cursor defaultBatchSize) := by
  set l := (s.employees.filter (beyond cursor)).insertionSort (· ≤ ·) with hl
  have hpage : s.findIdsPage cursor defaultBatchSize = l.take defaultBatchSize := rfl
  have hsorted : l.Pairwise (· ≤ ·) := pairwise_insertionSort _ _
  have hnodup : l.Nodup := (perm_insertionSort _ _).nodup_iff.2 (hids.filter _)
  have hmem : ∀ {id}, id ∈ l ↔ id ∈ s.employees ∧ beyond cursor id := by
    intro id
    rw [hl, mem_insertionSort, mem_filter]
  rw [hpage] at hne ⊢
  obtain ⟨c, hc⟩ : ∃ c, (l.take defaultBatchSize).getLast? = some c := by
    rw [← Option.isSome_iff_exists, getLast?_isSome]
    exact hne
  have hcl : c ∈ l := mem_of_mem_take (mem_of_getLast? hc)
  have hiff : ∀ {id}, id ∈ l → (id ∈ l.take defaultBatchSize ↔ beyond (some c) id = false) := by
    intro id hid
    rw [mem_take_iff hsorted hnodup hc hid, ← beyond_some, Bool.not_eq_true]
  refine ⟨hnodup.sublist (take_sublist _ _), fun id hid => ?_, fun id hid => ?_,
    fun id hid hbeyond hlast => ?_⟩
  · have hid' := mem_of_mem_take hid
    obtain ⟨hemployee, hbeyond⟩ := hmem.1 hid'
    exact ⟨hemployee, hbeyond, hc ▸ (hiff hid').1 hid⟩
  · rw [hc] at hid
    exact beyond_trans (hmem.1 hcl).2 (beyond_some.1 hid)
  · rw [hc] at hlast
    exact (hiff (hmem.2 ⟨hpresent id hid, hbeyond⟩)).2 hlast

/-! ## The invariant -/

/-- The employees of a batch whose progress is still to be recorded. -/
def Call.inFlight : Call → List ℕ
  | .applied ids _ => ids
  | _ => []

/-- The decay step has been tried for the employees of the recorded batches and of the batch in
flight. -/
structure Progress (s : State) (r : DecayJobRun) (processed flight : List ℕ) : Prop where
  nodup : processed.Nodup
  mem : ∀ id ∈ processed, id ∈ s.employees ∧ beyond r.lastProcessedEmployeeId id = false
  covers : ∀ id ∈ s.present, beyond r.lastProcessedEmployeeId id = false → id ∈ processed
  count : r.employeesProcessed = processed.length
  applied : ∀ id, s.applied id = if id ∈ processed ++ flight ∧ s.skipped id = false then 1 else 0
  failures : (processed.filter s.skipped).length ≤ r.failuresCount

/-- What the only call under way knows of a run that is not completed. -/
def Call.Fits (s : State) (r : DecayJobRun) : Call → Prop
  | .idle | .failing => True
  | .found run => run = some r
  | .paging cursor => cursor = r.lastProcessedEmployeeId
  | .batch ids => Page s.employees s.present r.lastProcessedEmployeeId ids
  | .applied ids batchFailures => Page s.employees s.present r.lastProcessedEmployeeId ids ∧
      (ids.filter s.skipped).length ≤ batchFailures
  | .completing => ∀ id ∈ s.present, beyond r.lastProcessedEmployeeId id = false
  | .completed | .alerting _ => False

/-- The alerts recorded and those still to record are all that are due. -/
structure Covers (alerts due pending : List EmployeeSkill) : Prop where
  nodup : (alerts ++ pending).Nodup
  mem : ∀ skill ∈ due, skill ∈ alerts ++ pending

/-- What the only call under way has still to do for a completed run. -/
def Call.AlertsFit (alerts due : List EmployeeSkill) : Call → Prop
  | .idle => Covers alerts due []
  | .completed | .failing => alerts = []
  | .alerting skills => Covers alerts due skills
  | _ => False

/-- What holds once a call has found no further page. -/
structure Completed (s : State) (r : DecayJobRun) (processed : List ℕ) (p : Call) : Prop extends
    Progress s r processed [] where
  reached : ∀ id ∈ s.present, beyond r.lastProcessedEmployeeId id = false
  le_final : processed.length ≤ s.final.length
  alerts : p.AlertsFit s.alerts s.due

/-- How far the run is, when `p` is the only call that may be under way. -/
inductive Stage (s : State) (p : Call) : Prop
  | unstarted (hrun : s.decayJobRun = none) (happlied : ∀ id, s.applied id = 0)
    (halerts : s.alerts = []) (hcall : p = .idle ∨ p = .found none)
  | running (r : DecayJobRun) (processed : List ℕ) (hrun : s.decayJobRun = some r)
    (hstatus : r.status ≠ .completed) (halerts : s.alerts = [])
    (h : Progress s r processed p.inFlight) (hfits : p.Fits s r)
  | completed (r : DecayJobRun) (processed : List ℕ) (hrun : s.decayJobRun = some r)
    (hstatus : r.status = .completed) (h : Completed s r processed p)

/-- At most this call is under way, and it is there. -/
def State.Only (s : State) (call : ℕ) (p : Call) : Prop :=
  s.calls = update (fun _ => .idle) call p

/-- What holds of the tables in every state. -/
structure Tables (s : State) : Prop where
  employees : s.employees.Nodup
  present : s.present.Nodup
  subset : ∀ id ∈ s.present, id ∈ s.employees
  expiring : s.expiring.Nodup
  due : ∀ skill ∈ s.due, skill ∈ s.expiring

structure Inv (s : State) : Prop extends Tables s where
  stage : ∃ call p, s.Only call p ∧ Stage s p

theorem inv_init : Inv State.init := by
  refine ⟨⟨.nil, .nil, by simp [State.init], .nil, by simp [State.init]⟩, 0, .idle, ?_, ?_⟩
  · exact (update_eq_self 0 fun _ => Call.idle).symm
  · exact .unstarted rfl (fun _ => rfl) rfl (.inl rfl)

variable {call : ℕ} {p : Call}

theorem State.Only.eq (h : s.Only call p) : s.calls call = p := by
  rw [h, update_self]

theorem State.Only.eq_idle (h : s.Only call p) (hidle : ∀ call, s.calls call = .idle) :
    p = .idle := h.eq.symm.trans (hidle call)

theorem Covers.alertedOnce (h : Covers s.alerts s.due []) : s.AlertedOnce := by
  obtain ⟨hnodup, hmem⟩ := h
  rw [append_nil] at hnodup hmem
  exact ⟨fun skill hskill => count_eq_one_of_mem hnodup (hmem skill hskill),
    nodup_iff_count_le_one.1 hnodup⟩

theorem Inv.decayedUnlessSkipped (h : Inv s) : s.DecayedUnlessSkipped := by
  intro r hr hcompleted
  obtain ⟨call, p, honly, hstage⟩ := h.stage
  cases hstage with
  | unstarted hrun => rw [hrun] at hr; cases hr
  | running r' _ hrun hstatus =>
    obtain rfl := Option.some.inj (hrun.symm.trans hr)
    exact absurd hcompleted hstatus
  | completed r' processed hrun _ hdone =>
    obtain rfl := Option.some.inj (hrun.symm.trans hr)
    have hsub : s.present ⊆ processed := fun id hid => hdone.covers id hid (hdone.reached id hid)
    refine ⟨fun id hid => ?_, fun id => ?_, ?_, ?_, ?_, fun hidle => ?_⟩
    · rw [hdone.applied id]
      cases hskipped : s.skipped id <;> simp [hsub hid]
    · rw [hdone.applied id]
      split <;> simp
    · refine le_trans ?_ hdone.failures
      exact (subperm_of_subset (h.present.filter _) (filter_subset _ hsub)).length_le
    · rw [hdone.count]
      exact (subperm_of_subset h.present hsub).length_le
    · rw [hdone.count]
      exact hdone.le_final
    · obtain rfl := honly.eq_idle hidle
      exact Covers.alertedOnce hdone.alerts

theorem Inv.only (h : Inv s) (hcall : s.calls call = p) (hp : p ≠ .idle) :
    s.Only call p ∧ Stage s p := by
  subst hcall
  obtain ⟨call', p, honly, hstage⟩ := h.stage
  obtain rfl : call = call' := by
    by_contra hne
    rw [honly, update_of_ne hne] at hp
    exact hp rfl
  rw [honly.eq]
  exact ⟨honly, hstage⟩

/-- The run is not completed at these points of a call. -/
def Call.Decaying : Call → Bool
  | .paging _ | .batch _ | .applied _ _ | .completing => true
  | _ => false

theorem Stage.exists_running (h : Stage s p) (hp : p.Decaying) :
    ∃ r processed, s.decayJobRun = some r ∧ r.status ≠ .completed ∧ s.alerts = [] ∧
      Progress s r processed p.inFlight ∧ p.Fits s r := by
  cases h with
  | unstarted _ _ _ hcall => rcases hcall with rfl | rfl <;> cases hp
  | running r processed hrun hstatus halerts h hfits =>
    exact ⟨r, processed, hrun, hstatus, halerts, h, hfits⟩
  | completed r processed _ _ h =>
    have halerts := h.alerts
    cases p with
    | paging | batch | applied | completing => exact False.elim halerts
    | _ => cases hp

/-- The run is completed at these points of a call. -/
def Call.Alerting : Call → Bool
  | .completed | .alerting _ => true
  | _ => false

theorem Stage.exists_completed (h : Stage s p) (hp : p.Alerting) :
    ∃ r processed, s.decayJobRun = some r ∧ r.status = .completed ∧ Completed s r processed p := by
  cases h with
  | unstarted _ _ _ hcall => rcases hcall with rfl | rfl <;> cases hp
  | running r processed _ _ _ _ hfits =>
    cases p with
    | completed | alerting => exact False.elim hfits
    | _ => cases hp
  | completed r processed hrun hstatus h => exact ⟨r, processed, hrun, hstatus, h⟩

theorem Stage.found_none (h : Stage s (.found none)) :
    s.decayJobRun = none ∧ (∀ id, s.applied id = 0) ∧ s.alerts = [] := by
  cases h with
  | unstarted hrun happlied halerts => exact ⟨hrun, happlied, halerts⟩
  | running _ _ _ _ _ _ hfits => cases hfits
  | completed _ _ _ _ h => exact False.elim h.alerts

theorem Stage.found_some {run : DecayJobRun} (h : Stage s (.found (some run))) :
    ∃ processed, s.decayJobRun = some run ∧ run.status ≠ .completed ∧ s.alerts = [] ∧
      Progress s run processed [] := by
  cases h with
  | unstarted _ _ _ hcall => simp at hcall
  | running r processed hrun hstatus halerts h hfits =>
    cases hfits
    exact ⟨processed, hrun, hstatus, halerts, h⟩
  | completed _ _ _ _ h => exact False.elim h.alerts

/-! ## Each transaction keeps it -/

theorem Stage.goTo (h : Stage s p) (call : ℕ) (q : Call) : Stage (s.goTo call q) p := by
  cases h with
  | unstarted hrun happlied halerts hcall => exact .unstarted hrun happlied halerts hcall
  | running r processed hrun hstatus halerts h hfits =>
    exact .running r processed hrun hstatus halerts { h with } hfits
  | completed r processed hrun hstatus h =>
    exact .completed r processed hrun hstatus { h with }

theorem Inv.goTo {p q : Call} (h : Tables s) (honly : s.Only call p) (hstage : Stage s q) :
    Inv (s.goTo call q) := by
  refine ⟨{ h with }, call, q, ?_, hstage.goTo call q⟩
  change update s.calls call q = _
  rw [honly, update_idem]

theorem Tables.updateRun (h : Tables s) (f : DecayJobRun → DecayJobRun) : Tables (s.updateRun f) :=
  { h with }

variable {r : DecayJobRun}

/-- The status of the run makes no difference, as long as it is not completed. -/
theorem Progress.withStatus {processed : List ℕ} (h : Progress s r processed [])
    (hrun : s.decayJobRun = some r) (halerts : s.alerts = []) {status : DecayJobRunStatus}
    (hstatus : status ≠ .completed) {q : Call}
    (hq : q = .paging r.lastProcessedEmployeeId ∨ q = .idle) :
    Stage (s.updateRun fun r => { r with status := status }) q := by
  have hrun' : (s.updateRun fun r => { r with status := status }).decayJobRun =
      some { r with status := status } := by simp [State.updateRun, hrun]
  rcases hq with rfl | rfl
  · exact .running _ processed hrun' hstatus halerts { h with } rfl
  · exact .running _ processed hrun' hstatus halerts { h with } trivial

theorem progress_createRunning (happlied : ∀ id, s.applied id = 0) :
    Progress s.createRunning ⟨.running, none, 0, 0⟩ [] [] := by
  refine ⟨.nil, by simp, fun id _ hbeyond => ?_, rfl, fun id => ?_, le_rfl⟩
  · cases hbeyond
  · simpa [State.createRunning] using happlied id

section Batch

variable {r : DecayJobRun} {processed ids : List ℕ} {batchFailures : ℕ}

theorem Progress.not_mem_of_page {flight : List ℕ} (h : Progress s r processed flight)
    (hpage : Page s.employees s.present r.lastProcessedEmployeeId ids) {id : ℕ} (hid : id ∈ ids) :
    id ∉ processed := by
  intro hprocessed
  have hbeyond := (hpage.mem id hid).2.1
  rw [(h.mem id hprocessed).2] at hbeyond
  cases hbeyond

theorem Progress.apply (h : Progress s r processed [])
    (hpage : Page s.employees s.present r.lastProcessedEmployeeId ids) :
    Progress (s.applyDecayForEmployees ids) r processed ids := by
  refine { h with applied := fun id => ?_, failures := ?_ }
  · by_cases hid : id ∈ ids
    · have hzero : s.applied id = 0 := by simp [h.applied id, h.not_mem_of_page hpage hid]
      simp [State.applyDecayForEmployees, hid, hzero]
    · simpa [State.applyDecayForEmployees, hid] using h.applied id
  · refine le_trans (Sublist.length_le (monotone_filter_right _ fun id => ?_)) h.failures
    simp only [State.applyDecayForEmployees]
    split <;> simp

theorem Progress.skip (h : Progress s r processed [])
    (hpage : Page s.employees s.present r.lastProcessedEmployeeId ids) :
    Progress (s.skip ids) r processed ids := by
  have hsame : processed.filter (s.skip ids).skipped = processed.filter s.skipped := by
    refine filter_congr fun id hid => ?_
    have hnot : id ∉ ids := fun hmem => h.not_mem_of_page hpage hmem hid
    simp [State.skip, hnot]
  refine { h with applied := fun id => ?_, failures := hsame ▸ h.failures }
  by_cases hid : id ∈ ids
  · have hzero : s.applied id = 0 := by simp [h.applied id, h.not_mem_of_page hpage hid]
    simpa [State.skip, hid] using hzero
  · simpa [State.skip, hid] using h.applied id

theorem Progress.of_skipped (h : Progress s r processed ids) (hskipped : ∀ id ∈ ids, s.skipped id) :
    Progress s r processed [] := by
  refine { h with applied := fun id => ?_ }
  rw [h.applied id]
  by_cases hid : id ∈ ids
  · simp [hskipped id hid]
  · simp [hid]

theorem Progress.recordProgress (h : Progress s r processed ids)
    (hpage : Page s.employees s.present r.lastProcessedEmployeeId ids)
    (hfailures : (ids.filter s.skipped).length ≤ batchFailures) :
    Progress (s.recordProgress ids batchFailures)
      { r with
        lastProcessedEmployeeId := ids.getLast?
        employeesProcessed := r.employeesProcessed + ids.length
        failuresCount := r.failuresCount + batchFailures } (processed ++ ids) [] := by
  refine ⟨?_, fun id hid => ?_, fun id hid hlast => ?_, ?_, fun id => ?_, ?_⟩
  · refine nodup_append.2 ⟨h.nodup, hpage.nodup, ?_⟩
    rintro id hid _ hid' rfl
    exact h.not_mem_of_page hpage hid' hid
  · rcases mem_append.1 hid with hid | hid
    · obtain ⟨hemployee, hbeyond⟩ := h.mem id hid
      refine ⟨hemployee, ?_⟩
      by_contra hlast
      have hcursor := hpage.beyond_of_beyond id (by simpa using hlast)
      rw [hbeyond] at hcursor
      cases hcursor
    · exact ⟨(hpage.mem id hid).1, (hpage.mem id hid).2.2⟩
  · cases hbeyond : beyond r.lastProcessedEmployeeId id with
    | true => exact mem_append_right _ (hpage.complete id hid hbeyond hlast)
    | false => exact mem_append_left _ (h.covers id hid hbeyond)
  · change r.employeesProcessed + ids.length = _
    rw [h.count, length_append]
  · rw [append_nil]
    exact h.applied id
  · change _ ≤ r.failuresCount + batchFailures
    rw [filter_append, length_append]
    exact Nat.add_le_add h.failures hfailures

end Batch

/-- The run is marked completed; the call need not see it. -/
theorem Progress.markCompleted {processed : List ℕ} (h : Progress s r processed [])
    (hrun : s.decayJobRun = some r) (halerts : s.alerts = [])
    (hreached : ∀ id ∈ s.present, beyond r.lastProcessedEmployeeId id = false) {q : Call}
    (hq : q = .completed ∨ q = .failing) : Stage s.markCompleted q := by
  have hlength : processed.length ≤ s.employees.length :=
    (subperm_of_subset h.nodup fun id hid => (h.mem id hid).1).length_le
  have hfits : q.AlertsFit s.alerts s.expiring := by rcases hq with rfl | rfl <;> exact halerts
  refine .completed { r with status := .completed } processed ?_ rfl
    { h with reached := hreached, le_final := hlength, alerts := hfits }
  simp [State.markCompleted, State.updateRun, hrun]

theorem Covers.alertsFit {alerts due skills : List EmployeeSkill} (h : Covers alerts due skills) :
    (Call.alertingOn skills).AlertsFit alerts due := by
  cases skills with
  | nil => exact h
  | cons => exact h

theorem Covers.findExpiring (h : Tables s) (halerts : s.alerts = [])
    (hlimit : s.expiring.length ≤ alertLimit) : Covers s.alerts s.due s.findExpiringWithin := by
  have hall : s.findExpiringWithin = s.expiring := take_of_length_le hlimit
  rw [hall, halerts]
  exact ⟨h.expiring, h.due⟩

theorem Covers.record {alerts due skills : List EmployeeSkill} {skill : EmployeeSkill}
    (h : Covers alerts due (skill :: skills)) : Covers (alerts ++ [skill]) due skills := by
  obtain ⟨hnodup, hmem⟩ := h
  rw [append_cons] at hnodup hmem
  exact ⟨hnodup, hmem⟩

theorem Call.AlertsFit.of_subset {alerts due due' : List EmployeeSkill}
    (h : p.AlertsFit alerts due) (hsub : ∀ skill ∈ due', skill ∈ due) :
    p.AlertsFit alerts due' := by
  cases p with
  | idle => exact ⟨h.nodup, fun skill hskill => h.mem skill (hsub skill hskill)⟩
  | alerting skills => exact ⟨h.nodup, fun skill hskill => h.mem skill (hsub skill hskill)⟩
  | completed | failing => exact h
  | _ => exact False.elim h

/-! ## Each step keeps it -/

theorem Progress.hire {processed flight : List ℕ} (h : Progress s r processed flight) (id : ℕ) :
    Progress { s with employees := s.employees ++ [id] } r processed flight :=
  { h with mem := fun id' hid' => (h.mem id' hid').imp_left (mem_append_left _) }

theorem Page.hire {employees present ids : List ℕ} (h : Page employees present cursor ids)
    (id : ℕ) :
    Page (employees ++ [id]) present cursor ids :=
  { h with mem := fun id' hid' => (h.mem id' hid').imp_left (mem_append_left _) }

theorem Inv.hire (h : Inv s) {id : ℕ} (hid : id ∉ s.employees) :
    Inv { s with employees := s.employees ++ [id] } := by
  refine ⟨{ h.toTables with employees := ?_, subset := ?_ }, ?_⟩
  · refine nodup_append.2 ⟨h.employees, nodup_singleton id, ?_⟩
    rintro id' hid' _ hmem rfl
    rw [mem_singleton.1 hmem] at hid'
    exact hid hid'
  · exact fun id' hid' => mem_append_left _ (h.subset id' hid')
  · obtain ⟨call, p, honly, hstage⟩ := h.stage
    refine ⟨call, p, honly, ?_⟩
    cases hstage with
    | unstarted hrun happlied halerts hcall => exact .unstarted hrun happlied halerts hcall
    | running r processed hrun hstatus halerts h hfits =>
      refine .running r processed hrun hstatus halerts (h.hire id) ?_
      cases p with
      | batch ids => exact Page.hire hfits id
      | applied ids batchFailures => exact ⟨hfits.1.hire id, hfits.2⟩
      | _ => exact hfits
    | completed r processed hrun hstatus h =>
      exact .completed r processed hrun hstatus { h with toProgress := h.toProgress.hire id }

theorem Inv.setExpiring (h : Inv s) {skills : List EmployeeSkill} (hnodup : skills.Nodup) :
    Inv { s with expiring := skills, due := s.due.filter (· ∈ skills) } := by
  refine ⟨{ h.toTables with expiring := hnodup, due := fun skill hskill => ?_ }, ?_⟩
  · simpa using (mem_filter.1 hskill).2
  · obtain ⟨call, p, honly, hstage⟩ := h.stage
    refine ⟨call, p, honly, ?_⟩
    cases hstage with
    | unstarted hrun happlied halerts hcall => exact .unstarted hrun happlied halerts hcall
    | running r processed hrun hstatus halerts h hfits =>
      exact .running r processed hrun hstatus halerts { h with } hfits
    | completed r processed hrun hstatus h =>
      refine .completed r processed hrun hstatus { h with alerts := h.alerts.of_subset ?_ }
      exact fun skill hskill => (mem_filter.1 hskill).1

theorem Inv.find (h : Inv s) (hrun : s.isCompleted = false) (hidle : ∀ call, s.calls call = .idle) :
    Inv (s.goTo call (.found s.decayJobRun)) := by
  have honly : s.Only call .idle :=
    (funext hidle).trans (update_eq_self call fun _ => Call.idle).symm
  obtain ⟨call', p, honly', hstage⟩ := h.stage
  obtain rfl := honly'.eq_idle hidle
  refine Inv.goTo h.toTables honly ?_
  cases hstage with
  | unstarted hrun' happlied halerts =>
    exact .unstarted hrun' happlied halerts (.inr (congrArg Call.found hrun'))
  | running r processed hrun' hstatus halerts h =>
    exact .running r processed hrun' hstatus halerts h hrun'
  | completed r processed hrun' hstatus =>
    simp [State.isCompleted, hrun', hstatus] at hrun

theorem skipped_of_critical {ids : List ℕ} {batchFailures : ℕ}
    (h : s.Critical (.applied ids batchFailures) = false) : ∀ id ∈ ids, s.skipped id := by
  simpa [State.Critical] using h

theorem Stage.cutOff (h : Stage s p) (hp : s.Critical p = false) : Stage s .idle := by
  cases h with
  | unstarted hrun happlied halerts => exact .unstarted hrun happlied halerts (.inl rfl)
  | running r processed hrun hstatus halerts h =>
    refine .running r processed hrun hstatus halerts ?_ trivial
    cases p with
    | applied ids => exact h.of_skipped (skipped_of_critical hp)
    | _ => exact h
  | completed r processed hrun hstatus h =>
    have halerts := h.alerts
    cases p with
    | idle => exact .completed r processed hrun hstatus h
    | completed | alerting => cases hp
    | failing => simp [State.Critical, State.isCompleted, hrun, hstatus] at hp
    | _ => exact False.elim halerts

theorem Inv.crash (h : Inv s) (hcall : s.Critical (s.calls call) = false) :
    Inv (s.goTo call .idle) := by
  by_cases hidle : s.calls call = .idle
  · have hsame : s.goTo call .idle = s := by
      rw [State.goTo, ← hidle, update_eq_self]
    rw [hsame]
    exact h
  · obtain ⟨honly, hstage⟩ := h.only rfl hidle
    exact Inv.goTo h.toTables honly (hstage.cutOff hcall)

variable {outcome : Outcome}

theorem Inv.start (h : Inv s) (hstep : step s (.start call outcome) = some t) : Inv t := by
  simp only [step] at hstep
  split at hstep
  next hcall =>
    obtain ⟨honly, hstage⟩ := h.only hcall (by simp)
    obtain ⟨hnone, happlied, halerts⟩ := hstage.found_none
    simp only [hnone, Option.isSome_none, Bool.false_eq_true, if_false, Option.some.injEq] at hstep
    subst hstep
    have htables : Tables s.createRunning :=
      { h.toTables with present := h.employees, subset := fun _ hid => hid }
    have hprogress := progress_createRunning happlied
    cases outcome with
    | done =>
      exact Inv.goTo htables honly (.running _ [] rfl (by simp) halerts hprogress rfl)
    | rolledBack =>
      exact Inv.goTo h.toTables honly (.unstarted hnone happlied halerts (.inl rfl))
    | unseen =>
      exact Inv.goTo htables honly (.running _ [] rfl (by simp) halerts hprogress trivial)
  next run hcall =>
    obtain ⟨honly, hstage⟩ := h.only hcall (by simp)
    obtain ⟨processed, hrun, hstatus, halerts, hprogress⟩ := hstage.found_some
    cases hstep
    have htables := h.toTables.updateRun fun r => { r with status := .running }
    cases outcome with
    | done =>
      exact Inv.goTo htables honly (hprogress.withStatus hrun halerts (by decide) (.inl rfl))
    | rolledBack =>
      exact Inv.goTo h.toTables honly
        (.running run processed hrun hstatus halerts hprogress trivial)
    | unseen =>
      exact Inv.goTo htables honly (hprogress.withStatus hrun halerts (by decide) (.inr rfl))
  next => cases hstep

theorem Inv.page {error : Bool} (h : Inv s) (hstep : step s (.page call error) = some t) :
    Inv t := by
  simp only [step] at hstep
  split at hstep
  next cursor hcall =>
    obtain ⟨honly, hstage⟩ := h.only hcall (by simp)
    obtain ⟨r, processed, hrun, hstatus, halerts, hprogress, hfits⟩ := hstage.exists_running rfl
    obtain rfl : cursor = r.lastProcessedEmployeeId := hfits
    have hgo : ∀ q : Call, q.inFlight = [] → q.Fits s r → Inv (s.goTo call q) := by
      intro q hflight hfits
      refine Inv.goTo h.toTables honly (.running r processed hrun hstatus halerts ?_ hfits)
      rw [hflight]
      exact hprogress
    split at hstep
    · cases hstep
      exact hgo _ rfl trivial
    · split at hstep
      next hempty =>
        cases hstep
        exact hgo _ rfl fun id hid => beyond_eq_false_of_page hempty (h.subset id hid)
      next id ids hpage =>
        cases hstep
        have hne : s.findIdsPage r.lastProcessedEmployeeId defaultBatchSize ≠ [] := by simp [hpage]
        have hfits := page_findIdsPage h.employees h.subset hne
        rw [hpage] at hfits
        exact hgo _ rfl hfits
  next => cases hstep

theorem Inv.apply (h : Inv s) (hstep : step s (.apply call outcome) = some t) : Inv t := by
  simp only [step] at hstep
  split at hstep
  next ids hcall =>
    obtain ⟨honly, hstage⟩ := h.only hcall (by simp)
    obtain ⟨r, processed, hrun, hstatus, halerts, hprogress, hfits⟩ := hstage.exists_running rfl
    have happly : ∀ batchFailures,
        Stage (s.applyDecayForEmployees ids) (.applied ids batchFailures) := by
      intro batchFailures
      refine .running r processed hrun hstatus halerts (hprogress.apply hfits) ⟨hfits, ?_⟩
      have hnone : ids.filter (s.applyDecayForEmployees ids).skipped = [] :=
        filter_eq_nil_iff.2 fun id hid => by simp [State.applyDecayForEmployees, hid]
      rw [hnone]
      exact Nat.zero_le _
    cases hstep
    cases outcome with
    | done => exact Inv.goTo { h.toTables with } honly (happly 0)
    | rolledBack =>
      refine Inv.goTo { h.toTables with } honly ?_
      exact .running r processed hrun hstatus halerts (hprogress.skip hfits)
        ⟨hfits, length_filter_le _ _⟩
    | unseen => exact Inv.goTo { h.toTables with } honly (happly ids.length)
  next => cases hstep

theorem Inv.recordProgress (h : Inv s) (hok : (Action.recordProgress call outcome).Undisturbed s)
    (hstep : step s (.recordProgress call outcome) = some t) : Inv t := by
  simp only [step] at hstep
  split at hstep
  next ids batchFailures hcall =>
    obtain ⟨honly, hstage⟩ := h.only hcall (by simp)
    obtain ⟨r, processed, hrun, hstatus, halerts, hprogress, hpage, hfailures⟩ :=
      hstage.exists_running rfl
    have hrecorded := hprogress.recordProgress hpage hfailures
    have hrun' : (s.recordProgress ids batchFailures).decayJobRun = some
        { r with
          lastProcessedEmployeeId := ids.getLast?
          employeesProcessed := r.employeesProcessed + ids.length
          failuresCount := r.failuresCount + batchFailures } := by
      simp [State.recordProgress, State.updateRun, hrun]
    cases hstep
    cases outcome with
    | done =>
      exact Inv.goTo (h.toTables.updateRun _) honly
        (.running _ (processed ++ ids) hrun' hstatus halerts hrecorded rfl)
    | rolledBack =>
      have hskipped := hok rfl
      rw [hcall] at hskipped
      exact Inv.goTo h.toTables honly (.running r processed hrun hstatus halerts
        (hprogress.of_skipped (skipped_of_critical hskipped)) trivial)
    | unseen =>
      exact Inv.goTo (h.toTables.updateRun _) honly
        (.running _ (processed ++ ids) hrun' hstatus halerts hrecorded trivial)
  next => cases hstep

theorem Inv.markCompleted (h : Inv s) (hstep : step s (.markCompleted call outcome) = some t) :
    Inv t := by
  simp only [step] at hstep
  split at hstep
  next hcall =>
    obtain ⟨honly, hstage⟩ := h.only hcall (by simp)
    obtain ⟨r, processed, hrun, hstatus, halerts, hprogress, hreached⟩ := hstage.exists_running rfl
    have htables : Tables s.markCompleted := { h.toTables with due := fun _ hskill => hskill }
    cases hstep
    cases outcome with
    | done =>
      exact Inv.goTo htables honly (hprogress.markCompleted hrun halerts hreached (.inl rfl))
    | rolledBack =>
      exact Inv.goTo h.toTables honly (.running r processed hrun hstatus halerts hprogress trivial)
    | unseen =>
      exact Inv.goTo htables honly (hprogress.markCompleted hrun halerts hreached (.inr rfl))
  next => cases hstep

theorem Inv.findExpiring {error : Bool} (h : Inv s)
    (hok : (Action.findExpiring call error).Undisturbed s)
    (hstep : step s (.findExpiring call error) = some t) : Inv t := by
  simp only [step] at hstep
  split at hstep
  next hcall =>
    obtain ⟨honly, hstage⟩ := h.only hcall (by simp)
    obtain ⟨r, processed, hrun, hstatus, hcompleted⟩ := hstage.exists_completed rfl
    have halerts : s.alerts = [] := hcompleted.alerts
    cases hstep
    cases error with
    | true =>
      exact Inv.goTo h.toTables honly
        (.completed r processed hrun hstatus { hcompleted with alerts := halerts })
    | false =>
      have hcovers := Covers.findExpiring h.toTables halerts (hok rfl)
      exact Inv.goTo h.toTables honly
        (.completed r processed hrun hstatus { hcompleted with alerts := hcovers.alertsFit })
  next => cases hstep

theorem Inv.record (h : Inv s) (hok : (Action.record call outcome).Undisturbed s)
    (hstep : step s (.record call outcome) = some t) : Inv t := by
  simp only [step] at hstep
  split at hstep
  next skill skills hcall =>
    obtain ⟨honly, hstage⟩ := h.only hcall (by simp)
    obtain ⟨r, processed, hrun, hstatus, hcompleted⟩ := hstage.exists_completed rfl
    have hcovers : Covers s.alerts s.due (skill :: skills) := hcompleted.alerts
    cases hstep
    obtain rfl | ⟨rfl, halerts⟩ := hok
    · exact Inv.goTo { h.toTables with } honly (.completed r processed hrun hstatus
        { hcompleted with alerts := hcovers.record.alertsFit })
    · exact Inv.goTo h.toTables honly
        (.completed r processed hrun hstatus { hcompleted with alerts := halerts })
  next => cases hstep

theorem Inv.markFailed (h : Inv s) (hok : (Action.markFailed call outcome).Undisturbed s)
    (hstep : step s (.markFailed call outcome) = some t) : Inv t := by
  simp only [step] at hstep
  split at hstep
  next hcall =>
    obtain ⟨honly, hstage⟩ := h.only hcall (by simp)
    have hfailed : Stage s.markFailed .idle := by
      cases hstage with
      | unstarted _ _ _ hcall => simp at hcall
      | running r processed hrun hstatus halerts h =>
        exact h.withStatus hrun halerts (by decide) (.inr rfl)
      | completed r processed hrun hstatus h =>
        exact h.toProgress.withStatus hrun h.alerts (by decide) (.inr rfl)
    cases hstep
    cases outcome with
    | rolledBack =>
      have hcritical := hok rfl
      rw [hcall] at hcritical
      exact Inv.goTo h.toTables honly (hstage.cutOff hcritical)
    | done | unseen => exact Inv.goTo (h.toTables.updateRun _) honly hfailed
  next => cases hstep

theorem Inv.step (s : State) (a : Action) (t : State) (h : Inv s) (hok : a.Undisturbed s)
    (hstep : step s a = some t) : Inv t := by
  cases a with
  | hire id =>
    simp only [Skills.step] at hstep
    split at hstep
    · cases hstep
    next hid =>
      cases hstep
      exact h.hire hid
  | setExpiring skills =>
    simp only [Skills.step] at hstep
    split at hstep
    next hnodup =>
      cases hstep
      exact h.setExpiring hnodup
    · cases hstep
  | find call =>
    simp only [Skills.step] at hstep
    split at hstep
    · split at hstep
      · cases hstep
        exact h
      next hrun =>
        cases hstep
        exact h.find (by simpa using hrun) (hok.resolve_left hrun)
    · cases hstep
  | start call outcome => exact h.start hstep
  | page call error => exact h.page hstep
  | apply call outcome => exact h.apply hstep
  | recordProgress call outcome => exact h.recordProgress hok hstep
  | markCompleted call outcome => exact h.markCompleted hstep
  | findExpiring call error => exact h.findExpiring hok hstep
  | record call outcome => exact h.record hok hstep
  | markFailed call outcome => exact h.markFailed hok hstep
  | crash call =>
    cases hstep
    exact h.crash hok

/-! ## Exactly once -/

/-- **Nightly decay is applied once**: in every run whose steps are undisturbed, whenever the run of
the date is completed, the decay step has been applied exactly once to every employee that was there
throughout and whose batch did not fail, never to the others, who are counted as failures, and
twice to nobody. All who were there throughout have been counted, and nobody who came after the
completion. Every alert is recorded exactly once. -/
theorem decay_once {as : List Action}
    (h : Meets step (fun s a => a.Undisturbed s) State.init as) :
    Always step State.DecayedUnlessSkipped State.init as :=
  always_of_invariant (fun _ => Inv.decayedUnlessSkipped) Inv.step inv_init h

/-- A batch fails, a second one fails after its commit, and the search for alerts fails; the next
call resumes the run and records the alert. -/
def resumedRun : List Action :=
  [.hire 1, .setExpiring [⟨1, 7⟩], .find 0, .start 0 .done, .page 0 false, .apply 0 .rolledBack,
    .crash 0, .find 0, .start 0 .done, .page 0 false, .apply 0 .unseen, .recordProgress 0 .done,
    .page 0 false, .markCompleted 0 .done, .findExpiring 0 true, .markFailed 0 .done, .find 0,
    .start 0 .done, .page 0 false, .markCompleted 0 .done, .findExpiring 0 false, .record 0 .done]

theorem resumedRun_once :
    (∃ t, exec step State.init resumedRun = some t ∧ t.applied 1 = 1 ∧ t.alerts = [⟨1, 7⟩] ∧
      t.decayJobRun = some ⟨.completed, some 1, 1, 1⟩) ∧
      Always step State.DecayedUnlessSkipped State.init resumedRun := by
  refine ⟨exists_exec (by decide), decay_once ?_⟩
  have hdone : Outcome.done ≠ .rolledBack := by decide
  refine .cons trivial rfl <| .cons trivial rfl <| .cons (.inr fun _ => rfl) rfl ?_
  refine .cons trivial rfl <| .cons trivial rfl <| .cons trivial rfl <| .cons rfl rfl ?_
  refine .cons (.inr fun call => ?_) rfl ?_
  · cases call with
    | zero => rfl
    | succ call => rfl
  refine .cons trivial rfl <| .cons trivial rfl <| .cons trivial rfl ?_
  refine .cons (fun hrolled => absurd hrolled hdone) rfl <| .cons trivial rfl ?_
  refine .cons trivial rfl <| .cons (fun herror => nomatch herror) rfl ?_
  refine .cons (fun hrolled => absurd hrolled hdone) rfl ?_
  refine .cons (.inr fun call => ?_) rfl ?_
  · cases call with
    | zero => rfl
    | succ call => rfl
  refine .cons trivial rfl <| .cons trivial rfl <| .cons trivial rfl ?_
  exact .cons (fun _ => by decide) rfl <| .cons (.inl rfl) rfl meets_nil

/-- A batch is rolled back and passed over. -/
def passedOverRun : List Action :=
  [.hire 1, .find 0, .start 0 .done, .page 0 false, .apply 0 .rolledBack, .recordProgress 0 .done,
    .page 0 false, .markCompleted 0 .done]

/-- Somebody is hired before the first page. -/
def hiredRun : List Action :=
  [.hire 1, .find 0, .start 0 .done, .hire 2, .page 0 false, .apply 0 .done,
    .recordProgress 0 .done, .page 0 false, .markCompleted 0 .done]

/-- A call crashes between a batch and the record of its progress. -/
def crashedRun : List Action :=
  [.hire 1, .find 0, .start 0 .done, .page 0 false, .apply 0 .done, .crash 0, .find 0,
    .start 0 .done, .page 0 false, .apply 0 .done, .recordProgress 0 .done, .page 0 false,
    .markCompleted 0 .done]

/-- Two calls are under way on the same run. -/
def overlappingRun : List Action :=
  [.hire 1, .find 0, .start 0 .done, .find 1, .start 1 .done, .page 0 false, .page 1 false,
    .apply 0 .done, .recordProgress 0 .done, .apply 1 .done, .recordProgress 1 .done, .page 0 false,
    .markCompleted 0 .done]

/-- A call crashes between the completion and the alert. -/
def unalertedRun : List Action :=
  [.setExpiring [⟨1, 7⟩], .find 0, .start 0 .done, .page 0 false, .markCompleted 0 .done, .crash 0]

theorem not_always_of_count {as : List Action}
    (h : ∃ t, exec step State.init as = some t ∧ ∃ r ∈ t.decayJobRun, r.status = .completed ∧
      ((∃ id ∈ t.present, t.applied id ≠ 1) ∨ r.employeesProcessed ≠ t.present.length)) :
    ¬ Always step State.DecayedOnce State.init as := by
  intro hall
  obtain ⟨t, ht, r, hr, hstatus, hne⟩ := h
  obtain ⟨happlied, hcount, -⟩ := hall as t (prefix_refl as) ht r hr hstatus
  rcases hne with ⟨id, hid, hne⟩ | hne
  · exact hne (happlied id hid)
  · exact hne hcount

theorem decay_not_once :
    ¬ Always step State.DecayedOnce State.init passedOverRun ∧
      ¬ Always step State.DecayedOnce State.init hiredRun ∧
      ¬ Always step State.DecayedOnce State.init crashedRun ∧
      ¬ Always step State.DecayedOnce State.init overlappingRun ∧
      ¬ Always step State.DecayedOnce State.init unalertedRun := by
  refine ⟨not_always_of_count ⟨_, rfl, _, rfl, by decide⟩,
    not_always_of_count ⟨_, rfl, _, rfl, by decide⟩,
    not_always_of_count ⟨_, rfl, _, rfl, by decide⟩,
    not_always_of_count ⟨_, rfl, _, rfl, by decide⟩, fun hall => ?_⟩
  have halerts := (hall unalertedRun _ (prefix_refl _) rfl _ rfl rfl).2.2 fun call => ?_
  · have hcount := halerts.1 ⟨1, 7⟩ (by decide)
    revert hcount
    decide
  · cases call with
    | zero => rfl
    | succ call => rfl

end Workforce.Skills
