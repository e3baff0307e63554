import Workforce.Foundations.Runs
import Workforce.Foundations.Tables

/-!
# The queue of schedule jobs

`queue_service.claim_next_job` and `reap_stuck_jobs`, the worker loop and `job_service.execute_job`
over the tables `schedule_jobs` and `schedules`, with any number of workers.

A worker's claim, its load of the job and its final commit are three steps, between which the other
workers and their reaper sweeps move. The final commit flushes the loaded entity: the columns the
execution changed are written by id, whatever the row has become, and the new schedule is inserted.
Nothing in it looks at `claimed_by`.
-/

namespace Workforce.Scheduling

open Tables

/-! ## The tables -/

inductive JobStatus
  | queued | solving | completed | infeasible | failed
  deriving DecidableEq

inductive JobKind
  | submit | relaxationApproval | reoptimize
  deriving DecidableEq

/-- The `failureReason` of a job. -/
structure FailureReason where
  code : String
  message : String
  deriving DecidableEq

/-- What `_build_relaxations_applied` records. -/
structure AttemptedRelaxations where
  attemptedCategories : List String
  feasible : Bool
  costSummary : String
  explanation : String
  approved : Bool
  approvedAt : Option ℤ
  approvedBy : Option ℕ
  deriving DecidableEq

/-- The `relaxations_applied` column: the recorded search, and the reason of a failure. -/
structure RelaxationsApplied where
  attempted : Option AttemptedRelaxations
  failureReason : Option FailureReason
  deriving DecidableEq

structure ScheduleJob where
  id : ℕ
  tenantId : ℕ
  orgUnitId : ℕ
  status : JobStatus
  jobKind : JobKind
  requestPayload : Option String
  targetScheduleId : Option ℕ
  requestedBy : Option ℕ
  claimedBy : Option ℕ
  solvingStartedAt : Option ℤ
  attemptCount : ℕ
  requestedAt : ℤ
  completedAt : Option ℤ
  solveDurationMs : Option ℕ
  objectiveScore : Option ℤ
  decompositionPlan : Option String
  relaxationsApplied : Option RelaxationsApplied
  solveInputSnapshot : Option String

/-- A row of `schedules`, in status `draft`. -/
structure Schedule where
  id : ℕ
  tenantId : ℕ
  scheduleJobId : ℕ
  orgUnitId : ℕ
  createdAt : ℤ

/-- The settings `worker_reaper_stuck_threshold_seconds` and `worker_reaper_max_attempts`; times
are in seconds. -/
structure ReaperSettings where
  thresholdSeconds : ℕ
  maxAttempts : ℕ

/-! ## Claim and reaper -/

/-- The `WHERE` clause of the claim. -/
def ScheduleJob.claimable (job : ScheduleJob) : Bool :=
  job.status = .queued && (job.jobKind ≠ .submit || job.requestPayload.isSome)

/-- The `SET` clause of the claim. -/
def ScheduleJob.claim (worker : ℕ) (now : ℤ) (job : ScheduleJob) : ScheduleJob :=
  { job with status := .solving, claimedBy := some worker, solvingStartedAt := some now }

/-- `status = 'solving' AND solving_started_at < now() - threshold`. -/
def ScheduleJob.stuck (cfg : ReaperSettings) (now : ℤ) (job : ScheduleJob) : Bool :=
  job.status = .solving &&
    match job.solvingStartedAt with
    | none => false
    | some startedAt => startedAt < now - cfg.thresholdSeconds

def reaperReason (cfg : ReaperSettings) : FailureReason where
  code := "REAPER_MAX_ATTEMPTS_EXCEEDED"
  message := s!"stuck in 'solving' past the {cfg.thresholdSeconds}s reaper threshold " ++
    s!"{cfg.maxAttempts} times in a row"

/-- `reap_stuck_jobs` on one row: `_REAP_REQUEUE_STMT` and `_REAP_FAIL_STMT` in one transaction. A
requeued row is no longer `solving` when the second statement runs. -/
def ScheduleJob.reap (cfg : ReaperSettings) (now : ℤ) (job : ScheduleJob) : ScheduleJob :=
  if job.stuck cfg now then
    if job.attemptCount < cfg.maxAttempts then
      { job with
        status := .queued, claimedBy := none, solvingStartedAt := none
        attemptCount := job.attemptCount + 1 }
    else
      { job with
        status := .failed, completedAt := some now
        relaxationsApplied := some {
          attempted := job.relaxationsApplied.bind (·.attempted)
          failureReason := some (reaperReason cfg) } }
  else job

/-! ## Execution of a job -/

/-- What resolving, decomposing and solving a job's input came to. -/
inductive Outcome
  /-- The input resolves to nothing to solve. -/
  | noInput
  /-- Every group is feasible. -/
  | solved (now : ℤ) (solveDurationMs : ℕ) (objectiveScore : Option ℤ) (decompositionPlan : String)
      (scheduleId : ℕ)
  /-- Some group is infeasible; the relaxation search found this. -/
  | infeasible (now : ℤ) (solveDurationMs : ℕ) (search : AttemptedRelaxations) (snapshot : String)
  /-- Some group is unknown. -/
  | unknown (now : ℤ) (solveDurationMs : ℕ)
  /-- A `DomainError` or a `CommercialFallbackRequiredError`. -/
  | error (now : ℤ) (reason : FailureReason)

/-- The assertions at the start of `_execute_submit`, `_execute_relaxation_approval` and
`_execute_reoptimize`. -/
def ScheduleJob.executable (job : ScheduleJob) : Bool :=
  match job.jobKind with
  | .submit => job.requestPayload.isSome
  | .relaxationApproval =>
    (job.relaxationsApplied.bind (·.attempted)).isSome && job.solveInputSnapshot.isSome
  | .reoptimize => job.requestPayload.isSome && job.targetScheduleId.isSome

/-- `_fail_job`. -/
def ScheduleJob.fail (job : ScheduleJob) (now : ℤ) (reason : FailureReason) : ScheduleJob :=
  { job with
    status := .failed, completedAt := some now
    relaxationsApplied := some {
      attempted := job.relaxationsApplied.bind (·.attempted), failureReason := some reason } }

/-- The approval a re-proof records. -/
def ScheduleJob.recordApproval (job : ScheduleJob) (now : ℤ) : Option RelaxationsApplied :=
  match job.jobKind with
  | .relaxationApproval => job.relaxationsApplied.map fun r =>
      { r with attempted := r.attempted.map fun a =>
        { a with approved := true, approvedAt := some now, approvedBy := job.requestedBy } }
  | _ => job.relaxationsApplied

/-- The schedule `_persist_schedule` adds. -/
def ScheduleJob.newSchedule (job : ScheduleJob) (id : ℕ) (now : ℤ) : Schedule :=
  { id, tenantId := job.tenantId, scheduleJobId := job.id, orgUnitId := job.orgUnitId
    createdAt := now }

/-- The `RelaxationNotAvailableError` of a re-proof that is infeasible. -/
def relaxationNotAvailable (jobId : ℕ) : FailureReason where
  code := "RELAXATION_NOT_AVAILABLE"
  message := s!"Cannot approve a relaxation for schedule job '{jobId}': " ++
    "re-solving with the approved relaxation did not reproduce a feasible schedule."

/-- `execute_job` on the loaded job: the changed entity and the schedule to insert. -/
def executeJob (job : ScheduleJob) : Outcome → ScheduleJob × Option Schedule
  | .noInput => (job, none)
  | .solved now ms score plan scheduleId =>
    ({ job with
        status := .completed, completedAt := some now, solveDurationMs := some ms
        objectiveScore := score, decompositionPlan := some plan
        relaxationsApplied := job.recordApproval now },
      some (job.newSchedule scheduleId now))
  | .infeasible now ms search snapshot =>
    if job.jobKind = .relaxationApproval then (job.fail now (relaxationNotAvailable job.id), none)
    else
      ({ job with
          status := .infeasible, completedAt := some now, solveDurationMs := some ms
          relaxationsApplied := some { attempted := some search, failureReason := none }
          solveInputSnapshot := some snapshot }, none)
  | .unknown now ms =>
    ({ job with status := .failed, completedAt := some now, solveDurationMs := some ms }, none)
  | .error now reason => (job.fail now reason, none)

/-- A changed attribute is written, an unchanged one is left to the row. -/
def dirty {β : Type} [DecidableEq β] (loaded changed row : β) : β :=
  if changed = loaded then row else changed

/-- The `UPDATE … WHERE id` of a flush: the columns in which the entity differs from what was
loaded. -/
def ScheduleJob.flush (loaded changed row : ScheduleJob) : ScheduleJob :=
  { row with
    status := dirty loaded.status changed.status row.status
    completedAt := dirty loaded.completedAt changed.completedAt row.completedAt
    solveDurationMs := dirty loaded.solveDurationMs changed.solveDurationMs row.solveDurationMs
    objectiveScore := dirty loaded.objectiveScore changed.objectiveScore row.objectiveScore
    decompositionPlan :=
      dirty loaded.decompositionPlan changed.decompositionPlan row.decompositionPlan
    relaxationsApplied :=
      dirty loaded.relaxationsApplied changed.relaxationsApplied row.relaxationsApplied
    solveInputSnapshot :=
      dirty loaded.solveInputSnapshot changed.solveInputSnapshot row.solveInputSnapshot }

/-! ## Workers and steps -/

inductive WorkerState
  | idle
  /-- `claim_next_job` returned this id and tenant. -/
  | claimed (jobId tenantId : ℕ)
  /-- The job is loaded and being executed. -/
  | executing (job : ScheduleJob)

structure QueueState where
  jobs : List ScheduleJob
  schedules : List Schedule
  workers : ℕ → WorkerState

namespace QueueState

def setWorker (s : QueueState) (w : ℕ) (state : WorkerState) : QueueState :=
  { s with workers := fun v => if v = w then state else s.workers v }

def findJob (s : QueueState) (id : ℕ) : Option ScheduleJob := lookup (·.id) id s.jobs

/-- The final commit of worker `w` that executed `job`. -/
def commit (s : QueueState) (w : ℕ) (job : ScheduleJob) (outcome : Outcome) : QueueState :=
  let (changed, schedule) := executeJob job outcome
  { s with
    jobs := modify (·.id) job.id (job.flush changed) s.jobs
    schedules := s.schedules ++ schedule.toList }.setWorker w .idle

end QueueState

/-- A new job, as the API enqueues it. -/
structure NewJob where
  id : ℕ
  tenantId : ℕ
  orgUnitId : ℕ
  jobKind : JobKind
  requestPayload : Option String
  targetScheduleId : Option ℕ
  requestedBy : Option ℕ
  requestedAt : ℤ

/-- `_new_job`. -/
def NewJob.toJob (j : NewJob) : ScheduleJob :=
  { id := j.id, tenantId := j.tenantId, orgUnitId := j.orgUnitId, status := .queued
    jobKind := j.jobKind, requestPayload := j.requestPayload
    targetScheduleId := j.targetScheduleId, requestedBy := j.requestedBy, claimedBy := none
    solvingStartedAt := none, attemptCount := 0, requestedAt := j.requestedAt
    completedAt := none, solveDurationMs := none, objectiveScore := none
    decompositionPlan := none, relaxationsApplied := none, solveInputSnapshot := none }

inductive QueueAction
  | enqueue (job : NewJob)
  | reap (now : ℤ)
  /-- `SKIP LOCKED` may pass over any row another transaction holds, so any claimable job may be
  the one that is claimed. -/
  | claim (w jobId : ℕ) (now : ℤ)
  | load (w : ℕ)
  | commit (w : ℕ) (outcome : Outcome)
  /-- The worker dies, or the execution raises and its transaction is rolled back. -/
  | crash (w : ℕ)

/-- One step; `none` when it is not possible. -/
def queueStep (cfg : ReaperSettings) (s : QueueState) : QueueAction → Option QueueState
  | .enqueue job =>
    if s.jobs.any (fun j => j.id = job.id) then none
    else some { s with jobs := s.jobs ++ [job.toJob] }
  | .reap now => some { s with jobs := s.jobs.map (·.reap cfg now) }
  | .claim w jobId now =>
    match s.workers w, s.findJob jobId with
    | .idle, some job =>
      if job.claimable then
        some ({ s with jobs := modify (·.id) jobId (·.claim w now) s.jobs }.setWorker w
          (.claimed jobId job.tenantId))
      else none
    | _, _ => none
  | .load w =>
    match s.workers w with
    | .claimed jobId _ => (s.findJob jobId).map fun job => s.setWorker w (.executing job)
    | _ => none
  | .commit w outcome =>
    match s.workers w with
    | .executing job => if job.executable then some (s.commit w job outcome) else none
    | _ => none
  | .crash w => some (s.setWorker w .idle)

/-- The start: jobs that wait to be solved, or for the approval of a relaxation; nobody works. -/
structure QueueInit (s : QueueState) : Prop where
  ids : (s.jobs.map (·.id)).Nodup
  waiting : ∀ job ∈ s.jobs, job.status = .queued ∨ job.status = .infeasible
  schedules : s.schedules = []
  workers : ∀ w, s.workers w = .idle

end Workforce.Scheduling
