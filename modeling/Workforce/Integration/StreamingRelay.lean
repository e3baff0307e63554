import Workforce.Integration.Backfill

/-!
# Streaming relays

`streaming-relay.service.ts`: a start opens a session with the connector's provider and a stop
closes it. The session is kept in a map of the process; the job that stands for it, and the numbers
of its events, are a row in the database. The calls for one connector, in one process: they run at
the same time, each from one `await` to the next, and each event is counted by a statement of its
own.

* `OneSession`: at most one session is live, none that was opened by a start before the last stop,
  and a completed job has counted the events of its window.
* `oneSession_iff`: exactly when that holds in every state of a run.
-/

namespace Workforce.Integration.Relay

open List Function

open Backfill (SyncJobStatus)

inductive EventKind
  | forwarded
  | failed
  deriving DecidableEq

/-- A `sync_job` of the connector with `sync_type` streaming. -/
structure StreamingJob where
  id : ℕ
  startedAt : ℤ
  status : SyncJobStatus
  recordsProcessed : ℕ
  recordsFailed : ℕ
  deriving DecidableEq

namespace StreamingJob

def count (job : StreamingJob) : EventKind → ℕ
  | .forwarded => job.recordsProcessed
  | .failed => job.recordsFailed

/-- `incrementCounts`. -/
def increment (job : StreamingJob) : EventKind → StreamingJob
  | .forwarded => { job with recordsProcessed := job.recordsProcessed + 1 }
  | .failed => { job with recordsFailed := job.recordsFailed + 1 }

/-- `complete`. -/
def complete (job : StreamingJob) (status : SyncJobStatus) (recordsProcessed recordsFailed : ℕ) :
    StreamingJob :=
  { job with status, recordsProcessed, recordsFailed }

/-- The row that `enqueue` inserts. -/
def enqueued (jobId : ℕ) (startedAt : ℤ) : StreamingJob := ⟨jobId, startedAt, .queued, 0, 0⟩

end StreamingJob

/-- A session that is live. It is the one of a job; `since` stops had returned when its start was
called. -/
structure Session where
  jobId : ℕ
  since : ℕ

/-- Where a call of `start` is. -/
inductive StartStage
  | called
  | connecting (jobId : ℕ)
  | connected (jobId : ℕ)
  /-- The session is in the map. -/
  | registered (jobId : ℕ)
  /-- There is no adapter, or it threw. -/
  | failing (jobId : ℕ)
  | done

/-- A call of `start`, with the number of stops before it. -/
structure StartCall where
  since : ℕ
  stage : StartStage

/-- Where a call of `stop` is, with the latest job as it was read. -/
inductive StopStage
  | found (latest : StreamingJob)
  | disconnecting (latest : StreamingJob) (session : ℕ)
  | disconnected (latest : StreamingJob)
  | completing (latest : StreamingJob)
  | completed
  | done

/-- The rows, the sessions that are live, and where every call is. -/
structure RelayState where
  jobs : List StreamingJob
  live : List Session
  /-- The connector's entry in `liveSessions`: the job of the session. -/
  liveSession : Option ℕ
  starts : ℕ → Option StartCall
  stops : ℕ → Option StopStage
  /-- The increments that are on their way to the database. -/
  pending : List (ℕ × EventKind)
  /-- The events in the windows of the jobs. -/
  window : List (ℕ × EventKind)
  /-- The number of stops that have returned. -/
  stopped : ℕ

/-- What a call does between two awaits, or an event of a session. -/
inductive RelayStep
  | start (q : ℕ)
  | enqueue (q jobId : ℕ) (startedAt : ℤ)
  | connect (q : ℕ) (succeeds : Bool)
  | register (q : ℕ)
  | markRunning (q : ℕ)
  | completeFailed (q : ℕ)
  /-- A stop reads the latest job. -/
  | stop (q jobId : ℕ)
  | lookup (q : ℕ)
  /-- A session stays live when its adapter cannot disconnect it. -/
  | disconnect (q : ℕ) (succeeds : Bool)
  | delete (q : ℕ)
  | complete (q : ℕ)
  /-- The stop returns, after it has published the completion. -/
  | returned (q : ℕ)
  | event (jobId : ℕ) (kind : EventKind)
  | increment (jobId : ℕ) (kind : EventKind)

namespace RelayState

variable (s : RelayState)

def moveStart (q : ℕ) (call : StartCall) (stage : StartStage) : ℕ → Option StartCall :=
  update s.starts q (some { call with stage })

def moveStop (q : ℕ) (stage : StopStage) : ℕ → Option StopStage :=
  update s.stops q (some stage)

def modifyJob (jobId : ℕ) (f : StreamingJob → StreamingJob) : List StreamingJob :=
  Tables.modify StreamingJob.id jobId f s.jobs

def IsCompleted (jobId : ℕ) : Prop := ∃ job ∈ s.jobs, job.id = jobId ∧ job.status = .completed
  deriving Decidable

/-- `findLatestForConnector`: of jobs that were started at one time it returns any. -/
def IsLatest (job : StreamingJob) : Prop := ∀ other ∈ s.jobs, other.startedAt ≤ job.startedAt
  deriving Decidable

end RelayState

/-- `hasAdapter`: the registry has an adapter for the connector's provider. -/
def relayStep (hasAdapter : Bool) (s : RelayState) : RelayStep → Option RelayState
  | .start q =>
    if s.starts q = none then
      some { s with starts := update s.starts q (some ⟨s.stopped, .called⟩) }
    else none
  | .enqueue q jobId startedAt =>
    match s.starts q with
    | some ⟨since, .called⟩ =>
      if jobId ∉ s.jobs.map (·.id) then
        some { s with
          jobs := s.jobs ++ [.enqueued jobId startedAt]
          starts := s.moveStart q ⟨since, .called⟩
            (if hasAdapter then .connecting jobId else .failing jobId) }
      else none
    | _ => none
  | .connect q succeeds =>
    match s.starts q with
    | some ⟨since, .connecting jobId⟩ =>
      if succeeds then
        some { s with
          live := s.live ++ [⟨jobId, since⟩]
          starts := s.moveStart q ⟨since, .connecting jobId⟩ (.connected jobId) }
      else
        some { s with starts := s.moveStart q ⟨since, .connecting jobId⟩ (.failing jobId) }
    | _ => none
  | .register q =>
    match s.starts q with
    | some ⟨since, .connected jobId⟩ =>
      some { s with
        liveSession := some jobId
        starts := s.moveStart q ⟨since, .connected jobId⟩ (.registered jobId) }
    | _ => none
  | .markRunning q =>
    match s.starts q with
    | some ⟨since, .registered jobId⟩ =>
      some { s with
        jobs := s.modifyJob jobId fun job => { job with status := .running }
        starts := s.moveStart q ⟨since, .registered jobId⟩ .done }
    | _ => none
  | .completeFailed q =>
    match s.starts q with
    | some ⟨since, .failing jobId⟩ =>
      some { s with
        jobs := s.modifyJob jobId fun job => job.complete .failed 0 0
        starts := s.moveStart q ⟨since, .failing jobId⟩ .done }
    | _ => none
  | .stop q jobId =>
    match s.jobs.find? (·.id = jobId) with
    | some latest =>
      if s.stops q = none ∧ s.IsLatest latest ∧ latest.status = .running then
        some { s with stops := s.moveStop q (.found latest) }
      else none
    | none => none
  | .lookup q =>
    match s.stops q with
    | some (.found latest) =>
      match s.liveSession with
      | some session => some { s with stops := s.moveStop q (.disconnecting latest session) }
      | none => some { s with stops := s.moveStop q (.completing latest) }
    | _ => none
  | .disconnect q succeeds =>
    match s.stops q with
    | some (.disconnecting latest session) =>
      some { s with
        live := if succeeds then s.live.filter (·.jobId ≠ session) else s.live
        stops := s.moveStop q (.disconnected latest) }
    | _ => none
  | .delete q =>
    match s.stops q with
    | some (.disconnected latest) =>
      some { s with liveSession := none, stops := s.moveStop q (.completing latest) }
    | _ => none
  | .complete q =>
    match s.stops q with
    | some (.completing latest) =>
      some { s with
        jobs := s.modifyJob latest.id fun job =>
          job.complete .completed latest.recordsProcessed latest.recordsFailed
        stops := s.moveStop q .completed }
    | _ => none
  | .returned q =>
    match s.stops q with
    | some .completed =>
      some { s with stopped := s.stopped + 1, stops := s.moveStop q .done }
    | _ => none
  | .event jobId kind =>
    if jobId ∈ s.live.map (·.jobId) then
      some { s with
        pending := s.pending ++ [(jobId, kind)]
        window := if s.IsCompleted jobId then s.window else s.window ++ [(jobId, kind)] }
    else none
  | .increment jobId kind =>
    if (jobId, kind) ∈ s.pending then
      some { s with
        jobs := s.modifyJob jobId fun job => job.increment kind
        pending := s.pending.erase (jobId, kind) }
    else none

/-! ## One session -/

/-- The job has counted the events of its window, but for those on their way. -/
def Counted (s : RelayState) (job : StreamingJob) : Prop :=
  ∀ kind, job.count kind + s.pending.count (job.id, kind) = s.window.count (job.id, kind)

/-- One session at most, none from before the last stop, and every event counted. -/
structure OneSession (s : RelayState) : Prop where
  one : s.live.length ≤ 1
  /-- No session is left from before the last stop. -/
  since : ∀ session ∈ s.live, session.since = s.stopped
  counted : ∀ job ∈ s.jobs, job.status = .completed → Counted s job

def StopStage.completing? : StopStage → Option StreamingJob
  | completing latest => some latest
  | _ => none

/-- A start connects only when no session is live and no stop has returned since it was called; a
stop completes a job only with the counts that its row has, and returns only when no session is
live; and no session of a completed job has an event. -/
def Undisturbed (s : RelayState) : RelayStep → Prop
  | .connect q succeeds =>
    succeeds = true → s.live = [] ∧ ∀ call ∈ s.starts q, call.since = s.stopped
  | .complete q => ∀ latest ∈ (s.stops q).bind StopStage.completing?, ∀ job ∈ s.jobs,
      job.id = latest.id → job.recordsProcessed = latest.recordsProcessed ∧
        job.recordsFailed = latest.recordsFailed
  | .returned _ => s.live = []
  | .event jobId _ => ¬ s.IsCompleted jobId
  | _ => True

instance (s : RelayState) : DecidablePred (Undisturbed s) := fun step => by
  cases step <;> unfold Undisturbed <;> infer_instance

/-! ## The invariant -/

/-- The job of a call whose session is not open yet. -/
def StartStage.opening? : StartStage → Option ℕ
  | connecting jobId | failing jobId => some jobId
  | _ => none

/-- A job whose session is not open yet has had no event, and one call. -/
structure Opening (ids : List ℕ) (live : List Session) (window : List (ℕ × EventKind))
    (starts : ℕ → Option StartCall) : Prop where
  unused : ∀ q, ∀ call ∈ starts q, ∀ jobId ∈ call.stage.opening?,
    jobId ∈ ids ∧ jobId ∉ live.map (·.jobId) ∧ ∀ kind, (jobId, kind) ∉ window
  distinct : ∀ q q', ∀ call ∈ starts q, ∀ call' ∈ starts q', ∀ jobId ∈ call.stage.opening?,
    jobId ∈ call'.stage.opening? → q = q'

structure RelayInv (s : RelayState) : Prop where
  oneSession : OneSession s
  jobIds : (s.jobs.map StreamingJob.id).Nodup
  counted : ∀ job ∈ s.jobs, Counted s job
  live : ∀ session ∈ s.live, session.jobId ∈ s.jobs.map StreamingJob.id
  pending : ∀ event ∈ s.pending, event.1 ∈ s.jobs.map StreamingJob.id
  window : ∀ event ∈ s.window, event.1 ∈ s.jobs.map StreamingJob.id
  opening : Opening (s.jobs.map StreamingJob.id) s.live s.window s.starts

section Opening

variable {ids ids' : List ℕ} {live live' : List Session} {window window' : List (ℕ × EventKind)}
  {starts : ℕ → Option StartCall}

theorem Opening.mono (h : Opening ids live window starts) (hids : ids ⊆ ids')
    (hlive : ∀ session ∈ live', session ∈ live)
    (hwindow : ∀ event ∈ window', event ∈ window ∨ event.1 ∈ live.map (·.jobId)) :
    Opening ids' live' window' starts where
  unused q call hcall jobId hjob := by
    obtain ⟨hid, hnot, hnone⟩ := h.unused q call hcall jobId hjob
    refine ⟨hids hid, fun hmem => ?_, fun kind hmem => ?_⟩
    · obtain ⟨session, hsession, heq⟩ := mem_map.1 hmem
      exact hnot (mem_map.2 ⟨session, hlive session hsession, heq⟩)
    · exact (hwindow _ hmem).elim (hnone kind) hnot
  distinct := h.distinct

variable {call : StartCall}

theorem Opening.update (h : Opening ids live window starts) {q : ℕ}
    (hnew : ∀ jobId ∈ call.stage.opening?,
      (jobId ∈ ids ∧ jobId ∉ live.map (·.jobId) ∧ ∀ kind, (jobId, kind) ∉ window) ∧
      ∀ q', q' ≠ q → ∀ call' ∈ starts q', jobId ∉ call'.stage.opening?) :
    Opening ids live window (update starts q (some call)) where
  unused q' call' hcall' jobId hjob := by
    by_cases hq : q' = q
    · subst hq
      rw [update_self] at hcall'
      obtain rfl := Option.some.inj hcall'
      exact (hnew jobId hjob).1
    · rw [update_of_ne hq] at hcall'
      exact h.unused q' call' hcall' jobId hjob
  distinct q₁ q₂ call₁ hcall₁ call₂ hcall₂ jobId hjob₁ hjob₂ := by
    by_cases hq₁ : q₁ = q <;> by_cases hq₂ : q₂ = q
    · exact hq₁.trans hq₂.symm
    · subst hq₁
      rw [update_self] at hcall₁
      rw [update_of_ne hq₂] at hcall₂
      cases hcall₁
      exact absurd hjob₂ ((hnew jobId hjob₁).2 q₂ hq₂ call₂ hcall₂)
    · subst hq₂
      rw [update_self] at hcall₂
      rw [update_of_ne hq₁] at hcall₁
      cases hcall₂
      exact absurd hjob₁ ((hnew jobId hjob₂).2 q₁ hq₁ call₁ hcall₁)
    · rw [update_of_ne hq₁] at hcall₁
      rw [update_of_ne hq₂] at hcall₂
      exact h.distinct q₁ q₂ call₁ hcall₁ call₂ hcall₂ jobId hjob₁ hjob₂

theorem Opening.move (h : Opening ids live window starts) {q : ℕ} {stage : StartStage}
    (hq : starts q = some call) (hsub : ∀ jobId ∈ stage.opening?, jobId ∈ call.stage.opening?) :
    Opening ids live window (Function.update starts q (some { call with stage })) := by
  refine h.update fun jobId hjob => ⟨h.unused q call hq jobId (hsub jobId hjob), ?_⟩
  exact fun q' hne call' hcall' hjob' =>
    hne (h.distinct q' q call' hcall' call hq jobId hjob' (hsub jobId hjob))

theorem Opening.leave (h : Opening ids live window starts) {q : ℕ} {stage : StartStage}
    (hq : starts q = some call) (hstage : stage.opening? = none) :
    Opening ids live window (Function.update starts q (some { call with stage })) :=
  h.move hq fun jobId hjob => by
    rw [hstage] at hjob
    cases hjob

end Opening

section Steps

variable {hasAdapter : Bool} {s t : RelayState}

theorem Counted.congr {job job' : StreamingJob} (h : Counted s job) (hid : job'.id = job.id)
    (hcount : job'.count = job.count) (hpending : t.pending = s.pending)
    (hwindow : t.window = s.window) : Counted t job' := by
  intro kind
  rw [hid, hcount, hpending, hwindow]
  exact h kind

variable {jobId : ℕ}

theorem RelayInv.modify (h : RelayInv s) {f : StreamingJob → StreamingJob}
    (hid : ∀ job, (f job).id = job.id)
    (hcounted : ∀ job ∈ s.jobs, job.id = jobId → Counted s (f job))
    {starts : ℕ → Option StartCall} {stops : ℕ → Option StopStage}
    (hopening : Opening (s.jobs.map StreamingJob.id) s.live s.window starts) :
    RelayInv { s with jobs := s.modifyJob jobId f, starts, stops } := by
  have hids : (s.modifyJob jobId f).map StreamingJob.id = s.jobs.map StreamingJob.id :=
    Tables.map_key_modify hid s.jobs
  have hall : ∀ job ∈ s.modifyJob jobId f, Counted s job := by
    intro job hjob
    rcases Tables.mem_modify.1 hjob with ⟨job, hmem, hkey, rfl⟩ | ⟨hmem, -⟩
    · exact hcounted job hmem hkey
    · exact h.counted job hmem
  exact ⟨⟨h.oneSession.one, h.oneSession.since, fun job hjob _ => hall job hjob⟩, hids ▸ h.jobIds,
    hall, hids ▸ h.live, hids ▸ h.pending, hids ▸ h.window, hids ▸ hopening⟩

theorem RelayInv.calls (h : RelayInv s) {live : List Session} (hlive : live.Sublist s.live)
    {liveSession : Option ℕ} {starts : ℕ → Option StartCall} {stops : ℕ → Option StopStage}
    (hopening : Opening (s.jobs.map StreamingJob.id) s.live s.window starts) :
    RelayInv { s with live, liveSession, starts, stops } :=
  ⟨⟨hlive.length_le.trans h.oneSession.one,
      fun session hsession => h.oneSession.since session (hlive.subset hsession),
      h.oneSession.counted⟩,
    h.jobIds, h.counted, fun session hsession => h.live session (hlive.subset hsession), h.pending,
    h.window, hopening.mono (Subset.refl _) (fun _ hsession => hlive.subset hsession)
      fun _ hevent => .inl hevent⟩

/-- A new session, when no other is live and no stop has returned in between. -/
theorem RelayInv.connected (h : RelayInv s) {q since jobId : ℕ}
    (hq : s.starts q = some ⟨since, .connecting jobId⟩) (hlive : s.live = [])
    (hsince : since = s.stopped) :
    RelayInv { s with
      live := s.live ++ [⟨jobId, since⟩]
      starts := s.moveStart q ⟨since, .connecting jobId⟩ (.connected jobId) } := by
  obtain ⟨hid, -, -⟩ := h.opening.unused q _ hq jobId rfl
  have hmoved : Opening (s.jobs.map StreamingJob.id) s.live s.window
      (s.moveStart q ⟨since, .connecting jobId⟩ (.connected jobId)) :=
    h.opening.leave hq rfl
  refine ⟨⟨?_, fun session hsession => ?_, h.oneSession.counted⟩, h.jobIds, h.counted,
    fun session hsession => ?_, h.pending, h.window, fun q' call hcall jobId' hjob => ?_,
    hmoved.distinct⟩
  · rw [hlive]
    exact le_rfl
  · rw [hlive] at hsession
    rw [mem_singleton.1 hsession]
    exact hsince
  · rw [hlive] at hsession
    rw [mem_singleton.1 hsession]
    exact hid
  · obtain ⟨hid', -, hnone⟩ := hmoved.unused q' call hcall jobId' hjob
    refine ⟨hid', fun hmem => ?_, hnone⟩
    have hjobId : jobId' = jobId := by simpa [hlive] using hmem
    subst hjobId
    -- the other call would have the same job
    change update s.starts q _ q' = some call at hcall
    by_cases hne : q' = q
    · subst hne
      rw [update_self] at hcall
      cases hcall
      cases hjob
    · rw [update_of_ne hne] at hcall
      exact hne (h.opening.distinct q' q call hcall _ hq jobId' hjob rfl)

theorem RelayInv.enqueued (h : RelayInv s) {q : ℕ} {job : StreamingJob} {stage : StartStage}
    (hfresh : job.id ∉ s.jobs.map StreamingJob.id) (hcount : ∀ kind, job.count kind = 0)
    (hstage : ∀ jobId ∈ stage.opening?, jobId = job.id) {call : StartCall} :
    RelayInv { s with jobs := s.jobs ++ [job], starts := s.moveStart q call stage } := by
  have hids : ∀ id ∈ s.jobs.map StreamingJob.id, id ∈ (s.jobs ++ [job]).map StreamingJob.id := by
    intro id hid
    rw [map_append]
    exact mem_append_left _ hid
  have hself : job.id ∈ (s.jobs ++ [job]).map StreamingJob.id := by simp
  have hnoPending : ∀ kind, (job.id, kind) ∉ s.pending := fun kind hmem =>
    hfresh (h.pending _ hmem)
  have hnoWindow : ∀ kind, (job.id, kind) ∉ s.window := fun kind hmem => hfresh (h.window _ hmem)
  have hall : ∀ job' ∈ s.jobs ++ [job], Counted s job' := by
    intro job' hjob
    rcases Tables.mem_concat.1 hjob with hjob | rfl
    · exact h.counted job' hjob
    · intro kind
      rw [hcount, count_eq_zero_of_not_mem (hnoPending kind),
        count_eq_zero_of_not_mem (hnoWindow kind)]
  refine ⟨⟨h.oneSession.one, h.oneSession.since, fun job' hjob _ => hall job' hjob⟩,
    Tables.nodup_append_singleton h.jobIds fun job' hjob heq =>
      hfresh (mem_map.2 ⟨job', hjob, heq⟩),
    hall, fun session hsession => hids _ (h.live session hsession),
    fun event hevent => hids _ (h.pending event hevent),
    fun event hevent => hids _ (h.window event hevent), ?_⟩
  refine (h.opening.mono hids (fun _ hsession => hsession) fun _ hevent => .inl hevent).update
    fun jobId hjob => ?_
  obtain rfl := hstage jobId hjob
  refine ⟨⟨hself, fun hmem => ?_, hnoWindow⟩, fun q' _ call' hcall' hjob' => ?_⟩
  · obtain ⟨session, hsession, heq⟩ := mem_map.1 hmem
    exact hfresh (heq ▸ h.live session hsession)
  · exact hfresh (h.opening.unused q' call' hcall' job.id hjob').1

variable {kind : EventKind}

theorem RelayInv.event (h : RelayInv s) (hlive : jobId ∈ s.live.map (·.jobId)) :
    RelayInv { s with
      pending := s.pending ++ [(jobId, kind)], window := s.window ++ [(jobId, kind)] } := by
  have hid : jobId ∈ s.jobs.map StreamingJob.id := by
    obtain ⟨session, hsession, rfl⟩ := mem_map.1 hlive
    exact h.live session hsession
  have hall : ∀ job ∈ s.jobs, Counted { s with
      pending := s.pending ++ [(jobId, kind)], window := s.window ++ [(jobId, kind)] } job := by
    intro job hjob kind'
    have hcounted := h.counted job hjob kind'
    simp only [count_append]
    omega
  have hknown : ∀ events : List (ℕ × EventKind),
      (∀ event ∈ events, event.1 ∈ s.jobs.map StreamingJob.id) →
        ∀ event ∈ events ++ [(jobId, kind)], event.1 ∈ s.jobs.map StreamingJob.id := by
    intro events hevents event hevent
    rcases Tables.mem_concat.1 hevent with hevent | rfl
    · exact hevents event hevent
    · exact hid
  refine ⟨⟨h.oneSession.one, h.oneSession.since, fun job hjob _ => hall job hjob⟩, h.jobIds, hall,
    h.live, hknown _ h.pending, hknown _ h.window,
    h.opening.mono (Subset.refl _) (fun _ hsession => hsession) fun event hevent => ?_⟩
  rcases Tables.mem_concat.1 hevent with hevent | rfl
  · exact .inl hevent
  · exact .inr hlive

theorem StreamingJob.count_increment (job : StreamingJob) (kind kind' : EventKind) :
    (job.increment kind).count kind' = job.count kind' + if kind = kind' then 1 else 0 := by
  cases kind <;> cases kind' <;> rfl

theorem RelayInv.increment (h : RelayInv s) (hpending : (jobId, kind) ∈ s.pending) :
    RelayInv { s with
      jobs := s.modifyJob jobId fun job => job.increment kind
      pending := s.pending.erase (jobId, kind) } := by
  have hid : ∀ job : StreamingJob, (job.increment kind).id = job.id := fun job => by
    cases kind <;> rfl
  have hids : (s.modifyJob jobId fun job => job.increment kind).map StreamingJob.id =
      s.jobs.map StreamingJob.id := Tables.map_key_modify hid s.jobs
  have hpos : 0 < s.pending.count (jobId, kind) := count_pos_iff.2 hpending
  have hall : ∀ job ∈ s.modifyJob jobId fun job => job.increment kind, Counted { s with
      jobs := s.modifyJob jobId fun job => job.increment kind
      pending := s.pending.erase (jobId, kind) } job := by
    intro job hjob kind'
    rcases Tables.mem_modify.1 hjob with ⟨job, hmem, rfl, rfl⟩ | ⟨hmem, hne⟩
    · have hcounted := h.counted job hmem kind'
      simp only [hid, StreamingJob.count_increment, count_erase]
      by_cases hkind : kind = kind'
      · subst hkind
        simp only [if_true, beq_self_eq_true]
        omega
      · have hne : ((job.id, kind) == (job.id, kind')) = false := by simp [hkind]
        simp only [hne, if_neg hkind, Bool.false_eq_true, if_false]
        omega
    · have hcounted := h.counted job hmem kind'
      have hne' : ((jobId, kind) == (job.id, kind')) = false := by simp [Ne.symm hne]
      simp only [count_erase, hne', Bool.false_eq_true, if_false]
      omega
  refine ⟨⟨h.oneSession.one, h.oneSession.since, fun job hjob _ => hall job hjob⟩,
    hids ▸ h.jobIds, hall, hids ▸ h.live, fun event hevent => ?_, hids ▸ h.window,
    hids ▸ h.opening⟩
  exact hids ▸ h.pending event (mem_of_mem_erase hevent)

theorem connect_cases (h : RelayInv s) {q : ℕ} {succeeds : Bool}
    (hstep : relayStep hasAdapter s (.connect q succeeds) = some t) :
    (Undisturbed s (.connect q succeeds) ∧ RelayInv t) ∨
      (¬ Undisturbed s (.connect q succeeds) ∧ ¬ OneSession t) := by
  simp only [relayStep] at hstep
  split at hstep
  · rename_i since jobId hq
    split at hstep
    · rename_i hsucceeds
      cases hstep
      have hundisturbed : Undisturbed s (.connect q succeeds) ↔
          s.live = [] ∧ since = s.stopped := by
        simp [Undisturbed, hsucceeds, hq]
      rw [hundisturbed]
      by_cases hlive : s.live = []
      · by_cases hsince : since = s.stopped
        · exact .inl ⟨⟨hlive, hsince⟩, h.connected hq hlive hsince⟩
        · refine .inr ⟨fun hok => hsince hok.2, fun hone => hsince ?_⟩
          exact hone.since ⟨jobId, since⟩ (mem_concat_self)
      · refine .inr ⟨fun hok => hlive hok.1, fun hone => ?_⟩
        have hlength := hone.one
        have hpos := length_pos_of_ne_nil hlive
        rw [length_append, length_singleton] at hlength
        omega
    · rename_i hfails
      cases hstep
      refine .inl ⟨fun hsucceeds => absurd hsucceeds hfails, ?_⟩
      exact h.calls (Sublist.refl _) (h.opening.move hq fun _ hjob => hjob)
  · cases hstep

theorem complete_cases (h : RelayInv s) {q : ℕ}
    (hstep : relayStep hasAdapter s (.complete q) = some t) :
    (Undisturbed s (.complete q) ∧ RelayInv t) ∨
      (¬ Undisturbed s (.complete q) ∧ ¬ OneSession t) := by
  simp only [relayStep] at hstep
  split at hstep
  · rename_i latest hq
    cases hstep
    have hundisturbed : Undisturbed s (.complete q) ↔ ∀ job ∈ s.jobs, job.id = latest.id →
        job.recordsProcessed = latest.recordsProcessed ∧
          job.recordsFailed = latest.recordsFailed := by
      simp [Undisturbed, hq, StopStage.completing?]
    rw [hundisturbed]
    by_cases hok : ∀ job ∈ s.jobs, job.id = latest.id →
        job.recordsProcessed = latest.recordsProcessed ∧ job.recordsFailed = latest.recordsFailed
    · have hid : ∀ job : StreamingJob,
          (job.complete .completed latest.recordsProcessed latest.recordsFailed).id = job.id :=
        fun _ => rfl
      refine .inl ⟨hok, h.modify hid (fun job hjob heq => ?_) h.opening⟩
      obtain ⟨hprocessed, hfailed⟩ := hok job hjob heq
      have hsame : job.complete .completed latest.recordsProcessed latest.recordsFailed =
          { job with status := .completed } := by
        rw [StreamingJob.complete, hprocessed, hfailed]
      rw [hsame]
      exact (h.counted job hjob).congr rfl rfl rfl rfl
    · refine .inr ⟨hok, fun hone => hok fun job hjob hid => ?_⟩
      have hmem : job.complete .completed latest.recordsProcessed latest.recordsFailed ∈
          s.modifyJob latest.id fun job =>
            job.complete .completed latest.recordsProcessed latest.recordsFailed :=
        Tables.mem_modify.2 (.inl ⟨job, hjob, hid, rfl⟩)
      have hafter := hone.counted _ hmem rfl
      have hbefore := h.counted job hjob
      have hprocessed := hafter .forwarded
      have hprocessed' := hbefore .forwarded
      have hfailed := hafter .failed
      have hfailed' := hbefore .failed
      simp only [StreamingJob.count, StreamingJob.complete] at hprocessed hprocessed'
      simp only [StreamingJob.count, StreamingJob.complete] at hfailed hfailed'
      constructor <;> omega
  · cases hstep

theorem returned_cases (h : RelayInv s) {q : ℕ}
    (hstep : relayStep hasAdapter s (.returned q) = some t) :
    (Undisturbed s (.returned q) ∧ RelayInv t) ∨
      (¬ Undisturbed s (.returned q) ∧ ¬ OneSession t) := by
  simp only [relayStep] at hstep
  split at hstep
  · cases hstep
    by_cases hlive : s.live = []
    · refine .inl ⟨hlive, ⟨h.oneSession.one, fun session hsession => ?_, h.oneSession.counted⟩,
        h.jobIds, h.counted, h.live, h.pending, h.window, h.opening⟩
      rw [hlive] at hsession
      cases hsession
    · refine .inr ⟨hlive, fun hone => ?_⟩
      obtain ⟨session, hsession⟩ := exists_mem_of_ne_nil _ hlive
      have hafter : session.since = s.stopped + 1 := hone.since session hsession
      rw [h.oneSession.since session hsession] at hafter
      omega
  · cases hstep

theorem event_cases (h : RelayInv s) (hstep : relayStep hasAdapter s (.event jobId kind) = some t) :
    (Undisturbed s (.event jobId kind) ∧ RelayInv t) ∨
      (¬ Undisturbed s (.event jobId kind) ∧ ¬ OneSession t) := by
  simp only [relayStep] at hstep
  split at hstep
  · rename_i hlive
    cases hstep
    by_cases hcompleted : s.IsCompleted jobId
    · refine .inr ⟨not_not_intro hcompleted, fun hone => ?_⟩
      obtain ⟨job, hjob, rfl, hstatus⟩ := id hcompleted
      have hafter := hone.counted job hjob hstatus kind
      have hbefore := h.counted job hjob kind
      simp only [if_pos hcompleted, count_append, count_singleton_self] at hafter
      omega
    · rw [if_neg hcompleted]
      exact .inl ⟨hcompleted, h.event hlive⟩
  · cases hstep

/-- A step keeps one session with its counts, or does what it should not. -/
theorem relayStep_cases {step : RelayStep} (h : RelayInv s)
    (hstep : relayStep hasAdapter s step = some t) :
    (Undisturbed s step ∧ RelayInv t) ∨ (¬ Undisturbed s step ∧ ¬ OneSession t) := by
  cases step with
  | connect => exact connect_cases h hstep
  | complete => exact complete_cases h hstep
  | returned => exact returned_cases h hstep
  | event => exact event_cases h hstep
  | start q =>
    refine .inl ⟨trivial, ?_⟩
    simp only [relayStep] at hstep
    split at hstep
    · cases hstep
      exact h.calls (Sublist.refl _) (h.opening.update fun _ hjob =>
        absurd hjob (Option.not_mem_none _))
    · cases hstep
  | enqueue q jobId startedAt =>
    refine .inl ⟨trivial, ?_⟩
    simp only [relayStep] at hstep
    split at hstep
    · split at hstep
      · rename_i hfresh
        cases hstep
        have hcount : ∀ kind, (StreamingJob.enqueued jobId startedAt).count kind = 0 := fun kind =>
          by cases kind <;> rfl
        refine h.enqueued hfresh hcount fun jobId' hjob => ?_
        split at hjob <;> exact (Option.some.inj hjob).symm
      · cases hstep
    · cases hstep
  | register q =>
    refine .inl ⟨trivial, ?_⟩
    simp only [relayStep] at hstep
    split at hstep
    · rename_i since jobId hq
      cases hstep
      exact h.calls (Sublist.refl _) (h.opening.leave hq rfl)
    · cases hstep
  | markRunning q =>
    refine .inl ⟨trivial, ?_⟩
    simp only [relayStep] at hstep
    split at hstep
    · rename_i since jobId hq
      cases hstep
      refine h.modify ?_ ?_ ?_
      · exact fun _ => rfl
      · exact fun job hjob _ => (h.counted job hjob).congr rfl rfl rfl rfl
      · exact h.opening.leave hq rfl
    · cases hstep
  | completeFailed q =>
    refine .inl ⟨trivial, ?_⟩
    simp only [relayStep] at hstep
    split at hstep
    · rename_i since jobId hq
      cases hstep
      refine h.modify ?_ ?_ ?_
      · exact fun _ => rfl
      · intro job hjob hid kind
        -- no session of the job has been open, so there is nothing to count
        obtain ⟨-, -, hnone⟩ := h.opening.unused q _ hq jobId rfl
        have hcounted := h.counted job hjob kind
        rw [hid, count_eq_zero_of_not_mem (hnone kind)] at hcounted
        have hzero : (job.complete .failed 0 0).count kind = 0 := by cases kind <;> rfl
        have hid' : (job.complete .failed 0 0).id = jobId := hid
        rw [hzero, hid', count_eq_zero_of_not_mem (hnone kind)]
        omega
      · exact h.opening.leave hq rfl
    · cases hstep
  | stop q jobId =>
    refine .inl ⟨trivial, ?_⟩
    simp only [relayStep] at hstep
    split at hstep
    · split at hstep
      · cases hstep
        exact h.calls (Sublist.refl _) h.opening
      · cases hstep
    · cases hstep
  | lookup q =>
    refine .inl ⟨trivial, ?_⟩
    simp only [relayStep] at hstep
    split at hstep
    · split at hstep <;> obtain rfl := Option.some.inj hstep <;>
        exact h.calls (Sublist.refl _) h.opening
    · cases hstep
  | disconnect q succeeds =>
    refine .inl ⟨trivial, ?_⟩
    simp only [relayStep] at hstep
    split at hstep
    · rename_i latest session hq
      cases hstep
      refine h.calls ?_ h.opening
      cases succeeds with
      | true => exact filter_sublist
      | false => exact Sublist.refl _
    · cases hstep
  | delete q =>
    refine .inl ⟨trivial, ?_⟩
    simp only [relayStep] at hstep
    split at hstep
    · cases hstep
      exact h.calls (Sublist.refl _) h.opening
    · cases hstep
  | increment jobId kind =>
    refine .inl ⟨trivial, ?_⟩
    simp only [relayStep] at hstep
    split at hstep
    · rename_i hpending
      cases hstep
      exact h.increment hpending
    · cases hstep

end Steps

/-! ## Runs -/

def RelayState.init : RelayState := ⟨[], [], none, fun _ => none, fun _ => none, [], [], 0⟩

theorem relayInv_init : RelayInv .init where
  oneSession := ⟨Nat.zero_le _, nofun,
    nofun⟩
  jobIds := nodup_nil
  counted := nofun
  live := nofun
  pending := nofun
  window := nofun
  opening := ⟨fun _ _ h => absurd h (Option.not_mem_none _),
    fun _ _ _ h => absurd h (Option.not_mem_none _)⟩

/-- **When a connector has one session**: in every state of a run of overlapping starts and stops
at most one session is live, none that a start from before the last stop has opened, and a completed
job has counted the events of its window, exactly when a start connects only while no session is
live and no stop has returned since it was called, a stop completes a job with the counts of its row
and returns only while no session is live, and no session of a completed job has an event. -/
theorem oneSession_iff {hasAdapter : Bool} {steps : List RelayStep} {t : RelayState}
    (h : Runs.exec (relayStep hasAdapter) .init steps = some t) :
    Runs.Always (relayStep hasAdapter) OneSession .init steps ↔
      Runs.Meets (relayStep hasAdapter) Undisturbed .init steps := by
  refine Runs.always_iff_meets (fun _ => RelayInv.oneSession)
    (fun s step t hinv hok hstep => ?_) (fun s step t hinv hno hstep => ?_) relayInv_init h
  · exact (relayStep_cases hinv hstep).elim And.right fun h => absurd hok h.1
  · exact (relayStep_cases hinv hstep).elim (fun h => absurd h.1 hno) And.right

/-- A session with an event, and a stop after the event is counted. -/
def countedBefore : List RelayStep :=
  [.start 0, .enqueue 0 1 10, .connect 0 true, .register 0, .markRunning 0, .event 1 .forwarded,
    .increment 1 .forwarded, .stop 0 1, .lookup 0, .disconnect 0 true, .delete 0, .complete 0,
    .returned 0]

theorem countedBefore_oneSession :
    Runs.Always (relayStep true) OneSession .init countedBefore := by
  obtain ⟨t, ht, -⟩ : ∃ t, Runs.exec (relayStep true) .init countedBefore = some t ∧
      t.jobs = [⟨1, 10, .completed, 1, 0⟩] := Runs.exists_exec (by decide)
  exact (oneSession_iff ht).2 (by decide)

/-- The stop reads the job just before the event is counted. -/
def countedDuring : List RelayStep :=
  [.start 0, .enqueue 0 1 10, .connect 0 true, .register 0, .markRunning 0, .event 1 .forwarded,
    .stop 0 1, .increment 1 .forwarded, .lookup 0, .disconnect 0 true, .delete 0, .complete 0,
    .returned 0]

/-- The event is overwritten. -/
theorem countedDuring_lost : ∃ t, Runs.exec (relayStep true) .init countedDuring = some t ∧
    t.jobs = [⟨1, 10, .completed, 0, 0⟩] ∧ t.window = [(1, .forwarded)] ∧ t.pending = [] ∧
    ¬ OneSession t := by
  obtain ⟨t, ht, hjobs, hwindow, hpending⟩ : ∃ t,
      Runs.exec (relayStep true) .init countedDuring = some t ∧
      t.jobs = [⟨1, 10, .completed, 0, 0⟩] ∧ t.window = [(1, .forwarded)] ∧ t.pending = [] :=
    Runs.exists_exec (by decide)
  refine ⟨t, ht, hjobs, hwindow, hpending, fun hone => ?_⟩
  have hcounted := hone.counted ⟨1, 10, .completed, 0, 0⟩ (by rw [hjobs]; exact mem_cons_self)
    rfl .forwarded
  rw [hwindow, hpending] at hcounted
  exact absurd hcounted (by decide)

end Workforce.Integration.Relay
