import Workforce.Scheduling.Queue

/-!
# One schedule per job

A worker *holds* a job while the row is `solving` under its own claim. Nothing in the final commit
checks that. `one_schedule_per_job`: along every run in which a worker commits only jobs it still
holds, a job gets at most one schedule, and a job that is completed or failed stays as it is.

A worker loses a job it executes only to the reaper: when the sweeps of a run spare the jobs that
some worker is on, every commit of the run is by the holder (`commits_held_of_reaps_abandoned`).
That is what a threshold above every solve time buys.
-/

namespace Workforce.Scheduling

open Tables Runs List

/-- `completed` and `failed` are final. -/
def JobStatus.final : JobStatus → Bool
  | completed | failed => true
  | queued | solving | infeasible => false

namespace QueueState

/-- The schedules persisted for a job. -/
def schedulesOf (s : QueueState) (jobId : ℕ) : List Schedule :=
  s.schedules.filter fun sch => sch.scheduleJobId = jobId

theorem setWorker_eq {s : QueueState} {v w : ℕ} {state state' : WorkerState}
    (h : (s.setWorker w state).workers v = state') :
    v = w ∧ state = state' ∨ v ≠ w ∧ s.workers v = state' := by
  simp only [setWorker] at h
  split at h
  · exact .inl ⟨‹_›, h⟩
  · exact .inr ⟨‹_›, h⟩

/-- The row is `solving` under the claim of `w`. -/
def holds (s : QueueState) (w jobId : ℕ) : Bool :=
  (s.findJob jobId).any fun row => row.status = .solving && row.claimedBy = some w

end QueueState

/-- A final commit is by a worker that still holds the job. -/
def CommitsHeld (s : QueueState) : QueueAction → Prop
  | .commit w _ => ∀ job, s.workers w = .executing job → s.holds w job.id = true
  | _ => True

instance (s : QueueState) (a : QueueAction) : Decidable (CommitsHeld s a) :=
  match a with
  | .commit w _ =>
    match h : s.workers w with
    | .executing job => decidable_of_iff (s.holds w job.id = true) (by simp [CommitsHeld, h])
    | .idle | .claimed _ _ => isTrue (by simp [CommitsHeld, h])
  | .enqueue _ | .reap _ | .claim _ _ _ | .load _ | .crash _ => isTrue trivial

/-! ## What an execution changes -/

theorem dirty_loaded {β : Type} [DecidableEq β] (loaded changed : β) :
    dirty loaded changed loaded = changed := by
  unfold dirty
  split
  · rename_i h
    exact h.symm
  · rfl

theorem executeJob_id (job : ScheduleJob) (o : Outcome) : (executeJob job o).1.id = job.id := by
  cases o with
  | infeasible now ms search snapshot =>
    simp only [executeJob]
    split <;> rfl
  | _ => rfl

theorem executeJob_claimedBy (job : ScheduleJob) (o : Outcome) :
    (executeJob job o).1.claimedBy = job.claimedBy := by
  cases o with
  | infeasible now ms search snapshot =>
    simp only [executeJob]
    split <;> rfl
  | _ => rfl

/-- Flushed over the row it was loaded from, the changed entity is the new row. -/
theorem flush_executeJob (job : ScheduleJob) (o : Outcome) :
    job.flush (executeJob job o).1 job = (executeJob job o).1 := by
  cases o with
  | infeasible now ms search snapshot =>
    simp only [executeJob]
    split <;> simp [ScheduleJob.flush, dirty_loaded, ScheduleJob.fail]
  | _ => simp [executeJob, ScheduleJob.flush, dirty_loaded, ScheduleJob.fail]

theorem executeJob_schedule {job : ScheduleJob} {o : Outcome} {sch : Schedule}
    (h : (executeJob job o).2 = some sch) :
    sch.scheduleJobId = job.id ∧ (executeJob job o).1.status = .completed := by
  cases o with
  | solved now ms score plan scheduleId =>
    cases h
    exact ⟨rfl, rfl⟩
  | infeasible now ms search snapshot =>
    simp only [executeJob] at h
    split at h <;> cases h
  | noInput | unknown | error => cases h

theorem reap_id (cfg : ReaperSettings) (now : ℤ) (job : ScheduleJob) :
    (job.reap cfg now).id = job.id := by
  unfold ScheduleJob.reap
  split
  · split <;> rfl
  · rfl

/-- The reaper leaves alone what is not `solving`, and takes what it touches out of `solving`. -/
theorem reap_eq (cfg : ReaperSettings) (now : ℤ) (job : ScheduleJob) :
    job.reap cfg now = job ∨ job.stuck cfg now = true ∧ job.status = .solving ∧
      (job.reap cfg now).status ≠ .solving := by
  unfold ScheduleJob.reap
  split
  · rename_i hst
    have hsol : job.status = .solving := by
      simp only [ScheduleJob.stuck, Bool.and_eq_true, decide_eq_true_eq] at hst
      exact hst.1
    refine .inr ⟨hst, hsol, ?_⟩
    split <;> simp
  · exact .inl rfl

/-! ## What a step does -/

/-- Everything a step can do. -/
inductive QueueMove (cfg : ReaperSettings) (s : QueueState) : QueueAction → QueueState → Prop
  | enqueue {job : NewJob} (hfresh : ∀ j ∈ s.jobs, j.id ≠ job.id) :
      QueueMove cfg s (.enqueue job) { s with jobs := s.jobs ++ [job.toJob] }
  | reap (now : ℤ) :
      QueueMove cfg s (.reap now) { s with jobs := s.jobs.map (·.reap cfg now) }
  | claim {w : ℕ} {now : ℤ} {job : ScheduleJob} (hw : s.workers w = .idle) (hj : job ∈ s.jobs)
      (hq : job.status = .queued) :
      QueueMove cfg s (.claim w job.id now)
        ({ s with jobs := modify (·.id) job.id (·.claim w now) s.jobs }.setWorker w
          (.claimed job.id job.tenantId))
  | load {w tenantId : ℕ} {job : ScheduleJob} (hw : s.workers w = .claimed job.id tenantId)
      (hj : job ∈ s.jobs) : QueueMove cfg s (.load w) (s.setWorker w (.executing job))
  | commit {w : ℕ} {job : ScheduleJob} (o : Outcome) (hw : s.workers w = .executing job) :
      QueueMove cfg s (.commit w o) (s.commit w job o)
  | crash (w : ℕ) : QueueMove cfg s (.crash w) (s.setWorker w .idle)

variable {s t : QueueState}

theorem queueStep_move {cfg : ReaperSettings} {a : QueueAction} (h : queueStep cfg s a = some t) :
    QueueMove cfg s a t := by
  cases a with
  | enqueue job =>
    simp only [queueStep] at h
    split at h
    · cases h
    · rename_i hfresh
      cases h
      exact .enqueue (by simpa using hfresh)
  | reap now =>
    cases h
    exact .reap now
  | claim w jobId now =>
    simp only [queueStep] at h
    split at h
    · rename_i job hw hj
      split at h
      · rename_i hcl
        cases h
        obtain ⟨hjm, rfl⟩ := mem_of_lookup hj
        simp only [ScheduleJob.claimable, Bool.and_eq_true, decide_eq_true_eq] at hcl
        exact .claim hw hjm hcl.1
      · cases h
    · cases h
  | load w =>
    simp only [queueStep] at h
    split at h
    · rename_i jobId tenantId hw
      simp only [Option.map_eq_some_iff] at h
      obtain ⟨job, hj, rfl⟩ := h
      obtain ⟨hjm, rfl⟩ := mem_of_lookup hj
      exact .load hw hjm
    · cases h
  | commit w o =>
    simp only [queueStep] at h
    split at h
    · rename_i job hw
      split at h
      · cases h
        exact .commit o hw
      · cases h
    · cases h
  | crash w =>
    cases h
    exact .crash w

theorem QueueMove.ids {cfg : ReaperSettings} {a : QueueAction} (h : QueueMove cfg s a t)
    (hn : (s.jobs.map (·.id)).Nodup) : (t.jobs.map (·.id)).Nodup := by
  cases h with
  | enqueue hfresh => exact nodup_append_singleton hn hfresh
  | reap now =>
    have hids : (s.jobs.map (·.reap cfg now)).map (·.id) = s.jobs.map (·.id) := by
      simp [reap_id, Function.comp_def]
    exact hids ▸ hn
  | @claim w now job hw hj hq =>
    have hids : (modify (·.id) job.id (·.claim w now) s.jobs).map (·.id) = s.jobs.map (·.id) :=
      map_key_modify (by intro; rfl) _
    exact hids ▸ hn
  | @commit w job o hw =>
    have hids : (s.commit w job o).jobs.map (·.id) = s.jobs.map (·.id) :=
      map_key_modify (by intro; rfl) _
    exact hids ▸ hn
  | load | crash => exact hn

/-- A commit over the row that was loaded replaces that row and no other. -/
theorem mem_commit {s : QueueState} (hn : (s.jobs.map (·.id)).Nodup) {w : ℕ} {job : ScheduleJob}
    {o : Outcome} (hjob : job ∈ s.jobs) {row : ScheduleJob} :
    row ∈ (s.commit w job o).jobs ↔
      row = (executeJob job o).1 ∨ row ∈ s.jobs ∧ row.id ≠ job.id := by
  simp only [QueueState.commit, QueueState.setWorker, mem_modify]
  constructor
  · rintro (⟨row₀, hm₀, hid, rfl⟩ | h)
    · obtain rfl := eq_of_key_eq hn hm₀ hjob hid
      exact .inl (flush_executeJob _ _)
    · exact .inr h
  · rintro (rfl | h)
    · exact .inl ⟨job, hjob, rfl, (flush_executeJob _ _).symm⟩
    · exact .inr h

theorem schedulesOf_commit_of_ne (s : QueueState) (w : ℕ) (job : ScheduleJob) (o : Outcome)
    {jobId : ℕ} (hne : jobId ≠ job.id) :
    (s.commit w job o).schedulesOf jobId = s.schedulesOf jobId := by
  simp only [QueueState.commit, QueueState.setWorker, QueueState.schedulesOf, filter_append]
  cases hsch : (executeJob job o).2 with
  | none => simp
  | some sch =>
    obtain ⟨hid, -⟩ := executeJob_schedule hsch
    simp [hid, Ne.symm hne]

theorem length_schedulesOf_commit_le (s : QueueState) (w : ℕ) (job : ScheduleJob) (o : Outcome) :
    ((s.commit w job o).schedulesOf job.id).length ≤ (s.schedulesOf job.id).length + 1 := by
  simp only [QueueState.commit, QueueState.setWorker, QueueState.schedulesOf, filter_append,
    length_append]
  have hone : ((executeJob job o).2.toList.filter fun sch => sch.scheduleJobId = job.id).length ≤
      (executeJob job o).2.toList.length := length_filter_le _ _
  have htwo : (executeJob job o).2.toList.length ≤ 1 := by
    cases (executeJob job o).2 <;> simp
  omega

/-! ## The invariant -/

/-- Final jobs of `s` are in `t` as they were, with the same schedules. -/
def KeepsFinal (s t : QueueState) : Prop :=
  ∀ job ∈ s.jobs, job.status.final = true →
    job ∈ t.jobs ∧ t.schedulesOf job.id = s.schedulesOf job.id

theorem KeepsFinal.trans {s t u : QueueState} (h : KeepsFinal s t) (h' : KeepsFinal t u) :
    KeepsFinal s u := by
  intro job hm hf
  obtain ⟨hm', hs⟩ := h job hm hf
  obtain ⟨hm'', hs'⟩ := h' job hm' hf
  exact ⟨hm'', hs'.trans hs⟩

structure QueueInvariant (s : QueueState) : Prop where
  ids : (s.jobs.map (·.id)).Nodup
  /-- The row of a held job is the one the worker loaded. -/
  loaded : ∀ w job, s.workers w = .executing job → ∀ row ∈ s.jobs, row.id = job.id →
    row.status = .solving → row.claimedBy = some w → row = job
  one : ∀ jobId, (s.schedulesOf jobId).length ≤ 1
  /-- A scheduled job is completed. -/
  scheduled : ∀ sch ∈ s.schedules, ∃ row ∈ s.jobs, row.id = sch.scheduleJobId ∧
    row.status = .completed

theorem QueueInit.invariant {s : QueueState} (h : QueueInit s) : QueueInvariant s where
  ids := h.ids
  loaded := by simp [h.workers]
  one := by simp [QueueState.schedulesOf, h.schedules]
  scheduled := by simp [h.schedules]

namespace QueueInvariant

variable {s : QueueState} (hs : QueueInvariant s)

include hs

/-- The job a worker executes and holds is in the table as it was loaded. -/
theorem held {w : ℕ} {job : ScheduleJob} (hw : s.workers w = .executing job)
    (hh : s.holds w job.id = true) :
    job ∈ s.jobs ∧ job.status = .solving ∧ job.claimedBy = some w := by
  simp only [QueueState.holds, QueueState.findJob, Option.any_eq_true, Bool.and_eq_true,
    decide_eq_true_eq] at hh
  obtain ⟨row, hrow, hst, hcl⟩ := hh
  obtain ⟨hm, hid⟩ := mem_of_lookup hrow
  obtain rfl := hs.loaded w job hw row hm hid hst hcl
  exact ⟨hm, hst, hcl⟩

theorem schedulesOf_eq_nil {job : ScheduleJob} (hjob : job ∈ s.jobs)
    (hsol : job.status = .solving) : s.schedulesOf job.id = [] := by
  simp only [QueueState.schedulesOf, filter_eq_nil_iff, decide_eq_true_eq]
  intro sch hsch hid
  obtain ⟨row, hm, hrid, hst⟩ := hs.scheduled sch hsch
  obtain rfl := eq_of_key_eq hs.ids hm hjob (hrid.trans hid)
  rw [hsol] at hst
  cases hst

variable {cfg : ReaperSettings} {a : QueueAction} {t : QueueState}

theorem loaded_of_move (hok : CommitsHeld s a) (h : QueueMove cfg s a t) :
    ∀ w job, t.workers w = .executing job → ∀ row ∈ t.jobs, row.id = job.id →
      row.status = .solving → row.claimedBy = some w → row = job := by
  intro v job hv row hm hid hst hcl
  cases h with
  | enqueue hfresh =>
    rcases Tables.mem_concat.1 hm with hm | rfl
    · exact hs.loaded v job hv row hm hid hst hcl
    · cases hst
  | reap now =>
    obtain ⟨row₀, hm₀, rfl⟩ := mem_map.1 hm
    rcases reap_eq cfg now row₀ with h | ⟨-, -, h⟩
    · rw [h] at hid hst hcl ⊢
      exact hs.loaded v job hv row₀ hm₀ hid hst hcl
    · exact absurd hst h
  | @claim w now claimed hw hj hq =>
    obtain ⟨-, hv⟩ | ⟨hvw, hv⟩ := QueueState.setWorker_eq hv
    · cases hv
    · rcases mem_modify.1 hm with ⟨row₀, hm₀, -, rfl⟩ | ⟨hm, -⟩
      · exact absurd (Option.some.inj hcl).symm hvw
      · exact hs.loaded v job hv row hm hid hst hcl
  | @load w tenantId loaded hw hj =>
    obtain ⟨-, hv⟩ | ⟨-, hv⟩ := QueueState.setWorker_eq hv
    · obtain rfl := WorkerState.executing.inj hv
      exact eq_of_key_eq hs.ids hm hj hid
    · exact hs.loaded v job hv row hm hid hst hcl
  | @commit w committed o hw =>
    obtain ⟨hjob, hsol, hown⟩ := hs.held hw (hok committed hw)
    obtain ⟨-, hv⟩ | ⟨hvw, hv⟩ := QueueState.setWorker_eq hv
    · cases hv
    · rcases (mem_commit hs.ids hjob).1 hm with rfl | ⟨hm, -⟩
      · rw [executeJob_claimedBy, hown] at hcl
        exact absurd (Option.some.inj hcl).symm hvw
      · exact hs.loaded v job hv row hm hid hst hcl
  | crash w =>
    obtain ⟨-, hv⟩ | ⟨-, hv⟩ := QueueState.setWorker_eq hv
    · cases hv
    · exact hs.loaded v job hv row hm hid hst hcl

/-- Final jobs are neither swept nor claimed, and the job of a held commit is not final. -/
theorem keepsFinal_of_move (hok : CommitsHeld s a) (h : QueueMove cfg s a t) : KeepsFinal s t := by
  intro row hm hf
  cases h with
  | enqueue hfresh => exact ⟨mem_append_left _ hm, rfl⟩
  | reap now =>
    refine ⟨mem_map.2 ⟨row, hm, ?_⟩, rfl⟩
    rcases reap_eq cfg now row with h | ⟨-, hst, -⟩
    · exact h
    · rw [hst] at hf
      cases hf
  | @claim w now job hw hj hq =>
    refine ⟨mem_modify.2 (.inr ⟨hm, fun hid => ?_⟩), rfl⟩
    obtain rfl := eq_of_key_eq hs.ids hm hj hid
    rw [hq] at hf
    cases hf
  | @commit w job o hw =>
    obtain ⟨hjob, hsol, -⟩ := hs.held hw (hok job hw)
    have hid : row.id ≠ job.id := by
      intro hid
      obtain rfl := eq_of_key_eq hs.ids hm hjob hid
      rw [hsol] at hf
      cases hf
    exact ⟨(mem_commit hs.ids hjob).2 (.inr ⟨hm, hid⟩), schedulesOf_commit_of_ne s w job o hid⟩
  | load | crash => exact ⟨hm, rfl⟩

theorem one_of_move (hok : CommitsHeld s a) (h : QueueMove cfg s a t) (jobId : ℕ) :
    (t.schedulesOf jobId).length ≤ 1 := by
  cases h with
  | enqueue | reap | claim | load | crash => exact hs.one jobId
  | @commit w job o hw =>
    obtain ⟨hjob, hsol, -⟩ := hs.held hw (hok job hw)
    by_cases hid : jobId = job.id
    · subst hid
      have hle := length_schedulesOf_commit_le s w job o
      rw [hs.schedulesOf_eq_nil hjob hsol] at hle
      exact hle
    · rw [schedulesOf_commit_of_ne s w job o hid]
      exact hs.one jobId

theorem scheduled_of_move (hok : CommitsHeld s a) (h : QueueMove cfg s a t) :
    ∀ sch ∈ t.schedules, ∃ row ∈ t.jobs, row.id = sch.scheduleJobId ∧ row.status = .completed := by
  intro sch hsch
  have hkeep : sch ∈ s.schedules →
      ∃ row ∈ t.jobs, row.id = sch.scheduleJobId ∧ row.status = .completed := by
    intro hold
    obtain ⟨row, hm, hid, hst⟩ := hs.scheduled sch hold
    exact ⟨row, (hs.keepsFinal_of_move hok h row hm (by rw [hst]; rfl)).1, hid, hst⟩
  cases h with
  | enqueue | reap | claim | load | crash => exact hkeep hsch
  | @commit w job o hw =>
    obtain ⟨hjob, -, -⟩ := hs.held hw (hok job hw)
    rcases mem_append.1 hsch with hsch | hsch
    · exact hkeep hsch
    · obtain ⟨hid, hst⟩ := executeJob_schedule (Option.mem_toList.1 hsch)
      exact ⟨_, (mem_commit hs.ids hjob).2 (.inl rfl), by rw [executeJob_id, hid], hst⟩

/-- Every step with a held commit keeps the invariant and the final jobs. -/
theorem step (hok : CommitsHeld s a) (ha : queueStep cfg s a = some t) :
    QueueInvariant t ∧ KeepsFinal s t := by
  have hmove := queueStep_move ha
  refine ⟨?_, hs.keepsFinal_of_move hok hmove⟩
  exact
    { ids := hmove.ids hs.ids
      loaded := hs.loaded_of_move hok hmove
      one := hs.one_of_move hok hmove
      scheduled := hs.scheduled_of_move hok hmove }

end QueueInvariant

/-! ## Runs -/

variable {cfg : ReaperSettings}

theorem KeepsFinal.refl (s : QueueState) : KeepsFinal s s := fun _ hm _ => ⟨hm, rfl⟩

/-- Final jobs stay as they are along a run of held commits. -/
theorem QueueInvariant.keepsFinal {as : List QueueAction} (hs : QueueInvariant s)
    (hm : Meets (queueStep cfg) CommitsHeld s as) (ht : exec (queueStep cfg) s as = some t) :
    KeepsFinal s t := by
  induction as generalizing s with
  | nil =>
    obtain rfl := Option.some.inj ht
    exact .refl s
  | cons a as ih =>
    obtain ⟨u, hu, ht⟩ := exec_cons_eq_some.1 ht
    obtain ⟨hok, hm⟩ := meets_cons.1 hm
    obtain ⟨hinv, hkeep⟩ := hs.step hok hu
    exact hkeep.trans (ih hinv (hm u hu) ht)

/-- **One schedule per job.** Along every run in which each final commit is by a worker that still
holds the job, however claims, sweeps, slow workers and crashes interleave: no job ever has two
schedules, and a job that is completed or failed at some point (`s₁`) is the same row, with the
same schedules, at every later one (`s₂`). -/
theorem one_schedule_per_job {s₀ s₁ s₂ : QueueState} {as bs : List QueueAction}
    (h₀ : QueueInit s₀) (h₁ : exec (queueStep cfg) s₀ as = some s₁)
    (h₂ : exec (queueStep cfg) s₁ bs = some s₂)
    (hm : Meets (queueStep cfg) CommitsHeld s₀ (as ++ bs)) :
    (∀ jobId, (s₂.schedulesOf jobId).length ≤ 1) ∧
      ∀ job ∈ s₁.jobs, job.status = .completed ∨ job.status = .failed →
        job ∈ s₂.jobs ∧ s₂.schedulesOf job.id = s₁.schedulesOf job.id := by
  have hstep : ∀ s a t, QueueInvariant s → CommitsHeld s a → queueStep cfg s a = some t →
      QueueInvariant t := fun s a t hs hok ha => (hs.step hok ha).1
  have hinv₁ := exec_invariant hstep h₀.invariant hm.of_append_left h₁
  have hinv₂ := exec_invariant hstep hinv₁ (hm.of_append_right h₁) h₂
  refine ⟨hinv₂.one, fun job hjob hst => ?_⟩
  refine hinv₁.keepsFinal (hm.of_append_right h₁) h₂ job hjob ?_
  rcases hst with hst | hst <;> rw [hst] <;> rfl

def emptyQueue : QueueState := ⟨[], [], fun _ => .idle⟩

theorem queueInit_emptyQueue : QueueInit emptyQueue := by
  constructor <;> simp [emptyQueue]

/-- A threshold of five minutes and three attempts. -/
def defaultSettings : ReaperSettings := ⟨300, 3⟩

def submitJob : NewJob := ⟨1, 7, 2, .submit, some "payload", none, none, 0⟩

/-- A worker dies on the job; after the sweep another one completes it. -/
def recoveredRun : List QueueAction :=
  [.enqueue submitJob, .claim 0 1 10, .load 0, .crash 0, .reap 311, .claim 1 1 312, .load 1,
    .commit 1 (.solved 320 8 none "plan" 101)]

theorem one_schedule_of_recoveredRun : ∃ s₁ s₂,
    exec (queueStep defaultSettings) emptyQueue recoveredRun = some s₁ ∧
    exec (queueStep defaultSettings) s₁ [.reap 700, .crash 1] = some s₂ ∧
    (∀ jobId, (s₂.schedulesOf jobId).length ≤ 1) ∧
      ∀ job ∈ s₁.jobs, job.status = .completed ∨ job.status = .failed →
        job ∈ s₂.jobs ∧ s₂.schedulesOf job.id = s₁.schedulesOf job.id := by
  obtain ⟨s₂, h, -⟩ : ∃ t, exec (queueStep defaultSettings) emptyQueue
      (recoveredRun ++ [.reap 700, .crash 1]) = some t ∧ True := exists_exec (by decide)
  obtain ⟨s₁, h₁, h₂⟩ := exec_append_eq_some.1 h
  exact ⟨s₁, s₂, h₁, h₂, one_schedule_per_job queueInit_emptyQueue h₁ h₂ (by decide)⟩

/-- The solve of worker 0 outlasts the threshold: the sweep requeues the job, worker 1 claims it,
and both commit. -/
def slowWorkerRun : List QueueAction :=
  [.enqueue submitJob, .claim 0 1 10, .load 0, .reap 311, .claim 1 1 312, .load 1,
    .commit 0 (.solved 315 305000 none "plan" 100), .commit 1 (.solved 320 8000 none "plan" 101)]

theorem slow_worker_persists_second_schedule : QueueInit emptyQueue ∧
    ∃ t, exec (queueStep defaultSettings) emptyQueue slowWorkerRun = some t ∧
      (t.schedulesOf 1).length = 2 :=
  ⟨queueInit_emptyQueue, exists_exec (by decide)⟩

/-! ## When the reaper spares the living -/

/-- The job a worker is on. -/
def WorkerState.jobId : WorkerState → Option ℕ
  | .idle => none
  | .claimed jobId _ => some jobId
  | .executing job => some job.id

theorem jobId_setWorker {s : QueueState} {v w jobId : ℕ} {state : WorkerState}
    (h : ((s.setWorker w state).workers v).jobId = some jobId) :
    v = w ∧ state.jobId = some jobId ∨ v ≠ w ∧ (s.workers v).jobId = some jobId := by
  simp only [QueueState.setWorker] at h
  split at h
  · exact .inl ⟨‹_›, h⟩
  · exact .inr ⟨‹_›, h⟩

/-- A sweep touches no job that some worker is on. -/
def ReapsAbandoned (cfg : ReaperSettings) (s : QueueState) : QueueAction → Prop
  | .reap now => ∀ w, ∀ row ∈ s.jobs, (s.workers w).jobId = some row.id → row.stuck cfg now = false
  | _ => True

/-- Every worker holds the job it is on. -/
structure Leased (s : QueueState) : Prop where
  ids : (s.jobs.map (·.id)).Nodup
  held : ∀ w jobId, (s.workers w).jobId = some jobId →
    ∃ row ∈ s.jobs, row.id = jobId ∧ row.status = .solving ∧ row.claimedBy = some w

theorem QueueInit.leased {s : QueueState} (h : QueueInit s) : Leased s :=
  ⟨h.ids, by simp [h.workers, WorkerState.jobId]⟩

namespace Leased

variable {s t : QueueState} (hs : Leased s)

include hs

theorem holds {w jobId : ℕ} (hw : (s.workers w).jobId = some jobId) : s.holds w jobId = true := by
  obtain ⟨row, hm, rfl, hst, hcl⟩ := hs.held w jobId hw
  simp [QueueState.holds, QueueState.findJob, lookup_eq_some hs.ids hm, hst, hcl]

theorem commitsHeld (a : QueueAction) : CommitsHeld s a := by
  cases a with
  | commit w o => exact fun job hw => hs.holds (by rw [hw]; rfl)
  | _ => trivial

/-- A step of a run whose sweeps spare the living keeps every lease. -/
theorem step {a : QueueAction} (hok : ReapsAbandoned cfg s a) (ha : queueStep cfg s a = some t) :
    Leased t := by
  have hmove := queueStep_move ha
  refine ⟨hmove.ids hs.ids, fun v jobId hv => ?_⟩
  cases hmove with
  | enqueue hfresh =>
    obtain ⟨row, hm, h⟩ := hs.held v jobId hv
    exact ⟨row, mem_append_left _ hm, h⟩
  | reap now =>
    obtain ⟨row, hm, rfl, hst, hcl⟩ := hs.held v jobId hv
    refine ⟨row, mem_map.2 ⟨row, hm, ?_⟩, rfl, hst, hcl⟩
    rcases reap_eq cfg now row with h | ⟨h, -, -⟩
    · exact h
    · rw [hok v row hm hv] at h
      cases h
  | @claim w now job hw hj hq =>
    obtain ⟨rfl, hnew⟩ | ⟨-, hold⟩ := jobId_setWorker hv
    · cases hnew
      exact ⟨job.claim v now, mem_modify.2 (.inl ⟨job, hj, rfl, rfl⟩), rfl, rfl, rfl⟩
    · obtain ⟨row, hm, rfl, hst, hcl⟩ := hs.held v jobId hold
      refine ⟨row, mem_modify.2 (.inr ⟨hm, fun hid => ?_⟩), rfl, hst, hcl⟩
      obtain rfl := eq_of_key_eq hs.ids hm hj hid
      rw [hq] at hst
      cases hst
  | @load w tenantId job hw hj =>
    obtain ⟨rfl, hnew⟩ | ⟨-, hold⟩ := jobId_setWorker hv
    · exact hs.held v jobId (by rw [hw]; exact hnew)
    · exact hs.held v jobId hold
  | @commit w job o hw =>
    obtain ⟨own, hown, hoid, -, hocl⟩ := hs.held w job.id (by rw [hw]; rfl)
    obtain ⟨-, hv⟩ | ⟨hvw, hv⟩ := jobId_setWorker hv
    · cases hv
    · obtain ⟨row, hm, rfl, hst, hcl⟩ := hs.held v jobId hv
      refine ⟨row, mem_modify.2 (.inr ⟨hm, fun hid => ?_⟩), rfl, hst, hcl⟩
      -- the committed job is held by `w` alone
      obtain rfl := eq_of_key_eq hs.ids hm hown (hid.trans hoid.symm)
      rw [hocl] at hcl
      exact hvw (Option.some.inj hcl).symm
  | crash w =>
    obtain ⟨-, hv⟩ | ⟨-, hv⟩ := jobId_setWorker hv
    · cases hv
    · exact hs.held v jobId hv

end Leased

/-- **A threshold above every solve time.** When no sweep of a run touches a job that a worker is
on, every final commit of the run is by the worker that holds the job. -/
theorem commits_held_of_reaps_abandoned {as : List QueueAction} (h₀ : QueueInit s)
    (ht : exec (queueStep cfg) s as = some t)
    (hm : Meets (queueStep cfg) (ReapsAbandoned cfg) s as) :
    Meets (queueStep cfg) CommitsHeld s as :=
  meets_of_invariant (fun _ a hs _ => hs.commitsHeld a) (fun _ _ _ hs hok ha => hs.step hok ha)
    h₀.leased hm ht

/-- So no job of such a run ever has two schedules. -/
theorem one_schedule_of_reaps_abandoned {as : List QueueAction} (h₀ : QueueInit s)
    (ht : exec (queueStep cfg) s as = some t)
    (hm : Meets (queueStep cfg) (ReapsAbandoned cfg) s as) (jobId : ℕ) :
    (t.schedulesOf jobId).length ≤ 1 :=
  (exec_invariant (fun _ _ _ hs hok ha => (hs.step hok ha).1) h₀.invariant
    (commits_held_of_reaps_abandoned h₀ ht hm) ht).one jobId

/-- A sweep while worker 0 solves the job finds it fresh. -/
def sparedRun : List QueueAction :=
  [.enqueue submitJob, .claim 0 1 10, .load 0, .reap 100, .commit 0 (.solved 320 8 none "plan" 101)]

theorem one_schedule_on_sparedRun : ∃ t,
    exec (queueStep defaultSettings) emptyQueue sparedRun = some t ∧
      ∀ jobId, (t.schedulesOf jobId).length ≤ 1 := by
  obtain ⟨t, ht, -⟩ : ∃ t, exec (queueStep defaultSettings) emptyQueue sparedRun = some t ∧ True :=
    exists_exec (by decide)
  have hfresh : Meets (queueStep defaultSettings) (fun s a => (match a with
      | .reap now => s.jobs.all fun row => !row.stuck defaultSettings now
      | _ => true) = true) emptyQueue sparedRun := by decide
  refine ⟨t, ht, one_schedule_of_reaps_abandoned queueInit_emptyQueue ht fun bs a t hbs ht => ?_⟩
  have hnone := hfresh bs a t hbs ht
  cases a with
  | reap now => exact fun w row hrow _ => by simpa using all_eq_true.1 hnone row hrow
  | _ => trivial

end Workforce.Scheduling
