import Mathlib.Data.List.Sort
import Workforce.Integration.Backfill

/-!
# Backfill workers

The transactions of `historical-backfill-runner.service.ts`, when ticks overlap. A tick selects one
due chunk for each job, and then takes them one by one: it reads the job, marks the chunk as
running, lets the adapter fetch it, records the outcome, and stores the records. Each of these is a
transaction of its own, none looks at what has happened since the one before it, and a worker may
crash between any two of them. A job can be cancelled at any time.

* `ExactlyOnce`: cancelled jobs stay cancelled, a chunk is fetched by one worker at a time, and a
  completed chunk has the records of one fetch.
* `exactlyOnce_iff`: exactly when that holds in every state of a run.
-/

namespace Workforce.Integration.Backfill

open Db List

/-- `DueChunk`. -/
structure DueChunk where
  tenantId : ℕ
  jobId : ℕ
  chunkId : ℕ

/-- Where a worker is; `β` are the JSON objects of the adapters. -/
inductive Stage (β : Type*)
  /-- Before the next chunk. -/
  | next
  | unsupported (tenantId jobId : ℕ) (provider : String)
  /-- The job has been read. -/
  | found (due : DueChunk) (job : SyncJob β)
  /-- The chunk is marked, and the adapter at work. -/
  | fetching (due : DueChunk) (job : SyncJob β)
  /-- The outcome is recorded. -/
  | landing (due : DueChunk) (records : List β)

/-- A tick, or the caller of `start`. -/
structure Worker (β : Type*) where
  id : ℕ
  due : List DueChunk
  stage : Stage β

/-- The rows of `historical_record` that one fetch has brought. -/
structure Landing (β : Type*) where
  tenantId : ℕ
  syncJobId : ℕ
  chunkId : ℕ
  records : List β

/-- A cancelled job, with the chunks that were completed. -/
structure Cancellation where
  tenantId : ℕ
  jobId : ℕ
  completed : List ℕ

/-- The tables, the records that were stored, and where every worker is. -/
structure WorkersState (β : Type*) where
  db : Db β
  landings : List (Landing β)
  workers : List (Worker β)
  /-- The cancellations so far. -/
  cancellations : List Cancellation

/-- A transaction of a worker or of a user, or a crash. -/
inductive WorkersStep (β : Type*)
  /-- The transaction of `start` that inserts. -/
  | start (worker tenantId connectorId : ℕ) (datasetKey : String) (rangeStart rangeEnd : ℤ)
      (jobId : ℕ) (chunkIds : List ℕ)
  | cancel (tenantId jobId : ℕ)
  /-- A tick begins with `findDueChunks`. -/
  | tick (worker : ℕ)
  /-- `findJob`, and the job's connector. -/
  | read (worker : ℕ)
  | failJobUnsupported (worker : ℕ)
  | mark (worker : ℕ)
  /-- The adapter is done, and the outcome is recorded. -/
  | finish (worker : ℕ) (fetch : Except String (ChunkOutcome β × List β))
  | land (worker : ℕ)
  | crash (worker : ℕ)

variable {β : Type*}

/-- One chunk of every due job, the first one that is queued. -/
def findDueChunks (db : Db β) : List DueChunk :=
  (db.jobs.insertionSort (·.id ≤ ·.id)).filterMap fun j =>
    if j.status = .queued ∨ j.status = .running then
      ((db.chunks.filter fun c => c.syncJobId = j.id ∧ c.status = .queued).argmin
        (·.chunkIndex)).map fun c => ⟨c.tenantId, c.syncJobId, c.id⟩
    else none

variable (registered : String → Bool)

/-- Where `processChunk` goes on after its first two queries. -/
def afterRead (db : Db β) (due : DueChunk) : Stage β :=
  match db.findJob due.tenantId due.jobId with
  -- `tick` logs the error
  | .error _ => .next
  | .ok job =>
    match db.findConnector due.tenantId job.connectorId with
    | none => .next
    | some connector =>
      if registered connector.provider then .found due job
      else .unsupported due.tenantId due.jobId connector.provider

/-- Where `start` goes on after it has inserted. -/
def afterStart (db : Db β) (tenantId connectorId jobId : ℕ) : Stage β :=
  match db.findConnector tenantId connectorId with
  | none => .next
  | some connector =>
    if registered connector.provider then .next
    else .unsupported tenantId jobId connector.provider

/-- The outcome and the records of a fetch, which may throw. -/
def fetchOutcome (fetch : Except String (ChunkOutcome β × List β)) : ChunkOutcome β :=
  outcomeOf (fetch.map Prod.fst)

/-- The records of a fetch; one that throws has brought none. -/
def fetchRecords : Except String (ChunkOutcome β × List β) → List β
  | .ok (_, records) => records
  | .error _ => []

/-- The rows that a chunk's records become. -/
def DueChunk.landing (due : DueChunk) (records : List β) : Landing β :=
  ⟨due.tenantId, due.jobId, due.chunkId, records⟩

/-- What is stored as soon as the outcome is recorded: a fetch that completes without records has
nothing else to store. -/
def landedAtOnce (due : DueChunk) (fetch : Except String (ChunkOutcome β × List β)) :
    List (Landing β) :=
  if (fetchOutcome fetch).completed ∧ (fetchRecords fetch).isEmpty then [due.landing []] else []

/-- Where a worker goes on once the outcome is recorded. -/
def afterFinish (due : DueChunk) (fetch : Except String (ChunkOutcome β × List β)) : Stage β :=
  if (fetchRecords fetch).isEmpty then .next else .landing due (fetchRecords fetch)

namespace WorkersState

variable (s : WorkersState β)

def worker? (worker : ℕ) : Option (Worker β) := Tables.lookup Worker.id worker s.workers

def stage? (worker : ℕ) : Option (Stage β) := (s.worker? worker).map (·.stage)

/-- The worker goes on to a stage. -/
def moveOn (worker : ℕ) (stage : Stage β) : List (Worker β) :=
  Tables.modify Worker.id worker (fun w => { w with stage := stage }) s.workers

end WorkersState

/-- What a step does to the tables and to its worker; `none` where it cannot happen. -/
def workersStep (s : WorkersState β) : WorkersStep β → Option (WorkersState β)
  | .start worker tenantId connectorId datasetKey rangeStart rangeEnd jobId chunkIds =>
    if worker ∉ s.workers.map (·.id) ∧ jobId ∉ s.db.jobs.map (·.id) ∧ chunkIds.Nodup ∧
        (∀ id ∈ chunkIds, id ∉ s.db.chunks.map (·.id)) ∧
        (buildChunkRanges rangeStart rangeEnd chunkSizeDays).length ≤ chunkIds.length then
      match start (fun _ => true) s.db tenantId connectorId datasetKey rangeStart rangeEnd jobId
          chunkIds with
      | .error _ => none
      | .ok db => some { s with
          db
          workers := s.workers ++
            [⟨worker, [], afterStart registered s.db tenantId connectorId jobId⟩] }
    else none
  | .cancel tenantId jobId =>
    match cancel s.db tenantId jobId with
    | .error _ => none
    | .ok db => some { s with
        db
        cancellations := s.cancellations ++ [⟨tenantId, jobId,
          (s.db.chunks.filter (hasStatus tenantId jobId .completed)).map (·.id)⟩] }
  | .tick worker =>
    if worker ∉ s.workers.map (·.id) then
      some { s with workers := s.workers ++ [⟨worker, findDueChunks s.db, .next⟩] }
    else none
  | .read worker =>
    match s.worker? worker with
    | some ⟨_, due :: rest, .next⟩ => some { s with
        workers := Tables.modify Worker.id worker
          (fun w => { w with due := rest, stage := afterRead registered s.db due }) s.workers }
    | _ => none
  | .failJobUnsupported worker =>
    match s.stage? worker with
    | some (.unsupported tenantId jobId provider) => some { s with
        db := failJobUnsupported s.db tenantId jobId provider
        workers := s.moveOn worker .next }
    | _ => none
  | .mark worker =>
    match s.stage? worker with
    | some (.found due job) =>
      if s.db.chunks.any (isChunk due.tenantId due.chunkId) then
        some { s with
          db := markRunning s.db due.tenantId due.jobId due.chunkId
          workers := s.moveOn worker (.fetching due job) }
      else
        -- `findOneByOrFail` throws, and the transaction is rolled back
        some { s with workers := s.moveOn worker .next }
    | _ => none
  | .finish worker fetch =>
    match s.stage? worker with
    | some (.fetching due job) => some { s with
        db := finishChunk s.db job due.tenantId due.jobId due.chunkId (fetchOutcome fetch)
        landings := s.landings ++ landedAtOnce due fetch
        workers := s.moveOn worker (afterFinish due fetch) }
    | _ => none
  | .land worker =>
    match s.stage? worker with
    | some (.landing due records) => some { s with
        landings := s.landings ++ [due.landing records]
        workers := s.moveOn worker .next }
    | _ => none
  | .crash worker =>
    match s.stage? worker with
    | some _ => some { s with workers := s.workers.filter (·.id ≠ worker) }
    | none => none

/-! ## Exactly once -/

namespace Stage

def unsupported? : Stage β → Option (ℕ × ℕ)
  | unsupported tenantId jobId _ => some (tenantId, jobId)
  | _ => none

def found? : Stage β → Option DueChunk
  | found due _ => some due
  | _ => none

def fetching? : Stage β → Option DueChunk
  | fetching due _ => some due
  | _ => none

def landing? : Stage β → Option DueChunk
  | landing due _ => some due
  | _ => none

def isFetching (chunkId : ℕ) (stage : Stage β) : Bool := stage.fetching?.any (·.chunkId = chunkId)

def isLanding (chunkId : ℕ) (stage : Stage β) : Bool := stage.landing?.any (·.chunkId = chunkId)

end Stage

namespace WorkersState

variable (s : WorkersState β)

/-- The workers that are fetching a chunk. -/
def fetching (chunkId : ℕ) : ℕ := s.workers.countP (·.stage.isFetching chunkId)

/-- The fetches of a chunk whose records are stored, or about to be. -/
def fetches (chunkId : ℕ) : ℕ :=
  s.landings.countP (·.chunkId = chunkId) + s.workers.countP (·.stage.isLanding chunkId)

def IsCancelled (tenantId jobId : ℕ) : Prop :=
  ∃ j ∈ s.db.jobs, (j.id = jobId ∧ j.tenantId = tenantId) ∧ j.status = .cancelled
  deriving Decidable

end WorkersState

/-- What a backfill promises: cancelled is cancelled, and no fetch counts twice. -/
structure ExactlyOnce (s : WorkersState β) : Prop where
  cancelled : ∀ x ∈ s.cancellations, ∀ j ∈ s.db.jobs, j.id = x.jobId ∧ j.tenantId = x.tenantId →
    j.status = .cancelled
  /-- No chunk completes after a cancellation. -/
  ended : ∀ x ∈ s.cancellations, ∀ c ∈ s.db.chunks,
    c.syncJobId = x.jobId ∧ c.tenantId = x.tenantId → c.status = .completed → c.id ∈ x.completed
  alone : ∀ chunkId, s.fetching chunkId ≤ 1
  once : ∀ c ∈ s.db.chunks, c.status = .completed → s.fetches c.id = 1

/-- A job is failed or a chunk marked only when the job is not cancelled, and a chunk only when
nobody else is fetching it; an outcome is recorded only when the job is not cancelled, and a chunk
completes only when the records of no other fetch are stored or about to be; and no worker crashes
before it has stored the records of a completed chunk. -/
def Orderly (s : WorkersState β) : WorkersStep β → Prop
  | .failJobUnsupported worker =>
    ∀ x ∈ (s.stage? worker).bind Stage.unsupported?, ¬ s.IsCancelled x.1 x.2
  | .mark worker => ∀ due ∈ (s.stage? worker).bind Stage.found?,
      ¬ s.IsCancelled due.tenantId due.jobId ∧ s.fetching due.chunkId = 0
  | .finish worker fetch => ∀ due ∈ (s.stage? worker).bind Stage.fetching?,
      ¬ s.IsCancelled due.tenantId due.jobId ∧
        ((fetchOutcome fetch).completed → s.fetches due.chunkId = 0)
  | .crash worker => ∀ due ∈ (s.stage? worker).bind Stage.landing?,
      ∀ c ∈ s.db.chunks, c.id = due.chunkId → c.status ≠ .completed
  | _ => True

instance (s : WorkersState β) : DecidablePred (Orderly s) := fun step => by
  cases step <;> unfold Orderly <;> infer_instance

/-! ## The invariant -/

/-- The chunks that a worker has to do with. -/
def Stage.items : Stage β → List DueChunk
  | .found due _ | .fetching due _ | .landing due _ => [due]
  | _ => []

def Worker.items (w : Worker β) : List DueChunk := w.due ++ w.stage.items

/-- What every orderly step keeps. -/
structure WorkersInv (s : WorkersState β) : Prop where
  exactlyOnce : ExactlyOnce s
  jobIds : (s.db.jobs.map (·.id)).Nodup
  chunkIds : (s.db.chunks.map (·.id)).Nodup
  workerIds : (s.workers.map Worker.id).Nodup
  /-- A worker has to do with chunks that there are. -/
  items : ∀ w ∈ s.workers, ∀ due ∈ w.items, ∃ c ∈ s.db.chunks,
    c.id = due.chunkId ∧ c.tenantId = due.tenantId ∧ c.syncJobId = due.jobId
  /-- A job is cancelled by a cancellation. -/
  cancelledBy : ∀ j ∈ s.db.jobs, j.status = .cancelled →
    ∃ x ∈ s.cancellations, x.jobId = j.id ∧ x.tenantId = j.tenantId
  cancelledJob : ∀ x ∈ s.cancellations, ∃ j ∈ s.db.jobs, j.id = x.jobId ∧ j.tenantId = x.tenantId
  noneQueued : ∀ x ∈ s.cancellations, ∀ c ∈ s.db.chunks,
    c.syncJobId = x.jobId ∧ c.tenantId = x.tenantId → c.status ≠ .queued

/-- A transaction on the rows that are there. -/
def Db.rewrite (db : Db β) (f : SyncJob β → SyncJob β) (g : Chunk β → Chunk β) : Db β :=
  ⟨db.connectors, db.jobs.map f, db.chunks.map g⟩

/-- A transaction that keeps the keys. -/
structure KeepsKeys (f : SyncJob β → SyncJob β) (g : Chunk β → Chunk β) : Prop where
  jobId : ∀ j, (f j).id = j.id
  jobTenantId : ∀ j, (f j).tenantId = j.tenantId
  chunkId : ∀ c, (g c).id = c.id
  chunkTenantId : ∀ c, (g c).tenantId = c.tenantId
  syncJobId : ∀ c, (g c).syncJobId = c.syncJobId

section Transactions

variable {s : WorkersState β} {f : SyncJob β → SyncJob β} {g : Chunk β → Chunk β}

theorem KeepsKeys.map_jobs (h : KeepsKeys f g) (jobs : List (SyncJob β)) :
    (jobs.map f).map (·.id) = jobs.map (·.id) := by
  rw [map_map]
  exact map_congr_left fun j _ => h.jobId j

theorem KeepsKeys.map_chunks (h : KeepsKeys f g) (chunks : List (Chunk β)) :
    (chunks.map g).map (·.id) = chunks.map (·.id) := by
  rw [map_map]
  exact map_congr_left fun c _ => h.chunkId c

theorem WorkersInv.items_rewrite (h : WorkersInv s) (hkeeps : KeepsKeys f g)
    {workers : List (Worker β)}
    (hitems : ∀ w ∈ workers, ∀ due ∈ w.items, ∃ w' ∈ s.workers, due ∈ w'.items) :
    ∀ w ∈ workers, ∀ due ∈ w.items, ∃ c ∈ s.db.chunks.map g,
      c.id = due.chunkId ∧ c.tenantId = due.tenantId ∧ c.syncJobId = due.jobId := by
  intro w hw due hdue
  obtain ⟨w', hw', hdue'⟩ := hitems w hw due hdue
  obtain ⟨c, hc, hid, htenant, hjob⟩ := h.items w' hw' due hdue'
  exact ⟨g c, mem_map_of_mem hc, (hkeeps.chunkId c).trans hid,
    (hkeeps.chunkTenantId c).trans htenant, (hkeeps.syncJobId c).trans hjob⟩

theorem WorkersInv.cancelledJob_rewrite (h : WorkersInv s) (hkeeps : KeepsKeys f g)
    {x : Cancellation} (hx : x ∈ s.cancellations) :
    ∃ j ∈ s.db.jobs.map f, j.id = x.jobId ∧ j.tenantId = x.tenantId := by
  obtain ⟨j, hj, hid, htenant⟩ := h.cancelledJob x hx
  exact ⟨f j, mem_map_of_mem hj, (hkeeps.jobId j).trans hid, (hkeeps.jobTenantId j).trans htenant⟩

variable {landings : List (Landing β)}

/-- A transaction keeps the invariant when it leaves cancelled jobs alone, queues no chunk, and
completes only chunks of jobs that are not cancelled. -/
theorem WorkersInv.rewrite (h : WorkersInv s) (hkeeps : KeepsKeys f g) {workers : List (Worker β)}
    (hids : (workers.map Worker.id).Nodup)
    (hitems : ∀ w ∈ workers, ∀ due ∈ w.items, ∃ w' ∈ s.workers, due ∈ w'.items)
    (hjobs : ∀ j ∈ s.db.jobs, (f j).status = .cancelled ↔ j.status = .cancelled)
    (hqueued : ∀ c ∈ s.db.chunks, (g c).status = .queued → c.status = .queued)
    (hover : ∀ c ∈ s.db.chunks, (g c).status = .completed →
      c.status = .completed ∨ ¬ s.IsCancelled c.tenantId c.syncJobId)
    (halone : ∀ chunkId, workers.countP (·.stage.isFetching chunkId) ≤ 1)
    (honce : ∀ c ∈ s.db.chunks, (g c).status = .completed →
      landings.countP (·.chunkId = c.id) + workers.countP (·.stage.isLanding c.id) = 1) :
    WorkersInv ⟨s.db.rewrite f g, landings, workers, s.cancellations⟩ where
  exactlyOnce :=
    { cancelled := by
        rintro x hx j' hj' ⟨hid, htenant⟩
        obtain ⟨j, hj, rfl⟩ := mem_map.1 hj'
        rw [hkeeps.jobId] at hid
        rw [hkeeps.jobTenantId] at htenant
        exact (hjobs j hj).2 (h.exactlyOnce.cancelled x hx j hj ⟨hid, htenant⟩)
      ended := by
        rintro x hx c' hc' ⟨hid, htenant⟩ hcompleted
        obtain ⟨c, hc, rfl⟩ := mem_map.1 hc'
        rw [hkeeps.syncJobId] at hid
        rw [hkeeps.chunkTenantId] at htenant
        rw [hkeeps.chunkId]
        rcases hover c hc hcompleted with hold | hno
        · exact h.exactlyOnce.ended x hx c hc ⟨hid, htenant⟩ hold
        · obtain ⟨j, hj, hjob⟩ := h.cancelledJob x hx
          refine absurd ⟨j, hj, ?_, h.exactlyOnce.cancelled x hx j hj hjob⟩ hno
          exact ⟨hjob.1.trans hid.symm, hjob.2.trans htenant.symm⟩
      alone := halone
      once := by
        intro c' hc' hcompleted
        obtain ⟨c, hc, rfl⟩ := mem_map.1 hc'
        rw [hkeeps.chunkId]
        exact honce c hc hcompleted }
  jobIds := by
    rw [Db.rewrite, hkeeps.map_jobs]
    exact h.jobIds
  chunkIds := by
    rw [Db.rewrite, hkeeps.map_chunks]
    exact h.chunkIds
  workerIds := hids
  items := h.items_rewrite hkeeps hitems
  cancelledBy := by
    intro j' hj' hcancelled
    obtain ⟨j, hj, rfl⟩ := mem_map.1 hj'
    rw [hkeeps.jobId, hkeeps.jobTenantId]
    exact h.cancelledBy j hj ((hjobs j hj).1 hcancelled)
  cancelledJob := fun _ hx => h.cancelledJob_rewrite hkeeps hx
  noneQueued := by
    rintro x hx c' hc' ⟨hid, htenant⟩ hq
    obtain ⟨c, hc, rfl⟩ := mem_map.1 hc'
    rw [hkeeps.syncJobId] at hid
    rw [hkeeps.chunkTenantId] at htenant
    exact h.noneQueued x hx c hc ⟨hid, htenant⟩ (hqueued c hc hq)

theorem WorkersInv.workers (h : WorkersInv s) {workers : List (Worker β)}
    (hids : (workers.map Worker.id).Nodup)
    (hitems : ∀ w ∈ workers, ∀ due ∈ w.items, ∃ w' ∈ s.workers, due ∈ w'.items)
    (halone : ∀ chunkId, workers.countP (·.stage.isFetching chunkId) ≤ 1)
    (honce : ∀ c ∈ s.db.chunks, c.status = .completed →
      landings.countP (·.chunkId = c.id) + workers.countP (·.stage.isLanding c.id) = 1) :
    WorkersInv ⟨s.db, landings, workers, s.cancellations⟩ := by
  have hkeeps : KeepsKeys (β := β) id id :=
    ⟨fun _ => rfl, fun _ => rfl, fun _ => rfl, fun _ => rfl, fun _ => rfl⟩
  have hrewrite := h.rewrite hkeeps hids hitems (fun _ _ => Iff.rfl) (fun _ _ hq => hq)
    (fun _ _ hcompleted => .inl hcompleted) halone honce
  rwa [Db.rewrite, map_id, map_id] at hrewrite

theorem WorkersInv.not_exactlyOnce (h : WorkersInv s) {tenantId jobId : ℕ}
    (hcancelled : s.IsCancelled tenantId jobId) (hkeeps : KeepsKeys f g)
    (hstatus : ∀ j ∈ s.db.jobs, j.id = jobId ∧ j.tenantId = tenantId → j.status = .cancelled →
      (f j).status ≠ .cancelled) {workers : List (Worker β)} :
    ¬ ExactlyOnce ⟨s.db.rewrite f g, landings, workers, s.cancellations⟩ := by
  intro hexactly
  obtain ⟨j, hj, hjob, hrow⟩ := hcancelled
  obtain ⟨x, hx, hid, htenant⟩ := h.cancelledBy j hj hrow
  refine hstatus j hj hjob hrow (hexactly.cancelled x hx (f j) (mem_map_of_mem hj) ?_)
  exact ⟨(hkeeps.jobId j).trans hid.symm, (hkeeps.jobTenantId j).trans htenant.symm⟩

end Transactions

/-! ## Workers -/

section Workers

variable {s : WorkersState β} {worker : ℕ} {stage : Stage β} (stage' : Stage β)

theorem exists_worker (h : s.stage? worker = some stage) :
    ∃ w ∈ s.workers, w.id = worker ∧ w.stage = stage := by
  obtain ⟨w, hw, rfl⟩ := Option.map_eq_some_iff.1 h
  obtain ⟨hmem, hid⟩ := Tables.mem_of_lookup hw
  exact ⟨w, hmem, hid, rfl⟩

theorem WorkersInv.nodup_moveOn (h : WorkersInv s) :
    ((s.moveOn worker stage').map Worker.id).Nodup := by
  have hid : ∀ w : Worker β, ({ w with stage := stage' } : Worker β).id = w.id := fun _ => rfl
  rw [WorkersState.moveOn, Tables.map_key_modify hid]
  exact h.workerIds

variable {stage'} in
theorem items_moveOn (hstage : s.stage? worker = some stage) (hsub : stage'.items ⊆ stage.items) :
    ∀ w ∈ s.moveOn worker stage', ∀ due ∈ w.items, ∃ w' ∈ s.workers, due ∈ w'.items := by
  intro w hw due hdue
  obtain ⟨w₀, hw₀, hid₀, hstage₀⟩ := exists_worker hstage
  obtain ⟨w', hw', rfl⟩ := mem_map.1 hw
  split at hdue
  · rcases mem_append.1 hdue with hdue | hdue
    · exact ⟨w', hw', mem_append_left _ hdue⟩
    · exact ⟨w₀, hw₀, mem_append_right _ (hstage₀ ▸ hsub hdue)⟩
  · exact ⟨w', hw', hdue⟩

theorem WorkersInv.countP_moveOn (h : WorkersInv s) (hstage : s.stage? worker = some stage)
    (p : Stage β → Bool) :
    (s.moveOn worker stage').countP (fun w => p w.stage) + (if p stage then 1 else 0) =
      s.workers.countP (fun w => p w.stage) + if p stage' then 1 else 0 := by
  obtain ⟨w, hw, rfl, rfl⟩ := exists_worker hstage
  exact Tables.countP_modify h.workerIds hw _ _

variable {p : Stage β → Bool}

theorem WorkersInv.countP_moveOn_eq (h : WorkersInv s) (hstage : s.stage? worker = some stage)
    (hp : p stage' = p stage) :
    (s.moveOn worker stage').countP (fun w => p w.stage) =
      s.workers.countP fun w => p w.stage := by
  have hcount := h.countP_moveOn stage' hstage p
  rw [hp] at hcount
  omega

theorem WorkersInv.countP_moveOn_succ (h : WorkersInv s) (hstage : s.stage? worker = some stage)
    (hp : p stage = false) (hp' : p stage' = true) :
    (s.moveOn worker stage').countP (fun w => p w.stage) =
      s.workers.countP (fun w => p w.stage) + 1 := by
  have hcount := h.countP_moveOn stage' hstage p
  rw [hp, hp', if_neg Bool.false_ne_true, if_pos rfl] at hcount
  omega

theorem WorkersInv.countP_moveOn_pred (h : WorkersInv s) (hstage : s.stage? worker = some stage)
    (hp : p stage = true) (hp' : p stage' = false) :
    (s.moveOn worker stage').countP (fun w => p w.stage) + 1 =
      s.workers.countP (fun w => p w.stage) := by
  have hcount := h.countP_moveOn stage' hstage p
  rw [hp, hp', if_neg Bool.false_ne_true, if_pos rfl] at hcount
  omega

theorem WorkersInv.exists_chunk (h : WorkersInv s) (hstage : s.stage? worker = some stage)
    {due : DueChunk} (hdue : due ∈ stage.items) : ∃ c ∈ s.db.chunks,
      c.id = due.chunkId ∧ c.tenantId = due.tenantId ∧ c.syncJobId = due.jobId := by
  obtain ⟨w, hw, -, rfl⟩ := exists_worker hstage
  exact h.items w hw due (mem_append_right _ hdue)

end Workers

/-! ## The transactions of a worker -/

/-- An update of a job that keeps its key. -/
def writesJob (tenantId jobId : ℕ) (f : SyncJob β → SyncJob β) (j : SyncJob β) : SyncJob β :=
  if j.id = jobId ∧ j.tenantId = tenantId then f j else j

/-- An update of the chunks that a `WHERE` selects. -/
def writesChunk (p : Chunk β → Bool) (g : Chunk β → Chunk β) (c : Chunk β) : Chunk β :=
  if p c then g c else c

theorem keepsKeys_writes {tenantId jobId : ℕ} {p : Chunk β → Bool} {f : SyncJob β → SyncJob β}
    {g : Chunk β → Chunk β} (hkeeps : KeepsKeys f g) :
    KeepsKeys (writesJob tenantId jobId f) (writesChunk p g) := by
  refine ⟨fun j => ?_, fun j => ?_, fun c => ?_, fun c => ?_, fun c => ?_⟩
  · rw [writesJob, apply_ite SyncJob.id, hkeeps.jobId, ite_self]
  · rw [writesJob, apply_ite SyncJob.tenantId, hkeeps.jobTenantId, ite_self]
  · rw [writesChunk, apply_ite Chunk.id, hkeeps.chunkId, ite_self]
  · rw [writesChunk, apply_ite Chunk.tenantId, hkeeps.chunkTenantId, ite_self]
  · rw [writesChunk, apply_ite Chunk.syncJobId, hkeeps.syncJobId, ite_self]

section Steps

variable {registered : String → Bool} {s t : WorkersState β} {tenantId jobId : ℕ}
  {f : SyncJob β → SyncJob β}

theorem writesJob_cancelled_iff (hno : ¬ s.IsCancelled tenantId jobId)
    (hf : ∀ j, j.status ≠ .cancelled → (f j).status ≠ .cancelled) (j : SyncJob β)
    (hj : j ∈ s.db.jobs) :
    (writesJob tenantId jobId f j).status = .cancelled ↔ j.status = .cancelled := by
  by_cases hjob : j.id = jobId ∧ j.tenantId = tenantId
  · have hstatus : j.status ≠ .cancelled := fun hcancelled => hno ⟨j, hj, hjob, hcancelled⟩
    rw [writesJob, if_pos hjob]
    exact iff_of_false (hf j hstatus) hstatus
  · rw [writesJob, if_neg hjob]

theorem writesChunk_status {p : Chunk β → Bool} {g : Chunk β → Chunk β} {written : ChunkStatus}
    (hg : ∀ c, (g c).status = written) {status : ChunkStatus} (hne : status ≠ written)
    {c : Chunk β} (h : (writesChunk p g c).status = status) : c.status = status := by
  rw [writesChunk] at h
  split at h
  · exact absurd (h.symm.trans (hg c)) hne
  · exact h

theorem writesJob_of_eq {j : SyncJob β} (hjob : j.id = jobId ∧ j.tenantId = tenantId) :
    writesJob tenantId jobId f j = f j := if_pos hjob

variable {worker : ℕ}

theorem failJobUnsupported_cases (h : WorkersInv s)
    (hstep : workersStep registered s (.failJobUnsupported worker) = some t) :
    (Orderly s (.failJobUnsupported worker) ∧ WorkersInv t) ∨
      (¬ Orderly s (.failJobUnsupported worker) ∧ ¬ ExactlyOnce t) := by
  simp only [workersStep] at hstep
  split at hstep
  · rename_i tenantId jobId provider hstage
    cases hstep
    have horderly : Orderly s (.failJobUnsupported worker) ↔ ¬ s.IsCancelled tenantId jobId := by
      simp [Orderly, hstage, Stage.unsupported?]
    let f : SyncJob β → SyncJob β := fun j => { j with
      status := .failed, errorDetails := some (.historicalImportNotSupported provider) }
    let g : Chunk β → Chunk β := fun c => { c with status := .cancelled }
    have hkeeps : KeepsKeys (writesJob tenantId jobId f)
        (writesChunk (hasStatus tenantId jobId .queued) g) :=
      keepsKeys_writes ⟨fun _ => rfl, fun _ => rfl, fun _ => rfl, fun _ => rfl, fun _ => rfl⟩
    have hdb : failJobUnsupported s.db tenantId jobId provider =
        s.db.rewrite (writesJob tenantId jobId f)
          (writesChunk (hasStatus tenantId jobId .queued) g) := rfl
    have hchunk : ∀ c : Chunk β, ∀ status, status ≠ .cancelled →
        (writesChunk (hasStatus tenantId jobId .queued) g c).status = status → c.status = status :=
      fun _ _ hne => writesChunk_status (fun _ => rfl) hne
    rw [horderly, hdb]
    by_cases hcancelled : s.IsCancelled tenantId jobId
    · refine .inr ⟨not_not_intro hcancelled, h.not_exactlyOnce hcancelled hkeeps ?_⟩
      intro j _ hjob _ hstatus
      rw [writesJob_of_eq hjob] at hstatus
      cases hstatus
    · refine .inl ⟨hcancelled, h.rewrite hkeeps (h.nodup_moveOn _)
        (items_moveOn hstage (nil_subset _)) ?_ ?_ ?_ (fun chunkId => ?_)
        fun c hc hcompleted => ?_⟩
      · exact writesJob_cancelled_iff hcancelled fun j _ hstatus => by cases hstatus
      · exact fun c _ hq => hchunk c .queued (by decide) hq
      · exact fun c _ hcompleted => .inl (hchunk c .completed (by decide) hcompleted)
      · rw [h.countP_moveOn_eq .next hstage rfl]
        exact h.exactlyOnce.alone chunkId
      · rw [h.countP_moveOn_eq .next hstage rfl]
        exact h.exactlyOnce.once c hc (hchunk c .completed (by decide) hcompleted)
  · cases hstep

theorem mark_cases (h : WorkersInv s) (hstep : workersStep registered s (.mark worker) = some t) :
    (Orderly s (.mark worker) ∧ WorkersInv t) ∨ (¬ Orderly s (.mark worker) ∧ ¬ ExactlyOnce t) := by
  simp only [workersStep] at hstep
  split at hstep
  · rename_i due job hstage
    have horderly : Orderly s (.mark worker) ↔
        ¬ s.IsCancelled due.tenantId due.jobId ∧ s.fetching due.chunkId = 0 := by
      simp [Orderly, hstage, Stage.found?]
    have hlanding : ∀ chunkId, (s.moveOn worker (.fetching due job)).countP
        (·.stage.isLanding chunkId) = s.workers.countP (·.stage.isLanding chunkId) :=
      fun chunkId => h.countP_moveOn_eq _ hstage rfl
    have hself : (s.moveOn worker (.fetching due job)).countP (·.stage.isFetching due.chunkId) =
        s.fetching due.chunkId + 1 :=
      h.countP_moveOn_succ _ hstage rfl (by simp [Stage.isFetching, Stage.fetching?])
    have hother : ∀ chunkId, chunkId ≠ due.chunkId → (s.moveOn worker (.fetching due job)).countP
        (·.stage.isFetching chunkId) = s.fetching chunkId := fun chunkId hne =>
      h.countP_moveOn_eq _ hstage (by simp [Stage.isFetching, Stage.fetching?, Ne.symm hne])
    rw [horderly]
    split at hstep
    · cases hstep
      let f : SyncJob β → SyncJob β := fun j => { j with status := .running }
      let g : Chunk β → Chunk β := fun c => { c with status := .running }
      have hkeeps : KeepsKeys (writesJob due.tenantId due.jobId f)
          (writesChunk (isChunk due.tenantId due.chunkId) g) :=
        keepsKeys_writes ⟨fun _ => rfl, fun _ => rfl, fun _ => rfl, fun _ => rfl, fun _ => rfl⟩
      have hdb : markRunning s.db due.tenantId due.jobId due.chunkId =
          s.db.rewrite (writesJob due.tenantId due.jobId f)
            (writesChunk (isChunk due.tenantId due.chunkId) g) := rfl
      have hchunk : ∀ c : Chunk β, ∀ status, status ≠ .running →
          (writesChunk (isChunk due.tenantId due.chunkId) g c).status = status →
            c.status = status :=
        fun _ _ hne => writesChunk_status (fun _ => rfl) hne
      rw [hdb]
      by_cases hcancelled : s.IsCancelled due.tenantId due.jobId
      · refine .inr ⟨fun hok => hok.1 hcancelled, h.not_exactlyOnce hcancelled hkeeps ?_⟩
        intro j _ hjob _ hstatus
        rw [writesJob_of_eq hjob] at hstatus
        cases hstatus
      · by_cases hfetching : s.fetching due.chunkId = 0
        · refine .inl ⟨⟨hcancelled, hfetching⟩, h.rewrite hkeeps (h.nodup_moveOn _)
            (items_moveOn hstage (Subset.refl _))
            (writesJob_cancelled_iff hcancelled fun j _ hstatus => by cases hstatus)
            (fun c _ hq => hchunk c .queued (by decide) hq)
            (fun c _ hcompleted => .inl (hchunk c .completed (by decide) hcompleted))
            (fun chunkId => ?_) fun c hc hcompleted => ?_⟩
          · by_cases hchunkId : chunkId = due.chunkId
            · rw [hchunkId, hself, hfetching]
            · rw [hother chunkId hchunkId]
              exact h.exactlyOnce.alone chunkId
          · rw [hlanding]
            exact h.exactlyOnce.once c hc (hchunk c .completed (by decide) hcompleted)
        · refine .inr ⟨fun hok => hfetching hok.2, fun hexactly => hfetching ?_⟩
          have halone : (s.moveOn worker (.fetching due job)).countP
              (·.stage.isFetching due.chunkId) ≤ 1 := hexactly.alone due.chunkId
          omega
    · rename_i hnone
      obtain ⟨c, hc, hid, htenant, -⟩ := h.exists_chunk hstage (mem_singleton.2 rfl)
      refine absurd (any_eq_true.2 ⟨c, hc, ?_⟩) hnone
      simp [isChunk, hid, htenant]
  · cases hstep

theorem landed_add (due : DueChunk) (fetch : Except String (ChunkOutcome β × List β))
    (hcompleted : (fetchOutcome fetch).completed = true) :
    (landedAtOnce due fetch).countP (·.chunkId = due.chunkId) +
      (if (afterFinish due fetch).isLanding due.chunkId then 1 else 0) = 1 := by
  cases hrecords : (fetchRecords fetch).isEmpty with
  | true => simp [landedAtOnce, afterFinish, hcompleted, hrecords, DueChunk.landing,
      Stage.isLanding, Stage.landing?]
  | false => simp [landedAtOnce, afterFinish, hrecords, Stage.isLanding, Stage.landing?]

theorem landed_of_ne (due : DueChunk) (fetch : Except String (ChunkOutcome β × List β))
    {chunkId : ℕ} (hne : chunkId ≠ due.chunkId) :
    (landedAtOnce due fetch).countP (·.chunkId = chunkId) = 0 ∧
      (afterFinish due fetch).isLanding chunkId = false := by
  constructor
  · rw [landedAtOnce]
    split
    · simp [DueChunk.landing, Ne.symm hne]
    · rfl
  · rw [afterFinish]
    split
    · rfl
    · simp [Stage.isLanding, Stage.landing?, Ne.symm hne]

theorem finish_status {job j : SyncJob β} {remaining : ℕ} {outcome : ChunkOutcome β}
    (hj : j.status ≠ .cancelled) : (job.finish remaining outcome j).status ≠ .cancelled := by
  unfold SyncJob.finish
  dsimp only
  split
  · exact fun h => by cases h
  · split
    · exact fun h => by cases h
    · exact hj

theorem finish_status_zero (job j : SyncJob β) (outcome : ChunkOutcome β) :
    (job.finish 0 outcome j).status ≠ .cancelled := by
  unfold SyncJob.finish
  dsimp only
  split <;> exact fun h => by cases h

theorem Chunk.finish_ne_queued (c : Chunk β) (outcome : ChunkOutcome β) :
    (c.finish outcome).status ≠ .queued := by
  unfold Chunk.finish
  dsimp only
  split <;> exact fun h => by cases h

theorem Chunk.finish_completed_iff (c : Chunk β) (outcome : ChunkOutcome β) :
    (c.finish outcome).status = .completed ↔ outcome.completed = true := by
  unfold Chunk.finish
  cases outcome.completed <;> simp

variable {due : DueChunk}

/-- An outcome is recorded in the worker's chunk, and all others are as they were. -/
theorem WorkersInv.writesChunk_cases (h : WorkersInv s) {c₀ c : Chunk β} (hc₀ : c₀ ∈ s.db.chunks)
    (hid₀ : c₀.id = due.chunkId) (htenant₀ : c₀.tenantId = due.tenantId) (g : Chunk β → Chunk β)
    (hc : c ∈ s.db.chunks) :
    c = c₀ ∧ writesChunk (isChunk due.tenantId due.chunkId) g c = g c₀ ∨
      c.id ≠ due.chunkId ∧ writesChunk (isChunk due.tenantId due.chunkId) g c = c := by
  by_cases hid : c.id = due.chunkId
  · obtain rfl := Tables.eq_of_key_eq h.chunkIds hc hc₀ (hid.trans hid₀.symm)
    refine .inl ⟨rfl, if_pos ?_⟩
    simp [isChunk, hid, htenant₀]
  · refine .inr ⟨hid, if_neg ?_⟩
    simp [isChunk, hid]

/-- A cancelled job has no queued chunk, whatever is written to its chunks but for queueing them. -/
theorem WorkersInv.countP_queued (h : WorkersInv s) {g : Chunk β → Chunk β}
    (hkeeps : KeepsKeys f g) (hqueued : ∀ c ∈ s.db.chunks, (g c).status = .queued →
      c.status = .queued) (hcancelled : s.IsCancelled tenantId jobId) :
    (s.db.chunks.map g).countP (hasStatus tenantId jobId .queued) = 0 := by
  obtain ⟨j, hj, hjob, hrow⟩ := hcancelled
  obtain ⟨x, hx, hid, htenant⟩ := h.cancelledBy j hj hrow
  rw [countP_eq_zero]
  intro c' hc' hstatus
  obtain ⟨c, hc, rfl⟩ := mem_map.1 hc'
  simp only [hasStatus, Bool.and_eq_true, decide_eq_true_eq] at hstatus
  refine h.noneQueued x hx c hc ⟨?_, ?_⟩ (hqueued c hc hstatus.2)
  · rw [hid, hjob.1, ← hkeeps.syncJobId c]
    exact hstatus.1.2
  · rw [htenant, hjob.2, ← hkeeps.chunkTenantId c]
    exact hstatus.1.1

theorem WorkersInv.fetches_finish (h : WorkersInv s) {job : SyncJob β}
    (hstage : s.stage? worker = some (.fetching due job))
    (fetch : Except String (ChunkOutcome β × List β)) (chunkId : ℕ) :
    (s.landings ++ landedAtOnce due fetch).countP (·.chunkId = chunkId) +
        (s.moveOn worker (afterFinish due fetch)).countP (·.stage.isLanding chunkId) =
      s.fetches chunkId + ((landedAtOnce due fetch).countP (·.chunkId = chunkId) +
        if (afterFinish due fetch).isLanding chunkId then 1 else 0) := by
  have hcount := h.countP_moveOn (afterFinish due fetch) hstage (Stage.isLanding chunkId)
  have hnot : (Stage.fetching due job).isLanding chunkId = false := rfl
  rw [hnot, if_neg Bool.false_ne_true, Nat.add_zero] at hcount
  rw [countP_append, hcount, WorkersState.fetches]
  omega

theorem WorkersInv.fetching_finish (h : WorkersInv s) {job : SyncJob β}
    (hstage : s.stage? worker = some (.fetching due job))
    (fetch : Except String (ChunkOutcome β × List β)) (chunkId : ℕ) :
    (s.moveOn worker (afterFinish due fetch)).countP (·.stage.isFetching chunkId) ≤ 1 := by
  have hcount := h.countP_moveOn (afterFinish due fetch) hstage (Stage.isFetching chunkId)
  have hnot : (afterFinish due fetch).isFetching chunkId = false := by
    rw [afterFinish]
    split <;> rfl
  rw [hnot, if_neg Bool.false_ne_true, Nat.add_zero] at hcount
  have halone := h.exactlyOnce.alone chunkId
  rw [WorkersState.fetching] at halone
  omega

theorem items_afterFinish (due : DueChunk) (fetch : Except String (ChunkOutcome β × List β)) :
    (afterFinish due fetch).items ⊆ [due] := by
  rw [afterFinish]
  split
  · exact nil_subset _
  · exact Subset.refl _

theorem finish_cases (h : WorkersInv s) {fetch : Except String (ChunkOutcome β × List β)}
    (hstep : workersStep registered s (.finish worker fetch) = some t) :
    (Orderly s (.finish worker fetch) ∧ WorkersInv t) ∨
      (¬ Orderly s (.finish worker fetch) ∧ ¬ ExactlyOnce t) := by
  simp only [workersStep] at hstep
  split at hstep
  · rename_i due job hstage
    cases hstep
    set outcome := fetchOutcome fetch with houtcome
    have horderly : Orderly s (.finish worker fetch) ↔ ¬ s.IsCancelled due.tenantId due.jobId ∧
        (outcome.completed → s.fetches due.chunkId = 0) := by
      simp [Orderly, hstage, Stage.fetching?, houtcome]
    let g : Chunk β → Chunk β := fun c => c.finish outcome
    let remaining := (s.db.chunks.map (writesChunk (isChunk due.tenantId due.chunkId) g)).countP
      (hasStatus due.tenantId due.jobId .queued)
    let f : SyncJob β → SyncJob β := job.finish remaining outcome
    have hkeeps : KeepsKeys (writesJob due.tenantId due.jobId f)
        (writesChunk (isChunk due.tenantId due.chunkId) g) :=
      keepsKeys_writes ⟨fun _ => SyncJob.finish_id remaining,
        fun _ => SyncJob.finish_tenantId remaining, fun _ => rfl, fun _ => rfl, fun _ => rfl⟩
    have hdb : finishChunk s.db job due.tenantId due.jobId due.chunkId outcome =
        s.db.rewrite (writesJob due.tenantId due.jobId f)
          (writesChunk (isChunk due.tenantId due.chunkId) g) := rfl
    obtain ⟨c₀, hc₀, hid₀, htenant₀, hjob₀⟩ := h.exists_chunk hstage (mem_singleton.2 rfl)
    have hchunk : ∀ c ∈ s.db.chunks, c = c₀ ∧
          writesChunk (isChunk due.tenantId due.chunkId) g c = c₀.finish outcome ∨
        c.id ≠ due.chunkId ∧ writesChunk (isChunk due.tenantId due.chunkId) g c = c :=
      fun c hc => h.writesChunk_cases hc₀ hid₀ htenant₀ g hc
    have hqueued : ∀ c ∈ s.db.chunks,
        (writesChunk (isChunk due.tenantId due.chunkId) g c).status = .queued →
          c.status = .queued := by
      intro c hc hq
      rcases hchunk c hc with ⟨-, heq⟩ | ⟨-, heq⟩
      · rw [heq] at hq
        exact absurd hq (c₀.finish_ne_queued outcome)
      · rwa [heq] at hq
    rw [horderly, hdb]
    by_cases hcancelled : s.IsCancelled due.tenantId due.jobId
    · -- the job has no chunk left, so it is over, and no longer cancelled
      refine .inr ⟨fun hok => hok.1 hcancelled, h.not_exactlyOnce hcancelled hkeeps ?_⟩
      intro j hj hjob hrow
      have hzero : remaining = 0 := h.countP_queued hkeeps hqueued hcancelled
      rw [writesJob_of_eq hjob]
      simp only [f, hzero]
      exact finish_status_zero job j outcome
    · by_cases hfresh : outcome.completed → s.fetches due.chunkId = 0
      · refine .inl ⟨⟨hcancelled, hfresh⟩, h.rewrite hkeeps (h.nodup_moveOn _)
          (items_moveOn hstage (items_afterFinish due fetch))
          (writesJob_cancelled_iff hcancelled fun j hj => finish_status hj) hqueued
          (fun c hc hcompleted => ?_) (h.fetching_finish hstage fetch) fun c hc hcompleted => ?_⟩
        · rcases hchunk c hc with ⟨rfl, -⟩ | ⟨-, heq⟩
          · rw [htenant₀, hjob₀]
            exact .inr hcancelled
          · rw [heq] at hcompleted
            exact .inl hcompleted
        · rw [h.fetches_finish hstage]
          rcases hchunk c hc with ⟨rfl, heq⟩ | ⟨hne, heq⟩
          · rw [heq] at hcompleted
            have hdone := (c.finish_completed_iff outcome).1 hcompleted
            rw [hid₀, hfresh hdone, landed_add due fetch hdone]
          · obtain ⟨hnone, hnot⟩ := landed_of_ne due fetch hne
            rw [heq] at hcompleted
            rw [hnone, hnot, if_neg Bool.false_ne_true]
            exact h.exactlyOnce.once c hc hcompleted
      · refine .inr ⟨fun hok => hfresh hok.2, fun hexactly => ?_⟩
        obtain ⟨hdone, hsome⟩ := Classical.not_imp.1 hfresh
        have hmem : c₀.finish outcome ∈ s.db.chunks.map
            (writesChunk (isChunk due.tenantId due.chunkId) g) := by
          rcases hchunk c₀ hc₀ with ⟨-, heq⟩ | ⟨hne, -⟩
          · exact heq ▸ mem_map_of_mem hc₀
          · exact absurd hid₀ hne
        have honce := hexactly.once _ hmem ((c₀.finish_completed_iff outcome).2 hdone)
        have hid : (c₀.finish outcome).id = due.chunkId := hid₀
        simp only [WorkersState.fetches, hid] at honce
        rw [h.fetches_finish hstage, landed_add due fetch hdone] at honce
        omega
  · cases hstep

theorem WorkersInv.land (h : WorkersInv s)
    (hstep : workersStep registered s (.land worker) = some t) : WorkersInv t := by
  simp only [workersStep] at hstep
  split at hstep
  · rename_i due records hstage
    cases hstep
    refine h.workers (h.nodup_moveOn _) (items_moveOn hstage (nil_subset _))
      (fun chunkId => ?_) fun c hc hcompleted => ?_
    · rw [h.countP_moveOn_eq .next hstage rfl]
      exact h.exactlyOnce.alone chunkId
    · have honce := h.exactlyOnce.once c hc hcompleted
      have hlanding : (due.landing records).chunkId = due.chunkId := rfl
      rw [WorkersState.fetches] at honce
      rw [countP_append, countP_singleton, hlanding]
      by_cases hchunk : due.chunkId = c.id
      · have hcount := h.countP_moveOn_pred .next hstage (p := Stage.isLanding c.id)
          (by simp [Stage.isLanding, Stage.landing?, hchunk]) rfl
        rw [if_pos (decide_eq_true hchunk)]
        omega
      · have hcount := h.countP_moveOn_eq .next hstage (p := Stage.isLanding c.id)
          (by simp [Stage.isLanding, Stage.landing?, hchunk])
        rw [if_neg (by simpa using hchunk)]
        omega
  · cases hstep

theorem WorkersInv.countP_filter (h : WorkersInv s) {stage : Stage β}
    (hstage : s.stage? worker = some stage) (p : Stage β → Bool) :
    (s.workers.filter (·.id ≠ worker)).countP (fun w => p w.stage) + (if p stage then 1 else 0) =
      s.workers.countP fun w => p w.stage := by
  obtain ⟨w, hw, rfl, rfl⟩ := exists_worker hstage
  obtain ⟨before, after, hsplit⟩ := append_of_mem hw
  have hids := h.workerIds
  rw [hsplit, map_append, map_cons, nodup_middle, nodup_cons, mem_append, not_or] at hids
  have hkeep : ∀ l : List (Worker β), w.id ∉ l.map Worker.id → l.filter (·.id ≠ w.id) = l := by
    intro l hl
    rw [filter_eq_self]
    intro w' hw'
    exact decide_eq_true fun heq => hl (heq ▸ mem_map_of_mem hw')
  rw [hsplit, filter_append, filter_cons, if_neg (by simp), hkeep _ hids.1.1,
    hkeep _ hids.1.2, countP_append, countP_append, countP_cons]
  omega

theorem crash_cases (h : WorkersInv s) (hstep : workersStep registered s (.crash worker) = some t) :
    (Orderly s (.crash worker) ∧ WorkersInv t) ∨
      (¬ Orderly s (.crash worker) ∧ ¬ ExactlyOnce t) := by
  simp only [workersStep] at hstep
  split at hstep
  · rename_i stage hstage
    cases hstep
    have horderly : Orderly s (.crash worker) ↔ ∀ due ∈ stage.landing?, ∀ c ∈ s.db.chunks,
        c.id = due.chunkId → c.status ≠ .completed := by
      simp [Orderly, hstage]
    have hlanding : ∀ chunkId, stage.isLanding chunkId = true ↔
        ∃ due ∈ stage.landing?, due.chunkId = chunkId := by
      intro chunkId
      rw [Stage.isLanding, Option.any_eq_true]
      exact exists_congr fun due => and_congr_right fun _ => decide_eq_true_iff
    rw [horderly]
    by_cases hok : ∀ due ∈ stage.landing?, ∀ c ∈ s.db.chunks,
        c.id = due.chunkId → c.status ≠ .completed
    · refine .inl ⟨hok, h.workers ?_ ?_ (fun chunkId => ?_) fun c hc hcompleted => ?_⟩
      · exact h.workerIds.sublist (filter_sublist.map _)
      · exact fun w hw due hdue => ⟨w, mem_of_mem_filter hw, hdue⟩
      · exact le_trans filter_sublist.countP_le (h.exactlyOnce.alone chunkId)
      · have hcount := h.countP_filter hstage (Stage.isLanding c.id)
        have hnot : ¬ stage.isLanding c.id = true := fun hlands => by
          obtain ⟨due, hdue, hid⟩ := (hlanding c.id).1 hlands
          exact hok due hdue c hc hid.symm hcompleted
        rw [if_neg hnot, Nat.add_zero] at hcount
        rw [hcount]
        exact h.exactlyOnce.once c hc hcompleted
    · refine .inr ⟨hok, fun hexactly => hok fun due hdue c hc hid hcompleted => ?_⟩
      have hcount := h.countP_filter hstage (Stage.isLanding c.id)
      rw [if_pos ((hlanding c.id).2 ⟨due, hdue, hid.symm⟩)] at hcount
      have hbefore := h.exactlyOnce.once c hc hcompleted
      have hafter := hexactly.once c hc hcompleted
      rw [WorkersState.fetches] at hbefore hafter
      dsimp only at hafter
      omega
  · cases hstep

theorem items_afterRead (registered : String → Bool) (db : Db β) (due : DueChunk) :
    (afterRead registered db due).items ⊆ [due] ∧
      ∀ chunkId, (afterRead registered db due).isFetching chunkId = false ∧
        (afterRead registered db due).isLanding chunkId = false := by
  unfold afterRead
  split
  · exact ⟨nil_subset _, fun _ => ⟨rfl, rfl⟩⟩
  · split
    · exact ⟨nil_subset _, fun _ => ⟨rfl, rfl⟩⟩
    · split
      · exact ⟨Subset.refl _, fun _ => ⟨rfl, rfl⟩⟩
      · exact ⟨nil_subset _, fun _ => ⟨rfl, rfl⟩⟩

theorem WorkersInv.read (h : WorkersInv s)
    (hstep : workersStep registered s (.read worker) = some t) : WorkersInv t := by
  simp only [workersStep] at hstep
  split at hstep
  · rename_i id due rest hworker
    cases hstep
    obtain ⟨hmem, rfl⟩ := Tables.mem_of_lookup hworker
    obtain ⟨hsub, hnot⟩ := items_afterRead registered s.db due
    set w₀ : Worker β := ⟨id, due :: rest, .next⟩ with hw₀
    have hid : ∀ w : Worker β, ({ w with due := rest, stage := afterRead registered s.db due } :
        Worker β).id = w.id := fun _ => rfl
    refine h.workers ?_ (fun w hw due' hdue' => ?_) (fun chunkId => ?_) fun c hc hcompleted => ?_
    · rw [Tables.map_key_modify hid]
      exact h.workerIds
    · obtain ⟨w', hw', rfl⟩ := mem_map.1 hw
      split at hdue'
      · refine ⟨w₀, hmem, mem_append_left _ ?_⟩
        rcases mem_append.1 hdue' with hdue' | hdue'
        · exact mem_cons_of_mem _ hdue'
        · obtain rfl := mem_singleton.1 (hsub hdue')
          exact mem_cons_self
      · exact ⟨w', hw', hdue'⟩
    · have hcount := Tables.countP_modify h.workerIds hmem (fun w => { w with
        due := rest, stage := afterRead registered s.db due }) fun w => w.stage.isFetching chunkId
      have halone := h.exactlyOnce.alone chunkId
      have hbefore : w₀.stage.isFetching chunkId = false := rfl
      simp only [hbefore, (hnot chunkId).1] at hcount
      rw [WorkersState.fetching] at halone
      omega
    · have hcount := Tables.countP_modify h.workerIds hmem (fun w => { w with
        due := rest, stage := afterRead registered s.db due }) fun w => w.stage.isLanding c.id
      have honce := h.exactlyOnce.once c hc hcompleted
      have hbefore : w₀.stage.isLanding c.id = false := rfl
      simp only [hbefore, (hnot c.id).2] at hcount
      rw [WorkersState.fetches] at honce
      omega
  · cases hstep

theorem WorkersInv.add_worker (h : WorkersInv s) {w : Worker β}
    (hid : w.id ∉ s.workers.map Worker.id)
    (hitems : ∀ due ∈ w.items, ∃ c ∈ s.db.chunks,
      c.id = due.chunkId ∧ c.tenantId = due.tenantId ∧ c.syncJobId = due.jobId)
    (hstage : ∀ chunkId, w.stage.isFetching chunkId = false ∧ w.stage.isLanding chunkId = false) :
    WorkersInv { s with workers := s.workers ++ [w] } := by
  have hfetching : ∀ chunkId, (s.workers ++ [w]).countP (·.stage.isFetching chunkId) =
      s.fetching chunkId := fun chunkId => by
    rw [countP_append, countP_singleton, (hstage chunkId).1,
      if_neg Bool.false_ne_true, Nat.add_zero, WorkersState.fetching]
  have hlanding : ∀ chunkId, (s.workers ++ [w]).countP (·.stage.isLanding chunkId) =
      s.workers.countP (·.stage.isLanding chunkId) := fun chunkId => by
    rw [countP_append, countP_singleton, (hstage chunkId).2,
      if_neg Bool.false_ne_true, Nat.add_zero]
  refine ⟨⟨h.exactlyOnce.cancelled, h.exactlyOnce.ended, fun chunkId => ?_,
    fun c hc hcompleted => ?_⟩, h.jobIds, h.chunkIds, ?_, fun w' hw' => ?_, h.cancelledBy,
    h.cancelledJob, h.noneQueued⟩
  · rw [WorkersState.fetching, hfetching]
    exact h.exactlyOnce.alone chunkId
  · rw [WorkersState.fetches, hlanding]
    exact h.exactlyOnce.once c hc hcompleted
  · exact Tables.nodup_append_singleton h.workerIds fun w' hw' heq =>
      hid (heq ▸ mem_map_of_mem hw')
  · rcases mem_append.1 hw' with hw' | hw'
    · exact h.items w' hw'
    · obtain rfl := mem_singleton.1 hw'
      exact hitems

theorem mem_findDueChunks {db : Db β} (h : due ∈ findDueChunks db) :
    ∃ c ∈ db.chunks, c.id = due.chunkId ∧ c.tenantId = due.tenantId ∧ c.syncJobId = due.jobId := by
  obtain ⟨j, -, hj⟩ := mem_filterMap.1 h
  split at hj
  · obtain ⟨c, hc, rfl⟩ := Option.map_eq_some_iff.1 hj
    exact ⟨c, mem_of_mem_filter (argmin_mem hc), rfl, rfl, rfl⟩
  · cases hj

theorem WorkersInv.tick (h : WorkersInv s)
    (hstep : workersStep registered s (.tick worker) = some t) : WorkersInv t := by
  simp only [workersStep] at hstep
  split at hstep
  · rename_i hid
    cases hstep
    refine h.add_worker hid (fun due hdue => ?_) fun _ => ⟨rfl, rfl⟩
    rcases mem_append.1 hdue with hdue | hdue
    · exact mem_findDueChunks hdue
    · cases hdue
  · cases hstep

/-- What a cancellation writes to a chunk. -/
def cancelsChunk (tenantId jobId : ℕ) : Chunk β → Chunk β :=
  writesChunk (hasStatus tenantId jobId .running) (fun c => { c with status := .cancelled }) ∘
    writesChunk (hasStatus tenantId jobId .queued) fun c => { c with status := .cancelled }

def cancelsJob (tenantId jobId : ℕ) : SyncJob β → SyncJob β :=
  writesJob tenantId jobId fun j => { j with status := .cancelled }

theorem cancel_eq_ok {db db' : Db β} (h : Backfill.cancel db tenantId jobId = .ok db') :
    db' = db.rewrite (cancelsJob tenantId jobId) (cancelsChunk tenantId jobId) ∧
      ∃ j ∈ db.jobs, j.id = jobId ∧ j.tenantId = tenantId := by
  simp only [Backfill.cancel, Db.findJob] at h
  split at h
  · cases h
  · rename_i job hjob
    have hfound := find?_some hjob
    refine ⟨?_, job, mem_of_find?_eq_some hjob, of_decide_eq_true hfound⟩
    have hrows := (Except.ok.inj h).symm
    rw [hrows]
    simp only [Db.updateJob, Db.updateChunks, Db.rewrite, map_map]
    rfl

theorem keepsKeys_cancels (tenantId jobId : ℕ) :
    KeepsKeys (β := β) (cancelsJob tenantId jobId) (cancelsChunk tenantId jobId) := by
  have hkeeps : ∀ p, KeepsKeys (β := β) (cancelsJob tenantId jobId)
      (writesChunk p fun c => { c with status := .cancelled }) := fun p =>
    keepsKeys_writes ⟨fun _ => rfl, fun _ => rfl, fun _ => rfl, fun _ => rfl, fun _ => rfl⟩
  exact ⟨(hkeeps fun _ => true).jobId, (hkeeps fun _ => true).jobTenantId,
    fun c => ((hkeeps _).chunkId _).trans ((hkeeps _).chunkId c),
    fun c => ((hkeeps _).chunkTenantId _).trans ((hkeeps _).chunkTenantId c),
    fun c => ((hkeeps _).syncJobId _).trans ((hkeeps _).syncJobId c)⟩

theorem cancelsChunk_status {c : Chunk β} {status : ChunkStatus} (hne : status ≠ .cancelled)
    (h : (cancelsChunk tenantId jobId c).status = status) : cancelsChunk tenantId jobId c = c ∧
      (c.syncJobId = jobId ∧ c.tenantId = tenantId → c.status ≠ .queued) := by
  unfold cancelsChunk Function.comp writesChunk at h ⊢
  by_cases hq : hasStatus tenantId jobId .queued c
  · have hno : ¬ hasStatus tenantId jobId .running ({ c with status := .cancelled } : Chunk β) := by
      simp [hasStatus]
    rw [if_pos hq, if_neg hno] at h
    exact absurd h.symm hne
  · rw [if_neg hq] at h ⊢
    by_cases hr : hasStatus tenantId jobId .running c
    · rw [if_pos hr] at h
      exact absurd h.symm hne
    · refine ⟨if_neg hr, fun hmatch hstatus => hq ?_⟩
      simp [hasStatus, hmatch.1, hmatch.2, hstatus]

theorem WorkersInv.cancel (h : WorkersInv s) {tenantId jobId : ℕ}
    (hstep : workersStep registered s (.cancel tenantId jobId) = some t) : WorkersInv t := by
  simp only [workersStep] at hstep
  split at hstep
  · cases hstep
  · rename_i db hcancel
    cases hstep
    obtain ⟨rfl, job, hjob, hjobKey⟩ := cancel_eq_ok hcancel
    have hkeeps : KeepsKeys (β := β) (cancelsJob tenantId jobId) (cancelsChunk tenantId jobId) :=
      keepsKeys_cancels tenantId jobId
    have hothers : ∀ j : SyncJob β, ¬ (j.id = jobId ∧ j.tenantId = tenantId) →
        cancelsJob tenantId jobId j = j := fun j hno => if_neg hno
    refine ⟨⟨?_, ?_, h.exactlyOnce.alone, ?_⟩, ?_, ?_, h.workerIds,
      h.items_rewrite hkeeps fun w hw due hdue => ⟨w, hw, hdue⟩, ?_, ?_, ?_⟩
    · rintro x hx j' hj' ⟨hid, htenant⟩
      obtain ⟨j, hj, rfl⟩ := mem_map.1 hj'
      rw [hkeeps.jobId] at hid
      rw [hkeeps.jobTenantId] at htenant
      by_cases hmatch : j.id = jobId ∧ j.tenantId = tenantId
      · rw [cancelsJob, writesJob_of_eq hmatch]
      · rw [hothers j hmatch]
        rcases Tables.mem_concat.1 hx with hx | rfl
        · exact h.exactlyOnce.cancelled x hx j hj ⟨hid, htenant⟩
        · exact absurd ⟨hid, htenant⟩ hmatch
    · rintro x hx c' hc' hmatch hcompleted
      obtain ⟨c, hc, rfl⟩ := mem_map.1 hc'
      obtain ⟨heq, -⟩ := cancelsChunk_status (by decide) hcompleted
      rw [heq] at hmatch hcompleted ⊢
      rcases Tables.mem_concat.1 hx with hx | rfl
      · exact h.exactlyOnce.ended x hx c hc hmatch hcompleted
      · refine mem_map_of_mem (mem_filter.2 ⟨hc, ?_⟩)
        simp [hasStatus, hmatch.1, hmatch.2, hcompleted]
    · intro c' hc' hcompleted
      obtain ⟨c, hc, rfl⟩ := mem_map.1 hc'
      obtain ⟨heq, -⟩ := cancelsChunk_status (by decide) hcompleted
      rw [heq] at hcompleted ⊢
      exact h.exactlyOnce.once c hc hcompleted
    · rw [Db.rewrite, hkeeps.map_jobs]
      exact h.jobIds
    · rw [Db.rewrite, hkeeps.map_chunks]
      exact h.chunkIds
    · intro j' hj' hcancelled
      obtain ⟨j, hj, rfl⟩ := mem_map.1 hj'
      rw [hkeeps.jobId, hkeeps.jobTenantId]
      by_cases hmatch : j.id = jobId ∧ j.tenantId = tenantId
      · exact ⟨_, mem_concat_self, hmatch.1.symm,
          hmatch.2.symm⟩
      · rw [hothers j hmatch] at hcancelled
        obtain ⟨x, hx, hkey⟩ := h.cancelledBy j hj hcancelled
        exact ⟨x, mem_append_left _ hx, hkey⟩
    · intro x hx
      rcases Tables.mem_concat.1 hx with hx | rfl
      · exact h.cancelledJob_rewrite hkeeps hx
      · exact ⟨_, mem_map_of_mem hjob, (hkeeps.jobId job).trans hjobKey.1,
          (hkeeps.jobTenantId job).trans hjobKey.2⟩
    · rintro x hx c' hc' hmatch hq
      obtain ⟨c, hc, rfl⟩ := mem_map.1 hc'
      obtain ⟨heq, hnot⟩ := cancelsChunk_status (by decide) hq
      rw [heq] at hmatch hq
      rcases Tables.mem_concat.1 hx with hx | rfl
      · exact h.noneQueued x hx c hc hmatch hq
      · exact hnot hmatch hq

variable {datasetKey : String} {chunkIds : List ℕ}

theorem start_eq_ok {db db' : Db β} {registered : String → Bool} {connectorId : ℕ}
    {rangeStart rangeEnd : ℤ}
    (h : Backfill.start registered db tenantId connectorId datasetKey rangeStart rangeEnd jobId
      chunkIds = .ok db') (hregistered : ∀ provider, registered provider = true) :
    db' = { db with
      jobs := db.jobs ++ [newJob jobId tenantId connectorId datasetKey]
      chunks := db.chunks ++ newChunks jobId tenantId chunkIds
        (buildChunkRanges rangeStart rangeEnd chunkSizeDays) } := by
  simp only [Backfill.start] at h
  split at h
  · cases h
  · split at h
    · cases h
    · rw [hregistered, if_pos rfl] at h
      exact (Except.ok.inj h).symm

theorem newChunks_queued {ranges : List (ℤ × ℤ)} {c : Chunk β}
    (h : c ∈ newChunks jobId tenantId chunkIds ranges) :
    c.status = .queued ∧ c.syncJobId = jobId := by
  obtain ⟨i, hi, rfl⟩ := mem_iff_getElem.1 h
  simp [newChunks, newChunk]

theorem WorkersInv.insert (h : WorkersInv s) {connectorId : ℕ} {ranges : List (ℤ × ℤ)}
    (hjob : jobId ∉ s.db.jobs.map (·.id)) (hids : chunkIds.Nodup)
    (hnew : ∀ id ∈ chunkIds, id ∉ s.db.chunks.map (·.id)) :
    WorkersInv { s with db := { s.db with
      jobs := s.db.jobs ++ [newJob jobId tenantId connectorId datasetKey]
      chunks := s.db.chunks ++ newChunks jobId tenantId chunkIds ranges } } := by
  have hfree : ∀ j ∈ s.db.jobs, j.id ≠ jobId := fun j hj heq =>
    hjob (heq ▸ mem_map_of_mem hj)
  have hother : ∀ x ∈ s.cancellations, x.jobId ≠ jobId := fun x hx heq => by
    obtain ⟨j, hj, hid, -⟩ := h.cancelledJob x hx
    exact hfree j hj (hid.trans heq)
  refine ⟨⟨?_, ?_, h.exactlyOnce.alone, ?_⟩, ?_, ?_, h.workerIds, ?_, ?_, ?_, ?_⟩
  · intro x hx j hj hmatch
    rcases Tables.mem_concat.1 hj with hj | rfl
    · exact h.exactlyOnce.cancelled x hx j hj hmatch
    · exact absurd hmatch.1.symm (hother x hx)
  · intro x hx c hc hmatch hcompleted
    rcases mem_append.1 hc with hc | hc
    · exact h.exactlyOnce.ended x hx c hc hmatch hcompleted
    · rw [(newChunks_queued hc).1] at hcompleted
      cases hcompleted
  · intro c hc hcompleted
    rcases mem_append.1 hc with hc | hc
    · exact h.exactlyOnce.once c hc hcompleted
    · rw [(newChunks_queued hc).1] at hcompleted
      cases hcompleted
  · exact Tables.nodup_append_singleton h.jobIds hfree
  · rw [map_append, map_id_newChunks, nodup_append]
    refine ⟨h.chunkIds, hids.sublist (take_sublist _ _), fun a ha b hb heq => ?_⟩
    exact hnew b (mem_of_mem_take hb) (heq ▸ ha)
  · intro w hw due hdue
    obtain ⟨c, hc, hkeys⟩ := h.items w hw due hdue
    exact ⟨c, mem_append_left _ hc, hkeys⟩
  · intro j hj hcancelled
    rcases Tables.mem_concat.1 hj with hj | rfl
    · exact h.cancelledBy j hj hcancelled
    · cases hcancelled
  · intro x hx
    obtain ⟨j, hj, hkeys⟩ := h.cancelledJob x hx
    exact ⟨j, mem_append_left _ hj, hkeys⟩
  · intro x hx c hc hmatch
    rcases mem_append.1 hc with hc | hc
    · exact h.noneQueued x hx c hc hmatch
    · exact absurd (hmatch.1.symm.trans (newChunks_queued hc).2) (hother x hx)

theorem items_afterStart (registered : String → Bool) (db : Db β) (tenantId connectorId jobId : ℕ) :
    (afterStart registered db tenantId connectorId jobId).items = [] ∧
      ∀ chunkId, (afterStart registered db tenantId connectorId jobId).isFetching chunkId = false ∧
        (afterStart registered db tenantId connectorId jobId).isLanding chunkId = false := by
  unfold afterStart
  split
  · exact ⟨rfl, fun _ => ⟨rfl, rfl⟩⟩
  · split <;> exact ⟨rfl, fun _ => ⟨rfl, rfl⟩⟩

theorem WorkersInv.start (h : WorkersInv s) {worker tenantId connectorId jobId : ℕ}
    {rangeStart rangeEnd : ℤ}
    (hstep : workersStep registered s (.start worker tenantId connectorId datasetKey rangeStart
      rangeEnd jobId chunkIds) = some t) : WorkersInv t := by
  simp only [workersStep] at hstep
  split at hstep
  · rename_i hok
    obtain ⟨hworker, hjob, hids, hnew, -⟩ := hok
    split at hstep
    · cases hstep
    · rename_i db hstart
      cases hstep
      obtain rfl := start_eq_ok hstart fun _ => rfl
      obtain ⟨hnone, hstage⟩ := items_afterStart registered s.db tenantId connectorId jobId
      refine (h.insert hjob hids hnew).add_worker hworker (fun due hdue => ?_) hstage
      rw [Worker.items, hnone] at hdue
      cases hdue
  · cases hstep

end Steps

/-! ## Runs -/

section Runs

variable (registered : String → Bool)

/-- A step keeps the backfill exactly once and cancelled, or does what it should not. -/
theorem workersStep_cases {s t : WorkersState β} {step : WorkersStep β} (h : WorkersInv s)
    (hstep : workersStep registered s step = some t) :
    (Orderly s step ∧ WorkersInv t) ∨ (¬ Orderly s step ∧ ¬ ExactlyOnce t) := by
  cases step with
  | start => exact .inl ⟨trivial, h.start hstep⟩
  | cancel => exact .inl ⟨trivial, h.cancel hstep⟩
  | tick => exact .inl ⟨trivial, h.tick hstep⟩
  | read => exact .inl ⟨trivial, h.read hstep⟩
  | failJobUnsupported => exact failJobUnsupported_cases h hstep
  | mark => exact mark_cases h hstep
  | finish => exact finish_cases h hstep
  | land => exact .inl ⟨trivial, h.land hstep⟩
  | crash => exact crash_cases h hstep

def WorkersState.init (connectors : List Connector) : WorkersState β :=
  ⟨Db.init connectors, [], [], []⟩

theorem workersInv_init (connectors : List Connector) :
    WorkersInv (WorkersState.init (β := β) connectors) where
  exactlyOnce :=
    { cancelled := fun _ hx => by cases hx
      ended := fun _ hx => by cases hx
      alone := fun _ => Nat.zero_le _
      once := fun _ hc => by cases hc }
  jobIds := nodup_nil
  chunkIds := nodup_nil
  workerIds := nodup_nil
  items := fun _ hw => by cases hw
  cancelledBy := fun _ hj => by cases hj
  cancelledJob := fun _ hx => by cases hx
  noneQueued := fun _ hx => by cases hx

end Runs

/-- A job of two chunks is cancelled after the first one, when a second tick has just read it. -/
def cancelledBetween : List (WorkersStep ℕ) :=
  [.start 0 7 1 "calls" 0 9 5 [50, 51], .tick 1, .read 1, .mark 1,
    .finish 1 (.ok (⟨true, 2, 2, 0, 0, none, none⟩, [10, 11])), .land 1, .tick 2, .read 2,
    .cancel 7 5, .crash 2]

/-- The job is cancelled while the adapter is at work on its only chunk. -/
def cancelledWhileFetching : List (WorkersStep ℕ) :=
  [.start 0 7 1 "calls" 0 6 5 [50], .tick 1, .read 1, .mark 1, .cancel 7 5,
    .finish 1 (.ok (⟨true, 1, 1, 0, 0, none, none⟩, [10]))]

end Workforce.Integration.Backfill
