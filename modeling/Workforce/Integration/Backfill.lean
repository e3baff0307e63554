import Workforce.Foundations.Runs
import Workforce.Foundations.Tables

/-!
# Historical backfills

`historical-backfill-runner.service.ts`: a job imports a range of days in chunks of a week. Each
chunk is fetched by the connector's adapter, which completes or fails and counts what it did; the
counts replace those of the chunk and are added to those of the job. Chunks can be retried, a job
resumed and cancelled.

The calls run one after another, in any order and any number. The adapters that are registered and
what an adapter answers are given from outside.

* `Truthful`: a completed job has only completed chunks, and its counters are the sums of its
  chunks' counters.
* `truthful_iff`: exactly when that holds in every state of a run.
-/

namespace Workforce.Integration.Backfill

open List

/-! ## Rows -/

inductive SyncJobStatus
  | queued
  | running
  | completed
  | failed
  | partialFailure
  | cancelled
  deriving DecidableEq

inductive ChunkStatus
  | queued
  | running
  | completed
  | failed
  | cancelled
  deriving DecidableEq

/-- The error details of a job or a chunk; `β` are the JSON objects of the adapters. -/
inductive ErrorDetails (β : Type*)
  | reported (details : β)
  | adapterThrew (message : String)
  | historicalImportNotSupported (provider : String)

structure Connector where
  id : ℕ
  tenantId : ℕ
  provider : String

structure SyncJob (β : Type*) where
  id : ℕ
  tenantId : ℕ
  connectorId : ℕ
  datasetKey : String
  status : SyncJobStatus
  recordsFound : Option ℤ
  recordsProcessed : ℤ
  recordsFailed : ℤ
  recordsDuplicate : Option ℤ
  errorDetails : Option (ErrorDetails β)

/-- A `historical_backfill_chunk`. Dates are day numbers. -/
structure Chunk (β : Type*) where
  id : ℕ
  tenantId : ℕ
  syncJobId : ℕ
  chunkIndex : ℕ
  rangeStart : ℤ
  rangeEnd : ℤ
  status : ChunkStatus
  checkpointCursor : Option β
  recordsFound : ℤ
  recordsProcessed : ℤ
  recordsFailed : ℤ
  recordsDuplicate : ℤ
  errorDetails : Option (ErrorDetails β)

/-- `HistoricalChunkOutcome`. -/
structure ChunkOutcome (β : Type*) where
  completed : Bool
  recordsFound : ℤ
  recordsProcessed : ℤ
  recordsFailed : ℤ
  recordsDuplicate : ℤ
  checkpointCursor : Option β
  errorDetails : Option (ErrorDetails β)

structure Db (β : Type*) where
  connectors : List Connector
  jobs : List (SyncJob β)
  chunks : List (Chunk β)

inductive BackfillError
  /-- `rangeEnd (…) must not be before rangeStart (…).` -/
  | invalidRange (rangeStart rangeEnd : ℤ)
  /-- `No IntegrationConnector found with id "…" for this tenant.` -/
  | connectorNotFound (connectorId : ℕ)
  | historicalImportNotFound (id : ℕ)
  /-- The error of `findOneByOrFail`. -/
  | entityNotFound (id : ℕ)

variable {β : Type*}

/-! ## Queries -/

namespace Db

variable (db : Db β)

/-- `UPDATE sync_job … WHERE id = jobId AND tenant_id = tenantId`. -/
def updateJob (tenantId jobId : ℕ) (f : SyncJob β → SyncJob β) : Db β :=
  { db with jobs := db.jobs.map fun j => if j.id = jobId ∧ j.tenantId = tenantId then f j else j }

/-- `UPDATE historical_backfill_chunk … WHERE p`. -/
def updateChunks (p : Chunk β → Bool) (f : Chunk β → Chunk β) : Db β :=
  { db with chunks := db.chunks.map fun c => if p c then f c else c }

/-- The chunks of a job that have a status. -/
def hasStatus (tenantId jobId : ℕ) (status : ChunkStatus) (c : Chunk β) : Bool :=
  c.tenantId = tenantId && c.syncJobId = jobId && c.status = status

/-- The chunk with an id. -/
def isChunk (tenantId chunkId : ℕ) (c : Chunk β) : Bool := c.id = chunkId && c.tenantId = tenantId

def findJob (tenantId jobId : ℕ) : Except BackfillError (SyncJob β) :=
  match db.jobs.find? fun j => j.id = jobId ∧ j.tenantId = tenantId with
  | none => .error (.historicalImportNotFound jobId)
  | some job => .ok job

def findConnector (tenantId connectorId : ℕ) : Option Connector :=
  db.connectors.find? fun c => c.tenantId = tenantId ∧ c.id = connectorId

end Db

open Db

/-! ## The calls -/

/-- `CHUNK_SIZE_DAYS`. -/
def chunkSizeDays : ℤ := 7

/-- The loop of `buildChunkRanges`, for so many rounds. -/
def chunkRangesFrom (size rangeEnd : ℤ) : ℕ → ℤ → List (ℤ × ℤ)
  | 0, _ => []
  | rounds + 1, cursor =>
    if cursor ≤ rangeEnd then
      let chunkEnd := min (cursor + size - 1) rangeEnd
      (cursor, chunkEnd) :: chunkRangesFrom size rangeEnd rounds (chunkEnd + 1)
    else []

/-- `buildChunkRanges`: every round takes at least a day. -/
def buildChunkRanges (rangeStart rangeEnd size : ℤ) : List (ℤ × ℤ) :=
  chunkRangesFrom size rangeEnd (rangeEnd + 1 - rangeStart).toNat rangeStart

def failJobUnsupported (db : Db β) (tenantId jobId : ℕ) (provider : String) : Db β :=
  (db.updateJob tenantId jobId fun j =>
    { j with status := .failed, errorDetails := some (.historicalImportNotSupported provider) })
  |>.updateChunks (hasStatus tenantId jobId .queued) fun c => { c with status := .cancelled }

/-- The job that `start` inserts. -/
def newJob (jobId tenantId connectorId : ℕ) (datasetKey : String) : SyncJob β :=
  { id := jobId
    tenantId := tenantId
    connectorId := connectorId
    datasetKey := datasetKey
    status := .queued
    recordsFound := some 0
    recordsProcessed := 0
    recordsFailed := 0
    recordsDuplicate := some 0
    errorDetails := none }

/-- The chunk that `start` inserts for a range. -/
def newChunk (jobId tenantId chunkId index : ℕ) (range : ℤ × ℤ) : Chunk β :=
  { id := chunkId
    tenantId := tenantId
    syncJobId := jobId
    chunkIndex := index
    rangeStart := range.1
    rangeEnd := range.2
    status := .queued
    checkpointCursor := none
    recordsFound := 0
    recordsProcessed := 0
    recordsFailed := 0
    recordsDuplicate := 0
    errorDetails := none }

/-- The chunks that `start` inserts, under the given ids. -/
def newChunks (jobId tenantId : ℕ) (chunkIds : List ℕ) (ranges : List (ℤ × ℤ)) : List (Chunk β) :=
  zipWith (fun chunkId (range, index) => newChunk jobId tenantId chunkId index range) chunkIds
    ranges.zipIdx

variable (registered : String → Bool)

def start (db : Db β) (tenantId connectorId : ℕ) (datasetKey : String) (rangeStart rangeEnd : ℤ)
    (jobId : ℕ) (chunkIds : List ℕ) : Except BackfillError (Db β) :=
  if rangeEnd < rangeStart then .error (.invalidRange rangeStart rangeEnd)
  else
    match db.findConnector tenantId connectorId with
    | none => .error (.connectorNotFound connectorId)
    | some connector =>
      let ranges := buildChunkRanges rangeStart rangeEnd chunkSizeDays
      let db := { db with
        jobs := db.jobs ++ [newJob jobId tenantId connectorId datasetKey]
        chunks := db.chunks ++ newChunks jobId tenantId chunkIds ranges }
      if registered connector.provider then .ok db
      else .ok (failJobUnsupported db tenantId jobId connector.provider)

def retryChunk (db : Db β) (tenantId chunkId : ℕ) : Except BackfillError (Db β) :=
  match db.chunks.find? (isChunk tenantId chunkId) with
  | none => .error (.historicalImportNotFound chunkId)
  | some chunk =>
    .ok ((db.updateChunks (isChunk tenantId chunkId) fun c =>
      { c with status := .queued, errorDetails := none }).updateJob tenantId chunk.syncJobId
        fun j => { j with status := .running })

def resume (db : Db β) (tenantId jobId : ℕ) : Except BackfillError (Db β) := do
  let _ ← db.findJob tenantId jobId
  return (db.updateChunks (hasStatus tenantId jobId .failed) fun c =>
    { c with status := .queued, errorDetails := none }).updateJob tenantId jobId fun j =>
      { j with status := .running }

def cancel (db : Db β) (tenantId jobId : ℕ) : Except BackfillError (Db β) := do
  let _ ← db.findJob tenantId jobId
  return ((db.updateChunks (hasStatus tenantId jobId .queued) fun c =>
    { c with status := .cancelled }).updateChunks (hasStatus tenantId jobId .running) fun c =>
      { c with status := .cancelled }).updateJob tenantId jobId fun j =>
        { j with status := .cancelled }

/-- The outcome when the adapter throws. -/
def ChunkOutcome.ofThrow (message : String) : ChunkOutcome β :=
  { completed := false
    recordsFound := 0
    recordsProcessed := 0
    recordsFailed := 0
    recordsDuplicate := 0
    checkpointCursor := none
    errorDetails := some (.adapterThrew message) }

/-- The outcome of `fetchChunk`, which may throw. -/
def outcomeOf : Except String (ChunkOutcome β) → ChunkOutcome β
  | .ok outcome => outcome
  | .error message => .ofThrow message

/-- What the last transaction of `processChunk` writes into the chunk. -/
def Chunk.finish (outcome : ChunkOutcome β) (c : Chunk β) : Chunk β :=
  { c with
    status := if outcome.completed then .completed else .failed
    recordsFound := outcome.recordsFound
    recordsProcessed := outcome.recordsProcessed
    recordsFailed := outcome.recordsFailed
    recordsDuplicate := outcome.recordsDuplicate
    checkpointCursor := outcome.checkpointCursor
    errorDetails := outcome.errorDetails }

/-- What it writes into the job, from the job as it was read at the start; `remaining` is the number
of queued chunks. -/
def SyncJob.finish (job : SyncJob β) (remaining : ℕ) (outcome : ChunkOutcome β) (j : SyncJob β) :
    SyncJob β :=
  let j := { j with
    recordsFound := some (job.recordsFound.getD 0 + outcome.recordsFound)
    recordsProcessed := job.recordsProcessed + outcome.recordsProcessed
    recordsFailed := job.recordsFailed + outcome.recordsFailed
    recordsDuplicate := some (job.recordsDuplicate.getD 0 + outcome.recordsDuplicate) }
  if !outcome.completed then { j with status := .failed, errorDetails := outcome.errorDetails }
  else if remaining = 0 then { j with status := .completed }
  else j

/-- The last transaction of `processChunk`. -/
def finishChunk (db : Db β) (job : SyncJob β) (tenantId jobId chunkId : ℕ)
    (outcome : ChunkOutcome β) : Db β :=
  let db := db.updateChunks (isChunk tenantId chunkId) (·.finish outcome)
  let remaining := db.chunks.countP (hasStatus tenantId jobId .queued)
  db.updateJob tenantId jobId (job.finish remaining outcome)

/-- The transaction before the adapter is called. -/
def markRunning (db : Db β) (tenantId jobId chunkId : ℕ) : Db β :=
  (db.updateJob tenantId jobId fun j => { j with status := .running }).updateChunks
    (isChunk tenantId chunkId) fun c => { c with status := .running }

def processChunk (db : Db β) (tenantId jobId chunkId : ℕ) (fetch : Except String (ChunkOutcome β)) :
    Except BackfillError (Db β) := do
  let job ← db.findJob tenantId jobId
  match db.findConnector tenantId job.connectorId with
  | none => return db
  | some connector =>
    if registered connector.provider then
      if db.chunks.any (isChunk tenantId chunkId) then
        return finishChunk (markRunning db tenantId jobId chunkId) job tenantId jobId chunkId
          (outcomeOf fetch)
      else throw (.entityNotFound chunkId)
    else return failJobUnsupported db tenantId jobId connector.provider

inductive Call (β : Type*)
  | start (tenantId connectorId : ℕ) (datasetKey : String) (rangeStart rangeEnd : ℤ) (jobId : ℕ)
      (chunkIds : List ℕ)
  | processChunk (tenantId jobId chunkId : ℕ) (fetch : Except String (ChunkOutcome β))
  | retryChunk (tenantId chunkId : ℕ)
  | resume (tenantId jobId : ℕ)
  | cancel (tenantId jobId : ℕ)

/-- The state after a call; one that throws changes nothing. -/
def settle (db : Db β) : Except BackfillError (Db β) → Db β
  | .ok db' => db'
  | .error _ => db

/-- One call. The ids of a start are new, and `tick` passes to `processChunk` a chunk with its
job. -/
def step (db : Db β) : Call β → Option (Db β)
  | .start tenantId connectorId datasetKey rangeStart rangeEnd jobId chunkIds =>
    if jobId ∉ db.jobs.map (·.id) ∧ chunkIds.Nodup ∧ (∀ id ∈ chunkIds, id ∉ db.chunks.map (·.id)) ∧
        (buildChunkRanges rangeStart rangeEnd chunkSizeDays).length ≤ chunkIds.length then
      some (settle db (start registered db tenantId connectorId datasetKey rangeStart rangeEnd jobId
        chunkIds))
    else none
  | .processChunk tenantId jobId chunkId fetch =>
    if ∀ c ∈ db.chunks, c.id = chunkId → c.syncJobId = jobId then
      some (settle db (processChunk registered db tenantId jobId chunkId fetch))
    else none
  | .retryChunk tenantId chunkId => some (settle db (retryChunk db tenantId chunkId))
  | .resume tenantId jobId => some (settle db (resume db tenantId jobId))
  | .cancel tenantId jobId => some (settle db (cancel db tenantId jobId))

/-! ## Truthful jobs -/

/-- The four counters of chunks, outcomes and jobs. -/
inductive Counter
  | found
  | processed
  | failed
  | duplicate

def Chunk.count (c : Chunk β) : Counter → ℤ
  | .found => c.recordsFound
  | .processed => c.recordsProcessed
  | .failed => c.recordsFailed
  | .duplicate => c.recordsDuplicate

def ChunkOutcome.count (o : ChunkOutcome β) : Counter → ℤ
  | .found => o.recordsFound
  | .processed => o.recordsProcessed
  | .failed => o.recordsFailed
  | .duplicate => o.recordsDuplicate

def SyncJob.count (j : SyncJob β) : Counter → Option ℤ
  | .found => j.recordsFound
  | .processed => some j.recordsProcessed
  | .failed => some j.recordsFailed
  | .duplicate => j.recordsDuplicate

/-- The sum of a counter over the chunks of a job. -/
def Db.total (db : Db β) (jobId : ℕ) (counter : Counter) : ℤ :=
  ((db.chunks.filter (·.syncJobId = jobId)).map (·.count counter)).sum

/-- A job reports its chunks truthfully. -/
structure Truthful (db : Db β) (j : SyncJob β) : Prop where
  completed : j.status = .completed → ∀ c ∈ db.chunks, c.syncJobId = j.id → c.status = .completed
  counts : ∀ counter, j.count counter = some (db.total j.id counter)

/-- Every job does. -/
def AllTruthful (db : Db β) : Prop := ∀ j ∈ db.jobs, Truthful db j

/-- Nothing has been counted for the chunk. -/
def Chunk.Uncounted (c : Chunk β) : Prop :=
  c.recordsFound = 0 ∧ c.recordsProcessed = 0 ∧ c.recordsFailed = 0 ∧ c.recordsDuplicate = 0
  deriving Decidable

/-- The call of `processChunk` gets to the adapter. -/
def reachesAdapter (db : Db β) (tenantId jobId chunkId : ℕ) : Bool :=
  match db.findJob tenantId jobId with
  | .error _ => false
  | .ok job =>
    match db.findConnector tenantId job.connectorId with
    | none => false
    | some connector =>
      registered connector.provider && db.chunks.any (isChunk tenantId chunkId)

/-- A chunk that is processed has not been counted before, and when it completes and no other chunk
of the job is queued, then all others are completed. -/
def ProcessesOnce (db : Db β) : Call β → Prop
  | .processChunk tenantId jobId chunkId fetch =>
    reachesAdapter registered db tenantId jobId chunkId →
      (∀ c ∈ db.chunks, isChunk tenantId chunkId c → c.Uncounted) ∧
      ((outcomeOf fetch).completed →
        (∀ c ∈ db.chunks, c.syncJobId = jobId → c.id ≠ chunkId → c.status ≠ .queued) →
        ∀ c ∈ db.chunks, c.syncJobId = jobId → c.id ≠ chunkId → c.status = .completed)
  | _ => True

instance (db : Db β) : DecidablePred (ProcessesOnce registered db) := fun call => by
  cases call <;> unfold ProcessesOnce <;> infer_instance

/-- The invariant: ids are unique, chunks have a job of their tenant, and all jobs are truthful. -/
structure Inv (db : Db β) : Prop where
  jobIds : (db.jobs.map (·.id)).Nodup
  chunkIds : (db.chunks.map (·.id)).Nodup
  owned : ∀ c ∈ db.chunks, ∃ j ∈ db.jobs, j.id = c.syncJobId ∧ j.tenantId = c.tenantId
  truthful : AllTruthful db

/-! ## Calls that relabel -/

/-- An update of a job that keeps its key and its counters. -/
structure SyncJob.Relabels (f : SyncJob β → SyncJob β) : Prop where
  id : ∀ j, (f j).id = j.id
  tenantId : ∀ j, (f j).tenantId = j.tenantId
  count : ∀ j, (f j).count = j.count

/-- An update of a chunk that keeps its key and its counters. -/
structure Chunk.Relabels (g : Chunk β → Chunk β) : Prop where
  id : ∀ c, (g c).id = c.id
  tenantId : ∀ c, (g c).tenantId = c.tenantId
  syncJobId : ∀ c, (g c).syncJobId = c.syncJobId
  count : ∀ c, (g c).count = c.count

theorem SyncJob.relabels_status (f : SyncJob β → SyncJob β)
    (hf : ∀ j, ∃ status errorDetails,
      f j = { j with status := status, errorDetails := errorDetails }) : Relabels f where
  id := fun j => by obtain ⟨status, details, h⟩ := hf j; rw [h]
  tenantId := fun j => by obtain ⟨status, details, h⟩ := hf j; rw [h]
  count := fun j => by
    obtain ⟨status, details, h⟩ := hf j
    funext counter
    rw [h]
    cases counter <;> rfl

theorem Chunk.relabels_status (p : Chunk β → Bool) (status : ChunkStatus)
    (details : Chunk β → Option (ErrorDetails β)) :
    Relabels fun c =>
      if p c then { c with status := status, errorDetails := details c } else c where
  id := fun c => by split <;> rfl
  tenantId := fun c => by split <;> rfl
  syncJobId := fun c => by split <;> rfl
  count := fun c => by
    funext counter
    split
    · cases counter <;> rfl
    · rfl

theorem Chunk.Relabels.comp {g g' : Chunk β → Chunk β} (hg : Relabels g) (hg' : Relabels g') :
    Relabels (g' ∘ g) where
  id := fun c => (hg'.id _).trans (hg.id c)
  tenantId := fun c => (hg'.tenantId _).trans (hg.tenantId c)
  syncJobId := fun c => (hg'.syncJobId _).trans (hg.syncJobId c)
  count := fun c => (hg'.count _).trans (hg.count c)

theorem total_relabel (db : Db β) {g : Chunk β → Chunk β} (hg : Chunk.Relabels g)
    (jobs : List (SyncJob β)) (jobId : ℕ) (counter : Counter) :
    Db.total { db with jobs := jobs, chunks := db.chunks.map g } jobId counter =
      db.total jobId counter := by
  simp only [Db.total, filter_map, map_map]
  have hfilter : ((fun c : Chunk β => decide (c.syncJobId = jobId)) ∘ g) =
      fun c => decide (c.syncJobId = jobId) := by
    funext c
    simp [hg.syncJobId]
  rw [hfilter]
  refine congrArg sum (map_congr_left fun c _ => ?_)
  exact congrFun (hg.count c) counter

variable {db db' : Db β}

variable {c : Chunk β}

theorem Inv.tenantId_eq (h : Inv db) (hc : c ∈ db.chunks) {j : SyncJob β} (hj : j ∈ db.jobs)
    (hid : c.syncJobId = j.id) : c.tenantId = j.tenantId := by
  obtain ⟨j', hj', hid', htenant⟩ := h.owned c hc
  rw [Tables.eq_of_key_eq h.jobIds hj hj' (hid.symm.trans hid'.symm), htenant]

/-- A job goes to a status other than completed, and only chunks of that job are relabelled. -/
theorem Inv.relabel (h : Inv db) (tenantId jobId : ℕ) {f : SyncJob β → SyncJob β}
    {g : Chunk β → Chunk β} (hf : SyncJob.Relabels f) (hstatus : ∀ j, (f j).status ≠ .completed)
    (hg : Chunk.Relabels g)
    (honly : ∀ c ∈ db.chunks, g c = c ∨ c.syncJobId = jobId ∧ c.tenantId = tenantId) :
    Inv { db with
      jobs := db.jobs.map fun j => if j.id = jobId ∧ j.tenantId = tenantId then f j else j
      chunks := db.chunks.map g } where
  jobIds := by
    have hids : (db.jobs.map fun j => if j.id = jobId ∧ j.tenantId = tenantId then f j else j).map
        (·.id) = db.jobs.map (·.id) := by
      rw [map_map]
      refine map_congr_left fun j _ => ?_
      simp only [Function.comp_apply]
      split
      · exact hf.id j
      · rfl
    exact hids ▸ h.jobIds
  chunkIds := by
    have hids : (db.chunks.map g).map (·.id) = db.chunks.map (·.id) := by
      rw [map_map]
      exact map_congr_left fun c _ => hg.id c
    exact hids ▸ h.chunkIds
  owned := fun c' hc' => by
    obtain ⟨c, hc, rfl⟩ := mem_map.1 hc'
    obtain ⟨j, hj, hid, htenant⟩ := h.owned c hc
    refine ⟨_, mem_map_of_mem hj, ?_⟩
    rw [hg.syncJobId, hg.tenantId]
    split
    · rw [hf.id, hf.tenantId]
      exact ⟨hid, htenant⟩
    · exact ⟨hid, htenant⟩
  truthful := fun j' hj' => by
    obtain ⟨j, hj, rfl⟩ := mem_map.1 hj'
    have hj := h.truthful j hj
    split
    · refine ⟨fun hdone => absurd hdone (hstatus j), fun counter => ?_⟩
      rw [hf.count, hf.id, total_relabel db hg]
      exact hj.counts counter
    · rename_i hother
      refine ⟨fun hdone c' hc' hjob => ?_, fun counter => ?_⟩
      · obtain ⟨c, hc, rfl⟩ := mem_map.1 hc'
        rw [hg.syncJobId] at hjob
        rcases honly c hc with hsame | ⟨hid, htenant⟩
        · rw [hsame]
          exact hj.completed hdone c hc hjob
        · have howner := h.tenantId_eq hc ‹_› hjob
          exact absurd ⟨hjob.symm.trans hid, howner.symm.trans htenant⟩ hother
      · rw [total_relabel db hg]
        exact hj.counts counter

theorem hasStatus_only {tenantId jobId : ℕ} {status : ChunkStatus} {c c' : Chunk β} :
    (if hasStatus tenantId jobId status c then c' else c) = c ∨
      c.syncJobId = jobId ∧ c.tenantId = tenantId := by
  by_cases hc : hasStatus tenantId jobId status c
  · simp only [hasStatus, Bool.and_eq_true, decide_eq_true_eq] at hc
    exact .inr ⟨hc.1.2, hc.1.1⟩
  · exact .inl (if_neg hc)

theorem Inv.failJobUnsupported (h : Inv db) (tenantId jobId : ℕ) (provider : String) :
    Inv (failJobUnsupported db tenantId jobId provider) :=
  h.relabel _ _ (SyncJob.relabels_status _ fun j => ⟨_, _, rfl⟩) (by simp)
    (Chunk.relabels_status _ _ (·.errorDetails)) fun _ _ => hasStatus_only

theorem Inv.eq_of_isChunk (h : Inv db) {tenantId chunkId : ℕ} {c c' : Chunk β} (hc : c ∈ db.chunks)
    (hc' : c' ∈ db.chunks) (hid : isChunk tenantId chunkId c) (hid' : isChunk tenantId chunkId c') :
    c = c' := by
  simp only [isChunk, Bool.and_eq_true, decide_eq_true_eq] at hid hid'
  exact Tables.eq_of_key_eq h.chunkIds hc hc' (hid.1.trans hid'.1.symm)

theorem Inv.retryChunk (h : Inv db) {tenantId chunkId : ℕ}
    (hcall : retryChunk db tenantId chunkId = .ok db') : Inv db' := by
  unfold Backfill.retryChunk at hcall
  split at hcall
  · cases hcall
  · rename_i chunk hfind
    cases hcall
    have hchunk := mem_of_find?_eq_some hfind
    have hid := find?_some hfind
    refine h.relabel _ _ (SyncJob.relabels_status _ fun j => ⟨_, _, rfl⟩) (by simp)
      (Chunk.relabels_status _ _ fun _ => none) fun c hc => ?_
    by_cases hcid : isChunk tenantId chunkId c
    · obtain rfl := h.eq_of_isChunk hc hchunk hcid hid
      simp only [isChunk, Bool.and_eq_true, decide_eq_true_eq] at hid
      exact .inr ⟨rfl, hid.2⟩
    · exact .inl (if_neg hcid)

theorem Inv.resume (h : Inv db) {tenantId jobId : ℕ} (hcall : resume db tenantId jobId = .ok db') :
    Inv db' := by
  obtain ⟨job, -, hcall⟩ := Runs.bind_eq_ok hcall
  cases hcall
  exact h.relabel _ _ (SyncJob.relabels_status _ fun j => ⟨_, _, rfl⟩) (by simp)
    (Chunk.relabels_status _ _ fun _ => none) fun _ _ => hasStatus_only

theorem Inv.cancel (h : Inv db) {tenantId jobId : ℕ} (hcall : cancel db tenantId jobId = .ok db') :
    Inv db' := by
  obtain ⟨job, -, hcall⟩ := Runs.bind_eq_ok hcall
  cases hcall
  have hgg := (Chunk.relabels_status (β := β) (hasStatus tenantId jobId .queued) .cancelled
    (·.errorDetails)).comp (Chunk.relabels_status (hasStatus tenantId jobId .running) .cancelled
    (·.errorDetails))
  have hinv := h.relabel tenantId jobId
    (f := fun j => { j with status := .cancelled })
    (SyncJob.relabels_status _ fun j => ⟨_, _, rfl⟩) (by simp) hgg fun c _ => ?_
  · rw [← map_map] at hinv
    exact hinv
  · have hqueued : (if hasStatus tenantId jobId .queued c then
          { c with status := .cancelled, errorDetails := c.errorDetails } else c) = c ∨
        c.syncJobId = jobId ∧ c.tenantId = tenantId := hasStatus_only
    rcases hqueued with heq | hown
    · simp only [Function.comp_apply, heq]
      exact hasStatus_only
    · exact .inr hown

variable {tenantId jobId chunkId : ℕ}

theorem Inv.markRunning (h : Inv db)
    (hchunk : ∀ c ∈ db.chunks, c.id = chunkId → c.syncJobId = jobId) :
    Inv (markRunning db tenantId jobId chunkId) := by
  refine h.relabel _ _ (SyncJob.relabels_status _ fun j => ⟨_, _, rfl⟩) (by simp)
    (Chunk.relabels_status _ _ (·.errorDetails)) fun c hc => ?_
  by_cases hid : isChunk tenantId chunkId c
  · have hboth := hid
    simp only [isChunk, Bool.and_eq_true, decide_eq_true_eq] at hboth
    exact .inr ⟨hchunk c hc hboth.1, hboth.2⟩
  · exact .inl (if_neg hid)

/-! ## Starting a job -/

variable {chunkIds : List ℕ}

theorem mem_newChunks {jobId tenantId : ℕ} {ranges : List (ℤ × ℤ)}
    (hc : c ∈ newChunks jobId tenantId chunkIds ranges) :
    c.id ∈ chunkIds ∧ c.syncJobId = jobId ∧ c.tenantId = tenantId ∧
      ∀ counter, c.count counter = 0 := by
  obtain ⟨i, hi, rfl⟩ := mem_iff_getElem.1 hc
  rw [newChunks, length_zipWith] at hi
  simp only [newChunks, getElem_zipWith]
  refine ⟨getElem_mem _, rfl, rfl, fun counter => ?_⟩
  cases counter <;> rfl

theorem map_id_newChunks (jobId tenantId : ℕ) (chunkIds : List ℕ) (ranges : List (ℤ × ℤ)) :
    (newChunks (β := β) jobId tenantId chunkIds ranges).map (·.id) =
      chunkIds.take ranges.length := by
  apply ext_getElem
  · simp [newChunks, min_comm]
  · intro i hi hi'
    simp [newChunks, newChunk]

theorem Inv.insert (h : Inv db) (tenantId connectorId : ℕ) {jobId : ℕ} (datasetKey : String)
    (ranges : List (ℤ × ℤ)) (hjob : jobId ∉ db.jobs.map (·.id)) (hids : chunkIds.Nodup)
    (hnew : ∀ id ∈ chunkIds, id ∉ db.chunks.map (·.id)) :
    Inv { db with
      jobs := db.jobs ++ [newJob jobId tenantId connectorId datasetKey]
      chunks := db.chunks ++ newChunks jobId tenantId chunkIds ranges } := by
  have hfree : ∀ j ∈ db.jobs, j.id ≠ jobId := fun j hj heq => hjob (heq ▸ mem_map_of_mem hj)
  have hother : ∀ c ∈ db.chunks, c.syncJobId ≠ jobId := fun c hc heq => by
    obtain ⟨j, hj, hid, -⟩ := h.owned c hc
    exact hfree j hj (hid.trans heq)
  have htotal : ∀ id counter, Db.total { db with
      jobs := db.jobs ++ [newJob jobId tenantId connectorId datasetKey]
      chunks := db.chunks ++ newChunks jobId tenantId chunkIds ranges } id counter =
        db.total id counter := by
    intro id counter
    have hzero : (((newChunks (β := β) jobId tenantId chunkIds ranges).filter
        (·.syncJobId = id)).map (·.count counter)).sum = 0 := by
      refine sum_eq_zero fun x hx => ?_
      obtain ⟨c, hc, rfl⟩ := mem_map.1 hx
      exact (mem_newChunks (mem_of_mem_filter hc)).2.2.2 counter
    rw [Db.total, filter_append, map_append, sum_append, hzero, add_zero, Db.total]
  refine ⟨Tables.nodup_append_singleton h.jobIds hfree, ?_, fun c hc => ?_, fun j hj => ?_⟩
  · rw [map_append, map_id_newChunks, nodup_append]
    refine ⟨h.chunkIds, hids.sublist (take_sublist _ _), fun a ha b hb heq => ?_⟩
    exact hnew b (mem_of_mem_take hb) (heq ▸ ha)
  · rcases mem_append.1 hc with hc | hc
    · obtain ⟨j, hj, howner⟩ := h.owned c hc
      exact ⟨j, mem_append_left _ hj, howner⟩
    · obtain ⟨-, hid, htenant, -⟩ := mem_newChunks hc
      exact ⟨_, mem_append_right _ mem_cons_self, hid.symm, htenant.symm⟩
  · rcases Tables.mem_concat.1 hj with hj | rfl
    · have htruth := h.truthful j hj
      refine ⟨fun hdone c hc hid => ?_, fun counter => by rw [htotal]; exact htruth.counts counter⟩
      rcases mem_append.1 hc with hc | hc
      · exact htruth.completed hdone c hc hid
      · exact absurd (hid.symm.trans (mem_newChunks hc).2.1) (hfree j hj)
    · refine ⟨fun hdone => by simp [newJob] at hdone, fun counter => ?_⟩
      have hnone : db.chunks.filter (·.syncJobId = jobId) = [] := by
        rw [filter_eq_nil_iff]
        intro c hc
        simpa using hother c hc
      rw [htotal, Db.total, show (newJob (β := β) jobId tenantId connectorId datasetKey).id = jobId
        from rfl, hnone]
      cases counter <;> rfl

theorem Inv.start (h : Inv db) {tenantId connectorId jobId : ℕ} {datasetKey : String}
    {rangeStart rangeEnd : ℤ} (hjob : jobId ∉ db.jobs.map (·.id)) (hids : chunkIds.Nodup)
    (hnew : ∀ id ∈ chunkIds, id ∉ db.chunks.map (·.id))
    (hcall : start registered db tenantId connectorId datasetKey rangeStart rangeEnd jobId
      chunkIds = .ok db') : Inv db' := by
  unfold Backfill.start at hcall
  split at hcall
  · cases hcall
  · split at hcall
    · cases hcall
    · have hinsert := h.insert tenantId connectorId datasetKey
        (buildChunkRanges rangeStart rangeEnd chunkSizeDays) hjob hids hnew
      dsimp only at hcall
      split at hcall
      · cases hcall
        exact hinsert
      · cases hcall
        exact hinsert.failJobUnsupported ..

/-! ## Finishing a chunk -/

theorem total_finishChunk (h : Inv db) (hc : c ∈ db.chunks) (job : SyncJob β)
    (outcome : ChunkOutcome β) (jobId : ℕ) (counter : Counter) :
    (finishChunk db job c.tenantId c.syncJobId c.id outcome).total jobId counter =
      if c.syncJobId = jobId then
        db.total jobId counter - c.count counter + outcome.count counter
      else db.total jobId counter := by
  have hmodify : (finishChunk db job c.tenantId c.syncJobId c.id outcome).chunks =
      Tables.modify (·.id) c.id (·.finish outcome) db.chunks := by
    refine map_congr_left fun c' hc' => ?_
    by_cases hid : c'.id = c.id
    · obtain rfl := Tables.eq_of_key_eq h.chunkIds hc' hc hid
      simp [isChunk]
    · simp [isChunk, hid]
  have hcount : ∀ c : Chunk β, (c.finish outcome).count counter = outcome.count counter := by
    intro c
    cases counter <;> rfl
  simp only [Db.total, hmodify, Tables.sum_filter_map]
  rw [Tables.sum_map_modify h.chunkIds hc]
  have hjob : (c.finish outcome).syncJobId = c.syncJobId := rfl
  simp only [hjob, hcount, decide_eq_true_eq]
  split <;> omega

section Finish

variable {job j : SyncJob β} {c : Chunk β} {outcome : ChunkOutcome β}

theorem SyncJob.finish_id (remaining : ℕ) : (job.finish remaining outcome j).id = j.id := by
  unfold SyncJob.finish
  dsimp only
  split
  · rfl
  · split <;> rfl

theorem SyncJob.finish_tenantId (remaining : ℕ) :
    (job.finish remaining outcome j).tenantId = j.tenantId := by
  unfold SyncJob.finish
  dsimp only
  split
  · rfl
  · split <;> rfl

theorem SyncJob.finish_count (remaining : ℕ) (counter : Counter) :
    (job.finish remaining outcome j).count counter =
      some ((job.count counter).getD 0 + outcome.count counter) := by
  unfold SyncJob.finish
  dsimp only
  split
  · cases counter <;> rfl
  · split <;> cases counter <;> rfl

/-- A job that was running is completed by a chunk that completes when none is queued. -/
theorem SyncJob.finish_completed_iff (hj : j.status ≠ .completed) (remaining : ℕ) :
    (job.finish remaining outcome j).status = .completed ↔
      outcome.completed = true ∧ remaining = 0 := by
  unfold SyncJob.finish
  cases outcome.completed with
  | false => simp
  | true =>
    by_cases hzero : remaining = 0
    · simp [hzero]
    · simp [hzero, hj]

/-- The chunks of the job that are queued when a chunk is finished. -/
def remainingAfter (db : Db β) (c : Chunk β) (outcome : ChunkOutcome β) : ℕ :=
  (db.updateChunks (isChunk c.tenantId c.id) (·.finish outcome)).chunks.countP
    (hasStatus c.tenantId c.syncJobId .queued)

theorem Inv.remainingAfter_eq_zero (h : Inv db) (hc : c ∈ db.chunks) :
    remainingAfter db c outcome = 0 ↔
      ∀ c' ∈ db.chunks, c'.syncJobId = c.syncJobId → c'.id ≠ c.id → c'.status ≠ .queued := by
  have hfinish : (c.finish outcome).status ≠ .queued := by
    unfold Chunk.finish
    cases outcome.completed <;> simp
  rw [remainingAfter, countP_eq_zero]
  simp only [Db.updateChunks, mem_map, forall_exists_index, and_imp,
    forall_apply_eq_imp_iff₂]
  refine forall₂_congr fun c' hc' => ?_
  by_cases hid : c'.id = c.id
  · obtain rfl := Tables.eq_of_key_eq h.chunkIds hc' hc hid
    simp [isChunk, hasStatus, hfinish]
  · have htenant : c'.syncJobId = c.syncJobId → c'.tenantId = c.tenantId := by
      intro hjob
      obtain ⟨j, hj, hjid, hjtenant⟩ := h.owned c hc
      rw [← hjtenant]
      exact h.tenantId_eq hc' hj (hjob.trans hjid.symm)
    have hne : ¬ (isChunk c.tenantId c.id c' = true) := by simp [isChunk, hid]
    rw [if_neg hne]
    simp only [hasStatus, Bool.and_eq_true, decide_eq_true_eq, hid, ne_eq, not_false_eq_true,
      true_imp_iff, not_and]
    exact ⟨fun hall hjob => hall ⟨htenant hjob, hjob⟩, fun hall hboth => hall hboth.2⟩

theorem mem_finishChunk (hj : j ∈ db.jobs) (hid : c.syncJobId = j.id)
    (htenant : c.tenantId = j.tenantId) :
    job.finish (remainingAfter db c outcome) outcome j ∈
      (finishChunk db job c.tenantId c.syncJobId c.id outcome).jobs := by
  refine mem_map.2 ⟨j, hj, ?_⟩
  rw [if_pos ⟨hid.symm, htenant.symm⟩]
  rfl

/-- The first chunk that is processed again makes the counters differ. -/
theorem Inv.not_truthful_of_counted (h : Inv db) (hj : j ∈ db.jobs) (hjob : job.count = j.count)
    (hc : c ∈ db.chunks) (hid : c.syncJobId = j.id) {counter : Counter}
    (hcounted : c.count counter ≠ 0) :
    ¬ AllTruthful (finishChunk db job c.tenantId c.syncJobId c.id outcome) := by
  intro hall
  have hcounts := (hall _ (mem_finishChunk hj hid (h.tenantId_eq hc hj hid))).counts counter
  rw [SyncJob.finish_count, SyncJob.finish_id, total_finishChunk h hc, if_pos hid, hjob,
    (h.truthful j hj).counts counter, Option.getD_some, Option.some.injEq] at hcounts
  omega

/-- A chunk that completes last although another one is not completed makes the job lie. -/
theorem Inv.not_truthful_of_incomplete (h : Inv db) (hj : j ∈ db.jobs)
    (hrunning : j.status ≠ .completed) (hc : c ∈ db.chunks) (hid : c.syncJobId = j.id)
    (hdone : outcome.completed = true)
    (hlast : ∀ c' ∈ db.chunks, c'.syncJobId = c.syncJobId → c'.id ≠ c.id → c'.status ≠ .queued)
    {c' : Chunk β} (hc' : c' ∈ db.chunks) (hid' : c'.syncJobId = c.syncJobId) (hne : c'.id ≠ c.id)
    (hstatus : c'.status ≠ .completed) :
    ¬ AllTruthful (finishChunk db job c.tenantId c.syncJobId c.id outcome) := by
  intro hall
  have hmem : job.finish (remainingAfter db c outcome) outcome j ∈
      (finishChunk db job c.tenantId c.syncJobId c.id outcome).jobs :=
    mem_finishChunk hj hid (h.tenantId_eq hc hj hid)
  have htruth := hall _ hmem
  have hcompleted : (job.finish (remainingAfter db c outcome) outcome j).status = .completed :=
    (SyncJob.finish_completed_iff hrunning _).2 ⟨hdone, (h.remainingAfter_eq_zero hc).2 hlast⟩
  refine hstatus (htruth.completed hcompleted c' ?_ (by rw [SyncJob.finish_id, hid', hid]))
  exact mem_map.2 ⟨c', hc', if_neg (by simp [isChunk, hne])⟩

/-- A chunk that has not been counted, and that completes the job only as its last one, keeps the
jobs truthful. -/
theorem Inv.finishChunk (h : Inv db) (hj : j ∈ db.jobs) (hjob : job.count = j.count)
    (hrunning : j.status ≠ .completed) (hc : c ∈ db.chunks) (hid : c.syncJobId = j.id)
    (huncounted : ∀ counter, c.count counter = 0)
    (hlast : outcome.completed = true →
      (∀ c' ∈ db.chunks, c'.syncJobId = c.syncJobId → c'.id ≠ c.id → c'.status ≠ .queued) →
      ∀ c' ∈ db.chunks, c'.syncJobId = c.syncJobId → c'.id ≠ c.id → c'.status = .completed) :
    Inv (finishChunk db job c.tenantId c.syncJobId c.id outcome) := by
  have htenant := h.tenantId_eq hc hj hid
  have hkeep : ∀ c' : Chunk β,
      let c'' := if isChunk c.tenantId c.id c' then c'.finish outcome else c'
      c''.id = c'.id ∧ c''.syncJobId = c'.syncJobId ∧ c''.tenantId = c'.tenantId := by
    intro c'
    dsimp only
    split <;> exact ⟨rfl, rfl, rfl⟩
  refine ⟨?_, ?_, fun c' hc' => ?_, fun j' hj' => ?_⟩
  · have hids : (Backfill.finishChunk db job c.tenantId c.syncJobId c.id outcome).jobs.map (·.id) =
        db.jobs.map (·.id) := by
      simp only [Backfill.finishChunk, Db.updateJob, Db.updateChunks, map_map]
      refine map_congr_left fun j _ => ?_
      simp only [Function.comp_apply]
      split
      · exact SyncJob.finish_id _
      · rfl
    exact hids ▸ h.jobIds
  · have hids :
        (Backfill.finishChunk db job c.tenantId c.syncJobId c.id outcome).chunks.map (·.id) =
          db.chunks.map (·.id) := by
      simp only [Backfill.finishChunk, Db.updateJob, Db.updateChunks, map_map]
      exact map_congr_left fun c' _ => (hkeep c').1
    exact hids ▸ h.chunkIds
  · obtain ⟨c₀, hc₀, rfl⟩ := mem_map.1 hc'
    obtain ⟨j₀, hj₀, hid₀, htenant₀⟩ := h.owned c₀ hc₀
    refine ⟨_, mem_map_of_mem hj₀, ?_⟩
    rw [(hkeep c₀).2.1, (hkeep c₀).2.2]
    split
    · rw [SyncJob.finish_id, SyncJob.finish_tenantId]
      exact ⟨hid₀, htenant₀⟩
    · exact ⟨hid₀, htenant₀⟩
  · obtain ⟨j₀, hj₀, rfl⟩ := mem_map.1 hj'
    have htruth := h.truthful j₀ hj₀
    split
    · rename_i hthis
      obtain rfl := Tables.eq_of_key_eq h.jobIds hj₀ hj (hthis.1.trans hid)
      refine ⟨fun hdone c' hc' hown => ?_, fun counter => ?_⟩
      · have hdone' := (SyncJob.finish_completed_iff hrunning _).1 hdone
        obtain ⟨c₀, hc₀, rfl⟩ := mem_map.1 hc'
        rw [SyncJob.finish_id, (hkeep c₀).2.1, ← hid] at hown
        by_cases hthis : c₀.id = c.id
        · obtain rfl := Tables.eq_of_key_eq h.chunkIds hc₀ hc hthis
          simp [isChunk, Chunk.finish, hdone'.1]
        · have hother := hlast hdone'.1 ((h.remainingAfter_eq_zero hc).1 hdone'.2) c₀ hc₀ hown hthis
          rw [if_neg (by simp [isChunk, hthis])]
          exact hother
      · rw [SyncJob.finish_count, SyncJob.finish_id, total_finishChunk h hc, if_pos hid, hjob,
          htruth.counts counter, huncounted, Option.getD_some, sub_zero]
    · rename_i hother
      have hid' : c.syncJobId ≠ j₀.id := by
        intro heq
        obtain rfl := Tables.eq_of_key_eq h.jobIds hj₀ hj (heq.symm.trans hid)
        exact hother ⟨hid.symm, htenant.symm⟩
      refine ⟨fun hdone c' hc' hown => ?_, fun counter => ?_⟩
      · obtain ⟨c₀, hc₀, rfl⟩ := mem_map.1 hc'
        rw [(hkeep c₀).2.1] at hown
        have hne : ¬ isChunk c.tenantId c.id c₀ = true := by
          intro hthis
          simp only [isChunk, Bool.and_eq_true, decide_eq_true_eq] at hthis
          obtain rfl := Tables.eq_of_key_eq h.chunkIds hc₀ hc hthis.1
          exact hid' hown
        rw [if_neg hne]
        exact htruth.completed hdone c₀ hc₀ hown
      · rw [total_finishChunk h hc, if_neg hid']
        exact htruth.counts counter

end Finish

/-! ## Runs -/

theorem processChunk_of_reaches (fetch : Except String (ChunkOutcome β))
    (h : reachesAdapter registered db tenantId jobId chunkId = true) :
    ∃ job ∈ db.jobs, ∃ c ∈ db.chunks, job.id = jobId ∧ job.tenantId = tenantId ∧
      c.id = chunkId ∧ c.tenantId = tenantId ∧
      processChunk registered db tenantId jobId chunkId fetch =
        .ok (finishChunk (markRunning db tenantId jobId chunkId) job tenantId jobId chunkId
          (outcomeOf fetch)) := by
  unfold reachesAdapter at h
  unfold processChunk
  cases hjob : db.findJob tenantId jobId with
  | error e => simp [hjob] at h
  | ok job =>
    cases hconnector : db.findConnector tenantId job.connectorId with
    | none => simp [hjob, hconnector] at h
    | some connector =>
      simp only [hjob, hconnector, Bool.and_eq_true] at h
      obtain ⟨hregistered, hchunk⟩ := h
      obtain ⟨c, hc, hid⟩ := any_eq_true.1 hchunk
      have hfind : job ∈ db.jobs ∧ job.id = jobId ∧ job.tenantId = tenantId := by
        unfold Db.findJob at hjob
        split at hjob
        · cases hjob
        · rename_i j hfind
          cases hjob
          exact ⟨mem_of_find?_eq_some hfind, by simpa using find?_some hfind⟩
      simp only [isChunk, Bool.and_eq_true, decide_eq_true_eq] at hid
      refine ⟨job, hfind.1, c, hc, hfind.2.1, hfind.2.2, hid.1, hid.2, ?_⟩
      simp only [hconnector, hregistered, hchunk, if_true, bind, Except.bind]
      rfl

/-- A call that does not reach the adapter leaves the state, or fails the job. -/
theorem Inv.processChunk_of_not_reaches (h : Inv db) {fetch : Except String (ChunkOutcome β)}
    (hreach : reachesAdapter registered db tenantId jobId chunkId = false) :
    Inv (settle db (processChunk registered db tenantId jobId chunkId fetch)) := by
  unfold reachesAdapter at hreach
  unfold processChunk
  cases hjob : db.findJob tenantId jobId with
  | error e => exact h
  | ok job =>
    simp only [bind, Except.bind]
    cases hconnector : db.findConnector tenantId job.connectorId with
    | none => exact h
    | some connector =>
      simp only [hjob, hconnector] at hreach
      cases hregistered : registered connector.provider with
      | false =>
        simp only [hregistered, Bool.false_eq_true, if_false]
        exact h.failJobUnsupported ..
      | true =>
        have hnone : db.chunks.any (isChunk tenantId chunkId) = false := by
          simpa [hregistered] using hreach
        simp only [hregistered, hnone, if_true, Bool.false_eq_true, if_false]
        exact h

theorem mem_markRunning (hc : c.id ≠ chunkId) :
    c ∈ (markRunning db tenantId jobId chunkId).chunks ↔ c ∈ db.chunks := by
  simp only [markRunning, Db.updateChunks, Db.updateJob, mem_map]
  constructor
  · rintro ⟨c', hc', rfl⟩
    split
    · rename_i hid
      rw [if_pos hid] at hc
      simp only [isChunk, Bool.and_eq_true, decide_eq_true_eq] at hid
      exact absurd hid.1 hc
    · exact hc'
  · intro hmem
    exact ⟨c, hmem, if_neg (by simp [isChunk, hc])⟩

theorem Chunk.uncounted_iff : c.Uncounted ↔ ∀ counter, c.count counter = 0 := by
  constructor
  · rintro ⟨hfound, hprocessed, hfailed, hduplicate⟩ counter
    cases counter
    · exact hfound
    · exact hprocessed
    · exact hfailed
    · exact hduplicate
  · exact fun h => ⟨h .found, h .processed, h .failed, h .duplicate⟩

section Process

variable {tenantId jobId chunkId : ℕ} {fetch : Except String (ChunkOutcome β)}

/-- What a call that reaches the adapter starts from: the rows of the job and of the chunk, marked
as running. -/
theorem Inv.exists_running (h : Inv db) (fetch : Except String (ChunkOutcome β))
    (howner : ∀ c ∈ db.chunks, c.id = chunkId → c.syncJobId = jobId)
    (hreach : reachesAdapter registered db tenantId jobId chunkId = true) :
    ∃ job j c c₀, c₀ ∈ db.chunks ∧ isChunk tenantId chunkId c₀ = true ∧ c₀.count = c.count ∧
      Inv (Backfill.markRunning db tenantId jobId chunkId) ∧
      j ∈ (Backfill.markRunning db tenantId jobId chunkId).jobs ∧
      c ∈ (Backfill.markRunning db tenantId jobId chunkId).chunks ∧ job.count = j.count ∧
      j.status ≠ .completed ∧ c.id = chunkId ∧ c.tenantId = tenantId ∧ c.syncJobId = jobId ∧
      j.id = jobId ∧ Backfill.processChunk registered db tenantId jobId chunkId fetch =
        .ok (Backfill.finishChunk (Backfill.markRunning db tenantId jobId chunkId) job tenantId
          jobId chunkId (outcomeOf fetch)) := by
  obtain ⟨job, hjob, c, hc, hjid, hjtenant, hcid, hctenant, hcall⟩ :=
    processChunk_of_reaches registered fetch hreach
  have hchunk : isChunk tenantId chunkId c = true := by simp [isChunk, hcid, hctenant]
  refine ⟨job, { job with status := .running }, { c with status := .running }, c, hc, hchunk, ?_,
    h.markRunning howner, ?_, ?_, ?_, by simp, hcid, hctenant, howner c hc hcid, hjid, hcall⟩
  · funext counter
    cases counter <;> rfl
  · exact mem_map.2 ⟨job, hjob, if_pos ⟨hjid, hjtenant⟩⟩
  · exact mem_map.2 ⟨c, hc, if_pos hchunk⟩
  · funext counter
    cases counter <;> rfl

theorem Inv.processChunk (h : Inv db)
    (howner : ∀ c ∈ db.chunks, c.id = chunkId → c.syncJobId = jobId)
    (hok : ProcessesOnce registered db (.processChunk tenantId jobId chunkId fetch)) :
    Inv (settle db (Backfill.processChunk registered db tenantId jobId chunkId fetch)) := by
  cases hreach : reachesAdapter registered db tenantId jobId chunkId with
  | false => exact h.processChunk_of_not_reaches registered hreach
  | true =>
    obtain ⟨job, j, c, c₀, hc₀, hchunk, hcount, hinv, hj, hc, hsnapshot, hrunning, rfl, rfl, rfl,
      hjid, hcall⟩ := h.exists_running registered fetch howner hreach
    obtain ⟨huncounted, hlast⟩ := hok hreach
    rw [hcall]
    refine hinv.finishChunk hj hsnapshot hrunning hc hjid.symm (fun counter => ?_)
      fun hdone hnone c' hc' hjob hne => ?_
    · rw [← hcount]
      exact Chunk.uncounted_iff.1 (huncounted c₀ hc₀ hchunk) counter
    · refine hlast hdone (fun c'' hc'' hjob' hne' => ?_) c' ((mem_markRunning hne).1 hc') hjob hne
      exact hnone c'' ((mem_markRunning hne').2 hc'') hjob' hne'

theorem Inv.not_truthful (h : Inv db)
    (howner : ∀ c ∈ db.chunks, c.id = chunkId → c.syncJobId = jobId)
    (hok : ¬ ProcessesOnce registered db (.processChunk tenantId jobId chunkId fetch)) :
    ¬ AllTruthful
      (settle db (Backfill.processChunk registered db tenantId jobId chunkId fetch)) := by
  simp only [ProcessesOnce, Classical.not_imp, not_and_or] at hok
  obtain ⟨hreach, hok⟩ := hok
  obtain ⟨job, j, c, c₀, hc₀, hchunk, hcount, hinv, hj, hc, hsnapshot, hrunning, rfl, rfl, rfl,
    hjid, hcall⟩ := h.exists_running registered fetch howner hreach
  rw [hcall]
  rcases hok with hcounted | hlast
  · obtain ⟨counter, hcounter⟩ : ∃ counter, c.count counter ≠ 0 := by
      by_contra hno
      refine hcounted fun c₁ hc₁ hid => Chunk.uncounted_iff.2 fun counter => ?_
      obtain rfl := h.eq_of_isChunk hc₁ hc₀ hid hchunk
      rw [hcount]
      exact not_not.1 fun hne => hno ⟨counter, hne⟩
    exact hinv.not_truthful_of_counted hj hsnapshot hc hjid.symm hcounter
  · obtain ⟨hdone, hnone, hincomplete⟩ : (outcomeOf fetch).completed = true ∧
        (∀ c' ∈ db.chunks, c'.syncJobId = c.syncJobId → c'.id ≠ c.id → c'.status ≠ .queued) ∧
        ∃ c' ∈ db.chunks, c'.syncJobId = c.syncJobId ∧ c'.id ≠ c.id ∧ c'.status ≠ .completed := by
      simpa only [Classical.not_imp, not_forall, exists_prop] using hlast
    obtain ⟨c', hc', hjob, hne, hstatus⟩ := hincomplete
    refine hinv.not_truthful_of_incomplete hj hrunning hc hjid.symm hdone
      (fun c'' hc'' hjob' hne' => ?_) ((mem_markRunning hne).2 hc') hjob hne hstatus
    exact hnone c'' ((mem_markRunning hne').1 hc'') hjob' hne'

end Process

theorem inv_step {call : Call β} (h : Inv db) (hok : ProcessesOnce registered db call)
    (hstep : step registered db call = some db') : Inv db' := by
  have hsettle : ∀ {x : Except BackfillError (Db β)}, (∀ db'', x = .ok db'' → Inv db'') →
      Inv (settle db x) := by
    rintro (e | db'') hx
    · exact h
    · exact hx db'' rfl
  cases call with
  | start tenantId connectorId datasetKey rangeStart rangeEnd jobId chunkIds =>
    simp only [step] at hstep
    split at hstep
    · rename_i hfresh
      cases hstep
      exact hsettle fun db'' hcall =>
        h.start registered hfresh.1 hfresh.2.1 hfresh.2.2.1 hcall
    · cases hstep
  | processChunk tenantId jobId chunkId fetch =>
    simp only [step] at hstep
    split at hstep
    · rename_i howner
      cases hstep
      exact h.processChunk registered howner hok
    · cases hstep
  | retryChunk tenantId chunkId =>
    cases hstep
    exact hsettle fun db'' hcall => h.retryChunk hcall
  | resume tenantId jobId =>
    cases hstep
    exact hsettle fun db'' hcall => h.resume hcall
  | cancel tenantId jobId =>
    cases hstep
    exact hsettle fun db'' hcall => h.cancel hcall

theorem not_truthful_step {call : Call β} (h : Inv db) (hok : ¬ ProcessesOnce registered db call)
    (hstep : step registered db call = some db') : ¬ AllTruthful db' := by
  cases call with
  | processChunk tenantId jobId chunkId fetch =>
    simp only [step] at hstep
    split at hstep
    · rename_i howner
      cases hstep
      exact h.not_truthful registered howner hok
    · cases hstep
  | start | retryChunk | resume | cancel => exact absurd trivial hok

/-- No job has been started. -/
def Db.init (connectors : List Connector) : Db β := ⟨connectors, [], []⟩

theorem inv_init (connectors : List Connector) : Inv (Db.init (β := β) connectors) where
  jobIds := nodup_nil
  chunkIds := nodup_nil
  owned := fun _ hc => by cases hc
  truthful := fun _ hj => by cases hj

/-- **When the jobs report their chunks truthfully**: in every state of a run of calls a completed
job has only completed chunks and every job counts what its chunks count, exactly when each chunk
that is processed has not been counted before, and a chunk that completes with no other one queued
is the last to complete. -/
theorem truthful_iff (connectors : List Connector) {calls : List (Call β)}
    (h : Runs.exec (step registered) (Db.init connectors) calls = some db) :
    Runs.Always (step registered) AllTruthful (Db.init connectors) calls ↔
      Runs.Meets (step registered) (ProcessesOnce registered) (Db.init connectors) calls :=
  Runs.always_iff_meets (fun _ => Inv.truthful) (fun _ _ _ => inv_step registered)
    (fun _ _ _ => not_truthful_step registered) (inv_init connectors) h

/-- An outcome that counts so many records. -/
def fetched (n : ℤ) : Except String (ChunkOutcome ℕ) :=
  .ok ⟨true, n, n, 0, 0, none, none⟩

/-- A job of two chunks, both of which complete. -/
def twoChunks : List (Call ℕ) :=
  [.start 7 1 "calls" 0 9 5 [50, 51], .processChunk 7 5 50 (fetched 10),
    .processChunk 7 5 51 (fetched 3)]

theorem twoChunks_truthful :
    Runs.Always (step fun _ => true) AllTruthful (Db.init [⟨1, 7, "five9"⟩]) twoChunks := by
  obtain ⟨db, hdb, -⟩ : ∃ db : Db ℕ, Runs.exec (step fun _ => true) (Db.init [⟨1, 7, "five9"⟩])
      twoChunks = some db ∧ ∃ j ∈ db.jobs, j.status = .completed := Runs.exists_exec (by decide)
  exact (truthful_iff _ _ hdb).2 (by decide)

/-- The second chunk fails, and the first one, which had completed, is retried. -/
def retriedChunk : List (Call ℕ) :=
  [.start 7 1 "calls" 0 9 5 [50, 51], .processChunk 7 5 50 (fetched 10),
    .processChunk 7 5 51 (.error "timeout"), .retryChunk 7 50, .processChunk 7 5 50 (fetched 10)]

/-- The job is completed although a chunk has failed, and counts the first chunk twice. -/
theorem retriedChunk_untruthful : ∃ db, Runs.exec (step fun _ => true)
      (Db.init [⟨1, 7, "five9"⟩]) retriedChunk = some db ∧
    (∃ j ∈ db.jobs, j.id = 5 ∧ j.status = .completed ∧ j.recordsFound = some 20) ∧
    (∃ c ∈ db.chunks, c.syncJobId = 5 ∧ c.status = .failed) ∧ db.total 5 .found = 10 ∧
    ¬ AllTruthful db := by
  obtain ⟨db, hdb, ⟨j, hj, hid, hdone, hfound⟩, ⟨c, hc, hjob, hfailed⟩, htotal⟩ : ∃ db,
      Runs.exec (step fun _ => true) (Db.init [⟨1, 7, "five9"⟩]) retriedChunk = some db ∧
      (∃ j ∈ db.jobs, j.id = 5 ∧ j.status = .completed ∧ j.recordsFound = some 20) ∧
      (∃ c ∈ db.chunks, c.syncJobId = 5 ∧ c.status = .failed) ∧ db.total 5 .found = 10 :=
    Runs.exists_exec (by decide)
  refine ⟨db, hdb, ⟨j, hj, hid, hdone, hfound⟩, ⟨c, hc, hjob, hfailed⟩, htotal, fun h => ?_⟩
  have hcompleted := (h j hj).completed hdone c hc (hjob.trans hid.symm)
  rw [hfailed] at hcompleted
  cases hcompleted

end Workforce.Integration.Backfill
