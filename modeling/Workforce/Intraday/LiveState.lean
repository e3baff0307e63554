import Workforce.Foundations.InvertedIndex
import Workforce.Foundations.Tables

/-!
# The live state in Redis

`redis.service.ts`: the hash of each employee, with fields that several writers set or clear
independently of each other; the metrics of each queue; the set of the employees of each queue; and
the markers of the employees and of the queues that are tracked, each for a time that every
relevant event extends. The metrics are numbers of any kind.
-/

namespace Workforce.Intraday.LiveState

open Tables Function

/-- The hash of an employee. A field that was cleared, or never set, is absent. -/
structure AgentLiveState where
  currentActivity : Option String
  activityStartedAt : Option String
  scheduledActivity : Option String
  adherenceStatus : Option String
  siteId : Option ℕ
  queueId : Option ℕ
  /-- In milliseconds. -/
  lastUpdatedAt : Option ℕ
  deriving DecidableEq

def AgentLiveState.empty : AgentLiveState := ⟨none, none, none, none, none, none, none⟩

/-- `Partial<AgentLiveStateFields>`: a field that is absent is left as it is, one that is null is
cleared. -/
structure AgentLiveStateFields where
  currentActivity : Option (Option String) := none
  activityStartedAt : Option (Option String) := none
  scheduledActivity : Option (Option String) := none
  siteId : Option (Option ℕ) := none
  queueId : Option (Option ℕ) := none

/-- `writeHash`, for one field: `HSET` of a value, `HDEL` of a null. -/
def writeField {α : Type*} (current : Option α) (field : Option (Option α)) : Option α :=
  field.getD current

def AgentLiveState.write (state : AgentLiveState) (fields : AgentLiveStateFields) (now : ℕ) :
    AgentLiveState :=
  { state with
    currentActivity := writeField state.currentActivity fields.currentActivity
    activityStartedAt := writeField state.activityStartedAt fields.activityStartedAt
    scheduledActivity := writeField state.scheduledActivity fields.scheduledActivity
    siteId := writeField state.siteId fields.siteId
    queueId := writeField state.queueId fields.queueId
    lastUpdatedAt := some now }

structure QueueLiveStateRecord (F : Type*) where
  currentVolume : F
  agentsAvailable : F
  agentsOnCall : F
  forecastedVolume : Option F
  serviceLevelCurrent : Option F
  serviceLevelTarget : Option F
  lastUpdatedAt : ℕ

/-- A key that is there until a time. -/
structure Marker where
  tenantId : ℕ
  id : ℕ
  expiresAt : ℕ

def Marker.key (m : Marker) : ℕ × ℕ := (m.tenantId, m.id)

structure Redis (F : Type*) where
  /-- By tenant and employee. -/
  agents : ℕ → ℕ → AgentLiveState
  /-- By tenant and queue. -/
  queues : ℕ → ℕ → Option (QueueLiveStateRecord F)
  /-- `queueAgentsKey`: by tenant, and by queue. -/
  queueAgents : ℕ → InvertedIndex.Index ℕ ℕ
  trackedEmployees : List Marker
  trackedQueues : List Marker

namespace Redis

variable {F : Type*}

def init : Redis F where
  agents := fun _ _ => .empty
  queues := fun _ _ => none
  queueAgents := fun _ _ => ∅
  trackedEmployees := []
  trackedQueues := []

variable (r : Redis F) (tenantId employeeId queueId now ttlSeconds : ℕ)

def writeAgentLiveState (fields : AgentLiveStateFields) : Redis F :=
  { r with
    agents := update r.agents tenantId (update (r.agents tenantId) employeeId
      ((r.agents tenantId employeeId).write fields now)) }

/-- There is no hash before the first write. -/
def readAgentLiveState : Option AgentLiveState :=
  if r.agents tenantId employeeId = .empty then none else some (r.agents tenantId employeeId)

/-- The one caller writes all the fields. -/
def writeQueueLiveState (record : QueueLiveStateRecord F) : Redis F :=
  { r with
    queues := update r.queues tenantId (update (r.queues tenantId) queueId (some record)) }

def readQueueLiveState : Option (QueueLiveStateRecord F) := r.queues tenantId queueId

/-- `SREM` from the set of the old queue, `SADD` to the set of the new one. -/
def updateQueueMembership (previousQueueId newQueueId : Option ℕ) : Redis F :=
  { r with
    queueAgents := update r.queueAgents tenantId
      (InvertedIndex.move (r.queueAgents tenantId) employeeId previousQueueId newQueueId) }

/-- `SET key 1 EX ttl`. -/
def trackEmployeeForScheduleSync : Redis F :=
  { r with
    trackedEmployees :=
      upsert Marker.key ⟨tenantId, employeeId, now + ttlSeconds * 1000⟩ r.trackedEmployees }

/-- The keys that a scan finds. -/
def listTrackedEmployees : List (ℕ × ℕ) :=
  (r.trackedEmployees.filter (now < ·.expiresAt)).map Marker.key

def trackQueueForReallocationScan : Redis F :=
  { r with
    trackedQueues :=
      upsert Marker.key ⟨tenantId, queueId, now + ttlSeconds * 1000⟩ r.trackedQueues }

def listTrackedQueues : List ℕ :=
  (r.trackedQueues.filter fun m => m.tenantId = tenantId ∧ now < m.expiresAt).map (·.id)

/-- The queue that an employee is recorded to be in. -/
def queueOf : Option ℕ := (r.agents tenantId employeeId).queueId

variable {r tenantId employeeId queueId now ttlSeconds} {fields : AgentLiveStateFields}

theorem readAgentLiveState_queueId :
    ((r.readAgentLiveState tenantId employeeId).bind (·.queueId)) =
      r.queueOf tenantId employeeId := by
  unfold readAgentLiveState queueOf
  split
  · rename_i h
    rw [h]
    rfl
  · rfl

@[simp] theorem queueAgents_writeAgentLiveState :
    (r.writeAgentLiveState tenantId employeeId now fields).queueAgents = r.queueAgents := rfl

@[simp] theorem queueOf_updateQueueMembership (old new : Option ℕ) :
    (r.updateQueueMembership tenantId employeeId old new).queueOf = r.queueOf := rfl

@[simp] theorem queueAgents_updateQueueMembership (old new : Option ℕ) :
    (r.updateQueueMembership tenantId employeeId old new).queueAgents =
      update r.queueAgents tenantId
        (InvertedIndex.move (r.queueAgents tenantId) employeeId old new) := rfl

theorem queueOf_writeAgentLiveState_self :
    (r.writeAgentLiveState tenantId employeeId now fields).queueOf tenantId =
      update (r.queueOf tenantId) employeeId
        (writeField (r.queueOf tenantId employeeId) fields.queueId) := by
  funext employeeId'
  by_cases he : employeeId' = employeeId
  · subst he
    simp [queueOf, writeAgentLiveState, AgentLiveState.write]
  · simp [queueOf, writeAgentLiveState, he]

theorem queueOf_writeAgentLiveState_of_ne {tenantId' : ℕ} (h : tenantId' ≠ tenantId) :
    (r.writeAgentLiveState tenantId employeeId now fields).queueOf tenantId' =
      r.queueOf tenantId' := by
  funext employeeId'
  simp [queueOf, writeAgentLiveState, h]

end Redis

end Workforce.Intraday.LiveState
