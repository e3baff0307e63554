import Workforce.Foundations.Runs
import Workforce.Intraday.LiveState

/-!
# The members of the queues

The set of the employees of a queue, which the reallocation engine takes employees from, is kept
next to the queue that each employee is recorded to be in. The consumer of `agent.state_changed`
moves an employee from the queue that it has just read; a reallocation moves an employee from the
queue that was the donor when it was suggested, however long ago that is when it is approved.

* `membership_iff`: in a run the sets and the recorded queues agree all along exactly when every
  approval finds its employees in the donor queue, in the queue they are to go to, or in none.
-/

namespace Workforce.Intraday.LiveState

open List Function

/-- What is read of an `agent.state_changed` message. -/
structure AgentStateChangedPayload where
  tenantId : ℕ
  employeeId : ℕ
  currentActivity : String
  activityStartedAt : String
  siteId : Option ℕ
  queueId : Option ℕ

structure QueueMetricsUpdatedPayload (F : Type*) where
  tenantId : ℕ
  queueId : ℕ
  currentVolume : F
  agentsAvailable : F
  agentsOnCall : F
  forecastedVolume : Option F
  serviceLevelCurrent : Option F
  serviceLevelTarget : Option F

def QueueMetricsUpdatedPayload.record {F : Type*} (payload : QueueMetricsUpdatedPayload F)
    (now : ℕ) : QueueLiveStateRecord F where
  currentVolume := payload.currentVolume
  agentsAvailable := payload.agentsAvailable
  agentsOnCall := payload.agentsOnCall
  forecastedVolume := payload.forecastedVolume
  serviceLevelCurrent := payload.serviceLevelCurrent
  serviceLevelTarget := payload.serviceLevelTarget
  lastUpdatedAt := now

inductive ReallocationStatus
  | suggested
  | approved
  | rejected
  | autoExecuted
  | executed
  deriving DecidableEq

structure ReallocationAction where
  id : ℕ
  tenantId : ℕ
  fromQueueId : ℕ
  toQueueId : ℕ
  affectedEmployeeIds : List ℕ
  status : ReallocationStatus
  createdAt : ℕ
  executedAt : Option ℕ

/-- `EMPLOYEES_PER_SUGGESTION`. -/
def employeesPerSuggestion : ℕ := 1

/-- `REALLOCATION_QUEUE_TRACKING_TTL_SECONDS`. -/
def reallocationQueueTrackingTtlSeconds : ℕ := 600

inductive ReallocationError
  | reallocationNotFound (reallocationId : ℕ)
  | reallocationNotSuggested (reallocationId : ℕ) (status : ReallocationStatus)

structure ReallocationState (F : Type*) where
  redis : Redis F
  actions : List ReallocationAction

def ReallocationState.init {F : Type*} : ReallocationState F := ⟨.init, []⟩

/-! ## The two writers -/

section Writers

variable {F : Type*}

/-- `AgentStateChangedConsumerService.handlePayload`. -/
def Redis.handlePayload (r : Redis F) (payload : AgentStateChangedPayload) (now : ℕ) : Redis F :=
  let previousQueueId :=
    (r.readAgentLiveState payload.tenantId payload.employeeId).bind (·.queueId)
  let r := r.writeAgentLiveState payload.tenantId payload.employeeId now
    { currentActivity := some (some payload.currentActivity)
      activityStartedAt := some (some payload.activityStartedAt)
      siteId := some payload.siteId
      queueId := some payload.queueId }
  r.updateQueueMembership payload.tenantId payload.employeeId previousQueueId payload.queueId

def Redis.reallocate (r : Redis F) (tenantId fromQueueId toQueueId now employeeId : ℕ) : Redis F :=
  let r := r.writeAgentLiveState tenantId employeeId now { queueId := some (some toQueueId) }
  r.updateQueueMembership tenantId employeeId (some fromQueueId) (some toQueueId)

def Redis.applyReallocation (r : Redis F) (tenantId fromQueueId toQueueId : ℕ)
    (affectedEmployeeIds : List ℕ) (now : ℕ) : Redis F :=
  affectedEmployeeIds.foldl (fun r e => r.reallocate tenantId fromQueueId toQueueId now e) r

/-- `QueueMetricsUpdatedConsumerService.handlePayload`, up to the engines. -/
def Redis.recordMetrics (r : Redis F) (payload : QueueMetricsUpdatedPayload F) (now : ℕ) :
    Redis F :=
  let r := r.writeQueueLiveState payload.tenantId payload.queueId (payload.record now)
  r.trackQueueForReallocationScan payload.tenantId payload.queueId now
    reallocationQueueTrackingTtlSeconds

end Writers

/-! ## Suggestions and approvals -/

section Reallocation

-- `SURPLUS_THRESHOLD` is a parameter, as the metrics are numbers of any kind
variable {F : Type*} [LinearOrder F] [Sub F] [Zero F] (surplusThreshold : F)

/-- A candidate with a larger surplus than the best so far takes its place. -/
def considerDonor (r : Redis F) (tenantId excludeQueueId : ℕ) (best : Option ℕ × F)
    (candidateId : ℕ) : Option ℕ × F :=
  if candidateId = excludeQueueId then best
  else
    match r.readQueueLiveState tenantId candidateId with
    | none => best
    | some candidate =>
      match candidate.serviceLevelCurrent, candidate.serviceLevelTarget with
      | some current, some target =>
        if candidate.agentsAvailable ≤ 0 then best
        else
          let surplus := current - target
          if best.2 < surplus then (some candidateId, surplus) else best
      | _, _ => best

/-- The queue with the largest surplus above the threshold, among those that a scan returned. -/
def findDonorQueue (r : Redis F) (tenantId excludeQueueId : ℕ) (trackedQueueIds : List ℕ) :
    Option ℕ :=
  (trackedQueueIds.foldl (considerDonor r tenantId excludeQueueId) (none, surplusThreshold)).1

namespace ReallocationState

omit [LinearOrder F] [Sub F] [Zero F] in
/-- A suggestion is recorded, and executed at once where that is enabled. -/
def suggest (s : ReallocationState F) (tenantId fromQueueId toQueueId : ℕ)
    (affectedEmployeeIds : List ℕ) (autoExecute : Bool) (id now : ℕ) : ReallocationState F :=
  let action : ReallocationAction :=
    { id, tenantId, fromQueueId, toQueueId, affectedEmployeeIds
      status := .suggested
      createdAt := now
      executedAt := none }
  if autoExecute then
    { redis := s.redis.applyReallocation tenantId fromQueueId toQueueId affectedEmployeeIds now
      actions := s.actions ++ [{ action with status := .autoExecuted, executedAt := some now }] }
  else { s with actions := s.actions ++ [action] }

/-- `ReallocationRecommendationService.evaluateQueueMetrics`. The members of the donor queue come in
an order of the server. -/
def evaluateQueueMetrics (s : ReallocationState F) (tenantId queueId : ℕ)
    (record : QueueLiveStateRecord F) (trackedQueueIds members : List ℕ) (autoExecute : Bool)
    (id now : ℕ) : ReallocationState F :=
  match record.serviceLevelCurrent, record.serviceLevelTarget with
  | some current, some target =>
    if target ≤ current then s
    else
      match findDonorQueue surplusThreshold s.redis tenantId queueId trackedQueueIds with
      | none => s
      | some donor =>
        if members = [] then s
        else if s.actions.any fun a => a.tenantId = tenantId ∧ a.fromQueueId = donor ∧
            a.toQueueId = queueId ∧ (a.status = .suggested ∨ a.status = .approved) then s
        else
          s.suggest tenantId donor queueId (members.take employeesPerSuggestion) autoExecute id now
  | _, _ => s

omit [LinearOrder F] [Sub F] [Zero F] in
/-- The row that an approval locks. -/
def findAction (s : ReallocationState F) (tenantId reallocationId : ℕ) :
    Option ReallocationAction :=
  s.actions.find? fun a => a.tenantId = tenantId ∧ a.id = reallocationId

omit [LinearOrder F] [Sub F] [Zero F] in
/-- `ReallocationApprovalService.approve`. -/
def approve (s : ReallocationState F) (tenantId reallocationId now : ℕ) :
    Except ReallocationError (ReallocationState F) :=
  match s.findAction tenantId reallocationId with
  | none => .error (.reallocationNotFound reallocationId)
  | some action =>
    if action.status ≠ .suggested then
      .error (.reallocationNotSuggested reallocationId action.status)
    else
      .ok
        { redis := s.redis.applyReallocation tenantId action.fromQueueId action.toQueueId
            action.affectedEmployeeIds now
          actions := Tables.modify (·.id) action.id
            (fun a => { a with status := .executed, executedAt := some now }) s.actions }

end ReallocationState

/-! ## Runs -/

inductive ReallocationStep (F : Type*)
  | agentStateChanged (payload : AgentStateChangedPayload) (now : ℕ)
  /-- With what the scan and the set of members return, a new identifier, and whether suggestions
  are executed at once. -/
  | queueMetricsUpdated (payload : QueueMetricsUpdatedPayload F) (trackedQueueIds members : List ℕ)
      (autoExecute : Bool) (id now : ℕ)
  | approve (tenantId reallocationId now : ℕ)

/-- What Redis returns to the engine. -/
structure Answers (r : Redis F) (tenantId queueId now : ℕ) (trackedQueueIds members : List ℕ) :
    Prop where
  tracked : trackedQueueIds.Perm (r.listTrackedQueues tenantId now)
  nodup : members.Nodup
  members : ∀ donor ∈ findDonorQueue surplusThreshold r tenantId queueId trackedQueueIds,
    members.toFinset = r.queueAgents tenantId donor

instance (r : Redis F) (tenantId queueId now : ℕ) (trackedQueueIds members : List ℕ) :
    Decidable (Answers surplusThreshold r tenantId queueId now trackedQueueIds members) :=
  decidable_of_iff (_ ∧ _ ∧ _) ⟨fun h => ⟨h.1, h.2.1, h.2.2⟩, fun h => ⟨h.1, h.2, h.3⟩⟩

def reallocationStep (s : ReallocationState F) : ReallocationStep F → Option (ReallocationState F)
  | .agentStateChanged payload now => some { s with redis := s.redis.handlePayload payload now }
  | .queueMetricsUpdated payload trackedQueueIds members autoExecute id now =>
    let redis := s.redis.recordMetrics payload now
    if id ∉ s.actions.map (·.id) ∧
        Answers surplusThreshold redis payload.tenantId payload.queueId now trackedQueueIds
          members then
      some (({ s with redis } : ReallocationState F).evaluateQueueMetrics surplusThreshold
        payload.tenantId payload.queueId (payload.record now) trackedQueueIds members autoExecute
        id now)
    else none
  | .approve tenantId reallocationId now =>
    match s.approve tenantId reallocationId now with
    | .ok t => some t
    | .error _ => some s

omit [LinearOrder F] [Sub F] [Zero F] in
/-- The set of each queue has the employees that are recorded to be there, and no others. -/
def Redis.Indexed (r : Redis F) : Prop :=
  ∀ tenantId, InvertedIndex.Inverts (r.queueAgents tenantId) (r.queueOf tenantId)

omit [LinearOrder F] [Sub F] [Zero F] in
/-- An approval finds its employees where they were, where they are to go, or nowhere. -/
def StillThere (s : ReallocationState F) : ReallocationStep F → Prop
  | .approve tenantId reallocationId _ =>
    ∀ action ∈ s.findAction tenantId reallocationId, action.status = .suggested →
      ∀ e ∈ action.affectedEmployeeIds, s.redis.queueOf tenantId e = none ∨
        s.redis.queueOf tenantId e = some action.fromQueueId ∨
        s.redis.queueOf tenantId e = some action.toQueueId
  | _ => True

instance (s : ReallocationState F) : DecidablePred (StillThere s) := fun a => by
  cases a <;> unfold StillThere <;> infer_instance

end Reallocation

/-! ## What the writers do to the index -/

section Index

variable {F : Type*} {r : Redis F} (tenantId fromQueueId toQueueId now : ℕ)

/-- The consumer moves an employee out of the queue that it has just read. -/
theorem Redis.Indexed.handlePayload (h : r.Indexed) (payload : AgentStateChangedPayload)
    (now : ℕ) : (r.handlePayload payload now).Indexed := by
  intro tenantId
  unfold Redis.handlePayload
  rw [Redis.readAgentLiveState_queueId, Redis.queueOf_updateQueueMembership,
    Redis.queueAgents_updateQueueMembership, Redis.queueAgents_writeAgentLiveState]
  by_cases ht : tenantId = payload.tenantId
  · subst ht
    rw [update_self, Redis.queueOf_writeAgentLiveState_self]
    exact (h payload.tenantId).move payload.employeeId payload.queueId
  · rw [update_of_ne ht, Redis.queueOf_writeAgentLiveState_of_ne ht]
    exact h tenantId

theorem queueAgents_applyReallocation (employeeIds : List ℕ) :
    (r.applyReallocation tenantId fromQueueId toQueueId employeeIds now).queueAgents tenantId =
      InvertedIndex.moveAll (r.queueAgents tenantId) employeeIds (some fromQueueId)
        (some toQueueId) := by
  induction employeeIds generalizing r with
  | nil => rfl
  | cons e employeeIds ih =>
    have hstep : (r.reallocate tenantId fromQueueId toQueueId now e).queueAgents tenantId =
        InvertedIndex.move (r.queueAgents tenantId) e (some fromQueueId) (some toQueueId) := by
      simp [Redis.reallocate]
    unfold Redis.applyReallocation at ih ⊢
    rw [foldl_cons, ih, hstep]
    rfl

theorem queueOf_applyReallocation (employeeIds : List ℕ) :
    (r.applyReallocation tenantId fromQueueId toQueueId employeeIds now).queueOf tenantId =
      employeeIds.foldl (fun f e => update f e (some toQueueId))
        (r.queueOf tenantId) := by
  induction employeeIds generalizing r with
  | nil => rfl
  | cons e employeeIds ih =>
    have hstep : (r.reallocate tenantId fromQueueId toQueueId now e).queueOf tenantId =
        update (r.queueOf tenantId) e (some toQueueId) := by
      unfold Redis.reallocate
      rw [Redis.queueOf_updateQueueMembership, Redis.queueOf_writeAgentLiveState_self]
      rfl
    unfold Redis.applyReallocation at ih ⊢
    rw [foldl_cons, foldl_cons, ih, hstep]

theorem applyReallocation_of_ne {tenantId' : ℕ} (ht : tenantId' ≠ tenantId)
    (employeeIds : List ℕ) :
    (r.applyReallocation tenantId fromQueueId toQueueId employeeIds now).queueAgents tenantId' =
        r.queueAgents tenantId' ∧
      (r.applyReallocation tenantId fromQueueId toQueueId employeeIds now).queueOf tenantId' =
        r.queueOf tenantId' := by
  induction employeeIds generalizing r with
  | nil => exact ⟨rfl, rfl⟩
  | cons e employeeIds ih =>
    obtain ⟨hagents, hqueue⟩ := ih (r := r.reallocate tenantId fromQueueId toQueueId now e)
    refine ⟨hagents.trans ?_, hqueue.trans ?_⟩
    · simp [Redis.reallocate, ht]
    · unfold Redis.reallocate
      rw [Redis.queueOf_updateQueueMembership, Redis.queueOf_writeAgentLiveState_of_ne ht]

/-- **A reallocation keeps the index right** exactly when each of its employees is in one of its two
queues, or in none. -/
theorem indexed_applyReallocation_iff (h : r.Indexed) (hne : fromQueueId ≠ toQueueId)
    (employeeIds : List ℕ) :
    (r.applyReallocation tenantId fromQueueId toQueueId employeeIds now).Indexed ↔
      ∀ e ∈ employeeIds, r.queueOf tenantId e = none ∨
        r.queueOf tenantId e = some fromQueueId ∨ r.queueOf tenantId e = some toQueueId := by
  have hne' : some fromQueueId ≠ some toQueueId := fun heq => hne (Option.some.inj heq)
  rw [← InvertedIndex.inverts_moveAll_iff (h tenantId) hne']
  rw [← queueAgents_applyReallocation tenantId fromQueueId toQueueId now,
    ← queueOf_applyReallocation tenantId fromQueueId toQueueId now]
  refine ⟨fun hall => hall tenantId, fun hown tenantId' => ?_⟩
  by_cases ht : tenantId' = tenantId
  · subst ht
    exact hown
  · obtain ⟨hagents, hqueue⟩ :=
      applyReallocation_of_ne tenantId fromQueueId toQueueId now (r := r) ht employeeIds
    rw [hagents, hqueue]
    exact h tenantId'

end Index

/-! ## What each step does -/

section Steps

variable {F : Type*} {s t : ReallocationState F}

/-- The index is right, and every reallocation is from one queue to another. -/
structure ReallocationState.Inv (s : ReallocationState F) : Prop where
  indexed : s.redis.Indexed
  ne : ∀ a ∈ s.actions, a.fromQueueId ≠ a.toQueueId

theorem ReallocationState.mem_of_findAction {tenantId reallocationId : ℕ}
    {action : ReallocationAction} (h : s.findAction tenantId reallocationId = some action) :
    action ∈ s.actions :=
  mem_of_find?_eq_some h

theorem ReallocationState.approve_cases (tenantId reallocationId now : ℕ) :
    (∃ e, s.approve tenantId reallocationId now = .error e ∧
        ∀ action ∈ s.findAction tenantId reallocationId, action.status ≠ .suggested) ∨
      ∃ action, s.findAction tenantId reallocationId = some action ∧ action.status = .suggested ∧
        s.approve tenantId reallocationId now = .ok
          { redis := s.redis.applyReallocation tenantId action.fromQueueId action.toQueueId
              action.affectedEmployeeIds now
            actions := Tables.modify (·.id) action.id
              (fun a => { a with status := .executed, executedAt := some now }) s.actions } := by
  unfold ReallocationState.approve
  cases hfind : s.findAction tenantId reallocationId with
  | none => exact .inl ⟨_, rfl, Tables.forall_mem_none⟩
  | some action =>
    by_cases hstatus : action.status = .suggested
    · exact .inr ⟨action, rfl, hstatus, if_neg (not_not.2 hstatus)⟩
    · refine .inl ⟨_, if_pos hstatus, fun a ha => ?_⟩
      cases ha
      exact hstatus

/-- A suggestion keeps the index right, whether or not it is executed. -/
theorem ReallocationState.Inv.suggest (h : s.Inv) {tenantId fromQueueId toQueueId id now : ℕ}
    {employeeIds : List ℕ} {autoExecute : Bool} (hne : fromQueueId ≠ toQueueId)
    (hin : ∀ e ∈ employeeIds, s.redis.queueOf tenantId e = some fromQueueId) :
    (s.suggest tenantId fromQueueId toQueueId employeeIds autoExecute id now).Inv := by
  unfold ReallocationState.suggest
  cases autoExecute with
  | true =>
    refine ⟨(indexed_applyReallocation_iff _ _ _ _ h.indexed hne employeeIds).2
      fun e he => .inr (.inl (hin e he)), fun a ha => ?_⟩
    rcases Tables.mem_concat.1 ha with ha | rfl
    · exact h.ne a ha
    · exact hne
  | false =>
    refine ⟨h.indexed, fun a ha => ?_⟩
    rcases Tables.mem_concat.1 ha with ha | rfl
    · exact h.ne a ha
    · exact hne

variable {r : Redis F}

theorem Redis.Indexed.recordMetrics (h : r.Indexed) (payload : QueueMetricsUpdatedPayload F)
    (now : ℕ) : (r.recordMetrics payload now).Indexed :=
  h

theorem ReallocationState.inv_init : (init : ReallocationState F).Inv := by
  refine ⟨fun tenantId e q => ?_, fun a ha => ?_⟩
  · simp [init, Redis.init, Redis.queueOf, AgentLiveState.empty]
  · cases ha

variable [LinearOrder F] [Sub F] [Zero F] {surplusThreshold : F}

theorem considerDonor_ne {tenantId queueId candidateId : ℕ} {best : Option ℕ × F}
    (h : ∀ donor ∈ best.1, donor ≠ queueId) :
    ∀ donor ∈ (considerDonor r tenantId queueId best candidateId).1, donor ≠ queueId := by
  unfold considerDonor
  split
  · exact h
  · rename_i hne
    split
    · exact h
    · split
      · split
        · exact h
        · dsimp only
          split
          · intro donor hdonor
            cases hdonor
            exact hne
          · exact h
      · exact h

theorem findDonorQueue_ne {tenantId queueId donor : ℕ} {trackedQueueIds : List ℕ}
    (h : findDonorQueue surplusThreshold r tenantId queueId trackedQueueIds = some donor) :
    donor ≠ queueId := by
  have hfold : ∀ (ids : List ℕ) (best : Option ℕ × F), (∀ donor ∈ best.1, donor ≠ queueId) →
      ∀ donor ∈ (ids.foldl (considerDonor r tenantId queueId) best).1, donor ≠ queueId := by
    intro ids
    induction ids with
    | nil => exact fun _ hbest => hbest
    | cons id ids ih => exact fun best hbest => ih _ (considerDonor_ne hbest)
  exact hfold trackedQueueIds _ Tables.forall_mem_none donor h

theorem ReallocationState.evaluateQueueMetrics_cases (s : ReallocationState F)
    (tenantId queueId : ℕ) (record : QueueLiveStateRecord F) (trackedQueueIds members : List ℕ)
    (autoExecute : Bool) (id now : ℕ) :
    s.evaluateQueueMetrics surplusThreshold tenantId queueId record trackedQueueIds members
        autoExecute id now = s ∨
      ∃ donor,
        findDonorQueue surplusThreshold s.redis tenantId queueId trackedQueueIds = some donor ∧
        s.evaluateQueueMetrics surplusThreshold tenantId queueId record trackedQueueIds members
            autoExecute id now =
          s.suggest tenantId donor queueId (members.take employeesPerSuggestion) autoExecute id
            now := by
  unfold ReallocationState.evaluateQueueMetrics
  split
  · split
    · exact .inl rfl
    · split
      · exact .inl rfl
      · rename_i donor hdonor
        split
        · exact .inl rfl
        · split
          · exact .inl rfl
          · exact .inr ⟨donor, hdonor, rfl⟩
  · exact .inl rfl

/-- The employees of a suggestion are in the queue they are to leave. -/
theorem Answers.queueOf {tenantId queueId now donor : ℕ} {trackedQueueIds members : List ℕ}
    (h : Answers surplusThreshold r tenantId queueId now trackedQueueIds members)
    (hindexed : r.Indexed)
    (hdonor : findDonorQueue surplusThreshold r tenantId queueId trackedQueueIds = some donor) :
    ∀ e ∈ members.take employeesPerSuggestion, r.queueOf tenantId e = some donor := by
  intro e he
  have hmem := mem_toFinset.2 (mem_of_mem_take he)
  rw [h.members donor hdonor] at hmem
  exact (hindexed tenantId e donor).1 hmem

/-- A step keeps the index right, or it is an approval that comes too late, and then the index is
wrong. -/
theorem reallocationStep_cases {a : ReallocationStep F} (h : s.Inv)
    (hstep : reallocationStep surplusThreshold s a = some t) :
    StillThere s a ∧ t.Inv ∨ ¬ StillThere s a ∧ ¬ t.redis.Indexed := by
  cases a with
  | agentStateChanged payload now =>
    cases hstep
    exact .inl ⟨trivial, h.indexed.handlePayload payload now, h.ne⟩
  | queueMetricsUpdated payload trackedQueueIds members autoExecute id now =>
    refine .inl ⟨trivial, ?_⟩
    unfold reallocationStep at hstep
    dsimp only at hstep
    split at hstep
    · rename_i hguard
      cases hstep
      set u : ReallocationState F := { s with redis := s.redis.recordMetrics payload now } with hu
      have hInv : u.Inv := ⟨h.indexed.recordMetrics payload now, h.ne⟩
      rcases u.evaluateQueueMetrics_cases payload.tenantId payload.queueId (payload.record now)
        trackedQueueIds members autoExecute id now with heq | ⟨donor, hdonor, heq⟩
      · rw [heq]
        exact hInv
      · rw [heq]
        exact hInv.suggest (findDonorQueue_ne hdonor) (hguard.2.queueOf hInv.indexed hdonor)
    · cases hstep
  | approve tenantId reallocationId now =>
    simp only [reallocationStep] at hstep
    rcases s.approve_cases tenantId reallocationId now with
      ⟨e, herror, hno⟩ | ⟨action, hfind, hstatus, hok⟩
    · rw [herror] at hstep
      cases hstep
      exact .inl ⟨fun action ha hs => absurd hs (hno action ha), h⟩
    · rw [hok] at hstep
      cases hstep
      have hne := h.ne action (ReallocationState.mem_of_findAction hfind)
      have hiff := indexed_applyReallocation_iff tenantId _ _ now h.indexed hne
        action.affectedEmployeeIds
      by_cases hthere : StillThere s (.approve tenantId reallocationId now)
      · refine .inl ⟨hthere, hiff.2 (hthere action hfind hstatus), fun a ha => ?_⟩
        rcases Tables.mem_modify.1 ha with ⟨a₀, ha₀, -, rfl⟩ | ⟨ha, -⟩
        · exact h.ne a₀ ha₀
        · exact h.ne a ha
      · refine .inr ⟨hthere, fun hindexed => hthere fun a ha _ => ?_⟩
        obtain rfl := Option.some.inj (hfind.symm.trans ha)
        exact hiff.1 hindexed

/-- **When the sets of the queues agree with the recorded queues**: all along a run exactly when
every approval finds its employees in the donor queue, in the queue they are to go to, or in
none. -/
theorem membership_iff {steps : List (ReallocationStep F)}
    (ht : Runs.exec (reallocationStep surplusThreshold) .init steps = some t) :
    Runs.Always (reallocationStep surplusThreshold) (fun s => s.redis.Indexed) .init steps ↔
      Runs.Meets (reallocationStep surplusThreshold) StillThere .init steps := by
  refine Runs.always_iff_meets (I := ReallocationState.Inv) (fun s h => h.indexed) ?_ ?_
    ReallocationState.inv_init ht
  · intro s a t h hok hstep
    rcases reallocationStep_cases h hstep with ⟨-, ht⟩ | ⟨hno, -⟩
    · exact ht
    · exact absurd hok hno
  · intro s a t h hno hstep
    rcases reallocationStep_cases h hstep with ⟨hok, -⟩ | ⟨-, ht⟩
    · exact absurd hok hno
    · exact ht

def agentIn (queueId : ℕ) : AgentStateChangedPayload :=
  ⟨1, 7, "available", "2026-08-07T09:00:00Z", none, some queueId⟩

def levels (queueId : ℕ) (current target : ℤ) : QueueMetricsUpdatedPayload ℤ :=
  ⟨1, queueId, 12, 5, 3, none, some current, some target⟩

/-- An employee of a queue with a surplus is suggested for another queue. -/
def suggestion : List (ReallocationStep ℤ) :=
  [.agentStateChanged (agentIn 10) 1000,
    .queueMetricsUpdated (levels 10 95 80) [10] [] false 1 2000,
    .queueMetricsUpdated (levels 20 50 80) [20, 10] [7] false 1 3000]

/-- A suggestion approved at once. -/
theorem membership_approved :
    ∃ t, Runs.exec (reallocationStep 10) .init (suggestion ++ [.approve 1 1 4000]) = some t ∧
      Runs.Always (reallocationStep 10) (fun s => s.redis.Indexed) .init
        (suggestion ++ [.approve 1 1 4000]) := by
  have hrun : ∃ t,
      Runs.exec (reallocationStep 10) .init (suggestion ++ [.approve 1 1 4000]) = some t ∧
        t.redis.queueOf 1 7 = some 20 := Runs.exists_exec (by decide)
  obtain ⟨t, ht, -⟩ := hrun
  exact ⟨t, ht, (membership_iff ht).2 (by decide)⟩

/-- The employee goes to a third queue before the approval, and is then in two sets. -/
theorem membership_stale :
    ∃ t, Runs.exec (reallocationStep 10) .init
        (suggestion ++ [.agentStateChanged (agentIn 30) 4000, .approve 1 1 5000]) = some t ∧
      ¬ t.redis.Indexed := by
  have hrun : ∃ t, Runs.exec (reallocationStep 10) .init
        (suggestion ++ [.agentStateChanged (agentIn 30) 4000, .approve 1 1 5000]) = some t ∧
      7 ∈ t.redis.queueAgents 1 30 ∧ t.redis.queueOf 1 7 = some 20 := Runs.exists_exec (by decide)
  obtain ⟨t, ht, hin, hqueue⟩ := hrun
  refine ⟨t, ht, fun h => ?_⟩
  have hqueue' := (h 1 7 30).1 hin
  rw [hqueue] at hqueue'
  cases hqueue'

end Steps

end Workforce.Intraday.LiveState
