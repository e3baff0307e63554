import Mathlib.Algebra.BigOperators.Group.Finset.Piecewise
import Mathlib.Algebra.Order.Ring.Rat
import Mathlib.Data.List.Sort
import Mathlib.Data.String.Basic
import Workforce.Foundations.Tables

/-!
# The multi-skill simulation

`multiskill_simulation.py`: calls of several queues, served by groups of agents of which each has
some of the skills. The events are taken in the order of their times; a call that arrives is given
to a free agent or waits, an agent who becomes free takes the call that has waited longest. What
is drawn at random is given: when the calls arrive and how long they take.

* `whileEvents`: the loop, for so many events; it keeps the services that it starts.
* `Inv`: where the calls and the agents are between two events; `step` keeps it.
* `simulateOnce_conserves`: no call is lost, none waits in vain, and the loop ends.
-/

namespace Workforce.Forecasting

open List Function

/-! ## The simulation -/

structure QueueLoad where
  queueId : String
  volume : ℚ
  ahtSeconds : ℚ
  targetServiceLevel : ℚ
  targetAnswerSeconds : ℚ
  intervalSeconds : ℚ

/-- A set of skills is a list in the order of its iteration. -/
structure AgentGroup where
  groupId : String
  skills : List String
  nodup : skills.Nodup

inductive EventKind
  | arrival
  | agentFree
  deriving DecidableEq

structure SimulationEvent where
  time : ℚ
  sequence : ℕ
  kind : EventKind
  /-- The queue of a call, or the group of an agent. -/
  payload : String

/-- Results by queue. -/
structure SimulationResult where
  serviceLevelByQueue : String → ℚ
  offeredByQueue : String → ℕ
  answeredWithinTargetByQueue : String → ℕ

/-- The arguments, with what is drawn in place of `rng`: the arrivals of each queue, and the
service times one after the other. -/
structure SimulationInput where
  queues : List QueueLoad
  groups : List AgentGroup
  headcountByGroup : String → Option ℤ
  arrivals : String → List ℚ
  durations : ℕ → ℚ

/-- `_BURN_IN_AHT_MULTIPLIER`. -/
def burnInAhtMultiplier : ℚ := 40

def burnInSeconds (queues : List QueueLoad) : ℚ :=
  match ((queues.filter fun q => 0 < q.volume ∧ 0 < q.ahtSeconds).map (·.ahtSeconds)).max? with
  | none => 0
  | some aht => burnInAhtMultiplier * aht

/-- Specialists come before generalists. -/
def AgentGroup.before (g h : AgentGroup) : Prop :=
  g.skills.length < h.skills.length ∨ g.skills.length = h.skills.length ∧ g.groupId ≤ h.groupId
  deriving Decidable

def capableGroups (groups : List AgentGroup) (queueId : String) : List AgentGroup :=
  (groups.filter (queueId ∈ ·.skills)).insertionSort AgentGroup.before

/-- A call that was given to an agent. -/
structure Service where
  groupId : String
  queueId : String
  arrivalTime : ℚ
  startTime : ℚ

/-- What the loop changes, and the services that it has started. -/
structure Simulation where
  events : List SimulationEvent
  counter : ℕ
  /-- How many service times were drawn. -/
  samples : ℕ
  available : String → ℤ
  waitLists : String → List ℚ
  offered : String → ℕ
  answeredWithin : String → ℕ
  services : List Service

/-- The order of the tuples in the heap, whose sequence numbers differ. -/
def SimulationEvent.le (e f : SimulationEvent) : Prop :=
  e.time < f.time ∨ e.time = f.time ∧ e.sequence ≤ f.sequence
  deriving Decidable

/-- The heap is the list of its elements, in the order in which `heappop` gives them. -/
def heappush (events : List SimulationEvent) (e : SimulationEvent) : List SimulationEvent :=
  events.orderedInsert SimulationEvent.le e

namespace SimulationInput

variable (input : SimulationInput)

/-- `queues_by_id`. -/
def queuesById (queueId : String) : Option QueueLoad :=
  Tables.lookup QueueLoad.queueId queueId input.queues.reverse

def headcount (groupId : String) : ℤ := (input.headcountByGroup groupId).getD 0

/-- The calls in the order in which they are pushed. -/
def calls : List (String × ℚ) :=
  input.queues.flatMap fun q => (input.arrivals q.queueId).map (q.queueId, ·)

def pushArrival (heap : List SimulationEvent × ℕ) (call : String × ℚ) :
    List SimulationEvent × ℕ :=
  (heappush heap.1 ⟨call.2, heap.2, .arrival, call.1⟩, heap.2 + 1)

/-- Before the loop. -/
def start : Simulation where
  events := (input.calls.foldl pushArrival ([], 0)).1
  counter := (input.calls.foldl pushArrival ([], 0)).2
  samples := 0
  available := input.headcount
  waitLists _ := []
  offered _ := 0
  answeredWithin _ := 0
  services := []

/-- The call arrives after the burn-in, within one interval. -/
def InMeasurementWindow (q : QueueLoad) (arrivalTime : ℚ) : Prop :=
  burnInSeconds input.queues ≤ arrivalTime ∧
    arrivalTime < burnInSeconds input.queues + q.intervalSeconds
  deriving Decidable

/-- `start_service`. A failed lookup is a `KeyError`. -/
def startService (s : Simulation) (groupId queueId : String) (arrivalTime now : ℚ) :
    Option Simulation :=
  (input.queuesById queueId).map fun q =>
    let duration := if 0 < q.ahtSeconds then input.durations s.samples else 0
    { s with
      events := heappush s.events ⟨now + duration, s.counter, .agentFree, groupId⟩
      counter := s.counter + 1
      samples := if 0 < q.ahtSeconds then s.samples + 1 else s.samples
      available := update s.available groupId (s.available groupId - 1)
      answeredWithin :=
        if input.InMeasurementWindow q arrivalTime ∧ now - arrivalTime ≤ q.targetAnswerSeconds then
          update s.answeredWithin queueId (s.answeredWithin queueId + 1)
        else s.answeredWithin
      services := s.services ++ [⟨groupId, queueId, arrivalTime, now⟩] }

/-- A call arrives. -/
def handleArrival (s : Simulation) (queueId : String) (time : ℚ) : Option Simulation :=
  (input.queuesById queueId).bind fun q =>
    let offered := if input.InMeasurementWindow q time then
      update s.offered queueId (s.offered queueId + 1) else s.offered
    match (capableGroups input.groups queueId).find? (0 < s.available ·.groupId) with
    | some assigned =>
      input.startService { s with offered } assigned.groupId queueId time time
    | none => some { s with
        offered, waitLists := update s.waitLists queueId (s.waitLists queueId ++ [time]) }

/-- An agent becomes free. -/
def handleAgentFree (s : Simulation) (groupId : String) (time : ℚ) : Option Simulation :=
  (Tables.lookup AgentGroup.groupId groupId input.groups).bind fun group =>
    let available := update s.available groupId (s.available groupId + 1)
    let servable := group.skills.filter (s.waitLists · ≠ [])
    match servable.argmin fun queueId => (s.waitLists queueId).headD 0 with
    | none => some { s with available }
    | some queueId =>
      match s.waitLists queueId with
      | [] => none
      | arrivalTime :: rest =>
        input.startService
          { s with available, waitLists := update s.waitLists queueId rest }
          groupId queueId arrivalTime time

def handle (s : Simulation) (e : SimulationEvent) : Option Simulation :=
  match e.kind with
  | .arrival => input.handleArrival s e.payload e.time
  | .agentFree => input.handleAgentFree s e.payload e.time

/-- `while events`, for so many events. -/
def whileEvents : ℕ → Simulation → Option Simulation
  | 0, s => some s
  | n + 1, s =>
    match s.events with
    | [] => some s
    | e :: events => (input.handle { s with events } e).bind (whileEvents n)

end SimulationInput

def Simulation.result (s : Simulation) : SimulationResult where
  serviceLevelByQueue q :=
    if 0 < s.offered q then (s.answeredWithin q : ℚ) / s.offered q else 1
  offeredByQueue := s.offered
  answeredWithinTargetByQueue := s.answeredWithin

/-- `_simulate_once`; so many events are enough if none is left. -/
def simulateOnce (input : SimulationInput) (maxEvents : ℕ) : Option SimulationResult :=
  (input.whileEvents maxEvents input.start).bind fun s =>
    if s.events = [] then some s.result else none

/-! ## Where the calls and the agents are -/

namespace Simulation

/-- When the calls of a queue arrived that were started, in this order. -/
def started (s : Simulation) (queueId : String) : List ℚ :=
  (s.services.filter (·.queueId = queueId)).map (·.arrivalTime)

/-- When the calls of a queue arrive that are still to come. -/
def pending (s : Simulation) (queueId : String) : List ℚ :=
  (s.events.filter fun e => e.kind = .arrival ∧ e.payload = queueId).map (·.time)

/-- The agents of a group who are with a call. -/
def busy (s : Simulation) (groupId : String) : ℕ :=
  s.events.countP fun e => e.kind = .agentFree ∧ e.payload = groupId

end Simulation

/-- What is claimed between two events. -/
structure Conserves (input : SimulationInput) (s : Simulation) : Prop where
  available : ∀ g ∈ input.groups,
    0 ≤ s.available g.groupId ∧ s.available g.groupId ≤ input.headcount g.groupId
  /-- Every call is started, waits or is still to come, and the calls of a queue are started in the
  order of their arrivals. -/
  calls : ∀ q ∈ input.queues,
    s.started q.queueId ++ s.waitLists q.queueId ++ s.pending q.queueId =
      (input.arrivals q.queueId).insertionSort (· ≤ ·)
  /-- No call waits while an agent could take it. -/
  working : ∀ q ∈ input.queues, ∀ g ∈ input.groups, q.queueId ∈ g.skills →
    s.waitLists q.queueId ≠ [] → s.available g.groupId = 0
  answered : ∀ q ∈ input.queues, s.answeredWithin q.queueId ≤ s.offered q.queueId

/-- What holds of the books while a call of a queue is with the loop itself. -/
structure Accounts (input : SimulationInput) (hand : String → List ℚ) (s : Simulation) : Prop where
  sorted : s.events.Pairwise SimulationEvent.le
  queue_mem : ∀ e ∈ s.events, e.kind = .arrival → e.payload ∈ input.queues.map (·.queueId)
  group_mem : ∀ e ∈ s.events, e.kind = .agentFree → e.payload ∈ input.groups.map (·.groupId)
  waiting_mem : ∀ queueId, s.waitLists queueId ≠ [] → queueId ∈ input.queues.map (·.queueId)
  agents : ∀ g ∈ input.groups,
    s.available g.groupId + s.busy g.groupId = input.headcount g.groupId
  calls : ∀ q ∈ input.queues,
    s.started q.queueId ++ hand q.queueId ++ s.waitLists q.queueId ++ s.pending q.queueId =
      (input.arrivals q.queueId).insertionSort (· ≤ ·)
  offered : ∀ q ∈ input.queues, s.offered q.queueId =
    (s.started q.queueId ++ hand q.queueId ++ s.waitLists q.queueId).countP
      (input.InMeasurementWindow q)
  answered : ∀ q ∈ input.queues, s.answeredWithin q.queueId ≤
    (s.started q.queueId).countP (input.InMeasurementWindow q)

/-- Between two events no call is with the loop. -/
structure Inv (input : SimulationInput) (s : Simulation) : Prop
    extends Accounts input (fun _ => []) s where
  nonneg : ∀ g ∈ input.groups, 0 ≤ s.available g.groupId
  working : ∀ queueId, ∀ g ∈ input.groups, queueId ∈ g.skills →
    s.waitLists queueId ≠ [] → s.available g.groupId = 0

theorem Inv.conserves {input : SimulationInput} {s : Simulation} (h : Inv input s) :
    Conserves input s where
  available g hg := by
    have hagents := h.agents g hg
    exact ⟨h.nonneg g hg, by omega⟩
  calls q hq := by
    have hcalls := h.calls q hq
    rwa [append_nil] at hcalls
  working q _ := h.working q.queueId
  answered q hq := by
    refine (h.answered q hq).trans ?_
    rw [h.offered q hq, append_nil, countP_append]
    exact Nat.le_add_right _ _

/-! ## The heap -/

instance : Std.Total SimulationEvent.le where
  total e f := by
    rcases lt_trichotomy e.time f.time with hlt | heq | hgt
    · exact .inl (.inl hlt)
    · rcases le_total e.sequence f.sequence with hle | hle
      · exact .inl (.inr ⟨heq, hle⟩)
      · exact .inr (.inr ⟨heq.symm, hle⟩)
    · exact .inr (.inl hgt)

instance : IsTrans SimulationEvent SimulationEvent.le where
  trans e f g := by
    rintro (hef | ⟨hef, hle⟩) (hfg | ⟨hfg, hle'⟩)
    · exact .inl (hef.trans hfg)
    · exact .inl (hef.trans_eq hfg)
    · exact .inl (hef.trans_lt hfg)
    · exact .inr ⟨hef.trans hfg, hle.trans hle'⟩

theorem SimulationEvent.le.time_le {e f : SimulationEvent} (h : e.le f) : e.time ≤ f.time := by
  rcases h with hlt | ⟨heq, -⟩
  · exact hlt.le
  · exact heq.le

section Heap

variable {events : List SimulationEvent} {e f : SimulationEvent}

theorem pairwise_heappush (h : events.Pairwise SimulationEvent.le) :
    (heappush events e).Pairwise SimulationEvent.le := h.orderedInsert e

theorem mem_heappush : f ∈ heappush events e ↔ f = e ∨ f ∈ events := mem_orderedInsert _

theorem heappush_perm : (heappush events e).Perm (e :: events) := perm_orderedInsert _ _ _

theorem filter_heappush {p : SimulationEvent → Bool} (h : ¬ p e) :
    (heappush events e).filter p = events.filter p := by
  induction events with
  | nil => exact filter_cons_of_neg h
  | cons f events ih =>
    rw [heappush, orderedInsert_cons]
    split
    · exact filter_cons_of_neg h
    · rw [filter_cons, filter_cons, ← heappush, ih]

end Heap

/-! ## One event -/

section Steps

variable {input : SimulationInput} {s t : Simulation} {q : QueueLoad} {g : AgentGroup}
  {hand : String → List ℚ} {arrivalTime now : ℚ}

/-- The only call with the loop. -/
def inHand (queueId : String) (arrivalTime : ℚ) : String → List ℚ :=
  update (fun _ => []) queueId [arrivalTime]

theorem inHand_self (queueId : String) (arrivalTime : ℚ) :
    inHand queueId arrivalTime queueId = [arrivalTime] := update_self ..

theorem inHand_of_ne {queueId queueId' : String} (h : queueId' ≠ queueId) (arrivalTime : ℚ) :
    inHand queueId arrivalTime queueId' = [] := update_of_ne h ..

theorem queuesById_eq_some (hqueues : (input.queues.map (·.queueId)).Nodup)
    (hq : q ∈ input.queues) : input.queuesById q.queueId = some q := by
  refine Tables.lookup_eq_some ?_ (mem_reverse.2 hq)
  rw [map_reverse]
  exact nodup_reverse.2 hqueues

theorem eq_of_queueId_eq (hqueues : (input.queues.map (·.queueId)).Nodup) {q' : QueueLoad}
    (hq : q ∈ input.queues) (hq' : q' ∈ input.queues) (h : q'.queueId = q.queueId) : q' = q :=
  inj_on_of_nodup_map hqueues hq' hq h

/-- What starting a service does. -/
structure Starts (input : SimulationInput) (groupId : String) (q : QueueLoad)
    (arrivalTime now : ℚ) (s t : Simulation) : Prop where
  events : ∃ e : SimulationEvent, e.kind = .agentFree ∧ e.payload = groupId ∧
    t.events = heappush s.events e
  available : t.available = update s.available groupId (s.available groupId - 1)
  waitLists : t.waitLists = s.waitLists
  offered : t.offered = s.offered
  answered : ∀ queueId, t.answeredWithin queueId ≤ s.answeredWithin queueId +
    if queueId = q.queueId ∧ input.InMeasurementWindow q arrivalTime then 1 else 0
  services : t.services = s.services ++ [⟨groupId, q.queueId, arrivalTime, now⟩]

theorem exists_startService (hqueues : (input.queues.map (·.queueId)).Nodup)
    (hq : q ∈ input.queues) (groupId : String) (arrivalTime now : ℚ) (s : Simulation) :
    ∃ t, input.startService s groupId q.queueId arrivalTime now = some t ∧
      Starts input groupId q arrivalTime now s t := by
  unfold SimulationInput.startService
  rw [queuesById_eq_some hqueues hq]
  refine ⟨_, rfl, ⟨⟨_, rfl, rfl, rfl⟩, rfl, rfl, rfl, fun queueId => ?_, rfl⟩⟩
  dsimp only
  split
  · rename_i hwithin
    by_cases hsame : queueId = q.queueId
    · subst hsame
      rw [update_self, if_pos ⟨rfl, hwithin.1⟩]
    · rw [update_of_ne hsame]
      exact Nat.le_add_right _ _
  · exact Nat.le_add_right _ _

variable {groupId : String}

theorem Starts.started (h : Starts input groupId q arrivalTime now s t) (queueId : String) :
    t.started queueId = s.started queueId ++ inHand q.queueId arrivalTime queueId := by
  rw [Simulation.started, h.services, filter_append, map_append]
  by_cases hsame : queueId = q.queueId
  · subst hsame
    rw [inHand_self, filter_cons_of_pos (by simp)]
    rfl
  · rw [inHand_of_ne hsame, filter_cons_of_neg (by simpa using Ne.symm hsame)]
    rfl

theorem Starts.pending (h : Starts input groupId q arrivalTime now s t) (queueId : String) :
    t.pending queueId = s.pending queueId := by
  obtain ⟨e, hkind, -, hevents⟩ := h.events
  rw [Simulation.pending, hevents, filter_heappush (by simp [hkind]), Simulation.pending]

theorem Starts.busy (h : Starts input groupId q arrivalTime now s t) (groupId' : String) :
    t.busy groupId' = s.busy groupId' + if groupId' = groupId then 1 else 0 := by
  obtain ⟨e, hkind, rfl, hevents⟩ := h.events
  rw [Simulation.busy, hevents, heappush_perm.countP_eq, countP_cons, Simulation.busy]
  by_cases hsame : e.payload = groupId'
  · rw [if_pos (by simp [hkind, hsame]), if_pos hsame.symm]
  · rw [if_neg (by simp [hsame]), if_neg (Ne.symm hsame)]

theorem Starts.accounts (h : Starts input g.groupId q arrivalTime now s t)
    (hqueues : (input.queues.map (·.queueId)).Nodup) (hq : q ∈ input.queues)
    (hg : g ∈ input.groups) (haccounts : Accounts input (inHand q.queueId arrivalTime) s) :
    Accounts input (fun _ => []) t := by
  obtain ⟨e, hkind, hpayload, hevents⟩ := h.events
  constructor
  case sorted =>
    rw [hevents]
    exact pairwise_heappush haccounts.sorted
  case queue_mem =>
    intro f hf hcall
    rw [hevents, mem_heappush] at hf
    rcases hf with rfl | hf
    · rw [hkind] at hcall
      cases hcall
    · exact haccounts.queue_mem f hf hcall
  case group_mem =>
    intro f hf hfree
    rw [hevents, mem_heappush] at hf
    rcases hf with rfl | hf
    · rw [hpayload]
      exact mem_map_of_mem hg
    · exact haccounts.group_mem f hf hfree
  case waiting_mem =>
    rw [h.waitLists]
    exact haccounts.waiting_mem
  case agents =>
    intro g' hg'
    have hagents := haccounts.agents g' hg'
    rw [h.available, h.busy]
    by_cases hsame : g'.groupId = g.groupId
    · rw [if_pos hsame, hsame, update_self, Nat.cast_add, Nat.cast_one]
      rw [hsame] at hagents
      omega
    · rw [if_neg hsame, update_of_ne hsame]
      exact hagents
  case calls =>
    intro q' hq'
    rw [h.started, h.waitLists, h.pending, append_nil]
    exact haccounts.calls q' hq'
  case offered =>
    intro q' hq'
    rw [h.offered, h.started, h.waitLists, append_nil]
    exact haccounts.offered q' hq'
  case answered =>
    intro q' hq'
    refine (h.answered q'.queueId).trans ?_
    rw [h.started, countP_append]
    refine Nat.add_le_add (haccounts.answered q' hq') ?_
    split
    · rename_i hcounts
      obtain rfl := eq_of_queueId_eq hqueues hq hq' hcounts.1
      rw [inHand_self, countP_singleton, if_pos (decide_eq_true hcounts.2)]
    · exact Nat.zero_le _

/-! ## Taking an event -/

variable {e : SimulationEvent} {events : List SimulationEvent} {waitLists : String → List ℚ}

theorem pending_eq (hevents : s.events = e :: events) (hkind : e.kind = .arrival)
    (queueId : String) : s.pending queueId = inHand e.payload e.time queueId ++
      Simulation.pending { s with events } queueId := by
  rw [Simulation.pending, hevents, filter_cons]
  by_cases hsame : e.payload = queueId
  · subst hsame
    rw [if_pos (by simp [hkind]), inHand_self]
    rfl
  · rw [if_neg (by simp [hsame]), inHand_of_ne (Ne.symm hsame)]
    rfl

theorem Accounts.arrival (h : Accounts input (fun _ => []) s)
    (hqueues : (input.queues.map (·.queueId)).Nodup) (hevents : s.events = e :: events)
    (hkind : e.kind = .arrival) (hq : q ∈ input.queues) (hpayload : q.queueId = e.payload)
    (hcalls : ∀ queueId, hand queueId ++ waitLists queueId =
      s.waitLists queueId ++ inHand q.queueId e.time queueId) :
    Accounts input hand { s with
      events, waitLists
      offered := if input.InMeasurementWindow q e.time then
        update s.offered q.queueId (s.offered q.queueId + 1) else s.offered } := by
  have hsorted := h.sorted
  have hqueue := h.queue_mem
  have hgroup := h.group_mem
  rw [hevents] at hsorted hqueue hgroup
  constructor
  case sorted => exact (pairwise_cons.1 hsorted).2
  case queue_mem => exact fun f hf => hqueue f (mem_cons_of_mem _ hf)
  case group_mem => exact fun f hf => hgroup f (mem_cons_of_mem _ hf)
  case waiting_mem =>
    intro queueId hne
    by_cases hsame : queueId = q.queueId
    · rw [hsame]
      exact mem_map_of_mem hq
    · refine h.waiting_mem queueId fun hnil => hne ?_
      have hsplit := hcalls queueId
      rw [hnil, inHand_of_ne hsame] at hsplit
      exact (append_eq_nil_iff.1 hsplit).2
  case agents =>
    intro g' hg'
    have hagents := h.agents g' hg'
    rw [Simulation.busy, hevents, countP_cons_of_neg (by simp [hkind])] at hagents
    exact hagents
  case calls =>
    intro q' hq'
    have hold := h.calls q' hq'
    rw [append_nil, pending_eq hevents hkind, ← hpayload, ← append_assoc,
      append_assoc (s.started q'.queueId), ← hcalls, ← append_assoc] at hold
    exact hold
  case offered =>
    intro q' hq'
    have hold := h.offered q' hq'
    rw [append_nil] at hold
    rw [append_assoc, hcalls, ← append_assoc, countP_append]
    by_cases hsame : q'.queueId = q.queueId
    · obtain rfl := eq_of_queueId_eq hqueues hq hq' hsame
      rw [inHand_self, countP_singleton]
      dsimp only
      by_cases hwindow : input.InMeasurementWindow q' e.time
      · rw [if_pos hwindow, update_self, hold, if_pos (decide_eq_true hwindow)]
        rfl
      · rw [if_neg hwindow, hold, if_neg (by simpa using hwindow)]
        rfl
    · rw [inHand_of_ne hsame, countP_nil, Nat.add_zero]
      refine Eq.trans ?_ hold
      dsimp only
      split
      · rw [update_of_ne hsame]
      · rfl
  case answered => exact h.answered

/-- The books when an agent becomes free, whether or not there is a call to take. -/
theorem Accounts.agentFree (h : Accounts input (fun _ => []) s)
    (hevents : s.events = e :: events) (hkind : e.kind = .agentFree)
    (hcalls : ∀ queueId, hand queueId ++ waitLists queueId = s.waitLists queueId) :
    Accounts input hand { s with
      events, waitLists
      available := update s.available e.payload (s.available e.payload + 1) } := by
  have hsorted := h.sorted
  have hqueue := h.queue_mem
  have hgroup := h.group_mem
  rw [hevents] at hsorted hqueue hgroup
  constructor
  case sorted => exact (pairwise_cons.1 hsorted).2
  case queue_mem => exact fun f hf => hqueue f (mem_cons_of_mem _ hf)
  case group_mem => exact fun f hf => hgroup f (mem_cons_of_mem _ hf)
  case waiting_mem =>
    intro queueId hne
    refine h.waiting_mem queueId fun hnil => hne ?_
    have hsplit := hcalls queueId
    rw [hnil] at hsplit
    exact (append_eq_nil_iff.1 hsplit).2
  case agents =>
    intro g' hg'
    have hagents := h.agents g' hg'
    rw [Simulation.busy, hevents, countP_cons] at hagents
    by_cases hsame : e.payload = g'.groupId
    · rw [if_pos (by simp [hkind, hsame])] at hagents
      dsimp only
      rw [hsame, update_self, add_assoc, add_comm (1 : ℤ)]
      exact_mod_cast hagents
    · rw [if_neg (by simp [hsame])] at hagents
      dsimp only
      rw [update_of_ne (Ne.symm hsame)]
      exact hagents
  case calls =>
    intro q' hq'
    have hold := h.calls q' hq'
    have hpending : s.pending q'.queueId = Simulation.pending { s with events } q'.queueId := by
      rw [Simulation.pending, hevents, filter_cons_of_neg (by simp [hkind])]
      rfl
    rw [append_nil, ← hcalls q'.queueId, hpending, ← append_assoc] at hold
    exact hold
  case offered =>
    intro q' hq'
    have hold := h.offered q' hq'
    rw [append_nil, ← hcalls q'.queueId, ← append_assoc] at hold
    exact hold
  case answered => exact h.answered

/-! ## The events that are left -/

/-- How many events can still be taken: a call is one when it arrives and leads to one when it is
started. -/
def Simulation.turns (s : Simulation) (queueIds : Finset String) : ℕ :=
  s.events.length + s.events.countP (·.kind = .arrival) +
    ∑ queueId ∈ queueIds, (s.waitLists queueId).length

theorem sum_length_update {queueIds : Finset String} {queueId : String} (hmem : queueId ∈ queueIds)
    (w : String → List ℚ) (l : List ℚ) :
    ∑ id ∈ queueIds, (update w queueId l id).length + (w queueId).length =
      ∑ id ∈ queueIds, (w id).length + l.length := by
  have hrest : ∑ id ∈ queueIds.erase queueId, (update w queueId l id).length =
      ∑ id ∈ queueIds.erase queueId, (w id).length :=
    Finset.sum_congr rfl fun id hid => by rw [update_of_ne (Finset.ne_of_mem_erase hid)]
  rw [← Finset.add_sum_erase _ _ hmem,
    ← Finset.add_sum_erase queueIds (fun id => (w id).length) hmem, hrest, update_self]
  omega

theorem Starts.turns_eq (h : Starts input groupId q arrivalTime now s t)
    (queueIds : Finset String) : t.turns queueIds = s.turns queueIds + 1 := by
  obtain ⟨f, hkind, -, hevents⟩ := h.events
  rw [Simulation.turns, Simulation.turns, hevents, h.waitLists, heappush_perm.length_eq,
    heappush_perm.countP_eq, countP_cons_of_neg (by simp [hkind]), length_cons]
  omega

theorem mem_capableGroups {queueId : String} :
    g ∈ capableGroups input.groups queueId ↔ g ∈ input.groups ∧ queueId ∈ g.skills := by
  rw [capableGroups, mem_insertionSort, mem_filter, decide_eq_true_eq]

/-- The queues of the waiting calls. -/
def SimulationInput.queueIds (input : SimulationInput) : Finset String :=
  (input.queues.map (·.queueId)).toFinset

theorem queueId_mem (hq : q ∈ input.queues) : q.queueId ∈ input.queueIds :=
  mem_toFinset.2 (mem_map.2 ⟨q, hq, rfl⟩)

theorem turns_of_arrival (hevents : s.events = e :: events) (hkind : e.kind = .arrival) :
    s.turns input.queueIds = Simulation.turns { s with events } input.queueIds + 2 := by
  rw [Simulation.turns, Simulation.turns, hevents, length_cons,
    countP_cons_of_pos (by simp [hkind])]
  dsimp only
  omega

theorem turns_of_agentFree (hevents : s.events = e :: events) (hkind : e.kind = .agentFree) :
    s.turns input.queueIds = Simulation.turns { s with events } input.queueIds + 1 := by
  rw [Simulation.turns, Simulation.turns, hevents, length_cons,
    countP_cons_of_neg (by simp [hkind])]
  dsimp only
  omega

/-! ## A step -/

variable (hqueues : (input.queues.map (·.queueId)).Nodup)

include hqueues

theorem Inv.wait (h : Inv input s) (hevents : s.events = e :: events) (hkind : e.kind = .arrival)
    (hq : q ∈ input.queues) (hpayload : q.queueId = e.payload)
    (hbusy : ∀ g ∈ input.groups, q.queueId ∈ g.skills → s.available g.groupId ≤ 0)
    (ht : t = { s with
      events
      offered := if input.InMeasurementWindow q e.time then
        update s.offered q.queueId (s.offered q.queueId + 1) else s.offered
      waitLists := update s.waitLists q.queueId (s.waitLists q.queueId ++ [e.time]) }) :
    Inv input t ∧ t.turns input.queueIds < s.turns input.queueIds := by
  subst ht
  have hcalls : ∀ queueId, [] ++ update s.waitLists q.queueId
      (s.waitLists q.queueId ++ [e.time]) queueId =
        s.waitLists queueId ++ inHand q.queueId e.time queueId := by
    intro queueId
    rw [nil_append]
    by_cases hsame : queueId = q.queueId
    · subst hsame
      rw [update_self, inHand_self]
    · rw [update_of_ne hsame, inHand_of_ne hsame, append_nil]
  refine ⟨⟨h.toAccounts.arrival hqueues hevents hkind hq hpayload hcalls, h.nonneg,
    fun queueId g hg hskill hne => ?_⟩, ?_⟩
  · by_cases hsame : queueId = q.queueId
    · exact le_antisymm (hbusy g hg (hsame ▸ hskill)) (h.nonneg g hg)
    · dsimp only at hne
      rw [update_of_ne hsame] at hne
      exact h.working queueId g hg hskill hne
  · have hsum := sum_length_update (queueId_mem hq) s.waitLists (s.waitLists q.queueId ++ [e.time])
    rw [length_append, length_singleton] at hsum
    rw [turns_of_arrival hevents hkind, Simulation.turns, Simulation.turns]
    dsimp only
    omega

theorem Inv.assign (h : Inv input s) (hevents : s.events = e :: events) (hkind : e.kind = .arrival)
    (hq : q ∈ input.queues) (hpayload : q.queueId = e.payload) (hg : g ∈ input.groups)
    (hskill : q.queueId ∈ g.skills) (hfree : 0 < s.available g.groupId)
    (hstarts : Starts input g.groupId q e.time now { s with
      events
      offered := if input.InMeasurementWindow q e.time then
        update s.offered q.queueId (s.offered q.queueId + 1) else s.offered } t) :
    Inv input t ∧ t.turns input.queueIds < s.turns input.queueIds := by
  have hnil : s.waitLists q.queueId = [] := by
    by_contra hne
    exact hfree.ne' (h.working q.queueId g hg hskill hne)
  have hcalls : ∀ queueId, inHand q.queueId e.time queueId ++ s.waitLists queueId =
      s.waitLists queueId ++ inHand q.queueId e.time queueId := by
    intro queueId
    by_cases hsame : queueId = q.queueId
    · rw [hsame, hnil, append_nil, nil_append]
    · rw [inHand_of_ne hsame, append_nil, nil_append]
  refine ⟨⟨hstarts.accounts hqueues hq hg
    (h.toAccounts.arrival hqueues hevents hkind hq hpayload hcalls), fun g' hg' => ?_,
    fun queueId g' hg' hskill' hne => ?_⟩, ?_⟩
  · rw [hstarts.available]
    by_cases hsame : g'.groupId = g.groupId
    · rw [hsame, update_self]
      dsimp only
      omega
    · rw [update_of_ne hsame]
      exact h.nonneg g' hg'
  · rw [hstarts.waitLists] at hne
    have hzero := h.working queueId g' hg' hskill' hne
    have hother : g'.groupId ≠ g.groupId := fun hsame => hfree.ne' (hsame ▸ hzero)
    rw [hstarts.available, update_of_ne hother]
    exact hzero
  · rw [hstarts.turns_eq, turns_of_arrival hevents hkind]
    exact Nat.lt_succ_self _

theorem Inv.handleArrival (h : Inv input s) (hevents : s.events = e :: events)
    (hkind : e.kind = .arrival) :
    ∃ t, input.handle { s with events } e = some t ∧ Inv input t ∧
      t.turns input.queueIds < s.turns input.queueIds := by
  obtain ⟨q, hq, hpayload⟩ :=
    mem_map.1 (h.queue_mem e (hevents ▸ mem_cons_self) hkind)
  unfold SimulationInput.handle SimulationInput.handleArrival
  rw [hkind, ← hpayload, queuesById_eq_some hqueues hq]
  dsimp only [Option.bind_some]
  cases hassigned : (capableGroups input.groups q.queueId).find? (0 < s.available ·.groupId) with
  | none =>
    refine ⟨_, rfl, h.wait hqueues hevents hkind hq hpayload (fun g hg hskill => ?_) rfl⟩
    have hnone := find?_eq_none.1 hassigned g (mem_capableGroups.2 ⟨hg, hskill⟩)
    simpa using hnone
  | some g =>
    obtain ⟨hg, hskill⟩ := mem_capableGroups.1 (mem_of_find?_eq_some hassigned)
    obtain ⟨t, ht, hstarts⟩ := exists_startService hqueues hq g.groupId e.time e.time
      { s with
        events
        offered := if input.InMeasurementWindow q e.time then
          update s.offered q.queueId (s.offered q.queueId + 1) else s.offered }
    exact ⟨t, ht, h.assign hqueues hevents hkind hq hpayload hg hskill
      (by simpa using find?_some hassigned) hstarts⟩

omit hqueues in
theorem Inv.idle (hgroups : (input.groups.map (·.groupId)).Nodup) (h : Inv input s)
    (hevents : s.events = e :: events) (hkind : e.kind = .agentFree) (hg : g ∈ input.groups)
    (hpayload : g.groupId = e.payload) (hnone : ∀ queueId ∈ g.skills, s.waitLists queueId = [])
    (ht : t = { s with
      events
      available := update s.available g.groupId (s.available g.groupId + 1) }) :
    Inv input t ∧ t.turns input.queueIds < s.turns input.queueIds := by
  subst ht
  have haccounts := h.toAccounts.agentFree hevents hkind fun queueId =>
    nil_append (s.waitLists queueId)
  rw [← hpayload] at haccounts
  refine ⟨⟨haccounts, fun g' hg' => ?_, fun queueId g' hg' hskill hne => ?_⟩, ?_⟩
  · have hnonneg := h.nonneg g' hg'
    dsimp only
    by_cases hsame : g'.groupId = g.groupId
    · rw [hsame] at hnonneg ⊢
      rw [update_self]
      omega
    · rwa [update_of_ne hsame]
  · dsimp only
    by_cases hsame : g'.groupId = g.groupId
    · obtain rfl := inj_on_of_nodup_map hgroups hg' hg hsame
      exact absurd (hnone queueId hskill) hne
    · rw [update_of_ne hsame]
      exact h.working queueId g' hg' hskill hne
  · rw [turns_of_agentFree hevents hkind]
    exact Nat.lt_succ_self _

theorem Inv.resume (h : Inv input s) (hevents : s.events = e :: events)
    (hkind : e.kind = .agentFree) (hg : g ∈ input.groups) (hpayload : g.groupId = e.payload)
    (hq : q ∈ input.queues) {rest : List ℚ} (hwait : s.waitLists q.queueId = arrivalTime :: rest)
    (hstarts : Starts input g.groupId q arrivalTime now { s with
      events
      available := update s.available g.groupId (s.available g.groupId + 1)
      waitLists := update s.waitLists q.queueId rest } t) :
    Inv input t ∧ t.turns input.queueIds < s.turns input.queueIds := by
  have hcalls : ∀ queueId, inHand q.queueId arrivalTime queueId ++
      update s.waitLists q.queueId rest queueId = s.waitLists queueId := by
    intro queueId
    by_cases hsame : queueId = q.queueId
    · rw [hsame, inHand_self, update_self, hwait]
      rfl
    · rw [inHand_of_ne hsame, update_of_ne hsame]
      rfl
  have haccounts := h.toAccounts.agentFree hevents hkind hcalls
  rw [← hpayload] at haccounts
  have havailable : t.available = s.available := by
    rw [hstarts.available]
    dsimp only
    rw [update_self, add_sub_cancel_right, update_idem, update_eq_self]
  refine ⟨⟨hstarts.accounts hqueues hq hg haccounts, ?_, fun queueId g' hg' hskill hne => ?_⟩, ?_⟩
  · rw [havailable]
    exact h.nonneg
  · rw [havailable]
    refine h.working queueId g' hg' hskill fun hnil => hne ?_
    have hsplit := hcalls queueId
    rw [hnil] at hsplit
    rw [hstarts.waitLists]
    exact (append_eq_nil_iff.1 hsplit).2
  · have hsum := sum_length_update (queueId_mem hq) s.waitLists rest
    rw [hwait, length_cons] at hsum
    rw [hstarts.turns_eq, turns_of_agentFree hevents hkind, Simulation.turns, Simulation.turns]
    dsimp only
    omega

theorem Inv.handleAgentFree (hgroups : (input.groups.map (·.groupId)).Nodup) (h : Inv input s)
    (hevents : s.events = e :: events) (hkind : e.kind = .agentFree) :
    ∃ t, input.handle { s with events } e = some t ∧ Inv input t ∧
      t.turns input.queueIds < s.turns input.queueIds := by
  obtain ⟨g, hg, hpayload⟩ :=
    mem_map.1 (h.group_mem e (hevents ▸ mem_cons_self) hkind)
  unfold SimulationInput.handle SimulationInput.handleAgentFree
  rw [hkind, ← hpayload, Tables.lookup_eq_some hgroups hg]
  dsimp only [Option.bind_some]
  cases holdest : (g.skills.filter (s.waitLists · ≠ [])).argmin
      fun queueId => (s.waitLists queueId).headD 0 with
  | none =>
    refine ⟨_, rfl, h.idle hgroups hevents hkind hg hpayload (fun queueId hskill => ?_) rfl⟩
    have hout := filter_eq_nil_iff.1 (argmin_eq_none.1 holdest) queueId hskill
    simpa using hout
  | some queueId =>
    obtain ⟨hskill, hne⟩ := mem_filter.1 (argmin_mem holdest)
    rw [decide_eq_true_eq] at hne
    obtain ⟨q, hq, rfl⟩ := mem_map.1 (h.waiting_mem queueId hne)
    obtain ⟨arrivalTime, rest, hwait⟩ := exists_cons_of_ne_nil hne
    obtain ⟨t, ht, hstarts⟩ := exists_startService hqueues hq g.groupId arrivalTime e.time
      { s with
        events
        available := update s.available g.groupId (s.available g.groupId + 1)
        waitLists := update s.waitLists q.queueId rest }
    dsimp only
    rw [hwait]
    exact ⟨t, ht, h.resume hqueues hevents hkind hg hpayload hq hwait hstarts⟩

theorem Inv.handle (hgroups : (input.groups.map (·.groupId)).Nodup) (h : Inv input s)
    (hevents : s.events = e :: events) :
    ∃ t, input.handle { s with events } e = some t ∧ Inv input t ∧
      t.turns input.queueIds < s.turns input.queueIds := by
  cases hkind : e.kind with
  | arrival => exact h.handleArrival hqueues hevents hkind
  | agentFree => exact h.handleAgentFree hqueues hgroups hevents hkind

end Steps

/-! ## Before the loop -/

/-- What an event is about. -/
def SimulationEvent.subject (e : SimulationEvent) : EventKind × String × ℚ :=
  (e.kind, e.payload, e.time)

section Start

open SimulationInput

variable {input : SimulationInput}

theorem pushArrival_spec (calls : List (String × ℚ)) (heap : List SimulationEvent × ℕ)
    (h : heap.1.Pairwise SimulationEvent.le) :
    (calls.foldl pushArrival heap).1.Pairwise SimulationEvent.le ∧
      ((calls.foldl pushArrival heap).1.map (·.subject)).Perm
        (calls.map (fun call => (.arrival, call.1, call.2)) ++ heap.1.map (·.subject)) := by
  induction calls generalizing heap with
  | nil => exact ⟨h, .refl _⟩
  | cons call calls ih =>
    obtain ⟨hsorted, hperm⟩ := ih (pushArrival heap call) (pairwise_heappush h)
    refine ⟨hsorted, hperm.trans ?_⟩
    rw [map_cons, cons_append]
    have hpush : ((pushArrival heap call).1.map (·.subject)).Perm
        ((.arrival, call.1, call.2) :: heap.1.map (·.subject)) := heappush_perm.map _
    exact (hpush.append_left _).trans perm_middle

theorem start_sorted : input.start.events.Pairwise SimulationEvent.le :=
  (pushArrival_spec input.calls ([], 0) .nil).1

theorem start_subjects : (input.start.events.map (·.subject)).Perm
    (input.calls.map fun call => (.arrival, call.1, call.2)) := by
  have hperm := (pushArrival_spec input.calls ([], 0) .nil).2
  rwa [map_nil, append_nil] at hperm

theorem start_mem {e : SimulationEvent} (he : e ∈ input.start.events) :
    e.kind = .arrival ∧ e.payload ∈ input.queues.map (·.queueId) := by
  obtain ⟨call, hcall, heq⟩ := mem_map.1 (start_subjects.subset (mem_map_of_mem he))
  obtain ⟨hkind, heq⟩ := Prod.mk.inj heq
  obtain ⟨hpayload, -⟩ := Prod.mk.inj heq
  refine ⟨hkind.symm, ?_⟩
  obtain ⟨q, hq, hmem⟩ := mem_flatMap.1 hcall
  obtain ⟨time, -, rfl⟩ := mem_map.1 hmem
  exact hpayload ▸ mem_map_of_mem hq

theorem calls_of_queue (arrivals : String → List ℚ) {queues : List QueueLoad}
    (hqueues : (queues.map (·.queueId)).Nodup) {q : QueueLoad} (hq : q ∈ queues) :
    ((queues.flatMap fun q => (arrivals q.queueId).map (q.queueId, ·)).filter
      (·.1 = q.queueId)).map (·.2) = arrivals q.queueId := by
  have hown : ∀ queueId, (((arrivals queueId).map (queueId, ·)).filter (·.1 = queueId)).map (·.2) =
      arrivals queueId := by
    intro queueId
    rw [filter_eq_self.2 (by simp), map_map]
    exact map_id _
  have hother : ∀ queueId ≠ q.queueId,
      ((arrivals queueId).map (queueId, ·)).filter (·.1 = q.queueId) = [] := by
    intro queueId hne
    exact filter_eq_nil_iff.2 (by simpa using fun _ _ => hne)
  induction queues with
  | nil => cases hq
  | cons q₀ queues ih =>
    obtain ⟨hnew, hqueues⟩ := nodup_cons.1 hqueues
    rw [flatMap_cons, filter_append, map_append]
    rcases mem_cons.1 hq with rfl | hq
    · rw [hown, filter_flatMap, flatMap_eq_nil_iff.2, map_nil, append_nil]
      intro q' hq'
      exact hother q'.queueId fun hsame => hnew (mem_map.2 ⟨q', hq', hsame⟩)
    · rw [hother q₀.queueId fun hsame => hnew (mem_map.2 ⟨q, hq, hsame.symm⟩), map_nil, nil_append]
      exact ih hqueues hq

theorem start_pending (hqueues : (input.queues.map (·.queueId)).Nodup) {q : QueueLoad}
    (hq : q ∈ input.queues) : input.start.pending q.queueId =
      (input.arrivals q.queueId).insertionSort (· ≤ ·) := by
  have hpending : input.start.pending q.queueId = ((input.start.events.map (·.subject)).filter
      fun subject => subject.1 = .arrival ∧ subject.2.1 = q.queueId).map (·.2.2) := by
    rw [filter_map, map_map]
    rfl
  have hcalls : ((input.calls.map fun call => (EventKind.arrival, call.1, call.2)).filter
      fun subject => subject.1 = .arrival ∧ subject.2.1 = q.queueId).map (·.2.2) =
        input.arrivals q.queueId := by
    rw [filter_map, map_map]
    refine Eq.trans ?_ (calls_of_queue input.arrivals hqueues hq)
    simp [comp_def, calls]
  have hperm : (input.start.pending q.queueId).Perm (input.arrivals q.queueId) := by
    rw [hpending]
    exact ((start_subjects.filter _).map _).trans (.of_eq hcalls)
  refine (hperm.trans (perm_insertionSort _ _).symm).eq_of_pairwise
    (fun _ _ _ _ h h' => le_antisymm h h') ?_ (pairwise_insertionSort _ _)
  exact (start_sorted.filter _).map _ fun _ _ h => h.time_le

theorem inv_start (hqueues : (input.queues.map (·.queueId)).Nodup)
    (hheadcount : ∀ g ∈ input.groups, 0 ≤ input.headcount g.groupId) : Inv input input.start where
  sorted := start_sorted
  queue_mem e he _ := (start_mem he).2
  group_mem e he hkind := by
    rw [(start_mem he).1] at hkind
    cases hkind
  waiting_mem _ hne := absurd rfl hne
  agents g _ := by
    have hnobody : input.start.busy g.groupId = 0 := by
      refine countP_eq_zero.2 fun e he => ?_
      simp [(start_mem he).1]
    rw [hnobody]
    exact add_zero _
  calls q hq := start_pending hqueues hq
  offered _ _ := rfl
  answered _ _ := le_rfl
  nonneg := hheadcount
  working _ _ _ _ hne := absurd rfl hne

theorem start_turns_le (queueIds : Finset String) :
    input.start.turns queueIds ≤ 2 * input.calls.length := by
  have hlength : input.start.events.length = input.calls.length := by
    simpa using start_subjects.length_eq
  have hcount : input.start.events.countP (·.kind = .arrival) ≤ input.start.events.length :=
    countP_le_length
  have hnone : ∑ queueId ∈ queueIds, (input.start.waitLists queueId).length = 0 :=
    Finset.sum_eq_zero fun _ _ => rfl
  rw [Simulation.turns, hnone]
  omega

end Start

/-! ## The loop -/

section Loop

variable {input : SimulationInput} {s : Simulation}
  (hqueues : (input.queues.map (·.queueId)).Nodup) (hgroups : (input.groups.map (·.groupId)).Nodup)

include hqueues hgroups

theorem Inv.whileEvents (h : Inv input s) (n : ℕ) :
    ∃ t, input.whileEvents n s = some t ∧ Inv input t ∧
      (s.turns input.queueIds ≤ n → t.events = []) := by
  induction n generalizing s with
  | zero =>
    refine ⟨s, rfl, h, fun hnone => length_eq_zero_iff.1 ?_⟩
    rw [Simulation.turns] at hnone
    omega
  | succ n ih =>
    unfold SimulationInput.whileEvents
    cases hevents : s.events with
    | nil => exact ⟨s, rfl, h, fun _ => hevents⟩
    | cons e events =>
      obtain ⟨t, ht, hinv, hless⟩ := h.handle hqueues hgroups hevents
      obtain ⟨u, hu, hinv', hdone⟩ := ih hinv
      dsimp only
      rw [ht]
      exact ⟨u, hu, hinv', fun hle => hdone (by omega)⟩

omit hqueues hgroups in
/-- When no event is left every agent is free, so no call waits that someone could take. -/
theorem Inv.started_eq (h : Inv input s) (hdone : s.events = []) {q : QueueLoad}
    (hq : q ∈ input.queues) {g : AgentGroup} (hg : g ∈ input.groups)
    (hskill : q.queueId ∈ g.skills) (hstaffed : 1 ≤ input.headcount g.groupId) :
    s.started q.queueId = (input.arrivals q.queueId).insertionSort (· ≤ ·) := by
  have hagents := h.agents g hg
  have hcalls := h.calls q hq
  rw [Simulation.busy, hdone, countP_nil, Nat.cast_zero, add_zero] at hagents
  have hwait : s.waitLists q.queueId = [] := by
    by_contra hne
    have hzero := h.working q.queueId g hg hskill hne
    omega
  rwa [Simulation.pending, hdone, hwait, append_nil, append_nil, filter_nil,
    map_nil, append_nil] at hcalls

end Loop

/-- **The simulation** loses no call and leaves none waiting in vain: this holds after every event,
the loop ends, and then every call that someone can take is started. -/
theorem simulateOnce_conserves {input : SimulationInput}
    (hqueues : (input.queues.map (·.queueId)).Nodup)
    (hgroups : (input.groups.map (·.groupId)).Nodup)
    (hheadcount : ∀ g ∈ input.groups, 0 ≤ input.headcount g.groupId) :
    (∀ n, ∃ s, input.whileEvents n input.start = some s ∧ Conserves input s) ∧
    ∃ s, input.whileEvents (2 * input.calls.length) input.start = some s ∧ s.events = [] ∧
      simulateOnce input (2 * input.calls.length) = some s.result ∧
      (∀ q ∈ input.queues, (∃ g ∈ input.groups, q.queueId ∈ g.skills ∧
          1 ≤ input.headcount g.groupId) →
        s.started q.queueId = (input.arrivals q.queueId).insertionSort (· ≤ ·)) ∧
      ∀ q ∈ input.queues, s.result.answeredWithinTargetByQueue q.queueId ≤
        s.result.offeredByQueue q.queueId := by
  have hstart := inv_start hqueues hheadcount
  constructor
  · intro n
    obtain ⟨s, hs, hinv, -⟩ := hstart.whileEvents hqueues hgroups n
    exact ⟨s, hs, hinv.conserves⟩
  · obtain ⟨s, hs, hinv, hdone⟩ := hstart.whileEvents hqueues hgroups (2 * input.calls.length)
    have hnone := hdone (start_turns_le _)
    refine ⟨s, hs, hnone, ?_, ?_, hinv.conserves.answered⟩
    · rw [simulateOnce, hs, Option.bind_some, if_pos hnone]
    · rintro q hq ⟨g, hg, hskill, hstaffed⟩
      exact hinv.started_eq hnone hq hg hskill hstaffed

/-- Two queues, a team that is not staffed, and an agent for both. -/
def pooledInput : SimulationInput where
  queues := [⟨"billing", 3, 60, 4 / 5, 20, 300⟩, ⟨"support", 2, 120, 4 / 5, 20, 300⟩]
  groups := [⟨"both", ["support", "billing"], by decide⟩, ⟨"billing", ["billing"], by decide⟩]
  headcountByGroup groupId := if groupId = "both" then some 1 else none
  arrivals queueId := if queueId = "billing" then [5000, 4900, 4900] else [4800, 5000]
  durations _ := 90

theorem pooledInput_conserves : ∃ s,
    pooledInput.whileEvents 10 pooledInput.start = some s ∧ s.events = [] ∧
      s.started "billing" = [4900, 4900, 5000] ∧ s.started "support" = [4800, 5000] := by
  have hqueues : (pooledInput.queues.map (·.queueId)).Nodup := by decide
  obtain ⟨-, s, hs, hdone, -, hstarted, -⟩ :=
    simulateOnce_conserves hqueues (by decide) (by decide +kernel)
  refine ⟨s, hs, hdone, ?_, ?_⟩
  · refine (hstarted _ mem_cons_self ⟨_, mem_cons_self, ?_⟩).trans ?_ <;> decide +kernel
  · refine (hstarted _ (mem_cons_of_mem _ mem_cons_self)
      ⟨_, mem_cons_self, ?_⟩).trans ?_ <;> decide +kernel

end Workforce.Forecasting
