import Mathlib.Data.Int.ConditionallyCompleteOrder
import Mathlib.Data.List.Dedup
import Mathlib.Data.List.FinRange
import Mathlib.Data.List.MinMax
import Mathlib.Data.List.Pairwise
import Mathlib.Data.List.Perm.Basic
import Mathlib.Data.List.Sort
import Mathlib.Order.ConditionallyCompleteLattice.Basic
import Workforce.Foundations.Runs

/-!
# The adherence calculator

`adherence-calculator.consumer.ts`: every `agent.state_changed` message becomes a row of
`adherence_event`, computed from the latest row of the employee, and, when the segment that it ends
was not adherent, a row of `adherence_exception`. The messages come from a durable consumer that
handles one at a time. One whose transaction has rolled back is handed back and comes again, right
away or after later ones; so does one that has committed when its acknowledgement is lost.

* `sameRows_of_inTurn`: the rows are those of every message processed once in order when the
  messages of each employee commit once and in order; when one commits twice they never are.
-/

namespace Workforce.Intraday

open List

/-- What is read of an `agent.state_changed` message. -/
structure AgentStateChangedPayload where
  tenantId : ℕ
  employeeId : ℕ
  currentActivity : String
  /-- In milliseconds. -/
  receivedAt : ℤ

/-- A message, and the scheduled activity that is read when it is processed. -/
structure Message where
  payload : AgentStateChangedPayload
  scheduledActivity : Option String

structure AdherenceEvent where
  tenantId : ℕ
  employeeId : ℕ
  eventType : String
  fromActivity : Option String
  toActivity : String
  scheduledActivity : Option String
  deviationSeconds : ℤ
  timestamp : ℤ
  deriving DecidableEq

inductive AdherenceExceptionStatus
  | «open»
  | acknowledged
  | resolved
  deriving DecidableEq

structure AdherenceException where
  tenantId : ℕ
  employeeId : ℕ
  activity : String
  scheduledActivity : Option String
  startedAt : ℤ
  endedAt : ℤ
  deviationSeconds : ℤ
  status : AdherenceExceptionStatus
  acknowledgedBy : Option ℕ
  acknowledgedAt : Option ℤ
  resolutionNotes : Option String
  resolvedAt : Option ℤ
  createdAt : ℤ
  deriving DecidableEq

/-- `ON_SHIFT_ACTIVITY`. -/
def onShiftActivity : String := "on_shift"

def isAdherent (scheduledActivity : Option String) : Bool :=
  scheduledActivity = some onShiftActivity

/-- The length of the segment that ends, when it was not adherent. -/
def computeDeviationSeconds (previousEvent : Option AdherenceEvent) (thisEventTimestamp : ℤ) : ℤ :=
  match previousEvent with
  | none => 0
  | some previous =>
    if isAdherent previous.scheduledActivity then 0
    else max 0 ((thisEventTimestamp - previous.timestamp) / 1000)

structure AdherenceTables where
  events : List AdherenceEvent
  exceptions : List AdherenceException

/-- The event of a message that follows an event. -/
def newEvent (m : Message) (previousEvent : Option AdherenceEvent) : AdherenceEvent :=
  { tenantId := m.payload.tenantId
    employeeId := m.payload.employeeId
    eventType := "activity_changed"
    fromActivity := previousEvent.map (·.toActivity)
    toActivity := m.payload.currentActivity
    scheduledActivity := m.scheduledActivity
    deviationSeconds := computeDeviationSeconds previousEvent m.payload.receivedAt
    timestamp := m.payload.receivedAt }

/-- The exception for the segment that an event ends. -/
def newException (m : Message) (previous : AdherenceEvent) (deviationSeconds : ℤ) :
    AdherenceException :=
  { tenantId := m.payload.tenantId
    employeeId := m.payload.employeeId
    activity := previous.toActivity
    scheduledActivity := previous.scheduledActivity
    startedAt := previous.timestamp
    endedAt := m.payload.receivedAt
    deviationSeconds := deviationSeconds
    status := .open
    acknowledgedBy := none
    acknowledgedAt := none
    resolutionNotes := none
    resolvedAt := none
    createdAt := m.payload.receivedAt }

def newExceptions (m : Message) (previousEvent : Option AdherenceEvent) : List AdherenceException :=
  let deviationSeconds := computeDeviationSeconds previousEvent m.payload.receivedAt
  match previousEvent with
  | some previous =>
    if 0 < deviationSeconds then [newException m previous deviationSeconds] else []
  | none => []

/-- The employee, with the tenant. -/
def Message.employee (m : Message) : ℕ × ℕ := (m.payload.tenantId, m.payload.employeeId)

def AdherenceEvent.employee (event : AdherenceEvent) : ℕ × ℕ := (event.tenantId, event.employeeId)

def AdherenceException.employee (e : AdherenceException) : ℕ × ℕ := (e.tenantId, e.employeeId)

section Consumer

-- `ORDER BY timestamp DESC LIMIT 1`: which of the latest rows comes back is up to the database
variable (latest : List AdherenceEvent → Option AdherenceEvent)

def findPrevious (tables : AdherenceTables) (m : Message) : Option AdherenceEvent :=
  latest (tables.events.filter fun event => event.employee = m.employee)

def handlePayload (tables : AdherenceTables) (m : Message) : AdherenceTables :=
  let previousEvent := findPrevious latest tables m
  ⟨tables.events ++ [newEvent m previousEvent], tables.exceptions ++ newExceptions m previousEvent⟩

/-- Every message is processed once, in order. -/
def processOnce (messages : List Message) : AdherenceTables :=
  messages.foldl (handlePayload latest) ⟨[], []⟩

/-! ## Deliveries -/

/-- A message is delivered, and its transaction commits or rolls back. -/
structure Delivery (n : ℕ) where
  message : Fin n
  commits : Bool

structure ConsumerState (n : ℕ) where
  tables : AdherenceTables
  /-- How many messages have been delivered at least once. -/
  pulled : ℕ
  /-- What has been committed, in that order. -/
  committed : List (Fin n)

/-- Messages are first delivered in their order. One that was delivered before may come again at any
time: it was handed back, or its acknowledgement was lost. -/
def deliver (messages : List Message) (s : ConsumerState messages.length)
    (d : Delivery messages.length) : Option (ConsumerState messages.length) :=
  if d.message ≤ s.pulled then
    let pulled := max s.pulled (d.message + 1)
    some (if d.commits then
      ⟨handlePayload latest s.tables (messages.get d.message), pulled, s.committed ++ [d.message]⟩
    else { s with pulled })
  else none

def ConsumerState.init {n : ℕ} : ConsumerState n := ⟨⟨[], []⟩, 0, []⟩

/-- The same rows, as multisets. -/
structure SameRows (t t' : AdherenceTables) : Prop where
  events : t.events.Perm t'.events
  exceptions : t.exceptions.Perm t'.exceptions

/-- The messages that have been committed, in the order of the sequence. -/
def committedMessages (messages : List Message) (committed : List (Fin messages.length)) :
    List Message :=
  ((finRange messages.length).filter (· ∈ committed)).map messages.get

/-- A message commits before the later ones of its employee, and only once. -/
def InTurn (messages : List Message) (s : ConsumerState messages.length)
    (d : Delivery messages.length) : Prop :=
  d.commits → ∀ i ∈ s.committed,
    (messages.get i).employee = (messages.get d.message).employee → i < d.message
  deriving Decidable

theorem committedMessages_of_all {messages : List Message}
    {committed : List (Fin messages.length)} (h : ∀ i, i ∈ committed) :
    committedMessages messages committed = messages := by
  rw [committedMessages, filter_eq_self.2 fun i _ => decide_eq_true (h i), map_get_finRange]

variable {latest}

theorem processOnce_concat (messages : List Message) (m : Message) :
    processOnce latest (messages ++ [m]) =
      handlePayload latest (processOnce latest messages) m := by
  simp [processOnce]

theorem length_processOnce (messages : List Message) :
    (processOnce latest messages).events.length = messages.length := by
  induction messages using reverseRecOn with
  | nil => rfl
  | append_singleton messages m ih => simp [processOnce_concat, handlePayload, ih]

/-! ## One employee -/

theorem filter_newExceptions (m : Message) (previousEvent : Option AdherenceEvent) (k : ℕ × ℕ) :
    (newExceptions m previousEvent).filter (·.employee = k) =
      if m.employee = k then newExceptions m previousEvent else [] := by
  have hall : ∀ e ∈ newExceptions m previousEvent, e.employee = m.employee := by
    intro e he
    unfold newExceptions at he
    dsimp only at he
    split at he
    · split at he
      · obtain rfl := mem_singleton.1 he
        rfl
      · cases he
    · cases he
  split
  · rename_i hk
    exact filter_eq_self.2 fun e he => decide_eq_true ((hall e he).trans hk)
  · rename_i hk
    exact filter_eq_nil_iff.2 fun e he heq =>
      hk ((hall e he).symm.trans (of_decide_eq_true heq))

/-- The rows of an employee come from the messages of that employee. -/
theorem filter_processOnce (messages : List Message) (k : ℕ × ℕ) :
    (processOnce latest messages).events.filter (·.employee = k) =
        (processOnce latest (messages.filter (·.employee = k))).events ∧
      (processOnce latest messages).exceptions.filter (·.employee = k) =
        (processOnce latest (messages.filter (·.employee = k))).exceptions := by
  induction messages using reverseRecOn with
  | nil => exact ⟨rfl, rfl⟩
  | append_singleton messages m ih =>
    obtain ⟨hevents, hexceptions⟩ := ih
    rw [processOnce_concat, filter_append]
    by_cases hk : m.employee = k
    · -- the latest row of the employee is among the rows of the employee
      subst hk
      have hprevious : findPrevious latest (processOnce latest messages) m =
          findPrevious latest
            (processOnce latest (messages.filter (·.employee = m.employee))) m := by
        rw [findPrevious, findPrevious, ← hevents, filter_filter]
        simp
      have hnew : ∀ previous, (newEvent m previous).employee = m.employee := fun _ => rfl
      have hm : [m].filter (·.employee = m.employee) = [m] := by simp
      rw [hm, processOnce_concat]
      simp only [handlePayload, filter_append, hevents, hexceptions, hprevious,
        filter_newExceptions, if_true, filter_cons, hnew, decide_true, filter_nil,
        and_self]
    · have hm : [m].filter (·.employee = k) = [] := by simp [hk]
      have hnew : ∀ previous, (newEvent m previous).employee = m.employee := fun _ => rfl
      rw [hm, append_nil]
      simp [handlePayload, filter_append, hevents, hexceptions, filter_newExceptions, hk, hnew]

/-- Only the order among the messages of an employee matters. -/
theorem sameRows_of_filter_eq {messages messages' : List Message}
    (h : ∀ k, messages.filter (·.employee = k) = messages'.filter (·.employee = k)) :
    SameRows (processOnce latest messages) (processOnce latest messages') := by
  constructor
  · refine perm_iff_count.2 fun e => ?_
    have hcount : ∀ l : List AdherenceEvent, l.count e =
        (l.filter (·.employee = e.employee)).count e := fun l =>
      (count_filter (by simp)).symm
    rw [hcount, (filter_processOnce _ _).1, h, ← (filter_processOnce _ _).1, ← hcount]
  · refine perm_iff_count.2 fun e => ?_
    have hcount : ∀ l : List AdherenceException, l.count e =
        (l.filter (·.employee = e.employee)).count e := fun l =>
      (count_filter (by simp)).symm
    rw [hcount, (filter_processOnce _ _).2, h, ← (filter_processOnce _ _).2, ← hcount]

/-! ## Runs -/

variable {messages : List Message} {s t : ConsumerState messages.length}
  {d : Delivery messages.length} {deliveries : List (Delivery messages.length)}

theorem deliver_cases (h : deliver latest messages s d = some t) :
    (d.commits = true ∧ t.committed = s.committed ++ [d.message] ∧
      t.tables = handlePayload latest s.tables (messages.get d.message)) ∨
    (t.committed = s.committed ∧ t.tables = s.tables) := by
  unfold deliver at h
  split at h
  · cases h
    split
    · exact .inl ⟨‹_›, rfl, rfl⟩
    · exact .inr ⟨rfl, rfl⟩
  · cases h

/-- The rows are those of what has been committed, in the order of the commits. -/
def Processed (latest : List AdherenceEvent → Option AdherenceEvent) (messages : List Message)
    (s : ConsumerState messages.length) : Prop :=
  s.tables = processOnce latest (s.committed.map messages.get)

theorem Processed.deliver (hs : Processed latest messages s)
    (h : deliver latest messages s d = some t) : Processed latest messages t := by
  unfold Processed at *
  obtain ⟨-, hcommitted, htables⟩ | ⟨hcommitted, htables⟩ := deliver_cases h
  · rw [htables, hcommitted, map_append, map_singleton, processOnce_concat, ← hs]
  · rw [htables, hcommitted, hs]

/-- The messages of each employee have committed in order. -/
def Ordered (messages : List Message) (s : ConsumerState messages.length) : Prop :=
  s.committed.Pairwise fun i j => (messages.get i).employee = (messages.get j).employee → i < j

theorem Ordered.deliver (hs : Ordered messages s) (hturn : InTurn messages s d)
    (h : deliver latest messages s d = some t) : Ordered messages t := by
  unfold Ordered at *
  obtain ⟨hcommits, hcommitted, -⟩ | ⟨hcommitted, -⟩ := deliver_cases h
  · rw [hcommitted, pairwise_append]
    refine ⟨hs, pairwise_singleton _ _, fun i hi j hj => ?_⟩
    obtain rfl := mem_singleton.1 hj
    exact hturn hcommits i hi
  · rw [hcommitted]
    exact hs

theorem Ordered.filter_eq (hs : Ordered messages s) (k : ℕ × ℕ) :
    (s.committed.map messages.get).filter (·.employee = k) =
      (committedMessages messages s.committed).filter (·.employee = k) := by
  rw [committedMessages, filter_map, filter_map, filter_filter]
  refine congrArg (map messages.get) ?_
  have hsorted : (s.committed.filter
      ((fun m : Message => decide (m.employee = k)) ∘ messages.get)).Pairwise (· < ·) := by
    refine pairwise_filter.2 (hs.imp fun hij hi hj => hij ?_)
    exact (of_decide_eq_true hi).trans (of_decide_eq_true hj).symm
  refine Perm.eq_of_pairwise' (r := (· < ·)) hsorted ((pairwise_lt_finRange _).filter _) ?_
  refine (perm_ext_iff_of_nodup (hsorted.imp ne_of_lt) ((nodup_finRange _).filter _)).2 fun i => ?_
  simp [mem_filter, and_comm]

/-- A message that commits twice has a row too many. -/
theorem Processed.nodup (hs : Processed latest messages s)
    (hsame : SameRows s.tables (processOnce latest (committedMessages messages s.committed))) :
    s.committed.Nodup := by
  have hlength := hsame.events.length_eq
  rw [hs, length_processOnce, length_processOnce, committedMessages, length_map,
    length_map] at hlength
  have hdedup : ((finRange messages.length).filter (· ∈ s.committed)).Perm
      s.committed.dedup :=
    (perm_ext_iff_of_nodup ((nodup_finRange _).filter _) (nodup_dedup _)).2 fun i => by simp
  rw [hdedup.length_eq] at hlength
  rw [← (dedup_sublist s.committed).eq_of_length hlength.symm]
  exact nodup_dedup _

/-- **When redeliveries leave no trace**: after any deliveries of a sequence of messages the rows
are those of processing the messages committed so far once and in order, if the messages of each
employee have committed once and in order. If one has committed twice they are not. -/
theorem sameRows_of_inTurn (h : Runs.exec (deliver latest messages) .init deliveries = some t) :
    (Runs.Meets (deliver latest messages) (InTurn messages) .init deliveries →
      SameRows t.tables (processOnce latest (committedMessages messages t.committed))) ∧
    (SameRows t.tables (processOnce latest (committedMessages messages t.committed)) →
      t.committed.Nodup) := by
  have hinit : Processed latest messages .init := Eq.refl (processOnce latest [])
  have hprocessed : Processed latest messages t :=
    Runs.exec_keeps (Processed latest messages) (fun _ _ _ => Processed.deliver) hinit h
  refine ⟨fun hmeets => ?_, hprocessed.nodup⟩
  have hnone : Ordered messages .init := Pairwise.nil
  have hordered : Ordered messages t :=
    Runs.exec_invariant (fun _ _ _ => Ordered.deliver) hnone hmeets h
  rw [hprocessed]
  exact sameRows_of_filter_eq hordered.filter_eq

end Consumer

/-! ## Messages of two agents -/

/-- Off shift, an agent is on a break and then in a call; another one is on a break as well. -/
def breakThenCall : List Message :=
  [⟨⟨7, 3, "break", 0⟩, none⟩, ⟨⟨7, 3, "call", 60000⟩, none⟩, ⟨⟨7, 4, "break", 90000⟩, none⟩]

/-- The second transaction rolls back at first, and is repeated after the one of the other agent. -/
def rolledBack : List (Delivery breakThenCall.length) :=
  [⟨⟨0, by decide⟩, true⟩, ⟨⟨1, by decide⟩, false⟩, ⟨⟨2, by decide⟩, true⟩, ⟨⟨1, by decide⟩, true⟩]

theorem rolledBack_sameRows : ∃ t,
    Runs.exec (deliver (argmax AdherenceEvent.timestamp) breakThenCall) .init rolledBack = some t ∧
    SameRows t.tables (processOnce (argmax AdherenceEvent.timestamp) breakThenCall) := by
  obtain ⟨t, ht, hall⟩ : ∃ t, Runs.exec (deliver (argmax AdherenceEvent.timestamp)
      breakThenCall) .init rolledBack = some t ∧ ∀ i, i ∈ t.committed :=
    Runs.exists_exec (by decide)
  have hsame := (sameRows_of_inTurn ht).1 (by decide)
  rw [committedMessages_of_all hall] at hsame
  exact ⟨t, ht, hsame⟩

/-- The acknowledgement of the first message is lost. -/
def ackLost : List (Delivery breakThenCall.length) :=
  [⟨⟨0, by decide⟩, true⟩, ⟨⟨1, by decide⟩, true⟩, ⟨⟨0, by decide⟩, true⟩, ⟨⟨2, by decide⟩, true⟩]

/-- The break has two rows. -/
theorem ackLost_not_sameRows : ∃ t,
    Runs.exec (deliver (argmax AdherenceEvent.timestamp) breakThenCall) .init ackLost =
      some t ∧ (t.tables.events.map (·.toActivity)) = ["break", "call", "break", "break"] ∧
    ¬ SameRows t.tables (processOnce (argmax AdherenceEvent.timestamp) breakThenCall) := by
  obtain ⟨t, ht, hevents⟩ : ∃ t, Runs.exec (deliver (argmax AdherenceEvent.timestamp)
      breakThenCall) .init ackLost = some t ∧
      (t.tables.events.map (·.toActivity)) = ["break", "call", "break", "break"] :=
    Runs.exists_exec (by decide)
  refine ⟨t, ht, hevents, fun hsame => ?_⟩
  have hlength := hsame.events.length_eq
  rw [length_processOnce, ← length_map (f := (·.toActivity)), hevents] at hlength
  cases hlength

end Workforce.Intraday
