import Workforce.Foundations.Runs
import Workforce.Foundations.Tables

/-!
# The outbox of the core schema

`core-outbox-publisher.service.ts` and `outbox-events.repository.ts`: any number of publishers claim
batches of unpublished rows under a lease, publish them to NATS one by one, and dead-letter a row
that has failed too often.

Each access to the broker and each transaction is a step, between which the other publishers move.
A publish is acknowledged or throws; a transaction commits, fails, or commits and throws because
the reply is lost; a publisher may crash anywhere. A lease may run out while its batch is still
being worked through, so two publishers may hold one row.

* `Inv`: a row that is published, or about to be marked, has been acknowledged.
* `outbox_loses_nothing`: the guarantees of the outbox, in every run.
-/

namespace Workforce.Eventing

open Tables List

-- processes that are numbered by `Fin 2` are in every module the same
instance neZeroTwo : NeZero 2 := ⟨Nat.succ_ne_zero 1⟩

/-! ## Rows and messages -/

structure OutboxEvent (Payload : Type*) where
  id : ℕ
  tenantId : ℕ
  subject : String
  payload : Payload
  createdAt : ℤ
  publishedAt : Option ℤ
  claimedAt : Option ℤ
  attempts : ℕ
  lastError : Option String

/-- `BATCH_SIZE`. -/
def batchSize : ℕ := 100

/-- `MAX_ATTEMPTS_BEFORE_DLQ`. -/
def maxAttemptsBeforeDlq : ℕ := 5

/-- `OUTBOX_CLAIM_LEASE_SECONDS`. -/
def outboxClaimLeaseSeconds : ℤ := 60

/-- The lease, in milliseconds as all times. -/
def outboxClaimLease : ℤ := outboxClaimLeaseSeconds * 1000

/-- `SUBJECTS.DLQ`. -/
def dlqSubject : String := "agno.core.dlq.v1"

/-- The event itself, or its envelope in the dead-letter subject. -/
inductive Body (Payload : Type*)
  | event (payload : Payload)
  | deadLetter (originalSubject : String) (payload : Payload) (error : String)

/-- The `Nats-Msg-Id`: the id of the row, or the id with the suffix `:dlq`. -/
inductive MsgId
  | row (id : ℕ)
  | dlq (id : ℕ)

structure Message (Payload : Type*) where
  subject : String
  body : Body Payload
  msgId : MsgId

variable {Payload : Type*}

namespace OutboxEvent

/-- What `drain` publishes. -/
def message (e : OutboxEvent Payload) : Message Payload := ⟨e.subject, .event e.payload, .row e.id⟩

/-- What `routeToDlq` publishes. -/
def deadLetter (e : OutboxEvent Payload) (error : String) : Message Payload :=
  ⟨dlqSubject, .deadLetter e.subject e.payload error, .dlq e.id⟩

/-- The `WHERE` clause of the claim. -/
def claimable (now : ℤ) (e : OutboxEvent Payload) : Bool :=
  e.publishedAt.isNone &&
    match e.claimedAt with
    | none => true
    | some claimedAt => claimedAt < now - outboxClaimLease

/-- A failure with these attempts goes to the dead letters. -/
def exhausted (e : OutboxEvent Payload) : Bool := maxAttemptsBeforeDlq ≤ e.attempts + 1

end OutboxEvent

/-- A row as `insertWithinTransaction` inserts it. -/
def newEvent (id tenantId : ℕ) (subject : String) (payload : Payload) (now : ℤ) :
    OutboxEvent Payload :=
  { id := id
    tenantId := tenantId
    subject := subject
    payload := payload
    createdAt := now
    publishedAt := none
    claimedAt := none
    attempts := 0
    lastError := none }

/-! ## The repository -/

section Repository

variable (rows : List (OutboxEvent Payload))

/-- The ids that the claim takes: of the claimable rows that no other transaction has locked, the
oldest. -/
def claimedIds (now : ℤ) (locked : List ℕ) : List ℕ :=
  (((rows.filter fun e => e.claimable now && e.id ∉ locked).mergeSort
    fun e e' => e.createdAt ≤ e'.createdAt).take batchSize).map (·.id)

/-- The `UPDATE` of the claim. -/
def claimRows (now : ℤ) (ids : List ℕ) : List (OutboxEvent Payload) :=
  rows.map fun e => if e.id ∈ ids then { e with claimedAt := some now } else e

/-- `markPublished`. -/
def markPublished (id : ℕ) (now : ℤ) : List (OutboxEvent Payload) :=
  modify (·.id) id (fun e => { e with publishedAt := some now }) rows

/-- `recordFailure`. -/
def recordFailure (id : ℕ) (error : String) : List (OutboxEvent Payload) :=
  modify (·.id) id (fun e => { e with attempts := e.attempts + 1, lastError := some error }) rows

end Repository

/-! ## Publishers and steps -/

/-- Where a publisher is in `drain`. The events are as the claim returned them. -/
inductive Publisher (Payload : Type*)
  | idle
  | draining (batch : List (OutboxEvent Payload))
  /-- The event has been acknowledged. -/
  | published (e : OutboxEvent Payload) (rest : List (OutboxEvent Payload))
  /-- The row has been marked; the webhooks are next. -/
  | marked (e : OutboxEvent Payload) (rest : List (OutboxEvent Payload))
  /-- The `catch` of `drain`. -/
  | caught (e : OutboxEvent Payload) (rest : List (OutboxEvent Payload)) (message : String)
  /-- The dead letter has been acknowledged. -/
  | deadLettered (e : OutboxEvent Payload) (rest : List (OutboxEvent Payload))
  /-- The `catch` of `routeToDlq`. -/
  | dlqCaught (e : OutboxEvent Payload) (rest : List (OutboxEvent Payload)) (message : String)

/-- How a transaction ends for its caller. -/
inductive Commit
  | ok
  /-- It has committed, but the caller sees an error. -/
  | lost (message : String)
  | failed (message : String)

/-- The error that the caller sees. -/
def Commit.error : Commit → Option String
  | .ok => none
  | .lost message => some message
  | .failed message => some message

/-- It has committed. -/
def Commit.Took : Commit → Prop
  | .ok | .lost _ => True
  | .failed _ => False

/-- Its caller knows how it has ended. -/
def Commit.Told : Commit → Prop
  | .ok | .failed _ => True
  | .lost _ => False

instance (c : Commit) : Decidable c.Took := by
  cases c <;> unfold Commit.Took <;> infer_instance

instance (c : Commit) : Decidable c.Told := by
  cases c <;> unfold Commit.Told <;> infer_instance

variable {c : Commit}

theorem Commit.took_of_error (h : c.error = none) : c.Took := by
  cases c with
  | ok => trivial
  | lost message => cases h
  | failed message => cases h

theorem Commit.error_eq_none (htook : c.Took) (htold : c.Told) : c.error = none := by
  cases c with
  | ok => rfl
  | lost message => exact htold.elim
  | failed message => exact htook.elim

theorem Commit.not_told_of_error {message : String} (htook : c.Took) (h : c.error = some message) :
    ¬ c.Told := by
  cases c with
  | ok => cases h
  | lost message => exact id
  | failed message => exact htook.elim

/-- The table, what the broker has acknowledged, and where every publisher is. -/
structure State (Payload : Type*) where
  clock : ℤ
  rows : List (OutboxEvent Payload)
  acked : List (Message Payload)
  publishers : ℕ → Publisher Payload

namespace State

variable (s : State Payload)

/-- The table is empty. -/
def init : State Payload := ⟨0, [], [], fun _ => .idle⟩

def setPublisher (i : ℕ) (p : Publisher Payload) : State Payload :=
  { s with publishers := Function.update s.publishers i p }

@[simp] theorem setPublisher_self (i : ℕ) (p : Publisher Payload) :
    (s.setPublisher i p).publishers i = p :=
  Function.update_self ..

theorem setPublisher_of_ne {i j : ℕ} (h : j ≠ i) (p : Publisher Payload) :
    (s.setPublisher i p).publishers j = s.publishers j :=
  Function.update_of_ne h ..

/-- The rows after a transaction. -/
def commit (c : Commit) (rows : List (OutboxEvent Payload)) : State Payload :=
  match c with
  | .ok | .lost _ => { s with rows := rows }
  | .failed _ => s

end State

/-- A statement of a publisher or of a producer, or time that passes. -/
inductive Action (Payload : Type*)
  | insert (id tenantId : ℕ) (subject : String) (payload : Payload)
  | tick (d : ℕ)
  | claim (i : ℕ) (locked : List ℕ)
  /-- The broker acknowledges the event, or the call throws. -/
  | publish (i : ℕ) (error : Option String)
  | mark (i : ℕ) (c : Commit)
  /-- `fanOut`, which swallows its errors. -/
  | fanOut (i : ℕ)
  | deadLetter (i : ℕ) (error : Option String)
  | markDeadLettered (i : ℕ) (c : Commit)
  | recordFailure (i : ℕ) (c : Commit)
  | finish (i : ℕ)
  | crash (i : ℕ)

/-- One step. -/
def step (s : State Payload) : Action Payload → Option (State Payload)
  | .insert id tenantId subject payload =>
    if id ∈ s.rows.map (·.id) then none
    else some { s with rows := s.rows ++ [newEvent id tenantId subject payload s.clock] }
  | .tick d => some { s with clock := s.clock + d }
  | .claim i locked =>
    match s.publishers i with
    | .idle =>
      let ids := claimedIds s.rows s.clock locked
      let rows := claimRows s.rows s.clock ids
      some ({ s with rows := rows }.setPublisher i (.draining (rows.filter (·.id ∈ ids))))
    | _ => none
  | .publish i error =>
    match s.publishers i with
    | .draining (e :: rest) =>
      match error with
      | none => some ({ s with acked := e.message :: s.acked }.setPublisher i (.published e rest))
      | some message => some (s.setPublisher i (.caught e rest message))
    | _ => none
  | .mark i c =>
    match s.publishers i with
    | .published e rest =>
      let t := s.commit c (markPublished s.rows e.id s.clock)
      match c.error with
      | none => some (t.setPublisher i (.marked e rest))
      | some message => some (t.setPublisher i (.caught e rest message))
    | _ => none
  | .fanOut i =>
    match s.publishers i with
    | .marked _ rest => some (s.setPublisher i (.draining rest))
    | _ => none
  | .deadLetter i error =>
    match s.publishers i with
    | .caught e rest message =>
      if e.exhausted then
        match error with
        | none =>
          some ({ s with acked := e.deadLetter message :: s.acked }.setPublisher i
            (.deadLettered e rest))
        | some message => some (s.setPublisher i (.dlqCaught e rest message))
      else none
    | _ => none
  | .markDeadLettered i c =>
    match s.publishers i with
    | .deadLettered e rest =>
      let t := s.commit c (markPublished s.rows e.id s.clock)
      match c.error with
      | none => some (t.setPublisher i (.draining rest))
      | some message => some (t.setPublisher i (.dlqCaught e rest message))
    | _ => none
  | .recordFailure i c =>
    let record (e : OutboxEvent Payload) (rest : List (OutboxEvent Payload)) (message : String) :=
      (s.commit c (recordFailure s.rows e.id message)).setPublisher i
        (if c.error.isNone then .draining rest else .idle)
    match s.publishers i with
    | .caught e rest message => if e.exhausted then none else some (record e rest message)
    | .dlqCaught e rest message =>
      some (record e rest (s!"DLQ publish also failed: {message}"))
    | _ => none
  | .finish i =>
    match s.publishers i with
    | .draining [] => some (s.setPublisher i .idle)
    | _ => none
  | .crash i => some (s.setPublisher i .idle)

/-! ## What a step does -/

/-- Two versions of one row. -/
structure OutboxEvent.Same (e e' : OutboxEvent Payload) : Prop where
  id : e.id = e'.id
  subject : e.subject = e'.subject
  payload : e.payload = e'.payload

/-- The payload has been acknowledged, on the subject of the row or as a dead letter. -/
def OutboxEvent.Acknowledged (acked : List (Message Payload)) (e : OutboxEvent Payload) : Prop :=
  e.message ∈ acked ∨ ∃ error, e.deadLetter error ∈ acked

/-- An update of the table: it makes no row another one, publishes only what has been acknowledged,
unpublishes nothing, and claims at this instant. -/
structure Keeps (s : State Payload) (f : OutboxEvent Payload → OutboxEvent Payload) : Prop where
  same : ∀ e, (f e).Same e
  publishes : ∀ e ∈ s.rows, (f e).publishedAt.isSome → e.publishedAt.isSome ∨
    e.Acknowledged s.acked
  published : ∀ e, e.publishedAt.isSome → (f e).publishedAt.isSome
  claimed : ∀ e, (f e).claimedAt = e.claimedAt ∨ (f e).claimedAt = some s.clock

/-- The events that a publisher holds. -/
def Publisher.events : Publisher Payload → List (OutboxEvent Payload)
  | .idle => []
  | .draining batch => batch
  | .published e rest | .marked e rest | .caught e rest _ | .deadLettered e rest
  | .dlqCaught e rest _ => e :: rest

/-- What a publisher is about to mark has been acknowledged. -/
def Publisher.Backed (acked : List (Message Payload)) : Publisher Payload → Prop
  | .published e _ | .deadLettered e _ => e.Acknowledged acked
  | _ => True

/-- The events are versions of rows. -/
def FromRows (rows events : List (OutboxEvent Payload)) : Prop :=
  ∀ e ∈ events, ∃ row ∈ rows, e.Same row

/-- What a step does. -/
inductive Move (s : State Payload) : State Payload → Prop
  | insert (id tenantId : ℕ) (subject : String) (payload : Payload)
      (hid : id ∉ s.rows.map (·.id)) :
      Move s { s with rows := s.rows ++ [newEvent id tenantId subject payload s.clock] }
  | tick (d : ℕ) : Move s { s with clock := s.clock + d }
  | work {i : ℕ} {f : OutboxEvent Payload → OutboxEvent Payload} {acked : List (Message Payload)}
      {p : Publisher Payload} (hf : Keeps s f) (hacked : s.acked ⊆ acked)
      (hevents : FromRows s.rows p.events) (hp : p.Backed acked) :
      Move s ({ s with rows := s.rows.map f, acked := acked }.setPublisher i p)

structure Inv (s : State Payload) : Prop where
  ids : (s.rows.map (·.id)).Nodup
  claimed : ∀ e ∈ s.rows, ∀ claimedAt ∈ e.claimedAt, claimedAt ≤ s.clock
  published : ∀ e ∈ s.rows, e.publishedAt.isSome → e.Acknowledged s.acked
  events : ∀ i, FromRows s.rows (s.publishers i).events
  backed : ∀ i, (s.publishers i).Backed s.acked

namespace OutboxEvent

theorem Same.refl (e : OutboxEvent Payload) : e.Same e := ⟨rfl, rfl, rfl⟩

theorem Same.trans {e e' e'' : OutboxEvent Payload} (h : e.Same e') (h' : e'.Same e'') :
    e.Same e'' :=
  ⟨h.id.trans h'.id, h.subject.trans h'.subject, h.payload.trans h'.payload⟩

theorem Same.symm {e e' : OutboxEvent Payload} (h : e.Same e') : e'.Same e :=
  ⟨h.id.symm, h.subject.symm, h.payload.symm⟩

theorem Acknowledged.mono {acked acked' : List (Message Payload)} (h : acked ⊆ acked')
    {e : OutboxEvent Payload} (he : e.Acknowledged acked) : e.Acknowledged acked' :=
  he.imp (fun hm => h hm) fun ⟨error, hm⟩ => ⟨error, h hm⟩

theorem Acknowledged.of_same {acked : List (Message Payload)} {e e' : OutboxEvent Payload}
    (h : e.Same e') (he : e.Acknowledged acked) : e'.Acknowledged acked := by
  unfold Acknowledged message deadLetter at *
  rw [← h.id, ← h.subject, ← h.payload]
  exact he

end OutboxEvent

variable {s t : State Payload}

theorem keeps_id : Keeps s id where
  same := .refl
  publishes := fun _ _ h => .inl h
  published := fun _ h => h
  claimed := fun _ => .inl rfl

theorem keeps_modify {id : ℕ} {g : OutboxEvent Payload → OutboxEvent Payload}
    (hsame : ∀ e, (g e).Same e) (hclaimed : ∀ e, (g e).claimedAt = e.claimedAt)
    (hpublished : ∀ e, e.publishedAt.isSome → (g e).publishedAt.isSome)
    (hpublishes : ∀ e ∈ s.rows, e.id = id → (g e).publishedAt.isSome →
      e.publishedAt.isSome ∨ e.Acknowledged s.acked) :
    Keeps s fun e => if e.id = id then g e else e where
  same := fun e => by
    split
    · exact hsame e
    · exact .refl e
  publishes := fun e he h => by
    split at h
    · rename_i hid
      exact hpublishes e he hid h
    · exact .inl h
  published := fun e h => by
    split
    · exact hpublished e h
    · exact h
  claimed := fun e => by
    split
    · exact .inl (hclaimed e)
    · exact .inl rfl

theorem keeps_claim (ids : List ℕ) :
    Keeps s fun e => if e.id ∈ ids then { e with claimedAt := some s.clock } else e where
  same := fun e => by split <;> exact ⟨rfl, rfl, rfl⟩
  publishes := fun e _ h => by
    split at h
    · exact .inl h
    · exact .inl h
  published := fun e h => by split <;> exact h
  claimed := fun e => by
    split
    · exact .inr rfl
    · exact .inl rfl

variable {rest : List (OutboxEvent Payload)}

theorem Inv.same_of_id (hs : Inv s) {e row : OutboxEvent Payload}
    (hevents : FromRows s.rows (e :: rest)) (hrow : row ∈ s.rows) (hid : row.id = e.id) :
    e.Same row := by
  obtain ⟨row', hrow', hsame⟩ := hevents e mem_cons_self
  rwa [eq_of_key_eq hs.ids hrow hrow' (hid.trans hsame.id)]

variable {e : OutboxEvent Payload}

theorem keeps_markPublished (hs : Inv s) (hevents : FromRows s.rows (e :: rest))
    (hacked : e.Acknowledged s.acked) (now : ℤ) :
    Keeps s fun row => if row.id = e.id then { row with publishedAt := some now } else row :=
  keeps_modify (fun _ => ⟨rfl, rfl, rfl⟩) (fun _ => rfl) (fun _ _ => rfl)
    fun _ hrow hid _ => .inr (hacked.of_same (hs.same_of_id hevents hrow hid))

theorem keeps_recordFailure (id : ℕ) (error : String) :
    Keeps s fun row => if row.id = id then
      { row with attempts := row.attempts + 1, lastError := some error } else row :=
  keeps_modify (fun _ => ⟨rfl, rfl, rfl⟩) (fun _ => rfl) (fun _ h => h) fun _ _ _ h => .inl h

variable {i : ℕ} {p : Publisher Payload}

theorem move_setPublisher {acked : List (Message Payload)} (hacked : s.acked ⊆ acked)
    (hevents : FromRows s.rows p.events) (hp : p.Backed acked) :
    Move s ({ s with acked := acked }.setPublisher i p) := by
  have hmove := Move.work (i := i) keeps_id hacked hevents hp
  rwa [map_id] at hmove

theorem move_commit {f : OutboxEvent Payload → OutboxEvent Payload} (hf : Keeps s f)
    (hevents : FromRows s.rows p.events) (hp : p.Backed s.acked) :
    Move s ((s.commit c (s.rows.map f)).setPublisher i p) := by
  cases c with
  | ok => exact .work hf (Subset.refl _) hevents hp
  | lost message => exact .work hf (Subset.refl _) hevents hp
  | failed message => exact move_setPublisher (Subset.refl _) hevents hp

theorem fromRows_tail {rows rest : List (OutboxEvent Payload)} (h : FromRows rows (e :: rest)) :
    FromRows rows rest :=
  fun e' he' => h e' (mem_cons_of_mem _ he')

theorem Inv.fromRows (hs : Inv s) (hi : s.publishers i = p) :
    FromRows s.rows p.events :=
  hi ▸ hs.events i

theorem Inv.backed_of (hs : Inv s) (hi : s.publishers i = p) :
    p.Backed s.acked :=
  hi ▸ hs.backed i

/-- A failure is recorded, and the publisher goes on with the next event unless that fails too. -/
theorem move_recordFailure (hevents : FromRows s.rows (e :: rest)) (message : String) :
    Move s ((s.commit c (recordFailure s.rows e.id message)).setPublisher i
      (if c.error.isNone then .draining rest else .idle)) := by
  split
  · exact move_commit (keeps_recordFailure e.id message) (fromRows_tail hevents) trivial
  · exact move_commit (keeps_recordFailure e.id message) (fun _ he => by cases he) trivial

theorem step_move {a : Action Payload} (hs : Inv s) (h : step s a = some t) : Move s t := by
  cases a with
  | insert id tenantId subject payload =>
    simp only [step] at h
    split at h
    · cases h
    · rename_i hid
      cases h
      exact .insert id tenantId subject payload hid
  | tick d =>
    cases h
    exact .tick d
  | claim i locked =>
    simp only [step] at h
    split at h
    · cases h
      refine .work (keeps_claim _) (Subset.refl _) (fun e he => ?_) trivial
      obtain ⟨row, hrow, rfl⟩ := mem_map.1 (mem_filter.1 he).1
      exact ⟨row, hrow, (keeps_claim _).same row⟩
    · cases h
  | publish i error =>
    simp only [step] at h
    split at h
    · rename_i e rest hi
      have hevents := hs.fromRows hi
      cases error with
      | none =>
        cases h
        exact move_setPublisher (subset_cons_self _ _) hevents (.inl mem_cons_self)
      | some message =>
        cases h
        exact move_setPublisher (Subset.refl _) hevents trivial
    · cases h
  | mark i c =>
    simp only [step] at h
    split at h
    · rename_i e rest hi
      have hevents := hs.fromRows hi
      have hf := keeps_markPublished hs hevents (hs.backed_of hi) s.clock
      split at h
      · cases h
        exact move_commit hf hevents trivial
      · cases h
        exact move_commit hf hevents trivial
    · cases h
  | fanOut i =>
    simp only [step] at h
    split at h
    · rename_i e rest hi
      cases h
      exact move_setPublisher (Subset.refl _) (fromRows_tail (hs.fromRows hi)) trivial
    · cases h
  | deadLetter i error =>
    simp only [step] at h
    split at h
    · rename_i e rest message hi
      have hevents := hs.fromRows hi
      split at h
      · cases error with
        | none =>
          cases h
          exact move_setPublisher (subset_cons_self _ _) hevents (.inr ⟨message, mem_cons_self⟩)
        | some error =>
          cases h
          exact move_setPublisher (Subset.refl _) hevents trivial
      · cases h
    · cases h
  | markDeadLettered i c =>
    simp only [step] at h
    split at h
    · rename_i e rest hi
      have hevents := hs.fromRows hi
      have hf := keeps_markPublished hs hevents (hs.backed_of hi) s.clock
      split at h
      · cases h
        exact move_commit hf (fromRows_tail hevents) trivial
      · cases h
        exact move_commit hf hevents trivial
    · cases h
  | recordFailure i c =>
    simp only [step] at h
    split at h
    · rename_i e rest message hi
      split at h
      · cases h
      · cases h
        exact move_recordFailure (hs.fromRows hi) message
    · rename_i e rest message hi
      cases h
      exact move_recordFailure (hs.fromRows hi) _
    · cases h
  | finish i =>
    simp only [step] at h
    split at h
    · cases h
      exact move_setPublisher (Subset.refl _) (fun _ he => by cases he) trivial
    · cases h
  | crash i =>
    cases h
    exact move_setPublisher (Subset.refl _) (fun _ he => by cases he) trivial

/-! ## The invariant -/

theorem inv_init : Inv (State.init : State Payload) where
  ids := nodup_nil
  claimed := fun _ he => by cases he
  published := fun _ he => by cases he
  events := fun _ _ he => by cases he
  backed := fun _ => trivial

theorem FromRows.mono {rows rows' events : List (OutboxEvent Payload)}
    (h : FromRows rows events) (hrows : ∀ row ∈ rows, ∃ row' ∈ rows', row.Same row') :
    FromRows rows' events := by
  intro e he
  obtain ⟨row, hrow, hsame⟩ := h e he
  obtain ⟨row', hrow', hsame'⟩ := hrows row hrow
  exact ⟨row', hrow', hsame.trans hsame'⟩

theorem Publisher.Backed.mono {acked acked' : List (Message Payload)} (h : acked ⊆ acked')
    (hp : p.Backed acked) : p.Backed acked' := by
  cases p with
  | published e rest => exact OutboxEvent.Acknowledged.mono h hp
  | deadLettered e rest => exact OutboxEvent.Acknowledged.mono h hp
  | idle | draining | marked | caught | dlqCaught => trivial

/-- A row of the table has a later version after a step, which is published if it was. -/
theorem move_row (h : Move s t) (he : e ∈ s.rows) :
    ∃ e' ∈ t.rows, e.Same e' ∧ (e.publishedAt.isSome → e'.publishedAt.isSome) := by
  cases h with
  | insert => exact ⟨e, mem_append_left _ he, .refl e, fun h => h⟩
  | tick => exact ⟨e, he, .refl e, fun h => h⟩
  | @work i f acked p hf =>
    exact ⟨f e, mem_map_of_mem he, (hf.same e).symm, hf.published e⟩

theorem inv_move (hs : Inv s) (h : Move s t) : Inv t := by
  have hrows : ∀ row ∈ s.rows, ∃ row' ∈ t.rows, row.Same row' := by
    intro row hrow
    obtain ⟨row', hrow', hsame, -⟩ := move_row h hrow
    exact ⟨row', hrow', hsame⟩
  cases h with
  | insert id tenantId subject payload hid =>
    have hnew : ∀ e ∈ s.rows, e.id ≠ id := fun e he heq => hid (heq ▸ mem_map_of_mem he)
    refine ⟨nodup_append_singleton hs.ids hnew, fun e he => ?_, fun e he hp => ?_,
      fun i => (hs.events i).mono hrows, hs.backed⟩
    · rcases Tables.mem_concat.1 he with he | rfl
      · exact hs.claimed e he
      · exact fun _ hc => by cases hc
    · rcases Tables.mem_concat.1 he with he | rfl
      · exact hs.published e he hp
      · cases hp
  | tick d =>
    refine ⟨hs.ids, fun e he c hc => ?_, hs.published, hs.events, hs.backed⟩
    have hle := hs.claimed e he c hc
    change c ≤ s.clock + d
    omega
  | @work i f acked p hf hacked hevents hp =>
    refine ⟨?_, fun e he c hc => ?_, fun e he hpublished => ?_, fun j => ?_, fun j => ?_⟩
    · have hids : (s.rows.map f).map (·.id) = s.rows.map (·.id) := by
        rw [map_map]
        exact map_congr_left fun e _ => (hf.same e).id
      exact hids ▸ hs.ids
    · obtain ⟨e₀, he₀, rfl⟩ := mem_map.1 he
      rcases hf.claimed e₀ with heq | heq
      · exact hs.claimed e₀ he₀ c (heq ▸ hc)
      · rw [heq] at hc
        exact (Option.some.inj hc).symm.le
    · obtain ⟨e₀, he₀, rfl⟩ := mem_map.1 he
      refine (OutboxEvent.Acknowledged.of_same (hf.same e₀).symm ?_).mono hacked
      exact (hf.publishes e₀ he₀ hpublished).elim (hs.published e₀ he₀) fun h => h
    · by_cases hj : j = i
      · subst hj
        rw [State.setPublisher_self]
        exact hevents.mono hrows
      · rw [State.setPublisher_of_ne _ hj]
        exact (hs.events j).mono hrows
    · by_cases hj : j = i
      · subst hj
        rw [State.setPublisher_self]
        exact hp
      · rw [State.setPublisher_of_ne _ hj]
        exact (hs.backed j).mono hacked

theorem inv_step {a : Action Payload} (hs : Inv s) (h : step s a = some t) : Inv t :=
  inv_move hs (step_move hs h)

/-! ## Claiming again -/

/-- A row is claimable exactly when it is unpublished and its lease, if it has one, is over. -/
theorem claimable_iff {now : ℤ} :
    e.claimable now ↔
      e.publishedAt = none ∧ ∀ claimedAt ∈ e.claimedAt, claimedAt + outboxClaimLease < now := by
  rw [OutboxEvent.claimable, Bool.and_eq_true, Option.isNone_iff_eq_none]
  refine and_congr_right fun _ => ?_
  cases e.claimedAt with
  | none => simp
  | some c =>
    simp only [decide_eq_true_eq, Option.mem_some_iff, forall_eq']
    omega

theorem step_claim (hi : s.publishers i = .idle) (locked : List ℕ) :
    step s (.claim i locked) = some
      ({ s with rows := claimRows s.rows s.clock (claimedIds s.rows s.clock locked) }.setPublisher i
        (.draining ((claimRows s.rows s.clock (claimedIds s.rows s.clock locked)).filter
          (·.id ∈ claimedIds s.rows s.clock locked)))) := by
  simp only [step, hi]

/-- The claim of an idle publisher takes a claimable row, unless another transaction has it or a
full batch of claimable rows goes first. -/
theorem claim_takes {locked : List ℕ} (hi : s.publishers i = .idle) (he : e ∈ s.rows)
    (hclaim : e.claimable s.clock) (hlocked : e.id ∉ locked)
    (hfirst : (s.rows.filter fun e' => e'.claimable s.clock && e'.id ∉ locked).countP
      (fun e' => e'.createdAt ≤ e.createdAt) ≤ batchSize) :
    ∃ t batch, step s (.claim i locked) = some t ∧ t.publishers i = .draining batch ∧
      { e with claimedAt := some s.clock } ∈ batch := by
  have hid : e.id ∈ claimedIds s.rows s.clock locked := by
    refine mem_map_of_mem (mem_take_mergeSort (f := OutboxEvent.createdAt) ?_ hfirst)
    rw [mem_filter]
    exact ⟨he, by simp [hclaim, hlocked]⟩
  have hstep := step_claim hi locked
  refine ⟨_, _, hstep, State.setPublisher_self .., ?_⟩
  rw [mem_filter]
  refine ⟨mem_map.2 ⟨e, he, if_pos hid⟩, decide_eq_true hid⟩

theorem exec_published {as : List (Action Payload)} (hs : Inv s)
    (h : Runs.exec step s as = some t) (he : e ∈ s.rows) (hp : e.publishedAt.isSome) :
    ∃ e' ∈ t.rows, e.Same e' ∧ e'.publishedAt.isSome := by
  refine (Runs.exec_keeps
    (fun u => Inv u ∧ ∃ e' ∈ u.rows, e.Same e' ∧ e'.publishedAt.isSome) ?_
    ⟨hs, e, he, .refl e, hp⟩ h).2
  rintro u a v ⟨hu, e', he', hsame, hp'⟩ hstep
  obtain ⟨e'', he'', hsame', hp''⟩ := move_row (step_move hu hstep) he'
  exact ⟨inv_step hu hstep, e'', he'', hsame.trans hsame', hp'' hp'⟩

/-- **The outbox loses nothing.** In every state that a run of any publishers reaches: a row is
published only if its payload has been acknowledged, on its own subject or as a dead letter; a
published row stays published whatever happens next; and an unpublished row is claimable as soon as
its lease is over, which it is when the lease has passed once more, and then the next claim takes
it in its turn. -/
theorem outbox_loses_nothing {as : List (Action Payload)} {s : State Payload}
    (h : Runs.exec step State.init as = some s) :
    (∀ e ∈ s.rows, e.publishedAt.isSome → e.Acknowledged s.acked) ∧
    (∀ bs t, Runs.exec step s bs = some t → ∀ e ∈ s.rows, e.publishedAt.isSome →
      ∃ e' ∈ t.rows, e.Same e' ∧ e'.publishedAt.isSome) ∧
    ∀ e ∈ s.rows, e.publishedAt = none →
      (∀ now, (∀ claimedAt ∈ e.claimedAt, claimedAt + outboxClaimLease < now) →
        e.claimable now) ∧
      (∀ now, s.clock + outboxClaimLease < now → e.claimable now) ∧
      (e.claimable s.clock → ∀ i locked, s.publishers i = .idle → e.id ∉ locked →
        (s.rows.filter fun e' => e'.claimable s.clock && e'.id ∉ locked).countP
          (fun e' => e'.createdAt ≤ e.createdAt) ≤ batchSize →
        ∃ t batch, step s (.claim i locked) = some t ∧ t.publishers i = .draining batch ∧
          { e with claimedAt := some s.clock } ∈ batch) := by
  have hs : Inv s := Runs.exec_keeps Inv (fun _ _ _ => inv_step) inv_init h
  refine ⟨hs.published, fun bs t ht e he hp => exec_published hs ht he hp, fun e he hp => ?_⟩
  refine ⟨fun now hnow => claimable_iff.2 ⟨hp, hnow⟩, fun now hnow => ?_,
    fun hclaim i locked hi hlocked hfirst => claim_takes hi he hclaim hlocked hfirst⟩
  refine claimable_iff.2 ⟨hp, fun c hc => ?_⟩
  have hle := hs.claimed e he c hc
  omega

/-- One row is published and marked; the publisher of another crashes. -/
def twoEvents : List (Action ℕ) :=
  [.insert 1 7 "agno.core.a.v1" 10, .claim 0 [], .publish 0 none, .mark 0 .ok,
    .insert 2 7 "agno.core.b.v1" 20, .claim 1 [], .crash 1]

/-- The first row has been acknowledged, the second is claimable after the lease. -/
theorem twoEvents_kept : ∃ s, Runs.exec step State.init twoEvents = some s ∧
    s.rows.length = 2 ∧
    ∀ e ∈ s.rows, e.Acknowledged s.acked ∨ e.claimable (outboxClaimLease + 1) := by
  have hrun : (Runs.exec step State.init twoEvents).map (fun s => (s.clock, s.rows.length)) =
      some (0, 2) := by
    simp [twoEvents, Runs.exec, step, State.init, newEvent, claimedIds, claimRows, batchSize,
      OutboxEvent.claimable, State.setPublisher, Commit.error, State.commit, markPublished,
      Tables.modify]
  obtain ⟨s, hs, hresult⟩ := Option.map_eq_some_iff.1 hrun
  obtain ⟨hclock, hlength⟩ := Prod.mk.inj hresult
  obtain ⟨hacked, -, hwaits⟩ := outbox_loses_nothing hs
  refine ⟨s, hs, hlength, fun e he => ?_⟩
  cases hp : e.publishedAt with
  | some publishedAt => exact .inl (hacked e he (by rw [hp]; rfl))
  | none => exact .inr ((hwaits e he hp).2.1 _ (by rw [hclock]; decide))

end Workforce.Eventing
