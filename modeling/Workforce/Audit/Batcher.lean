import Workforce.Eventing.Outbox

/-!
# The durable queue of audit events

`audit-event-batcher.service.ts` and `pending-audit-events.repository.ts`: an audit event is
inserted into `core.pending_audit_events`; a flush reads a batch of the table, records each event in
the audit log and deletes its row. An event that has failed three times goes to the dead letters.

Reading the batch, recording, publishing and deleting are separate steps, between which the other
batchers move. No batcher claims what it reads. A transaction commits, fails, or commits and throws
because the reply is lost; so does a publish; a batcher may stop anywhere.

* `copies_pos`: an event that has left the table has been recorded or dead-lettered.
* `recorded_once`: and only once, unless two batchers hold it together, or its batcher fails between
  recording it and deleting its row.
-/

namespace Workforce.Audit

open Runs Tables Eventing List Function

/-! ## Events and rows -/

inductive AuditActorType
  | user | system | aiAgent
  deriving DecidableEq

/-- What is to be recorded. `J` is the type of JSON objects. -/
structure AuditEntry (J : Type*) where
  tenantId : ℕ
  actorId : Option String
  actorType : AuditActorType
  action : String
  resourceType : String
  resourceId : Option String
  beforeState : Option J
  afterState : Option J
  aiRationale : Option J

structure PendingAuditEvent (J : Type*) extends AuditEntry J where
  id : ℕ
  createdAt : ℤ
  attempts : ℕ
  lastError : Option String

/-- A row of the audit log. It does not say which event it comes from: `source` is for the
statements. -/
structure AuditLog (J : Type*) extends AuditEntry J where
  id : ℕ
  createdAt : ℤ
  source : ℕ

/-- What is published to `SUBJECTS.DLQ`. -/
structure DeadLetter (J : Type*) where
  originalSubject : String
  payload : PendingAuditEvent J
  error : String

/-- `FLUSH_MAX_RETRIES`. -/
def flushMaxRetries : ℕ := 3

/-- `FLUSH_BATCH_SIZE`. -/
def flushBatchSize : ℕ := 100

/-- `SUBJECTS.AUDIT_CREATED`. -/
def auditCreated : String := "agno.core.audit.created.v1"

inductive AuditError
  | aiRationaleRequired
  | tenantMismatch (expectedTenantId actualTenantId : ℕ)

def AuditError.message : AuditError → String
  | .aiRationaleRequired =>
    "ai_rationale is required on every audit_log entry where actorType is \"ai_agent\"."
  | .tenantMismatch expected actual =>
    s!"Entity tenant_id ({actual}) does not match the bound tenant context ({expected})."

variable {J : Type*}

/-- An entry by an agent has a rationale. -/
def AuditEntry.checkRationale (entry : AuditEntry J) : Except AuditError Unit :=
  if entry.actorType = .aiAgent ∧ entry.aiRationale.isNone then .error .aiRationaleRequired
  else .ok ()

/-- The checks of `record` in the context of a tenant. -/
def AuditEntry.checkRecord (tenantId : ℕ) (entry : AuditEntry J) : Except AuditError Unit :=
  if entry.tenantId ≠ tenantId then .error (.tenantMismatch tenantId entry.tenantId)
  else entry.checkRationale

/-- A failure with these attempts goes to the dead letters. -/
def PendingAuditEvent.exhausted (e : PendingAuditEvent J) : Bool :=
  flushMaxRetries ≤ e.attempts + 1

/-- A row as `enqueue` inserts it. -/
def newPending (id : ℕ) (entry : AuditEntry J) (now : ℤ) : PendingAuditEvent J :=
  { entry with id := id, createdAt := now, attempts := 0, lastError := none }

/-! ## Batchers -/

/-- Where a batcher is in `flush`. The events are as `findBatch` returned them. -/
inductive Batcher (J : Type*)
  | idle
  | flushing (events : List (PendingAuditEvent J))
  /-- `record` has returned. -/
  | recorded (e : PendingAuditEvent J) (rest : List (PendingAuditEvent J))
  /-- `handleFlushFailure`. -/
  | caught (e : PendingAuditEvent J) (rest : List (PendingAuditEvent J)) (message : String)
  /-- The dead letter has been acknowledged. -/
  | deadLettered (e : PendingAuditEvent J) (rest : List (PendingAuditEvent J))
  /-- The `catch` of `handleFlushFailure`. -/
  | dlqCaught (e : PendingAuditEvent J) (rest : List (PendingAuditEvent J)) (message : String)

/-- The queue, the log, the dead letters, and where every batcher is. -/
structure State (ι J : Type*) where
  clock : ℤ
  pending : List (PendingAuditEvent J)
  auditLog : List (AuditLog J)
  deadLetters : List (DeadLetter J)
  batchers : ι → Batcher J
  /-- The events ever inserted. -/
  enqueued : List ℕ

namespace State

variable {ι : Type*} [DecidableEq ι] (s : State ι J)

/-- The tables are empty. -/
def init : State ι J := ⟨0, [], [], [], fun _ => .idle, []⟩

def setBatcher (i : ι) (p : Batcher J) : State ι J :=
  { s with batchers := update s.batchers i p }

/-- `findBatch`: the oldest rows. -/
def findBatch : List (PendingAuditEvent J) :=
  (s.pending.mergeSort fun e e' => e.createdAt ≤ e'.createdAt).take flushBatchSize

/-- The state after a transaction, given what it writes. -/
def commit (c : Commit) (after : State ι J) : State ι J :=
  match c with
  | .ok | .lost _ => after
  | .failed _ => s

/-- The insert of `record`. -/
def record (e : PendingAuditEvent J) (id : ℕ) : State ι J :=
  { s with auditLog := { e.toAuditEntry with id := id, createdAt := s.clock, source := e.id } ::
      s.auditLog }

/-- The publish of `handleFlushFailure`. -/
def deadLetter (e : PendingAuditEvent J) (error : String) : State ι J :=
  { s with deadLetters := ⟨auditCreated, e, error⟩ :: s.deadLetters }

def delete (id : ℕ) : State ι J := { s with pending := s.pending.filter (·.id ≠ id) }

def recordFailure (id : ℕ) (error : String) : State ι J :=
  { s with
    pending := Tables.modify (·.id) id
      (fun e => { e with attempts := e.attempts + 1, lastError := some error }) s.pending }

end State

/-- The batch in the order in which `flush` works through it: tenant by tenant, as they first
occur. -/
def byTenant (batch : List (PendingAuditEvent J)) : List (PendingAuditEvent J) :=
  (batch.map (·.tenantId)).eraseDups.flatMap fun tenantId => batch.filter (·.tenantId = tenantId)

/-- A statement of a batcher, a request, or time that passes. -/
inductive Action (ι J : Type*)
  | tick (d : ℕ)
  | enqueue (id : ℕ) (entry : AuditEntry J)
  | findBatch (i : ι)
  | record (i : ι) (id : ℕ) (c : Commit)
  | delete (i : ι) (c : Commit)
  | deadLetter (i : ι) (c : Commit)
  | deleteDeadLettered (i : ι) (c : Commit)
  | recordFailure (i : ι) (c : Commit)
  | finish (i : ι)
  | crash (i : ι)

variable {ι : Type*} [DecidableEq ι]

/-- One step. -/
def step (s : State ι J) : Action ι J → Option (State ι J)
  | .tick d => some { s with clock := s.clock + d }
  | .enqueue id entry =>
    -- `uuidv4` gives no id twice.
    if id ∈ s.enqueued then none
    else
      match entry.checkRationale with
      | .error _ => some s
      | .ok () =>
        some { s with
          pending := s.pending ++ [newPending id entry s.clock], enqueued := id :: s.enqueued }
  | .findBatch i =>
    match s.batchers i with
    | .idle => some (s.setBatcher i (.flushing (byTenant s.findBatch)))
    | _ => none
  | .record i id c =>
    match s.batchers i with
    | .flushing (e :: rest) =>
      match e.checkRecord e.tenantId with
      | .error err => some (s.setBatcher i (.caught e rest err.message))
      | .ok () =>
        let t := s.commit c (s.record e id)
        match c.error with
        | none => some (t.setBatcher i (.recorded e rest))
        | some message => some (t.setBatcher i (.caught e rest message))
    | _ => none
  | .delete i c =>
    match s.batchers i with
    | .recorded e rest =>
      let t := s.commit c (s.delete e.id)
      match c.error with
      | none => some (t.setBatcher i (.flushing rest))
      | some message => some (t.setBatcher i (.caught e rest message))
    | _ => none
  | .deadLetter i c =>
    match s.batchers i with
    | .caught e rest message =>
      if e.exhausted then
        let t := s.commit c (s.deadLetter e message)
        match c.error with
        | none => some (t.setBatcher i (.deadLettered e rest))
        | some message => some (t.setBatcher i (.dlqCaught e rest message))
      else none
    | _ => none
  | .deleteDeadLettered i c =>
    match s.batchers i with
    | .deadLettered e rest =>
      let t := s.commit c (s.delete e.id)
      match c.error with
      | none => some (t.setBatcher i (.flushing rest))
      | some message => some (t.setBatcher i (.dlqCaught e rest message))
    | _ => none
  | .recordFailure i c =>
    -- An error here leaves `flush`.
    let record (e : PendingAuditEvent J) (rest : List (PendingAuditEvent J)) (message : String) :=
      (s.commit c (s.recordFailure e.id message)).setBatcher i
        (if c.error.isNone then .flushing rest else .idle)
    match s.batchers i with
    | .caught e rest message => if e.exhausted then none else some (record e rest message)
    | .dlqCaught e rest message =>
      some (record e rest (s!"DLQ publish also failed: {message}"))
    | _ => none
  | .finish i =>
    match s.batchers i with
    | .flushing [] => some (s.setBatcher i .idle)
    | _ => none
  | .crash i => some (s.setBatcher i .idle)

/-! ## What a step does to the events -/

namespace Batcher

/-- The events that a batcher may still record or dead-letter. -/
def toDo : Batcher J → List (PendingAuditEvent J)
  | .idle => []
  | .flushing events => events
  | .caught e rest _ => if e.exhausted then e :: rest else rest
  | .recorded _ rest | .deadLettered _ rest | .dlqCaught _ rest _ => rest

/-- The event that it has recorded or dead-lettered, and is about to delete. -/
def settled : Batcher J → Option (PendingAuditEvent J)
  | .recorded e _ | .deadLettered e _ => some e
  | _ => none

/-- The event that it is working on. -/
def current : Batcher J → Option (PendingAuditEvent J)
  | .flushing (e :: _) | .recorded e _ | .caught e _ _ | .deadLettered e _ | .dlqCaught e _ _ =>
    some e
  | _ => none

/-- The events that it holds. -/
def held (p : Batcher J) : List ℕ := (p.settled.toList ++ p.toDo).map (·.id)

end Batcher

namespace State

variable (s : State ι J)

omit [DecidableEq ι]

def pendingIds : List ℕ := s.pending.map (·.id)

/-- How often the event has been recorded or dead-lettered. -/
def copies (id : ℕ) : ℕ :=
  s.auditLog.countP (·.source = id) + s.deadLetters.countP (·.payload.id = id)

@[simp] theorem pendingIds_delete (id : ℕ) :
    (s.delete id).pendingIds = s.pendingIds.filter (· ≠ id) := by
  simp [pendingIds, delete, filter_map, comp_def]

@[simp] theorem pendingIds_recordFailure (id : ℕ) (error : String) :
    (s.recordFailure id error).pendingIds = s.pendingIds :=
  map_key_modify
    (f := fun e : PendingAuditEvent J =>
      { e with attempts := e.attempts + 1, lastError := some error }) (fun _ => rfl) s.pending

theorem copies_record (e : PendingAuditEvent J) (id x : ℕ) :
    (s.record e id).copies x = s.copies x + if e.id = x then 1 else 0 := by
  simp only [copies, record, countP_cons, decide_eq_true_eq]
  omega

theorem copies_deadLetter (e : PendingAuditEvent J) (error : String) (x : ℕ) :
    (s.deadLetter e error).copies x = s.copies x + if e.id = x then 1 else 0 := by
  simp only [copies, deadLetter, countP_cons, decide_eq_true_eq]
  omega

end State

/-! ## Disturbances -/

/-- Nothing goes wrong with the event in this step: it is not read while another batcher holds it,
the reply to its recording or dead letter is not lost, its row is deleted when it should be, and its
batcher does not stop before that. -/
def Undisturbed (x : ℕ) (s : State ι J) : Action ι J → Prop
  | .findBatch i => x ∈ s.findBatch.map (·.id) → ∀ j, j ≠ i → x ∉ (s.batchers j).held
  | .record i _ c | .deadLetter i c => ∀ e ∈ (s.batchers i).current, e.id = x → c.Told
  | .delete i c => ∀ e ∈ (s.batchers i).current, e.id = x →
      c.Took ∧ (e.exhausted → c.Told)
  | .deleteDeadLettered i c => ∀ e ∈ (s.batchers i).current, e.id = x → c.Took
  | .crash i => ∀ e ∈ (s.batchers i).settled, e.id ≠ x
  | _ => True

instance [Fintype ι] (x : ℕ) (s : State ι J) (a : Action ι J) : Decidable (Undisturbed x s a) := by
  cases a <;> unfold Undisturbed <;> infer_instance

section Moves

/-- The batcher moves on. -/
structure Works (s t : State ι J) (i : ι) (p : Batcher J) : Prop where
  enqueued : t.enqueued = s.enqueued
  batchers : t.batchers = update s.batchers i p

/-- What a step does. -/
inductive Move (s : State ι J) (a : Action ι J) (t : State ι J) : Prop
  | idle (henqueued : t.enqueued = s.enqueued) (hpending : t.pendingIds = s.pendingIds)
      (hcopies : ∀ x, t.copies x = s.copies x) (hbatchers : t.batchers = s.batchers)
  | enqueue (id : ℕ) (hfresh : id ∉ s.enqueued) (henqueued : t.enqueued = id :: s.enqueued)
      (hpending : t.pendingIds = s.pendingIds ++ [id]) (hcopies : ∀ x, t.copies x = s.copies x)
      (hbatchers : t.batchers = s.batchers)
  | take (i : ι) (p : Batcher J) (hworks : Works s t i p) (hidle : (s.batchers i).settled = none)
      (hsettled : p.settled = none) (hpending : t.pendingIds = s.pendingIds)
      (hcopies : ∀ x, t.copies x = s.copies x) (hbatch : p.toDo = byTenant s.findBatch)
      (hok : ∀ x ∈ s.findBatch.map (·.id), Undisturbed x s a →
        ∀ j, j ≠ i → x ∉ (s.batchers j).held)
  /-- The event is recorded or dead-lettered. -/
  | copy (i : ι) (p : Batcher J) (e : PendingAuditEvent J) (rest : List (PendingAuditEvent J))
      (hworks : Works s t i p) (hsettled : (s.batchers i).settled = none)
      (htoDo : (s.batchers i).toDo = e :: rest) (hpending : t.pendingIds = s.pendingIds)
      (hcopies : ∀ x, t.copies x = s.copies x + if e.id = x then 1 else 0)
      (hheld : p.held.Sublist (s.batchers i).held) (he : ∀ e' ∈ p.settled, e' = e)
      (hok : Undisturbed e.id s a → p.settled = some e ∧ p.toDo = rest)
  /-- Its row is deleted. -/
  | remove (i : ι) (p : Batcher J) (e : PendingAuditEvent J) (hworks : Works s t i p)
      (hsettled : (s.batchers i).settled = some e) (hnone : p.settled = none)
      (hpending : t.pendingIds = s.pendingIds.filter (· ≠ e.id))
      (hcopies : ∀ x, t.copies x = s.copies x) (hheld : p.held.Sublist (s.batchers i).held)
      (hok : Undisturbed e.id s a → p.toDo = (s.batchers i).toDo)
  | skip (i : ι) (p : Batcher J) (hworks : Works s t i p) (hnone : p.settled = none)
      (hpending : t.pendingIds = s.pendingIds) (hcopies : ∀ x, t.copies x = s.copies x)
      (hheld : p.held.Sublist (s.batchers i).held)
      (hok : ∀ e ∈ (s.batchers i).settled, ¬ Undisturbed e.id s a)

variable {s t : State ι J}

theorem works_setBatcher {i : ι} {p : Batcher J} {u : State ι J}
    (henqueued : u.enqueued = s.enqueued) (hbatchers : u.batchers = s.batchers) :
    Works s (u.setBatcher i p) i p :=
  ⟨henqueued, by rw [State.setBatcher, hbatchers]⟩

variable {c : Commit}

omit [DecidableEq ι] in
theorem commit_cases {u : State ι J} :
    (c.Took ∧ s.commit c u = u) ∨ (¬ c.Took ∧ s.commit c u = s) := by
  cases c with
  | ok => exact .inl ⟨trivial, rfl⟩
  | lost message => exact .inl ⟨trivial, rfl⟩
  | failed message => exact .inr ⟨id, rfl⟩

variable {a : Action ι J} {e : PendingAuditEvent J}

/-- The batcher goes on after recording an event: it has the event to delete, or has to see to it
again. -/
theorem move_copy {i : ι} {u : State ι J} {p : Batcher J} {rest : List (PendingAuditEvent J)}
    (hsettled : (s.batchers i).settled = none) (htoDo : (s.batchers i).toDo = e :: rest)
    (henqueued : u.enqueued = s.enqueued) (hbatchers : u.batchers = s.batchers)
    (hpending : u.pendingIds = s.pendingIds)
    (hcopies : ∀ x, u.copies x = s.copies x + if e.id = x then 1 else 0) (hp : match c.error with
      | none => p.settled = some e ∧ p.toDo = rest
      | some _ => p.settled = none ∧ p.toDo.Sublist (e :: rest))
    (hok : Undisturbed e.id s a → c.Told) : Move s a ((s.commit c u).setBatcher i p) := by
  have hheld : p.held.Sublist (s.batchers i).held := by
    unfold Batcher.held
    rw [hsettled, htoDo]
    refine Sublist.map _ ?_
    split at hp
    · rw [hp.1, hp.2]
      exact Sublist.refl _
    · rw [hp.1]
      exact hp.2
  rcases commit_cases (s := s) (c := c) (u := u) with ⟨htook, hc⟩ | ⟨hfailed, hc⟩
  · rw [hc]
    refine .copy i p e rest (works_setBatcher henqueued hbatchers) hsettled htoDo hpending hcopies
      hheld ?_ fun hundisturbed => ?_
    · intro e' he'
      split at hp
      · rw [hp.1] at he'
        exact (Option.some.inj he').symm
      · rw [hp.1] at he'
        cases he'
    · split at hp
      · exact hp
      · rename_i message hmessage
        exact absurd (hok hundisturbed) (Commit.not_told_of_error htook hmessage)
  · rw [hc]
    have hnone : p.settled = none := by
      cases c with
      | ok => exact absurd trivial hfailed
      | lost message => exact absurd trivial hfailed
      | failed message => exact hp.1
    refine .skip i p (works_setBatcher rfl rfl) hnone rfl (fun _ => rfl) hheld fun e' he' => ?_
    rw [hsettled] at he'
    cases he'

theorem move_remove {i : ι} {p : Batcher J} (hsettled : (s.batchers i).settled = some e)
    (hnone : p.settled = none) (hp : p.toDo = (s.batchers i).toDo ∨
      p.toDo = e :: (s.batchers i).toDo ∧ ¬ (Undisturbed e.id s a))
    (hok : Undisturbed e.id s a → c.Took) :
    Move s a ((s.commit c (s.delete e.id)).setBatcher i p) := by
  have hheld : p.held.Sublist (s.batchers i).held := by
    unfold Batcher.held
    rw [hsettled, hnone]
    refine Sublist.map _ ?_
    rcases hp with hp | ⟨hp, -⟩
    · rw [hp]
      exact sublist_cons_self _ _
    · rw [hp]
      exact Sublist.refl _
  rcases commit_cases (s := s) (c := c) (u := s.delete e.id) with ⟨htook, hc⟩ | ⟨hfailed, hc⟩
  · rw [hc]
    refine .remove i p e (works_setBatcher rfl rfl) hsettled hnone (s.pendingIds_delete e.id)
      (fun _ => rfl) hheld fun hundisturbed => ?_
    exact hp.resolve_right fun hp => hp.2 hundisturbed
  · rw [hc]
    refine .skip i p (works_setBatcher rfl rfl) hnone rfl (fun _ => rfl) hheld fun e' he' => ?_
    rw [hsettled] at he'
    obtain rfl := Option.some.inj he'
    exact fun hundisturbed => hfailed (hok hundisturbed)

/-- The failure of an event is recorded, and the batcher goes on with the next one unless that fails
too. -/
theorem move_recordFailure {i : ι} {rest : List (PendingAuditEvent J)}
    (hsettled : (s.batchers i).settled = none) (htoDo : (s.batchers i).toDo = rest)
    (message : String) :
    Move s a ((s.commit c (s.recordFailure e.id message)).setBatcher i
      (if c.error.isNone then .flushing rest else .idle)) := by
  have hnone : (if c.error.isNone then (.flushing rest : Batcher J) else .idle).settled = none := by
    split <;> rfl
  have hheld : (if c.error.isNone then (.flushing rest : Batcher J) else .idle).held.Sublist
      (s.batchers i).held := by
    unfold Batcher.held
    rw [hnone, hsettled, htoDo]
    split
    · exact Sublist.refl _
    · exact nil_sublist _
  have hskip : ∀ e' ∈ (s.batchers i).settled, ¬ Undisturbed e'.id s a := by
    simp [hsettled]
  rcases commit_cases (s := s) (c := c) (u := s.recordFailure e.id message) with ⟨-, hc⟩ | ⟨-, hc⟩
  · rw [hc]
    exact .skip i _ (works_setBatcher rfl rfl) hnone (s.pendingIds_recordFailure e.id message)
      (fun _ => rfl) hheld hskip
  · rw [hc]
    exact .skip i _ (works_setBatcher rfl rfl) hnone rfl (fun _ => rfl) hheld hskip

theorem step_move (h : step s a = some t) : Move s a t := by
  cases a with
  | tick d =>
    cases h
    exact .idle rfl rfl (fun _ => rfl) rfl
  | enqueue id entry =>
    simp only [step] at h
    split at h
    · cases h
    · rename_i hfresh
      split at h
      · cases h
        exact .idle rfl rfl (fun _ => rfl) rfl
      · cases h
        exact .enqueue id hfresh rfl (by simp [State.pendingIds, newPending]) (fun _ => rfl) rfl
  | findBatch i =>
    simp only [step] at h
    split at h
    · rename_i hi
      cases h
      exact .take i _ (works_setBatcher rfl rfl) (by rw [hi]; rfl) rfl rfl (fun _ => rfl) rfl
        fun x hx hundisturbed => hundisturbed hx
    · cases h
  | record i id c =>
    simp only [step] at h
    split at h
    · rename_i e rest hi
      have hsettled : (s.batchers i).settled = none := by rw [hi]; rfl
      have htoDo : (s.batchers i).toDo = e :: rest := by rw [hi]; rfl
      have hold : ∀ message, (Batcher.caught e rest message).toDo.Sublist (e :: rest) := by
        intro message
        simp only [Batcher.toDo]
        split
        · exact Sublist.refl _
        · exact sublist_cons_self _ _
      split at h
      · rename_i err _
        cases h
        refine .skip i _ (works_setBatcher rfl rfl) rfl rfl (fun _ => rfl) ?_ ?_
        · unfold Batcher.held
          rw [hsettled, htoDo]
          exact (hold err.message).map _
        · simp [hsettled]
      · have hok : Undisturbed e.id s (.record i id c) → c.Told :=
          fun hundisturbed => hundisturbed e (by rw [hi]; rfl) rfl
        split at h
        · rename_i hc
          cases h
          exact move_copy hsettled htoDo rfl rfl rfl (s.copies_record e id)
            (by rw [hc]; exact ⟨rfl, rfl⟩) hok
        · rename_i message hc
          cases h
          exact move_copy hsettled htoDo rfl rfl rfl (s.copies_record e id)
            (by rw [hc]; exact ⟨rfl, hold message⟩) hok
    · cases h
  | delete i c =>
    simp only [step] at h
    split at h
    · rename_i e rest hi
      have hsettled : (s.batchers i).settled = some e := by rw [hi]; rfl
      have htoDo : (s.batchers i).toDo = rest := by rw [hi]; rfl
      have hcurrent : (s.batchers i).current = some e := by rw [hi]; rfl
      have hok : Undisturbed e.id s (.delete i c) → c.Took :=
        fun hundisturbed => (hundisturbed e hcurrent rfl).1
      split at h
      · cases h
        exact move_remove hsettled rfl (.inl htoDo.symm) hok
      · rename_i message hc
        cases h
        refine move_remove hsettled rfl ?_ hok
        rw [htoDo]
        simp only [Batcher.toDo]
        split
        · rename_i hexhausted
          refine .inr ⟨rfl, fun hundisturbed => ?_⟩
          obtain ⟨htook, htold⟩ := hundisturbed e hcurrent rfl
          exact Commit.not_told_of_error htook hc (htold hexhausted)
        · exact .inl rfl
    · cases h
  | deadLetter i c =>
    simp only [step] at h
    split at h
    · rename_i e rest message hi
      split at h
      · rename_i hexhausted
        have hsettled : (s.batchers i).settled = none := by rw [hi]; rfl
        have htoDo : (s.batchers i).toDo = e :: rest := by
          rw [hi]
          simp only [Batcher.toDo, if_pos hexhausted]
        have hok : Undisturbed e.id s (.deadLetter i c) → c.Told :=
          fun hundisturbed => hundisturbed e (by rw [hi]; rfl) rfl
        split at h
        · rename_i hc
          cases h
          exact move_copy hsettled htoDo rfl rfl rfl (s.copies_deadLetter e message)
            (by rw [hc]; exact ⟨rfl, rfl⟩) hok
        · rename_i hc
          cases h
          exact move_copy hsettled htoDo rfl rfl rfl (s.copies_deadLetter e message)
            (by rw [hc]; exact ⟨rfl, sublist_cons_self _ _⟩) hok
      · cases h
    · cases h
  | deleteDeadLettered i c =>
    simp only [step] at h
    split at h
    · rename_i e rest hi
      have hsettled : (s.batchers i).settled = some e := by rw [hi]; rfl
      have htoDo : (s.batchers i).toDo = rest := by rw [hi]; rfl
      have hok : Undisturbed e.id s (.deleteDeadLettered i c) → c.Took :=
        fun hundisturbed => hundisturbed e (by rw [hi]; rfl) rfl
      split at h
      · cases h
        exact move_remove hsettled rfl (.inl htoDo.symm) hok
      · cases h
        exact move_remove hsettled rfl (.inl htoDo.symm) hok
    · cases h
  | recordFailure i c =>
    simp only [step] at h
    split at h
    · rename_i e rest message hi
      split at h
      · cases h
      · rename_i hleft
        cases h
        refine move_recordFailure (by rw [hi]; rfl) ?_ message
        rw [hi]
        simp only [Batcher.toDo, if_neg hleft]
    · rename_i e rest message hi
      cases h
      exact move_recordFailure (by rw [hi]; rfl) (by rw [hi]; rfl) _
    · cases h
  | finish i =>
    simp only [step] at h
    split at h
    · rename_i hi
      cases h
      refine .skip i _ (works_setBatcher rfl rfl) rfl rfl (fun _ => rfl) (nil_sublist _) ?_
      simp [hi, Batcher.settled]
    · cases h
  | crash i =>
    cases h
    refine .skip i _ (works_setBatcher rfl rfl) rfl rfl (fun _ => rfl) (nil_sublist _) ?_
    exact fun e he hundisturbed => hundisturbed e he rfl

end Moves

/-! ## Nothing is lost -/

variable {s t : State ι J}

/-- An event of which the row is gone, or about to be deleted, has been recorded or
dead-lettered. -/
structure Kept (s : State ι J) : Prop where
  left : ∀ x ∈ s.enqueued, x ∉ s.pendingIds → 1 ≤ s.copies x
  settled : ∀ i, ∀ e ∈ (s.batchers i).settled, 1 ≤ s.copies e.id

omit [DecidableEq ι] in
theorem kept_init : Kept (State.init : State ι J) :=
  ⟨nofun, by simp [State.init, Batcher.settled]⟩

variable {i : ι} {p : Batcher J}

/-- What held of the batchers holds after one has moved on, if it holds of that one. -/
theorem Works.forall (h : Works s t i p) {P : ι → Batcher J → Prop}
    (hs : ∀ j, j ≠ i → P j (s.batchers j)) (hp : P i p) (j : ι) : P j (t.batchers j) := by
  rw [h.batchers]
  by_cases hj : j = i
  · subst hj
    rwa [update_self]
  · rw [update_of_ne hj]
    exact hs j hj

theorem Kept.move (hs : Kept s) {a : Action ι J} (h : Move s a t) : Kept t := by
  have hsame : t.enqueued = s.enqueued → t.pendingIds = s.pendingIds →
      (∀ x, s.copies x ≤ t.copies x) → ∀ x ∈ t.enqueued, x ∉ t.pendingIds → 1 ≤ t.copies x := by
    intro henqueued hpending hcopies x hx hleft
    rw [henqueued] at hx
    rw [hpending] at hleft
    exact (hs.left x hx hleft).trans (hcopies x)
  have hsettled : ∀ {i : ι} {p : Batcher J}, Works s t i p → (∀ x, s.copies x ≤ t.copies x) →
      (∀ e ∈ p.settled, 1 ≤ t.copies e.id) → ∀ j, ∀ e ∈ (t.batchers j).settled, 1 ≤ t.copies e.id :=
    fun hworks hcopies hp => hworks.forall (P := fun _ p => ∀ e ∈ p.settled, 1 ≤ t.copies e.id)
      (fun j _ e he => (hs.settled j e he).trans (hcopies e.id)) hp
  cases h with
  | idle henqueued hpending hcopies hbatchers =>
    refine ⟨hsame henqueued hpending fun x => (hcopies x).ge, fun i e he => ?_⟩
    rw [hbatchers] at he
    rw [hcopies]
    exact hs.settled i e he
  | enqueue id hfresh henqueued hpending hcopies hbatchers =>
    refine ⟨fun x hx hleft => ?_, fun i e he => ?_⟩
    · rw [hpending, mem_append, not_or, mem_singleton] at hleft
      rw [henqueued] at hx
      rw [hcopies]
      exact hs.left x ((mem_cons.1 hx).resolve_left hleft.2) hleft.1
    · rw [hbatchers] at he
      rw [hcopies]
      exact hs.settled i e he
  | take i p hworks hidle hnone hpending hcopies =>
    have hle : ∀ x, s.copies x ≤ t.copies x := fun x => (hcopies x).ge
    exact ⟨hsame hworks.enqueued hpending hle, hsettled hworks hle (by simp [hnone])⟩
  | copy i p e rest hworks _ _ hpending hcopies _ he =>
    have hle : ∀ x, s.copies x ≤ t.copies x := fun x => (hcopies x).symm ▸ Nat.le_add_right _ _
    refine ⟨hsame hworks.enqueued hpending hle, hsettled hworks hle fun e' he' => ?_⟩
    rw [he e' he', hcopies, if_pos rfl]
    omega
  | remove i p e hworks hsome hnone hpending hcopies =>
    have hle : ∀ x, s.copies x ≤ t.copies x := fun x => (hcopies x).ge
    refine ⟨fun x hx hleft => ?_, hsettled hworks hle (by simp [hnone])⟩
    rw [hworks.enqueued] at hx
    rw [hcopies]
    by_cases hid : x = e.id
    · -- The row of a settled event.
      rw [hid]
      exact hs.settled i e hsome
    · refine hs.left x hx fun hin => hleft ?_
      rw [hpending, mem_filter]
      exact ⟨hin, by simpa using hid⟩
  | skip i p hworks hnone hpending hcopies =>
    have hle : ∀ x, s.copies x ≤ t.copies x := fun x => (hcopies x).ge
    exact ⟨hsame hworks.enqueued hpending hle, hsettled hworks hle (by simp [hnone])⟩

variable {x : ℕ}

/-- An event that has left the table has been recorded or dead-lettered, in every run of any
batchers. -/
theorem copies_pos {as : List (Action ι J)} (h : exec step State.init as = some s)
    (hx : x ∈ s.enqueued) (hleft : x ∉ s.pendingIds) : 1 ≤ s.copies x :=
  (exec_keeps Kept (fun _ _ _ hs h => hs.move (step_move h)) kept_init h).left x hx hleft

/-! ## Nothing is recorded twice without a disturbance -/

theorem nodup_byTenant {batch : List (PendingAuditEvent J)} (hn : (batch.map (·.id)).Nodup) :
    ((byTenant batch).map (·.id)).Nodup := by
  rw [byTenant, map_flatMap, nodup_flatMap]
  refine ⟨fun tenantId _ => hn.sublist (filter_sublist.map _), ?_⟩
  refine (nodup_eraseDups _).imp fun {t₁ t₂} hne x hx hx' => ?_
  obtain ⟨e, he, rfl⟩ := mem_map.1 hx
  obtain ⟨e', he', hid⟩ := mem_map.1 hx'
  rw [mem_filter, decide_eq_true_eq] at he he'
  have heq : e' = e := eq_of_key_eq hn he'.1 he.1 hid
  exact hne (he.2.symm.trans (heq ▸ he'.2))

variable {e : PendingAuditEvent J}

theorem mem_byTenant {batch : List (PendingAuditEvent J)} :
    e ∈ byTenant batch ↔ e ∈ batch := by
  simp only [byTenant, mem_flatMap, mem_eraseDups, mem_map, mem_filter, decide_eq_true_eq]
  constructor
  · rintro ⟨_, -, he, -⟩
    exact he
  · intro he
    exact ⟨e.tenantId, ⟨e, he, rfl⟩, he, rfl⟩

omit [DecidableEq ι] in
theorem State.findBatch_ids (s : State ι J) : ∃ rest, (s.findBatch.map (·.id) ++ rest).Perm
    s.pendingIds := by
  refine ⟨((s.pending.mergeSort fun e e' => e.createdAt ≤ e'.createdAt).drop flushBatchSize).map
    (·.id), ?_⟩
  rw [findBatch, ← map_append, take_append_drop]
  exact (mergeSort_perm _ _).map _

/-- While nothing disturbs the event `x`, at most one batcher holds it, and it is recorded or
dead-lettered when that batcher is about to delete its row. -/
structure Once (x : ℕ) (s : State ι J) : Prop where
  pending : s.pendingIds.Nodup ∧ s.pendingIds ⊆ s.enqueued
  held : ∀ i, (s.batchers i).held.Nodup ∧ (s.batchers i).held ⊆ s.enqueued
  fresh : x ∉ s.enqueued → s.copies x = 0
  sole : ∀ i j, x ∈ (s.batchers i).held → x ∈ (s.batchers j).held → i = j
  working : ∀ i, x ∈ (s.batchers i).toDo.map (·.id) → x ∈ s.pendingIds ∧ s.copies x = 0
  settled : ∀ i, ∀ e ∈ (s.batchers i).settled, e.id = x → s.copies x = 1
  waiting : x ∈ s.pendingIds → (∀ i, ∀ e ∈ (s.batchers i).settled, e.id ≠ x) → s.copies x = 0
  left : x ∈ s.enqueued → x ∉ s.pendingIds → s.copies x = 1

omit [DecidableEq ι] in
theorem once_init (x : ℕ) : Once x (State.init : State ι J) :=
  ⟨⟨nodup_nil, nofun⟩, fun _ => ⟨nodup_nil, nofun⟩, fun _ => rfl, nofun, nofun,
    by simp [State.init, Batcher.settled], nofun, nofun⟩

namespace Batcher

theorem mem_held {p : Batcher J} {x : ℕ} :
    x ∈ p.held ↔ (∃ e ∈ p.settled, e.id = x) ∨ x ∈ p.toDo.map (·.id) := by
  simp [held]

theorem held_of_settled {p : Batcher J} {e : PendingAuditEvent J} (h : p.settled = some e) :
    p.held = e.id :: p.toDo.map (·.id) := by
  simp [held, h]

theorem held_of_not_settled {p : Batcher J} (h : p.settled = none) :
    p.held = p.toDo.map (·.id) := by
  simp [held, h]

end Batcher

/-- A batcher that holds no more than it did: the holders of an event are as few as before. -/
theorem Once.of_sublist (hs : Once x s) (hworks : Works s t i p)
    (hheld : p.held.Sublist (s.batchers i).held) :
    (∀ j, (t.batchers j).held.Nodup ∧ (t.batchers j).held ⊆ t.enqueued) ∧
      ∀ j k, x ∈ (t.batchers j).held → x ∈ (t.batchers k).held → j = k := by
  have hsub : ∀ j, (t.batchers j).held.Sublist (s.batchers j).held :=
    hworks.forall (P := fun j p => p.held.Sublist (s.batchers j).held)
      (fun _ _ => Sublist.refl _) hheld
  refine ⟨fun j => ⟨(hs.held j).1.sublist (hsub j), ?_⟩, fun j k hj hk => ?_⟩
  · rw [hworks.enqueued]
    exact fun y hy => (hs.held j).2 ((hsub j).subset hy)
  · exact hs.sole j k ((hsub j).subset hj) ((hsub k).subset hk)

theorem Once.take (hs : Once x s) (hworks : Works s t i p) (hidle : (s.batchers i).settled = none)
    (hnone : p.settled = none) (hpending : t.pendingIds = s.pendingIds)
    (hcopies : t.copies x = s.copies x) (hbatch : p.toDo = byTenant s.findBatch)
    (hok : x ∈ s.findBatch.map (·.id) → ∀ j, j ≠ i → x ∉ (s.batchers j).held) : Once x t := by
  obtain ⟨rest, hperm⟩ := s.findBatch_ids
  have hpheld : p.held = (byTenant s.findBatch).map (·.id) := by
    rw [Batcher.held_of_not_settled hnone, hbatch]
  have hmem : ∀ y, y ∈ p.held ↔ y ∈ s.findBatch.map (·.id) := by
    intro y
    rw [hpheld]
    simp only [mem_map, mem_byTenant]
  have hin : ∀ y ∈ p.held, y ∈ s.pendingIds := fun y hy =>
    hperm.subset (mem_append_left _ ((hmem y).1 hy))
  have hnodup : p.held.Nodup := by
    rw [hpheld]
    exact nodup_byTenant (hperm.nodup_iff.2 hs.pending.1).of_append_left
  refine ⟨?_, ?_, ?_, ?_, ?_, ?_, ?_, ?_⟩
  · rw [hpending, hworks.enqueued]
    exact hs.pending
  · refine hworks.forall (P := fun _ p => p.held.Nodup ∧ p.held ⊆ t.enqueued) ?_ ?_
    · intro j _
      rw [hworks.enqueued]
      exact hs.held j
    · rw [hworks.enqueued]
      exact ⟨hnodup, fun y hy => hs.pending.2 (hin y hy)⟩
  · rw [hworks.enqueued, hcopies]
    exact hs.fresh
  · have hold : ∀ j, x ∈ (t.batchers j).held →
        (x ∈ p.held ∧ j = i) ∨ x ∈ (s.batchers j).held ∧ j ≠ i :=
      hworks.forall (P := fun j q => x ∈ q.held → (x ∈ p.held ∧ j = i) ∨
        x ∈ (s.batchers j).held ∧ j ≠ i) (fun j hj h => .inr ⟨h, hj⟩) fun h => .inl ⟨h, rfl⟩
    intro j k hj hk
    rcases hold j hj with ⟨hp, rfl⟩ | ⟨hj, hne⟩
    · rcases hold k hk with ⟨-, rfl⟩ | ⟨hk, hne⟩
      · rfl
      · exact absurd hk (hok ((hmem x).1 hp) k hne)
    · rcases hold k hk with ⟨hp, rfl⟩ | ⟨hk, -⟩
      · exact absurd hj (hok ((hmem x).1 hp) j hne)
      · exact hs.sole j k hj hk
  · refine hworks.forall (P := fun _ p => x ∈ p.toDo.map (·.id) → x ∈ t.pendingIds ∧ t.copies x = 0)
      ?_ ?_
    · intro j _ h
      rw [hpending, hcopies]
      exact hs.working j h
    · intro h
      rw [← Batcher.held_of_not_settled hnone] at h
      rw [hpending, hcopies]
      refine ⟨hin x h, hs.waiting (hin x h) fun j e he hid => ?_⟩
      have hji : j ≠ i := by
        rintro rfl
        rw [hidle] at he
        cases he
      exact hok ((hmem x).1 h) j hji (Batcher.mem_held.2 (.inl ⟨e, he, hid⟩))
  · refine hworks.forall (P := fun _ p => ∀ e ∈ p.settled, e.id = x → t.copies x = 1) ?_ ?_
    · intro j _
      rw [hcopies]
      exact hs.settled j
    · simp [hnone]
  · rw [hpending, hcopies]
    intro hx hno
    refine hs.waiting hx fun j e he hid => ?_
    by_cases hj : j = i
    · subst hj
      rw [hidle] at he
      cases he
    · refine hno j e ?_ hid
      rwa [hworks.batchers, update_of_ne hj]
  · rw [hpending, hworks.enqueued, hcopies]
    exact hs.left

/-- A batcher that is not about to delete the row of the event, neither before nor after. -/
theorem Once.other (hs : Once x s) (hworks : Works s t i p)
    (hsettled : ∀ e ∈ (s.batchers i).settled, e.id ≠ x) (hp : ∀ e ∈ p.settled, e.id ≠ x)
    (hpending : t.pendingIds = s.pendingIds) (hcopies : t.copies x = s.copies x)
    (hheld : p.held.Sublist (s.batchers i).held) : Once x t := by
  obtain ⟨hheld', hsole⟩ := hs.of_sublist hworks hheld
  refine ⟨?_, hheld', ?_, hsole, ?_, ?_, ?_, ?_⟩
  · rw [hpending, hworks.enqueued]
    exact hs.pending
  · rw [hworks.enqueued, hcopies]
    exact hs.fresh
  · rw [hpending, hcopies]
    refine hworks.forall (P := fun _ p => x ∈ p.toDo.map (·.id) → _) (fun j _ => hs.working j) ?_
    intro h
    rcases Batcher.mem_held.1 (hheld.subset (Batcher.mem_held.2 (.inr h))) with ⟨e, he, hid⟩ | hx
    · exact absurd hid (hsettled e he)
    · exact hs.working i hx
  · rw [hcopies]
    exact hworks.forall (P := fun _ p => ∀ e ∈ p.settled, e.id = x → s.copies x = 1)
      (fun j _ => hs.settled j) fun e he hid => absurd hid (hp e he)
  · rw [hpending, hcopies]
    intro hx hno
    refine hs.waiting hx fun j e he => ?_
    by_cases hj : j = i
    · rw [hj] at he
      exact hsettled e he
    · refine hno j e ?_
      rwa [hworks.batchers, update_of_ne hj]
  · rw [hpending, hworks.enqueued, hcopies]
    exact hs.left

theorem Once.copy (hs : Once x s) {rest : List (PendingAuditEvent J)} (hworks : Works s t i p)
    (hsettled : (s.batchers i).settled = none) (htoDo : (s.batchers i).toDo = e :: rest)
    (hpending : t.pendingIds = s.pendingIds)
    (hcopies : t.copies x = s.copies x + if e.id = x then 1 else 0)
    (hheld : p.held.Sublist (s.batchers i).held) (he : ∀ e' ∈ p.settled, e' = e)
    (hok : e.id = x → p.settled = some e ∧ p.toDo = rest) : Once x t := by
  obtain ⟨hheld', hsole⟩ := hs.of_sublist hworks hheld
  have hi : (s.batchers i).held = e.id :: rest.map (·.id) := by
    rw [Batcher.held_of_not_settled hsettled, htoDo, map_cons]
  by_cases hid : e.id = x
  · -- Nobody else holds the event, and it has not been recorded.
    obtain ⟨hsome, hrest⟩ := hok hid
    have hxi : x ∈ (s.batchers i).held := by rw [hi, hid]; exact mem_cons_self
    have hxrest : x ∉ rest.map (·.id) := by
      have hnodup := (hs.held i).1
      rw [hi, hid] at hnodup
      exact (nodup_cons.1 hnodup).1
    obtain ⟨hx, hzero⟩ := hs.working i (by rw [htoDo, map_cons, hid]; exact mem_cons_self)
    have hone : t.copies x = 1 := by rw [hcopies, hzero, if_pos hid]
    refine ⟨?_, hheld', ?_, hsole, ?_, ?_, ?_, ?_⟩
    · rw [hpending, hworks.enqueued]
      exact hs.pending
    · rw [hworks.enqueued]
      exact fun hfresh => absurd (hs.pending.2 hx) hfresh
    · refine hworks.forall (P := fun _ p => x ∈ p.toDo.map (·.id) → _)
        (fun j hj h => ?_) fun h => ?_
      · exact absurd (hs.sole j i (Batcher.mem_held.2 (.inr h)) hxi) hj
      · rw [hrest] at h
        exact absurd h hxrest
    · exact fun _ _ _ _ => hone
    · intro _ hno
      refine absurd hid (hno i e ?_)
      rw [hworks.batchers, update_self]
      exact hsome
    · exact fun _ _ => hone
  · have hsame : t.copies x = s.copies x := by rw [hcopies, if_neg hid, Nat.add_zero]
    refine hs.other hworks (by simp [hsettled]) (fun e' he' => ?_) hpending hsame hheld
    rw [he e' he']
    exact hid

theorem Once.remove (hs : Once x s) (hworks : Works s t i p)
    (hsome : (s.batchers i).settled = some e) (hnone : p.settled = none)
    (hpending : t.pendingIds = s.pendingIds.filter (· ≠ e.id)) (hcopies : t.copies x = s.copies x)
    (hheld : p.held.Sublist (s.batchers i).held) (hok : e.id = x → p.toDo = (s.batchers i).toDo) :
    Once x t := by
  obtain ⟨hheld', hsole⟩ := hs.of_sublist hworks hheld
  have hi := Batcher.held_of_settled hsome
  have hmem : ∀ y, y ∈ t.pendingIds ↔ y ∈ s.pendingIds ∧ y ≠ e.id := by
    intro y
    rw [hpending, mem_filter, decide_eq_true_eq]
  refine ⟨⟨?_, ?_⟩, hheld', ?_, hsole, ?_, ?_, ?_, ?_⟩
  · rw [hpending]
    exact hs.pending.1.filter _
  · rw [hworks.enqueued]
    exact fun y hy => hs.pending.2 ((hmem y).1 hy).1
  · rw [hworks.enqueued, hcopies]
    exact hs.fresh
  · rw [hcopies]
    refine hworks.forall (P := fun _ p => x ∈ p.toDo.map (·.id) → _) (fun j hj h => ?_) fun h => ?_
    · obtain ⟨hx, hzero⟩ := hs.working j h
      refine ⟨(hmem x).2 ⟨hx, fun hid => hj ?_⟩, hzero⟩
      exact hs.sole j i (Batcher.mem_held.2 (.inr h)) (by rw [hi, hid]; exact mem_cons_self)
    · by_cases hid : e.id = x
      · rw [hok hid] at h
        have hnodup := (hs.held i).1
        rw [hi, hid] at hnodup
        exact absurd h (nodup_cons.1 hnodup).1
      · have hx := hheld.subset (Batcher.mem_held.2 (.inr h))
        rw [hi] at hx
        obtain ⟨hx, hzero⟩ := hs.working i ((mem_cons.1 hx).resolve_left fun h => hid h.symm)
        exact ⟨(hmem x).2 ⟨hx, fun h => hid h.symm⟩, hzero⟩
  · rw [hcopies]
    refine hworks.forall (P := fun _ p => ∀ e ∈ p.settled, e.id = x → s.copies x = 1)
      (fun j _ => hs.settled j) ?_
    simp [hnone]
  · rw [hcopies]
    intro hx hno
    obtain ⟨hx, hne⟩ := (hmem x).1 hx
    refine hs.waiting hx fun j e' he' hid' => ?_
    by_cases hj : j = i
    · rw [hj, hsome] at he'
      obtain rfl := Option.some.inj he'
      exact hne hid'.symm
    · refine hno j e' ?_ hid'
      rwa [hworks.batchers, update_of_ne hj]
  · rw [hworks.enqueued, hcopies]
    intro hx hleft
    by_cases hid : e.id = x
    · exact hs.settled i e hsome hid
    · exact hs.left hx fun hin => hleft ((hmem x).2 ⟨hin, fun h => hid h.symm⟩)

omit [DecidableEq ι] in
theorem Once.enqueue {x id : ℕ} (hs : Once x s) (hfresh : id ∉ s.enqueued)
    (henqueued : t.enqueued = id :: s.enqueued) (hpending : t.pendingIds = s.pendingIds ++ [id])
    (hcopies : t.copies x = s.copies x) (hbatchers : t.batchers = s.batchers) : Once x t := by
  have hmem : ∀ y, y ∈ t.pendingIds ↔ y ∈ s.pendingIds ∨ y = id := by
    intro y
    rw [hpending, mem_append, mem_singleton]
  have hnew : ∀ {y}, y ∈ s.enqueued → y ≠ id := by
    rintro y hy rfl
    exact hfresh hy
  refine ⟨⟨?_, ?_⟩, ?_, ?_, ?_, ?_, ?_, ?_, ?_⟩
  · rw [hpending]
    refine Nodup.append hs.pending.1 (nodup_singleton _) fun y hy hy' => ?_
    exact hnew (hs.pending.2 hy) (mem_singleton.1 hy')
  · rw [henqueued]
    intro y hy
    rcases (hmem y).1 hy with hy | rfl
    · exact mem_cons_of_mem _ (hs.pending.2 hy)
    · exact mem_cons_self
  · rw [hbatchers, henqueued]
    exact fun j => ⟨(hs.held j).1, fun y hy => mem_cons_of_mem _ ((hs.held j).2 hy)⟩
  · rw [henqueued, hcopies]
    exact fun hx => hs.fresh fun hin => hx (mem_cons_of_mem _ hin)
  · rw [hbatchers]
    exact hs.sole
  · rw [hbatchers, hcopies]
    exact fun j h => ⟨(hmem x).2 (.inl (hs.working j h).1), (hs.working j h).2⟩
  · rw [hbatchers, hcopies]
    exact hs.settled
  · rw [hbatchers, hcopies]
    intro hx hno
    rcases (hmem x).1 hx with hx | rfl
    · exact hs.waiting hx hno
    · exact hs.fresh hfresh
  · rw [henqueued, hcopies]
    intro hx hleft
    have hne : x ≠ id := fun hid => hleft ((hmem x).2 (.inr hid))
    refine hs.left ((mem_cons.1 hx).resolve_left hne) fun hin => hleft ((hmem x).2 (.inl hin))

theorem Once.move (hs : Once x s) {a : Action ι J} (hundisturbed : Undisturbed x s a)
    (h : Move s a t) : Once x t := by
  cases h with
  | idle henqueued hpending hcopies hbatchers =>
    refine ⟨?_, ?_, ?_, ?_, ?_, ?_, ?_, ?_⟩
    · rw [hpending, henqueued]
      exact hs.pending
    · rw [hbatchers, henqueued]
      exact hs.held
    · rw [henqueued, hcopies]
      exact hs.fresh
    · rw [hbatchers]
      exact hs.sole
    · rw [hbatchers, hpending, hcopies]
      exact hs.working
    · rw [hbatchers, hcopies]
      exact hs.settled
    · rw [hbatchers, hpending, hcopies]
      exact hs.waiting
    · rw [henqueued, hpending, hcopies]
      exact hs.left
  | enqueue id hfresh henqueued hpending hcopies hbatchers =>
    exact hs.enqueue hfresh henqueued hpending (hcopies x) hbatchers
  | take i p hworks hidle hnone hpending hcopies hbatch hok =>
    exact hs.take hworks hidle hnone hpending (hcopies x) hbatch fun hx => hok x hx hundisturbed
  | copy i p e rest hworks hsettled htoDo hpending hcopies hheld he hok =>
    exact hs.copy hworks hsettled htoDo hpending (hcopies x) hheld he
      fun hid => hok (hid.symm ▸ hundisturbed)
  | remove i p e hworks hsome hnone hpending hcopies hheld hok =>
    exact hs.remove hworks hsome hnone hpending (hcopies x) hheld
      fun hid => hok (hid.symm ▸ hundisturbed)
  | skip i p hworks hnone hpending hcopies hheld hok =>
    refine hs.other hworks (fun e he hid => ?_) (by simp [hnone]) hpending (hcopies x) hheld
    exact hok e he (hid.symm ▸ hundisturbed)

/-- **Every audit event is recorded**, and only once unless it is disturbed: an event that was
inserted and has left the table is in the audit log or in the dead letters, however the batchers
overlap, fail and stop; and it is there once if in no step two batchers held it, the reply to its
recording was lost, its row was not deleted after it, or its batcher stopped before that. -/
theorem recorded_once {as : List (Action ι J)} (h : exec step State.init as = some s) {x : ℕ}
    (hx : x ∈ s.enqueued) (hleft : x ∉ s.pendingIds) :
    1 ≤ s.copies x ∧ (Meets step (Undisturbed x) State.init as → s.copies x = 1) :=
  ⟨copies_pos h hx hleft, fun hm =>
    (exec_invariant (fun _ _ _ hs hok h => hs.move hok (step_move h)) (once_init x) hm h).left
      hx hleft⟩

/-! ## Runs -/

/-- An entry by the system. -/
def roleChange : AuditEntry ℕ :=
  { tenantId := 7
    actorId := none
    actorType := .system
    action := "role.updated"
    resourceType := "role"
    resourceId := some "3"
    beforeState := none
    afterState := some 1
    aiRationale := none }

/-- The event fails once, is recorded by the next flush, and another batcher finds nothing left. -/
def oneEvent : List (Action (Fin 2) ℕ) :=
  [.enqueue 1 roleChange, .findBatch 0, .record 0 10 (.failed "timeout"), .recordFailure 0 .ok,
    .finish 0, .findBatch 0, .record 0 11 .ok, .delete 0 .ok, .findBatch 1, .finish 1, .finish 0]

theorem oneEvent_recorded :
    ∃ s, exec step State.init oneEvent = some s ∧ s.copies 1 = 1 := by
  obtain ⟨s, hs, hx, hleft⟩ : ∃ s, exec step State.init oneEvent = some s ∧
      1 ∈ s.enqueued ∧ 1 ∉ s.pendingIds := exists_exec (by decide +kernel)
  exact ⟨s, hs, (recorded_once hs hx hleft).2 (by decide +kernel)⟩

/-- Two batchers read one row, or one batcher stops between recording the event and deleting its
row: the event is recorded twice. -/
theorem recorded_twice :
    (∃ s : State (Fin 2) ℕ, exec step State.init
      [.enqueue 1 roleChange, .findBatch 0, .findBatch 1, .record 0 10 .ok, .record 1 11 .ok,
        .delete 0 .ok, .delete 1 .ok] = some s ∧
      1 ∈ s.enqueued ∧ 1 ∉ s.pendingIds ∧ s.copies 1 = 2) ∧
    ∃ s : State (Fin 1) ℕ, exec step State.init
      [.enqueue 1 roleChange, .findBatch 0, .record 0 10 .ok, .crash 0, .findBatch 0,
        .record 0 11 .ok, .delete 0 .ok] = some s ∧
      1 ∈ s.enqueued ∧ 1 ∉ s.pendingIds ∧ s.copies 1 = 2 :=
  ⟨exists_exec (by decide +kernel), exists_exec (by decide +kernel)⟩

end Workforce.Audit
