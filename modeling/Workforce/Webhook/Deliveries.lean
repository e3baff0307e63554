import Workforce.Eventing.Outbox

/-!
# The dispatch of webhook deliveries

`webhook-delivery-dispatcher.service.ts` and `webhook-deliveries.repository.ts`: any number of
dispatchers claim batches of pending deliveries under a lease and send them one by one. An answer
with a success status marks the delivery as delivered; any other outcome counts as a failed attempt,
and after five of them the delivery is dead-lettered.

Looking the subscription up, sending, being answered and marking are separate steps, between which
the other dispatchers move. A dispatcher works with the rows as the claim returned them, and marks
them by their id whatever has become of them. A marking statement commits, fails, or commits and
throws because the reply is lost.

* `Final`: what the log of a delivery should be like.
* `final_of_undisturbed`: it is like that unless the delivery is claimed while another dispatcher
  holds it, or what becomes of a request is not written down.
-/

namespace Workforce.Webhook

open Runs Tables Eventing List Function

/-! ## Subscriptions and deliveries -/

structure WebhookSubscription where
  id : ℕ
  tenantId : ℕ
  url : String
  secret : String
  subscribedSubjects : List String
  isActive : Bool

inductive WebhookDeliveryStatus
  | pending | delivered | deadLettered
  deriving DecidableEq

structure WebhookDelivery (Payload : Type*) where
  id : ℕ
  tenantId : ℕ
  subscriptionId : ℕ
  subject : String
  payload : Payload
  status : WebhookDeliveryStatus
  attempts : ℕ
  lastError : Option String
  createdAt : ℤ
  deliveredAt : Option ℤ
  claimedAt : Option ℤ

/-- `BATCH_SIZE`. -/
def deliveryBatchSize : ℕ := 50

/-- `MAX_ATTEMPTS_BEFORE_DEAD_LETTER`. -/
def maxAttemptsBeforeDeadLetter : ℕ := 5

/-- A request as it is sent. The signature is the HMAC of the time and the body under the secret,
which is kept as what it is made of. -/
structure Request (Payload : Type*) where
  url : String
  webhookId : ℕ
  webhookSubject : String
  body : Payload
  timestamp : ℤ
  secret : String

variable {Payload : Type*}

namespace WebhookDelivery

/-- The `WHERE` clause of the claim. -/
def claimable (now : ℤ) (d : WebhookDelivery Payload) : Bool :=
  d.status = .pending &&
    match d.claimedAt with
    | none => true
    | some claimedAt => claimedAt < now - outboxClaimLease

/-- A failure with these attempts dead-letters the delivery. -/
def exhausted (d : WebhookDelivery Payload) : Bool := maxAttemptsBeforeDeadLetter ≤ d.attempts + 1

/-- The request of `attemptDelivery`. -/
def request (d : WebhookDelivery Payload) (subscription : WebhookSubscription) (now : ℤ) :
    Request Payload :=
  ⟨subscription.url, d.id, d.subject, d.payload, now, subscription.secret⟩

end WebhookDelivery

/-- A row as `enqueue` inserts it. -/
def newDelivery (id tenantId subscriptionId : ℕ) (subject : String) (payload : Payload) (now : ℤ) :
    WebhookDelivery Payload :=
  { id := id
    tenantId := tenantId
    subscriptionId := subscriptionId
    subject := subject
    payload := payload
    status := .pending
    attempts := 0
    lastError := none
    createdAt := now
    deliveredAt := none
    claimedAt := none }

/-! ## The repository -/

section Repository

variable (rows : List (WebhookDelivery Payload))

/-- The ids that `findPendingBatch` takes: of the claimable rows that no other transaction has
locked, the oldest. -/
def claimedDeliveries (now : ℤ) (locked : List ℕ) : List ℕ :=
  (((rows.filter fun d => d.claimable now && d.id ∉ locked).mergeSort
    fun d d' => d.createdAt ≤ d'.createdAt).take deliveryBatchSize).map (·.id)

/-- The `UPDATE` of the claim. Its `RETURNING` gives the rows in no promised order; they are taken
in that of the table. -/
def claimDeliveries (now : ℤ) (ids : List ℕ) : List (WebhookDelivery Payload) :=
  rows.map fun d => if d.id ∈ ids then { d with claimedAt := some now } else d

def markDelivered (id : ℕ) (now : ℤ) : List (WebhookDelivery Payload) :=
  Tables.modify (·.id) id (fun d => { d with status := .delivered, deliveredAt := some now }) rows

def markDeadLettered (id : ℕ) (error : String) : List (WebhookDelivery Payload) :=
  Tables.modify (·.id) id (fun d => { d with status := .deadLettered, lastError := some error })
    rows

def recordDeliveryFailure (id : ℕ) (error : String) : List (WebhookDelivery Payload) :=
  Tables.modify (·.id) id
    (fun d => { d with attempts := d.attempts + 1, lastError := some error }) rows

end Repository

/-- `findOne` of the subscriptions, in the tenant of the delivery. -/
def findSubscription (subscriptions : List WebhookSubscription) (d : WebhookDelivery Payload) :
    Option WebhookSubscription :=
  subscriptions.find? fun subscription =>
    subscription.id = d.subscriptionId && subscription.tenantId = d.tenantId

/-! ## Dispatchers and steps -/

/-- Where a dispatcher is in `drain`. The deliveries are as the claim returned them. -/
inductive Dispatcher (Payload : Type*)
  | idle
  | draining (batch : List (WebhookDelivery Payload))
  /-- The subscription is missing or inactive. -/
  | orphaned (d : WebhookDelivery Payload) (rest : List (WebhookDelivery Payload))
  /-- The subscription is there; the request is next. -/
  | posting (d : WebhookDelivery Payload) (rest : List (WebhookDelivery Payload))
    (subscription : WebhookSubscription)
  /-- The request has been sent. -/
  | awaiting (d : WebhookDelivery Payload) (rest : List (WebhookDelivery Payload))
  /-- It has been answered with a success status. -/
  | accepted (d : WebhookDelivery Payload) (rest : List (WebhookDelivery Payload))
  /-- `handleFailure` within the `try`. -/
  | failing (d : WebhookDelivery Payload) (rest : List (WebhookDelivery Payload)) (error : String)
  /-- `handleFailure` within the `catch`. -/
  | caught (d : WebhookDelivery Payload) (rest : List (WebhookDelivery Payload)) (error : String)

/-- What happens to a delivery, for the statements. -/
inductive Happening
  | sent | delivered | deadLettered
  deriving DecidableEq

structure State (ι Payload : Type*) where
  clock : ℤ
  subscriptions : List WebhookSubscription
  rows : List (WebhookDelivery Payload)
  requests : List (Request Payload)
  dispatchers : ι → Dispatcher Payload
  /-- What has happened to the deliveries, the latest first. -/
  log : List (ℕ × Happening)

namespace State

variable {ι : Type*} [DecidableEq ι] (s : State ι Payload)

/-- The tables are empty. -/
def init : State ι Payload := ⟨0, [], [], [], fun _ => .idle, []⟩

def setDispatcher (i : ι) (p : Dispatcher Payload) : State ι Payload :=
  { s with dispatchers := update s.dispatchers i p }

/-- The state after a transaction, given what it writes and what it means. -/
def commit (c : Commit) (rows : List (WebhookDelivery Payload)) (happened : List (ℕ × Happening)) :
    State ι Payload :=
  match c with
  | .ok | .lost _ => { s with rows := rows, log := happened ++ s.log }
  | .failed _ => s

/-- The transaction of `markDeadLettered`. -/
def commitDeadLettered (c : Commit) (d : WebhookDelivery Payload) (error : String) :
    State ι Payload :=
  s.commit c (markDeadLettered s.rows d.id error) [(d.id, .deadLettered)]

/-- The transaction of `handleFailure`. -/
def handleFailure (c : Commit) (d : WebhookDelivery Payload) (error : String) : State ι Payload :=
  if d.exhausted then s.commitDeadLettered c d error
  else s.commit c (recordDeliveryFailure s.rows d.id error) []

end State

/-- A statement of a dispatcher, a request, or time that passes. -/
inductive Action (ι Payload : Type*)
  | tick (d : ℕ)
  /-- The table of subscriptions is edited. -/
  | subscribe (subscriptions : List WebhookSubscription)
  | enqueue (id tenantId subscriptionId : ℕ) (subject : String) (payload : Payload)
  | claim (i : ι) (locked : List ℕ)
  | findOne (i : ι) (error : Option String)
  | markOrphaned (i : ι) (c : Commit)
  | send (i : ι)
  /-- The request is answered with a status, or `fetch` throws. -/
  | respond (i : ι) (response : Except String ℕ)
  | markDelivered (i : ι) (c : Commit)
  | handleFailure (i : ι) (c : Commit)
  | finish (i : ι)
  | crash (i : ι)

variable {ι : Type*} [DecidableEq ι]

/-- One step. -/
def step (s : State ι Payload) : Action ι Payload → Option (State ι Payload)
  | .tick d => some { s with clock := s.clock + d }
  | .subscribe subscriptions => some { s with subscriptions := subscriptions }
  | .enqueue id tenantId subscriptionId subject payload =>
    if id ∈ s.rows.map (·.id) then none
    else
      some { s with
        rows := s.rows ++ [newDelivery id tenantId subscriptionId subject payload s.clock] }
  | .claim i locked =>
    match s.dispatchers i with
    | .idle =>
      let ids := claimedDeliveries s.rows s.clock locked
      let rows := claimDeliveries s.rows s.clock ids
      some ({ s with rows := rows }.setDispatcher i (.draining (rows.filter (·.id ∈ ids))))
    | _ => none
  | .findOne i error =>
    match s.dispatchers i with
    | .draining (d :: rest) =>
      match error with
      -- An error here leaves `drain`.
      | some _ => some (s.setDispatcher i .idle)
      | none =>
        match findSubscription s.subscriptions d with
        | none => some (s.setDispatcher i (.orphaned d rest))
        | some subscription =>
          some (s.setDispatcher i
            (if subscription.isActive then .posting d rest subscription else .orphaned d rest))
    | _ => none
  | .markOrphaned i c =>
    match s.dispatchers i with
    | .orphaned d rest =>
      let t := s.commitDeadLettered c d "subscription deleted or deactivated since enqueue"
      some (t.setDispatcher i (if c.error.isNone then .draining rest else .idle))
    | _ => none
  | .send i =>
    match s.dispatchers i with
    | .posting d rest subscription =>
      some ({ s with
        requests := d.request subscription s.clock :: s.requests,
        log := (d.id, .sent) :: s.log }.setDispatcher i (.awaiting d rest))
    | _ => none
  | .respond i response =>
    match s.dispatchers i with
    | .awaiting d rest =>
      match response with
      | .ok status =>
        some (s.setDispatcher i
          (if 200 ≤ status ∧ status ≤ 299 then .accepted d rest
          else .failing d rest s!"HTTP {status}"))
      | .error message => some (s.setDispatcher i (.caught d rest message))
    | _ => none
  | .markDelivered i c =>
    match s.dispatchers i with
    | .accepted d rest =>
      let t := s.commit c (markDelivered s.rows d.id s.clock) [(d.id, .delivered)]
      match c.error with
      | none => some (t.setDispatcher i (.draining rest))
      | some message => some (t.setDispatcher i (.caught d rest message))
    | _ => none
  | .handleFailure i c =>
    match s.dispatchers i with
    | .failing d rest error =>
      let t := s.handleFailure c d error
      match c.error with
      | none => some (t.setDispatcher i (.draining rest))
      | some message => some (t.setDispatcher i (.caught d rest message))
    | .caught d rest error =>
      -- An error here leaves `drain`.
      some ((s.handleFailure c d error).setDispatcher i
        (if c.error.isNone then .draining rest else .idle))
    | _ => none
  | .finish i =>
    match s.dispatchers i with
    | .draining [] => some (s.setDispatcher i .idle)
    | _ => none
  | .crash i => some (s.setDispatcher i .idle)

/-! ## Final outcomes -/

/-- How the log of a delivery, the latest first, should be: at most five requests, no dead letter
after a delivery, no request after a dead letter. -/
structure Final (log : List Happening) : Prop where
  sends : log.count .sent ≤ maxAttemptsBeforeDeadLetter
  delivered : log.Pairwise fun later earlier => earlier = .delivered → later ≠ .deadLettered
  deadLettered : log.Pairwise fun later earlier => earlier = .deadLettered → later ≠ .sent

/-- What has happened to a delivery, the latest first. -/
def State.logOf (s : State ι Payload) (x : ℕ) : List Happening :=
  s.log.filterMap fun entry => if entry.1 = x then some entry.2 else none

namespace Dispatcher

/-- The deliveries that are still to be sent. -/
def toSend : Dispatcher Payload → List (WebhookDelivery Payload)
  | .idle => []
  | .draining batch => batch
  | .orphaned d rest | .posting d rest _ => d :: rest
  | .awaiting _ rest | .accepted _ rest | .failing _ rest _ | .caught _ rest _ => rest

/-- The delivery that has been sent. -/
def inHand : Dispatcher Payload → Option (WebhookDelivery Payload)
  | .awaiting d _ | .accepted d _ | .failing d _ _ | .caught d _ _ => some d
  | .idle | .draining _ | .orphaned _ _ | .posting _ _ _ => none

/-- The deliveries that a dispatcher holds. -/
def held (p : Dispatcher Payload) : List ℕ := (p.inHand.toList ++ p.toSend).map (·.id)

/-- The delivery of which the `catch` is handling the failure. -/
def caughtDelivery : Dispatcher Payload → Option (WebhookDelivery Payload)
  | .caught d _ _ => some d
  | _ => none

end Dispatcher

/-- Nothing goes wrong with the delivery in this step: it is not claimed while another dispatcher
holds it; its dispatcher does not stop once it has been sent; its last attempt is not marked
delivered without the dispatcher knowing; and the `catch` writes the failed attempt down. -/
def Undisturbed (x : ℕ) (s : State ι Payload) : Action ι Payload → Prop
  | .claim i locked => x ∈ claimedDeliveries s.rows s.clock locked →
      ∀ j, j ≠ i → x ∉ (s.dispatchers j).held
  | .markDelivered i c => ∀ d ∈ (s.dispatchers i).inHand, d.id = x → d.exhausted → c.Told
  | .handleFailure i c => ∀ d ∈ (s.dispatchers i).caughtDelivery, d.id = x → c.Took
  | .crash i => ∀ d ∈ (s.dispatchers i).inHand, d.id ≠ x
  | _ => True

instance [Fintype ι] (x : ℕ) (s : State ι Payload) (a : Action ι Payload) :
    Decidable (Undisturbed x s a) := by
  cases a <;> unfold Undisturbed <;> infer_instance

/-! ## One delivery -/

/-- One delivery: the status and the attempts of its row, and what has happened to it. -/
structure View where
  row : Option (WebhookDeliveryStatus × ℕ)
  log : List Happening

omit [DecidableEq ι] in
def State.view (s : State ι Payload) (x : ℕ) : View :=
  ⟨(lookup (·.id) x s.rows).map fun d => (d.status, d.attempts), s.logOf x⟩

namespace View

variable (v : View)

/-- The requests so far. -/
def sends : ℕ := v.log.count .sent

/-- What one delivery looks like when nothing went wrong. -/
structure Ok : Prop where
  final : Final v.log
  fresh : v.row = none → v.log = []
  undelivered : ∀ status attempts, v.row = some (status, attempts) → status ≠ .delivered →
    .delivered ∉ v.log
  pending : ∀ attempts, v.row = some (.pending, attempts) → .deadLettered ∉ v.log

/-- The delivery is pending, and every request has been counted in the attempts that a dispatcher
has read. -/
def Waits (attempts : ℕ) : Prop :=
  ∃ current, v.row = some (.pending, current) ∧ attempts ≤ current ∧ v.sends ≤ attempts ∧
    v.sends < maxAttemptsBeforeDeadLetter

/-- While the delivery is pending, every request has been counted. -/
def Counted : Prop :=
  ∀ attempts, v.row = some (.pending, attempts) →
    v.sends ≤ attempts ∧ v.sends < maxAttemptsBeforeDeadLetter

/-- A further request has been sent. -/
def Sent (attempts : ℕ) : Prop :=
  ∃ current, v.row = some (.pending, current) ∧ attempts ≤ current ∧ v.sends ≤ attempts + 1

/-- And something has gone wrong: a marking may have taken effect. -/
def Caught (attempts : ℕ) : Prop :=
  ∃ status current, v.row = some (status, current) ∧ attempts ≤ current ∧ v.sends ≤ attempts + 1 ∧
    (maxAttemptsBeforeDeadLetter ≤ attempts + 1 → status ≠ .delivered)

variable {v} {attempts : ℕ}

theorem Waits.counted (h : v.Waits attempts) : v.Counted := by
  obtain ⟨current, hrow, hle, hsends, hfew⟩ := h
  intro current' hrow'
  obtain rfl : current = current' := by simpa [hrow] using hrow'
  exact ⟨hsends.trans hle, hfew⟩

theorem Sent.caught (h : v.Sent attempts) : v.Caught attempts := by
  obtain ⟨current, hrow, hle, hsends⟩ := h
  exact ⟨.pending, current, hrow, hle, hsends, fun _ => nofun⟩

/-- The request is sent. -/
def send (v : View) : View := { v with log := .sent :: v.log }

/-- The row is rewritten, and something happens with it. -/
def mark (f : WebhookDeliveryStatus × ℕ → WebhookDeliveryStatus × ℕ) (happened : List Happening)
    (v : View) : View :=
  ⟨v.row.map f, happened ++ v.log⟩

def deliver : View → View := mark (fun r => (.delivered, r.2)) [.delivered]

def deadLetter : View → View := mark (fun r => (.deadLettered, r.2)) [.deadLettered]

def fail : View → View := mark (fun r => (r.1, r.2 + 1)) []

theorem Waits.undelivered (hv : v.Ok) (h : v.Waits attempts) : .delivered ∉ v.log := by
  obtain ⟨current, hrow, -⟩ := h
  exact hv.undelivered _ _ hrow nofun

theorem Caught.undelivered (hv : v.Ok) (h : v.Caught attempts)
    (hlast : maxAttemptsBeforeDeadLetter ≤ attempts + 1) : .delivered ∉ v.log := by
  obtain ⟨status, current, hrow, -, -, hstatus⟩ := h
  exact hv.undelivered _ _ hrow (hstatus hlast)

/-- A pending delivery that has been sent fewer than five times may be sent. -/
theorem Ok.send (hv : v.Ok) (h : v.Waits attempts) : v.send.Ok ∧ v.send.Sent attempts := by
  obtain ⟨current, hrow, hle, hcounted, hfew⟩ := h
  have hdead := hv.pending current hrow
  have hsends : v.send.sends = v.sends + 1 := by simp [sends, View.send]
  refine ⟨⟨⟨?_, ?_, ?_⟩, ?_, ?_, ?_⟩, current, hrow, hle, by omega⟩
  · show v.send.sends ≤ _
    omega
  · exact pairwise_cons.2 ⟨fun _ _ _ => nofun, hv.final.delivered⟩
  · refine pairwise_cons.2 ⟨fun h' hh' heq _ => ?_, hv.final.deadLettered⟩
    exact hdead (heq ▸ hh')
  · intro hnone
    rw [View.send, hrow] at hnone
    cases hnone
  · intro status current' hrow' hstatus
    have hno := hv.undelivered status current' hrow' hstatus
    simpa [View.send] using hno
  · intro current' hrow'
    simpa [View.send] using hdead

theorem Ok.deliver (hv : v.Ok) (h : v.Sent attempts) : v.deliver.Ok := by
  obtain ⟨current, hrow, -⟩ := h
  have hrow' : v.deliver.row = some (.delivered, current) := by simp [View.deliver, mark, hrow]
  refine ⟨⟨?_, ?_, ?_⟩, ?_, ?_, ?_⟩
  · simpa [View.deliver, mark] using hv.final.sends
  · exact pairwise_cons.2 ⟨fun _ _ _ => nofun, hv.final.delivered⟩
  · exact pairwise_cons.2 ⟨fun _ _ _ => nofun, hv.final.deadLettered⟩
  · rw [hrow']
    nofun
  · intro status current' heq hstatus
    rw [hrow'] at heq
    cases heq
    exact absurd rfl hstatus
  · rw [hrow']
    nofun

theorem Ok.deadLetter (hv : v.Ok) (hrow : v.row ≠ none) (h : .delivered ∉ v.log) :
    v.deadLetter.Ok := by
  obtain ⟨⟨status, current⟩, hrow⟩ := Option.ne_none_iff_exists'.1 hrow
  have hrow' : v.deadLetter.row = some (.deadLettered, current) := by
    simp [View.deadLetter, mark, hrow]
  refine ⟨⟨?_, ?_, ?_⟩, ?_, ?_, ?_⟩
  · simpa [View.deadLetter, mark] using hv.final.sends
  · refine pairwise_cons.2 ⟨fun h' hh' heq _ => ?_, hv.final.delivered⟩
    exact h (heq ▸ hh')
  · exact pairwise_cons.2 ⟨fun _ _ _ => nofun, hv.final.deadLettered⟩
  · rw [hrow']
    nofun
  · intro _ _ _ _
    simpa [View.deadLetter, mark] using h
  · rw [hrow']
    nofun

theorem Ok.fail (hv : v.Ok) : v.fail.Ok := by
  have hrow : ∀ {status current}, v.fail.row = some (status, current) →
      ∃ current', v.row = some (status, current') := by
    intro status current h
    obtain ⟨⟨status', current'⟩, h', heq⟩ := Option.map_eq_some_iff.1 h
    cases heq
    exact ⟨current', h'⟩
  refine ⟨hv.final, fun h => ?_, ?_, ?_⟩
  · exact hv.fresh (Option.map_eq_none_iff.1 h)
  · intro status current h hstatus
    obtain ⟨current', h'⟩ := hrow h
    exact hv.undelivered status current' h' hstatus
  · intro current h
    obtain ⟨current', h'⟩ := hrow h
    exact hv.pending current' h'

end View

/-! ## What the transactions do to it -/

namespace State

variable (s : State ι Payload)

omit [DecidableEq ι]

theorem view_commit {k x : ℕ} {c : Commit} (happened : List Happening)
    {f : WebhookDelivery Payload → WebhookDelivery Payload}
    {g : WebhookDeliveryStatus × ℕ → WebhookDeliveryStatus × ℕ} (hid : ∀ d, (f d).id = d.id)
    (hg : ∀ d, ((f d).status, (f d).attempts) = g (d.status, d.attempts)) :
    (s.commit c (Tables.modify (·.id) k f s.rows) (happened.map fun h => (k, h))).view x =
      if x = k ∧ c.Took then (s.view x).mark g happened else s.view x := by
  have hview : ({ s with
      rows := Tables.modify (·.id) k f s.rows,
      log := happened.map (fun h => (k, h)) ++ s.log } : State ι Payload).view x =
        if x = k then (s.view x).mark g happened else s.view x := by
    have hlog : (happened.map fun h => (k, h)).filterMap
        (fun entry => if entry.1 = x then some entry.2 else none) =
          if x = k then happened else [] := by
      by_cases hx : x = k
      · subst hx
        simp
      · have hx' : k ≠ x := fun h => hx h.symm
        simp [hx, hx']
    unfold State.view State.logOf View.mark
    simp only [filterMap_append, hlog, lookup_modify hid]
    by_cases hx : x = k
    · simp only [if_pos hx, Option.map_map]
      congr 2
      funext d
      exact hg d
    · simp only [if_neg hx, nil_append]
  cases c with
  | ok => simpa [commit, Commit.Took] using hview
  | lost message => simpa [commit, Commit.Took] using hview
  | failed message => simp [commit, Commit.Took]

theorem view_markDelivered (x : ℕ) (c : Commit) (d : WebhookDelivery Payload) (now : ℤ) :
    (s.commit c (markDelivered s.rows d.id now) [(d.id, .delivered)]).view x =
      if x = d.id ∧ c.Took then (s.view x).deliver else s.view x :=
  s.view_commit [.delivered]
    (f := fun d => { d with status := .delivered, deliveredAt := some now }) (fun _ => rfl)
    fun _ => rfl

theorem view_commitDeadLettered (x : ℕ) (c : Commit) (d : WebhookDelivery Payload)
    (error : String) :
    (s.commitDeadLettered c d error).view x =
      if x = d.id ∧ c.Took then (s.view x).deadLetter else s.view x :=
  s.view_commit [.deadLettered]
    (f := fun d => { d with status := .deadLettered, lastError := some error }) (fun _ => rfl)
    fun _ => rfl

theorem view_handleFailure (x : ℕ) (c : Commit) (d : WebhookDelivery Payload) (error : String) :
    (s.handleFailure c d error).view x =
      if x = d.id ∧ c.Took then
        if d.exhausted then (s.view x).deadLetter else (s.view x).fail
      else s.view x := by
  unfold handleFailure
  split
  · exact s.view_commitDeadLettered x c d error
  · exact s.view_commit []
      (f := fun d => { d with attempts := d.attempts + 1, lastError := some error }) (fun _ => rfl)
      fun _ => rfl

theorem commit_dispatchers (c : Commit) (rows : List (WebhookDelivery Payload))
    (happened : List (ℕ × Happening)) : (s.commit c rows happened).dispatchers = s.dispatchers := by
  cases c <;> rfl

theorem handleFailure_dispatchers (c : Commit) (d : WebhookDelivery Payload) (error : String) :
    (s.handleFailure c d error).dispatchers = s.dispatchers := by
  unfold handleFailure
  split <;> exact s.commit_dispatchers ..

theorem commit_ids {c : Commit} {k : ℕ} {f : WebhookDelivery Payload → WebhookDelivery Payload}
    (hid : ∀ d, (f d).id = d.id) (happened : List (ℕ × Happening)) :
    (s.commit c (Tables.modify (·.id) k f s.rows) happened).rows.map (·.id) =
      s.rows.map (·.id) := by
  cases c with
  | ok => exact map_key_modify hid s.rows
  | lost message => exact map_key_modify hid s.rows
  | failed message => rfl

theorem commitDeadLettered_ids (c : Commit) (d : WebhookDelivery Payload) (error : String) :
    (s.commitDeadLettered c d error).rows.map (·.id) = s.rows.map (·.id) :=
  s.commit_ids (f := fun d => { d with status := .deadLettered, lastError := some error })
    (fun _ => rfl) _

theorem handleFailure_ids (c : Commit) (d : WebhookDelivery Payload) (error : String) :
    (s.handleFailure c d error).rows.map (·.id) = s.rows.map (·.id) := by
  unfold handleFailure
  split
  · exact s.commitDeadLettered_ids c d error
  · exact s.commit_ids
      (f := fun d => { d with attempts := d.attempts + 1, lastError := some error })
      (fun _ => rfl) _

end State

/-! ## The invariant -/

/-- What the dispatcher has read of the delivery is right. -/
structure Dispatcher.Fits (x : ℕ) (v : View) (p : Dispatcher Payload) : Prop where
  toSend : ∀ d ∈ p.toSend, d.id = x → v.Waits d.attempts
  inHand : p.caughtDelivery = none → ∀ d ∈ p.inHand, d.id = x → v.Sent d.attempts
  caught : ∀ d ∈ p.caughtDelivery, d.id = x → v.Caught d.attempts

/-- While nothing disturbs the delivery, at most one dispatcher holds it, and every request is
counted by the time the next one is sent. -/
structure Inv (x : ℕ) (s : State ι Payload) : Prop where
  ids : (s.rows.map (·.id)).Nodup
  held : ∀ i, (s.dispatchers i).held.Nodup
  sole : ∀ i j, x ∈ (s.dispatchers i).held → x ∈ (s.dispatchers j).held → i = j
  fits : ∀ i, (s.dispatchers i).Fits x (s.view x)
  ok : (s.view x).Ok
  waiting : (∀ i, ∀ d ∈ (s.dispatchers i).inHand, d.id ≠ x) → (s.view x).Counted

namespace Dispatcher

variable {p : Dispatcher Payload}

theorem mem_held {x : ℕ} :
    x ∈ p.held ↔ (∃ d ∈ p.inHand, d.id = x) ∨ ∃ d ∈ p.toSend, d.id = x := by
  simp [held]

theorem fits_of_not_held {x : ℕ} (h : x ∉ p.held) (v : View) :
    p.Fits x v where
  toSend := fun d hd hid => absurd (mem_held.2 (.inr ⟨d, hd, hid⟩)) h
  inHand := fun _ d hd hid => absurd (mem_held.2 (.inl ⟨d, hd, hid⟩)) h
  caught := by
    intro d hd hid
    refine absurd (mem_held.2 (.inl ⟨d, ?_, hid⟩)) h
    cases p with
    | caught => exact hd
    | idle | draining | orphaned | posting | awaiting | accepted | failing => cases hd

theorem fits_idle (x : ℕ) (v : View) : (idle : Dispatcher Payload).Fits x v :=
  fits_of_not_held not_mem_nil v

theorem Fits.row_ne_none {x : ℕ} {v : View} (h : p.Fits x v) (hx : x ∈ p.held) : v.row ≠ none := by
  rcases mem_held.1 hx with ⟨d, hd, hid⟩ | ⟨d, hd, hid⟩
  · cases hcaught : p.caughtDelivery with
    | none =>
      obtain ⟨current, hrow, -⟩ := h.inHand hcaught d hd hid
      rw [hrow]
      exact Option.some_ne_none _
    | some d' =>
      cases p with
      | caught d₀ rest error =>
        cases hcaught
        cases hd
        obtain ⟨status, current, hrow, -⟩ := h.caught _ rfl hid
        rw [hrow]
        exact Option.some_ne_none _
      | idle | draining | orphaned | posting | awaiting | accepted | failing => cases hcaught
  · obtain ⟨current, hrow, -⟩ := h.toSend d hd hid
    rw [hrow]
    exact Option.some_ne_none _

end Dispatcher

omit [DecidableEq ι] in
theorem inv_init (x : ℕ) : Inv x (State.init : State ι Payload) where
  ids := nodup_nil
  held := fun _ => nodup_nil
  sole := fun _ _ h => absurd h not_mem_nil
  fits := fun _ => Dispatcher.fits_idle _ _
  ok := ⟨⟨by simp [State.view, State.logOf, State.init], Pairwise.nil, Pairwise.nil⟩,
    fun _ => rfl, nofun, nofun⟩
  waiting := fun _ => nofun

variable {s t : State ι Payload} {x : ℕ} {i : ι} {p : Dispatcher Payload}

/-- A dispatcher moves on, holding no more than it did: either nothing happens to the delivery, or
the dispatcher holds it. -/
theorem Inv.work (hs : Inv x s) (hids : t.rows.map (·.id) = s.rows.map (·.id))
    (hdispatchers : t.dispatchers = update s.dispatchers i p)
    (hheld : p.held.Sublist (s.dispatchers i).held)
    (hview : t.view x = s.view x ∨ x ∈ (s.dispatchers i).held)
    (hfits : p.Fits x (t.view x)) (hok : (t.view x).Ok)
    (hwaiting : (∀ d ∈ p.inHand, d.id ≠ x) →
      (t.view x = s.view x ∧ ∀ d ∈ (s.dispatchers i).inHand, d.id ≠ x) ∨ (t.view x).Counted) :
    Inv x t := by
  have hsub : ∀ j, (t.dispatchers j).held.Sublist (s.dispatchers j).held := by
    rw [hdispatchers]
    exact (forall_update_iff _ (p := fun j (q : Dispatcher Payload) =>
      q.held.Sublist (s.dispatchers j).held)).2 ⟨hheld, fun j _ => Sublist.refl _⟩
  refine ⟨hids ▸ hs.ids, fun j => (hs.held j).sublist (hsub j), fun j k hj hk => ?_, ?_, hok, ?_⟩
  · exact hs.sole j k ((hsub j).subset hj) ((hsub k).subset hk)
  · rw [hdispatchers]
    refine (forall_update_iff _ (p := fun _ (q : Dispatcher Payload) =>
      q.Fits x (t.view x))).2 ⟨hfits, fun j hj => ?_⟩
    rcases hview with hview | hx
    · rw [hview]
      exact hs.fits j
    · exact Dispatcher.fits_of_not_held (fun hxj => hj (hs.sole j i hxj hx)) _
  · intro hno
    have hi := hno i
    rw [hdispatchers, update_self] at hi
    rcases hwaiting hi with ⟨hview, hsi⟩ | hcounted
    · rw [hview]
      refine hs.waiting fun j d hd => ?_
      by_cases hj : j = i
      · rw [hj] at hd
        exact hsi d hd
      · refine hno j d ?_
        rwa [hdispatchers, update_of_ne hj]
    · exact hcounted

variable {d : WebhookDelivery Payload} {c : Commit}

/-- A marking statement has been executed for the delivery at hand, and its dispatcher goes on to
the next one, or to the `catch`, or leaves. -/
theorem Inv.mark (hs : Inv x s) {rest : List (WebhookDelivery Payload)} {v : View}
    (hids : t.rows.map (·.id) = s.rows.map (·.id))
    (hdispatchers : t.dispatchers = update s.dispatchers i p)
    (hi : (s.dispatchers i).held = d.id :: rest.map (·.id))
    (htoSend : ∀ d' ∈ rest, d' ∈ (s.dispatchers i).toSend)
    (hhand : ∀ d' ∈ (s.dispatchers i).inHand, d' = d) (hp : p.toSend.Sublist rest)
    (hp' : p.inHand = p.caughtDelivery ∧ ∀ d' ∈ p.inHand, d' = d)
    (hview : t.view x = if x = d.id ∧ c.Took then v else s.view x)
    (hok : x = d.id → c.Took → v.Ok) (hcaught : x = d.id → p.caughtDelivery ≠ none →
      if c.Took then v.Caught d.attempts else (s.view x).Caught d.attempts)
    (hdone : x = d.id → p.caughtDelivery = none →
      if c.Took then v.Counted else (s.view x).Counted) :
    Inv x t := by
  have hsame : x ≠ d.id → t.view x = s.view x := fun hx => by rw [hview, if_neg fun h => hx h.1]
  have hheld : p.held.Sublist (s.dispatchers i).held := by
    rw [hi, Dispatcher.held]
    cases hin : p.inHand with
    | none => exact (hp.map _).trans (sublist_cons_self _ _)
    | some d' =>
      obtain rfl := hp'.2 d' hin
      exact (hp.map _).cons_cons d'.id
  refine hs.work hids hdispatchers hheld ?_ ⟨fun d' hd' hid => ?_, ?_, ?_⟩ ?_ fun hno => ?_
  · by_cases hx : x = d.id
    · right
      rw [hi, hx]
      exact mem_cons_self
    · exact .inl (hsame hx)
  · have hrest := hp.subset hd'
    have hx : x ≠ d.id := by
      intro hx
      have hnodup := hs.held i
      rw [hi, ← hx] at hnodup
      exact (nodup_cons.1 hnodup).1 (hid ▸ mem_map_of_mem hrest)
    rw [hsame hx]
    exact (hs.fits i).toSend d' (htoSend d' hrest) hid
  · intro hnone d' hd'
    rw [hp'.1, hnone] at hd'
    cases hd'
  · intro d' hd' hid
    obtain rfl := hp'.2 d' (hp'.1 ▸ hd')
    have h := hcaught hid.symm (by rw [hd']; nofun)
    rw [hview]
    split at h
    · rename_i htook
      rwa [if_pos ⟨hid.symm, htook⟩]
    · rename_i hfailed
      rwa [if_neg fun h => hfailed h.2]
  · rw [hview]
    split
    · rename_i hx
      exact hok hx.1 hx.2
    · exact hs.ok
  · by_cases hx : x = d.id
    · right
      have hnone : p.caughtDelivery = none := by
        cases hcaught' : p.caughtDelivery with
        | none => rfl
        | some d' =>
          have hd' : d' ∈ p.inHand := hp'.1 ▸ hcaught'
          exact absurd (hp'.2 d' hd' ▸ hx.symm) (hno d' hd')
      have h := hdone hx hnone
      rw [hview]
      split at h
      · rename_i htook
        rwa [if_pos ⟨hx, htook⟩]
      · rename_i hfailed
        rwa [if_neg fun h => hfailed h.2]
    · refine .inl ⟨hsame hx, fun d' hd' hid => hx ?_⟩
      rw [← hid, hhand d' hd']

theorem toSend_ite (b : Bool) (rest : List (WebhookDelivery Payload)) :
    let p : Dispatcher Payload := if b then .draining rest else .idle
    p.toSend.Sublist rest ∧ p.caughtDelivery = none ∧ p.inHand = none := by
  cases b
  · exact ⟨nil_sublist _, rfl, rfl⟩
  · exact ⟨Sublist.refl _, rfl, rfl⟩

theorem View.counted_of_ne {v : View} (status : WebhookDeliveryStatus)
    (hstatus : status ≠ .pending) (hrow : ∀ r ∈ v.row, r.1 = status) : v.Counted := by
  intro attempts h
  exact absurd (hrow _ h).symm hstatus

theorem View.counted_deadLetter (v : View) : v.deadLetter.Counted := by
  refine counted_of_ne .deadLettered nofun fun r hr => ?_
  obtain ⟨r₀, -, rfl⟩ := Option.map_eq_some_iff.1 hr
  rfl

theorem View.counted_deliver (v : View) : v.deliver.Counted := by
  refine counted_of_ne .delivered nofun fun r hr => ?_
  obtain ⟨r₀, -, rfl⟩ := Option.map_eq_some_iff.1 hr
  rfl

theorem Inv.markOrphaned (hs : Inv x s) (h : step s (.markOrphaned i c) = some t) : Inv x t := by
  simp only [step] at h
  split at h
  · rename_i d rest hi
    cases h
    obtain ⟨hsub, hcaught, hhand⟩ := toSend_ite c.error.isNone rest
    have hwaits : x = d.id → (s.view x).Waits d.attempts := by
      intro hx
      have hfits := hs.fits i
      rw [hi] at hfits
      exact hfits.toSend d mem_cons_self hx.symm
    refine hs.mark (i := i) (s.commitDeadLettered_ids c d _) ?_ ?_ ?_ ?_ hsub ?_
      (s.view_commitDeadLettered x c d _) ?_ ?_ ?_
    · simp only [State.setDispatcher, State.commitDeadLettered, State.commit_dispatchers]
    · rw [hi]
      rfl
    · rw [hi]
      exact fun d' hd' => mem_cons_of_mem _ hd'
    · rw [hi]
      exact forall_mem_none
    · exact ⟨hhand.trans hcaught.symm, by rw [hhand]; exact forall_mem_none⟩
    · intro hx _
      obtain ⟨current, hrow, -⟩ := hwaits hx
      exact hs.ok.deadLetter (by rw [hrow]; exact Option.some_ne_none _)
        ((hwaits hx).undelivered hs.ok)
    · exact fun _ hne => absurd hcaught hne
    · intro hx _
      split
      · exact View.counted_deadLetter _
      · exact (hwaits hx).counted
  · cases h

section Attempts

variable {v : View} {attempts : ℕ}

theorem View.Caught.counted_fail (h : v.Caught attempts)
    (hfew : ¬ maxAttemptsBeforeDeadLetter ≤ attempts + 1) : v.fail.Counted := by
  obtain ⟨status, current, hrow, hle, hsends, -⟩ := h
  intro current' hrow'
  have hcurrent : current' = current + 1 := by
    simp only [View.fail, View.mark, hrow, Option.map_some, Option.some.injEq, Prod.mk.injEq]
      at hrow'
    exact hrow'.2.symm
  have hsame : v.fail.sends = v.sends := rfl
  omega

theorem View.Sent.caught_fail (h : v.Sent attempts) : v.fail.Caught attempts := by
  obtain ⟨current, hrow, hle, hsends⟩ := h
  exact ⟨.pending, current + 1, by simp [View.fail, View.mark, hrow], hle.trans (Nat.le_succ _),
    hsends, fun _ => nofun⟩

theorem View.Sent.caught_deadLetter (h : v.Sent attempts) : v.deadLetter.Caught attempts := by
  obtain ⟨current, hrow, hle, hsends⟩ := h
  refine ⟨.deadLettered, current, by simp [View.deadLetter, View.mark, hrow], hle, ?_,
    fun _ => nofun⟩
  simpa [View.sends, View.deadLetter, View.mark] using hsends

theorem View.Sent.caught_deliver (h : v.Sent attempts)
    (hfew : ¬ maxAttemptsBeforeDeadLetter ≤ attempts + 1) : v.deliver.Caught attempts := by
  obtain ⟨current, hrow, hle, hsends⟩ := h
  refine ⟨.delivered, current, by simp [View.deliver, View.mark, hrow], hle, ?_,
    fun hlast => absurd hlast hfew⟩
  simpa [View.sends, View.deliver, View.mark] using hsends

end Attempts

theorem exhausted_iff :
    d.exhausted ↔ maxAttemptsBeforeDeadLetter ≤ d.attempts + 1 := by
  simp [WebhookDelivery.exhausted]

theorem Inv.markDelivered (hs : Inv x s) (hok : Undisturbed x s (.markDelivered i c))
    (h : step s (.markDelivered i c) = some t) : Inv x t := by
  simp only [step] at h
  split at h
  · rename_i d rest hi
    have hsent : x = d.id → (s.view x).Sent d.attempts := by
      intro hx
      have hfits := hs.fits i
      rw [hi] at hfits
      exact hfits.inHand rfl d rfl hx.symm
    have hids : ∀ c, (s.commit c (Webhook.markDelivered s.rows d.id s.clock)
        [(d.id, .delivered)]).rows.map (·.id) = s.rows.map (·.id) := fun c =>
      s.commit_ids (f := fun d => { d with status := .delivered, deliveredAt := some s.clock })
        (fun _ => rfl) _
    have hheld : (s.dispatchers i).held = d.id :: rest.map (·.id) := by rw [hi]; rfl
    have htoSend : ∀ d' ∈ rest, d' ∈ (s.dispatchers i).toSend := by rw [hi]; exact fun _ h => h
    have hhand : ∀ d' ∈ (s.dispatchers i).inHand, d' = d := by
      rw [hi]
      exact fun d' hd' => (Option.some.inj hd').symm
    split at h
    · rename_i hc
      cases h
      refine hs.mark (i := i) (p := .draining rest) (hids c) ?_ hheld htoSend hhand
        (Sublist.refl _) ⟨rfl, forall_mem_none⟩ (s.view_markDelivered x c d _)
        (fun hx _ => hs.ok.deliver (hsent hx)) ?_ ?_
      · simp only [State.setDispatcher, State.commit_dispatchers]
      · exact fun _ hne => absurd rfl hne
      · intro hx _
        rw [if_pos (Commit.took_of_error hc)]
        exact View.counted_deliver _
    · rename_i message hc
      cases h
      refine hs.mark (i := i) (p := .caught d rest message) (hids c) ?_ hheld htoSend hhand
        (Sublist.refl _) ⟨rfl, fun d' hd' => (Option.some.inj hd').symm⟩
        (s.view_markDelivered x c d _) (fun hx _ => hs.ok.deliver (hsent hx)) ?_ nofun
      · simp only [State.setDispatcher, State.commit_dispatchers]
      · intro hx _
        split
        · rename_i htook
          -- The reply has been lost, so this is not the last attempt.
          refine (hsent hx).caught_deliver fun hlast => ?_
          have htold := hok d (by rw [hi]; rfl) hx.symm (exhausted_iff.2 hlast)
          exact Commit.not_told_of_error htook hc htold
        · exact (hsent hx).caught
  · cases h

theorem View.ok_handleFailure {v : View} (hv : v.Ok) (h : v.Caught d.attempts) :
    (if d.exhausted then v.deadLetter else v.fail).Ok := by
  split
  · rename_i hlast
    obtain ⟨status, current, hrow, -⟩ := id h
    exact hv.deadLetter (by rw [hrow]; nofun) (h.undelivered hv (exhausted_iff.1 hlast))
  · exact hv.fail

theorem View.counted_handleFailure {v : View} (h : v.Caught d.attempts) :
    (if d.exhausted then v.deadLetter else v.fail).Counted := by
  split
  · exact View.counted_deadLetter _
  · rename_i hfew
    exact h.counted_fail fun hlast => hfew (exhausted_iff.2 hlast)

theorem Inv.handleFailure (hs : Inv x s) (hok : Undisturbed x s (.handleFailure i c))
    (h : step s (.handleFailure i c) = some t) : Inv x t := by
  simp only [step] at h
  split at h
  · rename_i d rest error hi
    have hsent : x = d.id → (s.view x).Sent d.attempts := by
      intro hx
      have hfits := hs.fits i
      rw [hi] at hfits
      exact hfits.inHand rfl d rfl hx.symm
    have hheld : (s.dispatchers i).held = d.id :: rest.map (·.id) := by rw [hi]; rfl
    have htoSend : ∀ d' ∈ rest, d' ∈ (s.dispatchers i).toSend := by rw [hi]; exact fun _ h => h
    have hhand : ∀ d' ∈ (s.dispatchers i).inHand, d' = d := by
      rw [hi]
      exact fun d' hd' => (Option.some.inj hd').symm
    split at h
    · rename_i hc
      cases h
      refine hs.mark (i := i) (p := .draining rest) (s.handleFailure_ids c d error) ?_ hheld
        htoSend hhand (Sublist.refl _) ⟨rfl, forall_mem_none⟩
        (s.view_handleFailure x c d error)
        (fun hx _ => View.ok_handleFailure hs.ok (hsent hx).caught) ?_ ?_
      · simp only [State.setDispatcher, State.handleFailure_dispatchers]
      · exact fun _ hne => absurd rfl hne
      · intro hx _
        rw [if_pos (Commit.took_of_error hc)]
        exact View.counted_handleFailure (hsent hx).caught
    · rename_i message hc
      cases h
      refine hs.mark (i := i) (p := .caught d rest message) (s.handleFailure_ids c d error) ?_
        hheld htoSend hhand (Sublist.refl _) ⟨rfl, fun d' hd' => (Option.some.inj hd').symm⟩
        (s.view_handleFailure x c d error)
        (fun hx _ => View.ok_handleFailure hs.ok (hsent hx).caught) ?_ nofun
      · simp only [State.setDispatcher, State.handleFailure_dispatchers]
      · intro hx _
        split
        · split
          · exact (hsent hx).caught_deadLetter
          · exact (hsent hx).caught_fail
        · exact (hsent hx).caught
  · rename_i d rest error hi
    cases h
    obtain ⟨hsub, hcaught, hhand⟩ := toSend_ite c.error.isNone rest
    have hsent : x = d.id → (s.view x).Caught d.attempts := by
      intro hx
      have hfits := hs.fits i
      rw [hi] at hfits
      exact hfits.caught d rfl hx.symm
    refine hs.mark (i := i) (s.handleFailure_ids c d error) ?_ ?_ ?_ ?_ hsub ?_
      (s.view_handleFailure x c d error) (fun hx _ => View.ok_handleFailure hs.ok (hsent hx)) ?_ ?_
    · simp only [State.setDispatcher, State.handleFailure_dispatchers]
    · rw [hi]
      rfl
    · rw [hi]
      exact fun _ h => h
    · rw [hi]
      exact fun d' hd' => (Option.some.inj hd').symm
    · exact ⟨hhand.trans hcaught.symm, by rw [hhand]; exact forall_mem_none⟩
    · exact fun _ hne => absurd hcaught hne
    · intro hx _
      rw [if_pos (hok d (by rw [hi]; rfl) hx.symm)]
      exact View.counted_handleFailure (hsent hx)
  · cases h

theorem Inv.send (hs : Inv x s) (h : step s (.send i) = some t) : Inv x t := by
  simp only [step] at h
  split at h
  · rename_i d rest subscription hi
    cases h
    have hfits := hs.fits i
    rw [hi] at hfits
    have hheld : (s.dispatchers i).held = d.id :: rest.map (·.id) := by rw [hi]; rfl
    have hview : ∀ p, (({ s with
        requests := d.request subscription s.clock :: s.requests,
        log := (d.id, .sent) :: s.log } : State ι Payload).setDispatcher i p).view x =
          if x = d.id then (s.view x).send else s.view x := by
      intro p
      unfold State.view State.logOf View.send
      by_cases hx : x = d.id
      · simp [State.setDispatcher, hx]
      · have hx' : d.id ≠ x := fun h => hx h.symm
        simp [State.setDispatcher, hx, hx']
    have hrest : x = d.id → ∀ d' ∈ rest, d'.id ≠ x := by
      intro hx d' hd' hid
      have hnodup := hs.held i
      rw [hheld, ← hx] at hnodup
      exact (nodup_cons.1 hnodup).1 (hid ▸ mem_map_of_mem hd')
    refine hs.work (i := i) (p := .awaiting d rest) rfl rfl ?_ ?_
      ⟨fun d' hd' hid => ?_, ?_, forall_mem_none⟩
      ?_ fun hno => ?_
    · rw [hheld]
      exact Sublist.refl _
    · by_cases hx : x = d.id
      · right
        rw [hheld, hx]
        exact mem_cons_self
      · left
        rw [hview, if_neg hx]
    · have hx : x ≠ d.id := fun hx => hrest hx d' hd' hid
      rw [hview, if_neg hx]
      exact hfits.toSend d' (mem_cons_of_mem _ hd') hid
    · intro _ d' hd' hid
      obtain rfl := Option.some.inj hd'
      rw [hview, if_pos hid.symm]
      exact (hs.ok.send (hfits.toSend d mem_cons_self hid)).2
    · rw [hview]
      split
      · rename_i hx
        exact (hs.ok.send (hfits.toSend d mem_cons_self hx.symm)).1
      · exact hs.ok
    · have hx : x ≠ d.id := fun hx => hno d rfl hx.symm
      refine .inl ⟨by rw [hview, if_neg hx], ?_⟩
      rw [hi]
      exact forall_mem_none
  · cases h

omit [DecidableEq ι] in
theorem mem_claimed (hn : (s.rows.map (·.id)).Nodup) (hd : d ∈ s.rows) {locked : List ℕ}
    (h : d.id ∈ claimedDeliveries s.rows s.clock locked) :
    d.status = .pending := by
  obtain ⟨d', hd', hid⟩ := mem_map.1 h
  have hd'' := mem_mergeSort.1 (mem_of_mem_take hd')
  rw [mem_filter, Bool.and_eq_true] at hd''
  obtain rfl := eq_of_key_eq hn hd''.1 hd hid
  have hclaimable := hd''.2.1
  rw [WebhookDelivery.claimable, Bool.and_eq_true, decide_eq_true_eq] at hclaimable
  exact hclaimable.1

theorem Inv.claim (hs : Inv x s) {locked : List ℕ} (hok : Undisturbed x s (.claim i locked))
    (h : step s (.claim i locked) = some t) : Inv x t := by
  simp only [step] at h
  split at h
  · rename_i hi
    cases h
    set ids := claimedDeliveries s.rows s.clock locked with hids
    set rows := claimDeliveries s.rows s.clock ids with hrows
    have hkeep : ∀ d : WebhookDelivery Payload,
        (if d.id ∈ ids then { d with claimedAt := some s.clock } else d).id = d.id := by
      intro d
      split <;> rfl
    have hrowIds : rows.map (·.id) = s.rows.map (·.id) := by
      rw [hrows, claimDeliveries, map_map]
      exact map_congr_left fun d _ => hkeep d
    have hview : ∀ p, (({ s with rows := rows } : State ι Payload).setDispatcher i p).view x =
        s.view x := by
      intro p
      have hrow : (lookup (·.id) x rows).map (fun d => (d.status, d.attempts)) =
          (lookup (·.id) x s.rows).map fun d => (d.status, d.attempts) := by
        rw [hrows, claimDeliveries, lookup_map hkeep, Option.map_map]
        congr 1
        funext d
        simp only [comp_apply]
        split <;> rfl
      simp only [State.view, State.setDispatcher, State.logOf, hrow]
    have hnone : ∀ d ∈ (s.dispatchers i).inHand, d.id ≠ x := by
      rw [hi]
      exact forall_mem_none
    have hheld : (Dispatcher.draining (rows.filter (·.id ∈ ids))).held =
        (rows.filter (·.id ∈ ids)).map (·.id) := rfl
    -- Nobody else holds a claimed delivery.
    have hothers : x ∈ (Dispatcher.draining (rows.filter (·.id ∈ ids))).held →
        ∀ j, j ≠ i → x ∉ (s.dispatchers j).held := by
      rw [hheld]
      intro hx
      obtain ⟨d, hd, rfl⟩ := mem_map.1 hx
      exact hok (by simpa using (mem_filter.1 hd).2)
    have hsi : x ∉ (s.dispatchers i).held := by
      rw [hi]
      exact not_mem_nil
    have hupdate : ∀ j, x ∈ (update s.dispatchers i (.draining (rows.filter (·.id ∈ ids))) j).held →
        (j = i ∧ ∀ k, k ≠ i → x ∉ (s.dispatchers k).held) ∨
          (x ∈ (s.dispatchers j).held ∧ j ≠ i) := by
      intro j hj
      by_cases hji : j = i
      · subst hji
        rw [update_self] at hj
        exact .inl ⟨rfl, hothers hj⟩
      · rw [update_of_ne hji] at hj
        exact .inr ⟨hj, hji⟩
    refine ⟨hrowIds ▸ hs.ids, ?_, fun j k hj hk => ?_, ?_, ?_, fun hno => ?_⟩
    · refine (forall_update_iff _ (p := fun _ (q : Dispatcher Payload) =>
        q.held.Nodup)).2 ⟨?_, fun j _ => hs.held j⟩
      rw [hheld]
      exact (hrowIds ▸ hs.ids : (rows.map (·.id)).Nodup).sublist (filter_sublist.map _)
    · rcases hupdate j hj with ⟨hji, hno⟩ | ⟨hxj, hji⟩
      · rcases hupdate k hk with ⟨hki, -⟩ | ⟨hxk, hki⟩
        · exact hji.trans hki.symm
        · exact absurd hxk (hno k hki)
      · rcases hupdate k hk with ⟨hki, hno⟩ | ⟨hxk, -⟩
        · exact absurd hxj (hno j hji)
        · exact hs.sole j k hxj hxk
    · rw [hview]
      refine (forall_update_iff _ (p := fun _ (q : Dispatcher Payload) =>
        q.Fits x (s.view x))).2 ⟨⟨fun d hd hid => ?_, fun _ => forall_mem_none,
          forall_mem_none⟩, fun j _ => hs.fits j⟩
      -- The claim returns the row as it is, and every request has been counted.
      obtain ⟨hmem, hin⟩ := mem_filter.1 hd
      have hin : d.id ∈ ids := by simpa using hin
      obtain ⟨d₀, hd₀, rfl⟩ := mem_map.1 hmem
      rw [hkeep] at hin hid
      have hrow : (s.view x).row = some (.pending, d₀.attempts) := by
        rw [← mem_claimed hs.ids hd₀ hin, ← hid, State.view, lookup_eq_some hs.ids hd₀]
        rfl
      have hattempts :
          (if d₀.id ∈ ids then { d₀ with claimedAt := some s.clock } else d₀).attempts =
            d₀.attempts := by
        split <;> rfl
      have hx : x ∈ (Dispatcher.draining (rows.filter (·.id ∈ ids))).held := by
        rw [hheld]
        refine mem_map.2 ⟨_, hd, ?_⟩
        show (if d₀.id ∈ ids then { d₀ with claimedAt := some s.clock } else d₀).id = x
        rw [hkeep, hid]
      have hcounted : (s.view x).Counted := hs.waiting fun j d' hd' hid' => by
        by_cases hj : j = i
        · exact hnone d' (hj ▸ hd') hid'
        · exact hothers hx j hj (Dispatcher.mem_held.2 (.inl ⟨d', hd', hid'⟩))
      rw [hattempts]
      exact ⟨d₀.attempts, hrow, le_rfl, hcounted _ hrow⟩
    · rw [hview]
      exact hs.ok
    · rw [hview]
      refine hs.waiting fun j d hd => ?_
      by_cases hj : j = i
      · exact hnone d (hj ▸ hd)
      · refine hno j d ?_
        show d ∈ (update s.dispatchers i _ j).inHand
        rwa [update_of_ne hj]
  · cases h

theorem Inv.enqueue (hs : Inv x s) {id tenantId subscriptionId : ℕ} {subject : String}
    {payload : Payload}
    (h : step s (.enqueue id tenantId subscriptionId subject payload) = some t) : Inv x t := by
  simp only [step] at h
  split at h
  · cases h
  · rename_i hfresh
    cases h
    have hne : ∀ d ∈ s.rows, d.id ≠ id := by
      intro d hd hid
      exact hfresh (hid ▸ mem_map_of_mem hd)
    set row := newDelivery id tenantId subscriptionId subject payload s.clock with hrow
    have hview : ({ s with rows := s.rows ++ [row] } : State ι Payload).view x =
        if x = id then ⟨some (.pending, 0), s.logOf x⟩ else s.view x := by
      have hlookup : lookup (·.id) x (s.rows ++ [row]) =
          if x = row.id then some row else lookup (·.id) x s.rows := lookup_append_singleton hne
      simp only [State.view, State.logOf, hlookup]
      by_cases hx : x = id
      · have hx' : x = row.id := hx
        simp [hx', hrow, newDelivery]
      · have hx' : x ≠ row.id := hx
        simp [hx, hx']
    have hids : (({ s with rows := s.rows ++ [row] } : State ι Payload).rows.map (·.id)).Nodup :=
      nodup_append_singleton hs.ids hne
    by_cases hx : x = id
    · -- Nobody holds a delivery that is not in the table, and nothing has happened to it.
      have hnone : (s.view x).row = none := by
        rw [State.view, Option.map_eq_none_iff, ← Option.not_isSome_iff_eq_none, lookup_isSome, hx]
        exact hfresh
      have hlog : s.logOf x = [] := hs.ok.fresh hnone
      have hfree : ∀ j, x ∉ (s.dispatchers j).held := fun j hxj => (hs.fits j).row_ne_none hxj hnone
      rw [if_pos hx, hlog] at hview
      refine ⟨hids, hs.held, hs.sole, fun j => ?_, ?_, fun _ => ?_⟩
      · exact Dispatcher.fits_of_not_held (hfree j) _
      · rw [hview]
        exact ⟨⟨Nat.zero_le _, Pairwise.nil, Pairwise.nil⟩, fun hno => (by cases hno),
          fun _ _ _ _ hno => (by cases hno), fun _ _ hno => by cases hno⟩
      · rw [hview]
        exact fun attempts _ => ⟨Nat.zero_le _, Nat.succ_pos _⟩
    · rw [if_neg hx] at hview
      refine ⟨hids, hs.held, hs.sole, ?_, ?_, ?_⟩
      · rw [hview]
        exact hs.fits
      · rw [hview]
        exact hs.ok
      · rw [hview]
        exact hs.waiting

theorem Inv.setDispatcher (hs : Inv x s) (hheld : p.held.Sublist (s.dispatchers i).held)
    (hfits : p.Fits x (s.view x))
    (hhand : (∀ d ∈ p.inHand, d.id ≠ x) → ∀ d ∈ (s.dispatchers i).inHand, d.id ≠ x) :
    Inv x (s.setDispatcher i p) :=
  hs.work rfl rfl hheld (.inl rfl) hfits hs.ok fun hno => .inl ⟨rfl, hhand hno⟩

theorem Inv.idle (hs : Inv x s) (hhand : ∀ d ∈ (s.dispatchers i).inHand, d.id ≠ x) :
    Inv x (s.setDispatcher i .idle) :=
  hs.setDispatcher (nil_sublist _) (Dispatcher.fits_idle _ _) fun _ => hhand

theorem Inv.keep (hs : Inv x s) {a : Action ι Payload} (hok : Undisturbed x s a)
    (h : step s a = some t) : Inv x t := by
  cases a with
  | tick d =>
    cases h
    exact ⟨hs.ids, hs.held, hs.sole, hs.fits, hs.ok, hs.waiting⟩
  | subscribe subscriptions =>
    cases h
    exact ⟨hs.ids, hs.held, hs.sole, hs.fits, hs.ok, hs.waiting⟩
  | enqueue id tenantId subscriptionId subject payload => exact hs.enqueue h
  | claim i locked => exact hs.claim hok h
  | findOne i error =>
    simp only [step] at h
    split at h
    · rename_i d rest hi
      have hfits := hs.fits i
      rw [hi] at hfits
      have hnone : ∀ d' ∈ (s.dispatchers i).inHand, d'.id ≠ x := by
        rw [hi]
        exact forall_mem_none
      have hmove : ∀ p : Dispatcher Payload, p.toSend = d :: rest → p.inHand = none →
          p.caughtDelivery = none → Inv x (s.setDispatcher i p) := by
        intro p htoSend hinHand hcaught
        refine hs.setDispatcher ?_ ⟨?_, ?_, ?_⟩ fun _ => hnone
        · rw [hi, Dispatcher.held, htoSend, hinHand]
          exact Sublist.refl _
        · rw [htoSend]
          exact hfits.toSend
        · rw [hinHand]
          exact fun _ => forall_mem_none
        · rw [hcaught]
          exact forall_mem_none
      split at h
      · cases h
        exact hs.idle hnone
      · split at h
        · cases h
          exact hmove _ rfl rfl rfl
        · cases h
          split
          · exact hmove _ rfl rfl rfl
          · exact hmove _ rfl rfl rfl
    · cases h
  | markOrphaned i c => exact hs.markOrphaned h
  | send i => exact hs.send h
  | respond i response =>
    simp only [step] at h
    split at h
    · rename_i d rest hi
      have hfits := hs.fits i
      rw [hi] at hfits
      have hmove : ∀ p : Dispatcher Payload, p.toSend = rest → p.inHand = some d →
          (∀ d' ∈ p.caughtDelivery, d' = d) → Inv x (s.setDispatcher i p) := by
        intro p htoSend hinHand hcaught
        refine hs.setDispatcher ?_ ⟨?_, ?_, ?_⟩ ?_
        · rw [hi, Dispatcher.held, htoSend, hinHand]
          exact Sublist.refl _
        · rw [htoSend]
          exact hfits.toSend
        · rw [hinHand]
          exact fun _ => hfits.inHand rfl
        · intro d' hd' hid
          rw [hcaught d' hd'] at hid ⊢
          exact (hfits.inHand rfl d rfl hid).caught
        · rw [hinHand, hi]
          exact fun h => h
      split at h
      · cases h
        split
        · exact hmove _ rfl rfl forall_mem_none
        · exact hmove _ rfl rfl forall_mem_none
      · cases h
        exact hmove _ rfl rfl fun d' hd' => (Option.some.inj hd').symm
    · cases h
  | markDelivered i c => exact hs.markDelivered hok h
  | handleFailure i c => exact hs.handleFailure hok h
  | finish i =>
    simp only [step] at h
    split at h
    · rename_i hi
      cases h
      exact hs.idle (by rw [hi]; exact forall_mem_none)
    · cases h
  | crash i =>
    cases h
    exact hs.idle hok

/-- **The outcome of a delivery is final unless it is disturbed**: in every run of any dispatchers
in which nothing goes wrong with the delivery, it is sent at most five times, it is not
dead-lettered after it has been delivered, and not sent after it has been dead-lettered. -/
theorem final_of_undisturbed {as : List (Action ι Payload)} {x : ℕ}
    (hm : Meets step (Undisturbed x) State.init as) :
    Always step (fun s => Final (s.logOf x)) State.init as :=
  always_of_invariant (fun _ hs => hs.ok.final) (fun _ _ _ hs hok h => hs.keep hok h) (inv_init x)
    hm

/-! ## Runs -/

/-- A subscription of the tenant. -/
def auditHook : WebhookSubscription :=
  ⟨3, 7, "https://example.test/hook", "secret", ["agno.core.audit.created.v1"], true⟩

/-- The first attempt is answered with an error, the second, by another dispatcher after the lease,
with a success. -/
def secondAttempt : List (Action (Fin 2) ℕ) :=
  [.subscribe [auditHook], .enqueue 1 7 3 "agno.core.audit.created.v1" 0, .claim 0 [],
    .findOne 0 none, .send 0, .respond 0 (.ok 500), .handleFailure 0 .ok, .finish 0, .tick 60001,
    .claim 1 [], .findOne 1 none, .send 1, .respond 1 (.ok 204), .markDelivered 1 .ok, .finish 1]

theorem secondAttempt_final : (exec step State.init secondAttempt).isSome ∧
    Always step (fun s => Final (s.logOf 1)) State.init secondAttempt :=
  ⟨by decide +kernel, final_of_undisturbed (by decide +kernel)⟩

/-- The batch of one dispatcher outlasts the lease: another one delivers, and then the first one
finds the subscription deactivated and dead-letters what has been delivered. -/
theorem delivered_deadLettered : ∃ s : State (Fin 2) ℕ, exec step State.init
    [.subscribe [auditHook], .enqueue 1 7 3 "agno.core.audit.created.v1" 0, .claim 0 [],
      .tick 60001, .claim 1 [], .findOne 1 none, .send 1, .respond 1 (.ok 204),
      .markDelivered 1 .ok, .subscribe [], .findOne 0 none, .markOrphaned 0 .ok] = some s ∧
      ¬ Final (s.logOf 1) := by
  obtain ⟨s, hs, hlog⟩ : ∃ s : State (Fin 2) ℕ, exec step State.init
      [.subscribe [auditHook], .enqueue 1 7 3 "agno.core.audit.created.v1" 0, .claim 0 [],
        .tick 60001, .claim 1 [], .findOne 1 none, .send 1, .respond 1 (.ok 204),
        .markDelivered 1 .ok, .subscribe [], .findOne 0 none, .markOrphaned 0 .ok] = some s ∧
        s.logOf 1 = [.deadLettered, .delivered, .sent] := exists_exec (by decide +kernel)
  refine ⟨s, hs, fun hfinal => ?_⟩
  have hpair := hfinal.delivered
  rw [hlog] at hpair
  exact (pairwise_cons.1 hpair).1 .delivered mem_cons_self rfl rfl

end Workforce.Webhook
