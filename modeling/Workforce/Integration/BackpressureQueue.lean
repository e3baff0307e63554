import Workforce.Foundations.Runs
import Mathlib.Algebra.Ring.Nat

/-!
# The backpressure queue

`backpressure-queue.ts`: accepted items wait in a queue of bounded length; a drain loop processes
its head, again after a delay while the receiver is degraded, and takes it off.

Between two awaits the loop runs to the end of what it does, so the last test of the queue and the
reset of `draining` are one step. The items may be enqueued wherever something else runs: while
`process` is pending (or has only been called), during a delay (or the callbacks before it), and in
`onDropped`, before the queue is tested again. Every call of `drainLoop` makes a loop of its own.

* `Orderly`: bounded, first in first out, with one loop that is there whenever an item is.
* `queue_orderly`: every run that is not stopped is so, and takes every accepted item off.
-/

namespace Workforce.Integration

open Runs List

inductive DropReason
  | queueFull
  | sustainedDegradation

structure BackpressureQueueOptions where
  capacity : ℕ
  maxDegradedRetries : Option ℕ
  backoffMs : Option (ℕ → ℕ)

namespace BackpressureQueueOptions

def defaultMaxDegradedRetries : ℕ := 5

def defaultBackoffMs (attempt : ℕ) : ℕ := min 30000 (500 * 2 ^ attempt)

def retries (options : BackpressureQueueOptions) : ℕ :=
  options.maxDegradedRetries.getD defaultMaxDegradedRetries

def delay (options : BackpressureQueueOptions) : ℕ → ℕ :=
  options.backoffMs.getD defaultBackoffMs

end BackpressureQueueOptions

/-- How a call of `process` ends. -/
inductive Settlement
  | success
  | failure
  /-- It throws an `IntradayUpstreamDegradedError`. -/
  | degraded
  deriving DecidableEq

/-- How an item leaves the queue. -/
inductive Outcome
  | processed
  | failed
  | dropped

/-- Where a drain loop is. -/
inductive DrainLoop (T : Type*)
  /-- Before the test of the queue. -/
  | top
  /-- `process` has been called, after some degraded attempts. -/
  | processing (item : T) (degradedAttempt : ℕ)
  /-- The timer is set. -/
  | backingOff (item : T) (degradedAttempt : ℕ)

/-- The fields of the queue, with the loops that are under way. -/
structure BackpressureQueue (T : Type*) where
  queue : List T
  draining : Bool
  stopped : Bool
  /-- The calls of `drainLoop` that have not returned. -/
  loops : List (DrainLoop T)
  /-- The items for which `enqueue` returned true. -/
  accepted : List T
  /-- The calls of `process`. -/
  calls : List T
  outcomes : List (T × Outcome)
  /-- The calls of `onDropped`. -/
  dropped : List (T × DropReason)
  /-- The calls of `onDegraded`. -/
  degraded : List (ℕ × ℕ)

/-- A call of a user, or the end of something that a loop awaits. -/
inductive QueueAction (T : Type*)
  | enqueue (item : T)
  | stop
  /-- The call of `process` of a loop ends. -/
  | settle (loop : ℕ) (settlement : Settlement)
  | timer (loop : ℕ)
  /-- `onDropped` returns to a loop. -/
  | resume (loop : ℕ)
  deriving DecidableEq

/-- The loop goes on. -/
def QueueAction.isTurn {T : Type*} : QueueAction T → Bool
  | enqueue _ | stop => false
  | settle .. | timer _ | resume _ => true

namespace BackpressureQueue

variable {T : Type*}

def new : BackpressureQueue T := ⟨[], false, false, [], [], [], [], [], []⟩

def size (q : BackpressureQueue T) : ℕ := q.queue.length

def stop (q : BackpressureQueue T) : BackpressureQueue T := { q with stopped := true }

/-- A loop calls `process`. -/
def callProcess (q : BackpressureQueue T) (loop : ℕ) (item : T) (degradedAttempt : ℕ) :
    BackpressureQueue T :=
  { q with
    loops := q.loops.set loop (.processing item degradedAttempt)
    calls := q.calls ++ [item] }

/-- The test of the `while` loop, and what comes before the next await. -/
def test (q : BackpressureQueue T) (loop : ℕ) : BackpressureQueue T :=
  if q.stopped then { q with draining := false, loops := q.loops.eraseIdx loop }
  else match q.queue with
    | [] => { q with draining := false, loops := q.loops.eraseIdx loop }
    | item :: _ => q.callProcess loop item 0

/-- It starts a loop unless one is draining. -/
def kick (q : BackpressureQueue T) : BackpressureQueue T :=
  if q.draining then q
  else { q with draining := true, loops := q.loops ++ [DrainLoop.top] }.test q.loops.length

def enqueue (options : BackpressureQueueOptions) (q : BackpressureQueue T) (item : T) :
    Bool × BackpressureQueue T :=
  if q.stopped then (false, q)
  else if options.capacity ≤ q.size then
    (false, { q with dropped := q.dropped ++ [(item, .queueFull)] })
  else (true, { q with queue := q.queue ++ [item], accepted := q.accepted ++ [item] }.kick)

/-- `queue.shift()`, after the last attempt for an item. -/
def shift (q : BackpressureQueue T) (item : T) (outcome : Outcome) : BackpressureQueue T :=
  { q with queue := q.queue.tail, outcomes := q.outcomes ++ [(item, outcome)] }

/-- What a loop does when `process` has ended. -/
def settle (options : BackpressureQueueOptions) (q : BackpressureQueue T) (loop : ℕ) (item : T)
    (degradedAttempt : ℕ) : Settlement → BackpressureQueue T
  | .success => (q.shift item .processed).test loop
  | .failure => (q.shift item .failed).test loop
  | .degraded =>
    if options.retries ≤ degradedAttempt then
      { q.shift item .dropped with
        dropped := q.dropped ++ [(item, .sustainedDegradation)]
        loops := q.loops.set loop .top }
    else
      { q with
        degraded := q.degraded ++ [(degradedAttempt, options.delay degradedAttempt)]
        loops := q.loops.set loop (.backingOff item (degradedAttempt + 1)) }

/-- What a loop does when its timer has fired. A stopped loop returns and leaves `draining`. -/
def wake (q : BackpressureQueue T) (loop : ℕ) (item : T) (degradedAttempt : ℕ) :
    BackpressureQueue T :=
  if q.stopped then { q with loops := q.loops.eraseIdx loop }
  else q.callProcess loop item degradedAttempt

def step (options : BackpressureQueueOptions) (q : BackpressureQueue T) :
    QueueAction T → Option (BackpressureQueue T)
  | .enqueue item => some (q.enqueue options item).2
  | .stop => some q.stop
  | .settle loop settlement =>
    match q.loops[loop]? with
    | some (.processing item degradedAttempt) =>
      some (q.settle options loop item degradedAttempt settlement)
    | _ => none
  | .timer loop =>
    match q.loops[loop]? with
    | some (.backingOff item degradedAttempt) => some (q.wake loop item degradedAttempt)
    | _ => none
  | .resume loop =>
    match q.loops[loop]? with
    | some .top => some (q.test loop)
    | _ => none

/-! ## What a queue promises -/

variable (options : BackpressureQueueOptions)

/-- The calls of `process` for items of which each was attempted so many times. -/
def callsFor (items : List T) (attempts : List ℕ) : List T :=
  (zipWith replicate attempts items).flatten

/-- The queue is bounded, and processes what it accepted in order. -/
structure Orderly (q : BackpressureQueue T) : Prop where
  size_le : q.size ≤ options.capacity
  /-- At most one call of `process` is pending. -/
  one_loop : q.loops.length ≤ 1
  /-- An item that was accepted has one outcome, or is still in the queue. -/
  accepted : q.accepted = q.outcomes.map Prod.fst ++ q.queue
  /-- The items were attempted one after the other, the head of the queue up to now. -/
  calls : ∃ attempts, attempts.length = q.outcomes.length ∧
    (∀ n ∈ attempts, 1 ≤ n ∧ n ≤ options.retries + 1) ∧
    ∃ n ≤ options.retries + 1,
      q.calls = callsFor (q.outcomes.map Prod.fst) attempts ++ callsFor q.queue [n]
  /-- A loop is there while an item is. -/
  active : q.queue ≠ [] → q.draining ∧ q.loops.length = 1

/-- As many turns as take a full queue off. -/
def turnsFor (items : ℕ) : ℕ := items * (2 * options.retries + 2) + 1

/-- The loop can go on while there is an item, and enough turns take every accepted item off,
whatever is enqueued meanwhile. -/
structure Flows (q : BackpressureQueue T) : Prop where
  turns : q.queue ≠ [] → ∃ a : QueueAction T, a.isTurn ∧ (q.step options a).isSome
  outcomes : ∀ as t, exec (step options) q as = some t → .stop ∉ as →
    turnsFor options q.size ≤ as.countP QueueAction.isTurn →
    q.accepted <+: t.outcomes.map Prod.fst

/-! ## The invariant -/

variable {options} {q t : BackpressureQueue T} {item : T} {n degradedAttempt : ℕ}

/-- A queue that runs, where the head has been attempted `n` times. -/
structure Ledger (options : BackpressureQueueOptions) (q : BackpressureQueue T) (n : ℕ) : Prop where
  running : q.stopped = false
  size_le : q.size ≤ options.capacity
  accepted : q.accepted = q.outcomes.map Prod.fst ++ q.queue
  calls : ∃ attempts, attempts.length = q.outcomes.length ∧
    (∀ k ∈ attempts, 1 ≤ k ∧ k ≤ options.retries + 1) ∧
    q.calls = callsFor (q.outcomes.map Prod.fst) attempts ++ callsFor q.queue [n]

/-- No loop and no item, or one loop with the attempts that it has made. -/
inductive Inv (options : BackpressureQueueOptions) (q : BackpressureQueue T) : Prop
  | idle (hledger : q.Ledger options 0) (hdraining : q.draining = false) (hloops : q.loops = [])
    (hqueue : q.queue = [])
  | top (hledger : q.Ledger options 0) (hdraining : q.draining = true) (hloops : q.loops = [.top])
  | processing {item : T} {degradedAttempt : ℕ} (hledger : q.Ledger options (degradedAttempt + 1))
    (hdraining : q.draining = true) (hloops : q.loops = [.processing item degradedAttempt])
    (hhead : q.queue.head? = some item) (hle : degradedAttempt ≤ options.retries)
  | backingOff {item : T} {degradedAttempt : ℕ} (hledger : q.Ledger options degradedAttempt)
    (hdraining : q.draining = true) (hloops : q.loops = [.backingOff item degradedAttempt])
    (hhead : q.queue.head? = some item) (hpos : 0 < degradedAttempt)
    (hle : degradedAttempt ≤ options.retries)

theorem callsFor_zero (items : List T) : callsFor items [0] = [] := by
  cases items <;> rfl

theorem callsFor_cons (item : T) (items : List T) (n : ℕ) :
    callsFor (item :: items) [n] = replicate n item := by
  rw [callsFor, zipWith_cons_cons, zipWith_nil_left, flatten_singleton]

theorem callsFor_append {items items' : List T} {attempts attempts' : List ℕ}
    (h : attempts.length = items.length) :
    callsFor (items ++ items') (attempts ++ attempts') =
      callsFor items attempts ++ callsFor items' attempts' := by
  rw [callsFor, zipWith_append h, flatten_append, callsFor, callsFor]

theorem head_eq_cons (h : q.queue.head? = some item) : q.queue = item :: q.queue.tail :=
  eq_cons_of_mem_head? h

theorem Ledger.shift (h : q.Ledger options n) (hhead : q.queue.head? = some item) (hpos : 1 ≤ n)
    (hle : n ≤ options.retries + 1) (outcome : Outcome) :
    (q.shift item outcome).Ledger options 0 := by
  have hqueue := head_eq_cons hhead
  obtain ⟨attempts, hlength, hattempts, hcalls⟩ := h.calls
  refine ⟨h.running, ?_, ?_, attempts ++ [n], ?_, ?_, ?_⟩
  · have hsize := h.size_le
    simp only [size, BackpressureQueue.shift, length_tail] at hsize ⊢
    omega
  · rw [BackpressureQueue.shift, map_append, append_assoc, h.accepted]
    exact congrArg _ hqueue
  · simp [BackpressureQueue.shift, hlength]
  · intro k hk
    rcases mem_append.1 hk with hk | hk
    · exact hattempts k hk
    · exact mem_singleton.1 hk ▸ ⟨hpos, hle⟩
  · rw [hqueue, callsFor_cons] at hcalls
    simp only [BackpressureQueue.shift, map_append, map_cons, map_nil]
    rw [callsFor_zero, append_nil, callsFor_append (by rw [length_map, hlength]), hcalls,
      callsFor_cons]

theorem Ledger.push (h : q.Ledger options n) (hroom : q.size < options.capacity)
    (hhead : q.queue = [] → n = 0) (item : T) :
    { q with queue := q.queue ++ [item], accepted := q.accepted ++ [item] }.Ledger options n := by
  obtain ⟨attempts, hlength, hattempts, hcalls⟩ := h.calls
  refine ⟨h.running, ?_, ?_, attempts, hlength, hattempts, ?_⟩
  · rw [size, length_append]
    exact hroom
  · dsimp only
    rw [h.accepted, append_assoc]
  · rw [hcalls]
    cases hqueue : q.queue with
    | nil => rw [hhead hqueue, callsFor_zero, callsFor_zero]
    | cons first rest => rw [cons_append, callsFor_cons, callsFor_cons]

theorem Ledger.callProcess (h : q.Ledger options n) (hhead : q.queue.head? = some item)
    (loop degradedAttempt : ℕ) :
    (q.callProcess loop item degradedAttempt).Ledger options (n + 1) := by
  have hqueue := head_eq_cons hhead
  obtain ⟨attempts, hlength, hattempts, hcalls⟩ := h.calls
  refine ⟨h.running, h.size_le, h.accepted, attempts, hlength, hattempts, ?_⟩
  simp only [BackpressureQueue.callProcess]
  rw [hcalls, hqueue, callsFor_cons, callsFor_cons, append_assoc, replicate_succ']

theorem test_of_nil (hrunning : q.stopped = false) (hqueue : q.queue = []) (loop : ℕ) :
    q.test loop = { q with draining := false, loops := q.loops.eraseIdx loop } := by
  rw [test, if_neg (by rw [hrunning]; exact Bool.false_ne_true), hqueue]

theorem test_of_head (hrunning : q.stopped = false) (hhead : q.queue.head? = some item)
    (loop : ℕ) : q.test loop = q.callProcess loop item 0 := by
  rw [test, if_neg (by rw [hrunning]; exact Bool.false_ne_true), head_eq_cons hhead]

variable {loop : DrainLoop T}

theorem Ledger.test (h : q.Ledger options 0) (hdraining : q.draining = true)
    (hloops : q.loops = [loop]) : (q.test 0).Inv options := by
  cases hhead : q.queue.head? with
  | none =>
    have hqueue := head?_eq_none_iff.1 hhead
    rw [test_of_nil h.running hqueue]
    refine .idle ⟨h.running, h.size_le, h.accepted, h.calls⟩ rfl ?_ hqueue
    dsimp only
    rw [hloops, eraseIdx_cons_zero]
  | some item =>
    rw [test_of_head h.running hhead]
    refine .processing (h.callProcess hhead 0 0) hdraining ?_ hhead (Nat.zero_le _)
    dsimp only [BackpressureQueue.callProcess]
    rw [hloops, set_cons_zero]

theorem inv_new : (new : BackpressureQueue T).Inv options :=
  .idle ⟨rfl, Nat.zero_le _, rfl, [], rfl, nofun, rfl⟩ rfl rfl rfl

theorem enqueue_of_full (hrunning : q.stopped = false) (hfull : options.capacity ≤ q.size)
    (item : T) : q.enqueue options item =
      (false, { q with dropped := q.dropped ++ [(item, .queueFull)] }) := by
  rw [enqueue, if_neg (by rw [hrunning]; exact Bool.false_ne_true), if_pos hfull]

theorem enqueue_of_draining (hrunning : q.stopped = false) (hroom : q.size < options.capacity)
    (hdraining : q.draining = true) (item : T) : q.enqueue options item =
      (true, { q with queue := q.queue ++ [item], accepted := q.accepted ++ [item] }) := by
  rw [enqueue, if_neg (by rw [hrunning]; exact Bool.false_ne_true), if_neg (not_le.2 hroom), kick,
    if_pos hdraining]

theorem enqueue_of_idle (hrunning : q.stopped = false) (hroom : q.size < options.capacity)
    (hdraining : q.draining = false) (hloops : q.loops = []) (item : T) : q.enqueue options item =
      (true, { q with
        queue := q.queue ++ [item]
        accepted := q.accepted ++ [item]
        draining := true
        loops := [DrainLoop.top] }.test 0) := by
  rw [enqueue, if_neg (by rw [hrunning]; exact Bool.false_ne_true), if_neg (not_le.2 hroom), kick,
    if_neg (by rw [hdraining]; exact Bool.false_ne_true)]
  dsimp only
  rw [hloops, nil_append, length_nil]

theorem Inv.ledger (h : q.Inv options) : ∃ n, q.Ledger options n := by
  cases h with
  | idle hledger | top hledger | processing hledger | backingOff hledger => exact ⟨_, hledger⟩

theorem Inv.running (h : q.Inv options) : q.stopped = false := by
  obtain ⟨_, hledger⟩ := h.ledger
  exact hledger.running

theorem inv_enqueue (h : q.Inv options) (item : T) : (q.enqueue options item).2.Inv options := by
  have hrunning := h.running
  rcases le_or_gt options.capacity q.size with hfull | hroom
  · rw [enqueue_of_full hrunning hfull]
    cases h with
    | idle hledger hdraining hloops hqueue =>
      exact .idle ⟨hrunning, hledger.size_le, hledger.accepted, hledger.calls⟩ hdraining hloops
        hqueue
    | top hledger hdraining hloops =>
      exact .top ⟨hrunning, hledger.size_le, hledger.accepted, hledger.calls⟩ hdraining hloops
    | processing hledger hdraining hloops hhead hle =>
      exact .processing ⟨hrunning, hledger.size_le, hledger.accepted, hledger.calls⟩ hdraining
        hloops hhead hle
    | backingOff hledger hdraining hloops hhead hpos hle =>
      exact .backingOff ⟨hrunning, hledger.size_le, hledger.accepted, hledger.calls⟩ hdraining
        hloops hhead hpos hle
  · have hhead' : ∀ {first : T}, q.queue.head? = some first →
        (q.queue ++ [item]).head? = some first := fun hhead => by
      rw [head?_append, hhead, Option.some_or]
    have hne : ∀ {first : T} {n : ℕ}, q.queue.head? = some first → q.queue = [] → n = 0 :=
      fun hhead hqueue => by rw [hqueue] at hhead; cases hhead
    cases h with
    | idle hledger hdraining hloops hqueue =>
      rw [enqueue_of_idle hrunning hroom hdraining hloops]
      have hpushed := hledger.push hroom (fun _ => rfl) item
      exact Ledger.test ⟨hrunning, hpushed.size_le, hpushed.accepted, hpushed.calls⟩ rfl rfl
    | top hledger hdraining hloops =>
      rw [enqueue_of_draining hrunning hroom hdraining]
      exact .top (hledger.push hroom (fun _ => rfl) item) hdraining hloops
    | processing hledger hdraining hloops hhead hle =>
      rw [enqueue_of_draining hrunning hroom hdraining]
      exact .processing (hledger.push hroom (hne hhead) item) hdraining hloops (hhead' hhead) hle
    | backingOff hledger hdraining hloops hhead hpos hle =>
      rw [enqueue_of_draining hrunning hroom hdraining]
      exact .backingOff (hledger.push hroom (hne hhead) item) hdraining hloops (hhead' hhead) hpos
        hle

/-! ## Turns -/

/-- What a turn of the one loop does. -/
inductive Turn (options : BackpressureQueueOptions) (q : BackpressureQueue T) :
    BackpressureQueue T → Prop
  | tested (hledger : q.Ledger options 0) (hdraining : q.draining = true)
    (hloops : q.loops = [.top]) : Turn options q (q.test 0)
  | finished {item : T} {degradedAttempt : ℕ} (hledger : q.Ledger options (degradedAttempt + 1))
    (hdraining : q.draining = true) (hloops : q.loops = [.processing item degradedAttempt])
    (hhead : q.queue.head? = some item) (hle : degradedAttempt ≤ options.retries)
    (outcome : Outcome) : Turn options q ((q.shift item outcome).test 0)
  | gaveUp {item : T} {degradedAttempt : ℕ} (hledger : q.Ledger options (degradedAttempt + 1))
    (hdraining : q.draining = true) (hloops : q.loops = [.processing item degradedAttempt])
    (hhead : q.queue.head? = some item) (hle : degradedAttempt ≤ options.retries) :
    Turn options q { q.shift item .dropped with
      dropped := q.dropped ++ [(item, .sustainedDegradation)], loops := [.top] }
  | backedOff {item : T} {degradedAttempt : ℕ} (hledger : q.Ledger options (degradedAttempt + 1))
    (hdraining : q.draining = true) (hloops : q.loops = [.processing item degradedAttempt])
    (hhead : q.queue.head? = some item) (hlt : degradedAttempt < options.retries) :
    Turn options q { q with
      degraded := q.degraded ++ [(degradedAttempt, options.delay degradedAttempt)]
      loops := [.backingOff item (degradedAttempt + 1)] }
  | retried {item : T} {degradedAttempt : ℕ} (hledger : q.Ledger options degradedAttempt)
    (hdraining : q.draining = true) (hloops : q.loops = [.backingOff item degradedAttempt])
    (hhead : q.queue.head? = some item) (hpos : 0 < degradedAttempt)
    (hle : degradedAttempt ≤ options.retries) :
    Turn options q (q.callProcess 0 item degradedAttempt)

variable {i : ℕ}

theorem eq_of_getElem? {loops : List (DrainLoop T)} {loop loop' : DrainLoop T}
    (hloops : loops = [loop]) (h : loops[i]? = some loop') : i = 0 ∧ loop = loop' := by
  subst hloops
  obtain ⟨hi, heq⟩ := List.getElem?_eq_some_iff.1 h
  obtain rfl : i = 0 := by simpa using hi
  exact ⟨rfl, heq⟩

theorem Inv.of_top (h : q.Inv options) (hloop : q.loops[i]? = some .top) :
    i = 0 ∧ q.Ledger options 0 ∧ q.draining = true ∧ q.loops = [.top] := by
  cases h with
  | idle hledger hdraining hloops => rw [hloops] at hloop; cases hloop
  | top hledger hdraining hloops =>
    exact ⟨(eq_of_getElem? hloops hloop).1, hledger, hdraining, hloops⟩
  | processing hledger hdraining hloops | backingOff hledger hdraining hloops =>
    cases (eq_of_getElem? hloops hloop).2

theorem Inv.of_processing (h : q.Inv options)
    (hloop : q.loops[i]? = some (.processing item degradedAttempt)) :
    i = 0 ∧ q.Ledger options (degradedAttempt + 1) ∧ q.draining = true ∧
      q.loops = [.processing item degradedAttempt] ∧ q.queue.head? = some item ∧
      degradedAttempt ≤ options.retries := by
  cases h with
  | idle hledger hdraining hloops => rw [hloops] at hloop; cases hloop
  | top hledger hdraining hloops | backingOff hledger hdraining hloops =>
    cases (eq_of_getElem? hloops hloop).2
  | processing hledger hdraining hloops hhead hle =>
    obtain ⟨hi, heq⟩ := eq_of_getElem? hloops hloop
    cases heq
    exact ⟨hi, hledger, hdraining, hloops, hhead, hle⟩

theorem Inv.of_backingOff (h : q.Inv options)
    (hloop : q.loops[i]? = some (.backingOff item degradedAttempt)) :
    i = 0 ∧ q.Ledger options degradedAttempt ∧ q.draining = true ∧
      q.loops = [.backingOff item degradedAttempt] ∧ q.queue.head? = some item ∧
      0 < degradedAttempt ∧ degradedAttempt ≤ options.retries := by
  cases h with
  | idle hledger hdraining hloops => rw [hloops] at hloop; cases hloop
  | top hledger hdraining hloops | processing hledger hdraining hloops =>
    cases (eq_of_getElem? hloops hloop).2
  | backingOff hledger hdraining hloops hhead hpos hle =>
    obtain ⟨hi, heq⟩ := eq_of_getElem? hloops hloop
    cases heq
    exact ⟨hi, hledger, hdraining, hloops, hhead, hpos, hle⟩

theorem turn_settle (h : q.Inv options)
    (hloop : q.loops[i]? = some (.processing item degradedAttempt)) (settlement : Settlement) :
    Turn options q (q.settle options i item degradedAttempt settlement) := by
  obtain ⟨rfl, hledger, hdraining, hloops, hhead, hle⟩ := h.of_processing hloop
  cases settlement with
  | success => exact .finished hledger hdraining hloops hhead hle .processed
  | failure => exact .finished hledger hdraining hloops hhead hle .failed
  | degraded =>
    rw [settle, hloops, set_cons_zero, set_cons_zero]
    split
    · exact .gaveUp hledger hdraining hloops hhead hle
    · exact .backedOff hledger hdraining hloops hhead (not_le.1 ‹_›)

variable {a : QueueAction T}

theorem turn_of_step (h : q.Inv options) (ha : a.isTurn = true)
    (hstep : q.step options a = some t) : Turn options q t := by
  cases a with
  | enqueue item => cases ha
  | stop => cases ha
  | settle i settlement =>
    simp only [step] at hstep
    split at hstep
    · cases hstep
      exact turn_settle h ‹_› settlement
    · cases hstep
  | timer i =>
    simp only [step] at hstep
    split at hstep
    · cases hstep
      obtain ⟨rfl, hledger, hdraining, hloops, hhead, hpos, hle⟩ := h.of_backingOff ‹_›
      rw [wake, if_neg (by rw [h.running]; exact Bool.false_ne_true)]
      exact .retried hledger hdraining hloops hhead hpos hle
    · cases hstep
  | resume i =>
    simp only [step] at hstep
    split at hstep
    · cases hstep
      obtain ⟨rfl, hledger, hdraining, hloops⟩ := h.of_top ‹_›
      exact .tested hledger hdraining hloops
    · cases hstep

theorem inv_turn (h : Turn options q t) : t.Inv options := by
  cases h with
  | tested hledger hdraining hloops => exact hledger.test hdraining hloops
  | finished hledger hdraining hloops hhead hle outcome =>
    exact (hledger.shift hhead (Nat.succ_pos _) (Nat.succ_le_succ hle) outcome).test hdraining
      hloops
  | gaveUp hledger hdraining hloops hhead hle =>
    have hshift := hledger.shift hhead (Nat.succ_pos _) (Nat.succ_le_succ hle) .dropped
    exact .top ⟨hshift.running, hshift.size_le, hshift.accepted, hshift.calls⟩ hdraining rfl
  | backedOff hledger hdraining hloops hhead hlt =>
    exact .backingOff ⟨hledger.running, hledger.size_le, hledger.accepted, hledger.calls⟩ hdraining
      rfl hhead (Nat.succ_pos _) hlt
  | retried hledger hdraining hloops hhead hpos hle =>
    refine .processing (hledger.callProcess hhead 0 _) hdraining ?_ hhead hle
    rw [callProcess, hloops, set_cons_zero]

theorem inv_step (h : q.Inv options) (ha : a ≠ .stop) (hstep : q.step options a = some t) :
    t.Inv options := by
  by_cases hturn : a.isTurn = true
  · exact inv_turn (turn_of_step h hturn hstep)
  · cases a with
    | enqueue item =>
      cases hstep
      exact inv_enqueue h item
    | stop => exact absurd rfl ha
    | settle | timer | resume => exact absurd rfl hturn

/-! ## Progress -/

/-- The turns of a loop until `n` items are off, the head of the queue among them. -/
def loopTurns (retries n : ℕ) : DrainLoop T → ℕ
  | .top => n * (2 * retries + 2) + 1
  | .processing _ degradedAttempt =>
    (n - 1) * (2 * retries + 2) + (2 * (retries - degradedAttempt) + 2)
  | .backingOff _ degradedAttempt =>
    (n - 1) * (2 * retries + 2) + (2 * (retries - degradedAttempt) + 3)

/-- The turns until the first `total` of the accepted items are off. -/
def turnsUntil (options : BackpressureQueueOptions) (total : ℕ) (q : BackpressureQueue T) : ℕ :=
  if q.outcomes.length < total then
    (q.loops.map (loopTurns options.retries (total - q.outcomes.length))).sum
  else 0

variable {total : ℕ}

theorem turnsUntil_of_loop (hloops : q.loops = [loop]) (hlt : q.outcomes.length < total) :
    turnsUntil options total q =
      loopTurns options.retries (total - q.outcomes.length) loop := by
  rw [turnsUntil, if_pos hlt, hloops, map_singleton, sum_singleton]

theorem turnsUntil_of_le (hle : total ≤ q.outcomes.length) :
    turnsUntil options total q = 0 :=
  if_neg (not_lt.2 hle)

theorem test_accepted_outcomes (q : BackpressureQueue T) (i : ℕ) :
    (q.test i).accepted = q.accepted ∧ (q.test i).outcomes = q.outcomes := by
  rw [test]
  split
  · exact ⟨rfl, rfl⟩
  · split <;> exact ⟨rfl, rfl⟩

theorem Ledger.length_accepted (h : q.Ledger options n) :
    q.accepted.length = q.outcomes.length + q.queue.length := by
  rw [h.accepted, length_append, length_map]

/-- After a test the items that are left are all still to be attempted. -/
theorem turnsUntil_test (h : q.Ledger options 0) (hloops : q.loops = [loop])
    (htotal : total ≤ q.accepted.length) : turnsUntil options total (q.test 0) ≤
      (total - q.outcomes.length) * (2 * options.retries + 2) := by
  have houtcomes := (test_accepted_outcomes q 0).2
  rcases le_or_gt total q.outcomes.length with hle | hlt
  · rw [turnsUntil_of_le (by rw [houtcomes]; exact hle)]
    exact Nat.zero_le _
  · cases hhead : q.queue.head? with
    | none =>
      rw [h.length_accepted, head?_eq_none_iff.1 hhead, length_nil] at htotal
      exact absurd htotal (not_le.2 hlt)
    | some item =>
      have htest : (q.test 0).loops = [.processing item 0] := by
        rw [test_of_head h.running hhead, callProcess, hloops, set_cons_zero]
      obtain ⟨left, hleft⟩ : ∃ left, total - q.outcomes.length = left + 1 :=
        ⟨total - q.outcomes.length - 1, by omega⟩
      have hsucc := Nat.add_one_mul left (2 * options.retries + 2)
      rw [turnsUntil_of_loop htest (by rw [houtcomes]; exact hlt), houtcomes, hleft, loopTurns,
        Nat.add_sub_cancel]
      omega

theorem turnsUntil_turn (h : Turn options q t) (htotal : total ≤ q.accepted.length) :
    turnsUntil options total t = 0 ∨ turnsUntil options total t < turnsUntil options total q := by
  rcases le_or_gt total q.outcomes.length with hle | hlt
  · -- the outcomes only grow
    refine .inl (turnsUntil_of_le (hle.trans ?_))
    cases h with
    | tested => rw [(test_accepted_outcomes q 0).2]
    | finished hledger hdraining hloops hhead hle outcome =>
      rw [(test_accepted_outcomes _ 0).2, shift, length_append]
      exact Nat.le_add_right _ _
    | gaveUp =>
      dsimp only [shift]
      rw [length_append]
      exact Nat.le_add_right _ _
    | backedOff => exact le_rfl
    | retried => exact le_rfl
  obtain ⟨left, hleft⟩ : ∃ left, total - q.outcomes.length = left + 1 :=
    ⟨total - q.outcomes.length - 1, by omega⟩
  have hless : total - (q.outcomes.length + 1) = left := by omega
  cases h with
  | tested hledger hdraining hloops =>
    refine .inr (lt_of_le_of_lt (turnsUntil_test hledger hloops htotal) ?_)
    rw [turnsUntil_of_loop hloops hlt, loopTurns]
    exact Nat.lt_succ_self _
  | finished hledger hdraining hloops hhead hle outcome =>
    have hshift := hledger.shift hhead (Nat.succ_pos _) (Nat.succ_le_succ hle) outcome
    refine .inr (lt_of_le_of_lt
      (turnsUntil_test (q := q.shift _ outcome) hshift hloops htotal) ?_)
    rw [turnsUntil_of_loop hloops hlt, hleft, loopTurns, Nat.add_sub_cancel, shift,
      length_append, length_singleton, hless]
    omega
  | @gaveUp item degradedAttempt hledger hdraining hloops hhead hle =>
    have hlength : (q.shift item .dropped).outcomes.length = q.outcomes.length + 1 := by
      rw [shift, length_append, length_singleton]
    rcases le_or_gt total (q.outcomes.length + 1) with hdone | hmore
    · exact .inl (turnsUntil_of_le (hdone.trans hlength.ge))
    · right
      rw [turnsUntil_of_loop hloops hlt, hleft, loopTurns, Nat.add_sub_cancel,
        turnsUntil_of_loop rfl (by dsimp only; rw [hlength]; exact hmore), loopTurns]
      dsimp only
      rw [hlength, hless]
      omega
  | backedOff hledger hdraining hloops hhead hltRetries =>
    right
    rw [turnsUntil_of_loop hloops hlt, loopTurns, turnsUntil]
    dsimp only
    rw [if_pos hlt, map_singleton, sum_singleton, loopTurns]
    omega
  | @retried item degradedAttempt hledger hdraining hloops hhead hpos hle =>
    right
    have hprocess : (q.callProcess 0 item degradedAttempt).loops =
        [.processing item degradedAttempt] := by
      rw [callProcess, hloops, set_cons_zero]
    rw [turnsUntil_of_loop hloops hlt, turnsUntil_of_loop hprocess hlt, loopTurns, loopTurns]
    exact Nat.lt_succ_self _

theorem turnsUntil_enqueue (h : q.Inv options) (item : T) (htotal : total ≤ q.accepted.length) :
    turnsUntil options total (q.enqueue options item).2 ≤ turnsUntil options total q := by
  have hrunning := h.running
  rcases le_or_gt options.capacity q.size with hfull | hroom
  · rw [enqueue_of_full hrunning hfull]
    exact le_rfl
  · cases hdraining : q.draining with
    | true =>
      rw [enqueue_of_draining hrunning hroom hdraining]
      exact le_rfl
    | false =>
      cases h with
      | idle hledger hdraining hloops hqueue =>
        rw [hledger.length_accepted, hqueue] at htotal
        rw [enqueue_of_idle hrunning hroom hdraining hloops,
          turnsUntil_of_le (by rw [(test_accepted_outcomes _ 0).2]; exact htotal)]
        exact Nat.zero_le _
      | top _ htrue | processing _ htrue | backingOff _ htrue =>
        rw [hdraining] at htrue
        cases htrue

theorem accepted_prefix_of_step (h : q.Inv options) (ha : a ≠ .stop)
    (hstep : q.step options a = some t) : q.accepted <+: t.accepted := by
  by_cases hturn : a.isTurn = true
  · cases turn_of_step h hturn hstep with
    | tested => rw [(test_accepted_outcomes q 0).1]
    | finished => rw [(test_accepted_outcomes _ 0).1, shift]
    | gaveUp | backedOff | retried => exact prefix_rfl
  · cases a with
    | enqueue item =>
      cases hstep
      rw [enqueue]
      split
      · exact prefix_rfl
      · split
        · exact prefix_rfl
        · rw [kick]
          split
          · exact prefix_append _ _
          · rw [(test_accepted_outcomes _ _).1]
            exact prefix_append _ _
    | stop => exact absurd rfl ha
    | settle | timer | resume => exact absurd rfl hturn

/-- **The step lemma** of the items that have been accepted. -/
theorem turnsUntil_step {items : List T} (h : q.Inv options ∧ items <+: q.accepted)
    (ha : a ≠ .stop) (hstep : q.step options a = some t) :
    (t.Inv options ∧ items <+: t.accepted) ∧
      turnsUntil options items.length t ≤ turnsUntil options items.length q ∧
      (a.isTurn = true →
        turnsUntil options items.length t = 0 ∨
          turnsUntil options items.length t < turnsUntil options items.length q) := by
  obtain ⟨hinv, hitems⟩ := h
  refine ⟨⟨inv_step hinv ha hstep, hitems.trans (accepted_prefix_of_step hinv ha hstep)⟩, ?_,
    fun hturn => turnsUntil_turn (turn_of_step hinv hturn hstep) hitems.length_le⟩
  by_cases hturn : a.isTurn = true
  · rcases turnsUntil_turn (turn_of_step hinv hturn hstep) hitems.length_le with hzero | hlt
    · exact hzero ▸ Nat.zero_le _
    · exact hlt.le
  · cases a with
    | enqueue item =>
      cases hstep
      exact turnsUntil_enqueue hinv item hitems.length_le
    | stop => exact absurd rfl ha
    | settle | timer | resume => exact absurd rfl hturn

theorem meets_of_not_stop {as : List (QueueAction T)} (h : .stop ∉ as) :
    Meets (step options) (fun _ a => a ≠ .stop) q as :=
  meets_of_mem fun _ ha _ heq => h (heq ▸ ha)

/-! ## Every run -/

theorem Inv.orderly (h : q.Inv options) : Orderly options q := by
  have hcalls : ∀ {n}, q.Ledger options n → n ≤ options.retries + 1 →
      ∃ attempts, attempts.length = q.outcomes.length ∧
        (∀ n ∈ attempts, 1 ≤ n ∧ n ≤ options.retries + 1) ∧ ∃ n ≤ options.retries + 1,
          q.calls = callsFor (q.outcomes.map Prod.fst) attempts ++ callsFor q.queue [n] := by
    intro n hledger hn
    obtain ⟨attempts, hlength, hattempts, hcalls⟩ := hledger.calls
    exact ⟨attempts, hlength, hattempts, n, hn, hcalls⟩
  cases h with
  | idle hledger hdraining hloops hqueue =>
    exact ⟨hledger.size_le, by rw [hloops]; exact Nat.zero_le _, hledger.accepted,
      hcalls hledger (Nat.zero_le _), fun hne => absurd hqueue hne⟩
  | top hledger hdraining hloops =>
    exact ⟨hledger.size_le, by rw [hloops]; exact le_rfl, hledger.accepted,
      hcalls hledger (Nat.zero_le _), fun _ => ⟨hdraining, by rw [hloops]; rfl⟩⟩
  | processing hledger hdraining hloops hhead hle =>
    exact ⟨hledger.size_le, by rw [hloops]; exact le_rfl, hledger.accepted,
      hcalls hledger (Nat.succ_le_succ hle), fun _ => ⟨hdraining, by rw [hloops]; rfl⟩⟩
  | backingOff hledger hdraining hloops hhead hpos hle =>
    exact ⟨hledger.size_le, by rw [hloops]; exact le_rfl, hledger.accepted,
      hcalls hledger (hle.trans (Nat.le_succ _)), fun _ => ⟨hdraining, by rw [hloops]; rfl⟩⟩

theorem Inv.exists_turn (h : q.Inv options) (hne : q.queue ≠ []) :
    ∃ a : QueueAction T, a.isTurn = true ∧ (q.step options a).isSome := by
  cases h with
  | idle _ _ _ hqueue => exact absurd hqueue hne
  | top _ _ hloops => exact ⟨.resume 0, rfl, by simp [step, hloops]⟩
  | processing _ _ hloops => exact ⟨.settle 0 .success, rfl, by simp [step, hloops]⟩
  | backingOff _ _ hloops => exact ⟨.timer 0, rfl, by simp [step, hloops]⟩

theorem loopTurns_le (retries n : ℕ) (loop : DrainLoop T) :
    loopTurns retries (n + 1) loop ≤ (n + 1) * (2 * retries + 2) + 1 := by
  have hsucc := Nat.add_one_mul n (2 * retries + 2)
  cases loop with
  | top => exact le_rfl
  | processing | backingOff =>
    rw [loopTurns, Nat.add_sub_cancel]
    omega

theorem turnsUntil_le (h : q.Inv options) :
    turnsUntil options q.accepted.length q ≤ turnsFor options q.size := by
  have hloop : ∀ {n loop}, q.Ledger options n → q.loops = [loop] →
      turnsUntil options q.accepted.length q ≤ turnsFor options q.size := by
    intro n loop hledger hloops
    have hlength := hledger.length_accepted
    cases hsize : q.queue.length with
    | zero =>
      rw [turnsUntil_of_le (by omega)]
      exact Nat.zero_le _
    | succ left =>
      have hleft : q.accepted.length - q.outcomes.length = left + 1 := by omega
      rw [turnsUntil_of_loop hloops (by omega), hleft, turnsFor, size, hsize]
      exact loopTurns_le _ _ _
  cases h with
  | idle hledger hdraining hloops hqueue =>
    rw [turnsUntil_of_le (by rw [hledger.length_accepted, hqueue]; exact le_rfl)]
    exact Nat.zero_le _
  | top hledger _ hloops | processing hledger _ hloops | backingOff hledger _ hloops =>
    exact hloop hledger hloops

theorem le_outcomes_of_turnsUntil (h : q.Inv options) (htotal : total ≤ q.accepted.length)
    (hzero : turnsUntil options total q = 0) :
    total ≤ q.outcomes.length := by
  by_contra hlt
  have hpos : ∀ {loop}, q.loops = [loop] → False := by
    intro loop hloops
    rw [turnsUntil_of_loop hloops (not_le.1 hlt)] at hzero
    cases loop <;> simp [loopTurns] at hzero
  cases h with
  | idle hledger hdraining hloops hqueue =>
    rw [hledger.length_accepted, hqueue] at htotal
    exact hlt htotal
  | top _ _ hloops | processing _ _ hloops | backingOff _ _ hloops => exact hpos hloops

theorem Inv.flows (h : q.Inv options) : Flows options q := by
  refine ⟨h.exists_turn, fun as t ht hgo hturns => ?_⟩
  have hmeets : Meets (step options) (fun _ a => a ≠ .stop) q as := meets_of_not_stop hgo
  have hzero : turnsUntil options q.accepted.length t = 0 :=
    measure_eq_zero (turnsUntil options q.accepted.length) QueueAction.isTurn
      (fun s a u hs hok hu => turnsUntil_step hs hok hu) ⟨h, prefix_rfl⟩ hmeets ht
      ((turnsUntil_le h).trans hturns)
  obtain ⟨hinv, hprefix⟩ : t.Inv options ∧ q.accepted <+: t.accepted :=
    exec_invariant (fun s a u hs hok hu => (turnsUntil_step hs hok hu).1) ⟨h, prefix_rfl⟩ hmeets ht
  obtain ⟨n, hledger⟩ := hinv.ledger
  have hdone := le_outcomes_of_turnsUntil hinv hprefix.length_le hzero
  rw [hledger.accepted] at hprefix
  exact prefix_of_prefix_length_le hprefix (prefix_append _ _) (by rw [length_map]; exact hdone)

/-- **The backpressure queue**: a run that is not stopped keeps the queue orderly, and takes every
accepted item off. -/
theorem queue_orderly (options : BackpressureQueueOptions) (as : List (QueueAction T))
    (hgo : .stop ∉ as) {q : BackpressureQueue T} (hq : exec (step options) new as = some q) :
    Orderly options q ∧ Flows options q := by
  have hinv : q.Inv options := exec_invariant (fun s a u hs hok hu => inv_step hs hok hu) inv_new
    (meets_of_not_stop hgo) hq
  exact ⟨hinv.orderly, hinv.flows⟩

/-- One place, an item that is retried, and one that finds the queue full. -/
theorem retried_orderly : ∃ q : BackpressureQueue ℕ,
    exec (step ⟨1, some 1, none⟩) new [.enqueue 7, .settle 0 .degraded, .enqueue 8, .timer 0,
      .settle 0 .success] = some q ∧
    q.outcomes = [(7, .processed)] ∧ q.calls = [7, 7] ∧ q.dropped = [(8, .queueFull)] ∧
    Orderly ⟨1, some 1, none⟩ q ∧ Flows ⟨1, some 1, none⟩ q := by
  refine ⟨_, rfl, rfl, rfl, rfl, ?_⟩
  exact queue_orderly ⟨1, some 1, none⟩
    [.enqueue 7, .settle 0 .degraded, .enqueue 8, .timer 0, .settle 0 .success]
    (by decide) rfl

end BackpressureQueue

end Workforce.Integration
