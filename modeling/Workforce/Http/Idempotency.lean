import Workforce.Eventing.Outbox
import Workforce.Foundations.Expiring

/-!
# Idempotency keys

`idempotency.interceptor.ts` over `redis.service.ts`: the requests of one tenant that carry one
`Idempotency-Key`. A request looks the key's response up, and replays it if it is there. Otherwise
it sets the key's lock, or is rejected if another request has it, runs its handler, stores the
response and clears the lock. These are separate steps, between which the other requests move, and
Redis may fail at any of them: `RedisService` then answers as if there were nothing.

A response is stored for 24 hours and a lock for 30 seconds. Nothing of a request but its tenant and
its key enters the keys in Redis.

* `Idempotent`: completions of the handler are 24 hours apart, and replays are verbatim.
* `idempotent_of_undisturbed`: so they are as long as no handler is started on a look-up that is out
  of date or without the lock, none outlives its lock, and responses are stored.
-/

namespace Workforce.Idempotency

open Runs Tables Expiring Eventing List

/-! ## Requests -/

/-- What the interceptor and its handler read of a request. -/
structure Request (Body : Type*) where
  /-- `context.getType()`. -/
  contextType : String
  method : String
  path : String
  /-- The header, one value or several. -/
  idempotencyKey : Option (String ⊕ List String)
  body : Body

structure CachedResponse (Body : Type*) where
  status : ℕ
  body : Body
  deriving DecidableEq

def responseCacheTtlSeconds : ℕ := 24 * 60 * 60

def inFlightLockTtlSeconds : ℕ := 30

/-- Redis counts in milliseconds. -/
def milliseconds (seconds : ℕ) : ℕ := 1000 * seconds

def mutatingMethods : List String := ["POST", "PUT", "PATCH", "DELETE"]

/-- `intercept`: the key under which a request is handled, none if it is passed through. -/
def intercept {Body : Type*} (request : Request Body) : Option String :=
  if request.contextType ≠ "http" then none
  else if request.method ∉ mutatingMethods then none
  else
    match request.idempotencyKey with
    | some (.inl key) => if key = "" then none else some key
    | some (.inr _) => none
    | none => none

def cacheKey (tenantId : Option String) (key : String) : String :=
  let tenantId := tenantId.getD "unscoped"
  s!"idempotency:{tenantId}:{key}"

def lockKey (tenantId : Option String) (key : String) : String :=
  let cacheKey := cacheKey tenantId key
  s!"{cacheKey}:lock"

def conflictMessage (key : String) : String :=
  s!"A request with Idempotency-Key '{key}' is already in progress - retry once it completes."

theorem lockKey_ne_cacheKey (tenantId : Option String) (key : String) :
    lockKey tenantId key ≠ cacheKey tenantId key := by
  intro h
  have hlength : (cacheKey tenantId key ++ ":lock").length = (cacheKey tenantId key).length :=
    congrArg String.length h
  simp [String.length_append] at hlength

/-! ## Redis -/

/-- A value in Redis: the text `1`, or the text of a response. -/
inductive Value (Body : Type*)
  | one
  | response (cached : CachedResponse Body)

abbrev Redis (Body : Type*) := Store String (Value Body)

namespace RedisService

variable {Body : Type*} (redis : Redis Body) (now : ℕ)

def get (key : String) (error : Option String) : Option (Value Body) :=
  match error with
  | none => redis.get now key
  | some _ => none

def setWithTtl (key : String) (value : Value Body) (ttlSeconds : ℕ) : Commit → Redis Body
  | .ok | .lost _ => redis.set key value (now + milliseconds ttlSeconds)
  | .failed _ => redis

/-- Whether the caller is told that it has set the key, and the store. -/
def setIfNotExists (key : String) (value : Value Body) (ttlSeconds : ℕ) :
    Commit → Bool × Redis Body
  | .ok =>
    ((redis.get now key).isNone, redis.setNew now key value (now + milliseconds ttlSeconds))
  | .lost _ => (true, redis.setNew now key value (now + milliseconds ttlSeconds))
  | .failed _ => (true, redis)

def del (key : String) : Commit → Redis Body
  | .ok | .lost _ => redis.del key
  | .failed _ => redis

end RedisService

/-! ## Steps -/

/-- Where a request is in `handleIdempotent`, and since when it holds the lock. -/
inductive Process (Body : Type*)
  | idle
  | received (request : Request Body)
  /-- Nothing was cached. -/
  | missed (request : Request Body)
  | handling (request : Request Body) (since : ℕ)
  /-- The handler has completed; the response is to be stored. -/
  | completed (request : Request Body) (since : ℕ) (response : CachedResponse Body)
  /-- It has been stored; the lock is to be cleared. -/
  | cached (request : Request Body) (since : ℕ)
  /-- The handler has thrown; the lock is to be cleared. -/
  | failed (request : Request Body) (since : ℕ)

/-- A handler has run to its end. -/
structure Completion (Body : Type*) where
  time : ℕ
  request : Request Body
  response : CachedResponse Body

/-- A request has been answered with a stored response. -/
structure Replay (Body : Type*) where
  request : Request Body
  response : CachedResponse Body

/-- Redis, where every process is, and what has been answered. -/
structure State (ι Body : Type*) where
  clock : ℕ
  redis : Redis Body
  processes : ι → Process Body
  /-- The latest first. -/
  completions : List (Completion Body)
  replays : List (Replay Body)
  conflicts : List (Request Body × String)

/-- What a process does between two awaits, or time that passes. -/
inductive Action (ι Body : Type*)
  | tick (d : ℕ)
  | arrive (i : ι) (request : Request Body)
  | lookup (i : ι) (error : Option String)
  | lock (i : ι) (c : Commit)
  | complete (i : ι) (response : CachedResponse Body)
  | fail (i : ι)
  | store (i : ι) (c : Commit)
  | unlock (i : ι) (c : Commit)
  | crash (i : ι)

variable {ι Body : Type*} [DecidableEq ι]

def State.init : State ι Body := ⟨0, Store.empty, fun _ => .idle, [], [], []⟩

def State.setProcess (s : State ι Body) (i : ι) (p : Process Body) : State ι Body :=
  { s with processes := Function.update s.processes i p }

namespace State

variable {s : State ι Body} {i j : ι} {p : Process Body}

@[simp] theorem setProcess_same : (s.setProcess i p).processes i = p := Function.update_self ..

@[simp] theorem setProcess_of_ne (h : j ≠ i) : (s.setProcess i p).processes j = s.processes j :=
  Function.update_of_ne h ..

end State

variable (tenantId : Option String) (key : String)

/-- One step of the requests of a tenant with a key. -/
def step (s : State ι Body) : Action ι Body → Option (State ι Body)
  | .tick d => some { s with clock := s.clock + d }
  | .arrive i request =>
    match s.processes i with
    | .idle =>
      if intercept request = some key then some (s.setProcess i (.received request)) else none
    | _ => none
  | .lookup i error =>
    match s.processes i with
    | .received request =>
      match RedisService.get s.redis s.clock (cacheKey tenantId key) error with
      | none => some (s.setProcess i (.missed request))
      | some (.response cached) =>
        some ({ s with replays := ⟨request, cached⟩ :: s.replays }.setProcess i .idle)
      -- The lock is under another key.
      | some .one => none
    | _ => none
  | .lock i c =>
    match s.processes i with
    | .missed request =>
      let (acquired, redis) := RedisService.setIfNotExists s.redis s.clock (lockKey tenantId key)
        .one inFlightLockTtlSeconds c
      if acquired then
        some ({ s with redis := redis }.setProcess i (.handling request s.clock))
      else
        some ({ s with
          redis := redis
          conflicts := (request, conflictMessage key) :: s.conflicts }.setProcess i .idle)
    | _ => none
  | .complete i response =>
    match s.processes i with
    | .handling request since =>
      some ({ s with
        completions := ⟨s.clock, request, response⟩ :: s.completions }.setProcess i
          (.completed request since response))
    | _ => none
  | .fail i =>
    match s.processes i with
    | .handling request since => some (s.setProcess i (.failed request since))
    | _ => none
  | .store i c =>
    match s.processes i with
    | .completed request since response =>
      some ({ s with
        redis := RedisService.setWithTtl s.redis s.clock (cacheKey tenantId key)
          (.response response) responseCacheTtlSeconds c }.setProcess i (.cached request since))
    | _ => none
  | .unlock i c =>
    match s.processes i with
    | .cached _ _ | .failed _ _ =>
      some ({ s with
        redis := RedisService.del s.redis (lockKey tenantId key) c }.setProcess i .idle)
    | _ => none
  | .crash i => some (s.setProcess i .idle)

/-! ## Idempotency -/

/-- The life of a key, from a completion on. -/
def keyLifetime : ℕ := milliseconds responseCacheTtlSeconds

structure Idempotent (s : State ι Body) : Prop where
  /-- No handler completes within the life of the key of another completion. -/
  once : s.completions.Pairwise fun later earlier => earlier.time + keyLifetime ≤ later.time
  /-- A replay is the response of a completion. -/
  verbatim : ∀ r ∈ s.replays, ∃ c ∈ s.completions, r.response = c.response

/-- A replay answers a request like the one it was the answer to. -/
def Matching (s : State ι Body) : Prop :=
  ∀ r ∈ s.replays, ∃ c ∈ s.completions, r.response = c.response ∧
    r.request.method = c.request.method ∧ r.request.path = c.request.path ∧
      r.request.body = c.request.body

omit [DecidableEq ι] in
theorem idempotent_iff (s : State ι Body) :
    Idempotent s ↔
      (s.completions.Pairwise fun later earlier => earlier.time + keyLifetime ≤ later.time) ∧
        ∀ r ∈ s.replays, ∃ c ∈ s.completions, r.response = c.response :=
  ⟨fun h => ⟨h.once, h.verbatim⟩, fun h => ⟨h.1, h.2⟩⟩

instance [DecidableEq Body] : DecidablePred (Idempotent : State ι Body → Prop) :=
  fun s => decidable_of_iff _ (idempotent_iff s).symm

instance [DecidableEq Body] : DecidablePred (Matching : State ι Body → Prop) :=
  fun s => by unfold Matching; infer_instance

namespace Process

/-- When a request that has gone on to its handler has set the lock. -/
def lockedSince : Process Body → Option ℕ
  | .handling _ since | .completed _ since _ | .cached _ since | .failed _ since => some since
  | .idle | .received _ | .missed _ => none

/-- The response that is still to be stored. -/
def unstored : Process Body → Option (CachedResponse Body)
  | .completed _ _ response => some response
  | _ => none

def isHandling : Process Body → Bool
  | .handling _ _ => true
  | _ => false

end Process

/-- Nothing goes wrong in this step: a request only goes on to its handler by setting the lock,
while no response is cached; no lock expires under a request that holds it; a response is stored. -/
def Undisturbed (s : State ι Body) : Action ι Body → Prop
  | .tick d => ∀ i, ∀ since ∈ (s.processes i).lockedSince,
      s.clock + d < since + milliseconds inFlightLockTtlSeconds
  | .lock _ c =>
      (RedisService.setIfNotExists s.redis s.clock (lockKey tenantId key) .one
        inFlightLockTtlSeconds c).1 = true →
      c.Took ∧ s.redis.get s.clock (lockKey tenantId key) = none ∧
        s.redis.get s.clock (cacheKey tenantId key) = none
  | .store _ c => c.Took
  | .crash i => (s.processes i).unstored = none
  | _ => True

instance [Fintype ι] [DecidableEq Body] (s : State ι Body) (a : Action ι Body) :
    Decidable (Undisturbed tenantId key s a) := by
  cases a <;> unfold Undisturbed <;> infer_instance

/-! ## The invariant -/

/-- While nothing goes wrong, at most one request holds the lock, and the response of every
completion is stored, or held by a request that is about to store it, as long as its key lives. -/
structure Inv (s : State ι Body) : Prop where
  locked : ∀ i, ∀ since ∈ (s.processes i).lockedSince,
    s.redis (lockKey tenantId key) = some ⟨.one, since + milliseconds inFlightLockTtlSeconds⟩ ∧
      s.clock < since + milliseconds inFlightLockTtlSeconds
  sole : ∀ i j, (s.processes i).lockedSince ≠ none → (s.processes j).lockedSince ≠ none → i = j
  fresh : ∀ i, (s.processes i).isHandling = true →
    s.redis.get s.clock (cacheKey tenantId key) = none
  past : ∀ c ∈ s.completions, c.time ≤ s.clock
  kept : ∀ c ∈ s.completions, c.time + keyLifetime ≤ s.clock ∨
    (∃ e, s.redis (cacheKey tenantId key) = some e ∧ c.time + keyLifetime ≤ e.expiresAt) ∨
      ∃ i, (s.processes i).unstored ≠ none
  stored : ∀ e, s.redis (cacheKey tenantId key) = some e →
    ∃ c ∈ s.completions, e.value = .response c.response
  unstored : ∀ i, ∀ response ∈ (s.processes i).unstored,
    ∃ c ∈ s.completions, response = c.response
  idempotent : Idempotent s

omit [DecidableEq ι] in
theorem inv_init : Inv tenantId key (State.init : State ι Body) where
  locked := fun _ => forall_mem_none
  sole := fun _ _ h => absurd rfl h
  fresh := fun _ h => absurd h Bool.false_ne_true
  past := forall_mem_nil _
  kept := forall_mem_nil _
  stored := fun _ h => absurd h (Option.some_ne_none _).symm
  unstored := fun _ => forall_mem_none
  idempotent := ⟨Pairwise.nil, forall_mem_nil _⟩

omit [DecidableEq ι] in
theorem idempotent_replay {s : State ι Body} (h : Idempotent s) {r : Replay Body}
    (hr : ∃ c ∈ s.completions, r.response = c.response) :
    Idempotent { s with replays := r :: s.replays } :=
  ⟨h.once, forall_mem_cons.2 ⟨hr, h.verbatim⟩⟩

namespace Process

variable {p : Process Body}

theorem lockedSince_ne_none_of_unstored (h : p.unstored ≠ none) : p.lockedSince ≠ none := by
  cases p with
  | completed request since response => exact Option.some_ne_none _
  | _ => exact absurd rfl h

theorem lockedSince_ne_none_of_handling (h : p.isHandling = true) : p.lockedSince ≠ none := by
  cases p with
  | handling request since => exact Option.some_ne_none _
  | _ => cases h

theorem unstored_of_handling (h : p.isHandling = true) : p.unstored = none := by
  cases p with
  | completed request since response => cases h
  | _ => rfl

end Process

namespace Inv

variable {tenantId key} {s : State ι Body} {i : ι}

omit [DecidableEq ι] in
theorem lockedSince_eq_none (h : Inv tenantId key s)
    (hfree : s.redis.get s.clock (lockKey tenantId key) = none) (j : ι) :
    (s.processes j).lockedSince = none := by
  rw [Option.eq_none_iff_forall_not_mem]
  intro since hsince
  obtain ⟨hlock, hlt⟩ := h.locked j since hsince
  have hle := Store.get_eq_none_iff.1 hfree _ hlock
  exact absurd hlt (not_lt.2 hle)

omit [DecidableEq ι] in
theorem lockedSince_of_ne (h : Inv tenantId key s) (hi : (s.processes i).lockedSince ≠ none)
    {j : ι} (hj : j ≠ i) : (s.processes j).lockedSince = none := by
  by_contra hne
  exact hj (h.sole j i hne hi)

omit [DecidableEq ι] in
/-- While a handler runs, the keys of the completions so far have lived. -/
theorem lived (h : Inv tenantId key s) (hi : (s.processes i).isHandling = true)
    {c : Completion Body} (hc : c ∈ s.completions) : c.time + keyLifetime ≤ s.clock := by
  rcases h.kept c hc with hle | ⟨e, he, hle⟩ | ⟨j, hj⟩
  · exact hle
  · exact hle.trans (Store.get_eq_none_iff.1 (h.fresh i hi) e he)
  · have hij : i = j :=
      h.sole i j (Process.lockedSince_ne_none_of_handling hi)
        (Process.lockedSince_ne_none_of_unstored hj)
    exact absurd (Process.unstored_of_handling hi) (hij ▸ hj)

omit [DecidableEq ι] in
theorem tick (h : Inv tenantId key s) {d : ℕ}
    (hd : ∀ i, ∀ since ∈ (s.processes i).lockedSince,
      s.clock + d < since + milliseconds inFlightLockTtlSeconds) :
    Inv tenantId key { s with clock := s.clock + d } where
  locked j since hsince := ⟨(h.locked j since hsince).1, hd j since hsince⟩
  sole := h.sole
  fresh j hj := Store.get_eq_none_of_le (Nat.le_add_right _ _) (h.fresh j hj)
  past c hc := (h.past c hc).trans (Nat.le_add_right _ _)
  kept c hc := (h.kept c hc).imp_left fun hle => hle.trans (Nat.le_add_right _ _)
  stored := h.stored
  unstored := h.unstored
  idempotent := ⟨h.idempotent.once, h.idempotent.verbatim⟩

/-- A request moves on without the lock, or with the one that it has, and no response is lost. -/
theorem setProcess (h : Inv tenantId key s) {p : Process Body}
    (hlocked : p.lockedSince = none ∨ p.lockedSince = (s.processes i).lockedSince)
    (hhandling : p.isHandling = false) (hp : p.unstored = none)
    (hi : (s.processes i).unstored = none) : Inv tenantId key (s.setProcess i p) where
  locked j since hsince := by
    rcases eq_or_ne j i with rfl | hj
    · rw [State.setProcess_same] at hsince
      rcases hlocked with hnone | hsame
      · simp [hnone] at hsince
      · exact h.locked j since (hsame ▸ hsince)
    · rw [State.setProcess_of_ne hj] at hsince
      exact h.locked j since hsince
  sole := by
    have hle : ∀ j, ((s.setProcess i p).processes j).lockedSince ≠ none →
        (s.processes j).lockedSince ≠ none := by
      intro j hne
      rcases eq_or_ne j i with rfl | hj
      · rw [State.setProcess_same] at hne
        rcases hlocked with hnone | hsame
        · exact absurd hnone hne
        · exact hsame ▸ hne
      · rwa [State.setProcess_of_ne hj] at hne
    intro j k hj hk
    exact h.sole j k (hle j hj) (hle k hk)
  fresh j hj := by
    rcases eq_or_ne j i with rfl | hne
    · simp [hhandling] at hj
    · rw [State.setProcess_of_ne hne] at hj
      exact h.fresh j hj
  past := h.past
  kept c hc := by
    refine (h.kept c hc).imp_right (Or.imp_right ?_)
    rintro ⟨j, hj⟩
    have hji : j ≠ i := by
      rintro rfl
      exact hj hi
    refine ⟨j, ?_⟩
    rwa [State.setProcess_of_ne hji]
  stored := h.stored
  unstored j response hresponse := by
    rcases eq_or_ne j i with rfl | hj
    · simp [hp] at hresponse
    · rw [State.setProcess_of_ne hj] at hresponse
      exact h.unstored j response hresponse
  idempotent := ⟨h.idempotent.once, h.idempotent.verbatim⟩

theorem of_sole {t : State ι Body} {p : Process Body}
    (hothers : ∀ j, j ≠ i → (t.processes j).lockedSince = none)
    (hlocked : ∀ since ∈ p.lockedSince,
      t.redis (lockKey tenantId key) = some ⟨.one, since + milliseconds inFlightLockTtlSeconds⟩ ∧
        t.clock < since + milliseconds inFlightLockTtlSeconds)
    (hfresh : p.isHandling = true → t.redis.get t.clock (cacheKey tenantId key) = none)
    (hpast : ∀ c ∈ t.completions, c.time ≤ t.clock)
    (hkept : ∀ c ∈ t.completions, c.time + keyLifetime ≤ t.clock ∨
      (∃ e, t.redis (cacheKey tenantId key) = some e ∧ c.time + keyLifetime ≤ e.expiresAt) ∨
        p.unstored ≠ none)
    (hstored : ∀ e, t.redis (cacheKey tenantId key) = some e →
      ∃ c ∈ t.completions, e.value = .response c.response)
    (hunstored : ∀ response ∈ p.unstored, ∃ c ∈ t.completions, response = c.response)
    (hidempotent : Idempotent t) : Inv tenantId key (t.setProcess i p) where
  locked j since hsince := by
    rcases eq_or_ne j i with rfl | hj
    · rw [State.setProcess_same] at hsince
      exact hlocked since hsince
    · rw [State.setProcess_of_ne hj, hothers j hj] at hsince
      cases hsince
  sole := by
    have hi : ∀ j, ((t.setProcess i p).processes j).lockedSince ≠ none → j = i := by
      intro j hne
      by_contra hj
      rw [State.setProcess_of_ne hj] at hne
      exact hne (hothers j hj)
    intro j k hj hk
    exact (hi j hj).trans (hi k hk).symm
  fresh j hj := by
    rcases eq_or_ne j i with rfl | hne
    · rw [State.setProcess_same] at hj
      exact hfresh hj
    · rw [State.setProcess_of_ne hne] at hj
      exact absurd (hothers j hne) (Process.lockedSince_ne_none_of_handling hj)
  past := hpast
  kept c hc := by
    refine (hkept c hc).imp_right (Or.imp_right fun hp => ⟨i, ?_⟩)
    rwa [State.setProcess_same]
  stored := hstored
  unstored j response hresponse := by
    rcases eq_or_ne j i with rfl | hj
    · rw [State.setProcess_same] at hresponse
      exact hunstored response hresponse
    · rw [State.setProcess_of_ne hj] at hresponse
      have hne : (t.processes j).unstored ≠ none := Option.ne_none_iff_exists'.2 ⟨_, hresponse⟩
      exact absurd (hothers j hj) (Process.lockedSince_ne_none_of_unstored hne)
  idempotent := ⟨hidempotent.once, hidempotent.verbatim⟩

theorem acquire (h : Inv tenantId key s)
    (hfree : s.redis.get s.clock (lockKey tenantId key) = none)
    (hmiss : s.redis.get s.clock (cacheKey tenantId key) = none) (request : Request Body) :
    Inv tenantId key
      ({ s with
        redis := s.redis.set (lockKey tenantId key) .one
          (s.clock + milliseconds inFlightLockTtlSeconds) }.setProcess i
        (.handling request s.clock)) := by
  have hcache := Store.set_of_ne (s := s.redis) (lockKey_ne_cacheKey tenantId key).symm .one
    (s.clock + milliseconds inFlightLockTtlSeconds)
  refine of_sole (fun j _ => h.lockedSince_eq_none hfree j) ?_ ?_ h.past ?_ ?_ forall_mem_none
    ⟨h.idempotent.once, h.idempotent.verbatim⟩
  · rintro since ⟨⟩
    exact ⟨Store.set_same .., Nat.lt_add_of_pos_right (by decide)⟩
  · intro _
    rwa [Store.get_congr hcache]
  · intro c hc
    simp only [hcache]
    rcases h.kept c hc with hle | he | ⟨j, hj⟩
    · exact .inl hle
    · exact .inr (.inl he)
    · exact absurd (h.lockedSince_eq_none hfree j) (Process.lockedSince_ne_none_of_unstored hj)
  · simp only [hcache]
    exact h.stored

theorem complete (h : Inv tenantId key s) {request : Request Body} {since : ℕ}
    (hi : s.processes i = .handling request since) (response : CachedResponse Body) :
    Inv tenantId key
      ({ s with completions := ⟨s.clock, request, response⟩ :: s.completions }.setProcess i
        (.completed request since response)) := by
  have hlocked : (s.processes i).lockedSince = some since := by rw [hi]; rfl
  have hhandling : (s.processes i).isHandling = true := by rw [hi]; rfl
  have hne : (s.processes i).lockedSince ≠ none := by rw [hlocked]; exact Option.some_ne_none _
  refine of_sole (fun j hj => h.lockedSince_of_ne hne hj) ?_ nofun ?_ ?_ ?_ ?_ ⟨?_, ?_⟩
  · rintro _ ⟨⟩
    exact h.locked i since hlocked
  · exact forall_mem_cons.2 ⟨le_rfl, h.past⟩
  · intro c hc
    exact .inr (.inr (Option.some_ne_none _))
  · intro e he
    obtain ⟨c, hc, heq⟩ := h.stored e he
    exact ⟨c, mem_cons_of_mem _ hc, heq⟩
  · rintro _ ⟨⟩
    exact ⟨_, mem_cons_self, rfl⟩
  · exact pairwise_cons.2 ⟨fun c hc => h.lived hhandling hc, h.idempotent.once⟩
  · intro r hr
    obtain ⟨c, hc, heq⟩ := h.idempotent.verbatim r hr
    exact ⟨c, mem_cons_of_mem _ hc, heq⟩

theorem store (h : Inv tenantId key s) {request : Request Body} {since : ℕ}
    {response : CachedResponse Body} (hi : s.processes i = .completed request since response) :
    Inv tenantId key
      ({ s with
        redis := s.redis.set (cacheKey tenantId key) (.response response)
          (s.clock + milliseconds responseCacheTtlSeconds) }.setProcess i
        (.cached request since)) := by
  have hlocked : (s.processes i).lockedSince = some since := by rw [hi]; rfl
  have hne : (s.processes i).lockedSince ≠ none := by rw [hlocked]; exact Option.some_ne_none _
  refine of_sole (fun j hj => h.lockedSince_of_ne hne hj) ?_ nofun h.past ?_ ?_ forall_mem_none
    ⟨h.idempotent.once, h.idempotent.verbatim⟩
  · rintro _ ⟨⟩
    simp only [Store.set_of_ne (lockKey_ne_cacheKey tenantId key)]
    exact h.locked i since hlocked
  · intro c hc
    refine .inr (.inl ⟨_, Store.set_same .., ?_⟩)
    exact Nat.add_le_add_right (h.past c hc) _
  · intro e he
    simp only [Store.set_same] at he
    cases he
    obtain ⟨c, hc, heq⟩ := h.unstored i response (by rw [hi]; rfl)
    exact ⟨c, hc, congrArg _ heq⟩

theorem unlock (h : Inv tenantId key s) (hi : (s.processes i).lockedSince ≠ none)
    (hstored : (s.processes i).unstored = none) :
    Inv tenantId key
      ({ s with redis := s.redis.del (lockKey tenantId key) }.setProcess i .idle) := by
  have hcache := Store.del_of_ne (s := s.redis) (lockKey_ne_cacheKey tenantId key).symm
  refine of_sole (fun j hj => h.lockedSince_of_ne hi hj) forall_mem_none nofun h.past ?_ ?_
    forall_mem_none
    ⟨h.idempotent.once, h.idempotent.verbatim⟩
  · intro c hc
    simp only [hcache]
    rcases h.kept c hc with hle | he | ⟨j, hj⟩
    · exact .inl hle
    · exact .inr (.inl he)
    · have hji : j = i := h.sole j i (Process.lockedSince_ne_none_of_unstored hj) hi
      exact absurd hstored (hji ▸ hj)
  · simp only [hcache]
    exact h.stored

end Inv

/-! ## Runs -/

section Steps

variable {tenantId key} {s t : State ι Body} {i : ι}

theorem inv_lookup (h : Inv tenantId key s) {error : Option String}
    (hstep : step tenantId key s (.lookup i error) = some t) : Inv tenantId key t := by
  simp only [step] at hstep
  split at hstep
  · rename_i request hi
    have hi' : (s.processes i).unstored = none := by rw [hi]; rfl
    split at hstep
    · cases hstep
      exact h.setProcess (.inl rfl) rfl rfl hi'
    · rename_i cached hget
      cases hstep
      have hcached : ∃ c ∈ s.completions, cached = c.response := by
        cases error with
        | some message => cases hget
        | none =>
          obtain ⟨expiresAt, he, -⟩ := Store.get_eq_some_iff.1 hget
          obtain ⟨c, hc, heq⟩ := h.stored _ he
          exact ⟨c, hc, Value.response.inj heq⟩
      have h' : Inv tenantId key { s with replays := ⟨request, cached⟩ :: s.replays } :=
        { h with idempotent := idempotent_replay h.idempotent hcached }
      exact h'.setProcess (.inl rfl) rfl rfl hi'
    · cases hstep
  · cases hstep

theorem inv_lock (h : Inv tenantId key s) {c : Commit}
    (hok : Undisturbed tenantId key s (.lock i c))
    (hstep : step tenantId key s (.lock i c) = some t) : Inv tenantId key t := by
  simp only [step] at hstep
  split at hstep
  · rename_i request hi
    have hi' : (s.processes i).unstored = none := by rw [hi]; rfl
    split at hstep
    · rename_i hacquired
      cases hstep
      obtain ⟨htook, hfree, hmiss⟩ := hok hacquired
      have hset := Store.setNew_of_free hfree .one
        (s.clock + milliseconds inFlightLockTtlSeconds)
      cases c with
      | ok => simpa only [RedisService.setIfNotExists, hset] using h.acquire hfree hmiss request
      | lost message =>
        simpa only [RedisService.setIfNotExists, hset] using h.acquire hfree hmiss request
      | failed message => exact htook.elim
    · rename_i hacquired
      cases hstep
      cases c with
      | ok =>
        have hset : s.redis.setNew s.clock (lockKey tenantId key) .one
            (s.clock + milliseconds inFlightLockTtlSeconds) = s.redis := if_neg hacquired
        simp only [RedisService.setIfNotExists, hset]
        have h' : Inv tenantId key
            { s with conflicts := (request, conflictMessage key) :: s.conflicts } :=
          { h with idempotent := ⟨h.idempotent.once, h.idempotent.verbatim⟩ }
        exact h'.setProcess (.inl rfl) rfl rfl hi'
      | lost message => exact absurd rfl hacquired
      | failed message => exact absurd rfl hacquired
  · cases hstep

theorem inv_store (h : Inv tenantId key s) {c : Commit} (hok : c.Took)
    (hstep : step tenantId key s (.store i c) = some t) : Inv tenantId key t := by
  simp only [step] at hstep
  split at hstep
  · rename_i request since response hi
    cases hstep
    cases c with
    | ok => exact h.store hi
    | lost message => exact h.store hi
    | failed message => exact hok.elim
  · cases hstep

theorem inv_unlock (h : Inv tenantId key s) {c : Commit}
    (hstep : step tenantId key s (.unlock i c) = some t) : Inv tenantId key t := by
  have key' : (s.processes i).lockedSince ≠ none → (s.processes i).unstored = none →
      Inv tenantId key ({ s with
        redis := RedisService.del s.redis (lockKey tenantId key) c }.setProcess i .idle) := by
    intro hlocked hstored
    cases c with
    | ok => exact h.unlock hlocked hstored
    | lost message => exact h.unlock hlocked hstored
    | failed message => exact h.setProcess (.inl rfl) rfl rfl hstored
  simp only [step] at hstep
  split at hstep
  · rename_i hi
    cases hstep
    exact key' (by rw [hi]; exact Option.some_ne_none _) (by rw [hi]; rfl)
  · rename_i hi
    cases hstep
    exact key' (by rw [hi]; exact Option.some_ne_none _) (by rw [hi]; rfl)
  · cases hstep

theorem inv_step {a : Action ι Body} (h : Inv tenantId key s)
    (hok : Undisturbed tenantId key s a) (hstep : step tenantId key s a = some t) :
    Inv tenantId key t := by
  cases a with
  | tick d =>
    cases hstep
    exact h.tick hok
  | arrive i request =>
    simp only [step] at hstep
    split at hstep
    · rename_i hi
      obtain ⟨-, heq⟩ := Option.ite_none_right_eq_some.1 hstep
      cases heq
      exact h.setProcess (.inl rfl) rfl rfl (by rw [hi]; rfl)
    · cases hstep
  | lookup i error => exact inv_lookup h hstep
  | lock i c => exact inv_lock h hok hstep
  | complete i response =>
    simp only [step] at hstep
    split at hstep
    · rename_i hi
      cases hstep
      exact h.complete hi response
    · cases hstep
  | fail i =>
    simp only [step] at hstep
    split at hstep
    · rename_i hi
      cases hstep
      exact h.setProcess (.inr (by rw [hi]; rfl)) rfl rfl (by rw [hi]; rfl)
    · cases hstep
  | store i c => exact inv_store h hok hstep
  | unlock i c => exact inv_unlock h hstep
  | crash i =>
    cases hstep
    exact h.setProcess (.inl rfl) rfl rfl hok

end Steps

/-- While nothing goes wrong, a key's handler completes once in the life of the key, and what is
replayed is the response of a completion. -/
theorem idempotent_of_undisturbed {as : List (Action ι Body)}
    (hm : Meets (step tenantId key) (Undisturbed tenantId key) State.init as) :
    Always (step tenantId key) Idempotent State.init as :=
  always_of_invariant (I := Inv tenantId key) (fun _ h => h.idempotent)
    (fun _ _ _ h hok hstep => inv_step h hok hstep) (inv_init tenantId key) hm

/-- A leave request with a key. -/
def leaveRequest : Request String := ⟨"http", "POST", "/leave-requests", some (.inl "k"), "4 May"⟩

/-- A swap request with the same key. -/
def swapRequest : Request String := ⟨"http", "PUT", "/swaps/7", some (.inl "k"), "accept"⟩

def created : CachedResponse String := ⟨201, "created"⟩

/-- A request goes through all its steps. -/
def handled (i : Bool) (request : Request String) : List (Action Bool String) :=
  [.arrive i request, .lookup i none, .lock i .ok, .complete i created, .store i .ok, .unlock i .ok]

/-- A second request is rejected while the first is handled, replayed after it, and handled again
once the key has lived. -/
def repeated : List (Action Bool String) :=
  [.arrive false leaveRequest, .lookup false none, .lock false .ok,
    .arrive true leaveRequest, .lookup true none, .lock true .ok,
    .tick 1000, .complete false created, .store false .ok, .unlock false .ok,
    .arrive true leaveRequest, .lookup true none, .tick 86400000] ++ handled true leaveRequest

theorem repeated_idempotent :
    (∃ t, exec (step (some "t") "k") State.init repeated = some t ∧
      t.completions.length = 2 ∧ t.replays.length = 1 ∧ t.conflicts.length = 1) ∧
      Always (step (some "t") "k") Idempotent State.init repeated :=
  ⟨exists_exec (by decide +kernel), idempotent_of_undisturbed _ _ (by decide +kernel)⟩

/-- The response to the leave request answers the swap request. -/
def mismatched : List (Action Bool String) :=
  handled false leaveRequest ++ [.arrive true swapRequest, .lookup true none]

/-- The second request has looked the response up before the first one completes. -/
def lateLookup : List (Action Bool String) :=
  [.arrive true leaveRequest, .lookup true none] ++ handled false leaveRequest ++
    [.lock true .ok, .complete true created]

/-- The first handler outlives its lock. -/
def outlived : List (Action Bool String) :=
  [.arrive false leaveRequest, .lookup false none, .lock false .ok, .tick 30000] ++
    handled true leaveRequest ++ [.complete false created]

/-- The first request stops before the response is stored. -/
def unstored : List (Action Bool String) :=
  [.arrive false leaveRequest, .lookup false none, .lock false .ok, .complete false created,
    .crash false, .tick 30000] ++ handled true leaveRequest

/-- Redis is down. -/
def outage : List (Action Bool String) :=
  [.arrive false leaveRequest, .lookup false (some "ECONNREFUSED"),
    .lock false (.failed "ECONNREFUSED"), .arrive true leaveRequest,
    .lookup true (some "ECONNREFUSED"), .lock true (.failed "ECONNREFUSED"),
    .complete false created, .complete true created]

/-- A response may be replayed to another request, and a handler may complete twice. -/
theorem mismatched_replayed :
    (∃ t, exec (step (some "t") "k") State.init mismatched = some t ∧ ¬ Matching t) ∧
      ∀ as ∈ [lateLookup, outlived, unstored, outage],
        ∃ t, exec (step (some "t") "k") State.init as = some t ∧ ¬ Idempotent t := by
  refine ⟨exists_exec (by decide +kernel), ?_⟩
  simp only [forall_mem_cons]
  exact ⟨exists_exec (by decide +kernel), exists_exec (by decide +kernel),
    exists_exec (by decide +kernel), exists_exec (by decide +kernel),
    forall_mem_nil _⟩

end Workforce.Idempotency
