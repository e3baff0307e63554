import Workforce.Foundations.TokenBuckets
import Mathlib.Data.Rat.Floor
import Mathlib.Data.Set.Finite.List

/-!
# Rate limiters

`rate-limiter.service.ts` and `ai-interaction-rate-limiter.service.ts`: a token bucket for each key,
which a call for the key creates, full, if there is none. The limit is both the capacity of the
bucket and what is refilled in a window. The two services say in different units when to call again.
Numbers are rational.

* `Bounded`: what the limiter promises to the calls for one key.
* `bounded_iff`: exactly when it keeps that.
* `tenants_apart`: the calls of one tenant change no decision for another.
-/

namespace Workforce.Integration

open TokenBuckets List Function

/-! ## The services -/

/-- `refillRatePerMs` is `refillRate` and `lastRefillAtMs` is `lastRefillAt`. -/
abbrev TokenBucket := Bucket ℚ

structure RateLimitDecision where
  allowed : Bool
  /-- In the unit of the service; set only when the call is refused. -/
  retryAfter : Option ℤ
  deriving DecidableEq

/-- A call for a key, with the limit that applies to it. -/
structure RateLimitedCall where
  key : String
  limit : ℚ
  windowSeconds : ℚ
  now : ℚ

/-- `private readonly buckets`. -/
abbrev Buckets := String → Option TokenBucket

def Buckets.empty : Buckets := fun _ => none

def getOrCreateBucket (buckets : Buckets) (c : RateLimitedCall) : TokenBucket :=
  (buckets c.key).getD (.full c.limit (c.limit / (c.windowSeconds * 1000)) c.now)

/-- What differs between the two services. -/
structure RateLimiter where
  retryAfter : TokenBucket → ℤ
  msPerUnit : ℚ

namespace RateLimiter

/-- `tryAcquire`, once the limit and the window are known. -/
def acquire (limiter : RateLimiter) (buckets : Buckets) (c : RateLimitedCall) :
    RateLimitDecision × Buckets :=
  let (allowed, bucket) := (getOrCreateBucket buckets c).request c.now
  (if allowed then ⟨true, none⟩ else ⟨false, some (limiter.retryAfter bucket)⟩,
    update buckets c.key (some bucket))

end RateLimiter

structure ProviderRateLimitConfig where
  requestsPerWindow : Option ℚ
  windowSeconds : Option ℚ

namespace RateLimiterService

/-- `retryAfterMs`. -/
def limiter : RateLimiter where
  retryAfter bucket := ⌈(1 - bucket.tokens) / bucket.refillRate⌉
  msPerUnit := 1

def tryAcquire (buckets : Buckets) (tenantId connectorId : String)
    (config : Option ProviderRateLimitConfig) (now : ℚ) : RateLimitDecision × Buckets :=
  match config with
  | some ⟨some requestsPerWindow, some windowSeconds⟩ =>
    limiter.acquire buckets
      ⟨tenantId ++ ":" ++ connectorId, requestsPerWindow, windowSeconds, now⟩
  | _ => (⟨true, none⟩, buckets)

end RateLimiterService

structure TenantLimitOverride where
  limit : Option ℚ
  windowSeconds : Option ℚ

structure AiInteractionRateLimiterService where
  defaultLimit : ℚ
  defaultWindowSeconds : ℚ
  overridesByTenantId : String → Option TenantLimitOverride

namespace AiInteractionRateLimiterService

/-- `retryAfterSeconds`. -/
def limiter : RateLimiter where
  retryAfter bucket := ⌈(1 - bucket.tokens) / bucket.refillRate / 1000⌉
  msPerUnit := 1000

def limitsFor (service : AiInteractionRateLimiterService) (tenantId : String) : ℚ × ℚ :=
  let override := service.overridesByTenantId tenantId
  ((override.bind (·.limit)).getD service.defaultLimit,
    (override.bind (·.windowSeconds)).getD service.defaultWindowSeconds)

def tryAcquire (service : AiInteractionRateLimiterService) (buckets : Buckets)
    (tenantId actorId : String) (now : ℚ) : RateLimitDecision × Buckets :=
  let (limit, windowSeconds) := service.limitsFor tenantId
  limiter.acquire buckets ⟨tenantId ++ ":" ++ actorId, limit, windowSeconds, now⟩

end AiInteractionRateLimiterService

/-! ## Calls -/

namespace RateLimiter

variable (limiter : RateLimiter)

/-- The buckets after some calls. -/
def after (calls : List RateLimitedCall) : Buckets :=
  calls.foldl (fun buckets c => (limiter.acquire buckets c).2) .empty

/-- The decision for a call after others. -/
def decision (before : List RateLimitedCall) (c : RateLimitedCall) : RateLimitDecision :=
  (limiter.acquire (limiter.after before) c).1

/-- The calls with their decisions. -/
def log : Buckets → List RateLimitedCall → List (RateLimitedCall × RateLimitDecision)
  | _, [] => []
  | buckets, c :: calls =>
    (c, (limiter.acquire buckets c).1) :: log (limiter.acquire buckets c).2 calls

/-- The calls for a key are made at non-decreasing times, with one limit. -/
structure Regular (key : String) (limit windowSeconds : ℚ)
    (calls : List RateLimitedCall) : Prop where
  limits : ∀ c ∈ calls, c.key = key → c.limit = limit ∧ c.windowSeconds = windowSeconds
  sorted : ((calls.filter (·.key = key)).map RateLimitedCall.now).Pairwise (· ≤ ·)

/-- The limit holds for a key, and a call that is refused learns when to come back. -/
structure Bounded (key : String) (limit windowSeconds : ℚ) (calls : List RateLimitedCall) :
    Prop where
  tokens : ∀ before, before <+: calls → ∀ b, limiter.after before key = some b →
    0 ≤ b.tokens ∧ b.tokens ≤ limit
  /-- In each interval of a length of so many milliseconds. -/
  window : ∀ start length : ℚ, 0 ≤ length →
    (((limiter.log .empty calls).countP fun (c, d) =>
      c.key = key ∧ (start ≤ c.now ∧ c.now ≤ start + length) ∧ d.allowed : ℕ) : ℚ) ≤
        limit + length * (limit / (windowSeconds * 1000))
  /-- Whatever is called for other keys meanwhile. -/
  retryAfter : ∀ before c r, before ++ [c] <+: calls → c.key = key →
    (limiter.decision before c).retryAfter = some r →
    ∀ others next, (∀ d ∈ others, d.key ≠ key) → next.key = key →
      c.now + r * limiter.msPerUnit ≤ next.now →
        (limiter.decision (before ++ c :: others) next).allowed = true

/-! ## One bucket -/

variable {limiter} {key : String} {limit windowSeconds : ℚ} {calls : List RateLimitedCall}
  {buckets : Buckets} {c : RateLimitedCall}

variable (limiter) in
theorem acquire_allowed (buckets : Buckets) (c : RateLimitedCall) :
    (limiter.acquire buckets c).1.allowed = ((getOrCreateBucket buckets c).request c.now).1 := by
  rw [acquire]
  dsimp only
  split <;> simp_all

theorem acquire_retryAfter {r : ℤ} (h : (limiter.acquire buckets c).1.retryAfter = some r) :
    ((getOrCreateBucket buckets c).request c.now).1 = false ∧
      r = limiter.retryAfter ((getOrCreateBucket buckets c).request c.now).2 := by
  rw [acquire] at h
  dsimp only at h
  split at h
  · cases h
  · exact ⟨Bool.not_eq_true _ ▸ ‹_›, (Option.some.inj h).symm⟩

theorem retryAfter_of_refused (h : ((getOrCreateBucket buckets c).request c.now).1 = false) :
    (limiter.acquire buckets c).1.retryAfter =
      some (limiter.retryAfter ((getOrCreateBucket buckets c).request c.now).2) := by
  rw [acquire]
  dsimp only
  rw [h]
  rfl

theorem acquire_self (buckets : Buckets) (c : RateLimitedCall) :
    (limiter.acquire buckets c).2 c.key =
      some ((getOrCreateBucket buckets c).request c.now).2 :=
  update_self _ _ _

theorem acquire_of_ne (h : c.key ≠ key) : (limiter.acquire buckets c).2 key = buckets key :=
  update_of_ne h.symm _ _

theorem after_concat (calls : List RateLimitedCall) (c : RateLimitedCall) :
    limiter.after (calls ++ [c]) = (limiter.acquire (limiter.after calls) c).2 := by
  rw [after, foldl_append, foldl_cons, foldl_nil, after]

theorem after_append_of_ne {others : List RateLimitedCall} (h : ∀ d ∈ others, d.key ≠ key)
    (calls : List RateLimitedCall) :
    limiter.after (calls ++ others) key = limiter.after calls key := by
  induction others using reverseRecOn with
  | nil => rw [append_nil]
  | append_singleton others d ih =>
    rw [← append_assoc, after_concat, acquire_of_ne (h d (by simp)),
      ih fun e he => h e (mem_append_left _ he)]

variable {before : List RateLimitedCall}

theorem Regular.of_prefix (h : Regular key limit windowSeconds calls) (hbefore : before <+: calls) :
    Regular key limit windowSeconds before :=
  ⟨fun c hc => h.limits c (hbefore.subset hc),
    h.sorted.sublist ((hbefore.sublist.filter _).map _)⟩

/-- A bucket of a key, last refilled before a time. -/
structure Kept (limit windowSeconds now : ℚ) (b : TokenBucket) : Prop where
  sound : b.Sound
  capacity : b.capacity = limit
  rate : b.refillRate = limit / (windowSeconds * 1000)
  last : b.lastRefillAt ≤ now

variable {b : TokenBucket}

theorem Kept.request {now : ℚ} (h : Kept limit windowSeconds now b) :
    Kept limit windowSeconds now (b.request now).2 where
  sound := h.sound.request h.last
  capacity := by rw [Bucket.request_capacity, h.capacity]
  rate := by rw [Bucket.request_refillRate, h.rate]
  last := by rw [Bucket.request_lastRefillAt, Bucket.refill_lastRefillAt h.last]

theorem Kept.lastRefillAt_request {now : ℚ} (h : Kept limit windowSeconds now b) :
    (b.request now).2.lastRefillAt = now := by
  rw [Bucket.request_lastRefillAt, Bucket.refill_lastRefillAt h.last]

theorem Kept.later {now now' : ℚ} (h : Kept limit windowSeconds now b) (hle : now ≤ now') :
    Kept limit windowSeconds now' b :=
  ⟨h.sound, h.capacity, h.rate, h.last.trans hle⟩

theorem Regular.concat (h : Regular key limit windowSeconds (calls ++ [c])) (hkey : c.key = key) :
    ∀ d ∈ calls, d.key = key → d.now ≤ c.now := by
  intro d hd hdkey
  have hsorted := h.sorted
  rw [filter_append, map_append, pairwise_append] at hsorted
  refine hsorted.2.2 d.now (mem_map_of_mem (mem_filter.2 ⟨hd, decide_eq_true hdkey⟩))
    c.now (by simp [hkey])

theorem rate_pos (hlimit : 0 < limit) (hwindow : 0 < windowSeconds) :
    0 < limit / (windowSeconds * 1000) :=
  div_pos hlimit (mul_pos hwindow (by norm_num))

theorem full_kept (hlimit : 0 < limit) (hwindow : 0 < windowSeconds) (now : ℚ) :
    Kept limit windowSeconds now (.full limit (limit / (windowSeconds * 1000)) now) :=
  ⟨Bucket.full_sound hlimit.le (rate_pos hlimit hwindow).le now, rfl, rfl, le_rfl⟩

theorem getOrCreateBucket_kept (hlimit : 0 < limit) (hwindow : 0 < windowSeconds)
    (hcall : c.limit = limit ∧ c.windowSeconds = windowSeconds)
    (hbuckets : ∀ b, buckets c.key = some b → Kept limit windowSeconds c.now b) :
    Kept limit windowSeconds c.now (getOrCreateBucket buckets c) := by
  obtain ⟨rfl, rfl⟩ := hcall
  rw [getOrCreateBucket]
  cases hb : buckets c.key with
  | none => exact full_kept hlimit hwindow c.now
  | some b => exact hbuckets b hb

theorem after_kept (hlimit : 0 < limit) (hwindow : 0 < windowSeconds)
    (h : Regular key limit windowSeconds calls) {now : ℚ}
    (hnow : ∀ c ∈ calls, c.key = key → c.now ≤ now) (hb : limiter.after calls key = some b) :
    Kept limit windowSeconds now b := by
  induction calls using reverseRecOn generalizing now b with
  | nil => cases hb
  | append_singleton calls c ih =>
    have hbefore := h.of_prefix (prefix_append calls [c])
    rw [after_concat] at hb
    by_cases hkey : c.key = key
    · subst hkey
      rw [acquire_self] at hb
      cases hb
      have hcreated := getOrCreateBucket_kept hlimit hwindow (h.limits c (by simp) rfl)
        fun b => ih hbefore (h.concat rfl)
      exact hcreated.request.later (hnow c (by simp) rfl)
    · rw [acquire_of_ne hkey] at hb
      exact ih hbefore (fun d hd => hnow d (mem_append_left _ hd)) hb

variable (limiter) in
theorem found_kept (hlimit : 0 < limit) (hwindow : 0 < windowSeconds)
    (h : Regular key limit windowSeconds (before ++ [c])) (hkey : c.key = key) :
    Kept limit windowSeconds c.now (getOrCreateBucket (limiter.after before) c) := by
  subst hkey
  exact getOrCreateBucket_kept hlimit hwindow (h.limits c (by simp) rfl) fun b hb =>
    after_kept hlimit hwindow (h.of_prefix (prefix_append _ _)) (h.concat rfl) hb

/-! ## What a key's calls see -/

/-- The times of the calls for a key. -/
def times (key : String) (calls : List RateLimitedCall) : List ℚ :=
  (calls.filter (·.key = key)).map RateLimitedCall.now

/-- The bucket of a key, or the full one that its first call creates. -/
def bucketOf (key : String) (limit windowSeconds : ℚ) (buckets : Buckets)
    (calls : List RateLimitedCall) : TokenBucket :=
  (buckets key).getD (.full limit (limit / (windowSeconds * 1000)) ((times key calls).headD 0))

theorem times_cons (key : String) (c : RateLimitedCall) (calls : List RateLimitedCall) :
    times key (c :: calls) = if c.key = key then c.now :: times key calls else times key calls := by
  rw [times, filter_cons]
  simp only [decide_eq_true_eq]
  split <;> rfl

variable (limiter) in
/-- The calls for a key have the decisions of its bucket. -/
theorem log_filter
    (h : ∀ c ∈ calls, c.key = key → c.limit = limit ∧ c.windowSeconds = windowSeconds)
    (buckets : Buckets) :
    ((limiter.log buckets calls).filter (·.1.key = key)).map (fun (c, d) => (c.now, d.allowed)) =
      (bucketOf key limit windowSeconds buckets calls).log (times key calls) := by
  induction calls generalizing buckets with
  | nil => rfl
  | cons c calls ih =>
    obtain ⟨hc, hcalls⟩ := forall_mem_cons.1 h
    rw [log, times_cons]
    by_cases hkey : c.key = key
    · subst hkey
      obtain ⟨rfl, rfl⟩ := hc rfl
      have hbucket : bucketOf c.key c.limit c.windowSeconds buckets (c :: calls) =
          getOrCreateBucket buckets c := by
        rw [bucketOf, times_cons, if_pos rfl, headD_cons, getOrCreateBucket]
      have hnext : bucketOf c.key c.limit c.windowSeconds (limiter.acquire buckets c).2 calls =
          ((getOrCreateBucket buckets c).request c.now).2 := by
        rw [bucketOf, acquire_self, Option.getD_some]
      rw [filter_cons_of_pos (by simp), map_cons, ih hcalls, hnext, if_pos rfl,
        hbucket, Bucket.log, ← acquire_allowed limiter]
    · have hbucket : bucketOf key limit windowSeconds buckets (c :: calls) =
          bucketOf key limit windowSeconds (limiter.acquire buckets c).2 calls := by
        rw [bucketOf, bucketOf, times_cons, if_neg hkey, acquire_of_ne hkey]
      rw [filter_cons_of_neg (by simpa using hkey), ih hcalls, if_neg hkey, hbucket]

/-- Every interval has at most the requests of the limit and of the refill in it. -/
theorem window_le (hlimit : 0 < limit) (hwindow : 0 < windowSeconds)
    (h : Regular key limit windowSeconds calls) (start : ℚ) {length : ℚ} (hlength : 0 ≤ length) :
    (((limiter.log .empty calls).countP fun (c, d) =>
      c.key = key ∧ (start ≤ c.now ∧ c.now ≤ start + length) ∧ d.allowed : ℕ) : ℚ) ≤
        limit + length * (limit / (windowSeconds * 1000)) := by
  have hkept := full_kept hlimit hwindow ((times key calls).headD 0)
  have hfirst : ∀ t ∈ times key calls, (times key calls).headD 0 ≤ t := by
    have hsorted := h.sorted
    rw [← times] at hsorted
    cases htimes : times key calls with
    | nil => exact fun t ht => absurd ht not_mem_nil
    | cons now rest =>
      rw [htimes] at hsorted
      rintro t (_ | ⟨_, ht⟩)
      · exact le_rfl
      · exact (pairwise_cons.1 hsorted).1 t ht
  have hbound := Bucket.allowed_log_le hkept.sound h.sorted hfirst
    (le_add_of_nonneg_right hlength : start ≤ start + length)
  have hlog := log_filter limiter h.limits .empty
  rw [bucketOf, Buckets.empty, Option.getD_none] at hlog
  rw [← times, ← hlog, Bucket.allowed, countP_map, countP_filter, hkept.capacity,
    hkept.rate, add_sub_cancel_left] at hbound
  refine le_trans (le_of_eq (congrArg _ (countP_congr fun entry _ => ?_))) hbound
  simp only [comp_apply, decide_eq_true_eq, Bool.and_eq_true]
  tauto

/-! ## Coming back -/

/-- After the time that a refused call is told the next one is allowed. -/
theorem allowed_of_retryAfter (hlimit : 0 < limit) (hwindow : 0 < windowSeconds)
    (hone : 1 ≤ limit)
    (hwait : ∀ b, (1 - b.tokens) / b.refillRate ≤ limiter.retryAfter b * limiter.msPerUnit)
    (h : Regular key limit windowSeconds (before ++ [c])) (hkey : c.key = key) {r : ℤ}
    (hr : (limiter.decision before c).retryAfter = some r) {others : List RateLimitedCall}
    (hothers : ∀ d ∈ others, d.key ≠ key) {next : RateLimitedCall} (hnext : next.key = key)
    (hlater : c.now + r * limiter.msPerUnit ≤ next.now) :
    (limiter.decision (before ++ c :: others) next).allowed = true := by
  have hkept := found_kept limiter hlimit hwindow h hkey
  obtain ⟨hrefused, rfl⟩ := acquire_retryAfter hr
  have hrefill := Bucket.request_refused hrefused
  have hfew : (((getOrCreateBucket (limiter.after before) c).request c.now).2).tokens < 1 := by
    rw [hrefill]
    rw [← Bool.not_eq_true, Bucket.request_fst, not_le] at hrefused
    exact hrefused
  have hafter : limiter.after (before ++ c :: others) next.key =
      some ((getOrCreateBucket (limiter.after before) c).request c.now).2 := by
    rw [append_cons, hnext, after_append_of_ne hothers, after_concat, ← hkey, acquire_self]
  have hfound : getOrCreateBucket (limiter.after (before ++ c :: others)) next =
      ((getOrCreateBucket (limiter.after before) c).request c.now).2 := by
    rw [getOrCreateBucket, hafter, Option.getD_some]
  have hkept' := hkept.request
  have hlast := hkept.lastRefillAt_request
  rw [decision, acquire_allowed, hfound]
  generalize ((getOrCreateBucket (limiter.after before) c).request c.now).2 = b at *
  have hrate : 0 < b.refillRate := by
    rw [hkept'.rate]
    exact rate_pos hlimit hwindow
  have hmissing : 0 < (1 - b.tokens) / b.refillRate := div_pos (sub_pos.2 hfew) hrate
  have hle := hwait b
  exact Bucket.request_of_wait hkept'.sound (hkept'.capacity ▸ hone) hrate
    (by rw [hlast]; linarith) (by rw [hlast]; linarith)

variable (limiter) in
/-- With less than a whole token a call is refused, and so is the next one at any time. -/
theorem refused_of_limit_lt (hlimit : 0 < limit) (hwindow : 0 < windowSeconds) (hone : limit < 1)
    (h : Regular key limit windowSeconds (before ++ [c])) (hkey : c.key = key) (later : ℚ) :
    (∃ r, (limiter.decision before c).retryAfter = some r) ∧
      ∃ next : RateLimitedCall, next.key = key ∧ later ≤ next.now ∧
        (limiter.decision (before ++ [c]) next).allowed = false := by
  have hkept := found_kept limiter hlimit hwindow h hkey
  have hrefused := Bucket.request_of_capacity_lt hkept.sound (hkept.capacity ▸ hone) hkept.last
  refine ⟨⟨_, retryAfter_of_refused hrefused⟩, { c with now := max c.now later }, hkey,
    le_max_right _ _, ?_⟩
  have hkept' := hkept.request.later (le_max_left c.now later)
  have hfound : getOrCreateBucket (limiter.after (before ++ [c]))
      { c with now := max c.now later } =
        ((getOrCreateBucket (limiter.after before) c).request c.now).2 := by
    rw [getOrCreateBucket, after_concat, acquire_self, Option.getD_some]
  rw [decision, acquire_allowed, hfound]
  exact Bucket.request_of_capacity_lt hkept'.sound (hkept'.capacity ▸ hone) hkept'.last

theorem bounded_of (hlimit : 0 < limit) (hwindow : 0 < windowSeconds)
    (hwait : ∀ b, (1 - b.tokens) / b.refillRate ≤ limiter.retryAfter b * limiter.msPerUnit)
    (h : Regular key limit windowSeconds calls) :
    limiter.Bounded key limit windowSeconds calls ↔ 1 ≤ limit ∨ ∀ c ∈ calls, c.key ≠ key := by
  constructor
  · intro hbounded
    by_contra hnot
    obtain ⟨hone, hcall⟩ := not_or.1 hnot
    obtain ⟨c, hc, hkey⟩ : ∃ c ∈ calls, c.key = key := by simpa using hcall
    obtain ⟨before, rest, rfl⟩ := append_of_mem hc
    have htaken : before ++ [c] <+: before ++ c :: rest := ⟨rest, by simp⟩
    obtain ⟨⟨r, hr⟩, -⟩ := refused_of_limit_lt limiter hlimit hwindow (not_le.1 hone)
      (h.of_prefix htaken) hkey 0
    obtain ⟨-, next, hnext, hlater, hrefused⟩ := refused_of_limit_lt limiter hlimit
      hwindow (not_le.1 hone) (h.of_prefix htaken) hkey (c.now + r * limiter.msPerUnit)
    have hallowed := hbounded.retryAfter before c r htaken hkey hr [] next
      (fun d hd => absurd hd not_mem_nil) hnext hlater
    rw [hrefused] at hallowed
    cases hallowed
  · intro hcond
    refine ⟨fun before hbefore b hb => ?_, fun start length hlength =>
      window_le hlimit hwindow h start hlength, ?_⟩
    · obtain ⟨now, hnow⟩ := (finite_toSet (before.map RateLimitedCall.now)).bddAbove
      have hkept := after_kept hlimit hwindow (h.of_prefix hbefore)
        (fun c hc _ => hnow (mem_map_of_mem hc)) hb
      exact ⟨hkept.sound.nonneg, hkept.sound.le.trans hkept.capacity.le⟩
    · intro before c r htaken hkey hr others next hothers hnext hlater
      rcases hcond with hone | hnone
      · exact allowed_of_retryAfter hlimit hwindow hone hwait (h.of_prefix htaken) hkey hr hothers
          hnext hlater
      · exact absurd hkey (hnone c (htaken.subset (by simp)))

end RateLimiter

theorem RateLimiterService.wait_le (b : TokenBucket) :
    (1 - b.tokens) / b.refillRate ≤ limiter.retryAfter b * limiter.msPerUnit := by
  rw [limiter, mul_one]
  exact Int.le_ceil _

theorem AiInteractionRateLimiterService.wait_le (b : TokenBucket) :
    (1 - b.tokens) / b.refillRate ≤ limiter.retryAfter b * limiter.msPerUnit := by
  rw [limiter, ← div_le_iff₀ (by norm_num)]
  exact Int.le_ceil _

/-- **The token buckets**: every interval is bounded and the time to come back is long enough,
exactly when the limit is at least one request, or nothing is called. -/
theorem bounded_iff (key : String) {limit windowSeconds : ℚ} (hlimit : 0 < limit)
    (hwindow : 0 < windowSeconds) {calls : List RateLimitedCall}
    (h : RateLimiter.Regular key limit windowSeconds calls) :
    (RateLimiterService.limiter.Bounded key limit windowSeconds calls ∧
      AiInteractionRateLimiterService.limiter.Bounded key limit windowSeconds calls) ↔
        1 ≤ limit ∨ ∀ c ∈ calls, c.key ≠ key := by
  rw [RateLimiter.bounded_of hlimit hwindow RateLimiterService.wait_le h,
    RateLimiter.bounded_of hlimit hwindow AiInteractionRateLimiterService.wait_le h, and_self]

/-- One call a minute, and one more that comes too early. -/
theorem onePerMinute_bounded :
    let calls : List RateLimitedCall := [⟨"t:a", 1, 60, 0⟩, ⟨"t:a", 1, 60, 30000⟩]
    RateLimiterService.limiter.Bounded "t:a" 1 60 calls ∧
      AiInteractionRateLimiterService.limiter.Bounded "t:a" 1 60 calls :=
  (bounded_iff "t:a" (by norm_num) (by norm_num) ⟨by decide, by decide +kernel⟩).2 (.inl le_rfl)

/-- Half a call a minute is none: the bucket never holds a whole token. -/
theorem half_not_bounded :
    AiInteractionRateLimiterService.limiter.decision [] ⟨"t:a", 1 / 2, 60, 0⟩ = ⟨false, some 60⟩ ∧
    AiInteractionRateLimiterService.limiter.decision [⟨"t:a", 1 / 2, 60, 0⟩]
      ⟨"t:a", 1 / 2, 60, 60000⟩ = ⟨false, some 60⟩ ∧
    ¬ AiInteractionRateLimiterService.limiter.Bounded "t:a" (1 / 2) 60
      [⟨"t:a", 1 / 2, 60, 0⟩] := by
  have hfirst : AiInteractionRateLimiterService.limiter.decision [] ⟨"t:a", 1 / 2, 60, 0⟩ =
      ⟨false, some 60⟩ := by decide +kernel
  have hsecond : AiInteractionRateLimiterService.limiter.decision [⟨"t:a", 1 / 2, 60, 0⟩]
      ⟨"t:a", 1 / 2, 60, 60000⟩ = ⟨false, some 60⟩ := by decide +kernel
  refine ⟨hfirst, hsecond, fun h => ?_⟩
  have hallowed := h.retryAfter [] ⟨"t:a", 1 / 2, 60, 0⟩ 60 prefix_rfl rfl
    (by rw [hfirst]) [] ⟨"t:a", 1 / 2, 60, 60000⟩ (fun d hd => absurd hd not_mem_nil) rfl
    (by decide +kernel)
  rw [nil_append, hsecond] at hallowed
  cases hallowed

/-! ## Tenants -/

namespace RateLimiter

variable {C : Type*}

/-- The calls of a run with their decisions. -/
def decisions (tryAcquire : Buckets → C → RateLimitDecision × Buckets) :
    Buckets → List C → List (C × RateLimitDecision)
  | _, [] => []
  | buckets, c :: calls =>
    (c, (tryAcquire buckets c).1) :: decisions tryAcquire (tryAcquire buckets c).2 calls

/-- A call reads and writes the bucket of its key only. -/
structure Keyed (tryAcquire : Buckets → C → RateLimitDecision × Buckets) (keyOf : C → String) :
    Prop where
  own : ∀ c b b', b (keyOf c) = b' (keyOf c) → (tryAcquire b c).1 = (tryAcquire b' c).1 ∧
    (tryAcquire b c).2 (keyOf c) = (tryAcquire b' c).2 (keyOf c)
  others : ∀ c b key, keyOf c ≠ key → (tryAcquire b c).2 key = b key

theorem keyed_acquire (limiter : RateLimiter) (call : C → RateLimitedCall) :
    Keyed (fun b c => limiter.acquire b (call c)) fun c => (call c).key where
  own c b b' h := by
    have hbucket : getOrCreateBucket b (call c) = getOrCreateBucket b' (call c) := by
      rw [getOrCreateBucket, getOrCreateBucket, h]
    simp only [acquire, hbucket, update_self, and_self]
  others c b key h := acquire_of_ne h

variable {tryAcquire : Buckets → C → RateLimitDecision × Buckets} {keyOf : C → String}

/-- The decisions for calls whose keys no other call has are those of a run of these alone. -/
theorem decisions_filter (h : Keyed tryAcquire keyOf) {p : C → Bool} {calls : List C}
    (hp : ∀ c ∈ calls, ∀ c' ∈ calls, keyOf c = keyOf c' → p c = p c') {b b' : Buckets}
    (hb : ∀ c ∈ calls, p c = true → b (keyOf c) = b' (keyOf c)) :
    (decisions tryAcquire b calls).filter (fun x => p x.1) =
      decisions tryAcquire b' (calls.filter p) := by
  induction calls generalizing b b' with
  | nil => rfl
  | cons c calls ih =>
    have hp' := fun d hd d' hd' =>
      hp d (mem_cons_of_mem _ hd) d' (mem_cons_of_mem _ hd')
    have hb' := fun d hd => hb d (mem_cons_of_mem _ hd)
    rw [decisions, filter_cons, filter_cons]
    cases hc : p c with
    | true =>
      obtain ⟨hsame, hkeep⟩ := h.own c b b' (hb c mem_cons_self hc)
      rw [if_pos rfl, if_pos rfl, decisions, hsame]
      refine congrArg _ (ih hp' fun d hd hpd => ?_)
      by_cases hkey : keyOf c = keyOf d
      · rw [← hkey, hkeep]
      · rw [h.others c b _ hkey, h.others c b' _ hkey, hb' d hd hpd]
    | false =>
      refine ih hp' fun d hd hpd => ?_
      have hkey : keyOf c ≠ keyOf d := by
        intro hkey
        rw [hp c mem_cons_self d (mem_cons_of_mem _ hd) hkey, hpd] at hc
        cases hc
      rw [h.others c b _ hkey, hb' d hd hpd]

end RateLimiter

/-- `${tenantId}:${name}` tells the tenant, where the ids of tenants have no colon. -/
theorem tenantId_of_key {tenantId tenantId' name name' : String} (hid : ':' ∉ tenantId.toList)
    (hid' : ':' ∉ tenantId'.toList)
    (h : tenantId ++ ":" ++ name = tenantId' ++ ":" ++ name') : tenantId = tenantId' := by
  have hcut : ∀ {text rest : List Char}, ':' ∉ text →
      (text ++ ':' :: rest).takeWhile (· ≠ ':') = text := by
    intro text rest htext
    rw [takeWhile_append_of_pos fun c hc => by
      simpa using ne_of_mem_of_not_mem hc htext]
    simp
  have htext := congrArg (fun key => key.toList.takeWhile (· ≠ ':')) h
  simp only [String.toList_append, append_assoc] at htext
  exact String.toList_inj.1 ((hcut hid).symm.trans (htext.trans (hcut hid')))

/-- What is decided for a tenant does not depend on the calls of others. -/
def TenantsApart {C : Type*} (tenantOf : C → String)
    (tryAcquire : Buckets → C → RateLimitDecision × Buckets) : Prop :=
  ∀ (calls : List C) (tenantId : String), (∀ c ∈ calls, ':' ∉ (tenantOf c).toList) →
    (RateLimiter.decisions tryAcquire .empty calls).filter (fun x => tenantOf x.1 = tenantId) =
      RateLimiter.decisions tryAcquire .empty (calls.filter fun c => tenantOf c = tenantId)

theorem RateLimiter.Keyed.tenantsApart {C : Type*} {tenantOf nameOf : C → String}
    {tryAcquire : Buckets → C → RateLimitDecision × Buckets}
    (h : Keyed tryAcquire fun c => tenantOf c ++ ":" ++ nameOf c) :
    TenantsApart tenantOf tryAcquire := by
  intro calls tenantId hids
  refine decisions_filter (p := fun c => tenantOf c = tenantId) h (fun c hc c' hc' hkey => ?_)
    fun c _ _ => rfl
  simp only [tenantId_of_key (hids c hc) (hids c' hc') hkey]

/-- A call of `RateLimiterService`. -/
structure ConnectorCall where
  tenantId : String
  connectorId : String
  config : Option ProviderRateLimitConfig
  now : ℚ

def ConnectorCall.tryAcquire (buckets : Buckets) (c : ConnectorCall) :
    RateLimitDecision × Buckets :=
  RateLimiterService.tryAcquire buckets c.tenantId c.connectorId c.config c.now

/-- A call of `AiInteractionRateLimiterService`. -/
structure ActorCall where
  tenantId : String
  actorId : String
  now : ℚ

def ActorCall.tryAcquire (service : AiInteractionRateLimiterService) (buckets : Buckets)
    (c : ActorCall) : RateLimitDecision × Buckets :=
  service.tryAcquire buckets c.tenantId c.actorId c.now

/-- **Tenants are apart**: however the calls of tenants are interleaved, each gets from both
services the decisions that it would get alone. -/
theorem tenants_apart : TenantsApart ConnectorCall.tenantId ConnectorCall.tryAcquire ∧
    ∀ service, TenantsApart ActorCall.tenantId (ActorCall.tryAcquire service) := by
  constructor
  · suffices hkeyed : RateLimiter.Keyed ConnectorCall.tryAcquire fun c =>
        c.tenantId ++ ":" ++ c.connectorId from hkeyed.tenantsApart
    constructor
    · intro c b b' h
      unfold ConnectorCall.tryAcquire RateLimiterService.tryAcquire
      split
      · exact (RateLimiter.keyed_acquire RateLimiterService.limiter fun _ : Unit => _).own () b b' h
      · exact ⟨rfl, h⟩
    · intro c b key h
      unfold ConnectorCall.tryAcquire RateLimiterService.tryAcquire
      split
      · exact RateLimiter.acquire_of_ne h
      · rfl
  · intro service
    exact (RateLimiter.keyed_acquire AiInteractionRateLimiterService.limiter fun c : ActorCall =>
      ⟨c.tenantId ++ ":" ++ c.actorId, (service.limitsFor c.tenantId).1,
        (service.limitsFor c.tenantId).2, c.now⟩).tenantsApart

/-- Two tenants call for connectors of the same name, with one call a minute each. -/
def twoTenants : List ConnectorCall :=
  [⟨"t", "hr", some ⟨some 1, some 60⟩, 0⟩, ⟨"u", "hr", some ⟨some 1, some 60⟩, 10000⟩,
    ⟨"t", "hr", some ⟨some 1, some 60⟩, 20000⟩, ⟨"u", "hr", some ⟨some 1, some 60⟩, 70000⟩]

theorem twoTenants_apart :
    (RateLimiter.decisions ConnectorCall.tryAcquire .empty twoTenants).map (·.2.allowed) =
        [true, true, false, true] ∧
      (RateLimiter.decisions ConnectorCall.tryAcquire .empty twoTenants).filter
          (fun x => x.1.tenantId = "t") =
        RateLimiter.decisions ConnectorCall.tryAcquire .empty
          (twoTenants.filter fun c => c.tenantId = "t") :=
  ⟨by decide +kernel, tenants_apart.1 twoTenants "t" (by decide)⟩

end Workforce.Integration
