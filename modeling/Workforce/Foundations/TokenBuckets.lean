import Mathlib.Algebra.Order.Field.Basic
import Mathlib.Data.List.Pairwise
import Mathlib.Tactic.Linarith
import Mathlib.Tactic.Ring

/-!
# Token buckets

A bucket holds tokens up to a capacity and is refilled at a rate; each request takes one token, and
is refused when there is less than one. A request is paid for by the tokens before it and by the
refill since (`count_add_tokens_le`), so no more requests are allowed in an interval than the
capacity and the refill of its length (`countP_log_le`). A bucket for a whole token has one again
after the time that refills what is missing (`request_of_wait`).
-/

namespace Workforce.TokenBuckets

open List

structure Bucket (K : Type*) where
  tokens : K
  capacity : K
  refillRate : K
  lastRefillAt : K

namespace Bucket

variable {K : Type*} [Field K] [LinearOrder K]

/-- A bucket at the time of its first request. -/
def full (capacity refillRate now : K) : Bucket K := ⟨capacity, capacity, refillRate, now⟩

def refill (b : Bucket K) (now : K) : Bucket K :=
  if now - b.lastRefillAt ≤ 0 then b
  else
    { b with
      tokens := min b.capacity (b.tokens + (now - b.lastRefillAt) * b.refillRate)
      lastRefillAt := now }

/-- A request: whether it is allowed, and the bucket after it. -/
def request (b : Bucket K) (now : K) : Bool × Bucket K :=
  if 1 ≤ (b.refill now).tokens then
    (true, { b.refill now with tokens := (b.refill now).tokens - 1 })
  else (false, b.refill now)

/-- The requests at some times, with whether each is allowed. -/
def log : Bucket K → List K → List (K × Bool)
  | _, [] => []
  | b, now :: times => (now, (b.request now).1) :: log (b.request now).2 times

/-- The tokens are within the bucket, which does not leak. -/
structure Sound (b : Bucket K) : Prop where
  nonneg : 0 ≤ b.tokens
  le : b.tokens ≤ b.capacity
  rate : 0 ≤ b.refillRate

variable {b : Bucket K} {now : K}

@[simp] theorem refill_capacity (b : Bucket K) (now : K) :
    (b.refill now).capacity = b.capacity := by
  rw [refill]
  split <;> rfl

@[simp] theorem refill_refillRate (b : Bucket K) (now : K) :
    (b.refill now).refillRate = b.refillRate := by
  rw [refill]
  split <;> rfl

@[simp] theorem request_capacity (b : Bucket K) (now : K) :
    (b.request now).2.capacity = b.capacity := by
  rw [request]
  split <;> exact b.refill_capacity now

@[simp] theorem request_refillRate (b : Bucket K) (now : K) :
    (b.request now).2.refillRate = b.refillRate := by
  rw [request]
  split <;> exact b.refill_refillRate now

@[simp] theorem request_lastRefillAt (b : Bucket K) (now : K) :
    (b.request now).2.lastRefillAt = (b.refill now).lastRefillAt := by
  rw [request]
  split <;> rfl

theorem request_fst (b : Bucket K) (now : K) :
    (b.request now).1 = true ↔ 1 ≤ (b.refill now).tokens := by
  rw [request]
  split <;> simp_all

theorem request_refused (h : (b.request now).1 = false) : (b.request now).2 = b.refill now := by
  rw [request] at h ⊢
  split at h
  · cases h
  · rw [if_neg ‹_›]

theorem full_sound {capacity refillRate : K} (hcapacity : 0 ≤ capacity) (hrate : 0 ≤ refillRate)
    (now : K) : (full capacity refillRate now).Sound :=
  ⟨hcapacity, le_rfl, hrate⟩

/-- A request that is allowed takes one of the tokens. -/
theorem count_add_tokens (b : Bucket K) (now : K) :
    ((if (b.request now).1 then 1 else 0 : ℕ) : K) + (b.request now).2.tokens =
      (b.refill now).tokens := by
  rw [request]
  split
  · rw [if_pos rfl, Nat.cast_one]
    ring
  · rw [if_neg Bool.false_ne_true, Nat.cast_zero, zero_add]

variable [IsStrictOrderedRing K]

theorem refill_lastRefillAt (h : b.lastRefillAt ≤ now) : (b.refill now).lastRefillAt = now := by
  rw [refill]
  split
  · exact le_antisymm h (sub_nonpos.1 ‹_›)
  · rfl

theorem refill_tokens (hb : b.Sound) (h : b.lastRefillAt ≤ now) : (b.refill now).tokens =
    min b.capacity (b.tokens + (now - b.lastRefillAt) * b.refillRate) := by
  rw [refill]
  split
  · have heq : now - b.lastRefillAt = 0 := le_antisymm ‹_› (sub_nonneg.2 h)
    rw [heq, zero_mul, add_zero, min_eq_right hb.le]
  · rfl

theorem Sound.refill (hb : b.Sound) (h : b.lastRefillAt ≤ now) : (b.refill now).Sound := by
  have hadd : 0 ≤ (now - b.lastRefillAt) * b.refillRate := mul_nonneg (sub_nonneg.2 h) hb.rate
  refine ⟨?_, ?_, ?_⟩
  · rw [refill_tokens hb h]
    exact le_min (hb.nonneg.trans hb.le) (add_nonneg hb.nonneg hadd)
  · rw [refill_tokens hb h, refill_capacity]
    exact min_le_left _ _
  · rw [refill_refillRate]
    exact hb.rate

theorem Sound.request (hb : b.Sound) (h : b.lastRefillAt ≤ now) : (b.request now).2.Sound := by
  have hrefill := hb.refill h
  rw [Bucket.request]
  split
  · refine ⟨sub_nonneg.2 ‹_›, ?_, hrefill.rate⟩
    exact (sub_le_self _ zero_le_one).trans hrefill.le
  · exact hrefill

/-- What a request takes and what is left was there before or has been refilled. -/
theorem count_add_tokens_le (hb : b.Sound) (h : b.lastRefillAt ≤ now) :
    ((if (b.request now).1 then 1 else 0 : ℕ) : K) + (b.request now).2.tokens ≤
      b.tokens + (now - b.lastRefillAt) * b.refillRate := by
  rw [count_add_tokens, refill_tokens hb h]
  exact min_le_right _ _

/-! ## Every interval -/

/-- The number of requests that are allowed at times that meet a condition. -/
def allowed (p : K → Prop) [DecidablePred p] (log : List (K × Bool)) : ℕ :=
  log.countP fun entry => p entry.1 ∧ entry.2

section Allowed

omit [Field K] [LinearOrder K] [IsStrictOrderedRing K]

variable (p q : K → Prop) [DecidablePred p] [DecidablePred q]

theorem allowed_cons (now : K) (ok : Bool) (log : List (K × Bool)) :
    allowed p ((now, ok) :: log) = allowed p log + if p now ∧ ok then 1 else 0 := by
  rw [allowed, countP_cons]
  simp only [decide_eq_true_eq]
  rfl

variable {p q}

theorem allowed_mono (h : ∀ t, p t → q t) (log : List (K × Bool)) :
    allowed p log ≤ allowed q log := by
  refine countP_mono_left fun entry _ hp => ?_
  simp only [decide_eq_true_eq] at hp ⊢
  exact ⟨h _ hp.1, hp.2⟩

end Allowed

omit [IsStrictOrderedRing K] in
theorem allowed_log_eq_zero {p : K → Prop} [DecidablePred p] {times : List K}
    (h : ∀ t ∈ times, ¬ p t) (b : Bucket K) : allowed p (b.log times) = 0 := by
  induction times generalizing b with
  | nil => rfl
  | cons now times ih =>
    obtain ⟨hnow, h⟩ := forall_mem_cons.1 h
    rw [log, allowed_cons, ih h, if_neg fun hp => hnow hp.1]

/-- What is allowed up to a time is in the bucket or is refilled until then. -/
theorem allowed_log_le_tokens (hb : b.Sound) {times : List K} (hsorted : times.Pairwise (· ≤ ·))
    (htimes : ∀ t ∈ times, b.lastRefillAt ≤ t) {finish : K} (hfinish : b.lastRefillAt ≤ finish) :
    (allowed (· ≤ finish) (b.log times) : K) ≤
      b.tokens + (finish - b.lastRefillAt) * b.refillRate := by
  have hnonneg : 0 ≤ b.tokens + (finish - b.lastRefillAt) * b.refillRate :=
    add_nonneg hb.nonneg (mul_nonneg (sub_nonneg.2 hfinish) hb.rate)
  induction times generalizing b with
  | nil => rwa [log, allowed, countP_nil, Nat.cast_zero]
  | cons now times ih =>
    obtain ⟨hfirst, hsorted⟩ := pairwise_cons.1 hsorted
    rcases le_or_gt now finish with hle | hlt
    · have hnow := htimes now mem_cons_self
      have hsound := hb.request hnow
      have hlast : (b.request now).2.lastRefillAt = now := by
        rw [request_lastRefillAt, refill_lastRefillAt hnow]
      have hrest := ih hsound hsorted (by rwa [hlast]) (hlast.trans_le hle)
        (add_nonneg hsound.nonneg (mul_nonneg (by rw [hlast]; exact sub_nonneg.2 hle) hsound.rate))
      have htake := count_add_tokens_le hb hnow
      rw [hlast, request_refillRate] at hrest
      rw [log, allowed_cons, Nat.cast_add]
      simp only [hle, true_and]
      have hsplit : (finish - b.lastRefillAt) * b.refillRate =
          (now - b.lastRefillAt) * b.refillRate + (finish - now) * b.refillRate := by ring
      linarith
    · -- the requests from here on come later
      rw [allowed_log_eq_zero, Nat.cast_zero]
      · exact hnonneg
      · rintro t (_ | ⟨_, ht⟩)
        · exact not_le.2 hlt
        · exact not_le.2 (lt_of_lt_of_le hlt (hfirst t ht))

/-- **Every interval**: no more requests are allowed than the capacity and what is refilled in as
much time. -/
theorem allowed_log_le (hb : b.Sound) {times : List K} (hsorted : times.Pairwise (· ≤ ·))
    (htimes : ∀ t ∈ times, b.lastRefillAt ≤ t) {start finish : K} (hle : start ≤ finish) :
    (allowed (fun t => start ≤ t ∧ t ≤ finish) (b.log times) : K) ≤
      b.capacity + (finish - start) * b.refillRate := by
  have hnonneg : 0 ≤ b.capacity + (finish - start) * b.refillRate :=
    add_nonneg (hb.nonneg.trans hb.le) (mul_nonneg (sub_nonneg.2 hle) hb.rate)
  induction times generalizing b with
  | nil => rwa [log, allowed, countP_nil, Nat.cast_zero]
  | cons now times ih =>
    obtain ⟨hfirst, hsorted⟩ := pairwise_cons.1 hsorted
    have hnow := htimes now mem_cons_self
    have hsound := hb.request hnow
    have hlast : (b.request now).2.lastRefillAt = now := by
      rw [request_lastRefillAt, refill_lastRefillAt hnow]
    have hlater : ∀ t ∈ times, (b.request now).2.lastRefillAt ≤ t := by rwa [hlast]
    rcases lt_or_ge now start with hbefore | hstart
    · -- not in the interval yet
      have hrest := ih hsound hsorted hlater
        (by rw [request_capacity, request_refillRate]; exact hnonneg)
      rw [request_capacity, request_refillRate] at hrest
      rw [log, allowed_cons, if_neg fun h => absurd h.1.1 (not_le.2 hbefore), add_zero]
      exact hrest
    rcases le_or_gt now finish with hin | hafter
    · have hrest : (allowed (fun t => start ≤ t ∧ t ≤ finish) (log (b.request now).2 times) : K) ≤
          (b.request now).2.tokens + (finish - now) * b.refillRate := by
        have hup := allowed_log_le_tokens hsound hsorted hlater (hlast.trans_le hin)
        rw [hlast, request_refillRate] at hup
        exact (Nat.cast_le.2 (allowed_mono (fun _ h => h.2) _)).trans hup
      have htake := count_add_tokens b now
      have hfull := (hb.refill hnow).le
      rw [refill_capacity] at hfull
      have hless : (finish - now) * b.refillRate ≤ (finish - start) * b.refillRate :=
        mul_le_mul_of_nonneg_right (sub_le_sub_left hstart _) hb.rate
      rw [log, allowed_cons, Nat.cast_add]
      simp only [hstart, hin, true_and]
      linarith
    · rw [allowed_log_eq_zero, Nat.cast_zero]
      · exact hnonneg
      · rintro t (_ | ⟨_, ht⟩)
        · exact fun h => absurd h.2 (not_le.2 hafter)
        · exact fun h => absurd h.2 (not_le.2 (lt_of_lt_of_le hafter (hfirst t ht)))

/-! ## Waiting for a token -/

/-- A bucket for a whole token allows a request after what is missing has been refilled. -/
theorem request_of_wait (hb : b.Sound) (hcapacity : 1 ≤ b.capacity) (hrate : 0 < b.refillRate)
    (hnow : b.lastRefillAt ≤ now)
    (hwait : (1 - b.tokens) / b.refillRate ≤ now - b.lastRefillAt) :
    (b.request now).1 = true := by
  rw [request_fst, refill_tokens hb hnow]
  refine le_min hcapacity ?_
  have hrefilled := (div_le_iff₀ hrate).1 hwait
  linarith

/-- One for less than a whole token allows none. -/
theorem request_of_capacity_lt (hb : b.Sound) (hcapacity : b.capacity < 1)
    (hnow : b.lastRefillAt ≤ now) : (b.request now).1 = false := by
  rw [← Bool.not_eq_true, request_fst, not_le]
  have hle := (hb.refill hnow).le
  rw [refill_capacity] at hle
  exact lt_of_le_of_lt hle hcapacity

end Bucket

end Workforce.TokenBuckets
