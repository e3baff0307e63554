import Mathlib.Tactic.FieldSimp
import Mathlib.Tactic.Linarith
import Mathlib.Tactic.Positivity
import Mathlib.Tactic.Ring

/-!
# Erlang's formulas

The probabilities that a call is blocked (Erlang B), or has to wait (Erlang C), when `n` servers are
offered a load. Their inverses satisfy simple recursions, from which the closed forms and the
monotonicity in the number of servers and in the load follow.

* `invBlocking a n`: the inverse of Erlang B; `invBlocking_mul` is its closed form.
* `invDelay a n`: the inverse of Erlang C for `n + 1` servers; `inv_invDelay` is its closed form.
-/

namespace Workforce.Erlang

variable {K : Type*} [Field K]

def invBlocking (a : K) : ℕ → K
  | 0 => 1
  | n + 1 => 1 + (n + 1) / a * invBlocking a n

/-- For `n + 1` servers. -/
def invDelay (a : K) (n : ℕ) : K := 1 + ((n + 1) / a - 1) * invBlocking a n

variable [LinearOrder K] [IsStrictOrderedRing K] {a b : K}

theorem invBlocking_pos (ha : 0 < a) (n : ℕ) : 0 < invBlocking a n := by
  induction n with
  | zero => exact one_pos
  | succ n ih =>
    rw [invBlocking]
    positivity

theorem invBlocking_mul (ha : 0 < a) (n : ℕ) : invBlocking a n * (a ^ n / n.factorial) =
    ∑ k ∈ Finset.range (n + 1), a ^ k / k.factorial := by
  induction n with
  | zero => simp [invBlocking]
  | succ n ih =>
    have hfactorial : ((n + 1).factorial : K) = (n + 1) * n.factorial := by
      rw [Nat.factorial_succ, Nat.cast_mul, Nat.cast_succ]
    have hn : (n.factorial : K) ≠ 0 := Nat.cast_ne_zero.2 n.factorial_ne_zero
    have hn' : (n + 1 : K) ≠ 0 := by positivity
    rw [Finset.sum_range_succ, ← ih, invBlocking, hfactorial, pow_succ]
    field_simp
    ring

variable {n : ℕ}

theorem one_lt_div_load (ha : 0 < a) (h : a < n + 1) : 0 < (n + 1) / a - 1 := by
  rw [sub_pos, lt_div_iff₀ ha, one_mul]
  exact h

/-- More servers block less, when they can bear the load. -/
theorem invBlocking_lt_succ (ha : 0 < a) (h : a < n + 1) :
    invBlocking a n < invBlocking a (n + 1) := by
  have hpos := mul_pos (one_lt_div_load ha h) (invBlocking_pos ha n)
  rw [sub_mul, one_mul] at hpos
  rw [invBlocking]
  linarith

theorem invBlocking_anti (ha : 0 < a) (h : a ≤ b) (n : ℕ) : invBlocking b n ≤ invBlocking a n := by
  induction n with
  | zero => exact le_rfl
  | succ n ih =>
    have hpos := (invBlocking_pos (ha.trans_le h) n).le
    rw [invBlocking, invBlocking]
    gcongr

theorem one_lt_invDelay (ha : 0 < a) (h : a < n + 1) : 1 < invDelay a n := by
  rw [invDelay, lt_add_iff_pos_right]
  exact mul_pos (one_lt_div_load ha h) (invBlocking_pos ha n)

theorem invDelay_lt_succ (ha : 0 < a) (h : a < n + 1) :
    invDelay a n < invDelay a (n + 1) := by
  have hpos := one_lt_div_load ha h
  have hless : (n + 1) / a - 1 < ((n + 1 : ℕ) + 1) / a - 1 := by
    rw [Nat.cast_succ, sub_lt_sub_iff_right]
    gcongr
    exact lt_add_one _
  rw [invDelay, invDelay, add_lt_add_iff_left]
  exact mul_lt_mul hless (invBlocking_lt_succ ha h).le (invBlocking_pos ha n)
    (hpos.trans hless).le

theorem invDelay_strictAnti (ha : 0 < a) (h : a < b) (hb : b < n + 1) :
    invDelay b n < invDelay a n := by
  have hless : (n + 1) / b - 1 < (n + 1) / a - 1 := by
    rw [sub_lt_sub_iff_right]
    gcongr
  rw [invDelay, invDelay, add_lt_add_iff_left]
  exact mul_lt_mul hless (invBlocking_anti ha h.le n) (invBlocking_pos (ha.trans h) n)
    (one_lt_div_load ha (h.trans hb)).le

theorem inv_invDelay (ha : 0 < a) (h : a < n + 1) :
    (invDelay a n)⁻¹ =
      a ^ (n + 1) / (n + 1).factorial * ((n + 1) / (n + 1 - a)) /
        (∑ k ∈ Finset.range (n + 1), a ^ k / k.factorial +
          a ^ (n + 1) / (n + 1).factorial * ((n + 1) / (n + 1 - a))) := by
  have hfactorial : ((n + 1).factorial : K) = (n + 1) * n.factorial := by
    rw [Nat.factorial_succ, Nat.cast_mul, Nat.cast_succ]
  have hn : (0 : K) < n.factorial := Nat.cast_pos.2 n.factorial_pos
  have hn' : (0 : K) < n + 1 := by positivity
  have hdiff : 0 < n + 1 - a := sub_pos.2 h
  -- what waits, in terms of what is blocked by one server less
  set delayed := a ^ (n + 1) / (n + 1).factorial * ((n + 1) / (n + 1 - a)) with hdelayed
  have hdelayed_pos : 0 < delayed := by
    rw [hdelayed]
    positivity
  have hsum : ∑ k ∈ Finset.range (n + 1), a ^ k / k.factorial =
      ((n + 1) / a - 1) * invBlocking a n * delayed := by
    rw [← invBlocking_mul ha, hdelayed, hfactorial, pow_succ]
    field_simp
  have htotal : ∑ k ∈ Finset.range (n + 1), a ^ k / k.factorial + delayed =
      invDelay a n * delayed := by
    rw [hsum, invDelay]
    ring
  rw [htotal, div_mul_cancel_right₀ hdelayed_pos.ne']

end Workforce.Erlang
