import Mathlib.Data.Int.Log
import Mathlib.Data.Rat.Floor
import Mathlib.Tactic.Positivity

/-!
# Numbers as doubles

A finite double is the rational that it denotes. `nearestDouble` is what a decimal text is read as:
the nearest multiple of a power of two with 53 bits, a tie going to the even one. `toFixed` writes a
number that is not negative with two decimals, in hundredths: the nearest one, and of two the
larger.

Hundredths below a thousand are read back as they were written (`toFixed_nearestDouble`). A product
or a quotient of doubles is off by at most one part in `2 ^ 53`, or it is exact
(`abs_nearestDouble_sub_le_div`, `nearestDouble_of_multiple`).
-/

namespace Workforce.Doubles

/-- The nearest integer, and of two the even one. -/
def roundHalfEven (y : ℚ) : ℤ :=
  if y - ⌊y⌋ < 1 / 2 then ⌊y⌋
  else if 1 / 2 < y - ⌊y⌋ then ⌊y⌋ + 1
  else if ⌊y⌋ % 2 = 0 then ⌊y⌋ else ⌊y⌋ + 1

/-- The exponent of the last of the 53 bits; below the normal doubles it stays the same. -/
def lastBit (x : ℚ) : ℤ := max (Int.log 2 |x| - 52) (-1074)

/-- `Number(text)` of a decimal text that denotes `x`, within the range of finite doubles. -/
def nearestDouble (x : ℚ) : ℚ := roundHalfEven (x / 2 ^ lastBit x) * 2 ^ lastBit x

/-- `x.toFixed(2)` of a number that is not negative, in hundredths. -/
def toFixed (x : ℚ) : ℤ := ⌊100 * x + 1 / 2⌋

theorem abs_roundHalfEven_sub_le (y : ℚ) : |roundHalfEven y - y| ≤ 1 / 2 := by
  have hle := Int.floor_le y
  have hlt := Int.lt_floor_add_one y
  unfold roundHalfEven
  split
  case isTrue h => rw [abs_le]; constructor <;> linarith
  case isFalse h =>
    split
    case isTrue h' =>
      push_cast
      rw [abs_le]
      constructor <;> linarith
    case isFalse h' =>
      split
      · rw [abs_le]; constructor <;> linarith
      · push_cast
        rw [abs_le]
        constructor <;> linarith

/-- A double is off by at most half of the last bit. -/
theorem abs_nearestDouble_sub_le (x : ℚ) : |nearestDouble x - x| ≤ 2 ^ lastBit x / 2 := by
  have hpos : (0 : ℚ) < 2 ^ lastBit x := zpow_pos (by norm_num) _
  have hsplit : nearestDouble x - x =
      (roundHalfEven (x / 2 ^ lastBit x) - x / 2 ^ lastBit x) * 2 ^ lastBit x := by
    rw [nearestDouble, sub_mul, div_mul_cancel₀ _ hpos.ne']
  rw [hsplit, abs_mul, abs_of_pos hpos]
  have hround := abs_roundHalfEven_sub_le (x / 2 ^ lastBit x)
  nlinarith

theorem lastBit_le {x : ℚ} {e : ℤ} (he : -52 ≤ e) (hx : |x| < 2 ^ (e + 53)) : lastBit x ≤ e := by
  refine max_le ?_ (by omega)
  rcases (abs_nonneg x).eq_or_lt with hzero | hpos
  · rw [← hzero, Int.log_zero_right]
    omega
  · have hlog := (Int.lt_zpow_iff_log_lt Nat.one_lt_two hpos).1 hx
    omega

theorem lastBit_eq {x : ℚ} {e : ℤ} (he : -1074 ≤ e) (hle : 2 ^ (e + 52) ≤ |x|)
    (hlt : |x| < 2 ^ (e + 53)) : lastBit x = e := by
  have hpos : 0 < |x| := (zpow_pos (by norm_num) _).trans_le hle
  have hlog := (Int.zpow_le_iff_le_log Nat.one_lt_two hpos).1 hle
  have hlog' := (Int.lt_zpow_iff_log_lt Nat.one_lt_two hpos).1 hlt
  unfold lastBit
  omega

theorem roundHalfEven_eq {y : ℚ} {n : ℤ} (h : |y - n| < 1 / 2) : roundHalfEven y = n := by
  have hoff := abs_roundHalfEven_sub_le y
  rw [abs_le] at hoff
  rw [abs_lt] at h
  have hlt : |((roundHalfEven y - n : ℤ) : ℚ)| < 1 := by
    push_cast
    rw [abs_lt]
    constructor <;> linarith
  have hzero := Int.abs_lt_one_iff.1 (by exact_mod_cast hlt)
  omega

/-- The double next to a number between two powers of two. -/
theorem nearestDouble_eq {x : ℚ} {e n : ℤ} (he : -1074 ≤ e) (hle : 2 ^ (e + 52) ≤ |x|)
    (hlt : |x| < 2 ^ (e + 53)) (hn : |x / 2 ^ e - n| < 1 / 2) : nearestDouble x = n * 2 ^ e := by
  rw [nearestDouble, lastBit_eq he hle hlt, roundHalfEven_eq hn]

/-- A whole multiple of its last bit, or of more, is a double already. -/
theorem nearestDouble_of_multiple {x : ℚ} {n e : ℤ} (hx : x = n * 2 ^ e) (he : lastBit x ≤ e) :
    nearestDouble x = x := by
  have hpos : (0 : ℚ) < 2 ^ lastBit x := zpow_pos (by norm_num) _
  have hquot : x / 2 ^ lastBit x = ((n * 2 ^ (e - lastBit x).toNat : ℤ) : ℚ) := by
    rw [div_eq_iff hpos.ne', Int.cast_mul, Int.cast_pow, mul_assoc, Int.cast_ofNat,
      ← zpow_natCast, ← zpow_add₀ (by norm_num), Int.toNat_of_nonneg (by omega), sub_add_cancel]
    exact hx
  have hround := roundHalfEven_eq (y := x / 2 ^ lastBit x) (n := n * 2 ^ (e - lastBit x).toNat)
    (by rw [hquot, sub_self]; norm_num)
  rw [nearestDouble, hround, ← hquot, div_mul_cancel₀ _ hpos.ne']

/-- A whole number of parts, each a power of two, of which 53 bits are enough. -/
theorem nearestDouble_of_lt {x : ℚ} {n e : ℤ} (hx : x = n * 2 ^ e) (he : -52 ≤ e)
    (hlt : |x| < 2 ^ (e + 53)) : nearestDouble x = x :=
  nearestDouble_of_multiple hx (lastBit_le he hlt)

/-- A whole multiple of the least positive double. -/
def OnGrid (x : ℚ) : Prop := ∃ n : ℤ, x = n * 2 ^ (-1074 : ℤ)

theorem onGrid_nearestDouble (x : ℚ) : OnGrid (nearestDouble x) := by
  have hbit : -1074 ≤ lastBit x := le_max_right _ _
  refine ⟨roundHalfEven (x / 2 ^ lastBit x) * 2 ^ (lastBit x + 1074).toNat, ?_⟩
  rw [nearestDouble, Int.cast_mul, Int.cast_pow, mul_assoc, Int.cast_ofNat, ← zpow_natCast,
    ← zpow_add₀ (by norm_num), Int.toNat_of_nonneg (by omega), add_neg_cancel_right]

theorem OnGrid.mul_intCast {x : ℚ} (h : OnGrid x) (m : ℤ) : OnGrid (x * m) := by
  obtain ⟨n, rfl⟩ := h
  exact ⟨n * m, by rw [Int.cast_mul, mul_right_comm]⟩

/-- A normal number is off by at most one part in `2 ^ 53`, and below the normal numbers a multiple
of the least one is exact. -/
theorem abs_nearestDouble_sub_le_div {x : ℚ} (h : OnGrid x ∨ 2 ^ (-1022 : ℤ) ≤ |x|) :
    |nearestDouble x - x| ≤ |x| / 2 ^ 53 := by
  rcases le_or_gt (-1074) (Int.log 2 |x| - 52) with hnormal | hsmall
  · have hbit : lastBit x = Int.log 2 |x| - 52 := max_eq_left hnormal
    rcases eq_or_ne x 0 with rfl | hx
    · simp [nearestDouble, roundHalfEven]
    · have hpow := Int.zpow_log_le_self Nat.one_lt_two (abs_pos.2 hx)
      refine (abs_nearestDouble_sub_le x).trans ?_
      rw [hbit, zpow_sub₀ (by norm_num), div_div, div_le_div_iff₀ (by positivity) (by positivity)]
      push_cast at hpow
      norm_num
      linarith
  · have hbit : lastBit x = -1074 := max_eq_right hsmall.le
    have hgrid : OnGrid x := by
      refine h.resolve_right fun hle => ?_
      have hpos : 0 < |x| := (zpow_pos (by norm_num) _).trans_le hle
      have hlog := (Int.zpow_le_iff_le_log Nat.one_lt_two hpos).1 hle
      omega
    obtain ⟨n, hn⟩ := hgrid
    rw [nearestDouble_of_multiple hn hbit.le, sub_self, abs_zero]
    positivity

/-- Hundredths are written as they were read. -/
theorem toFixed_nearestDouble {n : ℕ} (hn : n < 100000) :
    toFixed (nearestDouble (n / 100)) = n := by
  have hlt : (n : ℚ) < 100000 := by exact_mod_cast hn
  have hsmall : |(n : ℚ) / 100| < 1024 := by
    rw [abs_of_nonneg (by positivity)]
    linarith
  have hbit : (2 : ℚ) ^ lastBit (n / 100) ≤ 2 ^ (-43 : ℤ) :=
    zpow_le_zpow_right₀ (by norm_num) (lastBit_le (by norm_num) (by norm_num; exact hsmall))
  have hoff := (abs_nearestDouble_sub_le (n / 100)).trans
    (div_le_div_of_nonneg_right hbit (by norm_num))
  norm_num at hoff
  rw [abs_le] at hoff
  rw [toFixed, Int.floor_eq_iff]
  push_cast
  constructor <;> linarith

end Workforce.Doubles
