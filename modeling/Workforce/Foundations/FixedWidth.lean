import Mathlib.Tactic.IntervalCases
import Mathlib.Tactic.Ring

/-!
# Numerals of a fixed width

Texts such as `2026-03-02` or the canonical form of a UUID are made of numerals of a known width
with separators between them. `digits base width n` writes such a numeral, `number base width`
reads one off the front of a text and `literal` a separator; each reader returns what is left of the
text. A numeral is read back as it was written (`number_digits`).
-/

namespace Workforce.FixedWidth

/-- The value of a digit, in either case. -/
def digitValue (c : Char) : Option ℕ :=
  if '0' ≤ c ∧ c ≤ '9' then some (c.toNat - 48)
  else if 'a' ≤ c ∧ c ≤ 'f' then some (c.toNat - 87)
  else if 'A' ≤ c ∧ c ≤ 'F' then some (c.toNat - 55)
  else none

/-- The last `width` digits of a number, most significant first. -/
def digits (base : ℕ) : ℕ → ℕ → List Char
  | 0, _ => []
  | width + 1, n => Nat.digitChar (n / base ^ width) :: digits base width (n % base ^ width)

/-- Reads `width` digits onto an accumulated value. -/
def readDigits (base : ℕ) : ℕ → ℕ → List Char → Option (ℕ × List Char)
  | 0, acc, cs => some (acc, cs)
  | _ + 1, _, [] => none
  | width + 1, acc, c :: cs =>
    match digitValue c with
    | some d => if d < base then readDigits base width (acc * base + d) cs else none
    | none => none

/-- Reads a numeral off the front of a text. -/
def number (base width : ℕ) (cs : List Char) : Option (ℕ × List Char) := readDigits base width 0 cs

/-- Reads a separator off the front of a text. -/
def literal (c : Char) : List Char → Option (List Char)
  | [] => none
  | c' :: cs => if c' = c then some cs else none

@[simp] theorem literal_cons (c : Char) (cs : List Char) : literal c (c :: cs) = some cs := by
  simp [literal]

theorem digitValue_digitChar {d : ℕ} (h : d < 16) : digitValue d.digitChar = some d := by
  interval_cases d <;> rfl

theorem digitChar_ne {d : ℕ} (h : d < 16) {c : Char} (hc : digitValue c = none) :
    d.digitChar ≠ c := by
  rintro rfl
  rw [digitValue_digitChar h] at hc
  cases hc

variable {base : ℕ}

variable {width n : ℕ}

theorem leading_digit_lt (hn : n < base ^ (width + 1)) :
    0 < base ^ width ∧ n / base ^ width < base := by
  have hpos : 0 < base ^ width := Nat.pos_of_ne_zero fun h => by simp [pow_succ, h] at hn
  exact ⟨hpos, by rwa [Nat.div_lt_iff_lt_mul hpos, mul_comm, ← pow_succ]⟩

/-- What is not a digit does not occur in a numeral. -/
theorem not_mem_digits (hbase : base ≤ 16) {c : Char} (hc : digitValue c = none)
    (hn : n < base ^ width) : c ∉ digits base width n := by
  induction width generalizing n with
  | zero => exact List.not_mem_nil
  | succ width ih =>
    obtain ⟨hpos, hdigit⟩ := leading_digit_lt hn
    rw [digits, List.mem_cons, not_or]
    exact ⟨(digitChar_ne (hdigit.trans_le hbase) hc).symm, ih (Nat.mod_lt _ hpos)⟩

theorem readDigits_digits (hbase : base ≤ 16) (hn : n < base ^ width) (acc : ℕ) (rest : List Char) :
    readDigits base width acc (digits base width n ++ rest) =
      some (acc * base ^ width + n, rest) := by
  induction width generalizing n acc with
  | zero =>
    have hzero : n = 0 := by simpa using hn
    simp [readDigits, digits, hzero]
  | succ width ih =>
    obtain ⟨hpos, hdigit⟩ := leading_digit_lt hn
    have hsum : (acc * base + n / base ^ width) * base ^ width + n % base ^ width =
        acc * base ^ (width + 1) + n := by
      conv_rhs => rw [← Nat.div_add_mod n (base ^ width)]
      ring
    rw [digits, List.cons_append, readDigits, digitValue_digitChar (hdigit.trans_le hbase)]
    simp only [hdigit, if_true]
    rw [ih (Nat.mod_lt _ hpos), hsum]

/-- A numeral is read back as it was written, and what follows it is left. -/
theorem number_digits (hbase : base ≤ 16) (hn : n < base ^ width) (rest : List Char) :
    number base width (digits base width n ++ rest) = some (n, rest) := by
  simpa [number] using readDigits_digits hbase hn 0 rest

end Workforce.FixedWidth
