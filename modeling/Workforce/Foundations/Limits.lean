import Mathlib.Data.Int.ConditionallyCompleteOrder
import Mathlib.Data.List.MinMax
import Mathlib.Data.List.Sort
import Mathlib.Order.ConditionallyCompleteLattice.Basic

/-!
# The first rows of a query

`ORDER BY … LIMIT n` returns the first `n` rows of a table. Rows that the order does not tell apart
come in any order, so what it may return is a relation (`Limit`). Leaving out rows that the query
did not return changes nothing (`Limit.filter`), and neither does adding rows that `n` others come
before (`Limit.of_filter`).
-/

namespace Workforce.Tables

open List

variable {α : Type*} (le : α → α → Prop)

/-- What `ORDER BY … LIMIT n` may return: the first `n` of all the rows, in an order of theirs. -/
def Limit (n : ℕ) (rows first : List α) : Prop :=
  ∃ sorted : List α, sorted.Perm rows ∧ sorted.Pairwise le ∧ first = sorted.take n

variable {le} {n : ℕ} {rows first : List α}

theorem Limit.length_eq (h : Limit le n rows first) : first.length = min n rows.length := by
  obtain ⟨sorted, hperm, -, rfl⟩ := h
  rw [length_take, hperm.length_eq]

/-- A result that leaves out the rows that fail a test is one of the table without them. -/
theorem Limit.filter (h : Limit le n rows first) {p : α → Bool} (hp : ∀ a ∈ first, p a = true) :
    Limit le n (rows.filter p) first := by
  obtain ⟨sorted, hperm, hsorted, rfl⟩ := h
  refine ⟨sorted.filter p, hperm.filter p, hsorted.filter p, ?_⟩
  conv_rhs => rw [← take_append_drop n sorted]
  rw [filter_append, filter_eq_self.2 hp]
  rcases le_or_gt n sorted.length with hle | hlt
  · have hlength : (sorted.take n).length = n := length_take_of_le hle
    exact (take_left' hlength).symm
  · rw [drop_eq_nil_of_le hlt.le, filter_nil, append_nil, take_take, min_self]

section Order

variable [DecidableRel le] [Std.Total le] [IsTrans α le]

theorem exists_limit (n : ℕ) (rows : List α) : ∃ first, Limit le n rows first :=
  ⟨_, rows.insertionSort le, perm_insertionSort le rows, pairwise_insertionSort le rows, rfl⟩

omit [Std.Total le] in
/-- Fewer than `n` rows come before one that a row of the first `n` may follow. -/
theorem countP_lt_of_mem_take {sorted : List α} (hsorted : sorted.Pairwise le) {a b : α}
    (ha : a ∈ sorted.take n) (hba : le b a) : sorted.countP (fun c => ¬ le b c) < n := by
  obtain ⟨before, after, htake⟩ := append_of_mem ha
  have hsplit : sorted = before ++ a :: (after ++ sorted.drop n) := by
    rw [← cons_append, ← append_assoc, ← htake, take_append_drop]
  have hlength : before.length < n := by
    have h := length_take_le n sorted
    rw [htake, length_append, length_cons] at h
    omega
  have hafter : (a :: (after ++ sorted.drop n)).countP (fun c => ¬ le b c) = 0 := by
    rw [hsplit, pairwise_append, pairwise_cons] at hsorted
    rw [countP_eq_zero]
    intro c hc
    rcases mem_cons.1 hc with rfl | hc
    · simpa using hba
    · simpa using IsTrans.trans b a c hba (hsorted.2.1.1 c hc)
  rw [hsplit, countP_append, hafter, Nat.add_zero]
  exact lt_of_le_of_lt countP_le_length hlength

variable {p : α → Bool}

/-- Rows that `n` others, which pass a test, come before are not among the first `n`. -/
theorem Limit.forall_of_reach (h : Limit le n rows first)
    (hreach : ∀ b ∈ rows, p b = false → n ≤ (rows.filter p).countP fun c => ¬ le b c) :
    ∀ a ∈ first, p a = true := by
  obtain ⟨sorted, hperm, hsorted, rfl⟩ := h
  intro a ha
  by_contra hno
  have hlt := countP_lt_of_mem_take hsorted ha (Std.Total.total a a |>.elim id id)
  have hle := hreach a (hperm.subset (mem_of_mem_take ha)) (by simpa using hno)
  have hsub : (rows.filter p).countP (fun c => ¬ le a c) ≤ rows.countP fun c => ¬ le a c :=
    filter_sublist.countP_le
  rw [hperm.countP_eq] at hlt
  omega

/-- A result of the table without such rows is one of the whole table. -/
theorem Limit.of_filter (h : Limit le n (rows.filter p) first)
    (hreach : ∀ b ∈ rows, p b = false → n ≤ (rows.filter p).countP fun c => ¬ le b c) :
    Limit le n rows first := by
  obtain ⟨sorted, hperm, hsorted, rfl⟩ := h
  set rest := (sorted.drop n ++ rows.filter fun a => !p a).insertionSort le with hrest
  refine ⟨sorted.take n ++ rest, ?_, pairwise_append.2 ⟨hsorted.sublist (take_sublist ..),
    pairwise_insertionSort le _, fun a ha b hb => ?_⟩, ?_⟩
  · calc sorted.take n ++ rest
      _ |>.Perm (sorted.take n ++ (sorted.drop n ++ rows.filter fun a => !p a)) :=
        (perm_insertionSort le _).append_left _
      _ = sorted ++ rows.filter fun a => !p a := by
        rw [← append_assoc, take_append_drop]
      _ |>.Perm (rows.filter p ++ rows.filter fun a => !p a) := hperm.append_right _
      _ |>.Perm rows := filter_append_perm p rows
  · rw [hrest, mem_insertionSort, mem_append] at hb
    rcases hb with hb | hb
    · rw [← take_append_drop n sorted] at hsorted
      exact (pairwise_append.1 hsorted).2.2 a ha b hb
    · obtain ⟨hb, hpb⟩ := mem_filter.1 hb
      by_contra hno
      have hlt := countP_lt_of_mem_take hsorted ha ((Std.Total.total a b).resolve_left hno)
      have hle := hreach b hb (by simpa using hpb)
      rw [hperm.countP_eq] at hlt
      omega
  · rcases le_or_gt n sorted.length with hle | hlt
    · exact (take_left' (length_take_of_le hle)).symm
    · have hnone : (rows.filter fun a => !p a) = [] := by
        rw [filter_eq_nil_iff]
        intro b hb hpb
        have hle := hreach b hb (by simpa using hpb)
        have hlength := countP_le_length (p := fun c => !decide (le b c)) (l := rows.filter p)
        rw [← hperm.length_eq] at hlength
        simp only [decide_not] at hle
        omega
      rw [hrest, hnone, drop_eq_nil_of_le hlt.le, append_nil, insertionSort_nil,
        append_nil, take_take, min_self]

end Order

/-! ## The last row -/

/-- `ORDER BY f DESC LIMIT 1` returns a row with the largest value, when there is a row. Which one,
among several, is up to the database. -/
structure PicksMax (f : α → ℤ) (pick : List α → Option α) : Prop where
  mem : ∀ {rows a}, pick rows = some a → a ∈ rows
  le : ∀ {rows a}, pick rows = some a → ∀ b ∈ rows, f b ≤ f a
  isSome : ∀ {rows}, rows ≠ [] → (pick rows).isSome

theorem picksMax_argmax (f : α → ℤ) : PicksMax f (argmax f) where
  mem := fun h => argmax_mem h
  le := fun h _ hb => le_of_mem_argmax hb h
  isSome := fun h => Option.isSome_iff_ne_none.2 (mt argmax_eq_none.1 h)

theorem PicksMax.eq_none_iff {f : α → ℤ} {pick : List α → Option α} (h : PicksMax f pick)
    {rows : List α} : pick rows = none ↔ rows = [] := by
  constructor
  · intro hnone
    by_contra hne
    have hsome := h.isSome hne
    rw [hnone] at hsome
    cases hsome
  · rintro rfl
    cases hp : pick [] with
    | none => rfl
    | some a => exact absurd (h.mem hp) (not_mem_nil)

end Workforce.Tables
