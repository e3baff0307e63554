import Mathlib.Data.Set.Card
import Workforce.Foundations.Tables
import Workforce.Scheduling.Relaxation

/-!
# What a relaxation costs

`_min_rest_cost`, `_max_consecutive_days_cost` and `_longest_streak` of `app/solver/relaxation.py`:
the numbers on which a manager approves a relaxation.

The solver compares every two shifts of an employee; the cost compares each shift with the next one
by start. Where no two shifts of an employee overlap the two agree: a shift that starts later leaves
a longer rest. The streak is counted on the sorted dates with one variable, which holds the length
of the run of dates that ends at the last one seen.

* `relaxationCosts_exact`: the employees of the rest cost are those with any two shifts too close,
  and the longest streak is the greatest length of a run.
-/

namespace Workforce.Scheduling

open List

/-! ## The shifts of a result -/

/-- `shift_by_id[id]`: of shifts with one id the last. -/
def shiftById (shifts : List ShiftSlot) (id : UUID) : Option ShiftSlot :=
  shifts.reverse.find? (·.id = id)

/-- The assignments with their shifts; a shift that is not of the input ends the call. -/
def assignedShifts (original : SolveInput) (result : SolveResult) :
    Option (List (UUID × ShiftSlot)) :=
  result.assignments.mapM fun assignment =>
    (shiftById original.shifts assignment.shiftId).map (assignment.employeeId, ·)

/-- `shifts_by_employee[employee_id]`. -/
def shiftsOf (assigned : List (UUID × ShiftSlot)) (employeeId : UUID) : List ShiftSlot :=
  (assigned.filter (·.1 = employeeId)).map (·.2)

/-- `sorted` of a set. -/
def sorted {α : Type*} [LinearOrder α] (s : Finset α) : List α := s.sort

variable {α : Type*}

@[simp] theorem mem_sorted [LinearOrder α] {s : Finset α} {a : α} :
    a ∈ sorted s ↔ a ∈ s := Finset.mem_sort _

theorem pairwise_sorted [LinearOrder α] (s : Finset α) :
    (sorted s).Pairwise (· < ·) := s.sortedLT_sort.pairwise

/-- `sorted({…})` of ids: their texts are ordered as they are. -/
def sortedIds (ids : List UUID) : List UUID := ids.dedup.insertionSort (· ≤ ·)

/-! ## Rest between shifts -/

structure RestDetail where
  employeeId : UUID
  shiftIdA : UUID
  shiftIdB : UUID
  actualRestHours : ℚ
  requiredRestHours : ℚ

structure MinRestCost where
  employeesAffected : List UUID
  details : List RestDetail

/-- `gap_hours`. -/
def gapHours (earlier later : ShiftSlot) : ℚ :=
  ((later.start.instant - earlier.fin.instant : ℤ) : ℚ) / microsPerHour

/-- The body of the loop over adjacent shifts. -/
def restDetail (requiredHours : ℚ) (employeeId : UUID) (earlier later : ShiftSlot) :
    Option RestDetail :=
  if later.start.instant < earlier.fin.instant then none -- overlap
  else if gapHours earlier later < requiredHours then
    some ⟨employeeId, earlier.id, later.id,
      roundHalfEven (gapHours earlier later * 100) / 100, requiredHours⟩
  else none

/-- `sorted(shifts, key=lambda s: s.start)`. -/
def byStart (shifts : List ShiftSlot) : List ShiftSlot :=
  shifts.insertionSort fun a b => a.start.instant ≤ b.start.instant

def restDetails (requiredHours : ℚ) (employeeId : UUID) (shifts : List ShiftSlot) :
    List RestDetail :=
  let ordered := byStart shifts
  (ordered.zip ordered.tail).filterMap fun (earlier, later) =>
    restDetail requiredHours employeeId earlier later

/-- `_min_rest_cost`. -/
def minRestCost (original : SolveInput) (result : SolveResult) : Option MinRestCost := do
  let assigned ← assignedShifts original result
  let details := (assigned.map (·.1)).eraseDups.flatMap fun employeeId =>
    restDetails original.policy.minRestHoursBetweenShifts employeeId (shiftsOf assigned employeeId)
  some ⟨sortedIds (details.map (·.employeeId)), details⟩

/-! ## Consecutive days -/

/-- The body of the loop of `_longest_streak`, on `longest` and `current`. -/
def streakStep (days : Finset ℤ) (acc : ℕ × ℕ) (day : ℤ) : ℕ × ℕ :=
  let current := if day - 1 ∈ days then acc.2 + 1 else 1
  (max acc.1 current, current)

/-- `_longest_streak`. -/
def longestStreak (days : Finset ℤ) : ℕ := ((sorted days).foldl (streakStep days) (0, 0)).1

structure ConsecutiveDaysDetail where
  employeeId : UUID
  consecutiveDaysWorked : ℕ
  allowedMax : ℤ

structure MaxConsecutiveDaysCost where
  employeesAffected : List UUID
  details : List ConsecutiveDaysDetail

/-- `days_by_employee[employee_id]`. -/
def daysOf (assigned : List (UUID × ShiftSlot)) (employeeId : UUID) : Finset ℤ :=
  ((shiftsOf assigned employeeId).map fun shift => shift.start.date).toFinset

/-- `_max_consecutive_days_cost`. -/
def maxConsecutiveDaysCost (original : SolveInput) (result : SolveResult) :
    Option MaxConsecutiveDaysCost := do
  let assigned ← assignedShifts original result
  let maxAllowed := original.policy.maxConsecutiveWorkingDays
  let details := (assigned.map (·.1)).eraseDups.filterMap fun employeeId =>
    let streak := longestStreak (daysOf assigned employeeId)
    if maxAllowed < streak then some (⟨employeeId, streak, maxAllowed⟩ : ConsecutiveDaysDetail)
    else none
  some ⟨sortedIds (details.map (·.employeeId)), details⟩

/-! ## All pairs and adjacent pairs -/

/-- Two shifts that do not overlap. -/
def Apart (a b : ShiftSlot) : Prop :=
  a.fin.instant ≤ b.start.instant ∨ b.fin.instant ≤ a.start.instant
  deriving Decidable

/-- The rest between two shifts, whichever is first. -/
def restBetween (a b : ShiftSlot) : ℚ := max (gapHours a b) (gapHours b a)

/-- Two shifts of these leave less rest than is required. -/
def TooClose (requiredHours : ℚ) (shifts : List ShiftSlot) : Prop :=
  ∃ pair ∈ orderedPairs shifts, restBetween pair.1 pair.2 < requiredHours

theorem microsPerHour_pos : (0 : ℚ) < microsPerHour := by
  norm_num [microsPerHour]

theorem gapHours_le {a b c : ShiftSlot} (h : b.start.instant ≤ c.start.instant) :
    gapHours a b ≤ gapHours a c := by
  refine div_le_div_of_nonneg_right ?_ microsPerHour_pos.le
  exact_mod_cast sub_le_sub_right h _

theorem restBetween_comm (a b : ShiftSlot) : restBetween a b = restBetween b a :=
  max_comm _ _

/-- The rest between two shifts is the gap after the first, whatever the length of the second. -/
theorem restBetween_eq {a b : ShiftSlot} (hab : a.fin.instant ≤ b.start.instant)
    (ha : a.start.instant < a.fin.instant) (hb : b.start.instant < b.fin.instant) :
    restBetween a b = gapHours a b := by
  refine max_eq_left ((div_le_div_iff_of_pos_right microsPerHour_pos).2 ?_)
  exact_mod_cast (by omega : a.start.instant - b.fin.instant ≤ b.start.instant - a.fin.instant)

theorem exists_orderedPairs_iff {p : α → α → Prop} {l : List α} :
    (∃ pair ∈ orderedPairs l, ¬ p pair.1 pair.2) ↔ ¬ l.Pairwise p := by
  induction l with
  | nil => simp [orderedPairs]
  | cons a l ih =>
    rw [pairwise_cons, not_and_or, ← ih]
    simp only [orderedPairs, mem_append, mem_map, or_and_right, exists_or]
    refine or_congr ?_ Iff.rfl
    constructor
    · rintro ⟨_, ⟨b, hb, rfl⟩, hp⟩ hall
      exact hp (hall b hb)
    · intro h
      push Not at h
      obtain ⟨b, hb, hp⟩ := h
      exact ⟨(a, b), ⟨b, hb, rfl⟩, hp⟩

theorem tooClose_iff {requiredHours : ℚ} {shifts : List ShiftSlot} :
    TooClose requiredHours shifts ↔
      ¬ shifts.Pairwise fun a b => requiredHours ≤ restBetween a b := by
  simp only [TooClose, ← exists_orderedPairs_iff, not_le]

theorem isChain_iff_zip_tail {p : α → α → Prop} {l : List α} :
    l.IsChain p ↔ ∀ pair ∈ l.zip l.tail, p pair.1 pair.2 := by
  induction l with
  | nil => simp
  | cons a l ih =>
    cases l with
    | nil => simp
    | cons b l =>
      rw [isChain_cons_cons, ih]
      simp

section Rest

variable {shifts : List ShiftSlot} {requiredHours : ℚ} {employeeId : UUID}

theorem byStart_perm (shifts : List ShiftSlot) : (byStart shifts).Perm shifts :=
  perm_insertionSort _ _

theorem byStart_sorted (shifts : List ShiftSlot) :
    (byStart shifts).Pairwise fun a b => a.start.instant ≤ b.start.instant :=
  pairwise_insertionSort _ _

/-- Shifts that do not overlap, sorted by start: each ends before every later one starts. -/
theorem byStart_ends (hlength : ∀ s ∈ shifts, s.start.instant < s.fin.instant)
    (hapart : shifts.Pairwise Apart) :
    (byStart shifts).Pairwise fun a b => a.fin.instant ≤ b.start.instant := by
  have hapart' : (byStart shifts).Pairwise Apart :=
    (byStart_perm shifts).symm.pairwise hapart Or.symm
  refine ((byStart_sorted shifts).and hapart').imp_of_mem ?_
  rintro a b - hb ⟨hle, hab | hba⟩
  · exact hab
  · have hlt := hlength b ((byStart_perm shifts).subset hb)
    omega

theorem tooClose_byStart : TooClose requiredHours (byStart shifts) ↔
    TooClose requiredHours shifts := by
  rw [tooClose_iff, tooClose_iff, (byStart_perm shifts).pairwise_iff]
  intro a b h
  rwa [restBetween_comm]

/-- **Adjacent pairs.** On shifts sorted by start that do not overlap, two are too close exactly
when two adjacent ones are. -/
theorem tooClose_byStart_iff (hlength : ∀ s ∈ shifts, s.start.instant < s.fin.instant)
    (hapart : shifts.Pairwise Apart) : TooClose requiredHours (byStart shifts) ↔
      ∃ pair ∈ (byStart shifts).zip (byStart shifts).tail,
        gapHours pair.1 pair.2 < requiredHours := by
  have hlength' : ∀ s ∈ byStart shifts, s.start.instant < s.fin.instant :=
    fun s hs => hlength s ((byStart_perm shifts).subset hs)
  have hends := byStart_ends hlength hapart
  have hsorted := byStart_sorted shifts
  -- With the order of the starts, the rest that is required is transitive.
  let far : ShiftSlot → ShiftSlot → Prop := fun a b =>
    a.start.instant ≤ b.start.instant ∧ requiredHours ≤ gapHours a b
  have : IsTrans ShiftSlot far :=
    ⟨fun a b c hab hbc => ⟨hab.1.trans hbc.1, hab.2.trans (gapHours_le hbc.1)⟩⟩
  have hpairs : (byStart shifts).Pairwise (fun a b => requiredHours ≤ restBetween a b) ↔
      (byStart shifts).Pairwise far := by
    constructor
    · intro h
      refine (h.and (hends.and hsorted)).imp_of_mem ?_
      rintro a b ha hb ⟨hrest, hend, hle⟩
      exact ⟨hle, restBetween_eq hend (hlength' a ha) (hlength' b hb) ▸ hrest⟩
    · intro h
      refine (h.and hends).imp_of_mem ?_
      rintro a b ha hb ⟨⟨-, hgap⟩, hend⟩
      rwa [restBetween_eq hend (hlength' a ha) (hlength' b hb)]
  have hadjacent : (byStart shifts).IsChain far ↔
      (byStart shifts).IsChain fun a b => requiredHours ≤ gapHours a b := by
    have hchain := hsorted.isChain
    rw [isChain_iff_zip_tail] at hchain ⊢
    rw [isChain_iff_zip_tail]
    exact forall₂_congr fun pair hpair => and_iff_right (hchain pair hpair)
  rw [tooClose_iff, hpairs, ← isChain_iff_pairwise, hadjacent, isChain_iff_zip_tail]
  push Not
  rfl

theorem restDetail_isSome_iff {a b : ShiftSlot} (hab : a.fin.instant ≤ b.start.instant) :
    (restDetail requiredHours employeeId a b).isSome = true ↔ gapHours a b < requiredHours := by
  rw [restDetail, if_neg (not_lt.2 hab)]
  split <;> simp_all

theorem restDetail_employeeId {a b : ShiftSlot} {d : RestDetail}
    (h : restDetail requiredHours employeeId a b = some d) : d.employeeId = employeeId := by
  unfold restDetail at h
  split at h
  · cases h
  · split at h <;> cases h
    rfl

theorem restDetails_employeeId {d : RestDetail}
    (h : d ∈ restDetails requiredHours employeeId shifts) : d.employeeId = employeeId := by
  obtain ⟨pair, -, hd⟩ := mem_filterMap.1 h
  exact restDetail_employeeId hd

theorem restDetails_ne_nil_iff (hlength : ∀ s ∈ shifts, s.start.instant < s.fin.instant)
    (hapart : shifts.Pairwise Apart) :
    restDetails requiredHours employeeId shifts ≠ [] ↔ TooClose requiredHours shifts := by
  have hends := isChain_iff_zip_tail.1 (byStart_ends hlength hapart).isChain
  rw [← tooClose_byStart, tooClose_byStart_iff hlength hapart]
  constructor
  · intro h
    obtain ⟨d, hd⟩ := exists_mem_of_ne_nil _ h
    obtain ⟨pair, hpair, hd⟩ := mem_filterMap.1 hd
    exact ⟨pair, hpair, (restDetail_isSome_iff (hends pair hpair)).1 (Option.isSome_of_eq_some hd)⟩
  · rintro ⟨pair, hpair, hgap⟩
    obtain ⟨d, hd⟩ := Option.isSome_iff_exists.1 ((restDetail_isSome_iff (hends pair hpair)).2 hgap)
    exact ne_nil_of_mem (mem_filterMap.2 ⟨pair, hpair, hd⟩)

end Rest

/-! ## The employees of the rest cost -/

theorem mem_sortedIds {ids : List UUID} {id : UUID} : id ∈ sortedIds ids ↔ id ∈ ids :=
  (mem_insertionSort _).trans mem_dedup

theorem nodup_sortedIds (ids : List UUID) : (sortedIds ids).Nodup :=
  (perm_insertionSort _ _).nodup_iff.2 (nodup_dedup ids)

variable {assigned : List (UUID × ShiftSlot)}

theorem mem_of_mem_shiftsOf {employeeId : UUID} {shift : ShiftSlot}
    (h : shift ∈ shiftsOf assigned employeeId) :
    (employeeId, shift) ∈ assigned := by
  obtain ⟨⟨e, s⟩, hfilter, rfl⟩ := mem_map.1 h
  obtain ⟨hmem, he⟩ := mem_filter.1 hfilter
  obtain rfl : e = employeeId := by simpa using he
  exact hmem

theorem mem_shifts_of_assigned {original : SolveInput} {result : SolveResult}
    (h : assignedShifts original result = some assigned) {pair : UUID × ShiftSlot}
    (hpair : pair ∈ assigned) : pair.2 ∈ original.shifts := by
  obtain ⟨assignment, -, ha⟩ := Tables.exists_of_mem_mapM h hpair
  obtain ⟨shift, hshift, rfl⟩ := Option.map_eq_some_iff.1 ha
  exact mem_reverse.1 (mem_of_find?_eq_some hshift)

section Costs

variable {original : SolveInput} {result : SolveResult} {assigned : List (UUID × ShiftSlot)}

/-- The shifts assigned to one employee do not overlap. -/
def NoOverlap (assigned : List (UUID × ShiftSlot)) : Prop :=
  ∀ pair ∈ assigned, (shiftsOf assigned pair.1).Pairwise Apart
  deriving Decidable

theorem NoOverlap.pairwise (h : NoOverlap assigned) (employeeId : UUID) :
    (shiftsOf assigned employeeId).Pairwise Apart := by
  cases hshifts : shiftsOf assigned employeeId with
  | nil => exact Pairwise.nil
  | cons s l =>
    have hmem := mem_of_mem_shiftsOf (hshifts ▸ mem_cons_self : s ∈ shiftsOf _ employeeId)
    exact hshifts ▸ h _ hmem

theorem mem_restDetails_iff (hassigned : assignedShifts original result = some assigned)
    (hlength : ∀ s ∈ original.shifts, s.start.instant < s.fin.instant)
    (hapart : NoOverlap assigned) {employeeId : UUID} :
    employeeId ∈ ((assigned.map (·.1)).eraseDups.flatMap fun employeeId =>
        restDetails original.policy.minRestHoursBetweenShifts employeeId
          (shiftsOf assigned employeeId)).map (·.employeeId) ↔
      TooClose original.policy.minRestHoursBetweenShifts (shiftsOf assigned employeeId) := by
  have hlength' : ∀ e, ∀ s ∈ shiftsOf assigned e, s.start.instant < s.fin.instant :=
    fun e s hs => hlength s (mem_shifts_of_assigned hassigned (mem_of_mem_shiftsOf hs))
  rw [← @restDetails_ne_nil_iff _ _ employeeId (hlength' _) (hapart.pairwise _)]
  simp only [mem_map, mem_flatMap, mem_eraseDups]
  constructor
  · rintro ⟨d, ⟨e, -, hd⟩, rfl⟩
    obtain rfl := restDetails_employeeId hd
    exact ne_nil_of_mem hd
  · intro h
    obtain ⟨d, hd⟩ := exists_mem_of_ne_nil _ h
    obtain ⟨pair, hpair, -⟩ := mem_filterMap.1 hd
    have hshift := (byStart_perm _).subset (of_mem_zip hpair).1
    exact ⟨d, ⟨employeeId, ⟨_, mem_of_mem_shiftsOf hshift, rfl⟩, hd⟩, restDetails_employeeId hd⟩

/-- The employees of the rest cost are those with any two shifts too close, each once. -/
def RestCostExact (original : SolveInput) (result : SolveResult)
    (assigned : List (UUID × ShiftSlot)) : Prop :=
  ∃ cost, minRestCost original result = some cost ∧
    (∀ employeeId, employeeId ∈ cost.employeesAffected ↔
      TooClose original.policy.minRestHoursBetweenShifts (shiftsOf assigned employeeId)) ∧
    cost.employeesAffected.length = Set.ncard {employeeId |
      TooClose original.policy.minRestHoursBetweenShifts (shiftsOf assigned employeeId)}

theorem minRestCost_exact (hassigned : assignedShifts original result = some assigned)
    (hlength : ∀ s ∈ original.shifts, s.start.instant < s.fin.instant)
    (hapart : NoOverlap assigned) : RestCostExact original result assigned := by
  refine ⟨_, by rw [minRestCost, hassigned]; rfl, fun employeeId => ?_, ?_⟩
  · rw [mem_sortedIds, mem_restDetails_iff hassigned hlength hapart]
  · rw [← toFinset_card_of_nodup (nodup_sortedIds _), ← Set.ncard_coe_finset]
    refine congrArg Set.ncard (Set.ext fun employeeId => ?_)
    rw [Finset.mem_coe, mem_toFinset, mem_sortedIds, mem_restDetails_iff hassigned hlength hapart]
    rfl

end Costs

/-! ## Runs of dates -/

/-- The dates hold a run of `n` consecutive ones that ends at `day`. -/
def RunEnding (days : Finset ℤ) (day : ℤ) (n : ℕ) : Prop := ∀ i : ℕ, i < n → day - i ∈ days

/-- The dates hold a run of `n` consecutive ones. -/
def HasRun (days : Finset ℤ) (n : ℕ) : Prop := ∃ day : ℤ, ∀ i : ℕ, i < n → day + i ∈ days

theorem exists_not_mem (days : Finset ℤ) (day : ℤ) : ∃ n : ℕ, day - n ∉ days := by
  by_contra h
  push Not at h
  have hinj : Function.Injective fun n : ℕ => day - n := fun m n hmn => by
    simpa using hmn
  exact Set.infinite_of_injective_forall_mem hinj h days.finite_toSet

/-- The length of the run that ends at `day`. -/
def runLength (days : Finset ℤ) (day : ℤ) : ℕ := Nat.find (exists_not_mem days day)

variable {days : Finset ℤ} {day : ℤ}

theorem runLength_eq_zero (h : day ∉ days) : runLength days day = 0 :=
  (Nat.find_eq_zero _).2 (by simpa using h)

theorem runLength_eq_succ (h : day ∈ days) :
    runLength days day = runLength days (day - 1) + 1 := by
  have hshift : ∀ n : ℕ, day - ((n + 1 : ℕ) : ℤ) = day - 1 - n := fun n => by
    push_cast
    ring
  refine (Nat.find_eq_iff _).2 ⟨?_, fun n hn => ?_⟩
  · rw [hshift]
    exact Nat.find_spec (exists_not_mem days (day - 1))
  · cases n with
    | zero => simpa using h
    | succ n =>
      rw [hshift]
      exact Nat.find_min _ (Nat.lt_of_succ_lt_succ hn)

theorem runEnding_iff {n : ℕ} :
    RunEnding days day n ↔ n ≤ runLength days day := by
  simp [RunEnding, runLength, Nat.le_find_iff]

theorem hasRun_iff {n : ℕ} : HasRun days n ↔ ∃ day, RunEnding days day n := by
  constructor
  · rintro ⟨day, h⟩
    refine ⟨day + n - 1, fun i hi => ?_⟩
    have hmem := h (n - 1 - i) (by omega)
    have hday : day + n - 1 - i = day + ((n - 1 - i : ℕ) : ℤ) := by omega
    rwa [hday]
  · rintro ⟨day, h⟩
    refine ⟨day - n + 1, fun i hi => ?_⟩
    have hmem := h (n - 1 - i) (by omega)
    have hday : day - n + 1 + i = day - ((n - 1 - i : ℕ) : ℤ) := by omega
    rwa [hday]

/-- In sorted dates, the date seen before `day` is the day before, if that is one of them. -/
theorem getLast?_of_pred_mem {pre rest : List ℤ} (h : sorted days = pre ++ day :: rest)
    (hpred : day - 1 ∈ days) :
    pre.getLast? = some (day - 1) := by
  have hsorted : (pre ++ day :: rest).Pairwise (· < ·) := h ▸ pairwise_sorted days
  obtain ⟨hpre, hrest, hbefore⟩ := pairwise_append.1 hsorted
  have hmem : day - 1 ∈ pre ++ day :: rest := h ▸ mem_sorted.2 hpred
  have hpred' : day - 1 ∈ pre := by
    refine (mem_append.1 hmem).resolve_right fun hlate => ?_
    rcases mem_cons.1 hlate with heq | hlate
    · omega
    · have hlt := (pairwise_cons.1 hrest).1 _ hlate
      omega
  obtain rfl | ⟨init, last, rfl⟩ := eq_nil_or_concat' pre
  · cases hpred'
  rw [getLast?_concat]
  have hlast : last < day := hbefore last (by simp) day mem_cons_self
  rcases mem_append.1 hpred' with hinit | hinit
  · have hlt := (pairwise_append.1 hpre).2.2 _ hinit last (by simp)
    omega
  · rw [mem_singleton.1 hinit]

/-- The loop holds the length of the run that ends at the last date seen, and the greatest length of
a run that ends at a date seen. -/
theorem foldl_streakStep {pre rest : List ℤ} (h : sorted days = pre ++ rest) :
    (pre.foldl (streakStep days) (0, 0)).2 = (pre.getLast?.map (runLength days)).getD 0 ∧
      ∀ n, (pre.foldl (streakStep days) (0, 0)).1 ≤ n ↔ ∀ day ∈ pre, runLength days day ≤ n := by
  induction pre using reverseRecOn generalizing rest with
  | nil => simp
  | append_singleton pre day ih =>
    rw [append_assoc, singleton_append] at h
    obtain ⟨hcurrent, hlongest⟩ := ih h
    have hday : day ∈ days := mem_sorted.1 (h ▸ by simp)
    have hstep : (if day - 1 ∈ days then (pre.foldl (streakStep days) (0, 0)).2 + 1 else 1) =
        runLength days day := by
      rw [runLength_eq_succ hday, hcurrent]
      split
      · rename_i hpred
        rw [getLast?_of_pred_mem h hpred]
        rfl
      · rename_i hpred
        rw [runLength_eq_zero hpred]
    rw [foldl_append]
    simp only [foldl_cons, foldl_nil, streakStep, hstep]
    refine ⟨by simp, fun n => ?_⟩
    rw [max_le_iff, hlongest]
    simp [or_imp, forall_and]

/-- **The streak.** `_longest_streak` is the greatest length of a run of consecutive dates. -/
theorem longestStreak_isGreatest (days : Finset ℤ) :
    IsGreatest {n | HasRun days n} (longestStreak days) := by
  have hle : ∀ n, longestStreak days ≤ n ↔ ∀ day ∈ days, runLength days day ≤ n := by
    intro n
    have hfold := (foldl_streakStep (append_nil (sorted days)).symm).2 n
    simpa [longestStreak] using hfold
  refine ⟨hasRun_iff.2 ?_, fun n hn => ?_⟩
  · -- Some date ends a run of that length, or else one less would do.
    rcases Nat.eq_zero_or_pos (longestStreak days) with hzero | hpos
    · exact ⟨0, runEnding_iff.2 (by omega)⟩
    · by_contra hno
      push Not at hno
      have hless := (hle (longestStreak days - 1)).2 fun day _ => by
        have hday := mt runEnding_iff.2 (hno day)
        omega
      omega
  · obtain ⟨day, hrun⟩ := hasRun_iff.1 hn
    rw [runEnding_iff] at hrun
    by_cases hday : day ∈ days
    · exact hrun.trans ((hle _).1 le_rfl day hday)
    · rw [runLength_eq_zero hday] at hrun
      omega

/-- The employees of the cost in days are those who work a longer run than is allowed. -/
theorem maxConsecutiveDaysCost_employees {original : SolveInput} {result : SolveResult}
    (hassigned : assignedShifts original result = some assigned) :
    ∃ cost, maxConsecutiveDaysCost original result = some cost ∧
      ∀ employeeId, employeeId ∈ cost.employeesAffected ↔ employeeId ∈ assigned.map (·.1) ∧
        ∃ n, HasRun (daysOf assigned employeeId) n ∧
          original.policy.maxConsecutiveWorkingDays < n := by
  refine ⟨_, by rw [maxConsecutiveDaysCost, hassigned]; rfl, fun employeeId => ?_⟩
  have hrun : (∃ n, HasRun (daysOf assigned employeeId) n ∧
      original.policy.maxConsecutiveWorkingDays < n) ↔
      original.policy.maxConsecutiveWorkingDays < longestStreak (daysOf assigned employeeId) := by
    obtain ⟨hmem, hmax⟩ := longestStreak_isGreatest (daysOf assigned employeeId)
    refine ⟨?_, fun h => ⟨_, hmem, h⟩⟩
    rintro ⟨n, hn, hlt⟩
    exact hlt.trans_le (by exact_mod_cast hmax hn)
  rw [mem_sortedIds, hrun]
  simp only [mem_map, mem_filterMap, mem_eraseDups]
  constructor
  · rintro ⟨d, ⟨e, he, hd⟩, rfl⟩
    split at hd <;> cases hd
    exact ⟨he, by assumption⟩
  · rintro ⟨he, hlt⟩
    exact ⟨⟨employeeId, _, _⟩, ⟨employeeId, he, if_pos hlt⟩, rfl⟩

/-- **The costs.** On shifts that do not overlap, the rest cost counts the employees with any two
shifts too close; the streak of any dates is the greatest length of a run. -/
theorem relaxationCosts_exact {original : SolveInput} {result : SolveResult}
    {assigned : List (UUID × ShiftSlot)}
    (hassigned : assignedShifts original result = some assigned)
    (hlength : ∀ s ∈ original.shifts, s.start.instant < s.fin.instant)
    (hapart : NoOverlap assigned) : RestCostExact original result assigned ∧
      ∀ days, IsGreatest {n | HasRun days n} (longestStreak days) :=
  ⟨minRestCost_exact hassigned hlength hapart, longestStreak_isGreatest⟩

/-- A shift from one hour to another of the first day. -/
def dayShift (id : UUID) (startHour finHour : ℤ) : ShiftSlot :=
  ⟨id, ⟨startHour * microsPerHour, 0⟩, ⟨finHour * microsPerHour, 0⟩, 1, none, 0, none⟩

/-- Two employees, one shift in the morning and one in the evening, eleven hours of rest. -/
def splitDay : SolveInput where
  dateRangeStart := 0
  dateRangeEnd := 0
  employees := [⟨1, 40, false, [], ∅, none⟩, ⟨2, 40, false, [], ∅, none⟩]
  shifts := [dayShift 21 16 20, dayShift 22 8 12]
  policy := ⟨5, 11, 60, none, none, none⟩
  leaveRecords := []
  timeLimitSeconds := 30
  fairness := none
  softWeights := ⟨1, 1, 1, 1⟩
  fairnessHistoryCounts := []
  relaxedCategories := ∅
  lockedAssignments := []

/-- Employee 1 has both shifts, employee 2 one of them. -/
def splitDayResult : SolveResult :=
  ⟨.optimal, [⟨1, 21, false⟩, ⟨2, 22, false⟩, ⟨1, 22, false⟩], none⟩

theorem splitDay_costs : RestCostExact splitDay splitDayResult
      [(1, dayShift 21 16 20), (2, dayShift 22 8 12), (1, dayShift 22 8 12)] ∧
    ∀ days, IsGreatest {n | HasRun days n} (longestStreak days) :=
  relaxationCosts_exact (by decide) (by decide) (by decide +kernel)

theorem splitDay_streaks : ∃ assigned cost, assignedShifts splitDay splitDayResult = some assigned ∧
    maxConsecutiveDaysCost splitDay splitDayResult = some cost ∧ ∀ employeeId,
      employeeId ∈ cost.employeesAffected ↔ employeeId ∈ assigned.map (·.1) ∧ ∃ n,
        HasRun (daysOf assigned employeeId) n ∧ splitDay.policy.maxConsecutiveWorkingDays < n := by
  obtain ⟨assigned, hassigned⟩ :=
    Option.isSome_iff_exists.1 (show (assignedShifts splitDay splitDayResult).isSome by decide)
  obtain ⟨cost, hcost, hemployees⟩ := maxConsecutiveDaysCost_employees hassigned
  exact ⟨assigned, cost, hassigned, hcost, hemployees⟩

example : (minRestCost splitDay splitDayResult).map (·.employeesAffected) = some [1] := by
  decide +kernel

end Workforce.Scheduling
