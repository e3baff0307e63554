import Workforce.Foundations.Sorting
import Workforce.Foundations.Tables
import Mathlib.Data.Prod.Lex

/-!
# The work rule of an employee

`work-rules.service.ts`: rules are bound to employees and to groups of employees, each binding with
a priority and a window. `findEffectiveForEmployee` takes one of the bindings in effect, the one
with the highest priority first; a binding to the employee precedes one to a group only when their
priorities are equal.

The database returns rows in any order. The answers that it may lead to are those of the bindings
with the highest rank (`findEffectiveForEmployee_best`).
-/

namespace Workforce.WorkRules

open Tables Sorting List

/-! ## The tables -/

inductive AssigneeType
  | employee | group
  deriving DecidableEq

/-- Of a rule, what identifies it and its own window. Dates are of any type `δ` that `<=`
compares. -/
structure WorkRule (δ : Type*) where
  id : ℕ
  effectiveFrom : Option δ
  effectiveTo : Option δ
  deriving DecidableEq

structure WorkRuleAssignment (δ : Type*) where
  workRuleId : ℕ
  assigneeType : AssigneeType
  assigneeId : ℕ
  /-- Milliseconds. -/
  assignedAt : ℤ
  priority : ℤ
  effectiveFrom : Option δ
  effectiveTo : Option δ
  deriving DecidableEq

structure EmployeeGroupMember where
  groupId : ℕ
  employeeId : ℕ

variable {δ : Type*}

/-- `org.work_rules`, `org.work_rule_assignments` and `org.employee_group_members` of a tenant. -/
structure WorkRuleTables (δ : Type*) where
  rules : List (WorkRule δ)
  assignments : List (WorkRuleAssignment δ)
  members : List EmployeeGroupMember
  /-- The primary key of the rules. -/
  distinct : (rules.map (·.id)).Nodup
  /-- `fk_work_rule_assignments_work_rule`. -/
  references : ∀ a ∈ assignments, a.workRuleId ∈ rules.map (·.id)

/-! ## The service -/

section Service

variable [LE δ] [DecidableLE δ]

/-- The window of a binding covers a date; both ends are in it. -/
def WorkRuleAssignment.InEffect (a : WorkRuleAssignment δ) (today : δ) : Prop :=
  (∀ d ∈ a.effectiveFrom, d ≤ today) ∧ ∀ d ∈ a.effectiveTo, today ≤ d

instance (a : WorkRuleAssignment δ) (today : δ) : Decidable (a.InEffect today) :=
  inferInstanceAs (Decidable (_ ∧ _))

/-- The comparison of the sort. -/
def compareBindings (a b : WorkRuleAssignment δ) : ℤ :=
  if b.priority ≠ a.priority then b.priority - a.priority
  else if a.assigneeType ≠ b.assigneeType then if a.assigneeType = .employee then -1 else 1
  else b.assignedAt - a.assignedAt

/-- `findForAssignees` on the rows of the table. -/
def findForAssignees (rows : List (WorkRuleAssignment δ)) (assigneeType : AssigneeType)
    (assigneeIds : List ℕ) : List (WorkRuleAssignment δ) :=
  if assigneeIds.length = 0 then []
  else
    let all := rows.filter (·.assigneeType = assigneeType)
    all.filter (assigneeIds.contains ·.assigneeId)

/-- `findGroupIdsForEmployee`. -/
def findGroupIdsForEmployee (rows : List EmployeeGroupMember) (employeeId : ℕ) : List ℕ :=
  (rows.filter (·.employeeId = employeeId)).map (·.groupId)

/-- The rows of the tables, in an order in which the three queries may return them. -/
structure Reads (T : WorkRuleTables δ) where
  members : List EmployeeGroupMember
  direct : List (WorkRuleAssignment δ)
  viaGroups : List (WorkRuleAssignment δ)
  members_perm : members.Perm T.members
  direct_perm : direct.Perm T.assignments
  viaGroups_perm : viaGroups.Perm T.assignments

/-- The bindings in effect, in the order in which they are sorted. -/
def inEffect {T : WorkRuleTables δ} (reads : Reads T) (employeeId : ℕ) (today : δ) :
    List (WorkRuleAssignment δ) :=
  let groupIds := findGroupIdsForEmployee reads.members employeeId
  let direct := findForAssignees reads.direct .employee [employeeId]
  let viaGroups := findForAssignees reads.viaGroups .group groupIds
  (direct ++ viaGroups).filter (·.InEffect today)

/-- `findEffectiveForEmployee`, where `now` is the day of the call. -/
def findEffectiveForEmployee {T : WorkRuleTables δ} (reads : Reads T) (employeeId : ℕ) (now : δ)
    (asOfDate : Option δ) : Option (WorkRule δ) :=
  let today := asOfDate.getD now
  let sorted := (inEffect reads employeeId today).insertionSort (compareBindings · · ≤ 0)
  sorted.head?.bind fun first => lookup (·.id) first.workRuleId T.rules

end Service

/-! ## The queries -/

variable {a : WorkRuleAssignment δ}

theorem mem_findForAssignees {rows : List (WorkRuleAssignment δ)} {assigneeType : AssigneeType}
    {assigneeIds : List ℕ} :
    a ∈ findForAssignees rows assigneeType assigneeIds ↔
      a ∈ rows ∧ a.assigneeType = assigneeType ∧ a.assigneeId ∈ assigneeIds := by
  unfold findForAssignees
  split
  case isTrue hnone => simp [length_eq_zero_iff.1 hnone]
  case isFalse =>
    simp only [mem_filter, decide_eq_true_eq, contains_iff_mem]
    tauto

theorem mem_findGroupIdsForEmployee {rows : List EmployeeGroupMember} {employeeId groupId : ℕ} :
    groupId ∈ findGroupIdsForEmployee rows employeeId ↔ ⟨groupId, employeeId⟩ ∈ rows := by
  simp only [findGroupIdsForEmployee, mem_map, mem_filter, decide_eq_true_eq]
  constructor
  · rintro ⟨m, ⟨hm, rfl⟩, rfl⟩
    exact hm
  · intro hm
    exact ⟨_, ⟨hm, rfl⟩, rfl⟩

theorem findForAssignees_cons {assigneeIds : List ℕ} (ha : a.assigneeId ∈ assigneeIds)
    (rows : List (WorkRuleAssignment δ)) :
    findForAssignees (a :: rows) a.assigneeType assigneeIds =
      a :: findForAssignees rows a.assigneeType assigneeIds := by
  have hsome : assigneeIds.length ≠ 0 := by
    intro hnone
    simp [length_eq_zero_iff.1 hnone] at ha
  simp [findForAssignees, hsome, ha]

theorem exists_rule {T : WorkRuleTables δ} (ha : a ∈ T.assignments) :
    ∃ rule ∈ T.rules, lookup (·.id) a.workRuleId T.rules = some rule ∧ rule.id = a.workRuleId := by
  obtain ⟨rule, hrule, hid⟩ := mem_map.1 (T.references a ha)
  exact ⟨rule, hrule, hid ▸ lookup_eq_some T.distinct hrule, hid⟩

/-! ## The rank of a binding -/

/-- The priority comes first, then whether the binding is to the employee, then when it was made. -/
def WorkRuleAssignment.rank (a : WorkRuleAssignment δ) : ℤ ×ₗ Bool ×ₗ ℤ :=
  toLex (a.priority, toLex (decide (a.assigneeType = .employee), a.assignedAt))

theorem compareBindings_nonpos (a b : WorkRuleAssignment δ) :
    compareBindings a b ≤ 0 ↔ b.rank ≤ a.rank := by
  unfold compareBindings WorkRuleAssignment.rank
  rw [Prod.Lex.toLex_le_toLex, Prod.Lex.toLex_le_toLex]
  by_cases hpriority : b.priority = a.priority
  · rw [if_neg (not_not.2 hpriority)]
    cases ha : a.assigneeType <;> cases hb : b.assigneeType <;> simp [hpriority]
  · rw [if_pos hpriority]
    simp only [hpriority, false_and, or_false]
    omega

instance : Std.Total fun a b : WorkRuleAssignment δ => compareBindings a b ≤ 0 where
  total a b := by
    rw [compareBindings_nonpos, compareBindings_nonpos]
    exact le_total _ _

instance : IsTrans (WorkRuleAssignment δ) fun a b => compareBindings a b ≤ 0 where
  trans a b c := by
    rw [compareBindings_nonpos, compareBindings_nonpos, compareBindings_nonpos]
    exact fun hab hbc => hbc.trans hab

theorem rank_ne {a b : WorkRuleAssignment δ} (ha : a.assigneeType = .employee)
    (hb : b.assigneeType = .group) : a.rank ≠ b.rank := by
  intro heq
  have hspecific := congrArg (fun r => (ofLex (ofLex r).2).1) heq
  simp [WorkRuleAssignment.rank, ha, hb] at hspecific

/-! ## The bindings of an employee -/

section Bindings

variable [LE δ] [DecidableLE δ] (T : WorkRuleTables δ) (employeeId : ℕ) (asOf : δ)

/-- A binding applies to the employee and is in effect. -/
def WorkRuleTables.Applies (a : WorkRuleAssignment δ) : Prop :=
  a ∈ T.assignments ∧ a.InEffect asOf ∧
    (a.assigneeType = .employee ∧ a.assigneeId = employeeId ∨
      a.assigneeType = .group ∧ ⟨a.assigneeId, employeeId⟩ ∈ T.members)

/-- None that applies has a higher rank. -/
def WorkRuleTables.Best (a : WorkRuleAssignment δ) : Prop :=
  T.Applies employeeId asOf a ∧ ∀ b, T.Applies employeeId asOf b → b.rank ≤ a.rank

variable {T employeeId asOf}

variable {a : WorkRuleAssignment δ}

theorem mem_inEffect (reads : Reads T) :
    a ∈ inEffect reads employeeId asOf ↔ T.Applies employeeId asOf a := by
  simp only [inEffect, mem_filter, mem_append, mem_findForAssignees,
    mem_findGroupIdsForEmployee, mem_singleton, reads.direct_perm.mem_iff,
    reads.viaGroups_perm.mem_iff, reads.members_perm.mem_iff, decide_eq_true_eq,
    WorkRuleTables.Applies]
  tauto

theorem best_of_head {reads : Reads T}
    (h : ((inEffect reads employeeId asOf).insertionSort (compareBindings · · ≤ 0)).head?
      = some a) :
    T.Best employeeId asOf a := by
  obtain ⟨ha, hle⟩ := head_insertionSort h
  refine ⟨(mem_inEffect _).1 ha, fun b hb => ?_⟩
  exact (compareBindings_nonpos a b).1 (hle b ((mem_inEffect _).2 hb))

theorem exists_reads (h : T.Best employeeId asOf a) :
    ∃ reads : Reads T,
      ((inEffect reads employeeId asOf).insertionSort (compareBindings · · ≤ 0)).head?
        = some a := by
  classical
  obtain ⟨⟨hmem, heffect, hassignee⟩, hbest⟩ := h
  have hperm : (a :: T.assignments.erase a).Perm T.assignments := (perm_cons_erase hmem).symm
  have hle : ∀ (reads : Reads T), ∀ x ∈ inEffect reads employeeId asOf, compareBindings a x ≤ 0 :=
    fun reads x hx => (compareBindings_nonpos a x).2 (hbest x ((mem_inEffect _).1 hx))
  rcases hassignee with ⟨htype, hid⟩ | ⟨htype, hid⟩
  · let reads : Reads T := ⟨T.members, _, T.assignments, .refl _, hperm, .refl _⟩
    have hfirst : ∃ g, inEffect reads employeeId asOf = [] ++ a :: g := by
      have hcons := findForAssignees_cons (mem_singleton.2 hid) (T.assignments.erase a)
      rw [htype] at hcons
      simp [inEffect, reads, hcons, heffect]
    obtain ⟨g, hg⟩ := hfirst
    refine ⟨reads, ?_⟩
    rw [hg]
    refine head_insertionSort_append_cons (by simp) fun x hx => hle reads x ?_
    rw [hg]
    exact mem_append_right _ (mem_cons_of_mem _ hx)
  · let reads : Reads T := ⟨T.members, T.assignments, _, .refl _, .refl _, hperm⟩
    have hcons := findForAssignees_cons (mem_findGroupIdsForEmployee.2 hid) (T.assignments.erase a)
    rw [htype] at hcons
    obtain ⟨d, g, hinEffect, hd⟩ : ∃ d g, inEffect reads employeeId asOf = d ++ a :: g ∧
        ∀ x ∈ d, x.assigneeType = .employee := by
      simp only [inEffect, reads, hcons, filter_append, filter_cons, heffect, decide_true, if_true]
      refine ⟨_, _, rfl, fun x hx => ?_⟩
      exact (mem_findForAssignees.1 (mem_filter.1 hx).1).2.1
    refine ⟨reads, ?_⟩
    have hmem : ∀ x, x ∈ d ++ a :: g → x ∈ inEffect reads employeeId asOf := fun x hx => by
      rwa [hinEffect]
    rw [hinEffect]
    refine head_insertionSort_append_cons (fun x hx hxa => ?_) fun x hx => hle reads x ?_
    · have hle' := (compareBindings_nonpos a x).1 (hle reads x (hmem x (mem_append_left _ hx)))
      exact rank_ne (hd x hx) htype (hle'.antisymm ((compareBindings_nonpos x a).1 hxa))
    · exact hmem x (mem_append_right _ (mem_cons_of_mem _ hx))

/-! ## The answers -/

/-- Some order of the rows leads to an answer. -/
def WorkRuleTables.MayReturn (T : WorkRuleTables δ) (employeeId : ℕ) (now : δ)
    (asOfDate : Option δ) (answer : Option (WorkRule δ)) : Prop :=
  ∃ reads : Reads T, findEffectiveForEmployee reads employeeId now asOfDate = answer

variable {now : δ} {asOfDate : Option δ}

theorem mayReturn_none : T.MayReturn employeeId now asOfDate none ↔
    ∀ a, ¬ T.Applies employeeId (asOfDate.getD now) a := by
  constructor
  · rintro ⟨reads, hnone⟩ a ha
    have hmem := (mem_insertionSort (compareBindings · · ≤ 0)).2 ((mem_inEffect reads).2 ha)
    obtain ⟨first, hfirst⟩ := Option.ne_none_iff_exists'.1
      (mt head?_eq_none_iff.1 (ne_nil_of_mem hmem))
    obtain ⟨rule, -, hlookup, -⟩ := exists_rule (best_of_head hfirst).1.1
    cases (Option.bind_eq_none_iff.1 hnone first hfirst).symm.trans hlookup
  · intro hno
    let reads : Reads T :=
      ⟨T.members, T.assignments, T.assignments, .refl _, .refl _, .refl _⟩
    have hnil : inEffect reads employeeId (asOfDate.getD now) = [] :=
      eq_nil_iff_forall_not_mem.2 fun a ha => hno a ((mem_inEffect reads).1 ha)
    refine ⟨reads, Option.bind_eq_none_iff.2 fun first hfirst => ?_⟩
    rw [hnil] at hfirst
    cases hfirst

theorem mayReturn_some {rule : WorkRule δ} : T.MayReturn employeeId now asOfDate (some rule) ↔
    rule ∈ T.rules ∧ ∃ a, T.Best employeeId (asOfDate.getD now) a ∧ a.workRuleId = rule.id := by
  constructor
  · rintro ⟨reads, hsome⟩
    obtain ⟨first, hfirst, hlookup⟩ := Option.bind_eq_some_iff.1 hsome
    obtain ⟨hrule, hid⟩ := mem_of_lookup hlookup
    exact ⟨hrule, first, best_of_head hfirst, hid.symm⟩
  · rintro ⟨hrule, a, hbest, hid⟩
    obtain ⟨reads, hhead⟩ := exists_reads hbest
    refine ⟨reads, Option.bind_eq_some_iff.2 ⟨a, hhead, ?_⟩⟩
    rw [hid]
    exact lookup_eq_some T.distinct hrule

/-- The answer is a rule that a binding of the highest rank is of, among the bindings that apply to
the employee and are in effect, and none when there is no such binding. It does not depend on the
order of the rows if and only if all the bindings of the highest rank are of one rule. -/
theorem findEffectiveForEmployee_best (T : WorkRuleTables δ) (employeeId : ℕ) (now : δ)
    (asOfDate : Option δ) :
    (∀ rule, T.MayReturn employeeId now asOfDate (some rule) ↔
      rule ∈ T.rules ∧ ∃ a, T.Best employeeId (asOfDate.getD now) a ∧ a.workRuleId = rule.id) ∧
    (T.MayReturn employeeId now asOfDate none ↔
      ∀ a, ¬ T.Applies employeeId (asOfDate.getD now) a) ∧
    ((∀ answer answer', T.MayReturn employeeId now asOfDate answer →
        T.MayReturn employeeId now asOfDate answer' → answer = answer') ↔
      ∀ a b, T.Best employeeId (asOfDate.getD now) a → T.Best employeeId (asOfDate.getD now) b →
        a.workRuleId = b.workRuleId) := by
  refine ⟨fun rule => mayReturn_some, mayReturn_none, ?_, ?_⟩
  · intro hone a b ha hb
    obtain ⟨ruleA, hruleA, -, hidA⟩ := exists_rule ha.1.1
    obtain ⟨ruleB, hruleB, -, hidB⟩ := exists_rule hb.1.1
    have heq := hone (some ruleA) (some ruleB) (mayReturn_some.2 ⟨hruleA, a, ha, hidA.symm⟩)
      (mayReturn_some.2 ⟨hruleB, b, hb, hidB.symm⟩)
    rw [← hidA, ← hidB, Option.some.inj heq]
  · intro hsame answer answer' hanswer hanswer'
    cases answer with
    | none =>
      cases answer' with
      | none => rfl
      | some rule =>
        obtain ⟨-, a, ha, -⟩ := mayReturn_some.1 hanswer'
        exact absurd ha.1 (mayReturn_none.1 hanswer a)
    | some rule =>
      obtain ⟨hrule, a, ha, hid⟩ := mayReturn_some.1 hanswer
      cases answer' with
      | none => exact absurd ha.1 (mayReturn_none.1 hanswer' a)
      | some rule' =>
        obtain ⟨hrule', b, hb, hid'⟩ := mayReturn_some.1 hanswer'
        have heq : rule.id = rule'.id := by rw [← hid, ← hid', hsame a b ha hb]
        rw [eq_of_key_eq T.distinct hrule hrule' heq]

end Bindings

/-! ## A rule of a group before one of the employee -/

/-- Employee 7 is in group 3, to which two rules are bound at once, with a higher priority than the
one of the employee. The window of the first of them is over. -/
def groupFirst : WorkRuleTables ℤ where
  rules := [⟨1, none, none⟩, ⟨2, none, some (-1)⟩, ⟨3, none, none⟩]
  assignments :=
    [⟨1, .employee, 7, 1000, 0, none, none⟩, ⟨2, .group, 3, 1000, 5, none, none⟩,
      ⟨3, .group, 3, 1000, 5, none, none⟩]
  members := [⟨3, 7⟩]
  distinct := by simp
  references := by simp

/-- Although a binding to the employee is in effect, the answer is a rule of the group: the one that
is over, or the other, as the rows come. -/
theorem groupFirst_answer :
    groupFirst.MayReturn 7 0 none (some ⟨2, none, some (-1)⟩) ∧
      groupFirst.MayReturn 7 0 none (some ⟨3, none, none⟩) ∧
      groupFirst.Applies 7 0 ⟨1, .employee, 7, 1000, 0, none, none⟩ ∧
      ∀ a ∈ groupFirst.assignments, a.workRuleId ≠ 1 → a.assigneeType = .group := by
  refine ⟨⟨⟨_, _, _, .refl _, .refl _, .refl _⟩, by decide⟩,
    ⟨⟨_, _, _, .refl _, .refl _, reverse_perm _⟩, by decide⟩, ⟨by decide, by decide, ?_⟩,
    by decide⟩
  exact .inl ⟨rfl, rfl⟩

end Workforce.WorkRules
