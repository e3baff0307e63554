import Mathlib.Algebra.BigOperators.Ring.List
import Mathlib.Algebra.Order.BigOperators.Group.List
import Mathlib.Tactic.Ring

/-!
# Integer linear models

A model declares integer variables with bounds and lists linear constraints over them. A valuation
of the variables is a solution when it keeps the bounds and satisfies every constraint; how a
solver finds one is not modelled. Models are built from parts with `++`, and a solution of the
whole is a solution of each part (`solves_append`).
-/

namespace Workforce.LinearModel

open List

variable {V : Type*}

/-! ## Expressions -/

/-- A linear expression: coefficients of variables and a constant. -/
structure LinExpr (V : Type*) where
  terms : List (ℤ × V)
  const : ℤ

namespace LinExpr

/-- The value of an expression. -/
def eval (v : V → ℤ) (e : LinExpr V) : ℤ := (e.terms.map fun t => t.1 * v t.2).sum + e.const

def var (x : V) : LinExpr V := ⟨[(1, x)], 0⟩

instance : IntCast (LinExpr V) := ⟨fun c => ⟨[], c⟩⟩
instance : Zero (LinExpr V) := ⟨⟨[], 0⟩⟩
instance : Add (LinExpr V) := ⟨fun e f => ⟨e.terms ++ f.terms, e.const + f.const⟩⟩
instance : SMul ℤ (LinExpr V) := ⟨fun c e => ⟨e.terms.map fun t => (c * t.1, t.2), c * e.const⟩⟩
instance : Sub (LinExpr V) := ⟨fun e f => e + (-1 : ℤ) • f⟩

variable (v : V → ℤ)

@[simp] theorem eval_var (x : V) : (var x).eval v = v x := by simp [eval, var]

@[simp] theorem eval_intCast (c : ℤ) : (c : LinExpr V).eval v = c := by
  show ([] : List ℤ).sum + c = c
  simp

@[simp] theorem eval_zero : (0 : LinExpr V).eval v = 0 := by
  show ([] : List ℤ).sum + 0 = 0
  simp

@[simp] theorem eval_add (e f : LinExpr V) : (e + f).eval v = e.eval v + f.eval v := by
  show ((e.terms ++ f.terms).map fun t => t.1 * v t.2).sum + (e.const + f.const) = _
  rw [map_append, sum_append, eval, eval]
  ring

@[simp] theorem eval_smul (c : ℤ) (e : LinExpr V) : (c • e).eval v = c * e.eval v := by
  show ((e.terms.map fun t => (c * t.1, t.2)).map fun t => t.1 * v t.2).sum + c * e.const = _
  rw [eval, mul_add, ← sum_map_mul_left, map_map]
  simp [Function.comp_def, mul_assoc]

@[simp] theorem eval_sub (e f : LinExpr V) : (e - f).eval v = e.eval v - f.eval v := by
  show (e + (-1 : ℤ) • f).eval v = _
  rw [eval_add, eval_smul]
  ring

@[simp] theorem eval_sum (es : List (LinExpr V)) : es.sum.eval v = (es.map (eval v)).sum := by
  induction es with
  | nil => simp
  | cons e es ih => simp [ih]

end LinExpr

/-! ## Constraints and models -/

inductive Rel
  | le | eq | ge

/-- `lhs rel rhs`. -/
structure Constraint (V : Type*) where
  lhs : LinExpr V
  rel : Rel
  rhs : LinExpr V

/-- The valuation satisfies the constraint. -/
def Constraint.Holds (v : V → ℤ) (c : Constraint V) : Prop :=
  match c.rel with
  | .le => c.lhs.eval v ≤ c.rhs.eval v
  | .eq => c.lhs.eval v = c.rhs.eval v
  | .ge => c.rhs.eval v ≤ c.lhs.eval v

instance (v : V → ℤ) (c : Constraint V) : Decidable (c.Holds v) :=
  match c with
  | ⟨_, .le, _⟩ => inferInstanceAs (Decidable (_ ≤ _))
  | ⟨_, .eq, _⟩ => inferInstanceAs (Decidable (_ = _))
  | ⟨_, .ge, _⟩ => inferInstanceAs (Decidable (_ ≤ _))

/-- A variable with its bounds. -/
structure IntVar (V : Type*) where
  name : V
  lower : ℤ
  upper : ℤ

/-- A 0/1 variable. -/
def boolVar (x : V) : IntVar V := ⟨x, 0, 1⟩

structure CpModel (V : Type*) where
  vars : List (IntVar V)
  constraints : List (Constraint V)

instance : Append (CpModel V) := ⟨fun m n => ⟨m.vars ++ n.vars, m.constraints ++ n.constraints⟩⟩

/-- The model that declares nothing and asks for these constraints. -/
def CpModel.ofConstraints (constraints : List (Constraint V)) : CpModel V := ⟨[], constraints⟩

/-- The parts of a model, one after another. -/
def CpModel.join (parts : List (CpModel V)) : CpModel V :=
  ⟨parts.flatMap (·.vars), parts.flatMap (·.constraints)⟩

/-- The valuation is a solution of the model. -/
structure Solves (v : V → ℤ) (m : CpModel V) : Prop where
  bounds : ∀ x ∈ m.vars, x.lower ≤ v x.name ∧ v x.name ≤ x.upper
  holds : ∀ c ∈ m.constraints, c.Holds v

instance (v : V → ℤ) (m : CpModel V) : Decidable (Solves v m) :=
  decidable_of_iff ((∀ x ∈ m.vars, x.lower ≤ v x.name ∧ v x.name ≤ x.upper) ∧
    ∀ c ∈ m.constraints, c.Holds v) ⟨fun h => ⟨h.1, h.2⟩, fun h => ⟨h.1, h.2⟩⟩

variable {v : V → ℤ}

/-- A solution of a whole model is one of its parts, and conversely. -/
theorem solves_append {m n : CpModel V} : Solves v (m ++ n) ↔ Solves v m ∧ Solves v n := by
  constructor
  · rintro ⟨hb, hc⟩
    exact ⟨⟨fun x hx => hb x (mem_append_left _ hx), fun c h => hc c (mem_append_left _ h)⟩,
      ⟨fun x hx => hb x (mem_append_right _ hx), fun c h => hc c (mem_append_right _ h)⟩⟩
  · rintro ⟨hm, hn⟩
    refine ⟨fun x hx => ?_, fun c hc => ?_⟩
    · exact (mem_append.1 hx).elim (hm.bounds x) (hn.bounds x)
    · exact (mem_append.1 hc).elim (hm.holds c) (hn.holds c)

theorem solves_ofConstraints {cs : List (Constraint V)} :
    Solves v (.ofConstraints cs) ↔ ∀ c ∈ cs, c.Holds v := by
  refine ⟨fun h => h.holds, fun h => ⟨fun x hx => ?_, h⟩⟩
  cases hx

theorem solves_join {parts : List (CpModel V)} :
    Solves v (.join parts) ↔ ∀ m ∈ parts, Solves v m := by
  constructor
  · intro h m hm
    exact ⟨fun x hx => h.bounds x (mem_flatMap.2 ⟨m, hm, hx⟩),
      fun c hc => h.holds c (mem_flatMap.2 ⟨m, hm, hc⟩)⟩
  · intro h
    refine ⟨fun x hx => ?_, fun c hc => ?_⟩
    · obtain ⟨m, hm, hx⟩ := mem_flatMap.1 hx
      exact (h m hm).bounds x hx
    · obtain ⟨m, hm, hc⟩ := mem_flatMap.1 hc
      exact (h m hm).holds c hc

/-- Declared 0/1 variables take the values 0 and 1. -/
theorem Solves.bool {m : CpModel V} (h : Solves v m) {x : V} (hx : boolVar x ∈ m.vars) :
    v x = 0 ∨ v x = 1 := by
  have hb : 0 ≤ v x ∧ v x ≤ 1 := h.bounds _ hx
  omega

/-- A sum of 0/1 variables counts those that are 1. -/
theorem sum_eq_countP {ι : Type*} {l : List ι} {f : ι → ℤ} (h : ∀ i ∈ l, f i = 0 ∨ f i = 1) :
    (l.map f).sum = l.countP fun i => f i = 1 := by
  induction l with
  | nil => rfl
  | cons i l ih =>
    have ih := ih fun j hj => h j (mem_cons_of_mem _ hj)
    rw [map_cons, sum_cons, ih, countP_cons]
    rcases h i mem_cons_self with hi | hi
    · simp [hi]
    · simp only [hi, decide_true, if_true]
      omega

/-- A 0/1 variable that is at least each of some expressions and at most their sum. -/
def orModel (y : V) (es : List (LinExpr V)) : CpModel V where
  vars := [boolVar y]
  constraints := es.map (fun e => ⟨.var y, .ge, e⟩) ++ [⟨.var y, .le, es.sum⟩]

/-- Of 0/1 expressions it says whether one is 1. -/
theorem solves_orModel {y : V} {es : List (LinExpr V)}
    (hbool : ∀ e ∈ es, e.eval v = 0 ∨ e.eval v = 1) {p : Prop} [Decidable p]
    (hp : p ↔ ∃ e ∈ es, e.eval v = 1) :
    Solves v (orModel y es) ↔ v y = if p then 1 else 0 := by
  have hsolves : Solves v (orModel y es) ↔ (0 ≤ v y ∧ v y ≤ 1) ∧ (∀ e ∈ es, e.eval v ≤ v y) ∧
      v y ≤ (es.map (LinExpr.eval v)).sum := by
    constructor
    · rintro ⟨hbounds, hholds⟩
      refine ⟨hbounds _ mem_cons_self, fun e he => ?_, ?_⟩
      · simpa [Constraint.Holds] using hholds _ (mem_append_left _ (mem_map_of_mem he))
      · simpa [Constraint.Holds] using hholds _ (mem_append_right _ mem_cons_self)
    · rintro ⟨hbounds, hge, hle⟩
      refine ⟨fun z hz => ?_, fun c hc => ?_⟩
      · rw [mem_singleton.1 hz]
        exact hbounds
      · rw [orModel, mem_append, mem_map, mem_singleton] at hc
        rcases hc with ⟨e, he, rfl⟩ | rfl
        · simpa [Constraint.Holds] using hge e he
        · simpa [Constraint.Holds] using hle
  have hnonneg : ∀ z ∈ es.map (LinExpr.eval v), 0 ≤ z := by
    intro z hz
    obtain ⟨e, he, rfl⟩ := mem_map.1 hz
    rcases hbool e he with h | h <;> omega
  rw [hsolves]
  by_cases h : p
  · obtain ⟨e, he, hone⟩ := hp.1 h
    have hsum := single_le_sum hnonneg _ (mem_map_of_mem he)
    rw [if_pos h]
    constructor
    · rintro ⟨⟨-, hle⟩, hge, -⟩
      have := hge e he
      omega
    · intro hy
      refine ⟨by omega, fun e he => ?_, by omega⟩
      rcases hbool e he with h | h <;> omega
  · have hzero : ∀ e ∈ es, e.eval v = 0 := fun e he =>
      (hbool e he).resolve_right fun hone => h (hp.2 ⟨e, he, hone⟩)
    have hsum : (es.map (LinExpr.eval v)).sum = 0 :=
      sum_eq_zero fun z hz => by
        obtain ⟨e, he, rfl⟩ := mem_map.1 hz
        exact hzero e he
    rw [if_neg h, hsum]
    constructor
    · rintro ⟨⟨hge, -⟩, -, hle⟩
      omega
    · intro hy
      refine ⟨by omega, fun e he => ?_, by omega⟩
      rw [hzero e he, hy]

end Workforce.LinearModel
