import Mathlib.Data.List.Infix

/-!
# Runs of a system given by a partial step function

A system is a function `step : σ → α → Option σ`: from a state and an action, the next state, or
`none` when the action is refused there. A run is a list of actions, each accepted in the state
the ones before it lead to (`exec`).

* `Always step P s as`: `P` holds in every state the run `as` from `s` passes through.
* `Meets step ok s as`: every step of the run is taken in a state where `ok` allows it.

The rules: an invariant kept by the allowed steps holds along every run that meets the condition
(`always_of_invariant`, and `exec_invariant` for the last state). When moreover each step that
breaks the condition also breaks the property, the two are equivalent on accepted runs
(`always_iff_meets`). What the turns of a run make smaller is zero after enough of them
(`measure_eq_zero`).
-/

namespace Workforce.Runs

open List

variable {σ α : Type*} (step : σ → α → Option σ)

/-- The state after the actions of a list, taken in order; `none` once one is refused. -/
def exec : σ → List α → Option σ
  | s, [] => some s
  | s, a :: as => (step s a).bind (exec · as)

/-- Every state the run passes through, the first and the last included, satisfies `P`. -/
def Always (P : σ → Prop) (s : σ) (as : List α) : Prop :=
  ∀ bs t, bs <+: as → exec step s bs = some t → P t

/-- Every action of the run is allowed by `ok` in the state it is taken in. -/
def Meets (ok : σ → α → Prop) (s : σ) (as : List α) : Prop :=
  ∀ bs a t, bs ++ [a] <+: as → exec step s bs = some t → ok t a

/-! ## Unfolding -/

@[simp] theorem exec_nil (s : σ) : exec step s [] = some s := rfl

theorem exec_cons (s : σ) (a : α) (as : List α) :
    exec step s (a :: as) = (step s a).bind (exec step · as) := rfl

theorem exec_append (s : σ) (as bs : List α) :
    exec step s (as ++ bs) = (exec step s as).bind (exec step · bs) := by
  induction as generalizing s with
  | nil => rfl
  | cons a as ih =>
    simp only [cons_append, exec_cons]
    cases step s a with
    | none => rfl
    | some t => simpa using ih t

variable {step} {s t u : σ} {a : α} {as : List α}

theorem exec_cons_eq_some :
    exec step s (a :: as) = some u ↔ ∃ t, step s a = some t ∧ exec step t as = some u := by
  rw [exec_cons, Option.bind_eq_some_iff]

theorem exec_append_eq_some {s u : σ} {as bs : List α} :
    exec step s (as ++ bs) = some u ↔
      ∃ t, exec step s as = some t ∧ exec step t bs = some u := by
  rw [exec_append, Option.bind_eq_some_iff]

theorem exec_concat_eq_some :
    exec step s (as ++ [a]) = some u ↔ ∃ t, exec step s as = some t ∧ step t a = some u := by
  rw [exec_append_eq_some]
  refine exists_congr fun t => and_congr_right fun _ => ?_
  rw [exec_cons, Option.bind_eq_some_iff]
  simp

theorem always_cons {P : σ → Prop} :
    Always step P s (a :: as) ↔ P s ∧ ∀ t, step s a = some t → Always step P t as := by
  constructor
  · intro h
    refine ⟨h [] s nil_prefix rfl, fun t ht bs u hbs hu => ?_⟩
    exact h (a :: bs) u (cons_prefix_cons.2 ⟨rfl, hbs⟩) (exec_cons_eq_some.2 ⟨t, ht, hu⟩)
  · rintro ⟨hs, h⟩ bs u hbs hu
    rcases bs with _ | ⟨b, bs⟩
    · cases hu
      exact hs
    · obtain ⟨rfl, hbs'⟩ := cons_prefix_cons.1 hbs
      obtain ⟨t, ht, hu⟩ := exec_cons_eq_some.1 hu
      exact h t ht bs u hbs' hu

theorem meets_nil {ok : σ → α → Prop} {s : σ} : Meets step ok s [] := by
  intro bs a t hbs
  simp at hbs

theorem meets_cons {ok : σ → α → Prop} :
    Meets step ok s (a :: as) ↔ ok s a ∧ ∀ t, step s a = some t → Meets step ok t as := by
  constructor
  · intro h
    refine ⟨h [] a s (cons_prefix_cons.2 ⟨rfl, nil_prefix⟩) rfl, ?_⟩
    intro t ht bs b u hbs hu
    exact h (a :: bs) b u (cons_prefix_cons.2 ⟨rfl, hbs⟩) (exec_cons_eq_some.2 ⟨t, ht, hu⟩)
  · rintro ⟨hs, h⟩ bs b u hbs hu
    rcases bs with _ | ⟨c, bs⟩
    · obtain ⟨rfl, -⟩ := cons_prefix_cons.1 hbs
      cases hu
      exact hs
    · obtain ⟨rfl, hbs'⟩ := cons_prefix_cons.1 hbs
      obtain ⟨t, ht, hu⟩ := exec_cons_eq_some.1 hu
      exact h t ht bs b u hbs' hu

theorem Meets.cons {ok : σ → α → Prop} (hok : ok s a)
    (hstep : step s a = some t) (h : Meets step ok t as) : Meets step ok s (a :: as) := by
  refine meets_cons.2 ⟨hok, fun u hu => ?_⟩
  obtain rfl := Option.some.inj (hstep.symm.trans hu)
  exact h

theorem Meets.of_append_left {ok : σ → α → Prop} {s : σ} {as bs : List α}
    (h : Meets step ok s (as ++ bs)) : Meets step ok s as :=
  fun cs a t hcs ht => h cs a t (hcs.trans (prefix_append _ _)) ht

theorem Meets.of_append_right {ok : σ → α → Prop} {s t : σ} {as bs : List α}
    (h : Meets step ok s (as ++ bs)) (ht : exec step s as = some t) : Meets step ok t bs := by
  intro cs a u hcs hu
  refine h (as ++ cs) a u ?_ (exec_append_eq_some.2 ⟨t, ht, hu⟩)
  rw [append_assoc]
  exact (prefix_append_right_inj _).2 hcs

theorem Meets.append {ok : σ → α → Prop} {s t : σ} {as bs : List α} (h : Meets step ok s as)
    (ht : exec step s as = some t) (h' : Meets step ok t bs) : Meets step ok s (as ++ bs) := by
  induction as generalizing s with
  | nil =>
    cases ht
    exact h'
  | cons a as ih =>
    obtain ⟨u, hu, ht⟩ := exec_cons_eq_some.1 ht
    obtain ⟨ha, h⟩ := meets_cons.1 h
    exact Meets.cons ha hu (ih (h u hu) ht)

/-- What always holds may be added to the condition. -/
theorem Meets.and_always {ok : σ → α → Prop} {P : σ → Prop}
    (h : Meets step ok s as) (hP : Always step P s as) :
    Meets step (fun s a => ok s a ∧ P s) s as :=
  fun bs a t hbs ht => ⟨h bs a t hbs ht, hP bs t ((prefix_append _ _).trans hbs) ht⟩

theorem meets_of_mem {ok : σ → α → Prop} (h : ∀ a ∈ as, ∀ t, ok t a) :
    Meets step ok s as := by
  intro bs a t hbs _
  have ha : a ∈ bs ++ [a] := by simp
  exact h a (hbs.subset ha) t

/-- Whether a given run meets a decidable condition can be decided by replaying it. -/
instance Meets.decidable {ok : σ → α → Prop} [∀ s a, Decidable (ok s a)] :
    ∀ (s : σ) (as : List α), Decidable (Meets step ok s as)
  | _, [] => isTrue meets_nil
  | s, a :: as =>
    match h : step s a with
    | none => decidable_of_iff (ok s a) (by simp [meets_cons, h])
    | some t =>
      have : Decidable (Meets step ok t as) := Meets.decidable t as
      decidable_of_iff (ok s a ∧ Meets step ok t as) (by simp [meets_cons, h])

theorem always_nil {P : σ → Prop} {s : σ} : Always step P s [] ↔ P s := by
  refine ⟨fun h => h [] s nil_prefix rfl, fun h bs t hbs ht => ?_⟩
  obtain rfl := prefix_nil.1 hbs
  cases ht
  exact h

/-- Whether a decidable property holds all along a given run can be decided by replaying it. -/
instance Always.decidable {P : σ → Prop} [DecidablePred P] :
    ∀ (s : σ) (as : List α), Decidable (Always step P s as)
  | _, [] => decidable_of_iff _ always_nil.symm
  | s, a :: as =>
    match h : step s a with
    | none => decidable_of_iff (P s) (by simp [always_cons, h])
    | some t =>
      have : Decidable (Always step P t as) := Always.decidable t as
      decidable_of_iff (P s ∧ Always step P t as) (by simp [always_cons, h])

/-- A run that can be evaluated exhibits a state with a decidable property. -/
theorem exists_exec {P : σ → Prop} [DecidablePred P]
    (h : (exec step s as).any (fun t => decide (P t)) = true) :
    ∃ t, exec step s as = some t ∧ P t := by
  simpa [Option.any_eq_true] using h

/-! ## The invariant rules -/

section Invariant

variable {I P : σ → Prop} {ok : σ → α → Prop}

/-- **The invariant rule**: what the allowed steps keep holds after every run of them. -/
theorem exec_invariant (hstep : ∀ s a t, I s → ok s a → step s a = some t → I t) {s t : σ}
    (hs : I s) (hm : Meets step ok s as) (ht : exec step s as = some t) : I t := by
  induction as generalizing s with
  | nil =>
    cases ht
    exact hs
  | cons a as ih =>
    obtain ⟨u, hu, ht⟩ := exec_cons_eq_some.1 ht
    obtain ⟨hok, hm⟩ := meets_cons.1 hm
    exact ih (hstep s a u hs hok hu) (hm u hu) ht

/-- What every step keeps holds after every run. -/
theorem exec_keeps (I : σ → Prop) (hstep : ∀ s a t, I s → step s a = some t → I t) {s t : σ}
    (hs : I s) (ht : exec step s as = some t) : I t := by
  have hstep' : ∀ s a t, I s → True → step s a = some t → I t := fun s a t hI _ => hstep s a t hI
  exact exec_invariant hstep' hs (fun _ _ _ _ _ => trivial) ht

/-- An invariant that implies `P` makes `P` hold in every state of a run of allowed steps. -/
theorem always_of_invariant (hP : ∀ s, I s → P s)
    (hstep : ∀ s a t, I s → ok s a → step s a = some t → I t) (hs : I s)
    (hm : Meets step ok s as) : Always step P s as := by
  intro bs t hbs ht
  obtain ⟨cs, rfl⟩ := hbs
  exact hP t (exec_invariant hstep hs hm.of_append_left ht)

/-- A condition that an invariant of the allowed steps implies is met by every run of them. -/
theorem meets_of_invariant {ok' : σ → α → Prop} (hok : ∀ s a, I s → ok s a → ok' s a)
    (hstep : ∀ s a t, I s → ok s a → step s a = some t → I t) (hs : I s)
    (hm : Meets step ok s as) (ht : exec step s as = some t) : Meets step ok' s as := by
  induction as generalizing s with
  | nil => exact meets_nil
  | cons a as ih =>
    obtain ⟨u, hu, ht⟩ := exec_cons_eq_some.1 ht
    obtain ⟨ha, hm⟩ := meets_cons.1 hm
    refine meets_cons.2 ⟨hok s a hs ha, fun v hv => ?_⟩
    obtain rfl := Option.some.inj (hu.symm.trans hv)
    exact ih (hstep s a u hs ha hu) (hm u hu) ht

/-- Two conditions that agree on the accepted steps from the states of an invariant, which the steps
that the first one allows keep, are met by the same accepted runs. -/
theorem meets_congr {ok' : σ → α → Prop}
    (hstep : ∀ s a t, I s → ok s a → step s a = some t → I t)
    (hiff : ∀ s a t, I s → step s a = some t → (ok s a ↔ ok' s a))
    (hs : I s) (ht : exec step s as = some t) : Meets step ok s as ↔ Meets step ok' s as := by
  induction as generalizing s with
  | nil => exact iff_of_true meets_nil meets_nil
  | cons a as ih =>
    obtain ⟨u, hu, ht⟩ := exec_cons_eq_some.1 ht
    rw [meets_cons, meets_cons, ← hiff s a u hs hu]
    refine and_congr_right fun hok => forall₂_congr fun v hv => ?_
    obtain rfl := Option.some.inj (hu.symm.trans hv)
    exact ih (hstep s a u hs hok hu) ht

/-- **The exact rule**: when the allowed steps keep an invariant that implies `P`, and every step
that is not allowed leads out of `P`, an accepted run stays in `P` exactly when all its steps are
allowed. -/
theorem always_iff_meets (hP : ∀ s, I s → P s)
    (hstep : ∀ s a t, I s → ok s a → step s a = some t → I t)
    (hbreak : ∀ s a t, I s → ¬ ok s a → step s a = some t → ¬ P t)
    (hs : I s) (ht : exec step s as = some t) : Always step P s as ↔ Meets step ok s as := by
  refine ⟨fun h => ?_, always_of_invariant hP hstep hs⟩
  induction as generalizing s with
  | nil => exact meets_nil
  | cons a as ih =>
    obtain ⟨u, hu, ht⟩ := exec_cons_eq_some.1 ht
    obtain ⟨-, h⟩ := always_cons.1 h
    have hok : ok s a := by
      by_contra hno
      exact hbreak s a u hs hno hu (h u hu [] u nil_prefix rfl)
    refine meets_cons.2 ⟨hok, fun v hv => ?_⟩
    obtain rfl := Option.some.inj (hu.symm.trans hv)
    exact ih (hstep s a u hs hok hu) ht (h u hu)

/-- **The progress rule**: when no allowed step of an invariant makes a measure grow, and each turn
makes it smaller unless it is zero, as many turns as the measure says bring it to zero. -/
theorem measure_eq_zero (μ : σ → ℕ) (turn : α → Bool)
    (hstep : ∀ s a t, I s → ok s a → step s a = some t →
      I t ∧ μ t ≤ μ s ∧ (turn a = true → μ t = 0 ∨ μ t < μ s)) (hs : I s)
    (hm : Meets step ok s as) (ht : exec step s as = some t) (hturns : μ s ≤ as.countP turn) :
    μ t = 0 := by
  induction as generalizing s with
  | nil =>
    cases ht
    exact Nat.le_zero.1 hturns
  | cons a as ih =>
    obtain ⟨u, hu, ht⟩ := exec_cons_eq_some.1 ht
    obtain ⟨hok, hm⟩ := meets_cons.1 hm
    obtain ⟨hI, hle, hless⟩ := hstep s a u hs hok hu
    refine ih hI (hm u hu) ht ?_
    rw [countP_cons] at hturns
    split at hturns
    · rcases hless ‹_› with hzero | hlt
      · exact hzero ▸ Nat.zero_le _
      · omega
    · omega

end Invariant

/-! ## Steps that may throw -/

/-- A computation that ends went through all its steps. -/
theorem bind_eq_ok.{u, v} {ε : Type u} {α β : Type v} {x : Except ε α} {f : α → Except ε β} {b : β}
    (h : x >>= f = .ok b) : ∃ a, x = .ok a ∧ f a = .ok b := by
  cases x with
  | error e => cases h
  | ok a => exact ⟨a, rfl, h⟩

theorem toOption_eq_some {ε α : Type*} {x : Except ε α} {a : α} (h : x.toOption = some a) :
    x = .ok a := by
  cases x with
  | error e => cases h
  | ok b => exact congrArg _ (Option.some.inj h)

/-- A step taken from a computation that may throw was taken from its result. -/
theorem toOption_map_eq_some {ε α β : Type*} {x : Except ε α} {f : α → β} {t : β}
    (h : x.toOption.map f = some t) : ∃ a, x = .ok a ∧ f a = t := by
  cases x with
  | error e => simp [Except.toOption] at h
  | ok a => exact ⟨a, rfl, by simpa [Except.toOption] using h⟩

end Workforce.Runs
