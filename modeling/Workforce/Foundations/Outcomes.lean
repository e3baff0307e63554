import Mathlib.Data.List.Forall2

/-!
# Programs that answer or fail

A program over a state that answers or throws, where what it wrote before it threw stays written.
`Ends m s a s'`: from the state `s` the program answers `a` and leaves `s'`. The rules take the
programs of a `do` block apart, in both directions.

`settleAll` runs programs that were started together: one that throws does not keep the others from
running.
-/

namespace Workforce.Outcomes

open List

variable {ε σ α β ι κ : Type} {s s' : σ} {a : α} {b : β}

/-- From `s` the program answers `a` and leaves `s'`. -/
def Ends (m : ExceptT ε (StateM σ) α) (s : σ) (a : α) (s' : σ) : Prop := m.run.run s = (.ok a, s')

theorem ends_pure_iff {x : α} :
    Ends (pure x : ExceptT ε (StateM σ) α) s a s' ↔ a = x ∧ s' = s := by
  change ((.ok x : Except ε α), s) = (.ok a, s') ↔ _
  rw [Prod.mk.injEq, Except.ok.injEq]
  exact and_congr eq_comm eq_comm

theorem not_ends_throw {e : ε} : ¬ Ends (throw e : ExceptT ε (StateM σ) α) s a s' := nofun

theorem ends_set_iff {t : σ} :
    Ends (set t : ExceptT ε (StateM σ) Unit) s () s' ↔ s' = t := by
  change ((.ok () : Except ε Unit), t) = (.ok (), s') ↔ _
  rw [Prod.mk.injEq, and_iff_right rfl]
  exact eq_comm

theorem ends_liftExcept_iff {x : Except ε α} :
    Ends (liftM x : ExceptT ε (StateM σ) α) s a s' ↔ x = .ok a ∧ s' = s := by
  change (x, s) = (.ok a, s') ↔ _
  rw [Prod.mk.injEq]
  exact and_congr_right fun _ => eq_comm

variable {f : α → ExceptT ε (StateM σ) β}

theorem ends_bind_iff {m : ExceptT ε (StateM σ) α} :
    Ends (m >>= f) s b s' ↔ ∃ a t, Ends m s a t ∧ Ends (f a) t b s' := by
  unfold Ends
  constructor
  · intro h
    rcases hm : m.run.run s with ⟨_ | a, t⟩
    · rw [ExceptT.run_bind, StateT.run_bind, hm] at h
      cases h
    · refine ⟨a, t, rfl, ?_⟩
      rw [ExceptT.run_bind, StateT.run_bind, hm] at h
      exact h
  · rintro ⟨a, t, hm, hf⟩
    rw [ExceptT.run_bind, StateT.run_bind, hm]
    exact hf

theorem ends_andThen_iff {m : ExceptT ε (StateM σ) Unit} {f : Unit → ExceptT ε (StateM σ) β} :
    Ends (m >>= f) s b s' ↔ ∃ t, Ends m s () t ∧ Ends (f ()) t b s' := by
  rw [ends_bind_iff]
  exact ⟨fun ⟨_, t, h⟩ => ⟨t, h⟩, fun ⟨t, h⟩ => ⟨(), t, h⟩⟩

/-- What follows a program that has one outcome. -/
theorem ends_bind_of_outcome {m : ExceptT ε (StateM σ) α} {t : σ}
    (hm : ∀ a' t', Ends m s a' t' ↔ a' = a ∧ t' = t) :
    Ends (m >>= f) s b s' ↔ Ends (f a) t b s' := by
  rw [ends_bind_iff]
  constructor
  · rintro ⟨a', t', ha', hf⟩
    obtain ⟨rfl, rfl⟩ := (hm a' t').1 ha'
    exact hf
  · intro hf
    exact ⟨a, t, (hm a t).2 ⟨rfl, rfl⟩, hf⟩

theorem ends_get_bind_iff {f : σ → ExceptT ε (StateM σ) β} :
    Ends (get >>= f) s b s' ↔ Ends (f s) s b s' := Iff.rfl

theorem ends_liftExcept_bind_iff {x : Except ε α} :
    Ends (liftM x >>= f) s b s' ↔ ∃ a, x = .ok a ∧ Ends (f a) s b s' := by
  rw [ends_bind_iff]
  refine exists_congr fun a => ?_
  simp only [ends_liftExcept_iff, and_assoc, exists_and_left, exists_eq_left]

/-! ## Loops

The items of a loop are paired with changes of a view of the state: each item, where it answers,
makes its change, and then the loop makes them one after the other. -/

section Loops

variable {m : ι → ExceptT ε (StateM σ) Unit} {R : ι → κ → Prop} {items : List ι} {changes : List κ}
  {invariant : σ → Prop} {view : σ → β} {change : κ → β → β} {enabled : κ → β → Prop}

theorem Ends.forM (hpairs : Forall₂ R items changes)
    (hstep : ∀ i ∈ items, ∀ c s s', R i c → invariant s → Ends (m i) s () s' →
      invariant s' ∧ view s' = change c (view s))
    (hs : invariant s) (h : Ends (items.forM m) s () s') :
    invariant s' ∧ view s' = changes.foldl (fun v c => change c v) (view s) := by
  induction hpairs generalizing s with
  | nil =>
    obtain ⟨-, rfl⟩ := ends_pure_iff.1 h
    exact ⟨hs, rfl⟩
  | cons hpair _ ih =>
    obtain ⟨t, hi, hrest⟩ := ends_andThen_iff.1 h
    obtain ⟨ht, hview⟩ := hstep _ mem_cons_self _ s t hpair hs hi
    rw [foldl_cons, ← hview]
    exact ih (fun i hi => hstep i (mem_cons_of_mem _ hi)) ht hrest

/-- Every change is enabled when its turn comes. -/
def AllEnabled (change : κ → β → β) (enabled : κ → β → Prop) : List κ → β → Prop
  | [], _ => True
  | c :: changes, v => enabled c v ∧ AllEnabled change enabled changes (change c v)

/-- A loop answers where each item answers when its change is enabled. -/
theorem exists_ends_forM (hpairs : Forall₂ R items changes)
    (hstep : ∀ i ∈ items, ∀ c s s', R i c → invariant s → Ends (m i) s () s' →
      invariant s' ∧ view s' = change c (view s))
    (hanswers : ∀ i ∈ items, ∀ c s, R i c → invariant s → enabled c (view s) →
      ∃ s', Ends (m i) s () s')
    (hs : invariant s) (henabled : AllEnabled change enabled changes (view s)) :
    ∃ s', Ends (items.forM m) s () s' := by
  induction hpairs generalizing s with
  | nil => exact ⟨s, rfl⟩
  | cons hpair _ ih =>
    obtain ⟨hfirst, hrest⟩ := henabled
    obtain ⟨t, hi⟩ := hanswers _ mem_cons_self _ s hpair hs hfirst
    obtain ⟨ht, hview⟩ := hstep _ mem_cons_self _ s t hpair hs hi
    rw [← hview] at hrest
    obtain ⟨s', hs'⟩ := ih (fun i hi => hstep i (mem_cons_of_mem _ hi))
      (fun i hi => hanswers i (mem_cons_of_mem _ hi)) ht hrest
    exact ⟨s', ends_andThen_iff.2 ⟨t, hi, hs'⟩⟩

end Loops

/-! ## Programs that were started together -/

/-- The programs run in this order; the first that throws is what the whole throws. -/
def settleAll : List (ExceptT ε (StateM σ) Unit) → ExceptT ε (StateM σ) Unit
  | [] => pure ()
  | m :: ms => ExceptT.mk do
    let first ← m.run
    let rest ← (settleAll ms).run
    return match first with
      | .ok _ => rest
      | .error e => .error e

theorem ends_settleAll_nil_iff :
    Ends (settleAll [] : ExceptT ε (StateM σ) Unit) s () s' ↔ s' = s := by
  rw [settleAll, ends_pure_iff]
  exact and_iff_right rfl

theorem ends_settleAll_cons_iff {m : ExceptT ε (StateM σ) Unit}
    {ms : List (ExceptT ε (StateM σ) Unit)} :
    Ends (settleAll (m :: ms)) s () s' ↔ ∃ t, Ends m s () t ∧ Ends (settleAll ms) t () s' := by
  unfold Ends
  rw [settleAll, ExceptT.run_mk, StateT.run_bind]
  constructor
  · intro h
    rcases hm : m.run.run s with ⟨_ | a, t⟩
    · rw [hm] at h
      cases h
    · rw [hm] at h
      exact ⟨t, rfl, h⟩
  · rintro ⟨t, hm, hms⟩
    rw [hm]
    exact hms

end Workforce.Outcomes
