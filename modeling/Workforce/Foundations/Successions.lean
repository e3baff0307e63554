import Mathlib.Data.List.Pairwise
import Mathlib.Data.Int.Notation
import Mathlib.Tactic.Common

/-!
# Tables of versions

A version is in force in a window of time, which has a start and may have an end. The rows of a
table, in the order of their insertion, belong to lineages; the table is a succession when each
version of a lineage has ended where a later one starts.

* `Succession.append`: a version is added after the last one has ended.
* `Succession.map`: a window is closed, or closed elsewhere, where it is the last of its lineage.
* `Succession.eq_of_contains`: at every instant a lineage has at most one version in force.
-/

namespace Workforce.Successions

open List

structure Window where
  start : ℤ
  stop : Option ℤ
  deriving DecidableEq

namespace Window

variable {w w' : Window}

/-- The window is not empty. -/
def Wf (w : Window) : Prop := ∀ e ∈ w.stop, w.start < e
  deriving Decidable

/-- The window has the instant `t`. -/
def Contains (w : Window) (t : ℤ) : Prop := w.start ≤ t ∧ ∀ e ∈ w.stop, t < e
  deriving Decidable

/-- The first window has ended where the second starts. -/
def Before (w w' : Window) : Prop := ∃ e ∈ w.stop, e ≤ w'.start

theorem Before.not_contains (h : w.Before w') {t : ℤ} (hw : w.Contains t) : ¬ w'.Contains t := by
  obtain ⟨e, he, hle⟩ := h
  intro hw'
  have hlt := hw.2 e he
  have hstart := hw'.1
  omega

theorem Before.not_before (h : w.Before w') (hw : w.Wf) (hw' : w'.Wf) : ¬ w'.Before w := by
  rintro ⟨e', he', hle'⟩
  obtain ⟨e, he, hle⟩ := h
  have hlt := hw e he
  have hlt' := hw' e' he'
  omega

theorem Before.trans {w'' : Window} (h : w.Before w') (hw' : w'.Wf) (h' : w'.Before w'') :
    w.Before w'' := by
  obtain ⟨e, he, hle⟩ := h
  obtain ⟨e', he', hle'⟩ := h'
  have hlt := hw' e' he'
  exact ⟨e, he, by omega⟩

theorem not_before_self (hw : w.Wf) : ¬ w.Before w := fun h => h.not_before hw hw h

end Window

section

variable {ρ κ : Type*} (lineage : ρ → κ) (window : ρ → Window)

/-- The versions of each lineage come one after the other. -/
structure Succession (rows : List ρ) : Prop where
  wf : ∀ r ∈ rows, (window r).Wf
  ordered : rows.Pairwise fun r r' => lineage r = lineage r' → (window r).Before (window r')

/-- The row is the last of its lineage. -/
def Last (rows : List ρ) (c : ρ) : Prop :=
  ∀ r ∈ rows, lineage r = lineage c → r = c ∨ (window r).Before (window c)

variable {lineage window} {rows : List ρ} {c : ρ}

theorem rel_or_rel {R : ρ → ρ → Prop} (h : rows.Pairwise R) {r r' : ρ} (hr : r ∈ rows)
    (hr' : r' ∈ rows) (hne : r ≠ r') : R r r' ∨ R r' r := by
  have : Std.Symm fun r r' => R r r' ∨ R r' r := ⟨fun _ _ h => h.symm⟩
  have hsymm : rows.Pairwise fun r r' => R r r' ∨ R r' r := h.imp Or.inl
  exact hsymm.forall hr hr' hne

namespace Succession

theorem nil : Succession lineage window [] := ⟨by simp, Pairwise.nil⟩

/-- Two versions of one lineage: one of them has ended where the other starts. -/
theorem before_or_before (h : Succession lineage window rows) {r r' : ρ} (hr : r ∈ rows)
    (hr' : r' ∈ rows) (hlineage : lineage r = lineage r') (hne : r ≠ r') :
    (window r).Before (window r') ∨ (window r').Before (window r) :=
  (rel_or_rel h.ordered hr hr' hne).imp (· hlineage) (· hlineage.symm)

/-- At every instant a lineage has at most one version in force. -/
theorem eq_of_contains (h : Succession lineage window rows) {r r' : ρ} (hr : r ∈ rows)
    (hr' : r' ∈ rows) (hlineage : lineage r = lineage r') {t : ℤ} (ht : (window r).Contains t)
    (ht' : (window r').Contains t) : r = r' := by
  by_contra hne
  rcases h.before_or_before hr hr' hlineage hne with hbefore | hbefore
  · exact hbefore.not_contains ht ht'
  · exact hbefore.not_contains ht' ht

/-- An open version is the last of its lineage. -/
theorem last_of_open (h : Succession lineage window rows) (hc : c ∈ rows)
    (hopen : (window c).stop = none) : Last lineage window rows c := by
  intro r hr hlineage
  by_cases hne : r = c
  · exact .inl hne
  · refine .inr ((h.before_or_before hr hc hlineage hne).resolve_right ?_)
    rintro ⟨e, he, -⟩
    rw [hopen] at he
    cases he

/-- At most one version of a lineage is open. -/
theorem eq_of_open (h : Succession lineage window rows) {r : ρ} (hr : r ∈ rows) (hc : c ∈ rows)
    (hlineage : lineage r = lineage c) (hr' : (window r).stop = none)
    (hc' : (window c).stop = none) : r = c := by
  refine (h.last_of_open hc hc' r hr hlineage).resolve_right ?_
  rintro ⟨e, he, -⟩
  rw [hr'] at he
  cases he

theorem append (h : Succession lineage window rows) (hwf : (window c).Wf)
    (hc : ∀ r ∈ rows, lineage r = lineage c → (window r).Before (window c)) :
    Succession lineage window (rows ++ [c]) where
  wf := fun r hr => by
    rcases mem_append.1 hr with hr | hr
    · exact h.wf r hr
    · rwa [mem_singleton.1 hr]
  ordered := by
    rw [pairwise_append]
    refine ⟨h.ordered, pairwise_singleton _ _, fun r hr c' hc' => ?_⟩
    rw [mem_singleton.1 hc']
    exact hc r hr

/-- An update that keeps the lineages and the starts, and moves only the ends of last versions. -/
theorem map (h : Succession lineage window rows) {f : ρ → ρ}
    (hlineage : ∀ r, lineage (f r) = lineage r)
    (hstart : ∀ r, (window (f r)).start = (window r).start)
    (hwf : ∀ r ∈ rows, (window (f r)).Wf)
    (hstop : ∀ r ∈ rows, (window (f r)).stop = (window r).stop ∨ Last lineage window rows r) :
    Succession lineage window (rows.map f) where
  wf := fun r hr => by
    obtain ⟨r₀, hr₀, rfl⟩ := mem_map.1 hr
    exact hwf r₀ hr₀
  ordered := by
    rw [pairwise_map]
    refine h.ordered.imp_of_mem fun {r r'} hr hr' hbefore heq => ?_
    rw [hlineage, hlineage] at heq
    have hb := hbefore heq
    rcases hstop r hr with hstop | hlast
    · obtain ⟨e, he, hle⟩ := hb
      exact ⟨e, hstop ▸ he, hstart r' ▸ hle⟩
    · -- a last version comes before no other
      rcases hlast r' hr' heq.symm with rfl | hback
      · exact absurd hb (Window.not_before_self (h.wf _ hr))
      · exact absurd hback (hb.not_before (h.wf r hr) (h.wf r' hr'))

/-- How many versions of a lineage a test finds that all its rows meet at one instant. -/
theorem length_filter_le_one (h : Succession lineage window rows) {k : κ} {t : ℤ} {p : ρ → Bool}
    (hp : ∀ r ∈ rows, p r → lineage r = k ∧ (window r).Contains t) :
    (rows.filter p).length ≤ 1 := by
  have hpairwise := h.ordered.sublist (filter_sublist (p := p))
  match hf : rows.filter p with
  | [] => simp
  | [_] => simp
  | r :: r' :: l =>
    have hmem : ∀ r₀ ∈ r :: r' :: l, lineage r₀ = k ∧ (window r₀).Contains t := by
      intro r₀ hr₀
      rw [← hf, mem_filter] at hr₀
      exact hp r₀ hr₀.1 hr₀.2
    have hr := hmem r (by simp)
    have hr' := hmem r' (by simp)
    rw [hf, pairwise_cons] at hpairwise
    exact absurd hr'.2 ((hpairwise.1 r' (by simp) (hr.1.trans hr'.1.symm)).not_contains hr.2)

end Succession

end

end Workforce.Successions
