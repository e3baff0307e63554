import Workforce.Foundations.Runs

/-!
# What one party does to the others

A run of a system (see `Runs`) mixes the actions of one party, `mine`, with those of everybody
else. `others` leaves out the party's actions. The party is *unnoticed* when, after any part of the
run and whatever the others do next, the others see what they would see if the party had done
nothing (`Unnoticed`).

The rules are those of an unwinding relation (`Unwinding`) between the state of the run and the
state without the party's actions: it is kept by the actions of the others on both sides and by the
quiet actions of the party on one side. Runs whose actions are quiet are then unnoticed
(`unnoticed_of_meets`), and two such runs that differ only in what the party does look the same
(`view_eq`). When every action that is not quiet can be noticed, the converse holds as well
(`unnoticed_iff`).
-/

namespace Workforce.Runs

open List

variable {σ α ω : Type*} (step : σ → α → Option σ) (mine : α → Bool) (view : σ → ω)

/-- A run without the party's actions. -/
def others (as : List α) : List α := as.filter fun a => !mine a

/-- The others see the same, after any part of the run from `s` and whatever they do next, as in the
run from `s'` without the party's actions. -/
def Unnoticed (s s' : σ) (as : List α) : Prop :=
  ∀ bs t, bs <+: as → exec step s bs = some t → ∀ cs u, (∀ c ∈ cs, mine c = false) →
    exec step t cs = some u →
      ∃ u', exec step s' (others mine bs ++ cs) = some u' ∧ view u = view u'

/-- The actions of the others keep the relation, and the quiet actions of the party, which are among
those allowed to it, do not disturb it. -/
structure Unwinding (R : σ → σ → Prop) (allowed : α → Prop) (quiet : σ → α → Prop) : Prop where
  view : ∀ s s', R s s' → view s = view s'
  byOthers : ∀ s s' a t, R s s' → mine a = false → step s a = some t →
    ∃ t', step s' a = some t' ∧ R t t'
  byParty : ∀ s s' a t, R s s' → mine a = true → allowed a → quiet s a → step s a = some t → R t s'

variable {step mine view} {R : σ → σ → Prop} {allowed : α → Prop} {quiet : σ → α → Prop}

theorem others_cons_of_mine {a : α} (ha : mine a = true) (as : List α) :
    others mine (a :: as) = others mine as := by
  simp [others, ha]

theorem others_cons_of_not_mine {a : α} (ha : mine a = false) (as : List α) :
    others mine (a :: as) = a :: others mine as := by
  simp [others, ha]

theorem others_append (as bs : List α) :
    others mine (as ++ bs) = others mine as ++ others mine bs := by
  simp [others]

theorem others_eq_self {as : List α} (h : ∀ a ∈ as, mine a = false) : others mine as = as := by
  rw [others, filter_eq_self]
  intro a ha
  simp [h a ha]

namespace Unwinding

variable (h : Unwinding step mine view R allowed quiet)

include h

/-- A run whose actions are quiet is matched by the run without the party's actions. -/
theorem exec_others {s s' t : σ} {as : List α} (hR : R s s')
    (hallowed : ∀ a ∈ as, mine a = true → allowed a)
    (hquiet : Meets step (fun s a => mine a = true → quiet s a) s as)
    (ht : exec step s as = some t) :
    ∃ t', exec step s' (others mine as) = some t' ∧ R t t' := by
  induction as generalizing s s' with
  | nil =>
    cases ht
    exact ⟨s', rfl, hR⟩
  | cons a as ih =>
    obtain ⟨u, hu, ht⟩ := exec_cons_eq_some.1 ht
    obtain ⟨ha, hquiet⟩ := meets_cons.1 hquiet
    obtain ⟨hallow, hallowed⟩ := forall_mem_cons.1 hallowed
    cases hmine : mine a with
    | true =>
      rw [others_cons_of_mine hmine]
      exact ih (h.byParty s s' a u hR hmine (hallow hmine) (ha hmine) hu) hallowed (hquiet u hu) ht
    | false =>
      obtain ⟨u', hu', hR'⟩ := h.byOthers s s' a u hR hmine hu
      obtain ⟨t', ht', hRt⟩ := ih hR' hallowed (hquiet u hu) ht
      rw [others_cons_of_not_mine hmine]
      exact ⟨t', exec_cons_eq_some.2 ⟨u', hu', ht'⟩, hRt⟩

/-- Two runs whose actions are quiet, and that differ only in what the party does, look the same to
the others. -/
theorem view_eq {s t t' : σ} {as bs : List α} (hR : R s s)
    (hothers : others mine as = others mine bs)
    (has : ∀ a ∈ as, mine a = true → allowed a) (hbs : ∀ b ∈ bs, mine b = true → allowed b)
    (hquiet : Meets step (fun s a => mine a = true → quiet s a) s as)
    (hquiet' : Meets step (fun s a => mine a = true → quiet s a) s bs)
    (ht : exec step s as = some t) (ht' : exec step s bs = some t') : view t = view t' := by
  obtain ⟨u, hu, hRu⟩ := h.exec_others hR has hquiet ht
  obtain ⟨u', hu', hRu'⟩ := h.exec_others hR hbs hquiet' ht'
  obtain rfl : u = u' := by
    rw [hothers] at hu
    exact Option.some.inj (hu.symm.trans hu')
  exact (h.view t u hRu).trans (h.view t' u hRu').symm

/-- A run whose actions are quiet is unnoticed. -/
theorem unnoticed_of_meets {s s' : σ} {as : List α} (hR : R s s')
    (hallowed : ∀ a ∈ as, mine a = true → allowed a)
    (hquiet : Meets step (fun s a => mine a = true → quiet s a) s as) :
    Unnoticed step mine view s s' as := by
  intro bs t hbs ht cs u hcs hu
  obtain ⟨rest, rfl⟩ := hbs
  have hrun : exec step s (bs ++ cs) = some u := exec_append_eq_some.2 ⟨t, ht, hu⟩
  have hallowed' : ∀ a ∈ bs ++ cs, mine a = true → allowed a := by
    intro a ha hmine
    rcases mem_append.1 ha with ha | ha
    · exact hallowed a (mem_append_left _ ha) hmine
    · rw [hcs a ha] at hmine
      cases hmine
  have hcsQuiet : Meets step (fun s a => mine a = true → quiet s a) t cs := by
    intro ds a v hds _ hmine
    rw [hcs a (hds.subset (by simp))] at hmine
    cases hmine
  obtain ⟨u', hu', hRu⟩ :=
    h.exec_others hR hallowed' (hquiet.of_append_left.append ht hcsQuiet) hrun
  refine ⟨u', ?_, h.view u u' hRu⟩
  rwa [others_append, others_eq_self hcs] at hu'

/-- **The exact rule**: when what is not quiet can be noticed, the party is unnoticed exactly in the
runs whose actions are quiet. -/
theorem unnoticed_iff
    (hnoticed : ∀ s s' a t, R s s' → mine a = true → allowed a → ¬ quiet s a → step s a = some t →
      ∃ cs u, (∀ c ∈ cs, mine c = false) ∧ exec step t cs = some u ∧
        ∀ u', exec step s' cs = some u' → view u ≠ view u')
    {s s' t : σ} {as : List α} (hR : R s s') (hallowed : ∀ a ∈ as, mine a = true → allowed a)
    (ht : exec step s as = some t) :
    Unnoticed step mine view s s' as ↔
      Meets step (fun s a => mine a = true → quiet s a) s as := by
  refine ⟨fun hun => ?_, h.unnoticed_of_meets hR hallowed⟩
  induction as generalizing s s' with
  | nil => exact meets_nil
  | cons a as ih =>
    obtain ⟨u, hu, ht⟩ := exec_cons_eq_some.1 ht
    obtain ⟨hallow, hallowed⟩ := forall_mem_cons.1 hallowed
    have hfirst : exec step s [a] = some u := exec_cons_eq_some.2 ⟨u, hu, rfl⟩
    cases hmine : mine a with
    | true =>
      have hquiet : quiet s a := by
        by_contra hno
        obtain ⟨cs, v, hcs, hv, hdiffer⟩ := hnoticed s s' a u hR hmine (hallow hmine) hno hu
        obtain ⟨v', hv', heq⟩ :=
          hun [a] u (cons_prefix_cons.2 ⟨rfl, nil_prefix⟩) hfirst cs v hcs hv
        rw [others_cons_of_mine hmine] at hv'
        exact hdiffer v' hv' heq
      have hRu := h.byParty s s' a u hR hmine (hallow hmine) hquiet hu
      refine Meets.cons (fun _ => hquiet) hu (ih hRu hallowed ht fun bs v hbs hv cs w hcs hw => ?_)
      obtain ⟨w', hw', heq⟩ := hun (a :: bs) v (cons_prefix_cons.2 ⟨rfl, hbs⟩)
        (exec_cons_eq_some.2 ⟨u, hu, hv⟩) cs w hcs hw
      rw [others_cons_of_mine hmine] at hw'
      exact ⟨w', hw', heq⟩
    | false =>
      obtain ⟨u', hu', hR'⟩ := h.byOthers s s' a u hR hmine hu
      have hother : mine a = true → quiet s a := fun htrue => by simp [hmine] at htrue
      refine Meets.cons hother hu (ih hR' hallowed ht fun bs v hbs hv cs w hcs hw => ?_)
      obtain ⟨w', hw', heq⟩ := hun (a :: bs) v (cons_prefix_cons.2 ⟨rfl, hbs⟩)
        (exec_cons_eq_some.2 ⟨u, hu, hv⟩) cs w hcs hw
      rw [others_cons_of_not_mine hmine, cons_append] at hw'
      obtain ⟨x, hx, hw'⟩ := exec_cons_eq_some.1 hw'
      obtain rfl := Option.some.inj (hu'.symm.trans hx)
      exact ⟨w', hw', heq⟩

end Unwinding

end Workforce.Runs
