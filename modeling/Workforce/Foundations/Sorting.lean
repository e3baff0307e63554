import Mathlib.Data.List.Sort

/-!
# Stable sorts and the order of their input

A stable sort by a total preorder leaves elements that compare equal in the order in which they
came. So what one reads off the sorted list, by a function `f` of its elements, is the same for
every order of the input exactly when `f` does not tell two such elements apart.

* `map_eq_of_perm_of_pairwise`: two sorted lists of the same elements;
* `insertionSort_cons_cons`: two elements that compare equal, swapped at the head of the input,
  are swapped in the output;
* `map_insertionSort_perm_iff`: the equivalence;
* `head_insertionSort`, `head_insertionSort_append_cons`: what stands first.
-/

namespace Workforce.Sorting

open List

variable {α β : Type*} {r : α → α → Prop}

/-! ## Sorted lists of the same elements -/

/-- The elements that may stand before `a`. -/
def below (r : α → α → Prop) (a : α) : Set α := {x | r x a}

theorem below_subset [IsTrans α r] {a b : α} (h : r a b) : below r a ⊆ below r b :=
  fun _ hx => trans_of r hx h

theorem ties_of_below_eq [Std.Total r] {a b : α} (h : below r a = below r b) : r a b ∧ r b a := by
  have ha : a ∈ below r a := refl_of r a
  have hb : b ∈ below r b := refl_of r b
  rw [h] at ha
  rw [← h] at hb
  exact ⟨ha, hb⟩

/-- Two sorted lists of the same elements agree, place by place, up to elements that compare
equal. -/
theorem map_below_eq [IsTrans α r] {l l' : List α} (hperm : l'.Perm l) (hl : l.Pairwise r)
    (hl' : l'.Pairwise r) : l'.map (below r) = l.map (below r) := by
  have hsorted : ∀ {m : List α}, m.Pairwise r → (m.map (below r)).Pairwise (· ⊆ ·) :=
    fun hm => hm.map _ fun _ _ h => below_subset h
  exact (hperm.map _).eq_of_pairwise (fun _ _ _ _ h h' => Set.Subset.antisymm h h')
    (hsorted hl') (hsorted hl)

theorem map_eq_of_perm_of_pairwise [Std.Total r] [IsTrans α r] {f : α → β} {l l' : List α}
    (hperm : l'.Perm l) (hl : l.Pairwise r) (hl' : l'.Pairwise r)
    (hf : ∀ a ∈ l, ∀ b ∈ l, r a b → r b a → f a = f b) : l'.map f = l.map f := by
  have hbelow := map_below_eq hperm hl hl'
  refine ext_getElem (by simp [hperm.length_eq]) fun i hi hi' => ?_
  have htie := getElem_of_eq hbelow (by simpa using hi)
  rw [getElem_map, getElem_map] at htie ⊢
  obtain ⟨hle, hge⟩ := ties_of_below_eq htie
  exact hf _ (hperm.subset (getElem_mem _)) _ (getElem_mem _) hle hge

/-! ## Insertion -/

variable [DecidableRel r]

/-- An element passes those it may not stand before. -/
theorem orderedInsert_append {a : α} {t d : List α} (ht : ∀ x ∈ t, ¬ r a x) :
    (t ++ d).orderedInsert r a = t ++ d.orderedInsert r a := by
  induction t with
  | nil => rfl
  | cons x t ih =>
    obtain ⟨hx, ht⟩ := forall_mem_cons.1 ht
    simp only [cons_append, orderedInsert_cons, if_neg hx, ih ht]

/-- Two elements that compare equal are inserted at one place, the last before the first. -/
theorem orderedInsert_orderedInsert [IsTrans α r] {a b : α} (hab : r a b) (hba : r b a)
    (l : List α) :
    (l.orderedInsert r b).orderedInsert r a =
      (l.takeWhile fun x => ¬ r b x) ++ a :: b :: l.dropWhile fun x => ¬ r b x := by
  have hpass : ∀ x ∈ l.takeWhile fun x => ¬ r b x, ¬ r a x := by
    intro x hx hax
    have hbx : ¬ r b x := by simpa using all_eq_true.1 all_takeWhile x hx
    exact hbx (trans_of r hba hax)
  rw [orderedInsert_eq_take_drop r b l, orderedInsert_append hpass,
    orderedInsert_cons_of_le r _ hab]

/-- Two elements that compare equal, swapped at the head of the input, are swapped in the
output. -/
theorem insertionSort_cons_cons [IsTrans α r] {a b : α} (hab : r a b) (hba : r b a) (l : List α) :
    ∃ t d, (a :: b :: l).insertionSort r = t ++ a :: b :: d ∧
      (b :: a :: l).insertionSort r = t ++ b :: a :: d := by
  have hsame : ∀ x, r a x ↔ r b x := fun x => ⟨trans_of r hba, trans_of r hab⟩
  refine ⟨_, _, orderedInsert_orderedInsert hab hba _, ?_⟩
  have hswap := orderedInsert_orderedInsert hba hab (l.insertionSort r)
  simp only [hsame] at hswap
  exact hswap

/-- **The order of the input.** Every order of the input gives the same list of values of `f` if
and only if `f` has one value on elements that compare equal. -/
theorem map_insertionSort_perm_iff [Std.Total r] [IsTrans α r] {f : α → β} {l : List α} :
    (∀ l' : List α, l'.Perm l → (l'.insertionSort r).map f = (l.insertionSort r).map f) ↔
      ∀ a ∈ l, ∀ b ∈ l, r a b → r b a → f a = f b := by
  constructor
  · intro h a ha b hb hab hba
    classical
    by_cases heq : a = b
    · rw [heq]
    have hb' : b ∈ l.erase a := (mem_erase_of_ne (Ne.symm heq)).2 hb
    have hperm : (a :: b :: (l.erase a).erase b).Perm l :=
      ((perm_cons_erase hb').symm.cons a).trans (perm_cons_erase ha).symm
    obtain ⟨t, d, hsort, hswap⟩ := insertionSort_cons_cons hab hba ((l.erase a).erase b)
    have hmaps := (h _ hperm).trans (h _ ((Perm.swap a b _).trans hperm)).symm
    rw [hsort, hswap, map_append, map_append] at hmaps
    exact (cons.inj (append_cancel_left hmaps)).1
  · intro h l' hperm
    have hperm' : (l'.insertionSort r).Perm (l.insertionSort r) :=
      (perm_insertionSort r l').trans (hperm.trans (perm_insertionSort r l).symm)
    refine map_eq_of_perm_of_pairwise hperm' (pairwise_insertionSort r l)
      (pairwise_insertionSort r l') fun a ha b hb => ?_
    exact h a ((mem_insertionSort r).1 ha) b ((mem_insertionSort r).1 hb)

/-! ## The first element -/

theorem head_insertionSort [Std.Total r] [IsTrans α r] {l : List α} {a : α}
    (h : (l.insertionSort r).head? = some a) : a ∈ l ∧ ∀ b ∈ l, r a b := by
  obtain ⟨t, ht⟩ := head?_eq_some_iff.1 h
  have hsorted := pairwise_insertionSort r l
  rw [ht, pairwise_cons] at hsorted
  refine ⟨(mem_insertionSort r).1 (ht ▸ mem_cons_self), fun b hb => ?_⟩
  have hb' := (mem_insertionSort r).2 hb
  rw [ht] at hb'
  rcases mem_cons.1 hb' with rfl | hb'
  · exact refl_of r b
  · exact hsorted.1 b hb'

/-- Of the elements that may stand before all others, the first one in the input comes first. -/
theorem head_insertionSort_append_cons {d g : List α} {a : α}
    (hd : ∀ x ∈ d, ¬ r x a) (hg : ∀ x ∈ g, r a x) :
    ((d ++ a :: g).insertionSort r).head? = some a := by
  induction d with
  | nil =>
    rw [nil_append, insertionSort_cons]
    cases hsort : g.insertionSort r with
    | nil => rfl
    | cons x t =>
      have hx : x ∈ g := (mem_insertionSort r).1 (hsort ▸ mem_cons_self)
      rw [orderedInsert_cons_of_le r _ (hg x hx)]
      rfl
  | cons x d ih =>
    obtain ⟨hx, hd⟩ := forall_mem_cons.1 hd
    obtain ⟨t, ht⟩ := head?_eq_some_iff.1 (ih hd)
    rw [cons_append, insertionSort_cons, ht, orderedInsert_cons, if_neg hx]
    rfl

end Workforce.Sorting
