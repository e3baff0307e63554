import Mathlib.Data.Finset.Basic

/-!
# An inverted index of a partial function

A partial function `f` sends items to places, and an index keeps, for each place, the set of the
items that are there (`Inverts`). When an item moves, the index is updated from the place it is said
to leave and the place it goes to (`move`).

* `Inverts.move`: the update is right when the item leaves the place where it is.
* `inverts_moveAll_iff`: items said to leave one place for another are updated rightly exactly when
  each of them is in one of the two, or nowhere.
-/

namespace Workforce.InvertedIndex

open Function

variable {α β : Type*} [DecidableEq α] [DecidableEq β]

abbrev Index (α β : Type*) := β → Finset α

/-- The item is taken out of a set. -/
def remove (i : Index α β) (b : Option β) (a : α) : Index α β :=
  match b with
  | some b => update i b ((i b).erase a)
  | none => i

/-- The item is put into a set. -/
def add (i : Index α β) (b : Option β) (a : α) : Index α β :=
  match b with
  | some b => update i b (insert a (i b))
  | none => i

/-- The item leaves one place for another. -/
def move (i : Index α β) (a : α) (old new : Option β) : Index α β :=
  if old = new then i else add (remove i old a) new a

/-- Items leave one place for another, one by one. -/
def moveAll (i : Index α β) (as : List α) (old new : Option β) : Index α β :=
  as.foldl (fun i a => move i a old new) i

/-- The index has every item at its place, and nowhere else. -/
def Inverts (i : Index α β) (f : α → Option β) : Prop := ∀ a b, a ∈ i b ↔ f a = some b

variable {i : Index α β} {f : α → Option β} {a a' : α} {as : List α} {b : β} {old new : Option β}

theorem mem_remove : a' ∈ remove i old a b ↔ a' ∈ i b ∧ ¬ (a' = a ∧ old = some b) := by
  cases old with
  | none => simp [remove]
  | some c =>
    by_cases hb : b = c
    · subst hb
      simp [remove, and_comm]
    · have hb' : c ≠ b := fun h => hb h.symm
      simp [remove, hb, hb']

theorem mem_add : a' ∈ add i new a b ↔ a' ∈ i b ∨ a' = a ∧ new = some b := by
  cases new with
  | none => simp [add]
  | some c =>
    by_cases hb : b = c
    · subst hb
      simp [add, or_comm]
    · have hb' : c ≠ b := fun h => hb h.symm
      simp [add, hb, hb']

theorem mem_move (hne : old ≠ new) :
    a' ∈ move i a old new b ↔
      a' = a ∧ (new = some b ∨ old ≠ some b ∧ a ∈ i b) ∨ a' ≠ a ∧ a' ∈ i b := by
  rw [move, if_neg hne, mem_add, mem_remove]
  by_cases ha : a' = a
  · subst ha
    simp only [true_and, ne_eq, not_true_eq_false, false_and, or_false]
    tauto
  · simp [ha]

/-- **An item that leaves the place where it is** keeps the index right. -/
theorem Inverts.move (h : Inverts i f) (a : α) (new : Option β) :
    Inverts (move i a (f a) new) (update f a new) := by
  by_cases hne : f a = new
  · rw [InvertedIndex.move, if_pos hne, ← hne, update_eq_self]
    exact h
  · intro a' b
    rw [mem_move hne]
    by_cases ha : a' = a
    · subst ha
      have hb := h a' b
      simp only [true_and, ne_eq, not_true_eq_false, false_and, or_false, update_self]
      tauto
    · simpa [ha] using h a' b

/-- The items in a set after several have moved. -/
theorem mem_moveAll (hne : old ≠ new) :
    a' ∈ moveAll i as old new b ↔
      a' ∈ as ∧ (new = some b ∨ old ≠ some b ∧ a' ∈ i b) ∨ a' ∉ as ∧ a' ∈ i b := by
  induction as generalizing i with
  | nil => simp [moveAll]
  | cons a as ih =>
    have hstep : moveAll i (a :: as) old new =
        moveAll (InvertedIndex.move i a old new) as old new := rfl
    rw [hstep, ih, mem_move hne, List.mem_cons]
    by_cases ha : a' = a
    · subst ha
      by_cases has : a' ∈ as
      · simp only [has, true_and, or_true, not_true_eq_false, false_and, or_false, ne_eq]
        tauto
      · simp [has]
    · simp [ha]

omit [DecidableEq β] in
/-- The place of an item after several have moved. -/
theorem update_all_apply (f : α → Option β) (as : List α) (new : Option β) (a : α) :
    as.foldl (fun f a => update f a new) f a = if a ∈ as then new else f a := by
  induction as generalizing f with
  | nil => simp
  | cons b as ih =>
    rw [List.foldl_cons, ih]
    by_cases has : a ∈ as
    · simp [has]
    · by_cases hab : a = b
      · simp [hab]
      · simp [has, hab]

/-- **Items that are said to leave one place for another**: the index is right afterwards exactly
when each of them was in one of the two, or nowhere. -/
theorem inverts_moveAll_iff (h : Inverts i f) (hne : old ≠ new) :
    Inverts (moveAll i as old new) (as.foldl (fun f a => update f a new) f) ↔
      ∀ a ∈ as, f a = none ∨ f a = old ∨ f a = new := by
  constructor
  · intro hafter a ha
    by_contra hno
    push Not at hno
    obtain ⟨hsome, hold, hother⟩ := hno
    obtain ⟨c, hc⟩ := Option.ne_none_iff_exists'.1 hsome
    have hstays : a ∈ moveAll i as old new c :=
      (mem_moveAll hne).2 (.inl ⟨ha, .inr ⟨fun h' => hold (hc.trans h'.symm), (h a c).2 hc⟩⟩)
    have hplace := (hafter a c).1 hstays
    rw [update_all_apply, if_pos ha] at hplace
    exact hother (hc.trans hplace.symm)
  · intro hplaces a b
    rw [mem_moveAll hne, update_all_apply]
    by_cases ha : a ∈ as
    · have hb := h a b
      have hplace := hplaces a ha
      simp only [ha, true_and, not_true_eq_false, false_and, or_false, if_true]
      constructor
      · rintro (hnew' | ⟨hold, hmem⟩)
        · exact hnew'
        · rcases hplace with hplace | hplace | hplace
          · rw [hb, hplace] at hmem
            cases hmem
          · exact absurd (hplace.symm.trans (hb.1 hmem)) hold
          · exact hplace.symm.trans (hb.1 hmem)
      · exact .inl
    · simpa [ha] using h a b

end Workforce.InvertedIndex
