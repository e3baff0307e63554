import Mathlib.Data.Finset.Card

/-!
# Union-find with path halving

A partition of the elements of a finite set is kept as a forest of parent pointers. `find` follows
the pointers to the root and lets every other element it passes point to its grandparent; `union`
links two roots. `find` has fuel, and as much as there are elements is enough (`find_spec`).

`Forest` says that pointers stay in the set, do not run in circles, and lead to the representative
`rep`. After any sequence of unions two elements have the same representative exactly when the pairs
joined generate an equivalence between them (`exists_forest_unions`). `findPointers`,
`unionsPointers` and `rootsPointers` list the pointers between any two steps of a search: each of
them is a forest, so that a search ends wherever it begins (`find_halts`).
-/

namespace Workforce.UnionFind

open List Function

variable {α : Type*} [DecidableEq α]

/-- The root above an element, with the pointers as the search leaves them. -/
def find : ℕ → (α → α) → α → (α → α) × α
  | 0, parent, x => (parent, x)
  | fuel + 1, parent, x =>
    if parent x = x then (parent, x)
    else find fuel (update parent x (parent (parent x))) (parent (parent x))

/-- Links the roots of two elements. -/
def union (fuel : ℕ) (parent : α → α) (a b : α) : α → α :=
  let (parent, rootA) := find fuel parent a
  let (parent, rootB) := find fuel parent b
  if rootA = rootB then parent else update parent rootA rootB

/-- Joins the pairs of a list, one after another. -/
def unions (fuel : ℕ) (parent : α → α) (pairs : List (α × α)) : α → α :=
  pairs.foldl (fun parent pair => union fuel parent pair.1 pair.2) parent

/-- The elements of a list, each with its root. -/
def roots (fuel : ℕ) : (α → α) → List α → List (α × α)
  | _, [] => []
  | parent, x :: l =>
    let (parent, root) := find fuel parent x
    (root, x) :: roots fuel parent l

/-- The pointers form a forest on the set: each element leads to this representative, and the rank
grows on the way. -/
structure Forest (s : Finset α) (parent rep : α → α) (rank : α → ℕ) : Prop where
  mem : ∀ x ∈ s, parent x ∈ s
  rep_parent : ∀ x, rep (parent x) = rep x
  rep_root : ∀ x, parent x = x → rep x = x
  rank_lt : ∀ x, parent x ≠ x → rank x < rank (parent x)

omit [DecidableEq α] in
theorem Forest.initial (s : Finset α) : Forest s id id fun _ => 0 where
  mem _ hx := hx
  rep_parent _ := rfl
  rep_root _ _ := rfl
  rank_lt _ h := absurd rfl h

variable {s : Finset α} {parent rep : α → α} {rank : α → ℕ}

variable {x : α}

omit [DecidableEq α] in
theorem Forest.rank_lt_grandparent (h : Forest s parent rep rank) (hx : parent x ≠ x) :
    rank x < rank (parent (parent x)) := by
  by_cases hroot : parent (parent x) = parent x
  · rw [hroot]
    exact h.rank_lt x hx
  · exact (h.rank_lt x hx).trans (h.rank_lt _ hroot)

theorem Forest.halve (h : Forest s parent rep rank) (hx : parent x ≠ x) :
    Forest s (update parent x (parent (parent x))) rep rank := by
  have hlt := h.rank_lt_grandparent hx
  constructor
  · intro y hy
    by_cases hyx : y = x
    · subst hyx
      rw [update_self]
      exact h.mem _ (h.mem y hy)
    · rw [update_of_ne hyx]
      exact h.mem y hy
  · intro y
    by_cases hyx : y = x
    · subst hyx
      rw [update_self, h.rep_parent, h.rep_parent]
    · rw [update_of_ne hyx, h.rep_parent]
  · intro y hy
    by_cases hyx : y = x
    · subst hyx
      rw [update_self] at hy
      rw [hy] at hlt
      exact absurd hlt (lt_irrefl _)
    · rw [update_of_ne hyx] at hy
      exact h.rep_root y hy
  · intro y hy
    by_cases hyx : y = x
    · subst hyx
      rwa [update_self]
    · rw [update_of_ne hyx] at hy ⊢
      exact h.rank_lt y hy

omit [DecidableEq α] in
/-- The elements further up than the grandparent are fewer. -/
theorem Forest.card_above_lt (h : Forest s parent rep rank) (hx : x ∈ s) (hne : parent x ≠ x) :
    (s.filter fun y => rank (parent (parent x)) < rank y).card <
      (s.filter fun y => rank x < rank y).card := by
  have hlt := h.rank_lt_grandparent hne
  refine Finset.card_lt_card
    ((Finset.ssubset_iff_of_subset fun y hy => ?_).2 ⟨parent (parent x), ?_, by simp⟩)
  · rw [Finset.mem_filter] at hy ⊢
    exact ⟨hy.1, hlt.trans hy.2⟩
  · exact Finset.mem_filter.2 ⟨h.mem _ (h.mem x hx), hlt⟩

/-- `find` returns the representative and keeps the forest, when its fuel exceeds the number of
elements further up. -/
theorem find_of_fuel {fuel : ℕ} (h : Forest s parent rep rank) (hx : x ∈ s)
    (hfuel : (s.filter fun y => rank x < rank y).card < fuel) :
    Forest s (find fuel parent x).1 rep rank ∧ (find fuel parent x).2 = rep x := by
  induction fuel generalizing parent x with
  | zero => omega
  | succ fuel ih =>
    by_cases hroot : parent x = x
    · have hrep := h.rep_root x hroot
      simp only [find, hroot, if_true, hrep]
      exact ⟨h, trivial⟩
    · have hmem : parent (parent x) ∈ s := h.mem _ (h.mem x hx)
      have hcard := h.card_above_lt hx hroot
      have hstep := ih (h.halve hroot) hmem (by omega)
      rw [h.rep_parent, h.rep_parent] at hstep
      simpa only [find, hroot, if_false] using hstep

theorem find_spec (h : Forest s parent rep rank) (hx : x ∈ s) :
    Forest s (find s.card parent x).1 rep rank ∧ (find s.card parent x).2 = rep x := by
  refine find_of_fuel h hx (Finset.card_lt_card ?_)
  exact (Finset.ssubset_iff_of_subset (Finset.filter_subset _ _)).2 ⟨x, hx, by simp⟩

theorem roots_eq (h : Forest s parent rep rank) {l : List α} (hl : ∀ x ∈ l, x ∈ s) :
    roots s.card parent l = l.map fun x => (rep x, x) := by
  induction l generalizing parent with
  | nil => rfl
  | cons x l ih =>
    obtain ⟨hforest, hrep⟩ := find_spec h (hl x mem_cons_self)
    simp only [roots, map_cons, hrep]
    rw [ih hforest fun y hy => hl y (mem_cons_of_mem _ hy)]

/-- The elements that have the same root, for each root, are those with the same representative. -/
theorem groups_eq (h : Forest s parent rep rank) {l : List α} (hl : ∀ x ∈ l, x ∈ s) :
    (((roots s.card parent l).map (·.1)).dedup.map fun root =>
      ((roots s.card parent l).filter (·.1 = root)).map (·.2)) =
      (l.map rep).dedup.map fun root => l.filter fun x => rep x = root := by
  simp only [roots_eq h hl, filter_map, map_map, comp_def, map_id']

omit [DecidableEq α] in
/-- The representative of an element is a root. -/
theorem Forest.rep_mem (h : Forest s parent rep rank) (hx : x ∈ s) :
    rep x ∈ s ∧ parent (rep x) = rep x := by
  generalize hn : (s.filter fun y => rank x < rank y).card = n
  induction n using Nat.strong_induction_on generalizing x with
  | _ n ih =>
    by_cases hroot : parent x = x
    · rw [h.rep_root x hroot]
      exact ⟨hx, hroot⟩
    · have hcard := h.card_above_lt hx hroot
      have hstep := ih _ (hn ▸ hcard) (h.mem _ (h.mem x hx)) rfl
      rwa [h.rep_parent, h.rep_parent] at hstep

/-- The representatives after the class of `a` has joined that of `b`. -/
def joined (rep : α → α) (a b : α) (x : α) : α := if rep x = rep a then rep b else rep x

theorem joined_of_eq {a b : α} (h : rep a = rep b) : joined rep a b = rep := by
  funext x
  by_cases hx : rep x = rep a
  · simp [joined, hx, h]
  · simp [joined, hx]

theorem Forest.link (h : Forest s parent rep rank) {a b : α} (ha : a ∈ s) (hb : b ∈ s)
    (hne : rep a ≠ rep b) : Forest s (update parent (rep a) (rep b)) (joined rep a b)
      fun x => rank x + if rep x = rep b then rank (rep a) + 1 else 0 := by
  obtain ⟨-, hroot⟩ := h.rep_mem ha
  obtain ⟨hmem, hroot'⟩ := h.rep_mem hb
  have hra : rep (rep a) = rep a := h.rep_root _ hroot
  have hrb : rep (rep b) = rep b := h.rep_root _ hroot'
  constructor
  · intro x hx
    by_cases hxa : x = rep a
    · rw [hxa, update_self]
      exact hmem
    · rw [update_of_ne hxa]
      exact h.mem x hx
  · intro x
    by_cases hxa : x = rep a
    · rw [hxa, update_self]
      simp [joined, hra, hrb]
    · rw [update_of_ne hxa, joined, joined, h.rep_parent]
  · intro x hx
    by_cases hxa : x = rep a
    · rw [hxa, update_self] at hx
      exact absurd hx.symm hne
    · rw [update_of_ne hxa] at hx
      have hrep := h.rep_root x hx
      simp [joined, hrep, hxa]
  · intro x hx
    by_cases hxa : x = rep a
    · rw [hxa, update_self]
      simp only [hra, hrb, hne, if_true, if_false]
      omega
    · rw [update_of_ne hxa] at hx ⊢
      rw [h.rep_parent]
      exact Nat.add_lt_add_right (h.rank_lt x hx) _

theorem Forest.union (h : Forest s parent rep rank) {a b : α} (ha : a ∈ s) (hb : b ∈ s) :
    ∃ rank', Forest s (union s.card parent a b) (joined rep a b) rank' := by
  obtain ⟨hfa, hra⟩ := find_spec h ha
  obtain ⟨hf, hrb⟩ := find_spec hfa hb
  by_cases heq : rep a = rep b
  · rw [joined_of_eq heq]
    simp only [UnionFind.union, hra, hrb, heq, if_true]
    exact ⟨rank, hf⟩
  · simp only [UnionFind.union, hra, hrb, heq, if_false]
    exact ⟨_, hf.link ha hb heq⟩

/-- Joining two classes adds one pair to what generates the equivalence. -/
theorem joined_eq_iff {r : α → α → Prop} (h : ∀ x y, rep x = rep y ↔ Relation.EqvGen r x y)
    (a b x y : α) : joined rep a b x = joined rep a b y ↔
      Relation.EqvGen (fun x y => r x y ∨ x = a ∧ y = b) x y := by
  have hold : ∀ {x y}, rep x = rep y → Relation.EqvGen (fun x y => r x y ∨ x = a ∧ y = b) x y :=
    fun hxy => ((h _ _).1 hxy).mono fun _ _ => Or.inl
  have hnew : Relation.EqvGen (fun x y => r x y ∨ x = a ∧ y = b) a b := .rel _ _ (.inr ⟨rfl, rfl⟩)
  constructor
  · intro heq
    unfold joined at heq
    by_cases hx : rep x = rep a
    · by_cases hy : rep y = rep a
      · exact hold (hx.trans hy.symm)
      · rw [if_pos hx, if_neg hy] at heq
        exact .trans _ _ _ (hold hx) (.trans _ _ _ hnew (hold heq))
    · by_cases hy : rep y = rep a
      · rw [if_neg hx, if_pos hy] at heq
        exact .trans _ _ _ (hold heq) (.trans _ _ _ (.symm _ _ hnew) (hold hy.symm))
      · rw [if_neg hx, if_neg hy] at heq
        exact hold heq
  · intro hgen
    induction hgen with
    | rel x y hxy =>
      rcases hxy with hxy | ⟨rfl, rfl⟩
      · rw [joined, joined, (h x y).2 (.rel _ _ hxy)]
      · simp [joined]
    | refl x => rfl
    | symm x y _ ih => exact ih.symm
    | trans x y z _ _ ih ih' => exact ih.trans ih'

/-- After joining the pairs of a list, two elements have the same representative exactly when the
pairs generate an equivalence between them. -/
theorem exists_forest_unions {pairs : List (α × α)} (hmem : ∀ p ∈ pairs, p.1 ∈ s ∧ p.2 ∈ s) :
    ∃ rep rank, Forest s (unions s.card id pairs) rep rank ∧
      ∀ x y, rep x = rep y ↔ Relation.EqvGen (fun x y => (x, y) ∈ pairs) x y := by
  induction pairs using reverseRecOn with
  | nil =>
    refine ⟨id, _, Forest.initial s, fun x y => ⟨?_, fun hgen => ?_⟩⟩
    · rintro rfl
      exact .refl _
    · induction hgen with
      | rel x y hxy => cases hxy
      | refl x => rfl
      | symm x y _ ih => exact ih.symm
      | trans x y z _ _ ih ih' => exact ih.trans ih'
  | append_singleton pairs pair ih =>
    obtain ⟨rep, rank, hforest, hiff⟩ := ih fun p hp => hmem p (mem_append_left _ hp)
    obtain ⟨ha, hb⟩ := hmem pair (mem_append_right _ mem_cons_self)
    obtain ⟨rank', hforest'⟩ := hforest.union ha hb
    refine ⟨joined rep pair.1 pair.2, rank', ?_, fun x y => ?_⟩
    · rwa [unions, foldl_append]
    · rw [joined_eq_iff hiff]
      have hpairs : (fun x y => (x, y) ∈ pairs ++ [pair]) =
          fun x y => (x, y) ∈ pairs ∨ x = pair.1 ∧ y = pair.2 := by
        funext x y
        simp [Prod.ext_iff]
      rw [hpairs]

/-! ## Every step on the way -/

/-- The pointers after each round of a search. -/
def findPointers (fuel : ℕ) (parent : α → α) (x : α) : List (α → α) :=
  (range (fuel + 1)).map fun rounds => (find rounds parent x).1

/-- The pointers after each round of the searches that join the pairs of a list, and after each
pair. -/
def unionsPointers (fuel : ℕ) : (α → α) → List (α × α) → List (α → α)
  | parent, [] => [parent]
  | parent, pair :: pairs =>
    findPointers fuel parent pair.1 ++ findPointers fuel (find fuel parent pair.1).1 pair.2 ++
      unionsPointers fuel (union fuel parent pair.1 pair.2) pairs

/-- The pointers after each round of the searches for the roots of a list. -/
def rootsPointers (fuel : ℕ) : (α → α) → List α → List (α → α)
  | parent, [] => [parent]
  | parent, x :: l => findPointers fuel parent x ++ rootsPointers fuel (find fuel parent x).1 l

/-- However many rounds a search takes, it keeps the forest. -/
theorem Forest.find (h : Forest s parent rep rank) (rounds : ℕ) (x : α) :
    Forest s (find rounds parent x).1 rep rank := by
  induction rounds generalizing parent x with
  | zero => exact h
  | succ rounds ih =>
    by_cases hroot : parent x = x
    · simpa only [UnionFind.find, hroot, if_true] using h
    · simpa only [UnionFind.find, hroot, if_false] using ih (h.halve hroot) _

/-- The search ends: after some rounds it stands at a root. -/
def Halts (parent : α → α) (x : α) : Prop :=
  ∃ rounds, (find rounds parent x).1 (find rounds parent x).2 = (find rounds parent x).2

/-- It takes as many rounds as there are elements at most. -/
theorem find_halts (h : Forest s parent rep rank) (hx : x ∈ s) : Halts parent x := by
  obtain ⟨hforest, hrep⟩ := find_spec h hx
  refine ⟨s.card, ?_⟩
  rw [hrep]
  exact (hforest.rep_mem hx).2

variable {pointers : α → α}

theorem forest_of_mem_findPointers (h : Forest s parent rep rank) {fuel : ℕ}
    (hp : pointers ∈ findPointers fuel parent x) :
    Forest s pointers rep rank := by
  obtain ⟨rounds, -, rfl⟩ := mem_map.1 hp
  exact h.find rounds x

theorem forest_of_mem_unionsPointers (h : Forest s parent rep rank) {pairs : List (α × α)}
    (hmem : ∀ p ∈ pairs, p.1 ∈ s ∧ p.2 ∈ s) (hp : pointers ∈ unionsPointers s.card parent pairs) :
    ∃ rep rank, Forest s pointers rep rank := by
  induction pairs generalizing parent rep rank with
  | nil =>
    rw [mem_singleton.1 hp]
    exact ⟨rep, rank, h⟩
  | cons pair pairs ih =>
    obtain ⟨ha, hb⟩ := hmem pair mem_cons_self
    rcases mem_append.1 hp with hp | hp
    · rcases mem_append.1 hp with hp | hp
      · exact ⟨rep, rank, forest_of_mem_findPointers h hp⟩
      · exact ⟨rep, rank, forest_of_mem_findPointers (h.find _ _) hp⟩
    · obtain ⟨rank', hunion⟩ := h.union ha hb
      exact ih hunion (fun p hp => hmem p (mem_cons_of_mem _ hp)) hp

theorem forest_of_mem_rootsPointers (h : Forest s parent rep rank) {fuel : ℕ} {l : List α}
    (hp : pointers ∈ rootsPointers fuel parent l) :
    Forest s pointers rep rank := by
  induction l generalizing parent with
  | nil =>
    rw [mem_singleton.1 hp]
    exact h
  | cons x l ih =>
    rcases mem_append.1 hp with hp | hp
    · exact forest_of_mem_findPointers h hp
    · exact ih (h.find _ _) hp

end Workforce.UnionFind
