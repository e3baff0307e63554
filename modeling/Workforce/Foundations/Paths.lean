import Mathlib.Data.List.Infix
import Mathlib.Data.Set.Image

/-!
# Forests with materialised paths

The rows of a table have a key, may name the key of a parent, and store a path: the keys from a root
down to the row. The paths are consistent when each is the path of the parent followed by the key of
the row itself.

* `Consistent.acyclic`: following the parents never returns to a row.
* `Consistent.prefix_iff`: a path extends another exactly when its row is below, or is, the other.
* `Consistent.move`: a row is hung below another one that is not under it, and the paths below it
  get the new prefix.
* `acyclic_redirect_iff`: without paths, when an edge may be redirected.
-/

namespace Workforce.Paths

open Relation List

variable {ρ κ : Type*}

/-- The columns of a table of rows. -/
structure Columns (ρ κ : Type*) where
  key : ρ → κ
  parent : ρ → Option κ
  path : ρ → List κ

variable (c : Columns ρ κ) (S : Set ρ)

/-- The second row is the parent of the first. -/
def Edge (a b : ρ) : Prop := a ∈ S ∧ b ∈ S ∧ c.parent a = some (c.key b)

/-- The row is the other one, or is below it. -/
def Below : ρ → ρ → Prop := ReflTransGen (Edge c S)

structure Consistent : Prop where
  key_inj : ∀ a ∈ S, ∀ b ∈ S, c.key a = c.key b → a = b
  root : ∀ a ∈ S, c.parent a = none → c.path a = [c.key a]
  child : ∀ a ∈ S, ∀ k, c.parent a = some k →
    ∃ b ∈ S, c.key b = k ∧ c.path a = c.path b ++ [c.key a]

variable {c S} {a b : ρ}

theorem Edge.left (h : Edge c S a b) : a ∈ S := h.1

theorem Edge.right (h : Edge c S a b) : b ∈ S := h.2.1

theorem Below.mem (h : Below c S a b) (ha : a ∈ S) : b ∈ S := by
  induction h with
  | refl => exact ha
  | tail _ hedge _ => exact hedge.right

theorem eq_of_prefix_singleton {p : List κ} {k : κ} (h : p <+: [k]) (hp : p ≠ []) : p = [k] := by
  rcases prefix_cons_iff.1 h with hnil | ⟨t, rfl, ht⟩
  · exact absurd hnil hp
  · rw [prefix_nil.1 ht]

namespace Consistent

variable (h : Consistent c S)

include h

theorem exists_path (ha : a ∈ S) : ∃ p, c.path a = p ++ [c.key a] := by
  cases hp : c.parent a with
  | none => exact ⟨[], h.root a ha hp⟩
  | some k =>
    obtain ⟨b, -, -, hpath⟩ := h.child a ha k hp
    exact ⟨c.path b, hpath⟩

theorem path_ne_nil (ha : a ∈ S) : c.path a ≠ [] := by
  obtain ⟨p, hp⟩ := h.exists_path ha
  simp [hp]

theorem key_eq_of_path (ha : a ∈ S) {p : List κ} {k : κ} (hpath : c.path a = p ++ [k]) :
    c.key a = k := by
  obtain ⟨q, hq⟩ := h.exists_path ha
  exact (append_singleton_inj.1 (hq.symm.trans hpath)).2

theorem path_of_edge (hedge : Edge c S a b) : c.path a = c.path b ++ [c.key a] := by
  obtain ⟨b', hb', hkey, hpath⟩ := h.child a hedge.left _ hedge.2.2
  rw [h.key_inj b' hb' b hedge.right hkey] at hpath
  exact hpath

theorem eq_of_path (ha : a ∈ S) (hb : b ∈ S) (hpath : c.path a = c.path b) : a = b := by
  obtain ⟨p, hp⟩ := h.exists_path hb
  exact h.key_inj a ha b hb (h.key_eq_of_path ha (hpath.trans hp))

theorem prefix_of_below (hbelow : Below c S a b) : c.path b <+: c.path a := by
  induction hbelow using ReflTransGen.head_induction_on with
  | refl => exact prefix_refl _
  | head hedge _ ih => exact ih.trans ⟨_, (h.path_of_edge hedge).symm⟩

/-- Every part of a path, from the root on, is the path of a row above. -/
theorem exists_below_of_prefix {p : List κ} (hp : p ≠ []) (ha : a ∈ S) (hpre : p <+: c.path a) :
    ∃ b ∈ S, c.path b = p ∧ Below c S a b := by
  -- by induction on the path: the last key is the row's own, the rest is the parent's path
  induction hn : (c.path a).length generalizing a with
  | zero => exact absurd (length_eq_zero_iff.1 hn) (h.path_ne_nil ha)
  | succ n ih =>
    by_cases heq : p = c.path a
    · exact ⟨a, ha, heq.symm, .refl⟩
    · cases hparent : c.parent a with
      | none =>
        rw [h.root a ha hparent] at hpre heq
        exact absurd (eq_of_prefix_singleton hpre hp) heq
      | some k =>
        obtain ⟨b, hb, hkey, hpath⟩ := h.child a ha k hparent
        have hedge : Edge c S a b := ⟨ha, hb, hparent.trans (congrArg some hkey.symm)⟩
        have hpre' : p <+: c.path b := by
          rw [hpath] at hpre heq
          exact (prefix_concat_iff.1 hpre).resolve_left heq
        have hlength : (c.path b).length = n := by
          rw [hpath, length_append, length_singleton] at hn
          omega
        obtain ⟨b', hb', hpath', hbelow⟩ := ih hb hpre' hlength
        exact ⟨b', hb', hpath', .head hedge hbelow⟩

/-- A path extends another exactly when its row is the other one or is below it. -/
theorem prefix_iff (ha : a ∈ S) (hb : b ∈ S) : c.path b <+: c.path a ↔ Below c S a b := by
  refine ⟨fun hpre => ?_, h.prefix_of_below⟩
  obtain ⟨b', hb', hpath, hbelow⟩ := h.exists_below_of_prefix (h.path_ne_nil hb) ha hpre
  rwa [← h.eq_of_path hb' hb hpath]

theorem length_lt_of_transGen (htrans : TransGen (Edge c S) a b) :
    (c.path b).length < (c.path a).length := by
  have hedge : ∀ {a b}, Edge c S a b → (c.path b).length < (c.path a).length := by
    intro a b hedge
    rw [h.path_of_edge hedge, length_append, length_singleton]
    omega
  induction htrans with
  | single hab => exact hedge hab
  | tail _ hbc ih => exact (hedge hbc).trans ih

/-- Following the parents never returns to a row. -/
theorem acyclic (a : ρ) : ¬ TransGen (Edge c S) a a :=
  fun htrans => (h.length_lt_of_transGen htrans).false

end Consistent

/-! ## A new row -/

/-- A row with a new key, whose path is made from that of its parent. -/
theorem Consistent.insert (h : Consistent c S) {x : ρ} (hkey : ∀ a ∈ S, c.key a ≠ c.key x)
    (hpath : c.parent x = none ∧ c.path x = [c.key x] ∨
      ∃ a ∈ S, c.parent x = some (c.key a) ∧ c.path x = c.path a ++ [c.key x]) :
    Consistent c (S ∪ {x}) where
  key_inj := by
    rintro a (ha | rfl) b (hb | rfl) heq
    · exact h.key_inj a ha b hb heq
    · exact absurd heq (hkey a ha)
    · exact absurd heq.symm (hkey b hb)
    · rfl
  root := by
    rintro a (ha | rfl) hnone
    · exact h.root a ha hnone
    · rcases hpath with ⟨-, hpath⟩ | ⟨b, -, hparent, -⟩
      · exact hpath
      · rw [hnone] at hparent
        cases hparent
  child := by
    rintro a (ha | rfl) k hk
    · obtain ⟨b, hb, hkey', hpath'⟩ := h.child a ha k hk
      exact ⟨b, .inl hb, hkey', hpath'⟩
    · rcases hpath with ⟨hnone, -⟩ | ⟨b, hb, hparent, hpath⟩
      · rw [hnone] at hk
        cases hk
      · exact ⟨b, .inl hb, Option.some.inj (hparent.symm.trans hk), hpath⟩

/-! ## A row is moved -/

/-- A path with another prefix. -/
def replacePrefix (old new p : List κ) : List κ := new ++ p.drop old.length

theorem replacePrefix_self (old new : List κ) : replacePrefix old new old = new := by
  simp [replacePrefix]

theorem replacePrefix_concat {old new p : List κ} (h : old <+: p) (k : κ) :
    replacePrefix old new (p ++ [k]) = replacePrefix old new p ++ [k] := by
  rw [replacePrefix, replacePrefix, drop_append_of_le_length h.length_le, append_assoc]

/-- Where a row is moved to: it becomes a root, or hangs below a row that is not under it. -/
def Place (c : Columns ρ κ) (S : Set ρ) (x : ρ) (parent : Option κ) (path : List κ) : Prop :=
  parent = none ∧ path = [c.key x] ∨
    ∃ a ∈ S, parent = some (c.key a) ∧ ¬ c.path x <+: c.path a ∧ path = c.path a ++ [c.key x]

/-- What a move does to the rows. -/
structure Moves (c : Columns ρ κ) (S : Set ρ) (x : ρ) (parent : Option κ) (path : List κ)
    (f : ρ → ρ) : Prop where
  key : ∀ r ∈ S, c.key (f r) = c.key r
  parent_self : c.parent (f x) = parent
  parent_other : ∀ r ∈ S, r ≠ x → c.parent (f r) = c.parent r
  path_self : c.path (f x) = path
  path_under : ∀ r ∈ S, r ≠ x → c.path x <+: c.path r →
    c.path (f r) = replacePrefix (c.path x) path (c.path r)
  path_other : ∀ r ∈ S, ¬ c.path x <+: c.path r → c.path (f r) = c.path r

section Move

variable {x : ρ} {parent : Option κ} {path : List κ} {f : ρ → ρ}

/-- The path of a row that is under the moved one, that one included. -/
theorem Moves.path_prefix (hf : Moves c S x parent path f) {r : ρ} (hr : r ∈ S)
    (hunder : c.path x <+: c.path r) :
    c.path (f r) = replacePrefix (c.path x) path (c.path r) := by
  by_cases hrx : r = x
  · rw [hrx, hf.path_self, replacePrefix_self]
  · exact hf.path_under r hr hrx hunder

theorem Consistent.move (h : Consistent c S) (hx : x ∈ S) (hplace : Place c S x parent path)
    (hf : Moves c S x parent path f) : Consistent c (Set.image f S) where
  key_inj := by
    rintro _ ⟨a, ha, rfl⟩ _ ⟨b, hb, rfl⟩ heq
    rw [hf.key a ha, hf.key b hb] at heq
    rw [h.key_inj a ha b hb heq]
  root := by
    rintro _ ⟨a, ha, rfl⟩ hnone
    rw [hf.key a ha]
    by_cases hax : a = x
    · rw [hax, hf.parent_self] at hnone
      rcases hplace with ⟨-, hpath⟩ | ⟨b, -, hparent, -⟩
      · rw [hax, hf.path_self, hpath]
      · rw [hnone] at hparent
        cases hparent
    · rw [hf.parent_other a ha hax] at hnone
      have hroot := h.root a ha hnone
      -- another root is not under the moved row
      rw [hf.path_other a ha, hroot]
      rw [hroot]
      intro hunder
      have hself := eq_of_prefix_singleton hunder (h.path_ne_nil hx)
      exact hax (h.eq_of_path ha hx (hroot.trans hself.symm))
  child := by
    rintro _ ⟨a, ha, rfl⟩ k hk
    rw [hf.key a ha]
    by_cases hax : a = x
    · rw [hax] at hk ⊢
      rw [hf.parent_self] at hk
      rcases hplace with ⟨hnone, -⟩ | ⟨b, hb, hparent, hunder, hpath⟩
      · rw [hnone] at hk
        cases hk
      · refine ⟨f b, Set.mem_image_of_mem f hb, ?_, ?_⟩
        · rw [hf.key b hb]
          exact Option.some.inj (hparent.symm.trans hk)
        · rw [hf.path_self, hpath, hf.path_other b hb hunder]
    · rw [hf.parent_other a ha hax] at hk
      obtain ⟨b, hb, hkey, hpath⟩ := h.child a ha k hk
      refine ⟨f b, Set.mem_image_of_mem f hb, (hf.key b hb).trans hkey, ?_⟩
      by_cases hunder : c.path x <+: c.path b
      · rw [hf.path_prefix hb hunder, hf.path_prefix ha (hpath ▸ hunder.trans ⟨_, rfl⟩), hpath,
          replacePrefix_concat hunder]
      · -- then the row is not under the moved one either
        have hunder' : ¬ c.path x <+: c.path a := by
          rw [hpath, prefix_concat_iff]
          rintro (hself | hb')
          · exact hax (h.eq_of_path ha hx (hpath.trans hself.symm))
          · exact hunder hb'
        rw [hf.path_other a ha hunder', hf.path_other b hb hunder, hpath]

theorem Place.exists_path (hplace : Place c S x parent path) : ∃ p, path = p ++ [c.key x] := by
  rcases hplace with ⟨-, hpath⟩ | ⟨a, -, -, -, hpath⟩
  · exact ⟨[], hpath⟩
  · exact ⟨c.path a, hpath⟩

/-- A new place above a row is the old one: the row there has the key of the moved row. -/
theorem Consistent.path_eq_of_place (h : Consistent c S) (hx : x ∈ S)
    (hplace : Place c S x parent path) {u : ρ} (hu : u ∈ S) (hle : path <+: c.path u) :
    c.path x = path := by
  obtain ⟨p, hp⟩ := hplace.exists_path
  obtain ⟨b, hb, hpath, -⟩ := h.exists_below_of_prefix (by simp [hp]) hu hle
  have hkey : c.key b = c.key x := h.key_eq_of_path hb (hpath.trans hp)
  rwa [h.key_inj b hb x hx hkey] at hpath

/-- No path goes through the old place of a moved row any more. -/
theorem Consistent.not_prefix_append (h : Consistent c S) (hx : x ∈ S)
    (hplace : Place c S x parent path) (hdiff : c.path x ≠ path) (rest : List κ) :
    ¬ c.path x <+: path ++ rest := by
  intro hunder
  rcases prefix_or_prefix_of_prefix hunder (prefix_append path rest) with hle | hle
  · rcases hplace with ⟨-, hpath⟩ | ⟨a, -, -, hno, hpath⟩
    · rw [hpath] at hle hdiff
      exact hdiff (eq_of_prefix_singleton hle (h.path_ne_nil hx))
    · rw [hpath] at hle hdiff
      exact hno ((prefix_concat_iff.1 hle).resolve_left hdiff)
  · exact hdiff (h.path_eq_of_place hx hplace hx hle)

end Move

/-! ## Two rows are moved -/

theorem replacePrefix_eq_self {old p : List κ} (h : old <+: p) : replacePrefix old old p = p :=
  (prefix_iff_eq_append.1 h)

section TwoMoves

variable {x y : ρ} {parent parent' : Option κ} {path path' : List κ} {f : ρ → ρ}

/-- No row gets under another one by the move of a third row, unless that one goes there. -/
theorem Moves.prefix_of_prefix (h : Consistent c S) (hx : x ∈ S) (hy : y ∈ S)
    (hkey : c.key x ≠ c.key y) (hplace : Place c S y parent' path')
    (hf : Moves c S y parent' path' f)
    (hsep : ∀ b ∈ S, parent' = some (c.key b) → c.path x <+: c.path b → c.path x <+: c.path y)
    {u : ρ} (hu : u ∈ S) (hpre : c.path x <+: c.path (f u)) : c.path x <+: c.path u := by
  by_cases hunder : c.path y <+: c.path u
  case neg => rwa [hf.path_other u hu hunder] at hpre
  rw [hf.path_prefix hu hunder, replacePrefix] at hpre
  rcases prefix_or_prefix_of_prefix hpre (prefix_append path' _) with hle | hle
  · rcases hplace with ⟨-, hpath⟩ | ⟨b, hb, hparent, -, hpath⟩
    · rw [hpath] at hle
      have heq : c.path x = [] ++ [c.key y] := eq_of_prefix_singleton hle (h.path_ne_nil hx)
      exact absurd (h.key_eq_of_path hx heq) hkey
    · rw [hpath, prefix_concat_iff] at hle
      rcases hle with heq | hle
      · exact absurd (h.key_eq_of_path hx heq) hkey
      · exact (hsep b hb hparent hle).trans hunder
  · -- the new place would be above the first row, so it is the old one
    rw [← h.path_eq_of_place hy hplace hx hle] at hpre
    rwa [← replacePrefix_eq_self hunder]

/-- The place for a row is still one after another row has moved, unless its parent has moved along
with that. -/
theorem Place.moved (hplace : Place c S x parent path) (hf : Moves c S y parent' path' f)
    (hsep : ∀ a ∈ S, parent = some (c.key a) → c.path y <+: c.path a → c.path y <+: c.path x)
    (hfix : c.path y <+: c.path x → c.path y = path') : Place c (Set.image f S) x parent path := by
  rcases hplace with hroot | ⟨a, ha, hparent, hunder, hpath⟩
  · exact .inl hroot
  · have hsame : c.path (f a) = c.path a := by
      by_cases hmoved : c.path y <+: c.path a
      · rw [hf.path_prefix ha hmoved, ← hfix (hsep a ha hparent hmoved),
          replacePrefix_eq_self hmoved]
      · exact hf.path_other a ha hmoved
    refine .inr ⟨f a, Set.mem_image_of_mem f ha, ?_, ?_, ?_⟩
    · rw [hf.key a ha, hparent]
    · rwa [hsame]
    · rw [hsame, hpath]

end TwoMoves

/-! ## An edge is redirected -/

section Redirect

variable {α : Type*} {r : α → α → Prop} {x y : α}

/-- The edges, with one that leads to `y` in the place of those of `x`. -/
def Redirect (r : α → α → Prop) (x y a b : α) : Prop := a ≠ x ∧ r a b ∨ a = x ∧ b = y

/-- A way to `x` needs no edge of `x`. -/
theorem reflTransGen_redirect {a : α} (h : ReflTransGen r a x) :
    ReflTransGen (Redirect r x y) a x := by
  induction h using ReflTransGen.head_induction_on with
  | refl => exact .refl
  | @head a c hedge _ ih =>
    by_cases hax : a = x
    · rw [hax]
    · exact .head (.inl ⟨hax, hedge⟩) ih

/-- A way along the new edges is one along the old, or takes the new one when `y` does not lead
back to `x`. -/
theorem reflTransGen_of_redirect (hno : ¬ ReflTransGen r y x) {a b : α}
    (h : ReflTransGen (Redirect r x y) a b) :
    ReflTransGen r a b ∨ ReflTransGen r a x ∧ ReflTransGen r y b := by
  induction h with
  | refl => exact .inl .refl
  | tail _ hedge ih =>
    rcases hedge with ⟨-, hedge⟩ | ⟨rfl, rfl⟩
    · rcases ih with hab | ⟨hax, hyb⟩
      · exact .inl (hab.tail hedge)
      · exact .inr ⟨hax, hyb.tail hedge⟩
    · rcases ih with hax | ⟨-, hyx⟩
      · exact .inr ⟨hax, .refl⟩
      · exact absurd hyx hno

/-- The edge may be redirected to what does not lead back. -/
theorem acyclic_redirect_iff (hr : ∀ a, ¬ TransGen r a a) :
    (∀ a, ¬ TransGen (Redirect r x y) a a) ↔ ¬ ReflTransGen r y x := by
  constructor
  · intro hacyclic hyx
    exact hacyclic x (.head' (.inr ⟨rfl, rfl⟩) (reflTransGen_redirect hyx))
  · intro hno a hcycle
    obtain ⟨c, hedge, hca⟩ := TransGen.head'_iff.1 hcycle
    rcases hedge with ⟨-, hedge⟩ | ⟨rfl, rfl⟩
    · rcases reflTransGen_of_redirect hno hca with hca | ⟨hcx, hya⟩
      · exact hr a (.head' hedge hca)
      · exact hno ((hya.tail hedge).trans hcx)
    · rcases reflTransGen_of_redirect hno hca with hyx | ⟨hyx, -⟩
      · exact hno hyx
      · exact hno hyx

end Redirect

end Workforce.Paths
