import Mathlib.Tactic.Common

/-!
# Stores whose entries expire

A store maps keys to values that are there until a given time. An entry is not removed when its time
has come: it is no longer seen (`get`), and a write that needs its key to be free goes through
(`setNew`). What is seen at a time is therefore seen at any earlier one (`get_eq_none_of_le`).

Keys that are taken one after the other for a lifetime (`acquireAll`) are all free exactly when no
key is taken twice within it (`acquireAll_iff`).
-/

namespace Workforce.Expiring

open Function

structure Entry (V : Type*) where
  value : V
  expiresAt : ℕ

abbrev Store (K V : Type*) := K → Option (Entry V)

namespace Store

variable {K V : Type*}

def empty : Store K V := fun _ => none

/-- The value under a key, while it has not expired. -/
def get (s : Store K V) (now : ℕ) (k : K) : Option V :=
  match s k with
  | none => none
  | some e => if now < e.expiresAt then some e.value else none

variable {s : Store K V} {now : ℕ} {k k' : K}

@[simp] theorem empty_apply : (empty : Store K V) k = none := rfl

theorem get_eq_none_iff : s.get now k = none ↔ ∀ e, s k = some e → e.expiresAt ≤ now := by
  unfold get
  cases h : s k with
  | none => simp
  | some e => simp

theorem get_eq_some_iff {v : V} :
    s.get now k = some v ↔ ∃ t, s k = some ⟨v, t⟩ ∧ now < t := by
  unfold get
  cases h : s k with
  | none => simp
  | some e =>
    obtain ⟨w, t⟩ := e
    simp [and_comm, and_assoc]

theorem get_congr {s' : Store K V} (h : s' k = s k) : s'.get now k = s.get now k := by
  unfold get
  rw [h]

theorem get_eq_none_of_le {now' : ℕ} (hle : now ≤ now') (h : s.get now k = none) :
    s.get now' k = none := by
  rw [get_eq_none_iff] at h ⊢
  intro e he
  exact Nat.le_trans (h e he) hle

/-- What is seen was seen at every earlier time. -/
theorem get_of_le {now' : ℕ} {v : V} (hle : now ≤ now') (h : s.get now' k = some v) :
    s.get now k = some v := by
  obtain ⟨t, ht, hlt⟩ := get_eq_some_iff.1 h
  exact get_eq_some_iff.2 ⟨t, ht, Nat.lt_of_le_of_lt hle hlt⟩

variable [DecidableEq K]

def set (s : Store K V) (k : K) (v : V) (expiresAt : ℕ) : Store K V :=
  update s k (some ⟨v, expiresAt⟩)

def del (s : Store K V) (k : K) : Store K V := update s k none

/-- Set a key that is free. -/
def setNew (s : Store K V) (now : ℕ) (k : K) (v : V) (expiresAt : ℕ) : Store K V :=
  if (s.get now k).isNone then s.set k v expiresAt else s

@[simp] theorem set_same (v : V) (t : ℕ) : s.set k v t k = some ⟨v, t⟩ := update_self ..

@[simp] theorem set_of_ne (h : k' ≠ k) (v : V) (t : ℕ) : s.set k v t k' = s k' :=
  update_of_ne h ..

@[simp] theorem del_same : s.del k k = none := update_self ..

@[simp] theorem del_of_ne (h : k' ≠ k) : s.del k k' = s k' := update_of_ne h ..

/-- A key that is seen after a deletion is another one, and was seen before. -/
theorem get_del_eq_some_iff {v : V} :
    (s.del k).get now k' = some v ↔ k' ≠ k ∧ s.get now k' = some v := by
  by_cases h : k' = k
  · subst h
    simp [get]
  · rw [get_congr (del_of_ne h)]
    simp [h]

theorem get_set_of_ne (h : k' ≠ k) (v : V) (t : ℕ) : (s.set k v t).get now k' = s.get now k' :=
  get_congr (set_of_ne h v t)

theorem setNew_of_free (h : s.get now k = none) (v : V) (t : ℕ) :
    s.setNew now k v t = s.set k v t := by
  simp [setNew, h]

theorem get_set_eq_none_iff (v : V) (t : ℕ) :
    (s.set k v t).get now k' = none ↔ if k' = k then t ≤ now else s.get now k' = none := by
  split
  · rename_i hsame
    subst hsame
    rw [get_eq_none_iff]
    simp
  · rename_i hother
    rw [get_set_of_ne hother]

/-! ## Keys that are taken one after the other -/

/-- For each call, which takes a key at a time, whether the key was free. -/
def acquireAll (v : V) (lifetime : ℕ) : Store K V → List (K × ℕ) → List Bool
  | _, [] => []
  | s, (k, now) :: calls =>
    (s.get now k).isNone :: acquireAll v lifetime (s.setNew now k v (now + lifetime)) calls

theorem acquireAll_iff (v : V) (lifetime : ℕ) (calls : List (K × ℕ)) (s : Store K V) :
    (∀ b ∈ acquireAll v lifetime s calls, b = true) ↔
      (∀ call ∈ calls, s.get call.2 call.1 = none) ∧
      calls.Pairwise fun first second => second.1 = first.1 → first.2 + lifetime ≤ second.2 := by
  induction calls generalizing s with
  | nil => simp [acquireAll]
  | cons call calls ih =>
    obtain ⟨k, now⟩ := call
    rw [acquireAll, List.forall_mem_cons, List.forall_mem_cons, List.pairwise_cons,
      Option.isNone_iff_eq_none]
    by_cases hfree : s.get now k = none
    · rw [setNew_of_free hfree, ih, and_iff_right hfree, and_iff_right hfree, ← and_assoc,
        ← forall₂_and]
      refine and_congr_left fun _ => forall₂_congr fun call _ => ?_
      rw [get_set_eq_none_iff]
      split
      · rename_i hsame
        rw [hsame]
        refine ⟨fun hle => ⟨get_eq_none_of_le ?_ hfree, fun _ => hle⟩, fun h => h.2 rfl⟩
        exact Nat.le_trans (Nat.le_add_right _ _) hle
      · rename_i hother
        exact ⟨fun hnone => ⟨hnone, fun hsame => absurd hsame hother⟩, And.left⟩
    · exact iff_of_false (fun h => hfree h.1) fun h => hfree h.1.1

end Store

end Workforce.Expiring
