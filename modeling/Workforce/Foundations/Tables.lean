import Mathlib.Algebra.GroupWithZero.Nat
import Mathlib.Algebra.Order.BigOperators.Group.Finset
import Mathlib.Algebra.Ring.Int.Defs

/-!
# Tables with a key

A database table is a list of rows. `modify key k f rows` is `UPDATE … WHERE key = k`: the rows
whose key is `k` are replaced by their image under `f`, every other row is kept. Statements about
tables are statements about the rows they hold, so the lemmas say what the rows with a given key
are after an update or an insert, and how many rows satisfy a test.
-/

namespace Workforce.Tables

open List

variable {ρ κ : Type*} [DecidableEq κ] (key : ρ → κ)

/-- The rows with key `k` are rewritten by `f`. -/
def modify (k : κ) (f : ρ → ρ) (rows : List ρ) : List ρ :=
  rows.map fun r => if key r = k then f r else r

/-- The first row with key `k`. -/
def lookup (k : κ) (rows : List ρ) : Option ρ := rows.find? fun r => key r = k

/-- A column of an entity that is saved: it is written when it differs from the loaded one. -/
def saveColumn {α : Type*} [DecidableEq α] (loaded saved current : α) : α :=
  if saved = loaded then current else saved

variable {key}

theorem forall_mem_none {α : Type*} {P : α → Prop} : ∀ a ∈ (none : Option α), P a :=
  fun a h => absurd h (Option.not_mem_none a)

/-- The elements after an insertion. -/
theorem mem_concat {α : Type*} {l : List α} {a b : α} : b ∈ l ++ [a] ↔ b ∈ l ∨ b = a := by
  rw [mem_append, mem_singleton]

variable {k : κ} {rows : List ρ} {r : ρ}

theorem mem_of_lookup (h : lookup key k rows = some r) :
    r ∈ rows ∧ key r = k :=
  ⟨mem_of_find?_eq_some h, by simpa using find?_some h⟩

variable {f : ρ → ρ}

theorem mem_modify :
    r ∈ modify key k f rows ↔
      (∃ r₀ ∈ rows, key r₀ = k ∧ r = f r₀) ∨ (r ∈ rows ∧ key r ≠ k) := by
  simp only [modify, mem_map]
  constructor
  · rintro ⟨r₀, hr₀, rfl⟩
    by_cases hk : key r₀ = k
    · exact .inl ⟨r₀, hr₀, hk, by simp [hk]⟩
    · exact .inr ⟨by simpa [hk] using hr₀, by simp [hk]⟩
  · rintro (⟨r₀, hr₀, hk, rfl⟩ | ⟨hr, hk⟩)
    · exact ⟨r₀, hr₀, by simp [hk]⟩
    · exact ⟨r, hr, by simp [hk]⟩

/-- An update keeps the list of what it keeps in every row. -/
theorem map_modify {β : Type*} {g : ρ → β} (hg : ∀ r, g (f r) = g r) (rows : List ρ) :
    (modify key k f rows).map g = rows.map g := by
  simp only [modify, map_map]
  apply map_congr_left
  intro r _
  by_cases hk : key r = k <;> simp [hk, hg]

/-- An update that keeps the key keeps the list of keys. -/
theorem map_key_modify (hf : ∀ r, key (f r) = key r) (rows : List ρ) :
    (modify key k f rows).map key = rows.map key :=
  map_modify hf rows

omit [DecidableEq κ] in
/-- In a table whose keys are distinct, two rows with one key are one row. -/
theorem eq_of_key_eq (hn : (rows.map key).Nodup) {r r' : ρ} (hr : r ∈ rows) (hr' : r' ∈ rows)
    (h : key r = key r') : r = r' :=
  inj_on_of_nodup_map hn hr hr' h

/-- With distinct keys, `lookup` finds the row that has the key. -/
theorem lookup_eq_some (hn : (rows.map key).Nodup) (hr : r ∈ rows) :
    lookup key (key r) rows = some r := by
  obtain ⟨r', hr'⟩ : ∃ r', lookup key (key r) rows = some r' := by
    rw [← Option.isSome_iff_exists, lookup, find?_isSome]
    exact ⟨r, hr, by simp⟩
  obtain ⟨hm, hk⟩ := mem_of_lookup hr'
  rw [hr', eq_of_key_eq hn hm hr hk]

theorem lookup_modify {k k' : κ} (hf : ∀ r, key (f r) = key r) (rows : List ρ) :
    lookup key k' (modify key k f rows) =
      if k' = k then (lookup key k' rows).map f else lookup key k' rows := by
  induction rows with
  | nil => simp [lookup, modify]
  | cons r rows ih =>
    simp only [lookup, modify, map_cons, find?_cons] at ih ⊢
    by_cases hr : key r = k
    · by_cases hk : k' = k
      · subst hk
        simp [hr, hf]
      · have hk' : k ≠ k' := fun h => hk h.symm
        simp only [hr, if_true, hf, hk', decide_false, if_neg hk] at ih ⊢
        exact ih
    · by_cases hk : key r = k'
      · have hk' : k' ≠ k := fun h => hr (hk.trans h)
        simp [hk, hk']
      · simp only [if_neg hr, hk, decide_false]
        exact ih

theorem lookup_append_singleton (hr : ∀ r' ∈ rows, key r' ≠ key r) :
    lookup key k (rows ++ [r]) = if k = key r then some r else lookup key k rows := by
  simp only [lookup, find?_append, find?_cons, find?_nil]
  by_cases hk : k = key r
  · subst hk
    have : rows.find? (fun r' => key r' = key r) = none := by
      rw [find?_eq_none]
      intro r' hr'
      simpa using hr r' hr'
    simp [this]
  · have hk' : key r ≠ k := fun h => hk h.symm
    simp [hk, hk']

omit [DecidableEq κ] in
/-- A row with a fresh key keeps the keys distinct. -/
theorem nodup_append_singleton (hn : (rows.map key).Nodup) (hr : ∀ r' ∈ rows, key r' ≠ key r) :
    ((rows ++ [r]).map key).Nodup := by
  rw [map_append, nodup_append]
  refine ⟨hn, nodup_singleton _, ?_⟩
  intro a ha b hb hab
  obtain ⟨r', hr', rfl⟩ := mem_map.1 ha
  obtain rfl := mem_singleton.1 hb
  exact hr r' hr' hab

theorem lookup_isSome :
    (lookup key k rows).isSome ↔ k ∈ rows.map key := by
  simp [lookup, find?_isSome]

omit [DecidableEq κ] in
/-- Rows picked by a condition that determines the key: there is at most one. -/
theorem length_filter_le_one (hn : (rows.map key).Nodup) {p : ρ → Bool}
    (h : ∀ r ∈ rows, ∀ r' ∈ rows, p r → p r' → key r = key r') : (rows.filter p).length ≤ 1 := by
  have hn' : ((rows.filter p).map key).Nodup := hn.sublist (filter_sublist.map _)
  match hf : rows.filter p with
  | [] => simp
  | [_] => simp
  | a :: b :: l =>
    have ha : a ∈ rows.filter p := by simp [hf]
    have hb : b ∈ rows.filter p := by simp [hf]
    rw [mem_filter] at ha hb
    have hab := h a ha.1 b hb.1 ha.2 hb.2
    simp [hf, hab] at hn'

/-! ## Inserting or replacing -/

variable (key) in
/-- `INSERT … ON CONFLICT (key) DO UPDATE`: the row replaces the one with its key, or is added. -/
def upsert (row : ρ) (rows : List ρ) : List ρ :=
  if key row ∈ rows.map key then rows.map fun r => if key r = key row then row else r
  else rows ++ [row]

variable (key) in
/-- The rows are inserted or replaced one after another. -/
def upsertAll (new rows : List ρ) : List ρ := new.foldl (fun rows row => upsert key row rows) rows

theorem lookup_map (hf : ∀ r, key (f r) = key r) (k : κ) (rows : List ρ) :
    lookup key k (rows.map f) = (lookup key k rows).map f := by
  have hcomp : (fun r => decide (key r = k)) ∘ f = fun r => decide (key r = k) := by
    funext r
    simp [hf]
  rw [lookup, find?_map, hcomp, lookup]

theorem lookup_upsert (k : κ) (row : ρ) (rows : List ρ) :
    lookup key k (upsert key row rows) = if k = key row then some row else lookup key k rows := by
  have hkeep : ∀ r, key (if key r = key row then row else r) = key r := by
    intro r
    split
    · rename_i h
      exact h.symm
    · rfl
  unfold upsert
  split
  · rename_i hmem
    rw [lookup_map hkeep]
    by_cases hk : k = key row
    · obtain ⟨r, hr⟩ := Option.isSome_iff_exists.1 (lookup_isSome.2 hmem)
      rw [hk, hr, if_pos rfl, Option.map_some, if_pos (mem_of_lookup hr).2]
    · rw [if_neg hk]
      cases hr : lookup key k rows with
      | none => rfl
      | some r => rw [Option.map_some, if_neg fun h => hk ((mem_of_lookup hr).2.symm.trans h)]
  · rename_i hfree
    refine lookup_append_singleton fun r hr h => hfree ?_
    exact h ▸ mem_map_of_mem hr

theorem lookup_upsertAll_of_forall_ne {new : List ρ} (h : ∀ r ∈ new, key r ≠ k) (rows : List ρ) :
    lookup key k (upsertAll key new rows) = lookup key k rows := by
  induction new generalizing rows with
  | nil => rfl
  | cons r new ih =>
    have hr : k ≠ key r := fun hk => h r mem_cons_self hk.symm
    show lookup key k (upsertAll key new (upsert key r rows)) = _
    rw [ih fun r' hr' => h r' (mem_cons_of_mem _ hr'), lookup_upsert, if_neg hr]

/-- The one new row with a key becomes the row with that key. -/
theorem lookup_upsertAll_of_mem {new : List ρ} {row : ρ} (hmem : row ∈ new) (hkey : key row = k)
    (h : ∀ r ∈ new, key r = k → r = row) (rows : List ρ) :
    lookup key k (upsertAll key new rows) = some row := by
  induction new generalizing rows with
  | nil => cases hmem
  | cons r new ih =>
    show lookup key k (upsertAll key new (upsert key r rows)) = _
    by_cases hlater : row ∈ new
    · exact ih hlater (fun r' hr' => h r' (mem_cons_of_mem _ hr')) _
    · have hrow : row = r := (mem_cons.1 hmem).resolve_right hlater
      rw [lookup_upsertAll_of_forall_ne, lookup_upsert, ← hrow, if_pos hkey.symm]
      intro r' hr' hk
      exact hlater (h r' (mem_cons_of_mem _ hr') hk ▸ hr')

/-- Rows of another kind do not change which rows pass a test. -/
theorem filter_upsertAll {q : ρ → Bool} {new : List ρ} (hnew : ∀ r ∈ new, q r = false)
    (hkey : ∀ r r', key r = key r' → q r = q r') (rows : List ρ) :
    (upsertAll key new rows).filter q = rows.filter q := by
  induction new generalizing rows with
  | nil => rfl
  | cons row new ih =>
    show (upsertAll key new (upsert key row rows)).filter q = _
    rw [ih fun r hr => hnew r (mem_cons_of_mem _ hr)]
    have hrow := hnew row mem_cons_self
    unfold upsert
    split
    · rw [filter_map]
      have htest : (q ∘ fun r => if key r = key row then row else r) = q := by
        funext r
        simp only [Function.comp_apply]
        split
        · rename_i h
          exact hkey row r h.symm
        · rfl
      rw [htest]
      conv_rhs => rw [← map_id (rows.filter q)]
      refine map_congr_left fun r hr => if_neg fun h => ?_
      have hpass := (mem_filter.1 hr).2
      rw [hkey r row h, hrow] at hpass
      cases hpass
    · simp [hrow]

theorem mem_keys_upsert {row : ρ} :
    k ∈ (upsert key row rows).map key ↔ k = key row ∨ k ∈ rows.map key := by
  rw [← lookup_isSome, lookup_upsert, ← lookup_isSome]
  by_cases hk : k = key row <;> simp [hk]

theorem mem_keys_upsertAll {new rows : List ρ} :
    k ∈ (upsertAll key new rows).map key ↔ k ∈ new.map key ∨ k ∈ rows.map key := by
  induction new generalizing rows with
  | nil => simp [upsertAll]
  | cons row new ih =>
    change k ∈ (upsertAll key new (upsert key row rows)).map key ↔ _
    rw [ih, mem_keys_upsert, map_cons, mem_cons]
    tauto

theorem nodup_upsert {row : ρ} (h : (rows.map key).Nodup) :
    ((upsert key row rows).map key).Nodup := by
  unfold upsert
  split
  case isTrue =>
    have hkeys : (rows.map fun r => if key r = key row then row else r).map key = rows.map key := by
      rw [map_map]
      refine map_congr_left fun r _ => ?_
      by_cases hr : key r = key row <;> simp [hr]
    rwa [hkeys]
  case isFalse hfresh =>
    exact nodup_append_singleton h fun r hr heq => hfresh (heq ▸ mem_map_of_mem hr)

theorem nodup_upsertAll {new rows : List ρ} (h : (rows.map key).Nodup) :
    ((upsertAll key new rows).map key).Nodup := by
  induction new generalizing rows with
  | nil => exact h
  | cons row new ih => exact ih (nodup_upsert h)

/-- The later row with a key takes the place of the earlier one. -/
theorem upsert_upsert {row row' : ρ} (h : key row' = key row) (rows : List ρ) :
    upsert key row' (upsert key row rows) = upsert key row' rows := by
  have hkeep : ∀ r, (if key (if key r = key row then row else r) = key row then row'
      else if key r = key row then row else r) = if key r = key row then row' else r := by
    intro r
    by_cases hr : key r = key row <;> simp [hr]
  by_cases hmem : key row ∈ rows.map key
  · have hmem' : key row' ∈ (upsert key row rows).map key := mem_keys_upsert.2 (.inl h)
    rw [upsert, if_pos hmem', upsert, upsert, if_pos hmem, h, if_pos hmem, map_map]
    exact map_congr_left fun r _ => hkeep r
  · have hmem' : key row' ∈ (upsert key row rows).map key := mem_keys_upsert.2 (.inl h)
    rw [upsert, if_pos hmem', upsert, upsert, if_neg hmem, h, if_neg hmem, map_append]
    congr 1
    · conv_rhs => rw [← map_id rows]
      refine map_congr_left fun r hr => if_neg fun heq => hmem ?_
      exact heq ▸ mem_map_of_mem hr
    · simp

/-- A row is put in the same place by every key that tells the same row. -/
theorem upsert_congr {κ' : Type*} [DecidableEq κ'] {key' : ρ → κ'} {row : ρ}
    (h : ∀ r ∈ rows, key r = key row ↔ key' r = key' row) :
    upsert key row rows = upsert key' row rows := by
  have hmem : key row ∈ rows.map key ↔ key' row ∈ rows.map key' := by
    simp only [mem_map]
    exact exists_congr fun r => and_congr_right fun hr => h r hr
  have hmap : (rows.map fun r => if key r = key row then row else r) =
      rows.map fun r => if key' r = key' row then row else r :=
    map_congr_left fun r hr => if_congr (h r hr) rfl rfl
  simp only [upsert, hmem, hmap]

/-! ## The best row for each key -/

section Best

variable (better : ρ → ρ → Bool)

variable (key) in
/-- The row is put under its key, unless the row that is there is as good. -/
def keepBest (best : List ρ) (r : ρ) : List ρ :=
  match lookup key (key r) best with
  | none => upsert key r best
  | some current => if better r current then upsert key r best else best

/-- The better of the best row so far and the next one. -/
def pickBest : Option ρ → ρ → Option ρ
  | none, r => some r
  | some current, r => if better r current then some r else some current

variable {better}

theorem lookup_keepBest (k : κ) (best : List ρ) (r : ρ) :
    lookup key k (keepBest key better best r) =
      if k = key r then pickBest better (lookup key k best) r else lookup key k best := by
  unfold keepBest
  split
  · rename_i hnone
    rw [lookup_upsert]
    split
    · rename_i hk
      rw [hk, hnone, pickBest]
    · rfl
  · rename_i current hsome
    by_cases hk : k = key r
    · rw [if_pos hk, hk, hsome, pickBest]
      split
      · rw [lookup_upsert, if_pos rfl]
      · exact hsome
    · rw [if_neg hk]
      split
      · rw [lookup_upsert, if_neg hk]
      · rfl

/-- The row kept for a key is picked from the rows that have the key. -/
theorem lookup_foldl_keepBest (k : κ) (rows best : List ρ) :
    lookup key k (rows.foldl (keepBest key better) best) =
      (rows.filter fun r => key r = k).foldl (pickBest better) (lookup key k best) := by
  induction rows generalizing best with
  | nil => rfl
  | cons r rows ih =>
    rw [foldl_cons, ih, lookup_keepBest]
    by_cases hk : key r = k
    · simp [hk]
    · have hk' : k ≠ key r := fun h => hk h.symm
      simp [hk, hk']

theorem mem_keepBest {best : List ρ} {r q : ρ} (h : q ∈ keepBest key better best r) :
    q = r ∨ q ∈ best := by
  have hupsert : q ∈ upsert key r best → q = r ∨ q ∈ best := by
    unfold upsert
    split
    · rw [mem_map]
      rintro ⟨q', hq', rfl⟩
      split
      · exact .inl rfl
      · exact .inr hq'
    · rw [mem_append, mem_singleton]
      exact Or.symm
  unfold keepBest at h
  split at h
  · exact hupsert h
  · split at h
    · exact hupsert h
    · exact .inr h

theorem mem_of_mem_foldl_keepBest {rows best : List ρ} {q : ρ}
    (h : q ∈ rows.foldl (keepBest key better) best) : q ∈ rows ∨ q ∈ best := by
  induction rows generalizing best with
  | nil => exact .inr h
  | cons r rows ih =>
    rcases ih h with h | h
    · exact .inl (mem_cons_of_mem _ h)
    · rcases mem_keepBest h with rfl | h
      · exact .inl mem_cons_self
      · exact .inr h

theorem nodup_foldl_keepBest {rows best : List ρ} (h : (best.map key).Nodup) :
    ((rows.foldl (keepBest key better) best).map key).Nodup := by
  induction rows generalizing best with
  | nil => exact h
  | cons r rows ih =>
    refine ih ?_
    unfold keepBest
    split
    · exact nodup_upsert h
    · split
      · exact nodup_upsert h
      · exact h

section Map

variable {f : ρ → ρ} (hkey : ∀ r, key (f r) = key r)
  (hbetter : ∀ a b, better (f a) (f b) = better a b)

include hkey

theorem upsert_map (row : ρ) (rows : List ρ) :
    upsert key (f row) (rows.map f) = (upsert key row rows).map f := by
  have hkeys : (rows.map f).map key = rows.map key := by
    rw [map_map]
    exact map_congr_left fun r _ => hkey r
  unfold upsert
  rw [hkeys, hkey]
  split
  · rw [map_map, map_map]
    refine map_congr_left fun r _ => ?_
    simp only [Function.comp_apply, hkey]
    split <;> rfl
  · simp

include hbetter

/-- What changes no key, and no comparison, changes no choice. -/
theorem foldl_keepBest_map (rows best : List ρ) :
    (rows.map f).foldl (keepBest key better) (best.map f) =
      (rows.foldl (keepBest key better) best).map f := by
  induction rows generalizing best with
  | nil => rfl
  | cons r rows ih =>
    have hstep : keepBest key better (best.map f) (f r) = (keepBest key better best r).map f := by
      unfold keepBest
      rw [hkey, lookup_map hkey]
      cases lookup key (key r) best with
      | none => exact upsert_map hkey r best
      | some current =>
        simp only [Option.map_some, hbetter]
        split
        · exact upsert_map hkey r best
        · rfl
    rw [map_cons, foldl_cons, foldl_cons, hstep, ih]

end Map

omit [DecidableEq κ] in
/-- A row is picked, and no row is better than it. -/
theorem foldl_pickBest (hasymm : ∀ a b, better a b = true → better b a = false)
    (htrans : ∀ a b c, better a b = false → better b c = false → better a c = false)
    (rows : List ρ) (current : ρ) :
    ∃ r, rows.foldl (pickBest better) (some current) = some r ∧ (r = current ∨ r ∈ rows) ∧
      better current r = false ∧ ∀ q ∈ rows, better q r = false := by
  induction rows generalizing current with
  | nil =>
    refine ⟨current, rfl, .inl rfl, ?_, by simp⟩
    by_contra h
    rw [Bool.not_eq_false] at h
    rw [hasymm _ _ h] at h
    cases h
  | cons q rows ih =>
    rw [foldl_cons, pickBest]
    by_cases hq : better q current = true
    · obtain ⟨r, hr, hmem, hle, hall⟩ := ih q
      rw [if_pos hq]
      refine ⟨r, hr, .inr ?_, htrans _ _ _ (hasymm _ _ hq) hle, forall_mem_cons.2 ⟨hle, hall⟩⟩
      rcases hmem with rfl | hmem
      · exact mem_cons_self
      · exact mem_cons_of_mem _ hmem
    · obtain ⟨r, hr, hmem, hle, hall⟩ := ih current
      rw [Bool.not_eq_true] at hq
      rw [hq, if_neg Bool.false_ne_true]
      refine ⟨r, hr, hmem.imp_right (mem_cons_of_mem _), hle,
        forall_mem_cons.2 ⟨htrans _ _ _ hq hle, hall⟩⟩

end Best

/-! ## Sums over a table -/

omit [DecidableEq κ] in
/-- A sum over a table, by a test on the rows. -/
theorem sum_filter_split {M : Type*} [AddCommMonoid M] (q : ρ → Bool) (f : ρ → M)
    (rows : List ρ) : ((rows.filter q).map f).sum + ((rows.filter fun r => !q r).map f).sum =
      (rows.map f).sum := by
  induction rows with
  | nil => simp
  | cons r rows ih =>
    cases hq : q r with
    | true => simp [hq, ← ih, add_assoc]
    | false => simp [hq, ← ih, add_left_comm]

omit [DecidableEq κ] in
/-- The sum over the rows that pass a test, as a sum over all rows. -/
theorem sum_filter_map (rows : List ρ) (p : ρ → Bool) (g : ρ → ℤ) :
    ((rows.filter p).map g).sum = (rows.map fun r => if p r then g r else 0).sum := by
  induction rows with
  | nil => rfl
  | cons r rows ih =>
    by_cases hr : p r = true
    · simp [hr, ih]
    · simp [hr, ih]

/-- An update of the one row with key `k` changes a sum by what the row changes. -/
theorem sum_map_modify (hn : (rows.map key).Nodup) (hr : r ∈ rows) (f : ρ → ρ) (g : ρ → ℤ) :
    ((modify key (key r) f rows).map g).sum = (rows.map g).sum - g r + g (f r) := by
  induction rows with
  | nil => cases hr
  | cons r' rows ih =>
    rw [map_cons, nodup_cons] at hn
    rcases mem_cons.1 hr with rfl | hr
    · have hrest : modify key (key r) f rows = rows := by
        rw [modify, map_congr_left (g := id), map_id]
        intro r' hr'
        have hne : key r' ≠ key r := fun h => hn.1 (h ▸ mem_map_of_mem hr')
        simp [hne]
      rw [show modify key (key r) f (r :: rows) = f r :: modify key (key r) f rows by simp [modify],
        hrest]
      simp only [map_cons, sum_cons]
      omega
    · have hne : key r' ≠ key r := fun h => hn.1 (h ▸ mem_map_of_mem hr)
      rw [show modify key (key r) f (r' :: rows) = r' :: modify key (key r) f rows by
        simp [modify, hne]]
      simp only [map_cons, sum_cons, ih hn.2 hr]
      omega

/-- An update of the one row with key `k` changes a count by what the row changes. -/
theorem countP_modify (hn : (rows.map key).Nodup) (hr : r ∈ rows) (f : ρ → ρ) (p : ρ → Bool) :
    (modify key (key r) f rows).countP p + (if p r then 1 else 0) =
      rows.countP p + if p (f r) then 1 else 0 := by
  have hsum := sum_map_modify hn hr f fun row => if p row then 1 else 0
  have hcount : ∀ rows : List ρ, (rows.map fun row => if p row then (1 : ℤ) else 0).sum =
      rows.countP p := by
    intro rows
    induction rows with
    | nil => rfl
    | cons row rows ih =>
      rw [map_cons, sum_cons, ih, countP_cons]
      cases p row with
      | false => simp
      | true => simp [add_comm]
  rw [hcount, hcount] at hsum
  cases hp : p r <;> cases hf : p (f r) <;>
    simp only [hp, hf, if_true, Bool.false_eq_true, if_false] at hsum ⊢ <;> omega

/-! ## Amounts carried from row to row -/

variable {α β : Type*}

/-- The value of an updated function: the one written, or the old one elsewhere. -/
theorem update_apply_eq_iff [DecidableEq α] {f : α → β} {a x : α} {v y : β} :
    Function.update f a v x = y ↔ x = a ∧ v = y ∨ x ≠ a ∧ f x = y := by
  by_cases hx : x = a
  · subst hx
    simp
  · simp [hx]

open Finset in
/-- Rows hold what they were given and what was carried into them. When a row carries at most what
it holds into its one successor, and nothing is carried into a row from nowhere, all the rows
together hold what they were given. -/
theorem sum_nonneg_of_carried {ι M : Type*} [AddCommGroup M] [PartialOrder M] [IsOrderedAddMonoid M]
    {rows : Finset ι} (carried given : ι → M) (next : ι → ι → Prop)
    (hholds : ∀ i ∈ rows, 0 ≤ carried i + given i)
    (hcarried : ∀ i ∈ rows, ∀ j ∈ rows, next i j → carried j ≤ carried i + given i)
    (hnext : ∀ i ∈ rows, ∀ j ∈ rows, ∀ k ∈ rows, next i j → next i k → j = k)
    (hsource : ∀ j ∈ rows, carried j ≤ 0 ∨ ∃ i ∈ rows, next i j) : 0 ≤ ∑ i ∈ rows, given i := by
  classical
  let fed := rows.filter fun j => ∃ i ∈ rows, next i j
  have hsrc : ∀ j ∈ fed, ∃ i ∈ rows, next i j := fun j hj => (mem_filter.1 hj).2
  choose! prev hprev hstep using hsrc
  have hsub : fed ⊆ rows := filter_subset _ _
  have hinj : Set.InjOn prev fed := by
    intro j hj k hk hjk
    have hk' : next (prev j) k := hjk ▸ hstep k hk
    exact hnext (prev j) (hprev j hj) j (hsub hj) k (hsub hk) (hstep j hj) hk'
  have himage : fed.image prev ⊆ rows := by
    intro i hi
    obtain ⟨j, hj, rfl⟩ := mem_image.1 hi
    exact hprev j hj
  have hrest : ∑ j ∈ rows, carried j ≤ ∑ j ∈ fed, carried j := by
    rw [← sum_filter_add_sum_filter_not rows (fun j => ∃ i ∈ rows, next i j)]
    refine add_le_of_nonpos_right (sum_nonpos fun j hj => ?_)
    obtain ⟨hj, hno⟩ := mem_filter.1 hj
    exact (hsource j hj).resolve_right hno
  have hsum : ∑ j ∈ rows, carried j ≤ ∑ i ∈ rows, (carried i + given i) := calc
    ∑ j ∈ rows, carried j ≤ ∑ j ∈ fed, carried j := hrest
    _ ≤ ∑ j ∈ fed, (carried (prev j) + given (prev j)) :=
      sum_le_sum fun j hj => hcarried _ (hprev j hj) j (hsub hj) (hstep j hj)
    _ = ∑ i ∈ fed.image prev, (carried i + given i) := by rw [sum_image hinj]
    _ ≤ ∑ i ∈ rows, (carried i + given i) :=
      sum_le_sum_of_subset_of_nonneg himage fun i hi _ => hholds i hi
  rw [sum_add_distrib] at hsum
  exact (le_add_iff_nonneg_right _).1 hsum

/-- An update that moves no row into or out of a group leaves its rows as they are exactly when it
fixes each of them. -/
theorem filter_map_eq_filter_iff {ρ : Type*} {rows : List ρ} {f : ρ → ρ} {p : ρ → Bool}
    (hp : ∀ r ∈ rows, p (f r) = p r) :
    (rows.map f).filter p = rows.filter p ↔ ∀ r ∈ rows, p r = true → f r = r := by
  have hfilter : (rows.map f).filter p = (rows.filter p).map f := by
    rw [filter_map]
    exact congrArg (map f) (filter_congr hp)
  rw [hfilter]
  nth_rewrite 2 [← map_id (rows.filter p)]
  rw [map_inj_left]
  simp only [mem_filter, id_eq, and_imp]

/-! ## What is noted of each row -/

/-- Of the notes on all rows, those with the key of a row are the notes on that row. -/
theorem filter_flatMap_eq {ρ κ ν : Type*} [DecidableEq κ] {key : ρ → κ} {noted : ν → κ}
    {f : ρ → List ν} (hf : ∀ r, ∀ x ∈ f r, noted x = key r) {rows : List ρ}
    (hn : (rows.map key).Nodup) {r : ρ} (hr : r ∈ rows) :
    (rows.flatMap f).filter (fun x => noted x = key r) = f r := by
  induction rows with
  | nil => cases hr
  | cons r' rows ih =>
    rw [map_cons, nodup_cons] at hn
    rw [flatMap_cons, filter_append]
    rcases mem_cons.1 hr with rfl | hmem
    · have hown : (f r).filter (fun x => noted x = key r) = f r :=
        filter_eq_self.2 fun x hx => by simpa using hf r x hx
      have hother : (rows.flatMap f).filter (fun x => noted x = key r) = [] := by
        refine filter_eq_nil_iff.2 fun x hx => ?_
        obtain ⟨r', hr', hx'⟩ := mem_flatMap.1 hx
        have hne : key r' ≠ key r := fun heq => hn.1 (mem_map.2 ⟨r', hr', heq⟩)
        simpa [hf r' x hx'] using hne
      rw [hown, hother, append_nil]
    · have hne : key r' ≠ key r := fun heq => hn.1 (mem_map.2 ⟨r, hmem, heq.symm⟩)
      have hother : (f r').filter (fun x => noted x = key r) = [] := by
        refine filter_eq_nil_iff.2 fun x hx => ?_
        simpa [hf r' x hx] using hne
      rw [hother, nil_append, ih hn.2 hmem]

/-! ## Without repetitions -/

theorem nodup_eraseDups {α : Type*} [DecidableEq α] (l : List α) : l.eraseDups.Nodup := by
  induction h : l.length using Nat.strong_induction_on generalizing l with
  | _ n ih =>
    cases l with
    | nil => exact nodup_nil
    | cons a l =>
      rw [eraseDups_cons, nodup_cons]
      refine ⟨fun ha => ?_, ih _ ?_ _ rfl⟩
      · rw [mem_eraseDups, mem_filter] at ha
        simpa using ha.2
      · have hle := length_filter_le (fun b => !b == a) l
        rw [length_cons] at h
        omega

theorem eraseDups_of_nodup {α : Type*} [DecidableEq α] {l : List α} (h : l.Nodup) :
    l.eraseDups = l := by
  induction l with
  | nil => rfl
  | cons a l ih =>
    obtain ⟨ha, hl⟩ := nodup_cons.1 h
    have hrest : l.filter (fun b => !b == a) = l := by
      refine filter_eq_self.2 fun b hb => ?_
      have hne : b ≠ a := fun heq => ha (heq ▸ hb)
      simpa using hne
    rw [eraseDups_cons, hrest, ih hl]

/-! ## Results of a list that may fail -/

theorem exists_of_mem_mapM {f : α → Option β} {as : List α} {bs : List β}
    (h : as.mapM f = some bs) {b : β} (hb : b ∈ bs) : ∃ a ∈ as, f a = some b := by
  induction as generalizing bs with
  | nil =>
    cases h
    cases hb
  | cons a as ih =>
    simp only [mapM_cons, Option.bind_eq_bind, Option.bind_eq_some_iff, Option.pure_def,
      Option.some.injEq] at h
    obtain ⟨first, hfirst, rest, hrest, rfl⟩ := h
    rcases mem_cons.1 hb with rfl | hb
    · exact ⟨a, mem_cons_self, hfirst⟩
    · obtain ⟨a', ha', heq⟩ := ih hrest hb
      exact ⟨a', mem_cons_of_mem _ ha', heq⟩

theorem exists_mem_of_mapM {f : α → Option β} {as : List α} {bs : List β}
    (h : as.mapM f = some bs) {a : α} (ha : a ∈ as) : ∃ b ∈ bs, f a = some b := by
  induction as generalizing bs with
  | nil => cases ha
  | cons a₀ as ih =>
    simp only [mapM_cons, Option.bind_eq_bind, Option.bind_eq_some_iff, Option.pure_def,
      Option.some.injEq] at h
    obtain ⟨first, hfirst, rest, hrest, rfl⟩ := h
    rcases mem_cons.1 ha with rfl | ha
    · exact ⟨first, mem_cons_self, hfirst⟩
    · obtain ⟨b, hb, heq⟩ := ih hrest ha
      exact ⟨b, mem_cons_of_mem _ hb, heq⟩

/-- What every result keeps of what it comes from. -/
theorem map_of_mapM {α β γ : Type*} {f : α → Option β} {g : α → γ} {g' : β → γ}
    (hf : ∀ a b, f a = some b → g' b = g a) {as : List α} {bs : List β}
    (h : as.mapM f = some bs) : bs.map g' = as.map g := by
  induction as generalizing bs with
  | nil =>
    cases h
    rfl
  | cons a as ih =>
    simp only [mapM_cons, Option.bind_eq_bind, Option.bind_eq_some_iff, Option.pure_def,
      Option.some.injEq] at h
    obtain ⟨first, hfirst, rest, hrest, rfl⟩ := h
    rw [map_cons, map_cons, ih hrest, hf a first hfirst]

theorem countP_of_mapM {f : α → Option β} {as : List α} {bs : List β} (h : as.mapM f = some bs)
    (q : β → Bool) : bs.countP q = as.countP fun a => (f a).any q := by
  induction as generalizing bs with
  | nil =>
    cases h
    rfl
  | cons a as ih =>
    simp only [mapM_cons, Option.bind_eq_bind, Option.bind_eq_some_iff, Option.pure_def,
      Option.some.injEq] at h
    obtain ⟨first, hfirst, rest, hrest, rfl⟩ := h
    rw [countP_cons, countP_cons, ih hrest, hfirst]
    rfl

/-- Pairs with one first component, counted by the second. -/
theorem countP_pairs [DecidableEq α] [DecidableEq β] {pairs : List (α × β)} {ks : List β}
    (hp : pairs.Nodup) (hk : ks.Nodup) (a : α) :
    pairs.countP (fun p => p.1 = a && p.2 ∈ ks) = ks.countP fun k => (a, k) ∈ pairs := by
  have hsecond : pairs.countP (fun p => p.1 = a && p.2 ∈ ks) =
      ((pairs.filter fun p => p.1 = a && p.2 ∈ ks).map Prod.snd).length := by
    rw [length_map, countP_eq_length_filter]
  rw [hsecond, countP_eq_length_filter]
  refine Perm.length_eq ((perm_ext_iff_of_nodup ?_ (hk.filter _)).2 fun k => ?_)
  · refine Nodup.map_on ?_ (hp.filter _)
    intro p hp p' hp' h
    simp only [mem_filter, Bool.and_eq_true, decide_eq_true_eq] at hp hp'
    exact Prod.ext (hp.2.1.trans hp'.2.1.symm) h
  · simp only [mem_map, mem_filter, Bool.and_eq_true, decide_eq_true_eq]
    constructor
    · rintro ⟨⟨a', k'⟩, ⟨hmem, rfl, hk'⟩, rfl⟩
      exact ⟨hk', hmem⟩
    · rintro ⟨hk', hmem⟩
      exact ⟨(a, k), ⟨hmem, rfl, hk'⟩, rfl⟩

/-! ## The first rows in an order -/

/-- `ORDER BY f LIMIT n` returns every row that at most `n` rows, itself included, do not follow. -/
theorem mem_take_mergeSort {α : Type*} {f : α → ℤ} {n : ℕ} {l : List α} {x : α} (hx : x ∈ l)
    (hn : l.countP (fun y => f y ≤ f x) ≤ n) :
    x ∈ (l.mergeSort fun y z => f y ≤ f z).take n := by
  set sorted := l.mergeSort fun y z => f y ≤ f z with hsorted
  have hmem : x ∈ sorted.take n ++ sorted.drop n := by
    rw [take_append_drop, hsorted]
    exact mem_mergeSort.2 hx
  rcases mem_append.1 hmem with h | hdrop
  · exact h
  -- otherwise the whole batch precedes it, and it counts itself
  have hpairwise : sorted.Pairwise fun y z => f y ≤ f z := by
    have h : sorted.Pairwise fun y z => decide (f y ≤ f z) = true := by
      refine pairwise_mergeSort (fun x y z hxy hyz => ?_) (fun x y => ?_) l
      · simp only [decide_eq_true_eq] at *
        omega
      · simp only [Bool.or_eq_true, decide_eq_true_eq]
        omega
    exact h.imp of_decide_eq_true
  have hbefore : ∀ y ∈ sorted.take n, f y ≤ f x := by
    rw [← take_append_drop n sorted] at hpairwise
    exact fun y hy => (pairwise_append.1 hpairwise).2.2 y hy x hdrop
  have hlength : (sorted.take n).length = n := by
    have hpos := length_pos_of_mem hdrop
    rw [length_drop] at hpos
    rw [length_take]
    omega
  have hcount : n + 1 ≤ sorted.countP fun y => f y ≤ f x := by
    calc n + 1 ≤ (sorted.take n).countP (fun y => f y ≤ f x)
          + (sorted.drop n).countP (fun y => f y ≤ f x) := by
          have hfull : (sorted.take n).countP (fun y => f y ≤ f x) = (sorted.take n).length :=
            countP_eq_length.2 fun y hy => decide_eq_true (hbefore y hy)
          have hself : 0 < (sorted.drop n).countP fun y => f y ≤ f x :=
            countP_pos_iff.2 ⟨x, hdrop, decide_eq_true le_rfl⟩
          omega
      _ = sorted.countP fun y => f y ≤ f x := by
          rw [← countP_append, take_append_drop]
  have hperm : sorted.countP (fun y => f y ≤ f x) = l.countP fun y => f y ≤ f x :=
    (mergeSort_perm l fun y z => f y ≤ f z).countP_eq fun y => f y ≤ f x
  omega

theorem mapM_eq_ok_iff {α β ε : Type*} {f : α → Except ε β} {as : List α} {bs : List β} :
    as.mapM f = .ok bs ↔ Forall₂ (fun a b => f a = .ok b) as bs := by
  induction as generalizing bs with
  | nil =>
    rw [mapM_nil, forall₂_nil_left_iff]
    exact ⟨fun h => (Except.ok.inj h).symm, fun h => congrArg Except.ok h.symm⟩
  | cons a as ih =>
    rw [mapM_cons, forall₂_cons_left_iff]
    constructor
    · intro h
      cases hfirst : f a with
      | error error =>
        rw [hfirst] at h
        cases h
      | ok first =>
        cases hrest : as.mapM f with
        | error error =>
          rw [hfirst, hrest] at h
          cases h
        | ok rest =>
          rw [hfirst, hrest] at h
          exact ⟨first, rest, rfl, ih.1 hrest, (Except.ok.inj h).symm⟩
    · rintro ⟨first, rest, hfirst, hrest, rfl⟩
      rw [hfirst, ih.2 hrest]
      rfl

theorem exists_forall₂_and_iff {R S : α → β → Prop} {as : List α} :
    (∃ bs, Forall₂ R as bs ∧ Forall₂ S as bs) ↔ ∀ a ∈ as, ∃ b, R a b ∧ S a b := by
  induction as with
  | nil => exact iff_of_true ⟨[], .nil, .nil⟩ fun a ha => absurd ha not_mem_nil
  | cons a as ih =>
    rw [forall_mem_cons, ← ih]
    constructor
    · rintro ⟨bs, hR, hS⟩
      cases hR with
      | cons hR hRs =>
        cases hS with
        | cons hS hSs => exact ⟨⟨_, hR, hS⟩, _, hRs, hSs⟩
    · rintro ⟨⟨b, hR, hS⟩, bs, hRs, hSs⟩
      exact ⟨b :: bs, .cons hR hRs, .cons hS hSs⟩

end Workforce.Tables
