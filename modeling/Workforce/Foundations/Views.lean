import Workforce.Foundations.Runs
import Workforce.Foundations.Tables

/-!
# Views that are refreshed by upserts

A view holds a row for each group of an aggregation. A refresh aggregates again and inserts or
replaces the rows one after another; it deletes none. So the rows of the view are, along a run,
those of all groups that a refresh has ever written (`Refreshed.mem_keys_iff`), and the view shows
the groups of now after each refresh if and only if no group that an earlier refresh wrote has
disappeared since (`Refreshed.shows_iff`).

* `groups`: `GROUP BY`.
* `fullOuterJoin`: `FULL OUTER JOIN` of two lists of groups.
-/

namespace Workforce.Views

open Runs Tables List

/-! ## Groups -/

section Groups

variable {ρ κ α β : Type*} [DecidableEq κ]

/-- The rows of each key, the keys in the order in which they first occur. -/
def groups (key : ρ → κ) (rows : List ρ) : List (κ × List ρ) :=
  (rows.map key).eraseDups.map fun k => (k, rows.filter (key · = k))

/-- Every key of one of the two sides, with what it has there. -/
def fullOuterJoin (left : List (κ × α)) (right : List (κ × β)) :
    List (κ × Option α × Option β) :=
  (left.map fun l => (l.1, some l.2, (lookup Prod.fst l.1 right).map Prod.snd)) ++
    (right.filter fun r => r.1 ∉ left.map Prod.fst).map fun r => (r.1, none, some r.2)

variable {key : ρ → κ} {rows : List ρ} {left : List (κ × α)} {right : List (κ × β)}

theorem keys_groups : (groups key rows).map Prod.fst = (rows.map key).eraseDups := by
  simp [groups, map_map, Function.comp_def]

theorem mem_keys_groups {k : κ} : k ∈ (groups key rows).map Prod.fst ↔ k ∈ rows.map key := by
  rw [keys_groups, mem_eraseDups]

theorem nodup_groups : ((groups key rows).map Prod.fst).Nodup := by
  rw [keys_groups]
  exact nodup_eraseDups _

theorem mem_groups {g : κ × List ρ} :
    g ∈ groups key rows ↔ g.1 ∈ rows.map key ∧ g.2 = rows.filter (key · = g.1) := by
  obtain ⟨k, rs⟩ := g
  simp only [groups, mem_map, mem_eraseDups, Prod.mk.injEq]
  constructor
  · rintro ⟨k, hk, rfl, rfl⟩
    exact ⟨hk, rfl⟩
  · rintro ⟨hk, hrs⟩
    exact ⟨k, hk, rfl, hrs.symm⟩

theorem nodup_fullOuterJoin (hleft : (left.map Prod.fst).Nodup)
    (hright : (right.map Prod.fst).Nodup) :
    ((fullOuterJoin left right).map Prod.fst).Nodup := by
  simp only [fullOuterJoin, map_append, map_map, Function.comp_def]
  refine nodup_append.2 ⟨hleft, hright.sublist (filter_sublist.map _), ?_⟩
  rintro k hk k' hk' rfl
  obtain ⟨r, hr, rfl⟩ := mem_map.1 hk'
  exact of_decide_eq_true (mem_filter.1 hr).2 hk

omit [DecidableEq κ] in
/-- A join that yields a row for some rows, once, counted by these rows. -/
theorem count_flatMap_eq_countP [BEq κ] {f : ρ → List κ} {k : κ} {p : ρ → Bool}
    (h : ∀ r ∈ rows, (f r).count k = if p r then 1 else 0) :
    (rows.flatMap f).count k = rows.countP p := by
  induction rows with
  | nil => rfl
  | cons r rows ih =>
    obtain ⟨hr, h⟩ := forall_mem_cons.1 h
    rw [flatMap_cons, count_append, countP_cons, hr, ih h, Nat.add_comm]

omit [DecidableEq κ] in
/-- A condition that implies another counts as many rows exactly when both say the same. -/
theorem countP_eq_countP_iff {p q : ρ → Bool} (h : ∀ r ∈ rows, q r = true → p r = true) :
    rows.countP p = rows.countP q ↔ ∀ r ∈ rows, p r = true → q r = true := by
  constructor
  · intro heq
    induction rows with
    | nil => simp
    | cons r rows ih =>
      obtain ⟨hr, h⟩ := forall_mem_cons.1 h
      have hle : rows.countP q ≤ rows.countP p := countP_mono_left h
      rw [countP_cons, countP_cons] at heq
      have hr' : p r = true → q r = true := by
        intro hp
        by_contra hq
        simp only [hp, hq, if_true, if_false] at heq
        omega
      rw [Bool.eq_iff_iff.2 ⟨hr', hr⟩] at heq
      exact forall_mem_cons.2 ⟨hr', ih h (Nat.add_right_cancel heq)⟩
  · intro h'
    exact countP_congr fun r hr => ⟨h' r hr, h r hr⟩

end Groups

/-! ## Upserts -/

section Upserts

variable {ρ κ : Type*} [DecidableEq κ] {key : ρ → κ} {new rows : List ρ}

theorem mem_iff_lookup (h : (rows.map key).Nodup) {r : ρ} :
    r ∈ rows ↔ lookup key (key r) rows = some r :=
  ⟨fun hr => lookup_eq_some h hr, fun hr => (mem_of_lookup hr).1⟩

theorem lookup_perm {rows' : List ρ} (hperm : rows.Perm rows') (h : (rows.map key).Nodup) (k : κ) :
    lookup key k rows = lookup key k rows' := by
  have h' : (rows'.map key).Nodup := (hperm.map key).nodup_iff.1 h
  have hsome : ∀ {rows : List ρ}, (rows.map key).Nodup →
      ∀ r, lookup key k rows = some r ↔ r ∈ rows ∧ key r = k := by
    intro rows h r
    refine ⟨mem_of_lookup, ?_⟩
    rintro ⟨hr, rfl⟩
    exact lookup_eq_some h hr
  ext r
  rw [hsome h, hsome h', hperm.mem_iff]

/-- Only the new rows are left exactly when the keys of the old ones are among theirs. -/
theorem upsertAll_perm_iff (hnew : (new.map key).Nodup) (hrows : (rows.map key).Nodup) :
    (upsertAll key new rows).Perm new ↔ ∀ k ∈ rows.map key, k ∈ new.map key := by
  constructor
  · intro hperm k hk
    rw [← (hperm.map key).mem_iff]
    exact mem_keys_upsertAll.2 (.inr hk)
  · intro hkeys
    have hall : ((upsertAll key new rows).map key).Nodup := nodup_upsertAll hrows
    refine (perm_ext_iff_of_nodup hall.of_map hnew.of_map).2 fun r => ?_
    have hlookup : key r ∈ new.map key →
        lookup key (key r) (upsertAll key new rows) = lookup key (key r) new := by
      intro hk
      obtain ⟨r', hr', hkey⟩ := mem_map.1 hk
      rw [lookup_upsertAll_of_mem hr' hkey fun r'' hr'' hkey' =>
        eq_of_key_eq hnew hr'' hr' (hkey'.trans hkey.symm), ← hkey, lookup_eq_some hnew hr']
    rw [mem_iff_lookup hall, mem_iff_lookup hnew]
    by_cases hk : key r ∈ new.map key
    · rw [hlookup hk]
    · have hnone : ∀ rows' : List ρ, key r ∉ rows'.map key → lookup key (key r) rows' ≠ some r :=
        fun rows' hno hsome => hno (lookup_isSome.1 (by rw [hsome]; rfl))
      refine iff_of_false (hnone _ fun hmem => ?_) (hnone _ hk)
      rcases mem_keys_upsertAll.1 hmem with hmem | hmem
      · exact hk hmem
      · exact hk (hkeys _ hmem)

end Upserts

/-! ## A view along a run -/

section Run

variable {σ α ρ κ : Type*} [DecidableEq κ] {step : σ → α → Option σ} {key : ρ → κ}
  {view fresh : σ → List ρ} {refresh : α → Prop}

variable (step key view fresh refresh) in
/-- Some actions of a system refresh a view by upserts, and the others leave it alone. `fresh` is
the aggregation in a state. -/
structure Refreshed : Prop where
  nodup : ∀ s, ((fresh s).map key).Nodup
  refreshed : ∀ {s a t}, step s a = some t → refresh a →
    fresh t = fresh s ∧ view t = upsertAll key (fresh s) (view s)
  kept : ∀ {s a t}, step s a = some t → ¬ refresh a → view t = view s

variable (step view fresh refresh) in
/-- Right after each refresh of a run the view is the aggregation. -/
def Shows (s₀ : σ) (as : List α) : Prop :=
  ∀ bs a t, bs ++ [a] <+: as → refresh a → exec step s₀ (bs ++ [a]) = some t →
    (view t).Perm (fresh t)

variable (step key fresh refresh) in
/-- Every group that there is at a refresh of a run is there at each later refresh too. -/
def GroupsStay (s₀ : σ) (as : List α) : Prop :=
  ∀ bs a cs b, bs ++ [a] ++ cs ++ [b] <+: as → refresh a → refresh b →
    ∀ s t, exec step s₀ bs = some s → exec step s₀ (bs ++ [a] ++ cs) = some t →
      ∀ k ∈ (fresh s).map key, k ∈ (fresh t).map key

omit [DecidableEq κ] in
/-- No step of a run takes a group away. -/
theorem groupsStay_of_meets {s₀ : σ} {as : List α}
    (h : Meets step (fun s a => ∀ t ∈ step s a,
      ∀ k ∈ (fresh s).map key, k ∈ (fresh t).map key) s₀ as) :
    GroupsStay step key fresh refresh s₀ as := by
  rintro bs a cs b hpre - - s t hs ht k hk
  obtain ⟨ds, rfl⟩ := hpre
  rw [append_assoc bs] at ht h
  have hrest := (h.of_append_left.of_append_left).of_append_right hs
  rw [exec_append, hs] at ht
  exact exec_invariant (I := fun s => k ∈ (fresh s).map key)
    (fun s a t hk hgrows hstep => hgrows t hstep k hk) hk hrest ht

namespace Refreshed

variable (h : Refreshed step key view fresh refresh) {s₀ t : σ} {as : List α}

include h

theorem nodup_view (hinit : view s₀ = []) (ht : exec step s₀ as = some t) :
    ((view t).map key).Nodup := by
  refine exec_keeps (fun s => ((view s).map key).Nodup) (fun s a t hs hstep => ?_) ?_ ht
  · by_cases ha : refresh a
    · rw [(h.refreshed hstep ha).2]
      exact nodup_upsertAll hs
    · rwa [h.kept hstep ha]
  · rw [hinit]
    exact nodup_nil

/-- The rows of the view are those of the groups that a refresh has ever written. -/
theorem mem_keys_iff (hinit : view s₀ = []) (ht : exec step s₀ as = some t) {k : κ} :
    k ∈ (view t).map key ↔ ∃ bs a s, bs ++ [a] <+: as ∧ refresh a ∧
      exec step s₀ bs = some s ∧ k ∈ (fresh s).map key := by
  -- by induction on the run, its last action apart
  induction as using reverseRecOn generalizing t with
  | nil =>
    cases ht
    simp [hinit]
  | append_singleton as b ih =>
    obtain ⟨u, hu, hstep⟩ := exec_concat_eq_some.1 ht
    have hlater : ∀ {bs a}, bs ++ [a] <+: as ++ [b] ↔ bs ++ [a] <+: as ∨ bs = as ∧ a = b := by
      intro bs a
      rw [prefix_concat_iff, append_singleton_inj, or_comm]
    constructor
    · intro hk
      by_cases hb : refresh b
      · rw [(h.refreshed hstep hb).2, mem_keys_upsertAll] at hk
        rcases hk with hk | hk
        · exact ⟨as, b, u, prefix_rfl, hb, hu, hk⟩
        · obtain ⟨bs, a, s, hbs, ha, hs, hk⟩ := (ih hu).1 hk
          exact ⟨bs, a, s, hlater.2 (.inl hbs), ha, hs, hk⟩
      · rw [h.kept hstep hb] at hk
        obtain ⟨bs, a, s, hbs, ha, hs, hk⟩ := (ih hu).1 hk
        exact ⟨bs, a, s, hlater.2 (.inl hbs), ha, hs, hk⟩
    · rintro ⟨bs, a, s, hbs, ha, hs, hk⟩
      rcases hlater.1 hbs with hbs | ⟨rfl, rfl⟩
      · have hold : k ∈ (view u).map key := (ih hu).2 ⟨bs, a, s, hbs, ha, hs, hk⟩
        by_cases hb : refresh b
        · rw [(h.refreshed hstep hb).2]
          exact mem_keys_upsertAll.2 (.inr hold)
        · rwa [h.kept hstep hb]
      · obtain rfl := Option.some.inj (hs.symm.trans hu)
        rw [(h.refreshed hstep ha).2]
        exact mem_keys_upsertAll.2 (.inl hk)

/-- **The exact condition.** The view shows the aggregation right after each refresh of an accepted
run if and only if no group that an earlier refresh wrote has disappeared. -/
theorem shows_iff (hinit : view s₀ = []) (ht : exec step s₀ as = some t) :
    Shows step view fresh refresh s₀ as ↔ GroupsStay step key fresh refresh s₀ as := by
  constructor
  · intro hshows bs a cs b hpre ha hb s u hs hu k hk
    obtain ⟨v, hv⟩ : ∃ v, exec step s₀ (bs ++ [a] ++ cs ++ [b]) = some v := by
      obtain ⟨ds, rfl⟩ := hpre
      obtain ⟨v, hv, -⟩ := exec_append_eq_some.1 ht
      exact ⟨v, hv⟩
    have hperm := hshows _ b v hpre hb hv
    obtain ⟨u', hu', hstep⟩ := exec_concat_eq_some.1 hv
    obtain rfl := Option.some.inj (hu.symm.trans hu')
    obtain ⟨hfresh, hview⟩ := h.refreshed hstep hb
    rw [hfresh, hview, upsertAll_perm_iff (h.nodup u) (h.nodup_view hinit hu)] at hperm
    exact hperm k ((h.mem_keys_iff hinit hu).2 ⟨bs, a, s, prefix_append _ _, ha, hs, hk⟩)
  · intro hstay cs b v hpre hb hv
    obtain ⟨u, hu, hstep⟩ := exec_concat_eq_some.1 hv
    obtain ⟨hfresh, hview⟩ := h.refreshed hstep hb
    rw [hfresh, hview, upsertAll_perm_iff (h.nodup u) (h.nodup_view hinit hu)]
    intro k hk
    obtain ⟨bs, a, s, ⟨ds, rfl⟩, ha, hs, hk⟩ := (h.mem_keys_iff hinit hu).1 hk
    exact hstay bs a ds b hpre ha hb s u hs hu k hk

end Refreshed

end Run

end Workforce.Views
