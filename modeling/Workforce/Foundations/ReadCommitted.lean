import Mathlib.Data.List.Basic

/-!
# Transactions under READ COMMITTED

A table has its committed rows and the writes of the transactions that have not committed yet
(`Db`). A row that a transaction has written is locked until it commits. A statement sees the
committed rows and the writes of its own transaction (`visible`).

An `UPDATE` takes the keys of the rows that satisfy its condition when it starts (`targets`), and
then visits them one by one (`visit`): it waits while another transaction has the row locked, and
tests the condition again on the version it then finds.

* `Db.Ok`: a key has one committed row, and one writer.
* `Db.Ok.mem_committed_commit_of_locked`: a commit leaves the rows that others have locked.
-/

namespace Workforce.ReadCommitted

open List

variable {κ ρ τ : Type*} [DecidableEq κ] [DecidableEq τ]

structure Db (ρ τ : Type*) where
  committed : List ρ
  pending : List (τ × ρ)

namespace Db

variable (key : ρ → κ) (db : Db ρ τ) (t : τ)

/-- The writes of a transaction. -/
def own : List ρ := (db.pending.filter (·.1 = t)).map (·.2)

/-- What a statement of the transaction sees. -/
def visible : List ρ :=
  db.committed.filter (fun r => key r ∉ (db.own t).map key) ++ db.own t

/-- Another transaction has written the row. -/
def Locked (k : κ) : Prop := ∃ p ∈ db.pending, p.1 ≠ t ∧ key p.2 = k

instance (k : κ) : Decidable (db.Locked key t k) :=
  inferInstanceAs (Decidable (∃ p ∈ db.pending, p.1 ≠ t ∧ key p.2 = k))

/-- A row is inserted or rewritten. -/
def write (r : ρ) : Db ρ τ :=
  { db with pending := db.pending.filter (fun p => ¬ (p.1 = t ∧ key p.2 = key r)) ++ [(t, r)] }

def commit : Db ρ τ := ⟨db.visible key t, db.pending.filter (·.1 ≠ t)⟩

def rollback : Db ρ τ := { db with pending := db.pending.filter (·.1 ≠ t) }

/-- The rows that an `UPDATE` is going to visit. -/
def targets (p : ρ → Bool) : List κ := ((db.visible key t).filter p).map key

/-- An `UPDATE` visits a row, once it is not locked; the result says whether it was updated. -/
def visit (k : κ) (p : ρ → Bool) (f : ρ → ρ) : Option (Db ρ τ × Bool) :=
  if db.Locked key t k then none
  else
    match (db.visible key t).find? fun r => key r = k with
    | some r => if p r then some (db.write key t (f r), true) else some (db, false)
    | none => some (db, false)

variable {key db t}

/-! ## What the operations do to the rows -/

omit [DecidableEq κ] in
theorem mem_own {r : ρ} : r ∈ db.own t ↔ (t, r) ∈ db.pending := by
  simp only [own, mem_map, mem_filter, decide_eq_true_eq]
  constructor
  · rintro ⟨⟨t', r'⟩, ⟨hp, rfl⟩, rfl⟩
    exact hp
  · exact fun h => ⟨(t, r), ⟨h, rfl⟩, rfl⟩

theorem mem_visible {r : ρ} :
    r ∈ db.visible key t ↔
      (t, r) ∈ db.pending ∨ r ∈ db.committed ∧ ∀ v, (t, v) ∈ db.pending → key v ≠ key r := by
  simp only [visible, mem_append, mem_filter, mem_map, decide_eq_true_eq, mem_own]
  constructor
  · rintro (⟨hr, hno⟩ | hr)
    · exact .inr ⟨hr, fun v hv heq => hno ⟨v, hv, heq⟩⟩
    · exact .inl hr
  · rintro (hr | ⟨hr, hno⟩)
    · exact .inr hr
    · exact .inl ⟨hr, fun ⟨v, hv, heq⟩ => hno v hv heq⟩

theorem mem_pending_write {r : ρ} {p : τ × ρ} :
    p ∈ (db.write key t r).pending ↔
      p = (t, r) ∨ p ∈ db.pending ∧ ¬ (p.1 = t ∧ key p.2 = key r) := by
  simp only [write, mem_append, mem_filter, mem_singleton, decide_eq_true_eq]
  exact or_comm

theorem mem_pending_commit {p : τ × ρ} :
    p ∈ (db.commit key t).pending ↔ p ∈ db.pending ∧ p.1 ≠ t := by
  simp [commit]

omit [DecidableEq κ] in
theorem mem_pending_rollback {p : τ × ρ} :
    p ∈ (db.rollback t).pending ↔ p ∈ db.pending ∧ p.1 ≠ t := by
  simp [rollback]

theorem mem_targets {p : ρ → Bool} {r : ρ} (hr : r ∈ db.visible key t) (hp : p r) :
    key r ∈ db.targets key t p :=
  mem_map_of_mem (mem_filter.2 ⟨hr, hp⟩)

/-! ## One committed row and one writer for each key -/

structure Ok (key : ρ → κ) (db : Db ρ τ) : Prop where
  committed : ∀ r ∈ db.committed, ∀ r' ∈ db.committed, key r = key r' → r = r'
  pending : ∀ p ∈ db.pending, ∀ p' ∈ db.pending, key p.2 = key p'.2 → p = p'

namespace Ok

theorem eq_of_visible (h : Ok key db) {r r' : ρ} (hr : r ∈ db.visible key t)
    (hr' : r' ∈ db.visible key t) (heq : key r = key r') : r = r' := by
  rcases mem_visible.1 hr with hp | ⟨hc, hno⟩
  · rcases mem_visible.1 hr' with hp' | ⟨hc', hno'⟩
    · exact (Prod.mk.inj (h.pending _ hp _ hp' heq)).2
    · exact absurd heq (hno' r hp)
  · rcases mem_visible.1 hr' with hp' | ⟨hc', hno'⟩
    · exact absurd heq.symm (hno r' hp')
    · exact h.committed r hc r' hc' heq

theorem write (h : Ok key db) {r : ρ} (hfree : ¬ db.Locked key t (key r)) :
    Ok key (db.write key t r) := by
  refine ⟨h.committed, fun p hp p' hp' heq => ?_⟩
  have hother : ∀ q ∈ db.pending, key q.2 = key r → q.1 = t := by
    intro q hq hkey
    by_contra hne
    exact hfree ⟨q, hq, hne, hkey⟩
  rcases mem_pending_write.1 hp with rfl | ⟨hold, hno⟩
  · rcases mem_pending_write.1 hp' with rfl | ⟨hold', hno'⟩
    · rfl
    · exact absurd ⟨hother p' hold' heq.symm, heq.symm⟩ hno'
  · rcases mem_pending_write.1 hp' with rfl | ⟨hold', hno'⟩
    · exact absurd ⟨hother p hold heq, heq⟩ hno
    · exact h.pending p hold p' hold' heq

theorem commit (h : Ok key db) : Ok key (db.commit key t) := by
  refine ⟨fun r hr r' hr' heq => h.eq_of_visible hr hr' heq, fun p hp p' hp' heq => ?_⟩
  exact h.pending p (mem_pending_commit.1 hp).1 p' (mem_pending_commit.1 hp').1 heq

omit [DecidableEq κ] in
theorem rollback (h : Ok key db) : Ok key (db.rollback t) := by
  refine ⟨h.committed, fun p hp p' hp' heq => ?_⟩
  exact h.pending p (mem_pending_rollback.1 hp).1 p' (mem_pending_rollback.1 hp').1 heq

/-- A commit leaves the rows that another transaction has locked. -/
theorem mem_committed_commit_of_locked (h : Ok key db) {t' : τ} (hne : t' ≠ t) {v r : ρ}
    (hv : (t', v) ∈ db.pending) (heq : key v = key r) :
    r ∈ (db.commit key t).committed ↔ r ∈ db.committed := by
  have hnot : ∀ w, (t, w) ∈ db.pending → key w ≠ key r := by
    intro w hw hkey
    exact hne (Prod.mk.inj (h.pending _ hv _ hw (heq.trans hkey.symm))).1
  refine ⟨fun hr => ?_, fun hr => mem_visible.2 (.inr ⟨hr, hnot⟩)⟩
  rcases mem_visible.1 hr with hp | ⟨hc, -⟩
  · exact absurd rfl (hnot r hp)
  · exact hc

end Ok

/-- What a visit does: it has updated the one version of the row that it sees, or that version does
not satisfy the condition. -/
theorem visit_eq_some (h : Ok key db) {k : κ} {p : ρ → Bool} {f : ρ → ρ} {db' : Db ρ τ} {b : Bool}
    (hvisit : db.visit key t k p f = some (db', b)) :
    ¬ db.Locked key t k ∧
      ((∃ r ∈ db.visible key t, key r = k ∧ p r ∧ db' = db.write key t (f r) ∧ b = true) ∨
        (db' = db ∧ b = false ∧ ∀ r ∈ db.visible key t, key r = k → ¬ p r)) := by
  unfold visit at hvisit
  split at hvisit
  · cases hvisit
  · rename_i hfree
    refine ⟨hfree, ?_⟩
    split at hvisit
    · rename_i r hfind
      have hr := mem_of_find?_eq_some hfind
      have hk : key r = k := by simpa using find?_some hfind
      split at hvisit
      · rename_i hp
        cases hvisit
        exact .inl ⟨r, hr, hk, hp, rfl, rfl⟩
      · rename_i hp
        cases hvisit
        refine .inr ⟨rfl, rfl, fun r' hr' hk' => ?_⟩
        rw [h.eq_of_visible hr' hr (hk'.trans hk.symm)]
        exact hp
    · rename_i hfind
      cases hvisit
      refine .inr ⟨rfl, rfl, fun r' hr' hk' => ?_⟩
      have hno := find?_eq_none.1 hfind r' hr'
      simp [hk'] at hno

end Db

end Workforce.ReadCommitted
