import Workforce.Org.Tree
import Workforce.Foundations.ReadCommitted

/-!
# Two reorganisations at a time

Two transactions give units another parent, under READ COMMITTED. A transaction is the `UPDATE` of
the row with its triggers, statement by statement: the row is locked, the trigger before the update
selects the path of the new parent, and the trigger after it starts the `UPDATE` of the paths below,
which visits the rows one by one and then fires the triggers of those it has updated. A transaction
waits for a row that the other one has written, and may fail at any point.

The trigger reads a path that the other transaction may be about to change. That does not matter
when the rows tell: when the new parent is under the unit that the other one moves, then so is the
unit itself, and its row is written by both (`Separate`). Then the committed table is a tree in
every state (`reorganisations_keep_tree`).

* `Job`: what the writes of a transaction are, at each point of it.
* `Job.stable`: the commit of the other transaction leaves it so.
-/

namespace Workforce.Org.Reorganisation

open Runs Tables Paths Relation List Function
open ReadCommitted (Db)

/-! ## The transactions -/

/-- What a transaction sets: the parent of a unit. -/
structure Move where
  id : ℕ
  parentOrgUnitId : Option ℕ

/-- Where a transaction is. A trigger is fired with the row before and after an update. -/
inductive Phase
  | idle
  /-- The row to update is locked. -/
  | updating (old : OrgUnit)
  /-- Between statements, with triggers still to fire. -/
  | firing (triggers : List (OrgUnit × OrgUnit))
  /-- In the `UPDATE` of `fn_org_unit_cascade_path`: the rows still to visit, the updated ones, and
  the triggers that are to be fired after its own. -/
  | cascading (old new : OrgUnit) (targets : List ℕ) (updated triggers : List (OrgUnit × OrgUnit))
  | committed
  | failed
  deriving DecidableEq

/-- The table, and how far each of the two transactions is. -/
structure State where
  db : Db OrgUnit Bool
  phase : Bool → Phase

namespace State

variable (s : State) (t : Bool)

/-- No transaction has begun. -/
def start (units : List OrgUnit) : State := ⟨⟨units, []⟩, fun _ => .idle⟩

/-- The committed table. -/
def table : Org.State := ⟨0, s.db.committed, []⟩

/-- The table that a statement of the transaction sees. -/
def sees : Org.State := ⟨0, s.db.visible (·.id) t, []⟩

/-- The transaction goes on, with its writes so far. -/
def goOn (db : Db OrgUnit Bool) (phase : Phase) : State :=
  ⟨db, update s.phase t phase⟩

def fail : State := s.goOn t (s.db.rollback t) .failed

/-- The `UPDATE` locks its row. -/
def lock (m : Move) : Option State :=
  if s.db.Locked (·.id) t m.id then none
  else
    match (s.sees t).findById m.id with
    | none => some (s.goOn t s.db (.firing []))
    | some old => some (s.goOn t (s.db.write (·.id) t old) (.updating old))

/-- The trigger before the update, and the update. -/
def write (m : Move) (old : OrgUnit) : State :=
  let columns := { old.columns with parentOrgUnitId := m.parentOrgUnitId }
  match recomputePath (s.sees t) old { old with columns := columns } with
  | .error _ => s.fail t
  | .ok new => s.goOn t (s.db.write (·.id) t new) (.firing [(old, new)])

/-- The trigger after an update: its `UPDATE` starts, when the path has changed. -/
def fire (old new : OrgUnit) (triggers : List (OrgUnit × OrgUnit)) : State :=
  if old.path ≠ new.path then
    s.goOn t s.db
      (.cascading old new (s.db.targets (·.id) t (old.cascades new)) [] triggers)
  else s.goOn t s.db (.firing triggers)

/-- The rows that a visit updates. -/
def updatedBy (old new : OrgUnit) (k : ℕ) : List OrgUnit :=
  ((s.sees t).findById k).toList.filter (old.cascades new)

/-- The `UPDATE` visits a row. -/
def visit (k : ℕ) (old new : OrgUnit) (targets : List ℕ)
    (updated triggers : List (OrgUnit × OrgUnit)) : Option State :=
  match s.db.visit (·.id) t k (old.cascades new) (old.cascade new) with
  | none => none
  | some (db, _) =>
    let rows := s.updatedBy t old new k
    if rows.any fun u => u.path.length ≤ old.path.length then some (s.fail t)
    else
      some (s.goOn t db (.cascading old new (targets.erase k)
        (updated ++ rows.map fun u => (u, old.cascade new u)) triggers))

def commit : State := s.goOn t (s.db.commit (·.id) t) .committed

end State

/-- A step of a transaction: its locks, its `UPDATE`, its triggers, its commit. -/
inductive Action
  | lock (t : Bool)
  | write (t : Bool)
  | fire (t : Bool)
  | visit (t : Bool) (k : ℕ)
  /-- The `UPDATE` has visited all its rows, and the triggers of the updated ones are next. -/
  | finish (t : Bool)
  | commit (t : Bool)
  | fail (t : Bool)

def step (moves : Bool → Move) (s : State) : Action → Option State
  | .lock t =>
    match s.phase t with
    | .idle => s.lock t (moves t)
    | _ => none
  | .write t =>
    match s.phase t with
    | .updating old => some (s.write t (moves t) old)
    | _ => none
  | .fire t =>
    match s.phase t with
    | .firing ((old, new) :: triggers) => some (s.fire t old new triggers)
    | _ => none
  | .visit t k =>
    match s.phase t with
    | .cascading old new targets updated triggers =>
      if k ∈ targets then s.visit t k old new targets updated triggers else none
    | _ => none
  | .finish t =>
    match s.phase t with
    | .cascading _ _ [] updated triggers => some (s.goOn t s.db (.firing (updated ++ triggers)))
    | _ => none
  | .commit t =>
    match s.phase t with
    | .firing [] => some (s.commit t)
    | _ => none
  | .fail t =>
    match s.phase t with
    | .committed => none
    | _ => some (s.fail t)

/-- When the new parent of a unit is under the unit that the other transaction moves, then so is the
unit. -/
def Separate (moves : Bool → Move) (table : Org.State) : Prop :=
  ∀ t, ∀ x ∈ table.units, ∀ y ∈ table.units, ∀ a ∈ table.units, x.id = (moves t).id →
    y.id = (moves !t).id → (moves t).parentOrgUnitId = some a.id → y.path <+: a.path →
      y.path <+: x.path

/-! ## What a transaction has written -/

/-- The writes of a transaction after the update of its row: the rows under the old path, moved. -/
structure Rewrites (m : Move) (table : Org.State) (writes : Set OrgUnit) (old new : OrgUnit) :
    Prop where
  old_mem : old ∈ table.units
  old_id : old.id = m.id
  new_id : new.id = old.id
  parent : new.columns.parentOrgUnitId = m.parentOrgUnitId
  place : Place treeColumns table.rows old new.columns.parentOrgUnitId new.path
  new_mem : new ∈ writes
  rewritten : ∀ r ∈ writes, ∃ u ∈ table.units, old.path <+: u.path ∧ r = moved old new u

/-- Every row under the path is written, or is to be visited. -/
def Covered (table : Org.State) (writes : Set OrgUnit) (path : List ℕ) (targets : List ℕ) : Prop :=
  ∀ u ∈ table.units, path <+: u.path → (∃ r ∈ writes, r.id = u.id) ∨ u.id ∈ targets

/-- The triggers are of rows under the path. -/
def AllUnder (path : List ℕ) (triggers : List (OrgUnit × OrgUnit)) : Prop :=
  ∀ p ∈ triggers, path <+: p.1.path

/-- What a transaction has written, at each point of it. -/
def Job (m : Move) (table : Org.State) (writes : Set OrgUnit) : Phase → Prop
  | .idle | .committed | .failed => writes = ∅
  | .updating old => old ∈ table.units ∧ old.id = m.id ∧ writes = {old}
  | .firing triggers =>
    triggers = [] ∧ writes = ∅ ∨
      ∃ old new, Rewrites m table writes old new ∧
        (triggers = [(old, new)] ∨
          old.path = new.path ∧ triggers = [] ∨
          old.path ≠ new.path ∧ Covered table writes old.path [] ∧ AllUnder old.path triggers)
  | .cascading o n targets updated triggers =>
    ∃ old new, Rewrites m table writes old new ∧ old.path ≠ new.path ∧
      Covered table writes old.path targets ∧ AllUnder old.path updated ∧
      AllUnder old.path triggers ∧ (o = old ∧ n = new ∨ targets = [])

variable {m m' : Move} {table table' : Org.State} {writes writes' : Set OrgUnit}
  {old new old' new' : OrgUnit}

theorem moved_of_not_prefix {u : OrgUnit} (hne : u.id ≠ old.id) (hunder : ¬ old.path <+: u.path) :
    moved old new u = u := by
  rw [moved, if_neg hne, if_neg hunder]

namespace Rewrites

variable (h : Rewrites m table writes old new)

include h

theorem eq_moved (htree : table.Tree) {r u : OrgUnit} (hr : r ∈ writes) (hu : u ∈ table.units)
    (hid : r.id = u.id) : r = moved old new u := by
  obtain ⟨u₀, hu₀, -, rfl⟩ := h.rewritten r hr
  rw [moved_id h.new_id] at hid
  rw [htree.key_inj u₀ hu₀ u hu hid]

/-- A row that is not written stays as it is, once all rows under the path are written. -/
theorem moved_eq_self (hcovered : old.path ≠ new.path → Covered table writes old.path [])
    {u : OrgUnit} (hu : u ∈ table.units) (hfree : ∀ r ∈ writes, r.id ≠ u.id) :
    moved old new u = u := by
  have hne : u.id ≠ old.id := fun heq => hfree new h.new_mem (h.new_id.trans heq.symm)
  by_cases hpath : old.path = new.path
  · exact moved_of_path_eq hpath hne
  · refine moved_of_not_prefix hne fun hunder => ?_
    rcases hcovered hpath u hu hunder with ⟨r, hr, hid⟩ | hmem
    · exact hfree r hr hid
    · cases hmem

theorem not_prefix (htree : table.Tree) (hdiff : old.path ≠ new.path) {r : OrgUnit}
    (hr : r ∈ writes) : ¬ old.path <+: r.path := by
  obtain ⟨u, -, -, rfl⟩ := h.rewritten r hr
  exact not_prefix_moved htree h.old_mem h.place hdiff u

end Rewrites

/-! ## The other transaction commits -/

section Stable

variable (htree : table.Tree) (h : Rewrites m table writes old new)
  (hother : Rewrites m' table writes' old' new')
  (hcovered : old'.path ≠ new'.path → Covered table writes' old'.path [])
  (hdisjoint : ∀ r ∈ writes, ∀ r' ∈ writes', r.id ≠ r'.id)
  (hrows : table'.rows = Set.image (moved old' new') table.rows)

include hother hcovered hdisjoint in
theorem moved_eq_of_written {r u : OrgUnit} (hr : r ∈ writes) (hu : u ∈ table.units)
    (hid : r.id = u.id) : moved old' new' u = u :=
  hother.moved_eq_self hcovered hu fun r' hr' heq => hdisjoint r hr r' hr' (hid.trans heq.symm)

include hother hcovered hdisjoint hrows in
theorem mem_of_written {r u : OrgUnit} (hr : r ∈ writes) (hu : u ∈ table.units)
    (hid : r.id = u.id) : u ∈ table'.units := by
  have hmem : u ∈ table'.rows := by
    rw [hrows]
    exact ⟨u, hu, moved_eq_of_written hother hcovered hdisjoint hr hu hid⟩
  exact hmem

include htree h hother hcovered hdisjoint hrows

theorem Rewrites.stable
    (hsep : ∀ a ∈ table.units, m.parentOrgUnitId = some a.id → old'.path <+: a.path →
      old'.path <+: old.path) : Rewrites m table' writes old new where
  old_mem := mem_of_written hother hcovered hdisjoint hrows h.new_mem h.old_mem h.new_id
  old_id := h.old_id
  new_id := h.new_id
  parent := h.parent
  place := by
    rw [hrows]
    refine h.place.moved (moves_moved htree hother.old_mem hother.new_id hother.place)
      (fun a ha hparent hunder => hsep a ha (h.parent.symm.trans hparent) hunder)
      fun hunder => ?_
    -- the unit itself is not written by the other transaction
    by_contra hpath
    rcases hcovered hpath old h.old_mem hunder with ⟨r', hr', hid⟩ | hmem
    · exact hdisjoint new h.new_mem r' hr' (h.new_id.trans hid.symm)
    · cases hmem
  new_mem := h.new_mem
  rewritten := by
    intro r hr
    obtain ⟨u, hu, hunder, heq⟩ := h.rewritten r hr
    have hid : r.id = u.id := heq ▸ moved_id h.new_id u
    exact ⟨u, mem_of_written hother hcovered hdisjoint hrows hr hu hid, hunder, heq⟩

omit hdisjoint hcovered in
theorem Covered.stable (hne : m.id ≠ m'.id)
    (hsep : ∀ b ∈ table.units, m'.parentOrgUnitId = some b.id → old.path <+: b.path →
      old.path <+: old'.path) {targets : List ℕ}
    (hcov : Covered table writes old.path targets) : Covered table' writes old.path targets := by
  intro u' hu' hunder
  have hmem : u' ∈ table'.rows := hu'
  rw [hrows] at hmem
  obtain ⟨u, hu, rfl⟩ := hmem
  rw [moved_id hother.new_id]
  refine hcov u hu (Moves.prefix_of_prefix htree h.old_mem hother.old_mem ?_ hother.place
    (moves_moved htree hother.old_mem hother.new_id hother.place)
    (fun b hb hparent => hsep b hb (hother.parent.symm.trans hparent)) hu hunder)
  exact fun heq => hne (h.old_id.symm.trans (heq.trans hother.old_id))

end Stable

/-- The commit of a transaction leaves what the other one has done so far. -/
theorem Job.stable (htree : table.Tree) {phase : Phase} (hjob : Job m table writes phase)
    (hother : Rewrites m' table writes' old' new')
    (hcovered : old'.path ≠ new'.path → Covered table writes' old'.path [])
    (hdisjoint : ∀ r ∈ writes, ∀ r' ∈ writes', r.id ≠ r'.id)
    (hrows : table'.rows = Set.image (moved old' new') table.rows) (hne : m.id ≠ m'.id)
    (hsep : ∀ x ∈ table.units, ∀ a ∈ table.units, x.id = m.id → m.parentOrgUnitId = some a.id →
      old'.path <+: a.path → old'.path <+: x.path)
    (hsep' : ∀ x ∈ table.units, ∀ b ∈ table.units, x.id = m.id → m'.parentOrgUnitId = some b.id →
      x.path <+: b.path → x.path <+: old'.path) : Job m table' writes phase := by
  have hrewrites : ∀ {old new}, Rewrites m table writes old new →
      Rewrites m table' writes old new :=
    fun h => h.stable htree hother hcovered hdisjoint hrows fun a ha =>
      hsep _ h.old_mem a ha h.old_id
  have hcov : ∀ {old new targets}, Rewrites m table writes old new →
      Covered table writes old.path targets → Covered table' writes old.path targets :=
    fun h hcov => Covered.stable htree h hother hrows hne
      (fun b hb => hsep' _ h.old_mem b hb h.old_id) hcov
  cases phase with
  | idle | committed | failed => exact hjob
  | updating old =>
    obtain ⟨hold, hid, hwrites⟩ := hjob
    have hmem : old ∈ writes := by rw [hwrites]; rfl
    exact ⟨mem_of_written hother hcovered hdisjoint hrows hmem hold rfl, hid, hwrites⟩
  | firing triggers =>
    rcases hjob with hnone | ⟨old, new, h, hrest⟩
    · exact .inl hnone
    · refine .inr ⟨old, new, hrewrites h, hrest.imp_right (Or.imp_right ?_)⟩
      exact fun ⟨hpath, hc, hunder⟩ => ⟨hpath, hcov h hc, hunder⟩
  | cascading o n targets updated triggers =>
    obtain ⟨old, new, h, hpath, hc, hrest⟩ := hjob
    exact ⟨old, new, hrewrites h, hpath, hcov h hc, hrest⟩

/-! ## The invariant -/

/-- The writes of a transaction. -/
def writesOf (db : Db OrgUnit Bool) (t : Bool) : Set OrgUnit := {r | (t, r) ∈ db.pending}

structure Inv (moves : Bool → Move) (units : List OrgUnit) (s : State) : Prop where
  ok : Db.Ok OrgUnit.id s.db
  tree : s.table.Tree
  job : ∀ t, Job (moves t) s.table (writesOf s.db t) (s.phase t)
  /-- The table is the one of the start until a transaction commits. -/
  start : (∀ t, s.phase t ≠ .committed) → s.db.committed = units

variable {moves : Bool → Move} {units : List OrgUnit} {s s' : State} {t : Bool}

theorem Inv.goOn (hinv : Inv moves units s) (hactive : s.phase t ≠ .committed)
    {db : Db OrgUnit Bool} {phase : Phase} (hcommitted : db.committed = s.db.committed)
    (hok : Db.Ok OrgUnit.id db) (hother : writesOf db (!t) = writesOf s.db (!t))
    (hjob : Job (moves t) s.table (writesOf db t) phase) :
    Inv moves units (s.goOn t db phase) := by
  have htable : (s.goOn t db phase).table = s.table := by
    simp [State.table, State.goOn, hcommitted]
  refine ⟨hok, htable ▸ hinv.tree, fun t' => ?_, fun hnone => ?_⟩
  · rw [htable]
    rcases Bool.eq_or_eq_not t' t with rfl | rfl
    · simpa [State.goOn] using hjob
    · have hphase : (s.goOn t db phase).phase (!t) = s.phase (!t) := by
        simp [State.goOn, update]
      rw [hphase]
      exact hother.symm ▸ hinv.job (!t)
  · refine hcommitted.trans (hinv.start fun t' => ?_)
    rcases Bool.eq_or_eq_not t' t with rfl | rfl
    · exact hactive
    · have hphase := hnone (!t)
      simpa [State.goOn, update] using hphase

/-! ## Writes -/

variable {db : Db OrgUnit Bool} {r : OrgUnit}

theorem writesOf_write_not : writesOf (db.write OrgUnit.id t r) (!t) = writesOf db (!t) := by
  ext v
  simp [writesOf, Db.mem_pending_write]

theorem mem_writesOf_write {v : OrgUnit} :
    v ∈ writesOf (db.write OrgUnit.id t r) t ↔ v = r ∨ v ∈ writesOf db t ∧ v.id ≠ r.id := by
  simp [writesOf, Db.mem_pending_write]

theorem writesOf_rollback : writesOf (db.rollback t) t = ∅ := by
  ext v
  simp [writesOf, Db.mem_pending_rollback]

theorem writesOf_rollback_not : writesOf (db.rollback t) (!t) = writesOf db (!t) := by
  ext v
  simp [writesOf, Db.mem_pending_rollback]

theorem Inv.fail (hinv : Inv moves units s) (hactive : s.phase t ≠ .committed) :
    Inv moves units (s.fail t) :=
  hinv.goOn hactive rfl hinv.ok.rollback writesOf_rollback_not writesOf_rollback

theorem mem_sees : r ∈ (s.sees t).units ↔
    r ∈ writesOf s.db t ∨ r ∈ s.table.units ∧ ∀ v ∈ writesOf s.db t, v.id ≠ r.id :=
  Db.mem_visible

theorem sees_rows (htree : s.table.Tree) (hlocked : ∀ v ∈ writesOf s.db t, v ∈ s.table.units) :
    (s.sees t).rows = s.table.rows := by
  ext r
  refine mem_sees.trans ⟨?_, fun hr => ?_⟩
  · rintro (hr | ⟨hr, -⟩)
    · exact hlocked r hr
    · exact hr
  · by_cases hwritten : ∃ v ∈ writesOf s.db t, v.id = r.id
    · obtain ⟨v, hv, hid⟩ := hwritten
      exact .inl (htree.key_inj v (hlocked v hv) r hr hid ▸ hv)
    · exact .inr ⟨hr, fun v hv hid => hwritten ⟨v, hv, hid⟩⟩

/-! ## The steps of a transaction -/

theorem Inv.lock (hinv : Inv moves units s) (hphase : s.phase t = .idle)
    (h : s.lock t (moves t) = some s') : Inv moves units s' := by
  have hactive : s.phase t ≠ .committed := by simp [hphase]
  have hnone : writesOf s.db t = ∅ := by simpa [hphase, Job] using hinv.job t
  unfold State.lock at h
  split at h
  case isTrue => cases h
  case isFalse hfree =>
    split at h
    case h_1 =>
      cases h
      exact hinv.goOn hactive rfl hinv.ok rfl (.inl ⟨rfl, hnone⟩)
    case h_2 old hfind =>
      cases h
      obtain ⟨hmem, hid⟩ := mem_of_lookup hfind
      have hold : old ∈ s.table.units := by
        rcases mem_sees.1 hmem with hw | ⟨hc, -⟩
        · rw [hnone] at hw
          cases hw
        · exact hc
      refine hinv.goOn hactive rfl (hinv.ok.write (hid ▸ hfree)) writesOf_write_not
        ⟨hold, hid, ?_⟩
      ext v
      rw [mem_writesOf_write, hnone]
      simp

theorem Inv.write (hinv : Inv moves units s) {old : OrgUnit} (hphase : s.phase t = .updating old) :
    Inv moves units (s.write t (moves t) old) := by
  have hactive : s.phase t ≠ .committed := by simp [hphase]
  obtain ⟨hold, hid, hwrites⟩ : old ∈ s.table.units ∧ old.id = (moves t).id ∧
      writesOf s.db t = {old} := by simpa [hphase, Job] using hinv.job t
  have hrows : (s.sees t).rows = s.table.rows := by
    refine sees_rows hinv.tree fun v hv => ?_
    rw [hwrites] at hv
    obtain rfl : v = old := hv
    exact hold
  unfold State.write
  simp only
  split
  case h_1 => exact hinv.fail hactive
  case h_2 new hnew =>
    have hseen : (s.sees t).Tree := by
      rw [Org.State.Tree, hrows]
      exact hinv.tree
    have hold' : old ∈ (s.sees t).units := by
      have hmem : old ∈ (s.sees t).rows := hrows ▸ hold
      exact hmem
    obtain ⟨⟨path, heq⟩, hplace⟩ := recomputePath_ok hseen hold' hnew rfl rfl
    rw [hrows] at hplace
    have hid' : new.id = old.id := by rw [heq]
    have hparent : new.columns.parentOrgUnitId = (moves t).parentOrgUnitId := by rw [heq]
    have hfree : ¬ s.db.Locked OrgUnit.id t new.id := by
      rw [hid']
      rintro ⟨p, hp, hne, hkey⟩
      have hmine : (t, old) ∈ s.db.pending := by
        have : old ∈ writesOf s.db t := by rw [hwrites]; rfl
        exact this
      exact hne (congrArg Prod.fst (hinv.ok.pending p hp (t, old) hmine hkey))
    refine hinv.goOn hactive rfl (hinv.ok.write hfree) writesOf_write_not
      (.inr ⟨old, new, ⟨hold, hid, hid', hparent, hplace, mem_writesOf_write.2 (.inl rfl), ?_⟩,
        .inl rfl⟩)
    intro r hr
    rcases mem_writesOf_write.1 hr with rfl | ⟨hr, hne⟩
    · exact ⟨old, hold, prefix_refl _, by simp [moved]⟩
    · rw [hwrites] at hr
      obtain rfl : r = old := hr
      exact absurd hid'.symm hne

/-- The `UPDATE` of the paths below finds every row there that has not been written yet. -/
theorem Rewrites.covered (h : Rewrites m s.table (writesOf s.db t) old new) :
    Covered s.table (writesOf s.db t) old.path
      (s.db.targets OrgUnit.id t (old.cascades new)) := by
  intro u hu hunder
  by_cases hwritten : ∃ v ∈ writesOf s.db t, v.id = u.id
  · exact .inl hwritten
  · refine .inr (Db.mem_targets (mem_sees.2 (.inr ⟨hu, fun v hv hid => hwritten ⟨v, hv, hid⟩⟩)) ?_)
    exact OrgUnit.cascades_iff.2 ⟨hunder, fun hid => hwritten ⟨new, h.new_mem, hid.symm⟩⟩

variable {o n : OrgUnit}

/-- When all rows below have been written, the `UPDATE` of a trigger below finds no row. -/
theorem Rewrites.targets_eq_nil (h : Rewrites m s.table (writesOf s.db t) old new)
    (htree : s.table.Tree) (hdiff : old.path ≠ new.path)
    (hcov : Covered s.table (writesOf s.db t) old.path []) (hunder : old.path <+: o.path) :
    s.db.targets OrgUnit.id t (o.cascades n) = [] := by
  rw [Db.targets, map_eq_nil_iff, filter_eq_nil_iff]
  intro u hu hcascades
  have hle : old.path <+: u.path := hunder.trans (OrgUnit.cascades_iff.1 hcascades).1
  rcases mem_sees.1 hu with hw | ⟨hc, hfree⟩
  · exact h.not_prefix htree hdiff hw hle
  · rcases hcov u hc hle with ⟨v, hv, hid⟩ | hmem
    · exact hfree v hv hid
    · cases hmem

theorem Inv.fire (hinv : Inv moves units s) {triggers : List (OrgUnit × OrgUnit)}
    (hphase : s.phase t = .firing ((o, n) :: triggers)) :
    Inv moves units (s.fire t o n triggers) := by
  have hactive : s.phase t ≠ .committed := by simp [hphase]
  have hjob := hinv.job t
  rw [hphase] at hjob
  rcases hjob with ⟨hnil, -⟩ | ⟨old, new, h, hcase⟩
  · cases hnil
  unfold State.fire
  rcases hcase with hfirst | ⟨-, hnil⟩ | ⟨hdiff, hcov, hunder⟩
  · -- the trigger of the moved unit itself
    obtain ⟨hpair, rfl⟩ := cons.inj hfirst
    cases hpair
    split
    case isFalse hpath =>
      exact hinv.goOn hactive rfl hinv.ok rfl (.inr ⟨o, n, h, .inr (.inl ⟨not_not.1 hpath, rfl⟩)⟩)
    case isTrue hpath =>
      exact hinv.goOn hactive rfl hinv.ok rfl
        ⟨o, n, h, hpath, h.covered, by simp [AllUnder], by simp [AllUnder], .inl ⟨rfl, rfl⟩⟩
  · cases hnil
  · -- a trigger of a row below it, which finds no row
    have htriggers : AllUnder old.path triggers := fun p hp => hunder p (mem_cons_of_mem _ hp)
    split
    case isFalse =>
      exact hinv.goOn hactive rfl hinv.ok rfl
        (.inr ⟨old, new, h, .inr (.inr ⟨hdiff, hcov, htriggers⟩)⟩)
    case isTrue =>
      rw [h.targets_eq_nil hinv.tree hdiff hcov (hunder _ mem_cons_self)]
      exact hinv.goOn hactive rfl hinv.ok rfl
        ⟨old, new, h, hdiff, hcov, by simp [AllUnder], htriggers, .inr rfl⟩

theorem Rewrites.write (htree : s.table.Tree) (h : Rewrites m s.table (writesOf s.db t) old new)
    (hdiff : old.path ≠ new.path) (hr : r ∈ (s.sees t).units) (hcascades : old.cascades new r) :
    Rewrites m s.table (writesOf (s.db.write OrgUnit.id t (old.cascade new r)) t) old new := by
  obtain ⟨hunder, hne⟩ := OrgUnit.cascades_iff.1 hcascades
  have hmem : r ∈ s.table.units := by
    rcases mem_sees.1 hr with hw | ⟨hc, -⟩
    · exact absurd hunder (h.not_prefix htree hdiff hw)
    · exact hc
  refine ⟨h.old_mem, h.old_id, h.new_id, h.parent, h.place,
    mem_writesOf_write.2 (.inr ⟨h.new_mem, hne.symm⟩), fun v hv => ?_⟩
  rcases mem_writesOf_write.1 hv with rfl | ⟨hv, -⟩
  · refine ⟨r, hmem, hunder, ?_⟩
    rw [moved, if_neg fun hid => hne (hid.trans h.new_id.symm), if_pos hunder]
  · exact h.rewritten v hv

theorem Covered.visit (h : Rewrites m s.table (writesOf s.db t) old new) {targets : List ℕ} {k : ℕ}
    (hcov : Covered s.table (writesOf s.db t) old.path targets) {writes : Set OrgUnit}
    (hkeep : ∀ v ∈ writesOf s.db t, v.id ≠ k → v ∈ writes)
    (hvisited : (∃ v ∈ writes, v.id = k) ∨
      writesOf s.db t ⊆ writes ∧ ∀ u ∈ (s.sees t).units, u.id = k → ¬ old.cascades new u) :
    Covered s.table writes old.path (targets.erase k) := by
  intro u hu hunder
  by_cases hk : u.id = k
  · refine .inl ?_
    rcases hvisited with ⟨v, hv, hid⟩ | ⟨hsub, hno⟩
    · exact ⟨v, hv, hid.trans hk.symm⟩
    · by_contra hnot
      have hfree : ∀ v ∈ writesOf s.db t, v.id ≠ u.id := fun v hv hid => hnot ⟨v, hsub hv, hid⟩
      refine hno u (mem_sees.2 (.inr ⟨hu, hfree⟩)) hk ?_
      exact OrgUnit.cascades_iff.2 ⟨hunder, (hfree new h.new_mem).symm⟩
  · rcases hcov u hu hunder with ⟨v, hv, hid⟩ | hmem
    · exact .inl ⟨v, hkeep v hv (hid ▸ hk), hid⟩
    · exact .inr ((mem_erase_of_ne hk).2 hmem)

theorem Inv.visit (hinv : Inv moves units s) {targets : List ℕ} {k : ℕ}
    {updated triggers : List (OrgUnit × OrgUnit)}
    (hphase : s.phase t = .cascading o n targets updated triggers) (hk : k ∈ targets)
    (h : s.visit t k o n targets updated triggers = some s') : Inv moves units s' := by
  have hactive : s.phase t ≠ .committed := by simp [hphase]
  have hjob := hinv.job t
  rw [hphase] at hjob
  obtain ⟨old, new, hrew, hdiff, hcov, hupdated, htriggers, hcase⟩ := hjob
  obtain ⟨rfl, rfl⟩ := hcase.resolve_right (ne_nil_of_mem hk)
  unfold State.visit at h
  split at h
  case h_1 => cases h
  case h_2 db affected hvisit =>
    simp only at h
    split at h
    case isTrue =>
      cases h
      exact hinv.fail hactive
    case isFalse =>
      cases h
      have hunder : AllUnder o.path
          (updated ++ (s.updatedBy t o n k).map fun u => (u, o.cascade n u)) := by
        intro p hp
        rcases mem_append.1 hp with hp | hp
        · exact hupdated p hp
        · obtain ⟨u, hu, rfl⟩ := mem_map.1 hp
          exact (OrgUnit.cascades_iff.1 (mem_filter.1 hu).2).1
      obtain ⟨hfree, ⟨r, hr, rfl, hcascades, rfl, -⟩ | ⟨rfl, -, hno⟩⟩ :=
        Db.visit_eq_some hinv.ok hvisit
      · refine hinv.goOn hactive rfl (hinv.ok.write hfree) writesOf_write_not
          ⟨o, n, hrew.write hinv.tree hdiff hr hcascades, hdiff, ?_, hunder, htriggers,
            .inl ⟨rfl, rfl⟩⟩
        refine hcov.visit hrew (fun v hv hne => mem_writesOf_write.2 (.inr ⟨hv, hne⟩)) (.inl ?_)
        exact ⟨o.cascade n r, mem_writesOf_write.2 (.inl rfl), rfl⟩
      · refine hinv.goOn hactive rfl hinv.ok rfl
          ⟨o, n, hrew, hdiff, ?_, hunder, htriggers, .inl ⟨rfl, rfl⟩⟩
        exact hcov.visit hrew (fun v hv _ => hv) (.inr ⟨subset_rfl, hno⟩)

theorem Inv.finish (hinv : Inv moves units s) {updated triggers : List (OrgUnit × OrgUnit)}
    (hphase : s.phase t = .cascading o n [] updated triggers) :
    Inv moves units (s.goOn t s.db (.firing (updated ++ triggers))) := by
  have hjob := hinv.job t
  rw [hphase] at hjob
  obtain ⟨old, new, hrew, hdiff, hcov, hupdated, htriggers, -⟩ := hjob
  refine hinv.goOn (by simp [hphase]) rfl hinv.ok rfl
    (.inr ⟨old, new, hrew, .inr (.inr ⟨hdiff, hcov, fun p hp => ?_⟩)⟩)
  exact (mem_append.1 hp).elim (hupdated p) (htriggers p)

/-! ## A commit -/

theorem writesOf_commit : writesOf (db.commit OrgUnit.id t) t = ∅ := by
  ext v
  simp [writesOf, Db.mem_pending_commit]

theorem writesOf_commit_not : writesOf (db.commit OrgUnit.id t) (!t) = writesOf db (!t) := by
  ext v
  simp [writesOf, Db.mem_pending_commit]

theorem Rewrites.sees_rows (htree : s.table.Tree)
    (h : Rewrites m s.table (writesOf s.db t) old new)
    (hcovered : old.path ≠ new.path → Covered s.table (writesOf s.db t) old.path []) :
    (s.sees t).rows = Set.image (moved old new) s.table.rows := by
  ext r
  refine mem_sees.trans ⟨?_, ?_⟩
  · rintro (hw | ⟨hc, hfree⟩)
    · obtain ⟨u, hu, -, rfl⟩ := h.rewritten r hw
      exact Set.mem_image_of_mem _ hu
    · exact ⟨r, hc, h.moved_eq_self hcovered hc hfree⟩
  · rintro ⟨u, hu, rfl⟩
    by_cases hwritten : ∃ v ∈ writesOf s.db t, v.id = u.id
    · obtain ⟨v, hv, hid⟩ := hwritten
      exact .inl (h.eq_moved htree hv hu hid ▸ hv)
    · have hfree : ∀ v ∈ writesOf s.db t, v.id ≠ u.id := fun v hv hid => hwritten ⟨v, hv, hid⟩
      rw [h.moved_eq_self hcovered hu hfree]
      exact .inr ⟨hu, hfree⟩

theorem visible_of_writesOf_empty (h : writesOf db t = ∅) :
    db.visible OrgUnit.id t = db.committed := by
  have hown : db.own t = [] := by
    rw [eq_nil_iff_forall_not_mem]
    intro r hr
    have hmem : r ∈ writesOf db t := Db.mem_own.1 hr
    rw [h] at hmem
    cases hmem
  simp [Db.visible, hown]

section Commit

variable (hinv : Inv moves units s) (hne : ∀ t, (moves t).id ≠ (moves !t).id)
  (hsep : Separate moves ⟨0, units, []⟩) (hphase : s.phase t = .firing [])

/-- What is left to show for a commit: the tree, and what the other transaction has written. -/
theorem inv_commit_of_table (hok : Db.Ok OrgUnit.id s.db) (htree : (s.commit t).table.Tree)
    (hjob : Job (moves !t) (s.commit t).table (writesOf s.db !t) (s.phase !t)) :
    Inv moves units (s.commit t) := by
  refine ⟨hok.commit, htree, fun t' => ?_, fun hnone => ?_⟩
  · rcases Bool.eq_or_eq_not t' t with rfl | rfl
    · have hphase' : (s.commit t').phase t' = .committed := by
        simp [State.commit, State.goOn]
      rw [hphase']
      exact writesOf_commit
    · have hphase' : (s.commit t).phase (!t) = s.phase !t := by
        simp [State.commit, State.goOn, update]
      have hwrites : writesOf (s.commit t).db (!t) = writesOf s.db !t := writesOf_commit_not
      rw [hphase', hwrites]
      exact hjob
  · have hcommitted := hnone t
    simp [State.commit, State.goOn] at hcommitted

include hinv hphase hne hsep

theorem Inv.commit : Inv moves units (s.commit t) := by
  have hjob := hinv.job t
  rw [hphase] at hjob
  rcases hjob with ⟨-, hnone⟩ | ⟨old, new, h, hcase⟩
  · -- there was no row to update
    have htable : (s.commit t).table = s.table := by
      simp [State.commit, State.goOn, State.table, Db.commit, visible_of_writesOf_empty hnone]
    exact inv_commit_of_table hinv.ok (htable ▸ hinv.tree) (htable ▸ hinv.job !t)
  · have hcovered : old.path ≠ new.path → Covered s.table (writesOf s.db t) old.path [] := by
      intro hdiff
      rcases hcase with hnil | ⟨hpath, -⟩ | ⟨-, hcov, -⟩
      · cases hnil
      · exact absurd hpath hdiff
      · exact hcov
    have hrows : (s.commit t).table.rows = Set.image (moved old new) s.table.rows :=
      h.sees_rows hinv.tree hcovered
    refine inv_commit_of_table hinv.ok ?_ ?_
    · rw [Org.State.Tree, hrows]
      exact Consistent.move hinv.tree h.old_mem h.place
        (moves_moved hinv.tree h.old_mem h.new_id h.place)
    · have hother := hinv.job !t
      by_cases hcommitted : s.phase (!t) = .committed
      · rw [hcommitted] at hother ⊢
        exact hother
      · have hstart : s.table = ⟨0, units, []⟩ := by
          rw [State.table, hinv.start fun t' => ?_]
          rcases Bool.eq_or_eq_not t' t with rfl | rfl
          · simp [hphase]
          · exact hcommitted
        rw [← hstart] at hsep
        have hdisjoint : ∀ r ∈ writesOf s.db (!t), ∀ r' ∈ writesOf s.db t, r.id ≠ r'.id := by
          intro r hr r' hr' hid
          exact Bool.not_ne_self t
            (congrArg Prod.fst (hinv.ok.pending (!t, r) hr (t, r') hr' hid))
        refine hother.stable hinv.tree h hcovered hdisjoint hrows (hne t).symm ?_ ?_
        · intro x hx a ha hid hparent hunder
          exact hsep (!t) x hx old h.old_mem a ha hid (by rw [Bool.not_not, h.old_id]) hparent
            hunder
        · intro x hx b hb hid hparent hunder
          exact hsep t old h.old_mem x hx b hb h.old_id hid hparent hunder

end Commit

/-! ## Runs -/

theorem inv_start {table : Org.State} (htree : table.Tree) :
    Inv moves table.units (State.start table.units) where
  ok := ⟨fun r hr r' hr' => htree.key_inj r hr r' hr', by simp [State.start]⟩
  tree := htree
  job := by
    intro t
    ext v
    simp [writesOf, State.start]
  start := fun _ => rfl

theorem Inv.step (hne : ∀ t, (moves t).id ≠ (moves !t).id)
    (hsep : Separate moves ⟨0, units, []⟩) {a : Action} (hinv : Inv moves units s)
    (h : step moves s a = some s') : Inv moves units s' := by
  cases a with
  | lock t =>
    simp only [Reorganisation.step] at h
    split at h
    case h_1 hphase => exact hinv.lock hphase h
    case h_2 => cases h
  | write t =>
    simp only [Reorganisation.step] at h
    split at h
    case h_1 old hphase =>
      cases h
      exact hinv.write hphase
    case h_2 => cases h
  | fire t =>
    simp only [Reorganisation.step] at h
    split at h
    case h_1 old new triggers hphase =>
      cases h
      exact hinv.fire hphase
    case h_2 => cases h
  | visit t k =>
    simp only [Reorganisation.step] at h
    split at h
    case h_1 old new targets updated triggers hphase =>
      split at h
      case isTrue hk => exact hinv.visit hphase hk h
      case isFalse => cases h
    case h_2 => cases h
  | finish t =>
    simp only [Reorganisation.step] at h
    split at h
    case h_1 hphase =>
      cases h
      exact hinv.finish hphase
    case h_2 => cases h
  | commit t =>
    simp only [Reorganisation.step] at h
    split at h
    case h_1 hphase =>
      cases h
      exact hinv.commit hne hsep hphase
    case h_2 => cases h
  | fail t =>
    simp only [Reorganisation.step] at h
    split at h
    case h_1 => cases h
    case h_2 hphase =>
      cases h
      exact hinv.fail hphase

/-- However two reparenting transactions on different units of a tree are interleaved, the committed
units form a tree in every state, and so after both have committed, when for each of them the new
parent is under the unit that the other one moves only if its own unit is. -/
theorem reorganisations_keep_tree {table : Org.State} (htree : table.Tree)
    (hne : (moves true).id ≠ (moves false).id) (hsep : Separate moves table) {as : List Action}
    (h : exec (step moves) (State.start table.units) as = some s) :
    s.table.PathsFollowParents ∧ ∀ u, ¬ TransGen s.table.ParentEdge u u := by
  have hne' : ∀ t, (moves t).id ≠ (moves !t).id := by
    intro t
    cases t with
    | true => exact hne
    | false => exact hne.symm
  have hinv := exec_keeps (Inv moves table.units)
    (fun _ _ _ hinv hstep => hinv.step hne' hsep hstep) (inv_start htree) h
  exact ⟨hinv.tree.pathsFollowParents, hinv.tree.acyclic⟩

/-! ## Two runs -/

/-- Columns of a unit that differ by the parent only. -/
def departmentUnder (parentOrgUnitId : Option ℕ) : OrgUnitColumns :=
  ⟨parentOrgUnitId, .department, "Support", "UTC", "DE", .active⟩

/-- Two roots, the first with a unit below it. -/
def threeUnits : Org.State where
  clock := 0
  units := [⟨1, departmentUnder none, [1], 0⟩, ⟨2, departmentUnder none, [2], 0⟩,
    ⟨3, departmentUnder (some 1), [1, 3], 0⟩]
  history := [⟨1, 0, none, departmentUnder none⟩, ⟨2, 0, none, departmentUnder none⟩,
    ⟨3, 0, none, departmentUnder (some 1)⟩]

theorem threeUnits_tree : threeUnits.Tree := by
  have hexec : exec Org.step Org.State.init [.insert 1 (departmentUnder none),
      .insert 2 (departmentUnder none), .insert 3 (departmentUnder (some 1))]
      = some threeUnits := by
    decide
  exact tree_of_exec hexec

/-- The unit below the first root becomes a root, while that root goes below the other one. -/
def apart : Bool → Move
  | true => ⟨1, some 2⟩
  | false => ⟨3, none⟩

theorem apart_keep_tree : ∃ s, exec (step apart) (State.start threeUnits.units)
      [.lock false, .write false, .lock true, .write true, .fire true, .fire false, .finish false,
        .commit false, .visit true 3, .finish true, .commit true] = some s ∧
    s.db.committed.map (·.path) = [[2], [3], [2, 1]] ∧
    s.table.PathsFollowParents := by
  obtain ⟨s, hs, hpaths⟩ : ∃ s, exec (step apart) (State.start threeUnits.units)
      [.lock false, .write false, .lock true, .write true, .fire true, .fire false, .finish false,
        .commit false, .visit true 3, .finish true, .commit true] = some s ∧
      s.db.committed.map (·.path) = [[2], [3], [2, 1]] := exists_exec (by decide)
  have hsep : Separate apart threeUnits := by
    unfold Separate
    decide
  exact ⟨s, hs, hpaths, (reorganisations_keep_tree threeUnits_tree (by decide) hsep hs).1⟩

/-- Each of the two roots goes below the other one. -/
def crossed : Bool → Move
  | true => ⟨1, some 2⟩
  | false => ⟨2, some 1⟩

theorem crossed_cycle : ∃ s, exec (step crossed) (State.start threeUnits.units)
      [.lock true, .write true, .fire true, .visit true 3, .finish true, .fire true, .finish true,
        .lock false, .write false, .fire false, .finish false, .commit true, .commit false]
      = some s ∧
    (∀ t, s.phase t = .committed) ∧ ∃ u, TransGen s.table.ParentEdge u u := by
  obtain ⟨s, hs, hphase, h₁, h₂⟩ : ∃ s, exec (step crossed) (State.start threeUnits.units)
      [.lock true, .write true, .fire true, .visit true 3, .finish true, .fire true, .finish true,
        .lock false, .write false, .fire false, .finish false, .commit true, .commit false]
      = some s ∧
      (∀ t, s.phase t = .committed) ∧
      ⟨1, departmentUnder (some 2), [2, 1], 0⟩ ∈ s.db.committed ∧
      ⟨2, departmentUnder (some 1), [1, 2], 0⟩ ∈ s.db.committed := exists_exec (by decide)
  exact ⟨s, hs, hphase, _, .tail (.single ⟨h₁, h₂, rfl⟩) ⟨h₂, h₁, rfl⟩⟩

end Workforce.Org.Reorganisation
