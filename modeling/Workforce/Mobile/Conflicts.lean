import Workforce.Mobile.ChunkedStore
import Workforce.Mobile.SyncEngine

/-!
# Conflicts of offline actions

`syncEngine.ts` moves an action that the server reports as a conflict from the queue to the store of
conflicts (`conflicts.ts`) with two calls: `addConflict`, then `removeAction`. Any number of runs of
`syncPendingActions` overlap; the calls of one store run one after another, but those of different
runs in any order. The app may be killed between two calls or inside one, in each store after any
number of writes.

* `ShownOnce`: a conflict is listed at most once, and is in one of the stores until it is dismissed;
  once a run that heard of it has ended it is listed and out of the queue.
* `shownOnce_iff`: exactly when that holds all along a run of the system.
-/

namespace Workforce.Mobile

open List Function

open ChunkedStore (Storage made)
open ChunkedStore.Storage (Keyed)

structure QueuedConflict where
  id : String
  actionType : OfflineActionType
  code : String
  message : String
  detectedAt : ℤ

/-- A result as the app reads it, with `conflictDetails?.code` and `conflictDetails?.message`. -/
structure SyncActionResult where
  actionId : String
  actionType : OfflineActionType
  status : OfflineActionStatus
  code : Option String
  message : Option String

/-- The conflict that a result is shown as. -/
def SyncActionResult.conflict (result : SyncActionResult) (detectedAt : ℤ) : QueuedConflict :=
  ⟨result.actionId, result.actionType, result.code.getD "CONFLICT",
    result.message.getD "A conflict occurred.", detectedAt⟩

/-- A run of `syncPendingActions`: the batches it has to send, the first one under way when there
are no results, and the results it has to deal with. -/
structure SyncRun where
  batches : List (List QueuedAction)
  results : List SyncActionResult
  /-- The conflict of the first result has been added. -/
  added : Bool
  /-- All actions that it was told are in conflict. -/
  conflicts : List String

/-- The stores and the runs; the lists that follow are kept for the record. -/
structure StoresState where
  pending : Storage QueuedAction
  conflicts : Storage QueuedConflict
  runs : ℕ → Option SyncRun
  /-- The app has been killed inside a call of the queue. -/
  cutPending : Bool
  cutConflicts : Bool
  enqueued : List String
  /-- The actions reported as conflicts in an answer that arrived. -/
  reported : List String
  /-- The actions taken out of the queue as synced. -/
  taken : List String
  dismissed : List String
  /-- The actions reported as conflicts to a run that has ended. -/
  moved : List String

/-- A call makes all its writes, or the app is killed after so many of them. -/
inductive StoresStep
  | enqueue (action : QueuedAction) (killed : Option ℕ)
  | beginRun (r : ℕ)
  | unreachable (r : ℕ)
  | respond (r : ℕ) (results : List SyncActionResult)
  | addConflict (r : ℕ) (detectedAt : ℤ) (killed : Option ℕ)
  | removeAction (r : ℕ) (killed : Option ℕ)
  /-- `failed`: leave queued. -/
  | leave (r : ℕ)
  | endRun (r : ℕ)
  | dismiss (id : String) (killed : Option ℕ)
  /-- The app is started again. -/
  | restart

namespace StoresState

variable (s : StoresState)

/-- The ids of `listPendingActions`. -/
def pendingIds : List String := s.pending.ids (·.id)

/-- The ids of `listConflicts`. -/
def conflictIds : List String := s.conflicts.ids (·.id)

/-- The app has not been killed in the middle of a write. -/
def Alive : Prop := s.cutPending = false ∧ s.cutConflicts = false
  deriving Decidable

/-- A kill cuts one call in each store at most. -/
def Callable (cut : Bool) (killed : Option ℕ) : Prop := cut = false ∧ (killed = none → s.Alive)
  deriving Decidable

def setRun (r : ℕ) (run : Option SyncRun) : StoresState :=
  { s with runs := update s.runs r run }

/-- A run goes on once a call has made all its writes. -/
def proceed (r : ℕ) (killed : Option ℕ) (run : SyncRun) : StoresState :=
  if killed = none then s.setRun r (some run) else s

/-- `removeAction`, for a run that was told the action has this status. -/
def takeOut (result : SyncActionResult) (killed : Option ℕ) : StoresState :=
  let pending := s.pending.writeAll (made killed (s.pending.remove result.actionId))
  { s with
    pending := pending
    cutPending := killed.isSome
    taken :=
      if result.status = .synced then
        s.taken ++ s.pendingIds.filter (· ∉ pending.ids (·.id))
      else s.taken }

/-- `dismissConflict`. -/
def dismiss (id : String) (killed : Option ℕ) : StoresState :=
  let conflicts := s.conflicts.writeAll (made killed (s.conflicts.remove id))
  { s with
    conflicts := conflicts
    cutConflicts := killed.isSome
    dismissed := s.dismissed ++ s.conflictIds.filter (· ∉ conflicts.ids (·.id)) }

/-- `addConflict`. -/
def addConflict (conflict : QueuedConflict) (killed : Option ℕ) : StoresState :=
  { s with
    conflicts := s.conflicts.writeAll (made killed (s.conflicts.add conflict.id conflict))
    cutConflicts := killed.isSome }

/-- `enqueueAction`. -/
def enqueue (action : QueuedAction) (killed : Option ℕ) : StoresState :=
  { s with
    pending := s.pending.writeAll (made killed (s.pending.add action.id action))
    cutPending := killed.isSome
    enqueued := s.enqueued ++ [action.id] }

end StoresState

/-- The actions that are reported as conflicts. -/
def conflictsOf (results : List SyncActionResult) : List String :=
  (results.filter (·.status = .conflict)).map (·.actionId)

def storesStep (s : StoresState) : StoresStep → Option StoresState
  | .enqueue action killed =>
    -- the id of an action is a new one
    if s.Callable s.cutPending killed ∧ action.id ∉ s.enqueued then some (s.enqueue action killed)
    else none
  | .beginRun r =>
    if s.Alive ∧ (s.runs r).isNone then
      some ({ s with pending := s.pending.writeAll s.pending.list.2 }.setRun r
        (some ⟨chunk (ordered s.pending.listed) maxBatchSize, [], false, []⟩))
    else none
  | .unreachable r =>
    match s.runs r with
    | some ⟨_ :: batches, [], _, conflicts⟩ =>
      if s.Alive then some (s.setRun r (some ⟨batches, [], false, conflicts⟩)) else none
    | _ => none
  | .respond r results =>
    match s.runs r with
    | some ⟨batch :: batches, [], _, conflicts⟩ =>
      if s.Alive ∧ results.map (·.actionId) = batch.map (·.id) then
        some ({ s with reported := s.reported ++ conflictsOf results }.setRun r
          (some ⟨batches, results, false, conflicts ++ conflictsOf results⟩))
      else none
    | _ => none
  | .addConflict r detectedAt killed =>
    match s.runs r with
    | some ⟨batches, result :: results, false, conflicts⟩ =>
      if s.Callable s.cutConflicts killed ∧ result.status = .conflict then
        some ((s.addConflict (result.conflict detectedAt) killed).proceed r killed
          ⟨batches, result :: results, true, conflicts⟩)
      else none
    | _ => none
  | .removeAction r killed =>
    match s.runs r with
    | some ⟨batches, result :: results, added, conflicts⟩ =>
      if s.Callable s.cutPending killed ∧
          (result.status = .synced ∨ result.status = .conflict ∧ added = true) then
        some ((s.takeOut result killed).proceed r killed ⟨batches, results, false, conflicts⟩)
      else none
    | _ => none
  | .leave r =>
    match s.runs r with
    | some ⟨batches, result :: results, _, conflicts⟩ =>
      if s.Alive ∧ result.status.isTerminal = false then
        some (s.setRun r (some ⟨batches, results, false, conflicts⟩))
      else none
    | _ => none
  | .endRun r =>
    match s.runs r with
    | some ⟨[], [], _, conflicts⟩ =>
      if s.Alive then some ({ s with moved := s.moved ++ conflicts }.setRun r none) else none
    | _ => none
  | .dismiss id killed =>
    if s.Callable s.cutConflicts killed then some (s.dismiss id killed) else none
  | .restart => some { s with runs := fun _ => none, cutPending := false, cutConflicts := false }

/-! ## Conflicts that are shown once -/

namespace StoresState

variable (s : StoresState)

/-- The conflict is listed, or has been dismissed. -/
def Shown (id : String) : Prop := id ∈ s.conflictIds ∨ id ∈ s.dismissed
  deriving Decidable

/-- No conflict is lost, shown twice, or left in the queue. -/
structure ShownOnce : Prop where
  once : (s.conflictIds ++ s.dismissed).Nodup
  kept : ∀ id ∈ s.reported, id ∈ s.pendingIds ∨ s.Shown id
  moved : ∀ id ∈ s.moved, id ∉ s.pendingIds ∧ s.Shown id

end StoresState

/-- An action that a run is dealing with. -/
def headOf (run : Option SyncRun) : Option SyncActionResult := run.bind (·.results.head?)

/-- A conflict is not added again, and no action is reported both as a conflict and as synced before
it is shown. -/
def MovesOnce (s : StoresState) : StoresStep → Prop
  | .respond _ results => ∀ id ∈ conflictsOf results, id ∈ s.taken → s.Shown id
  | .addConflict r _ killed => ∀ result ∈ headOf (s.runs r),
      s.conflicts.Lists killed → ¬ s.Shown result.actionId
  | .removeAction r killed => ∀ result ∈ headOf (s.runs r), result.status = .synced →
      killed ≠ some 0 → result.actionId ∈ s.reported → s.Shown result.actionId
  | _ => True

instance (s : StoresState) : DecidablePred (MovesOnce s) := fun step => by
  cases step <;> unfold MovesOnce <;> infer_instance

namespace StoresState

variable (s : StoresState)

/-- What can have come of an action that a run has listed. -/
def Known (id : String) : Prop := id ∈ s.pendingIds ∨ id ∈ s.taken ∨ s.Shown id

end StoresState

/-- The actions a run has yet to deal with. -/
def SyncRun.ids (run : SyncRun) : List String :=
  run.batches.flatten.map (·.id) ++ run.results.map (·.actionId)

structure SyncRun.Inv (s : StoresState) (run : SyncRun) : Prop where
  known : ∀ id ∈ run.ids, id ∈ s.enqueued ∧ s.Known id
  added : run.added = true → ∀ result ∈ run.results.head?, s.Shown result.actionId
  conflicts : ∀ id ∈ run.conflicts, id ∈ s.enqueued ∧
    (id ∈ conflictsOf run.results ∨ id ∉ s.pendingIds ∧ s.Shown id)

structure StoresInv (s : StoresState) : Prop where
  pending : Keyed (·.id) s.pending
  conflicts : Keyed (·.id) s.conflicts
  shown : s.ShownOnce
  distinct : s.pendingIds.Nodup
  enqueued : ∀ id ∈ s.pendingIds, id ∈ s.enqueued
  taken : ∀ id ∈ s.taken, id ∈ s.enqueued ∧ id ∉ s.pendingIds
  moved : ∀ id ∈ s.moved, id ∈ s.enqueued
  runs : ∀ r, ∀ run ∈ s.runs r, run.Inv s

/-- What no step takes back. -/
structure StoresLater (s t : StoresState) : Prop where
  enqueued : ∀ id ∈ s.enqueued, id ∈ t.enqueued
  shown : ∀ id, s.Shown id → t.Shown id
  known : ∀ id, s.Known id → t.Known id
  gone : ∀ id ∈ s.enqueued, id ∉ s.pendingIds → id ∉ t.pendingIds

section Steps

variable {s t : StoresState} {run : SyncRun} {killed : Option ℕ}

theorem SyncRun.Inv.later (h : run.Inv s) (hl : StoresLater s t) : run.Inv t where
  known := fun id hid => (h.known id hid).imp (hl.enqueued id) (hl.known id)
  added := fun hadded result hresult => hl.shown _ (h.added hadded result hresult)
  conflicts := fun id hid =>
    let ⟨henqueued, hcases⟩ := h.conflicts id hid
    ⟨hl.enqueued id henqueued, hcases.imp_right (And.imp (hl.gone id henqueued) (hl.shown id))⟩

theorem StoresLater.same (hpending : t.pending = s.pending) (hconflicts : t.conflicts = s.conflicts)
    (henqueued : t.enqueued = s.enqueued) (htaken : t.taken = s.taken)
    (hdismissed : t.dismissed = s.dismissed) : StoresLater s t := by
  have hids : t.pendingIds = s.pendingIds := by unfold StoresState.pendingIds; rw [hpending]
  have hshown : ∀ id, t.Shown id ↔ s.Shown id := fun id => by
    unfold StoresState.Shown StoresState.conflictIds
    rw [hconflicts, hdismissed]
  refine ⟨fun id => henqueued ▸ fun h => h, fun id => (hshown id).2, fun id h => ?_,
    fun id _ => hids ▸ fun h => h⟩
  unfold StoresState.Known
  rw [hids, htaken, hshown]
  exact h

theorem StoresInv.setRun (h : StoresInv s) (r : ℕ) {next : Option SyncRun}
    (hnext : ∀ run ∈ next, run.Inv s) : StoresInv (s.setRun r next) := by
  have hl : StoresLater s (s.setRun r next) := .same rfl rfl rfl rfl rfl
  refine ⟨h.pending, h.conflicts, ⟨h.shown.once, h.shown.kept, h.shown.moved⟩, h.distinct,
    h.enqueued, h.taken, h.moved, fun q run hrun => ?_⟩
  change run ∈ update s.runs r next q at hrun
  by_cases hq : q = r
  · subst hq
    rw [update_self] at hrun
    exact (hnext run hrun).later hl
  · rw [update_of_ne hq] at hrun
    exact (h.runs q run hrun).later hl

theorem StoresInv.proceed (h : StoresInv s) (r : ℕ) (hnext : killed = none → run.Inv s) :
    StoresInv (s.proceed r killed run) := by
  unfold StoresState.proceed
  split
  · rename_i hnone
    refine h.setRun r fun run' hrun' => ?_
    obtain rfl := Option.some.inj hrun'
    exact hnext hnone
  · exact h

/-! ### The calls of the stores -/

theorem pendingIds_enqueue (h : StoresInv s) (action : QueuedAction) (killed : Option ℕ) :
    (s.enqueue action killed).pendingIds =
      if s.pending.Lists killed then s.pendingIds ++ [action.id] else s.pendingIds :=
  (h.pending.add action killed).2

theorem pendingIds_takeOut (h : StoresInv s) (result : SyncActionResult) (killed : Option ℕ) :
    (s.takeOut result killed).pendingIds = if killed = some 0 then s.pendingIds
      else s.pendingIds.filter (· ≠ result.actionId) :=
  (h.pending.remove h.distinct result.actionId killed).2

theorem conflictIds_addConflict (h : StoresInv s) (conflict : QueuedConflict) (killed : Option ℕ) :
    (s.addConflict conflict killed).conflictIds =
      if s.conflicts.Lists killed then s.conflictIds ++ [conflict.id] else s.conflictIds :=
  (h.conflicts.add conflict killed).2

theorem conflictIds_dismiss (h : StoresInv s) (id : String) (killed : Option ℕ) :
    (s.dismiss id killed).conflictIds = if killed = some 0 then s.conflictIds
      else s.conflictIds.filter (· ≠ id) :=
  (h.conflicts.remove (nodup_append.1 h.shown.once).1 id killed).2

theorem StoresInv.enqueue (h : StoresInv s) {action : QueuedAction}
    (hfresh : action.id ∉ s.enqueued) (killed : Option ℕ) :
    StoresInv (s.enqueue action killed) := by
  have hids := pendingIds_enqueue h action killed
  have hmem : ∀ id, id ∈ (s.enqueue action killed).pendingIds → id ∈ s.pendingIds ∨
      id = action.id := by
    intro id hid
    rw [hids] at hid
    split at hid
    · exact (mem_append.1 hid).imp_right mem_singleton.1
    · exact .inl hid
  have hold : ∀ id ∈ s.pendingIds, id ∈ (s.enqueue action killed).pendingIds := by
    intro id hid
    rw [hids]
    split
    · exact mem_append_left _ hid
    · exact hid
  have hgone : ∀ id ∈ s.enqueued, id ∉ s.pendingIds →
      id ∉ (s.enqueue action killed).pendingIds := fun id henqueued hno hid =>
    (hmem id hid).elim hno fun heq => hfresh (heq ▸ henqueued)
  have hl : StoresLater s (s.enqueue action killed) :=
    ⟨fun id hid => mem_append_left _ hid, fun _ hshown => hshown,
      fun id hknown => hknown.imp_left (hold id), hgone⟩
  constructor
  case pending => exact (h.pending.add action killed).1
  case conflicts => exact h.conflicts
  case shown =>
    exact ⟨h.shown.once, fun id hid => (h.shown.kept id hid).imp_left (hold id),
      fun id hid => (h.shown.moved id hid).imp_left (hgone id (h.moved id hid))⟩
  case distinct =>
    rw [hids]
    split
    · refine nodup_append.2 ⟨h.distinct, nodup_singleton _, fun id hid id' hid' => ?_⟩
      rintro rfl
      exact hfresh (mem_singleton.1 hid' ▸ h.enqueued id hid)
    · exact h.distinct
  case enqueued =>
    intro id hid
    refine mem_append.2 ((hmem id hid).imp (h.enqueued id) mem_singleton.2)
  case taken =>
    exact fun id hid => ⟨hl.enqueued id (h.taken id hid).1,
      hgone id (h.taken id hid).1 (h.taken id hid).2⟩
  case moved => exact fun id hid => hl.enqueued id (h.moved id hid)
  case runs => exact fun r run hrun => (h.runs r run hrun).later hl

theorem StoresInv.addConflict (h : StoresInv s) (conflict : QueuedConflict)
    (hnew : s.conflicts.Lists killed → ¬ s.Shown conflict.id) :
    StoresInv (s.addConflict conflict killed) ∧ StoresLater s (s.addConflict conflict killed) := by
  have hids := conflictIds_addConflict h conflict killed
  have hshown : ∀ id, s.Shown id → (s.addConflict conflict killed).Shown id := by
    refine fun id hid => hid.imp_left fun hmem => ?_
    rw [hids]
    split
    · exact mem_append_left _ hmem
    · exact hmem
  have hl : StoresLater s (s.addConflict conflict killed) :=
    ⟨fun _ hid => hid, hshown, fun id hknown => hknown.imp_right (Or.imp_right (hshown id)),
      fun _ _ hno => hno⟩
  refine ⟨⟨h.pending, (h.conflicts.add conflict killed).1, ⟨?_, ?_, ?_⟩, h.distinct, h.enqueued,
    h.taken, h.moved, fun r run hrun => (h.runs r run hrun).later hl⟩, hl⟩
  · rw [hids]
    split
    · rename_i hlists
      have hno : conflict.id ∉ s.conflictIds ++ s.dismissed :=
        fun hmem => hnew hlists (mem_append.1 hmem)
      rw [append_assoc, singleton_append]
      exact nodup_middle.2 (nodup_cons.2 ⟨hno, h.shown.once⟩)
    · exact h.shown.once
  · exact fun id hid => (h.shown.kept id hid).imp_right (hshown id)
  · exact fun id hid => (h.shown.moved id hid).imp_right (hshown id)

theorem shown_addConflict (h : StoresInv s) (conflict : QueuedConflict) :
    (s.addConflict conflict none).Shown conflict.id := by
  refine .inl ?_
  rw [conflictIds_addConflict h, if_pos (ChunkedStore.Storage.lists_none _)]
  exact mem_concat_self

/-- An action is taken out of the queue that is synced, or shown as a conflict. -/
theorem StoresInv.takeOut (h : StoresInv s) {result : SyncActionResult}
    (hcases : s.Shown result.actionId ∨
      result.status = .synced ∧ (killed ≠ some 0 → result.actionId ∉ s.reported)) :
    StoresInv (s.takeOut result killed) ∧ StoresLater s (s.takeOut result killed) := by
  have hids := pendingIds_takeOut h result killed
  have hsub : (s.takeOut result killed).pendingIds.Sublist s.pendingIds := by
    rw [hids]
    split
    · exact Sublist.refl _
    · exact filter_sublist
  have hgone : ∀ id ∈ s.enqueued, id ∉ s.pendingIds → id ∉ (s.takeOut result killed).pendingIds :=
    fun id _ hno hid => hno (hsub.subset hid)
  have hleft : ∀ id ∈ s.pendingIds, id ∈ (s.takeOut result killed).pendingIds ∨
      killed ≠ some 0 ∧ id = result.actionId := by
    intro id hid
    rw [hids]
    split
    · exact .inl hid
    · rename_i hkilled
      by_cases heq : id = result.actionId
      · exact .inr ⟨hkilled, heq⟩
      · exact .inl (mem_filter.2 ⟨hid, by simpa using heq⟩)
  have htaken : ∀ id, id ∈ (s.takeOut result killed).taken ↔ id ∈ s.taken ∨
      result.status = .synced ∧ id ∈ s.pendingIds ∧
        id ∉ (s.takeOut result killed).pendingIds := by
    intro id
    change id ∈ (if result.status = .synced then _ else _) ↔ _
    split
    · rename_i hsynced
      rw [mem_append, mem_filter, decide_eq_true_eq]
      exact or_congr_right ⟨fun h => ⟨hsynced, h⟩, And.right⟩
    · rename_i hno
      exact ⟨.inl, fun h => h.resolve_right fun h => hno h.1⟩
  have hknown : ∀ id, s.Known id → (s.takeOut result killed).Known id := by
    rintro id (hid | hid | hid)
    · by_cases hstays : id ∈ (s.takeOut result killed).pendingIds
      · exact .inl hstays
      · obtain ⟨-, rfl⟩ := (hleft id hid).resolve_left hstays
        rcases hcases with hshown | ⟨hsynced, -⟩
        · exact .inr (.inr hshown)
        · exact .inr (.inl ((htaken _).2 (.inr ⟨hsynced, hid, hstays⟩)))
    · exact .inr (.inl ((htaken id).2 (.inl hid)))
    · exact .inr (.inr hid)
  have hl : StoresLater s (s.takeOut result killed) :=
    ⟨fun _ hid => hid, fun _ hshown => hshown, hknown, hgone⟩
  refine ⟨?_, hl⟩
  constructor
  case pending => exact (h.pending.remove h.distinct result.actionId killed).1
  case conflicts => exact h.conflicts
  case shown =>
    refine ⟨h.shown.once, fun id hid => ?_, fun id hid =>
      (h.shown.moved id hid).imp_left (hgone id (h.moved id hid))⟩
    rcases h.shown.kept id hid with hpending | hshown
    · rcases hleft id hpending with hstays | ⟨hkilled, rfl⟩
      · exact .inl hstays
      · exact .inr (hcases.resolve_right fun hsynced => hsynced.2 hkilled hid)
    · exact .inr hshown
  case distinct => exact h.distinct.sublist hsub
  case enqueued => exact fun id hid => h.enqueued id (hsub.subset hid)
  case taken =>
    intro id hid
    rcases (htaken id).1 hid with hold | ⟨-, hpending, hno⟩
    · exact ⟨(h.taken id hold).1, hgone id (h.taken id hold).1 (h.taken id hold).2⟩
    · exact ⟨h.enqueued id hpending, hno⟩
  case moved => exact h.moved
  case runs => exact fun r run hrun => (h.runs r run hrun).later hl

theorem notMem_takeOut (h : StoresInv s) (result : SyncActionResult) :
    result.actionId ∉ (s.takeOut result none).pendingIds := by
  rw [pendingIds_takeOut h, if_neg (Option.some_ne_none 0).symm]
  simp

theorem StoresInv.dismiss (h : StoresInv s) (id : String) (killed : Option ℕ) :
    StoresInv (s.dismiss id killed) := by
  have hids := conflictIds_dismiss h id killed
  have hsub : (s.dismiss id killed).conflictIds.Sublist s.conflictIds := by
    rw [hids]
    split
    · exact Sublist.refl _
    · exact filter_sublist
  have hdismissed : (s.dismiss id killed).dismissed =
      s.dismissed ++ s.conflictIds.filter (· ∉ (s.dismiss id killed).conflictIds) := rfl
  have hshown : ∀ id', s.Shown id' → (s.dismiss id killed).Shown id' := by
    rintro id' (hlisted | hold)
    · by_cases hstays : id' ∈ (s.dismiss id killed).conflictIds
      · exact .inl hstays
      · refine .inr ?_
        rw [hdismissed]
        exact mem_append_right _ (mem_filter.2 ⟨hlisted, decide_eq_true hstays⟩)
    · refine .inr ?_
      rw [hdismissed]
      exact mem_append_left _ hold
  have hl : StoresLater s (s.dismiss id killed) :=
    ⟨fun _ hid => hid, hshown, fun id' hknown => hknown.imp_right (Or.imp_right (hshown id')),
      fun _ _ hno => hno⟩
  refine ⟨h.pending, (h.conflicts.remove (nodup_append.1 h.shown.once).1 id killed).1,
    ⟨?_, ?_, ?_⟩, h.distinct, h.enqueued, h.taken, h.moved,
    fun r run hrun => (h.runs r run hrun).later hl⟩
  · obtain ⟨hlisted, hold, hdisjoint⟩ := nodup_append.1 h.shown.once
    rw [hdismissed]
    refine nodup_append.2 ⟨hlisted.sublist hsub, nodup_append.2
      ⟨hold, hlisted.filter _, fun a ha b hb => ?_⟩, fun a ha b hb => ?_⟩
    · exact (hdisjoint b (mem_of_mem_filter hb) a ha).symm
    · rintro rfl
      rcases mem_append.1 hb with hb | hb
      · exact hdisjoint a (hsub.subset ha) a hb rfl
      · exact of_decide_eq_true (mem_filter.1 hb).2 ha
  · exact fun id' hid => (h.shown.kept id' hid).imp_right (hshown id')
  · exact fun id' hid => (h.shown.moved id' hid).imp_right (hshown id')

/-! ### The steps -/

theorem not_shownOnce_addConflict (h : StoresInv s) (conflict : QueuedConflict)
    (hlists : s.conflicts.Lists killed) (hshown : s.Shown conflict.id) :
    ¬ (s.addConflict conflict killed).ShownOnce := by
  intro honce
  have hnodup := honce.once
  rw [conflictIds_addConflict h, if_pos hlists, append_assoc, singleton_append,
    nodup_middle, nodup_cons] at hnodup
  exact hnodup.1 (mem_append.2 hshown)

theorem not_shownOnce_takeOut (h : StoresInv s) {result : SyncActionResult}
    (hkilled : killed ≠ some 0) (hreported : result.actionId ∈ s.reported)
    (hno : ¬ s.Shown result.actionId) : ¬ (s.takeOut result killed).ShownOnce := by
  intro honce
  rcases honce.kept _ hreported with hpending | hshown
  · rw [pendingIds_takeOut h, if_neg hkilled] at hpending
    simp at hpending
  · exact hno hshown

theorem shownOnce_proceed {r : ℕ} (h : (s.proceed r killed run).ShownOnce) : s.ShownOnce := by
  unfold StoresState.proceed at h
  split at h
  · exact ⟨h.once, h.kept, h.moved⟩
  · exact h

theorem SyncRun.inv_begin (h : StoresInv s) :
    SyncRun.Inv s ⟨chunk (ordered s.pending.listed) maxBatchSize, [], false, []⟩ := by
  refine ⟨fun id hid => ?_, fun hadded => Bool.noConfusion hadded,
    fun id hid => absurd hid not_mem_nil⟩
  rw [SyncRun.ids, flatten_chunk _ (by decide), map_nil, append_nil] at hid
  have hpending : id ∈ s.pendingIds := ((ordered_perm s.pending.listed).map _).mem_iff.1 hid
  exact ⟨h.enqueued id hpending, .inl hpending⟩

section Run

variable {batch : List QueuedAction} {batches : List (List QueuedAction)}
  {result : SyncActionResult} {results : List SyncActionResult} {added : Bool}
  {conflicts : List String}

theorem SyncRun.Inv.unreachable (h : SyncRun.Inv s ⟨batch :: batches, [], added, conflicts⟩) :
    SyncRun.Inv s ⟨batches, [], false, conflicts⟩ := by
  refine ⟨fun id hid => h.known id ?_, fun hadded => Bool.noConfusion hadded, h.conflicts⟩
  simp only [SyncRun.ids, flatten_cons, map_append, append_assoc] at hid ⊢
  exact mem_append_right _ hid

theorem SyncRun.Inv.next (h : SyncRun.Inv s ⟨batches, result :: results, added, conflicts⟩)
    (hresult : result.status = .conflict →
      result.actionId ∉ s.pendingIds ∧ s.Shown result.actionId) :
    SyncRun.Inv s ⟨batches, results, false, conflicts⟩ := by
  refine ⟨fun id hid => h.known id ?_, fun hadded => Bool.noConfusion hadded, fun id hid =>
    (h.conflicts id hid).imp_right fun hcases => ?_⟩
  · rcases mem_append.1 hid with hid | hid
    · exact mem_append_left _ hid
    · exact mem_append_right _ (mem_cons_of_mem _ hid)
  · rcases hcases with hmem | hmoved
    · obtain ⟨result', hresult', rfl⟩ := mem_map.1 hmem
      obtain ⟨hmem', hstatus⟩ := mem_filter.1 hresult'
      rcases mem_cons.1 hmem' with rfl | hmem'
      · exact .inr (hresult (of_decide_eq_true hstatus))
      · exact .inl (mem_map_of_mem (mem_filter.2 ⟨hmem', hstatus⟩))
    · exact .inr hmoved

/-- An answer arrives that reports as conflicts only what is queued or shown. -/
theorem StoresInv.respond (h : StoresInv s) {r : ℕ}
    (hrun : s.runs r = some ⟨batch :: batches, [], added, conflicts⟩)
    (hresults : results.map (·.actionId) = batch.map (·.id))
    (hmoves : MovesOnce s (.respond r results)) :
    StoresInv ({ s with reported := s.reported ++ conflictsOf results }.setRun r
      (some ⟨batches, results, false, conflicts ++ conflictsOf results⟩)) := by
  have hold := h.runs r _ hrun
  have hbatch : ∀ id ∈ results.map (·.actionId), id ∈ s.enqueued ∧ s.Known id := by
    intro id hid
    refine hold.known id ?_
    rw [hresults] at hid
    simp only [SyncRun.ids, flatten_cons, map_append, append_assoc]
    exact mem_append_left _ hid
  have hconflicts : ∀ id ∈ conflictsOf results, id ∈ s.enqueued ∧ s.Known id :=
    fun id hid => hbatch id ((filter_sublist.map _).subset hid)
  have hreported : StoresInv { s with reported := s.reported ++ conflictsOf results } := by
    have hl : StoresLater s { s with reported := s.reported ++ conflictsOf results } :=
      .same rfl rfl rfl rfl rfl
    refine ⟨h.pending, h.conflicts, ⟨h.shown.once, fun id hid => ?_, h.shown.moved⟩,
      h.distinct, h.enqueued, h.taken, h.moved, fun q run hrun => (h.runs q run hrun).later hl⟩
    rcases mem_append.1 hid with hid | hid
    · exact h.shown.kept id hid
    · rcases (hconflicts id hid).2 with hpending | htaken | hshown
      · exact .inl hpending
      · exact .inr (hmoves id hid htaken)
      · exact .inr hshown
  refine hreported.setRun r fun run hrun' => ?_
  obtain rfl := Option.some.inj hrun'
  refine ⟨fun id hid => ?_, fun hadded => Bool.noConfusion hadded, fun id hid => ?_⟩
  · rcases mem_append.1 hid with hid | hid
    · refine hold.known id ?_
      simp only [SyncRun.ids, flatten_cons, map_append]
      exact mem_append_left _ (mem_append_right _ hid)
    · exact hbatch id hid
  · rcases mem_append.1 hid with hid | hid
    · exact (hold.conflicts id hid).imp_right fun hcases =>
        hcases.imp_left fun hnil => absurd hnil not_mem_nil
    · exact ⟨(hconflicts id hid).1, .inl hid⟩

theorem StoresInv.endRun (h : StoresInv s) {r : ℕ}
    (hrun : s.runs r = some ⟨[], [], added, conflicts⟩) :
    StoresInv ({ s with moved := s.moved ++ conflicts }.setRun r none) := by
  have hold := h.runs r _ hrun
  have hconflicts : ∀ id ∈ conflicts, id ∈ s.enqueued ∧ id ∉ s.pendingIds ∧ s.Shown id :=
    fun id hid => (hold.conflicts id hid).imp_right fun hcases =>
      hcases.resolve_left not_mem_nil
  have hl : StoresLater s { s with moved := s.moved ++ conflicts } := .same rfl rfl rfl rfl rfl
  have hmoved : StoresInv { s with moved := s.moved ++ conflicts } := by
    refine ⟨h.pending, h.conflicts, ⟨h.shown.once, h.shown.kept, fun id hid => ?_⟩,
      h.distinct, h.enqueued, h.taken, fun id hid => ?_, fun q run hrun =>
        (h.runs q run hrun).later hl⟩
    · exact (mem_append.1 hid).elim (h.shown.moved id) fun hid => (hconflicts id hid).2
    · exact (mem_append.1 hid).elim (h.moved id) fun hid => (hconflicts id hid).1
  exact hmoved.setRun r fun _ hnone => absurd hnone (Option.not_mem_none _)

end Run

theorem addConflict_cases (h : StoresInv s) {r : ℕ} {detectedAt : ℤ} {killed : Option ℕ}
    (hstep : storesStep s (.addConflict r detectedAt killed) = some t) :
    (MovesOnce s (.addConflict r detectedAt killed) ∧ StoresInv t) ∨
      (¬ MovesOnce s (.addConflict r detectedAt killed) ∧ ¬ t.ShownOnce) := by
  simp only [storesStep] at hstep
  split at hstep
  · rename_i batches result results conflicts hrun
    split at hstep
    · cases hstep
      have hmoves : MovesOnce s (.addConflict r detectedAt killed) ↔
          (s.conflicts.Lists killed → ¬ s.Shown result.actionId) := by
        simp [MovesOnce, headOf, hrun]
      rw [hmoves]
      by_cases hnew : s.conflicts.Lists killed → ¬ s.Shown result.actionId
      · have hold := h.runs r _ hrun
        obtain ⟨hinv, hl⟩ := h.addConflict (result.conflict detectedAt) hnew
        have hold' := hold.later hl
        refine .inl ⟨hnew, hinv.proceed r fun hnone => ?_⟩
        subst hnone
        refine ⟨hold'.known, fun _ result' hresult' => ?_, hold'.conflicts⟩
        obtain rfl := Option.some.inj hresult'
        exact shown_addConflict h _
      · refine .inr ⟨hnew, fun hshown => ?_⟩
        obtain ⟨hlists, hshown'⟩ := Classical.not_imp.1 hnew
        exact not_shownOnce_addConflict h (result.conflict detectedAt) hlists (not_not.1 hshown')
          (shownOnce_proceed hshown)
    · cases hstep
  · cases hstep

theorem removeAction_cases (h : StoresInv s) {r : ℕ} {killed : Option ℕ}
    (hstep : storesStep s (.removeAction r killed) = some t) :
    (MovesOnce s (.removeAction r killed) ∧ StoresInv t) ∨
      (¬ MovesOnce s (.removeAction r killed) ∧ ¬ t.ShownOnce) := by
  simp only [storesStep] at hstep
  split at hstep
  · rename_i batches result results added conflicts hrun
    split at hstep
    · rename_i hok
      cases hstep
      have hold := h.runs r _ hrun
      have hshown : result.status = .conflict → s.Shown result.actionId := by
        intro hconflict
        rcases hok.2 with hsynced | ⟨-, hadded⟩
        · rw [hsynced] at hconflict
          cases hconflict
        · exact hold.added hadded result rfl
      have hmoves : MovesOnce s (.removeAction r killed) ↔ (result.status = .synced →
          killed ≠ some 0 → result.actionId ∈ s.reported → s.Shown result.actionId) := by
        simp [MovesOnce, headOf, hrun]
      rw [hmoves]
      by_cases hmove : result.status = .synced → killed ≠ some 0 →
          result.actionId ∈ s.reported → s.Shown result.actionId
      · have hcases : s.Shown result.actionId ∨
            result.status = .synced ∧ (killed ≠ some 0 → result.actionId ∉ s.reported) := by
          by_cases hshows : s.Shown result.actionId
          · exact .inl hshows
          · have hsynced := hok.2.resolve_right fun hconflict => hshows (hshown hconflict.1)
            exact .inr ⟨hsynced, fun hkilled hreported =>
              hshows (hmove hsynced hkilled hreported)⟩
        obtain ⟨hinv, hl⟩ := h.takeOut hcases
        refine .inl ⟨hmove, hinv.proceed r fun hnone => ?_⟩
        subst hnone
        exact (hold.later hl).next fun hconflict =>
          ⟨notMem_takeOut h result, hl.shown _ (hshown hconflict)⟩
      · refine .inr ⟨hmove, fun honce => ?_⟩
        simp only [Classical.not_imp] at hmove
        obtain ⟨-, hkilled, hreported, hno⟩ := hmove
        exact not_shownOnce_takeOut h hkilled hreported hno (shownOnce_proceed honce)
    · cases hstep
  · cases hstep

/-- A step from a state of the invariant moves conflicts as it should and keeps the invariant, or
does not and leads to a state where a conflict is lost or shown again. -/
theorem storesStep_cases {step : StoresStep} (h : StoresInv s)
    (hstep : storesStep s step = some t) :
    (MovesOnce s step ∧ StoresInv t) ∨ (¬ MovesOnce s step ∧ ¬ t.ShownOnce) := by
  cases step with
  | enqueue action killed =>
    simp only [storesStep] at hstep
    split at hstep
    · rename_i hok
      cases hstep
      exact .inl ⟨trivial, h.enqueue hok.2 killed⟩
    · cases hstep
  | beginRun r =>
    simp only [storesStep] at hstep
    split at hstep
    · cases hstep
      have hsame : s.pending.writeAll s.pending.list.2 = s.pending := by
        rw [h.pending.wf.list]
        rfl
      rw [hsame]
      refine .inl ⟨trivial, h.setRun r fun run hrun => ?_⟩
      cases hrun
      exact SyncRun.inv_begin h
    · cases hstep
  | unreachable r =>
    simp only [storesStep] at hstep
    split at hstep
    · rename_i batch batches added conflicts hrun
      split at hstep
      · cases hstep
        refine .inl ⟨trivial, h.setRun r fun run hrun' => ?_⟩
        obtain rfl := Option.some.inj hrun'
        exact (h.runs r _ hrun).unreachable
      · cases hstep
    · cases hstep
  | respond r results =>
    simp only [storesStep] at hstep
    split at hstep
    · rename_i batch batches added conflicts hrun
      split at hstep
      · rename_i hok
        cases hstep
        by_cases hmoves : MovesOnce s (.respond r results)
        · exact .inl ⟨hmoves, h.respond hrun hok.2 hmoves⟩
        · refine .inr ⟨hmoves, fun hshown => hmoves fun id hid htaken => ?_⟩
          exact (hshown.kept id (mem_append_right _ hid)).resolve_left (h.taken id htaken).2
      · cases hstep
    · cases hstep
  | addConflict => exact addConflict_cases h hstep
  | removeAction => exact removeAction_cases h hstep
  | leave r =>
    simp only [storesStep] at hstep
    split at hstep
    · rename_i batches result results added conflicts hrun
      split at hstep
      · rename_i hok
        cases hstep
        refine .inl ⟨trivial, h.setRun r fun run hrun' => ?_⟩
        obtain rfl := Option.some.inj hrun'
        refine (h.runs r _ hrun).next fun hconflict => ?_
        have hfailed := hok.2
        rw [hconflict] at hfailed
        cases hfailed
      · cases hstep
    · cases hstep
  | endRun r =>
    simp only [storesStep] at hstep
    split at hstep
    · rename_i added conflicts hrun
      split at hstep
      · cases hstep
        exact .inl ⟨trivial, h.endRun hrun⟩
      · cases hstep
    · cases hstep
  | dismiss id killed =>
    simp only [storesStep] at hstep
    split at hstep
    · cases hstep
      exact .inl ⟨trivial, h.dismiss id killed⟩
    · cases hstep
  | restart =>
    cases hstep
    exact .inl ⟨trivial, h.pending, h.conflicts, ⟨h.shown.once, h.shown.kept, h.shown.moved⟩,
      h.distinct, h.enqueued, h.taken, h.moved, fun _ _ hrun => absurd hrun (Option.not_mem_none _)⟩

end Steps

/-! ## Runs of the stores -/

/-- The app is used for the first time. -/
def StoresState.init : StoresState :=
  { pending := .empty
    conflicts := .empty
    runs := fun _ => none
    cutPending := false
    cutConflicts := false
    enqueued := []
    reported := []
    taken := []
    dismissed := []
    moved := [] }

theorem inv_init_stores : StoresInv .init where
  pending := ChunkedStore.Storage.keyed_empty
  conflicts := ChunkedStore.Storage.keyed_empty
  shown := ⟨nodup_nil, nofun,
    nofun⟩
  distinct := nodup_nil
  enqueued := nofun
  taken := nofun
  moved := nofun
  runs := fun _ _ h => absurd h (Option.not_mem_none _)

/-- **When conflicts are shown once**: in every state of a run of overlapping passes with kills, no
conflict is listed again, each that was reported is queued, listed or dismissed, and after a pass
that heard of it it is no longer queued, exactly when every `addConflict` that gets as far as the
list finds a conflict that has not been listed, and what an answer reports as a conflict is not
taken out as synced on account of another before it is shown. -/
theorem shownOnce_iff {steps : List StoresStep} {t : StoresState}
    (h : Runs.exec storesStep .init steps = some t) :
    Runs.Always storesStep StoresState.ShownOnce .init steps ↔
      Runs.Meets storesStep MovesOnce .init steps := by
  refine Runs.always_iff_meets (fun _ => StoresInv.shown) (fun s step t hinv hok hstep => ?_)
    (fun s step t hinv hno hstep => ?_) inv_init_stores h
  · exact (storesStep_cases hinv hstep).elim And.right fun h => absurd hok h.1
  · exact (storesStep_cases hinv hstep).elim (fun h => absurd h.1 hno) And.right

/-- The attendance service rejects the clock-out. -/
def rejected : SyncActionResult :=
  ⟨"a2", .clockEvent, .conflict, some "NO_OPEN_ATTENDANCE_RECORD", none⟩

/-- The app is killed before the conflict is added, and the next run adds it. -/
def killedBefore : List StoresStep :=
  [.enqueue clockOut none, .beginRun 0, .respond 0 [rejected], .addConflict 0 5 (some 1), .restart,
    .beginRun 1, .respond 1 [rejected], .addConflict 1 9 none, .removeAction 1 none, .endRun 1]

theorem killedBefore_shownOnce :
    Runs.Always storesStep StoresState.ShownOnce .init killedBefore := by
  obtain ⟨t, ht, -⟩ : ∃ t, Runs.exec storesStep .init killedBefore = some t ∧
      t.conflictIds = ["a2"] := Runs.exists_exec (by decide)
  exact (shownOnce_iff ht).2 (by decide)

/-- The app is killed between the two calls. -/
def killedBetween : List StoresStep :=
  [.enqueue clockOut none, .beginRun 0, .respond 0 [rejected], .addConflict 0 5 none, .restart,
    .beginRun 1, .respond 1 [rejected], .addConflict 1 9 none, .removeAction 1 none, .endRun 1]

theorem killedBetween_not_shownOnce : ∃ t, Runs.exec storesStep .init killedBetween = some t ∧
    t.conflictIds = ["a2", "a2"] ∧ ¬ t.ShownOnce := by
  obtain ⟨t, ht, hids⟩ : ∃ t, Runs.exec storesStep .init killedBetween = some t ∧
      t.conflictIds = ["a2", "a2"] := Runs.exists_exec (by decide)
  refine ⟨t, ht, hids, fun hshown => ?_⟩
  have hnodup := (nodup_append.1 hshown.once).1
  rw [hids] at hnodup
  exact absurd hnodup (by decide)

end Workforce.Mobile
