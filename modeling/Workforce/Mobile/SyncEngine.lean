import Workforce.Mobile.OfflineActions

/-!
# Passes over the offline queue

`syncEngine.ts`: a pass takes the queue in the order of `createdAtDevice`, sends it in batches of at
most 50 and removes what the server has decided. The server takes the actions of a batch one after
another (`syncBatch`). A batch may not arrive, or the connection may break after some of its actions
(whether or not the server goes on with the others), or the answer may not arrive; the pass goes on
with the next batch. An action whose forward fails stays in the queue; the server goes on with the
next action.

* `overtaken`: what was decided while an earlier action of the same employee was waiting.
* `nothing_overtaken_iff`: exactly when a run overtakes nothing.
-/

namespace Workforce.Mobile

open List Function

structure QueuedAction where
  id : String
  actionType : OfflineActionType
  payload : Payload
  createdAtDevice : ℤ
  deriving DecidableEq

/-- `MAX_BATCH_SIZE`. -/
def maxBatchSize : ℕ := 50

/-- The loop of `chunk`, for so many rounds. -/
def chunkFrom {α : Type*} (size : ℕ) : ℕ → List α → List (List α)
  | 0, _ => []
  | rounds + 1, items =>
    if items = [] then [] else items.take size :: chunkFrom size rounds (items.drop size)

/-- `chunk`: every round takes at least one item. -/
def chunk {α : Type*} (items : List α) (size : ℕ) : List (List α) :=
  chunkFrom size items.length items

theorem flatten_chunkFrom {α : Type*} {size : ℕ} (hsize : 0 < size) {rounds : ℕ} {items : List α}
    (h : items.length ≤ rounds) : (chunkFrom size rounds items).flatten = items := by
  induction rounds generalizing items with
  | zero => simp [chunkFrom, length_eq_zero_iff.1 (Nat.le_zero.1 h)]
  | succ rounds ih =>
    unfold chunkFrom
    split
    · rename_i hnil
      simp [hnil]
    · rw [flatten_cons, ih (by rw [length_drop]; omega), take_append_drop]

theorem flatten_chunk {α : Type*} (items : List α) {size : ℕ} (hsize : 0 < size) :
    (chunk items size).flatten = items := flatten_chunkFrom hsize le_rfl

/-- The order of a pass; actions of the same instant stay in the order of the queue. -/
def ordered (pending : List QueuedAction) : List QueuedAction :=
  pending.insertionSort fun a b => a.createdAtDevice ≤ b.createdAtDevice

/-! ## The server -/

abbrev Rows := String → Option OfflineActionQueue

/-- The server has not decided the action. -/
def Undecided (rows : Rows) (a : QueuedAction) : Prop :=
  ∀ row ∈ rows a.id, row.status.isTerminal = false
  deriving Decidable

/-- The employee whose action it is: the one in the row, or the one who sends it. -/
def employeeOf (rows : Rows) (employeeId : ℕ) (a : QueuedAction) : ℕ :=
  ((rows a.id).map (·.employeeId)).getD employeeId

/-- `processAction`, with what comes of the action. -/
def processAction (tenantId : ℕ) (rows : Rows) (action : MobileSyncActionDto) (answer : Answer) :
    Rows × MobileSyncActionResult :=
  let row := (rows action.id).getD (newRow tenantId action)
  if row.status.isTerminal then (rows, toResult row)
  else (update rows action.id (some (row.settle answer)), answer.result row)

/-! ## Passes -/

/-- A batch that has been sent: the actions the server has not come to, and the results. -/
structure Request where
  rest : List QueuedAction
  results : List MobileSyncActionResult

/-- A pass of `syncPendingActions`. Besides the batches it has to send there are, for the record,
the actions it has left undecided and those that were queued after it began. -/
structure Pass where
  employeeId : ℕ
  request : Option Request
  batches : List (List QueuedAction)
  left : List QueuedAction
  arrived : List QueuedAction

/-- The queue of a device, the rows of the server, and the passes between them. -/
structure DeviceState where
  queue : List QueuedAction
  rows : Rows
  pass : Option Pass
  /-- Passes as they were when the connection broke, where the server goes on with the batch. -/
  strays : List Pass
  /-- The pairs of an action that has been decided and an earlier one that was waiting then. -/
  overtaken : List (QueuedAction × QueuedAction)

/-- What the device, the network or the server does next. -/
inductive DeviceStep
  | enqueue (action : QueuedAction)
  | beginPass (employeeId : ℕ)
  | send
  /-- The next batch does not arrive. -/
  | unreachable
  | process (answer : Answer)
  /-- The connection breaks before the server is through with the batch. -/
  | cutOff (serverGoesOn : Bool)
  | processStray (i : ℕ) (answer : Answer)
  /-- The answer arrives, or does not. -/
  | respond (arrives : Bool)
  | endPass

/-- The waiting actions of the same employee that are earlier. -/
def earlier (queue : List QueuedAction) (rows : Rows) (employeeId : ℕ) (a : QueuedAction) :
    List QueuedAction :=
  queue.filter fun c => Undecided rows c ∧ c.createdAtDevice < a.createdAtDevice ∧
    employeeOf rows employeeId c = employeeOf rows employeeId a

/-- The loop over the results: what is decided leaves the queue. -/
def handleResults (queue : List QueuedAction) (results : List MobileSyncActionResult) :
    List QueuedAction :=
  queue.filter fun a => !results.any fun r => r.actionId = a.id && r.status.isTerminal

variable (tenantId : ℕ)

def QueuedAction.dto (employeeId : ℕ) (a : QueuedAction) : MobileSyncActionDto :=
  ⟨a.id, employeeId, a.actionType, a.payload, a.createdAtDevice⟩

/-- What is overtaken when the server comes to an action. -/
def overtakes (s : DeviceState) (employeeId : ℕ) (a : QueuedAction) (answer : Answer) :
    List (QueuedAction × QueuedAction) :=
  if answer.status.isTerminal ∧ Undecided s.rows a then
    (earlier s.queue s.rows employeeId a).map fun c => (a, c)
  else []

/-- The pass when the server has come to the next action of its batch. -/
def Pass.process (rows : Rows) (p : Pass) (a : QueuedAction) (rest : List QueuedAction)
    (results : List MobileSyncActionResult) (answer : Answer) : Pass :=
  { p with
    request :=
      some ⟨rest, results ++ [(processAction tenantId rows (a.dto p.employeeId) answer).2]⟩
    left := if ¬ answer.status.isTerminal ∧ Undecided rows a then p.left ++ [a] else p.left }

/-- The server comes to an action of the employee. -/
def processNext (s : DeviceState) (employeeId : ℕ) (a : QueuedAction) (answer : Answer) :
    DeviceState :=
  { s with
    rows := (processAction tenantId s.rows (a.dto employeeId) answer).1
    overtaken := s.overtaken ++ overtakes s employeeId a answer }

/-- An action has come since the pass began. -/
def Pass.arrive (action : QueuedAction) (p : Pass) : Pass :=
  { p with arrived := p.arrived ++ [action] }

def deviceStep (s : DeviceState) : DeviceStep → Option DeviceState
  | .enqueue action =>
    -- the id of an action is a new one
    if s.rows action.id = none ∧ action.id ∉ s.queue.map (·.id) then
      some { s with
        queue := s.queue ++ [action]
        pass := s.pass.map (Pass.arrive action)
        strays := s.strays.map (Pass.arrive action) }
    else none
  | .beginPass employeeId =>
    if s.pass.isNone then
      some { s with pass := some ⟨employeeId, none, chunk (ordered s.queue) maxBatchSize, [], []⟩ }
    else none
  | .send =>
    match s.pass with
    | some ⟨employeeId, none, batch :: batches, left, arrived⟩ =>
      some { s with pass := some ⟨employeeId, some ⟨batch, []⟩, batches, left, arrived⟩ }
    | _ => none
  | .unreachable =>
    match s.pass with
    | some ⟨employeeId, none, batch :: batches, left, arrived⟩ =>
      some { s with pass := some ⟨employeeId, none, batches, left ++ batch, arrived⟩ }
    | _ => none
  | .process answer =>
    match s.pass with
    | some p =>
      match p.request with
      | some ⟨a :: rest, results⟩ =>
        some { processNext tenantId s p.employeeId a answer with
          pass := some (p.process tenantId s.rows a rest results answer) }
      | _ => none
    | none => none
  | .cutOff serverGoesOn =>
    match s.pass with
    | some ⟨employeeId, some request, batches, left, arrived⟩ =>
      some { s with
        pass := some ⟨employeeId, none, batches, left ++ request.rest, arrived⟩
        strays :=
          if serverGoesOn then s.strays ++ [⟨employeeId, some request, batches, left, arrived⟩]
          else s.strays }
    | _ => none
  | .processStray i answer =>
    match s.strays[i]? with
    | some p =>
      match p.request with
      | some ⟨a :: rest, results⟩ =>
        some { processNext tenantId s p.employeeId a answer with
          strays := s.strays.set i (p.process tenantId s.rows a rest results answer) }
      | _ => none
    | none => none
  | .respond arrives =>
    match s.pass with
    | some ⟨employeeId, some ⟨[], results⟩, batches, left, arrived⟩ =>
      some { s with
        queue := if arrives then handleResults s.queue results else s.queue
        pass := some ⟨employeeId, none, batches, left, arrived⟩ }
    | _ => none
  | .endPass =>
    match s.pass with
    | some ⟨_, none, [], _, _⟩ => some { s with pass := none }
    | _ => none

/-- The actions a pass has yet to send or to hear of. -/
def Pass.toSend (p : Pass) : List QueuedAction :=
  (p.request.map (·.rest)).getD [] ++ p.batches.flatten

/-! ## Actions that keep their order -/

/-- No action that the pass has left undecided, or that came after it began, is earlier. -/
def Pass.PassesNone (rows : Rows) (p : Pass) (a : QueuedAction) : Prop :=
  ∀ c ∈ p.left ++ p.arrived, Undecided rows c →
    employeeOf rows p.employeeId c = employeeOf rows p.employeeId a →
      a.createdAtDevice ≤ c.createdAtDevice
  deriving Decidable

/-- The next action of a request is decided before no earlier one. -/
def Request.InOrder (rows : Rows) (p : Pass) (answer : Answer) : Option Request → Prop
  | some ⟨a :: _, _⟩ => answer.status.isTerminal → Undecided rows a → p.PassesNone rows a
  | _ => True

instance (rows : Rows) (p : Pass) (answer : Answer) :
    DecidablePred (Request.InOrder rows p answer) := fun request => by
  unfold Request.InOrder
  split <;> infer_instance

/-- What the server decides passes no earlier action by. -/
def InOrder (s : DeviceState) : DeviceStep → Prop
  | .process answer => ∀ p ∈ s.pass, Request.InOrder s.rows p answer p.request
  | .processStray i answer => ∀ p ∈ s.strays[i]?, Request.InOrder s.rows p answer p.request
  | _ => True

instance (s : DeviceState) : DecidablePred (InOrder s) := fun a => by
  cases a <;> unfold InOrder <;> infer_instance

/-- What is waiting, where a pass is under way. -/
structure PassInv (queue : List QueuedAction) (rows : Rows) (p : Pass) : Prop where
  covers : ∀ c ∈ queue, Undecided rows c → c ∈ p.toSend ∨ c ∈ p.left ++ p.arrived
  sorted : p.toSend.Pairwise fun a b => a.createdAtDevice ≤ b.createdAtDevice
  waiting : ∀ c ∈ p.toSend ++ (p.left ++ p.arrived), Undecided rows c → c ∈ queue
  results : ∀ request ∈ p.request, ∀ r ∈ request.results, r.status.isTerminal →
    ∀ c : QueuedAction, c.id = r.actionId → ¬ Undecided rows c

structure DeviceInv (s : DeviceState) : Prop where
  overtaken : s.overtaken = []
  ids : ∀ id, ∀ row ∈ s.rows id, row.id = id
  pass : ∀ p ∈ s.pass, PassInv s.queue s.rows p
  strays : ∀ p ∈ s.strays, PassInv s.queue s.rows p

theorem ordered_perm (pending : List QueuedAction) : (ordered pending).Perm pending :=
  perm_insertionSort _ _

theorem sorted_ordered (pending : List QueuedAction) :
    (ordered pending).Pairwise fun a b => a.createdAtDevice ≤ b.createdAtDevice :=
  pairwise_insertionSort _ _

@[simp] theorem toResult_actionId (row : OfflineActionQueue) :
    (toResult row).actionId = row.id := by
  unfold toResult
  split <;> rfl

@[simp] theorem result_actionId (row : OfflineActionQueue) (answer : Answer) :
    (answer.result row).actionId = row.id := by
  cases answer <;> rfl

@[simp] theorem settle_id (row : OfflineActionQueue) (answer : Answer) :
    (row.settle answer).id = row.id := by
  cases answer <;> rfl

section Process

variable {tenantId} {rows : Rows} {action : MobileSyncActionDto} {answer : Answer}

theorem processAction_of_ne {id : String} (h : id ≠ action.id) :
    (processAction tenantId rows action answer).1 id = rows id := by
  simp only [processAction]
  split
  · rfl
  · exact update_of_ne h ..

theorem processAction_ids (h : ∀ id, ∀ row ∈ rows id, row.id = id) :
    (∀ id, ∀ row ∈ (processAction tenantId rows action answer).1 id, row.id = id) ∧
      (processAction tenantId rows action answer).2.actionId = action.id := by
  have hrow : ((rows action.id).getD (newRow tenantId action)).id = action.id := by
    cases hfound : rows action.id with
    | none => rfl
    | some row => exact h _ row hfound
  simp only [processAction]
  split
  · exact ⟨h, (toResult_actionId _).trans hrow⟩
  · refine ⟨fun id row hmem => ?_, (result_actionId _ _).trans hrow⟩
    by_cases hid : id = action.id
    · subst hid
      dsimp only at hmem
      rw [update_self] at hmem
      rw [← Option.some.inj hmem, settle_id, hrow]
    · exact h id row (by simpa [hid] using hmem)

/-- After the server has come to an action it is decided when it was before or is by the answer; and
a terminal result says so. -/
theorem undecided_processAction {a : QueuedAction} (ha : a.id = action.id) :
    (Undecided (processAction tenantId rows action answer).1 a ↔
      Undecided rows a ∧ answer.status.isTerminal = false) ∧
    ((processAction tenantId rows action answer).2.status.isTerminal →
      ¬ Undecided (processAction tenantId rows action answer).1 a) := by
  have hopen : Undecided rows a ↔
      ((rows action.id).getD (newRow tenantId action)).status.isTerminal = false := by
    rw [Undecided, ha]
    cases rows action.id with
    | none => exact iff_of_true (fun _ h => absurd h (Option.not_mem_none _)) rfl
    | some row => exact ⟨fun h => h row rfl, fun h _ hrow => Option.some.inj hrow ▸ h⟩
  rw [hopen]
  simp only [processAction]
  split
  · rename_i hterminal
    have hdecided : ¬ Undecided rows a := by
      rw [hopen, hterminal]
      exact Bool.noConfusion
    exact ⟨iff_of_false hdecided (by rw [hterminal]; exact fun h => Bool.noConfusion h.1),
      fun _ => hdecided⟩
  · rename_i hno
    have hafter : Undecided (update rows action.id (some
        (((rows action.id).getD (newRow tenantId action)).settle answer))) a ↔
          answer.status.isTerminal = false := by
      rw [Undecided, ha, update_self, ← settle_status]
      exact ⟨fun h => h _ rfl, fun h _ hrow => Option.some.inj hrow ▸ h⟩
    rw [Bool.not_eq_true] at hno
    rw [hafter]
    refine ⟨⟨fun h => ⟨hno, h⟩, And.right⟩, fun hresult h => ?_⟩
    rw [result_status, h] at hresult
    cases hresult

theorem undecided_of_processAction {c : QueuedAction}
    (h : Undecided (processAction tenantId rows action answer).1 c) : Undecided rows c := by
  by_cases hc : c.id = action.id
  · exact ((undecided_processAction hc).1.1 h).1
  · rwa [Undecided, processAction_of_ne hc] at h

end Process

/-! ## What the steps keep -/

section Steps

variable {tenantId} {queue rows} {p : Pass} {a : QueuedAction} {rest : List QueuedAction}
  {results : List MobileSyncActionResult}

/-- What a pass has yet to send is not earlier; so what is earlier has been left, or came later. -/
theorem earlier_eq_nil_iff (hp : PassInv queue rows p)
    (hrequest : p.request = some ⟨a :: rest, results⟩) :
    earlier queue rows p.employeeId a = [] ↔ p.PassesNone rows a := by
  have hsend : p.toSend = a :: (rest ++ p.batches.flatten) := by
    simp [Pass.toSend, hrequest]
  rw [earlier, filter_eq_nil_iff]
  constructor
  · intro h c hc hopen hemployee
    have hqueue := hp.waiting c (mem_append_right _ hc) hopen
    by_contra hlt
    exact h c hqueue (decide_eq_true ⟨hopen, not_le.1 hlt, hemployee⟩)
  · intro h c hqueue hearlier
    obtain ⟨hopen, hlt, hemployee⟩ := of_decide_eq_true hearlier
    rcases hp.covers c hqueue hopen with hc | hc
    · have hsorted := hp.sorted
      rw [hsend, pairwise_cons] at hsorted
      rcases mem_cons.1 (hsend ▸ hc) with rfl | hc
      · exact lt_irrefl _ hlt
      · exact absurd (hsorted.1 c hc) (not_le.2 hlt)
    · exact absurd (h c hc hopen hemployee) (not_le.2 hlt)

theorem PassInv.enqueue (hp : PassInv queue rows p) (action : QueuedAction) :
    PassInv (queue ++ [action]) rows (p.arrive action) := by
  refine ⟨fun c hc hopen => ?_, hp.sorted, fun c hc hopen => ?_, hp.results⟩
  · rcases mem_append.1 hc with hc | hc
    · refine (hp.covers c hc hopen).imp_right fun h => ?_
      rw [Pass.arrive, ← append_assoc]
      exact mem_append_left _ h
    · exact .inr (mem_append_right _ (mem_append_right _ hc))
  · change c ∈ p.toSend ++ (p.left ++ (p.arrived ++ [action])) at hc
    rw [← append_assoc p.left, ← append_assoc p.toSend] at hc
    rcases mem_append.1 hc with hc | hc
    · exact mem_append_left _ (hp.waiting c hc hopen)
    · exact mem_append_right _ hc

theorem PassInv.begin (rows : Rows) (employeeId : ℕ) :
    PassInv queue rows ⟨employeeId, none, chunk (ordered queue) maxBatchSize, [], []⟩ := by
  have hsend : (chunk (ordered queue) maxBatchSize).flatten = ordered queue :=
    flatten_chunk _ (by decide)
  have hmem : ∀ c, c ∈ ordered queue ↔ c ∈ queue := fun c => (ordered_perm queue).mem_iff
  refine ⟨fun c hc _ => .inl ?_, ?_, fun c hc _ => ?_, fun _ h => absurd h (Option.not_mem_none _)⟩
  · simpa [Pass.toSend, hsend, hmem] using hc
  · simpa [Pass.toSend, hsend] using sorted_ordered queue
  · simpa [Pass.toSend, hsend, hmem] using hc

theorem PassInv.move {p' : Pass} (hp : PassInv queue rows p)
    (hsend : p'.toSend.Sublist p.toSend)
    (hmem : ∀ c, c ∈ p'.toSend ∨ c ∈ p'.left ++ p'.arrived ↔
      c ∈ p.toSend ∨ c ∈ p.left ++ p.arrived)
    (hresults : ∀ request ∈ p'.request, request.results = []) : PassInv queue rows p' := by
  refine ⟨fun c hc hopen => (hmem c).2 (hp.covers c hc hopen), hp.sorted.sublist hsend,
    fun c hc hopen => ?_, fun request hrequest r hr => ?_⟩
  · exact hp.waiting c (mem_append.2 ((hmem c).1 (mem_append.1 hc))) hopen
  · rw [hresults request hrequest] at hr
    cases hr

theorem PassInv.handleResults (hp : PassInv queue rows p)
    (hresults : ∀ r ∈ results, r.status.isTerminal →
      ∀ c : QueuedAction, c.id = r.actionId → ¬ Undecided rows c) :
    PassInv (handleResults queue results) rows p := by
  refine ⟨fun c hc => hp.covers c (mem_of_mem_filter hc), hp.sorted, fun c hc hopen => ?_,
    hp.results⟩
  refine mem_filter.2 ⟨hp.waiting c hc hopen, ?_⟩
  rw [Bool.not_eq_true', any_eq_false]
  intro r hr hmatch
  obtain ⟨hid, hterminal⟩ := by simpa using hmatch
  exact hresults r hr hterminal c hid.symm hopen

theorem PassInv.elsewhere (hp : PassInv queue rows p) (action : MobileSyncActionDto)
    (answer : Answer) : PassInv queue (processAction tenantId rows action answer).1 p :=
  ⟨fun c hc hopen => hp.covers c hc (undecided_of_processAction hopen), hp.sorted,
    fun c hc hopen => hp.waiting c hc (undecided_of_processAction hopen),
    fun request hrequest r hr hterminal c hc hopen =>
      hp.results request hrequest r hr hterminal c hc (undecided_of_processAction hopen)⟩

theorem PassInv.process (hp : PassInv queue rows p) (hids : ∀ id, ∀ row ∈ rows id, row.id = id)
    (hrequest : p.request = some ⟨a :: rest, results⟩) (answer : Answer) :
    PassInv queue (processAction tenantId rows (a.dto p.employeeId) answer).1
      (p.process tenantId rows a rest results answer) := by
  have ha : a.id = (a.dto p.employeeId).id := rfl
  have hsend : p.toSend = a :: (rest ++ p.batches.flatten) := by
    simp [Pass.toSend, hrequest]
  constructor
  case covers =>
    intro c hc hopen
    have hbefore := undecided_of_processAction hopen
    rcases hp.covers c hc hbefore with h | h
    · rcases mem_cons.1 (hsend ▸ h) with rfl | h
      · have hfails := ((undecided_processAction ha).1.1 hopen).2
        simp [Pass.process, hbefore, hfails]
      · exact .inl h
    · refine .inr ?_
      dsimp only [Pass.process]
      split
      · rw [append_assoc]
        exact (mem_append.1 h).elim (mem_append_left _)
          fun h => mem_append_right _ (mem_append_right _ h)
      · exact h
  case sorted => exact (pairwise_cons.1 (hsend ▸ hp.sorted)).2
  case waiting =>
    intro c hc hopen
    refine hp.waiting c ?_ (undecided_of_processAction hopen)
    rw [hsend]
    dsimp only [Pass.process] at hc
    split at hc
    · simp only [Pass.toSend, Option.map_some, Option.getD_some, mem_append, mem_cons,
        not_mem_nil, or_false] at hc ⊢
      tauto
    · exact mem_cons_of_mem _ hc
  case results =>
    intro request hmem r hr hterminal c hc hopen
    cases hmem
    rcases mem_append.1 hr with hr | hr
    · exact hp.results _ hrequest r hr hterminal c hc (undecided_of_processAction hopen)
    · obtain rfl := mem_singleton.1 hr
      exact (undecided_processAction (hc.trans (processAction_ids hids).2)).2 hterminal hopen

variable {s : DeviceState} {answer : Answer}

theorem overtakes_eq_nil_iff {employeeId : ℕ} :
    overtakes s employeeId a answer = [] ↔ (answer.status.isTerminal → Undecided s.rows a →
      earlier s.queue s.rows employeeId a = []) := by
  unfold overtakes
  split
  · rename_i hdecides
    rw [map_eq_nil_iff]
    exact ⟨fun h _ _ => h, fun h => h hdecides.1 hdecides.2⟩
  · rename_i hno
    exact iff_of_true rfl fun hterminal hopen => absurd ⟨hterminal, hopen⟩ hno

theorem inOrder_iff (hp : PassInv s.queue s.rows p)
    (hrequest : p.request = some ⟨a :: rest, results⟩) :
    Request.InOrder s.rows p answer p.request ↔ overtakes s p.employeeId a answer = [] := by
  rw [overtakes_eq_nil_iff, earlier_eq_nil_iff hp hrequest, hrequest]
  rfl

/-- The server comes to an action of a pass, which is the one of the device or a broken one, and
passes no other action by. -/
theorem inv_processNext (hinv : DeviceInv s) (hp : PassInv s.queue s.rows p)
    (hrequest : p.request = some ⟨a :: rest, results⟩)
    (hovertakes : overtakes s p.employeeId a answer = []) {pass : Option Pass} {strays : List Pass}
    (hpass : ∀ q ∈ pass, q ∈ s.pass ∨ q = p.process tenantId s.rows a rest results answer)
    (hstrays : ∀ q ∈ strays, q ∈ s.strays ∨ q = p.process tenantId s.rows a rest results answer) :
    DeviceInv
      { processNext tenantId s p.employeeId a answer with
        pass := pass
        strays := strays } := by
  refine ⟨?_, (processAction_ids hinv.ids).1, fun q hq => ?_, fun q hq => ?_⟩
  · simp only [processNext, hinv.overtaken, hovertakes, append_nil]
  · rcases hpass q hq with hq | rfl
    · exact (hinv.pass q hq).elsewhere _ answer
    · exact hp.process hinv.ids hrequest answer
  · rcases hstrays q hq with hq | rfl
    · exact (hinv.strays q hq).elsewhere _ answer
    · exact hp.process hinv.ids hrequest answer

/-- A step from a state where nothing has been overtaken either overtakes something, or is in order
and leaves such a state. -/
theorem deviceStep_cases {s t : DeviceState} {step : DeviceStep} (hinv : DeviceInv s)
    (h : deviceStep tenantId s step = some t) :
    (InOrder s step ∧ DeviceInv t) ∨ (¬ InOrder s step ∧ t.overtaken ≠ []) := by
  cases step with
  | enqueue action =>
    simp only [deviceStep] at h
    split at h
    · cases h
      refine .inl ⟨trivial, hinv.overtaken, hinv.ids, fun q hq => ?_, fun q hq => ?_⟩
      · obtain ⟨p, hp, rfl⟩ := Option.mem_map.1 hq
        exact (hinv.pass p hp).enqueue action
      · obtain ⟨p, hp, rfl⟩ := mem_map.1 hq
        exact (hinv.strays p hp).enqueue action
    · cases h
  | beginPass employeeId =>
    simp only [deviceStep] at h
    split at h
    · cases h
      refine .inl ⟨trivial, hinv.overtaken, hinv.ids, fun q hq => ?_, hinv.strays⟩
      cases hq
      exact PassInv.begin s.rows employeeId
    · cases h
  | send =>
    simp only [deviceStep] at h
    split at h
    · rename_i employeeId batch batches left arrived hpass
      cases h
      refine .inl ⟨trivial, hinv.overtaken, hinv.ids, fun q hq => ?_, hinv.strays⟩
      cases hq
      refine (hinv.pass _ hpass).move (.refl _) (fun c => .rfl) fun request hrequest => ?_
      cases hrequest
      rfl
    · cases h
  | unreachable =>
    simp only [deviceStep] at h
    split at h
    · rename_i employeeId batch batches left arrived hpass
      cases h
      refine .inl ⟨trivial, hinv.overtaken, hinv.ids, fun q hq => ?_, hinv.strays⟩
      cases hq
      refine (hinv.pass _ hpass).move (sublist_append_right _ _) (fun c => ?_)
        fun _ hrequest => absurd hrequest (Option.not_mem_none _)
      simp only [Pass.toSend, Option.map_none, Option.getD_none, nil_append,
        flatten_cons, mem_append]
      tauto
    · cases h
  | process answer =>
    simp only [deviceStep] at h
    split at h
    · rename_i p hpass
      split at h
      · rename_i a rest results hrequest
        cases h
        have hp := hinv.pass p hpass
        have horder : InOrder s (.process answer) ↔ overtakes s p.employeeId a answer = [] := by
          simp [InOrder, hpass, ← inOrder_iff hp hrequest]
        rw [horder]
        by_cases hovertakes : overtakes s p.employeeId a answer = []
        · refine .inl ⟨hovertakes, inv_processNext hinv hp hrequest hovertakes (fun q hq => ?_)
            fun q hq => .inl hq⟩
          exact .inr (Option.some.inj hq).symm
        · exact .inr ⟨hovertakes, by simpa [processNext, hinv.overtaken] using hovertakes⟩
      · cases h
    · cases h
  | processStray i answer =>
    simp only [deviceStep] at h
    split at h
    · rename_i p hstray
      split at h
      · rename_i a rest results hrequest
        cases h
        have hp := hinv.strays p (mem_of_getElem? hstray)
        have horder : InOrder s (.processStray i answer) ↔
            overtakes s p.employeeId a answer = [] := by
          simp [InOrder, hstray, ← inOrder_iff hp hrequest]
        rw [horder]
        by_cases hovertakes : overtakes s p.employeeId a answer = []
        · refine .inl ⟨hovertakes, inv_processNext hinv hp hrequest hovertakes (fun q hq => .inl hq)
            fun q hq => ?_⟩
          exact mem_or_eq_of_mem_set hq
        · exact .inr ⟨hovertakes, by simpa [processNext, hinv.overtaken] using hovertakes⟩
      · cases h
    · cases h
  | cutOff serverGoesOn =>
    simp only [deviceStep] at h
    split at h
    · rename_i employeeId request batches left arrived hpass
      cases h
      refine .inl ⟨trivial, hinv.overtaken, hinv.ids, fun q hq => ?_, fun q hq => ?_⟩
      · cases hq
        refine (hinv.pass _ hpass).move (sublist_append_right _ _) (fun c => ?_)
          fun _ hrequest => absurd hrequest (Option.not_mem_none _)
        simp only [Pass.toSend, Option.map_none, Option.getD_none, Option.map_some,
          Option.getD_some, nil_append, mem_append]
        tauto
      · dsimp only at hq
        split at hq
        · rcases mem_append.1 hq with hq | hq
          · exact hinv.strays q hq
          · rw [mem_singleton.1 hq]
            exact hinv.pass _ hpass
        · exact hinv.strays q hq
    · cases h
  | respond arrives =>
    simp only [deviceStep] at h
    split at h
    · rename_i employeeId results batches left arrived hpass
      cases h
      have hp := hinv.pass _ hpass
      have hqueue : ∀ {q : Pass}, PassInv s.queue s.rows q →
          PassInv (if arrives then handleResults s.queue results else s.queue) s.rows q := by
        intro q hq
        split
        · exact hq.handleResults (hp.results _ rfl)
        · exact hq
      refine .inl ⟨trivial, hinv.overtaken, hinv.ids, fun q hq => ?_,
        fun q hq => hqueue (hinv.strays q hq)⟩
      cases hq
      exact hqueue (hp.move (.refl _) (fun c => .rfl)
        fun _ hrequest => absurd hrequest (Option.not_mem_none _))
    · cases h
  | endPass =>
    simp only [deviceStep] at h
    split at h
    · cases h
      exact .inl ⟨trivial, hinv.overtaken, hinv.ids,
        fun _ hq => absurd hq (Option.not_mem_none _), hinv.strays⟩
    · cases h

end Steps

/-! ## Runs of a device -/

def DeviceState.init (queue : List QueuedAction) : DeviceState :=
  ⟨queue, fun _ => none, none, [], []⟩

theorem inv_init_device (queue : List QueuedAction) : DeviceInv (.init queue) :=
  ⟨rfl, fun _ _ h => absurd h (Option.not_mem_none _), fun _ h => absurd h (Option.not_mem_none _),
    forall_mem_nil _⟩

/-- **When clock events keep their order**: in a run, from any queue, nothing is decided while an
earlier action of the same employee is waiting, exactly when nothing is decided after its own
pass has left such an action undecided, in a batch that failed or by a forward that failed, or after
one came since that pass began; a batch whose connection has broken goes on as its pass was then. -/
theorem nothing_overtaken_iff (queue : List QueuedAction) {steps : List DeviceStep}
    {t : DeviceState} (h : Runs.exec (deviceStep tenantId) (.init queue) steps = some t) :
    Runs.Always (deviceStep tenantId) (·.overtaken = []) (.init queue) steps ↔
      Runs.Meets (deviceStep tenantId) InOrder (.init queue) steps := by
  refine Runs.always_iff_meets (fun _ => DeviceInv.overtaken) (fun s step t hinv hok hstep => ?_)
    (fun s step t hinv hno hstep => ?_) (inv_init_device queue) h
  · exact (deviceStep_cases hinv hstep).elim And.right fun h => absurd hok h.1
  · exact (deviceStep_cases hinv hstep).elim (fun h => absurd h.1 hno) And.right

def clockIn : QueuedAction := ⟨"a1", .clockEvent, { eventType := some "clock_in" }, 1⟩

def clockOut : QueuedAction := ⟨"a2", .clockEvent, { eventType := some "clock_out" }, 2⟩

/-- The first batch does not arrive, the second does. -/
def shiftSent : List DeviceStep :=
  [.beginPass 3, .unreachable, .endPass, .beginPass 3, .send, .process (.accepted none),
    .process (.accepted none), .respond true, .endPass]

theorem shiftSent_overtakes_nothing :
    Runs.Always (deviceStep 7) (·.overtaken = []) (.init [clockIn, clockOut]) shiftSent := by
  obtain ⟨t, ht, -⟩ : ∃ t, Runs.exec (deviceStep 7) (.init [clockIn, clockOut]) shiftSent =
      some t ∧ t.queue = [] := Runs.exists_exec (by decide)
  exact (nothing_overtaken_iff 7 _ ht).2 (by decide)

/-- The attendance service does not answer when the clock-in is forwarded. -/
def clockInFails : List DeviceStep :=
  [.beginPass 3, .send, .process (.failed "HTTP 503"),
    .process (answerOfError (.noOpenAttendanceRecord 3)), .respond true, .endPass]

/-- The clock-out is in conflict for good, and its clock-in is waiting. -/
theorem clockInFails_overtakes : ∃ t, Runs.exec (deviceStep 7) (.init [clockIn, clockOut])
      clockInFails = some t ∧ t.overtaken = [(clockOut, clockIn)] ∧ t.queue = [clockIn] ∧
    (t.rows "a2").map (·.status) = some .conflict := Runs.exists_exec (by decide)

end Workforce.Mobile
