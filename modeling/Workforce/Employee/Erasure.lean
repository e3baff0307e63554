import Workforce.Employee.Records

/-!
# Erasure requests

`erasure-requests.service.ts` and its repository: a request to erase an employee is approved or
rejected, and an approved one is completed, which anonymizes the employee. Each call reads the
request, checks its status and writes later, without a condition: `approve` and `reject` by an
`UPDATE` of their own, `complete` in the transaction that scrubs the employee. Calls overlap. A
`CHECK` of the table keeps a completed request from getting another status alone.

* `anonymize`: what the scrub takes away, and what it leaves.
* `followsApproval_iff`: erasure follows approval exactly along the runs in which no completion
  commits on a request after a completion or a rejection of it.
* `orderly_of_fresh`, `followsApproval_of_fresh`: the runs in which every write finds the status
  that its call has read are among them.
-/

namespace Workforce.Erasure

open Runs Tables Versions Employees List

/-! ## The tables -/

inductive ErasureRequestStatus
  | pending | approved | completed | rejected
  deriving DecidableEq

structure ErasureRequest where
  id : ℕ
  employeeId : ℕ
  requestedBy : ℕ
  legalBasis : String
  status : ErasureRequestStatus
  completedAt : Option ℤ

/-- `erasure_requests_completed_consistency`. -/
def ErasureRequest.consistent (r : ErasureRequest) : Bool :=
  decide (r.status = .completed) == r.completedAt.isSome

/-- A row of `employees`, with the login that the erasure severs. -/
structure EmployeeRow extends Employee where
  userId : Option ℕ

inductive ErasureError
  | notFound (id : ℕ)
  | invalidTransition (id : ℕ) (source target : ErasureRequestStatus)
  | employeeNotFound (id : ℕ)
  /-- The primary key. -/
  | duplicateId
  /-- `uq_employees_tenant_id_employee_number`. -/
  | duplicateEmployeeNumber
  /-- `erasure_requests_completed_consistency`. -/
  | completedConsistency

inductive Operation
  | approve | reject | complete
  deriving DecidableEq

/-- A call that has passed the check of its status: the request as it was read and, once the
transaction of `complete` has reached `save`, the row that `save` has loaded. -/
structure Call where
  id : ℕ
  operation : Operation
  before : ErasureRequest
  loaded : Option ErasureRequest

/-- A committed write: the status that it found and the one that it left. -/
structure Write where
  request : ℕ
  operation : Operation
  found : ErasureRequestStatus
  left : ErasureRequestStatus

structure State where
  requests : List ErasureRequest
  employees : List EmployeeRow
  history : List EmployeeHistory
  calls : List Call
  /-- What has been committed, the latest first. -/
  log : List Write

/-- No request has been made. -/
def State.init (employees : List EmployeeRow) (history : List EmployeeHistory) : State :=
  ⟨[], employees, history, [], []⟩

/-! ## The service: what a call reads and checks -/

namespace State

variable (s : State)

def findById (id : ℕ) : Except ErasureError ErasureRequest :=
  match lookup (·.id) id s.requests with
  | none => .error (.notFound id)
  | some request => .ok request

/-- The request, if its status is one that the operation starts from. -/
def check (sources : List ErasureRequestStatus) (target : ErasureRequestStatus) (id : ℕ) :
    Except ErasureError ErasureRequest := do
  let before ← s.findById id
  if before.status ∈ sources then return before
  throw (.invalidTransition id before.status target)

/-- `approve`, up to its write. -/
def approve : ℕ → Except ErasureError ErasureRequest := s.check [.pending] .approved

/-- `reject`, up to its write. -/
def reject : ℕ → Except ErasureError ErasureRequest := s.check [.pending, .approved] .rejected

/-- `complete`, up to its transaction. -/
def complete : ℕ → Except ErasureError ErasureRequest := s.check [.approved] .completed

def read : Operation → ℕ → Except ErasureError ErasureRequest
  | .approve => s.approve
  | .reject => s.reject
  | .complete => s.complete

def create (id employeeId requestedBy : ℕ) (legalBasis : String) : Except ErasureError State :=
  if employeeId ∉ s.employees.map (·.id) then .error (.employeeNotFound employeeId)
  else if id ∈ s.requests.map (·.id) then .error .duplicateId
  else
    .ok { s with
      requests := s.requests ++ [⟨id, employeeId, requestedBy, legalBasis, .pending, none⟩] }

end State

/-! ## The repository: what a call writes -/

/-- `save` of an entity: the columns that differ from the loaded row are written over the row, which
may have changed since. -/
def saveOver (loaded saved row : ErasureRequest) : ErasureRequest where
  id := row.id
  employeeId := saveColumn loaded.employeeId saved.employeeId row.employeeId
  requestedBy := saveColumn loaded.requestedBy saved.requestedBy row.requestedBy
  legalBasis := saveColumn loaded.legalBasis saved.legalBasis row.legalBasis
  status := saveColumn loaded.status saved.status row.status
  completedAt := saveColumn loaded.completedAt saved.completedAt row.completedAt

/-- The employee loses number and login; every other column stays. -/
def EmployeeRow.anonymize (employeeNumber : String) (e : EmployeeRow) : EmployeeRow :=
  { e with columns := { e.columns with employeeNumber := employeeNumber }, userId := none }

namespace State

variable (s : State)

/-- `UPDATE` of a request. -/
def update (id : ℕ) (f : ErasureRequest → ErasureRequest) : Except ErasureError State :=
  if ∀ r ∈ s.requests, r.id = id → (f r).consistent = true then
    .ok { s with requests := Tables.modify (·.id) id f s.requests }
  else .error .completedConsistency

def setStatus (id : ℕ) (status : ErasureRequestStatus) : Except ErasureError State :=
  s.update id fun r => { r with status := status }

/-- The scrub of `completeAndAnonymize`: the live row and every version of the employee. -/
def anonymize (employeeId : ℕ) (employeeNumber : String) : State :=
  { s with
    employees := Tables.modify (·.id) employeeId (EmployeeRow.anonymize employeeNumber) s.employees
    history := Tables.modify (·.key) employeeId
      (fun v => { v with columns := { v.columns with employeeNumber := employeeNumber } })
      s.history }

/-- `completeAndAnonymize`, committed: the scrub, and the request as it was read saved as completed
over the row. -/
def completeAndAnonymize (request loaded : ErasureRequest) (employeeNumber : String) (now : ℤ) :
    Except ErasureError State :=
  if request.employeeId ∉ s.employees.map (·.id) then .error (.employeeNotFound request.employeeId)
  else if employeeNumber ∈ (s.employees.filter (·.id ≠ request.employeeId)).map
      (·.columns.employeeNumber) then
    .error .duplicateEmployeeNumber
  else
    (s.anonymize request.employeeId employeeNumber).update request.id
      (saveOver loaded { request with status := .completed, completedAt := some now })

end State

/-! ## Overlapping calls -/

/-- A call begins, or a transaction of one. -/
inductive Action
  | create (id employeeId requestedBy : ℕ) (legalBasis : String)
  /-- A call reads its request; one that fails the check ends here. -/
  | read (call : ℕ) (operation : Operation) (request : ℕ)
  /-- The transaction of `complete`, up to the row that `save` loads. -/
  | load (call : ℕ)
  /-- The write of a call takes effect. -/
  | commit (call : ℕ) (employeeNumber : String) (now : ℤ)
  /-- The call fails before its write, or its process stops. -/
  | abandon (call : ℕ)

namespace State

variable (s : State)

/-- The write of a call. -/
def write (c : Call) (employeeNumber : String) (now : ℤ) : Except ErasureError State :=
  match c.operation, c.loaded with
  | .approve, _ => s.setStatus c.before.id .approved
  | .reject, _ => s.setStatus c.before.id .rejected
  | .complete, some loaded => s.completeAndAnonymize c.before loaded employeeNumber now
  | .complete, none => .error (.notFound c.before.id)

/-- Another transaction has updated the row of the employee and has not ended: the update waits. -/
def locked (c : Call) : Prop :=
  ∃ c' ∈ s.calls, c'.id ≠ c.id ∧ c'.loaded ≠ none ∧ c'.before.employeeId = c.before.employeeId
  deriving Decidable

end State

/-- One step. A write that throws is rolled back: it is an `abandon`. -/
def step (s : State) : Action → Option State
  | .create id employeeId requestedBy legalBasis =>
    (s.create id employeeId requestedBy legalBasis).toOption
  | .read call operation request =>
    if call ∈ s.calls.map (·.id) then none
    else
      match s.read operation request with
      | .error _ => some s
      | .ok before => some { s with calls := ⟨call, operation, before, none⟩ :: s.calls }
  | .load call =>
    match lookup (·.id) call s.calls with
    | none => none
    | some c =>
      if c.operation ≠ .complete ∨ c.loaded ≠ none ∨ s.locked c then none
      else
        match lookup (·.id) c.before.id s.requests with
        | none => none
        | some row =>
          some { s with calls := { c with loaded := some row } :: s.calls.filter (·.id ≠ call) }
  | .commit call employeeNumber now =>
    match lookup (·.id) call s.calls with
    | none => none
    | some c =>
      match s.write c employeeNumber now with
      | .error _ => none
      | .ok t =>
        match lookup (·.id) c.before.id s.requests, lookup (·.id) c.before.id t.requests with
        | some found, some left =>
          some { t with
            calls := s.calls.filter (·.id ≠ call)
            log := ⟨c.before.id, c.operation, found.status, left.status⟩ :: s.log }
        | _, _ => none
  | .abandon call => some { s with calls := s.calls.filter (·.id ≠ call) }

/-! ## What the steps do to a status -/

/-- The status that the write of a call leaves, over the one that it finds. -/
def Call.leaves (c : Call) (found : ErasureRequestStatus) : ErasureRequestStatus :=
  match c.operation, c.loaded with
  | .approve, _ => .approved
  | .reject, _ => .rejected
  | .complete, some loaded => saveColumn loaded.status .completed found
  | .complete, none => found

namespace State

variable {s t : State}

/-- The status of a request. -/
def status (s : State) (id : ℕ) : Option ErasureRequestStatus :=
  (lookup (·.id) id s.requests).map (·.status)

theorem status_eq_some {id : ℕ} {st : ErasureRequestStatus} :
    s.status id = some st ↔ ∃ r, lookup (·.id) id s.requests = some r ∧ r.status = st := by
  simp [status]

/-- A request that passes the check has one of the statuses that the operation starts from. -/
theorem check_eq_ok {sources : List ErasureRequestStatus} {target : ErasureRequestStatus} {id : ℕ}
    {before : ErasureRequest} (h : s.check sources target id = .ok before) :
    before.id = id ∧ s.status id = some before.status ∧ before.status ∈ sources := by
  obtain ⟨r, hr, h⟩ := bind_eq_ok h
  unfold findById at hr
  split at hr
  · cases hr
  · rename_i request hlookup
    cases hr
    split at h
    · rename_i hmem
      cases h
      exact ⟨(mem_of_lookup hlookup).2, status_eq_some.2 ⟨_, hlookup, rfl⟩, hmem⟩
    · cases h

theorem read_eq_ok {operation : Operation} {id : ℕ} {before : ErasureRequest}
    (h : s.read operation id = .ok before) :
    before.id = id ∧ s.status id = some before.status ∧ before.status ≠ .rejected ∧
      before.status ≠ .completed ∧ (operation = .complete → before.status = .approved) := by
  cases operation with
  | approve =>
    obtain ⟨hid, hstatus, hmem⟩ := check_eq_ok h
    have hpending : before.status = .pending := by simpa using hmem
    exact ⟨hid, hstatus, by simp [hpending], by simp [hpending], nofun⟩
  | reject =>
    obtain ⟨hid, hstatus, hmem⟩ := check_eq_ok h
    have hopen : before.status = .pending ∨ before.status = .approved := by simpa using hmem
    refine ⟨hid, hstatus, ?_, ?_, nofun⟩ <;> rcases hopen with hopen | hopen <;> simp [hopen]
  | complete =>
    obtain ⟨hid, hstatus, hmem⟩ := check_eq_ok h
    have happroved : before.status = .approved := by simpa using hmem
    exact ⟨hid, hstatus, by simp [happroved], by simp [happroved], fun _ => happroved⟩

theorem status_of_modify {k : ℕ} {f : ErasureRequest → ErasureRequest}
    {g : ErasureRequestStatus → ErasureRequestStatus}
    (ht : t.requests = Tables.modify (·.id) k f s.requests) (hid : ∀ r, (f r).id = r.id)
    (hstatus : ∀ r, (f r).status = g r.status) (id : ℕ) :
    t.status id = if id = k then (s.status id).map g else s.status id := by
  rw [status, ht, lookup_modify hid]
  split
  · rw [status, Option.map_map, Option.map_map]
    congr 1
    funext r
    exact hstatus r
  · rfl

/-- Every request is as the `CHECK` demands. -/
def Consistent (s : State) : Prop := ∀ r ∈ s.requests, r.consistent = true

theorem update_eq_ok {k : ℕ} {f : ErasureRequest → ErasureRequest} (h : s.update k f = .ok t) :
    (∀ r ∈ s.requests, r.id = k → (f r).consistent = true) ∧
      t = { s with requests := Tables.modify (·.id) k f s.requests } := by
  unfold update at h
  split at h
  · exact ⟨‹_›, (Except.ok.inj h).symm⟩
  · cases h

theorem Consistent.update (hs : s.Consistent) {k : ℕ} {f : ErasureRequest → ErasureRequest}
    (h : s.update k f = .ok t) : t.Consistent := by
  obtain ⟨hcheck, rfl⟩ := update_eq_ok h
  intro r hr
  obtain ⟨r', hr', rfl⟩ := mem_map.1 hr
  split
  · exact hcheck r' hr' ‹_›
  · exact hs r' hr'

/-- A completed request does not get another status alone. -/
theorem Consistent.setStatus (hs : s.Consistent) {k : ℕ} {status : ErasureRequestStatus}
    (hne : status ≠ .completed) (h : s.setStatus k status = .ok t) :
    s.status k ≠ some .completed := by
  intro hdone
  obtain ⟨r, hr, hstatus⟩ := status_eq_some.1 hdone
  obtain ⟨hmem, hid⟩ := mem_of_lookup hr
  have hbefore := hs r hmem
  have hafter := (update_eq_ok h).1 r hmem hid
  simp only [ErasureRequest.consistent, hstatus, decide_true, decide_eq_false hne,
    beq_iff_eq] at hbefore hafter
  exact absurd (hbefore.trans hafter.symm) (by decide)

/-- A write changes the status of its request as the operation says; one that is not a completion
does not find it completed. -/
theorem write_eq_ok {c : Call} {employeeNumber : String} {now : ℤ} (hs : s.Consistent)
    (h : s.write c employeeNumber now = .ok t) :
    (c.operation = .complete → c.loaded ≠ none) ∧
      (c.operation ≠ .complete → s.status c.before.id ≠ some .completed) ∧ t.Consistent ∧
      ∀ id, t.status id = if id = c.before.id then (s.status id).map c.leaves else s.status id := by
  unfold write at h
  split at h
  · rename_i hop
    refine ⟨by simp [hop], fun _ => hs.setStatus (by decide) h, hs.update h,
      status_of_modify (congrArg _ (update_eq_ok h).2) (fun _ => rfl) fun r => ?_⟩
    simp only [Call.leaves, hop]
  · rename_i hop
    refine ⟨by simp [hop], fun _ => hs.setStatus (by decide) h, hs.update h,
      status_of_modify (congrArg _ (update_eq_ok h).2) (fun _ => rfl) fun r => ?_⟩
    simp only [Call.leaves, hop]
  · rename_i loaded hop hloaded
    unfold completeAndAnonymize at h
    split at h
    · cases h
    · split at h
      · cases h
      · refine ⟨by simp [hloaded], fun hne => absurd hop hne,
          Consistent.update (s := s.anonymize _ _) hs h,
          status_of_modify (congrArg _ (update_eq_ok h).2) (fun _ => rfl) fun r => ?_⟩
        simp only [Call.leaves, hop, hloaded, saveOver]
  · cases h

end State

variable {s t : State}

theorem step_create {id employeeId requestedBy : ℕ} {legalBasis : String}
    (h : step s (.create id employeeId requestedBy legalBasis) = some t) :
    s.status id = none ∧ t.calls = s.calls ∧ t.log = s.log ∧ (s.Consistent → t.Consistent) ∧
      ∀ id', t.status id' = if id' = id then some .pending else s.status id' := by
  obtain h := toOption_eq_some h
  unfold State.create at h
  split at h
  · cases h
  · split at h
    · cases h
    · rename_i hfresh
      cases h
      have hne : ∀ r ∈ s.requests, r.id ≠ id := by
        intro r hr hid
        exact hfresh (hid ▸ mem_map_of_mem hr)
      refine ⟨?_, rfl, rfl, fun hs => ?_, fun id' => ?_⟩
      · rw [State.status, Option.map_eq_none_iff, ← Option.not_isSome_iff_eq_none, lookup_isSome]
        exact hfresh
      · exact forall_mem_append.2 ⟨hs, forall_mem_singleton.2 rfl⟩
      · simp only [State.status]
        rw [lookup_append_singleton hne]
        split <;> rfl

theorem step_read {call request : ℕ} {operation : Operation}
    (h : step s (.read call operation request) = some t) :
    t = s ∨ ∃ before, s.read operation request = .ok before ∧
      t = { s with calls := ⟨call, operation, before, none⟩ :: s.calls } := by
  simp only [step] at h
  split at h
  · cases h
  · split at h
    · exact .inl (Option.some.inj h).symm
    · rename_i before hread
      exact .inr ⟨before, hread, (Option.some.inj h).symm⟩

theorem step_load {call : ℕ} (h : step s (.load call) = some t) :
    ∃ c row, c ∈ s.calls ∧ s.status c.before.id = some row.status ∧
      t = { s with calls := { c with loaded := some row } :: s.calls.filter (·.id ≠ call) } := by
  simp only [step] at h
  split at h
  · cases h
  · rename_i c hc
    split at h
    · cases h
    · split at h
      · cases h
      · rename_i row hrow
        have hstatus := State.status_eq_some.2 ⟨row, hrow, rfl⟩
        exact ⟨c, row, (mem_of_lookup hc).1, hstatus, (Option.some.inj h).symm⟩

theorem step_commit {call : ℕ} {employeeNumber : String} {now : ℤ} (hs : s.Consistent)
    (h : step s (.commit call employeeNumber now) = some t) :
    ∃ c found, lookup (·.id) call s.calls = some c ∧ s.status c.before.id = some found ∧
      (c.operation = .complete → c.loaded ≠ none) ∧
      (c.operation ≠ .complete → found ≠ .completed) ∧ t.Consistent ∧
      (∀ id, t.status id = if id = c.before.id then some (c.leaves found) else s.status id) ∧
      t.calls = s.calls.filter (·.id ≠ call) ∧
      t.log = ⟨c.before.id, c.operation, found, c.leaves found⟩ :: s.log := by
  simp only [step] at h
  split at h
  · cases h
  · rename_i c hc
    split at h
    · cases h
    · rename_i u hwrite
      obtain ⟨hloaded, hopen, hconsistent, hstatus⟩ := State.write_eq_ok hs hwrite
      split at h
      · rename_i found left hfound hleft
        have hs : s.status c.before.id = some found.status :=
          State.status_eq_some.2 ⟨found, hfound, rfl⟩
        rw [hs] at hopen
        have hu : u.status c.before.id = some left.status :=
          State.status_eq_some.2 ⟨left, hleft, rfl⟩
        have hleaves : left.status = c.leaves found.status := by
          rw [hstatus, if_pos rfl, hs] at hu
          exact (Option.some.inj hu).symm
        cases h
        refine ⟨c, found.status, hc, hs, hloaded, fun hop hdone => hopen hop (congrArg some hdone),
          hconsistent, fun id => ?_, rfl, by rw [hleaves]⟩
        refine (hstatus id).trans ?_
        split
        · rename_i hid
          rw [hid, hs]
          rfl
        · rfl
      · cases h

/-! ## Erasure follows approval -/

variable {a : Action}

/-- Employees are anonymized only on a request that is approved, a request that has been rejected is
not completed, and a completed request stays completed. -/
structure FollowsApproval (log : List Write) : Prop where
  anonymized : ∀ w ∈ log, w.operation = .complete → w.found = .approved
  rejected : log.Pairwise fun later earlier =>
    later.request = earlier.request → earlier.left = .rejected → later.operation ≠ .complete
  completed : ∀ w ∈ log, w.found = .completed → w.left = .completed

/-- A call of this kind has committed on the request. -/
def State.Committed (s : State) (id : ℕ) (operation : Operation) : Prop :=
  ∃ w ∈ s.log, w.request = id ∧ w.operation = operation
  deriving Decidable

/-- No completion commits on a request after a completion or a rejection of it. -/
def Orderly (s : State) : Action → Prop
  | .commit call _ _ => ∀ c ∈ lookup (·.id) call s.calls, c.operation = .complete →
      ¬ s.Committed c.before.id .complete ∧ ¬ s.Committed c.before.id .reject
  | _ => True

instance (s : State) (a : Action) : Decidable (Orderly s a) := by
  cases a <;> unfold Orderly <;> infer_instance

/-- What holds along the orderly runs. -/
structure State.Inv (s : State) : Prop where
  follows : FollowsApproval s.log
  consistent : s.Consistent
  leaves : ∀ w ∈ s.log, w.left = .rejected ↔ w.operation = .reject
  /-- A completion is the last write. -/
  completed : ∀ w ∈ s.log, w.operation = .complete → s.status w.request = some .completed
  completes : ∀ id, s.status id = some .completed → s.Committed id .complete
  loads : ∀ c ∈ s.calls, ∀ row ∈ c.loaded, row.status = .completed →
    s.Committed c.before.id .complete
  /-- Until a rejection or a completion commits, what `complete` has checked still holds. -/
  checked : ∀ c ∈ s.calls, c.operation = .complete → ¬ s.Committed c.before.id .complete →
    ¬ s.Committed c.before.id .reject → s.status c.before.id = some .approved

theorem State.inv_init (employees : List EmployeeRow) (history : List EmployeeHistory) :
    (State.init employees history).Inv := by
  have hlog : FollowsApproval [] :=
    ⟨forall_mem_nil _, Pairwise.nil, forall_mem_nil _⟩
  refine ⟨hlog, forall_mem_nil _, forall_mem_nil _, forall_mem_nil _, ?_,
    forall_mem_nil _, forall_mem_nil _⟩
  intro id h
  cases h

/-- A write leaves a request rejected or completed only as what its operation says. -/
theorem Call.leaves_eq {c : Call} (found : ErasureRequestStatus)
    (hloaded : c.operation = .complete → c.loaded ≠ none)
    (hstale : c.operation = .complete → ∀ row ∈ c.loaded, row.status ≠ .completed) :
    c.leaves found = match c.operation with
      | .approve => .approved
      | .reject => .rejected
      | .complete => .completed := by
  unfold Call.leaves
  cases hop : c.operation with
  | approve => rfl
  | reject => rfl
  | complete =>
    obtain ⟨row, hrow⟩ := Option.ne_none_iff_exists'.1 (hloaded hop)
    have hne : ErasureRequestStatus.completed ≠ row.status := (hstale hop row hrow).symm
    simp only [hrow, saveColumn, if_neg hne]

theorem State.Inv.commit (hs : s.Inv) {call : ℕ} {employeeNumber : String} {now : ℤ}
    (hok : Orderly s (.commit call employeeNumber now))
    (h : step s (.commit call employeeNumber now) = some t) : t.Inv := by
  obtain ⟨c, found, hc, hfound, hloaded, hopen, hconsistent, hstatus, hcalls, hlog⟩ :=
    step_commit hs.consistent h
  have hmem : c ∈ s.calls := (mem_of_lookup hc).1
  -- no write finds its request completed: a completion by the condition, the others by the `CHECK`
  have hne : found ≠ .completed := by
    intro hdone
    by_cases hop : c.operation = .complete
    · exact (hok c hc hop).1 (hs.completes _ (hdone ▸ hfound))
    · exact hopen hop hdone
  have hleaves := Call.leaves_eq found hloaded fun hop row hrow hdone =>
    (hok c hc hop).1 (hs.loads c hmem row hrow hdone)
  have hno : ¬ s.Committed c.before.id .complete := by
    rintro ⟨w, hw, hid, hop⟩
    have hdone := hs.completed w hw hop
    rw [hid, hfound] at hdone
    exact hne (Option.some.inj hdone)
  have hin : ∀ {id : ℕ} {op : Operation}, s.Committed id op → t.Committed id op := by
    rintro id op ⟨w, hw, hwop⟩
    exact ⟨w, hlog ▸ mem_cons_of_mem _ hw, hwop⟩
  have hnew : t.Committed c.before.id c.operation :=
    ⟨_, hlog ▸ mem_cons_self, rfl, rfl⟩
  have hcalls' : ∀ c' ∈ t.calls, c' ∈ s.calls := by
    intro c' hc'
    rw [hcalls] at hc'
    exact (mem_filter.1 hc').1
  refine ⟨⟨?_, ?_, ?_⟩, hconsistent, ?_, ?_, ?_, ?_, ?_⟩
  · rw [hlog]
    refine forall_mem_cons.2 ⟨fun hop => ?_, hs.follows.anonymized⟩
    have happroved := hs.checked c hmem hop hno (hok c hc hop).2
    exact Option.some.inj (hfound.symm.trans happroved)
  · rw [hlog]
    refine pairwise_cons.2 ⟨fun w hw hid hleft hop => ?_, hs.follows.rejected⟩
    exact (hok c hc hop).2 ⟨w, hw, hid.symm, (hs.leaves w hw).1 hleft⟩
  · rw [hlog]
    exact forall_mem_cons.2 ⟨fun hdone => absurd hdone hne, hs.follows.completed⟩
  · rw [hlog]
    refine forall_mem_cons.2 ⟨?_, hs.leaves⟩
    show c.leaves found = .rejected ↔ c.operation = .reject
    rw [hleaves]
    cases c.operation <;> simp
  · rw [hlog]
    refine forall_mem_cons.2 ⟨fun hop => ?_, fun w hw hop => ?_⟩
    · rw [hstatus, if_pos rfl, hleaves, show c.operation = .complete from hop]
    · have hw' : w.request ≠ c.before.id := fun hid => hno ⟨w, hw, hid, hop⟩
      rw [hstatus, if_neg hw']
      exact hs.completed w hw hop
  · intro id hdone
    rw [hstatus] at hdone
    split at hdone
    · rename_i hid
      rw [hleaves] at hdone
      cases hop : c.operation with
      | approve => simp [hop] at hdone
      | reject => simp [hop] at hdone
      | complete => rw [hid, ← hop]; exact hnew
    · exact hin (hs.completes id hdone)
  · intro c' hc' row hrow hdone
    exact hin (hs.loads c' (hcalls' c' hc') row hrow hdone)
  · intro c' hc' hop hnoc hnor
    rw [hstatus]
    split
    · -- Only an approval can have committed.
      rename_i hid
      rw [hid] at hnoc hnor
      rw [hleaves]
      cases hop' : c.operation with
      | approve => rfl
      | reject => exact absurd (hop' ▸ hnew) hnor
      | complete => exact absurd (hop' ▸ hnew) hnoc
    · exact hs.checked c' (hcalls' c' hc') hop (fun hin' => hnoc (hin hin'))
        fun hin' => hnor (hin hin')

theorem State.Inv.keep (hs : s.Inv) (hok : Orderly s a) (h : step s a = some t) :
    t.Inv := by
  cases a with
  | create id employeeId requestedBy legalBasis =>
    obtain ⟨hfresh, hcalls, hlog, hconsistent, hstatus⟩ := step_create h
    have hkeep : ∀ {id' : ℕ} {st : ErasureRequestStatus}, s.status id' = some st →
        t.status id' = some st := by
      intro id' st hst
      have hne : id' ≠ id := by
        rintro rfl
        rw [hfresh] at hst
        cases hst
      rw [hstatus, if_neg hne, hst]
    have hin : ∀ {id' : ℕ} {op : Operation}, t.Committed id' op ↔ s.Committed id' op := by
      intro id' op
      rw [State.Committed, hlog]
      rfl
    refine ⟨⟨?_, ?_, ?_⟩, hconsistent hs.consistent, ?_, ?_, ?_, ?_, ?_⟩
    · exact hlog ▸ hs.follows.anonymized
    · exact hlog ▸ hs.follows.rejected
    · exact hlog ▸ hs.follows.completed
    · exact hlog ▸ hs.leaves
    · intro w hw hop
      exact hkeep (hs.completed w (hlog ▸ hw) hop)
    · intro id' hdone
      rw [hstatus] at hdone
      split at hdone
      · cases hdone
      · exact hin.2 (hs.completes id' hdone)
    · intro c hc row hrow hdone
      exact hin.2 (hs.loads c (hcalls ▸ hc) row hrow hdone)
    · intro c hc hop hnoc hnor
      rw [hin] at hnoc hnor
      exact hkeep (hs.checked c (hcalls ▸ hc) hop hnoc hnor)
  | read call operation request =>
    obtain rfl | ⟨before, hread, rfl⟩ := step_read h
    · exact hs
    · obtain ⟨hid, hstatus, -, -, happroved⟩ := State.read_eq_ok hread
      refine ⟨hs.follows, hs.consistent, hs.leaves, hs.completed, hs.completes, ?_, ?_⟩
      · exact forall_mem_cons.2 ⟨nofun, hs.loads⟩
      · refine forall_mem_cons.2 ⟨fun hop _ _ => ?_, hs.checked⟩
        show s.status before.id = _
        rw [hid, hstatus, happroved hop]
  | load call =>
    obtain ⟨c, row, hc, hrow, rfl⟩ := step_load h
    refine ⟨hs.follows, hs.consistent, hs.leaves, hs.completed, hs.completes, ?_, ?_⟩
    · refine forall_mem_cons.2 ⟨fun row' hrow' hdone => ?_, fun c' hc' => ?_⟩
      · obtain rfl := Option.some.inj hrow'
        exact hs.completes _ (hdone ▸ hrow)
      · exact hs.loads c' (mem_filter.1 hc').1
    · refine forall_mem_cons.2 ⟨hs.checked c hc, fun c' hc' => ?_⟩
      exact hs.checked c' (mem_filter.1 hc').1
  | commit call employeeNumber now => exact hs.commit hok h
  | abandon call =>
    cases h
    refine ⟨hs.follows, hs.consistent, hs.leaves, hs.completed, hs.completes, ?_, ?_⟩
    · intro c hc
      exact hs.loads c (mem_filter.1 hc).1
    · intro c hc
      exact hs.checked c (mem_filter.1 hc).1

theorem State.Inv.breaks (hs : s.Inv) (hbad : ¬ Orderly s a) (h : step s a = some t) :
    ¬ FollowsApproval t.log := by
  cases a with
  | create id employeeId requestedBy legalBasis => exact absurd trivial hbad
  | read call operation request => exact absurd trivial hbad
  | load call => exact absurd trivial hbad
  | abandon call => exact absurd trivial hbad
  | commit call employeeNumber now =>
    obtain ⟨c, found, hc, hfound, -, -, -, -, -, hlog⟩ := step_commit hs.consistent h
    have hbad' : ¬ (c.operation = .complete →
        ¬ s.Committed c.before.id .complete ∧ ¬ s.Committed c.before.id .reject) := by
      intro hok
      refine hbad fun c' hc' => ?_
      obtain rfl := Option.some.inj (hc.symm.trans hc')
      exact hok
    obtain ⟨hop, hearlier⟩ := Classical.not_imp.1 hbad'
    intro hfollows
    rw [hlog] at hfollows
    by_cases hdone : s.Committed c.before.id .complete
    · -- The completion finds the request completed.
      obtain ⟨w, hw, hid, hop'⟩ := hdone
      have hcompleted := hs.completed w hw hop'
      rw [hid, hfound] at hcompleted
      cases hcompleted
      cases hfollows.anonymized _ mem_cons_self hop
    · -- It comes after a rejection.
      obtain ⟨w, hw, hid, hop'⟩ : s.Committed c.before.id .reject := by
        by_contra hrej
        exact hearlier ⟨hdone, hrej⟩
      have hpair := (pairwise_cons.1 hfollows.rejected).1 w hw
      exact hpair hid.symm ((hs.leaves w hw).2 hop') hop

/-- **Erasure follows approval exactly along the orderly runs**, however the calls overlap, fail and
stop. -/
theorem followsApproval_iff {employees : List EmployeeRow} {history : List EmployeeHistory}
    {as : List Action} (h : exec step (.init employees history) as = some t) :
    Always step (fun s => FollowsApproval s.log) (.init employees history) as ↔
      Meets step Orderly (.init employees history) as :=
  always_iff_meets (fun _ hs => hs.follows) (fun _ _ _ hs hok h => hs.keep hok h)
    (fun _ _ _ hs hbad h => hs.breaks hbad h) (State.inv_init employees history) h

/-! ## Writes that find what their call has read -/

/-- The write of a call finds the status that the call has read. -/
def Fresh (s : State) : Action → Prop
  | .commit call _ _ =>
    ∀ c ∈ lookup (·.id) call s.calls, s.status c.before.id = some c.before.status
  | _ => True

/-- What moreover holds along the runs of such writes: a rejected request stays rejected. -/
structure State.FreshInv (s : State) : Prop extends s.Inv where
  unsettled : ∀ c ∈ s.calls, c.before.status ≠ .rejected ∧ c.before.status ≠ .completed ∧
    (c.operation = .complete → c.before.status = .approved)
  rejects : ∀ w ∈ s.log, w.operation = .reject → s.status w.request = some .rejected

theorem State.FreshInv.orderly (hs : s.FreshInv) (hok : Fresh s a) : Orderly s a := by
  cases a with
  | commit call employeeNumber now =>
    intro c hc
    have hstatus := hok c hc
    obtain ⟨-, hcompleted, happroved⟩ := hs.unsettled c (mem_of_lookup hc).1
    intro hop
    constructor
    · rintro ⟨w, hw, hid, hop'⟩
      have hdone := hs.completed w hw hop'
      rw [hid, hstatus] at hdone
      exact hcompleted (Option.some.inj hdone)
    · rintro ⟨w, hw, hid, hop'⟩
      have hrej := hs.rejects w hw hop'
      rw [hid, hstatus, happroved hop] at hrej
      cases hrej
  | create id employeeId requestedBy legalBasis => trivial
  | read call operation request => trivial
  | load call => trivial
  | abandon call => trivial

theorem State.FreshInv.keep (hs : s.FreshInv) (hok : Fresh s a) (h : step s a = some t) :
    t.FreshInv := by
  refine { hs.toInv.keep (hs.orderly hok) h with unsettled := ?_, rejects := ?_ }
  · cases a with
    | create id employeeId requestedBy legalBasis =>
      rw [(step_create h).2.1]
      exact hs.unsettled
    | read call operation request =>
      obtain rfl | ⟨before, hread, rfl⟩ := step_read h
      · exact hs.unsettled
      · obtain ⟨-, -, hunsettled⟩ := State.read_eq_ok hread
        exact forall_mem_cons.2 ⟨hunsettled, hs.unsettled⟩
    | load call =>
      obtain ⟨c, row, hc, -, rfl⟩ := step_load h
      refine forall_mem_cons.2 ⟨hs.unsettled c hc, fun c' hc' => ?_⟩
      exact hs.unsettled c' (mem_filter.1 hc').1
    | commit call employeeNumber now =>
      obtain ⟨c, found, -, -, -, -, -, -, hcalls, -⟩ := step_commit hs.consistent h
      intro c' hc'
      rw [hcalls] at hc'
      exact hs.unsettled c' (mem_filter.1 hc').1
    | abandon call =>
      cases h
      intro c' hc'
      exact hs.unsettled c' (mem_filter.1 hc').1
  · cases a with
    | create id employeeId requestedBy legalBasis =>
      obtain ⟨hfresh, -, hlog, -, hstatus⟩ := step_create h
      intro w hw hop
      have hrej := hs.rejects w (hlog ▸ hw) hop
      rw [hstatus, if_neg, hrej]
      rintro hid
      rw [hid, hfresh] at hrej
      cases hrej
    | read call operation request =>
      obtain rfl | ⟨before, -, rfl⟩ := step_read h
      · exact hs.rejects
      · exact hs.rejects
    | load call =>
      obtain ⟨c, row, -, -, rfl⟩ := step_load h
      exact hs.rejects
    | commit call employeeNumber now =>
      obtain ⟨c, found, hc, -, -, -, -, hstatus, -, hlog⟩ := step_commit hs.consistent h
      rw [hlog]
      refine forall_mem_cons.2 ⟨fun hop => ?_, fun w hw hop => ?_⟩
      · have hop' : c.operation = .reject := hop
        rw [hstatus, if_pos rfl]
        simp only [Call.leaves, hop']
      · -- A write over a rejected request would have read it as rejected.
        have hrej := hs.rejects w hw hop
        rw [hstatus, if_neg, hrej]
        intro hid
        have hread := hok c hc
        rw [← hid, hrej] at hread
        exact (hs.unsettled c (mem_of_lookup hc).1).1 (Option.some.inj hread).symm
    | abandon call =>
      cases h
      exact hs.rejects

/-- The runs whose writes find what their calls have read are orderly. -/
theorem orderly_of_fresh {employees : List EmployeeRow} {history : List EmployeeHistory}
    {as : List Action} (hm : Meets step Fresh (.init employees history) as)
    (h : exec step (.init employees history) as = some t) :
    Meets step Orderly (.init employees history) as :=
  meets_of_invariant (I := State.FreshInv) (fun _ _ hs hok => hs.orderly hok)
    (fun _ _ _ hs hok h => hs.keep hok h) ⟨State.inv_init employees history, forall_mem_nil _,
      forall_mem_nil _⟩ hm h

/-- Erasure follows approval along these runs. -/
theorem followsApproval_of_fresh {employees : List EmployeeRow} {history : List EmployeeHistory}
    {as : List Action} (hm : Meets step Fresh (.init employees history) as) :
    Always step (fun s => FollowsApproval s.log) (.init employees history) as :=
  always_of_invariant (I := State.FreshInv) (fun _ hs => hs.follows)
    (fun _ _ _ hs hok h => hs.keep hok h) ⟨State.inv_init employees history, forall_mem_nil _,
      forall_mem_nil _⟩ hm

/-! ## Two runs -/

/-- A request that is created, approved and completed, while a rejection of it fails midway. -/
def approvedErasure : List Action :=
  [.create 1 7 3 "objection", .read 1 .approve 1, .commit 1 "" 0, .read 2 .complete 1,
    .read 3 .reject 1, .load 2, .commit 2 "ERASED-0" 5, .abandon 3]

/-- The employee of the fixed runs. -/
def numbered : EmployeeRow :=
  { id := 7
    columns := ⟨1, "E-7", .fullTime, 4000, none, none, .active⟩
    hireDate := 0
    terminationDate := none
    createdAt := 0
    userId := some 9 }

theorem approvedErasure_follows :
    Always step (fun s => FollowsApproval s.log) (.init [numbered] []) approvedErasure := by
  obtain ⟨t, ht, -⟩ : ∃ t, exec step (.init [numbered] []) approvedErasure = some t ∧
      t.status 1 = some .completed := exists_exec (by decide)
  exact (followsApproval_iff ht).2 (by decide)

instance (s : State) (a : Action) : Decidable (Fresh s a) := by
  cases a <;> unfold Fresh <;> infer_instance

theorem approvedErasure_fresh :
    Always step (fun s => FollowsApproval s.log) (.init [numbered] []) approvedErasure :=
  followsApproval_of_fresh (by decide)

/-- A rejection commits between the check and the write of a completion: the employee of a rejected
request is anonymized. -/
theorem rejectedErasure_completes : ∃ t,
    exec step (.init [numbered] [])
      [.create 1 7 3 "objection", .read 1 .approve 1, .commit 1 "" 0, .read 2 .complete 1,
        .read 3 .reject 1, .load 2, .commit 3 "" 4, .commit 2 "ERASED-0" 5] = some t ∧
      t.status 1 = some .completed ∧ (∀ e ∈ t.employees, e.userId = none) ∧
      ¬ FollowsApproval t.log := by
  have hlast : ∃ t, exec step (.init [numbered] [])
      [.create 1 7 3 "objection", .read 1 .approve 1, .commit 1 "" 0, .read 2 .complete 1,
        .read 3 .reject 1, .load 2, .commit 3 "" 4, .commit 2 "ERASED-0" 5] = some t ∧
      t.status 1 = some .completed ∧ (∀ e ∈ t.employees, e.userId = none) ∧
      ∃ w ∈ t.log, w.operation = .complete ∧ w.found = .rejected := exists_exec (by decide)
  obtain ⟨t, ht, hstatus, hlogin, w, hw, hop, hfound⟩ := hlast
  refine ⟨t, ht, hstatus, hlogin, fun hfollows => ?_⟩
  have happroved := hfollows.anonymized w hw hop
  rw [hfound] at happroved
  cases happroved

end Workforce.Erasure
