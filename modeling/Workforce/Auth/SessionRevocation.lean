import Workforce.Auth.RefreshTokens
import Workforce.Foundations.ReadCommitted

/-!
# Revocation against concurrent rotations

`refresh-tokens.repository.ts` again, statement by statement: the transactions run under READ
COMMITTED, so a rotation is an `INSERT` of the next generation, the `UPDATE` that swaps the
presented row, and a commit, and a revocation is one `UPDATE` and a commit. Between its transactions
a call is where it is in `RefreshTokens`, and lookups are those of that module. A call may fail at
any statement, which rolls its transaction back.

The `UPDATE` of a revocation does not see a next generation that has not been committed when it
starts. It waits for the rotation on the presented row, revokes that row, and leaves the next
generation active.

* `Move`: what a step does.
* `Base`: what the rows and the calls hold, in every reachable state.
* `Covered`: an active row of a revoked session is still going to be revoked, or belongs to a
  rotation that has lost the swap.
* `logout_final`: a revocation is final when no rotation of its tokens commits a swap meanwhile.
-/

namespace Workforce.Auth.Revocation

open List

open ReadCommitted (Db)

variable {Raw Hash : Type*} [DecidableEq Hash]

/-! ## Statements -/

/-- Whose tokens a revocation revokes. -/
inductive Scope
  | user (tenantId userId : ℕ)
  | family (tenantId familyId : ℕ)

/-- The condition of `revokeAllForUser` and of `revokeFamily`. -/
def Scope.selects : Scope → RefreshToken Hash → Bool
  | .user tenantId userId => RefreshToken.ofUser tenantId userId
  | .family tenantId familyId => RefreshToken.inFamily tenantId familyId

/-- The condition with `status != 'revoked'`. -/
def Scope.updates (scope : Scope) (r : RefreshToken Hash) : Bool :=
  scope.selects r && r.status ≠ .revoked

/-- Where a call is. -/
inductive Call (Raw Hash : Type*)
  /-- Between its transactions. -/
  | between (c : Auth.Call Raw Hash)
  /-- `issue` has inserted the row. -/
  | issuing (rawToken : Raw) (row : RefreshToken Hash)
  /-- `rotate` has inserted the next generation. -/
  | inserted (presented : Raw) (current : RefreshToken Hash) (newRawToken : Raw)
      (next : RefreshToken Hash)
  /-- The compare-and-swap has rows still to visit, and has updated one or not. -/
  | swapping (presented : Raw) (current : RefreshToken Hash) (newRawToken : Raw)
      (next : RefreshToken Hash) (targets : List ℕ) (affected : Bool)
  /-- A revocation has rows still to visit. With a rotation, it ends that by an error. -/
  | updating (scope : Scope) (reason : String) (targets : List ℕ)
      (rotation : Option (Raw × RefreshToken Hash))
  | failed

/-- The rows with their uncommitted versions, Redis, and where every call is. -/
structure State (Raw Hash : Type*) where
  db : Db (RefreshToken Hash) ℕ
  redis : List (RefreshToken Hash)
  known : List Raw
  calls : ℕ → Call Raw Hash

namespace State

variable (s : State Raw Hash)

/-- Nothing has been issued. -/
def init : State Raw Hash := ⟨⟨[], []⟩, [], [], fun _ => .between .idle⟩

/-- What a call sees between its transactions. -/
def reads : Auth.State Raw Hash := ⟨s.db.committed, s.redis, s.known, fun _ => .idle⟩

def setCall (call : ℕ) (c : Call Raw Hash) : State Raw Hash :=
  { s with calls := Function.update s.calls call c }

omit [DecidableEq Hash] in
@[simp] theorem setCall_self (call : ℕ) (c : Call Raw Hash) : (s.setCall call c).calls call = c :=
  Function.update_self ..

omit [DecidableEq Hash] in
theorem setCall_of_ne {call call' : ℕ} (h : call' ≠ call) (c : Call Raw Hash) :
    (s.setCall call c).calls call' = s.calls call' :=
  Function.update_of_ne h ..

/-- The rows of the transactions that have not committed. -/
def pendingRows : List (RefreshToken Hash) := s.db.pending.map (·.2)

/-- An `INSERT`: it fails on a conflict with a committed row, and waits on one with a row that is
not committed. -/
def insert (call : ℕ) (row : RefreshToken Hash) (c : Call Raw Hash) : Option (State Raw Hash) :=
  match insertToken s.db.committed row, insertToken s.pendingRows row with
  | none, _ => some (s.setCall call .failed)
  | some _, none => none
  | some _, some _ => some ({ s with db := s.db.write (·.id) call row }.setCall call c)

/-- The `UPDATE` of a revocation starts. -/
def startUpdate (call : ℕ) (scope : Scope) (reason : String)
    (rotation : Option (Raw × RefreshToken Hash)) : State Raw Hash :=
  s.setCall call (.updating scope reason
    (s.db.targets (·.id) call scope.updates) rotation)

end State

/-- The call has ended, or not begun. -/
def Call.Rests : Call Raw Hash → Bool
  | .between .idle | .between (.returned _ _ _) | .between (.threw _ _) | .between .ended
  | .failed => true
  | _ => false

/-- A statement of a call, a commit, or Redis losing an entry. -/
inductive Action (Raw Hash : Type*)
  | issue (call contextTenantId tenantId : ℕ) (grant : Grant) (rawToken : Raw) (familyId id : ℕ)
      (now : ℤ)
  /-- The new record is cached and the token returned, by `issue` or `rotate`. -/
  | finish (call : ℕ)
  | lookupRotate (call tenantId : ℕ) (presented : Raw) (hit : Option (RefreshToken Hash)) (now : ℤ)
  | insertNext (call : ℕ) (newRawToken : Raw) (id : ℕ) (now : ℤ)
  | startSwap (call : ℕ)
  | lookupRevoke (call tenantId : ℕ) (rawToken : Raw) (hit : Option (RefreshToken Hash))
      (reason : String)
  | startRevokeFamily (call : ℕ)
  | startRevokeAllForUser (call tenantId userId : ℕ) (reason : String)
  /-- An `UPDATE` visits a row. -/
  | visit (call id : ℕ)
  | commit (call : ℕ)
  | fail (call : ℕ)

variable (hash : Raw → Hash)

/-- One statement. Family ids are random, so that an issued token begins a new family. -/
def step (s : State Raw Hash) : Action Raw Hash → Option (State Raw Hash)
  | .issue call contextTenantId tenantId grant rawToken familyId id now =>
    match s.calls call with
    | .between .idle =>
      if tenantId ≠ contextTenantId then some (s.setCall call (.between .ended))
      else if familyId ∈ (s.db.committed ++ s.pendingRows).map (·.familyId) then none
      else
        let row := newToken id tenantId familyId 1 grant (hash rawToken) now
        s.insert call row (.issuing rawToken row)
    | _ => none
  | .finish call =>
    match s.calls call with
    | .between (.created rotated rawToken row) =>
      some ({ s with
        redis := row :: s.redis
        known := rawToken :: s.known }.setCall call (.between (.returned rotated rawToken row)))
    | _ => none
  | .lookupRotate call tenantId presented hit now =>
    match s.calls call with
    | .between .idle =>
      if s.reads.Presentable hash presented ∧ s.reads.MayHit (hash presented) hit then
        some (s.setCall call (.between
          (checkPresented tenantId presented now (s.reads.lookup tenantId (hash presented) hit))))
      else none
    | _ => none
  | .insertNext call newRawToken id now =>
    match s.calls call with
    | .between (.rotating presented current) =>
      let next := nextToken current id (hash newRawToken) now
      s.insert call next (.inserted presented current newRawToken next)
    | _ => none
  | .startSwap call =>
    match s.calls call with
    | .inserted presented current newRawToken next =>
      some (s.setCall call (.swapping presented current newRawToken next
        (s.db.targets (·.id) call (RefreshToken.swaps current.id current.tenantId)) false))
    | _ => none
  | .lookupRevoke call tenantId rawToken hit reason =>
    match s.calls call with
    | .between .idle =>
      if s.reads.Presentable hash rawToken ∧ s.reads.MayHit (hash rawToken) hit then
        match s.reads.lookup tenantId (hash rawToken) hit with
        | none => some (s.setCall call (.between .ended))
        | some current => some (s.setCall call (.between (.revoking tenantId current reason)))
      else none
    | _ => none
  | .startRevokeFamily call =>
    match s.calls call with
    | .between (.reuse presented current reason) =>
      some (s.startUpdate call (.family current.tenantId current.familyId) reason
        (some (presented, current)))
    | .between (.revoking tenantId current reason) =>
      some (s.startUpdate call (.family tenantId current.familyId) reason none)
    | _ => none
  | .startRevokeAllForUser call tenantId userId reason =>
    match s.calls call with
    | .between .idle => some (s.startUpdate call (.user tenantId userId) reason none)
    | _ => none
  | .visit call id =>
    match s.calls call with
    | .swapping presented current newRawToken next targets affected =>
      if id ∈ targets then
        (s.db.visit (·.id) call id (RefreshToken.swaps current.id current.tenantId)
          (RefreshToken.swap current.id current.tenantId next.id)).map fun (db, updated) =>
            { s with db := db }.setCall call (.swapping presented current newRawToken next
              (targets.erase id) (affected || updated))
      else none
    | .updating scope reason targets rotation =>
      if id ∈ targets then
        (s.db.visit (·.id) call id scope.updates
          (RefreshToken.revoke reason scope.selects)).map fun (db, _) =>
            { s with db := db }.setCall call
              (.updating scope reason (targets.erase id) rotation)
      else none
    | _ => none
  | .commit call =>
    let committed : State Raw Hash := { s with db := s.db.commit (·.id) call }
    match s.calls call with
    | .issuing rawToken row =>
      some (committed.setCall call (.between (.created none rawToken row)))
    | .swapping presented _ newRawToken next [] true =>
      some (committed.setCall call (.between (.created (some presented) newRawToken next)))
    | .swapping presented current _ _ [] false =>
      some (committed.setCall call
        (.between (.reuse presented current "concurrent_rotation_conflict")))
    | .updating _ _ [] (some (presented, current)) =>
      some (committed.setCall call (.between (.threw presented current)))
    | .updating _ _ [] none => some (committed.setCall call (.between .ended))
    | _ => none
  | .fail call =>
    if (s.calls call).Rests then none
    else some ({ s with db := s.db.rollback call }.setCall call .failed)

/-! ## What a step does -/

/-- A version of a row, committed or not. -/
def State.Version (s : State Raw Hash) (v : RefreshToken Hash) : Prop :=
  v ∈ s.db.committed ∨ ∃ call, (call, v) ∈ s.db.pending

/-- A row that can be inserted, and is active. -/
structure NewRow (s : State Raw Hash) (row : RefreshToken Hash) : Prop where
  id : ∀ v, s.Version v → v.id ≠ row.id
  tokenHash : ∀ v, s.Version v → v.tokenHash ≠ row.tokenHash
  active : row.status = .active

/-- The next generation of a token. -/
structure Next (hash : Raw → Hash) (current : RefreshToken Hash) (newRawToken : Raw)
    (next : RefreshToken Hash) : Prop where
  tenantId : next.tenantId = current.tenantId
  familyId : next.familyId = current.familyId
  grant : next.grant = current.grant
  tokenHash : next.tokenHash = hash newRawToken

/-- Where the `UPDATE` of a revocation starts. -/
inductive Source : Auth.Call Raw Hash → Scope → String → Option (Raw × RefreshToken Hash) → Prop
  | reuse (presented : Raw) (current : RefreshToken Hash) (reason : String) :
      Source (.reuse presented current reason) (.family current.tenantId current.familyId) reason
        (some (presented, current))
  | revocation {c : Auth.Call Raw Hash} (hc : c.Open) (scope : Scope) (reason : String) :
      Source c scope reason none

/-- Where a transaction that commits leads. -/
inductive Commits : Call Raw Hash → Auth.Call Raw Hash → Prop
  | issue (rawToken : Raw) (row : RefreshToken Hash) :
      Commits (.issuing rawToken row) (.created none rawToken row)
  | win (presented : Raw) (current : RefreshToken Hash) (newRawToken : Raw)
      (next : RefreshToken Hash) :
      Commits (.swapping presented current newRawToken next [] true)
        (.created (some presented) newRawToken next)
  | lose (presented : Raw) (current : RefreshToken Hash) (newRawToken : Raw)
      (next : RefreshToken Hash) :
      Commits (.swapping presented current newRawToken next [] false)
        (.reuse presented current "concurrent_rotation_conflict")
  | threw (scope : Scope) (reason : String) (presented : Raw) (current : RefreshToken Hash) :
      Commits (.updating scope reason [] (some (presented, current))) (.threw presented current)
  | ended (scope : Scope) (reason : String) : Commits (.updating scope reason [] none) .ended

/-- Whether a step ends the transaction of its call. -/
inductive Kind
  | commit (call : ℕ)
  | fail (call : ℕ)
  | statement

def Action.kind : Action Raw Hash → Kind
  | .commit call => .commit call
  | .fail call => .fail call
  | _ => .statement

/-- What a step does. -/
inductive Move (s : State Raw Hash) : Kind → State Raw Hash → Prop
  | begin {call : ℕ} {c₀ c : Auth.Call Raw Hash} (hcall : s.calls call = .between c₀)
      (hopen : c₀.Open) (hc : Begins hash s.reads c) :
      Move s .statement (s.setCall call (.between c))
  | conflict {call : ℕ} {c₀ : Auth.Call Raw Hash} (hcall : s.calls call = .between c₀)
      (hopen : c₀.Open) : Move s .statement (s.setCall call .failed)
  | issue {call : ℕ} {rawToken : Raw} {row : RefreshToken Hash}
      (hcall : s.calls call = .between .idle) (hnew : NewRow s row)
      (hhash : row.tokenHash = hash rawToken)
      (hfamily : ∀ v, s.Version v → v.familyId ≠ row.familyId) :
      Move s .statement ({ s with db := s.db.write (·.id) call row }.setCall call
        (.issuing rawToken row))
  | insert {call : ℕ} {presented newRawToken : Raw} {current next : RefreshToken Hash}
      (hcall : s.calls call = .between (.rotating presented current)) (hnew : NewRow s next)
      (hnext : Next hash current newRawToken next) :
      Move s .statement ({ s with db := s.db.write (·.id) call next }.setCall call
        (.inserted presented current newRawToken next))
  | startSwap {call : ℕ} {presented newRawToken : Raw} {current next : RefreshToken Hash}
      {targets : List ℕ}
      (hcall : s.calls call = .inserted presented current newRawToken next) :
      Move s .statement (s.setCall call
        (.swapping presented current newRawToken next targets false))
  | swap {call : ℕ} {presented newRawToken : Raw} {current next r : RefreshToken Hash}
      {targets targets' : List ℕ} {affected : Bool}
      (hcall : s.calls call = .swapping presented current newRawToken next targets affected)
      (hfree : ¬ s.db.Locked (·.id) call r.id) (hr : r ∈ s.db.visible (·.id) call)
      (hswaps : r.swaps current.id current.tenantId) :
      Move s .statement ({ s with
        db := s.db.write (·.id) call (r.swap current.id current.tenantId next.id) }.setCall call
          (.swapping presented current newRawToken next targets' true))
  | skipSwap {call : ℕ} {presented newRawToken : Raw} {current next : RefreshToken Hash}
      {targets targets' : List ℕ} {affected : Bool}
      (hcall : s.calls call = .swapping presented current newRawToken next targets affected) :
      Move s .statement (s.setCall call
        (.swapping presented current newRawToken next targets' affected))
  | startUpdate {call : ℕ} {c : Auth.Call Raw Hash} {scope : Scope} {reason : String}
      {rotation : Option (Raw × RefreshToken Hash)} (hcall : s.calls call = .between c)
      (hsource : Source c scope reason rotation) :
      Move s .statement (s.startUpdate call scope reason rotation)
  | update {call : ℕ} {scope : Scope} {reason : String} {targets : List ℕ}
      {rotation : Option (Raw × RefreshToken Hash)} {r : RefreshToken Hash}
      (hcall : s.calls call = .updating scope reason targets rotation)
      (hfree : ¬ s.db.Locked (·.id) call r.id) (hr : r ∈ s.db.visible (·.id) call)
      (hupdates : scope.updates r) :
      Move s .statement ({ s with
        db := s.db.write (·.id) call (r.revoke reason scope.selects) }.setCall call
          (.updating scope reason (targets.erase r.id) rotation))
  | skipUpdate {call id : ℕ} {scope : Scope} {reason : String} {targets : List ℕ}
      {rotation : Option (Raw × RefreshToken Hash)}
      (hcall : s.calls call = .updating scope reason targets rotation)
      (hno : ∀ r ∈ s.db.visible (·.id) call, r.id = id → ¬ scope.updates r) :
      Move s .statement (s.setCall call (.updating scope reason (targets.erase id) rotation))
  | commit {call : ℕ} {c : Auth.Call Raw Hash} (hcommits : Commits (s.calls call) c) :
      Move s (.commit call) ({ s with db := s.db.commit (·.id) call }.setCall call (.between c))
  | finish {call : ℕ} {rotated : Option Raw} {rawToken : Raw} {row : RefreshToken Hash}
      (hcall : s.calls call = .between (.created rotated rawToken row)) :
      Move s .statement ({ s with
        redis := row :: s.redis
        known := rawToken :: s.known }.setCall call (.between (.returned rotated rawToken row)))
  | fail {call : ℕ} (hcall : (s.calls call).Rests = false) :
      Move s (.fail call) ({ s with db := s.db.rollback call }.setCall call .failed)

variable {hash} {s t : State Raw Hash}

omit [DecidableEq Hash] in
theorem State.mem_pendingRows {v : RefreshToken Hash} :
    v ∈ s.pendingRows ↔ ∃ call, (call, v) ∈ s.db.pending := by
  simp only [State.pendingRows, mem_map]
  constructor
  · rintro ⟨⟨call, v'⟩, hp, rfl⟩
    exact ⟨call, hp⟩
  · rintro ⟨call, hp⟩
    exact ⟨(call, v), hp, rfl⟩

variable {c : Call Raw Hash}

theorem insert_eq_some {call : ℕ} {row : RefreshToken Hash} (hactive : row.status = .active)
    (h : s.insert call row c = some t) :
    t = s.setCall call .failed ∨
      NewRow s row ∧ t = { s with db := s.db.write (·.id) call row }.setCall call c := by
  unfold State.insert at h
  split at h
  · exact .inl (Option.some.inj h).symm
  · cases h
  · rename_i hcommitted hpending
    obtain ⟨-, hid, hhash⟩ := insertToken_eq_some hcommitted
    obtain ⟨-, hid', hhash'⟩ := insertToken_eq_some hpending
    refine .inr ⟨⟨fun v hv heq => ?_, fun v hv heq => ?_, hactive⟩, (Option.some.inj h).symm⟩
    · rcases hv with hv | hv
      · exact hid (heq ▸ mem_map_of_mem hv)
      · exact hid' (heq ▸ mem_map_of_mem (State.mem_pendingRows.2 hv))
    · rcases hv with hv | hv
      · exact hhash (heq ▸ mem_map_of_mem hv)
      · exact hhash' (heq ▸ mem_map_of_mem (State.mem_pendingRows.2 hv))

theorem move_visit {call id : ℕ} (hdb : s.db.Ok (·.id))
    (h : step hash s (.visit call id) = some t) : Move hash s .statement t := by
  simp only [step] at h
  split at h
  · rename_i presented current newRawToken next targets affected hcall
    split at h
    · obtain ⟨⟨db, updated⟩, hvisit, rfl⟩ := Option.map_eq_some_iff.1 h
      obtain ⟨hfree, ⟨r, hr, rfl, hswaps, rfl, rfl⟩ | ⟨rfl, rfl, -⟩⟩ := Db.visit_eq_some hdb hvisit
      · rw [Bool.or_true]
        exact .swap hcall hfree hr hswaps
      · rw [Bool.or_false]
        exact .skipSwap hcall
    · cases h
  · rename_i scope reason targets rotation hcall
    split at h
    · obtain ⟨⟨db, updated⟩, hvisit, rfl⟩ := Option.map_eq_some_iff.1 h
      obtain ⟨hfree, ⟨r, hr, rfl, hupdates, rfl, rfl⟩ | ⟨rfl, rfl, hno⟩⟩ :=
        Db.visit_eq_some hdb hvisit
      · exact .update hcall hfree hr hupdates
      · exact .skipUpdate hcall hno
    · cases h
  · cases h

variable {a : Action Raw Hash}

theorem step_move (hdb : s.db.Ok (·.id)) (hredis : ∀ c ∈ s.redis, c.In s.db.committed)
    (h : step hash s a = some t) :
    Move hash s a.kind t := by
  cases a with
  | issue call contextTenantId tenantId grant rawToken familyId id now =>
    simp only [step] at h
    split at h
    · rename_i hcall
      split at h
      · cases h
        exact .begin hcall .idle .ended
      · split at h
        · cases h
        · rename_i hfamily
          obtain rfl | ⟨hnew, rfl⟩ := insert_eq_some rfl h
          · exact .conflict hcall .idle
          · refine .issue hcall hnew rfl fun v hv heq => hfamily ?_
            refine mem_map.2 ⟨v, mem_append.2 ?_, heq⟩
            exact hv.imp_right State.mem_pendingRows.2
    · cases h
  | finish call =>
    simp only [step] at h
    split at h
    · rename_i hcall
      cases h
      exact .finish hcall
    · cases h
  | lookupRotate call tenantId presented hit now =>
    simp only [step] at h
    split at h
    · rename_i hcall
      split at h
      · rename_i hguard
        cases h
        exact .begin hcall .idle (begins_checkPresented hredis hguard.1 hguard.2)
      · cases h
    · cases h
  | insertNext call newRawToken id now =>
    simp only [step] at h
    split at h
    · rename_i presented current hcall
      obtain rfl | ⟨hnew, rfl⟩ := insert_eq_some rfl h
      · exact .conflict hcall (.rotating presented current)
      · exact .insert hcall hnew ⟨rfl, rfl, rfl, rfl⟩
    · cases h
  | startSwap call =>
    simp only [step] at h
    split at h
    · rename_i hcall
      cases h
      exact .startSwap hcall
    · cases h
  | lookupRevoke call tenantId rawToken hit reason =>
    simp only [step] at h
    split at h
    · rename_i hcall
      split at h
      · split at h
        · cases h
          exact .begin hcall .idle .ended
        · cases h
          exact .begin hcall .idle .revoking
      · cases h
    · cases h
  | startRevokeFamily call =>
    simp only [step] at h
    split at h
    · rename_i hcall
      cases h
      exact .startUpdate hcall (.reuse ..)
    · rename_i hcall
      cases h
      exact .startUpdate hcall (.revocation (.revoking ..) ..)
    · cases h
  | startRevokeAllForUser call tenantId userId reason =>
    simp only [step] at h
    split at h
    · rename_i hcall
      cases h
      exact .startUpdate hcall (.revocation .idle ..)
    · cases h
  | visit call id => exact move_visit hdb h
  | commit call =>
    simp only [step] at h
    split at h
    · rename_i hcall
      cases h
      exact .commit (hcall ▸ .issue ..)
    · rename_i hcall
      cases h
      exact .commit (hcall ▸ .win ..)
    · rename_i hcall
      cases h
      exact .commit (hcall ▸ .lose ..)
    · rename_i hcall
      cases h
      exact .commit (hcall ▸ .threw ..)
    · rename_i hcall
      cases h
      exact .commit (hcall ▸ .ended ..)
    · cases h
  | fail call =>
    simp only [step] at h
    split at h
    · cases h
    · rename_i hcall
      cases h
      exact .fail (Bool.eq_false_iff.2 hcall)

/-! ## What the rows and the calls hold -/

/-- Versions with one id are of one token, one hash has one id, and one family one owner. -/
structure Agree (v v' : RefreshToken Hash) : Prop where
  id : v.id = v'.id → v.SameToken v'
  tokenHash : v.tokenHash = v'.tokenHash → v.id = v'.id
  family : v.familyId = v'.familyId → v.tenantId = v'.tenantId ∧ v.grant = v'.grant

/-- A version that the transaction of the call has not written. -/
def State.Foreign (s : State Raw Hash) (call : ℕ) (v : RefreshToken Hash) : Prop :=
  v ∈ s.db.committed ∨ ∃ call', call' ≠ call ∧ (call', v) ∈ s.db.pending

/-- The record that a rotation has found for the presented token. -/
structure Presented (hash : Raw → Hash) (s : State Raw Hash) (presented : Raw)
    (current : RefreshToken Hash) : Prop where
  committed : current.In s.db.committed
  tokenHash : current.tokenHash = hash presented
  known : hash presented ∈ s.known.map hash

/-- The next generation that a rotation has inserted. -/
structure Inserted (hash : Raw → Hash) (s : State Raw Hash) (call : ℕ)
    (current : RefreshToken Hash) (newRawToken : Raw) (next : RefreshToken Hash) : Prop where
  pending : (call, next) ∈ s.db.pending
  fresh : ∀ v ∈ s.db.committed, v.id ≠ next.id
  next : Next hash current newRawToken next

/-- The presented row has been swapped; what is committed is still active. -/
structure Swapped (s : State Raw Hash) (call : ℕ) (current : RefreshToken Hash) : Prop where
  pending : ∃ v, (call, v) ∈ s.db.pending ∧ v.id = current.id
  active : ∃ r ∈ s.db.committed, r.id = current.id ∧ r.status = .active

/-- What holds of the data of a call. -/
def CallOk (hash : Raw → Hash) (s : State Raw Hash) (call : ℕ) : Call Raw Hash → Prop
  | .between (.created _ rawToken row) => row.In s.db.committed ∧ row.tokenHash = hash rawToken
  | .between (.rotating presented current) => Presented hash s presented current
  | .between (.reuse _ current _) => current.In s.db.committed
  | .issuing rawToken row => (call, row) ∈ s.db.pending ∧ row.tokenHash = hash rawToken ∧
    ∀ v, s.Foreign call v → v.familyId ≠ row.familyId
  | .inserted presented current newRawToken next =>
    Presented hash s presented current ∧ Inserted hash s call current newRawToken next
  | .swapping presented current newRawToken next _ affected =>
    Presented hash s presented current ∧ Inserted hash s call current newRawToken next ∧
      (affected = true → Swapped s call current)
  | .updating _ _ _ rotation => ∀ x ∈ rotation, x.2.In s.db.committed
  | _ => True

/-- What the transaction of a call may have written. -/
def Call.Writes : Call Raw Hash → RefreshToken Hash → Prop
  | .issuing _ row, v => v = row
  | .inserted _ _ _ next, v => v = next
  | .swapping _ current _ next _ affected, v =>
    v = next ∨ affected = true ∧ v.id = current.id ∧ v.status ≠ .active
  | .updating _ _ _ _, v => v.status = .revoked
  | _, _ => False

structure Base (hash : Raw → Hash) (s : State Raw Hash) : Prop where
  db : s.db.Ok (·.id)
  agree : ∀ v v', s.Version v → s.Version v' → Agree v v'
  redis : ∀ c ∈ s.redis, c.In s.db.committed
  known : ∀ rawToken ∈ s.known, ∃ r ∈ s.db.committed, r.tokenHash = hash rawToken
  writes : ∀ call v, (call, v) ∈ s.db.pending → (s.calls call).Writes v
  calls : ∀ call, CallOk hash s call (s.calls call)

omit [DecidableEq Hash] in
theorem base_init : Base hash (State.init : State Raw Hash) where
  db := ⟨fun _ hr => (by cases hr), fun _ hp => (by cases hp)⟩
  agree := fun v _ hv => by
    rcases hv with hv | ⟨_, hv⟩ <;> cases hv
  redis := fun _ hc => by cases hc
  known := fun _ hr => by cases hr
  writes := fun _ _ hv => by cases hv
  calls := fun _ => trivial

omit [DecidableEq Hash] in
theorem Base.callOk (hs : Base hash s) {call : ℕ} (hcall : s.calls call = c) :
    CallOk hash s call c :=
  hcall ▸ hs.calls call

omit [DecidableEq Hash] in
theorem Base.writesOf (hs : Base hash s) {call : ℕ} (hcall : s.calls call = c)
    {v : RefreshToken Hash} (hv : (call, v) ∈ s.db.pending) : c.Writes v :=
  hcall ▸ hs.writes call v hv

/-- What a move of another call leaves to a call: its writes, and the rows that these lock. -/
structure Untouched (hash : Raw → Hash) (s t : State Raw Hash) (j : ℕ) : Prop where
  pending : ∀ v, (j, v) ∈ t.db.pending ↔ (j, v) ∈ s.db.pending
  known : ∀ h, h ∈ s.known.map hash → h ∈ t.known.map hash
  committed : ∀ r : RefreshToken Hash, r.In s.db.committed → r.In t.db.committed
  locked : ∀ v, (j, v) ∈ s.db.pending → ∀ r : RefreshToken Hash, r.id = v.id →
    (r ∈ t.db.committed ↔ r ∈ s.db.committed)
  foreign : ∀ row, (j, row) ∈ s.db.pending → (∀ v, s.Foreign j v → v.familyId ≠ row.familyId) →
    ∀ v, t.Foreign j v → v.familyId ≠ row.familyId

/-- A move of the call. -/
structure Frame (hash : Raw → Hash) (s t : State Raw Hash) (call : ℕ) : Prop where
  calls : ∀ j, j ≠ call → t.calls j = s.calls j
  others : ∀ j, j ≠ call → Untouched hash s t j

section Keep

omit [DecidableEq Hash]

namespace Untouched

variable {j : ℕ} (h : Untouched hash s t j)

include h

theorem presented {presented : Raw} {current : RefreshToken Hash}
    (hp : Presented hash s presented current) : Presented hash t presented current :=
  ⟨h.committed _ hp.committed, hp.tokenHash, h.known _ hp.known⟩

theorem inserted {current next : RefreshToken Hash} {newRawToken : Raw}
    (hi : Inserted hash s j current newRawToken next) :
    Inserted hash t j current newRawToken next := by
  refine ⟨(h.pending next).2 hi.pending, fun v hv heq => ?_, hi.next⟩
  exact hi.fresh v ((h.locked next hi.pending v heq).1 hv) heq

theorem swapped {current : RefreshToken Hash} (hw : Swapped s j current) : Swapped t j current := by
  obtain ⟨v, hv, hid⟩ := hw.pending
  obtain ⟨r, hr, hrid, hactive⟩ := hw.active
  refine ⟨⟨v, (h.pending v).2 hv, hid⟩, r, ?_, hrid, hactive⟩
  exact (h.locked v hv r (hrid.trans hid.symm)).2 hr

theorem callOk {c : Call Raw Hash} (hc : CallOk hash s j c) : CallOk hash t j c := by
  cases c with
  | between c =>
    cases c with
    | created rotated rawToken row => exact ⟨h.committed _ hc.1, hc.2⟩
    | rotating presented current => exact h.presented hc
    | reuse presented current reason => exact h.committed _ hc
    | idle | returned _ _ _ | threw _ _ | revoking _ _ _ | ended => trivial
  | issuing rawToken row => exact ⟨(h.pending row).2 hc.1, hc.2.1, h.foreign row hc.1 hc.2.2⟩
  | inserted presented current newRawToken next => exact ⟨h.presented hc.1, h.inserted hc.2⟩
  | swapping presented current newRawToken next targets affected =>
    exact ⟨h.presented hc.1, h.inserted hc.2.1, fun ha => h.swapped (hc.2.2 ha)⟩
  | updating scope reason targets rotation => exact fun x hx => h.committed _ (hc x hx)
  | failed => trivial

end Untouched

variable {call : ℕ}

theorem Base.of_frame (hs : Base hash s) (hf : Frame hash s t call) (hdb : t.db.Ok (·.id))
    (hagree : ∀ v v', t.Version v → t.Version v' → Agree v v')
    (hredis : ∀ c ∈ t.redis, c.In t.db.committed)
    (hknown : ∀ rawToken ∈ t.known, ∃ r ∈ t.db.committed, r.tokenHash = hash rawToken)
    (hwrites : ∀ v, (call, v) ∈ t.db.pending → (t.calls call).Writes v)
    (hcall : CallOk hash t call (t.calls call)) : Base hash t where
  db := hdb
  agree := hagree
  redis := hredis
  known := hknown
  writes := fun j v hv => by
    by_cases hj : j = call
    · subst hj
      exact hwrites v hv
    · rw [hf.calls j hj]
      exact hs.writes j v (((hf.others j hj).pending v).1 hv)
  calls := fun j => by
    by_cases hj : j = call
    · subst hj
      exact hcall
    · rw [hf.calls j hj]
      exact (hf.others j hj).callOk (hs.calls j)

/-! ### The frames of the moves -/

theorem untouched_of_db (s : State Raw Hash) (hdb : t.db = s.db)
    (hknown : ∀ h, h ∈ s.known.map hash → h ∈ t.known.map hash) (j : ℕ) : Untouched hash s t j where
  pending := fun _ => by rw [hdb]
  known := hknown
  committed := fun _ h => by rwa [hdb]
  locked := fun _ _ _ _ => by rw [hdb]
  foreign := fun _ _ h v hv => h v (by rwa [State.Foreign, hdb] at hv)

theorem untouched_setCall (call : ℕ) (c : Call Raw Hash) (j : ℕ) :
    Untouched hash s (s.setCall call c) j :=
  untouched_of_db (t := s.setCall call c) s rfl (fun _ h => h) j

theorem mem_write_of_ne {call j : ℕ} (hj : j ≠ call) {row v : RefreshToken Hash} :
    (j, v) ∈ (s.db.write (·.id) call row).pending ↔ (j, v) ∈ s.db.pending := by
  rw [Db.mem_pending_write]
  constructor
  · rintro (heq | ⟨hv, -⟩)
    · exact absurd (Prod.mk.inj heq).1 hj
    · exact hv
  · exact fun hv => .inr ⟨hv, fun h => hj h.1⟩

variable {row : RefreshToken Hash} {c : Call Raw Hash}

theorem frame_write (hfamily : ∀ j, j ≠ call → ∀ row', (j, row') ∈ s.db.pending →
      (∀ v, s.Foreign j v → v.familyId ≠ row'.familyId) → row.familyId ≠ row'.familyId) :
    Frame hash s ({ s with db := s.db.write (·.id) call row }.setCall call c) call := by
  refine ⟨fun _ hj => State.setCall_of_ne _ hj c, fun j hj =>
    { pending := fun _ => mem_write_of_ne hj
      known := fun _ h => h
      committed := fun _ h => h
      locked := fun _ _ _ _ => Iff.rfl
      foreign := ?_ }⟩
  · rintro row' hrow' h v (hv | ⟨call', hne, hv⟩)
    · exact h v (.inl hv)
    · rcases Db.mem_pending_write.1 hv with heq | ⟨hold, -⟩
      · cases heq
        exact hfamily j hj row' hrow' h
      · exact h v (.inr ⟨call', hne, hold⟩)

variable {r : RefreshToken Hash}

theorem Base.in_commit (hs : Base hash s) (call : ℕ) (h : r.In s.db.committed) :
    r.In (s.db.commit (·.id) call).committed := by
  obtain ⟨v, hv, hsame⟩ := h
  by_cases hw : ∃ w, (call, w) ∈ s.db.pending ∧ w.id = v.id
  · obtain ⟨w, hw, hid⟩ := hw
    have hagree := hs.agree w v (.inr ⟨call, hw⟩) (.inl hv)
    exact ⟨w, Db.mem_visible.2 (.inl hw), hsame.trans (hagree.id hid).symm⟩
  · exact ⟨v, Db.mem_visible.2 (.inr ⟨hv, fun w hw' hid => hw ⟨w, hw', hid⟩⟩), hsame⟩

theorem frame_commit (hs : Base hash s) :
    Frame hash s ({ s with db := s.db.commit (·.id) call }.setCall call c) call := by
  refine ⟨fun _ hj => State.setCall_of_ne _ hj c, fun j hj =>
    { pending := fun v => Db.mem_pending_commit.trans (and_iff_left hj)
      known := fun _ h => h
      committed := fun _ h => hs.in_commit call h
      locked := fun v hv r hid => hs.db.mem_committed_commit_of_locked hj hv hid.symm
      foreign := ?_ }⟩
  · rintro row' hrow' h v (hv | ⟨call', hne, hv⟩)
    · rcases Db.mem_visible.1 hv with hv | ⟨hv, -⟩
      · exact h v (.inr ⟨call, hj.symm, hv⟩)
      · exact h v (.inl hv)
    · exact h v (.inr ⟨call', hne, (Db.mem_pending_commit.1 hv).1⟩)

theorem frame_rollback :
    Frame hash s ({ s with db := s.db.rollback call }.setCall call c) call := by
  refine ⟨fun _ hj => State.setCall_of_ne _ hj c, fun j hj =>
    { pending := fun v => Db.mem_pending_rollback.trans (and_iff_left hj)
      known := fun _ h => h
      committed := fun _ h => h
      locked := fun _ _ _ _ => Iff.rfl
      foreign := ?_ }⟩
  · rintro row' hrow' h v (hv | ⟨call', hne, hv⟩)
    · exact h v (.inl hv)
    · exact h v (.inr ⟨call', hne, (Db.mem_pending_rollback.1 hv).1⟩)

/-! ### Every move keeps the invariant -/

theorem Agree.symm {v v' : RefreshToken Hash} (h : Agree v v') : Agree v' v :=
  ⟨fun heq => (h.id heq.symm).symm, fun heq => (h.tokenHash heq.symm).symm, fun heq =>
    ⟨(h.family heq.symm).1.symm, (h.family heq.symm).2.symm⟩⟩

theorem Agree.refl (v : RefreshToken Hash) : Agree v v :=
  ⟨fun _ => .refl v, fun _ => rfl, fun _ => ⟨rfl, rfl⟩⟩

/-- A version agrees with all that another version of the token agrees with. -/
theorem Agree.of_same {v r v' : RefreshToken Hash} (hsame : v.SameToken r) (h : Agree r v') :
    Agree v v' where
  id := fun heq => hsame.trans (h.id (hsame.id.symm.trans heq))
  tokenHash := fun heq => hsame.id.trans (h.tokenHash (hsame.tokenHash.symm.trans heq))
  family := fun heq => by
    rw [hsame.tenantId, hsame.grant]
    exact h.family (hsame.familyId.symm.trans heq)

theorem CallOk.setCall {call call' : ℕ} {c c' : Call Raw Hash} (h : CallOk hash s call c) :
    CallOk hash (s.setCall call' c') call c :=
  (untouched_setCall call' c' call).callOk h

theorem Base.no_writes (hs : Base hash s) {c : Auth.Call Raw Hash}
    (hcall : s.calls call = .between c) (v : RefreshToken Hash) : (call, v) ∉ s.db.pending := by
  intro hv
  have hw := hs.writesOf hcall hv
  exact hw

theorem Base.setCall (hs : Base hash s) (hwrites : ∀ v, (call, v) ∈ s.db.pending → c.Writes v)
    (hc : CallOk hash s call c) :
    Base hash (s.setCall call c) := by
  have hframe : Frame hash s (s.setCall call c) call :=
    ⟨fun _ hj => s.setCall_of_ne hj c, fun j _ => untouched_setCall call c j⟩
  refine hs.of_frame hframe hs.db hs.agree hs.redis hs.known (fun v hv => ?_) ?_
  · rw [State.setCall_self]
    exact hwrites v hv
  · rw [State.setCall_self]
    exact hc.setCall

theorem Base.write (hs : Base hash s) (hfree : ¬ s.db.Locked (·.id) call row.id)
    (hagree : ∀ v, s.Version v → Agree row v)
    (hfamily : ∀ j, j ≠ call → ∀ row', (j, row') ∈ s.db.pending →
      (∀ v, s.Foreign j v → v.familyId ≠ row'.familyId) → row.familyId ≠ row'.familyId)
    (hwrites : c.Writes row) (hold : ∀ v, (call, v) ∈ s.db.pending → c.Writes v)
    (hc : CallOk hash { s with db := s.db.write (·.id) call row } call c) :
    Base hash ({ s with db := s.db.write (·.id) call row }.setCall call c) := by
  have hversion : ∀ v, State.Version { s with db := s.db.write (·.id) call row } v →
      v = row ∨ s.Version v := by
    rintro v (hv | ⟨j, hv⟩)
    · exact .inr (.inl hv)
    · rcases Db.mem_pending_write.1 hv with heq | ⟨hv, -⟩
      · exact .inl (Prod.mk.inj heq).2
      · exact .inr (.inr ⟨j, hv⟩)
  refine hs.of_frame (frame_write hfamily) (hs.db.write hfree) (fun v v' hv hv' => ?_) hs.redis
    hs.known (fun v hv => ?_) ?_
  · rcases hversion v hv with heq | hv₀
    · rcases hversion v' hv' with heq' | hv₀'
      · rw [heq, heq']
        exact .refl row
      · exact heq ▸ hagree v' hv₀'
    · rcases hversion v' hv' with heq' | hv₀'
      · exact heq' ▸ (hagree v hv₀).symm
      · exact hs.agree v v' hv₀ hv₀'
  · rw [State.setCall_self]
    rcases Db.mem_pending_write.1 hv with heq | ⟨hv, -⟩
    · rwa [(Prod.mk.inj heq).2]
    · exact hold v hv
  · rw [State.setCall_self]
    exact hc.setCall

theorem Base.rewrite (hs : Base hash s) {r row : RefreshToken Hash}
    (hr : r ∈ s.db.visible (·.id) call) (hsame : row.SameToken r)
    (hfree : ¬ s.db.Locked (·.id) call r.id) (hwrites : c.Writes row)
    (hold : ∀ v, (call, v) ∈ s.db.pending → c.Writes v)
    (hc : CallOk hash { s with db := s.db.write (·.id) call row } call c) :
    Base hash ({ s with db := s.db.write (·.id) call row }.setCall call c) := by
  have hversion : s.Version r := by
    rcases Db.mem_visible.1 hr with hr | ⟨hr, -⟩
    · exact .inr ⟨call, hr⟩
    · exact .inl hr
  refine hs.write (hsame.id ▸ hfree) (fun v hv => .of_same hsame (hs.agree r v hversion hv)) ?_
    hwrites hold hc
  intro j hj row' hrow' hforeign
  rw [hsame.familyId]
  refine hforeign r ?_
  rcases Db.mem_visible.1 hr with hr | ⟨hr, -⟩
  · exact .inr ⟨call, hj.symm, hr⟩
  · exact .inl hr

theorem NewRow.free (h : NewRow s row) (call : ℕ) :
    ¬ s.db.Locked (·.id) call row.id := by
  rintro ⟨⟨j, v⟩, hv, -, heq⟩
  exact h.id v (.inr ⟨j, hv⟩) heq

theorem NewRow.agree (h : NewRow s row) (hfamily : ∀ v, s.Version v → row.familyId = v.familyId →
      row.tenantId = v.tenantId ∧ row.grant = v.grant) (v : RefreshToken Hash) (hv : s.Version v) :
    Agree row v :=
  ⟨fun heq => absurd heq.symm (h.id v hv), fun heq => absurd heq.symm (h.tokenHash v hv),
    hfamily v hv⟩

theorem Base.begin (hs : Base hash s) {c₀ c : Auth.Call Raw Hash}
    (hcall : s.calls call = .between c₀) (hc : Begins hash s.reads c) :
    Base hash (s.setCall call (.between c)) := by
  refine hs.setCall (fun v hv => absurd hv (hs.no_writes hcall v)) ?_
  cases hc with
  | ended => trivial
  | rotating hin hhash hknown => exact ⟨hin, hhash, hknown⟩
  | reuse hin hhash hknown => exact hin
  | revoking => trivial

theorem Base.issue (hs : Base hash s) {rawToken : Raw} (hcall : s.calls call = .between .idle)
    (hnew : NewRow s row) (hhash : row.tokenHash = hash rawToken)
    (hfamily : ∀ v, s.Version v → v.familyId ≠ row.familyId) :
    Base hash ({ s with db := s.db.write (·.id) call row }.setCall call
      (.issuing rawToken row)) := by
  refine hs.write (hnew.free call)
    (hnew.agree fun v hv heq => absurd heq.symm (hfamily v hv))
    (fun j _ row' hrow' _ => (hfamily row' (.inr ⟨j, hrow'⟩)).symm) rfl
    (fun v hv => absurd hv (hs.no_writes hcall v)) ⟨?_, hhash, ?_⟩
  · exact Db.mem_pending_write.2 (.inl rfl)
  · rintro v (hv | ⟨j, hj, hv⟩)
    · exact hfamily v (.inl hv)
    · exact hfamily v (.inr ⟨j, (mem_write_of_ne hj).1 hv⟩)

theorem Base.insert (hs : Base hash s) {presented newRawToken : Raw}
    {current next : RefreshToken Hash}
    (hcall : s.calls call = .between (.rotating presented current)) (hnew : NewRow s next)
    (hnext : Next hash current newRawToken next) :
    Base hash ({ s with db := s.db.write (·.id) call next }.setCall call
      (.inserted presented current newRawToken next)) := by
  have hok := hs.callOk hcall
  obtain ⟨r, hr, hsame⟩ := hok.committed
  refine hs.write (hnew.free call) (hnew.agree fun v hv heq => ?_)
    (fun j _ row' hrow' hforeign => ?_) rfl (fun v hv => absurd hv (hs.no_writes hcall v))
    ⟨⟨hok.committed, hok.tokenHash, hok.known⟩, ?_, fun v hv => hnew.id v (.inl hv), hnext⟩
  · rw [hnext.tenantId, hnext.grant, hsame.tenantId, hsame.grant]
    refine (hs.agree r v (.inl hr) hv).family ?_
    rw [← hsame.familyId, ← hnext.familyId, heq]
  · rw [hnext.familyId, hsame.familyId]
    exact hforeign r (.inl hr)
  · exact Db.mem_pending_write.2 (.inl rfl)

theorem Base.committed_of_swaps (hs : Base hash s) {presented newRawToken : Raw}
    {current next r : RefreshToken Hash} {targets : List ℕ} {affected : Bool}
    (hcall : s.calls call = .swapping presented current newRawToken next targets affected)
    (hr : r ∈ s.db.visible (·.id) call) (hid : r.id = current.id) (hactive : r.status = .active) :
    r ∈ s.db.committed := by
  rcases Db.mem_visible.1 hr with hp | ⟨hc, -⟩
  · have hok := hs.callOk hcall
    obtain ⟨⟨⟨v, hv, hsame⟩, -, -⟩, hins, -⟩ := hok
    have hw := hs.writesOf hcall hp
    rcases hw with rfl | ⟨-, -, hno⟩
    · exact absurd (hsame.id.symm.trans hid.symm) (hins.fresh v hv)
    · exact absurd hactive hno
  · exact hc

theorem Base.swap (hs : Base hash s) {presented newRawToken : Raw}
    {current next r : RefreshToken Hash} {targets targets' : List ℕ} {affected : Bool}
    (hcall : s.calls call = .swapping presented current newRawToken next targets affected)
    (hfree : ¬ s.db.Locked (·.id) call r.id) (hr : r ∈ s.db.visible (·.id) call)
    (hswaps : r.swaps current.id current.tenantId) :
    Base hash ({ s with
      db := s.db.write (·.id) call (r.swap current.id current.tenantId next.id) }.setCall call
        (.swapping presented current newRawToken next targets' true)) := by
  have hok := hs.callOk hcall
  obtain ⟨hpres, hins, -⟩ := hok
  obtain ⟨hid, hactive⟩ : r.id = current.id ∧ r.status = .active := by
    simp only [RefreshToken.swaps, Bool.and_eq_true, decide_eq_true_eq] at hswaps
    exact ⟨hswaps.1.1, hswaps.2⟩
  have hcommitted : r ∈ s.db.committed := hs.committed_of_swaps hcall hr hid hactive
  have hsame : (r.swap current.id current.tenantId next.id).SameToken r :=
    (weakens_swap current.id current.tenantId next.id).same r
  have hstatus : (r.swap current.id current.tenantId next.id).status ≠ .active := by
    rw [RefreshToken.swap, if_pos hswaps]
    exact fun hstatus => by cases hstatus
  refine hs.rewrite hr hsame hfree (.inr ⟨rfl, hsame.id.trans hid, hstatus⟩) (fun v hv => ?_)
    ⟨⟨hpres.committed, hpres.tokenHash, hpres.known⟩, ⟨?_, hins.fresh, hins.next⟩, fun _ =>
      ⟨⟨_, Db.mem_pending_write.2 (.inl rfl), hsame.id.trans hid⟩, r, hcommitted, hid, hactive⟩⟩
  · have hw := hs.writesOf hcall hv
    rcases hw with hw | ⟨-, hw⟩
    · exact .inl hw
    · exact .inr ⟨rfl, hw⟩
  · refine Db.mem_pending_write.2 (.inr ⟨hins.pending, fun heq => ?_⟩)
    exact hins.fresh r hcommitted (hsame.id.symm.trans heq.2.symm)

theorem Scope.status_revoke {scope : Scope} (h : scope.updates r) {reason : String} :
    (r.revoke reason scope.selects).status = .revoked := by
  have hselected : (scope.selects r && r.status ≠ .revoked) = true := h
  rw [RefreshToken.revoke, if_pos hselected]

theorem Base.update (hs : Base hash s) {scope : Scope} {reason : String}
    {targets targets' : List ℕ} {rotation : Option (Raw × RefreshToken Hash)}
    (hcall : s.calls call = .updating scope reason targets rotation)
    (hfree : ¬ s.db.Locked (·.id) call r.id) (hr : r ∈ s.db.visible (·.id) call)
    (hupdates : scope.updates r) :
    Base hash ({ s with
      db := s.db.write (·.id) call (r.revoke reason scope.selects) }.setCall call
        (.updating scope reason targets' rotation)) := by
  have hok := hs.callOk hcall
  refine hs.rewrite hr ((weakens_revoke reason scope.selects).same r) hfree
    (Scope.status_revoke hupdates) (fun v hv => ?_) hok
  · have hw := hs.writesOf hcall hv
    exact hw

theorem Base.commit (hs : Base hash s) {c : Auth.Call Raw Hash}
    (hcommits : Commits (s.calls call) c) :
    Base hash ({ s with db := s.db.commit (·.id) call }.setCall call (.between c)) := by
  have hversion : ∀ v, State.Version { s with db := s.db.commit (·.id) call } v → s.Version v := by
    rintro v (hv | ⟨j, hv⟩)
    · rcases Db.mem_visible.1 hv with hv | ⟨hv, -⟩
      · exact .inr ⟨call, hv⟩
      · exact .inl hv
    · exact .inr ⟨j, (Db.mem_pending_commit.1 hv).1⟩
  have hown : ∀ row : RefreshToken Hash, (call, row) ∈ s.db.pending →
      row.In (s.db.commit (·.id) call).committed :=
    fun row hrow => ⟨row, Db.mem_visible.2 (.inl hrow), .refl row⟩
  refine hs.of_frame (frame_commit hs) hs.db.commit
    (fun v v' hv hv' => hs.agree v v' (hversion v hv) (hversion v' hv'))
    (fun c hc => hs.in_commit call (hs.redis c hc)) (fun rawToken hraw => ?_)
    (fun v hv => absurd rfl (Db.mem_pending_commit.1 hv).2) ?_
  · obtain ⟨r, hr, hhash⟩ := hs.known rawToken hraw
    obtain ⟨r', hr', hsame⟩ := hs.in_commit call ⟨r, hr, .refl r⟩
    exact ⟨r', hr', hsame.tokenHash.symm.trans hhash⟩
  · rw [State.setCall_self]
    have hok := hs.calls call
    generalize hc : s.calls call = c₀ at hcommits hok
    cases hcommits with
    | issue rawToken row => exact ⟨hown row hok.1, hok.2.1⟩
    | win presented current newRawToken next =>
      exact ⟨hown next hok.2.1.pending, hok.2.1.next.tokenHash⟩
    | lose presented current newRawToken next => exact hs.in_commit call hok.1.committed
    | threw scope reason presented current => trivial
    | ended scope reason => trivial

theorem Base.finish (hs : Base hash s) {rotated : Option Raw} {rawToken : Raw}
    (hcall : s.calls call = .between (.created rotated rawToken row)) :
    Base hash ({ s with
      redis := row :: s.redis
      known := rawToken :: s.known }.setCall call (.between (.returned rotated rawToken row))) := by
  have hok := hs.callOk hcall
  have hframe : Frame hash s ({ s with
      redis := row :: s.redis
      known := rawToken :: s.known }.setCall call (.between (.returned rotated rawToken row)))
      call := by
    refine ⟨fun _ hj => State.setCall_of_ne _ hj _, fun j _ => untouched_of_db s ?_ ?_ j⟩
    · rfl
    · exact fun _ h => mem_cons_of_mem _ h
  refine hs.of_frame hframe hs.db hs.agree (forall_mem_cons.2 ⟨hok.1, hs.redis⟩)
    (forall_mem_cons.2 ⟨?_, hs.known⟩) (fun v hv => absurd hv (hs.no_writes hcall v)) ?_
  · obtain ⟨r, hr, hsame⟩ := hok.1
    exact ⟨r, hr, hsame.tokenHash.symm.trans hok.2⟩
  · rw [State.setCall_self]
    trivial

theorem Base.fail (hs : Base hash s) :
    Base hash ({ s with db := s.db.rollback call }.setCall call .failed) := by
  have hversion : ∀ v, State.Version { s with db := s.db.rollback call } v → s.Version v := by
    rintro v (hv | ⟨j, hv⟩)
    · exact .inl hv
    · exact .inr ⟨j, (Db.mem_pending_rollback.1 hv).1⟩
  refine hs.of_frame frame_rollback hs.db.rollback
    (fun v v' hv hv' => hs.agree v v' (hversion v hv) (hversion v' hv')) hs.redis hs.known
    (fun v hv => absurd rfl (Db.mem_pending_rollback.1 hv).2) ?_
  rw [State.setCall_self]
  trivial

theorem base_move {k : Kind} (hs : Base hash s) (h : Move hash s k t) : Base hash t := by
  cases h with
  | begin hcall hopen hc => exact hs.begin hcall hc
  | conflict hcall hopen =>
    exact hs.setCall (fun v hv => absurd hv (hs.no_writes hcall v)) trivial
  | issue hcall hnew hhash hfamily => exact hs.issue hcall hnew hhash hfamily
  | insert hcall hnew hnext => exact hs.insert hcall hnew hnext
  | @startSwap call presented newRawToken current next targets hcall =>
    have hok := hs.callOk hcall
    refine hs.setCall (fun v hv => .inl ?_) ⟨hok.1, hok.2, fun h => by cases h⟩
    have hw := hs.writesOf hcall hv
    exact hw
  | swap hcall hfree hr hswaps => exact hs.swap hcall hfree hr hswaps
  | @skipSwap call presented newRawToken current next targets targets' affected hcall =>
    have hok := hs.callOk hcall
    refine hs.setCall (fun v hv => ?_) hok
    have hw := hs.writesOf hcall hv
    exact hw
  | @startUpdate call c scope reason rotation hcall hsource =>
    have hok := hs.callOk hcall
    refine hs.setCall (fun v hv => absurd hv (hs.no_writes hcall v)) fun x hx => ?_
    cases hsource with
    | reuse presented current reason =>
      cases hx
      exact hok
    | revocation hc scope reason => cases hx
  | update hcall hfree hr hupdates => exact hs.update hcall hfree hr hupdates
  | @skipUpdate call id scope reason targets rotation hcall hno =>
    have hok := hs.callOk hcall
    refine hs.setCall (fun v hv => ?_) hok
    have hw := hs.writesOf hcall hv
    exact hw
  | commit hcommits => exact hs.commit hcommits
  | finish hcall => exact hs.finish hcall
  | fail hcall => exact hs.fail

end Keep

/-! ## Revoked sessions -/

/-- The token of a rotation that has lost the swap, and has the family still to revoke. -/
def Call.lost : Call Raw Hash → Option (RefreshToken Hash)
  | .between (.reuse _ current reason) =>
    if reason = "concurrent_rotation_conflict" then some current else none
  | .updating _ reason _ (some (_, current)) =>
    if reason = "concurrent_rotation_conflict" then some current else none
  | _ => none

/-- The token that a rotation has swapped, in a transaction that is not committed. -/
def Call.swapped : Call Raw Hash → Option (RefreshToken Hash)
  | .swapping _ current _ _ _ true => some current
  | _ => none

def Call.Updating : Call Raw Hash → Bool
  | .updating _ _ _ _ => true
  | _ => false

/-- The `UPDATE` of the call is going to visit the row, or has revoked it. -/
def State.Visits (s : State Raw Hash) (call : ℕ) (row : RefreshToken Hash) : Prop :=
  match s.calls call with
  | .updating scope _ targets _ =>
    scope.selects row ∧ (row.id ∈ targets ∨ ∃ v, (call, v) ∈ s.db.pending ∧ v.id = row.id)
  | _ => False

/-- The call is going to revoke the family of the row, or is revoking the row. -/
def State.Owes (s : State Raw Hash) (call : ℕ) (row : RefreshToken Hash) : Prop :=
  match s.calls call with
  | .between (.reuse _ current _) => current.familyId = row.familyId
  | _ => s.Visits call row

/-- Nobody has been given the token with this hash, and no call is about to return it. -/
def State.Hidden (hash : Raw → Hash) (s : State Raw Hash) (tokenHash : Hash) : Prop :=
  tokenHash ∉ s.known.map hash ∧ ∀ call rotated rawToken row,
    s.calls call = .between (.created rotated rawToken row) → row.tokenHash ≠ tokenHash

/-- Why a row of a revoked session may still be active: the revocation has not committed yet, or the
row is that of a rotation that has lost the swap, which (while a revocation is considered) is going
to revoke it. -/
inductive Covered (hash : Raw → Hash) (revocation : Option ℕ) (s : State Raw Hash)
    (row : RefreshToken Hash) : Prop
  | visited {call : ℕ} (hcall : call ∈ revocation) (h : s.Visits call row)
  | hidden (h : s.Hidden hash row.tokenHash)
      (hlost : revocation.isSome → ∃ call current, (s.calls call).lost = some current ∧
        current.familyId = row.familyId ∧ s.Owes call row)

/-- The sessions that a revocation has found, and what has become of them. -/
structure Final (hash : Raw → Hash) (revocation : Option ℕ) (scope : Scope) (C : ℕ → Prop)
    (s : State Raw Hash) : Prop where
  base : Base hash s
  families : ∀ f, C f → ∃ v ∈ s.db.committed, v.familyId = f ∧ scope.selects v
  covered : (∀ call ∈ revocation, s.calls call ≠ .failed) →
    ∀ row ∈ s.db.committed, C row.familyId → row.status = .active →
      Covered hash revocation s row

/-- No rotation of a token of the scope commits a swap while the `UPDATE` of the revocation is in
progress, and none fails between losing the swap and the end of its own revocation. -/
def Undisturbed (revocation : Option ℕ) (scope : Scope) (s : State Raw Hash) : Kind → Prop
  | .commit call => (∃ r ∈ revocation, (s.calls r).Updating) →
    ∀ current ∈ (s.calls call).swapped, ¬ scope.selects current
  | .fail call => revocation.isSome → ∀ current ∈ (s.calls call).lost, ¬ scope.selects current
  | .statement => True

instance (revocation : Option ℕ) (scope : Scope) (s : State Raw Hash) :
    (k : Kind) → Decidable (Undisturbed revocation scope s k) := fun a => by
  cases a <;> unfold Undisturbed <;> infer_instance

section Cover

omit [DecidableEq Hash]

variable {revocation : Option ℕ} {scope : Scope} {C : ℕ → Prop} {row : RefreshToken Hash}

theorem Scope.selects_congr {v v' : RefreshToken Hash} (hfamily : v.familyId = v'.familyId)
    (howner : v.tenantId = v'.tenantId ∧ v.grant = v'.grant) :
    scope.selects v = scope.selects v' := by
  cases scope with
  | user tenantId userId =>
    simp only [Scope.selects, RefreshToken.ofUser, howner.1, howner.2]
  | family tenantId familyId =>
    simp only [Scope.selects, RefreshToken.inFamily, howner.1, hfamily]

variable {current : RefreshToken Hash}

theorem Final.selects (hs : Final hash revocation scope C s) (hin : current.In s.db.committed)
    (hC : C current.familyId) : scope.selects current := by
  obtain ⟨v, hv, hfamily, hselects⟩ := hs.families _ hC
  obtain ⟨r, hr, hsame⟩ := hin
  have hfamily' : r.familyId = v.familyId := hsame.familyId.symm.trans hfamily.symm
  have howner := (hs.base.agree r v (.inl hr) (.inl hv)).family hfamily'
  rw [← hsame.tenantId, ← hsame.grant] at howner
  rw [Scope.selects_congr hfamily.symm howner]
  exact hselects

variable {call : ℕ}

theorem State.owes_of_visits (h : s.Visits call row) : s.Owes call row := by
  unfold State.Owes
  split
  · rename_i hcall
    rw [State.Visits, hcall] at h
    exact h.elim
  · exact h

section SetCall

variable {u : State Raw Hash} {m : ℕ} {c : Call Raw Hash} (hcalls : u.calls = s.calls)

include hcalls

theorem State.Hidden.setCall {tokenHash : Hash} (hknown : u.known = s.known)
    (hc : ∀ rotated rawToken row, c = .between (.created rotated rawToken row) →
      row.tokenHash ≠ tokenHash) (h : s.Hidden hash tokenHash) :
    (u.setCall m c).Hidden hash tokenHash := by
  refine ⟨fun hmem => h.1 (hknown ▸ hmem), fun call rotated rawToken row hcall => ?_⟩
  by_cases hm : call = m
  · subst hm
    rw [State.setCall_self] at hcall
    exact hc rotated rawToken row hcall
  · rw [State.setCall_of_ne _ hm, hcalls] at hcall
    exact h.2 call rotated rawToken row hcall

/-- Where a row is covered, it stays so: a move of a call leaves what the others do. -/
theorem Covered.mono
    (hpending : ∀ j, j ≠ m → ∀ v, (j, v) ∈ s.db.pending → (j, v) ∈ u.db.pending)
    (hhidden : s.Hidden hash row.tokenHash → (u.setCall m c).Hidden hash row.tokenHash)
    (hvisits : s.Visits m row → m ∈ revocation → (u.setCall m c).Visits m row)
    (howes : ∀ current, (s.calls m).lost = some current → current.familyId = row.familyId →
      revocation.isSome → s.Owes m row → c.lost = some current ∧ (u.setCall m c).Owes m row)
    (h : Covered hash revocation s row) : Covered hash revocation (u.setCall m c) row := by
  have hothers : ∀ j, j ≠ m → (u.setCall m c).calls j = s.calls j :=
    fun j hj => by rw [State.setCall_of_ne _ hj, hcalls]
  have hvisits' : ∀ j, j ≠ m → s.Visits j row → (u.setCall m c).Visits j row := by
    intro j hj hv
    unfold State.Visits at hv ⊢
    rw [hothers j hj]
    split at hv
    · refine ⟨hv.1, hv.2.imp_right ?_⟩
      rintro ⟨v, hv, hid⟩
      exact ⟨v, hpending j hj v hv, hid⟩
    · exact hv
  have howes' : ∀ j, j ≠ m → s.Owes j row → (u.setCall m c).Owes j row := by
    intro j hj ho
    unfold State.Owes at ho ⊢
    rw [hothers j hj]
    split at ho
    · exact ho
    · exact hvisits' j hj ho
  cases h with
  | @visited call hcall hv =>
    by_cases hm : call = m
    · subst hm
      exact .visited hcall (hvisits hv hcall)
    · exact .visited hcall (hvisits' call hm hv)
  | hidden h hlost =>
    refine .hidden (hhidden h) fun hr => ?_
    obtain ⟨call, current, hc, hfamily, ho⟩ := hlost hr
    by_cases hm : call = m
    · subst hm
      obtain ⟨hc', ho'⟩ := howes current hc hfamily hr ho
      exact ⟨call, current, by rw [State.setCall_self, hc'], hfamily, ho'⟩
    · exact ⟨call, current, by rw [hothers call hm, hc], hfamily, howes' call hm ho⟩

theorem Covered.keep (hknown : u.known = s.known)
    (hpending : ∀ j, j ≠ m → ∀ v, (j, v) ∈ s.db.pending → (j, v) ∈ u.db.pending)
    (howner : ¬ s.Owes m row)
    (hc : ∀ rotated rawToken row, c ≠ .between (.created rotated rawToken row))
    (h : Covered hash revocation s row) : Covered hash revocation (u.setCall m c) row :=
  h.mono hcalls hpending
    (.setCall hcalls hknown fun rotated rawToken row heq => absurd heq (hc rotated rawToken row))
    (fun hv _ => absurd (State.owes_of_visits hv) howner) (fun _ _ _ _ ho => absurd ho howner)

end SetCall

theorem not_owes {c : Call Raw Hash} (hcall : s.calls call = c) (hupdating : c.Updating = false)
    (hreuse : ∀ presented current reason, c ≠ .between (.reuse presented current reason)) :
    ¬ s.Owes call row := by
  intro ho
  unfold State.Owes at ho
  split at ho
  · rename_i hcall'
    exact hreuse _ _ _ (hcall.symm.trans hcall')
  · unfold State.Visits at ho
    split at ho
    · rename_i hcall'
      rw [← hcall, hcall'] at hupdating
      cases hupdating
    · exact ho

variable {c : Auth.Call Raw Hash} {scope' : Scope} {reason : String} {targets : List ℕ}
  {rotation : Option (Raw × RefreshToken Hash)}

theorem not_owes_of_open (hcall : s.calls call = .between c) (hopen : c.Open) :
    ¬ s.Owes call row := by
  refine not_owes hcall rfl fun presented current reason heq => ?_
  obtain rfl := Call.between.inj heq
  cases hopen

theorem visits_iff (hcall : s.calls call = .updating scope' reason targets rotation) :
    s.Visits call row ↔ scope'.selects row ∧
      (row.id ∈ targets ∨ ∃ v, (call, v) ∈ s.db.pending ∧ v.id = row.id) := by
  rw [State.Visits, hcall]

theorem owes_iff_visits (hcall : s.calls call = .updating scope' reason targets rotation) :
    s.Owes call row ↔ s.Visits call row := by
  rw [State.Owes, hcall]

section Moves

variable (hrow : row ∈ s.db.committed) (hactive : row.status = .active)
  (h : Covered hash revocation s row)

include hrow hactive h

variable {call : ℕ}

/-- The rows that a rotation owes are among those that its revocation finds. -/
theorem Covered.startUpdate (hs : Base hash s) (hcall : s.calls call = .between c)
    (hsource : Source c scope' reason rotation) :
    Covered hash revocation (s.startUpdate call scope' reason rotation) row := by
  cases hsource with
  | reuse presented current reason =>
    refine h.mono rfl (fun _ _ _ h => h) (.setCall rfl rfl fun _ _ _ heq => by cases heq)
      (fun hv => ?_) fun current' hlost _ _ ho => ⟨?_, ?_⟩
    · rw [State.Visits, hcall] at hv
      exact hv.elim
    · rw [hcall] at hlost
      exact hlost
    · rw [State.Owes, hcall] at ho
      have hok := hs.callOk hcall
      obtain ⟨r, hr, hsame⟩ := hok
      have howner := (hs.agree r row (.inl hr) (.inl hrow)).family (hsame.familyId.symm.trans ho)
      have hselects : (Scope.family current.tenantId current.familyId).selects row := by
        simp [Scope.selects, RefreshToken.inFamily, hsame.tenantId, howner.1, ho]
      have hvisible : row ∈ s.db.visible (·.id) call :=
        Db.mem_visible.2 (.inr ⟨hrow, fun v hv => absurd hv (hs.no_writes hcall v)⟩)
      refine (owes_iff_visits (s.setCall_self call _)).2
        ((visits_iff (s.setCall_self call _)).2 ⟨hselects, .inl ?_⟩)
      refine Db.mem_targets hvisible ?_
      rw [Scope.updates, hselects, hactive]
      decide
  | revocation hc scope' reason =>
    exact h.keep rfl rfl (fun _ _ _ h => h) (not_owes_of_open hcall hc) fun _ _ _ heq => by
      cases heq

omit hrow hactive

theorem Covered.visit {u : State Raw Hash} (hcalls : u.calls = s.calls)
    (hknown : u.known = s.known) {targets' : List ℕ}
    (hcall : s.calls call = .updating scope' reason targets rotation)
    (hpending : ∀ j, j ≠ call → ∀ v, (j, v) ∈ s.db.pending → (j, v) ∈ u.db.pending)
    (hkeep : scope'.selects row →
      (row.id ∈ targets ∨ ∃ v, (call, v) ∈ s.db.pending ∧ v.id = row.id) →
        row.id ∈ targets' ∨ ∃ v, (call, v) ∈ u.db.pending ∧ v.id = row.id) :
    Covered hash revocation (u.setCall call (.updating scope' reason targets' rotation)) row := by
  have hvisits : s.Visits call row →
      (u.setCall call (.updating scope' reason targets' rotation)).Visits call row := by
    intro hv
    obtain ⟨hselects, hv⟩ := (visits_iff hcall).1 hv
    exact (visits_iff (u.setCall_self call _)).2 ⟨hselects, hkeep hselects hv⟩
  refine h.mono hcalls hpending (.setCall hcalls hknown fun _ _ _ heq => by cases heq)
    (fun hv _ => hvisits hv) fun current hlost _ _ ho => ⟨?_, ?_⟩
  · rw [hcall] at hlost
    cases rotation <;> exact hlost
  · exact (owes_iff_visits (u.setCall_self call _)).2 (hvisits ((owes_iff_visits hcall).1 ho))

theorem Covered.update {r : RefreshToken Hash}
    (hcall : s.calls call = .updating scope' reason targets rotation) :
    Covered hash revocation ({ s with
      db := s.db.write (·.id) call (r.revoke reason scope'.selects) }.setCall call
        (.updating scope' reason (targets.erase r.id) rotation)) row := by
  have hid : (r.revoke reason scope'.selects).id = r.id :=
    ((weakens_revoke reason scope'.selects).same r).id
  have hwritten : ∃ v, (call, v) ∈
      (s.db.write (·.id) call (r.revoke reason scope'.selects)).pending ∧ v.id = r.id :=
    ⟨_, Db.mem_pending_write.2 (.inl rfl), hid⟩
  refine h.visit (u := { s with db := s.db.write (·.id) call (r.revoke reason scope'.selects) })
    rfl rfl hcall (fun _ hj _ hv => (mem_write_of_ne hj).2 hv) fun _ hv => ?_
  by_cases heq : row.id = r.id
  · exact .inr (heq ▸ hwritten)
  · refine hv.imp (fun hmem => (mem_erase_of_ne heq).2 hmem) ?_
    rintro ⟨v, hv, hvid⟩
    refine ⟨v, Db.mem_pending_write.2 (.inr ⟨hv, fun hsame => heq ?_⟩), hvid⟩
    exact hvid.symm.trans (hsame.2.trans hid)

include hrow hactive

/-- A row that is active and to be revoked is only skipped when it has been written. -/
theorem Covered.skipUpdate {call id : ℕ}
    (hcall : s.calls call = .updating scope' reason targets rotation)
    (hno : ∀ r ∈ s.db.visible (·.id) call, r.id = id → ¬ scope'.updates r) :
    Covered hash revocation
      (s.setCall call (.updating scope' reason (targets.erase id) rotation)) row := by
  refine h.visit rfl rfl hcall (fun _ _ _ hv => hv) fun hselects hv => ?_
  by_cases hwritten : ∃ v, (call, v) ∈ s.db.pending ∧ v.id = row.id
  · exact .inr hwritten
  · refine .inl ((mem_erase_of_ne fun heq => ?_).2 (hv.resolve_right hwritten))
    have hvisible : row ∈ s.db.visible (·.id) call :=
      Db.mem_visible.2 (.inr ⟨hrow, fun v hv hid => hwritten ⟨v, hv, hid⟩⟩)
    refine hno row hvisible heq ?_
    rw [Scope.updates, hselects, hactive]
    decide

omit hrow hactive

theorem Covered.finish (hs : Base hash s) {rotated : Option Raw} {rawToken : Raw}
    {row' : RefreshToken Hash} (hcall : s.calls call = .between (.created rotated rawToken row')) :
    Covered hash revocation ({ s with
      redis := row' :: s.redis
      known := rawToken :: s.known }.setCall call
        (.between (.returned rotated rawToken row'))) row := by
  have howner : ¬ s.Owes call row := not_owes hcall rfl fun _ _ _ heq => by cases heq
  have hok := hs.callOk hcall
  refine h.mono (s := s) (u := { s with
      redis := row' :: s.redis
      known := rawToken :: s.known }) rfl (fun _ _ _ hv => hv) (fun hhidden => ?_)
    (fun hv _ => absurd (State.owes_of_visits hv) howner) fun _ _ _ _ ho => absurd ho howner
  refine ⟨fun hmem => ?_, fun call' rotated' rawToken' row'' hcall' => ?_⟩
  · rcases mem_cons.1 hmem with heq | hmem
    · exact hhidden.2 call rotated rawToken row' hcall (hok.2.trans heq.symm)
    · exact hhidden.1 hmem
  · by_cases hm : call' = call
    · subst hm
      rw [State.setCall_self] at hcall'
      cases hcall'
    · rw [State.setCall_of_ne _ hm] at hcall'
      exact hhidden.2 call' rotated' rawToken' row'' hcall'

end Moves

theorem Call.lost_updating {c : Call Raw Hash} (h : c.lost = some current) :
    (∃ presented reason, c = .between (.reuse presented current reason)) ∨
      ∃ scope' reason targets presented,
        c = .updating scope' reason targets (some (presented, current)) := by
  unfold Call.lost at h
  split at h
  · split at h
    · cases h
      exact .inl ⟨_, _, rfl⟩
    · cases h
  · split at h
    · cases h
      exact .inr ⟨_, _, _, _, rfl⟩
    · cases h
  · cases h

theorem Base.in_of_lost (hs : Base hash s) (h : (s.calls call).lost = some current) :
    current.In s.db.committed := by
  obtain ⟨presented, reason, hcall⟩ | ⟨scope', reason, targets, presented, hcall⟩ :=
    Call.lost_updating h
  · exact hs.callOk hcall
  · exact hs.callOk hcall _ rfl

namespace Final

variable (hs : Final hash revocation scope C s)

include hs

/-- A call fails that is not the revocation, nor a rotation of its tokens that has lost the swap. -/
theorem fail {call : ℕ} (hok : Undisturbed revocation scope s (.fail call))
    (hne : call ∉ revocation) (hC : C row.familyId) (h : Covered hash revocation s row) :
    Covered hash revocation
      ({ s with db := s.db.rollback call }.setCall call .failed) row := by
  refine h.mono (s := s) (u := { s with db := s.db.rollback call }) rfl
    (fun _ hj _ hv => Db.mem_pending_rollback.2 ⟨hv, hj⟩)
    (.setCall rfl rfl fun _ _ _ heq => by cases heq) (fun _ hcall => absurd hcall hne)
    fun current hlost hfamily hr _ => ?_
  exact absurd (hs.selects (hs.base.in_of_lost hlost) (hfamily ▸ hC)) (hok hr current hlost)

/-- No rotation of a token of a revoked session has swapped it, once the revocation is not in
progress or undisturbed. -/
theorem no_swap {call : ℕ} {presented newRawToken : Raw} {current next : RefreshToken Hash}
    {targets : List ℕ}
    (hcall : s.calls call = .swapping presented current newRawToken next targets true)
    (hfailed : ∀ r ∈ revocation, s.calls r ≠ .failed)
    (hok : Undisturbed revocation scope s (.commit call)) : ¬ C current.familyId := by
  intro hC
  have hcallok := hs.base.callOk hcall
  obtain ⟨hpres, -, hswapped⟩ := hcallok
  obtain ⟨r, hr, hid, hactive⟩ := (hswapped rfl).active
  obtain ⟨r', hr', hsame⟩ := hpres.committed
  obtain rfl := hs.base.db.committed r hr r' hr' (hid.trans hsame.id)
  cases hs.covered hfailed r hr (hsame.familyId ▸ hC) hactive with
  | @visited i hi hv =>
    have hupdating : (s.calls i).Updating := by
      unfold State.Visits at hv
      split at hv
      · rename_i hcall'
        rw [hcall']
        rfl
      · exact hv.elim
    refine hok ⟨i, hi, hupdating⟩ current ?_ (hs.selects hpres.committed hC)
    rw [hcall]
    rfl
  | hidden h hlost =>
    refine h.1 ?_
    rw [← hsame.tokenHash, hpres.tokenHash]
    exact hpres.known

end Final

theorem Base.pending_of_created (hs : Base hash s) {rotated : Option Raw} {rawToken : Raw}
    {row : RefreshToken Hash} (hcommits : Commits (s.calls call) (.created rotated rawToken row)) :
    (call, row) ∈ s.db.pending := by
  have hok := hs.calls call
  generalize s.calls call = c at hcommits hok
  cases hcommits with
  | issue => exact hok.1
  | win => exact hok.2.1.pending

theorem pending_of_owes (hcommits : Commits (s.calls call) c) (ho : s.Owes call row) :
    ∃ v, (call, v) ∈ s.db.pending ∧ v.id = row.id := by
  have hupdating : ∀ {scope' : Scope} {reason : String}
      {rotation : Option (Raw × RefreshToken Hash)},
      s.calls call = .updating scope' reason [] rotation →
        ∃ v, (call, v) ∈ s.db.pending ∧ v.id = row.id := by
    intro scope' reason rotation hcall
    obtain ⟨-, hv⟩ := (visits_iff hcall).1 ((owes_iff_visits hcall).1 ho)
    exact hv.resolve_left fun hmem => by cases hmem
  generalize hcall : s.calls call = c₀ at hcommits
  cases hcommits with
  | issue | win | lose =>
    unfold State.Owes State.Visits at ho
    rw [hcall] at ho
    exact ho.elim
  | threw | ended => exact hupdating hcall

theorem Base.hidden_of_fresh (hs : Base hash s) (hversion : s.Version row)
    (hfresh : ∀ v ∈ s.db.committed, v.id ≠ row.id) : s.Hidden hash row.tokenHash := by
  have hno : ∀ v ∈ s.db.committed, v.tokenHash ≠ row.tokenHash :=
    fun v hv heq => hfresh v hv ((hs.agree v row (.inl hv) hversion).tokenHash heq)
  refine ⟨fun hmem => ?_, fun call rotated rawToken row' hcall heq => ?_⟩
  · obtain ⟨rawToken, hraw, hhash⟩ := mem_map.1 hmem
    obtain ⟨r, hr, hr'⟩ := hs.known rawToken hraw
    exact hno r hr (hr'.trans hhash)
  · have hok := hs.callOk hcall
    obtain ⟨⟨r, hr, hsame⟩, -⟩ := hok
    exact hno r hr (hsame.tokenHash.symm.trans heq)

/-- Of the rows of a revoked session that a commit writes, only the next generation of a lost swap
is active. -/
theorem Final.commit_own (hs : Final hash revocation scope C s)
    (hcommits : Commits (s.calls call) c) (hok : Undisturbed revocation scope s (.commit call))
    (hfailed : ∀ r ∈ revocation, s.calls r ≠ .failed) (hown : (call, row) ∈ s.db.pending)
    (hC : C row.familyId) (hactive : row.status = .active) :
    Covered hash revocation
      ({ s with db := s.db.commit (·.id) call }.setCall call (.between c)) row := by
  have hw := hs.base.writes call row hown
  have hcallok := hs.base.calls call
  generalize hcall : s.calls call = c₀ at hcommits hw hcallok
  cases hcommits with
  | issue rawToken row' =>
    obtain ⟨v, hv, hfamily, -⟩ := hs.families _ hC
    obtain rfl : row = row' := hw
    exact absurd hfamily (hcallok.2.2 v (.inl hv))
  | win presented current newRawToken next =>
    rcases hw with rfl | ⟨-, -, hstatus⟩
    · rw [hcallok.2.1.next.familyId] at hC
      exact absurd hC (hs.no_swap hcall hfailed hok)
    · exact absurd hactive hstatus
  | lose presented current newRawToken next =>
    rcases hw with rfl | ⟨hfalse, -⟩
    · have hfamily := hcallok.2.1.next.familyId.symm
      have hhidden := hs.base.hidden_of_fresh (.inr ⟨call, hown⟩) hcallok.2.1.fresh
      refine .hidden (hhidden.setCall rfl rfl fun _ _ _ heq => by cases heq) fun _ => ?_
      refine ⟨call, current, ?_, hfamily, ?_⟩
      · rw [State.setCall_self]
        rfl
      · rw [State.Owes, State.setCall_self]
        exact hfamily
    · cases hfalse
  | threw | ended =>
    have hrevoked : row.status = .revoked := hw
    rw [hactive] at hrevoked
    cases hrevoked

theorem Final.commit_old (hs : Final hash revocation scope C s)
    (hcommits : Commits (s.calls call) c) (hfailed : ∀ r ∈ revocation, s.calls r ≠ .failed)
    (hold : row ∈ s.db.committed) (hno : ∀ v, (call, v) ∈ s.db.pending → v.id ≠ row.id)
    (hC : C row.familyId) (hactive : row.status = .active) :
    Covered hash revocation
      ({ s with db := s.db.commit (·.id) call }.setCall call (.between c)) row := by
  have howner : ¬ s.Owes call row := by
    intro ho
    obtain ⟨v, hv, hid⟩ := pending_of_owes hcommits ho
    exact hno v hv hid
  refine (hs.covered hfailed row hold hC hactive).mono (s := s)
    (u := { s with db := s.db.commit (·.id) call }) rfl
    (fun j hj v hv => Db.mem_pending_commit.2 ⟨hv, hj⟩)
    (.setCall rfl rfl fun rotated rawToken row' heq hhash => ?_)
    (fun hv _ => absurd (State.owes_of_visits hv) howner) fun _ _ _ _ ho => absurd ho howner
  obtain rfl := Call.between.inj heq
  have hown := hs.base.pending_of_created hcommits
  exact hno row' hown ((hs.base.agree row' row (.inr ⟨call, hown⟩) (.inl hold)).tokenHash hhash)

theorem move_in {k : Kind} (hs : Base hash s) (h : Move hash s k t) {r : RefreshToken Hash}
    (hin : r.In s.db.committed) : r.In t.db.committed := by
  cases h with
  | commit hcommits => exact hs.in_commit _ hin
  | begin | conflict | issue | insert | startSwap | swap | skipSwap | startUpdate | update
  | skipUpdate | finish | fail => exact hin

theorem move_failed {k : Kind} (h : Move hash s k t) {i : ℕ} (hi : s.calls i = .failed) :
    t.calls i = .failed := by
  have hother : ∀ {u : State Raw Hash} {m : ℕ} {c : Call Raw Hash}, u.calls = s.calls →
      s.calls m ≠ .failed → (u.setCall m c).calls i = .failed := by
    intro u m c hu hm
    have hne : i ≠ m := fun heq => hm (heq ▸ hi)
    rw [State.setCall_of_ne _ hne, hu, hi]
  cases h with
  | begin hcall | conflict hcall | issue hcall | insert hcall | startSwap hcall | swap hcall
  | skipSwap hcall | startUpdate hcall | update hcall | skipUpdate hcall | finish hcall =>
    exact hother rfl (by simp [hcall])
  | commit hcommits =>
    refine hother rfl fun hm => ?_
    rw [hm] at hcommits
    cases hcommits
  | fail hcall =>
    refine hother rfl fun hm => ?_
    rw [hm] at hcall
    cases hcall

theorem Final.covered_move {k : Kind} (hs : Final hash revocation scope C s) (h : Move hash s k t)
    (hok : Undisturbed revocation scope s k) (hfailed : ∀ r ∈ revocation, t.calls r ≠ .failed)
    (hrow : row ∈ t.db.committed) (hC : C row.familyId) (hactive : row.status = .active) :
    Covered hash revocation t row := by
  have hfailed₀ : ∀ r ∈ revocation, s.calls r ≠ .failed :=
    fun r hr hr' => hfailed r hr (move_failed h hr')
  have hcov : row ∈ s.db.committed → Covered hash revocation s row :=
    fun hrow => hs.covered hfailed₀ row hrow hC hactive
  cases h with
  | begin hcall hopen hc =>
    refine (hcov hrow).keep rfl rfl (fun _ _ _ hv => hv) (not_owes_of_open hcall hopen)
      fun rotated rawToken row heq => ?_
    obtain rfl := Call.between.inj heq
    cases hc
  | conflict hcall hopen =>
    exact (hcov hrow).keep rfl rfl (fun _ _ _ hv => hv) (not_owes_of_open hcall hopen)
      fun _ _ _ heq => by cases heq
  | issue hcall hnew hhash hfamily =>
    exact (hcov hrow).keep (s := s) rfl rfl (fun _ hj _ hv => (mem_write_of_ne hj).2 hv)
      (not_owes_of_open hcall .idle) fun _ _ _ heq => by cases heq
  | insert hcall hnew hnext =>
    exact (hcov hrow).keep (s := s) rfl rfl (fun _ hj _ hv => (mem_write_of_ne hj).2 hv)
      (not_owes_of_open hcall (.rotating ..)) fun _ _ _ heq => by cases heq
  | startSwap hcall =>
    exact (hcov hrow).keep rfl rfl (fun _ _ _ hv => hv)
      (not_owes hcall rfl fun _ _ _ heq => by cases heq) fun _ _ _ heq => by cases heq
  | swap hcall hfree hr hswaps =>
    exact (hcov hrow).keep (s := s) rfl rfl (fun _ hj _ hv => (mem_write_of_ne hj).2 hv)
      (not_owes hcall rfl fun _ _ _ heq => by cases heq) fun _ _ _ heq => by cases heq
  | skipSwap hcall =>
    exact (hcov hrow).keep rfl rfl (fun _ _ _ hv => hv)
      (not_owes hcall rfl fun _ _ _ heq => by cases heq) fun _ _ _ heq => by cases heq
  | startUpdate hcall hsource =>
    exact (hcov hrow).startUpdate (s := s) hrow hactive hs.base hcall hsource
  | update hcall hfree hr hupdates => exact (hcov hrow).update hcall
  | skipUpdate hcall hno => exact (hcov hrow).skipUpdate (s := s) hrow hactive hcall hno
  | commit hcommits =>
    rcases Db.mem_visible.1 hrow with hown | ⟨hold, hno⟩
    · exact hs.commit_own hcommits hok hfailed₀ hown hC hactive
    · exact hs.commit_old hcommits hfailed₀ hold hno hC hactive
  | finish hcall => exact (hcov hrow).finish hs.base hcall
  | @fail call hcall =>
    refine hs.fail hok (fun hr => ?_) hC (hcov hrow)
    exact hfailed call hr (State.setCall_self _ call _)

theorem Final.move {k : Kind} (hs : Final hash revocation scope C s) (h : Move hash s k t)
    (hok : Undisturbed revocation scope s k) : Final hash revocation scope C t := by
  refine ⟨base_move hs.base h, fun f hf => ?_, fun hfailed row hrow hC hactive =>
    hs.covered_move h hok hfailed hrow hC hactive⟩
  obtain ⟨v, hv, rfl, hselects⟩ := hs.families f hf
  obtain ⟨w, hw, hsame⟩ := move_in hs.base h ⟨v, hv, .refl v⟩
  refine ⟨w, hw, hsame.familyId.symm, ?_⟩
  rw [← Scope.selects_congr hsame.familyId ⟨hsame.tenantId, hsame.grant⟩]
  exact hselects

end Cover

/-! ## Runs -/

/-- The call whose revocation an action starts. -/
def Action.revocation : Action Raw Hash → Option ℕ
  | .startRevokeFamily call => some call
  | .startRevokeAllForUser call _ _ _ => some call
  | _ => none

/-- The family in which a call is rotating a token. -/
def Call.rotating : Call Raw Hash → Option ℕ
  | .between (.rotating _ current) | .between (.reuse _ current _) => some current.familyId
  | .between (.created (some _) _ row) => some row.familyId
  | .inserted _ current _ _ | .swapping _ current _ _ _ _ => some current.familyId
  | .updating _ _ _ (some (_, current)) => some current.familyId
  | _ => none

/-- The token that a call has rotated, and its next generation. -/
def Call.rotation : Call Raw Hash → Option (Raw × RefreshToken Hash)
  | .between c => c.rotation
  | _ => none

theorem base_step (hs : Base hash s) (h : step hash s a = some t) :
    Base hash t :=
  base_move hs (step_move hs.db hs.redis h)

theorem step_starts {r : ℕ} (ha : a.revocation = some r) (h : step hash s a = some t) :
    ∃ c scope reason rotation, s.calls r = .between c ∧ Source c scope reason rotation ∧
      t = s.startUpdate r scope reason rotation := by
  cases a with
  | startRevokeFamily call =>
    cases ha
    simp only [step] at h
    split at h
    · rename_i hcall
      exact ⟨_, _, _, _, hcall, .reuse .., (Option.some.inj h).symm⟩
    · rename_i hcall
      exact ⟨_, _, _, _, hcall, .revocation (.revoking ..) .., (Option.some.inj h).symm⟩
    · cases h
  | startRevokeAllForUser call tenantId userId reason =>
    cases ha
    simp only [step] at h
    split at h
    · rename_i hcall
      exact ⟨_, _, _, _, hcall, .revocation .idle .., (Option.some.inj h).symm⟩
    · cases h
  | issue | finish | lookupRotate | insertNext | startSwap | lookupRevoke | visit | commit | fail =>
    cases ha

variable {scope : Scope}

theorem final_start {r : ℕ} {reason : String} {targets : List ℕ}
    {rotation : Option (Raw × RefreshToken Hash)} (hs : Base hash s) (ha : a.revocation = some r)
    (h : step hash s a = some t) (hr : t.calls r = .updating scope reason targets rotation) :
    Final hash (some r) scope (fun f => ∃ q ∈ s.db.committed, scope.selects q ∧ q.familyId = f)
      t := by
  have hbase := base_step hs h
  obtain ⟨c, scope', reason', rotation', hcall, -, rfl⟩ := step_starts ha h
  have hnew : (s.startUpdate r scope' reason' rotation').calls r =
      .updating scope' reason' (s.db.targets (·.id) r scope'.updates) rotation' :=
    s.setCall_self r _
  obtain ⟨rfl, -, -, -⟩ := Call.updating.inj (hnew.symm.trans hr)
  refine ⟨hbase, fun f ⟨q, hq, hselects, hfamily⟩ => ⟨q, hq, hfamily, hselects⟩,
    fun _ row hrow hC hactive => ?_⟩
  obtain ⟨q, hq, hselects, hfamily⟩ := hC
  have howner := (hs.agree q row (.inl hq) (.inl hrow)).family hfamily
  rw [Scope.selects_congr hfamily howner] at hselects
  have hvisible : row ∈ s.db.visible (·.id) r :=
    Db.mem_visible.2 (.inr ⟨hrow, fun v hv => absurd hv (hs.no_writes hcall v)⟩)
  refine .visited rfl ((visits_iff hnew).2 ⟨hselects, .inl (Db.mem_targets hvisible ?_)⟩)
  rw [Scope.updates, hselects, hactive]
  decide

omit [DecidableEq Hash] in
theorem undisturbed_none (k : Kind) : Undisturbed none scope s k := by
  cases k with
  | commit call =>
    rintro ⟨_, hr, -⟩
    cases hr
  | fail call => exact fun hr => by cases hr
  | statement => trivial

variable {C : ℕ → Prop}

omit [DecidableEq Hash] in
/-- Without a revocation in progress, no token of a revoked session is rotated. -/
theorem rotation_move {k : Kind} (hs : Final hash none scope C s) (h : Move hash s k t) {j : ℕ}
    {x : Raw × RefreshToken Hash} (hj : (t.calls j).rotation = some x) (hC : C x.2.familyId) :
    (s.calls j).rotation = some x := by
  have hother : ∀ {u : State Raw Hash} {m : ℕ} {c : Call Raw Hash}, u.calls = s.calls →
      (c.rotation = some x → (s.calls m).rotation = some x) →
      ((u.setCall m c).calls j).rotation = some x → (s.calls j).rotation = some x := by
    intro u m c hu hm hj
    by_cases heq : j = m
    · subst heq
      rw [State.setCall_self] at hj
      exact hm hj
    · rw [State.setCall_of_ne _ heq, hu] at hj
      exact hj
  cases h with
  | begin hcall hopen hc =>
    refine hother rfl (fun hx => ?_) hj
    rw [show (Call.between _).rotation = _ from hc.rotation] at hx
    cases hx
  | conflict | issue | insert | startSwap | swap | skipSwap | startUpdate | update | skipUpdate
  | fail => exact hother rfl (fun hx => by cases hx) hj
  | @commit call c hcommits =>
    refine hother rfl (fun hx => ?_) hj
    have hok := hs.base.calls call
    generalize hcall : s.calls call = c₀ at hcommits hok
    cases hcommits with
    | win presented current newRawToken next =>
      cases hx
      have hC' : C current.familyId := hok.2.1.next.familyId ▸ hC
      exact absurd hC' (hs.no_swap hcall (fun _ hr => by cases hr) (undisturbed_none _))
    | issue | lose | threw | ended => cases hx
  | finish hcall =>
    refine hother rfl (fun hx => ?_) hj
    rw [hcall]
    exact hx

omit [DecidableEq Hash] in
theorem Call.rotating_of_lost {current : RefreshToken Hash} (h : c.lost = some current) :
    c.rotating = some current.familyId := by
  obtain ⟨presented, reason, rfl⟩ | ⟨scope, reason, targets, presented, rfl⟩ :=
    Call.lost_updating h
  · rfl
  · rfl

omit [DecidableEq Hash] in
/-- What is still active when the revocation has returned belongs to a rotation in progress. -/
theorem Final.inactive {r : ℕ} (hs : Final hash (some r) scope C s) {c : Auth.Call Raw Hash}
    (hreturned : s.calls r = .between c) {row : RefreshToken Hash} (hrow : row ∈ s.db.committed)
    (hC : C row.familyId) (hfinished : ∀ i, (s.calls i).rotating ≠ some row.familyId) :
    row.status ≠ .active := by
  intro hactive
  have hfailed : ∀ i ∈ some r, s.calls i ≠ .failed := by
    rintro i hi
    cases hi
    rw [hreturned]
    exact fun heq => by cases heq
  cases hs.covered hfailed row hrow hC hactive with
  | @visited i hi hv =>
    cases hi
    rw [State.Visits, hreturned] at hv
    exact hv
  | hidden h hlost =>
    obtain ⟨i, current, hi, hcurrent, -⟩ := hlost rfl
    exact hfinished i (by rw [Call.rotating_of_lost hi, hcurrent])

/-- A session without an active token is never rotated again, whatever the calls do. -/
theorem Final.never_rotated (hs : Final hash none scope C s) {as : List (Action Raw Hash)}
    (ht : Runs.exec (step hash) s as = some t) {j : ℕ} {x : Raw × RefreshToken Hash}
    (hj : (t.calls j).rotation = some x) (hC : C x.2.familyId) :
    (s.calls j).rotation = some x := by
  have hkeeps := Runs.exec_keeps
    (fun u => Final hash none scope C u ∧ ∀ j x, (u.calls j).rotation = some x →
      C x.2.familyId → (s.calls j).rotation = some x)
    (fun u a v ⟨hu, hrot⟩ h => by
      have hmove := step_move hu.base.db hu.base.redis h
      exact ⟨hu.move hmove (undisturbed_none a.kind), fun j x hj hx =>
        hrot j x (rotation_move hu hmove hj hx) hx⟩)
    ⟨hs, fun _ _ hj _ => hj⟩ ht
  exact hkeeps.2 j x hj hC

/-- **Log out everywhere is final, when it is undisturbed**: in every run in which no rotation of
the revoked tokens commits a swap while the `UPDATE` of the revocation is in progress (and none
fails after losing the swap), once the revocation has returned and the rotations in a session that
existed when it started have finished, no token of the session is active, and none is ever
rotated. -/
theorem logout_final {as bs : List (Action Raw Hash)} {s₀ s₁ : State Raw Hash}
    {a : Action Raw Hash} {r : ℕ} {scope : Scope} {reason : String} {targets : List ℕ}
    {rotation : Option (Raw × RefreshToken Hash)} {c : Auth.Call Raw Hash} {q : RefreshToken Hash}
    (h₀ : Runs.exec (step hash) State.init as = some s₀) (ha : a.revocation = some r)
    (h₁ : step hash s₀ a = some s₁) (hr : s₁.calls r = .updating scope reason targets rotation)
    (ht : Runs.exec (step hash) s₁ bs = some t)
    (hmeets : Runs.Meets (step hash) (fun s a => Undisturbed (some r) scope s a.kind) s₁ bs)
    (hreturned : t.calls r = .between c) (hq : q ∈ s₀.db.committed) (hscope : scope.selects q)
    (hfinished : ∀ i, (t.calls i).rotating ≠ some q.familyId) :
    (∀ row ∈ t.db.committed, row.familyId = q.familyId → row.status ≠ .active) ∧
      ∀ cs u, Runs.exec (step hash) t cs = some u → ∀ j x, (u.calls j).rotation = some x →
        x.2.familyId = q.familyId → (t.calls j).rotation = some x := by
  have hbase : Base hash s₀ := Runs.exec_keeps (Base hash) (fun _ _ _ => base_step) base_init h₀
  have hfinal := Runs.exec_invariant
    (fun s a t (hs : Final hash (some r) scope _ s) hok h =>
      hs.move (step_move hs.base.db hs.base.redis h) hok)
    (final_start hbase ha h₁ hr) hmeets ht
  have hinactive : ∀ row ∈ t.db.committed, row.familyId = q.familyId → row.status ≠ .active :=
    fun row hrow hfamily => hfinal.inactive hreturned hrow ⟨q, hq, hscope, hfamily.symm⟩
      fun i => hfamily ▸ hfinished i
  have hdead : Final hash none scope (· = q.familyId) t :=
    ⟨hfinal.base, fun f hf => hfinal.families f ⟨q, hq, hscope, hf.symm⟩,
      fun _ row hrow hC hactive => absurd hactive (hinactive row hrow hC)⟩
  exact ⟨hinactive, fun cs u hu j x hj hx => hdead.never_rotated hu hj hx⟩

/-- One session of user 5, and a rotation of its token that has inserted the next generation. -/
def session : List (Action ℕ ℕ) :=
  [.issue 0 1 1 ⟨5, 6, ["pwd"], 0, "openid"⟩ 100 40 7 0, .commit 0, .finish 0,
    .lookupRotate 1 1 100 none 10, .insertNext 1 200 8 10]

/-- The revocation commits before the rotation swaps the presented row. -/
def revokedFirst : List (Action ℕ ℕ) :=
  [.visit 2 7, .commit 2, .startSwap 1, .commit 1, .startRevokeFamily 1, .visit 1 8, .commit 1]

/-- The rotation loses the swap and revokes what it has inserted. -/
theorem session_revoked :
    ∃ s₀ s₁ t, Runs.exec (step (· + 1000)) State.init session = some s₀ ∧
      step (· + 1000) s₀ (.startRevokeAllForUser 2 1 5 "admin_revoked") = some s₁ ∧
      Runs.exec (step (· + 1000)) s₁ revokedFirst = some t ∧ t.db.committed.length = 2 ∧
      ∀ row ∈ t.db.committed, row.familyId = 40 → row.status ≠ .active := by
  refine ⟨_, _, _, rfl, rfl, rfl, rfl, ?_⟩
  refine (@logout_final ℕ ℕ _ (· + 1000) _ session revokedFirst _ _
    (.startRevokeAllForUser 2 1 5 "admin_revoked") 2 _ _ _ _ _ _ rfl rfl rfl rfl rfl (by decide) rfl
    (mem_singleton_self _) rfl fun i => ?_).1
  match i with
  | 0 | 1 | 2 => decide
  | n + 3 => exact fun h => by cases h

/-- The rotation swaps the presented row before the revocation starts, and commits after. -/
def swappedFirst : List (Action ℕ ℕ) := [.startSwap 1, .visit 1 7]

def committedLater : List (Action ℕ ℕ) := [.commit 1, .visit 2 7, .commit 2, .finish 1]

/-- The next generation survives the revocation, and is rotated later. -/
theorem session_survives :
    ∃ s₀ s₁ t u, Runs.exec (step (· + 1000)) State.init (session ++ swappedFirst) = some s₀ ∧
      (∃ q ∈ s₀.db.committed, q.familyId = 40 ∧ q.ofUser 1 5) ∧
      step (· + 1000) s₀ (.startRevokeAllForUser 2 1 5 "admin_revoked") = some s₁ ∧
      Runs.exec (step (· + 1000)) s₁ committedLater = some t ∧ t.calls 2 = .between .ended ∧
      (∀ i, (t.calls i).rotating = none) ∧
      (∃ row ∈ t.db.committed, row.familyId = 40 ∧ row.status = .active) ∧
      Runs.exec (step (· + 1000)) t [.lookupRotate 3 1 200 none 20, .insertNext 3 300 9 20,
        .startSwap 3, .visit 3 8, .commit 3] = some u ∧
      (u.calls 3).rotation.map Prod.fst = some 200 := by
  refine ⟨_, _, _, _, rfl, ⟨_, mem_singleton_self _, rfl, rfl⟩, rfl, rfl, rfl, fun i => ?_,
    ⟨_, mem_cons_self, rfl, rfl⟩, rfl, rfl⟩
  match i with
  | 0 | 1 | 2 => rfl
  | n + 3 => rfl

end Workforce.Auth.Revocation
