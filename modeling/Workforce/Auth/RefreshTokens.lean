import Workforce.Foundations.Runs
import Workforce.Foundations.Tables

/-!
# Rotation of refresh tokens

`refresh-token.service.ts` and `refresh-tokens.repository.ts`: a token is rotated by inserting the
next generation and then marking the presented row by a compare-and-swap; a token that is presented
again, or that loses the swap, has its whole family revoked.

Calls are interleaved at their accesses to Redis and at their transactions, which are atomic. Redis
may return any record that was ever put there, or none, whatever has been deleted or has expired, so
deletions are left out. A raw token is known to a caller once a call has returned it; a caller
presents a token it knows or a text that is the token of no row, since tokens are random.

* `Move`: what a step does to the table and to a call.
* `Inv`: in particular, once a family is dead, its active rows have tokens that nobody was given.
* `refresh_token_single_use`: a token is rotated at most once, and a replay kills its family.
-/

namespace Workforce.Auth

open List

/-! ## The rows -/

inductive RefreshTokenStatus
  | active | rotated | revoked
  deriving DecidableEq

/-- What the next generation of a token takes over. -/
structure Grant where
  userId : ℕ
  clientId : ℕ
  amr : List String
  authTime : ℤ
  scope : String
  deriving DecidableEq

structure RefreshToken (Hash : Type*) where
  id : ℕ
  tenantId : ℕ
  familyId : ℕ
  generation : ℕ
  grant : Grant
  tokenHash : Hash
  status : RefreshTokenStatus
  replacedById : Option ℕ
  revokedReason : Option String
  expiresAt : ℤ
  deriving DecidableEq

variable {Raw Hash : Type*} [DecidableEq Hash]

/-- `REFRESH_TOKEN_TTL_DAYS`. -/
def refreshTokenTtlDays : ℤ := 30

/-- `expiryFromNow`. -/
def expiryFromNow (now : ℤ) : ℤ := now + refreshTokenTtlDays * 24 * 60 * 60 * 1000

/-- A row as it is inserted. -/
def newToken (id tenantId familyId generation : ℕ) (grant : Grant) (tokenHash : Hash) (now : ℤ) :
    RefreshToken Hash :=
  { id := id
    tenantId := tenantId
    familyId := familyId
    generation := generation
    grant := grant
    tokenHash := tokenHash
    status := .active
    replacedById := none
    revokedReason := none
    expiresAt := expiryFromNow now }

/-- The next generation of a row. -/
def nextToken (current : RefreshToken Hash) (id : ℕ) (tokenHash : Hash) (now : ℤ) :
    RefreshToken Hash :=
  newToken id current.tenantId current.familyId (current.generation + 1) current.grant tokenHash now

/-! ## The repository -/

section Repository

variable (rows : List (RefreshToken Hash))

/-- An insert, under the primary key and `uq_refresh_tokens_token_hash`. -/
def insertToken (row : RefreshToken Hash) : Option (List (RefreshToken Hash)) :=
  if row.id ∈ rows.map (·.id) ∨ row.tokenHash ∈ rows.map (·.tokenHash) then none
  else some (rows ++ [row])

/-- `findByTokenHash`, within the tenant of the context. -/
def findByTokenHash (tenantId : ℕ) (tokenHash : Hash) : Option (RefreshToken Hash) :=
  rows.find? fun r => r.tokenHash = tokenHash && r.tenantId = tenantId

/-- The rows that the compare-and-swap of `rotate` updates. -/
def RefreshToken.swaps (presentedTokenId tenantId : ℕ) (r : RefreshToken Hash) : Bool :=
  r.id = presentedTokenId && r.tenantId = tenantId && r.status = .active

/-- A row after the compare-and-swap. -/
def RefreshToken.swap (presentedTokenId tenantId newTokenId : ℕ) (r : RefreshToken Hash) :
    RefreshToken Hash :=
  if r.swaps presentedTokenId tenantId then
    { r with
      status := .rotated
      replacedById := some newTokenId }
  else r

/-- `rotate`: the row is inserted, and stays whether or not the swap then finds the presented row
active; without that the result is `null`. -/
def rotate (presentedTokenId tenantId : ℕ) (next : RefreshToken Hash) :
    Option (List (RefreshToken Hash) × Option (RefreshToken Hash)) :=
  (insertToken rows next).map fun rows =>
    if rows.any fun r => r.swaps presentedTokenId tenantId then
      (rows.map (RefreshToken.swap presentedTokenId tenantId next.id), some next)
    else (rows, none)

/-- A row after the `UPDATE` of a revocation. -/
def RefreshToken.revoke (reason : String) (selected : RefreshToken Hash → Bool)
    (r : RefreshToken Hash) : RefreshToken Hash :=
  if selected r && r.status ≠ .revoked then
    { r with
      status := .revoked
      revokedReason := some reason }
  else r

/-- The rows that `revokeFamily` revokes. -/
def RefreshToken.inFamily (tenantId familyId : ℕ) (r : RefreshToken Hash) : Bool :=
  r.tenantId = tenantId && r.familyId = familyId

/-- The rows that `revokeAllForUser` revokes. -/
def RefreshToken.ofUser (tenantId userId : ℕ) (r : RefreshToken Hash) : Bool :=
  r.tenantId = tenantId && r.grant.userId = userId

/-- `revokeFamily`. -/
def revokeFamily (tenantId familyId : ℕ) (reason : String) : List (RefreshToken Hash) :=
  rows.map (RefreshToken.revoke reason (RefreshToken.inFamily tenantId familyId))

/-- `revokeAllForUser`, without the hashes it returns for Redis. -/
def revokeAllForUser (tenantId userId : ℕ) (reason : String) : List (RefreshToken Hash) :=
  rows.map (RefreshToken.revoke reason (RefreshToken.ofUser tenantId userId))

end Repository

/-! ## The calls -/

/-- Where a call is. -/
inductive Call (Raw Hash : Type*)
  | idle
  /-- The row has been inserted, by `issue` or by the rotation of a token; it is cached next. -/
  | created (rotated : Option Raw) (rawToken : Raw) (row : RefreshToken Hash)
  /-- The token has been returned to the caller. -/
  | returned (rotated : Option Raw) (rawToken : Raw) (row : RefreshToken Hash)
  /-- `rotate` has found the presented token active. -/
  | rotating (presented : Raw) (current : RefreshToken Hash)
  /-- `rotate` is about to revoke the family. -/
  | reuse (presented : Raw) (current : RefreshToken Hash) (reason : String)
  /-- `rotate` has thrown `RefreshTokenReusedError`. -/
  | threw (presented : Raw) (current : RefreshToken Hash)
  /-- `revokeByRawToken` is about to revoke the family. -/
  | revoking (tenantId : ℕ) (current : RefreshToken Hash) (reason : String)
  /-- `InvalidGrantError` or `TenantMismatchError`, or the end of a revocation. -/
  | ended

/-- The tables, what Redis may return, what callers know, and the calls. -/
structure State (Raw Hash : Type*) where
  rows : List (RefreshToken Hash)
  redis : List (RefreshToken Hash)
  known : List Raw
  calls : ℕ → Call Raw Hash

namespace State

variable (s : State Raw Hash)

/-- Nothing has been issued. -/
def init : State Raw Hash := ⟨[], [], [], fun _ => .idle⟩

def setCall (call : ℕ) (c : Call Raw Hash) : State Raw Hash :=
  { s with calls := Function.update s.calls call c }

omit [DecidableEq Hash] in
@[simp] theorem setCall_self (call : ℕ) (c : Call Raw Hash) : (s.setCall call c).calls call = c :=
  Function.update_self ..

omit [DecidableEq Hash] in
theorem setCall_of_ne {call call' : ℕ} (h : call' ≠ call) (c : Call Raw Hash) :
    (s.setCall call c).calls call' = s.calls call' :=
  Function.update_of_ne h ..

/-- A caller knows the token, or it is the token of no row. -/
def Presentable (hash : Raw → Hash) (rawToken : Raw) : Prop :=
  hash rawToken ∈ s.known.map hash ∨ hash rawToken ∉ s.rows.map (·.tokenHash)

instance (hash : Raw → Hash) (rawToken : Raw) : Decidable (s.Presentable hash rawToken) :=
  inferInstanceAs (Decidable (_ ∨ _))

/-- `lookup`: a record of Redis with the hash, or without one the row. -/
def lookup (tenantId : ℕ) (tokenHash : Hash) (hit : Option (RefreshToken Hash)) :
    Option (RefreshToken Hash) :=
  match hit with
  | some record => some record
  | none => findByTokenHash s.rows tenantId tokenHash

/-- What Redis may answer to `get`. -/
def MayHit (tokenHash : Hash) (hit : Option (RefreshToken Hash)) : Prop :=
  ∀ record ∈ hit, record ∈ s.redis ∧ record.tokenHash = tokenHash

instance (tokenHash : Hash) (hit : Option (RefreshToken Hash)) :
    Decidable (s.MayHit tokenHash hit) :=
  inferInstanceAs (Decidable (∀ record ∈ hit, _))

end State

/-- `rotate` of the service, up to its transaction. -/
def checkPresented (tenantId : ℕ) (presented : Raw) (now : ℤ)
    (current : Option (RefreshToken Hash)) : Call Raw Hash :=
  match current with
  | none => .ended
  | some current =>
    if current.tenantId ≠ tenantId then .ended
    else if current.expiresAt < now then .ended
    else if current.status ≠ .active then .reuse presented current "reuse_detected"
    else .rotating presented current

/-- What a call does between two awaits, or Redis losing an entry. -/
inductive Action (Raw Hash : Type*)
  | issue (call contextTenantId tenantId : ℕ) (grant : Grant) (rawToken : Raw) (familyId id : ℕ)
      (now : ℤ)
  /-- The new record is cached and the token returned, by `issue` or `rotate`. -/
  | finish (call : ℕ)
  | lookupRotate (call tenantId : ℕ) (presented : Raw) (hit : Option (RefreshToken Hash)) (now : ℤ)
  | rotate (call : ℕ) (newRawToken : Raw) (id : ℕ) (now : ℤ)
  /-- The family is revoked and `RefreshTokenReusedError` thrown. -/
  | revokeReused (call : ℕ)
  | lookupRevoke (call tenantId : ℕ) (rawToken : Raw) (hit : Option (RefreshToken Hash))
      (reason : String)
  | revokeFamily (call : ℕ)
  | revokeAllSessionsForUser (call tenantId userId : ℕ) (reason : String)

variable (hash : Raw → Hash)

/-- One step of the service. Family ids are random, so that an issued token begins a new family. A
conflict with a row of the table is thrown, and ends the call. -/
def step (s : State Raw Hash) : Action Raw Hash → Option (State Raw Hash)
  | .issue call contextTenantId tenantId grant rawToken familyId id now =>
    match s.calls call with
    | .idle =>
      if tenantId ≠ contextTenantId then some (s.setCall call .ended)
      else if familyId ∈ s.rows.map (·.familyId) then none
      else
        let row := newToken id tenantId familyId 1 grant (hash rawToken) now
        match insertToken s.rows row with
        | some rows => some ({ s with rows := rows }.setCall call (.created none rawToken row))
        | none => some (s.setCall call .ended)
    | _ => none
  | .finish call =>
    match s.calls call with
    | .created rotated rawToken row =>
      some ({ s with
        redis := row :: s.redis
        known := rawToken :: s.known }.setCall call (.returned rotated rawToken row))
    | _ => none
  | .lookupRotate call tenantId presented hit now =>
    match s.calls call with
    | .idle =>
      if s.Presentable hash presented ∧ s.MayHit (hash presented) hit then
        some (s.setCall call
          (checkPresented tenantId presented now (s.lookup tenantId (hash presented) hit)))
      else none
    | _ => none
  | .rotate call newRawToken id now =>
    match s.calls call with
    | .rotating presented current =>
      let next := nextToken current id (hash newRawToken) now
      match Auth.rotate s.rows current.id current.tenantId next with
      | some (rows, some row) =>
        some ({ s with rows := rows }.setCall call (.created (some presented) newRawToken row))
      | some (rows, none) =>
        some ({ s with rows := rows }.setCall call
          (.reuse presented current "concurrent_rotation_conflict"))
      | none => some (s.setCall call .ended)
    | _ => none
  | .revokeReused call =>
    match s.calls call with
    | .reuse presented current reason =>
      some ({ s with
        rows := Auth.revokeFamily s.rows current.tenantId current.familyId reason }.setCall call
          (.threw presented current))
    | _ => none
  | .lookupRevoke call tenantId rawToken hit reason =>
    match s.calls call with
    | .idle =>
      if s.Presentable hash rawToken ∧ s.MayHit (hash rawToken) hit then
        match s.lookup tenantId (hash rawToken) hit with
        | none => some (s.setCall call .ended)
        | some current => some (s.setCall call (.revoking tenantId current reason))
      else none
    | _ => none
  | .revokeFamily call =>
    match s.calls call with
    | .revoking tenantId current reason =>
      some ({ s with
        rows := Auth.revokeFamily s.rows tenantId current.familyId reason }.setCall call .ended)
    | _ => none
  | .revokeAllSessionsForUser call tenantId userId reason =>
    match s.calls call with
    | .idle =>
      some ({ s with rows := revokeAllForUser s.rows tenantId userId reason }.setCall call .ended)
    | _ => none

/-! ## What a step does -/

/-- Two versions of one row. -/
structure RefreshToken.SameToken (r r' : RefreshToken Hash) : Prop where
  id : r.id = r'.id
  tenantId : r.tenantId = r'.tenantId
  familyId : r.familyId = r'.familyId
  grant : r.grant = r'.grant
  tokenHash : r.tokenHash = r'.tokenHash

/-- The record is a version of a row of the table. -/
def RefreshToken.In (rows : List (RefreshToken Hash)) (r : RefreshToken Hash) : Prop :=
  ∃ r' ∈ rows, r.SameToken r'

/-- An update that makes no row another one, nor an inactive row active. -/
structure Weakens (f : RefreshToken Hash → RefreshToken Hash) : Prop where
  same : ∀ r, (f r).SameToken r
  active : ∀ r, (f r).status = .active → r.status = .active

omit [DecidableEq Hash] in
theorem weakens_revoke (reason : String) (selected : RefreshToken Hash → Bool) :
    Weakens (RefreshToken.revoke reason selected) := by
  refine ⟨fun r => ?_, fun r h => ?_⟩
  · unfold RefreshToken.revoke
    split <;> exact ⟨rfl, rfl, rfl, rfl, rfl⟩
  · unfold RefreshToken.revoke at h
    split at h
    · cases h
    · exact h

omit [DecidableEq Hash] in
theorem weakens_swap (presentedTokenId tenantId newTokenId : ℕ) :
    Weakens fun r : RefreshToken Hash => r.swap presentedTokenId tenantId newTokenId := by
  refine ⟨fun r => ?_, fun r h => ?_⟩
  · unfold RefreshToken.swap
    split <;> exact ⟨rfl, rfl, rfl, rfl, rfl⟩
  · unfold RefreshToken.swap at h
    split at h
    · cases h
    · exact h

/-- A row that can be inserted, and is active. -/
structure Fresh (rows : List (RefreshToken Hash)) (row : RefreshToken Hash) : Prop where
  id : row.id ∉ rows.map (·.id)
  tokenHash : row.tokenHash ∉ rows.map (·.tokenHash)
  active : row.status = .active

/-- A call that begins with a lookup holds nothing, or a record of a row whose token is known. -/
inductive Begins (s : State Raw Hash) : Call Raw Hash → Prop
  | ended : Begins s .ended
  | rotating {presented : Raw} {current : RefreshToken Hash} (hin : current.In s.rows)
      (hhash : current.tokenHash = hash presented) (hknown : hash presented ∈ s.known.map hash) :
      Begins s (.rotating presented current)
  | reuse {presented : Raw} {current : RefreshToken Hash} {reason : String}
      (hin : current.In s.rows) (hhash : current.tokenHash = hash presented)
      (hknown : hash presented ∈ s.known.map hash) : Begins s (.reuse presented current reason)
  | revoking {tenantId : ℕ} {current : RefreshToken Hash} {reason : String} :
      Begins s (.revoking tenantId current reason)

/-- The call has rotated no token, and found no reuse. -/
inductive Call.Open : Call Raw Hash → Prop
  | idle : Open .idle
  | rotating (presented : Raw) (current : RefreshToken Hash) : Open (.rotating presented current)
  | revoking (tenantId : ℕ) (current : RefreshToken Hash) (reason : String) :
      Open (.revoking tenantId current reason)

/-- What a step does. -/
inductive Move (s : State Raw Hash) : State Raw Hash → Prop
  | begin {call : ℕ} {c : Call Raw Hash} (hcall : (s.calls call).Open) (hc : Begins hash s c) :
      Move s (s.setCall call c)
  | issue {call : ℕ} {rawToken : Raw} {row : RefreshToken Hash} (hcall : s.calls call = .idle)
      (hfresh : Fresh s.rows row) (hhash : row.tokenHash = hash rawToken)
      (hfamily : row.familyId ∉ s.rows.map (·.familyId)) :
      Move s ({ s with rows := s.rows ++ [row] }.setCall call (.created none rawToken row))
  | finish {call : ℕ} {rotated : Option Raw} {rawToken : Raw} {row : RefreshToken Hash}
      (hcall : s.calls call = .created rotated rawToken row) :
      Move s ({ s with
        redis := row :: s.redis
        known := rawToken :: s.known }.setCall call (.returned rotated rawToken row))
  | win {call : ℕ} {presented newRawToken : Raw} {current row r : RefreshToken Hash}
      (hcall : s.calls call = .rotating presented current) (hfresh : Fresh s.rows row)
      (hhash : row.tokenHash = hash newRawToken) (htenant : row.tenantId = current.tenantId)
      (hfamily : row.familyId = current.familyId) (hr : r ∈ s.rows) (hid : r.id = current.id)
      (hactive : r.status = .active) :
      Move s ({ s with
        rows := (s.rows ++ [row]).map (RefreshToken.swap current.id current.tenantId row.id)
        }.setCall call (.created (some presented) newRawToken row))
  | lose {call : ℕ} {presented : Raw} {current row : RefreshToken Hash} {reason : String}
      (hcall : s.calls call = .rotating presented current) (hfresh : Fresh s.rows row)
      (htenant : row.tenantId = current.tenantId) (hfamily : row.familyId = current.familyId) :
      Move s ({ s with rows := s.rows ++ [row] }.setCall call (.reuse presented current reason))
  | reuse {call : ℕ} {presented : Raw} {current : RefreshToken Hash} {reason : String}
      (hcall : s.calls call = .reuse presented current reason) :
      Move s ({ s with
        rows := Auth.revokeFamily s.rows current.tenantId current.familyId reason }.setCall call
          (.threw presented current))
  | revoke {call : ℕ} {f : RefreshToken Hash → RefreshToken Hash}
      (hcall : (s.calls call).Open) (hf : Weakens f) :
      Move s ({ s with rows := s.rows.map f }.setCall call .ended)

variable {hash} {s t : State Raw Hash}

theorem insertToken_eq_some {rows rows' : List (RefreshToken Hash)} {row : RefreshToken Hash}
    (h : insertToken rows row = some rows') :
    rows' = rows ++ [row] ∧ row.id ∉ rows.map (·.id) ∧ row.tokenHash ∉ rows.map (·.tokenHash) := by
  unfold insertToken at h
  split at h
  · cases h
  · rename_i hno
    obtain ⟨hid, hhash⟩ := not_or.1 hno
    exact ⟨(Option.some.inj h).symm, hid, hhash⟩

section Rotate

variable {rows rows' : List (RefreshToken Hash)} {presentedTokenId tenantId : ℕ}
  {next : RefreshToken Hash}

theorem rotate_eq_some_some {row : RefreshToken Hash}
    (h : rotate rows presentedTokenId tenantId next = some (rows', some row)) :
    next.id ∉ rows.map (·.id) ∧ next.tokenHash ∉ rows.map (·.tokenHash) ∧ next = row ∧
      (rows ++ [next]).map (RefreshToken.swap presentedTokenId tenantId next.id) = rows' ∧
      ∃ r ∈ rows ++ [next], r.id = presentedTokenId ∧ r.status = .active := by
  obtain ⟨inserted, hinserted, h⟩ := Option.map_eq_some_iff.1 h
  obtain ⟨rfl, hid, hhash⟩ := insertToken_eq_some hinserted
  split at h
  · rename_i hswap
    obtain ⟨r, hr, hmatch⟩ := any_eq_true.1 hswap
    simp only [RefreshToken.swaps, Bool.and_eq_true, decide_eq_true_eq] at hmatch
    simp only [Prod.mk.injEq, Option.some.injEq] at h
    exact ⟨hid, hhash, h.2, h.1, r, hr, hmatch.1.1, hmatch.2⟩
  · cases h

theorem rotate_eq_some_none
    (h : rotate rows presentedTokenId tenantId next = some (rows', none)) :
    next.id ∉ rows.map (·.id) ∧ next.tokenHash ∉ rows.map (·.tokenHash) ∧
      rows ++ [next] = rows' := by
  obtain ⟨inserted, hinserted, h⟩ := Option.map_eq_some_iff.1 h
  obtain ⟨rfl, hid, hhash⟩ := insertToken_eq_some hinserted
  split at h
  · cases h
  · exact ⟨hid, hhash, (Prod.mk.inj h).1⟩

end Rotate

variable {current : RefreshToken Hash}

omit [DecidableEq Hash] in
theorem known_of_presentable {rawToken : Raw} (h : s.Presentable hash rawToken)
    (hin : current.In s.rows) (hhash : current.tokenHash = hash rawToken) :
    hash rawToken ∈ s.known.map hash := by
  refine h.resolve_right fun hno => hno ?_
  obtain ⟨r, hr, hsame⟩ := hin
  exact mem_map.2 ⟨r, hr, hsame.tokenHash.symm.trans hhash⟩

omit [DecidableEq Hash] in
theorem RefreshToken.SameToken.refl (r : RefreshToken Hash) : r.SameToken r :=
  ⟨rfl, rfl, rfl, rfl, rfl⟩

/-- What a lookup returns: a version of a row, with the hash it was asked for. -/
theorem lookup_in (hredis : ∀ c ∈ s.redis, c.In s.rows) {tenantId : ℕ} {tokenHash : Hash}
    {hit : Option (RefreshToken Hash)} (hhit : s.MayHit tokenHash hit)
    (h : s.lookup tenantId tokenHash hit = some current) :
    current.In s.rows ∧ current.tokenHash = tokenHash := by
  cases hit with
  | some record =>
    cases h
    obtain ⟨hmem, hhash⟩ := hhit _ rfl
    exact ⟨hredis _ hmem, hhash⟩
  | none =>
    have hfound := find?_some h
    simp only [Bool.and_eq_true, decide_eq_true_eq] at hfound
    exact ⟨⟨current, mem_of_find?_eq_some h, .refl current⟩, hfound.1⟩

variable {presented : Raw}

theorem begins_checkPresented (hredis : ∀ c ∈ s.redis, c.In s.rows) {tenantId : ℕ}
    {hit : Option (RefreshToken Hash)} {now : ℤ} (hpres : s.Presentable hash presented)
    (hhit : s.MayHit (hash presented) hit) :
    Begins hash s
      (checkPresented tenantId presented now (s.lookup tenantId (hash presented) hit)) := by
  cases hlookup : s.lookup tenantId (hash presented) hit with
  | none => exact .ended
  | some current =>
    obtain ⟨hin, hhash⟩ := lookup_in hredis hhit hlookup
    have hknown := known_of_presentable hpres hin hhash
    unfold checkPresented
    simp only
    split
    · exact .ended
    · split
      · exact .ended
      · split
        · exact .reuse hin hhash hknown
        · exact .rotating hin hhash hknown

variable {a : Action Raw Hash}

/-- Every step is one of the moves, where what Redis and the calls hold are versions of rows. -/
theorem step_move (hredis : ∀ c ∈ s.redis, c.In s.rows)
    (hrotating : ∀ call presented current, s.calls call = .rotating presented current →
      current.In s.rows) (h : step hash s a = some t) : Move hash s t := by
  cases a with
  | issue call contextTenantId tenantId grant rawToken familyId id now =>
    simp only [step] at h
    split at h
    · rename_i hcall
      have hopen : (s.calls call).Open := hcall ▸ .idle
      split at h
      · cases h
        exact .begin hopen .ended
      · split at h
        · cases h
        · rename_i hfamily
          split at h
          · rename_i hrows
            cases h
            obtain ⟨rfl, hid, hhash⟩ := insertToken_eq_some hrows
            exact .issue hcall ⟨hid, hhash, rfl⟩ rfl hfamily
          · cases h
            exact .begin hopen .ended
    · cases h
  | finish call =>
    simp only [step] at h
    split at h
    · rename_i hcall
      cases h
      exact .finish hcall
    · cases h
  | lookupRotate call tenantId presented hit now =>
    simp only [step] at h
    split at h
    · rename_i hcall
      split at h
      · rename_i hguard
        cases h
        exact .begin (hcall ▸ .idle) (begins_checkPresented hredis hguard.1 hguard.2)
      · cases h
    · cases h
  | rotate call newRawToken id now =>
    simp only [step] at h
    split at h
    · rename_i presented current hcall
      split at h
      · rename_i hresult
        cases h
        obtain ⟨hid, hhash, rfl, rfl, r, hr, hrid, hactive⟩ := rotate_eq_some_some hresult
        -- The inserted row has an id of its own.
        have hold : r ∈ s.rows := by
          refine (mem_append.1 hr).resolve_right fun hnew => hid ?_
          obtain ⟨r', hr', hsame⟩ := hrotating call presented current hcall
          rw [← mem_singleton.1 hnew, hrid, hsame.id]
          exact mem_map_of_mem hr'
        exact .win hcall ⟨hid, hhash, rfl⟩ rfl rfl rfl hold hrid hactive
      · rename_i hresult
        cases h
        obtain ⟨hid, hhash, rfl⟩ := rotate_eq_some_none hresult
        exact .lose hcall ⟨hid, hhash, rfl⟩ rfl rfl
      · cases h
        exact .begin (hcall ▸ .rotating presented current) .ended
    · cases h
  | revokeReused call =>
    simp only [step] at h
    split at h
    · rename_i hcall
      cases h
      exact .reuse hcall
    · cases h
  | lookupRevoke call tenantId rawToken hit reason =>
    simp only [step] at h
    split at h
    · rename_i hcall
      split at h
      · split at h
        · cases h
          exact .begin (hcall ▸ .idle) .ended
        · cases h
          exact .begin (hcall ▸ .idle) .revoking
      · cases h
    · cases h
  | revokeFamily call =>
    simp only [step] at h
    split at h
    · rename_i hcall
      cases h
      exact .revoke (hcall ▸ .revoking ..) (weakens_revoke _ _)
    · cases h
  | revokeAllSessionsForUser call tenantId userId reason =>
    simp only [step] at h
    split at h
    · rename_i hcall
      cases h
      exact .revoke (hcall ▸ .idle) (weakens_revoke _ _)
    · cases h

/-! ## The invariant -/

/-- The constraints of the table, and one tenant for each family. -/
structure TableOk (rows : List (RefreshToken Hash)) : Prop where
  ids : (rows.map (·.id)).Nodup
  hashes : (rows.map (·.tokenHash)).Nodup
  tenants : ∀ r ∈ rows, ∀ r' ∈ rows, r.familyId = r'.familyId → r.tenantId = r'.tenantId

/-- The token with this hash has been rotated or revoked. -/
def Spent (rows : List (RefreshToken Hash)) (tokenHash : Hash) : Prop :=
  ∃ r ∈ rows, r.tokenHash = tokenHash ∧ r.status ≠ .active

/-- Nobody has been given the token with this hash, and no call is about to return it. -/
def State.Hidden (hash : Raw → Hash) (s : State Raw Hash) (tokenHash : Hash) : Prop :=
  tokenHash ∉ s.known.map hash ∧ ∀ call rotated rawToken row,
    s.calls call = .created rotated rawToken row → row.tokenHash ≠ tokenHash

/-- The rows of the family that are still active have tokens that nobody can present: rotations that
lost the swap have left them behind. -/
def State.Dead (hash : Raw → Hash) (s : State Raw Hash) (familyId : ℕ) : Prop :=
  ∀ r ∈ s.rows, r.familyId = familyId → r.status = .active → s.Hidden hash r.tokenHash

/-- The token that a call has rotated, and its next generation. -/
def Call.rotation : Call Raw Hash → Option (Raw × RefreshToken Hash)
  | .created rotated _ row => rotated.map (·, row)
  | .returned rotated _ row => rotated.map (·, row)
  | _ => none

/-- What holds of the data of a call. -/
def CallOk (hash : Raw → Hash) (s : State Raw Hash) : Call Raw Hash → Prop
  | .created rotated rawToken row =>
    row.In s.rows ∧ row.tokenHash = hash rawToken ∧ ∀ p ∈ rotated, Spent s.rows (hash p)
  | .returned rotated _ _ => ∀ p ∈ rotated, Spent s.rows (hash p)
  | .rotating presented current =>
    current.In s.rows ∧ current.tokenHash = hash presented ∧ hash presented ∈ s.known.map hash
  | .reuse _ current _ => current.In s.rows
  | .threw _ current => current.In s.rows ∧ s.Dead hash current.familyId
  | _ => True

structure Inv (hash : Raw → Hash) (s : State Raw Hash) : Prop where
  table : TableOk s.rows
  redis : ∀ c ∈ s.redis, c.In s.rows
  known : ∀ rawToken ∈ s.known, hash rawToken ∈ s.rows.map (·.tokenHash)
  calls : ∀ call, CallOk hash s (s.calls call)
  once : ∀ call call' x x', call ≠ call' → (s.calls call).rotation = some x →
    (s.calls call').rotation = some x' → hash x.1 ≠ hash x'.1

omit [DecidableEq Hash] in
theorem inv_init : Inv hash (State.init : State Raw Hash) where
  table := ⟨nodup_nil, nodup_nil, fun _ hr => by cases hr⟩
  redis := fun _ hc => by cases hc
  known := fun _ hr => by cases hr
  calls := fun _ => trivial
  once := fun _ _ _ _ _ h => by cases h

section Keep

omit [DecidableEq Hash]

variable {call : ℕ} {c : Call Raw Hash}

theorem Inv.callOk (hs : Inv hash s) (hcall : s.calls call = c) :
    CallOk hash s c :=
  hcall ▸ hs.calls call

theorem RefreshToken.SameToken.trans {r r' r'' : RefreshToken Hash} (h : r.SameToken r')
    (h' : r'.SameToken r'') : r.SameToken r'' :=
  ⟨h.id.trans h'.id, h.tenantId.trans h'.tenantId, h.familyId.trans h'.familyId,
    h.grant.trans h'.grant, h.tokenHash.trans h'.tokenHash⟩

theorem RefreshToken.SameToken.symm {r r' : RefreshToken Hash} (h : r.SameToken r') :
    r'.SameToken r :=
  ⟨h.id.symm, h.tenantId.symm, h.familyId.symm, h.grant.symm, h.tokenHash.symm⟩

/-- What holds of a call still does, when rows stay, spent tokens stay spent, known ones known and
the family it has killed dead. -/
theorem CallOk.mono (hin : ∀ r : RefreshToken Hash, r.In s.rows → r.In t.rows)
    (hspent : ∀ h, Spent s.rows h → Spent t.rows h)
    (hknown : ∀ h, h ∈ s.known.map hash → h ∈ t.known.map hash)
    (hdead : ∀ presented current, c = .threw presented current →
      s.Dead hash current.familyId → t.Dead hash current.familyId) (h : CallOk hash s c) :
    CallOk hash t c := by
  cases c with
  | created rotated rawToken row => exact ⟨hin _ h.1, h.2.1, fun p hp => hspent _ (h.2.2 p hp)⟩
  | returned rotated rawToken row => exact fun p hp => hspent _ (h p hp)
  | rotating presented current => exact ⟨hin _ h.1, h.2.1, hknown _ h.2.2⟩
  | reuse presented current reason => exact hin _ h
  | threw presented current => exact ⟨hin _ h.1, hdead presented current rfl h.2⟩
  | idle | revoking _ _ _ | ended => trivial

theorem Inv.weaken (hs : Inv hash s) {f : RefreshToken Hash → RefreshToken Hash} (hf : Weakens f) :
    Inv hash { s with rows := s.rows.map f } := by
  have hids : (s.rows.map f).map (·.id) = s.rows.map (·.id) := by
    rw [map_map]
    exact map_congr_left fun r _ => (hf.same r).id
  have hhashes : (s.rows.map f).map (·.tokenHash) = s.rows.map (·.tokenHash) := by
    rw [map_map]
    exact map_congr_left fun r _ => (hf.same r).tokenHash
  have hin : ∀ c : RefreshToken Hash, c.In s.rows → c.In (s.rows.map f) := by
    rintro c ⟨r, hr, hsame⟩
    exact ⟨f r, mem_map_of_mem hr, hsame.trans (hf.same r).symm⟩
  refine
    { table := ⟨hids ▸ hs.table.ids, hhashes ▸ hs.table.hashes, ?_⟩
      redis := fun c hc => hin c (hs.redis c hc)
      known := fun rawToken hraw => hhashes ▸ hs.known rawToken hraw
      calls := fun call => CallOk.mono (s := s) hin ?_ (fun _ h => h) ?_ (hs.calls call)
      once := hs.once }
  · intro r hr r' hr' hfamily
    obtain ⟨r₀, hr₀, rfl⟩ := mem_map.1 hr
    obtain ⟨r₁, hr₁, rfl⟩ := mem_map.1 hr'
    rw [(hf.same r₀).familyId, (hf.same r₁).familyId] at hfamily
    rw [(hf.same r₀).tenantId, (hf.same r₁).tenantId]
    exact hs.table.tenants r₀ hr₀ r₁ hr₁ hfamily
  · rintro h ⟨r, hr, hhash, hstatus⟩
    exact ⟨f r, mem_map_of_mem hr, (hf.same r).tokenHash.trans hhash,
      fun hactive => hstatus (hf.active r hactive)⟩
  · intro _ _ _ hdead r hr hfamily hactive
    obtain ⟨r₀, hr₀, rfl⟩ := mem_map.1 hr
    rw [(hf.same r₀).tokenHash]
    exact hdead r₀ hr₀ ((hf.same r₀).familyId.symm.trans hfamily) (hf.active r₀ hactive)

theorem Inv.insert (hs : Inv hash s) {row : RefreshToken Hash} (hfresh : Fresh s.rows row)
    (htenant : ∀ r ∈ s.rows, r.familyId = row.familyId → r.tenantId = row.tenantId) :
    Inv hash { s with rows := s.rows ++ [row] } := by
  have hhidden : s.Hidden hash row.tokenHash := by
    refine ⟨fun hmem => hfresh.tokenHash ?_, fun call rotated rawToken row' hcall heq =>
      hfresh.tokenHash ?_⟩
    · obtain ⟨rawToken, hraw, hhash⟩ := mem_map.1 hmem
      exact hhash ▸ hs.known rawToken hraw
    · have hok := hs.callOk hcall
      obtain ⟨⟨r, hr, hsame⟩, -, -⟩ := hok
      exact mem_map.2 ⟨r, hr, hsame.tokenHash.symm.trans heq⟩
  have hin : ∀ c : RefreshToken Hash, c.In s.rows → c.In (s.rows ++ [row]) := by
    rintro c ⟨r, hr, hsame⟩
    exact ⟨r, mem_append_left _ hr, hsame⟩
  refine
    { table := ⟨?_, ?_, ?_⟩
      redis := fun c hc => hin c (hs.redis c hc)
      known := fun rawToken hraw => ?_
      calls := fun call => CallOk.mono (s := s) hin ?_ (fun _ h => h) ?_ (hs.calls call)
      once := hs.once }
  · exact Tables.nodup_append_singleton hs.table.ids fun r hr heq =>
      hfresh.id (heq ▸ mem_map_of_mem hr)
  · exact Tables.nodup_append_singleton hs.table.hashes fun r hr heq =>
      hfresh.tokenHash (heq ▸ mem_map_of_mem hr)
  · intro r hr r' hr' hfamily
    rcases Tables.mem_concat.1 hr with hold | rfl
    · rcases mem_append.1 hr' with hold' | hnew'
      · exact hs.table.tenants r hold r' hold' hfamily
      · rw [mem_singleton.1 hnew'] at hfamily ⊢
        exact htenant r hold hfamily
    · rcases mem_append.1 hr' with hold' | hnew'
      · exact (htenant r' hold' hfamily.symm).symm
      · rw [mem_singleton.1 hnew']
  · rw [map_append]
    exact mem_append_left _ (hs.known rawToken hraw)
  · rintro h ⟨r, hr, hspent⟩
    exact ⟨r, mem_append_left _ hr, hspent⟩
  · intro _ _ _ hdead r hr hfamily hactive
    rcases Tables.mem_concat.1 hr with hr | rfl
    · exact hdead r hr hfamily hactive
    · exact hhidden

/-- A dead family stays dead when no call is about to return a token of it. -/
theorem State.Dead.setCall {familyId call : ℕ} (htable : TableOk s.rows)
    (hin : ∀ rotated rawToken row, c = .created rotated rawToken row → row.In s.rows)
    (hother : ∀ rotated rawToken row, c = .created rotated rawToken row → row.familyId ≠ familyId)
    (hdead : s.Dead hash familyId) : (s.setCall call c).Dead hash familyId := by
  intro r hr hfamily hactive
  obtain ⟨hknown, hcalls⟩ := hdead r hr hfamily hactive
  refine ⟨hknown, fun call' rotated rawToken row hcall' hhash => ?_⟩
  by_cases heq : call' = call
  · -- A token of a family that is alive is not that of a row of the family.
    subst heq
    have hnew : c = .created rotated rawToken row := (s.setCall_self call' c).symm.trans hcall'
    obtain ⟨r', hr', hsame⟩ := hin rotated rawToken row hnew
    obtain rfl := Tables.eq_of_key_eq htable.hashes hr' hr (hsame.tokenHash.symm.trans hhash)
    exact hother rotated rawToken row hnew (hsame.familyId.trans hfamily)
  · have hold : s.calls call' = .created rotated rawToken row :=
      (s.setCall_of_ne heq c).symm.trans hcall'
    exact hcalls call' rotated rawToken row hold hhash

/-- A call goes on. A row that it is about to return is of no family that is dead, and a token that
it has rotated no other call has. -/
theorem Inv.setCall (hs : Inv hash s) (hc : CallOk hash s c)
    (hcreated : ∀ rotated rawToken row, c = .created rotated rawToken row →
      ∀ call' presented current, s.calls call' = .threw presented current →
        row.familyId ≠ current.familyId)
    (honce : ∀ x, c.rotation = some x → ∀ call' x', call' ≠ call →
      (s.calls call').rotation = some x' → hash x.1 ≠ hash x'.1) : Inv hash (s.setCall call c) := by
  have hin : ∀ rotated rawToken row, c = .created rotated rawToken row → row.In s.rows := by
    rintro rotated rawToken row rfl
    exact hc.1
  refine
    { table := hs.table
      redis := hs.redis
      known := hs.known
      calls := fun call' => ?_
      once := fun call₁ call₂ x x' hne h h' => ?_ }
  · by_cases heq : call' = call
    · subst heq
      rw [State.setCall_self]
      refine CallOk.mono (s := s) (fun _ h => h) (fun _ h => h) (fun _ h => h)
        (fun presented current hthrew => .setCall hs.table hin fun rotated rawToken row hnew => ?_)
        hc
      rw [hthrew] at hnew
      cases hnew
    · rw [State.setCall_of_ne s heq]
      refine CallOk.mono (s := s) (fun _ h => h) (fun _ h => h) (fun _ h => h)
        (fun presented current hthrew => .setCall hs.table hin fun rotated rawToken row hnew => ?_)
        (hs.calls call')
      exact hcreated rotated rawToken row hnew call' presented current hthrew
  · by_cases h₁ : call₁ = call
    · subst h₁
      rw [State.setCall_self] at h
      rw [State.setCall_of_ne s hne.symm] at h'
      exact honce x h call₂ x' hne.symm h'
    · rw [State.setCall_of_ne s h₁] at h
      by_cases h₂ : call₂ = call
      · subst h₂
        rw [State.setCall_self] at h'
        exact (honce x' h' call₁ x h₁ h).symm
      · rw [State.setCall_of_ne s h₂] at h'
        exact hs.once call₁ call₂ x x' hne h h'

/-- A call caches its record and gives the token away, which it had not been before. -/
theorem Inv.publish (hs : Inv hash s) {rotated : Option Raw} {rawToken : Raw}
    {row : RefreshToken Hash} (hcall : s.calls call = .created rotated rawToken row) :
    Inv hash { s with
      redis := row :: s.redis
      known := rawToken :: s.known } := by
  have hok := hs.callOk hcall
  obtain ⟨hin, hhash, -⟩ := hok
  refine
    { table := hs.table
      redis := forall_mem_cons.2 ⟨hin, hs.redis⟩
      known := forall_mem_cons.2 ⟨?_, hs.known⟩
      calls := fun call' => CallOk.mono (s := s) (fun _ h => h) (fun _ h => h)
        (fun _ h => mem_cons_of_mem _ h) ?_ (hs.calls call')
      once := hs.once }
  · obtain ⟨r, hr, hsame⟩ := hin
    exact mem_map.2 ⟨r, hr, hsame.tokenHash.symm.trans hhash⟩
  · intro _ _ _ hdead r hr hfamily hactive
    obtain ⟨hknown, hcalls⟩ := hdead r hr hfamily hactive
    refine ⟨fun hmem => ?_, hcalls⟩
    rcases mem_cons.1 hmem with heq | hold
    · exact hcalls call rotated rawToken row hcall (hhash.trans heq.symm)
    · exact hknown hold

/-- The row that a rotation finds active has the token that was presented. -/
theorem Inv.presented_eq (hs : Inv hash s) {presented : Raw} {current r : RefreshToken Hash}
    (hcall : s.calls call = .rotating presented current) (hr : r ∈ s.rows)
    (hid : r.id = current.id) :
    current.SameToken r ∧ r.tokenHash = hash presented := by
  have hok := hs.callOk hcall
  obtain ⟨⟨r', hr', hsame⟩, hhash, -⟩ := hok
  obtain rfl := Tables.eq_of_key_eq hs.table.ids hr hr' (hid.trans hsame.id)
  exact ⟨hsame, hsame.tokenHash.symm.trans hhash⟩

theorem Inv.not_active_of_dead (hs : Inv hash s) {presented : Raw} {current r : RefreshToken Hash}
    (hcall : s.calls call = .rotating presented current) (hr : r ∈ s.rows)
    (hid : r.id = current.id) (hdead : s.Dead hash current.familyId) :
    r.status ≠ .active := by
  obtain ⟨hsame, hpresented⟩ := hs.presented_eq hcall hr hid
  have hok := hs.callOk hcall
  intro hactive
  obtain ⟨hhidden, -⟩ := hdead r hr hsame.familyId.symm hactive
  rw [hpresented] at hhidden
  exact hhidden hok.2.2

theorem Inv.dead_revokeFamily (hs : Inv hash s) {current : RefreshToken Hash}
    (hin : current.In s.rows) (reason : String) :
    State.Dead hash { s with
      rows := Auth.revokeFamily s.rows current.tenantId current.familyId reason }
      current.familyId := by
  intro r hr hfamily hactive
  obtain ⟨r₀, hr₀, rfl⟩ := mem_map.1 hr
  obtain ⟨r', hr', hsame⟩ := hin
  rw [((weakens_revoke _ _).same r₀).familyId] at hfamily
  have htenant : r₀.tenantId = current.tenantId :=
    (hs.table.tenants r₀ hr₀ r' hr' (hfamily.trans hsame.familyId)).trans hsame.tenantId.symm
  have hnot : ¬ (r₀.inFamily current.tenantId current.familyId && r₀.status ≠ .revoked) := by
    intro hselected
    rw [RefreshToken.revoke, if_pos hselected] at hactive
    cases hactive
  rw [RefreshToken.revoke, if_neg hnot] at hactive
  simp [RefreshToken.inFamily, htenant, hfamily, hactive] at hnot

theorem CallOk.spent (h : CallOk hash s c) {x : Raw × RefreshToken Hash}
    (hx : c.rotation = some x) : Spent s.rows (hash x.1) := by
  cases c with
  | created rotated rawToken row =>
    obtain ⟨p, hp, rfl⟩ := Option.map_eq_some_iff.1 hx
    exact h.2.2 p hp
  | returned rotated rawToken row =>
    obtain ⟨p, hp, rfl⟩ := Option.map_eq_some_iff.1 hx
    exact h p hp
  | idle | rotating _ _ | reuse _ _ _ | threw _ _ | revoking _ _ _ | ended => cases hx

theorem Begins.callOk (h : Begins hash s c) : CallOk hash s c := by
  cases h with
  | ended => trivial
  | rotating hin hhash hknown => exact ⟨hin, hhash, hknown⟩
  | reuse hin hhash hknown => exact hin
  | revoking => trivial

theorem Begins.rotation (h : Begins hash s c) : c.rotation = none := by
  cases h <;> rfl

/-- A rotation that wins has spent the token, which no other call had rotated. -/
theorem Inv.win (hs : Inv hash s) {presented newRawToken : Raw}
    {current row r : RefreshToken Hash} (hcall : s.calls call = .rotating presented current)
    (hfresh : Fresh s.rows row) (hhash : row.tokenHash = hash newRawToken)
    (htenant : row.tenantId = current.tenantId) (hfamily : row.familyId = current.familyId)
    (hr : r ∈ s.rows) (hid : r.id = current.id) (hactive : r.status = .active) :
    Inv hash ({ s with
      rows := (s.rows ++ [row]).map (RefreshToken.swap current.id current.tenantId row.id)
      }.setCall call (.created (some presented) newRawToken row)) := by
  obtain ⟨hsame, hpresented⟩ := hs.presented_eq hcall hr hid
  have hswap : Weakens (RefreshToken.swap current.id current.tenantId row.id :
      RefreshToken Hash → RefreshToken Hash) := weakens_swap ..
  have htenants : ∀ r' ∈ s.rows, r'.familyId = row.familyId → r'.tenantId = row.tenantId := by
    intro r' hr' hfamily'
    have heq := hs.table.tenants r' hr' r hr (hfamily'.trans (hfamily.trans hsame.familyId))
    rw [heq, htenant, hsame.tenantId]
  have hswapped := (hs.insert hfresh htenants).weaken hswap
  have hspent : Spent ((s.rows ++ [row]).map
      (RefreshToken.swap current.id current.tenantId row.id)) (hash presented) := by
    refine ⟨_, mem_map_of_mem (mem_append_left _ hr), ?_, ?_⟩
    · exact (hswap.same r).tokenHash.trans hpresented
    · have hmatch : r.swaps current.id current.tenantId := by
        simp [RefreshToken.swaps, hid, hsame.tenantId, hactive]
      rw [RefreshToken.swap, if_pos hmatch]
      exact fun hstatus => by cases hstatus
  refine hswapped.setCall ⟨?_, hhash, ?_⟩ ?_ ?_
  · exact ⟨_, mem_map_of_mem (mem_concat_self),
      (hswap.same row).symm⟩
  · intro p hp
    cases hp
    exact hspent
  · intro rotated rawToken row' hnew call' presented' current' hthrew heq
    have hok := hs.callOk hthrew
    obtain ⟨-, -, rfl⟩ : _ ∧ _ ∧ row = row' := by simpa using hnew
    have hdead : s.Dead hash current.familyId := hfamily ▸ heq ▸ hok.2
    exact hs.not_active_of_dead hcall hr hid hdead hactive
  · intro x hx call' x' hne hx' heq
    cases hx
    obtain ⟨r', hr', hhash', hstatus⟩ := (hs.calls call').spent hx'
    obtain rfl := Tables.eq_of_key_eq hs.table.hashes hr' hr
      (hhash'.trans (heq.symm.trans hpresented.symm))
    exact hstatus hactive

theorem inv_move (hs : Inv hash s) (h : Move hash s t) : Inv hash t := by
  cases h with
  | begin hcall hc =>
    refine hs.setCall hc.callOk (fun _ _ _ hnew => ?_) fun x hx => ?_
    · subst hnew
      cases hc
    · rw [hc.rotation] at hx
      cases hx
  | @issue call rawToken row hcall hfresh hhash hfamily =>
    have htenants : ∀ r ∈ s.rows, r.familyId = row.familyId → r.tenantId = row.tenantId :=
      fun r hr heq => absurd (heq ▸ mem_map_of_mem hr) hfamily
    refine (hs.insert hfresh htenants).setCall ⟨?_, hhash, fun p hp => by cases hp⟩ ?_
      fun x hx => by cases hx
    · exact ⟨row, mem_concat_self, .refl row⟩
    · intro rotated rawToken' row' hnew call' presented' current' hthrew heq
      have hok := hs.callOk hthrew
      obtain ⟨⟨r, hr, hsame⟩, -⟩ := hok
      obtain ⟨-, -, rfl⟩ : _ ∧ _ ∧ row = row' := by simpa using hnew
      exact hfamily (mem_map.2 ⟨r, hr, hsame.familyId.symm.trans heq.symm⟩)
  | @finish call rotated rawToken row hcall =>
    have hok := hs.callOk hcall
    refine (hs.publish hcall).setCall hok.2.2 (fun _ _ _ hnew => by cases hnew) ?_
    intro x hx call' x' hne hx'
    refine hs.once call call' x x' hne.symm ?_ hx'
    rw [hcall]
    exact hx
  | win hcall hfresh hhash htenant hfamily hr hid hactive =>
    exact hs.win hcall hfresh hhash htenant hfamily hr hid hactive
  | @lose call presented current row reason hcall hfresh htenant hfamily =>
    have hok := hs.callOk hcall
    obtain ⟨⟨r', hr', hsame⟩, -⟩ := hok
    have htenants : ∀ r ∈ s.rows, r.familyId = row.familyId → r.tenantId = row.tenantId := by
      intro r hr hfamily'
      have heq := hs.table.tenants r hr r' hr' (hfamily'.trans (hfamily.trans hsame.familyId))
      rw [heq, htenant, hsame.tenantId]
    exact (hs.insert hfresh htenants).setCall ⟨r', mem_append_left _ hr', hsame⟩
      (fun _ _ _ hnew => by cases hnew) fun x hx => by cases hx
  | @reuse call presented current reason hcall =>
    have hok := hs.callOk hcall
    obtain ⟨r', hr', hsame⟩ := hok
    have hrevoke : Weakens (RefreshToken.revoke reason
        (RefreshToken.inFamily current.tenantId current.familyId) :
        RefreshToken Hash → RefreshToken Hash) := weakens_revoke ..
    exact (hs.weaken hrevoke).setCall ⟨⟨_, mem_map_of_mem hr', hsame.trans (hrevoke.same r').symm⟩,
        hs.dead_revokeFamily ⟨r', hr', hsame⟩ reason⟩
      (fun _ _ _ hnew => by cases hnew) fun x hx => by cases hx
  | revoke hcall hf =>
    exact (hs.weaken hf).setCall trivial (fun _ _ _ hnew => by cases hnew) fun x hx => by cases hx

end Keep

theorem Inv.move (hs : Inv hash s) (h : step hash s a = some t) :
    Move hash s t := by
  refine step_move hs.redis (fun call presented current hcall => ?_) h
  have hok := hs.callOk hcall
  exact hok.1

theorem inv_step (hs : Inv hash s) (h : step hash s a = some t) :
    Inv hash t :=
  inv_move hs (hs.move h)

/-! ## A dead family -/

/-- The call that moves has not thrown; a rotation it has made is an old one, or of a family that is
not dead. -/
structure Quiet (familyId : ℕ) (s t : State Raw Hash) (call : ℕ) : Prop where
  others : ∀ j, j ≠ call → t.calls j = s.calls j
  threw : ∀ presented current, s.calls call ≠ .threw presented current
  rotation : ∀ p next, (t.calls call).rotation = some (p, next) → next.familyId = familyId →
    (s.calls call).rotation = some (p, next)

variable {u : State Raw Hash}

omit [DecidableEq Hash] in
theorem quiet_setCall {familyId call : ℕ} {c : Call Raw Hash} (hu : u.calls = s.calls)
    (hthrew : ∀ presented current, s.calls call ≠ .threw presented current)
    (hc : ∀ p next, c.rotation = some (p, next) → next.familyId = familyId →
      (s.calls call).rotation = some (p, next)) : Quiet familyId s (u.setCall call c) call where
  others := fun j hne => by rw [u.setCall_of_ne hne, hu]
  threw := hthrew
  rotation := fun p next h => hc p next (u.setCall_self call c ▸ h)

omit [DecidableEq Hash] in
theorem Call.Open.ne_threw {c : Call Raw Hash} (h : c.Open) (presented : Raw)
    (current : RefreshToken Hash) : c ≠ .threw presented current := by
  rintro rfl
  cases h

omit [DecidableEq Hash] in
theorem move_quiet (hs : Inv hash s) (h : Move hash s t) {familyId : ℕ}
    (hdead : s.Dead hash familyId) : ∃ call, Quiet familyId s t call := by
  cases h with
  | @begin call c hcall hc =>
    refine ⟨call, quiet_setCall rfl hcall.ne_threw fun p next hj => ?_⟩
    rw [hc.rotation] at hj
    cases hj
  | @issue call rawToken row hcall hfresh hhash hfamily =>
    exact ⟨call, quiet_setCall rfl (by simp [hcall]) fun p next hj => by cases hj⟩
  | @finish call rotated rawToken row hcall =>
    refine ⟨call, quiet_setCall rfl (by simp [hcall]) fun p next hj _ => ?_⟩
    rw [hcall]
    exact hj
  | @win call _ _ current row r hcall hfresh hhash htenant hfamily hr hid hactive =>
    refine ⟨call, quiet_setCall rfl (by simp [hcall]) fun p next hj hfamily' => ?_⟩
    cases hj
    have hdead' : s.Dead hash current.familyId := hfamily.symm.trans hfamily' ▸ hdead
    exact absurd hactive (hs.not_active_of_dead hcall hr hid hdead')
  | @lose call presented current row reason hcall hfresh htenant hfamily =>
    exact ⟨call, quiet_setCall rfl (by simp [hcall]) fun p next hj => by cases hj⟩
  | @reuse call presented current reason hcall =>
    exact ⟨call, quiet_setCall rfl (by simp [hcall]) fun p next hj => by cases hj⟩
  | @revoke call f hcall hf =>
    exact ⟨call, quiet_setCall rfl hcall.ne_threw fun p next hj => by cases hj⟩

/-- A call that has thrown, and the rotations there were when it had. -/
structure Killed (hash : Raw → Hash) (s : State Raw Hash) (i : ℕ) (presented : Raw)
    (current : RefreshToken Hash) (t : State Raw Hash) : Prop where
  inv : Inv hash t
  threw : t.calls i = .threw presented current
  rotations : ∀ j p next, (t.calls j).rotation = some (p, next) →
    next.familyId = current.familyId → (s.calls j).rotation = some (p, next)

omit [DecidableEq Hash] in
theorem Killed.dead {i : ℕ} (h : Killed hash u i presented current s) :
    s.Dead hash current.familyId := by
  have hok := h.inv.calls i
  rw [h.threw] at hok
  exact hok.2

theorem Killed.step {i : ℕ} (hk : Killed hash u i presented current s)
    (h : step hash s a = some t) : Killed hash u i presented current t := by
  obtain ⟨call, hquiet⟩ := move_quiet hk.inv (hk.inv.move h) hk.dead
  refine ⟨inv_step hk.inv h, ?_, fun j p next hj hfamily => ?_⟩
  · have hne : i ≠ call := fun heq => hquiet.threw presented current (heq ▸ hk.threw)
    rw [hquiet.others i hne, hk.threw]
  · by_cases heq : j = call
    · subst heq
      exact hk.rotations j p next (hquiet.rotation p next hj hfamily) hfamily
    · rw [hquiet.others j heq] at hj
      exact hk.rotations j p next hj hfamily

/-- **Refresh tokens are single-use, and a replay kills the family**: in every run, no token is
rotated by two calls; and once a call has thrown `RefreshTokenReusedError`, in every state reached
from there the tokens of the family that callers have been given are not active, and no rotation has
been made in the family since. -/
theorem refresh_token_single_use {as : List (Action Raw Hash)}
    (h : Runs.exec (step hash) State.init as = some s) :
    (∀ i j x y, i ≠ j → (s.calls i).rotation = some x → (s.calls j).rotation = some y →
      hash x.1 ≠ hash y.1) ∧
    ∀ i presented current, s.calls i = .threw presented current →
      ∀ bs t, Runs.exec (step hash) s bs = some t →
        (∀ r ∈ t.rows, r.familyId = current.familyId → r.tokenHash ∈ t.known.map hash →
          r.status ≠ .active) ∧
        ∀ j p next, (t.calls j).rotation = some (p, next) → next.familyId = current.familyId →
          (s.calls j).rotation = some (p, next) := by
  have hs : Inv hash s := Runs.exec_keeps (Inv hash) (fun _ _ _ => inv_step) inv_init h
  refine ⟨hs.once, fun i presented current hi bs t ht => ?_⟩
  have hk : Killed hash s i presented current t :=
    Runs.exec_keeps (Killed hash s i presented current) (fun _ _ _ => Killed.step)
      ⟨hs, hi, fun _ _ _ hj _ => hj⟩ ht
  refine ⟨fun r hr hfamily hknown hactive => ?_, hk.rotations⟩
  exact (hk.dead r hr hfamily hactive).1 hknown

/-- A token is issued, rotated, and presented a second time while Redis still has it as active. -/
def replay : List (Action ℕ ℕ) :=
  let grant : Grant := ⟨5, 6, ["pwd"], 0, "openid"⟩
  [.issue 0 1 1 grant 100 40 7 0, .finish 0, .lookupRotate 1 1 100 none 10, .rotate 1 200 8 10,
    .finish 1, .lookupRotate 2 1 100 (some (newToken 7 1 40 1 grant 1100 0)) 20,
    .rotate 2 300 9 20, .revokeReused 2]

/-- The replay has thrown, and the token of the next generation is dead as well. -/
theorem replay_threw :
    ∃ s, Runs.exec (step (· + 1000)) State.init replay = some s ∧
      (∃ current, s.calls 2 = .threw 100 current ∧ current.familyId = 40) ∧
      s.known = [200, 100] ∧ (s.calls 1).rotation.map Prod.fst = some 100 ∧
      ∀ bs t, Runs.exec (step (· + 1000)) s bs = some t →
        ∀ r ∈ t.rows, r.familyId = 40 → r.tokenHash ∈ t.known.map (· + 1000) →
          r.status ≠ .active := by
  refine ⟨_, rfl, ⟨_, rfl, rfl⟩, rfl, rfl, fun bs t ht => ?_⟩
  have hrun : Runs.exec (step (· + 1000)) State.init replay = some _ := rfl
  exact ((refresh_token_single_use hrun).2 2 _ _ rfl bs t ht).1

end Workforce.Auth
