import Workforce.Auth.RefreshTokens
import Workforce.Foundations.Expiring

/-!
# Introspection of refresh tokens

`refresh-token.service.ts` once more, with what Redis holds: `lookup` returns the record that is
cached under the hash of a token, and asks the table only without one. Each call here ends before
the next one begins and takes no time; in between time passes, and Redis loses entries. It answers
every command.

A revocation of a family deletes the entry of the presented token only, so an entry of another token
of the family is left behind: `peekActive` still returns it.

* `Inv`: in every reachable state a cached record is a version of a row as it was inserted.
* `introspection_agrees_iff`: the runs in which introspection agrees with the table.
-/

namespace Workforce.Auth.RefreshTokenService

open Runs List

variable {Raw Hash : Type*} [DecidableEq Hash]

/-! ## The service -/

/-- The clock in milliseconds, the table, and Redis by hash. -/
structure State (Hash : Type*) where
  now : ℕ
  rows : List (RefreshToken Hash)
  redis : Expiring.Store Hash (RefreshToken Hash)

inductive TokenError
  | invalidGrant (message : String)
  | refreshTokenReused
  | tenantMismatch
  | uniqueViolation
  deriving DecidableEq

namespace State

variable (s : State Hash)

/-- `lookup`. -/
def lookup (tenantId : ℕ) (tokenHash : Hash) : Option (RefreshToken Hash) :=
  match s.redis.get s.now tokenHash with
  | some cached => some cached
  | none => findByTokenHash s.rows tenantId tokenHash

/-- The seconds that an entry lives, rounded up. -/
def ttlSeconds (expiresAt : ℤ) (now : ℕ) : ℕ := (max 1 (-((now - expiresAt) / 1000))).toNat

/-- `cache`. -/
def cache (record : RefreshToken Hash) (tokenHash : Hash) : State Hash :=
  { s with
    redis := s.redis.set tokenHash record (s.now + 1000 * ttlSeconds record.expiresAt s.now) }

/-- `redis.del`. -/
def evict (tokenHash : Hash) : State Hash := { s with redis := s.redis.del tokenHash }

/-- `revokeFamily` of the repository. -/
def revokeFamily (tenantId familyId : ℕ) (reason : String) : State Hash :=
  { s with rows := Auth.revokeFamily s.rows tenantId familyId reason }

end State

variable (hash : Raw → Hash) (s : State Hash)

/-- `issue`, with the family and the token that it draws. -/
def issue (contextTenantId tenantId : ℕ) (grant : Grant) (rawToken : Raw) (familyId id : ℕ) :
    State Hash × Except TokenError (Raw × RefreshToken Hash) :=
  if tenantId ≠ contextTenantId then (s, .error .tenantMismatch)
  else
    let record := newToken id tenantId familyId 1 grant (hash rawToken) s.now
    match insertToken s.rows record with
    | none => (s, .error .uniqueViolation)
    | some rows => ({ s with rows }.cache record (hash rawToken), .ok (rawToken, record))

/-- `rotate`, with the token that it draws. -/
def rotate (tenantId : ℕ) (presented newRawToken : Raw) (id : ℕ) :
    State Hash × Except TokenError (Raw × RefreshToken Hash) :=
  match s.lookup tenantId (hash presented) with
  | none => (s, .error (.invalidGrant "Refresh token is invalid."))
  | some current =>
    if current.tenantId ≠ tenantId then (s, .error (.invalidGrant "Refresh token is invalid."))
    else if current.expiresAt < s.now then
      (s, .error (.invalidGrant "Refresh token has expired."))
    else if current.status ≠ .active then
      ((s.revokeFamily tenantId current.familyId "reuse_detected").evict (hash presented),
        .error .refreshTokenReused)
    else
      match Auth.rotate s.rows current.id tenantId
          (nextToken current id (hash newRawToken) s.now) with
      | none => (s, .error .uniqueViolation)
      | some (rows, none) =>
        (({ s with rows }.evict (hash presented)).revokeFamily tenantId current.familyId
          "concurrent_rotation_conflict", .error .refreshTokenReused)
      | some (rows, some rotated) =>
        (({ s with rows }.evict (hash presented)).cache rotated (hash newRawToken),
          .ok (newRawToken, rotated))

/-- `peekActive`. -/
def peekActive (contextTenantId : ℕ) (rawToken : Raw) (tenantId : ℕ) :
    Option (RefreshToken Hash) :=
  match s.lookup contextTenantId (hash rawToken) with
  | none => none
  | some current =>
    if current.tenantId ≠ tenantId then none
    else if current.status ≠ .active ∨ current.expiresAt < s.now then none
    else some current

/-- `revokeByRawToken`. -/
def revokeByRawToken (tenantId : ℕ) (rawToken : Raw) (reason : String) : State Hash :=
  match s.lookup tenantId (hash rawToken) with
  | none => s
  | some current => (s.revokeFamily tenantId current.familyId reason).evict (hash rawToken)

/-- The hashes of the rows that `revokeAllForUser` revokes. -/
def revokedTokenHashes (tenantId userId : ℕ) : List Hash :=
  (s.rows.filter fun r => r.ofUser tenantId userId && r.status ≠ .revoked).map (·.tokenHash)

/-- `revokeAllSessionsForUser`. -/
def revokeAllSessionsForUser (tenantId userId : ℕ) (reason : String) : State Hash :=
  (revokedTokenHashes s tenantId userId).foldl State.evict
    { s with rows := revokeAllForUser s.rows tenantId userId reason }

inductive Action (Raw Hash : Type*)
  | tick (elapsed : ℕ)
  /-- Redis loses an entry. -/
  | evict (tokenHash : Hash)
  | issue (contextTenantId tenantId : ℕ) (grant : Grant) (rawToken : Raw) (familyId id : ℕ)
  | rotate (tenantId : ℕ) (presented newRawToken : Raw) (id : ℕ)
  | revokeByRawToken (tenantId : ℕ) (rawToken : Raw) (reason : String)
  | revokeAllSessionsForUser (tenantId userId : ℕ) (reason : String)

/-- A call of the service. What a call has changed before it throws stays. -/
def call : Action Raw Hash → State Hash
  | .tick elapsed => { s with now := s.now + elapsed }
  | .evict tokenHash => s.evict tokenHash
  | .issue contextTenantId tenantId grant rawToken familyId id =>
    (issue hash s contextTenantId tenantId grant rawToken familyId id).1
  | .rotate tenantId presented newRawToken id =>
    (rotate hash s tenantId presented newRawToken id).1
  | .revokeByRawToken tenantId rawToken reason => revokeByRawToken hash s tenantId rawToken reason
  | .revokeAllSessionsForUser tenantId userId reason =>
    revokeAllSessionsForUser s tenantId userId reason

/-- Every call ends. -/
def step (action : Action Raw Hash) : Option (State Hash) := some (call hash s action)

/-! ## What is claimed of introspection -/

/-- The row of the token is active and has not expired. -/
def State.Live (tokenHash : Hash) : Prop :=
  ∃ r ∈ s.rows, r.tokenHash = tokenHash ∧ r.status = .active ∧ s.now ≤ r.expiresAt

/-- Introspection returns a record only of a live token. -/
def Agrees : Prop :=
  ∀ contextTenantId rawToken tenantId record,
    peekActive hash s contextTenantId rawToken tenantId = some record → s.Live (hash rawToken)

/-- Another token of the family is live, and Redis has a record of it. -/
def State.SiblingCached (tenantId familyId : ℕ) (tokenHash : Hash) : Prop :=
  ∃ r ∈ s.rows, r.inFamily tenantId familyId ∧ r.tokenHash ≠ tokenHash ∧ r.status = .active ∧
    s.now ≤ r.expiresAt ∧ (s.redis.get s.now r.tokenHash).isSome

instance (tenantId familyId : ℕ) (tokenHash : Hash) :
    Decidable (s.SiblingCached tenantId familyId tokenHash) :=
  inferInstanceAs (Decidable (∃ r ∈ s.rows, _))

/-- A call that finds a token replayed, or revokes one, leaves no entry of its family behind. -/
def PurgesFamily : Action Raw Hash → Prop
  | .rotate tenantId presented _ _ => ∀ current ∈ s.lookup tenantId (hash presented),
      current.tenantId = tenantId → s.now ≤ current.expiresAt → current.status ≠ .active →
        ¬ s.SiblingCached tenantId current.familyId (hash presented)
  | .revokeByRawToken tenantId rawToken _ => ∀ current ∈ s.lookup tenantId (hash rawToken),
      ¬ s.SiblingCached tenantId current.familyId (hash rawToken)
  | _ => True

/-! ## What a call does -/

variable {hash s} {t : State Hash} {tenantId id : ℕ} {presented newRawToken : Raw}

theorem swaps_of_lost {rows rows' : List (RefreshToken Hash)} {presentedTokenId : ℕ}
    {next : RefreshToken Hash}
    (h : Auth.rotate rows presentedTokenId tenantId next = some (rows', none)) :
    ∀ r ∈ rows, r.swaps presentedTokenId tenantId = false := by
  obtain ⟨inserted, hinserted, h⟩ := Option.map_eq_some_iff.1 h
  obtain ⟨rfl, -, -⟩ := insertToken_eq_some hinserted
  split at h
  · cases h
  · rename_i hnone
    intro r hr
    rw [Bool.not_eq_true, any_eq_false] at hnone
    simpa using hnone r (mem_append_left _ hr)

/-- What `rotate` may have done. -/
inductive Rotation (hash : Raw → Hash) (s : State Hash) (tenantId : ℕ)
    (presented newRawToken : Raw) (id : ℕ) :
    State Hash × Except TokenError (Raw × RefreshToken Hash) → Prop
  | refused (e : TokenError)
      (hrefused : ∀ current, s.lookup tenantId (hash presented) = some current →
        current.tenantId = tenantId → s.now ≤ current.expiresAt → current.status = .active ∧
          insertToken s.rows (nextToken current id (hash newRawToken) s.now) = none) :
      Rotation hash s tenantId presented newRawToken id (s, .error e)
  | replayed {current : RefreshToken Hash}
      (hlookup : s.lookup tenantId (hash presented) = some current)
      (htenant : current.tenantId = tenantId) (htime : s.now ≤ current.expiresAt)
      (hstatus : current.status ≠ .active) :
      Rotation hash s tenantId presented newRawToken id
        ((s.revokeFamily tenantId current.familyId "reuse_detected").evict (hash presented),
          .error .refreshTokenReused)
  | lost {current next : RefreshToken Hash}
      (hlookup : s.lookup tenantId (hash presented) = some current)
      (htenant : current.tenantId = tenantId) (htime : s.now ≤ current.expiresAt)
      (hstatus : current.status = .active)
      (hnext : next = nextToken current id (hash newRawToken) s.now)
      (hfresh : Fresh s.rows next)
      (hlost : ∀ r ∈ s.rows, r.id = current.id → r.tenantId = tenantId → r.status ≠ .active) :
      Rotation hash s tenantId presented newRawToken id
        (({ s with rows := s.rows ++ [next] }.evict (hash presented)).revokeFamily tenantId
          current.familyId "concurrent_rotation_conflict", .error .refreshTokenReused)
  | won {current next : RefreshToken Hash}
      (hlookup : s.lookup tenantId (hash presented) = some current)
      (htenant : current.tenantId = tenantId) (htime : s.now ≤ current.expiresAt)
      (hstatus : current.status = .active)
      (hnext : next = nextToken current id (hash newRawToken) s.now)
      (hfresh : Fresh s.rows next) :
      Rotation hash s tenantId presented newRawToken id
        (({ s with rows := (s.rows ++ [next]).map (RefreshToken.swap current.id tenantId id)
          }.evict (hash presented)).cache next (hash newRawToken), .ok (newRawToken, next))

theorem rotate_cases (hash : Raw → Hash) (s : State Hash) (tenantId : ℕ)
    (presented newRawToken : Raw) (id : ℕ) :
    Rotation hash s tenantId presented newRawToken id
      (rotate hash s tenantId presented newRawToken id) := by
  unfold rotate
  split
  · rename_i hnone
    refine .refused _ fun current hlookup => ?_
    rw [hnone] at hlookup
    cases hlookup
  rename_i current hlookup
  split
  · rename_i htenant
    refine .refused _ fun current' hlookup' htenant' => ?_
    obtain rfl := Option.some.inj (hlookup.symm.trans hlookup')
    exact absurd htenant' htenant
  rename_i htenant
  split
  · rename_i htime
    refine .refused _ fun current' hlookup' _ htime' => ?_
    obtain rfl := Option.some.inj (hlookup.symm.trans hlookup')
    exact absurd htime (not_lt.2 htime')
  rename_i htime
  split
  · rename_i hstatus
    exact .replayed hlookup (not_not.1 htenant) (not_lt.1 htime) hstatus
  rename_i hstatus
  split
  · rename_i hnone
    refine .refused _ fun current' hlookup' _ _ => ?_
    obtain rfl := Option.some.inj (hlookup.symm.trans hlookup')
    exact ⟨not_not.1 hstatus, Option.map_eq_none_iff.1 hnone⟩
  · rename_i hrotate
    obtain ⟨hid, hhash, rfl⟩ := rotate_eq_some_none hrotate
    refine .lost hlookup (not_not.1 htenant) (not_lt.1 htime) (not_not.1 hstatus) rfl
      ⟨hid, hhash, rfl⟩ fun r hr hrid hrtenant hactive => ?_
    have hnone := swaps_of_lost hrotate r hr
    simp [RefreshToken.swaps, hrid, hrtenant, hactive] at hnone
  · rename_i hrotate
    obtain ⟨hid, hhash, rfl, rfl, -⟩ := rotate_eq_some_some hrotate
    exact .won hlookup (not_not.1 htenant) (not_lt.1 htime) (not_not.1 hstatus) rfl
      ⟨hid, hhash, rfl⟩

/-! ## What Redis holds -/

/-- The constraints of the table, and what Redis returns: a row as it was inserted. -/
structure Inv (hash : Raw → Hash) (s : State Hash) : Prop where
  ids : (s.rows.map (·.id)).Nodup
  hashes : (s.rows.map (·.tokenHash)).Nodup
  known : ∀ r ∈ s.rows, ∃ rawToken, hash rawToken = r.tokenHash
  cached : ∀ tokenHash record, s.redis.get s.now tokenHash = some record →
    record.tokenHash = tokenHash ∧ record.status = .active ∧
      ∃ r ∈ s.rows, record.SameToken r ∧ record.expiresAt = r.expiresAt

/-- Nothing that Redis returns has been rotated or revoked, until it expires. -/
def State.NoneStale (s : State Hash) : Prop :=
  ∀ r ∈ s.rows, (s.redis.get s.now r.tokenHash).isSome → s.now ≤ r.expiresAt → r.status = .active

section Lookup

variable {current : RefreshToken Hash} {tokenHash : Hash}

theorem lookup_cases (h : s.lookup tenantId tokenHash = some current) :
    s.redis.get s.now tokenHash = some current ∨
      current ∈ s.rows ∧ current.tokenHash = tokenHash ∧ current.tenantId = tenantId := by
  unfold State.lookup at h
  split at h
  · rename_i hget
    exact .inl (hget.trans h)
  · have hfound := find?_some h
    simp only [Bool.and_eq_true, decide_eq_true_eq] at hfound
    exact .inr ⟨mem_of_find?_eq_some h, hfound.1, hfound.2⟩

theorem Inv.lookup (hs : Inv hash s) (h : s.lookup tenantId tokenHash = some current) :
    ∃ r ∈ s.rows, current.SameToken r ∧ current.expiresAt = r.expiresAt ∧
      r.tokenHash = tokenHash := by
  rcases lookup_cases h with hcached | ⟨hmem, hhash, -⟩
  · obtain ⟨hhash, -, r, hr, hsame, hexpires⟩ := hs.cached _ _ hcached
    exact ⟨r, hr, hsame, hexpires, hsame.tokenHash.symm.trans hhash⟩
  · exact ⟨current, hmem, .refl current, rfl, hhash⟩

/-- With nothing stale in Redis, a record that is found active is that of a live token. -/
theorem Inv.live_of_lookup (hs : Inv hash s) (hfresh : s.NoneStale)
    (h : s.lookup tenantId tokenHash = some current) (hactive : current.status = .active)
    (htime : s.now ≤ current.expiresAt) :
    ∃ r ∈ s.rows, r.tokenHash = tokenHash ∧ current.SameToken r ∧ r.status = .active ∧
      s.now ≤ r.expiresAt := by
  rcases lookup_cases h with hcached | ⟨hmem, hhash, -⟩
  · obtain ⟨hhash, -, r, hr, hsame, hexpires⟩ := hs.cached _ _ hcached
    have hr' : r.tokenHash = tokenHash := hsame.tokenHash.symm.trans hhash
    rw [hexpires] at htime
    exact ⟨r, hr, hr', hsame, hfresh r hr (by rw [hr', hcached]; rfl) htime, htime⟩
  · exact ⟨current, hmem, hhash, .refl current, hactive, htime⟩

end Lookup

theorem Inv.agrees (hs : Inv hash s) (hfresh : s.NoneStale) : Agrees hash s := by
  intro contextTenantId rawToken tenantId record h
  unfold peekActive at h
  split at h
  · cases h
  rename_i current hlookup
  split at h
  · cases h
  split at h
  · cases h
  rename_i hlive
  obtain ⟨hactive, htime⟩ := not_or.1 hlive
  obtain ⟨r, hr, hhash, -, hactive', htime'⟩ := hs.live_of_lookup hfresh hlookup
    (not_not.1 hactive) (not_lt.1 htime)
  exact ⟨r, hr, hhash, hactive', htime'⟩

/-! ## One change of the table or of Redis -/

section Changes

omit [DecidableEq Hash] in
theorem Inv.forget (hs : Inv hash s) (hrows : t.rows = s.rows)
    (hget : ∀ tokenHash record, t.redis.get t.now tokenHash = some record →
      s.redis.get s.now tokenHash = some record) : Inv hash t where
  ids := hrows ▸ hs.ids
  hashes := hrows ▸ hs.hashes
  known := hrows ▸ hs.known
  cached := fun tokenHash record h => hrows ▸ hs.cached tokenHash record (hget tokenHash record h)

omit [DecidableEq Hash] in
theorem State.NoneStale.forget (hs : s.NoneStale) (hrows : t.rows = s.rows) (hnow : s.now ≤ t.now)
    (hget : ∀ tokenHash record, t.redis.get t.now tokenHash = some record →
      s.redis.get s.now tokenHash = some record) : t.NoneStale := by
  intro r hr hcached htime
  obtain ⟨record, hrecord⟩ := Option.isSome_iff_exists.1 hcached
  rw [hrows] at hr
  exact hs r hr (by rw [hget _ _ hrecord]; rfl) (le_trans (by exact_mod_cast hnow) htime)

variable {record : RefreshToken Hash}

theorem get_evict {tokenHash tokenHash' : Hash}
    (h : (s.evict tokenHash).redis.get (s.evict tokenHash).now tokenHash' = some record) :
    tokenHash' ≠ tokenHash ∧ s.redis.get s.now tokenHash' = some record :=
  Expiring.Store.get_del_eq_some_iff.1 h

theorem Inv.evict (hs : Inv hash s) (tokenHash : Hash) : Inv hash (s.evict tokenHash) :=
  hs.forget rfl fun _ _ h => (get_evict h).2

theorem State.NoneStale.evict (hs : s.NoneStale) (tokenHash : Hash) :
    (s.evict tokenHash).NoneStale :=
  hs.forget rfl le_rfl fun _ _ h => (get_evict h).2

omit [DecidableEq Hash] in
theorem Inv.update (hs : Inv hash s) {f : RefreshToken Hash → RefreshToken Hash} (hf : Weakens f)
    (hexpires : ∀ r, (f r).expiresAt = r.expiresAt) :
    Inv hash { s with rows := s.rows.map f } where
  ids := by
    rw [map_map]
    exact (map_congr_left fun r _ => (hf.same r).id) ▸ hs.ids
  hashes := by
    rw [map_map]
    exact (map_congr_left fun r _ => (hf.same r).tokenHash) ▸ hs.hashes
  known := by
    intro r hr
    obtain ⟨r₀, hr₀, rfl⟩ := mem_map.1 hr
    obtain ⟨rawToken, hraw⟩ := hs.known r₀ hr₀
    exact ⟨rawToken, hraw.trans (hf.same r₀).tokenHash.symm⟩
  cached := by
    intro tokenHash record h
    obtain ⟨hhash, hactive, r, hr, hsame, hexpires'⟩ := hs.cached tokenHash record h
    exact ⟨hhash, hactive, f r, mem_map_of_mem hr, hsame.trans (hf.same r).symm,
      hexpires'.trans (hexpires r).symm⟩

omit [DecidableEq Hash] in
theorem State.NoneStale.update (hs : s.NoneStale) {f : RefreshToken Hash → RefreshToken Hash}
    (hf : Weakens f) (hexpires : ∀ r, (f r).expiresAt = r.expiresAt)
    (hkeep : ∀ r ∈ s.rows, r.status = .active → s.now ≤ r.expiresAt →
      (s.redis.get s.now r.tokenHash).isSome → (f r).status = .active) :
    State.NoneStale { s with rows := s.rows.map f } := by
  intro r hr hcached htime
  obtain ⟨r₀, hr₀, rfl⟩ := mem_map.1 hr
  rw [(hf.same r₀).tokenHash] at hcached
  rw [hexpires] at htime
  exact hkeep r₀ hr₀ (hs r₀ hr₀ hcached htime) htime hcached

omit [DecidableEq Hash] in
theorem Inv.insert (hs : Inv hash s) {row : RefreshToken Hash} (hfresh : Fresh s.rows row)
    (rawToken : Raw) (hhash : row.tokenHash = hash rawToken) :
    Inv hash { s with rows := s.rows ++ [row] } where
  ids := Tables.nodup_append_singleton hs.ids fun r hr heq =>
    hfresh.id (heq ▸ mem_map_of_mem hr)
  hashes := Tables.nodup_append_singleton hs.hashes fun r hr heq =>
    hfresh.tokenHash (heq ▸ mem_map_of_mem hr)
  known := by
    intro r hr
    rcases Tables.mem_concat.1 hr with hold | rfl
    · exact hs.known r hold
    · exact ⟨rawToken, hhash.symm⟩
  cached := by
    intro tokenHash record h
    obtain ⟨hhash, hactive, r, hr, hsame⟩ := hs.cached tokenHash record h
    exact ⟨hhash, hactive, r, mem_append_left _ hr, hsame⟩

omit [DecidableEq Hash] in
theorem State.NoneStale.insert (hs : s.NoneStale) {row : RefreshToken Hash}
    (hactive : row.status = .active) : State.NoneStale { s with rows := s.rows ++ [row] } := by
  intro r hr hcached htime
  rcases Tables.mem_concat.1 hr with hold | rfl
  · exact hs r hold hcached htime
  · exact hactive

theorem Inv.cache (hs : Inv hash s) (hmem : record ∈ s.rows) (hactive : record.status = .active) :
    Inv hash (s.cache record record.tokenHash) where
  ids := hs.ids
  hashes := hs.hashes
  known := hs.known
  cached := by
    intro tokenHash record' h
    by_cases heq : tokenHash = record.tokenHash
    · subst heq
      obtain ⟨expiresAt, hentry, -⟩ := Expiring.Store.get_eq_some_iff.1 h
      obtain ⟨rfl, -⟩ : record = record' ∧ _ := by
        simpa using (Expiring.Store.set_same record _).symm.trans hentry
      exact ⟨rfl, hactive, record, hmem, .refl record, rfl⟩
    · exact hs.cached tokenHash record' ((Expiring.Store.get_set_of_ne heq _ _).symm.trans h)

theorem State.NoneStale.cache (hs : s.NoneStale) (hhashes : (s.rows.map (·.tokenHash)).Nodup)
    (hmem : record ∈ s.rows) (hactive : record.status = .active) :
    (s.cache record record.tokenHash).NoneStale := by
  intro r hr hcached htime
  by_cases heq : r.tokenHash = record.tokenHash
  · exact Tables.eq_of_key_eq hhashes hr hmem heq ▸ hactive
  · exact hs r hr ((Expiring.Store.get_set_of_ne heq _ _) ▸ hcached) htime

end Changes

/-! ## What a call keeps -/

section Calls

omit [DecidableEq Hash] in
theorem revoke_expiresAt (reason : String) (selected : RefreshToken Hash → Bool)
    (r : RefreshToken Hash) : (r.revoke reason selected).expiresAt = r.expiresAt := by
  unfold RefreshToken.revoke
  split <;> rfl

omit [DecidableEq Hash] in
theorem revoke_of_not_selected {reason : String} {selected : RefreshToken Hash → Bool}
    {r : RefreshToken Hash} (h : selected r = false) : r.revoke reason selected = r := by
  simp [RefreshToken.revoke, h]

omit [DecidableEq Hash] in
theorem swap_expiresAt (presentedTokenId tenantId newTokenId : ℕ) (r : RefreshToken Hash) :
    (r.swap presentedTokenId tenantId newTokenId).expiresAt = r.expiresAt := by
  unfold RefreshToken.swap
  split <;> rfl

omit [DecidableEq Hash] in
theorem swap_of_ne {presentedTokenId newTokenId : ℕ} {r : RefreshToken Hash}
    (h : r.id ≠ presentedTokenId) : r.swap presentedTokenId tenantId newTokenId = r := by
  simp [RefreshToken.swap, RefreshToken.swaps, h]

variable {familyId : ℕ} {tokenHash : Hash} {reason : String} {current next : RefreshToken Hash}

omit [DecidableEq Hash] in
theorem Inv.revokeFamily (hs : Inv hash s) : Inv hash (s.revokeFamily tenantId familyId reason) :=
  hs.update (weakens_revoke _ _) (revoke_expiresAt _ _)

/-- A family is revoked, and Redis has no record of its live tokens but that of one hash, which is
deleted. -/
theorem State.NoneStale.purge (hs : s.NoneStale)
    (hsibling : ¬ s.SiblingCached tenantId familyId tokenHash) :
    ((s.revokeFamily tenantId familyId reason).evict tokenHash).NoneStale := by
  refine (hs.evict tokenHash).update (weakens_revoke _ _) (revoke_expiresAt _ _) ?_
  intro r hr hactive htime hcached
  obtain ⟨record, hrecord⟩ := Option.isSome_iff_exists.1 hcached
  obtain ⟨hne, hrecord⟩ := get_evict hrecord
  have hother : r.inFamily tenantId familyId = false := by
    refine Bool.eq_false_iff.2 fun hfamily => hsibling ?_
    exact ⟨r, hr, hfamily, hne, hactive, htime, by rw [hrecord]; rfl⟩
  rw [revoke_of_not_selected hother]
  exact hactive

theorem Inv.id_ne_of_lookup (hs : Inv hash s)
    (hlookup : s.lookup tenantId tokenHash = some current) (hfresh : Fresh s.rows next) :
    next.id ≠ current.id := by
  obtain ⟨r, hr, hsame, -⟩ := hs.lookup hlookup
  intro heq
  exact hfresh.id (heq.trans hsame.id ▸ mem_map_of_mem hr)

theorem Inv.mem_swapped (hs : Inv hash s)
    (hlookup : s.lookup tenantId tokenHash = some current) (hfresh : Fresh s.rows next) (id : ℕ) :
    next ∈ (s.rows ++ [next]).map (RefreshToken.swap current.id tenantId id) := by
  refine mem_map.2 ⟨next, mem_concat_self, ?_⟩
  exact swap_of_ne (hs.id_ne_of_lookup hlookup hfresh)

theorem Inv.rotate (hs : Inv hash s) : Inv hash (rotate hash s tenantId presented newRawToken id).1
    := by
  generalize hresult : RefreshTokenService.rotate hash s tenantId presented newRawToken id = result
  have hcases := rotate_cases hash s tenantId presented newRawToken id
  rw [hresult] at hcases
  cases hcases with
  | refused => exact hs
  | replayed => exact hs.revokeFamily.evict _
  | lost hlookup htenant htime hstatus hnext hfresh hlost =>
    subst hnext
    exact ((hs.insert hfresh newRawToken rfl).evict _).revokeFamily
  | @won current next hlookup htenant htime hstatus hnext hfresh =>
    subst hnext
    have hswapped := (((hs.insert hfresh newRawToken rfl).update
      (weakens_swap current.id tenantId id) (swap_expiresAt current.id tenantId id)).evict
      (hash presented))
    exact hswapped.cache (hs.mem_swapped hlookup hfresh id) rfl

/-- A rotation leaves nothing stale behind, unless it finds a replay. -/
theorem State.NoneStale.rotate (hstale : s.NoneStale) (hs : Inv hash s)
    (hok : PurgesFamily hash s (.rotate tenantId presented newRawToken id)) :
    (rotate hash s tenantId presented newRawToken id).1.NoneStale := by
  generalize hresult : RefreshTokenService.rotate hash s tenantId presented newRawToken id = result
  have hcases := rotate_cases hash s tenantId presented newRawToken id
  rw [hresult] at hcases
  cases hcases with
  | refused => exact hstale
  | @replayed current hlookup htenant htime hstatus =>
    exact hstale.purge (hok current hlookup htenant htime hstatus)
  | @lost current next hlookup htenant htime hstatus hnext hfresh hlost =>
    obtain ⟨r, hr, -, hsame, hactive, -⟩ := hs.live_of_lookup hstale hlookup hstatus htime
    exact absurd hactive (hlost r hr hsame.id.symm (hsame.tenantId.symm.trans htenant))
  | @won current next hlookup htenant htime hstatus hnext hfresh =>
    have hinserted : Inv hash { s with rows := s.rows ++ [next] } :=
      hs.insert hfresh newRawToken (by rw [hnext]; rfl)
    have hnext' : next.status = .active := hfresh.active
    have hmem := hs.mem_swapped hlookup hfresh id
    obtain ⟨r₀, hr₀, hsame, -, hhash⟩ := hs.lookup hlookup
    have hswapped := ((hstale.insert hnext').evict (hash presented)).update
      (weakens_swap current.id tenantId id) (swap_expiresAt _ tenantId id) ?_
    · have hcached := hswapped.cache ((hinserted.update (weakens_swap _ tenantId id)
        (swap_expiresAt _ tenantId id)).hashes) hmem hnext'
      have hhash' : next.tokenHash = hash newRawToken := by rw [hnext]; rfl
      rw [hhash'] at hcached
      exact hcached
    · -- The row that is swapped has the presented token, whose entry is gone.
      intro r hr hactive htime hcached
      obtain ⟨record, hrecord⟩ := Option.isSome_iff_exists.1 hcached
      obtain ⟨hne, -⟩ := get_evict hrecord
      have hother : r.id ≠ current.id := by
        intro hid
        obtain rfl := Tables.eq_of_key_eq hinserted.ids hr (mem_append_left _ hr₀)
          (hid.trans hsame.id)
        exact hne hhash
      rw [swap_of_ne hother]
      exact hactive

theorem insertToken_fresh {rows : List (RefreshToken Hash)}
    (h : insertToken s.rows next = some rows) (hactive : next.status = .active) :
    rows = s.rows ++ [next] ∧ Fresh s.rows next := by
  obtain ⟨rfl, hid, hhash⟩ := insertToken_eq_some h
  exact ⟨rfl, hid, hhash, hactive⟩

theorem Inv.issue (hs : Inv hash s) {contextTenantId : ℕ} {grant : Grant} {rawToken : Raw} :
    Inv hash (issue hash s contextTenantId tenantId grant rawToken familyId id).1 ∧
      (s.NoneStale → (RefreshTokenService.issue hash s contextTenantId tenantId grant rawToken
        familyId id).1.NoneStale) := by
  unfold RefreshTokenService.issue
  split
  · exact ⟨hs, fun h => h⟩
  simp only
  split
  · exact ⟨hs, fun h => h⟩
  · rename_i rows hinsert
    obtain ⟨rfl, hfresh⟩ := insertToken_fresh hinsert rfl
    have hinserted := hs.insert hfresh rawToken rfl
    have hmem := mem_append_right s.rows (mem_singleton_self
      (newToken id tenantId familyId 1 grant (hash rawToken) s.now))
    exact ⟨hinserted.cache hmem rfl, fun h => (h.insert rfl).cache hinserted.hashes hmem rfl⟩

theorem Inv.revokeByRawToken (hs : Inv hash s) {rawToken : Raw} :
    Inv hash (revokeByRawToken hash s tenantId rawToken reason) := by
  unfold RefreshTokenService.revokeByRawToken
  split
  · exact hs
  · exact hs.revokeFamily.evict _

theorem State.NoneStale.revokeByRawToken {rawToken : Raw} (hstale : s.NoneStale)
    (hok : PurgesFamily hash s (.revokeByRawToken tenantId rawToken reason)) :
    (revokeByRawToken hash s tenantId rawToken reason).NoneStale := by
  unfold RefreshTokenService.revokeByRawToken
  split
  · exact hstale
  · rename_i current hlookup
    exact hstale.purge (hok current hlookup)

theorem foldl_evict (hashes : List Hash) (s : State Hash) :
    (hashes.foldl State.evict s).rows = s.rows ∧ (hashes.foldl State.evict s).now = s.now ∧
      ∀ tokenHash record,
        (hashes.foldl State.evict s).redis.get s.now tokenHash = some record →
          tokenHash ∉ hashes ∧ s.redis.get s.now tokenHash = some record := by
  induction hashes generalizing s with
  | nil => exact ⟨rfl, rfl, fun _ _ h => ⟨not_mem_nil, h⟩⟩
  | cons tokenHash hashes ih =>
    obtain ⟨hrows, hnow, hget⟩ := ih (s.evict tokenHash)
    refine ⟨hrows, hnow, fun tokenHash' record h => ?_⟩
    obtain ⟨hnot, h⟩ := hget tokenHash' record h
    obtain ⟨hne, h⟩ := get_evict h
    exact ⟨fun hmem => (mem_cons.1 hmem).elim hne hnot, h⟩

section RevokeAll

variable {userId : ℕ}

theorem Inv.revokeAllSessionsForUser (hs : Inv hash s) :
    Inv hash (revokeAllSessionsForUser s tenantId userId reason) := by
  have hrevoked : Inv hash { s with rows := revokeAllForUser s.rows tenantId userId reason } :=
    hs.update (weakens_revoke _ _) (revoke_expiresAt _ _)
  obtain ⟨hrows, hnow, hget⟩ := foldl_evict (revokedTokenHashes s tenantId userId)
    { s with rows := revokeAllForUser s.rows tenantId userId reason }
  refine hrevoked.forget hrows fun tokenHash record h => ?_
  rw [RefreshTokenService.revokeAllSessionsForUser, hnow] at h
  exact (hget tokenHash record h).2

theorem State.NoneStale.revokeAllSessionsForUser (hstale : s.NoneStale) :
    (revokeAllSessionsForUser s tenantId userId reason).NoneStale := by
  obtain ⟨hrows, hnow, hget⟩ := foldl_evict (revokedTokenHashes s tenantId userId)
    { s with rows := revokeAllForUser s.rows tenantId userId reason }
  intro r hr hcached htime
  rw [RefreshTokenService.revokeAllSessionsForUser] at hr hcached htime
  rw [hrows] at hr
  rw [hnow] at hcached htime
  obtain ⟨r₀, hr₀, rfl⟩ := mem_map.1 hr
  rw [((weakens_revoke _ _).same r₀).tokenHash] at hcached
  rw [revoke_expiresAt] at htime
  obtain ⟨record, hrecord⟩ := Option.isSome_iff_exists.1 hcached
  obtain ⟨hnot, hrecord⟩ := hget _ _ hrecord
  have hactive : r₀.status = .active := hstale r₀ hr₀ (by rw [hrecord]; rfl) htime
  have hother : r₀.ofUser tenantId userId = false := by
    refine Bool.eq_false_iff.2 fun huser => hnot ?_
    refine mem_map_of_mem (mem_filter.2 ⟨hr₀, ?_⟩)
    simp [huser, hactive]
  rw [revoke_of_not_selected hother]
  exact hactive

end RevokeAll

end Calls

/-! ## Every call -/

variable {action : Action Raw Hash}

theorem Inv.step (hs : Inv hash s) (h : step hash s action = some t) : Inv hash t := by
  cases h
  cases action with
  | tick elapsed =>
    exact hs.forget rfl fun _ _ => Expiring.Store.get_of_le (Nat.le_add_right s.now elapsed)
  | evict tokenHash => exact hs.evict tokenHash
  | issue contextTenantId tenantId grant rawToken familyId id => exact hs.issue.1
  | rotate tenantId presented newRawToken id => exact hs.rotate
  | revokeByRawToken tenantId rawToken reason => exact hs.revokeByRawToken
  | revokeAllSessionsForUser tenantId userId reason => exact hs.revokeAllSessionsForUser

theorem State.NoneStale.step (hstale : s.NoneStale) (hs : Inv hash s)
    (hok : PurgesFamily hash s action) (h : step hash s action = some t) : t.NoneStale := by
  cases h
  cases action with
  | tick elapsed =>
    exact hstale.forget rfl (Nat.le_add_right s.now elapsed) fun _ _ =>
      Expiring.Store.get_of_le (Nat.le_add_right s.now elapsed)
  | evict tokenHash => exact hstale.evict tokenHash
  | issue contextTenantId tenantId grant rawToken familyId id => exact hs.issue.2 hstale
  | rotate tenantId presented newRawToken id => exact hstale.rotate hs hok
  | revokeByRawToken tenantId rawToken reason => exact hstale.revokeByRawToken hok
  | revokeAllSessionsForUser tenantId userId reason => exact hstale.revokeAllSessionsForUser

/-- After the revocation of a family, introspection still returns what Redis has of it. -/
theorem not_agrees_of_sibling (hs : Inv hash s) {familyId : ℕ} {tokenHash : Hash} {reason : String}
    (hsibling : s.SiblingCached tenantId familyId tokenHash) :
    ¬ Agrees hash ((s.revokeFamily tenantId familyId reason).evict tokenHash) := by
  obtain ⟨r, hr, hfamily, hne, hactive, htime, hcached⟩ := hsibling
  obtain ⟨record, hrecord⟩ := Option.isSome_iff_exists.1 hcached
  obtain ⟨hhash, hcachedActive, r', hr', hsame, hexpires⟩ := hs.cached _ _ hrecord
  obtain rfl := Tables.eq_of_key_eq hs.hashes hr' hr (hsame.tokenHash.symm.trans hhash)
  obtain ⟨rawToken, hraw⟩ := hs.known r' hr
  intro hagrees
  have hpeek : peekActive hash ((s.revokeFamily tenantId familyId reason).evict tokenHash)
      record.tenantId rawToken record.tenantId = some record := by
    have hget : ((s.revokeFamily tenantId familyId reason).evict tokenHash).redis.get s.now
        (hash rawToken) = some record :=
      Expiring.Store.get_del_eq_some_iff.2 ⟨hraw ▸ hne, hraw ▸ hrecord⟩
    have hunexpired : ¬ record.expiresAt < s.now := not_lt.2 (hexpires ▸ htime)
    simp only [peekActive, State.lookup, State.evict, State.revokeFamily] at hget ⊢
    simp [hget, hcachedActive, hunexpired]
  obtain ⟨q, hq, hqhash, hqactive, -⟩ := hagrees _ _ _ _ hpeek
  obtain ⟨q₀, hq₀, rfl⟩ := mem_map.1 hq
  rw [((weakens_revoke _ _).same q₀).tokenHash] at hqhash
  obtain rfl := Tables.eq_of_key_eq hs.hashes hq₀ hr (hqhash.trans hraw)
  simp [RefreshToken.revoke, hfamily, hactive] at hqactive

/-- A call that leaves an entry of a revoked family behind makes introspection wrong. -/
theorem not_agrees_of_step (hs : Inv hash s) (hno : ¬ PurgesFamily hash s action)
    (h : step hash s action = some t) :
    ¬ Agrees hash t := by
  cases h
  cases action with
  | tick elapsed => exact absurd trivial hno
  | evict tokenHash => exact absurd trivial hno
  | issue contextTenantId tenantId grant rawToken familyId id => exact absurd trivial hno
  | revokeAllSessionsForUser tenantId userId reason => exact absurd trivial hno
  | rotate tenantId presented newRawToken id =>
    simp only [PurgesFamily, Option.mem_def, not_forall, not_not] at hno
    obtain ⟨current, hlookup, htenant, htime, hstatus, hsibling⟩ := hno
    have hreplay : (rotate hash s tenantId presented newRawToken id).1 =
        (s.revokeFamily tenantId current.familyId "reuse_detected").evict (hash presented) := by
      simp [rotate, hlookup, htenant, not_lt.2 htime, hstatus]
    rw [call, hreplay]
    exact not_agrees_of_sibling hs hsibling
  | revokeByRawToken tenantId rawToken reason =>
    simp only [PurgesFamily, Option.mem_def, not_forall, not_not] at hno
    obtain ⟨current, hlookup, hsibling⟩ := hno
    have hrevoke : revokeByRawToken hash s tenantId rawToken reason =
        (s.revokeFamily tenantId current.familyId reason).evict (hash rawToken) := by
      simp [revokeByRawToken, hlookup]
    rw [call, hrevoke]
    exact not_agrees_of_sibling hs hsibling

/-- Nothing has been issued. -/
def State.init (now : ℕ) : State Hash := ⟨now, [], Expiring.Store.empty⟩

omit [DecidableEq Hash] in
theorem inv_init (now : ℕ) : Inv hash (State.init now : State Hash) where
  ids := nodup_nil
  hashes := nodup_nil
  known := fun _ hr => by cases hr
  cached := fun _ _ h => by cases h

theorem exists_exec_step (hash : Raw → Hash) (actions : List (Action Raw Hash)) (s : State Hash) :
    ∃ t, exec (step hash) s actions = some t := by
  induction actions generalizing s with
  | nil => exact ⟨s, rfl⟩
  | cons action actions ih =>
    obtain ⟨t, ht⟩ := ih (call hash s action)
    exact ⟨t, exec_cons_eq_some.2 ⟨call hash s action, rfl, ht⟩⟩

/-- In every reachable state, what Redis returns is a row as it was inserted. -/
theorem inv_exec {now : ℕ} {actions : List (Action Raw Hash)}
    (h : exec (step hash) (State.init now) actions = some s) : Inv hash s :=
  exec_keeps (Inv hash) (fun _ _ _ hs => hs.step) (inv_init now) h

/-- **Introspection**: it agrees with the table throughout a run exactly when no call that finds a
token replayed, or revokes one, leaves an entry of another live token of the family behind. -/
theorem introspection_agrees_iff (hash : Raw → Hash) (now : ℕ) (actions : List (Action Raw Hash)) :
    Always (step hash) (Agrees hash) (State.init now) actions ↔
      Runs.Meets (step hash) (PurgesFamily hash) (State.init now) actions := by
  obtain ⟨t, ht⟩ := exists_exec_step hash actions (State.init now)
  have hinit : Inv hash (State.init now : State Hash) ∧ (State.init now : State Hash).NoneStale :=
    ⟨inv_init now, fun r hr => by cases hr⟩
  exact always_iff_meets (I := fun s => Inv hash s ∧ s.NoneStale) (fun s h => h.1.agrees h.2)
    (fun s action t h hok hstep => ⟨h.1.step hstep, h.2.step h.1 hok hstep⟩)
    (fun s action t h hno hstep => not_agrees_of_step h.1 hno hstep) hinit ht

/-- A token is issued and rotated, and then presented again. -/
def replayRun : List (Action ℕ ℕ) :=
  [.issue 7 7 ⟨5, 6, ["pwd"], 0, "openid"⟩ 101 1 1, .tick 60000, .rotate 7 101 102 2, .tick 60000,
    .rotate 7 101 103 3]

/-- The family is revoked; the token that replaced the presented one is still returned. -/
theorem replay_leaves_entry :
    ¬ Always (step Nat.succ) (Agrees Nat.succ) (State.init 0) replayRun := by
  intro h
  have hlast : ((exec (step Nat.succ) (State.init 0) replayRun).any fun s =>
      (peekActive Nat.succ s 7 102 7).isSome &&
        s.rows.all fun r => decide (r.status = .revoked)) = true := by decide +kernel
  obtain ⟨s, hexec, hlast⟩ := (Option.any_eq_true _ _).1 hlast
  obtain ⟨hpeek, hrevoked⟩ := Bool.and_eq_true_iff.1 hlast
  obtain ⟨record, hpeek⟩ := Option.isSome_iff_exists.1 hpeek
  obtain ⟨r, hr, -, hactive, -⟩ := h replayRun s prefix_rfl hexec 7 102 7 record hpeek
  have hstatus := all_eq_true.1 hrevoked r hr
  rw [hactive] at hstatus
  cases hstatus

end Workforce.Auth.RefreshTokenService
