import Workforce.Foundations.Runs
import Workforce.Foundations.Tables
import Mathlib.Data.Fintype.EquivFin

/-!
# Signing keys and access tokens

`signing-key.service.ts`, `signing-keys.repository.ts` and `token.service.ts`: an access token is
signed by the active key, a rotation retires that key, and a retired key verifies for a grace
period. The lifetime of a token is the session timeout of the tenant.

The system has three kinds of steps: a rotation, a change of the security policy, and time passing.
Times are in milliseconds, and the claims of a token in seconds.

* `Offered`: what becomes of the key of a token in the runs after its issue.
* `rotation_keeps_live_tokens_iff`: the timeouts for which no rotation breaks a live token.
-/

namespace Workforce.Auth.Signing

open Tables List

/-! ## Keys -/

inductive SigningKeyStatus
  | active | retired
  deriving DecidableEq

structure SigningKey (PublicKey PrivateKey : Type*) where
  kid : ℕ
  algorithm : String
  publicKeyPem : PublicKey
  privateKeyPem : PrivateKey
  status : SigningKeyStatus
  retiredAt : Option ℤ

/-- `RETIRED_KEY_GRACE_PERIOD_MS`. -/
def retiredKeyGracePeriodMs : ℤ := 30 * 60 * 1000

/-- `ACCESS_TOKEN_TTL_SECONDS`. -/
def accessTokenTtlSeconds : ℕ := 720

structure AccessTokenClaims where
  iss : String
  sub : String
  aud : String
  tenantId : ℕ
  orgUnitId : Option ℕ
  roles : List String
  permissions : List String
  amr : List String
  authTime : ℤ
  jti : String
  exp : ℤ
  iat : ℤ
  deriving DecidableEq

/-- The protected header, without its constant `typ`. A missing or empty `kid` is `none`. -/
structure Header where
  alg : String
  kid : Option ℕ
  deriving DecidableEq

structure Token (Signature : Type*) where
  header : Header
  payload : AccessTokenClaims
  signature : Signature

/-- Key generation and signatures, as `node:crypto` and `jose` provide them: a pair of keys verifies
what it signs. -/
structure Crypto (Seed PublicKey PrivateKey Signature : Type*) where
  publicKey : Seed → PublicKey
  privateKey : Seed → PrivateKey
  sign : PrivateKey → Header → AccessTokenClaims → Signature
  verify : PublicKey → Header → AccessTokenClaims → Signature → Bool
  verify_sign : ∀ seed header payload,
    verify (publicKey seed) header payload (sign (privateKey seed) header payload) = true

variable {Seed PublicKey PrivateKey Signature : Type*}
  (crypto : Crypto Seed PublicKey PrivateKey Signature)

/-- `buildKey`. -/
def buildKey (kid : ℕ) (seed : Seed) : SigningKey PublicKey PrivateKey :=
  { kid := kid
    algorithm := "RS256"
    publicKeyPem := crypto.publicKey seed
    privateKeyPem := crypto.privateKey seed
    status := .active
    retiredAt := none }

namespace SigningKey

variable (key : SigningKey PublicKey PrivateKey)

/-- A key after the `UPDATE` of a rotation. -/
def retire (now : ℤ) : SigningKey PublicKey PrivateKey :=
  if key.status = .active then
    { key with
      status := .retired
      retiredAt := some now }
  else key

/-- The test of `resolveVerificationKey`. -/
def verifiable (now : ℤ) : Bool :=
  key.status = .active ||
    key.status = .retired &&
      match key.retiredAt with
      | none => false
      | some retiredAt => now - retiredAt < retiredKeyGracePeriodMs

end SigningKey

/-! ## The repository and the services -/

section Keys

variable (keys : List (SigningKey PublicKey PrivateKey))

def findActive : Option (SigningKey PublicKey PrivateKey) := keys.find? (·.status = .active)

def findByKid (kid : ℕ) : Option (SigningKey PublicKey PrivateKey) := lookup (·.kid) kid keys

/-- The active key, and those retired after an instant. -/
def findVerifiable (retiredSinceAfter : ℤ) : List (SigningKey PublicKey PrivateKey) :=
  (findActive keys).toList ++ keys.filter fun key =>
    key.status = .retired && key.retiredAt.any (retiredSinceAfter < ·)

/-- `rotate` of the repository. -/
def rotate (newKey : SigningKey PublicKey PrivateKey) (now : ℤ) :
    List (SigningKey PublicKey PrivateKey) :=
  keys.map (·.retire now) ++ [newKey]

/-- `resolveVerificationKey`. -/
def resolveVerificationKey (kid : ℕ) (now : ℤ) : Option PublicKey :=
  match findByKid keys kid with
  | none => none
  | some key => if key.verifiable now then some key.publicKeyPem else none

/-- `getJwks`: the ids and the public keys that are offered. -/
def getJwks (now : ℤ) : List (ℕ × PublicKey) :=
  (findVerifiable keys (now - retiredKeyGracePeriodMs)).map fun key => (key.kid, key.publicKeyPem)

end Keys

/-- `OIDC_ISSUER` and `OIDC_AUDIENCE`. -/
structure Config where
  issuer : String
  audience : String

structure IssueAccessTokenInput where
  userId : String
  tenantId : ℕ
  orgUnitId : Option ℕ
  roles : List String
  permissions : List String
  amr : List String
  authTime : ℤ
  ttlSeconds : Option ℕ

/-- The claims that are signed. -/
def IssueAccessTokenInput.claims (input : IssueAccessTokenInput) (config : Config) (jti : String)
    (now : ℤ) : AccessTokenClaims :=
  { iss := config.issuer
    sub := input.userId
    aud := config.audience
    tenantId := input.tenantId
    orgUnitId := input.orgUnitId
    roles := input.roles
    permissions := input.permissions
    amr := input.amr
    authTime := input.authTime / 1000
    jti := jti
    exp := now / 1000 + input.ttlSeconds.getD accessTokenTtlSeconds
    iat := now / 1000 }

/-- `issueAccessToken`; without an active key it throws. -/
def issueAccessToken (config : Config) (keys : List (SigningKey PublicKey PrivateKey))
    (input : IssueAccessTokenInput) (jti : String) (now : ℤ) : Option (Token Signature) :=
  (findActive keys).map fun active =>
    let header : Header := ⟨active.algorithm, some active.kid⟩
    let claims := input.claims config jti now
    ⟨header, claims, crypto.sign active.privateKeyPem header claims⟩

/-- Why `verifyAccessToken` rejects a token. -/
inductive InvalidGrant
  | missingKid
  | unknownKey (kid : ℕ)
  | badSignature
  | unexpectedIssuer
  | unexpectedAudience
  | expired
  deriving DecidableEq

/-- `verifyAccessToken`: `jwtVerify` resolves the key and checks the signature, and then the
claims. -/
def verifyAccessToken (config : Config) (keys : List (SigningKey PublicKey PrivateKey))
    (token : Token Signature) (now : ℤ) : Except InvalidGrant AccessTokenClaims :=
  match token.header.kid with
  | none => .error .missingKid
  | some kid =>
    match resolveVerificationKey keys kid now with
    | none => .error (.unknownKey kid)
    | some key =>
      if !crypto.verify key token.header token.payload token.signature then .error .badSignature
      else if token.payload.iss ≠ config.issuer then .error .unexpectedIssuer
      else if token.payload.aud ≠ config.audience then .error .unexpectedAudience
      else if token.payload.exp ≤ now / 1000 then .error .expired
      else .ok token.payload

/-! ## The session timeout -/

/-- The default of `session_timeout_minutes`. -/
def defaultSessionTimeoutMinutes : ℕ := 60

/-- The validation of `sessionTimeoutMinutes` in `UpdateSecurityPolicyDto`. -/
def validSessionTimeout (minutes : ℕ) : Bool := 5 ≤ minutes && minutes ≤ 1440

/-- The session timeout that `updateSecurityPolicy` leaves, if it accepts: what is sent is valid,
and the value in force is within the ceiling of the platform, if there is one. -/
def updateSessionTimeout (ceiling sent : Option ℕ) (current : ℕ) : Option ℕ :=
  if sent.all validSessionTimeout && ceiling.all (sent.getD current ≤ ·) then
    some (sent.getD current)
  else none

/-- `sessionTtlSeconds`. -/
def sessionTtlSeconds (sessionTimeoutMinutes : ℕ) : ℕ := sessionTimeoutMinutes * 60

/-! ## Steps -/

structure State (PublicKey PrivateKey : Type*) where
  clock : ℤ
  keys : List (SigningKey PublicKey PrivateKey)
  sessionTimeoutMinutes : ℕ

inductive Action (Seed : Type*)
  | tick (d : ℕ)
  | rotate (kid : ℕ) (seed : Seed)
  | updateSecurityPolicy (ceiling sent : Option ℕ)

/-- The key that `onModuleInit` makes, and the default policy. -/
def State.init (clock : ℤ) (kid : ℕ) (seed : Seed) : State PublicKey PrivateKey :=
  ⟨clock, [buildKey crypto kid seed], defaultSessionTimeoutMinutes⟩

/-- One step. The ids of keys are random, so a new one is not in use. -/
def step (s : State PublicKey PrivateKey) : Action Seed → Option (State PublicKey PrivateKey)
  | .tick d => some { s with clock := s.clock + d }
  | .rotate kid seed =>
    if kid ∈ s.keys.map (·.kid) then none
    else some { s with keys := rotate s.keys (buildKey crypto kid seed) s.clock }
  | .updateSecurityPolicy ceiling sent =>
    (updateSessionTimeout ceiling sent s.sessionTimeoutMinutes).map fun minutes =>
      { s with sessionTimeoutMinutes := minutes }

/-- The token is live: it has not expired. -/
def Token.live (token : Token Signature) (now : ℤ) : Prop := now < token.payload.exp * 1000

/-- A user's token: its lifetime is the session timeout in force. -/
def userToken (config : Config) (s : State PublicKey PrivateKey) (input : IssueAccessTokenInput)
    (jti : String) : Option (Token Signature) :=
  issueAccessToken crypto config s.keys
    { input with ttlSeconds := some (sessionTtlSeconds s.sessionTimeoutMinutes) } jti s.clock

/-- A client's token, without a lifetime of its own. -/
def machineToken (config : Config) (s : State PublicKey PrivateKey) (input : IssueAccessTokenInput)
    (jti : String) : Option (Token Signature) :=
  issueAccessToken crypto config s.keys { input with ttlSeconds := none } jti s.clock

/-- The token verifies, and its key is among those that are offered. -/
def Verifies (config : Config) (s : State PublicKey PrivateKey) (token : Token Signature) : Prop :=
  verifyAccessToken crypto config s.keys token s.clock = .ok token.payload ∧
    ∃ kid ∈ token.header.kid, kid ∈ (getJwks s.keys s.clock).map (·.1)

/-- No schedule of rotations from a state on breaks the token while it is live. -/
def SurvivesRotations (config : Config) (s : State PublicKey PrivateKey) (token : Token Signature) :
    Prop :=
  ∀ as t, Runs.exec (step crypto) s as = some t → token.live t.clock →
    Verifies crypto config t token

/-! ## The key of a token -/

/-- The keys of a state: the last is active, those before it are retired, no id is used twice, and
every key is a pair. -/
structure Inv (s : State PublicKey PrivateKey) : Prop where
  kids : (s.keys.map (·.kid)).Nodup
  active : ∃ retired active, s.keys = retired ++ [active] ∧ active.status = .active ∧
    ∀ key ∈ retired, key.status = .retired
  pairs : ∀ key ∈ s.keys, ∃ seed, key.publicKeyPem = crypto.publicKey seed ∧
    key.privateKeyPem = crypto.privateKey seed

/-- What becomes of a key: it is there, active, or retired no earlier than `issued`. -/
def Offered (issued : ℤ) (key : SigningKey PublicKey PrivateKey) (s : State PublicKey PrivateKey) :
    Prop :=
  issued ≤ s.clock ∧ ∃ key' ∈ s.keys, key'.kid = key.kid ∧ key'.publicKeyPem = key.publicKeyPem ∧
    (key'.status = .active ∨
      key'.status = .retired ∧ ∃ retiredAt ∈ key'.retiredAt, issued ≤ retiredAt)

variable {crypto} {s t : State PublicKey PrivateKey} {a : Action Seed}

@[simp] theorem SigningKey.retire_kid (key : SigningKey PublicKey PrivateKey) (now : ℤ) :
    (key.retire now).kid = key.kid := by
  rw [retire]
  split <;> rfl

theorem SigningKey.retire_status (key : SigningKey PublicKey PrivateKey) (now : ℤ) :
    (key.retire now).status = .retired := by
  rw [retire]
  split
  · rfl
  · cases h : key.status with
    | active => contradiction
    | retired => rfl

@[simp] theorem SigningKey.retire_publicKeyPem (key : SigningKey PublicKey PrivateKey) (now : ℤ) :
    (key.retire now).publicKeyPem = key.publicKeyPem := by
  rw [retire]
  split <;> rfl

@[simp] theorem SigningKey.retire_privateKeyPem (key : SigningKey PublicKey PrivateKey) (now : ℤ) :
    (key.retire now).privateKeyPem = key.privateKeyPem := by
  rw [retire]
  split <;> rfl

theorem inv_init (clock : ℤ) (kid : ℕ) (seed : Seed) : Inv crypto (State.init crypto clock kid seed)
    where
  kids := nodup_singleton _
  active := ⟨[], _, rfl, rfl, fun _ h => by cases h⟩
  pairs := fun key hkey => by
    obtain rfl := mem_singleton.1 hkey
    exact ⟨seed, rfl, rfl⟩

theorem inv_rotate (hs : Inv crypto s) {kid : ℕ} (hkid : kid ∉ s.keys.map (·.kid)) (seed : Seed) :
    Inv crypto { s with keys := rotate s.keys (buildKey crypto kid seed) s.clock } where
  kids := by
    have hkids : (s.keys.map (·.retire s.clock)).map (·.kid) = s.keys.map (·.kid) := by
      simp [map_map, Function.comp_def]
    refine nodup_append_singleton (hkids ▸ hs.kids) fun key hkey heq => hkid ?_
    rw [← hkids, ← (show key.kid = kid from heq)]
    exact mem_map_of_mem hkey
  active := ⟨_, _, rfl, rfl, fun key hkey => by
    obtain ⟨key₀, -, rfl⟩ := mem_map.1 hkey
    exact key₀.retire_status s.clock⟩
  pairs := fun key hkey => by
    rcases Tables.mem_concat.1 hkey with hkey | rfl
    · obtain ⟨key₀, hkey₀, rfl⟩ := mem_map.1 hkey
      obtain ⟨seed₀, hpublic, hprivate⟩ := hs.pairs key₀ hkey₀
      exact ⟨seed₀, by simp [hpublic], by simp [hprivate]⟩
    · exact ⟨seed, rfl, rfl⟩

theorem step_cases (h : step crypto s a = some t) :
    (∃ d : ℕ, t = { s with clock := s.clock + d }) ∨
    (∃ kid seed, kid ∉ s.keys.map (·.kid) ∧
      t = { s with keys := rotate s.keys (buildKey crypto kid seed) s.clock }) ∨
    ∃ minutes, t = { s with sessionTimeoutMinutes := minutes } := by
  cases a with
  | tick d => exact .inl ⟨d, (Option.some.inj h).symm⟩
  | rotate kid seed =>
    simp only [step] at h
    split at h
    · cases h
    · rename_i hkid
      exact .inr (.inl ⟨kid, seed, hkid, (Option.some.inj h).symm⟩)
  | updateSecurityPolicy ceiling sent =>
    obtain ⟨minutes, -, rfl⟩ := Option.map_eq_some_iff.1 h
    exact .inr (.inr ⟨minutes, rfl⟩)

theorem inv_step (hs : Inv crypto s) (h : step crypto s a = some t) : Inv crypto t := by
  obtain ⟨d, rfl⟩ | ⟨kid, seed, hkid, rfl⟩ | ⟨minutes, rfl⟩ := step_cases h
  · exact ⟨hs.kids, hs.active, hs.pairs⟩
  · exact inv_rotate hs hkid seed
  · exact ⟨hs.kids, hs.active, hs.pairs⟩

variable {key : SigningKey PublicKey PrivateKey}

theorem offered_step {issued : ℤ} (hs : Offered issued key s) (h : step crypto s a = some t) :
    Offered issued key t := by
  obtain ⟨hclock, key', hmem, hkid, hpublic, hstatus⟩ := hs
  obtain ⟨d, rfl⟩ | ⟨kid, seed, -, rfl⟩ | ⟨minutes, rfl⟩ := step_cases h
  · refine ⟨?_, key', hmem, hkid, hpublic, hstatus⟩
    change issued ≤ s.clock + d
    omega
  · refine ⟨hclock, key'.retire s.clock, mem_append_left _ (mem_map_of_mem hmem),
      by simpa using hkid, by simpa using hpublic, .inr ⟨key'.retire_status _, ?_⟩⟩
    rcases hstatus with hactive | ⟨hretired, retiredAt, hat, hle⟩
    · exact ⟨s.clock, by rw [SigningKey.retire, if_pos hactive]; rfl, hclock⟩
    · refine ⟨retiredAt, ?_, hle⟩
      rwa [SigningKey.retire, if_neg (by rw [hretired]; nofun)]
  · exact ⟨hclock, key', hmem, hkid, hpublic, hstatus⟩

theorem offered_exec {issued : ℤ} {as : List (Action Seed)} (hs : Offered issued key s)
    (h : Runs.exec (step crypto) s as = some t) :
    Offered issued key t :=
  Runs.exec_keeps (Offered issued key) (fun _ _ _ => offered_step) hs h

theorem inv_exec {as : List (Action Seed)} (hs : Inv crypto s)
    (h : Runs.exec (step crypto) s as = some t) : Inv crypto t :=
  Runs.exec_keeps (Inv crypto) (fun _ _ _ => inv_step) hs h

theorem Inv.findActive (hs : Inv crypto s) :
    ∃ active, findActive s.keys = some active ∧ active ∈ s.keys ∧ active.status = .active ∧
      ∀ key ∈ s.keys, key.status = .active → key = active := by
  obtain ⟨retired, active, hkeys, hactive, hretired⟩ := hs.active
  have hnone : retired.find? (·.status = .active) = none := by
    rw [find?_eq_none]
    intro key hkey
    simp [hretired key hkey]
  refine ⟨active, ?_, by simp [hkeys], hactive, fun key hkey hstatus => ?_⟩
  · rw [Signing.findActive, hkeys, find?_append, hnone]
    simp [hactive]
  · rw [hkeys, mem_append, mem_singleton] at hkey
    rcases hkey with hkey | rfl
    · rw [hretired key hkey] at hstatus
      cases hstatus
    · rfl

theorem Inv.resolveVerificationKey (hs : Inv crypto s) (hkey : key ∈ s.keys)
    (hv : key.verifiable s.clock) :
    resolveVerificationKey s.keys key.kid s.clock = some key.publicKeyPem := by
  rw [Signing.resolveVerificationKey, findByKid, lookup_eq_some hs.kids hkey]
  exact if_pos hv

theorem Inv.mem_getJwks (hs : Inv crypto s) (hkey : key ∈ s.keys) (hv : key.verifiable s.clock) :
    key.kid ∈ (getJwks s.keys s.clock).map (·.1) := by
  obtain ⟨active, hfind, -, -, honly⟩ := hs.findActive
  rw [getJwks, map_map]
  refine mem_map.2 ⟨key, ?_, rfl⟩
  rw [findVerifiable, hfind, mem_append]
  by_cases hactive : key.status = .active
  · rw [honly key hkey hactive]
    exact .inl (mem_singleton.2 rfl)
  · rw [SigningKey.verifiable, decide_eq_false hactive, Bool.false_or, Bool.and_eq_true] at hv
    refine .inr (mem_filter.2 ⟨hkey, ?_⟩)
    rw [Bool.and_eq_true]
    refine ⟨hv.1, ?_⟩
    cases hat : key.retiredAt with
    | none => simp [hat] at hv
    | some retiredAt =>
      have hgrace : s.clock - retiredAt < retiredKeyGracePeriodMs := by simpa [hat] using hv.2
      rw [Option.any_some, decide_eq_true_eq]
      omega

/-! ## Which tokens survive -/

variable {config : Config} {token : Token Signature} {input : IssueAccessTokenInput} {jti : String}

theorem Inv.issue (hs : Inv crypto s) (config : Config) (input : IssueAccessTokenInput)
    (jti : String) :
    ∃ active seed, active ∈ s.keys ∧ active.status = .active ∧
      active.publicKeyPem = crypto.publicKey seed ∧
      issueAccessToken crypto config s.keys input jti s.clock = some
        ⟨⟨active.algorithm, some active.kid⟩, input.claims config jti s.clock,
          crypto.sign (crypto.privateKey seed) ⟨active.algorithm, some active.kid⟩
            (input.claims config jti s.clock)⟩ := by
  obtain ⟨active, hfind, hmem, hactive, -⟩ := hs.findActive
  obtain ⟨seed, hpublic, hprivate⟩ := hs.pairs active hmem
  refine ⟨active, seed, hmem, hactive, hpublic, ?_⟩
  rw [issueAccessToken, hfind, Option.map_some, hprivate]

/-- Within the grace period of any rotation after its issue, a live token verifies. -/
theorem verifies_of_offered {active : SigningKey PublicKey PrivateKey} {seed : Seed} {issued : ℤ}
    (ht : Inv crypto t) (hoffered : Offered issued active t)
    (hpublic : active.publicKeyPem = crypto.publicKey seed)
    (hgrace : t.clock - issued < retiredKeyGracePeriodMs)
    (hlive : t.clock < (input.claims config jti issued).exp * 1000) :
    Verifies crypto config t
      ⟨⟨active.algorithm, some active.kid⟩, input.claims config jti issued,
        crypto.sign (crypto.privateKey seed) ⟨active.algorithm, some active.kid⟩
          (input.claims config jti issued)⟩ := by
  obtain ⟨-, key, hmem, hkid, hpublic', hstatus⟩ := hoffered
  have hv : key.verifiable t.clock := by
    rcases hstatus with hactive | ⟨hretired, retiredAt, hat, hle⟩
    · simp [SigningKey.verifiable, hactive]
    · have hat : key.retiredAt = some retiredAt := hat
      simp only [SigningKey.verifiable, hretired, hat, reduceCtorEq, decide_false, Bool.false_or,
        decide_true, Bool.true_and, decide_eq_true_eq]
      omega
  have hresolve := ht.resolveVerificationKey hmem hv
  have hsigned : crypto.verify key.publicKeyPem ⟨active.algorithm, some active.kid⟩
      (input.claims config jti issued) (crypto.sign (crypto.privateKey seed)
        ⟨active.algorithm, some active.kid⟩ (input.claims config jti issued)) = true := by
    rw [hpublic', hpublic]
    exact crypto.verify_sign ..
  have hexp : ¬ (input.claims config jti issued).exp ≤ t.clock / 1000 := by omega
  refine ⟨?_, active.kid, rfl, hkid ▸ ht.mem_getJwks hmem hv⟩
  simp only [verifyAccessToken, ← hkid, hresolve]
  have hiss : ¬ (input.claims config jti issued).iss ≠ config.issuer := not_not.2 rfl
  have haud : ¬ (input.claims config jti issued).aud ≠ config.audience := not_not.2 rfl
  rw [hkid, hsigned, if_neg (by decide), if_neg hiss, if_neg haud, if_neg hexp]

/-- After a rotation right after the issue, a token is rejected from the end of the grace period
on. -/
theorem not_verifies_of_late (hs : Inv crypto s) {active : SigningKey PublicKey PrivateKey}
    (hmem : active ∈ s.keys) (hactive : active.status = .active) (config : Config)
    (token : Token Signature) (hkid : token.header.kid = some active.kid) :
    ∃ as t, Runs.exec (step crypto) s as = some t ∧
      t.clock = s.clock + retiredKeyGracePeriodMs ∧ ¬ Verifies crypto config t token := by
  obtain ⟨kid, hfresh⟩ := Infinite.exists_notMem_finset (s.keys.map (·.kid)).toFinset
  rw [mem_toFinset] at hfresh
  obtain ⟨seed, -, -⟩ := hs.pairs active hmem
  have hrotated := inv_rotate hs hfresh seed
  refine ⟨[.rotate kid seed, .tick (30 * 60 * 1000)],
    { s with
      clock := s.clock + (30 * 60 * 1000 : ℕ)
      keys := rotate s.keys (buildKey crypto kid seed) s.clock }, ?_, rfl, ?_⟩
  · exact Runs.exec_cons_eq_some.2 ⟨_, if_neg hfresh, Runs.exec_cons_eq_some.2 ⟨_, rfl, rfl⟩⟩
  · rintro ⟨hverifies, -⟩
    have hretired : active.retire s.clock ∈
        rotate s.keys (buildKey crypto kid seed) s.clock :=
      mem_append_left _ (mem_map_of_mem hmem)
    have hlookup : lookup (·.kid) active.kid
        (rotate s.keys (buildKey crypto kid seed) s.clock) = some (active.retire s.clock) := by
      have h := lookup_eq_some hrotated.kids hretired
      rwa [SigningKey.retire_kid] at h
    have hover : (active.retire s.clock).verifiable (s.clock + (30 * 60 * 1000 : ℕ)) = false := by
      simp [SigningKey.verifiable, SigningKey.retire, hactive, retiredKeyGracePeriodMs]
    have hnone : resolveVerificationKey (rotate s.keys (buildKey crypto kid seed) s.clock)
        active.kid (s.clock + (30 * 60 * 1000 : ℕ)) = none := by
      simp only [resolveVerificationKey, findByKid, hlookup, hover]
      rfl
    simp only [verifyAccessToken, hkid, hnone] at hverifies
    cases hverifies

/-- The lifetimes for which a token survives every schedule of rotations. -/
theorem survivesRotations_iff (hs : Inv crypto s)
    (hissue : issueAccessToken crypto config s.keys input jti s.clock = some token) :
    SurvivesRotations crypto config s token ↔
      input.ttlSeconds.getD accessTokenTtlSeconds ≤ 30 * 60 := by
  obtain ⟨active, seed, hmem, hactive, hpublic, hissue'⟩ := hs.issue config input jti
  have htoken := Option.some.inj (hissue'.symm.trans hissue)
  have hkid : token.header.kid = some active.kid := htoken ▸ rfl
  have hexp : token.payload.exp =
      s.clock / 1000 + input.ttlSeconds.getD accessTokenTtlSeconds := htoken ▸ rfl
  constructor
  · intro h
    by_contra hlong
    obtain ⟨as, t, hexec, hclock, hno⟩ := not_verifies_of_late hs hmem hactive config token hkid
    refine hno (h as t hexec ?_)
    rw [Token.live, hclock, hexp, retiredKeyGracePeriodMs]
    omega
  · intro hshort as t hexec hlive
    rw [Token.live, hexp] at hlive
    rw [← htoken]
    refine verifies_of_offered (inv_exec hs hexec) (offered_exec ?_ hexec) hpublic ?_ hlive
    · exact ⟨le_rfl, active, hmem, rfl, rfl, .inl hactive⟩
    · rw [retiredKeyGracePeriodMs]
      omega

/-- **Key rotation and live tokens.** In every state that changes of the policy, rotations and time
lead to, a token can be issued. That of a user survives every schedule of rotations exactly when the
session timeout in force is at most thirty minutes; that of a client always does. -/
theorem rotation_keeps_live_tokens_iff {clock : ℤ} {kid : ℕ} {seed : Seed} {as : List (Action Seed)}
    (h : Runs.exec (step crypto) (State.init crypto clock kid seed) as = some s) (config : Config)
    (input : IssueAccessTokenInput) (jti : String) :
    (∃ token, userToken crypto config s input jti = some token ∧
      (SurvivesRotations crypto config s token ↔ s.sessionTimeoutMinutes ≤ 30)) ∧
    ∃ token, machineToken crypto config s input jti = some token ∧
      SurvivesRotations crypto config s token := by
  have hs : Inv crypto s := inv_exec (inv_init clock kid seed) h
  constructor
  · obtain ⟨active, seed, -, -, -, hissue⟩ := hs.issue config
      { input with ttlSeconds := some (sessionTtlSeconds s.sessionTimeoutMinutes) } jti
    refine ⟨_, hissue, (survivesRotations_iff hs hissue).trans ?_⟩
    change s.sessionTimeoutMinutes * 60 ≤ 30 * 60 ↔ _
    omega
  · obtain ⟨active, seed, -, -, -, hissue⟩ := hs.issue config { input with ttlSeconds := none } jti
    refine ⟨_, hissue, (survivesRotations_iff hs hissue).2 ?_⟩
    change accessTokenTtlSeconds ≤ 30 * 60
    decide

/-! ## A broken token -/

/-- A signature repeats the seed of the pair and what it signs. -/
def transparentCrypto : Crypto ℕ ℕ ℕ (ℕ × Header × AccessTokenClaims) where
  publicKey := id
  privateKey := id
  sign := fun key header payload => (key, header, payload)
  verify := fun key header payload signature => signature = (key, header, payload)
  verify_sign := fun _ _ _ => decide_eq_true rfl

def localConfig : Config := ⟨"https://auth.agno-wfm.local", "agno-core-api"⟩

def aliceLogin : IssueAccessTokenInput :=
  { userId := "alice"
    tenantId := 1
    orgUnitId := none
    roles := []
    permissions := []
    amr := ["pwd"]
    authTime := 0
    ttlSeconds := none }

/-- Under a timeout of half an hour the token survives. -/
theorem half_hour_session_survives :
    ∃ s token, Runs.exec (step transparentCrypto) (State.init transparentCrypto 0 1 10)
        [.updateSecurityPolicy none (some 30)] = some s ∧
      userToken transparentCrypto localConfig s aliceLogin "jti" = some token ∧
      SurvivesRotations transparentCrypto localConfig s token := by
  have hrun : Runs.exec (step transparentCrypto) (State.init transparentCrypto 0 1 10)
      [.updateSecurityPolicy none (some 30)] = some ⟨0, [buildKey transparentCrypto 1 10], 30⟩ :=
    rfl
  obtain ⟨⟨token, hissue, hiff⟩, -⟩ :=
    rotation_keeps_live_tokens_iff hrun localConfig aliceLogin "jti"
  exact ⟨_, token, hrun, hissue, hiff.2 (by decide)⟩

/-- Under the default policy, a token whose key is rotated right after its issue is rejected after
half an hour, and has another half hour to live. -/
theorem default_session_broken :
    ∃ token t, userToken transparentCrypto localConfig (State.init transparentCrypto 0 1 10)
        aliceLogin "jti" = some token ∧
      Runs.exec (step transparentCrypto) (State.init transparentCrypto 0 1 10)
        [.rotate 2 20, .tick (30 * 60 * 1000)] = some t ∧
      t.clock + 30 * 60 * 1000 = token.payload.exp * 1000 ∧
      verifyAccessToken transparentCrypto localConfig t.keys token t.clock =
        .error (.unknownKey 1) ∧
      1 ∉ (getJwks t.keys t.clock).map (·.1) := by
  refine ⟨_, _, rfl, rfl, ?_, ?_, ?_⟩ <;> decide

end Workforce.Auth.Signing
