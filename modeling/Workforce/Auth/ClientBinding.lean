import Workforce.Auth.Introspection

/-!
# Clients and their refresh tokens

`oauth.controller.ts`: the refresh grant of `POST /oauth/token` and `POST /oauth/revoke`, over
`RefreshTokenService`. A client authenticates, and its request runs in its own tenant. The refresh
grant rotates the presented token first and compares its client afterwards; `revoke` does not
compare clients. So a client reaches the tokens of the other clients of its tenant.

* `OwnOnly`: a request touches no family of another client.
* `serve_ownOnly_iff`: the requests that do not.
-/

namespace Workforce.Auth.RefreshTokenService

open Runs List

/-! ## Clients -/

inductive OAuthGrantType
  | authorizationCode | refreshToken | clientCredentials
  deriving DecidableEq

def OAuthGrantType.value : OAuthGrantType → String
  | authorizationCode => "authorization_code"
  | refreshToken => "refresh_token"
  | clientCredentials => "client_credentials"

inductive OAuthClientType
  | confidential | publicClient
  deriving DecidableEq

/-- A row of `oauth_clients`. -/
structure OAuthClient where
  id : ℕ
  tenantId : ℕ
  clientId : String
  clientSecretHash : Option String
  clientType : OAuthClientType
  allowedGrantTypes : List OAuthGrantType
  isActive : Bool
  deriving DecidableEq

structure ClientCredentials where
  clientId : String
  clientSecret : Option String

inductive OAuthError
  | invalidRequest (message : String)
  | invalidClient (message : String)
  | unauthorizedClient (message : String)
  | refreshToken (e : TokenError)
  /-- No access token could be issued. -/
  | accessToken
  deriving DecidableEq

/-- What a request needs besides the refresh tokens: the clients, `PasswordHasherService.verify`,
and the access token that is issued for a refreshed token, with its time to live. -/
structure Environment (Hash : Type*) where
  clients : List OAuthClient
  verify : String → String → Bool
  issueAccessToken : RefreshToken Hash → Option (String × ℕ)

section Requests

variable {Raw Hash : Type*} [DecidableEq Hash] (env : Environment Hash)

/-- A value that is there and not empty. -/
def truthy (text : Option String) : Option String := text.filter (· ≠ "")

/-- `authenticate`. -/
def authenticate (clientId : String) (clientSecret : Option String) :
    Except OAuthError OAuthClient :=
  match Tables.lookup (·.clientId) clientId env.clients with
  | none => .error (.invalidClient "Client authentication failed.")
  | some client =>
    if ¬ client.isActive then .error (.invalidClient "Client authentication failed.")
    else
      match client.clientType with
      | .publicClient => .ok client
      | .confidential =>
        match truthy clientSecret, truthy client.clientSecretHash with
        | some secret, some secretHash =>
          if env.verify secret secretHash then .ok client
          else .error (.invalidClient "Client authentication failed.")
        | _, _ => .error (.invalidClient "Confidential clients must present a client_secret.")

/-- `assertGrantTypeAllowed`. -/
def assertGrantTypeAllowed (client : OAuthClient) (grantType : OAuthGrantType) :
    Except OAuthError Unit :=
  if grantType ∈ client.allowedGrantTypes then .ok ()
  else .error (.unauthorizedClient ("Client " ++ client.clientId ++
    " is not authorized for grant_type " ++ grantType.value ++ "."))

/-! ## The two endpoints -/

/-- The response of the refresh grant. -/
structure TokenResponse (Raw : Type*) where
  accessToken : String
  expiresIn : ℕ
  refreshToken : Raw
  refreshTokenExpiresIn : ℤ
  scope : String

variable (hash : Raw → Hash) (s : State Hash)

/-- The refresh grant, once the client is authenticated and allowed it. -/
def refreshAs (client : OAuthClient) (refreshToken newRawToken : Raw) (id : ℕ) :
    State Hash × Except OAuthError (TokenResponse Raw) :=
  match rotate hash s client.tenantId refreshToken newRawToken id with
  | (s', .error e) => (s', .error (.refreshToken e))
  | (s', .ok (rawToken, record)) =>
    if record.grant.clientId ≠ client.id then
      (s', .error (.unauthorizedClient "Refresh token was not issued to this client."))
    else
      match env.issueAccessToken record with
      | none => (s', .error .accessToken)
      | some (accessToken, expiresIn) =>
        (s', .ok
          { accessToken, expiresIn, refreshToken := rawToken
            refreshTokenExpiresIn := refreshTokenTtlDays * 24 * 60 * 60
            scope := record.grant.scope })

/-- `handleRefreshTokenGrant`, with what the rotation draws. An absent token is an empty one. -/
def handleRefreshTokenGrant (creds : ClientCredentials) (refreshToken : Option Raw)
    (newRawToken : Raw) (id : ℕ) : State Hash × Except OAuthError (TokenResponse Raw) :=
  match refreshToken with
  | none => (s, .error (.invalidRequest "refresh_token and client_id are required."))
  | some refreshToken =>
    if creds.clientId = "" then
      (s, .error (.invalidRequest "refresh_token and client_id are required."))
    else
      match authenticate env creds.clientId creds.clientSecret with
      | .error e => (s, .error e)
      | .ok client =>
        match assertGrantTypeAllowed client .refreshToken with
        | .error e => (s, .error e)
        | .ok () => refreshAs env hash s client refreshToken newRawToken id

inductive TokenTypeHint
  | refreshToken | accessToken
  deriving DecidableEq

/-- `revoke`, without what it does to access tokens. -/
def revoke (creds : ClientCredentials) (token : Raw) (tokenTypeHint : Option TokenTypeHint) :
    State Hash × Except OAuthError Unit :=
  if creds.clientId = "" then (s, .error (.invalidRequest "client_id is required."))
  else
    match authenticate env creds.clientId creds.clientSecret with
    | .error e => (s, .error e)
    | .ok client =>
      if tokenTypeHint ≠ some .accessToken then
        (revokeByRawToken hash s client.tenantId token "client_requested_revocation", .ok ())
      else (s, .ok ())

inductive Request (Raw : Type*)
  | token (refreshToken : Option Raw) (newRawToken : Raw) (id : ℕ)
  | revoke (token : Raw) (tokenTypeHint : Option TokenTypeHint)

/-- The state after a request, and the refresh token that it returns. -/
def serve (creds : ClientCredentials) : Request Raw → State Hash × Option Raw
  | .token refreshToken newRawToken id =>
    let (s', result) := handleRefreshTokenGrant env hash s creds refreshToken newRawToken id
    (s', result.toOption.map (·.refreshToken))
  | .revoke token tokenTypeHint => ((revoke env hash s creds token tokenTypeHint).1, none)

/-! ## Whose tokens a request touches -/

/-- The family was issued to the client. -/
def State.IssuedTo (tenantId familyId clientId : ℕ) : Prop :=
  (∃ r ∈ s.rows, r.inFamily tenantId familyId) ∧
    ∀ r ∈ s.rows, r.inFamily tenantId familyId → r.grant.clientId = clientId

/-- A request of the client, with the state after it and the token it returns, leaves the rows of
every family issued to another client as they are, and returns no token of it. -/
def OwnOnly (clientId : ℕ) (s' : State Hash) (refreshToken : Option Raw) : Prop :=
  ∀ tenantId familyId issuedTo, s.IssuedTo tenantId familyId issuedTo → issuedTo ≠ clientId →
    s'.rows.filter (·.inFamily tenantId familyId) = s.rows.filter (·.inFamily tenantId familyId) ∧
      ∀ rawToken ∈ refreshToken, ∀ r ∈ s'.rows, r.tokenHash = hash rawToken →
        ¬ r.inFamily tenantId familyId

/-- The family was issued to a client other than this one. -/
def State.Foreign (client : OAuthClient) (familyId : ℕ) : Prop :=
  ∃ issuedTo ≠ client.id, s.IssuedTo client.tenantId familyId issuedTo

/-- A row of the family is not revoked yet. -/
def State.Revocable (client : OAuthClient) (familyId : ℕ) : Prop :=
  ∃ r ∈ s.rows, r.inFamily client.tenantId familyId ∧ r.status ≠ .revoked

/-- The token belongs to another client of the tenant, and presenting it for rotation inserts the
next generation, or as a replay revokes a row. -/
def RotatesForeign (client : OAuthClient) (presented newRawToken : Raw) (id : ℕ) : Prop :=
  ∃ current ∈ s.lookup client.tenantId (hash presented),
    current.tenantId = client.tenantId ∧ s.now ≤ current.expiresAt ∧
      s.Foreign client current.familyId ∧
        (current.status = .active →
          (insertToken s.rows (nextToken current id (hash newRawToken) s.now)).isSome) ∧
        (current.status ≠ .active → s.Revocable client current.familyId)

/-- The token belongs to another client of the tenant, and its family has a row to revoke. -/
def RevokesForeign (client : OAuthClient) (token : Raw) : Prop :=
  ∃ current ∈ s.lookup client.tenantId (hash token),
    s.Foreign client current.familyId ∧ s.Revocable client current.familyId

/-- The request of the client gets as far as a token of another client. -/
def ReachesForeign (creds : ClientCredentials) (client : OAuthClient) : Request Raw → Prop
  | .token none _ _ => False
  | .token (some refreshToken) newRawToken id =>
    creds.clientId ≠ "" ∧ .refreshToken ∈ client.allowedGrantTypes ∧
      RotatesForeign hash s client refreshToken newRawToken id
  | .revoke token tokenTypeHint =>
    creds.clientId ≠ "" ∧ tokenTypeHint ≠ some .accessToken ∧ RevokesForeign hash s client token

/-! ## What a revocation and a rotation change -/

section Changes

variable {s} {s' : State Hash} {hash} {client : OAuthClient} {familyId tenantId : ℕ}

omit [DecidableEq Hash] in
theorem inFamily_weakens {f : RefreshToken Hash → RefreshToken Hash} (hf : Weakens f)
    (r : RefreshToken Hash) : (f r).inFamily tenantId familyId = r.inFamily tenantId familyId := by
  rw [RefreshToken.inFamily, (hf.same r).tenantId, (hf.same r).familyId, RefreshToken.inFamily]

omit [DecidableEq Hash] in
theorem inFamily_iff {r : RefreshToken Hash} :
    r.inFamily tenantId familyId = true ↔ r.tenantId = tenantId ∧ r.familyId = familyId := by
  simp [RefreshToken.inFamily]

variable {reason : String}

omit [DecidableEq Hash] in
theorem revoke_eq_self_iff {selected : RefreshToken Hash → Bool} {r : RefreshToken Hash} :
    r.revoke reason selected = r ↔ (selected r = true → r.status = .revoked) := by
  unfold RefreshToken.revoke
  split
  · rename_i h
    obtain ⟨hselected, hstatus⟩ := Bool.and_eq_true_iff.1 h
    refine iff_of_false (fun heq => ?_) fun h => ?_
    · have hrevoked := congrArg RefreshToken.status heq
      simp [← hrevoked] at hstatus
    · simp [h hselected] at hstatus
  · rename_i h
    simpa using h

omit [DecidableEq Hash] in
theorem revokeFamily_ownOnly_iff
    (hrows : s'.rows = Auth.revokeFamily s.rows client.tenantId familyId reason) :
    OwnOnly hash s client.id s' none ↔ ¬ (s.Foreign client familyId ∧ s.Revocable client familyId)
    := by
  have hrevoke : Weakens (RefreshToken.revoke reason
      (RefreshToken.inFamily client.tenantId familyId) : RefreshToken Hash → RefreshToken Hash) :=
    weakens_revoke ..
  constructor
  · rintro hown ⟨⟨issuedTo, hne, hissued⟩, r, hr, hfamily, hstatus⟩
    have hsame := (hown _ _ issuedTo hissued hne).1
    rw [hrows, Auth.revokeFamily,
      Tables.filter_map_eq_filter_iff fun r _ => inFamily_weakens hrevoke r] at hsame
    exact hstatus (revoke_eq_self_iff.1 (hsame r hr hfamily) hfamily)
  · intro hno tenantId' familyId' issuedTo hissued hne
    refine ⟨?_, fun _ h => by cases h⟩
    rw [hrows, Auth.revokeFamily,
      Tables.filter_map_eq_filter_iff fun r _ => inFamily_weakens hrevoke r]
    intro r hr hfamily
    refine revoke_eq_self_iff.2 fun hselected => ?_
    obtain ⟨rfl, rfl⟩ := inFamily_iff.1 hfamily
    obtain ⟨htenant, rfl⟩ := inFamily_iff.1 hselected
    by_contra hstatus
    rw [htenant] at hissued
    exact hno ⟨⟨issuedTo, hne, hissued⟩, r, hr, hselected, hstatus⟩

section Insert

variable {current next : RefreshToken Hash} {tokenHash : Hash}

omit [DecidableEq Hash] in
/-- A row is inserted into the family of the presented token, and no other family is changed. -/
theorem insert_ownOnly_iff (hs : Inv hash s) (hfresh : Fresh s.rows next) {newRawToken : Raw}
    (hhash : next.tokenHash = hash newRawToken)
    (hnext : next.inFamily client.tenantId familyId = true)
    {g : RefreshToken Hash → RefreshToken Hash} (hg : Weakens g)
    (hfix : ∀ r ∈ s.rows ++ [next], r.inFamily client.tenantId familyId = false → g r = r)
    (hrows : s'.rows = (s.rows ++ [next]).map g) {refreshToken : Option Raw}
    (htoken : ∀ rawToken ∈ refreshToken, rawToken = newRawToken) :
    OwnOnly hash s client.id s' refreshToken ↔ ¬ s.Foreign client familyId := by
  have hgroup (tenantId' familyId' : ℕ) (r : RefreshToken Hash) :
      (g r).inFamily tenantId' familyId' = r.inFamily tenantId' familyId' := inFamily_weakens hg r
  constructor
  · rintro hown ⟨issuedTo, hne, hissued⟩
    have hsame := congrArg length (hown _ _ issuedTo hissued hne).1
    rw [hrows, filter_map, length_map] at hsame
    simp [Function.comp_def, hgroup, hnext] at hsame
  · intro hno tenantId' familyId' issuedTo hissued hne
    -- The families of the other clients are other families.
    have hother : ∀ r : RefreshToken Hash, r.inFamily tenantId' familyId' = true →
        r.inFamily client.tenantId familyId = false := by
      intro r hr
      refine Bool.eq_false_iff.2 fun hr' => hno ?_
      obtain ⟨rfl, rfl⟩ := inFamily_iff.1 hr
      obtain ⟨htenant, rfl⟩ := inFamily_iff.1 hr'
      rw [htenant] at hissued
      exact ⟨issuedTo, hne, hissued⟩
    have hnext' : next.inFamily tenantId' familyId' = false := by
      refine Bool.eq_false_iff.2 fun hr => ?_
      rw [hother next hr] at hnext
      cases hnext
    constructor
    · rw [hrows, (Tables.filter_map_eq_filter_iff fun r _ => hgroup _ _ r).2]
      · simp [hnext']
      · exact fun r hr hfamily => hfix r hr (hother r hfamily)
    · intro rawToken hraw r hr hrhash hfamily
      obtain rfl := htoken rawToken hraw
      rw [hrows] at hr
      obtain ⟨r₀, hr₀, rfl⟩ := mem_map.1 hr
      rw [(hg.same r₀).tokenHash] at hrhash
      obtain rfl := Tables.eq_of_key_eq (hs.insert hfresh _ hhash).hashes hr₀
        (mem_concat_self) (hrhash.trans hhash.symm)
      rw [hgroup, hnext'] at hfamily
      cases hfamily

theorem insertToken_isSome (hfresh : Fresh s.rows next) : (insertToken s.rows next).isSome := by
  rw [insertToken, if_neg (not_or.2 ⟨hfresh.id, hfresh.tokenHash⟩)]
  rfl

end Insert

/-! ## The requests -/

variable {env : Environment Hash}

theorem refreshAs_fst (refreshToken newRawToken : Raw) (id : ℕ) :
    (refreshAs env hash s client refreshToken newRawToken id).1 =
      (rotate hash s client.tenantId refreshToken newRawToken id).1 := by
  unfold refreshAs
  split
  · rename_i h
    rw [h]
  · rename_i h
    rw [h]
    split
    · rfl
    · split <;> rfl

/-- The token that the refresh grant returns is the one that the rotation drew. -/
theorem refreshAs_token {refreshToken newRawToken : Raw} {id : ℕ} {response : TokenResponse Raw}
    (h : (refreshAs env hash s client refreshToken newRawToken id).2 = .ok response) :
    ∃ record, (rotate hash s client.tenantId refreshToken newRawToken id).2 =
      .ok (response.refreshToken, record) := by
  unfold refreshAs at h
  split at h
  · cases h
  · rename_i hrotate
    split at h
    · cases h
    · split at h
      · cases h
      · cases h
        exact ⟨_, congrArg Prod.snd hrotate⟩

theorem swap_fixes (hs : Inv hash s) {current next : RefreshToken Hash} {refreshToken : Raw}
    (hlookup : s.lookup client.tenantId (hash refreshToken) = some current)
    (htenant : current.tenantId = client.tenantId) (hfresh : Fresh s.rows next) (id : ℕ) :
    ∀ r ∈ s.rows ++ [next], r.inFamily client.tenantId current.familyId = false →
      r.swap current.id client.tenantId id = r := by
  intro r hr hother
  refine swap_of_ne fun hid => ?_
  rcases Tables.mem_concat.1 hr with hold | rfl
  · obtain ⟨r₀, hr₀, hsame, -⟩ := hs.lookup hlookup
    obtain rfl := Tables.eq_of_key_eq hs.ids hold hr₀ (hid.trans hsame.id)
    simp [RefreshToken.inFamily, ← hsame.tenantId, ← hsame.familyId, htenant] at hother
  · exact hs.id_ne_of_lookup hlookup hfresh hid

/-- A rotation that inserts the next generation reaches the family of the token. -/
theorem rotatesForeign_iff {current : RefreshToken Hash} {presented newRawToken : Raw} {id : ℕ}
    (hlookup : s.lookup client.tenantId (hash presented) = some current)
    (htenant : current.tenantId = client.tenantId) (htime : s.now ≤ current.expiresAt)
    (hstatus : current.status = .active)
    (hfresh : Fresh s.rows (nextToken current id (hash newRawToken) s.now)) :
    RotatesForeign hash s client presented newRawToken id ↔ s.Foreign client current.familyId := by
  constructor
  · rintro ⟨current', hlookup', -, -, hforeign, -⟩
    obtain rfl := Option.some.inj (hlookup.symm.trans hlookup')
    exact hforeign
  · intro hforeign
    exact ⟨current, hlookup, htenant, htime, hforeign, fun _ => insertToken_isSome hfresh,
      fun h => absurd hstatus h⟩

/-- A rotation as a client touches its own families only, unless it presents the token of another
client. -/
theorem rotate_ownOnly_iff (hs : Inv hash s) {presented newRawToken : Raw} {id : ℕ}
    {refreshToken : Option Raw}
    (htoken : ∀ rawToken ∈ refreshToken, ∃ record,
      (rotate hash s client.tenantId presented newRawToken id).2 = .ok (rawToken, record)) :
    OwnOnly hash s client.id (rotate hash s client.tenantId presented newRawToken id).1
        refreshToken ↔ ¬ RotatesForeign hash s client presented newRawToken id := by
  generalize hresult : rotate hash s client.tenantId presented newRawToken id = result at htoken ⊢
  have hcases := rotate_cases hash s client.tenantId presented newRawToken id
  rw [hresult] at hcases
  cases hcases with
  | refused e hrefused =>
    refine iff_of_true (fun _ _ _ _ _ => ⟨rfl, fun rawToken hraw => ?_⟩) ?_
    · obtain ⟨record, h⟩ := htoken rawToken hraw
      cases h
    · rintro ⟨current, hlookup, htenant, htime, -, hinsert, -⟩
      obtain ⟨hactive, hnone⟩ := hrefused current hlookup htenant htime
      have hsome := hinsert hactive
      rw [hnone] at hsome
      cases hsome
  | @replayed current hlookup htenant htime hstatus =>
    have hnone : refreshToken = none := by
      refine Option.eq_none_iff_forall_not_mem.2 fun rawToken hraw => ?_
      obtain ⟨record, h⟩ := htoken rawToken hraw
      cases h
    rw [hnone, revokeFamily_ownOnly_iff rfl, not_iff_not]
    constructor
    · rintro ⟨hforeign, hrevocable⟩
      exact ⟨current, hlookup, htenant, htime, hforeign, fun h => absurd h hstatus,
        fun _ => hrevocable⟩
    · rintro ⟨current', hlookup', -, -, hforeign, -, hrevocable⟩
      obtain rfl := Option.some.inj (hlookup.symm.trans hlookup')
      exact ⟨hforeign, hrevocable hstatus⟩
  | @lost current next hlookup htenant htime hstatus hnext hfresh hlost =>
    subst hnext
    rw [rotatesForeign_iff hlookup htenant htime hstatus hfresh]
    refine insert_ownOnly_iff hs hfresh rfl (inFamily_iff.2 ⟨htenant, rfl⟩) (weakens_revoke _ _)
      (fun r _ hother => revoke_of_not_selected hother) rfl fun rawToken hraw => ?_
    obtain ⟨record, h⟩ := htoken rawToken hraw
    cases h
  | @won current next hlookup htenant htime hstatus hnext hfresh =>
    subst hnext
    rw [rotatesForeign_iff hlookup htenant htime hstatus hfresh]
    refine insert_ownOnly_iff hs hfresh rfl (inFamily_iff.2 ⟨htenant, rfl⟩)
      (weakens_swap current.id client.tenantId id) (swap_fixes hs hlookup htenant hfresh id) rfl
      fun rawToken hraw => ?_
    obtain ⟨record, h⟩ := htoken rawToken hraw
    exact (Prod.mk.inj (Except.ok.inj h)).1.symm

/-- A revocation as a client touches its own families only, unless it presents the token of another
client. -/
theorem revokeByRawToken_ownOnly_iff {token : Raw} :
    OwnOnly hash s client.id (revokeByRawToken hash s client.tenantId token reason) none ↔
      ¬ RevokesForeign hash s client token := by
  unfold revokeByRawToken
  split
  · rename_i hlookup
    refine iff_of_true (fun _ _ _ _ _ => ⟨rfl, fun _ h => by cases h⟩) ?_
    rintro ⟨current, hfound, -⟩
    rw [hlookup] at hfound
    cases hfound
  · rename_i current hlookup
    rw [revokeFamily_ownOnly_iff rfl, RevokesForeign, hlookup]
    simp

end Changes

/-! ## Every request -/

/-- **Own tokens**: in every reachable state, a request of an authenticated client leaves the
families of the other clients alone, and returns no token of theirs, exactly when it does not get as
far as a token of one of them. -/
theorem serve_ownOnly_iff {now : ℕ} {actions : List (Action Raw Hash)}
    (hrun : exec (step hash) (State.init now) actions = some s) (creds : ClientCredentials)
    {client : OAuthClient}
    (hclient : authenticate env creds.clientId creds.clientSecret = .ok client)
    (request : Request Raw) :
    OwnOnly hash s client.id (serve env hash s creds request).1 (serve env hash s creds request).2 ↔
      ¬ ReachesForeign hash s creds client request := by
  have hs := inv_exec hrun
  have hsame : OwnOnly hash s client.id s none := fun _ _ _ _ _ => ⟨rfl, fun _ h => by cases h⟩
  rcases request with ⟨_ | refreshToken, newRawToken, id⟩ | ⟨token, tokenTypeHint⟩
  · exact iff_of_true hsame fun h => h
  · by_cases hid : creds.clientId = ""
    · refine iff_of_true ?_ fun h => h.1 hid
      simp only [serve, handleRefreshTokenGrant, if_pos hid]
      exact hsame
    by_cases hgrant : .refreshToken ∈ client.allowedGrantTypes
    · have hserve : handleRefreshTokenGrant env hash s creds (some refreshToken) newRawToken id =
          refreshAs env hash s client refreshToken newRawToken id := by
        simp [handleRefreshTokenGrant, hid, hclient, assertGrantTypeAllowed, hgrant]
      simp only [serve, hserve, refreshAs_fst]
      rw [rotate_ownOnly_iff hs, ReachesForeign]
      · simp [hid, hgrant]
      · intro rawToken hraw
        obtain ⟨response, hresponse, rfl⟩ := Option.map_eq_some_iff.1 hraw
        exact refreshAs_token (toOption_eq_some hresponse)
    · refine iff_of_true ?_ fun h => hgrant h.2.1
      simp only [serve, handleRefreshTokenGrant, if_neg hid, hclient, assertGrantTypeAllowed,
        if_neg hgrant]
      exact hsame
  · by_cases hid : creds.clientId = ""
    · refine iff_of_true ?_ fun h => h.1 hid
      simp only [serve, revoke, if_pos hid]
      exact hsame
    by_cases hhint : tokenTypeHint = some .accessToken
    · refine iff_of_true ?_ fun h => h.2.1 hhint
      simp only [serve, revoke, if_neg hid, hclient, hhint]
      exact hsame
    · have hserve : (revoke env hash s creds token tokenTypeHint).1 =
          revokeByRawToken hash s client.tenantId token "client_requested_revocation" := by
        simp [revoke, hid, hclient, hhint]
      rw [serve, hserve, revokeByRawToken_ownOnly_iff, ReachesForeign]
      simp [hid, hhint]

/-- Two clients of a tenant, without secrets. -/
def twoClients : Environment ℕ where
  clients := [⟨6, 7, "web", none, .publicClient, [.refreshToken], true⟩,
    ⟨8, 7, "kiosk", none, .publicClient, [.refreshToken], true⟩]
  verify := fun _ _ => false
  issueAccessToken := fun _ => some ("eyJ", 900)

/-- A token is issued to the first client. -/
def issuedToWeb : List (Action ℕ ℕ) := [.issue 7 7 ⟨5, 6, ["pwd"], 0, "openid"⟩ 101 1 1]

theorem serve_ownOnly_own : ∃ s, exec (step Nat.succ) (State.init 0) issuedToWeb = some s ∧
    OwnOnly Nat.succ s 6 (serve twoClients Nat.succ s ⟨"web", none⟩ (.token (some 101) 102 2)).1
      (serve twoClients Nat.succ s ⟨"web", none⟩ (.token (some 101) 102 2)).2 := by
  have hrun : exec (step Nat.succ) (State.init 0) issuedToWeb =
      some (call Nat.succ (State.init 0) (.issue 7 7 ⟨5, 6, ["pwd"], 0, "openid"⟩ 101 1 1)) := rfl
  have hclient : authenticate twoClients "web" none =
      .ok ⟨6, 7, "web", none, .publicClient, [.refreshToken], true⟩ := by decide
  refine ⟨_, hrun, (serve_ownOnly_iff twoClients Nat.succ _ hrun ⟨"web", none⟩ hclient
    (.token (some 101) 102 2)).2 ?_⟩
  rintro ⟨-, -, current, -, -, -, ⟨issuedTo, hne, ⟨r, hr, hfamily⟩, hall⟩, -⟩
  have hclient := hall r hr hfamily
  obtain rfl := mem_singleton.1 hr
  exact hne hclient.symm

/-- The second client presents the token of the first one: it is refused, after the rotation. -/
theorem rotated_by_other_client : ∃ s, exec (step Nat.succ) (State.init 0) issuedToWeb = some s ∧
    ¬ OwnOnly Nat.succ s 8
      (serve twoClients Nat.succ s ⟨"kiosk", none⟩ (.token (some 101) 102 2)).1
      (serve twoClients Nat.succ s ⟨"kiosk", none⟩ (.token (some 101) 102 2)).2 := by
  refine ⟨_, rfl, fun h => ?_⟩
  have hissued : State.IssuedTo (call Nat.succ (State.init 0)
      (.issue 7 7 ⟨5, 6, ["pwd"], 0, "openid"⟩ 101 1 1)) 7 1 6 := by
    unfold State.IssuedTo
    decide
  have hsame := congrArg length (h 7 1 6 hissued (by decide)).1
  revert hsame
  decide

end Requests

end Workforce.Auth.RefreshTokenService
