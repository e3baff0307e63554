import Workforce.Foundations.Runs
import Workforce.Foundations.Tables

/-!
# Account lockout

`authenticate` of `password-auth.service.ts`: each call reads the credential of its user, checks the
lock, hashes the password, and writes back a counter that it derives from what it has read.

The accesses to the database, the check of the lock and the comparison of the hash are steps,
between which the other calls move and time passes. The log has what the verifications of passwords
came to and when an account was locked.

* `Tracked`: what a step has to meet for the counter to count.
* `lockout_bounds_guessing`: the bound on wrong guesses, in every run of such steps.
* `lockout_bypassed`: two runs that evade it.
-/

namespace Workforce.Auth.Lockout

open Tables List

/-! ## Users and credentials -/

inductive UserStatus
  | active | invited | disabled
  deriving DecidableEq

structure User where
  id : ℕ
  email : String
  username : Option String
  status : UserStatus

structure UserCredential (Hash : Type*) where
  userId : ℕ
  passwordHash : Hash
  failedLoginAttempts : ℕ
  lockedUntil : Option ℤ
  lastLoginAt : Option ℤ

/-- `MAX_FAILED_ATTEMPTS`. -/
def maxFailedAttempts : ℕ := 5

/-- `LOCKOUT_DURATION_MS`. -/
def lockoutDurationMs : ℤ := 15 * 60 * 1000

/-- What the code takes from elsewhere: `verify` of the password hasher, `lower` of the database and
`toLowerCase`. -/
structure Env (Password Hash : Type*) where
  verify : Password → Hash → Bool
  lower : String → String
  toLowerCase : String → String

variable {Password Hash : Type*}

section Users

variable (env : Env Password Hash) (users : List User)

def findByUsername (username : String) : Option User :=
  users.find? fun u => u.username.map env.lower = some (env.lower username)

def findByEmail (email : String) : Option User :=
  users.find? fun u => u.email = env.toLowerCase email

/-- The user of a call: one found by its name, or else by its address. -/
def findUser (identifier : String) : Option User :=
  (findByUsername env users identifier).or (findByEmail env users identifier)

end Users

/-! ## Calls and steps -/

inductive AuthError
  | invalidCredentials
  | accountLocked (lockedUntil : ℤ)

/-- Where a call is. -/
inductive Call (Password Hash : Type*)
  | idle
  /-- An active user was found. -/
  | found (userId : ℕ) (password : Password)
  /-- The credential was read. -/
  | read (userId : ℕ) (password : Password) (credential : UserCredential Hash)
  /-- The credential was not locked. -/
  | checked (userId : ℕ) (password : Password) (credential : UserCredential Hash)
  /-- The password was wrong; what is about to be written. -/
  | failing (userId : ℕ) (attempts : ℕ) (lockedUntil : Option ℤ)
  /-- The password was right. -/
  | succeeding (userId : ℕ) (lastLoginAt : ℤ)
  | done (result : Except AuthError ℕ)

/-- The call has verified a password of this user, and has not written yet. -/
def Call.pending (userId : ℕ) : Call Password Hash → Bool
  | .failing u _ _ | .succeeding u _ => u = userId
  | _ => false

inductive Event
  | failed (userId : ℕ)
  | succeeded (userId : ℕ)
  | locked (userId : ℕ)

/-- The passwords of a user that were wrong since the last right one, or since the account was
locked. The newest event is the first. -/
def failures (userId : ℕ) : List Event → ℕ
  | [] => 0
  | .failed u :: log => if u = userId then failures userId log + 1 else failures userId log
  | .succeeded u :: log => if u = userId then 0 else failures userId log
  | .locked u :: log => if u = userId then 0 else failures userId log

/-- The tables, where every login is, and what came of each. -/
structure State (Password Hash : Type*) where
  clock : ℤ
  users : List User
  credentials : List (UserCredential Hash)
  calls : ℕ → Call Password Hash
  log : List Event

namespace State

variable (s : State Password Hash)

/-- No call has been made; the credentials are as `setPassword` saves them. -/
def init (users : List User) (hashes : List (ℕ × Hash)) : State Password Hash :=
  { clock := 0
    users := users
    credentials := hashes.map fun (userId, passwordHash) => ⟨userId, passwordHash, 0, none, none⟩
    calls := fun _ => .idle
    log := [] }

def setCall (i : ℕ) (c : Call Password Hash) : State Password Hash :=
  { s with calls := Function.update s.calls i c }

/-- `findByUserId`. -/
def findByUserId (userId : ℕ) : Option (UserCredential Hash) :=
  lookup (·.userId) userId s.credentials

/-- `update` of the credential of a user. -/
def updateCredential (userId : ℕ) (f : UserCredential Hash → UserCredential Hash) :
    State Password Hash :=
  { s with credentials := modify (·.userId) userId f s.credentials }

def record (e : Event) : State Password Hash := { s with log := e :: s.log }

end State

/-- The credential after a failure. -/
def UserCredential.fail (attempts : ℕ) (lockedUntil : Option ℤ) (c : UserCredential Hash) :
    UserCredential Hash :=
  { c with
    failedLoginAttempts := if lockedUntil.isSome then 0 else attempts
    lockedUntil := lockedUntil }

/-- The credential after a success. -/
def UserCredential.succeed (lastLoginAt : ℤ) (c : UserCredential Hash) : UserCredential Hash :=
  { c with
    failedLoginAttempts := 0
    lockedUntil := none
    lastLoginAt := some lastLoginAt }

/-- The lock that a failure with these attempts sets. -/
def lockFor (attempts : ℕ) (now : ℤ) : Option ℤ :=
  if maxFailedAttempts ≤ attempts then some (now + lockoutDurationMs) else none

inductive Action (Password : Type*)
  | start (i : ℕ) (identifier : String) (password : Password)
  | readCredential (i : ℕ)
  | check (i : ℕ)
  | verify (i : ℕ)
  | write (i : ℕ)
  | tick (d : ℕ)

/-- One step. The log says that an account is locked when the lock that is written lies ahead. -/
def step (env : Env Password Hash) (s : State Password Hash) :
    Action Password → Option (State Password Hash)
  | .start i identifier password =>
    match s.calls i with
    | .idle =>
      match findUser env s.users identifier with
      | none => some (s.setCall i (.done (.error .invalidCredentials)))
      | some user =>
        if user.status ≠ .active then some (s.setCall i (.done (.error .invalidCredentials)))
        else some (s.setCall i (.found user.id password))
    | _ => none
  | .readCredential i =>
    match s.calls i with
    | .found userId password =>
      match s.findByUserId userId with
      | none => some (s.setCall i (.done (.error .invalidCredentials)))
      | some credential => some (s.setCall i (.read userId password credential))
    | _ => none
  | .check i =>
    match s.calls i with
    | .read userId password credential =>
      match credential.lockedUntil with
      | none => some (s.setCall i (.checked userId password credential))
      | some lockedUntil =>
        if lockedUntil > s.clock then
          some (s.setCall i (.done (.error (.accountLocked lockedUntil))))
        else some (s.setCall i (.checked userId password credential))
    | _ => none
  | .verify i =>
    match s.calls i with
    | .checked userId password credential =>
      if env.verify password credential.passwordHash then
        some ((s.record (.succeeded userId)).setCall i (.succeeding userId s.clock))
      else
        let attempts := credential.failedLoginAttempts + 1
        some ((s.record (.failed userId)).setCall i
          (.failing userId attempts (lockFor attempts s.clock)))
    | _ => none
  | .write i =>
    match s.calls i with
    | .failing userId attempts lockedUntil =>
      let written := s.updateCredential userId (.fail attempts lockedUntil)
      match lockedUntil with
      | some lockedUntil =>
        let recorded := if s.clock < lockedUntil then written.record (.locked userId) else written
        some (recorded.setCall i (.done (.error (.accountLocked lockedUntil))))
      | none => some (written.setCall i (.done (.error .invalidCredentials)))
    | .succeeding userId lastLoginAt =>
      some ((s.updateCredential userId (.succeed lastLoginAt)).setCall i (.done (.ok userId)))
    | _ => none
  | .tick d => some { s with clock := s.clock + d }

/-! ## What has to hold -/

/-- The account of a user is not locked. -/
def Unlocked (s : State Password Hash) (userId : ℕ) : Prop :=
  ∀ c ∈ s.credentials, c.userId = userId → ∀ lockedUntil ∈ c.lockedUntil, lockedUntil ≤ s.clock

/-- The counter of a call counts. When its password is wrong, no other call on the account is
between its verification and its write, the stored counter is not above the one that was read, and
the account is not locked; and a lock that it sets still lies ahead when it is written. -/
def Tracked (env : Env Password Hash) (s : State Password Hash) : Action Password → Prop
  | .verify i => ∀ userId password credential, s.calls i = .checked userId password credential →
      env.verify password credential.passwordHash = false →
      (∀ j, (s.calls j).pending userId = false) ∧
      (∀ c ∈ s.credentials, c.userId = userId →
        c.failedLoginAttempts ≤ credential.failedLoginAttempts) ∧
      Unlocked s userId
  | .write i => ∀ userId attempts lockedUntil,
      s.calls i = .failing userId attempts (some lockedUntil) → s.clock < lockedUntil
  | _ => True

/-- A failing call that writes leaves a lock that lies ahead at least as long as it is. -/
def KeepsLock (env : Env Password Hash) (s : State Password Hash) (a : Action Password) : Prop :=
  ∀ i userId attempts lockedUntil t, a = .write i →
    s.calls i = .failing userId attempts lockedUntil → step env s a = some t →
    ∀ c l, s.findByUserId userId = some c → c.lockedUntil = some l → s.clock < l →
      ∃ c' l', t.findByUserId userId = some c' ∧ c'.lockedUntil = some l' ∧ l ≤ l'

/-! ## What a step does -/

/-- The credential that a call has read. -/
def Call.credential : Call Password Hash → Option (ℕ × UserCredential Hash)
  | .read userId _ credential | .checked userId _ credential => some (userId, credential)
  | _ => none

/-- The call is about to write. -/
def Call.writes : Call Password Hash → Bool
  | .failing _ _ _ | .succeeding _ _ => true
  | _ => false

/-- What a step does. -/
inductive Move (env : Env Password Hash) (s : State Password Hash) :
    Action Password → State Password Hash → Prop
  | tick (d : ℕ) : Move env s (.tick d) { s with clock := s.clock + d }
  /-- A call that neither was nor is about to write. -/
  | quiet {a : Action Password} {i : ℕ} {c : Call Password Hash} (hi : (s.calls i).writes = false)
      (hc : c.writes = false)
      (hcredential : ∀ p ∈ c.credential,
        (s.calls i).credential = some p ∨ p.2 ∈ s.credentials ∧ p.2.userId = p.1) :
      Move env s a (s.setCall i c)
  | succeeded {i userId : ℕ} {password : Password} {credential : UserCredential Hash}
      (hi : s.calls i = .checked userId password credential) :
      Move env s (.verify i) ((s.record (.succeeded userId)).setCall i (.succeeding userId s.clock))
  | failed {i userId : ℕ} {password : Password} {credential : UserCredential Hash}
      (hi : s.calls i = .checked userId password credential)
      (hwrong : env.verify password credential.passwordHash = false) :
      Move env s (.verify i) ((s.record (.failed userId)).setCall i
        (.failing userId (credential.failedLoginAttempts + 1)
          (lockFor (credential.failedLoginAttempts + 1) s.clock)))
  | writeSuccess {i userId : ℕ} {lastLoginAt : ℤ} {c : Call Password Hash}
      (hi : s.calls i = .succeeding userId lastLoginAt) (hc : c.writes = false)
      (hcredential : c.credential = none) :
      Move env s (.write i)
        ((s.updateCredential userId (.succeed lastLoginAt)).setCall i c)
  | writeFailure {i userId attempts : ℕ} {lockedUntil : Option ℤ} {c : Call Password Hash}
      {log : List Event} (hi : s.calls i = .failing userId attempts lockedUntil)
      (hc : c.writes = false) (hcredential : c.credential = none)
      (hlog : log = s.log ∧ (∀ l ∈ lockedUntil, l ≤ s.clock) ∨
        lockedUntil.isSome ∧ log = .locked userId :: s.log) :
      Move env s (.write i)
        ({ s.updateCredential userId (.fail attempts lockedUntil) with log := log }.setCall i c)

variable {env : Env Password Hash} {s t : State Password Hash} {a : Action Password}

theorem move_of_step (h : step env s a = some t) : Move env s a t := by
  cases a with
  | start i identifier password =>
    simp only [step] at h
    split at h
    · rename_i hi
      have hquiet : ∀ {c : Call Password Hash}, c.writes = false → c.credential = none →
          Move env s (.start i identifier password) (s.setCall i c) :=
        fun hc hn => .quiet (by rw [hi]; rfl) hc (by rw [hn]; exact fun _ hp => by cases hp)
      split at h
      · cases h
        exact hquiet rfl rfl
      · split at h
        · cases h
          exact hquiet rfl rfl
        · cases h
          exact hquiet rfl rfl
    · cases h
  | readCredential i =>
    simp only [step] at h
    split at h
    · rename_i userId password hi
      split at h
      · cases h
        exact .quiet (by rw [hi]; rfl) rfl fun _ hp => by cases hp
      · rename_i credential hfind
        cases h
        refine .quiet (by rw [hi]; rfl) rfl fun p hp => .inr ?_
        cases hp
        exact mem_of_lookup hfind
    · cases h
  | check i =>
    simp only [step] at h
    split at h
    · rename_i userId password credential hi
      have hchecked : Move env s (.check i) (s.setCall i (.checked userId password credential)) :=
        .quiet (by rw [hi]; rfl) rfl fun p hp => .inl (by rw [hi]; exact hp)
      split at h
      · cases h
        exact hchecked
      · split at h
        · cases h
          exact .quiet (by rw [hi]; rfl) rfl fun _ hp => by cases hp
        · cases h
          exact hchecked
    · cases h
  | verify i =>
    simp only [step] at h
    split at h
    · rename_i userId password credential hi
      split at h
      · cases h
        exact .succeeded hi
      · rename_i hwrong
        cases h
        exact .failed hi (Bool.eq_false_iff.2 hwrong)
    · cases h
  | write i =>
    simp only [step] at h
    split at h
    · rename_i userId attempts lockedUntil hi
      split at h
      · rename_i l
        cases h
        split
        · exact .writeFailure hi rfl rfl (.inr ⟨rfl, rfl⟩)
        · rename_i hpast
          refine .writeFailure hi rfl rfl (.inl ⟨rfl, fun l' hl' => ?_⟩)
          obtain rfl := Option.some.inj hl'
          exact not_lt.1 hpast
      · cases h
        exact .writeFailure hi rfl rfl (.inl ⟨rfl, fun _ hl => by cases hl⟩)
    · rename_i userId lastLoginAt hi
      cases h
      exact .writeSuccess hi rfl rfl
    · cases h
  | tick d =>
    cases h
    exact .tick d

/-! ## The invariant -/

/-- What holds while the counters count. A call that failed knows a counter that covers the
failures; once nothing is about to be written, the stored counter does. -/
structure Inv (s : State Password Hash) : Prop where
  attempts : ∀ c ∈ s.credentials, c.failedLoginAttempts < maxFailedAttempts
  read : ∀ i, ∀ p ∈ (s.calls i).credential,
    p.2.failedLoginAttempts < maxFailedAttempts ∧ p.1 ∈ s.credentials.map (·.userId)
  failing : ∀ {i u n l}, s.calls i = .failing u n l →
    n ≤ maxFailedAttempts ∧ (l = none → n < maxFailedAttempts) ∧ failures u s.log ≤ n ∧
      Unlocked s u
  once : ∀ {i j u n l n' l'}, s.calls i = .failing u n l → s.calls j = .failing u n' l' → i = j
  succeeding : ∀ {i u l}, s.calls i = .succeeding u l → failures u s.log = 0
  settled : ∀ c ∈ s.credentials, (∀ i, (s.calls i).pending c.userId = false) →
    failures c.userId s.log ≤ c.failedLoginAttempts
  bound : ∀ u, failures u s.log ≤ maxFailedAttempts

theorem inv_init (users : List User) (hashes : List (ℕ × Hash)) :
    Inv (State.init users hashes : State Password Hash) where
  attempts := fun c hc => by
    obtain ⟨p, -, rfl⟩ := mem_map.1 hc
    exact Nat.succ_pos 4
  read := fun _ _ hp => by cases hp
  failing := fun h => by cases h
  once := fun h => by cases h
  succeeding := fun h => by cases h
  settled := fun _ _ _ => Nat.zero_le _
  bound := fun _ => Nat.zero_le _

namespace State

variable {i j : ℕ} {c c' : Call Password Hash}

@[simp] theorem setCall_self (s : State Password Hash) (i : ℕ) (c : Call Password Hash) :
    (s.setCall i c).calls i = c :=
  Function.update_self ..

theorem setCall_of_ne (s : State Password Hash) (h : j ≠ i) (c : Call Password Hash) :
    (s.setCall i c).calls j = s.calls j :=
  Function.update_of_ne h ..

@[simp] theorem record_calls (s : State Password Hash) (e : Event) : (s.record e).calls = s.calls :=
  rfl

theorem calls_of_ne (h : (s.setCall i c).calls j = c') (hne : c ≠ c') :
    j ≠ i ∧ s.calls j = c' := by
  have hj : j ≠ i := by
    rintro rfl
    exact hne ((setCall_self ..).symm.trans h)
  exact ⟨hj, by rwa [setCall_of_ne _ hj] at h⟩

/-- A call that writes after a step in which another one stopped or did not start to. -/
theorem calls_of_writes (hc : c.writes = false) (h : (s.setCall i c).calls j = c')
    (hw : c'.writes = true) : j ≠ i ∧ s.calls j = c' := by
  refine calls_of_ne h ?_
  rintro rfl
  rw [hw] at hc
  cases hc

end State

variable {c : Call Password Hash}

theorem Call.pending_of_writes (hc : c.writes = false) (u : ℕ) :
    c.pending u = false := by
  cases c with
  | failing | succeeding => cases hc
  | idle | found | read | checked | done => rfl

/-- A call that is not about to write for a user does not become so by a step of another call. -/
theorem pending_of_setCall {i u : ℕ} (hi : (s.calls i).pending u = false)
    (h : ∀ j, ((s.setCall i c).calls j).pending u = false) (j : ℕ) :
    (s.calls j).pending u = false := by
  by_cases hj : j = i
  · rw [hj, hi]
  · rw [← h j, State.setCall_of_ne _ hj]

theorem credential_of_setCall {i j : ℕ} (hc : c.credential = none) {p : ℕ × UserCredential Hash}
    (h : p ∈ ((s.setCall i c).calls j).credential) :
    p ∈ (s.calls j).credential := by
  by_cases hj : j = i
  · rw [hj, State.setCall_self, hc] at h
    cases h
  · rwa [State.setCall_of_ne _ hj] at h

theorem failures_succeeded_le (u v : ℕ) (log : List Event) :
    failures u (.succeeded v :: log) ≤ failures u log := by
  simp only [failures]
  split <;> omega

theorem failures_locked_le (u v : ℕ) (log : List Event) :
    failures u (.locked v :: log) ≤ failures u log := by
  simp only [failures]
  split <;> omega

theorem failures_failed_of_ne {u v : ℕ} (h : v ≠ u) (log : List Event) :
    failures u (.failed v :: log) = failures u log :=
  if_neg h

theorem inv_quiet (hs : Inv s) {i : ℕ} (hi : (s.calls i).writes = false) (hc : c.writes = false)
    (hcredential : ∀ p ∈ c.credential,
      (s.calls i).credential = some p ∨ p.2 ∈ s.credentials ∧ p.2.userId = p.1) :
    Inv (s.setCall i c) where
  attempts := hs.attempts
  read := fun j p hp => by
    by_cases hj : j = i
    · rw [hj, State.setCall_self] at hp
      rcases hcredential p hp with hold | ⟨hmem, hid⟩
      · exact hs.read i p hold
      · exact ⟨hs.attempts _ hmem, hid ▸ mem_map_of_mem hmem⟩
    · rw [State.setCall_of_ne _ hj] at hp
      exact hs.read j p hp
  failing := fun h => hs.failing (State.calls_of_writes hc h rfl).2
  once := fun h h' =>
    hs.once (State.calls_of_writes hc h rfl).2 (State.calls_of_writes hc h' rfl).2
  succeeding := fun h => hs.succeeding (State.calls_of_writes hc h rfl).2
  settled := fun row hrow h =>
    hs.settled row hrow (pending_of_setCall (Call.pending_of_writes hi _) h)
  bound := hs.bound

theorem inv_tick (hs : Inv s) (d : ℕ) : Inv { s with clock := s.clock + d } where
  attempts := hs.attempts
  read := hs.read
  failing := fun h => by
    obtain ⟨hn, hl, hfailures, hunlocked⟩ := hs.failing h
    refine ⟨hn, hl, hfailures, fun c hc hid l hl => ?_⟩
    have hle := hunlocked c hc hid l hl
    change l ≤ s.clock + d
    omega
  once := hs.once
  succeeding := hs.succeeding
  settled := hs.settled
  bound := hs.bound

theorem inv_succeeded (hs : Inv s) {i userId : ℕ} {password : Password}
    {credential : UserCredential Hash} (hi : s.calls i = .checked userId password credential) :
    Inv ((s.record (.succeeded userId)).setCall i (.succeeding userId s.clock)) where
  attempts := hs.attempts
  read := fun j p hp => hs.read j p (credential_of_setCall rfl hp)
  failing := fun h => by
    obtain ⟨hn, hl, hfailures, hunlocked⟩ := hs.failing (State.calls_of_ne h nofun).2
    exact ⟨hn, hl, (failures_succeeded_le _ _ _).trans hfailures, hunlocked⟩
  once := fun h h' => hs.once (State.calls_of_ne h nofun).2 (State.calls_of_ne h' nofun).2
  succeeding := fun {j u l} h => by
    by_cases hj : j = i
    · rw [hj, State.setCall_self] at h
      injection h with hu
      exact if_pos hu
    · rw [State.setCall_of_ne _ hj] at h
      exact Nat.le_zero.1 ((failures_succeeded_le _ _ _).trans (hs.succeeding h).le)
  settled := fun c hc h => by
    refine (failures_succeeded_le _ _ _).trans (hs.settled c hc ?_)
    exact pending_of_setCall (s := s.record (.succeeded userId))
      (by change (s.calls i).pending _ = false; rw [hi]; rfl) h
  bound := fun u => (failures_succeeded_le _ _ _).trans (hs.bound u)

theorem inv_failed (hs : Inv s) {i userId : ℕ} {password : Password}
    {credential : UserCredential Hash} (hi : s.calls i = .checked userId password credential)
    (hpending : ∀ j, (s.calls j).pending userId = false)
    (hstored : ∀ c ∈ s.credentials, c.userId = userId →
      c.failedLoginAttempts ≤ credential.failedLoginAttempts)
    (hunlocked : Unlocked s userId) :
    Inv ((s.record (.failed userId)).setCall i
      (.failing userId (credential.failedLoginAttempts + 1)
        (lockFor (credential.failedLoginAttempts + 1) s.clock))) := by
  have hread := hs.read i (userId, credential) (by rw [hi]; rfl)
  obtain ⟨hattempts, hrow⟩ : credential.failedLoginAttempts < maxFailedAttempts ∧
    userId ∈ s.credentials.map (·.userId) := hread
  -- nothing is about to be written, so the stored counter covers the failures so far
  have hcovered : failures userId s.log ≤ credential.failedLoginAttempts := by
    obtain ⟨row, hmem, rfl⟩ := mem_map.1 hrow
    exact (hs.settled row hmem hpending).trans (hstored row hmem rfl)
  have hfailed : failures userId (.failed userId :: s.log) = failures userId s.log + 1 :=
    if_pos rfl
  have hfailing : ∀ {j u n l}, s.calls j = .failing u n l → u ≠ userId := by
    rintro j u n l hj rfl
    have hno := hpending j
    rw [hj] at hno
    exact of_decide_eq_false hno rfl
  refine ⟨hs.attempts, fun j p hp => hs.read j p (credential_of_setCall rfl hp),
    fun {j u n l} h => ?_, fun {j k u n l n' l'} h h' => ?_, fun {j u l} h => ?_,
    fun c hc h => ?_, fun u => ?_⟩
  · by_cases hj : j = i
    · rw [hj, State.setCall_self] at h
      injection h with hu hn hl
      subst hu hn hl
      refine ⟨hattempts, fun hnone => ?_, ?_, hunlocked⟩
      · by_contra hle
        rw [lockFor, if_pos (not_lt.1 hle)] at hnone
        cases hnone
      · change failures userId (.failed userId :: s.log) ≤ _
        omega
    · rw [State.setCall_of_ne _ hj, State.record_calls] at h
      obtain ⟨hn, hl, hfailures, hu⟩ := hs.failing h
      exact ⟨hn, hl, (failures_failed_of_ne (hfailing h).symm _).trans_le hfailures, hu⟩
  · by_cases hj : j = i
    · by_cases hk : k = i
      · rw [hj, hk]
      · rw [State.setCall_of_ne _ hk, State.record_calls] at h'
        rw [hj, State.setCall_self] at h
        injection h with hu
        exact absurd hu.symm (hfailing h')
    · rw [State.setCall_of_ne _ hj, State.record_calls] at h
      by_cases hk : k = i
      · rw [hk, State.setCall_self] at h'
        injection h' with hu
        exact absurd hu.symm (hfailing h)
      · rw [State.setCall_of_ne _ hk] at h'
        exact hs.once h h'
  · have hj := (State.calls_of_ne h nofun).2
    rw [State.record_calls] at hj
    have hne : u ≠ userId := by
      rintro rfl
      have hno := hpending j
      rw [hj] at hno
      exact of_decide_eq_false hno rfl
    exact (failures_failed_of_ne hne.symm _).trans (hs.succeeding hj)
  · have hne : userId ≠ c.userId := by
      intro heq
      have hi' := h i
      rw [State.setCall_self] at hi'
      exact absurd heq (of_decide_eq_false hi')
    refine (failures_failed_of_ne hne _).trans_le (hs.settled c hc ?_)
    exact pending_of_setCall (s := s.record (.failed userId))
      (by change (s.calls i).pending _ = false; rw [hi]; rfl) h
  · by_cases hu : userId = u
    · subst hu
      exact hfailed.trans_le (by omega)
    · exact (failures_failed_of_ne hu _).trans_le (hs.bound u)

/-- The rows after a write: those of other users, and those of the user rewritten. -/
theorem mem_updateCredential {u : ℕ} {f : UserCredential Hash → UserCredential Hash}
    {c : UserCredential Hash} (hf : ∀ c, (f c).userId = c.userId)
    (hc : c ∈ (s.updateCredential u f).credentials) :
    (c ∈ s.credentials ∧ c.userId ≠ u) ∨ ∃ c₀, c.userId = u ∧ c = f c₀ := by
  rcases mem_modify.1 hc with ⟨c₀, -, hid, rfl⟩ | hrest
  · exact .inr ⟨c₀, (hf c₀).trans hid, rfl⟩
  · exact .inl hrest

theorem inv_writeSuccess (hs : Inv s) {i userId : ℕ} {lastLoginAt : ℤ}
    (hi : s.calls i = .succeeding userId lastLoginAt) (hc : c.writes = false)
    (hcredential : c.credential = none) :
    Inv ((s.updateCredential userId (.succeed lastLoginAt)).setCall i c) := by
  have hkey : ∀ c : UserCredential Hash, (c.succeed lastLoginAt).userId = c.userId := fun _ => rfl
  refine ⟨fun row hrow => ?_, fun j p hp => ?_, fun {j u n l} h => ?_, fun h h' => ?_, fun h => ?_,
    fun row hrow h => ?_, hs.bound⟩
  · rcases mem_updateCredential hkey hrow with ⟨hrow, -⟩ | ⟨row₀, -, rfl⟩
    · exact hs.attempts row hrow
    · exact Nat.succ_pos 4
  · obtain ⟨hattempts, hmem⟩ := hs.read j p (credential_of_setCall hcredential hp)
    exact ⟨hattempts, (map_key_modify hkey s.credentials).symm ▸ hmem⟩
  · obtain ⟨hn, hl, hfailures, hunlocked⟩ := hs.failing (State.calls_of_writes hc h rfl).2
    refine ⟨hn, hl, hfailures, fun row hrow hid l' hl' => ?_⟩
    rcases mem_updateCredential hkey hrow with ⟨hrow, -⟩ | ⟨row₀, -, rfl⟩
    · exact hunlocked row hrow hid l' hl'
    · cases hl'
  · exact hs.once (State.calls_of_writes hc h rfl).2 (State.calls_of_writes hc h' rfl).2
  · exact hs.succeeding (State.calls_of_writes hc h rfl).2
  · rcases mem_updateCredential hkey hrow with ⟨hrow, hid⟩ | ⟨row₀, hid, -⟩
    · refine hs.settled row hrow (pending_of_setCall ?_ h)
      rw [hi]
      exact decide_eq_false hid.symm
    · rw [hid]
      exact (hs.succeeding hi).trans_le (Nat.zero_le _)

theorem inv_writeFailure (hs : Inv s) {i userId attempts : ℕ} {lockedUntil : Option ℤ}
    {log : List Event} (hi : s.calls i = .failing userId attempts lockedUntil)
    (hc : c.writes = false) (hcredential : c.credential = none)
    (hlog : log = s.log ∧ lockedUntil = none ∨
      lockedUntil.isSome ∧ log = .locked userId :: s.log) :
    Inv ({ s.updateCredential userId (.fail attempts lockedUntil) with
      log := log }.setCall i c) := by
  have hkey : ∀ c : UserCredential Hash, (c.fail attempts lockedUntil).userId = c.userId :=
    fun _ => rfl
  obtain ⟨-, hattempts, hcovered, -⟩ := hs.failing hi
  have hle : ∀ u, failures u log ≤ failures u s.log := by
    intro u
    rcases hlog with ⟨rfl, -⟩ | ⟨-, rfl⟩
    · exact le_rfl
    · exact failures_locked_le u userId s.log
  -- a failing call on this account would be the one that has written
  have hother : ∀ {j u n l}, j ≠ i → s.calls j = .failing u n l → u ≠ userId := by
    rintro j u n l hj h rfl
    exact hj (hs.once h hi)
  refine ⟨fun row hrow => ?_, fun j p hp => ?_, fun {j u n l} h => ?_, fun h h' => ?_, fun h => ?_,
    fun row hrow h => ?_, fun u => (hle u).trans (hs.bound u)⟩
  · rcases mem_updateCredential (s := s) hkey hrow with ⟨hrow, -⟩ | ⟨row₀, -, rfl⟩
    · exact hs.attempts row hrow
    · cases lockedUntil with
      | none => exact hattempts rfl
      | some l => exact Nat.succ_pos 4
  · obtain ⟨hread, hmem⟩ := hs.read j p (credential_of_setCall hcredential hp)
    exact ⟨hread, (map_key_modify hkey s.credentials).symm ▸ hmem⟩
  · obtain ⟨hj, hcall⟩ := State.calls_of_writes hc h rfl
    obtain ⟨hn, hl, hfailures, hunlocked⟩ := hs.failing hcall
    refine ⟨hn, hl, (hle u).trans hfailures, fun row hrow hid l' hl' => ?_⟩
    rcases mem_updateCredential (s := s) hkey hrow with ⟨hrow, -⟩ | ⟨row₀, hid', -⟩
    · exact hunlocked row hrow hid l' hl'
    · exact absurd (hid.symm.trans hid') (hother hj hcall)
  · exact hs.once (State.calls_of_writes hc h rfl).2 (State.calls_of_writes hc h' rfl).2
  · exact Nat.le_zero.1 ((hle _).trans (hs.succeeding (State.calls_of_writes hc h rfl).2).le)
  · rcases mem_updateCredential (s := s) hkey hrow with ⟨hrow, hid⟩ | ⟨row₀, hid, rfl⟩
    · refine (hle _).trans (hs.settled row hrow (pending_of_setCall ?_ h))
      rw [hi]
      exact decide_eq_false hid.symm
    · rw [hid]
      rcases hlog with ⟨rfl, rfl⟩ | ⟨-, rfl⟩
      · exact hcovered
      · exact (if_pos rfl : failures userId (.locked userId :: s.log) = 0).trans_le (Nat.zero_le _)

theorem inv_step (hs : Inv s) (ha : Tracked env s a) (h : step env s a = some t) : Inv t := by
  cases move_of_step h with
  | tick d => exact inv_tick hs d
  | quiet hi hc hcredential => exact inv_quiet hs hi hc hcredential
  | succeeded hi => exact inv_succeeded hs hi
  | failed hi hwrong =>
    obtain ⟨hpending, hstored, hunlocked⟩ := ha _ _ _ hi hwrong
    exact inv_failed hs hi hpending hstored hunlocked
  | writeSuccess hi hc hcredential => exact inv_writeSuccess hs hi hc hcredential
  | @writeFailure i userId attempts lockedUntil c log hi hc hcredential hlog =>
    refine inv_writeFailure hs hi hc hcredential (hlog.imp_left fun ⟨hlog, hpast⟩ => ⟨hlog, ?_⟩)
    cases lockedUntil with
    | none => rfl
    | some l => exact absurd (hpast l rfl) (not_le.2 (ha _ _ _ hi))

theorem keepsLock_of_inv (hs : Inv s) (a : Action Password) : KeepsLock env s a := by
  intro i userId attempts lockedUntil t _ hi _ c l hfind hl hahead
  obtain ⟨-, -, -, hunlocked⟩ := hs.failing hi
  obtain ⟨hc, hid⟩ := mem_of_lookup hfind
  exact absurd (hunlocked c hc hid l hl) (not_le.2 hahead)

/-- **Lockout bounds guessing.** In every run whose steps are tracked, of any calls on any accounts:
at most `MAX_FAILED_ATTEMPTS` passwords of a user are wrong before a right one or a lock, and no
failing call clears or shortens a lock that lies ahead. -/
theorem lockout_bounds_guessing {users : List User} {hashes : List (ℕ × Hash)}
    {as : List (Action Password)}
    (hm : Runs.Meets (step env) (Tracked env) (State.init users hashes) as) :
    Runs.Always (step env) (fun s => ∀ u, failures u s.log ≤ maxFailedAttempts)
      (State.init users hashes) as ∧
    Runs.Meets (step env) (KeepsLock env) (State.init users hashes) as := by
  have hstep : ∀ s a t, Inv s → Tracked env s a → step env s a = some t → Inv t :=
    fun _ _ _ => inv_step
  refine ⟨Runs.always_of_invariant (fun _ hs => hs.bound) hstep (inv_init users hashes) hm, ?_⟩
  intro bs a t hbs ht
  obtain ⟨cs, rfl⟩ := hbs
  exact keepsLock_of_inv
    (Runs.exec_invariant hstep (inv_init users hashes) hm.of_append_left.of_append_left ht) a

/-! ## Runs -/

/-- Passwords are their own hashes. -/
def plainEnv : Env ℕ ℕ := ⟨(· = ·), id, id⟩

def alice : User := ⟨7, "alice@example.com", some "alice", .active⟩

/-- One account, with the password `1234`. -/
def aliceOnly : State ℕ ℕ := .init [alice] [(7, 1234)]

/-- A call of its own. -/
def attempt (i password : ℕ) : List (Action ℕ) :=
  [.start i "alice" password, .readCredential i, .check i, .verify i, .write i]

/-- Five calls that begin before any of them has read guess wrong one after the other. -/
def fiveWrong : List (Action ℕ) :=
  (range 5).map (.start · "alice" 1) ++ (range 5).flatMap fun i => (attempt i 1).tail

theorem five_wrong_attempts : ∃ s, Runs.exec (step plainEnv) aliceOnly fiveWrong = some s ∧
    s.credentials.map (·.lockedUntil) = [some lockoutDurationMs] ∧
    ∀ u, failures u s.log ≤ maxFailedAttempts := by
  have hm : Runs.Meets (step plainEnv) (Tracked plainEnv) aliceOnly fiveWrong := by
    simp only [fiveWrong, attempt, range, range.loop, map, flatMap_cons, flatMap_nil, tail_cons,
      cons_append, nil_append, append_nil]
    repeat
      first
      | exact Runs.meets_nil
      | refine Runs.Meets.cons trivial rfl ?_
      | refine Runs.Meets.cons ?_ rfl ?_; swap
    -- the comparisons and the writes are left
    all_goals
      intro userId x y hcall
      cases hcall
    all_goals try decide
    all_goals
      refine fun _ => ⟨fun call => ?_, by decide, by unfold Unlocked; decide⟩
      rcases call with _ | _ | _ | _ | _ | _ <;> rfl
  exact ⟨_, rfl, rfl, (lockout_bounds_guessing hm).1 _ _ (prefix_refl _) rfl⟩

/-- Two runs that evade the lockout. Six calls that overlap all guess wrong, and the counter stays
at one. And a call that had begun before five others locked the account guesses wrong, and the
account is unlocked again. -/
theorem lockout_bypassed :
    (∃ s, Runs.exec (step plainEnv) aliceOnly
        ((range 6).flatMap (fun i => (attempt i i).take 4) ++ (range 6).map .write) = some s ∧
      failures 7 s.log = 6 ∧ s.credentials.map (·.failedLoginAttempts) = [1] ∧
      s.credentials.map (·.lockedUntil) = [none]) ∧
    ∃ s t, Runs.exec (step plainEnv) aliceOnly
        ((attempt 0 0).take 3 ++ (range 5).flatMap (fun i => attempt (i + 1) i) ++
          [.verify 0]) = some s ∧
      step plainEnv s (.write 0) = some t ∧ s.clock < lockoutDurationMs ∧
      s.credentials.map (·.lockedUntil) = [some lockoutDurationMs] ∧
      t.credentials.map (·.lockedUntil) = [none] :=
  ⟨⟨_, rfl, rfl, rfl, rfl⟩, _, _, rfl, rfl, by decide, rfl, rfl⟩

end Workforce.Auth.Lockout
