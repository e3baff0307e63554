import Workforce.Foundations.ReadCommitted
import Workforce.Leave.Ledger

/-!
# Requests that commit during an expiry

`EXPIRY_SQL` computes what it takes back from a row in its snapshot, and then updates the row. Where
a transaction has the row locked, the statement waits for it and goes on with the version that was
committed meanwhile: it joins that version with the row of its snapshot by key, tests nothing else,
and subtracts the amount of the snapshot. A request that commits in between has been granted days
that the expiry then takes back.

Submissions and decisions lock their row first and compute from the locked version: each is one
step, and is refused while an expiry has written the row. An expiry is a step for its snapshot, a
step for each row and a step for its end, and several may be in progress.

* `expiry_neverNegative_iff`: along a run no version of a row is ever negative if and only if each
  time an expiry reaches a row, the row has what the snapshot found.
* `request_during_expiry`: a run with a request in between.
-/

namespace Workforce.Leave

open Tables Runs ReadCommitted List

/-! ## The statement -/

/-- The `SET` clause of `EXPIRY_SQL`. -/
def LeaveBalance.takeBack (clawback : ℤ) (b : LeaveBalance) : LeaveBalance :=
  { b with
    accruedDays := b.accruedDays - clawback, carryoverDaysIn := 0, carryoverExpiryDate := none
    creditedDays := if b.carryoverApplied then b.creditedDays - clawback else b.creditedDays }

/-- The common table expression `expired`. -/
def expiredRows (s : LeaveState) : List (BalanceKey × ℤ) :=
  (s.balances.filter (·.expired s.today)).map fun b => (b.key, b.clawback)

/-- An `EXPIRY_SQL` in progress, with the rows it has not reached yet. -/
structure ExpiryCall where
  id : ℕ
  expired : List (BalanceKey × ℤ)

/-- The committed tables, the rows that expiries have written, and the expiries. -/
structure RaceState where
  leave : LeaveState
  pending : List (ℕ × LeaveBalance)
  expiries : List ExpiryCall

namespace RaceState

def db (s : RaceState) : Db LeaveBalance ℕ := ⟨s.leave.balances, s.pending⟩

def setDb (s : RaceState) (db : Db LeaveBalance ℕ) : RaceState :=
  { s with leave := { s.leave with balances := db.committed }, pending := db.pending }

/-- The expiry is over. -/
def endExpiry (s : RaceState) (id : ℕ) : RaceState :=
  { s with expiries := s.expiries.filter (·.id ≠ id) }

/-- What an expiry joins when it reaches a row: the clawback of its snapshot, and the row as it is
now. -/
def reached (s : RaceState) (id : ℕ) (key : BalanceKey) : Option (ℤ × LeaveBalance) := do
  let call ← lookup ExpiryCall.id id s.expiries
  let entry ← lookup Prod.fst key call.expired
  let b ← (s.db.visible (·.key) id).find? (·.key = key)
  return (entry.2, b)

/-- No row that an expiry has written is changed. -/
def Unlocked (s : RaceState) (t : LeaveState) : Prop :=
  ∀ b ∈ s.leave.balances, b.key ∈ s.pending.map (·.2.key) → b ∈ t.balances
  deriving Decidable

end RaceState

def LeaveAction.isJob : LeaveAction → Bool
  | .rollover _ | .expiry | .accrual => true
  | _ => false

/-- An operation, or a statement of an expiry job. -/
inductive RaceAction
  /-- An operation other than the jobs. -/
  | operate (a : LeaveAction)
  | expiryBegin (id : ℕ)
  | expiryUpdate (id : ℕ) (key : BalanceKey)
  | expiryCommit (id : ℕ)
  | expiryFail (id : ℕ)

/-- The expiry has reached a row. An expiry that writes a row the checks of the table refuse fails
as a whole. -/
def updateExpired (s : RaceState) (id : ℕ) (key : BalanceKey) (clawback : ℤ) (b : LeaveBalance) :
    RaceState :=
  if (b.takeBack clawback).storable then
    { s.setDb (s.db.write (·.key) id (b.takeBack clawback)) with
      expiries := modify ExpiryCall.id id
        (fun call => { call with expired := call.expired.filter (·.1 ≠ key) }) s.expiries }
  else (s.setDb (s.db.rollback id)).endExpiry id

/-- What a step does; an expiry that has not committed keeps its rows locked. -/
def raceStep (s : RaceState) : RaceAction → Option RaceState
  | .operate a =>
    if a.isJob then none
    else
      match leaveStep s.leave a with
      | none => none
      | some t => if s.Unlocked t then some { s with leave := t } else none
  | .expiryBegin id =>
    if id ∈ s.expiries.map (·.id) then none
    else some { s with expiries := s.expiries ++ [⟨id, expiredRows s.leave⟩] }
  | .expiryUpdate id key =>
    if s.db.Locked (·.key) id key then none
    else (s.reached id key).map fun (clawback, b) => updateExpired s id key clawback b
  | .expiryCommit id =>
    match lookup ExpiryCall.id id s.expiries with
    | some ⟨_, []⟩ => some ((s.setDb (s.db.commit (·.key) id)).endExpiry id)
    | _ => none
  | .expiryFail id => some ((s.setDb (s.db.rollback id)).endExpiry id)

/-! ## What is asked -/

/-- No version of a row, committed or written by an expiry, has fewer than no days available. -/
def NeverNegative (s : RaceState) : Prop :=
  (∀ b ∈ s.leave.balances, 0 ≤ b.availableDays) ∧ ∀ p ∈ s.pending, 0 ≤ p.2.availableDays

/-- A row that an expiry updates has the days available that the snapshot found to take back. -/
def FindsWhatItTakes (s : RaceState) : RaceAction → Prop
  | .expiryUpdate id key => ∀ found ∈ s.reached id key,
      (found.2.takeBack found.1).storable = true → found.1 ≤ found.2.availableDays
  | _ => True

instance (s : RaceState) (a : RaceAction) : Decidable (FindsWhatItTakes s a) := by
  cases a <;> unfold FindsWhatItTakes <;> infer_instance

theorem LeaveBalance.availableDays_takeBack (clawback : ℤ) (b : LeaveBalance) :
    (b.takeBack clawback).availableDays = b.availableDays - clawback := by
  simp only [takeBack, availableDays]
  omega

/-! ## The operations on the tables -/

/-- A key has one row, no row is negative, and requests are for a day at least. -/
structure LeaveState.Covered (s : LeaveState) : Prop where
  keys : ∀ b ∈ s.balances, ∀ b' ∈ s.balances, b.key = b'.key → b = b'
  available : ∀ b ∈ s.balances, 0 ≤ b.availableDays
  days : ∀ r ∈ s.requests, 1 ≤ r.dayCount

namespace LeaveState.Covered

variable {s t : LeaveState} (hs : s.Covered)

include hs

theorem modify {b : LeaveBalance} {f : LeaveBalance → LeaveBalance} (hb : b ∈ s.balances)
    (hf : ∀ b, (f b).key = b.key) (havail : 0 ≤ (f b).availableDays)
    (hbal : t.balances = Tables.modify (·.key) b.key f s.balances)
    (hdays : ∀ r ∈ t.requests, 1 ≤ r.dayCount) : t.Covered where
  keys := by
    have hkey : ∀ r : LeaveBalance, (if r.key = b.key then f r else r).key = r.key := by
      intro r
      split
      · exact hf r
      · rfl
    rw [hbal]
    intro r hr r' hr' heq
    obtain ⟨x, hx, rfl⟩ := mem_map.1 hr
    obtain ⟨x', hx', rfl⟩ := mem_map.1 hr'
    rw [hkey, hkey] at heq
    rw [hs.keys x hx x' hx' heq]
  available := by
    rw [hbal]
    intro r hr
    rcases mem_modify.1 hr with ⟨x, hx, hkey, rfl⟩ | ⟨hr, -⟩
    · rw [hs.keys x hx b hb hkey]
      exact havail
    · exact hs.available r hr
  days := hdays

theorem submit {tenantId : ℕ} {dto : RequestLeaveDto} {options : SubmitOptions} {pick : ℕ}
    (hdates : dto.dateRangeStart ≤ dto.dateRangeEnd)
    (h : reserveAndSubmit s tenantId dto options pick = .ok t) : t.Covered := by
  obtain ⟨b, needs, hb, -, hdays, -, rfl⟩ := reserveAndSubmit_ok h
  refine hs.modify hb (fun b => (reserve_period needs _ b).2) ?_ rfl ?_
  · cases needs <;> simp only [LeaveBalance.reserve, LeaveBalance.addPending, LeaveBalance.addUsed,
      LeaveBalance.availableDays, if_true, if_false, Bool.false_eq_true] at hdays ⊢ <;> omega
  · intro r hr
    rcases Tables.mem_concat.1 hr with hr | rfl
    · exact hs.days r hr
    · simp only [newRequest, LeaveRequest.dayCount, inclusiveDayCount]
      omega

theorem step {a : LeaveAction} (hjob : a.isJob = false) (ha : leaveStep s a = some t) :
    t.Covered := by
  cases a with
  | passDays days =>
    cases ha
    exact ⟨hs.keys, hs.available, hs.days⟩
  | setLeaveTypes leaveTypes =>
    cases ha
    exact ⟨hs.keys, hs.available, hs.days⟩
  | provision tenantId employeeId dto =>
    obtain ⟨hfresh, -, rfl⟩ := provision_ok (toOption_eq_some ha)
    refine ⟨?_, ?_, hs.days⟩
    · intro b hb b' hb' heq
      rcases mem_append.1 hb with hb | hb <;> rcases mem_append.1 hb' with hb' | hb'
      · exact hs.keys b hb b' hb' heq
      · rw [mem_singleton.1 hb'] at heq
        exact absurd heq (hfresh b hb)
      · rw [mem_singleton.1 hb] at heq
        exact absurd heq.symm (hfresh b' hb')
      · rw [mem_singleton.1 hb, mem_singleton.1 hb']
    · intro b hb
      rcases Tables.mem_concat.1 hb with hb | rfl
      · exact hs.available b hb
      · simp [ProvisionLeaveBalanceDto.row, LeaveBalance.availableDays]
  | requestLeave tenantId dto id chain pick =>
    obtain ⟨hdates, -, options, -, h⟩ := requestLeave_ok (toOption_eq_some ha)
    exact hs.submit hdates h
  | submitBackdatedLeave tenantId dto reason id chain pick =>
    obtain ⟨hdates, -, options, -, h⟩ := submitBackdatedLeave_ok (toOption_eq_some ha)
    exact hs.submit hdates h
  | decide tenantId requestId dto pick =>
    obtain ⟨r, b, hr, -, hb, rfl⟩ := applyDecision_ok (toOption_eq_some ha)
    obtain ⟨hbm, -⟩ := findBalance_some hb
    have hdays := hs.days r (findRequest_some hr).1
    have havail := hs.available b hbm
    refine hs.modify hbm (fun b => (decided_period dto.approve _ b).2) ?_ rfl ?_
    · cases dto.approve <;> simp only [LeaveBalance.decided, LeaveBalance.addPending,
        LeaveBalance.addUsed, LeaveBalance.availableDays, if_true, if_false,
        Bool.false_eq_true] at havail ⊢ <;> omega
    · intro r' hr'
      rcases mem_modify.1 hr' with ⟨x, hx, -, rfl⟩ | ⟨hr', -⟩
      · exact hs.days x hx
      · exact hs.days r' hr'
  | rollover pick => cases hjob
  | expiry => cases hjob
  | accrual => cases hjob

end LeaveState.Covered

/-! ## The invariant -/

structure RaceInv (s : RaceState) : Prop where
  covered : s.leave.Covered
  written : ∀ p ∈ s.pending, 0 ≤ p.2.availableDays
  /-- A row that is written is locked. -/
  writers : ∀ p ∈ s.pending, ∀ p' ∈ s.pending, p.2.key = p'.2.key → p = p'

namespace RaceInv

variable {s t : RaceState} (hs : RaceInv s)

include hs

theorem neverNegative : NeverNegative s := ⟨hs.covered.available, hs.written⟩

theorem ok : Db.Ok (·.key) s.db := ⟨hs.covered.keys, hs.writers⟩

theorem visible {id : ℕ} {b : LeaveBalance} (hb : b ∈ s.db.visible (·.key) id) :
    0 ≤ b.availableDays := by
  rcases Db.mem_visible.1 hb with hp | ⟨hc, -⟩
  · exact hs.written _ hp
  · exact hs.covered.available b hc

theorem setDb {db : Db LeaveBalance ℕ} (hok : Db.Ok (·.key) db)
    (hcommitted : ∀ b ∈ db.committed, 0 ≤ b.availableDays)
    (hpending : ∀ p ∈ db.pending, 0 ≤ p.2.availableDays) (expiries : List ExpiryCall) :
    RaceInv { s.setDb db with expiries := expiries } where
  covered := ⟨hok.committed, hcommitted, hs.covered.days⟩
  written := hpending
  writers := hok.pending

theorem rollback (id : ℕ) : RaceInv ((s.setDb (s.db.rollback id)).endExpiry id) := by
  refine hs.setDb hs.ok.rollback hs.covered.available (fun p hp => ?_) _
  exact hs.written p (Db.mem_pending_rollback.1 hp).1

theorem commit (id : ℕ) : RaceInv ((s.setDb (s.db.commit (·.key) id)).endExpiry id) := by
  refine hs.setDb hs.ok.commit (fun b hb => hs.visible hb) (fun p hp => ?_) _
  exact hs.written p (Db.mem_pending_commit.1 hp).1

theorem update {id : ℕ} {key : BalanceKey} {clawback : ℤ} {b : LeaveBalance}
    (hfree : ¬ s.db.Locked (·.key) id key) (hkey : b.key = key)
    (hfinds : (b.takeBack clawback).storable = true → clawback ≤ b.availableDays) :
    RaceInv (updateExpired s id key clawback b) := by
  unfold updateExpired
  split
  · rename_i hst
    refine hs.setDb (hs.ok.write (hkey ▸ hfree)) hs.covered.available (fun p hp => ?_) _
    rcases Db.mem_pending_write.1 hp with rfl | ⟨hp, -⟩
    · have hle := hfinds hst
      rw [LeaveBalance.availableDays_takeBack]
      omega
    · exact hs.written p hp
  · exact hs.rollback id

end RaceInv

theorem reached_eq_some {s : RaceState} {id : ℕ} {key : BalanceKey} {found : ℤ × LeaveBalance}
    (h : s.reached id key = some found) :
    found.2 ∈ s.db.visible (·.key) id ∧ found.2.key = key := by
  simp only [RaceState.reached, Option.bind_eq_bind, Option.bind_eq_some_iff, Option.pure_def,
    Option.some.injEq] at h
  obtain ⟨call, -, entry, -, b, hb, rfl⟩ := h
  exact ⟨mem_of_find?_eq_some hb, by simpa using find?_some hb⟩

theorem RaceInv.step {s t : RaceState} {a : RaceAction} (hs : RaceInv s)
    (hok : FindsWhatItTakes s a) (ha : raceStep s a = some t) : RaceInv t := by
  cases a with
  | operate a =>
    simp only [raceStep] at ha
    split at ha
    · cases ha
    · rename_i hjob
      split at ha
      · cases ha
      · rename_i leave hleave
        split at ha
        · cases ha
          exact ⟨hs.covered.step (by simpa using hjob) hleave, hs.written, hs.writers⟩
        · cases ha
  | expiryBegin id =>
    simp only [raceStep] at ha
    split at ha
    · cases ha
    · cases ha
      exact ⟨hs.covered, hs.written, hs.writers⟩
  | expiryUpdate id key =>
    simp only [raceStep] at ha
    split at ha
    · cases ha
    · rename_i hfree
      obtain ⟨found, hfound, rfl⟩ := Option.map_eq_some_iff.1 ha
      exact hs.update hfree (reached_eq_some hfound).2 (hok found hfound)
  | expiryCommit id =>
    simp only [raceStep] at ha
    split at ha
    · cases ha
      exact hs.commit id
    · cases ha
  | expiryFail id =>
    cases ha
    exact hs.rollback id

theorem update_breaks {s t : RaceState} {a : RaceAction} (hno : ¬ FindsWhatItTakes s a)
    (ha : raceStep s a = some t) : ¬ NeverNegative t := by
  cases a with
  | expiryUpdate id key =>
    simp only [FindsWhatItTakes] at hno
    push Not at hno
    obtain ⟨found, hfound, hst, hlt⟩ := hno
    simp only [raceStep] at ha
    split at ha
    · cases ha
    · rw [show s.reached id key = some found from hfound] at ha
      cases ha
      rintro ⟨-, hwritten⟩
      have hmem : (id, found.2.takeBack found.1) ∈
          (updateExpired s id key found.1 found.2).pending := by
        rw [updateExpired, if_pos hst]
        exact Db.mem_pending_write.2 (.inl rfl)
      have hpos := hwritten _ hmem
      rw [LeaveBalance.availableDays_takeBack] at hpos
      omega
  | _ => exact absurd trivial hno

/-- **Expiries next to requests and decisions.** From any tables in which no row is negative, along
every accepted run of expiries, requests, backdated submissions, decisions and provisions in any
order: no version of a row is ever negative if and only if every row that an expiry updates then
still has what the snapshot of the expiry found to take back. -/
theorem expiry_neverNegative_iff {leave : LeaveState} (h₀ : leave.Covered) {t : RaceState}
    {as : List RaceAction} (ht : exec raceStep ⟨leave, [], []⟩ as = some t) :
    Always raceStep NeverNegative ⟨leave, [], []⟩ as ↔
      Meets raceStep FindsWhatItTakes ⟨leave, [], []⟩ as := by
  have hinit : RaceInv ⟨leave, [], []⟩ := ⟨h₀, by simp, by simp⟩
  exact always_iff_meets (fun _ => RaceInv.neverNegative) (fun _ _ _ => RaceInv.step)
    (fun _ _ _ _ => update_breaks) hinit ht

/-- Ten days, of which five were carried in and have expired. -/
def carriedDays : LeaveBalance :=
  { key := ⟨40, 1, 20454, 20818⟩, tenantId := 7, accruedDays := 1000, usedDays := 0
    pendingDays := 0, carryoverDaysIn := 500, carryoverExpiryDate := some 20543
    carryoverApplied := true, lastAccruedAt := none, carriedDays := 500, creditedDays := 500 }

def expiredCarryover : LeaveState :=
  { noLeave with today := 20544, balances := [carriedDays] }

theorem expiredCarryover_covered : expiredCarryover.Covered := ⟨by decide, by decide, by decide⟩

/-- A request for eight days, which is then decided. -/
def eightDays : List RaceAction :=
  [.operate (.requestLeave 7 ⟨40, 1, 20600, 20607⟩ 1 100 0), .operate (.decide 7 1 approval 0)]

/-- The expiry takes its snapshot, the request is committed, and the expiry goes on. -/
def requestDuringExpiry : List RaceAction :=
  [.expiryBegin 5] ++ eightDays ++ [.expiryUpdate 5 carriedDays.key, .expiryCommit 5]

/-- The committed row has minus three days available. -/
theorem request_during_expiry : expiredCarryover.Covered ∧
    ∃ t, exec raceStep ⟨expiredCarryover, [], []⟩ requestDuringExpiry = some t ∧
      ∃ b ∈ t.leave.balances, b.availableDays = -300 :=
  ⟨expiredCarryover_covered, exists_exec (by decide)⟩

/-- The request comes when the expiry is over; there are no eight days left then, but there are
five. -/
def requestAfterExpiry : List RaceAction :=
  [.expiryBegin 5, .expiryUpdate 5 carriedDays.key, .expiryCommit 5,
    .operate (.requestLeave 7 ⟨40, 1, 20600, 20604⟩ 1 100 0)]

theorem request_after_expiry :
    Always raceStep NeverNegative ⟨expiredCarryover, [], []⟩ requestAfterExpiry := by
  have hrun : (exec raceStep ⟨expiredCarryover, [], []⟩ requestAfterExpiry).isSome = true := by
    decide
  obtain ⟨t, ht⟩ := Option.isSome_iff_exists.1 hrun
  exact (expiry_neverNegative_iff expiredCarryover_covered ht).2 (by decide)

end Workforce.Leave
