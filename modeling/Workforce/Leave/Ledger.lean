import Workforce.Leave.Balances

/-!
# The counters of a balance row

`Reconciled`: the pending and used days of every balance row are the days of the pending and
approved requests that were reserved on it, and no row is overdrawn.

* `ledger_reconciled_iff`: along a run it holds in every state exactly when each decision finds,
  by its date-range lookup, the row its request was reserved on.
* `decides_on_reserved_of_apart`: it always does when no provisioned period overlaps another
  period of the same employee and leave type.
-/

namespace Workforce.Leave

open Tables Runs List

/-- Days of the requests in a status that were reserved on a row. -/
def reservedDays (requests : List LeaveRequest) (status : LeaveRequestStatus) (key : BalanceKey) :
    ℤ :=
  ((requests.filter fun r => r.status = status && r.reservedOn = key).map (·.dayCount)).sum

/-- The ledger invariant, in hundredths of a day. -/
def Reconciled (s : LeaveState) : Prop :=
  ∀ b ∈ s.balances, b.pendingDays = 100 * reservedDays s.requests .pending b.key ∧
    b.usedDays = 100 * reservedDays s.requests .approved b.key ∧ 0 ≤ b.availableDays
  deriving Decidable

/-- The request a decision is about. -/
def LeaveState.findRequest (s : LeaveState) (tenantId leaveRequestId : ℕ) : Option LeaveRequest :=
  s.requests.find? fun r => r.id = leaveRequestId && r.tenantId = tenantId

/-- A decision looks up the row its request was reserved on. -/
def DecidesOnReserved (s : LeaveState) : LeaveAction → Prop
  | .decide tenantId requestId _ pick => ∀ request,
      s.findRequest tenantId requestId = some request → ∀ balance,
      s.findBalance tenantId request.employeeId request.leaveTypeId request.dateRangeStart
        request.dateRangeEnd pick = some balance → balance.key = request.reservedOn
  | _ => True

instance (s : LeaveState) (a : LeaveAction) : Decidable (DecidesOnReserved s a) :=
  match a with
  | .decide tenantId requestId _ pick =>
    match h : s.findRequest tenantId requestId with
    | none => isTrue (by simp [DecidesOnReserved, h])
    | some r =>
      match hb : s.findBalance tenantId r.employeeId r.leaveTypeId r.dateRangeStart r.dateRangeEnd
          pick with
      | none => isTrue (by simp [DecidesOnReserved, h, hb])
      | some b => decidable_of_iff (b.key = r.reservedOn) (by simp [DecidesOnReserved, h, hb])
  | .passDays _ | .setLeaveTypes _ | .provision _ _ _ | .requestLeave _ _ _ _ _
  | .submitBackdatedLeave _ _ _ _ _ _ | .rollover _ | .expiry | .accrual => isTrue trivial

/-! ## What an accepted operation did -/

section Inversion

variable {s t : LeaveState}

variable {pick : ℕ} {b : LeaveBalance}

theorem mem_of_getOne {rows : List LeaveBalance} (h : getOne pick rows = some b) :
    b ∈ rows := mem_of_getElem? h

theorem findBalance_some {tenantId employeeId leaveTypeId : ℕ} {start fin : ℤ}
    (h : s.findBalance tenantId employeeId leaveTypeId start fin pick = some b) :
    b ∈ s.balances ∧ b.covers tenantId employeeId leaveTypeId start fin = true :=
  mem_filter.1 (mem_of_getOne h)

theorem findRequest_some {tenantId requestId : ℕ} {r : LeaveRequest}
    (h : s.findRequest tenantId requestId = some r) :
    r ∈ s.requests ∧ r.id = requestId ∧ r.tenantId = tenantId := by
  refine ⟨mem_of_find?_eq_some h, ?_⟩
  simpa using find?_some h

theorem updateBalance_ok {f : LeaveBalance → LeaveBalance} (h : s.updateBalance b f = .ok t) :
    (f b).storable = true ∧ t = { s with balances := modify (·.key) b.key f s.balances } := by
  unfold LeaveState.updateBalance at h
  split at h
  · rename_i hst
    exact ⟨hst, (Except.ok.inj h).symm⟩
  · cases h

theorem updateAll_ok {f : LeaveBalance → LeaveBalance} (h : s.updateAll f = .ok t) :
    t = { s with balances := s.balances.map f } := by
  unfold LeaveState.updateAll at h
  split at h
  · exact (Except.ok.inj h).symm
  · cases h

theorem insertRequest_ok {r : LeaveRequest} (h : s.insertRequest r = .ok t) :
    (∀ r' ∈ s.requests, r'.id ≠ r.id) ∧ t = { s with requests := s.requests ++ [r] } := by
  unfold LeaveState.insertRequest at h
  split at h
  · cases h
  · rename_i hfree
    refine ⟨fun r' hr' hid => hfree ?_, (Except.ok.inj h).symm⟩
    simp only [any_eq_true, Bool.or_eq_true, decide_eq_true_eq]
    exact ⟨r', hr', .inr hid⟩

variable {dto : RequestLeaveDto}

/-- An accepted submission reserved its days on a row that covers them and has them. -/
theorem reserveAndSubmit_ok {tenantId : ℕ} {options : SubmitOptions}
    (h : reserveAndSubmit s tenantId dto options pick = .ok t) :
    ∃ b needsDecision, b ∈ s.balances ∧
      b.covers tenantId dto.employeeId dto.leaveTypeId dto.dateRangeStart dto.dateRangeEnd = true ∧
      100 * inclusiveDayCount dto.dateRangeStart dto.dateRangeEnd ≤ b.availableDays ∧
      (∀ r ∈ s.requests, r.id ≠ options.id) ∧
      t = { s with
        balances := modify (·.key) b.key
          (.reserve needsDecision (inclusiveDayCount dto.dateRangeStart dto.dateRangeEnd))
          s.balances
        requests := s.requests ++ [newRequest tenantId dto options needsDecision b] } := by
  unfold reserveAndSubmit at h
  split at h
  · cases h
  rename_i b hb
  obtain ⟨hm, hcov⟩ := findBalance_some hb
  simp only [bind, Except.bind, throw, throwThe, MonadExceptOf.throw] at h
  split at h
  · cases h
  rename_i hdays
  split at h
  · cases h
  rename_i lt hlt
  split at h
  · cases h
  rename_i v hv
  obtain ⟨-, rfl⟩ := updateBalance_ok hv
  obtain ⟨hfresh, rfl⟩ := insertRequest_ok h
  exact ⟨b, lt.requiresApproval || options.forcePending, hm, hcov, by omega, hfresh, rfl⟩

theorem requestLeave_ok {tenantId : ℕ} {id chain pick : ℕ}
    (h : requestLeave s tenantId dto id chain pick = .ok t) :
    dto.dateRangeStart ≤ dto.dateRangeEnd ∧ s.today ≤ dto.dateRangeStart ∧
      ∃ options, options.id = id ∧ reserveAndSubmit s tenantId dto options pick = .ok t := by
  simp only [requestLeave, bind, Except.bind, throw, throwThe, MonadExceptOf.throw] at h
  split at h
  · cases h
  rename_i hdates
  split at h
  · cases h
  rename_i htoday
  exact ⟨by omega, by omega, _, rfl, h⟩

theorem submitBackdatedLeave_ok {tenantId : ℕ} {reason : String} {id chain pick : ℕ}
    (h : submitBackdatedLeave s tenantId dto reason id chain pick = .ok t) :
    dto.dateRangeStart ≤ dto.dateRangeEnd ∧ dto.dateRangeStart < s.today ∧
      ∃ options, options.id = id ∧ reserveAndSubmit s tenantId dto options pick = .ok t := by
  simp only [submitBackdatedLeave, bind, Except.bind, throw, throwThe, MonadExceptOf.throw] at h
  split at h
  · cases h
  rename_i hdates
  split at h
  · cases h
  rename_i htoday
  exact ⟨by omega, by omega, _, rfl, h⟩

/-- An accepted decision was of a pending request, on a row that covers its dates. -/
theorem applyDecision_ok {tenantId requestId : ℕ} {dto : DecideLeaveRequestDto}
    (h : applyDecision s tenantId requestId dto pick = .ok t) :
    ∃ r b, s.findRequest tenantId requestId = some r ∧ r.status = .pending ∧
      s.findBalance tenantId r.employeeId r.leaveTypeId r.dateRangeStart r.dateRangeEnd pick =
        some b ∧
      t = { s with
        balances := modify (·.key) b.key (.decided dto.approve r.dayCount) s.balances
        requests := modify (·.id) requestId (·.decided dto) s.requests } := by
  unfold applyDecision at h
  split at h
  · cases h
  rename_i r hr
  simp only [bind, Except.bind, throw, throwThe, MonadExceptOf.throw] at h
  split at h
  · cases h
  rename_i hpend
  split at h
  · cases h
  split at h
  · cases h
  rename_i b hb
  split at h
  · cases h
  rename_i v hv
  obtain ⟨-, rfl⟩ := updateBalance_ok hv
  cases h
  exact ⟨r, b, hr, by simpa using hpend, hb, rfl⟩

theorem provision_ok {tenantId employeeId : ℕ} {dto : ProvisionLeaveBalanceDto}
    (h : provision s tenantId employeeId dto = .ok t) :
    (∀ b ∈ s.balances, b.key ≠ (dto.row tenantId employeeId).key) ∧
      (dto.row tenantId employeeId).storable = true ∧
      t = { s with balances := s.balances ++ [dto.row tenantId employeeId] } := by
  unfold provision at h
  dsimp only at h
  split at h
  · cases h
  split at h
  · cases h
  rename_i hfresh
  split at h
  · cases h
  rename_i hst
  exact ⟨by simpa using hfresh, by simpa using hst, (Except.ok.inj h).symm⟩

end Inversion

/-! ## Sums of reserved days -/

section Sums

variable {requests : List LeaveRequest} (status : LeaveRequestStatus) (key : BalanceKey)

/-- What one request adds to the days in a status on a row. -/
def LeaveRequest.weight (r : LeaveRequest) : ℤ :=
  if r.status = status && r.reservedOn = key then r.dayCount else 0

theorem reservedDays_eq : reservedDays requests status key =
    (requests.map (·.weight status key)).sum :=
  sum_filter_map requests _ _

theorem reservedDays_append (r : LeaveRequest) :
    reservedDays (requests ++ [r]) status key =
      reservedDays requests status key + r.weight status key := by
  simp [reservedDays_eq]

variable {r : LeaveRequest}

theorem reservedDays_decided (hn : (requests.map (·.id)).Nodup) (hr : r ∈ requests)
    (dto : DecideLeaveRequestDto) :
    reservedDays (modify (·.id) r.id (·.decided dto) requests) status key =
      reservedDays requests status key - r.weight status key +
        (r.decided dto).weight status key := by
  rw [reservedDays_eq, reservedDays_eq]
  exact sum_map_modify hn hr _ _

variable {status key}

theorem LeaveRequest.weight_of_ne (h : r.reservedOn ≠ key) :
    r.weight status key = 0 := by simp [weight, h]

theorem LeaveRequest.weight_of_status_ne (h : r.status ≠ status) :
    r.weight status key = 0 := by simp [weight, h]

theorem LeaveRequest.weight_of_eq (hst : r.status = status) (hon : r.reservedOn = key) :
    r.weight status key = r.dayCount := by
  simp [weight, hst, hon]

end Sums

/-! ## Operations on a row keep its period -/

theorem reserve_period (needs : Bool) (days : ℤ) (b : LeaveBalance) :
    (b.reserve needs days).tenantId = b.tenantId ∧ (b.reserve needs days).key = b.key := by
  unfold LeaveBalance.reserve
  split <;> exact ⟨rfl, rfl⟩

theorem decided_period (approve : Bool) (days : ℤ) (b : LeaveBalance) :
    (b.decided approve days).tenantId = b.tenantId ∧ (b.decided approve days).key = b.key := by
  unfold LeaveBalance.decided
  split <;> exact ⟨rfl, rfl⟩

/-! ## The invariant -/

/-- Two versions of a row with the same key and the same days requested. -/
structure LeaveBalance.SameCounters (b' b : LeaveBalance) : Prop where
  key : b'.key = b.key
  tenant : b'.tenantId = b.tenantId
  used : b'.usedDays = b.usedDays
  pending : b'.pendingDays = b.pendingDays

theorem LeaveBalance.SameCounters.refl (b : LeaveBalance) : b.SameCounters b := ⟨rfl, rfl, rfl, rfl⟩

structure LedgerInvariant (s : LeaveState) : Prop where
  keys : (s.balances.map (·.key)).Nodup
  ids : (s.requests.map (·.id)).Nodup
  /-- The row a request was reserved on is there. -/
  rows : ∀ r ∈ s.requests, ∃ b ∈ s.balances, b.key = r.reservedOn
  days : ∀ r ∈ s.requests, 1 ≤ r.dayCount
  reconciled : Reconciled s

/-- The start: no balance and no request. -/
structure LeaveInit (s : LeaveState) : Prop where
  balances : s.balances = []
  requests : s.requests = []

theorem LeaveInit.invariant {s : LeaveState} (h : LeaveInit s) : LedgerInvariant s where
  keys := by simp [h.balances]
  ids := by simp [h.requests]
  rows := by simp [h.requests]
  days := by simp [h.requests]
  reconciled := by simp [Reconciled, h.balances]

namespace LedgerInvariant

variable {s t : LeaveState} (hs : LedgerInvariant s)

include hs

/-- A change of rows that keeps keys and counters, and overdraws nothing. -/
theorem map {f : LeaveBalance → LeaveBalance} (hf : ∀ b, (f b).SameCounters b)
    (havail : ∀ b ∈ s.balances, 0 ≤ b.availableDays → 0 ≤ (f b).availableDays) :
    LedgerInvariant { s with balances := s.balances.map f } where
  keys := by
    have hmap : (s.balances.map f).map (·.key) = s.balances.map (·.key) := by
      simp [(hf _).key, Function.comp_def]
    exact hmap ▸ hs.keys
  ids := hs.ids
  rows := by
    intro r hr
    obtain ⟨b, hb, hk⟩ := hs.rows r hr
    exact ⟨f b, mem_map_of_mem hb, by rw [(hf b).key, hk]⟩
  days := hs.days
  reconciled := by
    intro b' hb'
    obtain ⟨b, hb, rfl⟩ := mem_map.1 hb'
    obtain ⟨hp, hu, ha⟩ := hs.reconciled b hb
    rw [(hf b).key, (hf b).used, (hf b).pending]
    exact ⟨hp, hu, havail b hb ha⟩

theorem provision {row : LeaveBalance} (hfresh : ∀ b ∈ s.balances, b.key ≠ row.key)
    (hpend : row.pendingDays = 0) (hused : row.usedDays = 0) (hacc : 0 ≤ row.accruedDays) :
    LedgerInvariant { s with balances := s.balances ++ [row] } where
  keys := nodup_append_singleton hs.keys hfresh
  ids := hs.ids
  rows := by
    intro r hr
    obtain ⟨b, hb, hk⟩ := hs.rows r hr
    exact ⟨b, mem_append_left _ hb, hk⟩
  days := hs.days
  reconciled := by
    -- no request was reserved on a row that was not there
    have hzero : ∀ status, reservedDays s.requests status row.key = 0 := by
      intro status
      rw [reservedDays_eq]
      refine sum_eq_zero fun x hx => ?_
      obtain ⟨r, hr, rfl⟩ := mem_map.1 hx
      obtain ⟨b, hb, hk⟩ := hs.rows r hr
      exact LeaveRequest.weight_of_ne fun h => hfresh b hb (hk.trans h)
    intro b hb
    rcases Tables.mem_concat.1 hb with hb | rfl
    · exact hs.reconciled b hb
    · rw [hzero, hzero, LeaveBalance.availableDays, hpend, hused]
      exact ⟨rfl, rfl, by omega⟩

variable {b : LeaveBalance}

/-- One row changes together with the requests, which hold the same days on every other row. -/
theorem modify (hb : b ∈ s.balances) {f : LeaveBalance → LeaveBalance}
    (hkey : ∀ x, (f x).key = x.key) {requests : List LeaveRequest}
    (hids : (requests.map (·.id)).Nodup)
    (hrows : ∀ r ∈ requests, ∃ x ∈ s.balances, x.key = r.reservedOn)
    (hdays : ∀ r ∈ requests, 1 ≤ r.dayCount) (hother : ∀ status key, key ≠ b.key →
      reservedDays requests status key = reservedDays s.requests status key)
    (hrow : (f b).pendingDays = 100 * reservedDays requests .pending b.key ∧
      (f b).usedDays = 100 * reservedDays requests .approved b.key ∧ 0 ≤ (f b).availableDays) :
    LedgerInvariant { s with
      balances := Tables.modify (·.key) b.key f s.balances, requests := requests } where
  keys := by
    rw [map_key_modify hkey]
    exact hs.keys
  ids := hids
  rows := by
    intro r hr
    obtain ⟨x, hx, hk⟩ := hrows r hr
    by_cases hxb : x.key = b.key
    · exact ⟨f x, mem_modify.2 (.inl ⟨x, hx, hxb, rfl⟩), by rw [hkey, hk]⟩
    · exact ⟨x, mem_modify.2 (.inr ⟨hx, hxb⟩), hk⟩
  days := hdays
  reconciled := by
    intro x hx
    rcases mem_modify.1 hx with ⟨x₀, hx₀, hk, rfl⟩ | ⟨hx, hk⟩
    · obtain rfl := eq_of_key_eq hs.keys hx₀ hb hk
      rw [hkey]
      exact hrow
    · rw [hother _ _ hk, hother _ _ hk]
      exact hs.reconciled x hx

/-- The reserved days of a new request go to its row, as pending or as used. -/
theorem reserve_reconciled (hb : b ∈ s.balances) {r : LeaveRequest} (hon : r.reservedOn = b.key)
    {needs : Bool} (hst : r.status = if needs then .pending else .approved)
    (hdays : 100 * r.dayCount ≤ b.availableDays) :
    (b.reserve needs r.dayCount).pendingDays =
        100 * reservedDays (s.requests ++ [r]) .pending b.key ∧
      (b.reserve needs r.dayCount).usedDays =
        100 * reservedDays (s.requests ++ [r]) .approved b.key ∧
      0 ≤ (b.reserve needs r.dayCount).availableDays := by
  obtain ⟨hp, hu, -⟩ := hs.reconciled b hb
  rw [reservedDays_append, reservedDays_append]
  cases needs with
  | true =>
    have hwp : r.weight .pending b.key = r.dayCount := LeaveRequest.weight_of_eq hst hon
    have hwa : r.weight .approved b.key = 0 :=
      LeaveRequest.weight_of_status_ne (by rw [hst]; decide)
    rw [hwp, hwa]
    simp only [LeaveBalance.reserve, LeaveBalance.addPending, LeaveBalance.availableDays,
      if_true] at hdays ⊢
    exact ⟨by omega, by omega, by omega⟩
  | false =>
    have hwp : r.weight .pending b.key = 0 :=
      LeaveRequest.weight_of_status_ne (by rw [hst]; decide)
    have hwa : r.weight .approved b.key = r.dayCount := LeaveRequest.weight_of_eq hst hon
    rw [hwp, hwa]
    simp only [LeaveBalance.reserve, LeaveBalance.addUsed, LeaveBalance.availableDays,
      Bool.false_eq_true, if_false] at hdays ⊢
    exact ⟨by omega, by omega, by omega⟩

theorem submit {tenantId : ℕ} {dto : RequestLeaveDto} {options : SubmitOptions} {pick : ℕ}
    (hdates : dto.dateRangeStart ≤ dto.dateRangeEnd)
    (h : reserveAndSubmit s tenantId dto options pick = .ok t) : LedgerInvariant t := by
  obtain ⟨b, needs, hb, -, hdays, hfresh, rfl⟩ := reserveAndSubmit_ok h
  have hpos : 1 ≤ (newRequest tenantId dto options needs b).dayCount := by
    simp only [newRequest, LeaveRequest.dayCount, inclusiveDayCount]
    omega
  refine hs.modify hb (fun x => (reserve_period needs _ x).2) ?_ ?_ ?_ ?_ ?_
  · exact nodup_append_singleton hs.ids hfresh
  · intro r hr
    rcases Tables.mem_concat.1 hr with hr | rfl
    · exact hs.rows r hr
    · exact ⟨b, hb, rfl⟩
  · intro r hr
    rcases Tables.mem_concat.1 hr with hr | rfl
    · exact hs.days r hr
    · exact hpos
  · intro status key hne
    have hoff : (newRequest tenantId dto options needs b).reservedOn ≠ key := Ne.symm hne
    rw [reservedDays_append, LeaveRequest.weight_of_ne hoff, add_zero]
  · exact hs.reserve_reconciled (r := newRequest tenantId dto options needs b) hb rfl rfl hdays

/-- A decision on the row of a pending request turns its pending days into used ones, or frees
them. -/
theorem decided_reconciled (hb : b ∈ s.balances) {r : LeaveRequest} (hr : r ∈ s.requests)
    (hpend : r.status = .pending) (hon : r.reservedOn = b.key) (dto : DecideLeaveRequestDto) :
    (b.decided dto.approve r.dayCount).pendingDays =
        100 * reservedDays (Tables.modify (·.id) r.id (·.decided dto) s.requests) .pending b.key ∧
      (b.decided dto.approve r.dayCount).usedDays =
        100 * reservedDays (Tables.modify (·.id) r.id (·.decided dto) s.requests) .approved
          b.key ∧
      0 ≤ (b.decided dto.approve r.dayCount).availableDays := by
  obtain ⟨hp, hu, ha⟩ := hs.reconciled b hb
  have hpos := hs.days r hr
  have hwp : r.weight .pending b.key = r.dayCount := LeaveRequest.weight_of_eq hpend hon
  have hwa : r.weight .approved b.key = 0 :=
    LeaveRequest.weight_of_status_ne (by rw [hpend]; decide)
  rw [reservedDays_decided _ _ hs.ids hr, reservedDays_decided _ _ hs.ids hr, hwp, hwa]
  cases hdec : dto.approve with
  | true =>
    have hst : (r.decided dto).status = .approved := by simp [LeaveRequest.decided, hdec]
    have hwp' : (r.decided dto).weight .pending b.key = 0 :=
      LeaveRequest.weight_of_status_ne (by rw [hst]; decide)
    have hwa' : (r.decided dto).weight .approved b.key = r.dayCount :=
      LeaveRequest.weight_of_eq hst hon
    rw [hwp', hwa']
    simp only [LeaveBalance.decided, LeaveBalance.addPending, LeaveBalance.addUsed,
      LeaveBalance.availableDays, if_true] at ha ⊢
    exact ⟨by omega, by omega, by omega⟩
  | false =>
    have hst : (r.decided dto).status = .rejected := by simp [LeaveRequest.decided, hdec]
    have hwp' : (r.decided dto).weight .pending b.key = 0 :=
      LeaveRequest.weight_of_status_ne (by rw [hst]; decide)
    have hwa' : (r.decided dto).weight .approved b.key = 0 :=
      LeaveRequest.weight_of_status_ne (by rw [hst]; decide)
    rw [hwp', hwa']
    simp only [LeaveBalance.decided, LeaveBalance.addPending, LeaveBalance.availableDays,
      Bool.false_eq_true, if_false] at ha ⊢
    exact ⟨by omega, by omega, by omega⟩

theorem decide {tenantId requestId : ℕ} {dto : DecideLeaveRequestDto} {pick : ℕ}
    (hok : DecidesOnReserved s (.decide tenantId requestId dto pick))
    (h : applyDecision s tenantId requestId dto pick = .ok t) : LedgerInvariant t := by
  obtain ⟨r, b, hr, hpend, hb, rfl⟩ := applyDecision_ok h
  have hon : r.reservedOn = b.key := (hok r hr b hb).symm
  obtain ⟨hrm, rfl, -⟩ := findRequest_some hr
  obtain ⟨hbm, -⟩ := findBalance_some hb
  have hids : (Tables.modify (·.id) r.id (·.decided dto) s.requests).map (·.id) =
      s.requests.map (·.id) := map_key_modify (by intro; rfl) _
  refine hs.modify hbm (fun x => (decided_period _ _ x).2) ?_ ?_ ?_ ?_ ?_
  · exact hids ▸ hs.ids
  · intro r' hr'
    rcases mem_modify.1 hr' with ⟨r₀, hr₀, -, rfl⟩ | ⟨hr', -⟩
    · exact hs.rows r₀ hr₀
    · exact hs.rows r' hr'
  · intro r' hr'
    rcases mem_modify.1 hr' with ⟨r₀, hr₀, -, rfl⟩ | ⟨hr', -⟩
    · exact hs.days r₀ hr₀
    · exact hs.days r' hr'
  · intro status key hne
    have hoff : r.reservedOn ≠ key := fun h => hne (h.symm.trans hon)
    have hoff' : (r.decided dto).reservedOn ≠ key := hoff
    rw [reservedDays_decided _ _ hs.ids hrm, LeaveRequest.weight_of_ne hoff,
      LeaveRequest.weight_of_ne hoff', sub_zero, add_zero]
  · exact hs.decided_reconciled hbm hrm hpend hon dto

/-- A decision on another row leaves the reserved one with days that no request holds. -/
theorem decide_breaks {tenantId requestId : ℕ} {dto : DecideLeaveRequestDto} {pick : ℕ}
    (hno : ¬ DecidesOnReserved s (.decide tenantId requestId dto pick))
    (h : applyDecision s tenantId requestId dto pick = .ok t) : ¬ Reconciled t := by
  obtain ⟨r, b, hr, hpend, hb, rfl⟩ := applyDecision_ok h
  have hne : b.key ≠ r.reservedOn := by
    intro hon
    refine hno fun r' hr' b' hb' => ?_
    obtain rfl := Option.some.inj (hr.symm.trans hr')
    obtain rfl := Option.some.inj (hb.symm.trans hb')
    exact hon
  obtain ⟨hrm, rfl, -⟩ := findRequest_some hr
  obtain ⟨own, hown, hk⟩ := hs.rows r hrm
  have hmem : own ∈ Tables.modify (·.key) b.key (.decided dto.approve r.dayCount) s.balances :=
    mem_modify.2 (.inr ⟨hown, fun h => hne (h.symm.trans hk)⟩)
  intro hrec
  obtain ⟨hp, -, -⟩ := hrec own hmem
  obtain ⟨hp₀, -, -⟩ := hs.reconciled own hown
  have hw : r.weight .pending own.key = r.dayCount := LeaveRequest.weight_of_eq hpend hk.symm
  have hw' : (r.decided dto).weight .pending own.key = 0 := by
    refine LeaveRequest.weight_of_status_ne ?_
    cases hdec : dto.approve <;> simp [LeaveRequest.decided, hdec]
  rw [reservedDays_decided _ _ hs.ids hrm, hw, hw'] at hp
  have hpos := hs.days r hrm
  omega

end LedgerInvariant

/-! ## The jobs keep the counters -/

theorem rolledOver_eq (s : LeaveState) (pick : BalanceKey → ℕ) (b : LeaveBalance) :
    rolledOver s pick b = b ∨ ∃ p lt, p ∈ s.balances ∧ b.carryoverApplied = false ∧
      b.closedBefore s.today p = true ∧ rolledOver s pick b = b.rollOver p lt := by
  unfold rolledOver
  split
  · exact .inl rfl
  rename_i happ
  split
  · exact .inl rfl
  rename_i p hp
  obtain ⟨hm, hcl⟩ := mem_filter.1 (mem_of_getOne hp)
  split
  · exact .inl rfl
  · exact .inr ⟨p, _, hm, by simpa using happ, hcl, rfl⟩

theorem LeaveBalance.carryover_nonneg (p : LeaveBalance) (lt : LeaveType) : 0 ≤ p.carryover lt := by
  unfold carryover
  omega

theorem LeaveBalance.clawback_le {b : LeaveBalance} (h : 0 ≤ b.availableDays) :
    b.clawback ≤ b.availableDays := by
  unfold clawback
  omega

theorem LeaveBalance.expire_eq (today : ℤ) (b : LeaveBalance) :
    b.expire today = b ∨ b.expired today = true ∧ b.expire today = { b with
      accruedDays := b.accruedDays - b.clawback, carryoverDaysIn := 0, carryoverExpiryDate := none
      creditedDays :=
        if b.carryoverApplied then b.creditedDays - b.clawback else b.creditedDays } := by
  unfold expire
  split
  · rename_i h
    exact .inr ⟨h, rfl⟩
  · exact .inl rfl

theorem accrued_eq (s : LeaveState) (b : LeaveBalance) :
    accrued s b = b ∨ ∃ days ≥ 0, s.today ≤ b.key.periodEnd ∧ accrued s b = { b with
      accruedDays := b.accruedDays + days, lastAccruedAt := some s.today } := by
  unfold accrued
  split
  · rename_i ap hlt
    split
    · rename_i hdue
      simp only [Bool.and_eq_true, decide_eq_true_eq] at hdue
      obtain ⟨⟨⟨-, hopen⟩, hcap⟩, -⟩ := hdue
      refine .inr ⟨min (b.accruedDays + ap.accrualRatePerPeriod) (ap.maxBalanceCap.getD
        (b.accruedDays + ap.accrualRatePerPeriod)) - b.accruedDays, ?_, hopen, ?_⟩
      · cases hc : ap.maxBalanceCap with
        | none => simp
        | some cap =>
          simp only [hc, Option.all_some, decide_eq_true_eq] at hcap
          simp only [Option.getD_some, ge_iff_le]
          omega
      · congr 1
        omega
    · exact .inl rfl
  · exact .inl rfl

theorem rolledOver_counters (s : LeaveState) (pick : BalanceKey → ℕ) (b : LeaveBalance) :
    (rolledOver s pick b).SameCounters b := by
  rcases rolledOver_eq s pick b with h | ⟨p, lt, -, -, -, h⟩
  · rw [h]
    exact .refl b
  · rw [h]
    exact ⟨rfl, rfl, rfl, rfl⟩

theorem expire_counters (today : ℤ) (b : LeaveBalance) : (b.expire today).SameCounters b := by
  rcases LeaveBalance.expire_eq today b with h | ⟨-, h⟩
  · rw [h]
    exact .refl b
  · rw [h]
    exact ⟨rfl, rfl, rfl, rfl⟩

theorem accrued_counters (s : LeaveState) (b : LeaveBalance) : (accrued s b).SameCounters b := by
  rcases accrued_eq s b with h | ⟨days, -, -, h⟩
  · rw [h]
    exact .refl b
  · rw [h]
    exact ⟨rfl, rfl, rfl, rfl⟩

variable {s t : LeaveState}

theorem LedgerInvariant.step {a : LeaveAction} (hs : LedgerInvariant s)
    (hok : DecidesOnReserved s a) (ha : leaveStep s a = some t) : LedgerInvariant t := by
  cases a with
  | passDays days =>
    cases ha
    exact ⟨hs.keys, hs.ids, hs.rows, hs.days, hs.reconciled⟩
  | setLeaveTypes leaveTypes =>
    cases ha
    exact ⟨hs.keys, hs.ids, hs.rows, hs.days, hs.reconciled⟩
  | provision tenantId employeeId dto =>
    obtain ⟨hfresh, -, rfl⟩ := provision_ok (toOption_eq_some ha)
    exact hs.provision hfresh rfl rfl (Int.natCast_nonneg _)
  | requestLeave tenantId dto id chain pick =>
    obtain ⟨hdates, -, options, -, h⟩ := requestLeave_ok (toOption_eq_some ha)
    exact hs.submit hdates h
  | submitBackdatedLeave tenantId dto reason id chain pick =>
    obtain ⟨hdates, -, options, -, h⟩ := submitBackdatedLeave_ok (toOption_eq_some ha)
    exact hs.submit hdates h
  | decide tenantId requestId dto pick => exact hs.decide hok (toOption_eq_some ha)
  | rollover pick =>
    obtain rfl := updateAll_ok (toOption_eq_some ha)
    refine hs.map (rolledOver_counters s pick) fun b _ hav => ?_
    rcases rolledOver_eq s pick b with h | ⟨p, lt, -, -, -, h⟩
    · rwa [h]
    · have := p.carryover_nonneg lt
      rw [h]
      simp only [LeaveBalance.availableDays, LeaveBalance.rollOver] at hav ⊢
      omega
  | expiry =>
    obtain rfl := updateAll_ok (toOption_eq_some ha)
    refine hs.map (expire_counters s.today) fun b _ hav => ?_
    rcases LeaveBalance.expire_eq s.today b with h | ⟨-, h⟩
    · rwa [h]
    · have := LeaveBalance.clawback_le hav
      rw [h]
      simp only [LeaveBalance.availableDays] at this ⊢
      omega
  | accrual =>
    obtain rfl := updateAll_ok (toOption_eq_some ha)
    refine hs.map (accrued_counters s) fun b _ hav => ?_
    rcases accrued_eq s b with h | ⟨d, hd, -, h⟩
    · rwa [h]
    · rw [h]
      simp only [LeaveBalance.availableDays] at hav ⊢
      omega

/-- **The ledger is reconciled exactly as long as decisions land where the days were reserved.**
From the empty tables, for every accepted sequence of provisions, requests, backdated submissions,
decisions and job ticks: in every state each row's pending and used days are those of the pending
and approved requests reserved on it and no row is overdrawn, if and only if every decision looks
up the row its request was reserved on. -/
theorem ledger_reconciled_iff {s t : LeaveState} {as : List LeaveAction} (h₀ : LeaveInit s)
    (ht : exec leaveStep s as = some t) :
    Always leaveStep Reconciled s as ↔ Meets leaveStep DecidesOnReserved s as := by
  refine always_iff_meets (fun _ hs => hs.reconciled) (fun _ _ _ hs hok ha => hs.step hok ha) ?_
    h₀.invariant ht
  intro s a t hs hno ha
  cases a with
  | decide tenantId requestId dto pick => exact hs.decide_breaks hno (toOption_eq_some ha)
  | _ => exact absurd trivial hno

def noLeave : LeaveState :=
  { today := 20454, leaveTypes := [⟨1, 7, true, some 500, none, none⟩], balances := []
    requests := [] }

theorem leaveInit_noLeave : LeaveInit noLeave := ⟨rfl, rfl⟩

def approval : DecideLeaveRequestDto := ⟨true, 90, [], none⟩

/-- Five days of leave in the one period, approved. -/
def approvedLeaveRun : List LeaveAction :=
  [.provision 7 40 ⟨1, 20454, 20818, 2000, none, none⟩,
    .requestLeave 7 ⟨40, 1, 20464, 20468⟩ 1 100 0, .decide 7 1 approval 0, .expiry]

theorem reconciled_on_approvedLeaveRun : Always leaveStep Reconciled noLeave approvedLeaveRun := by
  obtain ⟨t, ht, -⟩ : ∃ t, exec leaveStep noLeave approvedLeaveRun = some t ∧ True :=
    exists_exec (by decide)
  exact (ledger_reconciled_iff leaveInit_noLeave ht).2 (by decide)

/-- A second period is provisioned inside the first, after a request on the first. The next request
is reserved on the second; the decision of the first request then finds the second period too. -/
def overlappingPeriodsRun : List LeaveAction :=
  [.provision 7 40 ⟨1, 20454, 20818, 2000, none, none⟩,
    .requestLeave 7 ⟨40, 1, 20464, 20468⟩ 1 100 0,
    .provision 7 40 ⟨1, 20454, 20634, 1000, none, none⟩,
    .requestLeave 7 ⟨40, 1, 20474, 20478⟩ 2 101 1, .decide 7 1 approval 1]

theorem overlapping_periods_not_reconciled : LeaveInit noLeave ∧
    ∃ t, exec leaveStep noLeave overlappingPeriodsRun = some t ∧ ¬ Reconciled t :=
  ⟨leaveInit_noLeave, exists_exec (by decide)⟩

/-! ## Periods that do not overlap -/

/-- The tenant and key of every balance row. -/
def LeaveState.periods (s : LeaveState) : List (ℕ × BalanceKey) :=
  s.balances.map fun b => (b.tenantId, b.key)

/-- Neither period reaches into the other. -/
def BalanceKey.Disjoint (k k' : BalanceKey) : Prop :=
  k.periodEnd < k'.periodStart ∨ k'.periodEnd < k.periodStart
  deriving Decidable

/-- A provisioned period overlaps no period of the same employee and leave type. -/
def ProvisionsApart (s : LeaveState) : LeaveAction → Prop
  | .provision tenantId employeeId dto => ∀ b ∈ s.balances, b.tenantId = tenantId →
      b.key.employeeId = employeeId → b.key.leaveTypeId = dto.leaveTypeId →
      b.key.Disjoint (dto.row tenantId employeeId).key
  | _ => True

theorem periods_map {s : LeaveState} {f : LeaveBalance → LeaveBalance}
    (hf : ∀ b, (f b).tenantId = b.tenantId ∧ (f b).key = b.key) :
    ({ s with balances := s.balances.map f } : LeaveState).periods = s.periods := by
  simp [LeaveState.periods, hf, Function.comp_def]

theorem periods_modify {s : LeaveState} {k : BalanceKey} {f : LeaveBalance → LeaveBalance}
    (hf : ∀ b, (f b).tenantId = b.tenantId ∧ (f b).key = b.key) :
    (modify (·.key) k f s.balances).map (fun b => (b.tenantId, b.key)) = s.periods := by
  simp only [LeaveState.periods, Tables.modify, map_map]
  refine map_congr_left fun b _ => ?_
  simp only [Function.comp_apply]
  split
  · rw [(hf b).1, (hf b).2]
  · rfl

theorem submit_periods {tenantId : ℕ} {dto : RequestLeaveDto} {options : SubmitOptions} {pick : ℕ}
    (h : reserveAndSubmit s tenantId dto options pick = .ok t) :
    t.periods = s.periods ∧ ∃ b needs, b ∈ s.balances ∧
      b.covers tenantId dto.employeeId dto.leaveTypeId dto.dateRangeStart dto.dateRangeEnd = true ∧
      t.requests = s.requests ++ [newRequest tenantId dto options needs b] := by
  obtain ⟨b, needs, hb, hcov, -, -, rfl⟩ := reserveAndSubmit_ok h
  exact ⟨periods_modify (reserve_period _ _), b, needs, hb, hcov, rfl⟩

theorem leaveStep_periods {a : LeaveAction} (ha : leaveStep s a = some t) :
    (∃ tenantId employeeId dto, a = .provision tenantId employeeId dto ∧
      t.periods = s.periods ++ [(tenantId, (dto.row tenantId employeeId).key)] ∧
      t.requests = s.requests) ∨
    t.periods = s.periods ∧ (t.requests = s.requests ∨
      (∃ tenantId dto options b needs, b ∈ s.balances ∧ dto.dateRangeStart ≤ dto.dateRangeEnd ∧
        b.covers tenantId dto.employeeId dto.leaveTypeId dto.dateRangeStart dto.dateRangeEnd =
          true ∧
        t.requests = s.requests ++ [newRequest tenantId dto options needs b]) ∨
      ∃ requestId dto, t.requests = modify (·.id) requestId (·.decided dto) s.requests) := by
  cases a with
  | passDays days =>
    cases ha
    exact .inr ⟨rfl, .inl rfl⟩
  | setLeaveTypes leaveTypes =>
    cases ha
    exact .inr ⟨rfl, .inl rfl⟩
  | provision tenantId employeeId dto =>
    obtain ⟨-, -, rfl⟩ := provision_ok (toOption_eq_some ha)
    exact .inl ⟨tenantId, employeeId, dto, rfl, by simp [LeaveState.periods]; rfl, rfl⟩
  | requestLeave tenantId dto id chain pick =>
    obtain ⟨hdates, -, options, -, h⟩ := requestLeave_ok (toOption_eq_some ha)
    obtain ⟨hper, b, needs, hb, hcov, hreq⟩ := submit_periods h
    exact .inr ⟨hper, .inr (.inl ⟨tenantId, dto, options, b, needs, hb, hdates, hcov, hreq⟩)⟩
  | submitBackdatedLeave tenantId dto reason id chain pick =>
    obtain ⟨hdates, -, options, -, h⟩ := submitBackdatedLeave_ok (toOption_eq_some ha)
    obtain ⟨hper, b, needs, hb, hcov, hreq⟩ := submit_periods h
    exact .inr ⟨hper, .inr (.inl ⟨tenantId, dto, options, b, needs, hb, hdates, hcov, hreq⟩)⟩
  | decide tenantId requestId dto pick =>
    obtain ⟨r, b, -, -, -, rfl⟩ := applyDecision_ok (toOption_eq_some ha)
    exact .inr ⟨periods_modify (decided_period _ _), .inr (.inr ⟨requestId, dto, rfl⟩)⟩
  | rollover pick =>
    obtain rfl := updateAll_ok (toOption_eq_some ha)
    exact .inr ⟨periods_map fun b => ⟨(rolledOver_counters s pick b).tenant,
      (rolledOver_counters s pick b).key⟩, .inl rfl⟩
  | expiry =>
    obtain rfl := updateAll_ok (toOption_eq_some ha)
    exact .inr ⟨periods_map fun b => ⟨(expire_counters s.today b).tenant,
      (expire_counters s.today b).key⟩, .inl rfl⟩
  | accrual =>
    obtain rfl := updateAll_ok (toOption_eq_some ha)
    exact .inr ⟨periods_map fun b => ⟨(accrued_counters s b).tenant,
      (accrued_counters s b).key⟩, .inl rfl⟩

/-- Periods of one employee and leave type are disjoint, and a request lies in the period it was
reserved on. -/
structure PeriodsApart (s : LeaveState) : Prop where
  apart : ∀ x ∈ s.periods, ∀ y ∈ s.periods, x.1 = y.1 → x.2.employeeId = y.2.employeeId →
    x.2.leaveTypeId = y.2.leaveTypeId → x = y ∨ x.2.Disjoint y.2
  reserved : ∀ r ∈ s.requests, (r.tenantId, r.reservedOn) ∈ s.periods ∧
    r.reservedOn.employeeId = r.employeeId ∧ r.reservedOn.leaveTypeId = r.leaveTypeId ∧
    r.reservedOn.periodStart ≤ r.dateRangeStart ∧ r.dateRangeStart ≤ r.dateRangeEnd ∧
    r.dateRangeEnd ≤ r.reservedOn.periodEnd

theorem LeaveInit.periodsApart {s : LeaveState} (h : LeaveInit s) : PeriodsApart s :=
  ⟨by simp [LeaveState.periods, h.balances], by simp [h.requests]⟩

theorem LeaveBalance.covers_iff {b : LeaveBalance} {tenantId employeeId leaveTypeId : ℕ}
    {start fin : ℤ} : b.covers tenantId employeeId leaveTypeId start fin = true ↔
      b.tenantId = tenantId ∧ b.key.employeeId = employeeId ∧ b.key.leaveTypeId = leaveTypeId ∧
        b.key.periodStart ≤ start ∧ fin ≤ b.key.periodEnd := by
  simp [covers, and_assoc]

namespace PeriodsApart

variable {s t : LeaveState} (hs : PeriodsApart s)

include hs

theorem decidesOnReserved (a : LeaveAction) : DecidesOnReserved s a := by
  cases a with
  | decide tenantId requestId dto pick =>
    intro r hr b hb
    obtain ⟨hrm, -, rfl⟩ := findRequest_some hr
    obtain ⟨hbm, hcov⟩ := findBalance_some hb
    obtain ⟨hten, hemp, hlt, hstart, hend⟩ := LeaveBalance.covers_iff.1 hcov
    obtain ⟨hper, hemp', hlt', hstart', hdates, hend'⟩ := hs.reserved r hrm
    have hb' : (b.tenantId, b.key) ∈ s.periods := mem_map.2 ⟨b, hbm, rfl⟩
    rcases hs.apart _ hb' _ hper hten (hemp.trans hemp'.symm) (hlt.trans hlt'.symm) with h | h
    · exact congrArg Prod.snd h
    · rcases h with h | h <;> simp only at h <;> omega
  | _ => trivial

theorem step {a : LeaveAction} (hok : ProvisionsApart s a) (ha : leaveStep s a = some t) :
    PeriodsApart t := by
  rcases leaveStep_periods ha with ⟨tenantId, employeeId, dto, rfl, hper, hreq⟩ | ⟨hper, hreq⟩
  · have hnew : ∀ x ∈ s.periods, x.1 = tenantId → x.2.employeeId = employeeId →
        x.2.leaveTypeId = dto.leaveTypeId → x.2.Disjoint (dto.row tenantId employeeId).key := by
      intro x hx
      obtain ⟨b, hb, rfl⟩ := mem_map.1 hx
      exact hok b hb
    refine ⟨?_, ?_⟩
    · rw [hper]
      intro x hx y hy hten hemp hlt
      rcases mem_append.1 hx with hx | hx <;> rcases mem_append.1 hy with hy | hy
      · exact hs.apart x hx y hy hten hemp hlt
      · obtain rfl := mem_singleton.1 hy
        exact .inr (hnew x hx hten hemp hlt)
      · obtain rfl := mem_singleton.1 hx
        exact .inr (hnew y hy hten.symm hemp.symm hlt.symm).symm
      · exact .inl ((mem_singleton.1 hx).trans (mem_singleton.1 hy).symm)
    · rw [hper, hreq]
      intro r hr
      obtain ⟨hmem, h⟩ := hs.reserved r hr
      exact ⟨mem_append_left _ hmem, h⟩
  · refine ⟨hper ▸ hs.apart, ?_⟩
    rw [hper]
    rcases hreq with hreq | ⟨tenantId, dto, options, b, needs, hb, hdates, hcov, hreq⟩ |
        ⟨requestId, dto, hreq⟩
    · rw [hreq]
      exact hs.reserved
    · rw [hreq]
      intro r hr
      rcases Tables.mem_concat.1 hr with hr | rfl
      · exact hs.reserved r hr
      · obtain ⟨hten, hemp, hlt, hstart, hend⟩ := LeaveBalance.covers_iff.1 hcov
        refine ⟨mem_map.2 ⟨b, hb, ?_⟩, hemp, hlt, hstart, hdates, hend⟩
        rw [hten]
        rfl
    · rw [hreq]
      intro r hr
      rcases mem_modify.1 hr with ⟨r₀, hr₀, -, rfl⟩ | ⟨hr, -⟩
      · exact hs.reserved r₀ hr₀
      · exact hs.reserved r hr

end PeriodsApart

/-- **Periods that do not overlap.** When no provisioned period overlaps another one of the same
employee and leave type, every decision of the run finds the row its request was reserved on. -/
theorem decides_on_reserved_of_apart {as : List LeaveAction} (h₀ : LeaveInit s)
    (ht : exec leaveStep s as = some t) (hm : Meets leaveStep ProvisionsApart s as) :
    Meets leaveStep DecidesOnReserved s as :=
  meets_of_invariant (fun _ a hs _ => hs.decidesOnReserved a)
    (fun _ _ _ hs hok ha => hs.step hok ha) h₀.periodsApart hm ht

instance (s : LeaveState) (a : LeaveAction) : Decidable (ProvisionsApart s a) := by
  cases a <;> unfold ProvisionsApart <;> infer_instance

/-- So the ledger is reconciled all along such a run. -/
theorem reconciled_of_apart {as : List LeaveAction} (h₀ : LeaveInit s)
    (ht : exec leaveStep s as = some t) (hm : Meets leaveStep ProvisionsApart s as) :
    Always leaveStep Reconciled s as :=
  always_of_invariant (fun _ hs => hs.reconciled) (fun _ _ _ hs hok ha => hs.step hok ha)
    h₀.invariant (decides_on_reserved_of_apart h₀ ht hm)

/-- A second period follows the first, with a request of its own, which is approved after the days
of the first have expired. -/
def twoPeriodsRun : List LeaveAction :=
  approvedLeaveRun ++ [.provision 7 40 ⟨1, 20819, 21183, 2000, none, none⟩,
    .requestLeave 7 ⟨40, 1, 20830, 20834⟩ 2 101 0, .passDays 365, .rollover 0, .expiry,
    .decide 7 2 approval 0]

theorem twoPeriodsRun_apart : Always leaveStep Reconciled noLeave twoPeriodsRun := by
  obtain ⟨t, ht, -⟩ : ∃ t, exec leaveStep noLeave twoPeriodsRun = some t ∧ True :=
    exists_exec (by decide)
  exact reconciled_of_apart leaveInit_noLeave ht (by decide)

end Workforce.Leave
