import Workforce.Leave.Ledger

/-!
# The jobs apply once

Accrual, rollover and expiry run as often as their crons and restarts let them. What keeps each
from applying twice is a column of the row: `last_accrued_at`, `carryover_applied`, and
`carryover_days_in`, which the expiry sets to zero.

`jobStep` is `leaveStep` with a history of what the jobs did to which row. The history of a row is
good (`AppliedOnce`) when its accruals are an interval of the policy apart and stay within their
bounds, it was rolled over into at most once, and each clawback is of carryover that no other
clawback was of.

* `jobs_apply_once`: along every run from any table, every history is good.
-/

namespace Workforce.Leave

open Tables Runs Calendar List

/-! ## What the jobs do -/

/-- What a job, or the provisioning of a row, did to a balance row. -/
inductive JobEvent
  | provisioned (key : BalanceKey) (carryoverDaysIn : ℤ)
  | accrued (key : BalanceKey) (on : ℤ) (policy : AccrualPolicy) (before after : ℤ)
  | rolledOver (key : BalanceKey) (amount : ℤ)
  | clawedBack (key : BalanceKey) (amount : ℤ)
  deriving DecidableEq

def JobEvent.key : JobEvent → BalanceKey
  | provisioned key _ | accrued key _ _ _ _ | rolledOver key _ | clawedBack key _ => key

/-- The policy by which the accrual job adds to a row today, if it does. -/
def accrualPolicyFor (s : LeaveState) (b : LeaveBalance) : Option AccrualPolicy :=
  match s.leaveTypes.find? (fun lt => lt.id = b.key.leaveTypeId && lt.tenantId = b.tenantId) with
  | some { accrualPolicy := some ap, .. } =>
    if b.key.periodStart ≤ s.today && s.today ≤ b.key.periodEnd &&
        ap.maxBalanceCap.all (b.accruedDays < ·) && ap.accrualFrequency.due s.today b.lastAccruedAt
    then some ap
    else none
  | _ => none

/-- What an operation does to one row, apart from requests and decisions. -/
def rowEvents (s : LeaveState) (a : LeaveAction) (b : LeaveBalance) : List JobEvent :=
  match a with
  | .accrual => (accrualPolicyFor s b).toList.map fun ap =>
      .accrued b.key s.today ap b.accruedDays (accrued s b).accruedDays
  | .rollover pick =>
    if !b.carryoverApplied && (rolledOver s pick b).carryoverApplied then
      [.rolledOver b.key (rolledOver s pick b).carryoverDaysIn]
    else []
  | .expiry => if b.expired s.today then [.clawedBack b.key b.clawback] else []
  | _ => []

/-- What an operation does to the rows, as the history has it. -/
def jobEvents (s : LeaveState) (a : LeaveAction) : List JobEvent :=
  match a with
  | .provision tenantId employeeId dto =>
    [.provisioned (dto.row tenantId employeeId).key (dto.row tenantId employeeId).carryoverDaysIn]
  | a => s.balances.flatMap (rowEvents s a)

/-- The tables, with what the jobs did. -/
structure JobState where
  leave : LeaveState
  history : List JobEvent

def jobStep (s : JobState) (a : LeaveAction) : Option JobState :=
  (leaveStep s.leave a).map fun t => ⟨t, s.history ++ jobEvents s.leave a⟩

/-! ## Good histories -/

/-- The second date is an interval of the frequency, or more, after the first: 7 or 14 days, or in a
later calendar month or year. -/
def AccrualFrequency.Apart (d d' : ℤ) : AccrualFrequency → Prop
  | weekly => d + 7 ≤ d'
  | biweekly => d + 14 ≤ d'
  | monthly => monthStart d < monthStart d'
  | annually => yearStart d < yearStart d'

/-- An accrual is an interval of its policy after an earlier one. -/
def JobEvent.Apart : JobEvent → JobEvent → Prop
  | .accrued _ d _ _ _, .accrued _ d' ap _ _ => ap.accrualFrequency.Apart d d'
  | _, _ => True

/-- An accrual does not lower the days, and does not raise them above the cap. -/
def JobEvent.Bounded : JobEvent → Prop
  | .accrued _ _ ap before after =>
    before ≤ after ∧ ∀ cap, ap.maxBalanceCap = some cap → after ≤ cap
  | _ => True

def JobEvent.isRollover : JobEvent → Bool
  | .rolledOver _ _ => true
  | _ => false

/-- The event is about carryover: days are carried in, or taken back. -/
def JobEvent.isCarryover : JobEvent → Bool
  | .accrued _ _ _ _ _ => false
  | _ => true

/-- What is left of the carryover after the event. -/
def JobEvent.carriedLeft : JobEvent → ℤ
  | .provisioned _ amount | .rolledOver _ amount => amount
  | .accrued _ _ _ _ _ | .clawedBack _ _ => 0

/-- A clawback comes after carryover that nothing else was taken back from, and takes no more. -/
def JobEvent.Redeems : JobEvent → JobEvent → Prop
  | e, .clawedBack _ amount => 0 < e.carriedLeft ∧ amount ≤ e.carriedLeft
  | _, _ => True

/-- The history of one row. -/
structure AppliedOnce (history : List JobEvent) : Prop where
  accruals : history.Pairwise JobEvent.Apart
  bounded : ∀ e ∈ history, e.Bounded
  rollovers : history.countP JobEvent.isRollover ≤ 1
  clawbacks : (history.filter JobEvent.isCarryover).IsChain JobEvent.Redeems

/-- What the jobs did to a row. -/
def JobState.historyOf (s : JobState) (key : BalanceKey) : List JobEvent :=
  s.history.filter (·.key = key)

/-! ## The intervals -/

theorem AccrualFrequency.le_of_due {f : AccrualFrequency} {today last : ℤ}
    (h : f.due today (some last) = true) : last ≤ today := by
  cases f with
  | weekly =>
    simp only [due, Option.all_some, decide_eq_true_eq] at h
    omega
  | biweekly =>
    simp only [due, Option.all_some, decide_eq_true_eq] at h
    omega
  | monthly =>
    simp only [due, Option.all_some, decide_eq_true_eq] at h
    by_contra hlt
    have hmono := monthStart_mono (not_le.1 hlt).le
    omega
  | annually =>
    simp only [due, Option.all_some, decide_eq_true_eq] at h
    by_contra hlt
    have hmono := yearStart_mono (not_le.1 hlt).le
    omega

/-- What is due after the last accrual is an interval after every earlier one. -/
theorem AccrualFrequency.apart_of_due {f : AccrualFrequency} {today last d : ℤ}
    (h : f.due today (some last) = true) (hd : d ≤ last) : f.Apart d today := by
  cases f with
  | weekly =>
    simp only [due, Option.all_some, decide_eq_true_eq] at h
    simp only [Apart]
    omega
  | biweekly =>
    simp only [due, Option.all_some, decide_eq_true_eq] at h
    simp only [Apart]
    omega
  | monthly =>
    simp only [due, Option.all_some, decide_eq_true_eq] at h
    exact (monthStart_mono hd).trans_lt h
  | annually =>
    simp only [due, Option.all_some, decide_eq_true_eq] at h
    exact (yearStart_mono hd).trans_lt h

/-! ## One row -/

theorem accrued_eq_of_policy (s : LeaveState) (b : LeaveBalance) : accrued s b =
    match accrualPolicyFor s b with
    | none => b
    | some ap =>
      { b with
        accruedDays := min (b.accruedDays + ap.accrualRatePerPeriod)
          (ap.maxBalanceCap.getD (b.accruedDays + ap.accrualRatePerPeriod))
        lastAccruedAt := some s.today } := by
  unfold accrued accrualPolicyFor
  cases s.leaveTypes.find? (fun lt => lt.id = b.key.leaveTypeId && lt.tenantId = b.tenantId) with
  | none => rfl
  | some lt =>
    obtain ⟨id, tenantId, requiresApproval, maxDays, months, policy⟩ := lt
    cases policy with
    | none => rfl
    | some ap =>
      dsimp only
      split <;> rfl

variable {s : LeaveState}

theorem accrualPolicyFor_some {b : LeaveBalance} {ap : AccrualPolicy}
    (h : accrualPolicyFor s b = some ap) :
    (∀ cap, ap.maxBalanceCap = some cap → b.accruedDays < cap) ∧
      ap.accrualFrequency.due s.today b.lastAccruedAt = true := by
  unfold accrualPolicyFor at h
  split at h
  · split at h
    · rename_i hdue
      cases h
      simp only [Bool.and_eq_true, decide_eq_true_eq] at hdue
      refine ⟨fun cap hcap => ?_, hdue.2⟩
      have hbelow := hdue.1.2
      rw [hcap] at hbelow
      simpa using hbelow
    · cases h
  · cases h

variable {a : LeaveAction} {e : JobEvent}

theorem key_of_mem_rowEvents {b : LeaveBalance} (h : e ∈ rowEvents s a b) : e.key = b.key := by
  unfold rowEvents at h
  split at h
  · obtain ⟨ap, -, rfl⟩ := mem_map.1 h
    rfl
  · split at h
    · rw [mem_singleton.1 h]
      rfl
    · cases h
  · split at h
    · rw [mem_singleton.1 h]
      rfl
    · cases h
  · cases h

theorem appliedOnce_nil : AppliedOnce [] := by
  constructor <;> simp

theorem AppliedOnce.concat {h : List JobEvent} (hh : AppliedOnce h) (hapart : ∀ x ∈ h, x.Apart e)
    (hbounded : e.Bounded) (hroll : e.isRollover = true → h.countP JobEvent.isRollover = 0)
    (hredeems : ∀ x, (h.filter JobEvent.isCarryover).getLast? = some x → x.Redeems e) :
    AppliedOnce (h ++ [e]) where
  accruals := by
    refine pairwise_append.2 ⟨hh.accruals, pairwise_singleton _ _, ?_⟩
    intro x hx y hy
    rw [mem_singleton.1 hy]
    exact hapart x hx
  bounded := by
    intro x hx
    rcases Tables.mem_concat.1 hx with hx | rfl
    · exact hh.bounded x hx
    · exact hbounded
  rollovers := by
    have hle := hh.rollovers
    rw [countP_append, countP_singleton]
    cases hr : e.isRollover with
    | false => simpa [hr] using hle
    | true => simp [hroll hr]
  clawbacks := by
    rw [filter_append]
    refine isChain_append.2 ⟨hh.clawbacks, ?_, fun x hx y hy => ?_⟩
    · cases hc : e.isCarryover <;> simp [hc]
    · have hye : y = e := by
        cases hc : e.isCarryover <;> simp [hc] at hy
        exact hy.symm
      rw [hye]
      exact hredeems x hx

theorem getLast?_concat {h : List JobEvent} (he : e.isCarryover = true) :
    ((h ++ [e]).filter JobEvent.isCarryover).getLast? = some e := by
  simp [he]

/-- What the columns of a row say of its history. -/
structure RowInv (b : LeaveBalance) (h : List JobEvent) : Prop where
  once : AppliedOnce h
  accrued : ∀ key d ap before after, JobEvent.accrued key d ap before after ∈ h →
    ∃ last, b.lastAccruedAt = some last ∧ d ≤ last
  applied : b.carryoverApplied = false → h.countP JobEvent.isRollover = 0
  left : ∀ e, (h.filter JobEvent.isCarryover).getLast? = some e → b.carryoverDaysIn = e.carriedLeft

namespace RowInv

variable {b b' : LeaveBalance} {h : List JobEvent} (hb : RowInv b h)

include hb

theorem congr (hlast : b'.lastAccruedAt = b.lastAccruedAt)
    (happlied : b'.carryoverApplied = b.carryoverApplied)
    (hleft : b'.carryoverDaysIn = b.carryoverDaysIn) : RowInv b' h where
  once := hb.once
  accrued := by
    rw [hlast]
    exact hb.accrued
  applied := by
    rw [happlied]
    exact hb.applied
  left := by
    rw [hleft]
    exact hb.left

theorem accrual (s : LeaveState) :
    RowInv (Leave.accrued s b) (h ++ rowEvents s .accrual b) := by
  have heq := accrued_eq_of_policy s b
  cases hpolicy : accrualPolicyFor s b with
  | none =>
    rw [hpolicy] at heq
    simpa [rowEvents, hpolicy, heq] using hb
  | some ap =>
    rw [hpolicy] at heq
    obtain ⟨hcap, hdue⟩ := accrualPolicyFor_some hpolicy
    have hrate : (0 : ℤ) ≤ ap.accrualRatePerPeriod := Int.natCast_nonneg _
    have hbounds : b.accruedDays ≤ (Leave.accrued s b).accruedDays ∧
        ∀ cap, ap.maxBalanceCap = some cap → (Leave.accrued s b).accruedDays ≤ cap := by
      rw [heq]
      dsimp only
      cases hmax : ap.maxBalanceCap with
      | none => simp
      | some cap =>
        have hlt := hcap cap hmax
        simp only [Option.getD_some, Option.some.injEq, forall_eq']
        omega
    have hlast : (Leave.accrued s b).lastAccruedAt = some s.today := by rw [heq]
    have hevents : rowEvents s .accrual b =
        [.accrued b.key s.today ap b.accruedDays (Leave.accrued s b).accruedDays] := by
      simp [rowEvents, hpolicy]
    rw [hevents]
    refine ⟨hb.once.concat ?_ hbounds (by simp [JobEvent.isRollover]) ?_, ?_, ?_, ?_⟩
    · intro e he
      cases e with
      | accrued key d ap' before after =>
        obtain ⟨last, hlast', hd⟩ := hb.accrued _ _ _ _ _ he
        exact AccrualFrequency.apart_of_due (hlast' ▸ hdue) hd
      | _ => trivial
    · intro x _
      cases x <;> trivial
    · intro key d ap' before after he
      refine ⟨s.today, hlast, ?_⟩
      rcases mem_append.1 he with he | he
      · obtain ⟨last, hlast', hd⟩ := hb.accrued _ _ _ _ _ he
        exact hd.trans (AccrualFrequency.le_of_due (hlast' ▸ hdue))
      · cases mem_singleton.1 he
        exact le_rfl
    · rw [heq]
      intro happ
      rw [countP_append, hb.applied happ]
      rfl
    · rw [heq]
      intro e he
      refine hb.left e ?_
      simpa [JobEvent.isCarryover] using he

theorem rollover (s : LeaveState) (pick : BalanceKey → ℕ) :
    RowInv (rolledOver s pick b) (h ++ rowEvents s (.rollover pick) b) := by
  rcases rolledOver_eq s pick b with heq | ⟨p, lt, -, happ, -, heq⟩
  · cases happ : b.carryoverApplied <;> simpa [rowEvents, heq, happ] using hb
  · have hevents : rowEvents s (.rollover pick) b = [.rolledOver b.key (p.carryover lt)] := by
      simp [rowEvents, happ, heq, LeaveBalance.rollOver]
    rw [hevents, heq]
    refine ⟨hb.once.concat (fun e _ => ?_) trivial (fun _ => hb.applied happ) ?_, ?_, ?_, ?_⟩
    · cases e <;> trivial
    · intro x _
      cases x <;> trivial
    · intro key d ap before after he
      rcases mem_append.1 he with he | he
      · exact hb.accrued _ _ _ _ _ he
      · cases mem_singleton.1 he
    · intro hno
      cases hno
    · intro e he
      rw [getLast?_concat rfl] at he
      cases he
      rfl

theorem expiry (s : LeaveState) :
    RowInv (b.expire s.today) (h ++ rowEvents s .expiry b) := by
  cases hexp : b.expired s.today with
  | false =>
    have heq : b.expire s.today = b := by simp [LeaveBalance.expire, hexp]
    simpa [rowEvents, hexp, heq] using hb
  | true =>
    have hevents : rowEvents s .expiry b = [.clawedBack b.key b.clawback] := by
      simp [rowEvents, hexp]
    have hpos : 0 < b.carryoverDaysIn := by
      simp only [LeaveBalance.expired, Bool.and_eq_true, decide_eq_true_eq] at hexp
      exact hexp.1
    rw [hevents, LeaveBalance.expire, if_pos hexp]
    refine ⟨hb.once.concat (fun e _ => ?_) trivial (by simp [JobEvent.isRollover]) ?_, ?_, ?_, ?_⟩
    · cases e <;> trivial
    · intro x hx
      rw [JobEvent.Redeems, ← hb.left x hx]
      exact ⟨hpos, min_le_left _ _⟩
    · intro key d ap before after he
      rcases mem_append.1 he with he | he
      · exact hb.accrued _ _ _ _ _ he
      · cases mem_singleton.1 he
    · intro happ
      rw [countP_append, hb.applied happ]
      rfl
    · intro e he
      rw [getLast?_concat rfl] at he
      cases he
      rfl

end RowInv

/-! ## The table -/

/-- What an operation does to the rows that are there. -/
structure RowMove (s : LeaveState) (a : LeaveAction) (f : LeaveBalance → LeaveBalance) : Prop where
  key : ∀ b, (f b).key = b.key
  keeps : ∀ b h, RowInv b h → RowInv (f b) (h ++ rowEvents s a b)

theorem RowMove.id (h : ∀ b, rowEvents s a b = []) :
    RowMove s a id where
  key _ := rfl
  keeps b hist hb := by simpa [h b] using hb

theorem RowMove.modify {key : BalanceKey} {f : LeaveBalance → LeaveBalance}
    (h : ∀ b, rowEvents s a b = []) (hkey : ∀ b, (f b).key = b.key)
    (hlast : ∀ b, (f b).lastAccruedAt = b.lastAccruedAt)
    (happlied : ∀ b, (f b).carryoverApplied = b.carryoverApplied)
    (hleft : ∀ b, (f b).carryoverDaysIn = b.carryoverDaysIn) :
    RowMove s a fun b => if b.key = key then f b else b where
  key b := by
    split
    · exact hkey b
    · rfl
  keeps b hist hb := by
    rw [h b, append_nil]
    split
    · exact hb.congr (hlast b) (happlied b) (hleft b)
    · exact hb

theorem RowMove.reserve {key : BalanceKey} {needs : Bool} {days : ℤ}
    (h : ∀ b, rowEvents s a b = []) :
    RowMove s a fun b => if b.key = key then b.reserve needs days else b := by
  refine .modify h ?_ ?_ ?_ ?_ <;> intro b <;> cases needs <;> rfl

theorem leaveStep_rows {s t : LeaveState} (ha : leaveStep s a = some t) :
    (∃ tenantId employeeId dto, a = .provision tenantId employeeId dto ∧
      (∀ b ∈ s.balances, b.key ≠ (dto.row tenantId employeeId).key) ∧
      t.balances = s.balances ++ [dto.row tenantId employeeId]) ∨
    (∃ f, RowMove s a f ∧ t.balances = s.balances.map f ∧
      jobEvents s a = s.balances.flatMap (rowEvents s a)) := by
  cases a with
  | passDays days =>
    cases ha
    exact .inr ⟨id, .id fun _ => rfl, (map_id _).symm, rfl⟩
  | setLeaveTypes leaveTypes =>
    cases ha
    exact .inr ⟨id, .id fun _ => rfl, (map_id _).symm, rfl⟩
  | provision tenantId employeeId dto =>
    obtain ⟨hfresh, -, rfl⟩ := provision_ok (toOption_eq_some ha)
    exact .inl ⟨tenantId, employeeId, dto, rfl, hfresh, rfl⟩
  | requestLeave tenantId dto id chain pick =>
    obtain ⟨-, -, options, -, h⟩ := requestLeave_ok (toOption_eq_some ha)
    obtain ⟨b, needs, -, -, -, -, rfl⟩ := reserveAndSubmit_ok h
    exact .inr ⟨_, .reserve fun _ => rfl, rfl, rfl⟩
  | submitBackdatedLeave tenantId dto reason id chain pick =>
    obtain ⟨-, -, options, -, h⟩ := submitBackdatedLeave_ok (toOption_eq_some ha)
    obtain ⟨b, needs, -, -, -, -, rfl⟩ := reserveAndSubmit_ok h
    exact .inr ⟨_, .reserve fun _ => rfl, rfl, rfl⟩
  | decide tenantId requestId dto pick =>
    obtain ⟨r, b, -, -, -, rfl⟩ := applyDecision_ok (toOption_eq_some ha)
    refine .inr ⟨_, .modify (fun _ => rfl) ?_ ?_ ?_ ?_, rfl, rfl⟩ <;> intro b <;>
      cases h : dto.approve <;> rfl
  | rollover pick =>
    obtain rfl := updateAll_ok (toOption_eq_some ha)
    exact .inr ⟨_, ⟨fun b => (rolledOver_counters s pick b).key,
      fun _ _ hb => hb.rollover s pick⟩, rfl, rfl⟩
  | expiry =>
    obtain rfl := updateAll_ok (toOption_eq_some ha)
    exact .inr ⟨_, ⟨fun b => (expire_counters s.today b).key, fun _ _ hb => hb.expiry s⟩, rfl, rfl⟩
  | accrual =>
    obtain rfl := updateAll_ok (toOption_eq_some ha)
    exact .inr ⟨_, ⟨fun b => (accrued_counters s b).key, fun _ _ hb => hb.accrual s⟩, rfl, rfl⟩

structure JobInv (s : JobState) : Prop where
  keys : (s.leave.balances.map (·.key)).Nodup
  rows : ∀ b ∈ s.leave.balances, RowInv b (s.historyOf b.key)
  /-- Nothing was done to a row that is not there. -/
  known : ∀ e ∈ s.history, ∃ b ∈ s.leave.balances, b.key = e.key

variable {leave : LeaveState}

theorem JobState.historyOf_append {h h' : List JobEvent} {key : BalanceKey} :
    JobState.historyOf ⟨leave, h ++ h'⟩ key =
      JobState.historyOf ⟨leave, h⟩ key ++ h'.filter (·.key = key) :=
  filter_append _ _

/-- The history of a key is good, whether there is a row or not. -/
theorem JobInv.appliedOnce {s : JobState} (hs : JobInv s) (key : BalanceKey) :
    AppliedOnce (s.historyOf key) := by
  by_cases h : ∃ b ∈ s.leave.balances, b.key = key
  · obtain ⟨b, hb, rfl⟩ := h
    exact (hs.rows b hb).once
  · have hnone : s.historyOf key = [] := by
      refine filter_eq_nil_iff.2 fun e he hkey => h ?_
      obtain ⟨b, hb, heq⟩ := hs.known e he
      exact ⟨b, hb, heq.trans (by simpa using hkey)⟩
    rw [hnone]
    exact appliedOnce_nil

theorem RowInv.provisioned (dto : ProvisionLeaveBalanceDto) (tenantId employeeId : ℕ) :
    RowInv (dto.row tenantId employeeId)
      [.provisioned (dto.row tenantId employeeId).key
        (dto.row tenantId employeeId).carryoverDaysIn] where
  once := by
    refine appliedOnce_nil.concat (by simp) trivial (by simp) ?_
    intro x hx
    cases hx
  accrued := by simp
  applied _ := rfl
  left e he := by
    obtain rfl := Option.some.inj ((getLast?_concat (h := []) rfl).symm.trans he)
    rfl

theorem JobInv.insert {s : JobState} (hs : JobInv s) {row : LeaveBalance}
    (hfresh : ∀ b ∈ s.leave.balances, b.key ≠ row.key) (he : e.key = row.key)
    (hrow : RowInv row [e]) (hleave : leave.balances = s.leave.balances ++ [row]) :
    JobInv ⟨leave, s.history ++ [e]⟩ where
  keys := hleave ▸ nodup_append_singleton hs.keys hfresh
  rows := by
    intro b hb
    rw [JobState.historyOf_append]
    rcases mem_append.1 (hleave ▸ hb) with hb | hb
    · have hother : [e].filter (·.key = b.key) = [] := by
        simpa [he] using (hfresh b hb).symm
      rw [hother, append_nil]
      exact hs.rows b hb
    · rw [mem_singleton.1 hb]
      have hnone : JobState.historyOf ⟨leave, s.history⟩ row.key = [] := by
        refine filter_eq_nil_iff.2 fun x hx hkey => ?_
        obtain ⟨b', hb', heq⟩ := hs.known x hx
        exact hfresh b' hb' (heq.trans (by simpa using hkey))
      have hown : [e].filter (·.key = row.key) = [e] := by simp [he]
      rw [hown, hnone]
      exact hrow
  known := by
    intro x hx
    rw [hleave]
    rcases Tables.mem_concat.1 hx with hx | rfl
    · obtain ⟨b, hb, heq⟩ := hs.known x hx
      exact ⟨b, mem_append_left _ hb, heq⟩
    · exact ⟨row, by simp, he.symm⟩

theorem JobInv.move {s : JobState} (hs : JobInv s) {f : LeaveBalance → LeaveBalance}
    (hf : RowMove s.leave a f) (hleave : leave.balances = s.leave.balances.map f) :
    JobInv ⟨leave, s.history ++ s.leave.balances.flatMap (rowEvents s.leave a)⟩ where
  keys := by
    have hkeys : leave.balances.map (·.key) = s.leave.balances.map (·.key) := by
      simp [hleave, hf.key, Function.comp_def]
    exact hkeys ▸ hs.keys
  rows := by
    rw [hleave]
    intro b' hb'
    obtain ⟨b, hb, rfl⟩ := mem_map.1 hb'
    rw [JobState.historyOf_append, hf.key,
      filter_flatMap_eq (fun _ _ => key_of_mem_rowEvents) hs.keys hb]
    exact hf.keeps b _ (hs.rows b hb)
  known := by
    intro e he
    have hrow : ∃ b ∈ s.leave.balances, b.key = e.key := by
      rcases mem_append.1 he with he | he
      · exact hs.known e he
      · obtain ⟨b, hb, he⟩ := mem_flatMap.1 he
        exact ⟨b, hb, (key_of_mem_rowEvents he).symm⟩
    obtain ⟨b, hb, heq⟩ := hrow
    exact ⟨f b, hleave ▸ mem_map_of_mem hb, (hf.key b).trans heq⟩

theorem JobInv.step {s t : JobState} (hs : JobInv s) (ha : jobStep s a = some t) :
    JobInv t := by
  obtain ⟨leave, hleave, rfl⟩ := Option.map_eq_some_iff.1 ha
  rcases leaveStep_rows hleave with
    ⟨tenantId, employeeId, dto, rfl, hfresh, hbal⟩ | ⟨f, hf, hbal, hev⟩
  · exact hs.insert hfresh rfl (.provisioned dto tenantId employeeId) hbal
  · rw [hev]
    exact hs.move hf hbal

/-- **The jobs apply once.** From any table whose rows have different keys, in every state of every
run of the operations and jobs, in any order and any number of times a day: the history of every
key is good. -/
theorem jobs_apply_once {leave : LeaveState} (hkeys : (leave.balances.map (·.key)).Nodup)
    (as : List LeaveAction) :
    Always jobStep (fun s => ∀ key, AppliedOnce (s.historyOf key)) ⟨leave, []⟩ as := by
  have hinit : JobInv ⟨leave, []⟩ := ⟨hkeys, fun b _ => ?_, by simp⟩
  · exact always_of_invariant (fun _ hs key => hs.appliedOnce key) (fun _ _ _ hs _ ha => hs.step ha)
      hinit (fun _ _ _ _ _ => trivial)
  · exact ⟨appliedOnce_nil, by simp [JobState.historyOf], fun _ => rfl,
      by simp [JobState.historyOf]⟩

/-- One day a month, up to six days; five days carried over for three months. -/
def monthlyLeave : LeaveState :=
  { noLeave with leaveTypes := [⟨1, 7, true, some 500, some 3, some ⟨100, .monthly, some 600⟩⟩] }

/-- All jobs, twice. -/
def jobsTwice : List LeaveAction :=
  [.accrual, .rollover fun _ => 0, .expiry, .accrual, .rollover fun _ => 0, .expiry]

/-- Two periods; the jobs run twice in the first, twice in the second, and twice after the carried
days have expired. -/
def repeatedJobsRun : List LeaveAction :=
  [.provision 7 40 ⟨1, 20454, 20818, 550, none, none⟩] ++ jobsTwice ++
    [.provision 7 40 ⟨1, 20819, 21183, 0, none, none⟩, .passDays 400] ++ jobsTwice ++
    [.passDays 60] ++ jobsTwice

theorem repeatedJobsRun_once : Always jobStep (fun s => ∀ key, AppliedOnce (s.historyOf key))
      ⟨monthlyLeave, []⟩ repeatedJobsRun ∧
    (exec jobStep ⟨monthlyLeave, []⟩ repeatedJobsRun).isSome = true :=
  ⟨jobs_apply_once (by decide) repeatedJobsRun, by decide⟩

example : (exec jobStep ⟨monthlyLeave, []⟩ repeatedJobsRun).map (fun s =>
    ((s.historyOf ⟨40, 1, 20819, 21183⟩).filter JobEvent.isCarryover)) =
    some [.provisioned ⟨40, 1, 20819, 21183⟩ 0, .rolledOver ⟨40, 1, 20819, 21183⟩ 500,
      .clawedBack ⟨40, 1, 20819, 21183⟩ 500] := by decide

end Workforce.Leave
