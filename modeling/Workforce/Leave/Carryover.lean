import Workforce.Leave.Ledger

/-!
# Days across periods

The rollover credits the leftover of a closed period to the next one and leaves the closed period
as it is, so a day that was carried over can be counted twice. `NotOverspent`: all periods of an
employee and leave type together have no more used and pending days than they accrued, the days
that the rollover credited left out.

* `no_day_spent_twice`: this holds along every run in which no backdated submission, and no expiry
  of provisioned carryover, takes days from a period that were carried over into the next.
* `backdated_leave_spends_carried_days`: it fails once a backdated submission does.

The invariant is `CarryInvariant`: what was carried into a period is covered by what the period
before it was given and was carried. Summed over the periods, it gives the property
(`Tables.sum_nonneg_of_carried`).
-/

namespace Workforce.Leave

open Tables Runs List

/-! ## The periods of one employee and leave type -/

/-- An employee's leave of one type. -/
structure LeaveGroup where
  tenantId : ℕ
  employeeId : ℕ
  leaveTypeId : ℕ
  deriving DecidableEq

def LeaveBalance.group (b : LeaveBalance) : LeaveGroup :=
  ⟨b.tenantId, b.key.employeeId, b.key.leaveTypeId⟩

def LeaveState.periodsOf (s : LeaveState) (g : LeaveGroup) : List LeaveBalance :=
  s.balances.filter (·.group = g)

/-- What is left of the days a row was given other than by the rollover. -/
def LeaveBalance.givenDays (b : LeaveBalance) : ℤ :=
  b.accruedDays - b.creditedDays - (b.usedDays + b.pendingDays)

/-- The days used and pending over all periods are at most the days accrued over all periods. -/
def NotOverspent (g : LeaveGroup) (s : LeaveState) : Prop :=
  ((s.periodsOf g).map fun b => b.usedDays + b.pendingDays).sum ≤
    ((s.periodsOf g).map fun b => b.accruedDays - b.creditedDays).sum
  deriving Decidable

/-- `b` is the period right after `p`. -/
def LeaveBalance.Follows (p b : LeaveBalance) : Prop := b.key.periodStart = p.key.periodEnd + 1
  deriving Decidable

/-- Provisioned periods do not overlap those that exist. -/
def KeepsApart (g : LeaveGroup) (s : LeaveState) : LeaveAction → Prop
  | .provision tenantId employeeId dto => (dto.row tenantId employeeId).group = g →
      ∀ b ∈ s.periodsOf g, b.key.Disjoint (dto.row tenantId employeeId).key
  | _ => True

instance (g : LeaveGroup) (s : LeaveState) (a : LeaveAction) : Decidable (KeepsApart g s a) :=
  match a with
  | .provision _ _ _ => inferInstanceAs (Decidable (_ = g → ∀ _ ∈ _, _))
  | .passDays _ | .setLeaveTypes _ | .requestLeave _ _ _ _ _ | .submitBackdatedLeave _ _ _ _ _ _
  | .decide _ _ _ _ | .rollover _ | .expiry | .accrual => isTrue trivial

/-- `p` has these days besides what was carried over from it into the next period. -/
def LeaveState.Spare (s : LeaveState) (p : LeaveBalance) (days : ℤ) : Prop :=
  ∀ b ∈ s.periodsOf p.group, p.Follows b → b.carryoverApplied = true →
    b.carriedDays + days ≤ p.availableDays
  deriving Decidable

/-- A backdated submission takes no days that were carried over into the next period, nor does the
expiry of carryover that was provisioned. -/
def SparesCarried (g : LeaveGroup) (s : LeaveState) : LeaveAction → Prop
  | .submitBackdatedLeave tenantId dto _ _ _ _ => ∀ p ∈ s.periodsOf g,
      p.covers tenantId dto.employeeId dto.leaveTypeId dto.dateRangeStart dto.dateRangeEnd = true →
      s.Spare p (100 * inclusiveDayCount dto.dateRangeStart dto.dateRangeEnd)
  | .expiry => ∀ p ∈ s.periodsOf g, p.expired s.today = true → p.carryoverApplied = false →
      s.Spare p p.clawback
  | _ => True

instance (g : LeaveGroup) (s : LeaveState) (a : LeaveAction) : Decidable (SparesCarried g s a) :=
  match a with
  | .submitBackdatedLeave _ _ _ _ _ _ => inferInstanceAs (Decidable (∀ _ ∈ _, _ = true → _))
  | .expiry => inferInstanceAs (Decidable (∀ _ ∈ _, _ = true → _ = false → _))
  | .passDays _ | .setLeaveTypes _ | .provision _ _ _ | .requestLeave _ _ _ _ _
  | .decide _ _ _ _ | .rollover _ | .accrual => isTrue trivial

/-! ## The invariant -/

/-- What holds of every row. -/
structure LeaveBalance.Sound (b : LeaveBalance) : Prop where
  period : b.key.periodStart ≤ b.key.periodEnd
  available : 0 ≤ b.availableDays
  credited : b.creditedDays ≤ b.carriedDays
  fresh : b.carryoverApplied = false → b.carriedDays = 0 ∧ b.creditedDays = 0

structure CarryInvariant (g : LeaveGroup) (s : LeaveState) : Prop where
  keys : (s.balances.map (·.key)).Nodup
  days : ∀ r ∈ s.requests, 1 ≤ r.dayCount
  sound : ∀ b ∈ s.balances, b.Sound
  apart : ∀ b ∈ s.periodsOf g, ∀ b' ∈ s.periodsOf g, b = b' ∨ b.key.Disjoint b'.key
  /-- A row is rolled over into once the period before it is closed. -/
  source : ∀ b ∈ s.periodsOf g, b.carryoverApplied = true →
    ∃ p ∈ s.periodsOf g, p.Follows b ∧ p.key.periodEnd < s.today
  /-- What was carried into a row was there. -/
  covered : ∀ p ∈ s.periodsOf g, ∀ b ∈ s.periodsOf g, p.Follows b →
    b.carriedDays ≤ p.carriedDays + p.givenDays

variable {b : LeaveBalance}

theorem LeaveState.mem_periodsOf {s : LeaveState} {g : LeaveGroup} :
    b ∈ s.periodsOf g ↔ b ∈ s.balances ∧ b.group = g := by simp [periodsOf]

theorem LeaveState.mem_periodsOf_append {s : LeaveState} {g : LeaveGroup} {row b : LeaveBalance} :
    b ∈ periodsOf { s with balances := s.balances ++ [row] } g ↔
      b ∈ s.periodsOf g ∨ b = row ∧ row.group = g := by
  simp only [mem_periodsOf, mem_append, mem_singleton, or_and_right]
  refine or_congr_right (and_congr_right ?_)
  rintro rfl
  rfl

theorem LeaveBalance.availableDays_eq (b : LeaveBalance) :
    b.availableDays = b.creditedDays + b.givenDays := by
  unfold availableDays givenDays
  omega

theorem LeaveBalance.Sound.available_le (h : b.Sound) :
    b.availableDays ≤ b.carriedDays + b.givenDays := by
  have := h.credited
  rw [b.availableDays_eq]
  omega

theorem LeaveBalance.Sound.carryover_le (h : b.Sound) (lt : LeaveType) :
    b.carryover lt ≤ b.availableDays := by
  have := h.available
  unfold carryover
  omega

theorem LeaveInit.carryInvariant {s : LeaveState} (h : LeaveInit s) (g : LeaveGroup) :
    CarryInvariant g s := by
  have hnone : s.periodsOf g = [] := by simp [LeaveState.periodsOf, h.balances]
  constructor <;> simp [h.balances, h.requests, hnone]

/-- Two versions of a row with the same period and the same days carried into it. -/
structure LeaveBalance.SameCarried (b' b : LeaveBalance) : Prop where
  tenant : b'.tenantId = b.tenantId
  key : b'.key = b.key
  applied : b'.carryoverApplied = b.carryoverApplied
  carried : b'.carriedDays = b.carriedDays

theorem LeaveBalance.SameCarried.refl (b : LeaveBalance) : b.SameCarried b := ⟨rfl, rfl, rfl, rfl⟩

theorem LeaveBalance.group_congr {b' b : LeaveBalance} (ht : b'.tenantId = b.tenantId)
    (hk : b'.key = b.key) : b'.group = b.group := by
  unfold group
  rw [ht, hk]

theorem LeaveBalance.follows_congr {p' p b' b : LeaveBalance} (hp : p'.key = p.key)
    (hb : b'.key = b.key) : p'.Follows b' ↔ p.Follows b := by
  unfold Follows
  rw [hp, hb]

theorem LeaveBalance.availableDays_reserve (b : LeaveBalance) (needs : Bool) (days : ℤ) :
    (b.reserve needs days).availableDays = b.availableDays - 100 * days := by
  cases needs <;> simp only [reserve, addPending, addUsed, availableDays, if_true, if_false,
    Bool.false_eq_true] <;> omega

theorem LeaveBalance.reserve_carried (needs : Bool) (days : ℤ) (b : LeaveBalance) :
    (b.reserve needs days).SameCarried b ∧
      (b.reserve needs days).creditedDays = b.creditedDays := by
  cases needs <;> exact ⟨⟨rfl, rfl, rfl, rfl⟩, rfl⟩

theorem LeaveBalance.decided_carried (approve : Bool) (days : ℤ) (b : LeaveBalance) :
    (b.decided approve days).SameCarried b ∧
      (b.decided approve days).creditedDays = b.creditedDays := by
  cases approve <;> exact ⟨⟨rfl, rfl, rfl, rfl⟩, rfl⟩

/-- A decision gives the days of the request back or leaves them taken. -/
theorem LeaveBalance.givenDays_decided (b : LeaveBalance) (approve : Bool) {days : ℤ}
    (h : 0 ≤ days) : b.givenDays ≤ (b.decided approve days).givenDays := by
  cases approve <;> simp only [decided, addPending, addUsed, givenDays, if_true, if_false,
    Bool.false_eq_true] <;> omega

theorem LeaveBalance.clawback_nonneg {today : ℤ} (h : b.expired today = true) :
    0 ≤ b.clawback := by
  simp only [expired, Bool.and_eq_true, decide_eq_true_eq] at h
  have := h.1
  unfold clawback
  omega

theorem LeaveBalance.expire_carried (today : ℤ) (b : LeaveBalance) :
    (b.expire today).SameCarried b := by
  rcases expire_eq today b with h | ⟨-, h⟩
  · rw [h]
    exact .refl b
  · rw [h]
    exact ⟨rfl, rfl, rfl, rfl⟩

theorem accrued_carried (s : LeaveState) (b : LeaveBalance) : (accrued s b).SameCarried b := by
  rcases accrued_eq s b with h | ⟨days, -, -, h⟩
  · rw [h]
    exact .refl b
  · rw [h]
    exact ⟨rfl, rfl, rfl, rfl⟩

theorem LeaveBalance.closedBefore_iff {p b : LeaveBalance} {today : ℤ} :
    b.closedBefore today p = true ↔
      b.group = p.group ∧ p.Follows b ∧ p.key.periodEnd < today := by
  simp [closedBefore, group, Follows, and_assoc]

namespace CarryInvariant

variable {g : LeaveGroup} {s t : LeaveState} (hs : CarryInvariant g s)

include hs

theorem sound_of_mem {b : LeaveBalance} (hb : b ∈ s.periodsOf g) : b.Sound :=
  hs.sound b (LeaveState.mem_periodsOf.1 hb).1

theorem eq_of_follows {p b b' : LeaveBalance} (hb : b ∈ s.periodsOf g) (hb' : b' ∈ s.periodsOf g)
    (h : p.Follows b) (h' : p.Follows b') : b = b' := by
  have hper := (hs.sound_of_mem hb).period
  have hper' := (hs.sound_of_mem hb').period
  rcases hs.apart b hb b' hb' with heq | hdis | hdis
  · exact heq
  all_goals
    unfold LeaveBalance.Follows at h h'
    omega

theorem eq_of_followed {p p' b : LeaveBalance} (hp : p ∈ s.periodsOf g) (hp' : p' ∈ s.periodsOf g)
    (h : p.Follows b) (h' : p'.Follows b) : p = p' := by
  have hper := (hs.sound_of_mem hp).period
  have hper' := (hs.sound_of_mem hp').period
  rcases hs.apart p hp p' hp' with heq | hdis | hdis
  · exact heq
  all_goals
    unfold LeaveBalance.Follows at h h'
    omega

theorem notOverspent : NotOverspent g s := by
  have hnodup : (s.periodsOf g).Nodup := (Nodup.of_map _ hs.keys).filter _
  have hsound : ∀ b ∈ (s.periodsOf g).toFinset, b.Sound := by
    intro b hb
    exact hs.sound_of_mem (mem_toFinset.1 hb)
  have hsum : 0 ≤ ∑ b ∈ (s.periodsOf g).toFinset, b.givenDays := by
    refine sum_nonneg_of_carried (·.carriedDays) (·.givenDays) LeaveBalance.Follows ?_ ?_ ?_ ?_
    · intro b hb
      exact (hsound b hb).available.trans (hsound b hb).available_le
    · intro p hp b hb
      exact hs.covered p (mem_toFinset.1 hp) b (mem_toFinset.1 hb)
    · intro p _ b hb b' hb'
      exact hs.eq_of_follows (mem_toFinset.1 hb) (mem_toFinset.1 hb')
    · intro b hb
      cases happ : b.carryoverApplied with
      | false => exact .inl ((hsound b hb).fresh happ).1.le
      | true =>
        obtain ⟨p, hp, hf, -⟩ := hs.source b (mem_toFinset.1 hb) happ
        exact .inr ⟨p, mem_toFinset.2 hp, hf⟩
  rw [sum_toFinset _ hnodup] at hsum
  have hadd : ((s.periodsOf g).map (·.givenDays)).sum +
      ((s.periodsOf g).map fun b => b.usedDays + b.pendingDays).sum =
      ((s.periodsOf g).map fun b => b.accruedDays - b.creditedDays).sum := by
    rw [← sum_map_add]
    simp only [LeaveBalance.givenDays, Int.sub_add_cancel]
  unfold NotOverspent
  omega

variable {f : LeaveBalance → LeaveBalance}

theorem ofMap (hbal : t.balances = s.balances.map f) (htoday : s.today ≤ t.today)
    (hdays : ∀ r ∈ t.requests, 1 ≤ r.dayCount)
    (hf : ∀ b, (f b).tenantId = b.tenantId ∧ (f b).key = b.key)
    (hsound : ∀ b ∈ s.balances, (f b).Sound)
    (hsource : ∀ b ∈ s.periodsOf g, (f b).carryoverApplied = true →
      ∃ p ∈ s.periodsOf g, p.Follows b ∧ p.key.periodEnd < s.today)
    (hcovered : ∀ p ∈ s.periodsOf g, ∀ b ∈ s.periodsOf g, p.Follows b →
      (f b).carriedDays ≤ (f p).carriedDays + (f p).givenDays) : CarryInvariant g t := by
  have hgroup : ∀ b, (f b).group = b.group := fun b => LeaveBalance.group_congr (hf b).1 (hf b).2
  have hmem : ∀ {b'}, b' ∈ t.periodsOf g ↔ ∃ b ∈ s.periodsOf g, f b = b' := by
    intro b'
    simp only [LeaveState.mem_periodsOf, hbal, mem_map]
    constructor
    · rintro ⟨⟨b, hb, rfl⟩, hg⟩
      exact ⟨b, ⟨hb, hgroup b ▸ hg⟩, rfl⟩
    · rintro ⟨b, ⟨hb, hg⟩, rfl⟩
      exact ⟨⟨b, hb, rfl⟩, (hgroup b).trans hg⟩
  have hfollows : ∀ p b, (f p).Follows (f b) ↔ p.Follows b :=
    fun p b => LeaveBalance.follows_congr (hf p).2 (hf b).2
  refine ⟨?_, hdays, ?_, ?_, ?_, ?_⟩
  · have hkeys : t.balances.map (·.key) = s.balances.map (·.key) := by
      simp [hbal, (hf _).2, Function.comp_def]
    exact hkeys ▸ hs.keys
  · rw [hbal]
    intro b' hb'
    obtain ⟨b, hb, rfl⟩ := mem_map.1 hb'
    exact hsound b hb
  · intro b₁ h₁ b₂ h₂
    obtain ⟨b, hb, rfl⟩ := hmem.1 h₁
    obtain ⟨b', hb', rfl⟩ := hmem.1 h₂
    rw [(hf b).2, (hf b').2]
    exact (hs.apart b hb b' hb').imp_left (congrArg f)
  · intro b' hb' happ
    obtain ⟨b, hb, rfl⟩ := hmem.1 hb'
    obtain ⟨p, hp, hfol, hclosed⟩ := hsource b hb happ
    refine ⟨f p, hmem.2 ⟨p, hp, rfl⟩, (hfollows p b).2 hfol, ?_⟩
    rw [(hf p).2]
    omega
  · intro p' hp' b' hb' hfol
    obtain ⟨p, hp, rfl⟩ := hmem.1 hp'
    obtain ⟨b, hb, rfl⟩ := hmem.1 hb'
    exact hcovered p hp b hb ((hfollows p b).1 hfol)

/-- A change of the rows that carries nothing over. A row that loses days keeps what was carried
over from it. -/
theorem map (hbal : t.balances = s.balances.map f) (htoday : s.today ≤ t.today)
    (hdays : ∀ r ∈ t.requests, 1 ≤ r.dayCount) (hf : ∀ b, (f b).SameCarried b)
    (hcredited : ∀ b ∈ s.balances, (f b).creditedDays ≤ b.creditedDays ∧
      (b.carryoverApplied = false → (f b).creditedDays = b.creditedDays))
    (havail : ∀ b ∈ s.balances, 0 ≤ (f b).availableDays)
    (hspare : ∀ p ∈ s.periodsOf g, p.givenDays ≤ (f p).givenDays ∨
      s.Spare p (p.availableDays - (f p).availableDays)) : CarryInvariant g t := by
  have hsound : ∀ b ∈ s.balances, (f b).Sound := by
    intro b hb
    have hb' := hs.sound b hb
    obtain ⟨hle, heq⟩ := hcredited b hb
    refine ⟨(hf b).key ▸ hb'.period, havail b hb, ?_, ?_⟩
    · rw [(hf b).carried]
      exact hle.trans hb'.credited
    · intro hno
      rw [(hf b).applied] at hno
      rw [(hf b).carried, heq hno]
      exact hb'.fresh hno
  refine hs.ofMap hbal htoday hdays (fun b => ⟨(hf b).tenant, (hf b).key⟩) hsound ?_ ?_
  · intro b hb happ
    exact hs.source b hb ((hf b).applied ▸ happ)
  · intro p hp b hb hfol
    have hpm := (LeaveState.mem_periodsOf.1 hp).1
    rw [(hf b).carried]
    rcases hspare p hp with hgain | hspare
    · have hcov := hs.covered p hp b hb hfol
      rw [(hf p).carried]
      omega
    · have hle := (hsound p hpm).available_le
      cases happ : b.carryoverApplied with
      | false =>
        have hzero := ((hs.sound_of_mem hb).fresh happ).1
        have hpos := havail p hpm
        omega
      | true =>
        have hg : s.periodsOf p.group = s.periodsOf g := by rw [(LeaveState.mem_periodsOf.1 hp).2]
        have hkept := hspare b (hg ▸ hb) hfol happ
        omega

theorem modify {b : LeaveBalance} (hb : b ∈ s.balances)
    (hbal : t.balances = Tables.modify (·.key) b.key f s.balances) (htoday : t.today = s.today)
    (hdays : ∀ r ∈ t.requests, 1 ≤ r.dayCount)
    (hf : ∀ b, (f b).SameCarried b ∧ (f b).creditedDays = b.creditedDays)
    (havail : 0 ≤ (f b).availableDays) (hspare : b ∈ s.periodsOf g → b.givenDays ≤ (f b).givenDays ∨
      s.Spare b (b.availableDays - (f b).availableDays)) : CarryInvariant g t := by
  -- the row with this key is `b`
  have hrow : ∀ r ∈ s.balances, r.key = b.key → r = b := fun r hr h => eq_of_key_eq hs.keys hr hb h
  refine hs.map hbal htoday.ge hdays ?_ ?_ ?_ ?_
  · intro r
    split
    · exact (hf r).1
    · exact .refl r
  · intro r _
    split
    · exact ⟨(hf r).2.le, fun _ => (hf r).2⟩
    · exact ⟨le_refl _, fun _ => rfl⟩
  · intro r hr
    split
    · rename_i hk
      rw [hrow r hr hk]
      exact havail
    · exact (hs.sound r hr).available
  · intro p hp
    split
    · rename_i hk
      obtain rfl := hrow p (LeaveState.mem_periodsOf.1 hp).1 hk
      exact hspare hp
    · exact .inl (le_refl _)

theorem submit {tenantId : ℕ} {dto : RequestLeaveDto} {options : SubmitOptions} {pick : ℕ}
    (hdates : dto.dateRangeStart ≤ dto.dateRangeEnd)
    (h : reserveAndSubmit s tenantId dto options pick = .ok t)
    (hspare : ∀ p ∈ s.periodsOf g,
      p.covers tenantId dto.employeeId dto.leaveTypeId dto.dateRangeStart dto.dateRangeEnd = true →
      s.Spare p (100 * inclusiveDayCount dto.dateRangeStart dto.dateRangeEnd)) :
    CarryInvariant g t := by
  obtain ⟨b, needs, hb, hcov, hdays, -, rfl⟩ := reserveAndSubmit_ok h
  have havail :=
    b.availableDays_reserve needs (inclusiveDayCount dto.dateRangeStart dto.dateRangeEnd)
  refine hs.modify hb rfl rfl ?_ (LeaveBalance.reserve_carried needs _) (by omega) ?_
  · intro r hr
    rcases Tables.mem_concat.1 hr with hr | rfl
    · exact hs.days r hr
    · show 1 ≤ inclusiveDayCount dto.dateRangeStart dto.dateRangeEnd
      unfold inclusiveDayCount
      omega
  · intro hbg
    rw [havail, Int.sub_sub_self]
    exact .inr (hspare b hbg hcov)

theorem spare_of_open {p : LeaveBalance} (hp : p ∈ s.periodsOf g)
    (hopen : s.today ≤ p.key.periodEnd) (days : ℤ) : s.Spare p days := by
  intro b hb hfol happ
  have hg : s.periodsOf p.group = s.periodsOf g := by rw [(LeaveState.mem_periodsOf.1 hp).2]
  obtain ⟨p', -, hfol', hclosed⟩ := hs.source b (hg ▸ hb) happ
  unfold LeaveBalance.Follows at hfol hfol'
  omega

theorem decide {tenantId requestId : ℕ} {dto : DecideLeaveRequestDto} {pick : ℕ}
    (h : applyDecision s tenantId requestId dto pick = .ok t) : CarryInvariant g t := by
  obtain ⟨r, b, hr, -, hb, rfl⟩ := applyDecision_ok h
  obtain ⟨hrm, -, -⟩ := findRequest_some hr
  obtain ⟨hbm, -⟩ := findBalance_some hb
  have hpos := hs.days r hrm
  have hgiven := b.givenDays_decided dto.approve (by omega : 0 ≤ r.dayCount)
  refine hs.modify hbm rfl rfl ?_ (LeaveBalance.decided_carried dto.approve _) ?_
    fun _ => .inl hgiven
  · intro r' hr'
    rcases mem_modify.1 hr' with ⟨r₀, hr₀, -, rfl⟩ | ⟨hr', -⟩
    · exact hs.days r₀ hr₀
    · exact hs.days r' hr'
  · have hav := (hs.sound b hbm).available
    rw [LeaveBalance.availableDays_eq] at hav ⊢
    rw [(LeaveBalance.decided_carried dto.approve r.dayCount b).2]
    omega

theorem provision {row : LeaveBalance} (hfresh : ∀ b ∈ s.balances, b.key ≠ row.key)
    (hrow : row.Sound) (hnew : row.carryoverApplied = false)
    (hapart : row.group = g → ∀ b ∈ s.periodsOf g, b.key.Disjoint row.key) :
    CarryInvariant g { s with balances := s.balances ++ [row] } := by
  have hsound : ∀ b ∈ s.balances ++ [row], b.Sound := by
    intro b hb
    rcases Tables.mem_concat.1 hb with hb | rfl
    · exact hs.sound b hb
    · exact hrow
  refine ⟨nodup_append_singleton hs.keys hfresh, hs.days, hsound, ?_, ?_, ?_⟩
  · intro b hb b' hb'
    rcases LeaveState.mem_periodsOf_append.1 hb with h | ⟨rfl, hg⟩ <;>
      rcases LeaveState.mem_periodsOf_append.1 hb' with h' | ⟨rfl, hg'⟩
    · exact hs.apart b h b' h'
    · exact .inr (hapart hg' b h)
    · exact .inr (hapart hg b' h').symm
    · exact .inl rfl
  · intro b hb happ
    rcases LeaveState.mem_periodsOf_append.1 hb with hb | ⟨rfl, -⟩
    · obtain ⟨p, hp, h⟩ := hs.source b hb happ
      exact ⟨p, LeaveState.mem_periodsOf_append.2 (.inl hp), h⟩
    · rw [hnew] at happ
      cases happ
  · intro p hp b hb hfol
    have hpos := ((hsound p (LeaveState.mem_periodsOf.1 hp).1).available).trans
      (hsound p (LeaveState.mem_periodsOf.1 hp).1).available_le
    have hzero : ∀ b : LeaveBalance, b.Sound → b.carryoverApplied = false →
        b.carriedDays ≤ p.carriedDays + p.givenDays := by
      intro b hb happ
      rw [(hb.fresh happ).1]
      exact hpos
    rcases LeaveState.mem_periodsOf_append.1 hb with hbo | ⟨rfl, -⟩
    · rcases LeaveState.mem_periodsOf_append.1 hp with hpo | ⟨rfl, hg⟩
      · exact hs.covered p hpo b hbo hfol
      · -- a period that was rolled over into has another period before it
        have hbs := hs.sound_of_mem hbo
        refine hzero b hbs ?_
        by_contra happ
        obtain ⟨q, hq, hfol', -⟩ := hs.source b hbo (by simpa using happ)
        have hper := (hs.sound_of_mem hq).period
        have hper' := hrow.period
        unfold LeaveBalance.Follows at hfol hfol'
        rcases hapart hg q hq with hdis | hdis <;> omega
    · exact hzero b hrow hnew

theorem expiry (hok : SparesCarried g s .expiry)
    (hbal : t = { s with balances := s.balances.map (·.expire s.today) }) : CarryInvariant g t := by
  subst hbal
  refine hs.map rfl (le_refl _) hs.days (LeaveBalance.expire_carried s.today) ?_ ?_ ?_
  · intro b hb
    have hav := (hs.sound b hb).available
    rcases LeaveBalance.expire_eq s.today b with h | ⟨hexp, h⟩
    · rw [h]
      exact ⟨le_refl _, fun _ => rfl⟩
    · have := LeaveBalance.clawback_nonneg hexp
      rw [h]
      cases happ : b.carryoverApplied with
      | false => simp
      | true => simpa using this
  · intro b hb
    have hav := (hs.sound b hb).available
    rcases LeaveBalance.expire_eq s.today b with h | ⟨hexp, h⟩
    · rwa [h]
    · have := LeaveBalance.clawback_le hav
      rw [h]
      simp only [LeaveBalance.availableDays] at this ⊢
      omega
  · intro p hp
    rcases LeaveBalance.expire_eq s.today p with h | ⟨hexp, h⟩
    · rw [h]
      exact .inl (le_refl _)
    · cases happ : p.carryoverApplied with
      | true =>
        -- the expiry takes back what the rollover credited
        refine .inl ?_
        rw [h]
        simp only [LeaveBalance.givenDays, happ, if_true]
        omega
      | false =>
        refine .inr ?_
        have hloss : p.availableDays - (p.expire s.today).availableDays = p.clawback := by
          rw [h]
          simp only [LeaveBalance.availableDays]
          omega
        rw [hloss]
        exact hok p hp hexp happ

theorem accrual : CarryInvariant g { s with balances := s.balances.map (accrued s) } := by
  refine hs.map rfl (le_refl _) hs.days (accrued_carried s) ?_ ?_ ?_
  · intro b _
    rcases accrued_eq s b with h | ⟨days, -, -, h⟩ <;> rw [h] <;> exact ⟨le_refl _, fun _ => rfl⟩
  · intro b hb
    have hav := (hs.sound b hb).available
    rcases accrued_eq s b with h | ⟨days, hpos, -, h⟩
    · rwa [h]
    · rw [h]
      simp only [LeaveBalance.availableDays] at hav ⊢
      omega
  · intro p _
    refine .inl ?_
    rcases accrued_eq s p with h | ⟨days, hpos, -, h⟩
    · rw [h]
    · rw [h]
      simp only [LeaveBalance.givenDays]
      omega

/-- The rollover credits what it carries, so the days given stay the same. -/
theorem rollover (pick : BalanceKey → ℕ) :
    CarryInvariant g { s with balances := s.balances.map (rolledOver s pick) } := by
  have hgain : ∀ b ∈ s.balances, (rolledOver s pick b).givenDays = b.givenDays ∧
      b.carriedDays ≤ (rolledOver s pick b).carriedDays := by
    intro b hb
    rcases rolledOver_eq s pick b with h | ⟨p, lt, -, happ, -, h⟩
    · rw [h]
      exact ⟨rfl, le_refl _⟩
    · rw [h, ((hs.sound b hb).fresh happ).1]
      refine ⟨?_, p.carryover_nonneg lt⟩
      simp only [LeaveBalance.givenDays, LeaveBalance.rollOver]
      omega
  refine hs.ofMap rfl (le_refl _) hs.days
    (fun b => ⟨(rolledOver_counters s pick b).tenant, (rolledOver_counters s pick b).key⟩) ?_ ?_ ?_
  · intro b hb
    rcases rolledOver_eq s pick b with h | ⟨p, lt, -, happ, -, h⟩
    · rw [h]
      exact hs.sound b hb
    · have hsb := hs.sound b hb
      have hnonneg := p.carryover_nonneg lt
      have hav := hsb.available
      rw [h]
      refine ⟨hsb.period, ?_, ?_, fun hno => by cases hno⟩
      · simp only [LeaveBalance.availableDays, LeaveBalance.rollOver] at hav ⊢
        omega
      · simp only [LeaveBalance.rollOver, (hsb.fresh happ).2]
        omega
  · intro b hb happ
    rcases rolledOver_eq s pick b with h | ⟨p, lt, hp, -, hclosed, -⟩
    · rw [h] at happ
      exact hs.source b hb happ
    · obtain ⟨hg, hfol, hend⟩ := LeaveBalance.closedBefore_iff.1 hclosed
      refine ⟨p, LeaveState.mem_periodsOf.2 ⟨hp, ?_⟩, hfol, hend⟩
      exact hg.symm.trans (LeaveState.mem_periodsOf.1 hb).2
  · intro p hp b hb hfol
    obtain ⟨hpm, hpg⟩ := LeaveState.mem_periodsOf.1 hp
    obtain ⟨hbm, hbg⟩ := LeaveState.mem_periodsOf.1 hb
    obtain ⟨hgiven, hcarried⟩ := hgain p hpm
    rcases rolledOver_eq s pick b with h | ⟨p', lt, hp', -, hclosed, h⟩
    · have := hs.covered p hp b hb hfol
      rw [h]
      omega
    · obtain ⟨hg, hfol', -⟩ := LeaveBalance.closedBefore_iff.1 hclosed
      have hp'g : p' ∈ s.periodsOf g := LeaveState.mem_periodsOf.2 ⟨hp', hg.symm.trans hbg⟩
      obtain rfl := hs.eq_of_followed hp'g hp hfol' hfol
      have hle := (hs.sound p' hpm).carryover_le lt
      have hle' := (hs.sound p' hpm).available_le
      have hcar : (rolledOver s pick b).carriedDays = p'.carryover lt := by rw [h]; rfl
      omega

theorem step {a : LeaveAction} (hapart : KeepsApart g s a) (hok : SparesCarried g s a)
    (ha : leaveStep s a = some t) : CarryInvariant g t := by
  cases a with
  | passDays days =>
    cases ha
    refine hs.map (f := id) (map_id _).symm ?_ hs.days .refl ?_ ?_ ?_
    · show s.today ≤ s.today + days
      omega
    · exact fun b _ => ⟨le_refl _, fun _ => rfl⟩
    · exact fun b hb => (hs.sound b hb).available
    · exact fun p _ => .inl (le_refl _)
  | setLeaveTypes leaveTypes =>
    cases ha
    exact ⟨hs.keys, hs.days, hs.sound, hs.apart, hs.source, hs.covered⟩
  | provision tenantId employeeId dto =>
    obtain ⟨hfresh, hst, rfl⟩ := provision_ok (toOption_eq_some ha)
    refine hs.provision hfresh ⟨?_, ?_, le_refl _, fun _ => ⟨rfl, rfl⟩⟩ rfl hapart
    · simp only [LeaveBalance.storable, Bool.and_eq_true, decide_eq_true_eq] at hst
      exact hst.1.1.1.1
    · show 0 ≤ (dto.accruedDays : ℤ) - 0 - 0
      omega
  | requestLeave tenantId dto id chain pick =>
    obtain ⟨hdates, htoday, options, -, h⟩ := requestLeave_ok (toOption_eq_some ha)
    refine hs.submit hdates h fun p hp hcov => hs.spare_of_open hp ?_ _
    obtain ⟨-, -, -, -, hend⟩ := LeaveBalance.covers_iff.1 hcov
    omega
  | submitBackdatedLeave tenantId dto reason id chain pick =>
    obtain ⟨hdates, -, options, -, h⟩ := submitBackdatedLeave_ok (toOption_eq_some ha)
    exact hs.submit hdates h hok
  | decide tenantId requestId dto pick => exact hs.decide (toOption_eq_some ha)
  | rollover pick =>
    obtain rfl := updateAll_ok (toOption_eq_some ha)
    exact hs.rollover pick
  | expiry => exact hs.expiry hok (updateAll_ok (toOption_eq_some ha))
  | accrual =>
    obtain rfl := updateAll_ok (toOption_eq_some ha)
    exact hs.accrual

end CarryInvariant

/-- **No day is spent twice, as long as carried days are spared.** For every employee and leave
type whose provisioned periods do not overlap, and every sequence of requests, backdated
submissions, decisions, accrual, rollover and expiry ticks from the empty tables: if no backdated
submission and no expiry of provisioned carryover takes days from a period that were carried over
into the next one, then in every state the days used and pending over all periods are at most the
days accrued over all periods, less what the rollover credited. -/
theorem no_day_spent_twice {g : LeaveGroup} {s : LeaveState} {as : List LeaveAction}
    (h₀ : LeaveInit s) (hapart : Meets leaveStep (KeepsApart g) s as)
    (hok : Meets leaveStep (SparesCarried g) s as) : Always leaveStep (NotOverspent g) s as := by
  have hboth : Meets leaveStep (fun s a => KeepsApart g s a ∧ SparesCarried g s a) s as :=
    fun bs a t hbs ht => ⟨hapart bs a t hbs ht, hok bs a t hbs ht⟩
  exact always_of_invariant (fun _ hs => CarryInvariant.notOverspent hs)
    (fun _ _ _ hs hok ha => hs.step hok.1 hok.2 ha) (h₀.carryInvariant g) hboth

/-- Period 1 has ten days, of which five can be carried over; period 2 has none of its own. -/
def twoPeriods : List LeaveAction :=
  [.provision 7 40 ⟨1, 20454, 20818, 1000, none, none⟩,
    .provision 7 40 ⟨1, 20819, 21183, 0, none, none⟩]

/-- After the rollover, the carried days are requested in period 2 and the other five days of
period 1 are submitted backdated and approved. -/
def sparingRun : List LeaveAction :=
  twoPeriods ++ [.passDays 400, .rollover fun _ => 0,
    .requestLeave 7 ⟨40, 1, 20860, 20864⟩ 1 100 0,
    .submitBackdatedLeave 7 ⟨40, 1, 20460, 20464⟩ "sick" 2 101 0,
    .decide 7 2 ⟨true, 90, [backdatedLeaveApprovePermission], none⟩ 0, .expiry, .accrual]

theorem not_overspent_on_sparingRun :
    Always leaveStep (NotOverspent ⟨7, 40, 1⟩) noLeave sparingRun ∧
      (exec leaveStep noLeave sparingRun).isSome = true :=
  ⟨no_day_spent_twice leaveInit_noLeave (by decide) (by decide), by decide⟩

/-- All ten days of period 1 are submitted backdated, after five of them were carried over into
period 2 and requested there. -/
def spentTwiceRun : List LeaveAction :=
  twoPeriods ++ [.passDays 400, .rollover fun _ => 0,
    .requestLeave 7 ⟨40, 1, 20860, 20864⟩ 1 100 0,
    .submitBackdatedLeave 7 ⟨40, 1, 20460, 20469⟩ "sick" 2 101 0]

theorem backdated_leave_spends_carried_days : LeaveInit noLeave ∧
    Meets leaveStep (KeepsApart ⟨7, 40, 1⟩) noLeave spentTwiceRun ∧
    ∃ t, exec leaveStep noLeave spentTwiceRun = some t ∧ ¬ NotOverspent ⟨7, 40, 1⟩ t :=
  ⟨leaveInit_noLeave, by decide, exists_exec (by decide)⟩

end Workforce.Leave
