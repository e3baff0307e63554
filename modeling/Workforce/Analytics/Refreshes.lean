import Workforce.Foundations.Calendar
import Workforce.Foundations.Views
import Workforce.Org.Tree
import Mathlib.Data.Finset.Max
import Mathlib.Data.Rat.Floor

/-!
# Refreshed views

`mv-cost-vs-budget-refresh-job.service.ts` and `mv-attrition-by-site-refresh-job.service.ts`: a job
aggregates employees, shifts and leave requests over months, and upserts a row for each group. It
deletes no row, so a view keeps the rows of cost centres and sites that have no group any more. The
query for the sites joins every site above an employee, where one, the nearest, is meant.

The views are what a fresh aggregation gives, and each terminated employee is counted at the nearest
site, along the runs in which no group disappears and no terminated employee has a second site
above (`views_iff`).
-/

namespace Workforce.Analytics

open Runs Tables Views Paths List

/-! ## The sources -/

/-- What the queries read of an employee. Dates are days. -/
structure Employee where
  tenantId : ℕ
  id : ℕ
  orgUnitId : ℕ
  costCenter : Option String
  terminationDate : Option ℤ

/-- Instants are milliseconds. -/
structure ShiftAssignment where
  tenantId : ℕ
  employeeId : ℕ
  shiftStart : ℤ
  shiftEnd : ℤ
  isOvertime : Bool

inductive LeaveStatus
  | pending | approved | rejected | cancelled
  deriving DecidableEq

structure LeaveRequest where
  tenantId : ℕ
  employeeId : ℕ
  dateRangeStart : ℤ
  dateRangeEnd : ℤ
  status : LeaveStatus

/-- The units of a tenant, as a set of rows. -/
abbrev unitRows (orgUnits : ℕ → List Org.OrgUnit) (tenantId : ℕ) : Set Org.OrgUnit :=
  {u | u ∈ orgUnits tenantId}

/-- The tables that the queries read, of all tenants. The org units of each tenant are a tree. -/
structure Source where
  employees : List Employee
  orgUnits : ℕ → List Org.OrgUnit
  shiftAssignments : List ShiftAssignment
  leaveRequests : List LeaveRequest
  distinct : ∀ tenantId, (orgUnits tenantId).Nodup
  tree : ∀ tenantId, Consistent Org.treeColumns (unitRows orgUnits tenantId)

/-! ## What the database computes -/

/-- Functions of the database: `date_trunc('month', ·)` of an instant and the instant of a date,
both in the time zone of the session, and `EXTRACT(EPOCH FROM ·) / 3600.0` of a duration. -/
structure Postgres where
  truncMonth : ℤ → ℤ
  atMidnight : ℤ → ℤ
  hours : ℤ → ℚ

/-- Hundredths, a half rounded away from zero. -/
def hundredths (x : ℚ) : ℤ :=
  if 0 ≤ x then ⌊100 * x + 1 / 2⌋ else -⌊1 / 2 - 100 * x⌋

/-- A column `numeric(precision, 2)` that is checked not to be negative, in hundredths. -/
def column (precision : ℕ) (x : ℚ) : Option ℤ :=
  if 0 ≤ hundredths x ∧ hundredths x < 10 ^ precision then some (hundredths x) else none

/-- Tenant, cost centre and month. -/
abbrev CostKey := ℕ × String × ℤ

/-- A row of `mv_cost_vs_budget`; the figures are hundredths. -/
structure CostVsBudget where
  tenantId : ℕ
  costCenter : String
  periodStart : ℤ
  scheduledHours : ℤ
  overtimeHours : ℤ
  approvedLeaveDays : ℤ
  deriving DecidableEq

/-- `mv_cost_vs_budget_upsert_key`. -/
def CostVsBudget.key (row : CostVsBudget) : CostKey :=
  (row.tenantId, row.costCenter, row.periodStart)

/-- A row of `mv_attrition_by_site`. -/
structure AttritionBySite where
  tenantId : ℕ
  siteOrgUnitId : ℕ
  periodStart : ℤ
  terminationsCount : ℕ
  deriving DecidableEq

/-- Tenant, site and month. -/
abbrev SiteKey := ℕ × ℕ × ℤ

/-- `mv_attrition_by_site_upsert_key`. -/
def AttritionBySite.key (row : AttritionBySite) : SiteKey :=
  (row.tenantId, row.siteOrgUnitId, row.periodStart)

/-! ## The queries -/

namespace Source

variable (s : Source)

/-- The join with the employees, which leaves out those without a cost centre. -/
def costCenters (tenantId employeeId : ℕ) : List (ℕ × String) :=
  (s.employees.filter fun e => e.tenantId = tenantId && e.id = employeeId).filterMap fun e =>
    e.costCenter.map fun costCenter => (e.tenantId, costCenter)

/-- The sites at or above the unit of an employee. -/
def sites (e : Employee) : List Org.OrgUnit :=
  ((s.orgUnits e.tenantId).filter (·.id = e.orgUnitId)).flatMap fun eu =>
    (s.orgUnits e.tenantId).filter fun site => site.columns.type = .site && site.path <+: eu.path

end Source

namespace Postgres

variable (pg : Postgres) (s : Source)

/-- The rows of `scheduled`, before they are grouped. -/
def scheduledRows : List (CostKey × ShiftAssignment) :=
  s.shiftAssignments.flatMap fun sa => (s.costCenters sa.tenantId sa.employeeId).map fun c =>
    ((c.1, c.2, pg.truncMonth sa.shiftStart), sa)

/-- The hours of a group: all, and overtime. -/
def scheduledHours (rows : List (CostKey × ShiftAssignment)) : ℚ × ℚ :=
  ((rows.map fun r => pg.hours (r.2.shiftEnd - r.2.shiftStart)).sum,
    (rows.map fun r =>
      if r.2.isOvertime then pg.hours (r.2.shiftEnd - r.2.shiftStart) else 0).sum)

/-- The rows of `leave_days`, before they are grouped. -/
def leaveRows : List (CostKey × LeaveRequest) :=
  (s.leaveRequests.filter (·.status = .approved)).flatMap fun lr =>
    (s.costCenters lr.tenantId lr.employeeId).map fun c =>
      ((c.1, c.2, pg.truncMonth (pg.atMidnight lr.dateRangeStart)), lr)

/-- The days of a group. -/
def approvedLeaveDays (rows : List (CostKey × LeaveRequest)) : ℤ :=
  (rows.map fun r => r.2.dateRangeEnd - r.2.dateRangeStart + 1).sum

/-- The groups of `SOURCE_QUERY`: hours of shifts, or days of leave, or both. -/
def costGroups : List (CostKey × Option (ℚ × ℚ) × Option ℤ) :=
  fullOuterJoin ((groups Prod.fst (pg.scheduledRows s)).map fun g => (g.1, pg.scheduledHours g.2))
    ((groups Prod.fst (pg.leaveRows s)).map fun g => (g.1, approvedLeaveDays g.2))

/-- The rows that the refresh upserts; a value that its column does not take makes it throw. -/
def costVsBudget : Option (List CostVsBudget) :=
  (pg.costGroups s).mapM fun g => do
    let hours := g.2.1.getD (0, 0)
    let scheduledHours ← column 10 hours.1
    let overtimeHours ← column 10 hours.2
    let approvedLeaveDays ← column 8 (g.2.2.getD 0)
    some ⟨g.1.1, g.1.2.1, g.1.2.2, scheduledHours, overtimeHours, approvedLeaveDays⟩

/-- The rows of the other `SOURCE_QUERY`, before they are grouped: what they are grouped by. -/
def terminations : List SiteKey :=
  s.employees.flatMap fun e => e.terminationDate.toList.flatMap fun terminationDate =>
    (s.sites e).map fun site =>
      (e.tenantId, site.id, pg.truncMonth (pg.atMidnight terminationDate))

/-- The rows that its refresh upserts; the count is an `integer`. -/
def attritionBySite : Option (List AttritionBySite) :=
  (groups (fun k => k) (pg.terminations s)).mapM fun g =>
    if g.2.length < 2 ^ 31 then some ⟨g.1.1, g.1.2.1, g.1.2.2, g.2.length⟩ else none

end Postgres

/-! ## The jobs -/

/-- The sources, and the two views as they were last refreshed. -/
structure State where
  source : Source
  costVsBudget : List CostVsBudget
  attritionBySite : List AttritionBySite

/-- No refresh has been made. -/
def State.init (source : Source) : State := ⟨source, [], []⟩

inductive Action
  /-- The sources change, in whatever way. -/
  | change (source : Source)
  | refreshCostVsBudget
  | refreshAttritionBySite

/-- One step: a change, or a `refresh` that does not throw. -/
def step (pg : Postgres) (s : State) : Action → Option State
  | .change source => some { s with source := source }
  | .refreshCostVsBudget => do
    let rows ← pg.costVsBudget s.source
    some { s with costVsBudget := upsertAll CostVsBudget.key rows s.costVsBudget }
  | .refreshAttritionBySite => do
    let rows ← pg.attritionBySite s.source
    some { s with attritionBySite := upsertAll AttritionBySite.key rows s.attritionBySite }

/-! ## Fresh aggregations -/

/-- A fresh aggregation of the sources for `mv_cost_vs_budget`; none when it does not fit. -/
def State.freshCostVsBudget (pg : Postgres) (s : State) : List CostVsBudget :=
  (pg.costVsBudget s.source).getD []

/-- One for `mv_attrition_by_site`. -/
def State.freshAttritionBySite (pg : Postgres) (s : State) : List AttritionBySite :=
  (pg.attritionBySite s.source).getD []

variable {pg : Postgres} {s t : State} {a : Action}

variable {source : Source}

theorem keys_costVsBudget {rows : List CostVsBudget} (h : pg.costVsBudget source = some rows) :
    rows.map CostVsBudget.key = (pg.costGroups source).map Prod.fst := by
  refine map_of_mapM (fun g row hrow => ?_) h
  simp only [Option.bind_eq_bind, Option.bind_eq_some_iff, Option.some.injEq] at hrow
  obtain ⟨_, -, _, -, _, -, rfl⟩ := hrow
  rfl

theorem keys_attritionBySite {rows : List AttritionBySite}
    (h : pg.attritionBySite source = some rows) :
    rows.map AttritionBySite.key =
      (groups (fun k => k) (pg.terminations source)).map Prod.fst := by
  refine map_of_mapM (fun g row hrow => ?_) h
  split at hrow
  case isTrue =>
    cases hrow
    rfl
  case isFalse => cases hrow

theorem nodup_costGroups (source : Source) : ((pg.costGroups source).map Prod.fst).Nodup := by
  have hkeys : ∀ {ρ β : Type} (f : List (CostKey × ρ) → β) (rows : List (CostKey × ρ)),
      (((groups Prod.fst rows).map fun g => (g.1, f g.2)).map Prod.fst).Nodup := by
    intro ρ β f rows
    rw [map_map]
    exact nodup_groups
  exact nodup_fullOuterJoin (hkeys _ _) (hkeys _ _)

theorem refreshed_costVsBudget : Refreshed (step pg) CostVsBudget.key State.costVsBudget
    (State.freshCostVsBudget pg) (· = .refreshCostVsBudget) where
  nodup := by
    intro s
    unfold State.freshCostVsBudget
    cases h : pg.costVsBudget s.source with
    | none => exact nodup_nil
    | some rows =>
      rw [Option.getD_some, keys_costVsBudget h]
      exact nodup_costGroups s.source
  refreshed := by
    rintro s a t hstep rfl
    obtain ⟨rows, hrows, ht⟩ := Option.bind_eq_some_iff.1 hstep
    cases ht
    simp [State.freshCostVsBudget, hrows]
  kept := by
    intro s a t hstep ha
    cases a with
    | change source =>
      cases hstep
      rfl
    | refreshCostVsBudget => exact absurd rfl ha
    | refreshAttritionBySite =>
      obtain ⟨rows, -, ht⟩ := Option.bind_eq_some_iff.1 hstep
      cases ht
      rfl

theorem refreshed_attritionBySite : Refreshed (step pg) AttritionBySite.key State.attritionBySite
    (State.freshAttritionBySite pg) (· = .refreshAttritionBySite) where
  nodup := by
    intro s
    unfold State.freshAttritionBySite
    cases h : pg.attritionBySite s.source with
    | none => exact nodup_nil
    | some rows =>
      rw [Option.getD_some, keys_attritionBySite h]
      exact nodup_groups
  refreshed := by
    rintro s a t hstep rfl
    obtain ⟨rows, hrows, ht⟩ := Option.bind_eq_some_iff.1 hstep
    cases ht
    simp [State.freshAttritionBySite, hrows]
  kept := by
    intro s a t hstep ha
    cases a with
    | change source =>
      cases hstep
      rfl
    | refreshCostVsBudget =>
      obtain ⟨rows, -, ht⟩ := Option.bind_eq_some_iff.1 hstep
      cases ht
      rfl
    | refreshAttritionBySite => exact absurd rfl ha

/-! ## The sites above an employee -/

section Sites

/-- A site is the unit of an employee, or is above it. -/
def Source.SiteAbove (s : Source) (e : Employee) (site : Org.OrgUnit) : Prop :=
  site.columns.type = .site ∧ ∃ eu ∈ s.orgUnits e.tenantId, eu.id = e.orgUnitId ∧
    Below Org.treeColumns (unitRows s.orgUnits e.tenantId) eu site

/-- No other one is below it. -/
def Source.Nearest (s : Source) (e : Employee) (site : Org.OrgUnit) : Prop :=
  s.SiteAbove e site ∧ ∀ other, s.SiteAbove e other →
    Below Org.treeColumns (unitRows s.orgUnits e.tenantId) site other

/-- No terminated employee has two sites above. -/
def Source.OneSite (s : Source) : Prop :=
  ∀ e ∈ s.employees, e.terminationDate ≠ none →
    ∀ a b, s.SiteAbove e a → s.SiteAbove e b → a = b

variable {source : Source} {e : Employee}

theorem Source.SiteAbove.mem {site : Org.OrgUnit} (h : source.SiteAbove e site) :
    site ∈ source.orgUnits e.tenantId := by
  obtain ⟨-, eu, heu, -, hbelow⟩ := h
  exact hbelow.mem heu

theorem mem_sites {site : Org.OrgUnit} : site ∈ source.sites e ↔ source.SiteAbove e site := by
  simp only [Source.sites, mem_flatMap, mem_filter, decide_eq_true_eq, Bool.and_eq_true]
  constructor
  · rintro ⟨eu, ⟨heu, hid⟩, hsite, htype, hprefix⟩
    exact ⟨htype, eu, heu, hid, ((source.tree e.tenantId).prefix_iff heu hsite).1 hprefix⟩
  · rintro ⟨htype, eu, heu, hid, hbelow⟩
    have hsite := hbelow.mem heu
    exact ⟨eu, ⟨heu, hid⟩, hsite, htype, ((source.tree e.tenantId).prefix_iff heu hsite).2 hbelow⟩

theorem oneSite_of_length_le (h : ∀ e ∈ source.employees, (source.sites e).length ≤ 1) :
    source.OneSite := by
  intro e he _ a b ha hb
  rw [← mem_sites] at ha hb
  rcases Nat.le_one_iff_eq_zero_or_eq_one.1 (h e he) with hzero | hone
  · rw [eq_nil_of_length_eq_zero hzero] at ha
    exact absurd ha not_mem_nil
  · obtain ⟨c, hc⟩ := length_eq_one_iff.1 hone
    rw [hc, mem_singleton] at ha hb
    rw [ha, hb]

/-- Along a run whose changes leave no terminated employee with two sites above. -/
theorem oneSite_of_changes {as : List Action} (hsource : source.OneSite)
    (h : Meets (step pg) (fun _ a => ∀ b, a = .change b → b.OneSite) (.init source) as) :
    Always (step pg) (fun s => s.source.OneSite) (.init source) as := by
  refine always_of_invariant (fun _ hs => hs) (fun s a t hs hok hstep => ?_) hsource h
  cases a with
  | change b =>
    cases hstep
    exact hok b rfl
  | refreshCostVsBudget | refreshAttritionBySite =>
    obtain ⟨rows, -, ht⟩ := Option.bind_eq_some_iff.1 hstep
    cases ht
    exact hs

theorem nodup_unitIds (source : Source) (tenantId : ℕ) :
    ((source.orgUnits tenantId).map (·.id)).Nodup :=
  (source.distinct tenantId).map_on fun u hu v hv => (source.tree tenantId).key_inj u hu v hv

theorem nodup_sites (source : Source) (e : Employee) : ((source.sites e).map (·.id)).Nodup := by
  have hone : ((source.orgUnits e.tenantId).filter (·.id = e.orgUnitId)).length ≤ 1 := by
    refine length_filter_le_one (nodup_unitIds source e.tenantId) fun u _ v _ hu hv => ?_
    exact (of_decide_eq_true hu).trans (of_decide_eq_true hv).symm
  unfold Source.sites
  match h : (source.orgUnits e.tenantId).filter (·.id = e.orgUnitId) with
  | [] =>
    rw [h]
    exact nodup_nil
  | [eu] =>
    rw [h, flatMap_singleton]
    exact (nodup_unitIds source e.tenantId).sublist (filter_sublist.map _)
  | _ :: _ :: _ => simp [h] at hone

theorem eq_of_below {tenantId : ℕ} {a b : Org.OrgUnit} (ha : a ∈ source.orgUnits tenantId)
    (hab : Below Org.treeColumns (unitRows source.orgUnits tenantId) a b)
    (hba : Below Org.treeColumns (unitRows source.orgUnits tenantId) b a) : a = b := by
  have htree := source.tree tenantId
  have hle := (htree.prefix_of_below hab).length_le
  exact htree.eq_of_path ha (hab.mem ha) ((htree.prefix_of_below hba).eq_of_length_le hle)

/-- Every site above each terminated employee is nearest only when there is one. -/
theorem oneSite_iff : source.OneSite ↔ ∀ e ∈ source.employees, e.terminationDate ≠ none →
    ∀ site, source.SiteAbove e site → source.Nearest e site := by
  constructor
  · intro hone e he hterminated site hsite
    refine ⟨hsite, fun other hother => ?_⟩
    rw [hone e he hterminated site other hsite hother]
    exact .refl
  · intro hnearest e he hterminated a b ha hb
    exact eq_of_below ha.mem ((hnearest e he hterminated a ha).2 b hb)
      ((hnearest e he hterminated b hb).2 a ha)

end Sites

/-! ## What the query counts -/

section Counts

open Classical in
/-- The terminated employees of a tenant in a month that a relation puts at a site. -/
noncomputable def terminatedAt (pg : Postgres) (source : Source)
    (located : Employee → Org.OrgUnit → Prop) (k : SiteKey) : ℕ :=
  source.employees.countP fun e => e.tenantId = k.1 ∧ (∃ site, located e site ∧ site.id = k.2.1) ∧
    ∃ d ∈ e.terminationDate, pg.truncMonth (pg.atMidnight d) = k.2.2

variable {source : Source}

theorem count_terminations (k : SiteKey) :
    (pg.terminations source).count k = terminatedAt pg source source.SiteAbove k := by
  classical
  unfold Postgres.terminations terminatedAt
  refine count_flatMap_eq_countP fun e _ => ?_
  obtain ⟨tenantId, siteId, period⟩ := k
  cases hdate : e.terminationDate with
  | none => simp
  | some d =>
    simp only [Option.toList_some, flatMap_singleton, Option.mem_def, Option.some.injEq,
      exists_eq_left', decide_eq_true_eq]
    have hnodup : ((source.sites e).map fun site =>
        (e.tenantId, site.id, pg.truncMonth (pg.atMidnight d))).Nodup := by
      refine Nodup.of_map (fun k : SiteKey => k.2.1) ?_
      rw [map_map]
      exact nodup_sites source e
    rw [hnodup.count]
    refine if_congr ?_ rfl rfl
    simp only [mem_map, mem_sites, Prod.mk.injEq]
    tauto

/-- It counts each terminated employee at the nearest site, and nowhere else, when none has a second
site above, and only then. -/
theorem count_nearest_iff (pg : Postgres) :
    (∀ k, (pg.terminations source).count k = terminatedAt pg source source.Nearest k) ↔
      source.OneSite := by
  classical
  have hcounts : ∀ k, terminatedAt pg source source.SiteAbove k =
      terminatedAt pg source source.Nearest k ↔ ∀ e ∈ source.employees,
        (e.tenantId = k.1 ∧ (∃ site, source.SiteAbove e site ∧ site.id = k.2.1) ∧
          ∃ d ∈ e.terminationDate, pg.truncMonth (pg.atMidnight d) = k.2.2) →
        ∃ site, source.Nearest e site ∧ site.id = k.2.1 := by
    intro k
    refine (countP_eq_countP_iff fun e _ => ?_).trans (forall₂_congr fun e _ => ?_)
    · simp only [decide_eq_true_eq]
      rintro ⟨htenant, ⟨site, hsite, hid⟩, hperiod⟩
      exact ⟨htenant, ⟨site, hsite.1, hid⟩, hperiod⟩
    · simp only [decide_eq_true_eq]
      exact ⟨fun h hp => (h hp).2.1, fun h hp => ⟨hp.1, h hp, hp.2.2⟩⟩
  simp only [count_terminations, hcounts, oneSite_iff]
  constructor
  · intro h e he hterminated site hsite
    obtain ⟨d, hd⟩ := Option.ne_none_iff_exists'.1 hterminated
    obtain ⟨near, hnear, hid⟩ := h (e.tenantId, site.id, pg.truncMonth (pg.atMidnight d)) e he
      ⟨rfl, ⟨site, hsite, rfl⟩, d, hd, rfl⟩
    rwa [(source.tree e.tenantId).key_inj near hnear.1.mem site hsite.mem hid] at hnear
  · rintro h k e he ⟨-, ⟨site, hsite, hid⟩, d, hd, -⟩
    have hterminated : e.terminationDate ≠ none := by
      rw [Option.mem_def.1 hd]
      exact Option.some_ne_none d
    exact ⟨site, h e he hterminated site hsite, hid⟩

end Counts

/-- The count of the view for a site and a month, 0 when there is no row. -/
def State.terminationsAt (s : State) (k : SiteKey) : ℕ :=
  ((lookup AttritionBySite.key k s.attritionBySite).map (·.terminationsCount)).getD 0

theorem count_attritionBySite {rows : List AttritionBySite}
    (h : pg.attritionBySite source = some rows) (k : SiteKey) :
    ((lookup AttritionBySite.key k rows).map (·.terminationsCount)).getD 0 =
      (pg.terminations source).count k := by
  cases hlookup : lookup AttritionBySite.key k rows with
  | none =>
    have hk : k ∉ rows.map AttritionBySite.key := by
      rw [← lookup_isSome, hlookup]
      simp
    rw [keys_attritionBySite h, mem_keys_groups, map_id'] at hk
    rw [count_eq_zero_of_not_mem hk]
    rfl
  | some row =>
    obtain ⟨hrow, rfl⟩ := mem_of_lookup hlookup
    obtain ⟨g, hg, hsome⟩ := exists_of_mem_mapM h hrow
    split at hsome
    case isTrue =>
      cases hsome
      change g.2.length = (pg.terminations source).count g.1
      rw [(mem_groups.1 hg).2, count_eq_length_filter]
      refine congrArg length (filter_congr fun k' _ => ?_)
      exact Bool.eq_iff_iff.2 (by simp)
    case isFalse => cases hsome

/-! ## Runs -/

/-- Each terminated employee is counted at the nearest site, and only there. -/
def CountsNearest (pg : Postgres) (s : State) : Prop :=
  ∀ k, s.terminationsAt k = terminatedAt pg s.source s.source.Nearest k

/-- Right after each refresh of a run, the view has the rows of a fresh aggregation, and that of the
sites counts each terminated employee at the nearest one. -/
structure ViewsFresh (pg : Postgres) (s₀ : State) (as : List Action) : Prop where
  costVsBudget : Shows (step pg) State.costVsBudget (State.freshCostVsBudget pg)
    (· = .refreshCostVsBudget) s₀ as
  attritionBySite : Shows (step pg) State.attritionBySite (State.freshAttritionBySite pg)
    (· = .refreshAttritionBySite) s₀ as
  counted : ∀ bs t, bs ++ [.refreshAttritionBySite] <+: as →
    exec (step pg) s₀ (bs ++ [.refreshAttritionBySite]) = some t → CountsNearest pg t

/-- Every group that there is at a refresh of a run is there at each later refresh of the view, and
at no refresh of the sites does a terminated employee have two sites above. -/
structure SourcesStay (pg : Postgres) (s₀ : State) (as : List Action) : Prop where
  costVsBudget : GroupsStay (step pg) CostVsBudget.key (State.freshCostVsBudget pg)
    (· = .refreshCostVsBudget) s₀ as
  attritionBySite : GroupsStay (step pg) AttritionBySite.key (State.freshAttritionBySite pg)
    (· = .refreshAttritionBySite) s₀ as
  oneSite : ∀ bs s, bs ++ [.refreshAttritionBySite] <+: as →
    exec (step pg) s₀ bs = some s → s.source.OneSite

theorem countsNearest_iff {s₀ u v : State} {bs : List Action} (hinit : s₀.attritionBySite = [])
    (hu : exec (step pg) s₀ bs = some u) (hstep : step pg u .refreshAttritionBySite = some v)
    (hperm : v.attritionBySite.Perm (v.freshAttritionBySite pg)) :
    CountsNearest pg v ↔ u.source.OneSite := by
  have hv : exec (step pg) s₀ (bs ++ [.refreshAttritionBySite]) = some v :=
    exec_concat_eq_some.2 ⟨u, hu, hstep⟩
  have hnodup := refreshed_attritionBySite.nodup_view hinit hv
  obtain ⟨rows, hrows, ht⟩ := Option.bind_eq_some_iff.1 hstep
  have hsource : v.source = u.source := by
    rw [← Option.some.inj ht]
  have hfresh : v.freshAttritionBySite pg = rows := by
    rw [State.freshAttritionBySite, hsource, hrows, Option.getD_some]
  rw [← count_nearest_iff pg, CountsNearest, hsource]
  refine forall_congr' fun k => ?_
  rw [State.terminationsAt, lookup_perm hperm hnodup, hfresh, count_attritionBySite hrows]

/-- The views are fresh right after each refresh of an accepted run, with each terminated employee
counted at the nearest site, if and only if no group disappears between refreshes and no terminated
employee has two sites above at one. -/
theorem views_iff {source : Source} {as : List Action}
    (h : exec (step pg) (.init source) as = some t) :
    ViewsFresh pg (.init source) as ↔ SourcesStay pg (.init source) as := by
  have hnoCosts : (State.init source).costVsBudget = [] := rfl
  have hnoSites : (State.init source).attritionBySite = [] := rfl
  have hcost := refreshed_costVsBudget.shows_iff hnoCosts h
  have hsites := refreshed_attritionBySite.shows_iff hnoSites h
  constructor
  · rintro ⟨hcosts, hshows, hcounted⟩
    refine ⟨hcost.1 hcosts, hsites.1 hshows, fun bs u hpre hu => ?_⟩
    obtain ⟨v, hv⟩ : ∃ v, exec (step pg) (.init source) (bs ++ [.refreshAttritionBySite]) =
        some v := by
      obtain ⟨cs, rfl⟩ := hpre
      obtain ⟨v, hv, -⟩ := exec_append_eq_some.1 h
      exact ⟨v, hv⟩
    obtain ⟨u', hu', hstep⟩ := exec_concat_eq_some.1 hv
    obtain rfl := Option.some.inj (hu.symm.trans hu')
    exact (countsNearest_iff rfl hu hstep (hshows bs _ v hpre rfl hv)).1 (hcounted bs v hpre hv)
  · rintro ⟨hcosts, hstay, hone⟩
    have hshows := hsites.2 hstay
    refine ⟨hcost.2 hcosts, hshows, fun bs v hpre hv => ?_⟩
    obtain ⟨u, hu, hstep⟩ := exec_concat_eq_some.1 hv
    exact (countsNearest_iff rfl hu hstep (hshows bs _ v hpre rfl hv)).2 (hone bs u hpre hu)

/-! ## Two runs -/

/-- Sessions in UTC. -/
def utc : Postgres where
  truncMonth := fun instant => Calendar.monthStart (instant / 86400000) * 86400000
  atMidnight := fun date => date * 86400000
  hours := fun duration => duration / 3600000

/-- A site and a unit below it. -/
def units (type : Org.OrgUnitType) : List Org.OrgUnit :=
  [⟨10, ⟨none, .site, "Hamburg", "Europe/Berlin", "DE", .active⟩, [10], 0⟩,
    ⟨11, ⟨some 10, type, "Harbour", "Europe/Berlin", "DE", .active⟩, [10, 11], 0⟩]

/-- A terminated employee of the unit below, with a shift of two hours. -/
def staffed (type : Org.OrgUnitType) (costCenter : String) : Source where
  employees := [⟨1, 7, 11, some costCenter, some 30⟩]
  orgUnits := fun tenantId => if tenantId = 1 then units type else []
  shiftAssignments := [⟨1, 7, 0, 7200000, false⟩]
  leaveRequests := []
  distinct := by
    intro tenantId
    split
    case isTrue => cases type <;> decide
    case isFalse => exact nodup_nil
  tree := by
    intro tenantId
    change Consistent Org.treeColumns {u | u ∈ if tenantId = 1 then units type else []}
    split
    case isTrue => exact ⟨by simp [units], by simp [units], by simp [units]⟩
    case isFalse => exact ⟨by simp, by simp, by simp⟩

/-- Both views are refreshed once. -/
def refreshedOnce : List Action := [.refreshCostVsBudget, .refreshAttritionBySite]

/-- The cost centre of the employee is corrected between two refreshes. -/
def corrected : List Action :=
  [.refreshCostVsBudget, .change (staffed .team "B"), .refreshCostVsBudget]

/-- The row of the old cost centre stays; an employee with two sites above is counted at both. -/
theorem views_not_fresh :
    (∃ t, exec (step utc) (.init (staffed .team "A")) corrected = some t ∧
      t.costVsBudget = [⟨1, "A", 0, 200, 0, 0⟩, ⟨1, "B", 0, 200, 0, 0⟩] ∧
      t.freshCostVsBudget utc = [⟨1, "B", 0, 200, 0, 0⟩]) ∧
    ∃ t, exec (step utc) (.init (staffed .site "A")) refreshedOnce = some t ∧
      t.source.employees.length = 1 ∧
      t.attritionBySite = [⟨1, 10, 0, 1⟩, ⟨1, 11, 0, 1⟩] :=
  ⟨exists_exec (by decide +kernel), exists_exec (by decide +kernel)⟩

/-- Another employee of the site is terminated, in the same month. -/
def grown : Source :=
  { staffed .team "A" with
    employees := [⟨1, 7, 11, some "A", some 30⟩, ⟨1, 8, 10, some "B", some 29⟩] }

/-- Both views are refreshed before the change and after it. -/
def refreshedTwice : List Action := refreshedOnce ++ .change grown :: refreshedOnce

theorem refreshedTwice_fresh : ∃ t,
    exec (step utc) (.init (staffed .team "A")) refreshedTwice = some t ∧
      t.attritionBySite = [⟨1, 10, 0, 2⟩] ∧
      ViewsFresh utc (.init (staffed .team "A")) refreshedTwice := by
  obtain ⟨t, ht, hrow⟩ : ∃ t, exec (step utc) (.init (staffed .team "A")) refreshedTwice = some t ∧
      t.attritionBySite = [⟨1, 10, 0, 2⟩] := exists_exec (by decide +kernel)
  refine ⟨t, ht, hrow, (views_iff ht).2 ⟨?_, ?_, fun bs s hbs hs => ?_⟩⟩
  · exact groupsStay_of_meets (by decide +kernel)
  · exact groupsStay_of_meets (by decide +kernel)
  · have hmeets : Meets (step utc) (fun _ a => ∀ b, a = .change b → b.OneSite)
        (.init (staffed .team "A")) refreshedTwice := by
      refine meets_of_mem fun a ha _ b hb => ?_
      obtain rfl : b = grown := by simpa [refreshedTwice, refreshedOnce, hb] using ha
      exact oneSite_of_length_le (by decide)
    exact oneSite_of_changes (oneSite_of_length_le (by decide)) hmeets bs s
      ((prefix_append _ _).trans hbs) hs

end Workforce.Analytics
