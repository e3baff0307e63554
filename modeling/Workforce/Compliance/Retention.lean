import Workforce.Foundations.Runs
import Workforce.Foundations.Tables

/-!
# The retention sweep and legal holds

`RetentionLifecycleJobService.sweepExpiredReports` against `ComplianceReportService.setLegalHold`,
over the table `compliance_report` and the stored objects its rows point at.

A sweep selects a batch of expired reports that are not on hold, and then, report by report, deletes
the stored object and the row. Each deletion is a step of its own, and any call may come between
two of them. The hold is read by the `SELECT` only: neither deletion looks at it again. So a hold
that commits while its report is in the rest of a batch comes too late, and without such a hold no
report on hold loses its row or its object.
-/

namespace Workforce.Compliance.Retention

open Tables List

/-! ## Reports, objects and sweeps -/

/-- `s3://<bucket>/reports/<tenantId>/<reportId>.csv`, by its varying parts. -/
structure FileUri where
  tenantId : ℕ
  reportId : ℕ
  deriving DecidableEq

structure ComplianceReport where
  id : ℕ
  tenantId : ℕ
  fileUri : Option FileUri
  retentionExpiresAt : ℤ
  legalHold : Bool
  deriving DecidableEq

/-- A row of the batch, as the sweep read it. -/
structure ExpiredReportRow where
  id : ℕ
  fileUri : Option FileUri
  deriving DecidableEq

/-- A sweep in progress: the rows it has left, and whether the object of the first is gone. -/
structure Sweep where
  jobId : ℕ
  rows : List ExpiredReportRow
  objectDeleted : Bool
  deriving DecidableEq

/-- The reports, the object store, and the sweeps that are under way. -/
structure State where
  reports : List ComplianceReport
  objects : List FileUri
  sweeps : List Sweep
  deriving DecidableEq

def State.init : State := ⟨[], [], []⟩

/-- `SELECT id, file_uri … WHERE retention_expires_at < now() AND NOT legal_hold`. -/
def selectExpiredUnheld (now : ℤ) (reports : List ComplianceReport) : List ExpiredReportRow :=
  let expired := reports.filter fun r => r.retentionExpiresAt < now && !r.legalHold
  expired.map fun r => ⟨r.id, r.fileUri⟩

/-- `LIMIT` without an order: some of the rows, each once, as many as the limit allows. -/
def limited (limit : ℕ) (all rows : List ExpiredReportRow) : Bool :=
  rows.all (· ∈ all) && decide rows.Nodup && rows.length = min limit all.length

inductive Action
  /-- `requestReport` inserts its row. -/
  | requestReport (id tenantId : ℕ) (retentionExpiresAt : ℤ)
  /-- `generate` has uploaded the object. -/
  | upload (tenantId id : ℕ)
  /-- `generate` writes `fileUri`. -/
  | complete (tenantId id : ℕ)
  /-- The transaction of `setLegalHold` commits. -/
  | setLegalHold (tenantId id : ℕ) (legalHold : Bool)
  /-- A sweep reads its batch. -/
  | select (jobId batchSize : ℕ) (now : ℤ) (rows : List ExpiredReportRow)
  /-- `deleteObject` of the first row: whether it took effect and whether it returned. -/
  | deleteObject (jobId : ℕ) (applied ok : Bool)
  /-- `DELETE … WHERE id = $1` for the first row, likewise. -/
  | deleteRow (jobId : ℕ) (applied ok : Bool)

/-- Replace the sweep of a job. -/
def State.setSweep (s : State) (sweep : Sweep) : State :=
  { s with sweeps := modify Sweep.jobId sweep.jobId (fun _ => sweep) s.sweeps }

/-- One step of one call. A deletion that throws moves the sweep on to its next row; what had taken
effect stays. -/
def step (s : State) : Action → Option State
  | .requestReport id tenantId retentionExpiresAt =>
    if s.reports.any (fun r => r.id = id) then none
    else some { s with reports := s.reports ++ [⟨id, tenantId, none, retentionExpiresAt, false⟩] }
  | .upload tenantId id => some { s with objects := s.objects ++ [⟨tenantId, id⟩] }
  | .complete tenantId id =>
    some { s with reports := s.reports.map fun r =>
      if r.id = id && r.tenantId = tenantId then { r with fileUri := some ⟨tenantId, id⟩ } else r }
  | .setLegalHold tenantId id legalHold =>
    some { s with reports := s.reports.map fun r =>
      if r.id = id && r.tenantId = tenantId then { r with legalHold := legalHold } else r }
  | .select jobId batchSize now rows =>
    if s.sweeps.any (fun w => w.jobId = jobId) then none
    else if limited batchSize (selectExpiredUnheld now s.reports) rows then
      some { s with sweeps := s.sweeps ++ [⟨jobId, rows, false⟩] }
    else none
  | .deleteObject jobId applied ok =>
    match lookup Sweep.jobId jobId s.sweeps with
    | some ⟨_, ⟨id, some uri⟩ :: rows, false⟩ =>
      if ok && !applied then none
      else
        let objects := if applied then s.objects.filter (· ≠ uri) else s.objects
        let sweep := if ok then ⟨jobId, ⟨id, some uri⟩ :: rows, true⟩ else ⟨jobId, rows, false⟩
        some ({ s with objects := objects }.setSweep sweep)
    | _ => none
  | .deleteRow jobId applied ok =>
    match lookup Sweep.jobId jobId s.sweeps with
    | some ⟨_, row :: rows, objectDeleted⟩ =>
      if (row.fileUri.isSome && !objectDeleted) || (ok && !applied) then none
      else
        let reports := if applied then s.reports.filter (·.id ≠ row.id) else s.reports
        some ({ s with reports := reports }.setSweep ⟨jobId, rows, false⟩)
    | _ => none

/-! ## The statements -/

/-- Nothing is deleted from a report on hold: every report on hold before the step has its row
after it, and its object if it was stored. -/
def KeepsHeld (s t : State) : Prop :=
  ∀ r ∈ s.reports, r.legalHold = true →
    (∃ r' ∈ t.reports, r'.id = r.id) ∧
      ∀ uri, r.fileUri = some uri → uri ∈ s.objects → uri ∈ t.objects

/-- The step, if it is taken, keeps what is on hold. -/
def RespectsHold (s : State) (a : Action) : Prop := ∀ t, step s a = some t → KeepsHeld s t

/-- The report is in the rest of the batch of a sweep. -/
def State.InBatch (s : State) (id : ℕ) : Prop := ∃ w ∈ s.sweeps, ∃ row ∈ w.rows, row.id = id
  deriving Decidable

/-- The action does not put on hold a report that is in the rest of a batch. -/
def HoldsInTime (s : State) : Action → Prop
  | .setLegalHold _ id true => ¬ s.InBatch id
  | _ => True

instance (s : State) : DecidablePred (HoldsInTime s) := fun a => by
  unfold HoldsInTime
  split <;> infer_instance

/-! ## What the steps do -/

/-- The sweeps of `t` have no rows that those of `s` did not have. -/
def RowsShrink (s t : State) : Prop := ∀ w' ∈ t.sweeps, ∃ w ∈ s.sweeps, w'.rows ⊆ w.rows

variable {s : State}

theorem rowsShrink_setSweep {w sweep : Sweep} (hw : w ∈ s.sweeps) (hrows : sweep.rows ⊆ w.rows)
    (reports : List ComplianceReport) (objects : List FileUri) :
    RowsShrink s (({ s with reports := reports, objects := objects }).setSweep sweep) := by
  intro w' hw'
  obtain ⟨v, hv, -, rfl⟩ | ⟨hold, -⟩ := mem_modify.1 hw'
  · exact ⟨w, hw, hrows⟩
  · exact ⟨w', hold, Subset.refl _⟩

theorem step_deleteObject {s t : State} {jobId : ℕ} {applied ok : Bool}
    (h : step s (.deleteObject jobId applied ok) = some t) :
    ∃ w ∈ s.sweeps, ∃ row ∈ w.rows, ∃ uri, row.fileUri = some uri ∧ t.reports = s.reports ∧
      (t.objects = s.objects ∨ t.objects = s.objects.filter (· ≠ uri)) ∧ RowsShrink s t := by
  simp only [step] at h
  split at h
  · rename_i job id uri rows hlookup
    obtain ⟨hw, -⟩ := mem_of_lookup hlookup
    split at h
    · cases h
    · cases h
      refine ⟨_, hw, ⟨id, some uri⟩, mem_cons_self, uri, rfl, rfl, ?_, ?_⟩
      · cases applied
        · exact .inl rfl
        · exact .inr rfl
      · refine rowsShrink_setSweep hw ?_ s.reports _
        cases ok
        · exact subset_cons_self _ _
        · exact Subset.refl _
  · cases h

theorem step_deleteRow {s t : State} {jobId : ℕ} {applied ok : Bool}
    (h : step s (.deleteRow jobId applied ok) = some t) :
    ∃ w ∈ s.sweeps, ∃ row ∈ w.rows, t.objects = s.objects ∧
      (t.reports = s.reports ∨ t.reports = s.reports.filter (·.id ≠ row.id)) ∧
      RowsShrink s t := by
  simp only [step] at h
  split at h
  · rename_i job row rows objectDeleted hlookup
    obtain ⟨hw, -⟩ := mem_of_lookup hlookup
    split at h
    · cases h
    · cases h
      refine ⟨_, hw, row, mem_cons_self, rfl, ?_, ?_⟩
      · cases applied
        · exact .inl rfl
        · exact .inr rfl
      · exact rowsShrink_setSweep hw (subset_cons_self _ _) _ s.objects
  · cases h

/-! ## The invariant -/

/-- What a sweep relies on for a row of its batch: the row's object is its own, and its report is
not on hold. -/
structure Selected (s : State) (row : ExpiredReportRow) : Prop where
  uri : ∀ uri, row.fileUri = some uri → uri.reportId = row.id
  unheld : ∀ r ∈ s.reports, r.id = row.id → r.legalHold = false

/-- Identifiers are unique, every report points at its own object, and every row left in a batch is
as its sweep selected it. -/
structure Inv (s : State) : Prop where
  ids : (s.reports.map ComplianceReport.id).Nodup
  uris : ∀ r ∈ s.reports, ∀ uri, r.fileUri = some uri → uri.reportId = r.id
  batches : ∀ w ∈ s.sweeps, ∀ row ∈ w.rows, Selected s row

theorem inv_init : Inv State.init := by
  constructor <;> simp [State.init]

theorem Inv.shrink {s t : State} (h : Inv s) (hreports : t.reports.Sublist s.reports)
    (hrows : RowsShrink s t) : Inv t where
  ids := h.ids.sublist (hreports.map _)
  uris r hr := h.uris r (hreports.subset hr)
  batches w' hw' row hrow := by
    obtain ⟨w, hw, hsub⟩ := hrows w' hw'
    obtain ⟨huri, hheld⟩ := h.batches w hw row (hsub hrow)
    exact ⟨huri, fun r hr => hheld r (hreports.subset hr)⟩

/-- The invariant goes over to reports that are changed one by one, keeping the identifier, pointing
at their own object, and put on hold only outside the batches. -/
theorem Inv.map (h : Inv s) {f : ComplianceReport → ComplianceReport} (hid : ∀ r, (f r).id = r.id)
    (huri : ∀ r ∈ s.reports, ∀ uri, (f r).fileUri = some uri → uri.reportId = r.id)
    (hheld : ∀ r ∈ s.reports, s.InBatch r.id → r.legalHold = false → (f r).legalHold = false) :
    Inv { s with reports := s.reports.map f } where
  ids := by
    have hmap : (s.reports.map f).map ComplianceReport.id = s.reports.map ComplianceReport.id := by
      rw [map_map]
      exact map_congr_left fun r _ => hid r
    simpa only [hmap] using h.ids
  uris r hr uri hr' := by
    obtain ⟨q, hq, rfl⟩ := mem_map.1 hr
    rw [hid]
    exact huri q hq uri hr'
  batches w hw row hrow := by
    refine ⟨(h.batches w hw row hrow).uri, fun r hr hid' => ?_⟩
    obtain ⟨q, hq, rfl⟩ := mem_map.1 hr
    rw [hid] at hid'
    exact hheld q hq ⟨w, hw, row, hrow, hid'.symm⟩ ((h.batches w hw row hrow).unheld q hq hid')

theorem Inv.append (h : Inv s) {report : ComplianceReport}
    (hne : ∀ r ∈ s.reports, r.id ≠ report.id) (hfile : report.fileUri = none)
    (hunheld : report.legalHold = false) : Inv { s with reports := s.reports ++ [report] } where
  ids := nodup_append_singleton h.ids hne
  uris r hr uri huri := by
    rcases Tables.mem_concat.1 hr with hr | rfl
    · exact h.uris r hr uri huri
    · rw [hfile] at huri
      cases huri
  batches w hw row hrow := by
    obtain ⟨huri, hheld⟩ := h.batches w hw row hrow
    refine ⟨huri, fun r hr hid => ?_⟩
    rcases Tables.mem_concat.1 hr with hr | rfl
    · exact hheld r hr hid
    · exact hunheld

theorem Inv.select (h : Inv s) {sweep : Sweep} (hrows : ∀ row ∈ sweep.rows, Selected s row) :
    Inv { s with sweeps := s.sweeps ++ [sweep] } where
  ids := h.ids
  uris := h.uris
  batches w hw row hrow := by
    have hsel : Selected s row := by
      rcases Tables.mem_concat.1 hw with hw | rfl
      · exact h.batches w hw row hrow
      · exact hrows row hrow
    exact ⟨hsel.uri, hsel.unheld⟩

/-- A row that the `SELECT` returns belongs to a report that is not on hold. -/
theorem selected_of_mem_select (h : Inv s) {now : ℤ} {row : ExpiredReportRow}
    (hrow : row ∈ selectExpiredUnheld now s.reports) : Selected s row := by
  simp only [selectExpiredUnheld, mem_map, mem_filter, Bool.and_eq_true, Bool.not_eq_true'] at hrow
  obtain ⟨q, ⟨hq, -, hheld⟩, rfl⟩ := hrow
  refine ⟨h.uris q hq, fun r hr hid => ?_⟩
  rw [eq_of_key_eq h.ids hr hq hid]
  exact hheld

/-- **The step lemma**: a hold that comes in time keeps the invariant, and so does every other
step. -/
theorem inv_step (s : State) (a : Action) (t : State) (h : Inv s) (hok : HoldsInTime s a)
    (hstep : step s a = some t) : Inv t := by
  cases a with
  | requestReport id tenantId retentionExpiresAt =>
    simp only [step] at hstep
    split at hstep
    · cases hstep
    · rename_i hfresh
      cases hstep
      have hne : ∀ r ∈ s.reports, r.id ≠ id := by simpa using hfresh
      exact h.append hne rfl rfl
  | upload tenantId id =>
    cases hstep
    exact ⟨h.ids, h.uris, fun w hw row hrow =>
      ⟨(h.batches w hw row hrow).uri, (h.batches w hw row hrow).unheld⟩⟩
  | complete tenantId id =>
    cases hstep
    refine h.map (fun r => by split <;> rfl) ?_ ?_
    · intro r hr uri huri
      split at huri
      · rename_i hmatch
        simp only [Bool.and_eq_true, decide_eq_true_eq] at hmatch
        cases huri
        exact hmatch.1.symm
      · exact h.uris r hr uri huri
    · intro r _ _ hheld
      split <;> exact hheld
  | setLegalHold tenantId id legalHold =>
    cases hstep
    refine h.map (fun r => by split <;> rfl) ?_ ?_
    · intro r hr uri huri
      refine h.uris r hr uri ?_
      split at huri <;> exact huri
    · intro r _ hbatch hheld
      split
      · rename_i hmatch
        simp only [Bool.and_eq_true, decide_eq_true_eq] at hmatch
        cases legalHold
        · rfl
        · exact absurd (hmatch.1 ▸ hbatch) hok
      · exact hheld
  | select jobId batchSize now rows =>
    simp only [step] at hstep
    split at hstep
    · cases hstep
    · split at hstep
      · rename_i hlimited
        cases hstep
        simp only [limited, Bool.and_eq_true, all_eq_true, decide_eq_true_eq] at hlimited
        exact h.select fun row hrow => selected_of_mem_select h (hlimited.1.1 row hrow)
      · cases hstep
  | deleteObject jobId applied ok =>
    obtain ⟨w, hw, row, hrow, uri, huri, hreports, -, hshrink⟩ := step_deleteObject hstep
    exact h.shrink (hreports ▸ Sublist.refl _) hshrink
  | deleteRow jobId applied ok =>
    obtain ⟨w, hw, row, hrow, -, hreports, hshrink⟩ := step_deleteRow hstep
    refine h.shrink ?_ hshrink
    obtain hreports | hreports := hreports
    · rw [hreports]
    · rw [hreports]
      exact filter_sublist

/-! ## Holds are respected -/

/-- A step that keeps all objects and the identifiers of all reports keeps what is on hold. -/
theorem keepsHeld_of_subset {s t : State} (hobjects : s.objects ⊆ t.objects)
    (hreports : ∀ r ∈ s.reports, ∃ r' ∈ t.reports, r'.id = r.id) : KeepsHeld s t :=
  fun r hr _ => ⟨hreports r hr, fun _ _ huri => hobjects huri⟩

theorem exists_mem_map {reports : List ComplianceReport} {f : ComplianceReport → ComplianceReport}
    (hid : ∀ r, (f r).id = r.id) : ∀ r ∈ reports, ∃ r' ∈ reports.map f, r'.id = r.id :=
  fun r hr => ⟨f r, mem_map_of_mem hr, hid r⟩

theorem respectsHold_of_inv (s : State) (a : Action) (h : Inv s) : RespectsHold s a := by
  intro t hstep
  cases a with
  | requestReport id tenantId retentionExpiresAt =>
    simp only [step] at hstep
    split at hstep
    · cases hstep
    · cases hstep
      exact keepsHeld_of_subset (Subset.refl _)
        fun r hr => ⟨r, mem_append_left _ hr, rfl⟩
  | upload tenantId id =>
    cases hstep
    exact keepsHeld_of_subset (subset_append_left _ _) fun r hr => ⟨r, hr, rfl⟩
  | complete tenantId id =>
    cases hstep
    exact keepsHeld_of_subset (Subset.refl _) (exists_mem_map fun r => by split <;> rfl)
  | setLegalHold tenantId id legalHold =>
    cases hstep
    exact keepsHeld_of_subset (Subset.refl _) (exists_mem_map fun r => by split <;> rfl)
  | select jobId batchSize now rows =>
    simp only [step] at hstep
    split at hstep
    · cases hstep
    · split at hstep
      · cases hstep
        exact keepsHeld_of_subset (Subset.refl _) fun r hr => ⟨r, hr, rfl⟩
      · cases hstep
  | deleteObject jobId applied ok =>
    obtain ⟨w, hw, row, hrow, uri, huri, hreports, hobjects, -⟩ := step_deleteObject hstep
    intro r hr hheld
    refine ⟨⟨r, hreports ▸ hr, rfl⟩, fun uri' huri' hmem => ?_⟩
    obtain hobjects | hobjects := hobjects
    · rw [hobjects]
      exact hmem
    · -- the object deleted belongs to the row's report, which is not on hold
      rw [hobjects, mem_filter, decide_eq_true_eq]
      refine ⟨hmem, ?_⟩
      rintro rfl
      obtain ⟨hown, hunheld⟩ := h.batches w hw row hrow
      have hid : r.id = row.id := (h.uris r hr _ huri').symm.trans (hown _ huri)
      rw [hunheld r hr hid] at hheld
      cases hheld
  | deleteRow jobId applied ok =>
    obtain ⟨w, hw, row, hrow, hobjects, hreports, -⟩ := step_deleteRow hstep
    intro r hr hheld
    refine ⟨⟨r, ?_, rfl⟩, fun uri _ hmem => hobjects ▸ hmem⟩
    obtain hreports | hreports := hreports
    · rw [hreports]
      exact hr
    · rw [hreports, mem_filter, decide_eq_true_eq]
      refine ⟨hr, ?_⟩
      intro hid
      rw [(h.batches w hw row hrow).unheld r hr hid] at hheld
      cases hheld

/-- **Legal holds.** In every run in which no hold commits for a report that is in the rest of a
batch, no step deletes the row or the stored object of a report on hold. -/
theorem holds_respected {as : List Action} {t : State}
    (hrun : Runs.exec step State.init as = some t)
    (hok : Runs.Meets step HoldsInTime State.init as) :
    Runs.Meets step RespectsHold State.init as :=
  Runs.meets_of_invariant (fun s a h _ => respectsHold_of_inv s a h) inv_step inv_init hok hrun

/-! ### A late hold -/

/-- Report 5 has expired and is in the batch of a sweep when it is put on hold. -/
def lateHold : List Action :=
  [.requestReport 5 1 100, .upload 1 5, .complete 1 5, .select 1 100 200 [⟨5, some ⟨1, 5⟩⟩],
    .setLegalHold 1 5 true]

def heldInBatch : State :=
  ⟨[⟨5, 1, some ⟨1, 5⟩, 100, true⟩], [⟨1, 5⟩], [⟨1, [⟨5, some ⟨1, 5⟩⟩], false⟩]⟩

/-- The hold has committed, and the sweep then deletes both the object and the row. -/
theorem late_hold_deleted :
    Runs.exec step State.init lateHold = some heldInBatch ∧
      (∃ r ∈ heldInBatch.reports, r.id = 5 ∧ r.legalHold = true ∧ r.fileUri = some ⟨1, 5⟩) ∧
      (⟨1, 5⟩ : FileUri) ∈ heldInBatch.objects ∧
      Runs.exec step heldInBatch [.deleteObject 1 true true] =
        some ⟨heldInBatch.reports, [], [⟨1, [⟨5, some ⟨1, 5⟩⟩], true⟩]⟩ ∧
      Runs.exec step heldInBatch [.deleteObject 1 true true, .deleteRow 1 true true] =
        some ⟨[], [], [⟨1, [], false⟩]⟩ := by
  refine ⟨by decide, ⟨_, mem_singleton_self _, rfl, rfl, rfl⟩, mem_singleton_self _,
    by decide, by decide⟩

/-- Reports 5 and 6 have expired, and 6 is put on hold before a sweep selects: it takes 5 only. -/
def holdInTime : List Action :=
  [.requestReport 5 1 100, .requestReport 6 1 100, .upload 1 5, .complete 1 5, .upload 1 6,
    .complete 1 6, .setLegalHold 1 6 true, .select 1 100 200 [⟨5, some ⟨1, 5⟩⟩],
    .deleteObject 1 true true, .deleteRow 1 true true]

theorem hold_in_time_respected :
    Runs.exec step State.init holdInTime =
        some ⟨[⟨6, 1, some ⟨1, 6⟩, 100, true⟩], [⟨1, 6⟩], [⟨1, [], false⟩]⟩ ∧
      Runs.Meets step HoldsInTime State.init holdInTime ∧
      Runs.Meets step RespectsHold State.init holdInTime := by
  have hrun : Runs.exec step State.init holdInTime =
      some ⟨[⟨6, 1, some ⟨1, 6⟩, 100, true⟩], [⟨1, 6⟩], [⟨1, [], false⟩]⟩ := by decide
  have hok : Runs.Meets step HoldsInTime State.init holdInTime := by decide
  exact ⟨hrun, hok, holds_respected hrun hok⟩

end Workforce.Compliance.Retention
