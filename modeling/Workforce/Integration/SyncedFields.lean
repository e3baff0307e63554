import Workforce.Integration.WorkdaySync

/-!
# The fields that a sync keeps

A sync keeps the protected fields of an employee when the last record of the employee's number was
part of the dry run's report, since then every change of a field that a policy keeps is put back,
or its record left out. It does not keep a cost centre or a manager that no mapping sets and no
policy keeps: the import clears them. Nor does it keep what a record changes that the dry run
refused, where the import takes it: the look-up of its org unit has failed in the dry run only, or
a revert of another record makes it acceptable (`sync_keeps_iff`).
-/

namespace Workforce.Integration.WorkdaySync

open Tables Employees BulkImport List

/-! ## The records of a sync -/

/-- The import records of a connector; `none` when the endpoint refuses one. -/
def importRecords (validators : Validators) (input : SyncInput) :
    Option (List BulkImportRecord) :=
  match input.fetched with
  | .workers rawWorkers =>
    ((rawWorkers.map fun worker => applyFieldMappings worker input.mappings).filter
      isCompleteBulkImportRecord).mapM (decodeRecord validators)
  | _ => none

/-- What is detected in the report of the dry run. -/
def detected (input : SyncInput) (s : State) (records : List BulkImportRecord) :
    ConflictDetectionResult :=
  detectFieldAuthorityConflicts (buildReport s input.dryRun.job.unitFails records) input.policies

/-- The records that a sync imports. -/
def imported (input : SyncInput) (s : State) (records : List BulkImportRecord) :
    List BulkImportRecord :=
  recordsToCommit (detected input s records) records

section Commit

variable {validators : Validators} {maxEmployees : Option ℕ} {destructiveEnabled : Bool}
  {input : SyncInput} {db : Db} {records : List BulkImportRecord} {record : BulkImportRecord}

theorem mapM_revalidate {valid : List BulkImportRecord}
    (h : records.mapM revalidate = some valid) : valid = records := by
  have hsame : ∀ a b, revalidate a = some b → id b = id a := by
    intro a b hab
    unfold revalidate at hab
    split at hab
    case isTrue => exact (Option.some.inj hab).symm
    case isFalse => cases hab
  simpa using map_of_mapM hsame h

theorem submitAndAwait_job {w : Submission} {dryRun : Bool}
    {submitted : Option (List BulkImportRecord)} {status : JobStatus}
    (h : (submitAndAwait maxEmployees destructiveEnabled w dryRun submitted db).job =
      some status) :
    ∃ records, submitted = some records ∧
      processImport maxEmployees destructiveEnabled w.job records dryRun db =
        (status, (submitAndAwait maxEmployees destructiveEnabled w dryRun submitted db).db) := by
  unfold submitAndAwait at h ⊢
  split at h
  case isTrue => cases h
  case isFalse hup =>
    cases submitted with
    | none => cases h
    | some records =>
      rw [if_neg hup]
      cases h
      exact ⟨records, rfl, rfl⟩

theorem submitAndAwait_answer {w : Submission} {dryRun : Bool}
    {submitted : Option (List BulkImportRecord)} {status : JobStatus}
    (h : (submitAndAwait maxEmployees destructiveEnabled w dryRun submitted db).answer =
      some status) :
    (submitAndAwait maxEmployees destructiveEnabled w dryRun submitted db).job = some status := by
  unfold submitAndAwait at h ⊢
  split at h
  case isTrue => cases h
  case isFalse hup =>
    cases submitted with
    | none => cases h
    | some records =>
      rw [if_neg hup]
      dsimp only at h ⊢
      split at h
      · cases h
      · exact h

theorem commitReported_commit {report result : DiffReport} {incompleteCount : ℕ}
    (h : (commitReported maxEmployees destructiveEnabled input records report incompleteCount
      db).commitJob = some (.completed result)) :
    processImport maxEmployees destructiveEnabled input.commit.job
      (recordsToCommit (detectFieldAuthorityConflicts report input.policies) records) false db =
    (.completed result, (commitReported maxEmployees destructiveEnabled input records report
      incompleteCount db).db) := by
  unfold commitReported at h ⊢
  dsimp only at h ⊢
  split at h
  case isTrue => cases h
  case isFalse hsome =>
    rw [if_neg hsome]
    obtain ⟨valid, hvalid, himport⟩ := submitAndAwait_job h
    obtain rfl := mapM_revalidate hvalid
    exact himport

theorem syncWorkers_commit {rawWorkers : List Json} {result : DiffReport}
    (h : (syncWorkers validators maxEmployees destructiveEnabled input rawWorkers db).commitJob =
      some (.completed result)) :
    ∃ records, ((rawWorkers.map fun worker => applyFieldMappings worker input.mappings).filter
        isCompleteBulkImportRecord).mapM (decodeRecord validators) = some records ∧
      processImport maxEmployees destructiveEnabled input.commit.job
        (imported input db.tables records) false db =
      (.completed result,
        (syncWorkers validators maxEmployees destructiveEnabled input rawWorkers db).db) := by
  unfold syncWorkers at h ⊢
  dsimp only at h ⊢
  split at h
  case isTrue => cases h
  case isFalse hvalid =>
    rw [if_neg hvalid]
    split at h
    case h_1 => cases h
    case h_2 records hdecoded =>
      rw [hdecoded]
      split at h
      case h_1 => cases h
      case h_2 => cases h
      case h_3 report hanswer =>
        obtain ⟨_, hsame, hdry⟩ := submitAndAwait_job (submitAndAwait_answer hanswer)
        cases hsame
        obtain ⟨hdb, hreport⟩ := processImport_dryRun hdry
        obtain rfl := hreport report rfl
        rw [hdb] at h ⊢
        exact ⟨records, rfl, commitReported_commit h⟩

/-- What a sync commits is what the report of the dry run leaves of the records. -/
theorem sync_commit {result : DiffReport}
    (h : (sync validators maxEmployees destructiveEnabled input db).commitJob =
      some (.completed result)) :
    ∃ records, importRecords validators input = some records ∧
      processImport maxEmployees destructiveEnabled input.commit.job
        (imported input db.tables records) false db =
      (.completed result, (sync validators maxEmployees destructiveEnabled input db).db) := by
  unfold sync at h ⊢
  split at h
  case isTrue => cases h
  case isFalse hurl =>
    rw [if_neg hurl]
    split at h
    case isTrue => cases h
    case isFalse htoken =>
      rw [if_neg htoken, importRecords]
      split at h
      case h_1 => cases h
      case h_2 => cases h
      case h_3 rawWorkers hfetched =>
        rw [hfetched]
        exact syncWorkers_commit h

theorem exists_mapped (h : importRecords validators input = some records)
    (hmem : record ∈ records) :
    ∃ rawWorker, isCompleteBulkImportRecord (applyFieldMappings rawWorker input.mappings) = true ∧
      decodeRecord validators (applyFieldMappings rawWorker input.mappings) = some record := by
  unfold importRecords at h
  split at h
  case h_1 rawWorkers _ =>
    obtain ⟨mapped, hmapped, hdecoded⟩ := exists_of_mem_mapM h hmem
    obtain ⟨hmapped, hcomplete⟩ := mem_filter.1 hmapped
    obtain ⟨rawWorker, -, rfl⟩ := mem_map.1 hmapped
    exact ⟨rawWorker, hcomplete, hdecoded⟩
  case h_2 => cases h

/-- Only optional fields have no mapping, and no record has a value there. -/
theorem value_of_unmapped (h : importRecords validators input = some records)
    (hmem : record ∈ records) {field : DiffField} (hfield : Unmapped input field.name) :
    (field = .costCenter ∧ record.costCenter = none) ∨
      (field = .managerEmployeeId ∧ record.managerEmployeeId = none) := by
  obtain ⟨rawWorker, hcomplete, hdecoded⟩ := exists_mapped h hmem
  have hnone := @lookup_applyFieldMappings input.mappings rawWorker _ hfield
  cases field with
  | costCenter => exact .inl ⟨rfl, decodeRecord_costCenter hdecoded hnone⟩
  | managerEmployeeId => exact .inr ⟨rfl, decodeRecord_managerEmployeeId hdecoded hnone⟩
  | orgUnitId => exact absurd hnone (lookup_of_complete hcomplete (by decide))
  | employmentType => exact absurd hnone (lookup_of_complete hcomplete (by decide))
  | contractHoursPerWeek => exact absurd hnone (lookup_of_complete hcomplete (by decide))

end Commit

/-! ## What a sync may not change -/

/-- The last record of an employee number. -/
def lastRecord (records : List BulkImportRecord) (n : String) : Option BulkImportRecord :=
  (records.filter fun record => record.employeeNumber = n).getLast?

/-- An import changes an employee of the number: it has an update for it, and no conflict. -/
def Touches (s : State) (unitFails : ℕ → Bool) (records : List BulkImportRecord) (n : String) :
    Prop :=
  n ∉ (buildReport s unitFails records).conflictNumbers ∧
    n ∈ (buildReport s unitFails records).updateNumbers

/-- There is nothing to clear in the fields that no mapping sets and no policy keeps. -/
def NothingCleared (input : SyncInput) (x : Employee) : Prop :=
  (Unmapped input DiffField.costCenter.name → ¬ KeptByPolicy input DiffField.costCenter.name →
    x.columns.costCenter = none) ∧
  (Unmapped input DiffField.managerEmployeeId.name →
    ¬ KeptByPolicy input DiffField.managerEmployeeId.name → x.columns.managerEmployeeId = none)

/-- A record that the dry run refuses, or whose org unit it could not look up, has the value of the
employee in every field that a policy keeps, unless another record has that field put back. -/
def NothingHidden (input : SyncInput) (s : State) (records : List BulkImportRecord) (x : Employee)
    (record : BulkImportRecord) : Prop :=
  (∀ p ∈ records.zipIdx, p.1 = record → ¬ Refers s (input.dryRun.job.unitFails p.2) p.1) →
    ∀ field : DiffField, KeptByPolicy input field.name →
      ChangedIn s input.dryRun.job.unitFails records x field ∨
        store field (recordValue record field) = column x.columns field

/-- The condition on an employee that the import changes. -/
def Spares (input : SyncInput) (s : State) (records : List BulkImportRecord) : Prop :=
  ∀ x ∈ s.employees, ∀ record, lastRecord records x.columns.employeeNumber = some record →
    Touches s input.commit.job.unitFails (imported input s records) x.columns.employeeNumber →
    NothingCleared input x ∧ NothingHidden input s records x record

/-! ## What is imported of an employee -/

section Imported

variable {input : SyncInput} {s : State} {records : List BulkImportRecord} {n : String}

theorem filter_imported
    (hn : n ∉ (detected input s records).recordsToReject) :
    ((imported input s records).filter fun record => record.employeeNumber = n) =
      (records.filter fun record => record.employeeNumber = n).map fun record =>
        merge record ((detected input s records).fieldRevertsByEmployee n) := by
  rw [imported, recordsToCommit, filter_map, filter_filter]
  have hfilter : ∀ record ∈ records,
      (((fun record : BulkImportRecord => decide (record.employeeNumber = n)) ∘ fun record =>
        merge record ((detected input s records).fieldRevertsByEmployee
          record.employeeNumber)) record &&
        decide (record.employeeNumber ∉ (detected input s records).recordsToReject)) =
      decide (record.employeeNumber = n) := by
    intro record _
    by_cases hrecord : record.employeeNumber = n
    · simp [merge, hrecord, hn]
    · simp [merge, hrecord]
  rw [filter_congr hfilter]
  refine map_congr_left fun record hmem => ?_
  rw [of_decide_eq_true (mem_filter.1 hmem).2]

theorem lastRecord_imported
    (hn : n ∉ (detected input s records).recordsToReject) :
    lastRecord (imported input s records) n = (lastRecord records n).map fun record =>
      merge record ((detected input s records).fieldRevertsByEmployee n) := by
  rw [lastRecord, filter_imported hn, getLast?_map, lastRecord]

theorem not_rejected_of_touches {unitFails : ℕ → Bool}
    (h : Touches s unitFails (imported input s records) n) :
    n ∉ (detected input s records).recordsToReject := by
  intro hn
  rw [Touches, updateNumbers_buildReport, mem_numbersWith] at h
  obtain ⟨-, p, hp, -, rfl⟩ := h
  have hmem := fst_mem_of_mem_zipIdx hp
  rw [imported, recordsToCommit, mem_map] at hmem
  obtain ⟨record, hmem, hrecord⟩ := hmem
  rw [← hrecord] at hn
  exact of_decide_eq_true (mem_filter.1 hmem).2 hn

end Imported

/-! ## An employee after the import -/

section Employee

variable {validators : Validators} {input : SyncInput} {s : State}
  {records : List BulkImportRecord} {record : BulkImportRecord} {x y : Employee}
  (hpolicies : (input.policies.map (·.fieldName)).Nodup)
  (hhours : x.columns.contractHoursPerWeek < 100000)
  (hrecords : importRecords validators input = some records)
  (hx : findByEmployeeNumber s x.columns.employeeNumber = some x)
  (hlast : lastRecord records x.columns.employeeNumber = some record)
  {unitFails : ℕ → Bool}
  (htouches : Touches s unitFails (imported input s records) x.columns.employeeNumber)

theorem mem_of_lastRecord {n : String} (h : lastRecord records n = some record) :
    record ∈ records ∧ record.employeeNumber = n := by
  obtain ⟨hmem, hn⟩ := mem_filter.1 (mem_of_getLast? h)
  exact ⟨hmem, of_decide_eq_true hn⟩

/-- What an import sets in a field of the employee. -/
def imports (input : SyncInput) (s : State) (records : List BulkImportRecord) (x : Employee)
    (record : BulkImportRecord) (field : DiffField) : field.Column :=
  store field (((detected input s records).fieldRevertsByEmployee x.columns.employeeNumber
    field).getD (recordValue record field))

variable {field : DiffField}

include hpolicies hhours hx htouches in
theorem imports_of_changed (hkept : KeptByPolicy input field.name)
    (hchanged : ChangedIn s input.dryRun.job.unitFails records x field) :
    imports input s records x record field = column x.columns field := by
  have hflag : actionFor input.policies field = some .flagForReview := by
    rcases (keptByPolicy_iff hpolicies).1 hkept with hflag | hreject
    · exact hflag
    · exact absurd ((mem_recordsToReject_iff hx).2 ⟨field, hreject, hchanged⟩)
        (not_rejected_of_touches htouches)
  rw [imports, detected, reverts_of_changed hx hflag hchanged, Option.getD_some,
    store_rowValue hhours]

include hx in
theorem imports_of_not_changed
    (hchanged : ¬ ChangedIn s input.dryRun.job.unitFails records x field) :
    imports input s records x record field = store field (recordValue record field) := by
  rw [imports, detected, reverts_of_not_changed hx fun _ => hchanged, Option.getD_none]

include hpolicies hx in
theorem imports_of_not_kept (hkept : ¬ KeptByPolicy input field.name) :
    imports input s records x record field = store field (recordValue record field) := by
  have hflag : actionFor input.policies field ≠ some .flagForReview := fun hflag =>
    hkept ((keptByPolicy_iff hpolicies).2 (.inl hflag))
  rw [imports, detected, reverts_of_not_changed hx fun h => absurd h hflag, Option.getD_none]

include hpolicies hhours hrecords hx hlast htouches

theorem imports_protected_iff :
    (∀ field : DiffField, Protected input (.compared field) →
      imports input s records x record field = column x.columns field) ↔
      NothingCleared input x ∧ NothingHidden input s records x record := by
  obtain ⟨hmem, hn⟩ := mem_of_lastRecord hlast
  constructor
  · intro h
    refine ⟨⟨fun hunmapped hkept => ?_, fun hunmapped hkept => ?_⟩, fun _ field hkept => ?_⟩
    · rcases value_of_unmapped hrecords hmem hunmapped with
        ⟨-, hnone⟩ | ⟨hfield, -⟩
      · have hsame := h .costCenter (.inl hunmapped)
        rw [imports_of_not_kept hpolicies hx hkept] at hsame
        exact hsame.symm.trans hnone
      · cases hfield
    · rcases value_of_unmapped hrecords hmem hunmapped with
        ⟨hfield, -⟩ | ⟨-, hnone⟩
      · cases hfield
      · have hsame := h .managerEmployeeId (.inl hunmapped)
        rw [imports_of_not_kept hpolicies hx hkept] at hsame
        refine hsame.symm.trans ?_
        rw [recordValue, hnone]
        rfl
    · by_cases hchanged : ChangedIn s input.dryRun.job.unitFails records x field
      · exact .inl hchanged
      · rw [← h field (.inr hkept), imports_of_not_changed hx hchanged]
        exact .inr rfl
  · rintro ⟨⟨hcost, hmanager⟩, hhidden⟩ field hprotected
    by_cases hkept : KeptByPolicy input field.name
    · by_cases hchanged : ChangedIn s input.dryRun.job.unitFails records x field
      · exact imports_of_changed hpolicies hhours hx htouches hkept hchanged
      · rw [imports_of_not_changed hx hchanged]
        by_cases hsame : recordValue record field = rowValue x.columns field
        · rw [hsame, store_rowValue hhours]
        · refine (hhidden ?_ field hkept).resolve_left hchanged
          rintro p hp rfl hrefers
          exact hchanged ⟨p, hp, hn, hrefers, hsame⟩
    · have hunmapped : Unmapped input field.name := hprotected.resolve_right hkept
      rw [imports_of_not_kept hpolicies hx hkept]
      rcases value_of_unmapped hrecords hmem hunmapped with ⟨rfl, hnone⟩ | ⟨rfl, hnone⟩
      · exact hnone.trans (hcost hunmapped hkept).symm
      · rw [recordValue, hnone]
        exact (hmanager hunmapped hkept).symm

end Employee

section Rows

variable {input : SyncInput} {records : List BulkImportRecord} {generated : Set ℕ} {db db' : Db}
  {x y : Employee} {unitFails : ℕ → Bool}
  (h : Commits (buildReport db.tables unitFails (imported input db.tables records)) generated
    (imported input db.tables records) db db')
  (hx : findByEmployeeNumber db.tables x.columns.employeeNumber = some x)
  (hy : findByEmployeeNumber db'.tables x.columns.employeeNumber = some y)

include h hx hy

theorem columns_of_not_touches
    (hleft : ¬ Touches db.tables unitFails (imported input db.tables records)
      x.columns.employeeNumber) :
    y.columns = x.columns := by
  have hrow : db'.rowOf x.columns.employeeNumber = db.rowOf x.columns.employeeNumber := by
    by_cases hconflict : x.columns.employeeNumber ∈
        (buildReport db.tables unitFails (imported input db.tables records)).conflictNumbers
    · exact row_of_conflict h hconflict
    · exact row_of_unchanged h hx fun hupdate => hleft ⟨hconflict, hupdate⟩
  rw [Db.rowOf, Db.rowOf, hx, hy] at hrow
  exact Option.some.inj hrow

theorem columns_of_touches
    (htouches : Touches db.tables unitFails (imported input db.tables records)
      x.columns.employeeNumber) :
    ∃ record, lastRecord records x.columns.employeeNumber = some record ∧
      ∀ field, column y.columns field = imports input db.tables records x record field := by
  have hlast := lastRecord_imported (not_rejected_of_touches htouches)
  obtain ⟨-, record', hmem, hn⟩ := exists_find_of_mem_updateNumbers htouches.2
  have hin : record' ∈ (imported input db.tables records).filter fun record =>
      record.employeeNumber = x.columns.employeeNumber :=
    mem_filter.2 ⟨hmem, decide_eq_true hn⟩
  cases hrecord : lastRecord records x.columns.employeeNumber with
  | none =>
    rw [hrecord, Option.map_none, lastRecord, getLast?_eq_none_iff] at hlast
    rw [hlast] at hin
    cases hin
  | some record =>
    rw [hrecord, Option.map_some] at hlast
    have hrow := row_of_updated h hx htouches.1 htouches.2 hlast
    rw [Db.rowOf, hy] at hrow
    have hcolumns : y.columns = _ := Option.some.inj hrow
    refine ⟨record, rfl, fun field => ?_⟩
    rw [hcolumns, column_columnsOver, recordValue_merge, imports]

end Rows

/-! ## The result -/

/-- A sync that has imported keeps every field of every employee that no mapping sets or a policy
keeps, exactly when of each employee that the import changes the fields without a mapping and a
policy are empty, and the last record was part of the dry run's report, or has nothing else in the
fields that the policies keep. What the import changes depends on the look-ups of its own job. -/
theorem sync_keeps_iff {validators : Validators} {maxEmployees : Option ℕ}
    {destructiveEnabled : Bool} {input : SyncInput} {db : Db} (hsound : db.Sound)
    (hhours : ∀ x ∈ db.tables.employees, x.columns.contractHoursPerWeek < 100000)
    (hpolicies : (input.policies.map (·.fieldName)).Nodup) {result : DiffReport}
    (hjob : (sync validators maxEmployees destructiveEnabled input db).commitJob =
      some (.completed result)) :
    KeepsProtected input db (sync validators maxEmployees destructiveEnabled input db).db ↔
      ∀ records, importRecords validators input = some records →
        Spares input db.tables records := by
  obtain ⟨records, hrecords, himport⟩ := sync_commit hjob
  have h := commits_of_processImport hsound himport
  simp only [hrecords, Option.some.injEq, forall_eq']
  refine forall₂_congr fun x hx => ?_
  have hfind : findByEmployeeNumber db.tables x.columns.employeeNumber = some x :=
    lookup_eq_some hsound.numbers hx
  obtain ⟨y, hy, hid, hdate⟩ := h.find_of_some hfind
  obtain ⟨hymem, hynumber⟩ := mem_of_lookup hy
  have hexists : (∃ y ∈ (sync validators maxEmployees destructiveEnabled input
      db).db.tables.employees, y.id = x.id ∧ ∀ field, Protected input field → SameIn x y field) ↔
      ∀ field : DiffField, Protected input (.compared field) →
        column y.columns field = column x.columns field := by
    constructor
    · rintro ⟨y', hy', hid', hsame⟩ field hprotected
      obtain rfl := eq_of_key_eq (h.sound hsound).ids hy' hymem (hid'.trans hid.symm)
      exact hsame (.compared field) hprotected
    · intro hsame
      refine ⟨y, hymem, hid, fun field hprotected => ?_⟩
      cases field with
      | employeeNumber => exact hynumber
      | hireDate => exact hdate
      | compared field => exact hsame field hprotected
  rw [hexists]
  by_cases htouches : Touches db.tables input.commit.job.unitFails
      (imported input db.tables records) x.columns.employeeNumber
  · obtain ⟨record, hlast, hcolumns⟩ := columns_of_touches h hfind hy htouches
    simp only [hcolumns, hlast, Option.some.injEq, forall_eq', htouches, true_implies]
    exact imports_protected_iff hpolicies (hhours x hx) hrecords hfind hlast htouches
  · refine iff_of_true (fun field _ => ?_) fun _ _ h => absurd h htouches
    rw [columns_of_not_touches h hfind hy htouches]

/-! ## Two syncs -/

/-- One unit with one employee, who has a cost centre. -/
def branch : Db where
  tables :=
    { org := ⟨100, [⟨1, ⟨none, .department, "Support", "UTC", "DE", .active⟩, [1], 0⟩], []⟩
      employees := [⟨7, ⟨1, "E-7", .fullTime, 4000, some "CC-1", none, .active⟩, 0, none, 0⟩]
      history := [⟨7, 0, none, ⟨1, "E-7", .fullTime, 4000, some "CC-1", none, .active⟩⟩] }
  updatedAt := fun _ => 0

def branchValidators : Validators where
  isUUID := fun s => if s = "00000000-0000-4000-8000-000000000001" then some (.ofId 1) else none
  isDateString := fun s => if s = "1970-01-01" then some 0 else none

/-- The employee now works half the hours. -/
def halfTime : Json :=
  .obj [("workerId", .str "E-7"), ("unit", .str "00000000-0000-4000-8000-000000000001"),
    ("type", .str "full_time"), ("fte", .num (1 / 2)), ("hired", .str "1970-01-01")]

/-- The required fields are mapped. Nothing fails. -/
def requiredOnly (policies : List FieldAuthorityPolicy) : SyncInput where
  hasApiBaseUrl := true
  hasBearerToken := true
  fetched := .workers [halfTime]
  mappings :=
    [⟨"workerId", "employeeNumber", .null⟩, ⟨"unit", "orgUnitId", .null⟩,
      ⟨"type", "employmentType", .null⟩,
      ⟨"fte", "contractHoursPerWeek", .obj [("multiply", .num 40)]⟩,
      ⟨"hired", "hireDate", .null⟩]
  policies := policies
  dryRun := ⟨false, false,
    ⟨fun _ => false, false, false, false, false, fun _ => ⟨⟨0, false⟩, ⟨0, false⟩, 8⟩⟩⟩
  commit := ⟨false, false,
    ⟨fun _ => false, false, false, false, false, fun _ => ⟨⟨0, false⟩, ⟨0, false⟩, 8⟩⟩⟩

/-- The cost centre, which no mapping sets, is cleared. -/
theorem requiredOnly_clears :
    ((sync branchValidators none true (requiredOnly []) branch).outcome.map (·.status)) =
      some .completed ∧
    ¬ KeepsProtected (requiredOnly []) branch
      (sync branchValidators none true (requiredOnly []) branch).db := by
  refine ⟨by decide +kernel, fun h => ?_⟩
  have hafter : (sync branchValidators none true (requiredOnly []) branch).db.tables.employees =
      [⟨7, ⟨1, "E-7", .fullTime, 2000, none, none, .active⟩, 0, none, 0⟩] := by decide +kernel
  obtain ⟨y, hy, -, hsame⟩ := h _ mem_cons_self
  rw [hafter, mem_singleton] at hy
  have hunmapped : Unmapped (requiredOnly []) (ImportField.compared .costCenter).name := by
    simp [Unmapped, requiredOnly, ImportField.name, DiffField.name]
  have hcost := hsame (.compared .costCenter) (.inl hunmapped)
  rw [hy] at hcost
  simp [SameIn, column] at hcost

/-- A policy keeps it. -/
def costCenterKept : List FieldAuthorityPolicy := [⟨"costCenter", .agnoWfm, .flagForReview⟩]

theorem costCenterKept_keeps :
    KeepsProtected (requiredOnly costCenterKept) branch
      (sync branchValidators none true (requiredOnly costCenterKept) branch).db := by
  have hsound : branch.Sound := ⟨by decide, by decide, by decide⟩
  have hjob : (sync branchValidators none true (requiredOnly costCenterKept) branch).commitJob =
      some (.completed ⟨[], [("E-7", ⟨none, none, some ⟨40, 20⟩, none, none⟩)], [],
        some ⟨0, 1⟩⟩) := by decide +kernel
  refine (sync_keeps_iff hsound (by decide) (by decide) hjob).2 fun records hrecords => ?_
  have hread : importRecords branchValidators (requiredOnly costCenterKept) =
      some [⟨"E-7", .ofId 1, .fullTime, 20, 0, none, none⟩] := by decide +kernel
  obtain rfl := Option.some.inj (hread.symm.trans hrecords)
  intro x hx record hlast _
  obtain rfl := mem_singleton.1 hx
  obtain rfl := mem_singleton.1 (mem_of_lastRecord hlast).1
  have hkept : KeptByPolicy (requiredOnly costCenterKept) DiffField.costCenter.name :=
    ⟨_, mem_cons_self, rfl, rfl, .inl rfl⟩
  refine ⟨⟨fun _ hnot => absurd hkept hnot, fun _ _ => rfl⟩, fun hrefused => ?_⟩
  exact absurd ⟨rfl, by decide, by simp⟩ (hrefused (_, 0) mem_cons_self rfl)

end Workforce.Integration.WorkdaySync
