import Workforce.Employee.ImportCommits
import Workforce.Foundations.Json
import Workforce.Integration.Backfill

/-!
# Syncs from Workday

`workday.adapter.ts`: the workers that the provider returns are mapped to import records, a dry run
of the bulk import says what they would change, fields of which the tenant's system is the authority
are put back to what they were, or their records left out, and the rest is imported.

`Protected` are the fields that no mapping sets, or that a policy keeps. What is detected of an
employee is said field by field (`mem_recordsToReject_iff`, `reverts_of_changed`).
-/

namespace Workforce.Integration.WorkdaySync

open Tables Doubles Employees BulkImport List Function
open Backfill (SyncJobStatus)

/-! ## Field mappings -/

/-- A mapping; its rule is `null` when it has none. -/
structure FieldMapping where
  sourceField : String
  targetField : String
  transformationRule : Json

/-- `(value as Record<string, unknown>)[key]`, when the value is an object or an array that has it
as its own. -/
def member (key : String) : Json → Option Json
  | .obj fields => fields.lookup key
  | .arr items =>
    if key = "length" then some (.num items.length)
    else ((range items.length).find? fun i => toString i = key).bind fun i => items[i]?
  | _ => none

/-- `getByPath`: the keys of a path are separated by dots. -/
def getByPath (source : Json) (path : String) : Option Json :=
  ((path.toList.splitOn '.').map String.ofList).foldl (fun value key => value.bind (member key))
    (some source)

/-- `valueMap`. -/
def mapValue (map rawValue : Json) : Json :=
  match rawValue with
  | .str s => (member s map).getD rawValue
  | _ => rawValue

/-- `multiply`, of doubles. -/
def multiply (factor : ℚ) (rawValue : Json) : Json :=
  match rawValue with
  | .num q => .num (nearestDouble (q * factor))
  | _ => rawValue

def applyTransform (rawValue transformationRule : Json) : Json :=
  match transformationRule.get "valueMap" with
  | .obj fields => mapValue (.obj fields) rawValue
  | .arr items => mapValue (.arr items) rawValue
  | _ =>
    match transformationRule.get "multiply" with
    | .num factor => multiply factor rawValue
    | _ => rawValue

/-- An object with the fields that have been set. -/
abbrev MappedRecord := List (String × Json)

/-- One pass of the loop of `applyFieldMappings`. -/
def applyFieldMapping (rawRecord : Json) (target : MappedRecord) (mapping : FieldMapping) :
    MappedRecord :=
  match getByPath rawRecord mapping.sourceField with
  | none => target
  | some rawValue =>
    upsert Prod.fst (mapping.targetField, applyTransform rawValue mapping.transformationRule) target

def applyFieldMappings (rawRecord : Json) (mappings : List FieldMapping) : MappedRecord :=
  mappings.foldl (applyFieldMapping rawRecord) []

/-! ## Import records -/

/-- The fields that the report compares. -/
inductive DiffField
  | orgUnitId | employmentType | contractHoursPerWeek | costCenter | managerEmployeeId
  deriving DecidableEq

namespace DiffField

def name : DiffField → String
  | orgUnitId => "orgUnitId"
  | employmentType => "employmentType"
  | contractHoursPerWeek => "contractHoursPerWeek"
  | costCenter => "costCenter"
  | managerEmployeeId => "managerEmployeeId"

/-- The order of `Object.entries` of the changes of a record, which have been stored as `jsonb`:
shorter names come first. -/
def all : List DiffField :=
  [orgUnitId, costCenter, employmentType, managerEmployeeId, contractHoursPerWeek]

/-- What a record has in a field. -/
abbrev Value : DiffField → Type
  | orgUnitId => UuidText
  | employmentType => EmploymentType
  | contractHoursPerWeek => ℚ
  | costCenter => Option String
  | managerEmployeeId => Option UuidText

/-- What a row has in a field. -/
abbrev Column : DiffField → Type
  | orgUnitId => ℕ
  | employmentType => EmploymentType
  | contractHoursPerWeek => ℕ
  | costCenter => Option String
  | managerEmployeeId => Option ℕ

instance : (field : DiffField) → DecidableEq field.Value
  | orgUnitId | employmentType | contractHoursPerWeek | costCenter | managerEmployeeId =>
    inferInstance

instance : (field : DiffField) → DecidableEq field.Column
  | orgUnitId | employmentType | contractHoursPerWeek | costCenter | managerEmployeeId =>
    inferInstance

end DiffField

def requiredBulkImportFields : List String :=
  ["employeeNumber", "orgUnitId", "employmentType", "contractHoursPerWeek", "hireDate"]

/-- The fields of `BulkImportRecordDto`. -/
def bulkImportFields : List String :=
  requiredBulkImportFields ++ ["costCenter", "managerEmployeeId"]

def isCompleteBulkImportRecord (record : MappedRecord) : Bool :=
  requiredBulkImportFields.all fun field =>
    match record.lookup field with
    | none | some .null => false
    | some _ => true

/-- What the endpoint takes for a UUID and for a date. -/
structure Validators where
  isUUID : String → Option UuidText
  isDateString : String → Option ℤ

section Decoding

variable (validators : Validators)

/-- `IsString` and `Length`. -/
def readText (least most : ℕ) : Json → Option String
  | .str s => if least ≤ s.length ∧ s.length ≤ most then some s else none
  | _ => none

def readUuid : Json → Option UuidText
  | .str s => validators.isUUID s
  | _ => none

def readEmploymentType : Json → Option EmploymentType
  | .str "full_time" => some .fullTime
  | .str "part_time" => some .partTime
  | .str "contractor" => some .contractor
  | .str "seasonal" => some .seasonal
  | _ => none

def readHours : Json → Option ℚ
  | .num q => if 0 ≤ q ∧ q ≤ 168 then some q else none
  | _ => none

def readDate : Json → Option ℤ
  | .str s => validators.isDateString s
  | _ => none

/-- `IsOptional`. -/
def readOptional {α : Type} (read : Json → Option α) : Option Json → Option (Option α)
  | none | some .null => some none
  | some value => (read value).map some

/-- The record that the endpoint reads; `none` when it refuses it. Other fields are forbidden. -/
def decodeRecord (record : MappedRecord) : Option BulkImportRecord := do
  guard (record.all fun entry => entry.1 ∈ bulkImportFields)
  let employeeNumber ← (record.lookup "employeeNumber").bind (readText 1 50)
  let orgUnitId ← (record.lookup "orgUnitId").bind (readUuid validators)
  let employmentType ← (record.lookup "employmentType").bind readEmploymentType
  let contractHoursPerWeek ← (record.lookup "contractHoursPerWeek").bind readHours
  let hireDate ← (record.lookup "hireDate").bind (readDate validators)
  let costCenter ← readOptional (readText 0 100) (record.lookup "costCenter")
  let managerEmployeeId ←
    readOptional (readUuid validators) (record.lookup "managerEmployeeId")
  return {
    employeeNumber, orgUnitId, employmentType, contractHoursPerWeek, hireDate, costCenter,
    managerEmployeeId }

end Decoding

/-! ## Fields of records and rows -/

/-- The value of a record in a field. -/
def recordValue (record : BulkImportRecord) : (field : DiffField) → field.Value
  | .orgUnitId => record.orgUnitId
  | .employmentType => record.employmentType
  | .contractHoursPerWeek => record.contractHoursPerWeek
  | .costCenter => record.costCenter
  | .managerEmployeeId => record.managerEmployeeId

/-- The changes of a record, by field. -/
def changesOf (changes : Changes) : (field : DiffField) → Option (FieldChange field.Value)
  | .orgUnitId => changes.orgUnitId
  | .employmentType => changes.employmentType
  | .contractHoursPerWeek => changes.contractHoursPerWeek
  | .costCenter => changes.costCenter
  | .managerEmployeeId => changes.managerEmployeeId

/-- What an employee has in a field. -/
def column (columns : EmployeeColumns) : (field : DiffField) → field.Column
  | .orgUnitId => columns.orgUnitId
  | .employmentType => columns.employmentType
  | .contractHoursPerWeek => columns.contractHoursPerWeek
  | .costCenter => columns.costCenter
  | .managerEmployeeId => columns.managerEmployeeId

/-- Values that records are put back to. A field that is not put back has none. -/
abbrev Reverts := (field : DiffField) → Option field.Value

/-- `{ ...record, ...reverts }`. -/
def merge (record : BulkImportRecord) (reverts : Reverts) : BulkImportRecord where
  employeeNumber := record.employeeNumber
  orgUnitId := (reverts .orgUnitId).getD record.orgUnitId
  employmentType := (reverts .employmentType).getD record.employmentType
  contractHoursPerWeek := (reverts .contractHoursPerWeek).getD record.contractHoursPerWeek
  hireDate := record.hireDate
  costCenter := (reverts .costCenter).getD record.costCenter
  managerEmployeeId := (reverts .managerEmployeeId).getD record.managerEmployeeId

/-! ## Field authority -/

inductive FieldAuthoritySource
  | externalSystem | agnoWfm
  deriving DecidableEq

inductive FieldConflictAction
  | overwrite | flagForReview | rejectSync
  deriving DecidableEq

structure FieldAuthorityPolicy where
  fieldName : String
  authoritativeSource : FieldAuthoritySource
  conflictAction : FieldConflictAction

/-- One entry of `Object.entries(changes)` of an update. -/
structure ChangedField where
  employeeNumber : String
  field : DiffField
  change : FieldChange field.Value

structure FieldConflict where
  changed : ChangedField
  conflictAction : FieldConflictAction

/-- The reverts of an employee that has none are empty. -/
structure ConflictDetectionResult where
  conflicts : List FieldConflict
  recordsToReject : List String
  fieldRevertsByEmployee : String → Reverts

/-- The map of the policies of which the tenant's system is the authority: the last one of a name
counts. -/
def agnoAuthoritativePolicy (policies : List FieldAuthorityPolicy) (fieldName : String) :
    Option FieldAuthorityPolicy :=
  lookup (·.fieldName) fieldName
    (policies.filter fun p => p.authoritativeSource = .agnoWfm).reverse

def changedFields (update : String × Changes) : List ChangedField :=
  DiffField.all.filterMap fun field =>
    (changesOf update.2 field).map fun change => ⟨update.1, field, change⟩

/-- One pass of the inner loop. -/
def noteChange (policies : List FieldAuthorityPolicy) (result : ConflictDetectionResult)
    (changed : ChangedField) : ConflictDetectionResult :=
  match agnoAuthoritativePolicy policies changed.field.name with
  | none => result
  | some policy =>
    let result :=
      { result with conflicts := result.conflicts ++ [⟨changed, policy.conflictAction⟩] }
    match policy.conflictAction with
    | .rejectSync =>
      { result with recordsToReject := result.recordsToReject.insert changed.employeeNumber }
    | .flagForReview =>
      { result with
        fieldRevertsByEmployee :=
          update result.fieldRevertsByEmployee changed.employeeNumber
            (update (result.fieldRevertsByEmployee changed.employeeNumber) changed.field
              (some changed.change.old)) }
    | .overwrite => result

def detectFieldAuthorityConflicts (dryRunResult : DiffReport)
    (policies : List FieldAuthorityPolicy) : ConflictDetectionResult :=
  dryRunResult.updates.foldl
    (fun result update => (changedFields update).foldl (noteChange policies) result)
    ⟨[], [], fun _ _ => none⟩

def recordsToCommit (detected : ConflictDetectionResult) (validRecords : List BulkImportRecord) :
    List BulkImportRecord :=
  (validRecords.filter fun record => record.employeeNumber ∉ detected.recordsToReject).map
    fun record => merge record (detected.fieldRevertsByEmployee record.employeeNumber)

/-! ## The sync -/

/-- What `fetchWorkers` does. -/
inductive Fetched
  | workers (rawWorkers : List Json)
  | rateLimitExhausted
  | throws

/-- What a request to the bulk import meets: whether the request fails, or the polling, and what the
job meets. -/
structure Submission where
  unavailable : Bool
  lost : Bool
  job : JobWeather

/-- What becomes of a request: what the caller gets, `none` when it throws, and the job. -/
structure Submitted where
  answer : Option JobStatus
  job : Option JobStatus
  db : Db

/-- What the connector is configured with, and what the other systems do. -/
structure SyncInput where
  hasApiBaseUrl : Bool
  hasBearerToken : Bool
  fetched : Fetched
  mappings : List FieldMapping
  policies : List FieldAuthorityPolicy
  dryRun : Submission
  commit : Submission

/-- The reason is that of the error details. -/
structure BatchSyncOutcome where
  status : SyncJobStatus
  recordsProcessed : ℕ
  recordsFailed : ℕ
  recordsConflicted : Option ℕ
  reason : Option String

/-- A sync: its outcome, `none` when it throws, the job of the commit, and what is left. -/
structure SyncRun where
  outcome : Option BatchSyncOutcome
  commitJob : Option JobStatus
  db : Db

/-- The endpoint checks the records of a second request as well. -/
def revalidate (record : BulkImportRecord) : Option BulkImportRecord :=
  if 1 ≤ record.employeeNumber.length ∧ record.employeeNumber.length ≤ 50 ∧
      0 ≤ record.contractHoursPerWeek ∧ record.contractHoursPerWeek ≤ 168 ∧
      ∀ costCenter ∈ record.costCenter, costCenter.length ≤ 100 then
    some record
  else none

section Sync

variable (validators : Validators) (maxEmployees : Option ℕ) (destructiveEnabled : Bool)

/-- `submitAndAwait`; the records are `none` when the endpoint refuses them. -/
def submitAndAwait (w : Submission) (dryRun : Bool) (records : Option (List BulkImportRecord))
    (db : Db) : Submitted :=
  if w.unavailable then ⟨none, none, db⟩
  else
    match records with
    | none => ⟨none, none, db⟩
    | some records =>
      let (status, db') := processImport maxEmployees destructiveEnabled w.job records dryRun db
      ⟨if w.lost then none else some status, some status, db'⟩

/-- The part of `sync` after the dry run has reported. -/
def commitReported (input : SyncInput) (validRecords : List BulkImportRecord) (report : DiffReport)
    (incompleteCount : ℕ) (db : Db) : SyncRun :=
  let detected := detectFieldAuthorityConflicts report input.policies
  let toCommit := recordsToCommit detected validRecords
  let recordsFailed := validRecords.length + incompleteCount
  let conflicted := (report.conflictNumbers ++
    detected.conflicts.map (·.changed.employeeNumber)).eraseDups.length
  if toCommit.length = 0 then
    ⟨some ⟨.partialFailure, 0, recordsFailed, some conflicted,
      some "all_records_rejected_by_field_authority_policy"⟩, none, db⟩
  else
    let commit := submitAndAwait maxEmployees destructiveEnabled input.commit false
      (toCommit.mapM revalidate) db
    let outcome :=
      match commit.answer with
      | none => none
      | some .failed =>
        some ⟨.partialFailure, 0, recordsFailed, some conflicted, some "commit_failed"⟩
      | some (.completed result) =>
        let committed := result.committed.getD ⟨0, 0⟩
        let hasAnyIssue :=
          0 < conflicted ∨ 0 < incompleteCount ∨ 0 < detected.recordsToReject.length
        some ⟨if hasAnyIssue then .partialFailure else .completed,
          committed.created + committed.updated,
          detected.recordsToReject.length + incompleteCount, some conflicted,
          if hasAnyIssue then some "partial" else none⟩
    ⟨outcome, commit.job, commit.db⟩

/-- The part of `sync` after the workers have been fetched. -/
def syncWorkers (input : SyncInput) (rawWorkers : List Json) (db : Db) : SyncRun :=
  let transformed := rawWorkers.map fun worker => applyFieldMappings worker input.mappings
  let validRecords := transformed.filter isCompleteBulkImportRecord
  let incompleteCount := transformed.length - validRecords.length
  if validRecords.length = 0 then
    ⟨some ⟨.failed, 0, transformed.length, none, some "no_valid_records"⟩, none, db⟩
  else
    match validRecords.mapM (decodeRecord validators) with
    | none => ⟨none, none, db⟩
    | some records =>
      let dryRun :=
        submitAndAwait maxEmployees destructiveEnabled input.dryRun true (some records) db
      match dryRun.answer with
      | none => ⟨none, none, dryRun.db⟩
      | some .failed =>
        ⟨some ⟨.failed, 0, records.length + incompleteCount, none, some "dry_run_failed"⟩, none,
          dryRun.db⟩
      | some (.completed report) =>
        commitReported maxEmployees destructiveEnabled input records report incompleteCount
          dryRun.db

/-- One run of the sync: each thing that is missing ends it. -/
def sync (input : SyncInput) (db : Db) : SyncRun :=
  if !input.hasApiBaseUrl then ⟨some ⟨.failed, 0, 0, none, some "missing_config"⟩, none, db⟩
  else if !input.hasBearerToken then
    ⟨some ⟨.failed, 0, 0, none, some "missing_credential"⟩, none, db⟩
  else
    match input.fetched with
    | .throws => ⟨none, none, db⟩
    | .rateLimitExhausted =>
      ⟨some ⟨.partialFailure, 0, 0, none, some "rate_limited_reactive_exhausted"⟩, none, db⟩
    | .workers rawWorkers =>
      syncWorkers validators maxEmployees destructiveEnabled input rawWorkers db

end Sync

/-! ## Fields that are kept -/

/-- A field that an import may set. -/
inductive ImportField
  | employeeNumber | hireDate
  | compared (field : DiffField)

def ImportField.name : ImportField → String
  | employeeNumber => "employeeNumber"
  | hireDate => "hireDate"
  | compared field => field.name

/-- No mapping sets the field. -/
def Unmapped (input : SyncInput) (fieldName : String) : Prop :=
  ∀ mapping ∈ input.mappings, mapping.targetField ≠ fieldName

/-- The policy of the field keeps what the tenant's system has. -/
def KeptByPolicy (input : SyncInput) (fieldName : String) : Prop :=
  ∃ policy ∈ input.policies, policy.fieldName = fieldName ∧
    policy.authoritativeSource = .agnoWfm ∧
    (policy.conflictAction = .flagForReview ∨ policy.conflictAction = .rejectSync)

/-- The field is not mapped, or the policy keeps the value that is there. -/
def Protected (input : SyncInput) (field : ImportField) : Prop :=
  Unmapped input field.name ∨ KeptByPolicy input field.name

/-- An employee has what it had in a field. -/
def SameIn (x y : Employee) : ImportField → Prop
  | .employeeNumber => y.columns.employeeNumber = x.columns.employeeNumber
  | .hireDate => y.hireDate = x.hireDate
  | .compared field => column y.columns field = column x.columns field

/-- Every employee that was there has what it had in the protected fields. -/
def KeepsProtected (input : SyncInput) (db db' : Db) : Prop :=
  ∀ x ∈ db.tables.employees, ∃ y ∈ db'.tables.employees, y.id = x.id ∧
    ∀ field, Protected input field → SameIn x y field

/-! ## What is read and stored -/

/-- What the report compares a record with. -/
def rowValue (columns : EmployeeColumns) : (field : DiffField) → field.Value
  | .orgUnitId => .ofId columns.orgUnitId
  | .employmentType => columns.employmentType
  | .contractHoursPerWeek => hoursNumber columns.contractHoursPerWeek
  | .costCenter => columns.costCenter
  | .managerEmployeeId => columns.managerEmployeeId.map .ofId

/-- What an import stores of a value. -/
def store : (field : DiffField) → field.Value → field.Column
  | .orgUnitId, value => value.id
  | .employmentType, value => value
  | .contractHoursPerWeek, value => (toFixed value).toNat
  | .costCenter, value => value
  | .managerEmployeeId, value => value.map (·.id)

section Values

variable {record : BulkImportRecord} {columns : EmployeeColumns}

theorem changesOf_diffEmployeeRecord (field : DiffField) :
    changesOf (diffEmployeeRecord columns record) field =
      changeOf (rowValue columns field) (recordValue record field) := by
  cases field <;> rfl

theorem column_columnsOver (field : DiffField) :
    column (record.columnsOver columns) field = store field (recordValue record field) := by
  cases field <;> rfl

theorem store_rowValue (hhours : columns.contractHoursPerWeek < 100000) (field : DiffField) :
    store field (rowValue columns field) = column columns field := by
  cases field with
  | orgUnitId => rfl
  | employmentType => rfl
  | contractHoursPerWeek =>
    show (toFixed (nearestDouble (columns.contractHoursPerWeek / 100))).toNat = _
    rw [toFixed_nearestDouble hhours]
    rfl
  | costCenter => rfl
  | managerEmployeeId =>
    show (columns.managerEmployeeId.map UuidText.ofId).map (·.id) = _
    rw [Option.map_map]
    exact Option.map_id'

theorem recordValue_merge (reverts : Reverts) (field : DiffField) :
    recordValue (merge record reverts) field =
      (reverts field).getD (recordValue record field) := by
  cases field <;> rfl

end Values

/-! ## Records of a connector -/

section Mapping

variable {mappings : List FieldMapping} {rawRecord : Json} {fieldName : String}

theorem mem_keys_applyFieldMappings {target : MappedRecord}
    (h : fieldName ∈ (mappings.foldl (applyFieldMapping rawRecord) target).map Prod.fst) :
    fieldName ∈ target.map Prod.fst ∨ ∃ mapping ∈ mappings, mapping.targetField = fieldName := by
  induction mappings generalizing target with
  | nil => exact .inl h
  | cons mapping mappings ih =>
    rcases ih h with htarget | ⟨other, hother, hname⟩
    · unfold applyFieldMapping at htarget
      split at htarget
      case h_1 => exact .inl htarget
      case h_2 =>
        rcases mem_keys_upsert.1 htarget with rfl | htarget
        · exact .inr ⟨mapping, mem_cons_self, rfl⟩
        · exact .inl htarget
    · exact .inr ⟨other, mem_cons_of_mem _ hother, hname⟩

/-- A field that no mapping sets is not in a mapped record. -/
theorem lookup_applyFieldMappings
    (h : ∀ mapping ∈ mappings, mapping.targetField ≠ fieldName) :
    (applyFieldMappings rawRecord mappings).lookup fieldName = none := by
  rw [lookup_eq_none_iff]
  rintro ⟨key, value⟩ hmem
  refine bne_iff_ne.2 ?_
  rintro rfl
  rcases mem_keys_applyFieldMappings (mem_map_of_mem (f := Prod.fst) hmem) with hnil | hmapping
  · cases hnil
  · obtain ⟨mapping, hmapping, hname⟩ := hmapping
    exact h mapping hmapping hname

variable {validators : Validators} {mapped : MappedRecord} {record : BulkImportRecord}

theorem decodeRecord_costCenter (h : decodeRecord validators mapped = some record)
    (hnone : mapped.lookup "costCenter" = none) : record.costCenter = none := by
  simp only [decodeRecord, hnone, readOptional, Option.bind_eq_bind, Option.bind_eq_some_iff] at h
  obtain ⟨_, -, _, -, _, -, _, -, _, -, _, -, _, hcost, _, -, h⟩ := h
  cases h
  exact (Option.some.inj hcost).symm

theorem decodeRecord_managerEmployeeId (h : decodeRecord validators mapped = some record)
    (hnone : mapped.lookup "managerEmployeeId" = none) : record.managerEmployeeId = none := by
  simp only [decodeRecord, hnone, readOptional, Option.bind_eq_bind, Option.bind_eq_some_iff] at h
  obtain ⟨_, -, _, -, _, -, _, -, _, -, _, -, _, -, _, hmanager, h⟩ := h
  cases h
  exact (Option.some.inj hmanager).symm

theorem lookup_of_complete (h : isCompleteBulkImportRecord mapped = true)
    (hfield : fieldName ∈ requiredBulkImportFields) : mapped.lookup fieldName ≠ none := by
  intro hnone
  have hfield := all_eq_true.1 h fieldName hfield
  rw [hnone] at hfield
  cases hfield

end Mapping

/-! ## What is detected -/

/-- The action that the policy of a field asks for. -/
def actionFor (policies : List FieldAuthorityPolicy) (field : DiffField) :
    Option FieldConflictAction :=
  (agnoAuthoritativePolicy policies field.name).map (·.conflictAction)

section Detection

variable {policies : List FieldAuthorityPolicy} {changed : List ChangedField}
  {result : ConflictDetectionResult} {n : String} {field : DiffField}

theorem keptByPolicy_iff {input : SyncInput}
    (hpolicies : (input.policies.map (·.fieldName)).Nodup) :
    KeptByPolicy input field.name ↔
      actionFor input.policies field = some .flagForReview ∨
        actionFor input.policies field = some .rejectSync := by
  have hnodup : (((input.policies.filter fun p => p.authoritativeSource = .agnoWfm).reverse).map
      (·.fieldName)).Nodup := by
    rw [map_reverse, nodup_reverse]
    exact hpolicies.sublist (filter_sublist.map _)
  have hfind : ∀ policy, agnoAuthoritativePolicy input.policies field.name = some policy ↔
      policy ∈ input.policies ∧ policy.fieldName = field.name ∧
        policy.authoritativeSource = .agnoWfm := by
    intro policy
    constructor
    · intro h
      obtain ⟨hmem, hname⟩ := mem_of_lookup h
      rw [mem_reverse, mem_filter, decide_eq_true_eq] at hmem
      exact ⟨hmem.1, hname, hmem.2⟩
    · rintro ⟨hmem, hname, hsource⟩
      rw [agnoAuthoritativePolicy, ← hname]
      refine lookup_eq_some hnodup ?_
      rw [mem_reverse, mem_filter, decide_eq_true_eq]
      exact ⟨hmem, hsource⟩
  simp only [KeptByPolicy, actionFor, Option.map_eq_some_iff, hfind]
  constructor
  · rintro ⟨policy, hmem, hname, hsource, haction | haction⟩
    · exact .inl ⟨policy, ⟨hmem, hname, hsource⟩, haction⟩
    · exact .inr ⟨policy, ⟨hmem, hname, hsource⟩, haction⟩
  · rintro (⟨policy, ⟨hmem, hname, hsource⟩, haction⟩ | ⟨policy, ⟨hmem, hname, hsource⟩, haction⟩)
    · exact ⟨policy, hmem, hname, hsource, .inl haction⟩
    · exact ⟨policy, hmem, hname, hsource, .inr haction⟩

variable {c : ChangedField}

theorem mem_recordsToReject_noteChange :
    n ∈ (noteChange policies result c).recordsToReject ↔ n ∈ result.recordsToReject ∨
      c.employeeNumber = n ∧ actionFor policies c.field = some .rejectSync := by
  unfold noteChange actionFor
  cases agnoAuthoritativePolicy policies c.field.name with
  | none => simp
  | some policy =>
    cases haction : policy.conflictAction <;> simp [haction, or_comm, eq_comm]

theorem mem_recordsToReject_foldl :
    n ∈ (changed.foldl (noteChange policies) result).recordsToReject ↔
      n ∈ result.recordsToReject ∨ ∃ c ∈ changed, c.employeeNumber = n ∧
        actionFor policies c.field = some .rejectSync := by
  induction changed generalizing result with
  | nil => simp
  | cons c changed ih =>
    rw [foldl_cons, ih, mem_recordsToReject_noteChange, exists_mem_cons_iff, or_assoc]

theorem reverts_noteChange :
    (noteChange policies result c).fieldRevertsByEmployee =
      if actionFor policies c.field = some .flagForReview then
        update result.fieldRevertsByEmployee c.employeeNumber
          (update (result.fieldRevertsByEmployee c.employeeNumber) c.field (some c.change.old))
      else result.fieldRevertsByEmployee := by
  unfold noteChange actionFor
  cases agnoAuthoritativePolicy policies c.field.name with
  | none => simp
  | some policy =>
    cases haction : policy.conflictAction <;> simp [haction]

theorem reverts_noteChange_self {change : FieldChange field.Value}
    (hflag : actionFor policies field = some .flagForReview) :
    (noteChange policies result ⟨n, field, change⟩).fieldRevertsByEmployee n field =
      some change.old := by
  rw [reverts_noteChange, if_pos hflag, update_self, update_self]

theorem reverts_noteChange_of_ne (h : c.employeeNumber ≠ n ∨ c.field ≠ field ∨
      actionFor policies field ≠ some .flagForReview) :
    (noteChange policies result c).fieldRevertsByEmployee n field =
      result.fieldRevertsByEmployee n field := by
  rw [reverts_noteChange]
  split
  case isFalse => rfl
  case isTrue hflag =>
    by_cases hn : n = c.employeeNumber
    · have hfield : field ≠ c.field := by
        rintro rfl
        rcases h with h | h | h
        · exact h hn.symm
        · exact h rfl
        · exact h hflag
      rw [hn, update_self, update_of_ne hfield]
    · rw [update_of_ne hn]

theorem eq_mk_or_ne (c : ChangedField) (n : String) (field : DiffField) :
    (∃ change, c = ⟨n, field, change⟩) ∨ c.employeeNumber ≠ n ∨ c.field ≠ field := by
  obtain ⟨n', field', change⟩ := c
  by_cases hn : n' = n
  · by_cases hfield : field' = field
    · subst hn hfield
      exact .inl ⟨change, rfl⟩
    · exact .inr (.inr hfield)
  · exact .inr (.inl hn)

section Old

variable {old : field.Value}
  (hold : ∀ change, ⟨n, field, change⟩ ∈ changed → change.old = old)

include hold

theorem reverts_foldl_stays (h : result.fieldRevertsByEmployee n field = some old) :
    (changed.foldl (noteChange policies) result).fieldRevertsByEmployee n field = some old := by
  induction changed generalizing result with
  | nil => exact h
  | cons c changed ih =>
    refine ih (fun change hmem => hold change (mem_cons_of_mem _ hmem)) ?_
    by_cases hflag : actionFor policies field = some .flagForReview
    · rcases eq_mk_or_ne c n field with ⟨change, rfl⟩ | hne
      · rw [reverts_noteChange_self hflag, hold change mem_cons_self]
      · rw [reverts_noteChange_of_ne (hne.imp_right .inl), h]
    · rw [reverts_noteChange_of_ne (.inr (.inr hflag)), h]

/-- A field is put back when a change of it is flagged, to the value before the import. -/
theorem reverts_foldl_of_mem (hflag : actionFor policies field = some .flagForReview)
    {change : FieldChange field.Value} (hmem : ⟨n, field, change⟩ ∈ changed) :
    (changed.foldl (noteChange policies) result).fieldRevertsByEmployee n field = some old := by
  induction changed generalizing result with
  | nil => cases hmem
  | cons c changed ih =>
    have hold' : ∀ change, ⟨n, field, change⟩ ∈ changed → change.old = old :=
      fun change hmem => hold change (mem_cons_of_mem _ hmem)
    rw [foldl_cons]
    rcases mem_cons.1 hmem with rfl | hmem
    · refine reverts_foldl_stays hold' ?_
      rw [reverts_noteChange_self hflag, hold change mem_cons_self]
    · exact ih hold' hmem

end Old

theorem reverts_foldl_of_forall_notMem
    (h : actionFor policies field = some .flagForReview →
      ∀ change, (⟨n, field, change⟩ : ChangedField) ∉ changed) :
    (changed.foldl (noteChange policies) result).fieldRevertsByEmployee n field =
      result.fieldRevertsByEmployee n field := by
  induction changed generalizing result with
  | nil => rfl
  | cons c changed ih =>
    rw [foldl_cons,
      ih fun hflag change hmem => h hflag change (mem_cons_of_mem _ hmem)]
    by_cases hflag : actionFor policies field = some .flagForReview
    · rcases eq_mk_or_ne c n field with ⟨change, rfl⟩ | hne
      · exact absurd mem_cons_self (h hflag change)
      · exact reverts_noteChange_of_ne (hne.imp_right .inl)
    · exact reverts_noteChange_of_ne (.inr (.inr hflag))

end Detection

/-! ## What is detected of an employee -/

/-- A record of the employee that the report does not refuse has another value. -/
def ChangedIn (s : State) (unitFails : ℕ → Bool) (records : List BulkImportRecord) (x : Employee)
    (field : DiffField) : Prop :=
  ∃ p ∈ records.zipIdx, p.1.employeeNumber = x.columns.employeeNumber ∧
    Refers s (unitFails p.2) p.1 ∧ recordValue p.1 field ≠ rowValue x.columns field

section Employee

variable {policies : List FieldAuthorityPolicy} {s : State} {unitFails : ℕ → Bool}
  {records : List BulkImportRecord} {x : Employee} {field : DiffField}

theorem diff_isEmpty_iff {columns : EmployeeColumns} {record : BulkImportRecord} :
    (diffEmployeeRecord columns record).isEmpty ↔
      ∀ field, recordValue record field = rowValue columns field := by
  rw [diffEmployeeRecord_isEmpty]
  constructor
  · rintro ⟨hunit, htype, hhours, hcost, hmanager⟩ field
    cases field with
    | orgUnitId => exact hunit.symm
    | employmentType => exact htype.symm
    | contractHoursPerWeek => exact hhours.symm
    | costCenter => exact hcost.symm
    | managerEmployeeId => exact hmanager.symm
  · intro h
    exact ⟨(h .orgUnitId).symm, (h .employmentType).symm, (h .contractHoursPerWeek).symm,
      (h .costCenter).symm, (h .managerEmployeeId).symm⟩

theorem mem_all (field : DiffField) : field ∈ DiffField.all := by
  cases field <;> simp [DiffField.all]

theorem mem_changedFields {update : String × Changes} {n : String}
    {change : FieldChange field.Value} :
    ⟨n, field, change⟩ ∈ changedFields update ↔
      update.1 = n ∧ changesOf update.2 field = some change := by
  simp only [changedFields, mem_filterMap, Option.map_eq_some_iff]
  constructor
  · rintro ⟨field', -, change', hchange, heq⟩
    cases heq
    exact ⟨rfl, hchange⟩
  · rintro ⟨rfl, hchange⟩
    exact ⟨field, mem_all field, change, hchange, rfl⟩

variable (hx : findByEmployeeNumber s x.columns.employeeNumber = some x)

include hx

theorem mem_changed_iff {change : FieldChange field.Value} :
    ⟨x.columns.employeeNumber, field, change⟩ ∈
      (buildReport s unitFails records).updates.flatMap changedFields ↔
    ∃ p ∈ records.zipIdx, p.1.employeeNumber = x.columns.employeeNumber ∧
      Refers s (unitFails p.2) p.1 ∧ recordValue p.1 field ≠ rowValue x.columns field ∧
      change = ⟨rowValue x.columns field, recordValue p.1 field⟩ := by
  simp only [mem_flatMap, mem_changedFields, mem_updates_buildReport, entryOf_eq_update]
  constructor
  · rintro ⟨⟨n, changes⟩, ⟨p, hmem, hn, hrefers, old, hold, rfl, -⟩, rfl, hchange⟩
    have hrecord : p.1.employeeNumber = x.columns.employeeNumber := hn
    rw [hrecord, hx] at hold
    cases hold
    rw [changesOf_diffEmployeeRecord, changeOf] at hchange
    split at hchange
    case isTrue hne =>
      exact ⟨p, hmem, hrecord, hrefers, hne.symm, (Option.some.inj hchange).symm⟩
    case isFalse => cases hchange
  · rintro ⟨p, hmem, hn, hrefers, hne, rfl⟩
    refine ⟨(x.columns.employeeNumber, diffEmployeeRecord x.columns p.1),
      ⟨p, hmem, hn, hrefers, x, hn ▸ hx, rfl, fun hempty => hne ?_⟩, rfl, ?_⟩
    · exact diff_isEmpty_iff.1 hempty field
    · rw [changesOf_diffEmployeeRecord, changeOf, if_pos hne.symm]

theorem exists_mem_changed_iff :
    (∃ change, ⟨x.columns.employeeNumber, field, change⟩ ∈
      (buildReport s unitFails records).updates.flatMap changedFields) ↔
      ChangedIn s unitFails records x field := by
  simp only [mem_changed_iff hx, ChangedIn]
  constructor
  · rintro ⟨_, p, hmem, hn, hrefers, hne, rfl⟩
    exact ⟨p, hmem, hn, hrefers, hne⟩
  · rintro ⟨p, hmem, hn, hrefers, hne⟩
    exact ⟨_, p, hmem, hn, hrefers, hne, rfl⟩

theorem mem_recordsToReject_iff :
    x.columns.employeeNumber ∈
      (detectFieldAuthorityConflicts (buildReport s unitFails records) policies).recordsToReject ↔
    ∃ field, actionFor policies field = some .rejectSync ∧
      ChangedIn s unitFails records x field := by
  rw [detectFieldAuthorityConflicts, ← foldl_flatMap, mem_recordsToReject_foldl]
  simp only [← exists_mem_changed_iff hx, not_mem_nil, false_or]
  constructor
  · rintro ⟨⟨n, field, change⟩, hmem, rfl, hreject⟩
    exact ⟨field, hreject, change, hmem⟩
  · rintro ⟨field, hreject, change, hmem⟩
    exact ⟨_, hmem, rfl, hreject⟩

theorem reverts_of_changed (hflag : actionFor policies field = some .flagForReview)
    (hchanged : ChangedIn s unitFails records x field) :
    (detectFieldAuthorityConflicts (buildReport s unitFails records)
      policies).fieldRevertsByEmployee x.columns.employeeNumber field =
      some (rowValue x.columns field) := by
  obtain ⟨change, hmem⟩ := (exists_mem_changed_iff hx).2 hchanged
  rw [detectFieldAuthorityConflicts, ← foldl_flatMap]
  refine reverts_foldl_of_mem (fun change hmem => ?_) hflag hmem
  obtain ⟨_, -, -, -, -, rfl⟩ := (mem_changed_iff hx).1 hmem
  rfl

theorem reverts_of_not_changed
    (h : actionFor policies field = some .flagForReview → ¬ ChangedIn s unitFails records x field) :
    (detectFieldAuthorityConflicts (buildReport s unitFails records)
      policies).fieldRevertsByEmployee x.columns.employeeNumber field = none := by
  rw [detectFieldAuthorityConflicts, ← foldl_flatMap]
  refine reverts_foldl_of_forall_notMem fun hflag change hmem => h hflag ?_
  exact (exists_mem_changed_iff hx).1 ⟨change, hmem⟩

end Employee

end Workforce.Integration.WorkdaySync
