import Workforce.Employee.History
import Workforce.Foundations.Doubles

/-!
# Bulk import of employees

`bulk-import.service.ts` and `bulk-import-diff.ts`: a report says which records create an employee,
which change one, and which conflict. A commit then goes through the records once more, and creates
or changes employees in transactions of their own.

A commit leaves out the numbers that have a conflict, and existing employees that no record changes.
What is left goes record by record: of the transactions for a record, the first one throws, and
nothing is done, or a row is written (`commitRecord_of_applies`).
-/

namespace Workforce.Employees.BulkImport

open Runs Tables Doubles List Function

/-! ## Records -/

/-- A UUID as a text. The database writes it in lower case (0); other numbers stand for the other
ways to write the letters. -/
structure UuidText where
  id : ℕ
  letterCase : ℕ
  deriving DecidableEq

/-- The text that the database writes. -/
def UuidText.ofId (id : ℕ) : UuidText := ⟨id, 0⟩

/-- The hours are the double that the request gives. -/
structure BulkImportRecord where
  employeeNumber : String
  orgUnitId : UuidText
  employmentType : EmploymentType
  contractHoursPerWeek : ℚ
  hireDate : ℤ
  costCenter : Option String
  managerEmployeeId : Option UuidText
  deriving DecidableEq

namespace BulkImportRecord

variable (record : BulkImportRecord)

/-- The hours as they are stored, `toFixed(2)`. -/
def storedHours : ℕ := (toFixed record.contractHoursPerWeek).toNat

/-- What `commit` calls `create` with. -/
def createInput : CreateEmployeeInput where
  orgUnitId := record.orgUnitId.id
  employeeNumber := record.employeeNumber
  employmentType := record.employmentType
  contractHoursPerWeek := record.storedHours
  hireDate := record.hireDate
  costCenter := record.costCenter
  managerEmployeeId := record.managerEmployeeId.map (·.id)

/-- What it calls `transfer` with. -/
def transferInput : TransferInput where
  newOrgUnitId := record.orgUnitId.id
  newManagerEmployeeId := some (record.managerEmployeeId.map (·.id))
  effectiveDate := none

/-- What it calls `update` with. -/
def updateInput : UpdateEmployeeInput where
  employmentType := some record.employmentType
  contractHoursPerWeek := some record.storedHours
  costCenter := some record.costCenter
  status := none
  terminationDate := none
  effectiveDate := none

end BulkImportRecord

/-! ## The report -/

structure FieldChange (α : Type*) where
  old : α
  new : α
  deriving DecidableEq

/-- The changes of a record, by field. -/
structure Changes where
  orgUnitId : Option (FieldChange UuidText)
  employmentType : Option (FieldChange EmploymentType)
  contractHoursPerWeek : Option (FieldChange ℚ)
  costCenter : Option (FieldChange (Option String))
  managerEmployeeId : Option (FieldChange (Option UuidText))
  deriving DecidableEq

/-- `Object.keys(changes).length === 0`. -/
def Changes.isEmpty (changes : Changes) : Bool :=
  changes.orgUnitId.isNone && changes.employmentType.isNone &&
    changes.contractHoursPerWeek.isNone && changes.costCenter.isNone &&
    changes.managerEmployeeId.isNone

def changeOf {α : Type*} [DecidableEq α] (old new : α) : Option (FieldChange α) :=
  if old ≠ new then some ⟨old, new⟩ else none

/-- `Number(existing.contractHoursPerWeek)`. -/
def hoursNumber (hundredths : ℕ) : ℚ := nearestDouble (hundredths / 100)

def diffEmployeeRecord (existing : EmployeeColumns) (record : BulkImportRecord) : Changes where
  orgUnitId := changeOf (.ofId existing.orgUnitId) record.orgUnitId
  employmentType := changeOf existing.employmentType record.employmentType
  contractHoursPerWeek :=
    changeOf (hoursNumber existing.contractHoursPerWeek) record.contractHoursPerWeek
  costCenter := changeOf existing.costCenter record.costCenter
  managerEmployeeId :=
    changeOf (existing.managerEmployeeId.map .ofId) record.managerEmployeeId

inductive ConflictReason
  | orgUnitNotFound (orgUnitId : UuidText)
  | managerNotFound (managerEmployeeId : UuidText)
  deriving DecidableEq

/-- What a report says of a record. -/
inductive Entry
  | conflict (reason : ConflictReason)
  | create
  | update (changes : Changes)
  | unchanged

structure Committed where
  created : ℕ
  updated : ℕ
  deriving DecidableEq

structure DiffReport where
  creates : List String
  updates : List (String × Changes)
  conflicts : List (String × ConflictReason)
  committed : Option Committed
  deriving DecidableEq

def DiffReport.conflictNumbers (report : DiffReport) : List String :=
  report.conflicts.map Prod.fst

def DiffReport.updateNumbers (report : DiffReport) : List String :=
  report.updates.map Prod.fst

/-- `findByEmployeeNumber`. -/
def findByEmployeeNumber (s : State) (employeeNumber : String) : Option Employee :=
  lookup (·.columns.employeeNumber) employeeNumber s.employees

/-- One pass of the loop of `buildReport`. When the look-up of the org unit fails, the error is
caught, as if there were none. -/
def entryOf (s : State) (unitFails : Bool) (record : BulkImportRecord) : Entry :=
  if unitFails || (s.org.findById record.orgUnitId.id).isNone then
    .conflict (.orgUnitNotFound record.orgUnitId)
  else
    match record.managerEmployeeId.filter fun m => (s.findById m.id).isNone with
    | some managerEmployeeId => .conflict (.managerNotFound managerEmployeeId)
    | none =>
      match findByEmployeeNumber s record.employeeNumber with
      | none => .create
      | some existing =>
        let changes := diffEmployeeRecord existing.columns record
        if changes.isEmpty then .unchanged else .update changes

/-- What the pass pushes. -/
def DiffReport.push (report : DiffReport) (employeeNumber : String) : Entry → DiffReport
  | .conflict reason => { report with conflicts := report.conflicts ++ [(employeeNumber, reason)] }
  | .create => { report with creates := report.creates ++ [employeeNumber] }
  | .update changes => { report with updates := report.updates ++ [(employeeNumber, changes)] }
  | .unchanged => report

/-- The look-ups of org units that fail are given by the index of the record. -/
def buildReport (s : State) (unitFails : ℕ → Bool) (records : List BulkImportRecord) : DiffReport :=
  records.zipIdx.foldl
    (fun report p => report.push p.1.employeeNumber (entryOf s (unitFails p.2) p.1))
    ⟨[], [], [], none⟩

/-! ## The commit -/

/-- The tables, with the `updated_at` of the employees, which each statement on a row sets. -/
structure Db where
  tables : State
  updatedAt : ℕ → ℤ

inductive ImportError
  | service (error : EmployeeError)
  /-- A query, a statement or a transaction that fails for reasons outside the tables. -/
  | unavailable

/-- What a transaction meets: how much time has passed since the one before, apart from one unit,
and whether the database fails. -/
structure Weather where
  elapsed : ℕ
  fails : Bool

/-- What the commit meets at a record: up to two transactions, and the id for a new employee. -/
structure RecordWeather where
  first : Weather
  second : Weather
  newId : ℕ

/-- The tables when some time has passed. -/
def later (elapsed : ℕ) (s : State) : State :=
  { s with org := { s.org with clock := s.org.clock + elapsed + 1 } }

/-- A call of the service on an employee, which is a transaction. -/
def transact (w : Weather) (id : ℕ) (call : State → Except EmployeeError State) (db : Db) :
    Except ImportError Db :=
  if w.fails then .error .unavailable
  else
    match call (later w.elapsed db.tables) with
    | .error e => .error (.service e)
    | .ok tables => .ok ⟨tables, update db.updatedAt id tables.org.clock⟩

section Commit

variable (maxEmployees : Option ℕ) (report : DiffReport)

/-- One pass of the loop of `commit`. What it has done stays when it throws. -/
def commitRecord (w : RecordWeather) (record : BulkImportRecord) (counts : Committed) (db : Db) :
    Except ImportError Committed × Db :=
  if record.employeeNumber ∈ report.conflictNumbers then (.ok counts, db)
  else
    match findByEmployeeNumber db.tables record.employeeNumber with
    | some existing =>
      if record.employeeNumber ∉ report.updateNumbers then (.ok counts, db)
      else
        let transferred :=
          if .ofId existing.columns.orgUnitId ≠ record.orgUnitId ∨
              existing.columns.managerEmployeeId.map .ofId ≠ record.managerEmployeeId then
            transact w.first existing.id (·.transfer existing.id record.transferInput) db
          else .ok db
        match transferred with
        | .error e => (.error e, db)
        | .ok db' =>
          match transact w.second existing.id (·.update existing.id record.updateInput) db' with
          | .error e => (.error e, db')
          | .ok db'' => (.ok { counts with updated := counts.updated + 1 }, db'')
    | none =>
      match transact w.first w.newId (·.create maxEmployees w.newId record.createInput) db with
      | .error e => (.error e, db)
      | .ok db' => (.ok { counts with created := counts.created + 1 }, db')

/-- The loop of `commit`, from the record with the given index on. -/
def commitFrom (weather : ℕ → RecordWeather) :
    ℕ → List BulkImportRecord → Committed → Db → Except ImportError Committed × Db
  | _, [], counts, db => (.ok counts, db)
  | i, record :: records, counts, db =>
    match commitRecord maxEmployees report (weather i) record counts db with
    | (.error e, db') => (.error e, db')
    | (.ok counts', db') => commitFrom weather (i + 1) records counts' db'

end Commit

/-! ## The job -/

inductive JobStatus
  | completed (report : DiffReport)
  | failed
  deriving DecidableEq

/-- What a job meets: which look-ups of org units fail, whether the other queries of the report,
those of the flag, and what follows the commit go through, and what the commit meets. -/
structure JobWeather where
  unitFails : ℕ → Bool
  reportFails : Bool
  flagFails : Bool
  completionFails : Bool
  auditFails : Bool
  commit : ℕ → RecordWeather

/-- `processImport`: how the job ends, and the tables that it leaves. -/
def processImport (maxEmployees : Option ℕ) (destructiveEnabled : Bool) (w : JobWeather)
    (records : List BulkImportRecord) (dryRun : Bool) (db : Db) : JobStatus × Db :=
  if w.reportFails then (.failed, db)
  else
    let report := buildReport db.tables w.unitFails records
    if dryRun then
      if w.completionFails then (.failed, db) else (.completed report, db)
    else if w.flagFails || !destructiveEnabled then (.failed, db)
    else
      match commitFrom maxEmployees report w.commit 0 records ⟨0, 0⟩ db with
      | (.error _, db') => (.failed, db')
      | (.ok committed, db') =>
        if w.completionFails || w.auditFails then (.failed, db')
        else (.completed { report with committed := some committed }, db')

/-! ## The report and the records -/

section Report

variable {s : State} {fails : Bool} {unitFails : ℕ → Bool} {record : BulkImportRecord}
  {records : List BulkImportRecord}

theorem changeOf_isNone {α : Type*} [DecidableEq α] {old new : α} :
    (changeOf old new).isNone ↔ old = new := by
  unfold changeOf
  split <;> simp_all

/-- A record changes nothing when it gives what the row has, in the spelling of the database. -/
theorem diffEmployeeRecord_isEmpty {columns : EmployeeColumns} :
    (diffEmployeeRecord columns record).isEmpty ↔
      .ofId columns.orgUnitId = record.orgUnitId ∧
      columns.employmentType = record.employmentType ∧
      hoursNumber columns.contractHoursPerWeek = record.contractHoursPerWeek ∧
      columns.costCenter = record.costCenter ∧
      columns.managerEmployeeId.map .ofId = record.managerEmployeeId := by
  simp only [Changes.isEmpty, diffEmployeeRecord, Bool.and_eq_true, changeOf_isNone, and_assoc]

namespace Entry

def isCreate : Entry → Bool
  | .create => true
  | _ => false

def isUpdate : Entry → Bool
  | .update _ => true
  | _ => false

def isConflict : Entry → Bool
  | .conflict _ => true
  | _ => false

end Entry

/-- The employee numbers of the records that have a kind of entry. -/
def numbersWith (kind : Entry → Bool) (s : State) (unitFails : ℕ → Bool)
    (pairs : List (BulkImportRecord × ℕ)) : List String :=
  (pairs.filter fun p => kind (entryOf s (unitFails p.2) p.1)).map (·.1.employeeNumber)

section Pairs

variable {pairs : List (BulkImportRecord × ℕ)} {report : DiffReport}

theorem mem_numbersWith {kind : Entry → Bool} {n : String} :
    n ∈ numbersWith kind s unitFails pairs ↔ ∃ p ∈ pairs,
      kind (entryOf s (unitFails p.2) p.1) = true ∧ p.1.employeeNumber = n := by
  simp only [numbersWith, mem_map, mem_filter, and_assoc]

theorem foldl_push :
    let final := pairs.foldl
      (fun report p => report.push p.1.employeeNumber (entryOf s (unitFails p.2) p.1)) report
    final.creates = report.creates ++ numbersWith Entry.isCreate s unitFails pairs ∧
      final.updateNumbers =
        report.updateNumbers ++ numbersWith Entry.isUpdate s unitFails pairs ∧
      final.conflictNumbers =
        report.conflictNumbers ++ numbersWith Entry.isConflict s unitFails pairs := by
  induction pairs generalizing report with
  | nil => simp [numbersWith]
  | cons p pairs ih =>
    obtain ⟨hcreates, hupdates, hconflicts⟩ :=
      @ih (report.push p.1.employeeNumber (entryOf s (unitFails p.2) p.1))
    simp only [foldl_cons, hcreates, hupdates, hconflicts]
    cases hentry : entryOf s (unitFails p.2) p.1 <;>
      simp [DiffReport.push, DiffReport.updateNumbers, DiffReport.conflictNumbers, numbersWith,
        Entry.isCreate, Entry.isUpdate, Entry.isConflict, hentry]

theorem mem_updates_foldl_push {update : String × Changes} :
    update ∈ (pairs.foldl (fun report p =>
      report.push p.1.employeeNumber (entryOf s (unitFails p.2) p.1)) report).updates ↔
      update ∈ report.updates ∨ ∃ p ∈ pairs, p.1.employeeNumber = update.1 ∧
        entryOf s (unitFails p.2) p.1 = .update update.2 := by
  induction pairs generalizing report with
  | nil => simp
  | cons p pairs ih =>
    rw [foldl_cons, ih, exists_mem_cons_iff, ← or_assoc]
    refine or_congr_left ?_
    obtain ⟨n, changes⟩ := update
    cases hentry : entryOf s (unitFails p.2) p.1 <;> simp [DiffReport.push, eq_comm]

end Pairs

theorem creates_buildReport : (buildReport s unitFails records).creates =
    numbersWith Entry.isCreate s unitFails records.zipIdx :=
  foldl_push.1

theorem updateNumbers_buildReport : (buildReport s unitFails records).updateNumbers =
    numbersWith Entry.isUpdate s unitFails records.zipIdx :=
  foldl_push.2.1

theorem conflictNumbers_buildReport : (buildReport s unitFails records).conflictNumbers =
    numbersWith Entry.isConflict s unitFails records.zipIdx :=
  foldl_push.2.2

theorem mem_updates_buildReport {update : String × Changes} :
    update ∈ (buildReport s unitFails records).updates ↔ ∃ p ∈ records.zipIdx,
      p.1.employeeNumber = update.1 ∧ entryOf s (unitFails p.2) p.1 = .update update.2 := by
  rw [buildReport, mem_updates_foldl_push]
  simp

/-- The org unit of a record is looked up, and it is there, as is the manager. -/
def Refers (s : State) (unitFails : Bool) (record : BulkImportRecord) : Prop :=
  unitFails = false ∧ (s.org.findById record.orgUnitId.id).isSome ∧
    ∀ m, record.managerEmployeeId = some m → (s.findById m.id).isSome

theorem Refers.lookedUp (h : Refers s fails record) : Refers s false record :=
  ⟨rfl, h.2⟩

theorem entryOf_of_refers (h : Refers s fails record) :
    entryOf s fails record =
      match findByEmployeeNumber s record.employeeNumber with
      | none => .create
      | some existing =>
        if (diffEmployeeRecord existing.columns record).isEmpty then .unchanged
        else .update (diffEmployeeRecord existing.columns record) := by
  have hmanager : record.managerEmployeeId.filter (fun m => (s.findById m.id).isNone) = none := by
    rw [Option.filter_eq_none_iff]
    intro m hm
    simp [Option.isSome_iff_ne_none.1 (h.2.2 m hm)]
  have hunit : (s.org.findById record.orgUnitId.id).isNone = false := by
    simpa [Option.isSome_iff_ne_none] using h.2.1
  simp only [entryOf, h.1, hunit, Bool.or_self, Bool.false_eq_true, if_false, hmanager]

theorem isConflict_entryOf :
    (entryOf s fails record).isConflict = true ↔ ¬ Refers s fails record := by
  constructor
  · intro h hrefers
    rw [entryOf_of_refers hrefers] at h
    split at h
    · cases h
    · split at h <;> cases h
  · intro h
    unfold entryOf
    split
    case isTrue => rfl
    case isFalse hunit =>
      split
      case h_1 => rfl
      case h_2 hmanager =>
        rw [Bool.or_eq_true, not_or, Bool.not_eq_true] at hunit
        refine absurd ⟨hunit.1, by simpa [Option.isSome_iff_ne_none] using hunit.2, ?_⟩ h
        intro m hm
        rw [hm] at hmanager
        simpa [Option.isSome_iff_ne_none] using hmanager

theorem isCreate_entryOf : (entryOf s fails record).isCreate = true ↔
    Refers s fails record ∧ findByEmployeeNumber s record.employeeNumber = none := by
  by_cases h : Refers s fails record
  · rw [entryOf_of_refers h]
    cases findByEmployeeNumber s record.employeeNumber with
    | none => simp [h, Entry.isCreate]
    | some existing =>
      simp only [h, true_and, reduceCtorEq, iff_false]
      split <;> simp [Entry.isCreate]
  · have hconflict := isConflict_entryOf.2 h
    cases hentry : entryOf s fails record <;> simp_all [Entry.isConflict, Entry.isCreate]

theorem entryOf_eq_update {changes : Changes} : entryOf s fails record = .update changes ↔
    Refers s fails record ∧ ∃ existing,
      findByEmployeeNumber s record.employeeNumber = some existing ∧
      changes = diffEmployeeRecord existing.columns record ∧
      ¬ (diffEmployeeRecord existing.columns record).isEmpty = true := by
  by_cases h : Refers s fails record
  · rw [entryOf_of_refers h]
    cases findByEmployeeNumber s record.employeeNumber with
    | none => simp
    | some existing =>
      by_cases hempty : (diffEmployeeRecord existing.columns record).isEmpty = true
      · simp [hempty]
      · simp only [h, hempty, Bool.false_eq_true, if_false, Entry.update.injEq, Option.some.injEq,
          exists_eq_left', not_false_eq_true, and_true, true_and]
        exact eq_comm
  · have hconflict := isConflict_entryOf.2 h
    cases hentry : entryOf s fails record <;> simp_all [Entry.isConflict]

theorem isUpdate_entryOf : (entryOf s fails record).isUpdate = true ↔
    Refers s fails record ∧ ∃ existing,
      findByEmployeeNumber s record.employeeNumber = some existing ∧
      ¬ (diffEmployeeRecord existing.columns record).isEmpty = true := by
  have hsome : (entryOf s fails record).isUpdate = true ↔
      ∃ changes, entryOf s fails record = .update changes := by
    cases entryOf s fails record <;> simp [Entry.isUpdate]
  simp only [hsome, entryOf_eq_update]
  constructor
  · rintro ⟨_, hrefers, existing, hfind, -, hdiff⟩
    exact ⟨hrefers, existing, hfind, hdiff⟩
  · rintro ⟨hrefers, existing, hfind, hdiff⟩
    exact ⟨_, hrefers, existing, hfind, rfl, hdiff⟩

end Report

/-! ## What a transaction does -/

/-- The columns of an employee when a record has been applied. -/
def BulkImportRecord.columnsOver (record : BulkImportRecord) (columns : EmployeeColumns) :
    EmployeeColumns :=
  { columns with
    orgUnitId := record.orgUnitId.id
    employmentType := record.employmentType
    contractHoursPerWeek := record.storedHours
    costCenter := record.costCenter
    managerEmployeeId := record.managerEmployeeId.map (·.id) }

/-- The columns of an employee that a record creates. -/
def BulkImportRecord.newColumns (record : BulkImportRecord) : EmployeeColumns where
  orgUnitId := record.orgUnitId.id
  employeeNumber := record.employeeNumber
  employmentType := record.employmentType
  contractHoursPerWeek := record.storedHours
  costCenter := record.costCenter
  managerEmployeeId := record.managerEmployeeId.map (·.id)
  status := .pendingOnboarding

/-- The employees have distinct ids and numbers, and were written before now. -/
structure Db.Sound (db : Db) : Prop where
  ids : (db.tables.employees.map (·.id)).Nodup
  numbers : (db.tables.employees.map (·.columns.employeeNumber)).Nodup
  stamps : ∀ x ∈ db.tables.employees, db.updatedAt x.id ≤ db.tables.org.clock

/-- A transaction writes the row of one employee, and its time; the org units stay. -/
structure Written (new : Employee) (db db' : Db) : Prop where
  units : db'.tables.org.units = db.tables.org.units
  clock : db.tables.org.clock < db'.tables.org.clock
  updatedAt : db'.updatedAt = update db.updatedAt new.id db'.tables.org.clock
  employees : db'.tables.employees = upsert (·.id) new db.tables.employees
  number : ∀ x ∈ db.tables.employees,
    x.id = new.id ↔ x.columns.employeeNumber = new.columns.employeeNumber

section Transactions

variable {w : Weather} {id : ℕ} {db db' : Db} {old : Employee}

theorem transact_ok {call : State → Except EmployeeError State}
    (h : transact w id call db = .ok db') :
    ∃ tables, call (later w.elapsed db.tables) = .ok tables ∧
      db' = ⟨tables, update db.updatedAt id tables.org.clock⟩ := by
  unfold transact at h
  split at h
  case isTrue => cases h
  case isFalse =>
    split at h
    case h_1 => cases h
    case h_2 tables hcall => exact ⟨tables, hcall, (Except.ok.inj h).symm⟩

variable {new : Employee}

theorem updateRow_ok {s t : State} {effectiveAt : Option ℤ}
    (h : s.updateRow old new effectiveAt = .ok t) :
    t.org = s.org ∧ t.employees = modify (·.id) old.id (fun _ => new) s.employees := by
  obtain ⟨-, -, h⟩ := bind_eq_ok h
  rcases historyTrack_ok h with ⟨-, rfl⟩ | ⟨-, _, -, rfl⟩ <;> exact ⟨rfl, rfl⟩

theorem insertRow_number {s t : State} (h : s.insertRow new = .ok t) :
    new.columns.employeeNumber ∉ s.employees.map (·.columns.employeeNumber) := by
  obtain ⟨-, -, h⟩ := bind_eq_ok h
  split at h
  case isTrue => cases h
  case isFalse =>
    split at h
    case isTrue => cases h
    case isFalse hnumber => exact hnumber

theorem written_of_org {tables : State} (horg : tables.org = (later w.elapsed db.tables).org)
    (hemployees : tables.employees = upsert (·.id) new db.tables.employees)
    (hnumber : ∀ x ∈ db.tables.employees,
      x.id = new.id ↔ x.columns.employeeNumber = new.columns.employeeNumber) :
    Written new db ⟨tables, update db.updatedAt new.id tables.org.clock⟩ where
  units := by rw [horg]; rfl
  clock := by
    rw [horg]
    simp only [later]
    omega
  updatedAt := rfl
  employees := hemployees
  number := hnumber

theorem written_of_updateRow {effectiveAt : Option ℤ} {tables : State} (hsound : db.Sound)
    (hold : old ∈ db.tables.employees) (hid : new.id = old.id)
    (hnumber : new.columns.employeeNumber = old.columns.employeeNumber)
    (h : (later w.elapsed db.tables).updateRow old new effectiveAt = .ok tables) :
    Written new db ⟨tables, update db.updatedAt new.id tables.org.clock⟩ := by
  obtain ⟨horg, hemployees⟩ := updateRow_ok h
  have hmem : new.id ∈ db.tables.employees.map (·.id) := hid ▸ mem_map_of_mem hold
  refine written_of_org horg ?_ fun x hx => ?_
  · rw [hemployees, upsert, if_pos hmem, ← hid]
    rfl
  · rw [hid, hnumber]
    constructor
    · intro heq
      rw [eq_of_key_eq hsound.ids hx hold heq]
    · intro heq
      rw [eq_of_key_eq hsound.numbers hx hold heq]

theorem written_of_insertRow {tables : State}
    (h : (later w.elapsed db.tables).insertRow new = .ok tables) :
    Written new db ⟨tables, update db.updatedAt new.id tables.org.clock⟩ := by
  have hnumber := insertRow_number h
  obtain ⟨hfresh, rfl⟩ := insertRow_ok h
  refine written_of_org rfl (if_neg hfresh).symm fun x hx => iff_of_false ?_ ?_
  · exact fun heq => hfresh (heq ▸ mem_map_of_mem hx)
  · exact fun heq => hnumber (heq ▸ mem_map_of_mem hx)

theorem transact_transfer {input : TransferInput} (hsound : db.Sound)
    (hold : db.tables.findById id = some old)
    (h : transact w id (·.transfer id input) db = .ok db') : Written (input.apply old) db db' := by
  obtain ⟨tables, hcall, rfl⟩ := transact_ok h
  obtain ⟨old', hold', hcall⟩ := bind_eq_ok hcall
  obtain ⟨-, -, hcall⟩ := bind_eq_ok hcall
  obtain ⟨-, -, hrow⟩ := bind_eq_ok hcall
  obtain rfl : old' = old := Option.some.inj ((requireEmployee_ok hold').symm.trans hold)
  obtain ⟨hmem, rfl⟩ := mem_of_lookup hold
  exact written_of_updateRow hsound hmem rfl rfl hrow

theorem transact_update {input : UpdateEmployeeInput} (hsound : db.Sound)
    (hold : db.tables.findById id = some old)
    (h : transact w id (·.update id input) db = .ok db') :
    ∃ today, Written (input.apply today old) db db' := by
  obtain ⟨tables, hcall, rfl⟩ := transact_ok h
  obtain ⟨old', hold', hrow⟩ := bind_eq_ok hcall
  obtain rfl : old' = old := Option.some.inj ((requireEmployee_ok hold').symm.trans hold)
  obtain ⟨hmem, rfl⟩ := mem_of_lookup hold
  exact ⟨_, written_of_updateRow hsound hmem rfl rfl hrow⟩

theorem transact_create {maxEmployees : Option ℕ} {record : BulkImportRecord}
    (h : transact w id (·.create maxEmployees id record.createInput) db = .ok db') :
    ∃ new, Written new db db' ∧ new.id = id ∧ new.columns = record.newColumns := by
  obtain ⟨tables, hcall, rfl⟩ := transact_ok h
  obtain ⟨-, -, hcall⟩ := bind_eq_ok hcall
  obtain ⟨-, -, hcall⟩ := bind_eq_ok hcall
  obtain ⟨-, -, hrow⟩ := bind_eq_ok hcall
  exact ⟨_, written_of_insertRow hrow, rfl, rfl⟩

end Transactions

namespace Written

variable {new : Employee} {db db' : Db}

theorem byNumber (h : Written new db db') :
    db'.tables.employees = upsert (·.columns.employeeNumber) new db.tables.employees :=
  h.employees.trans (upsert_congr h.number)

theorem findByEmployeeNumber (h : Written new db db') (n : String) :
    BulkImport.findByEmployeeNumber db'.tables n =
      if n = new.columns.employeeNumber then some new
      else BulkImport.findByEmployeeNumber db.tables n := by
  simp only [BulkImport.findByEmployeeNumber, h.byNumber, lookup_upsert]

theorem findById (h : Written new db db') (id : ℕ) :
    db'.tables.findById id = if id = new.id then some new else db.tables.findById id := by
  simp only [State.findById, h.employees, lookup_upsert]

theorem mem (h : Written new db db') {x : Employee} (hx : x ∈ db'.tables.employees) :
    x = new ∨ x ∈ db.tables.employees ∧ x.id ≠ new.id := by
  rw [h.employees, upsert] at hx
  split at hx
  case isTrue =>
    obtain ⟨y, hy, rfl⟩ := mem_map.1 hx
    by_cases hid : y.id = new.id
    · exact .inl (if_pos hid)
    · rw [if_neg hid]
      exact .inr ⟨hy, hid⟩
  case isFalse hfresh =>
    rcases mem_append.1 hx with hx | hx
    · exact .inr ⟨hx, fun hid => hfresh (hid ▸ mem_map_of_mem hx)⟩
    · exact .inl (mem_singleton.1 hx)

theorem sound (h : Written new db db') (hsound : db.Sound) : db'.Sound where
  ids := h.employees ▸ nodup_upsert hsound.ids
  numbers := h.byNumber ▸ nodup_upsert hsound.numbers
  stamps := by
    intro x hx
    rw [h.updatedAt]
    rcases h.mem hx with rfl | ⟨hx, hid⟩
    · simp
    · rw [update_of_ne hid]
      exact (hsound.stamps x hx).trans h.clock.le

theorem overwrite {new' : Employee} {db'' : Db} (h : Written new db db')
    (h' : Written new' db' db'') (hid : new'.id = new.id)
    (hnumber : new'.columns.employeeNumber = new.columns.employeeNumber) :
    Written new' db db'' where
  units := h'.units.trans h.units
  clock := h.clock.trans h'.clock
  updatedAt := by rw [h'.updatedAt, h.updatedAt, hid, update_idem]
  employees := by rw [h'.employees, h.employees, upsert_upsert hid]
  number := by rw [hid, hnumber]; exact h.number

end Written

/-! ## What a commit does to a record -/

/-- Whether a commit applies a record. -/
def Applies (report : DiffReport) (s : State) (record : BulkImportRecord) : Prop :=
  record.employeeNumber ∉ report.conflictNumbers ∧
    (findByEmployeeNumber s record.employeeNumber = none ∨
      record.employeeNumber ∈ report.updateNumbers)
  deriving Decidable

/-- The first transaction for a record that is applied. -/
def firstCall (maxEmployees : Option ℕ) (w : RecordWeather) (record : BulkImportRecord) (db : Db) :
    Except ImportError Db :=
  match findByEmployeeNumber db.tables record.employeeNumber with
  | some existing =>
    if .ofId existing.columns.orgUnitId ≠ record.orgUnitId ∨
        existing.columns.managerEmployeeId.map .ofId ≠ record.managerEmployeeId then
      transact w.first existing.id (·.transfer existing.id record.transferInput) db
    else transact w.second existing.id (·.update existing.id record.updateInput) db
  | none => transact w.first w.newId (·.create maxEmployees w.newId record.createInput) db

section Record

variable {maxEmployees : Option ℕ} {report : DiffReport} {w : RecordWeather}
  {record : BulkImportRecord} {counts counts' : Committed} {db db' : Db} {old : Employee}

theorem columnsOver_of_calls {today : ℤ} :
    (record.updateInput.apply today (record.transferInput.apply old)).columns =
      record.columnsOver old.columns := rfl

theorem columnsOver_of_update {today : ℤ} (hunit : .ofId old.columns.orgUnitId = record.orgUnitId)
    (hmanager : old.columns.managerEmployeeId.map .ofId = record.managerEmployeeId) :
    (record.updateInput.apply today old).columns = record.columnsOver old.columns := by
  have hid : (old.columns.managerEmployeeId.map UuidText.ofId).map (·.id) =
      old.columns.managerEmployeeId := by
    rw [Option.map_map]
    exact Option.map_id'
  simp only [BulkImportRecord.updateInput, UpdateEmployeeInput.apply, BulkImportRecord.columnsOver,
    ← hunit, ← hmanager, hid, UuidText.ofId, Option.getD_some, Option.getD_none]

theorem commitRecord_of_not_applies (h : ¬ Applies report db.tables record) :
    commitRecord maxEmployees report w record counts db = (.ok counts, db) := by
  unfold commitRecord
  split
  case isTrue => rfl
  case isFalse hconflict =>
    cases hfind : findByEmployeeNumber db.tables record.employeeNumber with
    | none => exact absurd ⟨hconflict, .inl hfind⟩ h
    | some existing =>
      have hupdate : record.employeeNumber ∉ report.updateNumbers :=
        fun hupdate => h ⟨hconflict, .inr hupdate⟩
      simp [hupdate]

/-- What an applied record makes of the employee with its number. -/
def Applied (w : RecordWeather) (record : BulkImportRecord) (db : Db) (new : Employee) : Prop :=
  (∃ old, findByEmployeeNumber db.tables record.employeeNumber = some old ∧ new.id = old.id ∧
    new.hireDate = old.hireDate ∧ new.columns = record.columnsOver old.columns) ∨
  (findByEmployeeNumber db.tables record.employeeNumber = none ∧
    new.id = w.newId ∧ new.columns = record.newColumns)

theorem findById_of_number (hsound : db.Sound) {n : String}
    (h : findByEmployeeNumber db.tables n = some old) : db.tables.findById old.id = some old :=
  lookup_eq_some hsound.ids (mem_of_lookup h).1

/-- Either the first transaction for the record throws, and nothing is done, or a row is written; it
is as the record has it when none throws. -/
theorem commitRecord_of_applies (hsound : db.Sound) (h : Applies report db.tables record)
    {result : Except ImportError Committed}
    (hcommit : commitRecord maxEmployees report w record counts db = (result, db')) :
    (∃ e, firstCall maxEmployees w record db = .error e ∧ result = .error e ∧ db' = db) ∨
      (∃ first, firstCall maxEmployees w record db = .ok first) ∧
        ∃ new, Written new db db' ∧ (result.isOk → Applied w record db new) := by
  obtain ⟨hconflict, happlies⟩ := h
  unfold commitRecord at hcommit
  rw [if_neg hconflict] at hcommit
  unfold firstCall
  cases hfind : findByEmployeeNumber db.tables record.employeeNumber with
  | none =>
    simp only [hfind] at hcommit ⊢
    cases hcall : transact w.first w.newId
        (·.create maxEmployees w.newId record.createInput) db with
    | error e =>
      simp only [hcall, Prod.mk.injEq] at hcommit
      obtain ⟨rfl, rfl⟩ := hcommit
      exact .inl ⟨e, rfl, rfl, rfl⟩
    | ok first =>
      simp only [hcall, Prod.mk.injEq] at hcommit
      obtain ⟨rfl, rfl⟩ := hcommit
      obtain ⟨new, hwritten, hid, hcolumns⟩ := transact_create hcall
      exact .inr ⟨⟨first, rfl⟩, new, hwritten, fun _ => .inr ⟨hfind, hid, hcolumns⟩⟩
  | some old =>
    have hupdate : record.employeeNumber ∈ report.updateNumbers :=
      happlies.resolve_left fun hnone => by rw [hfind] at hnone; cases hnone
    have hlive := findById_of_number hsound hfind
    simp only [hfind, hupdate, not_true_eq_false, if_false] at hcommit ⊢
    split at hcommit
    case h_1 e hfirst =>
      cases hcommit
      split at hfirst
      case isTrue hmoves => exact .inl ⟨e, by rw [if_pos hmoves, hfirst], rfl, rfl⟩
      case isFalse => cases hfirst
    case h_2 db₁ hfirst =>
      split at hfirst
      case isTrue hmoves =>
        -- the transfer has been done, whatever the update does
        have htransfer := transact_transfer hsound hlive hfirst
        refine .inr ⟨⟨db₁, by rw [if_pos hmoves, hfirst]⟩, ?_⟩
        have hmoved := (htransfer.findById old.id).trans (if_pos rfl)
        split at hcommit
        case h_1 e _ =>
          cases hcommit
          exact ⟨_, htransfer, fun hok => by cases hok⟩
        case h_2 db₂ hsecond =>
          cases hcommit
          obtain ⟨today, hwritten⟩ :=
            transact_update (htransfer.sound hsound) hmoved hsecond
          exact ⟨_, htransfer.overwrite hwritten rfl rfl,
            fun _ => .inl ⟨old, hfind, rfl, rfl, columnsOver_of_calls⟩⟩
      case isFalse hstays =>
        cases hfirst
        rw [if_neg hstays]
        rw [not_or, not_not, not_not] at hstays
        split at hcommit
        case h_1 e hsecond =>
          cases hcommit
          exact .inl ⟨e, hsecond, rfl, rfl⟩
        case h_2 db₂ hsecond =>
          obtain ⟨rfl, rfl⟩ := Prod.mk.inj hcommit
          obtain ⟨today, hwritten⟩ := transact_update hsound hlive hsecond
          exact .inr ⟨⟨db₂, hsecond⟩, _, hwritten,
            fun _ => .inl ⟨old, hfind, rfl, rfl, columnsOver_of_update hstays.1 hstays.2⟩⟩

end Record

end Workforce.Employees.BulkImport
