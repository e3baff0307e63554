import Workforce.Employee.BulkImport

/-!
# Commits of bulk imports

What a commit leaves of the employees, number by number. A number with a conflict is left alone, as
is an employee that no record changes. Of the records of another number, every one is applied to an
employee that is there, so that the last one decides; where there is none, the first one creates it,
and the later ones are left out (`Commits.row`).

A commit that throws leaves what the records before have done (`commitFrom_unchanged_iff`).
-/

namespace Workforce.Employees.BulkImport

open Runs Tables Relation List

/-! ## Runs -/

/-- A commit that does not throw, record by record; the ids of new employees are generated. -/
inductive Commits (report : DiffReport) (generated : Set ℕ) :
    List BulkImportRecord → Db → Db → Prop
  | nil (db : Db) : Commits report generated [] db db
  | skip {record : BulkImportRecord} {records : List BulkImportRecord} {db db' : Db}
      (applies : ¬ Applies report db.tables record)
      (rest : Commits report generated records db db') :
      Commits report generated (record :: records) db db'
  | apply {w : RecordWeather} {record : BulkImportRecord} {records : List BulkImportRecord}
      {new : Employee} {db db₁ db' : Db} (applies : Applies report db.tables record)
      (newId : w.newId ∈ generated) (applied : Applied w record db new)
      (written : Written new db db₁) (rest : Commits report generated records db₁ db') :
      Commits report generated (record :: records) db db'

/-- Transactions, of a commit that may throw. -/
def Writes : Db → Db → Prop := ReflTransGen fun db db' => ∃ new, Written new db db'

/-- No record is applied, or the first transaction for the first one that is throws. -/
def Spared (maxEmployees : Option ℕ) (report : DiffReport) (weather : ℕ → RecordWeather) (db : Db) :
    ℕ → List BulkImportRecord → Prop
  | _, [] => True
  | i, record :: records =>
    if Applies report db.tables record then
      ∃ e, firstCall maxEmployees (weather i) record db = .error e
    else Spared maxEmployees report weather db (i + 1) records

/-- The rows of the employees, and their times, are as before. -/
def Unchanged (db db' : Db) : Prop :=
  db'.tables.employees = db.tables.employees ∧
    ∀ x ∈ db.tables.employees, db'.updatedAt x.id = db.updatedAt x.id

section Runs

variable {maxEmployees : Option ℕ} {report : DiffReport} {weather : ℕ → RecordWeather}
  {records : List BulkImportRecord} {counts : Committed} {db db' : Db}

theorem commits_of_commitFrom (hsound : db.Sound) {i : ℕ} {counts' : Committed}
    (h : commitFrom maxEmployees report weather i records counts db = (.ok counts', db')) :
    Commits report (Set.range fun i => (weather i).newId) records db db' := by
  induction records generalizing i counts db with
  | nil =>
    obtain ⟨-, rfl⟩ := Prod.mk.inj h
    exact .nil db
  | cons record records ih =>
    by_cases happlies : Applies report db.tables record
    · simp only [commitFrom] at h
      split at h
      case h_1 => cases h
      case h_2 counts₁ db₁ hcommit =>
        rcases commitRecord_of_applies hsound happlies hcommit with
          ⟨e, -, herror, -⟩ | ⟨-, new, hwritten, happlied⟩
        · cases herror
        · exact .apply happlies ⟨i, rfl⟩ (happlied rfl) hwritten (ih (hwritten.sound hsound) h)
    · rw [commitFrom, commitRecord_of_not_applies happlies] at h
      exact .skip happlies (ih hsound h)

theorem writes_of_commitFrom (hsound : db.Sound) {i : ℕ} {result : Except ImportError Committed}
    (h : commitFrom maxEmployees report weather i records counts db = (result, db')) :
    Writes db db' := by
  induction records generalizing i counts db with
  | nil =>
    cases h
    exact .refl
  | cons record records ih =>
    by_cases happlies : Applies report db.tables record
    · simp only [commitFrom] at h
      split at h
      case h_1 e db₁ hcommit =>
        cases h
        rcases commitRecord_of_applies hsound happlies hcommit with
          ⟨-, -, -, rfl⟩ | ⟨-, new, hwritten, -⟩
        · exact .refl
        · exact .single ⟨new, hwritten⟩
      case h_2 counts₁ db₁ hcommit =>
        rcases commitRecord_of_applies hsound happlies hcommit with
          ⟨e, -, herror, -⟩ | ⟨-, new, hwritten, -⟩
        · cases herror
        · exact .head ⟨new, hwritten⟩ (ih (hwritten.sound hsound) h)
    · rw [commitFrom, commitRecord_of_not_applies happlies] at h
      exact ih hsound h

theorem processImport_dryRun {destructiveEnabled : Bool} {w : JobWeather} {status : JobStatus}
    (h : processImport maxEmployees destructiveEnabled w records true db = (status, db')) :
    db' = db ∧ ∀ report, status = .completed report →
      report = buildReport db.tables w.unitFails records := by
  unfold processImport at h
  split at h
  case isTrue =>
    cases h
    exact ⟨rfl, fun _ hreport => by cases hreport⟩
  case isFalse =>
    rw [if_pos rfl] at h
    split at h
    case isTrue =>
      cases h
      exact ⟨rfl, fun _ hreport => by cases hreport⟩
    case isFalse =>
      cases h
      exact ⟨rfl, fun _ hreport => (JobStatus.completed.inj hreport).symm⟩

/-- An import that completes has gone through its commit. -/
theorem commits_of_processImport (hsound : db.Sound) {destructiveEnabled : Bool} {w : JobWeather}
    {result : DiffReport}
    (h : processImport maxEmployees destructiveEnabled w records false db =
      (.completed result, db')) :
    Commits (buildReport db.tables w.unitFails records) (Set.range fun i => (w.commit i).newId)
      records db db' := by
  unfold processImport at h
  split at h
  case isTrue => cases h
  case isFalse =>
    simp only [Bool.false_eq_true, if_false] at h
    split at h
    case isTrue => cases h
    case isFalse =>
      split at h
      case h_1 => cases h
      case h_2 committed db₁ hcommit =>
        split at h
        case isTrue => cases h
        case isFalse =>
          cases h
          exact commits_of_commitFrom hsound hcommit

theorem Writes.newer {since : ℤ} {id : ℕ} (h : Writes db db')
    (hclock : since < db.tables.org.clock) (hid : id ∈ db.tables.employees.map (·.id))
    (hstamp : since < db.updatedAt id) :
    id ∈ db'.tables.employees.map (·.id) ∧ since < db'.updatedAt id := by
  induction h using ReflTransGen.head_induction_on with
  | refl => exact ⟨hid, hstamp⟩
  | head hwritten _ ih =>
    obtain ⟨new, hwritten⟩ := hwritten
    have hclock' := hclock.trans hwritten.clock
    refine ih hclock' ?_ ?_
    · rw [hwritten.employees]
      exact mem_keys_upsert.2 (.inr hid)
    · rw [hwritten.updatedAt, Function.update_apply]
      split
      case isTrue => exact hclock'
      case isFalse => exact hstamp

theorem Written.newer {new : Employee} {db₁ : Db} (h : Written new db db₁)
    (hrest : Writes db₁ db') :
    new.id ∈ db'.tables.employees.map (·.id) ∧ db.tables.org.clock < db'.updatedAt new.id := by
  refine hrest.newer h.clock ?_ ?_
  · rw [h.employees]
    exact mem_keys_upsert.2 (.inl rfl)
  · rw [h.updatedAt, Function.update_self]
    exact h.clock

theorem not_unchanged_of_written {new : Employee} {db₁ : Db} (hsound : db.Sound)
    (h : Written new db db₁) (hrest : Writes db₁ db') : ¬ Unchanged db db' := by
  rintro ⟨hemployees, hstamps⟩
  obtain ⟨hid, hnewer⟩ := h.newer hrest
  rw [hemployees] at hid
  obtain ⟨x, hx, hxid⟩ := mem_map.1 hid
  have hstamp := hsound.stamps x hx
  rw [← hstamps x hx, hxid] at hstamp
  omega

/-- A commit leaves everything as it was exactly when it gets no transaction done. -/
theorem commitFrom_unchanged_iff (hsound : db.Sound) {i : ℕ}
    {result : Except ImportError Committed}
    (h : commitFrom maxEmployees report weather i records counts db = (result, db')) :
    Unchanged db db' ↔ Spared maxEmployees report weather db i records := by
  induction records generalizing i counts with
  | nil =>
    cases h
    exact iff_of_true ⟨rfl, fun _ _ => rfl⟩ trivial
  | cons record records ih =>
    by_cases happlies : Applies report db.tables record
    · rw [Spared, if_pos happlies]
      simp only [commitFrom] at h
      split at h
      case h_1 e db₁ hcommit =>
        cases h
        rcases commitRecord_of_applies hsound happlies hcommit with
          ⟨e, hfirst, -, rfl⟩ | ⟨⟨first, hfirst⟩, new, hwritten, -⟩
        · exact iff_of_true ⟨rfl, fun _ _ => rfl⟩ ⟨e, hfirst⟩
        · refine iff_of_false (not_unchanged_of_written hsound hwritten .refl) ?_
          rintro ⟨e, herror⟩
          rw [hfirst] at herror
          cases herror
      case h_2 counts₁ db₁ hcommit =>
        rcases commitRecord_of_applies hsound happlies hcommit with
          ⟨e, -, herror, -⟩ | ⟨⟨first, hfirst⟩, new, hwritten, -⟩
        · cases herror
        · have hrest := writes_of_commitFrom (hwritten.sound hsound) h
          refine iff_of_false (not_unchanged_of_written hsound hwritten hrest) ?_
          rintro ⟨e, herror⟩
          rw [hfirst] at herror
          cases herror
    · rw [commitFrom, commitRecord_of_not_applies happlies] at h
      rw [Spared, if_neg happlies]
      exact ih h

end Runs

/-! ## The row of a number -/

/-- The row of an employee number. -/
def Db.rowOf (db : Db) (n : String) : Option EmployeeColumns :=
  (findByEmployeeNumber db.tables n).map (·.columns)

/-- What a record makes of the row of its number. -/
def rowAfter (report : DiffReport) (row : Option EmployeeColumns) (record : BulkImportRecord) :
    Option EmployeeColumns :=
  if record.employeeNumber ∈ report.conflictNumbers then row
  else
    match row with
    | none => some record.newColumns
    | some columns =>
      if record.employeeNumber ∈ report.updateNumbers then some (record.columnsOver columns)
      else some columns

section Rows

variable {report : DiffReport} {generated : Set ℕ} {records : List BulkImportRecord} {db db' : Db}
  {w : RecordWeather} {record : BulkImportRecord} {new : Employee} {n : String}

theorem employeeNumber_of_find {s : State} {x : Employee}
    (h : findByEmployeeNumber s n = some x) : x.columns.employeeNumber = n :=
  (mem_of_lookup h).2

theorem Applied.employeeNumber (h : Applied w record db new) :
    new.columns.employeeNumber = record.employeeNumber := by
  rcases h with ⟨old, hold, -, -, hcolumns⟩ | ⟨-, -, hcolumns⟩
  · rw [hcolumns]
    exact employeeNumber_of_find hold
  · rw [hcolumns]
    rfl

theorem rowAfter_of_not_applies (h : ¬ Applies report db.tables record) :
    rowAfter report (db.rowOf record.employeeNumber) record = db.rowOf record.employeeNumber := by
  unfold rowAfter
  split
  case isTrue => rfl
  case isFalse hconflict =>
    unfold Db.rowOf
    cases hfind : findByEmployeeNumber db.tables record.employeeNumber with
    | none => exact absurd ⟨hconflict, .inl hfind⟩ h
    | some old => exact if_neg fun hupdate => h ⟨hconflict, .inr hupdate⟩

theorem rowAfter_of_applied (happlies : Applies report db.tables record)
    (h : Applied w record db new) :
    rowAfter report (db.rowOf record.employeeNumber) record = some new.columns := by
  unfold rowAfter
  rw [if_neg happlies.1, Db.rowOf]
  rcases h with ⟨old, hold, -, -, hcolumns⟩ | ⟨hnone, -, hcolumns⟩
  · have hupdate : record.employeeNumber ∈ report.updateNumbers :=
      happlies.2.resolve_left fun hnone => by rw [hold] at hnone; cases hnone
    rw [hold, hcolumns]
    exact if_pos hupdate
  · rw [hnone, hcolumns]
    rfl

theorem Written.rowOf (h : Written new db db') (n : String) :
    db'.rowOf n = if n = new.columns.employeeNumber then some new.columns else db.rowOf n := by
  rw [Db.rowOf, h.findByEmployeeNumber]
  split <;> rfl

namespace Commits

theorem row (h : Commits report generated records db db') (n : String) :
    db'.rowOf n =
      (records.filter fun record => record.employeeNumber = n).foldl (rowAfter report)
        (db.rowOf n) := by
  induction h with
  | nil => rfl
  | @skip record _ _ _ happlies _ ih =>
    rw [ih, filter_cons]
    by_cases hn : record.employeeNumber = n
    · rw [if_pos (decide_eq_true hn), foldl_cons, ← hn, rowAfter_of_not_applies happlies]
    · rw [if_neg (by simpa using hn)]
  | @apply w record _ new _ _ _ happlies _ happlied hwritten _ ih =>
    rw [ih, hwritten.rowOf, happlied.employeeNumber, filter_cons]
    by_cases hn : record.employeeNumber = n
    · rw [if_pos hn.symm, if_pos (decide_eq_true hn), foldl_cons, ← hn,
        rowAfter_of_applied happlies happlied]
    · rw [if_neg (Ne.symm hn), if_neg (by simpa using hn)]

theorem sound (h : Commits report generated records db db') (hsound : db.Sound) : db'.Sound := by
  induction h with
  | nil => exact hsound
  | skip _ _ ih => exact ih hsound
  | apply _ _ _ hwritten _ ih => exact ih (hwritten.sound hsound)

theorem units (h : Commits report generated records db db') :
    db'.tables.org.units = db.tables.org.units := by
  induction h with
  | nil => rfl
  | skip _ _ ih => exact ih
  | apply _ _ _ hwritten _ ih => exact ih.trans hwritten.units

theorem writes (h : Commits report generated records db db') : Writes db db' := by
  induction h with
  | nil => exact .refl
  | skip _ _ ih => exact ih
  | apply _ _ _ hwritten _ ih => exact .head ⟨_, hwritten⟩ ih

theorem mem_ids (h : Commits report generated records db db') {id : ℕ}
    (hid : id ∈ db'.tables.employees.map (·.id)) :
    id ∈ db.tables.employees.map (·.id) ∨ id ∈ generated := by
  induction h with
  | nil => exact .inl hid
  | skip _ _ ih => exact ih hid
  | apply _ hnewId happlied hwritten _ ih =>
    rcases ih hid with hid | hid
    · rw [hwritten.employees] at hid
      rcases mem_keys_upsert.1 hid with rfl | hid
      · rcases happlied with ⟨old, hold, hsame, -⟩ | ⟨-, hfresh, -⟩
        · rw [hsame]
          exact .inl (mem_map_of_mem (mem_of_lookup hold).1)
        · rw [hfresh]
          exact .inr hnewId
      · exact .inl hid
    · exact .inr hid

theorem ids_subset (h : Commits report generated records db db') :
    db.tables.employees.map (·.id) ⊆ db'.tables.employees.map (·.id) := by
  induction h with
  | nil => exact fun _ hid => hid
  | skip _ _ ih => exact ih
  | apply _ _ _ hwritten _ ih =>
    intro id hid
    refine ih ?_
    rw [hwritten.employees]
    exact mem_keys_upsert.2 (.inr hid)

theorem find_of_some (h : Commits report generated records db db') {x : Employee}
    (hx : findByEmployeeNumber db.tables n = some x) :
    ∃ y, findByEmployeeNumber db'.tables n = some y ∧ y.id = x.id ∧ y.hireDate = x.hireDate := by
  induction h generalizing x with
  | nil => exact ⟨x, hx, rfl, rfl⟩
  | skip _ _ ih => exact ih hx
  | @apply w record _ new db₀ _ _ _ _ happlied hwritten _ ih =>
    have hfind := hwritten.findByEmployeeNumber n
    by_cases hn : n = new.columns.employeeNumber
    · obtain ⟨y, hy, hid, hdate⟩ := ih (hfind.trans (if_pos hn))
      rw [hn, happlied.employeeNumber] at hx
      rcases happlied with ⟨old, hold, hsame, hhired, -⟩ | ⟨hnone, -, -⟩
      · obtain rfl := Option.some.inj (hold.symm.trans hx)
        exact ⟨y, hy, hid.trans hsame, hdate.trans hhired⟩
      · rw [hnone] at hx
        cases hx
    · exact ih (hfind.trans (if_neg hn ▸ hx))

theorem stamp_of_left (h : Commits report generated records db db') {x : Employee}
    (hx : findByEmployeeNumber db.tables n = some x)
    (hleft : n ∈ report.conflictNumbers ∨ n ∉ report.updateNumbers ∨
      ∀ record ∈ records, record.employeeNumber ≠ n) :
    db'.updatedAt x.id = db.updatedAt x.id := by
  induction h with
  | nil => rfl
  | skip _ _ ih => exact ih hx (hleft.imp_right (.imp_right fun h r hr => h r (.tail _ hr)))
  | @apply w record _ new db₀ _ _ happlies _ happlied hwritten _ ih =>
    have hne : n ≠ new.columns.employeeNumber := by
      rintro rfl
      rw [happlied.employeeNumber] at hx hleft
      have hupdate := happlies.2.resolve_left fun hnone => by rw [hx] at hnone; cases hnone
      rcases hleft with hconflict | hno | hnone
      · exact happlies.1 hconflict
      · exact hno hupdate
      · exact hnone record mem_cons_self rfl
    obtain ⟨hmem, hnumber⟩ := mem_of_lookup hx
    have hid : x.id ≠ new.id := fun heq =>
      hne (hnumber.symm.trans ((hwritten.number x hmem).1 heq))
    rw [ih ((hwritten.findByEmployeeNumber n).trans (if_neg hne ▸ hx))
      (hleft.imp_right (.imp_right fun h r hr => h r (.tail _ hr))), hwritten.updatedAt,
      Function.update_of_ne hid]

theorem stamp_of_updated (h : Commits report generated records db db') {x : Employee}
    (hx : findByEmployeeNumber db.tables n = some x) (hconflict : n ∉ report.conflictNumbers)
    (hupdate : n ∈ report.updateNumbers) (hrecord : ∃ record ∈ records, record.employeeNumber = n) :
    db.tables.org.clock < db'.updatedAt x.id := by
  induction h with
  | nil => simp at hrecord
  | @skip record _ _ _ happlies _ ih =>
    have hne : record.employeeNumber ≠ n := by
      rintro rfl
      exact happlies ⟨hconflict, .inr hupdate⟩
    obtain ⟨r, hr, hrn⟩ := hrecord
    rcases mem_cons.1 hr with rfl | hr
    · exact absurd hrn hne
    · exact ih hx ⟨r, hr, hrn⟩
  | @apply w record _ new db₀ _ _ _ _ happlied hwritten hrest ih =>
    obtain ⟨hmem, hnumber⟩ := mem_of_lookup hx
    by_cases hne : n = new.columns.employeeNumber
    · rw [(hwritten.number x hmem).2 (hnumber.trans hne)]
      exact (hwritten.newer hrest.writes).2
    · refine hwritten.clock.trans (ih ?_ ?_)
      · exact (hwritten.findByEmployeeNumber n).trans (if_neg hne ▸ hx)
      · obtain ⟨r, hr, hrn⟩ := hrecord
        rcases mem_cons.1 hr with rfl | hr
        · exact absurd (happlied.employeeNumber.trans hrn).symm hne
        · exact ⟨r, hr, hrn⟩

end Commits

/-! ## Which record decides -/

theorem foldl_rowAfter_of_left {row : Option EmployeeColumns}
    (hrecords : ∀ record ∈ records, record.employeeNumber = n)
    (hleft : n ∈ report.conflictNumbers ∨ row.isSome ∧ n ∉ report.updateNumbers) :
    records.foldl (rowAfter report) row = row := by
  induction records with
  | nil => rfl
  | cons record records ih =>
    obtain ⟨hn, hrecords⟩ := forall_mem_cons.1 hrecords
    have hrow : rowAfter report row record = row := by
      unfold rowAfter
      rw [hn]
      rcases hleft with hconflict | ⟨hsome, hupdate⟩
      · exact if_pos hconflict
      · obtain ⟨columns, rfl⟩ := Option.isSome_iff_exists.1 hsome
        simp [hupdate]
    rw [foldl_cons, hrow, ih hrecords]

theorem columnsOver_columnsOver (record record' : BulkImportRecord) (columns : EmployeeColumns) :
    record'.columnsOver (record.columnsOver columns) = record'.columnsOver columns := rfl

theorem foldl_rowAfter_of_updated (hrecords : ∀ record ∈ records, record.employeeNumber = n)
    (hconflict : n ∉ report.conflictNumbers) (hupdate : n ∈ report.updateNumbers)
    {columns : EmployeeColumns} (hlast : records.getLast? = some record) :
    records.foldl (rowAfter report) (some columns) = some (record.columnsOver columns) := by
  induction records generalizing columns with
  | nil => cases hlast
  | cons record' records ih =>
    obtain ⟨hn, hrecords⟩ := forall_mem_cons.1 hrecords
    have hrow : rowAfter report (some columns) record' = some (record'.columnsOver columns) := by
      simp [rowAfter, hn, hconflict, hupdate]
    rw [foldl_cons, hrow]
    cases records with
    | nil =>
      obtain rfl : record' = record := by simpa using hlast
      rfl
    | cons record'' records =>
      rw [ih hrecords (by simpa using hlast), columnsOver_columnsOver]

theorem foldl_rowAfter_of_created (hn : record.employeeNumber = n)
    (hrecords : ∀ record ∈ records, record.employeeNumber = n)
    (hconflict : n ∉ report.conflictNumbers) (hupdate : n ∉ report.updateNumbers) :
    (record :: records).foldl (rowAfter report) none = some record.newColumns := by
  have hrow : rowAfter report none record = some record.newColumns := by
    simp [rowAfter, hn, hconflict]
  rw [foldl_cons, hrow, foldl_rowAfter_of_left hrecords (.inr ⟨rfl, hupdate⟩)]

end Rows

/-! ## A commit of what has been reported -/

section Reported

variable {generated : Set ℕ} {unitFails : ℕ → Bool} {records : List BulkImportRecord}
  {record : BulkImportRecord} {db db' : Db} {n : String}

theorem rowOf_eq_none : db.rowOf n = none ↔ findByEmployeeNumber db.tables n = none := by
  rw [Db.rowOf, Option.map_eq_none_iff]

theorem mem_conflictNumbers : n ∈ (buildReport db.tables unitFails records).conflictNumbers ↔
    ∃ p ∈ records.zipIdx, ¬ Refers db.tables (unitFails p.2) p.1 ∧ p.1.employeeNumber = n := by
  simp only [conflictNumbers_buildReport, mem_numbersWith, isConflict_entryOf]

theorem mem_updateNumbers : n ∈ (buildReport db.tables unitFails records).updateNumbers ↔
    ∃ p ∈ records.zipIdx, (entryOf db.tables (unitFails p.2) p.1).isUpdate = true ∧
      p.1.employeeNumber = n := by
  simp only [updateNumbers_buildReport, mem_numbersWith]

theorem exists_find_of_mem_updateNumbers
    (h : n ∈ (buildReport db.tables unitFails records).updateNumbers) :
    (∃ x, findByEmployeeNumber db.tables n = some x) ∧
      ∃ record ∈ records, record.employeeNumber = n := by
  obtain ⟨p, hmem, hupdate, rfl⟩ := mem_updateNumbers.1 h
  obtain ⟨-, x, hx, -⟩ := isUpdate_entryOf.1 hupdate
  exact ⟨⟨x, hx⟩, p.1, fst_mem_of_mem_zipIdx hmem, rfl⟩

section

variable (h : Commits (buildReport db.tables unitFails records) generated records db db')

include h

theorem row_of_conflict (hn : n ∈ (buildReport db.tables unitFails records).conflictNumbers) :
    db'.rowOf n = db.rowOf n := by
  rw [h.row, foldl_rowAfter_of_left (by simp) (.inl hn)]

theorem row_of_unchanged {x : Employee} (hx : findByEmployeeNumber db.tables n = some x)
    (hn : n ∉ (buildReport db.tables unitFails records).updateNumbers) :
    db'.rowOf n = db.rowOf n := by
  rw [h.row, foldl_rowAfter_of_left (by simp) (.inr ⟨?_, hn⟩)]
  rw [Db.rowOf, hx]
  rfl

theorem row_of_created (hnone : findByEmployeeNumber db.tables n = none)
    (hconflict : n ∉ (buildReport db.tables unitFails records).conflictNumbers)
    {rest : List BulkImportRecord}
    (hrecords : (records.filter fun record => record.employeeNumber = n) = record :: rest) :
    db'.rowOf n = some record.newColumns := by
  have hall : ∀ other ∈ record :: rest, other.employeeNumber = n := by
    rw [← hrecords]
    simp
  obtain ⟨hn, hrest⟩ := forall_mem_cons.1 hall
  have hupdate : n ∉ (buildReport db.tables unitFails records).updateNumbers := by
    intro hn
    obtain ⟨⟨x, hx⟩, -⟩ := exists_find_of_mem_updateNumbers hn
    rw [hnone] at hx
    cases hx
  rw [h.row, rowOf_eq_none.2 hnone, hrecords,
    foldl_rowAfter_of_created hn hrest hconflict hupdate]

/-- An employee that is changed is as the last record of its number has it. -/
theorem row_of_updated {x : Employee} (hx : findByEmployeeNumber db.tables n = some x)
    (hconflict : n ∉ (buildReport db.tables unitFails records).conflictNumbers)
    (hupdate : n ∈ (buildReport db.tables unitFails records).updateNumbers)
    (hlast : (records.filter fun record => record.employeeNumber = n).getLast? = some record) :
    db'.rowOf n = some (record.columnsOver x.columns) := by
  have hrow : db.rowOf n = some x.columns := by
    rw [Db.rowOf, hx]
    rfl
  rw [h.row, hrow, foldl_rowAfter_of_updated (by simp) hconflict hupdate hlast]

end

end Reported

end Workforce.Employees.BulkImport
