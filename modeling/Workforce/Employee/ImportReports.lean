import Workforce.Employee.ImportCommits

/-!
# What an import previews and what it does

An import that completes does what its report says when of each record that creates or changes an
employee the org unit could be looked up, and the record is the only one of its number, and is
stored as it is given: the hours survive the two decimals of the column, and the ids are spelled as
the database spells them. Otherwise the report counts more than is done, or a new report counts the
same change once more (`import_asPreviewed_iff`).

An import that fails leaves the employees as they were when it fails before its first transaction is
done. The transactions that are done stay.
-/

namespace Workforce.Employees.BulkImport

open Runs Tables List

/-! ## What is claimed of an import -/

/-- The employees that were not there. -/
def created (db db' : Db) : List Employee :=
  db'.tables.employees.filter fun x => x.id ∉ db.tables.employees.map (·.id)

/-- The employees that have been written since. -/
def updated (db db' : Db) : List Employee :=
  db.tables.employees.filter fun x => db'.updatedAt x.id ≠ db.updatedAt x.id

/-- As many employees are created and updated as the report says, and a new one says nothing,
whichever of its look-ups fail. -/
structure AsPreviewed (records : List BulkImportRecord) (report : DiffReport) (db db' : Db) :
    Prop where
  creates : (created db db').length = report.creates.length
  updates : (updated db db').length = report.updates.length
  createsAgain : ∀ unitFails, (buildReport db'.tables unitFails records).creates = []
  updatesAgain : ∀ unitFails, (buildReport db'.tables unitFails records).updates = []

/-- A record is read back as it was given. -/
def BulkImportRecord.Settles (record : BulkImportRecord) : Prop :=
  hoursNumber record.storedHours = record.contractHoursPerWeek ∧ record.orgUnitId.letterCase = 0 ∧
    ∀ m ∈ record.managerEmployeeId, m.letterCase = 0
  deriving Decidable

/-- The record creates or changes an employee, when its org unit is looked up. -/
def Counts (s : State) (record : BulkImportRecord) : Prop :=
  (entryOf s false record).isCreate ∨ (entryOf s false record).isUpdate
  deriving Decidable

/-- Of the records that create or change an employee, the org unit is looked up, and they are the
only ones of their numbers, and settle. -/
def Settled (s : State) (unitFails : ℕ → Bool) (records : List BulkImportRecord) : Prop :=
  ∀ p ∈ records.zipIdx, Counts s p.1 → unitFails p.2 = false ∧
    (records.countP fun other => other.employeeNumber = p.1.employeeNumber) = 1 ∧ p.1.Settles
  deriving Decidable

/-! ## What is read back -/

section Diff

variable {record record' : BulkImportRecord} {columns : EmployeeColumns}

theorem ofId_id {text : UuidText} : UuidText.ofId text.id = text ↔ text.letterCase = 0 := by
  cases text
  simp [UuidText.ofId, eq_comm]

theorem map_ofId_map_id {text : Option UuidText} :
    (text.map (·.id)).map UuidText.ofId = text ↔ ∀ m ∈ text, m.letterCase = 0 := by
  cases text with
  | none => simp
  | some text => simp [ofId_id]

theorem diff_columnsOver :
    (diffEmployeeRecord (record.columnsOver columns) record).isEmpty ↔ record.Settles := by
  rw [diffEmployeeRecord_isEmpty]
  simp only [BulkImportRecord.columnsOver, BulkImportRecord.Settles, ofId_id, map_ofId_map_id]
  tauto

theorem diff_newColumns :
    (diffEmployeeRecord record.newColumns record).isEmpty ↔ record.Settles := by
  rw [diffEmployeeRecord_isEmpty]
  simp only [BulkImportRecord.newColumns, BulkImportRecord.Settles, ofId_id, map_ofId_map_id]
  tauto

theorem diff_isEmpty_of_isEmpty {columns' : EmployeeColumns}
    (h : (diffEmployeeRecord columns record).isEmpty)
    (h' : (diffEmployeeRecord columns record').isEmpty)
    (hother : (diffEmployeeRecord columns' record').isEmpty) :
    (diffEmployeeRecord columns' record).isEmpty := by
  rw [diffEmployeeRecord_isEmpty] at *
  obtain ⟨h₁, h₂, h₃, h₄, h₅⟩ := h
  obtain ⟨h₁', h₂', h₃', h₄', h₅'⟩ := h'
  simp_all

end Diff

/-! ## The only record of a number -/

section Numbers

variable {s : State} {unitFails : ℕ → Bool} {records : List BulkImportRecord}
  {record : BulkImportRecord} {p : BulkImportRecord × ℕ} {n : String}

theorem filter_eq_singleton (hmem : record ∈ records)
    (hone : (records.countP fun other => other.employeeNumber = record.employeeNumber) = 1) :
    (records.filter fun other => other.employeeNumber = record.employeeNumber) = [record] := by
  rw [countP_eq_length_filter, length_eq_one_iff] at hone
  obtain ⟨other, hother⟩ := hone
  have h : record ∈ records.filter fun other => other.employeeNumber = record.employeeNumber :=
    mem_filter.2 ⟨hmem, decide_eq_true rfl⟩
  rw [hother, mem_singleton] at h
  rw [hother, h]

theorem exists_mem_zipIdx (hmem : record ∈ records) : ∃ p ∈ records.zipIdx, p.1 = record := by
  rw [← zipIdx_map_fst 0 records] at hmem
  exact mem_map.1 hmem

theorem countP_zipIdx : (records.zipIdx.countP fun p => p.1.employeeNumber = n) =
    records.countP fun record => record.employeeNumber = n := by
  conv_rhs => rw [← zipIdx_map_fst 0 records, countP_map]
  rfl

theorem eq_of_countP {q : BulkImportRecord × ℕ} (hmem : p ∈ records.zipIdx)
    (hone : (records.countP fun other => other.employeeNumber = p.1.employeeNumber) = 1)
    (hother : q ∈ records.zipIdx) (hn : q.1.employeeNumber = p.1.employeeNumber) : q = p := by
  rw [← countP_zipIdx, countP_eq_length_filter, length_eq_one_iff] at hone
  obtain ⟨r, hr⟩ := hone
  have hin : ∀ q ∈ records.zipIdx, q.1.employeeNumber = p.1.employeeNumber → q = r := by
    intro q hq hqn
    rw [← mem_singleton, ← hr]
    exact mem_filter.2 ⟨hq, decide_eq_true hqn⟩
  rw [hin q hother hn, hin p hmem rfl]

theorem count_numbersWith (kind : Entry → Bool) :
    (numbersWith kind s unitFails records.zipIdx).count n =
      records.zipIdx.countP fun p =>
        p.1.employeeNumber = n ∧ kind (entryOf s (unitFails p.2) p.1) := by
  rw [numbersWith, count_eq_countP, countP_map, countP_filter]
  refine countP_congr fun p _ => ?_
  simp

theorem count_numbersWith_le (kind : Entry → Bool) :
    (numbersWith kind s unitFails records.zipIdx).count n ≤
      records.countP fun record => record.employeeNumber = n := by
  rw [count_numbersWith, ← countP_zipIdx]
  refine countP_mono_left fun p _ h => ?_
  simp only [decide_eq_true_eq] at h ⊢
  exact h.1

/-- When the numbers of a kind are distinct, and all records of a number are of the kind, there is
one. -/
theorem countP_eq_one {kind : Entry → Bool}
    (hnodup : (numbersWith kind s unitFails records.zipIdx).Nodup) (hmem : p ∈ records.zipIdx)
    (hkind : kind (entryOf s (unitFails p.2) p.1) = true)
    (hall : ∀ q ∈ records.zipIdx, q.1.employeeNumber = p.1.employeeNumber →
      kind (entryOf s (unitFails q.2) q.1) = true) :
    (records.countP fun other => other.employeeNumber = p.1.employeeNumber) = 1 := by
  have hcount := count_eq_one_of_mem hnodup (mem_numbersWith.2 ⟨p, hmem, hkind, rfl⟩)
  rw [count_numbersWith] at hcount
  rw [← hcount, ← countP_zipIdx]
  refine countP_congr fun q hq => ?_
  simp only [decide_eq_true_eq]
  exact ⟨fun hn => ⟨hn, hall q hq hn⟩, fun h => h.1⟩

theorem nodup_numbersWith {kind : Entry → Bool}
    (hone : ∀ p ∈ records.zipIdx, kind (entryOf s (unitFails p.2) p.1) = true →
      (records.countP fun other => other.employeeNumber = p.1.employeeNumber) = 1) :
    (numbersWith kind s unitFails records.zipIdx).Nodup := by
  rw [nodup_iff_count_le_one]
  intro n
  by_cases hn : n ∈ numbersWith kind s unitFails records.zipIdx
  · obtain ⟨p, hmem, hkind, rfl⟩ := mem_numbersWith.1 hn
    exact (count_numbersWith_le kind).trans (hone p hmem hkind).le
  · rw [count_eq_zero_of_not_mem hn]
    omega

end Numbers

/-! ## A completed commit -/

section Completed

/-- Distinct entries of a list are as many as its entries exactly when they are its entries. -/
theorem length_eq_iff_perm {α : Type*} {l l' : List α} (hnodup : l.Nodup) (hsubset : l ⊆ l') :
    l.length = l'.length ↔ l.Perm l' :=
  ⟨fun hlength => (hnodup.subperm hsubset).perm_of_length_le hlength.ge, Perm.length_eq⟩

variable {generated : Set ℕ} {fails : Bool} {unitFails : ℕ → Bool}
  {records : List BulkImportRecord} {record : BulkImportRecord} {p : BulkImportRecord × ℕ}
  {db db' : Db} {n : String}

theorem nodup_updated (hsound : db.Sound) :
    ((updated db db').map (·.columns.employeeNumber)).Nodup :=
  hsound.numbers.sublist (filter_sublist.map _)

section

variable (h : Commits (buildReport db.tables unitFails records) generated records db db')
  (hfresh : ∀ record ∈ records, ∀ m, record.managerEmployeeId = some m → m.id ∉ generated)

include h

theorem refers_of_refers (hrefers : Refers db.tables fails record) :
    Refers db'.tables fails record := by
  refine ⟨hrefers.1, ?_, fun m hm => ?_⟩
  · rw [Org.State.findById, h.units]
    exact hrefers.2.1
  · rw [State.findById, lookup_isSome]
    exact h.ids_subset (lookup_isSome.1 (hrefers.2.2 m hm))

theorem mem_created (hsound : db.Sound) :
    n ∈ (created db db').map (·.columns.employeeNumber) ↔
      findByEmployeeNumber db.tables n = none ∧
        n ∉ (buildReport db.tables unitFails records).conflictNumbers ∧
        ∃ record ∈ records, record.employeeNumber = n := by
  have hsound' := h.sound hsound
  simp only [created, mem_map, mem_filter, decide_eq_true_eq]
  constructor
  · rintro ⟨x, ⟨hx, hnew⟩, rfl⟩
    have hfind : findByEmployeeNumber db'.tables x.columns.employeeNumber = some x :=
      lookup_eq_some hsound'.numbers hx
    have hnone : findByEmployeeNumber db.tables x.columns.employeeNumber = none := by
      by_contra hsome
      obtain ⟨y, hy⟩ := Option.ne_none_iff_exists'.1 hsome
      obtain ⟨y', hy', hid, -⟩ := h.find_of_some hy
      obtain rfl := Option.some.inj (hfind.symm.trans hy')
      exact hnew ⟨y, (mem_of_lookup hy).1, hid.symm⟩
    have hrow : db'.rowOf x.columns.employeeNumber ≠ db.rowOf x.columns.employeeNumber := by
      rw [rowOf_eq_none.2 hnone, Db.rowOf, hfind]
      simp
    refine ⟨hnone, fun hconflict => hrow (row_of_conflict h hconflict), ?_⟩
    by_contra hno
    refine hrow ?_
    rw [h.row, filter_eq_nil_iff.2, foldl_nil]
    exact fun record hmem hn => hno ⟨record, hmem, of_decide_eq_true hn⟩
  · rintro ⟨hnone, hconflict, record, hmem, hn⟩
    have hin : record ∈ records.filter fun record => record.employeeNumber = n :=
      mem_filter.2 ⟨hmem, decide_eq_true hn⟩
    obtain ⟨first, rest, hrecords⟩ := exists_cons_of_ne_nil (ne_nil_of_mem hin)
    have hrow := row_of_created h hnone hconflict hrecords
    obtain ⟨x, hx, -⟩ := Option.map_eq_some_iff.1 hrow
    obtain ⟨hxmem, hxn⟩ := mem_of_lookup hx
    refine ⟨x, ⟨hxmem, fun hid => ?_⟩, hxn⟩
    obtain ⟨y, hy, hyid⟩ := hid
    obtain ⟨y', hy', hid', -⟩ := h.find_of_some (lookup_eq_some hsound.numbers hy)
    obtain ⟨hymem, hyn⟩ := mem_of_lookup hy'
    obtain rfl := eq_of_key_eq hsound'.ids hymem hxmem (hid'.trans hyid)
    have hfind : findByEmployeeNumber db.tables n = some y := by
      rw [← hxn, hyn]
      exact lookup_eq_some hsound.numbers hy
    rw [hnone] at hfind
    cases hfind

theorem mem_updated (hsound : db.Sound) :
    n ∈ (updated db db').map (·.columns.employeeNumber) ↔
      n ∉ (buildReport db.tables unitFails records).conflictNumbers ∧
        n ∈ (buildReport db.tables unitFails records).updateNumbers := by
  simp only [updated, mem_map, mem_filter, decide_eq_true_eq]
  constructor
  · rintro ⟨x, ⟨hx, hwritten⟩, rfl⟩
    have hfind : findByEmployeeNumber db.tables x.columns.employeeNumber = some x :=
      lookup_eq_some hsound.numbers hx
    constructor
    · exact fun hconflict => hwritten (h.stamp_of_left hfind (.inl hconflict))
    · by_contra hupdate
      exact hwritten (h.stamp_of_left hfind (.inr (.inl hupdate)))
  · rintro ⟨hconflict, hupdate⟩
    obtain ⟨⟨x, hx⟩, hrecord⟩ := exists_find_of_mem_updateNumbers hupdate
    have hlater := h.stamp_of_updated hx hconflict hupdate hrecord
    obtain ⟨hmem, hn⟩ := mem_of_lookup hx
    have hbefore := hsound.stamps x hmem
    exact ⟨x, ⟨hmem, by omega⟩, hn⟩

theorem mem_creates_of_mem_created (hsound : db.Sound)
    (hn : n ∈ (created db db').map (·.columns.employeeNumber)) :
    n ∈ numbersWith Entry.isCreate db.tables unitFails records.zipIdx := by
  obtain ⟨hnone, hconflict, record, hmem, rfl⟩ := (mem_created h hsound).1 hn
  obtain ⟨p, hp, rfl⟩ := exists_mem_zipIdx hmem
  refine mem_numbersWith.2 ⟨p, hp, isCreate_entryOf.2 ⟨?_, hnone⟩, rfl⟩
  by_contra hrefers
  exact hconflict (mem_conflictNumbers.2 ⟨p, hp, hrefers, rfl⟩)

theorem nodup_created (hsound : db.Sound) :
    ((created db db').map (·.columns.employeeNumber)).Nodup :=
  (h.sound hsound).numbers.sublist (filter_sublist.map _)

/-- As many employees are created as the report says exactly when they are those of the report. -/
theorem length_created_iff (hsound : db.Sound) :
    (created db db').length = (buildReport db.tables unitFails records).creates.length ↔
      ((created db db').map (·.columns.employeeNumber)).Perm
        (numbersWith Entry.isCreate db.tables unitFails records.zipIdx) := by
  have hsubset : (created db db').map (·.columns.employeeNumber) ⊆
      numbersWith Entry.isCreate db.tables unitFails records.zipIdx :=
    fun n hn => mem_creates_of_mem_created h hsound hn
  rw [creates_buildReport, ← length_map (·.columns.employeeNumber)]
  exact length_eq_iff_perm (nodup_created h hsound) hsubset

theorem length_updated_iff (hsound : db.Sound) :
    (updated db db').length = (buildReport db.tables unitFails records).updates.length ↔
      ((updated db db').map (·.columns.employeeNumber)).Perm
        (numbersWith Entry.isUpdate db.tables unitFails records.zipIdx) := by
  have hsubset : (updated db db').map (·.columns.employeeNumber) ⊆
      numbersWith Entry.isUpdate db.tables unitFails records.zipIdx := by
    intro n hn
    rw [← updateNumbers_buildReport]
    exact ((mem_updated h hsound).1 hn).2
  have hlength : (buildReport db.tables unitFails records).updates.length =
      (numbersWith Entry.isUpdate db.tables unitFails records.zipIdx).length := by
    rw [← updateNumbers_buildReport, DiffReport.updateNumbers, length_map]
  rw [hlength, ← length_map (·.columns.employeeNumber)]
  exact length_eq_iff_perm (nodup_updated hsound) hsubset

include hfresh

theorem refers_iff (hmem : record ∈ records) :
    Refers db'.tables fails record ↔ Refers db.tables fails record := by
  refine ⟨fun hrefers => ⟨hrefers.1, ?_, fun m hm => ?_⟩, refers_of_refers h⟩
  · rw [Org.State.findById, ← h.units]
    exact hrefers.2.1
  · rw [State.findById, lookup_isSome]
    exact (h.mem_ids (lookup_isSome.1 (hrefers.2.2 m hm))).resolve_right (hfresh record hmem m hm)

end

/-- A record that the report counts has had its org unit looked up. -/
theorem counts_of_entryOf {s : State}
    (h : (entryOf s fails record).isCreate ∨ (entryOf s fails record).isUpdate) :
    fails = false ∧ Counts s record := by
  have hfails : fails = false := by
    rcases h with hcreate | hupdate
    · exact (isCreate_entryOf.1 hcreate).1.1
    · exact (isUpdate_entryOf.1 hupdate).1.1
  subst hfails
  exact ⟨rfl, h⟩

theorem numbersWith_eq_nil {kind : Entry → Bool} {s : State} :
    numbersWith kind s unitFails records.zipIdx = [] ↔
      ∀ p ∈ records.zipIdx, ¬ kind (entryOf s (unitFails p.2) p.1) = true := by
  rw [numbersWith, map_eq_nil_iff, filter_eq_nil_iff]

theorem updates_eq_nil {s : State} : (buildReport s unitFails records).updates = [] ↔
    ∀ p ∈ records.zipIdx, ¬ (entryOf s (unitFails p.2) p.1).isUpdate = true := by
  have hnil := @numbersWith_eq_nil unitFails records Entry.isUpdate s
  rw [← hnil, ← updateNumbers_buildReport, DiffReport.updateNumbers, map_eq_nil_iff]

/-- When every new report says nothing, no record counts any more. -/
theorem AsPreviewed.not_counts {report : DiffReport} (h : AsPreviewed records report db db')
    (hmem : record ∈ records) : ¬ Counts db'.tables record := by
  obtain ⟨p, hp, rfl⟩ := exists_mem_zipIdx hmem
  rintro (hcreate | hupdate)
  · have hagain := h.createsAgain fun _ => false
    rw [creates_buildReport, numbersWith_eq_nil] at hagain
    exact hagain p hp hcreate
  · exact updates_eq_nil.1 (h.updatesAgain fun _ => false) p hp hupdate

theorem diff_isEmpty_of_row {columns : EmployeeColumns} (hrefers : Refers db.tables false record)
    (hrow : db.rowOf record.employeeNumber = some columns) (hno : ¬ Counts db.tables record) :
    (diffEmployeeRecord columns record).isEmpty := by
  obtain ⟨x, hx, rfl⟩ := Option.map_eq_some_iff.1 hrow
  by_contra hdiff
  exact hno (.inr (isUpdate_entryOf.2 ⟨hrefers, x, hx, hdiff⟩))

/-- A record whose number has what it had still counts. -/
theorem counts_of_row
    (h : Commits (buildReport db.tables unitFails records) generated records db db')
    (hcounts : Counts db.tables record)
    (hrow : db'.rowOf record.employeeNumber = db.rowOf record.employeeNumber) :
    Counts db'.tables record := by
  rcases hcounts with hcreate | hupdate
  · obtain ⟨hrefers, hnone⟩ := isCreate_entryOf.1 hcreate
    rw [rowOf_eq_none.2 hnone, rowOf_eq_none] at hrow
    exact .inl (isCreate_entryOf.2 ⟨refers_of_refers h hrefers, hrow⟩)
  · obtain ⟨hrefers, x, hx, hdiff⟩ := isUpdate_entryOf.1 hupdate
    obtain ⟨y, hy, -⟩ := h.find_of_some hx
    rw [Db.rowOf, Db.rowOf, hx, hy] at hrow
    have hcolumns : y.columns = x.columns := Option.some.inj hrow
    exact .inr (isUpdate_entryOf.2 ⟨refers_of_refers h hrefers, y, hy, hcolumns ▸ hdiff⟩)

section Kept

variable (hsound : db.Sound)
  (h : Commits (buildReport db.tables unitFails records) generated records db db')
  (hagain : ∀ record ∈ records, ¬ Counts db'.tables record)

include hsound h hagain

theorem settled_of_created
    (hcreates : ((created db db').map (·.columns.employeeNumber)).Perm
      (numbersWith Entry.isCreate db.tables unitFails records.zipIdx))
    (hp : p ∈ records.zipIdx) (hcreate : (entryOf db.tables (unitFails p.2) p.1).isCreate = true) :
    (records.countP fun other => other.employeeNumber = p.1.employeeNumber) = 1 ∧ p.1.Settles := by
  have hmem := fst_mem_of_mem_zipIdx hp
  have hin : p.1.employeeNumber ∈ numbersWith Entry.isCreate db.tables unitFails records.zipIdx :=
    mem_numbersWith.2 ⟨p, hp, hcreate, rfl⟩
  obtain ⟨hnone, hconflict, -⟩ := (mem_created h hsound).1 (hcreates.mem_iff.2 hin)
  have hone := countP_eq_one (hcreates.nodup_iff.1 (nodup_created h hsound)) hp hcreate
    fun q hq hn => by
      refine isCreate_entryOf.2 ⟨?_, hn ▸ hnone⟩
      by_contra hrefers
      exact hconflict (mem_conflictNumbers.2 ⟨q, hq, hrefers, hn⟩)
  have hrow := row_of_created h hnone hconflict (filter_eq_singleton hmem hone)
  have hrefers := refers_of_refers h (isCreate_entryOf.1 hcreate).1.lookedUp
  exact ⟨hone, diff_newColumns.1 (diff_isEmpty_of_row hrefers hrow (hagain p.1 hmem))⟩

theorem settled_of_updated
    (hupdates : ((updated db db').map (·.columns.employeeNumber)).Perm
      (numbersWith Entry.isUpdate db.tables unitFails records.zipIdx))
    (hp : p ∈ records.zipIdx) (hupdate : (entryOf db.tables (unitFails p.2) p.1).isUpdate = true) :
    (records.countP fun other => other.employeeNumber = p.1.employeeNumber) = 1 ∧ p.1.Settles := by
  have hmem := fst_mem_of_mem_zipIdx hp
  have hin : p.1.employeeNumber ∈ numbersWith Entry.isUpdate db.tables unitFails records.zipIdx :=
    mem_numbersWith.2 ⟨p, hp, hupdate, rfl⟩
  obtain ⟨hconflict, hnumber⟩ := (mem_updated h hsound).1 (hupdates.mem_iff.2 hin)
  obtain ⟨hrefers, x, hx, hdiff⟩ := isUpdate_entryOf.1 hupdate
  obtain ⟨y, hy, -⟩ := h.find_of_some hx
  have hy' : db'.rowOf p.1.employeeNumber = some y.columns := by
    rw [Db.rowOf, hy]
    rfl
  have hrefers' := refers_of_refers h hrefers.lookedUp
  have hsame := diff_isEmpty_of_row hrefers' hy' (hagain p.1 hmem)
  have hnodup : (numbersWith Entry.isUpdate db.tables unitFails records.zipIdx).Nodup :=
    hupdates.nodup_iff.1 (nodup_updated hsound)
  -- a record that changed nothing before would have something to change back
  have hone := countP_eq_one hnodup hp hupdate fun q hq hn => by
    have hothers : Refers db.tables (unitFails q.2) q.1 := by
      by_contra hno
      exact hconflict (mem_conflictNumbers.2 ⟨q, hq, hno, hn⟩)
    refine isUpdate_entryOf.2 ⟨hothers, x, hn ▸ hx, fun hempty => hdiff ?_⟩
    refine diff_isEmpty_of_isEmpty hsame ?_ hempty
    exact diff_isEmpty_of_row (refers_of_refers h hothers.lookedUp) (hn ▸ hy')
      (hagain q.1 (fst_mem_of_mem_zipIdx hq))
  have hlast :
      (records.filter fun other => other.employeeNumber = p.1.employeeNumber).getLast? =
        some p.1 := by
    rw [filter_eq_singleton hmem hone]
    rfl
  have hrow := row_of_updated h hx hconflict hnumber hlast
  exact ⟨hone, diff_columnsOver.1 (diff_isEmpty_of_row hrefers' hrow (hagain p.1 hmem))⟩

omit hsound in
/-- A record whose org unit could not be looked up is left out, so that it would count again. -/
theorem lookedUp_of_counts (hp : p ∈ records.zipIdx) (hcounts : Counts db.tables p.1) :
    unitFails p.2 = false := by
  by_contra hfails
  refine hagain p.1 (fst_mem_of_mem_zipIdx hp) (counts_of_row h hcounts ?_)
  exact row_of_conflict h (mem_conflictNumbers.2 ⟨p, hp, fun hrefers => hfails hrefers.1, rfl⟩)

end Kept

theorem settled_of_asPreviewed (hsound : db.Sound)
    (h : Commits (buildReport db.tables unitFails records) generated records db db')
    (hkept : AsPreviewed records (buildReport db.tables unitFails records) db db') :
    Settled db.tables unitFails records := by
  have hagain := fun record => @AsPreviewed.not_counts records record db db' _ hkept
  intro p hp hcounts
  have hlookedUp := lookedUp_of_counts h hagain hp hcounts
  refine ⟨hlookedUp, ?_⟩
  rcases hcounts with hcreate | hupdate
  · have hcreates := (length_created_iff h hsound).1 hkept.creates
    exact settled_of_created hsound h hagain hcreates hp (hlookedUp ▸ hcreate)
  · have hupdates := (length_updated_iff h hsound).1 hkept.updates
    exact settled_of_updated hsound h hagain hupdates hp (hlookedUp ▸ hupdate)

section

variable (hsettled : Settled db.tables unitFails records)

include hsettled

/-- A record that is counted is the only one of its number, and that number has no conflict. -/
theorem not_conflict_of_settled (hp : p ∈ records.zipIdx) (hcounts : Counts db.tables p.1) :
    p.1.employeeNumber ∉ (buildReport db.tables unitFails records).conflictNumbers := by
  obtain ⟨hlookedUp, hone, -⟩ := hsettled p hp hcounts
  intro hconflict
  obtain ⟨q, hq, hrefers, hn⟩ := mem_conflictNumbers.1 hconflict
  obtain rfl := eq_of_countP hp hone hq hn
  refine hrefers ?_
  rw [hlookedUp]
  rcases hcounts with hcreate | hupdate
  · exact (isCreate_entryOf.1 hcreate).1
  · exact (isUpdate_entryOf.1 hupdate).1

theorem nodup_numbersWith_of_settled {kind : Entry → Bool}
    (hkind : ∀ entry, kind entry = true → entry.isCreate ∨ entry.isUpdate) :
    (numbersWith kind db.tables unitFails records.zipIdx).Nodup :=
  nodup_numbersWith fun p hp h => (hsettled p hp (counts_of_entryOf (hkind _ h)).2).2.1

theorem created_perm_of_settled (hsound : db.Sound)
    (h : Commits (buildReport db.tables unitFails records) generated records db db') :
    ((created db db').map (·.columns.employeeNumber)).Perm
      (numbersWith Entry.isCreate db.tables unitFails records.zipIdx) := by
  rw [perm_ext_iff_of_nodup (nodup_created h hsound)
    (nodup_numbersWith_of_settled hsettled fun _ => .inl)]
  refine fun n => ⟨mem_creates_of_mem_created h hsound, fun hn => ?_⟩
  obtain ⟨p, hp, hcreate, rfl⟩ := mem_numbersWith.1 hn
  have hconflict := not_conflict_of_settled hsettled hp (counts_of_entryOf (.inl hcreate)).2
  exact (mem_created h hsound).2 ⟨(isCreate_entryOf.1 hcreate).2, hconflict, p.1,
    fst_mem_of_mem_zipIdx hp, rfl⟩

theorem updated_perm_of_settled (hsound : db.Sound)
    (h : Commits (buildReport db.tables unitFails records) generated records db db') :
    ((updated db db').map (·.columns.employeeNumber)).Perm
      (numbersWith Entry.isUpdate db.tables unitFails records.zipIdx) := by
  rw [perm_ext_iff_of_nodup (nodup_updated hsound)
    (nodup_numbersWith_of_settled hsettled fun _ => .inr)]
  intro n
  rw [mem_updated h hsound, updateNumbers_buildReport]
  refine ⟨fun hn => hn.2, fun hn => ⟨?_, hn⟩⟩
  obtain ⟨p, hp, hupdate, rfl⟩ := mem_numbersWith.1 hn
  exact not_conflict_of_settled hsettled hp (counts_of_entryOf (.inr hupdate)).2

theorem diff_isEmpty_of_settled
    (h : Commits (buildReport db.tables unitFails records) generated records db db')
    (hp : p ∈ records.zipIdx) (hrefers : Refers db.tables false p.1) :
    ∃ columns, db'.rowOf p.1.employeeNumber = some columns ∧
      (diffEmployeeRecord columns p.1).isEmpty := by
  have hmem := fst_mem_of_mem_zipIdx hp
  cases hx : findByEmployeeNumber db.tables p.1.employeeNumber with
  | none =>
    have hcounts : Counts db.tables p.1 := .inl (isCreate_entryOf.2 ⟨hrefers, hx⟩)
    obtain ⟨-, hone, hsettles⟩ := hsettled p hp hcounts
    have hconflict := not_conflict_of_settled hsettled hp hcounts
    exact ⟨_, row_of_created h hx hconflict (filter_eq_singleton hmem hone),
      diff_newColumns.2 hsettles⟩
  | some x =>
    by_cases hdiff : (diffEmployeeRecord x.columns p.1).isEmpty = true
    · have hupdate :
          p.1.employeeNumber ∉ (buildReport db.tables unitFails records).updateNumbers := by
        intro hn
        obtain ⟨q, hq, hupdate, hn⟩ := mem_updateNumbers.1 hn
        obtain ⟨-, hone, -⟩ := hsettled q hq (counts_of_entryOf (.inr hupdate)).2
        obtain rfl := eq_of_countP hq hone hp hn.symm
        obtain ⟨-, y, hy, hne⟩ := isUpdate_entryOf.1 hupdate
        obtain rfl := Option.some.inj (hx.symm.trans hy)
        exact hne hdiff
      refine ⟨x.columns, ?_, hdiff⟩
      rw [row_of_unchanged h hx hupdate, Db.rowOf, hx]
      rfl
    · have hupdate := isUpdate_entryOf.2 ⟨hrefers, x, hx, hdiff⟩
      obtain ⟨hlookedUp, hone, hsettles⟩ := hsettled p hp (.inr hupdate)
      have hconflict := not_conflict_of_settled hsettled hp (.inr hupdate)
      refine ⟨_, row_of_updated h hx hconflict
        (mem_updateNumbers.2 ⟨p, hp, hlookedUp ▸ hupdate, rfl⟩) ?_, diff_columnsOver.2 hsettles⟩
      rw [filter_eq_singleton hmem hone]
      rfl

theorem asPreviewed_of_settled (hsound : db.Sound)
    (hfresh : ∀ record ∈ records, ∀ m, record.managerEmployeeId = some m → m.id ∉ generated)
    (h : Commits (buildReport db.tables unitFails records) generated records db db') :
    AsPreviewed records (buildReport db.tables unitFails records) db db' where
  creates := (length_created_iff h hsound).2 (created_perm_of_settled hsettled hsound h)
  updates := (length_updated_iff h hsound).2 (updated_perm_of_settled hsettled hsound h)
  createsAgain := by
    intro _
    rw [creates_buildReport, numbersWith_eq_nil]
    intro p hp hcreate
    obtain ⟨hrefers, hnone⟩ := isCreate_entryOf.1 hcreate
    obtain ⟨columns, hrow, -⟩ := diff_isEmpty_of_settled hsettled h hp
      ((refers_iff h hfresh (fst_mem_of_mem_zipIdx hp)).1 hrefers.lookedUp)
    rw [rowOf_eq_none.2 hnone] at hrow
    cases hrow
  updatesAgain := by
    intro _
    rw [updates_eq_nil]
    intro p hp hupdate
    obtain ⟨hrefers, x, hx, hdiff⟩ := isUpdate_entryOf.1 hupdate
    obtain ⟨columns, hrow, hempty⟩ := diff_isEmpty_of_settled hsettled h hp
      ((refers_iff h hfresh (fst_mem_of_mem_zipIdx hp)).1 hrefers.lookedUp)
    obtain ⟨y, hy, rfl⟩ := Option.map_eq_some_iff.1 hrow
    obtain rfl := Option.some.inj (hx.symm.trans hy)
    exact hdiff hempty

end

end Completed

/-! ## The result -/

/-- An import that completes does what its report says exactly when the records that create or
change an employee are settled. One that fails leaves the employees as they were exactly when none
of its transactions is done: the report, the flag or the first transaction fails, or no record is
applied. -/
theorem import_asPreviewed_iff {maxEmployees : Option ℕ} {destructiveEnabled dryRun : Bool}
    {w : JobWeather} {records : List BulkImportRecord} {db : Db} (hsound : db.Sound)
    (hfresh : ∀ record ∈ records, ∀ m, record.managerEmployeeId = some m →
      ∀ i, m.id ≠ (w.commit i).newId) :
    match processImport maxEmployees destructiveEnabled w records dryRun db with
    | (.completed report, db') =>
      dryRun = false → (AsPreviewed records report db db' ↔ Settled db.tables w.unitFails records)
    | (.failed, db') =>
      Unchanged db db' ↔
        w.reportFails ∨ dryRun ∨ w.flagFails ∨ destructiveEnabled = false ∨
          Spared maxEmployees (buildReport db.tables w.unitFails records) w.commit db 0
            records := by
  have hsame : Unchanged db db := ⟨rfl, fun _ _ => rfl⟩
  unfold processImport
  by_cases hreport : w.reportFails
  · simp [hreport, hsame]
  by_cases hdry : dryRun
  · by_cases hcompletion : w.completionFails <;> simp [hreport, hdry, hcompletion, hsame]
  by_cases hflag : w.flagFails || !destructiveEnabled
  · have hflag' : w.flagFails ∨ destructiveEnabled = false := by simpa using hflag
    simp only [hreport, hdry, hflag, if_true]
    exact iff_of_true hsame (.inr (.inr (hflag'.imp_right .inl)))
  have hflag' : ¬ w.flagFails ∧ ¬ destructiveEnabled = false := by simpa using hflag
  simp only [hreport, hdry, hflag]
  cases hcommit : commitFrom maxEmployees (buildReport db.tables w.unitFails records) w.commit 0
      records ⟨0, 0⟩ db with
  | mk result db' =>
    have hspared := commitFrom_unchanged_iff hsound hcommit
    cases result with
    | error e => simpa [hreport, hdry, hflag'.1, hflag'.2] using hspared
    | ok committed =>
      by_cases hafter : w.completionFails || w.auditFails
      · simpa [hreport, hdry, hflag'.1, hflag'.2, hafter] using hspared
      · have hcommits := commits_of_commitFrom hsound hcommit
        have hgenerated : ∀ record ∈ records, ∀ m, record.managerEmployeeId = some m →
            m.id ∉ Set.range fun i => (w.commit i).newId := by
          rintro record hmem m hm ⟨i, hi⟩
          exact hfresh record hmem m hm i hi.symm
        simp only [hafter, Bool.false_eq_true, if_false]
        intro _
        constructor
        · rintro ⟨hcreates, hupdates, hcreates', hupdates'⟩
          exact settled_of_asPreviewed hsound hcommits ⟨hcreates, hupdates, hcreates', hupdates'⟩
        · intro hsettled
          obtain ⟨hcreates, hupdates, hcreates', hupdates'⟩ :=
            asPreviewed_of_settled hsettled hsound hgenerated hcommits
          exact ⟨hcreates, hupdates, hcreates', hupdates'⟩

/-! ## Three imports -/

/-- One unit with one employee. -/
def office : Db where
  tables :=
    { org := ⟨100, [⟨1, ⟨none, .department, "Support", "UTC", "DE", .active⟩, [1], 0⟩], []⟩
      employees := [⟨7, ⟨1, "E-7", .fullTime, 4000, none, none, .active⟩, 0, none, 0⟩]
      history := [⟨7, 0, none, ⟨1, "E-7", .fullTime, 4000, none, none, .active⟩⟩] }
  updatedAt := fun _ => 0

def fullTime (employeeNumber : String) (contractHoursPerWeek : ℚ) : BulkImportRecord :=
  ⟨employeeNumber, .ofId 1, .fullTime, contractHoursPerWeek, 0, none, none⟩

/-- Nothing fails, but the transaction at the given index. -/
def weatherWith (failing : Option ℕ) : JobWeather where
  unitFails := fun _ => false
  reportFails := false
  flagFails := false
  completionFails := false
  auditFails := false
  commit := fun i => ⟨⟨0, failing = some i⟩, ⟨0, failing = some i⟩, 100 + i⟩

theorem office_sound : office.Sound where
  ids := by decide
  numbers := by decide
  stamps := by decide

/-- The report lists a new employee twice. It is created once. Of two new employees, the first one
is created although the import fails at the second. -/
theorem import_not_asPreviewed :
    (∃ report,
      (processImport none true (weatherWith none) [fullTime "E-8" 40, fullTime "E-8" 40] false
        office).1 = .completed report ∧
      ¬ AsPreviewed [fullTime "E-8" 40, fullTime "E-8" 40] report office
        (processImport none true (weatherWith none) [fullTime "E-8" 40, fullTime "E-8" 40] false
          office).2) ∧
    (processImport none true (weatherWith (some 1)) [fullTime "E-8" 40, fullTime "E-9" 40] false
      office).1 = .failed ∧
    ¬ Unchanged office
      (processImport none true (weatherWith (some 1)) [fullTime "E-8" 40, fullTime "E-9" 40] false
        office).2 := by
  refine ⟨⟨⟨["E-8", "E-8"], [], [], some ⟨1, 0⟩⟩, by decide +kernel, fun h => ?_⟩,
    by decide +kernel, fun h => ?_⟩
  · exact absurd h.creates (by decide +kernel)
  · exact absurd h.1 (by decide +kernel)

/-- An employee is created and another one updated, as the report says. -/
theorem office_asPreviewed : ∃ report,
    (processImport none true (weatherWith none) [fullTime "E-8" (75 / 2), fullTime "E-7" 20] false
      office).1 = .completed report ∧
    AsPreviewed [fullTime "E-8" (75 / 2), fullTime "E-7" 20] report office
      (processImport none true (weatherWith none) [fullTime "E-8" (75 / 2), fullTime "E-7" 20] false
        office).2 := by
  have hresult := @import_asPreviewed_iff none true false (weatherWith none)
    [fullTime "E-8" (75 / 2), fullTime "E-7" 20] office office_sound
    (by simp [fullTime])
  cases himport : processImport none true (weatherWith none)
      [fullTime "E-8" (75 / 2), fullTime "E-7" 20] false office with
  | mk status db' =>
    have hstatus : (processImport none true (weatherWith none)
        [fullTime "E-8" (75 / 2), fullTime "E-7" 20] false office).1 =
        .completed ⟨["E-8"], [("E-7", ⟨none, none, some ⟨40, 20⟩, none, none⟩)], [],
          some ⟨1, 1⟩⟩ := by decide +kernel
    rw [himport] at hstatus hresult
    obtain rfl : status = _ := hstatus
    exact ⟨_, rfl, (hresult rfl).2 (by decide +kernel)⟩

end Workforce.Employees.BulkImport
