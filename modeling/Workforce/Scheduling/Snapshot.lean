import Mathlib.Data.BitVec
import Mathlib.Data.Finset.Sort
import Workforce.Foundations.FixedWidth
import Workforce.Foundations.Json
import Workforce.Scheduling.Types

/-!
# The snapshot of a solve input

`app/services/solve_input_serde.py`: the solve input of an infeasible job is kept as JSON, and an
approved relaxation is solved again from there. The texts of ids, dates and times are those of
`str(uuid)` and `isoformat`; of the spellings that `uuid.UUID` and `fromisoformat` accept, the
readers know those.

* `deserialize_serialize`: reading a snapshot gives back the input, less the sites of its employees
  and shifts, which are not written.
* `deserialize_serialize_iff`: so it gives back the input itself exactly when there are no sites.
-/

namespace Workforce.Scheduling

open Calendar FixedWidth List

/-! ## Texts of ids, dates and times -/

/-- `str(id)`: 32 hexadecimal digits in groups of 8, 4, 4, 4 and 12. -/
def uuidStr (id : UUID) : String :=
  let hex := digits 16 32 id.toNat
  .ofList (hex.take 8 ++ '-' :: (hex.drop 8).take 4 ++ '-' :: (hex.drop 12).take 4 ++
    '-' :: (hex.drop 16).take 4 ++ '-' :: hex.drop 20)

/-- `uuid.UUID(text)`: 32 hexadecimal digits, wherever the hyphens are. -/
def uuidOfStr (text : String) : Except Json.Error UUID :=
  match number 16 32 (text.toList.filter (· ≠ '-')) with
  | some (n, []) => .ok (.ofNat 128 n)
  | _ => .error .valueError

/-- `YYYY-MM-DD`. -/
def dateChars (date : ℤ) : List Char :=
  let c := civil date
  digits 10 4 c.year.toNat ++ '-' :: digits 10 2 c.month.toNat ++ '-' :: digits 10 2 c.day.toNat

/-- `date.isoformat()`. -/
def dateIsoformat (date : ℤ) : String := .ofList (dateChars date)

/-- Reads a date off the front of a text; it has to exist. -/
def readDate (cs : List Char) : Option (ℤ × List Char) := do
  let (year, cs) ← number 10 4 cs
  let cs ← literal '-' cs
  let (month, cs) ← number 10 2 cs
  let cs ← literal '-' cs
  let (day, cs) ← number 10 2 cs
  let date := ofCivil ⟨year, month, day⟩
  if 1 ≤ year ∧ civil date = ⟨year, month, day⟩ then some (date, cs) else none

/-- `date.fromisoformat(text)`. -/
def dateFromisoformat (text : String) : Except Json.Error ℤ :=
  match readDate text.toList with
  | some (date, []) => .ok date
  | _ => .error .valueError

/-- `HH:MM`. -/
def clockChars (micros : ℕ) : List Char :=
  digits 10 2 (micros / 3600000000) ++ ':' :: digits 10 2 (micros / 60000000 % 60)

/-- `SS`, with the microseconds unless there are none. -/
def secondChars (micros : ℕ) : List Char :=
  digits 10 2 (micros / 1000000 % 60) ++
    if micros % 1000000 = 0 then [] else '.' :: digits 10 6 (micros % 1000000)

/-- `HH:MM`, with the seconds unless there are none. -/
def unsignedOffsetChars (micros : ℕ) : List Char :=
  clockChars micros ++ if micros % 60000000 = 0 then [] else ':' :: secondChars micros

/-- `+HH:MM` or `-HH:MM`, with the seconds unless there are none. -/
def offsetChars (offset : ℤ) : List Char :=
  (if offset < 0 then '-' else '+') :: unsignedOffsetChars offset.natAbs

/-- Microseconds since midnight. -/
def DateTime.timeOfDay (t : DateTime) : ℕ := (t.wall % (24 * microsPerHour)).toNat

/-- `datetime.isoformat()`. -/
def DateTime.isoformat (t : DateTime) : String :=
  .ofList (dateChars t.date ++ 'T' :: clockChars t.timeOfDay ++ ':' :: secondChars t.timeOfDay ++
    offsetChars t.utcOffset)

def readClock (cs : List Char) : Option (ℕ × List Char) := do
  let (hours, cs) ← number 10 2 cs
  let cs ← literal ':' cs
  let (minutes, cs) ← number 10 2 cs
  if hours < 24 ∧ minutes < 60 then some (hours * 3600000000 + minutes * 60000000, cs) else none

def readSeconds (cs : List Char) : Option (ℕ × List Char) := do
  let (seconds, cs) ← number 10 2 cs
  let (fraction, cs) ← match cs with
    | '.' :: cs => number 10 6 cs
    | cs => some (0, cs)
  if seconds < 60 then some (seconds * 1000000 + fraction, cs) else none

/-- Reads an offset without its sign, which ends the text. -/
def readUnsignedOffset (cs : List Char) : Option ℕ := do
  let (clock, cs) ← readClock cs
  let (seconds, cs) ← match cs with
    | ':' :: cs => readSeconds cs
    | cs => some (0, cs)
  if cs = [] then some (clock + seconds) else none

/-- Reads an offset from UTC. -/
def readOffset : List Char → Option ℤ
  | '-' :: cs => (readUnsignedOffset cs).map fun (micros : ℕ) => -(micros : ℤ)
  | '+' :: cs => (readUnsignedOffset cs).map fun (micros : ℕ) => (micros : ℤ)
  | _ => none

/-- `datetime.fromisoformat(text)`. -/
def DateTime.fromisoformat (text : String) : Except Json.Error DateTime :=
  let parsed := do
    let (date, cs) ← readDate text.toList
    let cs ← literal 'T' cs
    let (clock, cs) ← readClock cs
    let cs ← literal ':' cs
    let (seconds, cs) ← readSeconds cs
    let utcOffset ← readOffset cs
    some { wall := date * (24 * microsPerHour) + (clock + seconds : ℕ), utcOffset }
  match parsed with
  | some t => .ok t
  | none => .error .valueError

/-! ## Reading texts back -/

theorem uuidOfStr_uuidStr (id : UUID) : uuidOfStr (uuidStr id) = .ok id := by
  have hlt : id.toNat < 16 ^ 32 := id.isLt
  obtain ⟨hex, hhex⟩ : ∃ hex, hex = digits 16 32 id.toNat := ⟨_, rfl⟩
  have hself : ∀ l : List Char, l ⊆ hex → l.filter (· ≠ '-') = l := by
    intro l hl
    refine filter_eq_self.2 fun c hc => ?_
    have hne : c ≠ '-' := fun h => not_mem_digits le_rfl rfl hlt (hhex ▸ h ▸ hl hc)
    simpa using hne
  have hsplit : ∀ a b : ℕ, (hex.drop a).take b ++ hex.drop (a + b) = hex.drop a := by
    intro a b
    rw [← drop_drop, take_append_drop]
  have hfilter : (uuidStr id).toList.filter (· ≠ '-') = hex := by
    have hsub : ∀ a b : ℕ, ((hex.drop a).take b).filter (· ≠ '-') = (hex.drop a).take b :=
      fun a b => hself _ (Subset.trans (take_subset _ _) (drop_subset _ _))
    have hcons : ∀ l : List Char, ('-' :: l).filter (· ≠ '-') = l.filter (· ≠ '-') := by simp
    have hhead : (hex.take 8).filter (· ≠ '-') = hex.take 8 := hself _ (take_subset _ _)
    have hlast : (hex.drop 20).filter (· ≠ '-') = hex.drop 20 := hself _ (drop_subset _ _)
    simp only [uuidStr, ← hhex, String.toList_ofList, filter_append, cons_append,
      append_assoc, hcons, hsub, hhead, hlast]
    rw [hsplit 16 4, hsplit 12 4, hsplit 8 4, take_append_drop]
  rw [uuidOfStr, hfilter, hhex]
  have hread := number_digits le_rfl hlt []
  rw [append_nil] at hread
  rw [hread]
  simp

theorem readDate_dateChars {date : ℤ} (hmin : 1 ≤ (civil date).year)
    (hmax : (civil date).year ≤ 9999) (rest : List Char) :
    readDate (dateChars date ++ rest) = some (date, rest) := by
  obtain ⟨⟨hm₁, hm₂⟩, hd₁, hd₂⟩ := civil_bounds date
  have hyear : (civil date).year.toNat < 10 ^ 4 := by omega
  have hmonth : (civil date).month.toNat < 10 ^ 2 := by omega
  have hday : (civil date).day.toNat < 10 ^ 2 := by omega
  have hcivil : (⟨(civil date).year.toNat, (civil date).month.toNat, (civil date).day.toNat⟩ :
      Civil) = civil date := by
    rw [Int.toNat_of_nonneg (by omega), Int.toNat_of_nonneg (by omega),
      Int.toNat_of_nonneg (by omega)]
  have hpos : 1 ≤ (civil date).year.toNat := by omega
  simp only [readDate, dateChars, append_assoc, cons_append]
  rw [number_digits (by decide) hyear]
  simp only [Option.bind_eq_bind, Option.bind_some, literal_cons]
  rw [number_digits (by decide) hmonth]
  simp only [Option.bind_some, literal_cons]
  rw [number_digits (by decide) hday]
  simp only [Option.bind_some, hcivil, ofCivil_civil, hpos, and_self, if_true]

theorem dateFromisoformat_dateIsoformat {date : ℤ} (hmin : 1 ≤ (civil date).year)
    (hmax : (civil date).year ≤ 9999) : dateFromisoformat (dateIsoformat date) = .ok date := by
  have hread := readDate_dateChars hmin hmax []
  rw [append_nil] at hread
  rw [dateFromisoformat, dateIsoformat, String.toList_ofList, hread]

theorem readClock_clockChars {micros : ℕ} (h : micros < 86400000000) (rest : List Char) :
    readClock (clockChars micros ++ rest) = some (micros / 60000000 * 60000000, rest) := by
  have hhours : micros / 3600000000 < 10 ^ 2 := by omega
  have hminutes : micros / 60000000 % 60 < 10 ^ 2 := by omega
  have hvalid : micros / 3600000000 < 24 ∧ micros / 60000000 % 60 < 60 := by omega
  have hsum : micros / 3600000000 * 3600000000 + micros / 60000000 % 60 * 60000000 =
      micros / 60000000 * 60000000 := by omega
  simp only [readClock, clockChars, append_assoc, cons_append]
  rw [number_digits (by decide) hhours]
  simp only [Option.bind_eq_bind, Option.bind_some, literal_cons]
  rw [number_digits (by decide) hminutes]
  simp only [Option.bind_some, hvalid, and_self, if_true, hsum]

theorem readSeconds_secondChars (micros : ℕ) {rest : List Char} (hrest : rest.head? ≠ some '.') :
    readSeconds (secondChars micros ++ rest) = some (micros % 60000000, rest) := by
  have hseconds : micros / 1000000 % 60 < 10 ^ 2 := by omega
  have hfraction : micros % 1000000 < 10 ^ 6 := by omega
  have hvalid : micros / 1000000 % 60 < 60 := by omega
  simp only [readSeconds, secondChars, append_assoc]
  rw [number_digits (by decide) hseconds]
  simp only [Option.bind_eq_bind, Option.bind_some]
  by_cases hzero : micros % 1000000 = 0
  · have hsum : micros / 1000000 % 60 * 1000000 + 0 = micros % 60000000 := by omega
    cases rest with
    | nil => simp [hzero, hvalid, hsum]
    | cons c rest =>
      have hc : c ≠ '.' := by simpa using hrest
      simp [hzero, hvalid, hsum, hc]
  · have hsum : micros / 1000000 % 60 * 1000000 + micros % 1000000 = micros % 60000000 := by omega
    simp only [hzero, if_false, cons_append]
    rw [number_digits (by decide) hfraction]
    simp only [Option.bind_some, hvalid, if_true, hsum]

theorem readUnsignedOffset_unsignedOffsetChars {micros : ℕ} (h : micros < 86400000000) :
    readUnsignedOffset (unsignedOffsetChars micros) = some micros := by
  simp only [readUnsignedOffset, unsignedOffsetChars]
  rw [readClock_clockChars h]
  simp only [Option.bind_eq_bind, Option.bind_some]
  by_cases hzero : micros % 60000000 = 0
  · have hsum : micros / 60000000 * 60000000 = micros := by omega
    simp [hzero, hsum]
  · have hsum : micros / 60000000 * 60000000 + micros % 60000000 = micros := by omega
    have hseconds := @readSeconds_secondChars micros [] (by simp)
    rw [append_nil] at hseconds
    simp [hzero, hseconds, hsum]

theorem readOffset_offsetChars {offset : ℤ} (h : offset.natAbs < 86400000000) :
    readOffset (offsetChars offset) = some offset := by
  have hread := readUnsignedOffset_unsignedOffsetChars h
  by_cases hneg : offset < 0
  · have habs : -(offset.natAbs : ℤ) = offset := by omega
    simp only [offsetChars, hneg, if_true, readOffset, hread, Option.map_some, habs]
  · have habs : (offset.natAbs : ℤ) = offset := by omega
    simp only [offsetChars, hneg, if_false, readOffset, hread, Option.map_some, habs]

theorem DateTime.fromisoformat_isoformat {t : DateTime} (hmin : 1 ≤ (civil t.date).year)
    (hmax : (civil t.date).year ≤ 9999) (hoffset : t.utcOffset.natAbs < 86400000000) :
    DateTime.fromisoformat t.isoformat = .ok t := by
  have hday : t.timeOfDay < 86400000000 := by
    simp only [DateTime.timeOfDay, microsPerHour]
    omega
  have hsign : (offsetChars t.utcOffset).head? ≠ some '.' := by
    simp only [offsetChars, head?_cons]
    split <;> decide
  have hwall : t.date * (24 * microsPerHour) +
      ((t.timeOfDay / 60000000 * 60000000 + t.timeOfDay % 60000000 : ℕ) : ℤ) = t.wall := by
    rw [Nat.div_add_mod']
    simp only [DateTime.timeOfDay, DateTime.date, microsPerHour]
    omega
  simp only [DateTime.fromisoformat, DateTime.isoformat, String.toList_ofList, append_assoc,
    cons_append]
  rw [readDate_dateChars hmin hmax]
  simp only [Option.bind_eq_bind, Option.bind_some, literal_cons]
  rw [readClock_clockChars hday]
  simp only [Option.bind_some, literal_cons]
  rw [readSeconds_secondChars _ hsign]
  simp only [Option.bind_some]
  rw [readOffset_offsetChars hoffset]
  simp only [Option.bind_some, hwall]

/-! ## Writing a snapshot -/

def serializeSkill (skill : EmployeeSkill) : Json :=
  .obj [("skillId", .str (uuidStr skill.skillId)),
    ("expiresAt", Json.ofOption (fun d => .str (dateIsoformat d)) skill.expiresAt),
    ("decayScore", .num skill.decayScore)]

/-- `_serialize_employee`. The site of the employee is not written. -/
def serializeEmployee (employee : Employee) : Json :=
  .obj [("id", .str (uuidStr employee.id)),
    ("contractHoursPerWeek", .num employee.contractHoursPerWeek),
    ("overtimeApproved", .bool employee.overtimeApproved),
    ("skills", .arr (employee.skills.map serializeSkill)),
    -- The source writes them in the order of the set, which nothing reads.
    ("preferredShiftIds", .arr (employee.preferredShiftIds.sort.map fun id => .str (uuidStr id)))]

/-- `_serialize_shift`. The site of the shift is not written. -/
def serializeShift (shift : ShiftSlot) : Json :=
  .obj [("id", .str (uuidStr shift.id)),
    ("start", .str shift.start.isoformat),
    ("end", .str shift.fin.isoformat),
    ("requiredHeadcount", .num shift.requiredHeadcount),
    ("requiredSkillId", Json.ofOption (fun id => .str (uuidStr id)) shift.requiredSkillId),
    ("breakMinutes", .num shift.breakMinutes)]

/-- `_serialize_policy`. -/
def serializePolicy (policy : EmploymentPolicy) : Json :=
  .obj [("maxConsecutiveWorkingDays", .num policy.maxConsecutiveWorkingDays),
    ("minRestHoursBetweenShifts", .num policy.minRestHoursBetweenShifts),
    ("minShiftLengthMinutes", .num policy.minShiftLengthMinutes),
    ("maxShiftLengthMinutes", Json.ofOption (fun n => .num (n : ℤ)) policy.maxShiftLengthMinutes),
    ("mandatoryBreakAfterHours", Json.ofOption .num policy.mandatoryBreakAfterHours),
    ("mandatoryBreakMinutes", Json.ofOption (fun n => .num (n : ℤ)) policy.mandatoryBreakMinutes)]

/-- `_serialize_leave`. -/
def serializeLeave (record : LeaveRecord) : Json :=
  .obj [("employeeId", .str (uuidStr record.employeeId)),
    ("start", .str (dateIsoformat record.start)),
    ("end", .str (dateIsoformat record.fin))]

/-- `_serialize_fairness`. -/
def serializeFairness (fairness : FairnessConfig) : Json :=
  .obj [("rollingPeriodWeeks", .num fairness.rollingPeriodWeeks),
    ("tolerance", .num fairness.tolerance),
    ("includeWeekends", .bool fairness.includeWeekends),
    ("nightStartHour", Json.ofOption (fun n => .num (n : ℤ)) fairness.nightStartHour),
    ("nightEndHour", Json.ofOption (fun n => .num (n : ℤ)) fairness.nightEndHour),
    ("holidayDates", .arr (fairness.holidayDates.sort.map fun d => .str (dateIsoformat d)))]

/-- The texts of `assignment_source`. -/
def AssignmentSource.name : AssignmentSource → String
  | autoGenerated => "auto_generated"
  | manualOverride => "manual_override"
  | swap => "swap"
  | bid => "bid"
  | claim => "claim"

/-- `_serialize_locked_assignment`. -/
def serializeLockedAssignment (locked : LockedAssignment) : Json :=
  .obj [("employeeId", .str (uuidStr locked.employeeId)),
    ("shiftId", .str (uuidStr locked.shiftId)),
    ("assignmentSource", .str locked.assignmentSource.name)]

/-- `_serialize_soft_weights`. -/
def serializeSoftWeights (weights : SoftWeights) : Json :=
  .obj [("preferenceWeight", .num weights.preferenceWeight),
    ("overtimeCostWeight", .num weights.overtimeCostWeight),
    ("skillDecayWeight", .num weights.skillDecayWeight),
    ("crossSkillBalanceWeight", .num weights.crossSkillBalanceWeight)]

/-- `serialize`. The relaxed categories are not written: they are set at approval. -/
def serialize (si : SolveInput) : Json :=
  .obj [("dateRangeStart", .str (dateIsoformat si.dateRangeStart)),
    ("dateRangeEnd", .str (dateIsoformat si.dateRangeEnd)),
    ("employees", .arr (si.employees.map serializeEmployee)),
    ("shifts", .arr (si.shifts.map serializeShift)),
    ("policy", serializePolicy si.policy),
    ("leaveRecords", .arr (si.leaveRecords.map serializeLeave)),
    ("timeLimitSeconds", .num si.timeLimitSeconds),
    ("fairness", Json.ofOption serializeFairness si.fairness),
    ("softWeights", serializeSoftWeights si.softWeights),
    ("fairnessHistoryCounts", .obj (si.fairnessHistoryCounts.map fun (id, count) =>
      (uuidStr id, .num (count : ℤ)))),
    ("lockedAssignments", .arr (si.lockedAssignments.map serializeLockedAssignment))]

/-! ## Reading a snapshot -/

def readUuid (value : Json) : Except Json.Error UUID := do uuidOfStr (← value.asStr)

def readDay (value : Json) : Except Json.Error ℤ := do dateFromisoformat (← value.asStr)

def readTime (value : Json) : Except Json.Error DateTime := do
  DateTime.fromisoformat (← value.asStr)

/-- `read(value) if value else None`. -/
def readIf {α : Type} (read : Json → Except Json.Error α) (value : Json) :
    Except Json.Error (Option α) :=
  if value.truthy then some <$> read value else pure none

def readList {α : Type} (read : Json → Except Json.Error α) (value : Json) :
    Except Json.Error (List α) := do
  (← value.asList).mapM read

/-- An entry of a dictionary whose keys are UUIDs. -/
def readCount (entry : String × Json) : Except Json.Error (UUID × ℤ) := do
  return (← uuidOfStr entry.1, ← entry.2.asInt)

def deserializeSkill (skill : Json) : Except Json.Error EmployeeSkill := do
  return { skillId := ← readUuid (← skill.getItem "skillId")
           expiresAt := ← readIf readDay (skill.get "expiresAt")
           decayScore := ← (skill.getOr "decayScore" (.num 0)).asRat }

/-- `_deserialize_employee`. -/
def deserializeEmployee (data : Json) : Except Json.Error Employee := do
  return { id := ← readUuid (← data.getItem "id")
           contractHoursPerWeek := ← (← data.getItem "contractHoursPerWeek").asRat
           overtimeApproved := ← (← data.getItem "overtimeApproved").asBool
           skills := ← readList deserializeSkill (data.getOr "skills" (.arr []))
           preferredShiftIds :=
             (← readList readUuid (data.getOr "preferredShiftIds" (.arr []))).toFinset
           orgUnitId := none }

/-- `_deserialize_shift`. -/
def deserializeShift (data : Json) : Except Json.Error ShiftSlot := do
  return { id := ← readUuid (← data.getItem "id")
           start := ← readTime (← data.getItem "start")
           fin := ← readTime (← data.getItem "end")
           requiredHeadcount := ← (← data.getItem "requiredHeadcount").asInt
           requiredSkillId := ← readIf readUuid (data.get "requiredSkillId")
           breakMinutes := ← (data.getOr "breakMinutes" (.num 0)).asInt
           orgUnitId := none }

/-- `_deserialize_policy`. -/
def deserializePolicy (data : Json) : Except Json.Error EmploymentPolicy := do
  return { maxConsecutiveWorkingDays := ← (← data.getItem "maxConsecutiveWorkingDays").asInt
           minRestHoursBetweenShifts := ← (← data.getItem "minRestHoursBetweenShifts").asRat
           minShiftLengthMinutes := ← (← data.getItem "minShiftLengthMinutes").asInt
           maxShiftLengthMinutes := ← (data.get "maxShiftLengthMinutes").asOption Json.asInt
           mandatoryBreakAfterHours := ← (data.get "mandatoryBreakAfterHours").asOption Json.asRat
           mandatoryBreakMinutes := ← (data.get "mandatoryBreakMinutes").asOption Json.asInt }

/-- `_deserialize_leave`. -/
def deserializeLeave (data : Json) : Except Json.Error LeaveRecord := do
  return { employeeId := ← readUuid (← data.getItem "employeeId")
           start := ← readDay (← data.getItem "start")
           fin := ← readDay (← data.getItem "end") }

/-- `_deserialize_fairness`. -/
def deserializeFairness (data : Json) : Except Json.Error FairnessConfig := do
  return { rollingPeriodWeeks := ← (← data.getItem "rollingPeriodWeeks").asInt
           tolerance := ← (← data.getItem "tolerance").asInt
           includeWeekends := ← (← data.getItem "includeWeekends").asBool
           nightStartHour := ← (data.get "nightStartHour").asOption Json.asInt
           nightEndHour := ← (data.get "nightEndHour").asOption Json.asInt
           holidayDates := (← readList readDay (data.getOr "holidayDates" (.arr []))).toFinset }

/-- The assignment source of a text. -/
def AssignmentSource.ofName (name : String) : Except Json.Error AssignmentSource :=
  match [autoGenerated, manualOverride, swap, bid, claim].find? (·.name = name) with
  | some source => .ok source
  | none => .error .valueError

/-- `_deserialize_locked_assignment`. -/
def deserializeLockedAssignment (data : Json) : Except Json.Error LockedAssignment := do
  return { employeeId := ← readUuid (← data.getItem "employeeId")
           shiftId := ← readUuid (← data.getItem "shiftId")
           assignmentSource := ← AssignmentSource.ofName
             (← (data.getOr "assignmentSource" (.str "manual_override")).asStr) }

/-- `_deserialize_soft_weights`. -/
def deserializeSoftWeights (data : Json) : Except Json.Error SoftWeights := do
  return { preferenceWeight := ← (← data.getItem "preferenceWeight").asInt
           overtimeCostWeight := ← (← data.getItem "overtimeCostWeight").asInt
           skillDecayWeight := ← (← data.getItem "skillDecayWeight").asInt
           crossSkillBalanceWeight := ← (← data.getItem "crossSkillBalanceWeight").asInt }

/-- `deserialize`. -/
def deserialize (data : Json) : Except Json.Error SolveInput := do
  return { dateRangeStart := ← readDay (← data.getItem "dateRangeStart")
           dateRangeEnd := ← readDay (← data.getItem "dateRangeEnd")
           employees := ← readList deserializeEmployee (← data.getItem "employees")
           shifts := ← readList deserializeShift (← data.getItem "shifts")
           policy := ← deserializePolicy (← data.getItem "policy")
           leaveRecords := ← readList deserializeLeave (← data.getItem "leaveRecords")
           timeLimitSeconds := ← (← data.getItem "timeLimitSeconds").asRat
           fairness := ← (data.get "fairness").asOption deserializeFairness
           softWeights := ← deserializeSoftWeights (← data.getItem "softWeights")
           fairnessHistoryCounts :=
             ← (← (data.getOr "fairnessHistoryCounts" (.obj [])).asFields).mapM readCount
           relaxedCategories := ∅
           lockedAssignments := ← readList deserializeLockedAssignment
             (data.getOr "lockedAssignments" (.arr [])) }

/-! ## The round trip -/

/-- A date of the years 1 to 9999, as every `date` is. -/
def DateInRange (date : ℤ) : Prop := 1 ≤ (civil date).year ∧ (civil date).year ≤ 9999
  deriving Decidable

/-- A date in range and less than a day from UTC, as every `datetime` is. -/
def DateTime.InRange (t : DateTime) : Prop :=
  DateInRange t.date ∧ t.utcOffset.natAbs < 86400000000
  deriving Decidable

theorem readDay_str {date : ℤ} (h : DateInRange date) :
    readDay (.str (dateIsoformat date)) = .ok date := by
  simp [readDay, Json.asStr, dateFromisoformat_dateIsoformat h.1 h.2, bind, Except.bind]

theorem readTime_str {t : DateTime} (h : t.InRange) : readTime (.str t.isoformat) = .ok t := by
  simp [readTime, Json.asStr, DateTime.fromisoformat_isoformat h.1.1 h.1.2 h.2, bind, Except.bind]

theorem readUuid_str (id : UUID) : readUuid (.str (uuidStr id)) = .ok id := by
  simp [readUuid, Json.asStr, uuidOfStr_uuidStr, bind, Except.bind]

theorem uuidStr_ne_empty (id : UUID) : uuidStr id ≠ "" := by
  intro h
  have hlist := congrArg String.toList h
  simp [uuidStr] at hlist

theorem dateIsoformat_ne_empty (date : ℤ) : dateIsoformat date ≠ "" := by
  intro h
  have hlist := congrArg String.toList h
  simp [dateIsoformat, dateChars] at hlist

theorem readIf_ofOption {α : Type} {write : α → String} {read : Json → Except Json.Error α}
    {a : Option α} (hne : ∀ b, write b ≠ "")
    (h : ∀ b, a = some b → read (.str (write b)) = .ok b) :
    readIf read (Json.ofOption (fun b => .str (write b)) a) = .ok a := by
  cases a with
  | none => simp [readIf, Json.ofOption, Json.truthy, pure, Except.pure]
  | some b => simp [readIf, Json.ofOption, Json.truthy, hne, h b rfl, Functor.map, Except.map]

theorem readList_map {α β : Type} {l : List α} {write : α → Json}
    {read : Json → Except Json.Error β} {f : α → β} (h : ∀ a ∈ l, read (write a) = .ok (f a)) :
    readList read (.arr (l.map write)) = .ok (l.map f) :=
  Json.mapM_map_eq_ok h

theorem readList_self {α : Type} {l : List α} {write : α → Json} {read : Json → Except Json.Error α}
    (h : ∀ a ∈ l, read (write a) = .ok a) : readList read (.arr (l.map write)) = .ok l := by
  simpa using @readList_map α α l write read id h

theorem deserializeSkill_serializeSkill {skill : EmployeeSkill}
    (h : ∀ d, skill.expiresAt = some d → DateInRange d) :
    deserializeSkill (serializeSkill skill) = .ok skill := by
  have hid : (serializeSkill skill).getItem "skillId" = .ok (.str (uuidStr skill.skillId)) := rfl
  have hexpires : readIf readDay ((serializeSkill skill).get "expiresAt") = .ok skill.expiresAt :=
    readIf_ofOption dateIsoformat_ne_empty fun d hd => readDay_str (h d hd)
  have hdecay : ((serializeSkill skill).getOr "decayScore" (.num 0)).asRat =
      .ok skill.decayScore := rfl
  simp only [deserializeSkill, hid, readUuid_str, hexpires, hdecay, bind, Except.bind, pure,
    Except.pure]

/-- What a snapshot keeps of an employee. -/
def Employee.withoutSite (employee : Employee) : Employee := { employee with orgUnitId := none }

/-- What a snapshot keeps of a shift. -/
def ShiftSlot.withoutSite (shift : ShiftSlot) : ShiftSlot := { shift with orgUnitId := none }

theorem deserializeEmployee_serializeEmployee {employee : Employee}
    (h : ∀ skill ∈ employee.skills, ∀ d, skill.expiresAt = some d → DateInRange d) :
    deserializeEmployee (serializeEmployee employee) = .ok employee.withoutSite := by
  have hid : (serializeEmployee employee).getItem "id" = .ok (.str (uuidStr employee.id)) := rfl
  have hhours : (serializeEmployee employee).getItem "contractHoursPerWeek" =
      .ok (.num employee.contractHoursPerWeek) := rfl
  have hovertime : (serializeEmployee employee).getItem "overtimeApproved" =
      .ok (.bool employee.overtimeApproved) := rfl
  have hskills : readList deserializeSkill ((serializeEmployee employee).getOr "skills" (.arr [])) =
      .ok employee.skills :=
    readList_self fun skill hs => deserializeSkill_serializeSkill (h skill hs)
  have hpreferred : readList readUuid
      ((serializeEmployee employee).getOr "preferredShiftIds" (.arr [])) =
      .ok employee.preferredShiftIds.sort := readList_self fun id _ => readUuid_str id
  simp only [deserializeEmployee, hid, hhours, hovertime, hskills, hpreferred, readUuid_str,
    Json.asRat, Json.asBool, Finset.sort_toFinset, bind, Except.bind, pure, Except.pure]
  rfl

theorem deserializeShift_serializeShift {shift : ShiftSlot} (hstart : shift.start.InRange)
    (hend : shift.fin.InRange) :
    deserializeShift (serializeShift shift) = .ok shift.withoutSite := by
  have hid : (serializeShift shift).getItem "id" = .ok (.str (uuidStr shift.id)) := rfl
  have hs : (serializeShift shift).getItem "start" = .ok (.str shift.start.isoformat) := rfl
  have he : (serializeShift shift).getItem "end" = .ok (.str shift.fin.isoformat) := rfl
  have hheadcount : (serializeShift shift).getItem "requiredHeadcount" =
      .ok (.num shift.requiredHeadcount) := rfl
  have hskill : readIf readUuid ((serializeShift shift).get "requiredSkillId") =
      .ok shift.requiredSkillId := readIf_ofOption uuidStr_ne_empty fun id _ => readUuid_str id
  have hbreak : (serializeShift shift).getOr "breakMinutes" (.num 0) =
      .num shift.breakMinutes := rfl
  simp only [deserializeShift, hid, hs, he, hheadcount, hskill, hbreak, readUuid_str,
    readTime_str hstart, readTime_str hend, Json.asInt_intCast, bind, Except.bind, pure,
    Except.pure]
  rfl

theorem asOption_int (n : Option ℤ) :
    (Json.ofOption (fun n => .num (n : ℤ)) n).asOption Json.asInt = .ok n :=
  Json.asOption_ofOption (fun _ => Json.noConfusion) fun m _ => Json.asInt_intCast m

theorem asOption_rat (q : Option ℚ) : (Json.ofOption .num q).asOption Json.asRat = .ok q :=
  Json.asOption_ofOption (fun _ => Json.noConfusion) fun _ _ => rfl

theorem deserializePolicy_serializePolicy (policy : EmploymentPolicy) :
    deserializePolicy (serializePolicy policy) = .ok policy := by
  have hdays : (serializePolicy policy).getItem "maxConsecutiveWorkingDays" =
      .ok (.num policy.maxConsecutiveWorkingDays) := rfl
  have hrest : (serializePolicy policy).getItem "minRestHoursBetweenShifts" =
      .ok (.num policy.minRestHoursBetweenShifts) := rfl
  have hmin : (serializePolicy policy).getItem "minShiftLengthMinutes" =
      .ok (.num policy.minShiftLengthMinutes) := rfl
  have hmax : ((serializePolicy policy).get "maxShiftLengthMinutes").asOption Json.asInt =
      .ok policy.maxShiftLengthMinutes := asOption_int _
  have hafter : ((serializePolicy policy).get "mandatoryBreakAfterHours").asOption Json.asRat =
      .ok policy.mandatoryBreakAfterHours := asOption_rat _
  have hbreak : ((serializePolicy policy).get "mandatoryBreakMinutes").asOption Json.asInt =
      .ok policy.mandatoryBreakMinutes := asOption_int _
  simp only [deserializePolicy, hdays, hrest, hmin, hmax, hafter, hbreak, Json.asInt_intCast,
    Json.asRat, bind, Except.bind, pure, Except.pure]

theorem deserializeLeave_serializeLeave {record : LeaveRecord} (hstart : DateInRange record.start)
    (hend : DateInRange record.fin) :
    deserializeLeave (serializeLeave record) = .ok record := by
  have hid : (serializeLeave record).getItem "employeeId" =
      .ok (.str (uuidStr record.employeeId)) := rfl
  have hs : (serializeLeave record).getItem "start" = .ok (.str (dateIsoformat record.start)) := rfl
  have he : (serializeLeave record).getItem "end" = .ok (.str (dateIsoformat record.fin)) := rfl
  simp only [deserializeLeave, hid, hs, he, readUuid_str, readDay_str hstart, readDay_str hend,
    bind, Except.bind, pure, Except.pure]

theorem deserializeFairness_serializeFairness {fairness : FairnessConfig}
    (h : ∀ d ∈ fairness.holidayDates, DateInRange d) :
    deserializeFairness (serializeFairness fairness) = .ok fairness := by
  have hweeks : (serializeFairness fairness).getItem "rollingPeriodWeeks" =
      .ok (.num fairness.rollingPeriodWeeks) := rfl
  have htolerance : (serializeFairness fairness).getItem "tolerance" =
      .ok (.num fairness.tolerance) := rfl
  have hweekends : (serializeFairness fairness).getItem "includeWeekends" =
      .ok (.bool fairness.includeWeekends) := rfl
  have hstart : ((serializeFairness fairness).get "nightStartHour").asOption Json.asInt =
      .ok fairness.nightStartHour := asOption_int _
  have hend : ((serializeFairness fairness).get "nightEndHour").asOption Json.asInt =
      .ok fairness.nightEndHour := asOption_int _
  have hholidays : readList readDay ((serializeFairness fairness).getOr "holidayDates" (.arr [])) =
      .ok fairness.holidayDates.sort :=
    readList_self fun d hd => readDay_str (h d (by simpa using hd))
  simp only [deserializeFairness, hweeks, htolerance, hweekends, hstart, hend, hholidays,
    Json.asInt_intCast, Json.asBool, Finset.sort_toFinset, bind, Except.bind, pure, Except.pure]

theorem AssignmentSource.ofName_name (source : AssignmentSource) :
    ofName source.name = .ok source := by
  cases source <;> rfl

theorem deserializeLockedAssignment_serializeLockedAssignment (locked : LockedAssignment) :
    deserializeLockedAssignment (serializeLockedAssignment locked) = .ok locked := by
  have hemployee : (serializeLockedAssignment locked).getItem "employeeId" =
      .ok (.str (uuidStr locked.employeeId)) := rfl
  have hshift : (serializeLockedAssignment locked).getItem "shiftId" =
      .ok (.str (uuidStr locked.shiftId)) := rfl
  have hsource : (serializeLockedAssignment locked).getOr "assignmentSource"
      (.str "manual_override") = .str locked.assignmentSource.name := rfl
  simp only [deserializeLockedAssignment, hemployee, hshift, hsource, readUuid_str, Json.asStr,
    AssignmentSource.ofName_name, bind, Except.bind, pure, Except.pure]

theorem deserializeSoftWeights_serializeSoftWeights (weights : SoftWeights) :
    deserializeSoftWeights (serializeSoftWeights weights) = .ok weights := by
  have hpreference : (serializeSoftWeights weights).getItem "preferenceWeight" =
      .ok (.num weights.preferenceWeight) := rfl
  have hovertime : (serializeSoftWeights weights).getItem "overtimeCostWeight" =
      .ok (.num weights.overtimeCostWeight) := rfl
  have hdecay : (serializeSoftWeights weights).getItem "skillDecayWeight" =
      .ok (.num weights.skillDecayWeight) := rfl
  have hbalance : (serializeSoftWeights weights).getItem "crossSkillBalanceWeight" =
      .ok (.num weights.crossSkillBalanceWeight) := rfl
  simp only [deserializeSoftWeights, hpreference, hovertime, hdecay, hbalance, Json.asInt_intCast,
    bind, Except.bind, pure, Except.pure]

/-- The dates and times of the input are ones that Python has. -/
structure SolveInput.Representable (si : SolveInput) : Prop where
  dateRangeStart : DateInRange si.dateRangeStart
  dateRangeEnd : DateInRange si.dateRangeEnd
  expiresAt : ∀ e ∈ si.employees, ∀ skill ∈ e.skills, ∀ d, skill.expiresAt = some d → DateInRange d
  shifts : ∀ s ∈ si.shifts, s.start.InRange ∧ s.fin.InRange
  leaveRecords : ∀ r ∈ si.leaveRecords, DateInRange r.start ∧ DateInRange r.fin
  holidayDates : ∀ f, si.fairness = some f → ∀ d ∈ f.holidayDates, DateInRange d

/-- What a snapshot keeps of an input. -/
def SolveInput.snapshot (si : SolveInput) : SolveInput :=
  { si with
    employees := si.employees.map Employee.withoutSite
    shifts := si.shifts.map ShiftSlot.withoutSite
    relaxedCategories := ∅ }

/-- Reading a snapshot gives back everything but the sites and the relaxed categories. -/
theorem deserialize_serialize {si : SolveInput} (h : si.Representable) :
    deserialize (serialize si) = .ok si.snapshot := by
  have hstart : (serialize si).getItem "dateRangeStart" =
      .ok (.str (dateIsoformat si.dateRangeStart)) := rfl
  have hend : (serialize si).getItem "dateRangeEnd" =
      .ok (.str (dateIsoformat si.dateRangeEnd)) := rfl
  have hemployees : (serialize si).getItem "employees" =
      .ok (.arr (si.employees.map serializeEmployee)) := rfl
  have hreadEmployees : readList deserializeEmployee (.arr (si.employees.map serializeEmployee)) =
      .ok (si.employees.map Employee.withoutSite) :=
    readList_map fun e he => deserializeEmployee_serializeEmployee (h.expiresAt e he)
  have hshifts : (serialize si).getItem "shifts" = .ok (.arr (si.shifts.map serializeShift)) := rfl
  have hreadShifts : readList deserializeShift (.arr (si.shifts.map serializeShift)) =
      .ok (si.shifts.map ShiftSlot.withoutSite) :=
    readList_map fun s hs => deserializeShift_serializeShift (h.shifts s hs).1 (h.shifts s hs).2
  have hpolicy : (serialize si).getItem "policy" = .ok (serializePolicy si.policy) := rfl
  have hleaves : (serialize si).getItem "leaveRecords" =
      .ok (.arr (si.leaveRecords.map serializeLeave)) := rfl
  have hreadLeaves : readList deserializeLeave (.arr (si.leaveRecords.map serializeLeave)) =
      .ok si.leaveRecords := readList_self fun r hr =>
    deserializeLeave_serializeLeave (h.leaveRecords r hr).1 (h.leaveRecords r hr).2
  have hlimit : (serialize si).getItem "timeLimitSeconds" = .ok (.num si.timeLimitSeconds) := rfl
  have hfairness : ((serialize si).get "fairness").asOption deserializeFairness =
      .ok si.fairness := Json.asOption_ofOption (fun _ => Json.noConfusion) fun f hf =>
    deserializeFairness_serializeFairness (h.holidayDates f hf)
  have hweights : (serialize si).getItem "softWeights" =
      .ok (serializeSoftWeights si.softWeights) := rfl
  have hhistory : (serialize si).getOr "fairnessHistoryCounts" (.obj []) =
      .obj (si.fairnessHistoryCounts.map fun (id, count) => (uuidStr id, .num (count : ℤ))) := rfl
  have hreadHistory : (si.fairnessHistoryCounts.map fun (id, count) =>
      (uuidStr id, Json.num (count : ℤ))).mapM readCount =
      .ok (si.fairnessHistoryCounts.map id) := Json.mapM_map_eq_ok fun (id, count) _ => by
    simp only [readCount, uuidOfStr_uuidStr, Json.asInt_intCast, bind, Except.bind, pure,
      Except.pure, id_eq]
  have hlocked : readList deserializeLockedAssignment
      ((serialize si).getOr "lockedAssignments" (.arr [])) = .ok si.lockedAssignments :=
    readList_self fun locked _ => deserializeLockedAssignment_serializeLockedAssignment locked
  simp only [deserialize, hstart, hend, hemployees, hreadEmployees, hshifts, hreadShifts, hpolicy,
    hleaves, hreadLeaves, hlimit, hfairness, hweights, hhistory, hreadHistory, hlocked,
    readDay_str h.dateRangeStart, readDay_str h.dateRangeEnd, deserializePolicy_serializePolicy,
    deserializeSoftWeights_serializeSoftWeights, Json.asRat, Json.asFields, map_id, bind,
    Except.bind, pure, Except.pure]
  rfl

theorem Employee.withoutSite_eq_self {e : Employee} : e.withoutSite = e ↔ e.orgUnitId = none := by
  cases e
  simp [Employee.withoutSite, eq_comm]

theorem ShiftSlot.withoutSite_eq_self {s : ShiftSlot} : s.withoutSite = s ↔ s.orgUnitId = none := by
  cases s
  simp [ShiftSlot.withoutSite, eq_comm]

theorem map_eq_self_iff {α : Type*} {l : List α} {f : α → α} : l.map f = l ↔ ∀ a ∈ l, f a = a := by
  conv_lhs => rhs; rw [← map_id l]
  rw [map_inj_left]
  simp

/-- **A snapshot is faithful exactly when there are no sites.** Every other field of every employee,
skill, shift, policy, leave record, fairness configuration, weight, count and lock is read back as
it was. -/
theorem deserialize_serialize_iff {si : SolveInput} (h : si.Representable) :
    deserialize (serialize si) = .ok { si with relaxedCategories := ∅ } ↔
      (∀ e ∈ si.employees, e.orgUnitId = none) ∧ ∀ s ∈ si.shifts, s.orgUnitId = none := by
  rw [deserialize_serialize h, Except.ok.injEq]
  simp only [SolveInput.snapshot, SolveInput.mk.injEq, map_eq_self_iff,
    Employee.withoutSite_eq_self, ShiftSlot.withoutSite_eq_self, true_and, and_true]

/-- One employee and one night shift, both of this site. -/
def siteInput (site : Option UUID) : SolveInput where
  dateRangeStart := 20514
  dateRangeEnd := 20520
  employees := [⟨1, 65 / 2, true, [⟨9, some 20604, 2 / 5⟩], {11}, site⟩]
  shifts := [⟨11, ⟨20514 * 86400000000 + 22 * 3600000000, 3600000000⟩,
    ⟨20515 * 86400000000 + 6 * 3600000000, 3600000000⟩, 2, some 9, 30, site⟩]
  policy := ⟨5, 11, 240, some 600, some 6, some 30⟩
  leaveRecords := [⟨2, 20514, 20515⟩]
  timeLimitSeconds := 45
  fairness := some ⟨3, 2, false, some 23, some 5, {20517}⟩
  softWeights := ⟨2, 0, 3, 1⟩
  fairnessHistoryCounts := [(1, 4)]
  relaxedCategories := ∅
  lockedAssignments := [⟨1, 11, .swap⟩]

theorem siteInput_representable (site : Option UUID) : (siteInput site).Representable where
  dateRangeStart := by
    show DateInRange 20514
    decide
  dateRangeEnd := by
    show DateInRange 20520
    decide
  expiresAt := by
    simp [siteInput]
    decide
  shifts := by
    simp [siteInput]
    decide
  leaveRecords := by
    simp [siteInput]
    decide
  holidayDates := by
    simp [siteInput]
    decide

/-- Without sites the input comes back from its snapshot. -/
theorem siteInput_none_faithful :
    deserialize (serialize (siteInput none)) = .ok { siteInput none with relaxedCategories := ∅ } :=
  (deserialize_serialize_iff (siteInput_representable none)).2 (by decide)

/-- A site does not. -/
theorem siteInput_some_unfaithful : (siteInput (some 7)).Representable ∧
    deserialize (serialize (siteInput (some 7))) ≠
      .ok { siteInput (some 7) with relaxedCategories := ∅ } := by
  refine ⟨siteInput_representable _, ?_⟩
  rw [deserialize_serialize (siteInput_representable _), Ne, Except.ok.injEq]
  intro h
  have hsites : [none] = [some (7 : UUID)] :=
    congrArg (fun si : SolveInput => si.shifts.map ShiftSlot.orgUnitId) h
  simp at hsites

end Workforce.Scheduling
