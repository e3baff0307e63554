import Workforce.Foundations.Tables
import Workforce.Foundations.Versions

/-!
# Org units

The table `org_units` of a tenant with its triggers, and `org_unit_history`. An insert computes the
path of the new unit. An update recomputes the path of a unit that gets another parent, and then
the path of every unit below it, by an `UPDATE` that fires the triggers of each unit again; and it
closes the open version of the unit and opens another when a tracked column has changed.

Statements are executed one after another. What a statement or one of its triggers rejects is rolled
back.
-/

namespace Workforce.Org

open Tables Versions

/-! ## The tables -/

inductive OrgUnitType
  | businessUnit | department | site | team
  deriving DecidableEq

inductive OrgUnitStatus
  | active | archived
  deriving DecidableEq

/-- The columns of a unit that its history tracks. -/
structure OrgUnitColumns where
  parentOrgUnitId : Option ℕ
  type : OrgUnitType
  name : String
  timezone : String
  countryCode : String
  status : OrgUnitStatus
  deriving DecidableEq

/-- A unit. The labels of a path are the ids of units. -/
structure OrgUnit where
  id : ℕ
  columns : OrgUnitColumns
  path : List ℕ
  createdAt : ℤ
  deriving DecidableEq

/-- A version of a unit, which has the id of the unit as its key. -/
abbrev OrgUnitHistory := Version ℕ OrgUnitColumns

inductive OrgUnitError
  /-- The primary key. -/
  | duplicateId
  | parentHasNoPath (parentOrgUnitId : ℕ)
  | underOwnDescendant (id parentOrgUnitId : ℕ)
  /-- `org_units_not_self_parent`. -/
  | selfParent
  /-- `subpath` beyond the end of a path. -/
  | invalidPositions
  /-- Triggers that fire each other too deep. -/
  | stackDepth
  /-- `org_unit_history_valid_range`. -/
  | validRange

structure State where
  clock : ℤ
  units : List OrgUnit
  history : List OrgUnitHistory
  deriving DecidableEq

namespace State

/-- No unit exists. -/
def init : State := ⟨0, [], []⟩

variable (s : State)

def findById (id : ℕ) : Option OrgUnit := lookup (·.id) id s.units

/-- `SELECT path` of the parent. -/
def pathOf (id : ℕ) : Option (List ℕ) := (s.findById id).map (·.path)

end State

/-! ## The triggers -/

/-- `fn_org_unit_set_path`. -/
def setPath (s : State) (new : OrgUnit) : Except OrgUnitError OrgUnit :=
  match new.columns.parentOrgUnitId with
  | none => .ok { new with path := [new.id] }
  | some parentOrgUnitId =>
    match s.pathOf parentOrgUnitId with
    | none => .error (.parentHasNoPath parentOrgUnitId)
    | some parentPath => .ok { new with path := parentPath ++ [new.id] }

/-- `fn_org_unit_recompute_path_on_update`. -/
def recomputePath (s : State) (old new : OrgUnit) : Except OrgUnitError OrgUnit :=
  if new.columns.parentOrgUnitId ≠ old.columns.parentOrgUnitId then
    match new.columns.parentOrgUnitId with
    | none => .ok { new with path := [new.id] }
    | some parentOrgUnitId =>
      match s.pathOf parentOrgUnitId with
      | none => .error (.parentHasNoPath parentOrgUnitId)
      | some parentPath =>
        if old.path <+: parentPath then .error (.underOwnDescendant new.id parentOrgUnitId)
        else .ok { new with path := parentPath ++ [new.id] }
  else .ok new

/-- The update branch of `fn_org_unit_history_track`: the open version ends and another begins. -/
def historyTrack (effectiveAt : ℤ) (s : State) (old new : OrgUnit) : Except OrgUnitError State :=
  if new.columns ≠ old.columns then
    match supersede s.history new.id effectiveAt new.columns with
    | none => .error .validRange
    | some history => .ok { s with history := history }
  else .ok s

/-- The rows of the `UPDATE` in `fn_org_unit_cascade_path`. -/
def OrgUnit.cascades (old new u : OrgUnit) : Bool := old.path <+: u.path && u.id ≠ new.id

theorem OrgUnit.cascades_iff {old new u : OrgUnit} :
    old.cascades new u = true ↔ old.path <+: u.path ∧ u.id ≠ new.id := by
  simp [OrgUnit.cascades]

/-- What it sets. -/
def OrgUnit.cascade (old new u : OrgUnit) : OrgUnit :=
  { u with path := new.path ++ u.path.drop old.path.length }

/-- `fn_org_unit_cascade_path`, where `fire` are the triggers of a row that its `UPDATE` has
updated: they are fired at the end of it. The parents of these rows do not change, so the trigger
before the update leaves them alone. -/
def cascadePath (fire : State → OrgUnit → OrgUnit → Except OrgUnitError State) (s : State)
    (old new : OrgUnit) : Except OrgUnitError State :=
  let targets := s.units.filter (old.cascades new)
  if targets.any fun u => u.path.length ≤ old.path.length then .error .invalidPositions
  else
    targets.foldlM (fun s u => fire s u (old.cascade new u))
      { s with
        units := s.units.map fun u => if old.cascades new u then old.cascade new u else u }

/-- The triggers after the update of a row. -/
def afterUpdate (effectiveAt : ℤ) : ℕ → State → OrgUnit → OrgUnit → Except OrgUnitError State
  | 0, _, _, _ => .error .stackDepth
  | depth + 1, s, old, new => do
    let cascaded ←
      if old.path ≠ new.path then cascadePath (afterUpdate effectiveAt depth) s old new else .ok s
    historyTrack effectiveAt cascaded old new

/-- How deep triggers may nest. -/
def maxTriggerDepth : ℕ := 100

/-! ## The statements -/

/-- `create`. -/
def State.insert (s : State) (id : ℕ) (columns : OrgUnitColumns) : Except OrgUnitError State := do
  let new ← setPath s { id := id, columns := columns, path := [], createdAt := s.clock }
  if id ∈ s.units.map (·.id) then .error .duplicateId
  else if columns.parentOrgUnitId = some id then .error .selfParent
  else
    .ok { s with
      units := s.units ++ [new]
      history := s.history ++ [⟨id, new.createdAt, none, columns⟩] }

/-- The columns that an update sets. -/
structure OrgUnitPatch where
  parentOrgUnitId : Option (Option ℕ)
  type : Option OrgUnitType
  name : Option String
  timezone : Option String
  countryCode : Option String
  status : Option OrgUnitStatus

def OrgUnitPatch.apply (patch : OrgUnitPatch) (columns : OrgUnitColumns) : OrgUnitColumns :=
  { parentOrgUnitId := patch.parentOrgUnitId.getD columns.parentOrgUnitId
    type := patch.type.getD columns.type
    name := patch.name.getD columns.name
    timezone := patch.timezone.getD columns.timezone
    countryCode := patch.countryCode.getD columns.countryCode
    status := patch.status.getD columns.status }

/-- `updateWithEffectiveDate` on the row `old`. Without a date the change is effective now. -/
def State.updateRow (s : State) (old : OrgUnit) (patch : OrgUnitPatch) (effectiveAt : Option ℤ) :
    Except OrgUnitError State := do
  let new ← recomputePath s old { old with columns := patch.apply old.columns }
  if new.columns.parentOrgUnitId = some new.id then .error .selfParent
  else
    afterUpdate (effectiveAt.getD s.clock) maxTriggerDepth
      { s with units := modify (·.id) old.id (fun _ => new) s.units } old new

/-- `updateWithEffectiveDate`: no row is updated when there is none with the id. -/
def State.update (s : State) (id : ℕ) (patch : OrgUnitPatch) (effectiveAt : Option ℤ) :
    Except OrgUnitError State :=
  match s.findById id with
  | none => .ok s
  | some old => s.updateRow old patch effectiveAt

/-! ## Steps -/

inductive Action
  | tick (d : ℕ)
  | insert (id : ℕ) (columns : OrgUnitColumns)
  | update (id : ℕ) (patch : OrgUnitPatch) (effectiveAt : Option ℤ)

/-- One step: time passes, or a statement that is accepted. -/
def step (s : State) : Action → Option State
  | .tick d => some { s with clock := s.clock + d }
  | .insert id columns => (s.insert id columns).toOption
  | .update id patch effectiveAt => (s.update id patch effectiveAt).toOption

end Workforce.Org
