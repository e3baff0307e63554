import Workforce.Foundations.Successions
import Workforce.Foundations.Runs
import Mathlib.Data.List.Sort

/-!
# Versions of the rows of a table

The history of a table has versions of its rows: the columns of a row, and the window in which they
are valid. A change ends the open version of the row and opens another one at the instant from which
it is effective, which may lie in the past or in the future.

* `columnsAsOf_supersede`: what is valid at an instant after such a change.
* `asOf_of_open`: the open version of a row is the one that is valid from its start on.
* `snapshot_lastChange`: after a run it is the row as it was after the last change that is tracked.
-/

namespace Workforce.Versions

open Successions List

/-- A version of the row with a key. -/
structure Version (κ γ : Type*) where
  key : κ
  validFrom : ℤ
  validTo : Option ℤ
  columns : γ
  deriving DecidableEq

variable {κ γ : Type*}

def Version.window (v : Version κ γ) : Window := ⟨v.validFrom, v.validTo⟩

/-- The versions of each row come one after the other. -/
abbrev Lineages (history : List (Version κ γ)) : Prop :=
  Succession Version.key Version.window history

/-- The row has an open version with these columns. -/
def Current (history : List (Version κ γ)) (k : κ) (columns : γ) : Prop :=
  ∃ v ∈ history, v.key = k ∧ v.validTo = none ∧ v.columns = columns

variable [DecidableEq κ]

/-- The version of a row that is valid at an instant. -/
def asOf (history : List (Version κ γ)) (k : κ) (t : ℤ) : Option (Version κ γ) :=
  history.find? fun v => v.key = k ∧ v.window.Contains t

/-- The columns that are valid at an instant. -/
def columnsAsOf (history : List (Version κ γ)) (k : κ) (t : ℤ) : Option γ :=
  (asOf history k t).map (·.columns)

/-- The open version of the row ends. -/
def Version.close (k : κ) (effectiveAt : ℤ) (v : Version κ γ) : Version κ γ :=
  if v.key = k ∧ v.validTo = none then { v with validTo := some effectiveAt } else v

/-- The open version of a row ends where another one starts; `none` when that is not after its own
start. -/
def supersede (history : List (Version κ γ)) (k : κ) (effectiveAt : ℤ) (columns : γ) :
    Option (List (Version κ γ)) :=
  if ∀ v ∈ history, v.key = k → v.validTo = none → v.validFrom < effectiveAt then
    some (history.map (Version.close k effectiveAt) ++ [⟨k, effectiveAt, none, columns⟩])
  else none

variable {history history' : List (Version κ γ)} {k k' : κ} {t effectiveAt : ℤ} {columns c : γ}
  {v : Version κ γ}

@[simp] theorem Version.close_key : (v.close k effectiveAt).key = v.key := by
  unfold Version.close
  split <;> rfl

@[simp] theorem Version.close_validFrom : (v.close k effectiveAt).validFrom = v.validFrom := by
  unfold Version.close
  split <;> rfl

@[simp] theorem Version.close_columns : (v.close k effectiveAt).columns = v.columns := by
  unfold Version.close
  split <;> rfl

theorem Version.close_of_ne (h : v.key ≠ k) : v.close k effectiveAt = v := by
  simp [Version.close, h]

theorem supersede_eq_some (h : supersede history k effectiveAt columns = some history') :
    (∀ v ∈ history, v.key = k → v.validTo = none → v.validFrom < effectiveAt) ∧
      history' =
        history.map (Version.close k effectiveAt) ++ [⟨k, effectiveAt, none, columns⟩] := by
  unfold supersede at h
  split at h
  case isTrue hstart => exact ⟨hstart, (Option.some.inj h).symm⟩
  case isFalse => cases h

/-! ## What is valid at an instant -/

theorem asOf_eq_some (h : Lineages history) :
    asOf history k t = some v ↔ v ∈ history ∧ v.key = k ∧ v.window.Contains t := by
  constructor
  · intro hv
    exact ⟨mem_of_find?_eq_some hv, by simpa using find?_some hv⟩
  · rintro ⟨hmem, hkey, ht⟩
    obtain ⟨v', hv'⟩ : ∃ v', asOf history k t = some v' := by
      rw [← Option.isSome_iff_exists, asOf, find?_isSome]
      exact ⟨v, hmem, by simp [hkey, ht]⟩
    have hmem' : v' ∈ history := mem_of_find?_eq_some hv'
    have hprop : v'.key = k ∧ v'.window.Contains t := by simpa using find?_some hv'
    rw [hv', h.eq_of_contains hmem' hmem (hprop.1.trans hkey.symm) hprop.2 ht]

theorem columnsAsOf_eq_some (h : Lineages history) :
    columnsAsOf history k t = some c ↔
      ∃ v ∈ history, v.key = k ∧ v.window.Contains t ∧ v.columns = c := by
  rw [columnsAsOf, Option.map_eq_some_iff]
  refine exists_congr fun v => ?_
  rw [asOf_eq_some h]
  tauto

/-- The open version of a row is valid from its start on. -/
theorem asOf_of_open (h : Lineages history) (hv : v ∈ history) (hopen : v.validTo = none)
    (ht : v.validFrom ≤ t) : asOf history v.key t = some v := by
  refine (asOf_eq_some h).2 ⟨hv, rfl, ht, fun e he => ?_⟩
  rw [show v.window.stop = none from hopen] at he
  cases he

/-! ## The first version -/

omit [DecidableEq κ] in
theorem Lineages.append (h : Lineages history) (hkey : ∀ v ∈ history, v.key ≠ k) (start : ℤ)
    (columns : γ) : Lineages (history ++ [⟨k, start, none, columns⟩]) := by
  refine Succession.append h (fun e he => ?_) fun v hv heq => ?_
  · cases he
  · exact absurd heq (hkey v hv)

theorem columnsAsOf_append (h : Lineages history) (hkey : ∀ v ∈ history, v.key ≠ k) (start : ℤ)
    (columns : γ) (k' : κ) (t : ℤ) :
    columnsAsOf (history ++ [⟨k, start, none, columns⟩]) k' t =
      if k' = k ∧ start ≤ t then some columns else columnsAsOf history k' t := by
  have hnone : start ≤ t → columnsAsOf (history ++ [⟨k, start, none, columns⟩]) k t
      = some columns := by
    intro hle
    rw [columnsAsOf_eq_some (h.append hkey start columns)]
    exact ⟨⟨k, start, none, columns⟩, by simp, rfl, ⟨hle, by simp [Version.window]⟩, rfl⟩
  split
  case isTrue hcase => rw [hcase.1, hnone hcase.2]
  case isFalse hcase =>
    ext c
    rw [columnsAsOf_eq_some (h.append hkey start columns), columnsAsOf_eq_some h]
    constructor
    · rintro ⟨v, hv, rfl, ht, hc⟩
      rcases mem_append.1 hv with hv | hv
      · exact ⟨v, hv, rfl, ht, hc⟩
      · obtain rfl := mem_singleton.1 hv
        exact absurd ⟨rfl, ht.1⟩ hcase
    · rintro ⟨v, hv, hk, ht, hc⟩
      exact ⟨v, mem_append_left _ hv, hk, ht, hc⟩

omit [DecidableEq κ] in
theorem Current.append (h : Current history k c) (v : Version κ γ) :
    Current (history ++ [v]) k c := by
  obtain ⟨w, hw, hrest⟩ := h
  exact ⟨w, mem_append_left _ hw, hrest⟩

/-! ## Another version -/

section Supersede

variable (h : Lineages history) (hsome : supersede history k effectiveAt columns = some history')

include h hsome

/-- The versions that were there, with the open one ended. -/
theorem lineages_close : Lineages (history.map (Version.close k effectiveAt)) := by
  obtain ⟨hstart, -⟩ := supersede_eq_some hsome
  refine Succession.map h (fun v => Version.close_key) (fun v => Version.close_validFrom)
    (fun v hv => ?_) fun v hv => ?_
  · unfold Version.close
    split
    case isTrue hopen =>
      intro e he
      cases he
      exact hstart v hv hopen.1 hopen.2
    case isFalse => exact h.wf v hv
  · unfold Version.close
    split
    case isTrue hopen => exact .inr (h.last_of_open hv hopen.2)
    case isFalse => exact .inl rfl

/-- A version of the row that was there has ended when the new one starts. -/
theorem before_of_current (hcurrent : Current history k c)
    (hv : v ∈ history.map (Version.close k effectiveAt)) (hkey : v.key = k) :
    v.window.Before ⟨effectiveAt, none⟩ := by
  obtain ⟨hstart, -⟩ := supersede_eq_some hsome
  obtain ⟨v₀, hv₀, rfl⟩ := mem_map.1 hv
  obtain ⟨w, hw, hwkey, hwopen, -⟩ := hcurrent
  rw [Version.close_key] at hkey
  by_cases hopen : v₀.validTo = none
  · refine ⟨effectiveAt, ?_, Int.le_refl _⟩
    simp [Version.close, Version.window, hkey, hopen]
  · -- an ended version has ended where the open one starts
    have hlast := h.last_of_open hw hwopen v₀ hv₀ (hkey.trans hwkey.symm)
    obtain ⟨e, he, hle⟩ := hlast.resolve_left fun heq => hopen (heq ▸ hwopen)
    have hlt := hstart w hw hwkey hwopen
    have hclose : v₀.close k effectiveAt = v₀ := by simp [Version.close, hopen]
    rw [hclose]
    exact ⟨e, he, Int.le_trans hle (Int.le_of_lt hlt)⟩

theorem lineages_supersede (hcurrent : Current history k c) : Lineages history' := by
  obtain ⟨-, rfl⟩ := supersede_eq_some hsome
  refine Succession.append (lineages_close h hsome) (fun e he => ?_) fun v hv heq => ?_
  · cases he
  · exact before_of_current h hsome hcurrent hv heq

/-- The new version is valid from its start on, and nothing else changes. -/
theorem columnsAsOf_supersede (hcurrent : Current history k c) (k' : κ) (t : ℤ) :
    columnsAsOf history' k' t =
      if k' = k ∧ effectiveAt ≤ t then some columns else columnsAsOf history k' t := by
  have h' := lineages_supersede h hsome hcurrent
  obtain ⟨hstart, rfl⟩ := supersede_eq_some hsome
  split
  case isTrue hcase =>
    rw [columnsAsOf_eq_some h']
    exact ⟨⟨k, effectiveAt, none, columns⟩, by simp, hcase.1.symm,
      ⟨hcase.2, by simp [Version.window]⟩, rfl⟩
  case isFalse hcase =>
    ext c
    rw [columnsAsOf_eq_some h', columnsAsOf_eq_some h]
    constructor
    · rintro ⟨v, hv, rfl, ht, hc⟩
      rcases mem_append.1 hv with hv | hv
      · obtain ⟨v₀, hv₀, rfl⟩ := mem_map.1 hv
        rw [Version.close_columns] at hc
        refine ⟨v₀, hv₀, Version.close_key.symm, ⟨?_, fun e he => ?_⟩, hc⟩
        · have hfrom := ht.1
          rwa [show (v₀.close k effectiveAt).window.start = v₀.validFrom
            from Version.close_validFrom] at hfrom
        · refine ht.2 e ?_
          have hclosed : v₀.close k effectiveAt = v₀ := by
            have hne : v₀.validTo ≠ none := by
              rw [show v₀.validTo = some e from he]
              exact Option.some_ne_none e
            simp [Version.close, hne]
          rwa [hclosed]
      · obtain rfl := mem_singleton.1 hv
        exact absurd ⟨rfl, ht.1⟩ hcase
    · rintro ⟨v, hv, rfl, ht, hc⟩
      refine ⟨v.close k effectiveAt, mem_append_left _ (mem_map_of_mem hv),
        Version.close_key, ?_, by rw [Version.close_columns, hc]⟩
      unfold Version.close
      split
      case isTrue hopen =>
        refine ⟨ht.1, fun e he => ?_⟩
        cases he
        have hlt : ¬ effectiveAt ≤ t := fun hle => hcase ⟨hopen.1, hle⟩
        omega
      case isFalse => exact ht

omit h

theorem mem_supersede : ⟨k, effectiveAt, none, columns⟩ ∈ history' := by
  obtain ⟨-, rfl⟩ := supersede_eq_some hsome
  simp

theorem mem_supersede_of_ne (hv : v ∈ history) (hne : v.key ≠ k) : v ∈ history' := by
  obtain ⟨-, rfl⟩ := supersede_eq_some hsome
  exact mem_append_left _ (mem_map.2 ⟨v, hv, Version.close_of_ne hne⟩)

theorem current_supersede : Current history' k columns :=
  ⟨_, mem_supersede hsome, rfl, rfl, rfl⟩

theorem Current.supersede (hcurrent : Current history k' c) (hne : k' ≠ k) :
    Current history' k' c := by
  obtain ⟨v, hv, rfl, hopen, hc⟩ := hcurrent
  exact ⟨v, mem_supersede_of_ne hsome hv hne, rfl, hopen, hc⟩

/-- A version has the key and the columns of one before, or is the new one. -/
theorem mem_of_mem_supersede (hv : v ∈ history') :
    (∃ v₀ ∈ history, v.key = v₀.key ∧ v.columns = v₀.columns) ∨
      v.key = k ∧ v.columns = columns := by
  obtain ⟨-, rfl⟩ := supersede_eq_some hsome
  rcases mem_append.1 hv with hv | hv
  · obtain ⟨v₀, hv₀, rfl⟩ := mem_map.1 hv
    exact .inl ⟨v₀, hv₀, Version.close_key, Version.close_columns⟩
  · obtain rfl := mem_singleton.1 hv
    exact .inr ⟨rfl, rfl⟩

end Supersede

/-! ## Versions without gaps -/

section Contiguous

omit [DecidableEq κ]

/-- The first version starts at an instant, each one ends where the next one starts, and the last
one is open. -/
def Contiguous : ℤ → List (Version κ γ) → Prop
  | _, [] => False
  | start, v :: vs =>
    v.validFrom = start ∧
      match v.validTo with
      | none => vs = []
      | some e => start < e ∧ Contiguous e vs

variable {start : ℤ} {vs : List (Version κ γ)}

theorem contiguous_cons : Contiguous start (v :: vs) ↔ v.validFrom = start ∧
    (v.validTo = none ∧ vs = [] ∨ ∃ e, v.validTo = some e ∧ start < e ∧ Contiguous e vs) := by
  rw [Contiguous]
  cases v.validTo <;> simp

namespace Contiguous

theorem start_le (h : Contiguous start vs) : ∀ v ∈ vs, start ≤ v.validFrom := by
  induction vs generalizing start with
  | nil => exact h.elim
  | cons w vs ih =>
    obtain ⟨hstart, ⟨-, rfl⟩ | ⟨e, -, hlt, h⟩⟩ := contiguous_cons.1 h
    · intro v hv
      obtain rfl := mem_singleton.1 hv
      omega
    · intro v hv
      rcases mem_cons.1 hv with rfl | hv
      · omega
      · have hle := ih h v hv
        omega

theorem pairwise (h : Contiguous start vs) : vs.Pairwise fun v w => v.validFrom < w.validFrom := by
  induction vs generalizing start with
  | nil => exact .nil
  | cons w vs ih =>
    obtain ⟨hstart, ⟨-, rfl⟩ | ⟨e, -, hlt, h⟩⟩ := contiguous_cons.1 h
    · exact pairwise_singleton _ _
    · refine pairwise_cons.2 ⟨fun v hv => ?_, ih h⟩
      have hle := h.start_le v hv
      omega

/-- Each version ends where the next one starts. -/
theorem isChain (h : Contiguous start vs) :
    vs.IsChain fun v w => v.validTo = some w.validFrom := by
  induction vs generalizing start with
  | nil => exact .nil
  | cons v vs ih =>
    obtain ⟨-, ⟨-, rfl⟩ | ⟨e, hto, -, h⟩⟩ := contiguous_cons.1 h
    · exact .singleton v
    · cases vs with
      | nil => exact h.elim
      | cons w vs =>
        rw [isChain_cons_cons]
        exact ⟨by rw [hto, (contiguous_cons.1 h).1], ih h⟩

theorem length_open (h : Contiguous start vs) :
    (vs.filter fun v => v.validTo = none).length = 1 := by
  induction vs generalizing start with
  | nil => exact h.elim
  | cons v vs ih =>
    obtain ⟨-, ⟨hopen, rfl⟩ | ⟨e, hto, -, h⟩⟩ := contiguous_cons.1 h
    · simp [hopen]
    · simpa [hto] using ih h

/-- No version contains an instant before the first one. -/
theorem filter_of_lt (h : Contiguous start vs) (ht : t < start) :
    (vs.filter fun v => v.window.Contains t) = [] := by
  refine filter_eq_nil_iff.2 fun v hv hcontains => ?_
  have hle := h.start_le v hv
  have hfrom : v.validFrom ≤ t := (of_decide_eq_true hcontains).1
  omega

/-- From the start of the first one on, one version contains an instant. -/
theorem length_contains (h : Contiguous start vs) (ht : start ≤ t) :
    (vs.filter fun v => v.window.Contains t).length = 1 := by
  induction vs generalizing start with
  | nil => exact h.elim
  | cons v vs ih =>
    obtain ⟨hstart, ⟨hopen, rfl⟩ | ⟨e, hto, -, h⟩⟩ := contiguous_cons.1 h
    · have hcontains : v.window.Contains t :=
        ⟨Int.le_trans (Int.le_of_eq hstart) ht, by simp [Version.window, hopen]⟩
      simp [hcontains]
    · by_cases hlt : t < e
      · have hcontains : v.window.Contains t :=
          ⟨Int.le_trans (Int.le_of_eq hstart) ht, by simpa [Version.window, hto] using hlt⟩
        rw [filter_cons_of_pos (by simpa using hcontains), h.filter_of_lt hlt]
        rfl
      · have hno : ¬ v.window.Contains t := fun hcontains => hlt (hcontains.2 e hto)
        rw [filter_cons_of_neg (by simpa using hno)]
        exact ih h (Int.not_lt.1 hlt)

/-- The open version ends where another one starts. -/
theorem close_append [DecidableEq κ] (h : Contiguous start vs) {k : κ} (hkey : ∀ v ∈ vs, v.key = k)
    (hstart : ∀ v ∈ vs, v.validTo = none → v.validFrom < effectiveAt) (columns : γ) :
    Contiguous start
      (vs.map (Version.close k effectiveAt) ++ [⟨k, effectiveAt, none, columns⟩]) := by
  induction vs generalizing start with
  | nil => exact h.elim
  | cons v vs ih =>
    have hv := hkey v mem_cons_self
    obtain ⟨rfl, ⟨hopen, rfl⟩ | ⟨e, hto, hlt, h⟩⟩ := contiguous_cons.1 h
    · have hclose : v.close k effectiveAt = { v with validTo := some effectiveAt } :=
        if_pos ⟨hv, hopen⟩
      rw [map_singleton, hclose]
      refine contiguous_cons.2 ⟨rfl, .inr ⟨effectiveAt, rfl, ?_, ?_⟩⟩
      · exact hstart v mem_cons_self hopen
      · exact contiguous_cons.2 ⟨rfl, .inl ⟨rfl, rfl⟩⟩
    · have hclose : v.close k effectiveAt = v := by simp [Version.close, hto]
      rw [map_cons, cons_append, hclose]
      refine contiguous_cons.2 ⟨rfl, .inr ⟨e, hto, hlt, ih h ?_ ?_⟩⟩
      · exact fun w hw => hkey w (mem_cons_of_mem _ hw)
      · exact fun w hw => hstart w (mem_cons_of_mem _ hw)

end Contiguous

end Contiguous

/-! ## The history of a row -/

/-- The versions of a row, in the order of the table. -/
def versionsOf (history : List (Version κ γ)) (k : κ) : List (Version κ γ) :=
  history.filter (·.key = k)

/-- The history of a row that was created at an instant: ordered by their starts, each version ends
where the next one starts; one version is open, and from the creation on one version is valid at
every instant. -/
structure Unbroken (history : List (Version κ γ)) (k : κ) (createdAt : ℤ) : Prop where
  adjacent : ((versionsOf history k).insertionSort (·.validFrom ≤ ·.validFrom)).IsChain
    fun v w => v.validTo = some w.validFrom
  oneOpen : (history.filter fun v => v.key = k ∧ v.validTo = none).length = 1
  oneValid : ∀ t, createdAt ≤ t →
    (history.filter fun v => v.key = k ∧ v.window.Contains t).length = 1

theorem filter_key_and (history : List (Version κ γ)) (k : κ) (P : Version κ γ → Prop)
    [DecidablePred P] : (history.filter fun v => v.key = k ∧ P v) =
      (versionsOf history k).filter fun v => P v := by
  rw [versionsOf, filter_filter]
  exact filter_congr fun v _ => by simp [and_comm]

theorem Contiguous.unbroken {k : κ} {createdAt : ℤ}
    (h : Contiguous createdAt (versionsOf history k)) : Unbroken history k createdAt where
  adjacent := by
    rw [Pairwise.insertionSort_eq (h.pairwise.imp fun hlt => Int.le_of_lt hlt)]
    exact h.isChain
  oneOpen := by
    rw [filter_key_and history k fun v => v.validTo = none]
    exact h.length_open
  oneValid := by
    intro t ht
    rw [filter_key_and history k fun v => v.window.Contains t]
    exact h.length_contains ht

/-- The first version of another row leaves a row's versions as they are. -/
theorem versionsOf_append (history : List (Version κ γ)) (k : κ) (v : Version κ γ) :
    versionsOf (history ++ [v]) k = versionsOf history k ++ if v.key = k then [v] else [] := by
  rw [versionsOf, filter_append, versionsOf]
  by_cases h : v.key = k <;> simp [h]

theorem versionsOf_close (history : List (Version κ γ)) (k k' : κ) (effectiveAt : ℤ) :
    versionsOf (history.map (Version.close k' effectiveAt)) k =
      (versionsOf history k).map (Version.close k' effectiveAt) := by
  rw [versionsOf, filter_map, versionsOf]
  exact congrArg _ (filter_congr fun v _ => by simp)

/-- A change keeps the versions of its row, and those of any other row, contiguous. -/
theorem Contiguous.supersede {k k' : κ} {createdAt : ℤ}
    (h : Contiguous createdAt (versionsOf history k))
    (hsome : supersede history k' effectiveAt columns = some history') :
    Contiguous createdAt (versionsOf history' k) := by
  obtain ⟨hstart, rfl⟩ := supersede_eq_some hsome
  rw [versionsOf_append, versionsOf_close]
  have hkey : ∀ v ∈ versionsOf history k, v.key = k := fun v hv => by
    simpa using (mem_filter.1 hv).2
  by_cases heq : k' = k
  · subst heq
    rw [if_pos rfl]
    refine h.close_append hkey (fun v hv => ?_) columns
    exact hstart v (mem_filter.1 hv).1 (hkey v hv)
  · have hclose : (versionsOf history k).map (Version.close k' effectiveAt) =
        versionsOf history k := by
      refine (map_congr_left fun v hv => ?_).trans (map_id _)
      exact Version.close_of_ne fun hk => heq (hk.symm.trans (hkey v hv))
    rw [hclose, if_neg heq, append_nil]
    exact h

/-! ## A row and its versions along a run -/

section Run

open Runs

/-- A row of a table in the states of a system, and what is tracked of it. -/
structure Tracking (σ α κ γ τ φ : Type*) where
  key : κ
  row : σ → Option γ
  history : σ → List (Version κ γ)
  /-- From when on an action is effective. -/
  effectiveAt : σ → α → ℤ
  /-- The columns of which a change is a version. -/
  tracked : γ → τ
  /-- The columns that never change. -/
  fixed : γ → φ

variable {σ α τ φ : Type*} [DecidableEq τ] (T : Tracking σ α κ γ τ φ)

/-- The last change after a step: this one, when it changes what is tracked. -/
def Tracking.next (last : Option (ℤ × γ)) (s : σ) (a : α) (t : σ) : Option (ℤ × γ) :=
  if (T.row t).map T.tracked = (T.row s).map T.tracked then last
  else (T.row t).map (T.effectiveAt s a, ·)

/-- The last change of a run that changes what is tracked of the row: from when on it is effective,
and the row after it. -/
def Tracking.lastChange (step : σ → α → Option σ) :
    Option (ℤ × γ) → σ → List α → Option (ℤ × γ)
  | last, _, [] => last
  | last, s, a :: as =>
    match step s a with
    | none => last
    | some t => Tracking.lastChange step (T.next last s a t) t as

/-- A step opens a version of the row exactly when it changes what is tracked. -/
structure Tracking.Follows (s : σ) (a : α) (t : σ) : Prop where
  fixed : ∀ c, T.row s = some c → ∀ c', T.row t = some c' → T.fixed c' = T.fixed c
  opened : (T.row t).map T.tracked ≠ (T.row s).map T.tracked → ∀ c, T.row t = some c →
    ⟨T.key, T.effectiveAt s a, none, c⟩ ∈ T.history t
  stays : (T.row t).map T.tracked = (T.row s).map T.tracked →
    ∀ v ∈ T.history s, v.key = T.key → v.validTo = none → v ∈ T.history t

/-- The open version is the row as it was after the last change. -/
def Tracking.Snapshot (last : Option (ℤ × γ)) (s : σ) : Prop :=
  ∀ c, T.row s = some c → ∃ e c₀, last = some (e, c₀) ∧ T.tracked c₀ = T.tracked c ∧
    T.fixed c₀ = T.fixed c ∧ ⟨T.key, e, none, c₀⟩ ∈ T.history s

variable {T} {s t : σ} {last : Option (ℤ × γ)}

omit [DecidableEq κ] in
theorem Tracking.Follows.snapshot {a : α} (h : T.Follows s a t) (hs : T.Snapshot last s) :
    T.Snapshot (T.next last s a t) t := by
  intro c hc
  unfold Tracking.next
  split
  case isTrue hsame =>
    have hmap : (T.row s).map T.tracked = some (T.tracked c) := by rw [← hsame, hc, Option.map_some]
    obtain ⟨c', hc', htracked⟩ := Option.map_eq_some_iff.1 hmap
    obtain ⟨e, c₀, hlast, htracked₀, hfixed, hmem⟩ := hs c' hc'
    exact ⟨e, c₀, hlast, htracked₀.trans htracked, hfixed.trans (h.fixed c' hc' c hc).symm,
      h.stays hsame _ hmem rfl rfl⟩
  case isFalse hchanged =>
    exact ⟨T.effectiveAt s a, c, by rw [hc, Option.map_some], rfl, rfl, h.opened hchanged c hc⟩

omit [DecidableEq κ] in
/-- After a run the open version is the row as it was after the last change. -/
theorem snapshot_lastChange {step : σ → α → Option σ} {I : σ → Prop}
    (hstep : ∀ s a t, I s → step s a = some t → I t)
    (hfollows : ∀ s a t, I s → step s a = some t → T.Follows s a t) {as : List α} (hI : I s)
    (hs : T.Snapshot last s) (ht : exec step s as = some t) :
    T.Snapshot (T.lastChange step last s as) t := by
  induction as generalizing s last with
  | nil =>
    cases ht
    exact hs
  | cons a as ih =>
    obtain ⟨u, hu, ht⟩ := exec_cons_eq_some.1 ht
    simp only [Tracking.lastChange, hu]
    exact ih (hstep s a u hI hu) ((hfollows s a u hI hu).snapshot hs) ht

end Run

end Workforce.Versions
