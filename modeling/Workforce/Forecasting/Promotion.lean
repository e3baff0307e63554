import Mathlib.Data.Rat.Floor
import Workforce.Foundations.Runs
import Workforce.Foundations.Tables

/-!
# Promotion of forecast models

`training_service.py`: a call of `retrain` for an org unit and a metric reads the active model,
trains candidates for minutes, and then writes a row for each of them in one transaction. The best
candidate becomes active when it beats the score of the model that was read by a margin; that model
is deprecated. Any number of calls overlap, and nothing in the schema keeps two models from being
active.

* `decidePromotionWinner`: the pure decision.
* `Unambiguous`: at most one model is active, and each that replaced another met the margin.
* `unambiguous_iff`: exactly when that holds all along a run.
-/

namespace Workforce.Forecasting

open List Function

inductive ForecastModelStatus
  | training
  | active
  | deprecated
  | failed
  deriving DecidableEq

/-- A row of `forecast_models`, of one org unit and metric. -/
structure ForecastModel where
  id : ℕ
  modelType : String
  backtestMape : Option ℚ
  status : ForecastModelStatus
  deriving DecidableEq

/-- `MIN_RELATIVE_IMPROVEMENT`. -/
def minRelativeImprovement : ℚ := 5 / 100

/-- What comes of a candidate. -/
inductive TrainingOutcome
  | trained (id : ℕ) (modelType : String) (backtestMape : Option ℚ)
  | failed (id : ℕ) (modelType : String) (error : String)

def TrainingOutcome.id : TrainingOutcome → ℕ
  | .trained id _ _ | .failed id _ _ => id

/-- `scored`: the trained candidates that have a score. -/
def scored (outcomes : List TrainingOutcome) : List (ℕ × ℚ) :=
  outcomes.filterMap fun
    | .trained id _ (some backtestMape) => some (id, backtestMape)
    | _ => none

/-- Of candidates with one score the first one wins. -/
def decidePromotionWinner (candidates : List (ℕ × ℚ)) (activeMape : Option ℚ) : Option ℕ :=
  match candidates.argmin Prod.snd with
  | none => none
  | some (winnerId, winnerMape) =>
    match activeMape with
    | none => some winnerId
    | some activeMape =>
      if winnerMape ≤ activeMape * (1 - minRelativeImprovement) then some winnerId else none

/-- A value as a column `numeric(precision, scale)` holds it: rounded to its decimals, halves away
from zero; the statement fails when it has too many digits before the point. -/
def toNumeric (precision scale : ℕ) (x : ℚ) : Option ℚ :=
  let magnitude : ℚ := ⌊|x| * 10 ^ scale + 1 / 2⌋ / 10 ^ scale
  if magnitude < 10 ^ (precision - scale) then some (if 0 ≤ x then magnitude else -magnitude)
  else none

/-- A score in its column. -/
def toColumn : ℚ → Option ℚ := toNumeric 10 6

/-- The row that is written for a candidate. -/
def newModel (winnerId : Option ℕ) : TrainingOutcome → ForecastModel
  | .failed id modelType _ => ⟨id, modelType, none, .failed⟩
  | .trained id modelType backtestMape =>
    ⟨id, modelType, backtestMape.bind toColumn,
      if winnerId = some id then .active else .deprecated⟩

def actives (models : List ForecastModel) : List ForecastModel :=
  models.filter fun m => m.status = .active

/-- `UPDATE … SET status = 'deprecated'` for the model that was active when the call began. -/
def deprecateActive (activeModel : Option ForecastModel) (models : List ForecastModel) :
    List ForecastModel :=
  match activeModel with
  | none => models
  | some m => Tables.modify ForecastModel.id m.id (fun r => { r with status := .deprecated }) models

/-- The winner of a call, for what it read and trained. -/
def winnerOf (activeModel : Option ForecastModel) (outcomes : List TrainingOutcome) : Option ℕ :=
  decidePromotionWinner (scored outcomes) (activeModel.bind (·.backtestMape))

/-- The registry, and what every training call has read of it. -/
structure PromotionState where
  models : List ForecastModel
  /-- The calls that are training, with the active model each has read. -/
  calls : ℕ → Option (Option ForecastModel)
  /-- Each model that was active when another was promoted, and that other. -/
  replaced : List (ForecastModel × ForecastModel)

inductive PromotionStep
  /-- A call begins; of several active models it reads any. -/
  | «begin» (q : ℕ) (activeModel : Option ForecastModel)
  | commit (q : ℕ) (outcomes : List TrainingOutcome)
  /-- A call ends without a commit. -/
  | fail (q : ℕ)

/-- What `get_active_model` may return. -/
def Reads (models : List ForecastModel) : Option ForecastModel → Prop
  | none => actives models = []
  | some m => m ∈ actives models

instance (models : List ForecastModel) : ∀ activeModel, Decidable (Reads models activeModel)
  | none => inferInstanceAs (Decidable (_ = _))
  | some _ => inferInstanceAs (Decidable (_ ∈ _))

def promotionStep (s : PromotionState) : PromotionStep → Option PromotionState
  | .begin q activeModel =>
    if s.calls q = none ∧ Reads s.models activeModel then
      some { s with calls := update s.calls q (some activeModel) }
    else none
  | .commit q outcomes =>
    match s.calls q with
    | none => none
    | some activeModel =>
      let winnerId := winnerOf activeModel outcomes
      let rows := outcomes.map (newModel winnerId)
      -- the scores fit their column, and the ids of the new rows are new ones
      if (∀ candidate ∈ scored outcomes, (toColumn candidate.2).isSome) ∧
          (s.models.map ForecastModel.id ++ rows.map ForecastModel.id).Nodup then
        some
          { models := (if winnerId.isSome then deprecateActive activeModel s.models
              else s.models) ++ rows
            calls := update s.calls q none
            replaced := s.replaced ++ actives s.models ×ˢ actives rows }
      else none
  | .fail q =>
    if (s.calls q).isSome then some { s with calls := update s.calls q none } else none

/-! ## One active model -/

/-- The new model is better than the replaced one by the margin. -/
def MeetsMargin (replaced new : ForecastModel) : Prop :=
  ∀ activeMape ∈ replaced.backtestMape, ∀ winnerMape ∈ new.backtestMape,
    winnerMape ≤ activeMape * (1 - minRelativeImprovement)

/-- One active model at most, and no worse one took the place of another. -/
structure Unambiguous (s : PromotionState) : Prop where
  one : (actives s.models).length ≤ 1
  margin : ∀ pair ∈ s.replaced, MeetsMargin pair.1 pair.2

/-- What is active when a call promotes a model is what it has read, and the score of the winner,
as its column holds it, still meets the margin. -/
structure Promotes (s : PromotionState) (activeModel : Option ForecastModel)
    (outcomes : List TrainingOutcome) (winnerId : ℕ) : Prop where
  still : ∀ r ∈ actives s.models, ∃ m ∈ activeModel, m.id = r.id
  margin : ∀ activeMape ∈ activeModel.bind (·.backtestMape), ∀ candidate ∈ scored outcomes,
    candidate.1 = winnerId → ∀ column ∈ toColumn candidate.2,
      column ≤ activeMape * (1 - minRelativeImprovement)

instance (s : PromotionState) (activeModel : Option ForecastModel)
    (outcomes : List TrainingOutcome) (winnerId : ℕ) :
    Decidable (Promotes s activeModel outcomes winnerId) :=
  decidable_of_iff
    ((∀ r ∈ actives s.models, ∃ m ∈ activeModel, m.id = r.id) ∧
      ∀ activeMape ∈ activeModel.bind (·.backtestMape), ∀ candidate ∈ scored outcomes,
        candidate.1 = winnerId → ∀ column ∈ toColumn candidate.2,
          column ≤ activeMape * (1 - minRelativeImprovement))
    ⟨fun h => ⟨h.1, h.2⟩, fun h => ⟨h.still, h.margin⟩⟩

def Undisturbed (s : PromotionState) : PromotionStep → Prop
  | .commit q outcomes => ∀ activeModel ∈ s.calls q, ∀ winnerId ∈ winnerOf activeModel outcomes,
      Promotes s activeModel outcomes winnerId
  | _ => True

instance (s : PromotionState) : DecidablePred (Undisturbed s) := fun step => by
  cases step <;> unfold Undisturbed <;> infer_instance

/-! ## Active models after a commit -/

section Commit

variable {models rows : List ForecastModel} {activeModel : Option ForecastModel}
  {outcomes : List TrainingOutcome} {winnerId : Option ℕ}

theorem actives_append (models rows : List ForecastModel) :
    actives (models ++ rows) = actives models ++ actives rows := filter_append ..

theorem actives_deprecateActive (activeModel : Option ForecastModel) (models : List ForecastModel) :
    actives (deprecateActive activeModel models) =
      (actives models).filter fun r => ¬ ∃ m ∈ activeModel, m.id = r.id := by
  cases activeModel with
  | none => simp [deprecateActive]
  | some m =>
    simp only [deprecateActive, actives, Tables.modify, Option.mem_some_iff, exists_eq_left']
    rw [filter_map, filter_filter]
    have hfilter : models.filter ((fun r => decide (r.status = .active)) ∘ fun r =>
        if r.id = m.id then { r with status := .deprecated } else r) =
        models.filter fun r => decide (¬ m.id = r.id) && decide (r.status = .active) := by
      refine filter_congr fun r _ => ?_
      by_cases hid : r.id = m.id
      · simp [hid]
      · simp [hid, Ne.symm hid]
    rw [hfilter]
    conv_rhs => rw [← map_id (models.filter _)]
    refine map_congr_left fun r hr => if_neg fun hid => ?_
    have hkept := (mem_filter.1 hr).2
    simp [hid] at hkept

theorem map_id_deprecateActive (activeModel : Option ForecastModel) (models : List ForecastModel) :
    (deprecateActive activeModel models).map ForecastModel.id = models.map ForecastModel.id := by
  cases activeModel with
  | none => rfl
  | some m =>
    have hid : ∀ r : ForecastModel, ({ r with status := .deprecated } : ForecastModel).id = r.id :=
      fun _ => rfl
    exact Tables.map_key_modify hid models

theorem mem_deprecateActive (activeModel : Option ForecastModel) {m : ForecastModel}
    (hm : m ∈ models) :
    ∃ r ∈ deprecateActive activeModel models, r.id = m.id ∧ r.backtestMape = m.backtestMape := by
  cases activeModel with
  | none => exact ⟨m, hm, rfl, rfl⟩
  | some a =>
    refine ⟨_, mem_map_of_mem hm, ?_⟩
    split <;> exact ⟨rfl, rfl⟩

theorem newModel_id (winnerId : Option ℕ) (outcome : TrainingOutcome) :
    (newModel winnerId outcome).id = outcome.id := by
  cases outcome <;> rfl

theorem map_newModel_id (winnerId : Option ℕ) (outcomes : List TrainingOutcome) :
    (outcomes.map (newModel winnerId)).map ForecastModel.id =
      outcomes.map TrainingOutcome.id := by
  rw [map_map]
  exact map_congr_left fun outcome _ => newModel_id winnerId outcome

theorem newModel_active {winnerId : Option ℕ} {outcome : TrainingOutcome}
    (h : (newModel winnerId outcome).status = .active) : winnerId = some outcome.id := by
  cases outcome with
  | failed id modelType error => cases h
  | trained id modelType backtestMape =>
    by_contra hno
    have hstatus : (newModel winnerId (.trained id modelType backtestMape)).status =
        .deprecated := if_neg hno
    rw [hstatus] at h
    cases h

theorem actives_newModel_of_ne {winnerId : Option ℕ}
    (h : ∀ outcome ∈ outcomes, winnerId ≠ some outcome.id) :
    actives (outcomes.map (newModel winnerId)) = [] := by
  rw [actives, filter_eq_nil_iff]
  intro row hrow
  obtain ⟨outcome, houtcome, rfl⟩ := mem_map.1 hrow
  rw [decide_eq_true_eq]
  exact fun hactive => h outcome houtcome (newModel_active hactive)

theorem mem_scored {w : ℕ} {x : ℚ} :
    (w, x) ∈ scored outcomes ↔ ∃ modelType, .trained w modelType (some x) ∈ outcomes := by
  rw [scored, mem_filterMap]
  constructor
  · rintro ⟨outcome, houtcome, heq⟩
    split at heq
    · cases heq
      exact ⟨_, houtcome⟩
    · cases heq
  · rintro ⟨modelType, houtcome⟩
    exact ⟨_, houtcome, rfl⟩

theorem actives_newModel {w : ℕ} {x : ℚ} (hids : (outcomes.map TrainingOutcome.id).Nodup)
    (hw : (w, x) ∈ scored outcomes) : ∃ modelType,
      actives (outcomes.map (newModel (some w))) = [⟨w, modelType, toColumn x, .active⟩] := by
  obtain ⟨modelType, hmem⟩ := mem_scored.1 hw
  refine ⟨modelType, ?_⟩
  obtain ⟨before, after, rfl⟩ := append_of_mem hmem
  rw [map_append, map_cons, nodup_middle, nodup_cons, mem_append, not_or] at hids
  have hbefore : ∀ outcome ∈ before, some w ≠ some outcome.id := fun outcome houtcome heq =>
    hids.1.1 (mem_map.2 ⟨outcome, houtcome, (Option.some.inj heq).symm⟩)
  have hafter : ∀ outcome ∈ after, some w ≠ some outcome.id := fun outcome houtcome heq =>
    hids.1.2 (mem_map.2 ⟨outcome, houtcome, (Option.some.inj heq).symm⟩)
  have hself : newModel (some w) (.trained w modelType (some x)) =
      ⟨w, modelType, toColumn x, .active⟩ := by
    simp [newModel]
  rw [map_append, map_cons, actives_append, actives_newModel_of_ne hbefore, hself,
    ← singleton_append, actives_append, actives_newModel_of_ne hafter]
  rfl

theorem winnerOf_mem (h : winnerId = winnerOf activeModel outcomes) :
    ∀ w ∈ winnerId, ∃ x, (w, x) ∈ scored outcomes := by
  subst h
  intro w hw
  simp only [winnerOf, decidePromotionWinner] at hw
  split at hw
  · cases hw
  · rename_i winnerId' winnerMape hmin
    have hmem := argmin_mem hmin
    split at hw
    · cases hw
      exact ⟨winnerMape, hmem⟩
    · split at hw
      · cases hw
        exact ⟨winnerMape, hmem⟩
      · cases hw

end Commit

/-! ## What the steps keep -/

structure PromotionInv (s : PromotionState) : Prop where
  unambiguous : Unambiguous s
  ids : (s.models.map ForecastModel.id).Nodup
  /-- What a call has read is a row of the table, and from then on some model is active. -/
  read : ∀ q m, s.calls q = some (some m) →
    (∃ r ∈ s.models, r.id = m.id ∧ r.backtestMape = m.backtestMape) ∧ actives s.models ≠ []

section Steps

variable {s t : PromotionState} {q : ℕ} {activeModel : Option ForecastModel}
  {outcomes : List TrainingOutcome}

theorem commit_cases (h : promotionStep s (.commit q outcomes) = some t) :
    ∃ activeModel, s.calls q = some activeModel ∧
      (s.models.map ForecastModel.id ++ outcomes.map TrainingOutcome.id).Nodup ∧
      t = { models := (if (winnerOf activeModel outcomes).isSome then
              deprecateActive activeModel s.models else s.models) ++
              outcomes.map (newModel (winnerOf activeModel outcomes))
            calls := update s.calls q none
            replaced := s.replaced ++ actives s.models ×ˢ
              actives (outcomes.map (newModel (winnerOf activeModel outcomes))) } := by
  simp only [promotionStep] at h
  split at h
  · cases h
  · rename_i activeModel hcall
    split at h
    · rename_i hok
      refine ⟨activeModel, hcall, ?_, (Option.some.inj h).symm⟩
      have hnodup := hok.2
      rwa [map_newModel_id] at hnodup
    · cases h

theorem PromotionInv.commit (h : PromotionInv s) {models : List ForecastModel}
    {replaced : List (ForecastModel × ForecastModel)} (hone : (actives models).length ≤ 1)
    (hmargin : ∀ pair ∈ replaced, MeetsMargin pair.1 pair.2)
    (hids : (models.map ForecastModel.id).Nodup)
    (hkept : ∀ m ∈ s.models, ∃ r ∈ models, r.id = m.id ∧ r.backtestMape = m.backtestMape)
    (hactive : actives s.models ≠ [] → actives models ≠ []) :
    PromotionInv ⟨models, update s.calls q none, replaced⟩ := by
  refine ⟨⟨hone, hmargin⟩, hids, fun q' m hcall => ?_⟩
  have hold : s.calls q' = some (some m) := by
    change update s.calls q none q' = some (some m) at hcall
    by_cases hq : q' = q
    · subst hq
      rw [update_self] at hcall
      cases hcall
    · rwa [update_of_ne hq] at hcall
  obtain ⟨⟨r, hr, hid, hmape⟩, hsome⟩ := h.read q' m hold
  obtain ⟨r', hr', hid', hmape'⟩ := hkept r hr
  exact ⟨⟨r', hr', hid'.trans hid, hmape'.trans hmape⟩, hactive hsome⟩

/-- A row that is active now is the one a call has read when they have one id. -/
theorem PromotionInv.mape_eq (h : PromotionInv s) {m r : ForecastModel}
    (hcall : s.calls q = some (some m)) (hr : r ∈ actives s.models) (hid : m.id = r.id) :
    r.backtestMape = m.backtestMape := by
  obtain ⟨⟨r', hr', hid', hmape⟩, -⟩ := h.read q m hcall
  have heq := Tables.eq_of_key_eq h.ids hr' (mem_of_mem_filter hr) (hid'.trans hid)
  exact heq ▸ hmape

theorem commit_none (h : PromotionInv s)
    (hids : (s.models.map ForecastModel.id ++ outcomes.map TrainingOutcome.id).Nodup) :
    PromotionInv ⟨s.models ++ outcomes.map (newModel none), update s.calls q none,
      s.replaced ++ actives s.models ×ˢ actives (outcomes.map (newModel none))⟩ := by
  have hrows : actives (outcomes.map (newModel none)) = [] :=
    actives_newModel_of_ne fun _ _ => (Option.some_ne_none _).symm
  have hactives : actives (s.models ++ outcomes.map (newModel none)) = actives s.models := by
    rw [actives_append, hrows, append_nil]
  have hproduct : actives s.models ×ˢ ([] : List ForecastModel) = [] := product_nil _
  rw [hrows, hproduct, append_nil]
  refine h.commit (hactives ▸ h.unambiguous.one) h.unambiguous.margin ?_
    (fun m hm => ⟨m, mem_append_left _ hm, rfl, rfl⟩) (hactives ▸ fun hsome => hsome)
  rwa [map_append, map_newModel_id]

section Winner

variable {w : ℕ} {x : ℚ}

/-- A promotion is in order, or leaves two active models or one that is not good enough. -/
theorem commit_some (h : PromotionInv s) (hcall : s.calls q = some activeModel)
    (hids : (s.models.map ForecastModel.id ++ outcomes.map TrainingOutcome.id).Nodup)
    (hw : (w, x) ∈ scored outcomes) :
    let t : PromotionState := ⟨deprecateActive activeModel s.models ++
      outcomes.map (newModel (some w)), update s.calls q none,
      s.replaced ++ actives s.models ×ˢ actives (outcomes.map (newModel (some w)))⟩
    (Promotes s activeModel outcomes w ∧ PromotionInv t) ∨
      (¬ Promotes s activeModel outcomes w ∧ ¬ Unambiguous t) := by
  intro t
  have hnodup : (outcomes.map TrainingOutcome.id).Nodup := (nodup_append.1 hids).2.1
  obtain ⟨modelType, hrows⟩ := actives_newModel hnodup hw
  have hactives : actives t.models = ((actives s.models).filter fun r =>
      ¬ ∃ m ∈ activeModel, m.id = r.id) ++ [⟨w, modelType, toColumn x, .active⟩] := by
    simp only [t]
    rw [actives_append, actives_deprecateActive, hrows]
  by_cases hstill : ∀ r ∈ actives s.models, ∃ m ∈ activeModel, m.id = r.id
  · have hothers : (actives s.models).filter (fun r => ¬ ∃ m ∈ activeModel, m.id = r.id) = [] := by
      rw [filter_eq_nil_iff]
      intro r hr
      simpa using hstill r hr
    have hone : actives t.models = [⟨w, modelType, toColumn x, .active⟩] := by
      rw [hactives, hothers]
      rfl
    by_cases hpromotes : Promotes s activeModel outcomes w
    · refine .inl ⟨hpromotes, h.commit (by rw [hone]; exact le_rfl) (fun pair hpair => ?_) ?_
        (fun m hm => ?_) fun _ => by rw [hone]; exact cons_ne_nil _ _⟩
      · rcases mem_append.1 hpair with hold | hnew
        · exact h.unambiguous.margin pair hold
        · rw [hrows] at hnew
          obtain ⟨hr, hrow⟩ := mem_product.1 hnew
          obtain ⟨m, hm, hid⟩ := hstill pair.1 hr
          intro activeMape hactiveMape winnerMape hwinnerMape
          rw [h.mape_eq (m := m) (hm ▸ hcall) hr hid] at hactiveMape
          rw [mem_singleton.1 hrow] at hwinnerMape
          exact hpromotes.margin activeMape (Option.mem_bind_iff.2 ⟨m, hm, hactiveMape⟩) (w, x) hw
            rfl winnerMape hwinnerMape
      · rwa [map_append, map_newModel_id, map_id_deprecateActive]
      · obtain ⟨r, hr, hkept⟩ := mem_deprecateActive activeModel hm
        exact ⟨r, mem_append_left _ hr, hkept⟩
    · refine .inr ⟨hpromotes, fun hunambiguous => hpromotes ⟨hstill, ?_⟩⟩
      intro activeMape hactiveMape ⟨candidateId, score⟩ hcandidate hid column hcolumn
      have hcandidate' : (w, score) ∈ scored outcomes := by rwa [← hid]
      obtain ⟨m, rfl, hmape⟩ := Option.mem_bind_iff.1 hactiveMape
      obtain ⟨r, hr⟩ := exists_mem_of_ne_nil _ (h.read q m hcall).2
      obtain ⟨m', hm', hid'⟩ := hstill r hr
      obtain rfl := Option.some.inj hm'
      have hpair : (r, (⟨w, modelType, toColumn x, .active⟩ : ForecastModel)) ∈ t.replaced := by
        refine mem_append_right _ ?_
        rw [hrows]
        exact mem_product.2 ⟨hr, mem_singleton.2 rfl⟩
      have hscore : score = x := by
        obtain ⟨modelType₁, hmem₁⟩ := mem_scored.1 hcandidate'
        obtain ⟨modelType₂, hmem₂⟩ := mem_scored.1 hw
        have heq := Tables.eq_of_key_eq hnodup hmem₁ hmem₂ rfl
        injection heq with _ _ hsome
        exact Option.some.inj hsome
      refine hunambiguous.margin _ hpair activeMape ?_ column (hscore ▸ hcolumn)
      rw [h.mape_eq hcall hr hid']
      exact hmape
  · refine .inr ⟨fun hpromotes => hstill hpromotes.still, fun hunambiguous => hstill ?_⟩
    intro r hr
    by_contra hno
    have hone := hunambiguous.one
    rw [hactives, length_append, length_singleton] at hone
    have hmem : r ∈ (actives s.models).filter fun r => ¬ ∃ m ∈ activeModel, m.id = r.id :=
      mem_filter.2 ⟨hr, decide_eq_true hno⟩
    have hpos := length_pos_of_mem hmem
    omega

end Winner

/-- A step keeps the active model unambiguous, or promotes one that it should not. -/
theorem promotionStep_cases {step : PromotionStep} (h : PromotionInv s)
    (hstep : promotionStep s step = some t) :
    (Undisturbed s step ∧ PromotionInv t) ∨ (¬ Undisturbed s step ∧ ¬ Unambiguous t) := by
  cases step with
  | «begin» q activeModel =>
    simp only [promotionStep] at hstep
    split at hstep
    · rename_i hok
      cases hstep
      refine .inl ⟨trivial, ⟨h.unambiguous.one, h.unambiguous.margin⟩, h.ids, fun q' m hcall => ?_⟩
      change update s.calls q (some activeModel) q' = some (some m) at hcall
      by_cases hq : q' = q
      · subst hq
        rw [update_self] at hcall
        cases hcall
        exact ⟨⟨m, mem_of_mem_filter hok.2, rfl, rfl⟩, ne_nil_of_mem hok.2⟩
      · rw [update_of_ne hq] at hcall
        exact h.read q' m hcall
    · cases hstep
  | commit q outcomes =>
    obtain ⟨activeModel, hcall, hids, rfl⟩ := commit_cases hstep
    have hundisturbed : Undisturbed s (.commit q outcomes) ↔
        ∀ w ∈ winnerOf activeModel outcomes, Promotes s activeModel outcomes w := by
      simp [Undisturbed, hcall]
    rw [hundisturbed]
    cases hwinner : winnerOf activeModel outcomes with
    | none => exact .inl ⟨fun _ hw => absurd hw (Option.not_mem_none _), commit_none h hids⟩
    | some w =>
      obtain ⟨x, hx⟩ := winnerOf_mem hwinner.symm w rfl
      simp only [Option.mem_some_iff, forall_eq', Option.isSome_some, if_true]
      exact commit_some h hcall hids hx
  | fail q =>
    simp only [promotionStep] at hstep
    split at hstep
    · cases hstep
      refine .inl ⟨trivial, ⟨h.unambiguous.one, h.unambiguous.margin⟩, h.ids, fun q' m hcall => ?_⟩
      change update s.calls q none q' = some (some m) at hcall
      by_cases hq : q' = q
      · subst hq
        rw [update_self] at hcall
        cases hcall
      · rw [update_of_ne hq] at hcall
        exact h.read q' m hcall
    · cases hstep

end Steps

/-! ## Runs of overlapping calls -/

def PromotionState.init (models : List ForecastModel) : PromotionState :=
  ⟨models, fun _ => none, []⟩

/-- **When promotions are unambiguous**: in every state of a run of overlapping calls at most one
model is active and each model that was replaced was beaten by the margin, exactly when whatever is
active when a call promotes its winner is the model it read at its beginning, and the winner's
score, rounded to the decimals of its column, still meets the margin. -/
theorem unambiguous_iff {models : List ForecastModel} {steps : List PromotionStep}
    {t : PromotionState} (hids : (models.map ForecastModel.id).Nodup)
    (hone : (actives models).length ≤ 1)
    (h : Runs.exec promotionStep (.init models) steps = some t) :
    Runs.Always promotionStep Unambiguous (.init models) steps ↔
      Runs.Meets promotionStep Undisturbed (.init models) steps := by
  have hinit : PromotionInv (.init models) := by
    refine ⟨⟨hone, forall_mem_nil _⟩, hids, fun _ _ hcall => ?_⟩
    cases hcall
  refine Runs.always_iff_meets (fun _ => PromotionInv.unambiguous)
    (fun s step t hinv hok hstep => ?_) (fun s step t hinv hno hstep => ?_) hinit h
  · exact (promotionStep_cases hinv hstep).elim And.right fun h => absurd hok h.1
  · exact (promotionStep_cases hinv hstep).elim (fun h => absurd h.1 hno) And.right

/-- A model is promoted, and a call that begins after that replaces it. -/
def oneByOne : List PromotionStep :=
  [.begin 0 none, .commit 0 [.trained 1 "sarima" (some 10), .failed 2 "prophet" "no data"],
    .begin 1 (some ⟨1, "sarima", some 10, .active⟩), .commit 1 [.trained 3 "lightgbm" (some 9)]]

theorem oneByOne_unambiguous :
    Runs.Always promotionStep Unambiguous (.init []) oneByOne := by
  obtain ⟨t, ht, -⟩ : ∃ t, Runs.exec promotionStep (.init []) oneByOne = some t ∧
      (actives t.models).length = 1 := Runs.exists_exec (by decide +kernel)
  exact (unambiguous_iff (by decide) (by decide) ht).2 (by decide +kernel)

/-- Two calls begin before a model is active. -/
def overlapping : List PromotionStep :=
  [.begin 0 none, .begin 1 none, .commit 0 [.trained 1 "sarima" (some 10)],
    .commit 1 [.trained 2 "prophet" (some 12)]]

theorem overlapping_not_unambiguous : ∃ t,
    Runs.exec promotionStep (.init []) overlapping = some t ∧
    (actives t.models).map (·.id) = [1, 2] ∧ ¬ Unambiguous t := by
  obtain ⟨t, ht, hactives⟩ : ∃ t, Runs.exec promotionStep (.init []) overlapping = some t ∧
      (actives t.models).map (·.id) = [1, 2] := Runs.exists_exec (by decide +kernel)
  refine ⟨t, ht, hactives, fun hunambiguous => ?_⟩
  have hone := hunambiguous.one
  rw [← length_map (f := (·.id)), hactives] at hone
  exact absurd hone (by decide)

end Workforce.Forecasting
