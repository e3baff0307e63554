import Workforce.Intraday.Alerts

/-!
# The life of an alert

The calls of the alert services overlap: each reads its alert, then saves what it has made of it,
and `save` reads the row once more and writes the columns that differ from it. A tick of the
escalation scheduler reads the stale alerts, and then updates and publishes them one by one. Every
transaction has one write, which its commit follows.

* `lifecycle_iff`: in a run no alert that is resolved becomes anything else, and only open alerts
  are escalated, exactly when every save of another status finds its alert not resolved, or resolves
  it, and no save has left a row of a tick another status than open since the query of the tick.
-/

namespace Workforce.Intraday.Alerting

open Tables List Function

/-- `save`: the columns that nothing assigns after the insert are as they were. -/
def saveOver (loaded saved row : Alert) : Alert :=
  { row with
    severity := saveColumn loaded.severity saved.severity row.severity
    status := saveColumn loaded.status saved.status row.status
    lastTriggeredAt := saveColumn loaded.lastTriggeredAt saved.lastTriggeredAt row.lastTriggeredAt
    escalatedAt := saveColumn loaded.escalatedAt saved.escalatedAt row.escalatedAt
    acknowledgedBy := saveColumn loaded.acknowledgedBy saved.acknowledgedBy row.acknowledgedBy
    acknowledgedAt := saveColumn loaded.acknowledgedAt saved.acknowledgedAt row.acknowledgedAt
    resolvedAt := saveColumn loaded.resolvedAt saved.resolvedAt row.resolvedAt }

/-- Where a call, or a tick, is. -/
inductive Call
  | idle
  /-- An alert is to be saved. -/
  | saving (saved : Alert)
  /-- `save` has read the row. -/
  | loaded (saved row : Alert)
  /-- A new alert is to be inserted. -/
  | inserting (alert : Alert)
  /-- Stale alerts are to be escalated. -/
  | escalating (rows : List Alert)

structure LifecycleState (ι : Type*) where
  alerts : List Alert
  published : List Alert
  calls : ι → Call
  /-- The status that a save has last given an alert since the query of each tick. -/
  saves : ι → ℕ → Option AlertStatus
  /-- The alerts that have been resolved at some time. -/
  resolvedOnce : List ℕ
  /-- The status that each alert had when it was escalated. -/
  escalatedFrom : List AlertStatus

inductive LifecycleStep (ι : Type*)
  | raise (i : ι) (candidate : AlertCandidate) (id groupId : ℕ) (now : ℤ)
  | resolve (i : ι) (cause : Cause) (now : ℤ)
  | acknowledge (i : ι) (tenantId alertId actorId : ℕ) (now : ℤ)
  | load (i : ι)
  | save (i : ι)
  | insert (i : ι)
  /-- The query of a tick returns the stale alerts in some order. -/
  | scan (i : ι) (rows : List Alert) (now : ℤ)
  | escalate (i : ι) (now : ℤ)
  /-- A call fails before its write, or a tick ends. -/
  | stop (i : ι)

variable {ι : Type*} [DecidableEq ι]

namespace LifecycleState

def init : LifecycleState ι := ⟨[], [], fun _ => .idle, fun _ _ => none, [], []⟩

variable (s : LifecycleState ι)

def setCall (i : ι) (c : Call) : LifecycleState ι :=
  { s with calls := update s.calls i c }

omit [DecidableEq ι] in
def tables : AlertState := ⟨s.alerts, s.published⟩

omit [DecidableEq ι] in
/-- A row is rewritten. -/
def rewrite (id : ℕ) (f : Alert → Alert) : LifecycleState ι :=
  let alerts := modify (·.id) id f s.alerts
  { s with
    alerts := alerts
    resolvedOnce := s.resolvedOnce ++ (alerts.filter (·.status = .resolved)).map (·.id) }

omit [DecidableEq ι] in
def save (saved row : Alert) : LifecycleState ι :=
  { s.rewrite saved.id (saveOver row saved) with
    saves := fun i =>
      if saved.status = row.status then s.saves i
      else update (s.saves i) saved.id (some saved.status) }

end LifecycleState

section Steps

variable (latest : List Alert → Option Alert) (policies : ℕ → Option ResolvedAlertPolicy)

/-- How `raiseAlert` goes on after its queries. -/
def raiseNext (s : AlertState) (candidate : AlertCandidate) (id groupId : ℕ) (now : ℤ) : Call :=
  let policy := getPolicy policies candidate.cause.tenantId
  let mostRecent := latest (s.unresolved candidate.cause)
  match mostRecent, isDuplicate policy mostRecent now with
  | some m, true => .saving { m with lastTriggeredAt := now }
  | _, _ => .inserting (newAlert policy candidate mostRecent id groupId now)

def lifecycleStep (s : LifecycleState ι) : LifecycleStep ι → Option (LifecycleState ι)
  | .raise i candidate id groupId now =>
    match s.calls i with
    | .idle => some (s.setCall i (raiseNext latest policies s.tables candidate id groupId now))
    | _ => none
  | .resolve i cause now =>
    match s.calls i with
    | .idle =>
      match latest (s.tables.unresolved cause) with
      | none => some s
      | some active =>
        some (s.setCall i (.saving { active with status := .resolved, resolvedAt := some now }))
    | _ => none
  | .acknowledge i tenantId alertId actorId now =>
    match s.calls i with
    | .idle =>
      match s.tables.findAlert tenantId alertId with
      | none => some s
      | some alert => some (s.setCall i (.saving (alert.acknowledge actorId now)))
    | _ => none
  | .load i =>
    match s.calls i with
    | .saving saved =>
      (lookup (·.id) saved.id s.alerts).map fun row => s.setCall i (.loaded saved row)
    | _ => none
  | .save i =>
    match s.calls i with
    | .loaded saved row => some ((s.save saved row).setCall i .idle)
    | _ => none
  | .insert i =>
    match s.calls i with
    | .inserting alert =>
      if alert.id ∈ s.alerts.map (·.id) then none
      else
        let tables := s.tables.insert alert
        let t := { s with alerts := tables.alerts, published := tables.published }
        some (t.setCall i .idle)
    | _ => none
  | .scan i rows now =>
    match s.calls i with
    | .idle =>
      if rows.Perm (escalationCandidates policies s.tables now) then
        let t := { s with saves := update s.saves i fun _ => none }
        some (t.setCall i (.escalating rows))
      else none
    | _ => none
  | .escalate i now =>
    match s.calls i with
    | .escalating (row :: rows) =>
      let t := s.rewrite row.id (·.escalate now)
      some ({ t with
        published := t.published ++ [row.escalation now]
        escalatedFrom := t.escalatedFrom ++
          ((lookup Alert.id row.id s.alerts).map Alert.status).toList }.setCall i
            (.escalating rows))
    | _ => none
  | .stop i => some (s.setCall i .idle)

end Steps

/-- No alert that was resolved is anything else, and only open alerts have been escalated. -/
structure LifecycleState.Sound (s : LifecycleState ι) : Prop where
  resolved : ∀ a ∈ s.alerts, a.id ∈ s.resolvedOnce → a.status = .resolved
  escalated : ∀ status ∈ s.escalatedFrom, status = .open

instance : DecidablePred (LifecycleState.Sound (ι := ι)) := fun _ =>
  decidable_of_iff (_ ∧ _) ⟨fun h => ⟨h.1, h.2⟩, fun h => ⟨h.1, h.2⟩⟩

/-- A save that is about to write another status than it has read finds the alert not resolved, or
resolves it. -/
def Call.SavesCurrent (alerts : List Alert) : Call → Prop
  | .loaded saved row => saved.status ≠ row.status → saved.status ≠ .resolved →
      ∀ a ∈ alerts, a.id = saved.id → a.status ≠ .resolved
  | _ => True

instance (alerts : List Alert) : DecidablePred (Call.SavesCurrent alerts) := fun a => by
  cases a <;> unfold Call.SavesCurrent <;> infer_instance

/-- The next alert that is escalated has not been saved with another status than open. -/
def Call.EscalatesUnsaved (saves : ℕ → Option AlertStatus) : Call → Prop
  | .escalating (row :: _) => ∀ status ∈ saves row.id, status = .open
  | _ => True

instance (saves : ℕ → Option AlertStatus) (call : Call) :
    Decidable (call.EscalatesUnsaved saves) := by
  unfold Call.EscalatesUnsaved
  split <;> infer_instance

/-- A save writes over what it takes the alert for, and an escalation over what the query found. -/
def Current (s : LifecycleState ι) : LifecycleStep ι → Prop
  | .save i => (s.calls i).SavesCurrent s.alerts
  | .escalate i _ => (s.calls i).EscalatesUnsaved (s.saves i)
  | _ => True

instance (s : LifecycleState ι) : DecidablePred (Current s) := fun a => by
  cases a <;> unfold Current <;> infer_instance

/-! ## The invariant -/

/-- A new alert is not resolved, and a stale one was open at the query. -/
def Call.Fits (alerts : List Alert) (saves : ℕ → Option AlertStatus) : Call → Prop
  | .inserting alert => alert.status ≠ .resolved
  | .escalating rows => ∀ row ∈ rows, ∃ a ∈ alerts,
      a.id = row.id ∧ a.status = (saves row.id).getD .open
  | _ => True

theorem Call.Fits.mono {alerts alerts' : List Alert} {saves saves' : ℕ → Option AlertStatus}
    {c : Call} (h : c.Fits alerts saves)
    (hkeep : ∀ a ∈ alerts, a.status = (saves a.id).getD .open →
      ∃ b ∈ alerts', b.id = a.id ∧ b.status = (saves' a.id).getD .open) :
    c.Fits alerts' saves' := by
  cases c with
  | escalating rows =>
    intro row hrow
    obtain ⟨a, ha, hid, hstatus⟩ := h row hrow
    rw [← hid] at hstatus ⊢
    exact hkeep a ha hstatus
  | idle | saving _ | loaded _ _ | inserting _ => exact h

namespace LifecycleState

structure Inv (s : LifecycleState ι) : Prop where
  nodup : (s.alerts.map (·.id)).Nodup
  marked : ∀ a ∈ s.alerts, a.status = .resolved → a.id ∈ s.resolvedOnce
  known : ∀ id ∈ s.resolvedOnce, id ∈ s.alerts.map (·.id)
  fits : ∀ i, (s.calls i).Fits s.alerts (s.saves i)
  sound : s.Sound

variable {s : LifecycleState ι} {i : ι} {c : Call} {id : ℕ} {f : Alert → Alert}

theorem Inv.setCall (h : s.Inv) (hc : c.Fits s.alerts (s.saves i)) : (s.setCall i c).Inv := by
  refine ⟨h.nodup, h.marked, h.known, fun j => ?_, h.sound.1, h.sound.2⟩
  change (update s.calls i c j).Fits s.alerts (s.saves j)
  by_cases hij : j = i
  · rw [hij, update_self]
    exact hc
  · rw [update_of_ne hij]
    exact h.fits j

omit [DecidableEq ι] in
theorem map_id_rewrite (hf : ∀ a, (f a).id = a.id) :
    (s.rewrite id f).alerts.map (·.id) = s.alerts.map (·.id) :=
  map_key_modify hf s.alerts

omit [DecidableEq ι] in
theorem Inv.rewrite {saves : ι → ℕ → Option AlertStatus} (h : s.Inv) (hf : ∀ a, (f a).id = a.id)
    (hkeep : ∀ a ∈ s.alerts, a.id = id → a.status = .resolved → (f a).status = .resolved)
    (hsaves : ∀ i, ∀ a ∈ s.alerts, a.status = (s.saves i a.id).getD .open →
      (if a.id = id then f a else a).status = (saves i a.id).getD .open) :
    ({ s.rewrite id f with saves := saves } : LifecycleState ι).Inv := by
  have hnodup : ((s.rewrite id f).alerts.map (·.id)).Nodup := by
    rw [map_id_rewrite hf]
    exact h.nodup
  have hmarked : ∀ a ∈ (s.rewrite id f).alerts, a.status = .resolved →
      a.id ∈ (s.rewrite id f).resolvedOnce := fun a ha hresolved =>
    mem_append_right _ (mem_map_of_mem
      (mem_filter.2 ⟨ha, decide_eq_true hresolved⟩))
  refine ⟨hnodup, hmarked, ?_, fun i => (h.fits i).mono fun a ha hstatus => ?_, ?_, h.sound.2⟩
  · intro x hx
    rcases mem_append.1 hx with hx | hx
    · rw [map_id_rewrite hf]
      exact h.known x hx
    · obtain ⟨a, ha, rfl⟩ := mem_map.1 hx
      exact mem_map_of_mem (mem_filter.1 ha).1
  · refine ⟨_, mem_map_of_mem ha, ?_, hsaves i a ha hstatus⟩
    split
    · exact hf a
    · rfl
  · intro a ha hx
    rcases mem_append.1 hx with hx | hx
    · rcases mem_modify.1 ha with ⟨b, hb, hid, rfl⟩ | ⟨hb, -⟩
      · rw [hf] at hx
        exact hkeep b hb hid (h.sound.resolved b hb hx)
      · exact h.sound.resolved a hb hx
    · obtain ⟨b, hb, hid⟩ := mem_map.1 hx
      obtain ⟨hb, hresolved⟩ := mem_filter.1 hb
      rw [← eq_of_key_eq hnodup hb ha hid]
      exact of_decide_eq_true hresolved

omit [DecidableEq ι] in
theorem Inv.not_sound_rewrite (h : s.Inv) (hf : ∀ a, (f a).id = a.id) {a : Alert}
    (ha : a ∈ s.alerts) (hid : a.id = id) (hresolved : a.status = .resolved)
    (hleft : (f a).status ≠ .resolved) : ¬ (s.rewrite id f).Sound := by
  intro hsound
  have hmem : f a ∈ (s.rewrite id f).alerts := mem_modify.2 (.inl ⟨a, ha, hid, rfl⟩)
  refine hleft (hsound.resolved _ hmem (mem_append_left _ ?_))
  rw [hf]
  exact h.marked a ha hresolved

omit [DecidableEq ι] in
theorem inv_init_lifecycle : (init : LifecycleState ι).Inv where
  nodup := nodup_nil
  marked := fun _ ha => absurd ha not_mem_nil
  known := fun _ hid => absurd hid not_mem_nil
  fits := fun _ => trivial
  sound := ⟨fun _ ha => absurd ha not_mem_nil, fun _ h => absurd h not_mem_nil⟩

end LifecycleState

/-! ## What each step does -/

section Runs

variable {latest : List Alert → Option Alert} {policies : ℕ → Option ResolvedAlertPolicy}
  {s t : LifecycleState ι} {i : ι}

theorem status_newAlert (policy : ResolvedAlertPolicy) (candidate : AlertCandidate)
    (mostRecent : Option Alert) (id groupId : ℕ) (now : ℤ) :
    (newAlert policy candidate mostRecent id groupId now).status ≠ .resolved := by
  simp only [newAlert]
  split <;> exact AlertStatus.noConfusion

theorem raiseNext_fits {candidate : AlertCandidate} {id groupId : ℕ} {now : ℤ}
    {tables : AlertState} {alerts : List Alert} {saves : ℕ → Option AlertStatus} :
    (raiseNext latest policies tables candidate id groupId now).Fits alerts saves := by
  unfold raiseNext
  dsimp only
  split
  · exact trivial
  · exact status_newAlert _ _ _ _ _ _

omit [DecidableEq ι] in
theorem save_cases {saved row : Alert} (h : s.Inv) (hcall : s.calls i = .loaded saved row) :
    (s.calls i).SavesCurrent s.alerts ∧ (s.save saved row).Inv ∨
      ¬ (s.calls i).SavesCurrent s.alerts ∧ ¬ (s.save saved row).Sound := by
  rw [hcall]
  by_cases hcurrent : (Call.loaded saved row).SavesCurrent s.alerts
  · refine .inl ⟨hcurrent, h.rewrite (fun _ => rfl) (fun a ha hid hresolved => ?_)
      fun j a _ hstatus => ?_⟩
    · change saveColumn row.status saved.status a.status = .resolved
      unfold saveColumn
      split
      · exact hresolved
      · rename_i hne
        by_contra hno
        exact hcurrent hne hno a ha hid hresolved
    · by_cases hid : a.id = saved.id
      · simp only [hid, if_true, saveOver, saveColumn] at hstatus ⊢
        split
        · exact hstatus
        · rw [update_self, Option.getD_some]
      · rw [if_neg hid, hstatus]
        split
        · rfl
        · rw [update_of_ne hid]
  · refine .inr ⟨hcurrent, ?_⟩
    simp only [Call.SavesCurrent, Classical.not_imp, not_forall, not_not] at hcurrent
    obtain ⟨hne, hno, a, ha, hid, hresolved⟩ := hcurrent
    have hleft : (saveOver row saved a).status ≠ .resolved := by
      change saveColumn row.status saved.status a.status ≠ .resolved
      rw [saveColumn, if_neg hne]
      exact hno
    have hid' : ∀ b, (saveOver row saved b).id = b.id := fun _ => rfl
    exact fun hsound => h.not_sound_rewrite hid' ha hid hresolved hleft ⟨hsound.1, hsound.2⟩

theorem escalate_cases {row : Alert} {rows : List Alert} {now : ℤ} (h : s.Inv)
    (hcall : s.calls i = .escalating (row :: rows))
    (hstep : lifecycleStep latest policies s (.escalate i now) = some t) :
    (s.calls i).EscalatesUnsaved (s.saves i) ∧ t.Inv ∨
      ¬ (s.calls i).EscalatesUnsaved (s.saves i) ∧ ¬ t.Sound := by
  simp only [lifecycleStep, hcall] at hstep
  cases hstep
  have hfits := h.fits i
  rw [hcall] at hfits ⊢
  -- the row is what the query and the saves since have made of it
  obtain ⟨a, ha, hid, hstatus⟩ := hfits row mem_cons_self
  have hlookup : lookup Alert.id row.id s.alerts = some a := by
    rw [← hid]
    exact lookup_eq_some h.nodup ha
  have hopen : a.status = .open ↔ (Call.escalating (row :: rows)).EscalatesUnsaved (s.saves i) := by
    rw [hstatus]
    change _ ↔ ∀ status ∈ s.saves i row.id, status = .open
    cases s.saves i row.id <;> simp
  have hinv : (s.rewrite row.id (·.escalate now)).Inv :=
    h.rewrite (fun _ => rfl) (fun _ _ _ hresolved => hresolved) fun _ a _ hkept => by
      split <;> exact hkept
  by_cases hcurrent : (Call.escalating (row :: rows)).EscalatesUnsaved (s.saves i)
  · refine .inl ⟨hcurrent, LifecycleState.Inv.setCall ⟨hinv.nodup, hinv.marked, hinv.known,
      hinv.fits, hinv.sound.resolved, fun status hmem => ?_⟩ ?_⟩
    · rw [hlookup] at hmem
      rcases Tables.mem_concat.1 hmem with hmem | rfl
      · exact h.sound.escalated status hmem
      · exact hopen.2 hcurrent
    · have hrows := hinv.fits i
      rw [show (s.rewrite row.id (·.escalate now)).calls i = _ from hcall] at hrows
      exact fun r hr => hrows r (mem_cons_of_mem _ hr)
  · refine .inr ⟨hcurrent, fun hsound => hcurrent (hopen.1 ?_)⟩
    refine hsound.escalated a.status (mem_append_right _ ?_)
    rw [hlookup]
    exact mem_singleton_self _

omit [DecidableEq ι] in
theorem LifecycleState.Inv.insert {alert : Alert} (h : s.Inv)
    (hfresh : alert.id ∉ s.alerts.map (·.id)) (hstatus : alert.status ≠ .resolved)
    {published : List Alert} :
    ({ s with alerts := s.alerts ++ [alert], published := published } : LifecycleState ι).Inv := by
  have hne : ∀ r ∈ s.alerts, r.id ≠ alert.id := by
    intro r hr hid
    exact hfresh (mem_map.2 ⟨r, hr, hid⟩)
  refine ⟨nodup_append_singleton h.nodup hne, ?_, ?_, fun i => (h.fits i).mono fun a ha hstatus =>
    ⟨a, mem_append_left _ ha, rfl, hstatus⟩, ?_, h.sound.escalated⟩
  · intro a ha hresolved
    rcases Tables.mem_concat.1 ha with ha | rfl
    · exact h.marked a ha hresolved
    · exact absurd hresolved hstatus
  · intro id hid
    rw [map_append]
    exact mem_append_left _ (h.known id hid)
  · intro a ha hid
    rcases Tables.mem_concat.1 ha with ha | rfl
    · exact h.sound.resolved a ha hid
    · exact absurd (h.known _ hid) hfresh

/-- The rows of a tick are open at its query. -/
theorem LifecycleState.Inv.scan {rows : List Alert} {now : ℤ} (h : s.Inv)
    (hcall : s.calls i = .idle)
    (hperm : rows.Perm (escalationCandidates policies s.tables now)) :
    (LifecycleState.setCall { s with saves := update s.saves i fun _ => none } i
      (.escalating rows)).Inv := by
  refine LifecycleState.Inv.setCall ⟨h.nodup, h.marked, h.known, fun j => ?_, h.sound.1, h.sound.2⟩
    fun row hrow => ?_
  · by_cases hij : j = i
    · rw [hij, hcall]
      exact trivial
    · change (s.calls j).Fits s.alerts (update s.saves i _ j)
      rw [update_of_ne hij]
      exact h.fits j
  · obtain ⟨hmem, hstale⟩ := mem_filter.1 (hperm.mem_iff.1 hrow)
    refine ⟨row, hmem, rfl, ?_⟩
    change row.status = (update s.saves i (fun _ => none) i row.id).getD .open
    rw [update_self, Option.getD_none]
    exact (of_decide_eq_true hstale).1

/-- Each step keeps the invariant, or what it finds is not what it takes the alert for and the
alert's life is not sound any more. -/
theorem lifecycleStep_cases {a : LifecycleStep ι} (h : s.Inv)
    (hstep : lifecycleStep latest policies s a = some t) :
    Current s a ∧ t.Inv ∨ ¬ Current s a ∧ ¬ t.Sound := by
  cases a with
  | raise i candidate id groupId now =>
    simp only [lifecycleStep] at hstep
    split at hstep
    · cases hstep
      exact .inl ⟨trivial, h.setCall raiseNext_fits⟩
    · cases hstep
  | resolve i cause now =>
    simp only [lifecycleStep] at hstep
    split at hstep
    · split at hstep
      · cases hstep
        exact .inl ⟨trivial, h⟩
      · cases hstep
        exact .inl ⟨trivial, h.setCall trivial⟩
    · cases hstep
  | acknowledge i tenantId alertId actorId now =>
    simp only [lifecycleStep] at hstep
    split at hstep
    · split at hstep
      · cases hstep
        exact .inl ⟨trivial, h⟩
      · cases hstep
        exact .inl ⟨trivial, h.setCall trivial⟩
    · cases hstep
  | load i =>
    simp only [lifecycleStep] at hstep
    split at hstep
    · obtain ⟨row, -, rfl⟩ := Option.map_eq_some_iff.1 hstep
      exact .inl ⟨trivial, h.setCall trivial⟩
    · cases hstep
  | save i =>
    simp only [lifecycleStep] at hstep
    split at hstep
    · rename_i saved row hcall
      cases hstep
      rcases save_cases h hcall with ⟨hcurrent, hinv⟩ | ⟨hstale, hnot⟩
      · exact .inl ⟨hcurrent, hinv.setCall trivial⟩
      · exact .inr ⟨hstale, fun hsound => hnot ⟨hsound.resolved, hsound.escalated⟩⟩
    · cases hstep
  | insert i =>
    simp only [lifecycleStep] at hstep
    split at hstep
    · rename_i alert hcall
      split at hstep
      · cases hstep
      · rename_i hfresh
        cases hstep
        have hfits := h.fits i
        rw [hcall] at hfits
        exact .inl ⟨trivial, (h.insert hfresh hfits).setCall trivial⟩
    · cases hstep
  | scan i rows now =>
    simp only [lifecycleStep] at hstep
    split at hstep
    · rename_i hcall
      split at hstep
      · rename_i hperm
        cases hstep
        exact .inl ⟨trivial, h.scan hcall hperm⟩
      · cases hstep
    · cases hstep
  | escalate i now =>
    have hstep' := hstep
    simp only [lifecycleStep] at hstep'
    split at hstep'
    · rename_i row rows hcall
      exact escalate_cases h hcall hstep
    · cases hstep'
  | stop i =>
    cases hstep
    exact .inl ⟨trivial, h.setCall trivial⟩

/-- **The life of an alert**: in a run of overlapping calls and ticks no alert that is resolved
becomes anything else, and only open alerts are escalated, exactly when every save of another status
finds its alert not resolved, or resolves it, and no save has left the row of an escalation another
status than open since the query of its tick. -/
theorem lifecycle_iff {steps : List (LifecycleStep ι)}
    (hrun : Runs.exec (lifecycleStep latest policies) .init steps = some t) :
    Runs.Always (lifecycleStep latest policies) LifecycleState.Sound .init steps ↔
      Runs.Meets (lifecycleStep latest policies) Current .init steps := by
  refine Runs.always_iff_meets (I := LifecycleState.Inv) (fun _ h => h.sound) ?_ ?_
    LifecycleState.inv_init_lifecycle hrun
  · intro s a t h hok hstep
    rcases lifecycleStep_cases h hstep with ⟨-, ht⟩ | ⟨hno, -⟩
    · exact ht
    · exact absurd hok hno
  · intro s a t h hno hstep
    rcases lifecycleStep_cases h hstep with ⟨hok, -⟩ | ⟨-, ht⟩
    · exact absurd hok hno
    · exact ht

/-- Two callers, with the default policy. -/
noncomputable abbrev defaultLifecycleStep :
    LifecycleState Bool → LifecycleStep Bool → Option (LifecycleState Bool) :=
  lifecycleStep (argmax Alert.createdAt) fun _ => none

/-- An alert is raised. -/
def raised : List (LifecycleStep Bool) :=
  [.raise false ⟨serviceLevelBreach 1 10, .warning⟩ 1 100 0, .insert false]

/-- An acknowledgement that a recovery follows, and a tick that finds nothing to do. -/
def acknowledgedAndResolved : List (LifecycleStep Bool) :=
  raised ++ [.acknowledge false 1 1 7 60000, .load false, .save false,
    .resolve true (serviceLevelBreach 1 10) 120000, .load true, .save true,
    .scan false [] 3600000, .stop false]

theorem lifecycle_of_acknowledgedAndResolved :
    Runs.Always defaultLifecycleStep LifecycleState.Sound .init acknowledgedAndResolved := by
  have hrun : ∃ t, Runs.exec defaultLifecycleStep .init acknowledgedAndResolved = some t ∧
      t.alerts.map (·.status) = [.resolved] := Runs.exists_exec (by decide)
  obtain ⟨t, ht, -⟩ := hrun
  exact (lifecycle_iff ht).2 (by decide)

/-- An alert that has been resolved is acknowledged; and one that is acknowledged between the query
of a tick and the update is escalated. -/
theorem lifecycle_broken :
    ¬ Runs.Always defaultLifecycleStep LifecycleState.Sound .init
        (raised ++ [.resolve true (serviceLevelBreach 1 10) 60000, .load true, .save true,
          .acknowledge false 1 1 7 120000, .load false, .save false]) ∧
      ∃ t, Runs.exec defaultLifecycleStep .init
          (raised ++ [.scan true [newAlert defaultAlertPolicy ⟨serviceLevelBreach 1 10, .warning⟩
            none 1 100 0] 1200000, .acknowledge false 1 1 7 1200001, .load false, .save false,
            .escalate true 1200002]) = some t ∧
        t.escalatedFrom = [.acknowledged] :=
  ⟨by decide, Runs.exists_exec (by decide)⟩

end Runs

end Workforce.Intraday.Alerting
