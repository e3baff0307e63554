import Mathlib.Algebra.Order.Ring.Unbundled.Rat
import Workforce.Foundations.Limits
import Workforce.Foundations.Runs
import Workforce.Intraday.LiveState

/-!
# Alerts

The alert pipeline of the intraday service: a service level below its target raises an alert, unless
the latest unresolved alert of the same cause is recent, and an alert is suppressed, not published,
when that one was acknowledged a short while ago or a rule of the tenant covers the hour. A service
level back at its target resolves the latest unresolved alert. Alerts that stay open are escalated.

* `recovery_iff`: in a run every recovery leaves no alert of its cause unresolved, and none of them
  is escalated before the next breach, exactly when there was at most one to resolve.
* `quiet_iff`: in a run no alert is published within the acknowledgement window of its cause exactly
  when each trigger in it finds, as the latest unresolved alert, a recent one or one that was
  acknowledged itself.
-/

namespace Workforce.Intraday.Alerting

open Tables LiveState List

inductive AlertSeverity
  | warning
  | critical
  deriving DecidableEq

inductive AlertStatus
  | «open»
  | acknowledged
  | suppressed
  | resolved
  deriving DecidableEq

/-- What an alert is about. -/
structure Cause where
  tenantId : ℕ
  queueId : Option ℕ
  alertType : String
  deriving DecidableEq

/-- What a detector hands to `raiseAlert`. -/
structure AlertCandidate where
  cause : Cause
  severity : AlertSeverity

/-- Times are in milliseconds. -/
structure Alert where
  id : ℕ
  cause : Cause
  severity : AlertSeverity
  orgUnitId : Option ℕ
  status : AlertStatus
  dedupGroupId : ℕ
  createdAt : ℤ
  lastTriggeredAt : ℤ
  escalatedAt : Option ℤ
  acknowledgedBy : Option ℕ
  acknowledgedAt : Option ℤ
  resolvedAt : Option ℤ
  deriving DecidableEq

/-! ## Policies -/

/-- Hours of the day at which no alert of a type is shown. -/
structure SuppressionRule where
  alertType : String
  queueId : Option ℕ
  startHourUtc : ℤ
  endHourUtc : ℤ

structure ResolvedAlertPolicy where
  dedupWindowMinutes : ℤ
  suppressionAckWindowMinutes : ℤ
  escalationThresholdMinutes : ℤ
  suppressionRules : List SuppressionRule

def defaultAlertPolicy : ResolvedAlertPolicy where
  dedupWindowMinutes := 5
  suppressionAckWindowMinutes := 15
  escalationThresholdMinutes := 15
  suppressionRules := []

/-- The policy of a tenant, with a row or without. -/
def getPolicy (policies : ℕ → Option ResolvedAlertPolicy) (tenantId : ℕ) : ResolvedAlertPolicy :=
  (policies tenantId).getD defaultAlertPolicy

/-- The window may wrap midnight. -/
def isHourWithinWindow (hour startHourUtc endHourUtc : ℤ) : Bool :=
  if startHourUtc ≤ endHourUtc then startHourUtc ≤ hour ∧ hour < endHourUtc
  else startHourUtc ≤ hour ∨ hour < endHourUtc

/-- `Date.getUTCHours`, of milliseconds. -/
def getUtcHours (now : ℤ) : ℤ := now / 3600000 % 24

/-- Some rule is about the cause and covers the hour. -/
def matchesSuppressionRule (rules : List SuppressionRule) (cause : Cause) (now : ℤ) : Bool :=
  rules.any fun rule =>
    rule.alertType = cause.alertType ∧ (rule.queueId = none ∨ rule.queueId = cause.queueId) ∧
      isHourWithinWindow (getUtcHours now) rule.startHourUtc rule.endHourUtc

/-- `t` is less than so many minutes ago; both are milliseconds. -/
def withinMinutes (t now minutes : ℤ) : Bool := now - t < minutes * 60000

/-! ## The pipeline -/

/-- The rows of `alerts`, with what has been published. -/
structure AlertState where
  alerts : List Alert
  /-- What was published on `alertRaised`. -/
  published : List Alert

def AlertState.init : AlertState := ⟨[], []⟩

/-- The unresolved alerts of a cause. -/
def AlertState.unresolved (s : AlertState) (cause : Cause) : List Alert :=
  s.alerts.filter fun a => a.cause = cause ∧ a.status ≠ .resolved

/-- The latest alert has been acknowledged a short while ago. -/
def recentlyAcknowledged (policy : ResolvedAlertPolicy) (mostRecent : Option Alert) (now : ℤ) :
    Bool :=
  mostRecent.any fun m => m.status = .acknowledged ∧
    m.acknowledgedAt.any (withinMinutes · now policy.suppressionAckWindowMinutes)

/-- The row of a candidate that is no duplicate: suppressed, or open. -/
def newAlert (policy : ResolvedAlertPolicy) (candidate : AlertCandidate)
    (mostRecent : Option Alert) (id groupId : ℕ) (now : ℤ) : Alert where
  id := id
  cause := candidate.cause
  severity := candidate.severity
  orgUnitId := none
  status :=
    if recentlyAcknowledged policy mostRecent now ∨
      matchesSuppressionRule policy.suppressionRules candidate.cause now then .suppressed else .open
  dedupGroupId := (mostRecent.map (·.dedupGroupId)).getD groupId
  createdAt := now
  lastTriggeredAt := now
  escalatedAt := none
  acknowledgedBy := none
  acknowledgedAt := none
  resolvedAt := none

/-- A new alert is published when it is open. -/
def AlertState.insert (s : AlertState) (alert : Alert) : AlertState where
  alerts := s.alerts ++ [alert]
  published := if alert.status = .open then s.published ++ [alert] else s.published

inductive AlertError
  | alertNotFound (alertId : ℕ)

section Pipeline

-- `ORDER BY createdAt DESC LIMIT 1`: which of the latest rows comes back is up to the database
variable (latest : List Alert → Option Alert) (policies : ℕ → Option ResolvedAlertPolicy)

/-- A trigger is taken for the issue that the latest unresolved alert is about. -/
def isDuplicate (policy : ResolvedAlertPolicy) (mostRecent : Option Alert) (now : ℤ) : Bool :=
  mostRecent.any fun m => withinMinutes m.createdAt now policy.dedupWindowMinutes

/-- A duplicate touches the alert it repeats, and any other candidate is a new row. -/
def raiseAlert (s : AlertState) (candidate : AlertCandidate) (id groupId : ℕ) (now : ℤ) :
    AlertState :=
  let policy := getPolicy policies candidate.cause.tenantId
  let mostRecent := latest (s.unresolved candidate.cause)
  match mostRecent, isDuplicate policy mostRecent now with
  | some m, true =>
    { s with alerts := modify (·.id) m.id (fun a => { a with lastTriggeredAt := now }) s.alerts }
  | _, _ => s.insert (newAlert policy candidate mostRecent id groupId now)

/-- The query names the three statuses that are not resolved. -/
def resolveAlert (s : AlertState) (cause : Cause) (now : ℤ) : AlertState :=
  match latest (s.unresolved cause) with
  | none => s
  | some active =>
    { s with
      alerts := modify (·.id) active.id
        (fun a => { a with status := .resolved, resolvedAt := some now }) s.alerts }

def Alert.acknowledge (a : Alert) (actorId : ℕ) (now : ℤ) : Alert :=
  { a with status := .acknowledged, acknowledgedBy := some actorId, acknowledgedAt := some now }

def AlertState.findAlert (s : AlertState) (tenantId alertId : ℕ) : Option Alert :=
  s.alerts.find? fun a => a.cause.tenantId = tenantId ∧ a.id = alertId

def acknowledge (s : AlertState) (tenantId alertId actorId : ℕ) (now : ℤ) :
    Except AlertError AlertState :=
  match s.findAlert tenantId alertId with
  | none => .error (.alertNotFound alertId)
  | some alert =>
    .ok { s with alerts := modify (·.id) alert.id (·.acknowledge actorId now) s.alerts }

/-! ## Escalation -/

/-- `ESCALATION_QUERY`. -/
def escalationCandidates (s : AlertState) (now : ℤ) : List Alert :=
  s.alerts.filter fun a => a.status = .open ∧ a.severity = .warning ∧
    a.createdAt < now - (getPolicy policies a.cause.tenantId).escalationThresholdMinutes * 60000

/-- `UPDATE … SET severity, escalated_at`. -/
def Alert.escalate (a : Alert) (escalatedAt : ℤ) : Alert :=
  { a with severity := .critical, escalatedAt := some escalatedAt }

/-- What is published for an alert that the query returned. -/
def Alert.escalation (a : Alert) (escalatedAt : ℤ) : Alert :=
  { a with
    severity := .critical
    status := .open
    escalatedAt := some escalatedAt
    acknowledgedBy := none
    acknowledgedAt := none
    resolvedAt := none }

/-- A tick from its query to its last update, with one reading of the clock. -/
def escalateStaleAlerts (s : AlertState) (now : ℤ) : AlertState :=
  let rows := escalationCandidates policies s now
  { alerts := rows.foldl (fun alerts row => modify (·.id) row.id (·.escalate now) alerts) s.alerts
    published := s.published ++ rows.map (·.escalation now) }

/-! ## The detector -/

/-- `SERVICE_LEVEL_BREACH_ALERT_TYPE`. -/
def serviceLevelBreachAlertType : String := "service_level_breach"

def serviceLevelBreach (tenantId queueId : ℕ) : Cause :=
  ⟨tenantId, some queueId, serviceLevelBreachAlertType⟩

variable {F : Type*} [LinearOrder F] [Sub F] [Div F] (criticalDeficitRatio : F)

/-- Critical when the deficit, relative to the target, is above the ratio. -/
def computeSeverity (current target : F) : AlertSeverity :=
  if criticalDeficitRatio < (target - current) / target then .critical else .warning

/-- `AlertEngineService.evaluateQueueMetrics`. -/
def evaluateQueueMetrics (s : AlertState) (tenantId queueId : ℕ) (record : QueueLiveStateRecord F)
    (id groupId : ℕ) (now : ℤ) : AlertState :=
  match record.serviceLevelCurrent, record.serviceLevelTarget with
  | some current, some target =>
    if current < target then
      raiseAlert latest policies s
        ⟨serviceLevelBreach tenantId queueId, computeSeverity criticalDeficitRatio current target⟩
        id groupId now
    else resolveAlert latest s (serviceLevelBreach tenantId queueId) now
  | _, _ => s

/-! ## Runs -/

/-- An event of the detector or a request of a user. -/
inductive AlertStep (F : Type*)
  | metricsUpdated (tenantId queueId : ℕ) (record : QueueLiveStateRecord F) (id groupId : ℕ)
      (now : ℤ)
  /-- A detector of another kind. -/
  | trigger (candidate : AlertCandidate) (id groupId : ℕ) (now : ℤ)
  | acknowledge (tenantId alertId actorId : ℕ) (now : ℤ)
  | tick (now : ℤ)

/-- Identifiers of new alerts are new. -/
def alertStep (s : AlertState) : AlertStep F → Option AlertState
  | .metricsUpdated tenantId queueId record id groupId now =>
    if id ∈ s.alerts.map (·.id) then none
    else some (evaluateQueueMetrics latest policies criticalDeficitRatio s tenantId queueId record
      id groupId now)
  | .trigger candidate id groupId now =>
    if id ∈ s.alerts.map (·.id) then none
    else some (raiseAlert latest policies s candidate id groupId now)
  | .acknowledge tenantId alertId actorId now =>
    match acknowledge s tenantId alertId actorId now with
    | .ok t => some t
    | .error _ => some s
  | .tick now => some (escalateStaleAlerts policies s now)

/-- The cause that a step triggers, and when. -/
def AlertStep.triggers : AlertStep F → Option (Cause × ℤ)
  | .metricsUpdated tenantId queueId record _ _ now =>
    match record.serviceLevelCurrent, record.serviceLevelTarget with
    | some current, some target =>
      if current < target then some (serviceLevelBreach tenantId queueId, now) else none
    | _, _ => none
  | .trigger candidate _ _ now => some (candidate.cause, now)
  | _ => none

/-- The cause that a step finds recovered. -/
def AlertStep.recovers : AlertStep F → Option Cause
  | .metricsUpdated tenantId queueId record _ _ _ =>
    match record.serviceLevelCurrent, record.serviceLevelTarget with
    | some current, some target =>
      if current < target then none else some (serviceLevelBreach tenantId queueId)
    | _, _ => none
  | _ => none

omit [LinearOrder F] [Sub F] [Div F] in
/-- The cause of the alert that a step acknowledges, and when. -/
def AlertStep.acknowledges (s : AlertState) : AlertStep F → Option (Cause × ℤ)
  | .acknowledge tenantId alertId _ now =>
    (s.findAlert tenantId alertId).map fun a => (a.cause, now)
  | _ => none

/-- What is noted of a run. -/
structure Watch where
  state : AlertState
  /-- The causes that have recovered and were not triggered again. -/
  recovered : List Cause
  /-- The cause that has recovered in the last step. -/
  justRecovered : Option Cause
  /-- The acknowledgements of each cause since it recovered. -/
  acknowledgements : List (Cause × ℤ)
  /-- What was published by a trigger within the window of an acknowledgement. -/
  renotified : List Alert
  /-- The escalations of causes that had recovered. -/
  escalated : List Alert

namespace Watch

def init : Watch := ⟨.init, [], none, [], [], []⟩

/-- The acknowledgement window of a cause is open. -/
def Acknowledged (w : Watch) (cause : Cause) (now : ℤ) : Prop :=
  ∃ x ∈ w.acknowledgements, x.1 = cause ∧
    withinMinutes x.2 now (getPolicy policies cause.tenantId).suppressionAckWindowMinutes
  deriving Decidable

omit [Sub F] [Div F] in
def note (w : Watch) (a : AlertStep F) (s : AlertState) : Watch :=
  let published := s.published.drop w.state.published.length
  { state := s
    recovered := a.recovers.toList ++ w.recovered.filter fun c => some c ≠ a.triggers.map (·.1)
    justRecovered := a.recovers
    acknowledgements := (a.acknowledges w.state).toList ++
      w.acknowledgements.filter fun x => some x.1 ≠ a.recovers
    renotified := w.renotified ++
      if a.triggers.any fun x => w.Acknowledged policies x.1 x.2 then published else []
    escalated := w.escalated ++
      if a.triggers = none then published.filter fun alert => alert.cause ∈ w.recovered else [] }

end Watch

def watchStep (w : Watch) (a : AlertStep F) : Option Watch :=
  (alertStep latest policies criticalDeficitRatio w.state a).map (w.note policies a)

end Pipeline

/-! ## What each operation does -/

section Operations

variable {latest : List Alert → Option Alert} {policies : ℕ → Option ResolvedAlertPolicy}
  {s t : AlertState} {cause : Cause} {now : ℤ}

theorem mem_unresolved {a : Alert} :
    a ∈ s.unresolved cause ↔ a ∈ s.alerts ∧ a.cause = cause ∧ a.status ≠ .resolved := by
  simp [AlertState.unresolved]

theorem nodup_modify_id {id : ℕ} {f : Alert → Alert} (hf : ∀ a, (f a).id = a.id)
    {alerts : List Alert} (hn : (alerts.map (·.id)).Nodup) :
    ((modify (·.id) id f alerts).map (·.id)).Nodup := by
  rw [map_key_modify hf]
  exact hn

theorem raiseAlert_cases (latest : List Alert → Option Alert)
    (policies : ℕ → Option ResolvedAlertPolicy) (s : AlertState) (candidate : AlertCandidate)
    (id groupId : ℕ) (now : ℤ) :
    (isDuplicate (getPolicy policies candidate.cause.tenantId)
          (latest (s.unresolved candidate.cause)) now = true ∧
        ∃ m, raiseAlert latest policies s candidate id groupId now =
          { s with
            alerts := modify (·.id) m (fun a => { a with lastTriggeredAt := now }) s.alerts }) ∨
      (isDuplicate (getPolicy policies candidate.cause.tenantId)
          (latest (s.unresolved candidate.cause)) now = false ∧
        raiseAlert latest policies s candidate id groupId now =
          s.insert (newAlert (getPolicy policies candidate.cause.tenantId) candidate
            (latest (s.unresolved candidate.cause)) id groupId now)) := by
  unfold raiseAlert
  cases hm : latest (s.unresolved candidate.cause) with
  | none => exact .inr ⟨rfl, rfl⟩
  | some m =>
    cases hdup : isDuplicate (getPolicy policies candidate.cause.tenantId) (some m) now with
    | true => exact .inl ⟨rfl, m.id, by simp only [hdup]⟩
    | false => exact .inr ⟨rfl, by simp only [hdup]⟩

/-- A trigger publishes nothing when it is a duplicate, or is suppressed. -/
theorem published_raiseAlert_iff (candidate : AlertCandidate) (id groupId : ℕ) (now : ℤ) :
    (raiseAlert latest policies s candidate id groupId now).published.drop s.published.length = [] ↔
      isDuplicate (getPolicy policies candidate.cause.tenantId)
          (latest (s.unresolved candidate.cause)) now = true ∨
        recentlyAcknowledged (getPolicy policies candidate.cause.tenantId)
          (latest (s.unresolved candidate.cause)) now = true ∨
        matchesSuppressionRule (getPolicy policies candidate.cause.tenantId).suppressionRules
          candidate.cause now = true := by
  rcases raiseAlert_cases latest policies s candidate id groupId now with
    ⟨hdup, m, heq⟩ | ⟨hdup, heq⟩
  · rw [heq]
    simp [hdup]
  · rw [heq, hdup]
    simp only [AlertState.insert, newAlert, Bool.false_eq_true, false_or]
    split
    · rename_i hsuppressed
      simp [hsuppressed]
    · rename_i hopen
      simp [hopen]

theorem length_unresolved_resolveAlert (hlatest : PicksMax Alert.createdAt latest)
    (hn : (s.alerts.map (·.id)).Nodup) :
    ((resolveAlert latest s cause now).unresolved cause).length =
      (s.unresolved cause).length - 1 := by
  unfold resolveAlert
  cases hm : latest (s.unresolved cause) with
  | none =>
    have hnil := hlatest.eq_none_iff.1 hm
    simp [hnil]
  | some active =>
    have hmem := mem_unresolved.1 (hlatest.mem hm)
    have hcount := countP_modify hn hmem.1
      (fun a => { a with status := .resolved, resolvedAt := some now })
      fun a => decide (a.cause = cause ∧ a.status ≠ .resolved)
    rw [if_pos (decide_eq_true hmem.2), if_neg (by simp)] at hcount
    simp only [AlertState.unresolved, ← countP_eq_length_filter]
    omega

theorem map_escalate {β : Type*} {g : Alert → β} (hg : ∀ a : Alert, g (a.escalate now) = g a)
    (rows alerts : List Alert) :
    (rows.foldl (fun alerts row => modify (·.id) row.id (·.escalate now) alerts) alerts).map g =
      alerts.map g := by
  induction rows generalizing alerts with
  | nil => rfl
  | cons row rows ih => rw [foldl_cons, ih, map_modify hg]

/-- What a step does. -/
inductive AlertMove (latest : List Alert → Option Alert)
    (policies : ℕ → Option ResolvedAlertPolicy) (s : AlertState) :
    Option (Cause × ℤ) → Option Cause → Option (Cause × ℤ) → AlertState → Prop
  | trigger (candidate : AlertCandidate) (id groupId : ℕ) (now : ℤ)
      (hid : id ∉ s.alerts.map (·.id)) :
      AlertMove latest policies s (some (candidate.cause, now)) none none
        (raiseAlert latest policies s candidate id groupId now)
  | recovery (cause : Cause) (now : ℤ) :
      AlertMove latest policies s none (some cause) none (resolveAlert latest s cause now)
  | acknowledge (alert : Alert) (actorId : ℕ) (now : ℤ) (hmem : alert ∈ s.alerts) :
      AlertMove latest policies s none none (some (alert.cause, now))
        { s with alerts := modify (·.id) alert.id (·.acknowledge actorId now) s.alerts }
  | tick (now : ℤ) : AlertMove latest policies s none none none (escalateStaleAlerts policies s now)
  | nothing : AlertMove latest policies s none none none s

variable {F : Type*} [LinearOrder F] [Sub F] [Div F] {criticalDeficitRatio : F} {a : AlertStep F}

theorem alertMove_of_alertStep (h : alertStep latest policies criticalDeficitRatio s a = some t) :
    AlertMove latest policies s a.triggers a.recovers (a.acknowledges s) t := by
  cases a with
  | metricsUpdated tenantId queueId record id groupId now =>
    simp only [alertStep] at h
    split at h
    · cases h
    · rename_i hid
      cases h
      simp only [AlertStep.triggers, AlertStep.recovers, AlertStep.acknowledges,
        evaluateQueueMetrics]
      split
      · split
        · rename_i current target _ _ _
          exact .trigger ⟨serviceLevelBreach tenantId queueId,
            computeSeverity criticalDeficitRatio current target⟩ _ _ _ hid
        · exact .recovery _ _
      · exact .nothing
  | trigger candidate id groupId now =>
    simp only [alertStep] at h
    split at h
    · cases h
    · rename_i hid
      cases h
      exact .trigger _ _ _ _ hid
  | acknowledge tenantId alertId actorId now =>
    simp only [alertStep, Alerting.acknowledge] at h
    simp only [AlertStep.triggers, AlertStep.recovers, AlertStep.acknowledges]
    cases hfind : s.findAlert tenantId alertId with
    | none =>
      rw [hfind] at h
      cases h
      exact .nothing
    | some alert =>
      rw [hfind] at h
      cases h
      exact .acknowledge alert actorId now (mem_of_find?_eq_some hfind)
  | tick now =>
    cases h
    exact .tick now

namespace AlertMove

variable {triggers acknowledges : Option (Cause × ℤ)} {recovers : Option Cause}

theorem nodup (h : AlertMove latest policies s triggers recovers acknowledges t)
    (hn : (s.alerts.map (·.id)).Nodup) : (t.alerts.map (·.id)).Nodup := by
  cases h with
  | trigger candidate id groupId now hid =>
    rcases raiseAlert_cases latest policies s candidate id groupId now with ⟨-, m, heq⟩ | ⟨-, heq⟩
    · rw [heq]
      refine nodup_modify_id ?_ hn
      exact fun _ => rfl
    · rw [heq]
      refine nodup_append_singleton hn fun r hr hid' => hid ?_
      exact mem_map.2 ⟨r, hr, hid'⟩
  | recovery cause now =>
    unfold resolveAlert
    split
    · exact hn
    · refine nodup_modify_id ?_ hn
      exact fun _ => rfl
  | acknowledge alert actorId now hmem =>
    refine nodup_modify_id ?_ hn
    exact fun _ => rfl
  | tick now =>
    simpa only [escalateStaleAlerts, map_escalate (g := fun a : Alert => a.id) (fun _ => rfl)]
      using hn
  | nothing => exact hn

/-- An alert that is open is about the cause that was triggered, or another alert of its cause was
open before. -/
theorem of_open (h : AlertMove latest policies s triggers recovers acknowledges t) {a : Alert}
    (ha : a ∈ t.alerts) (hopen : a.status = .open) :
    triggers.map (·.1) = some a.cause ∨ ∃ b ∈ s.alerts, b.cause = a.cause ∧ b.status = .open := by
  cases h with
  | trigger candidate id groupId now hid =>
    rcases raiseAlert_cases latest policies s candidate id groupId now with ⟨-, m, heq⟩ | ⟨-, heq⟩
    · rw [heq] at ha
      rcases mem_modify.1 ha with ⟨b, hb, -, rfl⟩ | ⟨hb, -⟩
      · exact .inr ⟨b, hb, rfl, hopen⟩
      · exact .inr ⟨a, hb, rfl, hopen⟩
    · rw [heq] at ha
      rcases Tables.mem_concat.1 ha with hb | rfl
      · exact .inr ⟨a, hb, rfl, hopen⟩
      · exact .inl rfl
  | recovery cause now =>
    unfold resolveAlert at ha
    split at ha
    · exact .inr ⟨a, ha, rfl, hopen⟩
    · rcases mem_modify.1 ha with ⟨b, -, -, rfl⟩ | ⟨hb, -⟩
      · cases hopen
      · exact .inr ⟨a, hb, rfl, hopen⟩
  | acknowledge alert actorId now hmem =>
    rcases mem_modify.1 ha with ⟨b, -, -, rfl⟩ | ⟨hb, -⟩
    · cases hopen
    · exact .inr ⟨a, hb, rfl, hopen⟩
  | tick now =>
    have hmem := mem_map_of_mem (f := fun a : Alert => (a.cause, a.status)) ha
    simp only [escalateStaleAlerts] at hmem
    rw [map_escalate (g := fun a : Alert => (a.cause, a.status)) (fun _ => rfl)] at hmem
    obtain ⟨b, hb, heq⟩ := mem_map.1 hmem
    obtain ⟨hcause, hstatus⟩ := Prod.mk.inj heq
    exact .inr ⟨b, hb, hcause, hstatus.trans hopen⟩
  | nothing => exact .inr ⟨a, ha, rfl, hopen⟩

/-- What a step publishes, when it triggers nothing, are escalations of open alerts. -/
theorem published (h : AlertMove latest policies s none recovers acknowledges t) :
    ∃ new, t.published = s.published ++ new ∧
      ∀ a ∈ new, ∃ b ∈ s.alerts, b.cause = a.cause ∧ b.status = .open := by
  cases h with
  | recovery cause now =>
    refine ⟨[], ?_, fun a ha => by cases ha⟩
    unfold resolveAlert
    split <;> simp
  | acknowledge alert actorId now hmem => exact ⟨[], by simp, fun a ha => by cases ha⟩
  | tick now =>
    refine ⟨_, rfl, fun a ha => ?_⟩
    obtain ⟨b, hb, rfl⟩ := mem_map.1 ha
    obtain ⟨hb, htest⟩ := mem_filter.1 hb
    exact ⟨b, hb, rfl, (of_decide_eq_true htest).1⟩
  | nothing => exact ⟨[], by simp, fun a ha => by cases ha⟩

theorem eq_raiseAlert {x : Cause × ℤ}
    (h : AlertMove latest policies s (some x) recovers acknowledges t) :
    ∃ candidate id groupId, candidate.cause = x.1 ∧
      t = raiseAlert latest policies s candidate id groupId x.2 := by
  cases h with
  | trigger candidate id groupId now hid => exact ⟨candidate, id, groupId, rfl, rfl⟩

theorem eq_resolveAlert {c : Cause}
    (h : AlertMove latest policies s triggers (some c) acknowledges t) :
    ∃ now, t = resolveAlert latest s c now := by
  cases h with
  | recovery _ now => exact ⟨now, rfl⟩

end AlertMove

end Operations

/-! ## Recoveries -/

section Recovery

variable {latest : List Alert → Option Alert} {policies : ℕ → Option ResolvedAlertPolicy}
  {F : Type*} [LinearOrder F] [Sub F] [Div F] {criticalDeficitRatio : F} {w w' : Watch}
  {a : AlertStep F}

/-- A cause that has just recovered has no unresolved alert, and no cause that had recovered was
escalated. -/
structure Watch.Recovers (w : Watch) : Prop where
  resolved : ∀ c ∈ w.justRecovered, w.state.unresolved c = []
  escalated : w.escalated = []

instance (w : Watch) : Decidable w.Recovers :=
  decidable_of_iff (_ ∧ _) ⟨fun h => ⟨h.1, h.2⟩, fun h => ⟨h.1, h.2⟩⟩

omit [Sub F] [Div F] in
/-- A recovery finds at most one unresolved alert of its cause. -/
def OneToResolve (w : Watch) (a : AlertStep F) : Prop :=
  ∀ c ∈ a.recovers, (w.state.unresolved c).length ≤ 1
  deriving Decidable

structure Watch.Inv (w : Watch) : Prop where
  nodup : (w.state.alerts.map (·.id)).Nodup
  closed : ∀ c ∈ w.recovered, ∀ alert ∈ w.state.alerts, alert.cause = c → alert.status ≠ .open
  recovers : w.Recovers

theorem watchStep_eq_some (h : watchStep latest policies criticalDeficitRatio w a = some w') :
    ∃ t, AlertMove latest policies w.state a.triggers a.recovers (a.acknowledges w.state) t ∧
      w' = w.note policies a t := by
  obtain ⟨t, ht, rfl⟩ := Option.map_eq_some_iff.1 h
  exact ⟨t, alertMove_of_alertStep ht, rfl⟩

theorem length_unresolved_of_recovers (hlatest : PicksMax Alert.createdAt latest) (h : w.Inv)
    (hstep : watchStep latest policies criticalDeficitRatio w a = some w') {c : Cause}
    (hc : a.recovers = some c) :
    c ∈ w'.justRecovered ∧
      (w'.state.unresolved c).length = (w.state.unresolved c).length - 1 := by
  obtain ⟨t, hmove, rfl⟩ := watchStep_eq_some hstep
  rw [hc] at hmove
  obtain ⟨now, rfl⟩ := hmove.eq_resolveAlert
  exact ⟨hc, length_unresolved_resolveAlert hlatest h.nodup⟩

/-- Only alerts that are open are escalated, and no cause that had recovered has one. -/
theorem Watch.Inv.escalated (h : w.Inv)
    (hstep : watchStep latest policies criticalDeficitRatio w a = some w') : w'.escalated = [] := by
  obtain ⟨t, hmove, rfl⟩ := watchStep_eq_some hstep
  simp only [Watch.note, h.recovers.escalated, nil_append]
  split
  · rename_i hnone
    rw [hnone] at hmove
    obtain ⟨new, heq, hnew⟩ := hmove.published
    rw [heq, drop_left, filter_eq_nil_iff]
    intro alert halert hrecovered
    obtain ⟨b, hb, hcause, hopen⟩ := hnew alert halert
    exact h.closed _ (of_decide_eq_true hrecovered) b hb hcause hopen
  · rfl

theorem Watch.Inv.step (hlatest : PicksMax Alert.createdAt latest) (h : w.Inv)
    (hok : OneToResolve w a)
    (hstep : watchStep latest policies criticalDeficitRatio w a = some w') : w'.Inv := by
  have hresolved : ∀ c ∈ a.recovers, w'.state.unresolved c = [] := by
    intro c hc
    have hleft := (length_unresolved_of_recovers hlatest h hstep hc).2
    have hone := hok c hc
    exact eq_nil_of_length_eq_zero (by omega)
  have hescalated := h.escalated hstep
  obtain ⟨t, hmove, rfl⟩ := watchStep_eq_some hstep
  refine ⟨hmove.nodup h.nodup, ?_, ⟨hresolved, hescalated⟩⟩
  intro c hc alert halert hcause hopen
  rcases mem_append.1 hc with hc | hc
  · have hmem : alert ∈ t.unresolved c :=
      mem_unresolved.2 ⟨halert, hcause, by rw [hopen]; exact AlertStatus.noConfusion⟩
    have hnone : t.unresolved c = [] := hresolved c (Option.mem_toList.1 hc)
    rw [hnone] at hmem
    cases hmem
  · obtain ⟨hc, hnot⟩ := mem_filter.1 hc
    rcases hmove.of_open halert hopen with htrigger | ⟨b, hb, hcause', hopen'⟩
    · rw [hcause] at htrigger
      exact of_decide_eq_true hnot htrigger.symm
    · exact h.closed c hc b hb (hcause'.trans hcause) hopen'

theorem Watch.inv_init : Watch.init.Inv where
  nodup := nodup_nil
  closed := nofun
  recovers := ⟨forall_mem_none, rfl⟩

/-- **When a recovery resolves the whole issue**: all along a run a cause that has just recovered
has no unresolved alert, and is not escalated before it is triggered again, exactly when every
recovery finds at most one unresolved alert of its cause. -/
theorem recovery_iff (hlatest : PicksMax Alert.createdAt latest) {steps : List (AlertStep F)}
    (hrun : Runs.exec (watchStep latest policies criticalDeficitRatio) .init steps = some w) :
    Runs.Always (watchStep latest policies criticalDeficitRatio) Watch.Recovers .init steps ↔
      Runs.Meets (watchStep latest policies criticalDeficitRatio) OneToResolve .init steps := by
  refine Runs.always_iff_meets (fun _ h => h.recovers) (fun _ _ _ h => h.step hlatest) ?_
    Watch.inv_init hrun
  intro w a w' h hno hstep hrecovers
  refine hno fun c hc => ?_
  obtain ⟨hjust, hleft⟩ := length_unresolved_of_recovers hlatest h hstep hc
  have hnone := hrecovers.resolved c hjust
  rw [hnone, length_nil] at hleft
  omega

def levelRecord (current target : ℚ) : QueueLiveStateRecord ℚ :=
  ⟨12, 5, 3, none, some current, some target, 0⟩

/-- A run with the default policy and `CRITICAL_DEFICIT_RATIO`. -/
noncomputable abbrev defaultStep : Watch → AlertStep ℚ → Option Watch :=
  watchStep (argmax Alert.createdAt) (fun _ => none) (1 / 5)

/-- A breach that is over before the grouping window is. -/
def shortBreach : List (AlertStep ℚ) :=
  [.metricsUpdated 1 10 (levelRecord 70 80) 1 100 0,
    .metricsUpdated 1 10 (levelRecord 75 80) 2 101 120000,
    .metricsUpdated 1 10 (levelRecord 80 80) 3 102 240000]

theorem recovery_of_shortBreach :
    Runs.Always defaultStep Watch.Recovers .init shortBreach := by
  have hrun : ∃ w, Runs.exec defaultStep .init shortBreach = some w ∧ w.recovered ≠ [] :=
    Runs.exists_exec (by decide)
  obtain ⟨w, hw, -⟩ := hrun
  exact (recovery_iff (picksMax_argmax _) hw).2 (by decide)

/-- A breach of ten minutes leaves two alerts, of which the recovery resolves one; the other is
escalated. -/
theorem recovery_of_longBreach :
    ¬ Runs.Always defaultStep Watch.Recovers .init
        [.metricsUpdated 1 10 (levelRecord 70 80) 1 100 0,
          .metricsUpdated 1 10 (levelRecord 70 80) 2 101 600000,
          .metricsUpdated 1 10 (levelRecord 80 80) 3 102 660000] ∧
      ∃ w, Runs.exec defaultStep .init
        [.metricsUpdated 1 10 (levelRecord 70 80) 1 100 0,
          .metricsUpdated 1 10 (levelRecord 70 80) 2 101 600000,
          .metricsUpdated 1 10 (levelRecord 80 80) 3 102 660000, .tick 1200000] = some w ∧
        w.escalated.map (·.id) = [1] :=
  ⟨by decide, Runs.exists_exec (by with_unfolding_all decide)⟩

end Recovery

/-! ## Acknowledgements -/

section Acknowledgement

variable {latest : List Alert → Option Alert} {policies : ℕ → Option ResolvedAlertPolicy}
  {F : Type*} [LinearOrder F] [Sub F] [Div F] {criticalDeficitRatio : F} {w w' : Watch}
  {a : AlertStep F}

/-- No alert was published by a trigger within the acknowledgement window of its cause. -/
def Watch.Quiet (w : Watch) : Prop := w.renotified = []
  deriving Decidable

variable (latest policies) in
omit [Sub F] [Div F] in
/-- A trigger within the acknowledgement window of its cause finds that the latest unresolved alert
is younger than the grouping window, or was acknowledged itself within the acknowledgement window,
or else that a rule covers the hour. -/
def Covered (w : Watch) (a : AlertStep F) : Prop :=
  ∀ x ∈ a.triggers, w.Acknowledged policies x.1 x.2 →
    (∃ m ∈ latest (w.state.unresolved x.1),
      x.2 < m.createdAt + (getPolicy policies x.1.tenantId).dedupWindowMinutes * 60000 ∨
        m.status = .acknowledged ∧ ∃ t ∈ m.acknowledgedAt,
          x.2 < t + (getPolicy policies x.1.tenantId).suppressionAckWindowMinutes * 60000) ∨
      matchesSuppressionRule (getPolicy policies x.1.tenantId).suppressionRules x.1 x.2 = true
  deriving Decidable

theorem withinMinutes_iff {t now minutes : ℤ} :
    withinMinutes t now minutes = true ↔ now < t + minutes * 60000 := by
  simp only [withinMinutes, decide_eq_true_eq]
  omega

theorem quiet_step (h : w.Quiet)
    (hstep : watchStep latest policies criticalDeficitRatio w a = some w') :
    w'.Quiet ↔ Covered latest policies w a := by
  obtain ⟨t, hmove, rfl⟩ := watchStep_eq_some hstep
  simp only [Watch.Quiet] at h
  simp only [Watch.Quiet, Watch.note, h, nil_append]
  unfold Covered
  cases hx : a.triggers with
  | none => simp
  | some x =>
    rw [hx] at hmove
    obtain ⟨candidate, id, groupId, hcause, rfl⟩ := hmove.eq_raiseAlert
    by_cases hacknowledged : w.Acknowledged policies x.1 x.2
    · simp only [Option.any_some, hacknowledged, decide_true, if_true, Option.mem_def,
        Option.some.injEq, forall_eq', true_implies]
      rw [published_raiseAlert_iff, hcause, ← or_assoc]
      refine or_congr_left ?_
      cases latest (w.state.unresolved x.1) with
      | none => simp [isDuplicate, recentlyAcknowledged]
      | some m => simp [isDuplicate, recentlyAcknowledged, withinMinutes_iff, Option.any_eq_true]
    · simp [hacknowledged]

/-- **When an acknowledged issue stays quiet**: in a run nothing is published within the
acknowledgement window of its cause exactly when each trigger in such a window finds that the latest
unresolved alert is younger than the grouping window, or was acknowledged itself within the
acknowledgement window, or else that a rule covers the hour. -/
theorem quiet_iff {steps : List (AlertStep F)}
    (hrun : Runs.exec (watchStep latest policies criticalDeficitRatio) .init steps = some w) :
    Runs.Always (watchStep latest policies criticalDeficitRatio) Watch.Quiet .init steps ↔
      Runs.Meets (watchStep latest policies criticalDeficitRatio) (Covered latest policies) .init
        steps := by
  refine Runs.always_iff_meets (I := Watch.Quiet) (fun _ h => h) ?_ ?_ rfl hrun
  · exact fun w a w' h hok hstep => (quiet_step h hstep).2 hok
  · exact fun w a w' h hno hstep hquiet => hno ((quiet_step h hstep).1 hquiet)

/-- An alert that is acknowledged after six minutes. -/
def acknowledgedBreach : List (AlertStep ℚ) :=
  [.metricsUpdated 1 10 (levelRecord 70 80) 1 100 0, .acknowledge 1 1 7 360000,
    .metricsUpdated 1 10 (levelRecord 70 80) 2 101 420000]

theorem quiet_of_acknowledgedBreach :
    Runs.Always defaultStep Watch.Quiet .init acknowledgedBreach := by
  have hrun : ∃ w, Runs.exec defaultStep .init acknowledgedBreach = some w ∧
      w.state.published.length = 1 := Runs.exists_exec (by decide)
  obtain ⟨w, hw, -⟩ := hrun
  exact (quiet_iff hw).2 (by decide)

/-- Thirteen minutes after the breach, seven after it was acknowledged, the latest alert is the one
that was suppressed. -/
theorem quiet_broken :
    ¬ Runs.Always defaultStep Watch.Quiet .init
      (acknowledgedBreach ++ [.metricsUpdated 1 10 (levelRecord 70 80) 3 102 780000]) := by
  decide

end Acknowledgement

end Workforce.Intraday.Alerting
