import Std.Data.String.ToNat
import Workforce.Foundations.Expiring
import Workforce.Foundations.Json
import Mathlib.Algebra.Ring.Nat

/-!
# The ids of agent events

The on-premises collector makes up an id for each event that it maps, of the employee, the activity
and how many events its process has received; the ingestion takes a lock of this name, and answers
that an event is a duplicate while it is held. The collector counts from the start when its process
is started again.

What is outside of the code is a `Runtime`: the XML parser, JSON, and what numbers and dates are as
texts. The locks are a store of `Workforce.Expiring`; times are in milliseconds.

* `collect`, `CollectorRun.collected`: the events that a process maps, over its connections.
* `accepted_iff`: exactly when all of them are accepted.
-/

namespace Workforce.Integration.OnPrem

open Expiring List

/-! ## Events -/

structure ActivityEvent where
  sourceEventId : String
  employeeId : String
  currentActivity : String
  activityStartedAt : String
  siteId : Option String
  queueId : Option String

structure AgentEventBody where
  /-- `agentDevice?.deviceIdentifier`. -/
  deviceIdentifier : Option String
  agentID : Option String

structure Runtime where
  /-- `xmlParser.parse`: the elements at the top, in their order. -/
  parseXml : String → Option (List (String × AgentEventBody))
  /-- `JSON.parse` of the bytes as UTF-8. -/
  parseJson : List UInt8 → Option Json
  /-- `String` of a number. -/
  numberText : ℚ → String
  /-- `new Date(text)`, in milliseconds. -/
  parseDate : String → Option ℚ
  /-- `toISOString` of a date in milliseconds. -/
  isoText : ℚ → Option String

/-- `${tenantId}:${employeeId}:${activity}:${sequence}`. -/
def sourceEventId (tenantId employeeId activity : String) (sequence : ℕ) : String :=
  tenantId ++ ":" ++ employeeId ++ ":" ++ activity ++ ":" ++ sequence.repr

/-- `AGENT_EVENT_ACTIVITY`. -/
def agentEventActivity : List (String × String) :=
  [("AgentReadyEvent", "ready"), ("AgentNotReadyEvent", "notReady"), ("AgentBusyEvent", "busy"),
    ("AgentWorkingAfterCallEvent", "workingAfterCall"), ("AgentLoggedOnEvent", "loggedOn"),
    ("AgentLoggedOffEvent", "loggedOff")]

/-- `receivedAt` is what `new Date().toISOString()` gives. -/
def mapCstaEventXmlToActivityEvent (runtime : Runtime) (tenantId xml : String) (sequence : ℕ)
    (receivedAt : String) : Option ActivityEvent :=
  match runtime.parseXml xml with
  | none | some [] => none
  | some ((rootTag, body) :: _) =>
    match agentEventActivity.lookup rootTag, body.deviceIdentifier with
    | some activity, some agentDeviceId =>
      if agentDeviceId = "" then none
      else
        let employeeId := body.agentID.getD agentDeviceId
        some {
          sourceEventId := sourceEventId tenantId employeeId activity sequence
          employeeId
          currentActivity := activity
          activityStartedAt := receivedAt
          siteId := none
          queueId := none }
    | _, _ => none

structure NatsBusFieldMap where
  employeeIdField : String
  activityField : String
  timestampField : Option String
  siteIdField : Option String
  queueIdField : Option String
  activityValueMap : Option (List (String × String))

def parseTimestamp (runtime : Runtime) : Json → Option String
  | .str text => (runtime.parseDate text).bind runtime.isoText
  | .num value => runtime.isoText (if value < 10 ^ 12 then value * 1000 else value)
  | _ => none

def asOptionalString : Json → Option String
  | .str text => if text = "" then none else some text
  | _ => none

/-- A string or a number, as a string. -/
def asIdentifier (runtime : Runtime) : Json → Option String
  | .str text => some text
  | .num value => some (runtime.numberText value)
  | _ => none

/-- The map of the values is its own entries: that an object inherits properties such as
`constructor`, functions that the hub refuses, is left out. -/
def mapNatsPayloadToActivityEvent (runtime : Runtime) (fieldMap : NatsBusFieldMap)
    (tenantId : String) (raw : List UInt8) (sequence : ℕ) (receivedAt : String) :
    Option ActivityEvent :=
  match runtime.parseJson raw with
  | some (.obj fields) =>
    let parsed := Json.obj fields
    match asIdentifier runtime (parsed.get fieldMap.employeeIdField),
      asIdentifier runtime (parsed.get fieldMap.activityField) with
    | some employeeId, some rawActivity =>
      let activity :=
        (fieldMap.activityValueMap.bind (·.lookup rawActivity)).getD rawActivity
      some {
        sourceEventId := sourceEventId tenantId employeeId activity sequence
        employeeId
        currentActivity := activity
        activityStartedAt :=
          (fieldMap.timestampField.bind fun field => parseTimestamp runtime (parsed.get field)).getD
            receivedAt
        siteId := fieldMap.siteIdField.bind fun field => asOptionalString (parsed.get field)
        queueId := fieldMap.queueIdField.bind fun field => asOptionalString (parsed.get field) }
    | _, _ => none
  | _ => none

/-! ## Runs of the collector -/

/-- What the collector receives, when it does so, and when an event of it is ingested. -/
structure Received (α : Type*) where
  content : α
  receivedAt : String
  ingestedAt : ℕ

/-- An event with the number that it was mapped with. -/
structure Collected where
  event : ActivityEvent
  sequence : ℕ
  ingestedAt : ℕ

/-- The largest number that `+= 1` leads to; one more is rounded to it. -/
def maxSequence : ℕ := 2 ^ 53

/-- `eventSequence += 1`. -/
def nextSequence (eventSequence : ℕ) : ℕ :=
  if eventSequence < maxSequence then eventSequence + 1 else eventSequence

/-- What the handlers of the two collectors do with what they receive. -/
def collect {α : Type*} (isEvent : α → Bool) (mapEvent : α → ℕ → String → Option ActivityEvent) :
    ℕ → List (Received α) → List Collected
  | _, [] => []
  | eventSequence, r :: rest =>
    if isEvent r.content then
      match mapEvent r.content (nextSequence eventSequence) r.receivedAt with
      | some event => ⟨event, nextSequence eventSequence, r.ingestedAt⟩ ::
          collect isEvent mapEvent (nextSequence eventSequence) rest
      | none => collect isEvent mapEvent (nextSequence eventSequence) rest
    else collect isEvent mapEvent eventSequence rest

structure CstaFrame where
  invokeId : String
  xml : String

/-- `CSTA_EVENT_INVOKE_ID`. -/
def cstaEventInvokeId : String := "9999"

/-- A run of the process, with one of the collectors. The handlers are attached again after a
reconnect, to the same collector. -/
inductive CollectorRun
  | avayaAura (connections : List (List (Received CstaFrame)))
  | natsBus (fieldMap : NatsBusFieldMap) (messages : List (Received (List UInt8)))

def CollectorRun.collected (runtime : Runtime) (tenantId : String) :
    CollectorRun → List Collected
  | .avayaAura connections =>
    collect (·.invokeId = cstaEventInvokeId)
      (fun frame => mapCstaEventXmlToActivityEvent runtime tenantId frame.xml) 0 connections.flatten
  | .natsBus fieldMap messages =>
    collect (fun _ => true) (mapNatsPayloadToActivityEvent runtime fieldMap tenantId) 0 messages

/-! ## Ingestion -/

abbrev Locks := Store String String

inductive IngestionOutcome
  | accepted
  | duplicate
  deriving DecidableEq

def ingestionIdempotencyKey (tenantId sourceEventId : String) : String :=
  "tenant:" ++ tenantId ++ ":intraday:ingested-event:" ++ sourceEventId

/-- `IngestionService.ingest`; `none` when the event cannot be published. -/
def ingest (ttlSeconds : ℕ) (tenantId : String) (now : ℕ) (event : ActivityEvent)
    (published : Bool) (locks : Locks) : Option IngestionOutcome × Locks :=
  let key := ingestionIdempotencyKey tenantId event.sourceEventId
  if (locks.get now key).isNone then
    let acquired := locks.setNew now key "1" (now + ttlSeconds * 1000)
    if published then (some .accepted, acquired) else (none, acquired.del key)
  else (some .duplicate, locks)

/-- The answers to some events, when the upstream is healthy. -/
def ingestAll (ttlSeconds : ℕ) (tenantId : String) :
    Locks → List Collected → List (Option IngestionOutcome)
  | _, [] => []
  | locks, c :: rest =>
    (ingest ttlSeconds tenantId c.ingestedAt c.event true locks).1 ::
      ingestAll ttlSeconds tenantId
        (ingest ttlSeconds tenantId c.ingestedAt c.event true locks).2 rest

/-- Every event that the runs of a collector map is accepted. -/
def AllAccepted (runtime : Runtime) (ttlSeconds : ℕ) (tenantId : String)
    (runs : List CollectorRun) : Prop :=
  ∀ outcome ∈ ingestAll ttlSeconds tenantId Store.empty
    (runs.flatMap (·.collected runtime tenantId)), outcome = some .accepted

/-- The id of an event is made up of its number. -/
def Collected.Identified (tenantId : String) (c : Collected) : Prop :=
  c.event.sourceEventId =
    sourceEventId tenantId c.event.employeeId c.event.currentActivity c.sequence

/-- Two events do not have the same number, employee and activity within the lifetime of a lock. -/
def Apart (ttlSeconds : ℕ) (c d : Collected) : Prop :=
  c.sequence = d.sequence →
    c.event.employeeId ++ ":" ++ c.event.currentActivity =
      d.event.employeeId ++ ":" ++ d.event.currentActivity →
    c.ingestedAt + ttlSeconds * 1000 ≤ d.ingestedAt

/-! ## The ids -/

theorem append_cons_inj_of_notMem {α : Type*} {a : α} {xs xs' zs zs' : List α} (hzs : a ∉ zs)
    (hzs' : a ∉ zs') : xs ++ a :: zs = xs' ++ a :: zs' ↔ xs = xs' ∧ zs = zs' := by
  constructor
  · intro h
    rcases append_eq_append_iff.1 h with ⟨c, hxs, hrest⟩ | ⟨c, hxs, hrest⟩ <;>
      rcases cons_eq_append_iff.1 hrest with ⟨hnil, heq⟩ | ⟨c', -, heq⟩
    · rw [hnil, append_nil] at hxs
      exact ⟨hxs.symm, (cons.inj heq).2.symm⟩
    · exact absurd (heq ▸ mem_append_right c' mem_cons_self) hzs
    · rw [hnil, append_nil] at hxs
      exact ⟨hxs, (cons.inj heq).2⟩
    · exact absurd (heq ▸ mem_append_right c' mem_cons_self) hzs'
  · rintro ⟨rfl, rfl⟩
    rfl

theorem colon_notMem_repr (n : ℕ) : ':' ∉ n.repr.toList := by
  intro hmem
  rw [Nat.toList_repr] at hmem
  exact absurd (Nat.isDigit_of_mem_toDigits (by decide) (by decide) hmem) (by decide)

/-- The number is what follows the last colon. -/
theorem sourceEventId_inj {tenantId employeeId employeeId' activity activity' : String}
    {sequence sequence' : ℕ} :
    sourceEventId tenantId employeeId activity sequence =
        sourceEventId tenantId employeeId' activity' sequence' ↔
      sequence = sequence' ∧ employeeId ++ ":" ++ activity = employeeId' ++ ":" ++ activity' := by
  have hsplit : ∀ e a : String, ∀ n : ℕ, (sourceEventId tenantId e a n).toList =
      (tenantId ++ ":" ++ (e ++ ":" ++ a)).toList ++ ':' :: n.repr.toList := by
    intro e a n
    simp [sourceEventId, String.append_assoc]
  rw [← String.toList_inj, hsplit, hsplit,
    append_cons_inj_of_notMem (colon_notMem_repr _) (colon_notMem_repr _), String.toList_inj,
    String.toList_inj, Nat.repr_inj, String.append_right_inj, and_comm]

theorem ingestionIdempotencyKey_inj {tenantId id id' : String} :
    ingestionIdempotencyKey tenantId id = ingestionIdempotencyKey tenantId id' ↔ id = id' :=
  String.append_right_inj _

/-! ## What a run collects -/

section Collect

variable {α : Type*} {isEvent : α → Bool} {mapEvent : α → ℕ → String → Option ActivityEvent}
  {tenantId : String}

theorem nextSequence_le {n : ℕ} (h : n ≤ maxSequence) : nextSequence n ≤ maxSequence := by
  rw [nextSequence]
  split <;> omega

theorem le_nextSequence (n : ℕ) : n ≤ nextSequence n := by
  rw [nextSequence]
  split <;> omega

theorem eq_maxSequence {n : ℕ} (h : n ≤ maxSequence) (heq : nextSequence n ≤ n) :
    n = maxSequence := by
  rw [nextSequence] at heq
  split at heq <;> omega

/-- A property of what the map gives is one of what is collected. -/
theorem forall_mem_collect {P : Collected → Prop}
    (h : ∀ content n receivedAt event ingestedAt, mapEvent content n receivedAt = some event →
      P ⟨event, n, ingestedAt⟩) (n : ℕ) (received : List (Received α)) :
    ∀ c ∈ collect isEvent mapEvent n received, P c := by
  induction received generalizing n with
  | nil => exact fun c hc => absurd hc not_mem_nil
  | cons r rest ih =>
    rw [collect]
    split
    · split
      · rename_i event hevent
        exact forall_mem_cons.2 ⟨h _ _ _ _ _ hevent, ih _⟩
      · exact ih _
    · exact ih _

theorem sequence_of_mem_collect {n : ℕ} (hn : n ≤ maxSequence) (received : List (Received α)) :
    ∀ c ∈ collect isEvent mapEvent n received,
      nextSequence n ≤ c.sequence ∧ c.sequence ≤ maxSequence := by
  induction received generalizing n with
  | nil => exact fun c hc => absurd hc not_mem_nil
  | cons r rest ih =>
    have hnext := nextSequence_le hn
    have hrest : ∀ c ∈ collect isEvent mapEvent (nextSequence n) rest,
        nextSequence n ≤ c.sequence ∧ c.sequence ≤ maxSequence :=
      fun c hc => (ih hnext c hc).imp_left (le_nextSequence _).trans
    rw [collect]
    split
    · split
      · exact forall_mem_cons.2 ⟨⟨le_rfl, hnext⟩, hrest⟩
      · exact hrest
    · exact ih hn

theorem pairwise_collect {n : ℕ} (hn : n ≤ maxSequence) (received : List (Received α)) :
    (collect isEvent mapEvent n received).Pairwise fun c d =>
      c.sequence = d.sequence → c.sequence = maxSequence := by
  induction received generalizing n with
  | nil => exact .nil
  | cons r rest ih =>
    have hnext := nextSequence_le hn
    rw [collect]
    split
    · split
      · refine pairwise_cons.2 ⟨fun d hd heq => ?_, ih hnext⟩
        have hless := (sequence_of_mem_collect hnext rest d hd).1
        exact eq_maxSequence hnext (hless.trans heq.ge)
      · exact ih hnext
    · exact ih hn

end Collect

section Runs

variable {runtime : Runtime} {tenantId : String}

theorem mapCsta_id {xml receivedAt : String} {sequence : ℕ} {event : ActivityEvent}
    (h : mapCstaEventXmlToActivityEvent runtime tenantId xml sequence receivedAt = some event) :
    event.sourceEventId =
      sourceEventId tenantId event.employeeId event.currentActivity sequence := by
  unfold mapCstaEventXmlToActivityEvent at h
  split at h
  · cases h
  · cases h
  · split at h
    · split at h
      · cases h
      · cases h
        rfl
    · cases h

theorem mapNats_id {fieldMap : NatsBusFieldMap} {raw : List UInt8} {receivedAt : String}
    {sequence : ℕ} {event : ActivityEvent}
    (h : mapNatsPayloadToActivityEvent runtime fieldMap tenantId raw sequence receivedAt =
      some event) :
    event.sourceEventId =
      sourceEventId tenantId event.employeeId event.currentActivity sequence := by
  unfold mapNatsPayloadToActivityEvent at h
  split at h
  · dsimp only at h
    split at h
    · cases h
      rfl
    · cases h
  · cases h

theorem identified_of_mem_collected {run : CollectorRun} {c : Collected}
    (hc : c ∈ run.collected runtime tenantId) : c.Identified tenantId := by
  cases run with
  | avayaAura connections =>
    exact forall_mem_collect (P := Collected.Identified tenantId)
      (fun _ _ _ _ _ h => mapCsta_id h) _ _ c hc
  | natsBus fieldMap messages =>
    exact forall_mem_collect (P := Collected.Identified tenantId)
      (fun _ _ _ _ _ h => mapNats_id h) _ _ c hc

theorem pairwise_collected (run : CollectorRun) :
    (run.collected runtime tenantId).Pairwise fun c d =>
      c.sequence = d.sequence → c.sequence = maxSequence := by
  cases run with
  | avayaAura connections => exact pairwise_collect (Nat.zero_le _) _
  | natsBus fieldMap messages => exact pairwise_collect (Nat.zero_le _) _

/-! ## The answers -/

theorem ingestAll_eq (ttlSeconds : ℕ) (locks : Locks) (collected : List Collected) :
    ingestAll ttlSeconds tenantId locks collected =
      (locks.acquireAll "1" (ttlSeconds * 1000) (collected.map fun c =>
        (ingestionIdempotencyKey tenantId c.event.sourceEventId, c.ingestedAt))).map
          fun free => some (if free then .accepted else .duplicate) := by
  induction collected generalizing locks with
  | nil => rfl
  | cons c rest ih =>
    rw [ingestAll, map_cons, Store.acquireAll, map_cons, ingest]
    by_cases hfree : (locks.get c.ingestedAt
        (ingestionIdempotencyKey tenantId c.event.sourceEventId)).isNone
    · rw [if_pos hfree, if_pos rfl, if_pos hfree, ih]
    · rw [if_neg hfree, if_neg hfree, ih, Store.setNew, if_neg hfree]

theorem pairwise_apart_iff {ttlSeconds : ℕ} (run : CollectorRun) :
    (run.collected runtime tenantId).Pairwise (Apart ttlSeconds) ↔
      ((run.collected runtime tenantId).filter (·.sequence = maxSequence)).Pairwise
        (Apart ttlSeconds) := by
  refine ⟨fun h => h.filter _, fun h => ?_⟩
  rw [pairwise_filter] at h
  refine h.imp₂ (fun c d hapart hmax heq => ?_) (pairwise_collected run)
  have hc := hmax heq
  exact hapart (decide_eq_true hc) (decide_eq_true (heq ▸ hc)) heq

theorem allAccepted_iff_pairwise {ttlSeconds : ℕ} {runs : List CollectorRun} :
    AllAccepted runtime ttlSeconds tenantId runs ↔
      (runs.flatMap (·.collected runtime tenantId)).Pairwise (Apart ttlSeconds) := by
  have hidentified : ∀ c ∈ runs.flatMap (·.collected runtime tenantId),
      c.Identified tenantId := by
    intro c hc
    obtain ⟨run, -, hc⟩ := mem_flatMap.1 hc
    exact identified_of_mem_collected hc
  rw [AllAccepted, ingestAll_eq, forall_mem_map]
  have hfree : ∀ free : Bool, some (if free then IngestionOutcome.accepted else .duplicate) =
      some .accepted ↔ free = true := by decide
  simp only [hfree]
  rw [Store.acquireAll_iff, pairwise_map]
  refine (and_iff_right fun call _ => rfl).trans (Pairwise.iff_of_mem fun hc hd => ?_)
  rw [ingestionIdempotencyKey_inj, hidentified _ hc, hidentified _ hd, sourceEventId_inj, and_imp]
  exact ⟨fun h hsequence hwho => h hsequence.symm hwho.symm,
    fun h hsequence hwho => h hsequence.symm hwho.symm⟩

/-- **The events** of all runs are accepted exactly when no two of different runs have the same
number, employee and activity within the lifetime of a lock, nor two of one run that has reached
the largest number. -/
theorem accepted_iff (runtime : Runtime) (ttlSeconds : ℕ) (tenantId : String)
    (runs : List CollectorRun) :
    AllAccepted runtime ttlSeconds tenantId runs ↔
      runs.Pairwise (fun run run' => ∀ c ∈ run.collected runtime tenantId,
        ∀ d ∈ run'.collected runtime tenantId, Apart ttlSeconds c d) ∧
      ∀ run ∈ runs, ((run.collected runtime tenantId).filter
        (·.sequence = maxSequence)).Pairwise (Apart ttlSeconds) := by
  rw [allAccepted_iff_pairwise, pairwise_flatMap, and_comm]
  exact and_congr_right fun _ => forall₂_congr fun run _ => pairwise_apart_iff run

def readyXml : String :=
  "<AgentReadyEvent><agentDevice><deviceIdentifier>4711</deviceIdentifier></agentDevice>" ++
    "<agentID>5f0c2f6e-7c1a-4a57-9b1e-2d1f0a3b4c5d</agentID></AgentReadyEvent>"

/-- A parser for the event of an agent who is ready. -/
def readyRuntime : Runtime where
  parseXml xml :=
    if xml = readyXml then
      some [("AgentReadyEvent", ⟨some "4711", some "5f0c2f6e-7c1a-4a57-9b1e-2d1f0a3b4c5d"⟩)]
    else none
  parseJson _ := none
  numberText _ := ""
  parseDate _ := none
  isoText _ := none

/-- The agent is ready, the process is started again, and an hour later the agent is ready. -/
def restartedRuns : List CollectorRun :=
  [.avayaAura [[⟨⟨cstaEventInvokeId, readyXml⟩, "2026-01-05T08:00:00.000Z", 0⟩]],
    .avayaAura [[⟨⟨cstaEventInvokeId, readyXml⟩, "2026-01-05T09:00:00.000Z", 3600000⟩]]]

theorem restartedRuns_not_accepted :
    ¬ AllAccepted readyRuntime 86400 "11111111-1111-4111-8111-111111111111" restartedRuns := by
  unfold AllAccepted
  decide +kernel

end Runs

end Workforce.Integration.OnPrem
