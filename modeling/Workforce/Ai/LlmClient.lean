import Workforce.Ai.CircuitBreaker
import Workforce.Foundations.Interference
import Mathlib.Data.Fintype.EquivFin

/-!
# One tenant's calls and the breaker that all share

`provider-routing-llm-client.service.ts`: every call of every tenant goes through the breaker of its
provider. A failed call is classified: a status of the tenant's own making (a wrong key, a bad model
id) is not counted. What the provider's SDK does is the `Reply` of the run.

A tenant's misconfigured calls reach the other tenants in two ways: a missing key and a missing or
unreachable base URL have no status and are counted; and any call may be the trial that a cooled
down breaker admits, which keeps the others out while it runs, and for ever when it ends with a
failure that is not counted.

* `Matches`: the state with the tenant's calls and the state without them.
* `isolation_iff`: exactly which calls of a tenant the others cannot notice.
-/

namespace Workforce.Ai

open ProviderCircuitState List

/-! ## The client -/

structure ResolvedLlmProvider where
  provider : AiLlmProvider
  model : String
  apiKey : Option String
  baseUrl : Option String
  deriving DecidableEq

structure LlmCompletionResult where
  text : String
  model : String

/-- An exception, as far as `extractStatus` looks at it. -/
inductive CallError
  /-- The `APIError` of an SDK; without a status when the connection failed. -/
  | api (status : Option ℕ)
  | ollamaCallTimeout
  /-- An object with a numeric `status_code`. -/
  | statusCode (code : ℕ)
  | plain (message : String)
  deriving DecidableEq

/-- What the provider's SDK does with a request. -/
inductive Reply
  | content (text : Option String)
  | throws (e : CallError)
  /-- Nothing within `CALL_TIMEOUT_MS`. -/
  | timeout
  deriving DecidableEq

/-- `TENANT_SPECIFIC_STATUS_CODES`. -/
def tenantSpecificStatusCodes : List ℕ := [400, 401, 403, 404, 422]

/-- The HTTP status of an error, if it has one. -/
def extractStatus : CallError → Option ℕ
  | .api status => status
  | .ollamaCallTimeout => some 408
  | .statusCode code => some code
  | .plain _ => none

/-- A failure that says something of the provider, not of the tenant. -/
def isCountableFailure (e : CallError) : Bool :=
  match extractStatus e with
  | none => true
  | some status => status ∉ tenantSpecificStatusCodes

def AiLlmProvider.name : AiLlmProvider → String
  | .anthropic => "anthropic"
  | .openai => "openai"
  | .gemini => "gemini"
  | .ollama => "ollama"

/-- A string that is there and not empty. -/
def present : Option String → Bool
  | none => false
  | some s => s ≠ ""

def requireApiKey (p : ResolvedLlmProvider) : Except CallError Unit :=
  if present p.apiKey then .ok ()
  else .error (.plain s!"{p.provider.name} requires an API key, but none is configured")

/-- The text of a response, or an error that says what is missing. -/
def readText (p : ResolvedLlmProvider) (missing : String) (timedOut : CallError)
    (accepts : Option String → Bool) : Reply → Except CallError LlmCompletionResult
  | .content text =>
    if accepts text then .ok ⟨text.getD "", p.model⟩ else .error (.plain missing)
  | .throws e => .error e
  | .timeout => .error timedOut

def completeWithAnthropic (p : ResolvedLlmProvider) (reply : Reply) :
    Except CallError LlmCompletionResult := do
  requireApiKey p
  readText p "Anthropic response contained no text content block" (.api none) Option.isSome reply

def completeWithOpenAi (p : ResolvedLlmProvider) (reply : Reply) :
    Except CallError LlmCompletionResult := do
  requireApiKey p
  readText p "OpenAI response contained no message content" (.api none) present reply

def completeWithGemini (p : ResolvedLlmProvider) (reply : Reply) :
    Except CallError LlmCompletionResult := do
  requireApiKey p
  readText p "Gemini response contained no text content" (.api none) present reply

/-- The base URL is checked in place of the key; the timer is the code's own. -/
def completeWithOllama (p : ResolvedLlmProvider) (reply : Reply) :
    Except CallError LlmCompletionResult :=
  if present p.baseUrl then
    readText p "Ollama response contained no message content" .ollamaCallTimeout present reply
  else .error (.plain "ollama requires a configured baseUrl")

def dispatch (p : ResolvedLlmProvider) (reply : Reply) : Except CallError LlmCompletionResult :=
  match p.provider with
  | .openai => completeWithOpenAi p reply
  | .gemini => completeWithGemini p reply
  | .ollama => completeWithOllama p reply
  | .anthropic => completeWithAnthropic p reply

/-- What `complete` records about the call. -/
def outcomeOf : Except CallError LlmCompletionResult → Outcome
  | .ok _ => .success
  | .error e => .failure (isCountableFailure e)

/-! ## Calls of many tenants -/

/-- The `n`-th call of a tenant. -/
structure LlmCall where
  tenant : ℕ
  n : ℕ
  provider : ResolvedLlmProvider
  deriving DecidableEq

structure ClientState where
  breaker : BreakerState LlmCall
  /-- Whether each call was short-circuited, the last one first. -/
  verdicts : List (LlmCall × Bool)

/-- No call has been made. -/
def ClientState.init : ClientState := ⟨.init, []⟩

inductive ClientEvent
  | tick (d : ℕ)
  | complete (call : LlmCall)
  | respond (call : LlmCall) (reply : Reply)
  deriving DecidableEq

/-- The breaker of the call's provider. -/
def ClientState.circuit (s : ClientState) (call : LlmCall) : ProviderCircuitState :=
  s.breaker.states call.provider.provider

/-- `complete` up to the request, and from the reply on. A reply to a call that was short-circuited
does not exist: nothing happens. -/
def clientStep (s : ClientState) : ClientEvent → Option ClientState
  | .tick d => (breakerStep s.breaker (.tick d)).map fun b => { s with breaker := b }
  | .complete call =>
    let shortCircuited := ((s.circuit call).beforeCall s.breaker.clock).1
    (breakerStep s.breaker (.beforeCall call call.provider.provider)).map fun b =>
      ⟨b, (call, shortCircuited) :: s.verdicts⟩
  | .respond call reply =>
    if ⟨call, call.provider.provider⟩ ∈ s.breaker.outstanding then
      (breakerStep s.breaker (.report call call.provider.provider
        (outcomeOf (dispatch call.provider reply)))).map fun b => { s with breaker := b }
    else some s

/-- The tenant whose event it is. -/
def ClientEvent.tenant : ClientEvent → Option ℕ
  | .tick _ => none
  | .complete call | .respond call _ => some call.tenant

/-- The events of a tenant. -/
def isOf (t : ℕ) (e : ClientEvent) : Bool := e.tenant = some t

/-- What the other tenants see: which of their calls were short-circuited. -/
def ClientState.othersVerdicts (t : ℕ) (s : ClientState) : List (LlmCall × Bool) :=
  s.verdicts.filter fun v => v.1.tenant ≠ t

/-- The call fails because of the tenant's own configuration. -/
inductive Misconfigured : ResolvedLlmProvider → Reply → Prop
  | missingApiKey {p : ResolvedLlmProvider} {reply : Reply} (hcloud : p.provider ≠ .ollama)
      (hkey : present p.apiKey = false) : Misconfigured p reply
  | missingBaseUrl {p : ResolvedLlmProvider} {reply : Reply} (hown : p.provider = .ollama)
      (hurl : present p.baseUrl = false) : Misconfigured p reply
  /-- A wrong key or a bad model id, as a provider answers it. -/
  | rejected {p : ResolvedLlmProvider} {e : CallError} {status : ℕ}
      (hstatus : extractStatus e = some status) (hown : status ∈ tenantSpecificStatusCodes) :
      Misconfigured p (.throws e)
  /-- The connection to the tenant's own server fails, or nothing comes back. -/
  | unreachable {p : ResolvedLlmProvider} {message : String} (hown : p.provider = .ollama) :
      Misconfigured p (.throws (.plain message))
  | unanswered {p : ResolvedLlmProvider} (hown : p.provider = .ollama) : Misconfigured p .timeout

/-- The tenant's calls fail because of its own configuration. -/
def ClientEvent.OwnFault : ClientEvent → Prop
  | .respond call reply => Misconfigured call.provider reply
  | _ => True

/-- A call of the tenant is not admitted as a trial, and a failure of the tenant is counted only
while the breaker is open, where it counts for nothing. -/
def Quiet (s : ClientState) : ClientEvent → Prop
  | .complete call => (s.circuit call).status = .closed ∨
      ((s.circuit call).beforeCall s.breaker.clock).1 = true
  | .respond call reply => ⟨call, call.provider.provider⟩ ∈ s.breaker.outstanding →
      outcomeOf (dispatch call.provider reply) = .failure true → (s.circuit call).status = .open_
  | .tick _ => True

instance (s : ClientState) : DecidablePred (Quiet s) := fun e => by
  cases e <;> unfold Quiet <;> infer_instance

/-! ## What a call does to the breaker -/

theorem Misconfigured.dispatch {p : ResolvedLlmProvider} {reply : Reply}
    (h : Misconfigured p reply) :
    ∃ e, dispatch p reply = .error e := by
  have hcloud : ∀ {check : Except CallError Unit} {e : CallError}
      {rest : Except CallError LlmCompletionResult}, rest = .error e →
      ∃ e', (do check; rest) = Except.error e' := by
    rintro (e' | _) e rest rfl
    · exact ⟨e', rfl⟩
    · exact ⟨e, rfl⟩
  have hthrows : ∀ e, ∃ e', Ai.dispatch p (.throws e) = .error e' := by
    intro e
    unfold Ai.dispatch
    split
    · exact hcloud rfl
    · exact hcloud rfl
    · unfold completeWithOllama
      split
      · exact ⟨e, rfl⟩
      · exact ⟨_, rfl⟩
    · exact hcloud rfl
  cases h with
  | missingApiKey hcloud hkey =>
    have hrequire : requireApiKey p =
        .error (.plain s!"{p.provider.name} requires an API key, but none is configured") := by
      simp [requireApiKey, hkey]
    cases hp : p.provider with
    | ollama => exact absurd hp hcloud
    | openai => exact ⟨_, by simp only [Ai.dispatch, hp, completeWithOpenAi, hrequire]; rfl⟩
    | gemini => exact ⟨_, by simp only [Ai.dispatch, hp, completeWithGemini, hrequire]; rfl⟩
    | anthropic => exact ⟨_, by simp only [Ai.dispatch, hp, completeWithAnthropic, hrequire]; rfl⟩
  | missingBaseUrl hown hurl =>
    refine ⟨.plain "ollama requires a configured baseUrl", ?_⟩
    simp [Ai.dispatch, hown, completeWithOllama, hurl]
  | rejected => exact hthrows _
  | unreachable => exact hthrows _
  | unanswered hown =>
    simp only [Ai.dispatch, hown, completeWithOllama]
    split <;> exact ⟨_, rfl⟩

namespace ProviderCircuitState

/-- Two breakers that behave alike: the number of failures matters only while they are closed. -/
structure Same (c c' : ProviderCircuitState) : Prop where
  status : c.status = c'.status
  openedAt : c.openedAt = c'.openedAt
  trialInFlight : c.trialInFlight = c'.trialInFlight
  failures : c.status = .closed → c.consecutiveFailures = c'.consecutiveFailures

variable {c c' : ProviderCircuitState}

theorem Same.refl (c : ProviderCircuitState) : c.Same c := ⟨rfl, rfl, rfl, fun _ => rfl⟩

theorem Same.cooledDown (h : c.Same c') (now : ℤ) : c.cooledDown now = c'.cooledDown now := by
  simp only [ProviderCircuitState.cooledDown, h.openedAt]

theorem Same.beforeCall (h : c.Same c') (now : ℤ) :
    (c.beforeCall now).1 = (c'.beforeCall now).1 ∧
      (c.beforeCall now).2.Same (c'.beforeCall now).2 := by
  have hstatus := h.status
  cases hc : c.status with
  | closed =>
    rw [hc] at hstatus
    simpa [ProviderCircuitState.beforeCall, hc, ← hstatus] using h
  | open_ =>
    rw [hc] at hstatus
    simp only [ProviderCircuitState.beforeCall, hc, ← hstatus, h.cooledDown now]
    split
    · exact ⟨rfl, rfl, h.openedAt, rfl, by simp⟩
    · exact ⟨rfl, h⟩
  | halfOpen =>
    rw [hc] at hstatus
    simp only [ProviderCircuitState.beforeCall, hc, ← hstatus, h.trialInFlight]
    split
    · exact ⟨rfl, h⟩
    · exact ⟨rfl, rfl, h.openedAt, rfl, by simp⟩

theorem Same.record (h : c.Same c') (now : ℤ) (outcome : Outcome) :
    (c.record now outcome).Same (c'.record now outcome) := by
  have hstatus := h.status
  match outcome with
  | .success => exact ⟨rfl, rfl, rfl, fun _ => rfl⟩
  | .failure false => exact h
  | .failure true =>
    show (c.recordFailure now true).Same (c'.recordFailure now true)
    cases hc : c.status with
    | closed =>
      rw [hc] at hstatus
      rw [recordFailure_of_closed hc, recordFailure_of_closed hstatus.symm, h.failures hc]
      split
      · exact ⟨rfl, rfl, h.trialInFlight, fun _ => rfl⟩
      · exact ⟨h.status, h.openedAt, h.trialInFlight, fun _ => rfl⟩
    | open_ =>
      rw [hc] at hstatus
      rw [recordFailure_of_open hc, recordFailure_of_open hstatus.symm]
      exact ⟨h.status, h.openedAt, h.trialInFlight, by simp [hc]⟩
    | halfOpen =>
      rw [hc] at hstatus
      rw [recordFailure_of_halfOpen hc, recordFailure_of_halfOpen hstatus.symm]
      exact ⟨rfl, rfl, rfl, by simp⟩

/-- A failure that is counted while the breaker is open changes nothing that matters. -/
theorem same_record_of_open (hc : c.status = .open_) (now : ℤ) (countable : Bool) :
    (c.record now (.failure countable)).Same c := by
  cases countable with
  | false => exact .refl c
  | true =>
    show (c.recordFailure now true).Same c
    rw [recordFailure_of_open hc]
    exact ⟨rfl, rfl, rfl, by simp [hc]⟩

end ProviderCircuitState

/-! ## With and without the tenant -/

/-- The state of a run and the state of the run without the events of tenant `t`. -/
structure Matches (t : ℕ) (s s' : ClientState) : Prop where
  clock : s.breaker.clock = s'.breaker.clock
  legit : ∀ p, (s.breaker.states p).Legit
  same : ∀ p, (s.breaker.states p).Same (s'.breaker.states p)
  outstanding : s.breaker.outstanding.filter (·.call.tenant ≠ t) =
    s'.breaker.outstanding.filter (·.call.tenant ≠ t)
  verdicts : s.othersVerdicts t = s'.othersVerdicts t

theorem matches_init (t : ℕ) : Matches t .init .init where
  clock := rfl
  legit := fun _ => legit_initial
  same := fun _ => .refl _
  outstanding := rfl
  verdicts := rfl

namespace Matches

variable {t : ℕ} {s s' : ClientState}

theorem mem_outstanding (h : Matches t s s') {o : Outstanding LlmCall} (ho : o.call.tenant ≠ t) :
    o ∈ s.breaker.outstanding ↔ o ∈ s'.breaker.outstanding := by
  have hmem : ∀ l : List (Outstanding LlmCall),
      o ∈ l.filter (·.call.tenant ≠ t) ↔ o ∈ l := fun l => by
    simp [ho]
  rw [← hmem s.breaker.outstanding, h.outstanding, hmem]

/-- One breaker changes on both sides, and with it the outstanding calls and the verdicts. -/
theorem change (h : Matches t s s') {p : AiLlmProvider} {c c' : ProviderCircuitState}
    (hc : c.Same c') (hlegit : c.Legit) {out out' : List (Outstanding LlmCall)}
    (hout : out.filter (·.call.tenant ≠ t) = out'.filter (·.call.tenant ≠ t))
    {v v' : List (LlmCall × Bool)}
    (hv : v.filter (fun v => v.1.tenant ≠ t) = v'.filter fun v => v.1.tenant ≠ t) :
    Matches t ⟨{ s.breaker.setState p c with outstanding := out }, v⟩
      ⟨{ s'.breaker.setState p c' with outstanding := out' }, v'⟩ where
  clock := h.clock
  legit := fun q => by
    by_cases hq : q = p
    · subst hq
      simpa [BreakerState.setState] using hlegit
    · simpa [BreakerState.setState, hq] using h.legit q
  same := fun q => by
    by_cases hq : q = p
    · subst hq
      simpa [BreakerState.setState] using hc
    · simpa [BreakerState.setState, hq] using h.same q
  outstanding := hout
  verdicts := hv

/-- One breaker changes in the run with the tenant, by an event of the tenant. -/
theorem changeLeft (h : Matches t s s') {p : AiLlmProvider} {c : ProviderCircuitState}
    (hc : c.Same (s.breaker.states p)) (hlegit : c.Legit) {out : List (Outstanding LlmCall)}
    (hout : out.filter (·.call.tenant ≠ t) = s.breaker.outstanding.filter (·.call.tenant ≠ t))
    {v : List (LlmCall × Bool)}
    (hv : v.filter (fun v => v.1.tenant ≠ t) = s.othersVerdicts t) :
    Matches t ⟨{ s.breaker.setState p c with outstanding := out }, v⟩ s' := by
  have hsame : c.Same (s'.breaker.states p) :=
    ⟨hc.status.trans (h.same p).status, hc.openedAt.trans (h.same p).openedAt,
      hc.trialInFlight.trans (h.same p).trialInFlight,
      fun hclosed => (hc.failures hclosed).trans ((h.same p).failures (hc.status ▸ hclosed))⟩
  have hchange := h.change (p := p) hsame hlegit (hout.trans h.outstanding) (hv.trans h.verdicts)
  rwa [BreakerState.setState_states] at hchange

theorem byOthers (h : Matches t s s') {e : ClientEvent} (he : isOf t e = false) {u : ClientState}
    (hstep : clientStep s e = some u) : ∃ u', clientStep s' e = some u' ∧ Matches t u u' := by
  cases e with
  | tick d =>
    cases hstep
    exact ⟨_, rfl, congrArg (· + (d : ℤ)) h.clock, h.legit, h.same, h.outstanding, h.verdicts⟩
  | complete call =>
    have hcall : call.tenant ≠ t := by simpa [isOf, ClientEvent.tenant] using he
    have hmem : call ∈ s.breaker.outstanding.map (·.call) ↔
        call ∈ s'.breaker.outstanding.map (·.call) := by
      simp only [mem_map]
      constructor <;> rintro ⟨o, ho, rfl⟩
      · exact ⟨o, (h.mem_outstanding hcall).1 ho, rfl⟩
      · exact ⟨o, (h.mem_outstanding hcall).2 ho, rfl⟩
    by_cases hnew : call ∈ s.breaker.outstanding.map (·.call)
    · simp [clientStep, breakerStep, hnew] at hstep
    · obtain ⟨hgate, hsame⟩ := (h.same call.provider.provider).beforeCall s.breaker.clock
      have hlegit := (h.legit call.provider.provider).beforeCall s.breaker.clock
      simp only [clientStep, breakerStep_beforeCall _ hnew, Option.map_some] at hstep
      cases hstep
      simp only [clientStep, breakerStep_beforeCall _ (fun hnew' => hnew (hmem.2 hnew')),
        Option.map_some]
      refine ⟨_, rfl, ?_⟩
      simp only [ClientState.circuit, ← h.clock, ← hgate]
      refine h.change hsame hlegit ?_ ?_
      · split
        · exact h.outstanding
        · simp only [filter_cons, h.outstanding]
      · have hverdicts := h.verdicts
        simp only [ClientState.othersVerdicts] at hverdicts
        simp only [filter_cons, hverdicts]
  | respond call reply =>
    have hcall : call.tenant ≠ t := by simpa [isOf, ClientEvent.tenant] using he
    have hmem := h.mem_outstanding (o := ⟨call, call.provider.provider⟩) hcall
    by_cases hout : ⟨call, call.provider.provider⟩ ∈ s.breaker.outstanding
    · simp only [clientStep, if_pos hout, breakerStep_report hout, Option.map_some] at hstep
      cases hstep
      simp only [clientStep, if_pos (hmem.1 hout), breakerStep_report (hmem.1 hout),
        Option.map_some]
      refine ⟨_, rfl, ?_⟩
      rw [← h.clock]
      refine h.change ((h.same _).record _ _) ((h.legit _).record _ _) ?_ h.verdicts
      rw [← erase_filter, ← erase_filter, h.outstanding]
    · simp only [clientStep, if_neg hout] at hstep
      cases hstep
      simp only [clientStep, if_neg fun hout' => hout (hmem.2 hout')]
      exact ⟨_, rfl, h⟩

theorem filter_erase_own (l : List (Outstanding LlmCall)) {o : Outstanding LlmCall}
    (ho : o.call.tenant = t) :
    (l.erase o).filter (·.call.tenant ≠ t) = l.filter (·.call.tenant ≠ t) := by
  rw [← erase_filter, erase_of_not_mem]
  simp [ho]

/-- The quiet events of the tenant are not seen on the other side. -/
theorem byParty (h : Matches t s s') {e : ClientEvent} (he : isOf t e = true) (hown : e.OwnFault)
    (hquiet : Quiet s e) {u : ClientState} (hstep : clientStep s e = some u) :
    Matches t u s' := by
  cases e with
  | tick d => simp [isOf, ClientEvent.tenant] at he
  | complete call =>
    have hcall : call.tenant = t := by simpa [isOf, ClientEvent.tenant] using he
    by_cases hnew : call ∈ s.breaker.outstanding.map (·.call)
    · simp [clientStep, breakerStep, hnew] at hstep
    · have hkeep : ((s.circuit call).beforeCall s.breaker.clock).2 = s.circuit call := by
        rcases hquiet with hclosed | hshort
        · simp [beforeCall, hclosed]
        · rw [beforeCall_of_shortCircuited hshort]
      simp only [clientStep, breakerStep_beforeCall _ hnew, Option.map_some] at hstep
      cases hstep
      have hsame : ((s.breaker.states call.provider.provider).beforeCall s.breaker.clock).2 =
          s.breaker.states call.provider.provider := hkeep
      rw [hsame]
      refine h.changeLeft (.refl _) (h.legit _) ?_ ?_
      · split
        · rfl
        · simp [hcall]
      · simp [ClientState.othersVerdicts, hcall]
  | respond call reply =>
    have hcall : call.tenant = t := by simpa [isOf, ClientEvent.tenant] using he
    by_cases hout : ⟨call, call.provider.provider⟩ ∈ s.breaker.outstanding
    · obtain ⟨e, he⟩ := Misconfigured.dispatch hown
      have hsame : ((s.circuit call).record s.breaker.clock
          (outcomeOf (dispatch call.provider reply))).Same (s.circuit call) := by
        rw [he]
        cases hcount : isCountableFailure e with
        | false =>
          simp only [outcomeOf, hcount]
          exact .refl _
        | true =>
          have hopen := hquiet hout (by simp [he, outcomeOf, hcount])
          exact same_record_of_open hopen _ _
      simp only [clientStep, if_pos hout, breakerStep_report hout, Option.map_some] at hstep
      cases hstep
      exact h.changeLeft hsame ((h.legit _).record _ _) (filter_erase_own _ hcall) rfl
    · simp only [clientStep, if_neg hout] at hstep
      cases hstep
      exact h

end Matches

/-! ## What the others can notice -/

/-- A call to a provider that is configured. -/
def probeProvider (p : AiLlmProvider) : ResolvedLlmProvider := ⟨p, "model", some "key", some "url"⟩

/-- The connection of a call fails. -/
def networkError : Reply := .throws (.plain "fetch failed")

theorem outcomeOf_networkError (p : AiLlmProvider) :
    outcomeOf (dispatch (probeProvider p) networkError) = .failure true := by
  cases p <;> rfl

theorem exists_probe (t : ℕ) (p : AiLlmProvider) (calls : List LlmCall) :
    ∃ call : LlmCall, call.tenant ≠ t ∧ call.provider = probeProvider p ∧ call ∉ calls := by
  obtain ⟨n, hn⟩ := Infinite.exists_notMem_finset (calls.map (·.n)).toFinset
  refine ⟨⟨t + 1, n, probeProvider p⟩, by simp, rfl, fun hmem => hn ?_⟩
  exact mem_toFinset.2 (mem_map.2 ⟨_, hmem, rfl⟩)

/-- A call is made `k` times, and its connection fails each time. -/
def failures (call : LlmCall) : ℕ → List ClientEvent
  | 0 => []
  | k + 1 => .complete call :: .respond call networkError :: failures call k

theorem isOf_failures {t : ℕ} {call : LlmCall} (h : call.tenant ≠ t) (k : ℕ) :
    ∀ e ∈ failures call k, isOf t e = false := by
  induction k with
  | zero => simp [failures]
  | succ k ih =>
    simp only [failures, forall_mem_cons]
    exact ⟨by simp [isOf, ClientEvent.tenant, h], by simp [isOf, ClientEvent.tenant, h], ih⟩

/-- The state of a breaker that has just opened. -/
def JustOpened (now : ℤ) (c : ProviderCircuitState) : Prop :=
  c.status = .open_ ∧ c.openedAt = some now

theorem JustOpened.shortCircuits {now : ℤ} {c : ProviderCircuitState} (h : JustOpened now c) :
    (c.beforeCall now).1 = true := by
  have hcool : c.cooledDown now = false := by simp [cooledDown, h.2, cooldownMs]
  simp [beforeCall, h.1, hcool]

section Probe

variable {p : AiLlmProvider} {call : LlmCall}

theorem exec_failure (hp : call.provider = probeProvider p) {s : ClientState}
    (hnew : call ∉ s.breaker.outstanding.map (·.call))
    (hclosed : (s.circuit call).status = .closed) :
    ∃ u, Runs.exec clientStep s (failures call 1) = some u ∧ u.breaker.clock = s.breaker.clock ∧
      u.breaker.outstanding = s.breaker.outstanding ∧
      u.circuit call = (s.circuit call).recordFailure s.breaker.clock true := by
  have hgate : (s.breaker.states call.provider.provider).beforeCall s.breaker.clock =
      (false, s.breaker.states call.provider.provider) := by
    have hclosed' : (s.breaker.states call.provider.provider).status = .closed := hclosed
    simp [beforeCall, hclosed']
  have hrecord : outcomeOf (dispatch call.provider networkError) = .failure true := by
    rw [hp, outcomeOf_networkError]
  let admitted : ClientState :=
    ⟨{ s.breaker with outstanding := ⟨call, call.provider.provider⟩ :: s.breaker.outstanding },
      (call, false) :: s.verdicts⟩
  have hcomplete : clientStep s (.complete call) = some admitted := by
    simp [clientStep, breakerStep_beforeCall _ hnew, ClientState.circuit, hgate, admitted]
  have hmem : (⟨call, call.provider.provider⟩ : Outstanding LlmCall) ∈
      admitted.breaker.outstanding :=
    mem_cons_self
  have hrespond : clientStep admitted (.respond call networkError) = some
      ⟨s.breaker.setState call.provider.provider
        ((s.circuit call).recordFailure s.breaker.clock true), admitted.verdicts⟩ := by
    rw [clientStep, if_pos hmem, hrecord, breakerStep_report hmem]
    simp [admitted, BreakerState.setState, ClientState.circuit, record]
  have hrun := Runs.exec_cons_eq_some.2
    ⟨_, hcomplete, Runs.exec_cons_eq_some.2 ⟨_, hrespond, Runs.exec_nil ..⟩⟩
  exact ⟨_, hrun, rfl, rfl, BreakerState.setState_self ..⟩

theorem exec_failures (hp : call.provider = probeProvider p) {k : ℕ} {s : ClientState}
    (hnew : call ∉ s.breaker.outstanding.map (·.call)) (hclosed : (s.circuit call).status = .closed)
    (hk : (s.circuit call).consecutiveFailures + k ≤ failureThreshold) :
    ∃ u, Runs.exec clientStep s (failures call k) = some u ∧ u.breaker.clock = s.breaker.clock ∧
      u.breaker.outstanding = s.breaker.outstanding ∧
      ((s.circuit call).consecutiveFailures + k < failureThreshold →
        (u.circuit call).status = .closed) ∧
      ((s.circuit call).consecutiveFailures + k = failureThreshold → 0 < k →
        JustOpened s.breaker.clock (u.circuit call)) := by
  induction k generalizing s with
  | zero => exact ⟨s, rfl, rfl, rfl, fun _ => hclosed, fun _ hpos => absurd hpos (by omega)⟩
  | succ k ih =>
    obtain ⟨u, hu, hclock, hout, hcircuit⟩ := exec_failure hp hnew hclosed
    rw [recordFailure_of_closed hclosed] at hcircuit
    have hrun : failures call (k + 1) = failures call 1 ++ failures call k := rfl
    by_cases hfull : failureThreshold ≤ (s.circuit call).consecutiveFailures + 1
    · -- the first of them opens the breaker, so it is the only one
      obtain rfl : k = 0 := by omega
      rw [if_pos hfull] at hcircuit
      refine ⟨u, hu, hclock, hout, fun hlt => by omega, fun _ _ => ?_⟩
      rw [hcircuit]
      exact ⟨rfl, rfl⟩
    · rw [if_neg hfull] at hcircuit
      have hclosed' : (u.circuit call).status = .closed := by rw [hcircuit]; exact hclosed
      have hcount : (u.circuit call).consecutiveFailures =
          (s.circuit call).consecutiveFailures + 1 := by rw [hcircuit]
      obtain ⟨v, hv, hclock', hout', hstill, hopens⟩ :=
        ih (by rw [hout]; exact hnew) hclosed' (by omega)
      refine ⟨v, ?_, hclock'.trans hclock, hout'.trans hout, fun hlt => hstill (by omega),
        fun heq _ => ?_⟩
      · rw [hrun]
        exact Runs.exec_append_eq_some.2 ⟨u, hu, hv⟩
      · rw [hclock] at hopens
        exact hopens (by omega) (by omega)

/-- After any events of the others, a call tells two states apart when it is short-circuited in only
one of them. -/
theorem verdicts_differ {t : ℕ} (hcall : call.tenant ≠ t) {u s' w w' : ClientState}
    (cs : List ClientEvent) (hcs : ∀ c ∈ cs, isOf t c = false)
    (hu : Runs.exec clientStep u cs = some w) (hs' : Runs.exec clientStep s' cs = some w')
    (hnew : call ∉ w.breaker.outstanding.map (·.call))
    (hgate : ((w.circuit call).beforeCall w.breaker.clock).1 ≠
      ((w'.circuit call).beforeCall w'.breaker.clock).1) :
    ∃ cs v, (∀ c ∈ cs, isOf t c = false) ∧ Runs.exec clientStep u cs = some v ∧
      ∀ v', Runs.exec clientStep s' cs = some v' → v.othersVerdicts t ≠ v'.othersVerdicts t := by
  obtain ⟨v, hv⟩ : ∃ v, clientStep w (.complete call) = some v := by
    simp [clientStep, breakerStep_beforeCall _ hnew]
  refine ⟨cs ++ [.complete call], v, ?_, ?_, fun v' hv' heq => ?_⟩
  · intro c hc
    rcases mem_append.1 hc with hc | hc
    · exact hcs c hc
    · obtain rfl := mem_singleton.1 hc
      simpa [isOf, ClientEvent.tenant] using hcall
  · exact Runs.exec_append_eq_some.2 ⟨w, hu, Runs.exec_cons_eq_some.2 ⟨v, hv, Runs.exec_nil ..⟩⟩
  · obtain ⟨x, hx, hv'⟩ := Runs.exec_append_eq_some.1 hv'
    obtain rfl := Option.some.inj (hs'.symm.trans hx)
    obtain ⟨y, hy, hv'⟩ := Runs.exec_cons_eq_some.1 hv'
    obtain rfl := Option.some.inj hv'
    obtain ⟨b, -, rfl⟩ := Option.map_eq_some_iff.1 hv
    obtain ⟨b', -, rfl⟩ := Option.map_eq_some_iff.1 hy
    simp only [ClientState.othersVerdicts, filter_cons, hcall, ne_eq, not_false_eq_true,
      decide_true, if_true, cons.injEq, Prod.mk.injEq] at heq
    exact hgate heq.1.2

end Probe

/-- What the others' next calls tell about two states. -/
def Distinguished (t : ℕ) (s s' : ClientState) : Prop :=
  ∃ cs v, (∀ c ∈ cs, isOf t c = false) ∧ Runs.exec clientStep s cs = some v ∧
    ∀ v', Runs.exec clientStep s' cs = some v' → v.othersVerdicts t ≠ v'.othersVerdicts t

section Noticed

variable {t : ℕ} {s s' u : ClientState} {own : LlmCall}

/-- The tenant's call is admitted as the trial: the next call of another tenant is kept out. -/
theorem Matches.noticed_trial (h : Matches t s s') (hopen : (s.circuit own).status ≠ .closed)
    (hadmitted : ((s.circuit own).beforeCall s.breaker.clock).1 = false)
    (hstep : clientStep s (.complete own) = some u) : Distinguished t u s' := by
  obtain ⟨probe, hcall, hp, hnew⟩ := exists_probe t own.provider.provider
    (u.breaker.outstanding.map (·.call))
  have hprovider : probe.provider.provider = own.provider.provider := by rw [hp]; rfl
  have hlegit : (s.circuit own).Legit := h.legit own.provider.provider
  have hstate : u.circuit probe = ((s.circuit own).beforeCall s.breaker.clock).2 := by
    rw [ClientState.circuit, hprovider]
    by_cases hown : own ∈ s.breaker.outstanding.map (·.call)
    · simp [clientStep, breakerStep, hown] at hstep
    · simp only [clientStep, breakerStep_beforeCall _ hown, Option.map_some] at hstep
      cases hstep
      exact BreakerState.setState_self ..
  have hgate : ((u.circuit probe).beforeCall u.breaker.clock).1 = true := by
    rw [hstate]
    cases hstatus : (s.circuit own).status with
    | closed => exact absurd hstatus hopen
    | open_ =>
      have hcool : (s.circuit own).cooledDown s.breaker.clock = true := by
        by_contra hno
        simp [beforeCall, hstatus, hno] at hadmitted
      simp [beforeCall, hstatus, hcool]
    | halfOpen =>
      rw [hlegit.shortCircuits (hlegit.trial.2 hstatus)] at hadmitted
      cases hadmitted
  have hgate' : ((s'.circuit probe).beforeCall s'.breaker.clock).1 = false := by
    rw [ClientState.circuit, hprovider, ← h.clock, ← ((h.same _).beforeCall _).1]
    exact hadmitted
  refine verdicts_differ hcall [] (by simp) rfl rfl hnew ?_
  rw [hgate, hgate']
  decide

/-- The tenant's failure is counted while a trial of another tenant is in flight: the breaker
reopens, and a cooldown later lets a call through. -/
theorem Matches.noticed_reopened (h : Matches t s s') (hhalf : (s.circuit own).status = .halfOpen)
    (hclock : u.breaker.clock = s.breaker.clock)
    (hstate : u.breaker.states own.provider.provider =
      (s.circuit own).recordFailure s.breaker.clock true) : Distinguished t u s' := by
  obtain ⟨probe, hcall, hp, hnew⟩ := exists_probe t own.provider.provider
    (u.breaker.outstanding.map (·.call))
  have hprovider : probe.provider.provider = own.provider.provider := by rw [hp]; rfl
  have hlegit : (s.circuit own).Legit := h.legit own.provider.provider
  rw [recordFailure_of_halfOpen hhalf, ← hprovider] at hstate
  have hgate : ((u.circuit probe).beforeCall (u.breaker.clock + 30000)).1 = false := by
    have hcool : (u.circuit probe).cooledDown (u.breaker.clock + 30000) = true := by
      simp only [ClientState.circuit, hstate, hclock, cooledDown, cooldownMs, decide_eq_true_eq]
      omega
    have hopen : (u.circuit probe).status = .open_ := by rw [ClientState.circuit, hstate]
    simp [beforeCall, hopen, hcool]
  have hgate' : ((s'.circuit probe).beforeCall (s'.breaker.clock + 30000)).1 = true := by
    have hsame := h.same own.provider.provider
    have hflag : (s'.circuit probe).trialInFlight = true := by
      rw [ClientState.circuit, hprovider, ← hsame.trialInFlight]
      exact hlegit.trial.2 hhalf
    have hhalf' : (s'.circuit probe).status = .halfOpen := by
      rw [ClientState.circuit, hprovider, ← hsame.status]
      exact hhalf
    simp [beforeCall, hhalf', hflag]
  refine verdicts_differ hcall [.tick 30000] (by simp [isOf, ClientEvent.tenant]) rfl rfl
    hnew ?_
  exact fun heq => Bool.false_ne_true (hgate.symm.trans (heq.trans hgate'))

/-- The tenant's failure is counted while the breaker is closed: with as many more as it takes, the
breaker opens one call early. -/
theorem Matches.noticed_counted (h : Matches t s s') (hclosed : (s.circuit own).status = .closed)
    (hclock : u.breaker.clock = s.breaker.clock)
    (hstate : u.breaker.states own.provider.provider =
      (s.circuit own).recordFailure s.breaker.clock true) : Distinguished t u s' := by
  obtain ⟨probe, hcall, hp, hnew⟩ := exists_probe t own.provider.provider
    (u.breaker.outstanding.map (·.call) ++ s'.breaker.outstanding.map (·.call))
  rw [mem_append, not_or] at hnew
  have hprovider : probe.provider.provider = own.provider.provider := by rw [hp]; rfl
  have hlegit : (s.circuit own).Legit := h.legit own.provider.provider
  have hsame : (s.circuit own).Same (s'.circuit probe) := by
    rw [ClientState.circuit, ClientState.circuit, hprovider]
    exact h.same _
  have hfew := hlegit.failures hclosed
  set n := (s.circuit own).consecutiveFailures with hn
  rw [recordFailure_of_closed hclosed, ← hn, ← hprovider] at hstate
  -- without the tenant, that many failures leave the breaker closed
  obtain ⟨w', hw', -, -, hstill, -⟩ := exec_failures hp (k := failureThreshold - 1 - n) hnew.2
    (hsame.status ▸ hclosed) (by rw [← hsame.failures hclosed]; omega)
  have hclosed' : (w'.circuit probe).status = .closed :=
    hstill (by rw [← hsame.failures hclosed]; omega)
  obtain ⟨w, hw, hwout, hopens⟩ : ∃ w,
      Runs.exec clientStep u (failures probe (failureThreshold - 1 - n)) = some w ∧
      w.breaker.outstanding = u.breaker.outstanding ∧
      JustOpened w.breaker.clock (w.circuit probe) := by
    by_cases hfull : failureThreshold ≤ n + 1
    · rw [if_pos hfull] at hstate
      have hzero : failureThreshold - 1 - n = 0 := by omega
      refine ⟨u, by rw [hzero]; rfl, rfl, ?_⟩
      rw [ClientState.circuit, hstate, hclock]
      exact ⟨rfl, rfl⟩
    · rw [if_neg hfull] at hstate
      have hcount : (u.circuit probe).consecutiveFailures = n + 1 := by
        rw [ClientState.circuit, hstate]
      have hclosed : (u.circuit probe).status = .closed := by
        rw [ClientState.circuit, hstate]
        exact hclosed
      obtain ⟨w, hw, hwclock, hwout, -, hopens⟩ :=
        exec_failures hp (k := failureThreshold - 1 - n) hnew.1 hclosed (by omega)
      exact ⟨w, hw, hwout, hwclock ▸ hopens (by omega) (by omega)⟩
  refine verdicts_differ hcall _ (isOf_failures hcall _) hw hw' (by rw [hwout]; exact hnew.1) ?_
  rw [hopens.shortCircuits]
  simp [beforeCall, hclosed']

theorem Matches.noticed (h : Matches t s s') {e : ClientEvent} (hloud : ¬ Quiet s e)
    (hstep : clientStep s e = some u) : Distinguished t u s' := by
  cases e with
  | tick d => exact absurd trivial hloud
  | complete own =>
    simp only [Quiet, not_or, Bool.not_eq_true] at hloud
    exact h.noticed_trial hloud.1 hloud.2 hstep
  | respond own reply =>
    simp only [Quiet, Classical.not_imp] at hloud
    obtain ⟨hout, hcount, hopen⟩ := hloud
    simp only [clientStep, if_pos hout, hcount, breakerStep_report hout, Option.map_some] at hstep
    cases hstep
    cases hstatus : (s.circuit own).status with
    | open_ => exact absurd hstatus hopen
    | halfOpen => exact h.noticed_reopened hstatus rfl (BreakerState.setState_self ..)
    | closed => exact h.noticed_counted hstatus rfl (BreakerState.setState_self ..)

end Noticed

/-! ## Isolation -/

/-- The relation between a run and the run without the tenant. -/
theorem unwinding (t : ℕ) : Runs.Unwinding clientStep (isOf t) (ClientState.othersVerdicts t)
    (Matches t) ClientEvent.OwnFault Quiet where
  view := fun _ _ h => h.verdicts
  byOthers := fun _ _ _ _ h he hstep => h.byOthers he hstep
  byParty := fun _ _ _ _ h he hown hquiet hstep => h.byParty he hown hquiet hstep

/-- **One tenant's misconfiguration and the others.** Let every call of tenant `t` that ends fail
because of the tenant's own configuration. Then the tenant's calls change nothing for the others, in
the run and however the others go on from any point of it, exactly when all of them are quiet; and
two runs that differ only in quiet calls of `t` short-circuit the same calls of the others. -/
theorem isolation_iff (t : ℕ) :
    (∀ as s, Runs.exec clientStep .init as = some s →
      (∀ e ∈ as, isOf t e = true → e.OwnFault) →
      (Runs.Unnoticed clientStep (isOf t) (ClientState.othersVerdicts t) .init .init as ↔
        Runs.Meets clientStep (fun s e => isOf t e = true → Quiet s e) .init as)) ∧
    ∀ as bs s s', Runs.others (isOf t) as = Runs.others (isOf t) bs →
      (∀ e ∈ as, isOf t e = true → e.OwnFault) → (∀ e ∈ bs, isOf t e = true → e.OwnFault) →
      Runs.Meets clientStep (fun s e => isOf t e = true → Quiet s e) .init as →
      Runs.Meets clientStep (fun s e => isOf t e = true → Quiet s e) .init bs →
      Runs.exec clientStep .init as = some s → Runs.exec clientStep .init bs = some s' →
      s.othersVerdicts t = s'.othersVerdicts t := by
  refine ⟨fun as s hs hown => ?_, fun as bs s s' hsame has hbs hquiet hquiet' hs hs' => ?_⟩
  · exact (unwinding t).unnoticed_iff (fun s s' e u h _ _ hloud hstep => h.noticed hloud hstep)
      (matches_init t) hown hs
  · exact (unwinding t).view_eq (matches_init t) hsame has hbs hquiet hquiet' hs hs'

/-- A call of tenant 2 to OpenAI, which succeeds. -/
def goodCall : List ClientEvent :=
  [.complete ⟨2, 0, probeProvider .openai⟩,
    .respond ⟨2, 0, probeProvider .openai⟩ (.content (some "text"))]

/-- A call of tenant 1 to OpenAI with a revoked key. -/
def revokedKeyCall : List ClientEvent :=
  [.complete ⟨1, 0, probeProvider .openai⟩,
    .respond ⟨1, 0, probeProvider .openai⟩ (.throws (.api (some 401)))]

theorem revokedKeyCall_ownFault :
    ∀ e ∈ revokedKeyCall ++ goodCall, isOf 1 e = true → e.OwnFault := by
  intro e he
  simp only [revokedKeyCall, goodCall, cons_append, nil_append, mem_cons,
    not_mem_nil, or_false] at he
  rcases he with rfl | rfl | rfl | rfl
  · exact fun _ => trivial
  · exact fun _ => .rejected (rfl : extractStatus (.api (some 401)) = some 401) (by decide)
  · exact fun _ => trivial
  · exact fun h => by cases h

/-- A revoked key is not noticed. -/
theorem revokedKeyCall_unnoticed :
    Runs.Unnoticed clientStep (isOf 1) (ClientState.othersVerdicts 1) .init .init
        (revokedKeyCall ++ goodCall) ∧
      ∃ s s', Runs.exec clientStep .init (revokedKeyCall ++ goodCall) = some s ∧
        Runs.exec clientStep .init goodCall = some s' ∧
        s.othersVerdicts 1 = s'.othersVerdicts 1 := by
  obtain ⟨s, hs, -⟩ : ∃ s, Runs.exec clientStep .init (revokedKeyCall ++ goodCall) = some s ∧
      s.verdicts.length = 2 := Runs.exists_exec (by decide)
  obtain ⟨s', hs', -⟩ : ∃ s, Runs.exec clientStep .init goodCall = some s ∧
      s.verdicts.length = 1 := Runs.exists_exec (by decide)
  have hgood : ∀ e ∈ goodCall, isOf 1 e = true → e.OwnFault := by
    intro e he hmine
    exact revokedKeyCall_ownFault e (mem_append_right _ he) hmine
  refine ⟨((isolation_iff 1).1 _ s hs revokedKeyCall_ownFault).2 (by decide), s, s', hs, hs', ?_⟩
  exact (isolation_iff 1).2 _ _ s s' (by decide) revokedKeyCall_ownFault hgood (by decide)
    (by decide) hs hs'

/-- Tenant 1's own Ollama server is down: five calls in a row fail. -/
def serverDownCalls : List ClientEvent := failures ⟨1, 0, probeProvider .ollama⟩ 5

/-- Tenant 2 calls its own Ollama server. -/
def ownServerCall : List ClientEvent := [.complete ⟨2, 0, probeProvider .ollama⟩]

/-- Tenant 1's server opens the breaker for tenant 2, whose call is short-circuited; without
tenant 1 it is admitted. -/
theorem serverDownCalls_noticed :
    Runs.others (isOf 1) (serverDownCalls ++ ownServerCall) = Runs.others (isOf 1) ownServerCall ∧
      (∀ e ∈ serverDownCalls ++ ownServerCall, isOf 1 e = true → e.OwnFault) ∧
      ∃ s s', Runs.exec clientStep .init (serverDownCalls ++ ownServerCall) = some s ∧
        Runs.exec clientStep .init ownServerCall = some s' ∧
        s.othersVerdicts 1 = [(⟨2, 0, probeProvider .ollama⟩, true)] ∧
        s'.othersVerdicts 1 = [(⟨2, 0, probeProvider .ollama⟩, false)] := by
  refine ⟨by decide, fun e he hmine => ?_, ?_⟩
  · cases e with
    | tick d => trivial
    | complete call => trivial
    | respond call reply =>
      have hresponse : call = ⟨1, 0, probeProvider .ollama⟩ ∧ reply = networkError := by
        simpa [serverDownCalls, ownServerCall, failures] using he
      obtain ⟨rfl, rfl⟩ := hresponse
      exact .unreachable rfl
  · obtain ⟨s, hs, hv⟩ : ∃ s,
        Runs.exec clientStep .init (serverDownCalls ++ ownServerCall) = some s ∧
          s.othersVerdicts 1 = [(⟨2, 0, probeProvider .ollama⟩, true)] :=
      Runs.exists_exec (by decide)
    obtain ⟨s', hs', hv'⟩ : ∃ s, Runs.exec clientStep .init ownServerCall = some s ∧
        s.othersVerdicts 1 = [(⟨2, 0, probeProvider .ollama⟩, false)] :=
      Runs.exists_exec (by decide)
    exact ⟨s, s', hs, hs', hv, hv'⟩

end Workforce.Ai
