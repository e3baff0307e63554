import Workforce.Foundations.Runs

/-!
# The circuit breaker of the LLM providers

`llm-circuit-breaker.service.ts`: for each provider, a breaker that is closed, open or half open.
Five countable failures in a row open it; after a cooldown one trial call is let through, and its
outcome closes or reopens the breaker. Calls overlap: each asks the breaker (`beforeCall`) and, when
it is admitted, reports its outcome later, in any order with the others.

* `ProviderCircuitState.Legit`: what holds of every breaker, whatever is reported.
* `unwedged_iff`: exactly when a breaker never wedges. A trial that ends in a failure that is not
  countable leaves `trialInFlight` set, with nobody left to clear it.
* `wedged_short_circuits`: what a breaker that has wedged does from then on.
-/

namespace Workforce.Ai

/-! ## The breaker of one provider -/

inductive AiLlmProvider
  | anthropic
  | openai
  | gemini
  | ollama
  deriving DecidableEq

inductive CircuitStatus
  | closed
  | open_
  | halfOpen
  deriving DecidableEq

structure ProviderCircuitState where
  status : CircuitStatus
  consecutiveFailures : ℕ
  openedAt : Option ℤ
  trialInFlight : Bool

/-- `FAILURE_THRESHOLD`. -/
def failureThreshold : ℕ := 5

/-- `COOLDOWN_MS`. -/
def cooldownMs : ℤ := 30000

/-- The outcome that a call reports. -/
inductive Outcome
  | success
  | failure (countable : Bool)
  deriving DecidableEq

namespace ProviderCircuitState

/-- The state that `stateFor` creates. -/
def initial : ProviderCircuitState := ⟨.closed, 0, none, false⟩

/-- The cooldown has elapsed. -/
def cooledDown (now : ℤ) (s : ProviderCircuitState) : Bool :=
  match s.openedAt with
  | none => false
  | some openedAt => cooldownMs ≤ now - openedAt

/-- `beforeCall`: whether the call is short-circuited, and the state after it. -/
def beforeCall (now : ℤ) (s : ProviderCircuitState) : Bool × ProviderCircuitState :=
  match s.status with
  | .closed => (false, s)
  | .open_ =>
    if s.cooledDown now then (false, { s with status := .halfOpen, trialInFlight := true })
    else (true, s)
  | .halfOpen => if s.trialInFlight then (true, s) else (false, { s with trialInFlight := true })

def recordSuccess (s : ProviderCircuitState) : ProviderCircuitState :=
  { s with status := .closed, consecutiveFailures := 0, openedAt := none, trialInFlight := false }

def recordFailure (now : ℤ) (countable : Bool) (s : ProviderCircuitState) : ProviderCircuitState :=
  if !countable then s
  else
    let s := { s with consecutiveFailures := s.consecutiveFailures + 1 }
    match s.status with
    | .halfOpen => { s with status := .open_, openedAt := some now, trialInFlight := false }
    | .closed =>
      if failureThreshold ≤ s.consecutiveFailures then
        { s with status := .open_, openedAt := some now }
      else s
    | .open_ => s

/-- The outcome of a call is recorded. -/
def record (now : ℤ) : Outcome → ProviderCircuitState → ProviderCircuitState
  | .success => recordSuccess
  | .failure countable => recordFailure now countable

end ProviderCircuitState

/-! ## Overlapping calls -/

/-- An admitted call that has not reported yet. -/
structure Outstanding (ι : Type*) where
  call : ι
  provider : AiLlmProvider
  deriving DecidableEq

/-- The state of every provider, and the calls that are out. -/
structure BreakerState (ι : Type*) where
  clock : ℤ
  states : AiLlmProvider → ProviderCircuitState
  outstanding : List (Outstanding ι)

variable {ι : Type*} [DecidableEq ι]

namespace BreakerState

omit [DecidableEq ι]

/-- No call has been made. -/
def init : BreakerState ι := ⟨0, fun _ => .initial, []⟩

variable (s : BreakerState ι)

/-- The breaker of one provider changes. -/
def setState (p : AiLlmProvider) (c : ProviderCircuitState) : BreakerState ι :=
  { s with states := Function.update s.states p c }

@[simp] theorem setState_self (p : AiLlmProvider) (c : ProviderCircuitState) :
    (s.setState p c).states p = c :=
  Function.update_self ..

theorem setState_of_ne {p q : AiLlmProvider} (h : q ≠ p) (c : ProviderCircuitState) :
    (s.setState p c).states q = s.states q :=
  Function.update_of_ne h ..

@[simp] theorem setState_states (p : AiLlmProvider) : s.setState p (s.states p) = s := by
  simp [setState]

end BreakerState

inductive BreakerAction (ι : Type*)
  | tick (d : ℕ)
  | beforeCall (call : ι) (provider : AiLlmProvider)
  | report (call : ι) (provider : AiLlmProvider) (outcome : Outcome)

/-- One step. A call reports once, and only when it was admitted. -/
def breakerStep (s : BreakerState ι) : BreakerAction ι → Option (BreakerState ι)
  | .tick d => some { s with clock := s.clock + d }
  | .beforeCall call p =>
    if call ∈ s.outstanding.map (·.call) then none
    else
      match (s.states p).beforeCall s.clock with
      | (true, c) => some (s.setState p c)
      | (false, c) => some { s.setState p c with outstanding := ⟨call, p⟩ :: s.outstanding }
  | .report call p outcome =>
    if ⟨call, p⟩ ∈ s.outstanding then
      some { s.setState p ((s.states p).record s.clock outcome) with
        outstanding := s.outstanding.erase ⟨call, p⟩ }
    else none

theorem breakerStep_beforeCall {s : BreakerState ι} {call : ι} (p : AiLlmProvider)
    (h : call ∉ s.outstanding.map (·.call)) :
    breakerStep s (.beforeCall call p) = some
      { s.setState p ((s.states p).beforeCall s.clock).2 with
        outstanding := if ((s.states p).beforeCall s.clock).1 then s.outstanding
          else ⟨call, p⟩ :: s.outstanding } := by
  simp only [breakerStep, if_neg h]
  split
  · rename_i c hgate
    simp [hgate, BreakerState.setState]
  · rename_i c hgate
    simp [hgate]

theorem breakerStep_report {s : BreakerState ι} {call : ι} {p : AiLlmProvider}
    (h : ⟨call, p⟩ ∈ s.outstanding) (outcome : Outcome) :
    breakerStep s (.report call p outcome) = some
      { s.setState p ((s.states p).record s.clock outcome) with
        outstanding := s.outstanding.erase ⟨call, p⟩ } := by
  simp only [breakerStep, if_pos h]

/-! ## Every breaker, whatever is reported -/

namespace ProviderCircuitState

variable {s : ProviderCircuitState} {now : ℤ}

/-- A breaker is half open exactly while a trial is in flight, has an opening time exactly when it
is not closed, and opens with the fifth failure. -/
structure Legit (s : ProviderCircuitState) : Prop where
  trial : s.trialInFlight = true ↔ s.status = .halfOpen
  opened : s.openedAt = none ↔ s.status = .closed
  failures : s.status = .closed → s.consecutiveFailures < failureThreshold

/-- A countable failure while the breaker is closed: the fifth in a row opens it. -/
theorem recordFailure_of_closed (h : s.status = .closed) :
    s.recordFailure now true =
      if failureThreshold ≤ s.consecutiveFailures + 1 then
        { s with consecutiveFailures := s.consecutiveFailures + 1, status := .open_,
                 openedAt := some now }
      else { s with consecutiveFailures := s.consecutiveFailures + 1 } := by
  simp [recordFailure, h]

/-- A countable failure of a call that was admitted before the breaker opened. -/
theorem recordFailure_of_open (h : s.status = .open_) :
    s.recordFailure now true = { s with consecutiveFailures := s.consecutiveFailures + 1 } := by
  simp [recordFailure, h]

/-- A countable failure while a trial is in flight reopens the breaker. -/
theorem recordFailure_of_halfOpen (h : s.status = .halfOpen) :
    s.recordFailure now true =
      { s with consecutiveFailures := s.consecutiveFailures + 1, status := .open_,
               openedAt := some now, trialInFlight := false } := by
  simp [recordFailure, h]

theorem legit_initial : Legit initial := by
  constructor <;> simp [initial, failureThreshold]

theorem Legit.beforeCall (h : s.Legit) (now : ℤ) : (s.beforeCall now).2.Legit := by
  unfold ProviderCircuitState.beforeCall
  split
  · exact h
  · rename_i hopen
    split
    · refine ⟨by simp, ?_, by simp⟩
      have hopened := h.opened
      simpa [hopen] using hopened
    · exact h
  · rename_i hhalf
    split
    · exact h
    · exact absurd (h.trial.2 hhalf) ‹_›

theorem legit_recordSuccess : s.recordSuccess.Legit := by
  constructor <;> simp [recordSuccess, failureThreshold]

theorem Legit.recordFailure (h : s.Legit) (now : ℤ) (countable : Bool) :
    (s.recordFailure now countable).Legit := by
  have htrial := h.trial
  have hopened := h.opened
  cases countable with
  | false => exact h
  | true =>
    cases hstatus : s.status with
    | closed =>
      have hflag : s.trialInFlight = false := by simpa [hstatus] using htrial
      have hnone : s.openedAt = none := hopened.2 hstatus
      rw [recordFailure_of_closed hstatus]
      split
      · constructor <;> simp [hflag]
      · rename_i hfew
        exact ⟨by simp [hflag, hstatus], by simp [hnone, hstatus], fun _ => not_le.1 hfew⟩
    | open_ =>
      have hflag : s.trialInFlight = false := by simpa [hstatus] using htrial
      have hsome : s.openedAt ≠ none := fun hnone => by simp [hopened.1 hnone] at hstatus
      rw [recordFailure_of_open hstatus]
      constructor <;> simp [hstatus, hflag, hsome]
    | halfOpen =>
      rw [recordFailure_of_halfOpen hstatus]
      constructor <;> simp

theorem Legit.record (h : s.Legit) (now : ℤ) (outcome : Outcome) :
    (s.record now outcome).Legit := by
  cases outcome with
  | success => exact legit_recordSuccess (s := s)
  | failure countable => exact h.recordFailure now countable

/-- A breaker without a trial in flight admits the next call once the cooldown is over. -/
theorem Legit.admits (h : s.Legit) (htrial : s.trialInFlight = false)
    (hcool : ∀ openedAt ∈ s.openedAt, openedAt + cooldownMs ≤ now) :
    (s.beforeCall now).1 = false := by
  cases hstatus : s.status with
  | closed => simp [ProviderCircuitState.beforeCall, hstatus]
  | open_ =>
    cases hopened : s.openedAt with
    | none => rw [h.opened.1 hopened] at hstatus; cases hstatus
    | some openedAt =>
      have hle := hcool openedAt hopened
      have hcooled : s.cooledDown now = true := by
        simp only [cooledDown, hopened, decide_eq_true_eq]
        omega
      simp [ProviderCircuitState.beforeCall, hstatus, hcooled]
  | halfOpen => simp [h.trial.2 hstatus] at htrial

/-- While a trial is in flight, every call is short-circuited. -/
theorem Legit.shortCircuits (h : s.Legit) (htrial : s.trialInFlight = true) (now : ℤ) :
    s.beforeCall now = (true, s) := by
  simp [ProviderCircuitState.beforeCall, h.trial.1 htrial, htrial]

/-- Any outcome but a failure that is not countable clears the flag. -/
theorem Legit.record_trialInFlight (h : s.Legit) {outcome : Outcome}
    (hcounts : outcome ≠ .failure false) : (s.record now outcome).trialInFlight = false := by
  cases outcome with
  | success => rfl
  | failure countable =>
    cases countable with
    | false => exact absurd rfl hcounts
    | true =>
      have htrial := h.trial
      show (s.recordFailure now true).trialInFlight = false
      cases hstatus : s.status with
      | closed =>
        have hflag : s.trialInFlight = false := by simpa [hstatus] using htrial
        rw [recordFailure_of_closed hstatus]
        split <;> exact hflag
      | open_ =>
        have hflag : s.trialInFlight = false := by simpa [hstatus] using htrial
        rw [recordFailure_of_open hstatus]
        exact hflag
      | halfOpen => rw [recordFailure_of_halfOpen hstatus]

theorem beforeCall_of_shortCircuited (h : (s.beforeCall now).1 = true) :
    s.beforeCall now = (true, s) := by
  unfold ProviderCircuitState.beforeCall at h ⊢
  split at h
  · cases h
  · split at h
    · cases h
    · rename_i hopen hcool
      simp [hcool]
  · split at h
    · rename_i hhalf hflag
      simp [hflag]
    · cases h

end ProviderCircuitState

/-! ## Wedging -/

namespace BreakerState

/-- A trial is in flight only while some admitted call of the provider has not reported; and once
none is outstanding and the cooldown has passed since the circuit opened, the next call is
admitted. -/
structure Unwedged (s : BreakerState ι) : Prop where
  trial : ∀ p, (s.states p).trialInFlight = true → ∃ o ∈ s.outstanding, o.provider = p
  admits : ∀ p, (∀ o ∈ s.outstanding, o.provider ≠ p) →
    (∀ openedAt ∈ (s.states p).openedAt, openedAt + cooldownMs ≤ s.clock) →
    ((s.states p).beforeCall s.clock).1 = false

/-- The last outstanding call of a provider does not report a failure that is not countable while a
trial is in flight. -/
def KeepsTrial (s : BreakerState ι) : BreakerAction ι → Prop
  | .report call p (.failure false) =>
    (s.states p).trialInFlight = true → ∃ o ∈ s.outstanding.erase ⟨call, p⟩, o.provider = p
  | _ => True

instance (s : BreakerState ι) : DecidablePred s.KeepsTrial := fun a => by
  unfold KeepsTrial
  split <;> infer_instance

/-- The invariant of the runs that do not wedge. -/
structure Inv (s : BreakerState ι) : Prop where
  legit : ∀ p, (s.states p).Legit
  trial : ∀ p, (s.states p).trialInFlight = true → ∃ o ∈ s.outstanding, o.provider = p

omit [DecidableEq ι] in
theorem inv_init : (init : BreakerState ι).Inv where
  legit := fun _ => ProviderCircuitState.legit_initial
  trial := fun _ h => by cases h

omit [DecidableEq ι] in
theorem Inv.unwedged {s : BreakerState ι} (hs : s.Inv) : s.Unwedged where
  trial := hs.trial
  admits := fun p hnone hcool => by
    refine (hs.legit p).admits ?_ hcool
    by_contra hflag
    obtain ⟨o, ho, hp⟩ := hs.trial p (by simpa using hflag)
    exact hnone o ho hp

omit [DecidableEq ι] in
/-- The breaker of one provider changes, and with it the calls that are outstanding. -/
theorem Inv.setState {s : BreakerState ι} (hs : s.Inv) {p : AiLlmProvider}
    {c : ProviderCircuitState} {outstanding : List (Outstanding ι)} (hc : c.Legit)
    (htrial : c.trialInFlight = true → ∃ o ∈ outstanding, o.provider = p)
    (hothers : ∀ o ∈ s.outstanding, o.provider ≠ p → o ∈ outstanding) :
    { s.setState p c with outstanding := outstanding }.Inv where
  legit := fun q => by
    by_cases hq : q = p
    · subst hq
      simpa [BreakerState.setState] using hc
    · simpa [BreakerState.setState, hq] using hs.legit q
  trial := fun q hflag => by
    by_cases hq : q = p
    · subst hq
      exact htrial (by simpa [BreakerState.setState] using hflag)
    · obtain ⟨o, ho, hoq⟩ := hs.trial q (by simpa [BreakerState.setState, hq] using hflag)
      exact ⟨o, hothers o ho (hoq ▸ hq), hoq⟩

end BreakerState

open BreakerState

variable {s t : BreakerState ι}

theorem inv_breakerStep {a : BreakerAction ι} (hs : s.Inv) (hok : s.KeepsTrial a)
    (h : breakerStep s a = some t) : t.Inv := by
  cases a with
  | tick d =>
    cases h
    exact ⟨hs.legit, hs.trial⟩
  | beforeCall call p =>
    simp only [breakerStep] at h
    have hlegit := (hs.legit p).beforeCall s.clock
    split at h
    · cases h
    · split at h
      · rename_i c hgate
        cases h
        have hsame := ProviderCircuitState.beforeCall_of_shortCircuited (congrArg Prod.fst hgate)
        obtain rfl : s.states p = c := congrArg Prod.snd (hsame.symm.trans hgate)
        exact hs.setState (hs.legit p) (hs.trial p) fun o ho _ => ho
      · rename_i c hgate
        cases h
        rw [hgate] at hlegit
        exact hs.setState hlegit (fun _ => ⟨⟨call, p⟩, List.mem_cons_self, rfl⟩)
          fun o ho _ => List.mem_cons_of_mem _ ho
  | report call p outcome =>
    simp only [breakerStep] at h
    split at h
    · cases h
      refine hs.setState ((hs.legit p).record s.clock outcome) (fun hflag => ?_) fun o ho hne => ?_
      · by_cases hcounts : outcome = .failure false
        · subst hcounts
          exact hok hflag
        · rw [(hs.legit p).record_trialInFlight hcounts] at hflag
          cases hflag
      · have hother : o ≠ ⟨call, p⟩ := by
          rintro rfl
          exact hne rfl
        exact (List.mem_erase_of_ne hother).2 ho
    · cases h

/-- The report of a failure that is not countable by the last outstanding call wedges the
breaker. -/
theorem wedges {a : BreakerAction ι} (hok : ¬ s.KeepsTrial a) (h : breakerStep s a = some t) :
    ¬ t.Unwedged := by
  unfold KeepsTrial at hok
  split at hok
  · rename_i call p
    rw [Classical.not_imp] at hok
    obtain ⟨hflag, hlast⟩ := hok
    simp only [breakerStep] at h
    split at h
    · cases h
      intro ht
      exact hlast (ht.trial p (by simpa [ProviderCircuitState.record,
        ProviderCircuitState.recordFailure] using hflag))
    · cases h
  · exact absurd trivial hok

/-- **When the breaker never wedges**: in every state of a run a trial in flight has an outstanding
call, and a breaker with none admits the next call after the cooldown, exactly when no failure that
is not countable is reported by a provider's last outstanding call while a trial is in flight. -/
theorem unwedged_iff {as : List (BreakerAction ι)} (h : Runs.exec breakerStep init as = some s) :
    Runs.Always breakerStep Unwedged init as ↔ Runs.Meets breakerStep KeepsTrial init as :=
  Runs.always_iff_meets (fun _ => Inv.unwedged) (fun _ _ _ => inv_breakerStep)
    (fun _ _ _ _ => wedges) inv_init h

/-- Calls to one provider that fail one after the other. -/
def failingCalls (p : AiLlmProvider) (calls : List ℕ) : List (BreakerAction ℕ) :=
  calls.flatMap fun call => [.beforeCall call p, .report call p (.failure true)]

/-- The breaker opens; after the cooldown the trial succeeds. -/
def recovery : List (BreakerAction ℕ) :=
  failingCalls .openai [0, 1, 2, 3, 4] ++
    [.beforeCall 5 .openai, .tick 30000, .beforeCall 6 .openai, .report 6 .openai .success]

theorem recovery_unwedged : Runs.Always breakerStep Unwedged init recovery := by
  obtain ⟨s, hs, -⟩ : ∃ s, Runs.exec breakerStep init recovery = some s ∧ s.outstanding = [] :=
    Runs.exists_exec (by decide)
  exact (unwedged_iff hs).2 (by decide)

/-- The breaker opens; after the cooldown the trial fails with a `401`. -/
def badKeyTrial : List (BreakerAction ℕ) :=
  failingCalls .openai [0, 1, 2, 3, 4] ++
    [.tick 30000, .beforeCall 5 .openai, .report 5 .openai (.failure false), .tick 3600000]

/-- An hour later no call is outstanding, the flag is still set and the next call is
short-circuited. -/
theorem badKeyTrial_wedged : ∃ s, Runs.exec breakerStep init badKeyTrial = some s ∧
    s.outstanding = [] ∧ (s.states .openai).openedAt = some 0 ∧ s.clock = 3630000 ∧
    ((s.states .openai).beforeCall s.clock).1 = true ∧ ¬ s.Unwedged := by
  obtain ⟨s, hs, hflag, hrest⟩ : ∃ s, Runs.exec breakerStep init badKeyTrial = some s ∧
      (s.states .openai).trialInFlight = true ∧ s.outstanding = [] ∧
      (s.states .openai).openedAt = some 0 ∧ s.clock = 3630000 ∧
      ((s.states .openai).beforeCall s.clock).1 = true :=
    Runs.exists_exec (by decide)
  refine ⟨s, hs, hrest.1, hrest.2.1, hrest.2.2.1, hrest.2.2.2, fun h => ?_⟩
  obtain ⟨o, ho, -⟩ := h.trial .openai hflag
  rw [hrest.1] at ho
  cases ho

/-- A wedged breaker stays wedged: every later call to the provider is short-circuited. -/
theorem wedged_forever {p : AiLlmProvider} {as : List (BreakerAction ι)}
    (hlegit : (s.states p).Legit) (hflag : (s.states p).trialInFlight = true)
    (hnone : ∀ o ∈ s.outstanding, o.provider ≠ p)
    (h : Runs.exec breakerStep s as = some t) :
    t.states p = s.states p ∧ ∀ o ∈ t.outstanding, o.provider ≠ p := by
  refine Runs.exec_keeps
    (fun u => u.states p = s.states p ∧ ∀ o ∈ u.outstanding, o.provider ≠ p) ?_ ⟨rfl, hnone⟩ h
  rintro u a v ⟨hstate, hnone⟩ hstep
  cases a with
  | tick d =>
    cases hstep
    exact ⟨hstate, hnone⟩
  | beforeCall call q =>
    simp only [breakerStep] at hstep
    split at hstep
    · cases hstep
    · by_cases hq : q = p
      · subst hq
        rw [hstate, hlegit.shortCircuits hflag] at hstep
        cases hstep
        exact ⟨setState_self .., hnone⟩
      · have hkeep := setState_of_ne u (Ne.symm hq)
        split at hstep
        · cases hstep
          exact ⟨(hkeep _).trans hstate, hnone⟩
        · cases hstep
          exact ⟨(hkeep _).trans hstate, List.forall_mem_cons.2 ⟨hq, hnone⟩⟩
  | report call q outcome =>
    simp only [breakerStep] at hstep
    split at hstep
    · rename_i hmem
      have hq : q ≠ p := hnone _ hmem
      cases hstep
      exact ⟨(setState_of_ne u hq.symm _).trans hstate,
        fun o ho => hnone o (List.mem_of_mem_erase ho)⟩
    · cases hstep

/-- Whatever is reported, every breaker of a run is legitimate. -/
theorem legit_exec {as : List (BreakerAction ι)} (h : Runs.exec breakerStep init as = some s) :
    ∀ p, (s.states p).Legit := by
  refine Runs.exec_keeps (fun u => ∀ p, (u.states p).Legit) ?_
    (fun _ => ProviderCircuitState.legit_initial) h
  have hset : ∀ (u : BreakerState ι) p c, (∀ q, (u.states q).Legit) → c.Legit →
      ∀ q, ((u.setState p c).states q).Legit := by
    intro u p c hlegit hc q
    by_cases hq : q = p
    · rwa [hq, setState_self]
    · rw [setState_of_ne u hq]
      exact hlegit q
  rintro u a v hlegit hstep
  cases a with
  | tick d =>
    cases hstep
    exact hlegit
  | beforeCall call p =>
    by_cases hcall : call ∈ u.outstanding.map (·.call)
    · rw [breakerStep, if_pos hcall] at hstep
      cases hstep
    · rw [breakerStep_beforeCall p hcall] at hstep
      cases hstep
      exact hset u p _ hlegit ((hlegit p).beforeCall u.clock)
  | report call p outcome =>
    simp only [breakerStep] at hstep
    split at hstep
    · cases hstep
      exact hset u p _ hlegit ((hlegit p).record u.clock outcome)
    · cases hstep

/-- **Nothing heals a wedged breaker.** When a trial is in flight in a state of a run, and no call
to the provider is outstanding, every call to it is short-circuited from then on. -/
theorem wedged_short_circuits {p : AiLlmProvider} {as bs : List (BreakerAction ι)}
    (hs : Runs.exec breakerStep init as = some s) (hflag : (s.states p).trialInFlight = true)
    (hnone : ∀ o ∈ s.outstanding, o.provider ≠ p) (ht : Runs.exec breakerStep s bs = some t)
    (now : ℤ) : ((t.states p).beforeCall now).1 = true := by
  have hlegit := legit_exec hs p
  rw [(wedged_forever hlegit hflag hnone ht).1, hlegit.shortCircuits hflag]

theorem badKeyTrial_short_circuits : ∃ s, Runs.exec breakerStep init badKeyTrial = some s ∧
    ∀ (bs : List (BreakerAction ℕ)) t now, Runs.exec breakerStep s bs = some t →
      ((t.states .openai).beforeCall now).1 = true := by
  obtain ⟨s, hs, hflag, hnone⟩ : ∃ s, Runs.exec breakerStep init badKeyTrial = some s ∧
      (s.states .openai).trialInFlight = true ∧ s.outstanding = [] := Runs.exists_exec (by decide)
  refine ⟨s, hs, fun bs t now ht => wedged_short_circuits hs hflag ?_ ht now⟩
  simp [hnone]

end Workforce.Ai
