import Workforce.Webhook.Deliveries

/-!
# The fan-out of events to webhooks

`webhook-fanout.service.ts`, called from `core-outbox-publisher.service.ts`: after an event has been
published and its row marked, the publisher reads the active subscriptions of the tenant and
enqueues a delivery for each that subscribes to the subject. The fan-out swallows its errors. An
event that goes to the dead letters is marked as well, but is not fanned out.

The system here is the outbox with the fan-out in the place of the step that stands for it there:
every run of it is a run of the outbox (`exec_outbox`).

* `served_of_undisturbed`: an event of which no fan-out was cut short has reached the subscriptions
  that were there throughout.
* `abandoned_forever`: a published event that no publisher holds gets no further delivery.
-/

namespace Workforce.Eventing

open Tables List Function

variable {Payload : Type*}

/-! ## The steps of the outbox -/

/-- What a row keeps. -/
def OutboxEvent.content (e : OutboxEvent Payload) : ℕ × ℕ × String × Payload :=
  (e.id, e.tenantId, e.subject, e.payload)

def Publisher.isMarked : Publisher Payload → Bool
  | .marked _ _ => true
  | _ => false

theorem Publisher.ne_marked {p : Publisher Payload} (h : p.isMarked = false)
    (e : OutboxEvent Payload) (rest : List (OutboxEvent Payload)) : p ≠ .marked e rest := by
  rintro rfl
  cases h

/-- A step of the outbox, by what it does to the publisher that takes it. -/
inductive Acts (s : State Payload) : Action Payload → State Payload → Prop
  | insert (id tenantId : ℕ) (subject : String) (payload : Payload)
      (hid : id ∉ s.rows.map (·.id)) : Acts s (.insert id tenantId subject payload)
        { s with rows := s.rows ++ [newEvent id tenantId subject payload s.clock] }
  | tick (d : ℕ) : Acts s (.tick d) { s with clock := s.clock + d }
  | claim (i : ℕ) (locked ids : List ℕ) (hids : ids = claimedIds s.rows s.clock locked)
      (hi : s.publishers i = .idle) : Acts s (.claim i locked)
        ({ s with rows := claimRows s.rows s.clock ids }.setPublisher i
          (.draining ((claimRows s.rows s.clock ids).filter (·.id ∈ ids))))
  /-- The table stays. -/
  | move {a : Action Payload} (i : ℕ) (acked : List (Message Payload)) (p : Publisher Payload)
      (hevents : p.events ⊆ (s.publishers i).events) (hp : ∀ e rest, p ≠ .marked e rest)
      (hi : (∃ e rest, s.publishers i = .marked e rest) → a = .fanOut i ∨ a = .crash i) :
      Acts s a ({ s with acked := acked }.setPublisher i p)
  | mark (i : ℕ) (c : Commit) (e : OutboxEvent Payload) (rest : List (OutboxEvent Payload))
      (p : Publisher Payload) (hi : s.publishers i = .published e rest)
      (hevents : p.events ⊆ e :: rest) (hok : c.error = none → p = .marked e rest)
      (herror : c.error ≠ none → ∀ e rest, p ≠ .marked e rest) :
      Acts s (.mark i c) ((s.commit c (markPublished s.rows e.id s.clock)).setPublisher i p)
  | markDeadLettered (i : ℕ) (c : Commit) (e : OutboxEvent Payload)
      (rest : List (OutboxEvent Payload)) (p : Publisher Payload)
      (hi : s.publishers i = .deadLettered e rest) (hevents : p.events ⊆ e :: rest)
      (hp : ∀ e rest, p ≠ .marked e rest) : Acts s (.markDeadLettered i c)
        ((s.commit c (markPublished s.rows e.id s.clock)).setPublisher i p)
  | recordFailure (i : ℕ) (c : Commit) (e : OutboxEvent Payload)
      (rest : List (OutboxEvent Payload)) (message : String) (p : Publisher Payload)
      (hi : (s.publishers i).events = e :: rest)
      (hmarked : ∀ e rest, s.publishers i ≠ .marked e rest)
      (hevents : p.events ⊆ rest) (hp : ∀ e rest, p ≠ .marked e rest) : Acts s (.recordFailure i c)
        ((s.commit c (recordFailure s.rows e.id message)).setPublisher i p)

variable {s t : State Payload}

variable {a : Action Payload}

theorem step_acts (h : step s a = some t) : Acts s a t := by
  cases a with
  | insert id tenantId subject payload =>
    simp only [step] at h
    split at h
    · cases h
    · rename_i hid
      cases h
      exact .insert id tenantId subject payload hid
  | tick d =>
    cases h
    exact .tick d
  | claim i locked =>
    simp only [step] at h
    split at h
    · rename_i hi
      cases h
      exact .claim i locked _ rfl hi
    · cases h
  | publish i error =>
    simp only [step] at h
    split at h
    · rename_i e rest hi
      have hmarked : ¬ ∃ e rest, s.publishers i = .marked e rest := by
        rintro ⟨e', rest', h'⟩
        exact Publisher.ne_marked rfl e' rest' (hi.symm.trans h')
      cases error with
      | none =>
        cases h
        exact .move i _ (.published e rest) (by rw [hi]; exact Subset.refl _)
          (Publisher.ne_marked rfl) fun h => absurd h hmarked
      | some message =>
        cases h
        exact .move i s.acked (.caught e rest message) (by rw [hi]; exact Subset.refl _)
          (Publisher.ne_marked rfl) fun h => absurd h hmarked
    · cases h
  | mark i c =>
    simp only [step] at h
    split at h
    · rename_i e rest hi
      split at h
      · rename_i hc
        cases h
        exact .mark i c e rest _ hi (Subset.refl _) (fun _ => rfl) fun hne => absurd hc hne
      · rename_i message hc
        cases h
        exact .mark i c e rest _ hi (Subset.refl _) (fun hok => by rw [hc] at hok; cases hok)
          fun _ => Publisher.ne_marked rfl
    · cases h
  | fanOut i =>
    simp only [step] at h
    split at h
    · rename_i e rest hi
      cases h
      exact .move i s.acked (.draining rest) (by rw [hi]; exact subset_cons_self _ _)
        (Publisher.ne_marked rfl) fun _ => .inl rfl
    · cases h
  | deadLetter i error =>
    simp only [step] at h
    split at h
    · rename_i e rest message hi
      have hmarked : ¬ ∃ e rest, s.publishers i = .marked e rest := by
        rintro ⟨e', rest', h'⟩
        exact Publisher.ne_marked rfl e' rest' (hi.symm.trans h')
      split at h
      · cases error with
        | none =>
          cases h
          exact .move i _ (.deadLettered e rest) (by rw [hi]; exact Subset.refl _)
            (Publisher.ne_marked rfl) fun h => absurd h hmarked
        | some error =>
          cases h
          exact .move i s.acked (.dlqCaught e rest error) (by rw [hi]; exact Subset.refl _)
            (Publisher.ne_marked rfl) fun h => absurd h hmarked
      · cases h
    · cases h
  | markDeadLettered i c =>
    simp only [step] at h
    split at h
    · rename_i e rest hi
      split at h
      · cases h
        exact .markDeadLettered i c e rest _ hi (subset_cons_self _ _) (Publisher.ne_marked rfl)
      · cases h
        exact .markDeadLettered i c e rest _ hi (Subset.refl _) (Publisher.ne_marked rfl)
    · cases h
  | recordFailure i c =>
    have hp : ∀ rest : List (OutboxEvent Payload),
        let p : Publisher Payload := if c.error.isNone then .draining rest else .idle
        p.events ⊆ rest ∧ ∀ e rest, p ≠ .marked e rest := by
      intro rest
      cases c.error.isNone
      · exact ⟨nil_subset _, Publisher.ne_marked rfl⟩
      · exact ⟨Subset.refl _, Publisher.ne_marked rfl⟩
    simp only [step] at h
    split at h
    · rename_i e rest message hi
      split at h
      · cases h
      · cases h
        exact .recordFailure i c e rest message _ (by rw [hi]; rfl)
          (by rw [hi]; exact Publisher.ne_marked rfl) (hp rest).1 (hp rest).2
    · rename_i e rest message hi
      cases h
      exact .recordFailure i c e rest _ _ (by rw [hi]; rfl)
        (by rw [hi]; exact Publisher.ne_marked rfl) (hp rest).1 (hp rest).2
    · cases h
  | finish i =>
    simp only [step] at h
    split at h
    · rename_i hi
      have hmarked : ¬ ∃ e rest, s.publishers i = .marked e rest := by
        rintro ⟨e, rest, h'⟩
        exact Publisher.ne_marked rfl e rest (hi.symm.trans h')
      cases h
      exact .move i s.acked .idle (nil_subset _) (Publisher.ne_marked rfl) fun h => absurd h hmarked
    · cases h
  | crash i =>
    cases h
    exact .move i s.acked .idle (nil_subset _) (Publisher.ne_marked rfl) fun _ => .inr rfl

theorem map_content_commit (c : Commit) {k : ℕ}
    {f : OutboxEvent Payload → OutboxEvent Payload} (hf : ∀ e, (f e).content = e.content) :
    (s.commit c (modify (·.id) k f s.rows)).rows.map (·.content) = s.rows.map (·.content) := by
  cases c with
  | ok => exact map_modify hf s.rows
  | lost message => exact map_modify hf s.rows
  | failed message => rfl

theorem map_content_claimRows (now : ℤ) (ids : List ℕ) :
    (claimRows s.rows now ids).map (·.content) = s.rows.map (·.content) := by
  rw [claimRows, map_map]
  refine map_congr_left fun e _ => ?_
  simp only [comp_apply]
  split <;> rfl

theorem Acts.contents (h : Acts s a t) :
    s.rows.map (·.content) <+: t.rows.map (·.content) := by
  cases h with
  | insert id tenantId subject payload hid =>
    exact ⟨_, map_append.symm⟩
  | tick d => exact prefix_refl _
  | claim i locked ids hids hi =>
    exact (map_content_claimRows s.clock ids).symm ▸ prefix_refl _
  | move => exact prefix_refl _
  | mark i c e =>
    have hsame := map_content_commit (s := s) c (k := e.id)
      (f := fun e => { e with publishedAt := some s.clock }) fun _ => rfl
    exact hsame.symm ▸ prefix_refl _
  | markDeadLettered i c e =>
    have hsame := map_content_commit (s := s) c (k := e.id)
      (f := fun e => { e with publishedAt := some s.clock }) fun _ => rfl
    exact hsame.symm ▸ prefix_refl _
  | recordFailure i c e rest message =>
    have hsame := map_content_commit (s := s) c (k := e.id)
      (f := fun e => { e with attempts := e.attempts + 1, lastError := some message }) fun _ => rfl
    exact hsame.symm ▸ prefix_refl _

theorem commit_publishers (c : Commit) (rows : List (OutboxEvent Payload)) :
    (s.commit c rows).publishers = s.publishers := by
  cases c <;> rfl

theorem setPublisher_publishers (i j : ℕ) (p : Publisher Payload) :
    (s.setPublisher i p).publishers j = if j = i then p else s.publishers j := by
  by_cases hj : j = i
  · subst hj
    rw [State.setPublisher_self, if_pos rfl]
  · rw [State.setPublisher_of_ne _ hj, if_neg hj]

variable {e : OutboxEvent Payload}

/-- A publisher holds what it held, or unpublished rows that it has claimed. -/
theorem Acts.events (h : Acts s a t) (hn : (s.rows.map (·.id)).Nodup) {j : ℕ}
    (he : e ∈ (t.publishers j).events) :
    e ∈ (s.publishers j).events ∨
      ∃ row ∈ s.rows, row.content = e.content ∧ row.publishedAt = none := by
  cases h with
  | insert => exact .inl he
  | tick => exact .inl he
  | claim i locked ids hids hi =>
    rw [setPublisher_publishers] at he
    split at he
    · right
      obtain ⟨hmem, hin⟩ := mem_filter.1 he
      obtain ⟨row, hrow, rfl⟩ := mem_map.1 hmem
      have hcontent : (if row.id ∈ ids then { row with claimedAt := some s.clock }
          else row).content = row.content := by
        split <;> rfl
      have hid : row.id ∈ ids := by
        have hkey := congrArg Prod.fst hcontent
        change (if row.id ∈ ids then { row with claimedAt := some s.clock } else row).id = row.id
          at hkey
        rw [← hkey]
        simpa using hin
      refine ⟨row, hrow, hcontent.symm, ?_⟩
      rw [hids] at hid
      obtain ⟨row', hrow', hkey⟩ := mem_map.1 hid
      have hfilter := mem_mergeSort.1 (mem_of_mem_take hrow')
      rw [mem_filter, Bool.and_eq_true] at hfilter
      obtain rfl := eq_of_key_eq hn hfilter.1 hrow hkey
      exact (claimable_iff.1 hfilter.2.1).1
    · exact .inl he
  | move i acked p hevents =>
    rw [setPublisher_publishers] at he
    split at he
    · rename_i hj
      exact .inl (hj ▸ hevents he)
    · exact .inl he
  | mark i c e' rest p hi hevents =>
    rw [setPublisher_publishers, commit_publishers] at he
    split at he
    · rename_i hj
      left
      rw [hj, hi]
      exact hevents he
    · exact .inl he
  | markDeadLettered i c e' rest p hi hevents =>
    rw [setPublisher_publishers, commit_publishers] at he
    split at he
    · rename_i hj
      left
      rw [hj, hi]
      exact hevents he
    · exact .inl he
  | recordFailure i c e' rest message p hi _ hevents =>
    rw [setPublisher_publishers, commit_publishers] at he
    split at he
    · rename_i hj
      left
      rw [hj, hi]
      exact mem_cons_of_mem _ (hevents he)
    · exact .inl he

theorem Acts.marked (h : Acts s a t) {j : ℕ} {rest : List (OutboxEvent Payload)}
    (hj : t.publishers j = .marked e rest) :
    s.publishers j = .marked e rest ∨ ∃ c, a = .mark j c ∧ s.publishers j = .published e rest := by
  cases h with
  | insert => exact .inl hj
  | tick => exact .inl hj
  | claim i locked ids hids hi =>
    rw [setPublisher_publishers] at hj
    split at hj
    · cases hj
    · exact .inl hj
  | move i acked p hevents hp =>
    rw [setPublisher_publishers] at hj
    split at hj
    · exact absurd hj (hp e rest)
    · exact .inl hj
  | mark i c e' rest' p hi hevents hok herror =>
    rw [setPublisher_publishers, commit_publishers] at hj
    split at hj
    · rename_i hji
      by_cases hc : c.error = none
      · rw [hok hc] at hj
        cases hj
        exact .inr ⟨c, by rw [hji], hji ▸ hi⟩
      · exact absurd hj (herror hc e rest)
    · exact .inl hj
  | markDeadLettered i c e' rest' p hi hevents hp =>
    rw [setPublisher_publishers, commit_publishers] at hj
    split at hj
    · exact absurd hj (hp e rest)
    · exact .inl hj
  | recordFailure i c e' rest' message p hi hmarked hevents hp =>
    rw [setPublisher_publishers, commit_publishers] at hj
    split at hj
    · exact absurd hj (hp e rest)
    · exact .inl hj

theorem Acts.marked_stays (h : Acts s a t) {j : ℕ} {rest : List (OutboxEvent Payload)}
    (hj : s.publishers j = .marked e rest) :
    t.publishers j = .marked e rest ∨ a = .fanOut j ∨ a = .crash j := by
  cases h with
  | insert => exact .inl hj
  | tick => exact .inl hj
  | claim i locked ids hids hi =>
    rw [setPublisher_publishers]
    split
    · rename_i hji
      rw [hji, hi] at hj
      cases hj
    · exact .inl hj
  | move i acked p hevents hp hi =>
    rw [setPublisher_publishers]
    split
    · rename_i hji
      rw [hji] at hj ⊢
      exact .inr (hi ⟨e, rest, hj⟩)
    · exact .inl hj
  | mark i c e' rest' p hi =>
    rw [setPublisher_publishers, commit_publishers]
    split
    · rename_i hji
      rw [hji, hi] at hj
      cases hj
    · exact .inl hj
  | markDeadLettered i c e' rest' p hi =>
    rw [setPublisher_publishers, commit_publishers]
    split
    · rename_i hji
      rw [hji, hi] at hj
      cases hj
    · exact .inl hj
  | recordFailure i c e' rest' message p hi hmarked =>
    rw [setPublisher_publishers, commit_publishers]
    split
    · rename_i hji
      rw [hji] at hj
      exact absurd hj (hmarked e rest)
    · exact .inl hj

/-- The step marks the row of the event as published. -/
def Marks (s : State Payload) (a : Action Payload) (id : ℕ) : Prop :=
  ∃ i c e rest, e.id = id ∧ c.Took ∧
    (a = .mark i c ∧ s.publishers i = .published e rest ∨
      a = .markDeadLettered i c ∧ s.publishers i = .deadLettered e rest)

theorem mem_commit_modify {c : Commit} {k : ℕ} {f : OutboxEvent Payload → OutboxEvent Payload}
    (he : e ∈ (s.commit c (modify (·.id) k f s.rows)).rows) :
    e ∈ s.rows ∨ ∃ e₀ ∈ s.rows, e₀.id = k ∧ e = f e₀ ∧ c.Took := by
  have hmodify : e ∈ modify (·.id) k f s.rows → c.Took →
      e ∈ s.rows ∨ ∃ e₀ ∈ s.rows, e₀.id = k ∧ e = f e₀ ∧ c.Took := by
    intro he htook
    obtain ⟨e₀, he₀, hid, rfl⟩ | ⟨he, -⟩ := mem_modify.1 he
    · exact .inr ⟨e₀, he₀, hid, rfl, htook⟩
    · exact .inl he
  cases c with
  | ok => exact hmodify he trivial
  | lost message => exact hmodify he trivial
  | failed message => exact .inl he

theorem Acts.published (h : Acts s a t) (he : e ∈ t.rows) (hp : e.publishedAt.isSome) :
    (∃ e₀ ∈ s.rows, e₀.id = e.id ∧ e₀.publishedAt.isSome) ∨ Marks s a e.id := by
  have hmark : ∀ {i : ℕ} {c : Commit} {e' : OutboxEvent Payload} {p : Publisher Payload},
      e ∈ ((s.commit c (markPublished s.rows e'.id s.clock)).setPublisher i p).rows →
      (∃ e₀ ∈ s.rows, e₀.id = e.id ∧ e₀.publishedAt.isSome) ∨ e'.id = e.id ∧ c.Took := by
    intro i c e' p he
    obtain he | ⟨e₀, he₀, hid, rfl, htook⟩ := mem_commit_modify he
    · exact .inl ⟨e, he, rfl, hp⟩
    · exact .inr ⟨hid.symm, htook⟩
  cases h with
  | insert id tenantId subject payload hid =>
    rcases Tables.mem_concat.1 he with he | rfl
    · exact .inl ⟨e, he, rfl, hp⟩
    · cases hp
  | tick => exact .inl ⟨e, he, rfl, hp⟩
  | claim i locked ids =>
    obtain ⟨e₀, he₀, rfl⟩ := mem_map.1 he
    refine .inl ⟨e₀, he₀, ?_, ?_⟩
    · split <;> rfl
    · split at hp
      · exact hp
      · exact hp
  | move => exact .inl ⟨e, he, rfl, hp⟩
  | mark i c e' rest p hi =>
    refine (hmark he).imp_right fun ⟨hid, htook⟩ => ?_
    exact ⟨i, c, e', rest, hid, htook, .inl ⟨rfl, hi⟩⟩
  | markDeadLettered i c e' rest p hi =>
    refine (hmark he).imp_right fun ⟨hid, htook⟩ => ?_
    exact ⟨i, c, e', rest, hid, htook, .inr ⟨rfl, hi⟩⟩
  | recordFailure i c e' rest message =>
    obtain he | ⟨e₀, he₀, hid, rfl, htook⟩ := mem_commit_modify he
    · exact .inl ⟨e, he, rfl, hp⟩
    · exact .inl ⟨e₀, he₀, rfl, hp⟩

end Workforce.Eventing

namespace Workforce.Fanout

open Runs Tables Eventing Webhook List Function

variable {Payload : Type*}

/-! ## The fan-out -/

/-- A delivery, and the event of which it is: the table has only the payload. -/
structure Enqueued (Payload : Type*) where
  source : ℕ
  delivery : WebhookDelivery Payload

/-- The outbox, and for each publisher the subscriptions that its fan-out has yet to serve. -/
structure State (Payload : Type*) where
  outbox : Eventing.State Payload
  subscriptions : List WebhookSubscription
  deliveries : List (Enqueued Payload)
  fanOuts : ℕ → Option (List WebhookSubscription)

/-- The active subscriptions of the tenant that include the subject. -/
def matching (subscriptions : List WebhookSubscription) (tenantId : ℕ) (subject : String) :
    List WebhookSubscription :=
  (subscriptions.filter fun subscription =>
    subscription.isActive && subscription.tenantId = tenantId).filter
    fun subscription => subject ∈ subscription.subscribedSubjects

namespace State

variable (s : State Payload)

/-- Nothing has been inserted. -/
def init : State Payload := ⟨.init, [], [], fun _ => none⟩

def setFanOut (i : ℕ) (subscriptions : Option (List WebhookSubscription)) : State Payload :=
  { s with fanOuts := update s.fanOuts i subscriptions }

/-- `fanOut` returns, whether it has thrown or not. -/
def returns (i : ℕ) : Option (State Payload) :=
  (Eventing.step s.outbox (.fanOut i)).map fun outbox =>
    { s.setFanOut i none with outbox := outbox }

/-- The insert of `enqueue`. -/
def enqueue (e : OutboxEvent Payload) (subscription : WebhookSubscription) (id : ℕ) :
    State Payload :=
  { s with deliveries := s.deliveries ++
      [⟨e.id, newDelivery id e.tenantId subscription.id e.subject e.payload s.outbox.clock⟩] }

/-- The state after a transaction, given what it writes. -/
def commit (c : Commit) (after : State Payload) : State Payload :=
  match c with
  | .ok | .lost _ => after
  | .failed _ => s

end State

/-- A step of the outbox or of the fan-out. -/
inductive Action (Payload : Type*)
  /-- A step of the outbox, other than the one that stands for the fan-out. -/
  | outbox (a : Eventing.Action Payload)
  /-- The table of subscriptions is edited. -/
  | subscribe (subscriptions : List WebhookSubscription)
  | findActive (i : ℕ) (error : Option String)
  | enqueue (i id : ℕ) (c : Commit)
  | finish (i : ℕ)

/-- One step. -/
def step (s : State Payload) : Action Payload → Option (State Payload)
  | .outbox a =>
    match a with
    | .fanOut _ => none
    | .crash i =>
      (Eventing.step s.outbox (.crash i)).map fun outbox =>
        { s.setFanOut i none with outbox := outbox }
    | a => (Eventing.step s.outbox a).map fun outbox => { s with outbox := outbox }
  | .subscribe subscriptions => some { s with subscriptions := subscriptions }
  | .findActive i error =>
    match s.outbox.publishers i, s.fanOuts i with
    | .marked e _, none =>
      match error with
      | some _ => s.returns i
      | none => some (s.setFanOut i (some (matching s.subscriptions e.tenantId e.subject)))
    | _, _ => none
  | .enqueue i id c =>
    match s.outbox.publishers i, s.fanOuts i with
    | .marked e _, some (subscription :: rest) =>
      if id ∈ s.deliveries.map (·.delivery.id) then none
      else
        let t := s.commit c (s.enqueue e subscription id)
        match c.error with
        | none => some (t.setFanOut i (some rest))
        | some _ => t.returns i
    | _, _ => none
  | .finish i =>
    match s.outbox.publishers i, s.fanOuts i with
    | .marked _ _, some [] => s.returns i
    | _, _ => none

/-! ## Every run is a run of the outbox -/

variable {s t : State Payload}

variable {i : ℕ}

/-- `fanOut` returns: the publisher goes on with the next event. -/
theorem returns_eq_some (h : s.returns i = some t) :
    ∃ e rest, s.outbox.publishers i = .marked e rest ∧ t =
      { s.setFanOut i none with outbox := s.outbox.setPublisher i (.draining rest) } := by
  obtain ⟨outbox, houtbox, rfl⟩ := Option.map_eq_some_iff.1 h
  simp only [Eventing.step] at houtbox
  split at houtbox
  · rename_i e rest hi
    cases houtbox
    exact ⟨e, rest, hi, rfl⟩
  · cases houtbox

/-- What a step does. -/
inductive Does (s : State Payload) : Action Payload → State Payload → Prop
  | outbox {a : Eventing.Action Payload} {outbox : Eventing.State Payload}
      {fanOuts : ℕ → Option (List WebhookSubscription)}
      (hstep : Eventing.step s.outbox a = some outbox) (hfanOut : ∀ i, a ≠ .fanOut i)
      (hfanOuts : ∀ j, fanOuts j = s.fanOuts j ∧ a ≠ .crash j ∨ fanOuts j = none) :
      Does s (.outbox a) { s with outbox := outbox, fanOuts := fanOuts }
  | subscribe (subscriptions : List WebhookSubscription) :
      Does s (.subscribe subscriptions) { s with subscriptions := subscriptions }
  | find {i : ℕ} {e : OutboxEvent Payload} {rest : List (OutboxEvent Payload)}
      (hi : s.outbox.publishers i = .marked e rest) (hnone : s.fanOuts i = none) :
      Does s (.findActive i none)
        (s.setFanOut i (some (matching s.subscriptions e.tenantId e.subject)))
  | enqueue {i id : ℕ} {c : Commit} {e : OutboxEvent Payload} {rest : List (OutboxEvent Payload)}
      {subscription : WebhookSubscription} {subscriptions : List WebhookSubscription}
      (hi : s.outbox.publishers i = .marked e rest)
      (hlisted : s.fanOuts i = some (subscription :: subscriptions)) :
      Does s (.enqueue i id c)
        ((s.enqueue e subscription id).setFanOut i (some subscriptions))
  /-- `fanOut` returns after an error: something may be left to do. -/
  | fails {a : Action Payload} {i : ℕ} {e : OutboxEvent Payload}
      {rest : List (OutboxEvent Payload)} {u : State Payload}
      (hi : s.outbox.publishers i = .marked e rest)
      (ha : (∃ message, a = .findActive i (some message)) ∨
        ∃ id c, a = .enqueue i id c ∧ c.error ≠ none)
      (hu : u = s ∨ ∃ subscription id, u = s.enqueue e subscription id) :
      Does s a
        { u.setFanOut i none with outbox := s.outbox.setPublisher i (.draining rest) }
  | finish {i : ℕ} {e : OutboxEvent Payload} {rest : List (OutboxEvent Payload)}
      (hi : s.outbox.publishers i = .marked e rest) (hlisted : s.fanOuts i = some []) :
      Does s (.finish i)
        { s.setFanOut i none with outbox := s.outbox.setPublisher i (.draining rest) }

variable {a : Action Payload}

theorem step_does (h : step s a = some t) : Does s a t := by
  cases a with
  | outbox a =>
    have hother : (∀ i, a ≠ .fanOut i) → (∀ i, a ≠ .crash i) →
        (Eventing.step s.outbox a).map (fun outbox => { s with outbox := outbox }) = some t →
        Does s (.outbox a) t := by
      intro hfanOut hcrash h
      obtain ⟨outbox, houtbox, rfl⟩ := Option.map_eq_some_iff.1 h
      exact .outbox houtbox hfanOut fun j => .inl ⟨rfl, hcrash j⟩
    cases a with
    | fanOut i => cases h
    | crash i =>
      have h' : (Eventing.step s.outbox (.crash i)).map (fun outbox =>
          { s.setFanOut i none with outbox := outbox }) = some t := h
      obtain ⟨outbox, houtbox, rfl⟩ := Option.map_eq_some_iff.1 h'
      refine .outbox houtbox nofun fun j => ?_
      by_cases hj : j = i
      · subst hj
        exact .inr (update_self ..)
      · exact .inl ⟨update_of_ne hj .., fun heq => hj (by cases heq; rfl)⟩
    | insert | tick | claim | publish | mark | deadLetter | markDeadLettered | recordFailure
    | finish => exact hother nofun nofun h
  | subscribe subscriptions =>
    cases h
    exact .subscribe subscriptions
  | findActive i error =>
    simp only [step] at h
    split at h
    · rename_i e rest hi hnone
      split at h
      · rename_i message
        obtain ⟨e', rest', hi', rfl⟩ := returns_eq_some h
        exact .fails hi' (.inl ⟨message, rfl⟩) (.inl rfl)
      · cases h
        exact .find hi hnone
    · cases h
  | enqueue i id c =>
    simp only [step] at h
    split at h
    · rename_i e rest subscription subscriptions hi hlisted
      split at h
      · cases h
      · cases c with
        | ok =>
          cases h
          exact .enqueue hi hlisted
        | lost message =>
          obtain ⟨e', rest', hi', rfl⟩ := returns_eq_some h
          obtain ⟨rfl, rfl⟩ : e' = e ∧ rest' = rest := by
            have heq := hi'.symm.trans hi
            cases heq
            exact ⟨rfl, rfl⟩
          exact .fails hi (.inr ⟨id, _, rfl, nofun⟩) (.inr ⟨subscription, id, rfl⟩)
        | failed message =>
          obtain ⟨e', rest', hi', rfl⟩ := returns_eq_some h
          exact .fails hi' (.inr ⟨id, _, rfl, nofun⟩) (.inl rfl)
    · cases h
  | finish i =>
    simp only [step] at h
    split at h
    · rename_i e rest hi hlisted
      obtain ⟨e', rest', hi', rfl⟩ := returns_eq_some h
      exact .finish hi' hlisted
    · cases h

variable {e : OutboxEvent Payload} {rest : List (OutboxEvent Payload)}

theorem step_fanOut (hi : s.outbox.publishers i = .marked e rest) :
    Eventing.step s.outbox (.fanOut i) =
      some (s.outbox.setPublisher i (.draining rest)) := by
  simp only [Eventing.step, hi]

/-! ## Who is served -/

/-- The event that a publisher is about to fan out. -/
def fanning : Publisher Payload → Option (OutboxEvent Payload)
  | .marked e _ => some e
  | _ => none

/-- Nothing cuts a fan-out of the event short in this step: the reply to its mark is not lost, it
is not marked as a dead letter, its publisher does not stop before the fan-out returns, and no
statement of the fan-out throws. -/
def Undisturbed (x : ℕ) (s : State Payload) : Action Payload → Prop
  | .outbox (.mark i c) => ∀ e ∈ (s.outbox.publishers i).events.head?, e.id = x → c.Told
  | .outbox (.markDeadLettered i c) =>
    ∀ e ∈ (s.outbox.publishers i).events.head?, e.id = x → ¬ c.Took
  | .outbox (.crash i) => ∀ e ∈ fanning (s.outbox.publishers i), e.id ≠ x
  | .findActive i error => ∀ e ∈ fanning (s.outbox.publishers i), e.id = x → error = none
  | .enqueue i _ c => ∀ e ∈ fanning (s.outbox.publishers i), e.id = x → c.error = none
  | _ => True

instance (x : ℕ) (s : State Payload) (a : Action Payload) : Decidable (Undisturbed x s a) := by
  cases a with
  | outbox a => cases a <;> unfold Undisturbed <;> infer_instance
  | subscribe | findActive | enqueue | finish => unfold Undisturbed; infer_instance

/-- The tenant of the event has the subscription `k`, active and including its subject. -/
def Subscribed (x k : ℕ) (s : State Payload) : Prop :=
  ∀ e ∈ s.outbox.rows, e.id = x → ∃ subscription ∈ s.subscriptions, subscription.id = k ∧
    subscription.tenantId = e.tenantId ∧ subscription.isActive ∧
      e.subject ∈ subscription.subscribedSubjects
  deriving Decidable

/-- The subscription has a delivery of the event. -/
def Served (x k : ℕ) (s : State Payload) : Prop :=
  ∃ d ∈ s.deliveries, d.source = x ∧ d.delivery.subscriptionId = k
  deriving Decidable

/-- What a delivery has from its event. -/
def Enqueued.content (d : Enqueued Payload) : ℕ × ℕ × String × Payload :=
  (d.source, d.delivery.tenantId, d.delivery.subject, d.delivery.payload)

/-- What holds whatever happens. -/
structure Sound (s : State Payload) : Prop where
  outbox : Eventing.Inv s.outbox
  events : ∀ i, ∀ e ∈ (s.outbox.publishers i).events, e.content ∈ s.outbox.rows.map (·.content)
  deliveries : ∀ d ∈ s.deliveries, d.content ∈ s.outbox.rows.map (·.content)
  fanning : ∀ i, s.fanOuts i ≠ none → ∃ e rest, s.outbox.publishers i = .marked e rest

/-- While no fan-out of the event is cut short: a published event has been fanned out to the
subscription, or a publisher is about to. -/
structure Reaches (x k : ℕ) (s : State Payload) : Prop where
  listed : ∀ i e rest subscriptions, s.outbox.publishers i = .marked e rest → e.id = x →
    s.fanOuts i = some subscriptions → k ∈ subscriptions.map (·.id) ∨ Served x k s
  published : ∀ e ∈ s.outbox.rows, e.id = x → e.publishedAt.isSome →
    Served x k s ∨ ∃ i e' rest, s.outbox.publishers i = .marked e' rest ∧ e'.id = x

theorem sound_init : Sound (State.init : State Payload) where
  outbox := inv_init
  events := fun _ => forall_mem_nil _
  deliveries := forall_mem_nil _
  fanning := fun _ h => absurd rfl h

theorem Sound.returns (hs : Sound s) {u : State Payload}
    (hi : s.outbox.publishers i = .marked e rest) (hfanOuts : u.fanOuts = s.fanOuts)
    (hdeliveries : ∀ d ∈ u.deliveries, d.content ∈ s.outbox.rows.map (·.content)) :
    Sound { u.setFanOut i none with outbox := s.outbox.setPublisher i (.draining rest) } := by
  refine ⟨inv_step hs.outbox (step_fanOut hi), fun j e' he' => ?_, hdeliveries, fun j hj => ?_⟩
  · refine hs.events j e' ?_
    change e' ∈ ((s.outbox.setPublisher i (.draining rest)).publishers j).events at he'
    rw [setPublisher_publishers] at he'
    split at he'
    · rename_i hji
      rw [hji, hi]
      exact mem_cons_of_mem _ he'
    · exact he'
  · change update u.fanOuts i none j ≠ none at hj
    change ∃ e' rest', (s.outbox.setPublisher i (.draining rest)).publishers j = .marked e' rest'
    by_cases hji : j = i
    · subst hji
      rw [update_self] at hj
      exact absurd rfl hj
    · rw [update_of_ne hji, hfanOuts] at hj
      rw [setPublisher_publishers, if_neg hji]
      exact hs.fanning j hj

theorem Sound.enqueue_content (hs : Sound s) (hi : s.outbox.publishers i = .marked e rest)
    (subscription : WebhookSubscription) (id : ℕ) :
    ∀ d ∈ (s.enqueue e subscription id).deliveries, d.content ∈ s.outbox.rows.map (·.content) := by
  intro d hd
  rcases Tables.mem_concat.1 hd with hd | rfl
  · exact hs.deliveries d hd
  · exact hs.events i e (by rw [hi]; exact mem_cons_self)

theorem Sound.keep (hs : Sound s) (h : Does s a t) : Sound t := by
  cases h with
  | @outbox a outbox fanOuts hstep hfanOut hfanOuts =>
    have hacts := step_acts hstep
    have hmono : ∀ {c}, c ∈ s.outbox.rows.map (·.content) → c ∈ outbox.rows.map (·.content) :=
      fun hc => hacts.contents.subset hc
    refine ⟨inv_step hs.outbox hstep, fun j e he => ?_, fun d hd => hmono (hs.deliveries d hd),
      fun j hj => ?_⟩
    · rcases hacts.events hs.outbox.ids he with he | ⟨row, hrow, hcontent, -⟩
      · exact hmono (hs.events j e he)
      · exact hmono (hcontent ▸ mem_map_of_mem hrow)
    · rcases hfanOuts j with ⟨heq, hcrash⟩ | hnone
      · change fanOuts j ≠ none at hj
        rw [heq] at hj
        obtain ⟨e, rest, hi⟩ := hs.fanning j hj
        rcases hacts.marked_stays hi with hi | hi | hi
        · exact ⟨e, rest, hi⟩
        · exact absurd hi (hfanOut j)
        · exact absurd hi hcrash
      · exact absurd hnone hj
  | subscribe subscriptions => exact ⟨hs.outbox, hs.events, hs.deliveries, hs.fanning⟩
  | @find i e rest hi hnone =>
    refine ⟨hs.outbox, hs.events, hs.deliveries, fun j hj => ?_⟩
    by_cases hji : j = i
    · exact ⟨e, rest, hji ▸ hi⟩
    · change update s.fanOuts i _ j ≠ none at hj
      rw [update_of_ne hji] at hj
      exact hs.fanning j hj
  | @enqueue i id c e rest subscription subscriptions hi hlisted =>
    refine ⟨hs.outbox, hs.events, hs.enqueue_content hi subscription id, fun j hj => ?_⟩
    by_cases hji : j = i
    · exact ⟨e, rest, hji ▸ hi⟩
    · change update s.fanOuts i _ j ≠ none at hj
      rw [update_of_ne hji] at hj
      exact hs.fanning j hj
  | fails hi ha hu =>
    rcases hu with rfl | ⟨subscription, id, rfl⟩
    · exact hs.returns hi rfl hs.deliveries
    · exact hs.returns hi rfl (hs.enqueue_content hi subscription id)
  | finish hi hlisted => exact hs.returns hi rfl hs.deliveries

variable {x k : ℕ}

theorem reaches_init : Reaches x k (State.init : State Payload) where
  listed := fun _ _ _ _ hi => by cases hi
  published := fun _ he => by cases he

theorem Sound.row_of (hs : Sound s) (he : e ∈ (s.outbox.publishers i).events) :
    ∃ row ∈ s.outbox.rows, row.id = e.id ∧ row.tenantId = e.tenantId ∧ row.subject = e.subject := by
  obtain ⟨row, hrow, hcontent⟩ := mem_map.1 (hs.events i e he)
  simp only [OutboxEvent.content, Prod.mk.injEq] at hcontent
  exact ⟨row, hrow, hcontent.1, hcontent.2.1, hcontent.2.2.1⟩

theorem Sound.mem_matching (hs : Sound s) (hk : Subscribed x k s)
    (hi : s.outbox.publishers i = .marked e rest) (hid : e.id = x) :
    k ∈ (matching s.subscriptions e.tenantId e.subject).map (·.id) := by
  obtain ⟨row, hrow, hrowId, htenant, hsubject⟩ :=
    hs.row_of (i := i) (e := e) (by rw [hi]; exact mem_cons_self)
  obtain ⟨subscription, hmem, hkey, htenant', hactive, hsubject'⟩ :=
    hk row hrow (hrowId.trans hid)
  refine mem_map.2 ⟨subscription, ?_, hkey⟩
  rw [matching, mem_filter, mem_filter]
  refine ⟨⟨hmem, ?_⟩, ?_⟩
  · rw [hactive, htenant', htenant]
    simp
  · rw [← hsubject]
    simpa using hsubject'

theorem mark_ok {u v : Eventing.State Payload} {c : Commit}
    (hi : u.publishers i = .published e rest) (h : Eventing.step u (.mark i c) = some v)
    (hc : c.error = none) :
    v.publishers i = .marked e rest := by
  simp only [Eventing.step, hi, hc] at h
  cases h
  exact Eventing.State.setPublisher_self ..

theorem Reaches.returns (hs : Reaches x k s) {u : State Payload}
    (hi : s.outbox.publishers i = .marked e rest) (hfanOuts : u.fanOuts = s.fanOuts)
    (hserved : Served x k s → Served x k u) (hid : e.id = x → Served x k u) :
    Reaches x k { u.setFanOut i none with outbox := s.outbox.setPublisher i (.draining rest) } := by
  refine ⟨fun j e' rest' subscriptions hj hid' hlisted => ?_, fun row hrow hid' hp => ?_⟩
  · change (s.outbox.setPublisher i (.draining rest)).publishers j = _ at hj
    change update u.fanOuts i none j = _ at hlisted
    rw [setPublisher_publishers] at hj
    split at hj
    · cases hj
    · rename_i hji
      rw [update_of_ne hji, hfanOuts] at hlisted
      exact (hs.listed j e' rest' subscriptions hj hid' hlisted).imp_right hserved
  · rcases hs.published row hrow hid' hp with hdone | ⟨j, e', rest', hj, hid''⟩
    · exact .inl (hserved hdone)
    · by_cases hji : j = i
      · rw [hji, hi] at hj
        cases hj
        exact .inl (hid hid'')
      · refine .inr ⟨j, e', rest', ?_, hid''⟩
        change (s.outbox.setPublisher i (.draining rest)).publishers j = _
        rw [setPublisher_publishers, if_neg hji, hj]

theorem Reaches.keep (hs : Reaches x k s) (hsound : Sound s) (hok : Undisturbed x s a)
    (hk : Subscribed x k s) (h : Does s a t) : Reaches x k t := by
  cases h with
  | @outbox a outbox fanOuts hstep hfanOut hfanOuts =>
    have hacts := step_acts hstep
    refine ⟨fun j e rest subscriptions hj hid hlisted => ?_, fun row hrow hid hp => ?_⟩
    · change fanOuts j = _ at hlisted
      rcases hfanOuts j with ⟨heq, hcrash⟩ | hnone
      · rw [heq] at hlisted
        rcases hacts.marked hj with hi | ⟨c, -, hi⟩
        · exact hs.listed j e rest subscriptions hi hid hlisted
        · obtain ⟨e', rest', hi'⟩ := hsound.fanning j (by rw [hlisted]; exact Option.some_ne_none _)
          rw [hi] at hi'
          cases hi'
      · rw [hnone] at hlisted
        cases hlisted
    · rcases hacts.published hrow hp with ⟨e₀, he₀, hid₀, hp₀⟩ |
        ⟨i, c, e, rest, hid', htook, ⟨rfl, hi⟩ | ⟨rfl, hi⟩⟩
      · rcases hs.published e₀ he₀ (hid₀.trans hid) hp₀ with hdone | ⟨i, e, rest, hi, hid'⟩
        · exact .inl hdone
        · rcases hacts.marked_stays hi with hi' | rfl | rfl
          · exact .inr ⟨i, e, rest, hi', hid'⟩
          · exact absurd rfl (hfanOut i)
          · exact absurd hid' (hok e (by rw [hi]; rfl))
      · -- The event is marked, and the publisher is about to fan it out.
        have htold : c.Told := hok e (by rw [hi]; rfl) (hid'.trans hid)
        exact .inr ⟨i, e, rest, mark_ok hi hstep (Commit.error_eq_none htook htold),
          hid'.trans hid⟩
      · exact absurd htook (hok e (by rw [hi]; rfl) (hid'.trans hid))
  | subscribe subscriptions => exact ⟨hs.listed, hs.published⟩
  | @find i e rest hi hnone =>
    refine ⟨fun j e' rest' subscriptions hj hid hlisted => ?_, hs.published⟩
    change update s.fanOuts i _ j = _ at hlisted
    by_cases hji : j = i
    · subst hji
      rw [update_self] at hlisted
      cases hlisted
      obtain ⟨rfl, rfl⟩ : e' = e ∧ rest' = rest := by
        have heq := (show s.outbox.publishers j = _ from hj).symm.trans hi
        cases heq
        exact ⟨rfl, rfl⟩
      exact .inl (hsound.mem_matching hk hi hid)
    · rw [update_of_ne hji] at hlisted
      exact hs.listed j e' rest' subscriptions hj hid hlisted
  | @enqueue i id c e rest subscription subscriptions hi hlisted =>
    have hserved : Served x k s → Served x k (s.enqueue e subscription id) := by
      rintro ⟨d, hd, hsource, hkey⟩
      exact ⟨d, mem_append_left _ hd, hsource, hkey⟩
    refine ⟨fun j e' rest' subscriptions' hj hid hlisted' => ?_, fun row hrow hid hp => ?_⟩
    · change update s.fanOuts i _ j = _ at hlisted'
      by_cases hji : j = i
      · subst hji
        rw [update_self] at hlisted'
        obtain rfl := Option.some.inj hlisted'
        obtain ⟨rfl, rfl⟩ : e' = e ∧ rest' = rest := by
          have heq := (show s.outbox.publishers j = _ from hj).symm.trans hi
          cases heq
          exact ⟨rfl, rfl⟩
        rcases hs.listed j e' rest' _ hi hid hlisted with hmem | hdone
        · rw [map_cons, mem_cons] at hmem
          rcases hmem with rfl | hmem
          · exact .inr ⟨_, mem_concat_self, hid, rfl⟩
          · exact .inl hmem
        · exact .inr (hserved hdone)
      · rw [update_of_ne hji] at hlisted'
        exact (hs.listed j e' rest' subscriptions' hj hid hlisted').imp_right hserved
    · exact (hs.published row hrow hid hp).imp_left hserved
  | @fails a i e rest u hi ha hu =>
    have hne : e.id ≠ x := by
      intro hid
      rcases ha with ⟨message, rfl⟩ | ⟨id, c, rfl, hc⟩
      · cases hok e (by rw [hi]; rfl) hid
      · exact hc (hok e (by rw [hi]; rfl) hid)
    have hserved : Served x k s → Served x k u := by
      rcases hu with rfl | ⟨subscription, id, rfl⟩
      · exact fun h => h
      · rintro ⟨d, hd, hsource, hkey⟩
        exact ⟨d, mem_append_left _ hd, hsource, hkey⟩
    have hfanOuts : u.fanOuts = s.fanOuts := by
      rcases hu with rfl | ⟨subscription, id, rfl⟩
      · rfl
      · rfl
    exact hs.returns hi hfanOuts hserved fun hid => absurd hid hne
  | @finish i e rest hi hlisted =>
    refine hs.returns hi rfl (fun h => h) fun hid => ?_
    exact (hs.listed i e rest [] hi hid hlisted).resolve_left not_mem_nil

/-- **An event of which no fan-out was cut short reaches its subscribers**: when it has been
published and no publisher is still fanning it out, every subscription of its tenant that was active
and included its subject throughout has a delivery of it, with its subject and its payload. -/
theorem served_of_undisturbed {as : List (Action Payload)} (h : exec step State.init as = some s)
    (hm : Meets step (Undisturbed x) State.init as)
    (hk : Always step (Subscribed x k) State.init as) {e : OutboxEvent Payload}
    (he : e ∈ s.outbox.rows) (hid : e.id = x) (hp : e.publishedAt.isSome)
    (hdone : ∀ i, ∀ e' ∈ fanning (s.outbox.publishers i), e'.id ≠ x) :
    ∃ d ∈ s.deliveries, d.content = e.content ∧ d.delivery.subscriptionId = k := by
  have hinv : Sound s ∧ Reaches x k s := by
    refine exec_invariant (I := fun s => Sound s ∧ Reaches x k s) ?_ ⟨sound_init, reaches_init⟩
      (hm.and_always hk) h
    rintro u a v ⟨hsound, hreaches⟩ ⟨hok, hsub⟩ hstep
    exact ⟨hsound.keep (step_does hstep), hreaches.keep hsound hok hsub (step_does hstep)⟩
  obtain ⟨hsound, hreaches⟩ := hinv
  rcases hreaches.published e he hid hp with ⟨d, hd, hsource, hkey⟩ | ⟨i, e', rest, hi, hid'⟩
  · refine ⟨d, hd, ?_, hkey⟩
    obtain ⟨row, hrow, hcontent⟩ := mem_map.1 (hsound.deliveries d hd)
    have hrowId : row.id = e.id := (congrArg Prod.fst hcontent).trans (hsource.trans hid.symm)
    rw [← eq_of_key_eq hsound.outbox.ids hrow he hrowId, hcontent]
  · exact absurd hid' (hdone i e' (by rw [hi]; rfl))

/-! ## Who is never served -/

/-- The event has been published, and no publisher holds it. -/
structure Abandoned (x : ℕ) (s : State Payload) : Prop where
  published : ∃ e ∈ s.outbox.rows, e.id = x ∧ e.publishedAt.isSome
  free : ∀ i, ∀ e ∈ (s.outbox.publishers i).events, e.id ≠ x

theorem Abandoned.keep (hs : Abandoned x s) (hsound : Sound s) (h : Does s a t) :
    Abandoned x t ∧ (Served x k t → Served x k s) := by
  obtain ⟨e, he, hid, hp⟩ := hs.published
  have hne : ∀ {i : ℕ} {e' : OutboxEvent Payload} {rest : List (OutboxEvent Payload)},
      s.outbox.publishers i = .marked e' rest → e'.id ≠ x := fun {i e' rest} hi =>
    hs.free i e' (by rw [hi]; exact mem_cons_self)
  have hserved : ∀ {i : ℕ} {e' : OutboxEvent Payload} {rest : List (OutboxEvent Payload)},
      s.outbox.publishers i = .marked e' rest → ∀ subscription id,
        Served x k (s.enqueue e' subscription id) → Served x k s := by
    rintro i e' rest hi subscription id ⟨d, hd, hsource, hkey⟩
    rcases Tables.mem_concat.1 hd with hd | rfl
    · exact ⟨d, hd, hsource, hkey⟩
    · exact absurd hsource (hne hi)
  have hfree : ∀ {i : ℕ} {e' : OutboxEvent Payload} {rest : List (OutboxEvent Payload)},
      s.outbox.publishers i = .marked e' rest →
        ∀ j, ∀ e ∈ ((s.outbox.setPublisher i (.draining rest)).publishers j).events, e.id ≠ x := by
    intro i e' rest hi j e he
    rw [setPublisher_publishers] at he
    split at he
    · exact hs.free i e (by rw [hi]; exact mem_cons_of_mem _ he)
    · exact hs.free j e he
  cases h with
  | @outbox a outbox fanOuts hstep =>
    obtain ⟨e', he', hsame, hp'⟩ := move_row (step_move hsound.outbox hstep) he
    refine ⟨⟨⟨e', he', hsame.id.symm.trans hid, hp' hp⟩, fun j e'' he'' hid'' => ?_⟩, fun h => h⟩
    rcases (step_acts hstep).events hsound.outbox.ids he'' with hold | ⟨row, hrow, hcontent, hnone⟩
    · exact hs.free j e'' hold hid''
    · -- A row that is claimed has not been published.
      have hrowId : row.id = e.id := (congrArg Prod.fst hcontent).trans (hid''.trans hid.symm)
      rw [eq_of_key_eq hsound.outbox.ids hrow he hrowId] at hnone
      rw [hnone] at hp
      cases hp
  | subscribe subscriptions => exact ⟨⟨hs.published, hs.free⟩, fun h => h⟩
  | find hi hnone => exact ⟨⟨hs.published, hs.free⟩, fun h => h⟩
  | @enqueue i id c e' rest subscription subscriptions hi hlisted =>
    exact ⟨⟨hs.published, hs.free⟩, hserved hi subscription id⟩
  | fails hi ha hu =>
    refine ⟨⟨hs.published, hfree hi⟩, ?_⟩
    rcases hu with rfl | ⟨subscription, id, rfl⟩
    · exact fun h => h
    · exact hserved hi subscription id
  | finish hi hlisted => exact ⟨⟨hs.published, hfree hi⟩, fun h => h⟩

/-- A published event that no publisher holds gets no further delivery, whatever happens next. -/
theorem abandoned_forever {as bs : List (Action Payload)}
    (h : exec step State.init as = some s) (hs : Abandoned x s) (ht : exec step s bs = some t)
    (hserved : Served x k t) : Served x k s := by
  have hsound : Sound s := exec_keeps Sound (fun _ _ _ hs h => hs.keep (step_does h)) sound_init h
  refine (exec_keeps (fun u => Sound u ∧ Abandoned x u ∧ (Served x k u → Served x k s)) ?_
    ⟨hsound, hs, fun h => h⟩ ht).2.2 hserved
  rintro u a v ⟨hu, habandoned, hback⟩ hstep
  obtain ⟨hkeep, hserved'⟩ := habandoned.keep (k := k) hu (step_does hstep)
  exact ⟨hu.keep (step_does hstep), hkeep, fun h => hback (hserved' h)⟩

/-! ## Runs -/

theorem exists_of_map_published {rows : List (OutboxEvent ℕ)} {now : ℤ}
    (h : rows.map (fun e => (e.id, e.publishedAt)) = [(x, some now)]) :
    ∃ e ∈ rows, e.id = x ∧ e.publishedAt = some now := by
  have hmem : (x, some now) ∈ rows.map fun e => (e.id, e.publishedAt) := by
    rw [h]
    exact mem_singleton_self _
  obtain ⟨e, he, heq⟩ := mem_map.1 hmem
  exact ⟨e, he, Prod.mk.inj heq⟩

/-- One event is published and fanned out. -/
def fannedOut : List (Action ℕ) :=
  [.subscribe [auditHook], .outbox (.insert 1 7 "agno.core.audit.created.v1" 10),
    .outbox (.claim 0 []), .outbox (.publish 0 none), .outbox (.mark 0 .ok), .findActive 0 none,
    .enqueue 0 1 .ok, .finish 0, .outbox (.finish 0)]

theorem fannedOut_served : ∃ s, exec step State.init fannedOut = some s ∧
    ∃ d ∈ s.deliveries, d.delivery.subscriptionId = 3 := by
  have hrun : (exec step State.init fannedOut).map
      (fun s => (s.outbox.rows.map fun e => (e.id, e.publishedAt), s.outbox.publishers)) =
        some ([(1, some 0)], fun _ => .idle) := by
    simp [fannedOut, exec, step, State.init, Eventing.step, Eventing.State.init, newEvent,
      claimedIds, claimRows, batchSize, OutboxEvent.claimable, Eventing.State.setPublisher,
      Commit.error, Eventing.State.commit, markPublished, Tables.modify, State.setFanOut, matching,
      State.enqueue, State.commit, State.returns, auditHook]
  obtain ⟨s, hs, hresult⟩ := Option.map_eq_some_iff.1 hrun
  obtain ⟨hrows, hpublishers⟩ := Prod.mk.inj hresult
  obtain ⟨e, he, hid, hp⟩ := exists_of_map_published hrows
  have hdone : ∀ i, ∀ e' ∈ fanning (s.outbox.publishers i), e'.id ≠ 1 := by
    rw [hpublishers]
    exact fun _ => forall_mem_none
  obtain ⟨d, hd, -, hkey⟩ := served_of_undisturbed (k := 3) hs (by decide +kernel)
    (by decide +kernel) he hid (by rw [hp]; rfl) hdone
  exact ⟨s, hs, d, hd, hkey⟩

/-- The publisher stops between its mark and the fan-out. -/
def stopped : List (Action ℕ) :=
  [.subscribe [auditHook], .outbox (.insert 1 7 "agno.core.audit.created.v1" 10),
    .outbox (.claim 0 []), .outbox (.publish 0 none), .outbox (.mark 0 .ok), .outbox (.crash 0)]

/-- The event is published, its tenant has had the subscription throughout, and no later step
serves it. -/
theorem stopped_unserved : ∃ s, exec step State.init stopped = some s ∧
    Always step (Subscribed 1 3) State.init stopped ∧
    (∃ e ∈ s.outbox.rows, e.id = 1 ∧ e.publishedAt.isSome) ∧
    ∀ bs t, exec step s bs = some t → ¬ Served 1 3 t := by
  have hrun : (exec step State.init stopped).map
      (fun s => (s.outbox.rows.map fun e => (e.id, e.publishedAt), s.deliveries,
        s.outbox.publishers)) = some ([(1, some 0)], [], fun _ => .idle) := by
    simp [stopped, exec, step, State.init, Eventing.step, Eventing.State.init, newEvent, claimedIds,
      claimRows, batchSize, OutboxEvent.claimable, Eventing.State.setPublisher, Commit.error,
      Eventing.State.commit, markPublished, Tables.modify, State.setFanOut]
  obtain ⟨s, hs, hresult⟩ := Option.map_eq_some_iff.1 hrun
  obtain ⟨hrows, hresult⟩ := Prod.mk.inj hresult
  obtain ⟨hdeliveries, hpublishers⟩ := Prod.mk.inj hresult
  have hpublished : ∃ e ∈ s.outbox.rows, e.id = 1 ∧ e.publishedAt.isSome := by
    obtain ⟨e, he, hid, hp⟩ := exists_of_map_published hrows
    exact ⟨e, he, hid, by rw [hp]; rfl⟩
  have habandoned : Abandoned 1 s := by
    refine ⟨hpublished, fun i e he => ?_⟩
    rw [hpublishers] at he
    cases he
  refine ⟨s, hs, by decide +kernel, hpublished, fun bs t ht hserved => ?_⟩
  obtain ⟨d, hd, -⟩ := abandoned_forever hs habandoned ht hserved
  rw [hdeliveries] at hd
  cases hd

end Workforce.Fanout
