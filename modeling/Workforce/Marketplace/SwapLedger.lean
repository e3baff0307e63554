import Workforce.Marketplace.Swaps

/-!
# Executed swaps

The ledger of the swaps: the status of each, and how often its execution was recorded.
`SwapLedger.Step` says what the guarded decision of `processAccept` and the unguarded saves of the
other paths do to it; `swapStep_ledger` is the refinement.

`executed_swap_stays_iff`: executed swaps stay executed along a run exactly when no save lands on
an accepted swap.
-/

namespace Workforce.Marketplace

open Tables Function Runs SwapDb

/-! ## The ledger of the swaps -/

/-- The status of every swap, and how often its execution was recorded. -/
structure SwapLedger where
  status : ℕ → Option SwapRequestStatus
  executions : ℕ → ℕ

namespace SwapLedger

/-- The swap gets the status `st`; an accepted swap is executed. -/
def decided (b : SwapLedger) (id : ℕ) (st : SwapRequestStatus) : SwapLedger where
  status := update b.status id (some st)
  executions := if st = .accepted then update b.executions id (b.executions id + 1)
    else b.executions

theorem decided_status (b : SwapLedger) (id : ℕ) (st : SwapRequestStatus) (i : ℕ) :
    (b.decided id st).status i = if i = id then some st else b.status i := by
  simp [decided, update_apply]

theorem decided_executions (b : SwapLedger) (id : ℕ) (st : SwapRequestStatus) (i : ℕ) :
    (b.decided id st).executions i =
      b.executions i + if i = id ∧ st = .accepted then 1 else 0 := by
  simp only [decided]
  by_cases hst : st = .accepted
  · by_cases hi : i = id <;> simp [hst, hi]
  · simp [hst]

/-- What one step can do to the ledger; the label is the swap it saves without a guard. -/
inductive Step : Option ℕ → SwapLedger → SwapLedger → Prop
  | skip {b : SwapLedger} : Step none b b
  | propose {b : SwapLedger} {id : ℕ} (h : b.status id = none) :
      Step none b { b with status := update b.status id (some .pending) }
  /-- The guarded decision of `processAccept`. -/
  | guarded {b : SwapLedger} {id : ℕ} (st : SwapRequestStatus) (h : b.status id = some .pending) :
      Step none b (b.decided id st)
  /-- A loaded swap is saved as accepted or as rejected. -/
  | save {b : SwapLedger} {id : ℕ} {st : SwapRequestStatus} (hst : st = .accepted ∨ st = .rejected)
      (h : b.status id ≠ none) : Step (some id) b (b.decided id st)

variable {b b' : SwapLedger}

theorem Step.status_ne_none {w : Option ℕ} (h : Step w b b') {id : ℕ} (hid : b.status id ≠ none) :
    b'.status id ≠ none := by
  cases h with
  | skip => exact hid
  | propose =>
    simp only [update_apply]
    split
    · nofun
    · exact hid
  | guarded | save =>
    rw [decided_status]
    split
    · nofun
    · exact hid

/-- Every execution is the one of an accepted swap. -/
def Final (b : SwapLedger) : Prop :=
  ∀ id, b.executions id = if b.status id = some .accepted then 1 else 0

/-- Deciding a swap that is not accepted executes it exactly when it is accepted now. -/
theorem Final.decided {b : SwapLedger} (hf : b.Final) {id : ℕ} (hna : b.status id ≠ some .accepted)
    (st : SwapRequestStatus) : (b.decided id st).Final := by
  intro i
  rw [decided_executions, decided_status, hf i]
  by_cases hi : i = id
  · subst hi
    simp [hna]
  · simp [hi]

theorem Step.final {w : Option ℕ} (h : Step w b b') (hf : b.Final)
    (hw : ∀ id, w = some id → b.status id ≠ some .accepted) : b'.Final := by
  cases h with
  | skip => exact hf
  | @propose _ id hnone =>
    intro i
    simp only [update_apply]
    split
    · rename_i hid
      subst hid
      simpa [hnone] using hf i
    · exact hf i
  | guarded st hpend => exact hf.decided (by simp [hpend]) st
  | save hst hsome => exact hf.decided (hw _ rfl) _

/-- A save that lands on an accepted swap executes it again, or rejects it. -/
theorem Step.save_accepted {id : ℕ} (h : Step (some id) b b') (hf : b.Final)
    (ha : b.status id = some .accepted) :
    b'.executions id = 2 ∨ b'.executions id = 1 ∧ b'.status id = some .rejected := by
  have hid := hf id
  cases h with
  | save hst hsome =>
    rcases hst with rfl | rfl
    · exact .inl (by simp [decided_executions, hid, ha])
    · exact .inr (by simp [decided_executions, decided_status, hid, ha])

end SwapLedger

namespace SwapDb

def statusAt (db : SwapDb) (id : ℕ) : Option SwapRequestStatus :=
  (lookup (·.id) id db.swaps).map (·.status)

/-- How often the execution of the swap was recorded in the outbox. -/
def executions (db : SwapDb) (id : ℕ) : ℕ := db.outbox.countP (·.swapRequestId = id)

theorem statusAt_saveSwap {db : SwapDb} {swap : SwapRequest} (h : db.statusAt swap.id ≠ none) :
    (db.saveSwap swap).statusAt = update db.statusAt swap.id (some swap.status) := by
  funext id
  simp only [statusAt, saveSwap, update_apply] at h ⊢
  rw [lookup_modify (by intro; rfl)]
  split
  · rename_i hid
    subst hid
    obtain ⟨row, hrow⟩ := Option.ne_none_iff_exists'.1 h
    simp only [Option.map_eq_some_iff] at hrow
    obtain ⟨row', hrow', -⟩ := hrow
    simp [hrow']
  · rfl

theorem executions_recordSwapExecuted (db : SwapDb) (swap : SwapRequest) (by_ : Option ℕ) :
    (db.recordSwapExecuted swap by_).executions =
      update db.executions swap.id (db.executions swap.id + 1) := by
  funext id
  simp only [executions, recordSwapExecuted, List.countP_append, update_apply]
  by_cases hid : id = swap.id
  · simp [hid]
  · have hid' : swap.id ≠ id := fun h => hid h.symm
    simp [hid, hid']

theorem statusAt_recordSwapExecuted (db : SwapDb) (swap : SwapRequest) (by_ : Option ℕ) :
    (db.recordSwapExecuted swap by_).statusAt = db.statusAt := rfl

theorem statusAt_of_findSwap {db : SwapDb} (hn : (db.swaps.map (·.id)).Nodup) {tenant id : ℕ}
    {swap : SwapRequest} (h : db.findSwap tenant id = some swap) :
    swap.id = id ∧ db.statusAt id = some swap.status := by
  have hm := List.mem_of_find?_eq_some h
  have hid : swap.id = id := (by simpa using List.find?_some h : _ ∧ _).1
  refine ⟨hid, ?_⟩
  rw [statusAt, ← hid, lookup_eq_some hn hm]
  rfl

theorem map_id_saveSwap (db : SwapDb) (swap : SwapRequest) :
    (db.saveSwap swap).swaps.map (·.id) = db.swaps.map (·.id) :=
  map_key_modify (by intro; rfl) _

end SwapDb

theorem proposeSwap_ok {db db' : SwapDb} {id : ℕ} {input : ProposeSwapInput}
    (h : proposeSwap db id input = some db') :
    db.statusAt id = none ∧ db'.executions = db.executions ∧
      db'.swaps = db.swaps ++ [newSwap id input] ∧ (∀ r ∈ db.swaps, r.id ≠ id) ∧
      db'.statusAt = update db.statusAt id (some .pending) := by
  unfold proposeSwap at h
  split at h
  · cases h
  rename_i hfresh
  cases h
  have hfresh' : ∀ r ∈ db.swaps, r.id ≠ id := by simpa using hfresh
  have hnone : lookup (fun r : SwapRequest => r.id) id db.swaps = none := by
    simpa [lookup, List.find?_eq_none] using hfresh'
  refine ⟨by simp [statusAt, hnone], rfl, rfl, hfresh', ?_⟩
  funext i
  have hlook := lookup_append_singleton (k := i) (r := newSwap id input) hfresh'
  simp only [statusAt, update_apply]
  rw [hlook]
  simp only [newSwap]
  by_cases hi : i = id <;> simp [hi]

/-- The swap a call has loaded. -/
def SwapCall.loaded : SwapCall → Option SwapRequest
  | .idle => none
  | .rejecting swap | .resolving swap | .validating swap | .failing swap | .deciding swap _ _
  | .approving swap _ | .disapproving swap _ => some swap

namespace SwapState

def ledger (s : SwapState) : SwapLedger := ⟨s.db.statusAt, s.db.executions⟩

/-- The swap the action saves as it was loaded, without a guard on the row. -/
def saved (s : SwapState) : SwapAction → Option ℕ
  | .rejectWrite p => match s.calls p with
    | .rejecting swap => some swap.id
    | _ => none
  | .failWrite p => match s.calls p with
    | .failing swap => some swap.id
    | _ => none
  | .approveWrite p => match s.calls p with
    | .approving swap _ => some swap.id
    | _ => none
  | .disapproveWrite p => match s.calls p with
    | .disapproving swap _ => some swap.id
    | _ => none
  | _ => none

/-- The ids are distinct, and a loaded swap has its row. -/
structure WellFormed (s : SwapState) : Prop where
  ids : (s.db.swaps.map (·.id)).Nodup
  loaded : ∀ p swap, (s.calls p).loaded = some swap → s.db.statusAt swap.id ≠ none

end SwapState

/-! ## What a step of the calls does -/

variable {swap : SwapRequest}

theorem rejectCheck_ok {db : SwapDb} {tenant id responding : ℕ}
    (h : rejectCheck db tenant id responding = .ok swap) : db.findSwap tenant id = some swap := by
  unfold rejectCheck at h
  split at h
  · cases h
  rename_i row hrow
  split at h
  · cases h
  split at h
  · cases h
  · cases h
    exact hrow

theorem acceptCheck_ok {db : SwapDb} {input : RespondToSwapInput}
    (h : acceptCheck db input = .ok swap) :
    ∃ row, db.findSwap input.tenantId input.swapRequestId = some row ∧ swap.id = row.id := by
  unfold acceptCheck at h
  split at h
  · cases h
  rename_i row hrow
  split at h
  · cases h
  split at h
  · cases h
  split at h
  · cases h
    exact ⟨row, hrow, rfl⟩
  · cases h

theorem swapDecisionCheck_ok {db : SwapDb} {tenant id : ℕ}
    (h : swapDecisionCheck db tenant id = .ok swap) : db.findSwap tenant id = some swap := by
  unfold swapDecisionCheck at h
  split at h
  · cases h
  rename_i row hrow
  split at h
  · cases h
  · cases h
    exact hrow

/-- What a call writes about the swap it has loaded; the label is the swap it saves without a
guard. -/
inductive SwapWrite (db : SwapDb) (swap : SwapRequest) : Option ℕ → SwapDb → Prop
  | resolve {db' : SwapDb} (h : acceptResolve db swap = .ok db') : SwapWrite db swap none db'
  | decide {initiatorSide responderSide : EligibilityResult} {auto : Bool} {db' : SwapDb}
      (h : acceptDecide db swap initiatorSide responderSide auto = .ok db') :
      SwapWrite db swap none db'
  | approve (approverId : ℕ) : SwapWrite db swap (some swap.id) (approveSwap db swap approverId)
  | reject {swap' : SwapRequest} (hid : swap'.id = swap.id) (hst : swap'.status = .rejected) :
      SwapWrite db swap (some swap.id) (db.saveSwap swap')

/-- Everything a step can do: propose a swap, load a swap that has its row or forget it, or write
about the swap that is loaded. -/
inductive SwapMove (s : SwapState) : Option ℕ → SwapState → Prop
  | propose {id : ℕ} {input : ProposeSwapInput} {db : SwapDb}
      (h : proposeSwap s.db id input = some db) : SwapMove s none { s with db }
  | load (p : ℕ) {c : SwapCall}
      (h : ∀ swap, c.loaded = some swap → s.db.statusAt swap.id ≠ none) :
      SwapMove s none (s.setCall p c)
  | write {p : ℕ} {c : SwapCall} {swap : SwapRequest} {saved : Option ℕ} {db : SwapDb}
      (hl : (s.calls p).loaded = some swap) (hc : c = .idle ∨ c = .validating swap)
      (h : SwapWrite s.db swap saved db) : SwapMove s saved ({ s with db }.setCall p c)

section Move

variable {s t : SwapState} {p : ℕ} {swap : SwapRequest}

theorem SwapMove.loads (hn : (s.db.swaps.map (·.id)).Nodup) {tenant id : ℕ} {c : SwapCall}
    {row : SwapRequest} (hrow : s.db.findSwap tenant id = some row) (hid : swap.id = row.id)
    (hc : c.loaded = some swap) : SwapMove s none (s.setCall p c) := by
  refine .load p fun swap' hc' => ?_
  obtain rfl := Option.some.inj (hc.symm.trans hc')
  obtain ⟨hrid, hat⟩ := statusAt_of_findSwap hn hrow
  simp [hid, hrid, hat]

theorem SwapMove.finishes {db : SwapDb} {saved : Option ℕ} (hl : (s.calls p).loaded = some swap)
    (h : SwapWrite s.db swap saved db) : SwapMove s saved (s.finish p db) :=
  .write hl (.inl rfl) h

theorem swapStep_move (hn : (s.db.swaps.map (·.id)).Nodup) {a : SwapAction}
    (h : swapStep s a = some t) : SwapMove s (s.saved a) t := by
  cases a with
  | propose id input =>
    simp only [swapStep, Option.map_eq_some_iff] at h
    obtain ⟨db, hdb, rfl⟩ := h
    exact .propose hdb
  | rejectRead p tenant id responding =>
    simp only [swapStep] at h
    split at h
    · rename_i swap hp hck
      cases h
      exact .loads hn (rejectCheck_ok hck) rfl rfl
    · cases h
  | acceptRead p input =>
    simp only [swapStep] at h
    split at h
    · rename_i swap hp hck
      cases h
      obtain ⟨row, hrow, hid⟩ := acceptCheck_ok hck
      exact .loads hn hrow hid rfl
    · cases h
  | approveRead p tenant id x | disapproveRead p tenant id x =>
    simp only [swapStep] at h
    split at h
    · rename_i swap hp hck
      cases h
      exact .loads hn (swapDecisionCheck_ok hck) rfl rfl
    · cases h
  | acceptResolve p =>
    simp only [swapStep] at h
    split at h
    · rename_i swap hp
      obtain ⟨db, hdb, rfl⟩ := toOption_map_eq_some h
      exact .write (by rw [hp]; rfl) (.inr rfl) (.resolve hdb)
    · cases h
  | validated p sides =>
    simp only [swapStep] at h
    split at h
    · split at h
      · rename_i hrow
        cases h
        exact .loads hn hrow rfl rfl
      · rename_i hrow
        cases h
        exact .loads hn hrow rfl rfl
      · cases h
    · cases h
  | decideWrite p auto =>
    simp only [swapStep] at h
    split at h
    · rename_i swap a b hp
      obtain ⟨db, hdb, rfl⟩ := toOption_map_eq_some h
      exact .finishes (by rw [hp]; rfl) (.decide hdb)
    · cases h
  | rejectWrite p | failWrite p =>
    simp only [swapStep] at h
    split at h
    · rename_i swap hp
      cases h
      have hl : (s.calls p).loaded = some swap := by rw [hp]; rfl
      simp only [SwapState.saved, hp]
      exact .finishes hl (.reject rfl rfl)
    · cases h
  | disapproveWrite p =>
    simp only [swapStep] at h
    split at h
    · rename_i swap reason hp
      cases h
      have hl : (s.calls p).loaded = some swap := by rw [hp]; rfl
      simp only [SwapState.saved, hp]
      exact .finishes hl (.reject rfl rfl)
    · cases h
  | approveWrite p =>
    simp only [swapStep] at h
    split at h
    · rename_i swap approver hp
      cases h
      simp only [SwapState.saved, hp]
      exact .finishes (by rw [hp]; rfl) (.approve approver)
    · cases h
  | abandon p =>
    cases h
    refine .load p fun swap hl => ?_
    cases hl

end Move

/-! ## The refinement -/

section Refinement

open SwapLedger SwapState

variable {s : SwapState} {db : SwapDb} {swap : SwapRequest}

theorem saveSwap_ledger (hsome : s.db.statusAt swap.id ≠ none) {swap' : SwapRequest}
    (hid : swap'.id = swap.id) (hst : swap'.status = .rejected) :
    ({ s with db := s.db.saveSwap swap' } : SwapState).ledger =
      s.ledger.decided swap.id .rejected := by
  simp only [SwapState.ledger]
  rw [statusAt_saveSwap (by rwa [hid]), hid, hst]
  rfl

theorem approveSwap_ledger (hsome : s.db.statusAt swap.id ≠ none) (approverId : ℕ) :
    ({ s with db := approveSwap s.db swap approverId } : SwapState).ledger =
      s.ledger.decided swap.id .accepted := by
  simp only [SwapState.ledger, approveSwap]
  rw [executions_recordSwapExecuted, statusAt_recordSwapExecuted,
    statusAt_saveSwap (by exact hsome)]
  rfl

theorem lockPending_ok (hn : (s.db.swaps.map (·.id)).Nodup) {guard : SwapRequest → Bool}
    {row : SwapRequest} (h : lockPending s.db swap guard = .ok row) :
    row.id = swap.id ∧ row.status = .pending ∧ s.db.statusAt swap.id = some .pending := by
  unfold lockPending at h
  split at h
  · cases h
  rename_i row' hrow
  split at h
  · rename_i hg
    cases h
    obtain ⟨hid, hat⟩ := statusAt_of_findSwap hn hrow
    exact ⟨hid, hg.1, by rw [hat, hg.1]⟩
  · cases h

theorem acceptResolve_ledger (hn : (s.db.swaps.map (·.id)).Nodup)
    (h : acceptResolve s.db swap = .ok db) : ({ s with db } : SwapState).ledger = s.ledger := by
  simp only [acceptResolve, bind, Except.bind] at h
  split at h
  · cases h
  rename_i row hrow
  cases h
  obtain ⟨hid, hst, hat⟩ := lockPending_ok hn hrow
  simp only [SwapState.ledger]
  rw [statusAt_saveSwap (by simp [hid, hat])]
  simp only [hid, hst]
  rw [← hat, update_eq_self]
  rfl

theorem acceptDecide_ledger (hn : (s.db.swaps.map (·.id)).Nodup) {a b : EligibilityResult}
    {auto : Bool} (h : acceptDecide s.db swap a b auto = .ok db) :
    SwapLedger.Step none s.ledger ({ s with db } : SwapState).ledger := by
  simp only [acceptDecide, bind, Except.bind] at h
  split at h
  · cases h
  rename_i row hrow
  cases h
  obtain ⟨hid, hst, hat⟩ := lockPending_ok hn hrow
  generalize nextStatus (bothEligible a b) auto swap = st
  generalize hrow' : ({ row with status := st, validationResult := _ } : SwapRequest) = row'
  have hid' : row'.id = swap.id := by rw [← hrow']; exact hid
  have hst' : row'.status = st := by rw [← hrow']
  have hstatus : (s.db.saveSwap row').statusAt = update s.db.statusAt swap.id (some st) := by
    rw [statusAt_saveSwap (by simp [hid', hat]), hid', hst']
  have hdb : ({ s with db := if st = .accepted then
        (s.db.saveSwap row').recordSwapExecuted swap none else s.db.saveSwap row' } :
      SwapState).ledger = s.ledger.decided swap.id st := by
    simp only [SwapState.ledger]
    split
    · rename_i hacc
      rw [executions_recordSwapExecuted, statusAt_recordSwapExecuted, hstatus]
      simp only [decided, if_pos hacc]
      rfl
    · rename_i hacc
      rw [hstatus]
      simp only [decided, if_neg hacc]
      rfl
  rw [hdb]
  exact .guarded st hat

theorem SwapWrite.ledger (hn : (s.db.swaps.map (·.id)).Nodup)
    (hsome : s.db.statusAt swap.id ≠ none) {saved : Option ℕ} (h : SwapWrite s.db swap saved db) :
    SwapLedger.Step saved s.ledger ({ s with db } : SwapState).ledger := by
  cases h with
  | resolve h =>
    rw [acceptResolve_ledger hn h]
    exact .skip
  | decide h => exact acceptDecide_ledger hn h
  | approve approverId =>
    rw [approveSwap_ledger hsome]
    exact .save (.inl rfl) hsome
  | reject hid hst =>
    rw [saveSwap_ledger hsome hid hst]
    exact .save (.inr rfl) hsome

theorem SwapMove.ledger (hw : s.WellFormed) {saved : Option ℕ} {t : SwapState}
    (h : SwapMove s saved t) : SwapLedger.Step saved s.ledger t.ledger := by
  cases h with
  | propose h =>
    rename_i id input db
    obtain ⟨hnone, hout, -, -, hstatus⟩ := proposeSwap_ok h
    have hledger : ({ s with db } : SwapState).ledger =
        { s.ledger with status := update s.ledger.status id (some .pending) } := by
      simp only [SwapState.ledger, hstatus, hout]
    rw [hledger]
    exact .propose hnone
  | load => exact .skip
  | write hl hc h => exact h.ledger hw.ids (hw.loaded _ _ hl)

/-- **Refinement**: a step of the calls is a step of the ledger, saving the same swap. -/
theorem swapStep_ledger (hw : s.WellFormed) {t : SwapState} {a : SwapAction}
    (h : swapStep s a = some t) : SwapLedger.Step (s.saved a) s.ledger t.ledger :=
  (swapStep_move hw.ids h).ledger hw

end Refinement

/-! ## The ids stay distinct, the loaded swaps keep their rows -/

section WellFormed

variable {s t : SwapState} {saved : Option ℕ}

theorem SwapWrite.ids {db db' : SwapDb} {swap : SwapRequest} (h : SwapWrite db swap saved db') :
    db'.swaps.map (·.id) = db.swaps.map (·.id) := by
  cases h with
  | resolve h =>
    simp only [acceptResolve, bind, Except.bind] at h
    split at h
    · cases h
    · cases h
      exact map_id_saveSwap _ _
  | decide h =>
    simp only [acceptDecide, bind, Except.bind] at h
    split at h
    · cases h
    · cases h
      split
      · exact map_id_saveSwap _ _
      · exact map_id_saveSwap _ _
  | approve | reject => exact map_id_saveSwap _ _

theorem SwapMove.ids (h : SwapMove s saved t) (hn : (s.db.swaps.map (·.id)).Nodup) :
    (t.db.swaps.map (·.id)).Nodup := by
  cases h with
  | propose h =>
    obtain ⟨-, -, hswaps, hfresh, -⟩ := proposeSwap_ok h
    rw [hswaps]
    exact nodup_append_singleton hn hfresh
  | load => exact hn
  | write hl hc h => exact h.ids.symm ▸ hn

/-- What a call has loaded after a step it had loaded before, or its row is there. -/
theorem SwapMove.loaded (h : SwapMove s saved t) {q : ℕ} {swap : SwapRequest}
    (hl : (t.calls q).loaded = some swap) :
    (s.calls q).loaded = some swap ∨ s.db.statusAt swap.id ≠ none := by
  cases h with
  | propose h => exact .inl hl
  | load p h =>
    simp only [SwapState.setCall] at hl
    split at hl
    · exact .inr (h swap hl)
    · exact .inl hl
  | @write p c swap₀ saved db hl₀ hc h =>
    simp only [SwapState.setCall] at hl
    split at hl
    · rename_i hq
      rcases hc with rfl | rfl
      · cases hl
      · cases hl
        exact .inl (hq ▸ hl₀)
    · exact .inl hl

end WellFormed

theorem swapStep_wellFormed {s t : SwapState} {a : SwapAction} (hw : s.WellFormed)
    (h : swapStep s a = some t) : t.WellFormed where
  ids := (swapStep_move hw.ids h).ids hw.ids
  loaded := by
    intro p swap hl
    have hsome : s.ledger.status swap.id ≠ none := by
      rcases (swapStep_move hw.ids h).loaded hl with hl' | hrow
      · exact hw.loaded p swap hl'
      · exact hrow
    exact (swapStep_ledger hw h).status_ne_none hsome

/-! ## Executed swaps -/

/-- A swap is executed at most once, and once executed it is not rejected. -/
def ExecutedStays (s : SwapState) : Prop :=
  (∀ id, s.db.executions id ≤ 1) ∧
    ∀ swap ∈ s.db.swaps, 0 < s.db.executions swap.id → swap.status ≠ .rejected

/-- The action does not save a loaded swap over an accepted row. -/
def NoSaveOnAccepted (s : SwapState) (a : SwapAction) : Prop :=
  ∀ id, s.saved a = some id → s.db.statusAt id ≠ some .accepted

instance (s : SwapState) (a : SwapAction) : Decidable (NoSaveOnAccepted s a) :=
  match h : s.saved a with
  | none => isTrue (by simp [NoSaveOnAccepted, h])
  | some id => decidable_of_iff (s.db.statusAt id ≠ some .accepted) (by simp [NoSaveOnAccepted, h])

/-- The invariant of the runs in which no save lands on an accepted swap. -/
structure SwapInvariant (s : SwapState) : Prop where
  wellFormed : s.WellFormed
  final : s.ledger.Final

theorem SwapInit.invariant {s : SwapState} (h : SwapInit s) : SwapInvariant s where
  wellFormed := by
    refine ⟨by simp [h.swaps], fun p swap hl => ?_⟩
    rw [h.calls p] at hl
    cases hl
  final := by
    intro id
    simp [SwapState.ledger, SwapDb.executions, SwapDb.statusAt, lookup, h.swaps, h.outbox]

namespace SwapInvariant

variable {s t : SwapState} {a : SwapAction}

theorem step (h : SwapInvariant s) (hok : NoSaveOnAccepted s a) (ha : swapStep s a = some t) :
    SwapInvariant t :=
  ⟨swapStep_wellFormed h.wellFormed ha, (swapStep_ledger h.wellFormed ha).final h.final hok⟩

theorem status_of_mem (h : SwapInvariant s) {swap : SwapRequest} (hm : swap ∈ s.db.swaps) :
    s.ledger.status swap.id = some swap.status := by
  simp only [SwapState.ledger, SwapDb.statusAt]
  rw [lookup_eq_some h.wellFormed.ids hm]
  rfl

theorem accepted (h : SwapInvariant s) {swap : SwapRequest} (hm : swap ∈ s.db.swaps)
    (he : 0 < s.db.executions swap.id) : swap.status = .accepted := by
  have hf : s.db.executions swap.id = _ := h.final swap.id
  rw [h.status_of_mem hm] at hf
  by_contra hne
  rw [if_neg (by simpa using hne)] at hf
  omega

theorem executions_le_one (h : SwapInvariant s) (id : ℕ) : s.db.executions id ≤ 1 := by
  have hf : s.db.executions id = _ := h.final id
  split at hf <;> omega

theorem executedStays (h : SwapInvariant s) : ExecutedStays s := by
  refine ⟨h.executions_le_one, fun swap hm he hrej => ?_⟩
  have hacc := h.accepted hm he
  rw [hrej] at hacc
  cases hacc

/-- A save over an accepted row executes the swap again, or leaves an executed swap rejected. -/
theorem save_breaks (h : SwapInvariant s) (ha : swapStep s a = some t)
    (hno : ¬ NoSaveOnAccepted s a) :
    ∃ id, t.db.executions id = 2 ∨
      t.db.executions id = 1 ∧ ∃ swap ∈ t.db.swaps, swap.id = id ∧ swap.status = .rejected := by
  simp only [NoSaveOnAccepted, not_forall, not_not] at hno
  obtain ⟨id, hsaved, hacc⟩ := hno
  have hstep := swapStep_ledger h.wellFormed ha
  rw [hsaved] at hstep
  refine ⟨id, ?_⟩
  rcases hstep.save_accepted h.final hacc with h2 | ⟨h1, hst⟩
  · exact .inl h2
  refine .inr ⟨h1, ?_⟩
  simp only [SwapState.ledger, SwapDb.statusAt, Option.map_eq_some_iff] at hst
  obtain ⟨row, hrow, hst⟩ := hst
  obtain ⟨hm, hid⟩ := mem_of_lookup hrow
  exact ⟨row, hm, hid, hst⟩

end SwapInvariant

/-- **Executed swaps stay executed exactly as long as no save lands on an accepted swap.** Along a
run from the empty tables, every swap is executed at most once and never rejected after it, if and
only if no call of the run saves the swap it had loaded over a row that is accepted by then. -/
theorem executed_swap_stays_iff {s t : SwapState} {as : List SwapAction} (h₀ : SwapInit s)
    (ht : exec swapStep s as = some t) :
    Always swapStep ExecutedStays s as ↔ Meets swapStep NoSaveOnAccepted s as := by
  refine always_iff_meets (fun _ hs => hs.executedStays) (fun _ _ _ hs hok ha => hs.step hok ha) ?_
    h₀.invariant ht
  rintro s a t hs hno ha ⟨hle, hrej⟩
  obtain ⟨id, h2 | ⟨h1, swap, hm, rfl, hst⟩⟩ := hs.save_breaks ha hno
  · have := hle id
    omega
  · exact hrej swap hm (by omega) hst

def noSwaps : SwapState := ⟨⟨[], []⟩, fun _ => .idle⟩

theorem swapInit_noSwaps : SwapInit noSwaps := ⟨rfl, rfl, fun _ => rfl⟩

/-- A swap proposed to employee 51, who accepts it; a supervisor has to approve. -/
def acceptedRun : List SwapAction :=
  [.propose 1 ⟨7, 50, 300, 2, some 51, some 301, some 2⟩, .acceptRead 0 ⟨7, 1, 51, none, none⟩,
    .acceptResolve 0, .validated 0 (some (⟨true, true, []⟩, ⟨true, true, []⟩)),
    .decideWrite 0 false, .approveRead 1 7 1 90, .approveWrite 1]

theorem executed_stays_on_acceptedRun : Always swapStep ExecutedStays noSwaps acceptedRun := by
  obtain ⟨t, ht, -⟩ : ∃ t, exec swapStep noSwaps acceptedRun = some t ∧ True :=
    exists_exec (by decide)
  exact (executed_swap_stays_iff swapInit_noSwaps ht).2 (by decide)

/-- The employee rejects the swap and, from another session, accepts it: the rejection has read the
swap as pending, the acceptance executes it, and then the rejection is saved. -/
def lateRejectionRun : List SwapAction :=
  [.propose 1 ⟨7, 50, 300, 2, some 51, some 301, some 2⟩, .rejectRead 1 7 1 51,
    .acceptRead 0 ⟨7, 1, 51, none, none⟩, .acceptResolve 0,
    .validated 0 (some (⟨true, true, []⟩, ⟨true, true, []⟩)), .decideWrite 0 true, .rejectWrite 1]

theorem late_rejection_undoes_executed_swap : SwapInit noSwaps ∧
    ∃ t, exec swapStep noSwaps lateRejectionRun = some t ∧ ¬ ExecutedStays t := by
  refine ⟨swapInit_noSwaps, ?_⟩
  obtain ⟨t, ht, swap, hm, he, hst⟩ : ∃ t, exec swapStep noSwaps lateRejectionRun = some t ∧
      ∃ swap ∈ t.db.swaps, 0 < t.db.executions swap.id ∧ swap.status = .rejected :=
    exists_exec (by decide)
  exact ⟨t, ht, fun h => h.2 swap hm he hst⟩

end Workforce.Marketplace
