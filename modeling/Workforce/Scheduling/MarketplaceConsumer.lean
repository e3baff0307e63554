import Workforce.Foundations.JsonText
import Workforce.Scheduling.Types

/-!
# The consumer of marketplace events

`app/nats/marketplace_consumer.py`: what becomes of one message. A message that can never be applied
is to be terminated and sent to the dead letters; one that failed for a passing reason is sent back
for redelivery. Which it is, is decided by the kind of exception the handler ends with.

The database and the two operations of `schedule_service` are an `Environment`: they may succeed or
raise whatever they like, at every delivery anew. The calls to the broker are the outcome, and are
taken to reach it.

* `poison_iff`: the messages that no environment can apply.
* `poison_terminated_iff`: when such a message is terminated.
-/

namespace Workforce.Scheduling.Consumer

open JsonText

/-! ## Exceptions -/

inductive PyException
  | domainError (message : String)
  | keyError (text : String)
  | valueError (text : String)
  | jsonDecodeError
  | unicodeDecodeError
  | typeError
  | recursionError
  /-- Any other, of the database or the network. -/
  | other (text : String)
  deriving DecidableEq

/-- `except (KeyError, ValueError)`: the two errors of decoding are subclasses of `ValueError`. -/
def PyException.isMalformed : PyException → Bool
  | keyError _ | valueError _ | jsonDecodeError | unicodeDecodeError => true
  | _ => false

/-- The exceptions after which the message is not sent back. -/
def PyException.isPermanent (e : PyException) : Bool :=
  match e with
  | domainError _ => true
  | e => e.isMalformed

/-! ## Messages -/

structure Message where
  subject : String
  data : List UInt8

def claimApprovedSubject : String := "agno.marketplace.claim.approved.v1"

def swapExecutedSubject : String := "agno.marketplace.swap.executed.v1"

/-- Why a message is terminated, with what the text of the reason shows. -/
inductive Reason
  | unparseable (e : PyException)
  | unrecognizedSubject (subject : String)
  | domain (message : String)
  | malformed (e : PyException)

/-- What is published to `agno.marketplace.dlq.v1`; the original payload is the text of these
bytes. -/
structure DlqPayload where
  originalSubject : String
  originalPayload : List UInt8
  reason : Reason

inductive Outcome
  | ack
  | nak
  /-- `term`, and the message is published to the dead letters. -/
  | terminated (dlq : DlqPayload)
  /-- The exception leaves `_handle_message`, and with it the loop of the consumer. -/
  | raised (e : PyException)

/-! ## Reading a payload -/

/-- `json.loads(msg.data.decode("utf-8"))`. -/
def loadPayload (limits : Limits) (data : List UInt8) : Except PyException Value :=
  match utf8Decode data with
  | none => .error .unicodeDecodeError
  | some text =>
    match loads limits text with
    | .ok payload => .ok payload
    | .error .decode => .error .jsonDecodeError
    | .error .digits => .error (.valueError "Exceeds the limit for integer string conversion")
    | .error .depth => .error .recursionError

/-- `text.replace("urn:", "")`. -/
def dropUrn : List Char → List Char
  | 'u' :: 'r' :: 'n' :: ':' :: cs => dropUrn cs
  | c :: cs => c :: dropUrn cs
  | [] => []

/-- `text.replace("uuid:", "")`. -/
def dropUuid : List Char → List Char
  | 'u' :: 'u' :: 'i' :: 'd' :: ':' :: cs => dropUuid cs
  | c :: cs => c :: dropUuid cs
  | [] => []

/-- `text.strip(chars)`. -/
def strip (p : Char → Bool) (text : List Char) : List Char :=
  ((text.dropWhile p).reverse.dropWhile p).reverse

/-- Hexadecimal digits, with single underscores between them. -/
def readHex (acc : ℕ) : List Char → Option ℕ
  | [] => some acc
  | '_' :: c :: cs => (hexValue c).bind fun d => readHex (acc * 16 + d) cs
  | c :: cs => (hexValue c).bind fun d => readHex (acc * 16 + d) cs

/-- The digits of `int(text, 16)`, where the first character is a digit. -/
def readHexDigits : List Char → Option ℕ
  | [] => none
  | c :: cs => (hexValue c).bind fun d => readHex d cs

/-- `int(text, 16)`, of a text without a minus: white space around it, a sign, a prefix of the base
and underscores are allowed. The digits and white space of other alphabets, which Python takes too,
are not. -/
def intOfHex (text : List Char) : Option ℕ :=
  let text := strip Char.isWhitespace text
  let text := match text with
    | '+' :: cs => cs
    | cs => cs
  match text with
  | '0' :: 'x' :: '_' :: cs => readHexDigits cs
  | '0' :: 'X' :: '_' :: cs => readHexDigits cs
  | '0' :: 'x' :: cs => readHexDigits cs
  | '0' :: 'X' :: cs => readHexDigits cs
  | cs => readHexDigits cs

/-- `uuid.UUID(text)`. -/
def uuidUUID (text : String) : Except PyException UUID :=
  let hex := (strip (fun c => c = '\x7b' || c = '\x7d') (dropUuid (dropUrn text.toList))).filter
    (· ≠ '-')
  if hex.length ≠ 32 then .error (.valueError "badly formed hexadecimal UUID string")
  else
    match intOfHex hex with
    | some n => .ok (.ofNat 128 n)
    | none => .error (.valueError "invalid literal for int() with base 16")

/-- `payload[key]`: only dictionaries take a key. -/
def getItem (payload : Value) (key : String) : Except PyException Value :=
  match payload with
  | .dict fields =>
    match fields.lookup key with
    | some value => .ok value
    | none => .error (.keyError key)
  | _ => .error .typeError

/-- `type(value).__name__`. -/
def typeName : Value → String
  | .null => "NoneType"
  | .bool _ => "bool"
  | .number text => if text.toList.all fun c => isDigit c || c = '-' then "int" else "float"
  | .str _ => "str"
  | .list _ => "list"
  | .dict _ => "dict"

/-- `_require_uuid`. -/
def requireUuid (payload : Value) (key : String) : Except PyException UUID := do
  match ← getItem payload key with
  | .str text => uuidUUID text
  | value => throw (.keyError ("'" ++ key ++ "' must be a string, got " ++ typeName value))

inductive ClaimSource
  | openShiftClaim | bid

/-- `_require_source`. It is called with dictionaries only: the tenant is read before it. -/
def requireSource (payload : Value) : Except PyException ClaimSource :=
  match payload with
  | .dict fields =>
    match fields.lookup "source" with
    | none => .ok .openShiftClaim
    | some (.str "open_shift_claim") => .ok .openShiftClaim
    | some (.str "bid") => .ok .bid
    | some _ => .error (.valueError "source must be 'open_shift_claim' or 'bid'")
  | _ => .error (.other "no attribute 'get'")

/-! ## Handling a message -/

/-- What the database and `schedule_service` do while a message is handled. -/
structure Environment where
  /-- Entering `tenant_scoped_session`, which runs a first statement. -/
  enter : Except PyException Unit
  commit : Except PyException Unit
  rollback : Except PyException Unit
  applyMarketplaceClaim :
    (tenantId shiftAssignmentId newEmployeeId : UUID) → ClaimSource → Except PyException Unit
  applyMarketplaceSwap :
    (tenantId initiatorShiftId initiatorEmployeeId targetShiftId targetEmployeeId : UUID) →
      Except PyException Unit

/-- `async with tenant_scoped_session(context)`: commits after the body, or rolls back what it did
and passes its exception on. -/
def Environment.session (env : Environment) (body : Except PyException Unit) :
    Except PyException Unit := do
  env.enter
  match body with
  | .ok () => env.commit
  | .error e =>
    env.rollback
    throw e

/-- `_apply_claim_approved`. -/
def applyClaimApproved (env : Environment) (payload : Value) : Except PyException Unit := do
  let tenantId ← requireUuid payload "tenantId"
  let source ← requireSource payload
  env.session do
    let shiftAssignmentId ← requireUuid payload "shiftAssignmentId"
    let newEmployeeId ← requireUuid payload "claimantEmployeeId"
    env.applyMarketplaceClaim tenantId shiftAssignmentId newEmployeeId source

/-- `_apply_swap_executed`. -/
def applySwapExecuted (env : Environment) (payload : Value) : Except PyException Unit := do
  let tenantId ← requireUuid payload "tenantId"
  env.session do
    let initiatorShiftId ← requireUuid payload "initiatorShiftId"
    let initiatorEmployeeId ← requireUuid payload "initiatorEmployeeId"
    let targetShiftId ← requireUuid payload "targetShiftId"
    let targetEmployeeId ← requireUuid payload "targetEmployeeId"
    env.applyMarketplaceSwap tenantId initiatorShiftId initiatorEmployeeId targetShiftId
      targetEmployeeId

/-- `_terminate_to_dlq`. -/
def terminateToDlq (msg : Message) (reason : Reason) : Outcome :=
  .terminated ⟨msg.subject, msg.data, reason⟩

/-- The second `try` of `_handle_message`. -/
def conclude (msg : Message) : Except PyException Unit → Outcome
  | .ok () => .ack
  | .error (.domainError message) => terminateToDlq msg (.domain message)
  | .error e => if e.isMalformed then terminateToDlq msg (.malformed e) else .nak

/-- `_handle_message`. -/
def handleMessage (limits : Limits) (env : Environment) (msg : Message) : Outcome :=
  match loadPayload limits msg.data with
  | .error .jsonDecodeError => terminateToDlq msg (.unparseable .jsonDecodeError)
  | .error .unicodeDecodeError => terminateToDlq msg (.unparseable .unicodeDecodeError)
  | .error e => .raised e
  | .ok payload =>
    if msg.subject = claimApprovedSubject then conclude msg (applyClaimApproved env payload)
    else if msg.subject = swapExecutedSubject then conclude msg (applySwapExecuted env payload)
    else terminateToDlq msg (.unrecognizedSubject msg.subject)

/-! ## What an exception leads to -/

variable {limits : Limits} {env : Environment} {msg : Message} {payload : Value}

/-- The message is terminated and published to the dead letters. -/
def Terminated (msg : Message) (outcome : Outcome) : Prop :=
  ∃ reason, outcome = terminateToDlq msg reason

theorem isPermanent_of_isMalformed {e : PyException} (h : e.isMalformed = true) :
    e.isPermanent = true := by
  cases e <;> first | rfl | cases h

theorem conclude_eq_ack_iff {x : Except PyException Unit} :
    conclude msg x = .ack ↔ x = .ok () := by
  cases x with
  | ok u => exact iff_of_true rfl rfl
  | error e => cases e <;> simp [conclude, PyException.isMalformed, terminateToDlq]

theorem terminated_conclude_iff {x : Except PyException Unit} :
    Terminated msg (conclude msg x) ↔ ∃ e, x = .error e ∧ e.isPermanent = true := by
  cases x with
  | ok u =>
    constructor
    · rintro ⟨reason, h⟩
      cases h
    · rintro ⟨e, h, -⟩
      cases h
  | error e =>
    have hiff : Terminated msg (conclude msg (.error e)) ↔ e.isPermanent = true := by
      cases e <;> simp [Terminated, conclude, PyException.isPermanent, PyException.isMalformed,
        terminateToDlq]
    simpa using hiff

/-- A session that the body leaves with a permanent exception passes that on, or fails itself with
one: it opens, and it rolls back, unless the exception is permanent too. -/
def Environment.SessionPasses (env : Environment) : Prop :=
  (∀ e, env.enter = .error e → e.isPermanent = true) ∧
    (env.enter = .ok () → ∀ e, env.rollback = .error e → e.isPermanent = true)

theorem session_error_iff {e : PyException} (he : e.isPermanent = true) :
    (∃ e', env.session (.error e) = .error e' ∧ e'.isPermanent = true) ↔ env.SessionPasses := by
  unfold Environment.session Environment.SessionPasses
  cases henter : env.enter with
  | error e' => simp [bind, Except.bind]
  | ok u =>
    cases hrollback : env.rollback with
    | error e' => simp [bind, Except.bind]
    | ok u => simp [bind, Except.bind, throw, throwThe, MonadExceptOf.throw, he]

/-- A dictionary, which is what the handlers read. -/
def IsDict : Value → Prop
  | .dict _ => True
  | _ => False

theorem uuidUUID_error {text : String} {e : PyException} (h : uuidUUID text = .error e) :
    e.isMalformed = true := by
  unfold uuidUUID at h
  simp only at h
  split at h
  · obtain rfl := Except.error.inj h
    rfl
  · split at h
    · cases h
    · obtain rfl := Except.error.inj h
      rfl

theorem requireUuid_error (hdict : IsDict payload) {key : String} {e : PyException}
    (h : requireUuid payload key = .error e) : e.isMalformed = true := by
  cases payload with
  | dict fields =>
    simp only [requireUuid, getItem, bind, Except.bind] at h
    cases hlookup : fields.lookup key with
    | none =>
      simp only [hlookup] at h
      obtain rfl := Except.error.inj h
      rfl
    | some value =>
      simp only [hlookup] at h
      cases value with
      | str text => exact uuidUUID_error h
      | null | bool _ | number _ | list _ | dict _ =>
        obtain rfl := Except.error.inj h
        rfl
  | null | bool _ | number _ | str _ | list _ => exact hdict.elim

theorem requireUuid_not_dict (hdict : ¬ IsDict payload) (key : String) :
    requireUuid payload key = .error .typeError := by
  cases payload with
  | dict fields => exact absurd trivial hdict
  | null | bool _ | number _ | str _ | list _ => rfl

theorem requireSource_error (hdict : IsDict payload) {e : PyException}
    (h : requireSource payload = .error e) : e.isMalformed = true := by
  cases payload with
  | dict fields =>
    unfold requireSource at h
    simp only at h
    split at h
    · cases h
    · cases h
    · cases h
    · obtain rfl := Except.error.inj h
      rfl
  | null | bool _ | number _ | str _ | list _ => exact hdict.elim

/-! ## Reading all fields -/

/-- The keys of the fields, besides the tenant, that have to be UUIDs; they are read in the
session. -/
def bodyKeys (subject : String) : List String :=
  if subject = claimApprovedSubject then ["shiftAssignmentId", "claimantEmployeeId"]
  else ["initiatorShiftId", "initiatorEmployeeId", "targetShiftId", "targetEmployeeId"]

/-- What is read before the session is entered can be read. -/
def HeadReadable (subject : String) (payload : Value) : Prop :=
  (requireUuid payload "tenantId").isOk = true ∧
    (subject = claimApprovedSubject → (requireSource payload).isOk = true)

/-- Everything can be read. -/
def Readable (subject : String) (payload : Value) : Prop :=
  HeadReadable subject payload ∧ ∀ key ∈ bodyKeys subject, (requireUuid payload key).isOk = true

/-- The subject has a handler. -/
def Handled (subject : String) : Prop :=
  subject = claimApprovedSubject ∨ subject = swapExecutedSubject

/-- The handler of the subject. -/
def applyEvent (env : Environment) (subject : String) (payload : Value) :
    Except PyException Unit :=
  if subject = claimApprovedSubject then applyClaimApproved env payload
  else applySwapExecuted env payload

theorem handleMessage_of_handled (h : Handled msg.subject)
    (hload : loadPayload limits msg.data = .ok payload) :
    handleMessage limits env msg = conclude msg (applyEvent env msg.subject payload) := by
  unfold handleMessage applyEvent
  rw [hload]
  by_cases hclaim : msg.subject = claimApprovedSubject
  · simp only [if_pos hclaim]
  · simp only [if_neg hclaim, if_pos (h.resolve_left hclaim)]

theorem handleMessage_of_not_handled (h : ¬ Handled msg.subject)
    (hload : loadPayload limits msg.data = .ok payload) :
    handleMessage limits env msg = terminateToDlq msg (.unrecognizedSubject msg.subject) := by
  obtain ⟨hclaim, hswap⟩ := not_or.1 h
  unfold handleMessage
  rw [hload]
  simp only [if_neg hclaim, if_neg hswap]

theorem handleMessage_of_error {e : PyException}
    (hload : loadPayload limits msg.data = .error e) :
    handleMessage limits env msg =
      if e = .jsonDecodeError ∨ e = .unicodeDecodeError then terminateToDlq msg (.unparseable e)
      else .raised e := by
  unfold handleMessage
  rw [hload]
  cases e <;> simp

/-- Without a dictionary the handler ends with a `TypeError`. -/
theorem applyEvent_not_dict (hdict : ¬ IsDict payload) (subject : String) :
    applyEvent env subject payload = .error .typeError := by
  have htenant := requireUuid_not_dict hdict "tenantId"
  unfold applyEvent applyClaimApproved applySwapExecuted
  simp [htenant, bind, Except.bind]

theorem exists_of_isOk {α : Type*} {x : Except PyException α} (h : x.isOk = true) :
    ∃ a, x = .ok a := by
  cases x with
  | ok a => exact ⟨a, rfl⟩
  | error e => cases h

theorem exists_of_not_isOk {α : Type*} {x : Except PyException α} (h : ¬ x.isOk = true) :
    ∃ e, x = .error e := by
  cases x with
  | ok a => exact absurd rfl h
  | error e => exact ⟨e, rfl⟩

/-- What the handler does before the session ends it, when something there cannot be read. -/
theorem applyEvent_head_error (hdict : IsDict payload) {subject : String}
    (h : ¬ HeadReadable subject payload) :
    ∃ e, applyEvent env subject payload = .error e ∧ e.isMalformed = true := by
  unfold applyEvent applyClaimApproved applySwapExecuted
  cases htenant : requireUuid payload "tenantId" with
  | error e => exact ⟨e, by simp [bind, Except.bind], requireUuid_error hdict htenant⟩
  | ok tenantId =>
    have hclaim : subject = claimApprovedSubject := by
      by_contra hne
      exact h ⟨by rw [htenant]; rfl, fun heq => absurd heq hne⟩
    obtain ⟨e, he⟩ := exists_of_not_isOk fun hok => h ⟨by rw [htenant]; rfl, fun _ => hok⟩
    refine ⟨e, ?_, requireSource_error hdict he⟩
    simp [hclaim, he, bind, Except.bind]

theorem exists_error_of_read (hdict : IsDict payload) {key : String}
    {f : UUID → Except PyException Unit}
    (h : ∀ id, requireUuid payload key = .ok id → ∃ e, f id = .error e ∧ e.isMalformed = true) :
    ∃ e, (requireUuid payload key >>= f) = .error e ∧ e.isMalformed = true := by
  cases hread : requireUuid payload key with
  | error e => exact ⟨e, rfl, requireUuid_error hdict hread⟩
  | ok id => exact h id hread

/-- In the session, a field that cannot be read ends the body before `schedule_service` is
called. -/
theorem applyEvent_body_error (hdict : IsDict payload) {subject : String}
    (hhead : HeadReadable subject payload) (h : ¬ Readable subject payload) :
    ∃ e, applyEvent env subject payload = env.session (.error e) ∧ e.isMalformed = true := by
  obtain ⟨tenantId, htenant⟩ := exists_of_isOk hhead.1
  have hkeys : ¬ ∀ key ∈ bodyKeys subject, (requireUuid payload key).isOk = true :=
    fun hall => h ⟨hhead, hall⟩
  unfold applyEvent
  by_cases hclaim : subject = claimApprovedSubject
  · obtain ⟨source, hsource⟩ := exists_of_isOk (hhead.2 hclaim)
    rw [bodyKeys, if_pos hclaim] at hkeys
    have hbody : ∃ e, (do
        let shiftAssignmentId ← requireUuid payload "shiftAssignmentId"
        let newEmployeeId ← requireUuid payload "claimantEmployeeId"
        env.applyMarketplaceClaim tenantId shiftAssignmentId newEmployeeId source) = .error e ∧
          e.isMalformed = true := by
      refine exists_error_of_read hdict fun _ hshift => ?_
      refine exists_error_of_read hdict fun _ hclaimant => absurd ?_ hkeys
      simp [hshift, hclaimant, Except.isOk, Except.toBool]
    obtain ⟨e, he, hmalformed⟩ := hbody
    refine ⟨e, ?_, hmalformed⟩
    rw [if_pos hclaim, applyClaimApproved, htenant, hsource, ← he]
    rfl
  · rw [bodyKeys, if_neg hclaim] at hkeys
    have hbody : ∃ e, (do
        let initiatorShiftId ← requireUuid payload "initiatorShiftId"
        let initiatorEmployeeId ← requireUuid payload "initiatorEmployeeId"
        let targetShiftId ← requireUuid payload "targetShiftId"
        let targetEmployeeId ← requireUuid payload "targetEmployeeId"
        env.applyMarketplaceSwap tenantId initiatorShiftId initiatorEmployeeId targetShiftId
          targetEmployeeId) = .error e ∧ e.isMalformed = true := by
      refine exists_error_of_read hdict fun _ hshift => ?_
      refine exists_error_of_read hdict fun _ hemployee => ?_
      refine exists_error_of_read hdict fun _ htarget => ?_
      refine exists_error_of_read hdict fun _ hother => absurd ?_ hkeys
      simp [hshift, hemployee, htarget, hother, Except.isOk, Except.toBool]
    obtain ⟨e, he, hmalformed⟩ := hbody
    refine ⟨e, ?_, hmalformed⟩
    rw [if_neg hclaim, applySwapExecuted, htenant, ← he]
    rfl

/-! ## Poison -/

/-- No environment makes the handler succeed, so no redelivery can. -/
def Poison (limits : Limits) (msg : Message) : Prop :=
  ∀ env, handleMessage limits env msg ≠ .ack

/-- An environment in which everything succeeds. -/
def Environment.willing : Environment where
  enter := .ok ()
  commit := .ok ()
  rollback := .ok ()
  applyMarketplaceClaim := fun _ _ _ _ => .ok ()
  applyMarketplaceSwap := fun _ _ _ _ _ => .ok ()

theorem applyEvent_willing {subject : String} (h : Readable subject payload) :
    applyEvent .willing subject payload = .ok () := by
  obtain ⟨hhead, hkeys⟩ := h
  obtain ⟨tenantId, htenant⟩ := exists_of_isOk hhead.1
  unfold applyEvent
  by_cases hclaim : subject = claimApprovedSubject
  · obtain ⟨source, hsource⟩ := exists_of_isOk (hhead.2 hclaim)
    rw [bodyKeys, if_pos hclaim] at hkeys
    obtain ⟨_, hshift⟩ := exists_of_isOk (hkeys "shiftAssignmentId" (by simp))
    obtain ⟨_, hclaimant⟩ := exists_of_isOk (hkeys "claimantEmployeeId" (by simp))
    rw [if_pos hclaim, applyClaimApproved, htenant, hsource, hshift, hclaimant]
    rfl
  · rw [bodyKeys, if_neg hclaim] at hkeys
    obtain ⟨_, hshift⟩ := exists_of_isOk (hkeys "initiatorShiftId" (by simp))
    obtain ⟨_, hemployee⟩ := exists_of_isOk (hkeys "initiatorEmployeeId" (by simp))
    obtain ⟨_, htarget⟩ := exists_of_isOk (hkeys "targetShiftId" (by simp))
    obtain ⟨_, hother⟩ := exists_of_isOk (hkeys "targetEmployeeId" (by simp))
    rw [if_neg hclaim, applySwapExecuted, htenant, hshift, hemployee, htarget, hother]
    rfl

/-- A payload that is no dictionary or lacks a field is poison, whatever the environment does. -/
theorem applyEvent_ne_ok {subject : String} (h : ¬ Readable subject payload) :
    applyEvent env subject payload ≠ .ok () := by
  by_cases hdict : IsDict payload
  · by_cases hhead : HeadReadable subject payload
    · obtain ⟨e, heq, -⟩ := @applyEvent_body_error env payload hdict subject hhead h
      rw [heq, Environment.session]
      cases env.enter with
      | error e' => simp [bind, Except.bind]
      | ok u =>
        cases env.rollback with
        | error e' => simp [bind, Except.bind]
        | ok u => simp [bind, Except.bind, throw, throwThe, MonadExceptOf.throw]
    · obtain ⟨e, heq, -⟩ := @applyEvent_head_error env payload hdict subject hhead
      rw [heq]
      simp
  · rw [applyEvent_not_dict hdict]
    simp

/-- **The poison messages**: those that cannot be loaded, have no handler or lack a field. -/
theorem poison_iff : Poison limits msg ↔ ¬ ∃ payload,
    loadPayload limits msg.data = .ok payload ∧ Handled msg.subject ∧
      Readable msg.subject payload := by
  constructor
  · rintro hpoison ⟨payload, hload, hhandled, hread⟩
    refine hpoison .willing ?_
    rw [handleMessage_of_handled hhandled hload, applyEvent_willing hread]
    rfl
  · intro hnone env
    cases hload : loadPayload limits msg.data with
    | error e =>
      rw [handleMessage_of_error hload]
      split <;> simp [terminateToDlq]
    | ok payload =>
      by_cases hhandled : Handled msg.subject
      · rw [handleMessage_of_handled hhandled hload, Ne, conclude_eq_ack_iff]
        exact applyEvent_ne_ok fun hread => hnone ⟨payload, hload, hhandled, hread⟩
      · rw [handleMessage_of_not_handled hhandled hload]
        simp [terminateToDlq]

/-- The messages that are recognized as poison: the text is no JSON; nobody handles the subject; or
the payload is a dictionary, and what is read before the session is malformed already or the session
passes on what is read in it. -/
def Recognized (limits : Limits) (env : Environment) (msg : Message) : Prop :=
  loadPayload limits msg.data = .error .jsonDecodeError ∨
    loadPayload limits msg.data = .error .unicodeDecodeError ∨
    ∃ payload, loadPayload limits msg.data = .ok payload ∧
      (Handled msg.subject → IsDict payload ∧
        (HeadReadable msg.subject payload → env.SessionPasses))

/-- **When a poison message is terminated.** A message that no environment can apply is terminated
and published to the dead letters, at a delivery, exactly when it is recognized there: a payload
that is JSON but no dictionary is not, nor one beyond the limits of the reader, nor a field that is
read in the session while the database does not answer. -/
theorem poison_terminated_iff (h : Poison limits msg) (env : Environment) :
    Terminated msg (handleMessage limits env msg) ↔ Recognized limits env msg := by
  cases hload : loadPayload limits msg.data with
  | error e =>
    rw [handleMessage_of_error hload]
    simp only [Recognized, hload, Except.error.injEq, reduceCtorEq, false_and, exists_false,
      or_false]
    split
    · rename_i he
      simp [he, Terminated]
    · rename_i he
      rw [not_or] at he
      simp [he, Terminated, terminateToDlq]
  | ok payload =>
    simp only [Recognized, hload, Except.ok.injEq, reduceCtorEq, false_or, exists_eq_left']
    by_cases hhandled : Handled msg.subject
    · have hread : ¬ Readable msg.subject payload :=
        fun hread => poison_iff.1 h ⟨payload, hload, hhandled, hread⟩
      rw [handleMessage_of_handled hhandled hload, terminated_conclude_iff,
        imp_iff_right hhandled]
      by_cases hdict : IsDict payload
      · rw [and_iff_right hdict]
        by_cases hhead : HeadReadable msg.subject payload
        · obtain ⟨e, heq, he⟩ := @applyEvent_body_error env payload hdict msg.subject hhead hread
          rw [heq, imp_iff_right hhead]
          exact session_error_iff (isPermanent_of_isMalformed he)
        · obtain ⟨e, heq, he⟩ := @applyEvent_head_error env payload hdict msg.subject hhead
          exact iff_of_true ⟨e, heq, isPermanent_of_isMalformed he⟩ fun h => absurd h hhead
      · rw [applyEvent_not_dict hdict]
        refine iff_of_false ?_ fun h => hdict h.1
        rintro ⟨e, heq, he⟩
        obtain rfl := Except.error.inj heq
        cases he
    · rw [handleMessage_of_not_handled hhandled hload]
      exact iff_of_true ⟨_, rfl⟩ fun h => absurd h hhandled

/-! ### An empty list -/

/-- The limits of the interpreter. -/
def defaultLimits : Limits := ⟨4300, 1000⟩

/-- `[]`, as an approved claim. -/
def emptyList : Message := ⟨claimApprovedSubject, [0x5b, 0x5d]⟩

/-- `[]` can never be applied, and is sent back at every delivery. -/
theorem emptyList_sent_back : Poison defaultLimits emptyList ∧
    (∀ env, handleMessage defaultLimits env emptyList = .nak) ∧
      ¬ Terminated emptyList (handleMessage defaultLimits .willing emptyList) := by
  have hload : loadPayload defaultLimits emptyList.data = .ok (.list []) := rfl
  have hnak : ∀ env, handleMessage defaultLimits env emptyList = .nak := by
    intro env
    rw [handleMessage_of_handled (.inl rfl) hload, applyEvent_not_dict id]
    rfl
  refine ⟨fun env => ?_, hnak, ?_⟩
  · rw [hnak]
    simp
  · rintro ⟨reason, h⟩
    rw [hnak] at h
    cases h

/-- A claim without fields. -/
def noFields : Message := ⟨claimApprovedSubject, [0x7b, 0x7d]⟩

/-- A dictionary without a tenant is terminated, even while the database does not answer. -/
theorem noFields_terminated : Poison defaultLimits noFields ∧
    Terminated noFields (handleMessage defaultLimits
      { Environment.willing with enter := .error (.other "connection refused") } noFields) := by
  have hload : loadPayload defaultLimits noFields.data = .ok (.dict []) := rfl
  have hhead : ¬ HeadReadable claimApprovedSubject (.dict []) := by
    rintro ⟨htenant, -⟩
    cases htenant
  have hpoison : Poison defaultLimits noFields := by
    rw [poison_iff]
    rintro ⟨payload, hpayload, -, hread, -⟩
    obtain rfl := Except.ok.inj (hload.symm.trans hpayload)
    exact hhead hread
  refine ⟨hpoison, (poison_terminated_iff hpoison _).2 (.inr (.inr ⟨_, hload, fun _ => ?_⟩))⟩
  exact ⟨trivial, fun h => absurd h hhead⟩

end Workforce.Scheduling.Consumer
