import Workforce.Integration.FrameBounds
import Mathlib.Algebra.Order.BigOperators.Group.List
import Mathlib.Data.Nat.Digits.Defs

/-!
# The handover from bootstrap to streaming

`avaya-aura.adapter.ts`: a connection begins with requests, each of which waits for its response
among the frames of a reader; then the handlers of the connection are attached, with a new reader,
and the frames of events are handled. One call of `onData` is one chunk of the socket.

* `Session.onData`: what a chunk does, while a response is awaited and afterwards.
* `handover_iff`: exactly when every event after the last response is handled, once and in order.
-/

namespace Workforce.Integration.Csta

open Framing Runs List

/-! ## Requests -/

/-- A text of the source. -/
def ofText (text : String) : JsString := text.toList.map fun c => UInt16.ofNat c.toNat

/-- `CSTA_EVENT_INVOKE_ID`. -/
def cstaEventInvokeId : JsString := ofText "9999"

/-- `CstaInvokeIdGenerator`. -/
structure CstaInvokeIdGenerator where
  next : ℕ
  pos : 0 < next
  le : next ≤ 9998

namespace CstaInvokeIdGenerator

def new : CstaInvokeIdGenerator := ⟨1, Nat.one_pos, by decide⟩

/-- The decimal number, padded with zeros, and the generator after it. -/
def generate (g : CstaInvokeIdGenerator) : JsString × CstaInvokeIdGenerator :=
  (leftpad invokeIdLength (UInt16.ofNat '0'.toNat)
      ((Nat.toDigits 10 g.next).map fun c => UInt16.ofNat c.toNat),
    if h : 9998 ≤ g.next then new else ⟨g.next + 1, Nat.succ_pos _, by omega⟩)

/-- The next `n` ids. -/
def ids (g : CstaInvokeIdGenerator) : ℕ → List JsString
  | 0 => []
  | n + 1 => g.generate.1 :: g.generate.2.ids n

end CstaInvokeIdGenerator

def cstaNamespace : String := "http://www.ecma-international.org/standards/ecma-323/csta/ed6"

/-- `toString('hex')`. -/
def toHex (bytes : List UInt8) : JsString :=
  bytes.flatMap fun b => [b.toNat / 16, b.toNat % 16].map fun d => UInt16.ofNat d.digitChar.toNat

/-- `securityToken`: the bytes of the token in UTF-8, which are none when there is no token. -/
def buildRequestSystemStatusXml (securityToken : List UInt8) : JsString :=
  let security :=
    if securityToken = [] then []
    else ofText "<extensions><security>" ++ toHex securityToken ++
      ofText "</security></extensions>"
  ofText "<?xml version=\"1.0\" encoding=\"UTF-8\"?><RequestSystemStatus xmlns=\"" ++
    ofText cstaNamespace ++ ofText "\">" ++ security ++ ofText "</RequestSystemStatus>"

def buildMonitorStartXml (deviceId : JsString) : JsString :=
  ofText "<?xml version=\"1.0\" encoding=\"UTF-8\"?><MonitorStart xmlns=\"" ++
    ofText cstaNamespace ++ ofText "\"><monitorObject><deviceObject>" ++ deviceId ++
    ofText "</deviceObject></monitorObject></MonitorStart>"

/-- The requests of `openAndBootstrap`. -/
def bootstrapRequests (securityToken : List UInt8) (deviceIds : List JsString) : List JsString :=
  buildRequestSystemStatusXml securityToken :: deviceIds.map buildMonitorStartXml

/-! ## A connection -/

inductive ConnectError
  /-- `connector.config.monitoredDeviceIds` is required. -/
  | noDevices
  /-- A request does not fit a frame. -/
  | encode (error : EncodeError)
  /-- A response holds a CSTA fault. -/
  | fault (xml : JsString)

/-- What `connect` is waiting for. -/
inductive Phase
  /-- `sendRequest` awaits the response with an invoke id; the other requests are still to be
  sent. -/
  | requesting (invokeId : JsString) (requests : List JsString)
  /-- `attachHandlers` has been called. -/
  | streaming
  /-- The socket is destroyed. -/
  | failed (error : ConnectError)

structure Session where
  reader : CstaFrameReader
  invokeIds : CstaInvokeIdGenerator
  phase : Phase
  /-- What was written to the socket. -/
  written : List (List UInt8)
  eventSequence : ℕ
  /-- The calls of `handleEventFrame`, with the sequence number. -/
  handled : List (CstaFrame × ℕ)

namespace Session

/-- The next request is sent; when there is none the handlers are attached, with a new reader. -/
def sendNext (s : Session) : List JsString → Session
  | [] => { s with phase := .streaming, reader := .new }
  | xmlBody :: requests =>
    let (invokeId, invokeIds) := s.invokeIds.generate
    match encodeCstaFrame invokeId xmlBody with
    | .error error => { s with invokeIds, phase := .failed (.encode error) }
    | .ok bytes =>
      { s with invokeIds, phase := .requesting invokeId requests, written := s.written ++ [bytes] }

/-- `handleEventFrame`, with the next number. -/
def handleEventFrame (s : Session) (frame : CstaFrame) : Session :=
  { s with
    eventSequence := s.eventSequence + 1
    handled := s.handled ++ [(frame, s.eventSequence + 1)] }

/-- `frame.xml.includes('CSTAErrorCode')`. -/
def isFault (frame : CstaFrame) : Bool := ofText "CSTAErrorCode" <:+: frame.xml

/-- A `data` event of the socket; `none` when the reader does not return. -/
def onData (s : Session) (chunk : List UInt8) : Option Session :=
  match s.phase with
  | .failed _ => some s
  | .requesting invokeId requests => do
    let (frames, reader) ← s.reader.push chunk
    match frames.find? (·.invokeId = invokeId) with
    | none => return { s with reader }
    | some frame =>
      -- the frames behind the response are lost
      if isFault frame then return { s with reader, phase := .failed (.fault frame.xml) }
      else return sendNext { s with reader } requests
  | .streaming => do
    let (frames, reader) ← s.reader.push chunk
    return (frames.filter (·.invokeId = cstaEventInvokeId)).foldl handleEventFrame
      { s with reader }

end Session

/-- A connection that has been opened and whose first request has been sent. -/
def connect (securityToken : List UInt8) (deviceIds : List JsString) : Session :=
  if deviceIds = [] then ⟨.new, .new, .failed .noDevices, [], 0, []⟩
  else Session.sendNext ⟨.new, .new, .streaming, [], 0, []⟩
    (bootstrapRequests securityToken deviceIds)

/-! ## What the server sends -/

/-- An event; its body is an XML document, which is not empty. -/
structure IsEvent (frame : CstaFrame) : Prop where
  encodable : frame.Encodable
  invokeId : frame.invokeId = cstaEventInvokeId
  xml : frame.xml ≠ []

/-- The events before a response, and the response. -/
structure Exchange where
  events : List CstaFrame
  response : CstaFrame

structure Exchange.Answers (x : Exchange) (invokeId : JsString) : Prop where
  events : ∀ f ∈ x.events, IsEvent f
  encodable : x.response.Encodable
  invokeId : x.response.invokeId = invokeId

def Exchange.frames (x : Exchange) : List CstaFrame := x.events ++ [x.response]

/-- The frames of a connection: a response to each request, in order, with events in between and
after. -/
structure Conversation (invokeIds : List JsString) where
  exchanges : List Exchange
  after : List CstaFrame
  answers : Forall₂ Exchange.Answers exchanges invokeIds
  isEvent : ∀ f ∈ after, IsEvent f

def Conversation.frames {invokeIds : List JsString} (c : Conversation invokeIds) :
    List CstaFrame :=
  c.exchanges.flatMap Exchange.frames ++ c.after

/-! ## Where the chunks end -/

/-- The number of bytes that some first chunks bring, after `received` others. -/
def IsCut (received : ℕ) (chunks : List (List UInt8)) (n : ℕ) : Prop :=
  ∃ k, received + (chunks.take k).flatten.length = n

/-- The positions at which responses end. -/
def responseEnds : ℕ → List Exchange → List ℕ
  | _, [] => []
  | start, x :: xs =>
    let finish := start + (x.frames.flatMap CstaFrame.bytes).length
    finish :: responseEnds finish xs

/-- A chunk ends between each response and the end of the next one, and one ends with the last
response. -/
def EndsWithLast (cut : ℕ → Prop) : List ℕ → Prop
  | [] => True
  | [last] => cut last
  | finish :: next :: ends =>
    (∃ c, cut c ∧ finish ≤ c ∧ c < next) ∧ EndsWithLast cut (next :: ends)

/-- A request fits a frame. -/
def Fits (xml : JsString) : Prop := framePrefixLength + invokeIdLength + xml.length < 2 ^ 16
  deriving Decidable

/-- All requests can be sent, none is refused, and the chunk of the last response brings nothing
more. -/
structure HandsOver (securityToken : List UInt8) (deviceIds : List JsString)
    (exchanges : List Exchange) (chunks : List (List UInt8)) : Prop where
  devices : deviceIds ≠ []
  fit : ∀ xml ∈ bootstrapRequests securityToken deviceIds, Fits xml
  positive : ∀ x ∈ exchanges, ¬ Session.isFault x.response
  endsWithLast : EndsWithLast (IsCut 0 chunks) (responseEnds 0 exchanges)

/-! ## Invoke ids -/

namespace CstaInvokeIdGenerator

theorem eq_nine_of_code {c : Char} (hdigit : c.isDigit)
    (hcode : UInt16.ofNat c.toNat = UInt16.ofNat '9'.toNat) : c = '9' := by
  have hle : c.toNat ≤ 57 := by
    simp only [Char.isDigit, Bool.and_eq_true, decide_eq_true_eq] at hdigit
    exact UInt32.le_iff_toNat_le.1 hdigit.2
  have hmod := congrArg UInt16.toNat hcode
  have hsmall : c.toNat % 2 ^ 16 = c.toNat := Nat.mod_eq_of_lt (by omega)
  rw [UInt16.toNat_ofNat', UInt16.toNat_ofNat', hsmall] at hmod
  exact Char.toNat_inj.1 hmod

theorem generate_ne_event (g : CstaInvokeIdGenerator) : g.generate.1 ≠ cstaEventInvokeId := by
  intro h
  have hevent : cstaEventInvokeId = replicate 4 (UInt16.ofNat '9'.toNat) := by decide
  rw [hevent, generate, leftpad] at h
  obtain ⟨hlength, hzeros, hdigits⟩ := append_eq_replicate_iff.1 h
  -- without zeros in front the digits are four nines
  have hnone : invokeIdLength -
      ((Nat.toDigits 10 g.next).map fun c => UInt16.ofNat c.toNat).length = 0 := by
    by_contra hpos
    have hzero := congrArg (·.head?) hzeros
    simp only [length_replicate, head?_replicate, if_neg hpos] at hzero
    exact absurd (Option.some.inj hzero) (by decide)
  have hnines : Nat.toDigits 10 g.next = replicate 4 '9' := by
    refine eq_replicate_iff.2 ⟨?_, fun c hc => ?_⟩
    · rw [length_replicate, hnone, Nat.zero_add, length_map] at hlength
      exact hlength
    · refine eq_nine_of_code (Nat.isDigit_of_mem_toDigits (by decide) (by decide) hc) ?_
      exact (eq_replicate_iff.1 hdigits).2 _
        (mem_map_of_mem (f := fun c : Char => UInt16.ofNat c.toNat) hc)
  have hvalue := congrArg (Nat.ofDigitChars 10 · 0) hnines
  simp only [Nat.ofDigitChars_ten_toDigits] at hvalue
  have hle := g.le
  rw [hvalue] at hle
  revert hle
  decide

theorem length_generate (g : CstaInvokeIdGenerator) : g.generate.1.length = invokeIdLength := by
  have hlength : (Nat.toDigits 10 g.next).length ≤ 4 :=
    Nat.toDigits_length 10 g.next 4 (by decide) (lt_of_le_of_lt g.le (by decide))
  simp only [generate, leftpad, length_append, length_replicate, length_map, invokeIdLength]
  omega

theorem length_ids (g : CstaInvokeIdGenerator) (n : ℕ) : (g.ids n).length = n := by
  induction n generalizing g with
  | zero => rfl
  | succ n ih => exact congrArg Nat.succ (ih _)

theorem ids_ne_event {g : CstaInvokeIdGenerator} {n : ℕ} : ∀ invokeId ∈ g.ids n,
    invokeId ≠ cstaEventInvokeId := by
  induction n generalizing g with
  | zero => exact nofun
  | succ n ih => exact forall_mem_cons.2 ⟨g.generate_ne_event, ih⟩

end CstaInvokeIdGenerator

/-! ## Streaming -/

/-- How much a frame carries at least, if it has a body. -/
def weight (f : CstaFrame) : ℕ := if f.xml = [] then 0 else f.bytes.length

variable {buffer : List UInt8}

theorem length_le_of_next {frame : Option CstaFrame} {n : ℕ} (h : next buffer = some (frame, n)) :
    n ≤ buffer.length :=
  (next_eq_some.1 h).2.1

theorem weight_le_of_next {f : CstaFrame} {n : ℕ} (h : next buffer = some (some f, n)) :
    weight f ≤ n := by
  obtain ⟨-, hle, -, ⟨-, hf⟩ | ⟨-, hf⟩⟩ := next_eq_some.1 h
  · cases hf
    rw [weight]
    split
    · exact Nat.zero_le n
    · rename_i hxml
      have hpos := length_pos_iff.2 hxml
      simp only [CstaFrame.length_bytes, ofAscii, length_map, length_drop,
        length_take, framePrefixLength, headerLength, lengthFieldLength,
        invokeIdLength] at hpos ⊢
      omega
  · cases hf

namespace Session

theorem foldl_handleEventFrame (s : Session) (events : List CstaFrame) :
    (events.foldl handleEventFrame s).reader = s.reader ∧
      (events.foldl handleEventFrame s).phase = s.phase ∧
      (events.foldl handleEventFrame s).handled.map Prod.fst =
        s.handled.map Prod.fst ++ events := by
  induction events generalizing s with
  | nil => exact ⟨rfl, rfl, (append_nil _).symm⟩
  | cons f events ih =>
    obtain ⟨hreader, hphase, hhandled⟩ := ih (s.handleEventFrame f)
    refine ⟨hreader, hphase, ?_⟩
    rw [foldl_cons, hhandled, handleEventFrame, map_append, append_assoc]
    rfl

theorem onData_streaming {s : Session} (hphase : s.phase = .streaming) (chunk : List UInt8) :
    s.onData chunk = (s.reader.push chunk).map fun (frames, reader) =>
      (frames.filter (·.invokeId = cstaEventInvokeId)).foldl handleEventFrame
        { s with reader } := by
  cases s
  subst hphase
  rw [onData]
  dsimp only
  cases CstaFrameReader.push _ chunk <;> rfl

/-- Once the handlers are attached, the events that the reader returns are handled. -/
theorem exec_streaming {s : Session} (hphase : s.phase = .streaming)
    (chunks : List (List UInt8)) :
    (exec onData s chunks).map (fun t => t.handled.map Prod.fst) =
      (pushAll next s.reader.buffer chunks).map fun (returned, _) => s.handled.map Prod.fst ++
        returned.flatten.filter (·.invokeId = cstaEventInvokeId) := by
  induction chunks generalizing s with
  | nil => simp [pushAll]
  | cons chunk chunks ih =>
    rw [exec_cons, onData_streaming hphase, CstaFrameReader.push, pushAll]
    cases drain next (s.reader.buffer ++ chunk) with
    | none => rfl
    | some result =>
      obtain ⟨frames, rest⟩ := result
      obtain ⟨hreader, hphase', hhandled⟩ := foldl_handleEventFrame { s with reader := ⟨rest⟩ }
        (frames.filter (·.invokeId = cstaEventInvokeId))
      simp only [Option.map_some, Option.bind_eq_bind, Option.bind_some, Option.pure_def]
      rw [ih (hphase'.trans hphase), hreader, hhandled]
      cases pushAll next rest chunks with
      | none => rfl
      | some pushed =>
        obtain ⟨more, last⟩ := pushed
        simp

/-- The handlers miss no event when they are attached where an event begins, and only then. -/
theorem streaming_iff {s : Session} (hphase : s.phase = .streaming) (hreader : s.reader = .new)
    (hhandled : s.handled = []) {after : List CstaFrame} (hafter : ∀ f ∈ after, IsEvent f)
    (missed : List UInt8) {chunks : List (List UInt8)}
    (hstream : missed ++ chunks.flatten = after.flatMap CstaFrame.bytes) :
    (∃ t, exec onData s chunks = some t ∧ t.handled.map Prod.fst = after) ↔ missed = [] := by
  have hexec := exec_streaming hphase chunks
  rw [hreader, hhandled, map_nil] at hexec
  simp only [CstaFrameReader.new, nil_append] at hexec
  have hevents : after.filter (·.invokeId = cstaEventInvokeId) = after :=
    filter_eq_self.2 fun f hf => decide_eq_true (hafter f hf).invokeId
  constructor
  · rintro ⟨t, ht, hall⟩
    rw [ht, Option.map_some, hall] at hexec
    obtain ⟨⟨returned, last⟩, hpush, hreturned⟩ := Option.map_eq_some_iff.1 hexec.symm
    have hweights : (after.map weight).sum ≤ (returned.flatten.map weight).sum := by
      rw [← hreturned]
      exact (filter_sublist.map _).sum_le_sum fun _ _ => Nat.zero_le _
    have hbytes : (after.map weight).sum = (after.flatMap CstaFrame.bytes).length := by
      rw [length_flatMap]
      exact congrArg _ (map_congr_left fun f hf => if_neg (hafter f hf).xml)
    have hbound := sum_pushAll_le length_le_of_next weight_le_of_next hpush
    have hlength := congrArg length hstream
    rw [length_append] at hlength
    rw [length_nil] at hbound
    exact length_eq_zero_iff.1 (by omega)
  · rintro rfl
    obtain ⟨returned, hpush, hreturned⟩ :=
      frames_next.pushAll_of_frames (fun f hf => (hafter f hf).encodable) hstream
    rw [hpush, Option.map_some, hreturned, hevents] at hexec
    obtain ⟨t, ht, hall⟩ := Option.map_eq_some_iff.1 hexec
    exact ⟨t, ht, hall⟩

end Session

/-! ## Requests and responses -/

variable {chunks : List (List UInt8)}

theorem isCut_cons {received n : ℕ} {chunk : List UInt8} (hn : received < n) :
    IsCut received (chunk :: chunks) n ↔
      IsCut (received + chunk.length) chunks n := by
  constructor
  · rintro ⟨k, hk⟩
    cases k with
    | zero =>
      rw [take_zero, flatten_nil, length_nil] at hk
      omega
    | succ k =>
      rw [take_succ_cons, flatten_cons, length_append, ← Nat.add_assoc] at hk
      exact ⟨k, hk⟩
  · rintro ⟨k, hk⟩
    refine ⟨k + 1, ?_⟩
    rw [take_succ_cons, flatten_cons, length_append, ← Nat.add_assoc, hk]

theorem le_of_isCut {received n : ℕ} (h : IsCut received chunks n) :
    received ≤ n := by
  obtain ⟨k, rfl⟩ := h
  exact Nat.le_add_right _ _

theorem endsWithLast_congr {cut cut' : ℕ → Prop} {ends : List ℕ}
    (h : ∀ e ∈ ends, ∀ n, e ≤ n → (cut n ↔ cut' n)) :
    EndsWithLast cut ends ↔ EndsWithLast cut' ends := by
  induction ends with
  | nil => rfl
  | cons e ends ih =>
    cases ends with
    | nil => exact h e mem_cons_self e le_rfl
    | cons e' ends =>
      rw [EndsWithLast, EndsWithLast, ih fun e'' he'' => h e'' (mem_cons_of_mem _ he'')]
      refine and_congr_left' (exists_congr fun n => ?_)
      constructor
      · rintro ⟨hcut, hle, hlt⟩
        exact ⟨(h e mem_cons_self n hle).1 hcut, hle, hlt⟩
      · rintro ⟨hcut, hle, hlt⟩
        exact ⟨(h e mem_cons_self n hle).2 hcut, hle, hlt⟩

variable {x : Exchange}

theorem le_of_mem_responseEnds {start e : ℕ} {xs : List Exchange}
    (h : e ∈ responseEnds start (x :: xs)) :
    start + (x.frames.flatMap CstaFrame.bytes).length ≤ e := by
  induction xs generalizing start x with
  | nil => exact (mem_singleton.1 h).ge
  | cons x' xs ih =>
    rcases mem_cons.1 h with rfl | h
    · exact le_rfl
    · exact le_trans (Nat.le_add_right _ _) (ih h)

/-- The frames that are to come. -/
def remaining (exchanges : List Exchange) (after : List CstaFrame) : List CstaFrame :=
  exchanges.flatMap Exchange.frames ++ after

theorem remaining_cons (x : Exchange) (xs : List Exchange) (after : List CstaFrame) :
    remaining (x :: xs) after = x.events ++ x.response :: remaining xs after := by
  simp [remaining, Exchange.frames]

variable {exchanges : List Exchange} {invokeIds : List JsString} {after : List CstaFrame}

theorem remaining_encodable (hanswers : Forall₂ Exchange.Answers exchanges invokeIds)
    (hafter : ∀ f ∈ after, IsEvent f) : ∀ f ∈ remaining exchanges after, f.Encodable := by
  induction hanswers with
  | nil => exact fun f hf => (hafter f hf).encodable
  | cons hx _ ih =>
    intro f hf
    rw [remaining_cons, mem_append, mem_cons] at hf
    rcases hf with hf | rfl | hf
    · exact (hx.events f hf).encodable
    · exact hx.encodable
    · exact ih f hf

theorem getLast?_remaining (hanswers : Forall₂ Exchange.Answers exchanges invokeIds)
    (hids : ∀ invokeId ∈ invokeIds, invokeId ≠ cstaEventInvokeId) :
    ∀ f ∈ (remaining exchanges []).getLast?, f.invokeId ≠ cstaEventInvokeId := by
  induction hanswers with
  | nil => exact fun f hf => absurd hf (Option.not_mem_none f)
  | @cons x invokeId xs _ hx _ ih =>
    obtain ⟨hid, hids⟩ := forall_mem_cons.1 hids
    intro f hf
    rw [remaining_cons, getLast?_append, getLast?_cons] at hf
    cases hlast : (remaining xs []).getLast? with
    | none =>
      rw [hlast] at hf
      cases hf
      exact hx.invokeId ▸ hid
    | some f' =>
      rw [hlast] at hf
      cases hf
      exact ih hids _ hlast

theorem push_remaining {reader : CstaFrameReader} {fs : List CstaFrame}
    (hok : ∀ f ∈ fs, f.Encodable) {chunk : List UInt8}
    (hstream : reader.buffer ++ (chunk :: chunks).flatten = fs.flatMap CstaFrame.bytes) :
    ∃ done todo rest, fs = done ++ todo ∧ reader.push chunk = some (done, ⟨rest⟩) ∧
      reader.buffer ++ chunk = done.flatMap CstaFrame.bytes ++ rest ∧
      rest ++ chunks.flatten = todo.flatMap CstaFrame.bytes ∧ next rest = none := by
  rw [flatten_cons, ← append_assoc] at hstream
  obtain ⟨done, todo, rest, rfl, hbuffer, hdrain, hrest⟩ :=
    frames_next.drain_prefix hok ⟨chunks.flatten, hstream⟩
  refine ⟨done, todo, rest, rfl, by rw [CstaFrameReader.push, hdrain]; rfl, hbuffer, ?_, hrest⟩
  rw [hbuffer, flatMap_append, append_assoc] at hstream
  exact append_cancel_left hstream

theorem length_buffer_lt {xs : List Exchange} (hok : ∀ f ∈ remaining (x :: xs) after, f.Encodable)
    (hwait : next buffer = none)
    (hbuffer : buffer <+: (remaining (x :: xs) after).flatMap CstaFrame.bytes) :
    buffer.length < (x.frames.flatMap CstaFrame.bytes).length := by
  obtain ⟨f, fs, hfs⟩ : ∃ f fs, x.frames = f :: fs := by
    rw [Exchange.frames]
    cases x.events with
    | nil => exact ⟨_, _, rfl⟩
    | cons f fs => exact ⟨f, fs ++ [x.response], rfl⟩
  have hremaining : remaining (x :: xs) after = f :: (fs ++ remaining xs after) := by
    rw [remaining, flatMap_cons, hfs, append_assoc]
    rfl
  rw [hremaining] at hok hbuffer
  rw [flatMap_cons] at hbuffer
  have hlt := frames_next.length_lt_of_waits (hok f mem_cons_self) hwait hbuffer
  rw [hfs, flatMap_cons, length_append]
  omega

theorem countP_remaining_le (hanswers : Forall₂ Exchange.Answers exchanges invokeIds)
    (hafter : ∀ f ∈ after, IsEvent f) :
    (remaining exchanges after).countP (·.invokeId ≠ cstaEventInvokeId) ≤ invokeIds.length := by
  have hnone : ∀ fs : List CstaFrame, (∀ f ∈ fs, IsEvent f) →
      fs.countP (·.invokeId ≠ cstaEventInvokeId) = 0 := by
    intro fs hfs
    refine countP_eq_zero.2 fun f hf hne => ?_
    exact of_decide_eq_true hne (hfs f hf).invokeId
  induction hanswers with
  | nil => exact (hnone after hafter).le
  | cons hx _ ih =>
    rw [remaining_cons, countP_append, hnone _ hx.events, Nat.zero_add, countP_cons, length_cons]
    exact Nat.add_le_add ih (by split <;> omega)

theorem append_cons_eq_append {l d m t : List CstaFrame} {a : CstaFrame}
    (h : l ++ a :: m = d ++ t) :
    (∃ c, l = d ++ c ∧ t = c ++ a :: m) ∨ ∃ e, d = l ++ a :: e ∧ m = e ++ t := by
  rcases append_eq_append_iff.1 h with ⟨e, rfl, he⟩ | ⟨c, rfl, rfl⟩
  · cases e with
    | nil => exact .inl ⟨[], (append_nil _).symm ▸ (append_nil _).symm, he.symm⟩
    | cons b e =>
      obtain ⟨rfl, rfl⟩ := cons.inj he
      exact .inr ⟨e, rfl, rfl⟩
  · exact .inl ⟨c, rfl, rfl⟩

theorem length_flatMap_frames (x : Exchange) (behind : List CstaFrame) :
    ((x.events ++ x.response :: behind).flatMap CstaFrame.bytes).length =
      (x.frames.flatMap CstaFrame.bytes).length + (behind.flatMap CstaFrame.bytes).length := by
  rw [append_cons, flatMap_append, length_append, Exchange.frames]

/-- An exchange of which some events have been read ends where it ended before. -/
theorem responseEnds_events {done events : List CstaFrame} (hevents : x.events = done ++ events)
    (start : ℕ) (xs : List Exchange) :
    responseEnds (start + (done.flatMap CstaFrame.bytes).length) (⟨events, x.response⟩ :: xs) =
      responseEnds start (x :: xs) := by
  simp only [responseEnds, Exchange.frames, hevents, flatMap_append, length_append, Nat.add_assoc]

theorem Exchange.Answers.of_events {invokeId : JsString} (hx : x.Answers invokeId)
    {done events : List CstaFrame} (hevents : x.events = done ++ events) :
    Exchange.Answers ⟨events, x.response⟩ invokeId :=
  ⟨fun f hf => hx.events f (hevents ▸ mem_append_right _ hf), hx.encodable, hx.invokeId⟩

namespace Session

variable {s : Session}

theorem exec_failed {error : ConnectError} (hphase : s.phase = .failed error)
    (chunks : List (List UInt8)) : exec onData s chunks = some s := by
  induction chunks with
  | nil => rfl
  | cons chunk chunks ih =>
    have hstep : s.onData chunk = some s := by rw [onData, hphase]
    rw [exec_cons, hstep, Option.bind_some, ih]

variable {invokeId : JsString} {requests : List JsString}

theorem onData_requesting (hphase : s.phase = .requesting invokeId requests) (chunk : List UInt8) :
    s.onData chunk = (s.reader.push chunk).map fun (frames, reader) =>
      match frames.find? (·.invokeId = invokeId) with
      | none => { s with reader }
      | some frame =>
        if isFault frame then { s with reader, phase := .failed (.fault frame.xml) }
        else sendNext { s with reader } requests := by
  cases s
  subst hphase
  rw [onData]
  dsimp only
  cases CstaFrameReader.push _ chunk with
  | none => rfl
  | some pushed =>
    obtain ⟨frames, reader⟩ := pushed
    simp only [Option.bind_eq_bind, Option.bind_some, Option.map_some]
    cases frames.find? (·.invokeId = invokeId) with
    | none => rfl
    | some frame =>
      dsimp only
      split <;> rfl

theorem sendNext_cons (s : Session) (xml : JsString) (requests : List JsString) :
    (Fits xml ∧
        (s.sendNext (xml :: requests)).phase = .requesting s.invokeIds.generate.1 requests ∨
      ¬ Fits xml ∧ ∃ error, (s.sendNext (xml :: requests)).phase = .failed error) ∧
    (s.sendNext (xml :: requests)).reader = s.reader ∧
      (s.sendNext (xml :: requests)).invokeIds = s.invokeIds.generate.2 ∧
      (s.sendNext (xml :: requests)).handled = s.handled := by
  have hlength := s.invokeIds.length_generate
  rw [sendNext]
  dsimp only
  cases hencode : encodeCstaFrame s.invokeIds.generate.1 xml with
  | error error =>
    refine ⟨.inr ⟨fun hfit => ?_, _, rfl⟩, rfl, rfl, rfl⟩
    have hshort : framePrefixLength + s.invokeIds.generate.1.length + xml.length < 2 ^ 16 := by
      rw [hlength]
      exact hfit
    have hok := encodeCstaFrame_eq_ok.2 ⟨hlength, hshort, rfl⟩
    rw [hencode] at hok
    cases hok
  | ok bytes =>
    obtain ⟨-, hfit, -⟩ := encodeCstaFrame_eq_ok.1 hencode
    rw [hlength] at hfit
    exact ⟨.inl ⟨hfit, rfl⟩, rfl, rfl, rfl⟩

variable {chunks : List (List UInt8)}

/-- With fewer responses to come than requests no handler is ever attached. -/
theorem handled_of_fewer {s t : Session} {fs : List CstaFrame}
    (hphase : s.phase = .requesting invokeId requests) (hid : invokeId ≠ cstaEventInvokeId)
    (hok : ∀ f ∈ fs, f.Encodable)
    (hfew : fs.countP (·.invokeId ≠ cstaEventInvokeId) ≤ requests.length)
    (hstream : s.reader.buffer ++ chunks.flatten = fs.flatMap CstaFrame.bytes)
    (ht : exec onData s chunks = some t) : t.handled = s.handled := by
  induction chunks generalizing s invokeId requests fs with
  | nil =>
    cases ht
    rfl
  | cons chunk chunks ih =>
    obtain ⟨done, todo, rest, rfl, hpush, -, hstream', -⟩ := push_remaining hok hstream
    have hok' : ∀ f ∈ todo, f.Encodable := fun f hf => hok f (mem_append_right _ hf)
    rw [countP_append] at hfew
    rw [exec_cons, onData_requesting hphase, hpush, Option.map_some, Option.bind_some] at ht
    dsimp only at ht
    cases hfind : done.find? (·.invokeId = invokeId) with
    | none =>
      rw [hfind] at ht
      exact ih (s := { s with reader := ⟨rest⟩ }) hphase hid hok' (by omega) hstream' ht
    | some frame =>
      rw [hfind] at ht
      dsimp only at ht
      have hframe : frame.invokeId = invokeId := by simpa using find?_some hfind
      have hone : 0 < done.countP (·.invokeId ≠ cstaEventInvokeId) :=
        countP_pos_iff.2 ⟨frame, mem_of_find?_eq_some hfind,
          decide_eq_true fun heq => hid (hframe.symm.trans heq)⟩
      split at ht
      · rw [exec_failed rfl] at ht
        cases ht
        rfl
      · cases requests with
        | nil =>
          rw [length_nil] at hfew
          omega
        | cons xml requests =>
          obtain ⟨hsent, hreader, -, hhandled⟩ :=
            sendNext_cons { s with reader := ⟨rest⟩ } xml requests
          rcases hsent with ⟨-, hsent⟩ | ⟨-, error, hfailed⟩
          · rw [length_cons] at hfew
            have hkeep := ih hsent (CstaInvokeIdGenerator.generate_ne_event _) hok' (by omega)
              (by rw [hreader]; exact hstream') ht
            rw [hkeep, hhandled]
          · rw [exec_failed hfailed] at ht
            cases ht
            exact hhandled

/-- The frames up to the awaited response have no other one with its invoke id. -/
theorem find_response {events frames : List CstaFrame} {response : CstaFrame}
    (hid : invokeId ≠ cstaEventInvokeId) (hevents : ∀ f ∈ events, IsEvent f)
    (hresponse : response.invokeId = invokeId) :
    (events ++ response :: frames).find? (·.invokeId = invokeId) = some response := by
  have hnone : events.find? (·.invokeId = invokeId) = none := by
    refine find?_eq_none.2 fun f hf heq => hid ?_
    exact (of_decide_eq_true heq).symm.trans (hevents f hf).invokeId
  rw [find?_append, hnone, Option.none_or, find?_cons, hresponse, decide_eq_true rfl]

/-- After the last response the events are handled if the reader holds nothing of them. -/
theorem sendNext_nil_iff (hhandled : s.handled = []) {behind todo : List CstaFrame}
    (hafter : ∀ f ∈ behind ++ todo, IsEvent f) {rest : List UInt8}
    (hstream : rest ++ chunks.flatten = todo.flatMap CstaFrame.bytes) (finish : ℕ) :
    (∃ t, exec onData (s.sendNext []) chunks = some t ∧
      t.handled.map Prod.fst = behind ++ todo) ↔
    IsCut (finish + (behind.flatMap CstaFrame.bytes).length + rest.length) chunks finish := by
  rw [streaming_iff (s := s.sendNext []) rfl rfl hhandled hafter
    (behind.flatMap CstaFrame.bytes ++ rest) (by
      rw [append_assoc, hstream, ← flatMap_append])]
  rw [← length_eq_zero_iff, length_append]
  constructor
  · intro hnone
    refine ⟨0, ?_⟩
    rw [take_zero, flatten_nil, length_nil]
    omega
  · intro hcut
    have hle := le_of_isCut hcut
    omega

variable {after : List CstaFrame}

/-- A connection that handles nothing does not handle what comes after the last response. -/
theorem not_handles (hne : after ≠ [])
    (hnothing : ∀ t, exec onData s chunks = some t → t.handled = []) :
    ¬ ∃ t, exec onData s chunks = some t ∧ t.handled.map Prod.fst = after := by
  rintro ⟨t, ht, hall⟩
  rw [hnothing t ht] at hall
  exact hne hall.symm

theorem not_handles_of_failed {error : ConnectError} (hne : after ≠ [])
    (hphase : s.phase = .failed error) (hhandled : s.handled = []) :
    ¬ ∃ t, exec onData s chunks = some t ∧ t.handled.map Prod.fst = after := by
  refine not_handles hne fun t ht => ?_
  rw [exec_failed hphase] at ht
  exact Option.some.inj ht ▸ hhandled

/-- **The bootstrap**, from where a response is awaited. -/
theorem requesting_iff {x : Exchange} {xs : List Exchange} (start : ℕ)
    (hphase : s.phase = .requesting invokeId requests) (hid : invokeId ≠ cstaEventInvokeId)
    (hx : x.Answers invokeId)
    (hxs : Forall₂ Exchange.Answers xs (s.invokeIds.ids requests.length))
    (hafter : ∀ f ∈ after, IsEvent f) (hne : after ≠ []) (hhandled : s.handled = [])
    (hwait : next s.reader.buffer = none) (hstream : s.reader.buffer ++ chunks.flatten =
      (remaining (x :: xs) after).flatMap CstaFrame.bytes) :
    (∃ t, exec onData s chunks = some t ∧ t.handled.map Prod.fst = after) ↔
      (∀ xml ∈ requests, Fits xml) ∧
      (∀ y ∈ x :: xs, ¬ isFault y.response) ∧
      EndsWithLast (IsCut (start + s.reader.buffer.length) chunks)
        (responseEnds start (x :: xs)) := by
  induction chunks generalizing s invokeId requests x xs start with
  | nil =>
    have hok := remaining_encodable (.cons hx hxs) hafter
    have hlt := length_buffer_lt hok hwait ⟨_, hstream⟩
    have hlength := congrArg length hstream
    rw [remaining, flatMap_cons, append_assoc, flatMap_append, length_append,
      length_append, flatten_nil, length_nil] at hlength
    omega
  | cons chunk chunks ih =>
    have hok := remaining_encodable (.cons hx hxs) hafter
    have hlt := length_buffer_lt hok hwait ⟨_, hstream⟩
    obtain ⟨done, todo, rest, hframes, hpush, hbuffer, hstream', hrest⟩ :=
      push_remaining hok hstream
    have hreceived := congrArg length hbuffer
    rw [length_append, length_append] at hreceived
    have hcuts : EndsWithLast (IsCut (start + s.reader.buffer.length) (chunk :: chunks))
          (responseEnds start (x :: xs)) ↔
        EndsWithLast (IsCut (start + (done.flatMap CstaFrame.bytes).length + rest.length) chunks)
          (responseEnds start (x :: xs)) := by
      refine endsWithLast_congr fun e he n hn => ?_
      have hle := le_of_mem_responseEnds he
      rw [isCut_cons (by omega), Nat.add_assoc, hreceived, Nat.add_assoc]
    rw [hcuts, exec_cons, onData_requesting hphase, hpush, Option.map_some, Option.bind_some]
    dsimp only
    rw [remaining_cons] at hframes
    rcases append_cons_eq_append hframes with ⟨events, hevents, rfl⟩ | ⟨behind, rfl, hbehind⟩
    · -- the response is still to come
      have hfind : done.find? (·.invokeId = invokeId) = none := by
        refine find?_eq_none.2 fun f hf heq => hid ?_
        rw [← (hx.events f (hevents ▸ mem_append_left _ hf)).invokeId]
        exact (of_decide_eq_true heq).symm
      rw [hfind]
      dsimp only
      rw [ih (s := { s with reader := ⟨rest⟩ })
        (start + (done.flatMap CstaFrame.bytes).length) hphase hid (hx.of_events hevents) hxs
        hhandled hrest (by rw [remaining_cons]; exact hstream'), responseEnds_events hevents]
      simp only [forall_mem_cons]
    · rw [find_response hid hx.events hx.invokeId]
      dsimp only
      by_cases hfault : isFault x.response = true
      · rw [if_pos hfault]
        refine iff_of_false (not_handles_of_failed hne rfl hhandled) ?_
        rintro ⟨-, hpositive, -⟩
        exact hpositive x mem_cons_self hfault
      rw [if_neg hfault, length_flatMap_frames, ← Nat.add_assoc]
      set finish := start + (x.frames.flatMap CstaFrame.bytes).length with hfinish
      cases requests with
      | nil =>
        obtain rfl := forall₂_nil_right_iff.1 hxs
        obtain rfl : after = behind ++ todo := hbehind
        rw [sendNext_nil_iff (s := { s with reader := ⟨rest⟩ }) hhandled hafter hstream' finish]
        refine ⟨fun hcut => ⟨nofun, fun y hy => ?_, hcut⟩,
          fun h => h.2.2⟩
        rwa [mem_singleton.1 hy]
      | cons xml requests =>
        rw [length_cons, CstaInvokeIdGenerator.ids] at hxs
        obtain ⟨x', xs', hx', hxs', rfl⟩ := forall₂_cons_right_iff.1 hxs
        obtain ⟨hsent, hreader, hids, hhandled'⟩ :=
          sendNext_cons { s with reader := ⟨rest⟩ } xml requests
        replace hhandled' := hhandled'.trans hhandled
        rcases hsent with ⟨hfit, hsent⟩ | ⟨hfit, error, hfailed⟩
        · have hid' := CstaInvokeIdGenerator.generate_ne_event s.invokeIds
          rw [remaining_cons] at hbehind
          rcases append_cons_eq_append hbehind with
            ⟨events, hevents, rfl⟩ | ⟨behind', rfl, hbehind'⟩
          · -- the next response is still to come
            have hx'' := hx'.of_events hevents
            have hless := length_buffer_lt (remaining_encodable (.cons hx'' hxs') hafter) hrest
              ⟨_, by rw [remaining_cons]; exact hstream'⟩
            rw [ih (finish + (behind.flatMap CstaFrame.bytes).length) hsent hid' hx''
              (by rw [hids]; exact hxs') hhandled' (by rw [hreader]; exact hrest)
              (by rw [hreader, remaining_cons]; exact hstream'), responseEnds_events hevents,
              hreader]
            simp only [forall_mem_cons]
            refine
              ⟨fun ⟨hfits, hpositive, hlast⟩ => ⟨⟨hfit, hfits⟩, ⟨hfault, hpositive⟩, ?_, hlast⟩,
                fun ⟨⟨_, hfits⟩, ⟨_, hpositive⟩, _, hlast⟩ => ⟨hfits, hpositive, hlast⟩⟩
            have hnext : (x'.frames.flatMap CstaFrame.bytes).length =
                (behind.flatMap CstaFrame.bytes).length +
                  ((⟨events, x'.response⟩ : Exchange).frames.flatMap CstaFrame.bytes).length := by
              simp only [Exchange.frames, hevents, flatMap_append, length_append, Nat.add_assoc]
            refine ⟨_, ⟨0, rfl⟩, by omega, ?_⟩
            rw [take_zero, flatten_nil, length_nil, hnext]
            omega
          · -- the next response is lost
            have hok' : ∀ f ∈ todo, f.Encodable := fun f hf =>
              hok f (by
                rw [remaining_cons, remaining_cons, hbehind']
                simp [hf])
            have hfew := countP_remaining_le hxs' hafter
            rw [hbehind', countP_append, CstaInvokeIdGenerator.length_ids] at hfew
            refine iff_of_false (not_handles hne fun t ht => (handled_of_fewer hsent hid' hok'
              (le_trans (Nat.le_add_left _ _) hfew) (by rw [hreader]; exact hstream') ht).trans
                hhandled') ?_
            rintro ⟨-, -, ⟨c, hcut, -, hlt'⟩, -⟩
            have hle := le_of_isCut hcut
            rw [length_flatMap_frames] at hle
            omega
        · refine iff_of_false (not_handles_of_failed hne hfailed hhandled') ?_
          rintro ⟨hfits, -⟩
          exact hfit (hfits xml mem_cons_self)

theorem exec_of_no_events {fs : List CstaFrame} (hphase : s.phase = .requesting invokeId requests)
    (hid : invokeId ≠ cstaEventInvokeId) (hok : ∀ f ∈ fs, f.Encodable)
    (hfew : fs.countP (·.invokeId ≠ cstaEventInvokeId) ≤ requests.length + 1)
    (hlast : ∀ f ∈ fs.getLast?, f.invokeId ≠ cstaEventInvokeId) (hhandled : s.handled = [])
    (hstream : s.reader.buffer ++ chunks.flatten = fs.flatMap CstaFrame.bytes) :
    ∃ t, exec onData s chunks = some t ∧ t.handled.map Prod.fst = [] := by
  induction chunks generalizing s invokeId requests fs with
  | nil => exact ⟨s, rfl, by rw [hhandled, map_nil]⟩
  | cons chunk chunks ih =>
    obtain ⟨done, todo, rest, rfl, hpush, -, hstream', -⟩ := push_remaining hok hstream
    have hok' : ∀ f ∈ todo, f.Encodable := fun f hf => hok f (mem_append_right _ hf)
    have hlast' : ∀ f ∈ todo.getLast?, f.invokeId ≠ cstaEventInvokeId := by
      intro f hf
      refine hlast f ?_
      rw [getLast?_append, Option.mem_def.1 hf]
      rfl
    rw [countP_append] at hfew
    rw [exec_cons, onData_requesting hphase, hpush, Option.map_some, Option.bind_some]
    dsimp only
    cases hfind : done.find? (·.invokeId = invokeId) with
    | none =>
      exact ih (s := { s with reader := ⟨rest⟩ }) hphase hid hok' (by omega) hlast' hhandled
        hstream'
    | some frame =>
      have hframe : frame.invokeId = invokeId := by simpa using find?_some hfind
      have hone : 0 < done.countP (·.invokeId ≠ cstaEventInvokeId) :=
        countP_pos_iff.2 ⟨frame, mem_of_find?_eq_some hfind,
          decide_eq_true fun heq => hid (hframe.symm.trans heq)⟩
      dsimp only
      split
      · exact ⟨_, exec_failed rfl _, by rw [hhandled, map_nil]⟩
      · cases requests with
        | nil =>
          -- a frame that is still to come would be a response
          obtain rfl : todo = [] := by
            by_contra hne
            have hresponse := hlast' _ (getLast?_eq_getLast_of_ne_nil hne)
            have hcount : 0 < todo.countP (·.invokeId ≠ cstaEventInvokeId) :=
              countP_pos_iff.2 ⟨_, getLast_mem hne, decide_eq_true hresponse⟩
            rw [length_nil] at hfew
            omega
          have hnothing := (append_eq_nil_iff.1 hstream').2
          exact (streaming_iff (s := sendNext { s with reader := ⟨rest⟩ } []) rfl rfl hhandled
            (fun f hf => absurd hf (not_mem_nil (a := f))) [] hnothing).2 rfl
        | cons xml requests =>
          obtain ⟨hsent, hreader, -, hhandled'⟩ :=
            sendNext_cons { s with reader := ⟨rest⟩ } xml requests
          replace hhandled' := hhandled'.trans hhandled
          rcases hsent with ⟨-, hsent⟩ | ⟨-, error, hfailed⟩
          · rw [length_cons] at hfew
            exact ih hsent (CstaInvokeIdGenerator.generate_ne_event _) hok' (by omega) hlast'
              hhandled' (by rw [hreader]; exact hstream')
          · exact ⟨_, exec_failed hfailed _, by rw [hhandled', map_nil]⟩

end Session

/-! ## The connection -/

section Connect

variable (securityToken : List UInt8) (deviceIds : List JsString)

/-- A connection has failed from the start, or its first request is sent. -/
theorem connect_cases :
    ((¬ (deviceIds ≠ [] ∧ Fits (buildRequestSystemStatusXml securityToken)) ∧
        ∃ error, (connect securityToken deviceIds).phase = .failed error) ∨
      (deviceIds ≠ [] ∧ Fits (buildRequestSystemStatusXml securityToken)) ∧
        (connect securityToken deviceIds).phase =
          .requesting CstaInvokeIdGenerator.new.generate.1 (deviceIds.map buildMonitorStartXml) ∧
        (connect securityToken deviceIds).invokeIds = CstaInvokeIdGenerator.new.generate.2) ∧
    (connect securityToken deviceIds).reader = .new ∧
      (connect securityToken deviceIds).handled = [] := by
  by_cases hdevices : deviceIds = []
  · rw [connect, if_pos hdevices]
    exact ⟨.inl ⟨fun h => h.1 hdevices, _, rfl⟩, rfl, rfl⟩
  · rw [connect, if_neg hdevices, bootstrapRequests]
    obtain ⟨hsent, hreader, hids, hhandled⟩ := Session.sendNext_cons
      ⟨.new, .new, .streaming, [], 0, []⟩ (buildRequestSystemStatusXml securityToken)
      (deviceIds.map buildMonitorStartXml)
    refine ⟨hsent.symm.imp ?_ ?_, hreader, hhandled⟩
    · rintro ⟨hfit, herror⟩
      exact ⟨fun h => hfit h.2, herror⟩
    · rintro ⟨hfit, hsent⟩
      exact ⟨⟨hdevices, hfit⟩, hsent, hids⟩

variable {x : Exchange} {xs : List Exchange} {after : List CstaFrame} {chunks : List (List UInt8)}

/-- Events after the last response are handled when the connection hands over. -/
theorem handled_iff_handsOver
    (hanswers : Forall₂ Exchange.Answers (x :: xs)
      (CstaInvokeIdGenerator.new.ids (deviceIds.length + 1)))
    (hafter : ∀ f ∈ after, IsEvent f) (hne : after ≠ [])
    (hstream : chunks.flatten = (remaining (x :: xs) after).flatMap CstaFrame.bytes) :
    (∃ s, exec Session.onData (connect securityToken deviceIds) chunks = some s ∧
      s.handled.map Prod.fst = after) ↔ HandsOver securityToken deviceIds (x :: xs) chunks := by
  obtain ⟨hphase, hreader, hhandled⟩ := connect_cases securityToken deviceIds
  rcases hphase with ⟨hnot, error, herror⟩ | ⟨⟨hdevices, hfit⟩, hsent, hids⟩
  · refine iff_of_false (Session.not_handles_of_failed hne herror hhandled) fun h => hnot ?_
    exact ⟨h.devices, h.fit _ mem_cons_self⟩
  · rw [CstaInvokeIdGenerator.ids, forall₂_cons] at hanswers
    have hid := CstaInvokeIdGenerator.new.generate_ne_event
    rw [Session.requesting_iff 0 hsent hid hanswers.1
      (by rw [hids, length_map]; exact hanswers.2) hafter hne hhandled (by rw [hreader]; rfl)
      (by rw [hreader]; exact hstream), hreader]
    constructor
    · rintro ⟨hfits, hpositive, hlast⟩
      exact ⟨hdevices, forall_mem_cons.2 ⟨hfit, hfits⟩, hpositive, hlast⟩
    · rintro ⟨-, hfits, hpositive, hlast⟩
      exact ⟨(forall_mem_cons.1 hfits).2, hpositive, hlast⟩

/-- Without events after the last response nothing is handled. -/
theorem handled_nil
    (hanswers : Forall₂ Exchange.Answers (x :: xs)
      (CstaInvokeIdGenerator.new.ids (deviceIds.length + 1)))
    (hstream : chunks.flatten = (remaining (x :: xs) []).flatMap CstaFrame.bytes) :
    ∃ s, exec Session.onData (connect securityToken deviceIds) chunks = some s ∧
      s.handled.map Prod.fst = [] := by
  obtain ⟨hphase, hreader, hhandled⟩ := connect_cases securityToken deviceIds
  have hnone : ∀ f ∈ ([] : List CstaFrame), IsEvent f := nofun
  rcases hphase with ⟨-, error, herror⟩ | ⟨-, hsent, -⟩
  · exact ⟨_, Session.exec_failed herror _, by rw [hhandled, map_nil]⟩
  · have hfew := countP_remaining_le hanswers hnone
    rw [CstaInvokeIdGenerator.length_ids] at hfew
    exact Session.exec_of_no_events hsent CstaInvokeIdGenerator.new.generate_ne_event
      (remaining_encodable hanswers hnone) (by rwa [length_map])
      (getLast?_remaining hanswers CstaInvokeIdGenerator.ids_ne_event) hhandled
      (by rw [hreader]; exact hstream)

end Connect

/-- **The handover**: every event after the last response is handled, once and in order, exactly
when the connection gets there and the chunk that completes the last response ends with it. -/
theorem handover_iff (securityToken : List UInt8) (deviceIds : List JsString)
    (conversation : Conversation (CstaInvokeIdGenerator.new.ids (deviceIds.length + 1)))
    {chunks : List (List UInt8)}
    (hstream : chunks.flatten = conversation.frames.flatMap CstaFrame.bytes) :
    (∃ s, exec Session.onData (connect securityToken deviceIds) chunks = some s ∧
      s.handled.map Prod.fst = conversation.after) ↔
    conversation.after = [] ∨
      HandsOver securityToken deviceIds conversation.exchanges chunks := by
  obtain ⟨exchanges, after, hanswers, hafter⟩ := conversation
  obtain ⟨x, xs, -, -, rfl⟩ := forall₂_cons_right_iff.1 hanswers
  by_cases hne : after = []
  · subst hne
    exact iff_of_true (handled_nil _ _ hanswers hstream) (.inl rfl)
  · rw [or_iff_right hne]
    exact handled_iff_handsOver _ _ hanswers hafter hne hstream

/-! ## One device -/

/-- A frame with a body of four characters. -/
def smallFrame (invokeId : String) : CstaFrame := ⟨ofText invokeId, ofText "<a/>"⟩

instance (s : JsString) : Decidable (IsAscii s) := decidableBAll _ s

theorem smallFrame_encodable : ∀ invokeId ∈ ["0001", "0002", "9999"],
    (smallFrame invokeId).Encodable := by
  intro invokeId h
  simp only [mem_cons, not_mem_nil, or_false] at h
  rcases h with rfl | rfl | rfl <;> exact ⟨by decide, by decide, by decide, by decide⟩

/-- Two responses and an event. -/
def oneDevice : Conversation (CstaInvokeIdGenerator.new.ids 2) where
  exchanges := [⟨[], smallFrame "0001"⟩, ⟨[], smallFrame "0002"⟩]
  after := [smallFrame "9999"]
  answers := by
    refine .cons ⟨nofun, smallFrame_encodable _ (by simp), by decide⟩
      (.cons ⟨nofun, smallFrame_encodable _ (by simp), by decide⟩
        .nil)
  isEvent := by
    intro f hf
    rw [mem_singleton.1 hf]
    exact ⟨smallFrame_encodable _ (by simp), rfl, by decide⟩

/-- The event has a chunk of its own. -/
theorem oneDevice_handled : ∃ s, exec Session.onData (connect [] [ofText "7"])
      [(smallFrame "0001").bytes, (smallFrame "0002").bytes, (smallFrame "9999").bytes] = some s ∧
    s.handled.map Prod.fst = [smallFrame "9999"] := by
  refine (handover_iff [] [ofText "7"] oneDevice (by decide +kernel)).2
    (.inr ⟨by decide, ?_, by decide, ?_⟩)
  · decide +kernel
  · exact ⟨⟨12, ⟨1, rfl⟩, by decide, by decide⟩, 2, rfl⟩

/-- The event comes with the response before it. -/
theorem oneDevice_lost : ¬ ∃ s, exec Session.onData (connect [] [ofText "7"])
      [(smallFrame "0001").bytes, (smallFrame "0002").bytes ++ (smallFrame "9999").bytes] =
        some s ∧
    s.handled.map Prod.fst = oneDevice.after := by
  have hanswers : Forall₂ Exchange.Answers
      [⟨[], smallFrame "0001"⟩, ⟨[], smallFrame "0002"⟩] (CstaInvokeIdGenerator.new.ids 2) :=
    oneDevice.answers
  rw [handled_iff_handsOver [] [ofText "7"] hanswers oneDevice.isEvent (cons_ne_nil _ _)
    (by decide +kernel)]
  rintro ⟨-, -, -, -, k, hk⟩
  -- the chunks end at 12 and at 36, the last response at 24
  rcases k with _ | _ | k
  · exact absurd hk (by decide)
  · exact absurd hk (by decide)
  · rw [take_of_length_le (by simp)] at hk
    exact absurd hk (by decide)

end Workforce.Integration.Csta
