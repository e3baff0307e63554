import Workforce.Foundations.Framing
import Workforce.Foundations.Runs
import Mathlib.Data.List.Flatten

/-!
# CSTA-XML frames over TCP

`csta-xml-frame.ts`: a frame is a header of two zero bytes, the length of the whole frame as a
16-bit big-endian number, an invoke id of four characters and an XML body, as ASCII text. The
reader buffers the chunks of a TCP stream and takes complete frames off the front; frames with
another header are dropped.

Strings are lists of UTF-16 code units, as the code has them: `Buffer.from(s, 'ascii')` keeps the
low byte of each, `toString('ascii')` the low seven bits of each byte.

* `frames_next`: the loop finds the frames that `encodeCstaFrame` accepts, and waits on their
  proper prefixes.
* `push_encoded`: frames survive every chunking.
-/

namespace Workforce.Integration.Csta

open Framing List

/-! ## Text and bytes -/

/-- A string of the language: its UTF-16 code units. -/
abbrev JsString : Type := List UInt16

/-- `Buffer.from(s, 'ascii')`. -/
def toAscii (s : JsString) : List UInt8 := s.map UInt16.toUInt8

/-- `bytes.toString('ascii')`. -/
def ofAscii (bytes : List UInt8) : JsString := bytes.map fun b => (b &&& 0x7f).toUInt16

/-- All characters are ASCII. -/
def IsAscii (s : JsString) : Prop := ∀ c ∈ s, c < 128

/-- `writeUInt16BE` of a number below `2 ^ 16`. -/
def uint16BE (n : ℕ) : List UInt8 := [UInt8.ofNat (n / 256), UInt8.ofNat n]

/-- `readUInt16BE(offset)`, of a buffer that is long enough. -/
def readUInt16BE (buffer : List UInt8) (offset : ℕ) : ℕ :=
  (buffer.getD offset 0).toNat * 256 + (buffer.getD (offset + 1) 0).toNat

/-! ## Writing -/

/-- `HEADER_LENGTH`. -/
def headerLength : ℕ := 2

/-- `LENGTH_FIELD_LENGTH`. -/
def lengthFieldLength : ℕ := 2

/-- `FRAME_PREFIX_LENGTH`. -/
def framePrefixLength : ℕ := headerLength + lengthFieldLength

/-- `INVOKE_ID_LENGTH`. -/
def invokeIdLength : ℕ := 4

structure CstaFrame where
  invokeId : JsString
  xml : JsString
  deriving DecidableEq

inductive EncodeError
  /-- `CSTA Invoke ID must be exactly 4 ASCII characters, got "…"`. -/
  | invokeId (got : JsString)
  /-- The `RangeError` of `writeUInt16BE`. -/
  | outOfRange (value : ℕ)

/-- The bytes that `encodeCstaFrame` returns when it accepts. -/
def frameBytes (invokeId xmlBody : JsString) : List UInt8 :=
  let invokeBuf := toAscii invokeId
  let xmlBuf := toAscii xmlBody
  [0x00, 0x00] ++ uint16BE (framePrefixLength + invokeBuf.length + xmlBuf.length) ++ invokeBuf ++
    xmlBuf

def encodeCstaFrame (invokeId xmlBody : JsString) : Except EncodeError (List UInt8) :=
  let totalLength := framePrefixLength + (toAscii invokeId).length + (toAscii xmlBody).length
  if invokeId.length ≠ invokeIdLength then .error (.invokeId invokeId)
  else if 2 ^ 16 ≤ totalLength then .error (.outOfRange totalLength)
  else .ok (frameBytes invokeId xmlBody)

/-! ## Reading -/

/-- One round of the loop of `push`: what it finds at the front of the buffer, and the length that
it takes off. -/
def next (buffer : List UInt8) : Option (Option CstaFrame × ℕ) :=
  if buffer.length < framePrefixLength then none
  else
    let totalLength := readUInt16BE buffer headerLength
    if buffer.length < totalLength then none
    else
      let isPlainCstaXml := buffer.getD 0 0 == 0x00 && buffer.getD 1 0 == 0x00
      if isPlainCstaXml then
        let invokeId := ofAscii ((buffer.drop framePrefixLength).take invokeIdLength)
        let xml := ofAscii ((buffer.take totalLength).drop (framePrefixLength + invokeIdLength))
        some (some ⟨invokeId, xml⟩, totalLength)
      else some (none, totalLength)

/-- `CstaFrameReader`. -/
structure CstaFrameReader where
  buffer : List UInt8

namespace CstaFrameReader

/-- A new reader. -/
def new : CstaFrameReader := ⟨[]⟩

/-- `push`: the frames it returns and the reader after it; `none` when it does not return. -/
def push (reader : CstaFrameReader) (chunk : List UInt8) :
    Option (List CstaFrame × CstaFrameReader) :=
  (drain next (reader.buffer ++ chunk)).map fun (frames, rest) => (frames, ⟨rest⟩)

/-- The chunks are pushed one after another: what each push returns, and the reader at the end. -/
def pushes (reader : CstaFrameReader) : List (List UInt8) →
    Option (List (List CstaFrame) × CstaFrameReader)
  | [] => some ([], reader)
  | chunk :: chunks => do
    let (frames, reader') ← reader.push chunk
    let (more, last) ← reader'.pushes chunks
    return (frames :: more, last)

end CstaFrameReader

/-! ## What the loop finds -/

@[simp] theorem length_toAscii (s : JsString) : (toAscii s).length = s.length := by
  simp [toAscii]

@[simp] theorem length_uint16BE (n : ℕ) : (uint16BE n).length = 2 := rfl

theorem ofAscii_toAscii {s : JsString} (hs : IsAscii s) : ofAscii (toAscii s) = s := by
  simp only [ofAscii, toAscii, map_map]
  conv_rhs => rw [← map_id s]
  apply map_congr_left
  intro c hc
  have hlt : c.toNat < 128 := by simpa [UInt16.lt_iff_toNat_lt] using hs c hc
  apply UInt16.toNat.inj
  have hmask : c.toNat % 256 &&& 127 = c.toNat % 256 % 128 := Nat.and_two_pow_sub_one_eq_mod _ 7
  simp [hmask]
  omega

/-- The length of a frame is read back from its prefix. -/
theorem readUInt16BE_uint16BE {n : ℕ} (hn : n < 2 ^ 16) (rest : List UInt8) :
    readUInt16BE (0x00 :: 0x00 :: (uint16BE n ++ rest)) headerLength = n := by
  have hhigh : n / 256 < 256 := by omega
  simp [readUInt16BE, uint16BE, headerLength, Nat.mod_eq_of_lt hhigh]
  omega

/-- The frames that the claim is about: a four-character ASCII invoke id and an ASCII body, short
enough for the length field. -/
structure CstaFrame.Encodable (f : CstaFrame) : Prop where
  invokeId : IsAscii f.invokeId
  xml : IsAscii f.xml
  length : f.invokeId.length = invokeIdLength
  fits : framePrefixLength + f.invokeId.length + f.xml.length < 2 ^ 16

namespace CstaFrame

/-- The bytes of a frame. -/
def bytes (f : CstaFrame) : List UInt8 := frameBytes f.invokeId f.xml

theorem bytes_eq (f : CstaFrame) :
    f.bytes = 0x00 :: 0x00 :: (uint16BE (framePrefixLength + f.invokeId.length + f.xml.length) ++
      (toAscii f.invokeId ++ toAscii f.xml)) := by
  simp [bytes, frameBytes]

theorem length_bytes (f : CstaFrame) :
    f.bytes.length = framePrefixLength + f.invokeId.length + f.xml.length := by
  simp [bytes_eq, framePrefixLength, headerLength, lengthFieldLength]
  omega

theorem Encodable.readUInt16BE {f : CstaFrame} (hf : f.Encodable) {b : List UInt8}
    (hb : framePrefixLength ≤ b.length) (h : b <+: f.bytes ∨ f.bytes <+: b) :
    Csta.readUInt16BE b headerLength = f.bytes.length := by
  have htake : b.take framePrefixLength = f.bytes.take framePrefixLength := by
    have hlong : framePrefixLength ≤ f.bytes.length := by
      rw [length_bytes]
      omega
    rcases h with ⟨rest, hrest⟩ | ⟨rest, hrest⟩
    · rw [← hrest, take_append_of_le_length hb]
    · rw [← hrest, take_append_of_le_length hlong]
  have hread : ∀ bytes : List UInt8, Csta.readUInt16BE bytes headerLength =
      Csta.readUInt16BE (bytes.take framePrefixLength) headerLength := by
    intro bytes
    simp [Csta.readUInt16BE, getD_eq_getElem?_getD, headerLength, framePrefixLength,
      lengthFieldLength]
  rw [hread, htake, ← hread, length_bytes, bytes_eq, readUInt16BE_uint16BE hf.fits]

end CstaFrame

/-- **The loop reads the encodable frames**: it finds each at the front of any buffer that begins
with it, and waits while it has only a proper prefix of it. -/
theorem frames_next : Frames next CstaFrame.bytes CstaFrame.Encodable where
  empty := rfl
  nonempty := fun f _ h => by simp [CstaFrame.bytes_eq] at h
  complete := fun f hf rest => by
    have hlen := f.length_bytes
    have hlong : framePrefixLength ≤ (f.bytes ++ rest).length := by
      rw [length_append]
      omega
    have htotal := hf.readUInt16BE hlong (.inr (prefix_append _ _))
    have hshort : ¬ (f.bytes ++ rest).length < f.bytes.length := by
      rw [length_append]
      omega
    have hid : ((f.bytes ++ rest).drop framePrefixLength).take invokeIdLength =
        toAscii f.invokeId := by
      rw [← hf.length, ← length_toAscii]
      simp [CstaFrame.bytes_eq, framePrefixLength, headerLength, lengthFieldLength, uint16BE]
    have hxml : ((f.bytes ++ rest).take f.bytes.length).drop
        (framePrefixLength + invokeIdLength) = toAscii f.xml := by
      rw [take_left, ← drop_drop, ← hf.length, ← length_toAscii]
      simp [CstaFrame.bytes_eq, framePrefixLength, headerLength, lengthFieldLength, uint16BE]
    have hplain : ((f.bytes ++ rest).getD 0 0 == 0x00 && (f.bytes ++ rest).getD 1 0 == 0x00) =
        true := by
      simp [CstaFrame.bytes_eq]
    simp only [next, not_lt.2 hlong, if_false, htotal, hshort, hplain, if_true, hid, hxml,
      ofAscii_toAscii hf.invokeId, ofAscii_toAscii hf.xml]
  waits := fun f hf b hb hne => by
    have hlt : b.length < f.bytes.length := by
      refine lt_of_le_of_ne hb.length_le fun heq => hne (hb.eq_of_length heq)
    unfold next
    split
    · rfl
    · rename_i hlong
      simp only [hf.readUInt16BE (not_lt.1 hlong) (.inl hb), hlt, if_true]

/-! ## Any chunking -/

theorem encodeCstaFrame_eq_ok {invokeId xml : JsString} {bytes : List UInt8} :
    encodeCstaFrame invokeId xml = .ok bytes ↔
      invokeId.length = invokeIdLength ∧
        framePrefixLength + invokeId.length + xml.length < 2 ^ 16 ∧
        frameBytes invokeId xml = bytes := by
  unfold encodeCstaFrame
  simp only [length_toAscii]
  split
  · rename_i h
    simp [h]
  · rename_i h
    split
    · rename_i h'
      simp only [reduceCtorEq, false_iff]
      rintro ⟨-, hlt, -⟩
      omega
    · rename_i h'
      rw [not_not] at h
      simp only [Except.ok.injEq]
      exact ⟨fun heq => ⟨h, by omega, heq⟩, fun heq => heq.2.2⟩

/-- The encodings of the frames, one after another, when all are accepted. -/
theorem encodings_eq {fs : List CstaFrame} {encodings : List (List UInt8)}
    (h : fs.mapM (fun f => encodeCstaFrame f.invokeId f.xml) = .ok encodings)
    (hascii : ∀ f ∈ fs, IsAscii f.invokeId ∧ IsAscii f.xml) :
    (∀ f ∈ fs, f.Encodable) ∧ encodings = fs.map CstaFrame.bytes := by
  induction fs generalizing encodings with
  | nil =>
    cases h
    exact ⟨by simp, rfl⟩
  | cons f fs ih =>
    rw [mapM_cons] at h
    obtain ⟨bytes, hf, h⟩ := Runs.bind_eq_ok h
    obtain ⟨rest, hrest, h⟩ := Runs.bind_eq_ok h
    cases h
    obtain ⟨hlength, hfits, rfl⟩ := encodeCstaFrame_eq_ok.1 hf
    obtain ⟨hall, rfl⟩ := ih hrest fun f' hf' => hascii f' (mem_cons_of_mem _ hf')
    obtain ⟨hid, hxml⟩ := hascii f mem_cons_self
    exact ⟨forall_mem_cons.2 ⟨⟨hid, hxml, hlength, hfits⟩, hall⟩, rfl⟩

theorem pushes_eq (buffer : List UInt8) (chunks : List (List UInt8)) :
    (CstaFrameReader.mk buffer).pushes chunks =
      (pushAll next buffer chunks).map fun (returned, rest) => (returned, ⟨rest⟩) := by
  induction chunks generalizing buffer with
  | nil => rfl
  | cons chunk chunks ih =>
    rw [CstaFrameReader.pushes, CstaFrameReader.push, pushAll]
    cases drain next (buffer ++ chunk) with
    | none => rfl
    | some result =>
      obtain ⟨frames, rest⟩ := result
      simp only [Option.map_some, Option.bind_eq_bind, Option.bind_some, ih]
      cases pushAll next rest chunks <;> rfl

/-- **Framing round-trips over any chunking**: when the frames are ASCII and `encodeCstaFrame`
accepts them, then however the encodings are cut into chunks, every push returns, the pushes return
the frames in order, and the buffer is empty at the end. -/
theorem push_encoded {fs : List CstaFrame} {encodings chunks : List (List UInt8)}
    (hascii : ∀ f ∈ fs, IsAscii f.invokeId ∧ IsAscii f.xml)
    (hencode : fs.mapM (fun f => encodeCstaFrame f.invokeId f.xml) = .ok encodings)
    (hchunks : chunks.flatten = encodings.flatten) :
    ∃ returned, CstaFrameReader.new.pushes chunks = some (returned, .new) ∧
      returned.flatten = fs := by
  obtain ⟨hfs, rfl⟩ := encodings_eq hencode hascii
  obtain ⟨returned, hpush, hreturned⟩ := frames_next.pushAll_of_frames hfs hchunks
  refine ⟨returned, ?_, hreturned⟩
  rw [CstaFrameReader.new, pushes_eq, hpush]
  rfl

/-- A short event and a response, each with an invoke id. -/
def twoFrames : List CstaFrame :=
  [⟨[57, 57, 57, 57], [60, 97, 47, 62]⟩, ⟨[48, 48, 48, 49], []⟩]

/-- The stream is cut inside the first prefix and inside the second frame, with an empty chunk. -/
theorem twoFrames_read : ∃ returned,
    CstaFrameReader.new.pushes [[0], [], [0, 0, 12, 57, 57, 57, 57, 60, 97, 47, 62, 0, 0, 0, 8, 48],
      [48, 48, 49]] = some (returned, .new) ∧ returned.flatten = twoFrames :=
  @push_encoded twoFrames (twoFrames.map CstaFrame.bytes) _
    (by simp [twoFrames, IsAscii]) rfl rfl

end Workforce.Integration.Csta
