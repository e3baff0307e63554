import Workforce.Integration.CstaFrames
import Mathlib.Data.Nat.Order.Lemmas

/-!
# CSTA-XML frames of a malformed stream

The length of a frame is what the peer says it is. `CstaFrameReader` takes as many bytes off its
buffer, none when the length is zero, and reads the invoke id at its place whether or not that is
within the frame.

* `Survives`: every push returns, and every frame is made of its own bytes.
* `survives_iff`: exactly for which streams, cut into which chunks, that is so.
-/

namespace Workforce.Integration.Csta

open Framing List

/-- A frame with the buffer that it was read from and the length that it declares. -/
structure Reading where
  buffer : List UInt8
  totalLength : ℕ
  frame : CstaFrame

/-- One round of the loop of `push`, with what it reads from. -/
def reading (buffer : List UInt8) : Option (Option Reading × ℕ) :=
  (next buffer).map fun (frame, n) => (frame.map fun f => ⟨buffer, n, f⟩, n)

/-- The frame is what its own bytes say, without those behind it. -/
def Reading.OwnBytes (r : Reading) : Prop :=
  r.frame.invokeId =
      ofAscii (((r.buffer.take r.totalLength).drop framePrefixLength).take invokeIdLength) ∧
    r.frame.xml = ofAscii ((r.buffer.take r.totalLength).drop (framePrefixLength + invokeIdLength))

/-- Every push returns, and every frame that one returns is made of its own bytes. -/
def Survives (chunks : List (List UInt8)) : Prop :=
  ∃ readings last, pushAll reading [] chunks = some (readings, last) ∧
    CstaFrameReader.new.pushes chunks = some (readings.map (map Reading.frame), ⟨last⟩) ∧
    ∀ r ∈ readings.flatten, r.OwnBytes

/-! ## Streams -/

/-- The header of a frame without SOAP. -/
def IsPlainCstaXml (bytes : List UInt8) : Prop := bytes.getD 0 0 = 0x00 ∧ bytes.getD 1 0 = 0x00
  deriving Decidable

/-- What the frame at `p` declares. -/
def declaredLength (stream : List UInt8) (p : ℕ) : ℕ := readUInt16BE stream (p + headerLength)

/-- The prefix of the frame at `p` has arrived, and as many bytes as it declares. -/
def Arrived (stream : List UInt8) (p : ℕ) : Prop :=
  p + framePrefixLength ≤ stream.length ∧ p + declaredLength stream p ≤ stream.length
  deriving Decidable

/-- A frame starts at a position, by the lengths of the frames before it. -/
inductive FrameStart (stream : List UInt8) : ℕ → Prop
  | zero : FrameStart stream 0
  | next {p : ℕ} : FrameStart stream p → Arrived stream p →
      FrameStart stream (p + declaredLength stream p)

/-- No frame declares the length zero, and one without SOAP that ends before its invoke id does is
the end of what a chunk brings. -/
structure WellDeclared (chunks : List (List UInt8)) : Prop where
  positive : ∀ p, FrameStart chunks.flatten p → Arrived chunks.flatten p →
    declaredLength chunks.flatten p ≠ 0
  whole : ∀ p, FrameStart chunks.flatten p → Arrived chunks.flatten p →
    IsPlainCstaXml (chunks.flatten.drop p) →
    declaredLength chunks.flatten p < framePrefixLength + invokeIdLength →
    ∃ k, (chunks.take k).flatten.length =
      p + max framePrefixLength (declaredLength chunks.flatten p)

/-! ## One round -/

theorem readUInt16BE_drop (stream : List UInt8) (p offset : ℕ) :
    readUInt16BE (stream.drop p) offset = readUInt16BE stream (p + offset) := by
  simp only [readUInt16BE, getD_eq_getElem?_getD, getElem?_drop, Nat.add_assoc]

variable {stream : List UInt8}

theorem readUInt16BE_append {offset : ℕ} (h : offset + 2 ≤ stream.length) (c : List UInt8) :
    readUInt16BE (stream ++ c) offset = readUInt16BE stream offset := by
  simp only [readUInt16BE, getD_eq_getElem?_getD]
  rw [getElem?_append_left (by omega), getElem?_append_left (by omega)]

theorem next_eq_some {buffer : List UInt8} {frame : Option CstaFrame} {n : ℕ} :
    next buffer = some (frame, n) ↔ framePrefixLength ≤ buffer.length ∧ n ≤ buffer.length ∧
      n = readUInt16BE buffer headerLength ∧
      (IsPlainCstaXml buffer ∧
          frame = some ⟨ofAscii ((buffer.drop framePrefixLength).take invokeIdLength),
            ofAscii ((buffer.take n).drop (framePrefixLength + invokeIdLength))⟩ ∨
        ¬ IsPlainCstaXml buffer ∧ frame = none) := by
  have hplain : (buffer.getD 0 0 == 0x00 && buffer.getD 1 0 == 0x00) = true ↔
      IsPlainCstaXml buffer := by
    rw [Bool.and_eq_true, beq_iff_eq, beq_iff_eq, IsPlainCstaXml]
  unfold next
  split
  · rename_i hshort
    simp only [reduceCtorEq, false_iff]
    rintro ⟨hlong, -⟩
    omega
  · rename_i hlong
    dsimp only
    split
    · rename_i hshort
      simp only [reduceCtorEq, false_iff]
      rintro ⟨-, hle, rfl, -⟩
      omega
    · rename_i hcomplete
      by_cases h : IsPlainCstaXml buffer
      · rw [if_pos (hplain.2 h)]
        simp only [Option.some.injEq, Prod.mk.injEq, h, true_and, not_true_eq_false, false_and,
          or_false]
        constructor
        · rintro ⟨rfl, rfl⟩
          exact ⟨not_lt.1 hlong, not_lt.1 hcomplete, rfl, rfl⟩
        · rintro ⟨-, -, rfl, rfl⟩
          exact ⟨rfl, rfl⟩
      · rw [if_neg fun h' => h (hplain.1 h')]
        simp only [Option.some.injEq, Prod.mk.injEq, h, false_and, not_false_eq_true, true_and,
          false_or]
        constructor
        · rintro ⟨rfl, rfl⟩
          exact ⟨not_lt.1 hlong, not_lt.1 hcomplete, rfl, rfl⟩
        · rintro ⟨-, -, rfl, rfl⟩
          exact ⟨rfl, rfl⟩

theorem exists_next_iff {p n : ℕ} :
    (∃ frame, next (stream.drop p) = some (frame, n)) ↔
      Arrived stream p ∧ n = declaredLength stream p := by
  simp only [next_eq_some, readUInt16BE_drop, length_drop]
  constructor
  · rintro ⟨frame, hlong, hle, rfl, -⟩
    refine ⟨⟨?_, ?_⟩, rfl⟩
    · simp only [framePrefixLength, headerLength, lengthFieldLength] at hlong ⊢
      omega
    · simp only [framePrefixLength, headerLength, lengthFieldLength, declaredLength] at *
      omega
  · rintro ⟨⟨hlong, hle⟩, rfl⟩
    have hle' : declaredLength stream p ≤ stream.length - p := by omega
    have hlong' : framePrefixLength ≤ stream.length - p := by omega
    by_cases h : IsPlainCstaXml (stream.drop p)
    · exact ⟨_, hlong', hle', rfl, .inl ⟨h, rfl⟩⟩
    · exact ⟨none, hlong', hle', rfl, .inr ⟨h, rfl⟩⟩

theorem exists_reading_iff {p n : ℕ} :
    (∃ r, reading (stream.drop p) = some (r, n)) ↔
      Arrived stream p ∧ n = declaredLength stream p := by
  rw [← exists_next_iff]
  simp only [reading, Option.map_eq_some_iff, Prod.mk.injEq, Prod.exists]
  constructor
  · rintro ⟨r, frame, n', h, -, rfl⟩
    exact ⟨frame, h⟩
  · rintro ⟨frame, h⟩
    exact ⟨_, frame, n, h, rfl, rfl⟩

/-! ## Positions -/

variable {p : ℕ}

theorem Arrived.append (h : Arrived stream p) (c : List UInt8) :
    Arrived (stream ++ c) p ∧ declaredLength (stream ++ c) p = declaredLength stream p := by
  have hlength : declaredLength (stream ++ c) p = declaredLength stream p := by
    refine readUInt16BE_append ?_ c
    have hlong := h.1
    simp only [framePrefixLength, headerLength, lengthFieldLength] at hlong ⊢
    omega
  refine ⟨⟨?_, ?_⟩, hlength⟩
  · rw [length_append]
    exact Nat.le_add_right_of_le h.1
  · rw [hlength, length_append]
    exact Nat.le_add_right_of_le h.2

theorem Arrived.isPlain_append (h : Arrived stream p) (c : List UInt8) :
    IsPlainCstaXml ((stream ++ c).drop p) ↔ IsPlainCstaXml (stream.drop p) := by
  have hlong := h.1
  simp only [framePrefixLength, headerLength, lengthFieldLength] at hlong
  simp only [IsPlainCstaXml, getD_eq_getElem?_getD, getElem?_drop]
  rw [getElem?_append_left (by omega), getElem?_append_left (by omega)]

theorem steady_reading : Steady reading where
  length_le {b f n} h := by
    obtain ⟨⟨-, hle⟩, rfl⟩ := exists_reading_iff.1 ⟨f, (drop_zero (l := b)).symm ▸ h⟩
    rwa [Nat.zero_add] at hle
  append {b f n} h c := by
    obtain ⟨harrived, rfl⟩ := exists_reading_iff.1 ⟨f, (drop_zero (l := b)).symm ▸ h⟩
    obtain ⟨harrived', hlength⟩ := harrived.append c
    rw [← hlength, ← drop_zero (l := b ++ c)]
    exact exists_reading_iff.2 ⟨harrived', rfl⟩

theorem leads_reading {p q : ℕ} :
    Leads reading stream p q ↔ Arrived stream p ∧ q = p + declaredLength stream p := by
  constructor
  · rintro ⟨f, n, h, rfl⟩
    obtain ⟨harrived, rfl⟩ := exists_reading_iff.1 ⟨f, h⟩
    exact ⟨harrived, rfl⟩
  · rintro ⟨harrived, rfl⟩
    obtain ⟨f, h⟩ := exists_reading_iff.2 ⟨harrived, rfl⟩
    exact ⟨f, _, h, rfl⟩

theorem starts_reading :
    Starts reading stream p ↔ FrameStart stream p := by
  constructor
  · intro h
    induction h with
    | refl => exact .zero
    | tail _ hlast ih =>
      obtain ⟨harrived, rfl⟩ := leads_reading.1 hlast
      exact ih.next harrived
  · intro h
    induction h with
    | zero => exact .refl
    | next _ harrived ih => exact ih.tail (leads_reading.2 ⟨harrived, rfl⟩)

theorem complete_reading :
    Complete reading stream p ↔ FrameStart stream p ∧ Arrived stream p := by
  refine and_congr starts_reading ?_
  rw [Option.ne_none_iff_exists']
  constructor
  · rintro ⟨⟨f, n⟩, h⟩
    exact (exists_reading_iff.1 ⟨f, h⟩).1
  · intro h
    obtain ⟨f, h⟩ := exists_reading_iff.2 ⟨h, rfl⟩
    exact ⟨_, h⟩

/-- Whether a frame is complete is seen from as many bytes as its prefix and its length ask for. -/
theorem complete_of_take {p m : ℕ} (hstart : FrameStart stream p) (harrived : Arrived stream p)
    (hm : p + max framePrefixLength (declaredLength stream p) ≤ m) :
    FrameStart (stream.take m) p ∧ Arrived (stream.take m) p := by
  have hread : ∀ {q}, q + framePrefixLength ≤ m → q + framePrefixLength ≤ stream.length →
      declaredLength (stream.take m) q = declaredLength stream q := by
    intro q hq hlong
    have hfield : q + headerLength + 2 ≤ (stream.take m).length := by
      rw [length_take]
      simp only [framePrefixLength, headerLength, lengthFieldLength] at hq hlong ⊢
      omega
    have hsame := readUInt16BE_append hfield (stream.drop m)
    rw [take_append_drop] at hsame
    exact hsame.symm
  have harrives : ∀ {q}, q + framePrefixLength ≤ m → q + declaredLength stream q ≤ m →
      Arrived stream q → Arrived (stream.take m) q := by
    rintro q hq hle ⟨hlong, harrived⟩
    rw [Arrived, hread hq hlong, length_take]
    exact ⟨le_min hq hlong, le_min hle harrived⟩
  have hstarts : ∀ {q}, FrameStart stream q → q + framePrefixLength ≤ m →
      FrameStart (stream.take m) q := by
    intro q h
    induction h with
    | zero => exact fun _ => .zero
    | @next q hq harrived ih =>
      intro hle
      have hq' : q + framePrefixLength ≤ m := by omega
      rw [← hread hq' harrived.1]
      refine (ih hq').next (harrives hq' (by omega) harrived)
  have hlong : p + framePrefixLength ≤ m := by omega
  exact ⟨hstarts hstart hlong, harrives hlong (by omega) harrived⟩

/-! ## Any stream, any chunks -/

theorem pushes_eq_readings (chunks : List (List UInt8)) :
    CstaFrameReader.new.pushes chunks = (pushAll reading [] chunks).map fun (readings, last) =>
      (readings.map (map Reading.frame), ⟨last⟩) := by
  have hmap : ∀ b, next b = (reading b).map fun (r, n) => (r.map Reading.frame, n) := by
    intro b
    rw [reading, Option.map_map]
    cases next b with
    | none => rfl
    | some found =>
      obtain ⟨f, n⟩ := found
      cases f <;> rfl
  rw [CstaFrameReader.new, pushes_eq, pushAll_map hmap, Option.map_map]
  rfl

theorem exists_reading_of_plain (harrived : Arrived stream p)
    (hplain : IsPlainCstaXml (stream.drop p)) :
    ∃ r, reading (stream.drop p) = some (some r, declaredLength stream p) := by
  obtain ⟨frame, hnext⟩ := exists_next_iff.2 ⟨harrived, rfl⟩
  obtain ⟨-, -, -, ⟨-, rfl⟩ | ⟨hsoap, -⟩⟩ := next_eq_some.1 hnext
  · exact ⟨_, by rw [reading, hnext]; rfl⟩
  · exact absurd hplain hsoap

theorem reading_eq_some {p n : ℕ} {r : Reading} (h : reading (stream.drop p) = some (some r, n)) :
    r.buffer = stream.drop p ∧ r.totalLength = declaredLength stream p ∧
      IsPlainCstaXml (stream.drop p) ∧
      r.frame.invokeId = ofAscii ((r.buffer.drop framePrefixLength).take invokeIdLength) ∧
      r.frame.xml =
        ofAscii ((r.buffer.take r.totalLength).drop (framePrefixLength + invokeIdLength)) := by
  simp only [reading, Option.map_eq_some_iff, Prod.mk.injEq, Prod.exists] at h
  obtain ⟨frame, n', hnext, hr, rfl⟩ := h
  obtain ⟨f, rfl, rfl⟩ := hr
  obtain ⟨-, -, rfl, ⟨hplain, hframe⟩ | ⟨-, hframe⟩⟩ := next_eq_some.1 hnext
  · cases hframe
    exact ⟨rfl, readUInt16BE_drop .., hplain, rfl, rfl⟩
  · cases hframe

/-- A frame is made of its own bytes when it has room for the invoke id, or nothing is there behind
what the reader has waited for. -/
theorem ownBytes_iff {r : Reading} (hlong : r.totalLength ≤ r.buffer.length)
    (hid : r.frame.invokeId = ofAscii ((r.buffer.drop framePrefixLength).take invokeIdLength))
    (hxml : r.frame.xml =
      ofAscii ((r.buffer.take r.totalLength).drop (framePrefixLength + invokeIdLength))) :
    r.OwnBytes ↔ framePrefixLength + invokeIdLength ≤ r.totalLength ∨
      r.buffer.length ≤ max framePrefixLength r.totalLength := by
  rw [Reading.OwnBytes, hid, ← hxml]
  simp only [and_true, framePrefixLength, headerLength, lengthFieldLength, invokeIdLength]
  constructor
  · intro h
    have hlength := congrArg length h
    simp only [ofAscii, length_map, length_take, length_drop] at hlength
    omega
  · rintro (h | h)
    · rw [drop_take, take_take, Nat.min_eq_left (by omega)]
    · by_cases hprefix : 2 + 2 ≤ r.totalLength
      · have hall : r.buffer.take r.totalLength = r.buffer := take_of_length_le (by omega)
        rw [hall]
      · rw [drop_of_length_le (by omega), drop_of_length_le (by
          rw [length_take]
          omega)]

/-- The chunks that complete the frame at `p` bring no less than the reader waits for. -/
theorem le_length_of_arrived (h : Arrived stream p) :
    p + max framePrefixLength (declaredLength stream p) ≤ stream.length := by
  obtain ⟨hlong, hlength⟩ := h
  omega

variable {chunks : List (List UInt8)}

/-- A frame of the stream is read with the first chunks that reach its end. -/
theorem exists_completing (hstart : FrameStart chunks.flatten p)
    (harrived : Arrived chunks.flatten p) :
    ∃ k < chunks.length, ¬ Complete reading (chunks.take k).flatten p ∧
      Complete reading (chunks.take (k + 1)).flatten p := by
  obtain ⟨k, hbefore, hafter⟩ := Nat.exists_not_and_succ_of_not_zero_of_exists
    (p := fun k => Complete reading (chunks.take k).flatten p) (fun h => h.2 (by simp; rfl))
    ⟨chunks.length, by
      rw [take_length]
      exact complete_reading.2 ⟨hstart, harrived⟩⟩
  refine ⟨k, ?_, hbefore, hafter⟩
  by_contra hle
  rw [take_of_length_le (by omega)] at hbefore hafter
  exact hbefore hafter

/-- What the first chunks bring is the beginning of what more of them bring. -/
theorem exists_flatten_take (chunks : List (List UInt8)) {k m : ℕ} (h : k ≤ m) :
    ∃ c, (chunks.take m).flatten = (chunks.take k).flatten ++ c := by
  obtain ⟨rest, hrest⟩ := take_prefix_take_left (l := chunks) h
  exact ⟨rest.flatten, by rw [← hrest, flatten_append]⟩

theorem length_flatten_take_le (chunks : List (List UInt8)) {k m : ℕ} (h : k ≤ m) :
    (chunks.take k).flatten.length ≤ (chunks.take m).flatten.length := by
  obtain ⟨c, hc⟩ := exists_flatten_take chunks h
  rw [hc, length_append]
  exact Nat.le_add_right _ _

/-- The first chunks that complete a frame bring all that the reader waits for, and the chunks
before them less. -/
theorem completing_iff {k p : ℕ} (hstart : FrameStart (chunks.take (k + 1)).flatten p)
    (harrived : Arrived (chunks.take (k + 1)).flatten p) :
    ¬ Complete reading (chunks.take k).flatten p ↔ (chunks.take k).flatten.length <
      p + max framePrefixLength (declaredLength (chunks.take (k + 1)).flatten p) := by
  obtain ⟨c, hc⟩ := exists_flatten_take chunks (Nat.le_succ k)
  rw [← not_le, not_iff_not, complete_reading]
  constructor
  · rintro ⟨-, h⟩
    rw [hc, (h.append c).2]
    exact le_length_of_arrived h
  · intro hle
    have hcomplete := complete_of_take hstart harrived hle
    rwa [hc, take_left] at hcomplete

theorem reading_nil : reading [] = none := rfl

theorem wellDeclared_of_survives (h : Survives chunks) :
    WellDeclared chunks := by
  obtain ⟨readings, last, hpush, -, hown⟩ := h
  refine ⟨fun p hstart harrived hzero => ?_, fun p hstart harrived hplain hshort => ?_⟩
  · obtain ⟨f, hf⟩ := exists_reading_iff.2 ⟨harrived, rfl⟩
    rw [hzero] at hf
    have hnone := (steady_reading.pushAll_eq_none_iff reading_nil chunks).2
      ⟨p, f, starts_reading.2 hstart, hf⟩
    rw [hnone] at hpush
    cases hpush
  · obtain ⟨k, hk, hbefore, hafter⟩ := exists_completing hstart harrived
    have harrived' := (complete_reading.1 hafter).2
    obtain ⟨c, hc⟩ := exists_flatten_take chunks (Nat.succ_le_of_lt hk)
    rw [take_length] at hc
    rw [hc, harrived'.isPlain_append] at hplain
    rw [hc, (harrived'.append c).2]
    obtain ⟨r, hr⟩ := exists_reading_of_plain harrived' hplain
    have hmem : r ∈ readings.flatten := (steady_reading.mem_pushAll_iff reading_nil hpush r).2
      ⟨k, p, _, hk, hafter.1, hr, hbefore⟩
    obtain ⟨hbuffer, htotal, -, hid, hxml⟩ := reading_eq_some hr
    have hle := le_length_of_arrived harrived'
    have hown' := (ownBytes_iff (by
      rw [hbuffer, htotal, length_drop]
      omega) hid hxml).1 (hown r hmem)
    rw [hbuffer, htotal, length_drop] at hown'
    rw [hc, (harrived'.append c).2] at hshort
    exact ⟨k + 1, by omega⟩

theorem survives_of_wellDeclared (h : WellDeclared chunks) :
    Survives chunks := by
  obtain ⟨hpositive, hwhole⟩ := h
  cases hpush : pushAll reading [] chunks with
  | none =>
    obtain ⟨p, f, hstart, hf⟩ := (steady_reading.pushAll_eq_none_iff reading_nil chunks).1 hpush
    obtain ⟨harrived, hzero⟩ := exists_reading_iff.1 ⟨f, hf⟩
    exact absurd hzero.symm (hpositive p (starts_reading.1 hstart) harrived)
  | some result =>
    obtain ⟨readings, last⟩ := result
    refine ⟨readings, last, hpush, by rw [pushes_eq_readings, hpush]; rfl, fun r hr => ?_⟩
    obtain ⟨k, p, n, hk, hstart, hf, hbefore⟩ :=
      (steady_reading.mem_pushAll_iff reading_nil hpush r).1 hr
    obtain ⟨harrived, rfl⟩ := exists_reading_iff.1 ⟨_, hf⟩
    obtain ⟨hbuffer, htotal, hplain, hid, hxml⟩ := reading_eq_some hf
    rw [starts_reading] at hstart
    have hle := le_length_of_arrived harrived
    have hless := (completing_iff hstart harrived).1 hbefore
    obtain ⟨c, hc⟩ := exists_flatten_take chunks (Nat.succ_le_of_lt hk)
    rw [take_length] at hc
    refine (ownBytes_iff (by
      rw [hbuffer, htotal, length_drop]
      omega) hid hxml).2 (or_iff_not_imp_left.2 fun hshort => ?_)
    rw [htotal, not_le] at hshort
    have hends := hwhole p
    rw [hc, (harrived.append c).2] at hends
    obtain ⟨k', hk'⟩ := hends (starts_reading.1 (steady_reading.starts_append
      (starts_reading.2 hstart) c).1) (harrived.append c).1
      ((harrived.isPlain_append c).2 hplain) hshort
    -- a chunk ends where the frame is complete, which is not before this one
    have hlast : (chunks.take (k + 1)).flatten.length ≤ (chunks.take k').flatten.length := by
      by_contra hlt
      have hk'' : k' ≤ k := not_lt.1 fun h => hlt (length_flatten_take_le chunks h)
      have hmono := length_flatten_take_le chunks hk''
      omega
    rw [hbuffer, htotal, length_drop]
    omega

/-- **The reader survives** exactly the streams whose frames are long enough, where a chunk may hide
that one is not. -/
theorem survives_iff (chunks : List (List UInt8)) : Survives chunks ↔ WellDeclared chunks :=
  ⟨wellDeclared_of_survives, survives_of_wellDeclared⟩

/-- A frame that declares no bytes keeps the reader for ever, and one that declares its prefix only
takes its invoke id from what follows it. -/
theorem short_not_survives :
    ¬ Survives [[0, 0, 0, 0]] ∧ ¬ Survives [[0, 0, 0, 4, 57, 57, 57, 57]] := by
  refine ⟨fun h => ?_, fun h => ?_⟩
  · exact (wellDeclared_of_survives h).positive 0 .zero (by decide) (by decide)
  · obtain ⟨k, hk⟩ := (wellDeclared_of_survives h).whole 0 .zero (by decide) (by decide) (by decide)
    have hlength : ([[0, 0, 0, 4, 57, 57, 57, 57]].take k : List (List UInt8)).flatten.length = 0 ∨
        ([[0, 0, 0, 4, 57, 57, 57, 57]].take k : List (List UInt8)).flatten.length = 8 := by
      cases k with
      | zero => exact .inl rfl
      | succ k => exact .inr (by simp)
    rw [hk] at hlength
    revert hlength
    decide

end Workforce.Integration.Csta
