import Mathlib.Algebra.Ring.Nat
import Mathlib.Data.List.Infix
import Mathlib.Logic.Relation

/-!
# Frames in a stream of chunks

A stream carries frames one after another, but arrives in chunks that know nothing of them. A reader
keeps what it could not use yet in a buffer; with every chunk it takes frames off the front of the
buffer until the front is not complete (`drain`).

What is at the front is said by a function `front`: nothing complete, or a unit of some length that
holds a frame or is to be skipped. When `front` finds every encoded frame and waits on each of its
proper prefixes (`Frames`), the frames come out as they went in, wherever the chunks are cut
(`pushAll_of_frames`).

Of a stream that is not made of such frames it is still known where the units start, as long as more
bytes never change the length of a complete one (`Steady`): then the pushes end unless a unit takes
nothing off (`pushAll_eq_none_iff`), and each unit is read when the first chunk completes it
(`mem_pushAll_iff`).
-/

namespace Workforce.Framing

open List

variable {β φ : Type*}

section Reader

variable (front : List β → Option (Option φ × ℕ))

/-- The loop that takes units off the front of the buffer: the frames and the rest of the buffer.
It is `none` when the loop does not end, since the unit at the front takes nothing off. -/
def drain (buffer : List β) : Option (List φ × List β) :=
  match front buffer with
  | none => some ([], buffer)
  | some (frame, n) =>
    if 0 < n ∧ 0 < buffer.length then
      (drain (buffer.drop n)).map fun (frames, rest) => (frame.toList ++ frames, rest)
    else none
termination_by buffer.length
decreasing_by
  rw [length_drop]
  omega

/-- The chunks are pushed one after another: the frames that each push returns, and the buffer. -/
def pushAll : List β → List (List β) → Option (List (List φ) × List β)
  | buffer, [] => some ([], buffer)
  | buffer, chunk :: chunks => do
    let (frames, rest) ← drain front (buffer ++ chunk)
    let (more, last) ← pushAll rest chunks
    return (frames :: more, last)

end Reader

/-- `front` reads the frames that satisfy `ok`, in the encoding `encode`. -/
structure Frames (front : List β → Option (Option φ × ℕ)) (encode : φ → List β) (ok : φ → Prop) :
    Prop where
  empty : front [] = none
  nonempty : ∀ f, ok f → encode f ≠ []
  complete : ∀ f, ok f → ∀ rest, front (encode f ++ rest) = some (some f, (encode f).length)
  waits : ∀ f, ok f → ∀ b, b <+: encode f → b ≠ encode f → front b = none

variable {front : List β → Option (Option φ × ℕ)} {encode : φ → List β} {ok : φ → Prop}

theorem drain_of_none {buffer : List β} (h : front buffer = none) :
    drain front buffer = some ([], buffer) := by
  rw [drain, h]

/-- A unit that takes nothing off keeps the loop going for ever. -/
theorem drain_of_zero {buffer : List β} {frame : Option φ} (h : front buffer = some (frame, 0)) :
    drain front buffer = none := by
  rw [drain, h]
  simp

/-- A reader of the same units that says other things about them. -/
theorem drain_map {ψ : Type*} {front' : List β → Option (Option ψ × ℕ)} {g : ψ → φ}
    (h : ∀ b, front b = (front' b).map fun (x, n) => (x.map g, n)) (buffer : List β) :
    drain front buffer = (drain front' buffer).map fun (xs, rest) => (xs.map g, rest) := by
  induction buffer using drain.induct front' with
  | case1 b hnone =>
    rw [drain_of_none hnone, drain_of_none (by rw [h, hnone]; rfl)]
    rfl
  | case2 b x n hfront hpos ih =>
    have hfront' : front b = some (x.map g, n) := by rw [h, hfront]; rfl
    rw [drain, drain, hfront, hfront']
    simp only [if_pos hpos, ih, Option.map_map]
    congr 1
    funext ⟨xs, rest⟩
    cases x <;> rfl
  | case3 b x n hfront hpos =>
    have hfront' : front b = some (x.map g, n) := by rw [h, hfront]; rfl
    rw [drain, drain, hfront, hfront']
    simp only [if_neg hpos, Option.map_none]

theorem pushAll_map {ψ : Type*} {front' : List β → Option (Option ψ × ℕ)} {g : ψ → φ}
    (h : ∀ b, front b = (front' b).map fun (x, n) => (x.map g, n)) (buffer : List β)
    (chunks : List (List β)) :
    pushAll front buffer chunks =
      (pushAll front' buffer chunks).map fun (xs, rest) => (xs.map (map g), rest) := by
  induction chunks generalizing buffer with
  | nil => rfl
  | cons chunk chunks ih =>
    rw [pushAll, pushAll, drain_map h]
    cases drain front' (buffer ++ chunk) with
    | none => rfl
    | some result =>
      obtain ⟨xs, rest⟩ := result
      simp only [Option.map_some, Option.bind_eq_bind, Option.bind_some, ih]
      cases pushAll front' rest chunks <;> rfl

/-- What is taken off carries no more than its length. -/
theorem sum_drain_le {w : φ → ℕ} (hle : ∀ {b f n}, front b = some (f, n) → n ≤ b.length)
    (hw : ∀ {b x n}, front b = some (some x, n) → w x ≤ n) {buffer rest : List β} {xs : List φ}
    (h : drain front buffer = some (xs, rest)) : (xs.map w).sum + rest.length ≤ buffer.length := by
  induction buffer using drain.induct front generalizing xs with
  | case1 b hnone =>
    rw [drain_of_none hnone] at h
    cases h
    simp
  | case2 b x n hfront hpos ih =>
    rw [drain, hfront] at h
    simp only [if_pos hpos, Option.map_eq_some_iff, Prod.mk.injEq, Prod.exists] at h
    obtain ⟨ys, rest', hdrain, rfl, rfl⟩ := h
    have hys := ih hdrain
    have hn := hle hfront
    rw [length_drop] at hys
    cases x with
    | none =>
      rw [Option.toList_none, nil_append]
      omega
    | some x =>
      have hx := hw hfront
      rw [Option.toList_some, singleton_append, map_cons, sum_cons]
      omega
  | case3 b x n hfront hpos =>
    rw [drain, hfront] at h
    simp only [if_neg hpos, reduceCtorEq] at h

theorem sum_pushAll_le {w : φ → ℕ} (hle : ∀ {b f n}, front b = some (f, n) → n ≤ b.length)
    (hw : ∀ {b x n}, front b = some (some x, n) → w x ≤ n) {buffer last : List β}
    {chunks : List (List β)} {returned : List (List φ)}
    (h : pushAll front buffer chunks = some (returned, last)) :
    (returned.flatten.map w).sum + last.length ≤ buffer.length + chunks.flatten.length := by
  induction chunks generalizing buffer returned with
  | nil =>
    cases h
    simp
  | cons chunk chunks ih =>
    simp only [pushAll, Option.bind_eq_bind, Option.bind_eq_some_iff, Option.pure_def,
      Option.some.injEq, Prod.mk.injEq, Prod.exists] at h
    obtain ⟨xs, rest, hdrain, more, last', hpush, rfl, rfl⟩ := h
    have hxs := sum_drain_le hle hw hdrain
    have hmore := ih hpush
    rw [length_append] at hxs
    rw [flatten_cons, flatten_cons, map_append, sum_append, length_append]
    omega

namespace Frames

variable (hfront : Frames front encode ok)

include hfront

theorem drain_append {f : φ} (hf : ok f) (b : List β) :
    drain front (encode f ++ b) =
      (drain front b).map fun (frames, rest) => (f :: frames, rest) := by
  have hlen : 0 < (encode f).length := length_pos_iff.2 (hfront.nonempty f hf)
  have hlen' : 0 < (encode f ++ b).length := by
    rw [length_append]
    omega
  rw [drain, hfront.complete f hf b]
  simp only [hlen, hlen', and_self, if_true, drop_left, Option.toList_some, singleton_append]

/-- Of a prefix of encoded frames, the loop takes off the complete ones and waits on the rest. -/
theorem drain_prefix {fs : List φ} (hfs : ∀ f ∈ fs, ok f) {b : List β}
    (hb : b <+: fs.flatMap encode) :
    ∃ done todo rest, fs = done ++ todo ∧ b = done.flatMap encode ++ rest ∧
      drain front b = some (done, rest) ∧ front rest = none := by
  induction fs generalizing b with
  | nil =>
    obtain rfl : b = [] := by simpa using hb
    exact ⟨[], [], [], rfl, rfl, drain_of_none hfront.empty, hfront.empty⟩
  | cons f fs ih =>
    have hf := hfs f mem_cons_self
    rw [flatMap_cons] at hb
    -- either the first frame is complete, or the buffer is one of its proper prefixes
    by_cases hlong : encode f <+: b
    · obtain ⟨b', rfl⟩ := hlong
      have hb' : b' <+: fs.flatMap encode := (prefix_append_right_inj _).1 hb
      obtain ⟨done, todo, rest, rfl, rfl, hdrain, hrest⟩ :=
        ih (fun f' hf' => hfs f' (mem_cons_of_mem _ hf')) hb'
      refine ⟨f :: done, todo, rest, rfl, by simp, ?_, hrest⟩
      rw [hfront.drain_append hf, hdrain]
      rfl
    · have hshort : b <+: encode f :=
        (List.prefix_or_prefix_of_prefix hb (prefix_append _ _)).resolve_right hlong
      have hne : b ≠ encode f := fun heq => hlong (heq ▸ prefix_refl _)
      have hwait := hfront.waits f hf b hshort hne
      exact ⟨[], f :: fs, b, rfl, by simp, drain_of_none hwait, hwait⟩

/-- A buffer that is waited on is shorter than the frame that it begins. -/
theorem length_lt_of_waits {f : φ} (hf : ok f) {b rest : List β} (hwait : front b = none)
    (hb : b <+: encode f ++ rest) : b.length < (encode f).length := by
  by_contra hle
  obtain ⟨b', rfl⟩ := prefix_of_prefix_length_le (prefix_append _ _) hb (not_lt.1 hle)
  rw [hfront.complete f hf b'] at hwait
  cases hwait

/-- The invariant of the reader: what is buffered and what is still to come encode the frames that
have not been returned, and the buffer holds none of them whole. -/
theorem pushAll_of_append {fs : List φ} (hfs : ∀ f ∈ fs, ok f) {buffer : List β}
    {chunks : List (List β)} (hbuffer : front buffer = none)
    (hstream : buffer ++ chunks.flatten = fs.flatMap encode) :
    ∃ returned, pushAll front buffer chunks = some (returned, []) ∧ returned.flatten = fs := by
  induction chunks generalizing buffer fs with
  | nil =>
    cases fs with
    | nil =>
      obtain rfl : buffer = [] := by simpa using hstream
      exact ⟨[], rfl, rfl⟩
    | cons f fs =>
      rw [flatten_nil, append_nil, flatMap_cons] at hstream
      rw [hstream, hfront.complete f (hfs f mem_cons_self)] at hbuffer
      cases hbuffer
  | cons chunk chunks ih =>
    rw [flatten_cons, ← append_assoc] at hstream
    obtain ⟨done, todo, rest, rfl, hb, hdrain, hrest⟩ :=
      hfront.drain_prefix hfs ⟨chunks.flatten, hstream⟩
    have hstream' : rest ++ chunks.flatten = todo.flatMap encode := by
      rw [hb, flatMap_append, append_assoc] at hstream
      exact append_cancel_left hstream
    have htodo : ∀ f ∈ todo, ok f := fun f hf => hfs f (mem_append_right _ hf)
    obtain ⟨returned, hpush, hreturned⟩ := ih htodo hrest hstream'
    refine ⟨done :: returned, ?_, by simp [hreturned]⟩
    simp [pushAll, hdrain, hpush]

/-- **Framing does not depend on the chunks**: however the encodings of a list of frames are cut,
the pushes return the frames, in order, and leave nothing in the buffer. -/
theorem pushAll_of_frames {fs : List φ} (hfs : ∀ f ∈ fs, ok f) {chunks : List (List β)}
    (hstream : chunks.flatten = fs.flatMap encode) :
    ∃ returned, pushAll front [] chunks = some (returned, []) ∧ returned.flatten = fs :=
  hfront.pushAll_of_append hfs hfront.empty hstream

end Frames

/-! ## Any stream -/

/-- The length of a complete unit is no more than what is there, and more does not change it. -/
structure Steady (front : List β → Option (Option φ × ℕ)) : Prop where
  length_le : ∀ {b f n}, front b = some (f, n) → n ≤ b.length
  append : ∀ {b f n}, front b = some (f, n) → ∀ c, ∃ f', front (b ++ c) = some (f', n)

/-- A complete unit at `p` ends at `q`. -/
def Leads (front : List β → Option (Option φ × ℕ)) (stream : List β) (p q : ℕ) : Prop :=
  ∃ f n, front (stream.drop p) = some (f, n) ∧ q = p + n

/-- A unit starts at `p`, after the complete ones before it. -/
def Starts (front : List β → Option (Option φ × ℕ)) (stream : List β) : ℕ → Prop :=
  Relation.ReflTransGen (Leads front stream) 0

theorem leads_rightUnique (stream : List β) : Relator.RightUnique (Leads front stream) := by
  rintro p q r ⟨f, n, hq, rfl⟩ ⟨f', n', hr, rfl⟩
  rw [hq] at hr
  cases hr
  rfl

variable {stream : List β}

theorem eq_of_front_none {p q : ℕ} (hp : front (stream.drop p) = none)
    (h : Relation.ReflTransGen (Leads front stream) p q) : q = p := by
  rcases h.cases_head with rfl | ⟨r, ⟨f, n, hr, -⟩, -⟩
  · rfl
  · rw [hp] at hr
    cases hr

/-- A unit that takes nothing off is the last one. -/
theorem eq_of_front_zero {p q : ℕ} {f : Option φ} (hp : front (stream.drop p) = some (f, 0))
    (h : Relation.ReflTransGen (Leads front stream) p q) : q = p := by
  induction h with
  | refl => rfl
  | tail _ hlast ih =>
    subst ih
    obtain ⟨f', n, hq, rfl⟩ := hlast
    rw [hp] at hq
    cases hq
    rfl

/-- The loop, started at a position of a stream. -/
theorem drain_drop (hsteady : Steady front) (stream : List β) (p : ℕ) :
    match drain front (stream.drop p) with
    | none => ∃ q f, Relation.ReflTransGen (Leads front stream) p q ∧
        front (stream.drop q) = some (f, 0)
    | some (frames, rest) => ∃ q, Relation.ReflTransGen (Leads front stream) p q ∧
        rest = stream.drop q ∧ front rest = none ∧
        ∀ x, x ∈ frames ↔ ∃ r n, Relation.ReflTransGen (Leads front stream) p r ∧
          front (stream.drop r) = some (some x, n) := by
  generalize hb : stream.drop p = b
  induction b using drain.induct front generalizing p with
  | case1 b hnone =>
    rw [drain_of_none hnone]
    refine ⟨p, .refl, hb.symm, hnone, fun x => ⟨fun hx => absurd hx not_mem_nil, ?_⟩⟩
    rintro ⟨r, n, hr, hfront⟩
    rw [eq_of_front_none (hb ▸ hnone) hr, hb, hnone] at hfront
    cases hfront
  | case2 b frame n hfront hpos ih =>
    have hnext : Leads front stream p (p + n) := ⟨frame, n, hb ▸ hfront, rfl⟩
    have hrest := ih (p + n) (by rw [← hb, drop_drop])
    rw [drain, hfront]
    simp only [if_pos hpos]
    cases hdrain : drain front (b.drop n) with
    | none =>
      rw [hdrain] at hrest
      obtain ⟨q, f, hq, hzero⟩ := hrest
      exact ⟨q, f, hq.head hnext, hzero⟩
    | some result =>
      obtain ⟨frames, rest⟩ := result
      rw [hdrain] at hrest
      obtain ⟨q, hq, rfl, hnone, hmem⟩ := hrest
      refine ⟨q, hq.head hnext, rfl, hnone, fun x => ?_⟩
      rw [mem_append, hmem]
      constructor
      · rintro (hx | ⟨r, m, hr, hx⟩)
        · obtain rfl := Option.mem_def.1 (Option.mem_toList.1 hx)
          exact ⟨p, n, .refl, hb ▸ hfront⟩
        · exact ⟨r, m, hr.head hnext, hx⟩
      · rintro ⟨r, m, hr, hx⟩
        rcases hr.cases_head with rfl | ⟨q', hq', hr⟩
        · rw [hb, hfront] at hx
          cases hx
          exact .inl (by simp)
        · obtain rfl := leads_rightUnique stream hnext hq'
          exact .inr ⟨r, m, hr, hx⟩
  | case3 b frame n hfront hpos =>
    have hzero : n = 0 := by
      have hle := hsteady.length_le hfront
      omega
    subst hzero
    rw [drain_of_zero hfront]
    exact ⟨p, frame, .refl, hb ▸ hfront⟩

theorem le_of_leads {p q : ℕ} (h : Relation.ReflTransGen (Leads front stream) p q) : p ≤ q := by
  induction h with
  | refl => exact le_rfl
  | tail _ hlast ih =>
    obtain ⟨f, n, -, rfl⟩ := hlast
    omega

/-- The unit at `q` is complete. -/
def Complete (front : List β → Option (Option φ × ℕ)) (stream : List β) (q : ℕ) : Prop :=
  Starts front stream q ∧ front (stream.drop q) ≠ none

namespace Steady

variable (hsteady : Steady front)

include hsteady

variable {stream : List β}

theorem leads_append {p q : ℕ} (hp : p ≤ stream.length) (h : Leads front stream p q) (c : List β) :
    Leads front (stream ++ c) p q := by
  obtain ⟨f, n, hfront, rfl⟩ := h
  obtain ⟨f', hfront'⟩ := hsteady.append hfront c
  exact ⟨f', n, by rw [drop_append_of_le_length hp, hfront'], rfl⟩

theorem starts_append {q : ℕ} (h : Starts front stream q) (c : List β) :
    Starts front (stream ++ c) q ∧ q ≤ stream.length := by
  induction h with
  | refl => exact ⟨.refl, Nat.zero_le _⟩
  | tail _ hlast ih =>
    refine ⟨ih.1.tail (hsteady.leads_append ih.2 hlast c), ?_⟩
    obtain ⟨f, n, hfront, rfl⟩ := hlast
    have hle := hsteady.length_le hfront
    rw [length_drop] at hle
    have hq := ih.2
    omega

/-- The units before a start are complete without what comes later. -/
theorem complete_of_leads {p s : ℕ} (h : Starts front stream p) {c : List β}
    (hs : Starts front (stream ++ c) s)
    (hsp : Relation.ReflTransGen (Leads front (stream ++ c)) s p) (hne : s ≠ p) :
    Complete front stream s := by
  induction h with
  | refl => exact absurd (Nat.le_zero.1 (le_of_leads hsp)) hne
  | @tail b p hb hbp ih =>
    obtain ⟨hb', hle⟩ := hsteady.starts_append hb c
    have hbp' := hsteady.leads_append hle hbp c
    have hcomplete : Complete front stream b := by
      obtain ⟨f, n, hfront, -⟩ := hbp
      exact ⟨hb, by simp [hfront]⟩
    by_cases hsb : s = b
    · exact hsb ▸ hcomplete
    rcases Relation.ReflTransGen.total_of_right_unique (leads_rightUnique _) hs hb' with h | h
    · exact ih h hsb
    · -- the unit at `b` ends at `p`, which is not before `s`
      rcases h.cases_head with rfl | ⟨p', hp', hps⟩
      · exact absurd rfl hsb
      · obtain rfl := leads_rightUnique _ hbp' hp'
        exact absurd (le_antisymm (le_of_leads hsp) (le_of_leads hps)) hne

theorem pushAll_drop {p : ℕ} (hp : Starts front stream p) (hnone : front (stream.drop p) = none)
    (chunks : List (List β)) :
    match pushAll front (stream.drop p) chunks with
    | none => ∃ q f, Starts front (stream ++ chunks.flatten) q ∧
        front ((stream ++ chunks.flatten).drop q) = some (f, 0)
    | some (returned, _) =>
      (∀ q f, Starts front (stream ++ chunks.flatten) q →
        front ((stream ++ chunks.flatten).drop q) ≠ some (f, 0)) ∧
      ∀ x, x ∈ returned.flatten ↔ ∃ k q n, k < chunks.length ∧
        Starts front (stream ++ (chunks.take (k + 1)).flatten) q ∧
        front ((stream ++ (chunks.take (k + 1)).flatten).drop q) = some (some x, n) ∧
        ¬ Complete front (stream ++ (chunks.take k).flatten) q := by
  induction chunks generalizing stream p with
  | nil =>
    simp only [pushAll, flatten_nil, append_nil, not_mem_nil, length_nil,
      Nat.not_lt_zero, false_and, exists_false, implies_true, and_true]
    intro q f hq hzero
    rcases Relation.ReflTransGen.total_of_right_unique (leads_rightUnique _) hp hq with h | h
    · rw [eq_of_front_none hnone h, hnone] at hzero
      cases hzero
    · rw [← eq_of_front_zero hzero h, hnone] at hzero
      cases hzero
  | cons c chunks ih =>
    obtain ⟨hp', hle⟩ := hsteady.starts_append hp c
    have hbuffer : stream.drop p ++ c = (stream ++ c).drop p :=
      (drop_append_of_le_length hle).symm
    have hstream : stream ++ (c :: chunks).flatten = (stream ++ c) ++ chunks.flatten := by
      rw [flatten_cons, append_assoc]
    have hdrain := drain_drop hsteady (stream ++ c) p
    rw [pushAll, hbuffer]
    cases hresult : drain front ((stream ++ c).drop p) with
    | none =>
      rw [hresult] at hdrain
      obtain ⟨q, f, hq, hzero⟩ := hdrain
      obtain ⟨hq', hqle⟩ := hsteady.starts_append (hp'.trans hq) chunks.flatten
      obtain ⟨f', hzero'⟩ := hsteady.append hzero chunks.flatten
      exact ⟨q, f', hstream ▸ hq', by rw [hstream, drop_append_of_le_length hqle, hzero']⟩
    | some result =>
      obtain ⟨frames, rest⟩ := result
      rw [hresult] at hdrain
      obtain ⟨q, hq, rfl, hnone', hmem⟩ := hdrain
      have hrest := ih (hp'.trans hq) hnone'
      cases hpush : pushAll front ((stream ++ c).drop q) chunks with
      | none =>
        rw [hpush] at hrest
        simpa only [Option.bind_eq_bind, Option.bind_some, hpush, Option.bind_none, hstream]
          using hrest
      | some pushed =>
        obtain ⟨more, last⟩ := pushed
        rw [hpush] at hrest
        simp only [Option.bind_eq_bind, Option.bind_some, hpush, Option.pure_def]
        refine ⟨hstream ▸ hrest.1, fun x => ?_⟩
        rw [flatten_cons, mem_append, hmem, hrest.2]
        have htake : ∀ k, stream ++ ((c :: chunks).take (k + 1)).flatten =
            (stream ++ c) ++ (chunks.take k).flatten := by
          intro k
          rw [take_succ_cons, flatten_cons, append_assoc]
        constructor
        · rintro (⟨s, n, hs, hx⟩ | ⟨k, s, n, hk, hs, hx, hfresh⟩)
          · refine ⟨0, s, n, Nat.succ_pos _, ?_, ?_, ?_⟩
            · rw [htake, take_zero, flatten_nil, append_nil]
              exact hp'.trans hs
            · rw [htake, take_zero, flatten_nil, append_nil, hx]
            · -- nothing after `p` is complete before the chunk
              rw [take_zero, flatten_nil, append_nil]
              rintro ⟨hstart, hcomplete⟩
              have hsp : s = p := by
                rcases Relation.ReflTransGen.total_of_right_unique (leads_rightUnique _) hp hstart
                  with h | h
                · exact eq_of_front_none hnone h
                · exact le_antisymm (le_of_leads h) (le_of_leads hs)
              exact hcomplete (hsp ▸ hnone)
          · refine ⟨k + 1, s, n, Nat.succ_lt_succ hk, ?_, ?_, ?_⟩
            · rwa [htake]
            · rwa [htake]
            · rwa [htake]
        · rintro ⟨k, s, n, hk, hs, hx, hfresh⟩
          cases k with
          | zero =>
            rw [htake, take_zero, flatten_nil, append_nil] at hs hx
            rw [take_zero, flatten_nil, append_nil] at hfresh
            refine .inl ⟨s, n, ?_, hx⟩
            rcases Relation.ReflTransGen.total_of_right_unique (leads_rightUnique _) hp' hs
              with h | h
            · exact h
            · by_cases hsp : s = p
              · exact hsp ▸ .refl
              · exact absurd (hsteady.complete_of_leads hp hs h hsp) hfresh
          | succ k =>
            rw [htake] at hs hx hfresh
            exact .inr ⟨k, s, n, Nat.lt_of_succ_lt_succ hk, hs, hx, hfresh⟩

/-- **The pushes end** unless a unit of the stream takes nothing off. -/
theorem pushAll_eq_none_iff (hempty : front [] = none) (chunks : List (List β)) :
    pushAll front [] chunks = none ↔ ∃ q f, Starts front chunks.flatten q ∧
      front (chunks.flatten.drop q) = some (f, 0) := by
  have hstart : Starts front [] 0 := .refl
  have h := hsteady.pushAll_drop hstart hempty chunks
  simp only [drop_nil, nil_append] at h
  cases hpush : pushAll front [] chunks with
  | none =>
    rw [hpush] at h
    exact iff_of_true rfl h
  | some result =>
    rw [hpush] at h
    exact iff_of_false (Option.some_ne_none _) fun ⟨q, f, hq, hzero⟩ => h.1 q f hq hzero

/-- **Each unit is read** when the first chunk completes it. -/
theorem mem_pushAll_iff (hempty : front [] = none) {chunks : List (List β)}
    {returned : List (List φ)} {last : List β}
    (hpush : pushAll front [] chunks = some (returned, last)) (x : φ) :
    x ∈ returned.flatten ↔ ∃ k q n, k < chunks.length ∧
      Starts front (chunks.take (k + 1)).flatten q ∧
      front ((chunks.take (k + 1)).flatten.drop q) = some (some x, n) ∧
      ¬ Complete front (chunks.take k).flatten q := by
  have hstart : Starts front [] 0 := .refl
  have h := hsteady.pushAll_drop hstart hempty chunks
  simp only [drop_nil, nil_append, hpush] at h
  exact h.2 x

end Steady

end Workforce.Framing
