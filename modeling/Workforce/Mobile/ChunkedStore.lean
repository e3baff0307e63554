import Mathlib.Data.Bool.Basic
import Mathlib.Data.List.Infix
import Mathlib.Data.List.Nodup

/-!
# The chunked store of the mobile app

`chunkedSecureStore.ts`: a collection kept under many small keys of the device's secure store, one
key for each item, one for each page of at most `maxIdsPerPage` ids and one for the list of pages.
A call is a sequence of writes, one key at a time; when the app is killed, the writes made so far
stay. The calls of one store run one after another (`mutex.ts`).

* `Storage.index`: the ids on the pages, in order; `Storage.listed`: what `list` returns.
* `Wf`: the pages are distinct and small, and every id on a page has its item.
* `add_killed`, `remove_killed`: what a call leaves that was killed after any number of writes.
* `list_refines`: after any calls, killed at any point or not, `list` returns the items whose `add`
  completed and whose `remove` did not start, in the order they were added, and of the items of
  killed calls some.
-/

namespace Workforce.Mobile.ChunkedStore

open List Function

/-- `MAX_IDS_PER_PAGE`. -/
def maxIdsPerPage : ℕ := 40

structure Meta where
  pageIds : List ℕ
  nextPageSeq : ℕ

/-! ## Storage -/

/-- What the keys of a store hold. -/
structure Storage (T : Type*) where
  metadata : Option Meta
  page : ℕ → Option (List String)
  item : String → Option T

/-- One call of `setItemAsync` or `deleteItemAsync`. -/
inductive Write (T : Type*)
  | setMeta (metadata : Meta)
  | setPage (pageId : ℕ) (ids : List String)
  | deletePage (pageId : ℕ)
  | setItem (id : String) (item : T)
  | deleteItem (id : String)

variable {T : Type*}

namespace Storage

def empty : Storage T := ⟨none, fun _ => none, fun _ => none⟩

def write (s : Storage T) : Write T → Storage T
  | .setMeta metadata => { s with metadata := some metadata }
  | .setPage pageId ids => { s with page := update s.page pageId (some ids) }
  | .deletePage pageId => { s with page := update s.page pageId none }
  | .setItem id item => { s with item := update s.item id (some item) }
  | .deleteItem id => { s with item := update s.item id none }

def writeAll (s : Storage T) (writes : List (Write T)) : Storage T := writes.foldl write s

variable (s : Storage T)

def readMeta : Meta := s.metadata.getD ⟨[], 0⟩

def readPage (pageId : ℕ) : List String := (s.page pageId).getD []

/-- The ids on the pages. -/
def index : List String := s.readMeta.pageIds.flatMap s.readPage

/-! ## The calls, as the writes they make -/

/-- The page that an id is appended to, the metadata that list it and the ids that are on it. -/
def pageToFill : ℕ × Meta × List String :=
  let metadata := s.readMeta
  let newPage := (metadata.nextPageSeq,
    ⟨metadata.pageIds ++ [metadata.nextPageSeq], metadata.nextPageSeq + 1⟩, [])
  match metadata.pageIds.getLast? with
  | none => newPage
  | some pageId =>
    let ids := s.readPage pageId
    if maxIdsPerPage ≤ ids.length then newPage else (pageId, metadata, ids)

/-- `add`. The item is written first, so that no id is on a page without its item. -/
def add (id : String) (item : T) : List (Write T) :=
  let (pageId, metadata, ids) := (s.write (.setItem id item)).pageToFill
  [.setItem id item, .setPage pageId (ids ++ [id]), .setMeta metadata]

/-- What a loop over the pages has found and written. -/
structure Pass (T : Type*) where
  items : List T
  pageIds : List ℕ
  metaDirty : Bool
  writes : List (Write T)

/-- The loop of `list`. -/
def listPages (s : Storage T) : List ℕ → Pass T
  | [] => ⟨[], [], false, []⟩
  | pageId :: pageIds =>
    let ids := s.readPage pageId
    let items := ids.filterMap s.item
    let survivingIds := ids.filter fun id => (s.item id).isSome
    if survivingIds.length = ids.length then
      let rest := s.listPages pageIds
      ⟨items ++ rest.items, pageId :: rest.pageIds, rest.metaDirty, rest.writes⟩
    else if 0 < survivingIds.length then
      let w := Write.setPage pageId survivingIds
      let rest := (s.write w).listPages pageIds
      ⟨items ++ rest.items, pageId :: rest.pageIds, true, w :: rest.writes⟩
    else
      let w := Write.deletePage pageId
      let rest := (s.write w).listPages pageIds
      ⟨items ++ rest.items, rest.pageIds, true, w :: rest.writes⟩

/-- The metadata are written once the loop has changed a page. -/
def metaWrites (p : Pass T) : List (Write T) :=
  if p.metaDirty then [.setMeta { s.readMeta with pageIds := p.pageIds }] else []

/-- What `list` returns, and the writes it makes to drop the ids that have no item. -/
def list : List T × List (Write T) :=
  let pass := s.listPages s.readMeta.pageIds
  (pass.items, pass.writes ++ s.metaWrites pass)

/-- The items `list` returns. -/
def listed : List T := s.list.1

/-- The loop of `remove`. -/
def removePages (id : String) (s : Storage T) : List ℕ → Pass T
  | [] => ⟨[], [], false, []⟩
  | pageId :: pageIds =>
    let ids := s.readPage pageId
    if id ∉ ids then
      let rest := s.removePages id pageIds
      { rest with pageIds := pageId :: rest.pageIds }
    else
      let next := ids.filter (· ≠ id)
      if next = [] then
        let w := Write.deletePage pageId
        let rest := (s.write w).removePages id pageIds
        ⟨[], rest.pageIds, true, w :: rest.writes⟩
      else
        let w := Write.setPage pageId next
        let rest := (s.write w).removePages id pageIds
        ⟨[], pageId :: rest.pageIds, true, w :: rest.writes⟩

/-- `remove`. -/
def remove (id : String) : List (Write T) :=
  let pass := s.removePages id s.readMeta.pageIds
  pass.writes ++ s.metaWrites pass ++ [.deleteItem id]

end Storage

/-! ## Lists that lose copies of an entry -/

/-- Some copies of an entry have been taken out of a list, and nothing else. -/
def Thinned {α : Type*} [DecidableEq α] (a : α) (l l' : List α) : Prop :=
  l'.Sublist l ∧ l'.filter (· ≠ a) = l.filter (· ≠ a)

section Thinned

variable {α β : Type*} [DecidableEq α] {a : α} {l l' : List α}

theorem Thinned.refl (a : α) (l : List α) : Thinned a l l := ⟨Sublist.refl l, rfl⟩

theorem thinned_filter (a : α) (l : List α) : Thinned a l (l.filter (· ≠ a)) :=
  ⟨filter_sublist, by rw [filter_filter]; simp⟩

theorem thinned_flatMap {f g : β → List α} (h : ∀ b, Thinned a (f b) (g b)) (bs : List β) :
    Thinned a (bs.flatMap f) (bs.flatMap g) := by
  induction bs with
  | nil => exact Thinned.refl a _
  | cons b bs ih =>
    simp only [flatMap_cons]
    refine ⟨(h b).1.append ih.1, ?_⟩
    rw [filter_append, filter_append, (h b).2, ih.2]

theorem Thinned.eq_or_eq (h : Thinned a l l') (hl : l.Nodup) :
    l' = l ∨ l' = l.filter (· ≠ a) := by
  by_cases ha : a ∈ l'
  · refine .inl (h.1.eq_of_length_le ?_)
    have hsplit : ∀ m : List α, m.length = (m.filter (· ≠ a)).length + m.count a := by
      intro m
      rw [count, ← countP_eq_length_filter, length_eq_countP_add_countP (· ≠ a)]
      simp [BEq.beq]
    have hcount : l.count a ≤ l'.count a := by
      have hone := nodup_iff_count_le_one.1 hl a
      have hpos := count_pos_iff.2 ha
      omega
    rw [hsplit l, hsplit l', h.2]
    omega
  · have hself : l'.filter (· ≠ a) = l' := by
      rw [filter_eq_self]
      intro b hb
      simpa using fun hba : b = a => ha (hba ▸ hb)
    exact .inr (hself ▸ h.2)

end Thinned

/-! ## What a write changes -/

namespace Storage

variable {s s' : Storage T}

theorem writeAll_append (s : Storage T) (ws ws' : List (Write T)) :
    s.writeAll (ws ++ ws') = (s.writeAll ws).writeAll ws' := foldl_append

theorem writeAll_cons (s : Storage T) (w : Write T) (ws : List (Write T)) :
    s.writeAll (w :: ws) = (s.write w).writeAll ws := rfl

@[simp] theorem readMeta_setMeta (metadata : Meta) :
    (s.write (.setMeta metadata)).readMeta = metadata := rfl

@[simp] theorem readPage_setMeta (metadata : Meta) :
    (s.write (.setMeta metadata)).readPage = s.readPage := rfl

theorem readPage_setPage (pageId q : ℕ) (ids : List String) :
    (s.write (.setPage pageId ids)).readPage q = if q = pageId then ids else s.readPage q := by
  by_cases h : q = pageId
  · subst h
    simp [write, readPage]
  · simp [write, readPage, h]

theorem readPage_deletePage (pageId q : ℕ) :
    (s.write (.deletePage pageId)).readPage q = if q = pageId then [] else s.readPage q := by
  by_cases h : q = pageId
  · subst h
    simp [write, readPage]
  · simp [write, readPage, h]

theorem index_congr (hmeta : s'.readMeta.pageIds = s.readMeta.pageIds)
    (hpage : ∀ q ∈ s.readMeta.pageIds, s'.readPage q = s.readPage q) : s'.index = s.index := by
  unfold index
  rw [hmeta]
  exact flatMap_congr hpage

/-- The pages of a store are distinct and small, and the ids on them have their items. -/
structure Wf (s : Storage T) : Prop where
  pageIds : s.readMeta.pageIds.Nodup
  fresh : ∀ pageId ∈ s.readMeta.pageIds, pageId < s.readMeta.nextPageSeq
  size : ∀ pageId, (s.readPage pageId).length ≤ maxIdsPerPage
  items : ∀ id ∈ s.index, (s.item id).isSome

theorem wf_empty : (empty : Storage T).Wf where
  pageIds := nodup_nil
  fresh := nofun
  size := fun _ => Nat.zero_le _
  items := nofun

/-! ## Adding -/

section Add

variable (h : s.Wf) (id : String) (item : T)

include h

theorem Wf.setItem : (s.write (.setItem id item)).Wf where
  pageIds := h.pageIds
  fresh := h.fresh
  size := h.size
  items := by
    intro id' hid'
    by_cases heq : id' = id
    · simp [write, heq]
    · simpa [write, heq] using h.items id' hid'

omit h in
theorem pageToFill_cases (s : Storage T) :
    s.pageToFill = (s.readMeta.nextPageSeq,
        ⟨s.readMeta.pageIds ++ [s.readMeta.nextPageSeq], s.readMeta.nextPageSeq + 1⟩, []) ∨
      ∃ pageIds pageId, s.readMeta.pageIds = pageIds ++ [pageId] ∧
        (s.readPage pageId).length < maxIdsPerPage ∧
        s.pageToFill = (pageId, s.readMeta, s.readPage pageId) := by
  unfold pageToFill
  rcases eq_nil_or_concat s.readMeta.pageIds with hnil | ⟨pageIds, pageId, hpages⟩
  · exact .inl (by simp [hnil])
  · rw [concat_eq_append] at hpages
    simp only [hpages, getLast?_concat]
    split
    · exact .inl rfl
    · exact .inr ⟨pageIds, pageId, rfl, by omega, rfl⟩

omit h in
theorem Wf.of_page (h : s.Wf) {pageId : ℕ} {ids : List String}
    (hids : ids.length ≤ maxIdsPerPage)
    (hindex : ∀ id ∈ (s.write (.setPage pageId ids)).index, (s.item id).isSome) :
    (s.write (.setPage pageId ids)).Wf where
  pageIds := h.pageIds
  fresh := h.fresh
  size := by
    intro q
    rw [readPage_setPage]
    split
    · exact hids
    · exact h.size q
  items := hindex

omit h in
/-- The writes of `add` after the item: the id is on no page before the page is written, nor after
that when the page is new, and is the last one when the metadata are written. -/
theorem Wf.fill (h : s.Wf) (hid : (s.item id).isSome) {pageId : ℕ} {metadata : Meta}
    {ids : List String} (hfill : s.pageToFill = (pageId, metadata, ids)) :
    let filled := s.write (.setPage pageId (ids ++ [id]))
    let added := filled.write (.setMeta metadata)
    filled.Wf ∧ (filled.index = s.index ∨ filled.index = s.index ++ [id]) ∧
      added.Wf ∧ added.index = s.index ++ [id] := by
  intro filled added
  have hitems : ∀ id' ∈ s.index ++ [id], (s.item id').isSome := by
    intro id' hid'
    rcases mem_append.1 hid' with hold | hnew
    · exact h.items id' hold
    · exact mem_singleton.1 hnew ▸ hid
  rcases pageToFill_cases s with hnew | ⟨pageIds, last, hpages, hroom, hlast⟩
  · obtain ⟨rfl, rfl, rfl⟩ : pageId = s.readMeta.nextPageSeq ∧ metadata =
          ⟨s.readMeta.pageIds ++ [s.readMeta.nextPageSeq], s.readMeta.nextPageSeq + 1⟩ ∧
        ids = [] := by
      simpa using hfill.symm.trans hnew
    have hfresh : ∀ q ∈ s.readMeta.pageIds, q ≠ s.readMeta.nextPageSeq :=
      fun q hq => (h.fresh q hq).ne
    have hindex : filled.index = s.index :=
      index_congr rfl fun q hq => by rw [readPage_setPage, if_neg (hfresh q hq)]
    have hadded : added.index = s.index ++ [id] := by
      have hsame : s.readMeta.pageIds.flatMap filled.readPage = s.index := hindex
      simp only [index, added, readMeta_setMeta, readPage_setMeta, flatMap_append,
        flatMap_singleton, hsame]
      rw [readPage_setPage, if_pos rfl]
      rfl
    have hfilled : filled.Wf :=
      h.of_page (by simp [maxIdsPerPage]) fun id' hid' => h.items id' (hindex ▸ hid')
    refine ⟨hfilled, .inl hindex, ?_, hadded⟩
    refine ⟨?_, ?_, hfilled.size, fun id' hid' => hitems id' (hadded ▸ hid')⟩
    · rw [readMeta_setMeta]
      refine nodup_append.2 ⟨h.pageIds, nodup_singleton _, fun q hq r hr => ?_⟩
      exact mem_singleton.1 hr ▸ hfresh q hq
    · intro q hq
      rcases mem_append.1 hq with hold | hnew
      · exact Nat.lt_succ_of_lt (h.fresh q hold)
      · exact mem_singleton.1 hnew ▸ Nat.lt_succ_self _
  · obtain ⟨rfl, rfl, rfl⟩ : pageId = last ∧ metadata = s.readMeta ∧ ids = s.readPage last := by
      simpa using hfill.symm.trans hlast
    have hother : ∀ q ∈ pageIds, q ≠ pageId := by
      have hnodup := h.pageIds
      rw [hpages] at hnodup
      exact fun q hq => (nodup_append.1 hnodup).2.2 q hq pageId mem_cons_self
    have hindex : filled.index = s.index ++ [id] := by
      have hsame : pageIds.flatMap filled.readPage = pageIds.flatMap s.readPage :=
        flatMap_congr fun q hq => by rw [readPage_setPage, if_neg (hother q hq)]
      have hpage : filled.readPage pageId = s.readPage pageId ++ [id] := by
        rw [readPage_setPage, if_pos rfl]
      have hmeta : filled.readMeta.pageIds = pageIds ++ [pageId] := hpages
      simp only [index, hmeta, hpages, flatMap_append, flatMap_singleton, hsame, hpage,
        append_assoc]
    have hfilled : filled.Wf := by
      refine h.of_page ?_ fun id' hid' => hitems id' (hindex ▸ hid')
      rw [length_append, length_singleton]
      exact hroom
    exact ⟨hfilled, .inr hindex, ⟨hfilled.pageIds, hfilled.fresh, hfilled.size, hfilled.items⟩,
      hindex⟩

theorem Wf.add_done :
    (s.writeAll (s.add id item)).Wf ∧ (s.writeAll (s.add id item)).index = s.index ++ [id] ∧
      (s.writeAll (s.add id item)).item = update s.item id (some item) := by
  have hset : ((s.write (.setItem id item)).item id).isSome := by simp [write]
  obtain ⟨-, -, hwf, hindex⟩ := (h.setItem id item).fill id hset rfl
  exact ⟨hwf, hindex, rfl⟩

/-- What a call of `add` leaves that is killed after `n` writes: nothing, the item without an index
entry, or all of it. -/
theorem Wf.add_killed (n : ℕ) :
    let s' := s.writeAll ((s.add id item).take n)
    s'.Wf ∧ (s'.index = s.index ∧ (s'.item = s.item ∨ s'.item = update s.item id (some item)) ∨
      s'.index = s.index ++ [id] ∧ s'.item = update s.item id (some item)) := by
  have hset : ((s.write (.setItem id item)).item id).isSome := by simp [write]
  obtain ⟨hfilled, hindex, -⟩ := (h.setItem id item).fill id hset rfl
  rcases n with _ | _ | _ | n
  · exact ⟨h, .inl ⟨rfl, .inl rfl⟩⟩
  · exact ⟨h.setItem id item, .inl ⟨rfl, .inr rfl⟩⟩
  · exact ⟨hfilled, hindex.imp (fun hsame => ⟨hsame, .inr rfl⟩) fun hnew => ⟨hnew, rfl⟩⟩
  · obtain ⟨hwf, hall, hitem⟩ := h.add_done id item
    have htake : (s.add id item).take (n + 3) = s.add id item :=
      take_of_length_le (by simp [add])
    rw [htake]
    exact ⟨hwf, .inr ⟨hall, hitem⟩⟩

omit h in
/-- The writes of `add` after which the id is on a page that is listed. -/
def writesToList (s : Storage T) : ℕ := if s.pageToFill.1 ∈ s.readMeta.pageIds then 2 else 3

theorem Wf.index_add (n : ℕ) :
    (s.writeAll ((s.add id item).take n)).index =
      if s.writesToList ≤ n then s.index ++ [id] else s.index := by
  obtain ⟨-, hall, -⟩ := h.add_done id item
  rcases n with _ | _ | _ | n
  · rw [if_neg (by unfold writesToList; split <;> omega)]
    rfl
  · rw [if_neg (by unfold writesToList; split <;> omega)]
    rfl
  · rcases pageToFill_cases s with hnew | ⟨pageIds, last, hpages, -, hlast⟩
    · have hfresh : ∀ q ∈ s.readMeta.pageIds, q ≠ s.readMeta.nextPageSeq :=
        fun q hq => (h.fresh q hq).ne
      have hno : s.readMeta.nextPageSeq ∉ s.readMeta.pageIds := fun hmem => hfresh _ hmem rfl
      rw [if_neg (by simp [writesToList, hnew, hno])]
      refine index_congr rfl fun q hq => ?_
      have hpage : (s.write (.setItem id item)).pageToFill = s.pageToFill := rfl
      simp only [add, hpage, hnew, take_succ_cons, take_zero, writeAll_cons]
      exact (readPage_setPage ..).trans (if_neg (hfresh q hq))
    · have hlisted : last ∈ s.readMeta.pageIds := by simp [hpages]
      rw [if_pos (by simp [writesToList, hlast, hlisted]), ← hall]
      have hpage : (s.write (.setItem id item)).pageToFill = s.pageToFill := rfl
      simp only [add, hpage, hlast]
      rfl
  · have htake : (s.add id item).take (n + 3) = s.add id item :=
      take_of_length_le (by simp [add])
    rw [htake, hall, if_pos (by unfold writesToList; split <;> omega)]

end Add

/-! ## Listing -/

theorem listPages_of_items {pageIds : List ℕ}
    (h : ∀ id ∈ pageIds.flatMap s.readPage, (s.item id).isSome) :
    s.listPages pageIds = ⟨(pageIds.flatMap s.readPage).filterMap s.item, pageIds, false, []⟩ := by
  induction pageIds with
  | nil => rfl
  | cons pageId pageIds ih =>
    rw [flatMap_cons, forall_mem_append] at h
    have hall : (s.readPage pageId).filter (fun id => (s.item id).isSome) = s.readPage pageId :=
      filter_eq_self.2 h.1
    simp only [listPages, hall, if_true, ih h.2, flatMap_cons, filterMap_append]

theorem Wf.list (h : s.Wf) : s.list = (s.index.filterMap s.item, []) := by
  simp [Storage.list, listPages_of_items h.items, metaWrites, index]

/-! ## Removing -/

section Remove

variable (id : String)

/-- The id has been taken off some pages. -/
structure Drops (s s' : Storage T) : Prop where
  metadata : s'.metadata = s.metadata
  item : s'.item = s.item
  page : ∀ q, s'.readPage q = s.readPage q ∨ s'.readPage q = (s.readPage q).filter (· ≠ id)

variable {id}

theorem Drops.refl (s : Storage T) : Drops id s s := ⟨rfl, rfl, fun _ => .inl rfl⟩

theorem Drops.trans {s₁ s₂ s₃ : Storage T} (h : Drops id s₁ s₂) (h' : Drops id s₂ s₃) :
    Drops id s₁ s₃ := by
  refine ⟨h'.metadata.trans h.metadata, h'.item.trans h.item, fun q => ?_⟩
  rcases h.page q with hq | hq <;> rcases h'.page q with hq' | hq'
  · exact .inl (hq'.trans hq)
  · exact .inr (by rw [hq', hq])
  · exact .inr (hq'.trans hq)
  · exact .inr (by rw [hq', hq, (thinned_filter id _).2])

theorem Drops.readMeta (h : Drops id s s') : s'.readMeta = s.readMeta := by
  rw [Storage.readMeta, h.metadata, Storage.readMeta]

theorem Drops.thinned (h : Drops id s s') (q : ℕ) : Thinned id (s.readPage q) (s'.readPage q) := by
  rcases h.page q with hq | hq
  · exact hq ▸ Thinned.refl id _
  · exact hq ▸ thinned_filter id _

theorem drops_setPage (s : Storage T) (pageId : ℕ) :
    Drops id s (s.write (.setPage pageId ((s.readPage pageId).filter (· ≠ id)))) := by
  refine ⟨rfl, rfl, fun q => ?_⟩
  rw [readPage_setPage]
  split
  · rename_i hq
    exact .inr (by rw [hq])
  · exact .inl rfl

theorem drops_deletePage {pageId : ℕ} (h : (s.readPage pageId).filter (· ≠ id) = []) :
    Drops id s (s.write (.deletePage pageId)) := by
  refine ⟨rfl, rfl, fun q => ?_⟩
  rw [readPage_deletePage]
  split
  · rename_i hq
    exact .inr (by rw [hq, h])
  · exact .inl rfl

variable (id) in
theorem removePages_killed (s : Storage T) (pageIds : List ℕ) (n : ℕ) :
    Drops id s (s.writeAll ((s.removePages id pageIds).writes.take n)) := by
  induction pageIds generalizing s n with
  | nil =>
    simp only [removePages, take_nil]
    exact Drops.refl s
  | cons pageId pageIds ih =>
    have hwrite : ∀ w : Write T, Drops id s (s.write w) →
        Drops id s (s.writeAll ((w :: ((s.write w).removePages id pageIds).writes).take n)) := by
      intro w hw
      rcases n with _ | n
      · exact Drops.refl s
      · exact hw.trans (ih (s.write w) n)
    simp only [removePages]
    split
    · exact ih s n
    · split
      · rename_i hnext
        exact hwrite _ (drops_deletePage hnext)
      · exact hwrite _ (drops_setPage s pageId)

variable (id) in
theorem removePages_all (s : Storage T) (pageIds : List ℕ) :
    Drops id s (s.writeAll (s.removePages id pageIds).writes) := by
  have h := removePages_killed id s pageIds (s.removePages id pageIds).writes.length
  rwa [take_length] at h

variable (id) in
/-- What the whole loop leaves: the pages without the id, and the list of those that are not
empty. -/
theorem removePages_done (s : Storage T) (pageIds : List ℕ) :
    let pass := s.removePages id pageIds
    let s' := s.writeAll pass.writes
    pass.pageIds.Sublist pageIds ∧
      pageIds.flatMap s'.readPage = (pageIds.flatMap s.readPage).filter (· ≠ id) ∧
      pass.pageIds.flatMap s'.readPage = (pageIds.flatMap s.readPage).filter (· ≠ id) := by
  induction pageIds generalizing s with
  | nil => exact ⟨Sublist.refl _, rfl, rfl⟩
  | cons pageId pageIds ih =>
    -- `s₁` is the state after the page has been dealt with
    have hrest : ∀ s₁, Drops id s s₁ →
        s₁.readPage pageId = (s.readPage pageId).filter (· ≠ id) →
        let rest := s₁.removePages id pageIds
        let s' := s₁.writeAll rest.writes
        s'.readPage pageId = (s.readPage pageId).filter (· ≠ id) ∧ rest.pageIds.Sublist pageIds ∧
          pageIds.flatMap s'.readPage = (pageIds.flatMap s.readPage).filter (· ≠ id) ∧
          rest.pageIds.flatMap s'.readPage = (pageIds.flatMap s.readPage).filter (· ≠ id) := by
      intro s₁ hdrops hpage
      obtain ⟨hsub, hall, hlisted⟩ := ih s₁
      rw [(thinned_flatMap hdrops.thinned pageIds).2] at hall hlisted
      refine ⟨?_, hsub, hall, hlisted⟩
      rcases (removePages_all id s₁ pageIds).page pageId with heq | heq
      · exact heq.trans hpage
      · rw [heq, hpage, (thinned_filter id _).2]
    simp only [removePages, flatMap_cons, filter_append]
    split
    · rename_i hnot
      have hself : s.readPage pageId = (s.readPage pageId).filter (· ≠ id) := by
        symm
        rw [filter_eq_self]
        intro id' hid'
        simpa using fun heq : id' = id => hnot (heq ▸ hid')
      obtain ⟨hpage, hsub, hall, hlisted⟩ := hrest s (Drops.refl s) hself
      exact ⟨hsub.cons_cons pageId, by rw [hpage, hall], by rw [flatMap_cons, hpage, hlisted]⟩
    · split
      · rename_i hnext
        obtain ⟨hpage, hsub, hall, hlisted⟩ := hrest _ (drops_deletePage hnext)
          (by rw [readPage_deletePage, if_pos rfl, hnext])
        rw [hnext] at hpage ⊢
        exact ⟨hsub.cons pageId, by rw [writeAll_cons, hpage, hall], hlisted⟩
      · obtain ⟨hpage, hsub, hall, hlisted⟩ := hrest _ (drops_setPage s pageId)
          (by rw [readPage_setPage, if_pos rfl])
        refine ⟨hsub.cons_cons pageId, by rw [writeAll_cons, hpage, hall], ?_⟩
        rw [flatMap_cons, writeAll_cons, hpage, hlisted]

variable (id) in
/-- What a call of `remove` leaves: the index without some copies of the id, and the other items. -/
structure Removing (s s' : Storage T) : Prop where
  wf : s'.Wf
  index : Thinned id s.index s'.index
  item : ∀ id' ∈ s'.index, s'.item id' = s.item id'

theorem Drops.removing (hd : Drops id s s') (h : s.Wf) : Removing id s s' := by
  have hmeta := hd.readMeta
  have hindex : Thinned id s.index s'.index := by
    unfold index
    rw [hmeta]
    exact thinned_flatMap hd.thinned _
  refine ⟨⟨hmeta ▸ h.pageIds, hmeta ▸ h.fresh, fun q => ?_, fun id' hid' => ?_⟩, hindex,
    fun id' _ => by rw [hd.item]⟩
  · exact (hd.thinned q).1.length_le.trans (h.size q)
  · rw [hd.item]
    exact h.items id' (hindex.1.subset hid')

theorem Wf.removePages (h : s.Wf) (id : String) :
    let pass := s.removePages id s.readMeta.pageIds
    let s₁ := s.writeAll pass.writes
    let s₂ := s₁.writeAll (s.metaWrites pass)
    Removing id s s₁ ∧ Removing id s s₂ ∧ s₂.index = s.index.filter (· ≠ id) := by
  intro pass s₁ s₂
  have hdrops : Drops id s s₁ := removePages_all id s _
  have hmeta := hdrops.readMeta
  obtain ⟨hsub, hall, hlisted⟩ := removePages_done id s s.readMeta.pageIds
  have h₁ := hdrops.removing h
  have hindex₁ : s₁.index = s.index.filter (· ≠ id) := by
    unfold index
    rw [hmeta]
    exact hall
  cases hdirty : pass.metaDirty with
  | false =>
    have hsame : s₂ = s₁ := by simp [s₂, metaWrites, hdirty, writeAll]
    exact ⟨h₁, hsame ▸ h₁, hsame ▸ hindex₁⟩
  | true =>
    have hs₂ : s₂ = s₁.write (.setMeta { s.readMeta with pageIds := pass.pageIds }) := by
      simp [s₂, metaWrites, hdirty, writeAll]
    have hindex₂ : s₂.index = s.index.filter (· ≠ id) := by
      rw [hs₂]
      exact hlisted
    refine ⟨h₁, ⟨⟨?_, ?_, ?_, ?_⟩, hindex₂ ▸ thinned_filter id s.index, ?_⟩, hindex₂⟩
    · exact hs₂ ▸ h.pageIds.sublist hsub
    · exact hs₂ ▸ fun q hq => h.fresh q (hsub.subset hq)
    · exact hs₂ ▸ h₁.wf.size
    · intro id' hid'
      have hitem := h₁.wf.items id' (hindex₁ ▸ hindex₂ ▸ hid')
      rw [hs₂]
      exact hitem
    · intro id' hid'
      have hitem := h₁.item id' (hindex₁ ▸ hindex₂ ▸ hid')
      rw [hs₂]
      exact hitem

theorem Removing.deleteItem (h : Removing id s s') (hid : id ∉ s'.index) :
    Removing id s (s'.write (.deleteItem id)) := by
  have hitem : ∀ id' ∈ s'.index, (s'.write (.deleteItem id)).item id' = s'.item id' := by
    intro id' hid'
    have hne : id' ≠ id := fun heq => hid (heq ▸ hid')
    exact update_of_ne hne ..
  refine ⟨⟨h.wf.pageIds, h.wf.fresh, h.wf.size, fun id' hid' => ?_⟩, h.index, fun id' hid' => ?_⟩
  · rw [hitem id' hid']
    exact h.wf.items id' hid'
  · rw [hitem id' hid']
    exact h.item id' hid'

theorem Wf.remove_done (h : s.Wf) (id : String) :
    Removing id s (s.writeAll (s.remove id)) ∧
      (s.writeAll (s.remove id)).index = s.index.filter (· ≠ id) := by
  obtain ⟨-, hremoving, hindex⟩ := h.removePages id
  rw [remove, writeAll_append, writeAll_append]
  exact ⟨hremoving.deleteItem (by rw [hindex]; simp), hindex⟩

variable (s id) in
/-- How far the writes of `remove` come: to a page, to the list of pages, or to the end. -/
theorem take_remove (n : ℕ) :
    let pass := s.removePages id s.readMeta.pageIds
    (s.remove id).take n = pass.writes.take n ∨
      (s.remove id).take n = pass.writes ++ s.metaWrites pass ∨
      (s.remove id).take n = s.remove id := by
  intro pass
  have hmeta : (s.metaWrites pass).length ≤ 1 := by
    unfold metaWrites
    split <;> simp
  have hall : s.remove id = pass.writes ++ s.metaWrites pass ++ [.deleteItem id] := rfl
  rw [hall]
  by_cases hpages : n ≤ pass.writes.length
  · refine .inl ?_
    rw [append_assoc, take_append_of_le_length hpages]
  · by_cases hlisted : n ≤ (pass.writes ++ s.metaWrites pass).length
    · refine .inr (.inl ?_)
      rw [take_append_of_le_length hlisted, take_of_length_le]
      rw [length_append] at hlisted ⊢
      omega
    · refine .inr (.inr (take_of_length_le ?_))
      rw [length_append, length_singleton]
      omega

theorem Wf.remove_killed (h : s.Wf) (id : String) (n : ℕ) :
    Removing id s (s.writeAll ((s.remove id).take n)) := by
  rcases take_remove s id n with htake | htake | htake
  · rw [htake]
    exact (removePages_killed id s _ n).removing h
  · rw [htake, writeAll_append]
    exact (h.removePages id).2.1
  · rw [htake]
    exact (h.remove_done id).1

theorem notMem_removePages (s : Storage T) {pageIds : List ℕ}
    (hnodup : (pageIds.flatMap s.readPage).Nodup) (n : ℕ) :
    id ∉ pageIds.flatMap
      (s.writeAll ((s.removePages id pageIds).writes.take (n + 1))).readPage := by
  induction pageIds generalizing s with
  | nil => exact not_mem_nil
  | cons pageId pageIds ih =>
    rw [flatMap_cons, nodup_append] at hnodup
    obtain ⟨-, hrest, hdisjoint⟩ := hnodup
    have hdrops := removePages_killed id s (pageId :: pageIds) (n + 1)
    rw [flatMap_cons, mem_append, not_or]
    simp only [removePages] at hdrops ⊢
    split
    · rename_i hnot
      rw [if_pos hnot] at hdrops
      exact ⟨fun hid => hnot ((hdrops.thinned pageId).1.subset hid), ih s hrest⟩
    · rename_i hid
      rw [not_not] at hid
      have hothers : ∀ s', Drops id s s' → id ∉ pageIds.flatMap s'.readPage := fun s' hs' hmem =>
        hdisjoint id hid id ((thinned_flatMap hs'.thinned pageIds).1.subset hmem) rfl
      have hwrite : ∀ w : Write T, Drops id s (s.write w) → id ∉ (s.write w).readPage pageId →
          id ∉ (s.writeAll ((w :: ((s.write w).removePages id pageIds).writes).take
            (n + 1))).readPage pageId ∧
          id ∉ pageIds.flatMap (s.writeAll ((w :: ((s.write w).removePages id pageIds).writes).take
            (n + 1))).readPage := by
        intro w hw hpage
        have hlater := removePages_killed id (s.write w) pageIds n
        exact ⟨fun hmem => hpage ((hlater.thinned pageId).1.subset hmem),
          hothers _ (hw.trans hlater)⟩
      split
      · rename_i hnext
        refine hwrite _ (drops_deletePage hnext) ?_
        rw [readPage_deletePage, if_pos rfl]
        exact not_mem_nil
      · refine hwrite _ (drops_setPage s pageId) ?_
        rw [readPage_setPage, if_pos rfl]
        simp

/-- A call of `remove` that has made a write has taken the id off the pages. -/
theorem Wf.index_remove (h : s.Wf) (hnodup : s.index.Nodup) (id : String) (n : ℕ) :
    (s.writeAll ((s.remove id).take (n + 1))).index = s.index.filter (· ≠ id) := by
  rcases take_remove s id (n + 1) with htake | htake | htake
  · rw [htake]
    have hdrops := removePages_killed id s s.readMeta.pageIds (n + 1)
    have hgone : id ∉ (s.writeAll
        ((s.removePages id s.readMeta.pageIds).writes.take (n + 1))).index := by
      rw [index, hdrops.readMeta]
      exact notMem_removePages s hnodup n
    refine ((hdrops.removing h).index.eq_or_eq hnodup).elim (fun hsame => ?_) fun hindex => hindex
    rw [hsame] at hgone
    rw [hsame, filter_eq_self.2]
    intro id' hid'
    simpa using fun heq : id' = id => hgone (heq ▸ hid')
  · rw [htake, writeAll_append]
    exact (h.removePages id).2.2
  · rw [htake]
    exact (h.remove_done id).2

end Remove

end Storage

/-! ## Calls that may be killed -/

/-- The writes that are made. -/
def made (killed : Option ℕ) (writes : List (Write T)) : List (Write T) :=
  match killed with
  | none => writes
  | some n => writes.take n

namespace Storage

section Ids

variable (idOf : T → String)

/-- The ids of what `list` returns. -/
def ids (s : Storage T) : List String := s.listed.map idOf

/-- The items are kept under their ids. -/
structure Keyed (s : Storage T) : Prop where
  wf : s.Wf
  item : ∀ id ∈ s.index, ∀ item ∈ s.item id, idOf item = id

/-- A call of `add` comes so far that the item is listed. -/
def Lists (s : Storage T) (killed : Option ℕ) : Prop := s.writesToList ≤ killed.getD 3
  deriving Decidable

variable {idOf} {s : Storage T}

theorem keyed_empty : Keyed idOf (empty : Storage T) :=
  ⟨wf_empty, nofun⟩

theorem lists_none (s : Storage T) : s.Lists none := by
  unfold Lists writesToList
  split <;> decide

theorem Keyed.ids_eq (h : Keyed idOf s) : s.ids idOf = s.index := by
  have hitem : ∀ id ∈ s.index, (s.item id).map idOf = some id := by
    intro id hid
    obtain ⟨item, hitem⟩ := Option.isSome_iff_exists.1 (h.wf.items id hid)
    rw [hitem, Option.map_some, h.item id hid item hitem]
  rw [ids, listed, h.wf.list, map_filterMap, filterMap_congr hitem, filterMap_some]

/-- A call of `add`, whether it is killed or not. -/
theorem Keyed.add (h : Keyed idOf s) (item : T) (killed : Option ℕ) :
    let s' := s.writeAll (made killed (s.add (idOf item) item))
    Keyed idOf s' ∧
      s'.ids idOf = if s.Lists killed then s.ids idOf ++ [idOf item] else s.ids idOf := by
  intro s'
  have hmade : s' = s.writeAll ((s.add (idOf item) item).take (killed.getD 3)) := by
    cases killed <;> rfl
  obtain ⟨hwf, hcases⟩ := h.wf.add_killed (idOf item) item (killed.getD 3)
  rw [← hmade] at hwf hcases
  have hkeyed : Keyed idOf s' := by
    refine ⟨hwf, fun id hid x hx => ?_⟩
    have hupdate : s'.item = update s.item (idOf item) (some item) →
        (id ≠ idOf item → id ∈ s.index) → idOf x = id := by
      intro hitem hold
      rw [hitem] at hx
      by_cases hne : id = idOf item
      · subst hne
        rw [update_self] at hx
        rw [← Option.some.inj hx]
      · rw [update_of_ne hne] at hx
        exact h.item id (hold hne) x hx
    rcases hcases with ⟨hindex, hitem | hitem⟩ | ⟨hindex, hitem⟩
    · exact h.item id (hindex ▸ hid) x (hitem ▸ hx)
    · exact hupdate hitem fun _ => hindex ▸ hid
    · refine hupdate hitem fun hne => ?_
      rw [hindex, mem_append, mem_singleton] at hid
      exact hid.resolve_right hne
  refine ⟨hkeyed, ?_⟩
  rw [hkeyed.ids_eq, h.ids_eq, hmade]
  exact h.wf.index_add (idOf item) item (killed.getD 3)

/-- A call of `remove`, whether it is killed or not: the first write takes the id off its page. -/
theorem Keyed.remove (h : Keyed idOf s) (hnodup : (s.ids idOf).Nodup) (id : String)
    (killed : Option ℕ) :
    let s' := s.writeAll (made killed (s.remove id))
    Keyed idOf s' ∧
      s'.ids idOf = if killed = some 0 then s.ids idOf else (s.ids idOf).filter (· ≠ id) := by
  intro s'
  rw [h.ids_eq] at hnodup ⊢
  have hremoving : Removing id s s' ∧
      s'.index = if killed = some 0 then s.index else s.index.filter (· ≠ id) := by
    rcases killed with _ | _ | n
    · exact h.wf.remove_done id
    · exact ⟨h.wf.remove_killed id 0, rfl⟩
    · exact ⟨h.wf.remove_killed id (n + 1), h.wf.index_remove hnodup id n⟩
  have hkeyed : Keyed idOf s' := by
    refine ⟨hremoving.1.wf, fun id' hid' x hx => ?_⟩
    rw [hremoving.1.item id' hid'] at hx
    exact h.item id' (hremoving.1.index.1.subset hid') x hx
  rw [hkeyed.ids_eq]
  exact ⟨hkeyed, hremoving.2⟩

end Ids

end Storage

/-! ## Runs -/

/-- A call makes all its writes, or the app is killed after so many of them. -/
inductive Call (T : Type*)
  | add (item : T) (killed : Option ℕ)
  | remove (id : String) (killed : Option ℕ)
  | list (killed : Option ℕ)

variable (idOf : T → String)

def perform (s : Storage T) : Call T → Storage T
  | .add item killed => s.writeAll (made killed (s.add (idOf item) item))
  | .remove id killed => s.writeAll (made killed (s.remove id))
  | .list killed => s.writeAll (made killed s.list.2)

/-- The store after some calls; the app is started again after a call that was killed. -/
def after (calls : List (Call T)) : Storage T := calls.foldl (perform idOf) Storage.empty

/-- The items that have been added, in order. -/
def added (calls : List (Call T)) : List T :=
  calls.filterMap fun
    | .add item _ => some item
    | _ => none

/-- What is known of an item: that it is in the collection, that it is not, or neither, since a call
that adds or removes it was killed. -/
inductive Presence
  | certain
  | possible
  | absent
  deriving DecidableEq

def Presence.after (idOf : T → String) (id : String) (p : Presence) : Call T → Presence
  | .add item killed =>
    if idOf item = id then (if killed = none then .certain else .possible) else p
  | .remove id' killed =>
    if id' = id then (if killed = none ∨ p = .absent then .absent else .possible) else p
  | .list _ => p

/-- What is known of the item with an id after some calls. -/
def presence (calls : List (Call T)) (id : String) : Presence :=
  calls.foldl (Presence.after idOf id) .absent

/-- The store holds the items that `keep` keeps. -/
structure Holds (calls : List (Call T)) (s : Storage T) (keep : String → Bool) : Prop where
  wf : s.Wf
  index : s.index = ((added calls).map idOf).filter keep
  item : ∀ item ∈ added calls, keep (idOf item) → s.item (idOf item) = some item
  certain : ∀ id, presence idOf calls id = .certain → keep id
  absent : ∀ id, presence idOf calls id = .absent → keep id = false

variable {idOf} {calls : List (Call T)} {s : Storage T} {keep : String → Bool}

theorem added_append (calls : List (Call T)) (c : Call T) :
    added (calls ++ [c]) = added calls ++ added [c] := filterMap_append ..

theorem presence_append (calls : List (Call T)) (c : Call T) (id : String) :
    presence idOf (calls ++ [c]) id = (presence idOf calls id).after idOf id c := by
  simp [presence]

theorem holds_empty : Holds idOf [] (Storage.empty : Storage T) fun _ => false where
  wf := Storage.wf_empty
  index := rfl
  item := nofun
  certain := fun _ h => by cases h
  absent := fun _ _ => rfl

theorem Holds.nodup (h : Holds idOf calls s keep) (hfresh : ((added calls).map idOf).Nodup) :
    s.index.Nodup := h.index ▸ hfresh.filter _

/-- The state after a call of `add`: the id is at the end of the index or not in it. -/
theorem Holds.add (h : Holds idOf calls s keep) {item : T} {killed : Option ℕ} {s' : Storage T}
    (hfresh : idOf item ∉ (added calls).map idOf) (hwf : s'.Wf) (grown : Bool)
    (hindex : s'.index = s.index ++ if grown then [idOf item] else [])
    (hold : ∀ id, id ≠ idOf item → s'.item id = s.item id)
    (hnew : grown → s'.item (idOf item) = some item) (hdone : killed = none → grown) :
    Holds idOf (calls ++ [.add item killed]) s'
      fun id => if id = idOf item then grown else keep id where
  wf := hwf
  index := by
    have hsame : ((added calls).map idOf).filter
        (fun id => if id = idOf item then grown else keep id) =
          ((added calls).map idOf).filter keep :=
      filter_congr fun id hid => if_neg fun heq : id = idOf item => hfresh (heq ▸ hid)
    have hlast : added [Call.add item killed] = [item] := rfl
    rw [added_append, hlast, map_append, filter_append, hsame, hindex, h.index]
    cases grown <;> simp
  item := by
    intro item' hitem' hkeep
    rw [added_append, mem_append] at hitem'
    rcases hitem' with hold' | hnew'
    · have hne : idOf item' ≠ idOf item := fun heq => hfresh (heq ▸ mem_map_of_mem hold')
      rw [if_neg hne] at hkeep
      rw [hold _ hne]
      exact h.item item' hold' hkeep
    · obtain rfl : item' = item := mem_singleton.1 hnew'
      rw [if_pos rfl] at hkeep
      exact hnew hkeep
  certain := by
    intro id hid
    rw [presence_append] at hid
    split
    · rename_i heq
      by_cases hkilled : killed = none
      · exact hdone hkilled
      · simp [Presence.after, heq, hkilled] at hid
    · rename_i hne
      exact h.certain id (by simpa [Presence.after, Ne.symm hne] using hid)
  absent := by
    intro id hid
    rw [presence_append] at hid
    split
    · rename_i heq
      simp only [Presence.after, heq, if_true] at hid
      split at hid <;> cases hid
    · rename_i hne
      exact h.absent id (by simpa [Presence.after, Ne.symm hne] using hid)

/-- The state after a call of `remove`: the index is what it was, or without the id. -/
theorem Holds.remove (h : Holds idOf calls s keep) (hfresh : ((added calls).map idOf).Nodup)
    {id : String} {killed : Option ℕ} {s' : Storage T} (hremoving : Storage.Removing id s s')
    (hdone : killed = none → s'.index = s.index.filter (· ≠ id)) :
    ∃ keep', Holds idOf (calls ++ [.remove id killed]) s' keep' := by
  have hadded : added (calls ++ [.remove id killed]) = added calls := by
    rw [added_append]
    exact append_nil _
  have hitem : ∀ item ∈ added calls, idOf item ∈ s'.index → keep (idOf item) →
      s'.item (idOf item) = some item := by
    intro item hmem hid hkeep
    rw [hremoving.item _ hid]
    exact h.item item hmem hkeep
  by_cases hgone : s'.index = s.index.filter (· ≠ id)
  · refine ⟨fun id' => keep id' && decide (id' ≠ id), hremoving.wf, ?_, ?_, ?_, ?_⟩
    · rw [hgone, h.index, hadded, filter_filter]
      exact filter_congr fun id' _ => Bool.and_comm ..
    · intro item hmem hkeep
      rw [hadded] at hmem
      refine hitem item hmem ?_ (Bool.and_elim_left hkeep)
      rw [hgone, h.index, filter_filter, mem_filter]
      exact ⟨mem_map_of_mem hmem, by rwa [Bool.and_comm]⟩
    · intro id' hid'
      rw [presence_append] at hid'
      by_cases heq : id = id'
      · simp only [Presence.after, heq, if_true] at hid'
        split at hid' <;> cases hid'
      · simp only [Presence.after, if_neg heq] at hid'
        simp [h.certain id' hid', Ne.symm heq]
    · intro id' hid'
      rw [presence_append] at hid'
      by_cases heq : id = id'
      · simp [heq]
      · simp only [Presence.after, if_neg heq] at hid'
        simp [h.absent id' hid']
  · -- the app was killed before the id was off its page
    have hsame : s'.index = s.index :=
      (hremoving.index.eq_or_eq (h.nodup hfresh)).resolve_right hgone
    have hkilled : killed ≠ none := fun hnone => hgone (hdone hnone)
    have hid : keep id = true := by
      by_contra hno
      refine hgone (hsame.trans (filter_eq_self.2 fun id' hid' => ?_).symm)
      rw [h.index, mem_filter] at hid'
      simpa using fun heq : id' = id => hno (heq ▸ hid'.2)
    refine ⟨keep, hremoving.wf, ?_, ?_, ?_, ?_⟩
    · rw [hsame, h.index, hadded]
    · intro item hmem hkeep
      rw [hadded] at hmem
      refine hitem item hmem ?_ hkeep
      rw [hsame, h.index, mem_filter]
      exact ⟨mem_map_of_mem hmem, hkeep⟩
    · intro id' hid'
      rw [presence_append] at hid'
      by_cases heq : id = id'
      · exact heq ▸ hid
      · exact h.certain id' (by simpa [Presence.after, heq] using hid')
    · intro id' hid'
      rw [presence_append] at hid'
      by_cases heq : id = id'
      · subst heq
        simp only [Presence.after, if_true, hkilled, false_or] at hid'
        split at hid'
        · rename_i habsent
          exact h.absent id habsent
        · cases hid'
      · exact h.absent id' (by simpa [Presence.after, heq] using hid')

theorem exists_holds {calls : List (Call T)} (hfresh : ((added calls).map idOf).Nodup) :
    ∃ keep, Holds idOf calls (after idOf calls) keep := by
  induction calls using reverseRecOn with
  | nil => exact ⟨_, holds_empty⟩
  | append_singleton calls c ih =>
    have hsplit := hfresh
    rw [added_append, map_append, nodup_append] at hsplit
    obtain ⟨keep, h⟩ := ih hsplit.1
    have hafter : after idOf (calls ++ [c]) = perform idOf (after idOf calls) c := by simp [after]
    rw [hafter]
    cases c with
    | add item killed =>
      have hid : idOf item ∉ (added calls).map idOf := fun hmem =>
        hsplit.2.2 _ hmem _ (mem_singleton.2 rfl) rfl
      have hupdate : ∀ id, id ≠ idOf item → update (after idOf calls).item (idOf item)
          (some item) id = (after idOf calls).item id := fun id hne => update_of_ne hne ..
      cases killed with
      | none =>
        obtain ⟨hwf, hindex, hitem⟩ := h.wf.add_done (idOf item) item
        exact ⟨_, h.add hid hwf true hindex (fun id hne => hitem ▸ hupdate id hne)
          (fun _ => hitem ▸ update_self ..) fun _ => rfl⟩
      | some n =>
        obtain ⟨hwf, ⟨hindex, hitem⟩ | ⟨hindex, hitem⟩⟩ := h.wf.add_killed (idOf item) item n
        · refine ⟨_, h.add hid hwf false ?_ (fun id hne => ?_) (fun hno => by cases hno)
            fun hno => by cases hno⟩
          · simpa using hindex
          · rcases hitem with hitem | hitem
            · exact congrFun hitem id
            · exact hitem ▸ hupdate id hne
        · exact ⟨_, h.add hid hwf true hindex (fun id hne => hitem ▸ hupdate id hne)
            (fun _ => hitem ▸ update_self ..) fun _ => rfl⟩
    | remove id killed =>
      cases killed with
      | none =>
        obtain ⟨hremoving, hindex⟩ := h.wf.remove_done id
        exact h.remove hsplit.1 hremoving fun _ => hindex
      | some n => exact h.remove hsplit.1 (h.wf.remove_killed id n) fun hno => by cases hno
    | list killed =>
      refine ⟨keep, ?_⟩
      have hnothing : perform idOf (after idOf calls) (.list killed) = after idOf calls := by
        simp only [perform, h.wf.list]
        cases killed <;> simp [made, Storage.writeAll]
      have hadded : added (calls ++ [.list killed]) = added calls := by
        rw [added_append]
        exact append_nil _
      rw [hnothing]
      refine ⟨h.wf, hadded ▸ h.index, hadded ▸ h.item, fun id hid => h.certain id ?_,
        fun id hid => h.absent id ?_⟩
      · simpa [presence_append, Presence.after] using hid
      · simpa [presence_append, Presence.after] using hid

theorem Holds.listed (h : Holds idOf calls s keep) :
    s.listed = (added calls).filter fun item => keep (idOf item) := by
  have hitems : ∀ items : List T, (∀ item ∈ items, keep (idOf item) →
      s.item (idOf item) = some item) → ((items.map idOf).filter keep).filterMap s.item =
        items.filter fun item => keep (idOf item) := by
    intro items
    induction items with
    | nil => exact fun _ => rfl
    | cons item items ih =>
      intro hall
      rw [forall_mem_cons] at hall
      by_cases hkeep : keep (idOf item) = true
      · simp [hkeep, hall.1 hkeep, ih hall.2]
      · simp [hkeep, ih hall.2]
  rw [Storage.listed, h.wf.list, h.index]
  exact hitems _ h.item

/-- **The collection survives kills**: after any calls, each of which completes or is killed after
any number of its writes, `list` returns the items that are certain to be there, in the order of
addition and without duplicates, and besides them only items of calls that were killed; and every
page holds at most 40 ids. -/
theorem list_refines {calls : List (Call T)} (hfresh : ((added calls).map idOf).Nodup) :
    (∃ keep : String → Bool, (after idOf calls).listed =
        (added calls).filter (fun item => keep (idOf item)) ∧
      (∀ id, presence idOf calls id = .certain → keep id) ∧
      ∀ id, presence idOf calls id = .absent → keep id = false) ∧
    ((after idOf calls).listed.map idOf).Nodup ∧
    ∀ pageId, ((after idOf calls).readPage pageId).length ≤ 40 := by
  obtain ⟨keep, h⟩ := exists_holds hfresh
  refine ⟨⟨keep, h.listed, h.certain, h.absent⟩, ?_, h.wf.size⟩
  rw [h.listed]
  exact hfresh.sublist (filter_sublist.map idOf)

/-- The app is killed while it adds the second item, when only the payload is written, and while it
removes the first one, when its page is deleted. -/
def killedCalls : List (Call (String × ℕ)) :=
  [.add ("a", 1) none, .add ("b", 2) (some 1), .remove "a" (some 1), .add ("c", 3) none, .list none]

theorem killedCalls_refines :
    (∃ keep : String → Bool, (after Prod.fst killedCalls).listed =
        (added killedCalls).filter (fun item => keep item.1) ∧ keep "c" ∧ keep "d" = false) ∧
      (after Prod.fst killedCalls).listed = [("c", 3)] := by
  obtain ⟨⟨keep, hlisted, hcertain, habsent⟩, -⟩ :=
    @list_refines _ Prod.fst killedCalls (by decide)
  exact ⟨⟨keep, hlisted, hcertain "c" (by decide), habsent "d" (by decide)⟩, by decide⟩

end Workforce.Mobile.ChunkedStore
