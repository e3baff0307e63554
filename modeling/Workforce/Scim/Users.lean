import Mathlib.Data.List.TakeWhile
import Workforce.Compliance.FloorCheck

/-!
# Filters of the SCIM user list

`/scim/v2/Users` takes a filter of one form, `attribute eq "value"`, and asks the database for the
users whose column equals the value. `parseScimFilter_exact` says which texts are of the form, and
`list_of_supported` what the list holds for the attributes that have a column.

A text is taken as a list of its characters where a pattern reads it.
-/

namespace Workforce.Scim

open List

open Compliance (jsWhitespace)

/-- What a request to `/scim/v2` can end with. -/
inductive ScimError
  | invalidFilter (filter : String)
  | notFound (resourceType id : String)
  /-- A `where` that names a property which the entity does not have. -/
  | noSuchProperty
  | typeError
  /-- A text that the column's type does not read. -/
  | invalidText
  | foreignKeyViolation
  | uniqueViolation

/-! ## The filter -/

/-- `\w`. -/
def isWord (c : Char) : Bool := c.isAlphanum || c == '_'

/-- `+` of a class of characters: the longest run of them, and what follows it. -/
def many1 (p : Char → Bool) (cs : List Char) : Option (List Char × List Char) :=
  if cs.takeWhile p = [] then none else some (cs.takeWhile p, cs.dropWhile p)

/-- `(\w+(?:\.\w+)?)`. Where no word follows the point, the point cannot be read. -/
def attributePath (cs : List Char) : Option (List Char × List Char) :=
  match many1 isWord cs with
  | some (word, '.' :: rest) =>
    (many1 isWord rest).map fun (sub, rest) => (word ++ '.' :: sub, rest)
  | found => found

/-- `eq`, in capitals or not. -/
def eqKeyword : List Char → Option (List Char)
  | e :: q :: rest => if (e = 'e' ∨ e = 'E') ∧ (q = 'q' ∨ q = 'Q') then some rest else none
  | _ => none

/-- `"([^"]*)"\s*$`. -/
def quotedValue : List Char → Option (List Char)
  | '"' :: rest =>
    match rest.dropWhile (· != '"') with
    | _ :: trailing => if trailing.all jsWhitespace then some (rest.takeWhile (· != '"')) else none
    | [] => none
  | _ => none

/-- `FILTER_PATTERN`. A word has no white space in it, so there is one way to read a text. -/
def matchFilter (cs : List Char) : Option (List Char × List Char) := do
  let (attr, rest) ← attributePath (cs.dropWhile jsWhitespace)
  let (_, rest) ← many1 jsWhitespace rest
  let rest ← eqKeyword rest
  let (_, rest) ← many1 jsWhitespace rest
  let value ← quotedValue rest
  return (attr, value)

structure ParsedScimFilter where
  attr : String
  value : String

def parseScimFilter (filter : Option String) : Except ScimError (Option ParsedScimFilter) :=
  match filter with
  | none | some "" => .ok none
  | some filter =>
    match matchFilter filter.toList with
    | some (attr, value) => .ok (some ⟨String.ofList attr, String.ofList value⟩)
    | none => .error (.invalidFilter filter)

/-! ## The user list -/

structure User where
  id : String
  tenantId : String
  externalIdpId : Option String
  email : String

inductive UserColumn
  | email
  | externalIdpId
  deriving DecidableEq

def User.get (u : User) : UserColumn → Option String
  | .email => some u.email
  | .externalIdpId => u.externalIdpId

/-- `FILTER_ATTRIBUTE_TO_COLUMN`. -/
def filterAttributeToColumn : List (String × UserColumn) :=
  [("username", .email), ("externalid", .externalIdpId)]

/-- `toLowerCase`, of a text of ASCII as an attribute is one. -/
def toLowerCase (text : String) : String := String.ofList (text.toList.map Char.toLower)

/-- The names without capitals that every object of JavaScript inherits. -/
def inheritedNames : List String := ["constructor", "__proto__"]

/-- The `where` of a query for users. -/
inductive Where
  | all
  | equals (column : UserColumn) (value : String)
  | noSuchProperty

/-- An inherited name is found in the table too, and what it stands for is no column. -/
def filterToWhere (attr value : String) : Where :=
  match filterAttributeToColumn.lookup (toLowerCase attr) with
  | some column => .equals column value
  | none => if toLowerCase attr ∈ inheritedNames then .noSuchProperty else .all

/-- The users of the tenant that a query finds, in the order of the database. -/
def findUsers (tenantId : String) (users : List User) : Where → Except ScimError (List User)
  | .all => .ok (users.filter (·.tenantId = tenantId))
  | .equals column value =>
    .ok (users.filter fun u => u.tenantId = tenantId ∧ u.get column = some value)
  | .noSuchProperty => .error .noSuchProperty

structure UserPage where
  resources : List User
  total : ℕ

/-- The controller asks for a `count` of at least 1. -/
def list (tenantId : String) (users : List User) (filter : Option String) (startIndex : ℤ)
    (count : ℕ) : Except ScimError UserPage := do
  let parsed ← parseScimFilter filter
  let found ← findUsers tenantId users <|
    match parsed with
    | some filter => filterToWhere filter.attr filter.value
    | none => .all
  let skip := (max 0 (startIndex - 1)).toNat
  return { resources := (found.drop skip).take count, total := found.length }

/-! ## Texts of the form -/

/-- A word, or two words with a point between them. -/
def IsAttribute (attr : List Char) : Prop :=
  ∃ word : List Char, word ≠ [] ∧ (∀ c ∈ word, isWord c) ∧
    (attr = word ∨
      ∃ sub : List Char, sub ≠ [] ∧ (∀ c ∈ sub, isWord c) ∧ attr = word ++ '.' :: sub)

/-- White space, at least one character of it. -/
def IsGap (gap : List Char) : Prop := gap ≠ [] ∧ ∀ c ∈ gap, jsWhitespace c

/-- `text` is `attr eq "value"`, with white space around and between the parts. -/
def IsEqFilter (text attr value : List Char) : Prop :=
  IsAttribute attr ∧ '"' ∉ value ∧
    ∃ (before gap gap' after : List Char) (e q : Char),
      (∀ c ∈ before, jsWhitespace c) ∧ IsGap gap ∧ (e = 'e' ∨ e = 'E') ∧ (q = 'q' ∨ q = 'Q') ∧
      IsGap gap' ∧ (∀ c ∈ after, jsWhitespace c) ∧
      text = before ++ (attr ++ (gap ++ e :: q :: (gap' ++ '"' :: (value ++ '"' :: after))))

section Runs

variable {p : Char → Bool} {run rest cs : List Char}

theorem takeWhile_run (hrun : ∀ c ∈ run, p c) (hrest : ∀ c ∈ rest.head?, p c = false) :
    (run ++ rest).takeWhile p = run := by
  rw [takeWhile_append_of_pos hrun]
  cases rest with
  | nil => simp
  | cons c rest => simp [hrest c rfl]

theorem dropWhile_run (hrun : ∀ c ∈ run, p c) (hrest : ∀ c ∈ rest.head?, p c = false) :
    (run ++ rest).dropWhile p = rest := by
  rw [dropWhile_append_of_pos hrun]
  cases rest with
  | nil => simp
  | cons c rest => simp [hrest c rfl]

theorem head?_dropWhile : ∀ c ∈ (cs.dropWhile p).head?, p c = false := by
  intro c hc
  have h := head?_dropWhile_not p cs
  rwa [hc] at h

theorem many1_eq_some_iff :
    many1 p cs = some (run, rest) ↔
      run ≠ [] ∧ (∀ c ∈ run, p c) ∧ (∀ c ∈ rest.head?, p c = false) ∧ cs = run ++ rest := by
  unfold many1
  constructor
  · intro h
    split at h
    · cases h
    · rename_i hne
      cases h
      exact ⟨hne, fun c hc => mem_takeWhile_imp hc, head?_dropWhile,
        takeWhile_append_dropWhile.symm⟩
  · rintro ⟨hne, hrun, hrest, rfl⟩
    rw [takeWhile_run hrun hrest, dropWhile_run hrun hrest, if_neg hne]

end Runs

theorem isWord_of_jsWhitespace {c : Char} (h : jsWhitespace c) : isWord c = false := by
  have hcodes : ∀ n ∈ [0x09, 0x0a, 0x0b, 0x0c, 0x0d, 0x20, 0xa0, 0x1680, 0x2000, 0x2001, 0x2002,
      0x2003, 0x2004, 0x2005, 0x2006, 0x2007, 0x2008, 0x2009, 0x200a, 0x2028, 0x2029, 0x202f,
      0x205f, 0x3000, 0xfeff], isWord (Char.ofNat n) = false := by
    decide
  rw [← Char.ofNat_toNat c]
  exact hcodes _ (of_decide_eq_true h)

theorem eqKeyword_eq_some_iff {cs rest : List Char} :
    eqKeyword cs = some rest ↔
      ∃ e q : Char, (e = 'e' ∨ e = 'E') ∧ (q = 'q' ∨ q = 'Q') ∧ cs = e :: q :: rest := by
  unfold eqKeyword
  split
  · rename_i e q rest'
    constructor
    · intro h
      split at h
      · rename_i heq
        cases h
        exact ⟨e, q, heq.1, heq.2, rfl⟩
      · cases h
    · rintro ⟨e', q', he, hq, hcs⟩
      cases hcs
      exact if_pos ⟨he, hq⟩
  · rename_i hshort
    refine ⟨nofun, ?_⟩
    rintro ⟨e, q, -, -, rfl⟩
    exact absurd rfl (hshort e q rest)

theorem quotedValue_eq_some_iff {cs value : List Char} :
    quotedValue cs = some value ↔
      '"' ∉ value ∧ ∃ after, (∀ c ∈ after, jsWhitespace c) ∧
        cs = '"' :: (value ++ '"' :: after) := by
  constructor
  · intro h
    unfold quotedValue at h
    split at h
    · rename_i rest
      split at h
      · rename_i c after hdrop
        split at h
        · rename_i hafter
          cases h
          have hc : c = '"' := bne_eq_false_iff_eq.1 (head?_dropWhile c (by rw [hdrop]; rfl))
          refine ⟨fun hmem => ?_, after, all_eq_true.1 hafter, ?_⟩
          · simpa using mem_takeWhile_imp hmem
          · rw [← hc, ← hdrop, hc, takeWhile_append_dropWhile]
        · cases h
      · cases h
    · cases h
  · rintro ⟨hvalue, after, hafter, rfl⟩
    have hrun : ∀ c ∈ value, c != '"' := fun c hc => bne_iff_ne.2 fun he => hvalue (he ▸ hc)
    have hstop : ∀ c ∈ ('"' :: after).head?, (c != '"') = false := by simp
    simp only [quotedValue, dropWhile_run hrun hstop, takeWhile_run hrun hstop,
      all_eq_true.2 hafter, if_true]

theorem isAttribute_of_attributePath {cs attr rest : List Char}
    (h : attributePath cs = some (attr, rest)) : IsAttribute attr ∧ cs = attr ++ rest := by
  unfold attributePath at h
  split at h
  · rename_i word rest' hword
    obtain ⟨hne, hrun, -, rfl⟩ := many1_eq_some_iff.1 hword
    obtain ⟨⟨sub, rest''⟩, hsub, heq⟩ := Option.map_eq_some_iff.1 h
    obtain ⟨hne', hrun', -, rfl⟩ := many1_eq_some_iff.1 hsub
    cases heq
    exact ⟨⟨word, hne, hrun, .inr ⟨sub, hne', hrun', rfl⟩⟩, by simp⟩
  · obtain ⟨hne, hrun, -, rfl⟩ := many1_eq_some_iff.1 h
    exact ⟨⟨attr, hne, hrun, .inl rfl⟩, rfl⟩

theorem attributePath_append {attr rest : List Char} (hattr : IsAttribute attr)
    (hrest : ∀ c ∈ rest.head?, isWord c = false ∧ c ≠ '.') :
    attributePath (attr ++ rest) = some (attr, rest) := by
  have hstop : ∀ c ∈ rest.head?, isWord c = false := fun c hc => (hrest c hc).1
  obtain ⟨word, hne, hrun, rfl | ⟨sub, hne', hrun', rfl⟩⟩ := hattr
  · have hword : many1 isWord (attr ++ rest) = some (attr, rest) :=
      many1_eq_some_iff.2 ⟨hne, hrun, hstop, rfl⟩
    unfold attributePath
    rw [hword]
    split
    · rename_i heq
      cases heq
      exact absurd rfl (hrest '.' rfl).2
    · rfl
  · have hword : many1 isWord (word ++ '.' :: (sub ++ rest)) = some (word, '.' :: (sub ++ rest)) :=
      many1_eq_some_iff.2 ⟨hne, hrun, by simp; decide, rfl⟩
    have hsub : many1 isWord (sub ++ rest) = some (sub, rest) :=
      many1_eq_some_iff.2 ⟨hne', hrun', hstop, rfl⟩
    rw [append_assoc, cons_append]
    simp only [attributePath, hword, hsub, Option.map_some]

theorem IsAttribute.head {attr rest : List Char} (hattr : IsAttribute attr) :
    ∀ c ∈ (attr ++ rest).head?, jsWhitespace c = false := by
  obtain ⟨word, hne, hrun, hattr⟩ := hattr
  obtain ⟨c, word, rfl⟩ := exists_cons_of_ne_nil hne
  have hhead : (attr ++ rest).head? = some c := by
    obtain rfl | ⟨sub, -, -, rfl⟩ := hattr <;> rfl
  intro d hd
  rw [hhead] at hd
  cases hd
  refine Bool.eq_false_iff.2 fun hspace => ?_
  have hword := hrun c mem_cons_self
  rw [isWord_of_jsWhitespace hspace] at hword
  cases hword

theorem many1_gap {gap rest : List Char} (hgap : IsGap gap)
    (hrest : ∀ c ∈ rest.head?, jsWhitespace c = false) :
    many1 jsWhitespace (gap ++ rest) = some (gap, rest) :=
  many1_eq_some_iff.2 ⟨hgap.1, hgap.2, hrest, rfl⟩

/-- The pattern finds the attribute and the value of the texts of the form, and no others. -/
theorem matchFilter_eq_some_iff {text attr value : List Char} :
    matchFilter text = some (attr, value) ↔ IsEqFilter text attr value := by
  constructor
  · intro h
    simp only [matchFilter, Option.bind_eq_bind, Option.bind_eq_some_iff, Option.pure_def,
      Option.some.injEq, Prod.mk.injEq, Prod.exists] at h
    obtain ⟨attr, rest, hpath, gap, rest', hgap, rest'', hkeyword, gap', quoted, hgap', value,
      hquoted, rfl, rfl⟩ := h
    obtain ⟨hattr, htext⟩ := isAttribute_of_attributePath hpath
    obtain ⟨hne, hspace, -, rfl⟩ := many1_eq_some_iff.1 hgap
    obtain ⟨e, q, he, hq, rfl⟩ := eqKeyword_eq_some_iff.1 hkeyword
    obtain ⟨hne', hspace', -, rfl⟩ := many1_eq_some_iff.1 hgap'
    obtain ⟨hvalue, after, hafter, rfl⟩ := quotedValue_eq_some_iff.1 hquoted
    refine ⟨hattr, hvalue, text.takeWhile jsWhitespace, gap, gap', after, e, q,
      fun c hc => mem_takeWhile_imp hc, ⟨hne, hspace⟩, he, hq, ⟨hne', hspace'⟩, hafter, ?_⟩
    rw [← htext, takeWhile_append_dropWhile]
  · rintro ⟨hattr, hvalue, before, gap, gap', after, e, q, hbefore, hgap, he, hq, hgap', hafter,
      rfl⟩
    have he' : jsWhitespace e = false := by
      obtain rfl | rfl := he <;> decide
    have hquoted : quotedValue ('"' :: (value ++ '"' :: after)) = some value :=
      quotedValue_eq_some_iff.2 ⟨hvalue, after, hafter, rfl⟩
    have hkeyword : ∀ rest, eqKeyword (e :: q :: rest) = some rest := fun rest =>
      eqKeyword_eq_some_iff.2 ⟨e, q, he, hq, rfl⟩
    have hpath : ∀ c ∈ (gap ++ e :: q :: (gap' ++ '"' :: (value ++ '"' :: after))).head?,
        isWord c = false ∧ c ≠ '.' := by
      obtain ⟨c, gap, rfl⟩ := exists_cons_of_ne_nil hgap.1
      intro d hd
      cases hd
      have hspace := hgap.2 c mem_cons_self
      exact ⟨isWord_of_jsWhitespace hspace, by rintro rfl; cases hspace⟩
    unfold matchFilter
    rw [dropWhile_run hbefore hattr.head, attributePath_append hattr hpath]
    simp only [Option.bind_eq_bind, Option.bind_some]
    rw [many1_gap hgap (by simpa using he')]
    simp only [Option.bind_some, hkeyword]
    rw [many1_gap hgap' (by simp; decide)]
    simp only [Option.bind_some, hquoted, Option.pure_def]

/-! ## What the list holds -/

variable {filter : String}

theorem parseScimFilter_of_ne_empty (h : filter ≠ "") :
    parseScimFilter (some filter) =
      match matchFilter filter.toList with
      | some (attr, value) => .ok (some ⟨String.ofList attr, String.ofList value⟩)
      | none => .error (.invalidFilter filter) := by
  unfold parseScimFilter
  split
  · contradiction
  · rename_i heq
    cases heq
    exact absurd rfl h
  · rename_i heq
    cases heq
    rfl

variable {attr value : List Char}

theorem not_isEqFilter_nil : ¬ IsEqFilter [] attr value := by
  rw [← matchFilter_eq_some_iff]
  exact nofun

/-- **Filters**: the texts of the form are parsed to their attribute and value, and every other text
but the empty one is rejected. -/
theorem parseScimFilter_exact (filter : String) :
    (∀ parsed, parseScimFilter (some filter) = .ok (some parsed) ↔
      IsEqFilter filter.toList parsed.attr.toList parsed.value.toList) ∧
    (parseScimFilter (some filter) = .error (.invalidFilter filter) ↔
      filter ≠ "" ∧ ∀ attr value, ¬ IsEqFilter filter.toList attr value) := by
  by_cases hne : filter = ""
  · subst hne
    exact ⟨fun _ => iff_of_false nofun not_isEqFilter_nil, iff_of_false nofun fun h => h.1 rfl⟩
  · rw [parseScimFilter_of_ne_empty hne, and_iff_right hne]
    simp only [← matchFilter_eq_some_iff]
    cases hmatch : matchFilter filter.toList with
    | none => simp
    | some found =>
      obtain ⟨attr, value⟩ := found
      refine ⟨fun parsed => ?_, iff_of_false nofun fun h => h attr value rfl⟩
      simp only [Except.ok.injEq, Option.some.injEq, Prod.mk.injEq]
      constructor
      · rintro rfl
        simp
      · rintro ⟨rfl, rfl⟩
        simp

theorem parseScimFilter_of_isEqFilter (h : IsEqFilter filter.toList attr value) :
    parseScimFilter (some filter) = .ok (some ⟨String.ofList attr, String.ofList value⟩) := by
  have hne : filter ≠ "" := by
    rintro rfl
    exact not_isEqFilter_nil h
  rw [parseScimFilter_of_ne_empty hne, matchFilter_eq_some_iff.2 h]

/-- For an attribute that has a column, the list is a page of the users of the tenant whose column
is the value, and their number. -/
theorem list_of_supported {column : UserColumn} (hfilter : IsEqFilter filter.toList attr value)
    (hcolumn : filterAttributeToColumn.lookup (toLowerCase (String.ofList attr)) = some column)
    (tenantId : String) (users : List User) (startIndex : ℤ) (count : ℕ) :
    ∃ found : List User,
      found = users.filter (fun u => u.tenantId = tenantId ∧
        u.get column = some (String.ofList value)) ∧
      list tenantId users (some filter) startIndex count =
        .ok ⟨(found.drop (max 0 (startIndex - 1)).toNat).take count, found.length⟩ := by
  have hwhere : filterToWhere (String.ofList attr) (String.ofList value) =
      .equals column (String.ofList value) := by
    unfold filterToWhere
    rw [hcolumn]
  refine ⟨_, rfl, ?_⟩
  unfold list
  rw [parseScimFilter_of_isEqFilter hfilter]
  change (findUsers tenantId users (filterToWhere _ _)).bind _ = _
  rw [hwhere]
  rfl

end Workforce.Scim
