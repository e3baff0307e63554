import Mathlib.Data.Rat.Defs

/-!
# JSON values

The values of a JSON document, as a program reads them: objects are dictionaries, and a missing or
ill-typed entry is an error. A number is the rational it denotes.
-/

namespace Workforce

inductive Json
  | null
  | bool (b : Bool)
  | num (q : ℚ)
  | str (s : String)
  | arr (items : List Json)
  | obj (fields : List (String × Json))

namespace Json

inductive Error
  | keyError (key : String)
  | valueError
  | typeError
  deriving DecidableEq

/-- `data.get(key)`: `null` where the key is missing. -/
def get (key : String) : Json → Json
  | obj fields => (fields.lookup key).getD null
  | _ => null

/-- `data[key]`. -/
def getItem (key : String) : Json → Except Error Json
  | obj fields =>
    match fields.lookup key with
    | some value => .ok value
    | none => .error (.keyError key)
  | _ => .error .typeError

/-- `data.get(key, default)`. -/
def getOr (data : Json) (key : String) (default : Json) : Json :=
  match data with
  | obj fields => (fields.lookup key).getD default
  | _ => default

/-- `bool(value)`. -/
def truthy : Json → Bool
  | null => false
  | bool b => b
  | num q => q ≠ 0
  | str s => s ≠ ""
  | arr items => !items.isEmpty
  | obj fields => !fields.isEmpty

def asBool : Json → Except Error Bool
  | bool b => .ok b
  | _ => .error .typeError

def asRat : Json → Except Error ℚ
  | num q => .ok q
  | _ => .error .typeError

def asInt : Json → Except Error ℤ
  | num q => if q.den = 1 then .ok q.num else .error .typeError
  | _ => .error .typeError

def asStr : Json → Except Error String
  | str s => .ok s
  | _ => .error .typeError

def asList : Json → Except Error (List Json)
  | arr items => .ok items
  | _ => .error .typeError

/-- The entries of a dictionary. -/
def asFields : Json → Except Error (List (String × Json))
  | obj fields => .ok fields
  | _ => .error .typeError

/-- A value that may be `None`. -/
def asOption {α : Type} (read : Json → Except Error α) : Json → Except Error (Option α)
  | null => .ok none
  | value => some <$> read value

/-- `None` as `null`. -/
def ofOption {α : Type} (write : α → Json) : Option α → Json
  | some a => write a
  | none => null

theorem asOption_ofOption {α : Type} {write : α → Json} {read : Json → Except Error α}
    {a : Option α} (hnull : ∀ b, write b ≠ null) (h : ∀ b, a = some b → read (write b) = .ok b) :
    (ofOption write a).asOption read = .ok a := by
  cases a with
  | none => rfl
  | some b =>
    have hread := h b rfl
    rw [ofOption]
    cases hw : write b with
    | null => exact absurd hw (hnull b)
    | _ =>
      rw [hw] at hread
      simp [asOption, hread, Functor.map, Except.map]

@[simp] theorem asInt_intCast (n : ℤ) : (num n).asInt = .ok n := by simp [asInt]

/-- A reader that succeeds on every encoded element succeeds on the encoded list. -/
theorem mapM_map_eq_ok {ε α β γ : Type} {l : List α} {encode : α → β} {read : β → Except ε γ}
    {f : α → γ} (h : ∀ a ∈ l, read (encode a) = .ok (f a)) :
    (l.map encode).mapM read = .ok (l.map f) := by
  induction l with
  | nil => rfl
  | cons a l ih =>
    have ih := ih fun b hb => h b (List.mem_cons_of_mem _ hb)
    rw [List.map_cons, List.mapM_cons, h a List.mem_cons_self, ih]
    rfl

end Json

end Workforce
