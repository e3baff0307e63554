import Mathlib.Data.List.Basic

/-!
# Reading JSON texts

The bytes of a message as UTF-8, and the text as JSON: a machine that reads one character at a time,
with a stack of the lists and dictionaries that are open. Besides texts that are no JSON, a reader
may give up on numbers with too many digits and on values that are nested too deeply (`Limits`).
Which of the three a text is refused for is decided by what comes first in it.

The grammar is the one that Python's `json` accepts, with `NaN` and the infinities. The value of a
number is not computed; of a string, a surrogate without its partner is replaced.
-/

namespace Workforce.JsonText

/-! ## UTF-8 -/

/-- The six bits of a continuation byte. -/
def continuation (b : UInt8) : Option ℕ :=
  if 0x80 ≤ b.toNat ∧ b.toNat < 0xc0 then some (b.toNat - 0x80) else none

/-- The character of a code point, unless a shorter sequence (below `least`) would do or the point
is a surrogate. -/
def scalar (least code : ℕ) : Option Char :=
  if least ≤ code ∧ code.isValidChar then some (Char.ofNat code) else none

/-- `data.decode("utf-8")`. -/
def utf8Decode : List UInt8 → Option (List Char)
  | [] => some []
  | b₀ :: bs =>
    if b₀.toNat < 0x80 then do
      return Char.ofNat b₀.toNat :: (← utf8Decode bs)
    else
      match bs with
      | [] => none
      | b₁ :: bs =>
        if b₀.toNat < 0xc0 then none
        else if b₀.toNat < 0xe0 then do
          let c ← scalar 0x80 ((b₀.toNat - 0xc0) * 64 + (← continuation b₁))
          return c :: (← utf8Decode bs)
        else
          match bs with
          | [] => none
          | b₂ :: bs =>
            if b₀.toNat < 0xf0 then do
              let c ← scalar 0x800 (((b₀.toNat - 0xe0) * 64 + (← continuation b₁)) * 64 +
                (← continuation b₂))
              return c :: (← utf8Decode bs)
            else
              match bs with
              | [] => none
              | b₃ :: bs => do
                let c ← scalar 0x10000 ((((b₀.toNat - 0xf0) * 64 + (← continuation b₁)) * 64 +
                  (← continuation b₂)) * 64 + (← continuation b₃))
                return c :: (← utf8Decode bs)

/-! ## Values -/

inductive Value
  | null
  | bool (b : Bool)
  /-- A number, as it is written. -/
  | number (text : String)
  | str (s : String)
  | list (items : List Value)
  /-- The fields of a dictionary, the last one first. -/
  | dict (fields : List (String × Value))

inductive LoadError
  /-- The text is no JSON. -/
  | decode
  /-- An integer has too many digits. -/
  | digits
  /-- Lists and dictionaries are nested too deeply. -/
  | depth

structure Limits where
  maxDigits : ℕ
  maxDepth : ℕ

/-! ## The machine -/

/-- A list or dictionary that is open, the last item first; of a dictionary, with the key of the
value that is being read. -/
inductive Frame
  | list (items : List Value)
  | dict (fields : List (String × Value)) (key : String)

/-- Where in a number the reader is. Some characters that continue it have to be followed by
others. -/
inductive Phase
  | minus | zero | int | dot | fraction | exponent | exponentSign | exponentDigits
  deriving DecidableEq

/-- What a string that is being read is for. -/
inductive Role
  | value
  | key (fields : List (String × Value))

inductive Mode
  /-- A value has to follow, or the end of an empty list. -/
  | value (orEnd : Bool)
  /-- A value has been read. -/
  | after (v : Value)
  /-- A key has to follow, or the end of an empty dictionary. -/
  | key (fields : List (String × Value)) (orEnd : Bool)
  | colon (fields : List (String × Value)) (key : String)
  /-- In a string, with its code points so far, the last one first. -/
  | string (role : Role) (points : List ℕ)
  | escape (role : Role) (points : List ℕ)
  /-- In an escape `\uXXXX`, with the digits that are missing. -/
  | unicode (role : Role) (points : List ℕ) (missing code : ℕ)
  /-- In a number, with the count of its integer digits and whether a fraction or an exponent has
  been read. -/
  | number (phase : Phase) (intDigits : ℕ) (isFloat : Bool) (chars : List Char)
  /-- In a word such as `true`, with the characters that are missing. -/
  | word (missing : List Char) (v : Value)

structure State where
  stack : List Frame
  mode : Mode

def isWhitespace (c : Char) : Bool := c = ' ' || c = '\t' || c = '\n' || c = '\r'

def isDigit (c : Char) : Bool := '0' ≤ c && c ≤ '9'

def hexValue (c : Char) : Option ℕ :=
  if isDigit c then some (c.toNat - 48)
  else if 'a' ≤ c && c ≤ 'f' then some (c.toNat - 87)
  else if 'A' ≤ c && c ≤ 'F' then some (c.toNat - 55)
  else none

/-- The character of a code point. -/
def pointChar (point : ℕ) : Char := if point.isValidChar then Char.ofNat point else '\ufffd'

/-- The text of code points, where a high and a low surrogate that follow each other are one. -/
def joinSurrogates : List ℕ → List Char
  | [] => []
  | [point] => [pointChar point]
  | high :: low :: rest =>
    if 0xd800 ≤ high ∧ high < 0xdc00 ∧ 0xdc00 ≤ low ∧ low < 0xe000 then
      Char.ofNat (0x10000 + (high - 0xd800) * 0x400 + (low - 0xdc00)) :: joinSurrogates rest
    else pointChar high :: joinSurrogates (low :: rest)

/-- What a character of a number leads to. -/
def Phase.next (phase : Phase) (c : Char) : Option Phase :=
  match phase with
  | .minus => if c = '0' then some .zero else if isDigit c then some .int else none
  | .zero => afterInt c
  | .int => if isDigit c then some .int else afterInt c
  | .dot => if isDigit c then some .fraction else none
  | .fraction => if isDigit c then some .fraction else afterFraction c
  | .exponent =>
    if isDigit c then some .exponentDigits
    else if c = '+' || c = '-' then some .exponentSign else none
  | .exponentSign => if isDigit c then some .exponentDigits else none
  | .exponentDigits => if isDigit c then some .exponentDigits else none
where
  afterFraction (c : Char) : Option Phase :=
    if c = 'e' || c = 'E' then some .exponent else none
  afterInt (c : Char) : Option Phase := if c = '.' then some .dot else afterFraction c

/-- The value of a number that ends here. Where its last characters had to be followed by others,
the number ended before them and they follow it in vain; an integer is converted first. -/
def endNumber (limits : Limits) (phase : Phase) (intDigits : ℕ) (isFloat : Bool)
    (chars : List Char) : Except LoadError Value :=
  if phase = .minus then .error .decode
  else if !isFloat && limits.maxDigits < intDigits then .error .digits
  else if phase = .dot || phase = .exponent || phase = .exponentSign then .error .decode
  else .ok (.number (.ofList chars.reverse))

/-- The start of a value. -/
def beginValue (limits : Limits) (stack : List Frame) (orEnd : Bool) (c : Char) :
    Except LoadError State :=
  if isWhitespace c then .ok ⟨stack, .value orEnd⟩
  else
    match c with
    | '\x22' => .ok ⟨stack, .string .value []⟩
    | '[' =>
      if limits.maxDepth ≤ stack.length then .error .depth
      else .ok ⟨.list [] :: stack, .value true⟩
    | ']' =>
      match orEnd, stack with
      | true, .list [] :: stack => .ok ⟨stack, .after (.list [])⟩
      | _, _ => .error .decode
    | '\x7b' =>
      -- The frame is pushed with the first key.
      if limits.maxDepth ≤ stack.length then .error .depth else .ok ⟨stack, .key [] true⟩
    | 'n' => .ok ⟨stack, .word "ull".toList .null⟩
    | 't' => .ok ⟨stack, .word "rue".toList (.bool true)⟩
    | 'f' => .ok ⟨stack, .word "alse".toList (.bool false)⟩
    | 'N' => .ok ⟨stack, .word "aN".toList (.number "NaN")⟩
    | 'I' => .ok ⟨stack, .word "nfinity".toList (.number "Infinity")⟩
    | '-' => .ok ⟨stack, .number .minus 0 false ['-']⟩
    | '0' => .ok ⟨stack, .number .zero 1 false ['0']⟩
    | c => if isDigit c then .ok ⟨stack, .number .int 1 false [c]⟩ else .error .decode

/-- What follows a value. -/
def afterValue (stack : List Frame) (v : Value) (c : Char) : Except LoadError State :=
  if isWhitespace c then .ok ⟨stack, .after v⟩
  else
    match stack with
    | [] => .error .decode
    | .list items :: stack =>
      if c = ',' then .ok ⟨.list (v :: items) :: stack, .value false⟩
      else if c = ']' then .ok ⟨stack, .after (.list (v :: items).reverse)⟩
      else .error .decode
    | .dict fields key :: stack =>
      if c = ',' then .ok ⟨stack, .key ((key, v) :: fields) false⟩
      else if c = '\x7d' then .ok ⟨stack, .after (.dict ((key, v) :: fields))⟩
      else .error .decode

/-- The end of a string. -/
def endString (stack : List Frame) (role : Role) (points : List ℕ) : State :=
  let s := String.ofList (joinSurrogates points.reverse)
  match role with
  | .value => ⟨stack, .after (.str s)⟩
  | .key fields => ⟨stack, .colon fields s⟩

/-- The character an escape stands for. -/
def escaped (c : Char) : Option ℕ :=
  match c with
  | '\x22' => some 0x22
  | '\x5c' => some 0x5c
  | '/' => some 0x2f
  | 'b' => some 0x08
  | 'f' => some 0x0c
  | 'n' => some 0x0a
  | 'r' => some 0x0d
  | 't' => some 0x09
  | _ => none

/-- One character. -/
def feed (limits : Limits) (st : State) (c : Char) : Except LoadError State :=
  match st.mode with
  | .value orEnd => beginValue limits st.stack orEnd c
  | .after v => afterValue st.stack v c
  | .key fields orEnd =>
    if isWhitespace c then .ok st
    else if c = '\x22' then .ok ⟨st.stack, .string (.key fields) []⟩
    else if c = '\x7d' && orEnd then .ok ⟨st.stack, .after (.dict [])⟩
    else .error .decode
  | .colon fields key =>
    if isWhitespace c then .ok st
    else if c = ':' then .ok ⟨.dict fields key :: st.stack, .value false⟩
    else .error .decode
  | .string role points =>
    if c = '\x22' then .ok (endString st.stack role points)
    else if c = '\x5c' then .ok ⟨st.stack, .escape role points⟩
    else if c.toNat < 0x20 then .error .decode
    else .ok ⟨st.stack, .string role (c.toNat :: points)⟩
  | .escape role points =>
    if c = 'u' then .ok ⟨st.stack, .unicode role points 4 0⟩
    else
      match escaped c with
      | some point => .ok ⟨st.stack, .string role (point :: points)⟩
      | none => .error .decode
  | .unicode role points missing code =>
    match hexValue c with
    | none => .error .decode
    | some d =>
      if missing ≤ 1 then .ok ⟨st.stack, .string role ((code * 16 + d) :: points)⟩
      else .ok ⟨st.stack, .unicode role points (missing - 1) (code * 16 + d)⟩
  | .number phase intDigits isFloat chars =>
    match phase.next c with
    | some next => .ok ⟨st.stack, .number next
        (if next = .zero || next = .int then intDigits + 1 else intDigits)
        (isFloat || next = .fraction || next = .exponentDigits) (c :: chars)⟩
    | none =>
      if phase = .minus && c = 'I' then
        .ok ⟨st.stack, .word "nfinity".toList (.number "-Infinity")⟩
      else do
        let v ← endNumber limits phase intDigits isFloat chars
        afterValue st.stack v c
  | .word missing v =>
    match missing with
    | [] => afterValue st.stack v c
    | c' :: rest =>
      if c ≠ c' then .error .decode
      else if rest = [] then .ok ⟨st.stack, .after v⟩
      else .ok ⟨st.stack, .word rest v⟩

/-- The end of the text. -/
def finish (limits : Limits) (st : State) : Except LoadError Value :=
  match st.stack, st.mode with
  | [], .after v => .ok v
  | stack, .number phase intDigits isFloat chars => do
    let v ← endNumber limits phase intDigits isFloat chars
    if stack.isEmpty then .ok v else .error .decode
  | _, _ => .error .decode

/-- `json.loads(text)`. -/
def loads (limits : Limits) (text : List Char) : Except LoadError Value := do
  let st ← text.foldlM (feed limits) ⟨[], .value false⟩
  finish limits st

end Workforce.JsonText
