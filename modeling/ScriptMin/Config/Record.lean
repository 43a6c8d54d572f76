import ScriptMin.Config.Reader

/-!
# Typed values

Readers of one type each. A record is read from an object, in which unknown fields are passed over
and absent ones keep their default, or from a list of its fields in their order. A fault of the type
is found before what follows the value is looked at.
-/

namespace ScriptMin.Config

namespace Reading

variable {α β : Type}

/-! ## The wrong type -/

/-- Refuses a value of another type than expected. A list and an object are not read for it. -/
def refuse (expected : String) : Reading α := do
  let wrong := fun found => failHere (.wrongType found expected)
  match ← peek with
  | some 'n' => take; word "ull".toList; wrong .null
  | some 't' => take; word "rue".toList; wrong (.boolean true)
  | some 'f' => take; word "alse".toList; wrong (.boolean false)
  | some '\x22' => wrong (.text (← text true))
  | some '[' => wrong .list
  | some '\x7b' => wrong .object
  | some c => if c == '-' || c.isDigit then wrong (← number) else failNext .expectedValue
  | none => failNext .expectedValue

/-- The first character of a value. -/
def start : Reading Char := do
  match ← next with
  | some c => return c
  | none => failNext .endOfValue

/-! ## Plain values -/

def boolean : Reading Bool := do
  match ← start with
  | 't' => take; word "rue".toList; return true
  | 'f' => take; word "alse".toList; return false
  | _ => refuse "a boolean"

/-- An integer from zero up to the greatest word of 32 bits. -/
def word32 : Reading Nat := do
  let c ← start
  if c == '-' || c.isDigit then
    match ← number with
    | .integer value =>
      if 0 ≤ value ∧ value < Nat.pow 2 32 then return value.toNat
      else failHere (.wrongValue (.integer value) "u32")
    | found => failHere (.wrongType found "u32")
  else refuse "u32"

def string : Reading String := do
  match ← start with
  | '\x22' => return String.ofList (← text true)
  | _ => refuse "a string"

/-- A value, or nothing where `null` stands. -/
def optional (value : Reading α) : Reading (Option α) := do
  match ← next with
  | some 'n' => take; word "ull".toList; return none
  | _ => some <$> value

/-- The value that a name stands for. -/
def chosen (choices : List (String × α)) (name : List Char) : Reading α :=
  match choices.find? fun c => c.1.toList == name with
  | some (_, value) => return value
  | none => failHere (.unknownChoice name (choices.map (·.1)))

/-- One of some named values. Its name is a text, or the only key of an object, with `null`. -/
def choice (choices : List (String × α)) : Reading α := do
  match ← start with
  | '\x22' => chosen choices (← text true)
  | '\x7b' =>
    take
    let value ←
      match ← next with
      | some '\x22' => chosen choices (← text true)
      | some '\x7d' => failNext .expectedValue
      | some _ => failNext .expectedKey
      | none => failNext .endOfObject
    colon
    match ← start with
    | 'n' => take; word "ull".toList
    | _ => refuse "unit"
    match ← next with
    | some '\x7d' => take; return value
    | some _ => failHere .expectedValue
    | none => failHere .endOfObject
  | _ => failNext .expectedValue
where
  /-- The colon after a key. -/
  colon : Reading Unit := do
    match ← next with
    | some ':' => take
    | some _ => failNext .expectedColon
    | none => failNext .endOfObject

/-! ## Lists -/

/-- Whether a list has another item, at which the reader then stands. -/
def hasItem (first : Bool) : Reading Bool := do
  match ← next with
  | none => failNext .endOfList
  | some ']' => return false
  | some c =>
    if first then return true
    else if c != ',' then failNext .expectedListEnd
    else
      take
      match ← next with
      | some ']' => failNext .trailingComma
      | some _ => return true
      | none => failNext .endOfValue

/-- The end of a list. -/
def listEnd : Reading Unit := do
  match ← next with
  | some ']' => take
  | some ',' =>
    take
    if (← next) == some ']' then failNext .trailingComma else failNext .trailingCharacters
  | some _ => failNext .trailingCharacters
  | none => failNext .endOfList

def items (item : Reading α) : Nat → Bool → Reading (List α)
  | 0, _ => return []
  | fuel + 1, first => do
    if ← hasItem first then return (← item) :: (← items item fuel false) else return []

/-- A list of values of one type. -/
def list (item : Reading α) : Reading (List α) := do
  match ← start with
  | '[' =>
    take
    let values ← items item (← bound) true
    listEnd
    return values
  | _ => refuse "a sequence"

/-! ## Records -/

/-- A field of a record: its name, and how a value is read into it. -/
structure Field (α : Type) where
  name : String
  read : α → Reading α

/-- A field that is read by itself and then stored. -/
def Field.of (name : String) (value : Reading β) (store : α → β → α) : Field α :=
  ⟨name, fun record => store record <$> value⟩

/-- The fields of a list, as far as it goes. -/
def inOrder : List (Field α) → Bool → α → Reading α
  | [], _, record => return record
  | field :: rest, first, record => do
    if ← hasItem first then inOrder rest false (← field.read record) else return record

/-- The next key of an object, or nothing at its end. -/
def key? (first : Bool) : Reading (Option (List Char)) := do
  match ← next with
  | none => failNext .endOfObject
  | some '\x7d' => return none
  | some c =>
    if first then
      if c == '\x22' then some <$> text true else failNext .expectedKey
    else if c != ',' then failNext .expectedObjectEnd
    else
      take
      match ← next with
      | some '\x22' => some <$> text true
      | some '\x7d' => failNext .trailingComma
      | some _ => failNext .expectedKey
      | none => failNext .endOfValue

/-- Refuses a field that has been read already. The closing brace after its name, if there is one,
is read before. -/
def refuseRepeated (name : String) : Reading α := do
  if (← next) == some '\x7d' then take
  failHere (.duplicateField name)

/-- The members of an object from here on, read into a record. -/
def members (fields : List (Field α)) : Nat → Bool → List String → α → Reading α
  | 0, _, _, record => return record
  | fuel + 1, first, seen, record => do
    match ← key? first with
    | none => return record
    | some name =>
      match fields.find? fun f => f.name.toList == name with
      | none =>
        choice.colon
        skip
        members fields fuel false seen record
      | some field =>
        if seen.contains field.name then refuseRepeated field.name
        else
          choice.colon
          members fields fuel false (field.name :: seen) (← field.read record)

/-- A record. What is expected where it stands is named by `expected`. -/
def record (expected : String) (fields : List (Field α)) (default : α) : Reading α := do
  match ← start with
  | '\x7b' =>
    take
    let value ← members fields (← bound) true [] default
    take
    return value
  | '[' =>
    take
    let value ← inOrder fields true default
    listEnd
    return value
  | _ => refuse expected

end Reading

/-- The value that a whole text is. -/
def read {α : Type} (value : Reading α) (text : List Char) : Except Fault α :=
  let whole : Reading α := do
    let result ← value
    if (← Reading.next).isSome then Reading.failNext .trailingCharacters else return result
  (whole.run ⟨text, 0⟩).map (·.1)

end ScriptMin.Config
