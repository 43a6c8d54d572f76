import ScriptMin.Config.Fault

/-!
# Reading JSON

Words, numbers and texts of JSON, and `skipValue`, which passes over any value. A reader says what
is wrong at the place it has come to or at the byte after it.
-/

namespace ScriptMin.Config

/-- What is left to read, and the byte offset it starts at. -/
structure Rest where
  text : List Char
  offset : Nat

/-- A step of reading. -/
abbrev Reading := StateT Rest (Except Fault)

namespace Reading

variable {α : Type}

/-- Something is wrong at the place that has been reached. -/
def failHere (problem : Problem) : Reading α := fun r => .error ⟨problem, r.offset⟩

/-- Something is wrong with the next byte, if there is one. -/
def failNext (problem : Problem) : Reading α := fun r =>
  .error ⟨problem, if r.text.isEmpty then r.offset else r.offset + 1⟩

/-- Something was wrong some bytes before the place that has been reached. -/
def failBack (count : Nat) (problem : Problem) : Reading α := fun r =>
  .error ⟨problem, r.offset - count⟩

/-- The next character, which is not taken. -/
def peek : Reading (Option Char) := fun r => .ok (r.text.head?, r)

/-- Takes a character, if there is one. -/
def take : Reading Unit := fun r =>
  match r.text with
  | [] => .ok ((), r)
  | c :: rest => .ok ((), ⟨rest, r.offset + c.utf8Size⟩)

/-- Takes characters of a kind as long as they come. -/
def takeWhile (kind : Char → Bool) : Reading (List Char) := fun r =>
  let taken := r.text.takeWhile kind
  .ok (taken, ⟨r.text.dropWhile kind, r.offset + Source.byteLength taken⟩)

def isBlank (c : Char) : Bool := c == ' ' || c == '\n' || c == '\t' || c == '\r'

/-- The next character that is not blank. -/
def next : Reading (Option Char) := do
  let _ ← takeWhile isBlank
  peek

/-- A number of steps that no part of the rest needs. -/
def bound : Reading Nat := fun r => .ok (2 * r.text.length + 2, r)

/-! ## Words -/

/-- The rest of a word, character by character. -/
def word : List Char → Reading Unit
  | [] => return
  | c :: rest => do
    match ← peek with
    | none => failHere .endOfValue
    | some d => if d == c then do take; word rest else failNext .expectedWord

/-! ## Numbers -/

/-- The digits before the point. A zero stands alone. -/
def wholeDigits (cut : Problem) : Reading (List Char) := do
  match ← peek with
  | none => failHere cut
  | some '0' =>
    take
    if (← peek).any Char.isDigit then failNext .invalidNumber else return ['0']
  | some c => if c.isDigit then takeWhile Char.isDigit else failNext .invalidNumber

/-- The point and the digits after it, if there is a point. -/
def fractionDigits (cut : Problem) : Reading (Option (List Char)) := do
  if (← peek) != some '.' then return none
  take
  let digits ← takeWhile Char.isDigit
  if !digits.isEmpty then return some digits
  else if (← peek).isNone then failHere cut
  else failNext .invalidNumber

/-- The exponent, if there is one. -/
def exponentPart (cut : Problem) : Reading (Option Exponent) := do
  if !(← peek).any (fun c => c == 'e' || c == 'E') then return none
  take
  let sign ← peek
  if sign == some '-' || sign == some '+' then take
  match ← peek with
  | none => failHere cut
  | some c =>
    if !c.isDigit then failNext .invalidNumber
    else return some ⟨sign == some '-', ← takeWhile Char.isDigit⟩

/-- A number. A text that ends inside it is cut. -/
def numeral (cut : Problem) : Reading Numeral := do
  let negative := (← peek) == some '-'
  if negative then take
  return ⟨negative, ← wholeDigits cut, ← fractionDigits cut, ← exponentPart cut⟩

/-- The value of a number. -/
def number : Reading Found := do
  let n ← numeral .endOfValue
  match n.integer? with
  | some value => return .integer value
  | none =>
    match n.value with
    | .ok value => return .number value
    | .error unread => failBack unread .numberTooLarge

/-! ## Texts -/

/-- Four bytes that are the digits of a number in base sixteen. -/
def hexEscape : Reading Nat := fun r =>
  let size := Source.byteLength r.text
  let fault := fun problem => Except.error ⟨problem, r.offset + min size 4⟩
  if size < 4 then fault .endOfText
  else
    match r.text with
    | a :: b :: c :: d :: rest =>
      match [a, b, c, d].mapM (Source.digitValue? 16) with
      | some digits =>
        .ok (digits.foldl (fun value digit => 16 * value + digit) 0, ⟨rest, r.offset + 4⟩)
      | none => fault .invalidEscape
    | _ => fault .invalidEscape

/-- Takes the character that has to come between two halves of a pair. -/
def between (c : Char) : Reading Unit := do
  match ← peek with
  | none => failHere .endOfText
  | some d => if d == c then take else failNext .unpairedSurrogate

/-- The character that an escape in base sixteen stands for. Characters above `U+FFFF` take two. -/
def unicodeEscape : Reading Char := do
  let high ← hexEscape
  if high < 0xd800 ∨ 0xdfff < high then return Char.ofNat high
  else if 0xdc00 ≤ high then failHere .loneSurrogate
  else
    between '\\'
    between 'u'
    let low ← hexEscape
    if low < 0xdc00 ∨ 0xdfff < low then failHere .loneSurrogate
    else return Char.ofNat (0x10000 + 0x400 * (high - 0xd800) + (low - 0xdc00))

/-- What a letter after a backslash stands for. -/
def letterEscape? : Char → Option Char
  | '\x22' => some '\x22'
  | '\\' => some '\\'
  | '/' => some '/'
  | 'b' => some '\x08'
  | 'f' => some '\x0c'
  | 'n' => some '\n'
  | 'r' => some '\r'
  | 't' => some '\t'
  | _ => none

/-- The character that an escape stands for, after its backslash. Halves of pairs are looked at only
if the text is `kept`. -/
def escape (kept : Bool) : Reading Char := do
  match ← peek with
  | none => failHere .endOfText
  | some 'u' =>
    take
    if kept then unicodeEscape else return Char.ofNat (← hexEscape)
  | some c =>
    match letterEscape? c with
    | some value => take; return value
    | none => failNext .invalidEscape

/-- The rest of a text, after what has been read of it. -/
def textFrom (kept : Bool) : Nat → List Char → Reading (List Char)
  | 0, _ => failHere .endOfText
  | fuel + 1, before => do
    match ← peek with
    | none => failHere .endOfText
    | some '\x22' => take; return before.reverse
    | some '\\' => take; textFrom kept fuel ((← escape kept) :: before)
    | some c =>
      if c.toNat < 32 then if kept then failNext .controlCharacter else failHere .controlCharacter
      else take; textFrom kept fuel (c :: before)

/-- A text, from its opening quote on. -/
def text (kept : Bool) : Reading (List Char) := do
  take
  textFrom kept (← bound) []

/-! ## Values of any type -/

mutual

/-- Passes over a value. -/
def skipValue : Nat → Reading Unit
  | 0 => failHere .endOfValue
  | fuel + 1 => do
    match ← next with
    | none => failNext .endOfValue
    | some 'n' => take; word "ull".toList
    | some 't' => take; word "rue".toList
    | some 'f' => take; word "alse".toList
    | some '\x22' => let _ ← text false
    | some '[' => take; skipItems fuel true
    | some '\x7b' => take; skipMembers fuel true
    | some c =>
      if c == '-' || c.isDigit then let _ ← numeral .invalidNumber else failNext .expectedValue

/-- Passes over the items of a list and its end. -/
def skipItems : Nat → Bool → Reading Unit
  | 0, _ => failHere .endOfList
  | fuel + 1, first => do
    match ← next with
    | none => failNext .endOfList
    | some ']' => take
    | some c =>
      if first then skipValue fuel; skipItems fuel false
      else if c == ',' then take; skipValue fuel; skipItems fuel false
      else failNext .expectedListEnd

/-- Passes over the members of an object and its end. -/
def skipMembers : Nat → Bool → Reading Unit
  | 0, _ => failHere .endOfObject
  | fuel + 1, first => do
    match ← next with
    | none => failNext .endOfObject
    | some '\x7d' => take
    | some c =>
      if first then skipMember fuel; skipMembers fuel false
      else if c == ',' then take; skipMember fuel; skipMembers fuel false
      else failNext .expectedObjectEnd

/-- Passes over a key and its value. -/
def skipMember : Nat → Reading Unit
  | 0 => failHere .endOfObject
  | fuel + 1 => do
    match ← next with
    | none => failNext .endOfObject
    | some '\x22' =>
      let _ ← text false
      match ← next with
      | none => failNext .endOfObject
      | some ':' => take; skipValue fuel
      | some _ => failNext .expectedColon
    | some _ => failNext .expectedKey

end

/-- Passes over a value of any type. -/
def skip : Reading Unit := do
  skipValue (2 * (← bound))

end Reading

end ScriptMin.Config
