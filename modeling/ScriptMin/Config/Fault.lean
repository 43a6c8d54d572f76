import ScriptMin.Config.Numeral
import ScriptMin.Source.Printable
import ScriptMin.Source.Span

/-!
# Faults in a JSON text

What is wrong with a text that options are read from, and where. The place of a fault is a byte
offset, which `Fault.message` turns into a line and a column.
-/

namespace ScriptMin.Config

/-- A value that stands where another one was expected. -/
inductive Found where
  | null
  | boolean (value : Bool)
  | integer (value : Int)
  | number (value : Float)
  | text (value : List Char)
  | list
  | object

/-- What is wrong with a text. -/
inductive Problem where
  | endOfList
  | endOfObject
  | endOfText
  | endOfValue
  | expectedColon
  | expectedListEnd
  | expectedObjectEnd
  | expectedWord
  | expectedValue
  | expectedKey
  | invalidEscape
  | invalidNumber
  | numberTooLarge
  | controlCharacter
  | loneSurrogate
  | unpairedSurrogate
  | trailingComma
  | trailingCharacters
  | wrongType (found : Found) (expected : String)
  | wrongValue (found : Found) (expected : String)
  | unknownChoice (name : List Char) (choices : List String)
  | duplicateField (name : String)

/-- A character between double quotes. One that could not be told there is written by its number. -/
def quotedChar (c : Char) : List Char :=
  if c == '\x22' || c == '\\' then ['\\', c]
  else if c == '\n' then ['\\', 'n']
  else if c == '\r' then ['\\', 'r']
  else if c == '\t' then ['\\', 't']
  else if c.toNat = 0 then ['\\', '0']
  else if Source.extendsGrapheme c || !Source.isPrintable c then
    '\\' :: 'u' :: '\x7b' :: Nat.toDigits 16 c.toNat ++ ['\x7d']
  else [c]

namespace Found

/-- What a diagnostic shows of a value. -/
def description : Found → String
  | .null => "null"
  | .boolean value => "boolean \x60" ++ toString value ++ "\x60"
  | .integer value => "integer \x60" ++ toString value ++ "\x60"
  | .number value => "floating point \x60" ++ String.ofList (numberText value) ++ "\x60"
  | .text value => "string \"" ++ String.ofList (value.flatMap quotedChar) ++ "\""
  | .list => "sequence"
  | .object => "map"

end Found

namespace Problem

def message : Problem → String
  | .endOfList => "EOF while parsing a list"
  | .endOfObject => "EOF while parsing an object"
  | .endOfText => "EOF while parsing a string"
  | .endOfValue => "EOF while parsing a value"
  | .expectedColon => "expected \x60:\x60"
  | .expectedListEnd => "expected \x60,\x60 or \x60]\x60"
  | .expectedObjectEnd => "expected \x60,\x60 or \x60\x7d\x60"
  | .expectedWord => "expected ident"
  | .expectedValue => "expected value"
  | .expectedKey => "key must be a string"
  | .invalidEscape => "invalid escape"
  | .invalidNumber => "invalid number"
  | .numberTooLarge => "number out of range"
  | .controlCharacter =>
    "control character (\\u0000-\\u001F) found while parsing a string"
  | .loneSurrogate => "lone leading surrogate in hex escape"
  | .unpairedSurrogate => "unexpected end of hex escape"
  | .trailingComma => "trailing comma"
  | .trailingCharacters => "trailing characters"
  | .wrongType found expected =>
    "invalid type: " ++ found.description ++ ", expected " ++ expected
  | .wrongValue found expected =>
    "invalid value: " ++ found.description ++ ", expected " ++ expected
  | .unknownChoice name choices =>
    "unknown variant \x60" ++ String.ofList name ++ "\x60, expected " ++
      " or ".intercalate (choices.map fun choice => "\x60" ++ choice ++ "\x60")
  | .duplicateField name => "duplicate field \x60" ++ name ++ "\x60"

end Problem

/-- A problem and the byte offset where it was found. -/
structure Fault where
  problem : Problem
  offset : Nat

/-- The line of a byte offset, counted from 1, and the number of bytes before it on that line. Only
a line feed ends a line. -/
def linePlace (text : List Char) (offset : Nat) : Nat × Nat :=
  let before := Source.Span.takeBytes offset text
  let line := before.reverse.takeWhile (· != '\n')
  (before.count '\n' + 1, offset + Source.byteLength line - Source.byteLength before)

/-- What a diagnostic says of a fault in a text. -/
def Fault.message (f : Fault) (text : List Char) : String :=
  let (line, column) := linePlace text f.offset
  f.problem.message ++ " at line " ++ toString line ++ " column " ++ toString column

end ScriptMin.Config
