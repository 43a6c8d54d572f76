import ScriptMin.SyntaxError

/-!
# Forming tokens

A `Cursor` stands in the source before the characters still to be read. `next` skips the space and
the comments there and reads one token; `templateTail` goes on with a template after a substitution.

Each scanner below takes the characters from the start of a token and splits them into the token's
text and the rest. It refuses with a cause and the number of bytes before the place of the error,
which `next` turns into a position.
-/

namespace ScriptMin

open Source

/-- A place in the source: the characters from there on, and the number of bytes before it. -/
structure Cursor where
  rest : List Char
  position : Nat
deriving DecidableEq, Repr

/-- Whether a slash starts a regular expression: it does where an operand may stand, and divides
after one. -/
inductive SlashMode where
  | regex
  | division
deriving DecidableEq, Repr

namespace Lexer

/-- A cause and the number of bytes from the start of the scan to the error. -/
structure Refusal where
  cause : Cause
  offset : Nat
deriving DecidableEq, Repr

/-- The text of a token and the characters after it. -/
structure Lexeme where
  text : List Char
  rest : List Char
deriving DecidableEq, Repr

abbrev Scan := List Char → Except Refusal Lexeme

/-- Puts characters that were read before in front of a lexeme. -/
def Lexeme.after (l : Lexeme) (before : List Char) : Lexeme :=
  { l with text := before ++ l.text }

/-- The longest text of characters in a class. -/
def span (p : Char → Bool) (text : List Char) : Lexeme :=
  ⟨text.takeWhile p, text.dropWhile p⟩

/-! ## Space and comments -/

/-- Where trivia is read: between comments, or inside one. A block comment keeps the offset of its
start. -/
inductive TriviaState where
  | between
  | lineComment
  | blockComment (start : Nat)
deriving DecidableEq, Repr

/-- The characters after the space and the comments of a text, their offset, and whether a line ends
before them. -/
structure Trivia where
  rest : List Char
  offset : Nat
  newline : Bool
deriving DecidableEq, Repr

/-- Skips space and comments. A line comment leaves the end of its line, which then counts as
space. -/
def skipTrivia (state : TriviaState) (offset : Nat) (newline : Bool) :
    List Char → Except Refusal Trivia
  | [] =>
    match state with
    | .blockComment start => .error ⟨.unterminatedComment, start⟩
    | _ => .ok ⟨[], offset, newline⟩
  | c :: [] =>
    match state with
    | .blockComment start => .error ⟨.unterminatedComment, start⟩
    | .lineComment => .ok ⟨[], offset + c.utf8Size, newline || isLineTerminator c⟩
    | .between =>
      if isSpace c then .ok ⟨[], offset + c.utf8Size, newline || isLineTerminator c⟩
      else .ok ⟨[c], offset, newline⟩
  | c :: d :: rest =>
    match state with
    | .blockComment start =>
      if c == '*' && d == '/' then skipTrivia .between (offset + 2) newline rest
      else
        skipTrivia (.blockComment start) (offset + c.utf8Size) (newline || isLineTerminator c)
          (d :: rest)
    | .lineComment =>
      skipTrivia (if isLineTerminator c then .between else .lineComment) (offset + c.utf8Size)
        (newline || isLineTerminator c) (d :: rest)
    | .between =>
      if isSpace c then
        skipTrivia .between (offset + c.utf8Size) (newline || isLineTerminator c) (d :: rest)
      else if c == '/' && d == '*' then skipTrivia (.blockComment offset) (offset + 2) newline rest
      else if c == '/' && d == '/' then skipTrivia .lineComment (offset + 2) newline rest
      else .ok ⟨c :: d :: rest, offset, newline⟩

/-- Skips the trivia at a place in the source. At the very start a line that begins with `#!` counts
as a comment. -/
def triviaAt (position : Nat) (text : List Char) : Except Refusal Trivia :=
  match position, text with
  | 0, '#' :: '!' :: rest => skipTrivia .lineComment 2 false rest
  | _, text => skipTrivia .between 0 false text

/-! ## Names and numbers -/

/-- A word: its first character, whatever it is, and all that go on a word. -/
def word : Scan
  | [] => .ok ⟨[], []⟩
  | c :: rest => .ok ((span continuesWord rest).after [c])

/-- A private name. -/
def privateName : Scan
  | hash :: c :: rest =>
    if isIdentifierStart c || !isAscii c then .ok ((span continuesWord rest).after [hash, c])
    else .error ⟨.unexpectedCharacter '#', 1⟩
  | _ => .error ⟨.unexpectedCharacter '#', 1⟩

/-- The end of a numeral after `before`, with the `n` of a big integer if one may stand there. No
character of a word can follow. -/
def numeralEnd (integer : Bool) (before rest : List Char) : Except Refusal (Kind × Lexeme) :=
  let (kind, before, rest) :=
    match integer, rest with
    | true, 'n' :: rest => (Kind.bigInt, before ++ ['n'], rest)
    | _, rest => (Kind.number, before, rest)
  if rest.head?.any continuesWord then .error ⟨.malformedNumber, byteLength before⟩
  else .ok (kind, ⟨before, rest⟩)

/-- The point and the digits after it, if there is a point. -/
def fraction (text : List Char) : Lexeme :=
  match text with
  | '.' :: rest => (span (isDigitOrSeparator 10) rest).after ['.']
  | text => ⟨[], text⟩

/-- The sign of an exponent, if there is one. -/
def exponentSign (text : List Char) : Lexeme :=
  match text with
  | '+' :: rest => ⟨['+'], rest⟩
  | '-' :: rest => ⟨['-'], rest⟩
  | text => ⟨[], text⟩

/-- The exponent part after `before`, if there is one. It needs a digit or a separator. -/
def exponent (before text : List Char) : Except Refusal Lexeme :=
  match text with
  | [] => .ok ⟨before, []⟩
  | c :: rest =>
    if c == 'e' || c == 'E' then
      let sign := exponentSign rest
      let digits := span (isDigitOrSeparator 10) sign.rest
      let before := before ++ c :: sign.text
      if digits.text.isEmpty then .error ⟨.malformedNumber, byteLength before⟩
      else .ok (digits.after before)
    else .ok ⟨before, c :: rest⟩

/-- A decimal numeral. -/
def decimal (text : List Char) : Except Refusal (Kind × Lexeme) := do
  let whole := span (isDigitOrSeparator 10) text
  let fraction := fraction whole.rest
  let read ← exponent (whole.text ++ fraction.text) fraction.rest
  let integer := read.text.length == whole.text.length
  numeralEnd integer read.text read.rest

/-- A numeral with the two characters of a base before its digits. -/
def radix (base : Nat) (text : List Char) : Except Refusal (Kind × Lexeme) :=
  let marks := text.take 2
  let digits := span (isDigitOrSeparator base) (text.drop 2)
  if digits.text.isEmpty then .error ⟨.malformedNumber, byteLength marks⟩
  else numeralEnd true (marks ++ digits.text) digits.rest

/-- The base that the first two characters of a numeral announce. -/
def announcedBase? : List Char → Option Nat
  | '0' :: 'b' :: _ | '0' :: 'B' :: _ => some 2
  | '0' :: 'o' :: _ | '0' :: 'O' :: _ => some 8
  | '0' :: 'x' :: _ | '0' :: 'X' :: _ => some 16
  | _ => none

/-- A numeral of any kind. -/
def numeral (text : List Char) : Except Refusal (Kind × Lexeme) :=
  match announcedBase? text with
  | some base => radix base text
  | none => decimal text

/-! ## Regular expressions, strings and templates -/

/-- The rest of a regular expression before its flags. Inside a class a slash does not end it. -/
def regexBody (inClass : Bool) (offset : Nat) : Scan
  | [] => .error ⟨.unterminatedRegex, 0⟩
  | '\\' :: [] => .error ⟨.unterminatedRegex, 0⟩
  | '\\' :: c :: rest =>
    if isLineTerminator c then .error ⟨.lineTerminatorInRegex, offset + 1⟩
    else (regexBody inClass (offset + 1 + c.utf8Size) rest).map (·.after ['\\', c])
  | c :: rest =>
    if isLineTerminator c then .error ⟨.lineTerminatorInRegex, offset⟩
    else if c == '/' && !inClass then .ok ⟨[c], rest⟩
    else
      let inClass := c == '[' || (inClass && c != ']')
      (regexBody inClass (offset + c.utf8Size) rest).map (·.after [c])

/-- A regular expression with its flags. Only its extent is looked for. -/
def regex : Scan
  | [] => .error ⟨.unterminatedRegex, 0⟩
  | slash :: rest => do
    let body ← regexBody false 1 rest
    return (span isIdentifierPart body.rest).after (slash :: body.text)

/-- The rest of a string literal. A carriage return is refused at the escape or quote before it,
and only where the string goes on to a further escape, line feed or quote: `segment` is that
place, and `refused` says whether a carriage return was passed since. -/
def stringBody (quote : Char) (segment offset : Nat) (refused : Bool) : Scan
  | [] => .error ⟨.unterminatedString, 0⟩
  | '\\' :: rest =>
    if refused then .error ⟨.lineTerminatorInString, segment⟩
    else
      match rest with
      | [] => .error ⟨.unterminatedString, 0⟩
      | '\r' :: '\n' :: rest =>
        (stringBody quote (offset + 3) (offset + 3) false rest).map (·.after ['\\', '\r', '\n'])
      | c :: rest =>
        let offset := offset + 1 + c.utf8Size
        (stringBody quote offset offset false rest).map (·.after ['\\', c])
  | c :: rest =>
    if c == quote then
      if refused then .error ⟨.lineTerminatorInString, segment⟩ else .ok ⟨[c], rest⟩
    else if c == '\n' then
      .error ⟨.lineTerminatorInString, if refused then segment else offset⟩
    else
      let refused := refused || c == '\r'
      (stringBody quote segment (offset + c.utf8Size) refused rest).map (·.after [c])

/-- A string literal. Its escapes are only stepped over. -/
def string : Scan
  | [] => .error ⟨.unterminatedString, 0⟩
  | quote :: rest => (stringBody quote 1 1 false rest).map (·.after [quote])

/-- The characters of a template up to its end, or up to the start of the next substitution. The
flag says whether the template ends. -/
def templateBody : List Char → Except Refusal (Bool × Lexeme)
  | [] => .error ⟨.unterminatedTemplate, 0⟩
  | '\x60' :: rest => .ok (true, ⟨['\x60'], rest⟩)
  | '$' :: '\x7b' :: rest => .ok (false, ⟨['$', '\x7b'], rest⟩)
  | '\\' :: [] => .error ⟨.unterminatedTemplate, 0⟩
  | '\\' :: c :: rest => (templateBody rest).map fun (isLast, l) => (isLast, l.after ['\\', c])
  | c :: rest => (templateBody rest).map fun (isLast, l) => (isLast, l.after [c])

/-! ## One token -/

/-- A word with its kind. The longest word of the table that the text starts with is the whole token
unless more goes on it. -/
def classifiedWord (text : List Char) : Except Refusal (Kind × Lexeme) :=
  let name := (word text).map (Kind.identifier, ·)
  match Word.longest? text with
  | none => name
  | some (spelling, w) =>
    let length := spelling.toList.length
    let rest := text.drop length
    if rest.head?.any continuesWord then name
    else .ok (.word w, ⟨text.take length, rest⟩)

/-- A punctuator. A `?.` before a digit is a question mark and a number. -/
def punctuator (text : List Char) : Except Refusal (Kind × Lexeme) :=
  match Punctuator.longest? text with
  | none => .error ⟨.unexpectedCharacter (text.headD '\x00'), 0⟩
  | some p =>
    let p :=
      match p, text with
      | .questionDot, _ :: _ :: c :: _ => if c.isDigit then .question else p
      | _, _ => p
    .ok (.punctuator p, ⟨text.take p.spelling.length, text.drop p.spelling.length⟩)

/-- The token at the start of a text without trivia, or the end of the input. -/
def token (mode : SlashMode) (text : List Char) : Except Refusal (Kind × Lexeme) :=
  match text with
  | [] => .ok (.endOfInput, ⟨[], []⟩)
  | c :: rest =>
    if !isAscii c || isIdentifierStart c then classifiedWord text
    else if c.isDigit || (c == '.' && rest.head?.any Char.isDigit) then numeral text
    else if c == '\x22' || c == '\x27' then (string text).map (Kind.string, ·)
    else if c == '\x60' then
      match templateBody rest with
      | .ok (isLast, lexeme) => .ok (.template isLast, lexeme.after [c])
      | .error r => .error { r with offset := r.offset + 1 }
    else if c == '#' then (privateName text).map (Kind.privateName, ·)
    else if c == '/' && mode == .regex then (regex text).map (Kind.regex, ·)
    else punctuator text

end Lexer

/-- Reads the token after the space and comments at the cursor. -/
def Cursor.next (mode : SlashMode) (c : Cursor) : Except SyntaxError (Token × Cursor) :=
  match Lexer.triviaAt c.position c.rest with
  | .error r => .error ⟨r.cause, c.position + r.offset⟩
  | .ok trivia =>
    let start := c.position + trivia.offset
    match Lexer.token mode trivia.rest with
    | .error r => .error ⟨r.cause, start + r.offset⟩
    | .ok (kind, lexeme) =>
      let stop := start + byteLength lexeme.text
      .ok (⟨kind, String.ofList lexeme.text, ⟨start, stop⟩, trivia.newline⟩,
        ⟨lexeme.rest, stop⟩)

/-- Reads on in a template, from the end of a substitution. Space belongs to the template. -/
def Cursor.templateTail (c : Cursor) : Except SyntaxError (Token × Cursor) :=
  match Lexer.templateBody c.rest with
  | .error r => .error ⟨r.cause, c.position + r.offset⟩
  | .ok (isLast, lexeme) =>
    let stop := c.position + byteLength lexeme.text
    .ok (⟨.template isLast, String.ofList lexeme.text, ⟨c.position, stop⟩, false⟩,
      ⟨lexeme.rest, stop⟩)

/-- The start of a source. -/
def Cursor.ofSource (source : List Char) : Cursor :=
  ⟨source, 0⟩

end ScriptMin
