import ScriptMin.Token.Lexer
import ScriptMin.Tree.Node

/-!
# Reading tokens

A `Reader` is a cursor with at most one token read ahead of it. The token is kept with the slash
mode it was read in and is used again only in that mode, so it saves work and changes no answer.
`Parse` is the type of everything that reads: it fails with a syntax error, or because a bound on
the work was too low, which the bound given to a program never is.
-/

namespace ScriptMin.Grammar

open Source

/-- A token read ahead, and the cursor after it. -/
structure Lookahead where
  token : Token
  mode : SlashMode
  after : Cursor
deriving DecidableEq, Repr

/-- A place between two tokens. -/
structure Reader where
  cursor : Cursor
  ahead : Option Lookahead
deriving DecidableEq, Repr

/-- The start of a source. -/
def Reader.ofSource (source : List Char) : Reader :=
  ⟨.ofSource source, none⟩

/-- Why reading ended without a value. -/
inductive Failure where
  | refused (error : SyntaxError)
  /-- The bound on the work was too low. -/
  | exhausted
deriving DecidableEq, Repr

abbrev Parse := StateT Reader (Except Failure)

namespace Parse

variable {α σ : Type}

def refuse (error : SyntaxError) : Parse α := throw (.refused error)

def exhausted : Parse α := throw .exhausted

/-- Refuses a token where it stands. -/
def unexpected (t : Token) : Parse α := refuse t.unexpected

/-- Goes on with the outcome of a check. -/
def check : Except SyntaxError α → Parse α
  | .ok value => pure value
  | .error error => refuse error

/-- Goes on with a value that a literal may not have. -/
def require (cause : Cause) (t : Token) : Option α → Parse α
  | some value => pure value
  | none => refuse (t.error cause)

/-- Reads a token from the cursor. -/
def lex (mode : SlashMode) : Parse (Token × Cursor) := do
  check ((← get).cursor.next mode)

/-- The next token. It is consumed if `takes` says so and kept as the token ahead otherwise. -/
def forward (mode : SlashMode) (takes : Token → Bool) : Parse Token := do
  let reader ← get
  let (t, after) ←
    match reader.ahead with
    | some ahead => if ahead.mode = mode then pure (ahead.token, ahead.after) else lex mode
    | none => lex mode
  set (if takes t then (⟨after, none⟩ : Reader) else ⟨reader.cursor, some ⟨t, mode, after⟩⟩)
  return t

/-- Consumes the next token. -/
def nextIn (mode : SlashMode) : Parse Token := forward mode fun _ => true

/-- Consumes the next token where a slash divides. -/
def next : Parse Token := nextIn .division

/-- The next token, which is not consumed. -/
def peekIn (mode : SlashMode) : Parse Token := forward mode fun _ => false

def peek : Parse Token := peekIn .division

/-- Consumes the token ahead, if there is one. -/
def skip : Parse Unit :=
  modify fun reader =>
    match reader.ahead with
    | some ahead => ⟨ahead.after, none⟩
    | none => reader

/-- The place before the next token, to come back to. -/
def mark : Parse Cursor := return (← get).cursor

/-- Goes back to a place. -/
def rewind (place : Cursor) : Parse Unit := set (⟨place, none⟩ : Reader)

/-- The token after the next one. -/
def peekSecond : Parse Token := do
  let place ← mark
  let _ ← next
  let t ← peek
  rewind place
  return t

/-- Consumes the next token if its kind is in a class, and gives it then. -/
def takeIf (accepts : Kind → Bool) : Parse (Option Token) := do
  let t ← forward .division fun t => accepts t.kind
  return if accepts t.kind then some t else none

/-- Consumes the next token if it is of this kind, and says whether it did. -/
def took (kind : Kind) : Parse Bool :=
  return (← takeIf (· == kind)).isSome

/-- Consumes the next token, which has to be of a class. -/
def expectIn (accepts : Kind → Bool) : Parse Token := do
  let t ← next
  if accepts t.kind then return t else unexpected t

/-- Consumes the next token, which has to be of this kind. -/
def expect (kind : Kind) : Parse Token := expectIn (· == kind)

def expectPunctuator (p : Punctuator) : Parse Token := expect (.punctuator p)

def expectWord (w : Word) : Parse Token := expect (.word w)

def tookPunctuator (p : Punctuator) : Parse Bool := took (.punctuator p)

def tookWord (w : Word) : Parse Bool := took (.word w)

/-- Whether the next token is this punctuator. -/
def atPunctuator (p : Punctuator) : Parse Bool :=
  return (← peek).kind == .punctuator p

/-- Reads on in a template after a substitution, whose closing brace was the last token. -/
def templateTail : Parse Token := do
  let (t, after) ← check (← get).cursor.templateTail
  set (⟨after, none⟩ : Reader)
  return t

/-- The span from a place up to the end of the last token consumed. -/
def spanFrom (place : Cursor) : Parse Span :=
  return ⟨place.position, (← get).cursor.position⟩

/-- Ends a statement: by a semicolon, or before a closing brace, the end of the input or a new
line. -/
def endStatement : Parse Unit := do
  let t ← peek
  match t.kind with
  | .punctuator .semicolon => skip
  | .punctuator .closeBrace | .endOfInput => return
  | _ => if t.afterNewline then return else unexpected t

/-- What a round of a repetition comes to. -/
inductive Round (σ ρ : Type) where
  | again (state : σ)
  | done (result : ρ)

/-- Repeats a round for as long as it asks for it, at most `bound` times. -/
def iterate {ρ : Type} (round : σ → Parse (Round σ ρ)) : Nat → σ → Parse ρ
  | 0, _ => exhausted
  | bound + 1, state => do
    match ← round state with
    | .again state => iterate round bound state
    | .done result => return result

/-- Collects what each round reads, until one reads nothing. -/
def collect (bound : Nat) (round : Parse (Option α)) : Parse (List α) := do
  let reversed ← iterate
    (fun (read : List α) => do
      match ← round with
      | some value => return Round.again (value :: read)
      | none => return .done read)
    bound []
  return reversed.reverse

/-- Tries to read, and goes back to the start if that is refused. An error that `keeps` names is
not undone. -/
def attempt (keeps : Cause → Bool) (read : Parse α) : Parse (Option α) := fun reader =>
  match read reader with
  | .ok (value, reader) => .ok (some value, reader)
  | .error (.refused error) =>
    if keeps error.cause then .error (.refused error) else .ok (none, ⟨reader.cursor, none⟩)
  | .error .exhausted => .error .exhausted

end Parse

end ScriptMin.Grammar
