import ScriptMin.Source.Character
import ScriptMin.Token.Basic

/-!
# Layouts

A layout is a list of the pieces of a text with the places where it may be spread out. `render`
writes one in a style: compact, with nothing between two tokens unless they would run together, or
spacious, with a line for each statement.
-/

namespace ScriptMin

open Source

/-- How a text is spread out. -/
inductive Style where
  | compact
  | spacious
deriving DecidableEq, Repr

namespace Layout

/-- A piece of a layout. -/
inductive Item where
  /-- A text that may have to be kept apart from what is before it. -/
  | token (text : List Char)
  /-- A text that belongs to the token before it. -/
  | glued (text : List Char)
  /-- A regular expression, whose flags could be taken to go on after it. -/
  | regex (text : List Char)
  /-- A semicolon that one style writes and the other does without. -/
  | semicolon (style : Style)
  /-- A blank in the spacious style. -/
  | space
  /-- A new line in the spacious style. -/
  | newline
  | indent
  | dedent
deriving DecidableEq, Repr

end Layout

abbrev Layout := List Layout.Item

namespace Layout

/-! ## Pieces -/

def text (s : String) : Layout := [.token s.toList]

def word (w : Word) : Layout := text w.spelling

def mark (p : Punctuator) : Layout := [.token p.spelling]

/-- A comma between two elements. -/
def comma : Layout := mark .comma ++ [.space]

/-- An operator between two operands, set apart in the spacious style. -/
def operator (spelling : List Char) : Layout := [.space, .token spelling, .space]

def parenthesised (l : Layout) : Layout := mark .openParenthesis ++ l ++ mark .closeParenthesis

def bracketed (l : Layout) : Layout := mark .openBracket ++ l ++ mark .closeBracket

def braced (l : Layout) : Layout := mark .openBrace ++ l ++ mark .closeBrace

def indented (l : Layout) : Layout := [.indent] ++ l ++ [.dedent]

/-- Elements with commas between them. -/
def list (elements : List Layout) : Layout := comma.intercalate elements

/-- A layout that is there under a condition. -/
def when (condition : Bool) (l : Layout) : Layout := if condition then l else []

/-! ## Rendering -/

/-- What has been written, with its last character first. -/
structure Pen where
  written : List Char
  depth : Nat
  afterRegex : Bool

/-- A character that goes on a word before it. -/
def continuesToken (c : Char) : Bool :=
  isIdentifierPart c || c == '\\' || !isAscii c

/-- Two characters that are read as one token, or as the start of a comment, side by side. -/
def joins (last first : Char) : Bool :=
  match last, first with
  | '+', '+' | '-', '-' | '/', '/' | '/', '*' | '<', '!' => true
  | _, _ => false

namespace Pen

def start : Pen := ⟨[], 0, false⟩

/-- Whether a text that starts with `first` has to be kept apart from what was written. A `>` after
`--` would end a comment. -/
def needsBlank (pen : Pen) (first : Char) : Bool :=
  match pen.written with
  | [] => false
  | last :: before =>
    (continuesToken first && (pen.afterRegex || continuesToken last)) || joins last first ||
      (first == '>' && last == '-' && before.head? == some '-')

/-- Writes a text right behind what was written. -/
def glue (pen : Pen) (text : List Char) : Pen :=
  { pen with written := text.reverseAux pen.written, afterRegex := false }

/-- Writes a token, after a blank if it has to be kept apart. -/
def token (pen : Pen) (text : List Char) : Pen :=
  match text with
  | [] => pen.glue []
  | first :: _ =>
    if pen.needsBlank first then { pen with written := ' ' :: pen.written }.glue text
    else pen.glue text

/-- Writes a blank, but not at the start of the text and not after another. -/
def space (pen : Pen) : Pen :=
  match pen.written with
  | [] => pen
  | last :: _ =>
    if last == ' ' || last == '\n' then pen else { pen with written := ' ' :: pen.written }

/-- Starts a new line, but not at the start of the text. -/
def newline (pen : Pen) : Pen :=
  if pen.written.isEmpty then pen
  else { pen with written := List.replicate (4 * pen.depth) ' ' ++ '\n' :: pen.written }

def item (style : Style) (pen : Pen) : Item → Pen
  | .token text => pen.token text
  | .glued text => pen.glue text
  | .regex text => { pen.token text with afterRegex := true }
  | .semicolon s => if s = style then pen.token [';'] else pen
  | .space => if style = .spacious then pen.space else pen
  | .newline => if style = .spacious then pen.newline else pen
  | .indent => { pen with depth := pen.depth + 1 }
  | .dedent => { pen with depth := pen.depth - 1 }

end Pen

/-- The text of a layout in a style. -/
def render (style : Style) (l : Layout) : List Char :=
  (l.foldl (Pen.item style) .start).written.reverse

end Layout

end ScriptMin
