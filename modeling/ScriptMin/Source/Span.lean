import ScriptMin.Source.Character

/-!
# Positions and spans

A position is a byte offset into the UTF-8 text of the source, and a span is a half-open range of
positions. Spans are joined by `Span.cover`; `lineColumn` turns a position into the line and column
that diagnostics show.
-/

namespace ScriptMin.Source

/-- The number of bytes that a text takes in UTF-8. -/
def byteLength : List Char → Nat
  | [] => 0
  | c :: rest => c.utf8Size + byteLength rest

theorem byteLength_append (s t : List Char) :
    byteLength (s ++ t) = byteLength s + byteLength t := by
  induction s with
  | nil => simp [byteLength]
  | cons c rest ih => simp [byteLength, ih, Nat.add_assoc]

/-- A range of byte offsets, from `start` up to but not including `stop`. -/
structure Span where
  start : Nat
  stop : Nat
deriving DecidableEq, Repr, Inhabited

namespace Span

def length (s : Span) : Nat := s.stop - s.start

/-- The least span that covers both. -/
def cover (a b : Span) : Span :=
  ⟨min a.start b.start, max a.stop b.stop⟩

/-- The empty span where `s` starts. -/
def atStart (s : Span) : Span := ⟨s.start, s.start⟩

/-- Drops the characters of `text` that lie before byte `n`. -/
def dropBytes : Nat → List Char → List Char
  | 0, text => text
  | _ + 1, [] => []
  | n + 1, c :: rest => dropBytes (n + 1 - c.utf8Size) rest
termination_by structural _ text => text

/-- Keeps the characters of `text` that lie before byte `n`. -/
def takeBytes : Nat → List Char → List Char
  | 0, _ => []
  | _ + 1, [] => []
  | n + 1, c :: rest => c :: takeBytes (n + 1 - c.utf8Size) rest
termination_by structural _ text => text

/-- The text that a span selects. -/
def slice (source : List Char) (s : Span) : List Char :=
  takeBytes s.length (dropBytes s.start source)

end Span

/-- The lines ended and the bytes read on the current line, after at most `budget` bytes of the
text. A carriage return and the line feed after it end one line together. -/
def lineColumnFrom (line column : Nat) : Nat → List Char → Nat × Nat
  | _, [] => (line, column)
  | budget, '\r' :: '\n' :: rest =>
    if 2 ≤ budget then lineColumnFrom (line + 1) 0 (budget - 2) rest
    else if budget = 1 then (line + 1, 0) else (line, column)
  | budget, c :: rest =>
    if budget < c.utf8Size then (line, column + budget)
    else if isLineTerminator c then lineColumnFrom (line + 1) 0 (budget - c.utf8Size) rest
    else lineColumnFrom line (column + c.utf8Size) (budget - c.utf8Size) rest

/-- The line, counted from 1, and the column in bytes, counted from 0, of a position. A position
past the end is taken as the end. -/
def lineColumn (source : List Char) (position : Nat) : Nat × Nat :=
  lineColumnFrom 1 0 position source

end ScriptMin.Source
