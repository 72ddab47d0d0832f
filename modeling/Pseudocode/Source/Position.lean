/-
# `Source.Position` — places in a program text

A place is counted three ways at once: bytes from the start of the text, lines
from 1, and characters within the line from 1.  The single step is
`Position.next`, which moves over one character; everything the scanner reports
is a fold of that step, so the three counts can never drift apart.  The counts
are integers because a message may also be given a place that is in no text.
-/
namespace Pseudocode

/-- A place in a source text. -/
structure Position where
  /-- Bytes before the place, in UTF-8. -/
  offset : Int
  /-- The line, from 1. -/
  line : Int
  /-- The character within the line, from 1. -/
  column : Int
deriving Repr, DecidableEq, Inhabited

namespace Position

/-- The place before the first character of a text. -/
def start : Position := ⟨0, 1, 1⟩

/-- No place at all: what a message carries before it is located. -/
def nowhere : Position := ⟨0, 0, 0⟩

/-- The place after reading `c` at `p`. -/
def next (p : Position) (c : Char) : Position :=
  if c = '\n' then ⟨p.offset + c.utf8Size, p.line + 1, 1⟩
  else ⟨p.offset + c.utf8Size, p.line, p.column + 1⟩

/-- The place after reading all of `cs` at `p`. -/
def past (p : Position) (cs : List Char) : Position := cs.foldl next p

/-- Written as `line:column`. -/
def text (p : Position) : String := s!"{p.line}:{p.column}"

@[simp] theorem past_nil (p : Position) : p.past [] = p := rfl

@[simp] theorem past_cons (p : Position) (c : Char) (cs : List Char) :
    p.past (c :: cs) = (p.next c).past cs := rfl

theorem past_append (p : Position) (cs ds : List Char) :
    p.past (cs ++ ds) = (p.past cs).past ds := List.foldl_append

end Position

/-- A stretch of source text, from `start` up to but not including `stop`. -/
structure Span where
  start : Position
  stop : Position
deriving Repr, DecidableEq, Inhabited

namespace Span

/-- The span of a message that has no place yet. -/
def nowhere : Span := ⟨.nowhere, .nowhere⟩

/-- Written as the two places with two dots between them. -/
def text (s : Span) : String := s!"{s.start.text}..{s.stop.text}"

/-- The number of bytes covered. -/
def byteLength (s : Span) : Int := s.stop.offset - s.start.offset

/-- Lines count from 1, so line 0 marks a span that names no place. -/
def isNowhere (s : Span) : Bool := s.start.line == 0

end Span

/-! ## Lines of a text -/

/-- Cuts a text at its newlines.  There is always at least one line. -/
def splitLines : List Char → List (List Char)
  | [] => [[]]
  | c :: rest =>
    if c = '\n' then [] :: splitLines rest
    else
      match splitLines rest with
      | [] => [[c]]
      | line :: more => (c :: line) :: more

/-- Drops one carriage return at the end of a line. -/
def dropReturn (line : List Char) : List Char :=
  if line.getLast? = some '\r' then line.dropLast else line

/-- The text of a line, counted from 1, without its line ending.  A line that
does not exist has the empty text. -/
def lineText (source : String) (line : Int) : String :=
  if line < 1 then ""
  else String.ofList (dropReturn ((splitLines source.toList)[(line - 1).toNat]?.getD []))

end Pseudocode
