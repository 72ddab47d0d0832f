import Pseudocode.Source.Position
/-
# `Source.Diagnostic` — messages about a program

Every stage reports in the same shape: a stable code, how grave the matter is,
a sentence, and the stretch of source it is about.  A diagnostic is written on
one line (`text`), or with the offending line and a caret under it (`render`).
-/
namespace Pseudocode

/-- How grave a message is. -/
inductive Severity where
  | error
  | warning
  | unknown
deriving Repr, DecidableEq, Inhabited

/-- The word printed for a severity. -/
def Severity.text : Severity → String
  | .error => "error"
  | .warning => "warning"
  | .unknown => "unknown"

/-- A message about a place in a source text. -/
structure Diagnostic where
  /-- Stable identifier of the kind of message. -/
  code : String
  severity : Severity
  message : String
  span : Span
  /-- A suggestion, empty when there is none. -/
  hint : String := ""
  /-- The text of the line concerned, empty when it is not known. -/
  source : String := ""
  /-- The file concerned, empty when it has no name. -/
  file : String := ""
deriving Repr, DecidableEq, Inhabited

namespace Diagnostic

/-- An error message at a span, without file or line text. -/
def error (code : String) (span : Span) (message : String) : Diagnostic :=
  { code, severity := .error, message, span }

/-- A warning at a span, without file or line text. -/
def warning (code : String) (span : Span) (message : String) : Diagnostic :=
  { code, severity := .warning, message, span }

/-- Takes the text of the line concerned from the whole source. -/
def withSource (d : Diagnostic) (source : String) : Diagnostic :=
  { d with source := lineText source d.span.start.line }

/-- The place as printed, after the file name if there is one. -/
def location (d : Diagnostic) : String :=
  if d.file = "" then d.span.start.text else s!"{d.file}:{d.span.start.text}"

/-- The message on one line. -/
def text (d : Diagnostic) : String :=
  let message := s!"[{d.code}] {d.severity.text} at {d.location}: {d.message}"
  if d.hint = "" then message else s!"{message} (hint: {d.hint})"

/-- What stands under a character to the left of the caret: a tab keeps its
width by being repeated, anything else is one blank. -/
def padding (c : Char) : Char := if c = '\t' then '\t' else ' '

/-- The blanks that bring the caret under the given column of a line.  A column
past the end of the line puts the caret right after it. -/
def caretIndent (line : List Char) (column : Int) : List Char :=
  (line.take (column - 1).toNat).map padding

/-- The message, then the line concerned with a caret under its column.
Without the line's text this is `text`. -/
def render (d : Diagnostic) : String :=
  if d.source = "" then d.text
  else
    let indent := String.ofList (caretIndent d.source.toList d.span.start.column)
    s!"{d.text}\n    {d.source}\n    {indent}^"

end Diagnostic

end Pseudocode
