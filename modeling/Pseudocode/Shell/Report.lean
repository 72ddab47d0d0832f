import Pseudocode.Datum.Json
import Pseudocode.Grammar.Program
import Pseudocode.Program.Outline
import Pseudocode.Run.Trouble
/-
# `Shell.Report` — what the commands print

Tokens as lines or as JSON, program trees as JSON, and errors with the line they
are about.
-/
namespace Pseudocode.Shell

/-- A text filled up with blanks on the right. -/
def padded (width : Nat) (s : String) : String :=
  s ++ String.ofList (List.replicate (width - s.length) ' ')

/-- A token as a line. -/
def tokenLine (t : Token) : String :=
  let lexeme := if t.kind = .newline then "\\n" else t.lexeme
  let place := t.span.start
  s!"{padded 12 t.kind.name} {padded 20 lexeme} {place.text}\n"

/-- A token as plain data. -/
def tokenDatum (t : Token) : Datum :=
  .object [("kind", .text t.kind.name), ("lexeme", .text t.lexeme),
    ("line", .int t.span.start.line), ("column", .int t.span.start.column),
    ("offset", .int t.span.start.offset)]

/-- A diagnostic as plain data, in ascending order of the names; hint and file
only if there are any. -/
def diagnosticDatum (d : Diagnostic) : Datum :=
  let place := d.span.start
  let optional (key value : String) : List (String × Datum) :=
    if value = "" then [] else [(key, .text value)]
  .object (([("code", .text d.code), ("column", .int place.column)] : List (String × Datum))
    ++ optional "file" d.file ++ optional "hint" d.hint
    ++ ([("line", .int place.line), ("message", .text d.message), ("offset", .int place.offset),
        ("severity", .text d.severity.text)] : List (String × Datum)))

/-- Tokens and diagnostics as plain data. -/
def tokensDatum (tokens : List Token) (diagnostics : List Diagnostic) : Datum :=
  .object [("diagnostics", .list (diagnostics.map diagnosticDatum)),
    ("tokens", .list (tokens.map tokenDatum))]

/-- A program tree, or what is wrong with its text, as plain data. -/
def parseDatum : Except SourceError Block → Datum
  | .ok b => .object [("ast", b.outline.sorted), ("diagnostics", .list [])]
  | .error e => .object [("diagnostics", .list [diagnosticDatum e.diagnostic])]

/-- The text of diagnostics. -/
def diagnosticsText (ds : List Diagnostic) : String :=
  String.join (ds.map fun d => d.render ++ "\n")

/-- The text of a fault.  A failed import is followed by what went wrong in the
module. -/
def faultText : Fault → String
  | .source e => e.diagnostic.render ++ "\n"
  | .runtime d cause =>
    d.render ++ "\n" ++
      match cause with
      | some c => if d.code = Code.importFailed.text then "caused by:\n" ++ faultText c else ""
      | none => ""
  | .moduleNotFound d _ _ => d.render ++ "\n"
  | f => s!"error: {f.text}\n"

end Pseudocode.Shell
