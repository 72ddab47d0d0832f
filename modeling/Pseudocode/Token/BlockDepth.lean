import Pseudocode.Token.Scan
/-
# `Token.BlockDepth` — is an interactive entry complete?

Counts the blocks a text opens and has not closed yet, so that an interactive
session knows when to ask for another line.  `ELSE IF` continues the block of
its `IF`, and `REPEAT` is closed by `UNTIL`.
-/
namespace Pseudocode

/-- Does a token open a block, given the kind of the token before it? -/
def Kind.opensBlock (before k : Kind) : Bool :=
  match k with
  | .kwIf => before != .kwElse
  | .kwSubroutine | .kwWhile | .kwRepeat | .kwFor | .kwRecord | .kwTry | .kwClass => true
  | _ => false

/-- Does a token close a block? -/
def Kind.closesBlock (k : Kind) : Bool := k.isTerminator || k == .kwUntil

/-- What a token adds to the number of open blocks. -/
def Kind.depthChange (before k : Kind) : Int :=
  if before.opensBlock k then 1 else if k.closesBlock then -1 else 0

/-- The sum of the changes along a list of kinds, the first of which stands
after `before`. -/
def depthFrom (before : Kind) : List Kind → Int
  | [] => 0
  | k :: rest => before.depthChange k + depthFrom k rest

/-- The number of blocks of `source` that wait for their terminator.  A text
that does not scan counts as complete, so that its error can be reported. -/
def blockDepth (source : String) : Int :=
  let report := Scan.scan source ""
  match report.failure with
  | some _ => 0
  | none => depthFrom .newline (report.tokens.map (·.kind))

end Pseudocode
