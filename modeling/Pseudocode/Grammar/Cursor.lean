import Pseudocode.Source.Diagnostic
import Pseudocode.Token.Basic
/-
# `Grammar.Cursor` — reading a list of tokens

A parser reads tokens from the front of a list and remembers the last one it
took, whose end closes the span of what was just read.  Past the end of the
list it sees the end of input.  It stops at the first token it cannot place,
with a `Refusal` that names the token and the complaint; the wording of every
refusal is in `Refusal.message`.
-/
namespace Pseudocode.Grammar

/-! ## Refusals -/

/-- What should have stood in place of a token. -/
inductive Expectation where
  | token (kind : Kind)
  | statement
  | expression
  | endOfStatement
  | constantArrow
  | loopForm
  | endOfField
  | classMember
  | endOfMember
  | importAlias
deriving Repr, DecidableEq

/-- A kind of token in words. -/
def describeKind : Kind → String
  | .identifier => "a name"
  | .newline => "end of line"
  | k => s!"'{k.name}'"

/-- An expectation in words. -/
def Expectation.text : Expectation → String
  | .token k => s!"expected {describeKind k}"
  | .statement => "expected a statement"
  | .expression => "expected an expression"
  | .endOfStatement => "expected end of line after statement"
  | .constantArrow => "expected '←' after CONSTANT name"
  | .loopForm => "expected '←' or IN after the loop variable"
  | .endOfField => "expected end of line after record field"
  | .classMember => "expected SUBROUTINE or a field in CLASS body"
  | .endOfMember => "expected end of line after class member"
  | .importAlias => "expected a module alias after AS"

/-- What is wrong with a token. -/
inductive Complaint where
  /-- It stands where something else was expected. -/
  | misplaced (expected : Expectation)
  /-- A whole number beyond the range of integers. -/
  | intOutOfRange
  /-- A real beyond the range of reals. -/
  | badReal
  /-- A constant with index steps. -/
  | constantTarget
deriving Repr, DecidableEq

/-- A token that cannot be placed, and why. -/
structure Refusal where
  token : Token
  complaint : Complaint
deriving Repr, DecidableEq

/-- A token in words. -/
def describe (t : Token) : String :=
  match t.kind with
  | .eof => "end of input"
  | .newline => "end of line"
  | .identifier => s!"identifier {Text.escaped t.lexeme}"
  | .string => s!"string {Text.escaped t.lexeme}"
  | _ => s!"'{t.lexeme}'"

/-- The code of a refusal. -/
def Refusal.code (r : Refusal) : String :=
  match r.complaint, r.token.kind with
  | .misplaced _, .invalid => "E2002"
  | .misplaced _, .illegal => "E2003"
  | .misplaced _, _ => "E2001"
  | .intOutOfRange, _ => "E2002"
  | .badReal, _ => "E2002"
  | .constantTarget, _ => "E2001"

/-- The wording of a refusal. -/
def Refusal.message (r : Refusal) : String :=
  match r.complaint, r.token.kind with
  | .misplaced _, .invalid => s!"invalid number literal {Text.escaped r.token.lexeme}"
  | .misplaced _, .illegal => s!"illegal character {Text.escaped r.token.lexeme}"
  | .misplaced e, _ => s!"unexpected {describe r.token}, {e.text}"
  | .intOutOfRange, _ => s!"integer literal {r.token.lexeme} out of range"
  | .badReal, _ => s!"invalid number literal {Text.escaped r.token.lexeme}"
  | .constantTarget, _ => "CONSTANT needs a plain name"

/-- The diagnostic of a refusal.  The line is shown when the source is known. -/
def Refusal.diagnostic (r : Refusal) (source file : String) : Diagnostic :=
  let d := Diagnostic.error r.code r.token.span r.message
  { (if source = "" then d else d.withSource source) with file }

/-! ## Parsers -/

/-- Where a parser stands: the token it took last, and those that follow. -/
structure Cursor where
  last : Option Token
  rest : List Token
deriving Repr, DecidableEq

/-- Why a parser stops: a token it refuses, or the bound on its recursion. -/
inductive Halt where
  | refused (refusal : Refusal)
  | exhausted
deriving Repr, DecidableEq

/-- A parser knows the token that stands for the end of input. -/
abbrev Parser (α : Type) := ReaderT Token (StateT Cursor (Except Halt)) α

/-- The next token. -/
def peek : Parser Token := do
  let c ← get
  match c.rest with
  | t :: _ => return t
  | [] => read

/-- The kind of the next token. -/
def peekKind : Parser Kind := return (← peek).kind

/-- Is the next token of this kind? -/
def next (k : Kind) : Parser Bool := return (← peekKind) == k

/-- Is the next token of one of these kinds? -/
def nextIn (ks : List Kind) : Parser Bool := return ks.contains (← peekKind)

/-- The kind of the token after the next one. -/
def peekSecondKind : Parser Kind := do
  let c ← get
  match c.rest with
  | _ :: t :: _ => return t.kind
  | _ => return (← read).kind

/-- Takes the next token.  The end of the list is never passed. -/
def advance : Parser Token := do
  let c ← get
  match c.rest with
  | t :: rest =>
    set (Cursor.mk (some t) rest)
    return t
  | [] => read

/-- Stops at a token. -/
def refuse {α : Type} (token : Token) (complaint : Complaint) : Parser α :=
  throw (.refused ⟨token, complaint⟩)

/-- Stops at the next token, in whose place something else was expected. -/
def unexpected {α : Type} (e : Expectation) : Parser α := do
  refuse (← peek) (.misplaced e)

/-- Takes a token of the given kind. -/
def expect (k : Kind) : Parser Token := do
  if ← next k then advance else unexpected (.token k)

/-- Takes the terminator of a block, its own or the general `END`. -/
def expectEnd (k : Kind) : Parser Unit := do
  if ← nextIn [k, .kwEnd] then discard advance else unexpected (.token k)

/-- Is this the end of input? -/
def atEnd : Parser Bool := next .eof

/-- Skips line breaks. -/
def skipNewlines : Parser Unit := do
  let c ← get
  let breaks := c.rest.takeWhile (·.kind == .newline)
  set (Cursor.mk (breaks.getLast?.or c.last) (c.rest.dropWhile (·.kind == .newline)))

/-- Skips the `: Type` that may follow a declared name. -/
def skipAnnotation : Parser Unit := do
  if (← next .colon) && (← peekSecondKind) == .identifier then
    discard advance
    discard advance

/-- The end of the token taken last; before the first one, the start of the
next. -/
def lastEnd : Parser Position := do
  match (← get).last with
  | some t => return t.span.stop
  | none => return (← peek).span.start

/-- The span from a place up to the token taken last. -/
def spanFrom (start : Position) : Parser Span := return ⟨start, ← lastEnd⟩

/-- Stops because the bound on recursion is used up. -/
def exhausted {α : Type} : Parser α := throw .exhausted

end Pseudocode.Grammar
