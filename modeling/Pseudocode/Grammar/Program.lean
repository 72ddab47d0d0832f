import Pseudocode.Grammar.Stmt
import Pseudocode.Token.Scan
/-
# `Grammar.Program` — from source text to program

`rules n` are the parsers that may nest `n` deep.  Nesting uses up tokens, so a
depth of a little more than the number of tokens is never reached, and `program`
chooses that.
-/
namespace Pseudocode

namespace Grammar

/-- The parsers for expressions and blocks that nest at most `n` deep. -/
def rules : Nat → Rules
  | 0 => ⟨fun _ => exhausted, fun _ => exhausted⟩
  | n + 1 => ⟨expr (rules n) n, block (rules n) n⟩

/-- A whole program: a block up to the end of input. -/
def wholeProgram (n : Nat) : Parser Block := do
  let body ← (rules n).block []
  if ← atEnd then return body else unexpected .statement

/-- The token that stands for the end of a list of tokens. -/
def endOf (tokens : List Token) : Token :=
  match tokens.getLast? with
  | some t => .endOfInput t.span.stop
  | none => .endOfInput .nowhere

/-- A depth of nesting that no list of tokens reaches. -/
def depthBound (tokens : List Token) : Nat := tokens.length + 4

/-- The program a list of tokens writes, or the first token out of place. -/
def program (tokens : List Token) : Except Refusal Block :=
  match (wholeProgram (depthBound tokens)).run (endOf tokens) |>.run ⟨none, tokens⟩ with
  | .ok (body, _) => .ok body
  | .error (.refused r) => .error r
  | .error .exhausted => .error ⟨endOf tokens, .misplaced .statement⟩

end Grammar

/-- Why a source text is no program. -/
inductive SourceError where
  /-- A string literal is not closed. -/
  | lexical (diagnostic : Diagnostic)
  /-- A token is out of place. -/
  | grammatical (diagnostic : Diagnostic) (token : Token)
deriving Repr, DecidableEq

/-- The message about a source error. -/
def SourceError.diagnostic : SourceError → Diagnostic
  | .lexical d => d
  | .grammatical d _ => d

/-- The program of a list of tokens.  `source` and `file` serve the messages. -/
def parseTokens (tokens : List Token) (source file : String) : Except SourceError Block :=
  match Grammar.program tokens with
  | .ok body => .ok body
  | .error r => .error (.grammatical (r.diagnostic source file) r.token)

/-- The program of a source text. -/
def parse (source file : String) : Except SourceError Block :=
  let report := Scan.scan source file
  match report.failure with
  | some d => .error (.lexical d)
  | none => parseTokens report.tokens source file

end Pseudocode
