import Pseudocode.Source.Position
import Pseudocode.Token.Kind
import Pseudocode.Text.Escaped
/-
# `Token.Basic` — tokens

A token is a kind, the text it stands for and where it was read.  For a string
literal the text is its value, without quotes and with escapes resolved.
-/
namespace Pseudocode

/-- A lexical token. -/
structure Token where
  kind : Kind
  lexeme : String
  span : Span
deriving Repr, DecidableEq, Inhabited

namespace Token

/-- Kind, quoted text and place. -/
def text (t : Token) : String :=
  s!"{t.kind.name} {Text.escaped t.lexeme} {t.span.start.text}"

/-- The token that stands for the end of input at a place. -/
def endOfInput (p : Position) : Token := ⟨.eof, "", ⟨p, p⟩⟩

end Token

end Pseudocode
