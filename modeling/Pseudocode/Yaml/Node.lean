/-
# `Yaml.Node` — documents, and texts that are none

A document is a scalar, a list or a mapping of nodes, or a reference to a node
before it.  Every node knows its line, counted from one.

A text is refused either while it is cut into tokens or while the tokens are put
together.  The message names a line when it is not the first: that of the
construct at hand if that one counts, otherwise that of the place reached.
-/
namespace Pseudocode.Yaml

/-! ## Documents -/

/-- How a scalar was written. -/
inductive Style where
  | plain
  | quoted
deriving Repr, DecidableEq

/-- A node of a document. -/
inductive Node where
  /-- A scalar; its tag is empty unless it was given one. -/
  | scalar (line : Nat) (style : Style) (tag text : String)
  | list (line : Nat) (items : List Node)
  | map (line : Nat) (entries : List (Node × Node))
  /-- Another name for a node. -/
  | same (line : Nat) (name : String) (node : Node)

namespace Node

/-- A scalar that is not there. -/
def absent (line : Nat) : Node := .scalar line .plain "" ""

instance : Inhabited Node := ⟨absent 0⟩

/-- The line a node starts on. -/
def line : Node → Nat
  | scalar n _ _ _ | list n _ | map n _ | same n _ _ => n

/-- The text of a scalar, the name of a reference; the others have none. -/
def text : Node → String
  | scalar _ _ _ s => s
  | same _ name _ => name
  | _ => ""

/-- The node that is meant, behind all references. -/
def meant : Node → Node
  | same _ _ n => n.meant
  | n => n

/-- Are two nodes of one kind and of one text? -/
def sameKey : Node → Node → Bool
  | scalar _ _ _ s, scalar _ _ _ t => s = t
  | list _ _, list _ _ => true
  | map _ _, map _ _ => true
  | same _ s _, same _ t _ => s = t
  | _, _ => false

/-- Does a mapping take over the entries of another one under this key? -/
def isMerge : Node → Bool
  | scalar _ .plain "" "<<" => true
  | _ => false

end Node

/-! ## Refusals -/

/-- Why a text is refused. -/
inductive Problem where
  | controlCharacter
  | noToken
  | noColon
  | itemNotAllowed
  | keyNotAllowed
  | valueNotAllowed
  | tooDeep
  | unknownDirective
  | badDirective
  | badVersion
  | badName
  | badTagEnd
  | documentMark
  | endOfText
  | unknownEscape
  | badHex
  | badCode
  | tabIndent
  | tabInBlock
  | zeroIndent
  | blockHeader
  | noDocumentStart
  | noContent
  | noItem
  | noKey
  | noListSign
  | noMapSign
  | unknownAnchor (name : String)
  | selfReference (name : String)
  | wrongTag (found text wanted : String)
  | badMerge
deriving Repr, DecidableEq

/-- The words for a problem. -/
def Problem.message : Problem → String
  | controlCharacter => "control characters are not allowed"
  | noToken => "found character that cannot start any token"
  | noColon => "could not find expected ':'"
  | itemNotAllowed => "block sequence entries are not allowed in this context"
  | keyNotAllowed => "mapping keys are not allowed in this context"
  | valueNotAllowed => "mapping values are not allowed in this context"
  | tooDeep => "exceeded max depth of 10000"
  | unknownDirective => "found unknown directive name"
  | badDirective => "did not find expected comment or line break"
  | badVersion => "found incompatible YAML document"
  | badName => "did not find expected alphabetic or numeric character"
  | badTagEnd => "did not find expected whitespace or line break"
  | documentMark => "found unexpected document indicator"
  | endOfText => "found unexpected end of stream"
  | unknownEscape => "found unknown escape character"
  | badHex => "did not find expected hexdecimal number"
  | badCode => "found invalid Unicode character escape code"
  | tabIndent => "found a tab character that violates indentation"
  | tabInBlock => "found a tab character where an indentation space is expected"
  | zeroIndent => "found an indentation indicator equal to 0"
  | blockHeader => "did not find expected comment or line break"
  | noDocumentStart => "did not find expected <document start>"
  | noContent => "did not find expected node content"
  | noItem => "did not find expected '-' indicator"
  | noKey => "did not find expected key"
  | noListSign => "did not find expected ',' or ']'"
  | noMapSign => "did not find expected ',' or '\x7d'"
  | unknownAnchor name => s!"unknown anchor '{name}' referenced"
  | selfReference name => s!"anchor '{name}' value contains itself"
  | wrongTag found text wanted =>
    "cannot decode " ++ found ++ " \x60" ++ text ++ "\x60 as a " ++ wanted
  | badMerge => "map merge requires map or sequence of maps as the value"

/-- A problem and the line it is reported for, zero if none is. -/
structure Fault where
  line : Nat
  problem : Problem
deriving Repr, DecidableEq

namespace Fault

/-- A problem that no line is reported for. -/
def nowhere (p : Problem) : Fault := ⟨0, p⟩

/-- A problem of the characters, in a construct that starts on the line `context`
and at the line `here`, both counted from zero. -/
def inText (context here : Nat) (p : Problem) : Fault :=
  ⟨if context != 0 then context + 1 else if here != 0 then here + 1 else 0, p⟩

/-- A problem of the tokens, in a construct that starts on the line `context` and
at a token on the line `here`, both counted from zero.  The line is reported as
it is counted. -/
def inTokens (context here : Nat) (p : Problem) : Fault :=
  ⟨if context != 0 then context else here, p⟩

/-- The message about a fault. -/
def message (f : Fault) : String :=
  let place := if f.line = 0 then "" else s!"line {f.line}: "
  s!"yaml: {place}{f.problem.message}"

end Fault

end Pseudocode.Yaml
