import Pseudocode.Token.Kind
/-
# `Program.Operator` — operators and magic words of the tree

The tree names its operators by types of their own, so that a tree with a
comma for an operator cannot be built.  `kind` leads back to the token.
-/
namespace Pseudocode

/-- The operators between two operands. -/
inductive BinaryOp where
  | add | sub | mul | div | intDiv | mod | pow
  | eq | ne | lt | le | gt | ge
  | and | or
deriving Repr, DecidableEq, Inhabited

/-- The operators before an operand. -/
inductive UnaryOp where
  | plus | minus | not
deriving Repr, DecidableEq, Inhabited

/-- The words that take their arguments without parentheses. -/
inductive Magic where
  | output | returns | continues | breaks | userInput
deriving Repr, DecidableEq, Inhabited

namespace BinaryOp

/-- The token that writes the operator. -/
def kind : BinaryOp → Kind
  | add => .add
  | sub => .sub
  | mul => .mul
  | div => .div
  | intDiv => .intDiv
  | mod => .mod
  | pow => .pow
  | eq => .eq
  | ne => .ne
  | lt => .lt
  | le => .le
  | gt => .gt
  | ge => .ge
  | and => .and
  | or => .or

/-- The operator a token writes between two operands. -/
def ofKind? : Kind → Option BinaryOp
  | .add => some add
  | .sub => some sub
  | .mul => some mul
  | .div => some div
  | .intDiv => some intDiv
  | .mod => some mod
  | .pow => some pow
  | .eq => some eq
  | .ne => some ne
  | .lt => some lt
  | .le => some le
  | .gt => some gt
  | .ge => some ge
  | .and => some and
  | .or => some or
  | _ => none

theorem ofKind?_kind (op : BinaryOp) : ofKind? op.kind = some op := by cases op <;> rfl

/-- The operator as messages show it. -/
def symbol : BinaryOp → String
  | add => "+"
  | sub => "-"
  | mul => "*"
  | div => "/"
  | intDiv => "DIV"
  | mod => "MOD"
  | pow => "**"
  | eq => "="
  | ne => "!="
  | lt => "<"
  | le => "<="
  | gt => ">"
  | ge => ">="
  | and => "AND"
  | or => "OR"

end BinaryOp

namespace UnaryOp

/-- The token that writes the operator. -/
def kind : UnaryOp → Kind
  | plus => .add
  | minus => .sub
  | not => .not

/-- The operator as messages show it. -/
def symbol : UnaryOp → String
  | plus => "+"
  | minus => "-"
  | not => "NOT"

end UnaryOp

namespace Magic

/-- The token of the word. -/
def kind : Magic → Kind
  | output => .kwOutput
  | returns => .kwReturn
  | continues => .kwContinue
  | breaks => .kwBreak
  | userInput => .kwUserInput

end Magic

end Pseudocode
