import Pseudocode.Grammar.Cursor
import Pseudocode.Program.Stmt
import Pseudocode.Value.Basic
/-
# `Grammar.Expr` — expressions by binding power

An expression is an operand, extended as long as the operator that follows
binds more tightly than the context requires.  The productions are plain
definitions over `Rules`, the parsers for the two nonterminals that recur;
`Grammar.Program` ties the knot.  The counter each loop takes bounds its rounds
and is never reached: every round takes a token.
-/
namespace Pseudocode.Grammar

/-- The parsers for the nonterminals that occur inside others. -/
structure Rules where
  /-- An expression whose operators all bind more tightly than the number. -/
  expr : Nat → Parser Expr
  /-- Statements up to the end of input, `END` or one of the kinds; with no
  kinds given, up to the end of input only. -/
  block : List Kind → Parser Block

/-! ## Binding powers -/

/-- How tightly a token binds what stands to its left; 0 if it is no operator. -/
def leftPower : Kind → Nat
  | .and | .or => 10
  | .eq | .ne | .lt | .le | .gt | .ge => 20
  | .add | .sub => 30
  | .mul | .div | .intDiv | .mod => 40
  | .pow => 50
  | .leftParen | .leftBracket | .dot => 70
  | _ => 0

/-- How tightly an operator binds what stands to its right.  Powers group to the
right, everything else to the left. -/
def rightPower (op : BinaryOp) : Nat :=
  match op with
  | .pow => leftPower .pow - 1
  | _ => leftPower op.kind

/-- How tightly an operator before an operand binds it. -/
def unaryPower : Nat := 60

/-! ## Literals -/

/-- The greatest integer. -/
def maxInt : Nat := 9223372036854775807

/-- The value of an integer literal, if it is in range.  The scanner gives digits only; a
token that was made elsewhere may have a sign. -/
def intLiteral? (lexeme : String) : Option Int := Value.readInt? lexeme

/-- The value of a real literal, unless it is too great.  The scanner gives digits and a
point only; a token that was made elsewhere may name the infinite. -/
def realLiteral? (lexeme : String) : Option Float :=
  (Real.ofText? lexeme).filter fun x =>
    !x.isInf || Real.namesInfinity (Real.splitSign lexeme.toList).2

/-! ## Index chains and lists -/

/-- Index steps, as many as follow. -/
def chain (r : Rules) : Nat → Parser (List Index)
  | 0 => exhausted
  | n + 1 => do
    let t ← peek
    match t.kind with
    | .dot =>
      discard advance
      let name ← expect .identifier
      let step := Index.property (← spanFrom t.span.start) name.lexeme
      return step :: (← chain r n)
    | .leftBracket =>
      discard advance
      skipNewlines
      let key ← r.expr 0
      skipNewlines
      discard (expect .rightBracket)
      let step := Index.subscript (← spanFrom t.span.start) key
      return step :: (← chain r n)
    | _ => return []

/-- A name with its index steps. -/
def target (r : Rules) (n : Nat) : Parser Target := do
  let name ← expect .identifier
  let steps ← chain r n
  return ⟨← spanFrom name.span.start, name.lexeme, steps⟩

/-- Expressions between commas up to a closing token, which is not taken. -/
def exprList (r : Rules) (closer : Kind) : Nat → Parser (List Expr)
  | 0 => exhausted
  | n + 1 => do
    if ← next closer then return []
    let e ← r.expr 0
    skipNewlines
    if ← next .comma then
      discard advance
      skipNewlines
      return e :: (← exprList r closer n)
    else return [e]

/-- Expressions between brackets of which the opening one was taken. -/
def bracketed (r : Rules) (n : Nat) (closer : Kind) : Parser (List Expr) := do
  skipNewlines
  let es ← exprList r closer n
  discard (expect closer)
  return es

/-- The pairs of a dictionary literal up to the closing brace. -/
def entries (r : Rules) : Nat → Parser (List Entry)
  | 0 => exhausted
  | n + 1 => do
    if ← next .rightBrace then return []
    let k ← r.expr 0
    skipNewlines
    discard (expect .colon)
    skipNewlines
    let v ← r.expr 0
    skipNewlines
    if ← next .comma then
      discard advance
      skipNewlines
      return .mk k v :: (← entries r n)
    else return [.mk k v]

/-! ## Magic words -/

/-- Does a token end the arguments of a magic word before they begin? -/
def endsArguments (k : Kind) : Bool :=
  k.isTerminator ||
    [.eof, .newline, .rightParen, .rightBracket, .rightBrace, .comma, .kwElse, .kwCatch,
     .kwUntil, .kwThen].contains k

/-- The arguments after the first, each behind a comma. -/
def moreArguments (r : Rules) : Nat → Parser (List Expr)
  | 0 => exhausted
  | n + 1 => do
    if ← next .comma then
      discard advance
      let e ← r.expr 0
      return e :: (← moreArguments r n)
    else return []

/-- The arguments of a magic word, without parentheses. -/
def arguments (r : Rules) (n : Nat) : Parser (List Expr) := do
  if endsArguments (← peekKind) then return []
  let e ← r.expr 0
  return e :: (← moreArguments r n)

/-- A magic word with its arguments. -/
def magic (r : Rules) (n : Nat) (word : Magic) : Parser Expr := do
  let t ← advance
  let args ← arguments r n
  return .magic (← spanFrom t.span.start) word args

/-! ## Operands -/

/-- An operator before its operand. -/
def unary (r : Rules) (op : UnaryOp) : Parser Expr := do
  let t ← advance
  let operand ← r.expr unaryPower
  return .unary (← spanFrom t.span.start) op operand

/-- What an expression starts with. -/
def operand (r : Rules) (n : Nat) : Parser Expr := do
  let t ← peek
  match t.kind with
  | .int =>
    discard advance
    match intLiteral? t.lexeme with
    | some v => return .int t.span v
    | none => refuse t .intOutOfRange
  | .real =>
    discard advance
    match realLiteral? t.lexeme with
    | some v => return .real t.span v
    | none => refuse t .badReal
  | .string =>
    discard advance
    return .string t.span t.lexeme
  | .boolean =>
    discard advance
    return .bool t.span (t.lexeme == "True")
  | .none =>
    discard advance
    return .none t.span
  | .identifier =>
    let v ← target r n
    return .var v.span v.name v.chain
  | .leftParen =>
    discard advance
    skipNewlines
    let e ← r.expr 0
    skipNewlines
    discard (expect .rightParen)
    return e
  | .add => unary r .plus
  | .sub => unary r .minus
  | .not => unary r .not
  | .leftBracket =>
    discard advance
    let es ← bracketed r n .rightBracket
    return .array (← spanFrom t.span.start) es
  | .leftBrace =>
    discard advance
    skipNewlines
    let es ← entries r n
    discard (expect .rightBrace)
    return .dict (← spanFrom t.span.start) es
  | .kwOutput => magic r n .output
  | .kwReturn => magic r n .returns
  | .kwContinue => magic r n .continues
  | .kwBreak => magic r n .breaks
  | .kwUserInput => magic r n .userInput
  | _ => unexpected .expression

/-! ## Extending an operand -/

/-- Index steps after an expression.  Steps after steps join one chain. -/
def indexed (left : Expr) (steps : List Index) : Parser Expr := do
  match left with
  | .item s base chain => return .item (← spanFrom s.start) base (chain ++ steps)
  | _ => return .item (← spanFrom left.span.start) left steps

/-- What an operator or bracket after `left` makes of it. -/
def extension (r : Rules) (n : Nat) (left : Expr) : Parser Expr := do
  let k ← peekKind
  match k with
  | .leftParen =>
    discard advance
    let args ← bracketed r n .rightParen
    return .call (← spanFrom left.span.start) left args
  | .leftBracket | .dot => indexed left (← chain r n)
  | _ =>
    match BinaryOp.ofKind? k with
    | some op =>
      discard advance
      skipNewlines
      let right ← r.expr (rightPower op)
      return .binary (← spanFrom left.span.start) op left right
    | none => return left

/-- Extends `left` while what follows binds more tightly than `least`. -/
def extend (r : Rules) (least : Nat) : Nat → Expr → Parser Expr
  | 0, _ => exhausted
  | n + 1, left => do
    if leftPower (← peekKind) ≤ least then return left
    extend r least n (← extension r n left)

/-- An expression whose operators all bind more tightly than `least`. -/
def expr (r : Rules) (n least : Nat) : Parser Expr := do
  let left ← operand r n
  extend r least n left

end Pseudocode.Grammar
