import Pseudocode.Source.Position
import Pseudocode.Program.Operator
/-
# `Program.Expr` — expressions

Every node carries the stretch of source it was read from.  Parentheses leave
no node of their own.
-/
namespace Pseudocode

mutual

/-- An expression. -/
inductive Expr where
  /-- A name with the index steps that follow it directly: `x`, `a[0].b`. -/
  | var (span : Span) (name : String) (chain : List Index)
  /-- Index steps after anything else: `f(x).y[0]`. -/
  | item (span : Span) (base : Expr) (chain : List Index)
  | call (span : Span) (callee : Expr) (args : List Expr)
  | binary (span : Span) (op : BinaryOp) (left right : Expr)
  | unary (span : Span) (op : UnaryOp) (operand : Expr)
  | magic (span : Span) (word : Magic) (args : List Expr)
  | int (span : Span) (value : Int)
  | real (span : Span) (value : Float)
  | string (span : Span) (value : String)
  | bool (span : Span) (value : Bool)
  | none (span : Span)
  | array (span : Span) (elements : List Expr)
  | dict (span : Span) (entries : List Entry)

/-- One step of an index chain. -/
inductive Index where
  /-- `[key]` -/
  | subscript (span : Span) (key : Expr)
  /-- `.name` -/
  | property (span : Span) (name : String)

/-- One `key: value` pair of a dictionary literal. -/
inductive Entry where
  | mk (key value : Expr)

end

instance : Inhabited Expr := ⟨.none default⟩

/-- The span of an expression. -/
def Expr.span : Expr → Span
  | .var s _ _ | .item s _ _ | .call s _ _ | .binary s _ _ _ | .unary s _ _
  | .magic s _ _ | .int s _ | .real s _ | .string s _ | .bool s _ | .none s
  | .array s _ | .dict s _ => s

/-- The span of an index step. -/
def Index.span : Index → Span
  | .subscript s _ | .property s _ => s

/-- The key of an entry. -/
def Entry.key : Entry → Expr
  | .mk k _ => k

/-- The value of an entry. -/
def Entry.value : Entry → Expr
  | .mk _ v => v

end Pseudocode
