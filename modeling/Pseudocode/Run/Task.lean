import Pseudocode.Run.Eval
/-
# `Run.Task` — the tasks that execution is divided into

Execution is recursive in five places: expressions and blocks nest, calls run
blocks, and the display of a value may call methods.  Each of these is a `Task`.
The rules of execution are plain definitions that hand their sub-tasks to a
`Recursor`; `Run.Machine` ties the knot.
-/
namespace Pseudocode

/-- A task, indexed by the type of its result. -/
inductive Task : Type → Type where
  /-- Evaluate an expression. -/
  | expr (e : Expr) : Task Value
  /-- Execute a block in the current scope. -/
  | block (b : Block) : Task Flow
  /-- Call a value at a span. -/
  | call (callee : Value) (args : List Value) (span : Span) : Task Value
  /-- The display form of a value. -/
  | str (v : Value) : Task String
  /-- The representation of a value. -/
  | repr (v : Value) : Task String

/-- Carries out tasks. -/
abbrev Recursor := (α : Type) → Task α → Eval α

namespace Recursor

variable (r : Recursor)

/-- Evaluates an expression. -/
def expr (e : Expr) : Eval Value := r Value (.expr e)

/-- Evaluates expressions in order. -/
def exprs (es : List Expr) : Eval (List Value) := es.mapM r.expr

/-- Executes a block. -/
def block (b : Block) : Eval Flow := r Flow (.block b)

/-- Calls a value. -/
def call (callee : Value) (args : List Value) (span : Span) : Eval Value :=
  r Value (.call callee args span)

/-- The display form of a value. -/
def str (v : Value) : Eval String := r String (.str v)

/-- The representation of a value. -/
def repr (v : Value) : Eval String := r String (.repr v)

end Recursor

end Pseudocode
