import Pseudocode.Program.Expr
/-
# `Program.Stmt` — statements, blocks and definitions

A program is a block.  An `IF` with its `ELSE IF`s is a chain of branches that
share one terminator, so a branch is a type of its own.
-/
namespace Pseudocode

/-- What an assignment writes to: a name, and the index steps after it. -/
structure Target where
  span : Span
  name : String
  chain : List Index
deriving Inhabited

/-- `target ← value`, possibly declaring a constant. -/
structure Assignment where
  span : Span
  target : Target
  value : Expr
  constant : Bool
deriving Inhabited

/-- A declared parameter. -/
structure Param where
  span : Span
  name : String
deriving Repr, DecidableEq, Inhabited

mutual

/-- A statement. -/
inductive Stmt where
  | expr (value : Expr)
  | assign (assignment : Assignment)
  | subroutine (definition : Routine)
  | branch (choice : Branch)
  | whileLoop (span : Span) (condition : Expr) (body : Block)
  | repeatLoop (span : Span) (body : Block) (condition : Expr)
  /-- `FOR counter ← first TO last STEP step`; without a step it is 1. -/
  | forRange (span : Span) (counter : String) (first last : Expr) (step : Option Expr)
      (body : Block)
  | forEach (span : Span) (counter : String) (iterable : Expr) (body : Block)
  | record (span : Span) (name : String) (fields : List String)
  | classDef (span : Span) (name : String) (statics : List Assignment)
      (methods : List Routine)
  | attempt (span : Span) (body rescue : Block)
  /-- `IMPORT location AS alias`; the alias is empty when it is left out. -/
  | load (span : Span) (location : Expr) (nickname : String)

/-- Statements in order. -/
inductive Block where
  | mk (span : Span) (body : List Stmt)

/-- `IF condition THEN consequence`, and what is done otherwise. -/
inductive Branch where
  | mk (span : Span) (condition : Expr) (consequence : Block) (alternative : Otherwise)

/-- What follows the consequence of a branch. -/
inductive Otherwise where
  | absent
  | elseIf (next : Branch)
  | elseBlock (body : Block)

/-- A subroutine definition. -/
inductive Routine where
  | mk (span : Span) (name : String) (params : List Param) (body : Block)

end

namespace Block

/-- The span of a block. -/
def span : Block → Span
  | mk s _ => s

/-- The statements of a block. -/
def body : Block → List Stmt
  | mk _ b => b

instance : Inhabited Block := ⟨mk default []⟩

end Block

namespace Routine

/-- The span of a definition. -/
def span : Routine → Span
  | .mk s _ _ _ => s

/-- The defined name. -/
def name : Routine → String
  | mk _ n _ _ => n

/-- The declared parameters. -/
def params : Routine → List Param
  | mk _ _ ps _ => ps

/-- The body that a call runs. -/
def body : Routine → Block
  | mk _ _ _ b => b

end Routine

/-- The span of a branch. -/
def Branch.span : Branch → Span
  | .mk s _ _ _ => s

/-- The span of a statement. -/
def Stmt.span : Stmt → Span
  | .expr e => e.span
  | .assign a => a.span
  | .subroutine d => d.span
  | .branch b => b.span
  | .whileLoop s _ _ | .repeatLoop s _ _ | .forRange s _ _ _ _ _ | .forEach s _ _ _
  | .record s _ _ | .classDef s _ _ _ | .attempt s _ _ | .load s _ _ => s

end Pseudocode
