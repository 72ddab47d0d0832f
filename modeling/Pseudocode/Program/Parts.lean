import Pseudocode.Program.Outline
/-
# `Program.Parts` — a program tree by its parts

Unlike in the outline, a node does not tell its kind, and all its parts show
whether they are there or not.  A part that is missing is null, and so is a list
without elements.
-/
namespace Pseudocode

/-- A list, or null if it has no elements. -/
def Datum.listOrNull (items : List Datum) : Datum :=
  if items.isEmpty then .null else .list items

/-- A node: its span and its parts. -/
def bare (span : Span) (parts : List (String × Datum)) : Datum :=
  .object (("Span", span.outline) :: parts)

mutual

/-- The parts of an expression. -/
def Expr.parts : Expr → Datum
  | .var s name chain => bare s [("Name", .text name), ("Chain", .listOrNull (chainParts chain))]
  | .item s base chain =>
    bare s [("Base", base.parts), ("Chain", .listOrNull (chainParts chain))]
  | .call s callee args =>
    bare s [("Callee", callee.parts), ("Args", .listOrNull (exprsParts args))]
  | .binary s op left right =>
    bare s [("Op", .text op.kind.name), ("Left", left.parts), ("Right", right.parts)]
  | .unary s op operand => bare s [("Op", .text op.kind.name), ("Operand", operand.parts)]
  | .magic s word args =>
    bare s [("Kind", .text word.kind.name), ("Args", .listOrNull (exprsParts args))]
  | .int s value => bare s [("Value", .int value)]
  | .real s value => bare s [("Value", .real value)]
  | .string s value => bare s [("Value", .text value)]
  | .bool s value => bare s [("Value", .bool value)]
  | .none s => bare s []
  | .array s elements => bare s [("Elements", .listOrNull (exprsParts elements))]
  | .dict s entries => bare s [("Entries", .listOrNull (entriesParts entries))]

/-- Expressions in order. -/
def exprsParts : List Expr → List Datum
  | [] => []
  | e :: rest => e.parts :: exprsParts rest

/-- Index steps in order. -/
def chainParts : List Index → List Datum
  | [] => []
  | i :: rest => i.parts :: chainParts rest

/-- The parts of an index step. -/
def Index.parts : Index → Datum
  | .subscript s key => bare s [("Expr", key.parts)]
  | .property s name => bare s [("Name", .text name)]

/-- Dictionary entries in order. -/
def entriesParts : List Entry → List Datum
  | [] => []
  | .mk k v :: rest => .object [("Key", k.parts), ("Value", v.parts)] :: entriesParts rest

end

/-- The parts of an expression that may be missing. -/
def optionalParts : Option Expr → Datum
  | some e => e.parts
  | none => .null

/-- The parts of a target. -/
def Target.parts (t : Target) : Datum :=
  bare t.span [("Name", .text t.name), ("Chain", .listOrNull (chainParts t.chain))]

/-- The parts of an assignment. -/
def Assignment.parts (a : Assignment) : Datum :=
  bare a.span
    [("Target", a.target.parts), ("Value", a.value.parts), ("Constant", .bool a.constant)]

/-- The parts of a parameter. -/
def Param.parts (p : Param) : Datum := bare p.span [("Name", .text p.name)]

mutual

/-- The parts of a statement. -/
def Stmt.parts : Stmt → Datum
  | .expr e => e.parts
  | .assign a => a.parts
  | .subroutine d => d.parts
  | .branch b => b.parts
  | .whileLoop s condition body =>
    bare s [("Condition", condition.parts), ("Body", body.parts)]
  | .repeatLoop s body condition =>
    bare s [("Condition", condition.parts), ("Body", body.parts)]
  | .forRange s name first last step body =>
    bare s
      [("Variable", .text name), ("Start", first.parts), ("End", last.parts),
       ("Step", optionalParts step), ("Iterable", .null), ("Body", body.parts)]
  | .forEach s name iterable body =>
    bare s
      [("Variable", .text name), ("Start", .null), ("End", .null), ("Step", .null),
       ("Iterable", iterable.parts), ("Body", body.parts)]
  | .record s name fields =>
    bare s [("Name", .text name), ("Fields", .listOrNull (fields.map .text))]
  | .classDef s name statics methods =>
    bare s
      [("Name", .text name), ("Statics", .listOrNull (statics.map Assignment.parts)),
       ("Methods", .listOrNull (routinesParts methods))]
  | .attempt s body rescue => bare s [("Body", body.parts), ("Catch", rescue.parts)]
  | .load s location nickname =>
    bare s [("Location", location.parts), ("Alias", .text nickname)]

/-- The parts of a block. -/
def Block.parts : Block → Datum
  | .mk s body => bare s [("Body", .listOrNull (stmtsParts body))]

/-- Statements in order. -/
def stmtsParts : List Stmt → List Datum
  | [] => []
  | s :: rest => s.parts :: stmtsParts rest

/-- The parts of a branch. -/
def Branch.parts : Branch → Datum
  | .mk s condition consequence alternative =>
    bare s
      [("Condition", condition.parts), ("Consequence", consequence.parts),
       ("Else", alternative.parts)]

/-- The parts of what is done otherwise. -/
def Otherwise.parts : Otherwise → Datum
  | .absent => .null
  | .elseIf next => next.parts
  | .elseBlock body => body.parts

/-- The parts of a subroutine definition. -/
def Routine.parts : Routine → Datum
  | .mk s name params body =>
    bare s
      [("Name", .text name), ("Params", .listOrNull (params.map Param.parts)),
       ("Body", body.parts)]

/-- Subroutine definitions in order. -/
def routinesParts : List Routine → List Datum
  | [] => []
  | d :: rest => d.parts :: routinesParts rest

end

end Pseudocode
