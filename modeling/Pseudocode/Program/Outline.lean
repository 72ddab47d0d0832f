import Pseudocode.Datum.Basic
import Pseudocode.Program.Stmt
/-
# `Program.Outline` — a program tree as plain data

Every node becomes an object that names its kind and its span and lists its
parts.  Optional parts appear only when they are there.
-/
namespace Pseudocode

/-- A place as an object. -/
def Position.outline (p : Position) : Datum :=
  .object [("offset", .int p.offset), ("line", .int p.line), ("column", .int p.column)]

/-- A span as an object. -/
def Span.outline (s : Span) : Datum :=
  .object [("start", s.start.outline), ("end", s.stop.outline)]

/-- A node: its kind, its span and its parts. -/
def node (kind : String) (span : Span) (parts : List (String × Datum)) : Datum :=
  .object (("kind", .text kind) :: ("span", span.outline) :: parts)

mutual

/-- An expression as plain data. -/
def Expr.outline : Expr → Datum
  | .var s name chain => node "Var" s [("name", .text name), ("chain", .list (outlineChain chain))]
  | .item s base chain =>
    node "IndexedItem" s [("base", base.outline), ("chain", .list (outlineChain chain))]
  | .call s callee args =>
    node "SubroutineCall" s [("callee", callee.outline), ("args", .list (outlineExprs args))]
  | .binary s op left right =>
    node "BinOp" s
      [("op", .text op.kind.name), ("left", left.outline), ("right", right.outline)]
  | .unary s op operand =>
    node "UnaryOp" s [("op", .text op.kind.name), ("operand", operand.outline)]
  | .magic s word args =>
    node "Magic" s [("magic", .text word.kind.name), ("args", .list (outlineExprs args))]
  | .int s value => node "IntLiteral" s [("value", .int value)]
  | .real s value => node "FloatLiteral" s [("value", .real value)]
  | .string s value => node "StringLiteral" s [("value", .text value)]
  | .bool s value => node "BoolLiteral" s [("value", .bool value)]
  | .none s => node "NoneLiteral" s []
  | .array s elements => node "ArrayLiteral" s [("elements", .list (outlineExprs elements))]
  | .dict s entries => node "DictLiteral" s [("entries", .list (outlineEntries entries))]

/-- Expressions in order. -/
def outlineExprs : List Expr → List Datum
  | [] => []
  | e :: rest => e.outline :: outlineExprs rest

/-- Index steps in order. -/
def outlineChain : List Index → List Datum
  | [] => []
  | i :: rest => i.outline :: outlineChain rest

/-- One index step. -/
def Index.outline : Index → Datum
  | .subscript s key => node "ValueIndex" s [("expr", key.outline)]
  | .property s name => node "PropertyIndex" s [("name", .text name)]

/-- Dictionary entries in order. -/
def outlineEntries : List Entry → List Datum
  | [] => []
  | .mk k v :: rest =>
    .object [("key", k.outline), ("value", v.outline)] :: outlineEntries rest

end

/-- The target of an assignment looks like a name in an expression. -/
def Target.outline (t : Target) : Datum :=
  node "Var" t.span [("name", .text t.name), ("chain", .list (outlineChain t.chain))]

/-- An assignment as plain data. -/
def Assignment.outline (a : Assignment) : Datum :=
  node "Assign" a.span
    [("target", a.target.outline), ("value", a.value.outline), ("constant", .bool a.constant)]

/-- A parameter as plain data. -/
def Param.outline (p : Param) : Datum := node "DeclaredParam" p.span [("name", .text p.name)]

/-- The field names of a record; a record without fields shows null. -/
def outlineFields (fields : List String) : Datum :=
  if fields.isEmpty then .null else .list (fields.map .text)

mutual

/-- A statement as plain data. -/
def Stmt.outline : Stmt → Datum
  | .expr e => e.outline
  | .assign a => a.outline
  | .subroutine d => d.outline
  | .branch b => b.outline
  | .whileLoop s condition body =>
    node "WhileStatement" s [("condition", condition.outline), ("body", body.outline)]
  | .repeatLoop s body condition =>
    node "RepeatUntilStatement" s [("condition", condition.outline), ("body", body.outline)]
  | .forRange s name first last step body =>
    node "ForLoop" s
      ([("variable", .text name), ("body", body.outline),
        ("start", first.outline), ("end", last.outline)]
        ++ (step.map fun e => ("step", e.outline)).toList)
  | .forEach s name iterable body =>
    node "ForLoop" s
      [("variable", .text name), ("body", body.outline), ("iterable", iterable.outline)]
  | .record s name fields =>
    node "RecordDefinition" s [("name", .text name), ("fields", outlineFields fields)]
  | .classDef s name statics methods =>
    node "ClassDefinition" s
      [("name", .text name), ("statics", .list (statics.map Assignment.outline)),
       ("methods", .list (outlineRoutines methods))]
  | .attempt s body rescue =>
    node "TryCatch" s [("body", body.outline), ("catch", rescue.outline)]
  | .load s location nickname =>
    node "Import" s [("location", location.outline), ("alias", .text nickname)]

/-- A block as plain data. -/
def Block.outline : Block → Datum
  | .mk s body => node "Compound" s [("body", .list (outlineStmts body))]

/-- Statements in order. -/
def outlineStmts : List Stmt → List Datum
  | [] => []
  | s :: rest => s.outline :: outlineStmts rest

/-- A branch as plain data; what is done otherwise shows only if there is any. -/
def Branch.outline : Branch → Datum
  | .mk s condition consequence alternative =>
    node "IfStatement" s
      ([("condition", condition.outline), ("consequence", consequence.outline)]
        ++ alternative.outline)

/-- The part of a branch that shows what is done otherwise. -/
def Otherwise.outline : Otherwise → List (String × Datum)
  | .absent => []
  | .elseIf next => [("else", next.outline)]
  | .elseBlock body => [("else", body.outline)]

/-- A subroutine definition as plain data. -/
def Routine.outline : Routine → Datum
  | .mk s name params body =>
    node "SubroutineDefinition" s
      [("name", .text name), ("params", .list (params.map Param.outline)),
       ("body", body.outline)]

/-- Subroutine definitions in order. -/
def outlineRoutines : List Routine → List Datum
  | [] => []
  | d :: rest => d.outline :: outlineRoutines rest

end

end Pseudocode
