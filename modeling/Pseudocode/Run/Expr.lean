import Pseudocode.Run.Index
import Pseudocode.Text.Hint
/-
# `Run.Expr` — evaluating expressions
-/
namespace Pseudocode.Run

variable (r : Recursor)

/-! ## Names -/

/-- An unknown name. -/
def nameError {α : Type} (span : Span) (name : String) : Eval α := do
  let scope ← Eval.scope
  let hint := Text.hint name (← Eval.inHeap (·.visibleNames scope))
  let d ← Eval.diagnose span ⟨.name, s!"name '{name}' is not defined"⟩
  Eval.raise (.runtime { d with hint } none)

/-- A name with its index steps. -/
def named (span : Span) (name : String) (chain : List Index) : Eval Value := do
  let scope ← Eval.scope
  match ← Eval.inHeap (·.lookup? scope name) with
  | some v => walk r v chain
  | none => nameError span name

/-! ## Operators and literals -/

/-- A binary operator.  `AND` and `OR` return one of their operands and leave the
second one alone when the first decides. -/
def binary (span : Span) (op : BinaryOp) (left right : Expr) : Eval Value := do
  let l ← r.expr left
  match op with
  | .and => if ← Eval.inHeap (·.truthy l) then r.expr right else return l
  | .or => if ← Eval.inHeap (·.truthy l) then return l else r.expr right
  | op =>
    let v ← r.expr right
    Eval.ofHeapOpAt span (binaryOp op l v)

/-- An operator before its operand. -/
def unary (span : Span) (op : UnaryOp) (operand : Expr) : Eval Value := do
  let v ← r.expr operand
  Eval.ofExceptAt span (← Eval.inHeap (unaryOp · op v))

/-- An array literal holds copies of its elements. -/
def arrayLiteral (elements : List Expr) : Eval Value := do
  let vs ← elements.mapM fun e => do Eval.copy (← r.expr e)
  Eval.newArray vs

/-- Adds the entries of a dictionary literal. -/
def addEntries (d : Dictionary) : List Entry → Eval Dictionary
  | [] => return d
  | entry :: rest => do
    let k ← r.expr entry.key
    let v ← r.expr entry.value
    let c ← Eval.copy v
    match d.insert? k c with
    | some d => addEntries d rest
    | none => Eval.failAt entry.key.span (.unhashable (← Eval.inHeap (·.typeName k)))

/-- A dictionary literal. -/
def dictLiteral (entries : List Entry) : Eval Value := do
  Eval.newDict (← addEntries r .empty entries)

/-! ## Magic words -/

/-- `OUTPUT` writes its arguments, divided by blanks, on a line. -/
def output (args : List Expr) : Eval Value := do
  let vs ← r.exprs args
  let parts ← vs.mapM r.str
  Eval.write (" ".intercalate parts ++ "\n")
  return .none

/-- A magic word as a value.  Only `OUTPUT` and `USERINPUT` are. -/
def magicValue (span : Span) (word : Magic) (args : List Expr) : Eval Value := do
  match word with
  | .output => output r args
  | .userInput =>
    if args.isEmpty then Eval.readLine span
    else Eval.failAt span ⟨.arity, "USERINPUT takes no arguments"⟩
  | word => Eval.failAt span (.value s!"{word.kind.name} cannot be used as a value")

/-! ## Expressions -/

/-- Evaluates an expression. -/
def expr (e : Expr) : Eval Value := do
  match e with
  | .int _ n => return .int n
  | .real _ x => return .real x
  | .string _ s => return .string s
  | .bool _ b => return .bool b
  | .none _ => return .none
  | .var span name chain => named r span name chain
  | .item _ base chain => walk r (← r.expr base) chain
  | .call span callee args =>
    let f ← r.expr callee
    let vs ← r.exprs args
    r.call f vs span
  | .binary span op left right => binary r span op left right
  | .unary span op operand => unary r span op operand
  | .magic span word args => magicValue r span word args
  | .array _ elements => arrayLiteral r elements
  | .dict _ entries => dictLiteral r entries

end Pseudocode.Run
