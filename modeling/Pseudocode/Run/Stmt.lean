import Pseudocode.Run.Expr
/-
# `Run.Stmt` — executing statements

A statement ends normally, or with a signal: a returned value, a break or a
continue.  Blocks stop at the first signal; loops take breaks and continues,
calls take returned values, and whatever reaches the top of a program ends it.
-/
namespace Pseudocode.Run

variable (r : Recursor)

/-! ## Assignments -/

/-- Writes through the index chain of a target.  The name is looked up through
all scopes, and its owner's observer is told. -/
def assignIndexed (t : Target) (v : Value) : Eval Unit := do
  let scope ← Eval.scope
  match ← Eval.inHeap (·.find? scope t.name) with
  | none => nameError t.span t.name
  | some (owner, base) =>
    let container ← walk r base t.chain.dropLast
    match t.chain.getLast? with
    | some last => writeAt r container last v
    | none => pure ()
    Eval.tell (← Eval.inHeap (·.touched? owner t.name))

/-- Declares a constant in the current scope. -/
def declare (span : Span) (name : String) (v : Value) : Eval Unit := do
  let scope ← Eval.scope
  if ← Eval.inHeap (·.isConstant scope name) then Eval.failAt span (.constant name)
  let c ← Eval.copy v
  Eval.define scope name c true

/-- An assignment.  The value is evaluated before the target. -/
def assign (a : Assignment) : Eval Unit := do
  let v ← r.expr a.value
  if !a.target.chain.isEmpty then assignIndexed r a.target v
  else if a.constant then declare a.span a.target.name v
  else Eval.bindCopy a.span a.target.name v

/-! ## Choices -/

/-- A chain of branches, at most `n` long. -/
def branch : (n : Nat) → Branch → Eval Flow
  | 0, _ => Eval.outOfFuel
  | n + 1, .mk _ condition consequence alternative => do
    let c ← r.expr condition
    if ← Eval.inHeap (·.truthy c) then r.block consequence
    else
      match alternative with
      | .absent => return .normal
      | .elseIf next => branch n next
      | .elseBlock body => r.block body

/-! ## Loops -/

/-- What becomes of a loop after a round: it goes on, or it ends like this. -/
def loopEnd? : Flow → Option Flow
  | .broke => some .normal
  | .returned v => some (.returned v)
  | _ => none

/-- A `WHILE` loop of at most `n` rounds. -/
def whileLoop (condition : Expr) (body : Block) : (n : Nat) → Eval Flow
  | 0 => Eval.outOfFuel
  | n + 1 => do
    let c ← r.expr condition
    if ← Eval.inHeap (·.truthy c) then
      match loopEnd? (← r.block body) with
      | some flow => return flow
      | none => whileLoop condition body n
    else return .normal

/-- A `REPEAT` loop of at most `n` rounds. -/
def repeatLoop (body : Block) (condition : Expr) : (n : Nat) → Eval Flow
  | 0 => Eval.outOfFuel
  | n + 1 => do
    match loopEnd? (← r.block body) with
    | some flow => return flow
    | none =>
      let c ← r.expr condition
      if ← Eval.inHeap (·.truthy c) then return .normal
      else repeatLoop body condition n

/-- A bound of a `FOR` loop, which is a word. -/
def bound (e : Expr) (what : String) : Eval Int := do
  match ← r.expr e with
  | .int n => return (Int64.ofInt n).toInt
  | v =>
    let type ← Eval.inHeap (·.typeName v)
    Eval.failAt e.span (.type s!"FOR {what} must be an Int, got '{type}'")

/-- The step of a `FOR` loop. -/
def stepBound (step : Option Expr) : Eval Int := do
  match step with
  | none => return 1
  | some e =>
    let n ← bound r e "step"
    if n = 0 then Eval.failAt e.span (.value "FOR step must not be zero")
    return n

/-- At most `n` rounds of a `FOR` loop over a range, from a value of its counter.  The
loop ends before the counter would leave the word. -/
def rangeLoop (span : Span) (name : String) (last step : Int64) (body : Block) :
    (n : Nat) → Int64 → Eval Flow
  | 0, _ => Eval.outOfFuel
  | n + 1, v => do
    if (0 < step ∧ v ≤ last) ∨ (step < 0 ∧ last ≤ v) then
      Eval.bindCopy span name (.int v.toInt)
      match loopEnd? (← r.block body) with
      | some flow => return flow
      | none =>
        if (0 < step ∧ Int64.maxValue - step < v) ∨ (step < 0 ∧ v < Int64.minValue - step) then
          return .normal
        else rangeLoop span name last step body n (v + step)
    else return .normal

/-- As many rounds as there are words: a counter has no word twice. -/
def rangeRounds : Nat := 0x10000000000000000

/-- A `FOR` loop over a range.  The bounds are evaluated once, and the last value
is included. -/
def forRange (span : Span) (name : String) (first last : Expr) (step : Option Expr)
    (body : Block) : Eval Flow := do
  let a ← bound r first "start"
  let b ← bound r last "end"
  let s ← stepBound r step
  rangeLoop r span name (.ofInt b) (.ofInt s) body rangeRounds (.ofInt a)

/-- What a `FOR` loop goes over: elements, keys or characters. -/
def items? (h : Heap) (v : Value) : Option (List Value) :=
  match v with
  | .array a => some (h.array a).toList
  | .dict d => some (h.dict d).keys.toList
  | .string s => some (s.toList.map fun c => .string (String.ofList [c]))
  | _ => none

/-- The rounds of a `FOR` loop over values. -/
def eachLoop (span : Span) (name : String) (body : Block) : List Value → Eval Flow
  | [] => return .normal
  | v :: rest => do
    Eval.bindCopy span name v
    match loopEnd? (← r.block body) with
    | some flow => return flow
    | none => eachLoop span name body rest

/-- A `FOR` loop over what a value holds when the loop starts. -/
def forEach (span : Span) (name : String) (iterable : Expr) (body : Block) : Eval Flow := do
  let v ← r.expr iterable
  match ← Eval.inHeap (items? · v) with
  | some vs => eachLoop r span name body vs
  | none =>
    let type ← Eval.inHeap (·.typeName v)
    Eval.failAt iterable.span (.type s!"'{type}' object is not iterable")

/-! ## Definitions -/

/-- A subroutine closed over the current scope. -/
def closure (d : Routine) (this : Option Owner) : Eval Value := do
  let f ← Eval.frame
  return .subroutine
    { name := d.name, params := d.params.map (·.name), body := d.body, scope := f.scope,
      this, origin := f.origin, offset := d.span.start.offset }

/-- Evaluates the static fields of a class and gives it copies of their values. -/
def statics (owner : ClassRef) : List Assignment → Eval Unit
  | [] => return ()
  | a :: rest => do
    let v ← r.expr a.value
    let c ← Eval.copy v
    Eval.setProperty (.classType owner) a.target.name c
    statics owner rest

/-- Adds the methods of a class. -/
def methods (owner : ClassRef) : List Routine → Eval Unit
  | [] => return ()
  | d :: rest => do
    let m ← closure d (some (.ofClass owner))
    Eval.setProperty (.classType owner) d.name m
    methods owner rest

/-- A class definition.  The class gets its members one by one and its name at
the end. -/
def defineClass (span : Span) (name : String) (fields : List Assignment)
    (routines : List Routine) : Eval Unit := do
  let c ← Eval.onHeap (Heap.newClass ⟨name, []⟩)
  statics r c fields
  methods c routines
  Eval.bindSelf span name (.classType c)

/-! ## Signals and errors -/

/-- What `RETURN` returns: nothing, a value, or an array of several. -/
def returnValue : List Value → Eval Value
  | [] => return .none
  | [v] => return v
  | vs => Eval.newArray vs

/-- An expression as a statement.  `RETURN`, `BREAK` and `CONTINUE` are signals
here. -/
def exprStmt (e : Expr) : Eval Flow := do
  match e with
  | .magic _ .returns args => return .returned (← returnValue (← r.exprs args))
  | .magic _ .breaks _ => return .broke
  | .magic _ .continues _ => return .continued
  | e =>
    discard (r.expr e)
    return .normal

/-- `TRY` with its `CATCH`.  Errors in the second block go on. -/
def attempt (body rescue : Block) : Eval Flow :=
  tryCatch (r.block body) fun
    | .fault f => if f.catchable then r.block rescue else Eval.raise f
    | .outOfFuel => Eval.outOfFuel

/-! ## Statements -/

/-- Executes a statement.  `load` carries out imports, and loops make at most
`n` rounds. -/
def stmt (load : Span → Expr → String → Eval Unit) (n : Nat) (s : Stmt) : Eval Flow := do
  match s with
  | .expr e => exprStmt r e
  | .assign a =>
    assign r a
    return .normal
  | .subroutine d =>
    Eval.bindSelf d.span d.name (← closure d none)
    return .normal
  | .branch b => branch r n b
  | .whileLoop _ condition body => whileLoop r condition body n
  | .repeatLoop _ body condition => repeatLoop r body condition n
  | .forRange span name first last step body => forRange r span name first last step body
  | .forEach span name iterable body => forEach r span name iterable body
  | .record span name fields =>
    Eval.bindSelf span name (← Eval.onHeap (Heap.newRecordType ⟨name, fields⟩))
    return .normal
  | .classDef span name fields routines =>
    defineClass r span name fields routines
    return .normal
  | .attempt _ body rescue => attempt r body rescue
  | .load span location nickname =>
    load span location nickname
    return .normal

/-- Executes statements up to the first signal. -/
def stmts (load : Span → Expr → String → Eval Unit) (n : Nat) : List Stmt → Eval Flow
  | [] => return .normal
  | s :: rest => do
    match ← stmt r load n s with
    | .normal => stmts load n rest
    | flow => return flow

end Pseudocode.Run
