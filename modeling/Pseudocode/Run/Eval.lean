import Pseudocode.Run.World
import Pseudocode.Value.Arithmetic
/-
# `Run.Eval` — the steps execution is made of

Reading and changing the world, raising faults, and putting them in their
place.  The executing interpreter is the one of the environment.
-/
namespace Pseudocode.Eval

variable {α β : Type}

/-! ## The heap -/

/-- Looks at the heap. -/
def inHeap (f : Heap → α) : Eval α := return f (← get).heap

/-- Changes the heap.  The world lets go of it meanwhile, so that it can be
changed in place. -/
def onHeap (f : Heap → α × Heap) : Eval α :=
  modifyGet fun w =>
    let heap := w.heap
    let w := { w with heap := .empty }
    let (a, heap) := f heap
    (a, { w with heap })

/-- Changes the heap without a result. -/
def changeHeap (f : Heap → Heap) : Eval Unit := onHeap fun h => ((), f h)

/-- A copy of a value. -/
def copy (v : Value) : Eval Value :=
  match v with
  | .array _ | .dict _ => onHeap (Heap.copy v)
  | v => pure v

/-- A new array of the given elements themselves. -/
def newArray (elements : List Value) : Eval Value := onHeap (Heap.newArray elements.toArray)

/-- A new dictionary. -/
def newDict (d : Dictionary) : Eval Value := onHeap (Heap.newDict d)

/-- A new builtin value. -/
def newBuiltin (name : String) (action : Native) : Eval Value :=
  modifyGet fun w =>
    (.builtin ⟨w.nextBuiltin, name, action⟩, { w with nextBuiltin := w.nextBuiltin + 1 })

/-! ## Interpreters -/

/-- An interpreter. -/
def interpreter (id : InterpreterId) : Eval Interpreter :=
  return (← get).interpreters.getD id.index default

/-- The interpreter that executes. -/
def self : Eval Interpreter := do interpreter (← read).self

/-- Changes the interpreter that executes. -/
def changeSelf (f : Interpreter → Interpreter) : Eval Unit := do
  let id := (← read).self
  modify fun w => { w with interpreters := w.interpreters.modify id.index f }

/-- Where the executing interpreter stands. -/
def frame : Eval Frame := return (← self).frame

/-- The current scope. -/
def scope : Eval ScopeRef := return (← frame).scope

/-- Executes on another interpreter. -/
def on (id : InterpreterId) (act : Eval α) : Eval α :=
  withReader (fun env => { env with self := id }) act

/-- Executes in another frame and comes back to this one, whatever happens. -/
def withFrame (f : Frame) (act : Eval α) : Eval α := do
  let before ← frame
  changeSelf fun i => { i with frame := f }
  let a ← tryCatch act fun e => do
    changeSelf fun i => { i with frame := before }
    throw e
  changeSelf fun i => { i with frame := before }
  return a

/-! ## Faults -/

/-- Stops with a fault. -/
def raise (f : Fault) : Eval α := throw (.fault f)

/-- Stops because the bound on steps is used up. -/
def outOfFuel : Eval α := throw .outOfFuel

/-- The diagnostic of a trouble at a span of the executing text. -/
def diagnose (span : Span) (t : Trouble) : Eval Diagnostic := do
  let origin := (← frame).origin
  return (Diagnostic.error t.code.text span t.message).inText origin.name origin.text

/-- Stops with a trouble at a span. -/
def failAt (span : Span) (t : Trouble) : Eval α := do
  raise (.runtime (← diagnose span t) none)

/-- Stops with a trouble that has no place yet. -/
def fail (t : Trouble) : Eval α := raise (.unplaced t)

/-- Gives a diagnostic without a place the given one. -/
def relocate (span : Span) (d : Diagnostic) : Eval Diagnostic := do
  if d.span.isNowhere then
    let origin := (← frame).origin
    return { d with span }.inText origin.name origin.text
  else return d

/-- Gives a fault without a place the given one.  A failure outside the language
becomes the cause of a runtime error. -/
def place (span : Span) (f : Fault) : Eval Fault := do
  match f with
  | .runtime d cause => return .runtime (← relocate span d) cause
  | .moduleNotFound d name searched => return .moduleNotFound (← relocate span d) name searched
  | .unplaced t => return .runtime (← diagnose span t) none
  | f => return .runtime (← diagnose span ⟨.native, f.text⟩) (some f)

/-- Executes, and puts a fault that comes out of it in its place. -/
def placed (span : Span) (act : Eval α) : Eval α :=
  tryCatch act fun
    | .fault f => do raise (← place span f)
    | .outOfFuel => outOfFuel

/-- The result of an operation that may fail. -/
def ofExcept : Except Trouble α → Eval α
  | .ok a => pure a
  | .error t => fail t

/-- The result of an operation, or its trouble at a span. -/
def ofExceptAt (span : Span) : Except Trouble α → Eval α
  | .ok a => pure a
  | .error t => failAt span t

/-- The result of an operation on the heap. -/
def ofHeapOp (op : HeapOp α) : Eval α := do ofExcept (← onHeap op.run)

/-- The result of an operation on the heap, or its trouble at a span. -/
def ofHeapOpAt (span : Span) (op : HeapOp α) : Eval α := do ofExceptAt span (← onHeap op.run)

/-! ## Names -/

/-- Tells an observer. -/
def tell (e : Option Event) : Eval Unit :=
  match e with
  | some e => modify fun w => { w with events := w.events.push e }
  | none => pure ()

/-- Binds a name in a scope, whatever it was before. -/
def define (s : ScopeRef) (name : String) (v : Value) (constant : Bool) : Eval Unit := do
  changeHeap (Heap.bind s name v constant)
  tell (← inHeap fun h => h.event? s name v)

/-- Binds a name in a scope unless it is a constant there. -/
def assign (s : ScopeRef) (name : String) (v : Value) : Eval Unit := do
  if ← inHeap fun h => h.isConstant s name then fail (.constant name)
  define s name v false

/-- Binds a name in the current scope to the value itself. -/
def bindSelf (span : Span) (name : String) (v : Value) : Eval Unit := do
  placed span (assign (← scope) name v)

/-- Binds a name in the current scope to a copy of the value. -/
def bindCopy (span : Span) (name : String) (v : Value) : Eval Unit := do
  bindSelf span name (← copy v)

/-! ## Input and output -/

/-- Writes to the output. -/
def write (s : String) : Eval Unit := modify fun w => { w with output := w.output ++ s }

/-- Drops returns and newlines from the end of a line. -/
def dropLineEnd (line : List Char) : List Char :=
  (line.reverse.dropWhile fun c => c = '\r' || c = '\n').reverse

/-- Reads one line of input, without its line ending; fails at a span if
everything has been read. -/
def readLine (span : Span) : Eval Value := do
  let input := (← get).input
  if input.isEmpty then failAt span ⟨.endOfInput, "EOF when reading a line"⟩
  let line := input.takeWhile (· != '\n')
  modify fun w => { w with input := (w.input.dropWhile (· != '\n')).drop 1 }
  return .string (String.ofList (dropLineEnd line))

end Pseudocode.Eval
