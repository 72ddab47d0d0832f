import Pseudocode.Run.Task
/-
# `Run.Call` — calls

A subroutine runs in a new scope inside the scope it was defined in, with copies
of its arguments.  Calling a record definition builds a record, calling a class
an instance.
-/
namespace Pseudocode.Run

variable (r : Recursor)

/-- The scope of a call, with `this` and the parameters bound. -/
def callScope (f : Subroutine) (args : List Value) : Eval ScopeRef := do
  let scope ← Eval.onHeap (Heap.childScope f.name f.scope)
  if let some owner := f.this then
    Eval.define scope "this" (Value.ofOwner owner) false
  for (param, arg) in f.params.zip args do
    let v ← Eval.copy arg
    Eval.define scope param v false
  return scope

/-- What a call returns, given how its body ended.  Breaking and continuing do
not cross a call. -/
def callResult : Flow → Value
  | .returned v => v
  | _ => .none

/-- Calls a subroutine. -/
def callSubroutine (f : Subroutine) (args : List Value) (span : Span) : Eval Value := do
  let wanted := f.params.length
  let given := args.length
  if given != wanted then
    Eval.failAt span
      ⟨.arity, s!"mismatched function parameters: {f.name} expects {wanted}, got {given}"⟩
  let depth := (← Eval.frame).depth
  if (← read).setup.maxDepth ≤ depth then
    Eval.failAt span ⟨.recursion, s!"maximum recursion depth exceeded in {f.name}"⟩
  let scope ← callScope f args
  return callResult (← Eval.withFrame ⟨scope, f.origin, depth + 1⟩ (r.block f.body))

/-- Builds a record from its definition. -/
def buildRecord (t : RecordTypeRef) (args : List Value) (span : Span) : Eval Value := do
  let type ← Eval.inHeap (·.recordType t)
  let wanted := type.fields.length
  let given := args.length
  if given != wanted then
    Eval.failAt span ⟨.arity, s!"record {type.name} expects {wanted} values, got {given}"⟩
  let copies ← args.mapM Eval.copy
  let fields := (type.fields.zip copies).foldl (fun (t : Table Value) (f, v) => t.put f v) []
  Eval.onHeap (Heap.newRecord ⟨t, fields⟩)

/-- A method of a class becomes one of the instance; anything else stays as it
is. -/
def rebind (c : ClassRef) (o : ObjectRef) (v : Value) : Value :=
  match v with
  | .subroutine f =>
    if f.this = some (.ofClass c) then .subroutine { f with this := some (.ofObject o) } else v
  | v => v

/-- An instance whose properties are copies of those of its class, with the
methods bound to it. -/
def newInstance (c : ClassRef) (h : Heap) : ObjectRef × Heap :=
  let (props, h) := (Heap.copyTable (h.classType c).props).run h
  let (o, h) := h.newObject ⟨c, []⟩
  (o, h.modifyObject o fun x => { x with props := props.map fun (k, v) => (k, rebind c o v) })

/-- Builds an instance and calls `INIT`, if the class has it. -/
def instantiate (c : ClassRef) (args : List Value) (span : Span) : Eval Value := do
  let o ← Eval.onHeap (newInstance c)
  match (← Eval.inHeap (·.object o)).props.get? "INIT" with
  | some init => discard (r.call init args span)
  | none =>
    if !args.isEmpty then
      let name := (← Eval.inHeap (·.classType c)).name
      Eval.failAt span ⟨.arity, s!"{name}() takes no arguments"⟩
  return .object o

/-- Calls a value.  `native` carries out builtin functions. -/
def call (native : Builtin → List Value → Eval Value) (callee : Value) (args : List Value)
    (span : Span) : Eval Value := do
  match callee with
  | .subroutine f => callSubroutine r f args span
  | .builtin b => Eval.placed span (native b args)
  | .recordType t => buildRecord t args span
  | .classType c => instantiate r c args span
  | .none => Eval.failAt span ⟨.notCallable, "subroutine is null"⟩
  | v =>
    let type ← Eval.inHeap (·.typeName v)
    Eval.failAt span ⟨.notCallable, s!"'{type}' object is not callable"⟩

end Pseudocode.Run
