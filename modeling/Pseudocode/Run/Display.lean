import Pseudocode.Run.Task
/-
# `Run.Display` — display forms that call methods

Classes and instances may define `STR` and `REPR` for their own display.  Where
they do not, these forms are those of `Value.Text`.  A method may change the very
container that is being displayed.
-/
namespace Pseudocode.Run

variable (r : Recursor)

/-- The property of a class or instance. -/
def displayMethod? (h : Heap) (v : Value) (name : String) : Option Value :=
  match v with
  | .classType c => (h.classType c).props.get? name
  | .object o => (h.object o).props.get? name
  | _ => none

/-- Calls a display method.  What it returns is displayed in turn. -/
def callDisplay (method : Value) : Eval String := do
  match ← r.call method [] .nowhere with
  | .string s => return s
  | v => r.str v

/-- The representation of each element of an array.  A display method that changes
the array is seen by the elements after it, as far as they stand in the block the
display began with. -/
def reprElements (a : ArrayRef) : Eval (List String) := do
  let view ← Eval.inHeap fun h => (h.slots a).view
  (List.range view.size).mapM fun i => do
    r.repr (← Eval.inHeap fun h => ((h.slots a).seen? view i).getD .none)

/-- Each entry of a dictionary.  The keys are those the display began with, and
the values those that stand in their places by then. -/
def reprEntries (d : DictRef) : Eval (List String) := do
  let view ← Eval.inHeap fun h => (h.dict d).slots.view
  (List.range view.size).mapM fun i => do
    let key ← r.repr (← Eval.inHeap fun h => ((h.dict d).slots.seen? view i).getD .none)
    let value ← r.repr (← Eval.inHeap fun h => (h.dict d).values.getD i .none)
    return entryText key value

/-- The display form of a container. -/
def strContainer (v : Value) : Eval String := do
  match v with
  | .array a => return bracketed (← reprElements r a)
  | .dict d => return braced (← reprEntries r d)
  | v => Eval.inHeap (·.text v)

/-- The display form of a value: `STR` of classes and instances that have it. -/
def str (v : Value) : Eval String := do
  match ← Eval.inHeap (displayMethod? · v "STR") with
  | some method => callDisplay r method
  | none => strContainer r v

/-- The representation of a value: quoted strings, and `REPR` or else `STR` of
classes and instances that have it. -/
def repr (v : Value) : Eval String := do
  match v with
  | .string s => return Text.quoted s
  | v =>
    match ← Eval.inHeap (displayMethod? · v "REPR") with
    | some method => callDisplay r method
    | none => str r v

end Pseudocode.Run
