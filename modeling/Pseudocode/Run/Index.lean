import Pseudocode.Run.Task
/-
# `Run.Index` — reading and writing through index chains

Each step of a chain yields the stored value itself, so that a later change acts
in place.  What is written is always a copy.
-/
namespace Pseudocode

/-! ## Positions -/

/-- The place an index means in a sequence; negative ones count from the end. -/
def position (typeName : String) (key : Value) (length : Nat) (what : String) :
    Except Trouble Nat :=
  match key.integral? with
  | none => .error (.type s!"{what} indices must be integers, not '{typeName}'")
  | some n =>
    let p := if n < 0 then n + length else n
    if p < 0 || (length : Int) ≤ p then .error (.index s!"{what} index out of range")
    else .ok p.toNat

namespace Heap

/-- A key that a dictionary does not have. -/
def keyNotFound (h : Heap) (key : Value) : Trouble := .index s!"key not found: {h.repr key}"

/-- The element of a container or the character of a string. -/
def item (h : Heap) (v key : Value) : Except Trouble Value := do
  match v with
  | .array r =>
    let slots := h.slots r
    let p ← position (h.typeName key) key slots.size "array"
    return (slots.get? p).getD .none
  | .string s =>
    let cs := s.toList
    let p ← position (h.typeName key) key cs.length "string"
    return .string (String.ofList (cs.drop p |>.take 1))
  | .dict r =>
    if key.keyForm = .unhashable then throw (.unhashable (h.typeName key))
    match (h.dict r).get? key with
    | some v => return v
    | none => throw (h.keyNotFound key)
  | v => throw (.type s!"'{h.typeName v}' object is not subscriptable")

/-- Writes an element of a container. -/
def setItem (container key v : Value) : HeapOp Unit := do
  let h ← get
  match container with
  | .array r =>
    let p ← (position (h.typeName key) key (h.slots r).size "array" : Except Trouble Nat)
    modify (Heap.modifyArray r (·.set p v))
  | .dict r =>
    if key.keyForm = .unhashable then throw (.unhashable (h.typeName key))
    modify (Heap.modifyDict r (·.insert key v))
  | container =>
    throw (.type s!"'{h.typeName container}' object does not support item assignment")

end Heap

/-! ## Methods of builtin types -/

/-- The method of an array. -/
def arrayMethod? (r : ArrayRef) : String → Option Native
  | "append" => some (.arrayAppend r)
  | "pop" => some (.arrayPop r)
  | "insert" => some (.arrayInsert r)
  | "length" => some (.arrayLength r)
  | _ => none

/-- The method of a dictionary. -/
def dictMethod? (r : DictRef) : String → Option Native
  | "keys" => some (.dictKeys r)
  | "values" => some (.dictValues r)
  | "has" => some (.dictHas r)
  | "remove" => some (.dictRemove r)
  | "length" => some (.dictLength r)
  | _ => none

/-- The method of a string. -/
def stringMethod? (s : String) : String → Option Native
  | "length" => some (.textLength s)
  | "upper" => some (.textUpper s)
  | "lower" => some (.textLower s)
  | _ => none

/-- The method a value of a builtin type has under a name. -/
def builtinMethod? (v : Value) (name : String) : Option Native :=
  match v with
  | .array r => arrayMethod? r name
  | .dict r => dictMethod? r name
  | .string s => stringMethod? s name
  | _ => none

namespace Heap

/-- The property stored under a name. -/
def storedProperty? (h : Heap) (v : Value) (name : String) : Option Value :=
  match v with
  | .object r => (h.object r).props.get? name
  | .classType r => (h.classType r).props.get? name
  | .record r => (h.record r).fields.get? name
  | .module _ scope => h.lookup? scope name
  | .library r => (h.library r).members.get? name
  | _ => none

/-- A property that is not there. -/
def noProperty (h : Heap) (v : Value) (name : String) : Trouble :=
  match v with
  | .module m _ => .index s!"module '{m}' has no attribute '{name}'"
  | .library r => .index s!"module '{(h.library r).name}' has no attribute '{name}'"
  | v => .index s!"'{h.typeName v}' object has no property '{name}'"

end Heap

namespace Eval

/-- The property of a value.  A method of a builtin type is a new value each
time. -/
def property (v : Value) (name : String) : Eval Value := do
  match ← inHeap (·.storedProperty? v name) with
  | some p => return p
  | none =>
    match builtinMethod? v name with
    | some action => newBuiltin name action
    | none => fail (← inHeap (·.noProperty v name))

/-- Writes a property of a value. -/
def setProperty (container : Value) (name : String) (v : Value) : Eval Unit := do
  match container with
  | .object r => changeHeap (Heap.modifyObject r fun o => { o with props := o.props.put name v })
  | .classType r =>
    changeHeap (Heap.modifyClass r fun c => { c with props := c.props.put name v })
  | .record r =>
    let type ← inHeap fun h => h.recordType (h.record r).type
    if type.fields.contains name then
      changeHeap (Heap.modifyRecord r fun q => { q with fields := q.fields.put name v })
    else fail (.index s!"record '{type.name}' has no field '{name}'")
  | .module _ scope => assign scope name v
  | container =>
    let type ← inHeap (·.typeName container)
    fail (.type s!"cannot set property '{name}' on '{type}'")

end Eval

namespace Run

variable (r : Recursor)

/-- One step of a chain. -/
def step (v : Value) (i : Index) : Eval Value := do
  match i with
  | .subscript span key =>
    let k ← r.expr key
    Eval.ofExceptAt span (← Eval.inHeap (·.item v k))
  | .property span name => Eval.placed span (Eval.property v name)

/-- All steps of a chain. -/
def walk (v : Value) (chain : List Index) : Eval Value := chain.foldlM (step r) v

/-- Writes a copy of a value at the last step of a chain. -/
def writeAt (container : Value) (last : Index) (v : Value) : Eval Unit := do
  match last with
  | .subscript span key =>
    let k ← r.expr key
    let c ← Eval.copy v
    Eval.ofHeapOpAt span (Heap.setItem container k c)
  | .property span name =>
    let c ← Eval.copy v
    Eval.placed span (Eval.setProperty container name c)

end Run

end Pseudocode
