import Pseudocode.Builtin.Convert
import Pseudocode.Run.Index
/-
# `Builtin.Container` — methods of arrays, dictionaries and strings

A method acts on the container it was taken from.  What it stores is a copy;
what it returns, except for `values`, is what was stored.
-/
namespace Pseudocode.Builtins

/-! ## Arrays -/

/-- Adds a copy at the end. -/
def arrayAppend (a : ArrayRef) (name : String) (args : List Value) : Eval Value := do
  arity (.exactly 1) name args
  let c ← Eval.copy (arg args 0)
  Eval.changeHeap (Heap.modifyArray a (·.push c))
  return .none

/-- Removes and returns the last element, or the one at an index. -/
def arrayPop (a : ArrayRef) (name : String) (args : List Value) : Eval Value := do
  arity (.between 0 1) name args
  let size ← Eval.inHeap fun h => (h.slots a).size
  if size = 0 then Eval.fail (.index "pop from empty array")
  let key := args.headD (.int (-1))
  let p ← Eval.ofExcept (position (← typeName key) key size "pop")
  let v ← Eval.inHeap fun h => ((h.slots a).get? p).getD .none
  Eval.changeHeap (Heap.modifyArray a (·.erase p))
  return v

/-- Where an insertion goes: an index from either end, kept within the array. -/
def insertPlace (n : Int) (size : Nat) : Nat :=
  let n := if n < 0 then n + size else n
  min n.toNat size

/-- Inserts a copy in front of an index.  The copy is taken after room was made
for it. -/
def arrayInsert (a : ArrayRef) (name : String) (args : List Value) : Eval Value := do
  arity (.exactly 2) name args
  match (arg args 0).integral? with
  | none =>
    let type ← typeName (arg args 0)
    Eval.fail (.type s!"insert() index must be an integer, not '{type}'")
  | some n =>
    let p := insertPlace n (← Eval.inHeap fun h => (h.slots a).size)
    Eval.changeHeap (Heap.modifyArray a (·.openGap p))
    let c ← Eval.copy (arg args 1)
    Eval.changeHeap (Heap.modifyArray a (·.set p c))
    return .none

/-- The number of elements. -/
def arrayLength (a : ArrayRef) (name : String) (args : List Value) : Eval Value := do
  arity (.exactly 0) name args
  return .int (← Eval.inHeap fun h => (h.slots a).size)

/-! ## Dictionaries -/

/-- The keys in order. -/
def dictKeys (d : DictRef) (name : String) (args : List Value) : Eval Value := do
  arity (.exactly 0) name args
  Eval.newArray (← Eval.inHeap (·.dict d)).keys.toList

/-- Copies of the values in order. -/
def dictValues (d : DictRef) (name : String) (args : List Value) : Eval Value := do
  arity (.exactly 0) name args
  let values := (← Eval.inHeap (·.dict d)).values.toList
  Eval.newArray (← values.mapM Eval.copy)

/-- Is there an entry for the key? -/
def dictHas (d : DictRef) (name : String) (args : List Value) : Eval Value := do
  arity (.exactly 1) name args
  return .bool ((← Eval.inHeap (·.dict d)).get? (arg args 0)).isSome

/-- Removes an entry and returns its value. -/
def dictRemove (d : DictRef) (name : String) (args : List Value) : Eval Value := do
  arity (.exactly 1) name args
  let dict ← Eval.inHeap (·.dict d)
  let key := arg args 0
  match dict.get? key, dict.erase? key with
  | some v, some rest =>
    Eval.changeHeap (Heap.modifyDict d fun _ => rest)
    return v
  | _, _ => Eval.fail (← Eval.inHeap (·.keyNotFound key))

/-- The number of entries. -/
def dictLength (d : DictRef) (name : String) (args : List Value) : Eval Value := do
  arity (.exactly 0) name args
  return .int (← Eval.inHeap (·.dict d)).size

/-! ## Strings -/

/-- A method without arguments on a string. -/
def textMethod (v : Value) (name : String) (args : List Value) : Eval Value := do
  arity (.exactly 0) name args
  return v

end Pseudocode.Builtins
