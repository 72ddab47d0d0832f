import Pseudocode.Builtin.Basic
import Pseudocode.Value.Basic
import Pseudocode.Text.Bytes
/-
# `Builtin.Convert` — from one type to another
-/
namespace Pseudocode.Builtins

/-! ## Numbers from text -/

/-- The integer a text writes.  White space around it and underscores anywhere
do not matter. -/
def intOfText? (s : String) : Option Int :=
  Value.readInt? (String.ofList ((Text.trim s).toList.filter (· != '_')))

/-- The real a text writes.  White space around it does not matter. -/
def realOfText? (s : String) : Option Float := Real.ofText? (Text.trim s)

/-- A real without its fraction; the least integer stands for what is out of
range. -/
def intOfReal (x : Float) : Except Trouble Value :=
  match Real.truncate? x with
  | some n => .ok (.int (if Value.inRange n then n else Value.minInt))
  | none => .error (.value s!"cannot convert float {Real.display x} to integer")

/-! ## Conversions -/

/-- An integer from a number or a text. -/
def toInt (h : Heap) (v : Value) : Except Trouble Value :=
  match v with
  | .int n => .ok (.int n)
  | .bool b => .ok (.int (Value.ofBool b))
  | .real x => intOfReal x
  | .string s =>
    match intOfText? s with
    | some n => .ok (.int n)
    | none => .error (.value s!"invalid literal for int() with base 10: {Text.quoted s}")
  | v =>
    .error (.type s!"int() argument must be a string or a number, not '{h.typeName v}'")

/-- A real from a number or a text. -/
def toReal (h : Heap) (v : Value) : Except Trouble Value :=
  match v with
  | .string s =>
    match realOfText? s with
    | some x => .ok (.real x)
    | none => .error (.value s!"could not convert string to float: {Text.quoted s}")
  | v =>
    match v.number? with
    | some x => .ok (.real x)
    | none =>
      .error (.type s!"float() argument must be a string or a number, not '{h.typeName v}'")

/-- The characters of a text as strings. -/
def characters (s : String) : List Value :=
  s.toList.map fun c => .string (String.ofList [c])

/-- An array of the elements, keys or characters of a value. -/
def toArray (v : Value) : HeapOp Value := do
  match v with
  | .array _ => HeapOp.ofState (Heap.copy v)
  | .dict r =>
    let keys := ((← get).dict r).keys
    HeapOp.ofState (modifyGet (Heap.newArray keys))
  | .string s => HeapOp.ofState (modifyGet (Heap.newArray (characters s).toArray))
  | v => throw (.type s!"'{(← get).typeName v}' object is not iterable")

/-- The key and the value of an array of two elements. -/
def pair? (h : Heap) (v : Value) : Option (Value × Value) :=
  match v with
  | .array r =>
    match (h.array r).toList with
    | [k, v] => some (k, v)
    | _ => none
  | _ => none

/-- Adds pairs to a dictionary; `i` is the place of the first of them. -/
def addPairs (i : Nat) (d : Dictionary) : List Value → HeapOp Dictionary
  | [] => return d
  | e :: rest => do
    match pair? (← get) e with
    | none =>
      throw (.value s!"dictionary update sequence element #{i} is not a [key, value] pair")
    | some (k, v) =>
      let c ← HeapOp.ofState (Heap.copy v)
      match d.insert? k c with
      | some d => addPairs (i + 1) d rest
      | none => throw (.unhashable ((← get).typeName k))

/-- A copy of a dictionary, or a dictionary from an array of pairs. -/
def toDict (v : Value) : HeapOp Value := do
  match v with
  | .dict _ => HeapOp.ofState (Heap.copy v)
  | .array r =>
    let elements := ((← get).array r).toList
    let d ← addPairs 0 .empty elements
    HeapOp.ofState (modifyGet (Heap.newDict d))
  | v => throw (.type s!"cannot convert '{(← get).typeName v}' to Dictionary")

end Pseudocode.Builtins
