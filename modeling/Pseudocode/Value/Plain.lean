import Pseudocode.Datum.Json
import Pseudocode.Value.Text
/-
# `Value.Plain` — values as plain data

Numbers, strings, booleans, `None` and containers have a plain form; the keys of
a dictionary become their display forms.  Plain data has values in turn.
-/
namespace Pseudocode.Heap

/-- The plain form of a value, for containers nested less than `depth`.  What is
no data has none and shows as null. -/
def plainTo (h : Heap) : (depth : Nat) → Value → Datum
  | 0, _ => .null
  | n + 1, v =>
    match v with
    | .none => .null
    | .bool b => .bool b
    | .int k => .int k
    | .real x => .real x
    | .string s => .text s
    | .array r => .list ((h.array r).toList.map (h.plainTo n))
    | .dict r =>
      .object (Datum.sortFields ((h.textEntries r).map fun (k, v) => (k, h.plainTo n v)))
    | _ => .null

/-- The plain form of a value. -/
def plain (h : Heap) (v : Value) : Datum := h.plainTo (h.containers + 2) v

mutual

/-- The value of plain data. -/
def ofPlain : Datum → StateM Heap Value
  | .null => pure .none
  | .bool b => pure (.bool b)
  | .int n => pure (.int n)
  | .real x => pure (.real x)
  | .text s => pure (.string s)
  | .list xs => do
    let vs ← ofPlainItems xs
    modifyGet (newArray vs.toArray)
  | .object fs => do
    let d ← ofPlainFields .empty fs
    modifyGet (newDict d)

/-- The values of the elements of a list. -/
def ofPlainItems : List Datum → StateM Heap (List Value)
  | [] => pure []
  | x :: rest => do
    let v ← ofPlain x
    let vs ← ofPlainItems rest
    return v :: vs

/-- Adds the fields of an object to a dictionary. -/
def ofPlainFields (d : Dictionary) : List (String × Datum) → StateM Heap Dictionary
  | [] => pure d
  | (k, x) :: rest => do
    let v ← ofPlain x
    ofPlainFields (d.insert (.string k) v) rest

end

end Pseudocode.Heap
