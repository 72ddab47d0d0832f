import Pseudocode.Datum.Json
import Pseudocode.Value.Text
/-
# `Value.Host` — data from outside

A program that embeds an interpreter hands over data of its own: numbers of
several widths, lists and maps.  `HostData.box` makes values of it.  Maps have no
order of their own, so their entries come in the order of their keys.

`Heap.unbox` hands values out.  A dictionary becomes a map from the display forms
of its keys, which is given with its names in ascending order.
-/
namespace Pseudocode

/-- Data of the embedding program. -/
inductive HostData where
  | nothing
  | value (v : Value)
  | bool (b : Bool)
  | text (s : String)
  /-- An integer of the language's width or less. -/
  | int (n : Int)
  /-- A natural number, which may be too great. -/
  | natural (n : Nat)
  | real (x : Float)
  | values (vs : List Value)
  | list (xs : List HostData)
  /-- A map from names. -/
  | named (entries : List (String × HostData))
  /-- A map from values. -/
  | keyed (entries : List (Value × HostData))
  /-- Data that no value stands for, by the name of its type. -/
  | foreign (typeName : String)

instance : Inhabited HostData := ⟨.nothing⟩

/-- Why data has no value. -/
inductive HostError where
  | foreign (typeName : String)
  | tooGreat (n : Nat)
  | unhashable (typeName : String)
deriving Repr, DecidableEq

/-- The sentence about data that has no value. -/
def HostError.message : HostError → String
  | foreign type => "cannot convert Go value of type " ++ type
  | tooGreat n => s!"cannot convert {n}: out of Int range"
  | unhashable type => s!"unhashable type: '{type}'"

/-- Making values. -/
abbrev Boxing (α : Type) := StateT Heap (Except HostError) α

namespace HostData

/-- Are two values the same key of a map?  Numbers of different types are not. -/
def sameKey : Value → Value → Bool
  | .none, .none => true
  | .bool a, .bool b => a = b
  | .int a, .int b => a = b
  | .real a, .real b => a == b
  | .string a, .string b => a = b
  | _, _ => false

/-- Sets an entry of a map.  The last form of a key is kept. -/
def setKey {α : Type} (key : Value) (x : α) : List (Value × α) → List (Value × α)
  | [] => [(key, x)]
  | (k, y) :: rest => if sameKey k key then (key, x) :: rest else (k, y) :: setKey key x rest

/-- Carries out actions in order. -/
def perform {κ : Type} : List (κ × Boxing Value) → Boxing (List (κ × Value))
  | [] => return []
  | (k, act) :: rest => do
    let v ← act
    let vs ← perform rest
    return (k, v) :: vs

/-- Builds a dictionary from entries in order. -/
def boxEntries : Dictionary → List (Value × Value) → Boxing Value
  | d, [] => modifyGet (Heap.newDict d)
  | d, (k, v) :: rest => do
    match d.insert? k v with
    | some d => boxEntries d rest
    | none => throw (.unhashable ((← get).typeName k))

/-- A dictionary from a map of names. -/
def boxNamed (actions : List (String × Boxing Value)) : Boxing Value := do
  let table := actions.foldl (fun (t : Table (Boxing Value)) (k, act) => t.put k act) []
  let entries ← perform (table.mergeSort fun a b => decide (a.1 ≤ b.1))
  boxEntries .empty (entries.map fun (k, v) => (.string k, v))

/-- Entries in the order in which their keys are shown.  Those whose keys are shown
alike stay in the order in which they were met. -/
def inShownOrder {κ α : Type} (shown : κ → String) (entries : List (κ × α)) : List (κ × α) :=
  let pairs := entries.map fun e => (shown e.1, e)
  (pairs.mergeSort fun a b => decide (a.1 ≤ b.1)).map Prod.snd

/-- Carries out the actions of a map, and builds of their values in the order in
which the keys are shown. -/
def boxInOrder {κ α : Type} (shown : Heap → κ → String) (build : List (κ × Value) → Boxing α)
    (actions : List (κ × Boxing Value)) : Boxing α := do
  let entries ← perform actions
  build (inShownOrder (shown (← get)) entries)

/-- A dictionary from a map of values, in the order of their representations. -/
def boxKeyed (actions : List (Value × Boxing Value)) : Boxing Value :=
  boxInOrder Heap.repr (boxEntries .empty)
    (actions.foldl (fun t (k, act) => setKey k act t) [])

mutual

/-- The value of data. -/
def box : HostData → Boxing Value
  | nothing => return .none
  | value v => return v
  | bool b => return .bool b
  | text s => return .string s
  | int n => return .int n
  | natural n => if (n : Int) ≤ Value.maxInt then return .int n else throw (.tooGreat n)
  | real x => return .real x
  | values vs => modifyGet (Heap.newArray vs.toArray)
  | list xs => do
    let vs ← boxItems xs
    modifyGet (Heap.newArray vs.toArray)
  | named entries => boxNamed (namedActions entries)
  | keyed entries => boxKeyed (keyedActions entries)
  | foreign type => throw (.foreign type)

/-- The values of the elements of a list. -/
def boxItems : List HostData → Boxing (List Value)
  | [] => return []
  | x :: rest => do
    let v ← box x
    let vs ← boxItems rest
    return v :: vs

/-- What makes the values of a map of names. -/
def namedActions : List (String × HostData) → List (String × Boxing Value)
  | [] => []
  | (k, x) :: rest => (k, box x) :: namedActions rest

/-- What makes the values of a map of values. -/
def keyedActions : List (Value × HostData) → List (Value × Boxing Value)
  | [] => []
  | (k, x) :: rest => (k, box x) :: keyedActions rest

end

/-- What stands for a value that is no container: the value itself, if it is not plain. -/
def ofLeaf : Value → HostData
  | .none => .nothing
  | .bool b => .bool b
  | .int n => .int n
  | .real x => .real x
  | .string s => .text s
  | v => .value v

end HostData

namespace Heap

/-- The data of a value, for containers nested less than `depth`. -/
def unboxTo (h : Heap) : (depth : Nat) → Value → HostData
  | 0, _ => .nothing
  | n + 1, v =>
    match v with
    | .array r => .list ((h.array r).toList.map (h.unboxTo n))
    | .dict r =>
      .named (Datum.sortFields ((h.textEntries r).map fun (k, v) => (k, h.unboxTo n v)))
    | v => .ofLeaf v

/-- The data of a value. -/
def unbox (h : Heap) (v : Value) : HostData := h.unboxTo (h.containers + 2) v

end Heap

end Pseudocode
