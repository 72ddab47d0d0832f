import Std.Data.HashMap
import Pseudocode.Value.Slots
/-
# `Value.Dictionary` — dictionaries in insertion order

Keys are numbers, strings, booleans and `None`.  Keys that are equal as numbers
address the same entry, whose first form is kept.  A key that is not a number
in the sense of arithmetic (`nan`) equals nothing, itself included: setting it
always adds an entry, and no look-up finds it again.

Keys and values stand in two arrays of equal length; `index` gives the place of
every key that can be found.
-/
namespace Pseudocode

/-- The normal form of a key: numerically equal keys have the same. -/
inductive Key where
  | none
  | int (n : Int)
  /-- A real that is not a whole number, by its bits. -/
  | real (bits : UInt64)
  | string (s : String)
deriving Repr, DecidableEq, Hashable

/-- What a value is as a key. -/
inductive KeyForm where
  | found (k : Key)
  /-- A key that equals nothing. -/
  | unequal
  /-- No key at all. -/
  | unhashable
deriving Repr, DecidableEq

/-- The key a value stands for. -/
def Value.keyForm (v : Value) : KeyForm :=
  match v with
  | .none => .found .none
  | .string s => .found (.string s)
  | .int n => .found (.int n)
  | .bool b => .found (.int (Value.ofBool b))
  | .real x =>
    match v.whole? with
    | some n => .found (.int n)
    | Option.none => if x.isNaN then .unequal else .found (.real x.toBits)
  | _ => .unhashable

/-- A dictionary. -/
structure Dictionary where
  slots : Slots
  values : Array Value
  index : Std.HashMap Key Nat

namespace Dictionary

/-- No entries. -/
def empty : Dictionary := ⟨.empty, #[], {}⟩

instance : Inhabited Dictionary := ⟨empty⟩

/-- The number of entries. -/
def size (d : Dictionary) : Nat := d.slots.size

/-- The keys in order. -/
def keys (d : Dictionary) : Array Value := d.slots.toArray

/-- The entries in order. -/
def toList (d : Dictionary) : List (Value × Value) := d.keys.toList.zip d.values.toList

/-- The place of a key. -/
def position? (d : Dictionary) (key : Value) : Option Nat :=
  match key.keyForm with
  | .found k => d.index[k]?
  | _ => none

/-- The value under a key. -/
def get? (d : Dictionary) (key : Value) : Option Value :=
  (d.position? key).bind fun i => d.values[i]?

/-- Adds an entry at the end. -/
def push (d : Dictionary) (key value : Value) : Dictionary :=
  { d with slots := d.slots.push key, values := d.values.push value }

/-- Replaces the value under a key, or adds an entry.  What is no key changes
nothing. -/
def insert (d : Dictionary) (key value : Value) : Dictionary :=
  match key.keyForm with
  | .found k =>
    match d.index[k]? with
    | some i => { d with values := d.values.setIfInBounds i value }
    | none =>
      let place := d.size
      { d.push key value with index := d.index.insert k place }
  | .unequal => d.push key value
  | .unhashable => d

/-- Replaces the value under a key, or adds an entry; `none` if the key cannot
be one. -/
def insert? (d : Dictionary) (key value : Value) : Option Dictionary :=
  if key.keyForm = .unhashable then none else some (d.insert key value)

/-- The index with the places of the keys from `i` on set anew. -/
def reindex (keys : Array Value) (index : Std.HashMap Key Nat) (i : Nat) :
    Std.HashMap Key Nat :=
  (keys.toList.zipIdx.drop i).foldl
    (fun ix (key, place) =>
      match key.keyForm with
      | .found k => ix.insert k place
      | _ => ix)
    index

/-- Removes the entry of a key; `none` if there is no such entry. -/
def erase? (d : Dictionary) (key : Value) : Option Dictionary :=
  match key.keyForm with
  | .found k =>
    match d.index[k]? with
    | some i =>
      let slots := d.slots.erase i
      let index := reindex slots.toArray (d.index.erase k) i
      some ⟨slots, d.values.eraseIdxIfInBounds i, index⟩
    | none => none
  | _ => none

/-- A dictionary of its own with the same keys and with each value replaced. -/
def withValues (d : Dictionary) (values : Array Value) : Dictionary :=
  { d with slots := .packed d.keys, values }

end Dictionary

end Pseudocode
