import Pseudocode.Program.Stmt
import Pseudocode.Real.Binary
import Pseudocode.Real.Reading
import Pseudocode.Value.Native
/-
# `Value.Basic` — the values of the language

Numbers, strings, booleans and `None` are immediate; everything that can be
changed in place or that has an identity of its own is a reference into the
heap.  Integers are 64-bit: every operation that makes one keeps it within
`Value.minInt` and `Value.maxInt` or fails.
-/
namespace Pseudocode

/-- The text being executed: which source unit it is, the name it is reported
under, and the text itself. -/
structure Origin where
  /-- Every text that is run gets a number of its own. -/
  unit : Nat
  name : String
  text : String
deriving Repr, DecidableEq, Inhabited

/-- A subroutine together with the scope that was current when its definition
ran. -/
structure Subroutine where
  name : String
  params : List String
  body : Block
  scope : ScopeRef
  /-- The class or instance a method belongs to. -/
  this : Option Owner
  origin : Origin
  /-- Where in its source unit the definition starts. -/
  offset : Int

/-- A value. -/
inductive Value where
  | none
  | bool (b : Bool)
  | int (n : Int)
  | real (x : Float)
  | string (s : String)
  | array (r : ArrayRef)
  | dict (r : DictRef)
  | recordType (r : RecordTypeRef)
  | record (r : RecordRef)
  | classType (r : ClassRef)
  | object (r : ObjectRef)
  | subroutine (s : Subroutine)
  | builtin (b : Builtin)
  | library (r : LibraryRef)
  /-- An imported source module: its name and the scope it ran in. -/
  | module (name : String) (scope : ScopeRef)
  /-- What stands in a slot that has been added and not been written yet. -/
  | gap

instance : Inhabited Value := ⟨.none⟩

namespace Value

/-- The least integer. -/
def minInt : Int := -9223372036854775808

/-- The greatest integer. -/
def maxInt : Int := 9223372036854775807

/-- Is this an integer of the language? -/
def inRange (n : Int) : Bool := minInt ≤ n && n ≤ maxInt

/-- The value of `True` and `False` in arithmetic. -/
def ofBool (b : Bool) : Int := if b then 1 else 0

/-- What takes part in whole-number arithmetic: integers and booleans. -/
def integral? : Value → Option Int
  | int n => some n
  | bool b => some (ofBool b)
  | _ => Option.none

/-- The real a number stands for. -/
def number? : Value → Option Float
  | int n => some (Real.ofInt n)
  | real x => some x
  | bool b => some (if b then 1 else 0)
  | _ => Option.none

/-- Integers, booleans, and reals that are whole numbers within range. -/
def whole? : Value → Option Int
  | int n => some n
  | bool b => some (ofBool b)
  | real x => (Real.toInt? x).filter inRange
  | _ => Option.none

/-- The value a method belongs to. -/
def ofOwner : Owner → Value
  | .ofClass r => classType r
  | .ofObject r => object r

/-! ## Integers from digits -/

/-- A decimal integer with an optional sign, within range. -/
def readInt? (s : String) : Option Int :=
  let (negative, ds) := Real.splitSign s.toList
  if ds.isEmpty || !ds.all (fun c => '0' ≤ c && c ≤ '9') then Option.none
  else
    let n : Int := Real.digitsValue 10 ds
    (some (if negative then -n else n)).filter inRange

end Value

end Pseudocode
