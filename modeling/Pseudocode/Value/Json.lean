import Pseudocode.Datum.Json
import Pseudocode.Program.Parts
import Pseudocode.Value.Text
/-
# `Value.Json` — values as JSON data

Numbers, strings, booleans, `None`, arrays and dictionaries are data.  Any other
value shows the parts it is made of, and so does all that is inside it: there an
array is an object with its elements, `None` an object without fields, and a
dictionary keeps its entries to itself.

The parts of a value may lead back to it.  A descent goes on for a thousand
levels without care; from then on it stops at what it is already inside of.
-/
namespace Pseudocode

namespace Json

/-! ## Descents -/

/-- What a descent goes into and can come back to. -/
inductive Link where
  | array (r : ArrayRef)
  | elements (r : ArrayRef)
  | record (r : RecordRef)
  | fields (r : RecordRef)
  | classType (r : ClassRef)
  | statics (r : ClassRef)
  | object (r : ObjectRef)
  | properties (r : ObjectRef)
  /-- A subroutine: where it was defined, in which scope, and what it belongs to. -/
  | subroutine (unit : Nat) (offset : Int) (scope : ScopeRef) (this : Option Owner)
deriving DecidableEq

/-- The name of what the descent came back to. -/
def Link.name : Link → String
  | array _ => "*runtime.ArrayVal"
  | elements _ => "[]runtime.Value"
  | record _ => "*runtime.RecordInstance"
  | classType _ => "*runtime.ClassVal"
  | object _ => "*runtime.InstanceVal"
  | subroutine .. => "*runtime.SubroutineVal"
  | fields _ | statics _ | properties _ => "map[string]runtime.Value"

/-- The link of a subroutine. -/
def Link.ofSubroutine (s : Subroutine) : Link :=
  .subroutine s.origin.unit s.offset s.scope s.this

/-- The levels that are entered without a look at what is there. -/
def careless : Nat := 1000

/-- How deep a descent is, and what it is inside of beyond the first levels. -/
structure Trail where
  depth : Nat
  inside : List Link

namespace Trail

/-- At the top. -/
def top : Trail := ⟨0, []⟩

/-- One level deeper, in what nothing leads back to. -/
def deeper (t : Trail) : Trail := { t with depth := t.depth + 1 }

/-- One level deeper, in what is not to be entered again. -/
def enter (t : Trail) (l : Link) : Except Unsupported Trail :=
  if t.depth < careless then .ok t.deeper
  else if l ∈ t.inside then .error (.cycle l.name)
  else .ok ⟨t.depth + 1, l :: t.inside⟩

end Trail

/-- A number as data, if it can be written. -/
def number (x : Float) : Except Unsupported Datum :=
  match Real.jsonText? x with
  | some _ => .ok (.real x)
  | none => .error (.number x)

/-- Fields in ascending order of their names. -/
def fieldsWith (f : Value → Except Unsupported Datum) (t : Table Value) :
    Except Unsupported (List (String × Datum)) :=
  (Datum.sortFields t).mapM fun (k, v) => do return (k, ← f v)

/-- Names in order, or null if there are none. -/
def nameList (names : List String) : Datum := .listOrNull (names.map .text)

/-- The parts of a record definition. -/
def recordType (t : RecordType) : Datum :=
  .object [("Name", .text t.name), ("Fields", nameList t.fields)]

end Json

namespace Heap

open Json

/-! ## Values -/

/-- A value by its parts, for a descent of less than `fuel` values. -/
def partsTo (h : Heap) : (fuel : Nat) → Trail → Value → Except Unsupported Datum
  | 0, _, _ => .ok .null
  | n + 1, t, v => do
    match v with
    | .none | .dict _ => return .object []
    | .bool b => return .bool b
    | .int k => return .int k
    | .real x => number x
    | .string s => return .text s
    | .array r =>
      let t ← (← t.enter (.array r)).enter (.elements r)
      return .object [("Elements", .list (← (h.array r).toList.mapM (h.partsTo n t)))]
    | .recordType r => return Json.recordType (h.recordType r)
    | .record r =>
      let t ← (← t.enter (.record r)).enter (.fields r)
      let q := h.record r
      return .object
        [("Record", Json.recordType (h.recordType q.type)),
         ("Fields", .object (← fieldsWith (h.partsTo n t) q.fields))]
    | .classType r =>
      let t ← (← t.enter (.classType r)).enter (.statics r)
      let c := h.classType r
      return .object
        [("Name", .text c.name), ("Props", .object (← fieldsWith (h.partsTo n t) c.props)),
         ("Order", nameList c.props.names)]
    | .object r =>
      let t ← t.enter (.object r)
      let o := h.object r
      let type ← h.partsTo n t (.classType o.type)
      let t ← t.enter (.properties r)
      return .object
        [("Class", type), ("Props", .object (← fieldsWith (h.partsTo n t) o.props)),
         ("Order", nameList o.props.names)]
    | .subroutine s =>
      let t ← t.enter (.ofSubroutine s)
      let this ← match s.this with
        | some o => h.partsTo n t (.ofOwner o)
        | none => pure .null
      return .object
        [("Name", .text s.name), ("Params", .list (s.params.map .text)), ("Body", s.body.parts),
         ("Scope", .object []), ("This", this)]
    | .builtin _ => throw (.kind "runtime.NativeFunc")
    | .library r => return .object [("Name", .text (h.library r).name)]
    | .module name _ => return .object [("Name", .text name), ("Scope", .object [])]
    | .gap => return .null

/-- More values than a descent can go through: the first levels, and each cell
once, with a method of it before. -/
def descentFuel (h : Heap) : Nat :=
  careless + 2 * (h.arrays.size + h.records.size + h.classes.size + h.objects.size) + 2

/-- A value as data, for containers nested less than `depth`. -/
def dataTo (h : Heap) : (depth : Nat) → Trail → Value → Except Unsupported Datum
  | 0, _, _ => .ok .null
  | n + 1, t, v => do
    match v with
    | .none => return .null
    | .array r => return .list (← (h.array r).toList.mapM (h.dataTo n t.deeper))
    | .dict r => return .object (← fieldsWith (h.dataTo n t.deeper) (h.textEntries r))
    | v => h.partsTo h.descentFuel t v

/-- Named values as an object. -/
def toJson (h : Heap) (fields : Table Value) : Except Unsupported Datum := do
  return .object (← fieldsWith (h.dataTo (h.containers + 2) Trail.top.deeper) fields)

end Heap

end Pseudocode
