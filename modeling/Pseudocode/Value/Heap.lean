import Pseudocode.Value.Dictionary
import Pseudocode.Value.Table
/-
# `Value.Heap` — everything that can change

One store per kind of cell.  New cells are added at the end and none is ever
removed, so a reference keeps its meaning for good.
-/
namespace Pseudocode

/-- A record definition. -/
structure RecordType where
  name : String
  fields : List String
deriving Inhabited

/-- A record built from a definition. -/
structure Record where
  type : RecordTypeRef
  fields : Table Value
deriving Inhabited

/-- A class: its static values and its methods. -/
structure Class where
  name : String
  props : Table Value
deriving Inhabited

/-- An instance of a class. -/
structure Object where
  type : ClassRef
  props : Table Value
deriving Inhabited

/-- A module of builtin members. -/
structure Library where
  name : String
  members : Table Value
deriving Inhabited

/-- A scope.  The root scope of a program has no parent; a call gets a child of
the scope its subroutine was defined in. -/
structure Scope where
  name : String
  bindings : Table Value
  /-- The names declared constant in this scope. -/
  constants : List String
  parent : Option ScopeRef
  /-- Who is told about writes to this scope. -/
  observer : Option String
deriving Inhabited

/-- The stores. -/
structure Heap where
  arrays : Array Slots
  dicts : Array Dictionary
  recordTypes : Array RecordType
  records : Array Record
  classes : Array Class
  objects : Array Object
  libraries : Array Library
  scopes : Array Scope

namespace Heap

/-- Nothing allocated. -/
def empty : Heap := ⟨#[], #[], #[], #[], #[], #[], #[], #[]⟩

instance : Inhabited Heap := ⟨empty⟩

/-! ## Looking up -/

/-- The slots of an array. -/
def slots (h : Heap) (r : ArrayRef) : Slots := h.arrays.getD r.index .empty

/-- The elements of an array. -/
def array (h : Heap) (r : ArrayRef) : Array Value := (h.slots r).toArray

/-- A dictionary. -/
def dict (h : Heap) (r : DictRef) : Dictionary := h.dicts.getD r.index .empty

/-- A record definition. -/
def recordType (h : Heap) (r : RecordTypeRef) : RecordType := h.recordTypes.getD r.index default

/-- A record. -/
def record (h : Heap) (r : RecordRef) : Record := h.records.getD r.index default

/-- A class. -/
def classType (h : Heap) (r : ClassRef) : Class := h.classes.getD r.index default

/-- An instance. -/
def object (h : Heap) (r : ObjectRef) : Object := h.objects.getD r.index default

/-- A module of builtin members. -/
def library (h : Heap) (r : LibraryRef) : Library := h.libraries.getD r.index default

/-- A scope. -/
def scope (h : Heap) (r : ScopeRef) : Scope := h.scopes.getD r.index default

/-! ## Allocating -/

/-- A new array. -/
def newArray (elements : Array Value) (h : Heap) : Value × Heap :=
  (.array ⟨h.arrays.size⟩, { h with arrays := h.arrays.push (.ofArray elements) })

/-- A new dictionary. -/
def newDict (d : Dictionary) (h : Heap) : Value × Heap :=
  (.dict ⟨h.dicts.size⟩, { h with dicts := h.dicts.push d })

/-- A new record definition. -/
def newRecordType (t : RecordType) (h : Heap) : Value × Heap :=
  (.recordType ⟨h.recordTypes.size⟩, { h with recordTypes := h.recordTypes.push t })

/-- A new record. -/
def newRecord (r : Record) (h : Heap) : Value × Heap :=
  (.record ⟨h.records.size⟩, { h with records := h.records.push r })

/-- A new class. -/
def newClass (c : Class) (h : Heap) : ClassRef × Heap :=
  (⟨h.classes.size⟩, { h with classes := h.classes.push c })

/-- A new instance. -/
def newObject (o : Object) (h : Heap) : ObjectRef × Heap :=
  (⟨h.objects.size⟩, { h with objects := h.objects.push o })

/-- A new module of builtin members. -/
def newLibrary (l : Library) (h : Heap) : Value × Heap :=
  (.library ⟨h.libraries.size⟩, { h with libraries := h.libraries.push l })

/-- A new scope. -/
def newScope (s : Scope) (h : Heap) : ScopeRef × Heap :=
  (⟨h.scopes.size⟩, { h with scopes := h.scopes.push s })

/-! ## Changing in place -/

/-- Changes the elements of an array. -/
def modifyArray (r : ArrayRef) (f : Slots → Slots) (h : Heap) : Heap :=
  { h with arrays := h.arrays.modify r.index f }

/-- Changes a dictionary. -/
def modifyDict (r : DictRef) (f : Dictionary → Dictionary) (h : Heap) : Heap :=
  { h with dicts := h.dicts.modify r.index f }

/-- Changes a record. -/
def modifyRecord (r : RecordRef) (f : Record → Record) (h : Heap) : Heap :=
  { h with records := h.records.modify r.index f }

/-- Changes a class. -/
def modifyClass (r : ClassRef) (f : Class → Class) (h : Heap) : Heap :=
  { h with classes := h.classes.modify r.index f }

/-- Changes an instance. -/
def modifyObject (r : ObjectRef) (f : Object → Object) (h : Heap) : Heap :=
  { h with objects := h.objects.modify r.index f }

/-- Changes a scope. -/
def modifyScope (r : ScopeRef) (f : Scope → Scope) (h : Heap) : Heap :=
  { h with scopes := h.scopes.modify r.index f }

/-! ## Sizes -/

/-- The number of arrays and dictionaries.  Containers hold no cycles of their
own, so no nesting is deeper than this. -/
def containers (h : Heap) : Nat := h.arrays.size + h.dicts.size

/-- The number of cells that equality looks into. -/
def comparables (h : Heap) : Nat :=
  h.arrays.size + h.dicts.size + h.records.size + h.objects.size

end Heap

/-! ## Copying containers

Arrays and dictionaries have value semantics: storing one stores a copy.  A copy
has new arrays and dictionaries all the way down and the same values at the
leaves. -/

namespace Heap

/-- Copies containers nested less than `depth`. -/
def copyTo : (depth : Nat) → Value → StateM Heap Value
  | 0, v => pure v
  | n + 1, v => do
    match v with
    | .array r =>
      let elements ← ((← get).array r).mapM (copyTo n)
      modifyGet (newArray elements)
    | .dict r =>
      let d := (← get).dict r
      let values ← d.values.mapM (copyTo n)
      modifyGet (newDict (d.withValues values))
    | v => pure v

/-- A copy of a value, and the heap with it. -/
def copy (v : Value) : StateM Heap Value := do
  match v with
  | .array _ | .dict _ => copyTo ((← get).containers + 1) v
  | v => pure v

/-- Copies of several values, in order. -/
def copyAll (vs : Array Value) : StateM Heap (Array Value) := vs.mapM copy

/-- A table with copied values. -/
def copyTable (t : Table Value) : StateM Heap (Table Value) :=
  t.mapM fun (k, v) => do return (k, ← copy v)

end Heap

end Pseudocode
