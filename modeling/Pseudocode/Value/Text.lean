import Pseudocode.Real.Display
import Pseudocode.Text.Escaped
import Pseudocode.Value.Heap
/-
# `Value.Text` — type names and display forms

The display forms that need no program code: a value's plain text, and its
representation as shown inside containers.  Methods that a class defines for
its own display are not consulted here.
-/
namespace Pseudocode.Heap

/-- The name of a value's type. -/
def typeName (h : Heap) : Value → String
  | .none => "None"
  | .bool _ => "Bool"
  | .int _ => "Int"
  | .real _ => "Real"
  | .string _ => "String"
  | .array _ => "Array"
  | .dict _ => "Dictionary"
  | .recordType _ => "Record"
  | .record r => (h.recordType (h.record r).type).name
  | .classType _ => "Class"
  | .object r => (h.classType (h.object r).type).name
  | .subroutine _ => "Subroutine"
  | .builtin _ => "Builtin"
  | .library _ => "BuiltinModule"
  | .module _ _ => "Module"
  | .gap => ""

/-- The display form of everything that is not a container. -/
def leafText (h : Heap) : Value → String
  | .none => "None"
  | .bool b => if b then "True" else "False"
  | .int n => toString n
  | .real x => Real.display x
  | .string s => s
  | .recordType r => s!"<record definition {(h.recordType r).name}>"
  | .record r => s!"<record object {(h.recordType (h.record r).type).name}>"
  | .classType r => s!"<class definition {(h.classType r).name}>"
  | .object r => s!"<class instance {(h.classType (h.object r).type).name}>"
  | .subroutine s => s!"<subroutine {s.name}>"
  | .builtin b => s!"<builtin {b.name}>"
  | .library r => s!"<BuiltinModule '{(h.library r).name}'>"
  | .module name _ => s!"<module '{name}'>"
  | .array _ | .dict _ | .gap => ""

end Pseudocode.Heap

namespace Pseudocode

/-- Elements between square brackets. -/
def bracketed (parts : List String) : String := "[" ++ ", ".intercalate parts ++ "]"

/-- Entries between braces. -/
def braced (parts : List String) : String := "\x7b" ++ ", ".intercalate parts ++ "\x7d"

/-- A key and its value. -/
def entryText (key value : String) : String := key ++ ": " ++ value

namespace Heap

/-- The representation of a value, for containers nested less than `depth`. -/
def reprTo (h : Heap) : (depth : Nat) → Value → String
  | 0, v => h.leafText v
  | n + 1, v =>
    match v with
    | .string s => Text.quoted s
    | .array r => bracketed ((h.array r).toList.map (h.reprTo n))
    | .dict r =>
      braced ((h.dict r).toList.map fun (k, v) => entryText (h.reprTo n k) (h.reprTo n v))
    | v => h.leafText v

/-- The representation of a value: strings are quoted, containers show the
representations of what they hold. -/
def repr (h : Heap) (v : Value) : String := h.reprTo (h.containers + 2) v

/-- The display form of a value: strings are themselves. -/
def text (h : Heap) (v : Value) : String :=
  match v with
  | .string s => s
  | v => h.repr v

/-- The entries of a dictionary by the display forms of their keys. -/
def textEntries (h : Heap) (r : DictRef) : Table Value :=
  (h.dict r).toList.map fun (k, v) => (h.text k, v)

/-- Is a value taken for true?  `False`, `None`, zeros, the empty string and
empty containers are not. -/
def truthy (h : Heap) : Value → Bool
  | .none => false
  | .bool b => b
  | .int n => n != 0
  | .real x => x != 0
  | .string s => s != ""
  | .array r => (h.slots r).size != 0
  | .dict r => (h.dict r).size != 0
  | _ => true

end Heap

end Pseudocode
