import Pseudocode.Run.Task
import Pseudocode.Text.CaseMap
/-
# `Builtin.Basic` — arguments and modules of builtin functions

What the builtin functions share: checking the number of arguments, and taking
an argument of a wanted type.

A module is a table of values and functions.  It is built anew whenever it is
imported, so the functions of two imports are different values.
-/
namespace Pseudocode.Builtins

/-- Checks the number of arguments. -/
def arity (a : Arity) (name : String) (args : List Value) : Eval Unit :=
  Eval.ofExcept (a.check name args.length)

/-- The argument at a place; `None` if there is none. -/
def arg (args : List Value) (i : Nat) : Value := args.getD i .none

/-- The name of the type of a value. -/
def typeName (v : Value) : Eval String := Eval.inHeap (·.typeName v)

/-- A string argument. -/
def stringArg (fn : String) (v : Value) : Eval String := do
  match v with
  | .string s => return s
  | v => Eval.fail (.type s!"{fn}() argument must be a String, not '{← typeName v}'")

end Pseudocode.Builtins

namespace Pseudocode

/-- What a module offers under a name. -/
inductive Member where
  | value (v : Value)
  | function (action : Native)

namespace Library

/-- A member as a value.  A function knows the name it is offered under. -/
def memberValue (name : String) : Member → Eval Value
  | .value v => return v
  | .function action => Eval.newBuiltin name action

/-- Adds members to a table.  A name that comes twice keeps its place and takes
the later member. -/
def addMembers (t : Table Value) : List (String × Member) → Eval (Table Value)
  | [] => return t
  | (name, m) :: rest => do
    let v ← memberValue name m
    addMembers (t.put name v) rest

/-- Builds a module. -/
def build (name : String) (members : List (String × Member)) : Eval Value := do
  let t ← addMembers [] members
  Eval.onHeap (Heap.newLibrary ⟨name, t⟩)

end Library

end Pseudocode
