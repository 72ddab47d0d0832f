import Pseudocode.Builtin.Core
import Pseudocode.Library.Crypto
import Pseudocode.Library.Locale
import Pseudocode.Library.Math
import Pseudocode.Library.Probe
import Pseudocode.Library.System
/-
# `Run.Interpreter` — new interpreters, and running a text on one

An interpreter starts with the builtin functions bound in its root scope.  They
are ordinary bindings: a program may bind their names anew.
-/
/-! ## Loading extension modules

Some extensions can be imported by every program, others only by runs that were
set up with them; the latter come first. -/

namespace Pseudocode.Extension

/-- The extensions every program can import, in the order of their names. -/
def registered : List Extension := [crypto, locale, math, system]

/-- The extension a name means. -/
def find? (setup : Setup) (name : String) : Option Extension :=
  (setup.extensions ++ registered).find? (·.name = name)

/-- The names of all extensions, in ascending order. -/
def names (setup : Setup) : List String :=
  ((registered ++ setup.extensions).map (·.name)).mergeSort (fun a b => decide (a ≤ b))

/-- Builds the module of an extension for the interpreter that executes. -/
def load (e : Extension) : Eval Value := do
  match e with
  | math => Library.build e.name Library.Math.members
  | system => Library.build e.name Library.SystemModule.members
  | crypto => Library.build e.name Library.CryptoModule.members
  | locale => Library.build e.name Library.LocaleModule.members
  | probe =>
    let counter ← Library.Probe.newCounter
    Library.build e.name (Library.Probe.members (← read).self counter)
  | broken => Eval.raise (.plain "no connection")

end Pseudocode.Extension

namespace Pseudocode.Run

/-- The functions of a table as members of a module. -/
def functions (table : List (String × Native)) : List (String × Member) :=
  table.map fun (name, action) => (name, .function action)

/-- Binds the entries of a table in a scope. -/
def bindAll (root : ScopeRef) : Table Value → Eval Unit
  | [] => return ()
  | (name, v) :: rest => do
    Eval.define root name v false
    bindAll root rest

/-- Binds the builtin functions in a root scope: the members of `BUILTINS`, that
module itself, and the conversions. -/
def install (home : InterpreterId) (root : ScopeRef) : Eval Unit := do
  let core ← Library.addMembers [] (functions (Builtins.subroutines home))
  bindAll root core
  let library ← Eval.onHeap (Heap.newLibrary ⟨"BUILTINS", core⟩)
  Eval.define root "BUILTINS" library false
  bindAll root (← Library.addMembers [] (functions (Builtins.conversions home)))

/-- Adds an interpreter with the builtin functions in a new root scope. -/
def newInterpreter (rootName dir name : String) (importing pending : List String) :
    Eval InterpreterId := do
  let root ← Eval.onHeap (Heap.rootScope rootName)
  let i : Interpreter :=
    { root, frame := ⟨root, default, 0⟩, dir, name, importing, pending }
  let id ← modifyGet fun w =>
    (⟨w.interpreters.size⟩, { w with interpreters := w.interpreters.push i })
  install id root
  return id

/-- A number for a new source unit. -/
def newUnit : Eval Nat := modifyGet fun w => (w.nextUnit, { w with nextUnit := w.nextUnit + 1 })

/-- Binds an extension in the root scope. -/
def bindExtension (name : String) : Eval Unit := do
  match Extension.find? (← read).setup name with
  | none => Eval.raise (.plain s!"preload {name}: no such extension module")
  | some e =>
    let v ← tryCatch e.load fun
      | .fault f => Eval.raise (.plain s!"preload {name}: {f.text}")
      | .outOfFuel => Eval.outOfFuel
    Eval.define (← Eval.self).root name v false

/-- Binds the extensions that are still pending, once. -/
def prepare : Eval Unit := do
  let names := (← Eval.self).pending
  Eval.changeSelf fun i => { i with pending := [] }
  names.forM bindExtension

/-- Runs a text in the root scope.  A signal that reaches the top ends it. -/
def runSource (r : Recursor) (source : String) : Eval Unit := do
  match parse source (← Eval.self).name with
  | .error e => Eval.raise (.source e)
  | .ok program =>
    let unit ← newUnit
    Eval.changeSelf fun i => { i with frame.origin := ⟨unit, i.name, source⟩ }
    prepare
    Eval.changeSelf fun i => { i with frame.scope := i.root }
    discard (r.block program)

end Pseudocode.Run
