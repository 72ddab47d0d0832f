import Pseudocode.Files.Tree
import Pseudocode.Run.Trouble
import Pseudocode.Value.Scope
/-
# `Run.World` — what execution depends on and what it changes

`Setup` is fixed for a run.  `World` is everything that execution changes: the
heap, the output, the rest of the input, the random numbers still to come, and
the interpreters.  There is one interpreter for the program and one for every
module it imports; each has a root scope of its own and knows where it stands
(`Frame`).
-/
namespace Pseudocode

/-- The extension modules. -/
inductive Extension where
  | math | system | crypto | locale
  /-- Exercises what extensions can do. -/
  | probe
  /-- Cannot be loaded. -/
  | broken
deriving Repr, DecidableEq

/-- The name an extension is imported by. -/
def Extension.name : Extension → String
  | math => "math"
  | system => "system"
  | crypto => "crypto"
  | locale => "locale"
  | probe => "probe"
  | broken => "broken"

/-- What is fixed for a run. -/
structure Setup where
  /-- The limit on nested subroutine calls. -/
  maxDepth : Nat
  /-- The directories searched for modules. -/
  search : List String
  /-- Is the embedded library available? -/
  stdlib : Bool
  /-- Extensions for this run only. -/
  extensions : List Extension
  files : FileTree
  /-- The environment variables. -/
  env : Table String
  /-- The time of day, in nanoseconds since the start of 1970. -/
  clock : Int
deriving Inhabited

/-- Where an interpreter stands. -/
structure Frame where
  scope : ScopeRef
  origin : Origin
  /-- The number of subroutine calls in progress. -/
  depth : Nat
deriving Repr, DecidableEq, Inhabited

/-- An interpreter. -/
structure Interpreter where
  root : ScopeRef
  frame : Frame
  /-- The directory imports are resolved against first; empty for the working
  directory. -/
  dir : String
  /-- The name its source is reported under. -/
  name : String
  /-- The modules being imported, outermost first. -/
  importing : List String
  /-- Extensions to be bound before the first program runs. -/
  pending : List String
deriving Inhabited

/-- The state of the generator of random numbers, 128 bits in two halves. -/
structure Random where
  high : UInt64
  low : UInt64
deriving Repr, DecidableEq, Inhabited

/-- Everything execution changes. -/
structure World where
  heap : Heap
  interpreters : Array Interpreter
  output : String
  /-- The input that has not been read yet. -/
  input : List Char
  random : Random
  /-- The writes observers were told about. -/
  events : Array Event
  /-- The number the next builtin value gets. -/
  nextBuiltin : Nat
  /-- The number the next source unit gets. -/
  nextUnit : Nat
  /-- The counters of the probe modules. -/
  counters : Array Nat
  /-- The number of salts drawn for passwords. -/
  salts : Nat
deriving Inhabited

/-- Why execution stops short of an answer. -/
inductive Failure where
  | fault (f : Fault)
  /-- The bound on the number of steps is used up. -/
  | outOfFuel

/-- What execution reads: the setup and the interpreter that executes. -/
structure Env where
  setup : Setup
  self : InterpreterId

/-- Execution. -/
abbrev Eval (α : Type) := ReaderT Env (EStateM Failure World) α

/-- How a statement ends. -/
inductive Flow where
  | normal
  | returned (v : Value)
  | broke
  | continued

end Pseudocode
