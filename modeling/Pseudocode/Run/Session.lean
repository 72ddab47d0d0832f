import Pseudocode.Run.Machine
/-
# `Run.Session` — programs run one after another

A session is an interpreter that stays: each text runs in the scope that the
texts before it left behind, and the values of the root scope can be called,
displayed and compared from outside in between.
-/
namespace Pseudocode

namespace Session

/-- How a session is set up. -/
structure Options where
  setup : Setup
  input : String
  /-- The name its texts are reported under. -/
  name : String
  /-- The directory imports are resolved against. -/
  dir : String
  /-- The seed of the random numbers. -/
  seed : Int
  /-- The extensions bound before the first text runs. -/
  preload : List String
  /-- Who is told about writes to the root scope. -/
  observer : Option String
deriving Inhabited

/-- The limit on nested calls unless another one is set. -/
def Options.defaultDepth : Nat := 1000

/-- The limit on nested calls for a wish; only positive ones are granted. -/
def Options.depthFor (wish : Int) : Nat := if 0 < wish then wish.toNat else defaultDepth

end Session

/-- A session. -/
structure Session where
  setup : Setup
  world : World
  /-- The bindings every session starts with. -/
  builtins : Table Value

namespace Session

variable {α : Type}

/-- The interpreter of a session. -/
def main : InterpreterId := ⟨0⟩

/-- A bound that no run reaches. -/
def bound : Nat := 0x4000000000000000

/-- The rules of execution within that bound. -/
def machine : Recursor := Run.run bound

/-- The world before anything has happened. -/
def emptyWorld (input : String) (seed : Int) : World :=
  { heap := .empty, interpreters := #[], output := "", input := input.toList,
    random := .ofSeed seed, events := #[], nextBuiltin := 0, nextUnit := 1, counters := #[],
    salts := 0 }

/-- The root scope of a session. -/
def root (s : Session) : ScopeRef :=
  (s.world.interpreters.getD main.index default).root

/-- Performs an action. -/
def perform (s : Session) (act : Eval α) : Except Failure α × Session :=
  match act ⟨s.setup, main⟩ s.world with
  | .ok a w => (.ok a, { s with world := w })
  | .error e w => (.error e, { s with world := w })

/-- A new session.  The observer hears of nothing before it is complete. -/
def start (o : Options) : Session :=
  let blank : Session := ⟨o.setup, emptyWorld o.input o.seed, []⟩
  let (_, s) := blank.perform do
    discard (Run.newInterpreter "global" o.dir o.name [] o.preload)
    Eval.changeHeap (Heap.modifyScope (← Eval.self).root fun sc =>
      { sc with observer := o.observer })
  { s with builtins := (s.world.heap.scope s.root).bindings }

/-! ## Texts -/

/-- Runs a text. -/
def run (source : String) (s : Session) : Except Failure Unit × Session :=
  s.perform (Run.runSource machine source)

/-- Runs a file.  Unless they are known already, the file gives the session its
directory and its name. -/
def runFile (path : String) (s : Session) : Except Failure Unit × Session :=
  match s.setup.files.read path with
  | .error e => (.error (.fault (.plain s!"read {path}: {e}")), s)
  | .ok text => s.perform do
    Eval.changeSelf fun i =>
      { i with
        dir := if i.dir = "" then Path.directory path else i.dir
        name := if i.name = "" then path else i.name
        importing := [Path.absolute s.setup.files.working path] }
    Run.runSource machine text

/-! ## Values -/

/-- The value of a name in the root scope; `None` if it has none. -/
def get (s : Session) (name : String) : Value :=
  (s.world.heap.lookup? s.root name).getD .none

/-- Calls the value of a name.  The arguments are built in the heap first. -/
def call (name : String) (args : StateM Heap (List Value)) (s : Session) :
    Except Failure Value × Session :=
  s.perform do
    let args ← Eval.onHeap args.run
    machine.call (s.get name) args .nowhere

/-- The display form of the value of a name. -/
def str (name : String) (s : Session) : Except Failure String × Session :=
  s.perform (machine.str (s.get name))

/-- The representation of the value of a name. -/
def repr (name : String) (s : Session) : Except Failure String × Session :=
  s.perform (machine.repr (s.get name))

/-- Are the values of two names equal? -/
def equal (a b : String) (s : Session) : Bool := s.world.heap.equal (s.get a) (s.get b)

/-! ## Observing -/

/-- A binding as it is shown. -/
structure Binding where
  name : String
  type : String
  repr : String
  constant : Bool
deriving Repr, DecidableEq

/-- Is this the very same builtin value? -/
def sameBuiltin : Value → Value → Bool
  | .builtin a, .builtin b => a = b
  | .library a, .library b => a = b
  | _, _ => false

/-- Does a name still have the value it started with? -/
def untouched (s : Session) (name : String) : Bool :=
  match s.builtins.get? name with
  | some v => sameBuiltin v (s.get name) && !s.world.heap.isConstant s.root name
  | none => false

/-- The bindings of the root scope, without the builtin ones. -/
def bindings (s : Session) : List Binding :=
  let h := s.world.heap
  ((h.localNames s.root).filter (!s.untouched ·)).map fun name =>
    let v := s.get name
    ⟨name, h.typeName v, h.repr v, h.isConstant s.root name⟩

/-- What was written and observed since the last time, and the session with
nothing more to tell. -/
def drain (s : Session) : (String × List Event) × Session :=
  ((s.world.output, s.world.events.toList),
   { s with world := { s.world with output := "", events := #[] } })

end Session

end Pseudocode
