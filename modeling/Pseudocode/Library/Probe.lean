import Pseudocode.Builtin.Basic
/-
# `Library.Probe` — the `probe` module

Exercises what an extension can do: keep a counter of its own, call back into
the program that imported it, fail in several ways, and return nested data.
-/
namespace Pseudocode.Library.Probe

open Builtins

variable (r : Recursor)

/-- The next number of a counter. -/
def count (counter : Nat) : Eval Value := do
  modify fun w => { w with counters := w.counters.modify counter (· + 1) }
  return .int ((← get).counters.getD counter 0)

/-- Calls the first argument with the others. -/
def apply (home : InterpreterId) (args : List Value) : Eval Value := do
  arity (.atLeast 1) "apply" args
  Eval.on home (r.call (arg args 0) (args.drop 1) .nowhere)

/-- A dictionary of strings and values; the keys are its order. -/
def dictOf (entries : List (String × Value)) : Eval Value :=
  Eval.newDict (entries.foldl
    (fun d (k, v) => (d.insert? (.string k) v).getD d) Dictionary.empty)

/-- Nested data. -/
def mixed : Eval Value := do
  let a ← Eval.newArray [.string "x"]
  let b ← Eval.newArray [.int (-1), .int 2, .real 0.5, .none, .bool true]
  dictOf [("a", a), ("b", b)]

/-- Carries out a function of the module. -/
def call (f : ProbeFunction) (home : InterpreterId) (counter : Nat) (args : List Value) :
    Eval Value := do
  match f with
  | .count => count counter
  | .apply => apply r home args
  | .fail => Eval.raise (.plain "native failure")
  | .wrapped => Eval.fail (.value "inner")
  | .bad => Eval.raise (.plain "cannot convert Go value of type struct \x7b\x7d")
  | .mixed => mixed
  | .str => Eval.on home do return .string (← r.str (arg args 0))
  | .repr => Eval.on home do return .string (← r.repr (arg args 0))
  | .write =>
    Eval.write (← Eval.inHeap (·.text (arg args 0)))
    return .none

/-- The members of the module for the interpreter that imports it. -/
def members (home : InterpreterId) (counter : Nat) : List (String × Member) :=
  let f (p : ProbeFunction) : Member := .function (.probe p home counter)
  [("VERSION", .value (.string "0.9")), ("VERSION", .value (.string "1.0")),
   ("count", f .count), ("apply", f .apply), ("fail", f .fail), ("wrapped", f .wrapped),
   ("bad", f .bad), ("mixed", f .mixed), ("str", f .str), ("repr", f .repr),
   ("write", f .write)]

/-- Gives out a counter that starts at zero. -/
def newCounter : Eval Nat :=
  modifyGet fun w => (w.counters.size, { w with counters := w.counters.push 0 })

end Pseudocode.Library.Probe
