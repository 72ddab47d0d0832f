import Pseudocode.Run.Call
import Pseudocode.Run.Display
import Pseudocode.Run.Import
import Pseudocode.Run.Native
import Pseudocode.Run.Stmt
/-
# `Run.Machine` — execution

`carryOut` does one task and hands its sub-tasks to a recursor; `run` is its own
recursor, with a bound on the depth of tasks and the rounds of loops.  An answer
does not depend on the bound: a larger one gives the same answer, or one where a
smaller one gave none.
-/
namespace Pseudocode.Run

/-- Carries out a task.  Loops make at most `n` rounds. -/
def carryOut (n : Nat) (r : Recursor) : Recursor := fun _ task =>
  match task with
  | .expr e => expr r e
  | .block b => stmts r (load r) n b.body
  | .call callee args span => call r (native r) callee args span
  | .str v => str r v
  | .repr v => repr r v

/-- Carries out a task within a bound. -/
def run : (bound : Nat) → Recursor
  | 0 => fun _ _ => Eval.outOfFuel
  | n + 1 => carryOut n (run n)

end Pseudocode.Run
