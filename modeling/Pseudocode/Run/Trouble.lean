import Pseudocode.Grammar.Program
/-
# `Run.Trouble` — what can go wrong while a program runs

Operations that know no place report a `Trouble`: a code and a sentence.  Where
they are used it becomes a `Fault` at a span, with the name and the line of the
text that was executing.  A fault may have a cause, another fault.
-/
namespace Pseudocode

/-- The kinds of runtime errors. -/
inductive Code where
  | name | arity | notCallable | type | index | zeroDivision | moduleMissing | importFailed
  | circular | constant | recursion | value | native | endOfInput
deriving Repr, DecidableEq

/-- The printed form of a code. -/
def Code.text : Code → String
  | name => "E3001"
  | arity => "E3002"
  | notCallable => "E3003"
  | type => "E3004"
  | index => "E3005"
  | zeroDivision => "E3006"
  | moduleMissing => "E3007"
  | importFailed => "E3008"
  | circular => "E3009"
  | constant => "E3010"
  | recursion => "E3011"
  | value => "E3012"
  | native => "E3013"
  | endOfInput => "E3014"

/-- A failed operation that has no place yet. -/
structure Trouble where
  code : Code
  message : String
deriving Repr, DecidableEq

namespace Trouble

/-- An operand of the wrong type. -/
def type (message : String) : Trouble := ⟨.type, message⟩

/-- A value out of range. -/
def value (message : String) : Trouble := ⟨.value, message⟩

/-- An index or a name that is not there. -/
def index (message : String) : Trouble := ⟨.index, message⟩

/-- A name that cannot be written to. -/
def constant (name : String) : Trouble :=
  ⟨.constant, s!"cannot assign to constant '{name}'"⟩

/-- A key that cannot be one. -/
def unhashable (typeName : String) : Trouble := .type s!"unhashable type: '{typeName}'"

/-- A call with a wrong number of arguments. -/
def arity (name wanted : String) (given : Nat) : Trouble :=
  let plural := if wanted = "1" then "" else "s"
  ⟨.arity, s!"{name}() expects {wanted} argument{plural}, got {given}"⟩

end Trouble

/-- How many arguments a builtin takes: at least so many, and at most so many if
there is a limit. -/
structure Arity where
  least : Int
  most : Option Int
deriving Repr, DecidableEq

namespace Arity

/-- Exactly `n` arguments. -/
def exactly (n : Nat) : Arity := ⟨n, some n⟩

/-- From `m` to `n` arguments. -/
def between (m n : Nat) : Arity := ⟨m, some n⟩

/-- `n` arguments or more. -/
def atLeast (n : Nat) : Arity := ⟨n, none⟩

/-- Does a number of arguments fit? -/
def fits (a : Arity) (n : Nat) : Bool :=
  a.least ≤ n && (a.most.map fun m => decide ((n : Int) ≤ m)).getD true

/-- The wanted number in words. -/
def text (a : Arity) : String :=
  match a.most with
  | none => s!"at least {a.least}"
  | some m =>
    if a.least = m then s!"{a.least}"
    else if m = a.least + 1 then s!"{a.least} or {m}"
    else s!"{a.least} to {m}"

/-- Checks the number of arguments of a call. -/
def check (a : Arity) (name : String) (n : Nat) : Except Trouble Unit :=
  if a.fits n then .ok () else .error (.arity name a.text n)

end Arity

/-- An error that ends a program unless it is caught. -/
inductive Fault where
  /-- A text that is no program. -/
  | source (error : SourceError)
  /-- An error at run time, and the error that led to it, if another did. -/
  | runtime (diagnostic : Diagnostic) (cause : Option Fault)
  /-- A module that is nowhere to be found, and where it was looked for. -/
  | moduleNotFound (diagnostic : Diagnostic) (name : String) (searched : List String)
  /-- A trouble that has no place yet. -/
  | unplaced (trouble : Trouble)
  /-- A failure outside the language, in words. -/
  | plain (message : String)

namespace Fault

/-- The text of a fault. -/
def text : Fault → String
  | source e => e.diagnostic.text
  | runtime d _ => d.text
  | moduleNotFound d _ _ => d.text
  | unplaced t => t.message
  | plain message => message

/-- Can a program catch this? -/
def catchable : Fault → Bool
  | runtime _ _ | moduleNotFound _ _ _ => true
  | _ => false

/-- Is this the error about modules that import each other? -/
def isCircular : Fault → Bool
  | runtime d _ | moduleNotFound d _ _ => d.code == Code.circular.text
  | _ => false

end Fault

/-- A diagnostic at a span of an executing text.  The line is shown when the
text is known. -/
def Diagnostic.inText (d : Diagnostic) (name text : String) : Diagnostic :=
  { (if text = "" then d else d.withSource text) with file := name }

end Pseudocode
