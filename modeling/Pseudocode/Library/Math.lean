import Pseudocode.Builtin.Basic
import Pseudocode.Real.Binary
/-
# `Library.Math` — the `math` module

Constants, real functions with their domains, rounding to whole numbers, and
divisors and factorials of whole numbers.
-/
namespace Pseudocode.Library.Math

open Builtins

/-! ## Real functions -/

/-- The ratio of a circle to its diameter. -/
def pi : Float := 3.141592653589793

/-- The base of the natural logarithm. -/
def euler : Float := 2.718281828459045

/-- The name of a function. -/
def realName : RealFunction → String
  | .sqrt => "sqrt"
  | .fabs => "fabs"
  | .exp => "exp"
  | .log2 => "log2"
  | .log10 => "log10"
  | .sin => "sin"
  | .cos => "cos"
  | .tan => "tan"
  | .asin => "asin"
  | .acos => "acos"
  | .atan => "atan"
  | .degrees => "degrees"
  | .radians => "radians"

/-- The value of a function. -/
def apply (f : RealFunction) (x : Float) : Float :=
  match f with
  | .sqrt => x.sqrt
  | .fabs => x.abs
  | .exp => x.exp
  | .log2 => x.log2
  | .log10 => x.log10
  | .sin => x.sin
  | .cos => x.cos
  | .tan => x.tan
  | .asin => x.asin
  | .acos => x.acos
  | .atan => x.atan
  | .degrees => x * 180 / pi
  | .radians => x * pi / 180

/-- Is the function defined at a number? -/
def inDomain (f : RealFunction) (x : Float) : Bool :=
  match f with
  | .sqrt => 0 ≤ x
  | .log2 | .log10 => 0 < x
  | .sin | .cos | .tan => !x.isInf
  | .asin | .acos => -1 ≤ x && x ≤ 1
  | _ => true

/-! ## Arguments -/

/-- An argument outside the domain of a function. -/
def domainError : Trouble := .value "math domain error"

/-- A real argument. -/
def realArg (fn : String) (v : Value) : Eval Float := do
  match v.number? with
  | some x => return x
  | none => Eval.fail (.type s!"{fn}() must be real number, not '{← typeName v}'")

/-- A whole-number argument. -/
def intArg (fn : String) (v : Value) : Eval Int := do
  match v.integral? with
  | some n => return n
  | none => Eval.fail (.type s!"{fn}() argument must be an integer, not '{← typeName v}'")

/-! ## Functions -/

/-- A function of one real. -/
def unary (f : RealFunction) (args : List Value) : Eval Value := do
  let name := realName f
  arity (.exactly 1) name args
  let x ← realArg name (arg args 0)
  if !x.isNaN && !inDomain f x then Eval.fail domainError
  return .real (apply f x)

/-- A function of two reals.  No number for two numbers is an error. -/
def binary (name : String) (f : Float → Float → Float) (args : List Value) : Eval Value := do
  arity (.exactly 2) name args
  let x ← realArg name (arg args 0)
  let y ← realArg name (arg args 1)
  let z := f x y
  if z.isNaN && !x.isNaN && !y.isNaN then Eval.fail domainError
  return .real z

/-- The whole number a rounded real is. -/
def roundedInt (x : Float) : Except Trouble Int :=
  if x.isNaN then .error (.value "cannot convert float NaN to integer")
  else
    match (Real.toInt? x).filter Value.inRange with
    | some n => .ok n
    | none => .error (.value "cannot convert float infinity to integer")

/-- A rounding to a whole number, which integers already are. -/
def rounding (name : String) (f : Float → Float) (args : List Value) : Eval Value := do
  arity (.exactly 1) name args
  match arg args 0 with
  | .int n => return .int n
  | v =>
    let x ← realArg name v
    return .int (← Eval.ofExcept (roundedInt (f x)))

/-- A question about one real. -/
def question (name : String) (p : Float → Bool) (args : List Value) : Eval Value := do
  arity (.exactly 1) name args
  return .bool (p (← realArg name (arg args 0)))

/-- The natural logarithm, or the one to a base. -/
def log (args : List Value) : Eval Value := do
  arity (.between 1 2) "log" args
  let x ← realArg "log" (arg args 0)
  if x ≤ 0 then Eval.fail domainError
  match args with
  | [_, b] =>
    let base ← realArg "log" b
    if base ≤ 0 || base == 1 then Eval.fail domainError
    return .real (x.log / base.log)
  | _ => return .real x.log

/-- The greatest common divisor of two integers. -/
def gcd (args : List Value) : Eval Value := do
  arity (.exactly 2) "gcd" args
  let a ← intArg "gcd" (arg args 0)
  let b ← intArg "gcd" (arg args 1)
  return .int (Word.gcd (.ofInt a) (.ofInt b)).toInt

/-- The product of the numbers from 1 to `n`. -/
def product : Nat → Nat
  | 0 => 1
  | n + 1 => (n + 1) * product n

/-- The factorial of an integer. -/
def factorial (args : List Value) : Eval Value := do
  arity (.exactly 1) "factorial" args
  let n ← intArg "factorial" (arg args 0)
  if n < 0 then Eval.fail (.value "factorial() not defined for negative values")
  if 20 < n then Eval.fail (.value "factorial() result does not fit in an Int")
  return .int (product n.toNat)

/-! ## The module -/

/-- Carries out a function of the module. -/
def call (f : MathFunction) (args : List Value) : Eval Value :=
  match f with
  | .unary f => unary f args
  | .floor => rounding "floor" Float.floor args
  | .ceil => rounding "ceil" Float.ceil args
  | .pow => binary "pow" Float.pow args
  | .atan2 => binary "atan2" Float.atan2 args
  | .hypot => binary "hypot" Real.hypot args
  | .log => log args
  | .gcd => gcd args
  | .factorial => factorial args
  | .isnan => question "isnan" Float.isNaN args
  | .isinf => question "isinf" Float.isInf args

/-- The functions of one real. -/
def realFunctions : List RealFunction :=
  [.sqrt, .fabs, .exp, .log2, .log10, .sin, .cos, .tan, .asin, .acos, .atan, .degrees, .radians]

/-- The members of the module. -/
def members : List (String × Member) :=
  ([("e", .value (.real euler)), ("pi", .value (.real pi)), ("tau", .value (.real (2 * pi))),
    ("nan", .value (.real (0.0 / 0.0))), ("inf", .value (.real (1.0 / 0.0)))] : List (String × Member))
  ++ realFunctions.map (fun f => (realName f, .function (.math (.unary f))))
  ++ ([("floor", .function (.math .floor)), ("ceil", .function (.math .ceil)),
       ("pow", .function (.math .pow)), ("atan2", .function (.math .atan2)),
       ("hypot", .function (.math .hypot)), ("log", .function (.math .log)),
       ("gcd", .function (.math .gcd)), ("factorial", .function (.math .factorial)),
       ("isnan", .function (.math .isnan)), ("isinf", .function (.math .isinf))] : List (String × Member))

end Pseudocode.Library.Math
