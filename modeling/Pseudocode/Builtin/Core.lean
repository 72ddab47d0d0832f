import Pseudocode.Builtin.Container
import Pseudocode.Builtin.Random
import Pseudocode.Text.Bytes
/-
# `Builtin.Core` — the functions every program starts with
-/
namespace Pseudocode.Builtins

variable (r : Recursor)

/-! ## Input -/

/-- Reads a line, after writing a prompt if one is given. -/
def input (home : InterpreterId) (name : String) (args : List Value) : Eval Value := do
  arity (.between 0 1) name args
  Eval.on home do
    if let [prompt] := args then Eval.write (← r.str prompt)
    Eval.readLine .nowhere

/-! ## Strings -/

/-- The number of characters, elements or entries. -/
def len (name : String) (args : List Value) : Eval Value := do
  arity (.exactly 1) name args
  match arg args 0 with
  | .string s => return .int s.length
  | .array a => return .int (← Eval.inHeap fun h => (h.slots a).size)
  | .dict d => return .int (← Eval.inHeap (·.dict d)).size
  | v => Eval.fail (.type s!"object of type '{← typeName v}' has no len()")

section Search

variable {α : Type} [DecidableEq α]

/-- Does a list start with another? -/
def startsWith : List α → List α → Bool
  | _, [] => true
  | [], _ :: _ => false
  | c :: cs, d :: ds => c = d && startsWith cs ds

/-- The place of the first occurrence of one list in another, counted from `i`. -/
def occurrence? (i : Nat) (sub : List α) : List α → Option Nat
  | [] => if sub.isEmpty then some i else none
  | c :: cs => if startsWith (c :: cs) sub then some i else occurrence? (i + 1) sub cs

end Search

/-- The place of the first occurrence of a text in another, or -1.  It is looked for among the
bytes, and the characters in front of it are counted. -/
def indexOf (s sub : String) : Int :=
  match occurrence? 0 (Text.bytes sub) (Text.bytes s) with
  | some p => Text.charCount 0 ((Text.bytes s).take p)
  | none => -1

/-- The place of the first occurrence of a text in another, or -1. -/
def position (name : String) (args : List Value) : Eval Value := do
  arity (.exactly 2) name args
  let s ← stringArg name (arg args 0)
  let sub ← stringArg name (arg args 1)
  return .int (indexOf s sub)

/-- A bound of a slice: negative ones count from the end, and all are kept within
the sequence. -/
def sliceBound (length : Nat) (n : Int) : Nat :=
  let n := if n < 0 then n + length else n
  min n.toNat length

/-- The integer after `n`; after the greatest comes the least. -/
def wrapSucc (n : Int) : Int := if n = Value.maxInt then Value.minInt else n + 1

/-- The characters from one place up to and including another. -/
def slice (cs : List Char) (first last : Int) : List Char :=
  let start := sliceBound cs.length first
  let stop := sliceBound cs.length (wrapSucc last)
  (cs.drop start).take (stop - start)

/-- The part of a text between two places. -/
def substring (name : String) (args : List Value) : Eval Value := do
  arity (.exactly 3) name args
  match arg args 0, arg args 1 with
  | .int first, .int last =>
    let s ← stringArg name (arg args 2)
    return .string (String.ofList (slice s.toList first last))
  | _, _ => Eval.fail (.type "SUBSTRING() positions must be integers")

/-- The code point of a character. -/
def charToCode (name : String) (args : List Value) : Eval Value := do
  arity (.exactly 1) name args
  let s ← stringArg name (arg args 0)
  match s.toList with
  | [c] => return .int c.toNat
  | cs =>
    Eval.fail
      (.type s!"CHAR_TO_CODE() expected a character, but string of length {cs.length} found")

/-- The character of a code point.  The codes of surrogates, which are no
characters, give the replacement character. -/
def charOfCode (n : Nat) : Char := if n.isValidChar then Char.ofNat n else '\uFFFD'

/-- The character of a code point, as a string. -/
def codeToChar (name : String) (args : List Value) : Eval Value := do
  arity (.exactly 1) name args
  match arg args 0 with
  | .int n =>
    if n < 0 || 0x10FFFF < n then
      Eval.fail (.value "CODE_TO_CHAR() arg not in range(0x110000)")
    return .string (String.ofList [charOfCode n.toNat])
  | v =>
    Eval.fail (.type s!"CODE_TO_CHAR() argument must be an integer, not '{← typeName v}'")

/-! ## Numbers -/

/-- A random integer between two bounds. -/
def randomInt (name : String) (args : List Value) : Eval Value := do
  arity (.exactly 2) name args
  match arg args 0, arg args 1 with
  | .int low, .int high =>
    if high < low then
      Eval.fail (.value s!"empty range for RANDOM_INT({low}, {high})")
    let n ← modifyGet fun w =>
      let (n, random) := w.random.inRange low high
      (n, { w with random })
    return .int n
  | _, _ => Eval.fail (.type "RANDOM_INT() bounds must be integers")

/-- A square root. -/
def sqrt (name : String) (args : List Value) : Eval Value := do
  arity (.exactly 1) name args
  match (arg args 0).number? with
  | some x =>
    if x < 0 then Eval.fail (.value "math domain error")
    return .real x.sqrt
  | none => Eval.fail (.type s!"must be real number, not '{← typeName (arg args 0)}'")

/-! ## Conversions -/

/-- A conversion that needs its argument. -/
def convert (f : Value → Eval Value) (name : String) (args : List Value) : Eval Value := do
  arity (.exactly 1) name args
  f (arg args 0)

/-- A conversion that gives an empty value when it has no argument. -/
def convertOr (empty : Eval Value) (f : Value → Eval Value) (name : String)
    (args : List Value) : Eval Value := do
  arity (.between 0 1) name args
  match args with
  | [] => empty
  | v :: _ => f v

/-- An integer from a value. -/
def intOf (v : Value) : Eval Value := do Eval.ofExcept (← Eval.inHeap (toInt · v))

/-- A real from a value. -/
def realOf (v : Value) : Eval Value := do Eval.ofExcept (← Eval.inHeap (toReal · v))

/-- The plain text of a value. -/
def plainText (v : Value) : Eval Value := return .string (← Eval.inHeap (·.text v))

/-- A string from a value, displayed by the interpreter the function belongs to. -/
def textOf (home : InterpreterId) (v : Value) : Eval Value :=
  Eval.on home do return .string (← r.str v)

/-- Is a value taken for true? -/
def boolOf (v : Value) : Eval Value := return .bool (← Eval.inHeap (·.truthy v))

/-! ## The table -/

/-- The functions of the `BUILTINS` module, which are bound in every root scope. -/
def subroutines (home : InterpreterId) : List (String × Native) :=
  [("INPUT", .input home), ("LEN", .len), ("POSITION", .position), ("SUBSTRING", .substring),
   ("STRING_TO_INT", .stringToInt), ("STRING_TO_REAL", .stringToReal),
   ("INT_TO_STRING", .intToString), ("REAL_TO_STRING", .realToString),
   ("CHAR_TO_CODE", .charToCode), ("CODE_TO_CHAR", .codeToChar),
   ("RANDOM_INT", .randomInt), ("SQRT", .sqrt)]

/-- The conversions named after types, which are bound in every root scope. -/
def conversions (home : InterpreterId) : List (String × Native) :=
  [("Integer", .toInt), ("Int", .toInt), ("Real", .toReal), ("Bool", .toBool),
   ("String", .toText home), ("Array", .toArray), ("Dictionary", .toDict)]

end Pseudocode.Builtins
