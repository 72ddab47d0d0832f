import Pseudocode.Builtin.Basic
import Pseudocode.Locale.Format
/-
# `Library.Locale` — the `locale` module

Numbers, percentages and amounts of money as a language writes them.
-/
namespace Pseudocode.Library.LocaleModule

open Builtins

/-- The language unless another one is given. -/
def defaultTag : String := "en"

/-- The locale that an optional argument names. -/
def localeArg (fn : String) (args : List Value) (i : Nat) : Eval Locale := do
  match args.getD i (.string defaultTag) with
  | .string tag =>
    match Locale.ofTag? tag with
    | some l => return l
    | none => Eval.fail (.value s!"{fn}() unknown locale '{tag}'")
  | v => Eval.fail (.type s!"{fn}() locale must be a String, not '{← typeName v}'")

/-- A number that is no boolean. -/
def numberArg (fn : String) (v : Value) : Eval Float := do
  match v with
  | .int n => return Real.ofInt n
  | .real x => return x
  | v => Eval.fail (.type s!"{fn}() expects an Int or Real, not '{← typeName v}'")

/-- A function that writes a number. -/
def writer (fn : String) (write : Locale → Float → String) (args : List Value) :
    Eval Value := do
  arity (.between 1 2) fn args
  let x ← numberArg fn (arg args 0)
  let l ← localeArg fn args 1
  return .string (write l x)

/-- A whole number in groups. -/
def formatInt (args : List Value) : Eval Value := do
  let fn := "format_int"
  arity (.between 1 2) fn args
  match arg args 0 with
  | .int n =>
    let l ← localeArg fn args 1
    return .string (l.integer n)
  | v => Eval.fail (.type s!"format_int() expects an Int, not '{← typeName v}'")

/-- The currency that an argument names. -/
def currencyArg (fn : String) (v : Value) : Eval Currency := do
  match v with
  | .string code =>
    match Currency.ofCode? code with
    | some c => return c
    | none => Eval.fail (.value s!"{fn}() invalid currency code '{code}'")
  | v => Eval.fail (.type s!"{fn}() currency code must be a String, not '{← typeName v}'")

/-- An amount of money. -/
def formatCurrency (args : List Value) : Eval Value := do
  let fn := "format_currency"
  arity (.between 2 3) fn args
  let x ← numberArg fn (arg args 0)
  let c ← currencyArg fn (arg args 1)
  let l ← localeArg fn args 2
  return .string (l.amount c x)

/-- Carries out a function of the module. -/
def call (f : LocaleFunction) (args : List Value) : Eval Value :=
  match f with
  | .formatNumber => writer "format_number" Locale.number args
  | .formatPercent => writer "format_percent" Locale.percentage args
  | .formatInt => formatInt args
  | .formatCurrency => formatCurrency args

/-- The members of the module. -/
def members : List (String × Member) :=
  [("DEFAULT", .value (.string defaultTag)),
   ("format_number", .function (.locale .formatNumber)),
   ("format_percent", .function (.locale .formatPercent)),
   ("format_int", .function (.locale .formatInt)),
   ("format_currency", .function (.locale .formatCurrency))]

end Pseudocode.Library.LocaleModule
