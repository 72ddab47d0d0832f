import Pseudocode.Builtin.Basic
/-
# `Library.System` — the `system` module

The time of day, environment variables and the name of the platform.  All of
them are part of the setup of a run.
-/
/-! ## Times of day in words

The calendar date of a day counted from the start of 1970, by the rules of the
Gregorian calendar, and the written form of an instant. -/

namespace Pseudocode.Clock

/-- A calendar date. -/
structure Date where
  year : Int
  month : Nat
  day : Nat
deriving Repr, DecidableEq

/-- The date `days` days after 1 January 1970.  Years are counted from 1 March,
so that the leap day is the last day of its year; four hundred years have 146097
days. -/
def dateOfDays (days : Int) : Date :=
  let z := days + 719468
  let era := z / 146097
  let day := z % 146097
  let year := (day - day / 1460 + day / 36524 - day / 146096) / 365
  let dayOfYear := day - (365 * year + year / 4 - year / 100)
  let month := (5 * dayOfYear + 2) / 153
  let dayOfMonth := dayOfYear - (153 * month + 2) / 5 + 1
  let calendarMonth := if month < 10 then month + 3 else month - 9
  let calendarYear := year + era * 400 + (if calendarMonth ≤ 2 then 1 else 0)
  ⟨calendarYear, calendarMonth.toNat, dayOfMonth.toNat⟩

/-- A number in at least `width` digits. -/
def padded (width : Nat) (n : Nat) : String :=
  let ds := Nat.toDigits 10 n
  String.ofList (List.replicate (width - ds.length) '0' ++ ds)

/-- An instant in universal time, to the second below. -/
def timestamp (nanoseconds : Int) : String :=
  let seconds := nanoseconds / 1000000000
  let date := dateOfDays (seconds / 86400)
  let rest := (seconds % 86400).toNat
  let day := s!"{padded 4 date.year.toNat}-{padded 2 date.month}-{padded 2 date.day}"
  let time := s!"{padded 2 (rest / 3600)}:{padded 2 (rest / 60 % 60)}:{padded 2 (rest % 60)}"
  s!"{day}T{time}Z"

end Pseudocode.Clock

namespace Pseudocode.Library.SystemModule

open Builtins

/-- The name of the operating system. -/
def operatingSystem : String := "linux"

/-- The operating system and the processor. -/
def platform : String := operatingSystem ++ "/amd64"

/-- Seconds since the start of 1970. -/
def time (args : List Value) : Eval Value := do
  arity (.exactly 0) "time" args
  return .real (Real.ofInt (← read).setup.clock / 1e9)

/-- The time of day in words. -/
def now (args : List Value) : Eval Value := do
  arity (.exactly 0) "now" args
  return .string (Clock.timestamp (← read).setup.clock)

/-- An environment variable, or the second argument, or `None`. -/
def env (args : List Value) : Eval Value := do
  arity (.between 1 2) "env" args
  match arg args 0 with
  | .string name =>
    match (← read).setup.env.get? name with
    | some v => return .string v
    | none => return arg args 1
  | v => Eval.fail (.type s!"env() name must be a String, not '{← typeName v}'")

/-- The name of the platform. -/
def platformName (args : List Value) : Eval Value := do
  arity (.exactly 0) "platform" args
  return .string platform

/-- Checks a length of time to wait.  No time passes within a run. -/
def sleep (args : List Value) : Eval Value := do
  arity (.exactly 1) "sleep" args
  match (arg args 0).number? with
  | some x =>
    if x < 0 then Eval.fail (.value "sleep length must be non-negative")
    return .none
  | none =>
    Eval.fail (.type s!"sleep() argument must be a number, not '{← typeName (arg args 0)}'")

/-- Carries out a function of the module. -/
def call (f : SystemFunction) (args : List Value) : Eval Value :=
  match f with
  | .time => time args
  | .now => now args
  | .env => env args
  | .platform => platformName args
  | .sleep => sleep args

/-- The members of the module. -/
def members : List (String × Member) :=
  [("os", .value (.string operatingSystem)), ("time", .function (.system .time)),
   ("now", .function (.system .now)), ("env", .function (.system .env)),
   ("platform", .function (.system .platform)), ("sleep", .function (.system .sleep))]

end Pseudocode.Library.SystemModule
