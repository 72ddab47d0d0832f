import Pseudocode.Builtin.Core
import Pseudocode.Library.Crypto
import Pseudocode.Library.Locale
import Pseudocode.Library.Math
import Pseudocode.Library.System
import Pseudocode.Library.Probe
/-
# `Run.Native` — carrying out builtin functions
-/
namespace Pseudocode.Run

open Builtins

variable (r : Recursor)

/-- Carries out a builtin function under the name it was called by. -/
def nativeCall (name : String) (args : List Value) : Native → Eval Value
  | .input home => input r home name args
  | .len => len name args
  | .position => Builtins.position name args
  | .substring => substring name args
  | .stringToInt => convert intOf name args
  | .stringToReal => convert realOf name args
  | .intToString | .realToString => convert plainText name args
  | .charToCode => charToCode name args
  | .codeToChar => codeToChar name args
  | .randomInt => randomInt name args
  | .sqrt => Builtins.sqrt name args
  | .toInt => convertOr (pure (.int 0)) intOf name args
  | .toReal => convertOr (pure (.real 0)) realOf name args
  | .toBool => convertOr (pure (.bool false)) boolOf name args
  | .toText home => convertOr (pure (.string "")) (textOf r home) name args
  | .toArray => convertOr (Eval.newArray []) (fun v => Eval.ofHeapOp (toArray v)) name args
  | .toDict => convertOr (Eval.newDict .empty) (fun v => Eval.ofHeapOp (toDict v)) name args
  | .arrayAppend a => arrayAppend a name args
  | .arrayPop a => arrayPop a name args
  | .arrayInsert a => arrayInsert a name args
  | .arrayLength a => arrayLength a name args
  | .dictKeys d => dictKeys d name args
  | .dictValues d => dictValues d name args
  | .dictHas d => dictHas d name args
  | .dictRemove d => dictRemove d name args
  | .dictLength d => dictLength d name args
  | .textLength s => textMethod (.int s.length) name args
  | .textUpper s => textMethod (.string (Text.upper s)) name args
  | .textLower s => textMethod (.string (Text.lower s)) name args
  | .math f => Library.Math.call f args
  | .system f => Library.SystemModule.call f args
  | .crypto f => Library.CryptoModule.call f args
  | .locale f => Library.LocaleModule.call f args
  | .probe f home counter => Library.Probe.call r f home counter args
  | .inert => return .none

/-- Carries out a builtin function. -/
def native (b : Builtin) (args : List Value) : Eval Value := nativeCall r b.name args b.action

end Pseudocode.Run
