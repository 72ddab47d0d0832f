import Pseudocode.Proofs.Input.Reads
import Pseudocode.Run.Native
/-
# `Proofs.Input.Native` — builtin functions can be followed

`INPUT` reads a line.  The other builtin functions read nothing themselves; `String` and
some functions of the probe call back into the program, which may.
-/
namespace Pseudocode

open Builtins

/-- Every task can be followed. -/
def Recursor.Traceable (r : Recursor) : Prop := ∀ (α : Type) (task : Task α), (r α task).Traceable

variable {r : Recursor} (name : String) (args : List Value)

/-! ## Arguments -/

theorem traceable_arity (a : Arity) : (arity a name args).Traceable := .ofExcept _

theorem traceable_typeName (v : Value) : (typeName v).Traceable := .inHeap _

theorem traceable_stringArg (fn : String) (v : Value) : (stringArg fn v).Traceable := by
  cases v with
  | string s => exact .pure s
  | _ => exact .bind (traceable_typeName _) fun _ => .fail _

/-- A function that checks the number of its arguments first. -/
theorem traceable_counted {α : Type} {f : Unit → Eval α} (a : Arity) (hf : ∀ u, (f u).Traceable) :
    (arity a name args >>= f).Traceable :=
  .bind (traceable_arity name args a) hf

/-! ## Texts and numbers -/

theorem traceable_input (hr : r.Traceable) (home : InterpreterId) :
    (input r home name args).Traceable := by
  refine traceable_counted name args _ fun _ => .on home ?_
  split
  · exact .bind (hr _ _) fun s => .bind (.write s) fun _ => .readLine _
  · exact .readLine _

theorem traceable_len : (len name args).Traceable := by
  refine traceable_counted name args _ fun _ => ?_
  split
  · exact .pure _
  · exact .bind (.inHeap _) fun _ => .pure _
  · exact .bind (.inHeap _) fun _ => .pure _
  · exact .bind (traceable_typeName _) fun _ => .fail _

theorem traceable_position : (Builtins.position name args).Traceable :=
  traceable_counted name args _ fun _ => .bind (traceable_stringArg _ _) fun _ =>
    .bind (traceable_stringArg _ _) fun _ => .pure _

theorem traceable_substring : (substring name args).Traceable := by
  refine traceable_counted name args _ fun _ => ?_
  split
  · exact .bind (traceable_stringArg _ _) fun _ => .pure _
  · exact .fail _

theorem traceable_charToCode : (charToCode name args).Traceable := by
  refine traceable_counted name args _ fun _ => .bind (traceable_stringArg _ _) fun s => ?_
  split
  · exact .pure _
  · exact .fail _

theorem traceable_codeToChar : (codeToChar name args).Traceable := by
  refine traceable_counted name args _ fun _ => ?_
  split
  · exact .guard (.fail _) fun _ => .pure _
  · exact .bind (traceable_typeName _) fun _ => .fail _

theorem traceable_randomInt : (randomInt name args).Traceable := by
  refine traceable_counted name args _ fun _ => ?_
  split
  · exact .guard (.fail _) fun _ => .bind (.still fun _ _ _ => rfl) fun _ => .pure _
  · exact .fail _

theorem traceable_sqrt : (Builtins.sqrt name args).Traceable := by
  refine traceable_counted name args _ fun _ => ?_
  split
  · exact .guard (.fail _) fun _ => .pure _
  · exact .bind (traceable_typeName _) fun _ => .fail _

/-! ## Conversions -/

theorem traceable_convert {f : Value → Eval Value} (hf : ∀ v, (f v).Traceable) :
    (convert f name args).Traceable :=
  traceable_counted name args _ fun _ => hf _

theorem traceable_convertOr {empty : Eval Value} {f : Value → Eval Value} (he : empty.Traceable)
    (hf : ∀ v, (f v).Traceable) : (convertOr empty f name args).Traceable := by
  refine traceable_counted name args _ fun _ => ?_
  split
  · exact he
  · exact hf _

theorem traceable_intOf (v : Value) : (intOf v).Traceable :=
  .bind (.inHeap _) fun n => .ofExcept n

theorem traceable_realOf (v : Value) : (realOf v).Traceable :=
  .bind (.inHeap _) fun x => .ofExcept x

theorem traceable_plainText (v : Value) : (plainText v).Traceable :=
  .bind (.inHeap _) fun _ => .pure _

theorem traceable_textOf (hr : r.Traceable) (home : InterpreterId) (v : Value) :
    (textOf r home v).Traceable :=
  .on home (.bind (hr _ _) fun _ => .pure _)

theorem traceable_boolOf (v : Value) : (boolOf v).Traceable := .bind (.inHeap _) fun _ => .pure _

/-! ## Methods -/

section Arrays

variable (a : ArrayRef)

theorem traceable_arrayAppend : (arrayAppend a name args).Traceable :=
  traceable_counted name args _ fun _ => .bind (.copy _) fun _ => .bind (.changeHeap _) fun _ => .pure _

theorem traceable_arrayPop : (arrayPop a name args).Traceable :=
  traceable_counted name args _ fun _ => .bind (.inHeap _) fun _ => .guard (.fail _) fun _ =>
    .bind (traceable_typeName _) fun _ => .bind (.ofExcept _) fun _ => .bind (.inHeap _) fun _ =>
      .bind (.changeHeap _) fun _ => .pure _

theorem traceable_arrayInsert : (arrayInsert a name args).Traceable := by
  refine traceable_counted name args _ fun _ => ?_
  split
  · exact .bind (traceable_typeName _) fun _ => .fail _
  · exact .bind (.inHeap _) fun _ => .bind (.changeHeap _) fun _ => .bind (.copy _) fun _ =>
      .bind (.changeHeap _) fun _ => .pure _

theorem traceable_arrayLength : (arrayLength a name args).Traceable :=
  traceable_counted name args _ fun _ => .bind (.inHeap _) fun _ => .pure _

end Arrays

section Dictionaries

variable (d : DictRef)

theorem traceable_dictKeys : (dictKeys d name args).Traceable :=
  traceable_counted name args _ fun _ => .bind (.inHeap _) fun _ => .newArray _

theorem traceable_dictValues : (dictValues d name args).Traceable :=
  traceable_counted name args _ fun _ => .bind (.inHeap _) fun _ => .bind (.mapM .copy _) fun _ =>
    .newArray _

theorem traceable_dictHas : (dictHas d name args).Traceable :=
  traceable_counted name args _ fun _ => .bind (.inHeap _) fun _ => .pure _

theorem traceable_dictRemove : (dictRemove d name args).Traceable := by
  refine traceable_counted name args _ fun _ => .bind (.inHeap _) fun dict => ?_
  dsimp only
  split
  · exact .bind (.changeHeap _) fun _ => .pure _
  · exact .bind (.inHeap _) fun _ => .fail _

theorem traceable_dictLength : (dictLength d name args).Traceable :=
  traceable_counted name args _ fun _ => .bind (.inHeap _) fun _ => .pure _

end Dictionaries

theorem traceable_textMethod (v : Value) : (textMethod v name args).Traceable :=
  traceable_counted name args _ fun _ => .pure v

/-! ## Libraries -/

namespace Library

section Math

open Math

theorem traceable_realArg (fn : String) (v : Value) : (realArg fn v).Traceable := by
  unfold realArg
  split
  · exact .pure _
  · exact .bind (traceable_typeName _) fun _ => .fail _

theorem traceable_intArg (fn : String) (v : Value) : (intArg fn v).Traceable := by
  unfold intArg
  split
  · exact .pure _
  · exact .bind (traceable_typeName _) fun _ => .fail _

theorem traceable_unary (f : RealFunction) : (unary f args).Traceable :=
  traceable_counted _ args _ fun _ => .bind (traceable_realArg _ _) fun _ =>
    .guard (.fail _) fun _ => .pure _

theorem traceable_binary (f : Float → Float → Float) : (binary name f args).Traceable :=
  traceable_counted name args _ fun _ => .bind (traceable_realArg _ _) fun _ =>
    .bind (traceable_realArg _ _) fun _ => .guard (.fail _) fun _ => .pure _

theorem traceable_rounding (f : Float → Float) : (rounding name f args).Traceable := by
  refine traceable_counted name args _ fun _ => ?_
  split
  · exact .pure _
  · exact .bind (traceable_realArg _ _) fun _ => .bind (.ofExcept _) fun _ => .pure _

theorem traceable_question (p : Float → Bool) : (question name p args).Traceable :=
  traceable_counted name args _ fun _ => .bind (traceable_realArg _ _) fun _ => .pure _

theorem traceable_log : (log args).Traceable := by
  refine traceable_counted _ args _ fun _ => .bind (traceable_realArg _ _) fun x =>
    .guard (.fail _) fun _ => ?_
  split
  · exact .bind (traceable_realArg _ _) fun _ => .guard (.fail _) fun _ => .pure _
  · exact .pure _

theorem traceable_gcd : (gcd args).Traceable :=
  traceable_counted _ args _ fun _ => .bind (traceable_intArg _ _) fun _ =>
    .bind (traceable_intArg _ _) fun _ => .pure _

theorem traceable_factorial : (factorial args).Traceable :=
  traceable_counted _ args _ fun _ => .bind (traceable_intArg _ _) fun _ =>
    .guard (.fail _) fun _ => .guard (.fail _) fun _ => .pure _

theorem traceable_math (f : MathFunction) : (Math.call f args).Traceable := by
  cases f with
  | unary f => exact traceable_unary args f
  | floor | ceil => exact traceable_rounding _ args _
  | pow | atan2 | hypot => exact traceable_binary _ args _
  | log => exact traceable_log args
  | gcd => exact traceable_gcd args
  | factorial => exact traceable_factorial args
  | isnan | isinf => exact traceable_question _ args _

end Math

section System

theorem traceable_system (f : SystemFunction) : (SystemModule.call f args).Traceable := by
  cases f with
  | time | now =>
    exact traceable_counted _ args _ fun _ => .bind .read fun _ => .pure _
  | platform => exact traceable_counted _ args _ fun _ => .pure _
  | env =>
    refine traceable_counted _ args _ fun _ => ?_
    split
    · refine .bind .read fun env => ?_
      split
      · exact .pure _
      · exact .pure _
    · exact .bind (traceable_typeName _) fun _ => .fail _
  | sleep =>
    refine traceable_counted _ args _ fun _ => ?_
    split
    · exact .guard (.fail _) fun _ => .pure _
    · exact .bind (traceable_typeName _) fun _ => .fail _

end System

section Crypto

open CryptoModule

theorem traceable_text (fn : String) (i : Nat) : (text fn args i).Traceable := by
  unfold text
  split
  · exact .pure _
  · exact .bind (traceable_typeName _) fun _ => .fail _

theorem traceable_hashPassword : (hashPassword args).Traceable := by
  refine traceable_counted _ args _ fun _ => .bind (traceable_text args _ _) fun _ => ?_
  split
  · exact .fail _
  · exact .guard (.fail _) fun _ => .bind (.still fun _ _ _ => rfl) fun _ => .pure _

theorem traceable_verifyPassword : (verifyPassword args).Traceable := by
  refine traceable_counted _ args _ fun _ => .bind (traceable_text args _ _) fun _ =>
    .bind (traceable_text args _ _) fun _ => ?_
  split
  · exact .pure _
  · exact .fail _

theorem traceable_claimsArg (v : Value) : (claimsArg v).Traceable := by
  cases v with
  | dict d => exact .bind (.inHeap _) fun _ => .pure _
  | _ => exact .bind (traceable_typeName _) fun _ => .fail _

theorem traceable_withLifetime (claims : Table Value) : (withLifetime args claims).Traceable := by
  unfold withLifetime
  split
  · exact .bind .read fun _ => .pure _
  · exact .fail _
  · exact .pure _

theorem traceable_signToken : (signToken args).Traceable := by
  refine traceable_counted _ args _ fun _ => .bind (traceable_claimsArg _) fun _ =>
    .bind (traceable_text args _ _) fun _ => .bind (traceable_withLifetime args _) fun _ =>
      .bind (.inHeap _) fun _ => ?_
  split
  · exact .pure _
  · exact .raise _

theorem traceable_verifyToken : (verifyToken args).Traceable := by
  refine traceable_counted _ args _ fun _ => .bind (traceable_text args _ _) fun _ =>
    .bind (traceable_text args _ _) fun _ => .bind .read fun _ => ?_
  split
  · exact .onHeap _
  · exact .pure _

theorem traceable_crypto (f : CryptoFunction) : (CryptoModule.call f args).Traceable := by
  cases f with
  | hashPassword => exact traceable_hashPassword args
  | verifyPassword => exact traceable_verifyPassword args
  | signToken => exact traceable_signToken args
  | verifyToken => exact traceable_verifyToken args
  | sha256 =>
    exact traceable_counted _ args _ fun _ => .bind (traceable_text args _ _) fun _ => .pure _

end Crypto

section Locale

open LocaleModule

theorem traceable_localeArg (fn : String) (i : Nat) : (localeArg fn args i).Traceable := by
  unfold localeArg
  split
  · split
    · exact .pure _
    · exact .fail _
  · exact .bind (traceable_typeName _) fun _ => .fail _

theorem traceable_numberArg (fn : String) (v : Value) : (numberArg fn v).Traceable := by
  cases v with
  | int n => exact .pure _
  | real x => exact .pure _
  | _ => exact .bind (traceable_typeName _) fun _ => .fail _

theorem traceable_currencyArg (fn : String) (v : Value) : (currencyArg fn v).Traceable := by
  unfold currencyArg
  split
  · split
    · exact .pure _
    · exact .fail _
  · exact .bind (traceable_typeName _) fun _ => .fail _

theorem traceable_writer (write : Locale → Float → String) : (writer name write args).Traceable :=
  traceable_counted name args _ fun _ => .bind (traceable_numberArg _ _) fun _ =>
    .bind (traceable_localeArg args _ _) fun _ => .pure _

theorem traceable_formatInt : (formatInt args).Traceable := by
  refine traceable_counted _ args _ fun _ => ?_
  split
  · exact .bind (traceable_localeArg args _ _) fun _ => .pure _
  · exact .bind (traceable_typeName _) fun _ => .fail _

theorem traceable_formatCurrency : (formatCurrency args).Traceable :=
  traceable_counted _ args _ fun _ => .bind (traceable_numberArg _ _) fun _ =>
    .bind (traceable_currencyArg _ _) fun _ => .bind (traceable_localeArg args _ _) fun _ => .pure _

theorem traceable_locale (f : LocaleFunction) : (LocaleModule.call f args).Traceable := by
  cases f with
  | formatNumber | formatPercent => exact traceable_writer _ args _
  | formatInt => exact traceable_formatInt args
  | formatCurrency => exact traceable_formatCurrency args

end Locale

section Probe

open Probe

theorem traceable_dictOf (entries : List (String × Value)) : (dictOf entries).Traceable := .newDict _

theorem traceable_probe (hr : r.Traceable) (f : ProbeFunction) (home : InterpreterId)
    (counter : Nat) : (Probe.call r f home counter args).Traceable := by
  cases f with
  | count => exact .still fun _ _ _ => rfl
  | apply => exact traceable_counted _ args _ fun _ => .on home (hr _ _)
  | fail | bad => exact .raise _
  | wrapped => exact .fail _
  | mixed =>
    exact .bind (.newArray _) fun _ => .bind (.newArray _) fun _ => traceable_dictOf _
  | str | repr => exact .on home (.bind (hr _ _) fun _ => .pure _)
  | write => exact .bind (.inHeap _) fun s => .bind (.write s) fun _ => .pure _

end Probe

end Library

/-! ## Calling -/

theorem traceable_nativeCall (hr : r.Traceable) (action : Native) :
    (Run.nativeCall r name args action).Traceable := by
  cases action with
  | input home => exact traceable_input name args hr home
  | len => exact traceable_len name args
  | position => exact traceable_position name args
  | substring => exact traceable_substring name args
  | stringToInt => exact traceable_convert name args traceable_intOf
  | stringToReal => exact traceable_convert name args traceable_realOf
  | intToString | realToString => exact traceable_convert name args traceable_plainText
  | charToCode => exact traceable_charToCode name args
  | codeToChar => exact traceable_codeToChar name args
  | randomInt => exact traceable_randomInt name args
  | sqrt => exact traceable_sqrt name args
  | toInt => exact traceable_convertOr name args (.pure _) traceable_intOf
  | toReal => exact traceable_convertOr name args (.pure _) traceable_realOf
  | toBool => exact traceable_convertOr name args (.pure _) traceable_boolOf
  | toText home => exact traceable_convertOr name args (.pure _) (traceable_textOf hr home)
  | toArray => exact traceable_convertOr name args (.newArray []) fun v => .ofHeapOp (toArray v)
  | toDict => exact traceable_convertOr name args (.newDict .empty) fun v => .ofHeapOp (toDict v)
  | arrayAppend a => exact traceable_arrayAppend name args a
  | arrayPop a => exact traceable_arrayPop name args a
  | arrayInsert a => exact traceable_arrayInsert name args a
  | arrayLength a => exact traceable_arrayLength name args a
  | dictKeys d => exact traceable_dictKeys name args d
  | dictValues d => exact traceable_dictValues name args d
  | dictHas d => exact traceable_dictHas name args d
  | dictRemove d => exact traceable_dictRemove name args d
  | dictLength d => exact traceable_dictLength name args d
  | textLength | textUpper | textLower => exact traceable_textMethod name args _
  | math f => exact Library.traceable_math args f
  | system f => exact Library.traceable_system args f
  | crypto f => exact Library.traceable_crypto args f
  | locale f => exact Library.traceable_locale args f
  | probe f home counter => exact Library.traceable_probe args hr f home counter
  | inert => exact .pure _

end Pseudocode
