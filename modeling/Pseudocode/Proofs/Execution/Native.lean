import Pseudocode.Proofs.Execution.Statement
import Pseudocode.Run.Native
/-
# `Proofs.Execution.Native` — builtin functions are safe

Builtin functions may fail in any way, so nothing is asked of their faults; the
call puts these in their place.  Most functions change nothing that matters, and
the methods of containers store copies.  Those that call back into a program do so
on the interpreter they belong to.
-/
namespace Pseudocode

open Builtins

variable {c : Context} {r r' : Recursor} {w : World}

/-! ## Arguments -/

theorem safe_arity (a : Arity) (name : String) (args : List Value) :
    Safe c w (arity a name args) (arity a name args) Context.Any AnyFault :=
  .ofExcept (fun _ _ => trivial) fun _ => trivial

theorem good_arg {args : List Value} (ha : c.AllGood w args) (i : Nat) : c.Good w (arg args i) := by
  intro hc
  rw [arg, List.getD_eq_getElem?_getD]
  exact Value.within_getD fun v hv => ha v (List.mem_of_getElem? hv) hc

theorem safe_stringArg (fn : String) (v : Value) :
    Safe c w (stringArg fn v) (stringArg fn v) Context.Any AnyFault := by
  cases v with
  | string s => exact .pure trivial
  | _ => exact .look rfl (.fail trivial)

/-! ## Texts and numbers -/

theorem safe_input (hr : Carries c r r') {home : InterpreterId}
    (hh : c.checked → home.index < w.interpreters.size) (name : String) {args : List Value}
    (ha : c.AllGood w args) :
    Safe c w (input r home name args) (input r' home name args) c.Good AnyFault := by
  refine (safe_arity _ name args).bind fun _ w₁ hrd h₁ _ =>
    .on (fun hc => Nat.lt_of_lt_of_le (hh hc) h₁.size) ?_
  have hline : ∀ w', Safe (c.on home) w' (Eval.readLine .nowhere) (Eval.readLine .nowhere) c.Good
      AnyFault := fun w' =>
    (safe_readLine (c := c.on home) .nowhere).mono (fun _ _ _ hv => hv) fun _ _ => trivial
  dsimp only
  split
  next prompt =>
    refine Safe.bind (V := Context.Any) ?_ fun s w₂ _ _ _ =>
      (safe_write s).bind fun _ w₃ _ _ _ => hline w₃
    exact ((hr.on home).str (h₁.good hrd (ha prompt List.mem_cons_self))).mono
      (fun _ _ _ _ => trivial) fun _ _ => trivial
  next => exact hline w₁

theorem safe_len (name : String) (args : List Value) :
    Safe c w (len name args) (len name args) c.Good AnyFault := by
  refine (safe_arity _ name args).bind fun _ w₁ _ _ _ => ?_
  split
  · exact .pure fun _ => trivial
  · exact .look rfl (.pure fun _ => trivial)
  · exact .look rfl (.pure fun _ => trivial)
  · exact .look rfl (.fail trivial)

theorem safe_position (name : String) (args : List Value) :
    Safe c w (Builtins.position name args) (Builtins.position name args) c.Good AnyFault :=
  (safe_arity _ name args).bind fun _ _ _ _ _ => (safe_stringArg _ _).bind fun _ _ _ _ _ =>
    (safe_stringArg _ _).bind fun _ _ _ _ _ => .pure fun _ => trivial

theorem safe_substring (name : String) (args : List Value) :
    Safe c w (substring name args) (substring name args) c.Good AnyFault := by
  refine (safe_arity _ name args).bind fun _ w₁ _ _ _ => ?_
  split
  · exact (safe_stringArg _ _).bind fun _ _ _ _ _ => .pure fun _ => trivial
  · exact .fail trivial

theorem safe_charToCode (name : String) (args : List Value) :
    Safe c w (charToCode name args) (charToCode name args) c.Good AnyFault := by
  refine (safe_arity _ name args).bind fun _ _ _ _ _ => (safe_stringArg _ _).bind
    fun s w₂ _ _ _ => ?_
  split
  · exact .pure fun _ => trivial
  · exact .fail trivial

theorem safe_codeToChar (name : String) (args : List Value) :
    Safe c w (codeToChar name args) (codeToChar name args) c.Good AnyFault := by
  refine (safe_arity _ name args).bind fun _ w₁ _ _ _ => ?_
  split
  · dsimp only
    split
    · exact .fail_bind trivial
    · exact .pure fun _ => trivial
  · exact .look rfl (.fail trivial)

theorem safe_randomInt (name : String) (args : List Value) :
    Safe c w (randomInt name args) (randomInt name args) c.Good AnyFault := by
  refine (safe_arity _ name args).bind fun _ w₁ _ _ _ => ?_
  split
  next low high _ _ =>
    dsimp only
    split
    · exact .fail_bind trivial
    · have hdraw : (modifyGet fun w =>
            ((w.random.inRange low high).1, { w with random := (w.random.inRange low high).2 }) :
              Eval Int) c.env w₁ = .ok (w₁.random.inRange low high).1
                { w₁ with random := (w₁.random.inRange low high).2 } := rfl
      exact (Safe.step (V := Context.Any) hdraw (fun _ => .other rfl rfl) fun _ => trivial).bind
        fun _ _ _ _ _ => .pure fun _ => trivial
  · exact .fail trivial

theorem safe_sqrt (name : String) (args : List Value) :
    Safe c w (Builtins.sqrt name args) (Builtins.sqrt name args) c.Good AnyFault := by
  refine (safe_arity _ name args).bind fun _ w₁ _ _ _ => ?_
  split
  · dsimp only
    split
    · exact .fail_bind trivial
    · exact .pure fun _ => trivial
  · exact .look rfl (.fail trivial)

/-! ## Conversions -/

theorem safe_convert {f f' : Value → Eval Value} (name : String) {args : List Value}
    (ha : c.AllGood w args)
    (hf : ∀ v w', c.Ready w → w.Evolves c w' → c.Good w' v → Safe c w' (f v) (f' v) c.Good AnyFault) :
    Safe c w (convert f name args) (convert f' name args) c.Good AnyFault :=
  (safe_arity _ name args).bind fun _ w₁ hrd h₁ _ => hf _ w₁ hrd h₁ (h₁.good hrd (good_arg ha 0))

theorem safe_convertOr {empty : Eval Value} {f f' : Value → Eval Value} (name : String)
    {args : List Value} (ha : c.AllGood w args)
    (he : ∀ w', Safe c w' empty empty c.Good AnyFault)
    (hf : ∀ v w', c.Ready w → w.Evolves c w' → c.Good w' v → Safe c w' (f v) (f' v) c.Good AnyFault) :
    Safe c w (convertOr empty f name args) (convertOr empty f' name args) c.Good AnyFault := by
  refine (safe_arity _ name args).bind fun _ w₁ hrd h₁ _ => ?_
  cases args with
  | nil => exact he w₁
  | cons v vs => exact hf v w₁ hrd h₁ (h₁.good hrd (ha v List.mem_cons_self))

theorem plain_intOfReal {x : Float} {v : Value} (hv : intOfReal x = .ok v) : v.Plain := by
  unfold intOfReal at hv
  split at hv
  · cases hv
    trivial
  · cases hv

theorem plain_toInt {h : Heap} {u v : Value} (hv : toInt h u = .ok v) : v.Plain := by
  cases u with
  | int n => cases hv; trivial
  | bool b => cases hv; trivial
  | real x => exact plain_intOfReal hv
  | string s =>
      unfold toInt at hv
      dsimp only at hv
      split at hv <;> cases hv
      trivial
  | _ => cases hv

theorem plain_toReal {h : Heap} {u v : Value} (hv : toReal h u = .ok v) : v.Plain := by
  unfold toReal at hv
  split at hv
  · split at hv <;> cases hv
    trivial
  · split at hv <;> cases hv
    trivial

theorem safe_intOf (v : Value) : Safe c w (intOf v) (intOf v) c.Good AnyFault :=
  .look rfl (.ofExcept (fun _ hu _ => (plain_toInt hu).within) fun _ => trivial)

theorem safe_realOf (v : Value) : Safe c w (realOf v) (realOf v) c.Good AnyFault :=
  .look rfl (.ofExcept (fun _ hu _ => (plain_toReal hu).within) fun _ => trivial)

theorem safe_textOf (hr : Carries c r r') {home : InterpreterId}
    (hh : c.checked → home.index < w.interpreters.size) {v : Value} (hv : c.Good w v) :
    Safe c w (textOf r home v) (textOf r' home v) c.Good AnyFault := by
  refine .on hh (Safe.bind (V := Context.Any) ?_ fun _ _ _ _ _ => .pure fun _ => trivial)
  exact ((hr.on home).str hv).mono (fun _ _ _ _ => trivial) fun _ _ => trivial

/-- An operation on the heap that gives a value. -/
theorem safe_ofHeapOp {op : HeapOp Value} {P : Value → Prop}
    (hl : op.Careful (c.checked ∧ w.heap.Built) P)
    (hop : c.checked → HeapOp.Sound w.interpreters.size w.heap op fun e v => v.Within e) :
    Safe c w (Eval.ofHeapOp op) (Eval.ofHeapOp op) c.Good AnyFault :=
  Safe.ofHeapOp hl hop fun _ => trivial

/-! ## Methods -/

theorem safe_arrayAppend {a : ArrayRef} (hin : c.checked → a.index < w.heap.arrays.size)
    (name : String) {args : List Value} (ha : c.AllGood w args) :
    Safe c w (arrayAppend a name args) (arrayAppend a name args) c.Good AnyFault := by
  refine .ready fun hrd₀ => (safe_arity _ name args).bind fun _ w₁ hrd h₁ _ => ?_
  refine .copyThen_bind (h₁.good hrd (good_arg ha 0)) (fun _ => .push fun hc => ?_)
    fun _ _ _ => .pure fun _ => trivial
  exact Nat.lt_of_lt_of_le (hin hc) (h₁.sound hc (hrd₀.sound hc)).1.arrays

theorem position_lt {type op : String} {key : Value} {size p : Nat}
    (h : Pseudocode.position type key size op = .ok p) : p < size := by
  unfold Pseudocode.position at h
  cases hk : key.integral? with
  | none =>
      rw [hk] at h
      cases h
  | some n =>
      rw [hk] at h
      dsimp only at h
      generalize (if n < 0 then n + (size : Int) else n) = m at h
      split at h
      · cases h
      next hp =>
        cases h
        simp only [Bool.or_eq_true, decide_eq_true_eq, not_or] at hp
        omega

theorem safe_arrayPop {a : ArrayRef} (hin : c.checked → a.index < w.heap.arrays.size)
    (name : String) (args : List Value) :
    Safe c w (arrayPop a name args) (arrayPop a name args) c.Good AnyFault := by
  refine .ready fun hrd₀ => (safe_arity _ name args).bind fun _ w₁ hrd h₁ _ => .look rfl ?_
  dsimp only
  split
  · exact .fail_bind trivial
  · refine .look rfl ?_
    cases hp : Pseudocode.position (w₁.heap.typeName (args.headD (.int (-1))))
        (args.headD (.int (-1))) (w₁.heap.slots a).size "pop" with
    | error t => exact .fail_bind trivial
    | ok p =>
        refine .look rfl (.look rfl ((Safe.erase (fun hc => ?_) (position_lt hp)).bind
          fun _ w₂ hrd₂ h₂ _ => .pure (h₂.good hrd₂ fun hc => ?_)))
        · exact Nat.lt_of_lt_of_le (hin hc) (h₁.sound hc (hrd₀.sound hc)).1.arrays
        · exact Value.within_getD fun v hv => (((h₁.ready hrd).closed hc).slots a).get? hv

theorem safe_arrayInsert {a : ArrayRef} (hin : c.checked → a.index < w.heap.arrays.size)
    (name : String) {args : List Value} (ha : c.AllGood w args) :
    Safe c w (arrayInsert a name args) (arrayInsert a name args) c.Good AnyFault := by
  refine .ready fun hrd₀ => (safe_arity _ name args).bind fun _ w₁ hrd h₁ _ => ?_
  split
  · exact .look rfl (.fail trivial)
  next n _ =>
    refine .look rfl (.insert (fun hc => ?_) (Nat.min_le_right _ _)
      (h₁.good hrd (good_arg ha 1)) rfl)
    exact Nat.lt_of_lt_of_le (hin hc) (h₁.sound hc (hrd₀.sound hc)).1.arrays

theorem safe_arrayLength (a : ArrayRef) (name : String) (args : List Value) :
    Safe c w (arrayLength a name args) (arrayLength a name args) c.Good AnyFault :=
  (safe_arity _ name args).bind fun _ _ _ _ _ => .look rfl (.pure fun _ => trivial)

theorem safe_dictKeys (d : DictRef) (name : String) (args : List Value) :
    Safe c w (dictKeys d name args) (dictKeys d name args) c.Good AnyFault := by
  refine (safe_arity _ name args).bind fun _ w₁ hrd h₁ _ => .look rfl (.newArray fun k hk hc => ?_)
  exact ((h₁.ready hrd).closed hc).keys d k (Array.mem_toList_iff.mp hk)

theorem safe_dictValues (d : DictRef) (name : String) (args : List Value) :
    Safe c w (dictValues d name args) (dictValues d name args) c.Good AnyFault := by
  refine (safe_arity _ name args).bind fun _ w₁ hrd h₁ _ => .look rfl ?_
  refine (Safe.copies fun v hv hc => ?_).bind fun vs w₂ _ _ hvs => .newArray hvs
  exact (((h₁.ready hrd).closed hc).dict d).values v (Array.mem_toList_iff.mp hv)

theorem safe_dictHas (d : DictRef) (name : String) (args : List Value) :
    Safe c w (dictHas d name args) (dictHas d name args) c.Good AnyFault :=
  (safe_arity _ name args).bind fun _ _ _ _ _ => .look rfl (.pure fun _ => trivial)

theorem safe_dictRemove {d : DictRef} (hin : c.checked → d.index < w.heap.dicts.size)
    (name : String) (args : List Value) :
    Safe c w (dictRemove d name args) (dictRemove d name args) c.Good AnyFault := by
  refine .ready fun hrd₀ => (safe_arity _ name args).bind fun _ w₁ hrd h₁ _ => .look rfl ?_
  dsimp only
  split
  next v rest hv hrest =>
    refine (Safe.remove (fun hc => ?_) hrest).bind fun _ w₂ hrd₂ h₂ _ =>
      .pure (h₂.good hrd₂ fun hc => (((h₁.ready hrd).closed hc).dict d).get? hv)
    exact Nat.lt_of_lt_of_le (hin hc) (h₁.sound hc (hrd₀.sound hc)).1.dicts
  next => exact .look rfl (.fail trivial)

theorem safe_dictLength (d : DictRef) (name : String) (args : List Value) :
    Safe c w (dictLength d name args) (dictLength d name args) c.Good AnyFault :=
  (safe_arity _ name args).bind fun _ _ _ _ _ => .look rfl (.pure fun _ => trivial)

theorem safe_textMethod {v : Value} (hv : v.Plain) (name : String) (args : List Value) :
    Safe c w (textMethod v name args) (textMethod v name args) c.Good AnyFault :=
  (safe_arity _ name args).bind fun _ _ _ _ _ => .pure fun _ => hv.within

/-! ## Libraries -/

section Libraries

open Library

theorem safe_realArg (fn : String) (v : Value) :
    Safe c w (Math.realArg fn v) (Math.realArg fn v) Context.Any AnyFault := by
  simp only [Math.realArg]
  split
  · exact .pure trivial
  · exact .look rfl (.fail trivial)

theorem safe_intArg (fn : String) (v : Value) :
    Safe c w (Math.intArg fn v) (Math.intArg fn v) Context.Any AnyFault := by
  simp only [Math.intArg]
  split
  · exact .pure trivial
  · exact .look rfl (.fail trivial)

theorem safe_realUnary (f : RealFunction) (args : List Value) :
    Safe c w (Math.unary f args) (Math.unary f args) c.Good AnyFault := by
  refine (safe_arity _ _ args).bind fun _ _ _ _ _ => (safe_realArg _ _).bind fun _ _ _ _ _ => ?_
  dsimp only
  split
  · exact .fail_bind trivial
  · exact .pure fun _ => trivial

theorem safe_realBinary (name : String) (f : Float → Float → Float) (args : List Value) :
    Safe c w (Math.binary name f args) (Math.binary name f args) c.Good AnyFault := by
  refine (safe_arity _ name args).bind fun _ _ _ _ _ => (safe_realArg _ _).bind fun _ _ _ _ _ =>
    (safe_realArg _ _).bind fun _ _ _ _ _ => ?_
  dsimp only
  split
  · exact .fail_bind trivial
  · exact .pure fun _ => trivial

theorem safe_rounding (name : String) (f : Float → Float) (args : List Value) :
    Safe c w (Math.rounding name f args) (Math.rounding name f args) c.Good AnyFault := by
  refine (safe_arity _ name args).bind fun _ _ _ _ _ => ?_
  split
  · exact .pure fun _ => trivial
  · refine (safe_realArg _ _).bind fun _ _ _ _ _ => ?_
    exact (Safe.ofExcept (V := Context.Any) (fun _ _ => trivial) fun _ => trivial).bind
      fun _ _ _ _ _ => .pure fun _ => trivial

theorem safe_question (name : String) (p : Float → Bool) (args : List Value) :
    Safe c w (Math.question name p args) (Math.question name p args) c.Good AnyFault :=
  (safe_arity _ name args).bind fun _ _ _ _ _ => (safe_realArg _ _).bind fun _ _ _ _ _ =>
    .pure fun _ => trivial

theorem safe_log (args : List Value) :
    Safe c w (Math.log args) (Math.log args) c.Good AnyFault := by
  refine (safe_arity _ _ args).bind fun _ _ _ _ _ => (safe_realArg _ _).bind fun _ _ _ _ _ => ?_
  dsimp only
  split
  · exact .fail_bind trivial
  · split
    · refine (safe_realArg _ _).bind fun _ _ _ _ _ => ?_
      split
      · exact .fail_bind trivial
      · exact .pure fun _ => trivial
    · exact .pure fun _ => trivial

theorem safe_gcd (args : List Value) :
    Safe c w (Math.gcd args) (Math.gcd args) c.Good AnyFault :=
  (safe_arity _ _ args).bind fun _ _ _ _ _ => (safe_intArg _ _).bind fun _ _ _ _ _ =>
    (safe_intArg _ _).bind fun _ _ _ _ _ => .pure fun _ => trivial

theorem safe_factorial (args : List Value) :
    Safe c w (Math.factorial args) (Math.factorial args) c.Good AnyFault := by
  refine (safe_arity _ _ args).bind fun _ _ _ _ _ => (safe_intArg _ _).bind fun _ _ _ _ _ => ?_
  dsimp only
  split
  · exact .fail_bind trivial
  · split
    · exact .fail_bind trivial
    · exact .pure fun _ => trivial

theorem safe_math (f : MathFunction) (args : List Value) :
    Safe c w (Math.call f args) (Math.call f args) c.Good AnyFault := by
  cases f with
  | unary f => exact safe_realUnary f args
  | floor => exact safe_rounding _ _ args
  | ceil => exact safe_rounding _ _ args
  | pow => exact safe_realBinary _ _ args
  | atan2 => exact safe_realBinary _ _ args
  | hypot => exact safe_realBinary _ _ args
  | log => exact safe_log args
  | gcd => exact safe_gcd args
  | factorial => exact safe_factorial args
  | isnan => exact safe_question _ _ args
  | isinf => exact safe_question _ _ args

theorem safe_system (f : SystemFunction) {args : List Value} (ha : c.AllGood w args) :
    Safe c w (SystemModule.call f args) (SystemModule.call f args) c.Good AnyFault := by
  cases f with
  | time => exact (safe_arity _ _ args).bind fun _ _ _ _ _ => .look rfl (.pure fun _ => trivial)
  | now => exact (safe_arity _ _ args).bind fun _ _ _ _ _ => .look rfl (.pure fun _ => trivial)
  | env =>
      refine (safe_arity _ _ args).bind fun _ w₁ hrd h₁ _ => ?_
      split
      · refine .look rfl ?_
        split
        · exact .pure fun _ => trivial
        · exact .pure (h₁.good hrd (good_arg ha 1))
      · exact .look rfl (.fail trivial)
  | platform => exact (safe_arity _ _ args).bind fun _ _ _ _ _ => .pure fun _ => trivial
  | sleep =>
      refine (safe_arity _ _ args).bind fun _ _ _ _ _ => ?_
      split
      · dsimp only
        split
        · exact .fail_bind trivial
        · exact .pure fun _ => trivial
      · exact .look rfl (.fail trivial)

theorem safe_localeArg (fn : String) (args : List Value) (i : Nat) :
    Safe c w (LocaleModule.localeArg fn args i) (LocaleModule.localeArg fn args i) Context.Any
      AnyFault := by
  simp only [LocaleModule.localeArg]
  split
  · split
    · exact .pure trivial
    · exact .fail trivial
  · exact .look rfl (.fail trivial)

theorem safe_numberArg (fn : String) (v : Value) :
    Safe c w (LocaleModule.numberArg fn v) (LocaleModule.numberArg fn v) Context.Any AnyFault := by
  simp only [LocaleModule.numberArg]
  split
  · exact .pure trivial
  · exact .pure trivial
  · exact .look rfl (.fail trivial)

theorem safe_currencyArg (fn : String) (v : Value) :
    Safe c w (LocaleModule.currencyArg fn v) (LocaleModule.currencyArg fn v) Context.Any
      AnyFault := by
  simp only [LocaleModule.currencyArg]
  split
  · split
    · exact .pure trivial
    · exact .fail trivial
  · exact .look rfl (.fail trivial)

theorem safe_writer (fn : String) (write : Locale → Float → String) (args : List Value) :
    Safe c w (LocaleModule.writer fn write args) (LocaleModule.writer fn write args) c.Good
      AnyFault :=
  (safe_arity _ _ args).bind fun _ _ _ _ _ => (safe_numberArg _ _).bind fun _ _ _ _ _ =>
    (safe_localeArg _ _ _).bind fun _ _ _ _ _ => .pure fun _ => trivial

theorem safe_locale (f : LocaleFunction) (args : List Value) :
    Safe c w (LocaleModule.call f args) (LocaleModule.call f args) c.Good AnyFault := by
  cases f with
  | formatNumber => exact safe_writer _ _ args
  | formatPercent => exact safe_writer _ _ args
  | formatInt =>
      refine (safe_arity _ _ args).bind fun _ _ _ _ _ => ?_
      split
      · exact (safe_localeArg _ _ _).bind fun _ _ _ _ _ => .pure fun _ => trivial
      · exact .look rfl (.fail trivial)
  | formatCurrency =>
      exact (safe_arity _ _ args).bind fun _ _ _ _ _ => (safe_numberArg _ _).bind
        fun _ _ _ _ _ => (safe_currencyArg _ _).bind fun _ _ _ _ _ =>
          (safe_localeArg _ _ _).bind fun _ _ _ _ _ => .pure fun _ => trivial

theorem safe_text (fn : String) (args : List Value) (i : Nat) :
    Safe c w (CryptoModule.text fn args i) (CryptoModule.text fn args i) Context.Any AnyFault := by
  simp only [CryptoModule.text]
  split
  · exact .pure trivial
  · exact .look rfl (.fail trivial)

theorem safe_newSalt : Safe c w CryptoModule.newSalt CryptoModule.newSalt Context.Any AnyFault :=
  .step rfl (fun _ => .other rfl rfl) fun _ => trivial

theorem safe_hashPassword (args : List Value) :
    Safe c w (CryptoModule.hashPassword args) (CryptoModule.hashPassword args) c.Good
      AnyFault := by
  refine (safe_arity _ _ args).bind fun _ _ _ _ _ => (safe_text _ _ _).bind fun _ w₁ _ _ _ => ?_
  split
  · exact .fail trivial
  · dsimp only
    split
    · exact .fail_bind trivial
    · exact (safe_newSalt.bind fun _ _ _ _ _ => .pure fun _ => trivial)

theorem safe_verifyPassword (args : List Value) :
    Safe c w (CryptoModule.verifyPassword args) (CryptoModule.verifyPassword args) c.Good
      AnyFault := by
  refine (safe_arity _ _ args).bind fun _ _ _ _ _ => (safe_text _ _ _).bind fun _ _ _ _ _ =>
    (safe_text _ _ _).bind fun _ _ _ _ _ => ?_
  split
  · exact .pure fun _ => trivial
  · exact .fail trivial

theorem safe_signToken (args : List Value) :
    Safe c w (CryptoModule.signToken args) (CryptoModule.signToken args) c.Good AnyFault := by
  have hclaims : ∀ v w', Safe c w' (CryptoModule.claimsArg v) (CryptoModule.claimsArg v)
      Context.Any AnyFault := by
    intro v w'
    cases v with
    | dict d => exact .look rfl (.pure trivial)
    | _ => exact .look rfl (.fail trivial)
  have hlifetime : ∀ claims w', Safe c w' (CryptoModule.withLifetime args claims)
      (CryptoModule.withLifetime args claims) Context.Any AnyFault := by
    intro claims w'
    simp only [CryptoModule.withLifetime]
    split
    · exact .look rfl (.pure trivial)
    · exact .fail trivial
    · exact .pure trivial
  refine (safe_arity _ _ args).bind fun _ _ _ _ _ => (hclaims _ _).bind fun _ _ _ _ _ =>
    (safe_text _ _ _).bind fun _ _ _ _ _ => (hlifetime _ _).bind fun _ _ _ _ _ => .look rfl ?_
  split
  · exact .pure fun _ => trivial
  · exact .raise trivial

theorem safe_verifyToken (args : List Value) :
    Safe c w (CryptoModule.verifyToken args) (CryptoModule.verifyToken args) c.Good AnyFault := by
  refine (safe_arity _ _ args).bind fun _ _ _ _ _ => (safe_text _ _ _).bind fun _ _ _ _ _ =>
    (safe_text _ _ _).bind fun _ w₁ _ _ _ => .look rfl ?_
  split
  next claims _ =>
    have hmakes := makes_ofPlain (n := w₁.interpreters.size) claims w₁.heap
    exact .onHeap (fun _ => .of_careful (.ofPlain claims))
      (fun hc hs => ⟨(hmakes hs).1, (hmakes hs).2.1⟩)
      fun hrd hc => (hmakes (hrd.sound hc)).2.2
  next => exact .pure fun _ => trivial

theorem safe_crypto (f : CryptoFunction) (args : List Value) :
    Safe c w (CryptoModule.call f args) (CryptoModule.call f args) c.Good AnyFault := by
  cases f with
  | hashPassword => exact safe_hashPassword args
  | verifyPassword => exact safe_verifyPassword args
  | signToken => exact safe_signToken args
  | verifyToken => exact safe_verifyToken args
  | sha256 =>
      exact (safe_arity _ _ args).bind fun _ _ _ _ _ => (safe_text _ _ _).bind fun _ _ _ _ _ =>
        .pure fun _ => trivial

theorem safe_mixed : Safe c w Probe.mixed Probe.mixed c.Good AnyFault := by
  refine (Safe.newArray fun v hv hc => ?_).bind fun a w₁ hrd h₁ ha =>
    (Safe.newArray fun v hv hc => ?_).bind fun b w₂ hrd₁ h₂ hb => .newDict ?_
  · rw [List.mem_singleton.mp hv]
    trivial
  · have hplain : v.Plain := by
      simp only [List.mem_cons, List.not_mem_nil, or_false] at hv
      rcases hv with rfl | rfl | rfl | rfl | rfl <;> trivial
    exact hplain.within
  · simp only [List.foldl_cons, List.foldl_nil]
    exact ((c.goodDict_empty w₂).getD_insert? (h₂.good hrd₁ ha)).getD_insert? hb

theorem safe_probe (hr : Carries c r r') (f : ProbeFunction) {home : InterpreterId}
    (hh : c.checked → home.index < w.interpreters.size) (counter : Nat) {args : List Value}
    (ha : c.AllGood w args) :
    Safe c w (Probe.call r f home counter args) (Probe.call r' f home counter args) c.Good
      AnyFault := by
  have hdisplay : ∀ {x y : Eval String} {w' : World}, Safe (c.on home) w' x y Context.Any Catchable →
      Safe (c.on home) w' (do return Value.string (← x)) (do return Value.string (← y)) c.Good
        AnyFault := fun hx =>
    (hx.mono (F := AnyFault) (fun _ _ _ h => h) fun _ _ => trivial).bind fun _ _ _ _ _ =>
      .pure fun _ => trivial
  cases f with
  | count =>
      refine Safe.bind (V := Context.Any) (.step rfl (fun _ => .other rfl rfl) fun _ => trivial)
        fun _ _ _ _ _ => .look rfl (.pure fun _ => trivial)
  | apply =>
      refine (safe_arity _ _ args).bind fun _ w₁ hrd h₁ _ =>
        .on (fun hc => Nat.lt_of_lt_of_le (hh hc) h₁.size) ?_
      refine ((hr.on home).call (h₁.good hrd (good_arg ha 0)) (fun v hv => ?_) .nowhere).mono
        (fun _ _ _ hv => hv) fun _ _ => trivial
      exact h₁.good hrd (ha v (List.mem_of_mem_drop hv))
  | fail => exact .raise trivial
  | wrapped => exact .fail trivial
  | bad => exact .raise trivial
  | mixed => exact safe_mixed
  | str => exact .on hh (hdisplay ((hr.on home).str (good_arg ha 0)))
  | repr => exact .on hh (hdisplay ((hr.on home).repr (good_arg ha 0)))
  | write =>
      exact .look rfl ((safe_write _).bind fun _ _ _ _ _ => .pure fun _ => trivial)

end Libraries

/-! ## All of them -/

theorem safe_nativeCall (hr : Carries c r r') (name : String) {a : Native} {args : List Value}
    (hn : c.checked → a.Within w.extent) (ha : c.AllGood w args) :
    Safe c w (Run.nativeCall r name args a) (Run.nativeCall r' name args a) c.Good AnyFault := by
  cases a with
  | input home => exact safe_input hr hn name ha
  | len => exact safe_len name args
  | position => exact safe_position name args
  | substring => exact safe_substring name args
  | stringToInt => exact safe_convert name ha fun v _ _ _ _ => safe_intOf v
  | stringToReal => exact safe_convert name ha fun v _ _ _ _ => safe_realOf v
  | intToString => exact safe_convert name ha fun _ _ _ _ _ => .look rfl (.pure fun _ => trivial)
  | realToString => exact safe_convert name ha fun _ _ _ _ _ => .look rfl (.pure fun _ => trivial)
  | charToCode => exact safe_charToCode name args
  | codeToChar => exact safe_codeToChar name args
  | randomInt => exact safe_randomInt name args
  | sqrt => exact safe_sqrt name args
  | toInt =>
      exact safe_convertOr name ha (fun _ => .pure fun _ => trivial) fun v _ _ _ _ => safe_intOf v
  | toReal =>
      exact safe_convertOr name ha (fun _ => .pure fun _ => trivial) fun v _ _ _ _ => safe_realOf v
  | toBool =>
      exact safe_convertOr name ha (fun _ => .pure fun _ => trivial) fun _ _ _ _ _ =>
        .look rfl (.pure fun _ => trivial)
  | toText home =>
      exact safe_convertOr name ha (fun _ => .pure fun _ => trivial) fun _ _ _ h' hv =>
        safe_textOf hr (fun hc => Nat.lt_of_lt_of_le (hn hc) h'.size) hv
  | toArray =>
      exact safe_convertOr name ha (fun w => .newArray (c.allGood_nil w)) fun _ _ hrd h' hv =>
        safe_ofHeapOp (.toArray _) fun hc => sound_toArray ((h'.ready hrd).closed hc) (hv hc)
  | toDict =>
      exact safe_convertOr name ha (fun w => .newDict (c.goodDict_empty w)) fun _ _ _ _ hv =>
        safe_ofHeapOp (.toDict _) fun hc => sound_toDict (hv hc)
  | arrayAppend a => exact safe_arrayAppend hn name ha
  | arrayPop a => exact safe_arrayPop hn name args
  | arrayInsert a => exact safe_arrayInsert hn name ha
  | arrayLength a => exact safe_arrayLength a name args
  | dictKeys d => exact safe_dictKeys d name args
  | dictValues d => exact safe_dictValues d name args
  | dictHas d => exact safe_dictHas d name args
  | dictRemove d => exact safe_dictRemove hn name args
  | dictLength d => exact safe_dictLength d name args
  | textLength s => exact safe_textMethod (v := .int s.length) trivial name args
  | textUpper s => exact safe_textMethod (v := .string (Text.upper s)) trivial name args
  | textLower s => exact safe_textMethod (v := .string (Text.lower s)) trivial name args
  | math f => exact safe_math f args
  | system f => exact safe_system f ha
  | crypto f => exact safe_crypto f args
  | locale f => exact safe_locale f args
  | probe f home counter => exact safe_probe hr f hn counter ha
  | inert => exact .pure fun _ => trivial

theorem safe_native (hr : Carries c r r') {b : Builtin} {args : List Value}
    (hb : c.Good w (.builtin b)) (ha : c.AllGood w args) :
    Safe c w (Run.native r b args) (Run.native r' b args) c.Good AnyFault :=
  safe_nativeCall hr b.name hb ha

end Pseudocode
