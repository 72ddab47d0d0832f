import Pseudocode.Proofs.Places.Calling
import Pseudocode.Run.Interpreter
import Pseudocode.Run.Native
/-
# `Proofs.Places.Natives` — builtin functions, mirrored

A builtin function sees its arguments, and the heap through them; neither shows where code
stands, but for one exception.  The data that `crypto.sign_token` signs is written down with
all that it holds, and a subroutine in it with the places of its code.  So of that function
it is asked that no code shows in its claims, or that both runs execute the same code.

Checks of arguments leave the world alone; their lemmas are about what comes after them.
-/
namespace Pseudocode

open Builtins

variable {ℓ : Likeness} {S : Stand ℓ} {w : World} {r r' : Recursor}

/-! ## Arguments -/

section Arguments

variable {α : Type} [Carried α]

theorem arg_recast (ρ : Recast) (args : List Value) (i : Nat) :
    arg (args.map (Value.recast ρ)) i = (arg args i).recast ρ := by
  rw [arg, List.getD_eq_getElem?_getD, List.getElem?_map, Value.recast_getD, arg,
    List.getD_eq_getElem?_getD]

theorem holds_arg {R : Realm} {args : List Value} (ha : ∀ v ∈ args, R.Holds v) (i : Nat) :
    R.Holds (arg args i) := by
  rw [arg, List.getD_eq_getElem?_getD]
  exact Realm.holds_getD fun v hv => ha v (List.mem_of_getElem? hv)

theorem mirrors_arity (a : Arity) (name : String) (args : List Value) {x y : Eval α}
    (h : Mirrors S w False x y) :
    Mirrors S w False (arity a name args >>= fun _ => x)
      (arity a name (args.map (Value.recast ℓ.naming.recast)) >>= fun _ => y) := by
  rw [arity, arity, List.length_map, Arity.check]
  split
  · exact h
  · exact .fail_bind id (.of rfl)

/-- A complaint about the type of an argument. -/
theorem mirrors_mistyped (v : Value) {complaint : String → Trouble}
    (common : ∀ type, (complaint type).Common) :
    Mirrors S w False (typeName v >>= fun type => (Eval.fail (complaint type) : Eval α))
      (typeName (v.recast ℓ.naming.recast) >>= fun type => Eval.fail (complaint type)) := by
  refine .inHeap ?_
  rw [Heap.typeName_recast]
  exact .fail id (common _)

/-- The same, where something would come after it. -/
theorem mirrors_mistyped_bind {β : Type} (v : Value) {complaint : String → Trouble} {f g : β → Eval α}
    (common : ∀ type, (complaint type).Common) :
    Mirrors S w False ((typeName v >>= fun type => (Eval.fail (complaint type) : Eval β)) >>= f)
      ((typeName (v.recast ℓ.naming.recast) >>= fun type => (Eval.fail (complaint type) : Eval β)) >>=
        g) := by
  rw [Eval.bind_assoc, Eval.bind_assoc]
  refine .inHeap ?_
  rw [Heap.typeName_recast]
  exact .fail_bind id (common _)

theorem mirrors_stringArg (fn : String) (v : Value) {f g : String → Eval α}
    (h : ∀ s, Mirrors S w False (f s) (g s)) :
    Mirrors S w False (stringArg fn v >>= f) (stringArg fn (v.recast ℓ.naming.recast) >>= g) := by
  cases v with
  | string s => exact h s
  | _ => exact mirrors_mistyped_bind _ fun _ => .of rfl

end Arguments

/-- A result that holds nothing. -/
theorem mirrors_leaf {p : Prop} {v : Value} (hv : v.Leaf) :
    Mirrors S w p (pure v : Eval Value) (pure v) := by
  have same : Carried.carry ℓ.naming.recast v = v := hv.recast
  have result := Mirrors.pure (S := S) (w := w) (p := p) (a := v) (Value.Leaf.holds hv)
  rwa [same] at result

/-! ## Texts and numbers -/

theorem mirrors_input (hr : Mirroring S r r') {home : InterpreterId} (hh : (S.realm w).Home home)
    (name : String) {args : List Value} (ha : ∀ v ∈ args, (S.realm w).Holds v) :
    Mirrors S w False (input r home name args)
      (input r' home name (args.map (Value.recast ℓ.naming.recast))) := by
  refine mirrors_arity _ name args (.on hh ?_)
  have line : ∀ w', Mirrors (S.on home (w.row home.index).frame.origin) w' False
      (Eval.readLine .nowhere) (Eval.readLine .nowhere) := fun _ =>
    .readLine (Stand.allows_nowhere id)
  match args, ha with
  | [prompt], ha =>
    refine (hr.str home _ w prompt (ha prompt List.mem_cons_self)).bind fun s w₁ _ _ _ => ?_
    exact (Mirrors.write s).bind fun _ w₂ _ _ _ => line w₂
  | [], _ => exact line w
  | _ :: _ :: _, _ => exact line w

theorem mirrors_len (name : String) (args : List Value) :
    Mirrors S w False (len name args) (len name (args.map (Value.recast ℓ.naming.recast))) := by
  refine mirrors_arity _ name args ?_
  rw [arg_recast]
  cases arg args 0 with
  | string s => exact mirrors_leaf (v := .int _) trivial
  | array a =>
    refine .inHeap ?_
    rw [Heap.slots_recast]
    exact mirrors_leaf (v := .int _) trivial
  | dict d =>
    refine .inHeap ?_
    rw [Heap.dict_recast]
    exact mirrors_leaf (v := .int _) trivial
  | _ => exact mirrors_mistyped _ fun _ => .of rfl

theorem mirrors_position (name : String) (args : List Value) :
    Mirrors S w False (Builtins.position name args)
      (Builtins.position name (args.map (Value.recast ℓ.naming.recast))) := by
  refine mirrors_arity _ name args ?_
  rw [arg_recast, arg_recast]
  exact mirrors_stringArg name _ fun s => mirrors_stringArg name _ fun sub =>
    mirrors_leaf (v := .int _) trivial

theorem mirrors_substring (name : String) (args : List Value) :
    Mirrors S w False (substring name args)
      (substring name (args.map (Value.recast ℓ.naming.recast))) := by
  refine mirrors_arity _ name args ?_
  rw [arg_recast, arg_recast, arg_recast]
  cases arg args 0 with
  | int first =>
    cases arg args 1 with
    | int last => exact mirrors_stringArg name _ fun s => mirrors_leaf (v := .string _) trivial
    | _ => exact .fail id (.of rfl)
  | _ => exact .fail id (.of rfl)

theorem mirrors_charToCode (name : String) (args : List Value) :
    Mirrors S w False (charToCode name args)
      (charToCode name (args.map (Value.recast ℓ.naming.recast))) := by
  refine mirrors_arity _ name args ?_
  rw [arg_recast]
  refine mirrors_stringArg name _ fun s => ?_
  split
  · exact mirrors_leaf (v := .int _) trivial
  · exact .fail id (.of rfl)

theorem mirrors_codeToChar (name : String) (args : List Value) :
    Mirrors S w False (codeToChar name args)
      (codeToChar name (args.map (Value.recast ℓ.naming.recast))) := by
  refine mirrors_arity _ name args ?_
  rw [arg_recast]
  cases arg args 0 with
  | int n =>
    dsimp only [Value.recast_int]
    split
    · exact .fail_bind id (.of rfl)
    · exact mirrors_leaf (v := .string _) trivial
  | _ => exact mirrors_mistyped _ fun _ => .of rfl

theorem mirrors_randomInt (name : String) (args : List Value) :
    Mirrors S w False (randomInt name args)
      (randomInt name (args.map (Value.recast ℓ.naming.recast))) := by
  refine mirrors_arity _ name args ?_
  rw [arg_recast, arg_recast]
  cases arg args 0 with
  | int low =>
    cases arg args 1 with
    | int high =>
      dsimp only [Value.recast_int]
      split
      · exact .fail_bind id (.of rfl)
      · have drawn : Mirrors S w False
            (modifyGet fun w => ((w.random.inRange low high).1,
              { w with random := (w.random.inRange low high).2 }) : Eval Int)
            (modifyGet fun w => ((w.random.inRange low high).1,
              { w with random := (w.random.inRange low high).2 })) :=
          .step (a := (w.random.inRange low high).1) rfl rfl rfl rfl rfl trivial
        exact drawn.bind fun n _ _ _ _ => mirrors_leaf (v := .int n) trivial
    | _ => exact .fail id (.of rfl)
  | _ => exact .fail id (.of rfl)

theorem mirrors_sqrt (name : String) (args : List Value) :
    Mirrors S w False (Builtins.sqrt name args)
      (Builtins.sqrt name (args.map (Value.recast ℓ.naming.recast))) := by
  refine mirrors_arity _ name args ?_
  rw [arg_recast, Value.number?_recast]
  cases (arg args 0).number? with
  | some x =>
    dsimp only
    split
    · exact .fail_bind id (.of rfl)
    · exact mirrors_leaf (v := .real _) trivial
  | none => exact mirrors_mistyped _ fun _ => .of rfl

/-! ## Conversions -/

theorem mirrors_convert {f f' : Value → Eval Value} (name : String) {args : List Value}
    (ha : ∀ v ∈ args, (S.realm w).Holds v)
    (hf : ∀ v, (S.realm w).Holds v → Mirrors S w False (f v) (f' (v.recast ℓ.naming.recast))) :
    Mirrors S w False (convert f name args)
      (convert f' name (args.map (Value.recast ℓ.naming.recast))) := by
  refine mirrors_arity _ name args ?_
  rw [arg_recast]
  exact hf _ (holds_arg ha 0)

theorem mirrors_convertOr {empty : Eval Value} {f f' : Value → Eval Value} (name : String)
    {args : List Value} (ha : ∀ v ∈ args, (S.realm w).Holds v)
    (he : Mirrors S w False empty empty)
    (hf : ∀ v, (S.realm w).Holds v → Mirrors S w False (f v) (f' (v.recast ℓ.naming.recast))) :
    Mirrors S w False (convertOr empty f name args)
      (convertOr empty f' name (args.map (Value.recast ℓ.naming.recast))) := by
  refine mirrors_arity _ name args ?_
  cases args with
  | nil => exact he
  | cons v vs => exact hf v (ha v List.mem_cons_self)

/-- A conversion that gives a leaf or fails. -/
theorem mirrors_leafResult {result : Except Trouble Value} (leaf : LeafResult result) :
    Mirrors S w False (Eval.ofExcept result) (Eval.ofExcept result) := by
  cases result with
  | ok v => exact mirrors_leaf leaf
  | error t => exact .fail id leaf

theorem mirrors_intOf (v : Value) :
    Mirrors S w False (intOf v) (intOf (v.recast ℓ.naming.recast)) := by
  refine .inHeap ?_
  rw [Heap.toInt_recast]
  exact mirrors_leafResult (.toInt _ _)

theorem mirrors_realOf (v : Value) :
    Mirrors S w False (realOf v) (realOf (v.recast ℓ.naming.recast)) := by
  refine .inHeap ?_
  rw [Heap.toReal_recast]
  exact mirrors_leafResult (.toReal _ _)

theorem mirrors_plainText (v : Value) :
    Mirrors S w False (plainText v) (plainText (v.recast ℓ.naming.recast)) := by
  refine .inHeap ?_
  rw [Heap.text_recast]
  exact mirrors_leaf (v := .string _) trivial

theorem mirrors_boolOf (v : Value) :
    Mirrors S w False (boolOf v) (boolOf (v.recast ℓ.naming.recast)) := by
  refine .inHeap ?_
  rw [Heap.truthy_recast]
  exact mirrors_leaf (v := .bool _) trivial

/-- The display form of a value by another interpreter, as a value. -/
theorem mirrors_displayed {home : InterpreterId} (hh : (S.realm w).Home home) {x y : Eval String}
    (hx : Mirrors (S.on home (w.row home.index).frame.origin) w False x y) :
    Mirrors S w False (Eval.on home (x >>= fun s => (pure (.string s) : Eval Value)))
      (Eval.on home (y >>= fun s => pure (.string s))) :=
  .on hh (hx.bind fun s _ _ _ _ => mirrors_leaf (v := .string s) trivial)

/-! ## Methods -/

theorem mirrors_modifyArray {a : ArrayRef} (ha : S.marks.arrays ≤ a.index) {f g : Slots → Slots}
    (hf : ∀ s : Slots, s.All (S.realm w).Holds → (f s).All (S.realm w).Holds)
    (same : ∀ s : Slots, (f s).recast ℓ.naming.recast = g (s.recast ℓ.naming.recast)) :
    Mirrors S w False (Eval.changeHeap (Heap.modifyArray a f)) (Eval.changeHeap (Heap.modifyArray a g)) :=
  .changeHeap (fun t => t.modifyArray a hf)
    { Marks.Kept.refl _ _ with arrays := Store.kept_modify ha _ }
    (Heap.recast_modifyArray w.heap a same).symm

theorem mirrors_arrayAppend {a : ArrayRef} (hin : S.marks.arrays ≤ a.index) (name : String)
    {args : List Value} (ha : ∀ v ∈ args, (S.realm w).Holds v) :
    Mirrors S w False (arrayAppend a name args)
      (arrayAppend a name (args.map (Value.recast ℓ.naming.recast))) := by
  refine mirrors_arity _ name args ?_
  rw [arg_recast]
  refine (Mirrors.copy (holds_arg ha 0)).bind fun c w₁ _ _ hc => ?_
  exact .bind (mirrors_modifyArray hin (fun s hs => hs.push hc) fun s => Slots.map_push s c)
    fun _ _ _ _ _ => mirrors_leaf (v := .none) trivial

theorem mirrors_arrayPop {a : ArrayRef} (hin : S.marks.arrays ≤ a.index) (name : String)
    (args : List Value) :
    Mirrors S w False (arrayPop a name args)
      (arrayPop a name (args.map (Value.recast ℓ.naming.recast))) := by
  refine .ready fun ready => mirrors_arity _ name args (.inHeap ?_)
  have key : (args.map (Value.recast ℓ.naming.recast)).headD (.int (-1)) =
      (args.headD (.int (-1))).recast ℓ.naming.recast := by
    cases args <;> rfl
  rw [Heap.slots_recast, Slots.recast, Slots.size_map, key]
  dsimp only
  split
  · exact .fail_bind id (.of rfl)
  · refine .inHeap ?_
    rw [Heap.typeName_recast, Heap.position_recast]
    cases place : Pseudocode.position (w.heap.typeName (args.headD (.int (-1))))
        (args.headD (.int (-1))) (w.heap.slots a).size "pop" with
    | error t => exact .fail_bind id (common_position place)
    | ok i =>
      refine .look rfl rfl (.inHeap ?_)
      rw [Heap.slots_recast, Slots.recast, Slots.get?_map, Value.recast_getD]
      have held : (S.realm w).Holds (((w.heap.slots a).get? i).getD .none) :=
        Realm.holds_getD fun v hv => (ready.tame.slots hin).get? hv
      exact .bind (mirrors_modifyArray hin (fun s hs => hs.erase) fun s => Slots.map_erase s i)
        fun _ w₁ _ steps _ => .pure (steps.holds held)

theorem mirrors_arrayInsert {a : ArrayRef} (hin : S.marks.arrays ≤ a.index) (name : String)
    {args : List Value} (ha : ∀ v ∈ args, (S.realm w).Holds v) :
    Mirrors S w False (arrayInsert a name args)
      (arrayInsert a name (args.map (Value.recast ℓ.naming.recast))) := by
  refine mirrors_arity _ name args ?_
  rw [arg_recast, arg_recast, Value.integral?_recast]
  cases (arg args 0).integral? with
  | none => exact mirrors_mistyped _ fun _ => .of rfl
  | some n =>
    refine .inHeap ?_
    rw [Heap.slots_recast, Slots.recast, Slots.size_map]
    refine .bind (mirrors_modifyArray hin (fun s hs => hs.openGap trivial) fun s =>
      Slots.map_openGap s rfl _) fun _ w₁ _ steps _ => ?_
    refine (Mirrors.copy (steps.holds (holds_arg ha 1))).bind fun c w₂ _ _ hc => ?_
    exact .bind (mirrors_modifyArray hin (fun s hs => hs.set hc) fun s => Slots.map_set s _ c)
      fun _ _ _ _ _ => mirrors_leaf (v := .none) trivial

theorem mirrors_arrayLength (a : ArrayRef) (name : String) (args : List Value) :
    Mirrors S w False (arrayLength a name args)
      (arrayLength a name (args.map (Value.recast ℓ.naming.recast))) := by
  refine mirrors_arity _ name args (.inHeap ?_)
  rw [Heap.slots_recast]
  exact mirrors_leaf (v := .int _) trivial

theorem mirrors_dictKeys {d : DictRef} (hin : S.marks.dicts ≤ d.index) (name : String)
    (args : List Value) :
    Mirrors S w False (dictKeys d name args)
      (dictKeys d name (args.map (Value.recast ℓ.naming.recast))) := by
  refine .ready fun ready => mirrors_arity _ name args (.inHeap ?_)
  rw [Heap.dict_recast, Dictionary.keys_recast, Array.toList_map]
  exact .newArray fun k hk => ready.tame.keys hin k (Array.mem_toList_iff.mp hk)

theorem mirrors_dictValues {d : DictRef} (hin : S.marks.dicts ≤ d.index) (name : String)
    (args : List Value) :
    Mirrors S w False (dictValues d name args)
      (dictValues d name (args.map (Value.recast ℓ.naming.recast))) := by
  refine .ready fun ready => mirrors_arity _ name args (.inHeap ?_)
  rw [Heap.dict_recast, Dictionary.values_recast, Array.toList_map]
  refine (Mirrors.copies fun v hv => ?_).bind fun vs _ _ _ hvs => .newArray hvs
  exact (ready.tame.dict hin).values v (Array.mem_toList_iff.mp hv)

theorem mirrors_dictHas (d : DictRef) (name : String) (args : List Value) :
    Mirrors S w False (dictHas d name args)
      (dictHas d name (args.map (Value.recast ℓ.naming.recast))) := by
  refine mirrors_arity _ name args (.inHeap ?_)
  rw [Heap.dict_recast, arg_recast, Dictionary.get?_recast, Option.isSome_map]
  exact mirrors_leaf (v := .bool _) trivial

theorem mirrors_dictRemove {d : DictRef} (hin : S.marks.dicts ≤ d.index) (name : String)
    (args : List Value) :
    Mirrors S w False (dictRemove d name args)
      (dictRemove d name (args.map (Value.recast ℓ.naming.recast))) := by
  have missing : Mirrors S w False
      (Eval.inHeap (·.keyNotFound (arg args 0)) >>= fun t => (Eval.fail t : Eval Value))
      (Eval.inHeap (·.keyNotFound ((arg args 0).recast ℓ.naming.recast)) >>= fun t => Eval.fail t) := by
    refine .inHeap ?_
    rw [Heap.keyNotFound_recast]
    exact .fail id (.of rfl)
  refine .ready fun ready => mirrors_arity _ name args (.inHeap ?_)
  rw [arg_recast, Heap.dict_recast]
  dsimp only
  rw [Dictionary.get?_recast, Dictionary.recast_erase?]
  cases found : (w.heap.dict d).get? (arg args 0) with
  | none => exact missing
  | some v =>
    cases left : (w.heap.dict d).erase? (arg args 0) with
    | none => exact missing
    | some rest =>
      have held := ready.tame.dict hin
      have removed : Mirrors S w False (Eval.changeHeap (Heap.modifyDict d fun _ => rest))
          (Eval.changeHeap (Heap.modifyDict d fun _ => rest.recast ℓ.naming.recast)) :=
        .changeHeap (fun t => t.modifyDict d fun _ _ => held.erase? left)
          { Marks.Kept.refl _ _ with dicts := Store.kept_modify hin _ }
          (Heap.recast_modifyDict (f := fun _ => rest) (g := fun _ => rest.recast ℓ.naming.recast)
            w.heap d fun _ => rfl).symm
      exact removed.bind fun _ w₁ _ steps _ => .pure (steps.holds (held.get? found))

theorem mirrors_dictLength (d : DictRef) (name : String) (args : List Value) :
    Mirrors S w False (dictLength d name args)
      (dictLength d name (args.map (Value.recast ℓ.naming.recast))) := by
  refine mirrors_arity _ name args (.inHeap ?_)
  rw [Heap.dict_recast]
  exact mirrors_leaf (v := .int _) trivial

theorem mirrors_textMethod {v : Value} (hv : v.Leaf) (name : String) (args : List Value) :
    Mirrors S w False (textMethod v name args)
      (textMethod v name (args.map (Value.recast ℓ.naming.recast))) :=
  mirrors_arity _ name args (mirrors_leaf hv)

/-! ## Libraries -/

section Libraries

open Library

variable {α : Type} [Carried α]

theorem mirrors_realArg (fn : String) (v : Value) {f g : Float → Eval α}
    (h : ∀ x, Mirrors S w False (f x) (g x)) :
    Mirrors S w False (Math.realArg fn v >>= f) (Math.realArg fn (v.recast ℓ.naming.recast) >>= g) := by
  rw [Math.realArg, Math.realArg, Value.number?_recast]
  cases v.number? with
  | some x => exact h x
  | none => exact mirrors_mistyped_bind v fun _ => .of rfl

theorem mirrors_intArg (fn : String) (v : Value) {f g : Int → Eval α}
    (h : ∀ n, Mirrors S w False (f n) (g n)) :
    Mirrors S w False (Math.intArg fn v >>= f) (Math.intArg fn (v.recast ℓ.naming.recast) >>= g) := by
  rw [Math.intArg, Math.intArg, Value.integral?_recast]
  cases v.integral? with
  | some n => exact h n
  | none => exact mirrors_mistyped_bind v fun _ => .of rfl

/-- A condition on arguments, and what comes after it. -/
theorem mirrors_unless (c : Prop) [Decidable c] {t : Trouble} {x y : Eval α}
    (h : Mirrors S w False x y) (ht : t.Common) :
    Mirrors S w False (if c then (Eval.fail t : Eval PUnit) >>= fun _ => x else x)
      (if c then (Eval.fail t : Eval PUnit) >>= fun _ => y else y) := by
  split
  · exact .fail_bind id ht
  · exact h

theorem mirrors_mathBinary (name : String) (f : Float → Float → Float) (args : List Value) :
    Mirrors S w False (Math.binary name f args)
      (Math.binary name f (args.map (Value.recast ℓ.naming.recast))) := by
  refine mirrors_arity _ name args ?_
  rw [arg_recast, arg_recast]
  exact mirrors_realArg name _ fun x => mirrors_realArg name _ fun y =>
    mirrors_unless _ (mirrors_leaf (v := .real _) trivial) (.of rfl)

theorem mirrors_mathRounding (name : String) (f : Float → Float) (args : List Value) :
    Mirrors S w False (Math.rounding name f args)
      (Math.rounding name f (args.map (Value.recast ℓ.naming.recast))) := by
  refine mirrors_arity _ name args ?_
  have rounded : ∀ v : Value, Mirrors S w False
      (Math.realArg name v >>= fun x => Eval.ofExcept (Math.roundedInt (f x)) >>= fun n =>
        (pure (.int n) : Eval Value))
      (Math.realArg name (v.recast ℓ.naming.recast) >>= fun x =>
        Eval.ofExcept (Math.roundedInt (f x)) >>= fun n => pure (.int n)) := by
    refine fun v => mirrors_realArg name v fun x => ?_
    rw [Math.roundedInt]
    split
    · exact .fail_bind id (.of rfl)
    · split
      next n _ => exact mirrors_leaf (v := .int n) trivial
      · exact .fail_bind id (.of rfl)
  rw [arg_recast]
  cases arg args 0 with
  | int n => exact mirrors_leaf (v := .int n) trivial
  | _ => exact rounded _

theorem mirrors_mathQuestion (name : String) (q : Float → Bool) (args : List Value) :
    Mirrors S w False (Math.question name q args)
      (Math.question name q (args.map (Value.recast ℓ.naming.recast))) := by
  refine mirrors_arity _ name args ?_
  rw [arg_recast]
  exact mirrors_realArg name _ fun x => mirrors_leaf (v := .bool _) trivial

theorem mirrors_math (f : MathFunction) (args : List Value) :
    Mirrors S w False (Math.call f args)
      (Math.call f (args.map (Value.recast ℓ.naming.recast))) := by
  cases f with
  | unary f =>
    refine mirrors_arity _ _ args ?_
    rw [arg_recast]
    exact mirrors_realArg _ _ fun x => mirrors_unless _ (mirrors_leaf (v := .real _) trivial) (.of rfl)
  | floor => exact mirrors_mathRounding _ _ args
  | ceil => exact mirrors_mathRounding _ _ args
  | pow => exact mirrors_mathBinary _ _ args
  | atan2 => exact mirrors_mathBinary _ _ args
  | hypot => exact mirrors_mathBinary _ _ args
  | log =>
    refine mirrors_arity _ _ args ?_
    rw [arg_recast]
    refine mirrors_realArg _ _ fun x => mirrors_unless _ ?_ (.of rfl)
    match args with
    | [_, b] =>
      exact mirrors_realArg _ b fun base => mirrors_unless _ (mirrors_leaf (v := .real _) trivial) (.of rfl)
    | [] | [_] | _ :: _ :: _ :: _ => exact mirrors_leaf (v := .real _) trivial
  | gcd =>
    refine mirrors_arity _ _ args ?_
    rw [arg_recast, arg_recast]
    exact mirrors_intArg _ _ fun a => mirrors_intArg _ _ fun b =>
      mirrors_leaf (v := .int _) trivial
  | factorial =>
    refine mirrors_arity _ _ args ?_
    rw [arg_recast]
    exact mirrors_intArg _ _ fun n => mirrors_unless _
      (mirrors_unless _ (mirrors_leaf (v := .int _) trivial) (.of rfl)) (.of rfl)
  | isnan => exact mirrors_mathQuestion _ _ args
  | isinf => exact mirrors_mathQuestion _ _ args

theorem mirrors_system (f : SystemFunction) {args : List Value}
    (ha : ∀ v ∈ args, (S.realm w).Holds v) :
    Mirrors S w False (SystemModule.call f args)
      (SystemModule.call f (args.map (Value.recast ℓ.naming.recast))) := by
  cases f with
  | time => exact mirrors_arity _ _ args (.look rfl rfl (mirrors_leaf (v := .real _) trivial))
  | now => exact mirrors_arity _ _ args (.look rfl rfl (mirrors_leaf (v := .string _) trivial))
  | env =>
    refine mirrors_arity _ _ args ?_
    rw [arg_recast, arg_recast]
    cases arg args 0 with
    | string name =>
      refine .look rfl rfl ?_
      rw [Stand.setup_env]
      cases ℓ.setup.env.get? name with
      | some v => exact mirrors_leaf (v := .string v) trivial
      | none => exact .pure (holds_arg ha 1)
    | _ => exact mirrors_mistyped _ fun _ => .of rfl
  | platform => exact mirrors_arity _ _ args (mirrors_leaf (v := .string _) trivial)
  | sleep =>
    refine mirrors_arity _ _ args ?_
    rw [arg_recast, Value.number?_recast]
    cases (arg args 0).number? with
    | some x => exact mirrors_unless _ (mirrors_leaf (v := .none) trivial) (.of rfl)
    | none => exact mirrors_mistyped _ fun _ => .of rfl

theorem mirrors_localeArg (fn : String) (args : List Value) (i : Nat) {f g : Locale → Eval α}
    (h : ∀ l, Mirrors S w False (f l) (g l)) :
    Mirrors S w False (LocaleModule.localeArg fn args i >>= f)
      (LocaleModule.localeArg fn (args.map (Value.recast ℓ.naming.recast)) i >>= g) := by
  have given : (args.map (Value.recast ℓ.naming.recast)).getD i (.string LocaleModule.defaultTag) =
      (args.getD i (.string LocaleModule.defaultTag)).recast ℓ.naming.recast := by
    rw [List.getD_eq_getElem?_getD, List.getElem?_map, List.getD_eq_getElem?_getD]
    cases args[i]? <;> rfl
  rw [LocaleModule.localeArg, LocaleModule.localeArg, given]
  cases args.getD i (.string LocaleModule.defaultTag) with
  | string tag =>
    dsimp only [Value.recast_string]
    cases Locale.ofTag? tag with
    | some l => exact h l
    | none => exact .fail_bind id (.of rfl)
  | _ => exact mirrors_mistyped_bind _ fun _ => .of rfl

theorem mirrors_numberArg (fn : String) (v : Value) {f g : Float → Eval α}
    (h : ∀ x, Mirrors S w False (f x) (g x)) :
    Mirrors S w False (LocaleModule.numberArg fn v >>= f)
      (LocaleModule.numberArg fn (v.recast ℓ.naming.recast) >>= g) := by
  cases v with
  | int n => exact h _
  | real x => exact h x
  | _ => exact mirrors_mistyped_bind _ fun _ => .of rfl

theorem mirrors_currencyArg (fn : String) (v : Value) {f g : Currency → Eval α}
    (h : ∀ c, Mirrors S w False (f c) (g c)) :
    Mirrors S w False (LocaleModule.currencyArg fn v >>= f)
      (LocaleModule.currencyArg fn (v.recast ℓ.naming.recast) >>= g) := by
  cases v with
  | string code =>
    simp only [LocaleModule.currencyArg, Value.recast_string]
    cases Currency.ofCode? code with
    | some c => exact h c
    | none => exact .fail_bind id (.of rfl)
  | _ => exact mirrors_mistyped_bind _ fun _ => .of rfl

theorem mirrors_locale (f : LocaleFunction) (args : List Value) :
    Mirrors S w False (LocaleModule.call f args)
      (LocaleModule.call f (args.map (Value.recast ℓ.naming.recast))) := by
  have writer : ∀ fn write, Mirrors S w False (LocaleModule.writer fn write args)
      (LocaleModule.writer fn write (args.map (Value.recast ℓ.naming.recast))) := by
    intro fn write
    refine mirrors_arity _ _ args ?_
    rw [arg_recast]
    exact mirrors_numberArg _ _ fun x => mirrors_localeArg _ args 1 fun l =>
      mirrors_leaf (v := .string _) trivial
  cases f with
  | formatNumber => exact writer _ _
  | formatPercent => exact writer _ _
  | formatInt =>
    refine mirrors_arity _ _ args ?_
    rw [arg_recast]
    cases arg args 0 with
    | int n => exact mirrors_localeArg _ args 1 fun l => mirrors_leaf (v := .string _) trivial
    | _ => exact mirrors_mistyped _ fun _ => .of rfl
  | formatCurrency =>
    refine mirrors_arity _ _ args ?_
    rw [arg_recast, arg_recast]
    exact mirrors_numberArg _ _ fun x => mirrors_currencyArg _ _ fun c =>
      mirrors_localeArg _ args 2 fun l => mirrors_leaf (v := .string _) trivial

/-! ### Passwords and tokens -/

theorem mirrors_text (fn : String) (args : List Value) (i : Nat) {f g : String → Eval α}
    (h : ∀ s, Mirrors S w False (f s) (g s)) :
    Mirrors S w False (CryptoModule.text fn args i >>= f)
      (CryptoModule.text fn (args.map (Value.recast ℓ.naming.recast)) i >>= g) := by
  rw [CryptoModule.text, CryptoModule.text, arg_recast]
  cases arg args i with
  | string s => exact h s
  | _ => exact mirrors_mistyped_bind _ fun _ => .of rfl

theorem costArg_recast (ρ : Recast) (args : List Value) :
    CryptoModule.costArg (args.map (Value.recast ρ)) = CryptoModule.costArg args := by
  match args with
  | [_, v] | _ :: v :: _ :: _ => cases v <;> rfl
  | [] | [_] => rfl

theorem mirrors_hashPassword (args : List Value) :
    Mirrors S w False (CryptoModule.hashPassword args)
      (CryptoModule.hashPassword (args.map (Value.recast ℓ.naming.recast))) := by
  refine mirrors_arity _ _ args (mirrors_text _ _ _ fun password => ?_)
  rw [costArg_recast]
  cases CryptoModule.costArg args with
  | none => exact .fail id (.of rfl)
  | some cost =>
    refine mirrors_unless _ ?_ (.of rfl)
    have salted : Mirrors S w False
        (CryptoModule.newSalt >>= fun salt =>
          (pure (.string (Crypto.Password.store cost salt password)) : Eval Value))
        (CryptoModule.newSalt >>= fun salt =>
          pure (.string (Crypto.Password.store cost salt password))) :=
      .step (a := Value.string _) rfl rfl rfl rfl rfl trivial
    exact salted

theorem mirrors_verifyPassword (args : List Value) :
    Mirrors S w False (CryptoModule.verifyPassword args)
      (CryptoModule.verifyPassword (args.map (Value.recast ℓ.naming.recast))) := by
  refine mirrors_arity _ _ args (mirrors_text _ _ _ fun password =>
    mirrors_text _ _ _ fun stored => ?_)
  cases Crypto.Password.verify password stored with
  | ok b => exact mirrors_leaf (v := .bool b) trivial
  | error e => exact .fail id (.of rfl)

/-- The claims of a token, in order. -/
def sortedClaims (h : Heap) (d : DictRef) : Table Value := Datum.sortFields (h.textEntries d)

theorem mirrors_claimsArg (v : Value) {f g : Table Value → Eval α}
    (h : ∀ d, v = .dict d → Mirrors S w False (f (sortedClaims w.heap d))
      (g ((sortedClaims w.heap d).recast ℓ.naming.recast))) :
    Mirrors S w False (CryptoModule.claimsArg v >>= f)
      (CryptoModule.claimsArg (v.recast ℓ.naming.recast) >>= g) := by
  cases v with
  | dict d =>
    have read : ∀ k : Table Value → Eval α, CryptoModule.claimsArg (.dict d) >>= k =
        Eval.inHeap (·.textEntries d) >>= fun entries => k (Datum.sortFields entries) := fun _ => rfl
    rw [Value.recast_dict, read, read]
    refine .inHeap ?_
    rw [Heap.textEntries_recast, Table.recast, Datum.sortFields_map]
    exact h d rfl
  | _ => exact mirrors_mistyped_bind _ fun _ => .of rfl

/-- The claims with the end of a lifetime among them, or as they are. -/
theorem mirrors_withLifetime (args : List Value) (claims : Table Value)
    {f g : Table Value → Eval α}
    (h : ∀ fields : Table Value, (∀ e ∈ fields, e ∈ claims ∨ ∃ n, e.2 = .int n) →
      Mirrors S w False (f fields) (g (fields.recast ℓ.naming.recast))) :
    Mirrors S w False (CryptoModule.withLifetime args claims >>= f)
      (CryptoModule.withLifetime (args.map (Value.recast ℓ.naming.recast))
        (claims.recast ℓ.naming.recast) >>= g) := by
  have unchanged := h claims fun _ he => .inl he
  match args with
  | [_, _, v] =>
    cases v with
    | int n =>
      refine .look rfl rfl ?_
      have recast := Datum.insertField_map (Value.recast ℓ.naming.recast) "exp"
        (.int (CryptoModule.expiry ℓ.setup.clock n)) claims
      refine Eq.subst (motive := fun fields => Mirrors S w False _ (g fields)) recast.symm
        (h _ fun e he => ?_)
      rcases Datum.mem_insertField he with rfl | he
      · exact .inr ⟨_, rfl⟩
      · exact .inl he
    | _ => exact .fail_bind id (.of rfl)
  | _ :: _ :: v :: _ :: _ => cases v <;> exact unchanged
  | [] | [_] | [_, _] => exact unchanged

theorem mirrors_signToken {args : List Value} (shown : ℓ.same ∨ ¬ w.heap.Shows true (arg args 0)) :
    Mirrors S w False (CryptoModule.signToken args)
      (CryptoModule.signToken (args.map (Value.recast ℓ.naming.recast))) := by
  refine mirrors_arity _ _ args ?_
  rw [arg_recast]
  refine mirrors_claimsArg _ fun d dict => mirrors_text _ _ _ fun secret =>
    mirrors_withLifetime args _ fun fields among => .inHeap ?_
  have data : (w.heap.recast ℓ.naming.recast).toJson (fields.recast ℓ.naming.recast) =
      w.heap.toJson fields := by
    rcases shown with same | hidden
    · have still := Renaming.still_recast (ℓ.unit_same same) (ℓ.leaves_same same)
      exact Heap.toJson_still still fields
    · refine Heap.toJson_recast fun e he shows => ?_
      rcases among e he with he | ⟨n, hn⟩
      · rw [dict] at hidden
        exact hidden (.entry (Datum.mem_sortFields he) shows)
      · rw [hn] at shows
        cases shows
  rw [data]
  cases (w.heap.toJson fields).bind (Crypto.WebToken.sign · secret) with
  | ok token => exact mirrors_leaf (v := .string token) trivial
  | error u => exact .raise (.plain _) fun _ no => no.elim

theorem mirrors_verifyToken (args : List Value) :
    Mirrors S w False (CryptoModule.verifyToken args)
      (CryptoModule.verifyToken (args.map (Value.recast ℓ.naming.recast))) := by
  refine mirrors_arity _ _ args (mirrors_text _ _ _ fun token => mirrors_text _ _ _ fun secret =>
    .look rfl rfl ?_)
  rw [Stand.setup_env]
  cases Crypto.WebToken.verify? ℓ.setup.clock token secret with
  | some claims => exact .onHeap fun _ => turns_ofPlain claims w.heap
  | none => exact mirrors_leaf (v := .none) trivial

theorem mirrors_crypto (f : CryptoFunction) {args : List Value}
    (shown : f = .signToken → ℓ.same ∨ ¬ w.heap.Shows true (arg args 0)) :
    Mirrors S w False (CryptoModule.call f args)
      (CryptoModule.call f (args.map (Value.recast ℓ.naming.recast))) := by
  cases f with
  | hashPassword => exact mirrors_hashPassword args
  | verifyPassword => exact mirrors_verifyPassword args
  | signToken => exact mirrors_signToken (shown rfl)
  | verifyToken => exact mirrors_verifyToken args
  | sha256 =>
    exact mirrors_arity _ _ args (mirrors_text _ _ _ fun s => mirrors_leaf (v := .string _) trivial)

/-! ### What an extension can do -/

theorem Dictionary.recast_getD_insert? (ρ : Recast) (d : Dictionary) (k : String) (v : Value) :
    ((d.insert? (.string k) v).getD d).recast ρ =
      ((d.recast ρ).insert? (.string k) (v.recast ρ)).getD (d.recast ρ) := by
  have inserted := Dictionary.recast_insert? (ρ := ρ) d (.string k) v
  rw [Value.recast_string] at inserted
  rw [inserted]
  cases d.insert? (.string k) v <;> rfl

theorem mirrors_mixed : Mirrors S w False Probe.mixed Probe.mixed := by
  have leaves : ∀ {vs : List Value} {w' : World}, (∀ v ∈ vs, v.Leaf) →
      Mirrors S w' False (Eval.newArray vs) (Eval.newArray vs) := by
    intro vs w' hvs
    have same : vs.map (Value.recast ℓ.naming.recast) = vs :=
      (List.map_congr_left fun v hv => (hvs v hv).recast).trans (List.map_id vs)
    have made := Mirrors.newArray (S := S) (w := w') (p := False) fun v hv => (hvs v hv).holds
    rwa [same] at made
  refine (leaves fun v hv => ?_).bind fun a w₁ _ _ ha => (leaves fun v hv => ?_).bind
    fun b w₂ _ steps hb => ?_
  · rw [List.mem_singleton.mp hv]
    trivial
  · simp only [List.mem_cons, List.not_mem_nil, or_false] at hv
    rcases hv with rfl | rfl | rfl | rfl | rfl <;> trivial
  · have made := Mirrors.newDict (S := S) (w := w₂) (p := False)
      ((Dictionary.All.empty.getD_insert? (k := .string "a") (steps.holds ha)).getD_insert?
        (k := .string "b") hb)
    rw [Dictionary.recast_getD_insert?, Dictionary.recast_getD_insert?, Dictionary.recast_empty] at made
    exact made

theorem mirrors_probe (hr : Mirroring S r r') (f : ProbeFunction) {home : InterpreterId}
    (hh : (S.realm w).Home home) (counter : Nat) {args : List Value}
    (ha : ∀ v ∈ args, (S.realm w).Holds v) :
    Mirrors S w False (Probe.call r f home counter args)
      (Probe.call r' f home counter (args.map (Value.recast ℓ.naming.recast))) := by
  cases f with
  | count =>
    have counted : Mirrors S w False (Probe.count counter) (Probe.count counter) :=
      .step (a := Value.int _) rfl rfl rfl rfl rfl trivial
    exact counted
  | apply =>
    refine mirrors_arity _ _ args (.on hh ?_)
    rw [arg_recast, ← List.map_drop]
    exact hr.call home _ w False (arg args 0) (args.drop 1) .nowhere (Stand.allows_nowhere id)
      (holds_arg ha 0) fun v hv => ha v (List.mem_of_mem_drop hv)
  | fail => exact .raise (.plain _) fun _ no => no.elim
  | wrapped => exact .fail id (.of rfl)
  | bad => exact .raise (.plain _) fun _ no => no.elim
  | mixed => exact mirrors_mixed
  | str =>
    refine mirrors_displayed hh ?_
    rw [arg_recast]
    exact hr.str home _ w _ (holds_arg ha 0)
  | repr =>
    refine mirrors_displayed hh ?_
    rw [arg_recast]
    exact hr.repr home _ w _ (holds_arg ha 0)
  | write =>
    refine .inHeap ?_
    rw [arg_recast, Heap.text_recast]
    exact (Mirrors.write _).bind fun _ _ _ _ _ => mirrors_leaf (v := .none) trivial

end Libraries

/-! ## All of them -/

theorem mirrors_nativeCall (hr : Mirroring S r r') (name : String) {a : Native} {args : List Value}
    (hn : (S.realm w).Carries a) (ha : ∀ v ∈ args, (S.realm w).Holds v)
    (shown : a = .crypto .signToken → ℓ.same ∨ ¬ w.heap.Shows true (arg args 0)) :
    Mirrors S w False (Run.nativeCall r name args a)
      (Run.nativeCall r' name (args.map (Value.recast ℓ.naming.recast)) a) := by
  cases a with
  | input home => exact mirrors_input hr hn name ha
  | len => exact mirrors_len name args
  | position => exact mirrors_position name args
  | substring => exact mirrors_substring name args
  | stringToInt => exact mirrors_convert name ha fun v _ => mirrors_intOf v
  | stringToReal => exact mirrors_convert name ha fun v _ => mirrors_realOf v
  | intToString => exact mirrors_convert name ha fun v _ => mirrors_plainText v
  | realToString => exact mirrors_convert name ha fun v _ => mirrors_plainText v
  | charToCode => exact mirrors_charToCode name args
  | codeToChar => exact mirrors_codeToChar name args
  | randomInt => exact mirrors_randomInt name args
  | sqrt => exact mirrors_sqrt name args
  | toInt =>
    exact mirrors_convertOr name ha (mirrors_leaf (v := .int 0) trivial) fun v _ => mirrors_intOf v
  | toReal =>
    exact mirrors_convertOr name ha (mirrors_leaf (v := .real 0) trivial) fun v _ => mirrors_realOf v
  | toBool =>
    exact mirrors_convertOr name ha (mirrors_leaf (v := .bool false) trivial) fun v _ =>
      mirrors_boolOf v
  | toText home =>
    exact mirrors_convertOr name ha (mirrors_leaf (v := .string "") trivial) fun v hv =>
      mirrors_displayed hn (hr.str home _ w v hv)
  | toArray =>
    exact mirrors_convertOr name ha (.newArray (List.forall_mem_nil _)) fun v hv =>
      .ofHeapOp id fun _ => turns_toArray hv
  | toDict =>
    refine mirrors_convertOr name ha ?_ fun v hv => .ofHeapOp id fun _ => turns_toDict hv
    have made := Mirrors.newDict (S := S) (w := w) (p := False) Dictionary.All.empty
    rwa [Dictionary.recast_empty] at made
  | arrayAppend a => exact mirrors_arrayAppend hn name ha
  | arrayPop a => exact mirrors_arrayPop hn name args
  | arrayInsert a => exact mirrors_arrayInsert hn name ha
  | arrayLength a => exact mirrors_arrayLength a name args
  | dictKeys d => exact mirrors_dictKeys hn name args
  | dictValues d => exact mirrors_dictValues hn name args
  | dictHas d => exact mirrors_dictHas d name args
  | dictRemove d => exact mirrors_dictRemove hn name args
  | dictLength d => exact mirrors_dictLength d name args
  | textLength s => exact mirrors_textMethod (v := .int _) trivial name args
  | textUpper s => exact mirrors_textMethod (v := .string _) trivial name args
  | textLower s => exact mirrors_textMethod (v := .string _) trivial name args
  | math f => exact mirrors_math f args
  | system f => exact mirrors_system f ha
  | crypto f => exact mirrors_crypto f fun sign => shown (congrArg Native.crypto sign)
  | locale f => exact mirrors_locale f args
  | probe f home counter => exact mirrors_probe hr f hn counter ha
  | inert => exact mirrors_leaf (v := .none) trivial

theorem mirrors_native (hr : Mirroring S r r') {b : Builtin} {args : List Value}
    (hb : (S.realm w).Holds (.builtin b)) (ha : ∀ v ∈ args, (S.realm w).Holds v)
    (passes : S.Passes w (.calling (.builtin b) args)) :
    Mirrors S w False (Run.native r b args)
      (Run.native r' b (args.map (Value.recast ℓ.naming.recast))) :=
  mirrors_nativeCall hr b.name hb ha passes

end Pseudocode
