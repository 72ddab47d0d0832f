import Pseudocode.Builtin.Convert
import Pseudocode.Proofs.Dictionary.Ledger
import Pseudocode.Proofs.Ownership.Slot
import Pseudocode.Run.Call
import Pseudocode.Run.Index
import Pseudocode.Value.Plain
/-
# `Proofs.Execution.Binding` — what a change of the heap does to scopes

Two relations between a heap and a later one.  `KeepsConstants` says that a name
that was declared constant still is and is bound to the same; `KeepsScope` says of
one scope that it has the same constants and that its names are bound to the same,
apart from some that are exempt.  Both compose, and the two operations that change
scopes, binding a name and adding a scope, satisfy them under conditions.

All other operations on the heap leave its scopes alone, and a dictionary that they make is made
by the operations of dictionaries (`Careful`).
-/
namespace Pseudocode

namespace Heap

variable {h h' h'' : Heap}

/-- What a name is bound to in a scope itself. -/
def binding? (h : Heap) (s : ScopeRef) (name : String) : Option Value :=
  (h.scope s).bindings.get? name

/-- No scope goes away, and the constants of each are bound to the same. -/
structure KeepsConstants (h h' : Heap) : Prop where
  size : h.scopes.size ≤ h'.scopes.size
  constant : ∀ s name, h.isConstant s name = true →
    h'.isConstant s name = true ∧ h'.binding? s name = h.binding? s name

/-- The scope has the same constants, and its names are bound to the same, apart from
those that are exempt. -/
structure KeepsScope (exempt : String → Prop) (s : ScopeRef) (h h' : Heap) : Prop where
  constants : (h'.scope s).constants = (h.scope s).constants
  binding : ∀ name, ¬ exempt name → h'.binding? s name = h.binding? s name

theorem scope_congr (he : h'.scopes = h.scopes) (s : ScopeRef) : h'.scope s = h.scope s := by
  rw [scope, scope, he]

namespace KeepsConstants

theorem of_eq (he : h'.scopes = h.scopes) : h.KeepsConstants h' where
  size := Nat.le_of_eq (congrArg Array.size he.symm)
  constant s name hc := by
    rw [isConstant, binding?, binding?, scope_congr he]
    exact ⟨hc, rfl⟩

theorem refl (h : Heap) : h.KeepsConstants h := .of_eq rfl

theorem trans (k : h.KeepsConstants h') (l : h'.KeepsConstants h'') : h.KeepsConstants h'' where
  size := Nat.le_trans k.size l.size
  constant s name hc := by
    obtain ⟨hc', hb⟩ := k.constant s name hc
    obtain ⟨hc'', hb'⟩ := l.constant s name hc'
    exact ⟨hc'', hb'.trans hb⟩

end KeepsConstants

namespace KeepsScope

variable {exempt : String → Prop} {s : ScopeRef}

theorem of_eq (he : h'.scope s = h.scope s) : KeepsScope exempt s h h' where
  constants := by rw [he]
  binding name _ := by rw [binding?, binding?, he]

theorem trans (k : KeepsScope exempt s h h') (l : KeepsScope exempt s h' h'') :
    KeepsScope exempt s h h'' where
  constants := l.constants.trans k.constants
  binding name hn := (l.binding name hn).trans (k.binding name hn)

end KeepsScope

/-! ## Binding a name -/

theorem scope_bind (h : Heap) (s : ScopeRef) (name : String) (v : Value) (constant : Bool)
    (t : ScopeRef) : (h.bind s name v constant).scope t =
      if s.index = t.index ∧ s.index < h.scopes.size then
        { h.scope t with
          bindings := (h.scope t).bindings.put name v
          constants := if constant then name :: (h.scope t).constants else (h.scope t).constants }
      else h.scope t := by
  simp only [bind, scope, modifyScope, getD_modify]

theorem size_bind (h : Heap) (s : ScopeRef) (name : String) (v : Value) (constant : Bool) :
    (h.bind s name v constant).scopes.size = h.scopes.size := Array.size_modify

theorem scope_bind_of_ne {s t : ScopeRef} (hne : s ≠ t) (name : String) (v : Value)
    (constant : Bool) : (h.bind s name v constant).scope t = h.scope t := by
  rw [scope_bind, if_neg]
  rintro ⟨hst, -⟩
  exact hne (by cases s; cases t; cases hst; rfl)

/-- A binding that is not a constant leaves the constants of every scope. -/
theorem constants_bind (h : Heap) (s : ScopeRef) (name : String) (v : Value) (t : ScopeRef) :
    ((h.bind s name v false).scope t).constants = (h.scope t).constants := by
  rw [scope_bind]
  split <;> rfl

theorem binding?_bind_of_ne {s t : ScopeRef} {name other : String} (hne : name ≠ other) (v : Value)
    (constant : Bool) : (h.bind s name v constant).binding? t other = h.binding? t other := by
  rw [binding?, binding?, scope_bind]
  split
  · exact Table.get?_put_of_ne _ v hne
  · rfl

/-- Binding a name that is no constant keeps those there are. -/
theorem KeepsConstants.bind {s : ScopeRef} {name : String} (hn : h.isConstant s name = false)
    (v : Value) (constant : Bool) : h.KeepsConstants (h.bind s name v constant) where
  size := Nat.le_of_eq (h.size_bind s name v constant).symm
  constant t other hc := by
    by_cases hst : s = t
    · subst hst
      have hne : name ≠ other := by
        rintro rfl
        rw [hn] at hc
        cases hc
      refine ⟨?_, binding?_bind_of_ne hne v constant⟩
      rw [isConstant, scope_bind]
      split
      · cases constant with
        | true => exact List.contains_cons.trans (by rw [← isConstant, hc, Bool.or_true])
        | false => exact hc
      · exact hc
    · rw [isConstant, binding?, binding?, scope_bind_of_ne hst]
      exact ⟨hc, rfl⟩

/-- Binding an exempt name. -/
theorem KeepsScope.bind {exempt : String → Prop} {s : ScopeRef} {name : String}
    (hn : exempt name) (v : Value) : KeepsScope exempt s h (h.bind s name v false) where
  constants := h.constants_bind s name v s
  binding other ho := by
    refine binding?_bind_of_ne ?_ v false
    rintro rfl
    exact ho hn

theorem binding?_bind_self {s : ScopeRef} (hs : s.index < h.scopes.size) (name : String) (v : Value)
    (constant : Bool) : (h.bind s name v constant).binding? s name = some v := by
  rw [binding?, scope_bind, if_pos ⟨rfl, hs⟩]
  exact Table.get?_put_self _ name v

theorem isConstant_bind_self {s : ScopeRef} (hs : s.index < h.scopes.size) (name : String)
    (v : Value) : (h.bind s name v true).isConstant s name = true := by
  rw [isConstant, scope_bind, if_pos ⟨rfl, hs⟩]
  exact List.contains_cons.trans (by rw [beq_self_eq_true, Bool.true_or])

/-! ## Adding a scope -/

theorem scope_newScope_of_lt {s : ScopeRef} (hs : s.index < h.scopes.size) (sc : Scope) :
    (h.newScope sc).2.scope s = h.scope s := by
  simp only [scope, newScope, getD_push]
  rw [if_neg (Nat.ne_of_lt hs)]

theorem scope_newScope_self (h : Heap) (sc : Scope) :
    (h.newScope sc).2.scope ⟨h.scopes.size⟩ = sc := by
  simp only [scope, newScope, getD_push, if_true]

/-- A name is constant only in a scope that there is. -/
theorem lt_of_isConstant {s : ScopeRef} {name : String} (hc : h.isConstant s name = true) :
    s.index < h.scopes.size := by
  by_contra hs
  rw [isConstant, scope, Array.getD_eq_getD_getElem?,
    Array.getElem?_eq_none (Nat.not_lt.mp hs)] at hc
  cases hc

theorem KeepsConstants.of_empty (h : Heap) : Heap.empty.KeepsConstants h where
  size := Nat.zero_le _
  constant _ _ hc := absurd (lt_of_isConstant hc) (Nat.not_lt_zero _)

theorem KeepsConstants.newScope (h : Heap) (sc : Scope) :
    h.KeepsConstants (h.newScope sc).2 where
  size := by
    change h.scopes.size ≤ (h.scopes.push sc).size
    rw [Array.size_push]
    exact Nat.le_succ _
  constant s name hc := by
    rw [isConstant, binding?, binding?, scope_newScope_of_lt (lt_of_isConstant hc)]
    exact ⟨hc, rfl⟩

/-! ## Observing a scope -/

theorem scope_observe (h : Heap) (s : ScopeRef) (observer : Option String) (t : ScopeRef) :
    ((h.modifyScope s fun sc => { sc with observer }).scope t).bindings = (h.scope t).bindings ∧
      ((h.modifyScope s fun sc => { sc with observer }).scope t).constants =
        (h.scope t).constants := by
  simp only [scope, modifyScope, getD_modify]
  split <;> exact ⟨rfl, rfl⟩

/-! ## Making containers -/

variable {α β : Type} {trusted : Prop}

/-- The action leaves the scopes alone.  If it is `trusted` that operations have made all
dictionaries, then this stays so, and the result is one of those that are meant. -/
def Careful (trusted : Prop) (P : α → Prop) (x : StateM Heap α) : Prop :=
  ∀ h : Heap, (trusted → h.Built) →
    (x.run h).2.scopes = h.scopes ∧ (trusted → (x.run h).2.Built ∧ P (x.run h).1)

namespace Careful

variable {P : α → Prop} {Q : β → Prop}

theorem pure {a : α} (ha : trusted → P a) : Careful trusted P (pure a) :=
  fun _ hb => ⟨rfl, fun ht => ⟨hb ht, ha ht⟩⟩

theorem get : Careful trusted Heap.Built (get : StateM Heap Heap) :=
  fun _ hb => ⟨rfl, fun ht => ⟨hb ht, hb ht⟩⟩

theorem bind {x : StateM Heap α} {f : α → StateM Heap β} (hx : Careful trusted P x)
    (hf : ∀ a, (trusted → P a) → Careful trusted Q (f a)) : Careful trusted Q (x >>= f) := by
  intro h hb
  obtain ⟨scopes, made⟩ := hx h hb
  obtain ⟨scopes', made'⟩ := hf _ (fun ht => (made ht).2) _ fun ht => (made ht).1
  exact ⟨scopes'.trans scopes, made'⟩

/-- Nothing need be meant by a result. -/
theorem any {x : StateM Heap α} (hx : Careful trusted P x) : Careful trusted (fun _ => True) x :=
  fun h hb => (hx h hb).imp_right fun made ht => ⟨(made ht).1, trivial⟩

theorem newArray (xs : Array Value) :
    Careful trusted (fun _ => True) (modifyGet (Heap.newArray xs)) :=
  fun _ hb => ⟨rfl, fun ht => ⟨hb ht, trivial⟩⟩

theorem newDict {d : Dictionary} (hd : trusted → d.Built) :
    Careful trusted (fun _ => True) (modifyGet (Heap.newDict d)) :=
  fun _ hb => ⟨rfl, fun ht => ⟨(hb ht).newDict (hd ht), trivial⟩⟩

theorem mapM {κ : Type} {f : κ → StateM Heap α} (hf : ∀ k, Careful trusted P (f k)) :
    ∀ ks : List κ, Careful trusted (fun as => as.length = ks.length) (ks.mapM f)
  | [] => .pure fun _ => rfl
  | k :: ks => by
      rw [List.mapM_cons]
      exact (hf k).bind fun a _ => (mapM hf ks).bind fun as same =>
        .pure fun ht => congrArg Nat.succ (same ht)

theorem arrayMapM {κ : Type} {f : κ → StateM Heap α} (hf : ∀ k, Careful trusted P (f k))
    (ks : Array κ) : Careful trusted (fun as => as.size = ks.size) (ks.mapM f) := by
  rw [Array.mapM_eq_mapM_toList]
  exact (mapM hf ks.toList).bind fun as same => .pure same

theorem copyTo : ∀ (depth : Nat) (v : Value),
    Careful trusted (fun _ => True) (Heap.copyTo depth v)
  | 0, v => .pure fun _ => trivial
  | n + 1, v => by
      cases v with
      | array r =>
          exact get.bind fun h _ => (arrayMapM (copyTo n) _).bind fun vs _ => .newArray vs
      | dict r =>
          exact get.bind fun h hb => (arrayMapM (copyTo n) _).bind fun vs same =>
            .newDict fun ht => ((hb ht).dict r).copy (same ht)
      | _ => exact .pure fun _ => trivial

theorem copy (v : Value) : Careful trusted (fun _ => True) (Heap.copy v) := by
  cases v with
  | array r => exact get.bind fun h _ => copyTo _ _
  | dict r => exact get.bind fun h _ => copyTo _ _
  | _ => exact .pure fun _ => trivial

theorem copyAll (vs : Array Value) : Careful trusted (fun _ => True) (Heap.copyAll vs) :=
  (arrayMapM copy vs).any

theorem copyTable (t : Table Value) : Careful trusted (fun _ => True) (Heap.copyTable t) := by
  refine (mapM (P := fun _ => True) (fun e => ?_) t).any
  exact (copy e.2).bind fun v _ => .pure fun _ => trivial

mutual

theorem ofPlain : ∀ x : Datum, Careful trusted (fun _ => True) (Heap.ofPlain x)
  | .null | .bool _ | .int _ | .real _ | .text _ => .pure fun _ => trivial
  | .list xs => by
      rw [Heap.ofPlain]
      exact (ofPlainItems xs).bind fun vs _ => .newArray vs.toArray
  | .object fs => by
      rw [Heap.ofPlain]
      exact (ofPlainFields .empty fs fun _ => .empty).bind fun d hd => .newDict hd

theorem ofPlainItems : ∀ xs : List Datum,
    Careful trusted (fun _ => True) (Heap.ofPlainItems xs)
  | [] => .pure fun _ => trivial
  | x :: xs => by
      rw [Heap.ofPlainItems]
      exact (ofPlain x).bind fun v _ => (ofPlainItems xs).bind fun vs _ => .pure fun _ => trivial

theorem ofPlainFields : ∀ (d : Dictionary) (fs : List (String × Datum)), (trusted → d.Built) →
    Careful trusted Dictionary.Built (Heap.ofPlainFields d fs)
  | d, [], hd => .pure hd
  | d, (k, x) :: fs, hd => by
      rw [Heap.ofPlainFields]
      exact (ofPlain x).bind fun v _ =>
        ofPlainFields _ fs fun ht => (hd ht).insert_of_key KeyForm.noConfusion v

end

end Careful

/-- Copying leaves the scopes alone. -/
theorem scopes_copy (v : Value) (h : Heap) : (Heap.copy v h).2.scopes = h.scopes :=
  (@Careful.copy False v h False.elim).1

end Heap

/-! ## Operations that may fail -/

namespace HeapOp

variable {α β : Type} {trusted : Prop}

/-- The operation is careful, whether it fails or not. -/
def Careful (trusted : Prop) (P : α → Prop) (x : HeapOp α) : Prop :=
  Heap.Careful trusted (fun r => ∀ a, r = .ok a → P a) x.run

namespace Careful

variable {P : α → Prop} {Q : β → Prop}

theorem pure {a : α} (ha : trusted → P a) : Careful trusted P (pure a) :=
  Heap.Careful.pure fun ht _ same => Except.ok.inj same ▸ ha ht

theorem fail (t : Trouble) : Careful trusted P (throw t : HeapOp α) :=
  Heap.Careful.pure fun _ _ same => nomatch same

theorem lift (r : Except Trouble α) : Careful trusted (fun _ => True) (liftM r : HeapOp α) := by
  cases r with
  | ok a => exact pure fun _ => trivial
  | error t => exact fail t

theorem ofState {x : StateM Heap α} (hx : Heap.Careful trusted P x) :
    Careful trusted P (HeapOp.ofState x) :=
  hx.bind fun _ ha => .pure fun ht _ same => Except.ok.inj same ▸ ha ht

theorem bind {x : HeapOp α} {f : α → HeapOp β} (hx : Careful trusted P x)
    (hf : ∀ a, (trusted → P a) → Careful trusted Q (f a)) : Careful trusted Q (x >>= f) := by
  refine Heap.Careful.bind (f := ExceptT.bindCont f) hx fun r hr => ?_
  cases r with
  | ok a => exact hf a fun ht => hr ht a rfl
  | error t => exact .pure fun _ _ same => nomatch same

theorem get : Careful trusted Heap.Built (get : HeapOp Heap) := ofState .get

theorem repeatArray (r : ArrayRef) (k : Int) :
    Careful trusted (fun _ => True) (Pseudocode.repeatArray r k) :=
  get.bind fun _ _ => (lift _).bind fun _ _ => .ofState
    ((Heap.Careful.mapM .copyAll _).bind fun _ _ => .newArray _)

theorem joinArrays (a b : ArrayRef) :
    Careful trusted (fun _ => True) (Pseudocode.joinArrays a b) :=
  .ofState (Heap.Careful.get.bind fun _ _ => (Heap.Careful.copyAll _).bind fun _ _ =>
    (Heap.Careful.copyAll _).bind fun _ _ => .newArray _)

theorem arithmetic (op : BinaryOp) (l r : Value) :
    Careful trusted (fun _ => True) (Pseudocode.arithmetic op l r) := by
  simp only [Pseudocode.arithmetic]
  split
  · exact .pure fun _ => trivial
  · exact .lift _
  · exact joinArrays _ _
  · exact repeatArray _ _
  · exact .lift _
  · exact repeatArray _ _
  · split
    · exact .lift _
    · split
      · exact .lift _
      · exact get.bind fun _ _ => .fail _

theorem binaryOp (op : BinaryOp) (l r : Value) :
    Careful trusted (fun _ => True) (Pseudocode.binaryOp op l r) := by
  simp only [Pseudocode.binaryOp]
  split
  · exact get.bind fun _ _ => .pure fun _ => trivial
  · exact get.bind fun _ _ => .pure fun _ => trivial
  · exact get.bind fun _ _ => .lift _
  · exact get.bind fun _ _ => .lift _
  · exact get.bind fun _ _ => .lift _
  · exact get.bind fun _ _ => .lift _
  · exact arithmetic _ _ _

theorem toArray (v : Value) : Careful trusted (fun _ => True) (Builtins.toArray v) := by
  cases v with
  | array r => exact .ofState (.copy _)
  | dict r => exact get.bind fun _ _ => .ofState (.newArray _)
  | string s => exact .ofState (.newArray _)
  | _ => exact get.bind fun _ _ => .fail _

theorem addPairs : ∀ (es : List Value) (i : Nat) (d : Dictionary), (trusted → d.Built) →
    Careful trusted Dictionary.Built (Builtins.addPairs i d es)
  | [], _, d, hd => .pure hd
  | e :: es, i, d, hd => by
      simp only [Builtins.addPairs]
      refine get.bind fun h _ => ?_
      split
      · exact .fail _
      · refine (ofState (.copy _)).bind fun u _ => ?_
        split
        next made => exact addPairs es _ _ fun ht => (hd ht).insert made
        next => exact get.bind fun _ _ => .fail _

theorem toDict (v : Value) : Careful trusted (fun _ => True) (Builtins.toDict v) := by
  cases v with
  | dict r => exact .ofState (.copy _)
  | array r =>
      exact get.bind fun _ _ => (addPairs _ 0 .empty fun _ => .empty).bind fun _ hd =>
        .ofState (.newDict hd)
  | _ => exact get.bind fun _ _ => .fail _

end Careful

end HeapOp

theorem careful_newInstance {trusted : Prop} (c : ClassRef) :
    Heap.Careful trusted (fun _ => True) (Run.newInstance c) := fun h hb => by
  obtain ⟨scopes, made⟩ := Heap.Careful.copyTable (h.classType c).props h hb
  exact ⟨scopes, fun ht => ⟨(made ht).1, trivial⟩⟩

theorem scopes_newInstance (c : ClassRef) (h : Heap) : (Run.newInstance c h).2.scopes = h.scopes :=
  (@careful_newInstance False c h False.elim).1

end Pseudocode
