import Pseudocode.Proofs.Ownership.Operation
import Pseudocode.Proofs.Places.Realm
/-
# `Proofs.Places.Turning` — operations on heaps that are recast

`Turns R h x y` is a judgement about two operations on heaps.  Started in a heap that is
tame, `x` leaves a tame heap and a result that the realm may hold, and it writes to no
cell outside; and `y`, started in the heap that is recast, ends with the same, recast.
Here are its rules, and one lemma for each operation that makes containers: copying,
operators, conversions, instances.
-/
namespace Pseudocode

/-! ## The judgement -/

section Judgement

variable {α β κ : Type} [Carried α] [Carried β] {R : Realm} {h h' : Heap}

/-- How two operations ended that were started in a heap and in the same heap recast. -/
structure Turned (R : Realm) (h : Heap) (p q : α × Heap) : Prop where
  tame : R.Tame p.2
  kept : R.marks.Kept h p.2
  good : Carried.Good R p.1
  same : q = (Carried.carry R.recast p.1, p.2.recast R.recast)

/-- The second operation does to the heap that is recast what the first does to the heap. -/
def Turns (R : Realm) (h : Heap) (x y : StateM Heap α) : Prop :=
  R.Tame h → Turned R h (x h) (y (h.recast R.recast))

namespace Turns

variable {x y : StateM Heap α} {f g : α → StateM Heap β}

theorem pure {a : α} (ha : Carried.Good R a) :
    Turns R h (pure a) (pure (Carried.carry R.recast a)) :=
  fun t => ⟨t, .refl _ _, ha, rfl⟩

theorem bind (hx : Turns R h x y)
    (hf : ∀ a h', Carried.Good R a → Turns R h' (f a) (g (Carried.carry R.recast a))) :
    Turns R h (x >>= f) (y >>= g) := by
  intro t
  obtain ⟨tame, kept, good, same⟩ := hx t
  obtain ⟨tame', kept', good', same'⟩ := hf (x h).1 (x h).2 good tame
  refine ⟨tame', kept.trans kept', good', ?_⟩
  change (let p := y (h.recast R.recast); g p.1 p.2) = _
  rw [same]
  exact same'

theorem get_bind {f g : Heap → StateM Heap β}
    (hf : R.Tame h → Turns R h (f h) (g (h.recast R.recast))) :
    Turns R h ((get : StateM Heap Heap) >>= f) ((get : StateM Heap Heap) >>= g) :=
  fun t => hf t t

/-- A single change of the heap. -/
theorem step {x y : Heap → α × Heap} (tame : R.Tame h → R.Tame (x h).2)
    (kept : R.Tame h → R.marks.Kept h (x h).2) (good : R.Tame h → Carried.Good R (x h).1)
    (same : y (h.recast R.recast) =
      (Carried.carry R.recast (x h).1, (x h).2.recast R.recast)) :
    Turns R h (modifyGet x) (modifyGet y) :=
  fun t => ⟨tame t, kept t, good t, same⟩

theorem newArray {xs : Array Value} (hx : ∀ v ∈ xs, R.Holds v) :
    Turns R h (modifyGet (Heap.newArray xs))
      (modifyGet (Heap.newArray (xs.map (Value.recast R.recast)))) :=
  step (fun t => t.newArray hx)
    (fun t => { Marks.Kept.refl R.marks h with arrays := Store.kept_push t.arrays.size _ })
    (fun t => t.arrays.size) (Heap.recast_newArray h xs)

theorem newDict {d : Dictionary} (hd : d.All R.Holds) :
    Turns R h (modifyGet (Heap.newDict d)) (modifyGet (Heap.newDict (d.recast R.recast))) :=
  step (fun t => t.newDict hd)
    (fun t => { Marks.Kept.refl R.marks h with dicts := Store.kept_push t.dicts.size _ })
    (fun t => t.dicts.size) (Heap.recast_newDict h d)

end Turns

/-- Operations for the elements of a list, in order. -/
theorem turns_mapM {f g : κ → StateM Heap α} (ks : List κ) (h : Heap)
    (hf : ∀ k ∈ ks, ∀ h, Turns R h (f k) (g k)) : Turns R h (ks.mapM f) (ks.mapM g) := by
  induction ks generalizing h with
  | nil => exact .pure (a := ([] : List α)) fun a ha => (List.not_mem_nil ha).elim
  | cons k ks ih =>
    rw [List.mapM_cons, List.mapM_cons]
    refine (hf k List.mem_cons_self h).bind fun a h₁ ha => ?_
    refine (ih h₁ fun j hj => hf j (List.mem_cons_of_mem k hj)).bind fun as h₂ has => ?_
    exact .pure (a := a :: as) (List.forall_mem_cons.mpr ⟨ha, has⟩)

/-- Operations for the elements of an array, in order. -/
theorem Turns.mapM {f g : Value → StateM Heap Value} {vs : Array Value}
    (hf : ∀ v ∈ vs, ∀ h, Turns R h (f v) (g (v.recast R.recast))) :
    Turns R h (vs.mapM f) ((vs.map (Value.recast R.recast)).mapM g) := by
  rw [Array.mapM_eq_mapM_toList, Array.mapM_eq_mapM_toList, Array.toList_map, List.mapM_map,
    map_eq_pure_bind, map_eq_pure_bind]
  have listed : Turns R h (vs.toList.mapM f) (vs.toList.mapM (g ∘ Value.recast R.recast)) :=
    turns_mapM vs.toList h fun v hv => hf v (Array.mem_toList_iff.mp hv)
  refine listed.bind fun us h₁ hus => ?_
  have made := Turns.pure (h := h₁) (a := us.toArray) fun v hv => hus v (List.mem_toArray.mp hv)
  rwa [show Carried.carry R.recast us.toArray = _ from List.map_toArray ..] at made

end Judgement

/-! ## Copies -/

section Copies

variable {R : Realm} {h : Heap}

theorem turns_copyTo (n : Nat) {v : Value} (hv : R.Holds v) (h : Heap) :
    Turns R h (Heap.copyTo n v) (Heap.copyTo n (v.recast R.recast)) := by
  induction n generalizing v h with
  | zero => exact .pure hv
  | succ n ih =>
    cases v with
    | array r =>
      refine .get_bind fun t => ?_
      rw [Heap.array_recast]
      exact (Turns.mapM fun v hv h => ih (t.array ‹_› v hv) h).bind fun vs h hvs => .newArray hvs
    | dict r =>
      refine .get_bind fun t => ?_
      rw [Heap.dict_recast]
      refine (Turns.mapM fun v hv h => ih ((t.dict ‹_›).values v hv) h).bind fun vs h hvs => ?_
      have turned := Turns.newDict (h := h) ((t.dict ‹_›).withValues hvs)
      rwa [Dictionary.recast_withValues] at turned
    | _ => exact .pure hv

theorem turns_copy {v : Value} (hv : R.Holds v) :
    Turns R h (Heap.copy v) (Heap.copy (v.recast R.recast)) := by
  have copied : Turns R h (get >>= fun h => Heap.copyTo (h.containers + 1) v)
      (get >>= fun h => Heap.copyTo (h.containers + 1) (v.recast R.recast)) := by
    refine .get_bind fun _ => ?_
    rw [Heap.containers_recast]
    exact turns_copyTo _ hv h
  cases v with
  | array r => exact copied
  | dict r => exact copied
  | _ => exact .pure hv

theorem turns_copyAll {vs : Array Value} (hv : ∀ v ∈ vs, R.Holds v) :
    Turns R h (Heap.copyAll vs) (Heap.copyAll (vs.map (Value.recast R.recast))) :=
  .mapM fun v hmem _ => turns_copy (hv v hmem)

theorem turns_copyTable (t : Table Value) (ht : t.All R.Holds) (h : Heap) :
    Turns R h (Heap.copyTable t) (Heap.copyTable (t.recast R.recast)) := by
  induction t generalizing h with
  | nil => exact .pure Table.All.nil
  | cons e rest ih =>
    obtain ⟨k, v⟩ := e
    have left : Heap.copyTable ((k, v) :: rest) = (Heap.copy v >>= fun c =>
        Heap.copyTable rest >>= fun cs => pure ((k, c) :: cs)) := by
      rw [Heap.copyTable, List.mapM_cons]
      rfl
    have right : Heap.copyTable (Table.recast R.recast ((k, v) :: rest)) =
        (Heap.copy (v.recast R.recast) >>= fun c =>
          Heap.copyTable (Table.recast R.recast rest) >>= fun cs => pure ((k, c) :: cs)) := by
      rw [Heap.copyTable, Table.recast, List.map_cons, List.mapM_cons]
      rfl
    rw [left, right]
    refine (turns_copy (ht (k, v) List.mem_cons_self)).bind fun c h₁ hc => ?_
    refine (ih (fun e he => ht e (List.mem_cons_of_mem _ he)) h₁).bind fun cs h₂ hcs => ?_
    exact .pure (a := ((k, c) :: cs : Table Value)) (List.forall_mem_cons.mpr ⟨hc, hcs⟩)

end Copies

/-! ## Operations that may fail -/

namespace HeapOp

variable {α β : Type} [Carried α] [Carried β] {R : Realm} {h : Heap} {x y : HeapOp α}

/-- The second operation does to the heap that is recast what the first does to the heap,
or fails as it does. -/
def Turns (R : Realm) (h : Heap) (x y : HeapOp α) : Prop := Pseudocode.Turns R h x.run y.run

theorem Turns.pure {a : α} (ha : Carried.Good R a) :
    Turns R h (Pure.pure a) (Pure.pure (Carried.carry R.recast a)) :=
  fun t => ⟨t, .refl _ _, ha, rfl⟩

theorem Turns.fail {t : Trouble} (ht : t.Common) :
    Turns R h (throw t : HeapOp α) (throw t) :=
  fun tame => ⟨tame, .refl _ _, ht, rfl⟩

theorem Turns.bind {f g : α → HeapOp β} (hx : Turns R h x y)
    (hf : ∀ a h', Carried.Good R a → Turns R h' (f a) (g (Carried.carry R.recast a))) :
    Turns R h (x >>= f) (y >>= g) := by
  intro t
  obtain ⟨tame, kept, good, same⟩ := hx t
  cases hrun : x.run h with
  | mk r h' =>
    change x.run h = (r, h') at hrun
    rw [hrun] at tame kept good same
    cases r with
    | ok a =>
      obtain ⟨tame', kept', good', same'⟩ := hf a h' good tame
      rw [run_bind_ok hrun, run_bind_ok same]
      exact ⟨tame', kept.trans kept', good', same'⟩
    | error e =>
      rw [run_bind_error hrun, run_bind_error same]
      exact ⟨tame, kept, good, rfl⟩

theorem Turns.get_bind {f g : Heap → HeapOp β}
    (hf : R.Tame h → Turns R h (f h) (g (h.recast R.recast))) :
    Turns R h ((get : HeapOp Heap) >>= f) ((get : HeapOp Heap) >>= g) :=
  fun t => hf t t

theorem Turns.lift {r : Except Trouble α} (hr : Carried.Good R r) :
    Turns R h (liftM r : HeapOp α) (liftM (r.map (Carried.carry R.recast)) : HeapOp α) := by
  cases r with
  | ok a => exact Turns.pure hr
  | error t => exact Turns.fail hr

theorem Turns.ofState {s s' : StateM Heap α} (hs : Pseudocode.Turns R h s s') :
    Turns R h (HeapOp.ofState s) (HeapOp.ofState s') := by
  intro t
  obtain ⟨tame, kept, good, same⟩ := hs t
  refine ⟨tame, kept, good, ?_⟩
  change (Except.ok (s' (h.recast R.recast)).1, (s' (h.recast R.recast)).2) = _
  rw [same]
  rfl

end HeapOp

/-! ## Operators -/

/-- Numbers, strings, booleans and `None`. -/
def Value.Leaf : Value → Prop
  | .none | .bool _ | .int _ | .real _ | .string _ => True
  | _ => False

theorem Value.Leaf.holds {R : Realm} {v : Value} (hv : v.Leaf) : R.Holds v := by
  cases v <;> trivial

theorem Value.Leaf.recast {ρ : Recast} {v : Value} (hv : v.Leaf) : v.recast ρ = v := by
  cases v <;> first | rfl | exact hv.elim

/-- A result that is a number, a string, a boolean or `None`, if there is one. -/
def LeafResult : Except Trouble Value → Prop
  | .ok v => v.Leaf
  | .error t => t.Common

namespace LeafResult

theorem ok {v : Value} (hv : v.Leaf) : LeafResult (.ok v) := hv

theorem error (t : Trouble) (ht : t.Common) : LeafResult (.error t) := ht

theorem ite {p : Prop} [Decidable p] {r r' : Except Trouble Value} (hr : LeafResult r)
    (hr' : LeafResult r') : LeafResult (if p then r else r') := by
  split
  · exact hr
  · exact hr'

theorem map_recast {ρ : Recast} {r : Except Trouble Value} (hr : LeafResult r) :
    r.map (Value.recast ρ) = r := by
  cases r with
  | ok v => exact congrArg Except.ok (Value.Leaf.recast hr)
  | error t => rfl

theorem wordResult (symbol : String) (r : Option Int64) : LeafResult (wordResult symbol r) := by
  cases r with
  | some n => exact ok trivial
  | none => exact error _ (.of rfl)

theorem realPower (x y : Float) : LeafResult (realPower x y) :=
  ite (error _ (.of rfl)) (ite (error _ (.of rfl)) (ok trivial))

theorem intArith (op : BinaryOp) (l r : Int64) : LeafResult (intArith op l r) := by
  cases op with
  | add => exact wordResult _ _
  | sub => exact wordResult _ _
  | mul => exact wordResult _ _
  | div => exact ite (error _ (.of rfl)) (ok trivial)
  | intDiv => exact ite (error _ (.of rfl)) (wordResult _ _)
  | mod => exact ite (error _ (.of rfl)) (ok trivial)
  | pow => exact ite (wordResult _ _) (realPower _ _)
  | _ => exact error _ (.of rfl)

theorem realArith (op : BinaryOp) (x y : Float) : LeafResult (realArith op x y) := by
  cases op with
  | add => exact ok trivial
  | sub => exact ok trivial
  | mul => exact ok trivial
  | div => exact ite (error _ (.of rfl)) (ok trivial)
  | intDiv => exact ite (error _ (.of rfl)) (ok trivial)
  | mod => exact ite (error _ (.of rfl)) (ok trivial)
  | pow => exact realPower _ _
  | _ => exact error _ (.of rfl)

theorem common_repeatCount {kind : String} {size : Nat} {n : Int} {t : Trouble}
    (h : repeatCount kind size n = .error t) : t.Common := by
  rw [repeatCount] at h
  split at h
  · cases h
  · split at h
    · cases h
      exact .of rfl
    · cases h

theorem repeatString (s : String) (n : Int) : LeafResult (repeatString s n) := by
  rw [Pseudocode.repeatString]
  cases count : repeatCount "String" s.utf8ByteSize n with
  | ok count => exact ok trivial
  | error t => exact error t (common_repeatCount count)

theorem compareValues (h : Heap) (op : BinaryOp) (l r : Value) :
    LeafResult (compareValues h op l r) := by
  rw [Pseudocode.compareValues]
  split
  · exact ok trivial
  · exact error _ (.of rfl)

theorem unaryOp (h : Heap) (op : UnaryOp) (v : Value) : LeafResult (unaryOp h op v) := by
  rw [Pseudocode.unaryOp.eq_def]
  split
  · exact ok trivial
  · exact ok trivial
  · exact ok trivial
  · split
    · exact wordResult _ _
    · exact error _ (.of rfl)

theorem toInt (h : Heap) (v : Value) : LeafResult (Builtins.toInt h v) := by
  rw [Builtins.toInt.eq_def]
  split
  · exact ok trivial
  · exact ok trivial
  · rw [Builtins.intOfReal]
    split
    · exact ok trivial
    · exact error _ (.of rfl)
  · split
    · exact ok trivial
    · exact error _ (.of rfl)
  · exact error _ (.of rfl)

theorem toReal (h : Heap) (v : Value) : LeafResult (Builtins.toReal h v) := by
  rw [Builtins.toReal.eq_def]
  split
  · split
    · exact ok trivial
    · exact error _ (.of rfl)
  · split
    · exact ok trivial
    · exact error _ (.of rfl)

end LeafResult

section Operators

variable {R : Realm} {h : Heap}

theorem HeapOp.Turns.leaf {r : Except Trouble Value} (hr : LeafResult r) :
    HeapOp.Turns R h (liftM r : HeapOp Value) (liftM r : HeapOp Value) := by
  have good : Carried.Good R r := by
    cases r with
    | ok v => exact Value.Leaf.holds hr
    | error t => exact hr
  have turned := HeapOp.Turns.lift (h := h) good
  have same : r.map (Carried.carry R.recast) = r := hr.map_recast
  rwa [same] at turned

theorem foldl_append_recast (ρ : Recast) (uss : List (Array Value)) (vs : Array Value) :
    (uss.map (Array.map (Value.recast ρ))).foldl (· ++ ·) (vs.map (Value.recast ρ)) =
      (uss.foldl (· ++ ·) vs).map (Value.recast ρ) := by
  induction uss generalizing vs with
  | nil => rfl
  | cons us uss ih =>
    rw [List.map_cons, List.foldl_cons, List.foldl_cons, ← Array.map_append, ih]

theorem holds_foldl_append {uss : List (Array Value)} {vs : Array Value}
    (hv : ∀ v ∈ vs, R.Holds v) (hu : ∀ us ∈ uss, ∀ v ∈ us, R.Holds v) :
    ∀ v ∈ uss.foldl (· ++ ·) vs, R.Holds v := by
  induction uss generalizing vs with
  | nil => exact hv
  | cons us uss ih =>
    refine ih (fun v hmem => ?_) fun us' h' => hu us' (List.mem_cons_of_mem us h')
    rcases Array.mem_append.mp hmem with hmem | hmem
    · exact hv v hmem
    · exact hu us List.mem_cons_self v hmem

theorem turns_repeatArray {r : ArrayRef} (hr : R.Holds (.array r)) (n : Int) :
    HeapOp.Turns R h (repeatArray r n) (repeatArray r n) := by
  refine .get_bind fun t => ?_
  rw [Heap.array_recast]
  dsimp only
  rw [Array.size_map]
  have good : Carried.Good R (repeatCount "Array" (h.array r).size n) := by
    cases count : repeatCount "Array" (h.array r).size n with
    | ok count => trivial
    | error t => exact LeafResult.common_repeatCount count
  have count := HeapOp.Turns.lift (h := h) good
  have same : (repeatCount "Array" (h.array r).size n).map (Carried.carry R.recast) =
      repeatCount "Array" (h.array r).size n := by
    cases repeatCount "Array" (h.array r).size n <;> rfl
  rw [same] at count
  refine count.bind fun count h₁ _ => .ofState ?_
  have right : (List.replicate count ((h.array r).map (Value.recast R.recast))).mapM Heap.copyAll =
      (List.replicate count (h.array r)).mapM fun us =>
        Heap.copyAll (us.map (Value.recast R.recast)) := by
    rw [← List.map_replicate, List.mapM_map]
    rfl
  have copies : Turns R h₁ ((List.replicate count (h.array r)).mapM Heap.copyAll)
      ((List.replicate count (h.array r)).mapM fun us =>
        Heap.copyAll (us.map (Value.recast R.recast))) := by
    refine turns_mapM _ h₁ fun us hus h' => ?_
    rw [List.eq_of_mem_replicate hus]
    exact turns_copyAll (t.array hr)
  show Turns R h₁ _ (List.mapM Heap.copyAll (List.replicate count _) >>= _)
  rw [right]
  refine copies.bind fun uss h₂ huss => ?_
  have held : ∀ v ∈ uss.foldl (· ++ ·) #[], R.Holds v :=
    holds_foldl_append (fun v hv => absurd hv (Array.not_mem_empty v)) huss
  have made := Turns.newArray (R := R) (h := h₂) held
  rw [← foldl_append_recast, Array.map_empty] at made
  exact made

theorem turns_joinArrays {a b : ArrayRef} (ha : R.Holds (.array a)) (hb : R.Holds (.array b)) :
    HeapOp.Turns R h (joinArrays a b) (joinArrays a b) := by
  refine .ofState (.get_bind fun t => ?_)
  rw [Heap.array_recast, Heap.array_recast]
  refine (turns_copyAll (t.array ha)).bind fun us h₁ hus => ?_
  refine (turns_copyAll (t.array hb)).bind fun us' h₂ hus' => ?_
  have held : ∀ v ∈ us ++ us', R.Holds v := fun v hv =>
    (Array.mem_append.mp hv).elim (hus v) (hus' v)
  have made := Turns.newArray (R := R) (h := h₂) held
  rwa [Array.map_append] at made

/-- Numbers are what they were. -/
theorem turns_numbers (op : BinaryOp) (l r : Value) :
    HeapOp.Turns R h
      (match l.integral?, r.integral? with
        | some m, some n => (liftM (intArith op (.ofInt m) (.ofInt n)) : HeapOp Value)
        | _, _ =>
          match l.number?, r.number? with
          | some x, some y => (liftM (realArith op x y) : HeapOp Value)
          | _, _ => do throw (unsupported (← get) op l r))
      (match (l.recast R.recast).integral?, (r.recast R.recast).integral? with
        | some m, some n => (liftM (intArith op (.ofInt m) (.ofInt n)) : HeapOp Value)
        | _, _ =>
          match (l.recast R.recast).number?, (r.recast R.recast).number? with
          | some x, some y => (liftM (realArith op x y) : HeapOp Value)
          | _, _ => do throw (unsupported (← get) op (l.recast R.recast) (r.recast R.recast))) := by
  simp only [Value.integral?_recast, Value.number?_recast]
  split
  · exact .leaf (.intArith _ _ _)
  · split
    · exact .leaf (.realArith _ _ _)
    · refine .get_bind fun _ => ?_
      rw [Heap.unsupported_recast]
      exact .fail (.of rfl)

theorem turns_arithmetic (op : BinaryOp) {l r : Value} (hl : R.Holds l) (hr : R.Holds r) :
    HeapOp.Turns R h (arithmetic op l r) (arithmetic op (l.recast R.recast) (r.recast R.recast)) := by
  -- What is not done on arrays is done on numbers and strings.
  have rest : ∀ op, _ := fun op => turns_numbers (R := R) (h := h) op l r
  cases op with
  | add =>
    cases l with
    | string s =>
      cases r with
      | string t => exact .pure trivial
      | _ => exact rest .add
    | array a =>
      cases r with
      | array b => exact turns_joinArrays hl hr
      | _ => exact rest .add
    | _ => exact rest .add
  | mul =>
    cases l with
    | string s =>
      cases r with
      | int n => exact .leaf (.repeatString s n)
      | _ => exact rest .mul
    | array a =>
      cases r with
      | int n => exact turns_repeatArray hl n
      | _ => exact rest .mul
    | int n =>
      cases r with
      | string s => exact .leaf (.repeatString s n)
      | array a => exact turns_repeatArray hr n
      | _ => exact rest .mul
    | _ => exact rest .mul
  | sub => exact rest .sub
  | div => exact rest .div
  | intDiv => exact rest .intDiv
  | mod => exact rest .mod
  | pow => exact rest .pow
  | _ => exact rest _

end Operators

end Pseudocode
