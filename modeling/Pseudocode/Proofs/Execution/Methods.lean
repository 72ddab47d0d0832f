import Mathlib.Data.List.Basic
import Pseudocode.Proofs.Execution.Inserting
/-
# `Proofs.Execution.Methods` — what changes a container

An index means a place (`Value.Means`): it is whole and names an element of the sequence, and
negative ones count from the end.  `position` gives the place, and fails for every other key.

For each of the ways to change an array or a dictionary in place there is one lemma that says
all it can do: fail in the world that it found, or succeed under a condition on the arguments
and change the one container.  Every failure comes before the first change; the only thing
that can have happened is that a copy was made.
-/
namespace Pseudocode

/-! ## Indexes -/

/-- The key means this place in a sequence of `n`. -/
def Value.Means (key : Value) (n p : Nat) : Prop :=
  ∃ i : Int, key.integral? = some i ∧ -(n : Int) ≤ i ∧ i < n ∧
    (p : Int) = if i < 0 then n + i else i

namespace Value.Means

variable {key : Value} {n p : Nat}

theorem lt (means : key.Means n p) : p < n := by
  obtain ⟨i, -, low, high, place⟩ := means
  split at place <;> omega

theorem unique {q : Nat} (means : key.Means n p) (means' : key.Means n q) : p = q := by
  obtain ⟨i, hi, -, -, hp⟩ := means
  obtain ⟨j, hj, -, -, hq⟩ := means'
  obtain rfl := Option.some.inj (hi.symm.trans hj)
  omega

/-- A place that is not negative means itself. -/
theorem natCast (inside : p < n) : (Value.int p).Means n p :=
  ⟨p, rfl, by omega, by omega, (if_neg (by omega)).symm⟩

/-- The last element. -/
theorem last (n : Nat) : (Value.int (-1)).Means (n + 1) n :=
  ⟨-1, rfl, by omega, by omega, by rw [if_pos (by omega)]; omega⟩

end Value.Means

theorem position_eq_ok_iff {type what : String} {key : Value} {n p : Nat} :
    position type key n what = .ok p ↔ key.Means n p := by
  rw [position, Value.Means]
  cases key.integral? with
  | none => simp
  | some i =>
    simp only [Option.some.injEq, exists_eq_left', Bool.or_eq_true, decide_eq_true_eq]
    -- A negative index is shifted once; what is then outside stays outside.
    by_cases negative : i < 0
    · simp only [negative, ↓reduceIte]
      split
      next outside => exact ⟨nofun, fun means => by omega⟩
      next inside => rw [Except.ok.injEq]; omega
    · simp only [negative, ↓reduceIte, false_or]
      split
      next outside => exact ⟨nofun, fun means => by omega⟩
      next inside => rw [Except.ok.injEq]; omega

/-- Every other key is refused. -/
theorem position_cases (type what : String) (key : Value) (n : Nat) :
    (∃ p, key.Means n p ∧ position type key n what = .ok p) ∨
      (¬ ∃ p, key.Means n p) ∧ ∃ t, position type key n what = .error t := by
  cases run : position type key n what with
  | ok p => exact .inl ⟨p, position_eq_ok_iff.mp run, rfl⟩
  | error t =>
    refine .inr ⟨?_, t, rfl⟩
    rintro ⟨p, means⟩
    rw [position_eq_ok_iff.mpr means] at run
    cases run

/-! ## Assignment to an element -/

namespace Eval

variable {α : Type} {op : HeapOp α} {env : Env} {w : World} {h : Heap}

theorem ofHeapOpAt_ok {a : α} (run : op.run w.heap = (.ok a, h)) (span : Span) :
    ofHeapOpAt span op env w = .ok a { w with heap := h } := by
  have heap : onHeap op.run env w = .ok (.ok a) { w with heap := h } := by
    change EStateM.Result.ok (op.run w.heap).1 { w with heap := (op.run w.heap).2 } = _
    rw [run]
  exact bind_ok heap _

theorem ofHeapOpAt_error {t : Trouble} (run : op.run w.heap = (.error t, h)) (span : Span)
    (env : Env) : ∃ f, ofHeapOpAt span op env w = .error (.fault f) { w with heap := h } := by
  have heap : onHeap op.run env w = .ok (.error t) { w with heap := h } := by
    change EStateM.Result.ok (op.run w.heap).1 { w with heap := (op.run w.heap).2 } = _
    rw [run]
  exact ⟨_, bind_ok heap _⟩

end Eval

namespace Heap

end Heap

/-! ## Methods -/

namespace Builtins

variable {env : Env} {w : World} {name : String} {args : List Value} {a : ArrayRef} {d : DictRef}

theorem arity_cases (count : Arity) (name : String) (args : List Value) (env : Env) (w : World) :
    (count.fits args.length = true ∧ arity count name args env w = .ok () w) ∨
      (count.fits args.length = false ∧
        ∃ f, arity count name args env w = .error (.fault f) w) := by
  rw [arity, Arity.check]
  cases count.fits args.length with
  | true => exact .inl ⟨rfl, rfl⟩
  | false => exact .inr ⟨rfl, _, rfl⟩

theorem fits_between {m n k : Nat} : (Arity.between m n).fits k = true ↔ m ≤ k ∧ k ≤ n := by
  rw [Arity.fits, Bool.and_eq_true, decide_eq_true_eq]
  exact and_congr Int.ofNat_le (decide_eq_true_iff.trans Int.ofNat_le)

theorem fits_exactly {n k : Nat} : (Arity.exactly n).fits k = true ↔ k = n :=
  fits_between.trans (by omega)

/-- Adding an element. -/
theorem arrayAppend_cases (a : ArrayRef) (name : String) (args : List Value) (env : Env)
    (w : World) :
    (args.length ≠ 1 ∧ ∃ f, arrayAppend a name args env w = .error (.fault f) w) ∨
      ∃ x, args = [x] ∧ arrayAppend a name args env w =
        .ok .none { w with
          heap := (Heap.copy x w.heap).2.modifyArray a (·.push (Heap.copy x w.heap).1) } := by
  rcases arity_cases (.exactly 1) name args env w with ⟨fits, run⟩ | ⟨misfits, f, run⟩
  · obtain ⟨x, rfl⟩ := List.length_eq_one_iff.mp (fits_exactly.mp fits)
    refine .inr ⟨x, rfl, (Eval.bind_ok run _).trans ?_⟩
    exact Eval.bind_ok (Eval.copy_eq x env w) _
  · refine .inl ⟨fun one => ?_, f, Eval.bind_error run _⟩
    rw [fits_exactly.mpr one] at misfits
    cases misfits

/-- Removing an element. -/
theorem arrayPop_cases (a : ArrayRef) (name : String) (args : List Value) (env : Env)
    (w : World) :
    ((args.length ≤ 1 → ¬ ∃ p, (args.headD (.int (-1))).Means (w.heap.slots a).size p) ∧
        ∃ f, arrayPop a name args env w = .error (.fault f) w) ∨
      ∃ p, args.length ≤ 1 ∧ (args.headD (.int (-1))).Means (w.heap.slots a).size p ∧
        arrayPop a name args env w = .ok (((w.heap.slots a).get? p).getD .none)
          { w with heap := w.heap.modifyArray a (·.erase p) } := by
  rcases arity_cases (.between 0 1) name args env w with ⟨fits, run⟩ | ⟨misfits, f, run⟩
  · by_cases empty : (w.heap.slots a).size = 0
    · refine .inl ⟨fun _ => ?_, .unplaced (.index "pop from empty array"),
        (Eval.bind_ok run _).trans ?_⟩
      · rintro ⟨p, means⟩
        exact absurd means.lt (by omega)
      · rw [Eval.inHeap_bind, if_pos empty]
        rfl
    · rcases position_cases (w.heap.typeName (args.headD (.int (-1)))) "pop"
        (args.headD (.int (-1))) (w.heap.slots a).size with ⟨p, means, found⟩ | ⟨none, t, missing⟩
      · refine .inr ⟨p, (fits_between.mp fits).2, means, (Eval.bind_ok run _).trans ?_⟩
        rw [Eval.inHeap_bind, if_neg empty]
        dsimp only
        rw [typeName, Eval.inHeap_bind, found]
        rfl
      · refine .inl ⟨fun _ => none, .unplaced t, (Eval.bind_ok run _).trans ?_⟩
        rw [Eval.inHeap_bind, if_neg empty]
        dsimp only
        rw [typeName, Eval.inHeap_bind, missing]
        rfl
  · refine .inl ⟨fun few => ?_, f, Eval.bind_error run _⟩
    rw [fits_between.mpr ⟨Nat.zero_le _, few⟩] at misfits
    cases misfits

/-- Inserting an element. -/
theorem arrayInsert_cases (a : ArrayRef) (args : List Value) (env : Env) (w : World) :
    (∃ f, arrayInsert a "insert" args env w = .error (.fault f) w) ∨
      ∃ i x n c h, args = [i, x] ∧ i.integral? = some n ∧
        Heap.copy x (w.heap.modifyArray a
          (·.openGap (insertPlace n (w.heap.slots a).size))) = (c, h) ∧
        arrayInsert a "insert" args env w = .ok .none { w with
          heap := h.modifyArray a (·.set (insertPlace n (w.heap.slots a).size) c) } := by
  rcases arity_cases (.exactly 2) "insert" args env w with ⟨fits, run⟩ | ⟨misfits, f, run⟩
  · obtain ⟨i, x, rfl⟩ := List.length_eq_two.mp (fits_exactly.mp fits)
    cases hi : i.integral? with
    | none =>
      have insert : arrayInsert a "insert" [i, x] env w = _ := Eval.bind_ok run _
      simp only [arg, List.getD_cons_zero, hi] at insert
      exact .inl ⟨_, insert⟩
    | some n => exact .inr ⟨i, x, n, _, _, rfl, hi, rfl, arrayInsert_eq hi rfl rfl⟩
  · exact .inl ⟨f, Eval.bind_error run _⟩

/-- Removing an entry. -/
theorem dictRemove_cases (d : DictRef) (name : String) (args : List Value) (env : Env)
    (w : World) :
    (∃ f, dictRemove d name args env w = .error (.fault f) w) ∨
      ∃ key v rest, args = [key] ∧ (w.heap.dict d).get? key = some v ∧
        (w.heap.dict d).erase? key = some rest ∧ dictRemove d name args env w =
          .ok v { w with heap := w.heap.modifyDict d fun _ => rest } := by
  rcases arity_cases (.exactly 1) name args env w with ⟨fits, run⟩ | ⟨misfits, f, run⟩
  · obtain ⟨key, rfl⟩ := List.length_eq_one_iff.mp (fits_exactly.mp fits)
    have remove : dictRemove d name [key] env w = _ := Eval.bind_ok run _
    rw [Eval.inHeap_bind] at remove
    simp only [arg, List.getD_cons_zero] at remove
    cases held : (w.heap.dict d).get? key with
    | none =>
      simp only [held] at remove
      exact .inl ⟨_, remove⟩
    | some v =>
      cases left : (w.heap.dict d).erase? key with
      | none =>
        simp only [held, left] at remove
        exact .inl ⟨_, remove⟩
      | some rest =>
        simp only [held, left] at remove
        exact .inr ⟨key, v, rest, rfl, held, left, remove⟩
  · exact .inl ⟨f, Eval.bind_error run _⟩

end Builtins

end Pseudocode
