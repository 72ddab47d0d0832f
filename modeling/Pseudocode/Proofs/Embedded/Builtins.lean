import Pseudocode.Proofs.Arithmetic.Exact
import Pseudocode.Proofs.Embedded.Import
import Pseudocode.Proofs.Execution.Indexing
import Pseudocode.Proofs.Strings.Bytes
/-
# `Proofs.Embedded.Builtins` — operators and builtin functions in a subroutine

What operators do with numbers and strings and what the builtin functions do that the embedded
modules call, as rules for running a subroutine step by step.  None of them changes more than the
arrays and the number of the next builtin value.
-/
namespace Pseudocode

/-! ## Operators on plain values -/

section Operators

variable {a b : Int} (h : Heap)

theorem binaryOp_add (ha : Value.inRange a = true) (hb : Value.inRange b = true)
    (sum : Value.inRange (a + b) = true) :
    (binaryOp .add (.int a) (.int b)).run h = (.ok (.int (a + b)), h) := by
  rw [binaryOp_whole (l := .int a) (r := .int b) rfl rfl ha hb rfl, wordResult_of_inRange sum]

theorem binaryOp_sub (ha : Value.inRange a = true) (hb : Value.inRange b = true)
    (difference : Value.inRange (a - b) = true) :
    (binaryOp .sub (.int a) (.int b)).run h = (.ok (.int (a - b)), h) := by
  rw [binaryOp_whole (l := .int a) (r := .int b) rfl rfl ha hb rfl, wordResult_of_inRange difference]

theorem binaryOp_ge (a b : Int) :
    (binaryOp .ge (.int a) (.int b)).run h = (.ok (.bool (decide (b ≤ a))), h) := by
  have order : (compare a b != .lt) = decide (b ≤ a) := by
    rcases lt_trichotomy a b with less | rfl | greater
    · simp [compare_lt_iff_lt.mpr less, less]
    · simp
    · simp [compare_gt_iff_gt.mpr greater, greater.le]
  rw [← order]
  rfl

theorem binaryOp_gt (a b : Int) :
    (binaryOp .gt (.int a) (.int b)).run h = (.ok (.bool (decide (b < a))), h) := by
  have order : (compare a b == .gt) = decide (b < a) := by
    rcases lt_trichotomy a b with less | rfl | greater
    · simp [compare_lt_iff_lt.mpr less, less.le]
    · simp
    · simp [compare_gt_iff_gt.mpr greater, greater]
  rw [← order]
  rfl

theorem binaryOp_append (s t : String) :
    (binaryOp .add (.string s) (.string t)).run h = (.ok (.string (s ++ t)), h) := rfl

/-- Values without parts are compared by what they are. -/
theorem equal_leaves {v u : Value} (hv : v.cell? = none) (hu : u.cell? = none) :
    h.equal v u = equalLeaves v u := by
  rw [Heap.equal, Heap.compareTo, hv, hu]
  cases equalLeaves v u <;> rfl

theorem binaryOp_eq_leaves {v u : Value} (hv : v.cell? = none) (hu : u.cell? = none) :
    (binaryOp .eq v u).run h = (.ok (.bool (equalLeaves v u)), h) := by
  rw [← equal_leaves h hv hu]
  rfl

theorem inRange_of_le {n : Int} (below : -1 ≤ n) (word : n ≤ Value.maxInt) :
    Value.inRange n = true :=
  Word.inRange_iff.mpr ⟨by omega, word⟩

end Operators

/-! ## Arrays in the memory -/

/-- The array is there and holds these values. -/
def Memory.Holds (m : Memory) (a : ArrayRef) (vs : List Value) : Prop :=
  ∃ sl, m.arrays[a.index]? = some sl ∧ sl.toArray.toList = vs

namespace Memory.Holds

variable {m : Memory} {a : ArrayRef} {vs : List Value}

/-- A new array. -/
theorem new (m : Memory) (vs : List Value) (vars : Table Value) (fresh : Nat) :
    Memory.Holds ⟨vars, m.arrays.push (.ofArray vs.toArray), m.dicts, m.classes, fresh⟩
      ⟨m.arrays.size⟩ vs :=
  ⟨_, Array.getElem?_push_size, by rw [Slots.toArray_ofArray, List.toList_toArray]⟩

theorem push (held : m.Holds a vs) (v : Value) (vars : Table Value) (fresh : Nat) :
    Memory.Holds ⟨vars, m.arrays.modify a.index (·.push v), m.dicts, m.classes, fresh⟩ a
      (vs ++ [v]) := by
  obtain ⟨sl, held, elements⟩ := held
  refine ⟨sl.push v, ?_, ?_⟩
  · rw [Array.getElem?_modify, if_pos rfl, held]
    rfl
  · rw [Slots.toArray_push, Array.toList_push, elements]

theorem array (held : m.Holds a vs) (h : Heap) (name : String) (parent : Option ScopeRef) :
    ((h.holding name parent m).array a).toList = vs := by
  obtain ⟨sl, held, elements⟩ := held
  have slots : (h.holding name parent m).slots a = sl := by
    simp only [Heap.slots, Heap.holding, Array.getD_eq_getD_getElem?, held, Option.getD_some]
  rw [Heap.array, slots, elements]

/-- An array that is there holds what it has. -/
theorem of_inside (inside : a.index < m.arrays.size) (h : Heap) (name : String)
    (parent : Option ScopeRef) : m.Holds a ((h.holding name parent m).array a).toList := by
  have slots : (h.holding name parent m).slots a = m.arrays[a.index] := by
    simp only [Heap.slots, Heap.holding, Array.getD_eq_getD_getElem?,
      Array.getElem?_eq_getElem inside, Option.getD_some]
  exact ⟨m.arrays[a.index], Array.getElem?_eq_getElem inside, by rw [Heap.array, slots]⟩

theorem size (held : m.Holds a vs) (h : Heap) (name : String) (parent : Option ScopeRef) :
    ((h.holding name parent m).slots a).size = vs.length := by
  have elements := held.array h name parent
  rw [← elements, Array.length_toList, Heap.array, Slots.size_toArray]

theorem item {key v : Value} {p : Nat} (held : m.Holds a vs) (means : key.Means vs.length p)
    (there : vs[p]? = some v) (h : Heap) (name : String) (parent : Option ScopeRef) :
    (h.holding name parent m).item (.array a) key = .ok v := by
  have elements := held.array h name parent
  rw [← elements, Array.length_toList] at means
  rw [← elements, Array.getElem?_toList] at there
  rcases Heap.item_array a key (h.holding name parent m) with ⟨q, x, means', hx, read⟩ | ⟨none, -⟩
  · rw [means.unique means', hx] at there
    cases there
    exact read
  · exact absurd ⟨p, means⟩ none

end Memory.Holds

/-- Copying a list of values without parts. -/
theorem mapM_copyTo_plain (k : Nat) (h : Heap) : ∀ {vs : List Value},
    (∀ v ∈ vs, v.container? = none) → (vs.mapM (Heap.copyTo k)).run h = (vs, h)
  | [], _ => rfl
  | v :: vs, plain => by
    have here : Heap.copyTo k v h = (v, h) := by
      have leaf := plain v List.mem_cons_self
      cases k <;> cases v <;> first | rfl | cases leaf
    rw [Heap.run_mapM_cons, here,
      mapM_copyTo_plain k h fun u mem => plain u (List.mem_cons_of_mem v mem)]

/-- Every value has a copy.  That of a value which unfolds to a tree has the same tree. -/
theorem exists_copies (h : Heap) (name : String) (parent : Option ScopeRef) (m : Memory) (v : Value) :
    ∃ c m', Copies h name parent m v c m' ∧ m'.vars = m.vars ∧
      ∀ t, (h.holding name parent m).Unfolds t v →
        (h.holding name parent m).Planted [t] [c] (h.holding name parent m') := by
  let after := (Heap.copy v (h.holding name parent m)).2
  have rest : after = h.holding name parent { m with arrays := after.arrays, dicts := after.dicts } :=
    (Heap.Appends.copy v (h.holding name parent m)).rest
  exact ⟨_, _, ⟨Prod.ext rfl rest, rfl⟩, rfl, fun t ht => rest ▸ ht.copy⟩

/-- The copy of an array of values without parts. -/
theorem copies_array {m : Memory} {a : ArrayRef} {vs : List Value} (held : m.Holds a vs)
    (plain : ∀ v ∈ vs, v.container? = none) (h : Heap) (name : String) (parent : Option ScopeRef) :
    Copies h name parent m (.array a) (.array ⟨m.arrays.size⟩)
      { m with arrays := m.arrays.push (.ofArray vs.toArray) } where
  copy := by
    rw [Heap.copy_eq_copyTo, Heap.copyTo_array, held.array, mapM_copyTo_plain _ _ plain]
    rfl
  fresh := rfl

/-! ## Calls of builtin functions -/

namespace Room

variable {ρ : Room} {m m₁ m₂ m₃ : Memory}

theorem evals_name {x : String} {v : Value} (found : ρ.Finds m x v) :
    ρ.Evals m (Embedded.name x) v m :=
  evals_var found (walks_nil v)

theorem finds_local {x : String} {v : Value} (here : m.vars.get? x = some v) : ρ.Finds m x v := by
  rw [Finds, here, Option.some_or]

theorem finds_global {x : String} {v : Value} (free : m.vars.get? x = none)
    (around : ρ.globals.get? x = some v) : ρ.Finds m x v := by
  rw [Finds, free, Option.none_or, around]

variable (ρ) in
/-- The name means this builtin function. -/
def Offers (m : Memory) (f : String) (action : Native) : Prop :=
  ∃ n, ρ.Finds m f (.builtin ⟨n, f, action⟩)

theorem offers_global {home : InterpreterId} {f : String} {action : Native}
    (around : ρ.globals.Offers home)
    (known : (f, action) ∈ Builtins.subroutines home ++ Builtins.conversions home)
    (free : m.vars.get? f = none) : ρ.Offers m f action := by
  obtain ⟨n, found⟩ := around _ known
  exact ⟨n, finds_global free found⟩

section Natives

variable {f : String} {action : Native} {args : List Expr} {e e₁ e₂ : Expr} {v : Value}
  {vs : List Value} {s t : String}

theorem evals_native (offered : ρ.Offers m f action) (arguments : ρ.EvalsAll m args vs m₁)
    (native : Settles (fun n => Run.nativeCall (Run.run n) f vs action) ρ.env (ρ.world m₁) v
      (ρ.world m₂)) : ρ.Evals m (Embedded.apply f args) v m₂ := by
  obtain ⟨n, found⟩ := offered
  exact evals_call (evals_name found) arguments native

theorem evals_len_text (offered : ρ.Offers m "LEN" .len) (value : ρ.Evals m e (.string s) m₁) :
    ρ.Evals m (Embedded.apply "LEN" [e]) (.int s.length) m₁ :=
  evals_native offered (evalsAll_cons value evalsAll_nil) (.always fun _ => rfl)

theorem evals_len_array {r : ArrayRef} (offered : ρ.Offers m "LEN" .len)
    (value : ρ.Evals m e (.array r) m₁) (held : m₁.Holds r vs) :
    ρ.Evals m (Embedded.apply "LEN" [e]) (.int vs.length) m₁ := by
  have size : ((ρ.world m₁).heap.slots r).size = vs.length := held.size ..
  rw [← size]
  exact evals_native offered (evalsAll_cons value evalsAll_nil) (.always fun _ => rfl)

theorem evals_position (offered : ρ.Offers m "POSITION" .position)
    (first : ρ.Evals m e (.string s) m₁) (second : ρ.Evals m₁ e₁ (.string t) m₂) :
    ρ.Evals m (Embedded.apply "POSITION" [e, e₁])
      (.int (((Builtins.occurrence? 0 t.toList s.toList).map Int.ofNat).getD (-1))) m₂ := by
  rw [← Builtins.indexOf_eq]
  exact evals_native offered (evalsAll_cons first (evalsAll_cons second evalsAll_nil))
    (.always fun _ => rfl)

theorem evals_substring {first last : Int}
    (offered : ρ.Offers m "SUBSTRING" .substring) (lower : ρ.Evals m e (.int first) m₁)
    (upper : ρ.Evals m₁ e₁ (.int last) m₂) (text : ρ.Evals m₂ e₂ (.string s) m₃) :
    ρ.Evals m (Embedded.apply "SUBSTRING" [e, e₁, e₂])
      (.string (String.ofList (Builtins.slice s.toList first last))) m₃ :=
  evals_native offered
    (evalsAll_cons lower (evalsAll_cons upper (evalsAll_cons text evalsAll_nil)))
    (.always fun _ => rfl)

/-- The text of a string is the string. -/
theorem evals_string {home : InterpreterId} (offered : ρ.Offers m "String" (.toText home))
    (value : ρ.Evals m e (.string s) m₁) :
    ρ.Evals m (Embedded.apply "String" [e]) (.string s) m₁ :=
  evals_native offered (evalsAll_cons value evalsAll_nil) (.step (.always fun _ => rfl))

/-- The array of the characters of a string. -/
theorem evals_characters (offered : ρ.Offers m "Array" .toArray)
    (value : ρ.Evals m e (.string s) m₁) :
    ρ.Evals m (Embedded.apply "Array" [e]) (.array ⟨m₁.arrays.size⟩)
      { m₁ with arrays := m₁.arrays.push (.ofArray (Builtins.characters s).toArray) } :=
  evals_native offered (evalsAll_cons value evalsAll_nil) (.always fun _ => rfl)

/-- Appending a copy to an array. -/
theorem execs_append {callee : Expr} {n : Nat} {r : ArrayRef} {c : Value}
    (method : ρ.Evals m callee (.builtin ⟨n, "append", .arrayAppend r⟩) m₁)
    (value : ρ.Evals m₁ e v m₂) (copied : ρ.Copies m₂ v c m₃) :
    ρ.Execs m (.expr (.call default callee [e])) .normal
      { m₃ with arrays := m₃.arrays.modify r.index (·.push c) } := by
  have native (k : Nat) : Run.native (Run.run k) ⟨n, "append", .arrayAppend r⟩ [v] ρ.env
      (ρ.world m₂) =
        .ok .none (ρ.world { m₃ with arrays := m₃.arrays.modify r.index (·.push c) }) :=
    (Eval.bind_ok (x := Eval.copy v) (copied.eval ρ.env) _).trans rfl
  exact execs_call (evals_call method (evalsAll_cons value evalsAll_nil) (.always native))

/-- Taking an element out of an array. -/
theorem evals_pop {callee : Expr} {n p : Nat} {r : ArrayRef}
    (method : ρ.Evals m callee (.builtin ⟨n, "pop", .arrayPop r⟩) m₁)
    (arguments : ρ.EvalsAll m₁ args vs m₂) (few : vs.length ≤ 1)
    (means : (vs.headD (.int (-1))).Means ((ρ.world m₂).heap.array r).toList.length p)
    (there : ((ρ.world m₂).heap.array r).toList[p]? = some v) :
    ρ.Evals m (.call default callee args) v
      { m₂ with arrays := m₂.arrays.modify r.index (·.erase p) } := by
  rw [Array.length_toList, Heap.array, Slots.size_toArray] at means
  rw [Array.getElem?_toList, Heap.array, Slots.getElem?_toArray] at there
  have native (k : Nat) : Run.native (Run.run k) ⟨n, "pop", .arrayPop r⟩ vs ρ.env (ρ.world m₂) =
      .ok v (ρ.world { m₂ with arrays := m₂.arrays.modify r.index (·.erase p) }) := by
    rcases Builtins.arrayPop_cases r "pop" vs ρ.env (ρ.world m₂) with
      ⟨none, -⟩ | ⟨q, -, means', ended⟩
    · exact absurd ⟨p, means⟩ (none few)
    · obtain rfl := means'.unique means
      rw [there] at ended
      exact ended
  exact evals_call method arguments (.always native)

/-- The method of an array that a name is bound to. -/
theorem evals_method {x name : String} {r : ArrayRef} (found : ρ.Finds m x (.array r))
    (method : arrayMethod? r name = some action) :
    ρ.Evals m (Embedded.member x [name]) (.builtin ⟨m.fresh, name, action⟩)
      { m with fresh := m.fresh + 1 } :=
  evals_var found (walks_property (property_method (fun _ => rfl) method) (walks_nil _))

theorem execs_set_plain {x : String} (plain : v.container? = none) (value : ρ.Evals m e v m₁) :
    ρ.Execs m (Embedded.set x e) .normal { m₁ with vars := m₁.vars.put x v } :=
  execs_set value (copies_plain plain m₁)

end Natives

end Room

end Pseudocode
