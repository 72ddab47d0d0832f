import Pseudocode.Proofs.Copying.Tree
import Pseudocode.Proofs.Dictionary.Ledger
import Pseudocode.Proofs.Ownership.Sound
/-
# `Proofs.Copying.Copy` — a copy has the tree of its original

For every value that unfolds to a tree, in whatever heap, `Heap.copy` adds containers and
changes nothing else (`Appends`), and what it gives unfolds to the same tree and reaches new
containers only (`Planted`).  The order of the entries of dictionaries, their keys in the
form in which they were first set, and their index are part of the tree.

What depends on the tree alone is therefore the same for original and copy: the display form,
and equality with a value of this tree.  Values with one tree are equal unless a part of them
is not a number (`equal_of_unfolds`).
-/
namespace Pseudocode.Heap

variable {h h' h'' : Heap}

/-! ## More containers -/

/-- The second heap is the first with more arrays and dictionaries. -/
structure Appends (h h' : Heap) : Prop where
  same : ∀ c : Container, c.In h → h.SameAt h' c
  rest : h' = { h with arrays := h'.arrays, dicts := h'.dicts }

namespace Appends

theorem refl (h : Heap) : h.Appends h := ⟨fun c _ => .refl h c, rfl⟩

theorem isIn (g : h.Appends h') {c : Container} (hc : c.In h) : c.In h' :=
  (g.same c hc).isIn.mpr hc

theorem trans (g : h.Appends h') (k : h'.Appends h'') : h.Appends h'' where
  same c hc := (g.same c hc).trans (k.same c (g.isIn hc))
  rest := by rw [k.rest, g.rest]

theorem newArray (h : Heap) (xs : Array Value) : h.Appends (h.newArray xs).2 where
  same c hc := by
    match c with
    | .array r => exact (Array.getElem?_push_lt hc).trans (Array.getElem?_eq_getElem hc).symm
    | .dict r => rfl
  rest := rfl

theorem newDict (h : Heap) (d : Dictionary) : h.Appends (h.newDict d).2 where
  same c hc := by
    match c with
    | .array r => rfl
    | .dict r => exact (Array.getElem?_push_lt hc).trans (Array.getElem?_eq_getElem hc).symm
  rest := rfl

theorem leafRepr (g : h.Appends h') : h'.leafRepr = h.leafRepr := by
  rw [g.rest]
  funext v
  cases v <;> rfl

variable {t : Tree} {v : Value}

theorem unfolds (g : h.Appends h') (ht : h.Unfolds t v) : h'.Unfolds t v :=
  ht.of_sameAt fun c reach => g.same c (ht.isIn reach)

/-- No other containers are reached than before. -/
theorem reaches (g : h.Appends h') (ht : h.Unfolds t v) {c : Container}
    (reach : h'.Reaches c v) : h.Reaches c v :=
  reach.of_sameAt fun d hd => g.same d (ht.isIn hd)

/-- And no fewer. -/
theorem reached (g : h.Appends h') (ht : h.Unfolds t v) {c : Container}
    (reach : h.Reaches c v) : h'.Reaches c v :=
  reach.of_sameAt fun d hd => (g.same d (ht.isIn (g.reaches ht hd))).symm

theorem repr (g : h.Appends h') (ht : h.Unfolds t v) : h'.repr v = h.repr v := by
  rw [ht.repr_eq_text, (g.unfolds ht).repr_eq_text, Tree.text_congr g.leafRepr]

end Appends

/-! ## Copies -/

theorem run_mapM_cons (f : Value → StateM Heap Value) (v : Value) (vs : List Value) (h : Heap) :
    ((v :: vs).mapM f).run h =
      ((f v h).1 :: ((vs.mapM f).run (f v h).2).1, ((vs.mapM f).run (f v h).2).2) := by
  rw [List.mapM_cons]
  rfl

/-- Actions that append one after the other. -/
theorem Appends.mapM {f : Value → StateM Heap Value}
    (each : ∀ (v : Value) (h : Heap), h.Appends (f v h).2) :
    ∀ (vs : List Value) (h : Heap), h.Appends ((vs.mapM f).run h).2
  | [], h => .refl h
  | v :: vs, h => by
    rw [run_mapM_cons]
    exact (each v h).trans (mapM each vs (f v h).2)

/-- Whatever is copied, containers are added and nothing else happens. -/
theorem Appends.copyTo (n : Nat) (v : Value) (h : Heap) : h.Appends (Heap.copyTo n v h).2 := by
  induction n generalizing v h with
  | zero => exact .refl h
  | succ n ih =>
    cases v with
    | array r =>
      rw [copyTo_array]
      exact (mapM ih (h.array r).toList h).trans (.newArray _ _)
    | dict r =>
      rw [copyTo_dict]
      exact (mapM ih (h.dict r).values.toList h).trans (.newDict _ _)
    | _ => exact .refl h

theorem Appends.copy (v : Value) (h : Heap) : h.Appends (Heap.copy v h).2 := by
  rw [copy_eq_copyTo]
  exact .copyTo _ v h

theorem array_newArray (h : Heap) (xs : Array Value) :
    (h.newArray xs).2.array ⟨h.arrays.size⟩ = xs := by
  simp only [array, slots, newArray, getD_push, ↓reduceIte, Slots.toArray_ofArray]

theorem dict_newDict (h : Heap) (d : Dictionary) : (h.newDict d).2.dict ⟨h.dicts.size⟩ = d := by
  simp only [dict, newDict, getD_push, ↓reduceIte]

/-- The heap has grown by values with these trees: the containers that they reach are new. -/
structure Planted (h : Heap) (ts : List Tree) (cs : List Value) (h' : Heap) : Prop where
  appends : h.Appends h'
  unfolds : List.Forall₂ h'.Unfolds ts cs
  fresh : ∀ c ∈ cs, ∀ d, h'.Reaches d c → ¬ d.In h
  built : h.Built → h'.Built

namespace Planted

variable {t : Tree} {ts : List Tree} {c v : Value} {cs vs : List Value}

theorem nil (h : Heap) : Planted h [] [] h :=
  ⟨.refl h, .nil, fun _ mem => absurd mem List.not_mem_nil, id⟩

theorem leaf (h : Heap) (hv : v.container? = none) : Planted h [.leaf v] [v] h where
  appends := .refl h
  unfolds := .cons (unfolds_of_leaf hv) .nil
  fresh c mem d reach := by
    obtain rfl := List.mem_singleton.mp mem
    exact absurd reach (Reaches.of_leaf hv)
  built := id

theorem head (k : Planted h [t] [c] h') : h'.Unfolds t c := (List.forall₂_cons.mp k.unfolds).1

theorem cons (k : Planted h [t] [c] h') (l : Planted h' ts cs h'') :
    Planted h (t :: ts) (c :: cs) h'' where
  appends := k.appends.trans l.appends
  unfolds := .cons (l.appends.unfolds k.head) l.unfolds
  fresh u mem d reach := by
    rcases List.mem_cons.mp mem with rfl | mem
    · exact k.fresh u List.mem_cons_self d (l.appends.reaches k.head reach)
    · exact fun inside => l.fresh u mem d reach (k.appends.isIn inside)
  built made := l.built (k.built made)

theorem newArray (k : Planted h ts cs h') :
    Planted h [.array ts] [(h'.newArray cs.toArray).1] (h'.newArray cs.toArray).2 := by
  have g := Appends.newArray h' cs.toArray
  have elements := congrArg Array.toList (h'.array_newArray cs.toArray)
  refine ⟨k.appends.trans g, .cons (unfolds_array.mpr ⟨_, rfl, ?_, ?_⟩) .nil, ?_, k.built⟩
  · exact Nat.lt_of_lt_of_eq (Nat.lt_succ_self _) (Array.size_push _).symm
  · rw [elements]
    exact k.unfolds.imp fun t c => g.unfolds
  · refine List.forall_mem_singleton.mpr fun d reach inside => ?_
    rcases Reaches.iff_array.mp reach with rfl | ⟨x, mem, hx⟩
    · exact Nat.lt_irrefl _ (k.appends.isIn inside)
    · rw [elements] at mem
      obtain ⟨t, -, ht⟩ := exists_left_of_mem k.unfolds x mem
      exact k.fresh x mem d (g.reaches ht hx) inside

theorem newDict (k : Planted h ts cs h') {e : Dictionary} (values : e.values.toList = cs)
    (keys : ∀ a ∈ e.keys.toList, a.container? = none) (he : h.Built → e.Built) :
    Planted h [.dict e.keys.toList e.index ts] [(h'.newDict e).1] (h'.newDict e).2 := by
  have g := Appends.newDict h' e
  have same := h'.dict_newDict e
  refine ⟨k.appends.trans g, .cons (unfolds_dict.mpr ⟨_, rfl, ?_, ?_⟩) .nil, ?_, fun built => ?_⟩
  · exact Nat.lt_of_lt_of_eq (Nat.lt_succ_self _) (Array.size_push _).symm
  · rw [same, values]
    exact ⟨rfl, rfl, keys, k.unfolds.imp fun t c => g.unfolds⟩
  · refine List.forall_mem_singleton.mpr fun d' reach inside => ?_
    rcases Reaches.iff_dict.mp reach with rfl | ⟨x, mem, hx⟩
    · exact Nat.lt_irrefl _ (k.appends.isIn inside)
    · rw [same, values] at mem
      obtain ⟨t, -, ht⟩ := exists_left_of_mem k.unfolds x mem
      exact k.fresh x mem d' (g.reaches ht hx) inside
  · exact forall_mem_push (k.built built) (he built)

/-- Values that are copied one after the other. -/
theorem mapM {f : Value → StateM Heap Value} : ∀ {ts : List Tree} {vs : List Value} {h : Heap},
    List.Forall₂ h.Unfolds ts vs →
    (∀ t ∈ ts, ∀ v h, h.Unfolds t v → Planted h [t] [(f v h).1] (f v h).2) →
    Planted h ts ((vs.mapM f).run h).1 ((vs.mapM f).run h).2
  | [], [], h, _, _ => .nil h
  | t :: ts, v :: vs, h, .cons here there, each => by
    have k := each t List.mem_cons_self v h here
    have rest := there.imp fun u x => k.appends.unfolds
    rw [run_mapM_cons]
    exact k.cons (mapM rest fun u mem => each u (List.mem_cons_of_mem t mem))

/-- The copy of a value that is nested no deeper than the bound. -/
theorem copyTo : ∀ {v : Value} {h : Heap} {n : Nat}, h.Unfolds t v → t.height ≤ n →
    Planted h [t] [(Heap.copyTo n v h).1] (Heap.copyTo n v h).2 := by
  induction t using Tree.induct with
  | leaf u =>
    rintro v h n ⟨rfl, hv⟩ -
    cases n <;> cases v <;> first | exact .leaf h hv | cases hv
  | array ts ih =>
    intro v h n ht high
    obtain ⟨r, rfl, -, all⟩ := unfolds_array.mp ht
    obtain ⟨n, rfl⟩ := Nat.exists_eq_add_one_of_ne_zero (Nat.ne_zero_of_lt high)
    rw [copyTo_array]
    exact (mapM all fun t mem v h ht => ih t mem ht (Tree.height_le_of_mem mem high)).newArray
  | dict ks ix ts ih =>
    intro v h n ht high
    obtain ⟨r, rfl, -, rfl, rfl, keys, all⟩ := unfolds_dict.mp ht
    obtain ⟨n, rfl⟩ := Nat.exists_eq_add_one_of_ne_zero (Nat.ne_zero_of_lt high)
    rw [copyTo_dict]
    have k := mapM all fun t mem v h ht => ih t mem ht (Tree.height_le_of_mem mem high)
    have same := (h.dict r).keys_withValues
      (((h.dict r).values.toList.mapM (Heap.copyTo n)).run h).1.toArray
    have made := k.newDict (e := (h.dict r).withValues _) rfl (by rwa [same]) fun built =>
      (built.dict r).copy (k.unfolds.length_eq.symm.trans all.length_eq)
    rwa [same] at made

end Planted

/-- A copy has the tree of the value, and new containers all the way down. -/
theorem Unfolds.copy {t : Tree} {v : Value} (ht : h.Unfolds t v) :
    Planted h [t] [(Heap.copy v h).1] (Heap.copy v h).2 := by
  rw [copy_eq_copyTo]
  exact .copyTo ht (Nat.le_succ_of_le ht.height_le)

/-- A copy shows as the value does. -/
theorem Unfolds.repr_copy {t : Tree} {v : Value} (ht : h.Unfolds t v) :
    (Heap.copy v h).2.repr (Heap.copy v h).1 = h.repr v := by
  rw [ht.copy.head.repr_eq_text, Tree.text_congr ht.copy.appends.leafRepr, ht.repr_eq_text]

/-! ## Equality -/

/-- Values with the same tree are equal, if no part of it differs from itself. -/
theorem equal_of_unfolds (built : h.Built) {t : Tree} (free : t.NaNFree) {a b : Value}
    (ha : h.Unfolds t a) (hb : h.Unfolds t b) : h.equal a b = true := by
  refine equal_iff_bisimilar.mpr
    ⟨fun x y => ∃ t : Tree, t.NaNFree ∧ h.Unfolds t x ∧ h.Unfolds t y, ?_, t, free, ha, hb⟩
  rintro x y ⟨t, free, hx, hy⟩
  cases t with
  | leaf u =>
    obtain ⟨rfl, -⟩ := hx
    obtain ⟨rfl, -⟩ := hy
    exact self_or_agree free
  | array ts =>
    obtain ⟨r, rfl, -, all⟩ := unfolds_array.mp hx
    obtain ⟨q, rfl, -, all'⟩ := unfolds_array.mp hy
    refine .inr (.array ?_ fun i v w hv hw => ?_)
    · rw [← Array.length_toList, ← Array.length_toList, ← all.length_eq, all'.length_eq]
    · rw [← Array.getElem?_toList] at hv hw
      obtain ⟨u, hu, huv⟩ := exists_getElem?_left all hv
      obtain ⟨u', hu', huw⟩ := exists_getElem?_left all' hw
      obtain rfl := Option.some.inj (hu.symm.trans hu')
      exact ⟨u, free.forall u (List.mem_of_getElem? hu), huv, huw⟩
  | dict ks ix ts =>
    obtain ⟨d, rfl, -, hk, -, -, all⟩ := unfolds_dict.mp hx
    obtain ⟨e, rfl, -, hk', -, -, all'⟩ := unfolds_dict.mp hy
    have keys : (h.dict d).keys = (h.dict e).keys := Array.toList_inj.mp (hk.trans hk'.symm)
    refine .inr (.dict ?_ fun k v mem => ?_)
    · rw [Dictionary.size, Dictionary.size, ← Slots.size_toArray, ← Slots.size_toArray]
      exact congrArg Array.size keys
    · -- The key has the same place in both, where the index finds it.
      obtain ⟨i, hki, hv⟩ := mem_zip_toList.mp mem
      have number : k.isNaN = false :=
        free.1 k (hk ▸ Array.mem_toList_iff.mpr (Array.mem_of_getElem? hki))
      rw [keys] at hki
      obtain ⟨form, hform, found⟩ :=
        (built.dict e).indexed hki (Value.keyForm_ne_unequal number)
      rw [← Array.getElem?_toList] at hv
      obtain ⟨u, hu, huv⟩ := exists_getElem?_left all hv
      obtain ⟨w, hw, huw⟩ := exists_getElem?_left all'.flip hu
      refine ⟨w, ?_, u, free.2.forall u (List.mem_of_getElem? hu), huv, huw⟩
      rw [Array.getElem?_toList] at hw
      rw [Dictionary.get?, Dictionary.position?, hform]
      simp only [found, Option.bind_some, hw]

end Pseudocode.Heap
