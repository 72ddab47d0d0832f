import Mathlib.Data.List.InsertIdx
import Pseudocode.Proofs.Execution.Native
import Pseudocode.Proofs.Execution.Session
/-
# `Proofs.Execution.Inserting` — inserting into an array

`insert` makes room in the array first and takes the copy of the new element then.
For a value that does not contain the array the order makes no difference
(`copy_modifyArray`): a change of one array is not seen by the copying of a value that
does not reach it.  A value that contains the array is copied with the room in it, in
which the element stands twice that is moved on.
-/
namespace Pseudocode

/-! ## What a value contains -/

namespace Heap

/-- The value is the container, or it has the container somewhere within it. -/
inductive Reaches (h : Heap) (c : Container) : Value → Prop
  | here {v : Value} : v.container? = some c → Reaches h c v
  | within {v u : Value} {d : Container} {i : Nat} : v.container? = some d →
      h.content? (.item d i) = some u → Reaches h c u → Reaches h c v

namespace Reaches

variable {h : Heap} {c : Container}

theorem of_array {r : ArrayRef} {x : Value} (hx : x ∈ (h.array r).toList) (hc : h.Reaches c x) :
    h.Reaches c (.array r) := by
  obtain ⟨i, hi⟩ := List.mem_iff_getElem?.mp hx
  rw [Array.getElem?_toList, Heap.array, Slots.getElem?_toArray] at hi
  exact .within (d := .array r) rfl hi hc

theorem of_dict {r : DictRef} {x : Value} (hx : x ∈ (h.dict r).values.toList)
    (hc : h.Reaches c x) : h.Reaches c (.dict r) := by
  obtain ⟨i, hi⟩ := List.mem_iff_getElem?.mp hx
  rw [Array.getElem?_toList] at hi
  exact .within (d := .dict r) rfl hi hc

end Reaches

theorem Grows.array_eq {h h' : Heap} (g : h.Grows h') {r : ArrayRef} (hr : r.index < h.arrays.size) :
    h'.array r = h.array r := by
  apply Array.ext_getElem?
  intro i
  have hi := g.content (.item (.array r) i) fun d hd => by cases hd; exact hr
  change (h'.slots r).toArray[i]? = (h.slots r).toArray[i]?
  rwa [Slots.getElem?_toArray, Slots.getElem?_toArray]

theorem Grows.values_eq {h h' : Heap} (g : h.Grows h') {r : DictRef} (hr : r.index < h.dicts.size) :
    (h'.dict r).values = (h.dict r).values := by
  apply Array.ext_getElem?
  intro i
  exact g.content (.item (.dict r) i) fun d hd => by cases hd; exact hr

section Copying

variable {n : Nat} {h₀ : Heap} {a : ArrayRef} {f : Slots → Slots}

theorem slots_modifyArray_of_ne {h : Heap} {r : ArrayRef} (hr : r ≠ a) :
    (h.modifyArray a f).slots r = h.slots r := by
  have hi : ¬ a.index = r.index := fun he => hr (by cases r; cases a; cases he; rfl)
  simp only [slots, modifyArray, getD_modify, hi, false_and, ↓reduceIte]

theorem newArray_modifyArray {h : Heap} (ha : a.index < h.arrays.size) (xs : Array Value) :
    (h.modifyArray a f).newArray xs = ((h.newArray xs).1, (h.newArray xs).2.modifyArray a f) := by
  have hpush : (h.arrays.modify a.index f).push (.ofArray xs) =
      (h.arrays.push (.ofArray xs)).modify a.index f := by
    apply Array.ext_getElem?
    intro i
    by_cases hi : a.index = i
    · subst hi
      simp [Array.getElem?_push, Array.getElem?_modify, Nat.ne_of_lt ha]
    · simp [Array.getElem?_push, Array.getElem?_modify, hi]
  simp only [newArray, modifyArray, Array.size_modify, hpush]

/-- Actions one after another that are not affected by a change of the heap. -/
theorem mapM_commutes {e : Value → StateM Heap Value} {m : Heap → Heap} {P : Value → Prop}
    (hf : ∀ v h, P v → h₀.Grows h → h.Closed (h.extent n) → Copied n h [(e v h).1] (e v h).2)
    (hm : ∀ v h, P v → h₀.Grows h → h.Closed (h.extent n) → e v (m h) = ((e v h).1, m (e v h).2)) :
    ∀ (vs : List Value) (h : Heap), (∀ v ∈ vs, P v) → h₀.Grows h → h.Closed (h.extent n) →
      (vs.mapM e).run (m h) = (((vs.mapM e).run h).1, m ((vs.mapM e).run h).2)
  | [], _, _, _, _ => rfl
  | v :: vs, h, hp, hg, hc => by
      have k := hf v h (hp v List.mem_cons_self) hg hc
      have hvs := mapM_commutes hf hm vs (e v h).2 (fun w hw => hp w (List.mem_cons_of_mem v hw))
        (hg.trans k.grows) k.closed
      have hrun : ∀ h, ((v :: vs).mapM e).run h =
          ((e v h).1 :: ((vs.mapM e).run (e v h).2).1, ((vs.mapM e).run (e v h).2).2) := by
        intro h
        simp only [List.mapM_cons, StateT.run_bind, StateT.run_pure]
        rfl
      rw [hrun, hrun, hm v h (hp v List.mem_cons_self) hg hc, hvs]

/-- Copying does not see a change of an array that the value does not contain. -/
theorem copyTo_modifyArray (hc₀ : h₀.Closed (h₀.extent n)) {rank : Container → Nat}
    (hr : h₀.IsRank rank) (ha : a.index < h₀.arrays.size) :
    ∀ (depth : Nat) (v : Value) (h : Heap), Shallow n h₀ rank depth v →
      ¬ h₀.Reaches (.array a) v → h₀.Grows h → h.Closed (h.extent n) →
        copyTo depth v (h.modifyArray a f) =
          ((copyTo depth v h).1, (copyTo depth v h).2.modifyArray a f) := by
  intro depth
  induction depth with
  | zero => intros; rfl
  | succ depth ih =>
      intro v h hv hfree hg hc
      have hall : ∀ vs : List Value, (∀ x ∈ vs, Shallow n h₀ rank depth x ∧
          ¬ h₀.Reaches (.array a) x) →
          (vs.mapM (copyTo depth)).run (h.modifyArray a f) =
            (((vs.mapM (copyTo depth)).run h).1,
              ((vs.mapM (copyTo depth)).run h).2.modifyArray a f) ∧
          h₀.Grows ((vs.mapM (copyTo depth)).run h).2 := by
        intro vs hvs
        have hcopied : ∀ x h, Shallow n h₀ rank depth x ∧ ¬ h₀.Reaches (.array a) x → h₀.Grows h →
            h.Closed (h.extent n) → Copied n h [(copyTo depth x h).1] (copyTo depth x h).2 :=
          fun x h hx => copied_copyTo hc₀ hr depth x h hx.1
        exact ⟨mapM_commutes hcopied (fun x h hx => ih x h hx.1 hx.2) vs h hvs hg hc,
          hg.trans (copied_mapM hcopied vs h hvs hg hc).grows⟩
      cases v with
      | array r =>
          have hold : h.array r = h₀.array r := hg.array_eq (hv.1)
          have hne : r ≠ a := fun he => hfree (.here (he ▸ rfl))
          have hsame : (h.modifyArray a f).array r = h.array r := by
            rw [Heap.array, Heap.array, slots_modifyArray_of_ne hne]
          obtain ⟨hrun, hgrows⟩ := hall (h.array r).toList fun x hx =>
            ⟨hv.array hc₀ hr hg x hx, fun hreach => hfree (.of_array (hold ▸ hx) hreach)⟩
          rw [copyTo_array, copyTo_array, hsame, hrun]
          exact newArray_modifyArray (Nat.lt_of_lt_of_le ha hgrows.arrays) _
      | dict r =>
          have hold : (h.dict r).values = (h₀.dict r).values := hg.values_eq (hv.1)
          obtain ⟨hrun, -⟩ := hall (h.dict r).values.toList fun x hx =>
            ⟨hv.dict hc₀ hr hg x hx, fun hreach => hfree (.of_dict (hold ▸ hx) hreach)⟩
          rw [copyTo_dict, copyTo_dict, show (h.modifyArray a f).dict r = h.dict r from rfl, hrun]
          rfl
      | _ => rfl

theorem copy_modifyArray {h : Heap} (hs : h.Sound n) (ha : a.index < h.arrays.size) {v : Value}
    (hv : v.Within (h.extent n)) (hfree : ¬ h.Reaches (.array a) v) :
    Heap.copy v (h.modifyArray a f) = ((Heap.copy v h).1, (Heap.copy v h).2.modifyArray a f) := by
  obtain ⟨rank, hrank⟩ := hs.ranked
  have hshallow : Shallow n h rank (h.containers + 1) v :=
    ⟨hv, fun c hvc => Nat.lt_succ_of_lt (hrank.2 c (hv.container hvc))⟩
  have hcopy := copyTo_modifyArray hs.closed hrank ha (f := f) (h.containers + 1) v h hshallow hfree
    (.refl h) hs.closed
  have hcount : (h.modifyArray a f).containers = h.containers :=
    containers_congr Array.size_modify rfl
  cases v with
  | array r =>
      rw [← hcount] at hcopy
      exact hcopy.trans (by rw [hcount]; rfl)
  | dict r =>
      rw [← hcount] at hcopy
      exact hcopy.trans (by rw [hcount]; rfl)
  | _ => rfl

end Copying

end Heap

/-! ## Inserting -/

namespace Slots

theorem size_openGap (s : Slots) (p : Nat) : (s.openGap p).size = s.size + 1 := by
  simp only [openGap]
  split <;> simp only [size_push]

theorem toArray_set (s : Slots) (p : Nat) (v : Value) :
    (s.set p v).toArray = s.toArray.setIfInBounds p v := by
  apply Array.ext_getElem?
  intro i
  simp only [getElem?_toArray, get?_set, Array.getElem?_setIfInBounds, size_toArray]
  by_cases hi : p = i
  · subst hi
    by_cases hp : p < s.size
    · simp [hp]
    · simp [hp, get?]
  · simp [hi]

/-- Making room and filling it is insertion. -/
theorem toList_set_openGap (s : Slots) {p : Nat} (hp : p ≤ s.size) (v : Value) :
    ((s.openGap p).toArray.setIfInBounds p v).toList = s.toArray.toList.insertIdx p v := by
  have hlength : s.toArray.toList.length = s.size := by
    rw [Array.length_toList, size_toArray]
  apply List.ext_getElem?
  intro i
  rw [← toArray_set, Array.getElem?_toList, getElem?_toArray, get?_set, size_openGap,
    get?_openGap s hp, List.getElem?_insertIdx]
  simp only [Array.getElem?_toList, getElem?_toArray, hlength]
  rcases Nat.lt_trichotomy i p with h | rfl | h
  · rw [if_neg (by omega), if_pos h, if_pos h]
  · rw [if_pos (by omega), if_neg (by omega), if_pos rfl, if_pos hp]
  · rw [if_neg (by omega), if_neg (by omega), if_neg (by omega), if_neg (by omega), if_neg (by omega)]

/-- While the room is not filled, what stood there stands twice, and there is a gap at the end. -/
theorem toList_openGap (s : Slots) {p : Nat} (hp : p ≤ s.size) :
    (s.openGap p).toArray.toList =
      s.toArray.toList.insertIdx p ((s.toArray[p]?).getD .gap) := by
  have hroom : (s.openGap p).toArray[p]? = some ((s.toArray[p]?).getD .gap) := by
    rw [getElem?_toArray, getElem?_toArray, get?_openGap s hp, if_neg (Nat.lt_irrefl p), if_pos rfl]
    by_cases h : p < s.size
    · have hblock : p < s.block.size := Nat.lt_of_lt_of_le h s.size_le
      simp [get?, h, hblock]
    · simp [get?, h]
  rw [← toList_set_openGap s hp]
  congr 1
  apply Array.ext_getElem?
  intro i
  rw [Array.getElem?_setIfInBounds]
  split
  next h =>
    subst h
    rw [hroom]
    simp [size_openGap]
    omega
  next => rfl

end Slots

namespace Builtins

theorem insertPlace_eq (n : Int) (size : Nat) :
    (insertPlace n size : Int) = min (max (if n < 0 then n + size else n) 0) size := by
  simp only [insertPlace]
  omega

variable {env : Env} {w : World} {a : ArrayRef} {i x : Value} {n : Int} {p : Nat}

/-- Room is made, a copy is taken and put into the room. -/
theorem arrayInsert_eq {c : Value} {h : Heap} (hi : i.integral? = some n)
    (hp : insertPlace n (w.heap.slots a).size = p)
    (hcopy : Heap.copy x (w.heap.modifyArray a (·.openGap p)) = (c, h)) :
    arrayInsert a "insert" [i, x] env w =
      .ok .none { w with heap := h.modifyArray a (·.set p c) } := by
  subst hp
  have hc : Eval.copy x env
      { w with heap := w.heap.modifyArray a (·.openGap (insertPlace n (w.heap.slots a).size)) } =
      .ok c { w with heap := h } := by
    rw [Eval.copy_eq, hcopy]
  simp only [arrayInsert, arg, List.getD_cons_zero, hi]
  exact Eval.bind_ok hc _

/-- Inserting a value is list insertion, of a copy of the value as it was before the call unless it
contains the array.  In any case it is a copy of the value as it is while room is made in the array:
the element that is moved on stands twice in it, and at its end there is a gap. -/
theorem arrayInsert_inserts_copy (hs : w.Sound) (ha : a.index < w.heap.arrays.size)
    (hi : i.integral? = some n) (hx : x.Within w.extent)
    (hp : (p : Int) = min (max (if n < 0 then n + (w.heap.array a).size else n) 0)
      (w.heap.array a).size) :
    ∃ u w', arrayInsert a "insert" [i, x] env w = .ok .none w' ∧ w'.Sound ∧
      (w'.heap.array a).toList = (w.heap.array a).toList.insertIdx p u ∧
      (¬ w.heap.Reaches (.array a) x → u = (Heap.copy x w.heap).1 ∧
        Heap.Copied w.interpreters.size w.heap [u] (Heap.copy x w.heap).2 ∧
        ∀ q : Slot, q.host ≠ some (.array a) →
          w'.heap.content? q = (Heap.copy x w.heap).2.content? q) ∧
      (∃ h : Heap, (h.array a).toList =
          (w.heap.array a).toList.insertIdx p (((w.heap.array a)[p]?).getD .gap) ∧
        (∀ q : Slot, q.host ≠ some (.array a) → h.content? q = w.heap.content? q) ∧
        u = (Heap.copy x h).1 ∧
        ∀ q : Slot, q.host ≠ some (.array a) → w'.heap.content? q = (Heap.copy x h).2.content? q) := by
  have hsize : (w.heap.array a).size = (w.heap.slots a).size := Slots.size_toArray _
  have hplace : insertPlace n (w.heap.slots a).size = p := by
    have := insertPlace_eq n (w.heap.slots a).size
    rw [hsize] at hp
    omega
  have hle : p ≤ (w.heap.slots a).size := by omega
  have k := Heap.Sound.copy_openGap hs ha hle hx
  obtain ⟨u, h, hcopy⟩ : ∃ u h, Heap.copy x (w.heap.modifyArray a (·.openGap p)) = (u, h) :=
    ⟨_, _, rfl⟩
  have hsound := (Heap.Sound.insert hs ha hle hx hcopy).1
  rw [hcopy] at k
  have ha₁ : a.index < (w.heap.modifyArray a (·.openGap p)).arrays.size :=
    Nat.lt_of_lt_of_eq ha Array.size_modify.symm
  have ha₂ := Nat.lt_of_lt_of_le ha₁ k.grows.arrays
  refine ⟨u, _, arrayInsert_eq hi hplace hcopy, hsound, ?_, fun hfree => ?_, ?_⟩
  · have hroom : (w.heap.modifyArray a (·.openGap p)).array a = ((w.heap.slots a).openGap p).toArray :=
      congrArg Slots.toArray (w.heap.slots_modifyArray a _ ha)
    rw [Heap.array, Heap.slots_modifyArray _ a _ ha₂, Slots.toArray_set, ← Heap.array,
      k.grows.array_eq ha₁, hroom, Slots.toList_set_openGap _ hle, ← Heap.array]
  · rw [Heap.copy_modifyArray hs ha hx hfree, Prod.mk.injEq] at hcopy
    obtain ⟨rfl, rfl⟩ := hcopy
    refine ⟨rfl, Heap.Sound.copy hs hx, fun q hq => ?_⟩
    rw [Heap.content?_modifyArray _ a _ q hq, Heap.content?_modifyArray _ a _ q hq]
  · refine ⟨w.heap.modifyArray a (·.openGap p), ?_, fun q hq => w.heap.content?_modifyArray a _ q hq,
      by rw [hcopy], fun q hq => ?_⟩
    · rw [Heap.array, w.heap.slots_modifyArray a _ ha]
      exact Slots.toList_openGap _ hle
    · rw [hcopy]
      exact Heap.content?_modifyArray _ a _ q hq

/-- The arrays `[1, 2]` and `[3]`. -/
def twoArrays : Heap :=
  (((Session.rootedWorld default).heap.newArray #[.int 1, .int 2]).2.newArray #[.int 3]).2

/-- The second one is inserted into the first, in front of its last element. -/
theorem arrayInsert_inserts_array :
    ∃ w' : World, arrayInsert ⟨0⟩ "insert" [.int (-1), .array ⟨1⟩]
        ⟨(default : Session.Options).setup, Session.main⟩
        { Session.rootedWorld default with heap := twoArrays } = .ok .none w' ∧
      (w'.heap.array ⟨0⟩).toList = [.int 1, .array ⟨2⟩, .int 2] ∧
      w'.heap.content? (.item (.array ⟨2⟩) 0) = some (.int 3) := by
  have hs : (Session.rootedWorld default).Sound := (Session.ready_rooted default).sound trivial
  have hone {h : Heap} (hh : h.Sound 1) (k : Int) : Heap.Copied 1 h [.int k] h :=
    .leaf hh.closed rfl trivial
  have hfirst : Heap.Sound 1 ((Session.rootedWorld default).heap.newArray #[.int 1, .int 2]).2 :=
    Heap.Sound.copied hs (((hone hs 1).append (hone hs 2)).newArray rfl)
  have hboth : Heap.Sound 1 twoArrays :=
    Heap.Sound.copied hfirst ((hone hfirst 3).newArray rfl)
  obtain ⟨u, w', hrun, -, hlist, hcopy, -⟩ := @arrayInsert_inserts_copy
    ⟨(default : Session.Options).setup, Session.main⟩
    { Session.rootedWorld default with heap := twoArrays } ⟨0⟩ (.int (-1)) (.array ⟨1⟩) (-1) 1
    hboth (by decide +kernel) rfl Nat.one_lt_two (by decide +kernel)
  have hapart : ¬ twoArrays.Reaches (.array ⟨0⟩) (.array ⟨1⟩) := by
    rintro (⟨⟨⟩⟩ | @⟨_, _, _, i, ⟨⟩, hitem, hin⟩)
    cases i with
    | succ i => cases hitem
    | zero =>
      cases hitem
      cases hin with
      | here h => cases h
      | within h _ _ => cases h
  obtain ⟨rfl, -, hsame⟩ := hcopy hapart
  have hcopied : Heap.copy (.array ⟨1⟩) twoArrays = twoArrays.newArray #[.int 3] := by
    rw [Heap.copy_eq_copyTo, Heap.copyTo_array]
    rfl
  rw [hcopied] at hlist hsame
  exact ⟨w', hrun, hlist, hsame _ (by decide)⟩

/-- An array that is inserted into itself is not inserted as it was before the call, but with
its first element standing twice. -/
theorem arrayInsert_own_array :
    ∃ w' : World, arrayInsert ⟨0⟩ "insert" [.int 0, .array ⟨0⟩]
        ⟨(default : Session.Options).setup, Session.main⟩
        { Session.rootedWorld default with
          heap := ((Session.rootedWorld default).heap.newArray #[.int 1, .int 2]).2 } =
          .ok .none w' ∧
      (w'.heap.array ⟨0⟩).toList = [.array ⟨1⟩, .int 1, .int 2] ∧
      (w'.heap.array ⟨1⟩).toList = [.int 1, .int 1, .int 2] := by
  have hcopy := Heap.copyTo_array 1 ⟨0⟩
    (((Session.rootedWorld default).heap.newArray #[.int 1, .int 2]).2.modifyArray ⟨0⟩ (·.openGap 0))
  exact ⟨_, arrayInsert_eq (n := 0) (p := 0) rfl rfl hcopy, rfl, rfl⟩

end Builtins

end Pseudocode
