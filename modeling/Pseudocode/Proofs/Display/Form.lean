import Mathlib.Data.List.Perm.Subperm
import Mathlib.Data.List.Nodup
import Pseudocode.Proofs.Ownership.Slot
/-
# `Proofs.Display.Form` — values by their structure

A form is what a value is made of, without the places in the heap where its
containers happen to be: atoms, and containers of forms in order.  A value has a
form in a heap (`Heap.Holds`) if the references in it name containers that hold
the parts.  Only values without cycles have a form, and only one.

The display form of a value depends on its form alone (`repr_eq_text`).  The
function that displays a value descends to a depth that is given by the number of
containers, so this needs that no form is higher than that: on the way down to a
deepest part no container is met twice.
-/
namespace Pseudocode

/-! ## Forms -/

/-- A value that is no container and has no identity of its own. -/
inductive Atom where
  | none
  | bool (b : Bool)
  | int (n : Int)
  | string (s : String)
deriving DecidableEq

mutual

/-- The structure of a value. -/
inductive Form where
  | atom (s : Atom)
  | array (elements : List Form)
  | dict (entries : List Pair)

/-- A key with the form of its value. -/
inductive Pair where
  | mk (key : Atom) (value : Form)

end

def Pair.key : Pair → Atom
  | .mk k _ => k

def Atom.value : Atom → Value
  | .none => .none
  | .bool b => .bool b
  | .int n => .int n
  | .string s => .string s

theorem Atom.value_inj {s s' : Atom} (h : s.value = s'.value) : s = s' := by
  cases s <;> cases s' <;> cases h <;> rfl

namespace Heap

mutual

/-- The value has this form in the heap. -/
def Holds (h : Heap) : Form → Value → Prop
  | .atom s, v => v = s.value
  | .array fs, v => ∃ r, v = .array r ∧ r.index < h.arrays.size ∧ HoldsAll h fs (h.array r).toList
  | .dict es, v => ∃ r, v = .dict r ∧ r.index < h.dicts.size ∧
      HoldsPairs h es (h.dict r).keys.toList (h.dict r).values.toList

/-- The values have these forms, in order. -/
def HoldsAll (h : Heap) : List Form → List Value → Prop
  | [], [] => True
  | f :: fs, v :: vs => Holds h f v ∧ HoldsAll h fs vs
  | _, _ => False

/-- The keys and values are these, in order. -/
def HoldsPairs (h : Heap) : List Pair → List Value → List Value → Prop
  | [], [], [] => True
  | .mk k f :: es, key :: keys, v :: vs => key = k.value ∧ Holds h f v ∧ HoldsPairs h es keys vs
  | _, _, _ => False

end

/-! ## A value has one form -/

variable {h : Heap}

mutual

theorem holds_unique : ∀ (f g : Form) (v : Value), h.Holds f v → h.Holds g v → f = g
  | .atom s, g, v, hf, hg => by
    simp only [Holds] at hf
    subst hf
    cases g with
    | atom s' => rw [Atom.value_inj hg]
    | array fs =>
      obtain ⟨r, same, -⟩ := hg
      cases s <;> cases same
    | dict es =>
      obtain ⟨r, same, -⟩ := hg
      cases s <;> cases same
  | .array fs, g, v, hf, hg => by
    obtain ⟨r, rfl, -, all⟩ := hf
    cases g with
    | atom s => cases s <;> cases hg
    | array gs =>
      obtain ⟨r', same, -, all'⟩ := hg
      cases same
      rw [holdsAll_unique fs gs _ all all']
    | dict es =>
      obtain ⟨r', same, -⟩ := hg
      cases same
  | .dict es, g, v, hf, hg => by
    obtain ⟨r, rfl, -, all⟩ := hf
    cases g with
    | atom s => cases s <;> cases hg
    | array gs =>
      obtain ⟨r', same, -⟩ := hg
      cases same
    | dict es' =>
      obtain ⟨r', same, -, all'⟩ := hg
      cases same
      rw [holdsPairs_unique es es' _ _ all all']

theorem holdsAll_unique : ∀ (fs gs : List Form) (vs : List Value), h.HoldsAll fs vs →
    h.HoldsAll gs vs → fs = gs
  | [], [], _, _, _ => rfl
  | [], _ :: _, [], _, hg => hg.elim
  | [], _ :: _, _ :: _, hf, _ => hf.elim
  | _ :: _, [], [], hf, _ => hf.elim
  | _ :: _, [], _ :: _, _, hg => hg.elim
  | _ :: _, _ :: _, [], hf, _ => hf.elim
  | f :: fs, g :: gs, v :: vs, hf, hg => by
    rw [holds_unique f g v hf.1 hg.1, holdsAll_unique fs gs vs hf.2 hg.2]

theorem holdsPairs_unique : ∀ (es es' : List Pair) (keys vs : List Value),
    h.HoldsPairs es keys vs → h.HoldsPairs es' keys vs → es = es'
  | [], [], _, _, _, _ => rfl
  | [], .mk _ _ :: _, [], [], _, hg => hg.elim
  | .mk _ _ :: _, [], [], [], hf, _ => hf.elim
  | .mk k f :: es, .mk k' g :: es', key :: keys, v :: vs, hf, hg => by
    rw [Atom.value_inj (hf.1.symm.trans hg.1), holds_unique f g v hf.2.1 hg.2.1,
      holdsPairs_unique es es' keys vs hf.2.2 hg.2.2]

end

end Heap

/-! ## Heights -/

mutual

/-- How many levels there are, the atoms included. -/
def Form.height : Form → Nat
  | .atom _ => 1
  | .array fs => formsHeight fs + 1
  | .dict es => pairsHeight es + 1

def formsHeight : List Form → Nat
  | [] => 0
  | f :: fs => max f.height (formsHeight fs)

def pairsHeight : List Pair → Nat
  | [] => 0
  | .mk _ f :: es => max f.height (pairsHeight es)

end

namespace Heap

variable {h : Heap}

theorem HoldsAll.exists_highest : ∀ {fs : List Form} {vs : List Value}, h.HoldsAll fs vs →
    formsHeight fs = 0 ∨ ∃ f v, h.Holds f v ∧ f.height = formsHeight fs
  | [], _, _ => .inl rfl
  | f :: fs, v :: vs, all => by
    refine .inr ?_
    rcases all.2.exists_highest with none | ⟨g, u, hu, high⟩
    · exact ⟨f, v, all.1, by rw [formsHeight, none, Nat.max_zero]⟩
    · rcases Nat.le_total f.height g.height with le | le
      · exact ⟨g, u, hu, by rw [formsHeight]; omega⟩
      · exact ⟨f, v, all.1, by rw [formsHeight]; omega⟩

theorem HoldsPairs.exists_highest : ∀ {es : List Pair} {keys vs : List Value},
    h.HoldsPairs es keys vs →
    pairsHeight es = 0 ∨ ∃ f v, h.Holds f v ∧ f.height = pairsHeight es
  | [], _, _, _ => .inl rfl
  | .mk k f :: es, key :: keys, v :: vs, all => by
    refine .inr ?_
    rcases all.2.2.exists_highest with none | ⟨g, u, hu, high⟩
    · exact ⟨f, v, all.2.1, by rw [pairsHeight, none, Nat.max_zero]⟩
    · rcases Nat.le_total f.height g.height with le | le
      · exact ⟨g, u, hu, by rw [pairsHeight]; omega⟩
      · exact ⟨f, v, all.2.1, by rw [pairsHeight]; omega⟩

/-- A form of more than one level belongs to a container, one level above its
highest part. -/
theorem Holds.part {f : Form} {v : Value} (hv : h.Holds f v) :
    f.height = 1 ∨ ∃ c g u, v.container? = some c ∧ c.In h ∧ h.Holds g u ∧
      f.height = g.height + 1 := by
  cases f with
  | atom s => exact .inl rfl
  | array fs =>
    obtain ⟨r, rfl, inside, all⟩ := hv
    rcases all.exists_highest with none | ⟨g, u, hu, high⟩
    · exact .inl (by rw [Form.height, none])
    · exact .inr ⟨.array r, g, u, rfl, inside, hu, by rw [Form.height, high]⟩
  | dict es =>
    obtain ⟨r, rfl, inside, all⟩ := hv
    rcases all.exists_highest with none | ⟨g, u, hu, high⟩
    · exact .inl (by rw [Form.height, none])
    · exact .inr ⟨.dict r, g, u, rfl, inside, hu, by rw [Form.height, high]⟩

theorem container?_inj {v u : Value} {c : Container} (hv : v.container? = some c)
    (hu : u.container? = some c) : v = u := by
  cases v <;> cases hv <;> cases u <;> cases hu <;> rfl

/-- On the way down to a deepest part every container is met once: the form of one
that is met later is lower, and a container has one form. -/
theorem Holds.exists_path {f : Form} {v : Value} (hv : h.Holds f v) :
    ∃ cs : List Container, cs.Nodup ∧ f.height ≤ cs.length + 1 ∧
      ∀ c ∈ cs, c.In h ∧ ∃ g u, h.Holds g u ∧ u.container? = some c ∧ g.height ≤ f.height := by
  induction height : f.height using Nat.strongRecOn generalizing f v with
  | _ n ih =>
    subst height
    rcases hv.part with low | ⟨c, g, u, here, inside, hu, high⟩
    · exact ⟨[], List.nodup_nil, by rw [low]; exact Nat.le_refl _, by simp⟩
    · obtain ⟨cs, once, long, below⟩ := ih g.height (by omega) hu rfl
      refine ⟨c :: cs, List.nodup_cons.mpr ⟨?_, once⟩, by rw [List.length_cons]; omega, ?_⟩
      · intro again
        obtain ⟨-, f', v', hv', same, lower⟩ := below c again
        obtain rfl := container?_inj here same
        obtain rfl := holds_unique f f' v hv hv'
        omega
      · refine List.forall_mem_cons.mpr ⟨⟨inside, f, v, hv, here, Nat.le_refl _⟩, ?_⟩
        intro d mem
        obtain ⟨inside', f', v', hv', same, lower⟩ := below d mem
        exact ⟨inside', f', v', hv', same, by omega⟩

/-- Numbers for the containers of a heap. -/
def code (h : Heap) : Container → Nat
  | .array r => r.index
  | .dict r => h.arrays.size + r.index

theorem length_le_containers {cs : List Container} (once : cs.Nodup) (all : ∀ c ∈ cs, c.In h) :
    cs.length ≤ h.containers := by
  have apart : ∀ c ∈ cs, ∀ d ∈ cs, h.code c = h.code d → c = d := by
    intro c hc d hd same
    have hc := all c hc
    have hd := all d hd
    match c, d with
    | .array ⟨i⟩, .array ⟨j⟩ =>
      obtain rfl : i = j := same
      rfl
    | .dict ⟨i⟩, .dict ⟨j⟩ =>
      obtain rfl : i = j := Nat.add_left_cancel same
      rfl
    | .array ⟨i⟩, .dict ⟨j⟩ =>
      have below : i < h.arrays.size := hc
      have equal : i = h.arrays.size + j := same
      omega
    | .dict ⟨i⟩, .array ⟨j⟩ =>
      have below : j < h.arrays.size := hd
      have equal : h.arrays.size + i = j := same
      omega
  have inside : cs.map h.code ⊆ List.range h.containers := by
    intro k hk
    obtain ⟨c, mem, rfl⟩ := List.mem_map.mp hk
    refine List.mem_range.mpr ?_
    have within := all c mem
    match c with
    | .array ⟨i⟩ =>
      have below : i < h.arrays.size := within
      exact Nat.lt_of_lt_of_le below (Nat.le_add_right _ _)
    | .dict ⟨i⟩ =>
      have below : i < h.dicts.size := within
      exact Nat.add_lt_add_left below _
  have bound := (List.subperm_of_subset (once.map_on apart) inside).length_le
  simpa using bound

theorem Holds.height_le {f : Form} {v : Value} (hv : h.Holds f v) :
    f.height ≤ h.containers + 1 := by
  obtain ⟨cs, once, long, all⟩ := hv.exists_path
  have short := length_le_containers once fun c mem => (all c mem).1
  omega

/-! ## Display forms -/

end Heap

def Atom.text : Atom → String
  | .none => "None"
  | .bool b => if b then "True" else "False"
  | .int n => toString n
  | .string s => Text.quoted s

mutual

/-- The display form, as inside containers. -/
def Form.text : Form → String
  | .atom s => s.text
  | .array fs => bracketed (formsText fs)
  | .dict es => braced (pairsText es)

def formsText : List Form → List String
  | [] => []
  | f :: fs => f.text :: formsText fs

def pairsText : List Pair → List String
  | [] => []
  | .mk k f :: es => entryText k.text f.text :: pairsText es

end

namespace Heap

variable {h : Heap}

theorem reprTo_atom (s : Atom) {n : Nat} (high : 1 ≤ n) : h.reprTo n s.value = s.text := by
  obtain ⟨n, rfl⟩ := Nat.exists_eq_add_one_of_ne_zero (Nat.ne_of_gt high)
  cases s <;> rfl

theorem one_le_height (f : Form) : 1 ≤ f.height := by
  cases f <;> rw [Form.height] <;> omega

mutual

theorem reprTo_eq_text : ∀ (f : Form) {v : Value} {n : Nat}, h.Holds f v → f.height ≤ n →
    h.reprTo n v = f.text
  | .atom s, v, n, hv, high => by
    obtain rfl : v = s.value := hv
    exact reprTo_atom s high
  | .array fs, v, n, hv, high => by
    obtain ⟨r, rfl, -, all⟩ := hv
    rw [Form.height] at high
    obtain ⟨n, rfl⟩ := Nat.exists_eq_add_one_of_ne_zero (Nat.ne_zero_of_lt high)
    exact congrArg bracketed (reprTo_eq_formsText fs all (Nat.le_of_succ_le_succ high))
  | .dict es, v, n, hv, high => by
    obtain ⟨r, rfl, -, all⟩ := hv
    rw [Form.height] at high
    obtain ⟨n, rfl⟩ := Nat.exists_eq_add_one_of_ne_zero (Nat.ne_zero_of_lt high)
    exact congrArg braced (reprTo_eq_pairsText es all (Nat.le_of_succ_le_succ high))

theorem reprTo_eq_formsText : ∀ (fs : List Form) {vs : List Value} {n : Nat}, h.HoldsAll fs vs →
    formsHeight fs ≤ n → vs.map (h.reprTo n) = formsText fs
  | [], [], _, _, _ => rfl
  | f :: fs, v :: vs, n, all, high => by
    rw [formsHeight] at high
    rw [List.map_cons, formsText, reprTo_eq_text f all.1 (by omega),
      reprTo_eq_formsText fs all.2 (by omega)]

theorem reprTo_eq_pairsText : ∀ (es : List Pair) {keys vs : List Value} {n : Nat},
    h.HoldsPairs es keys vs → pairsHeight es ≤ n →
    ((keys.zip vs).map fun e => entryText (h.reprTo n e.1) (h.reprTo n e.2)) = pairsText es
  | [], [], [], _, _, _ => rfl
  | .mk k f :: es, key :: keys, v :: vs, n, all, high => by
    rw [pairsHeight] at high
    obtain ⟨rfl, first, rest⟩ := all
    have := one_le_height f
    rw [List.zip_cons_cons, List.map_cons, pairsText, reprTo_atom k (by omega),
      reprTo_eq_text f first (by omega), reprTo_eq_pairsText es rest (by omega)]

end

/-- Values of the same form have the same display form. -/
theorem repr_eq_text {f : Form} {v : Value} (hv : h.Holds f v) : h.repr v = f.text :=
  reprTo_eq_text f hv (Nat.le_succ_of_le hv.height_le)

end Heap

end Pseudocode
