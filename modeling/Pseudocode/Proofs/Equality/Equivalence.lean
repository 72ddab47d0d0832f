import Mathlib.Data.Fintype.EquivFin
import Pseudocode.Proofs.Dictionary.Ledger
import Pseudocode.Proofs.Display.Form
import Pseudocode.Proofs.Equality
/-
# `Proofs.Equality.Equivalence` — equality is symmetric, and an equivalence without reals

Equality is the greatest bisimulation (`isBisimulation_equal`), so each law of it is shown by
a relation that contains the pairs in question and is a bisimulation itself.

* Symmetry: the converse of equality.  Of two dictionaries of one size every key of the first
  is looked up in the second, and no key of the second is.  But different keys of the first
  have different places in the second, and so each place of the second is that of some key
  (`Dictionary.exists_meets`).
* Transitivity: equality after equality, between values from which no real is reached.  With
  reals it fails, since two great integers may be the same as reals.
-/
namespace Pseudocode

/-! ## Dictionaries of one size -/

theorem Value.meets_symm {k l : Value} (meet : k.meets l = true) : l.meets k = true := by
  obtain ⟨form, hk, hl⟩ := meets_iff.mp meet
  exact meets_iff.mpr ⟨form, hl, hk⟩

theorem Value.meets_trans {k l m : Value} (meet : k.meets l = true) (meet' : l.meets m = true) :
    k.meets m = true := by
  obtain ⟨form, hk, hl⟩ := meets_iff.mp meet
  obtain ⟨form', hl', hm⟩ := meets_iff.mp meet'
  rw [hl] at hl'
  cases hl'
  exact meets_iff.mpr ⟨form, hk, hm⟩

namespace Dictionary

variable {d e : Dictionary}

/-- A look-up finds the value at the place of a key that meets the one looked up. -/
theorem get?_eq_some_iff (s : d.Sound) {key v : Value} :
    d.get? key = some v ↔ ∃ (i : Nat) (k : Value), d.keys[i]? = some k ∧ d.values[i]? = some v ∧
      k.meets key = true := by
  rw [get?, Option.bind_eq_some_iff]
  constructor
  · rintro ⟨i, found, hv⟩
    rw [position?] at found
    cases form : key.keyForm with
    | found l =>
      rw [form] at found
      obtain ⟨k, hk, same⟩ := (s.placed l i).mp found
      exact ⟨i, k, hk, hv, (Value.meets_of_found form).mpr same⟩
    | unequal => rw [form] at found; cases found
    | unhashable => rw [form] at found; cases found
  · rintro ⟨i, k, hk, hv, meet⟩
    obtain ⟨l, same, form⟩ := Value.meets_iff.mp meet
    refine ⟨i, ?_, hv⟩
    rw [position?, form]
    exact (s.placed l i).mpr ⟨k, hk, same⟩

/-- A look-up only depends on the form of the key. -/
theorem get?_congr {k l : Value} (meet : k.meets l = true) (d : Dictionary) :
    d.get? k = d.get? l := by
  obtain ⟨form, hk, hl⟩ := Value.meets_iff.mp meet
  rw [get?, get?, position?, position?, hk, hl]

theorem mem_toList_iff {k v : Value} :
    (k, v) ∈ d.toList ↔ ∃ i : Nat, d.keys[i]? = some k ∧ d.values[i]? = some v :=
  Heap.mem_zip_toList

/-- Of two dictionaries of one size, if every key of the first meets one of the second, then every
key of the second meets one of the first. -/
theorem exists_meets (s : d.Sound) (size : d.keys.size = e.keys.size)
    (each : ∀ (i : Nat) (k : Value), d.keys[i]? = some k →
      ∃ (j : Nat) (l : Value), e.keys[j]? = some l ∧ l.meets k = true)
    {j : Nat} {l : Value} (hl : e.keys[j]? = some l) :
    ∃ (i : Nat) (k : Value), d.keys[i]? = some k ∧ l.meets k = true := by
  have place : ∀ i : Fin d.keys.size, ∃ j : Fin e.keys.size,
      e.keys[j].meets d.keys[i] = true := by
    intro i
    obtain ⟨j, l, hl, meet⟩ := each i d.keys[i] (Array.getElem?_eq_getElem i.isLt)
    obtain ⟨inside, rfl⟩ := Array.getElem?_eq_some_iff.mp hl
    exact ⟨⟨j, inside⟩, meet⟩
  choose f hf using place
  have injective : Function.Injective f := by
    intro i i' same
    have meet := Value.meets_trans (Value.meets_symm (hf i)) (same ▸ hf i')
    exact Fin.ext (s.place_unique (Array.getElem?_eq_getElem i.isLt)
      (Array.getElem?_eq_getElem i'.isLt) meet)
  obtain ⟨inside, rfl⟩ := Array.getElem?_eq_some_iff.mp hl
  obtain ⟨i, same⟩ :=
    (Finite.injective_iff_surjective_of_equiv (finCongr size)).mp injective ⟨j, inside⟩
  refine ⟨i, d.keys[i], Array.getElem?_eq_getElem i.isLt, ?_⟩
  have meet := hf i
  rw [same] at meet
  exact meet

end Dictionary

namespace Heap

variable {h : Heap}

/-! ## The greatest bisimulation -/

theorem rel_imp {R S : Value → Value → Prop} (weaker : ∀ a b, R a b → S a b) :
    ∀ {x y : Option Value}, Option.Rel R x y → Option.Rel S x y
  | _, _, .some related => .some (weaker _ _ related)
  | _, _, .none => .none

theorem Agree.mono {R S : Value → Value → Prop} (weaker : ∀ a b, R a b → S a b) {a b : Value}
    (agree : h.Agree R a b) : h.Agree S a b := by
  cases agree with
  | whole ha hb => exact .whole ha hb
  | real whole hx hy same => exact .real whole hx hy same
  | string s => exact .string s
  | none => exact .none
  | gap => exact .gap
  | array size parts => exact .array size fun i v w hv hw => weaker v w (parts i v w hv hw)
  | dict size parts =>
    refine .dict size fun k v mem => ?_
    obtain ⟨w, found, hvw⟩ := parts k v mem
    exact ⟨w, found, weaker v w hvw⟩
  | record type parts => exact .record type fun f mem => weaker _ _ (parts f mem)
  | object type parts => exact .object type fun name => rel_imp weaker (parts name)
  | subroutine same scope this => exact .subroutine same scope this
  | recordType r => exact .recordType r
  | classType r => exact .classType r
  | builtin same => exact .builtin same
  | library r => exact .library r
  | module m n s => exact .module m n s

theorem isBisimulation_equal (h : Heap) : h.IsBisimulation fun a b => h.equal a b = true := by
  intro a b same
  obtain ⟨R, hR, hab⟩ := equal_iff_bisimilar.mp same
  exact (hR a b hab).imp_right (.mono fun x y hxy => equal_iff_bisimilar.mpr ⟨R, hR, hxy⟩)

/-! ## Symmetry -/

theorem rel_swap {R : Value → Value → Prop} :
    ∀ {x y : Option Value}, Option.Rel R x y → Option.Rel (fun a b => R b a) y x
  | _, _, .some related => .some related
  | _, _, .none => .none

/-- What is alike is alike the other way round. -/
theorem Agree.swap (built : h.Built) {R : Value → Value → Prop} {a b : Value}
    (agree : h.Agree R a b) : h.Agree (fun x y => R y x) b a := by
  cases agree with
  | whole ha hb => exact .whole hb ha
  | real whole hx hy same => exact .real whole.symm hy hx (beq_real_symm same)
  | string s => exact .string s
  | none => exact .none
  | gap => exact .gap
  | array size parts => exact .array size.symm fun i v w hv hw => parts i w v hw hv
  | @dict d e size parts =>
    have sd := (built.dict d).sound
    have se := (built.dict e).sound
    refine .dict size.symm fun l w mem => ?_
    obtain ⟨j, hl, hw⟩ := Dictionary.mem_toList_iff.mp mem
    have value : ∀ (i : Nat) (k : Value), (h.dict d).keys[i]? = some k →
        ∃ v, (h.dict d).values[i]? = some v := fun i k hk =>
      ⟨_, Array.getElem?_eq_getElem (sd.even ▸ (Array.getElem?_eq_some_iff.mp hk).1)⟩
    obtain ⟨i, k, hk, meet⟩ := Dictionary.exists_meets sd
      (by rwa [Dictionary.keys, Dictionary.keys, Slots.size_toArray, Slots.size_toArray])
      (fun i k hk => by
        obtain ⟨v, hv⟩ := value i k hk
        obtain ⟨u, found, -⟩ := parts k v (Dictionary.mem_toList_iff.mpr ⟨i, hk, hv⟩)
        obtain ⟨p, m, hm, -, meet⟩ := (Dictionary.get?_eq_some_iff se).mp found
        exact ⟨p, m, hm, meet⟩) hl
    obtain ⟨v, hv⟩ := value i k hk
    obtain ⟨u, found, hvu⟩ := parts k v (Dictionary.mem_toList_iff.mpr ⟨i, hk, hv⟩)
    -- The key of the second dictionary finds what its counterpart in the first does.
    have self := Value.meets_trans meet (Value.meets_symm meet)
    have found' := (Dictionary.get?_eq_some_iff se).mpr ⟨j, l, hl, hw, self⟩
    rw [Dictionary.get?_congr meet, found] at found'
    cases found'
    exact ⟨v, (Dictionary.get?_eq_some_iff sd).mpr ⟨i, k, hk, hv, Value.meets_symm meet⟩, hvu⟩
  | record type parts => exact .record type.symm fun f mem => parts f (type ▸ mem)
  | object type parts => exact .object type.symm fun name => rel_swap (parts name)
  | subroutine same scope this =>
    exact .subroutine ⟨same.1.symm, same.2.symm⟩ scope.symm this.symm
  | recordType r => exact .recordType r
  | classType r => exact .classType r
  | builtin same => exact .builtin same.symm
  | library r => exact .library r
  | module m n s => exact .module n m s

theorem sameCell_symm {a b : Value} (same : SameCell a b) : SameCell b a := by
  obtain ⟨c, ha, hb⟩ := same
  exact ⟨c, hb, ha⟩

theorem equal_swap (built : h.Built) {a b : Value} (same : h.equal a b = true) :
    h.equal b a = true := by
  refine equal_iff_bisimilar.mpr ⟨fun x y => h.equal y x = true, fun x y hxy => ?_, same⟩
  exact (h.isBisimulation_equal y x hxy).imp sameCell_symm (.swap built)

/-! ## Values without reals -/

/-- What equality looks at when it compares a value that has parts.  It looks up the keys of
dictionaries but does not compare them. -/
inductive Part (h : Heap) : Value → Value → Prop
  | element {r : ArrayRef} {i : Nat} {v : Value} : (h.array r)[i]? = some v → Part h (.array r) v
  | entry {d : DictRef} {i : Nat} {v : Value} : (h.dict d).values[i]? = some v → Part h (.dict d) v
  | field {r : RecordRef} {f : String} : f ∈ (h.recordType (h.record r).type).fields →
      Part h (.record r) (h.field r f)
  | property {o : ObjectRef} {name : String} {v : Value} : h.dataProperty? o name = some v →
      Part h (.object o) v

/-- No real is reached from the value. -/
def RealFree (h : Heap) (a : Value) : Prop :=
  ∀ x, Relation.ReflTransGen h.Part a x → ∀ r, x ≠ .real r

namespace RealFree

variable {a b : Value}

theorem part (free : h.RealFree a) (part : h.Part a b) : h.RealFree b :=
  fun x reach => free x (reach.head part)

theorem isNaN (free : h.RealFree a) : a.isNaN = false := by
  cases a with
  | real r => exact absurd rfl (free _ .refl r)
  | _ => rfl

/-- A number is a whole one. -/
theorem integral? (free : h.RealFree a) {x : Float} (number : a.number? = some x) :
    a.integral? ≠ none := by
  cases a with
  | real r => exact absurd rfl (free _ .refl r)
  | int n => exact nofun
  | bool b => exact nofun
  | _ => cases number

end RealFree

theorem equal_self {a : Value} (number : a.isNaN = false) : h.equal a a = true :=
  equal_iff_bisimilar.mpr ⟨fun x y => x = y ∧ x.isNaN = false,
    fun _ _ ⟨same, number⟩ => same ▸ self_or_agree number, rfl, number⟩

/-! ## Transitivity -/

section Transitivity

variable {R S : Value → Value → Prop} {a b c : Value}

theorem rel_comp {x y z : Option Value} (first : Option.Rel R x y) (second : Option.Rel S y z) :
    Option.Rel (fun u w => ∃ v, R u v ∧ S v w) x z := by
  cases first with
  | none => cases second; exact .none
  | some huv =>
    cases second with
    | some hvw => exact .some ⟨_, huv, hvw⟩

/-- The parts of values that are alike may be restricted to a property that all parts have. -/
theorem Agree.restrict (built : h.Built) {P : Value → Prop} (agree : h.Agree R a b)
    (left : ∀ x, h.Part a x → P x) (right : ∀ y, h.Part b y → P y) :
    h.Agree (fun x y => R x y ∧ P x ∧ P y) a b := by
  cases agree with
  | whole ha hb => exact .whole ha hb
  | real whole hx hy same => exact .real whole hx hy same
  | string s => exact .string s
  | none => exact .none
  | gap => exact .gap
  | array size parts =>
    exact .array size fun i v w hv hw =>
      ⟨parts i v w hv hw, left v (.element hv), right w (.element hw)⟩
  | @dict d e size parts =>
    refine .dict size fun k v mem => ?_
    obtain ⟨i, -, hv⟩ := Dictionary.mem_toList_iff.mp mem
    obtain ⟨w, found, hvw⟩ := parts k v mem
    obtain ⟨j, -, -, hw, -⟩ := (Dictionary.get?_eq_some_iff (built.dict e).sound).mp found
    exact ⟨w, found, hvw, left v (.entry hv), right w (.entry hw)⟩
  | record type parts =>
    exact .record type fun f mem =>
      ⟨parts f mem, left _ (.field mem), right _ (.field (type ▸ mem))⟩
  | @object o p type parts =>
    refine .object type fun name => ?_
    have related := parts name
    cases hv : h.dataProperty? o name with
    | none =>
      cases hw : h.dataProperty? p name with
      | none => exact .none
      | some w => rw [hv, hw] at related; cases related
    | some v =>
      cases hw : h.dataProperty? p name with
      | none => rw [hv, hw] at related; cases related
      | some w =>
        rw [hv, hw] at related
        cases related with
        | some hvw => exact .some ⟨hvw, left v (.property hv), right w (.property hw)⟩
  | subroutine same scope this => exact .subroutine same scope this
  | recordType r => exact .recordType r
  | classType r => exact .classType r
  | builtin same => exact .builtin same
  | library r => exact .library r
  | module m n s => exact .module m n s

/-- What is alike to a whole number is the same one, if it is no real. -/
theorem Agree.integral? (agree : h.Agree R a b) {n : Int} (hb : b.integral? = some n)
    (free : h.RealFree a) : a.integral? = some n := by
  cases agree with
  | whole ha hb' => rwa [← hb, hb']
  | real whole hx _ _ =>
    rcases whole with ha | hb'
    · exact absurd ha (free.integral? hx)
    · rw [hb] at hb'
      cases hb'
  | _ => cases hb

/-- What is alike to something that is alike to a third is alike to the third. -/
theorem Agree.comp (built : h.Built) (free : h.RealFree a) (free' : h.RealFree b)
    (free'' : h.RealFree c) (first : h.Agree R a b) (second : h.Agree S b c) :
    h.Agree (fun x z => ∃ y, R x y ∧ S y z) a c := by
  cases second with
  | whole hb hc => exact .whole (first.integral? hb free) hc
  | real whole hb hc _ =>
    rcases whole with none | none
    · exact absurd none (free'.integral? hb)
    · exact absurd none (free''.integral? hc)
  | string s =>
    cases first with
    | string => exact .string s
    | whole _ h | real _ _ h => cases h
  | none =>
    cases first with
    | none => exact .none
    | whole _ h | real _ _ h => cases h
  | gap =>
    cases first with
    | gap => exact .gap
    | whole _ h | real _ _ h => cases h
  | array size' parts' =>
    cases first with
    | array size parts =>
      refine .array (size.trans size') fun i x z hx hz => ?_
      have inside := size ▸ (Array.getElem?_eq_some_iff.mp hx).1
      have hy := Array.getElem?_eq_getElem inside
      exact ⟨_, parts i x _ hx hy, parts' i _ z hy hz⟩
    | whole _ h | real _ _ h => cases h
  | @dict e f size' parts' =>
    cases first with
    | dict size parts =>
      refine .dict (size.trans size') fun k x mem => ?_
      obtain ⟨y, found, hxy⟩ := parts k x mem
      obtain ⟨j, l, hl, hy, meet⟩ := (Dictionary.get?_eq_some_iff (built.dict e).sound).mp found
      obtain ⟨z, found', hyz⟩ := parts' l y (Dictionary.mem_toList_iff.mpr ⟨j, hl, hy⟩)
      rw [Dictionary.get?_congr meet] at found'
      exact ⟨z, found', y, hxy, hyz⟩
    | whole _ h | real _ _ h => cases h
  | record type' parts' =>
    cases first with
    | record type parts =>
      exact .record (type.trans type') fun f mem => ⟨_, parts f mem, parts' f (type ▸ mem)⟩
    | whole _ h | real _ _ h => cases h
  | object type' parts' =>
    cases first with
    | object type parts =>
      exact .object (type.trans type') fun name => rel_comp (parts name) (parts' name)
    | whole _ h | real _ _ h => cases h
  | subroutine same' scope' this' =>
    cases first with
    | subroutine same scope this =>
      exact .subroutine ⟨same.1.trans same'.1, same.2.trans same'.2⟩ (scope.trans scope')
        (this.trans this')
    | whole _ h | real _ _ h => cases h
  | recordType r =>
    cases first with
    | recordType => exact .recordType r
    | whole _ h | real _ _ h => cases h
  | classType r =>
    cases first with
    | classType => exact .classType r
    | whole _ h | real _ _ h => cases h
  | builtin same' =>
    cases first with
    | builtin same => exact .builtin (same.trans same')
    | whole _ h | real _ _ h => cases h
  | library r =>
    cases first with
    | library => exact .library r
    | whole _ h | real _ _ h => cases h
  | module m n s =>
    cases first with
    | module l => exact .module l n s
    | whole _ h | real _ _ h => cases h

end Transitivity

/-- A value with parts that is the same cell as another one is the same value. -/
theorem SameCell.eq {a b : Value} (same : SameCell a b) : a = b := by
  obtain ⟨c, ha, hb⟩ := same
  cases a <;> cases ha <;> cases b <;> cases hb <;> rfl

/-- Equality of values from which no real is reached. -/
private def EqualFree (h : Heap) (a b : Value) : Prop :=
  h.equal a b = true ∧ h.RealFree a ∧ h.RealFree b

private theorem EqualFree.step (built : h.Built) {a b : Value} (same : h.EqualFree a b) :
    SameCell a b ∨ h.Agree h.EqualFree a b := by
  obtain ⟨same, ha, hb⟩ := same
  exact (h.isBisimulation_equal a b same).imp_right fun agree =>
    agree.restrict built (fun _ => ha.part) (fun _ => hb.part)

private theorem EqualFree.self {a : Value} (free : h.RealFree a) : h.EqualFree a a :=
  ⟨equal_self free.isNaN, free, free⟩

/-- Equality after equality is a bisimulation between values without reals. -/
theorem isBisimulation_comp (built : h.Built) :
    h.IsBisimulation fun a c => ∃ b, h.EqualFree a b ∧ h.EqualFree b c := by
  rintro a c ⟨b, first, second⟩
  rcases first.step built with same | agree
  · cases same.eq
    exact (second.step built).imp_right (.mono fun v w hvw => ⟨v, .self hvw.2.1, hvw⟩)
  · rcases second.step built with same | agree'
    · cases same.eq
      exact .inr (agree.mono fun v w hvw => ⟨w, hvw, .self hvw.2.2⟩)
    · exact .inr (agree.comp built first.2.1 first.2.2 second.2.2 agree')

theorem equal_trans (built : h.Built) {a b c : Value} (ha : h.RealFree a) (hb : h.RealFree b)
    (hc : h.RealFree c) (first : h.equal a b = true) (second : h.equal b c = true) :
    h.equal a c = true :=
  equal_iff_bisimilar.mpr ⟨_, isBisimulation_comp built, b, ⟨first, ha, hb⟩, second, hb, hc⟩

/-! ## Keys -/

/-- Values without parts are compared by themselves. -/
theorem equal_leaves {a b : Value} (ha : a.cell? = none) (hb : b.cell? = none) :
    h.equal a b = equalLeaves a b := by
  rw [equal, compareTo, ha, hb]
  cases equalLeaves a b <;> rfl

/-- Keys that are no reals are equal if they have the same form. -/
theorem equal_atoms (h : Heap) (s s' : Atom) :
    h.equal s.value s'.value = true ↔
      ∃ n, s.value.keyForm = .found n ∧ s'.value.keyForm = .found n := by
  rw [equal_leaves (by cases s <;> rfl) (by cases s' <;> rfl)]
  cases s <;> cases s' <;>
    simp [Atom.value, Value.keyForm, equalLeaves, equalNumbers, Value.integral?, Value.number?]
  all_goals exact eq_comm

/-! ## The laws -/

/-- Equality is symmetric in a heap whose dictionaries were built by their operations.  It is
reflexive and transitive where no real is reached.  Keys that are no reals are equal if and only
if they have the same form as keys. -/
theorem equal_symmetric_and_equivalence {h : Heap} (built : h.Built) :
    (∀ a b, h.equal a b = h.equal b a) ∧
      (∀ a, h.RealFree a → h.equal a a = true) ∧
      (∀ a b c, h.RealFree a → h.RealFree b → h.RealFree c →
        h.equal a b = true → h.equal b c = true → h.equal a c = true) ∧
      ∀ s s' : Atom, h.equal s.value s'.value = true ↔
        ∃ n, s.value.keyForm = .found n ∧ s'.value.keyForm = .found n :=
  ⟨fun _ _ => Bool.eq_iff_iff.mpr ⟨equal_swap built, equal_swap built⟩,
    fun _ free => equal_self free.isNaN,
    fun _ _ _ ha hb hc => equal_trans built ha hb hc,
    h.equal_atoms⟩

/-- Two arrays that hold each other and one that holds itself are equal, and two dictionaries that
hold them compare alike either way round. -/
theorem equal_symmetric_and_equivalence_cyclic :
    ∃ h : Heap, h.Built ∧ (h.array ⟨0⟩).toList = [.array ⟨1⟩] ∧
      (h.array ⟨1⟩).toList = [.array ⟨0⟩] ∧ (h.array ⟨2⟩).toList = [.array ⟨2⟩] ∧
      (∀ r, h.RealFree (.array r)) ∧ h.equal (.array ⟨0⟩) (.array ⟨0⟩) = true ∧
      h.equal (.array ⟨0⟩) (.array ⟨2⟩) = true ∧ (h.dict ⟨0⟩).values.toList = [.array ⟨0⟩] ∧
      (h.dict ⟨1⟩).values.toList = [.array ⟨2⟩] ∧
      h.equal (.dict ⟨0⟩) (.dict ⟨1⟩) = h.equal (.dict ⟨1⟩) (.dict ⟨0⟩) ∧
      h.equal (.int 1) (.bool true) = true := by
  let d := Dictionary.empty.insert (.int 1) (.array ⟨0⟩)
  let e := Dictionary.empty.insert (.bool true) (.array ⟨2⟩)
  let h : Heap :=
    (((((Heap.empty.newArray #[.array ⟨1⟩]).2.newArray #[.array ⟨0⟩]).2.newArray
      #[.array ⟨2⟩]).2.newDict d).2.newDict e).2
  have built : h.Built := by
    intro f mem
    obtain rfl | rfl : f = d ∨ f = e := by simpa [h, newDict, newArray, Heap.empty] using mem
    · exact .insert_of_key .empty (by decide) _
    · exact .insert_of_key .empty (by decide) _
  have arrays : ∀ r, ∀ v ∈ (h.array r).toList, ∃ q, v = .array q := by
    rintro ⟨_ | _ | _ | i⟩ v mem
    · exact ⟨⟨1⟩, List.mem_singleton.mp mem⟩
    · exact ⟨⟨0⟩, List.mem_singleton.mp mem⟩
    · exact ⟨⟨2⟩, List.mem_singleton.mp mem⟩
    · cases mem
  have free : ∀ r, h.RealFree (.array r) := by
    intro r x reach
    have array : ∃ q, x = .array q := by
      induction reach with
      | refl => exact ⟨r, rfl⟩
      | tail _ part ih =>
        obtain ⟨q, rfl⟩ := ih
        cases part with
        | element there => exact arrays q _ (Array.mem_toList_iff.mpr (Array.mem_of_getElem? there))
    obtain ⟨q, rfl⟩ := array
    intro y same
    cases same
  obtain ⟨symmetric, reflexive, transitive, keys⟩ := equal_symmetric_and_equivalence built
  refine ⟨h, built, rfl, rfl, rfl, free, reflexive _ (free _),
    transitive _ (.array ⟨1⟩) _ (free _) (free _) (free _) (by decide) (by decide),
    ?_, ?_, symmetric _ _, (keys (.int 1) (.bool true)).mpr ⟨.int 1, rfl, rfl⟩⟩
  · simp [h, d, dict, newDict, newArray, Heap.empty, Dictionary.insert, Value.keyForm,
      Dictionary.empty, Dictionary.push]
  · simp [h, e, dict, newDict, newArray, Heap.empty, Dictionary.insert, Value.keyForm,
      Dictionary.empty, Dictionary.push]

end Heap

end Pseudocode
