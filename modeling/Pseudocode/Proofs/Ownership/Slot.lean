import Mathlib.Tactic.ByContra
import Pseudocode.Proofs.Ownership.Extent
/-
# `Proofs.Ownership.Slot` — where containers are held

A slot is a binding of a scope, a property of a class or of an instance, a field
of a record, or a position of a container.  Positions count only in containers
that are themselves held in a slot (`Heap.IsSlot`): an array that is no longer, or
not yet, stored anywhere may well share its elements with others.

`Heap.Unshared` is the property that the language promises: no two slots hold the
same container.  The rest of the module says what the operations of the heap do
to the contents of slots, one lemma for each of them.
-/
namespace Pseudocode

/-- An array or a dictionary. -/
inductive Container where
  | array (r : ArrayRef)
  | dict (r : DictRef)
deriving DecidableEq

/-- The container that a value is. -/
def Value.container? : Value → Option Container
  | .array r => some (.array r)
  | .dict r => some (.dict r)
  | _ => Option.none

theorem Value.eq_array_of_container? {v : Value} {r : ArrayRef}
    (h : v.container? = some (.array r)) : v = .array r := by
  cases v with
  | array q => cases h; rfl
  | _ => cases h

/-- A place that may hold a value. -/
inductive Slot where
  | binding (s : ScopeRef) (name : String)
  | static (c : ClassRef) (name : String)
  | property (o : ObjectRef) (name : String)
  | field (r : RecordRef) (name : String)
  | item (c : Container) (i : Nat)
deriving DecidableEq

/-- The container that a slot is a position of. -/
def Slot.host : Slot → Option Container
  | item c _ => some c
  | _ => none

theorem Slot.host_eq_some {p : Slot} {c : Container} : p.host = some c ↔ ∃ i, p = .item c i := by
  cases p <;> simp [Slot.host, eq_comm]

/-- The container exists. -/
def Container.In (h : Heap) : Container → Prop
  | array r => r.index < h.arrays.size
  | dict r => r.index < h.dicts.size

/-- Which containers there are depends on the sizes of their stores only. -/
theorem Container.in_congr {h h' : Heap} (ha : h'.arrays.size = h.arrays.size)
    (hd : h'.dicts.size = h.dicts.size) {c : Container} : c.In h' ↔ c.In h := by
  cases c <;> simp only [Container.In, ha, hd]

namespace Heap

/-- What stands in a slot. -/
def content? (h : Heap) : Slot → Option Value
  | .binding s name => (h.scope s).bindings.get? name
  | .static c name => (h.classType c).props.get? name
  | .property o name => (h.object o).props.get? name
  | .field r name => (h.record r).fields.get? name
  | .item (.array a) i => (h.slots a).get? i
  | .item (.dict d) i => (h.dict d).values[i]?

/-- The container that a slot holds. -/
def held? (h : Heap) (p : Slot) : Option Container := (h.content? p).bind Value.container?

/-- A container that is stored: by a name, a property or a field, or within another
one that is. -/
inductive Stored (h : Heap) : Container → Prop
  | root {p : Slot} {c : Container} : p.host = none → h.held? p = some c → Stored h c
  | item {c d : Container} {i : Nat} : Stored h c → h.held? (.item c i) = some d → Stored h d

theorem held?_eq_some {h : Heap} {p : Slot} {c : Container} :
    h.held? p = some c ↔ ∃ v, h.content? p = some v ∧ v.container? = some c :=
  Option.bind_eq_some_iff

theorem held?_congr {h h' : Heap} {p q : Slot} (hc : h'.content? p = h.content? q) :
    h'.held? p = h.held? q := by
  simp only [held?, hc]

/-- What holds something exists. -/
theorem isIn_of_held? {h : Heap} {c d : Container} {i : Nat} (hd : h.held? (.item c i) = some d) :
    c.In h := by
  obtain ⟨v, hv, -⟩ := held?_eq_some.mp hd
  by_contra hc
  match c with
  | .array r =>
      have : h.arrays[r.index]? = none := Array.getElem?_eq_none (Nat.not_lt.mp hc)
      simp [content?, slots, this, Slots.get?, Slots.empty, Slots.ofArray, Slots.within] at hv
  | .dict r =>
      have : h.dicts[r.index]? = none := Array.getElem?_eq_none (Nat.not_lt.mp hc)
      simp [content?, dict, this, Dictionary.empty] at hv

end Heap

/-- A container that a value within a heap is exists in it. -/
theorem Value.Within.container {h : Heap} {n : Nat} {v : Value} (hv : v.Within (h.extent n))
    {c : Container} (hc : v.container? = some c) : c.In h := by
  cases v <;> cases hc <;> exact hv

namespace Heap

/-- What stands in the slots of a closed heap is within it. -/
theorem Closed.content? {h : Heap} {e : Extent} (hh : h.Closed e) {p : Slot} {v : Value}
    (hv : h.content? p = some v) : v.Within e := by
  match p with
  | .binding s _ => exact (hh.scope s).get? hv
  | .static c _ => exact (hh.classType c).get? hv
  | .property o _ => exact (hh.object o).get? hv
  | .field r _ => exact (hh.record r).get? hv
  | .item (.array a) _ => exact (hh.slots a).get? hv
  | .item (.dict d) _ => exact (hh.dict d).values v (Array.mem_of_getElem? hv)

theorem Closed.held? {h : Heap} {n : Nat} (hh : h.Closed (h.extent n)) {p : Slot} {c : Container}
    (hc : h.held? p = some c) : c.In h := by
  obtain ⟨v, hv, hc⟩ := held?_eq_some.mp hc
  exact (hh.content? hv).container hc

/-! ## New containers -/

/-- The second heap is the first with one more container. -/
structure Adds (h : Heap) (c : Container) (xs : Array Value) (h' : Heap) : Prop where
  notIn : ¬ c.In h
  isIn : ∀ d : Container, d.In h' ↔ d.In h ∨ d = c
  new : ∀ i, h'.content? (.item c i) = xs[i]?
  old : ∀ p : Slot, p.host ≠ some c → h'.content? p = h.content? p
  count : h'.containers = h.containers + 1

theorem getD_push {α : Type} (a : Array α) (x d : α) (i : Nat) :
    (a.push x).getD i d = if i = a.size then x else a.getD i d := by
  simp only [Array.getD_eq_getD_getElem?, Array.getElem?_push]
  split <;> simp

theorem adds_newArray (h : Heap) (xs : Array Value) :
    h.Adds (.array ⟨h.arrays.size⟩) xs (h.newArray xs).2 where
  notIn := Nat.lt_irrefl _
  isIn d := by
    match d with
    | .array ⟨i⟩ => simp only [Container.In, newArray, Array.size_push, Container.array.injEq,
        ArrayRef.mk.injEq]; omega
    | .dict ⟨i⟩ => simp [Container.In, newArray]
  new i := by
    simp only [content?, slots, newArray, getD_push, ↓reduceIte, ← Slots.getElem?_toArray,
      Slots.toArray_ofArray]
  old p hp := by
    match p with
    | .item (.array ⟨j⟩) i =>
        have hj : j ≠ h.arrays.size := by rintro rfl; exact hp rfl
        simp only [content?, slots, newArray, getD_push, hj, ↓reduceIte]
    | .item (.dict d) i => rfl
    | .binding _ _ | .static _ _ | .property _ _ | .field _ _ => rfl
  count := by simp only [containers, newArray, Array.size_push]; omega

theorem adds_newDict (h : Heap) (d : Dictionary) :
    h.Adds (.dict ⟨h.dicts.size⟩) d.values (h.newDict d).2 where
  notIn := Nat.lt_irrefl _
  isIn d := by
    match d with
    | .array ⟨i⟩ => simp [Container.In, newDict]
    | .dict ⟨i⟩ => simp only [Container.In, newDict, Array.size_push, Container.dict.injEq,
        DictRef.mk.injEq]; omega
  new i := by simp only [content?, dict, newDict, getD_push, ↓reduceIte]
  old p hp := by
    match p with
    | .item (.array a) i => rfl
    | .item (.dict ⟨j⟩) i =>
        have hj : j ≠ h.dicts.size := by rintro rfl; exact hp rfl
        simp only [content?, dict, newDict, getD_push, hj, ↓reduceIte]
    | .binding _ _ | .static _ _ | .property _ _ | .field _ _ => rfl
  count := by simp only [containers, newDict, Array.size_push]; omega

/-! ## Writing to a slot -/

/-- The second heap is the first with a value written to one slot.  Nothing
happens when the slot is not there. -/
structure Writes (h : Heap) (p : Slot) (v : Value) (h' : Heap) : Prop where
  arrays : h'.arrays.size = h.arrays.size
  dicts : h'.dicts.size = h.dicts.size
  other : ∀ q, q ≠ p → h'.content? q = h.content? q
  self : ∀ x, h'.content? p = some x → x = v

theorem getD_modify {α : Type} (a : Array α) (f : α → α) (d : α) (i j : Nat) :
    (a.modify i f).getD j d = if i = j ∧ i < a.size then f (a.getD j d) else a.getD j d := by
  simp only [Array.getD_eq_getD_getElem?, Array.getElem?_modify]
  by_cases hij : i = j
  · subst hij
    by_cases hi : i < a.size
    · simp [hi]
    · simp [hi]
  · simp [hij]

/-- A change of one entry of a table, as seen by the look-up. -/
theorem get?_put (t : Table Value) (name other : String) (v : Value) :
    (t.put name v).get? other = if name = other then some v else t.get? other := by
  split
  next h => subst h; exact t.get?_put_self name v
  next h => exact t.get?_put_of_ne v h

section Tables

variable {κ : Type} (a : Array κ) (table : κ → Table Value) {f : κ → κ} {d : κ}
  {name other : String} {v : Value} {i j : Nat}

/-- Changing an entry of the table of one cell leaves the other entries. -/
theorem get?_modify_other (hf : ∀ x, table (f x) = (table x).put name v)
    (hn : ¬ (i = j ∧ name = other)) :
    (table ((a.modify i f).getD j d)).get? other = (table (a.getD j d)).get? other := by
  rw [getD_modify]
  split
  next hj =>
    have : name ≠ other := fun h => hn ⟨hj.1, h⟩
    simp only [hf, get?_put, this, ↓reduceIte]
  next => rfl

/-- Changing an entry of the table of one cell leaves the new value there, unless
there is no such cell. -/
theorem get?_modify_self (hf : ∀ x, table (f x) = (table x).put name v) (hd : table d = [])
    {x : Value} (hx : (table ((a.modify i f).getD i d)).get? name = some x) : x = v := by
  rw [getD_modify] at hx
  split at hx
  next =>
    rw [hf, get?_put, if_pos rfl] at hx
    exact (Option.some.inj hx).symm
  next hi =>
    have : a[i]? = none := Array.getElem?_eq_none (by omega)
    rw [Array.getD_eq_getD_getElem?, this, Option.getD_none, hd] at hx
    cases hx

end Tables

theorem writes_bind (h : Heap) (s : ScopeRef) (name : String) (v : Value) (constant : Bool) :
    h.Writes (.binding s name) v (h.bind s name v constant) where
  arrays := rfl
  dicts := rfl
  other q hq := by
    match q with
    | .binding ⟨j⟩ other =>
        refine get?_modify_other h.scopes Scope.bindings (fun _ => rfl) ?_
        rintro ⟨rfl, rfl⟩
        exact hq rfl
    | .static _ _ | .property _ _ | .field _ _ | .item (.array _) _ | .item (.dict _) _ => rfl
  self _ hx := get?_modify_self h.scopes Scope.bindings (fun _ => rfl) rfl hx

theorem writes_static (h : Heap) (r : ClassRef) (name : String) (v : Value) :
    h.Writes (.static r name) v
      (h.modifyClass r fun c => { c with props := c.props.put name v }) where
  arrays := rfl
  dicts := rfl
  other q hq := by
    match q with
    | .static ⟨j⟩ other =>
        refine get?_modify_other h.classes Class.props (fun _ => rfl) ?_
        rintro ⟨rfl, rfl⟩
        exact hq rfl
    | .binding _ _ | .property _ _ | .field _ _ | .item (.array _) _ | .item (.dict _) _ => rfl
  self _ hx := get?_modify_self h.classes Class.props (fun _ => rfl) rfl hx

theorem writes_property (h : Heap) (r : ObjectRef) (name : String) (v : Value) :
    h.Writes (.property r name) v
      (h.modifyObject r fun o => { o with props := o.props.put name v }) where
  arrays := rfl
  dicts := rfl
  other q hq := by
    match q with
    | .property ⟨j⟩ other =>
        refine get?_modify_other h.objects Object.props (fun _ => rfl) ?_
        rintro ⟨rfl, rfl⟩
        exact hq rfl
    | .binding _ _ | .static _ _ | .field _ _ | .item (.array _) _ | .item (.dict _) _ => rfl
  self _ hx := get?_modify_self h.objects Object.props (fun _ => rfl) rfl hx

theorem writes_field (h : Heap) (r : RecordRef) (name : String) (v : Value) :
    h.Writes (.field r name) v
      (h.modifyRecord r fun q => { q with fields := q.fields.put name v }) where
  arrays := rfl
  dicts := rfl
  other q hq := by
    match q with
    | .field ⟨j⟩ other =>
        refine get?_modify_other h.records Record.fields (fun _ => rfl) ?_
        rintro ⟨rfl, rfl⟩
        exact hq rfl
    | .binding _ _ | .static _ _ | .property _ _ | .item (.array _) _ | .item (.dict _) _ => rfl
  self _ hx := get?_modify_self h.records Record.fields (fun _ => rfl) rfl hx

end Heap

/-! ## Positions of containers -/

namespace Dictionary

/-- Where an insertion puts its value: under the key if it is there, and else at the
end. -/
def place (d : Dictionary) (key : Value) : Nat := (d.position? key).getD d.values.size

/-- An insertion changes the one place. -/
theorem getElem?_insert_of_ne (d : Dictionary) {key v : Value} {j : Nat} (hj : d.place key ≠ j) :
    (d.insert key v).values[j]? = d.values[j]? := by
  simp only [place, position?] at hj
  simp only [insert]
  split
  next k hk =>
    simp only [hk] at hj
    split
    next i hi =>
      simp only [hi, Option.getD_some] at hj
      exact Array.getElem?_setIfInBounds_ne hj
    next hi =>
      simp only [hi, Option.getD_none] at hj
      simp only [push, Array.getElem?_push, hj.symm, ↓reduceIte]
  next hk =>
    simp only [hk, Option.getD_none] at hj
    simp only [push, Array.getElem?_push, hj.symm, ↓reduceIte]
  next => rfl

/-- What stands at that place afterwards is the value that was inserted. -/
theorem getElem?_insert_place (d : Dictionary) {key v x : Value} (hk : key.keyForm ≠ .unhashable)
    (hx : (d.insert key v).values[d.place key]? = some x) : x = v := by
  simp only [place, position?] at hx
  simp only [insert] at hx
  split at hx
  next k hk =>
    simp only [hk] at hx
    split at hx
    next i hi =>
      simp only [hi, Option.getD_some, Array.getElem?_setIfInBounds_self,
        Option.ite_none_right_eq_some, Option.some.injEq] at hx
      exact hx.2.symm
    next hi =>
      simp only [hi, Option.getD_none, push, Array.getElem?_push, ↓reduceIte] at hx
      exact (Option.some.inj hx).symm
  next hk =>
    simp only [hk, Option.getD_none, push, Array.getElem?_push, ↓reduceIte] at hx
    exact (Option.some.inj hx).symm
  next hk' => exact absurd hk' hk

end Dictionary

namespace Heap

/-- A change of the elements of one array, as seen in all slots. -/
theorem content?_modifyArray (h : Heap) (r : ArrayRef) (f : Slots → Slots) (p : Slot)
    (hp : p.host ≠ some (.array r)) : (h.modifyArray r f).content? p = h.content? p := by
  match p with
  | .item (.array ⟨j⟩) i =>
      have hj : ¬ r.index = j := by rintro rfl; exact hp rfl
      simp only [content?, slots, modifyArray, getD_modify, hj, false_and, ↓reduceIte]
  | .item (.dict _) _ | .binding _ _ | .static _ _ | .property _ _ | .field _ _ => rfl

theorem slots_modifyArray (h : Heap) (r : ArrayRef) (f : Slots → Slots) (hr : r.index < h.arrays.size) :
    (h.modifyArray r f).slots r = f (h.slots r) := by
  simp only [slots, modifyArray, getD_modify, hr, and_self, ↓reduceIte]

/-- A change of one dictionary, as seen in all slots. -/
theorem content?_modifyDict (h : Heap) (r : DictRef) (f : Dictionary → Dictionary) (p : Slot)
    (hp : p.host ≠ some (.dict r)) : (h.modifyDict r f).content? p = h.content? p := by
  match p with
  | .item (.dict ⟨j⟩) i =>
      have hj : ¬ r.index = j := by rintro rfl; exact hp rfl
      simp only [content?, dict, modifyDict, getD_modify, hj, false_and, ↓reduceIte]
  | .item (.array _) _ | .binding _ _ | .static _ _ | .property _ _ | .field _ _ => rfl

theorem dict_modifyDict (h : Heap) (r : DictRef) (f : Dictionary → Dictionary)
    (hr : r.index < h.dicts.size) : (h.modifyDict r f).dict r = f (h.dict r) := by
  simp only [dict, modifyDict, getD_modify, hr, and_self, ↓reduceIte]

theorem writes_set (h : Heap) (r : ArrayRef) (hr : r.index < h.arrays.size) (i : Nat) (v : Value) :
    h.Writes (.item (.array r) i) v (h.modifyArray r (·.set i v)) where
  arrays := by simp only [modifyArray, Array.size_modify]
  dicts := rfl
  other q hq := by
    by_cases hj : q.host = some (.array r)
    · obtain ⟨j, rfl⟩ := Slot.host_eq_some.mp hj
      have hij : ¬ i = j := by rintro rfl; exact hq rfl
      simp only [content?, slots_modifyArray h r _ hr, Slots.get?_set, hij, false_and, ↓reduceIte]
    · exact h.content?_modifyArray r _ q hj
  self x hx := by
    simp only [content?, slots_modifyArray h r _ hr, Slots.get?_set, true_and] at hx
    split at hx
    next => exact (Option.some.inj hx).symm
    next hi => simp [Slots.get?, hi] at hx

theorem writes_push (h : Heap) (r : ArrayRef) (hr : r.index < h.arrays.size) (v : Value) :
    h.Writes (.item (.array r) (h.slots r).size) v (h.modifyArray r (·.push v)) where
  arrays := by simp only [modifyArray, Array.size_modify]
  dicts := rfl
  other q hq := by
    by_cases hj : q.host = some (.array r)
    · obtain ⟨j, rfl⟩ := Slot.host_eq_some.mp hj
      have hij : ¬ j = (h.slots r).size := by rintro rfl; exact hq rfl
      simp only [content?, slots_modifyArray h r _ hr, ← Slots.getElem?_toArray, Slots.toArray_push,
        Array.getElem?_push, Slots.size_toArray, hij, ↓reduceIte]
    · exact h.content?_modifyArray r _ q hj
  self x hx := by
    simp only [content?, slots_modifyArray h r _ hr, ← Slots.getElem?_toArray, Slots.toArray_push,
      Array.getElem?_push, Slots.size_toArray, ↓reduceIte] at hx
    exact (Option.some.inj hx).symm

theorem writes_insert (h : Heap) (r : DictRef) (hr : r.index < h.dicts.size) {key v : Value}
    (hk : key.keyForm ≠ .unhashable) :
    h.Writes (.item (.dict r) ((h.dict r).place key)) v (h.modifyDict r (·.insert key v)) where
  arrays := rfl
  dicts := by simp only [modifyDict, Array.size_modify]
  other q hq := by
    by_cases hj : q.host = some (.dict r)
    · obtain ⟨j, rfl⟩ := Slot.host_eq_some.mp hj
      have hij : (h.dict r).place key ≠ j := by rintro rfl; exact hq rfl
      simp only [content?, dict_modifyDict h r _ hr, (h.dict r).getElem?_insert_of_ne hij]
    · exact h.content?_modifyDict r _ q hj
  self x hx := by
    simp only [content?, dict_modifyDict h r _ hr] at hx
    exact (h.dict r).getElem?_insert_place hk hx

end Heap

end Pseudocode
