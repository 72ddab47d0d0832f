import Pseudocode.Run.Index
/-
# `Proofs.Ownership.Extent` — values that name only what exists

A reference to an array or a dictionary is an index into a store that grows at
its end.  A reference beyond the end would come to name whatever is allocated
there next, so every argument about new cells needs that there is none:
`Value.Within e` says it of a value, `Heap.Closed e` of every value of a heap,
those that stand in unused slots and in blocks that became too small included.
A builtin function carries the container it belongs to, or the interpreter it
calls back into; these count as well.

Closedness is kept by every operation on the heap, and what is read from a closed
heap is within it.
-/
namespace Pseudocode

/-! ## Extents -/

/-- How many arrays, dictionaries and interpreters there are. -/
structure Extent where
  arrays : Nat
  dicts : Nat
  interpreters : Nat

namespace Extent

/-- There is at least as much of each kind. -/
structure Le (e e' : Extent) : Prop where
  arrays : e.arrays ≤ e'.arrays
  dicts : e.dicts ≤ e'.dicts
  interpreters : e.interpreters ≤ e'.interpreters

instance : LE Extent := ⟨Le⟩

theorem le_refl (e : Extent) : e ≤ e := ⟨Nat.le_refl _, Nat.le_refl _, Nat.le_refl _⟩

theorem le_trans {e f g : Extent} (h : e ≤ f) (k : f ≤ g) : e ≤ g :=
  ⟨Nat.le_trans h.arrays k.arrays, Nat.le_trans h.dicts k.dicts,
    Nat.le_trans h.interpreters k.interpreters⟩

end Extent

/-- How much of each kind there is in a heap, next to `n` interpreters. -/
def Heap.extent (h : Heap) (n : Nat) : Extent := ⟨h.arrays.size, h.dicts.size, n⟩

/-- The container or the interpreter that a builtin function carries exists. -/
def Native.Within (e : Extent) : Native → Prop
  | .arrayAppend a | .arrayPop a | .arrayInsert a | .arrayLength a => a.index < e.arrays
  | .dictKeys d | .dictValues d | .dictHas d | .dictRemove d | .dictLength d => d.index < e.dicts
  | .input home | .toText home | .probe _ home _ => home.index < e.interpreters
  | _ => True

/-- What a value refers to exists. -/
def Value.Within (e : Extent) : Value → Prop
  | .array a => a.index < e.arrays
  | .dict d => d.index < e.dicts
  | .builtin b => b.action.Within e
  | _ => True

theorem Native.Within.mono {e e' : Extent} (he : e ≤ e') {a : Native} (h : a.Within e) :
    a.Within e' := by
  have ha := he.arrays
  have hd := he.dicts
  have hi := he.interpreters
  cases a <;> simp only [Native.Within] at h ⊢ <;> omega

theorem Value.Within.mono {e e' : Extent} (he : e ≤ e') {v : Value} (h : v.Within e) :
    v.Within e' := by
  have ha := he.arrays
  have hd := he.dicts
  cases v with
  | array a => exact Nat.lt_of_lt_of_le h ha
  | dict d => exact Nat.lt_of_lt_of_le h hd
  | builtin b => exact Native.Within.mono he h
  | _ => trivial

/-- A key refers to nothing. -/
theorem Value.within_of_hashable {e : Extent} {v : Value} (h : v.keyForm ≠ .unhashable) :
    v.Within e := by
  cases v <;> simp_all [Value.keyForm, Value.Within]

theorem Value.within_getD {e : Extent} {o : Option Value} (h : ∀ v, o = some v → v.Within e) :
    (o.getD .none).Within e := by
  cases o with
  | none => trivial
  | some v => exact h v rfl

/-! ## Every value of a cell -/

section Cells

variable {α : Type} {P Q : Value → Prop}

theorem forall_mem_modify {a : Array α} {R : α → Prop} (h : ∀ x ∈ a, R x) {i : Nat} {f : α → α}
    (hf : ∀ x ∈ a, R (f x)) : ∀ x ∈ a.modify i f, R x := by
  intro x hx
  obtain ⟨j, hj⟩ := Array.mem_iff_getElem?.mp hx
  rw [Array.getElem?_modify] at hj
  split at hj
  · obtain ⟨y, hy, rfl⟩ := Option.map_eq_some_iff.mp hj
    exact hf y (Array.mem_of_getElem? hy)
  · exact h x (Array.mem_of_getElem? hj)

theorem forall_mem_push {a : Array α} {R : α → Prop} (h : ∀ x ∈ a, R x) {y : α} (hy : R y) :
    ∀ x ∈ a.push y, R x := by
  intro x hx
  rcases Array.mem_push.mp hx with hx | rfl
  · exact h x hx
  · exact hy

theorem getD_of_forall {a : Array α} {R : α → Prop} (h : ∀ x ∈ a, R x) {i : Nat} {d : α}
    (hd : R d) : R (a.getD i d) := by
  rw [Array.getD_eq_getD_getElem?]
  cases hi : a[i]? with
  | none => exact hd
  | some x => exact h x (Array.mem_of_getElem? hi)

theorem mem_of_mem_extract {a : Array α} {x : α} {i j : Nat} (h : x ∈ a.extract i j) : x ∈ a := by
  obtain ⟨k, hk⟩ := Array.mem_iff_getElem?.mp h
  rw [Array.getElem?_extract] at hk
  split at hk
  · exact Array.mem_of_getElem? hk
  · cases hk

/-- Every value that a table holds. -/
def Table.All (P : Value → Prop) (t : Table Value) : Prop := ∀ e ∈ t, P e.2

theorem Table.All.nil : Table.All P [] := fun _ he => nomatch he

theorem Table.All.mono (h : ∀ v, P v → Q v) {t : Table Value} (ht : t.All P) : t.All Q :=
  fun e he => h e.2 (ht e he)

theorem Table.All.get? {t : Table Value} (ht : t.All P) {name : String} {v : Value}
    (hv : t.get? name = some v) : P v := by
  induction t with
  | nil => cases hv
  | cons e rest ih =>
      simp only [Table.get?] at hv
      split at hv
      · cases hv
        exact ht e List.mem_cons_self
      · exact ih (fun x hx => ht x (List.mem_cons_of_mem e hx)) hv

theorem Table.All.put {t : Table Value} (ht : t.All P) {name : String} {v : Value} (hv : P v) :
    (t.put name v).All P := by
  induction t with
  | nil => simpa [Table.put, Table.All] using hv
  | cons e rest ih =>
      obtain ⟨h1, h2⟩ := List.forall_mem_cons.mp ht
      simp only [Table.put]
      split
      · exact List.forall_mem_cons.mpr ⟨hv, h2⟩
      · exact List.forall_mem_cons.mpr ⟨h1, ih h2⟩

/-- Every value in a block of slots or in one of the blocks before it. -/
structure Slots.All (P : Value → Prop) (s : Slots) : Prop where
  block : ∀ v ∈ s.block, P v
  former : ∀ b ∈ s.former, ∀ v ∈ b, P v

namespace Slots.All

variable {s : Slots}

theorem mono (h : ∀ v, P v → Q v) (hs : s.All P) : s.All Q :=
  ⟨fun v hv => h v (hs.block v hv), fun b hb v hv => h v (hs.former b hb v hv)⟩

theorem within {xs : Array Value} (h : ∀ v ∈ xs, P v) {room : Nat} (hr : xs.size ≤ room) :
    (Slots.within xs room hr).All P := by
  refine ⟨h, fun b hb => ?_⟩
  simp [Slots.within] at hb

theorem get? (hs : s.All P) {i : Nat} {v : Value} (hv : s.get? i = some v) : P v := by
  simp only [Slots.get?] at hv
  split at hv
  · exact hs.block v (Array.mem_of_getElem? hv)
  · cases hv

theorem seen? (hs : s.All P) {w : Slots.View} {i : Nat} {v : Value} (hv : s.seen? w i = some v) :
    P v := by
  simp only [Slots.seen?] at hv
  split at hv
  · exact hs.block v (Array.mem_of_getElem? hv)
  · obtain ⟨b, hb, hv⟩ := Option.bind_eq_some_iff.mp hv
    exact hs.former b (Array.mem_of_getElem? hb) v (Array.mem_of_getElem? hv)

theorem toArray (hs : s.All P) : ∀ v ∈ s.toArray, P v := by
  intro v hv
  obtain ⟨i, hi⟩ := Array.mem_iff_getElem?.mp hv
  exact hs.get? ((s.getElem?_toArray i).symm.trans hi)

theorem set (hs : s.All P) {i : Nat} {v : Value} (hv : P v) : (s.set i v).All P := by
  simp only [Slots.set]
  split
  · refine ⟨fun x hx => ?_, hs.former⟩
    rcases Array.mem_or_eq_of_mem_setIfInBounds hx with hx | rfl
    · exact hs.block x hx
    · exact hv
  · exact hs

theorem moved (hs : s.All P) : s.moved.All P :=
  ⟨hs.block, forall_mem_push hs.former hs.block⟩

theorem pushWithin (hs : s.All P) {v : Value} (hv : P v) (h : s.size < s.room) :
    (s.pushWithin v h).All P := by
  simp only [Slots.pushWithin]
  split
  next hb =>
    refine ⟨fun x hx => ?_, hs.former⟩
    rcases Array.mem_or_eq_of_mem_set (w := hb) hx with hx | rfl
    · exact hs.block x hx
    · exact hv
  next => exact ⟨forall_mem_push hs.block hv, hs.former⟩

theorem push (hs : s.All P) {v : Value} (hv : P v) : (s.push v).All P := by
  simp only [Slots.push]
  split
  · exact hs.pushWithin hv _
  · exact hs.moved.pushWithin hv _

theorem erase (hs : s.All P) {p : Nat} : (s.erase p).All P := by
  simp only [Slots.erase]
  split
  · refine ⟨fun v hv => ?_, hs.former⟩
    simp only [forward] at hv
    split at hv
    · exact hs.block v hv
    · simp only [Array.mem_append] at hv
      rcases hv with (hv | hv) | hv <;> exact hs.block v (mem_of_mem_extract hv)
  · exact hs

theorem openGap (hs : s.All P) (hn : P .gap) {p : Nat} : (s.openGap p).All P := by
  have ht := hs.push hn
  simp only [Slots.openGap]
  split
  · refine ⟨fun v hv => ?_, ht.former⟩
    simp only [backward, Array.mem_append] at hv
    rcases hv with (hv | hv) | hv <;> exact ht.block v (mem_of_mem_extract hv)
  · exact ht

end Slots.All

/-- Every value of a dictionary, whose keys are keys. -/
structure Dictionary.All (P : Value → Prop) (d : Dictionary) : Prop where
  keys : d.slots.All fun k => k.keyForm ≠ .unhashable
  values : ∀ v ∈ d.values, P v

namespace Dictionary.All

variable {d : Dictionary}

theorem mono (h : ∀ v, P v → Q v) (hd : d.All P) : d.All Q :=
  ⟨hd.keys, fun v hv => h v (hd.values v hv)⟩

theorem empty : Dictionary.empty.All P :=
  ⟨Slots.All.within (by simp) _, by simp [Dictionary.empty]⟩

theorem get? (hd : d.All P) {key v : Value} (hv : d.get? key = some v) : P v := by
  obtain ⟨i, -, hi⟩ := Option.bind_eq_some_iff.mp hv
  exact hd.values v (Array.mem_of_getElem? hi)

theorem push (hd : d.All P) {key v : Value} (hk : key.keyForm ≠ .unhashable) (hv : P v) :
    (d.push key v).All P :=
  ⟨hd.keys.push hk, forall_mem_push hd.values hv⟩

theorem insert (hd : d.All P) {key v : Value} (hv : P v) : (d.insert key v).All P := by
  simp only [Dictionary.insert]
  split
  next k hk =>
    split
    · refine ⟨hd.keys, fun x hx => ?_⟩
      rcases Array.mem_or_eq_of_mem_setIfInBounds hx with hx | rfl
      · exact hd.values x hx
      · exact hv
    · have hkey : key.keyForm ≠ .unhashable := by simp [hk]
      exact ⟨(hd.push hkey hv).keys, (hd.push hkey hv).values⟩
  next hk => exact hd.push (by simp [hk]) hv
  next => exact hd

theorem insert? (hd : d.All P) {key v : Value} (hv : P v) {d' : Dictionary}
    (h : d.insert? key v = some d') : d'.All P := by
  simp only [Dictionary.insert?, Option.ite_none_left_eq_some, Option.some.injEq] at h
  exact h.2 ▸ hd.insert hv

/-- An entry whose key is no key is left out. -/
theorem getD_insert? (hd : d.All P) {k v : Value} (hv : P v) :
    ((d.insert? k v).getD d).All P := by
  cases hins : d.insert? k v with
  | none => exact hd
  | some d' => exact hd.insert? hv hins

theorem erase? (hd : d.All P) {key : Value} {d' : Dictionary} (h : d.erase? key = some d') :
    d'.All P := by
  simp only [Dictionary.erase?] at h
  split at h
  · split at h
    · cases h
      refine ⟨hd.keys.erase, fun v hv => hd.values v ?_⟩
      simp only [Array.eraseIdxIfInBounds] at hv
      split at hv
      · exact Array.mem_of_mem_eraseIdx hv
      · exact hv
    · cases h
  · cases h

theorem withValues (hd : d.All P) {vs : Array Value} (h : ∀ v ∈ vs, Q v) :
    (d.withValues vs).All Q :=
  ⟨Slots.All.within hd.keys.toArray _, h⟩

end Dictionary.All

end Cells

/-! ## Closed heaps -/

namespace Heap

/-- Every value of the heap refers to what exists. -/
structure Closed (e : Extent) (h : Heap) : Prop where
  arrays : ∀ s ∈ h.arrays, s.All (Value.Within e)
  dicts : ∀ d ∈ h.dicts, d.All (Value.Within e)
  records : ∀ r ∈ h.records, r.fields.All (Value.Within e)
  classes : ∀ c ∈ h.classes, c.props.All (Value.Within e)
  objects : ∀ o ∈ h.objects, o.props.All (Value.Within e)
  libraries : ∀ l ∈ h.libraries, l.members.All (Value.Within e)
  scopes : ∀ s ∈ h.scopes, s.bindings.All (Value.Within e)

namespace Closed

variable {e e' : Extent} {h : Heap}

theorem empty : Heap.empty.Closed e := by
  constructor <;> simp [Heap.empty]

theorem mono (hh : h.Closed e) (he : e ≤ e') : h.Closed e' where
  arrays s hs := (hh.arrays s hs).mono fun _ hv => hv.mono he
  dicts d hd := (hh.dicts d hd).mono fun _ hv => hv.mono he
  records r hr := (hh.records r hr).mono fun _ hv => hv.mono he
  classes c hc := (hh.classes c hc).mono fun _ hv => hv.mono he
  objects o ho := (hh.objects o ho).mono fun _ hv => hv.mono he
  libraries l hl := (hh.libraries l hl).mono fun _ hv => hv.mono he
  scopes s hs := (hh.scopes s hs).mono fun _ hv => hv.mono he

/-! ### Reading -/

theorem slots (hh : h.Closed e) (r : ArrayRef) : (h.slots r).All (Value.Within e) :=
  getD_of_forall hh.arrays (Slots.All.within (by simp) _)

theorem dict (hh : h.Closed e) (r : DictRef) : (h.dict r).All (Value.Within e) :=
  getD_of_forall hh.dicts Dictionary.All.empty

theorem record (hh : h.Closed e) (r : RecordRef) : (h.record r).fields.All (Value.Within e) :=
  getD_of_forall hh.records (R := fun r : Record => r.fields.All _) Table.All.nil

theorem classType (hh : h.Closed e) (r : ClassRef) : (h.classType r).props.All (Value.Within e) :=
  getD_of_forall hh.classes (R := fun c : Class => c.props.All _) Table.All.nil

theorem object (hh : h.Closed e) (r : ObjectRef) : (h.object r).props.All (Value.Within e) :=
  getD_of_forall hh.objects (R := fun o : Object => o.props.All _) Table.All.nil

theorem library (hh : h.Closed e) (r : LibraryRef) :
    (h.library r).members.All (Value.Within e) :=
  getD_of_forall hh.libraries (R := fun l : Library => l.members.All _) Table.All.nil

theorem scope (hh : h.Closed e) (r : ScopeRef) : (h.scope r).bindings.All (Value.Within e) :=
  getD_of_forall hh.scopes (R := fun s : Scope => s.bindings.All _) Table.All.nil

theorem array (hh : h.Closed e) (r : ArrayRef) : ∀ v ∈ h.array r, v.Within e :=
  (hh.slots r).toArray

theorem keys (hh : h.Closed e) (r : DictRef) : ∀ k ∈ (h.dict r).keys, k.Within e :=
  fun _ hk => Value.within_of_hashable ((hh.dict r).keys.toArray _ hk)

theorem findTo (hh : h.Closed e) {name : String} :
    ∀ {n : Nat} {s s' : ScopeRef} {v : Value}, h.findTo name n s = some (s', v) → v.Within e
  | 0, _, _, _, hf => nomatch hf
  | n + 1, s, s', v, hf => by
      simp only [Heap.findTo] at hf
      split at hf
      next w hw =>
        cases hf
        exact (hh.scope s).get? hw
      next =>
        obtain ⟨p, -, hp⟩ := Option.bind_eq_some_iff.mp hf
        exact hh.findTo hp

theorem lookup? (hh : h.Closed e) {s : ScopeRef} {name : String} {v : Value}
    (hv : h.lookup? s name = some v) : v.Within e := by
  obtain ⟨⟨s', w⟩, hf, rfl⟩ := Option.map_eq_some_iff.mp hv
  exact hh.findTo hf

theorem storedProperty? (hh : h.Closed e) {v p : Value} {name : String}
    (hp : h.storedProperty? v name = some p) : p.Within e := by
  cases v with
  | object r => exact (hh.object r).get? hp
  | classType r => exact (hh.classType r).get? hp
  | record r => exact (hh.record r).get? hp
  | module m s => exact hh.lookup? hp
  | library r => exact (hh.library r).get? hp
  | _ => cases hp

theorem item (hh : h.Closed e) {v key x : Value} (hx : h.item v key = .ok x) : x.Within e := by
  cases v with
  | array r =>
      simp only [Heap.item] at hx
      cases hp : position (h.typeName key) key (h.slots r).size "array" with
      | error t => rw [hp] at hx; cases hx
      | ok p =>
          rw [hp] at hx
          cases hx
          exact Value.within_getD fun _ => (hh.slots r).get?
  | string s =>
      simp only [Heap.item] at hx
      cases hp : position (h.typeName key) key s.toList.length "string" with
      | error t => rw [hp] at hx; cases hx
      | ok p =>
          rw [hp] at hx
          cases hx
          trivial
  | dict r =>
      simp only [Heap.item] at hx
      split at hx
      · cases hx
      · cases hg : (h.dict r).get? key with
        | none => rw [hg] at hx; cases hx
        | some w =>
            rw [hg] at hx
            cases hx
            exact (hh.dict r).get? hg
  | _ => cases hx

/-! ### Allocating -/

theorem newArray (hh : h.Closed e) {xs : Array Value} (hx : ∀ v ∈ xs, v.Within e) :
    (h.newArray xs).2.Closed e :=
  { hh with arrays := forall_mem_push hh.arrays (Slots.All.within hx _) }

theorem newDict (hh : h.Closed e) {d : Dictionary} (hd : d.All (Value.Within e)) :
    (h.newDict d).2.Closed e :=
  { hh with dicts := forall_mem_push hh.dicts hd }

theorem newRecordType (hh : h.Closed e) (t : RecordType) : (h.newRecordType t).2.Closed e :=
  ⟨hh.arrays, hh.dicts, hh.records, hh.classes, hh.objects, hh.libraries, hh.scopes⟩

theorem newRecord (hh : h.Closed e) {r : Record} (hr : r.fields.All (Value.Within e)) :
    (h.newRecord r).2.Closed e :=
  { hh with records := forall_mem_push hh.records hr }

theorem newClass (hh : h.Closed e) {c : Class} (hc : c.props.All (Value.Within e)) :
    (h.newClass c).2.Closed e :=
  { hh with classes := forall_mem_push hh.classes hc }

theorem newObject (hh : h.Closed e) {o : Object} (ho : o.props.All (Value.Within e)) :
    (h.newObject o).2.Closed e :=
  { hh with objects := forall_mem_push hh.objects ho }

theorem newLibrary (hh : h.Closed e) {l : Library} (hl : l.members.All (Value.Within e)) :
    (h.newLibrary l).2.Closed e :=
  { hh with libraries := forall_mem_push hh.libraries hl }

theorem newScope (hh : h.Closed e) {s : Scope} (hs : s.bindings.All (Value.Within e)) :
    (h.newScope s).2.Closed e :=
  { hh with scopes := forall_mem_push hh.scopes hs }

/-! ### Changing in place -/

theorem modifyArray (hh : h.Closed e) (r : ArrayRef) {f : Slots → Slots}
    (hf : ∀ s : Slots, s.All (Value.Within e) → (f s).All (Value.Within e)) :
    (h.modifyArray r f).Closed e :=
  { hh with arrays := forall_mem_modify hh.arrays fun s hs => hf s (hh.arrays s hs) }

theorem modifyDict (hh : h.Closed e) (r : DictRef) {f : Dictionary → Dictionary}
    (hf : ∀ d : Dictionary, d.All (Value.Within e) → (f d).All (Value.Within e)) :
    (h.modifyDict r f).Closed e :=
  { hh with dicts := forall_mem_modify hh.dicts fun d hd => hf d (hh.dicts d hd) }

theorem modifyRecord (hh : h.Closed e) (r : RecordRef) {f : Record → Record}
    (hf : ∀ q : Record, q.fields.All (Value.Within e) → (f q).fields.All (Value.Within e)) :
    (h.modifyRecord r f).Closed e :=
  { hh with records := forall_mem_modify hh.records fun q hq => hf q (hh.records q hq) }

theorem modifyClass (hh : h.Closed e) (r : ClassRef) {f : Class → Class}
    (hf : ∀ c : Class, c.props.All (Value.Within e) → (f c).props.All (Value.Within e)) :
    (h.modifyClass r f).Closed e :=
  { hh with classes := forall_mem_modify hh.classes fun c hc => hf c (hh.classes c hc) }

theorem modifyObject (hh : h.Closed e) (r : ObjectRef) {f : Object → Object}
    (hf : ∀ o : Object, o.props.All (Value.Within e) → (f o).props.All (Value.Within e)) :
    (h.modifyObject r f).Closed e :=
  { hh with objects := forall_mem_modify hh.objects fun o ho => hf o (hh.objects o ho) }

theorem modifyScope (hh : h.Closed e) (r : ScopeRef) {f : Scope → Scope}
    (hf : ∀ s : Scope, s.bindings.All (Value.Within e) → (f s).bindings.All (Value.Within e)) :
    (h.modifyScope r f).Closed e :=
  { hh with scopes := forall_mem_modify hh.scopes fun s hs => hf s (hh.scopes s hs) }

end Closed

end Heap

end Pseudocode
