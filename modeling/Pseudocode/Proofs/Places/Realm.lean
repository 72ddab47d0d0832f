import Pseudocode.Proofs.Ownership.Extent
import Pseudocode.Proofs.Places.Reading
import Pseudocode.Value.Plain
/-
# `Proofs.Places.Realm` — a part of the heap that nothing leads out of

An imported module runs in the heap of the program that imports it, but it comes by
nothing that was there before: its scopes, containers and subroutines are newer than
the import.  A `Realm` is such a part of the heap.  It says from where on the cells
belong to it (`Marks`), which values it may hold (`Holds`), and how its subroutines are
recast.

`Turns R h x y` is a judgement about two operations on heaps.  Started in a heap that is
tame, `x` leaves a tame heap and a value that the realm may hold, and writes to no cell
outside; and `y`, started in the heap that is recast, ends with the same, recast.
-/
namespace Pseudocode

/-! ## Stores -/

namespace Store

variable {α : Type} {m : Nat} {P : α → Prop} {a a' a'' : Array α}

/-- From an index on, the cells are of some kind. -/
structure Young (m : Nat) (P : α → Prop) (a : Array α) : Prop where
  size : m ≤ a.size
  cells : ∀ i x, m ≤ i → a[i]? = some x → P x

/-- Below an index the cells are what they were. -/
def Kept (m : Nat) (a a' : Array α) : Prop := ∀ i < m, a'[i]? = a[i]?

theorem Kept.refl (m : Nat) (a : Array α) : Kept m a a := fun _ _ => rfl

theorem Kept.trans (h : Kept m a a') (k : Kept m a' a'') : Kept m a a'' :=
  fun i hi => (k i hi).trans (h i hi)

theorem Kept.of_le {n : Nat} (le : n ≤ m) (h : Kept m a a') : Kept n a a' :=
  fun i hi => h i (Nat.lt_of_lt_of_le hi le)

theorem Young.mono {Q : α → Prop} (imp : ∀ x, P x → Q x) (h : Young m P a) : Young m Q a :=
  ⟨h.size, fun i x hi hx => imp x (h.cells i x hi hx)⟩

theorem Young.getD (h : Young m P a) {i : Nat} (hi : m ≤ i) {d : α} (hd : P d) :
    P (a.getD i d) := by
  rw [Array.getD_eq_getD_getElem?]
  cases hx : a[i]? with
  | none => exact hd
  | some x => exact h.cells i x hi hx

theorem Young.push (h : Young m P a) {x : α} (hx : P x) : Young m P (a.push x) := by
  refine ⟨Nat.le_trans h.size (by rw [Array.size_push]; omega), fun i y hi hy => ?_⟩
  rw [Array.getElem?_push] at hy
  split at hy
  · cases hy
    exact hx
  · exact h.cells i y hi hy

theorem Young.modify_cell (h : Young m P a) (i : Nat) {f : α → α}
    (hf : ∀ x, a[i]? = some x → P x → P (f x)) : Young m P (a.modify i f) := by
  refine ⟨by rw [Array.size_modify]; exact h.size, fun j y hj hy => ?_⟩
  rw [Array.getElem?_modify] at hy
  split at hy
  next same =>
    subst same
    obtain ⟨x, hx, rfl⟩ := Option.map_eq_some_iff.mp hy
    exact hf x hx (h.cells i x hj hx)
  next => exact h.cells j y hj hy

theorem Young.modify (h : Young m P a) (i : Nat) {f : α → α} (hf : ∀ x, P x → P (f x)) :
    Young m P (a.modify i f) := h.modify_cell i fun x _ => hf x

theorem kept_push (h : m ≤ a.size) (x : α) : Kept m a (a.push x) := by
  intro i hi
  rw [Array.getElem?_push, if_neg (by omega)]

theorem kept_modify {i : Nat} (hi : m ≤ i) (f : α → α) : Kept m a (a.modify i f) := by
  intro j hj
  rw [Array.getElem?_modify, if_neg (by omega)]

/-- What was kept below a mark and is new from another one on is of that kind altogether. -/
theorem Young.lower {n : Nat} (h : Young n P a) (le : n ≤ m) (k : Kept m a a')
    (new : Young m P a') : Young n P a' := by
  refine ⟨Nat.le_trans le new.size, fun i x hi hx => ?_⟩
  by_cases old : i < m
  · rw [k i old] at hx
    exact h.cells i x hi hx
  · exact new.cells i x (Nat.not_lt.mp old) hx

end Store

/-! ## Realms -/

/-- From where on cells, interpreters and source units belong to a realm, and the imports
that its interpreters are inside of. -/
structure Marks where
  arrays : Nat
  dicts : Nat
  records : Nat
  classes : Nat
  objects : Nat
  libraries : Nat
  scopes : Nat
  interpreters : Nat
  units : Nat
  importing : List String

def Owner.From (m : Marks) : Owner → Prop
  | .ofClass r => m.classes ≤ r.index
  | .ofObject r => m.objects ≤ r.index

/-- What a part of the heap may hold, and how its subroutines are recast. -/
structure Realm where
  marks : Marks
  recast : Recast
  /-- The number of interpreters. -/
  interpreters : Nat
  /-- The subroutines that may be defined, whatever they belong to. -/
  code : Subroutine → Prop
  bound : ∀ f owner, code f → code { f with this := owner }
  /-- Subroutines that were defined in different places are kept apart. -/
  apart : ∀ f g, code f → code g →
    ((recast.sub f).origin.unit = (recast.sub g).origin.unit ∧
        (recast.sub f).offset = (recast.sub g).offset ↔
      f.origin.unit = g.origin.unit ∧ f.offset = g.offset)

namespace Realm

/-- An interpreter that may be called back into. -/
def Home (R : Realm) (id : InterpreterId) : Prop :=
  R.marks.interpreters ≤ id.index ∧ id.index < R.interpreters

/-- What a builtin function carries belongs to the realm. -/
def Carries (R : Realm) : Native → Prop
  | .arrayAppend a | .arrayPop a | .arrayInsert a | .arrayLength a => R.marks.arrays ≤ a.index
  | .dictKeys d | .dictValues d | .dictHas d | .dictRemove d | .dictLength d =>
    R.marks.dicts ≤ d.index
  | .input home | .toText home | .probe _ home _ => R.Home home
  | _ => True

/-- A subroutine that belongs to the realm. -/
structure Defines (R : Realm) (f : Subroutine) : Prop where
  code : R.code f
  scope : R.marks.scopes ≤ f.scope.index
  this : ∀ owner, f.this = some owner → owner.From R.marks

/-- A value that the realm may hold. -/
def Holds (R : Realm) : Value → Prop
  | .array r => R.marks.arrays ≤ r.index
  | .dict r => R.marks.dicts ≤ r.index
  | .record r => R.marks.records ≤ r.index
  | .classType r => R.marks.classes ≤ r.index
  | .object r => R.marks.objects ≤ r.index
  | .library r => R.marks.libraries ≤ r.index
  | .module _ s => R.marks.scopes ≤ s.index
  | .builtin b => R.Carries b.action
  | .subroutine f => R.Defines f
  | _ => True

/-- What a scope holds, and where it leads. -/
structure Encloses (R : Realm) (s : Scope) : Prop where
  bindings : s.bindings.All R.Holds
  parent : ∀ p, s.parent = some p → R.marks.scopes ≤ p.index

/-- The cells that belong to the realm hold what it may hold. -/
structure Tame (R : Realm) (h : Heap) : Prop where
  arrays : Store.Young R.marks.arrays (Slots.All R.Holds) h.arrays
  dicts : Store.Young R.marks.dicts (Dictionary.All R.Holds) h.dicts
  records : Store.Young R.marks.records (fun r : Record => r.fields.All R.Holds) h.records
  classes : Store.Young R.marks.classes (fun c : Class => c.props.All R.Holds) h.classes
  objects : Store.Young R.marks.objects (fun o : Object => o.props.All R.Holds) h.objects
  libraries : Store.Young R.marks.libraries (fun l : Library => l.members.All R.Holds) h.libraries
  scopes : Store.Young R.marks.scopes R.Encloses h.scopes

end Realm

/-- The cells below the marks are what they were. -/
structure Marks.Kept (m : Marks) (h h' : Heap) : Prop where
  arrays : Store.Kept m.arrays h.arrays h'.arrays
  dicts : Store.Kept m.dicts h.dicts h'.dicts
  records : Store.Kept m.records h.records h'.records
  classes : Store.Kept m.classes h.classes h'.classes
  objects : Store.Kept m.objects h.objects h'.objects
  libraries : Store.Kept m.libraries h.libraries h'.libraries
  scopes : Store.Kept m.scopes h.scopes h'.scopes

namespace Marks.Kept

variable {m : Marks} {h h' h'' : Heap}

theorem refl (m : Marks) (h : Heap) : m.Kept h h :=
  ⟨.refl _ _, .refl _ _, .refl _ _, .refl _ _, .refl _ _, .refl _ _, .refl _ _⟩

theorem trans (k : m.Kept h h') (l : m.Kept h' h'') : m.Kept h h'' :=
  ⟨k.arrays.trans l.arrays, k.dicts.trans l.dicts, k.records.trans l.records,
    k.classes.trans l.classes, k.objects.trans l.objects, k.libraries.trans l.libraries,
    k.scopes.trans l.scopes⟩

end Marks.Kept

namespace Realm

variable {R R' : Realm} {h h' : Heap}

/-- There is more of the same in the second realm. -/
structure Grows (R R' : Realm) : Prop where
  marks : R'.marks = R.marks
  interpreters : R.interpreters ≤ R'.interpreters
  code : ∀ f, R.code f → R'.code f

theorem Grows.carries (g : R.Grows R') {a : Native} (ha : R.Carries a) : R'.Carries a := by
  have home : ∀ id, R.Home id → R'.Home id := fun id h =>
    ⟨g.marks ▸ h.1, Nat.lt_of_lt_of_le h.2 g.interpreters⟩
  cases a <;> first | exact trivial | exact home _ ha | (simp only [Carries, g.marks]; exact ha)

theorem Grows.holds (g : R.Grows R') {v : Value} (hv : R.Holds v) : R'.Holds v := by
  cases v with
  | builtin b => exact g.carries hv
  | subroutine f =>
    obtain ⟨code, scope, this⟩ := hv
    refine ⟨g.code f code, ?_, fun owner ho => ?_⟩
    · rw [g.marks]; exact scope
    · rw [g.marks]; exact this owner ho
  | none | gap => trivial
  | bool b => trivial
  | int n => trivial
  | real x => trivial
  | string s => trivial
  | recordType r => trivial
  | _ =>
    simp only [Holds] at hv ⊢
    rw [g.marks]
    exact hv

theorem Grows.tame (g : R.Grows R') (t : R.Tame h) : R'.Tame h := by
  have holds : ∀ v, R.Holds v → R'.Holds v := fun _ => g.holds
  constructor
  · rw [g.marks]; exact t.arrays.mono fun _ => Slots.All.mono holds
  · rw [g.marks]; exact t.dicts.mono fun _ => Dictionary.All.mono holds
  · rw [g.marks]; exact t.records.mono fun _ => Table.All.mono holds
  · rw [g.marks]; exact t.classes.mono fun _ => Table.All.mono holds
  · rw [g.marks]; exact t.objects.mono fun _ => Table.All.mono holds
  · rw [g.marks]; exact t.libraries.mono fun _ => Table.All.mono holds
  · rw [g.marks]
    refine t.scopes.mono fun s hs => ⟨hs.bindings.mono holds, fun p hp => ?_⟩
    rw [g.marks]
    exact hs.parent p hp

/-! ### What is read -/

/-- Numbers, strings, booleans and `None` belong to every realm. -/
theorem holds_of_hashable {v : Value} (hv : v.keyForm ≠ .unhashable) : R.Holds v := by
  cases v <;> trivial

theorem holds_ofOwner {o : Owner} (ho : o.From R.marks) : R.Holds (.ofOwner o) := by
  cases o <;> exact ho

theorem holds_getD {o : Option Value} (ho : ∀ v, o = some v → R.Holds v) :
    R.Holds (o.getD .none) := by
  cases o with
  | none => trivial
  | some v => exact ho v rfl

namespace Tame

theorem slots (t : R.Tame h) {r : ArrayRef} (hr : R.Holds (.array r)) : (h.slots r).All R.Holds :=
  t.arrays.getD hr (Slots.All.within (by simp) _)

theorem array (t : R.Tame h) {r : ArrayRef} (hr : R.Holds (.array r)) : ∀ v ∈ h.array r, R.Holds v :=
  (t.slots hr).toArray

theorem dict (t : R.Tame h) {r : DictRef} (hr : R.Holds (.dict r)) : (h.dict r).All R.Holds :=
  t.dicts.getD hr .empty

theorem keys (t : R.Tame h) {r : DictRef} (hr : R.Holds (.dict r)) : ∀ k ∈ (h.dict r).keys, R.Holds k :=
  fun _ hk => holds_of_hashable ((t.dict hr).keys.toArray _ hk)

theorem record (t : R.Tame h) {r : RecordRef} (hr : R.Holds (.record r)) :
    (h.record r).fields.All R.Holds :=
  t.records.getD hr Table.All.nil

theorem classType (t : R.Tame h) {r : ClassRef} (hr : R.Holds (.classType r)) :
    (h.classType r).props.All R.Holds :=
  t.classes.getD hr Table.All.nil

theorem object (t : R.Tame h) {r : ObjectRef} (hr : R.Holds (.object r)) :
    (h.object r).props.All R.Holds :=
  t.objects.getD hr Table.All.nil

theorem library (t : R.Tame h) {r : LibraryRef} (hr : R.Holds (.library r)) :
    (h.library r).members.All R.Holds :=
  t.libraries.getD hr Table.All.nil

theorem scope (t : R.Tame h) {s : ScopeRef} (hs : R.marks.scopes ≤ s.index) : R.Encloses (h.scope s) :=
  t.scopes.getD hs ⟨Table.All.nil, fun _ hp => by cases hp⟩

theorem findTo (t : R.Tame h) {name : String} {n : Nat} {s s' : ScopeRef} {v : Value}
    (hs : R.marks.scopes ≤ s.index) (found : h.findTo name n s = some (s', v)) :
    R.marks.scopes ≤ s'.index ∧ R.Holds v := by
  induction n generalizing s with
  | zero => cases found
  | succ n ih =>
    simp only [Heap.findTo] at found
    split at found
    next w hw =>
      cases found
      exact ⟨hs, (t.scope hs).bindings.get? hw⟩
    next =>
      obtain ⟨p, hp, hf⟩ := Option.bind_eq_some_iff.mp found
      exact ih ((t.scope hs).parent p hp) hf

theorem lookup? (t : R.Tame h) {s : ScopeRef} (hs : R.marks.scopes ≤ s.index) {name : String}
    {v : Value} (found : h.lookup? s name = some v) : R.Holds v := by
  obtain ⟨⟨s', w⟩, hf, rfl⟩ := Option.map_eq_some_iff.mp found
  exact (t.findTo hs hf).2

theorem storedProperty? (t : R.Tame h) {v p : Value} (hv : R.Holds v) {name : String}
    (found : h.storedProperty? v name = some p) : R.Holds p := by
  cases v with
  | object r => exact (t.object hv).get? found
  | classType r => exact (t.classType hv).get? found
  | record r => exact (t.record hv).get? found
  | module m s => exact t.lookup? hv found
  | library r => exact (t.library hv).get? found
  | _ => cases found

theorem item (t : R.Tame h) {v key x : Value} (hv : R.Holds v) (found : h.item v key = .ok x) :
    R.Holds x := by
  cases v with
  | array r =>
    simp only [Heap.item] at found
    cases hp : position (h.typeName key) key (h.slots r).size "array" with
    | error e => rw [hp] at found; cases found
    | ok p =>
      rw [hp] at found
      cases found
      exact holds_getD fun _ => (t.slots hv).get?
  | string s =>
    simp only [Heap.item] at found
    cases hp : position (h.typeName key) key s.toList.length "string" with
    | error e => rw [hp] at found; cases found
    | ok p =>
      rw [hp] at found
      cases found
      trivial
  | dict r =>
    simp only [Heap.item] at found
    split at found
    · cases found
    · cases hg : (h.dict r).get? key with
      | none => rw [hg] at found; cases found
      | some w =>
        rw [hg] at found
        cases found
        exact (t.dict hv).get? hg
  | _ => cases found

theorem displayMethod? (t : R.Tame h) {v m : Value} (hv : R.Holds v) {name : String}
    (found : Run.displayMethod? h v name = some m) : R.Holds m := by
  cases v with
  | object r => exact (t.object hv).get? found
  | classType r => exact (t.classType hv).get? found
  | _ => cases found

theorem items? (t : R.Tame h) {v : Value} (hv : R.Holds v) {vs : List Value}
    (found : Run.items? h v = some vs) : ∀ x ∈ vs, R.Holds x := by
  cases v with
  | array r =>
    cases found
    exact fun x hx => t.array hv x (Array.mem_toList_iff.mp hx)
  | dict r =>
    cases found
    exact fun x hx => t.keys hv x (Array.mem_toList_iff.mp hx)
  | string s =>
    cases found
    intro x hx
    obtain ⟨c, -, rfl⟩ := List.mem_map.mp hx
    trivial
  | _ => cases found

/-! ### What is written -/

theorem newArray (t : R.Tame h) {xs : Array Value} (hx : ∀ v ∈ xs, R.Holds v) : R.Tame (h.newArray xs).2 :=
  { t with arrays := t.arrays.push (Slots.All.within hx _) }

theorem newDict (t : R.Tame h) {d : Dictionary} (hd : d.All R.Holds) : R.Tame (h.newDict d).2 :=
  { t with dicts := t.dicts.push hd }

theorem newRecordType (t : R.Tame h) (type : RecordType) : R.Tame (h.newRecordType type).2 :=
  ⟨t.arrays, t.dicts, t.records, t.classes, t.objects, t.libraries, t.scopes⟩

theorem newRecord (t : R.Tame h) {r : Record} (hr : r.fields.All R.Holds) : R.Tame (h.newRecord r).2 :=
  { t with records := t.records.push hr }

theorem newClass (t : R.Tame h) {c : Class} (hc : c.props.All R.Holds) : R.Tame (h.newClass c).2 :=
  { t with classes := t.classes.push hc }

theorem newObject (t : R.Tame h) {o : Object} (ho : o.props.All R.Holds) : R.Tame (h.newObject o).2 :=
  { t with objects := t.objects.push ho }

theorem newLibrary (t : R.Tame h) {l : Library} (hl : l.members.All R.Holds) : R.Tame (h.newLibrary l).2 :=
  { t with libraries := t.libraries.push hl }

theorem newScope (t : R.Tame h) {s : Scope} (hs : R.Encloses s) : R.Tame (h.newScope s).2 :=
  { t with scopes := t.scopes.push hs }

theorem modifyArray (t : R.Tame h) (r : ArrayRef) {f : Slots → Slots} (hf : ∀ s : Slots, s.All R.Holds → (f s).All R.Holds) :
    R.Tame (h.modifyArray r f) :=
  { t with arrays := t.arrays.modify r.index hf }

theorem modifyDict (t : R.Tame h) (r : DictRef) {f : Dictionary → Dictionary}
    (hf : ∀ d : Dictionary, d.All R.Holds → (f d).All R.Holds) : R.Tame (h.modifyDict r f) :=
  { t with dicts := t.dicts.modify r.index hf }

theorem modifyRecord (t : R.Tame h) (r : RecordRef) {f : Record → Record}
    (hf : ∀ q : Record, q.fields.All R.Holds → (f q).fields.All R.Holds) : R.Tame (h.modifyRecord r f) :=
  { t with records := t.records.modify r.index hf }

theorem modifyClass (t : R.Tame h) (r : ClassRef) {f : Class → Class}
    (hf : ∀ c : Class, c.props.All R.Holds → (f c).props.All R.Holds) : R.Tame (h.modifyClass r f) :=
  { t with classes := t.classes.modify r.index hf }

theorem modifyObject (t : R.Tame h) (r : ObjectRef) {f : Object → Object}
    (hf : ∀ o : Object, o.props.All R.Holds → (f o).props.All R.Holds) : R.Tame (h.modifyObject r f) :=
  { t with objects := t.objects.modify r.index hf }

theorem modifyScope (t : R.Tame h) (s : ScopeRef) {f : Scope → Scope}
    (hf : ∀ sc, R.Encloses sc → R.Encloses (f sc)) : R.Tame (h.modifyScope s f) :=
  { t with scopes := t.scopes.modify s.index hf }

theorem bind (t : R.Tame h) (s : ScopeRef) (name : String) {v : Value} (hv : R.Holds v)
    (constant : Bool) : R.Tame (h.bind s name v constant) :=
  t.modifyScope s fun _ hs => ⟨hs.bindings.put hv, hs.parent⟩

end Tame

end Realm

/-! ## What is carried along -/

/-- A trouble that is not about modules that import each other. -/
def Trouble.Common (t : Trouble) : Prop := t.code ≠ .circular

theorem Trouble.Common.of {t : Trouble} (h : (t.code == Code.circular) = false) : t.Common := by
  intro same
  rw [same] at h
  cases h

/-- Data that is recast along with the values in it. -/
class Carried (α : Type) where
  carry : Recast → α → α
  Good : Realm → α → Prop
  mono : ∀ {R R' : Realm} {a : α}, R.Grows R' → Good R a → Good R' a

namespace Carried

instance : Carried Value := ⟨Value.recast, Realm.Holds, fun g h => g.holds h⟩

instance : Carried Unit := ⟨fun _ a => a, fun _ _ => True, fun _ h => h⟩

instance : Carried Bool := ⟨fun _ a => a, fun _ _ => True, fun _ h => h⟩

instance : Carried Nat := ⟨fun _ a => a, fun _ _ => True, fun _ h => h⟩

instance : Carried Int := ⟨fun _ a => a, fun _ _ => True, fun _ h => h⟩

instance : Carried String := ⟨fun _ a => a, fun _ _ => True, fun _ h => h⟩

instance {α : Type} [Carried α] : Carried (List α) where
  carry ρ as := as.map (carry ρ)
  Good R as := ∀ a ∈ as, Good R a
  mono g h a ha := mono g (h a ha)

instance : Carried (Array Value) where
  carry ρ vs := vs.map (Value.recast ρ)
  Good R vs := ∀ v ∈ vs, R.Holds v
  mono g h v hv := g.holds (h v hv)

instance : Carried Dictionary where
  carry := Dictionary.recast
  Good R d := d.All R.Holds
  mono g h := h.mono fun _ => g.holds

instance : Carried (Table Value) where
  carry := Table.recast
  Good R t := t.All R.Holds
  mono g h := h.mono fun _ => g.holds

instance : Carried ScopeRef where
  carry _ s := s
  Good R s := R.marks.scopes ≤ s.index
  mono g h := by rw [g.marks]; exact h

instance : Carried ClassRef where
  carry _ c := c
  Good R c := R.marks.classes ≤ c.index
  mono g h := by rw [g.marks]; exact h

instance : Carried ObjectRef where
  carry _ o := o
  Good R o := R.marks.objects ≤ o.index
  mono g h := by rw [g.marks]; exact h

instance {α : Type} [Carried α] : Carried (Except Trouble α) where
  carry ρ r := r.map (carry ρ)
  Good R r :=
    match r with
    | .ok a => Good R a
    | .error t => t.Common
  mono {_ _ r} g h := by
    cases r with
    | ok a => exact mono (α := α) g h
    | error t => exact h

end Carried

end Pseudocode
