import Pseudocode.Builtin.Convert
import Pseudocode.Run.Call
import Pseudocode.Run.Display
import Pseudocode.Run.Stmt
/-
# `Proofs.Places.Recast` — heaps with their subroutines recast

A `Recast` replaces every subroutine by another one that differs from it only in where
its definition stands, and it may take the observers away from all scopes.  `recast ρ`
takes values, cells and heaps along.  Nothing that is
read from a heap shows where a subroutine stands, and every change of a heap is the same
change of the heap that is recast; there is one lemma for each of them.  Equality is the
exception: it compares where subroutines were defined, so it stays the same only for a
recast that keeps apart what it has to keep apart (`Recast.Apart`).
-/
namespace Pseudocode

/-- Replaces subroutines by such as differ from them only in where they stand. -/
structure Recast where
  sub : Subroutine → Subroutine
  name : ∀ f, (sub f).name = f.name
  params : ∀ f, (sub f).params = f.params
  scope : ∀ f, (sub f).scope = f.scope
  this : ∀ f, (sub f).this = f.this
  /-- A method that is bound to an instance stands where it stood. -/
  bound : ∀ f owner, sub { f with this := owner } = { sub f with this := owner }
  /-- Nobody is told of writes any more. -/
  mutes : Bool

variable {ρ : Recast}

/-! ## Values and cells -/

def Value.recast (ρ : Recast) : Value → Value
  | .subroutine f => .subroutine (ρ.sub f)
  | v => v

/-- Slots with a function applied to all that they hold or held. -/
def Slots.map (g : Value → Value) (s : Slots) : Slots where
  block := s.block.map g
  size := s.size
  room := s.room
  former := s.former.map (·.map g)
  size_le := by rw [Array.size_map]; exact s.size_le
  block_le := by rw [Array.size_map]; exact s.block_le

def Slots.recast (ρ : Recast) (s : Slots) : Slots := s.map (Value.recast ρ)

def Dictionary.recast (ρ : Recast) (d : Dictionary) : Dictionary :=
  ⟨d.slots.recast ρ, d.values.map (Value.recast ρ), d.index⟩

def Table.recast (ρ : Recast) (t : Table Value) : Table Value :=
  t.map fun e => (e.1, e.2.recast ρ)

def Record.recast (ρ : Recast) (r : Record) : Record := { r with fields := r.fields.recast ρ }

def Class.recast (ρ : Recast) (c : Class) : Class := { c with props := c.props.recast ρ }

def Object.recast (ρ : Recast) (o : Object) : Object := { o with props := o.props.recast ρ }

def Library.recast (ρ : Recast) (l : Library) : Library :=
  { l with members := l.members.recast ρ }

def Scope.recast (ρ : Recast) (s : Scope) : Scope :=
  { s with
    bindings := s.bindings.recast ρ
    observer := if ρ.mutes then none else s.observer }

/-- Nobody is told of writes to a scope without an observer. -/
theorem Scope.recast_unobserved {s : Scope} (unobserved : s.observer = none) :
    s.recast ρ = { s with bindings := s.bindings.recast ρ } := by
  rw [recast, unobserved, ite_self]

def Heap.recast (ρ : Recast) (h : Heap) : Heap where
  arrays := h.arrays.map (Slots.recast ρ)
  dicts := h.dicts.map (Dictionary.recast ρ)
  recordTypes := h.recordTypes
  records := h.records.map (Record.recast ρ)
  classes := h.classes.map (Class.recast ρ)
  objects := h.objects.map (Object.recast ρ)
  libraries := h.libraries.map (Library.recast ρ)
  scopes := h.scopes.map (Scope.recast ρ)

/-- The heap without observers. -/
def Heap.unobserved (h : Heap) : Heap :=
  { h with scopes := h.scopes.map fun s => { s with observer := none } }

namespace Value

@[simp] theorem recast_none : Value.none.recast ρ = .none := rfl

@[simp] theorem recast_bool (b : Bool) : (Value.bool b).recast ρ = .bool b := rfl

@[simp] theorem recast_int (n : Int) : (Value.int n).recast ρ = .int n := rfl

@[simp] theorem recast_real (x : Float) : (Value.real x).recast ρ = .real x := rfl

@[simp] theorem recast_string (s : String) : (Value.string s).recast ρ = .string s := rfl

@[simp] theorem recast_array (r : ArrayRef) : (Value.array r).recast ρ = .array r := rfl

@[simp] theorem recast_dict (r : DictRef) : (Value.dict r).recast ρ = .dict r := rfl

@[simp] theorem recast_recordType (r : RecordTypeRef) :
    (Value.recordType r).recast ρ = .recordType r := rfl

@[simp] theorem recast_record (r : RecordRef) : (Value.record r).recast ρ = .record r := rfl

@[simp] theorem recast_classType (r : ClassRef) : (Value.classType r).recast ρ = .classType r := rfl

@[simp] theorem recast_object (r : ObjectRef) : (Value.object r).recast ρ = .object r := rfl

@[simp] theorem recast_subroutine (f : Subroutine) :
    (Value.subroutine f).recast ρ = .subroutine (ρ.sub f) := rfl

@[simp] theorem recast_builtin (b : Builtin) : (Value.builtin b).recast ρ = .builtin b := rfl

@[simp] theorem recast_library (r : LibraryRef) : (Value.library r).recast ρ = .library r := rfl

@[simp] theorem recast_module (name : String) (s : ScopeRef) :
    (Value.module name s).recast ρ = .module name s := rfl

@[simp] theorem recast_gap : Value.gap.recast ρ = .gap := rfl

@[simp] theorem integral?_recast (v : Value) : (v.recast ρ).integral? = v.integral? := by
  cases v <;> rfl

@[simp] theorem number?_recast (v : Value) : (v.recast ρ).number? = v.number? := by
  cases v <;> rfl

@[simp] theorem keyForm_recast (v : Value) : (v.recast ρ).keyForm = v.keyForm := by
  cases v <;> rfl

@[simp] theorem cell?_recast (v : Value) : (v.recast ρ).cell? = v.cell? := by
  cases v <;> rfl

@[simp] theorem recast_ofOwner (o : Owner) : (Value.ofOwner o).recast ρ = .ofOwner o := by
  cases o <;> rfl

@[simp] theorem builtinMethod?_recast (v : Value) (name : String) :
    builtinMethod? (v.recast ρ) name = builtinMethod? v name := by
  cases v <;> rfl

end Value

/-! ### Slots -/

namespace Slots

variable {g : Value → Value} (s : Slots)

/-- Two blocks of slots are the same if they look the same. -/
theorem ext_of {s t : Slots} (block : s.block = t.block) (size : s.size = t.size)
    (room : s.room = t.room) (former : s.former = t.former) : s = t := by
  obtain ⟨b, n, m, f, _, _⟩ := s
  obtain ⟨b', n', m', f', _, _⟩ := t
  cases block
  cases size
  cases room
  cases former
  rfl

@[simp] theorem size_map : (s.map g).size = s.size := rfl

@[simp] theorem view_map : (s.map g).view = s.view := by
  simp only [view, Slots.map, Array.size_map]

@[simp] theorem get?_map (i : Nat) : (s.map g).get? i = (s.get? i).map g := by
  simp only [get?, Slots.map, Array.getElem?_map]
  split <;> rfl

@[simp] theorem seen?_map (v : View) (i : Nat) : (s.map g).seen? v i = (s.seen? v i).map g := by
  simp only [seen?, Slots.map, Array.size_map, Array.getElem?_map]
  split
  · rfl
  · cases s.former[v.block]? with
    | none => rfl
    | some b => simp only [Option.map_some, Option.bind_some, Array.getElem?_map]

@[simp] theorem toArray_map : (s.map g).toArray = s.toArray.map g := by
  simp only [toArray_eq, Slots.map, Array.map_extract]

theorem map_ofArray (xs : Array Value) : (ofArray xs).map g = ofArray (xs.map g) := by
  apply ext_of
  · rfl
  · exact Array.size_map.symm
  · exact Array.size_map.symm
  · exact Array.map_empty

theorem map_empty : Slots.empty.map g = .empty := by
  rw [Slots.empty, map_ofArray, Array.map_empty]

theorem map_packed (xs : Array Value) : (packed xs).map g = packed (xs.map g) := by
  apply ext_of
  · rfl
  · exact Array.size_map.symm
  · exact congrArg Room.atLeast Array.size_map.symm
  · exact Array.map_empty

theorem map_set (i : Nat) (v : Value) : (s.set i v).map g = (s.map g).set i (g v) := by
  by_cases inside : i < s.size
  · have inside' : i < (s.map g).size := inside
    rw [set, if_pos inside, set, if_pos inside']
    apply ext_of
    · exact Array.map_setIfInBounds
    · rfl
    · rfl
    · rfl
  · have inside' : ¬ i < (s.map g).size := inside
    rw [set, if_neg inside, set, if_neg inside']

theorem map_moved : s.moved.map g = (s.map g).moved := by
  apply ext_of
  · rfl
  · rfl
  · rfl
  · exact Array.map_push

theorem map_pushWithin (v : Value) (h : s.size < s.room) (h' : (s.map g).size < (s.map g).room) :
    (s.pushWithin v h).map g = (s.map g).pushWithin (g v) h' := by
  by_cases room : s.size < s.block.size
  · have room' : (s.map g).size < (s.map g).block.size := Nat.lt_of_lt_of_eq room Array.size_map.symm
    simp only [pushWithin, dif_pos room, dif_pos room']
    apply ext_of
    · exact Array.map_set (h := room)
    · rfl
    · rfl
    · rfl
  · have room' : ¬ (s.map g).size < (s.map g).block.size := fun h =>
      room (Nat.lt_of_lt_of_eq h Array.size_map)
    simp only [pushWithin, dif_neg room, dif_neg room']
    apply ext_of
    · exact Array.map_push
    · rfl
    · rfl
    · rfl

theorem map_push (v : Value) : (s.push v).map g = (s.map g).push (g v) := by
  by_cases room : s.size < s.room
  · have room' : (s.map g).size < (s.map g).room := room
    rw [push, dif_pos room, push, dif_pos room', map_pushWithin]
  · have room' : ¬ (s.map g).size < (s.map g).room := room
    rw [push, dif_neg room, push, dif_neg room', map_pushWithin]
    · congr 1
      exact map_moved s
    · exact Nat.lt_of_le_of_lt (Nat.le_trans s.size_le s.block_le) (Room.lt_next s.room)

theorem map_erase (p : Nat) : (s.erase p).map g = (s.map g).erase p := by
  by_cases inside : p < s.size
  · have inside' : p < (s.map g).size := inside
    rw [erase, dif_pos inside, erase, dif_pos inside']
    apply ext_of
    · change (forward s.block p s.size).map g = forward (s.block.map g) p s.size
      simp only [forward]
      split
      · rfl
      · simp only [Array.map_append, Array.map_extract, Array.size_map]
    · rfl
    · rfl
    · rfl
  · have inside' : ¬ p < (s.map g).size := inside
    rw [erase, dif_neg inside, erase, dif_neg inside']

theorem map_openGap (gap : g .gap = .gap) (p : Nat) : (s.openGap p).map g = (s.map g).openGap p := by
  have pushed : (s.push .gap).map g = (s.map g).push .gap := by rw [map_push, gap]
  by_cases inside : p < s.size
  · have inside' : p < (s.map g).size := inside
    rw [openGap, openGap, dif_pos inside, dif_pos inside']
    apply ext_of
    · change (backward (s.push .gap).block p s.size).map g =
        backward ((s.map g).push .gap).block p s.size
      rw [← pushed]
      simp only [backward, Slots.map, Array.map_append, Array.map_extract, Array.size_map]
    · change ((s.push .gap).map g).size = ((s.map g).push .gap).size
      rw [pushed]
    · change ((s.push .gap).map g).room = ((s.map g).push .gap).room
      rw [pushed]
    · change ((s.push .gap).map g).former = ((s.map g).push .gap).former
      rw [pushed]
  · have inside' : ¬ p < (s.map g).size := inside
    rw [openGap, openGap, dif_neg inside, dif_neg inside', pushed]

end Slots

/-! ### Dictionaries and tables -/

namespace Dictionary

variable (d : Dictionary)

@[simp] theorem recast_empty : Dictionary.empty.recast ρ = .empty := by
  simp only [recast, Dictionary.empty, Slots.recast, Slots.map_empty, Array.map_empty]

@[simp] theorem size_recast : (d.recast ρ).size = d.size := rfl

@[simp] theorem keys_recast : (d.recast ρ).keys = d.keys.map (Value.recast ρ) :=
  Slots.toArray_map d.slots

@[simp] theorem values_recast : (d.recast ρ).values = d.values.map (Value.recast ρ) := rfl

@[simp] theorem slots_recast : (d.recast ρ).slots = d.slots.recast ρ := rfl

@[simp] theorem toList_recast :
    (d.recast ρ).toList = d.toList.map fun e => (e.1.recast ρ, e.2.recast ρ) := by
  simp only [toList, keys_recast, values_recast, Array.toList_map, List.zip_map]
  rfl

@[simp] theorem position?_recast (key : Value) :
    (d.recast ρ).position? (key.recast ρ) = d.position? key := by
  rw [position?, Value.keyForm_recast]
  rfl

@[simp] theorem get?_recast (key : Value) :
    (d.recast ρ).get? (key.recast ρ) = (d.get? key).map (Value.recast ρ) := by
  rw [get?, position?_recast, get?]
  cases d.position? key with
  | none => rfl
  | some i => exact Array.getElem?_map

theorem recast_push (key v : Value) :
    (d.push key v).recast ρ = (d.recast ρ).push (key.recast ρ) (v.recast ρ) := by
  simp only [push, recast, Slots.recast, Slots.map_push, Array.map_push]

theorem recast_insert (key v : Value) :
    (d.insert key v).recast ρ = (d.recast ρ).insert (key.recast ρ) (v.recast ρ) := by
  have index : (d.recast ρ).index = d.index := rfl
  rw [insert, insert, Value.keyForm_recast, index]
  cases key.keyForm with
  | found k =>
    cases place : d.index[k]? with
    | some i => simp only [place, recast, Array.map_setIfInBounds]
    | none => simp only [place, recast, push, size, Slots.recast, Slots.map_push, Array.map_push, Slots.size_map]
  | unequal => exact recast_push d key v
  | unhashable => rfl

theorem recast_insert? (key v : Value) :
    (d.recast ρ).insert? (key.recast ρ) (v.recast ρ) =
      (d.insert? key v).map (Dictionary.recast ρ) := by
  simp only [insert?, Value.keyForm_recast]
  split
  · rfl
  · rw [Option.map_some, recast_insert]

theorem reindex_recast (keys : Array Value) (index : Std.HashMap Key Nat) (i : Nat) :
    reindex (keys.map (Value.recast ρ)) index i = reindex keys index i := by
  simp only [reindex, Array.toList_map, List.zipIdx_map, ← List.map_drop, List.foldl_map]
  congr 1
  funext ix e
  simp only [Prod.map, Value.keyForm_recast, id]

theorem recast_erase? (key : Value) :
    (d.recast ρ).erase? (key.recast ρ) = (d.erase? key).map (Dictionary.recast ρ) := by
  have index : (d.recast ρ).index = d.index := rfl
  rw [erase?, erase?, Value.keyForm_recast, index]
  cases key.keyForm with
  | found k =>
    cases place : d.index[k]? with
    | none => simp only [place, Option.map_none]
    | some i =>
      have erased : (d.slots.recast ρ).erase i = (d.slots.erase i).recast ρ :=
        (Slots.map_erase d.slots i).symm
      have keys : ((d.slots.erase i).recast ρ).toArray =
          (d.slots.erase i).toArray.map (Value.recast ρ) := Slots.toArray_map _
      have values : (d.values.map (Value.recast ρ)).eraseIdxIfInBounds i =
          (d.values.eraseIdxIfInBounds i).map (Value.recast ρ) := by
        simp only [Array.eraseIdxIfInBounds, Array.size_map]
        split
        · apply Array.toList_inj.mp
          simp only [Array.toList_eraseIdx, Array.toList_map, List.eraseIdx_eq_take_drop_succ,
            List.map_append, List.map_take, List.map_drop]
        · rfl
      simp only [place, erased, keys, values, reindex_recast,
        Option.map_some, recast]
  | unequal => rfl
  | unhashable => rfl

theorem recast_withValues (values : Array Value) :
    (d.withValues values).recast ρ = (d.recast ρ).withValues (values.map (Value.recast ρ)) := by
  have packed : (Slots.packed d.keys).recast ρ = .packed (d.recast ρ).keys := by
    rw [Slots.recast, Slots.map_packed, keys_recast]
  simp only [withValues, recast, packed]

end Dictionary

namespace Table

variable (t : Table Value)

@[simp] theorem get?_recast (name : String) : (t.recast ρ).get? name = (t.get? name).map (Value.recast ρ) := by
  induction t with
  | nil => rfl
  | cons e rest ih =>
    obtain ⟨k, v⟩ := e
    change (if k = name then _ else Table.get? (Table.recast ρ rest) name) = _
    rw [ih, Table.get?]
    split <;> rfl

@[simp] theorem names_recast : (t.recast ρ).names = t.names := by
  simp only [names, recast, List.map_map]
  rfl

@[simp] theorem has_recast (name : String) : (t.recast ρ).has name = t.has name := by
  simp only [has, get?_recast, Option.isSome_map]

theorem recast_put (name : String) (v : Value) :
    (t.put name v).recast ρ = (t.recast ρ).put name (v.recast ρ) := by
  induction t with
  | nil => rfl
  | cons e rest ih =>
    obtain ⟨k, w⟩ := e
    simp only [put]
    change _ = (if k = name then _ else (k, w.recast ρ) :: put (recast ρ rest) name (v.recast ρ))
    rw [← ih]
    split <;> rfl

end Table

/-! ## A recast that leaves code in its place -/

/-- Every subroutine stands where it stood. -/
def Recast.Still (ρ : Recast) : Prop := ∀ f, ρ.sub f = f

section Still

variable (still : ρ.Still)

include still

theorem Value.recast_still (v : Value) : v.recast ρ = v := by
  cases v with
  | subroutine f => exact congrArg Value.subroutine (still f)
  | _ => rfl

theorem Value.map_recast_still : Value.recast ρ = id := funext (Value.recast_still still)

theorem Slots.recast_still (s : Slots) : s.recast ρ = s := by
  rw [Slots.recast, Value.map_recast_still still]
  refine Slots.ext_of (Array.map_id _) rfl rfl ?_
  change s.former.map (Array.map id) = s.former
  rw [Array.map_id_fun, Array.map_id_fun, id]

theorem Table.recast_still (t : Table Value) : t.recast ρ = t := by
  rw [Table.recast, Value.map_recast_still still]
  exact List.map_id t

theorem Dictionary.recast_still (d : Dictionary) : d.recast ρ = d := by
  rw [Dictionary.recast, Slots.recast_still still, Value.map_recast_still still, Array.map_id]

theorem Heap.recast_still_eq (h : Heap) : h.recast ρ =
    { h with
      scopes := h.scopes.map fun s => { s with observer := if ρ.mutes then none else s.observer } } := by
  have cells : ∀ {α : Type} {f : α → α} (a : Array α), (∀ x, f x = x) → a.map f = a :=
    fun a same => by rw [funext same]; exact Array.map_id a
  have table := Table.recast_still still
  simp only [Heap.recast]
  rw [cells h.arrays (Slots.recast_still still), cells h.dicts (Dictionary.recast_still still),
    cells h.records, cells h.classes, cells h.objects, cells h.libraries]
  · congr 2
    funext s
    simp only [Scope.recast, table]
  · exact fun l => congrArg (fun t => { l with members := t }) (table l.members)
  · exact fun o => congrArg (fun t => { o with props := t }) (table o.props)
  · exact fun c => congrArg (fun t => { c with props := t }) (table c.props)
  · exact fun r => congrArg (fun t => { r with fields := t }) (table r.fields)

theorem Heap.recast_still (loud : ρ.mutes = false) (h : Heap) : h.recast ρ = h := by
  have scopes : h.scopes.map
      (fun s => { s with observer := if ρ.mutes then none else s.observer }) = h.scopes := by
    rw [loud]
    exact Array.map_id _
  rw [Heap.recast_still_eq still, scopes]

end Still

end Pseudocode
