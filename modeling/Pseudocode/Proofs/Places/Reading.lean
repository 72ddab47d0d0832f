import Pseudocode.Proofs.Places.Recast
/-
# `Proofs.Places.Reading` — reading and changing a heap that is recast

Nothing that is read from a heap shows where a subroutine stands, and every change of a
heap is the same change of the heap that is recast.
-/
namespace Pseudocode

variable {ρ : Recast}

/-! ## Looking up -/

namespace Heap

variable (h : Heap)

theorem getD_map {α : Type} {f : α → α} (a : Array α) (i : Nat) {d : α} (default : f d = d) :
    (a.map f).getD i d = f (a.getD i d) := by
  rw [Array.getD_eq_getD_getElem?, Array.getD_eq_getD_getElem?, Array.getElem?_map]
  cases a[i]? with
  | none => exact default.symm
  | some x => rfl

@[simp] theorem slots_recast (r : ArrayRef) : (h.recast ρ).slots r = (h.slots r).recast ρ :=
  getD_map h.arrays r.index Slots.map_empty

@[simp] theorem array_recast (r : ArrayRef) :
    (h.recast ρ).array r = (h.array r).map (Value.recast ρ) := by
  rw [array, slots_recast]
  exact Slots.toArray_map _

@[simp] theorem dict_recast (r : DictRef) : (h.recast ρ).dict r = (h.dict r).recast ρ :=
  getD_map h.dicts r.index Dictionary.recast_empty

@[simp] theorem recordType_recast (r : RecordTypeRef) :
    (h.recast ρ).recordType r = h.recordType r := rfl

@[simp] theorem record_recast (r : RecordRef) : (h.recast ρ).record r = (h.record r).recast ρ :=
  getD_map h.records r.index rfl

@[simp] theorem classType_recast (r : ClassRef) :
    (h.recast ρ).classType r = (h.classType r).recast ρ :=
  getD_map h.classes r.index rfl

@[simp] theorem object_recast (r : ObjectRef) : (h.recast ρ).object r = (h.object r).recast ρ :=
  getD_map h.objects r.index rfl

@[simp] theorem library_recast (r : LibraryRef) :
    (h.recast ρ).library r = (h.library r).recast ρ :=
  getD_map h.libraries r.index rfl

@[simp] theorem scope_recast (r : ScopeRef) : (h.recast ρ).scope r = (h.scope r).recast ρ :=
  getD_map h.scopes r.index (Scope.recast_unobserved rfl)

@[simp] theorem containers_recast : (h.recast ρ).containers = h.containers := by
  simp only [containers, recast, Array.size_map]

@[simp] theorem comparables_recast : (h.recast ρ).comparables = h.comparables := by
  simp only [comparables, recast, Array.size_map]

@[simp] theorem size_scopes_recast : (h.recast ρ).scopes.size = h.scopes.size := Array.size_map

/-! ### What is shown -/

@[simp] theorem typeName_recast (v : Value) : (h.recast ρ).typeName (v.recast ρ) = h.typeName v := by
  cases v <;> simp [typeName, Record.recast, Object.recast, Class.recast]

@[simp] theorem leafText_recast (v : Value) : (h.recast ρ).leafText (v.recast ρ) = h.leafText v := by
  unfold leafText
  cases v <;>
    simp only [Value.recast_none, Value.recast_bool, Value.recast_int, Value.recast_real,
      Value.recast_string, Value.recast_array, Value.recast_dict, Value.recast_recordType,
      Value.recast_record, Value.recast_classType, Value.recast_object, Value.recast_subroutine,
      Value.recast_builtin, Value.recast_library, Value.recast_module, Value.recast_gap, record_recast, Record.recast,
      object_recast, Object.recast, classType_recast, Class.recast, library_recast, Library.recast,
      recordType_recast, ρ.name]

@[simp] theorem reprTo_recast (n : Nat) (v : Value) : (h.recast ρ).reprTo n (v.recast ρ) = h.reprTo n v := by
  induction n generalizing v with
  | zero => exact leafText_recast h v
  | succ n ih =>
    have leaf := leafText_recast (ρ := ρ) h
    cases v with
    | array r =>
      simp only [Value.recast_array, reprTo, array_recast, Array.toList_map, List.map_map]
      congr 2
      funext v
      exact ih v
    | dict r =>
      simp only [Value.recast_dict, reprTo, dict_recast, Dictionary.toList_recast, List.map_map]
      congr 2
      funext e
      show entryText _ _ = entryText _ _
      rw [ih, ih]
    | string s => simp only [Value.recast_string, reprTo]
    | subroutine f => exact leaf (.subroutine f)
    | record r => exact leaf (.record r)
    | classType r => exact leaf (.classType r)
    | object r => exact leaf (.object r)
    | library r => exact leaf (.library r)
    | recordType r => exact leaf (.recordType r)
    | none => exact leaf .none
    | gap => exact leaf .gap
    | bool b => exact leaf (.bool b)
    | int k => exact leaf (.int k)
    | real x => exact leaf (.real x)
    | builtin b => exact leaf (.builtin b)
    | module name s => exact leaf (.module name s)

@[simp] theorem repr_recast (v : Value) : (h.recast ρ).repr (v.recast ρ) = h.repr v := by
  rw [repr, repr, containers_recast, reprTo_recast]

@[simp] theorem text_recast (v : Value) : (h.recast ρ).text (v.recast ρ) = h.text v := by
  have shown := repr_recast (ρ := ρ) h v
  cases v with
  | string s => rfl
  | _ => exact shown

@[simp] theorem truthy_recast (v : Value) : (h.recast ρ).truthy (v.recast ρ) = h.truthy v := by
  cases v <;> simp [truthy, Slots.recast]

theorem textEntries_recast (r : DictRef) :
    (h.recast ρ).textEntries r = (h.textEntries r).recast ρ := by
  simp only [textEntries, dict_recast, Dictionary.toList_recast, List.map_map, Table.recast]
  congr 1
  funext e
  simp only [Function.comp, text_recast]

@[simp] theorem keyNotFound_recast (key : Value) :
    (h.recast ρ).keyNotFound (key.recast ρ) = h.keyNotFound key := by
  rw [keyNotFound, keyNotFound, repr_recast]

/-! ### Scopes -/

theorem findTo_recast (name : String) (n : Nat) (s : ScopeRef) :
    (h.recast ρ).findTo name n s = (h.findTo name n s).map fun e => (e.1, e.2.recast ρ) := by
  induction n generalizing s with
  | zero => rfl
  | succ n ih =>
    simp only [findTo, scope_recast, Scope.recast, Table.get?_recast]
    cases (h.scope s).bindings.get? name with
    | some v => rfl
    | none =>
      cases (h.scope s).parent with
      | none => rfl
      | some p => exact ih p

@[simp] theorem find?_recast (s : ScopeRef) (name : String) :
    (h.recast ρ).find? s name = (h.find? s name).map fun e => (e.1, e.2.recast ρ) := by
  rw [find?, size_scopes_recast]
  exact findTo_recast h name _ s

@[simp] theorem lookup?_recast (s : ScopeRef) (name : String) :
    (h.recast ρ).lookup? s name = (h.lookup? s name).map (Value.recast ρ) := by
  rw [lookup?, find?_recast, lookup?, Option.map_map, Option.map_map]
  rfl

@[simp] theorem isConstant_recast (s : ScopeRef) (name : String) :
    (h.recast ρ).isConstant s name = h.isConstant s name := by
  rw [isConstant, scope_recast]
  rfl

@[simp] theorem localNames_recast (s : ScopeRef) : (h.recast ρ).localNames s = h.localNames s := by
  simp only [localNames, scope_recast, Scope.recast, Table.names_recast]

theorem namesTo_recast (n : Nat) (s : ScopeRef) : (h.recast ρ).namesTo n s = h.namesTo n s := by
  induction n generalizing s with
  | zero => rfl
  | succ n ih =>
    simp only [namesTo, scope_recast, Scope.recast, Table.names_recast]
    congr 2
    cases (h.scope s).parent with
    | none => rfl
    | some p => exact congrArg some (ih p)

@[simp] theorem visibleNames_recast (s : ScopeRef) :
    (h.recast ρ).visibleNames s = h.visibleNames s := by
  rw [visibleNames, size_scopes_recast, namesTo_recast, visibleNames]

@[simp] theorem event?_recast (s : ScopeRef) (name : String) (v : Value) :
    (h.recast ρ).event? s name (v.recast ρ) = if ρ.mutes then none else h.event? s name v := by
  simp only [event?, scope_recast, Scope.recast, repr_recast]
  cases ρ.mutes <;> rfl

@[simp] theorem touched?_recast (s : ScopeRef) (name : String) :
    (h.recast ρ).touched? s name = if ρ.mutes then none else h.touched? s name := by
  rw [touched?, find?_recast, touched?]
  cases h.find? s name with
  | none => simp only [Option.map_none, Option.bind_none, ite_self]
  | some e => simp only [Option.map_some, Option.bind_some, event?_recast]

/-! ### Items and properties -/

theorem position_recast (typeName : String) (key : Value) (length : Nat) (what : String) :
    position typeName (key.recast ρ) length what = position typeName key length what := by
  rw [position, Value.integral?_recast, position]

theorem item_recast (v key : Value) :
    (h.recast ρ).item (v.recast ρ) (key.recast ρ) = (h.item v key).map (Value.recast ρ) := by
  cases v with
  | array r =>
    simp only [Value.recast_array, item, slots_recast, Slots.recast, Slots.size_map, typeName_recast,
      position_recast, Slots.get?_map]
    cases position (h.typeName key) key (h.slots r).size "array" with
    | error t => rfl
    | ok p =>
      show Except.ok (((h.slots r).get? p |>.map (Value.recast ρ)).getD .none) =
        Except.ok (((h.slots r).get? p |>.getD .none).recast ρ)
      cases (h.slots r).get? p <;> rfl
  | string s =>
    simp only [Value.recast_string, item, typeName_recast, position_recast]
    cases position (h.typeName key) key s.toList.length "string" with
    | error t => rfl
    | ok p => rfl
  | dict r =>
    simp only [Value.recast_dict, item, Value.keyForm_recast, typeName_recast, dict_recast,
      Dictionary.get?_recast, keyNotFound_recast]
    split
    · rfl
    · cases (h.dict r).get? key <;> rfl
  | record r =>
    have typed := typeName_recast (ρ := ρ) h (.record r)
    exact congrArg (fun t => Except.error (Trouble.type s!"'{t}' object is not subscriptable")) typed
  | object r =>
    have typed := typeName_recast (ρ := ρ) h (.object r)
    exact congrArg (fun t => Except.error (Trouble.type s!"'{t}' object is not subscriptable")) typed
  | _ => rfl

@[simp] theorem storedProperty?_recast (v : Value) (name : String) :
    (h.recast ρ).storedProperty? (v.recast ρ) name =
      (h.storedProperty? v name).map (Value.recast ρ) := by
  cases v <;> simp [storedProperty?, Object.recast, Class.recast, Record.recast, Library.recast]

@[simp] theorem noProperty_recast (v : Value) (name : String) :
    (h.recast ρ).noProperty (v.recast ρ) name = h.noProperty v name := by
  have typed := typeName_recast (ρ := ρ) h v
  cases v with
  | library r => simp only [Value.recast_library, noProperty, library_recast, Library.recast]
  | module m s => rfl
  | _ => exact congrArg (fun t => Trouble.index s!"'{t}' object has no property '{name}'") typed

@[simp] theorem displayMethod?_recast (v : Value) (name : String) :
    Run.displayMethod? (h.recast ρ) (v.recast ρ) name =
      (Run.displayMethod? h v name).map (Value.recast ρ) := by
  cases v <;> simp [Run.displayMethod?, Object.recast, Class.recast]

@[simp] theorem items?_recast (v : Value) :
    Run.items? (h.recast ρ) (v.recast ρ) =
      (Run.items? h v).map (List.map (Value.recast ρ)) := by
  cases v <;> simp [Run.items?, Function.comp_def]

@[simp] theorem pair?_recast (v : Value) :
    Builtins.pair? (h.recast ρ) (v.recast ρ) =
      (Builtins.pair? h v).map fun e => (e.1.recast ρ, e.2.recast ρ) := by
  cases v with
  | array r =>
    simp only [Value.recast_array, Builtins.pair?, array_recast, Array.toList_map]
    rcases (h.array r).toList with - | ⟨a, - | ⟨b, - | ⟨c, rest⟩⟩⟩ <;> rfl
  | _ => rfl

/-! ### Operators -/

@[simp] theorem order?_recast (l r : Value) : order? (l.recast ρ) (r.recast ρ) = order? l r := by
  cases l <;> cases r <;> rfl

@[simp] theorem unsupported_recast (op : BinaryOp) (l r : Value) :
    unsupported (h.recast ρ) op (l.recast ρ) (r.recast ρ) = unsupported h op l r := by
  simp only [unsupported, typeName_recast]

@[simp] theorem compareValues_recast (op : BinaryOp) (l r : Value) :
    compareValues (h.recast ρ) op (l.recast ρ) (r.recast ρ) = compareValues h op l r := by
  simp only [compareValues, order?_recast, typeName_recast]

@[simp] theorem unaryOp_recast (op : UnaryOp) (v : Value) :
    unaryOp (h.recast ρ) op (v.recast ρ) = unaryOp h op v := by
  have typed := typeName_recast (ρ := ρ) h v
  have truth := truthy_recast (ρ := ρ) h v
  have whole := Value.integral?_recast (ρ := ρ) v
  unfold unaryOp
  rw [typed, truth, whole]
  cases v with
  | subroutine f => cases op <;> rfl
  | _ => rfl

@[simp] theorem toInt_recast (v : Value) : Builtins.toInt (h.recast ρ) (v.recast ρ) = Builtins.toInt h v := by
  have typed := typeName_recast (ρ := ρ) h v
  cases v with
  | string s => rfl
  | int n => rfl
  | bool b => rfl
  | real x => rfl
  | _ => exact congrArg (fun t => Except.error (Trouble.type
      s!"int() argument must be a string or a number, not '{t}'")) typed

@[simp] theorem toReal_recast (v : Value) : Builtins.toReal (h.recast ρ) (v.recast ρ) = Builtins.toReal h v := by
  have typed := typeName_recast (ρ := ρ) h v
  cases v with
  | string s => rfl
  | int n => rfl
  | bool b => rfl
  | real x => rfl
  | _ => exact congrArg (fun t => Except.error (Trouble.type
      s!"float() argument must be a string or a number, not '{t}'")) typed

end Heap

/-! ## Changing -/

namespace Heap

variable (h : Heap)

theorem map_modify {α : Type} {f : α → α} {g g' : α → α} (a : Array α) (i : Nat)
    (same : ∀ x, f (g x) = g' (f x)) : (a.modify i g).map f = (a.map f).modify i g' := by
  apply Array.ext_getElem?
  intro j
  simp only [Array.getElem?_map, Array.getElem?_modify]
  split
  · cases a[j]? with
    | none => rfl
    | some x => exact congrArg some (same x)
  · rfl

theorem recast_newArray (xs : Array Value) :
    (h.recast ρ).newArray (xs.map (Value.recast ρ)) =
      (((h.newArray xs).1.recast ρ), ((h.newArray xs).2.recast ρ)) := by
  simp only [newArray, recast, Array.size_map, Array.map_push, Slots.recast, Slots.map_ofArray,
    Value.recast_array]

theorem recast_newDict (d : Dictionary) :
    (h.recast ρ).newDict (d.recast ρ) = (((h.newDict d).1.recast ρ), ((h.newDict d).2.recast ρ)) := by
  simp only [newDict, recast, Array.size_map, Array.map_push, Value.recast_dict]

theorem recast_newRecord (r : Record) :
    (h.recast ρ).newRecord (r.recast ρ) =
      (((h.newRecord r).1.recast ρ), ((h.newRecord r).2.recast ρ)) := by
  simp only [newRecord, recast, Array.size_map, Array.map_push, Value.recast_record]

theorem recast_newClass (c : Class) :
    (h.recast ρ).newClass (c.recast ρ) = ((h.newClass c).1, ((h.newClass c).2.recast ρ)) := by
  simp only [newClass, recast, Array.size_map, Array.map_push]

theorem recast_newObject (o : Object) :
    (h.recast ρ).newObject (o.recast ρ) = ((h.newObject o).1, ((h.newObject o).2.recast ρ)) := by
  simp only [newObject, recast, Array.size_map, Array.map_push]

theorem recast_newLibrary (l : Library) :
    (h.recast ρ).newLibrary (l.recast ρ) =
      (((h.newLibrary l).1.recast ρ), ((h.newLibrary l).2.recast ρ)) := by
  simp only [newLibrary, recast, Array.size_map, Array.map_push, Value.recast_library]

theorem recast_newScope (s : Scope) :
    (h.recast ρ).newScope (s.recast ρ) = ((h.newScope s).1, ((h.newScope s).2.recast ρ)) := by
  simp only [newScope, recast, Array.size_map, Array.map_push]

theorem recast_modifyArray (r : ArrayRef) {f g : Slots → Slots}
    (same : ∀ s, (f s).recast ρ = g (s.recast ρ)) :
    (h.modifyArray r f).recast ρ = (h.recast ρ).modifyArray r g := by
  simp only [modifyArray, recast, map_modify _ _ same]

theorem recast_modifyDict (r : DictRef) {f g : Dictionary → Dictionary}
    (same : ∀ d, (f d).recast ρ = g (d.recast ρ)) :
    (h.modifyDict r f).recast ρ = (h.recast ρ).modifyDict r g := by
  simp only [modifyDict, recast, map_modify _ _ same]

theorem recast_modifyRecord (r : RecordRef) {f g : Record → Record}
    (same : ∀ q, (f q).recast ρ = g (q.recast ρ)) :
    (h.modifyRecord r f).recast ρ = (h.recast ρ).modifyRecord r g := by
  simp only [modifyRecord, recast, map_modify _ _ same]

theorem recast_modifyClass (r : ClassRef) {f g : Class → Class}
    (same : ∀ c, (f c).recast ρ = g (c.recast ρ)) :
    (h.modifyClass r f).recast ρ = (h.recast ρ).modifyClass r g := by
  simp only [modifyClass, recast, map_modify _ _ same]

theorem recast_modifyObject (r : ObjectRef) {f g : Object → Object}
    (same : ∀ o, (f o).recast ρ = g (o.recast ρ)) :
    (h.modifyObject r f).recast ρ = (h.recast ρ).modifyObject r g := by
  simp only [modifyObject, recast, map_modify _ _ same]

theorem recast_modifyScope (r : ScopeRef) {f g : Scope → Scope}
    (same : ∀ s, (f s).recast ρ = g (s.recast ρ)) :
    (h.modifyScope r f).recast ρ = (h.recast ρ).modifyScope r g := by
  simp only [modifyScope, recast, map_modify _ _ same]

theorem recast_bind (s : ScopeRef) (name : String) (v : Value) (constant : Bool) :
    (h.bind s name v constant).recast ρ = (h.recast ρ).bind s name (v.recast ρ) constant := by
  apply recast_modifyScope
  intro sc
  simp only [Scope.recast, Table.recast_put]

end Heap

end Pseudocode
