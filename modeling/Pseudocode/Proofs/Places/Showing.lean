import Pseudocode.Proofs.Hosting.Fields
import Pseudocode.Proofs.Places.Reading
import Pseudocode.Value.Json
/-
# `Proofs.Places.Showing` — code that shows in data

Values are written as data when a token is signed over them, and then a subroutine shows
the code it runs, with the places where it stands.  `Heap.Shows` says that a subroutine is
met on the descent into a value.  Where none is, the data does not tell one recast of the
heap from another (`Heap.toJson_recast`), nor does it where code stays in its place
(`Heap.toJson_still`).
-/
namespace Pseudocode

/-- A subroutine is met on the descent into a value.  As data, an array shows its elements
and a dictionary its entries; anything else shows its parts, in which a dictionary keeps
its entries to itself. -/
inductive Heap.Shows (h : Heap) : (data : Bool) → Value → Prop
  | subroutine {data : Bool} (f : Subroutine) : Shows h data (.subroutine f)
  | element {data : Bool} {r : ArrayRef} {v : Value} :
      v ∈ (h.array r).toList → Shows h data v → Shows h data (.array r)
  | entry {r : DictRef} {e : String × Value} :
      e ∈ h.textEntries r → Shows h true e.2 → Shows h true (.dict r)
  | field {data : Bool} {r : RecordRef} {e : String × Value} :
      e ∈ (h.record r).fields → Shows h false e.2 → Shows h data (.record r)
  | static {data : Bool} {r : ClassRef} {e : String × Value} :
      e ∈ (h.classType r).props → Shows h false e.2 → Shows h data (.classType r)
  | property {data : Bool} {r : ObjectRef} {e : String × Value} :
      e ∈ (h.object r).props → Shows h false e.2 → Shows h data (.object r)
  | kind {data : Bool} {r : ObjectRef} :
      Shows h false (.classType (h.object r).type) → Shows h data (.object r)

/-! ## Descents -/

theorem mapM_except_congr {ε α β : Type} {f g : α → Except ε β} {xs : List α}
    (h : ∀ x ∈ xs, f x = g x) : xs.mapM f = xs.mapM g := by
  induction xs with
  | nil => rfl
  | cons x xs ih =>
    rw [List.mapM_cons, List.mapM_cons, h x List.mem_cons_self,
      ih fun y hy => h y (List.mem_cons_of_mem x hy)]

section Descents

variable {h : Heap} {ρ : Recast}

theorem fieldsWith_recast {f g : Value → Except Json.Unsupported Datum} {t : Table Value}
    (same : ∀ e ∈ t, g (e.2.recast ρ) = f e.2) :
    Json.fieldsWith g (t.recast ρ) = Json.fieldsWith f t := by
  rw [Json.fieldsWith, Table.recast, Datum.sortFields_map, List.mapM_map, Json.fieldsWith]
  refine mapM_except_congr fun e he => ?_
  simp only [Function.comp, same e (Datum.mem_sortFields he)]

theorem Heap.partsTo_recast (n : Nat) : ∀ (t : Json.Trail) (v : Value), ¬ h.Shows false v →
    (h.recast ρ).partsTo n t (v.recast ρ) = h.partsTo n t v := by
  induction n with
  | zero => exact fun _ _ _ => rfl
  | succ n ih =>
    intro t v hidden
    cases v with
    | array r =>
      have elements : ∀ t, ((h.array r).toList.map (Value.recast ρ)).mapM ((h.recast ρ).partsTo n t) =
          (h.array r).toList.mapM (h.partsTo n t) := by
        intro t
        rw [List.mapM_map]
        exact mapM_except_congr fun v hv => ih t v fun hs => hidden (.element hv hs)
      simp only [Value.recast_array, partsTo, Heap.array_recast, Array.toList_map, elements]
    | record r =>
      have fields : ∀ t, Json.fieldsWith ((h.recast ρ).partsTo n t) ((h.record r).fields.recast ρ) =
          Json.fieldsWith (h.partsTo n t) (h.record r).fields := fun t =>
        fieldsWith_recast fun e he => ih t e.2 fun hs => hidden (.field he hs)
      simp only [Value.recast_record, partsTo, Heap.record_recast, Record.recast,
        Heap.recordType_recast, fields]
    | classType r =>
      have props : ∀ t, Json.fieldsWith ((h.recast ρ).partsTo n t) ((h.classType r).props.recast ρ) =
          Json.fieldsWith (h.partsTo n t) (h.classType r).props := fun t =>
        fieldsWith_recast fun e he => ih t e.2 fun hs => hidden (.static he hs)
      simp only [Value.recast_classType, partsTo, Heap.classType_recast, Class.recast, props,
        Table.names_recast]
    | object r =>
      have props : ∀ t, Json.fieldsWith ((h.recast ρ).partsTo n t) ((h.object r).props.recast ρ) =
          Json.fieldsWith (h.partsTo n t) (h.object r).props := fun t =>
        fieldsWith_recast fun e he => ih t e.2 fun hs => hidden (.property he hs)
      have type : ∀ t, (h.recast ρ).partsTo n t (.classType (h.object r).type) =
          h.partsTo n t (.classType (h.object r).type) := fun t =>
        ih t (.classType (h.object r).type) fun hs => hidden (.kind hs)
      simp only [Value.recast_object, partsTo, Heap.object_recast, Object.recast, props, type,
        Table.names_recast]
    | subroutine f => exact absurd (.subroutine f) hidden
    | library r => simp only [Value.recast_library, partsTo, Heap.library_recast, Library.recast]
    | recordType r => simp only [Value.recast_recordType, partsTo, Heap.recordType_recast]
    | _ => rfl

theorem Heap.descentFuel_recast : (h.recast ρ).descentFuel = h.descentFuel := by
  simp only [descentFuel, Heap.recast, Array.size_map]

theorem Heap.dataTo_recast (n : Nat) : ∀ (t : Json.Trail) (v : Value), ¬ h.Shows true v →
    (h.recast ρ).dataTo n t (v.recast ρ) = h.dataTo n t v := by
  induction n with
  | zero => exact fun _ _ _ => rfl
  | succ n ih =>
    intro t v hidden
    have parts : ¬ h.Shows false v → (h.recast ρ).partsTo (h.recast ρ).descentFuel t (v.recast ρ) =
        h.partsTo h.descentFuel t v := by
      intro hidden
      rw [descentFuel_recast]
      exact partsTo_recast _ t v hidden
    cases v with
    | none => rfl
    | array r =>
      have elements : ∀ t, ((h.array r).toList.map (Value.recast ρ)).mapM ((h.recast ρ).dataTo n t) =
          (h.array r).toList.mapM (h.dataTo n t) := by
        intro t
        rw [List.mapM_map]
        exact mapM_except_congr fun v hv => ih t v fun hs => hidden (.element hv hs)
      simp only [Value.recast_array, dataTo, Heap.array_recast, Array.toList_map, elements]
    | dict r =>
      have entries : ∀ t, Json.fieldsWith ((h.recast ρ).dataTo n t) ((h.textEntries r).recast ρ) =
          Json.fieldsWith (h.dataTo n t) (h.textEntries r) := fun t =>
        fieldsWith_recast fun e he => ih t e.2 fun hs => hidden (.entry he hs)
      simp only [Value.recast_dict, dataTo, Heap.textEntries_recast, entries]
    | subroutine f => exact absurd (.subroutine f) hidden
    | record r =>
      refine parts fun hs => ?_
      cases hs with
      | field he hs => exact hidden (.field he hs)
    | classType r =>
      refine parts fun hs => ?_
      cases hs with
      | static he hs => exact hidden (.static he hs)
    | object r =>
      refine parts fun hs => ?_
      cases hs with
      | property he hs => exact hidden (.property he hs)
      | kind hs => exact hidden (.kind hs)
    | _ => exact parts fun hs => by cases hs

/-- Data in which no subroutine shows is the same in a heap that is recast. -/
theorem Heap.toJson_recast {fields : Table Value} (hidden : ∀ e ∈ fields, ¬ h.Shows true e.2) :
    (h.recast ρ).toJson (fields.recast ρ) = h.toJson fields := by
  have same : Json.fieldsWith ((h.recast ρ).dataTo (h.containers + 2) Json.Trail.top.deeper)
      (fields.recast ρ) = Json.fieldsWith (h.dataTo (h.containers + 2) Json.Trail.top.deeper) fields :=
    fieldsWith_recast fun e he => dataTo_recast _ _ e.2 (hidden e he)
  rw [toJson, containers_recast, same, toJson]

/-! A recast that leaves code in its place does not show either. -/

section Still

variable (still : ρ.Still)

include still

theorem Heap.partsTo_still (n : Nat) : (h.recast ρ).partsTo n = h.partsTo n := by
  have values := Value.map_recast_still still
  have tables := Table.recast_still still
  induction n with
  | zero => rfl
  | succ n ih =>
    funext t v
    cases v with
    | array r => simp only [partsTo, Heap.array_recast, values, Array.map_id, ih]
    | record r =>
      simp only [partsTo, Heap.record_recast, Record.recast, Heap.recordType_recast, tables, ih]
    | classType r => simp only [partsTo, Heap.classType_recast, Class.recast, tables, ih]
    | object r => simp only [partsTo, Heap.object_recast, Object.recast, tables, ih]
    | subroutine f => simp only [partsTo, ih]
    | library r => simp only [partsTo, Heap.library_recast, Library.recast]
    | recordType r => simp only [partsTo, Heap.recordType_recast]
    | _ => rfl

theorem Heap.dataTo_still (n : Nat) : (h.recast ρ).dataTo n = h.dataTo n := by
  have values := Value.map_recast_still still
  have parts : (h.recast ρ).partsTo (h.recast ρ).descentFuel = h.partsTo h.descentFuel := by
    rw [descentFuel_recast, partsTo_still still]
  induction n with
  | zero => rfl
  | succ n ih =>
    funext t v
    cases v with
    | none => rfl
    | array r => simp only [dataTo, Heap.array_recast, values, Array.map_id, ih]
    | dict r =>
      simp only [dataTo, Heap.textEntries_recast, Table.recast_still still, ih]
    | _ => simp only [dataTo, parts]

theorem Heap.toJson_still (fields : Table Value) :
    (h.recast ρ).toJson (fields.recast ρ) = h.toJson fields := by
  rw [toJson, containers_recast, dataTo_still still, Table.recast_still still, toJson]

end Still

end Descents

end Pseudocode
