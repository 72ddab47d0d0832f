import Pseudocode.Proofs.Places.Turning
/-
# `Proofs.Places.Operation` — what is computed in a heap that is recast

Values that the realm holds are equal exactly if they are equal when recast; that the
realm keeps apart what was defined in different places is what makes it so.  With that
the operators, the conversions and the making of instances turn.
-/
namespace Pseudocode

variable {R : Realm} {h : Heap}

/-! ## Equality -/

theorem equalLeaves_recast {a b : Value} (ha : R.Holds a) (hb : R.Holds b) :
    equalLeaves (a.recast R.recast) (b.recast R.recast) = equalLeaves a b := by
  cases a with
  | subroutine f =>
    cases b with
    | subroutine g =>
      have apart := R.apart f g ha.code hb.code
      simp only [Value.recast_subroutine, equalLeaves, R.recast.scope, R.recast.this]
      congr 2
      rw [Bool.eq_iff_iff]
      simpa only [Bool.and_eq_true, beq_iff_eq] using apart
    | _ => rfl
  | _ =>
    cases b with
    | subroutine g => rfl
    | _ => rfl

theorem Table.recast_dataProps {ρ : Recast} (t : Table Value) :
    dataProps (t.recast ρ) = (dataProps t).recast ρ := by
  simp only [dataProps, Table.recast, List.filter_map]
  congr 1
  apply List.filter_congr
  rintro ⟨k, v⟩ -
  cases v <;> rfl

/-- A cell that belongs to the realm. -/
def Realm.HoldsCell (R : Realm) : Cell → Prop
  | .array r => R.Holds (.array r)
  | .dict r => R.Holds (.dict r)
  | .record r => R.Holds (.record r)
  | .object r => R.Holds (.object r)

theorem Realm.holdsCell_of {v : Value} (hv : R.Holds v) {c : Cell} (hc : v.cell? = some c) :
    R.HoldsCell c := by
  cases v with
  | array r => cases hc; exact hv
  | dict r => cases hc; exact hv
  | record r => cases hc; exact hv
  | object r => cases hc; exact hv
  | _ => cases hc

theorem mapM_option_map {α β γ : Type} {f : α → Option β} {g : α → Option γ} {k : β → γ}
    (xs : List α) (same : ∀ x ∈ xs, g x = (f x).map k) :
    xs.mapM g = (xs.mapM f).map (List.map k) := by
  induction xs with
  | nil => rfl
  | cons x xs ih =>
    rw [List.mapM_cons, List.mapM_cons, same x List.mem_cons_self,
      ih fun y hy => same y (List.mem_cons_of_mem x hy)]
    cases f x with
    | none => rfl
    | some y =>
      cases xs.mapM f with
      | none => rfl
      | some ys => rfl

/-- A pair of parts, recast. -/
def recastPair (ρ : Recast) (p : Value × Value) : Value × Value := (p.1.recast ρ, p.2.recast ρ)

theorem Heap.parts?_recast {ρ : Recast} (h : Heap) (x y : Cell) :
    (h.recast ρ).parts? x y = (h.parts? x y).map (List.map (recastPair ρ)) := by
  cases x with
  | array r =>
    cases y with
    | array q =>
      simp only [parts?, array_recast, Array.size_map, Array.toList_map]
      split
      · rw [Option.map_some, List.zip_map]
        rfl
      · rfl
    | _ => rfl
  | dict r =>
    cases y with
    | dict q =>
      simp only [parts?, dict_recast, Dictionary.size_recast, Dictionary.toList_recast]
      split
      · rw [List.mapM_map]
        apply mapM_option_map
        rintro ⟨k, v⟩ -
        simp only [Function.comp, Dictionary.get?_recast, Option.map_map]
        rfl
      · rfl
    | _ => rfl
  | record r =>
    cases y with
    | record q =>
      simp only [parts?, record_recast, Record.recast, recordType_recast, Table.get?_recast]
      split
      · apply mapM_option_map
        intro field _
        cases (h.record r).fields.get? field <;> cases (h.record q).fields.get? field <;> rfl
      · rfl
    | _ => rfl
  | object r =>
    cases y with
    | object q =>
      have has (t : Table Value) : Table.has (t.recast ρ) = Table.has t :=
        funext (Table.has_recast t)
      simp only [parts?, object_recast, Object.recast, Table.recast_dataProps, Table.names_recast,
        has, Table.get?_recast]
      split
      · apply mapM_option_map
        intro name _
        cases (dataProps (h.object r).props).get? name <;>
          cases (dataProps (h.object q).props).get? name <;> rfl
      · rfl
    | _ => rfl

theorem Table.All.dataProps {P : Value → Prop} {t : Table Value} (ht : t.All P) :
    (dataProps t).All P := fun e he => ht e (List.mem_filter.mp he).1

theorem mem_of_mapM_option {α β : Type} {f : α → Option β} {P : β → Prop} (xs : List α)
    (good : ∀ x ∈ xs, ∀ y, f x = some y → P y) {ys : List β} (made : xs.mapM f = some ys) :
    ∀ y ∈ ys, P y := by
  induction xs generalizing ys with
  | nil =>
    cases made
    exact fun y hy => (List.not_mem_nil hy).elim
  | cons x xs ih =>
    rw [List.mapM_cons] at made
    obtain ⟨y, hy, made⟩ := Option.bind_eq_some_iff.mp made
    obtain ⟨zs, hzs, made⟩ := Option.bind_eq_some_iff.mp made
    cases made
    exact List.forall_mem_cons.mpr ⟨good x List.mem_cons_self y hy,
      ih (fun z hz => good z (List.mem_cons_of_mem x hz)) hzs⟩

/-- The parts of cells of the realm are such as it may hold. -/
theorem Realm.Tame.parts? (t : R.Tame h) {x y : Cell} (hx : R.HoldsCell x) (hy : R.HoldsCell y)
    {pairs : List (Value × Value)} (found : h.parts? x y = some pairs) :
    ∀ p ∈ pairs, R.Holds p.1 ∧ R.Holds p.2 := by
  cases x with
  | array r =>
    cases y with
    | array q =>
      simp only [Heap.parts?, Option.ite_none_right_eq_some, Option.some.injEq] at found
      obtain ⟨-, rfl⟩ := found
      intro p hp
      obtain ⟨left, right⟩ := List.of_mem_zip hp
      exact ⟨t.array hx _ (Array.mem_toList_iff.mp left), t.array hy _ (Array.mem_toList_iff.mp right)⟩
    | _ => cases found
  | dict r =>
    cases y with
    | dict q =>
      simp only [Heap.parts?, Option.ite_none_right_eq_some] at found
      refine mem_of_mapM_option _ (fun e he p hp => ?_) found.2
      obtain ⟨w, hw, rfl⟩ := Option.map_eq_some_iff.mp hp
      exact ⟨(t.dict hx).values _ (Array.mem_toList_iff.mp (List.of_mem_zip he).2), (t.dict hy).get? hw⟩
    | _ => cases found
  | record r =>
    cases y with
    | record q =>
      simp only [Heap.parts?, Option.ite_none_right_eq_some] at found
      refine mem_of_mapM_option _ (fun field _ p hp => ?_) found.2
      cases hp
      exact ⟨Realm.holds_getD fun _ => (t.record hx).get?, Realm.holds_getD fun _ => (t.record hy).get?⟩
    | _ => cases found
  | object r =>
    cases y with
    | object q =>
      simp only [Heap.parts?, Option.ite_none_right_eq_some] at found
      refine mem_of_mapM_option _ (fun name _ p hp => ?_) found.2
      obtain ⟨v, hv, hp⟩ := Option.bind_eq_some_iff.mp hp
      obtain ⟨w, hw, hp⟩ := Option.bind_eq_some_iff.mp hp
      cases hp
      exact ⟨(t.object hx).dataProps.get? hv, (t.object hy).dataProps.get? hw⟩
    | _ => cases found

theorem foldlM_option_congr {α β : Type} {f g : β → α → Option β} (xs : List α)
    (same : ∀ x ∈ xs, ∀ s, f s x = g s x) (s : β) : xs.foldlM f s = xs.foldlM g s := by
  induction xs generalizing s with
  | nil => rfl
  | cons x xs ih =>
    rw [List.foldlM_cons, List.foldlM_cons, same x List.mem_cons_self]
    cases g s x with
    | none => rfl
    | some s' => exact ih (fun y hy => same y (List.mem_cons_of_mem x hy)) s'

theorem compareTo_recast (t : R.Tame h) (n : Nat) {a b : Value} (ha : R.Holds a) (hb : R.Holds b)
    (seen : Seen) :
    (h.recast R.recast).compareTo n (a.recast R.recast) (b.recast R.recast) seen =
      h.compareTo n a b seen := by
  induction n generalizing a b seen with
  | zero => rfl
  | succ n ih =>
    simp only [Heap.compareTo, Value.cell?_recast]
    cases hx : a.cell? with
    | none =>
      cases hy : b.cell? with
      | none => simp only [equalLeaves_recast ha hb]
      | some y => rfl
    | some x =>
      cases hy : b.cell? with
      | none => rfl
      | some y =>
        simp only [Heap.parts?_recast]
        split
        · rfl
        · cases found : h.parts? x y with
          | none => rfl
          | some pairs =>
            -- Every pair of parts is compared in turn, and its parts are held as well.
            have held := t.parts? (Realm.holdsCell_of ha hx) (Realm.holdsCell_of hb hy) found
            simp only [Option.map_some, List.foldlM_map]
            exact foldlM_option_congr pairs (fun p hp s => ih (held p hp).1 (held p hp).2 s) _

theorem equal_recast (t : R.Tame h) {a b : Value} (ha : R.Holds a) (hb : R.Holds b) :
    (h.recast R.recast).equal (a.recast R.recast) (b.recast R.recast) = h.equal a b := by
  rw [Heap.equal, Heap.comparables_recast, compareTo_recast t _ ha hb, Heap.equal]

/-! ## Operators -/

theorem turns_binaryOp (op : BinaryOp) {l r : Value} (hl : R.Holds l) (hr : R.Holds r) :
    HeapOp.Turns R h (binaryOp op l r) (binaryOp op (l.recast R.recast) (r.recast R.recast)) := by
  have compared : ∀ op, HeapOp.Turns R h
      (get >>= fun h => (liftM (compareValues h op l r) : HeapOp Value))
      (get >>= fun h => (liftM (compareValues h op (l.recast R.recast) (r.recast R.recast)) :
        HeapOp Value)) := by
    intro op
    refine .get_bind fun _ => ?_
    rw [Heap.compareValues_recast]
    exact .leaf (.compareValues h op l r)
  cases op with
  | eq =>
    refine .get_bind fun t => ?_
    rw [equal_recast t hl hr]
    exact .pure trivial
  | ne =>
    refine .get_bind fun t => ?_
    rw [equal_recast t hl hr]
    exact .pure trivial
  | lt => exact compared .lt
  | le => exact compared .le
  | gt => exact compared .gt
  | ge => exact compared .ge
  | add => exact turns_arithmetic .add hl hr
  | sub => exact turns_arithmetic .sub hl hr
  | mul => exact turns_arithmetic .mul hl hr
  | div => exact turns_arithmetic .div hl hr
  | intDiv => exact turns_arithmetic .intDiv hl hr
  | mod => exact turns_arithmetic .mod hl hr
  | pow => exact turns_arithmetic .pow hl hr
  | and => exact turns_arithmetic .and hl hr
  | or => exact turns_arithmetic .or hl hr

/-! ## Conversions -/

theorem turns_toArray {v : Value} (hv : R.Holds v) :
    HeapOp.Turns R h (Builtins.toArray v) (Builtins.toArray (v.recast R.recast)) := by
  have refused : HeapOp.Turns R h
      (get >>= fun h => (throw (.type s!"'{h.typeName v}' object is not iterable") : HeapOp Value))
      (get >>= fun h => (throw (.type s!"'{h.typeName (v.recast R.recast)}' object is not iterable") :
        HeapOp Value)) := by
    refine .get_bind fun _ => ?_
    rw [Heap.typeName_recast]
    exact .fail (.of rfl)
  cases v with
  | array r => exact .ofState (turns_copy hv)
  | dict r =>
    refine .get_bind fun t => .ofState ?_
    rw [Heap.dict_recast, Dictionary.keys_recast]
    exact .newArray (t.keys hv)
  | string s =>
    have leaves : ∀ v ∈ (Builtins.characters s).toArray, R.Holds v := by
      intro v hv
      obtain ⟨c, -, rfl⟩ := List.mem_map.mp (Array.mem_toList_iff.mpr hv)
      trivial
    have made := Turns.newArray (h := h) leaves
    have same : (Builtins.characters s).toArray.map (Value.recast R.recast) =
        (Builtins.characters s).toArray := by
      rw [List.map_toArray, Builtins.characters, List.map_map]
      rfl
    rw [same] at made
    exact .ofState made
  | _ => exact refused

theorem Realm.Tame.pair? (t : R.Tame h) {v : Value} (hv : R.Holds v) {p : Value × Value}
    (found : Builtins.pair? h v = some p) : R.Holds p.1 ∧ R.Holds p.2 := by
  cases v with
  | array r =>
    have held := t.array hv
    simp only [Builtins.pair?] at found
    split at found
    next k v list =>
      cases found
      have mem : ∀ u ∈ (h.array r).toList, R.Holds u := fun u hu =>
        held u (Array.mem_toList_iff.mp hu)
      rw [list] at mem
      exact ⟨mem k List.mem_cons_self, mem v (List.mem_cons_of_mem k List.mem_cons_self)⟩
    · cases found
  | _ => cases found

theorem turns_addPairs (i : Nat) {d : Dictionary} (hd : d.All R.Holds) {vs : List Value}
    (hv : ∀ v ∈ vs, R.Holds v) (h : Heap) :
    HeapOp.Turns R h (Builtins.addPairs i d vs)
      (Builtins.addPairs i (d.recast R.recast) (vs.map (Value.recast R.recast))) := by
  induction vs generalizing i d h with
  | nil => exact .pure hd
  | cons e vs ih =>
    refine .get_bind fun t => ?_
    rw [Heap.pair?_recast]
    cases found : Builtins.pair? h e with
    | none => exact .fail (.of rfl)
    | some p =>
      obtain ⟨hk, hw⟩ := t.pair? (hv e List.mem_cons_self) found
      refine (HeapOp.Turns.ofState (turns_copy hw)).bind fun c h₁ hc => ?_
      have inserted := Dictionary.recast_insert? (ρ := R.recast) d p.1 c
      cases into : d.insert? p.1 c with
      | none =>
        rw [into] at inserted
        simp only [Carried.carry]
        rw [inserted]
        refine .get_bind fun _ => ?_
        rw [Heap.typeName_recast]
        exact .fail (.of rfl)
      | some d' =>
        rw [into] at inserted
        simp only [Carried.carry]
        rw [inserted]
        exact ih (i + 1) (hd.insert? hc into) (fun v hmem => hv v (List.mem_cons_of_mem e hmem)) h₁

theorem turns_toDict {v : Value} (hv : R.Holds v) :
    HeapOp.Turns R h (Builtins.toDict v) (Builtins.toDict (v.recast R.recast)) := by
  have refused : HeapOp.Turns R h
      (get >>= fun h => (throw (.type s!"cannot convert '{h.typeName v}' to Dictionary") :
        HeapOp Value))
      (get >>= fun h => (throw (.type s!"cannot convert '{h.typeName (v.recast R.recast)}' to Dictionary") :
        HeapOp Value)) := by
    refine .get_bind fun _ => ?_
    rw [Heap.typeName_recast]
    exact .fail (.of rfl)
  cases v with
  | dict r => exact .ofState (turns_copy hv)
  | array r =>
    refine .get_bind fun t => ?_
    rw [Heap.array_recast, Array.toList_map]
    have added := turns_addPairs (R := R) 0 Dictionary.All.empty
      (fun v hmem => t.array hv v (Array.mem_toList_iff.mp hmem)) h
    rw [Dictionary.recast_empty] at added
    exact added.bind fun d h₁ hd => .ofState (.newDict hd)
  | _ => exact refused

/-! ## Elements -/

theorem HeapOp.Turns.modify {f g : Heap → Heap} (tame : R.Tame h → R.Tame (f h))
    (kept : R.marks.Kept h (f h)) (same : g (h.recast R.recast) = (f h).recast R.recast) :
    HeapOp.Turns R h (modify f : HeapOp PUnit) (modify g : HeapOp PUnit) :=
  fun t => ⟨tame t, kept, trivial, by
    change (Except.ok PUnit.unit, g (h.recast R.recast)) = _
    rw [same]
    rfl⟩

theorem common_position {type what : String} {key : Value} {length : Nat} {t : Trouble}
    (h : position type key length what = .error t) : t.Common := by
  rw [position.eq_def] at h
  split at h
  next => cases h; exact .of rfl
  next n _ =>
    generalize (if n < 0 then n + (length : Int) else n) = p at h
    dsimp only at h
    split at h
    next => cases h; exact .of rfl
    next => cases h

theorem turns_setItem {container key v : Value} (hc : R.Holds container) (hv : R.Holds v) :
    HeapOp.Turns R h (Heap.setItem container key v)
      (Heap.setItem (container.recast R.recast) (key.recast R.recast) (v.recast R.recast)) := by
  refine .get_bind fun _ => ?_
  have refused : HeapOp.Turns R h
      (throw (.type s!"'{h.typeName container}' object does not support item assignment") :
        HeapOp PUnit)
      (throw (.type s!"'{(h.recast R.recast).typeName (container.recast R.recast)}' object does not support item assignment")) := by
    rw [Heap.typeName_recast]
    exact .fail (.of rfl)
  cases container with
  | array r =>
    simp only [Value.recast_array, Heap.slots_recast, Heap.typeName_recast, Heap.position_recast,
      Slots.recast, Slots.size_map]
    cases hp : position (h.typeName key) key (h.slots r).size "array" with
    | error e => exact .fail (common_position hp)
    | ok p =>
      refine .modify (fun t => t.modifyArray r fun s hs => hs.set hv)
        { Marks.Kept.refl R.marks h with arrays := Store.kept_modify hc _ } ?_
      exact (Heap.recast_modifyArray (f := (·.set p v)) (g := (·.set p (v.recast R.recast))) h r
        fun s => Slots.map_set s p v).symm
  | dict r =>
    simp only [Value.recast_dict, Heap.typeName_recast, Value.keyForm_recast]
    split
    · exact HeapOp.Turns.fail (.of rfl)
    · refine .modify (fun t => t.modifyDict r fun d hd => hd.insert hv)
        { Marks.Kept.refl R.marks h with dicts := Store.kept_modify hc _ } ?_
      exact (Heap.recast_modifyDict (f := (·.insert key v))
        (g := (·.insert (key.recast R.recast) (v.recast R.recast))) h r
        fun d => Dictionary.recast_insert d key v).symm
  | _ => exact refused

/-! ## Instances -/

theorem Realm.holds_rebind {c : ClassRef} {o : ObjectRef} (ho : R.marks.objects ≤ o.index)
    {v : Value} (hv : R.Holds v) : R.Holds (Run.rebind c o v) := by
  cases v with
  | subroutine f =>
    simp only [Run.rebind]
    split
    · refine ⟨R.bound f _ hv.code, hv.scope, fun owner howner => ?_⟩
      cases howner
      exact ho
    · exact hv
  | _ => exact hv

theorem Value.recast_rebind (ρ : Recast) (c : ClassRef) (o : ObjectRef) (v : Value) :
    Run.rebind c o (v.recast ρ) = (Run.rebind c o v).recast ρ := by
  cases v with
  | subroutine f =>
    simp only [Value.recast_subroutine, Run.rebind, ρ.this]
    split
    · exact congrArg Value.subroutine (ρ.bound f _).symm
    · rfl
  | _ => rfl

theorem turns_newInstance {c : ClassRef} (hc : R.marks.classes ≤ c.index) :
    Turns R h (Run.newInstance c) (Run.newInstance c) := by
  intro t
  have copied := turns_copyTable (h.classType c).props (t.classType hc) h t
  generalize hp : Heap.copyTable (h.classType c).props h = p at copied
  obtain ⟨props, h₁⟩ := p
  obtain ⟨tame, kept, good, same⟩ := copied
  have room : R.marks.objects ≤ h₁.objects.size := tame.objects.size
  have left : Run.newInstance c h = ((h₁.newObject ⟨c, []⟩).1,
      (h₁.newObject ⟨c, []⟩).2.modifyObject ⟨h₁.objects.size⟩ fun x =>
        { x with props := props.map fun e => (e.1, Run.rebind c ⟨h₁.objects.size⟩ e.2) }) := by
    have run : (Heap.copyTable (h.classType c).props).run h = (props, h₁) := hp
    simp only [Run.newInstance, run]
    rfl
  have right : Run.newInstance c (h.recast R.recast) =
      (((h₁.recast R.recast).newObject ⟨c, []⟩).1,
        ((h₁.recast R.recast).newObject ⟨c, []⟩).2.modifyObject ⟨h₁.objects.size⟩ fun x =>
          { x with props := (props.recast R.recast).map fun e =>
              (e.1, Run.rebind c ⟨h₁.objects.size⟩ e.2) }) := by
    have run : (Heap.copyTable ((h.recast R.recast).classType c).props).run (h.recast R.recast) =
        (props.recast R.recast, h₁.recast R.recast) := by
      rw [Heap.classType_recast]
      exact same
    have size : (h₁.recast R.recast).objects.size = h₁.objects.size := Array.size_map
    simp only [Run.newInstance, run, ← size]
    rfl
  have props_recast : (props.recast R.recast).map
        (fun e => (e.1, Run.rebind c ⟨h₁.objects.size⟩ e.2)) =
      Table.recast R.recast (props.map fun e => (e.1, Run.rebind c ⟨h₁.objects.size⟩ e.2)) := by
    simp only [Table.recast, List.map_map]
    congr 1
    funext e
    exact congrArg (Prod.mk e.1) (Value.recast_rebind R.recast c _ e.2)
  have made : ((h₁.recast R.recast).newObject ⟨c, []⟩) =
      ((h₁.newObject ⟨c, []⟩).1, (h₁.newObject ⟨c, []⟩).2.recast R.recast) :=
    Heap.recast_newObject h₁ ⟨c, []⟩
  rw [left, right]
  refine ⟨?_, ?_, room, ?_⟩
  · refine (tame.newObject Table.All.nil).modifyObject _ fun o _ e he => ?_
    obtain ⟨e', he', rfl⟩ := List.mem_map.mp he
    exact Realm.holds_rebind room (good e' he')
  · have pushed : R.marks.Kept h₁ (h₁.newObject ⟨c, []⟩).2 :=
      { Marks.Kept.refl R.marks h₁ with objects := Store.kept_push room _ }
    exact (kept.trans pushed).trans
      { Marks.Kept.refl R.marks _ with objects := Store.kept_modify room _ }
  · rw [made]
    refine congrArg (Prod.mk _) (Heap.recast_modifyObject _ _ fun o => ?_).symm
    simp only [Object.recast, props_recast]

/-! ## Plain data -/

mutual

theorem turns_ofPlain : ∀ (d : Datum) (h : Heap), Turns R h (Heap.ofPlain d) (Heap.ofPlain d)
  | .null, _ => .pure (a := Value.none) trivial
  | .bool b, _ => .pure (a := Value.bool b) trivial
  | .int n, _ => .pure (a := Value.int n) trivial
  | .real x, _ => .pure (a := Value.real x) trivial
  | .text s, _ => .pure (a := Value.string s) trivial
  | .list xs, h => by
    simp only [Heap.ofPlain]
    refine (turns_ofPlainItems xs h).bind fun vs h₁ hvs => ?_
    have made := Turns.newArray (R := R) (h := h₁) fun v hv => hvs v (List.mem_toArray.mp hv)
    rw [List.map_toArray] at made
    exact made
  | .object fs, h => by
    simp only [Heap.ofPlain]
    have added := turns_ofPlainFields fs .empty Dictionary.All.empty h
    rw [Dictionary.recast_empty] at added
    exact added.bind fun d h₁ hd => .newDict hd

theorem turns_ofPlainItems : ∀ (xs : List Datum) (h : Heap),
    Turns R h (Heap.ofPlainItems xs) (Heap.ofPlainItems xs)
  | [], _ => .pure (a := ([] : List Value)) fun _ hv => (List.not_mem_nil hv).elim
  | x :: rest, h => by
    simp only [Heap.ofPlainItems]
    refine (turns_ofPlain x h).bind fun v h₁ hv => ?_
    refine (turns_ofPlainItems rest h₁).bind fun vs h₂ hvs => ?_
    exact .pure (a := v :: vs) (List.forall_mem_cons.mpr ⟨hv, hvs⟩)

theorem turns_ofPlainFields : ∀ (fs : List (String × Datum)) (d : Dictionary),
    d.All R.Holds → ∀ h : Heap,
      Turns R h (Heap.ofPlainFields d fs) (Heap.ofPlainFields (d.recast R.recast) fs)
  | [], _, hd, _ => .pure hd
  | (k, x) :: rest, d, hd, h => by
    simp only [Heap.ofPlainFields]
    refine (turns_ofPlain x h).bind fun v h₁ hv => ?_
    have added := turns_ofPlainFields rest (d.insert (.string k) v) (hd.insert hv) h₁
    rw [Dictionary.recast_insert] at added
    exact added

end

end Pseudocode
