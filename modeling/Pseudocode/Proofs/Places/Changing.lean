import Pseudocode.Builtin.Container
import Pseudocode.Proofs.Execution.Storing
import Pseudocode.Proofs.Places.Mirror
/-
# `Proofs.Places.Changing` — steps that change the world, mirrored

Every step that execution is made of does in the world renamed what it does in the
world.  Frames come and go with the source unit they stand in, so an action in another
frame is judged from another stand.
-/
namespace Pseudocode

variable {ℓ : Likeness} {S : Stand ℓ} {w w' : World} {p q : Prop}

/-! ## New values -/

namespace Mirrors

theorem changeHeap {f g : Heap → Heap}
    (tame : (S.realm w).Tame w.heap → (S.realm w).Tame (f w.heap))
    (kept : S.marks.Kept w.heap (f w.heap))
    (same : g (w.heap.recast ℓ.naming.recast) = (f w.heap).recast ℓ.naming.recast) :
    Mirrors S w p (Eval.changeHeap f) (Eval.changeHeap g) := by
  refine .onHeap fun _ t => ⟨tame t, kept, trivial, ?_⟩
  exact congrArg (Prod.mk ()) same

theorem copy {v : Value} (hv : (S.realm w).Holds v) :
    Mirrors S w p (Eval.copy v) (Eval.copy (v.recast ℓ.naming.recast)) := by
  cases v with
  | array r => exact .onHeap fun _ => turns_copy hv
  | dict r => exact .onHeap fun _ => turns_copy hv
  | _ => exact .pure hv

theorem newArray {vs : List Value} (hv : ∀ v ∈ vs, (S.realm w).Holds v) :
    Mirrors S w p (Eval.newArray vs) (Eval.newArray (vs.map (Value.recast ℓ.naming.recast))) := by
  refine .onHeap fun _ => ?_
  have made := Turns.newArray (R := S.realm w) (h := w.heap) fun v hmem =>
    hv v (List.mem_toArray.mp hmem)
  rwa [List.map_toArray] at made

theorem newDict {d : Dictionary} (hd : d.All (S.realm w).Holds) :
    Mirrors S w p (Eval.newDict d) (Eval.newDict (d.recast ℓ.naming.recast)) :=
  .onHeap fun _ => .newDict hd

theorem newRecordType (type : RecordType) :
    Mirrors S w p (Eval.onHeap (Heap.newRecordType type)) (Eval.onHeap (Heap.newRecordType type)) :=
  .onHeap fun _ t => ⟨t.newRecordType type, { Marks.Kept.refl S.marks w.heap with }, trivial, rfl⟩

theorem newRecord {r : Record} (hr : r.fields.All (S.realm w).Holds) :
    Mirrors S w p (Eval.onHeap (Heap.newRecord r))
      (Eval.onHeap (Heap.newRecord (r.recast ℓ.naming.recast))) :=
  .onHeap fun _ t => ⟨t.newRecord hr,
    { Marks.Kept.refl _ _ with records := Store.kept_push t.records.size _ }, t.records.size,
    Heap.recast_newRecord w.heap r⟩

theorem newClass (name : String) :
    Mirrors S w p (Eval.onHeap (Heap.newClass ⟨name, []⟩)) (Eval.onHeap (Heap.newClass ⟨name, []⟩)) :=
  .onHeap fun _ t => ⟨t.newClass Table.All.nil,
    { Marks.Kept.refl _ _ with classes := Store.kept_push t.classes.size _ }, t.classes.size,
    Heap.recast_newClass w.heap ⟨name, []⟩⟩

theorem newLibrary {l : Library} (hl : l.members.All (S.realm w).Holds) :
    Mirrors S w p (Eval.onHeap (Heap.newLibrary l))
      (Eval.onHeap (Heap.newLibrary (l.recast ℓ.naming.recast))) :=
  .onHeap fun _ t => ⟨t.newLibrary hl,
    { Marks.Kept.refl _ _ with libraries := Store.kept_push t.libraries.size _ }, t.libraries.size,
    Heap.recast_newLibrary w.heap l⟩

theorem childScope (name : String) {parent : ScopeRef} (hp : S.marks.scopes ≤ parent.index) :
    Mirrors S w p (Eval.onHeap (Heap.childScope name parent))
      (Eval.onHeap (Heap.childScope name parent)) := by
  refine .onHeap fun _ t => ?_
  have held : (S.realm w).Encloses ⟨name, [], [], some parent, (w.heap.scope parent).observer⟩ :=
    ⟨Table.All.nil, fun q hq => by cases hq; exact hp⟩
  refine ⟨t.newScope held,
    { Marks.Kept.refl _ _ with scopes := Store.kept_push t.scopes.size _ }, t.scopes.size,
    ?_⟩
  rw [Heap.childScope, Heap.scope_recast]
  exact Heap.recast_newScope w.heap ⟨name, [], [], some parent, (w.heap.scope parent).observer⟩

theorem newBuiltin (name : String) {action : Native} (ha : (S.realm w).Carries action) :
    Mirrors S w p (Eval.newBuiltin name action) (Eval.newBuiltin name action) :=
  .step rfl rfl rfl rfl rfl ha

/-! ## Names -/

theorem tell (e : Option Event) :
    Mirrors S w p (Eval.tell e) (Eval.tell (if ℓ.naming.mutes then none else e)) := by
  cases e with
  | none =>
    rw [ite_self]
    exact .pure (a := ()) trivial
  | some e =>
    split
    next mutes =>
      refine .step (a := ()) rfl (?_ : EStateM.Result.ok () (ℓ.naming.world w) =
        .ok () (ℓ.naming.world { w with events := w.events.push e })) rfl rfl rfl trivial
      simp only [Renaming.world, mutes, if_true]
    next loud =>
      refine .step (a := ()) rfl (?_ : EStateM.Result.ok () { ℓ.naming.world w with
        events := (ℓ.naming.world w).events.push e } =
          .ok () (ℓ.naming.world { w with events := w.events.push e })) rfl rfl rfl trivial
      simp only [Renaming.world, if_neg loud]

theorem define {s : ScopeRef} (hs : S.marks.scopes ≤ s.index) (name : String) {v : Value}
    (hv : (S.realm w).Holds v) (constant : Bool) :
    Mirrors S w p (Eval.define s name v constant)
      (Eval.define s name (v.recast ℓ.naming.recast) constant) := by
  have bound : Mirrors S w p (Eval.changeHeap (Heap.bind s name v constant))
      (Eval.changeHeap (Heap.bind s name (v.recast ℓ.naming.recast) constant)) :=
    .changeHeap (fun t => t.bind s name hv constant)
      { Marks.Kept.refl _ _ with scopes := Store.kept_modify hs _ }
      (Heap.recast_bind w.heap s name v constant).symm
  refine bound.bind fun _ w₁ _ _ _ => .inHeap ?_
  rw [Heap.event?_recast]
  exact .tell _

theorem assign {s : ScopeRef} (hs : S.marks.scopes ≤ s.index) (name : String) {v : Value}
    (hv : (S.realm w).Holds v) (hp : ¬ p) :
    Mirrors S w p (Eval.assign s name v) (Eval.assign s name (v.recast ℓ.naming.recast)) := by
  refine .inHeap ?_
  rw [Heap.isConstant_recast]
  split
  · exact .fail_bind hp (.of rfl)
  · exact .define hs name hv false

theorem bindSelf {span : Span} (ha : S.Allows p span) (name : String) {v : Value}
    (hv : (S.realm w).Holds v) :
    Mirrors S w p (Eval.bindSelf span name v)
      (Eval.bindSelf (span.moved S.place) name (v.recast ℓ.naming.recast)) :=
  .ready fun hr => .scope (.placed (q := False) ha (.assign hr.row.scope name hv id))

theorem bindCopy {span : Span} (ha : S.Allows p span) (name : String) {v : Value}
    (hv : (S.realm w).Holds v) :
    Mirrors S w p (Eval.bindCopy span name v)
      (Eval.bindCopy (span.moved S.place) name (v.recast ℓ.naming.recast)) :=
  (copy hv).bind fun _ _ _ _ hu => .bindSelf ha name hu

/-! ## Input and output -/

theorem write (s : String) : Mirrors S w p (Eval.write s) (Eval.write s) :=
  .step rfl rfl rfl rfl rfl trivial

theorem readLine {span : Span} (ha : S.Allows p span) :
    Mirrors S w p (Eval.readLine span) (Eval.readLine (span.moved S.place)) := by
  refine .look (a := w) (b := ℓ.naming.world w) rfl rfl ?_
  change Mirrors S w p (if w.input.isEmpty then _ else _) (if w.input.isEmpty then _ else _)
  split
  · exact .failAt_bind ha (.of rfl)
  · exact .step (a := Value.string _) rfl rfl rfl rfl rfl trivial

/-! ## Lists -/

theorem mapM {κ α : Type} [Carried α] {f g : κ → Eval α} (ks : List κ)
    (hf : ∀ k ∈ ks, ∀ w', S.Ready w' → S.Steps w w' → Mirrors S w' p (f k) (g k)) :
    Mirrors S w p (ks.mapM f) (ks.mapM g) := by
  induction ks generalizing w with
  | nil => exact .pure (a := ([] : List α)) fun a ha => (List.not_mem_nil ha).elim
  | cons k ks ih =>
    rw [List.mapM_cons, List.mapM_cons]
    refine .ready fun hr => (hf k List.mem_cons_self w hr (.refl S w)).bind
      fun a w₁ _ steps ha => ?_
    refine (ih fun j hj w' ready more => hf j (List.mem_cons_of_mem k hj) w' ready
      (steps.trans more)).bind fun as w₂ _ more has => ?_
    exact .pure (a := a :: as) (List.forall_mem_cons.mpr ⟨more.good ha, has⟩)

theorem copies {vs : List Value} (hv : ∀ v ∈ vs, (S.realm w).Holds v) :
    Mirrors S w p (vs.mapM Eval.copy)
      ((vs.map (Value.recast ℓ.naming.recast)).mapM Eval.copy) := by
  rw [List.mapM_map]
  exact .mapM vs fun v hmem w' _ steps => .copy (steps.grows.holds (hv v hmem))

end Mirrors

/-- A list of texts is carried along as it is. -/
theorem Carried.carry_strings (ρ : Recast) (ss : List String) : Carried.carry ρ ss = ss :=
  List.map_id ss

/-! ## Other interpreters and other frames -/

section Standing

variable {α : Type} [Carried α] {x y : Eval α}

omit [Carried α] in
theorem Stand.Stops.beside {T : Stand ℓ} {r : EStateM.Result Failure World α} (h : T.Stops w r)
    (course : S.course = T.course) : S.Stops w r := by
  cases h with
  | fuel => exact .fuel
  | heard h => exact .heard h
  | tripped expected => exact .tripped (course ▸ expected)

/-- An action on another interpreter is judged from there. -/
theorem Mirrors.on {id : InterpreterId} (home : (S.realm w).Home id)
    (hx : Mirrors (S.on id (w.row id.index).frame.origin) w p x y) :
    Mirrors S w p (Eval.on id x) (Eval.on id y) := by
  intro hr
  have back : ∀ w', (S.on id (w.row id.index).frame.origin).Ready w' →
      (S.on id (w.row id.index).frame.origin).Steps w w' → S.Ready w' := by
    intro w' ready steps
    obtain ⟨old, known⟩ := hr.self
    refine { ready with self := ⟨old, Nat.lt_of_lt_of_le known steps.size⟩, here := ?_ }
    rw [steps.row known]
    exact hr.here
  have ends := hx { hr with self := home, here := rfl }
  change Ends S w p (x (S.on id (w.row id.index).frame.origin).env w)
    (y (S.on id (w.row id.index).frame.origin).env (ℓ.naming.world w))
  generalize x (S.on id (w.row id.index).frame.origin).env w = l at ends
  generalize y (S.on id (w.row id.index).frame.origin).env (ℓ.naming.world w) = k at ends
  cases ends with
  | ok ready steps good =>
    exact .ok (back _ ready steps) ⟨steps.kept, steps.rows, steps.size, steps.units⟩ good
  | fault ready steps alike located =>
    exact .fault (back _ ready steps) ⟨steps.kept, steps.rows, steps.size, steps.units⟩ alike located
  | stopped stops => exact .stopped (stops.beside rfl)

/-- The stand of an action in another frame. -/
def Stand.within (S : Stand ℓ) (o : Origin) : Stand ℓ := { S with here := o }

theorem Stand.realm_setFrame (S : Stand ℓ) (w : World) (id : InterpreterId) (f : Frame) :
    S.realm (w.setFrame id f) = S.realm w := by
  simp only [Stand.realm, Likeness.realm, World.size_setFrame]
  rfl

theorem Stand.Ready.enter (hr : S.Ready w) {f : Frame} (scope : S.marks.scopes ≤ f.scope.index)
    (unit : f.origin.unit < w.nextUnit) (depth : f.depth ≠ 0) :
    (S.within f.origin).Ready (w.setFrame S.self f) := by
  obtain ⟨old, known⟩ := hr.self
  have size : (w.setFrame S.self f).interpreters.size = w.interpreters.size := World.size_setFrame ..
  refine ⟨?_, ?_, ?_, ?_, hr.fresh, hr.units, hr.level, hr.numbered⟩
  · rw [realm_setFrame]
    exact hr.tame
  · exact Store.Young.modify (f := fun i => { i with frame := f }) hr.rows S.self.index
      fun i hi => { hi with
        scope := scope, unit := unit, lexical := fun outside => absurd outside depth }
  · exact ⟨old, Nat.lt_of_lt_of_eq known size.symm⟩
  · change ((w.setFrame S.self f).row S.self.index).frame.origin = f.origin
    rw [World.row_setFrame, if_pos ⟨rfl, known⟩]

/-- Back in its frame, the interpreter stands where it stood. -/
theorem Stand.Ready.leave (hr : S.Ready w) {f : Frame}
    (ready : (S.within f.origin).Ready w') (steps : (S.within f.origin).Steps (w.setFrame S.self f) w') :
    S.Ready (w'.setFrame S.self (w.row S.self.index).frame) ∧
      S.Steps w (w'.setFrame S.self (w.row S.self.index).frame) := by
  obtain ⟨old, known⟩ := hr.self
  have grown : w.interpreters.size ≤ w'.interpreters.size := by
    have := steps.size
    rwa [World.size_setFrame] at this
  have known' : S.self.index < w'.interpreters.size := Nat.lt_of_lt_of_le known grown
  have size : ∀ g, (w'.setFrame S.self g).interpreters.size = w'.interpreters.size :=
    fun g => World.size_setFrame ..
  constructor
  · refine ⟨?_, ?_, ?_, ?_, ready.fresh, ready.units, ready.level, ready.numbered⟩
    · rw [realm_setFrame]
      exact ready.tame
    · -- The row is what it was, but for the frame that is put back.
      refine ⟨?_, fun i x old hx => ?_⟩
      · rw [size]
        exact ready.rows.size
      · change (w'.setFrame S.self (w.row S.self.index).frame).interpreters[i]? = some x at hx
        rw [World.getElem?_setFrame] at hx
        split at hx
        next same =>
          subst same
          have row := steps.rows S.self.index
            (Nat.lt_of_lt_of_eq known (World.size_setFrame ..).symm)
          rw [World.getElem?_setFrame, if_pos rfl] at row
          rw [row, Option.map_map, Array.getElem?_eq_getElem known] at hx
          obtain rfl := Option.some.inj hx
          have stable := hr.row
          rw [World.row, Array.getD_eq_getD_getElem?, Array.getElem?_eq_getElem known] at stable ⊢
          exact { stable with unit := Nat.lt_of_lt_of_le stable.unit steps.units }
        next => exact ready.rows.cells i x old hx
    · exact ⟨old, Nat.lt_of_lt_of_eq known' (size _).symm⟩
    · rw [World.row_setFrame, if_pos ⟨rfl, known'⟩]
      exact hr.here
  · refine ⟨steps.kept, fun i hi => ?_, Nat.le_trans grown (Nat.le_of_eq (size _).symm), steps.units⟩
    have row := steps.rows i (Nat.lt_of_lt_of_eq hi (World.size_setFrame ..).symm)
    rw [World.getElem?_setFrame] at row
    rw [World.getElem?_setFrame, row]
    split
    next same =>
      subst same
      rw [Option.map_map, Array.getElem?_eq_getElem hi, World.row,
        Array.getD_eq_getD_getElem?, Array.getElem?_eq_getElem hi]
      rfl
    next => rfl

theorem Mirrors.withFrame {f : Frame} (scope : S.marks.scopes ≤ f.scope.index)
    (unit : S.Ready w → f.origin.unit < w.nextUnit) (depth : f.depth ≠ 0)
    (hx : Mirrors (S.within f.origin) (w.setFrame S.self f) p x y) :
    Mirrors S w p (Eval.withFrame f x) (Eval.withFrame (ℓ.naming.frame f) y) := by
  intro hr
  have ends := hx (hr.enter scope (unit hr) depth)
  rw [Renaming.world_setFrame] at ends
  have before : Eval.frameIn S.env (ℓ.naming.world w) =
      ℓ.naming.frame (w.row S.self.index).frame := by
    change ((ℓ.naming.world w).row S.self.index).frame = _
    rw [Renaming.row_world]
    rfl
  generalize hl : x (S.within f.origin).env (w.setFrame S.self f) = l at ends
  generalize hk : y (S.within f.origin).env
    ((ℓ.naming.world w).setFrame S.self (ℓ.naming.frame f)) = k at ends
  cases ends with
  | ok ready steps good =>
    obtain ⟨ready', steps'⟩ := hr.leave ready steps
    rw [Eval.withFrame_ok hl, Eval.withFrame_ok hk, before]
    change Ends S w p (.ok _ _) (.ok _ ((ℓ.naming.world _).setFrame S.self _))
    rw [← Renaming.world_setFrame]
    exact .ok ready' steps' (by rw [Stand.realm_setFrame]; exact good)
  | fault ready steps alike located =>
    obtain ⟨ready', steps'⟩ := hr.leave ready steps
    rw [Eval.withFrame_error hl, Eval.withFrame_error hk, before]
    change Ends S w p (.error _ _) (.error _ ((ℓ.naming.world _).setFrame S.self _))
    rw [← Renaming.world_setFrame]
    exact .fault ready' steps' alike located
  | stopped stops =>
    rw [Eval.withFrame_error hl]
    refine .stopped ?_
    cases stops with
    | fuel =>
      rw [Eval.withFrame_error hk, before]
      change S.Stops _ (.error _ ((ℓ.naming.world _).setFrame S.self _))
      rw [← Renaming.world_setFrame]
      exact .fuel
    | heard h => exact .heard h
    | tripped expected =>
      rw [Eval.withFrame_error hk]
      exact .tripped expected

end Standing

end Pseudocode
