import Pseudocode.Builtin.Container
import Pseudocode.Proofs.Execution.Safe
import Pseudocode.Proofs.Ownership.Operation
/-
# `Proofs.Execution.Storing` — the steps that change the heap

New containers that nobody stores yet may hold anything.  What is stored is a copy,
and it is stored right after it was made: `Safe.copyThen` is the one rule for this,
for any action that `Stores` a value.

A name is bound without a check where a scope is new.  That it has no constants is
carried along by `Safe.keeping`, for properties that binding a name does not affect.
-/
namespace Pseudocode

variable {α : Type} {c : Context} {w : World} {E : Fault → Prop}

/-! ## New values -/

/-- A change of the heap that keeps it sound. -/
theorem Safe.onHeap {V : World → α → Prop} {f : Heap → α × Heap}
    (hk : c.Ready w → c.Keeps w.heap (f w.heap).2)
    (hf : c.checked → w.Sound →
      w.extent ≤ (f w.heap).2.extent w.interpreters.size ∧
        (f w.heap).2.Sound w.interpreters.size)
    (hV : c.Ready w → V { w with heap := (f w.heap).2 } (f w.heap).1) :
    Safe c w (Eval.onHeap f) (Eval.onHeap f) V E :=
  .step rfl (fun hr => .heap rfl hf (hk hr)) hV

theorem Eval.copy_eq (v : Value) (env : Env) (w : World) :
    Eval.copy v env w = .ok (Heap.copy v w.heap).1 { w with heap := (Heap.copy v w.heap).2 } := by
  cases v <;> rfl

theorem Safe.copy {v : Value} (hv : c.Good w v) :
    Safe c w (Eval.copy v) (Eval.copy v) c.Good E := by
  have hk : c.checked → w.Sound → Heap.Copied w.interpreters.size w.heap
      [(Heap.copy v w.heap).1] (Heap.copy v w.heap).2 := fun hc hs => hs.copy (hv hc)
  refine .step (Eval.copy_eq v c.env w)
    (fun _ => .heap rfl (fun hc hs => ?_) (.of_careful (.copy v))) fun hr hc => ?_
  · have k := hk hc hs
    exact ⟨Heap.extent_le k.grows.arrays k.grows.dicts _, hs.copied k⟩
  · exact (hk hc (hr.sound hc)).within _ (by simp)

theorem Safe.copies {vs : List Value} (hv : c.AllGood w vs) :
    Safe c w (vs.mapM Eval.copy) (vs.mapM Eval.copy) c.AllGood E :=
  .mapM (V := c.Good) (fun _ _ _ hr h ha => h.good hr ha) vs w fun v hmem _ hr h =>
    .copy (h.good hr (hv v hmem))

theorem Safe.newArray {vs : List Value} (hv : c.AllGood w vs) :
    Safe c w (Eval.newArray vs) (Eval.newArray vs) c.Good E := by
  have g := Heap.Grows.newArray w.heap vs.toArray
  refine .onHeap (fun _ => .of_eq rfl rfl)
    (fun hc hs => ⟨Heap.extent_le g.arrays g.dicts _, hs.newArray fun v hmem => ?_⟩)
    fun _ _ => ((w.heap.adds_newArray vs.toArray).isIn _).mpr (.inr rfl)
  exact hv v (by simpa using hmem) hc

/-- Operations have made the dictionary, and its values refer to what exists. -/
def Context.GoodDict (c : Context) (w : World) (d : Dictionary) : Prop :=
  c.checked → d.All (Value.Within w.extent) ∧ d.Built

theorem Context.goodDict_empty (c : Context) (w : World) : c.GoodDict w .empty :=
  fun _ => ⟨.empty, .empty⟩

theorem Context.GoodDict.insert? {d e : Dictionary} {key value : Value} (hd : c.GoodDict w d)
    (hv : c.Good w value) (made : d.insert? key value = some e) : c.GoodDict w e :=
  fun hc => ⟨(hd hc).1.insert? (hv hc) made, (hd hc).2.insert made⟩

theorem Context.GoodDict.getD_insert? {d : Dictionary} {key value : Value}
    (hd : c.GoodDict w d) (hv : c.Good w value) :
    c.GoodDict w ((d.insert? key value).getD d) := by
  cases made : d.insert? key value with
  | none => exact hd
  | some e => exact hd.insert? hv made

theorem Safe.newDict {d : Dictionary} (hd : c.GoodDict w d) :
    Safe c w (Eval.newDict d) (Eval.newDict d) c.Good E := by
  have g := Heap.Grows.newDict w.heap d
  exact .onHeap (fun _ => .of_scopes rfl fun hc hb => hb.newDict (hd hc).2)
    (fun hc hs => ⟨Heap.extent_le g.arrays g.dicts _, hs.newDict (hd hc).1⟩)
    fun _ _ => ((w.heap.adds_newDict d).isIn _).mpr (.inr rfl)

theorem World.Evolves.goodDict {w' : World} (h : w.Evolves c w') (hr : c.Ready w)
    {d : Dictionary} (hd : c.GoodDict w d) : c.GoodDict w' d :=
  fun hc => (hd hc).imp_left (·.mono fun _ hv => hv.mono (h.sound hc (hr.sound hc)).1)

/-- A change of the heap that leaves the containers and what slots hold. -/
theorem Safe.unheld {V : World → α → Prop} {f : Heap → α × Heap}
    (hk : c.Ready w → c.Keeps w.heap (f w.heap).2)
    (ha : (f w.heap).2.arrays.size = w.heap.arrays.size)
    (hd : (f w.heap).2.dicts.size = w.heap.dicts.size)
    (hp : ∀ p, (f w.heap).2.held? p = w.heap.held? p)
    (hclosed : c.checked → w.heap.Closed w.extent → (f w.heap).2.Closed w.extent)
    (hV : V { w with heap := (f w.heap).2 } (f w.heap).1) :
    Safe c w (Eval.onHeap f) (Eval.onHeap f) V E := by
  have hext : (f w.heap).2.extent w.interpreters.size = w.extent := Heap.extent_congr ha hd _
  refine .onHeap hk (fun hc hs => ⟨hext ▸ Extent.le_refl _, hs.congr ha hd hp ?_⟩) fun _ => hV
  rw [hext]
  exact hclosed hc hs.closed

theorem Safe.newRecordType {t : RecordType} :
    Safe c w (Eval.onHeap (Heap.newRecordType t)) (Eval.onHeap (Heap.newRecordType t))
      (fun _ v => ∃ r, v = .recordType r) E := by
  refine .unheld (fun _ => .of_eq rfl rfl) rfl rfl (fun p => ?_) (fun _ hh => hh.newRecordType t) ⟨_, rfl⟩
  rfl

/-- The scope is there, is not spared, and has no constants. -/
structure Context.Unfixed (c : Context) (w : World) (s : ScopeRef) : Prop where
  lt : s.index < w.heap.scopes.size
  spares : ¬ c.Spares s
  constants : (w.heap.scope s).constants = []

theorem Heap.held?_newScope (h : Heap) {sc : Scope} (hs : sc.bindings = []) (p : Slot) :
    (h.newScope sc).2.held? p = h.held? p := by
  match p with
  | .binding ⟨j⟩ name =>
      simp only [Heap.held?, Heap.content?, Heap.scope, Heap.newScope, Heap.getD_push]
      split
      next hj =>
        subst hj
        simp only [hs, Array.getD_eq_getD_getElem?, Array.getElem?_size, Option.getD_none]
        rfl
      next => rfl
  | .static _ _ | .property _ _ | .field _ _ | .item (.array _) _ | .item (.dict _) _ => rfl

theorem Safe.newScope {s : Heap → Scope} (hs : (s w.heap).bindings = [])
    (hn : (s w.heap).constants = []) :
    Safe c w (Eval.onHeap fun h => h.newScope (s h)) (Eval.onHeap fun h => h.newScope (s h))
      c.Unfixed E := by
  refine .ready fun hr => .unheld (fun _ => .newScope hr.constants _) rfl rfl
    (fun p => w.heap.held?_newScope hs p) (fun _ hh => hh.newScope (hs ▸ Table.All.nil)) ⟨?_, ?_, ?_⟩
  · change w.heap.scopes.size < (w.heap.scopes.push _).size
    rw [Array.size_push]
    exact Nat.lt_succ_self _
  · exact fun h => Nat.not_lt.mpr hr.constants.size h.2
  · exact (congrArg Scope.constants (w.heap.scope_newScope_self _)).trans hn

theorem Safe.newClass {name : String} :
    Safe c w (Eval.onHeap (Heap.newClass ⟨name, []⟩)) (Eval.onHeap (Heap.newClass ⟨name, []⟩))
      Context.Any E := by
  refine .unheld (fun _ => .of_eq rfl rfl) rfl rfl (fun p => ?_) (fun _ hh => hh.newClass Table.All.nil)
    trivial
  match p with
  | .static ⟨j⟩ name =>
      simp only [Heap.held?, Heap.content?, Heap.classType, Heap.newClass, Heap.getD_push]
      split
      next hj =>
        subst hj
        simp only [Array.getD_eq_getD_getElem?, Array.getElem?_size, Option.getD_none]
        rfl
      next => rfl
  | .binding _ _ | .property _ _ | .field _ _ | .item (.array _) _ | .item (.dict _) _ => rfl

theorem Safe.newLibrary {l : Library} (hl : c.checked → l.members.All (Value.Within w.extent)) :
    Safe c w (Eval.onHeap (Heap.newLibrary l)) (Eval.onHeap (Heap.newLibrary l))
      (fun _ v => ∃ r, v = .library r) E := by
  refine .unheld (fun _ => .of_eq rfl rfl) rfl rfl (fun p => ?_) (fun hc hh => hh.newLibrary (hl hc))
    ⟨_, rfl⟩
  match p with
  | .binding _ _ | .static _ _ | .property _ _ | .field _ _ | .item (.array _) _
  | .item (.dict _) _ => rfl

theorem Safe.newBuiltin {name : String} {a : Native} (ha : c.checked → a.Within w.extent) :
    Safe c w (Eval.newBuiltin name a) (Eval.newBuiltin name a) c.Good E :=
  .step rfl (fun _ => .other rfl rfl) fun _ hc => ha hc

/-! ## Storing -/

/-- Started when a copy has been made in the world, the action writes it to a slot
that was there before, unless it does nothing or fails. -/
def Stores (c : Context) (w : World) (v : Value) (x : Eval Unit) (E : Fault → Prop) : Prop :=
  ∀ w₁ : World, w₁.heap.scopes = w.heap.scopes → w₁.interpreters = w.interpreters →
    (∃ f, x c.env w₁ = .error (.fault f) w₁ ∧ E f) ∨
      ∃ w', x c.env w₁ = .ok () w' ∧ w'.interpreters = w₁.interpreters ∧
        c.Keeps w₁.heap w'.heap ∧
        (w'.heap = w₁.heap ∨ ∃ p, (c.checked → p.Of (·.In w.heap)) ∧ w₁.heap.Writes p v w'.heap ∧
          ∀ e, w₁.heap.Closed e → v.Within e → w'.heap.Closed e)

/-- What a store does to a sound heap, once a copy was made for it. -/
theorem Heap.Sound.store {n : Nat} {h h₁ h₂ : Heap} (hs : h.Sound n) {v : Value}
    (k : Heap.Copied n h [v] h₁)
    (hst : h₂ = h₁ ∨ ∃ p : Slot, p.Of (·.In h) ∧ h₁.Writes p v h₂ ∧
      ∀ e, h₁.Closed e → v.Within e → h₂.Closed e) :
    h.extent n ≤ h₂.extent n ∧ h₂.Sound n := by
  rcases hst with rfl | ⟨p, hp, hw, hclosed⟩
  · exact ⟨Heap.extent_le k.grows.arrays k.grows.dicts n, hs.copied k⟩
  · refine ⟨Heap.extent_le (hw.arrays ▸ k.grows.arrays) (hw.dicts ▸ k.grows.dicts) n,
      hs.write k hw hp ?_⟩
    rw [Heap.extent_congr hw.arrays hw.dicts]
    exact hclosed _ k.closed (k.within v (by simp))

/-- A copy is made and stored at once. -/
theorem Safe.copyThen {v : Value} (hv : c.Good w v) {x : Value → Eval Unit}
    (hx : ∀ u, Stores c w u (x u) E) :
    Safe c w (Eval.copy v >>= x) (Eval.copy v >>= x) Context.Any E := by
  intro hr
  refine ⟨.refl c w _, ?_⟩
  rw [Eval.bind_ok (Eval.copy_eq v c.env w)]
  have hkeeps : c.Keeps w.heap (Heap.copy v w.heap).2 := .of_careful (.copy v)
  have k : c.checked → Heap.Copied w.interpreters.size w.heap [(Heap.copy v w.heap).1]
      (Heap.copy v w.heap).2 := fun hc => (hr.sound hc).copy (hv hc)
  rcases hx _ { w with heap := (Heap.copy v w.heap).2 } (Heap.scopes_copy v w.heap) rfl with
    ⟨f, hf, hE⟩ | ⟨w', hok, hi, hk, hst⟩
  · rw [hf]
    refine ⟨.heap rfl (fun hc hs => ?_) hkeeps, hE⟩
    exact hs.store (k hc) (.inl rfl)
  · rw [hok]
    refine ⟨.heap hi (fun hc hs => ?_) (hkeeps.trans hk), trivial⟩
    exact hs.store (k hc) (hst.imp_right fun ⟨p, hp, hw⟩ => ⟨p, hp hc, hw⟩)

/-- What is no container is stored as it is. -/
theorem Safe.store {v : Value} (hv : c.Good w v) (hn : v.container? = none) {x : Eval Unit}
    (hx : Stores c w v x E) : Safe c w x x Context.Any E := by
  intro hr
  refine ⟨.refl c w _, ?_⟩
  rcases hx w rfl rfl with ⟨f, hf, hE⟩ | ⟨w', hok, hi, hk, hst⟩
  · rw [hf]
    exact ⟨.refl c w, hE⟩
  · rw [hok]
    refine ⟨.heap hi (fun hc hs => ?_) hk, trivial⟩
    exact hs.store (.leaf hs.closed hn (hv hc))
      (hst.imp_right fun ⟨p, hp, hw⟩ => ⟨p, hp hc, hw⟩)

/-- Telling an observer changes neither the heap nor the interpreters. -/
theorem Eval.tell_eq (e : Option Event) (env : Env) (w : World) :
    ∃ w', Eval.tell e env w = .ok () w' ∧ w'.heap = w.heap ∧
      w'.interpreters = w.interpreters := by
  cases e with
  | none => exact ⟨w, rfl, rfl, rfl⟩
  | some e => exact ⟨_, rfl, rfl, rfl⟩

theorem Eval.define_eq (s : ScopeRef) (name : String) (v : Value) (constant : Bool) (env : Env)
    (w : World) :
    ∃ w', Eval.define s name v constant env w = .ok () w' ∧
      w'.heap = w.heap.bind s name v constant ∧ w'.interpreters = w.interpreters := by
  have hstep : Eval.changeHeap (Heap.bind s name v constant) env w =
      .ok () { w with heap := w.heap.bind s name v constant } := rfl
  obtain ⟨w', htell, hheap, hi⟩ := Eval.tell_eq ((w.heap.bind s name v constant).event? s name v)
    env { w with heap := w.heap.bind s name v constant }
  exact ⟨w', (Eval.bind_ok hstep _).trans ((Eval.inHeap_bind ..).trans htell), hheap, hi⟩

theorem Eval.assign_constant {s : ScopeRef} {name : String} {w : World}
    (h : w.heap.isConstant s name = true) (v : Value) (env : Env) :
    Eval.assign s name v env w = .error (.fault (.unplaced (.constant name))) w := by
  have hlook : (Eval.inHeap fun h => h.isConstant s name) env w =
      .ok (w.heap.isConstant s name) w := rfl
  rw [Eval.assign, Eval.bind_ok hlook, if_pos h]
  rfl

theorem Eval.assign_eq_define {s : ScopeRef} {name : String} {w : World}
    (h : w.heap.isConstant s name = false) (v : Value) (env : Env) :
    Eval.assign s name v env w = Eval.define s name v false env w := by
  have hlook : (Eval.inHeap fun h => h.isConstant s name) env w =
      .ok (w.heap.isConstant s name) w := rfl
  rw [Eval.assign, Eval.bind_ok hlook, if_neg (by rw [h]; exact Bool.false_ne_true)]

namespace Stores

variable {v : Value}

/-- What a binding does, if nothing is done that the context forbids. -/
theorem of_bind {s : ScopeRef} {name : String} {constant : Bool} {w₁ : World}
    (hk : c.Keeps w₁.heap (w₁.heap.bind s name v constant)) :
    ∃ w', Eval.define s name v constant c.env w₁ = .ok () w' ∧ w'.interpreters = w₁.interpreters ∧
      c.Keeps w₁.heap w'.heap ∧
      (w'.heap = w₁.heap ∨ ∃ p, (c.checked → p.Of (·.In w.heap)) ∧ w₁.heap.Writes p v w'.heap ∧
        ∀ e, w₁.heap.Closed e → v.Within e → w'.heap.Closed e) := by
  obtain ⟨w', hdefine, hheap, hi⟩ := Eval.define_eq s name v constant c.env w₁
  rw [← hheap] at hk
  refine ⟨w', hdefine, hi, hk, .inr ⟨.binding s name, fun _ => Slot.of_root rfl, ?_, ?_⟩⟩
  · rw [hheap]
    exact w₁.heap.writes_bind s name v constant
  · intro e hh hv
    rw [hheap]
    exact hh.modifyScope s fun _ hs => hs.put hv

theorem isConstant_congr {h h' : Heap} (he : h'.scopes = h.scopes) (s : ScopeRef) (name : String) :
    h'.isConstant s name = h.isConstant s name := by
  rw [Heap.isConstant, Heap.isConstant, Heap.scope_congr he]

theorem define {s : ScopeRef} {name : String} (hs : ¬ c.Spares s)
    (hn : w.heap.isConstant s name = false) (constant : Bool) :
    Stores c w v (Eval.define s name v constant) E := by
  intro w₁ hscopes _
  rw [← isConstant_congr hscopes] at hn
  exact .inr (of_bind (.bind hs hn v constant))

theorem assign {s : ScopeRef} {name : String} (hs : ¬ c.Spares s ∨ c.exposed s name)
    (hE : ∀ t, E (.unplaced t)) : Stores c w v (Eval.assign s name v) E := by
  intro w₁ _ _
  cases hc : w₁.heap.isConstant s name with
  | true => exact .inl ⟨_, Eval.assign_constant hc v c.env, hE _⟩
  | false =>
      rw [Eval.assign_eq_define hc]
      refine .inr (of_bind ?_)
      exact hs.elim (fun h => .bind h hc v false) fun h => .bind_exposed h hc v

theorem placed {x : Eval Unit} (hx : Stores c w v x E) (span : Span) :
    Stores c w v (Eval.placed span x) Catchable := by
  intro w₁ hscopes hi
  rcases hx w₁ hscopes hi with ⟨f, hf, -⟩ | ⟨w', hok, hrest⟩
  · obtain ⟨g, hg, hcatch⟩ := Eval.place_eq span f c.env w₁
    left
    refine ⟨g, ?_, hcatch⟩
    exact (Eval.tryCatch_error hf _).trans (Eval.bind_ok hg _)
  · exact .inr ⟨w', Eval.tryCatch_ok hok _, hrest⟩

theorem bindSelf (hst : c.Stands w) (span : Span) (name : String) :
    Stores c w v (Eval.bindSelf span name v) Catchable := by
  intro w₁ hscopes hi
  have hst₁ : c.Stands w₁ := by rwa [Context.Stands, World.row, hi]
  exact (assign (E := AnyFault) (.inl hst₁) fun _ => trivial).placed span w₁ hscopes hi

theorem static (r : ClassRef) (name : String) :
    Stores c w v (Eval.setProperty (.classType r) name v) E :=
  fun w₁ _ _ => .inr ⟨_, rfl, rfl, .of_eq rfl rfl, .inr ⟨.static r name, fun _ => Slot.of_root rfl,
    w₁.heap.writes_static r name v, fun _ hh hv => hh.modifyClass r fun _ hc => hc.put hv⟩⟩

theorem setProperty {container : Value} {name : String}
    (ho : ∀ m s, container = .module m s → ¬ c.Spares s ∨ c.exposed s name)
    (hE : ∀ t, E (.unplaced t)) : Stores c w v (Eval.setProperty container name v) E := by
  intro w₁ hscopes hi
  cases container with
  | object r =>
      exact .inr ⟨_, rfl, rfl, .of_eq rfl rfl, .inr ⟨.property r name, fun _ => Slot.of_root rfl,
        w₁.heap.writes_property r name v, fun e hh hv => hh.modifyObject r fun _ ho => ho.put hv⟩⟩
  | classType r => exact static r name w₁ hscopes hi
  | record r =>
      simp only [Eval.setProperty]
      rw [Eval.bind_ok (a := w₁.heap.recordType (w₁.heap.record r).type) rfl]
      split
      · exact .inr ⟨_, rfl, rfl, .of_eq rfl rfl, .inr ⟨.field r name, fun _ => Slot.of_root rfl,
          w₁.heap.writes_field r name v, fun e hh hv => hh.modifyRecord r fun _ hq => hq.put hv⟩⟩
      · exact .inl ⟨_, rfl, hE _⟩
  | module m s => exact assign (ho m s rfl) hE w₁ hscopes hi
  | _ => exact .inl ⟨_, rfl, hE _⟩

/-- What writing an element can do. -/
theorem setItem_cases (container key v : Value) (h : Heap) :
    (∃ t, (Heap.setItem container key v).run h = (.error t, h)) ∨
    (∃ r p, container = .array r ∧
      (Heap.setItem container key v).run h = (.ok (), h.modifyArray r (·.set p v))) ∨
    ∃ r, container = .dict r ∧ key.keyForm ≠ .unhashable ∧
      (Heap.setItem container key v).run h = (.ok (), h.modifyDict r (·.insert key v)) := by
  cases container with
  | array r =>
      have hlift := HeapOp.run_lift (h := h) (position (h.typeName key) key (h.slots r).size "array")
      rw [Heap.setItem, HeapOp.run_get_bind]
      dsimp only
      cases hp : position (h.typeName key) key (h.slots r).size "array" with
      | error t =>
          rw [hp] at hlift
          exact .inl ⟨t, HeapOp.run_bind_error hlift _⟩
      | ok p =>
          rw [hp] at hlift
          exact .inr (.inl ⟨r, p, rfl, HeapOp.run_bind_ok hlift _⟩)
  | dict r =>
      rw [Heap.setItem, HeapOp.run_get_bind]
      dsimp only
      split
      · exact .inl ⟨_, rfl⟩
      next hk => exact .inr (.inr ⟨r, rfl, hk, rfl⟩)
  | _ => exact .inl ⟨_, rfl⟩

/-- A change in place that finds nothing to change. -/
theorem modify_of_le {κ : Type} {a : Array κ} {i : Nat} (hi : a.size ≤ i) (f : κ → κ) :
    a.modify i f = a := by
  apply Array.ext_getElem?
  intro j
  rw [Array.getElem?_modify]
  split
  next hij =>
    subst hij
    simp [Array.getElem?_eq_none hi]
  next => rfl

theorem setItem (span : Span) {container : Value} (key : Value)
    (hin : c.checked → ∀ d, container.container? = some d → d.In w.heap) :
    Stores c w v (Eval.ofHeapOpAt span (Heap.setItem container key v)) Catchable := by
  intro w₁ _ _
  have hstep : ∀ r h', (Heap.setItem container key v).run w₁.heap = (r, h') →
      Eval.onHeap (Heap.setItem container key v).run c.env w₁ = .ok r { w₁ with heap := h' } := by
    intro r h' hrun
    change EStateM.Result.ok ((Heap.setItem container key v).run w₁.heap).1
      { w₁ with heap := ((Heap.setItem container key v).run w₁.heap).2 } = _
    rw [hrun]
  rcases setItem_cases container key v w₁.heap with
    ⟨t, hrun⟩ | ⟨r, p, rfl, hrun⟩ | ⟨r, rfl, hk, hrun⟩
  · exact .inl ⟨_, Eval.bind_ok (hstep _ _ hrun) _, rfl⟩
  · refine .inr ⟨_, Eval.bind_ok (hstep _ _ hrun) _, rfl, .of_eq rfl rfl, ?_⟩
    by_cases hr : r.index < w₁.heap.arrays.size
    · exact .inr ⟨.item (.array r) p, fun hb d hd => by cases hd; exact hin hb _ rfl,
        w₁.heap.writes_set r hr p v, fun e hh hv => hh.modifyArray r fun _ hs => hs.set hv⟩
    · left
      simp only [Heap.modifyArray, modify_of_le (Nat.not_lt.mp hr)]
  · refine .inr ⟨_, Eval.bind_ok (hstep _ _ hrun) _, rfl, .of_scopes rfl fun _ hb =>
      hb.modifyDict r fun _ hd => hd.insert_of_key hk v, ?_⟩
    by_cases hr : r.index < w₁.heap.dicts.size
    · exact .inr ⟨.item (.dict r) _, fun hb d hd => by cases hd; exact hin hb _ rfl,
        w₁.heap.writes_insert r hr hk, fun e hh hv => hh.modifyDict r fun _ hd => hd.insert hv⟩
    · left
      simp only [Heap.modifyDict, modify_of_le (Nat.not_lt.mp hr)]

theorem push {a : ArrayRef} (hin : c.checked → a.index < w.heap.arrays.size) :
    Stores c w v (Eval.changeHeap (Heap.modifyArray a (·.push v))) E := by
  intro w₁ _ _
  refine .inr ⟨_, rfl, rfl, .of_eq rfl rfl, ?_⟩
  by_cases ha : a.index < w₁.heap.arrays.size
  · exact .inr ⟨.item (.array a) _, fun hb d hd => by cases hd; exact hin hb,
      w₁.heap.writes_push a ha v, fun e hh hv => hh.modifyArray a fun _ hs => hs.push hv⟩
  · left
    simp only [Heap.modifyArray, modify_of_le (Nat.not_lt.mp ha)]

end Stores

/-! ## Removing and inserting -/

theorem Safe.erase {a : ArrayRef} (ha : c.checked → a.index < w.heap.arrays.size) {p : Nat}
    (hp : p < (w.heap.slots a).size) :
    Safe c w (Eval.changeHeap (Heap.modifyArray a (·.erase p)))
      (Eval.changeHeap (Heap.modifyArray a (·.erase p))) Context.Any E := by
  refine .onHeap (fun _ => .of_eq rfl rfl) (fun hc hs => ⟨?_, hs.erase (ha hc) hp⟩) fun _ => trivial
  exact ⟨Nat.le_of_eq Array.size_modify.symm, Nat.le_refl _, Nat.le_refl _⟩

theorem Safe.remove {d : DictRef} (hd : c.checked → d.index < w.heap.dicts.size) {key : Value}
    {rest : Dictionary} (he : (w.heap.dict d).erase? key = some rest) :
    Safe c w (Eval.changeHeap (Heap.modifyDict d fun _ => rest))
      (Eval.changeHeap (Heap.modifyDict d fun _ => rest)) Context.Any E := by
  refine .onHeap (fun _ => .of_scopes rfl fun _ hb => hb.modifyDict d fun _ _ => (hb.dict d).erase he)
    (fun hc hs => ⟨?_, hs.remove (hd hc) he⟩) fun _ => trivial
  exact ⟨Nat.le_refl _, Nat.le_of_eq Array.size_modify.symm, Nat.le_refl _⟩

theorem Safe.insert {a : ArrayRef} (ha : c.checked → a.index < w.heap.arrays.size) {p : Nat}
    (hp : p ≤ (w.heap.slots a).size) {v : Value} (hv : c.Good w v) {x : Eval Value}
    (hx : x = do
      Eval.changeHeap (Heap.modifyArray a (·.openGap p))
      let u ← Eval.copy v
      Eval.changeHeap (Heap.modifyArray a (·.set p u))
      return .none) :
    Safe c w x x c.Good E := by
  subst hx
  have hgap : Eval.changeHeap (Heap.modifyArray a (·.openGap p)) c.env w =
      .ok () { w with heap := w.heap.modifyArray a (·.openGap p) } := rfl
  have hopened : c.Keeps w.heap (w.heap.modifyArray a (·.openGap p)) := .of_eq rfl rfl
  have hcopied : c.Keeps (w.heap.modifyArray a (·.openGap p))
      (Heap.copy v (w.heap.modifyArray a (·.openGap p))).2 := .of_careful (.copy v)
  refine .step ((Eval.bind_ok hgap _).trans (Eval.bind_ok (Eval.copy_eq v c.env _) _))
    (fun _ => .heap rfl (fun hc hs => ?_) ((hopened.trans hcopied).trans (.of_eq rfl rfl)))
    fun _ _ => trivial
  obtain ⟨hs', hA, hD⟩ := hs.insert (ha hc) hp (hv hc) rfl
  exact ⟨⟨Nat.le_trans hA (Nat.le_of_eq Array.size_modify.symm), hD, Nat.le_refl _⟩, hs'⟩

/-! ## Operations -/

theorem Safe.onHeapOp {op : HeapOp α} {V : Extent → α → Prop} {P : α → Prop}
    (hl : op.Careful (c.checked ∧ w.heap.Built) P)
    (hop : c.checked → HeapOp.Sound w.interpreters.size w.heap op V) :
    Safe c w (Eval.onHeap op.run) (Eval.onHeap op.run)
      (fun w' r => c.checked → ∀ a, r = .ok a → V w'.extent a) E := by
  refine .onHeap (fun _ => .of_careful hl) (fun hc hs => ?_) fun hr hc a ha => ?_
  · obtain ⟨hle, hs', -⟩ := hop hc hs
    exact ⟨hle, hs'⟩
  · exact (hop hc (hr.sound hc)).2.2 a ha

theorem Safe.ofHeapOp {op : HeapOp α} {V : Extent → α → Prop} {P : α → Prop}
    (hl : op.Careful (c.checked ∧ w.heap.Built) P)
    (hop : c.checked → HeapOp.Sound w.interpreters.size w.heap op V) (hE : ∀ t, E (.unplaced t)) :
    Safe c w (Eval.ofHeapOp op) (Eval.ofHeapOp op) (fun w' a => c.checked → V w'.extent a) E :=
  (Safe.onHeapOp hl hop).bind fun _ _ _ _ hr => .ofExcept (fun a ha hc => hr hc a ha) hE

theorem Safe.ofHeapOpAt {op : HeapOp α} {V : Extent → α → Prop} {P : α → Prop} {span : Span}
    (hl : op.Careful (c.checked ∧ w.heap.Built) P)
    (hop : c.checked → HeapOp.Sound w.interpreters.size w.heap op V) :
    Safe c w (Eval.ofHeapOpAt span op) (Eval.ofHeapOpAt span op)
      (fun w' a => c.checked → V w'.extent a) Catchable :=
  (Safe.onHeapOp hl hop).bind fun _ _ _ _ hr => .ofExceptAt fun a ha hc => hr hc a ha

/-! ## Records and instances -/

theorem Eval.mapM_copy_eq (env : Env) : ∀ (vs : List Value) (w : World),
    (vs.mapM Eval.copy) env w = .ok ((vs.mapM Heap.copy).run w.heap).1
      { w with heap := ((vs.mapM Heap.copy).run w.heap).2 }
  | [], w => rfl
  | v :: vs, w => by
      rw [List.mapM_cons, Eval.bind_ok (Eval.copy_eq v env w)]
      rw [Eval.bind_ok (Eval.mapM_copy_eq env vs _), List.mapM_cons]
      rfl

theorem Safe.newRecord {t : RecordTypeRef} {names : List String} {args : List Value}
    (ha : c.AllGood w args) {x : Eval Value}
    (hx : x = do
      let copies ← args.mapM Eval.copy
      let fields := (names.zip copies).foldl (fun (t : Table Value) (f, v) => t.put f v) []
      Eval.onHeap (Heap.newRecord ⟨t, fields⟩)) :
    Safe c w x x c.Good E := by
  subst hx
  have hcopied : c.Keeps w.heap ((args.mapM Heap.copy).run w.heap).2 :=
    .of_careful (.mapM .copy args)
  refine .step (Eval.bind_ok (Eval.mapM_copy_eq c.env args w) _)
    (fun _ => .heap rfl (fun hc hs => ?_) (hcopied.trans (.of_eq rfl rfl)))
    fun _ _ => trivial
  have k := hs.copies fun v hv => ha v hv hc
  exact ⟨Heap.extent_le k.grows.arrays k.grows.dicts _, hs.newRecord k t⟩

theorem Safe.newInstance {r : ClassRef} :
    Safe c w (Eval.onHeap (Run.newInstance r)) (Eval.onHeap (Run.newInstance r)) Context.Any E :=
  .onHeap (fun _ => .of_careful (careful_newInstance r))
    (fun _ hs => ⟨(hs.newInstance r).2, (hs.newInstance r).1⟩) fun _ => trivial

/-! ## What binding does not affect -/

/-- However the action ends, it leaves a world of this kind in another one. -/
def Eval.Preserves {α : Type} (I : World → Prop) (x : Eval α) : Prop :=
  ∀ env w, I w → I (x.worldAfter env w)

theorem Safe.keeping {V : World → α → Prop} {x y : Eval α} {I : World → Prop} (hI : I w)
    (hp : Eval.Preserves I y) (hx : Safe c w x y V E) :
    Safe c w x y (fun w' a => V w' a ∧ I w') E := by
  intro hr
  obtain ⟨hagree, hleads⟩ := hx hr
  have hafter := hp c.env w hI
  refine ⟨hagree, ?_⟩
  rw [Eval.worldAfter] at hafter
  cases hres : y c.env w with
  | ok a w' =>
      rw [hres] at hleads hafter
      exact ⟨hleads.1, hleads.2, hafter⟩
  | error e w' =>
      rw [hres] at hleads
      cases e <;> exact hleads

namespace Eval.Preserves

variable {β : Type} {I : World → Prop}

theorem step {x : Eval α} (h : ∀ env w, I w → ∃ a w', x env w = .ok a w' ∧ I w') :
    Preserves I x := by
  intro env w hw
  obtain ⟨a, w', ok, hw'⟩ := h env w hw
  rwa [worldAfter, ok]

theorem pure (a : α) : Preserves I (pure a) := .step fun _ w hw => ⟨a, w, rfl, hw⟩

theorem raise (f : Fault) : Preserves I (Eval.raise f : Eval α) := fun _ _ hw => hw

theorem outOfFuel : Preserves I (Eval.outOfFuel : Eval α) := fun _ _ hw => hw

theorem bind {x : Eval α} {f : α → Eval β} (hx : Preserves I x) (hf : ∀ a, Preserves I (f a)) :
    Preserves I (x >>= f) := by
  intro env w hw
  have first := hx env w hw
  cases run : x env w with
  | ok a w' =>
    rw [worldAfter, run] at first
    rw [worldAfter, Eval.bind_ok run]
    exact hf a env w' first
  | error e w' =>
    rw [worldAfter, run] at first
    rwa [worldAfter, Eval.bind_error run]

theorem tryCatch {x : Eval α} {f : Failure → Eval α} (hx : Preserves I x)
    (hf : ∀ e, Preserves I (f e)) : Preserves I (tryCatch x f) := by
  intro env w hw
  have first := hx env w hw
  cases run : x env w with
  | ok a w' =>
    rw [worldAfter, run] at first
    rwa [worldAfter, Eval.tryCatch_ok run]
  | error e w' =>
    rw [worldAfter, run] at first
    rw [worldAfter, Eval.tryCatch_error run]
    exact hf e env w' first

end Eval.Preserves

/-- A property of interpreters and scopes that no binding affects, unless it is one of
a constant. -/
structure World.Unaffected (I : World → Prop) : Prop where
  congr : ∀ {w w' : World}, I w → w'.interpreters = w.interpreters →
    w'.heap.scopes = w.heap.scopes → I w'
  bind : ∀ {w w' : World} {s : ScopeRef} {name : String} {v : Value}, I w →
    w'.interpreters = w.interpreters → w'.heap = w.heap.bind s name v false → I w'

namespace World.Unaffected

variable {I : World → Prop} (hI : World.Unaffected I)

include hI

theorem copy (v : Value) : Eval.Preserves I (Eval.copy v) :=
  .step fun env w hw => ⟨_, _, Eval.copy_eq v env w, hI.congr hw rfl (Heap.scopes_copy v _)⟩

theorem define (s : ScopeRef) (name : String) (v : Value) :
    Eval.Preserves I (Eval.define s name v false) := by
  refine .step fun env w hw => ?_
  obtain ⟨w', hdefine, hheap, hi⟩ := Eval.define_eq s name v false env w
  exact ⟨(), w', hdefine, hI.bind hw hi hheap⟩

theorem bindAll (root : ScopeRef) : ∀ t : Table Value, Eval.Preserves I (Run.bindAll root t)
  | [] => .pure ()
  | (name, v) :: t => (hI.define root name v).bind fun _ => bindAll root t

theorem memberValue (name : String) (m : Member) :
    Eval.Preserves I (Library.memberValue name m) := by
  cases m with
  | value v => exact .pure v
  | function a => exact .step fun env w hw => ⟨_, _, rfl, hI.congr hw rfl rfl⟩

theorem addMembers : ∀ (ms : List (String × Member)) (t : Table Value),
    Eval.Preserves I (Library.addMembers t ms)
  | [], t => .pure t
  | (name, m) :: ms, t => (hI.memberValue name m).bind fun v => addMembers ms (t.put name v)

theorem newLibrary (l : Library) : Eval.Preserves I (Eval.onHeap (Heap.newLibrary l)) :=
  .step fun _ _ hw => ⟨_, _, rfl, hI.congr hw rfl rfl⟩

theorem install (home : InterpreterId) (root : ScopeRef) :
    Eval.Preserves I (Run.install home root) :=
  (hI.addMembers _ _).bind fun core => (hI.bindAll root core).bind fun _ =>
    (hI.newLibrary _).bind fun _ => (hI.define root _ _).bind fun _ =>
      (hI.addMembers _ _).bind fun t => hI.bindAll root t

theorem load (e : Extension) : Eval.Preserves I e.load := by
  have build : ∀ name ms, Eval.Preserves I (Library.build name ms) := fun name ms =>
    (hI.addMembers ms []).bind fun _ => hI.newLibrary _
  cases e with
  | probe =>
      refine .bind (.step fun _ _ hw => ⟨_, _, rfl, hI.congr hw rfl rfl⟩) fun counter => ?_
      exact .bind (.step fun env w hw => ⟨env, w, rfl, hw⟩) fun env => build _ _
  | broken => exact .raise _
  | _ => exact build _ _

end World.Unaffected

theorem Context.Unfixed.unaffected (c : Context) (s : ScopeRef) :
    World.Unaffected fun w => c.Unfixed w s where
  congr hu _ hscopes := by
    refine ⟨?_, hu.spares, ?_⟩
    · rw [hscopes]
      exact hu.lt
    · rw [Heap.scope_congr hscopes]
      exact hu.constants
  bind hu _ hheap := by
    refine ⟨?_, hu.spares, ?_⟩
    · rw [hheap, Heap.size_bind]
      exact hu.lt
    · rw [hheap, Heap.constants_bind]
      exact hu.constants

theorem Context.Unfixed.isConstant {s : ScopeRef} (hu : c.Unfixed w s) (name : String) :
    w.heap.isConstant s name = false := by
  rw [Heap.isConstant, hu.constants]
  rfl

end Pseudocode
