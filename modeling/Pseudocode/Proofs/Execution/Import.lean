import Pseudocode.Proofs.Execution.Native
import Pseudocode.Run.Import
/-
# `Proofs.Execution.Import` — imports are safe

A module runs on an interpreter of its own.  The new interpreter stands behind all
others, with no call in progress; it is the only one whose frame changes for good,
and an import leaves those that existed before where they stood.
-/
namespace Pseudocode

open Library

variable {c : Context} {r r' : Recursor} {w : World} {E : Fault → Prop}

/-! ## Building modules -/

/-- A table of values that can be stored as they are. -/
def Context.GoodTable (c : Context) (w : World) (t : Table Value) : Prop :=
  t.All fun v => v.container? = none ∧ c.Good w v

/-- A member that can be stored as it is. -/
def Member.Good (c : Context) (w : World) : Member → Prop
  | .value v => v.Plain
  | .function a => c.checked → a.Within w.extent

theorem World.Evolves.goodTable {w' : World} (h : w.Evolves c w') (hr : c.Ready w)
    {t : Table Value} (ht : c.GoodTable w t) : c.GoodTable w' t :=
  ht.mono fun _ hv => ⟨hv.1, h.good hr hv.2⟩

theorem World.Evolves.goodMember {w' : World} (h : w.Evolves c w') (hr : c.Ready w) {m : Member}
    (hm : m.Good c w) : m.Good c w' := by
  cases m with
  | value v => exact hm
  | function a => exact fun hc => (hm hc).mono (h.sound hc (hr.sound hc)).1

theorem safe_memberValue (name : String) {m : Member} (hm : m.Good c w) :
    Safe c w (memberValue name m) (memberValue name m)
      (fun w' v => v.container? = none ∧ c.Good w' v) E := by
  cases m with
  | value v => exact .pure ⟨hm.container?, fun _ => hm.within⟩
  | function a => exact .step rfl (fun _ => .other rfl rfl) fun _ => ⟨rfl, hm⟩

theorem safe_addMembers : ∀ (ms : List (String × Member)) {t : Table Value} {w : World},
    (∀ m ∈ ms, m.2.Good c w) → c.GoodTable w t →
      Safe c w (addMembers t ms) (addMembers t ms) c.GoodTable E
  | [], _, _, _, ht => .pure ht
  | (name, m) :: ms, t, w, hms, ht => by
      refine (safe_memberValue name (hms _ List.mem_cons_self)).bind fun v w₁ hrd h₁ hv => ?_
      refine safe_addMembers ms (fun m hm => ?_) ((h₁.goodTable hrd ht).put hv)
      exact h₁.goodMember hrd (hms m (List.mem_cons_of_mem _ hm))

theorem safe_build (name : String) {ms : List (String × Member)} (hms : ∀ m ∈ ms, m.2.Good c w) :
    Safe c w (build name ms) (build name ms) (fun _ v => v.Plain) E := by
  refine (safe_addMembers ms hms .nil).bind fun t w₁ _ _ ht => ?_
  refine Safe.weaken (Safe.newLibrary fun hc => Table.All.mono (fun _ hv => hv.2 hc) ht)
    fun _ v hv => ?_
  obtain ⟨l, rfl⟩ := hv
  trivial

/-- The extension can be built for the interpreter that executes. -/
theorem safe_loadExtension (hself : c.checked → c.env.self.index < w.interpreters.size)
    (e : Extension) : Safe c w e.load e.load (fun _ v => v.Plain) AnyFault := by
  cases e with
  | math =>
      refine safe_build _ fun m hm => ?_
      simp only [Math.members, List.mem_append, List.mem_map, List.mem_cons, List.not_mem_nil,
        or_false] at hm
      rcases hm with ((rfl | rfl | rfl | rfl | rfl) | ⟨f, -, rfl⟩) |
        (rfl | rfl | rfl | rfl | rfl | rfl | rfl | rfl | rfl | rfl) <;>
        first | trivial | exact fun _ => trivial
  | system =>
      refine safe_build _ fun m hm => ?_
      simp only [SystemModule.members, List.mem_cons, List.not_mem_nil, or_false] at hm
      rcases hm with rfl | rfl | rfl | rfl | rfl | rfl <;>
        first | trivial | exact fun _ => trivial
  | crypto =>
      refine safe_build _ fun m hm => ?_
      simp only [CryptoModule.members, List.mem_cons, List.not_mem_nil, or_false] at hm
      rcases hm with rfl | rfl | rfl | rfl | rfl <;> exact fun _ => trivial
  | locale =>
      refine safe_build _ fun m hm => ?_
      simp only [LocaleModule.members, List.mem_cons, List.not_mem_nil, or_false] at hm
      rcases hm with rfl | rfl | rfl | rfl | rfl <;> first | trivial | exact fun _ => trivial
  | probe =>
      refine Safe.bind (V := Context.Any) (.step rfl (fun _ => .other rfl rfl) fun _ => trivial)
        fun counter w₁ _ h₁ _ => .look rfl (safe_build _ fun m hm => ?_)
      simp only [Probe.members, List.mem_cons, List.not_mem_nil, or_false] at hm
      rcases hm with rfl | rfl | rfl | rfl | rfl | rfl | rfl | rfl | rfl | rfl | rfl <;>
        first | trivial | exact fun hc => Nat.lt_of_lt_of_le (hself hc) h₁.size
  | broken => exact .raise trivial

/-! ## New interpreters -/

/-- A value is bound in a scope that has no constants, and still has none then. -/
theorem safe_defineNew {root : ScopeRef} (hu : c.Unfixed w root) (name : String) {v : Value}
    (hv : c.Good w v) (hn : v.container? = none) :
    Safe c w (Eval.define root name v false) (Eval.define root name v false)
      (fun w' _ => c.Unfixed w' root) E := by
  have hstore := Safe.store (E := E) hv hn (.define hu.spares (hu.isConstant name) false)
  have hunfixed := (Context.Unfixed.unaffected c root).define root name v
  exact (hstore.keeping (I := fun w => c.Unfixed w root) hu hunfixed).weaken fun _ _ h => h.2

/-- A table of values is bound in a scope. -/
theorem safe_bindAll (root : ScopeRef) : ∀ (t : Table Value) {w : World}, c.GoodTable w t →
    c.Unfixed w root → Safe c w (Run.bindAll root t) (Run.bindAll root t)
      (fun w' _ => c.Unfixed w' root) E
  | [], _, _, hu => .pure hu
  | e :: t, w, ht, hu => by
      obtain ⟨hn, hv⟩ := ht e List.mem_cons_self
      refine (safe_defineNew hu e.1 hv hn).bind fun _ w₁ hrd h₁ hu₁ => safe_bindAll root t ?_ hu₁
      exact h₁.goodTable hrd fun e' he' => ht e' (List.mem_cons_of_mem e he')

theorem goodMember_functions {table : List (String × Native)}
    (ht : c.checked → ∀ e ∈ table, e.2.Within w.extent) :
    ∀ m ∈ Run.functions table, m.2.Good c w := by
  intro m hm
  obtain ⟨e, he, rfl⟩ := List.mem_map.mp hm
  exact fun hc => ht hc e he

theorem within_subroutines {home : InterpreterId} {e : Extent} (hh : home.index < e.interpreters) :
    ∀ b ∈ Builtins.subroutines home, b.2.Within e := by
  intro b hb
  simp only [Builtins.subroutines, List.mem_cons, List.not_mem_nil, or_false] at hb
  rcases hb with rfl | rfl | rfl | rfl | rfl | rfl | rfl | rfl | rfl | rfl | rfl | rfl <;>
    first | exact hh | trivial

theorem within_conversions {home : InterpreterId} {e : Extent} (hh : home.index < e.interpreters) :
    ∀ b ∈ Builtins.conversions home, b.2.Within e := by
  intro b hb
  simp only [Builtins.conversions, List.mem_cons, List.not_mem_nil, or_false] at hb
  rcases hb with rfl | rfl | rfl | rfl | rfl | rfl | rfl <;> first | exact hh | trivial

theorem safe_install {home : InterpreterId} {root : ScopeRef} (hu : c.Unfixed w root)
    (hh : c.checked → home.index < w.interpreters.size) :
    Safe c w (Run.install home root) (Run.install home root) Context.Any E := by
  have hI := Context.Unfixed.unaffected c root
  have hmembers := safe_addMembers (E := E) _
    (goodMember_functions fun hc => within_subroutines (hh hc)) .nil
  refine (hmembers.keeping (I := fun w => c.Unfixed w root) hu (hI.addMembers _ _)).bind
    fun core w₁ hrd h₁ hcore => (safe_bindAll root core hcore.1 hcore.2).bind
      fun _ w₂ hrd₁ h₂ hu₂ => ?_
  have hcore₂ := h₂.goodTable hrd₁ hcore.1
  have hlibrary := Safe.newLibrary (E := E) (l := ⟨"BUILTINS", core⟩) fun hc =>
    Table.All.mono (fun _ hv => hv.2 hc) hcore₂
  refine (hlibrary.keeping (I := fun w => c.Unfixed w root) hu₂ (hI.newLibrary _)).bind
    fun v w₃ hrd₂ h₃ hv => ?_
  obtain ⟨⟨l, rfl⟩, hu₃⟩ := hv
  refine (safe_defineNew (v := .library l) hu₃ "BUILTINS" (fun _ => trivial) rfl).bind
    fun _ w₄ hrd₃ h₄ hu₄ => ?_
  have hall := ((h₁.trans h₂).trans h₃).trans h₄
  have hconversions := safe_addMembers (c := c) (w := w₄) (E := E)
    (Run.functions (Builtins.conversions home)) (goodMember_functions fun hc =>
      within_conversions (Nat.lt_of_lt_of_le (hh hc) hall.size)) .nil
  refine (hconversions.keeping (I := fun w => c.Unfixed w root) hu₄ (hI.addMembers _ _)).bind
    fun t w₅ _ _ ht => (safe_bindAll root t ht.1 ht.2).weaken fun _ _ _ => trivial

theorem Heap.Sound.more {h : Heap} {n m : Nat} (hs : h.Sound n) (hnm : n ≤ m) : h.Sound m :=
  hs.congr rfl rfl (fun _ => rfl) (hs.closed.mono ⟨Nat.le_refl _, Nat.le_refl _, hnm⟩)

/-- A new interpreter stands behind the others, with no call in progress. -/
theorem World.Evolves.pushInterpreter (hk : c.kept ≤ w.interpreters.size) {i : Interpreter}
    (hi : i.frame.depth = 0) (hroot : i.root.index < w.heap.scopes.size)
    (hscope : i.frame.scope.index < w.heap.scopes.size) :
    w.Evolves c { w with interpreters := w.interpreters.push i } where
  size := by
    rw [Array.size_push]
    exact Nat.le_succ _
  rows j hj := by
    rw [Array.getElem?_push_lt (Nat.lt_of_lt_of_le hj hk)]
    exact (Array.getElem?_eq_getElem (Nat.lt_of_lt_of_le hj hk)).symm
  depth j := by
    simp only [World.depthOf, Heap.getD_push]
    split
    next hj =>
      subst hj
      rw [hi, Array.getD_eq_getD_getElem?, Array.getElem?_size, Option.getD_none]
      rfl
    next => rfl
  sound _ hs := by
    have hsize : w.interpreters.size ≤ (w.interpreters.push i).size := by
      rw [Array.size_push]
      exact Nat.le_succ _
    exact ⟨⟨Nat.le_refl _, Nat.le_refl _, hsize⟩, hs.more hsize⟩
  keeps := .of_eq rfl rfl
  follows j hj := by
    simp only [World.row, Heap.getD_push, if_neg (Nat.ne_of_lt hj)]
    exact .refl c _
  placed hp j hj := by
    simp only [World.row, Heap.getD_push]
    split
    · exact ⟨hroot, hscope⟩
    next hne =>
      rw [Array.size_push] at hj
      exact hp j (by omega)

/-- The interpreter is one that did not exist when the context was left alone. -/
structure Context.Own (c : Context) (w : World) (id : InterpreterId) : Prop where
  kept : c.kept ≤ id.index
  lt : id.index < w.interpreters.size
  root : ¬ c.Spares (w.row id.index).root
  pending : (w.row id.index).pending = []

theorem Context.Own.evolves {w' : World} {id : InterpreterId} (ho : c.Own w id)
    (h : w.Evolves c w') : c.Own w' id := by
  obtain ⟨hroot, hpending, -⟩ := h.follows _ ho.lt
  exact ⟨ho.kept, Nat.lt_of_lt_of_le ho.lt h.size, hroot ▸ ho.root, hpending ho.pending⟩

theorem safe_newInterpreter (rootName dir name : String) (importing : List String) :
    Safe c w (Run.newInterpreter rootName dir name importing [])
      (Run.newInterpreter rootName dir name importing []) c.Own E := by
  refine Safe.bind (Safe.newScope (s := fun _ => ⟨rootName, [], [], none, none⟩) rfl rfl)
    fun root w₁ hrd h₁ hu => ?_
  dsimp only
  have hkept := (h₁.ready hrd).kept
  refine Safe.bind (V := fun w' id => c.Own w' id ∧ c.Unfixed w' root)
    (.step rfl (fun _ => .pushInterpreter hkept rfl hu.lt hu.lt) fun _ => ?_)
    fun id w₂ hrd₁ h₂ hid => (safe_install hid.2 fun _ => hid.1.lt).bind fun _ w₃ _ h₃ _ =>
      .pure (hid.1.evolves h₃)
  have hrow : ∀ i, ({ w₁ with interpreters := w₁.interpreters.push i } : World).row
      w₁.interpreters.size = i := by
    intro i
    simp only [World.row, Heap.getD_push, if_true]
  refine ⟨⟨hkept, by simp, ?_, ?_⟩, hu.lt, hu.spares, hu.constants⟩
  · rw [hrow]
    exact hu.spares
  · rw [hrow]

/-! ## Running a text -/

theorem Eval.changeSelf_eq (f : Interpreter → Interpreter) (env : Env) (w : World) :
    Eval.changeSelf f env w =
      .ok () { w with interpreters := w.interpreters.modify env.self.index f } := rfl

/-- A change of the executing interpreter, where that may be changed. -/
theorem Safe.changeSelf (hk : c.kept ≤ c.env.self.index)
    (hself : c.env.self.index < w.interpreters.size) {f : Interpreter → Interpreter}
    (hf : ∀ i, (f i).frame.depth = i.frame.depth)
    (hrow : c.Follows (w.row c.env.self.index) (f (w.row c.env.self.index))) :
    Safe c w (Eval.changeSelf f) (Eval.changeSelf f)
      (fun w' _ => w'.heap = w.heap ∧
        w'.row c.env.self.index = f (w.row c.env.self.index)) AnyFault := by
  have hsize : (w.interpreters.modify c.env.self.index f).size = w.interpreters.size :=
    Array.size_modify
  have hrows : ∀ j, World.row { w with interpreters := w.interpreters.modify c.env.self.index f } j =
      if c.env.self.index = j ∧ c.env.self.index < w.interpreters.size then f (w.row j)
      else w.row j := fun j => Heap.getD_modify ..
  refine .step (Eval.changeSelf_eq f c.env w) (fun _ => ?_) fun _ => ⟨rfl, ?_⟩
  · refine ⟨Nat.le_of_eq hsize.symm, fun j hj => ?_, fun j => ?_, fun _ hs => ?_, .of_eq rfl rfl,
      fun j hj => ?_, fun hp j hj => ?_⟩
    · rw [Array.getElem?_modify, if_neg (by omega)]
    · simp only [World.depthOf, Heap.getD_modify]
      split
      · exact hf _
      · rfl
    · rw [World.extent, World.extent, World.Sound, hsize]
      exact ⟨Extent.le_refl _, hs⟩
    · rw [hrows]
      split
      next h => exact h.1 ▸ hrow
      next => exact .refl c _
    · rw [hsize] at hj
      rw [hrows]
      split
      next h =>
        obtain ⟨hroot, -, hscope⟩ := h.1 ▸ hrow
        obtain ⟨proot, pscope⟩ := hp j hj
        refine ⟨hroot.symm ▸ proot, ?_⟩
        rcases hscope with hscope | ⟨hscope, -⟩
        · exact hscope.symm ▸ pscope
        · exact hscope.symm ▸ proot
      next => exact hp j hj
  · rw [hrows, if_pos ⟨rfl, hself⟩]

theorem safe_newUnit : Safe c w Run.newUnit Run.newUnit (fun w' _ => w'.heap = w.heap) AnyFault :=
  .step rfl (fun _ => .other rfl rfl) fun _ => rfl

/-- Names may be bound in the root of the executing interpreter, and those that are
still to be bound there are not constants. -/
structure Context.Prepared (c : Context) (w : World) : Prop where
  self : c.env.self.index < w.interpreters.size
  root : ¬ c.Spares (w.row c.env.self.index).root
  pending : (w.row c.env.self.index).pending = [] ∨ c.Unfixed w (w.row c.env.self.index).root

theorem Context.Prepared.evolves {w' : World} (hp : c.Prepared w) (h : w.Evolves c w')
    (hheap : w'.heap = w.heap) : c.Prepared w' := by
  obtain ⟨hroot, hpending, -⟩ := h.follows _ hp.self
  refine ⟨Nat.lt_of_lt_of_le hp.self h.size, hroot.symm ▸ hp.root, ?_⟩
  rcases hp.pending with hnone | hu
  · exact .inl (hpending hnone)
  · refine .inr ?_
    rw [hroot]
    exact ⟨hheap.symm ▸ hu.lt, hu.spares, hheap.symm ▸ hu.constants⟩

theorem safe_bindExtension (hself : c.env.self.index < w.interpreters.size)
    (hu : c.Unfixed w (w.row c.env.self.index).root) (name : String) :
    Safe c w (Run.bindExtension name) (Run.bindExtension name)
      (fun w' _ => c.Unfixed w' (w.row c.env.self.index).root) AnyFault := by
  refine .look rfl ?_
  split
  · exact .raise trivial
  next e _ =>
    have hI := Context.Unfixed.unaffected c (w.row c.env.self.index).root
    have hload := (safe_loadExtension (fun _ => hself) e).keeping
      (I := fun w' => c.Unfixed w' (w.row c.env.self.index).root) hu (hI.load e)
    refine Safe.bind (V := fun w' v => v.Plain ∧ c.Unfixed w' (w.row c.env.self.index).root)
      (.tryCatch (F := AnyFault) rfl hload fun k w' _ _ _ => ?_) fun v w₁ _ h₁ hv => .look rfl ?_
    · cases k with
      | fault f => exact .raise trivial
      | outOfFuel => exact .outOfFuel
    · have hroot := (h₁.follows _ hself).1
      change Safe c w₁ (Eval.define (w₁.row c.env.self.index).root name v false)
        (Eval.define (w₁.row c.env.self.index).root name v false) _ _
      rw [hroot]
      exact safe_defineNew hv.2 name (fun _ => hv.1.within) hv.1.container?

theorem safe_bindExtensions : ∀ (names : List String) {w : World},
    c.env.self.index < w.interpreters.size →
    names = [] ∨ c.Unfixed w (w.row c.env.self.index).root →
      Safe c w (names.forM Run.bindExtension) (names.forM Run.bindExtension) Context.Any AnyFault
  | [], _, _, _ => .pure trivial
  | name :: names, w, hself, hu => by
      have hu := hu.resolve_left (List.cons_ne_nil name names)
      refine (safe_bindExtension hself hu name).bind fun _ w₁ _ h₁ hu₁ => ?_
      rw [← (h₁.follows _ hself).1] at hu₁
      exact safe_bindExtensions names (Nat.lt_of_lt_of_le hself h₁.size) (.inr hu₁)

theorem safe_prepare (hk : c.kept ≤ c.env.self.index) (hp : c.Prepared w) :
    Safe c w Run.prepare Run.prepare Context.Any AnyFault := by
  refine .look rfl ?_
  dsimp only
  refine (Safe.changeSelf hk hp.self (by exact fun _ => rfl) ⟨rfl, fun _ => rfl, .inl rfl, id⟩).bind
    fun _ w₁ _ h₁ hw₁ => safe_bindExtensions _ (Nat.lt_of_lt_of_le hp.self h₁.size) ?_
  refine hp.pending.imp_right fun hu => ?_
  rw [hw₁.2]
  exact ⟨hw₁.1.symm ▸ hu.lt, hu.spares, hw₁.1.symm ▸ hu.constants⟩

/-- A program runs safely in the root scope. -/
theorem safe_runProgram (hr : Carries c r r') (hk : c.kept ≤ c.env.self.index)
    (hself : c.env.self.index < w.interpreters.size)
    (hroot : ¬ c.Spares (w.row c.env.self.index).root) (program : Block) :
    Safe c w
      (do
        Eval.changeSelf fun i => { i with frame.scope := i.root }
        discard (r.block program))
      (do
        Eval.changeSelf fun i => { i with frame.scope := i.root }
        discard (r'.block program)) Context.Any AnyFault := by
  refine (Safe.changeSelf hk hself (by exact fun _ => rfl) ⟨rfl, id, .inr ⟨rfl, hroot⟩, id⟩).bind
    fun _ w₁ _ _ hw₁ => ?_
  have hst : c.Stands w₁ := by
    rw [Context.Stands, hw₁.2]
    exact hroot
  exact (hr.block hst program).discard.mono (fun _ _ _ h => h) fun _ _ => trivial

/-- A text runs safely on an interpreter that may be changed. -/
theorem safe_runSource (hr : Carries c r r') (hk : c.kept ≤ c.env.self.index) (hp : c.Prepared w)
    (source : String) :
    Safe c w (Run.runSource r source) (Run.runSource r' source) Context.Any AnyFault := by
  refine .look rfl ?_
  split
  · exact .raise trivial
  next program _ =>
    refine safe_newUnit.bind fun unit w₁ _ h₁ hw₁ => ?_
    have hp₁ := hp.evolves h₁ hw₁
    refine (Safe.changeSelf hk hp₁.self (by exact fun _ => rfl) ⟨rfl, id, .inl rfl, id⟩).bind
      fun _ w₂ _ h₂ hw₂ => ?_
    have hp₂ := hp₁.evolves h₂ hw₂.1
    refine (safe_prepare hk hp₂).bind fun _ w₃ _ h₃ _ => ?_
    exact safe_runProgram hr hk (Nat.lt_of_lt_of_le hp₂.self h₃.size)
      ((h₃.follows _ hp₂.self).1.symm ▸ hp₂.root) program

/-! ### What is pending -/

theorem pending_prepare (hrd : c.Ready w) (hk : c.kept ≤ c.env.self.index) (hp : c.Prepared w) :
    ((Run.prepare.worldAfter c.env w).row c.env.self.index).pending = [] := by
  have hstep := Safe.changeSelf (c := c) (w := w) hk hp.self
    (f := fun i => { i with pending := [] }) (fun _ => rfl) ⟨rfl, fun _ => rfl, .inl rfl, id⟩
  obtain ⟨-, hev, hheap, hrow⟩ := hstep hrd
  have hself := Nat.lt_of_lt_of_le hp.self hev.size
  have hrest := safe_bindExtensions (c := c) (w.row c.env.self.index).pending hself <| by
    refine hp.pending.imp_right fun hu => ?_
    rw [hrow]
    exact ⟨hheap.symm ▸ hu.lt, hu.spares, hheap.symm ▸ hu.constants⟩
  exact ((hrest.evolves (hev.ready hrd)).follows _ hself).2.1 (congrArg Interpreter.pending hrow)

/-- A text that is run leaves nothing pending, unless it leaves the world as it was. -/
theorem pending_runSource (hrd : c.Ready w) (hr : Carries c r r) (hk : c.kept ≤ c.env.self.index)
    (hp : c.Prepared w) (source : String) :
    (Run.runSource r source).worldAfter c.env w = w ∨
      (((Run.runSource r source).worldAfter c.env w).row c.env.self.index).pending = [] := by
  have hlook : Eval.self c.env w = .ok (w.row c.env.self.index) w := rfl
  rw [Run.runSource, Eval.worldAfter_bind_ok hlook]
  split
  · exact .inl rfl
  next program _ =>
    right
    have hunit : Run.newUnit c.env w = .ok w.nextUnit { w with nextUnit := w.nextUnit + 1 } := rfl
    have hev₁ : w.Evolves c { w with nextUnit := w.nextUnit + 1 } := .other rfl rfl
    have hp₁ := hp.evolves hev₁ rfl
    rw [Eval.worldAfter_bind_ok hunit]
    have hstep := Safe.changeSelf (c := c) (w := { w with nextUnit := w.nextUnit + 1 }) hk hp₁.self
      (f := fun i => { i with frame.origin := ⟨w.nextUnit, i.name, source⟩ }) (fun _ => rfl)
      ⟨rfl, id, .inl rfl, id⟩
    obtain ⟨-, hev₂, hheap, -⟩ := hstep (hev₁.ready hrd)
    have hp₂ := hp₁.evolves hev₂ hheap
    have hrd₂ := hev₂.ready (hev₁.ready hrd)
    rw [Eval.worldAfter_bind_ok (Eval.changeSelf_eq _ c.env _)]
    have hpending := pending_prepare hrd₂ hk hp₂
    have hev₃ := (safe_prepare hk hp₂).evolves hrd₂
    cases hprepare : Run.prepare c.env _ with
    | error e w₃ =>
        rw [Eval.worldAfter_error hprepare] at hpending
        rw [Eval.worldAfter_bind_error hprepare]
        exact hpending
    | ok a w₃ =>
        rw [Eval.worldAfter_ok hprepare] at hpending hev₃
        rw [Eval.worldAfter_bind_ok hprepare]
        have hself₃ := Nat.lt_of_lt_of_le hp₂.self hev₃.size
        have hrun := safe_runProgram hr hk hself₃ ((hev₃.follows _ hp₂.self).1.symm ▸ hp₂.root)
          program
        exact ((hrun.evolves (hev₃.ready hrd₂)).follows _ hself₃).2.1 hpending

/-! ## Importing -/

theorem catchable_of_isCircular {f : Fault} (hf : f.isCircular = true) : Catchable f := by
  cases f with
  | runtime d cause => rfl
  | moduleNotFound d name searched => rfl
  | _ => cases hf

theorem safe_importFailed {α : Type} {V : World → α → Prop} (name : String) (span : Span)
    (cause : Fault) :
    Safe c w (Run.importFailed name span cause) (Run.importFailed name span cause) V Catchable :=
  .look rfl (.raise rfl)

theorem safe_runModule (hr : Carries c r r') (m : Run.Found) (nickname : String) (span : Span) :
    Safe c w (Run.runModule r m nickname span) (Run.runModule r' m nickname span)
      (fun _ v => v.Plain) Catchable := by
  refine .look rfl ?_
  dsimp only
  split
  · exact .failAt_bind
  · refine (safe_newInterpreter _ _ _ _).bind fun child w₁ _ _ hchild => ?_
    refine Safe.bind (V := Context.Any) ?_ fun _ w₂ _ _ _ => .look rfl (.pure trivial)
    refine .tryCatch rfl (Safe.on (fun _ => hchild.lt) (safe_runSource (hr.on child) hchild.kept
      ⟨hchild.lt, hchild.root, .inl hchild.pending⟩ m.text)) fun e w' _ _ _ => ?_
    cases e with
    | fault f =>
        dsimp only
        split
        next hf => exact .raise (catchable_of_isCircular hf)
        next => exact safe_importFailed nickname span f
    | outOfFuel => exact .outOfFuel

theorem safe_importExtension (hself : c.checked → c.env.self.index < w.interpreters.size)
    (name : String) (span : Span) (searched : List String) :
    Safe c w (Run.importExtension name span searched) (Run.importExtension name span searched)
      (fun _ v => v.Plain) Catchable := by
  refine .look rfl ?_
  dsimp only
  split
  next e _ =>
    refine .tryCatch rfl (safe_loadExtension hself e) fun k w' _ _ _ => ?_
    cases k with
    | fault f => exact safe_importFailed name span f
    | outOfFuel => exact .outOfFuel
  next => exact .look rfl (.look rfl (.raise rfl))

theorem safe_importModule (hr : Carries c r r')
    (hself : c.checked → c.env.self.index < w.interpreters.size) (name nickname : String)
    (span : Span) :
    Safe c w (Run.importModule r name nickname span) (Run.importModule r' name nickname span)
      (fun _ v => v.Plain) Catchable := by
  refine .look rfl (.look rfl ?_)
  dsimp only
  split
  next m _ => exact safe_runModule hr m nickname span
  next =>
    split
    next m _ => exact safe_runModule hr m nickname span
    next => exact safe_importExtension hself name span _

namespace Run

/-- The name an import binds. -/
def aliasOf (name nickname : String) : String :=
  if nickname = "" then defaultAlias name else nickname

/-- What an import binds: its name, and the module that the location names. -/
def imported (r : Recursor) (span : Span) (location : Expr) (nickname : String) :
    Eval (String × Value) := do
  match ← r.expr location with
  | .string name =>
    return (aliasOf name nickname, ← importModule r name (aliasOf name nickname) span)
  | v =>
    let type ← Eval.inHeap (·.typeName v)
    Eval.failAt location.span (.type s!"IMPORT location must be a String, got '{type}'")

/-- An import has found the module before it binds anything. -/
theorem load_eq (r : Recursor) (span : Span) (location : Expr) (nickname : String) :
    load r span location nickname =
      imported r span location nickname >>= fun m => Eval.bindSelf span m.1 m.2 := by
  rw [imported, Eval.bind_assoc]
  refine congrArg (bind _) (funext fun v => ?_)
  cases v with
  | string name =>
      dsimp only
      rw [Eval.bind_assoc]
      rfl
  | _ => rfl

end Run

theorem safe_imported (hr : Carries c r r') (span : Span) (location : Expr) (nickname : String) :
    Safe c w (Run.imported r span location nickname) (Run.imported r' span location nickname)
      (fun _ m => m.2.Plain) Catchable := by
  refine (hr.expr location).bind fun v w₁ _ _ _ => ?_
  split
  · exact .ready fun hrd => (safe_importModule hr hrd.self _ _ span).bind fun _ _ _ _ hv => .pure hv
  · exact .look rfl .failAt

theorem loads_load (hr : Carries c r r') : Loads c (Run.load r) (Run.load r') := by
  intro span location nickname w hst
  rw [Run.load_eq, Run.load_eq]
  exact (safe_imported hr span location nickname).bind fun m _ hrd h₁ hm =>
    safe_bindSelf (h₁.stands hrd hst) span m.1 hm

end Pseudocode
