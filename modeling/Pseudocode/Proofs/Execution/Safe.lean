import Pseudocode.Proofs.Execution.Binding
import Pseudocode.Proofs.Ownership.Store
import Pseudocode.Run.Interpreter
/-
# `Proofs.Execution.Safe` — a logic of safe execution

`Safe c w x y V E` is a judgement about two actions `x` and `y` that are started in
a world `w` in which execution may stand (`Context.Ready`):

* they do the same, or else the first is halted on the way, where the context allows
  for that;
* the world evolves (`World.Evolves`): interpreters that existed before stand where
  they stood, no call is left in progress, the heap stays sound, constants stay what
  they are, and nothing is bound in the scopes that the context spares;
* a result satisfies `V` in the world in which it is returned, and a fault
  satisfies `E`.

Most actions are compared with themselves.  Two different ones are compared where
they differ in how they carry out tasks; the rules for the two cases are the same.
An action that is halted leaves a world through which the other one has passed:
the constants of that world are constants still when the other one ends.

The heap is looked at only if `Context.checked`.  Without it the judgement says
what holds in every world whatsoever.
-/
namespace Pseudocode

/-! ## Actions in a world -/

namespace Eval

variable {α β : Type} {x : Eval α} {env : Env} {w w' : World} {a : α} {e : Failure}

theorem bind_ok (h : x env w = .ok a w') (f : α → Eval β) : (x >>= f) env w = f a env w' := by
  change EStateM.bind (x env) (fun a => f a env) w = _
  simp only [EStateM.bind, h]

theorem bind_error (h : x env w = .error e w') (f : α → Eval β) :
    (x >>= f) env w = .error e w' := by
  change EStateM.bind (x env) (fun a => f a env) w = _
  simp only [EStateM.bind, h]

theorem bind_assoc {γ : Type} (x : Eval α) (f : α → Eval β) (g : β → Eval γ) :
    (x >>= f) >>= g = x >>= fun a => f a >>= g := by
  funext env w
  cases hx : x env w with
  | ok a w' =>
      rw [bind_ok hx fun a => f a >>= g]
      cases hf : f a env w' with
      | ok b w'' =>
          rw [bind_ok hf, bind_ok ((bind_ok hx f).trans hf)]
      | error e w'' =>
          rw [bind_error hf, bind_error ((bind_ok hx f).trans hf)]
  | error e w' =>
      rw [bind_error hx fun a => f a >>= g, bind_error (bind_error hx f)]

theorem discard_eq (x : Eval α) : discard x = x >>= fun _ => pure () := by
  funext env w
  change EStateM.map (Function.const α ()) (x env) w = _
  cases hx : x env w with
  | ok a w' =>
      rw [bind_ok hx]
      simp only [EStateM.map, hx]
      rfl
  | error e w' =>
      rw [bind_error hx]
      simp only [EStateM.map, hx]

theorem inHeap_bind (g : Heap → α) (f : α → Eval β) (env : Env) (w : World) :
    (inHeap g >>= f) env w = f (g w.heap) env w := rfl

theorem tryCatch_ok (h : x env w = .ok a w') (f : Failure → Eval α) :
    (tryCatch x f : Eval α) env w = .ok a w' := by
  change EStateM.tryCatch (x env) (fun e => f e env) w = _
  simp only [EStateM.tryCatch, h]

theorem tryCatch_error (h : x env w = .error e w') (f : Failure → Eval α) :
    (tryCatch x f : Eval α) env w = f e env w' := by
  change EStateM.tryCatch (x env) (fun e => f e env) w = _
  simp only [EStateM.tryCatch, h]
  rfl

/-- The world that an action leaves, however it ends. -/
def worldAfter (x : Eval α) (env : Env) (w : World) : World :=
  match x env w with
  | .ok _ w' => w'
  | .error _ w' => w'

theorem worldAfter_ok (h : x env w = .ok a w') : x.worldAfter env w = w' := by
  rw [worldAfter, h]

theorem worldAfter_error (h : x env w = .error e w') : x.worldAfter env w = w' := by
  rw [worldAfter, h]

theorem worldAfter_bind_ok (h : x env w = .ok a w') (f : α → Eval β) :
    (x >>= f).worldAfter env w = (f a).worldAfter env w' := by
  rw [worldAfter, bind_ok h, worldAfter]

theorem worldAfter_bind_error (h : x env w = .error e w') (f : α → Eval β) :
    (x >>= f).worldAfter env w = w' :=
  worldAfter_error (bind_error h f)

/-- Does the action succeed, with a result and a world as wanted? -/
def succeeds (x : Eval α) (env : Env) (w : World) (p : α → World → Bool) : Bool :=
  match x env w with
  | .ok a w' => p a w'
  | .error _ _ => false

theorem exists_of_succeeds {p : α → World → Bool} (h : x.succeeds env w p = true) :
    ∃ a w', x env w = .ok a w' ∧ p a w' = true := by
  rw [succeeds] at h
  cases hx : x env w with
  | ok a w' => exact ⟨a, w', rfl, by rwa [hx] at h⟩
  | error e w' => rw [hx] at h; cases h

/-- Does the action fail, with a diagnostic and a world as wanted? -/
def fails (x : Eval α) (env : Env) (w : World) (p : Diagnostic → World → Bool) : Bool :=
  match x env w with
  | .error (.fault (.runtime d none)) w' => p d w'
  | _ => false

theorem exists_of_fails {p : Diagnostic → World → Bool} (h : x.fails env w p = true) :
    ∃ d w', x env w = .error (.fault (.runtime d none)) w' ∧ p d w' = true := by
  rw [fails] at h
  split at h
  next d w' hx => exact ⟨d, w', hx, h⟩
  next => cases h

end Eval

/-! ## Worlds -/

namespace World

/-- The depth of calls of an interpreter. -/
def depthOf (w : World) (i : Nat) : Nat := (w.interpreters.getD i default).frame.depth

/-- An interpreter of the world. -/
def row (w : World) (i : Nat) : Interpreter := w.interpreters.getD i default

/-- The interpreters have root scopes and stand in scopes that there are. -/
def Placed (w : World) : Prop := ∀ i < w.interpreters.size,
  (w.row i).root.index < w.heap.scopes.size ∧ (w.row i).frame.scope.index < w.heap.scopes.size

/-- How much there is in a world. -/
def extent (w : World) : Extent := w.heap.extent w.interpreters.size

/-- The heap of the world is sound. -/
def Sound (w : World) : Prop := w.heap.Sound w.interpreters.size

end World

/-- Where execution stands. -/
structure Context where
  /-- Is the heap known to be sound? -/
  checked : Prop
  /-- The number of interpreters that are left as they are. -/
  kept : Nat
  /-- The interpreters of the calls in progress, innermost first. -/
  stack : List InterpreterId
  env : Env
  /-- A heap from before; its constants are known, and its scopes are spared. -/
  before : Heap
  /-- The names that may be bound in spared scopes, as properties of modules. -/
  exposed : ScopeRef → String → Prop
  /-- May the first of two actions be halted? -/
  halting : Prop

/-- The scope is one in which nothing is bound. -/
def Context.Spares (c : Context) (s : ScopeRef) : Prop :=
  c.checked ∧ s.index < c.before.scopes.size

/-- What may become of the scopes and the dictionaries of a heap. -/
structure Context.Keeps (c : Context) (h h' : Heap) : Prop where
  constants : h.KeepsConstants h'
  spared : ∀ s, c.Spares s → Heap.KeepsScope (c.exposed s) s h h'
  built : c.checked → h.Built → h'.Built

/-- An interpreter has the directory of the file that it is named after, or neither. -/
def Session.AtHome (dir name : String) : Prop :=
  dir = "" ∧ name = "" ∨ name ≠ "" ∧ dir = Path.directory name

/-- What an interpreter may become: it stays in its scope or goes to its root, and stays at
home. -/
def Context.Follows (c : Context) (i i' : Interpreter) : Prop :=
  i'.root = i.root ∧ (i.pending = [] → i'.pending = []) ∧
    (i'.frame.scope = i.frame.scope ∨ i'.frame.scope = i.root ∧ ¬ c.Spares i.root) ∧
    (Session.AtHome i.dir i.name → Session.AtHome i'.dir i'.name)

/-- What execution may do to a world. -/
structure World.Evolves (c : Context) (w w' : World) : Prop where
  size : w.interpreters.size ≤ w'.interpreters.size
  rows : ∀ i < c.kept, w'.interpreters[i]? = w.interpreters[i]?
  depth : ∀ i, w'.depthOf i = w.depthOf i
  sound : c.checked → w.Sound → w.extent ≤ w'.extent ∧ w'.Sound
  keeps : c.Keeps w.heap w'.heap
  follows : ∀ i < w.interpreters.size, c.Follows (w.row i) (w'.row i)
  placed : w.Placed → w'.Placed

namespace Context

/-- The world is one in which execution may stand: each interpreter has as many
calls in progress as its depth says, and no more than are allowed. -/
structure Ready (c : Context) (w : World) : Prop where
  kept : c.kept ≤ w.interpreters.size
  sound : c.checked → w.Sound
  self : c.checked → c.env.self.index < w.interpreters.size
  counted : c.checked →
    ∀ i, w.depthOf i = c.stack.count ⟨i⟩ ∧ w.depthOf i ≤ c.env.setup.maxDepth
  constants : c.before.KeepsConstants w.heap
  placed : c.checked → w.Placed

/-- The executing interpreter stands in a scope in which names may be bound. -/
def Stands (c : Context) (w : World) : Prop :=
  ¬ c.Spares (w.row c.env.self.index).frame.scope

/-- A value that refers to what exists. -/
def Good (c : Context) (w : World) (v : Value) : Prop := c.checked → v.Within w.extent

/-- Values that refer to what exists. -/
def AllGood (c : Context) (w : World) (vs : List Value) : Prop := ∀ v ∈ vs, c.Good w v

theorem allGood_nil (c : Context) (w : World) : c.AllGood w [] :=
  fun _ hv => absurd hv List.not_mem_nil

/-- The end of a statement, with a value that refers to what exists. -/
def GoodFlow (c : Context) (w : World) : Flow → Prop
  | .returned v => c.Good w v
  | _ => True

/-- Nothing is asked of a result. -/
def Any {α : Type} (_ : World) (_ : α) : Prop := True

/-- Nothing is spared where nothing is known of the heap. -/
theorem not_spares (c : Context) (hc : ¬ c.checked) (s : ScopeRef) : ¬ c.Spares s :=
  fun hs => hc hs.1

namespace Keeps

variable {c : Context} {h h' h'' : Heap}

theorem of_scopes (he : h'.scopes = h.scopes) (hb : c.checked → h.Built → h'.Built) :
    c.Keeps h h' :=
  ⟨.of_eq he, fun s _ => .of_eq (Heap.scope_congr he s), hb⟩

theorem of_eq (he : h'.scopes = h.scopes) (hd : h'.dicts = h.dicts) : c.Keeps h h' :=
  of_scopes he fun _ hb => by rwa [Heap.Built, hd]

theorem of_careful {α : Type} {P : α → Prop} {x : StateM Heap α}
    (hx : Heap.Careful (c.checked ∧ h.Built) P x) : c.Keeps h (x.run h).2 :=
  have made := hx h And.right
  of_scopes made.1 fun hc hb => (made.2 ⟨hc, hb⟩).1

theorem trans (k : c.Keeps h h') (l : c.Keeps h' h'') : c.Keeps h h'' :=
  ⟨k.constants.trans l.constants, fun s hs => (k.spared s hs).trans (l.spared s hs),
    fun hc hb => l.built hc (k.built hc hb)⟩

/-- A name is bound in a scope that is not spared. -/
theorem bind {s : ScopeRef} {name : String} (hs : ¬ c.Spares s) (hn : h.isConstant s name = false)
    (v : Value) (constant : Bool) : c.Keeps h (h.bind s name v constant) := by
  refine ⟨.bind hn v constant, fun t ht => .of_eq (Heap.scope_bind_of_ne ?_ name v constant),
    fun _ => id⟩
  rintro rfl
  exact hs ht

/-- A name that is exposed is bound. -/
theorem bind_exposed {s : ScopeRef} {name : String} (he : c.exposed s name)
    (hn : h.isConstant s name = false) (v : Value) : c.Keeps h (h.bind s name v false) := by
  refine ⟨.bind hn v false, fun t ht => ?_, fun _ => id⟩
  by_cases hst : s = t
  · subst hst
    exact .bind he v
  · exact .of_eq (Heap.scope_bind_of_ne hst name v false)

/-- A scope is added behind those that are spared. -/
theorem newScope (hb : c.before.KeepsConstants h) (sc : Scope) : c.Keeps h (h.newScope sc).2 :=
  ⟨.newScope h sc, fun _ hs =>
    .of_eq (Heap.scope_newScope_of_lt (Nat.lt_of_lt_of_le hs.2 hb.size) sc), fun _ => id⟩

end Keeps

namespace Follows

variable {c : Context} {i i' i'' : Interpreter}

theorem refl (c : Context) (i : Interpreter) : c.Follows i i := ⟨rfl, id, .inl rfl, id⟩

theorem trans (h : c.Follows i i') (k : c.Follows i' i'') : c.Follows i i'' := by
  obtain ⟨hroot, hpending, hscope, hhome⟩ := h
  obtain ⟨kroot, kpending, kscope, khome⟩ := k
  refine ⟨kroot.trans hroot, fun hp => kpending (hpending hp), ?_, fun home => khome (hhome home)⟩
  rcases kscope with ks | ⟨ks, hn⟩
  · rwa [ks]
  · rw [hroot] at ks hn
    exact .inr ⟨ks, hn⟩

theorem stands (h : c.Follows i i') (hs : ¬ c.Spares i.frame.scope) :
    ¬ c.Spares i'.frame.scope := by
  rcases h.2.2.1 with hscope | ⟨hscope, hn⟩
  · rwa [hscope]
  · rwa [hscope]

end Follows

end Context

namespace World.Evolves

variable {c : Context} {w w' w'' : World}

theorem refl (c : Context) (w : World) : World.Evolves c w w where
  size := Nat.le_refl _
  rows _ _ := rfl
  depth _ := rfl
  sound _ hs := ⟨Extent.le_refl _, hs⟩
  keeps := .of_eq rfl rfl
  follows _ _ := .refl c _
  placed hp := hp

theorem trans (h : World.Evolves c w w') (k : World.Evolves c w' w'') : World.Evolves c w w'' where
  size := Nat.le_trans h.size k.size
  rows i hi := (k.rows i hi).trans (h.rows i hi)
  depth i := (k.depth i).trans (h.depth i)
  sound hc hs := by
    obtain ⟨he, hs'⟩ := h.sound hc hs
    obtain ⟨he', hs''⟩ := k.sound hc hs'
    exact ⟨Extent.le_trans he he', hs''⟩
  keeps := h.keeps.trans k.keeps
  follows i hi := (h.follows i hi).trans (k.follows i (Nat.lt_of_lt_of_le hi h.size))
  placed hp := k.placed (h.placed hp)

theorem ready (h : World.Evolves c w w') (hr : c.Ready w) : c.Ready w' where
  kept := Nat.le_trans hr.kept h.size
  sound hc := (h.sound hc (hr.sound hc)).2
  self hc := Nat.lt_of_lt_of_le (hr.self hc) h.size
  counted hc i := by rw [h.depth]; exact hr.counted hc i
  constants := hr.constants.trans h.keeps.constants
  placed hc := h.placed (hr.placed hc)

theorem stands (h : World.Evolves c w w') (hr : c.Ready w) (hs : c.Stands w) : c.Stands w' := by
  by_cases hc : c.checked
  · exact (h.follows _ (hr.self hc)).stands hs
  · exact c.not_spares hc _

theorem good (h : World.Evolves c w w') (hr : c.Ready w) {v : Value} (hv : c.Good w v) :
    c.Good w' v :=
  fun hc => (hv hc).mono (h.sound hc (hr.sound hc)).1

theorem allGood (h : World.Evolves c w w') (hr : c.Ready w) {vs : List Value}
    (hv : c.AllGood w vs) : c.AllGood w' vs :=
  fun v hmem => h.good hr (hv v hmem)

/-- Another executing interpreter or other calls in progress make no difference. -/
theorem congr {d : Context} (h : World.Evolves c w w')
    (hd : d = { c with stack := d.stack, env := d.env }) : World.Evolves d w w' := by
  rw [hd]
  exact ⟨h.size, h.rows, h.depth, h.sound, ⟨h.keeps.constants, h.keeps.spared, h.keeps.built⟩,
    h.follows, h.placed⟩

/-- A change of the heap alone. -/
theorem heap (hi : w'.interpreters = w.interpreters)
    (hh : c.checked → w.Sound →
      w.heap.extent w.interpreters.size ≤ w'.heap.extent w.interpreters.size ∧
        w'.heap.Sound w.interpreters.size)
    (hk : c.Keeps w.heap w'.heap) : World.Evolves c w w' where
  size := Nat.le_of_eq (congrArg Array.size hi.symm)
  rows _ _ := by rw [hi]
  depth _ := by rw [World.depthOf, hi]; rfl
  sound hc hs := by
    rw [World.Sound, World.extent, World.extent, hi]
    exact hh hc hs
  keeps := hk
  follows i _ := by rw [World.row, World.row, hi]; exact .refl c _
  placed hp i hi' := by
    rw [hi] at hi'
    rw [World.row, hi]
    obtain ⟨hroot, hscope⟩ := hp i hi'
    exact ⟨Nat.lt_of_lt_of_le hroot hk.constants.size, Nat.lt_of_lt_of_le hscope hk.constants.size⟩

/-- A change of neither the heap nor the interpreters. -/
theorem other (hw : w'.heap = w.heap) (hi : w'.interpreters = w.interpreters) :
    World.Evolves c w w' :=
  heap hi (fun _ hs => hw.symm ▸ ⟨Extent.le_refl _, hs⟩)
    (.of_eq (congrArg Heap.scopes hw) (congrArg Heap.dicts hw))

end World.Evolves

/-! ## The judgement -/

section Judgement

variable {α β : Type} {c : Context} {w w' : World}

/-- What is asked of how an action ends. -/
def Leads (c : Context) (w : World) (V : World → α → Prop) (E : Fault → Prop) :
    EStateM.Result Failure World α → Prop
  | .ok a w' => w.Evolves c w' ∧ V w' a
  | .error (.fault f) w' => w.Evolves c w' ∧ E f
  | .error .outOfFuel w' => w.Evolves c w'

/-- Two actions do the same, or the first is halted on the way. -/
def Agree (c : Context) (w : World) (x y : Eval α) : Prop :=
  x c.env w = y c.env w ∨ c.halting ∧ ∃ w₁, x c.env w = .error .outOfFuel w₁ ∧
    w.Evolves c w₁ ∧ w₁.heap.KeepsConstants (y.worldAfter c.env w).heap

/-- Two actions do the same as far as the first goes, and it is safe. -/
def Safe (c : Context) (w : World) (x y : Eval α) (V : World → α → Prop) (E : Fault → Prop) : Prop :=
  c.Ready w → Agree c w x y ∧ Leads c w V E (y c.env w)

/-- The faults that a program can catch. -/
def Catchable (f : Fault) : Prop := f.catchable = true

/-- Any fault at all. -/
def AnyFault (_ : Fault) : Prop := True

theorem Leads.mono {V U : World → α → Prop} {E F : Fault → Prop} {r : EStateM.Result Failure World α}
    (h : Leads c w V E r) (hV : ∀ w' a, w.Evolves c w' → V w' a → U w' a) (hE : ∀ f, E f → F f) :
    Leads c w U F r := by
  match r, h with
  | .ok a w', h => exact ⟨h.1, hV w' a h.1 h.2⟩
  | .error (.fault f) w', h => exact ⟨h.1, hE f h.2⟩
  | .error .outOfFuel w', h => exact h

/-- What follows from a world that has evolved follows from the one before. -/
theorem Leads.after {V : World → α → Prop} {E : Fault → Prop} {r : EStateM.Result Failure World α}
    (h : w.Evolves c w') (k : Leads c w' V E r) : Leads c w V E r := by
  match r, k with
  | .ok a w', k => exact ⟨h.trans k.1, k.2⟩
  | .error (.fault f) w', k => exact ⟨h.trans k.1, k.2⟩
  | .error .outOfFuel w', k => exact h.trans k

theorem Leads.evolves {V : World → α → Prop} {E : Fault → Prop} {x : Eval α} {env : Env}
    (h : Leads c w V E (x env w)) : w.Evolves c (x.worldAfter env w) := by
  rw [Eval.worldAfter]
  cases hres : x env w with
  | ok a w' =>
      rw [hres] at h
      exact h.1
  | error e w' =>
      rw [hres] at h
      cases e with
      | fault f => exact h.1
      | outOfFuel => exact h

namespace Agree

variable {x y : Eval α}

theorem refl (c : Context) (w : World) (x : Eval α) : Agree c w x x := .inl rfl

theorem eq (h : Agree c w x y) (hc : ¬ c.halting) : x c.env w = y c.env w :=
  h.resolve_right fun hh => hc hh.1

/-- What follows from a world that has evolved follows from the one before. -/
theorem after {x' y' : Eval α} (h : w.Evolves c w') (k : Agree c w' x y)
    (hx : x' c.env w = x c.env w') (hy : y' c.env w = y c.env w') : Agree c w x' y' := by
  rcases k with heq | ⟨hc, w₁, hhalt, hev, hkept⟩
  · exact .inl (hx.trans (heq.trans hy.symm))
  · refine .inr ⟨hc, w₁, hx.trans hhalt, h.trans hev, ?_⟩
    rwa [Eval.worldAfter, hy]

end Agree

namespace Safe

variable {V U : World → α → Prop} {E F : Fault → Prop} {x y : Eval α}

theorem mono (h : Safe c w x y V E) (hV : ∀ w' a, w.Evolves c w' → V w' a → U w' a)
    (hE : ∀ f, E f → F f) : Safe c w x y U F :=
  fun hr => ⟨(h hr).1, (h hr).2.mono hV hE⟩

theorem weaken (h : Safe c w x y V E) (hV : ∀ w' a, V w' a → U w' a) : Safe c w x y U E :=
  h.mono (fun w' a _ => hV w' a) fun _ hf => hf

/-- A world in which execution may stand may be assumed. -/
theorem ready (h : c.Ready w → Safe c w x y V E) : Safe c w x y V E := fun hr => h hr hr

/-! ### Results, faults and sequences -/

theorem pure {a : α} (ha : V w a) : Safe c w (pure a) (pure a) V E :=
  fun _ => ⟨.refl c w _, .refl c w, ha⟩

theorem raise {f : Fault} (hf : E f) : Safe c w (Eval.raise f : Eval α) (Eval.raise f) V E :=
  fun _ => ⟨.refl c w _, .refl c w, hf⟩

theorem outOfFuel : Safe c w (Eval.outOfFuel : Eval α) Eval.outOfFuel V E :=
  fun _ => ⟨.refl c w _, .refl c w⟩

theorem bind {U : World → β → Prop} {f g : α → Eval β} (hx : Safe c w x y V E)
    (hf : ∀ a w', c.Ready w → w.Evolves c w' → V w' a → Safe c w' (f a) (g a) U E) :
    Safe c w (x >>= f) (y >>= g) U E := by
  intro hr
  obtain ⟨hagree, hleads⟩ := hx hr
  cases hres : y c.env w with
  | ok a w' =>
      rw [hres] at hleads
      obtain ⟨hev, hV⟩ := hleads
      obtain ⟨hagree', hleads'⟩ := hf a w' hr hev hV (hev.ready hr)
      refine ⟨?_, (Eval.bind_ok hres g).symm ▸ hleads'.after hev⟩
      rcases hagree with heq | ⟨hc, w₁, hhalt, hev₁, hkept⟩
      · exact hagree'.after hev (Eval.bind_ok (heq.trans hres) f) (Eval.bind_ok hres g)
      · refine .inr ⟨hc, w₁, Eval.bind_error hhalt f, hev₁, ?_⟩
        rw [Eval.worldAfter_ok hres] at hkept
        rw [Eval.worldAfter_bind_ok hres]
        exact hkept.trans hleads'.evolves.keeps.constants
  | error e w' =>
      rw [hres] at hleads
      have hy := Eval.bind_error hres g
      refine ⟨?_, by rw [hy]; cases e <;> exact hleads⟩
      rcases hagree with heq | ⟨hc, w₁, hhalt, hev₁, hkept⟩
      · exact .inl ((Eval.bind_error (heq.trans hres) f).trans hy.symm)
      · refine .inr ⟨hc, w₁, Eval.bind_error hhalt f, hev₁, ?_⟩
        rw [Eval.worldAfter_error hres] at hkept
        rwa [Eval.worldAfter_error hy]

/-- A look at the world that changes nothing. -/
theorem look {U : World → β → Prop} {z : Eval α} {a : α} {f g : α → Eval β}
    (hz : z c.env w = .ok a w) (hf : Safe c w (f a) (g a) U E) :
    Safe c w (z >>= f) (z >>= g) U E := by
  intro hr
  obtain ⟨hagree, hleads⟩ := hf hr
  refine ⟨hagree.after (.refl c w) (Eval.bind_ok hz f) (Eval.bind_ok hz g), ?_⟩
  rwa [Eval.bind_ok hz]

/-- However a safe action ends, the world evolves. -/
theorem evolves (h : Safe c w x y V E) (hr : c.Ready w) :
    w.Evolves c (y.worldAfter c.env w) := (h hr).2.evolves

/-- One change of the world. -/
theorem step {z : Eval α} {a : α} (hz : z c.env w = .ok a w')
    (hev : c.Ready w → w.Evolves c w') (ha : c.Ready w → V w' a) : Safe c w z z V E :=
  fun hr => ⟨.refl c w z, by rw [hz]; exact ⟨hev hr, ha hr⟩⟩

/-- An action that is halted is not caught. -/
theorem tryCatch {f g : Failure → Eval α} (hs : f .outOfFuel = Eval.outOfFuel)
    (hx : Safe c w x y V E)
    (hf : ∀ e w', c.Ready w → w.Evolves c w' → (∀ k, e = .fault k → E k) →
      Safe c w' (f e) (g e) V F) :
    Safe c w (tryCatch x f) (tryCatch y g) V F := by
  intro hr
  obtain ⟨hagree, hleads⟩ := hx hr
  have hhalts : ∀ {w₁}, x c.env w = .error .outOfFuel w₁ →
      (MonadExcept.tryCatch x f : Eval α) c.env w = .error .outOfFuel w₁ := by
    intro w₁ hhalt
    rw [Eval.tryCatch_error hhalt, hs]
    rfl
  cases hres : y c.env w with
  | ok a w' =>
      rw [hres] at hleads
      have hy := Eval.tryCatch_ok hres g
      refine ⟨?_, hy.symm ▸ hleads⟩
      rcases hagree with heq | ⟨hc, w₁, hhalt, hev₁, hkept⟩
      · exact .inl ((Eval.tryCatch_ok (heq.trans hres) f).trans hy.symm)
      · refine .inr ⟨hc, w₁, hhalts hhalt, hev₁, ?_⟩
        rw [Eval.worldAfter_ok hres] at hkept
        rwa [Eval.worldAfter_ok hy]
  | error e w' =>
      rw [hres] at hleads
      have hev : w.Evolves c w' ∧ ∀ k, e = .fault k → E k := by
        cases e with
        | fault k => exact ⟨hleads.1, fun _ hk => by cases hk; exact hleads.2⟩
        | outOfFuel => exact ⟨hleads, fun _ hk => by cases hk⟩
      obtain ⟨hagree', hleads'⟩ := hf e w' hr hev.1 hev.2 (hev.1.ready hr)
      have hy := Eval.tryCatch_error hres g
      refine ⟨?_, hy.symm ▸ hleads'.after hev.1⟩
      rcases hagree with heq | ⟨hc, w₁, hhalt, hev₁, hkept⟩
      · exact hagree'.after hev.1 (Eval.tryCatch_error (heq.trans hres) f) hy
      · refine .inr ⟨hc, w₁, hhalts hhalt, hev₁, ?_⟩
        rw [Eval.worldAfter_error hres] at hkept
        rw [Eval.worldAfter, hy]
        exact hkept.trans hleads'.evolves.keeps.constants

theorem discard (hx : Safe c w x y V E) : Safe c w (discard x) (discard y) Context.Any E := by
  rw [Eval.discard_eq, Eval.discard_eq]
  exact hx.bind fun _ _ _ _ _ => pure trivial

/-- Actions for the elements of a list, in order. -/
theorem mapM {κ : Type} {f g : κ → Eval α} (hV : ∀ w w' a, c.Ready w → w.Evolves c w' → V w a → V w' a) :
    ∀ (ks : List κ) (w : World),
      (∀ k ∈ ks, ∀ w', c.Ready w → w.Evolves c w' → Safe c w' (f k) (g k) V E) →
      Safe c w (ks.mapM f) (ks.mapM g) (fun w' as => ∀ a ∈ as, V w' a) E
  | [], w, _ => pure fun _ ha => nomatch ha
  | k :: ks, w, hf => by
      rw [List.mapM_cons, List.mapM_cons]
      refine ready fun hr => (hf k List.mem_cons_self w hr (.refl c w)).bind fun a w₁ _ h₁ ha => ?_
      have hrest := mapM hV ks w₁ fun j hj w' _ h' =>
        hf j (List.mem_cons_of_mem k hj) w' hr (h₁.trans h')
      refine hrest.bind fun as w₂ hr₁ h₂ has => pure ?_
      intro b hb
      rcases List.mem_cons.mp hb with rfl | hb
      · exact hV _ _ _ hr₁ h₂ ha
      · exact has b hb

/-! ### Faults and their places -/

theorem fail {t : Trouble} (hf : E (.unplaced t)) : Safe c w (Eval.fail t : Eval α) (Eval.fail t) V E :=
  raise hf

theorem failAt {span : Span} {t : Trouble} :
    Safe c w (Eval.failAt span t : Eval α) (Eval.failAt span t) V Catchable :=
  fun _ => ⟨.refl c w _, .refl c w, rfl⟩

theorem fail_bind {β : Type} {t : Trouble} {f g : β → Eval α} (hf : E (.unplaced t)) :
    Safe c w ((Eval.fail t : Eval β) >>= f) ((Eval.fail t : Eval β) >>= g) V E :=
  (fail (V := fun _ _ => False) hf).bind fun _ _ _ _ h => h.elim

theorem failAt_bind {β : Type} {span : Span} {t : Trouble} {f g : β → Eval α} :
    Safe c w ((Eval.failAt span t : Eval β) >>= f) ((Eval.failAt span t : Eval β) >>= g) V
      Catchable :=
  (failAt (V := fun _ _ => False)).bind fun _ _ _ _ h => h.elim

theorem ofExcept {r : Except Trouble α} (hV : ∀ a, r = .ok a → V w a)
    (hE : ∀ t, E (.unplaced t)) : Safe c w (Eval.ofExcept r) (Eval.ofExcept r) V E := by
  cases r with
  | ok a => exact pure (hV a rfl)
  | error t => exact fail (hE t)

theorem ofExceptAt {span : Span} {r : Except Trouble α} (hV : ∀ a, r = .ok a → V w a) :
    Safe c w (Eval.ofExceptAt span r) (Eval.ofExceptAt span r) V Catchable := by
  cases r with
  | ok a => exact pure (hV a rfl)
  | error t => exact failAt

end Safe

/-- Placing a fault changes nothing and gives one that can be caught. -/
theorem Eval.place_eq (span : Span) (f : Fault) (env : Env) (w : World) :
    ∃ g, Eval.place span f env w = .ok g w ∧ Catchable g := by
  have hrel : ∀ d : Diagnostic, ∃ d', Eval.relocate span d env w = .ok d' w := by
    intro d
    simp only [Eval.relocate]
    split <;> exact ⟨_, rfl⟩
  cases f with
  | runtime d cause =>
      obtain ⟨d', hd⟩ := hrel d
      exact ⟨.runtime d' cause, Eval.bind_ok hd _, rfl⟩
  | moduleNotFound d name searched =>
      obtain ⟨d', hd⟩ := hrel d
      exact ⟨.moduleNotFound d' name searched, Eval.bind_ok hd _, rfl⟩
  | unplaced t => exact ⟨_, rfl, rfl⟩
  | source e => exact ⟨_, rfl, rfl⟩
  | plain message => exact ⟨_, rfl, rfl⟩

theorem Safe.placed {V : World → α → Prop} {E : Fault → Prop} {x y : Eval α} {span : Span}
    (hx : Safe c w x y V E) : Safe c w (Eval.placed span x) (Eval.placed span y) V Catchable := by
  refine .tryCatch rfl hx fun e w' _ _ _ => ?_
  cases e with
  | fault f =>
      obtain ⟨g, hg, hcatch⟩ := Eval.place_eq span f c.env w'
      exact look hg (raise hcatch)
  | outOfFuel => exact outOfFuel

/-! ## Other interpreters and other frames -/

/-- The context of an action on another interpreter. -/
def Context.on (c : Context) (id : InterpreterId) : Context :=
  { c with env := { c.env with self := id } }

theorem Context.Ready.on (hr : c.Ready w) {id : InterpreterId}
    (hid : c.checked → id.index < w.interpreters.size) : (c.on id).Ready w :=
  ⟨hr.kept, hr.sound, hid, hr.counted, hr.constants, hr.placed⟩

theorem Safe.on {V : World → α → Prop} {E : Fault → Prop} {x y : Eval α} {id : InterpreterId}
    (hid : c.checked → id.index < w.interpreters.size) (hx : Safe (c.on id) w x y V E) :
    Safe c w (Eval.on id x) (Eval.on id y) V E := by
  intro hr
  obtain ⟨hagree, hleads⟩ := hx (hr.on hid)
  constructor
  · rcases hagree with heq | ⟨hc, w₁, hhalt, hev, hkept⟩
    · exact .inl heq
    · exact .inr ⟨hc, w₁, hhalt, hev.congr rfl, hkept⟩
  · change Leads c w V E (y (c.on id).env w)
    cases hres : y (c.on id).env w with
    | ok a w' =>
        rw [hres] at hleads
        exact ⟨hleads.1.congr rfl, hleads.2⟩
    | error e w' =>
        rw [hres] at hleads
        cases e with
        | fault f => exact ⟨hleads.1.congr rfl, hleads.2⟩
        | outOfFuel => exact hleads.congr rfl

end Judgement

/-- The world with an interpreter in another frame. -/
def World.setFrame (w : World) (id : InterpreterId) (f : Frame) : World :=
  { w with interpreters := w.interpreters.modify id.index fun i => { i with frame := f } }

namespace World

variable (w : World) (id : InterpreterId) (f : Frame)

@[simp] theorem heap_setFrame : (w.setFrame id f).heap = w.heap := rfl

@[simp] theorem size_setFrame : (w.setFrame id f).interpreters.size = w.interpreters.size :=
  Array.size_modify

theorem extent_setFrame : (w.setFrame id f).extent = w.extent := by
  rw [extent, size_setFrame]; rfl

theorem sound_setFrame : (w.setFrame id f).Sound ↔ w.Sound := by
  rw [Sound, Sound, size_setFrame]; rfl

theorem row_setFrame (i : Nat) : (w.setFrame id f).row i =
    if id.index = i ∧ id.index < w.interpreters.size then { w.row i with frame := f }
    else w.row i := by
  simp only [row, setFrame, Heap.getD_modify]

/-- An interpreter goes into a scope that there is. -/
theorem Placed.setFrame {w : World} (hp : w.Placed) {f : Frame}
    (hf : f.scope.index < w.heap.scopes.size) : (w.setFrame id f).Placed := by
  intro i hi
  rw [size_setFrame] at hi
  rw [row_setFrame]
  split
  · exact ⟨(hp i hi).1, hf⟩
  · exact hp i hi

theorem depthOf_setFrame (i : Nat) : (w.setFrame id f).depthOf i =
    if id.index = i ∧ id.index < w.interpreters.size then f.depth else w.depthOf i := by
  simp only [depthOf, setFrame, Heap.getD_modify]
  split <;> rfl

theorem getElem?_setFrame (i : Nat) : (w.setFrame id f).interpreters[i]? =
    if id.index = i then (w.interpreters[i]?).map fun r => { r with frame := f }
    else w.interpreters[i]? :=
  Array.getElem?_modify

end World

namespace Eval

variable {α : Type} {x : Eval α} {env : Env} {w w' : World} {f : Frame}

/-- The frame of the executing interpreter. -/
def frameIn (env : Env) (w : World) : Frame := (w.interpreters.getD env.self.index default).frame

theorem withFrame_ok {a : α} (h : x env (w.setFrame env.self f) = .ok a w') :
    withFrame f x env w = .ok a (w'.setFrame env.self (frameIn env w)) := by
  have hcatch := tryCatch_ok h fun e => do
    changeSelf fun i => { i with frame := frameIn env w }
    throw e
  exact bind_ok hcatch _

theorem withFrame_error {e : Failure} (h : x env (w.setFrame env.self f) = .error e w') :
    withFrame f x env w = .error e (w'.setFrame env.self (frameIn env w)) := by
  have hcatch := tryCatch_error h fun e => do
    changeSelf fun i => { i with frame := frameIn env w }
    throw e
  exact bind_error hcatch _

end Eval

section Frames

variable {α : Type} {c : Context} {w w' : World} {f : Frame}

/-- The context of a call on the executing interpreter. -/
def Context.push (c : Context) : Context := { c with stack := c.env.self :: c.stack }

theorem Context.Ready.push (hr : c.Ready w)
    (hf : f.scope.index < w.heap.scopes.size)
    (hd : f.depth = w.depthOf c.env.self.index + 1)
    (hmax : w.depthOf c.env.self.index < c.env.setup.maxDepth) :
    c.push.Ready (w.setFrame c.env.self f) where
  kept := by rw [World.size_setFrame]; exact hr.kept
  sound hc := (w.sound_setFrame _ f).mpr (hr.sound hc)
  self hc := by rw [World.size_setFrame]; exact hr.self hc
  counted hc i := by
    obtain ⟨hcount, hle⟩ := hr.counted hc i
    have hself := hr.self hc
    rw [World.depthOf_setFrame]
    by_cases hi : c.env.self.index = i
    · subst hi
      rw [if_pos ⟨rfl, hself⟩, hd, hcount]
      exact ⟨(List.count_cons_self).symm, by rw [← hcount]; exact hmax⟩
    · have hne : (c.env.self == (⟨i⟩ : InterpreterId)) = false := by
        simp only [beq_eq_false_iff_ne]
        rintro hself'
        exact hi (congrArg InterpreterId.index hself')
      rw [if_neg fun h => hi h.1]
      refine ⟨?_, hle⟩
      rw [hcount]
      exact (List.count_cons_of_ne (by simpa using hne)).symm
  constants := hr.constants
  placed hc := (hr.placed hc).setFrame _ hf

/-- In the frame of a call, the executing interpreter stands in the call's scope. -/
theorem Context.Ready.stands_push (hr : c.Ready w) (hf : ¬ c.Spares f.scope) :
    c.push.Stands (w.setFrame c.env.self f) := by
  by_cases hc : c.checked
  · change ¬ c.Spares ((w.setFrame c.env.self f).row c.env.self.index).frame.scope
    rw [World.row_setFrame, if_pos ⟨rfl, hr.self hc⟩]
    exact hf
  · exact c.not_spares hc _

/-- What happens during a call, seen from outside: the frame is put back. -/
theorem World.Evolves.pop (hf : f.scope.index < w.heap.scopes.size)
    (hev : (w.setFrame c.env.self f).Evolves c.push w') :
    w.Evolves c (w'.setFrame c.env.self (Eval.frameIn c.env w)) where
  size := by
    have := hev.size
    rwa [World.size_setFrame, ← World.size_setFrame w' c.env.self (Eval.frameIn c.env w)] at this
  rows i hi := by
    have hrow := hev.rows i hi
    rw [World.getElem?_setFrame] at hrow ⊢
    by_cases hself : c.env.self.index = i
    · rw [if_pos hself] at hrow ⊢
      rw [hrow]
      cases hwi : w.interpreters[i]? with
      | none => rfl
      | some row =>
          have hframe : Eval.frameIn c.env w = row.frame := by
            rw [Eval.frameIn, Array.getD_eq_getD_getElem?, hself, hwi, Option.getD_some]
          rw [hframe]
          rfl
    · rw [if_neg hself] at hrow ⊢
      exact hrow
  depth i := by
    have hdepth := hev.depth i
    rw [World.depthOf_setFrame] at hdepth ⊢
    split
    next h =>
      rw [Eval.frameIn, World.depthOf, h.1]
    next h =>
      rw [hdepth]
      split
      next h' =>
        have := hev.size
        rw [World.size_setFrame] at this
        exact absurd ⟨h'.1, by omega⟩ h
      next => rfl
  sound hc hs := by
    obtain ⟨he, hs'⟩ := hev.sound hc ((w.sound_setFrame _ f).mpr hs)
    rw [World.extent_setFrame] at he
    exact ⟨(w'.extent_setFrame _ _).symm ▸ he, (w'.sound_setFrame _ _).mpr hs'⟩
  keeps := ⟨hev.keeps.constants, hev.keeps.spared, hev.keeps.built⟩
  follows i hi := by
    have hsize := hev.size
    rw [World.size_setFrame] at hsize
    have hrow := hev.follows i ((World.size_setFrame ..).symm ▸ hi)
    rw [World.row_setFrame] at hrow ⊢
    by_cases hself : c.env.self.index = i
    · subst hself
      rw [if_pos ⟨rfl, hi⟩] at hrow
      rw [if_pos ⟨rfl, Nat.lt_of_lt_of_le hi hsize⟩]
      exact ⟨hrow.1, hrow.2.1, .inl rfl, hrow.2.2.2⟩
    · rw [if_neg fun h => hself h.1] at hrow ⊢
      exact hrow
  placed hp := by
    refine (hev.placed (hp.setFrame _ hf)).setFrame _ (Nat.lt_of_lt_of_le ?_ hev.keeps.constants.size)
    by_cases hself : c.env.self.index < w.interpreters.size
    · exact (hp _ hself).2
    · rw [Eval.frameIn, Array.getD_eq_getD_getElem?,
        Array.getElem?_eq_none (Nat.not_lt.mp hself)]
      exact Nat.lt_of_le_of_lt (Nat.zero_le _) hf

/-- A call: the body runs in its own frame, one call deeper. -/
theorem Safe.withFrame {V : World → α → Prop} {E : Fault → Prop} {x y : Eval α}
    (hf : f.scope.index < w.heap.scopes.size)
    (hd : f.depth = w.depthOf c.env.self.index + 1)
    (hmax : w.depthOf c.env.self.index < c.env.setup.maxDepth)
    (hV : ∀ (w' : World) id g a, V w' a → V (w'.setFrame id g) a)
    (hx : Safe c.push (w.setFrame c.env.self f) x y V E) :
    Safe c w (Eval.withFrame f x) (Eval.withFrame f y) V E := by
  intro hr
  obtain ⟨hagree, hleads⟩ := hx (hr.push hf hd hmax)
  change Leads _ _ _ _ (y c.env _) at hleads
  have hafter : (Eval.withFrame f y).worldAfter c.env w =
      (y.worldAfter c.env (w.setFrame c.env.self f)).setFrame c.env.self (Eval.frameIn c.env w) := by
    cases hres : y c.env (w.setFrame c.env.self f) with
    | ok a w' => rw [Eval.worldAfter_ok hres, Eval.worldAfter_ok (Eval.withFrame_ok hres)]
    | error e w' => rw [Eval.worldAfter_error hres, Eval.worldAfter_error (Eval.withFrame_error hres)]
  constructor
  · rcases hagree with heq | ⟨hc, w₁, hhalt, hev, hkept⟩
    · change x c.env _ = y c.env _ at heq
      left
      cases hres : y c.env (w.setFrame c.env.self f) with
      | ok a w' => rw [Eval.withFrame_ok (heq.trans hres), Eval.withFrame_ok hres]
      | error e w' => rw [Eval.withFrame_error (heq.trans hres), Eval.withFrame_error hres]
    · refine .inr ⟨hc, _, Eval.withFrame_error hhalt, hev.pop hf, ?_⟩
      rw [hafter]
      exact hkept
  · cases hres : y c.env (w.setFrame c.env.self f) with
    | ok a w' =>
        rw [hres] at hleads
        rw [Eval.withFrame_ok hres]
        exact ⟨hleads.1.pop hf, hV w' _ _ a hleads.2⟩
    | error e w' =>
        rw [hres] at hleads
        rw [Eval.withFrame_error hres]
        cases e with
        | fault k => exact ⟨hleads.1.pop hf, hleads.2⟩
        | outOfFuel => exact World.Evolves.pop hf hleads

end Frames

end Pseudocode
