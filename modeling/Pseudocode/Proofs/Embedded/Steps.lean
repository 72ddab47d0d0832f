import Pseudocode.Proofs.Embedded.Source
import Pseudocode.Proofs.Execution.Methods
import Pseudocode.Proofs.Execution.Loops
import Pseudocode.Proofs.Execution.Settling
import Pseudocode.Run.Machine
/-
# `Proofs.Embedded.Steps` — running a subroutine step by step

While a subroutine runs that makes no calls of other subroutines, all that changes is its own
variables, the arrays and dictionaries, and the number of the next builtin value: its `Memory`.
`Room` is what stays.  There is one rule for each kind of expression and statement; they speak of
trees without spans and hold for every tree that is the same up to spans.
-/
namespace Pseudocode

variable {α β : Type} {env : Env} {w w' w₁ : World} {a : α} {b : β} {x : Nat → Eval α}

/-! ## Where statements run -/

/-- What changes while statements run in a scope: the variables of the scope, what is stored, and
the number of the next builtin value. -/
structure Memory where
  vars : Table Value
  arrays : Array Slots
  dicts : Array Dictionary
  classes : Array Class
  fresh : Nat

/-- A scope without constants and without an observer. -/
def Memory.scope (m : Memory) (name : String) (parent : Option ScopeRef) : Scope :=
  ⟨name, m.vars, [], parent, none⟩

/-- The heap with one more scope, and with this memory. -/
def Heap.holding (h : Heap) (name : String) (parent : Option ScopeRef) (m : Memory) : Heap :=
  { h with
    scopes := h.scopes.push (m.scope name parent)
    arrays := m.arrays
    dicts := m.dicts
    classes := m.classes }

def World.holding (w : World) (name : String) (parent : Option ScopeRef) (m : Memory) : World :=
  { w with heap := w.heap.holding name parent m, nextBuiltin := m.fresh }

/-- What the world holds, with these variables. -/
def World.memory (w : World) (vars : Table Value) : Memory :=
  ⟨vars, w.heap.arrays, w.heap.dicts, w.heap.classes, w.nextBuiltin⟩

section Holding

variable {h : Heap} {name : String} {parent : Option ScopeRef} {m m' m₁ : Memory}

theorem scope_holding : (h.holding name parent m).scope ⟨h.scopes.size⟩ = m.scope name parent := by
  simp only [Heap.scope, Heap.holding, Array.getD_eq_getD_getElem?, Array.getElem?_push_size,
    Option.getD_some]

theorem scope_holding_lt {s : ScopeRef} (before : s.index < h.scopes.size) :
    (h.holding name parent m).scope s = h.scope s := by
  simp only [Heap.scope, Heap.holding, Array.getD_eq_getD_getElem?]
  rw [Array.getElem?_push_lt before, Array.getElem?_eq_getElem before]

/-- Binding a name in the new scope changes the variables, and nobody is told. -/
theorem define_holding (x : String) (v : Value) (env : Env) (w : World) :
    Eval.define ⟨w.heap.scopes.size⟩ x v false env (w.holding name parent m) =
      .ok () (w.holding name parent { m with vars := m.vars.put x v }) := by
  have heap : (w.heap.holding name parent m).bind ⟨w.heap.scopes.size⟩ x v false =
      w.heap.holding name parent { m with vars := m.vars.put x v } := by
    have scopes := Heap.modify_push w.heap.scopes (m.scope name parent) fun sc =>
      { sc with bindings := sc.bindings.put x v }
    exact congrArg (fun scopes => { w.heap.holding name parent m with scopes }) scopes
  have bound : Eval.changeHeap (Heap.bind ⟨w.heap.scopes.size⟩ x v false) env
      (w.holding name parent m) =
        .ok () (w.holding name parent { m with vars := m.vars.put x v }) := by
    change EStateM.Result.ok () { w.holding name parent m with
      heap := (w.heap.holding name parent m).bind ⟨w.heap.scopes.size⟩ x v false } = _
    rw [heap]
    rfl
  refine (Eval.bind_ok bound _).trans ?_
  have silent : (w.heap.holding name parent { m with vars := m.vars.put x v }).event?
      ⟨w.heap.scopes.size⟩ x v = none := by
    rw [Heap.event?, scope_holding]
    rfl
  rw [Eval.inHeap_bind, World.holding, silent]
  rfl

/-- A copy of a value is made in the memory. -/
structure Copies (h : Heap) (name : String) (parent : Option ScopeRef) (m : Memory) (v c : Value)
    (m' : Memory) : Prop where
  copy : Heap.copy v (h.holding name parent m) = (c, h.holding name parent m')
  fresh : m'.fresh = m.fresh

theorem copies_plain {v : Value} (plain : v.container? = none) (m : Memory) :
    Copies h name parent m v v m where
  copy := by cases v <;> first | rfl | cases plain
  fresh := rfl

theorem Copies.eval {w : World} {v c : Value} (copied : Copies w.heap name parent m v c m')
    (env : Env) : Eval.copy v env (w.holding name parent m) = .ok c (w.holding name parent m') := by
  rw [Eval.copy_eq]
  change EStateM.Result.ok _ { w.holding name parent m with
    heap := (Heap.copy v (w.heap.holding name parent m)).2 } = _
  simp only [World.holding, copied.copy, copied.fresh]

end Holding

/-- What stays: the executing interpreter stands in the new scope, and the scope around it, if
there is one, was there before. -/
structure Room where
  env : Env
  outer : World
  name : String
  parent : Option ScopeRef
  inside : ∀ p ∈ parent, p.index < outer.heap.scopes.size
  stands : (Eval.frameIn env outer).scope = ⟨outer.heap.scopes.size⟩

/-- The operator needs both its operands. -/
def BinaryOp.isStrict (op : BinaryOp) : Bool := op != .and && op != .or

namespace Room

variable (ρ : Room) {m m' m₁ m₂ m₃ : Memory}

def world (m : Memory) : World := ρ.outer.holding ρ.name ρ.parent m

/-- The scope in which statements run. -/
def here : ScopeRef := ⟨ρ.outer.heap.scopes.size⟩

/-- The names of the scope around it. -/
def globals : Table Value := (ρ.parent.map fun p => (ρ.outer.heap.scope p).bindings).getD []

/-- What a name means. -/
def Finds (m : Memory) (name : String) (v : Value) : Prop :=
  (m.vars.get? name).or (ρ.globals.get? name) = some v

theorem scope_eq (m : Memory) : Eval.scope ρ.env (ρ.world m) = .ok ρ.here (ρ.world m) := by
  change EStateM.Result.ok (Eval.frameIn ρ.env ρ.outer).scope (ρ.world m) = _
  rw [ρ.stands]
  rfl

theorem scope_here (m : Memory) : (ρ.world m).heap.scope ρ.here = m.scope ρ.name ρ.parent :=
  scope_holding

/-- A name is found in the scope itself or else in the one around it. -/
theorem find?_of_finds {name : String} {v : Value} (found : ρ.Finds m name v) :
    ∃ s, (ρ.world m).heap.find? ρ.here name = some (s, v) := by
  have size : (ρ.world m).heap.scopes.size = ρ.outer.heap.scopes.size + 1 := Array.size_push ..
  rw [Finds] at found
  rw [Heap.find?, size, Heap.findTo, ρ.scope_here]
  cases here : m.vars.get? name with
  | some u =>
    rw [here, Option.some_or] at found
    cases found
    exact ⟨ρ.here, by simp only [Memory.scope, here]⟩
  | none =>
    rw [here, Option.none_or, globals] at found
    cases around : ρ.parent with
    | none =>
      rw [around] at found
      cases found
    | some p =>
      rw [around] at found
      have before := ρ.inside p around
      obtain ⟨k, more⟩ : ∃ k, ρ.outer.heap.scopes.size = k + 1 :=
        ⟨ρ.outer.heap.scopes.size - 1, by omega⟩
      refine ⟨p, ?_⟩
      simp only [Memory.scope, here, Option.bind_some]
      rw [more, Heap.findTo, world, World.holding, scope_holding_lt before]
      simp only [Option.map_some, Option.getD_some] at found
      rw [found]

/-! ### Variables -/

theorem assign_eq (name : String) (v : Value) (env : Env) (m : Memory) :
    Eval.assign ρ.here name v env (ρ.world m) =
      .ok () (ρ.world { m with vars := m.vars.put name v }) := by
  have free : (ρ.world m).heap.isConstant ρ.here name = false := by
    rw [Heap.isConstant, ρ.scope_here]
    rfl
  rw [Eval.assign, Eval.inHeap_bind, free]
  exact define_holding name v env ρ.outer

/-- Binding a name to the value itself. -/
theorem bindSelf_eq (span : Span) (name : String) (v : Value) (m : Memory) :
    Eval.bindSelf span name v ρ.env (ρ.world m) =
      .ok () (ρ.world { m with vars := m.vars.put name v }) :=
  (Eval.bind_ok (ρ.scope_eq m) _).trans (Eval.tryCatch_ok (ρ.assign_eq name v ρ.env m) _)

def Copies (m : Memory) (v c : Value) (m' : Memory) : Prop :=
  Pseudocode.Copies ρ.outer.heap ρ.name ρ.parent m v c m'

theorem bindCopy_eq {v c : Value} (copied : ρ.Copies m v c m') (span : Span) (name : String) :
    Eval.bindCopy span name v ρ.env (ρ.world m) =
      .ok () (ρ.world { m' with vars := m'.vars.put name c }) :=
  (Eval.bind_ok (copied.eval ρ.env) _).trans (ρ.bindSelf_eq span name c m')

/-! ## Expressions -/

/-- The expression, whatever its spans, has this value. -/
def Evals (m : Memory) (e : Expr) (v : Value) (m' : Memory) : Prop :=
  ∀ e' : Expr, e'.spanless = e →
    Settles (fun n => (Run.run n).expr e') ρ.env (ρ.world m) v (ρ.world m')

/-- The expressions, one after the other, have these values. -/
def EvalsAll (m : Memory) (es : List Expr) (vs : List Value) (m' : Memory) : Prop :=
  ∀ es' : List Expr, exprsSpanless es' = es →
    Settles (fun n => (Run.run n).exprs es') ρ.env (ρ.world m) vs (ρ.world m')

/-- The steps lead from a value to another one. -/
def Walks (m : Memory) (v : Value) (chain : List Index) (u : Value) (m' : Memory) : Prop :=
  ∀ chain' : List Index, chainSpanless chain' = chain →
    Settles (fun n => Run.walk (Run.run n) v chain') ρ.env (ρ.world m) u (ρ.world m')

variable {ρ}

theorem evals_number (n : Int) : ρ.Evals m (Embedded.number n) (.int n) m := by
  intro e' h
  cases e' <;> simp only [Embedded.number, Expr.spanless, reduceCtorEq, Expr.int.injEq, true_and] at h
  subst h
  exact .step (.always fun n => rfl)

theorem evals_text (s : String) : ρ.Evals m (Embedded.text s) (.string s) m := by
  intro e' h
  cases e' <;> simp only [Embedded.text, Expr.spanless, reduceCtorEq, Expr.string.injEq, true_and] at h
  subst h
  exact .step (.always fun n => rfl)

theorem evals_none : ρ.Evals m (.none default) .none m := by
  intro e' h
  cases e' <;> simp only [Expr.spanless, reduceCtorEq] at h
  exact .step (.always fun n => rfl)

theorem evals_var {name : String} {u v : Value} {chain : List Index} (found : ρ.Finds m name u)
    (walk : ρ.Walks m u chain v m') : ρ.Evals m (.var default name chain) v m' := by
  intro e' h
  cases e' <;> simp only [Expr.spanless, reduceCtorEq, Expr.var.injEq, true_and] at h
  next span x chain' =>
  obtain ⟨rfl, h⟩ := h
  refine .step ((walk chain' h).of_eq fun n => ?_)
  obtain ⟨s, found⟩ := ρ.find?_of_finds found
  refine (Eval.bind_ok (ρ.scope_eq m) _).trans ?_
  rw [Eval.inHeap_bind, Heap.lookup?, found]
  rfl

/-- An operator that leaves the heap alone. -/
theorem evals_binary {op : BinaryOp} {l r : Expr} {a b v : Value} (strict : op.isStrict = true)
    (left : ρ.Evals m l a m₁) (right : ρ.Evals m₁ r b m₂)
    (result : ∀ h, (binaryOp op a b).run h = (.ok v, h)) :
    ρ.Evals m (Embedded.infixed op l r) v m₂ := by
  intro e' h
  cases e' <;> simp only [Embedded.infixed, Expr.spanless, reduceCtorEq, Expr.binary.injEq,
    true_and] at h
  next span op' l' r' =>
  obtain ⟨rfl, hl, hr⟩ := h
  have done : Settles (fun n => (Run.run n).expr l' >>= fun x => (Run.run n).expr r' >>= fun y =>
      Eval.ofHeapOpAt span (binaryOp op' x y)) ρ.env (ρ.world m) v (ρ.world m₂) :=
    (left l' hl).bind ((right r' hr).bind (.always fun n =>
      Eval.ofHeapOpAt_ok (result (ρ.world m₂).heap) span))
  refine .step (done.of_eq fun n => ?_)
  cases op' <;> first | rfl | cases strict

theorem evalsAll_nil : ρ.EvalsAll m [] [] m := by
  intro es h
  cases es with
  | nil => exact .always fun n => rfl
  | cons e es => cases h

theorem evalsAll_cons {e : Expr} {es : List Expr} {v : Value} {vs : List Value}
    (first : ρ.Evals m e v m₁) (rest : ρ.EvalsAll m₁ es vs m') :
    ρ.EvalsAll m (e :: es) (v :: vs) m' := by
  intro es' h
  cases es' with
  | nil => cases h
  | cons e' es' =>
    simp only [exprsSpanless, List.cons.injEq] at h
    have done : Settles (fun n => (Run.run n).expr e' >>= fun x => (Run.run n).exprs es' >>= fun xs =>
        pure (x :: xs)) ρ.env (ρ.world m) (v :: vs) (ρ.world m') :=
      (first e' h.1).bind ((rest es' h.2).bind (.always fun n => rfl))
    refine done.of_eq fun n => ?_
    rw [Recursor.exprs, List.mapM_cons]
    rfl

/-- A call of a builtin function. -/
theorem evals_call {f : Expr} {args : List Expr} {b : Builtin} {vs : List Value} {v : Value}
    (callee : ρ.Evals m f (.builtin b) m₁) (arguments : ρ.EvalsAll m₁ args vs m₂)
    (native : Settles (fun n => Run.native (Run.run n) b vs) ρ.env (ρ.world m₂) v (ρ.world m₃)) :
    ρ.Evals m (.call default f args) v m₃ := by
  intro e' h
  cases e' <;> simp only [Expr.spanless, reduceCtorEq, Expr.call.injEq, true_and] at h
  next span f' args' =>
  have done : Settles (fun n => (Run.run n).expr f' >>= fun x => (Run.run n).exprs args' >>= fun xs =>
      (Run.run n).call x xs span) ρ.env (ρ.world m) v (ρ.world m₃) :=
    (callee f' h.1).bind ((arguments args' h.2).bind (.step native.placed))
  exact .step (done.of_eq fun n => rfl)

/-- An array literal without elements. -/
theorem evals_emptyArray : ρ.Evals m (.array default []) (.array ⟨m.arrays.size⟩)
    { m with arrays := m.arrays.push (.ofArray #[]) } := by
  intro e' h
  cases e' <;> simp only [Expr.spanless, reduceCtorEq, Expr.array.injEq, true_and] at h
  next span es =>
  cases es with
  | nil => exact .step (.always fun n => rfl)
  | cons e es => cases h

/-! ### Index steps -/

theorem walks_nil (v : Value) : ρ.Walks m v [] v m := by
  intro chain h
  cases chain with
  | nil => exact .always fun n => rfl
  | cons i is => cases i <;> cases h

theorem walks_cons {v u x : Value} {i : Index} {chain chain' : List Index}
    (h : chainSpanless chain' = i :: chain)
    (first : ∀ i', chainSpanless [i'] = [i] →
      Settles (fun n => Run.step (Run.run n) v i') ρ.env (ρ.world m) u (ρ.world m₁))
    (rest : ρ.Walks m₁ u chain x m') :
    Settles (fun n => Run.walk (Run.run n) v chain') ρ.env (ρ.world m) x (ρ.world m') := by
  cases chain' with
  | nil => cases h
  | cons i' chain' =>
    have split : chainSpanless [i'] = [i] ∧ chainSpanless chain' = chain := by
      cases i' <;>
      · simp only [chainSpanless, List.cons.injEq, and_true] at h ⊢
        exact h
    have done : Settles (fun n => Run.step (Run.run n) v i' >>= fun u =>
        Run.walk (Run.run n) u chain') ρ.env (ρ.world m) x (ρ.world m') :=
      (first i' split.1).bind (rest chain' split.2)
    exact done.of_eq fun n => rfl

/-- A property. -/
theorem walks_property {v u x : Value} {name : String} {chain : List Index}
    (property : Eval.property v name ρ.env (ρ.world m) = .ok u (ρ.world m₁))
    (rest : ρ.Walks m₁ u chain x m') : ρ.Walks m v (.property default name :: chain) x m' := by
  intro chain' h
  refine walks_cons h (fun i' hi => ?_) rest
  cases i' <;> simp only [chainSpanless, List.cons.injEq, reduceCtorEq, and_true,
    Index.property.injEq, true_and] at hi
  subst hi
  exact (Settles.always fun n => property).placed

/-- A property that is stored. -/
theorem property_stored {v u : Value} {name : String}
    (stored : (ρ.world m).heap.storedProperty? v name = some u) :
    Eval.property v name ρ.env (ρ.world m) = .ok u (ρ.world m) := by
  rw [Eval.property, Eval.inHeap_bind, stored]
  rfl

/-- A method of a builtin type. -/
theorem property_method {v : Value} {name : String} {action : Native}
    (none : ∀ h : Heap, h.storedProperty? v name = none)
    (method : builtinMethod? v name = some action) :
    Eval.property v name ρ.env (ρ.world m) = .ok (.builtin ⟨m.fresh, name, action⟩)
      (ρ.world { m with fresh := m.fresh + 1 }) := by
  rw [Eval.property, Eval.inHeap_bind, none]
  simp only [method]
  rfl

/-- A subscript. -/
theorem walks_subscript {v k u x : Value} {key : Expr} {chain : List Index}
    (index : ρ.Evals m key k m₁) (item : (ρ.world m₁).heap.item v k = .ok u)
    (rest : ρ.Walks m₁ u chain x m') : ρ.Walks m v (.subscript default key :: chain) x m' := by
  intro chain' h
  refine walks_cons h (fun i' hi => ?_) rest
  cases i' <;> simp only [chainSpanless, List.cons.injEq, reduceCtorEq, and_true,
    Index.subscript.injEq, true_and] at hi
  next span key' =>
  refine (index key' hi).bind (.always fun n => ?_)
  rw [Eval.inHeap_bind, item]
  rfl

/-! ## Statements -/

variable (ρ) in
/-- The statement, whatever its spans, ends like this. -/
def Execs (m : Memory) (s : Stmt) (flow : Flow) (m' : Memory) : Prop :=
  ∀ s' : Stmt, s'.spanless = s →
    Settles (fun n => Run.stmt (Run.run n) (Run.load (Run.run n)) n s') ρ.env (ρ.world m) flow
      (ρ.world m')

variable (ρ) in
/-- The statements, one after the other, end like this. -/
def Runs (m : Memory) (ss : List Stmt) (flow : Flow) (m' : Memory) : Prop :=
  ∀ ss' : List Stmt, stmtsSpanless ss' = ss →
    Settles (fun n => Run.stmts (Run.run n) (Run.load (Run.run n)) n ss') ρ.env (ρ.world m) flow
      (ρ.world m')

theorem runs_nil : ρ.Runs m [] .normal m := by
  intro ss h
  cases ss with
  | nil => exact .always fun n => rfl
  | cons s ss => cases h

theorem settles_stmts {s : Stmt} {ss : List Stmt} {flow : Flow}
    (first : Settles (fun n => Run.stmt (Run.run n) (Run.load (Run.run n)) n s) ρ.env (ρ.world m)
      .normal (ρ.world m₁))
    (rest : Settles (fun n => Run.stmts (Run.run n) (Run.load (Run.run n)) n ss) ρ.env (ρ.world m₁)
      flow (ρ.world m')) :
    Settles (fun n => Run.stmts (Run.run n) (Run.load (Run.run n)) n (s :: ss)) ρ.env (ρ.world m) flow
      (ρ.world m') :=
  first.bind rest

theorem runs_cons {s : Stmt} {ss : List Stmt} {flow : Flow} (first : ρ.Execs m s .normal m₁)
    (rest : ρ.Runs m₁ ss flow m') : ρ.Runs m (s :: ss) flow m' := by
  intro ss' h
  cases ss' with
  | nil => cases h
  | cons s' ss' =>
    simp only [stmtsSpanless, List.cons.injEq] at h
    exact settles_stmts (first s' h.1) (rest ss' h.2)

/-- A returned value ends a block. -/
theorem runs_returned {s : Stmt} {v : Value} (first : ρ.Execs m s (.returned v) m') (ss : List Stmt) :
    ρ.Runs m (s :: ss) (.returned v) m' := by
  intro ss' h
  cases ss' with
  | nil => cases h
  | cons s' ss' =>
    simp only [stmtsSpanless, List.cons.injEq] at h
    exact (first s' h.1).bind (.always fun n => rfl)

theorem settles_block {b : Block} {span : Span} {ss : List Stmt} {flow : Flow}
    (h : b.spanless = .mk span ss) (runs : ρ.Runs m ss flow m') :
    Settles (fun n => (Run.run n).block b) ρ.env (ρ.world m) flow (ρ.world m') := by
  obtain ⟨s, body⟩ := b
  simp only [Block.spanless, Block.mk.injEq] at h
  exact .step ((runs body h.2).of_eq fun n => rfl)

theorem execs_set {name : String} {e : Expr} {v c : Value} (value : ρ.Evals m e v m₁)
    (copied : ρ.Copies m₁ v c m₂) :
    ρ.Execs m (Embedded.set name e) .normal { m₂ with vars := m₂.vars.put name c } := by
  intro s h
  cases s <;> simp only [Embedded.set, Stmt.spanless, reduceCtorEq, Stmt.assign.injEq] at h
  next a =>
  obtain ⟨span, ⟨tspan, x, chain⟩, e', constant⟩ := a
  simp only [Assignment.spanless, Target.spanless, Assignment.mk.injEq, Target.mk.injEq,
    true_and] at h
  obtain ⟨⟨rfl, steps⟩, he, rfl⟩ := h
  cases chain with
  | cons i is => cases i <;> cases steps
  | nil =>
    have done : Settles (fun n => (Run.run n).expr e' >>= fun v =>
        Eval.bindCopy span x v >>= fun _ => pure Flow.normal) ρ.env (ρ.world m) .normal
        (ρ.world { m₂ with vars := m₂.vars.put x c }) :=
      (value e' he).bind ((Settles.always fun n => ρ.bindCopy_eq copied span x).bind
        (.always fun n => rfl))
    refine done.of_eq fun n => ?_
    rw [Run.stmt, Run.assign]
    exact congrFun (congrFun (Eval.bind_assoc _ _ _) _) _

/-- A call as a statement. -/
theorem execs_call {f : Expr} {args : List Expr} {v : Value}
    (value : ρ.Evals m (.call default f args) v m') :
    ρ.Execs m (.expr (.call default f args)) .normal m' := by
  intro s h
  cases s <;> simp only [Stmt.spanless, reduceCtorEq, Stmt.expr.injEq] at h
  next e =>
  have done : Settles (fun n => ((Run.run n).expr e >>= fun _ => pure ()) >>= fun _ =>
      pure Flow.normal) ρ.env (ρ.world m) .normal (ρ.world m') :=
    ((value e h).bind (.always fun n => rfl)).bind (.always fun n => rfl)
  refine done.of_eq fun n => ?_
  cases e <;> simp only [Expr.spanless, reduceCtorEq] at h
  rw [← Eval.discard_eq]
  rfl

theorem execs_give {e : Expr} {v : Value} (value : ρ.Evals m e v m') :
    ρ.Execs m (Embedded.give e) (.returned v) m' := by
  intro s h
  cases s <;> simp only [Embedded.give, Stmt.spanless, reduceCtorEq, Stmt.expr.injEq] at h
  next e' =>
  cases e' <;> simp only [Expr.spanless, reduceCtorEq, Expr.magic.injEq, true_and] at h
  next span word args =>
  obtain ⟨rfl, h⟩ := h
  have done := (evalsAll_cons value evalsAll_nil args h).bind (f := fun _ vs =>
    Run.returnValue vs >>= fun v => pure (Flow.returned v)) (.always fun n => rfl)
  exact done.of_eq fun n => rfl

/-! ### Choices and loops -/

section Whenever

variable {condition : Expr} {body : List Stmt} {c : Value} {flow : Flow}

theorem branch_eq {s : Stmt} (h : s.spanless = Embedded.whenever condition body) :
    ∃ span e b, s = .branch (.mk span e b .absent) ∧ e.spanless = condition ∧
      b.spanless = .mk default body := by
  cases s <;> simp only [Embedded.whenever, Stmt.spanless, reduceCtorEq, Stmt.branch.injEq] at h
  next choice =>
  obtain ⟨span, e, b, otherwise⟩ := choice
  simp only [Branch.spanless, Branch.mk.injEq, true_and] at h
  obtain ⟨he, hb, ho⟩ := h
  cases otherwise <;> simp only [Otherwise.spanless, reduceCtorEq] at ho
  exact ⟨span, e, b, rfl, he, hb⟩

theorem execs_whenever (holds : ρ.Evals m condition c m₁)
    (truthy : (ρ.world m₁).heap.truthy c = true) (runs : ρ.Runs m₁ body flow m') :
    ρ.Execs m (Embedded.whenever condition body) flow m' := by
  intro s h
  obtain ⟨span, e, b, rfl, he, hb⟩ := branch_eq h
  have chosen : Settles (fun n => Eval.inHeap (·.truthy c) >>= fun t =>
      if t then (Run.run (n + 1)).block b else pure Flow.normal) ρ.env (ρ.world m₁) flow
      (ρ.world m') := by
    refine (settles_block hb runs).later.of_eq fun n => ?_
    rw [Eval.inHeap_bind, truthy]
    rfl
  have done := (holds e he).later.bind (f := fun n c => Eval.inHeap (·.truthy c) >>= fun t =>
    if t then (Run.run (n + 1)).block b else pure Flow.normal) chosen
  exact .step (done.of_eq fun n => rfl)

theorem execs_whenever_not (fails : ρ.Evals m condition c m')
    (falsy : (ρ.world m').heap.truthy c = false) :
    ρ.Execs m (Embedded.whenever condition body) .normal m' := by
  intro s h
  obtain ⟨span, e, b, rfl, he, hb⟩ := branch_eq h
  have passed : Settles (fun n => Eval.inHeap (·.truthy c) >>= fun t =>
      if t then (Run.run (n + 1)).block b else pure Flow.normal) ρ.env (ρ.world m') .normal
      (ρ.world m') := by
    refine .always fun n => ?_
    rw [Eval.inHeap_bind, falsy]
    rfl
  have done := (fails e he).later.bind (f := fun n c => Eval.inHeap (·.truthy c) >>= fun t =>
    if t then (Run.run (n + 1)).block b else pure Flow.normal) passed
  exact .step (done.of_eq fun n => rfl)

end Whenever

section While

variable {condition : Expr} {body : List Stmt} {c : Value} {flow : Flow}

variable (ρ) in
/-- The loop, with enough rounds, ends like this. -/
def Loops (m : Memory) (condition : Expr) (body : List Stmt) (flow : Flow) (m' : Memory) : Prop :=
  ∀ e b, e.spanless = condition → b.spanless = .mk default body →
    ∃ least, ∀ n, least ≤ n → ∀ rounds, least ≤ rounds →
      Run.whileLoop (Run.run n) e b rounds ρ.env (ρ.world m) = .ok flow (ρ.world m')

theorem loops_done (fails : ρ.Evals m condition c m')
    (falsy : (ρ.world m').heap.truthy c = false) : ρ.Loops m condition body .normal m' := by
  intro e b he hb
  obtain ⟨least, result⟩ := fails e he
  refine ⟨least + 1, fun n enough rounds some => ?_⟩
  obtain ⟨k, rfl⟩ : ∃ k, rounds = k + 1 := ⟨rounds - 1, by omega⟩
  rw [Run.whileLoop]
  refine (Eval.bind_ok (result n (by omega)) _).trans ?_
  rw [Eval.inHeap_bind, falsy]
  rfl

theorem loops_round (holds : ρ.Evals m condition c m₁)
    (truthy : (ρ.world m₁).heap.truthy c = true) (runs : ρ.Runs m₁ body .normal m₂)
    (loops : ρ.Loops m₂ condition body flow m') : ρ.Loops m condition body flow m' := by
  intro e b he hb
  obtain ⟨least, test⟩ := holds e he
  obtain ⟨least', round⟩ := settles_block hb runs
  obtain ⟨least'', rest⟩ := loops e b he hb
  refine ⟨max least (max least' least'') + 1, fun n enough rounds some => ?_⟩
  obtain ⟨k, rfl⟩ : ∃ k, rounds = k + 1 := ⟨rounds - 1, by omega⟩
  rw [Run.whileLoop]
  refine (Eval.bind_ok (test n (by omega)) _).trans ?_
  rw [Eval.inHeap_bind, truthy]
  exact (Eval.bind_ok (round n (by omega)) _).trans (rest n (by omega) k (by omega))

theorem execs_while (loops : ρ.Loops m condition body flow m') :
    ρ.Execs m (.whileLoop default condition (.mk default body)) flow m' := by
  intro s h
  cases s <;> simp only [Stmt.spanless, reduceCtorEq, Stmt.whileLoop.injEq, true_and] at h
  next span e b =>
  obtain ⟨least, result⟩ := loops e b h.1 h.2
  exact ⟨least, fun n enough => result n enough n enough⟩

end While

section For

variable {name : String} {body : List Stmt} {v c : Value} {vs : List Value}

variable (ρ) in
/-- The rounds of a loop over values end normally. -/
def Goes (m : Memory) (name : String) (body : List Stmt) (vs : List Value) (m' : Memory) : Prop :=
  ∀ span b, b.spanless = .mk default body →
    Settles (fun n => Run.eachLoop (Run.run n) span name b vs) ρ.env (ρ.world m) .normal
      (ρ.world m')

theorem goes_nil : ρ.Goes m name body [] m := fun _ _ _ => .always fun _ => rfl

theorem goes_cons (copied : ρ.Copies m v c m₁)
    (runs : ρ.Runs { m₁ with vars := m₁.vars.put name c } body .normal m₂)
    (rest : ρ.Goes m₂ name body vs m') : ρ.Goes m name body (v :: vs) m' := by
  intro span b hb
  have bound : Settles (fun _ => Eval.bindCopy span name v) ρ.env (ρ.world m) ()
      (ρ.world { m₁ with vars := m₁.vars.put name c }) :=
    .always fun _ => ρ.bindCopy_eq copied span name
  exact bound.bind ((settles_block hb runs).bind (rest span b hb))

/-- What a round keeps, for the values before it, holds in the end for all. -/
theorem goes_of_step {I : Nat → Memory → Prop} (plain : ∀ v ∈ vs, v.container? = none)
    (round : ∀ (j : Nat) (h : j < vs.length) (m : Memory), I j m →
      ∃ m', ρ.Runs { m with vars := m.vars.put name vs[j] } body .normal m' ∧ I (j + 1) m')
    (start : I 0 m) : ∃ m', ρ.Goes m name body vs m' ∧ I vs.length m' := by
  induction vs generalizing I m with
  | nil => exact ⟨m, goes_nil, start⟩
  | cons v vs ih =>
    obtain ⟨m₁, first, kept⟩ := round 0 (Nat.zero_lt_succ _) m start
    obtain ⟨m', rest, done⟩ := ih (I := fun j => I (j + 1))
      (fun u mem => plain u (List.mem_cons_of_mem v mem))
      (fun j h m => round (j + 1) (Nat.succ_lt_succ h) m) kept
    exact ⟨m', goes_cons (copies_plain (plain v List.mem_cons_self) m) first rest, done⟩

theorem execs_forEach {e : Expr} (iterable : ρ.Evals m e v m₁)
    (items : Run.items? (ρ.world m₁).heap v = some vs) (goes : ρ.Goes m₁ name body vs m') :
    ρ.Execs m (.forEach default name e (.mk default body)) .normal m' := by
  intro s h
  cases s <;> simp only [Stmt.spanless, reduceCtorEq, Stmt.forEach.injEq, true_and] at h
  next span x e' b =>
  obtain ⟨rfl, he, hb⟩ := h
  refine (iterable e' he).bind ((goes span b hb).of_eq fun n => ?_)
  rw [Eval.inHeap_bind, items]

theorem settles_bound {e : Expr} {k : Int} (value : ρ.Evals m e (.int k) m')
    (word : Value.inRange k = true) {e' : Expr} (h : e'.spanless = e) (what : String) :
    Settles (fun n => Run.bound (Run.run n) e' what) ρ.env (ρ.world m) k (ρ.world m') := by
  obtain ⟨least, result⟩ := value e' h
  exact ⟨least, fun n enough => Run.bound_eq (result n enough) word what⟩

/-- A loop over a range with step one. -/
theorem execs_forRange {first last : Expr} {a b : Int} (lower : ρ.Evals m first (.int a) m₁)
    (upper : ρ.Evals m₁ last (.int b) m₂) (word : Value.inRange a = true)
    (word' : Value.inRange b = true)
    (goes : ρ.Goes m₂ name body (Run.rangeValues 1 (Run.rangeCount a b 1) a) m') :
    ρ.Execs m (.forRange default name first last none (.mk default body)) .normal m' := by
  intro s h
  cases s <;> simp only [Stmt.spanless, reduceCtorEq, Stmt.forRange.injEq, true_and] at h
  next span x e e' step block =>
  obtain ⟨rfl, he, he', hs, hb⟩ := h
  cases step <;> simp only [Option.map_some, Option.map_none, reduceCtorEq] at hs
  have done : Settles (fun n => Run.bound (Run.run n) e "start" >>= fun a =>
      Run.bound (Run.run n) e' "end" >>= fun b =>
      Run.rangeLoop (Run.run n) span x (.ofInt b) (.ofInt 1) block Run.rangeRounds (.ofInt a))
      ρ.env (ρ.world m) .normal (ρ.world m') := by
    refine (settles_bound lower word he "start").bind
      ((settles_bound upper word' he' "end").bind ?_)
    exact (goes span block hb).of_eq fun n => by
      rw [Run.rangeLoop_ofInt word word' ⟨rfl, Int.one_ne_zero⟩]
  exact done.of_eq fun n => rfl

end For

end Room

/-! ## Calls -/

/-- The parameters are bound to copies of the arguments. -/
inductive Binds (h : Heap) (name : String) (parent : Option ScopeRef) :
    Memory → List (String × Value) → Memory → Prop
  | nil {m : Memory} : Binds h name parent m [] m
  | cons {m m₁ m' : Memory} {x : String} {v c : Value} {es : List (String × Value)} :
      Copies h name parent m v c m₁ →
      Binds h name parent { m₁ with vars := m₁.vars.put x c } es m' →
      Binds h name parent m ((x, v) :: es) m'

/-- One round of binding parameters. -/
def bindParam (s : ScopeRef) (e : String × Value) : Eval (ForInStep PUnit) := do
  let v ← Eval.copy e.2
  Eval.define s e.1 v false
  pure (ForInStep.yield PUnit.unit)

theorem Binds.eval {name : String} {parent : Option ScopeRef} {m m' : Memory}
    {es : List (String × Value)} (binds : Binds w.heap name parent m es m') (env : Env) :
    (forIn es PUnit.unit fun e _ => bindParam ⟨w.heap.scopes.size⟩ e) env
      (w.holding name parent m) = .ok PUnit.unit (w.holding name parent m') := by
  induction binds with
  | nil => rfl
  | @cons m m₁ m' x v c es copied _ ih =>
    have bound : bindParam ⟨w.heap.scopes.size⟩ (x, v) env (w.holding name parent m) =
        .ok (.yield PUnit.unit) (w.holding name parent { m₁ with vars := m₁.vars.put x c }) :=
      (Eval.bind_ok (copied.eval env) _).trans (Eval.bind_ok (define_holding x c env w) _)
    rw [List.forIn_cons]
    exact (Eval.bind_ok bound _).trans ih

/-- The variables of a call before its parameters are bound. -/
def ownVars : Option Owner → Table Value
  | some owner => [("this", Value.ofOwner owner)]
  | none => []

theorem childScope_eq {parent : ScopeRef} (name : String)
    (unobserved : (w.heap.scope parent).observer = none) :
    Eval.onHeap (Heap.childScope name parent) env w =
      .ok ⟨w.heap.scopes.size⟩ (w.holding name (some parent) (w.memory [])) := by
  change EStateM.Result.ok _ { w with heap := (Heap.childScope name parent w.heap).2 } = _
  rw [Heap.childScope, unobserved]
  rfl

theorem callScope_eq {f : Subroutine} {args : List Value} {m : Memory}
    (unobserved : (w.heap.scope f.scope).observer = none)
    (binds : Binds w.heap f.name (some f.scope) (w.memory (ownVars f.this)) (f.params.zip args) m) :
    Run.callScope f args env w =
      .ok ⟨w.heap.scopes.size⟩ (w.holding f.name (some f.scope) m) := by
  have params := Eval.bind_ok (binds.eval env) fun _ =>
    (pure ⟨w.heap.scopes.size⟩ : Eval ScopeRef)
  refine (Eval.bind_ok (childScope_eq f.name unobserved) _).trans ?_
  cases own : f.this with
  | none =>
    rw [own, ownVars] at params
    exact params
  | some owner =>
    rw [own, ownVars] at params
    exact (Eval.bind_ok (define_holding "this" (Value.ofOwner owner) env w) _).trans params

/-- Going into another frame and back. -/
theorem setFrame_setFrame (w : World) (id : InterpreterId) (f : Frame) :
    (w.setFrame id f).setFrame id (w.row id.index).frame = w := by
  have same : (w.interpreters.modify id.index fun i => { i with frame := f }).modify id.index
      (fun i => { i with frame := (w.row id.index).frame }) = w.interpreters := by
    apply Array.ext_getElem?
    intro i
    rw [Array.getElem?_modify, Array.getElem?_modify]
    split
    · next here =>
      subst here
      cases found : w.interpreters[id.index]? with
      | none => rfl
      | some r =>
        simp [World.row, Array.getD_eq_getD_getElem?, found]
    · rfl
  exact congrArg (fun interpreters => { w with interpreters }) same

/-- A call can be made: the limit is not reached, and the scope that the subroutine was defined in is
there and has no observer. -/
structure Callable (env : Env) (w : World) (parent : ScopeRef) : Prop where
  self : env.self.index < w.interpreters.size
  shallow : (Eval.frameIn env w).depth < env.setup.maxDepth
  inside : parent.index < w.heap.scopes.size
  unobserved : (w.heap.scope parent).observer = none

/-- The frame of a call. -/
def callFrame (env : Env) (w : World) (origin : Origin) : Frame :=
  ⟨⟨w.heap.scopes.size⟩, origin, (Eval.frameIn env w).depth + 1⟩

/-- The room of a call. -/
def Callable.room {parent : ScopeRef} (h : Callable env w parent) (name : String)
    (origin : Origin) : Room where
  env := env
  outer := w.setFrame env.self (callFrame env w origin)
  name := name
  parent := some parent
  inside p mem := by
    cases mem
    exact h.inside
  stands := by
    have row := World.row_setFrame w env.self (callFrame env w origin) env.self.index
    rw [if_pos ⟨rfl, h.self⟩] at row
    exact congrArg (fun i : Interpreter => i.frame.scope) row

/-- A call returns what its body does, and execution stands where it stood before. -/
theorem settles_call {f : Subroutine} {args : List Value} {span sp : Span} {m m' : Memory}
    {body : List Stmt} {flow : Flow} (callable : Callable env w f.scope)
    (arity : args.length = f.params.length)
    (binds : Binds w.heap f.name (some f.scope) (w.memory (ownVars f.this)) (f.params.zip args) m)
    (same : f.body.spanless = .mk sp body)
    (runs : (callable.room f.name f.origin).Runs m body flow m') :
    Settles (fun n => (Run.run n).call (.subroutine f) args span) env w (Run.callResult flow)
      (w.holding f.name (some f.scope) m') := by
  have block := Room.settles_block same runs
  have framed : Settles (fun n => Eval.withFrame (callFrame env w f.origin) ((Run.run n).block f.body))
      env (w.holding f.name (some f.scope) m) flow (w.holding f.name (some f.scope) m') := by
    obtain ⟨least, result⟩ := block
    refine ⟨least, fun n enough => ?_⟩
    refine (Eval.withFrame_ok (result n enough)).trans ?_
    exact congrArg (EStateM.Result.ok flow)
      (setFrame_setFrame (w.holding f.name (some f.scope) m') env.self (callFrame env w f.origin))
  obtain ⟨least, result⟩ := framed
  refine .step ⟨least, fun n enough => ?_⟩
  change Run.callSubroutine (Run.run n) f args span env w = _
  have given : (args.length != f.params.length) = false := by rw [arity, bne_self_eq_false]
  have frame : Eval.frame env w = .ok (Eval.frameIn env w) w := rfl
  have setup : (read : Eval Env) env w = .ok env w := rfl
  simp only [Run.callSubroutine, given, Bool.false_eq_true, if_false]
  refine (Eval.bind_ok frame _).trans ((Eval.bind_ok setup _).trans ?_)
  rw [if_neg (Nat.not_le.mpr callable.shallow)]
  refine (Eval.bind_ok (callScope_eq callable.unobserved binds) _).trans ?_
  exact Eval.bind_ok (result n enough) _

end Pseudocode
