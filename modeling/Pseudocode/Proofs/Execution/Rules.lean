import Pseudocode.Proofs.Execution.Storing
import Pseudocode.Run.Stmt
import Pseudocode.Run.Display
/-
# `Proofs.Execution.Rules` — the rules of execution are safe

`Carries c r r'` says that two recursors carry out tasks safely and alike.  Every
rule of execution hands its sub-tasks to a recursor, and is safe if that recursor
is; there is one lemma for each rule, and each follows the definition of the rule
from step to step.
-/
namespace Pseudocode

/-! ## Tasks -/

/-- What a task is about refers to what exists, and a block is executed where names may
be bound. -/
def Task.Good (c : Context) (w : World) {α : Type} : Task α → Prop
  | .expr _ => True
  | .block _ => c.Stands w
  | .call callee args _ => c.Good w callee ∧ c.AllGood w args
  | .str v | .repr v => c.Good w v

/-- What a task is asked to give. -/
def Task.Ensures (c : Context) : {α : Type} → Task α → World → α → Prop
  | _, .expr _ => c.Good
  | _, .block _ => c.GoodFlow
  | _, .call _ _ _ => c.Good
  | _, .str _ => Context.Any
  | _, .repr _ => Context.Any

/-- Two recursors carry out tasks safely and alike, on any interpreter. -/
def Carries (c : Context) (r r' : Recursor) : Prop :=
  ∀ (id : InterpreterId) (α : Type) (task : Task α) (w : World), task.Good (c.on id) w →
    Safe (c.on id) w (r α task) (r' α task) (task.Ensures c) Catchable

namespace Carries

variable {c : Context} {r r' : Recursor} {w : World}

theorem on (hr : Carries c r r') (id : InterpreterId) : Carries (c.on id) r r' := hr

theorem expr (hr : Carries c r r') (e : Expr) : Safe c w (r.expr e) (r'.expr e) c.Good Catchable :=
  hr c.env.self Value (.expr e) w trivial

theorem block (hr : Carries c r r') (hst : c.Stands w) (b : Block) :
    Safe c w (r.block b) (r'.block b) c.GoodFlow Catchable :=
  hr c.env.self Flow (.block b) w hst

theorem call (hr : Carries c r r') {callee : Value} {args : List Value} (hf : c.Good w callee)
    (ha : c.AllGood w args) (span : Span) :
    Safe c w (r.call callee args span) (r'.call callee args span) c.Good Catchable :=
  hr c.env.self Value (.call callee args span) w ⟨hf, ha⟩

theorem str (hr : Carries c r r') {v : Value} (hv : c.Good w v) :
    Safe c w (r.str v) (r'.str v) Context.Any Catchable :=
  hr c.env.self String (.str v) w hv

theorem repr (hr : Carries c r r') {v : Value} (hv : c.Good w v) :
    Safe c w (r.repr v) (r'.repr v) Context.Any Catchable :=
  hr c.env.self String (.repr v) w hv

theorem exprs (hr : Carries c r r') (es : List Expr) :
    Safe c w (r.exprs es) (r'.exprs es) c.AllGood Catchable :=
  .mapM (V := c.Good) (fun _ _ _ hr h ha => h.good hr ha) es w fun e _ _ _ _ => hr.expr e

end Carries

/-- What is read from the heap of a world in which execution may stand. -/
theorem Context.Ready.closed {c : Context} {w : World} (hr : c.Ready w) (hc : c.checked) :
    w.heap.Closed w.extent := (hr.sound hc).closed

variable {c : Context} {r r' : Recursor} {w : World} {E : Fault → Prop}

/-! ## Index chains -/

theorem within_builtinMethod? {e : Extent} {v : Value} (hv : v.Within e) {name : String} {a : Native}
    (ha : builtinMethod? v name = some a) : a.Within e := by
  cases v with
  | array r =>
      simp only [builtinMethod?, arrayMethod?] at ha
      split at ha <;> cases ha <;> exact hv
  | dict r =>
      simp only [builtinMethod?, dictMethod?] at ha
      split at ha <;> cases ha <;> exact hv
  | string s =>
      simp only [builtinMethod?, stringMethod?] at ha
      split at ha <;> cases ha <;> trivial
  | _ => cases ha

theorem safe_property {v : Value} (hv : c.Good w v) (name : String) (hE : ∀ t, E (.unplaced t)) :
    Safe c w (Eval.property v name) (Eval.property v name) c.Good E := by
  refine .ready fun hrd => .look rfl ?_
  split
  next p hp => exact .pure fun hc => (hrd.closed hc).storedProperty? hp
  next =>
    split
    next a ha => exact .newBuiltin fun hc => within_builtinMethod? (hv hc) ha
    next => exact .look rfl (.fail (hE _))

theorem safe_step (hr : Carries c r r') {v : Value} (hv : c.Good w v) (i : Index) :
    Safe c w (Run.step r v i) (Run.step r' v i) c.Good Catchable := by
  cases i with
  | subscript span key =>
      refine (hr.expr key).bind fun k w₁ hrd h₁ _ => .look rfl (.ofExceptAt fun x hx hc => ?_)
      exact ((h₁.ready hrd).closed hc).item hx
  | property span name => exact .placed (safe_property hv name (E := AnyFault) fun _ => trivial)

theorem safe_walk (hr : Carries c r r') : ∀ (chain : List Index) {w : World} {v : Value},
    c.Good w v → Safe c w (Run.walk r v chain) (Run.walk r' v chain) c.Good Catchable
  | [], _, _, hv => .pure hv
  | i :: chain, w, v, hv => by
      simp only [Run.walk, List.foldlM_cons]
      exact (safe_step hr hv i).bind fun u w₁ _ _ hu => safe_walk hr chain hu

/-- A property of a module may be bound: its scope is not spared, or the name is
exposed. -/
def Context.Opens (c : Context) (container : Value) (last : Index) : Prop :=
  ∀ m s span name, container = .module m s → last = .property span name →
    ¬ c.Spares s ∨ c.exposed s name

theorem safe_writeAt (hr : Carries c r r') {container v : Value} (hcont : c.Good w container)
    (hv : c.Good w v) {last : Index} (ho : c.Opens container last) :
    Safe c w (Run.writeAt r container last v) (Run.writeAt r' container last v) Context.Any
      Catchable := by
  cases last with
  | subscript span key =>
      refine (hr.expr key).bind fun k w₁ hrd h₁ _ => .copyThen (h₁.good hrd hv) fun u => ?_
      exact .setItem span k fun hc d hd => (h₁.good hrd hcont hc).container hd
  | property span name =>
      exact .copyThen hv fun u => (Stores.setProperty (E := AnyFault)
        (fun m s hm => ho m s span name hm rfl) fun _ => trivial).placed span

/-! ## Expressions -/

theorem safe_nameError {α : Type} {V : World → α → Prop} (span : Span) (name : String) :
    Safe c w (Run.nameError span name) (Run.nameError span name) V Catchable :=
  .look rfl (.look rfl (.look rfl (.raise rfl)))

theorem safe_named (hr : Carries c r r') (span : Span) (name : String) (chain : List Index) :
    Safe c w (Run.named r span name chain) (Run.named r' span name chain) c.Good Catchable := by
  refine .ready fun hrd => .look rfl (.look rfl ?_)
  split
  next v hv => exact safe_walk hr chain fun hc => (hrd.closed hc).lookup? hv
  next => exact safe_nameError span name

theorem safe_binary (hr : Carries c r r') (span : Span) (op : BinaryOp) (left right : Expr) :
    Safe c w (Run.binary r span op left right) (Run.binary r' span op left right) c.Good
      Catchable := by
  refine (hr.expr left).bind fun l w₁ _ _ hl => ?_
  split
  · refine .look rfl ?_
    split
    · exact hr.expr right
    · exact .pure hl
  · refine .look rfl ?_
    split
    · exact .pure hl
    · exact hr.expr right
  · refine (hr.expr right).bind fun v w₂ hrd h₂ _ =>
      .ofHeapOpAt (.binaryOp _ _ _) fun hc => ?_
    exact sound_binaryOp ((h₂.ready hrd).closed hc) _ _ _

theorem safe_unary (hr : Carries c r r') (span : Span) (op : UnaryOp) (operand : Expr) :
    Safe c w (Run.unary r span op operand) (Run.unary r' span op operand) c.Good Catchable :=
  (hr.expr operand).bind fun _ _ _ _ _ =>
    .look rfl (.ofExceptAt fun _ hx _ => (plain_unaryOp hx).within)

theorem safe_arrayLiteral (hr : Carries c r r') (es : List Expr) :
    Safe c w (Run.arrayLiteral r es) (Run.arrayLiteral r' es) c.Good Catchable := by
  have hes := Safe.mapM (c := c) (V := c.Good) (E := Catchable)
    (f := fun e => r.expr e >>= Eval.copy) (g := fun e => r'.expr e >>= Eval.copy)
    (fun _ _ _ hr h ha => h.good hr ha) es w
    fun e _ w' _ _ => (hr.expr e).bind fun v _ _ _ hv => .copy hv
  exact hes.bind fun vs w' _ _ hvs => .newArray hvs

theorem safe_addEntries (hr : Carries c r r') : ∀ (es : List Entry) (d : Dictionary) (w : World),
    c.GoodDict w d → Safe c w (Run.addEntries r d es) (Run.addEntries r' d es) c.GoodDict Catchable
  | [], _, _, hd => .pure hd
  | e :: es, d, w, hd => by
      simp only [Run.addEntries]
      refine (hr.expr e.key).bind fun k w₁ hrd h₁ _ => (hr.expr e.value).bind fun v w₂ hrd₁ h₂ hv =>
        (Safe.copy hv).bind fun u w₃ hrd₂ h₃ hu => ?_
      have hd₃ := h₃.goodDict hrd₂ (h₂.goodDict hrd₁ (h₁.goodDict hrd hd))
      split
      next d' hd' => exact safe_addEntries hr es d' w₃ (hd₃.insert? hu hd')
      next => exact .look rfl .failAt

theorem safe_dictLiteral (hr : Carries c r r') (es : List Entry) :
    Safe c w (Run.dictLiteral r es) (Run.dictLiteral r' es) c.Good Catchable :=
  (safe_addEntries hr es .empty w (c.goodDict_empty w)).bind fun _ _ _ _ hd => .newDict hd

theorem safe_write (s : String) : Safe c w (Eval.write s) (Eval.write s) Context.Any E :=
  .step rfl (fun _ => .other rfl rfl) fun _ => trivial

theorem safe_output (hr : Carries c r r') (args : List Expr) :
    Safe c w (Run.output r args) (Run.output r' args) c.Good Catchable := by
  refine (hr.exprs args).bind fun vs w₁ _ _ hvs => ?_
  have hparts := Safe.mapM (c := c) (V := Context.Any) (E := Catchable) (f := r.str) (g := r'.str)
    (fun _ _ _ _ _ _ => trivial) vs w₁ fun v hv w' hrd h' => hr.str (h'.good hrd (hvs v hv))
  exact hparts.bind fun _ _ _ _ _ => (safe_write _).bind fun _ _ _ _ _ => .pure fun _ => trivial

theorem safe_readLine (span : Span) :
    Safe c w (Eval.readLine span) (Eval.readLine span) c.Good Catchable := by
  refine .look rfl ?_
  dsimp only
  split
  · exact .failAt_bind
  · exact .step rfl (fun _ => .other rfl rfl) fun _ _ => trivial

theorem safe_magicValue (hr : Carries c r r') (span : Span) (word : Magic) (args : List Expr) :
    Safe c w (Run.magicValue r span word args) (Run.magicValue r' span word args) c.Good
      Catchable := by
  simp only [Run.magicValue]
  split
  · exact safe_output hr args
  · split
    · exact safe_readLine span
    · exact .failAt
  · exact .failAt

theorem safe_expr (hr : Carries c r r') (e : Expr) :
    Safe c w (Run.expr r e) (Run.expr r' e) c.Good Catchable := by
  cases e with
  | int _ n => exact .pure fun _ => trivial
  | real _ x => exact .pure fun _ => trivial
  | string _ s => exact .pure fun _ => trivial
  | bool _ b => exact .pure fun _ => trivial
  | none _ => exact .pure fun _ => trivial
  | var span name chain => exact safe_named hr span name chain
  | item _ base chain => exact (hr.expr base).bind fun _ _ _ _ hv => safe_walk hr chain hv
  | call span callee args =>
      exact (hr.expr callee).bind fun f w₁ _ _ hf => (hr.exprs args).bind fun vs w₂ hrd h₂ hvs =>
        hr.call (h₂.good hrd hf) hvs span
  | binary span op left right => exact safe_binary hr span op left right
  | unary span op operand => exact safe_unary hr span op operand
  | magic span word args => exact safe_magicValue hr span word args
  | array _ elements => exact safe_arrayLiteral hr elements
  | dict _ entries => exact safe_dictLiteral hr entries

end Pseudocode
