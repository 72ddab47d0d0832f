import Pseudocode.Proofs.Execution.Import
import Pseudocode.Run.Machine
/-
# `Proofs.Execution.Watched` — execution that is watched

`Run.watched` is the machine with an action of our own in it.  The action is
performed around every task and around every statement, and it knows the calls in
progress, which the machine itself only counts.  Watched by an action that does
nothing, the machine is the one that runs (`Run.watched_nothing`).

Watched machines carry out tasks safely (`carries_watched`), and so does the machine
that runs (`carries_run`).  An alarm that goes off in a world in which execution may
not stand is never heard (`carries_quiet`).
-/
namespace Pseudocode

namespace Eval

variable {α : Type} {watch : Eval Unit} {x : Eval α} {env : Env} {w : World}

/-- Executes, watched before and afterwards. -/
def watching (watch : Eval Unit) (x : Eval α) : Eval α := do
  watch
  let a ← tryCatch x fun e => do
    watch
    throw e
  watch
  return a

/-- Watching that finds nothing to do makes no difference. -/
theorem watching_eq (h : watch env w = .ok () w)
    (hok : ∀ a w', x env w = .ok a w' → watch env w' = .ok () w')
    (herror : ∀ e w', x env w = .error e w' → watch env w' = .ok () w') :
    watching watch x env w = x env w := by
  refine (bind_ok h _).trans ?_
  cases hx : x env w with
  | ok a w' =>
      exact (bind_ok (tryCatch_ok hx _) _).trans (bind_ok (hok a w' hx) _)
  | error e w' =>
      have hcatch := tryCatch_error hx fun e => do
        watch
        throw e
      exact bind_error (hcatch.trans (bind_ok (herror e w' hx) _)) _

theorem watching_pure (x : Eval α) : watching (pure ()) x = x := by
  funext env w
  exact watching_eq rfl (fun _ _ _ => rfl) fun _ _ _ => rfl

end Eval

namespace Run

/-- Executes statements up to the first signal, each of them in a given way. -/
def stmtsWith (one : Stmt → Eval Flow) : List Stmt → Eval Flow
  | [] => return .normal
  | s :: rest => do
    match ← one s with
    | .normal => stmtsWith one rest
    | flow => return flow

/-- Executes statements up to the first signal, watched around each of them. -/
def watchedStmts (watch : Eval Unit) (r : Recursor) (load : Span → Expr → String → Eval Unit)
    (n : Nat) : List Stmt → Eval Flow
  | [] => return .normal
  | s :: rest => do
    match ← Eval.watching watch (stmt r load n s) with
    | .normal => watchedStmts watch r load n rest
    | flow => return flow

/-- Calls a value.  `inside` carries out the bodies of subroutines that are called
by an interpreter. -/
def watchedCall (r : Recursor) (inside : InterpreterId → Recursor) (callee : Value)
    (args : List Value) (span : Span) : Eval Value :=
  match callee with
  | .subroutine f => do callSubroutine (inside (← read).self) f args span
  | callee => call r (native r) callee args span

/-- Carries out a task within a bound, watched around each task and each statement.
The action is told the interpreters of the calls in progress, innermost first. -/
def watched (watch : List InterpreterId → Eval Unit) :
    (bound : Nat) → List InterpreterId → Recursor
  | 0, _ => fun _ _ => Eval.outOfFuel
  | n + 1, stack => fun _ task =>
    let r := watched watch n stack
    Eval.watching (watch stack) <|
      match task with
      | .expr e => expr r e
      | .block b => watchedStmts (watch stack) r (load r) n b.body
      | .call callee args span =>
        watchedCall r (fun self => watched watch n (self :: stack)) callee args span
      | .str v => str r v
      | .repr v => repr r v

/-- Carries out a task, given how a block is executed. -/
def carryOutWith (r : Recursor) (inside : InterpreterId → Recursor) (block : Block → Eval Flow) :
    Recursor := fun _ task =>
  match task with
  | .expr e => expr r e
  | .block b => block b
  | .call callee args span => watchedCall r inside callee args span
  | .str v => str r v
  | .repr v => repr r v

theorem watchedStmts_eq (watch : Eval Unit) (r : Recursor)
    (load : Span → Expr → String → Eval Unit) (n : Nat) : ∀ ss : List Stmt,
      watchedStmts watch r load n ss =
        stmtsWith (fun s => Eval.watching watch (stmt r load n s)) ss := by
  intro ss
  induction ss with
  | nil => rfl
  | cons s ss ih =>
      refine congrArg (bind _) (funext fun flow => ?_)
      cases flow with
      | normal => exact ih
      | _ => rfl

theorem watched_succ (watch : List InterpreterId → Eval Unit) (n : Nat)
    (stack : List InterpreterId) {α : Type} (task : Task α) :
    watched watch (n + 1) stack α task = Eval.watching (watch stack)
      (carryOutWith (watched watch n stack) (fun self => watched watch n (self :: stack))
        (fun b => watchedStmts (watch stack) (watched watch n stack)
          (load (watched watch n stack)) n b.body) α task) := by
  cases task <;> rfl

theorem watchedStmts_nothing (r : Recursor) (load : Span → Expr → String → Eval Unit) (n : Nat) :
    ∀ ss : List Stmt, watchedStmts (pure ()) r load n ss = stmts r load n ss := by
  intro ss
  induction ss with
  | nil => rfl
  | cons s ss ih =>
      refine congrArg₂ bind (Eval.watching_pure (stmt r load n s)) (funext fun flow => ?_)
      cases flow with
      | normal => exact ih
      | _ => rfl

/-- Watched by nobody, the machine is the one that runs. -/
theorem watched_nothing : ∀ (n : Nat) (stack : List InterpreterId),
    watched (fun _ => pure ()) n stack = run n
  | 0, _ => rfl
  | n + 1, stack => by
      funext α task
      simp only [watched, Eval.watching_pure, watched_nothing n, watchedStmts_nothing]
      cases task with
      | call callee args span => cases callee <;> rfl
      | _ => rfl

end Run

/-! ## Watching is safe -/

variable {c : Context} {r r' : Recursor} {w : World} {watch watch' : List InterpreterId → Eval Unit}

/-- Watched by the two actions, what was safe still is, whatever calls are in progress
on whatever interpreters. -/
def Context.Watches (c : Context) (watch watch' : List InterpreterId → Eval Unit) : Prop :=
  ∀ (stack : List InterpreterId) (self : InterpreterId) (α : Type) (w : World) (x y : Eval α)
    (V : World → α → Prop) (E : Fault → Prop),
    Safe { c with stack, env := { c.env with self } } w x y V E →
      Safe { c with stack, env := { c.env with self } } w (Eval.watching (watch stack) x)
        (Eval.watching (watch' stack) y) V E

theorem Context.Watches.safe {α : Type} {V : World → α → Prop} {E : Fault → Prop} {x y : Eval α}
    (hw : c.Watches watch watch') (hx : Safe c w x y V E) :
    Safe c w (Eval.watching (watch c.stack) x) (Eval.watching (watch' c.stack) y) V E :=
  hw c.stack c.env.self α w x y V E hx

theorem safe_stmtsWith {one one' : Stmt → Eval Flow}
    (h : ∀ s w, c.Stands w → Safe c w (one s) (one' s) c.GoodFlow Catchable) :
    ∀ (ss : List Stmt) (w : World), c.Stands w →
      Safe c w (Run.stmtsWith one ss) (Run.stmtsWith one' ss) c.GoodFlow Catchable
  | [], _, _ => .pure trivial
  | s :: ss, w, hst => by
      refine (h s w hst).bind fun flow w₁ hrd h₁ hflow => ?_
      cases flow with
      | normal => exact safe_stmtsWith h ss w₁ (h₁.stands hrd hst)
      | _ => exact .pure hflow

/-- A task is carried out safely if its sub-tasks are, those of the body of a subroutine
with one more call in progress. -/
theorem safe_carryOutWith (hr : Carries c r r') {inside inside' : InterpreterId → Recursor}
    (hinside : Carries c.push (inside c.env.self) (inside' c.env.self))
    {block block' : Block → Eval Flow}
    (hblock : ∀ b, c.Stands w → Safe c w (block b) (block' b) c.GoodFlow Catchable)
    {α : Type} (task : Task α) (hgood : task.Good c w) :
    Safe c w (Run.carryOutWith r inside block α task) (Run.carryOutWith r' inside' block' α task)
      (task.Ensures c) Catchable := by
  cases task with
  | expr e => exact safe_expr hr e
  | block b => exact hblock b hgood
  | call callee args span =>
      obtain ⟨hf, ha⟩ := hgood
      have hcall : (∀ f, callee ≠ .subroutine f) → _ := fun hsub =>
        safe_call hr hf ha hsub (fun _ hb => safe_native hr hb ha) span
      cases callee with
      | subroutine f => exact .look rfl (safe_callSubroutine hinside f ha span)
      | _ => exact hcall fun _ h => nomatch h
  | str v => exact safe_str hr v
  | repr v => exact safe_repr hr v

/-- Watched machines carry out tasks safely. -/
theorem carries_watched : ∀ (n : Nat) (c : Context), c.Watches watch watch' → c.Open →
    Carries c (Run.watched watch n c.stack) (Run.watched watch' n c.stack)
  | 0, _, _, _ => fun _ _ _ _ _ => .outOfFuel
  | n + 1, c, hw, ho => by
      intro id α task w hgood
      have hr : Carries (c.on id) (Run.watched watch n c.stack) (Run.watched watch' n c.stack) :=
        (carries_watched n c hw ho).on id
      rw [Run.watched_succ, Run.watched_succ]
      refine Context.Watches.safe (c := c.on id) hw ?_
      refine safe_carryOutWith hr (carries_watched n (c.on id).push hw ho) (fun b hst => ?_) task hgood
      rw [Run.watchedStmts_eq, Run.watchedStmts_eq]
      refine safe_stmtsWith (fun s w hst => ?_) b.body w hst
      exact Context.Watches.safe (c := c.on id) hw
        (safe_stmt hr (loads_load hr) n (fun _ => ho) hst)

/-- The machine carries out tasks safely. -/
theorem carries_run {c : Context} (ho : c.Open) (n : Nat) :
    Carries c (Run.run n) (Run.run n) := by
  have hnothing : c.Watches (fun _ => pure ()) fun _ => pure () := by
    intro stack self α w x y V E hx
    rwa [Eval.watching_pure, Eval.watching_pure]
  have h := carries_watched n c hnothing ho
  rwa [Run.watched_nothing] at h

/-! ## The alarm is never heard -/

/-- The action does nothing in the worlds in which execution may stand, whatever
calls are in progress on whatever interpreters. -/
def Context.Quiet (c : Context) (watch : List InterpreterId → Eval Unit) : Prop :=
  ∀ stack self w, Context.Ready { c with stack, env := { c.env with self } } w →
    watch stack { c.env with self } w = .ok () w

theorem Context.Quiet.watches (hq : c.Quiet watch) (hc : ¬ c.halting) :
    c.Watches watch fun _ => pure () := by
  intro stack self α w x y V E hx hr
  obtain ⟨hagree, hleads⟩ := hx hr
  have heq := hagree.eq hc
  have hwatch := hq stack self
  have hsame : Eval.watching (watch stack) x { c.env with self } w = x { c.env with self } w := by
    refine Eval.watching_eq (hwatch w hr) (fun a w' hres => ?_) fun e w' hres => ?_
    · have hev := hleads.evolves
      rw [Eval.worldAfter_ok (heq.symm.trans hres)] at hev
      exact hwatch w' (hev.ready hr)
    · have hev := hleads.evolves
      rw [Eval.worldAfter_error (heq.symm.trans hres)] at hev
      exact hwatch w' (hev.ready hr)
  rw [Eval.watching_pure]
  exact ⟨.inl (hsame.trans heq), hleads⟩

/-- Watched by an action that does nothing where execution may stand, the machine does
the same. -/
theorem carries_quiet (n : Nat) (c : Context) (hq : c.Quiet watch) (hc : ¬ c.halting)
    (ho : c.Open) : Carries c (Run.watched watch n c.stack) (Run.run n) := by
  have h := carries_watched n c (hq.watches hc) ho
  rwa [Run.watched_nothing] at h

end Pseudocode
