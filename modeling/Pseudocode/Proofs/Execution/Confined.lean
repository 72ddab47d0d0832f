import Pseudocode.Proofs.Execution.Frames
/-
# `Proofs.Execution.Confined` — calls and imports bind names in scopes of their own

A call executes its body in a new scope, and an import executes a module in the root
scope of a new interpreter.  What they bind, they bind there, or in scopes that are
newer still.  There is one way to bind a name in a scope that was there before: an
assignment to a property of a module binds it in the root scope of that module.

To speak of these assignments, traps are set for them.  `Run.trapped P` is the machine
that stops where a property of a module is about to be bound, if the scope and the name
are in `P`.  As far as it goes, it does what the machine does that runs
(`carries_trapped`), and of the scopes that there are it leaves alone what is in `P`.
So a name is bound to the same afterwards, unless the trap for it stops execution
(`Run.Rebinds`).
-/
namespace Pseudocode

namespace Run

/-! ## Traps -/

open Classical in
/-- Stops execution where a property of a module is about to be bound, if there is a trap
for it. -/
noncomputable def trap (P : ScopeRef → String → Prop) (container : Value) (last : Index) :
    Eval Unit :=
  match container, last with
  | .module _ s, .property _ name => if P s name then Eval.outOfFuel else pure ()
  | _, _ => pure ()

/-- A statement, with traps for the properties of modules that it may bind. -/
noncomputable def trappedStmt (P : ScopeRef → String → Prop) (r : Recursor)
    (load : Span → Expr → String → Eval Unit) (n : Nat) (s : Stmt) : Eval Flow :=
  match s with
  | .assign a =>
    if a.target.chain = [] then stmt r load n (.assign a)
    else do
      let v ← r.expr a.value
      assignIndexedWith (trap P) r a.target v
      return .normal
  | s => stmt r load n s

/-- Carries out a task within a bound, with traps. -/
noncomputable def trapped (P : ScopeRef → String → Prop) : (bound : Nat) → Recursor
  | 0 => fun _ _ => Eval.outOfFuel
  | n + 1 =>
    carryOutWith (trapped P n) (fun _ => trapped P n) fun b =>
      stmtsWith (trappedStmt P (trapped P n) (load (trapped P n)) n) b.body

theorem trap_nothing : trap (fun _ _ => False) = fun _ _ => pure () := by
  funext container last
  cases container with
  | module m s =>
      cases last with
      | property span name => exact if_neg id
      | subscript span key => rfl
  | _ => rfl

theorem trappedStmt_nothing (r : Recursor) (load : Span → Expr → String → Eval Unit) (n : Nat)
    (s : Stmt) : trappedStmt (fun _ _ => False) r load n s = stmt r load n s := by
  cases s with
  | assign a =>
      simp only [trappedStmt]
      split
      · rfl
      next hchain =>
        have hassign : assign r a = r.expr a.value >>= assignIndexed r a.target := by
          have hempty : (!a.target.chain.isEmpty) = true := by simp [hchain]
          simp only [assign, hempty, if_true]
        rw [trap_nothing]
        change _ = (assign r a >>= fun _ => pure Flow.normal)
        rw [hassign, Eval.bind_assoc]
        rfl
  | _ => rfl

theorem stmtsWith_stmt (r : Recursor) (load : Span → Expr → String → Eval Unit) (n : Nat) :
    ∀ ss : List Stmt, stmtsWith (stmt r load n) ss = stmts r load n ss := by
  intro ss
  induction ss with
  | nil => rfl
  | cons s ss ih =>
      refine congrArg (bind _) (funext fun flow => ?_)
      cases flow with
      | normal => exact ih
      | _ => rfl

/-- Without traps, the machine is the one that runs. -/
theorem trapped_nothing : ∀ n : Nat, trapped (fun _ _ => False) n = run n
  | 0 => rfl
  | n + 1 => by
      funext α task
      rw [trapped, trapped_nothing n]
      cases task with
      | block b =>
          have hone : trappedStmt (fun _ _ => False) (run n) (load (run n)) n =
              stmt (run n) (load (run n)) n := funext (trappedStmt_nothing _ _ n)
          change stmtsWith (trappedStmt _ (run n) (load (run n)) n) b.body = _
          rw [hone]
          exact stmtsWith_stmt (run n) (load (run n)) n b.body
      | call callee args span => cases callee <;> rfl
      | _ => rfl

end Run

/-! ## Traps are safe -/

variable {c : Context} {r r' : Recursor} {w : World} {P P' : ScopeRef → String → Prop}

/-- The first machine has the traps of the second one and may have others where it may
be halted, and what there is no trap for may be bound. -/
structure Context.Traps (c : Context) (P P' : ScopeRef → String → Prop) : Prop where
  sub : ∀ s name, P' s name → P s name
  halting : ∀ s name, P s name → ¬ P' s name → c.halting
  exposed : ∀ s name, ¬ P' s name → ¬ c.Spares s ∨ c.exposed s name

theorem safe_trap (ht : c.Traps P P') (container : Value) (last : Index) :
    Safe c w (Run.trap P container last) (Run.trap P' container last)
      (fun _ _ => c.Opens container last) Catchable := by
  have hother : (∀ m s span name, container = .module m s → last ≠ .property span name) →
      c.Opens container last := fun h m s span name hm hl => absurd hl (h m s span name hm)
  cases container with
  | module m s =>
      cases last with
      | subscript span key => exact .pure (hother fun _ _ _ _ _ h => nomatch h)
      | property span name =>
          simp only [Run.trap]
          by_cases hP' : P' s name
          · rw [if_pos hP', if_pos (ht.sub s name hP')]
            exact .outOfFuel
          · rw [if_neg hP']
            have hopens : c.Opens (.module m s) (.property span name) := by
              rintro _ _ _ _ ⟨⟩ ⟨⟩
              exact ht.exposed s name hP'
            by_cases hP : P s name
            · rw [if_pos hP]
              exact fun _ => ⟨.inr ⟨ht.halting s name hP hP', w, rfl, .refl c w, .refl _⟩,
                .refl c w, hopens⟩
            · rw [if_neg hP]
              exact .pure hopens
  | _ => exact .pure (hother fun _ _ _ _ h => nomatch h)

theorem safe_trappedStmt (ht : c.Traps P P') (hr : Carries c r r')
    {load load' : Span → Expr → String → Eval Unit} (hl : Loads c load load') (n : Nat) (s : Stmt)
    (hst : c.Stands w) :
    Safe c w (Run.trappedStmt P r load n s) (Run.trappedStmt P' r' load' n s) c.GoodFlow
      Catchable := by
  have hplain : ¬ s.Indexed → Safe c w (Run.stmt r load n s) (Run.stmt r' load' n s) c.GoodFlow
      Catchable := fun hs => safe_stmt hr hl n (fun h => absurd h hs) hst
  cases s with
  | assign a =>
      simp only [Run.trappedStmt]
      split
      next hchain => exact hplain fun h => h hchain
      next =>
        refine (hr.expr a.value).bind fun v w₁ _ _ hv => ?_
        exact (safe_assignIndexedWith hr (fun container last _ => safe_trap ht container last)
          a.target hv).bind fun _ _ _ _ _ => .pure trivial
  | _ => exact hplain id

/-- Machines with traps carry out tasks safely. -/
theorem carries_trapped : ∀ (n : Nat) (c : Context), c.Traps P P' →
    Carries c (Run.trapped P n) (Run.trapped P' n)
  | 0, _, _ => fun _ _ _ _ _ => .outOfFuel
  | n + 1, c, ht => by
      intro id α task w hgood
      have ht' : (c.on id).Traps P P' := ⟨ht.sub, ht.halting, ht.exposed⟩
      have hpush : (c.on id).push.Traps P P' := ⟨ht.sub, ht.halting, ht.exposed⟩
      have hr := carries_trapped n (c.on id) ht'
      refine safe_carryOutWith hr (carries_trapped n _ hpush) (fun b hst => ?_) task hgood
      exact safe_stmtsWith (fun s _ hst => safe_trappedStmt ht' hr (loads_load hr) n s hst) b.body w
        hst

/-! ## What is left alone -/

namespace Run

/-- The name is no constant of the scope, and with a trap for it alone the action is
stopped: it comes to bind the name in that scope, as a property of a module. -/
def Rebinds {α : Type} (x : Recursor → Eval α) (n : Nat) (env : Env) (w : World) (s : ScopeRef)
    (name : String) : Prop :=
  w.heap.isConstant s name = false ∧
    ∃ w₁, x (trapped (fun t m => t = s ∧ m = name) n) env w = .error .outOfFuel w₁ ∧
      x (run n) env w ≠ .error .outOfFuel w₁

/-- However the action ends, the scopes that there were have the same constants, and their
names are bound to the same, apart from properties of modules that it assigned. -/
def Confined {α : Type} (x : Recursor → Eval α) (n : Nat) (env : Env) (w : World) : Prop :=
  ∀ s : ScopeRef, s.index < w.heap.scopes.size →
    Heap.KeepsScope (Rebinds x n env w s) s w.heap ((x (run n)).worldAfter env w).heap

end Run

/-- The context that spares all scopes of a world, apart from names for which there are no
traps. -/
def Context.sparing (stack : List InterpreterId) (env : Env) (w : World)
    (P : ScopeRef → String → Prop) (halting : Prop) : Context :=
  ⟨True, w.interpreters.size, stack, env, w.heap, fun s name => ¬ P s name, halting⟩

/-- An action that is safe whatever is spared binds nothing in the scopes that there are. -/
theorem confined_of_safe {α : Type} {env : Env} (hv : env.Valid w) {x : Recursor → Eval α}
    {V : Context → World → α → Prop} {E : Fault → Prop}
    (hx : ∀ (c : Context) (r r' : Recursor), c.env = env → Carries c r r' →
      Safe c w (x r) (x r') (V c) E) (n : Nat) : Run.Confined x n env w := by
  obtain ⟨stack, hcounted⟩ := hv.counted
  have hready : ∀ P halting, (Context.sparing stack env w P halting).Ready w := fun P halting =>
    ⟨Nat.le_refl _, fun _ => hv.sound, fun _ => hv.self, fun _ => hcounted, .refl _,
      fun _ => hv.placed⟩
  intro s hs
  -- the machine that runs, compared with one that has a trap
  have hagree : ∀ P, Agree (Context.sparing stack env w (fun _ _ => False) True) w
      (x (Run.trapped P n)) (x (Run.run n)) ∧
      w.Evolves (Context.sparing stack env w (fun _ _ => False) True)
        ((x (Run.run n)).worldAfter env w) := by
    intro P
    have hcarries := carries_trapped (P := P) n
      (Context.sparing stack env w (fun _ _ => False) True)
      ⟨fun _ _ => False.elim, fun _ _ _ _ => trivial, fun _ _ h => .inr h⟩
    rw [Run.trapped_nothing] at hcarries
    obtain ⟨ha, hl⟩ := hx _ _ _ rfl hcarries (hready _ _)
    exact ⟨ha, hl.evolves⟩
  have hconstants := (hagree fun _ _ => False).2.keeps.constants
  refine ⟨((hagree fun _ _ => False).2.keeps.spared s ⟨trivial, hs⟩).constants, fun name hn => ?_⟩
  cases hc : w.heap.isConstant s name with
  | true => exact (hconstants.constant s name hc).2
  | false =>
      let P : ScopeRef → String → Prop := fun t m => t = s ∧ m = name
      have hcarries := carries_trapped n (Context.sparing stack env w P False)
        ⟨fun _ _ => id, fun _ _ h h' => absurd h h', fun _ _ h => .inr h⟩
      have hspared := ((hx _ _ _ rfl hcarries (hready P False)).2.evolves.keeps.spared s
        ⟨trivial, hs⟩).binding name (not_not_intro ⟨rfl, rfl⟩)
      -- nothing stops the machine that has a trap for the name
      have hsame : x (Run.trapped P n) env w = x (Run.run n) env w := by
        rcases (hagree P).1 with heq | ⟨-, w₁, hhalt, -⟩
        · exact heq
        · refine hhalt.trans (Classical.byContradiction fun hne => hn ⟨hc, w₁, hhalt, ?_⟩)
          exact fun h => hne h.symm
      have hworld : (x (Run.trapped P n)).worldAfter env w = (x (Run.run n)).worldAfter env w := by
        rw [Eval.worldAfter, hsame, ← Eval.worldAfter]
      rw [← hworld]
      exact hspared

theorem confined_call {env : Env} (hv : env.Valid w) {callee : Value} {args : List Value}
    (hf : callee.Within w.extent) (ha : ∀ v ∈ args, v.Within w.extent) (span : Span) (n : Nat) :
    Run.Confined (fun r => r.call callee args span) n env w :=
  confined_of_safe hv (V := fun c => c.Good) (fun _ _ _ _ hr =>
    hr.call (fun _ => hf) (fun v hmem _ => ha v hmem) span) n

theorem confined_runModule {env : Env} (hv : env.Valid w) (m : Run.Found) (nickname : String)
    (span : Span) (n : Nat) : Run.Confined (fun r => Run.runModule r m nickname span) n env w :=
  confined_of_safe hv (V := fun _ _ v => v.Plain) (fun _ _ _ _ hr =>
    safe_runModule hr m nickname span) n

/-! ## Imports -/

theorem Heap.KeepsScope.bind_after {exempt : String → Prop} {s t : ScopeRef} {h h' : Heap}
    (k : KeepsScope exempt t h h') (name : String) (v : Value) :
    KeepsScope (fun m => exempt m ∨ t = s ∧ m = name) t h (h'.bind s name v false) where
  constants := (h'.constants_bind s name v t).trans k.constants
  binding m hm := by
    obtain ⟨hexempt, hname⟩ := not_or.mp hm
    refine Eq.trans ?_ (k.binding m hexempt)
    by_cases hst : s = t
    · exact binding?_bind_of_ne (fun he => hname ⟨hst.symm, he.symm⟩) v false
    · rw [binding?, binding?, scope_bind_of_ne hst]

/-- A value is bound in the current scope, or nothing is done. -/
theorem Eval.bindSelf_cases (span : Span) (name : String) (v : Value) (env : Env) (w : World) :
    (∃ e, Eval.bindSelf span name v env w = .error e w) ∨
      ∃ w', Eval.bindSelf span name v env w = .ok () w' ∧
        w'.heap = w.heap.bind (env.scopeIn w) name v false := by
  change (∃ e, Eval.placed span (Eval.assign (env.scopeIn w) name v) env w = .error e w) ∨
    ∃ w', Eval.placed span (Eval.assign (env.scopeIn w) name v) env w = .ok () w' ∧ _
  cases hc : w.heap.isConstant (env.scopeIn w) name with
  | true =>
      obtain ⟨g, hg, -⟩ := Eval.place_eq span (.unplaced (.constant name)) env w
      refine .inl ⟨.fault g, (Eval.tryCatch_error (Eval.assign_constant hc v env) _).trans ?_⟩
      exact Eval.bind_ok hg _
  | false =>
      obtain ⟨w', hdefine, hheap, -⟩ := Eval.define_eq (env.scopeIn w) name v false env w
      rw [← Eval.assign_eq_define hc] at hdefine
      exact .inr ⟨w', Eval.tryCatch_ok hdefine _, hheap⟩

section Imports

variable {env : Env} {span : Span} {location : Expr} {nickname : String}

theorem confined_imported (hv : env.Valid w) (span : Span) (location : Expr) (nickname : String)
    (n : Nat) : Run.Confined (fun r => Run.imported r span location nickname) n env w :=
  confined_of_safe hv (V := fun _ _ m => m.2.Plain)
    (fun _ _ _ _ hr => safe_imported hr span location nickname) n

/-- What an import that found a module binds. -/
theorem Run.imported_ok {m : String × Value} {w' : World}
    (h : imported r span location nickname env w = .ok m w') :
    ∃ name w₁, r.expr location env w = .ok (.string name) w₁ ∧ m.1 = aliasOf name nickname ∧
      importModule r name (aliasOf name nickname) span env w₁ = .ok m.2 w' := by
  cases hv : r.expr location env w with
  | error e w₁ =>
      rw [imported, Eval.bind_error hv] at h
      cases h
  | ok v w₁ =>
      rw [imported, Eval.bind_ok hv] at h
      cases v with
      | string name =>
          cases hmodule : importModule r name (aliasOf name nickname) span env w₁ with
          | error e w₂ =>
              dsimp only at h
              rw [Eval.bind_error hmodule] at h
              cases h
          | ok u w₂ =>
              dsimp only at h
              rw [Eval.bind_ok hmodule] at h
              cases h
              exact ⟨name, w₁, rfl, rfl, hmodule⟩
      | _ => cases h

/-- An import that fails binds nothing. -/
theorem confined_load_error (hv : env.Valid w) {n : Nat} {e : Failure} {w' : World}
    (h : Run.load (Run.run n) span location nickname env w = .error e w') {s : ScopeRef}
    (hs : s.index < w.heap.scopes.size) :
    Heap.KeepsScope (Run.Rebinds (fun r => Run.imported r span location nickname) n env w s) s
      w.heap w'.heap := by
  have hkeeps := confined_imported hv span location nickname n s hs
  rw [Run.load_eq] at h
  cases himported : Run.imported (Run.run n) span location nickname env w with
  | error e' w₁ =>
      rw [Eval.bind_error himported] at h
      rw [Eval.worldAfter_error himported] at hkeeps
      cases h
      exact hkeeps
  | ok m w₁ =>
      rw [Eval.bind_ok himported] at h
      rw [Eval.worldAfter_ok himported] at hkeeps
      rcases Eval.bindSelf_cases span m.1 m.2 env w₁ with ⟨e', herror⟩ | ⟨w₂, hok, -⟩
      · rw [herror] at h
        cases h
        exact hkeeps
      · rw [hok] at h
        cases h

/-- An import that succeeds binds its name in the current scope, and nothing else. -/
theorem confined_load_ok (hv : env.Valid w) {n : Nat} {w' : World}
    (h : Run.load (Run.run n) span location nickname env w = .ok () w') :
    ∃ name v w₁ w₂, (Run.run n).expr location env w = .ok (.string name) w₁ ∧
      Run.importModule (Run.run n) name (Run.aliasOf name nickname) span env w₁ = .ok v w₂ ∧
      w'.heap.binding? (env.scopeIn w) (Run.aliasOf name nickname) = some v ∧
      ∀ s : ScopeRef, s.index < w.heap.scopes.size →
        Heap.KeepsScope (fun m =>
          Run.Rebinds (fun r => Run.imported r span location nickname) n env w s m ∨
            s = env.scopeIn w ∧ m = Run.aliasOf name nickname) s w.heap w'.heap := by
  have hkeeps := confined_imported hv span location nickname n
  have hev : w.Evolves (Context.unchecked env w)
      ((Run.imported (Run.run n) span location nickname).worldAfter env w) :=
    (safe_imported (carries_run Context.open_unchecked n) span location nickname).evolves
      Context.ready_unchecked
  rw [Run.load_eq] at h
  cases himported : Run.imported (Run.run n) span location nickname env w with
  | error e w₁ =>
      rw [Eval.bind_error himported] at h
      cases h
  | ok m w₁ =>
      rw [Eval.bind_ok himported] at h
      rw [Eval.worldAfter_ok himported] at hev
      obtain ⟨name, w₂, hlocation, halias, hmodule⟩ := Run.imported_ok himported
      have hscope : env.scopeIn w₁ = env.scopeIn w :=
        congrArg Frame.scope (hev.restored _ hv.self)
      rcases Eval.bindSelf_cases span m.1 m.2 env w₁ with ⟨e, herror⟩ | ⟨w₃, hok, hheap⟩
      · rw [herror] at h
        cases h
      · rw [hok] at h
        cases h
        rw [hscope, halias] at hheap
        refine ⟨name, m.2, w₂, w₁, hlocation, hmodule, ?_, fun s hs => ?_⟩
        · have hlt := (hv.placed _ hv.self).2
          rw [hheap]
          exact Heap.binding?_bind_self (Nat.lt_of_lt_of_le hlt hev.keeps.constants.size) _ _ _
        · have hbefore := hkeeps s hs
          rw [Eval.worldAfter_ok himported] at hbefore
          rw [hheap]
          exact hbefore.bind_after _ _

end Imports

/-! ## Calls and imports are confined -/

/-- In a state in which execution may stand, no call and no execution of a module changes a
scope that there is, apart from properties of modules that are assigned, and an import
binds its name in the current scope if it succeeds, and nothing if it fails.  The machine
without traps is the one that runs, and sessions get into no other states. -/
theorem calls_and_imports_confined :
    (∀ n, Run.trapped (fun _ _ => False) n = Run.run n) ∧
    (∀ (n : Nat) (env : Env) (w : World), env.Valid w →
      (∀ (callee : Value) (args : List Value) (span : Span), callee.Within w.extent →
        (∀ v ∈ args, v.Within w.extent) →
          Run.Confined (fun r => r.call callee args span) n env w) ∧
      (∀ (m : Run.Found) (nickname : String) (span : Span),
        Run.Confined (fun r => Run.runModule r m nickname span) n env w) ∧
      ∀ (span : Span) (location : Expr) (nickname : String),
        (∀ e w', Run.load (Run.run n) span location nickname env w = .error e w' →
          ∀ s : ScopeRef, s.index < w.heap.scopes.size →
            Heap.KeepsScope (Run.Rebinds (fun r => Run.imported r span location nickname) n env w s)
              s w.heap w'.heap) ∧
        ∀ w', Run.load (Run.run n) span location nickname env w = .ok () w' →
          ∃ name v w₁ w₂, (Run.run n).expr location env w = .ok (.string name) w₁ ∧
            Run.importModule (Run.run n) name (Run.aliasOf name nickname) span env w₁ = .ok v w₂ ∧
            w'.heap.binding? (env.scopeIn w) (Run.aliasOf name nickname) = some v ∧
            ∀ s : ScopeRef, s.index < w.heap.scopes.size →
              Heap.KeepsScope (fun m =>
                Run.Rebinds (fun r => Run.imported r span location nickname) n env w s m ∨
                  s = env.scopeIn w ∧ m = Run.aliasOf name nickname) s w.heap w'.heap) ∧
    ∀ s : Session, s.Reachable → Env.Valid ⟨s.setup, Session.main⟩ s.world ∧
      ∀ (q : Session.Request), q.Good s → ∀ alarm,
        s.answer (Run.watched (fun _ => Eval.demandValid alarm) Session.bound []) q =
          s.answer Session.machine q := by
  refine ⟨Run.trapped_nothing, fun n env w hv => ⟨?_, ?_, ?_⟩, fun s hs => hs.valid⟩
  · exact fun callee args span hf ha => confined_call hv hf ha span n
  · exact fun m nickname span => confined_runModule hv m nickname span n
  · intro span location nickname
    exact ⟨fun e w' h s hs => confined_load_error hv h hs, fun w' h => confined_load_ok hv h⟩

/-- A subroutine that assigns to a name leaves it unbound in the scope around. -/
theorem calls_and_imports_confined_local :
    ∃ w', (Run.run 3).call (.subroutine ⟨"F", [], .mk .nowhere
          [.assign ⟨.nowhere, ⟨.nowhere, "x", []⟩, .int .nowhere 1, false⟩], ⟨0⟩, none, default, 0⟩)
        [] .nowhere ⟨{ (default : Setup) with maxDepth := 5 }, Session.main⟩
        (Session.rootedWorld { (default : Session.Options) with
          setup := { (default : Setup) with maxDepth := 5 } }) = .ok .none w' ∧
      w'.heap.binding? ⟨0⟩ "x" = none := by
  have hvalid := (Session.ready_rooted { (default : Session.Options) with
    setup := { (default : Setup) with maxDepth := 5 } }).valid trivial
  have hconfined := (calls_and_imports_confined.2.1 3 _ _ hvalid).1
    (.subroutine ⟨"F", [], .mk .nowhere
      [.assign ⟨.nowhere, ⟨.nowhere, "x", []⟩, .int .nowhere 1, false⟩], ⟨0⟩, none, default, 0⟩)
    [] .nowhere trivial (fun _ hv => absurd hv List.not_mem_nil) ⟨0⟩ Nat.one_pos
  refine ⟨_, rfl, hconfined.binding "x" ?_⟩
  rintro ⟨-, w₁, hstop, -⟩
  cases hstop

end Pseudocode
