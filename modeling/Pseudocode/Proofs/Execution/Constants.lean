import Pseudocode.Proofs.Execution.Frames
import Pseudocode.Proofs.Execution.Range
/-
# `Proofs.Execution.Constants` — constants are never bound anew

A name that is constant in a scope stays so and is bound to the same, whatever is
executed.  To speak of the states that an execution passes through, the machine is
halted when it is first in a world of some kind (`Run.halted`).  If there are more
worlds in which one machine is halted than there are for another, it is halted
earlier in the same execution, and the constants that there are then are kept until
the other one is halted or ends (`kept_halted`); likewise while the requests of a
session are answered, and from one to the next (`Later.kept`).

`Run.Writes` says that a statement comes to write a name in a scope, with one rule for
each form that does.  If the name is a constant there, the statement ends with an
error, and the scopes are what they were when it came to write (`Writes.refused`).
-/
namespace Pseudocode

/-! ## Halting -/

/-- Stops execution in a world of some kind. -/
noncomputable def Eval.halt (Q : World → Prop) : Eval Unit :=
  Eval.guard (fun _ w => ¬ Q w) Eval.outOfFuel

/-- The machine, halted when it is first in a world of some kind. -/
noncomputable def Run.halted (Q : World → Prop) (n : Nat) (stack : List InterpreterId) : Recursor :=
  Run.watched (fun _ => Eval.halt Q) n stack

namespace Eval

variable {α : Type} {Q : World → Prop} {x : Eval α} {env : Env} {w w' : World}

theorem halt_pos (hQ : Q w) : halt Q env w = .error .outOfFuel w :=
  guard_alarm (not_not_intro hQ) outOfFuel

theorem halt_neg (hQ : ¬ Q w) : halt Q env w = .ok () w := guard_eq hQ outOfFuel

theorem watching_halt_start (hQ : Q w) : watching (halt Q) x env w = .error .outOfFuel w :=
  bind_error (halt_pos hQ) _

/-- An action that is not halted at its start may be halted at its end. -/
theorem watching_halt_end (hQ : ¬ Q w) (hQ' : Q (x.worldAfter env w)) :
    watching (halt Q) x env w = .error .outOfFuel (x.worldAfter env w) := by
  refine (bind_ok (halt_neg hQ) _).trans ?_
  cases hx : x env w with
  | ok a w' =>
      rw [worldAfter_ok hx] at hQ' ⊢
      exact (bind_ok (tryCatch_ok hx _) _).trans (bind_error (halt_pos hQ') _)
  | error e w' =>
      rw [worldAfter_error hx] at hQ' ⊢
      exact bind_error ((tryCatch_error hx _).trans (bind_error (halt_pos hQ') _)) _

theorem watching_halt_not (hQ : ¬ Q w) (hQ' : ¬ Q (x.worldAfter env w)) :
    watching (halt Q) x env w = x env w := by
  refine watching_eq (halt_neg hQ) (fun a w' hx => ?_) fun e w' hx => ?_
  · rw [worldAfter_ok hx] at hQ'
    exact halt_neg hQ'
  · rw [worldAfter_error hx] at hQ'
    exact halt_neg hQ'

theorem worldAfter_watching_halt (hQ : ¬ Q w) :
    (watching (halt Q) x).worldAfter env w = x.worldAfter env w := by
  by_cases hQ' : Q (x.worldAfter env w)
  · exact worldAfter_error (watching_halt_end hQ hQ')
  · rw [worldAfter, watching_halt_not hQ hQ', worldAfter]

end Eval

/-- Of two machines, the one that is halted in more worlds is halted earlier. -/
theorem Context.watches_halt {c : Context} (hc : c.halting) {Q Q' : World → Prop}
    (hsub : ∀ w, Q' w → Q w) :
    c.Watches (fun _ => Eval.halt Q) fun _ => Eval.halt Q' := by
  intro stack self α w x y V E hx hr
  obtain ⟨hagree, hleads⟩ := hx hr
  have hev := hleads.evolves
  constructor
  · by_cases hstart : Q w
    · -- the first is halted at once
      by_cases hstart' : Q' w
      · exact .inl ((Eval.watching_halt_start hstart).trans (Eval.watching_halt_start hstart').symm)
      · refine .inr ⟨hc, w, Eval.watching_halt_start hstart, .refl _ w, ?_⟩
        rw [Eval.worldAfter_watching_halt hstart']
        exact hev.keeps.constants
    · have hstart' : ¬ Q' w := fun h => hstart (hsub w h)
      have hafter : (Eval.watching (Eval.halt Q') y).worldAfter { c.env with self } w =
          y.worldAfter { c.env with self } w := Eval.worldAfter_watching_halt hstart'
      rcases hagree with heq | ⟨-, w₁, hhalt, hev₁, hkept⟩
      · have hsame : x.worldAfter { c.env with self } w = y.worldAfter { c.env with self } w := by
          rw [Eval.worldAfter, heq, Eval.worldAfter]
        by_cases hend : Q (x.worldAfter { c.env with self } w)
        · refine .inr ⟨hc, _, Eval.watching_halt_end hstart hend, hsame.symm ▸ hev, ?_⟩
          rw [hafter, hsame]
          exact .refl _
        · have hend' : ¬ Q' (y.worldAfter { c.env with self } w) := fun h =>
            hend (hsame.symm ▸ hsub _ h)
          exact .inl ((Eval.watching_halt_not hstart hend).trans
            (heq.trans (Eval.watching_halt_not hstart' hend').symm))
      · refine .inr ⟨hc, w₁, ?_, hev₁, hafter.symm ▸ hkept⟩
        have hworld : x.worldAfter { c.env with self } w = w₁ := Eval.worldAfter_error hhalt
        by_cases hend : Q (x.worldAfter { c.env with self } w)
        · rw [← hworld]
          exact Eval.watching_halt_end hstart hend
        · exact (Eval.watching_halt_not hstart hend).trans hhalt
  · by_cases hstart' : Q' w
    · change Leads _ w V E (Eval.watching (Eval.halt Q') y { c.env with self } w)
      rw [Eval.watching_halt_start hstart']
      exact .refl _ w
    · change Leads _ w V E (Eval.watching (Eval.halt Q') y { c.env with self } w)
      by_cases hend' : Q' (y.worldAfter { c.env with self } w)
      · rw [Eval.watching_halt_end hstart' hend']
        exact hev
      · rw [Eval.watching_halt_not hstart' hend']
        exact hleads

/-! ## Whatever is executed -/

section Kept

variable {α : Type} {env : Env} {w w' : World}

/-- What is halted is halted in a world whose constants are kept. -/
theorem Agree.kept {c : Context} {x y : Eval α} (h : Agree c w x y) :
    (x.worldAfter c.env w).heap.KeepsConstants (y.worldAfter c.env w).heap := by
  rcases h with heq | ⟨-, w₁, hhalt, -, hkept⟩
  · rw [Eval.worldAfter, heq, ← Eval.worldAfter]
    exact .refl _
  · rwa [Eval.worldAfter_error hhalt]

theorem halted_never (n : Nat) (stack : List InterpreterId) :
    Run.halted (fun _ => False) n stack = Run.run n := by
  have hnothing : Eval.halt (fun _ => False) = pure () := by
    funext env w
    exact Eval.halt_neg id
  rw [Run.halted, hnothing]
  exact Run.watched_nothing n stack

/-- The constants that there are when the machine is halted are kept until it would be
halted later, or would end. -/
theorem kept_halted {Q Q' : World → Prop} (hsub : ∀ w, Q' w → Q w) (n : Nat)
    (stack : List InterpreterId) (task : Task α) (env : Env) (w : World) :
    ((Run.halted Q n stack α task).worldAfter env w).heap.KeepsConstants
      ((Run.halted Q' n stack α task).worldAfter env w).heap := by
  let c : Context := { Context.unchecked env w with stack, halting := True }
  have hready : c.Ready w := ⟨Nat.le_refl _, False.elim, False.elim, False.elim, .refl _, False.elim⟩
  have hcarries := carries_watched n c (c.watches_halt trivial hsub) fun _ _ => .inr trivial
  exact (hcarries env.self α task w task.good_unchecked hready).1.kept

/-- What is safe in all worlds keeps constants. -/
theorem Safe.kept {x : Eval α} {V : World → α → Prop} {E : Fault → Prop} {a : α}
    (hx : Safe (Context.unchecked env w) w x x V E) (hok : x env w = .ok a w') :
    w.heap.KeepsConstants w'.heap := by
  have hkept := (hx.evolves Context.ready_unchecked).keeps.constants
  rwa [show x.worldAfter (Context.unchecked env w).env w = w' from Eval.worldAfter_ok hok] at hkept

theorem carries_unchecked (n : Nat) (env : Env) (w : World) :
    Carries (Context.unchecked env w) (Run.run n) (Run.run n) :=
  carries_run Context.open_unchecked n

end Kept

/-! ## In sessions -/

namespace Session

variable {s s' : Session}

/-- The second session is the first one after some requests. -/
inductive Later (s : Session) : Session → Prop
  | refl : Later s s
  | answer {s' : Session} (q : Request) : Later s s' → q.Good s' → Later s (s'.answer machine q).2

theorem Later.reachable (hs : s.Reachable) (h : s.Later s') : s'.Reachable := by
  induction h with
  | refl => exact hs
  | answer q _ hq ih => exact .answer q ih hq

/-- The context of a session of which only the constants are known. -/
def constantContext (s : Session) : Context :=
  { s.context with checked := False, before := s.world.heap, halting := True }

theorem ready_constantContext (s : Session) : s.constantContext.Ready s.world :=
  ⟨Nat.zero_le _, False.elim, False.elim, False.elim, .refl _, False.elim⟩

theorem Reachable.prepared (hs : s.Reachable) : s.constantContext.Prepared s.world := by
  obtain ⟨hself, -, hpending⟩ := hs.settled.prepared
  refine ⟨hself, Context.not_spares _ id _, hpending.imp_right fun hu => ?_⟩
  exact ⟨hu.lt, Context.not_spares _ id _, hu.constants⟩

/-- A request is answered alike by machines of which one is halted earlier, as far as it
goes, and constants are kept. -/
theorem Reachable.kept_answer (hs : s.Reachable) (q : Request) {Q Q' : World → Prop}
    (hsub : ∀ w, Q' w → Q w) :
    s.world.heap.KeepsConstants (s.answer (Run.halted Q' bound []) q).2.world.heap ∧
      (s.answer (Run.halted Q bound []) q).2.world.heap.KeepsConstants
        (s.answer (Run.halted Q' bound []) q).2.world.heap := by
  let c := s.constantContext
  have hr : Carries c (Run.halted Q bound []) (Run.halted Q' bound []) :=
    carries_watched bound c (c.watches_halt trivial hsub) fun _ _ => .inr trivial
  have hsafe := safe_action hr rfl hs.prepared q fun _ _ => False.elim
  obtain ⟨hagree, hleads⟩ := hsafe s.ready_constantContext
  rw [Session.answer, Session.answer, world_perform, world_perform]
  exact ⟨hleads.evolves.keeps.constants, hagree.kept⟩

theorem Later.kept (hs : s.Reachable) (h : s.Later s') :
    s.world.heap.KeepsConstants s'.world.heap := by
  induction h with
  | refl => exact .refl _
  | answer q hl _ ih =>
      have hanswer := ((hl.reachable hs).kept_answer q (Q := fun _ => False) fun _ => id).1
      rw [halted_never] at hanswer
      exact ih.trans hanswer

end Session

/-! ## Declaring a constant -/

namespace Run

variable {r : Recursor} {env : Env} {w w₁ w' : World}

theorem scope_eq (env : Env) (w : World) : Eval.scope env w = .ok (env.scopeIn w) w := rfl

theorem declare_eq {span : Span} {name : String} {v : Value}
    (hn : w.heap.isConstant (env.scopeIn w) name = false) :
    declare span name v env w = (Eval.copy v >>= fun u =>
      Eval.define (env.scopeIn w) name u true) env w := by
  have hlook : (Eval.inHeap (·.isConstant (env.scopeIn w) name)) env w = .ok false w :=
    congrArg (EStateM.Result.ok · w) hn
  rw [declare, Eval.bind_ok (scope_eq env w), Eval.bind_ok hlook]
  rfl

/-- A declaration that succeeds makes the name a constant of the current scope, bound
to a copy of the value. -/
theorem constant_of_declare {span : Span} {name : String} {v : Value}
    (hs : (env.scopeIn w).index < w.heap.scopes.size)
    (hok : declare span name v env w = .ok () w') :
    w'.heap.isConstant (env.scopeIn w) name = true ∧
      w'.heap.binding? (env.scopeIn w) name = some (Heap.copy v w.heap).1 := by
  cases hn : w.heap.isConstant (env.scopeIn w) name with
  | true =>
      have hlook : (Eval.inHeap (·.isConstant (env.scopeIn w) name)) env w = .ok true w :=
        congrArg (EStateM.Result.ok · w) hn
      rw [declare, Eval.bind_ok (scope_eq env w), Eval.bind_ok hlook] at hok
      cases hok
  | false =>
      rw [declare_eq hn, Eval.bind_ok (Eval.copy_eq v env w)] at hok
      obtain ⟨w'', hdefine, hheap, -⟩ := Eval.define_eq (env.scopeIn w) name (Heap.copy v w.heap).1
        true env { w with heap := (Heap.copy v w.heap).2 }
      rw [hdefine] at hok
      cases hok
      have hs' : (env.scopeIn w).index < (Heap.copy v w.heap).2.scopes.size := by
        rw [Heap.scopes_copy]
        exact hs
      rw [hheap]
      exact ⟨Heap.isConstant_bind_self hs' name _, Heap.binding?_bind_self hs' name _ true⟩

/-! ## Coming to write a name -/

/-- Rounds of a `FOR` loop, from the values that are left in one world to those that
are left in a later one. -/
inductive Rounds (r : Recursor) (env : Env) (span : Span) (name : String) (body : Block) :
    List Value → World → List Value → World → Prop
  | refl {vs : List Value} {w : World} : Rounds r env span name body vs w vs w
  | round {v : Value} {vs us : List Value} {flow : Flow} {w w₁ w₂ w' : World} :
      Eval.bindCopy span name v env w = .ok () w₁ → r.block body env w₁ = .ok flow w₂ →
      loopEnd? flow = none → Rounds r env span name body vs w₂ us w' →
      Rounds r env span name body (v :: vs) w us w'

/-- What a loop does is what it does after some rounds. -/
theorem Rounds.eachLoop_eq {span : Span} {name : String} {body : Block} {vs us : List Value}
    (h : Rounds r env span name body vs w us w') :
    eachLoop r span name body vs env w = eachLoop r span name body us env w' := by
  induction h with
  | refl => rfl
  | round hbind hblock hend _ ih =>
      rw [eachLoop, Eval.bind_ok hbind, Eval.bind_ok hblock, hend]
      exact ih

/-- Started in the first world, the statement comes in the second one to write a name in
a scope. -/
inductive Writes (r : Recursor) (env : Env) : Stmt → World → World → ScopeRef → String → Prop
  /-- An assignment to a name, or the declaration of a constant. -/
  | assign {a : Assignment} {v : Value} {w w₁ : World} : a.target.chain = [] →
      r.expr a.value env w = .ok v w₁ →
      Writes r env (.assign a) w w₁ (env.scopeIn w₁) a.target.name
  /-- An assignment to a property of a module. -/
  | property {a : Assignment} {v base : Value} {owner s : ScopeRef} {chain : List Index}
      {span : Span} {name m : String} {w w₁ w₂ : World} :
      a.target.chain = chain ++ [.property span name] → r.expr a.value env w = .ok v w₁ →
      w₁.heap.find? (env.scopeIn w₁) a.target.name = some (owner, base) →
      walk r base chain env w₁ = .ok (.module m s) w₂ →
      Writes r env (.assign a) w w₂ s name
  | subroutine {d : Routine} {w : World} :
      Writes r env (.subroutine d) w w (env.scopeIn w) d.name
  | record {span : Span} {name : String} {fields : List String} {w : World} :
      Writes r env (.record span name fields) w w (env.scopeIn w) name
  | classDef {span : Span} {name : String} {fields : List Assignment} {routines : List Routine}
      {o : ClassRef} {w w₁ w₂ w₃ : World} :
      Eval.onHeap (Heap.newClass ⟨name, []⟩) env w = .ok o w₁ →
      statics r o fields env w₁ = .ok () w₂ → methods o routines env w₂ = .ok () w₃ →
      Writes r env (.classDef span name fields routines) w w₃ (env.scopeIn w₃) name
  /-- The first round of a loop over a range, or a later one. -/
  | forRange {span : Span} {name : String} {first last : Expr} {step : Option Expr} {body : Block}
      {a b k : Int} {v : Value} {vs : List Value} {w w₁ w₂ w₃ w' : World} :
      bound r first "start" env w = .ok a w₁ → bound r last "end" env w₁ = .ok b w₂ →
      stepBound r step env w₂ = .ok k w₃ →
      Rounds r env span name body (rangeValues k (rangeCount a b k) a) w₃ (v :: vs) w' →
      Writes r env (.forRange span name first last step body) w w' (env.scopeIn w') name
  /-- The first round of a loop over values, or a later one. -/
  | forEach {span : Span} {name : String} {iterable : Expr} {body : Block} {u v : Value}
      {us vs : List Value} {w w₁ w' : World} :
      r.expr iterable env w = .ok u w₁ → items? w₁.heap u = some us →
      Rounds r env span name body us w₁ (v :: vs) w' →
      Writes r env (.forEach span name iterable body) w w' (env.scopeIn w') name
  | load {span : Span} {location : Expr} {nickname name : String} {v : Value} {w w₁ w₂ : World} :
      r.expr location env w = .ok (.string name) w₁ →
      importModule r name (aliasOf name nickname) span env w₁ = .ok v w₂ →
      Writes r env (.load span location nickname) w w₂ (env.scopeIn w₂) (aliasOf name nickname)

/-! ## Refusing to write a constant -/

/-- The action ends with the error of a write to a constant, and with the scopes as they
are. -/
def Refuses {α : Type} (x : Eval α) (env : Env) (w w₁ : World) : Prop :=
  ∃ d w₂, x env w = .error (.fault (.runtime d none)) w₂ ∧ d.code = "E3010" ∧
    w₂.heap.scopes = w₁.heap.scopes

theorem Refuses.bind {α β : Type} {x : Eval α} {w₂ : World} (h : Refuses x env w w₂)
    (f : α → Eval β) : Refuses (x >>= f) env w w₂ := by
  obtain ⟨d, w', herror, hcode, hscopes⟩ := h
  exact ⟨d, w', Eval.bind_error herror f, hcode, hscopes⟩

/-- What comes before a refusal. -/
theorem Refuses.after {α β : Type} {x : Eval α} {a : α} {w₂ : World} {f : α → Eval β}
    (hx : x env w = .ok a w₁) (h : Refuses (f a) env w₁ w₂) : Refuses (x >>= f) env w w₂ := by
  obtain ⟨d, w', herror, hcode, hscopes⟩ := h
  exact ⟨d, w', (Eval.bind_ok hx f).trans herror, hcode, hscopes⟩

theorem Refuses.congr {α : Type} {x : Eval α} {w₂ w₃ : World} (h : Refuses x env w w₂)
    (hs : w₂.heap.scopes = w₃.heap.scopes) : Refuses x env w w₃ := by
  obtain ⟨d, w', herror, hcode, hscopes⟩ := h
  exact ⟨d, w', herror, hcode, hscopes.trans hs⟩

theorem refuses_failAt {α : Type} (span : Span) (name : String) (env : Env) (w : World) :
    Refuses (Eval.failAt span (.constant name) : Eval α) env w w := by
  refine ⟨_, w, rfl, ?_, rfl⟩
  simp only [Diagnostic.inText]
  split <;> rfl

/-- Where a name is constant, binding it is refused. -/
theorem refuses_assign {s : ScopeRef} {name : String} (hc : w.heap.isConstant s name = true)
    (span : Span) (v : Value) :
    Refuses (Eval.placed span (Eval.assign s name v)) env w w := by
  obtain ⟨d, w', herror, hcode, hscopes⟩ := refuses_failAt (α := Unit) span name env w
  refine ⟨d, w', (Eval.tryCatch_error (Eval.assign_constant hc v env) _).trans ?_, hcode, hscopes⟩
  exact herror

theorem refuses_bindSelf {name : String} (hc : w.heap.isConstant (env.scopeIn w) name = true)
    (span : Span) (v : Value) : Refuses (Eval.bindSelf span name v) env w w :=
  .after (scope_eq env w) (refuses_assign hc span v)

/-- A copy that was made makes no difference. -/
theorem refuses_copy {x : Value → Eval Unit} {v : Value} {s : ScopeRef} {name : String}
    (hc : w.heap.isConstant s name = true)
    (hx : ∀ u w₁, env.scopeIn w₁ = env.scopeIn w → w₁.heap.isConstant s name = true →
      Refuses (x u) env w₁ w₁) : Refuses (Eval.copy v >>= x) env w w := by
  have hscopes := Heap.scopes_copy v w.heap
  refine .after (Eval.copy_eq v env w)
    ((hx _ { w with heap := (Heap.copy v w.heap).2 } rfl ?_).congr hscopes)
  rw [Stores.isConstant_congr hscopes]
  exact hc

theorem refuses_bindCopy {name : String} (hc : w.heap.isConstant (env.scopeIn w) name = true)
    (span : Span) (v : Value) : Refuses (Eval.bindCopy span name v) env w w :=
  refuses_copy hc fun u _ hs hc' => refuses_bindSelf (hs.symm ▸ hc') span u

theorem refuses_declare {name : String} (hc : w.heap.isConstant (env.scopeIn w) name = true)
    (span : Span) (v : Value) : Refuses (declare span name v) env w w := by
  have hlook : (Eval.inHeap (·.isConstant (env.scopeIn w) name)) env w = .ok true w :=
    congrArg (EStateM.Result.ok · w) hc
  exact .after (scope_eq env w) (.after hlook ((refuses_failAt span name env w).bind _))

theorem refuses_eachLoop {span : Span} {name : String} {body : Block} {v : Value} {us vs : List Value}
    (h : Rounds r env span name body us w (v :: vs) w')
    (hc : w'.heap.isConstant (env.scopeIn w') name = true) :
    Refuses (eachLoop r span name body us) env w w' := by
  have hround : Refuses (eachLoop r span name body (v :: vs)) env w' w' :=
    (refuses_bindCopy hc span v).bind _
  obtain ⟨d, w₂, herror, hcode, hscopes⟩ := hround
  exact ⟨d, w₂, h.eachLoop_eq.trans herror, hcode, hscopes⟩

/-- A statement that comes to write a constant fails, and no scope is changed. -/
theorem Writes.refused {st : Stmt} {s : ScopeRef} {name : String}
    (h : Writes r env st w w₁ s name) (hc : w₁.heap.isConstant s name = true) (n : Nat) :
    Refuses (stmt r (Run.load r) n st) env w w₁ := by
  cases h with
  | @assign a v _ _ hchain hv =>
      refine Refuses.bind (.after hv ?_) _
      rw [hchain]
      cases a.constant with
      | true => exact refuses_declare hc a.span v
      | false => exact refuses_bindCopy hc a.span v
  | @property a v base owner _ chain span _ m _ w₂ _ hchain hv hfind hwalk =>
      have hwalk' : walk r base a.target.chain.dropLast env w₂ = .ok (.module m s) w₁ := by
        rw [hchain, List.dropLast_concat]
        exact hwalk
      refine Refuses.bind (.after hv ?_) _
      rw [if_pos (by simp [hchain])]
      have hlook : (Eval.inHeap (·.find? (env.scopeIn w₂) a.target.name)) env w₂ =
          .ok (some (owner, base)) w₂ := congrArg (EStateM.Result.ok · w₂) hfind
      refine .after (scope_eq env w₂) (.after hlook (.after hwalk' ?_))
      simp only [hchain, List.getLast?_concat]
      exact Refuses.bind (refuses_copy hc fun u _ _ hc' => refuses_assign hc' span u) _
  | subroutine => exact .after rfl (.bind (refuses_bindSelf hc _ _) _)
  | @record span _ fields _ =>
      have htype : Eval.onHeap (Heap.newRecordType ⟨name, fields⟩) env w =
          .ok (.recordType ⟨w.heap.recordTypes.size⟩)
            { w with heap := (w.heap.newRecordType ⟨name, fields⟩).2 } := rfl
      refine .after htype (.bind ?_ _)
      exact (refuses_bindSelf (w := { w with heap := (w.heap.newRecordType ⟨name, fields⟩).2 }) hc
        span _).congr rfl
  | classDef hclass hstatics hmethods =>
      refine Refuses.bind (.after hclass (.after hstatics (.after hmethods ?_))) _
      exact refuses_bindSelf hc _ _
  | forRange hfirst hlast hstep hrounds =>
      refine .after hfirst (.after hlast (.after hstep ?_))
      rw [rangeLoop_ofInt (inRange_bound hfirst) (inRange_bound hlast) (inRange_stepBound hstep)]
      exact refuses_eachLoop hrounds hc
  | @forEach span _ iterable body u v us vs _ w₂ _ hiter hitems hrounds =>
      have hlook : (Eval.inHeap (items? · u)) env w₂ = .ok (some us) w₂ :=
        congrArg (EStateM.Result.ok · w₂) hitems
      exact .after hiter (.after hlook (refuses_eachLoop hrounds hc))
  | @load span location nickname target v _ _ _ hlocation himport =>
      have hm : imported r span location nickname env w = .ok (aliasOf target nickname, v) w₁ := by
        rw [imported, Eval.bind_ok hlocation]
        exact Eval.bind_ok himport _
      rw [stmt, load_eq]
      exact (Refuses.after hm (refuses_bindSelf hc _ _)).bind _

/-! ## Before a name is written -/

theorem kept_expr {n : Nat} {e : Expr} {v : Value} (h : (run n).expr e env w = .ok v w') :
    w.heap.KeepsConstants w'.heap :=
  ((carries_unchecked n env w).expr e).kept h

theorem Rounds.kept {n : Nat} {span : Span} {name : String} {body : Block} {vs us : List Value}
    (h : Rounds (run n) env span name body vs w us w') : w.heap.KeepsConstants w'.heap := by
  induction h with
  | refl => exact .refl _
  | @round v _ _ _ w w₁ w₂ _ hbind hblock _ _ ih =>
      have hfirst := (safe_bindCopy (v := v) (c := Context.unchecked env w)
        Context.stands_unchecked span name fun h => h.elim).kept hbind
      have hsecond := ((carries_unchecked n env w₁).block Context.stands_unchecked body).kept
        hblock
      exact (hfirst.trans hsecond).trans ih

/-- Until a statement comes to write a name, constants are kept. -/
theorem Writes.kept {n : Nat} {st : Stmt} {s : ScopeRef} {name : String}
    (h : Writes (run n) env st w w₁ s name) : w.heap.KeepsConstants w₁.heap := by
  cases h with
  | assign _ hv => exact kept_expr hv
  | @property _ _ base _ _ chain _ _ _ _ w₂ _ _ hv _ hwalk =>
      have hsafe := safe_walk (carries_unchecked n env w₂) chain (v := base) (w := w₂) fun h => h.elim
      exact (kept_expr hv).trans (hsafe.kept hwalk)
  | subroutine => exact .refl _
  | record => exact .refl _
  | @classDef _ _ fields routines o _ w₂ w₃ _ hclass hstatics hmethods =>
      have hfirst := (Safe.newClass (c := Context.unchecked env w) (E := AnyFault)).kept hclass
      have hsecond := (safe_statics (carries_unchecked n env w₂) o fields w₂).kept hstatics
      have hthird := (safe_methods (c := Context.unchecked env w₃) o routines w₃).kept hmethods
      exact (hfirst.trans hsecond).trans hthird
  | @forRange _ _ first last step _ _ _ _ _ _ _ w₂ w₃ w₄ _ hfirst hlast hstep hrounds =>
      have hone := (safe_bound (carries_unchecked n env w) first "start").kept hfirst
      have htwo := (safe_bound (carries_unchecked n env w₂) last "end").kept hlast
      have hthree := (safe_stepBound (carries_unchecked n env w₃) step).kept hstep
      exact ((hone.trans htwo).trans hthree).trans hrounds.kept
  | forEach hiter _ hrounds => exact (kept_expr hiter).trans hrounds.kept
  | @load span _ nickname location _ _ w₂ _ hlocation himport =>
      have hsafe := safe_importModule (carries_unchecked n env w₂) (w := w₂) (fun h => h.elim)
        location (aliasOf location nickname) span
      exact (kept_expr hlocation).trans (hsafe.kept himport)

/-- When the declaration of a constant has been executed, the name is a constant of the
scope it was executed in, bound to a copy of the value. -/
theorem constant_of_stmt {n k : Nat} {a : Assignment} {flow : Flow} (hvalid : env.Valid w)
    (hchain : a.target.chain = []) (hconstant : a.constant = true)
    (hok : stmt (run n) (Run.load (run n)) k (.assign a) env w = .ok flow w') :
    ∃ v w₁, (run n).expr a.value env w = .ok v w₁ ∧
      w'.heap.isConstant (env.scopeIn w) a.target.name = true ∧
      w'.heap.binding? (env.scopeIn w) a.target.name = some (Heap.copy v w₁.heap).1 := by
  cases hv : (run n).expr a.value env w with
  | error e w₁ =>
      have herror : stmt (run n) (Run.load (run n)) k (.assign a) env w = .error e w₁ :=
        Eval.bind_error (Eval.bind_error hv _) _
      rw [herror] at hok
      cases hok
  | ok v w₁ =>
      refine ⟨v, w₁, rfl, ?_⟩
      have hassign : assign (run n) a env w = declare a.span a.target.name v env w₁ := by
        rw [assign, Eval.bind_ok hv, hchain, hconstant]
        rfl
      have hev := ((carries_unchecked n env w).expr a.value).evolves Context.ready_unchecked
      rw [show ((run n).expr a.value).worldAfter (Context.unchecked env w).env w = w₁ from
        Eval.worldAfter_ok hv] at hev
      have hscope : env.scopeIn w₁ = env.scopeIn w :=
        congrArg Frame.scope (hev.restored _ hvalid.self)
      have hs : (env.scopeIn w).index < w.heap.scopes.size := (hvalid.placed _ hvalid.self).2
      rw [← hscope] at hs ⊢
      cases hdeclare : declare a.span a.target.name v env w₁ with
      | error e w₂ =>
          have herror : stmt (run n) (Run.load (run n)) k (.assign a) env w = .error e w₂ :=
            Eval.bind_error (hassign.trans hdeclare) _
          rw [herror] at hok
          cases hok
      | ok u w₂ =>
          have hsame : stmt (run n) (Run.load (run n)) k (.assign a) env w = .ok .normal w₂ :=
            Eval.bind_ok (hassign.trans hdeclare) _
          rw [hsame] at hok
          cases hok
          exact constant_of_declare (Nat.lt_of_lt_of_le hs hev.keeps.constants.size) hdeclare

end Run

/-! ## Constants are never bound anew -/

/-- When the declaration of a constant has been executed, the name is a constant of the
current scope, bound to a copy of the value.  Then it stays so: while anything is carried
out, from wherever the machine could be halted to wherever it could be halted later, and in
sessions from one request to all later ones and while these are answered.  A statement
that comes to write a name which is a constant where it is to be written fails, with all
scopes as they were. -/
theorem constants_never_rebound :
    (∀ (n k : Nat) (env : Env) (w w' : World) (a : Assignment) (flow : Flow), env.Valid w →
      a.target.chain = [] → a.constant = true →
      Run.stmt (Run.run n) (Run.load (Run.run n)) k (.assign a) env w = .ok flow w' →
        ∃ v w₁, (Run.run n).expr a.value env w = .ok v w₁ ∧
          w'.heap.isConstant (env.scopeIn w) a.target.name = true ∧
          w'.heap.binding? (env.scopeIn w) a.target.name = some (Heap.copy v w₁.heap).1) ∧
    (∀ (n : Nat) (stack : List InterpreterId), Run.halted (fun _ => False) n stack = Run.run n ∧
      ∀ (Q Q' : World → Prop), (∀ w, Q' w → Q w) →
        ∀ (α : Type) (task : Task α) (env : Env) (w : World),
          ((Run.halted Q n stack α task).worldAfter env w).heap.KeepsConstants
            ((Run.halted Q' n stack α task).worldAfter env w).heap) ∧
    (∀ s s' : Session, s.Reachable → s.Later s' →
      s.world.heap.KeepsConstants s'.world.heap ∧
      ∀ (Q Q' : World → Prop), (∀ w, Q' w → Q w) → ∀ q,
        s.world.heap.KeepsConstants (s'.answer (Run.halted Q' Session.bound []) q).2.world.heap ∧
        (s'.answer (Run.halted Q Session.bound []) q).2.world.heap.KeepsConstants
          (s'.answer (Run.halted Q' Session.bound []) q).2.world.heap) ∧
    (∀ s : Session, s.Reachable → Env.Valid ⟨s.setup, Session.main⟩ s.world ∧
      ∀ (q : Session.Request), q.Good s → ∀ alarm,
        s.answer (Run.watched (fun _ => Eval.demandValid alarm) Session.bound []) q =
          s.answer Session.machine q) ∧
    ∀ (n k : Nat) (env : Env) (st : Stmt) (w w₁ : World) (s : ScopeRef) (name : String),
      Run.Writes (Run.run n) env st w w₁ s name →
        w.heap.KeepsConstants w₁.heap ∧ (w₁.heap.isConstant s name = true →
          Run.Refuses (Run.stmt (Run.run n) (Run.load (Run.run n)) k st) env w w₁) := by
  refine ⟨?_, ?_, ?_, fun s hs => hs.valid, ?_⟩
  · intro n k env w w' a flow hvalid hchain hconstant hok
    exact Run.constant_of_stmt hvalid hchain hconstant hok
  · intro n stack
    exact ⟨halted_never n stack, fun Q Q' hsub α task env w => kept_halted hsub n stack task env w⟩
  · intro s s' hs hlater
    have hkept := hlater.kept hs
    refine ⟨hkept, fun Q Q' hsub q => ?_⟩
    obtain ⟨hstart, hlate⟩ := (hlater.reachable hs).kept_answer q hsub
    exact ⟨hkept.trans hstart, hlate⟩
  · intro n k env st w w₁ s name hwrites
    exact ⟨hwrites.kept, fun hc => hwrites.refused hc k⟩

/-- A constant is declared, and a subroutine of the same name is refused; and a session
that declares one. -/
theorem constants_never_rebound_declared :
    (∃ w', Run.stmt (Run.run 1) (Run.load (Run.run 1)) 0
        (.assign ⟨.nowhere, ⟨.nowhere, "n", []⟩, .int .nowhere 1, true⟩)
          ⟨(default : Session.Options).setup, Session.main⟩ (Session.rootedWorld default) =
            .ok .normal w' ∧
      w'.heap.binding? ⟨0⟩ "n" = some (.int 1) ∧
      Run.Refuses (Run.stmt (Run.run 1) (Run.load (Run.run 1)) 0
        (.subroutine ⟨.nowhere, "n", [], .mk .nowhere []⟩))
          ⟨(default : Session.Options).setup, Session.main⟩ w' w') ∧
    (Session.start default).world.heap.KeepsConstants
      ((Session.start default).answer Session.machine (.run "CONSTANT n <- 1")).2.world.heap := by
  constructor
  · have hvalid := (Session.ready_rooted default).valid trivial
    have hdeclared : ∃ w', Run.stmt (Run.run 1) (Run.load (Run.run 1)) 0
        (.assign ⟨.nowhere, ⟨.nowhere, "n", []⟩, .int .nowhere 1, true⟩)
          ⟨(default : Session.Options).setup, Session.main⟩ (Session.rootedWorld default) =
            .ok .normal w' := ⟨_, rfl⟩
    obtain ⟨w', hok⟩ := hdeclared
    obtain ⟨v, w₁, hv, hconstant, hbinding⟩ :=
      constants_never_rebound.1 1 0 _ _ _ _ _ hvalid rfl rfl hok
    have hscope : Env.scopeIn ⟨(default : Session.Options).setup, Session.main⟩ w' = ⟨0⟩ := by
      cases hok
      rfl
    cases hv
    refine ⟨w', hok, hbinding, ?_⟩
    change w'.heap.isConstant ⟨0⟩ "n" = true at hconstant
    rw [← hscope] at hconstant
    exact (constants_never_rebound.2.2.2.2 1 0 _ _ _ _ _ _ .subroutine).2 hconstant
  · have hstart : (Session.start default).Reachable := .start default
    exact (constants_never_rebound.2.2.1 _ _ hstart
      (.answer (.run "CONSTANT n <- 1") .refl fun _ hv => nomatch hv)).1

end Pseudocode
