import Pseudocode.Proofs.Execution.Session
/-
# `Proofs.Execution.Frames` — where interpreters stand is restored

Whatever is carried out, and however it ends, every interpreter stands afterwards
where it stood before: in the same scope, in the same text, at the same depth of
calls (`restored_run`).  This holds in all worlds, also in those that no session
gets into.  In sessions the depth is moreover the number of calls in progress, and
within the limit.  A call beyond the limit fails before anything is done, and the
second block of `TRY` runs where the statement started.
-/
namespace Pseudocode

/-- Where an interpreter stands. -/
def World.frameOf (w : World) (i : Nat) : Frame := (w.interpreters.getD i default).frame

/-- The interpreters of the first world stand in the second where they stood. -/
def World.Restored (w w' : World) : Prop := ∀ i < w.interpreters.size, w'.frameOf i = w.frameOf i

/-- The context in which nothing is known of the heap and no interpreter that exists
may be changed. -/
def Context.unchecked (env : Env) (w : World) : Context :=
  ⟨False, w.interpreters.size, [], env, w.heap, fun _ _ => True, False⟩

section Restored

variable {env : Env} {w : World}

theorem Context.ready_unchecked : (Context.unchecked env w).Ready w :=
  ⟨Nat.le_refl _, False.elim, False.elim, False.elim, .refl _, False.elim⟩

theorem Context.open_unchecked : (Context.unchecked env w).Open := fun _ _ => .inr trivial

theorem Context.stands_unchecked {w' : World} : (Context.unchecked env w).Stands w' :=
  Context.not_spares _ id _

theorem Task.good_unchecked {α : Type} (task : Task α) {w' : World} :
    task.Good (Context.unchecked env w) w' := by
  cases task with
  | expr e => trivial
  | block b => exact Context.stands_unchecked
  | call callee args span => exact ⟨False.elim, fun _ _ => False.elim⟩
  | str v => exact False.elim
  | repr v => exact False.elim

theorem World.Evolves.restored {w' : World} (h : w.Evolves (Context.unchecked env w) w') :
    w.Restored w' := by
  intro i hi
  have hrow := h.rows i hi
  simp only [World.frameOf, Array.getD_eq_getD_getElem?, hrow]

/-- What is safe restores where interpreters stand. -/
theorem Safe.restored {α : Type} {x : Eval α} {V : World → α → Prop} {E : Fault → Prop}
    (hx : Safe (Context.unchecked env w) w x x V E) : w.Restored (x.worldAfter env w) :=
  (hx.evolves Context.ready_unchecked).restored

theorem restored_run (n : Nat) {α : Type} (task : Task α) (env : Env) (w : World) :
    w.Restored ((Run.run n α task).worldAfter env w) :=
  (carries_run Context.open_unchecked n env.self α task w task.good_unchecked).restored

theorem restored_stmt (n k : Nat) (s : Stmt) (env : Env) (w : World) :
    w.Restored ((Run.stmt (Run.run n) (Run.load (Run.run n)) k s).worldAfter env w) := by
  have hr := carries_run (c := Context.unchecked env w) Context.open_unchecked n
  exact (safe_stmt hr (loads_load hr) k (fun _ => Context.open_unchecked)
    Context.stands_unchecked).restored

/-- A call beyond the limit fails before anything is done. -/
theorem call_at_limit (r : Recursor) (native : Builtin → List Value → Eval Value) {f : Subroutine}
    {args : List Value} (ha : args.length = f.params.length) (span : Span)
    (hd : env.setup.maxDepth ≤ (w.frameOf env.self.index).depth) :
    ∃ d, Run.call r native (.subroutine f) args span env w = .error (.fault (.runtime d none)) w ∧
      d.code = "E3011" := by
  have hargs : (args.length != f.params.length) = false := by simp [ha]
  have hframe : Eval.frame env w = .ok (w.frameOf env.self.index) w := rfl
  have hread : (read : Eval Env) env w = .ok env w := rfl
  simp only [Run.call, Run.callSubroutine, hargs, Bool.false_eq_true, if_false]
  rw [Eval.bind_ok hframe, Eval.bind_ok hread, if_pos hd]
  refine ⟨_, Eval.bind_error rfl _, ?_⟩
  simp only [Diagnostic.inText]
  split <;> rfl

/-- When the body of TRY fails, the statement is its second block, run once in the
world that the failure left. -/
theorem attempt_of_error (n k : Nat) {span : Span} {body rescue : Block} {f : Fault} {w' : World}
    (hbody : (Run.run n).block body env w = .error (.fault f) w') :
    Run.stmt (Run.run n) (Run.load (Run.run n)) k (.attempt span body rescue) env w =
      (Run.run n).block rescue env w' := by
  have hsafe : Safe (Context.unchecked env w) w ((Run.run n).block body) ((Run.run n).block body)
      (Context.unchecked env w).GoodFlow Catchable :=
    (carries_run Context.open_unchecked n).block Context.stands_unchecked body
  obtain ⟨-, hleads⟩ := hsafe Context.ready_unchecked
  change Leads _ _ _ _ ((Run.run n).block body env w) at hleads
  rw [hbody] at hleads
  have hcatch : f.catchable = true := hleads.2
  refine (Eval.tryCatch_error hbody _).trans ?_
  simp only [hcatch, if_true]

end Restored

/-- The depth of each interpreter is the number of its calls in progress, and within
the limit. -/
def World.Counted (stack : List InterpreterId) (setup : Setup) (w : World) : Prop :=
  ∀ i, (w.frameOf i).depth = stack.count ⟨i⟩ ∧ (w.frameOf i).depth ≤ setup.maxDepth

/-- Is the value a subroutine as wanted? -/
def Value.isSubroutine (v : Value) (p : Subroutine → Bool) : Bool :=
  match v with
  | .subroutine f => p f
  | _ => false

theorem Value.exists_of_isSubroutine {v : Value} {p : Subroutine → Bool}
    (h : v.isSubroutine p = true) : ∃ f, v = .subroutine f ∧ p f = true := by
  cases v with
  | subroutine f => exact ⟨f, rfl, h⟩
  | _ => cases h

/-- Where interpreters stand is restored by every task and every statement, however
it ends; in a session the depth counts the calls in progress; a call at the limit
fails with the world as it was; and when the body of TRY fails, the statement does
what its second block does from there, in the frame in which the statement started. -/
theorem context_restored :
    (∀ (n k : Nat) (env : Env) (w : World),
      (∀ (α : Type) (task : Task α), w.Restored ((Run.run n α task).worldAfter env w)) ∧
        ∀ s, w.Restored ((Run.stmt (Run.run n) (Run.load (Run.run n)) k s).worldAfter env w)) ∧
    (∀ s : Session, s.Reachable → s.world.Counted [] s.setup ∧
      ∀ (q : Session.Request), q.Good s → ∀ alarm,
        s.answer (Session.guarded (fun stack setup w => w.Counted stack setup) alarm) q =
          s.answer Session.machine q) ∧
    (∀ (r : Recursor) (native : Builtin → List Value → Eval Value) (f : Subroutine)
      (args : List Value) (span : Span) (env : Env) (w : World),
        args.length = f.params.length → env.setup.maxDepth ≤ (w.frameOf env.self.index).depth →
          ∃ d, Run.call r native (.subroutine f) args span env w =
            .error (.fault (.runtime d none)) w ∧ d.code = "E3011") ∧
    ∀ (n k : Nat) (env : Env) (w w' : World) (span : Span) (body rescue : Block) (f : Fault),
      (Run.run n).block body env w = .error (.fault f) w' →
        Run.stmt (Run.run n) (Run.load (Run.run n)) k (.attempt span body rescue) env w =
          (Run.run n).block rescue env w' ∧ w.Restored w' := by
  refine ⟨fun n k env w => ⟨fun α task => restored_run n task env w,
    fun s => restored_stmt n k s env w⟩, fun s hs => ⟨hs.ready.counted trivial, ?_⟩, ?_, ?_⟩
  · exact fun q hq alarm => hs.answer_guarded (fun _ _ _ hw => hw.counted trivial) alarm hq
  · exact fun r native f args span env w ha hd => call_at_limit r native ha span hd
  · intro n k env w w' span body rescue f hbody
    refine ⟨attempt_of_error n k hbody, ?_⟩
    have hrestored := restored_run n (.block body) env w
    have hworld : (Run.run n Flow (.block body)).worldAfter env w = w' := by
      change Eval.worldAfter ((Run.run n).block body) env w = w'
      rw [Eval.worldAfter, hbody]
    rwa [hworld] at hrestored

/-- Where one call is allowed, a subroutine that calls itself is called by the body of TRY. -/
theorem context_restored_nested :
    let o : Session.Options := { (default : Session.Options) with
      setup := { (default : Setup) with maxDepth := 1 } }
    let text := "SUBROUTINE f()\n  OUTPUT \"in\"\n  f()\nENDSUBROUTINE"
    let s := ((Session.start o).answer Session.machine (.run text)).2
    let env : Env := ⟨s.setup, Session.main⟩
    let w := s.world
    let body : Block := .mk .nowhere [.expr (.call .nowhere (.var .nowhere "f" []) [])]
    let rescue : Block := .mk .nowhere [.expr (.magic .nowhere .output [.string .nowhere "rescued"])]
    let deeper := w.setFrame Session.main { w.frameOf 0 with depth := 1 }
    (∃ f : Subroutine, s.get "f" = .subroutine f ∧ f.body.body.length = 2 ∧
      ∃ d, Run.call Session.machine (Run.native Session.machine) (.subroutine f) [] .nowhere env deeper =
        .error (.fault (.runtime d none)) deeper ∧ d.code = "E3011") ∧
    ∃ d w', (Run.run 20).block body env w = .error (.fault (.runtime d none)) w' ∧
      d.code = "E3011" ∧ w'.output = "in\n" ∧ w.Restored w' ∧
      Run.stmt (Run.run 20) (Run.load (Run.run 20)) 20 (.attempt .nowhere body rescue) env w =
        (Run.run 20).block rescue env w' ∧
      (((Run.run 20).block rescue).worldAfter env w').output = "in\nrescued\n" := by
  intro o text s env w body rescue deeper
  constructor
  · have hknown : (s.get "f").isSubroutine (fun f =>
        f.params.isEmpty && decide (f.body.body.length = 2)) = true := by decide +kernel
    obtain ⟨f, hf, hparts⟩ := Value.exists_of_isSubroutine hknown
    rw [Bool.and_eq_true, List.isEmpty_iff, decide_eq_true_eq] at hparts
    obtain ⟨hparams, hbody⟩ := hparts
    have hlimit : env.setup.maxDepth ≤ (deeper.frameOf env.self.index).depth := by decide +kernel
    exact ⟨f, hf, hbody, context_restored.2.2.1 _ _ _ _ _ _ _ (by rw [hparams]; rfl) hlimit⟩
  · have hfails : ((Run.run 20).block body).fails env w (fun d w' =>
        decide (d.code = "E3011") && decide (w'.output = "in\n") &&
          decide ((((Run.run 20).block rescue).worldAfter env w').output = "in\nrescued\n")) = true := by
      decide +kernel
    obtain ⟨d, w', hbody, hall⟩ := Eval.exists_of_fails hfails
    simp only [Bool.and_eq_true, decide_eq_true_eq] at hall
    obtain ⟨⟨hcode, houtput⟩, hrescued⟩ := hall
    obtain ⟨hstmt, hrestored⟩ := context_restored.2.2.2 20 20 env w w' .nowhere body rescue _ hbody
    exact ⟨d, w', hbody, hcode, houtput, hrestored, hstmt, hrescued⟩

end Pseudocode
