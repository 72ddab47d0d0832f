import Pseudocode.Proofs.Execution.Storing
import Pseudocode.Run.Session
/-
# `Proofs.Execution.Start` — how a session starts

A new session is an interpreter with a root scope in which the builtin functions are
installed.  Installing binds names and builds values, and that is all it does: the
interpreter stays as it was made, and no name is declared constant (`start_fresh`).
-/
namespace Pseudocode

namespace Session

/-- What remains to be done for a new session when its interpreter is there. -/
def complete (observer : Option String) : Eval Unit := do
  discard (do
    Run.install main ⟨0⟩
    return main)
  Eval.changeHeap (Heap.modifyScope (← Eval.self).root fun sc => { sc with observer })

/-- What is performed first matters only in where it leads. -/
theorem bind_eq_of_eq {α β : Type} {x y : Eval α} {env : Env} {w w' : World}
    (h : x env w = y env w') (f : α → Eval β) : (x >>= f) env w = (y >>= f) env w' := by
  cases hy : y env w' with
  | ok a w'' => rw [Eval.bind_ok (h.trans hy), Eval.bind_ok hy]
  | error e w'' => rw [Eval.bind_error (h.trans hy), Eval.bind_error hy]

/-- The world of a new session with nothing but its interpreter. -/
def bareWorld (o : Options) : World :=
  { emptyWorld o.input o.seed with
    interpreters := #[
      { root := ⟨0⟩, frame := ⟨⟨0⟩, default, 0⟩, dir := o.dir, name := o.name, importing := [],
        pending := o.preload }] }

/-- The world of a new session when its interpreter has a root scope. -/
def rootedWorld (o : Options) : World :=
  { bareWorld o with heap := (Heap.rootScope "global" .empty).2 }

/-- Making an interpreter comes down to installing the builtin functions. -/
theorem newInterpreter_eq (rootName dir name : String) (importing pending : List String) (env : Env)
    (w : World) :
    Run.newInterpreter rootName dir name importing pending env w =
      (Run.install ⟨w.interpreters.size⟩ ⟨w.heap.scopes.size⟩ >>= fun _ =>
        pure ⟨w.interpreters.size⟩) env
        { w with
          heap := (Heap.rootScope rootName w.heap).2
          interpreters := w.interpreters.push
            { root := ⟨w.heap.scopes.size⟩, frame := ⟨⟨w.heap.scopes.size⟩, default, 0⟩, dir, name,
              importing, pending } } := by
  have hscope : Eval.onHeap (Heap.rootScope rootName) env w =
      .ok ⟨w.heap.scopes.size⟩ { w with heap := (Heap.rootScope rootName w.heap).2 } := rfl
  let i : Interpreter :=
    { root := ⟨w.heap.scopes.size⟩, frame := ⟨⟨w.heap.scopes.size⟩, default, 0⟩, dir, name,
      importing, pending }
  have hpush : (modifyGet fun w => (⟨w.interpreters.size⟩,
      { w with interpreters := w.interpreters.push i }) : Eval InterpreterId) env
        { w with heap := (Heap.rootScope rootName w.heap).2 } =
      .ok ⟨w.interpreters.size⟩
        { w with
          heap := (Heap.rootScope rootName w.heap).2
          interpreters := w.interpreters.push i } := rfl
  simp only [Run.newInterpreter]
  rw [Eval.bind_ok hscope]
  exact Eval.bind_ok hpush _

/-- A new session is what is left when the rest was done. -/
theorem world_start (o : Options) : (start o).world =
    (Session.perform ⟨o.setup, rootedWorld o, []⟩ (complete o.observer)).2.world := by
  have hnew := newInterpreter_eq "global" o.dir o.name [] o.preload ⟨o.setup, main⟩
    (emptyWorld o.input o.seed)
  have hact : (do
      discard (Run.newInterpreter "global" o.dir o.name [] o.preload)
      Eval.changeHeap (Heap.modifyScope (← Eval.self).root fun sc =>
        { sc with observer := o.observer }) : Eval Unit) ⟨o.setup, main⟩
        (emptyWorld o.input o.seed) =
      complete o.observer ⟨o.setup, main⟩ (rootedWorld o) := by
    simp only [complete, Eval.discard_eq]
    exact bind_eq_of_eq (bind_eq_of_eq hnew _) _
  simp only [start, Session.perform, hact]

end Session

/-! ## What installing preserves -/

namespace Session

/-- The interpreter of a new session, and nothing declared constant in its scope. -/
structure Fresh (o : Options) (w : World) : Prop where
  interpreters : w.interpreters = (bareWorld o).interpreters
  scopes : w.heap.scopes.size = 1
  constants : (w.heap.scope ⟨0⟩).constants = []

namespace Fresh

variable {o : Options}

theorem unaffected (o : Options) : World.Unaffected (Fresh o) where
  congr hw hi hscopes := by
    refine ⟨hi.trans hw.interpreters, ?_, ?_⟩
    · rw [hscopes]
      exact hw.scopes
    · rw [Heap.scope_congr hscopes]
      exact hw.constants
  bind hw hi hheap := by
    refine ⟨hi.trans hw.interpreters, ?_, ?_⟩
    · rw [hheap, Heap.size_bind]
      exact hw.scopes
    · rw [hheap, Heap.constants_bind]
      exact hw.constants

theorem observe (observer : Option String) : Eval.Preserves (Fresh o) (do
    Eval.changeHeap (Heap.modifyScope (← Eval.self).root fun sc => { sc with observer })) := by
  refine .bind (.step fun env w hw => ⟨_, w, rfl, hw⟩) fun i => .step fun env w hw => ?_
  refine ⟨_, _, rfl, hw.interpreters, Array.size_modify.trans hw.scopes, ?_⟩
  have none := hw.constants
  simp only [Heap.scope, Heap.modifyScope, Array.getD_eq_getD_getElem?,
    Array.getElem?_modify] at none ⊢
  split
  · have one : 0 < w.heap.scopes.size := by rw [hw.scopes]; exact Nat.one_pos
    simpa [Array.getElem?_eq_getElem one] using none
  · exact none

end Fresh

theorem start_fresh (o : Options) : Fresh o (start o).world := by
  have rooted : Fresh o (rootedWorld o) := ⟨rfl, rfl, rfl⟩
  have done : Eval.Preserves (Fresh o) (complete o.observer) := by
    rw [complete, Eval.discard_eq]
    exact ((((Fresh.unaffected o).install main ⟨0⟩).bind fun _ => .pure main).bind fun _ => .pure ()).bind fun _ =>
      Fresh.observe o.observer
  have after := done ⟨o.setup, main⟩ (rootedWorld o) rooted
  rw [world_start]
  simp only [Session.perform]
  rw [Eval.worldAfter] at after
  split
  · next ok =>
    rw [ok] at after
    exact after
  · next error =>
    rw [error] at after
    exact after

end Session

end Pseudocode
