import Pseudocode.Program.Stmt
import Pseudocode.Proofs.Composition.Moved
import Pseudocode.Proofs.Execution.Safe
import Pseudocode.Proofs.Places.Operation
/-
# `Proofs.Places.Renaming` — worlds with other source units

`RETURN a, b` returns an array, and so does `RETURN [a, b]`.  `listed chosen` is the
program in which the first form is replaced by the second, wherever its span is chosen.

Two runs may execute the same code out of different texts: what is a text of its own in
one of them is the lower part of a longer text in the other.  A `Renaming` says where
each source unit of the first run is found in the second: under which number, in which
text, how far down, and which of its returns are listed there; and whether there are
observers in the second run.  It takes subroutines, frames and whole worlds along, and
changes nothing else in them.
-/
namespace Pseudocode

/-! ## Returns that are listed -/

/-- The expression of a statement, with the values that it returns in an array if there
are several and its span is chosen. -/
def Expr.listed (chosen : Span → Bool) : Expr → Expr
  | .magic s .returns args =>
    if chosen s = true ∧ 2 ≤ args.length then .magic s .returns [.array s args]
    else .magic s .returns args
  | e => e

mutual

/-- The statement with its chosen returns listed. -/
def Stmt.listed (chosen : Span → Bool) : Stmt → Stmt
  | .expr e => .expr (e.listed chosen)
  | .assign a => .assign a
  | .subroutine d => .subroutine (d.listed chosen)
  | .branch b => .branch (b.listed chosen)
  | .whileLoop s condition body => .whileLoop s condition (body.listed chosen)
  | .repeatLoop s body condition => .repeatLoop s (body.listed chosen) condition
  | .forRange s counter first last step body =>
    .forRange s counter first last step (body.listed chosen)
  | .forEach s counter iterable body => .forEach s counter iterable (body.listed chosen)
  | .record s name fields => .record s name fields
  | .classDef s name statics methods => .classDef s name statics (routinesListed chosen methods)
  | .attempt s body rescue => .attempt s (body.listed chosen) (rescue.listed chosen)
  | .load s location nickname => .load s location nickname

/-- The block with its chosen returns listed. -/
def Block.listed (chosen : Span → Bool) : Block → Block
  | .mk s body => .mk s (stmtsListed chosen body)

def stmtsListed (chosen : Span → Bool) : List Stmt → List Stmt
  | [] => []
  | s :: rest => s.listed chosen :: stmtsListed chosen rest

def Branch.listed (chosen : Span → Bool) : Branch → Branch
  | .mk s condition consequence alternative =>
    .mk s condition (consequence.listed chosen) (alternative.listed chosen)

def Otherwise.listed (chosen : Span → Bool) : Otherwise → Otherwise
  | .absent => .absent
  | .elseIf next => .elseIf (next.listed chosen)
  | .elseBlock body => .elseBlock (body.listed chosen)

def Routine.listed (chosen : Span → Bool) : Routine → Routine
  | .mk s name params body => .mk s name params (body.listed chosen)

def routinesListed (chosen : Span → Bool) : List Routine → List Routine
  | [] => []
  | d :: rest => d.listed chosen :: routinesListed chosen rest

end

attribute [simp] Stmt.listed Block.listed stmtsListed Branch.listed Otherwise.listed Routine.listed
  routinesListed

/-! Where nothing is chosen, a program stays as it is. -/

section Unchosen

variable {chosen : Span → Bool}

theorem Expr.listed_unchosen (h : ∀ s, chosen s = false) (e : Expr) : e.listed chosen = e := by
  cases e with
  | magic s word args => cases word <;> simp [Expr.listed, h]
  | _ => rfl

mutual

theorem Stmt.listed_unchosen (h : ∀ s, chosen s = false) : ∀ s : Stmt, s.listed chosen = s
  | .expr e => by rw [Stmt.listed, e.listed_unchosen h]
  | .assign a => rfl
  | .subroutine d => by rw [Stmt.listed, d.listed_unchosen h]
  | .branch b => by rw [Stmt.listed, b.listed_unchosen h]
  | .whileLoop s condition body => by rw [Stmt.listed, body.listed_unchosen h]
  | .repeatLoop s body condition => by rw [Stmt.listed, body.listed_unchosen h]
  | .forRange s counter first last step body => by rw [Stmt.listed, body.listed_unchosen h]
  | .forEach s counter iterable body => by rw [Stmt.listed, body.listed_unchosen h]
  | .record s name fields => rfl
  | .classDef s name statics methods => by rw [Stmt.listed, routinesListed_unchosen h methods]
  | .attempt s body rescue => by rw [Stmt.listed, body.listed_unchosen h, rescue.listed_unchosen h]
  | .load s location nickname => rfl

theorem Block.listed_unchosen (h : ∀ s, chosen s = false) : ∀ b : Block, b.listed chosen = b
  | .mk s body => by rw [Block.listed, stmtsListed_unchosen h body]

theorem stmtsListed_unchosen (h : ∀ s, chosen s = false) : ∀ ss : List Stmt, stmtsListed chosen ss = ss
  | [] => rfl
  | s :: rest => by rw [stmtsListed, s.listed_unchosen h, stmtsListed_unchosen h rest]

theorem Branch.listed_unchosen (h : ∀ s, chosen s = false) : ∀ b : Branch, b.listed chosen = b
  | .mk s condition consequence alternative => by
    rw [Branch.listed, consequence.listed_unchosen h, alternative.listed_unchosen h]

theorem Otherwise.listed_unchosen (h : ∀ s, chosen s = false) : ∀ o : Otherwise, o.listed chosen = o
  | .absent => rfl
  | .elseIf next => by rw [Otherwise.listed, next.listed_unchosen h]
  | .elseBlock body => by rw [Otherwise.listed, body.listed_unchosen h]

theorem Routine.listed_unchosen (h : ∀ s, chosen s = false) : ∀ d : Routine, d.listed chosen = d
  | .mk s name params body => by rw [Routine.listed, body.listed_unchosen h]

theorem routinesListed_unchosen (h : ∀ s, chosen s = false) : ∀ ds : List Routine, routinesListed chosen ds = ds
  | [] => rfl
  | d :: rest => by rw [routinesListed, d.listed_unchosen h, routinesListed_unchosen h rest]

end

end Unchosen

/-! ## Source units in another run -/

/-- Where source units are found in another run. -/
structure Renaming where
  unit : Nat → Nat
  /-- The text in which the text of a unit is found. -/
  text : Nat → String → String
  shift : Nat → Shift
  /-- The returns that are listed. -/
  lists : Nat → Span → Bool
  /-- There are no observers in the other run. -/
  mutes : Bool
  /-- No unit has the number 0: it stands for no text at all. -/
  unit_zero : unit 0 = 0
  text_zero : text 0 "" = ""
  /-- Texts only move down. -/
  down : ∀ u, 0 ≤ (shift u).lines

namespace Renaming

variable (σ : Renaming)

/-- Where a place of a unit is found.  What is no place in a text stays so. -/
def place (u : Nat) (p : Position) : Position :=
  if p.line ≤ 0 then p else (σ.shift u).apply p

def block (u : Nat) (b : Block) : Block := (b.listed (σ.lists u)).moved (σ.place u)

def stmt (u : Nat) (s : Stmt) : Stmt := (s.listed (σ.lists u)).moved (σ.place u)

def routine (u : Nat) (d : Routine) : Routine := (d.listed (σ.lists u)).moved (σ.place u)

def branch (u : Nat) (b : Branch) : Branch := (b.listed (σ.lists u)).moved (σ.place u)

def origin (o : Origin) : Origin := ⟨σ.unit o.unit, o.name, σ.text o.unit o.text⟩

def subroutine (f : Subroutine) : Subroutine :=
  { f with
    body := σ.block f.origin.unit f.body
    origin := σ.origin f.origin
    offset := f.offset + (σ.shift f.origin.unit).bytes }

def recast : Recast where
  sub := σ.subroutine
  name _ := rfl
  params _ := rfl
  scope _ := rfl
  this _ := rfl
  bound _ _ := rfl
  mutes := σ.mutes

def frame (f : Frame) : Frame := { f with origin := σ.origin f.origin }

def interpreter (i : Interpreter) : Interpreter := { i with frame := σ.frame i.frame }

def world (w : World) : World :=
  { w with
    heap := w.heap.recast σ.recast
    interpreters := w.interpreters.map σ.interpreter
    events := if σ.mutes then #[] else w.events
    nextUnit := σ.unit w.nextUnit }

variable {σ}

@[simp] theorem origin_default : σ.origin default = default := by
  simp only [origin]
  change (⟨σ.unit 0, "", σ.text 0 ""⟩ : Origin) = ⟨0, "", ""⟩
  rw [σ.unit_zero, σ.text_zero]

@[simp] theorem interpreter_default : σ.interpreter default = default := by
  change ({ (default : Interpreter) with
    frame := { (default : Frame) with origin := σ.origin default } } : Interpreter) = _
  rw [origin_default]
  rfl

theorem place_of_pos {u : Nat} {p : Position} (hp : 1 ≤ p.line) :
    σ.place u p = (σ.shift u).apply p := by
  rw [place, if_neg (by omega)]

theorem line_place {u : Nat} {p : Position} (hp : 1 ≤ p.line) : 1 ≤ (σ.place u p).line := by
  have down := σ.down u
  rw [place_of_pos hp]
  change 1 ≤ p.line + (σ.shift u).lines
  omega

@[simp] theorem nowhere_moved (u : Nat) : Span.nowhere.moved (σ.place u) = .nowhere := rfl

@[simp] theorem heap_world (w : World) : (σ.world w).heap = w.heap.recast σ.recast := rfl

@[simp] theorem size_world (w : World) :
    (σ.world w).interpreters.size = w.interpreters.size := Array.size_map

theorem row_world (w : World) (i : Nat) : (σ.world w).row i = σ.interpreter (w.row i) :=
  Heap.getD_map w.interpreters i interpreter_default

theorem world_setFrame (w : World) (id : InterpreterId) (f : Frame) :
    σ.world (w.setFrame id f) = (σ.world w).setFrame id (σ.frame f) := by
  simp only [world, World.setFrame]
  congr 1
  exact Heap.map_modify _ _ fun _ => rfl

/-- A renaming that leaves a unit in its text and in its place. -/
structure Fixes (σ : Renaming) (u : Nat) : Prop where
  text : ∀ s, σ.text u s = s
  shift : σ.shift u = ⟨0, 0⟩

/-- A renaming that leaves the code of a unit as it is. -/
structure Leaves (σ : Renaming) (u : Nat) : Prop extends Fixes σ u where
  lists : ∀ s, σ.lists u s = false

theorem Fixes.place {u : Nat} (h : σ.Fixes u) (p : Position) : σ.place u p = p := by
  rw [Renaming.place, h.shift]
  split
  · rfl
  · simp only [Shift.apply, Int.add_zero]

theorem Fixes.span {u : Nat} (h : σ.Fixes u) (s : Span) : s.moved (σ.place u) = s := by
  rw [Span.moved, h.place, h.place]

theorem Leaves.block {u : Nat} (h : σ.Leaves u) (b : Block) : σ.block u b = b := by
  rw [Renaming.block, b.listed_unchosen h.lists]
  exact b.moved_eq_self.mpr fun s _ => h.span s

/-- A renaming that leaves every unit alone leaves code in its place. -/
theorem still_recast (unit : ∀ u, σ.unit u = u) (leaves : ∀ u, σ.Leaves u) : σ.recast.Still := by
  intro f
  change σ.subroutine f = f
  simp only [subroutine, origin, (leaves _).block, (leaves _).shift, (leaves _).text, unit,
    Int.add_zero]

end Renaming

/-! ## Messages -/

theorem lineText_empty (line : Int) : lineText "" line = "" := by
  rw [lineText]
  split
  · rfl
  · cases (line - 1).toNat with
    | zero => rfl
    | succ n => rfl

/-- The diagnostic at a span of a source unit. -/
def Diagnostic.at (d : Diagnostic) (o : Origin) (s : Span) : Diagnostic :=
  { d with span := s, source := lineText o.text s.start.line, file := o.name }

theorem Diagnostic.inText_eq {d : Diagnostic} (source : d.source = "") (o : Origin) :
    d.inText o.name o.text = d.at o d.span := by
  rw [Diagnostic.inText, Diagnostic.at]
  split
  next text => rw [text, lineText_empty, ← source]
  next => rfl

end Pseudocode
