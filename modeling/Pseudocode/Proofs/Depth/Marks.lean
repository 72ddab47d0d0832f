import Mathlib.Algebra.Ring.Int.Defs
import Mathlib.Tactic.SplitIfs
import Pseudocode.Grammar.Program
import Pseudocode.Token.BlockDepth
/-
# `Proofs.Depth.Marks` — where the blocks of a program open and close

A construct of a program that a terminator closes has an opening keyword and the line of its
terminator (`Construct`).  `constructs` lists those of a tree.

Read from the top of a text to its end, constructs open and close: these are the marks of the
text.  `marks` finds them in a tree, and `marksFrom` in a list of tokens, where only the kinds
of a token and of the one before it matter.  If marks are in the order of their lines, then
what has opened and not yet closed up to a line are the constructs that are open there
(`depthBy_marks`).
-/
namespace Pseudocode

/-! ## Constructs -/

/-- A construct that a terminator closes. -/
structure Construct where
  /-- The keyword that opens it. -/
  word : Kind
  /-- Where that keyword stands. -/
  start : Position
  /-- The line of the terminator. -/
  last : Int
deriving Repr, DecidableEq

/-- The construct that ends with its terminator. -/
def Span.construct (s : Span) (word : Kind) : Construct := ⟨word, s.start, s.stop.line⟩

mutual

/-- The constructs of a statement. -/
def Stmt.constructs : Stmt → List Construct
  | .subroutine d => d.constructs
  | .branch b => b.span.construct .kwIf :: b.inner
  | .whileLoop s _ body => s.construct .kwWhile :: body.constructs
  -- The condition stands behind the terminator, which comes right after the body.
  | .repeatLoop s body _ => ⟨.kwRepeat, s.start, body.span.stop.line⟩ :: body.constructs
  | .forRange s _ _ _ _ body => s.construct .kwFor :: body.constructs
  | .forEach s _ _ body => s.construct .kwFor :: body.constructs
  | .record s _ _ => [s.construct .kwRecord]
  | .classDef s _ _ methods => s.construct .kwClass :: routinesConstructs methods
  | .attempt s body rescue => s.construct .kwTry :: (body.constructs ++ rescue.constructs)
  | .expr _ | .assign _ | .load _ _ _ => []

def Block.constructs : Block → List Construct
  | .mk _ body => stmtsConstructs body

def stmtsConstructs : List Stmt → List Construct
  | [] => []
  | s :: rest => s.constructs ++ stmtsConstructs rest

/-- The constructs inside of a branch.  An `ELSE IF` is closed along with its `IF`. -/
def Branch.inner : Branch → List Construct
  | .mk _ _ consequence alternative => consequence.constructs ++ alternative.inner

def Otherwise.inner : Otherwise → List Construct
  | .absent => []
  | .elseIf next => next.inner
  | .elseBlock body => body.constructs

def Routine.constructs : Routine → List Construct
  | .mk s _ _ body => s.construct .kwSubroutine :: body.constructs

def routinesConstructs : List Routine → List Construct
  | [] => []
  | d :: rest => d.constructs ++ routinesConstructs rest

end

/-- Is it open at the end of a line? -/
def Construct.openAt (line : Int) (c : Construct) : Bool :=
  decide (c.start.line ≤ line ∧ line < c.last)

/-! ## Marks -/

/-- A place where a construct opens, or a line on which one closes. -/
inductive Mark where
  | opens (word : Kind) (start : Position)
  | closes (line : Int)
deriving Repr, DecidableEq

def Mark.line : Mark → Int
  | .opens _ start => start.line
  | .closes line => line

/-- The marks of a token after one of a kind. -/
def Token.marks (before : Kind) (t : Token) : List Mark :=
  if before.opensBlock t.kind then [.opens t.kind t.span.start]
  else if t.kind.closesBlock then [.closes t.span.start.line]
  else []

def marksFrom (before : Kind) : List Token → List Mark
  | [] => []
  | t :: rest => t.marks before ++ marksFrom t.kind rest

/-- What opens and closes around other marks. -/
def Construct.around (c : Construct) (inside : List Mark) : List Mark :=
  .opens c.word c.start :: inside ++ [.closes c.last]

mutual

/-- The marks of a statement. -/
def Stmt.marks : Stmt → List Mark
  | .subroutine d => d.marks
  | .branch b => (b.span.construct .kwIf).around b.marks
  | .whileLoop s _ body => (s.construct .kwWhile).around body.marks
  | .repeatLoop s body _ =>
    (Construct.mk .kwRepeat s.start body.span.stop.line).around body.marks
  | .forRange s _ _ _ _ body => (s.construct .kwFor).around body.marks
  | .forEach s _ _ body => (s.construct .kwFor).around body.marks
  | .record s _ _ => (s.construct .kwRecord).around []
  | .classDef s _ _ methods => (s.construct .kwClass).around (routinesMarks methods)
  | .attempt s body rescue => (s.construct .kwTry).around (body.marks ++ rescue.marks)
  | .expr _ | .assign _ | .load _ _ _ => []

def Block.marks : Block → List Mark
  | .mk _ body => stmtsMarks body

def stmtsMarks : List Stmt → List Mark
  | [] => []
  | s :: rest => s.marks ++ stmtsMarks rest

/-- The marks inside of a branch. -/
def Branch.marks : Branch → List Mark
  | .mk _ _ consequence alternative => consequence.marks ++ alternative.marks

def Otherwise.marks : Otherwise → List Mark
  | .absent => []
  | .elseIf next => next.marks
  | .elseBlock body => body.marks

def Routine.marks : Routine → List Mark
  | .mk s _ _ body => (s.construct .kwSubroutine).around body.marks

def routinesMarks : List Routine → List Mark
  | [] => []
  | d :: rest => d.marks ++ routinesMarks rest

end

/-! ## Counting -/

/-- What a mark adds to what is open. -/
def Mark.change : Mark → Int
  | .opens _ _ => 1
  | .closes _ => -1

/-- What the marks up to a line add up to. -/
def depthBy (line : Int) (ms : List Mark) : Int :=
  (ms.map fun m => if m.line ≤ line then m.change else 0).sum

/-- How many of some constructs are open at the end of a line. -/
def openAt (line : Int) (cs : List Construct) : Nat := cs.countP (Construct.openAt line)

/-- Marks one after the other, on lines in order. -/
def Ordered (ms : List Mark) : Prop := ms.Pairwise fun m n => m.line ≤ n.line

section Counting

variable {line : Int} {c : Construct} {cs : List Construct} {ms ns : List Mark}

theorem depthBy_append (ms ns : List Mark) :
    depthBy line (ms ++ ns) = depthBy line ms + depthBy line ns := by
  rw [depthBy, List.map_append, List.sum_append, depthBy, depthBy]

theorem openAt_append (cs cs' : List Construct) :
    openAt line (cs ++ cs') = openAt line cs + openAt line cs' := List.countP_append

theorem Ordered.left (h : Ordered (ms ++ ns)) : Ordered ms := (List.pairwise_append.mp h).1

theorem Ordered.right (h : Ordered (ms ++ ns)) : Ordered ns := (List.pairwise_append.mp h).2.1

theorem Ordered.inside (h : Ordered (c.around ms)) : Ordered ms := (List.pairwise_cons.mp h.left).2

/-- A construct opens before it closes. -/
theorem Ordered.forward (h : Ordered (c.around ms)) : c.start.line ≤ c.last := by
  rw [Construct.around, List.cons_append] at h
  exact (List.pairwise_cons.mp h).1 (.closes c.last) (by simp)

theorem depthBy_around (h : Ordered (c.around ms)) (same : depthBy line ms = openAt line cs) :
    depthBy line (c.around ms) = openAt line (c :: cs) := by
  have forward := h.forward
  have first : (openAt line (c :: cs) : Int) =
      openAt line cs + if c.start.line ≤ line ∧ line < c.last then 1 else 0 := by
    rw [openAt, List.countP_cons, Int.natCast_add, Construct.openAt, openAt]
    simp only [decide_eq_true_eq]
    split_ifs <;> rfl
  rw [Construct.around, depthBy_append, ← List.singleton_append, depthBy_append, same, first]
  simp only [depthBy, List.map_cons, List.map_nil, List.sum_cons, List.sum_nil, Mark.line, Mark.change]
  split_ifs <;> omega

mutual

/-- Up to a line, the marks of a statement add up to the number of its constructs that are
open there. -/
theorem Stmt.depthBy_marks (s : Stmt) (h : Ordered s.marks) :
    depthBy line s.marks = openAt line s.constructs := by
  match s with
  | .subroutine d => exact d.depthBy_marks h
  | .branch b => exact depthBy_around h (b.depthBy_marks h.inside)
  | .whileLoop _ _ body | .repeatLoop _ body _ | .forRange _ _ _ _ _ body | .forEach _ _ _ body =>
    exact depthBy_around h (body.depthBy_marks h.inside)
  | .record s _ _ => exact depthBy_around h rfl
  | .classDef _ _ _ methods => exact depthBy_around h (depthBy_routinesMarks methods h.inside)
  | .attempt _ body rescue =>
    refine depthBy_around h ?_
    rw [depthBy_append, openAt_append, body.depthBy_marks h.inside.left,
      rescue.depthBy_marks h.inside.right]
    rfl
  | .expr _ | .assign _ | .load _ _ _ => rfl

theorem Block.depthBy_marks (b : Block) (h : Ordered b.marks) :
    depthBy line b.marks = openAt line b.constructs := by
  match b with
  | .mk _ body => exact depthBy_stmtsMarks body h

theorem depthBy_stmtsMarks (body : List Stmt) (h : Ordered (stmtsMarks body)) :
    depthBy line (stmtsMarks body) = openAt line (stmtsConstructs body) := by
  match body with
  | [] => rfl
  | s :: rest =>
    rw [stmtsMarks] at h ⊢
    rw [stmtsConstructs, depthBy_append, openAt_append, s.depthBy_marks h.left,
      depthBy_stmtsMarks rest h.right]
    rfl

theorem Branch.depthBy_marks (b : Branch) (h : Ordered b.marks) :
    depthBy line b.marks = openAt line b.inner := by
  match b with
  | .mk _ _ consequence alternative =>
    rw [Branch.marks] at h ⊢
    rw [Branch.inner, depthBy_append, openAt_append, consequence.depthBy_marks h.left,
      alternative.depthBy_marks h.right]
    rfl

theorem Otherwise.depthBy_marks (o : Otherwise) (h : Ordered o.marks) :
    depthBy line o.marks = openAt line o.inner := by
  match o with
  | .absent => rfl
  | .elseIf next => exact next.depthBy_marks h
  | .elseBlock body => exact body.depthBy_marks h

theorem Routine.depthBy_marks (d : Routine) (h : Ordered d.marks) :
    depthBy line d.marks = openAt line d.constructs := by
  match d with
  | .mk _ _ _ body => exact depthBy_around h (body.depthBy_marks h.inside)

theorem depthBy_routinesMarks (ds : List Routine) (h : Ordered (routinesMarks ds)) :
    depthBy line (routinesMarks ds) = openAt line (routinesConstructs ds) := by
  match ds with
  | [] => rfl
  | d :: rest =>
    rw [routinesMarks] at h ⊢
    rw [routinesConstructs, depthBy_append, openAt_append, d.depthBy_marks h.left,
      depthBy_routinesMarks rest h.right]
    rfl

end

end Counting

/-! ## Constructs have marks -/

/-- Both marks of the construct are there. -/
def Construct.Marked (ms : List Mark) (c : Construct) : Prop :=
  .opens c.word c.start ∈ ms ∧ .closes c.last ∈ ms

section Marked

variable {c : Construct} {cs cs' : List Construct} {ms ns : List Mark}

theorem Construct.Marked.mono (h : c.Marked ms) (more : ms ⊆ ns) : c.Marked ns :=
  ⟨more h.1, more h.2⟩

theorem marked_around (inside : ∀ d ∈ cs, d.Marked ms) : ∀ d ∈ c :: cs, d.Marked (c.around ms) := by
  refine List.forall_mem_cons.mpr ⟨⟨List.mem_cons_self, ?_⟩, fun d mem => (inside d mem).mono ?_⟩
  · exact List.mem_append_right _ (List.mem_singleton_self _)
  · exact fun m known => List.mem_append_left _ (List.mem_cons_of_mem _ known)

theorem marked_append (left : ∀ d ∈ cs, d.Marked ms) (right : ∀ d ∈ cs', d.Marked ns) :
    ∀ d ∈ cs ++ cs', d.Marked (ms ++ ns) :=
  List.forall_mem_append.mpr
    ⟨fun d mem => (left d mem).mono (List.subset_append_left _ _),
      fun d mem => (right d mem).mono (List.subset_append_right _ _)⟩

mutual

/-- Every construct of a statement opens and closes at marks of the statement. -/
theorem Stmt.marked (s : Stmt) : ∀ c ∈ s.constructs, c.Marked s.marks := by
  match s with
  | .subroutine d => exact d.marked
  | .branch b => exact marked_around b.marked
  | .whileLoop _ _ body | .repeatLoop _ body _ | .forRange _ _ _ _ _ body | .forEach _ _ _ body =>
    exact marked_around body.marked
  | .record _ _ _ => exact marked_around (List.forall_mem_nil _)
  | .classDef _ _ _ methods => exact marked_around (marked_routines methods)
  | .attempt _ body rescue => exact marked_around (marked_append body.marked rescue.marked)
  | .expr _ | .assign _ | .load _ _ _ => exact List.forall_mem_nil _

theorem Block.marked (b : Block) : ∀ c ∈ b.constructs, c.Marked b.marks := by
  match b with
  | .mk _ body => exact marked_stmts body

theorem marked_stmts (body : List Stmt) : ∀ c ∈ stmtsConstructs body, c.Marked (stmtsMarks body) := by
  match body with
  | [] => exact List.forall_mem_nil _
  | s :: rest => exact marked_append s.marked (marked_stmts rest)

theorem Branch.marked (b : Branch) : ∀ c ∈ b.inner, c.Marked b.marks := by
  match b with
  | .mk _ _ consequence alternative => exact marked_append consequence.marked alternative.marked

theorem Otherwise.marked (o : Otherwise) : ∀ c ∈ o.inner, c.Marked o.marks := by
  match o with
  | .absent => exact List.forall_mem_nil _
  | .elseIf next => exact next.marked
  | .elseBlock body => exact body.marked

theorem Routine.marked (d : Routine) : ∀ c ∈ d.constructs, c.Marked d.marks := by
  match d with
  | .mk _ _ _ body => exact marked_around body.marked

theorem marked_routines (ds : List Routine) :
    ∀ c ∈ routinesConstructs ds, c.Marked (routinesMarks ds) := by
  match ds with
  | [] => exact List.forall_mem_nil _
  | d :: rest => exact marked_append d.marked (marked_routines rest)

end

end Marked

end Pseudocode
