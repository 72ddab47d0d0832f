import Pseudocode.Grammar.Program
/-
# `Proofs.Composition.Moved` — tokens and trees with their places moved

`f : Position → Position` says where every place goes; `moved f` takes all
places of a span, a token or a tree along and changes nothing else.  The case
of interest is a text that stands further down in a longer one: `Shift` moves
by whole lines, so columns stay.  `spans` lists the spans of the nodes of a
tree.
-/
namespace Pseudocode

variable {f : Position → Position}

def Span.moved (f : Position → Position) (s : Span) : Span := ⟨f s.start, f s.stop⟩

def Token.moved (f : Position → Position) (t : Token) : Token := { t with span := t.span.moved f }

@[simp] theorem Span.start_moved (s : Span) : (s.moved f).start = f s.start := rfl

@[simp] theorem Span.stop_moved (s : Span) : (s.moved f).stop = f s.stop := rfl

@[simp] theorem Token.kind_moved (t : Token) : (t.moved f).kind = t.kind := rfl

@[simp] theorem Token.lexeme_moved (t : Token) : (t.moved f).lexeme = t.lexeme := rfl

@[simp] theorem Token.span_moved (t : Token) : (t.moved f).span = t.span.moved f := rfl

/-! ## Trees -/

mutual

/-- The expression with its places moved. -/
def Expr.moved (f : Position → Position) : Expr → Expr
  | .var s name chain => .var (s.moved f) name (chainMoved f chain)
  | .item s base chain => .item (s.moved f) (base.moved f) (chainMoved f chain)
  | .call s callee args => .call (s.moved f) (callee.moved f) (exprsMoved f args)
  | .binary s op left right => .binary (s.moved f) op (left.moved f) (right.moved f)
  | .unary s op operand => .unary (s.moved f) op (operand.moved f)
  | .magic s word args => .magic (s.moved f) word (exprsMoved f args)
  | .int s value => .int (s.moved f) value
  | .real s value => .real (s.moved f) value
  | .string s value => .string (s.moved f) value
  | .bool s value => .bool (s.moved f) value
  | .none s => .none (s.moved f)
  | .array s elements => .array (s.moved f) (exprsMoved f elements)
  | .dict s entries => .dict (s.moved f) (entriesMoved f entries)

def exprsMoved (f : Position → Position) : List Expr → List Expr
  | [] => []
  | e :: rest => e.moved f :: exprsMoved f rest

def chainMoved (f : Position → Position) : List Index → List Index
  | [] => []
  | .subscript s key :: rest => .subscript (s.moved f) (key.moved f) :: chainMoved f rest
  | .property s name :: rest => .property (s.moved f) name :: chainMoved f rest

def entriesMoved (f : Position → Position) : List Entry → List Entry
  | [] => []
  | .mk k v :: rest => .mk (k.moved f) (v.moved f) :: entriesMoved f rest

end

attribute [simp] Expr.moved exprsMoved chainMoved entriesMoved

def Target.moved (f : Position → Position) (t : Target) : Target :=
  ⟨t.span.moved f, t.name, chainMoved f t.chain⟩

def Assignment.moved (f : Position → Position) (a : Assignment) : Assignment :=
  ⟨a.span.moved f, a.target.moved f, a.value.moved f, a.constant⟩

def Param.moved (f : Position → Position) (p : Param) : Param := ⟨p.span.moved f, p.name⟩

mutual

/-- The statement with its places moved. -/
def Stmt.moved (f : Position → Position) : Stmt → Stmt
  | .expr e => .expr (e.moved f)
  | .assign a => .assign (a.moved f)
  | .subroutine d => .subroutine (d.moved f)
  | .branch b => .branch (b.moved f)
  | .whileLoop s condition body => .whileLoop (s.moved f) (condition.moved f) (body.moved f)
  | .repeatLoop s body condition => .repeatLoop (s.moved f) (body.moved f) (condition.moved f)
  | .forRange s counter first last step body =>
    .forRange (s.moved f) counter (first.moved f) (last.moved f) (step.map (Expr.moved f))
      (body.moved f)
  | .forEach s counter iterable body =>
    .forEach (s.moved f) counter (iterable.moved f) (body.moved f)
  | .record s name fields => .record (s.moved f) name fields
  | .classDef s name statics methods =>
    .classDef (s.moved f) name (statics.map (Assignment.moved f)) (routinesMoved f methods)
  | .attempt s body rescue => .attempt (s.moved f) (body.moved f) (rescue.moved f)
  | .load s location nickname => .load (s.moved f) (location.moved f) nickname

/-- The block with its places moved. -/
def Block.moved (f : Position → Position) : Block → Block
  | .mk s body => .mk (s.moved f) (stmtsMoved f body)

def stmtsMoved (f : Position → Position) : List Stmt → List Stmt
  | [] => []
  | s :: rest => s.moved f :: stmtsMoved f rest

def Branch.moved (f : Position → Position) : Branch → Branch
  | .mk s condition consequence alternative =>
    .mk (s.moved f) (condition.moved f) (consequence.moved f) (alternative.moved f)

def Otherwise.moved (f : Position → Position) : Otherwise → Otherwise
  | .absent => .absent
  | .elseIf next => .elseIf (next.moved f)
  | .elseBlock body => .elseBlock (body.moved f)

def Routine.moved (f : Position → Position) : Routine → Routine
  | .mk s name params body =>
    .mk (s.moved f) name (params.map (Param.moved f)) (body.moved f)

def routinesMoved (f : Position → Position) : List Routine → List Routine
  | [] => []
  | d :: rest => d.moved f :: routinesMoved f rest

end

attribute [simp] Stmt.moved Block.moved stmtsMoved Branch.moved Otherwise.moved Routine.moved
  routinesMoved

@[simp] theorem Expr.span_moved (e : Expr) : (e.moved f).span = e.span.moved f := by
  cases e <;> simp only [Expr.moved, Expr.span]

theorem chainMoved_append (steps more : List Index) :
    chainMoved f (steps ++ more) = chainMoved f steps ++ chainMoved f more := by
  induction steps with
  | nil => rfl
  | cons i steps ih => cases i <;> simp only [List.cons_append, chainMoved, ih]

@[simp] theorem isEmpty_chainMoved (steps : List Index) :
    (chainMoved f steps).isEmpty = steps.isEmpty := by
  cases steps with
  | nil => rfl
  | cons i steps => cases i <;> rfl

theorem stmtsMoved_eq_map (body : List Stmt) : stmtsMoved f body = body.map (Stmt.moved f) := by
  induction body with
  | nil => rfl
  | cons s body ih => rw [stmtsMoved, ih, List.map_cons]

theorem routinesMoved_eq_map (ds : List Routine) :
    routinesMoved f ds = ds.map (Routine.moved f) := by
  induction ds with
  | nil => rfl
  | cons d ds ih => rw [routinesMoved, ih, List.map_cons]

/-! ## The spans of a tree -/

mutual

/-- The spans of the nodes of an expression. -/
def Expr.spans : Expr → List Span
  | .var s _ chain => s :: chainSpans chain
  | .item s base chain => s :: (base.spans ++ chainSpans chain)
  | .call s callee args => s :: (callee.spans ++ exprsSpans args)
  | .binary s _ left right => s :: (left.spans ++ right.spans)
  | .unary s _ operand => s :: operand.spans
  | .magic s _ args => s :: exprsSpans args
  | .int s _ => [s]
  | .real s _ => [s]
  | .string s _ => [s]
  | .bool s _ => [s]
  | .none s => [s]
  | .array s elements => s :: exprsSpans elements
  | .dict s entries => s :: entriesSpans entries

def exprsSpans : List Expr → List Span
  | [] => []
  | e :: rest => e.spans ++ exprsSpans rest

def chainSpans : List Index → List Span
  | [] => []
  | .subscript s key :: rest => s :: (key.spans ++ chainSpans rest)
  | .property s _ :: rest => s :: chainSpans rest

def entriesSpans : List Entry → List Span
  | [] => []
  | .mk k v :: rest => k.spans ++ v.spans ++ entriesSpans rest

end

attribute [simp] Expr.spans exprsSpans chainSpans entriesSpans

def Target.spans (t : Target) : List Span := t.span :: chainSpans t.chain

def Assignment.spans (a : Assignment) : List Span := a.span :: (a.target.spans ++ a.value.spans)

mutual

/-- The spans of the nodes of a statement. -/
def Stmt.spans : Stmt → List Span
  | .expr e => e.spans
  | .assign a => a.spans
  | .subroutine d => d.spans
  | .branch b => b.spans
  | .whileLoop s condition body => s :: (condition.spans ++ body.spans)
  | .repeatLoop s body condition => s :: (body.spans ++ condition.spans)
  | .forRange s _ first last step body =>
    s :: (first.spans ++ last.spans ++ step.toList.flatMap Expr.spans ++ body.spans)
  | .forEach s _ iterable body => s :: (iterable.spans ++ body.spans)
  | .record s _ _ => [s]
  | .classDef s _ statics methods =>
    s :: (statics.flatMap Assignment.spans ++ routinesSpans methods)
  | .attempt s body rescue => s :: (body.spans ++ rescue.spans)
  | .load s location _ => s :: location.spans

/-- The spans of the nodes of a block. -/
def Block.spans : Block → List Span
  | .mk s body => s :: stmtsSpans body

def stmtsSpans : List Stmt → List Span
  | [] => []
  | s :: rest => s.spans ++ stmtsSpans rest

def Branch.spans : Branch → List Span
  | .mk s condition consequence alternative =>
    s :: (condition.spans ++ consequence.spans ++ alternative.spans)

def Otherwise.spans : Otherwise → List Span
  | .absent => []
  | .elseIf next => next.spans
  | .elseBlock body => body.spans

def Routine.spans : Routine → List Span
  | .mk s _ params body => s :: (params.map Param.span ++ body.spans)

def routinesSpans : List Routine → List Span
  | [] => []
  | d :: rest => d.spans ++ routinesSpans rest

end

attribute [simp] Stmt.spans Block.spans stmtsSpans Branch.spans Otherwise.spans Routine.spans
  routinesSpans

/-! A tree stays the same exactly if the spans of its nodes do. -/

mutual

theorem Expr.moved_eq_self : ∀ e : Expr, e.moved f = e ↔ ∀ s ∈ e.spans, s.moved f = s
  | .var s name chain => by simp [chainMoved_eq_self chain]
  | .item s base chain => by
    simp [base.moved_eq_self, chainMoved_eq_self chain, or_imp, forall_and]
  | .call s callee args => by
    simp [callee.moved_eq_self, exprsMoved_eq_self args, or_imp, forall_and]
  | .binary s op left right => by
    simp [left.moved_eq_self, right.moved_eq_self, or_imp, forall_and]
  | .unary s op operand => by simp [operand.moved_eq_self]
  | .magic s word args => by simp [exprsMoved_eq_self args]
  | .int s value => by simp
  | .real s value => by simp
  | .string s value => by simp
  | .bool s value => by simp
  | .none s => by simp
  | .array s elements => by simp [exprsMoved_eq_self elements]
  | .dict s entries => by simp [entriesMoved_eq_self entries]

theorem exprsMoved_eq_self :
    ∀ es : List Expr, exprsMoved f es = es ↔ ∀ s ∈ exprsSpans es, s.moved f = s
  | [] => by simp
  | e :: rest => by simp [e.moved_eq_self, exprsMoved_eq_self rest, or_imp, forall_and]

theorem chainMoved_eq_self :
    ∀ steps : List Index, chainMoved f steps = steps ↔ ∀ s ∈ chainSpans steps, s.moved f = s
  | [] => by simp
  | .subscript s key :: rest => by
    simp [key.moved_eq_self, chainMoved_eq_self rest, or_imp, forall_and, and_assoc]
  | .property s name :: rest => by simp [chainMoved_eq_self rest]

theorem entriesMoved_eq_self :
    ∀ es : List Entry, entriesMoved f es = es ↔ ∀ s ∈ entriesSpans es, s.moved f = s
  | [] => by simp
  | .mk k v :: rest => by
    simp [k.moved_eq_self, v.moved_eq_self, entriesMoved_eq_self rest, or_imp, forall_and, and_assoc]

end

theorem map_eq_self {α : Type} {g : α → α} (xs : List α) : xs.map g = xs ↔ ∀ x ∈ xs, g x = x := by
  induction xs with
  | nil => simp
  | cons x xs ih => simp [ih]

theorem Param.moved_eq_self (p : Param) : p.moved f = p ↔ p.span.moved f = p.span := by
  obtain ⟨s, name⟩ := p
  simp [Param.moved]

theorem Target.moved_eq_self (t : Target) : t.moved f = t ↔ ∀ s ∈ t.spans, s.moved f = s := by
  obtain ⟨s, name, chain⟩ := t
  simp [Target.moved, Target.spans, chainMoved_eq_self]

theorem Assignment.moved_eq_self (a : Assignment) :
    a.moved f = a ↔ ∀ s ∈ a.spans, s.moved f = s := by
  obtain ⟨s, target, value, constant⟩ := a
  simp [Assignment.moved, Assignment.spans, Target.moved_eq_self, Expr.moved_eq_self, or_imp,
    forall_and]

mutual

theorem Stmt.moved_eq_self : ∀ x : Stmt, x.moved f = x ↔ ∀ s ∈ x.spans, s.moved f = s
  | .expr e => by simp [e.moved_eq_self]
  | .assign a => by simp [a.moved_eq_self]
  | .subroutine d => by simp [d.moved_eq_self]
  | .branch b => by simp [b.moved_eq_self]
  | .whileLoop s condition body => by
    simp [condition.moved_eq_self, body.moved_eq_self, or_imp, forall_and]
  | .repeatLoop s body condition => by
    simp [condition.moved_eq_self, body.moved_eq_self, or_imp, forall_and]
  | .forRange s counter first last step body => by
    have optional : step.map (Expr.moved f) = step ↔
        ∀ s ∈ step.toList.flatMap Expr.spans, s.moved f = s := by
      cases step <;> simp [Expr.moved_eq_self]
    simp only [Stmt.moved, Stmt.forRange.injEq, first.moved_eq_self, last.moved_eq_self,
      body.moved_eq_self, optional, true_and, Stmt.spans, List.forall_mem_cons,
      List.forall_mem_append, and_assoc]
  | .forEach s counter iterable body => by
    simp [iterable.moved_eq_self, body.moved_eq_self, or_imp, forall_and]
  | .record s name fields => by simp
  | .classDef s name statics methods => by
    have fields : statics.map (Assignment.moved f) = statics ↔
        ∀ s ∈ statics.flatMap Assignment.spans, s.moved f = s := by
      simp only [map_eq_self, Assignment.moved_eq_self, List.forall_mem_flatMap]
    simp only [Stmt.moved, Stmt.classDef.injEq, fields, routinesMoved_eq_self methods, true_and,
      Stmt.spans, List.forall_mem_cons, List.forall_mem_append]
  | .attempt s body rescue => by
    simp [body.moved_eq_self, rescue.moved_eq_self, or_imp, forall_and]
  | .load s location nickname => by simp [location.moved_eq_self]

theorem Block.moved_eq_self : ∀ b : Block, b.moved f = b ↔ ∀ s ∈ b.spans, s.moved f = s
  | .mk s body => by simp [stmtsMoved_eq_self body]

theorem stmtsMoved_eq_self :
    ∀ body : List Stmt, stmtsMoved f body = body ↔ ∀ s ∈ stmtsSpans body, s.moved f = s
  | [] => by simp
  | s :: rest => by simp [s.moved_eq_self, stmtsMoved_eq_self rest, or_imp, forall_and]

theorem Branch.moved_eq_self : ∀ b : Branch, b.moved f = b ↔ ∀ s ∈ b.spans, s.moved f = s
  | .mk s condition consequence alternative => by
    simp [condition.moved_eq_self, consequence.moved_eq_self, alternative.moved_eq_self, or_imp,
      forall_and]

theorem Otherwise.moved_eq_self :
    ∀ o : Otherwise, o.moved f = o ↔ ∀ s ∈ o.spans, s.moved f = s
  | .absent => by simp
  | .elseIf next => by simp [next.moved_eq_self]
  | .elseBlock body => by simp [body.moved_eq_self]

theorem Routine.moved_eq_self : ∀ d : Routine, d.moved f = d ↔ ∀ s ∈ d.spans, s.moved f = s
  | .mk s name params body => by
    have names : params.map (Param.moved f) = params ↔
        ∀ s ∈ params.map Param.span, s.moved f = s := by
      simp only [map_eq_self, Param.moved_eq_self, List.forall_mem_map]
    simp only [Routine.moved, Routine.mk.injEq, names, body.moved_eq_self, true_and, Routine.spans,
      List.forall_mem_cons, List.forall_mem_append]

theorem routinesMoved_eq_self :
    ∀ ds : List Routine, routinesMoved f ds = ds ↔ ∀ s ∈ routinesSpans ds, s.moved f = s
  | [] => by simp
  | d :: rest => by simp [d.moved_eq_self, routinesMoved_eq_self rest, or_imp, forall_and]

end

/-! ## Messages -/

def Grammar.Refusal.moved (f : Position → Position) (r : Grammar.Refusal) : Grammar.Refusal :=
  { r with token := r.token.moved f }

def Diagnostic.moved (f : Position → Position) (d : Diagnostic) : Diagnostic :=
  { d with span := d.span.moved f }

/-- The error with its places moved: code, message and the text of the line stay. -/
def SourceError.moved (f : Position → Position) : SourceError → SourceError
  | .lexical d => .lexical (d.moved f)
  | .grammatical d t => .grammatical (d.moved f) (t.moved f)

/-! ## Moving by whole lines -/

/-- A distance between two texts of which one stands further down. -/
structure Shift where
  bytes : Int
  lines : Int
deriving Repr, DecidableEq

/-- The distance a text moves when another one and a line end come before it. -/
def Shift.below (before : String) : Shift :=
  ⟨before.utf8ByteSize + 1, before.toList.count '\n' + 1⟩

def Shift.apply (d : Shift) (p : Position) : Position :=
  ⟨p.offset + d.bytes, p.line + d.lines, p.column⟩

theorem Shift.apply_next (d : Shift) (p : Position) (c : Char) :
    d.apply (p.next c) = (d.apply p).next c := by
  unfold Position.next
  split
  · simp only [Shift.apply, Position.mk.injEq, and_true]
    omega
  · simp only [Shift.apply, Position.mk.injEq, and_true]
    omega

theorem Shift.apply_past (d : Shift) (p : Position) (cs : List Char) :
    d.apply (p.past cs) = (d.apply p).past cs := by
  induction cs generalizing p with
  | nil => rfl
  | cons c cs ih => rw [Position.past_cons, ih, Shift.apply_next, Position.past_cons]

end Pseudocode
