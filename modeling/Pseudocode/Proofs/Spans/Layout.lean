import Mathlib.Order.Basic
import Mathlib.Data.Nat.Basic
import Pseudocode.Program.Stmt
import Pseudocode.Token.Basic
/-
# `Proofs.Spans.Layout` — nodes that are laid out over tokens

Expressions, index steps, statements, blocks and definitions are types of their own.  Their spans
are looked at alike, and a `SpanTree` is what is left for that: a node with its span and, in the
order of the syntax tree, the trees of its parts.  A statement that is an expression, an
assignment, a definition or an `IF` has no span beside that of what it is, and the pairs of a
dictionary literal have none; their keys and values are parts of the literal.

What a parser reads are tokens, and the node that it makes of the tokens from one number up to
another starts where the first of them starts and stops where the last of them stops (`Laid`).  Its
parts are laid out over tokens among these, one part behind the other (`Chain`).  Only an empty
block may be laid out over no tokens at all.  It starts where the next token starts, and so it has
to stand among the tokens of its parent, not at their end; only in the branch of an `ELSE IF` is
the next token that with which the whole `IF` ends.
-/
namespace Pseudocode

/-- The spans of a syntax tree. -/
inductive SpanTree where
  /-- `vacant` marks a block without statements.  The branch of an `ELSE IF` has no terminator of
  its own, and `whole` is the span of the `IF` that it is a branch of. -/
  | node (span : Span) (vacant : Bool) (whole : Option Span) (parts : List SpanTree)

namespace SpanTree

/-- The span of the node. -/
def span : SpanTree → Span
  | node s _ _ _ => s

/-- Is this a block without statements? -/
def vacant : SpanTree → Bool
  | node _ v _ _ => v

/-- The span of the `IF` of which this is a further branch. -/
def whole : SpanTree → Option Span
  | node _ _ w _ => w

/-- The parts of the node. -/
def parts : SpanTree → List SpanTree
  | node _ _ _ ps => ps

/-- A node that is neither an empty block nor a further branch. -/
abbrev full (span : Span) (parts : List SpanTree) : SpanTree := node span false none parts

/-- The node, or one in its parts. -/
inductive Has : SpanTree → SpanTree → Prop
  | self (o : SpanTree) : Has o o
  | part {o p q : SpanTree} : p ∈ o.parts → Has p q → Has o q

end SpanTree

/-! ## Expressions -/

mutual

def Expr.spanTree : Expr → SpanTree
  | .var s _ chain => .full s (chainSpanTrees chain)
  | .item s base chain => .full s (base.spanTree :: chainSpanTrees chain)
  | .call s callee args => .full s (callee.spanTree :: exprsSpanTrees args)
  | .binary s _ left right => .full s [left.spanTree, right.spanTree]
  | .unary s _ operand => .full s [operand.spanTree]
  | .magic s _ args => .full s (exprsSpanTrees args)
  | .int s _ | .real s _ | .string s _ | .bool s _ | .none s => .full s []
  | .array s elements => .full s (exprsSpanTrees elements)
  | .dict s entries => .full s (entriesSpanTrees entries)

def exprsSpanTrees : List Expr → List SpanTree
  | [] => []
  | e :: es => e.spanTree :: exprsSpanTrees es

def chainSpanTrees : List Index → List SpanTree
  | [] => []
  | .subscript s key :: steps => .full s [key.spanTree] :: chainSpanTrees steps
  | .property s _ :: steps => .full s [] :: chainSpanTrees steps

def entriesSpanTrees : List Entry → List SpanTree
  | [] => []
  | .mk key value :: es => key.spanTree :: value.spanTree :: entriesSpanTrees es

end

/-! ## Statements -/

def Target.spanTree (t : Target) : SpanTree := .full t.span (chainSpanTrees t.chain)

def Assignment.spanTree (a : Assignment) : SpanTree :=
  .full a.span [a.target.spanTree, a.value.spanTree]

def Param.spanTree (p : Param) : SpanTree := .full p.span []

mutual

def Stmt.spanTree : Stmt → SpanTree
  | .expr e => e.spanTree
  | .assign a => a.spanTree
  | .subroutine d => d.spanTree
  | .branch b => b.spanTree none
  | .whileLoop s condition body => .full s [condition.spanTree, body.spanTree]
  | .repeatLoop s body condition => .full s [body.spanTree, condition.spanTree]
  | .forRange s _ first last none body => .full s [first.spanTree, last.spanTree, body.spanTree]
  | .forRange s _ first last (some step) body =>
    .full s [first.spanTree, last.spanTree, step.spanTree, body.spanTree]
  | .forEach s _ iterable body => .full s [iterable.spanTree, body.spanTree]
  | .record s _ _ => .full s []
  | .classDef s _ statics methods =>
    .full s (statics.map Assignment.spanTree ++ routinesSpanTrees methods)
  | .attempt s body rescue => .full s [body.spanTree, rescue.spanTree]
  | .load s location _ => .full s [location.spanTree]

def Block.spanTree : Block → SpanTree
  | .mk s body => .node s body.isEmpty none (stmtsSpanTrees body)

def stmtsSpanTrees : List Stmt → List SpanTree
  | [] => []
  | s :: ss => s.spanTree :: stmtsSpanTrees ss

/-- The tree of a branch; `whole` is the span of the `IF` if the branch is not its first. -/
def Branch.spanTree (whole : Option Span) : Branch → SpanTree
  | .mk s condition consequence alternative =>
    .node s false whole
      (condition.spanTree :: consequence.spanTree :: alternative.spanTrees (whole.getD s))

def Otherwise.spanTrees (whole : Span) : Otherwise → List SpanTree
  | .absent => []
  | .elseIf next => [next.spanTree (some whole)]
  | .elseBlock body => [body.spanTree]

def Routine.spanTree : Routine → SpanTree
  | .mk s _ params body => .full s (params.map Param.spanTree ++ [body.spanTree])

def routinesSpanTrees : List Routine → List SpanTree
  | [] => []
  | d :: ds => d.spanTree :: routinesSpanTrees ds

end

@[simp] theorem Expr.span_spanTree (e : Expr) : e.spanTree.span = e.span := by
  cases e <;> rfl

/-! ## Only blocks are vacant -/

@[simp] theorem Expr.vacant_spanTree (e : Expr) : e.spanTree.vacant = false := by
  cases e <;> rfl

theorem vacant_exprsSpanTrees (es : List Expr) : ∀ o ∈ exprsSpanTrees es, o.vacant = false := by
  induction es with
  | nil => exact fun o mem => nomatch mem
  | cons e es ih => exact List.forall_mem_cons.mpr ⟨e.vacant_spanTree, ih⟩

theorem vacant_chainSpanTrees (steps : List Index) :
    ∀ o ∈ chainSpanTrees steps, o.vacant = false := by
  induction steps with
  | nil => exact fun o mem => nomatch mem
  | cons i steps ih =>
    cases i with
    | subscript s key => exact List.forall_mem_cons.mpr ⟨rfl, ih⟩
    | property s name => exact List.forall_mem_cons.mpr ⟨rfl, ih⟩

theorem chainSpanTrees_append (steps more : List Index) :
    chainSpanTrees (steps ++ more) = chainSpanTrees steps ++ chainSpanTrees more := by
  induction steps with
  | nil => rfl
  | cons i steps ih =>
    cases i with
    | subscript s key => exact congrArg (_ :: ·) ih
    | property s name => exact congrArg (_ :: ·) ih

theorem Stmt.vacant_spanTree (s : Stmt) : s.spanTree.vacant = false := by
  cases s with
  | expr e => exact e.vacant_spanTree
  | subroutine d => cases d; rfl
  | branch b => cases b; rfl
  | forRange s name first last step body => cases step <;> rfl
  | _ => rfl

theorem vacant_stmtsSpanTrees (ss : List Stmt) : ∀ o ∈ stmtsSpanTrees ss, o.vacant = false := by
  induction ss with
  | nil => exact fun o mem => nomatch mem
  | cons s ss ih => exact List.forall_mem_cons.mpr ⟨s.vacant_spanTree, ih⟩

/-! ## Tokens and layouts -/

/-- The tokens of a text, and the one that stands for the end of input. -/
structure Tape where
  tokens : List Token
  last : Token
  eof : last.kind = .eof

namespace Tape

/-- The token with a number. -/
def token (T : Tape) (k : Nat) : Token := T.tokens[k]?.getD T.last

/-- The token before that with a number. -/
def before (T : Tape) : Nat → Option Token
  | 0 => none
  | k + 1 => some (T.token k)

/-- The place where the tokens before a number end; before the first one there is only its
start. -/
def stop (T : Tape) (k : Nat) : Position :=
  ((T.before k).map fun t => t.span.stop).getD (T.token k).span.start

end Tape

variable {T : Tape} {i j k a b : Nat} {o : SpanTree} {os ps : List SpanTree}

/-- Trees of which each stands among the numbers behind those of the one before it. -/
inductive Chain (P : Nat → Nat → SpanTree → Prop) : Nat → Nat → List SpanTree → Prop
  | nil {i j : Nat} (le : i ≤ j) : Chain P i j []
  | cons {i a b j : Nat} {o : SpanTree} {os : List SpanTree} (before : i ≤ a) (first : P a b o)
      (rest : Chain P b j os) : Chain P i j (o :: os)

/-- The tree is laid out over the tokens from one number up to another. -/
inductive Laid (T : Tape) : Nat → Nat → SpanTree → Prop
  | node {i j first last : Nat} {vacant : Bool} {whole : Option Span} {parts sorted : List SpanTree}
      (le : i ≤ j) (some : vacant = false → i < j) (chain : Chain (Laid T) first last sorted)
      -- A class names its fields before its methods, wherever they stand.
      (perm : sorted.Perm parts) (before : i ≤ first) (behind : last ≤ j)
      -- An empty block starts at a token inside, or at the one with which the whole `IF` ends.
      (empty : ∀ p ∈ parts, p.vacant = true → i < first ∧
        ((∃ a, i ≤ a ∧ a < j ∧ p.span.start = (T.token a).span.start) ∨
          ∃ w t, whole = .some w ∧ T.tokens[j]? = .some t ∧ t.span.stop = w.stop)) :
      Laid T i j (.node ⟨(T.token i).span.start, T.stop j⟩ vacant whole parts)

namespace Laid

theorem le (h : Laid T i j o) : i ≤ j := by
  cases h
  assumption

theorem lt (h : Laid T i j o) (some : o.vacant = false) : i < j := by
  cases h with
  | node _ strict => exact strict some

theorem start (h : Laid T i j o) : o.span.start = (T.token i).span.start := by
  cases h
  rfl

theorem span (h : Laid T i j o) : o.span = ⟨(T.token i).span.start, T.stop j⟩ := by
  cases h
  rfl

end Laid

namespace Chain

theorem le (h : Chain (Laid T) i j os) : i ≤ j := by
  induction h with
  | nil le => exact le
  | cons before here _ ih => exact before.trans (here.le.trans ih)

theorem single (h : Laid T i j o) : Chain (Laid T) i j [o] :=
  .cons (Nat.le_refl i) h (.nil (Nat.le_refl j))

/-- More tokens may stand around. -/
theorem widen (h : Chain (Laid T) i j os) (before : a ≤ i) (behind : j ≤ b) :
    Chain (Laid T) a b os := by
  induction h generalizing a with
  | nil le => exact .nil (before.trans (le.trans behind))
  | cons le here _ ih => exact .cons (before.trans le) here (ih (Nat.le_refl _) behind)

theorem append (h : Chain (Laid T) i j os) (h' : Chain (Laid T) a b ps) (between : j ≤ a) :
    Chain (Laid T) i b (os ++ ps) := by
  induction h with
  | nil le => exact h'.widen (le.trans between) (Nat.le_refl b)
  | cons le here _ ih => exact .cons le here (ih between)

/-- What is in a chain is laid out among its tokens. -/
theorem mem (h : Chain (Laid T) i j os) (mem : o ∈ os) : ∃ a b, i ≤ a ∧ b ≤ j ∧ Laid T a b o := by
  induction h with
  | nil => cases mem
  | cons before here rest ih =>
    rcases List.mem_cons.mp mem with rfl | later
    · exact ⟨_, _, before, rest.le, here⟩
    · obtain ⟨a, b, le, behind, there⟩ := ih later
      exact ⟨a, b, before.trans (here.le.trans le), behind, there⟩

end Chain

/-- The tree is laid out over tokens among those from one number up to another. -/
def Among (T : Tape) (i j : Nat) (o : SpanTree) : Prop := ∃ a b, i ≤ a ∧ b ≤ j ∧ Laid T a b o

theorem Among.le (h : Among T i j o) : i ≤ j := by
  obtain ⟨a, b, before, behind, here⟩ := h
  exact before.trans (here.le.trans behind)

theorem Among.widen (h : Among T i j o) (before : a ≤ i) (behind : j ≤ b) : Among T a b o := by
  obtain ⟨first, last, after, until_, here⟩ := h
  exact ⟨first, last, before.trans after, until_.trans behind, here⟩

theorem Laid.among (h : Laid T i j o) : Among T i j o := ⟨i, j, Nat.le_refl i, Nat.le_refl j, h⟩

/-- A tree before a chain. -/
theorem Among.before (h : Among T i j o) (between : j ≤ a) (h' : Chain (Laid T) a b os) :
    Chain (Laid T) i b (o :: os) := by
  obtain ⟨first, last, before, behind, here⟩ := h
  exact .cons before here (h'.widen (behind.trans between) (Nat.le_refl b))

theorem Among.chain (h : Among T i j o) (h' : Chain (Laid T) j k os) :
    Chain (Laid T) i k (o :: os) := h.before (Nat.le_refl j) h'

theorem Among.single (h : Among T i j o) : Chain (Laid T) i j [o] := h.chain (.nil (Nat.le_refl j))

/-! ## Kinds of nodes -/

namespace Laid

/-- A node of one token. -/
theorem leaf (T : Tape) (i : Nat) : Laid T i (i + 1) (.full (T.token i).span []) :=
  .node (Nat.le_succ i) (fun _ => Nat.lt_succ_self i) (.nil (Nat.le_refl i)) (.refl [])
    (Nat.le_refl i) (Nat.le_succ i) (fun _ mem => nomatch mem)

/-- A node none of whose parts is an empty block. -/
theorem full (parts : Chain (Laid T) a b os) (before : i ≤ a) (behind : b ≤ j) (some : i < j)
    (all : ∀ o ∈ os, o.vacant = false) :
    Laid T i j (.full ⟨(T.token i).span.start, T.stop j⟩ os) := by
  refine .node some.le (fun _ => some) parts (.refl os) before behind fun o mem none => ?_
  rw [all o mem] at none
  cases none

/-- A node between whose first and last token all parts stand, in whatever order they are named. -/
theorem enclosed (parts : Chain (Laid T) a b os) (perm : os.Perm ps) (before : i < a)
    (behind : b < j) : Laid T i j (.full ⟨(T.token i).span.start, T.stop j⟩ ps) := by
  have some : i < j := before.trans_le (parts.le.trans behind.le)
  refine .node some.le (fun _ => some) parts perm before.le behind.le
    fun o mem _ => ⟨before, .inl ?_⟩
  obtain ⟨first, last, after, until_, here⟩ := parts.mem (perm.mem_iff.mpr mem)
  exact ⟨first, before.le.trans after, (here.le.trans until_).trans_lt behind, here.start⟩

/-- A node that starts with another one. -/
theorem grown (first : Laid T i j o) (full : o.vacant = false) (rest : Chain (Laid T) j k os)
    (all : ∀ o ∈ os, o.vacant = false) :
    Laid T i k (.full ⟨(T.token i).span.start, T.stop k⟩ (o :: os)) :=
  .full (first.among.chain rest) (Nat.le_refl i) (Nat.le_refl k) ((first.lt full).trans_le rest.le)
    (List.forall_mem_cons.mpr ⟨full, all⟩)

/-- A node that goes on with further parts. -/
theorem continued {s : Span} (h : Laid T i j (.full s ps)) (more : Chain (Laid T) j k os)
    (all : ∀ o ∈ ps ++ os, o.vacant = false) :
    Laid T i k (.full ⟨(T.token i).span.start, T.stop k⟩ (ps ++ os)) := by
  have some : i < k := (h.lt rfl).trans_le more.le
  cases h with
  | @node _ _ first last _ _ _ sorted _ _ chain perm before behind _ =>
    refine .node some.le (fun _ => some) (chain.append more behind) (perm.append_right os) before
      (Nat.le_refl k) fun o mem none => ?_
    rw [all o mem] at none
    cases none

/-- The first branch of an `IF` takes the terminator, which the further ones only know of. -/
theorem closing {s w : Span} (h : Laid T i j (.node s false (some w) ps)) :
    Laid T i (j + 1) (.full ⟨(T.token i).span.start, T.stop (j + 1)⟩ ps) := by
  cases h with
  | @node _ _ first last _ _ _ sorted le strict chain perm before behind empty =>
    refine .node (le.trans (Nat.le_succ j)) (fun _ => (strict rfl).trans (Nat.lt_succ_self j)) chain
      perm before (behind.trans (Nat.le_succ j)) fun o mem none => ?_
    obtain ⟨a, b, after, until_, here⟩ := chain.mem (perm.mem_iff.mpr mem)
    refine ⟨(empty o mem none).1, .inl ⟨a, before.trans after, ?_, here.start⟩⟩
    exact Nat.lt_succ_of_le (here.le.trans (until_.trans behind))

end Laid

/-! ## Nodes in order -/

/-- How a node stands in the text, and its parts in it: it starts where a token starts and stops
where one stops, its parts stand within it, and they do not overlap.  What is said of an empty
block is that both its ends stand within its parent.  In the branch of an `ELSE IF` it may instead
start at the token with which the whole `IF` ends. -/
structure SpanTree.Fits (tokens : List Token) (o : SpanTree) : Prop where
  solid : o.vacant = false → o.span.start.offset < o.span.stop.offset
  starts : o.vacant = false → ∃ t ∈ tokens, t.span.start = o.span.start
  stops : o.vacant = false → ∃ t ∈ tokens, t.span.stop = o.span.stop
  stopsWithin : ∀ p ∈ o.parts, o.span.start.offset ≤ p.span.stop.offset ∧
    p.span.stop.offset ≤ o.span.stop.offset
  startsWithin : ∀ p ∈ o.parts, o.span.start.offset ≤ p.span.start.offset ∧
    (p.span.start.offset ≤ o.span.stop.offset ∨
      p.vacant = true ∧ ∃ w t, o.whole = some w ∧ t ∈ tokens ∧ t.span.start = p.span.start ∧
        t.span.stop = w.stop)
  apart : o.parts.Pairwise fun p q => p.vacant = false → q.vacant = false →
    p.span.stop.offset ≤ q.span.start.offset ∨ q.span.stop.offset ≤ p.span.start.offset

/-- The tokens stand in order, and up to a number none of them is the end of input. -/
structure Tape.Sorted (T : Tape) (n : Nat) : Prop where
  ordered : T.tokens.Pairwise fun t u => t.span.stop.offset ≤ u.span.start.offset
  forward : ∀ t ∈ T.tokens, t.span.start.offset ≤ t.span.stop.offset
  solid : ∀ t ∈ T.tokens, t.kind ≠ .eof → t.span.start.offset < t.span.stop.offset
  proper : ∀ k < n, (T.token k).kind ≠ .eof

namespace Tape

theorem token_eq (inside : k < T.tokens.length) : T.token k = T.tokens[k] := by
  rw [token, List.getElem?_eq_getElem inside, Option.getD_some]

theorem getElem?_token (some : (T.token k).kind ≠ .eof) : T.tokens[k]? = .some (T.token k) := by
  have inside : k < T.tokens.length := by
    by_contra beyond
    refine some ?_
    rw [token, List.getElem?_eq_none (Nat.le_of_not_lt beyond)]
    exact T.eof
  rw [token_eq inside, List.getElem?_eq_getElem inside]

namespace Sorted

variable {n : Nat}

theorem lt_length (h : T.Sorted n) (below : k < n) : k < T.tokens.length :=
  (List.getElem?_eq_some_iff.mp (getElem?_token (h.proper k below))).1

theorem mem (inside : k < T.tokens.length) : T.token k ∈ T.tokens := by
  rw [token_eq inside]
  exact List.getElem_mem inside

theorem stop_le_start (h : T.Sorted n) (before : i < k) (inside : k < T.tokens.length) :
    (T.token i).span.stop.offset ≤ (T.token k).span.start.offset := by
  rw [token_eq inside, token_eq (before.trans inside)]
  exact List.pairwise_iff_getElem.mp h.ordered i k (before.trans inside) inside before

theorem start_le_start (h : T.Sorted n) (le : i ≤ k) (inside : k < T.tokens.length) :
    (T.token i).span.start.offset ≤ (T.token k).span.start.offset := by
  rcases Nat.eq_or_lt_of_le le with rfl | before
  · exact Int.le_refl _
  · exact Int.le_trans (h.forward _ (mem (before.trans inside))) (h.stop_le_start before inside)

theorem start_lt_stop (h : T.Sorted n) (before : i < j) (below : j ≤ n) :
    (T.token i).span.start.offset < (T.stop j).offset := by
  obtain ⟨k, rfl⟩ : ∃ k, j = k + 1 := ⟨j - 1, by omega⟩
  have inside := h.lt_length (Nat.lt_of_succ_le below)
  have strict := h.solid _ (mem inside) (h.proper k (Nat.lt_of_succ_le below))
  exact Int.lt_of_le_of_lt (h.start_le_start (Nat.le_of_lt_succ before) inside) strict

/-- The tokens before a number end before those from it on start. -/
theorem end_le_start (h : T.Sorted n) (le : i ≤ k) (inside : k < T.tokens.length) :
    (T.stop i).offset ≤ (T.token k).span.start.offset := by
  cases i with
  | zero => exact h.start_le_start (Nat.zero_le k) inside
  | succ i => exact h.stop_le_start le inside

theorem end_le_end (h : T.Sorted n) (le : i ≤ j) (below : j ≤ n) :
    (T.stop i).offset ≤ (T.stop j).offset := by
  rcases Nat.eq_or_lt_of_le le with rfl | before
  · exact Int.le_refl _
  · obtain ⟨k, rfl⟩ : ∃ k, j = k + 1 := ⟨j - 1, by omega⟩
    have inside := h.lt_length (Nat.lt_of_succ_le below)
    exact Int.le_trans (h.end_le_start (Nat.le_of_lt_succ before) inside)
      (h.forward _ (mem inside))

end Sorted

end Tape

namespace Chain

/-- Trees in a chain stand one behind the other. -/
theorem pairwise (h : Chain (Laid T) i j os) : os.Pairwise fun p q =>
    ∃ a b c d, Laid T a b p ∧ b ≤ c ∧ Laid T c d q ∧ d ≤ j := by
  induction h with
  | nil => exact .nil
  | @cons i a b j o os before here rest ih =>
    refine List.pairwise_cons.mpr ⟨fun q later => ?_, ih⟩
    obtain ⟨c, d, le, behind, there⟩ := rest.mem later
    exact ⟨a, b, c, d, here, le, there, behind⟩

end Chain

namespace Laid

variable {n : Nat}

/-- What is in a node that is laid out is laid out among its tokens. -/
theorem has (h : Laid T i j o) {p : SpanTree} (inside : o.Has p) : Among T i j p := by
  induction inside generalizing i j with
  | self => exact h.among
  | part mem _ ih =>
    cases h with
    | node _ _ parts perm before behind _ =>
      obtain ⟨a, b, first, last, there⟩ := parts.mem (perm.mem_iff.mpr mem)
      obtain ⟨c, d, first', last', here⟩ := ih there
      exact ⟨c, d, before.trans (first.trans first'), last'.trans (last.trans behind), here⟩

/-- Over tokens in order, what is laid out fits. -/
theorem fits (sorted : T.Sorted n) (h : Laid T i j o) (below : j ≤ n) : o.Fits T.tokens := by
  cases h with
  | @node i j first last vacant whole parts os le some chain perm before behind empty =>
    refine ⟨fun full => ?_, fun full => ?_, fun full => ?_, fun p mem => ?_, fun p mem => ?_, ?_⟩
    · exact sorted.start_lt_stop (some full) below
    · have inside := sorted.lt_length ((some full).trans_le below)
      exact ⟨_, Tape.Sorted.mem inside, rfl⟩
    · obtain ⟨k, rfl⟩ : ∃ k, j = k + 1 := ⟨j - 1, by have := some full; omega⟩
      exact ⟨_, Tape.Sorted.mem (sorted.lt_length below), rfl⟩
    · obtain ⟨a, b, after, until_, here⟩ := chain.mem (perm.mem_iff.mpr mem)
      have begun : i < b := by
        cases full : p.vacant with
        | false => exact (before.trans after).trans_lt (here.lt full)
        | true => exact (empty p mem full).1.trans_le (after.trans here.le)
      have within : b ≤ j := until_.trans behind
      rw [here.span]
      exact ⟨Int.le_of_lt (sorted.start_lt_stop begun (within.trans below)),
        sorted.end_le_end within below⟩
    · obtain ⟨a, b, after, until_, here⟩ := chain.mem (perm.mem_iff.mpr mem)
      have begun : i ≤ a := before.trans after
      have within : b ≤ j := until_.trans behind
      rw [here.span]
      by_cases inside : a < j
      · have first := sorted.start_le_start begun (sorted.lt_length (inside.trans_le below))
        exact ⟨first, .inl (Int.le_of_lt (sorted.start_lt_stop inside below))⟩
      · -- Only an empty block can start where the node stops.
        have same : a = j := Nat.le_antisymm (here.le.trans within) (Nat.le_of_not_lt inside)
        subst same
        have vacant : p.vacant = true := by
          by_contra full
          have strict := here.lt (Bool.eq_false_iff.mpr full)
          omega
        obtain ⟨-, ⟨a', begun', inside', start⟩ | ⟨w, t, further, found, ends⟩⟩ :=
          empty p mem vacant
        · rw [← here.start, start]
          have first := sorted.start_le_start begun' (sorted.lt_length (inside'.trans_le below))
          exact ⟨first, .inl (Int.le_of_lt (sorted.start_lt_stop inside' below))⟩
        · have length : a < T.tokens.length := (List.getElem?_eq_some_iff.mp found).1
          have token : T.token a = t := by rw [Tape.token, found, Option.getD_some]
          refine ⟨sorted.start_le_start begun length, .inr ⟨vacant, w, t, further, ?_, ?_, ends⟩⟩
          · exact List.mem_of_getElem? found
          · rw [token]
    · refine (perm.pairwise_iff ?_).mp (chain.pairwise.imp ?_)
      · intro p q apart full full'
        exact (apart full' full).symm
      · rintro p q ⟨a, b, c, d, first, between, second, until_⟩ full full'
        have inside := sorted.lt_length
          ((second.lt full').trans_le (until_.trans (behind.trans below)))
        rw [first.span, second.span]
        exact .inl (sorted.end_le_start between inside)

end Laid

end Pseudocode
