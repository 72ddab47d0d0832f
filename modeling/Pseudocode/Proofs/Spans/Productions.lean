import Pseudocode.Grammar.Program
import Pseudocode.Proofs.Spans.Running
/-
# `Proofs.Spans.Productions` — each production lays its node out

What a production returns is laid out over the tokens that it took (`Rules.Lays`).  An expression
stands among them, since its parentheses leave no node.  The operators and brackets behind an
operand extend a node that was laid out already, and what they make of it starts where that
started.
-/
namespace Pseudocode

open Grammar

/-- The rules lay out what they return over the tokens that they take. -/
structure Grammar.Rules.Lays (T : Tape) (r : Rules) : Prop where
  expr : ∀ least k, T.Runs (r.expr least) k fun e k' => Among T k k' e.spanTree
  block : ∀ closers k, T.Runs (r.block closers) k fun b k' => Laid T k k' b.spanTree

/-- What is laid out over the tokens that were taken stands among them. -/
theorem Tape.Runs.among {α : Type} {T : Tape} {p : Parser α} {k : Nat} {tree : α → SpanTree}
    (h : T.Runs p k fun a k' => Laid T k k' (tree a)) :
    T.Runs p k fun a k' => Among T k k' (tree a) :=
  h.mono fun _ _ laid => laid.among

namespace Grammar.Rules.Lays

open Tape (not_eof)
open Tape.Runs (pure close)

variable {T : Tape} {r : Rules} {i j k n : Nat}

/-! ## Expressions -/

theorem chain (h : r.Lays T) (n k : Nat) :
    T.Runs (chain r n) k fun steps k' => Chain (Laid T) k k' (chainSpanTrees steps) := by
  induction n generalizing k with
  | zero => exact .exhausted
  | succ n ih =>
    refine .peek ?_
    split
    · next dot =>
      refine .drop (not_eof dot nofun) (.takeOf nofun (close ?_))
      refine (ih (k + 2)).bind fun steps k' rest => pure ?_
      have step : Laid T k (k + 2) (.full ⟨(T.token k).span.start, T.stop (k + 2)⟩ []) :=
        .enclosed (.nil (Nat.le_refl (k + 1))) (.refl []) (by omega) (by omega)
      exact step.among.chain rest
    · next bracket =>
      refine .drop (not_eof bracket nofun) (.skip fun k₁ opened => ?_)
      refine (h.expr 0 k₁).bind fun key k₂ inside => .skip fun k₃ closed => ?_
      refine .dropOf nofun (close ((ih (k₃ + 1)).bind fun steps k' rest => pure ?_))
      have step : Laid T k (k₃ + 1)
          (.full ⟨(T.token k).span.start, T.stop (k₃ + 1)⟩ [key.spanTree]) :=
        .enclosed inside.single (.refl _) (by omega) (by omega)
      exact step.among.chain rest
    · exact pure (.nil (Nat.le_refl k))

theorem target (h : r.Lays T) : T.Runs (target r n) k fun t k' => Laid T k k' t.spanTree := by
  refine .takeOf nofun ((h.chain n (k + 1)).bind fun steps k' rest => close (pure ?_))
  have some : k < k' := rest.le
  exact .full rest (Nat.le_succ k) (Nat.le_refl k') some (vacant_chainSpanTrees steps)

theorem exprList (h : r.Lays T) (closer : Kind) (n k : Nat) :
    T.Runs (exprList r closer n) k fun es k' => Chain (Laid T) k k' (exprsSpanTrees es) := by
  induction n generalizing k with
  | zero => exact .exhausted
  | succ n ih =>
    refine .next (fun _ => pure (.nil (Nat.le_refl k))) fun _ => ?_
    refine (h.expr 0 k).bind fun e k₁ first => .skip fun k₂ after => ?_
    refine .next (fun comma => ?_) fun _ => ?_
    · refine .drop (not_eof comma nofun) (.skip fun k₃ behind => ?_)
      refine (ih k₃).bind fun es k' rest => pure ?_
      exact first.before (by omega) rest
    · exact pure (first.single.widen (Nat.le_refl k) after)

theorem bracketed (h : r.Lays T) (closer : Kind) (proper : closer ≠ .eof) :
    T.Runs (bracketed r n closer) k fun es k' => Chain (Laid T) k k' (exprsSpanTrees es) := by
  refine .skip fun k₁ opened => (h.exprList closer n k₁).bind fun es k₂ inside => ?_
  exact .dropOf proper (pure (inside.widen opened (Nat.le_succ k₂)))

theorem entries (h : r.Lays T) (n k : Nat) :
    T.Runs (entries r n) k fun es k' => Chain (Laid T) k k' (entriesSpanTrees es) := by
  induction n generalizing k with
  | zero => exact .exhausted
  | succ n ih =>
    refine .next (fun _ => pure (.nil (Nat.le_refl k))) fun _ => ?_
    refine (h.expr 0 k).bind fun key k₁ first => .skip fun k₂ after => .dropOf nofun ?_
    refine .skip fun k₃ behind => (h.expr 0 k₃).bind fun value k₄ second => .skip fun k₅ later => ?_
    have pair {os : List SpanTree} {k' : Nat} (rest : Chain (Laid T) k₅ k' os) :
        Chain (Laid T) k k' (key.spanTree :: value.spanTree :: os) :=
      first.before (by omega) (second.before later rest)
    refine .next (fun comma => ?_) fun _ => pure (pair (.nil (Nat.le_refl k₅)))
    refine .drop (not_eof comma nofun) (.skip fun k₆ next => ?_)
    refine (ih k₆).bind fun es k' rest => pure ?_
    exact pair (rest.widen (by omega) (Nat.le_refl k'))

theorem moreArguments (h : r.Lays T) (n k : Nat) :
    T.Runs (moreArguments r n) k fun es k' => Chain (Laid T) k k' (exprsSpanTrees es) := by
  induction n generalizing k with
  | zero => exact .exhausted
  | succ n ih =>
    refine .next (fun comma => ?_) fun _ => pure (.nil (Nat.le_refl k))
    refine .drop (not_eof comma nofun) ((h.expr 0 (k + 1)).bind fun e k₁ first => ?_)
    refine (ih k₁).bind fun es k' rest => pure ?_
    exact (first.chain rest).widen (Nat.le_succ k) (Nat.le_refl k')

theorem magic (h : r.Lays T) (word : Magic) (some : (T.token k).kind ≠ .eof) :
    T.Runs (magic r n word) k fun e k' => Laid T k k' e.spanTree := by
  have arguments : T.Runs (arguments r n) (k + 1) fun es k' =>
      Chain (Laid T) (k + 1) k' (exprsSpanTrees es) := by
    refine .peekKind ?_
    split
    · exact pure (.nil (Nat.le_refl (k + 1)))
    · refine (h.expr 0 (k + 1)).bind fun e k₁ first => ?_
      exact (h.moreArguments n k₁).bind fun es k' rest => pure (first.chain rest)
  refine .take some (arguments.bind fun es k' inside => close (pure ?_))
  have some : k < k' := inside.le
  exact .full inside (Nat.le_succ k) (Nat.le_refl k') some (vacant_exprsSpanTrees es)

theorem unary (h : r.Lays T) (op : UnaryOp) (some : (T.token k).kind ≠ .eof) :
    T.Runs (unary r op) k fun e k' => Laid T k k' e.spanTree := by
  refine .take some ((h.expr unaryPower (k + 1)).bind fun e k' inside => close (pure ?_))
  have some : k < k' := inside.le
  exact .full inside.single (Nat.le_succ k) (Nat.le_refl k') some
    (List.forall_mem_singleton.mpr e.vacant_spanTree)

theorem operand (h : r.Lays T) (n k : Nat) :
    T.Runs (operand r n) k fun e k' => Among T k k' e.spanTree := by
  have leaf : Among T k (k + 1) (.full (T.token k).span []) := (Laid.leaf T k).among
  refine .reaching fun reached => .peek ?_
  split
  case h_1 kind =>
    refine .drop (not_eof kind nofun) ?_
    split
    · exact pure leaf
    · exact .refuse reached
  case h_2 kind =>
    refine .drop (not_eof kind nofun) ?_
    split
    · exact pure leaf
    · exact .refuse reached
  case h_3 kind | h_4 kind | h_5 kind => exact .drop (not_eof kind nofun) (pure leaf)
  case h_6 => exact h.target.bind fun t k' laid => pure laid.among
  case h_7 kind =>
    -- Parentheses stand around the node.
    refine .drop (not_eof kind nofun) (.skip fun k₁ opened => ?_)
    refine (h.expr 0 k₁).bind fun e k₂ inside => ?_
    exact .skip fun k₃ closed => .dropOf nofun (pure (inside.widen (by omega) (by omega)))
  case h_8 kind | h_9 kind | h_10 kind =>
    exact (h.unary _ (not_eof kind nofun)).among
  case h_11 kind =>
    refine .drop (not_eof kind nofun) ?_
    refine (h.bracketed .rightBracket nofun).bind fun es k' inside => close (pure ?_)
    have some : k < k' := inside.le
    exact (Laid.full inside (Nat.le_succ k) (Nat.le_refl k') some (vacant_exprsSpanTrees es)).among
  case h_12 kind =>
    refine .drop (not_eof kind nofun) (.skip fun k₁ opened => ?_)
    refine (h.entries n k₁).bind fun es k₂ inside => ?_
    refine .dropOf nofun (close (pure ?_))
    have laid := Laid.enclosed inside (.refl _) (i := k) (by omega) (Nat.lt_succ_self k₂)
    exact laid.among
  case h_13 kind | h_14 kind | h_15 kind | h_16 kind | h_17 kind =>
    exact (h.magic _ (not_eof kind nofun)).among
  case h_18 => exact .unexpected

/-! What follows an operand goes on with a node that was laid out before. -/

/-- What is made of a node that is laid out from a number on, before a second one. -/
def Extends (T : Tape) (i : Nat) (e : Expr) (k : Nat) : Prop := ∃ j, j ≤ k ∧ Laid T i j e.spanTree

theorem indexed {left : Expr} {steps : List Index} (laid : Laid T i j left.spanTree)
    (more : Chain (Laid T) j k (chainSpanTrees steps)) :
    T.Runs (indexed left steps) k (Extends T i) := by
  have start := laid.start
  have fresh : Laid T i k (.full ⟨(T.token i).span.start, T.stop k⟩
      (left.spanTree :: chainSpanTrees steps)) :=
    laid.grown left.vacant_spanTree more (vacant_chainSpanTrees steps)
  rw [Expr.span_spanTree] at start
  cases left with
  | item s base chain =>
    refine close (pure ⟨k, Nat.le_refl k, ?_⟩)
    have all : ∀ o ∈ (base.spanTree :: chainSpanTrees chain) ++ chainSpanTrees steps,
        o.vacant = false := by
      rw [List.cons_append, ← chainSpanTrees_append]
      exact List.forall_mem_cons.mpr ⟨base.vacant_spanTree, vacant_chainSpanTrees _⟩
    have joined := laid.continued more all
    rw [List.cons_append, ← chainSpanTrees_append, ← start] at joined
    exact joined
  | _ =>
    refine close (pure ⟨k, Nat.le_refl k, ?_⟩)
    rw [← start] at fresh
    exact fresh

theorem extension (h : r.Lays T) {left : Expr} (laid : Laid T i j left.spanTree) (le : j ≤ k) :
    T.Runs (extension r n left) k (Extends T i) := by
  have start := laid.start
  rw [Expr.span_spanTree] at start
  have full := left.vacant_spanTree
  have steps : T.Runs (Grammar.chain r n >>= Grammar.indexed left) k (Extends T i) :=
    (h.chain n k).bind fun steps k' more => indexed laid (more.widen le (Nat.le_refl k'))
  refine .peekKind ?_
  split
  case h_1 kind =>
    refine .drop (not_eof kind nofun) ?_
    refine (h.bracketed .rightParen nofun).bind fun es k' inside => close (pure ?_)
    refine ⟨k', Nat.le_refl k', ?_⟩
    rw [start]
    exact laid.grown full (inside.widen (by omega) (Nat.le_refl k')) (vacant_exprsSpanTrees es)
  case h_2 => exact steps
  case h_3 => exact steps
  case h_4 =>
    split
    · next op found =>
      have some : (T.token k).kind ≠ .eof := by
        intro eof
        rw [eof] at found
        cases found
      refine .drop some (.skip fun k₁ after => ?_)
      refine (h.expr _ k₁).bind fun right k' inside => close (pure ?_)
      refine ⟨k', Nat.le_refl k', ?_⟩
      rw [start]
      exact laid.grown full (inside.single.widen (by omega) (Nat.le_refl k'))
        (List.forall_mem_singleton.mpr right.vacant_spanTree)
    · exact pure ⟨j, le, laid⟩

theorem extend (h : r.Lays T) (least n : Nat) {left : Expr} {k : Nat} (le : Extends T i left k) :
    T.Runs (extend r least n left) k (Extends T i) := by
  induction n generalizing left k with
  | zero => exact .exhausted
  | succ n ih =>
    obtain ⟨j, le, laid⟩ := le
    refine .peekKind ?_
    split
    · exact pure ⟨j, le, laid⟩
    · exact (h.extension laid le).bind fun e k' more => ih more

theorem expression (h : r.Lays T) (least : Nat) :
    T.Runs (Grammar.expr r n least) k fun e k' => Among T k k' e.spanTree := by
  refine (h.operand n k).bind fun left k₁ inside => ?_
  obtain ⟨i, j, begun, ended, laid⟩ := inside
  refine (h.extend least n ⟨j, ended, laid⟩).mono fun e k' ⟨j', ended', laid'⟩ => ?_
  exact ⟨i, j', begun, ended', laid'⟩

/-! ## Assignments -/

theorem assigned (h : r.Lays T) (some : (T.token k).kind ≠ .eof) :
    T.Runs (assigned r) k fun e k' => Among T (k + 1) k' e.spanTree := by
  refine .drop some (.skip fun k₁ after => (h.expr 0 k₁).mono fun e k' inside => ?_)
  exact inside.widen after (Nat.le_refl k')

theorem constant (h : r.Lays T) (some : (T.token k).kind ≠ .eof) :
    T.Runs (constant r n) k fun s k' => Among T k k' s.spanTree := by
  refine .reaching fun reached => .take some ?_
  refine h.target.bind fun left k₁ before => .skipType fun k₂ after => ?_
  refine .asked (.needs .unexpected fun arrow => ?_)
  refine (h.assigned (not_eof (beq_iff_eq.mp arrow) nofun)).bind fun value k' inside => ?_
  refine .needs (.refuse reached) fun _ => close (pure ?_)
  have parts : Chain (Laid T) (k + 1) k' [left.spanTree, value.spanTree] :=
    before.among.before (by omega) inside.single
  have some : k < k' := parts.le
  have all : ∀ o ∈ [left.spanTree, value.spanTree], o.vacant = false :=
    List.forall_mem_cons.mpr ⟨rfl, List.forall_mem_singleton.mpr value.vacant_spanTree⟩
  exact (Laid.full parts (Nat.le_succ k) (Nat.le_refl k') some all).among

theorem named (h : r.Lays T) : T.Runs (named r n) k fun s k' => Among T k k' s.spanTree := by
  refine .get fun c here => h.target.bind fun left k₁ laid => .skipType fun k₂ after => ?_
  refine .next (fun arrow => ?_) fun _ => ?_
  · refine (h.assigned (not_eof arrow nofun)).bind fun value k' inside => close (pure ?_)
    have start : left.span.start = (T.token k).span.start := laid.start
    have grown := laid.grown rfl (inside.single.widen (by omega) (Nat.le_refl k'))
      (List.forall_mem_singleton.mpr value.vacant_spanTree)
    rw [← start] at grown
    exact grown.among
  · exact .set here ((h.expr 0 k).bind fun e k' inside => pure inside)

/-! ## Choices and loops -/

/-- A branch is laid out up to the token that closes the whole `IF`, which it does not take. -/
def Open (T : Tape) (i : Nat) (b : Branch) (j : Nat) : Prop :=
  ∀ w t, T.tokens[j]? = some t → t.span.stop = w.stop → Laid T i j (b.spanTree (some w))

theorem openBranch {condition : Expr} {consequence : Block} {alternative : Otherwise}
    {k₁ k₂ k₃ : Nat} (begun : Among T (k + 1) k₁ condition.spanTree) (between : k₁ ≤ k₂)
    (middle : Laid T (k₂ + 1) k₃ consequence.spanTree)
    (rest : ∀ w t, T.tokens[j]? = some t → t.span.stop = w.stop →
      Chain (Laid T) k₃ j (alternative.spanTrees w)) :
    Open T k (.mk ⟨(T.token k).span.start, T.stop j⟩ condition consequence alternative) j := by
  intro w t found ends
  have parts : Chain (Laid T) (k + 1) j
      (condition.spanTree :: consequence.spanTree :: alternative.spanTrees w) :=
    begun.before (by omega) (middle.among.chain (rest w t found ends))
  have some : k < j := parts.le
  exact .node some.le (fun _ => some) parts (.refl _) (Nat.le_succ k) (Nat.le_refl j)
    fun _ _ _ => ⟨Nat.lt_succ_self k, .inr ⟨w, t, rfl, found, ends⟩⟩

theorem branch (h : r.Lays T) (n : Nat) {k : Nat} (some : (T.token k).kind ≠ .eof) :
    T.Runs (branch r n) k (Open T k) := by
  induction n generalizing k with
  | zero => exact .exhausted
  | succ n ih =>
    refine .take some ((h.expr 0 (k + 1)).bind fun condition k₁ begun => .skip fun k₂ between => ?_)
    refine .dropOf nofun ((h.block _ (k₂ + 1)).bind fun consequence k₃ middle => ?_)
    refine .next (fun other => .drop (not_eof other nofun) (.next (fun again => ?_) fun _ => ?_))
      fun _ => ?_
    · refine (ih (not_eof again nofun)).bind fun more k' further => close (pure ?_)
      refine openBranch begun between middle fun w t found ends => ?_
      exact (Chain.single (further w t found ends)).widen (Nat.le_succ k₃) (Nat.le_refl k')
    · refine (h.block _ (k₃ + 1)).bind fun body k' further => close (pure ?_)
      refine openBranch begun between middle fun w t found ends => ?_
      exact (Chain.single further).widen (Nat.le_succ k₃) (Nat.le_refl k')
    · exact close (pure (openBranch begun between middle fun _ _ _ _ => .nil (Nat.le_refl k₃)))

theorem choice (h : r.Lays T) (some : (T.token k).kind ≠ .eof) :
    T.Runs (choice r n) k fun s k' => Laid T k k' s.spanTree := by
  refine (h.branch n some).bind fun b k₁ laid => .finish nofun fun there => ?_
  obtain ⟨s, condition, consequence, alternative⟩ := b
  have found : T.tokens[k₁]? = .some (T.token k₁) := Tape.getElem?_token there
  have whole := (laid ⟨(T.token k).span.start, T.stop (k₁ + 1)⟩ _ found rfl)
  have start : s.start = (T.token k).span.start := whole.start
  have closed : T.Runs (closed (.mk s condition consequence alternative)) (k₁ + 1) fun b k' =>
      Laid T k k' (b.spanTree none) := by
    refine close (pure ?_)
    rw [start]
    exact whole.closing
  exact closed.bind fun b k' laid => pure laid

theorem whileLoop (h : r.Lays T) (some : (T.token k).kind ≠ .eof) :
    T.Runs (whileLoop r) k fun s k' => Laid T k k' s.spanTree := by
  refine .take some ((h.expr 0 (k + 1)).bind fun condition k₁ first => ?_)
  refine (h.block _ k₁).bind fun body k₂ second => .finish nofun fun _ => close (pure ?_)
  have parts := first.chain (.single second)
  exact .enclosed parts (.refl _) (Nat.lt_succ_self k) (Nat.lt_succ_self k₂)

/-- The body of a `REPEAT` may be empty, but then `UNTIL` stands behind it. -/
theorem repeatLoop (h : r.Lays T) (some : (T.token k).kind ≠ .eof) :
    T.Runs (repeatLoop r) k fun s k' => Laid T k k' s.spanTree := by
  refine .take some ((h.block _ (k + 1)).bind fun body k₁ first => .dropOf nofun ?_)
  refine (h.expr 0 (k₁ + 1)).bind fun condition k₂ second => close (pure ?_)
  have parts : Chain (Laid T) (k + 1) k₂ [body.spanTree, condition.spanTree] :=
    first.among.before (Nat.le_succ k₁) second.single
  have begun := first.le
  have ended := second.le
  refine .node (by omega) (fun _ => by omega) parts (.refl _) (Nat.le_succ k) (Nat.le_refl k₂)
    fun o mem vacant => ⟨Nat.lt_succ_self k, .inl ⟨k + 1, Nat.le_succ k, by omega, ?_⟩⟩
  rcases List.mem_cons.mp mem with rfl | later
  · exact first.start
  · obtain rfl := List.mem_singleton.mp later
    rw [condition.vacant_spanTree] at vacant
    cases vacant

theorem forBody (h : r.Lays T) :
    T.Runs (forBody r) k fun b k' => ∃ j, k' = j + 1 ∧ Laid T k j b.spanTree :=
  (h.block _ k).bind fun _ k₁ laid => .finish nofun fun _ => pure ⟨k₁, rfl, laid⟩

theorem forLoop (h : r.Lays T) (some : (T.token k).kind ≠ .eof) :
    T.Runs (forLoop r) k fun s k' => Laid T k k' s.spanTree := by
  refine .take some (.takeOf nofun (.peekKind ?_))
  split
  case h_1 kind =>
    refine .drop (not_eof kind nofun) ?_
    refine (h.expr 0 (k + 3)).bind fun first k₁ begun => .dropOf nofun ?_
    refine (h.expr 0 (k₁ + 1)).bind fun last k₂ ended => .next (fun step => ?_) fun _ => ?_
    · refine .drop (not_eof step nofun) ((h.expr 0 (k₂ + 1)).bind fun size k₃ sized => ?_)
      refine .bind (P := fun o k' => o = .some size ∧ k' = k₃) (pure ⟨rfl, rfl⟩) ?_
      rintro _ _ ⟨rfl, rfl⟩
      refine h.forBody.bind fun body k' ⟨k₄, taken, inside⟩ => close (pure ?_)
      subst taken
      have parts := begun.before (Nat.le_succ k₁) (ended.before (Nat.le_succ k₂)
        (sized.chain (.single inside)))
      exact .enclosed parts (.refl _) (by omega) (Nat.lt_succ_self k₄)
    · refine .bind (P := fun o k' => o = .none ∧ k' = k₂) (pure ⟨rfl, rfl⟩) ?_
      rintro _ _ ⟨rfl, rfl⟩
      refine h.forBody.bind fun body k' ⟨k₄, taken, inside⟩ => close (pure ?_)
      subst taken
      have parts := begun.before (Nat.le_succ k₁) (ended.chain (.single inside))
      exact .enclosed parts (.refl _) (by omega) (Nat.lt_succ_self k₄)
  case h_2 kind =>
    refine .drop (not_eof kind nofun) ((h.expr 0 (k + 3)).bind fun iterable k₁ begun => ?_)
    refine h.forBody.bind fun body k' ⟨k₂, taken, inside⟩ => close (pure ?_)
    subst taken
    exact .enclosed (begun.chain (.single inside)) (.refl _) (by omega) (Nat.lt_succ_self k₂)
  case h_3 => exact .unexpected

/-! ## Definitions -/

theorem fields (n k : Nat) : T.Runs (fields n) k fun _ k' => k ≤ k' := by
  induction n generalizing k with
  | zero => exact .exhausted
  | succ n ih =>
    have rest (name : String) {i : Nat} (later : k ≤ i) :
        T.Runs (skipNewlines >>= fun _ => Grammar.fields n >>= fun names =>
          Pure.pure (name :: names)) i fun _ k' => k ≤ k' :=
      .skip fun k₁ after => (ih k₁).bind fun names k' more => pure (by omega)
    refine .oneOf (fun _ => pure (Nat.le_refl k)) (.takeOf nofun (.skipType fun k₁ after => ?_))
    refine .next (fun comma => ?_) fun _ => .nextIn (.needs .unexpected fun _ => rest _ (by omega))
    exact .drop (not_eof comma nofun) (rest _ (by omega))

theorem record (some : (T.token k).kind ≠ .eof) :
    T.Runs (record n) k fun s k' => Laid T k k' s.spanTree := by
  refine .take some (.takeOf nofun (.skip fun k₁ after => ?_))
  refine (fields n k₁).bind fun names k₂ more => .finish nofun fun _ => close (pure ?_)
  exact .enclosed (.nil (Nat.le_refl k₂)) (.refl _) (by omega) (Nat.lt_succ_self k₂)

theorem attempt (h : r.Lays T) (some : (T.token k).kind ≠ .eof) :
    T.Runs (attempt r) k fun s k' => Laid T k k' s.spanTree := by
  refine .take some ((h.block _ (k + 1)).bind fun body k₁ first => .dropOf nofun ?_)
  refine (h.block _ (k₁ + 1)).bind fun rescue k₂ second => .finish nofun fun _ => close (pure ?_)
  have parts := first.among.before (Nat.le_succ k₁) (.single second)
  exact .enclosed parts (.refl _) (Nat.lt_succ_self k) (Nat.lt_succ_self k₂)

theorem params (n k : Nat) :
    T.Runs (params n) k fun ps k' => Chain (Laid T) k k' (ps.map Param.spanTree) := by
  induction n generalizing k with
  | zero => exact .exhausted
  | succ n ih =>
    refine .next (fun _ => pure (.nil (Nat.le_refl k))) fun _ => .takeOf nofun ?_
    refine .skipType fun k₁ after => .skip fun k₂ later => .next (fun comma => ?_) fun _ => ?_
    · refine .drop (not_eof comma nofun) (.skip fun k₃ next => ?_)
      refine (ih k₃).bind fun ps k' rest => pure ?_
      exact (Laid.leaf T k).among.before (by omega) rest
    · exact pure ((Laid.leaf T k).among.before (by omega) (.nil (Nat.le_refl k₂)))

theorem paramList (n k : Nat) :
    T.Runs (paramList n) k fun ps k' => Chain (Laid T) k k' (ps.map Param.spanTree) :=
  .dropOf nofun (.skip fun k₁ opened => (params n k₁).bind fun ps k₂ inside =>
    .dropOf nofun (pure (inside.widen (by omega) (Nat.le_succ k₂))))

theorem routine (h : r.Lays T) (some : (T.token k).kind ≠ .eof) :
    T.Runs (routine r n) k fun d k' => Laid T k k' d.spanTree := by
  refine .take some (.takeOf nofun ((paramList n (k + 2)).bind fun ps k₁ first => ?_))
  refine (h.block _ k₁).bind fun body k₂ second => .finish nofun fun _ => close (pure ?_)
  have parts := first.append (.single second) (Nat.le_refl k₁)
  exact .enclosed parts (.refl _) (by omega) (Nat.lt_succ_self k₂)

theorem static (h : r.Lays T) (some : (T.token k).kind ≠ .eof) :
    T.Runs (static r) k fun a k' => Laid T k k' a.spanTree := by
  refine .take some (.skipType fun k₁ after => .dropOf nofun ?_)
  refine (h.expr 0 (k₁ + 1)).bind fun value k' inside => close (pure ?_)
  exact (Laid.leaf T k).grown rfl (inside.single.widen (by omega) (Nat.le_refl k'))
    (List.forall_mem_singleton.mpr value.vacant_spanTree)

/-- The tree of a member of a class. -/
def memberTree : Assignment ⊕ Routine → SpanTree := Sum.elim Assignment.spanTree Routine.spanTree

theorem member (h : r.Lays T) : T.Runs (member r n) k fun m k' => Laid T k k' (memberTree m) := by
  refine .peekKind ?_
  split
  · next kind => exact (h.routine (not_eof kind nofun)).bind fun d k' laid => pure laid
  · next kind => exact (h.static (not_eof kind nofun)).bind fun a k' laid => pure laid
  · exact .unexpected

theorem members (h : r.Lays T) (n k : Nat) :
    T.Runs (members r n) k fun ms k' => Chain (Laid T) k k' (ms.map memberTree) := by
  induction n generalizing k with
  | zero => exact .exhausted
  | succ n ih =>
    refine .skip fun k₁ after => .oneOf (fun _ => pure (.nil after)) ?_
    refine h.member.bind fun m k₂ laid => .nextIn (.needs .unexpected fun _ => ?_)
    exact (ih k₂).bind fun ms k' rest =>
      pure ((laid.among.chain rest).widen after (Nat.le_refl k'))

/-- The fields of a class stand among its methods, but the tree names the fields first. -/
theorem memberTrees_perm (ms : List (Assignment ⊕ Routine)) :
    (ms.map memberTree).Perm ((ms.filterMap Sum.getLeft?).map Assignment.spanTree ++
      routinesSpanTrees (ms.filterMap Sum.getRight?)) := by
  induction ms with
  | nil => exact .refl []
  | cons m ms ih =>
    cases m with
    | inl a => exact ih.cons a.spanTree
    | inr d => exact (ih.cons d.spanTree).trans List.perm_middle.symm

theorem classDef (h : r.Lays T) (some : (T.token k).kind ≠ .eof) :
    T.Runs (classDef r n) k fun s k' => Laid T k k' s.spanTree := by
  refine .take some (.takeOf nofun ((h.members n (k + 2)).bind fun ms k₁ inside => ?_))
  refine .finish nofun fun _ => close (pure ?_)
  exact .enclosed inside (memberTrees_perm ms) (by omega) (Nat.lt_succ_self k₁)

theorem load (h : r.Lays T) (some : (T.token k).kind ≠ .eof) :
    T.Runs (load r) k fun s k' => Laid T k k' s.spanTree := by
  refine .take some ((h.expr 0 (k + 1)).bind fun location k₁ inside => ?_)
  have le := inside.le
  have laid (nickname : String) {k' : Nat} (later : k₁ ≤ k') :
      Laid T k k' (Stmt.load ⟨(T.token k).span.start, T.stop k'⟩ location nickname).spanTree :=
    .full inside.single (Nat.le_succ k) later (by omega)
      (List.forall_mem_singleton.mpr location.vacant_spanTree)
  refine .next (fun word => .drop (not_eof word nofun) (.oneOf (fun mem => ?_) .unexpected))
    fun _ => ?_
  · have some : (T.token (k₁ + 1)).kind ≠ .eof := by
      intro eof
      rw [eof] at mem
      exact absurd mem (by decide)
    exact .take some (close (pure (laid _ (by omega))))
  · exact close (pure (laid _ (Nat.le_refl k₁)))

/-! ## Blocks and programs -/

theorem statement (h : r.Lays T) :
    T.Runs (statement r n) k fun s k' => Among T k k' s.spanTree := by
  refine .peekKind ?_
  split
  case h_1 kind => exact h.constant (not_eof kind nofun)
  case h_2 => exact h.named
  case h_3 kind => exact (h.choice (not_eof kind nofun)).among
  case h_4 kind => exact (h.whileLoop (not_eof kind nofun)).among
  case h_5 kind => exact (h.repeatLoop (not_eof kind nofun)).among
  case h_6 kind => exact (h.forLoop (not_eof kind nofun)).among
  case h_7 kind => exact (record (not_eof kind nofun)).among
  case h_8 kind => exact (h.attempt (not_eof kind nofun)).among
  case h_9 kind => exact (h.routine (not_eof kind nofun)).bind fun _ _ laid => pure laid.among
  case h_10 kind => exact (h.classDef (not_eof kind nofun)).among
  case h_11 kind => exact (h.load (not_eof kind nofun)).among
  case h_12 => exact (h.expr 0 k).bind fun _ _ inside => pure inside

theorem atStop {β : Type} {closers : List Kind} {f : Bool → Parser β} {Q : β → Nat → Prop}
    (hf : ∀ b, T.Runs (f b) k Q) : T.Runs (atStop closers >>= f) k Q := by
  have asked : T.Runs (Grammar.atStop closers) k fun _ k' => k' = k := by
    refine .next (fun _ => pure rfl) fun _ => ?_
    unfold atBlockEnd
    split
    · exact pure rfl
    · exact .peekKind (pure rfl)
  refine asked.bind ?_
  rintro b _ rfl
  exact hf b

theorem statements (h : r.Lays T) (closers : List Kind) (n k : Nat) :
    T.Runs (statements r closers n) k fun body k' => Chain (Laid T) k k' (stmtsSpanTrees body) := by
  induction n generalizing k with
  | zero => exact .exhausted
  | succ n ih =>
    refine .skip fun k₁ after => atStop fun b => ?_
    split
    · exact pure (.nil after)
    · refine h.statement.bind fun s k₂ inside => .next (fun _ => ?_) fun _ => atStop fun b' => ?_
      · refine (ih k₂).bind fun body k' rest => pure ?_
        exact (inside.chain rest).widen after (Nat.le_refl k')
      · split
        · exact pure (inside.single.widen after (Nat.le_refl k₂))
        · exact .unexpected

theorem wholeBlock (h : r.Lays T) (closers : List Kind) :
    T.Runs (Grammar.block r n closers) k fun b k' => Laid T k k' b.spanTree := by
  refine .peek ((h.statements closers n k).bind fun body k' parts => close (pure ?_))
  refine .node parts.le (fun some => ?_) parts (.refl _) (Nat.le_refl k) (Nat.le_refl k') ?_
  · cases body with
    | nil => cases some
    | cons s body =>
      cases parts with
      | cons before first rest =>
        exact (before.trans_lt (first.lt s.vacant_spanTree)).trans_le rest.le
  · intro o mem vacant
    rw [vacant_stmtsSpanTrees body o mem] at vacant
    cases vacant

end Grammar.Rules.Lays

theorem Grammar.lays_rules (T : Tape) (n : Nat) : (rules n).Lays T := by
  induction n with
  | zero => exact ⟨fun _ _ => .exhausted, fun _ _ => .exhausted⟩
  | succ n ih =>
    exact ⟨fun least _ => ih.expression least, fun closers _ => ih.wholeBlock closers⟩

end Pseudocode
