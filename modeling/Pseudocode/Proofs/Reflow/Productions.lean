import Pseudocode.Proofs.Composition.Productions
import Pseudocode.Proofs.Reflow.Beside
/-
# `Proofs.Reflow.Productions` — every production beside itself

One lemma for each production of the grammar, with the proof in the order of its definition.  What
a lemma says of the place before and behind is what the grammar knows there: which brackets are
open, and whether the token that is next has been reached behind line breaks.
-/
namespace Pseudocode.Grammar

/-- A block may end at the end of input.  What it has for a start is then not compared, and no
production goes on from there. -/
def Regard.ending (m : Regard) {α β : Type} (f : (Position → Position) → α → β) : α → α → Spot :=
  fun a b σ t t' => m.past [] 70 σ t t' ∧ (t.kind ≠ .eof → m.Same f a b)

/-- The parsers for what occurs inside of other things run beside themselves. -/
structure Rules.Beside (m : Regard) (r : Rules) : Prop where
  expr : ∀ S least, Grammar.Beside m (m.start S) (r.expr least) (r.expr least)
    (giving (m.Same Expr.moved) (m.past S least))
  block : ∀ closers, Grammar.Beside m (m.start []) (r.block closers) (r.block closers)
    (m.ending Block.moved)

variable {m : Regard} {r : Rules} {n : Nat} {S : List Bracket} {b : Bracket} {σ : Setting}
  {t t' : Token} {k closer : Kind}

/-! ## Index chains and lists -/

theorem beside_chain (h : r.Beside m) : ∀ n, Beside m (m.past S 70) (chain r n) (chain r n)
    (giving (m.Same chainMoved) (m.past S 70))
  | 0 => .exhausted
  | n + 1 => by
    have more := beside_chain h n
    refine .here fun σ t t' here => .peek ?_
    obtain ⟨rfl, near, -⟩ := id here
    rcases near with twin | ⟨-, -, soft, soft'⟩
    · rw [twin.kind]
      split
      · next dot =>
        refine .dropWord twin dot rfl rfl (.here fun τ u u' ⟨stack, near, _⟩ => ?_)
        refine (beside_name near).then fun name name' ⟨kind, same⟩ => ?_
        refine .span (twin.start dot rfl) fun s s' place => ?_
        refine (more.from fun here => here.past stack (.inr τ.role_next_name)).then
          fun steps steps' later => .pure fun here => ⟨?_, here⟩
        simp only [Regard.Same, chainMoved, place, same.lexeme, later]
      · next bracket =>
        refine .drop twin bracket rfl ?_
        refine .skipClear Regard.after.opened ?_
        refine ((h.expr _ 0).from Regard.fresh.start).then fun key key' same => ?_
        refine .skip (·.1) ((beside_closing (.inr (.inl rfl))).bind fun _ _ => ?_)
        refine .span (twin.start bracket rfl) fun s s' place => ?_
        refine more.then fun steps steps' later => .pure fun here => ⟨?_, here⟩
        simp only [Regard.Same, chainMoved, place, same, later]
      · exact .at (.pure fun here => ⟨rfl, here⟩) here
    · split
      · next dot => exact absurd dot (soft.ne (by decide))
      · next bracket => exact absurd bracket (soft.ne (by decide))
      · split
        · next dot => exact absurd dot (soft'.ne (by decide))
        · next bracket => exact absurd bracket (soft'.ne (by decide))
        · exact .at (.pure fun here => ⟨rfl, here⟩) here

theorem beside_target (h : r.Beside m) : Beside m (m.past S 70) (target r n) (target r n)
    (giving (m.Same Target.moved) (m.past S 70)) := by
  refine .here fun σ t t' here => (beside_name here.2.1).then fun name name' ⟨kind, same⟩ => ?_
  refine ((beside_chain h n).from fun there => there.past here.1 (.inr σ.role_next_name)).then
    fun steps steps' later => .span (same.start kind rfl) fun s s' place => ?_
  refine .pure fun there => ⟨?_, there⟩
  simp only [Regard.Same, Target.moved, place, same.lexeme, later]

/-- Items between commas.  Before each of them, and before the closing bracket, line breaks have
been skipped. -/
theorem beside_exprList (h : r.Beside m) : ∀ n,
    Beside m (m.fresh (b :: S)) (exprList r closer n) (exprList r closer n)
      (giving (m.Same exprsMoved) (m.level (b :: S)))
  | 0 => .exhausted
  | n + 1 => by
    have more := beside_exprList h n
    refine .here fun σ t t' here => .ask (asks_next closer) here.2.1 (fun _ => ?_) fun _ => ?_
    · exact .at (.pure fun here => ⟨rfl, here⟩) here.level
    · refine ((h.expr _ 0).at here.start).then fun e e' same => .separated (·.1) ?_ ?_
      · refine more.then fun es es' later => .pure fun here => ⟨?_, here⟩
        simp only [Regard.Same, exprsMoved, same, later]
      · refine .pure fun here => ⟨?_, here⟩
        simp only [Regard.Same, exprsMoved, same]

theorem beside_bracketed (h : r.Beside m)
    (closes : closer = .rightParen ∨ closer = .rightBracket ∨ closer = .rightBrace) :
    Beside m (within (b :: S)) (bracketed r n closer) (bracketed r n closer)
      (giving (m.Same exprsMoved) (m.past S 70)) := by
  refine .skipClear id ((beside_exprList h n).then fun es es' same => ?_)
  exact (beside_closing closes).bind fun _ _ => .pure fun here => ⟨same, here⟩

theorem beside_entries (h : r.Beside m) : ∀ n,
    Beside m (m.fresh (.brace :: S)) (entries r n) (entries r n)
      (giving (m.Same entriesMoved) (m.level (.brace :: S)))
  | 0 => .exhausted
  | n + 1 => by
    have more := beside_entries h n
    refine .here fun σ t t' here => .ask (asks_next .rightBrace) here.2.1 (fun _ => ?_) fun _ => ?_
    · exact .at (.pure fun here => ⟨rfl, here⟩) here.level
    · refine ((h.expr _ 0).at here.start).then fun key key' same => .skip (·.1) ?_
      refine .here fun τ u u' ⟨stack, twin⟩ => ?_
      refine (beside_expect twin rfl).discarded.bind fun _ _ => ?_
      refine .skipClear (fun here => here.2.within stack τ.role_next_colon) ?_
      refine ((h.expr _ 0).from Regard.fresh.start).then fun value value' same' => ?_
      refine .separated (·.1) ?_ ?_
      · refine more.then fun es es' later => .pure fun here => ⟨?_, here⟩
        simp only [Regard.Same, entriesMoved, same, same', later]
      · refine .pure fun here => ⟨?_, here⟩
        simp only [Regard.Same, entriesMoved, same, same']

/-! ## Magic words and operands -/

theorem beside_moreArguments (h : r.Beside m) (outside : m = .meaning → S = []) : ∀ n,
    Beside m (m.past S 0) (moreArguments r n) (moreArguments r n)
      (giving (m.Same exprsMoved) (m.past S 70))
  | 0 => .exhausted
  | n + 1 => by
    have more := beside_moreArguments h outside n
    refine .here fun σ t t' here => ?_
    have twin := here.2.1.twin fun loose => here.1.trans (outside loose)
    refine .ask (asks_next .comma) twin (fun yes => ?_) fun _ => ?_
    · refine .drop twin (by simpa using yes) rfl ?_
      have role : m = .all ∨ (σ.next .comma).role ≠ .joins := by
        cases m with
        | all => exact .inl rfl
        | meaning =>
          have none : σ.stack = [] := here.1.trans (outside rfl)
          exact .inr (by rw [Setting.next_comma, none]; decide)
      refine ((h.expr S 0).from fun there => there.start here.1 role σ.role_next_comma).then
        fun e e' same => more.then fun es es' later => .pure fun here => ⟨?_, here⟩
      simp only [Regard.Same, exprsMoved, same, later]
    · exact .at (.pure fun here => ⟨rfl, here⟩) here.weaken

theorem beside_arguments (h : r.Beside m) (outside : m = .meaning → S = []) :
    Beside m (m.start S) (arguments r n) (arguments r n)
      (giving (m.Same exprsMoved) (m.past S 70)) := by
  refine .here fun σ t t' here => .peekKind ?_
  have twin := here.2.1.twin fun loose => here.1.trans (outside loose)
  rw [twin.kind]
  split
  · exact .at (.pure fun here => ⟨rfl, here⟩) here.past
  · refine ((h.expr S 0).at here).then fun e e' same => ?_
    refine (beside_moreArguments h outside n).then fun es es' later => .pure fun here => ⟨?_, here⟩
    simp only [Regard.Same, exprsMoved, same, later]

theorem beside_magic (h : r.Beside m) (word : Magic) (twin : m.Twin t t') (kind : t.kind = k)
    (lone : k.isLone = true) (magic : k.isMagic = true) :
    Beside m (only σ t t') (Grammar.magic r n word) (Grammar.magic r n word)
      (giving (m.Same Expr.moved) (m.past σ.stack 70)) := by
  refine .plain twin (by rw [kind, magic]) fun outside => .word twin kind lone rfl ?_
  refine (beside_arguments h outside).then fun es es' same => ?_
  refine .span (twin.start kind (Kind.isTaken_of_isLone lone)) fun s s' place => ?_
  refine .pure fun here => ⟨?_, here⟩
  simp only [Regard.Same, Expr.moved, place, same]

theorem beside_unary (h : r.Beside m) (op : UnaryOp) (twin : m.Twin t t') (kind : t.kind = k)
    (taken : k.isTaken = true) (next : σ.next k = ⟨S, .other⟩) :
    Beside m (only σ t t') (unary r op) (unary r op)
      (giving (m.Same Expr.moved) (m.past S 70)) := by
  refine .take twin kind taken ?_
  rw [next]
  refine ((h.expr S unaryPower).from Regard.after.other).then
    fun e e' same => .span (twin.start kind taken) fun s s' place => ?_
  refine .pure fun here => ⟨?_, here.weaken⟩
  simp only [Regard.Same, Expr.moved, place, same]

theorem beside_operand (h : r.Beside m) : Beside m (m.start S) (operand r n) (operand r n)
    (giving (m.Same Expr.moved) (m.past S 70)) := by
  refine .here fun σ t t' here => .peek ?_
  obtain ⟨rfl, near, clear⟩ := id here
  rcases near with twin | ⟨loose, -, soft, -⟩
  · rw [twin.kind, twin.lexeme]
    split
    case h_1 kind | h_2 kind =>
      have place := twin.place kind rfl
      refine .drop twin kind rfl ?_
      split
      · refine .pure fun here => ⟨?_, here.ended⟩
        simp only [Regard.Same, Expr.moved, place]
      · exact .refuse twin
    case h_3 kind | h_4 kind | h_5 kind =>
      have place := twin.place kind rfl
      refine .drop twin kind rfl (.pure fun here => ?_)
      refine ⟨?_, here.ended⟩
      simp only [Regard.Same, Expr.moved, place]
    case h_6 =>
      refine ((beside_target h).at here.past).then fun v v' same => .pure fun here => ⟨?_, here⟩
      simp only [Regard.Same, Target.moved, Target.mk.injEq] at same
      simp only [Regard.Same, Expr.moved, same]
    case h_7 kind =>
      refine .drop twin kind rfl ?_
      refine .skipClear Regard.after.opened ?_
      refine ((h.expr _ 0).from Regard.fresh.start).then fun e e' same => .skip (·.1) ?_
      exact (beside_closing (.inl rfl)).bind fun _ _ => .pure fun here => ⟨same, here⟩
    case h_8 kind =>
      refine beside_unary h _ twin kind rfl ?_
      exact congrArg (Setting.mk _) (if_neg fun operator => (clear operator.2).1 kind)
    case h_9 kind =>
      refine beside_unary h _ twin kind rfl ?_
      exact congrArg (Setting.mk _) (if_neg fun operator => (clear operator.2).2 kind)
    case h_10 kind => exact beside_unary h _ twin kind rfl (σ.next_lone rfl)
    case h_11 kind =>
      have start := twin.start kind rfl
      refine .drop twin kind rfl ?_
      refine ((beside_bracketed h (.inr (.inl rfl))).from Regard.after.opened).then
        fun es es' same => .span start fun s s' place => .pure fun here => ⟨?_, here⟩
      simp only [Regard.Same, Expr.moved, place, same]
    case h_12 kind =>
      have start := twin.start kind rfl
      refine .drop twin kind rfl ?_
      refine .skipClear Regard.after.opened ?_
      refine (beside_entries h n).then fun es es' same => ?_
      refine (beside_closing (.inr (.inr rfl))).bind fun _ _ => ?_
      refine .span start fun s s' place => .pure fun here => ⟨?_, here⟩
      simp only [Regard.Same, Expr.moved, place, same]
    case h_13 kind | h_14 kind | h_15 kind | h_16 kind | h_17 kind =>
      exact beside_magic h _ twin kind rfl rfl
    case h_18 => exact .unexpected (.inl twin)
  · -- Nothing starts with a line break or what ends an item.
    split
    case h_18 => exact .stop loose
    all_goals
      next kind => exact absurd kind (soft.ne (by decide))

/-! ## Extending an operand -/

/-- Index steps after an expression, with the span of the whole. -/
def withSteps (left : Expr) (s : Span) (steps : List Index) : Expr :=
  match left with
  | .item _ base chain => .item s base (chain ++ steps)
  | _ => .item s left steps

theorem indexed_eq (left : Expr) (steps : List Index) :
    indexed left steps = spanFrom left.span.start >>= fun s => pure (withSteps left s steps) := by
  cases left <;> rfl

theorem withSteps_moved (f : Position → Position) (left : Expr) (s : Span) (steps : List Index) :
    (withSteps left s steps).moved f =
      withSteps (left.moved f) (s.moved f) (chainMoved f steps) := by
  cases left <;> simp only [withSteps, Expr.moved, chainMoved_append]

theorem Regard.start_of_same {e e' : Expr} (same : m.Same Expr.moved e e') :
    m.view e.span.start = m.view e'.span.start := by
  have spans := congrArg (·.span.start) same
  simp only [Expr.span_moved] at spans
  exact spans

theorem beside_indexed {left left' : Expr} {steps steps' : List Index}
    (same : m.Same Expr.moved left left') (later : m.Same chainMoved steps steps') :
    Beside m (m.past S 70) (indexed left steps) (indexed left' steps')
      (giving (m.Same Expr.moved) (m.past S 70)) := by
  rw [indexed_eq, indexed_eq]
  refine .span (Regard.start_of_same same) fun s s' place => .pure fun here => ⟨?_, here⟩
  rw [Regard.Same, withSteps_moved, withSteps_moved, same, later, place]

theorem beside_extension (h : r.Beside m) {left left' : Expr} (same : m.Same Expr.moved left left')
    (twin : m.Twin t t') (binds : 0 < leftPower t.kind) :
    Beside m (only σ t t') (extension r n left) (extension r n left')
      (giving (m.Same Expr.moved) (m.past σ.stack 70)) := by
  have start := Regard.start_of_same same
  have steps : Beside m (only σ t t') (chain r n) (chain r n)
      (giving (m.Same chainMoved) (m.past σ.stack 70)) :=
    (beside_chain h n).at ⟨rfl, .inl twin, leftPower_le _⟩
  refine .peekKind ?_
  rw [twin.kind]
  split
  · next kind =>
    refine .drop twin kind rfl ?_
    refine ((beside_bracketed h (.inl rfl)).from Regard.after.opened).then
      fun es es' later => .span start fun s s' place => .pure fun here => ⟨?_, here⟩
    simp only [Regard.Same, Expr.moved, place, same, later]
  · exact steps.then fun _ _ later => beside_indexed same later
  · exact steps.then fun _ _ later => beside_indexed same later
  · next paren bracket dot =>
    obtain ⟨op, operator⟩ := operator_of_leftPower binds paren bracket dot
    obtain ⟨stack, role⟩ := σ.next_operator operator
    rw [operator]
    refine .drop twin rfl (Kind.isTaken_of_operator operator) ?_
    refine .skipClear (fun here => here.within stack role) ?_
    refine ((h.expr _ _).from Regard.fresh.start).then fun right right' later => ?_
    refine .span start fun s s' place => .pure fun here => ⟨?_, here.weaken⟩
    simp only [Regard.Same, Expr.moved, place, same, later]

theorem beside_extend (h : r.Beside m) (least : Nat) : ∀ n (left left' : Expr),
    m.Same Expr.moved left left' →
      Beside m (m.past S 70) (extend r least n left) (extend r least n left')
        (giving (m.Same Expr.moved) (m.past S least))
  | 0, _, _, _ => .exhausted
  | n + 1, left, left', same => by
    have more := beside_extend h least n
    refine .here fun σ t t' here => .peekKind ?_
    obtain ⟨rfl, near, -⟩ := id here
    rcases near with twin | ⟨-, -, soft, soft'⟩
    · rw [twin.kind]
      by_cases low : leftPower t.kind ≤ least
      · rw [if_pos low, if_pos low]
        refine .at (P := m.past σ.stack least) (.pure fun here => ⟨same, here⟩) ⟨rfl, here.2.1, low⟩
      · rw [if_neg low, if_neg low]
        exact (beside_extension h same twin (by omega)).then more
    · rw [if_pos (by rw [leftPower_soft soft]; exact Nat.zero_le least),
        if_pos (by rw [leftPower_soft soft']; exact Nat.zero_le least)]
      refine .at (P := m.past σ.stack least) (.pure fun here => ⟨same, here⟩) ⟨rfl, here.2.1, ?_⟩
      rw [leftPower_soft soft]
      exact Nat.zero_le least

theorem beside_expr (h : r.Beside m) (least : Nat) :
    Beside m (m.start S) (expr r n least) (expr r n least)
      (giving (m.Same Expr.moved) (m.past S least)) :=
  (beside_operand h).then fun e e' same => beside_extend h least n e e' same

/-! ## Assignments -/

/-- Outside of brackets, behind something that need not be an operand. -/
abbrev Regard.line (m : Regard) : Spot := m.past [] 70

theorem beside_assigned (h : r.Beside m) (here : m.line σ t t') (kind : t.kind = .assign) :
    Beside m (only σ t t') (assigned r) (assigned r) (giving (m.Same Expr.moved) (m.past [] 0)) :=
  .dropWord here.twin kind rfl here.1 <|
    .skipClear Regard.start.within ((h.expr [] 0).from Regard.fresh.start)

theorem isEmpty_of_same {left left' : Target} (same : m.Same Target.moved left left') :
    left'.chain.isEmpty = left.chain.isEmpty := by
  have chains := congrArg (·.chain.isEmpty) same
  simp only [Target.moved, isEmpty_chainMoved] at chains
  exact chains.symm

theorem beside_constant (h : r.Beside m) (here : m.line σ t t') (kind : t.kind = .kwConstant) :
    Beside m (only σ t t') (constant r n) (constant r n)
      (giving (m.Same Stmt.moved) m.line) := by
  have start := here.twin.start kind rfl
  refine .word here.twin kind rfl here.1 ?_
  refine ((beside_target h).from Regard.start.past).then fun left left' same => ?_
  refine (beside_skipType (by decide)).bind fun _ _ => .here fun τ u u' there => ?_
  refine .demand (asks_next .assign) there.twin fun yes => ?_
  refine (beside_assigned h there (by simpa using yes)).then fun value value' same' => ?_
  rw [isEmpty_of_same same]
  cases left.chain.isEmpty with
  | true =>
    refine .span start fun s s' place => .pure fun here => ⟨?_, here.weaken⟩
    simp only [Regard.Same, Stmt.moved, Assignment.moved, place, same, same']
  | false => exact .refuse here.twin

/-- A statement that starts with a name is read again from its start if it is no assignment, and it
is one on both sides or on none. -/
theorem beside_named (h : r.Beside m) (here : m.start [] σ t t') :
    Beside m (only σ t t') (named r n) (named r n) (giving (m.Same Stmt.moved) m.line) := by
  intro env env' τ c c' alike spot
  have whole : Beside m (only σ t t') (r.expr 0 >>= fun e => pure (Stmt.expr e))
      (r.expr 0 >>= fun e => pure (Stmt.expr e)) (giving (m.Same Stmt.moved) m.line) := by
    refine ((h.expr [] 0).at here).then fun e e' same => .pure fun here => ⟨?_, here.weaken⟩
    simp only [Regard.Same, Stmt.moved, same]
  have first := (beside_target (n := n) h).at here.past env env' τ c c' alike spot
  rw [run_named, run_named]
  generalize left : ((target r n).run env).run c = x at first
  generalize right : ((target r n).run env').run c' = x' at first
  cases first with
  | @both place place' _ c₁ c₁' alike₁ there =>
    have eof' := alike.twin.kind.trans alike.eof
    have second := beside_skipType (by decide) env env' _ c₁ c₁' alike₁ there.2
    rw [run_skipType alike.eof, run_skipType eof'] at second
    rw [run_bind_ok left, run_bind_ok (run_skipType alike.eof c₁),
      run_bind_ok (asks_next .assign env _), run_bind_ok right, run_bind_ok (run_skipType eof' c₁'),
      run_bind_ok (asks_next .assign env' _)]
    cases second with
    | @both _ _ ρ _ _ alike₂ there₂ =>
      rw [there₂.twin.kind]
      by_cases arrow : (c₁.pastType.head env).kind = .assign
      · rw [if_pos (by simpa using arrow), if_pos (by simpa using arrow)]
        have value : Beside m (only ρ (c₁.pastType.head env) (c₁'.pastType.head env'))
            (assigned r >>= fun value => spanFrom place.span.start >>= fun s =>
              pure (Stmt.assign ⟨s, place, value, false⟩))
            (assigned r >>= fun value => spanFrom place'.span.start >>= fun s =>
              pure (Stmt.assign ⟨s, place', value, false⟩))
            (giving (m.Same Stmt.moved) m.line) := by
          refine (beside_assigned h there₂ arrow).then fun value value' same => ?_
          have spans := congrArg (·.span.start) there.1
          refine .span spans fun s s' span => .pure fun here => ⟨?_, here.weaken⟩
          simp only [Regard.Same, Stmt.moved, Assignment.moved, span, there.1, same]
        exact value env env' ρ _ _ alike₂ ⟨rfl, rfl, rfl⟩
      · rw [if_neg (by simpa using arrow), if_neg (by simpa using arrow)]
        exact whole env env' τ c c' alike spot
  | refused complaint twin =>
    rw [run_bind_error left, run_bind_error right]
    exact .refused complaint twin
  | stopped loose =>
    rw [run_bind_error left]
    exact .stopped loose
  | exhausted =>
    rw [run_bind_error left]
    exact .exhausted

/-! ## Choices and loops -/

theorem beside_branch (h : r.Beside m) : ∀ (n : Nat) {σ : Setting} {t t' : Token},
    m.line σ t t' → t.kind = .kwIf →
      Beside m (only σ t t') (branch r n) (branch r n) (m.ending Branch.moved)
  | 0, _, _, _, _, _ => .exhausted
  | n + 1, σ, t, t', here, kind => by
    have nested := @beside_branch h n
    have start := here.twin.start kind rfl
    refine .word here.twin kind rfl here.1 ((h.expr [] 0).then fun condition condition' same => ?_)
    refine .skip (·.1) (.here fun τ u u' ⟨stack, twin⟩ => .expectWord twin rfl stack fun _ => ?_)
    refine (h.block _).bind fun body body' => .here fun ρ v v' ⟨there, block⟩ => ?_
    refine .ask (asks_next .kwElse) there.twin (fun yes => ?_) fun _ => ?_
    · have word : v.kind = .kwElse := by simpa using yes
      have block := block (by rw [word]; decide)
      refine .dropWord there.twin word rfl there.1 (.here fun φ w w' there => ?_)
      refine .ask (asks_next .kwIf) there.twin (fun yes => ?_) fun _ => ?_
      · refine (nested there.past (by simpa using yes)).bind fun more more' => ?_
        refine .span start fun s s' place => .pure fun ⟨here, last⟩ => ⟨here, fun token => ?_⟩
        simp only [Regard.Same, Branch.moved, Otherwise.moved, place, same, block, last token]
      · refine ((h.block _).at there).bind fun other other' => ?_
        refine .span start fun s s' place => .pure fun ⟨here, last⟩ => ⟨here, fun token => ?_⟩
        simp only [Regard.Same, Branch.moved, Otherwise.moved, place, same, block, last token]
    · refine .span start fun s s' place => .pure ?_
      rintro _ _ _ ⟨rfl, rfl, rfl⟩
      refine ⟨there, fun token => ?_⟩
      simp only [Regard.Same, Branch.moved, Otherwise.moved, place, same, block token]

theorem beside_closed {b b' : Branch} {P : Spot} (same : m.Same Branch.moved b b') :
    Beside m P (closed b) (closed b') (giving (m.Same Branch.moved) P) := by
  obtain ⟨s, condition, consequence, alternative⟩ := b
  obtain ⟨s', condition', consequence', alternative'⟩ := b'
  simp only [Regard.Same, Branch.moved, Branch.mk.injEq] at same
  refine .span (congrArg Span.start same.1) fun x x' place => .pure fun here => ⟨?_, here⟩
  simp only [Regard.Same, Branch.moved, place, same]

theorem beside_choice (h : r.Beside m) (here : m.line σ t t') (kind : t.kind = .kwIf) :
    Beside m (only σ t t') (choice r n) (choice r n) (giving (m.Same Stmt.moved) m.line) := by
  refine (beside_branch h n here kind).bind fun b b' => .here fun τ u u' ⟨there, same⟩ => ?_
  refine .close there.twin rfl there.1 fun token => ?_
  refine (beside_closed (same token)).then fun x x' same => .pure fun here => ⟨?_, here.past⟩
  simp only [Regard.Same, Stmt.moved, same]

theorem beside_whileLoop (h : r.Beside m) (here : m.line σ t t') (kind : t.kind = .kwWhile) :
    Beside m (only σ t t') (whileLoop r) (whileLoop r) (giving (m.Same Stmt.moved) m.line) := by
  have start := here.twin.start kind rfl
  refine .word here.twin kind rfl here.1 ((h.expr [] 0).then fun condition condition' same => ?_)
  refine ((h.block _).from Regard.past.start).bind fun body body' => .here fun τ u u' there => ?_
  refine .close there.1.twin rfl there.1.1 fun token => ?_
  refine .span start fun s s' place => .pure fun here => ⟨?_, here.past⟩
  simp only [Regard.Same, Stmt.moved, place, same, there.2 token]

theorem beside_repeatLoop (h : r.Beside m) (here : m.line σ t t') (kind : t.kind = .kwRepeat) :
    Beside m (only σ t t') (repeatLoop r) (repeatLoop r) (giving (m.Same Stmt.moved) m.line) := by
  have start := here.twin.start kind rfl
  refine .word here.twin kind rfl here.1 ((h.block _).bind fun body body' => ?_)
  refine .here fun τ u u' there => .expectWord there.1.twin rfl there.1.1 fun word => ?_
  have block := there.2 (by rw [word]; decide)
  refine (h.expr [] 0).then fun condition condition' same => ?_
  refine .span start fun s s' place => .pure fun here => ⟨?_, here.weaken⟩
  simp only [Regard.Same, Stmt.moved, place, same, block]

theorem beside_forBody (h : r.Beside m) :
    Beside m (m.past [] 0) (forBody r) (forBody r) (giving (m.Same Block.moved) m.line) := by
  refine ((h.block _).from Regard.past.start).bind fun body body' => .here fun τ u u' there => ?_
  refine .close there.1.twin rfl there.1.1 fun token => .pure fun here => ?_
  exact ⟨there.2 token, here.past⟩

theorem beside_forLoop (h : r.Beside m) (here : m.line σ t t') (kind : t.kind = .kwFor) :
    Beside m (only σ t t') (forLoop r) (forLoop r) (giving (m.Same Stmt.moved) m.line) := by
  have start := here.twin.start kind rfl
  have rest : ∀ {name name' first first' last last'} step step', name' = name →
      m.Same Expr.moved first first' → m.Same Expr.moved last last' →
      step.map (Expr.moved m.view) = step'.map (Expr.moved m.view) →
      Beside m (m.past [] 0)
        (do let body ← forBody r
            return .forRange (← spanFrom t.span.start) name first last step body)
        (do let body ← forBody r
            return .forRange (← spanFrom t'.span.start) name' first' last' step' body)
        (giving (m.Same Stmt.moved) m.line) := by
    rintro name _ first first' last last' step step' rfl same same' same''
    refine (beside_forBody h).then fun body body' block => ?_
    refine .span start fun s s' place => .pure fun here => ⟨?_, here⟩
    simp only [Regard.Same, Stmt.moved, place, same, same', same'', block]
  refine .word here.twin kind rfl here.1 (.here fun τ u u' before => ?_)
  refine (beside_name before.2.1).then fun name name' ⟨_, twin⟩ => .here fun ρ v v' there => ?_
  have there := there.past before.1 (.inr τ.role_next_name)
  refine .peekKind ?_
  rw [there.twin.kind]
  split
  · next arrow =>
    refine .dropWord there.twin arrow rfl there.1 ?_
    refine (h.expr [] 0).then fun first first' same => .here fun φ w w' here => ?_
    refine .expectWord here.twin rfl here.1 fun _ => ?_
    refine (h.expr [] 0).then fun last last' same' => .here fun φ w w' here => ?_
    refine .ask (asks_next .kwStep) here.twin (fun yes => ?_) fun _ => ?_
    · refine .dropWord here.twin (by simpa using yes) rfl here.1 ?_
      refine (h.expr [] 0).then fun step step' same'' => ?_
      exact rest (some step) (some step') twin.lexeme same same' (congrArg some same'')
    · exact (rest none none twin.lexeme same same' rfl).at here
  · next word =>
    refine .dropWord there.twin word rfl there.1 ?_
    refine (h.expr [] 0).then fun iterable iterable' same => ?_
    refine (beside_forBody h).then fun body body' block => ?_
    refine .span start fun s s' place => .pure fun here => ⟨?_, here⟩
    simp only [Regard.Same, Stmt.moved, place, same, block, twin.lexeme]
  · exact .unexpected (.inl there.twin)

/-! ## Definitions -/

theorem beside_fields : ∀ n, Beside m m.line (fields n) (fields n) (giving Eq m.line)
  | 0 => .exhausted
  | n + 1 => by
    have later : ∀ {name name' : Token} {P : Spot}, m.Twin name name' →
        (∀ {σ t t'}, P σ t t' → σ.stack = []) →
        Beside m P (do skipNewlines
                       return name.lexeme :: (← fields n))
          (do skipNewlines
              return name'.lexeme :: (← fields n)) (giving Eq m.line) := by
      intro name name' P twin outside
      refine .skip outside (((beside_fields n).from fun here => ?_).then
        fun names names' same => ?_)
      · exact ⟨here.1, .inl here.2, leftPower_le _⟩
      · exact .pure fun here => ⟨by rw [twin.lexeme, same], here⟩
    refine .here fun σ t t' here => .ask (asks_nextIn _) here.twin (fun _ => ?_) fun _ => ?_
    · exact .at (.pure fun here => ⟨rfl, here⟩) here
    · refine (beside_name here.2.1).then fun name name' ⟨_, twin⟩ => ?_
      refine ((beside_skipType (by decide)).from fun there =>
        there.past here.1 (.inr σ.role_next_name)).bind fun _ _ => .here fun τ u u' there => ?_
      refine .ask (asks_next .comma) there.twin (fun yes => ?_) fun _ => ?_
      · refine .drop there.twin (by simpa using yes) rfl (later twin ?_)
        rintro _ _ _ ⟨rfl, -⟩
        exact there.1
      · refine .demand (asks_nextIn _) there.twin fun _ => later twin ?_
        rintro _ _ _ ⟨rfl, -, -⟩
        exact there.1

theorem beside_record (here : m.line σ t t') (kind : t.kind = .kwRecord) :
    Beside m (only σ t t') (record n) (record n) (giving (m.Same Stmt.moved) m.line) := by
  have start := here.twin.start kind rfl
  refine .word here.twin kind rfl here.1 (.here fun τ u u' before => ?_)
  refine (beside_name before.2.1).then fun name name' ⟨_, twin⟩ => ?_
  refine .skip (fun there => (there.past before.1 (.inr τ.role_next_name)).1) ?_
  refine ((beside_fields n).from fun here => ⟨here.1, .inl here.2, leftPower_le _⟩).then
    fun names names' same => .here fun ρ v v' there => .close there.twin rfl there.1 fun _ => ?_
  refine .span start fun s s' place => .pure fun here => ⟨?_, here.past⟩
  simp only [Regard.Same, Stmt.moved, place, twin.lexeme, same]

theorem beside_attempt (h : r.Beside m) (here : m.line σ t t') (kind : t.kind = .kwTry) :
    Beside m (only σ t t') (attempt r) (attempt r) (giving (m.Same Stmt.moved) m.line) := by
  have start := here.twin.start kind rfl
  refine .word here.twin kind rfl here.1 ((h.block _).bind fun body body' => ?_)
  refine .here fun τ u u' there => .expectWord there.1.twin rfl there.1.1 fun word => ?_
  have block := there.2 (by rw [word]; decide)
  refine (h.block _).bind fun rescue rescue' => .here fun ρ v v' there => ?_
  refine .close there.1.twin rfl there.1.1 fun token => ?_
  refine .span start fun s s' place => .pure fun here => ⟨?_, here.past⟩
  simp only [Regard.Same, Stmt.moved, place, block, there.2 token]

theorem beside_params : ∀ n, Beside m (m.level [.params]) (params n) (params n)
    (giving (m.Same fun f => List.map (Param.moved f)) (m.level [.params]))
  | 0 => .exhausted
  | n + 1 => by
    have more := beside_params n
    refine .here fun σ t t' here => .ask (asks_next .rightParen) here.2 (fun _ => ?_) fun _ => ?_
    · exact .at (.pure fun here => ⟨rfl, here⟩) here
    · refine (beside_name (.inl here.2)).then fun name name' ⟨kind, twin⟩ => ?_
      have place := twin.place kind rfl
      refine ((beside_skipType (by decide)).from fun there =>
        there.past here.1 (.inr σ.role_next_name)).bind fun _ _ => .separated (·.1) ?_ ?_
      · refine (more.from Regard.fresh.level).then fun ps ps' same => .pure fun here => ⟨?_, here⟩
        simp only [Regard.Same, List.map_cons, Param.moved, place, twin.lexeme] at same ⊢
        rw [same]
      · refine .pure fun here => ⟨?_, here⟩
        simp only [Regard.Same, List.map_cons, Param.moved, place, twin.lexeme]

/-- The parentheses behind the name of a subroutine.  Behind them a statement may start. -/
theorem beside_paramList (near : m.Near σ t t') (stack : σ.stack = []) (role : σ.role = .names) :
    Beside m (only σ t t') (paramList n) (paramList n)
      (giving (m.Same fun f => List.map (Param.moved f)) (m.start [])) := by
  have opened : σ.next .leftParen = ⟨[.params], .joins⟩ := by
    rw [Setting.next_leftParen, if_pos role, stack]
  have twin := near.twin fun _ => stack
  refine (beside_expect twin rfl).discarded.bind fun _ _ => ?_
  rw [opened]
  refine .skip (fun here => here.2.opened.1) ?_
  refine (beside_params n).then fun ps ps' same => .here fun τ u u' here => ?_
  refine (beside_expect here.2 rfl).discarded.bind fun _ _ => ?_
  have closed : τ.next .rightParen = ⟨[], .other⟩ := by
    rw [Setting.next_rightParen, here.1]
    rfl
  rw [closed]
  exact .pure fun there => ⟨same, there.2.other⟩

theorem beside_routine (h : r.Beside m) (here : m.line σ t t') (kind : t.kind = .kwSubroutine) :
    Beside m (only σ t t') (routine r n) (routine r n)
      (giving (m.Same Routine.moved) m.line) := by
  have start := here.twin.start kind rfl
  refine .take here.twin kind rfl (.here ?_)
  rintro τ u u' ⟨rfl, near⟩
  refine (beside_name (near (.inr nofun))).then fun name name' ⟨_, twin⟩ => .here ?_
  rintro _ v v' ⟨rfl, near⟩
  refine (beside_paramList (near (.inr nofun)) here.1 rfl).then fun ps ps' same => ?_
  refine (h.block _).bind fun body body' => .here fun ρ w w' there => ?_
  refine .close there.1.twin rfl there.1.1 fun token => ?_
  refine .span start fun s s' place => .pure fun here => ⟨?_, here.past⟩
  simp only [Regard.Same, Routine.moved, place, twin.lexeme, same, there.2 token]

theorem beside_static (h : r.Beside m) (here : m.line σ t t') (kind : t.kind = .identifier) :
    Beside m (only σ t t') (static r) (static r) (giving (m.Same Assignment.moved) m.line) := by
  have place := here.twin.place kind rfl
  refine .take here.twin kind rfl ?_
  refine ((beside_skipType (by decide)).from fun there =>
    there.past here.1 (.inr σ.role_next_name)).bind fun _ _ => .here fun τ u u' there => ?_
  refine .expectWord there.twin rfl there.1 fun _ => (h.expr [] 0).then fun value value' same => ?_
  refine .span (congrArg Span.start place) fun s s' place' => .pure fun last => ⟨?_, last.weaken⟩
  simp only [Regard.Same, Assignment.moved, Target.moved, chainMoved, place, place', same,
    here.twin.lexeme]

theorem beside_member (h : r.Beside m) (here : m.line σ t t') :
    Beside m (only σ t t') (member r n) (member r n) (giving (m.Same memberMoved) m.line) := by
  refine .peekKind ?_
  rw [here.twin.kind]
  split
  · next kind =>
    exact (beside_routine h here kind).then fun d d' same =>
      .pure fun there => ⟨congrArg Sum.inr same, there⟩
  · next kind =>
    exact (beside_static h here kind).then fun a a' same =>
      .pure fun there => ⟨congrArg Sum.inl same, there⟩
  · exact .unexpected here.2.1

theorem beside_members (h : r.Beside m) : ∀ n, Beside m m.line (members r n) (members r n)
    (giving (m.Same fun f => List.map (memberMoved f)) m.line)
  | 0 => .exhausted
  | n + 1 => by
    have more := beside_members h n
    refine .skip (·.1) (.here fun σ t t' before => ?_)
    have here : m.line σ t t' := ⟨before.1, .inl before.2, leftPower_le _⟩
    refine .ask (asks_nextIn _) here.twin (fun _ => ?_) fun _ => ?_
    · exact .at (.pure fun here => ⟨rfl, here⟩) here
    · refine (beside_member h here).then fun first first' same => .here fun τ u u' there => ?_
      refine .demand (asks_nextIn _) there.twin fun _ => (more.at there).then fun ms ms' later => ?_
      refine .pure fun last => ⟨?_, last⟩
      simp only [Regard.Same, List.map_cons] at later ⊢
      rw [later, same]

theorem beside_classDef (h : r.Beside m) (here : m.line σ t t') (kind : t.kind = .kwClass) :
    Beside m (only σ t t') (classDef r n) (classDef r n) (giving (m.Same Stmt.moved) m.line) := by
  have start := here.twin.start kind rfl
  refine .word here.twin kind rfl here.1 (.here fun τ u u' before => ?_)
  refine (beside_name before.2.1).then fun name name' ⟨_, twin⟩ => ?_
  refine ((beside_members h n).from fun there => there.past before.1 (.inr τ.role_next_name)).then
    fun ms ms' same => .here fun ρ v v' there => .close there.twin rfl there.1 fun _ => ?_
  refine .span start fun s s' place => .pure fun last => ⟨?_, last.past⟩
  have statics := congrArg (List.filterMap Sum.getLeft?) same
  rw [statics_moved, statics_moved] at statics
  have routines := congrArg (List.filterMap Sum.getRight?) same
  rw [routines_moved, routines_moved] at routines
  simp only [Regard.Same, Stmt.moved, routinesMoved_eq_map, place, twin.lexeme, statics, routines]

theorem beside_load (h : r.Beside m) (here : m.line σ t t') (kind : t.kind = .kwImport) :
    Beside m (only σ t t') (load r) (load r) (giving (m.Same Stmt.moved) m.line) := by
  have start := here.twin.start kind rfl
  refine .word here.twin kind rfl here.1 ((h.expr [] 0).then fun location location' same => ?_)
  refine .here fun τ u u' there => .ask (asks_next .kwAs) there.twin (fun yes => ?_) fun _ => ?_
  · refine .dropWord there.twin (by simpa using yes) rfl there.1 (.here fun ρ v v' there => ?_)
    refine .ask (asks_nextIn _) there.twin (fun yes => ?_) fun _ => .unexpected there.2.1
    have kind : v.kind = .identifier ∨ v.kind = .string := by simpa using yes
    obtain ⟨taken, stack, role⟩ : v.kind.isTaken = true ∧ (ρ.next v.kind).stack = ρ.stack ∧
        (ρ.next v.kind).role ≠ .joins := by
      rcases kind with kind | kind
      · rw [kind]
        exact ⟨rfl, rfl, ρ.role_next_name⟩
      · rw [kind]
        exact ⟨rfl, rfl, nofun⟩
    refine .take there.twin rfl taken (.span start fun s s' place => .pure fun last => ⟨?_, ?_⟩)
    · simp only [Regard.Same, Stmt.moved, place, same, there.twin.lexeme]
    · exact last.past (stack.trans there.1) (.inr role)
  · refine .span start fun s s' place => .at (.pure fun last => ⟨?_, last⟩) there.weaken
    simp only [Regard.Same, Stmt.moved, place, same]

/-! ## Statements and blocks -/

theorem beside_statement (h : r.Beside m) (here : m.start [] σ t t') :
    Beside m (only σ t t') (statement r n) (statement r n) (giving (m.Same Stmt.moved) m.line) := by
  refine .peekKind ?_
  rw [here.twin.kind]
  split
  · next kind => exact beside_constant h here.past kind
  · exact beside_named h here
  · next kind => exact beside_choice h here.past kind
  · next kind => exact beside_whileLoop h here.past kind
  · next kind => exact beside_repeatLoop h here.past kind
  · next kind => exact beside_forLoop h here.past kind
  · next kind => exact beside_record here.past kind
  · next kind => exact beside_attempt h here.past kind
  · next kind =>
    refine (beside_routine h here.past kind).then fun d d' same => .pure fun last => ⟨?_, last⟩
    simp only [Regard.Same, Stmt.moved, same]
  · next kind => exact beside_classDef h here.past kind
  · next kind => exact beside_load h here.past kind
  · refine ((h.expr [] 0).at here).then fun e e' same => .pure fun last => ⟨?_, last.weaken⟩
    simp only [Regard.Same, Stmt.moved, same]

theorem beside_statements (h : r.Beside m) (closers : List Kind) : ∀ n,
    Beside m (within []) (statements r closers n) (statements r closers n)
      (giving (m.Same stmtsMoved) m.line)
  | 0 => .exhausted
  | n + 1 => by
    have more := beside_statements h closers n
    refine .skipClear id (.here fun σ t t' here => ?_)
    refine .ask (asks_atStop closers) here.2.1 (fun _ => ?_) fun _ => ?_
    · exact .at (.pure fun here => ⟨rfl, here⟩) here.start.past
    · refine (beside_statement h here.start).then fun s s' same => .here fun τ u u' there => ?_
      refine .ask (asks_next .newline) there.twin (fun yes => ?_) fun _ => ?_
      · have line : u.kind = .newline := by simpa using yes
        have clear : within [] τ u u' := by
          refine ⟨there.1, fun _ => ?_⟩
          rw [line]
          decide
        refine (more.at clear).then fun body body' later => .pure fun last => ⟨?_, last⟩
        simp only [Regard.Same, stmtsMoved, same, later]
      · refine .ask (asks_atStop closers) there.twin (fun _ => ?_) fun _ => .unexpected there.2.1
        refine .at (.pure fun last => ⟨?_, last⟩) there
        simp only [Regard.Same, stmtsMoved, same]

/-- At the end of input a block is empty. -/
theorem beside_statements_end {closers : List Kind} (eof : t.kind = .eof)
    (stack : σ.stack = []) : ∀ n, Beside m (only σ t t') (statements r closers n)
      (statements r closers n) fun _ _ τ u u' => m.line τ u u' ∧ u.kind = .eof
  | 0 => .exhausted
  | n + 1 => by
    refine beside_skipNewlines.bind fun _ _ => .here fun τ u u' ⟨same, twin', _, still⟩ => ?_
    obtain rfl := still (by rw [eof]; decide)
    refine .ask (asks_atStop closers) twin' (fun _ => .pure ?_) fun no => ?_
    · rintro _ _ _ ⟨rfl, rfl, rfl⟩
      exact ⟨⟨same.trans stack, .inl twin', leftPower_le _⟩, eof⟩
    · rw [eof, stopsAt] at no
      cases no

/-- A block that does not start at the end of input has the same start on both sides. -/
theorem beside_block_token (h : r.Beside m) {closers : List Kind} (here : m.start [] σ t t')
    (start : m.view t.span.start = m.view t'.span.start) :
    Beside m (only σ t t') (block r n closers) (block r n closers)
      (giving (m.Same Block.moved) m.line) := by
  refine .peek (((beside_statements h closers n).at here.within).then fun body body' same => ?_)
  refine .span start fun s s' place => .pure fun last => ⟨?_, last⟩
  simp only [Regard.Same, Block.moved, place, same]

theorem beside_block (h : r.Beside m) (closers : List Kind) :
    Beside m (m.start []) (block r n closers) (block r n closers) (m.ending Block.moved) := by
  refine .here fun σ t t' here => ?_
  by_cases eof : t.kind = .eof
  · refine .peek ((beside_statements_end eof here.1 n).bind fun body body' => ?_)
    refine beside_spanFrom_end.bind fun s s' => .pure fun ⟨last, ended⟩ => ?_
    exact ⟨last, fun token => absurd ended token⟩
  · have start := congrArg Span.start (here.twin.spans eof)
    exact (beside_block_token h here start).to fun ⟨same, last⟩ => ⟨last, fun _ => same⟩

theorem beside_rules : ∀ n, (rules n).Beside m
  | 0 => ⟨fun _ _ => .exhausted, fun _ => .exhausted⟩
  | n + 1 => ⟨fun _ least => beside_expr (beside_rules n) least,
      fun closers => beside_block (beside_rules n) closers⟩

end Pseudocode.Grammar
