import Pseudocode.Proofs.Composition.Follows
import Pseudocode.Proofs.Printing.Statement
/-
# `Proofs.Composition.Productions` — every production follows itself

One lemma for each production of the grammar, with the proof in the order of
its definition.  Bounds may differ on the two sides as long as both exceed the
number of tokens that are left.
-/
namespace Pseudocode.Grammar

/-- The rules on the right follow those on the left on fewer than `n` tokens.
A block is only ever read after a token. -/
structure Rules.Follows (m : Pairing) (n : Nat) (r r' : Rules) : Prop where
  expr : ∀ least, Grammar.Follows m .anywhere false n 1 (r.expr least) (r'.expr least)
    (Expr.moved m.move)
  fatal : ∀ least, Fatal n (r.expr least)
  block : ∀ closers, Grammar.Follows m .anywhere true (n - 1) 0 (r.block closers)
    (r'.block closers) (Block.moved m.move)

variable {m : Pairing} {at_ : Where} {soft : Bool} {n k k' : Nat} {r r' : Rules}

theorem Fatal.within {α : Type} {n' : Nat} {p : Parser α} (hp : Fatal n p) (fewer : n' ≤ n) :
    Fatal n' p :=
  fun env c eof done few => hp env c eof done (by omega)

theorem Rules.Follows.within {n' : Nat} (h : r.Follows m n r') (fewer : n' ≤ n) :
    r.Follows m n' r' where
  expr least := (h.expr least).within fewer
  fatal least := (h.fatal least).within fewer
  block closers := (h.block closers).within (by omega)

theorem Rules.Follows.less (h : r.Follows m n r') : r.Follows m (n - 1) r' :=
  h.within (Nat.sub_le n 1)

/-- An expression takes a token, which need not be counted. -/
theorem Rules.Follows.part (h : r.Follows m n r') (least : Nat) :
    Grammar.Follows m at_ false n 0 (r.expr least) (r'.expr least) (Expr.moved m.move) :=
  (h.expr least).loosen.narrow

/-! ## Index chains and lists -/

section Chain

variable {q : List Index → Parser (List Index)}

theorem follows_property
    (more : Follows m .anywhere false (n - 1) 0 (chain r k) (chain r' k') (chainMoved m.move))
    (t : Token) :
    Follows m .before false n 1
      (do discard advance
          let name ← expect .identifier
          let step := Index.property (← spanFrom t.span.start) name.lexeme
          return step :: (← chain r k))
      (do discard advance
          let name ← expect .identifier
          let step := Index.property (← spanFrom (t.moved m.move).span.start) name.lexeme
          return step :: (← chain r' k')) (chainMoved m.move) := by
  refine .drop ((follows_expect (by decide) (by decide)).loosen.then fun name => .spanFrom fun s => ?_)
  exact more.then fun steps => .pure rfl

theorem follows_subscript (h : r.Follows m n r')
    (more : Follows m .anywhere false (n - 1) 0 (chain r k) (chain r' k') (chainMoved m.move))
    (t : Token) :
    Follows m .before false n 1
      (do discard advance
          skipNewlines
          let key ← r.expr 0
          skipNewlines
          discard (expect .rightBracket)
          let step := Index.subscript (← spanFrom t.span.start) key
          return step :: (← chain r k))
      (do discard advance
          skipNewlines
          let key ← r'.expr 0
          skipNewlines
          discard (expect .rightBracket)
          let step := Index.subscript (← spanFrom (t.moved m.move).span.start) key
          return step :: (← chain r' k')) (chainMoved m.move) := by
  refine .drop (.skip ((h.less.part 0).then fun key => .skip ?_ ?_) (h.less.fatal 0).bind)
  · refine (follows_expect (by decide) (by decide)).loosen.discarded.then fun _ => .spanFrom fun s => ?_
    exact more.then fun steps => .pure rfl
  · exact (fatal_expect (by decide)).discarded.bind

end Chain

theorem follows_chain (h : r.Follows m n r') (fewer : n ≤ k) (fewer' : n ≤ k') :
    Follows m .anywhere false n 0 (chain r k) (chain r' k') (chainMoved m.move) := by
  induction k generalizing n k' with
  | zero => exact .vacuous (by omega)
  | succ k ih =>
    cases k' with
    | zero => exact .vacuous (by omega)
    | succ k' =>
      have more := ih h.less (by omega) (show n - 1 ≤ k' by omega)
      refine .peekAnywhere (fun t token => ?_) (fun t final => ?_) fun t t' final line => ?_
      · simp only [Token.kind_moved]
        split
        · exact (follows_property more t).loosen
        · exact (follows_subscript h more t).loosen
        · exact .pure rfl
      · simp only [Token.kind_moved, final]
        exact .pure rfl
      · simp only [line, final]
        exact .pure rfl

/-- Before a dot or a bracket there is a step. -/
theorem follows_steps (h : r.Follows m n r') (fewer : n ≤ k) (fewer' : n ≤ k') {j : Kind}
    (step : j = .dot ∨ j = .leftBracket) :
    Follows m (.seeing j) false n 1 (chain r k) (chain r' k') (chainMoved m.move) := by
  cases k with
  | zero => exact .vacuous (by omega)
  | succ k =>
    cases k' with
    | zero => exact .vacuous (by omega)
    | succ k' =>
      have more := follows_chain h.less (show n - 1 ≤ k by omega) (show n - 1 ≤ k' by omega)
      refine .peekSeen fun t kind => ?_
      rcases step with rfl | rfl
      · simp only [Token.kind_moved, kind]
        exact (follows_property more t).seeing
      · simp only [Token.kind_moved, kind]
        exact (follows_subscript h more t).seeing

theorem follows_target (h : r.Follows m (n - 1) r') (fewer : n ≤ k) (fewer' : n ≤ k') :
    Follows m at_ false n 1 (target r k) (target r' k') (Target.moved m.move) := by
  refine (follows_expect (by decide) (by decide)).take fun name => ?_
  refine (follows_chain h (by omega) (by omega)).then fun steps => .spanFrom fun s => .pure rfl

theorem fatal_exprList (h : r.Follows m n r') (fewer : n ≤ k) {closer : Kind} (eof : closer ≠ .eof) :
    Fatal n (exprList r closer k) := by
  cases k with
  | zero => exact .vacuous (by omega)
  | succ k => exact .ask (asks_next closer) (by simpa using eof.symm) (h.fatal 0).bind

theorem follows_exprList (h : r.Follows m n r') (fewer : n ≤ k) (fewer' : n ≤ k') {closer : Kind}
    (eof : closer ≠ .eof) (line : closer ≠ .newline) :
    Follows m .anywhere true n 0 (exprList r closer k) (exprList r' closer k')
      (exprsMoved m.move) := by
  induction k generalizing n k' with
  | zero => exact .vacuous (by omega)
  | succ k ih =>
    cases k' with
    | zero => exact .vacuous (by omega)
    | succ k' =>
      have more := ih h.less (by omega) (show n - 1 ≤ k' by omega)
      refine .ask (asks_next closer) (by simpa using eof.symm) (fun _ => by simpa using line.symm)
        (.pure rfl) ((h.part 0).then fun e => .skipSoft ?_ ?_)
      · refine .ask (asks_next .comma) rfl (fun _ => rfl) (Follows.drop (.skip ?_ ?_)).loosen (.pure rfl)
        · exact more.narrow.thenSoft (fun es => .pure rfl) fun _ => .pure
        · exact (fatal_exprList h.less (by omega) eof).bind
      · exact .ask (asks_next .comma) (fun yes => absurd yes (by decide)) fun _ => .pure

theorem follows_bracketed (h : r.Follows m n r') (fewer : n ≤ k) (fewer' : n ≤ k') {closer : Kind}
    (eof : closer ≠ .eof) (line : closer ≠ .newline) :
    Follows m at_ false n 0 (bracketed r k closer) (bracketed r' k' closer) (exprsMoved m.move) := by
  refine .skip ((follows_exprList h fewer fewer' eof line).narrow.close (fun es => ?_) fun es => ?_)
    (fatal_exprList h fewer eof).bind
  · exact (follows_expect eof line).loosen.discarded.then fun _ => .pure rfl
  · exact (fatal_expect eof).discarded.bind

theorem fatal_entries (h : r.Follows m n r') (fewer : n ≤ k) : Fatal n (entries r k) := by
  cases k with
  | zero => exact .vacuous (by omega)
  | succ k => exact .ask (asks_next .rightBrace) rfl (h.fatal 0).bind

theorem follows_entries (h : r.Follows m n r') (fewer : n ≤ k) (fewer' : n ≤ k') :
    Follows m .anywhere true n 0 (entries r k) (entries r' k') (entriesMoved m.move) := by
  induction k generalizing n k' with
  | zero => exact .vacuous (by omega)
  | succ k ih =>
    cases k' with
    | zero => exact .vacuous (by omega)
    | succ k' =>
      have more := ih h.less (by omega) (show n - 1 ≤ k' by omega)
      refine .ask (asks_next .rightBrace) rfl (fun _ => rfl) (.pure rfl) ?_
      refine (h.part 0).then fun key => .skip ?_ (fatal_expect (by decide)).discarded.bind
      refine (follows_expect (by decide) (by decide)).loosen.discarded.then fun _ => ?_
      refine .skip ((h.part 0).then fun value => .skipSoft ?_ ?_) (h.fatal 0).bind
      · refine .ask (asks_next .comma) rfl (fun _ => rfl) (Follows.drop (.skip ?_ ?_)).loosen (.pure rfl)
        · exact more.narrow.thenSoft (fun es => .pure rfl) fun _ => .pure
        · exact (fatal_entries h.less (by omega)).bind
      · exact .ask (asks_next .comma) (fun yes => absurd yes (by decide)) fun _ => .pure

/-! ## Magic words and operands -/

theorem follows_moreArguments (h : r.Follows m n r') (fewer : n ≤ k) (fewer' : n ≤ k') :
    Follows m .anywhere false n 0 (moreArguments r k) (moreArguments r' k') (exprsMoved m.move) := by
  induction k generalizing n k' with
  | zero => exact .vacuous (by omega)
  | succ k ih =>
    cases k' with
    | zero => exact .vacuous (by omega)
    | succ k' =>
      have more := ih h.less (by omega) (show n - 1 ≤ k' by omega)
      refine .ask (asks_next .comma) rfl (fun _ => rfl) (Follows.drop ?_).loosen (.pure rfl)
      exact (h.less.part 0).then fun e => more.then fun es => .pure rfl

theorem follows_arguments (h : r.Follows m n r') (fewer : n ≤ k) (fewer' : n ≤ k') :
    Follows m .anywhere false n 0 (arguments r k) (arguments r' k') (exprsMoved m.move) := by
  refine .peekKindAnywhere (fun j token => ?_) (.pure rfl) (.pure rfl)
  split
  · exact .pure rfl
  · exact (h.part 0).then fun e => (follows_moreArguments h fewer fewer').then fun es => .pure rfl

theorem follows_magic (h : r.Follows m (n - 1) r') (fewer : n ≤ k) (fewer' : n ≤ k') (word : Magic) :
    Follows m .before false n 1 (magic r k word) (magic r' k' word) (Expr.moved m.move) := by
  refine .advance fun t => ?_
  refine (follows_arguments h (by omega) (by omega)).then fun es => .spanFrom fun s => .pure ?_
  simp only [Expr.moved]

theorem follows_unary (h : r.Follows m (n - 1) r') (op : UnaryOp) :
    Follows m .before false n 1 (unary r op) (unary r' op) (Expr.moved m.move) := by
  refine .advance fun t => (h.part unaryPower).then fun e => .spanFrom fun s => .pure ?_
  simp only [Expr.moved]

theorem fatal_operand : Fatal n (operand r k) := by
  refine .peek fun t final => ?_
  simp only [final]
  exact fatal_unexpected

theorem follows_operand (h : r.Follows m (n - 1) r') (fewer : n ≤ k) (fewer' : n ≤ k') :
    Follows m at_ false n 1 (operand r k) (operand r' k') (Expr.moved m.move) := by
  refine .outside (.peek (fun t token => ?_) fun t final => ?_) fatal_operand
  · simp only [Token.kind_moved, Token.lexeme_moved, Token.span_moved]
    split
    case h_1 =>
      refine .drop ?_
      split
      · exact .pure rfl
      · exact .refuse
    case h_2 =>
      refine .drop ?_
      split
      · exact .pure rfl
      · exact .refuse
    case h_3 | h_4 | h_5 => exact .drop (.pure rfl)
    case h_6 =>
      refine (follows_target h fewer fewer').take fun v => .pure ?_
      simp only [Expr.moved, Target.moved]
    case h_7 =>
      refine .drop (.skip ((h.part 0).then fun e => .skip ?_ ?_) (h.fatal 0).bind)
      · exact (follows_expect (by decide) (by decide)).loosen.discarded.then fun _ => .pure rfl
      · exact (fatal_expect (by decide)).discarded.bind
    case h_8 | h_9 | h_10 => exact follows_unary h _
    case h_11 =>
      refine .drop ((follows_bracketed h (by omega) (by omega) (by decide) (by decide)).then
        fun es => .spanFrom fun s => .pure ?_)
      simp only [Expr.moved]
    case h_12 =>
      refine .drop (.skip ?_ (fatal_entries h (by omega)).bind)
      refine (follows_entries h (by omega) (by omega)).narrow.close (fun es => ?_) fun es => ?_
      · refine (follows_expect (by decide) (by decide)).loosen.discarded.then fun _ => ?_
        refine .spanFrom fun s => .pure ?_
        simp only [Expr.moved]
      · exact (fatal_expect (by decide)).discarded.bind
    case h_13 | h_14 | h_15 | h_16 | h_17 => exact follows_magic h fewer fewer' _
    case h_18 => exact .unexpected
  · simp only [Token.kind_moved, final]
    exact .unexpected

/-! ## Extending an operand -/

theorem follows_indexed (left : Expr) (steps : List Index) :
    Follows m at_ false n 0 (indexed left steps) (indexed (left.moved m.move) (chainMoved m.move steps))
      (Expr.moved m.move) := by
  cases left with
  | item s base chain =>
    refine .spanFrom fun s' => .pure ?_
    simp only [Expr.moved, chainMoved_append]
  | _ =>
    refine .spanFrom fun s' => .pure ?_
    simp only [Expr.moved]

/-- A token that binds is a bracket, a dot or an operator. -/
theorem operator_of_leftPower {j : Kind} (binds : 0 < leftPower j) (paren : j ≠ .leftParen)
    (bracket : j ≠ .leftBracket) (dot : j ≠ .dot) : ∃ op, BinaryOp.ofKind? j = some op := by
  refine Option.ne_none_iff_exists'.mp ?_
  revert binds paren bracket dot
  cases j <;> decide

theorem follows_extension (h : r.Follows m n r') (fewer : n ≤ k) (fewer' : n ≤ k') {j : Kind}
    (binds : 0 < leftPower j) (left : Expr) :
    Follows m (.seeing j) false n 1 (extension r k left) (extension r' k' (left.moved m.move))
      (Expr.moved m.move) := by
  refine .peekKindSeen ?_
  split
  · refine (Follows.drop ?_).seeing
    refine (follows_bracketed h.less (by omega) (by omega) (by decide) (by decide)).then fun es => ?_
    rw [Expr.span_moved]
    refine .spanFrom fun s => .pure ?_
    simp only [Expr.moved]
  · exact (follows_steps h fewer fewer' (.inr rfl)).take fun steps => follows_indexed left steps
  · exact (follows_steps h fewer fewer' (.inl rfl)).take fun steps => follows_indexed left steps
  · next paren bracket dot =>
    obtain ⟨op, isOp⟩ := operator_of_leftPower binds paren bracket dot
    rw [isOp]
    refine (Follows.drop (.skip ?_ (h.less.fatal _).bind)).seeing
    refine (h.less.part _).then fun e => ?_
    rw [Expr.span_moved]
    refine .spanFrom fun s => .pure ?_
    simp only [Expr.moved]

theorem follows_extend (h : r.Follows m n r') (fewer : n < k) (fewer' : n < k') (least : Nat)
    (left : Expr) :
    Follows m .anywhere false n 0 (extend r least k left) (extend r' least k' (left.moved m.move))
      (Expr.moved m.move) := by
  induction k generalizing n k' left with
  | zero => exact absurd fewer (Nat.not_lt_zero n)
  | succ k ih =>
    cases k' with
    | zero => exact absurd fewer' (Nat.not_lt_zero n)
    | succ k' =>
      have final : leftPower .eof ≤ least := Nat.zero_le least
      have line : leftPower .newline ≤ least := Nat.zero_le least
      refine .peekKindAnywhere (fun j token => ?_) ?_ ?_
      · by_cases low : leftPower j ≤ least
        · rw [if_pos low, if_pos low]
          exact .pure rfl
        · rw [if_neg low, if_neg low]
          by_cases none : n = 0
          · exact .vacuous none
          · refine ((follows_extension h (by omega) (by omega) (by omega) left).take fun e => ?_).loosen
            exact ih h.less (by omega) (by omega) e
      · rw [if_pos final, if_pos final]
        exact .pure rfl
      · rw [if_pos final, if_pos line]
        exact .pure rfl

theorem follows_expr (h : r.Follows m (n - 1) r') (fewer : n ≤ k) (fewer' : n ≤ k') (least : Nat) :
    Follows m .anywhere false n 1 (expr r k least) (expr r' k' least) (Expr.moved m.move) := by
  by_cases none : n = 0
  · exact .vacuous none
  · refine (follows_operand h fewer fewer').take fun e => ?_
    exact follows_extend h (by omega) (by omega) least e

theorem fatal_expr (least : Nat) : Fatal n (expr r k least) := fatal_operand.bind

/-! ## Assignments -/

theorem follows_assigned (h : r.Follows m n r') :
    Follows m .before false n 1 (assigned r) (assigned r') (Expr.moved m.move) :=
  .drop (.skip (h.less.part 0) (h.less.fatal 0))

theorem follows_constant (h : r.Follows m n r') (fewer : n ≤ k) (fewer' : n ≤ k') :
    Follows m .before false n 1 (constant r k) (constant r' k') (Stmt.moved m.move) := by
  refine .advance fun word => ?_
  refine (follows_target h.less.less (by omega) (by omega)).loosen.then fun left => .skipType ?_
  refine .demand (asks_next .assign) rfl ((follows_assigned h.less).loosen.then fun value => ?_)
  simp only [Target.moved, isEmpty_chainMoved]
  cases left.chain.isEmpty with
  | true => exact .spanFrom fun s => .pure rfl
  | false => exact fun _ _ _ _ _ _ _ => .refused

theorem run_named (r : Rules) (k : Nat) (env : Token) (c : Cursor) :
    ((named r k).run env).run c =
      ((target r k >>= fun left => skipAnnotation >>= fun _ => next .assign >>= fun b =>
        if b = true then assigned r >>= fun value => spanFrom left.span.start >>= fun s =>
          pure (Stmt.assign ⟨s, left, value, false⟩)
        else set c >>= fun _ => r.expr 0 >>= fun e => pure (Stmt.expr e)).run env).run c := rfl

/-- A statement that starts with a name is read again from its start if it is no
assignment. -/
theorem follows_named (h : r.Follows m n r') (fewer : n ≤ k) (fewer' : n ≤ k') :
    Follows m .before false n 1 (named r k) (named r' k') (Stmt.moved m.move) := by
  intro env env' c c' alike few here
  have whole : Follows m .anywhere false n 1 (r.expr 0 >>= fun e => pure (Stmt.expr e))
      (r'.expr 0 >>= fun e => pure (Stmt.expr e)) (Stmt.moved m.move) :=
    (h.expr 0).take fun e => .pure (by simp only [Stmt.moved])
  have value : ∀ left : Target, Follows m .before false (n - 1) 0
      (assigned r >>= fun value => spanFrom left.span.start >>= fun s =>
        pure (Stmt.assign ⟨s, left, value, false⟩))
      (assigned r' >>= fun value => spanFrom (left.moved m.move).span.start >>= fun s =>
        pure (Stmt.assign ⟨s, left.moved m.move, value, false⟩)) (Stmt.moved m.move) :=
    fun left => (follows_assigned h.less).loosen.then fun e => .spanFrom fun s =>
      .pure (by simp only [Stmt.moved, Assignment.moved])
  have start : Follows m .before false n 1 (target r k) (target r' k') (Target.moved m.move) :=
    follows_target h.less fewer fewer'
  have first := start env env' c c' alike few here
  rw [run_named, run_named]
  generalize left : ((target r k).run env).run c = x at first
  generalize right : ((target r' k').run env').run c' = x' at first
  cases first with
  | @both place _ c₁ c₁' same alike₁ taken =>
    subst same
    have annotated : Follows m .anywhere false n 0 skipAnnotation skipAnnotation id :=
      follows_skipType
    have second := annotated env env' c₁ c₁' alike₁ (by omega) trivial
    rw [run_skipType alike.eof, run_skipType alike.eof'] at second
    cases second with
    | both _ alike₂ taken₂ =>
      rw [run_bind_ok left, run_bind_ok (run_skipType alike.eof c₁),
        run_bind_ok (asks_next .assign env _), run_bind_ok right,
        run_bind_ok (run_skipType alike.eof' c₁'), run_bind_ok (asks_next .assign env' _)]
      by_cases arrow : (c₁.pastType.head env).kind = .assign
      · have seen : (Where.seeing .assign).Holds m env c₁.pastType := ⟨by decide, arrow⟩
        have inside : Where.before.Holds m env c₁.pastType := fun done => by
          rw [Cursor.Ended, arrow] at done
          cases done
        rw [alike₂.head_seeing seen, Token.kind_moved, arrow]
        exact (value place env env' _ _ alike₂ (by omega) inside).mono (by omega) id
      · have other : (c₁'.pastType.head env').kind ≠ .assign := by
          rcases alike₂.head with ⟨-, same⟩ | ⟨-, -, line⟩
          · rwa [same, Token.kind_moved]
          · rw [line]
            decide
        rw [if_neg (by simpa using arrow), if_neg (by simpa using other)]
        exact whole env env' c c' alike few trivial
    | ended isSoft => cases isSoft
  | ended isSoft => cases isSoft
  | refused =>
    rw [run_bind_error left, run_bind_error right]
    exact .refused
  | stopped more =>
    rw [run_bind_error left]
    exact .stopped more

/-! ## Choices and loops -/

theorem follows_branch (h : r.Follows m n r') (fewer : n ≤ k) (fewer' : n ≤ k') :
    Follows m .before true n 1 (branch r k) (branch r' k') (Branch.moved m.move) := by
  induction k generalizing n k' with
  | zero => exact .vacuous (by omega)
  | succ k ih =>
    cases k' with
    | zero => exact .vacuous (by omega)
    | succ k' =>
      refine .advance fun word => (h.less.part 0).then fun condition => .skip ?_
        (fatal_expect (by decide)).discarded.bind
      refine (follows_expect (by decide) (by decide)).loosen.discarded.then fun _ => ?_
      refine (h.block _).thenSoft (fun consequence => ?_) fun consequence => ?_
      · refine .ask (asks_next .kwElse) rfl (fun _ => rfl) (Follows.drop ?_).loosen ?_
        · refine .ask (asks_next .kwIf) rfl (fun _ => rfl) ?_ ?_
          · refine (ih h.less.less (by omega) (by omega)).loosen.thenSoft (fun more => ?_) fun more => ?_
            · exact .spanFrom fun s => .pure rfl
            · exact sticks_spanFrom.bind fun _ => .pure
          · refine (h.less.block _).thenSoft (fun body => ?_) fun body => ?_
            · exact .spanFrom fun s => .pure rfl
            · exact sticks_spanFrom.bind fun _ => .pure
        · exact .spanFrom fun s => .pure rfl
      · refine .ask (asks_next .kwElse) (fun yes => absurd yes (by decide)) fun _ => ?_
        exact sticks_spanFrom.bind fun _ => .pure

theorem follows_choice (h : r.Follows m n r') (fewer : n ≤ k) (fewer' : n ≤ k') :
    Follows m .before false n 1 (choice r k) (choice r' k') (Stmt.moved m.move) := by
  have closing : ∀ b, Follows m .anywhere false (n - 1) 0 (closed b) (closed (b.moved m.move))
      (Branch.moved m.move) := by
    rintro ⟨s, condition, consequence, alternative⟩
    simp only [Branch.moved]
    exact .spanFrom fun s => .pure (by simp only [Branch.moved])
  refine (follows_branch h fewer fewer').loosen.close (fun b => ?_) fun b => ?_
  · refine (follows_expectEnd (by decide) (by decide)).take fun _ => ?_
    exact (closing b).then fun b => .pure (by simp only [Stmt.moved])
  · exact (fatal_expectEnd (by decide)).bind

theorem follows_whileLoop (h : r.Follows m n r') :
    Follows m .before false n 1 (whileLoop r) (whileLoop r') (Stmt.moved m.move) := by
  refine .advance fun word => (h.less.part 0).then fun condition => ?_
  refine (h.block _).close (fun body => ?_) fun body => (fatal_expectEnd (by decide)).bind
  refine (follows_expectEnd (by decide) (by decide)).loosen.then fun _ => ?_
  exact .spanFrom fun s => .pure rfl

theorem follows_repeatLoop (h : r.Follows m n r') :
    Follows m .before false n 1 (repeatLoop r) (repeatLoop r') (Stmt.moved m.move) := by
  refine .advance fun word => ?_
  refine (h.block _).close (fun body => ?_) fun body => (fatal_expect (by decide)).discarded.bind
  refine (follows_expect (by decide) (by decide)).loosen.discarded.then fun _ => ?_
  exact (h.less.part 0).then fun condition => .spanFrom fun s => .pure rfl

theorem follows_forBody (h : r.Follows m n r') :
    Follows m .anywhere false (n - 1) 0 (forBody r) (forBody r') (Block.moved m.move) := by
  refine (h.block _).close (fun body => ?_) fun body => (fatal_expectEnd (by decide)).bind
  exact (follows_expectEnd (by decide) (by decide)).loosen.then fun _ => .pure rfl

theorem follows_forLoop (h : r.Follows m n r') :
    Follows m .before false n 1 (forLoop r) (forLoop r') (Stmt.moved m.move) := by
  have rest : ∀ start name first last step, Follows m .anywhere false (n - 1) 0
      (do let body ← forBody r
          return .forRange (← spanFrom start) name first last step body)
      (do let body ← forBody r'
          return .forRange (← spanFrom (m.move start)) name (first.moved m.move)
            (last.moved m.move) (step.map (Expr.moved m.move)) body) (Stmt.moved m.move) :=
    fun _ _ _ _ _ => (follows_forBody h).then fun body => .spanFrom fun s =>
      .pure (by simp only [Stmt.moved])
  refine .advance fun word => (follows_expect (by decide) (by decide)).loosen.then fun name => ?_
  refine .peekKindAnywhere (fun j token => ?_) .unexpected .unexpected
  split
  · refine (Follows.drop ?_).loosen.seeing
    refine (h.less.less.part 0).then fun first => ?_
    refine (follows_expect (by decide) (by decide)).loosen.discarded.then fun _ => ?_
    refine (h.less.less.part 0).then fun last => ?_
    refine .ask (asks_next .kwStep) rfl (fun _ => rfl) (Follows.drop ?_).loosen ?_
    · refine (h.less.less.less.part 0).then fun step => ?_
      exact (rest _ _ _ _ (some step)).within (by omega)
    · exact (rest _ _ _ _ none).within (by omega)
  · refine (Follows.drop ?_).loosen.seeing
    refine (h.less.less.part 0).then fun iterable => ?_
    refine ((follows_forBody h).within (by omega)).then fun body => .spanFrom fun s => .pure ?_
    simp only [Stmt.moved, Token.lexeme_moved]
  · exact .unexpected

/-! ## Definitions -/

theorem sticks_fields (fewer : n ≤ k) : Sticks n (fields k) := by
  cases k with
  | zero => exact .vacuous (by omega)
  | succ k => exact .ask (asks_nextIn _) (fun _ => .pure) fun no => absurd no (by decide)

theorem follows_fields (fewer : n ≤ k) (fewer' : n ≤ k') :
    Follows m .anywhere true n 0 (fields k) (fields k') id := by
  induction k generalizing n k' with
  | zero => exact .vacuous (by omega)
  | succ k ih =>
    cases k' with
    | zero => exact .vacuous (by omega)
    | succ k' =>
      refine .sticking ?_ (sticks_fields fewer)
      refine .askEnd (asks_nextIn _) rfl (.pure rfl) ?_
      have more : ∀ name : Token, Follows m .anywhere true (n - 1) 0
          (do skipNewlines
              return name.lexeme :: (← fields k))
          (do skipNewlines
              return (name.moved m.move).lexeme :: (← fields k')) id := by
        intro name
        refine .skipSoft ?_ ?_
        · exact (ih (by omega) (by omega)).narrow.thenSoft (fun _ => .pure rfl) fun _ => .pure
        · exact (sticks_fields (by omega)).bind fun _ => .pure
      refine ((follows_expect (by decide) (by decide)).take fun name => .skipType ?_).loosen
      refine .ask (asks_next .comma) rfl (fun _ => rfl) ?_ ?_
      · exact (Follows.drop ((more name).within (by omega))).loosen
      · exact .demand (asks_nextIn _) rfl (more name).narrow

theorem follows_record (fewer : n ≤ k) (fewer' : n ≤ k') :
    Follows m .before false n 1 (record k) (record k') (Stmt.moved m.move) := by
  refine .advance fun word => (follows_expect (by decide) (by decide)).loosen.then fun name => ?_
  refine .skip ((follows_fields (by omega) (by omega)).narrow.close (fun names => ?_) fun names => ?_)
    (.after (sticks_fields (by omega)) fun _ => (fatal_expectEnd (by decide)).bind)
  · refine (follows_expectEnd (by decide) (by decide)).loosen.then fun _ => .spanFrom fun s => .pure ?_
    simp only [Stmt.moved, Token.lexeme_moved, id]
  · exact (fatal_expectEnd (by decide)).bind

theorem follows_attempt (h : r.Follows m n r') :
    Follows m .before false n 1 (attempt r) (attempt r') (Stmt.moved m.move) := by
  refine .advance fun word => ?_
  refine (h.block _).close (fun body => ?_) fun body => (fatal_expect (by decide)).discarded.bind
  refine (follows_expect (by decide) (by decide)).loosen.discarded.then fun _ => ?_
  refine (h.block _).close (fun rescue => ?_) fun rescue => (fatal_expectEnd (by decide)).bind
  refine (follows_expectEnd (by decide) (by decide)).loosen.then fun _ => .spanFrom fun s => .pure ?_
  simp only [Stmt.moved]

theorem fatal_params (fewer : n ≤ k) : Fatal n (params k) := by
  cases k with
  | zero => exact .vacuous (by omega)
  | succ k => exact .ask (asks_next .rightParen) rfl (fatal_expect (by decide)).bind

theorem follows_params (fewer : n ≤ k) (fewer' : n ≤ k') :
    Follows m .anywhere true n 0 (params k) (params k') (List.map (Param.moved m.move)) := by
  induction k generalizing n k' with
  | zero => exact .vacuous (by omega)
  | succ k ih =>
    cases k' with
    | zero => exact .vacuous (by omega)
    | succ k' =>
      have more := ih (show n - 1 ≤ k by omega) (show n - 1 ≤ k' by omega)
      refine .ask (asks_next .rightParen) rfl (fun _ => rfl) (.pure rfl) ?_
      refine (follows_expect (by decide) (by decide)).loosen.then fun name => .skipType ?_
      refine .skipSoft ?_ ?_
      · refine .ask (asks_next .comma) rfl (fun _ => rfl) (Follows.drop (.skip ?_ ?_)).loosen (.pure rfl)
        · exact more.narrow.thenSoft (fun ps => .pure rfl) fun _ => .pure
        · exact (fatal_params (by omega)).bind
      · exact .ask (asks_next .comma) (fun yes => absurd yes (by decide)) fun _ => .pure

theorem follows_paramList (fewer : n ≤ k) (fewer' : n ≤ k') :
    Follows m .anywhere false n 0 (paramList k) (paramList k') (List.map (Param.moved m.move)) := by
  refine (follows_expect (by decide) (by decide)).loosen.discarded.then fun _ => ?_
  refine .skip ((follows_params fewer fewer').narrow.close (fun ps => ?_) fun ps => ?_)
    (fatal_params fewer).bind
  · exact (follows_expect (by decide) (by decide)).loosen.discarded.then fun _ => .pure rfl
  · exact (fatal_expect (by decide)).discarded.bind

theorem follows_routine (h : r.Follows m n r') (fewer : n ≤ k) (fewer' : n ≤ k') :
    Follows m .before false n 1 (routine r k) (routine r' k') (Routine.moved m.move) := by
  refine .advance fun word => (follows_expect (by decide) (by decide)).loosen.then fun name => ?_
  refine (follows_paramList (by omega) (by omega)).then fun ps => ?_
  refine (h.block _).close (fun body => ?_) fun body => (fatal_expectEnd (by decide)).bind
  refine (follows_expectEnd (by decide) (by decide)).loosen.then fun _ => .spanFrom fun s => .pure ?_
  simp only [Routine.moved, Token.lexeme_moved]

theorem follows_static (h : r.Follows m n r') :
    Follows m .before false n 1 (static r) (static r') (Assignment.moved m.move) := by
  refine .advance fun name => .skipType ?_
  refine (follows_expect (by decide) (by decide)).loosen.discarded.then fun _ => ?_
  refine (h.less.part 0).then fun value => .spanFrom fun s => .pure ?_
  simp only [Assignment.moved, Target.moved, chainMoved, Token.lexeme_moved, Token.span_moved]

/-- A member of a class with its places moved. -/
abbrev memberMoved (f : Position → Position) : Assignment ⊕ Routine → Assignment ⊕ Routine :=
  Sum.map (Assignment.moved f) (Routine.moved f)

theorem statics_moved (f : Position → Position) (ms : List (Assignment ⊕ Routine)) :
    (ms.map (memberMoved f)).filterMap Sum.getLeft? =
      (ms.filterMap Sum.getLeft?).map (Assignment.moved f) := by
  rw [List.filterMap_map, List.map_filterMap]
  exact congrArg (List.filterMap · ms) (funext fun x => by cases x <;> rfl)

theorem routines_moved (f : Position → Position) (ms : List (Assignment ⊕ Routine)) :
    (ms.map (memberMoved f)).filterMap Sum.getRight? =
      (ms.filterMap Sum.getRight?).map (Routine.moved f) := by
  rw [List.filterMap_map, List.map_filterMap]
  exact congrArg (List.filterMap · ms) (funext fun x => by cases x <;> rfl)

theorem fatal_member : Fatal n (member r k) := .peekKind fatal_unexpected

theorem follows_member (h : r.Follows m n r') (fewer : n ≤ k) (fewer' : n ≤ k') :
    Follows m .anywhere false n 1 (member r k) (member r' k') (memberMoved m.move) := by
  refine .outside (.peekKind (fun j token => ?_) .unexpected) fatal_member
  split
  · exact (follows_routine h fewer fewer').seeing.take fun d => .pure rfl
  · exact (follows_static h).seeing.take fun a => .pure rfl
  · exact .unexpected

theorem follows_members (h : r.Follows m n r') (fewer : n < k) (fewer' : n < k') :
    Follows m .anywhere true n 0 (members r k) (members r' k')
      (List.map (memberMoved m.move)) := by
  induction k generalizing n k' with
  | zero => exact absurd fewer (Nat.not_lt_zero n)
  | succ k ih =>
    cases k' with
    | zero => exact absurd fewer' (Nat.not_lt_zero n)
    | succ k' =>
      by_cases none : n = 0
      · exact .vacuous none
      have more := ih h.less (by omega) (show n - 1 < k' by omega)
      refine .skipSoft ?_ ?_
      · refine .askEnd (asks_nextIn _) rfl (.pure rfl) ?_
        refine ((follows_member h (by omega) (by omega)).narrow.take fun first => ?_).loosen
        refine .demand (asks_nextIn _) rfl ?_
        exact more.narrow.thenSoft (fun ms => .pure rfl) fun _ => .pure
      · exact .ask (asks_nextIn _) (fun _ => .pure) fun no => absurd no (by decide)

theorem follows_classDef (h : r.Follows m n r') (fewer : n ≤ k) (fewer' : n ≤ k') :
    Follows m .before false n 1 (classDef r k) (classDef r' k') (Stmt.moved m.move) := by
  by_cases none : n = 0
  · exact .vacuous none
  refine .advance fun word => (follows_expect (by decide) (by decide)).loosen.then fun name => ?_
  refine (follows_members h.less (by omega) (by omega)).close (fun ms => ?_) fun ms =>
    (fatal_expectEnd (by decide)).bind
  refine (follows_expectEnd (by decide) (by decide)).loosen.then fun _ => .spanFrom fun s => .pure ?_
  simp only [Stmt.moved, Token.lexeme_moved, statics_moved, routines_moved, routinesMoved_eq_map]

theorem follows_load (h : r.Follows m n r') :
    Follows m .before false n 1 (load r) (load r') (Stmt.moved m.move) := by
  refine .advance fun word => (h.less.part 0).then fun location => ?_
  refine .ask (asks_next .kwAs) rfl (fun _ => rfl) (Follows.drop ?_).loosen ?_
  · refine .ask (asks_nextIn _) rfl (fun _ => rfl) (Follows.advance fun nickname => ?_).loosen
      .unexpected
    exact .spanFrom fun s => .pure (by simp only [Stmt.moved, Token.lexeme_moved])
  · exact .spanFrom fun s => .pure (by simp only [Stmt.moved])

/-! ## Statements and blocks -/

theorem fatal_statement (h : r.Follows m n r') : Fatal n (statement r k) :=
  .peekKind (h.fatal 0).bind

theorem follows_statement (h : r.Follows m n r') (fewer : n ≤ k) (fewer' : n ≤ k') :
    Follows m .anywhere false n 1 (statement r k) (statement r' k') (Stmt.moved m.move) := by
  have plain : Follows m .anywhere false n 1 (r.expr 0 >>= fun e => pure (Stmt.expr e))
      (r'.expr 0 >>= fun e => pure (Stmt.expr e)) (Stmt.moved m.move) :=
    (h.expr 0).take fun e => .pure (by simp only [Stmt.moved])
  refine .outside (.peekKind (fun j token => ?_) plain.narrow) (fatal_statement h)
  split
  · exact (follows_constant h fewer fewer').seeing
  · exact (follows_named h fewer fewer').seeing
  · exact (follows_choice h fewer fewer').seeing
  · exact (follows_whileLoop h).seeing
  · exact (follows_repeatLoop h).seeing
  · exact (follows_forLoop h).seeing
  · exact (follows_record fewer fewer').seeing
  · exact (follows_attempt h).seeing
  · exact (follows_routine h fewer fewer').seeing.take fun d => .pure (by simp only [Stmt.moved])
  · exact (follows_classDef h fewer fewer').seeing
  · exact (follows_load h).seeing
  · exact plain.narrow

theorem asks_atStop (closers : List Kind) : Asks (atStop closers) (stopsAt closers) := by
  intro env c
  rw [atStop, run_bind_ok (p := atEnd) (asks_next .eof env c), stopsAt]
  by_cases eof : ((c.head env).kind == .eof) = true
  · rw [if_pos eof, eof]
    rfl
  · rw [if_neg eof, Bool.eq_false_iff.mpr eof, Bool.false_or]
    cases closers with
    | nil => rfl
    | cons closer closers => exact asks_nextIn _ env c

theorem sticks_statements {closers : List Kind} (fewer : n ≤ k) :
    Sticks n (statements r closers k) := by
  cases k with
  | zero => exact .vacuous (by omega)
  | succ k =>
    refine sticks_skipNewlines.bind fun _ => ?_
    exact .ask (asks_atStop closers) (fun _ => .pure) fun no => absurd no (by simp [stopsAt])

/-- What follows a statement in a block: another line, or the end of the block. -/
theorem follows_lineEnd {closers : List Kind} (first : Stmt)
    (more : Follows m .anywhere true n 0 (statements r closers k) (statements r' closers k')
      (stmtsMoved m.move)) :
    Follows m .anywhere true n 0
      (do if ← next .newline then return first :: (← statements r closers k)
          else if ← atStop closers then return [first]
          else unexpected .endOfStatement)
      (do if ← next .newline then return first.moved m.move :: (← statements r' closers k')
          else if ← atStop closers then return [first.moved m.move]
          else unexpected .endOfStatement) (stmtsMoved m.move) := by
  refine .sticking ?_ ?_
  · refine .ask (asks_next .newline) rfl (fun anywhere => absurd anywhere (by decide)) ?_ ?_
    · exact more.narrow.thenSoft (fun _ => .pure rfl) fun _ => .pure
    · exact .askEnd (asks_atStop closers) rfl (.pure rfl) .unexpected
  · refine .ask (asks_next .newline) (fun yes => absurd yes (by decide)) fun _ => ?_
    exact .ask (asks_atStop closers) (fun _ => .pure) fun no => absurd no (by simp [stopsAt])

theorem follows_statements (h : r.Follows m n r') (fewer : n < k) (fewer' : n < k')
    (closers : List Kind) :
    Follows m .anywhere true n 0 (statements r closers k) (statements r' closers k')
      (stmtsMoved m.move) := by
  induction k generalizing n k' with
  | zero => exact absurd fewer (Nat.not_lt_zero n)
  | succ k ih =>
    cases k' with
    | zero => exact absurd fewer' (Nat.not_lt_zero n)
    | succ k' =>
      by_cases none : n = 0
      · exact .vacuous none
      have more := ih h.less (by omega) (show n - 1 < k' by omega)
      refine .skipSoft ?_ ?_
      · refine .askEnd (asks_atStop closers) rfl (.pure rfl) ?_
        refine ((follows_statement h (by omega) (by omega)).narrow.take fun first => ?_).loosen
        exact follows_lineEnd first more
      · exact .ask (asks_atStop closers) (fun _ => .pure) fun no => absurd no (by simp [stopsAt])

theorem follows_block (h : r.Follows m n r') (fewer : n < k) (fewer' : n < k')
    (closers : List Kind) :
    Follows m .anywhere true n 0 (block r k closers) (block r' k' closers) (Block.moved m.move) := by
  have body : ∀ (here : Where) (t : Token), Follows m here true n 0
      (statements r closers k >>= fun body => spanFrom t.span.start >>= fun s =>
        pure (Block.mk s body))
      (statements r' closers k' >>= fun body => spanFrom (t.moved m.move).span.start >>= fun s =>
        pure (Block.mk s body)) (Block.moved m.move) := by
    intro here t
    refine (follows_statements h fewer fewer' closers).narrow.thenSoft (fun body => ?_) fun body => ?_
    · exact .spanFrom fun s => .pure (by simp only [Block.moved])
    · exact sticks_spanFrom.bind fun _ => .pure
  refine .sticking (.peek (fun t _ => body _ t) fun t _ => body _ t) ?_
  refine sticks_peek.bind fun t => ?_
  exact (sticks_statements (by omega)).bind fun body => sticks_spanFrom.bind fun _ => .pure

/-- Rules that may nest as deep as there are tokens follow each other. -/
theorem follows_rules (fewer : n < k) (fewer' : n < k') : (rules k).Follows m n (rules k') := by
  induction k generalizing n k' with
  | zero => exact absurd fewer (Nat.not_lt_zero n)
  | succ k ih =>
    cases k' with
    | zero => exact absurd fewer' (Nat.not_lt_zero n)
    | succ k' =>
      refine ⟨fun least => ?_, fun least => ?_, fun closers => ?_⟩
      · by_cases none : n = 0
        · exact .vacuous none
        exact follows_expr (ih (by omega) (by omega)) (by omega) (by omega) least
      · exact fatal_expr least
      · by_cases none : n = 0
        · exact .vacuous (by omega)
        exact follows_block (ih (by omega) (by omega)) (by omega) (by omega) closers

end Pseudocode.Grammar
