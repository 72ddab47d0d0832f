import Pseudocode.Proofs.Composition.Lines
import Pseudocode.Proofs.Composition.Productions
/-
# `Proofs.Composition.Program` — a program line after line

If a text is a program, then with a line end and another text after it it is one
exactly if the other text is, and its statements are those of both
(`parse_append_line`).  What is wrong with the whole is what is wrong with the
second text, at a place further down.

The tokens of the first text are read as they are read alone: up to where they
end, by `Follows` with the rest as the tail of the pairing.  From there on the
tokens of the second text are read as they are alone, by `Follows` again, with
their places moved.  In between the whole differs from the second text only in
that a token has been taken before, and no statement depends on that (`Fresh`).
-/
namespace Pseudocode.Grammar

/-! ## What was taken before -/

section Fresh

variable {α β : Type} {n : Nat} {r : Rules}

/-- Before a token, what was taken last makes no difference. -/
def Fresh (p : Parser α) : Prop :=
  ∀ (env : Token) (l l' : Option Token) (t : Token) (ts : List Token),
    (p.run env).run ⟨l, t :: ts⟩ = (p.run env).run ⟨l', t :: ts⟩

theorem Fresh.bind {p : Parser α} {q : α → Parser β} (hp : Fresh p) : Fresh (p >>= q) := by
  intro env l l' t ts
  rw [run_bind_eq, run_bind_eq, hp env l l']

theorem Fresh.peek {q : Token → Parser β} (hq : ∀ t, Fresh (q t)) : Fresh (peek >>= q) :=
  fun env l l' t ts => hq t env l l' t ts

theorem Fresh.peekKind {q : Kind → Parser β} (hq : ∀ k, Fresh (q k)) : Fresh (peekKind >>= q) :=
  fun env l l' t ts => hq t.kind env l l' t ts

theorem Fresh.ask {t : Parser Bool} {f : Kind → Bool} {yes no : Parser β} (asks : Asks t f)
    (hyes : Fresh yes) (hno : Fresh no) :
    Fresh (t >>= fun b => if b = true then yes else no) := by
  intro env l l' u us
  rw [run_bind_ok (asks env _), run_bind_ok (asks env _)]
  show ((if f u.kind = true then yes else no).run env).run _ =
    ((if f u.kind = true then yes else no).run env).run _
  cases f u.kind with
  | true => exact hyes env l l' u us
  | false => exact hno env l l' u us

theorem fresh_advance : Fresh advance := fun _ _ _ _ _ => rfl

theorem fresh_drop : Fresh (discard advance) := fun _ _ _ _ _ => rfl

theorem fresh_exhausted : Fresh (exhausted : Parser α) := fun _ _ _ _ _ => rfl

theorem fresh_unexpected {e : Expectation} : Fresh (unexpected e : Parser α) :=
  fun _ _ _ _ _ => rfl

theorem fresh_expect {k : Kind} : Fresh (expect k) :=
  .ask (asks_next k) fresh_advance fresh_unexpected

theorem fresh_target : Fresh (target r n) := fresh_expect.bind

theorem fresh_operand : Fresh (operand r n) := by
  refine .peek fun t => ?_
  split
  case h_6 => exact fresh_target.bind
  case h_8 | h_9 | h_10 => exact fresh_advance.bind
  case h_13 | h_14 | h_15 | h_16 | h_17 => exact fresh_advance.bind
  case h_18 => exact fresh_unexpected
  all_goals exact fresh_drop.bind

theorem fresh_expr (n least : Nat) : Fresh ((rules n).expr least) := by
  cases n with
  | zero => exact fresh_exhausted
  | succ n => exact fresh_operand.bind

theorem fresh_named (h : Fresh (r.expr 0)) : Fresh (named r n) := by
  intro env l l' t ts
  rw [run_named, run_named, run_bind_eq, run_bind_eq, fresh_target env l l']
  -- The place to come back to differs, and an expression is read there.
  have again : (((r.expr 0 >>= fun e => pure (Stmt.expr e)).run env).run ⟨l, t :: ts⟩) =
      ((r.expr 0 >>= fun e => pure (Stmt.expr e)).run env).run ⟨l', t :: ts⟩ := h.bind env l l' t ts
  refine congrArg (_ >>= ·) (funext fun first => ?_)
  rw [run_bind_eq, run_bind_eq]
  refine congrArg (_ >>= ·) (funext fun second => ?_)
  rw [run_bind_ok (asks_next .assign env _), run_bind_ok (asks_next .assign env _)]
  by_cases arrow : ((second.2.head env).kind == .assign) = true
  · rw [if_pos arrow, if_pos arrow]
  · rw [if_neg arrow, if_neg arrow]
    exact again

theorem fresh_statement (h : Fresh (r.expr 0)) : Fresh (statement r n) := by
  refine .peekKind fun k => ?_
  split
  case h_2 => exact fresh_named h
  case h_3 =>
    cases n with
    | zero => exact fresh_exhausted.bind
    | succ n => exact fresh_advance.bind.bind
  case h_9 => exact fresh_advance.bind.bind
  case h_12 => exact h.bind
  all_goals exact fresh_advance.bind

end Fresh

/-! ## Statements, one after the other -/

variable {r r' : Rules} {n k k' : Nat} {env env' : Token} {more : List Token} {t : Token}

/-- Where the parser stands after line breaks. -/
def Cursor.pastBreaks (c : Cursor) : Cursor :=
  ⟨(c.rest.takeWhile (·.kind == .newline)).getLast?.or c.last,
    c.rest.dropWhile (·.kind == .newline)⟩

theorem run_skipNewlines (env : Token) (c : Cursor) :
    (skipNewlines.run env).run c = .ok ((), c.pastBreaks) := rfl

/-- One statement of a block and those after it. -/
theorem run_statements (r : Rules) (closers : List Kind) (k : Nat) (env : Token) (c : Cursor) :
    ((statements r closers (k + 1)).run env).run c =
      if stopsAt closers (c.pastBreaks.head env).kind = true then .ok ([], c.pastBreaks)
      else ((statement r k).run env).run c.pastBreaks >>= fun x =>
        if (x.2.head env).kind = .newline then
          (((statements r closers k).run env).run x.2).map fun y => (x.1 :: y.1, y.2)
        else if stopsAt closers (x.2.head env).kind = true then .ok ([x.1], x.2)
        else .error (.refused ⟨x.2.head env, .misplaced .endOfStatement⟩) := by
  rw [statements, run_bind_ok (run_skipNewlines env c), run_bind_ok (asks_atStop closers env _)]
  split
  · rfl
  · rw [run_bind_eq]
    refine congrArg (_ >>= ·) (funext fun x => ?_)
    rw [run_bind_ok (asks_next .newline env _)]
    by_cases line : (x.2.head env).kind = .newline
    · rw [if_pos (by simpa using line), if_pos line, run_bind_eq]
      cases ((statements r closers k).run env).run x.2 <;> rfl
    · rw [if_neg (by simpa using line), if_neg line, run_bind_ok (asks_atStop closers env _)]
      split
      · rfl
      · exact run_unexpected _ env _

/-- The statements of a block end before its closer. -/
theorem stopsAt_of_statements {closers : List Kind} {c c₁ : Cursor} {body : List Stmt}
    (run : ((statements r closers k).run env).run c = .ok (body, c₁)) :
    stopsAt closers (c₁.head env).kind = true := by
  induction k generalizing c body with
  | zero => cases run
  | succ k ih =>
    rw [run_statements] at run
    split at run
    · next stop =>
      cases run
      exact stop
    · generalize ((statement r k).run env).run c.pastBreaks = x at run
      cases x with
      | error e => cases run
      | ok x =>
        replace run : (if (x.2.head env).kind = .newline then _ else _) = _ := run
        split at run
        · generalize later : ((statements r closers k).run env).run x.2 = y at run
          cases y with
          | error e => cases run
          | ok y =>
            cases run
            exact ih later
        · split at run
          · next stop =>
            cases run
            exact stop
          · cases run

/-- What was taken before the first statement shows only in the cursor. -/
theorem run_statements_fresh {closers : List Kind} (fresh : Fresh (r.expr 0))
    (eof : env.kind = .eof) (l l' : Option Token) (ts : List Token) :
    (((statements r closers k).run env).run ⟨l, ts⟩).map Prod.fst =
      (((statements r closers k).run env).run ⟨l', ts⟩).map Prod.fst := by
  cases k with
  | zero => rfl
  | succ k =>
    rw [run_statements, run_statements]
    unfold Cursor.pastBreaks
    dsimp only
    generalize (ts.takeWhile (·.kind == .newline)).getLast?.or l = before
    generalize (ts.takeWhile (·.kind == .newline)).getLast?.or l' = before'
    cases ts.dropWhile (·.kind == .newline) with
    | nil =>
      have stop : stopsAt closers env.kind = true := by rw [eof]; rfl
      show Except.map Prod.fst (if stopsAt closers env.kind = true then _ else _) =
        Except.map Prod.fst (if stopsAt closers env.kind = true then _ else _)
      rw [if_pos stop, if_pos stop]
      rfl
    | cons u us =>
      show Except.map Prod.fst (if stopsAt closers u.kind = true then _ else _) =
        Except.map Prod.fst (if stopsAt closers u.kind = true then _ else _)
      split
      · rfl
      · rw [fresh_statement fresh env before before']

/-! ## The tokens of the first text -/

/-- The right tokens go on with the end of a line. -/
def Pairing.line (t : Token) (more : List Token) (line : t.kind = .newline) : Pairing :=
  ⟨id, some (t :: more), by simp [line]⟩

theorem pastBreaks_cons (line : t.kind = .newline) (l : Option Token) (ts : List Token) :
    (Cursor.mk l (t :: ts)).pastBreaks = (Cursor.mk (some t) ts).pastBreaks := by
  have isBreak : (t.kind == .newline) = true := by rw [line]; rfl
  simp only [Cursor.pastBreaks, List.takeWhile_cons, List.dropWhile_cons, isBreak, if_true]
  rw [List.getLast?_cons]
  cases (ts.takeWhile (·.kind == .newline)).getLast? <;> rfl

/-- Line breaks up to the end of the left tokens go on into the next line. -/
theorem pastBreaks_line {line : t.kind = .newline} {us vs : List Token}
    (tokens : (Pairing.line t more line).Tokens us vs)
    (breaks : ∃ e : Token, us.dropWhile (·.kind == .newline) = [e] ∧ e.kind = .eof)
    (l : Option Token) :
    (Cursor.mk l vs).pastBreaks = (Cursor.mk (some t) more).pastBreaks := by
  induction tokens generalizing l with
  | nil shut => cases shut
  | @last e ts tail eof =>
    cases tail
    exact pastBreaks_cons line l more
  | @cons u us vs inside rest ih =>
    by_cases isBreak : u.kind = .newline
    · rw [List.dropWhile_cons_of_pos (by rw [isBreak]; rfl)] at breaks
      exact (pastBreaks_cons (t := u.moved _) isBreak l vs).trans (ih breaks _)
    · obtain ⟨e, final, eof⟩ := breaks
      rw [List.dropWhile_cons_of_neg (by simpa using isBreak)] at final
      cases final
      rcases inside with shut | token
      · cases shut
      · exact absurd eof token

/-- A statement that the left tokens hold is read the same on the right. -/
theorem run_statement_line {line : t.kind = .newline} (h : r.Follows (.line t more line) n r')
    (fresh : Fresh (r.expr 0)) (fresh' : Fresh (r'.expr 0)) (eof : env.kind = .eof)
    (eof' : env'.kind = .eof) (fewer : n ≤ k) (fewer' : n ≤ k') {u : Token} {us vs : List Token}
    (tokens : (Pairing.line t more line).Tokens (u :: us) (u :: vs)) (few : us.length + 1 < n)
    (l l' : Option Token) {s : Stmt} {c : Cursor}
    (run : ((statement r k).run env).run ⟨l, u :: us⟩ = .ok (s, c)) :
    ∃ c', ((statement r' k').run env').run ⟨l', u :: vs⟩ = .ok (s, c') ∧
      (Pairing.line t more line).Alike env env' c c' ∧ c.rest.length ≤ us.length := by
  have alike : (Pairing.line t more line).Alike env env' ⟨some u, u :: us⟩ ⟨some u, u :: vs⟩ :=
    ⟨eof, eof', fun shut => absurd shut (by simp [Pairing.line]), rfl, fun _ => by simp, tokens⟩
  have both := follows_statement h fewer fewer' env env' _ _ alike few trivial
  rw [fresh_statement fresh env l (some u)] at run
  rw [fresh_statement fresh' env' l' (some u)]
  rw [run] at both
  generalize ((statement r' k').run env').run ⟨some u, u :: vs⟩ = x at both ⊢
  cases both with
  | both same alike taken =>
    subst same
    exact ⟨_, by rw [(Stmt.moved_eq_self s).mpr fun _ _ => rfl], alike, by simpa using taken⟩
  | ended isSoft => cases isSoft

/-- At the end of the left tokens only the end of input is left. -/
theorem Pairing.Tokens.final {line : t.kind = .newline} {c : Cursor} {vs : List Token}
    (tokens : (Pairing.line t more line).Tokens c.rest vs) (done : c.Ended env) :
    ∃ e : Token, c.rest.dropWhile (·.kind == .newline) = [e] ∧ e.kind = .eof := by
  obtain ⟨l, us⟩ := c
  dsimp only at tokens ⊢
  cases tokens with
  | nil shut => cases shut
  | @last e _ tail isEof =>
    exact ⟨e, List.dropWhile_cons_of_neg (by rw [isEof]; decide), isEof⟩
  | cons inside rest =>
    rcases inside with shut | token
    · cases shut
    · exact absurd done token

/-- Where only line breaks are left on the left, the right goes on into the next
line. -/
theorem run_statements_breaks {line : t.kind = .newline} {us vs : List Token}
    (tokens : (Pairing.line t more line).Tokens us vs)
    (breaks : ∃ e : Token, us.dropWhile (·.kind == .newline) = [e] ∧ e.kind = .eof)
    (l : Option Token) :
    ((statements r' [] k).run env').run ⟨l, vs⟩ =
      ((statements r' [] k).run env').run ⟨some t, more⟩ := by
  cases k with
  | zero => rfl
  | succ k => rw [run_statements, run_statements, pastBreaks_line tokens breaks]

/-- The right reads `body` up to the line end, and then what stands after it. -/
def Continues (r' : Rules) (k' : Nat) (env' t : Token) (more : List Token) (size : Nat)
    (body : List Stmt) (x : Except Halt (List Stmt × Cursor)) : Prop :=
  ∃ j, k' ≤ j + size ∧
    x = (((statements r' [] j).run env').run ⟨some t, more⟩).map fun y => (body ++ y.1, y.2)

/-- After a statement the left tokens end, or another line follows. -/
theorem continues_lineEnd {line : t.kind = .newline} {c c' : Cursor} {s : Stmt}
    {body : List Stmt} {c₁ : Cursor}
    (alike : (Pairing.line t more line).Alike env env' c c')
    (next : ∀ body, ((statements r [] k).run env).run c = .ok (body, c₁) →
      Continues r' k' env' t more c.rest.length body (((statements r' [] k').run env').run c'))
    (run : (if (c.head env).kind = .newline then
        (((statements r [] k).run env).run c).map fun y => (s :: y.1, y.2)
      else if stopsAt [] (c.head env).kind = true then .ok ([s], c)
      else .error (.refused ⟨c.head env, .misplaced .endOfStatement⟩)) = .ok (body, c₁)) :
    Continues r' k' env' t more c.rest.length body
      (if (c'.head env').kind = .newline then
        (((statements r' [] k').run env').run c').map fun y => (s :: y.1, y.2)
      else if stopsAt [] (c'.head env').kind = true then .ok ([s], c')
      else .error (.refused ⟨c'.head env', .misplaced .endOfStatement⟩)) := by
  rcases alike.head with ⟨here, same⟩ | ⟨-, done, isLine⟩
  · split at run
    · next isBreak =>
      rw [if_pos (by rw [same]; exact isBreak)]
      generalize later : ((statements r [] k).run env).run c = y at run
      cases y with
      | error e => cases run
      | ok y =>
        cases run
        obtain ⟨j, enough, right⟩ := next y.1 later
        refine ⟨j, enough, ?_⟩
        rw [right]
        cases ((statements r' [] j).run env').run ⟨some t, more⟩ <;> rfl
    · split at run
      · next stop =>
        have done : (c.head env).kind = .eof := by simpa [stopsAt] using stop
        exact absurd done (here.resolve_left (by simp [Pairing.line]))
      · cases run
  · rw [if_neg (by rw [done]; decide), if_pos (by rw [done]; rfl)] at run
    cases run
    refine ⟨k', Nat.le_add_right _ _, ?_⟩
    rw [if_pos isLine, run_statements_breaks alike.rest (alike.rest.final done) c'.last]
    rfl

/-- The statements of the left tokens are read on the right, and then those after
the line end. -/
theorem run_statements_line {line : t.kind = .newline} (h : r.Follows (.line t more line) n r')
    (fresh : Fresh (r.expr 0)) (fresh' : Fresh (r'.expr 0)) (eof : env.kind = .eof)
    (eof' : env'.kind = .eof) (fewer : n < k) (fewer' : n < k') {us vs : List Token}
    (tokens : (Pairing.line t more line).Tokens us vs) (few : us.length < n)
    (l l' : Option Token) {body : List Stmt} {c : Cursor}
    (run : ((statements r [] k).run env).run ⟨l, us⟩ = .ok (body, c)) :
    Continues r' k' env' t more us.length body
      (((statements r' [] k').run env').run ⟨l', vs⟩) := by
  induction k generalizing n k' us vs l l' body with
  | zero => exact absurd fewer (Nat.not_lt_zero n)
  | succ k ih =>
    cases k' with
    | zero => exact absurd fewer' (Nat.not_lt_zero n)
    | succ k' =>
      rw [run_statements] at run
      by_cases breaks : ∃ e : Token, us.dropWhile (·.kind == .newline) = [e] ∧ e.kind = .eof
      · have stop : stopsAt [] ((Cursor.mk l us).pastBreaks.head env).kind = true := by
          obtain ⟨e, final, isEof⟩ := breaks
          show stopsAt [] ((us.dropWhile (·.kind == .newline)).head?.getD env).kind = true
          rw [final]
          show stopsAt [] e.kind = true
          rw [isEof]
          rfl
        rw [if_pos stop] at run
        cases run
        refine ⟨k' + 1, Nat.le_add_right _ _, ?_⟩
        rw [run_statements_breaks tokens breaks l']
        cases ((statements r' [] (k' + 1)).run env').run ⟨some t, more⟩ <;> rfl
      · obtain ⟨-, ended⟩ | ⟨tokens₁, -⟩ := tokens.skip
        · exact absurd ended breaks
        have fewer₁ := (List.dropWhile_sublist (l := us) (·.kind == .newline)).length_le
        rw [run_statements]
        unfold Cursor.pastBreaks at run ⊢
        dsimp only at run ⊢
        generalize (us.takeWhile (·.kind == .newline)).getLast?.or l = before at run
        generalize (vs.takeWhile (·.kind == .newline)).getLast?.or l' = before'
        generalize us.dropWhile (·.kind == .newline) = us₁ at *
        generalize vs.dropWhile (·.kind == .newline) = vs₁ at *
        cases tokens₁ with
        | nil shut => cases shut
        | @last e _ tail isEof => exact absurd ⟨e, rfl, isEof⟩ breaks
        | @cons u us₂ vs₂ inside rest =>
          have token : u.kind ≠ .eof := inside.resolve_left (by simp [Pairing.line])
          have go : ∀ env l us, ¬ stopsAt [] ((Cursor.mk l (u :: us)).head env).kind = true := by
            intro env l us
            simpa [Cursor.head, stopsAt] using token
          rw [List.length_cons] at fewer₁
          rw [if_neg (go _ _ _)] at run
          have go' : ¬ stopsAt [] ((Cursor.mk before'
            (u.moved (Pairing.line t more line).move :: vs₂)).head env').kind = true := go _ _ _
          rw [if_neg go']
          generalize first : ((statement r k).run env).run ⟨before, u :: us₂⟩ = x at run
          cases x with
          | error e => cases run
          | ok x =>
            obtain ⟨s, c₁⟩ := x
            obtain ⟨c₁', first', alike, taken⟩ := run_statement_line h fresh fresh' eof eof'
              (show n ≤ k by omega) (show n ≤ k' by omega) (.cons inside rest) (by omega) before
              before' first
            have first'' : ((statement r' k').run env').run
              ⟨before', u.moved (Pairing.line t more line).move :: vs₂⟩ = .ok (s, c₁') := first'
            rw [first'']
            obtain ⟨j, enough, right⟩ := continues_lineEnd alike (fun body later =>
              ih h.less (by omega) (show n - 1 < k' by omega) alike.rest (by omega) c₁.last c₁'.last later) run
            exact ⟨j, by omega, right⟩

/-! ## Whole programs -/

variable {f : Position → Position} {tokens : List Token}

/-- The right tokens are those of the left, with their places moved. -/
def Pairing.whole (f : Position → Position) : Pairing := ⟨f, none, by simp⟩

theorem Pairing.Tokens.whole (f : Position → Position) (tokens : List Token) :
    (Pairing.whole f).Tokens tokens (tokens.map (Token.moved f)) := by
  induction tokens with
  | nil => exact .nil rfl
  | cons t tokens ih => exact .cons (.inl rfl) ih

theorem endOf_moved (some : tokens ≠ []) :
    endOf (tokens.map (Token.moved f)) = (endOf tokens).moved f := by
  obtain ⟨ts, t, rfl⟩ := List.eq_nil_or_concat tokens |>.resolve_left some
  simp [endOf, Token.endOfInput, Token.moved, Span.moved]

theorem kind_endOf (tokens : List Token) : (endOf tokens).kind = .eof := by
  unfold endOf
  split <;> rfl

theorem Pairing.Alike.whole (some : tokens ≠ []) :
    (Pairing.whole f).Alike (endOf tokens) (endOf (tokens.map (Token.moved f))) ⟨none, tokens⟩
      ⟨none, tokens.map (Token.moved f)⟩ :=
  ⟨kind_endOf _, kind_endOf _, fun _ => endOf_moved some, rfl, fun more => absurd rfl more,
    .whole f tokens⟩

/-- What a run of a parser means for the program. -/
def outcome {α : Type} (env : Token) : Except Halt α → Except Refusal α
  | .ok a => .ok a
  | .error (.refused r) => .error r
  | .error .exhausted => .error ⟨env, .misplaced .statement⟩

theorem program_eq (tokens : List Token) : program tokens = outcome (endOf tokens)
    ((((wholeProgram (depthBound tokens)).run (endOf tokens)).run ⟨none, tokens⟩).map Prod.fst) := by
  unfold program
  generalize ((wholeProgram (depthBound tokens)).run (endOf tokens)).run ⟨none, tokens⟩ = x
  rcases x with e | ⟨body, c⟩
  · cases e <;> rfl
  · rfl

theorem follows_wholeProgram {m : Pairing} (fewer : n + 1 < k) (fewer' : n + 1 < k') :
    Follows m .anywhere true n 0 (wholeProgram k) (wholeProgram k') (Block.moved m.move) := by
  have rules := follows_rules (m := m) fewer fewer'
  refine (rules.block []).thenSoft (fun body => ?_) fun body => ?_
  · exact .askEnd (t := atEnd) (asks_next .eof) rfl (.pure rfl) .unexpected
  · exact .ask (t := atEnd) (asks_next .eof) (fun _ => .pure) fun no => absurd no (by decide)

/-- Reading tokens does not depend on their places. -/
theorem program_moved (some : tokens ≠ []) : program (tokens.map (Token.moved f)) =
    ((program tokens).map (Block.moved f)).mapError (Refusal.moved f) := by
  have fewer : tokens.length + 1 + 1 < depthBound tokens := by simp [depthBound]
  have fewer' : tokens.length + 1 + 1 < depthBound (tokens.map (Token.moved f)) := by
    simp [depthBound]
  have both := follows_wholeProgram fewer fewer' _ _ _ _ (.whole (f := f) some)
    (Nat.lt_succ_self _) trivial
  rw [program_eq, program_eq]
  generalize ((wholeProgram (depthBound tokens)).run (endOf tokens)).run ⟨none, tokens⟩ = x at both ⊢
  generalize ((wholeProgram _).run _).run ⟨none, tokens.map (Token.moved f)⟩ = x' at both ⊢
  cases both with
  | both same alike taken =>
    subst same
    rfl
  | ended isSoft more => exact absurd rfl more
  | refused => rfl
  | stopped more => exact absurd rfl more

/-- The statements of a program. -/
theorem program_body (tokens : List Token) : (program tokens).map Block.body =
    outcome (endOf tokens) ((((statements (rules (tokens.length + 3)) []
      (tokens.length + 3)).run (endOf tokens)).run ⟨none, tokens⟩).map Prod.fst) := by
  have block : (rules (depthBound tokens)).block [] = Grammar.block (rules (tokens.length + 3))
    (tokens.length + 3) [] := rfl
  rw [program_eq, wholeProgram, block, Grammar.block]
  generalize endOf tokens = env
  generalize run : ((statements _ [] _).run env).run ⟨none, tokens⟩ = x
  cases x with
  | error e =>
    rw [run_bind_error (e := e)]
    · cases e <;> rfl
    · rw [run_bind_ok (run_peek _ _), run_bind_error run]
  | ok x =>
    obtain ⟨body, c⟩ := x
    have stop : ((c.head env).kind == .eof) = true := by
      simpa [stopsAt] using stopsAt_of_statements run
    obtain ⟨s, span⟩ := run_spanFrom ((Cursor.mk none tokens).head env).span.start env c
    have read : ((peek >>= fun t => statements (rules (tokens.length + 3)) [] (tokens.length + 3) >>=
        fun body => spanFrom t.span.start >>= fun s => pure (Block.mk s body)).run env).run
          ⟨none, tokens⟩ = .ok (.mk s body, c) := by
      rw [run_bind_ok (run_peek _ _), run_bind_ok run, run_bind_ok span]
      rfl
    rw [run_bind_ok read, run_bind_ok (p := atEnd) (asks_next .eof env c)]
    dsimp only
    rw [if_pos stop]
    rfl

/-- The tokens of an accepted program, and beside them those of a longer text. -/
theorem Pairing.Tokens.line {ts : List Token} {last : Token} (eof : last.kind = .eof)
    (inside : ∀ t ∈ ts, t.kind ≠ .eof) (line : t.kind = .newline) :
    (Pairing.line t more line).Tokens (ts ++ [last]) (ts ++ t :: more) := by
  induction ts with
  | nil => exact .last rfl eof
  | cons u ts ih =>
    exact .cons (t := u) (.inr (inside u List.mem_cons_self))
      (ih fun v mem => inside v (List.mem_cons_of_mem u mem))

theorem run_of_program {first : Block} (accepted : program tokens = .ok first) :
    ∃ c, ((statements (rules (tokens.length + 3)) [] (tokens.length + 3)).run
      (endOf tokens)).run ⟨none, tokens⟩ = .ok (first.body, c) := by
  have body := program_body tokens
  rw [accepted] at body
  generalize ((statements _ [] _).run _).run ⟨none, tokens⟩ = x at body ⊢
  rcases x with e | ⟨found, c⟩
  · cases e <;> cases body
  · cases body
    exact ⟨c, rfl⟩

/-- The statements of two token lists with a line end between them. -/
theorem program_line {ts : List Token} {last : Token} {first : Block} (eof : last.kind = .eof)
    (inside : ∀ t ∈ ts, t.kind ≠ .eof) (line : t.kind = .newline) (some : tokens ≠ [])
    (accepted : program (ts ++ [last]) = .ok first) :
    (program (ts ++ t :: tokens.map (Token.moved f))).map Block.body =
      ((program tokens).map fun second => first.body ++ stmtsMoved f second.body).mapError
        (Refusal.moved f) := by
  have size : (ts ++ t :: tokens.map (Token.moved f)).length =
      (ts ++ [last]).length + tokens.length := by simp; omega
  have final : endOf (ts ++ t :: tokens.map (Token.moved f)) =
      endOf (tokens.map (Token.moved f)) := by
    have more : tokens.map (Token.moved f) ≠ [] := by simpa using some
    rw [endOf, List.append_cons, List.getLast?_append_of_ne_nil _ more]
    rfl
  obtain ⟨c, run⟩ := run_of_program accepted
  generalize atEnd : endOf (tokens.map (Token.moved f)) = env' at final
  have eof' : env'.kind = .eof := by
    rw [← atEnd]
    exact kind_endOf _
  generalize long : (ts ++ t :: tokens.map (Token.moved f)).length = k' at size
  -- The whole is read like the first list up to where that ends …
  have rules₁ : (rules ((ts ++ [last]).length + 3)).Follows
      (.line t (tokens.map (Token.moved f)) line) ((ts ++ [last]).length + 1) (rules (k' + 3)) :=
    follows_rules (by omega) (by omega)
  obtain ⟨j, enough, whole⟩ := run_statements_line rules₁ (fresh_expr _ 0) (fresh_expr _ 0)
    (kind_endOf _) eof' (by omega) (show _ < k' + 3 by omega) (.line eof inside line)
    (Nat.lt_succ_self _) none none run
  -- … and from there on like the second.
  have rules₂ : (rules (tokens.length + 3)).Follows (.whole f) (tokens.length + 1)
      (rules (k' + 3)) := follows_rules (by omega) (by omega)
  have second := follows_statements rules₂ (show _ < tokens.length + 3 by omega)
    (show _ < j by omega) [] _ _ _ _ (.whole some) (Nat.lt_succ_self _) trivial
  have unseen : (((statements (rules (k' + 3)) [] j).run env').run
        ⟨.some t, tokens.map (Token.moved f)⟩).map Prod.fst =
      (((statements (rules (k' + 3)) [] j).run env').run
        ⟨none, tokens.map (Token.moved f)⟩).map Prod.fst :=
    run_statements_fresh (fresh_expr _ 0) eof' _ _ _
  have prepended : ∀ x : Except Halt (List Stmt × Cursor),
      (x.map fun y => (first.body ++ y.1, y.2)).map Prod.fst =
        (x.map Prod.fst).map (first.body ++ ·) := by
    rintro (e | x) <;> rfl
  have composed : (program tokens).map (fun second => first.body ++ stmtsMoved f second.body) =
      ((program tokens).map Block.body).map (first.body ++ stmtsMoved f ·) := by
    cases program tokens <;> rfl
  rw [program_body, long, final, whole, prepended, unseen, composed, program_body, ← atEnd]
  generalize ((statements _ [] _).run _).run ⟨none, tokens⟩ = x at second ⊢
  generalize ((statements _ [] _).run _).run ⟨none, tokens.map _⟩ = x' at second ⊢
  cases second with
  | both same alike taken =>
    subst same
    rfl
  | ended isSoft more => exact absurd rfl more
  | refused => rfl
  | stopped more => exact absurd rfl more

end Pseudocode.Grammar

namespace Pseudocode

open Grammar

variable {f : Position → Position} {tokens : List Token} {r : Refusal}

/-! ## Source texts -/

/-- What leaves the tokens where they are leaves the one that is refused there. -/
theorem Grammar.Refusal.moved_eq_self (some : tokens ≠ [])
    (still : tokens.map (Token.moved f) = tokens) (refused : program tokens = .error r) :
    r.moved f = r := by
  have same := program_moved (f := f) some
  rw [still, refused] at same
  injection same with same
  exact same.symm

/-- A token that is refused stands where the tokens stand. -/
theorem Grammar.Refusal.inText (some : tokens ≠ []) (inText : ∀ t ∈ tokens, 1 ≤ t.span.start.line)
    (inText' : ∀ t ∈ tokens, 1 ≤ t.span.stop.line) (refused : program tokens = .error r) :
    1 ≤ r.token.span.start.line := by
  -- Moving all other places to the first line moves no token, and so not this one.
  let f : Position → Position := fun p => if 1 ≤ p.line then p else { p with line := 1 }
  have still : tokens.map (Token.moved f) = tokens := by
    refine (map_eq_self tokens).mpr fun t mem => ?_
    have start : f t.span.start = t.span.start := if_pos (inText t mem)
    have stop : f t.span.stop = t.span.stop := if_pos (inText' t mem)
    rw [Token.moved, Span.moved, start, stop]
  have fixed : f r.token.span.start = r.token.span.start :=
    congrArg (fun r => r.token.span.start) (Refusal.moved_eq_self some still refused)
  by_contra outside
  have line : (f r.token.span.start).line = 1 := congrArg Position.line (if_neg outside)
  rw [fixed] at line
  omega

theorem Position.Exact.inText {source : String} {p : Position} (h : p.Exact source) :
    1 ≤ p.line := by
  obtain ⟨before, after, -, counts⟩ := h
  rw [counts.line]
  omega

/-- The message about a refusal in the second text stays, with its line. -/
theorem Grammar.Refusal.diagnostic_joined (a : String) {b : String} (file : String) (text : b ≠ "")
    (inText : 1 ≤ r.token.span.start.line) :
    (r.moved (Shift.below a).apply).diagnostic (a ++ "\n" ++ b) file =
      (r.diagnostic b file).moved (Shift.below a).apply := by
  have joined : a ++ "\n" ++ b ≠ "" := by
    intro empty
    have := congrArg String.toList empty
    simp at this
  have line := lineText_joined a b _ inText
  rw [Refusal.diagnostic, Refusal.diagnostic, if_neg text, if_neg joined]
  dsimp only [Diagnostic.moved, Diagnostic.withSource, Diagnostic.error]
  rw [← line]
  rfl

theorem program_empty (file : String) : ∃ body, program (Scan.scan "" file).tokens = .ok body := by
  have tokens : (Scan.scan "" file).tokens = [.endOfInput .start] := by
    rw [Scan.scan, Scan.scanFrom_end _ _ rfl]
    rfl
  rw [tokens]
  exact ⟨_, rfl⟩

theorem parse_of_failure {source file : String} {d : Diagnostic}
    (failed : (Scan.scan source file).failure = some d) : parse source file = .error (.lexical d) := by
  simp only [parse, failed]

theorem parse_of_scan {source file : String} (scanned : (Scan.scan source file).failure = none) :
    parse source file = (program (Scan.scan source file).tokens).mapError fun r =>
      .grammatical (r.diagnostic source file) r.token := by
  simp only [parse, scanned, parseTokens]
  cases program (Scan.scan source file).tokens <;> rfl

theorem parse_eq_ok {source file : String} {body : Block} (accepted : parse source file = .ok body) :
    (Scan.scan source file).failure = none ∧
      program (Scan.scan source file).tokens = .ok body := by
  cases failure : (Scan.scan source file).failure with
  | some d =>
    rw [parse_of_failure failure] at accepted
    cases accepted
  | none =>
    rw [parse_of_scan failure] at accepted
    cases found : program (Scan.scan source file).tokens with
    | ok body =>
      rw [found] at accepted
      cases accepted
      exact ⟨rfl, rfl⟩
    | error r =>
      rw [found] at accepted
      cases accepted

/-- Parsing is compositional over lines: below an accepted text another one is
accepted or refused as it is alone, with all its places moved down. -/
theorem parse_append_line (a b file : String) {first : Block} (accepted : parse a file = .ok first) :
    (parse (a ++ "\n" ++ b) file).map Block.body =
      ((parse b file).map fun second =>
        first.body ++ second.body.map (Stmt.moved (Shift.below a).apply)).mapError
          (SourceError.moved (Shift.below a).apply) := by
  obtain ⟨scanned, read⟩ := parse_eq_ok accepted
  obtain ⟨ts, last, p, tokens, eof, inside, joined, failure⟩ := Scan.scan_joined a b file scanned
  cases second : (Scan.scan b file).failure with
  | some d =>
    rw [second] at failure
    rw [parse_of_failure failure, parse_of_failure second]
    rfl
  | none =>
    rw [second] at failure
    have lossless := Scan.lossless_start b file
    have some := Scan.tokens_ne_nil second
    rw [tokens] at read
    have whole := program_line (f := (Shift.below a).apply) (t := Scan.lineEnd p) eof inside rfl
      some read
    rw [parse_of_scan failure, parse_of_scan second, joined]
    generalize program (ts ++ _ :: _) = x at whole ⊢
    cases found : program (Scan.scan b file).tokens with
    | ok body =>
      rw [found] at whole
      cases x with
      | ok found =>
        injection whole with whole
        show Except.ok found.body = .ok (first.body ++ body.body.map (Stmt.moved _))
        rw [whole, ← stmtsMoved_eq_map]
      | error r => cases whole
    | error r =>
      rw [found] at whole
      cases x with
      | ok found => cases whole
      | error r' =>
        cases whole
        have text : b ≠ "" := by
          rintro rfl
          obtain ⟨body, accepted⟩ := program_empty file
          rw [accepted] at found
          cases found
        have inText := Refusal.inText some (fun t mem => (lossless.placed t mem).1.inText)
          (fun t mem => (lossless.placed t mem).2.inText) found
        dsimp only [Except.mapError, Except.map]
        rw [Refusal.diagnostic_joined a file text inText]
        rfl

/-- A call over several lines, below which a line starts with a minus sign or does
not go on. -/
theorem parse_append_line_call :
    ∃ first, parse "x ← f(\n1)[\n0]" "" = .ok first ∧
      (parse ("x ← f(\n1)[\n0]" ++ "\n" ++ "-2") "").map Block.body =
        ((parse "-2" "").map fun second => first.body ++ second.body.map
          (Stmt.moved (Shift.below "x ← f(\n1)[\n0]").apply)).mapError
            (SourceError.moved (Shift.below "x ← f(\n1)[\n0]").apply) ∧
      (parse ("x ← f(\n1)[\n0]" ++ "\n" ++ "\ny ← (1\nELSE") "").map Block.body =
        ((parse "\ny ← (1\nELSE" "").map fun second => first.body ++ second.body.map
          (Stmt.moved (Shift.below "x ← f(\n1)[\n0]").apply)).mapError
            (SourceError.moved (Shift.below "x ← f(\n1)[\n0]").apply) := by
  have isProgram : (parse "x ← f(\n1)[\n0]" "").isOk = true := by decide +kernel
  cases accepted : parse "x ← f(\n1)[\n0]" "" with
  | error e =>
    rw [accepted] at isProgram
    cases isProgram
  | ok first => exact ⟨first, rfl, parse_append_line _ _ _ accepted, parse_append_line _ _ _ accepted⟩

/-! ## Places in a text

When all places that lie in a text stay and all others move, a program whose tokens lie in the text
stays where it is, and so does a token that is refused. -/

open Classical in
/-- Moves all places but those that lie in a text. -/
noncomputable def Position.unlessExact (source : String) (p : Position) : Position :=
  if p.Exact source then p else { p with line := p.line + 1 }

theorem Position.unlessExact_eq_self {source : String} {p : Position} :
    p.unlessExact source = p ↔ p.Exact source := by
  rw [unlessExact]
  split
  next exact_ => exact ⟨fun _ => exact_, fun _ => rfl⟩
  next other =>
    refine ⟨fun same => ?_, fun h => absurd h other⟩
    have line := congrArg Position.line same
    change p.line + 1 = p.line at line
    omega

/-- The span stays if it lies in the text. -/
theorem Span.unlessExact_eq_self {source : String} {s : Span} :
    s.moved (Position.unlessExact source) = s ↔ s.start.Exact source ∧ s.stop.Exact source := by
  rw [← Position.unlessExact_eq_self, ← Position.unlessExact_eq_self]
  exact ⟨fun same => ⟨congrArg Span.start same, congrArg Span.stop same⟩,
    fun same => by rw [Span.moved, same.1, same.2]⟩

/-- The tokens of a text lie in it. -/
theorem tokens_unlessExact (source file : String) :
    (Scan.scan source file).tokens.map (Token.moved (Position.unlessExact source)) =
      (Scan.scan source file).tokens := by
  refine (map_eq_self _).mpr fun t mem => ?_
  rw [Token.moved, Span.unlessExact_eq_self.mpr ((Scan.lossless_start source file).placed t mem)]

/-- Every place of a program lies in its text. -/
theorem exact_of_parse {text name : String} {tree : Block} (parsed : parse text name = .ok tree) :
    ∀ s ∈ tree.spans, s.start.Exact text ∧ s.stop.Exact text := by
  obtain ⟨scanned, read⟩ := parse_eq_ok parsed
  have same := program_moved (f := Position.unlessExact text) (Scan.tokens_ne_nil scanned)
  rw [tokens_unlessExact, read] at same
  injection same with same
  exact fun s mem => Span.unlessExact_eq_self.mp ((tree.moved_eq_self.mp same.symm) s mem)

/-- A token that is refused lies in the text. -/
theorem exact_of_refused {source file : String} {r : Refusal}
    (scanned : (Scan.scan source file).failure = none)
    (refused : program (Scan.scan source file).tokens = .error r) :
    r.token.span.start.Exact source ∧ r.token.span.stop.Exact source := by
  have same := Refusal.moved_eq_self (Scan.tokens_ne_nil scanned) (tokens_unlessExact source file)
    refused
  exact Span.unlessExact_eq_self.mp (congrArg (fun r => r.token.span) same)

end Pseudocode
