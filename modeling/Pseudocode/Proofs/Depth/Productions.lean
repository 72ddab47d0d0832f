import Pseudocode.Proofs.Depth.Passing
/-
# `Proofs.Depth.Productions` — what statements pass are their marks

One lemma for each production, with the proof in the order of its definition.  A keyword that
opens a construct is taken where it is seen, and its terminator is the last token of the
construct; but `UNTIL` is the first one behind the body.
-/
namespace Pseudocode.Grammar

open Condition

variable {α β : Type} {p : Parser α} {k : Kind} {P : Condition} {x : List Mark} {g : β → List Mark}
  {R : β → Condition} {r : Rules} {n : Nat}

/-! ## Terminators -/

theorem marks_of_closes {t : Token} (closes : t.kind.closesBlock = true) (before : Kind) :
    t.marks before = [.closes t.span.start.line] := by
  obtain ⟨k, text, span⟩ := t
  have opens : before.opensBlock k = false := by cases k <;> first | rfl | cases closes
  rw [Token.marks, opens, closes]
  rfl

theorem run_expectEnd {env : Token} {c c' : Cursor} {u : Unit} (eof : env.kind = .eof)
    (closes : k.closesBlock = true) (run : ((expectEnd k).run env).run c = .ok (u, c')) :
    ∃ t rest, c.rest = t :: rest ∧ c' = ⟨some t, rest⟩ ∧ t.kind.closesBlock = true := by
  obtain ⟨b, c₁, asked, run⟩ := run_bind run
  obtain ⟨k', c₂, seen, same⟩ := run_bind asked
  obtain ⟨t, c₃, seen, same'⟩ := run_bind seen
  rw [run_peek] at seen
  cases seen
  cases same'
  cases same
  cases known : [k, .kwEnd].contains (c.head env).kind with
  | false =>
    rw [known] at run
    obtain ⟨t, c₄, -, refused⟩ := run_bind run
    cases refused
  | true =>
    have head : (c.head env).kind.closesBlock = true := by
      rcases List.mem_pair.mp (List.contains_iff_mem.mp known) with same | same <;> rw [same]
      · exact closes
      · rfl
    rw [known] at run
    have some : (c.head env).kind ≠ .eof := fun isEof => by
      rw [isEof] at head
      cases head
    obtain ⟨t, run⟩ := run_discard run
    obtain ⟨rest, left, rfl, rfl⟩ := run_advance_some eof some run
    exact ⟨_, rest, left, rfl, head⟩

/-- A construct ends with its terminator. -/
theorem Passes.close {start : Position} {q : Span → Parser β} (closes : k.closesBlock = true)
    (hq : ∀ s : Span, s.start = start → Passes clear (x ++ [Mark.closes s.stop.line]) (q s) g R) :
    Passes P x (expectEnd k >>= fun _ => Grammar.spanFrom start >>= q) g R := by
  intro env c b c' eof aligned _ run
  obtain ⟨_, c₁, first, second⟩ := run_bind run
  obtain ⟨t, rest, left, rfl, known⟩ := run_expectEnd eof closes first
  obtain ⟨s, c₂, span, third⟩ := run_bind second
  cases span
  have level := aligned.level t (by rw [left]; simp) fun line => by
    rw [line] at known
    cases known
  have clear : Condition.clear env ⟨some t, rest⟩ := fun isElse => by
    change t.kind = .kwElse at isElse
    rw [isElse] at known
    cases known
  obtain ⟨aligned', passed, after⟩ := hq ⟨start, t.span.stop⟩ rfl env _ b c' eof (aligned.after left)
    clear third
  refine ⟨aligned', ?_, after⟩
  rw [← passed, Cursor.marks_cons left, marks_of_closes known, level, List.append_assoc]

/-- The terminator of a loop stands on the line where its body ends. -/
theorem passes_until {stop : Position} :
    Passes (fun env c => stop = c.place env) x (expect .kwUntil)
      (fun _ => x ++ [Mark.closes stop.line]) fun _ => clear := by
  refine .next (k := .kwUntil) ?_ .unexpected
  rintro env c t c' eof aligned ⟨here, kind⟩ run
  have some : (c.head env).kind ≠ .eof := fun isEof => by
    rw [kind] at isEof
    cases isEof
  obtain ⟨rest, left, rfl, rfl⟩ := run_advance_some eof some run
  have line : (c.head env).span.start.line = stop.line := by
    rw [here, Cursor.place]
    cases taken : c.last with
    | none => rfl
    | some t =>
      have chain := aligned.next
      rw [taken, left] at chain
      exact (List.isChain_cons_cons.mp chain).1.2.symm
  refine ⟨aligned.after left, ?_, fun isElse => ?_⟩
  · rw [Cursor.marks_cons left, marks_of_closes (by rw [kind]; rfl), line, List.append_assoc]
  · change (c.head env).kind = .kwElse at isElse
    rw [kind] at isElse
    cases isElse

/-! ## Lists of marks -/

/-- A construct has been passed when its opening, what is inside of it and its terminator have. -/
theorem passed_around (c : Construct) {start : Position} (same : c.start = start) (inside : List Mark) :
    x ++ [Mark.opens c.word start] ++ inside ++ [Mark.closes c.last] = x ++ c.around inside := by
  simp [Construct.around, same]

/-- A branch has been passed when its blocks have. -/
theorem passed_branch (toll : Position → List Mark) {start : Position} {s : Span} (same : s.start = start)
    (condition : Expr) (consequence : Block) (alternative : Otherwise) :
    x ++ toll start ++ consequence.marks ++ alternative.marks =
      x ++ toll s.start ++ (Branch.mk s condition consequence alternative).marks := by
  rw [same, List.append_assoc _ consequence.marks]
  rfl

/-! ## Statements without constructs -/

/-- Before a parser there is one that passes no marks. -/
theorem Plain.then (hp : Plain p) {q : α → Parser β} (kept : P.Kept)
    (hq : ∀ a, Passes P x (q a) g R) : Passes P x (p >>= q) g R := (hp P kept x).bind hq

theorem PlainAt.then (hp : PlainAt k p) {q : α → Parser β} (kept : P.Kept)
    (hq : ∀ a, Passes P x (q a) g R) : Passes (P.seeing k) x (p >>= q) g R := (hp P kept x).bind hq

/-! ## Keywords -/

/-- A keyword that is no `IF` opens a construct wherever it is seen. -/
theorem passes_word (opens : Kind.newline.opensBlock k = true) (notIf : k ≠ .kwIf) :
    Passes (P.seeing k) x advance (fun t => x ++ [Mark.opens k t.span.start]) fun _ => clear :=
  passes_opening opens fun _ _ here => ⟨here.2, fun h => absurd h notIf⟩

/-- A block is read where no `ELSE` was taken last. -/
theorem Rules.Pass.body (h : r.Pass) (closers : List Kind) (x : List Mark) :
    Passes clear x (r.block closers) (fun b => x ++ b.marks) fun b env c => b.span.stop = c.place env :=
  (h.block closers x).mono fun env c here => kept_fresh env c here

/-- An `ELSE` opens and closes nothing. -/
theorem passes_else : Passes (P.seeing .kwElse) x (discard advance) (fun _ => x)
    fun _ _ c => c.before = .kwElse := by
  refine Passes.discarded (passes_advance (fun env c here eof => ?_) (fun env c here => ?_)
    fun env c rest here _ => here.2)
  · rw [here.2] at eof
    cases eof
  · rw [Token.marks, here.2]
    exact List.append_nil x

section Statements

variable (h : r.Pass)

include h

theorem plainAt_assigned : PlainAt .assign (assigned r) := .drop rfl (.skip (h.expr 0))

theorem passes_constant :
    Passes (always.seeing .kwConstant) x (constant r n) (fun s => x ++ s.marks) fun _ => always := by
  refine (plainAt_advance rfl).then kept_always fun word => (plain_target h).then kept_always fun left => ?_
  refine plain_skipAnnotation.then kept_always fun _ => .needs ?_
  refine (plainAt_assigned h).then kept_always fun value => .unless (fun _ => .refuse) fun _ => ?_
  exact .spanFrom fun s _ => .pure (List.append_nil x).symm fun _ _ h => h

theorem passes_expr : Passes always x (r.expr 0 >>= fun e => pure (Stmt.expr e))
    (fun s => x ++ s.marks) fun _ => always :=
  (h.expr 0).then kept_always fun _ => .pure (List.append_nil x).symm fun _ _ h => h

/-- A statement that turns out to be an expression is read again from where it starts. -/
theorem passes_named :
    Passes always x (named r n) (fun s => x ++ s.marks) fun _ => always := by
  intro env c s c' eof aligned here run
  obtain ⟨start, c₀, first, run⟩ := run_bind run
  cases first
  obtain ⟨left, c₁, named, run⟩ := run_bind run
  obtain ⟨aligned₁, passed₁, -⟩ :=
    plain_target h always kept_always x env c left c₁ eof aligned here named
  obtain ⟨_, c₂, skipped, run⟩ := run_bind run
  obtain ⟨aligned₂, passed₂, -⟩ :=
    plain_skipAnnotation always kept_always x env c₁ _ c₂ eof aligned₁ trivial skipped
  have assigns : Passes (always.seeing .assign) x
      (assigned r >>= fun value => spanFrom left.span.start >>= fun s =>
        pure (Stmt.assign ⟨s, left, value, false⟩)) (fun s => x ++ s.marks) fun _ => always :=
    (plainAt_assigned h).then kept_always fun value => .spanFrom fun s _ =>
      .pure (List.append_nil x).symm fun _ _ h => h
  obtain ⟨b, c₃, asked, run⟩ := run_bind run
  obtain ⟨k, c₄, seen, same⟩ := run_bind asked
  obtain ⟨t, c₅, peeked, same'⟩ := run_bind seen
  rw [run_peek] at peeked
  cases peeked
  cases same'
  cases same
  cases known : (c₂.head env).kind == .assign with
  | true =>
    rw [known] at run
    obtain ⟨aligned', passed, after⟩ :=
      assigns env c₂ s c' eof aligned₂ ⟨trivial, beq_iff_eq.mp known⟩ run
    exact ⟨aligned', (passed₁.trans passed₂).trans passed, after⟩
  | false =>
    rw [known] at run
    obtain ⟨_, c₆, back, run⟩ := run_bind run
    cases back
    exact passes_expr h env c s c' eof aligned here run

theorem passes_load :
    Passes (always.seeing .kwImport) x (load r) (fun s => x ++ s.marks) fun _ => always := by
  have done : ∀ (start : Position) (location : Expr) (nickname : String), Passes always x
      (spanFrom start >>= fun s => pure (Stmt.load s location nickname)) (fun s => x ++ s.marks)
      fun _ => always :=
    fun _ _ _ => .spanFrom fun _ _ => .pure (List.append_nil x).symm fun _ _ h => h
  refine (plainAt_advance rfl).then kept_always fun word => (h.expr 0).then kept_always fun location => ?_
  refine .next ?_ ((done _ _ _).mono fun _ _ _ => trivial)
  refine (plainAt_advance rfl always kept_always x).discarded.bind fun _ => ?_
  refine .nextOne (fun k mem => ?_) .unexpected
  have plain : k.isPlain = true := by
    rcases List.mem_pair.mp mem with rfl | rfl <;> rfl
  exact (plainAt_advance plain).then kept_always fun nickname => done _ _ _

/-! ## Choices and loops -/

/-- A branch passes the marks inside of it, once its `IF` has been taken. -/
theorem passes_branch : ∀ (n : Nat) {P : Condition} (toll : Position → List Mark),
    (∀ x, Passes P x advance (fun t => x ++ toll t.span.start) fun _ => clear) →
      ∀ x, Passes P x (branch r n) (fun b => x ++ toll b.span.start ++ b.marks) fun _ => always
  | 0, _, _, _, _ => .exhausted
  | n + 1, P, toll, start, x => by
    refine .bind (start x) fun word => (h.expr 0).then kept_clear fun condition => ?_
    refine plain_skipNewlines.then kept_clear fun _ => (plain_expect rfl).discarded.then kept_clear fun _ => ?_
    refine .bind ((h.block _ _).mono fun env c here => kept_fresh env c here) fun consequence => ?_
    refine .next (passes_else.bind fun _ => .next ?_ ?_) ?_
    · -- The `IF` of an `ELSE IF` opens nothing.
      have continues : ∀ x, Passes (Condition.seeing (fun _ c => c.before = .kwElse) .kwIf) x advance
          (fun _ => x ++ []) fun _ => clear := fun x => by
        refine passes_advance (fun env c here eof => ?_) (fun env c here => ?_)
          fun env c rest here _ isElse => ?_
        · rw [here.2] at eof
          cases eof
        · rw [Token.marks, here.1, here.2]
          rfl
        · change (c.head env).kind = .kwElse at isElse
          rw [here.2] at isElse
          cases isElse
      refine .bind (passes_branch n (fun _ => []) continues _) fun more => ?_
      refine .spanFrom fun s start => .pure ?_ fun _ _ h => h
      rw [List.append_nil]
      exact passed_branch toll start condition consequence (.elseIf more)
    · refine .bind ((h.block _ _).mono fun env c here _ => here.2) fun body => ?_
      refine .spanFrom fun s start => .pure ?_ fun _ _ _ => trivial
      exact passed_branch toll start condition consequence (.elseBlock body)
    · refine .spanFrom fun s start => .pure ?_ fun _ _ _ => trivial
      exact (List.append_nil _).symm.trans (passed_branch toll start condition consequence .absent)

theorem passes_choice :
    Passes (fresh.seeing .kwIf) x (choice r n) (fun s => x ++ s.marks) fun _ => always := by
  refine .bind (passes_branch h n (fun p => [.opens .kwIf p]) (fun x => ?_) x) fun b => ?_
  · exact passes_opening rfl fun env c here => ⟨here.2, fun _ isElse => here.1 isElse here.2⟩
  · obtain ⟨s, condition, consequence, alternative⟩ := b
    simp only [closed, bind_assoc, pure_bind]
    refine .close rfl fun s' start => .pure ?_ fun _ _ _ => trivial
    exact passed_around (s'.construct .kwIf) start (Branch.mk s' condition consequence alternative).marks

theorem passes_whileLoop :
    Passes (P.seeing .kwWhile) x (whileLoop r) (fun s => x ++ s.marks) fun _ => always := by
  refine .bind (passes_word (k := .kwWhile) rfl (by decide)) fun word => (h.expr 0).then kept_clear fun condition => ?_
  refine .bind (h.body _ _) fun body => .close rfl fun s start => .pure ?_ fun _ _ _ => trivial
  exact passed_around (s.construct .kwWhile) start body.marks

theorem passes_repeatLoop :
    Passes (P.seeing .kwRepeat) x (repeatLoop r) (fun s => x ++ s.marks) fun _ => always := by
  refine .bind (passes_word (k := .kwRepeat) rfl (by decide)) fun word => .bind (h.body _ _) fun body => ?_
  refine passes_until.discarded.bind fun _ => (h.expr 0).then kept_clear fun condition => ?_
  refine .spanFrom fun s start => .pure ?_ fun _ _ _ => trivial
  exact passed_around ⟨.kwRepeat, s.start, body.span.stop.line⟩ start body.marks

theorem passes_forBody {start : Position} {stmt : Block → Span → Stmt}
    (marks : ∀ body s, (stmt body s).marks = (s.construct .kwFor).around body.marks) :
    Passes clear (x ++ [Mark.opens .kwFor start])
      (forBody r >>= fun body => spanFrom start >>= fun s => pure (stmt body s))
      (fun s => x ++ s.marks) fun _ => always := by
  simp only [forBody, bind_assoc, pure_bind]
  refine .bind (h.body _ _) fun body => .close rfl fun s start => .pure ?_ fun _ _ _ => trivial
  rw [marks]
  exact passed_around (s.construct .kwFor) start body.marks

theorem passes_forLoop :
    Passes (P.seeing .kwFor) x (forLoop r) (fun s => x ++ s.marks) fun _ => always := by
  refine .bind (passes_word (k := .kwFor) rfl (by decide)) fun word => ?_
  refine (plain_expect rfl).then kept_clear fun name => .peekKind fun k => ?_
  split
  · refine (plainAt_advance rfl clear kept_clear _).discarded.bind fun _ => ?_
    refine (h.expr 0).then kept_clear fun first => ?_
    refine (plain_expect rfl).discarded.then kept_clear fun _ => (h.expr 0).then kept_clear fun last => ?_
    simp only [pure_bind]
    have body : ∀ step, Passes clear (x ++ [Mark.opens .kwFor word.span.start])
        (forBody r >>= fun body => spanFrom word.span.start >>= fun s =>
          pure (Stmt.forRange s name.lexeme first last step body)) (fun s => x ++ s.marks) fun _ => always :=
      fun step => passes_forBody h fun _ _ => rfl
    refine .next ?_ ((body none).mono fun env c here => here.1)
    refine (plainAt_advance rfl clear kept_clear _).discarded.bind fun _ => ?_
    exact (h.expr 0).then kept_clear fun step => body (some step)
  · refine (plainAt_advance rfl clear kept_clear _).discarded.bind fun _ => ?_
    exact (h.expr 0).then kept_clear fun iterable => passes_forBody h fun _ _ => rfl
  · exact .unexpected

/-! ## Definitions -/

omit h in
theorem plain_fields : ∀ n, Plain (fields n)
  | 0 => .exhausted
  | n + 1 => by
    have rest : ∀ name : String, Plain (skipNewlines >>= fun _ => fields n >>= fun names =>
        pure (name :: names)) := fun name => .skip ((plain_fields n).bind fun names => .pure _)
    refine .nextIn (fun k _ => (Plain.pure _).at_) ((plain_expect rfl).bind fun field => .skipType ?_)
    refine .next (.drop rfl (rest _)) fun I kept x => .needsOne (rest _ I kept x)

omit h in
theorem passes_record :
    Passes (P.seeing .kwRecord) x (record n) (fun s => x ++ s.marks) fun _ => always := by
  refine .bind (passes_word (k := .kwRecord) rfl (by decide)) fun word => ?_
  refine (plain_expect rfl).then kept_clear fun name => plain_skipNewlines.then kept_clear fun _ => ?_
  refine (plain_fields n).then kept_clear fun names => .close rfl fun s start => .pure ?_ fun _ _ _ => trivial
  have passed := passed_around (x := x) (s.construct .kwRecord) start []
  rwa [List.append_nil] at passed

theorem passes_attempt :
    Passes (P.seeing .kwTry) x (attempt r) (fun s => x ++ s.marks) fun _ => always := by
  refine .bind (passes_word (k := .kwTry) rfl (by decide)) fun word => .bind (h.body _ _) fun body => ?_
  refine (passes_expect rfl).discarded.bind fun _ => .bind (h.body _ _) fun rescue => ?_
  refine .close rfl fun s start => .pure ?_ fun _ _ _ => trivial
  rw [List.append_assoc _ body.marks]
  exact passed_around (s.construct .kwTry) start (body.marks ++ rescue.marks)

omit h in
theorem plain_params : ∀ n, Plain (params n)
  | 0 => .exhausted
  | n + 1 => by
    refine .next (Plain.pure _).at_ ((plain_expect rfl).bind fun name => .skipType (.skip (.next ?_ ?_)))
    · exact .drop rfl (.skip ((plain_params n).bind fun ps => .pure _))
    · exact .pure _

omit h in
theorem plain_paramList : Plain (paramList n) :=
  .discard (plain_expect rfl) (.skip ((plain_params n).bind fun _ => .discard (plain_expect rfl) (.pure _)))

theorem passes_routine :
    Passes (P.seeing .kwSubroutine) x (routine r n) (fun d => x ++ d.marks) fun _ => always := by
  refine .bind (passes_word (k := .kwSubroutine) rfl (by decide)) fun word => ?_
  refine (plain_expect rfl).then kept_clear fun name => plain_paramList.then kept_clear fun ps => ?_
  refine .bind (h.body _ _) fun body => .close rfl fun s start => .pure ?_ fun _ _ _ => trivial
  exact passed_around (s.construct .kwSubroutine) start body.marks

theorem plainAt_static : PlainAt .identifier (static r) :=
  (plainAt_advance rfl).bind fun _ => .skipType (.discard (plain_expect rfl)
    ((h.expr 0).bind fun _ => .spanFrom fun _ => .pure _))

/-- The marks of the members of a class. -/
def memberMarks (ms : List (Assignment ⊕ Routine)) : List Mark := routinesMarks (ms.filterMap Sum.getRight?)

theorem passes_member :
    Passes always x (member r n) (fun m => x ++ memberMarks [m]) fun _ => always := by
  refine .peekKind fun k => ?_
  split
  · refine .bind (passes_routine h) fun d => .pure ?_ fun _ _ h => h
    simp [memberMarks, routinesMarks]
  · exact (plainAt_static h).then kept_always fun a => .pure (List.append_nil x).symm fun _ _ h => h
  · exact .unexpected

theorem passes_members : ∀ n x, Passes always x (members r n) (fun ms => x ++ memberMarks ms) fun _ => always
  | 0, _ => .exhausted
  | n + 1, x => by
    refine plain_skipNewlines.then kept_always fun _ => .nextOne (fun k _ => ?_) ?_
    · exact .pure (List.append_nil x).symm fun _ _ _ => trivial
    · refine .bind (passes_member h) fun m => .needsOne (.bind (passes_members n _) fun ms => ?_)
      refine .pure ?_ fun _ _ h => h
      cases m with
      | inl a => exact congrArg (· ++ memberMarks ms) (List.append_nil x)
      | inr d => simp [memberMarks, routinesMarks]

theorem passes_classDef :
    Passes (P.seeing .kwClass) x (classDef r n) (fun s => x ++ s.marks) fun _ => always := by
  refine .bind (passes_word (k := .kwClass) rfl (by decide)) fun word => ?_
  refine (plain_expect rfl).then kept_clear fun name => ?_
  refine .bind ((passes_members h n _).mono fun _ _ _ => trivial) fun ms => ?_
  refine .close rfl fun s start => .pure ?_ fun _ _ _ => trivial
  exact passed_around (s.construct .kwClass) start (memberMarks ms)

/-! ## Statements and blocks -/

theorem passes_statement :
    Passes fresh x (statement r n) (fun s => x ++ s.marks) fun _ => always := by
  refine .peekKind fun k => ?_
  split
  · exact (passes_constant h).mono fun _ _ here => ⟨trivial, here.2⟩
  · exact (passes_named h).mono fun _ _ _ => trivial
  · exact passes_choice h
  · exact passes_whileLoop h
  · exact passes_repeatLoop h
  · exact passes_forLoop h
  · exact passes_record
  · exact passes_attempt h
  · exact .bind (passes_routine h) fun d => .pure rfl fun _ _ h => h
  · exact passes_classDef h
  · exact (passes_load h).mono fun _ _ here => ⟨trivial, here.2⟩
  · exact (passes_expr h).mono fun _ _ _ => trivial

omit h in
theorem plain_atStop {closers : List Kind} : Plain (atStop closers) := by
  refine .next (Plain.pure _).at_ ?_
  unfold atBlockEnd
  split
  · exact .pure _
  · exact .peekKind fun k => (Plain.pure _).at_

theorem passes_statements (closers : List Kind) :
    ∀ n x, Passes fresh x (statements r closers n) (fun body => x ++ stmtsMarks body) fun _ => always
  | 0, _ => .exhausted
  | n + 1, x => by
    refine plain_skipNewlines.then kept_fresh fun _ => plain_atStop.then kept_fresh fun b => ?_
    refine .ite (fun _ => .pure (List.append_nil x).symm fun _ _ _ => trivial) fun _ => ?_
    refine (passes_statement h).bind fun s => .next ?_ ?_
    · have more : Passes (always.seeing .newline) (x ++ s.marks) (statements r closers n)
          (fun body => x ++ s.marks ++ stmtsMarks body) fun _ => always :=
        (passes_statements closers n (x ++ s.marks)).mono fun env c here _ => by
          rw [here.2]
          decide
      refine more.bind fun body => .pure ?_ fun _ _ h => h
      rw [stmtsMarks, List.append_assoc]
    · refine .bind ((plain_atStop always kept_always _).mono fun _ _ _ => trivial) fun b => ?_
      refine .ite (fun _ => .pure ?_ fun _ _ h => h) fun _ => .unexpected
      rw [stmtsMarks, stmtsMarks, List.append_nil]

theorem passes_block (closers : List Kind) :
    Passes fresh x (block r n closers) (fun b => x ++ b.marks) fun b env c => b.span.stop = c.place env := by
  refine .peek fun t => ?_
  refine .bind ((passes_statements h closers n x).mono fun env c here => here.1) fun body => ?_
  exact Passes.stopping.bind fun s => .pure rfl fun env c here => here.2.2

end Statements

theorem pass_rules : ∀ n, (rules n).Pass
  | 0 => ⟨fun _ => .exhausted, fun _ _ => .exhausted⟩
  | n + 1 => ⟨plain_expr (pass_rules n), fun closers _ => passes_block (pass_rules n) closers⟩

/-- The marks of a program are those of its tokens. -/
theorem marks_of_program {tokens : List Token} {tree : Block} (aligned : Aligned tokens)
    (read : program tokens = .ok tree) : tree.marks = marksFrom .newline tokens := by
  have eof : (endOf tokens).kind = .eof := by
    unfold endOf
    split <;> rfl
  have whole : Passes fresh [] (wholeProgram (depthBound tokens)) (fun b => b.marks)
      fun _ => always.seeing .eof := by
    refine ((pass_rules _).block [] []).bind fun b => .next ?_ .unexpected
    exact .pure rfl fun env c here => ⟨trivial, here.2⟩
  unfold program at read
  split at read
  next body c run =>
    cases read
    obtain ⟨aligned', passed, -, last⟩ := whole _ ⟨none, tokens⟩ _ _ eof aligned (fun h => by cases h) run
    -- The parser stands at the end of input, and nothing follows that.
    have nothing : c.marks = [] := by
      obtain ⟨taken, rest⟩ := c
      match rest with
      | [] => rfl
      | [t] =>
        have kind : t.kind = .eof := last
        rw [Cursor.marks_cons rfl, Token.marks, kind]
        rfl
      | t :: u :: rest =>
        have next := aligned'.next.suffix (List.suffix_append taken.toList (t :: u :: rest))
        exact absurd last (List.isChain_cons_cons.mp next).1.1
    rw [nothing, List.append_nil, List.nil_append] at passed
    exact passed.symm
  next => cases read
  next => cases read

end Pseudocode.Grammar
