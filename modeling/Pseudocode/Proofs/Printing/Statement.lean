import Pseudocode.Proofs.Printing.Expression
/-
# `Proofs.Printing.Statement` — statements and blocks are read back

One lemma for each kind of statement: if its expressions are read as parts and
its blocks up to their closers, the statement is read up to the end of its line.
A statement that begins with a name is the delicate one.  Its name and steps are
read as a target first; only if no arrow follows does the parser go back and
read an expression, so `Expr.begins` says what the first attempt finds.
-/
namespace Pseudocode

/-! ## How statements begin -/

/-- What may stand behind a block. -/
def isCloser (k : Kind) : Bool := k.isTerminator || [Kind.kwElse, .kwUntil, .kwCatch].contains k

/-- What no statement begins with. -/
def isStop (k : Kind) : Bool := isCloser k || k == .eof || k == .newline

theorem isStop_of_starts {k : Kind} (h : starts k = true) : isStop k = false := by
  revert h
  cases k <;> decide

theorem Stmt.pieces_eq_cons (s : Stmt) : ∃ q qs, s.pieces = q :: qs ∧ isStop q.kind = false := by
  cases s with
  | expr e =>
    obtain ⟨q, qs, first, start⟩ := e.pieces_eq_cons
    exact ⟨q, qs, first, isStop_of_starts start⟩
  | assign a =>
    rw [Stmt.pieces, Assignment.pieces]
    split
    · exact ⟨.mark .kwConstant, _, rfl, rfl⟩
    · exact ⟨.name a.target.name, _, rfl, rfl⟩
  | subroutine d =>
    obtain ⟨s, name, params, body⟩ := d
    rw [Stmt.pieces, Routine.pieces]
    exact ⟨_, _, rfl, rfl⟩
  | branch b =>
    obtain ⟨s, condition, consequence, alternative⟩ := b
    rw [Stmt.pieces, Branch.pieces]
    exact ⟨_, _, rfl, rfl⟩
  | whileLoop _ _ _ | repeatLoop _ _ _ | forRange _ _ _ _ _ _ | forEach _ _ _ _ | record _ _ _
  | classDef _ _ _ _ | attempt _ _ _ | load _ _ _ =>
    rw [Stmt.pieces]
    exact ⟨_, _, rfl, rfl⟩

/-- A part that begins with a name is that name with its steps. -/
theorem Expr.enclosed_cases (e : Expr) :
    (∃ s name steps, e = .var s name steps) ∨
      ∃ q qs, e.enclosed = q :: qs ∧ opens q.kind = true ∧ (q.kind == .identifier) = false := by
  cases e with
  | var s name steps => exact .inl ⟨s, name, steps, rfl⟩
  | _ => exact .inr ⟨_, _, rfl, rfl, rfl⟩

/-- What may follow a name with its steps in an expression. -/
def endsTarget (k : Kind) : Bool :=
  !List.contains [.dot, .leftBracket, .colon, .assign] k

theorem of_endsTarget {k : Kind} (h : endsTarget k = true) :
    k ≠ .dot ∧ k ≠ .leftBracket ∧ k ≠ .colon ∧ k ≠ .assign := by
  revert h
  cases k <;> decide

/-- An expression begins with a name and all its steps, or with no name. -/
theorem Expr.begins (e : Expr) :
    (∃ name steps, ∃ tail : List Piece, e.pieces = .name name :: (chainPieces steps ++ tail) ∧
        (∀ q ∈ tail.head?, endsTarget q.kind = true) ∧
        ∀ p, e.all p = true → chainAll p steps = true) ∨
      ∃ q ps, e.pieces = q :: ps ∧ starts q.kind = true ∧ (q.kind == .identifier) = false := by
  cases e with
  | var s name steps =>
    refine .inl ⟨name, steps, [], by rw [Expr.pieces, List.append_nil], by simp, ?_⟩
    intro p h
    simp only [Expr.all, Bool.and_eq_true] at h
    exact h.2
  | call s callee args =>
    rcases callee.enclosed_cases with ⟨s', name, steps, rfl⟩ | ⟨q, ps, first, opening, other⟩
    · refine .inl ⟨name, steps, inParens (separated (exprsPieces args)), rfl, ?_, ?_⟩
      · rintro q ⟨⟩
        rfl
      · intro p h
        simp only [Expr.all, Bool.and_eq_true] at h
        exact h.1.2.2
    · refine .inr ?_
      rw [Expr.pieces, Expr.enclose_pieces, first, List.cons_append]
      exact ⟨q, _, rfl, by simp [starts, opening], other⟩
  | binary s op left right =>
    rcases left.enclosed_cases with ⟨s', name, steps, rfl⟩ | ⟨q, ps, first, opening, other⟩
    · refine .inl ⟨name, steps, .binary op :: right.enclosed, rfl, ?_, ?_⟩
      · rintro q ⟨⟩
        cases op <;> rfl
      · intro p h
        simp only [Expr.all, Bool.and_eq_true] at h
        exact h.1.2.2
    · refine .inr ?_
      rw [Expr.pieces, Expr.enclose_pieces, first, List.cons_append]
      exact ⟨q, _, rfl, by simp [starts, opening], other⟩
  | unary s op operand =>
    exact .inr ⟨.unary op, _, rfl, by cases op <;> rfl, by cases op <;> rfl⟩
  | magic s word args =>
    exact .inr ⟨.mark word.kind, _, rfl, by cases word <;> rfl, by cases word <;> rfl⟩
  | _ => exact .inr ⟨_, _, rfl, rfl, rfl⟩

namespace Grammar

variable {r : Rules} {n : Nat} {q : Piece} {qs : List Piece}

/-- The statement is read up to the end of its line. -/
def ReadsStmt (r : Rules) (n : Nat) (s : Stmt) : Prop :=
  ∀ qs, Reads (statement r n) (s.pieces ++ .newline :: qs) (.newline :: qs)
    fun s' => s'.spanless = s.spanless

/-- Does a block with these closers end before a token of this kind? -/
def stopsAt (closers : List Kind) (k : Kind) : Bool :=
  k == .eof || (!closers.isEmpty && (.kwEnd :: closers).contains k)

/-- The block after the end of a line is read up to its closer. -/
def Rules.ReadsBlock (r : Rules) (b : Block) : Prop :=
  ∀ closers q qs, closers.all isCloser = true → stopsAt closers q.kind = true →
    Reads (r.block closers) (.newline :: (b.pieces ++ q :: qs)) (q :: qs)
      fun b' => b'.spanless = b.spanless

/-! ## Blocks -/

theorem reads_atStop {closers : List Kind} :
    Reads (atStop closers) (q :: qs) (q :: qs) fun b => b = stopsAt closers q.kind := by
  refine reads_next.bind ?_
  rintro _ rfl
  unfold stopsAt
  split
  · next h => exact .pure (by simp [h])
  · next h =>
    rw [Bool.not_eq_true] at h
    rw [h, Bool.false_or]
    unfold atBlockEnd
    split
    · next none => exact .pure (by simp [none])
    · next some =>
      refine reads_nextIn.mono ?_
      rintro _ rfl
      simp [some]

theorem stopsAt_eq_false {closers : List Kind} {k : Kind} (all : closers.all isCloser = true)
    (h : isStop k = false) : stopsAt closers k = false := by
  simp only [isStop, Bool.or_eq_false_iff] at h
  have own : k ≠ .kwEnd := by
    rintro rfl
    cases h.1.1
  have other : k ∉ closers := by
    intro mem
    rw [List.all_eq_true.mp all k mem] at h
    cases h.1.1
  simp [stopsAt, h.1.2, own, other]

theorem ne_newline_of_stopsAt {closers : List Kind} {k : Kind} (all : closers.all isCloser = true)
    (h : stopsAt closers k = true) : k ≠ .newline := by
  rintro rfl
  have other : Kind.newline ∉ closers := by
    intro mem
    cases List.all_eq_true.mp all _ mem
  simp [stopsAt, other] at h

/-- At most one line break, before something that is none. -/
theorem Reads.skipLead {β : Type} {f : Unit → Parser β} {lead ps rs : List Piece} {Q : β → Prop}
    (lines : lead = [] ∨ lead = [.newline]) (h : NoBreak ps) (hf : Reads (f ()) ps rs Q) :
    Reads (skipNewlines >>= f) (lead ++ ps) rs Q := by
  rcases lines with rfl | rfl
  · exact .skip h hf
  · exact .skipBreak h hf

theorem noBreak_stmt (s : Stmt) : NoBreak (s.pieces ++ qs) := by
  obtain ⟨q, ps, first, start⟩ := s.pieces_eq_cons
  rw [first]
  refine noBreak_cons ?_
  intro line
  rw [line] at start
  cases start

theorem reads_statements (lead : List Piece) (body : List Stmt) {closers : List Kind}
    (lines : lead = [] ∨ lead = [.newline])
    (each : ∀ s ∈ body, ∀ m, s.pieces.length < m → ReadsStmt r m s)
    (all : closers.all isCloser = true) (stop : stopsAt closers q.kind = true)
    (fuel : (stmtsPieces body).length < n) :
    Reads (statements r closers n) (lead ++ (stmtsPieces body ++ q :: qs)) (q :: qs)
      fun body' => stmtsSpanless body' = stmtsSpanless body := by
  induction body generalizing n lead with
  | nil =>
    obtain ⟨n, rfl⟩ := Nat.exists_eq_add_one_of_ne_zero (Nat.ne_zero_of_lt fuel)
    refine .skipLead lines (noBreak_cons (ne_newline_of_stopsAt all stop)) ?_
    refine reads_atStop.bind ?_
    rintro _ rfl
    rw [if_pos stop]
    exact .pure rfl
  | cons s body ih =>
    obtain ⟨n, rfl⟩ := Nat.exists_eq_add_one_of_ne_zero (Nat.ne_zero_of_lt fuel)
    rw [stmtsPieces, List.length_append, List.length_cons] at fuel
    have rest := ih [.newline] (.inr rfl) (fun s' mem => each s' (List.mem_cons_of_mem s mem))
      (by omega : (stmtsPieces body).length < n)
    have here := each s List.mem_cons_self n (by omega) (stmtsPieces body ++ q :: qs)
    rw [stmtsPieces, List.append_assoc, List.cons_append]
    refine .skipLead lines (noBreak_stmt s) ?_
    obtain ⟨p, ps, first, start⟩ := s.pieces_eq_cons
    rw [first] at here ⊢
    refine reads_atStop.bind ?_
    rintro _ rfl
    rw [stopsAt_eq_false all start, if_neg Bool.false_ne_true]
    refine here.bind ?_
    intro s' same
    refine .next_then rfl (rest.bind ?_)
    intro body' sameRest
    refine .pure ?_
    simp only [stmtsSpanless, same, sameRest]

theorem reads_block (lead : List Piece) (b : Block) {closers : List Kind}
    (lines : lead = [] ∨ lead = [.newline])
    (each : ∀ s ∈ b.body, ∀ m, s.pieces.length < m → ReadsStmt r m s)
    (all : closers.all isCloser = true) (stop : stopsAt closers q.kind = true)
    (fuel : b.pieces.length < n) :
    Reads (block r n closers) (lead ++ (b.pieces ++ q :: qs)) (q :: qs)
      fun b' => b'.spanless = b.spanless := by
  obtain ⟨s, body⟩ := b
  have list : Reads (statements r closers n) (lead ++ (stmtsPieces body ++ q :: qs)) _ _ :=
    reads_statements lead body lines each all stop fuel
  have some : ∃ p ps, lead ++ (stmtsPieces body ++ q :: qs) = p :: ps :=
    List.exists_cons_of_ne_nil (by simp)
  obtain ⟨p, ps, first⟩ := some
  rw [Block.pieces, first]
  rw [first] at list
  refine reads_peek.bind fun t _ => list.bind ?_
  intro body' same
  refine .spanFrom fun s' => .pure ?_
  rw [Block.spanless, Block.spanless, same]

/-! ## Loops -/

theorem readsStmt_whileLoop {s : Span} {condition : Expr} {body : Block}
    (part : r.ReadsPart condition) (inside : r.ReadsBlock body) :
    ReadsStmt r n (.whileLoop s condition body) := by
  intro qs
  simp only [Stmt.pieces, List.cons_append, List.append_assoc, List.nil_append]
  refine (reads_peekKind (k := .kwWhile) rfl).bind ?_
  rintro _ rfl
  refine reads_advance.bind fun t _ => ?_
  refine (part 0 _ _ (by decide) (by decide)).bind ?_
  intro condition' sameCondition
  refine (inside [.kwEndWhile] _ _ (by decide) (by decide)).bind ?_
  intro body' sameBody
  refine (reads_expectEnd (k := .kwEndWhile) rfl).bind fun _ _ => .spanFrom fun s' => .pure ?_
  rw [Stmt.spanless, Stmt.spanless, sameCondition, sameBody]

theorem readsStmt_repeatLoop {s : Span} {body : Block} {condition : Expr}
    (inside : r.ReadsBlock body) (part : r.ReadsPart condition) :
    ReadsStmt r n (.repeatLoop s body condition) := by
  intro qs
  simp only [Stmt.pieces, List.cons_append, List.append_assoc]
  refine (reads_peekKind (k := .kwRepeat) rfl).bind ?_
  rintro _ rfl
  refine reads_advance.bind fun t _ => ?_
  refine (inside [.kwUntil] _ _ (by decide) (by decide)).bind ?_
  intro body' sameBody
  refine .discard (reads_expect rfl) ((part 0 _ _ (by decide) (by decide)).bind ?_)
  intro condition' sameCondition
  refine .spanFrom fun s' => .pure ?_
  rw [Stmt.spanless, Stmt.spanless, sameCondition, sameBody]

theorem reads_forBody {body : Block} (inside : r.ReadsBlock body) :
    Reads (forBody r) (.newline :: (body.pieces ++ .mark .kwEndFor :: qs)) qs
      fun body' => body'.spanless = body.spanless := by
  refine (inside [.kwEndFor] _ _ (by decide) (by decide)).bind ?_
  intro body' same
  exact (reads_expectEnd (k := .kwEndFor) rfl).bind fun _ _ => .pure same

theorem readsStmt_forEach {s : Span} {counter : String} {iterable : Expr} {body : Block}
    (part : r.ReadsPart iterable) (inside : r.ReadsBlock body) :
    ReadsStmt r n (.forEach s counter iterable body) := by
  intro qs
  simp only [Stmt.pieces, List.cons_append, List.append_assoc, List.nil_append]
  refine (reads_peekKind (k := .kwFor) rfl).bind ?_
  rintro _ rfl
  refine reads_advance.bind fun t _ => (reads_expect (k := .identifier) rfl).bind ?_
  intro u hu
  have name : u.lexeme = counter := congrArg Piece.lexeme hu
  refine (reads_peekKind (k := .kwIn) rfl).bind ?_
  rintro _ rfl
  refine .discard reads_advance ((part 0 _ _ (by decide) (by decide)).bind ?_)
  intro iterable' sameIterable
  refine (reads_forBody inside).bind ?_
  intro body' sameBody
  refine .spanFrom fun s' => .pure ?_
  rw [Stmt.spanless, Stmt.spanless, name, sameIterable, sameBody]

theorem readsStmt_forRange {s : Span} {counter : String} {first last : Expr} {step : Option Expr}
    {body : Block} (low : r.ReadsPart first) (high : r.ReadsPart last)
    (by_ : ∀ e ∈ step, r.ReadsPart e) (inside : r.ReadsBlock body) :
    ReadsStmt r n (.forRange s counter first last step body) := by
  intro qs
  simp only [Stmt.pieces, List.cons_append, List.append_assoc, List.nil_append]
  refine (reads_peekKind (k := .kwFor) rfl).bind ?_
  rintro _ rfl
  refine reads_advance.bind fun t _ => (reads_expect (k := .identifier) rfl).bind ?_
  intro u hu
  have name : u.lexeme = counter := congrArg Piece.lexeme hu
  refine (reads_peekKind (k := .assign) rfl).bind ?_
  rintro _ rfl
  refine .discard reads_advance ((low 0 _ _ (by decide) (by decide)).bind ?_)
  intro first' sameFirst
  refine .discard (reads_expect rfl) ?_
  cases step with
  | none =>
    refine (high 0 _ _ (by decide) (by decide)).bind ?_
    intro last' sameLast
    refine .next_else (by decide) (.given ((reads_forBody inside).bind ?_))
    intro body' sameBody
    refine .spanFrom fun s' => .pure ?_
    simp only [Stmt.spanless, name, sameFirst, sameLast, sameBody, Option.map_none]
  | some e =>
    rw [stepPieces, List.cons_append]
    refine (high 0 _ _ (by decide) (by decide)).bind ?_
    intro last' sameLast
    refine .next_then rfl (.discard reads_advance ?_)
    refine (by_ e rfl 0 _ _ (by decide) (by decide)).bind ?_
    intro e' sameStep
    refine .given ((reads_forBody inside).bind ?_)
    intro body' sameBody
    refine .spanFrom fun s' => .pure ?_
    simp only [Stmt.spanless, name, sameFirst, sameLast, sameStep, sameBody, Option.map_some]

/-! ## Assignments and expressions -/

theorem reads_assigned {ps : List Piece} {value : Expr} (h : r.ReadsAs ps value)
    (power : leftPower q.kind = 0) :
    Reads (assigned r) (.arrow :: (ps ++ q :: qs)) (q :: qs)
      fun value' => value'.spanless = value.spanless :=
  .discard reads_advance (.skip h.noBreak (h.reads q qs power))

/-- A name with index steps before an arrow is assigned to. -/
theorem reads_assignment {s s' : Span} {name : String} {steps : List Index} {ps : List Piece}
    {value : Expr} (keys : ∀ s key, .subscript s key ∈ steps → r.ReadsPart key)
    (h : r.ReadsAs ps value) (power : leftPower q.kind = 0) (fuel : steps.length < n) :
    Reads (statement r n) (.name name :: (chainPieces steps ++ .arrow :: (ps ++ q :: qs))) (q :: qs)
      fun stmt => stmt.spanless = (Stmt.assign ⟨s, ⟨s', name, steps⟩, value, false⟩).spanless := by
  refine (reads_peekKind (k := .identifier) rfl).bind ?_
  rintro _ rfl
  refine .get fun here _ => ?_
  refine (reads_target name steps keys (by decide) (by decide) fuel).bind ?_
  rintro t ⟨sameName, sameSteps⟩
  refine .skipType (by decide) (.next_then rfl ((reads_assigned h power).bind ?_))
  intro value' sameValue
  refine .spanFrom fun s' => .pure ?_
  simp only [Stmt.spanless, Assignment.spanless, Target.spanless, sameName, sameSteps, sameValue]

theorem isEmpty_spanless (steps : List Index) : (chainSpanless steps).isEmpty = steps.isEmpty := by
  cases steps with
  | nil => rfl
  | cons i steps => cases i <;> rfl

theorem readsStmt_assign {a : Assignment}
    (plain : (!a.constant || a.target.chain.isEmpty) = true)
    (keys : ∀ s key, .subscript s key ∈ a.target.chain → r.ReadsPart key)
    (part : r.ReadsPart a.value) (fuel : a.target.chain.length < n) :
    ReadsStmt r n (.assign a) := by
  intro qs
  obtain ⟨s, ⟨s', name, steps⟩, value, constant⟩ := a
  simp only [Stmt.pieces, Assignment.pieces]
  cases constant with
  | false =>
    simp only [List.cons_append, List.append_assoc, List.nil_append, Bool.false_eq_true, if_false]
    exact reads_assignment keys part.readsAs (by decide) fuel
  | true =>
    have none : steps = [] := by simpa using plain
    subst none
    simp only [List.cons_append, List.append_assoc, List.nil_append, if_true]
    refine (reads_peekKind (k := .kwConstant) rfl).bind ?_
    rintro _ rfl
    refine reads_advance.bind fun word _ => ?_
    refine (reads_target name [] keys (by decide) (by decide) fuel).bind ?_
    rintro t ⟨sameName, sameSteps⟩
    have empty : t.chain.isEmpty = true := by
      rw [← isEmpty_spanless, sameSteps]
      rfl
    refine .skipType (by decide) (reads_next.bind ?_)
    rintro _ rfl
    refine .unless rfl ((reads_assigned part.readsAs (by decide)).bind ?_)
    intro value' sameValue
    refine .unless empty (.spanFrom fun s' => .pure ?_)
    simp only [Stmt.spanless, Assignment.spanless, Target.spanless, sameName, sameSteps, sameValue]

/-- A statement that begins with a name and is no assignment is read again, as
an expression. -/
theorem readsStmt_expr {e : Expr} (whole : r.ReadsWhole e)
    (keys : ∀ steps, (∀ p, e.all p = true → chainAll p steps = true) →
      (chainPieces steps).length < e.pieces.length →
      ∀ s key, .subscript s key ∈ steps → r.ReadsPart key)
    (fuel : e.pieces.length < n) : ReadsStmt r n (.expr e) := by
  intro qs
  rw [Stmt.pieces]
  have read : Reads (r.expr 0 >>= fun e' => pure (Stmt.expr e')) (e.pieces ++ .newline :: qs)
      (.newline :: qs) fun s' => s'.spanless = (Stmt.expr e).spanless := by
    refine (whole .newline qs (.inl rfl)).bind ?_
    intro e' same
    exact .pure (by rw [Stmt.spanless, Stmt.spanless, same])
  rcases e.begins with ⟨name, steps, tail, shape, ends, inside⟩ | ⟨q, ps, first, start, other⟩
  · have shorter : (chainPieces steps).length < e.pieces.length := by
      rw [shape, List.length_cons, List.length_append]
      omega
    have bound : steps.length < n := by
      have := length_steps_le steps
      omega
    have follow : ∃ q ps, tail ++ .newline :: qs = q :: ps ∧ endsTarget q.kind = true := by
      cases tail with
      | nil => exact ⟨.newline, qs, rfl, rfl⟩
      | cons q tail => exact ⟨q, _, rfl, ends q rfl⟩
    obtain ⟨q, ps, after, stop⟩ := follow
    obtain ⟨dot, bracket, colon, arrow⟩ := of_endsTarget stop
    rw [shape, List.cons_append, List.append_assoc, after] at read ⊢
    refine (reads_peekKind (k := .identifier) rfl).bind ?_
    rintro _ rfl
    refine .get fun here back => ?_
    refine (reads_target name steps (keys steps inside shorter) dot bracket bound).bind fun t _ => ?_
    exact .skipType colon (.next_else arrow (.set back read))
  · rw [first] at read ⊢
    refine (reads_peekKind rfl).bind ?_
    rintro _ rfl
    revert start other
    generalize q.kind = k
    intro start other
    cases k
    all_goals first
      | exact read
      | exact absurd start (by decide)
      | exact absurd other (by decide)

theorem readsStmt_load {s : Span} {location : Expr} {nickname : String}
    (part : r.ReadsPart location) : ReadsStmt r n (.load s location nickname) := by
  intro qs
  simp only [Stmt.pieces, List.cons_append, List.append_assoc]
  refine (reads_peekKind (k := .kwImport) rfl).bind ?_
  rintro _ rfl
  refine reads_advance.bind fun word _ => ?_
  unfold aliasPieces
  split
  · next empty =>
    refine (part 0 _ _ (by decide) (by decide)).bind ?_
    intro location' same
    refine .next_else (by decide) (.spanFrom fun s' => .pure ?_)
    rw [Stmt.spanless, Stmt.spanless, same, empty]
  · refine (part 0 _ _ (by decide) (by decide)).bind ?_
    intro location' same
    refine .next_then rfl (.discard reads_advance (.nextIn_then rfl (reads_advance.bind ?_)))
    intro t ht
    have word : t.lexeme = nickname := congrArg Piece.lexeme ht
    refine .spanFrom fun s' => .pure ?_
    rw [Stmt.spanless, Stmt.spanless, same, word]

theorem readsStmt_attempt {s : Span} {body rescue : Block} (inside : r.ReadsBlock body)
    (after : r.ReadsBlock rescue) : ReadsStmt r n (.attempt s body rescue) := by
  intro qs
  simp only [Stmt.pieces, List.cons_append, List.append_assoc, List.nil_append]
  refine (reads_peekKind (k := .kwTry) rfl).bind ?_
  rintro _ rfl
  refine reads_advance.bind fun word _ => ?_
  refine (inside [.kwCatch] _ _ (by decide) (by decide)).bind ?_
  intro body' sameBody
  refine .discard (reads_expect rfl) ((after [.kwEndTry] _ _ (by decide) (by decide)).bind ?_)
  intro rescue' sameRescue
  refine (reads_expectEnd (k := .kwEndTry) rfl).bind fun _ _ => .spanFrom fun s' => .pure ?_
  rw [Stmt.spanless, Stmt.spanless, sameBody, sameRescue]

/-! ## Definitions -/

theorem noBreak_fields (names : List String) :
    NoBreak (names.flatMap (fun f => [Piece.name f, .newline]) ++ .mark .kwEndRecord :: qs) := by
  cases names with
  | nil => exact noBreak_cons (by decide)
  | cons f names => exact noBreak_cons (q := .name f) (by simp [Piece.name])

theorem reads_fields (names : List String) (fuel : names.length < n) :
    Reads (fields n) (names.flatMap (fun f => [Piece.name f, .newline]) ++ .mark .kwEndRecord :: qs)
      (.mark .kwEndRecord :: qs) fun names' => names' = names := by
  induction names generalizing n with
  | nil =>
    obtain ⟨n, rfl⟩ := Nat.exists_eq_add_one_of_ne_zero (Nat.ne_zero_of_lt fuel)
    exact .nextIn_then rfl (.pure rfl)
  | cons f names ih =>
    obtain ⟨n, rfl⟩ := Nat.exists_eq_add_one_of_ne_zero (Nat.ne_zero_of_lt fuel)
    have rest := ih (Nat.lt_of_succ_lt_succ fuel)
    rw [List.flatMap_cons, List.append_assoc]
    refine .nextIn_else rfl ((reads_expect (k := .identifier) rfl).bind ?_)
    intro t ht
    have word : t.lexeme = f := congrArg Piece.lexeme ht
    refine .skipType (by decide) (.next_else (by decide) (reads_nextIn.bind ?_))
    rintro _ rfl
    refine .unless rfl (.skipBreak (noBreak_fields names) (rest.bind ?_))
    rintro _ rfl
    exact .pure (by rw [word])

theorem readsStmt_record {s : Span} {name : String} {names : List String}
    (fuel : names.length < n) : ReadsStmt r n (.record s name names) := by
  intro qs
  simp only [Stmt.pieces, List.cons_append, List.append_assoc, List.nil_append]
  refine (reads_peekKind (k := .kwRecord) rfl).bind ?_
  rintro _ rfl
  refine reads_advance.bind fun word _ => (reads_expect (k := .identifier) rfl).bind ?_
  intro t ht
  have title : t.lexeme = name := congrArg Piece.lexeme ht
  refine .skipBreak (noBreak_fields names) ((reads_fields names fuel).bind ?_)
  rintro _ rfl
  refine (reads_expectEnd (k := .kwEndRecord) rfl).bind fun _ _ => .spanFrom fun s' => .pure ?_
  rw [Stmt.spanless, Stmt.spanless, title]

/-- A parameter behind a comma. -/
def commaParam (p : Param) : List Piece := [.mark .comma, .name p.name]

theorem separated_params_cons (p : Param) (ps : List Param) :
    separated ((p :: ps).map fun p => [.name p.name]) = .name p.name :: ps.flatMap commaParam := by
  rw [List.map_cons, separated, List.flatMap_map]
  rfl

theorem noBreak_params (ps : List Param) :
    NoBreak (separated (ps.map fun p => [.name p.name]) ++ .mark .rightParen :: qs) := by
  cases ps with
  | nil => exact noBreak_cons (by decide)
  | cons p ps =>
    rw [separated_params_cons]
    exact noBreak_cons (q := .name p.name) (by simp [Piece.name])

theorem reads_params (ps : List Param) (fuel : ps.length < n) :
    Reads (params n) (separated (ps.map fun p => [.name p.name]) ++ .mark .rightParen :: qs)
      (.mark .rightParen :: qs) fun ps' => ps'.map Param.spanless = ps.map Param.spanless := by
  induction ps generalizing n with
  | nil =>
    obtain ⟨n, rfl⟩ := Nat.exists_eq_add_one_of_ne_zero (Nat.ne_zero_of_lt fuel)
    exact .next_then rfl (.pure rfl)
  | cons p ps ih =>
    obtain ⟨n, rfl⟩ := Nat.exists_eq_add_one_of_ne_zero (Nat.ne_zero_of_lt fuel)
    have rest := ih (Nat.lt_of_succ_lt_succ fuel)
    rw [separated_params_cons, List.cons_append]
    refine .next_else (by simp [Piece.name]) ((reads_expect (k := .identifier) rfl).bind ?_)
    intro t ht
    have word : t.lexeme = p.name := congrArg Piece.lexeme ht
    cases ps with
    | nil =>
      refine .skipType (by decide) (.skip (noBreak_cons (by decide)) ?_)
      refine .next_else (by decide) (.pure ?_)
      simp only [List.map_cons, List.map_nil, Param.spanless, word]
    | cons p₂ ps =>
      have follow : NoBreak (separated ((p₂ :: ps).map fun p => [.name p.name]) ++
          .mark .rightParen :: qs) := noBreak_params (p₂ :: ps)
      rw [separated_params_cons] at rest follow
      rw [List.flatMap_cons, commaParam, List.cons_append, List.cons_append, List.cons_append]
      refine .skipType (by decide) (.skip (noBreak_cons (by decide)) (.next_then rfl ?_))
      refine .discard reads_advance (.skip follow (rest.bind ?_))
      intro ps' same
      refine .pure ?_
      rw [List.map_cons, List.map_cons, same, Param.spanless, Param.spanless, word]

theorem reads_paramList (ps : List Param) (fuel : ps.length < n) :
    Reads (paramList n) (inParens (separated (ps.map fun p => [.name p.name])) ++ qs) qs
      fun ps' => ps'.map Param.spanless = ps.map Param.spanless := by
  rw [inParens, List.cons_append, List.append_assoc, List.singleton_append]
  refine .discard (reads_expect rfl) (.skip (noBreak_params ps) ((reads_params ps fuel).bind ?_))
  intro ps' same
  exact .discard (reads_expect rfl) (.pure same)

theorem reads_routine {d : Routine} (inside : r.ReadsBlock d.body) (fuel : d.params.length < n) :
    Reads (routine r n) (d.pieces ++ qs) qs fun d' => d'.spanless = d.spanless := by
  obtain ⟨s, name, ps, body⟩ := d
  simp only [Routine.pieces, List.cons_append, List.append_assoc, List.nil_append]
  refine reads_advance.bind fun word _ => (reads_expect (k := .identifier) rfl).bind ?_
  intro t ht
  have title : t.lexeme = name := congrArg Piece.lexeme ht
  refine (reads_paramList ps fuel).bind ?_
  intro ps' sameParams
  refine (inside [.kwEndSubroutine] _ _ (by decide) (by decide)).bind ?_
  intro body' sameBody
  refine (reads_expectEnd (k := .kwEndSubroutine) rfl).bind fun _ _ => .spanFrom fun s' => .pure ?_
  rw [Routine.spanless, Routine.spanless, title, sameParams]
  exact congrArg (Routine.mk default name _) sameBody

theorem readsStmt_subroutine {d : Routine} (inside : r.ReadsBlock d.body)
    (fuel : d.params.length < n) : ReadsStmt r n (.subroutine d) := by
  intro qs
  have first : ∃ ps, d.pieces = .mark .kwSubroutine :: ps := by
    cases d
    exact ⟨_, rfl⟩
  obtain ⟨ps, first⟩ := first
  have read : Reads (routine r n) (d.pieces ++ .newline :: qs) (.newline :: qs)
      fun d' => d'.spanless = d.spanless := reads_routine inside fuel
  rw [Stmt.pieces, first, List.cons_append]
  rw [first, List.cons_append] at read
  refine (reads_peekKind (k := .kwSubroutine) rfl).bind ?_
  rintro _ rfl
  refine read.bind ?_
  intro d' same
  exact .pure (by rw [Stmt.spanless, Stmt.spanless, same])

/-! ## Classes -/

/-- The pieces of a member of a class. -/
def memberPieces : Assignment ⊕ Routine → List Piece
  | .inl a => a.pieces
  | .inr d => d.pieces

/-- The member without its spans. -/
def memberSpanless : Assignment ⊕ Routine → Assignment ⊕ Routine :=
  Sum.map Assignment.spanless Routine.spanless

/-- The member is read up to the end of its line. -/
def ReadsMember (r : Rules) (n : Nat) (m : Assignment ⊕ Routine) : Prop :=
  ∀ qs, Reads (member r n) (memberPieces m ++ .newline :: qs) (.newline :: qs)
    fun m' => memberSpanless m' = memberSpanless m

theorem readsMember_static {a : Assignment} (static : a.isStatic = true)
    (part : r.ReadsPart a.value) : ReadsMember r n (.inl a) := by
  intro qs
  obtain ⟨s, ⟨s', name, steps⟩, value, constant⟩ := a
  simp only [Assignment.isStatic, Bool.and_eq_true, Bool.not_eq_true', List.isEmpty_iff] at static
  obtain ⟨⟨-, rfl⟩, rfl⟩ := static
  simp only [memberPieces, Assignment.pieces, chainPieces, Bool.false_eq_true, if_false,
    List.nil_append, List.cons_append]
  refine (reads_peekKind (k := .identifier) rfl).bind ?_
  rintro _ rfl
  have read : Reads (static r) (.name name :: .arrow :: (value.enclosed ++ .newline :: qs))
      (.newline :: qs) fun a' => a'.spanless = (⟨s, ⟨s', name, []⟩, value, false⟩ : Assignment).spanless := by
    refine reads_advance.bind ?_
    intro t ht
    have word : t.lexeme = name := congrArg Piece.lexeme ht
    refine .skipType (by decide) (.discard (reads_expect rfl) ?_)
    refine (part 0 _ _ (by decide) (by decide)).bind ?_
    intro value' same
    refine .spanFrom fun s' => .pure ?_
    simp only [Assignment.spanless, Target.spanless, word, same]
  refine read.bind ?_
  intro a' same
  exact .pure (congrArg Sum.inl same)

theorem readsMember_routine {d : Routine} (inside : r.ReadsBlock d.body)
    (fuel : d.params.length < n) : ReadsMember r n (.inr d) := by
  intro qs
  have first : ∃ ps, d.pieces = .mark .kwSubroutine :: ps := by
    cases d
    exact ⟨_, rfl⟩
  obtain ⟨ps, first⟩ := first
  have read : Reads (routine r n) (d.pieces ++ .newline :: qs) (.newline :: qs)
      fun d' => d'.spanless = d.spanless := reads_routine inside fuel
  rw [memberPieces, first, List.cons_append]
  rw [first, List.cons_append] at read
  refine (reads_peekKind (k := .kwSubroutine) rfl).bind ?_
  rintro _ rfl
  refine read.bind ?_
  intro d' same
  exact .pure (congrArg Sum.inr same)

/-- A member begins with a name or with `SUBROUTINE`. -/
theorem memberPieces_eq_cons {m : Assignment ⊕ Routine}
    (static : ∀ a, m = .inl a → a.isStatic = true) :
    ∃ q ps, memberPieces m = q :: ps ∧ isStop q.kind = false := by
  cases m with
  | inl a =>
    have plain := static a rfl
    simp only [Assignment.isStatic, Bool.and_eq_true, Bool.not_eq_true'] at plain
    rw [memberPieces, Assignment.pieces, plain.1.2]
    exact ⟨.name a.target.name, _, rfl, rfl⟩
  | inr d =>
    cases d
    exact ⟨_, _, rfl, rfl⟩

theorem reads_members (lead : List Piece) (ms : List (Assignment ⊕ Routine))
    (lines : lead = [] ∨ lead = [.newline])
    (statics : ∀ a, .inl a ∈ ms → a.isStatic = true)
    (each : ∀ m ∈ ms, ∀ k, (memberPieces m).length < k → ReadsMember r k m)
    (fuel : (ms.flatMap fun m => memberPieces m ++ [Piece.newline]).length < n) :
    Reads (members r n)
      (lead ++ ((ms.flatMap fun m => memberPieces m ++ [Piece.newline]) ++ .mark .kwEndClass :: qs))
      (.mark .kwEndClass :: qs) fun ms' => ms'.map memberSpanless = ms.map memberSpanless := by
  induction ms generalizing n lead with
  | nil =>
    obtain ⟨n, rfl⟩ := Nat.exists_eq_add_one_of_ne_zero (Nat.ne_zero_of_lt fuel)
    exact .skipLead lines (noBreak_cons (by decide)) (.nextIn_then rfl (.pure rfl))
  | cons m ms ih =>
    obtain ⟨n, rfl⟩ := Nat.exists_eq_add_one_of_ne_zero (Nat.ne_zero_of_lt fuel)
    rw [List.flatMap_cons, List.length_append, List.length_append, List.length_singleton] at fuel
    have rest := ih [.newline] (.inr rfl) (fun a mem => statics a (List.mem_cons_of_mem m mem))
      (fun m' mem => each m' (List.mem_cons_of_mem m mem)) (n := n) (by omega)
    have here := each m List.mem_cons_self n (by omega)
      ((ms.flatMap fun m => memberPieces m ++ [Piece.newline]) ++ .mark .kwEndClass :: qs)
    obtain ⟨q, ps, first, start⟩ := memberPieces_eq_cons (m := m) fun a same =>
      statics a (same ▸ List.mem_cons_self)
    rw [List.flatMap_cons, List.append_assoc, List.append_assoc, List.singleton_append]
    rw [first, List.cons_append] at here ⊢
    have inside : [Kind.kwEndClass, .kwEnd, .eof].contains q.kind = false := by
      revert start
      generalize q.kind = k
      cases k <;> decide
    have line : q.kind ≠ .newline := by
      intro h
      rw [h] at start
      cases start
    refine .skipLead lines (noBreak_cons line) (.nextIn_else inside (here.bind ?_))
    intro m' same
    refine reads_nextIn.bind ?_
    rintro _ rfl
    refine .unless rfl (rest.bind ?_)
    intro ms' sameRest
    refine .pure ?_
    rw [List.map_cons, List.map_cons, same, sameRest]

theorem filterMap_getLeft? (ms : List (Assignment ⊕ Routine)) :
    (ms.map memberSpanless).filterMap Sum.getLeft? =
      (ms.filterMap Sum.getLeft?).map Assignment.spanless := by
  rw [List.filterMap_map, List.map_filterMap]
  congr 1
  funext m
  cases m <;> rfl

theorem filterMap_getRight? (ms : List (Assignment ⊕ Routine)) :
    (ms.map memberSpanless).filterMap Sum.getRight? =
      (ms.filterMap Sum.getRight?).map Routine.spanless := by
  rw [List.filterMap_map, List.map_filterMap]
  congr 1
  funext m
  cases m <;> rfl

theorem routinesSpanless_eq_map (ds : List Routine) :
    routinesSpanless ds = ds.map Routine.spanless := by
  induction ds with
  | nil => rfl
  | cons d ds ih => rw [routinesSpanless, ih, List.map_cons]

theorem routinesPieces_eq_flatMap (ds : List Routine) :
    routinesPieces ds = ds.flatMap fun d => d.pieces ++ [Piece.newline] := by
  induction ds with
  | nil => rfl
  | cons d ds ih =>
    rw [routinesPieces, ih, List.flatMap_cons, List.append_assoc, List.singleton_append]

/-- The members of a class in the order in which they are written. -/
def classMembers (statics : List Assignment) (methods : List Routine) :
    List (Assignment ⊕ Routine) := statics.map .inl ++ methods.map .inr

theorem flatMap_classMembers (statics : List Assignment) (methods : List Routine) :
    (classMembers statics methods).flatMap (fun m => memberPieces m ++ [Piece.newline]) =
      statics.flatMap (fun a => a.pieces ++ [Piece.newline]) ++ routinesPieces methods := by
  rw [classMembers, List.flatMap_append, List.flatMap_map, List.flatMap_map,
    routinesPieces_eq_flatMap]
  rfl

/-- Fields and methods that are read in any order are told apart again. -/
theorem members_eq {statics : List Assignment} {methods : List Routine}
    {ms : List (Assignment ⊕ Routine)}
    (same : ms.map memberSpanless = (classMembers statics methods).map memberSpanless) :
    (ms.filterMap Sum.getLeft?).map Assignment.spanless = statics.map Assignment.spanless ∧
      routinesSpanless (ms.filterMap Sum.getRight?) = routinesSpanless methods := by
  have left := congrArg (List.filterMap Sum.getLeft?) same
  have right := congrArg (List.filterMap Sum.getRight?) same
  rw [filterMap_getLeft?, filterMap_getLeft?] at left
  rw [filterMap_getRight?, filterMap_getRight?] at right
  rw [routinesSpanless_eq_map, routinesSpanless_eq_map, left, right]
  simp [classMembers, List.filterMap_map, Function.comp_def]

theorem readsStmt_classDef {s : Span} {name : String} {statics : List Assignment}
    {methods : List Routine} (shaped : statics.all Assignment.isStatic = true)
    (each : ∀ m ∈ classMembers statics methods, ∀ k, (memberPieces m).length < k →
      ReadsMember r k m)
    (fuel : (Stmt.classDef s name statics methods).pieces.length < n) :
    ReadsStmt r n (.classDef s name statics methods) := by
  intro qs
  have static : ∀ a, .inl a ∈ classMembers statics methods → a.isStatic = true := by
    intro a mem
    have known : a ∈ statics := by simpa [classMembers] using mem
    exact List.all_eq_true.mp shaped a known
  have bound : ((classMembers statics methods).flatMap
      fun m => memberPieces m ++ [Piece.newline]).length < n := by
    rw [flatMap_classMembers]
    simp only [Stmt.pieces, List.length_cons, List.length_append, List.length_nil] at fuel ⊢
    omega
  have read : Reads (members r n) ([Piece.newline] ++
      (((classMembers statics methods).flatMap fun m => memberPieces m ++ [Piece.newline]) ++
        .mark .kwEndClass :: .newline :: qs)) (.mark .kwEndClass :: .newline :: qs) _ :=
    reads_members [.newline] (classMembers statics methods) (.inr rfl) static each bound
  rw [flatMap_classMembers, List.append_assoc] at read
  simp only [Stmt.pieces, List.cons_append, List.append_assoc, List.nil_append]
  refine (reads_peekKind (k := .kwClass) rfl).bind ?_
  rintro _ rfl
  refine reads_advance.bind fun word _ => (reads_expect (k := .identifier) rfl).bind ?_
  intro t ht
  have title : t.lexeme = name := congrArg Piece.lexeme ht
  refine read.bind ?_
  intro ms same
  obtain ⟨sameStatics, sameMethods⟩ := members_eq same
  refine (reads_expectEnd (k := .kwEndClass) rfl).bind fun _ _ => .spanFrom fun s' => .pure ?_
  rw [Stmt.spanless, Stmt.spanless, title, sameStatics, sameMethods]

/-! ## Choices -/

/-- The branch is read up to its terminator. -/
def ReadsBranch (r : Rules) (n : Nat) (b : Branch) : Prop :=
  ∀ qs, Reads (branch r n) (b.pieces ++ .mark .kwEndIf :: qs) (.mark .kwEndIf :: qs)
    fun b' => b'.spanless = b.spanless

/-- The parts of a branch that all branches have. -/
theorem reads_branchHead {β : Type} {condition : Expr} {consequence : Block}
    {f : Token → Expr → Block → Parser β} {ps rs : List Piece} {Q : β → Prop}
    (part : r.ReadsPart condition) (inside : r.ReadsBlock consequence)
    (stop : q.kind = .kwEndIf ∨ q.kind = .kwElse)
    (more : ∀ word condition' consequence', condition'.spanless = condition.spanless →
      consequence'.spanless = consequence.spanless →
      Reads (f word condition' consequence') (q :: ps) rs Q) :
    Reads (do
        let word ← advance
        let condition ← r.expr 0
        skipNewlines
        discard (expect .kwThen)
        let consequence ← r.block [.kwEndIf, .kwElse]
        f word condition consequence)
      (.mark .kwIf :: (condition.enclosed ++ .mark .kwThen :: .newline ::
        (consequence.pieces ++ q :: ps))) rs Q := by
  refine reads_advance.bind fun word _ => (part 0 _ _ (by decide) (by decide)).bind ?_
  intro condition' sameCondition
  refine .skip (noBreak_cons (by decide)) (.discard (reads_expect rfl) ?_)
  have closes : stopsAt [.kwEndIf, .kwElse] q.kind = true := by
    rcases stop with h | h <;> rw [h] <;> decide
  refine (inside [.kwEndIf, .kwElse] q ps (by decide) closes).bind ?_
  intro consequence' sameConsequence
  exact more word condition' consequence' sameCondition sameConsequence

theorem readsBranch_absent {s : Span} {condition : Expr} {consequence : Block}
    (part : r.ReadsPart condition) (inside : r.ReadsBlock consequence) :
    ReadsBranch r (n + 1) (.mk s condition consequence .absent) := by
  intro qs
  simp only [Branch.pieces, Otherwise.pieces, List.cons_append, List.append_assoc, List.nil_append]
  refine reads_branchHead part inside (.inl rfl) ?_
  intro word condition' consequence' sameCondition sameConsequence
  refine .next_else (by decide) (.spanFrom fun s' => .pure ?_)
  simp only [Branch.spanless, Otherwise.spanless, sameCondition, sameConsequence]

theorem readsBranch_elseBlock {s : Span} {condition : Expr} {consequence body : Block}
    (part : r.ReadsPart condition) (inside : r.ReadsBlock consequence)
    (other : r.ReadsBlock body) :
    ReadsBranch r (n + 1) (.mk s condition consequence (.elseBlock body)) := by
  intro qs
  simp only [Branch.pieces, Otherwise.pieces, List.cons_append, List.append_assoc]
  refine reads_branchHead part inside (.inr rfl) ?_
  intro word condition' consequence' sameCondition sameConsequence
  refine .next_then rfl (.discard reads_advance (.next_else (by decide) ?_))
  refine (other [.kwEndIf] _ _ (by decide) (by decide)).bind ?_
  intro body' sameBody
  refine .spanFrom fun s' => .pure ?_
  simp only [Branch.spanless, Otherwise.spanless, sameCondition, sameConsequence, sameBody]

theorem Branch.pieces_eq_cons (b : Branch) : ∃ ps, b.pieces = .mark .kwIf :: ps := by
  cases b
  exact ⟨_, rfl⟩

theorem readsBranch_elseIf {s : Span} {condition : Expr} {consequence : Block} {next : Branch}
    (part : r.ReadsPart condition) (inside : r.ReadsBlock consequence)
    (other : ReadsBranch r n next) :
    ReadsBranch r (n + 1) (.mk s condition consequence (.elseIf next)) := by
  intro qs
  simp only [Branch.pieces, Otherwise.pieces, List.cons_append, List.append_assoc]
  refine reads_branchHead part inside (.inr rfl) ?_
  intro word condition' consequence' sameCondition sameConsequence
  obtain ⟨ps, first⟩ := Branch.pieces_eq_cons next
  have read := other qs
  rw [first, List.cons_append] at read ⊢
  refine .next_then rfl (.discard reads_advance (.next_then rfl (read.bind ?_)))
  intro next' sameNext
  refine .spanFrom fun s' => .pure ?_
  simp only [Branch.spanless, Otherwise.spanless, sameCondition, sameConsequence, sameNext]

theorem readsStmt_branch {b : Branch} (read : ReadsBranch r n b) : ReadsStmt r n (.branch b) := by
  intro qs
  obtain ⟨ps, first⟩ := Branch.pieces_eq_cons b
  have here := read (.newline :: qs)
  rw [Stmt.pieces, List.append_assoc, List.singleton_append]
  rw [first, List.cons_append] at here ⊢
  refine (reads_peekKind (k := .kwIf) rfl).bind ?_
  rintro _ rfl
  refine here.bind ?_
  intro b' same
  obtain ⟨s', condition, consequence, alternative⟩ := b'
  refine (reads_expectEnd (k := .kwEndIf) rfl).bind fun _ _ => ?_
  refine Reads.bind (P := fun b'' => b''.spanless = b.spanless) (.spanFrom fun s'' => .pure ?_) ?_
  · rw [← same, Branch.spanless, Branch.spanless]
  · intro b'' same'
    exact .pure (by rw [Stmt.spanless, Stmt.spanless, same'])

end Grammar

end Pseudocode
