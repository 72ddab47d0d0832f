import Pseudocode.Proofs.Printing.Shape
import Pseudocode.Proofs.Printing.Statement
/-
# `Proofs.Printing.Program` — parsing undoes printing

Every statement of a well-formed program is readable: the rules read it off
its pieces once they may nest deeper than there are pieces.  The induction
goes over statements, blocks, branches and routines at once, one case for each
constructor and one lemma of `Proofs.Printing.Statement` for each case.  The
parser chooses its depth by the number of tokens, which is that of the pieces,
so `parse` reads back what `Block.print` writes.  Conversely, what `parse` reads
is well formed unless there is a real literal in it (`grammatical_of_parse`).
-/
namespace Pseudocode

namespace Grammar

variable {n m : Nat}

/-! ## Readable statements -/

/-- The statement is read by rules that nest deep enough. -/
def ReadableStmt (s : Stmt) : Prop :=
  ∀ {n m}, s.pieces.length < n → s.pieces.length < m → ReadsStmt (rules n) m s

/-- All statements of the block are readable. -/
def ReadableBlock (b : Block) : Prop := ∀ s ∈ b.body, ReadableStmt s

/-- The branch is read by rules that nest deep enough. -/
def ReadableBranch (b : Branch) : Prop :=
  ∀ {n m}, b.pieces.length < n → b.pieces.length < m → ReadsBranch (rules n) m b

theorem length_stmt_lt {s : Stmt} {body : List Stmt} (h : s ∈ body) :
    s.pieces.length < (stmtsPieces body).length := by
  induction body with
  | nil => cases h
  | cons s' body ih =>
    rw [stmtsPieces, List.length_append, List.length_cons]
    rcases List.mem_cons.mp h with rfl | later
    · omega
    · have := ih later
      omega

theorem ReadableBlock.each {b : Block} (h : ReadableBlock b) (fuel : b.pieces.length ≤ n) :
    ∀ s ∈ b.body, ∀ m, s.pieces.length < m → ReadsStmt (rules n) m s := by
  intro s mem m
  have shorter : s.pieces.length < b.pieces.length := by
    obtain ⟨_, body⟩ := b
    exact length_stmt_lt mem
  exact h s mem (Nat.lt_of_lt_of_le shorter fuel)

theorem ReadableBlock.inside {b : Block} (h : ReadableBlock b) (fuel : b.pieces.length + 1 < n) :
    (rules n).ReadsBlock b := by
  obtain ⟨n, rfl⟩ := Nat.exists_eq_add_one_of_ne_zero (Nat.ne_zero_of_lt fuel)
  have bound : b.pieces.length < n := Nat.lt_of_succ_lt_succ fuel
  intro closers q qs all stop
  exact reads_block [.newline] b (.inr rfl) (h.each (Nat.le_of_lt bound)) all stop bound

theorem length_params_le (ps : List Param) :
    ps.length ≤ (separated (ps.map fun p => [Piece.name p.name])).length := by
  have some : ∀ qs ∈ ps.map fun p => [Piece.name p.name], 0 < qs.length := by
    intro qs hqs
    obtain ⟨p, -, rfl⟩ := List.mem_map.mp hqs
    exact Nat.one_pos
  simpa using length_separated some

/-- The parts of a routine fit into its pieces. -/
theorem length_routine (d : Routine) :
    d.params.length < d.pieces.length ∧ d.body.pieces.length + 1 < d.pieces.length := by
  obtain ⟨s, name, ps, body⟩ := d
  have := length_params_le ps
  simp only [Routine.pieces, Routine.params, Routine.body, inParens, List.length_cons,
    List.length_append, List.length_nil]
  omega

theorem length_fields_le (names : List String) :
    names.length ≤ (names.flatMap fun f => [Piece.name f, .newline]).length := by
  induction names with
  | nil => exact Nat.le_refl 0
  | cons f names ih =>
    simp only [List.flatMap_cons, List.length_append, List.length_cons, List.length_nil]
    omega

/-- A field or method is shorter than the class. -/
theorem length_member_lt (s : Span) (name : String) {statics : List Assignment}
    {methods : List Routine} {m : Assignment ⊕ Routine}
    (h : m ∈ classMembers statics methods) :
    (memberPieces m).length < (Stmt.classDef s name statics methods).pieces.length := by
  have listed : (memberPieces m ++ [Piece.newline]).length ≤
      ((classMembers statics methods).flatMap fun m => memberPieces m ++ [Piece.newline]).length :=
    (List.sublist_flatten_of_mem
      (List.mem_map_of_mem (f := fun m => memberPieces m ++ [Piece.newline]) h)).length_le
  rw [flatMap_classMembers] at listed
  simp only [Stmt.pieces, List.length_append, List.length_cons, List.length_nil] at listed ⊢
  omega

/-! ## By the constructors -/

mutual

theorem readableStmt : ∀ s : Stmt, s.all Expr.shaped Stmt.shaped = true →
    s.all Expr.exact (fun _ => true) = true → ReadableStmt s
  | .expr e, h, x, n, m, deep, long => by
    simp only [Stmt.all, Bool.and_eq_true] at h x
    rw [Stmt.pieces] at deep long
    refine readsStmt_expr ((readable e h.2 x.2).whole deep) ?_ long
    intro steps inside shorter s key mem
    have part := readable_keys steps (inside _ h.2) (inside _ x.2) s key mem
    have := length_key_lt mem
    exact part.part (by omega)
  | .assign a, h, x, n, m, deep, long => by
    simp only [Stmt.all, Stmt.shaped, Assignment.shaped, Assignment.all, Bool.and_eq_true] at h x
    simp only [Stmt.pieces, Assignment.pieces, List.length_append, List.length_cons] at deep long
    refine readsStmt_assign h.1.2 (fun s key mem => ?_) ?_ ?_
    · have := length_key_lt mem
      exact (readable_keys a.target.chain h.2.1 x.2.1 s key mem).part (by omega)
    · exact (readable a.value h.2.2 x.2.2).part (by omega)
    · have := length_steps_le a.target.chain
      omega
  | .subroutine d, h, x, n, m, deep, long => by
    simp only [Stmt.all, Bool.and_eq_true] at h x
    rw [Stmt.pieces] at deep long
    have fits := length_routine d
    exact readsStmt_subroutine ((readableRoutine d h.2 x.2).inside (by omega)) (by omega)
  | .branch b, h, x, n, m, deep, long => by
    simp only [Stmt.all, Bool.and_eq_true] at h x
    simp only [Stmt.pieces, List.length_append, List.length_cons, List.length_nil] at deep long
    exact readsStmt_branch (readableBranch b h.2 x.2 (by omega) (by omega))
  | .whileLoop s condition body, h, x, n, m, deep, _ => by
    simp only [Stmt.all, Bool.and_eq_true] at h x
    simp only [Stmt.pieces, List.length_append, List.length_cons, List.length_nil] at deep
    exact readsStmt_whileLoop ((readable condition h.1.2 x.1.2).part (by omega))
      ((readableBlock body h.2 x.2).inside (by omega))
  | .repeatLoop s body condition, h, x, n, m, deep, _ => by
    simp only [Stmt.all, Bool.and_eq_true] at h x
    simp only [Stmt.pieces, List.length_append, List.length_cons] at deep
    exact readsStmt_repeatLoop ((readableBlock body h.1.2 x.1.2).inside (by omega))
      ((readable condition h.2 x.2).part (by omega))
  | .forRange s counter first last step body, h, x, n, m, deep, _ => by
    simp only [Stmt.all, Bool.and_eq_true] at h x
    simp only [Stmt.pieces, List.length_append, List.length_cons, List.length_nil] at deep
    refine readsStmt_forRange ((readable first h.1.1.1.2 x.1.1.1.2).part (by omega))
      ((readable last h.1.1.2 x.1.1.2).part (by omega)) ?_
      ((readableBlock body h.2 x.2).inside (by omega))
    rintro e ⟨⟩
    simp only [stepPieces, List.length_cons] at deep
    exact (readable e h.1.2 x.1.2).part (by omega)
  | .forEach s counter iterable body, h, x, n, m, deep, _ => by
    simp only [Stmt.all, Bool.and_eq_true] at h x
    simp only [Stmt.pieces, List.length_append, List.length_cons, List.length_nil] at deep
    exact readsStmt_forEach ((readable iterable h.1.2 x.1.2).part (by omega))
      ((readableBlock body h.2 x.2).inside (by omega))
  | .record s name fields, _, _, n, m, _, long => by
    simp only [Stmt.pieces, List.length_append, List.length_cons, List.length_nil] at long
    have := length_fields_le fields
    exact readsStmt_record (by omega)
  | .classDef s name statics methods, h, x, n, m, deep, long => by
    simp only [Stmt.all, Stmt.shaped, Bool.and_eq_true] at h x
    refine readsStmt_classDef h.1.1.1.2 ?_ long
    intro member mem k short
    have shorter := length_member_lt s name mem
    cases member with
    | inl a =>
      have known : a ∈ statics := by simpa [classMembers] using mem
      have shaped := List.all_eq_true.mp h.1.2 a known
      have exact_ := List.all_eq_true.mp x.1.2 a known
      simp only [Assignment.all, Bool.and_eq_true] at shaped exact_
      refine readsMember_static (List.all_eq_true.mp h.1.1.1.2 a known) ?_
      simp only [memberPieces, Assignment.pieces, List.length_append, List.length_cons] at shorter
      exact (readable a.value shaped.2 exact_.2).part (by omega)
    | inr d =>
      have known : d ∈ methods := by simpa [classMembers] using mem
      have fits := length_routine d
      simp only [memberPieces] at shorter short
      exact readsMember_routine ((readableRoutines methods h.2 x.2 d known).inside (by omega))
        (by omega)
  | .attempt s body rescue, h, x, n, m, deep, _ => by
    simp only [Stmt.all, Bool.and_eq_true] at h x
    simp only [Stmt.pieces, List.length_append, List.length_cons, List.length_nil] at deep
    exact readsStmt_attempt ((readableBlock body h.1.2 x.1.2).inside (by omega))
      ((readableBlock rescue h.2 x.2).inside (by omega))
  | .load s location nickname, h, x, n, m, deep, _ => by
    simp only [Stmt.all, Bool.and_eq_true] at h x
    simp only [Stmt.pieces, List.length_append, List.length_cons] at deep
    exact readsStmt_load ((readable location h.2 x.2).part (by omega))

theorem readableBlock : ∀ b : Block, b.all Expr.shaped Stmt.shaped = true →
    b.all Expr.exact (fun _ => true) = true → ReadableBlock b
  | .mk _ body, h, x => readableStmts body h x

theorem readableStmts : ∀ body : List Stmt, stmtsAll Expr.shaped Stmt.shaped body = true →
    stmtsAll Expr.exact (fun _ => true) body = true → ∀ s ∈ body, ReadableStmt s
  | [], _, _, _, mem => absurd mem List.not_mem_nil
  | s :: body, h, x, s', mem => by
    simp only [stmtsAll, Bool.and_eq_true] at h x
    rcases List.mem_cons.mp mem with same | later
    · rw [same]
      exact readableStmt s h.1 x.1
    · exact readableStmts body h.2 x.2 s' later

theorem readableBranch : ∀ b : Branch, b.all Expr.shaped Stmt.shaped = true →
    b.all Expr.exact (fun _ => true) = true → ReadableBranch b
  | .mk s condition consequence alternative, h, x, n, m, deep, long => by
    simp only [Branch.all, Bool.and_eq_true] at h x
    simp only [Branch.pieces, List.length_append, List.length_cons] at deep long
    obtain ⟨m, rfl⟩ := Nat.exists_eq_add_one_of_ne_zero (Nat.ne_zero_of_lt long)
    have part := (readable condition h.1.1 x.1.1).part (n := n) (by omega)
    have inside := (readableBlock consequence h.1.2 x.1.2).inside (n := n) (by omega)
    match alternative, h.2, x.2 with
    | .absent, _, _ => exact readsBranch_absent part inside
    | .elseIf next, h', x' =>
      simp only [Otherwise.pieces, List.length_cons] at deep long
      exact readsBranch_elseIf part inside (readableBranch next h' x' (by omega) (by omega))
    | .elseBlock body, h', x' =>
      simp only [Otherwise.pieces, List.length_cons] at deep
      exact readsBranch_elseBlock part inside ((readableBlock body h' x').inside (by omega))

theorem readableRoutine : ∀ d : Routine, d.all Expr.shaped Stmt.shaped = true →
    d.all Expr.exact (fun _ => true) = true → ReadableBlock d.body
  | .mk _ _ _ body, h, x => readableBlock body h x

theorem readableRoutines : ∀ ds : List Routine, routinesAll Expr.shaped Stmt.shaped ds = true →
    routinesAll Expr.exact (fun _ => true) ds = true → ∀ d ∈ ds, ReadableBlock d.body
  | [], _, _, _, mem => absurd mem List.not_mem_nil
  | d :: ds, h, x, d', mem => by
    simp only [routinesAll, Bool.and_eq_true] at h x
    rcases List.mem_cons.mp mem with same | later
    · rw [same]
      exact readableRoutine d h.1 x.1
    · exact readableRoutines ds h.2 x.2 d' later

end

/-! ## Whole programs -/

/-- A list of tokens with the pieces of a program is read as that program. -/
theorem program_of_pieces {b : Block} (h : b.WellFormed) {tokens : List Token}
    (pieces : tokens.map Token.piece = b.pieces ++ [Piece.eof]) :
    ∃ b', program tokens = .ok b' ∧ b'.spanless = b.spanless := by
  have many : tokens.length = b.pieces.length + 1 := by
    simpa using congrArg List.length pieces
  have readable := readableBlock b h.grammatical h.realFree
  have body : Reads ((rules (depthBound tokens)).block []) (b.pieces ++ [Piece.eof]) [.eof]
      fun b' => b'.spanless = b.spanless :=
    reads_block (n := tokens.length + 3) [] b (.inl rfl) (readable.each (by omega)) rfl rfl
      (by omega)
  have whole : Reads (wholeProgram (depthBound tokens)) (b.pieces ++ [Piece.eof]) [.eof]
      fun b' => b'.spanless = b.spanless := by
    refine body.bind ?_
    intro b' same
    exact .next_then rfl (.pure same)
  obtain ⟨b', c, run, -, same⟩ := whole (endOf tokens) ⟨none, tokens⟩ pieces
  refine ⟨b', ?_, same⟩
  rw [program, run]

end Grammar

/-- What is written is read back, up to spans. -/
theorem exists_parse_print (file : String) {b : Block} (h : b.WellFormed) :
    ∃ b', parse b.print file = .ok b' ∧ b'.spanless = b.spanless := by
  have legible : AllLegible b.pieces := b.allLegible h.grammatical h.realFree
  obtain ⟨pieces, failure⟩ := scan_written b.print file .start b.pieces legible
  have chars : b.print.toList = b.pieces.flatMap Piece.written := by
    rw [Block.print, String.toList_ofList]
  rw [← chars] at pieces failure
  obtain ⟨b', read, same⟩ := Grammar.program_of_pieces h pieces
  refine ⟨b', ?_, same⟩
  have scanned : (Scan.scan b.print file).failure = none := failure
  rw [parse]
  simp only [scanned, parseTokens]
  rw [Scan.scan, read]

/-- Every well-formed program is read back from its own writing, up to spans, and
every program without real literals that is read from a source is well formed. -/
theorem parsing_undoes_printing (file : String) :
    (∀ b : Block, b.WellFormed →
      ∃ b', parse b.print file = .ok b' ∧ b'.spanless = b.spanless) ∧
    ∀ (source : String) (b : Block), parse source file = .ok b → b.RealFree → b.WellFormed := by
  refine ⟨fun b wellFormed => exists_parse_print file wellFormed, ?_⟩
  intro source b read realFree
  exact ⟨grammatical_of_parse read, realFree⟩

/-- A choice in a subroutine, with an indexed call behind its `ELSE IF`. -/
def sampleProgram : Block :=
  .mk default
    [.subroutine (.mk default "pick" [⟨default, "n"⟩] (.mk default
      [.branch (.mk default
        (.binary default .lt (.var default "n" []) (.int default 10))
        (.mk default [.expr (.magic default .returns [.string default "a\n\"b\""])])
        (.elseIf (.mk default (.bool default true)
          (.mk default [.assign ⟨default, ⟨default, "x", []⟩,
            .item default (.call default (.var default "f" []) [.none default])
              [.property default "y", .subscript default (.unary default .minus
                (.int default 1))], true⟩])
          (.elseBlock (.mk default [.load default (.string default "m") "a b"])))))]))]

theorem parsing_undoes_printing_sample :
    (sampleProgram.WellFormed ∧ ∃ b', parse sampleProgram.print "" = .ok b' ∧
      b'.spanless = sampleProgram.spanless) ∧
    ∃ b, parse "x ← [1, 'a']" "" = .ok b ∧ b.RealFree ∧ b.WellFormed := by
  have wellFormed : sampleProgram.WellFormed := by decide
  refine ⟨⟨wellFormed, (parsing_undoes_printing "").1 _ wellFormed⟩, ?_⟩
  have found : (match parse "x ← [1, 'a']" "" with
      | .ok b => decide b.RealFree
      | .error _ => false) = true := by decide +kernel
  split at found
  · next b read =>
    have realFree : b.RealFree := of_decide_eq_true found
    exact ⟨b, read, realFree, (parsing_undoes_printing "").2 _ b read realFree⟩
  · cases found

end Pseudocode
