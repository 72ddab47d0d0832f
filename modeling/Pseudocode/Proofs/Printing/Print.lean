import Pseudocode.Proofs.Printing.Piece
import Pseudocode.Real.Display
/-
# `Proofs.Printing.Print` — writing a program

One statement a line.  An expression that is part of another expression or of
a statement stands in parentheses unless it is a name with its steps, a literal,
an array or a dictionary; what is indexed stands in parentheses in any case.  A
block is closed by its own terminator, an `ELSE IF` shares the terminator of its
`IF`, and the block after a plain `ELSE` begins on a new line.

Every piece that a well-formed program is written with is legible.
-/
namespace Pseudocode

/-! ## Expressions -/

def inParens (ps : List Piece) : List Piece :=
  .mark .leftParen :: (ps ++ [.mark .rightParen])

/-- Pieces with commas between them. -/
def separated : List (List Piece) → List Piece
  | [] => []
  | ps :: rest => ps ++ rest.flatMap (.mark .comma :: ·)

/-- Is this neither compound nor a magic word? -/
def Expr.isAtom : Expr → Bool
  | .item _ _ _ | .call _ _ _ | .binary _ _ _ _ | .unary _ _ _ | .magic _ _ _ => false
  | _ => true

/-- The pieces of an expression as a part of something else. -/
def Expr.enclose (e : Expr) (ps : List Piece) : List Piece :=
  if e.isAtom then ps else inParens ps

mutual

/-- The pieces of an expression that stands on its own. -/
def Expr.pieces : Expr → List Piece
  | .var _ name chain => .name name :: chainPieces chain
  | .item _ base chain => inParens base.pieces ++ chainPieces chain
  | .call _ callee args =>
    callee.enclose callee.pieces ++ inParens (separated (exprsPieces args))
  | .binary _ op left right =>
    left.enclose left.pieces ++ .binary op :: right.enclose right.pieces
  | .unary _ op operand => .unary op :: operand.enclose operand.pieces
  | .magic _ word args => .mark word.kind :: separated (exprsPieces args)
  | .int _ value => [.number value.toNat]
  -- The display form of a real is read as the same real only up to its layout.
  | .real _ value => [⟨.real, Real.display value⟩]
  | .string _ value => [.quoted value]
  | .bool _ value => [.truth value]
  | .none _ => [.nothing]
  | .array _ elements =>
    .mark .leftBracket :: (separated (exprsPieces elements) ++ [.mark .rightBracket])
  | .dict _ entries =>
    .mark .leftBrace :: (separated (entriesPieces entries) ++ [.mark .rightBrace])

def exprsPieces : List Expr → List (List Piece)
  | [] => []
  | e :: rest => e.enclose e.pieces :: exprsPieces rest

def chainPieces : List Index → List Piece
  | [] => []
  | .subscript _ key :: rest =>
    .mark .leftBracket :: (key.enclose key.pieces ++ .mark .rightBracket :: chainPieces rest)
  | .property _ name :: rest => .mark .dot :: .name name :: chainPieces rest

def entriesPieces : List Entry → List (List Piece)
  | [] => []
  | .mk k v :: rest =>
    (k.enclose k.pieces ++ .mark .colon :: v.enclose v.pieces) :: entriesPieces rest

end

/-- The pieces of an expression as a part of something else. -/
def Expr.enclosed (e : Expr) : List Piece := e.enclose e.pieces

@[simp] theorem Expr.enclose_pieces (e : Expr) : e.enclose e.pieces = e.enclosed := rfl

theorem exprsPieces_eq_map (es : List Expr) : exprsPieces es = es.map Expr.enclosed := by
  induction es with
  | nil => rfl
  | cons e es ih =>
    rw [exprsPieces, ih, Expr.enclose_pieces, List.map_cons]

/-! ## Statements -/

def Assignment.pieces (a : Assignment) : List Piece :=
  (if a.constant then [.mark .kwConstant] else []) ++
    .name a.target.name :: (chainPieces a.target.chain ++ .arrow :: a.value.enclosed)

def stepPieces : Option Expr → List Piece
  | some e => .mark .kwStep :: e.enclosed
  | none => []

/-- An empty alias is left out. -/
def aliasPieces (nickname : String) : List Piece :=
  if nickname = "" then [] else [.mark .kwAs, .quoted nickname]

mutual

def Stmt.pieces : Stmt → List Piece
  | .expr e => e.pieces
  | .assign a => a.pieces
  | .subroutine d => d.pieces
  | .branch b => b.pieces ++ [.mark .kwEndIf]
  | .whileLoop _ condition body =>
    .mark .kwWhile :: (condition.enclosed ++ .newline :: (body.pieces ++ [.mark .kwEndWhile]))
  | .repeatLoop _ body condition =>
    .mark .kwRepeat :: .newline :: (body.pieces ++ .mark .kwUntil :: condition.enclosed)
  | .forRange _ counter first last step body =>
    .mark .kwFor :: .name counter :: .arrow :: (first.enclosed ++ .mark .kwTo ::
      (last.enclosed ++ (stepPieces step ++ .newline :: (body.pieces ++ [.mark .kwEndFor]))))
  | .forEach _ counter iterable body =>
    .mark .kwFor :: .name counter :: .mark .kwIn ::
      (iterable.enclosed ++ .newline :: (body.pieces ++ [.mark .kwEndFor]))
  | .record _ name fields =>
    .mark .kwRecord :: .name name :: .newline ::
      (fields.flatMap (fun f => [.name f, .newline]) ++ [.mark .kwEndRecord])
  | .classDef _ name statics methods =>
    .mark .kwClass :: .name name :: .newline ::
      (statics.flatMap (fun a => a.pieces ++ [.newline]) ++
        (routinesPieces methods ++ [.mark .kwEndClass]))
  | .attempt _ body rescue =>
    .mark .kwTry :: .newline :: (body.pieces ++ .mark .kwCatch :: .newline ::
      (rescue.pieces ++ [.mark .kwEndTry]))
  | .load _ location nickname =>
    .mark .kwImport :: (location.enclosed ++ aliasPieces nickname)

/-- The statements of a block, each with the end of its line. -/
def Block.pieces : Block → List Piece
  | .mk _ body => stmtsPieces body

def stmtsPieces : List Stmt → List Piece
  | [] => []
  | s :: rest => s.pieces ++ .newline :: stmtsPieces rest

/-- A branch up to its terminator. -/
def Branch.pieces : Branch → List Piece
  | .mk _ condition consequence alternative =>
    .mark .kwIf :: (condition.enclosed ++ .mark .kwThen :: .newline ::
      (consequence.pieces ++ alternative.pieces))

def Otherwise.pieces : Otherwise → List Piece
  | .absent => []
  | .elseIf next => .mark .kwElse :: next.pieces
  | .elseBlock body => .mark .kwElse :: .newline :: body.pieces

def Routine.pieces : Routine → List Piece
  | .mk _ name params body =>
    .mark .kwSubroutine :: .name name ::
      (inParens (separated (params.map fun p => [.name p.name])) ++ .newline ::
        (body.pieces ++ [.mark .kwEndSubroutine]))

def routinesPieces : List Routine → List Piece
  | [] => []
  | d :: rest => d.pieces ++ .newline :: routinesPieces rest

end

/-- A program in writing. -/
def Block.print (b : Block) : String := String.ofList (b.pieces.flatMap Piece.written)

/-! ## Every piece is legible -/

/-- All pieces of a list are legible. -/
def AllLegible (ps : List Piece) : Prop := ∀ q ∈ ps, q.Legible

@[simp] theorem allLegible_nil : AllLegible [] := fun _ h => absurd h List.not_mem_nil

@[simp] theorem allLegible_cons {q : Piece} {ps : List Piece} :
    AllLegible (q :: ps) ↔ q.Legible ∧ AllLegible ps := List.forall_mem_cons

@[simp] theorem allLegible_append {ps qs : List Piece} :
    AllLegible (ps ++ qs) ↔ AllLegible ps ∧ AllLegible qs := List.forall_mem_append

theorem Piece.legible_mark {k : Kind} (h : isDelimiter k = true ∨ k.isKeyword = true) :
    (mark k).Legible := by
  rcases h with h | h
  · exact legible_mark_of_isDelimiter h
  · exact legible_mark_of_isKeyword h

theorem allLegible_inParens {ps : List Piece} (h : AllLegible ps) : AllLegible (inParens ps) := by
  simp [inParens, h, Piece.legible_mark (k := .leftParen) (by decide),
    Piece.legible_mark (k := .rightParen) (by decide)]

theorem allLegible_enclose (e : Expr) {ps : List Piece} (h : AllLegible ps) :
    AllLegible (e.enclose ps) := by
  unfold Expr.enclose
  split
  · exact h
  · exact allLegible_inParens h

theorem allLegible_separated {pss : List (List Piece)} (h : ∀ ps ∈ pss, AllLegible ps) :
    AllLegible (separated pss) := by
  cases pss with
  | nil => exact allLegible_nil
  | cons ps rest =>
    rw [separated, allLegible_append]
    refine ⟨h ps List.mem_cons_self, ?_⟩
    intro q hq
    obtain ⟨qs, hqs, hq⟩ := List.mem_flatMap.mp hq
    rcases List.mem_cons.mp hq with rfl | hq
    · exact Piece.legible_mark (by decide)
    · exact h qs (List.mem_cons_of_mem ps hqs) q hq

mutual

theorem Expr.allLegible : ∀ e : Expr, e.all Expr.shaped = true → e.all Expr.exact = true →
    AllLegible e.pieces
  | .var _ name chain, h, x => by
    simp only [Expr.all, Expr.shaped, Bool.and_eq_true] at h x
    rw [Expr.pieces, allLegible_cons]
    exact ⟨Piece.legible_name h.1.1, chain_allLegible chain h.1.2 h.2 x.2⟩
  | .item _ base chain, h, x => by
    simp only [Expr.all, Expr.shaped, Bool.and_eq_true] at h x
    rw [Expr.pieces, allLegible_append]
    exact ⟨allLegible_inParens (base.allLegible h.1.2 x.1.2),
      chain_allLegible chain h.1.1.2 h.2 x.2⟩
  | .call _ callee args, h, x => by
    simp only [Expr.all, Bool.and_eq_true] at h x
    rw [Expr.pieces, allLegible_append]
    exact ⟨allLegible_enclose callee (callee.allLegible h.1.2 x.1.2),
      allLegible_inParens (allLegible_separated (exprs_allLegible args h.2 x.2))⟩
  | .binary _ op left right, h, x => by
    simp only [Expr.all, Bool.and_eq_true] at h x
    rw [Expr.pieces, allLegible_append, allLegible_cons]
    exact ⟨allLegible_enclose left (left.allLegible h.1.2 x.1.2), Piece.legible_binary op,
      allLegible_enclose right (right.allLegible h.2 x.2)⟩
  | .unary _ op operand, h, x => by
    simp only [Expr.all, Bool.and_eq_true] at h x
    rw [Expr.pieces, allLegible_cons]
    exact ⟨Piece.legible_unary op, allLegible_enclose operand (operand.allLegible h.2 x.2)⟩
  | .magic _ word args, h, x => by
    simp only [Expr.all, Bool.and_eq_true] at h x
    rw [Expr.pieces, allLegible_cons]
    exact ⟨Piece.legible_mark (by cases word <;> decide),
      allLegible_separated (exprs_allLegible args h.2 x.2)⟩
  | .int _ value, _, _ => by
    rw [Expr.pieces, allLegible_cons]
    exact ⟨Piece.legible_number value.toNat, allLegible_nil⟩
  | .real _ _, _, x => absurd x Bool.false_ne_true
  | .string _ value, _, _ => by
    rw [Expr.pieces, allLegible_cons]
    exact ⟨Piece.legible_quoted value, allLegible_nil⟩
  | .bool _ value, _, _ => by
    rw [Expr.pieces, allLegible_cons]
    exact ⟨Piece.legible_truth value, allLegible_nil⟩
  | .none _, _, _ => by
    rw [Expr.pieces, allLegible_cons]
    exact ⟨Piece.legible_nothing, allLegible_nil⟩
  | .array _ elements, h, x => by
    simp only [Expr.all, Bool.and_eq_true] at h x
    rw [Expr.pieces, allLegible_cons, allLegible_append, allLegible_cons]
    exact ⟨Piece.legible_mark (by decide),
      allLegible_separated (exprs_allLegible elements h.2 x.2),
      Piece.legible_mark (by decide), allLegible_nil⟩
  | .dict _ entries, h, x => by
    simp only [Expr.all, Bool.and_eq_true] at h x
    rw [Expr.pieces, allLegible_cons, allLegible_append, allLegible_cons]
    exact ⟨Piece.legible_mark (by decide),
      allLegible_separated (entries_allLegible entries h.2 x.2),
      Piece.legible_mark (by decide), allLegible_nil⟩

theorem exprs_allLegible : ∀ es : List Expr, exprsAll Expr.shaped es = true →
    exprsAll Expr.exact es = true → ∀ ps ∈ exprsPieces es, AllLegible ps
  | [], _, _ => fun _ h => absurd h List.not_mem_nil
  | e :: rest, h, x => by
    simp only [exprsAll, Bool.and_eq_true] at h x
    rw [exprsPieces, List.forall_mem_cons]
    exact ⟨allLegible_enclose e (e.allLegible h.1 x.1), exprs_allLegible rest h.2 x.2⟩

theorem chain_allLegible : ∀ chain : List Index, chain.all Index.shaped = true →
    chainAll Expr.shaped chain = true → chainAll Expr.exact chain = true →
    AllLegible (chainPieces chain)
  | [], _, _, _ => allLegible_nil
  | .subscript _ key :: rest, names, h, x => by
    simp only [chainAll, List.all_cons, Bool.and_eq_true] at names h x
    rw [chainPieces, allLegible_cons, allLegible_append, allLegible_cons]
    exact ⟨Piece.legible_mark (by decide), allLegible_enclose key (key.allLegible h.1 x.1),
      Piece.legible_mark (by decide), chain_allLegible rest names.2 h.2 x.2⟩
  | .property _ name :: rest, names, h, x => by
    simp only [chainAll, List.all_cons, Index.shaped, Bool.and_eq_true] at names h x
    rw [chainPieces, allLegible_cons, allLegible_cons]
    exact ⟨Piece.legible_mark (by decide), Piece.legible_name names.1,
      chain_allLegible rest names.2 h x⟩

theorem entries_allLegible : ∀ es : List Entry, entriesAll Expr.shaped es = true →
    entriesAll Expr.exact es = true → ∀ ps ∈ entriesPieces es, AllLegible ps
  | [], _, _ => fun _ h => absurd h List.not_mem_nil
  | .mk k v :: rest, h, x => by
    simp only [entriesAll, Bool.and_eq_true] at h x
    rw [entriesPieces, List.forall_mem_cons, allLegible_append, allLegible_cons]
    exact ⟨⟨allLegible_enclose k (k.allLegible h.1.1 x.1.1), Piece.legible_mark (by decide),
      allLegible_enclose v (v.allLegible h.1.2 x.1.2)⟩, entries_allLegible rest h.2 x.2⟩

end

theorem Expr.allLegible_enclosed (e : Expr) (h : e.all Expr.shaped = true)
    (x : e.all Expr.exact = true) : AllLegible e.enclosed :=
  allLegible_enclose e (e.allLegible h x)

theorem Assignment.allLegible (a : Assignment) (name : isName a.target.name = true)
    (names : a.target.chain.all Index.shaped = true) (h : a.all Expr.shaped = true)
    (x : a.all Expr.exact = true) : AllLegible a.pieces := by
  simp only [Assignment.all, Bool.and_eq_true] at h x
  have word : AllLegible (if a.constant then [.mark .kwConstant] else []) := by
    split
    · simp [Piece.legible_mark (k := .kwConstant) (by decide)]
    · exact allLegible_nil
  rw [Assignment.pieces, allLegible_append, allLegible_cons, allLegible_append, allLegible_cons]
  exact ⟨word, Piece.legible_name name, chain_allLegible _ names h.1 x.1, Piece.legible_arrow,
    a.value.allLegible_enclosed h.2 x.2⟩

theorem step_allLegible (step : Option Expr) (h : step.all (Expr.all Expr.shaped) = true)
    (x : step.all (Expr.all Expr.exact) = true) : AllLegible (stepPieces step) := by
  cases step with
  | none => exact allLegible_nil
  | some e =>
    rw [stepPieces, allLegible_cons]
    exact ⟨Piece.legible_mark (by decide), e.allLegible_enclosed h x⟩

theorem alias_allLegible (nickname : String) : AllLegible (aliasPieces nickname) := by
  unfold aliasPieces
  split
  · exact allLegible_nil
  · simp [Piece.legible_mark (k := .kwAs) (by decide), Piece.legible_quoted]

theorem fields_allLegible (fields : List String) (names : fields.all isName = true) :
    AllLegible (fields.flatMap fun f => [.name f, .newline]) := by
  intro q hq
  obtain ⟨f, hf, hq⟩ := List.mem_flatMap.mp hq
  have name : isName f = true := List.all_eq_true.mp names f hf
  rcases List.mem_cons.mp hq with rfl | hq
  · exact Piece.legible_name name
  · rw [List.mem_singleton.mp hq]
    exact Piece.legible_newline

theorem params_allLegible (params : List Param)
    (names : (params.all fun p => isName p.name) = true) :
    AllLegible (separated (params.map fun p => [.name p.name])) := by
  refine allLegible_separated ?_
  intro ps hps
  obtain ⟨p, hp, rfl⟩ := List.mem_map.mp hps
  rw [allLegible_cons]
  exact ⟨Piece.legible_name (List.all_eq_true.mp names p hp), allLegible_nil⟩

theorem statics_allLegible (statics : List Assignment)
    (shaped : statics.all Assignment.isStatic = true)
    (h : statics.all (Assignment.all Expr.shaped) = true)
    (x : statics.all (Assignment.all Expr.exact) = true) :
    AllLegible (statics.flatMap fun a => a.pieces ++ [Piece.newline]) := by
  intro q hq
  obtain ⟨a, ha, hq⟩ := List.mem_flatMap.mp hq
  have static := List.all_eq_true.mp shaped a ha
  simp only [Assignment.isStatic, Bool.and_eq_true, List.isEmpty_iff] at static
  have legible : AllLegible a.pieces :=
    a.allLegible static.1.1 (by simp [static.2]) (List.all_eq_true.mp h a ha)
      (List.all_eq_true.mp x a ha)
  rcases List.mem_append.mp hq with hq | hq
  · exact legible q hq
  · rw [List.mem_singleton.mp hq]
    exact Piece.legible_newline

mutual

theorem Stmt.allLegible : ∀ s : Stmt, s.all Expr.shaped Stmt.shaped = true →
    s.all Expr.exact (fun _ => true) = true → AllLegible s.pieces
  | .expr e, h, x => by
    simp only [Stmt.all, Bool.and_eq_true] at h x
    exact e.allLegible h.2 x.2
  | .assign a, h, x => by
    simp only [Stmt.all, Stmt.shaped, Assignment.shaped, Bool.and_eq_true] at h x
    exact a.allLegible h.1.1.1 h.1.1.2 h.2 x.2
  | .subroutine d, h, x => by
    simp only [Stmt.all, Stmt.shaped, Bool.and_eq_true] at h x
    exact d.allLegible h.1 h.2 x.2
  | .branch b, h, x => by
    simp only [Stmt.all, Bool.and_eq_true] at h x
    rw [Stmt.pieces, allLegible_append, allLegible_cons]
    exact ⟨b.allLegible h.2 x.2, Piece.legible_mark (by decide), allLegible_nil⟩
  | .whileLoop _ condition body, h, x => by
    simp only [Stmt.all, Bool.and_eq_true] at h x
    simp only [Stmt.pieces, allLegible_append, allLegible_cons]
    exact ⟨Piece.legible_mark (by decide), condition.allLegible_enclosed h.1.2 x.1.2,
      Piece.legible_newline, body.allLegible h.2 x.2, Piece.legible_mark (by decide),
      allLegible_nil⟩
  | .repeatLoop _ body condition, h, x => by
    simp only [Stmt.all, Bool.and_eq_true] at h x
    simp only [Stmt.pieces, allLegible_append, allLegible_cons]
    exact ⟨Piece.legible_mark (by decide), Piece.legible_newline, body.allLegible h.1.2 x.1.2,
      Piece.legible_mark (by decide), condition.allLegible_enclosed h.2 x.2⟩
  | .forRange _ counter first last step body, h, x => by
    simp only [Stmt.all, Stmt.shaped, Bool.and_eq_true] at h x
    simp only [Stmt.pieces, allLegible_append, allLegible_cons]
    exact ⟨Piece.legible_mark (by decide), Piece.legible_name h.1.1.1.1, Piece.legible_arrow,
      first.allLegible_enclosed h.1.1.1.2 x.1.1.1.2, Piece.legible_mark (by decide),
      last.allLegible_enclosed h.1.1.2 x.1.1.2, step_allLegible step h.1.2 x.1.2,
      Piece.legible_newline, body.allLegible h.2 x.2, Piece.legible_mark (by decide),
      allLegible_nil⟩
  | .forEach _ counter iterable body, h, x => by
    simp only [Stmt.all, Stmt.shaped, Bool.and_eq_true] at h x
    simp only [Stmt.pieces, allLegible_append, allLegible_cons]
    exact ⟨Piece.legible_mark (by decide), Piece.legible_name h.1.1, Piece.legible_mark (by decide),
      iterable.allLegible_enclosed h.1.2 x.1.2, Piece.legible_newline, body.allLegible h.2 x.2,
      Piece.legible_mark (by decide), allLegible_nil⟩
  | .record _ name fields, h, _ => by
    simp only [Stmt.all, Stmt.shaped, Bool.and_eq_true] at h
    simp only [Stmt.pieces, allLegible_append, allLegible_cons]
    exact ⟨Piece.legible_mark (by decide), Piece.legible_name h.1, Piece.legible_newline,
      fields_allLegible fields h.2, Piece.legible_mark (by decide), allLegible_nil⟩
  | .classDef _ name statics methods, h, x => by
    simp only [Stmt.all, Stmt.shaped, Bool.and_eq_true] at h x
    simp only [Stmt.pieces, allLegible_append, allLegible_cons]
    exact ⟨Piece.legible_mark (by decide), Piece.legible_name h.1.1.1.1, Piece.legible_newline,
      statics_allLegible statics h.1.1.1.2 h.1.2 x.1.2,
      routines_allLegible methods h.1.1.2 h.2 x.2, Piece.legible_mark (by decide),
      allLegible_nil⟩
  | .attempt _ body rescue, h, x => by
    simp only [Stmt.all, Bool.and_eq_true] at h x
    simp only [Stmt.pieces, allLegible_append, allLegible_cons]
    exact ⟨Piece.legible_mark (by decide), Piece.legible_newline, body.allLegible h.1.2 x.1.2,
      Piece.legible_mark (by decide), Piece.legible_newline, rescue.allLegible h.2 x.2,
      Piece.legible_mark (by decide), allLegible_nil⟩
  | .load _ location nickname, h, x => by
    simp only [Stmt.all, Bool.and_eq_true] at h x
    rw [Stmt.pieces, allLegible_cons, allLegible_append]
    exact ⟨Piece.legible_mark (by decide), location.allLegible_enclosed h.2 x.2,
      alias_allLegible nickname⟩

theorem Block.allLegible : ∀ b : Block, b.all Expr.shaped Stmt.shaped = true →
    b.all Expr.exact (fun _ => true) = true → AllLegible b.pieces
  | .mk _ body, h, x => stmts_allLegible body h x

theorem stmts_allLegible : ∀ body : List Stmt, stmtsAll Expr.shaped Stmt.shaped body = true →
    stmtsAll Expr.exact (fun _ => true) body = true → AllLegible (stmtsPieces body)
  | [], _, _ => allLegible_nil
  | s :: rest, h, x => by
    simp only [stmtsAll, Bool.and_eq_true] at h x
    rw [stmtsPieces, allLegible_append, allLegible_cons]
    exact ⟨s.allLegible h.1 x.1, Piece.legible_newline, stmts_allLegible rest h.2 x.2⟩

theorem Branch.allLegible : ∀ b : Branch, b.all Expr.shaped Stmt.shaped = true →
    b.all Expr.exact (fun _ => true) = true → AllLegible b.pieces
  | .mk _ condition consequence alternative, h, x => by
    simp only [Branch.all, Bool.and_eq_true] at h x
    simp only [Branch.pieces, allLegible_append, allLegible_cons]
    exact ⟨Piece.legible_mark (by decide), condition.allLegible_enclosed h.1.1 x.1.1,
      Piece.legible_mark (by decide), Piece.legible_newline, consequence.allLegible h.1.2 x.1.2,
      alternative.allLegible h.2 x.2⟩

theorem Otherwise.allLegible : ∀ o : Otherwise, o.all Expr.shaped Stmt.shaped = true →
    o.all Expr.exact (fun _ => true) = true → AllLegible o.pieces
  | .absent, _, _ => allLegible_nil
  | .elseIf next, h, x => by
    rw [Otherwise.pieces, allLegible_cons]
    exact ⟨Piece.legible_mark (by decide), next.allLegible h x⟩
  | .elseBlock body, h, x => by
    rw [Otherwise.pieces, allLegible_cons, allLegible_cons]
    exact ⟨Piece.legible_mark (by decide), Piece.legible_newline, body.allLegible h x⟩

theorem Routine.allLegible : ∀ d : Routine, d.shaped = true →
    d.all Expr.shaped Stmt.shaped = true → d.all Expr.exact (fun _ => true) = true →
    AllLegible d.pieces
  | .mk _ name params body, shaped, h, x => by
    simp only [Routine.shaped, Routine.name, Routine.params, Bool.and_eq_true] at shaped
    simp only [Routine.pieces, allLegible_append, allLegible_cons]
    exact ⟨Piece.legible_mark (by decide), Piece.legible_name shaped.1,
      allLegible_inParens (params_allLegible params shaped.2), Piece.legible_newline,
      body.allLegible h x, Piece.legible_mark (by decide), allLegible_nil⟩

theorem routines_allLegible : ∀ ds : List Routine, ds.all Routine.shaped = true →
    routinesAll Expr.shaped Stmt.shaped ds = true →
    routinesAll Expr.exact (fun _ => true) ds = true → AllLegible (routinesPieces ds)
  | [], _, _, _ => allLegible_nil
  | d :: rest, shaped, h, x => by
    simp only [routinesAll, List.all_cons, Bool.and_eq_true] at shaped h x
    rw [routinesPieces, allLegible_append, allLegible_cons]
    exact ⟨d.allLegible shaped.1 h.1 x.1, Piece.legible_newline,
      routines_allLegible rest shaped.2 h.2 x.2⟩

end

end Pseudocode
