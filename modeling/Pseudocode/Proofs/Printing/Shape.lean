import Pseudocode.Proofs.Printing.Piece
import Pseudocode.Grammar.Program
/-
# `Proofs.Printing.Shape` — what a parser returns has the grammar's shape

`Yields p P`: if the parser `p` succeeds on tokens whose names are names and whose
integers are digits, it returns something with the property `P` and leaves such
tokens.  Nothing is said about when it succeeds; the rules follow the operations
that the grammar is written in, and each production has one lemma.  `YieldsAt k p P` says the same
of the cursors whose next token is of kind `k`: a static field of a class, and
the steps after an expression, are read only where their first token is known.
-/
namespace Pseudocode

namespace Grammar

/-- The text of a name is a name, and that of an integer is made of digits. -/
def Token.Named (t : Token) : Prop :=
  (t.kind = .identifier → isName t.lexeme = true) ∧
    (t.kind = .int → t.lexeme.toList.all Scan.isDigit = true)

/-- The texts of the tokens are such as their kinds say. -/
def Named (tokens : List Token) : Prop := ∀ t ∈ tokens, Token.Named t

/-- The next token. -/
def Cursor.head (c : Cursor) (env : Token) : Token := c.rest.head?.getD env

/-- At a token of kind `k`, the parser returns only what has `P`. -/
def YieldsAt {α : Type} (k : Kind) (p : Parser α) (P : α → Prop) : Prop :=
  ∀ (env : Token) (c : Cursor) (a : α) (c' : Cursor), env.kind = .eof → Named c.rest →
    (c.head env).kind = k → (p.run env).run c = .ok (a, c') → P a ∧ Named c'.rest

/-- The parser returns only what has `P`. -/
def Yields {α : Type} (p : Parser α) (P : α → Prop) : Prop := ∀ k, YieldsAt k p P

variable {α β : Type} {k : Kind} {P : α → Prop} {Q : β → Prop}

/-! ## Sequences and choices -/

theorem Yields.pure {a : α} (h : P a) : Yields (pure a) P := by
  intro k env c a' c' _ named _ run
  cases run
  exact ⟨h, named⟩

/-- A parser that succeeds only as two parts in a row. -/
theorem run_bind {p : Parser α} {f : α → Parser β} {env : Token} {c c' : Cursor} {b : β}
    (run : ((p >>= f).run env).run c = .ok (b, c')) :
    ∃ a c₁, (p.run env).run c = .ok (a, c₁) ∧ ((f a).run env).run c₁ = .ok (b, c') := by
  have step : ((p >>= f).run env).run c =
      (p.run env).run c >>= fun r => ((f r.1).run env).run r.2 := rfl
  rw [step] at run
  match found : (p.run env).run c with
  | .error e =>
    rw [found] at run
    cases run
  | .ok (a, c₁) =>
    rw [found] at run
    exact ⟨a, c₁, rfl, run⟩

theorem YieldsAt.bind {p : Parser α} {f : α → Parser β} (hp : YieldsAt k p P)
    (hf : ∀ a, P a → Yields (f a) Q) : YieldsAt k (p >>= f) Q := by
  intro env c b c' last named here run
  obtain ⟨a, c₁, first, second⟩ := run_bind run
  obtain ⟨ha, named₁⟩ := hp env c a c₁ last named here first
  exact hf a ha _ env c₁ b c' last named₁ rfl second

theorem Yields.bind {p : Parser α} {f : α → Parser β} (hp : Yields p P)
    (hf : ∀ a, P a → Yields (f a) Q) : Yields (p >>= f) Q :=
  fun k => (hp k).bind hf

theorem Yields.mono {p : Parser α} {R : α → Prop} (hp : Yields p P) (h : ∀ a, P a → R a) :
    Yields p R := by
  intro k env c a c' last named here run
  obtain ⟨ha, named'⟩ := hp k env c a c' last named here run
  exact ⟨h a ha, named'⟩

theorem Yields.of_error {p : Parser α} (h : ∀ env c, ∃ e, (p.run env).run c = .error e) :
    Yields p P := by
  intro k env c a c' _ _ _ run
  obtain ⟨e, failed⟩ := h env c
  rw [failed] at run
  cases run

theorem yields_exhausted : Yields (exhausted : Parser α) P :=
  .of_error fun _ _ => ⟨_, rfl⟩

theorem yields_refuse {t : Token} {complaint : Complaint} :
    Yields (refuse t complaint : Parser α) P :=
  .of_error fun _ _ => ⟨_, rfl⟩

theorem Yields.discarded {p : Parser α} (hp : Yields p P) :
    Yields (discard p) fun _ => True := by
  intro k env c _ c' last named here run
  have step : ((discard p).run env).run c = (fun r => ((), r.2)) <$> (p.run env).run c := rfl
  rw [step] at run
  match found : (p.run env).run c with
  | .error e =>
    rw [found] at run
    cases run
  | .ok (a, c₁) =>
    rw [found] at run
    cases run
    exact ⟨trivial, (hp k env c a c₁ last named here found).2⟩

theorem Yields.discard {p : Parser α} {f : Unit → Parser β} (hp : Yields p P)
    (hf : Yields (f ()) Q) : Yields (discard p >>= f) Q :=
  hp.discarded.bind fun _ _ => hf

theorem Yields.ite {b : Bool} {p p' : Parser α} (hp : b = true → Yields p P)
    (hp' : b = false → Yields p' P) : Yields (if b = true then p else p') P := by
  cases b with
  | true => exact hp rfl
  | false => exact hp' rfl

/-- A check that stops the parser if it is not passed. -/
theorem Yields.unless {b : Bool} {p : Parser α} {f : α → Parser β} {p' : Parser β}
    (stops : Yields p fun _ => False) (hp' : b = true → Yields p' Q) :
    Yields (if (!b) = true then p >>= f else p') Q := by
  cases b with
  | true => exact hp' rfl
  | false => exact stops.bind fun _ absent => absent.elim

/-! ## Tokens -/

theorem named_head {env : Token} {c : Cursor} (last : env.kind = .eof) (named : Named c.rest) :
    Token.Named (c.head env) := by
  obtain ⟨taken, rest⟩ := c
  cases rest with
  | nil =>
    have eof : (Cursor.head ⟨taken, []⟩ env).kind = .eof := last
    refine ⟨fun h => ?_, fun h => ?_⟩ <;>
      · rw [eof] at h
        cases h
  | cons t rest => exact named t List.mem_cons_self

theorem run_peek (env : Token) (c : Cursor) : (peek.run env).run c = .ok (c.head env, c) := by
  obtain ⟨_, rest⟩ := c
  cases rest <;> rfl

/-- What is known of the next token is known at the place where it is seen. -/
theorem YieldsAt.peek {f : Token → Parser β} (hf : ∀ t, t.kind = k → YieldsAt k (f t) Q) :
    YieldsAt k (peek >>= f) Q := by
  intro env c b c' last named here run
  obtain ⟨t, c₁, first, second⟩ := run_bind run
  rw [run_peek] at first
  cases first
  exact hf _ here env c b c' last named here second

theorem YieldsAt.peekKind {f : Kind → Parser β} (hf : YieldsAt k (f k) Q) :
    YieldsAt k (peekKind >>= f) Q := by
  intro env c b c' last named here run
  obtain ⟨k', c₁, first, second⟩ := run_bind run
  obtain ⟨t, c₂, seen, rest⟩ := run_bind first
  rw [run_peek] at seen
  cases seen
  cases rest
  rw [here] at second
  exact hf env c b c' last named here second

theorem Yields.peekKind {f : Kind → Parser β} (hf : ∀ k, YieldsAt k (f k) Q) :
    Yields (peekKind >>= f) Q := fun k => .peekKind (hf k)

theorem yields_peek : Yields peek Token.Named := by
  intro k env c t c' last named _ run
  rw [run_peek] at run
  cases run
  exact ⟨named_head last named, named⟩

theorem yields_peekKind : Yields peekKind fun _ => True :=
  yields_peek.bind fun _ _ => .pure trivial

theorem yields_next {k : Kind} : Yields (next k) fun _ => True :=
  yields_peekKind.bind fun _ _ => .pure trivial

theorem yields_nextIn {ks : List Kind} : Yields (nextIn ks) fun _ => True :=
  yields_peekKind.bind fun _ _ => .pure trivial

theorem Yields.next {p p' : Parser β} (hp : Yields p Q) (hp' : Yields p' Q) :
    Yields (next k >>= fun b => if b = true then p else p') Q :=
  yields_next.bind fun _ _ => .ite (fun _ => hp) (fun _ => hp')

theorem Yields.nextIn {ks : List Kind} {p p' : Parser β} (hp : Yields p Q) (hp' : Yields p' Q) :
    Yields (nextIn ks >>= fun b => if b = true then p else p') Q :=
  yields_nextIn.bind fun _ _ => .ite (fun _ => hp) (fun _ => hp')

theorem yields_unexpected {e : Expectation} : Yields (unexpected e : Parser α) P :=
  yields_peek.bind fun _ _ => yields_refuse

theorem run_advance {env t : Token} {c c' : Cursor}
    (run : (advance.run env).run c = .ok (t, c')) : t = c.head env ∧ c'.rest = c.rest.tail := by
  obtain ⟨_, rest⟩ := c
  cases rest with
  | nil =>
    cases run
    exact ⟨rfl, rfl⟩
  | cons t rest =>
    cases run
    exact ⟨rfl, rfl⟩

theorem yieldsAt_advance : YieldsAt k advance fun t => t.kind = k ∧ Token.Named t := by
  intro env c t c' last named here run
  obtain ⟨rfl, rest⟩ := run_advance run
  refine ⟨⟨here, named_head last named⟩, ?_⟩
  rw [rest]
  intro u mem
  exact named u (List.mem_of_mem_tail mem)

theorem yields_advance : Yields advance fun _ => True := by
  intro k env c t c' last named here run
  exact ⟨trivial, (yieldsAt_advance env c t c' last named here run).2⟩

/-- The token that is taken has the kind asked for. -/
theorem yields_expect : Yields (expect k) fun t => t.kind = k ∧ Token.Named t := by
  intro k' env c t c' last named here run
  obtain ⟨b, c₁, asked, rest⟩ := run_bind run
  obtain ⟨k₁, c₂, seen, same⟩ := run_bind asked
  obtain ⟨t₁, c₃, seen, same₁⟩ := run_bind seen
  rw [run_peek] at seen
  cases seen
  cases same₁
  cases same
  split at rest
  · next own => exact yieldsAt_advance env c t c' last named (beq_iff_eq.mp own) rest
  · exact yields_unexpected (P := fun t => t.kind = k ∧ Token.Named t) k' env c t c' last named
      here rest

/-- A name that is taken is a name. -/
theorem yields_name : Yields (expect .identifier) fun t => isName t.lexeme = true :=
  yields_expect.mono fun _ h => h.2.1 h.1

theorem yields_expectEnd : Yields (expectEnd k) fun _ => True :=
  .nextIn (.discarded yields_advance) yields_unexpected

theorem yields_skipNewlines : Yields skipNewlines fun _ => True := by
  intro k env c _ c' _ named _ run
  cases run
  exact ⟨trivial, fun t mem => named t ((List.dropWhile_sublist _).mem mem)⟩

theorem yields_spanFrom {p : Position} : Yields (spanFrom p) fun _ => True := by
  rintro k env ⟨last, rest⟩ s c' _ named _ run
  cases last with
  | some t =>
    cases run
    exact ⟨trivial, named⟩
  | none =>
    cases rest with
    | nil =>
      cases run
      exact ⟨trivial, named⟩
    | cons t rest =>
      cases run
      exact ⟨trivial, named⟩

theorem yields_peekSecondKind : Yields peekSecondKind fun _ => True := by
  rintro k env ⟨last, rest⟩ s c' _ named _ run
  match rest with
  | [] | [_] | _ :: _ :: _ =>
    cases run
    exact ⟨trivial, named⟩

theorem yields_skipType : Yields skipAnnotation fun _ => True := by
  refine yields_next.bind fun b _ => yields_peekSecondKind.bind fun k' _ => ?_
  refine .ite (fun _ => ?_) (fun _ => .pure trivial)
  exact .discard yields_advance (.discarded yields_advance)

theorem Yields.get {f : Cursor → Parser β} (hf : ∀ c : Cursor, Named c.rest → Yields (f c) Q) :
    Yields (get >>= f) Q := by
  have here : Yields (MonadState.get : Parser Cursor) fun c => Named c.rest := by
    intro k env c _ c' _ named _ run
    cases run
    exact ⟨named, named⟩
  exact here.bind hf

theorem Yields.set {f : PUnit → Parser β} {c : Cursor} (named : Named c.rest)
    (hf : Yields (f ⟨⟩) Q) : Yields (set c >>= f) Q := by
  have back : Yields (MonadStateOf.set c : Parser PUnit) fun _ => True := by
    intro k env c₁ _ c' _ _ _ run
    cases run
    exact ⟨trivial, named⟩
  exact back.bind fun _ _ => hf

/-! Operations whose result tells nothing. -/

theorem Yields.advance {f : Token → Parser β} (hf : ∀ t, Yields (f t) Q) :
    Yields (advance >>= f) Q := yields_advance.bind fun t _ => hf t

theorem Yields.skipNewlines {f : Unit → Parser β} (hf : Yields (f ()) Q) :
    Yields (skipNewlines >>= f) Q := yields_skipNewlines.bind fun _ _ => hf

theorem Yields.skipType {f : Unit → Parser β} (hf : Yields (f ()) Q) :
    Yields (Bind.bind skipAnnotation f) Q := yields_skipType.bind fun _ _ => hf

theorem Yields.spanFrom {f : Span → Parser β} {p : Position} (hf : ∀ s, Yields (f s) Q) :
    Yields (spanFrom p >>= f) Q := yields_spanFrom.bind fun s _ => hf s

/-! ## Expressions -/

/-- The rules return only what has the grammar's shape. -/
structure Rules.Shaped (r : Rules) : Prop where
  expr : ∀ least, Yields (r.expr least) fun e => e.all Expr.shaped = true
  block : ∀ closers, Yields (r.block closers) fun b => b.all Expr.shaped Stmt.shaped = true

/-- Steps of the grammar, with all their keys. -/
def ShapedChain (steps : List Index) : Prop :=
  steps.all Index.shaped = true ∧ chainAll Expr.shaped steps = true

theorem shapedChain_append {steps more : List Index} (h : ShapedChain steps)
    (h' : ShapedChain more) : ShapedChain (steps ++ more) := by
  refine ⟨by rw [List.all_append, h.1, h'.1]; rfl, ?_⟩
  have keys : chainAll Expr.shaped steps = true := h.2
  clear h
  induction steps with
  | nil => exact h'.2
  | cons i steps ih =>
    cases i with
    | subscript s key =>
      simp only [List.cons_append, chainAll, Bool.and_eq_true] at keys ⊢
      exact ⟨keys.1, ih keys.2⟩
    | property s name => exact ih keys

variable {r : Rules} {n : Nat}

/-- Steps are found wherever a dot or a bracket stands. -/
theorem yieldsAt_chain (h : r.Shaped) (n : Nat) (k : Kind) :
    YieldsAt k (chain r n) fun steps =>
      ShapedChain steps ∧ (k = .dot ∨ k = .leftBracket → steps ≠ []) := by
  induction n generalizing k with
  | zero => exact yields_exhausted k
  | succ n ih =>
    refine .peek fun t kind => ?_
    have more : Yields (chain r n) ShapedChain := by
      intro k env c steps c' last named here run
      obtain ⟨shaped, named'⟩ := ih k env c steps c' last named here run
      exact ⟨shaped.1, named'⟩
    split
    · refine Yields.discard yields_advance (yields_name.bind fun name isName => ?_) k
      refine .spanFrom fun s => more.bind fun steps shaped => .pure ?_
      refine ⟨⟨?_, shaped.2⟩, fun _ => List.cons_ne_nil _ _⟩
      rw [List.all_cons, shaped.1, Index.shaped, isName]
      rfl
    · refine Yields.discard yields_advance (.skipNewlines ?_) k
      refine (h.expr 0).bind fun key shapedKey => .skipNewlines (.discard yields_expect ?_)
      refine .spanFrom fun s => more.bind fun steps shaped => .pure ?_
      refine ⟨⟨shaped.1, ?_⟩, fun _ => List.cons_ne_nil _ _⟩
      rw [chainAll, shapedKey, shaped.2]
      rfl
    · next dot bracket =>
      refine Yields.pure ⟨⟨rfl, rfl⟩, ?_⟩ k
      rintro (same | same)
      · exact absurd (kind.trans same) dot
      · exact absurd (kind.trans same) bracket

theorem yields_chain (h : r.Shaped) : Yields (chain r n) ShapedChain := by
  intro k env c steps c' last named here run
  obtain ⟨shaped, named'⟩ := yieldsAt_chain h n k env c steps c' last named here run
  exact ⟨shaped.1, named'⟩

theorem yields_target (h : r.Shaped) :
    Yields (target r n) fun t => isName t.name = true ∧ ShapedChain t.chain := by
  refine yields_name.bind fun name isName => (yields_chain h).bind fun steps shaped => ?_
  exact .spanFrom fun s => .pure ⟨isName, shaped⟩

theorem exprsAll_cons {p : Expr → Bool} {e : Expr} {es : List Expr} (h : e.all p = true)
    (h' : exprsAll p es = true) : exprsAll p (e :: es) = true := by
  rw [exprsAll, h, h']
  rfl

theorem yields_exprList (h : r.Shaped) (closer : Kind) (n : Nat) :
    Yields (exprList r closer n) fun es => exprsAll Expr.shaped es = true := by
  induction n with
  | zero => exact yields_exhausted
  | succ n ih =>
    refine .next (.pure rfl) ((h.expr 0).bind fun e shaped => .skipNewlines (.next ?_ ?_))
    · refine .discard yields_advance (.skipNewlines (ih.bind fun es rest => .pure ?_))
      exact exprsAll_cons shaped rest
    · exact .pure (exprsAll_cons shaped rfl)

theorem yields_bracketed (h : r.Shaped) (closer : Kind) :
    Yields (bracketed r n closer) fun es => exprsAll Expr.shaped es = true := by
  refine .skipNewlines ((yields_exprList h closer n).bind fun es shaped => ?_)
  exact .discard yields_expect (.pure shaped)

theorem yields_entries (h : r.Shaped) (n : Nat) :
    Yields (entries r n) fun es => entriesAll Expr.shaped es = true := by
  induction n with
  | zero => exact yields_exhausted
  | succ n ih =>
    refine .next (.pure rfl) ((h.expr 0).bind fun key shapedKey => .skipNewlines ?_)
    refine .discard yields_expect (.skipNewlines ((h.expr 0).bind fun value shapedValue => ?_))
    refine .skipNewlines (.next ?_ ?_)
    · refine .discard yields_advance (.skipNewlines (ih.bind fun es rest => .pure ?_))
      rw [entriesAll, shapedKey, shapedValue, rest]
      rfl
    · refine .pure ?_
      rw [entriesAll, shapedKey, shapedValue]
      rfl

theorem yields_moreArguments (h : r.Shaped) (n : Nat) :
    Yields (moreArguments r n) fun es => exprsAll Expr.shaped es = true := by
  induction n with
  | zero => exact yields_exhausted
  | succ n ih =>
    refine .next (.discard yields_advance ?_) (.pure rfl)
    exact (h.expr 0).bind fun e shaped => ih.bind fun es rest => .pure (exprsAll_cons shaped rest)

theorem yields_magic (h : r.Shaped) (word : Magic) :
    Yields (magic r n word) fun e => e.all Expr.shaped = true := by
  have arguments : Yields (arguments r n) fun es => exprsAll Expr.shaped es = true := by
    refine yields_peekKind.bind fun k _ => .ite (fun _ => .pure rfl) fun _ => ?_
    refine (h.expr 0).bind fun e shaped => (yields_moreArguments h n).bind fun es rest => ?_
    exact .pure (exprsAll_cons shaped rest)
  refine .advance fun t => arguments.bind fun es shaped => .spanFrom fun s => .pure ?_
  rw [Expr.all, shaped]
  rfl

theorem yields_unary (h : r.Shaped) (op : UnaryOp) :
    Yields (unary r op) fun e => e.all Expr.shaped = true := by
  refine .advance fun t => (h.expr unaryPower).bind fun e shaped => .spanFrom fun s => .pure ?_
  rw [Expr.all, shaped]
  rfl

theorem intLiteral?_range {lexeme : String} {value : Int}
    (digits : lexeme.toList.all Scan.isDigit = true) (h : intLiteral? lexeme = some value) :
    0 ≤ value ∧ value ≤ maxInt := by
  rw [intLiteral?_digits digits] at h
  split at h
  · cases h
  · obtain ⟨found, range⟩ := Option.filter_eq_some_iff.mp h
    cases found
    have high : (Real.digitsValue 10 lexeme.toList : Int) ≤ Value.maxInt := by
      simpa [Value.inRange] using (Bool.and_eq_true_iff.mp range).2
    exact ⟨Int.natCast_nonneg _, high⟩

theorem yields_operand (h : r.Shaped) :
    Yields (operand r n) fun e => e.all Expr.shaped = true := by
  refine yields_peek.bind fun t named => ?_
  split
  case h_1 kind =>
    refine .discard yields_advance ?_
    split
    · next value range =>
      refine .pure ?_
      have := intLiteral?_range (named.2 kind) range
      simp [Expr.all, Expr.shaped, this]
    · exact yields_refuse
  case h_2 =>
    refine .discard yields_advance ?_
    split
    · exact .pure rfl
    · exact yields_refuse
  case h_3 | h_4 | h_5 => exact .discard yields_advance (.pure rfl)
  case h_6 =>
    refine (yields_target h).bind fun v shaped => .pure ?_
    rw [Expr.all, Expr.shaped, shaped.1, shaped.2.1, shaped.2.2]
    rfl
  case h_7 =>
    refine .discard yields_advance (.skipNewlines ((h.expr 0).bind fun e shaped => ?_))
    exact .skipNewlines (.discard yields_expect (.pure shaped))
  case h_8 | h_9 | h_10 => exact yields_unary h _
  case h_11 =>
    refine .discard yields_advance ((yields_bracketed h _).bind fun es shaped => ?_)
    refine .spanFrom fun s => .pure ?_
    rw [Expr.all, shaped]
    rfl
  case h_12 =>
    refine .discard yields_advance (.skipNewlines ((yields_entries h n).bind fun es shaped => ?_))
    refine .discard yields_expect (.spanFrom fun s => .pure ?_)
    rw [Expr.all, shaped]
    rfl
  case h_13 | h_14 | h_15 | h_16 | h_17 => exact yields_magic h _
  case h_18 => exact yields_unexpected

/-- Steps after steps join one chain, so no indexed expression is indexed. -/
theorem yields_indexed {left : Expr} {steps : List Index} (h : left.all Expr.shaped = true)
    (shaped : ShapedChain steps) (some : steps ≠ []) :
    Yields (indexed left steps) fun e => e.all Expr.shaped = true := by
  have fresh : ∀ s, left.isItem = false → (Expr.item s left steps).all Expr.shaped = true := by
    intro s other
    have nonempty : steps.isEmpty = false := by simpa using some
    rw [Expr.all, Expr.shaped, other, nonempty, shaped.1, shaped.2, h]
    rfl
  cases left with
  | item s base chain =>
    refine .spanFrom fun s' => .pure ?_
    simp only [Expr.all, Expr.shaped, Bool.and_eq_true, Bool.not_eq_true'] at h
    obtain ⟨⟨⟨⟨other, -⟩, kinds⟩, inside⟩, keys⟩ := h
    obtain ⟨kinds', keys'⟩ := shapedChain_append ⟨kinds, keys⟩ shaped
    have nonempty : (chain ++ steps).isEmpty = false := by simp [some]
    rw [Expr.all, Expr.shaped, other, nonempty, kinds', keys', inside]
    rfl
  | _ => exact .spanFrom fun s => .pure (fresh _ rfl)

theorem yields_extension (h : r.Shaped) {left : Expr} (shaped : left.all Expr.shaped = true) :
    Yields (extension r n left) fun e => e.all Expr.shaped = true := by
  have steps : ∀ k, (k = .dot ∨ k = .leftBracket) →
      YieldsAt k (chain r n >>= indexed left) fun e => e.all Expr.shaped = true := by
    intro k known
    refine (yieldsAt_chain h n k).bind fun steps found => ?_
    exact yields_indexed shaped found.1 (found.2 known)
  refine .peekKind fun k => ?_
  split
  · refine Yields.discard yields_advance ((yields_bracketed h _).bind fun es args => ?_) _
    refine .spanFrom fun s => .pure ?_
    rw [Expr.all, shaped, args]
    rfl
  · exact steps _ (.inr rfl)
  · exact steps _ (.inl rfl)
  · split
    · refine Yields.discard yields_advance (.skipNewlines ?_) _
      refine (h.expr _).bind fun right shapedRight => .spanFrom fun s => .pure ?_
      rw [Expr.all, shaped, shapedRight]
      rfl
    · exact Yields.pure (P := fun e : Expr => e.all Expr.shaped = true) shaped k

theorem yields_extend (h : r.Shaped) (least n : Nat) {left : Expr}
    (shaped : left.all Expr.shaped = true) :
    Yields (extend r least n left) fun e => e.all Expr.shaped = true := by
  induction n generalizing left with
  | zero => exact yields_exhausted
  | succ n ih =>
    refine yields_peekKind.bind fun k _ => ?_
    split
    · exact .pure shaped
    · exact (yields_extension h shaped).bind fun e extended => ih extended

theorem yields_expr (h : r.Shaped) (least : Nat) :
    Yields (expr r n least) fun e => e.all Expr.shaped = true :=
  (yields_operand h).bind fun _ shaped => yields_extend h least n shaped

/-! ## Statements -/

theorem yields_assigned (h : r.Shaped) :
    Yields (assigned r) fun e => e.all Expr.shaped = true :=
  .discard yields_advance (.skipNewlines (h.expr 0))

/-- The statement has the grammar's shape, with all its parts. -/
def ShapedStmt (s : Stmt) : Prop := s.all Expr.shaped Stmt.shaped = true

def ShapedBlock (b : Block) : Prop := b.all Expr.shaped Stmt.shaped = true

def ShapedRoutine (d : Routine) : Prop :=
  d.shaped = true ∧ d.all Expr.shaped Stmt.shaped = true

theorem yields_constant (h : r.Shaped) : Yields (constant r n) ShapedStmt := by
  refine .advance fun word => (yields_target h).bind fun left target => .skipType ?_
  refine yields_next.bind fun b _ => .unless yields_unexpected fun _ => ?_
  refine (yields_assigned h).bind fun value shaped => .unless yields_refuse fun empty => ?_
  refine .spanFrom fun s => .pure ?_
  simp [ShapedStmt, Stmt.all, Stmt.shaped, Assignment.shaped, Assignment.all, target.1,
    target.2.1, target.2.2, empty, shaped]

theorem yields_named (h : r.Shaped) : Yields (named r n) ShapedStmt := by
  have assigns : ∀ left : Target, isName left.name = true → ShapedChain left.chain →
      Yields (assigned r >>= fun value => spanFrom left.span.start >>= fun s =>
        pure (Stmt.assign ⟨s, left, value, false⟩)) ShapedStmt := by
    intro left name chain
    refine (yields_assigned h).bind fun value shaped => .spanFrom fun s => .pure ?_
    simp [ShapedStmt, Stmt.all, Stmt.shaped, Assignment.shaped, Assignment.all, name, chain.1,
      chain.2, shaped]
  have whole : Yields (r.expr 0 >>= fun e => pure (Stmt.expr e)) ShapedStmt :=
    (h.expr 0).bind fun e shaped => .pure (by simp [ShapedStmt, Stmt.all, Stmt.shaped, shaped])
  refine .get fun here back => (yields_target h).bind fun left target => .skipType (.next ?_ ?_)
  · exact assigns left target.1 target.2
  · exact .set back whole

/-! Choices and loops. -/

def ShapedBranch (b : Branch) : Prop := b.all Expr.shaped Stmt.shaped = true

theorem yields_branch (h : r.Shaped) (n : Nat) : Yields (branch r n) ShapedBranch := by
  induction n with
  | zero => exact yields_exhausted
  | succ n ih =>
    refine .advance fun word => (h.expr 0).bind fun condition shaped => .skipNewlines ?_
    refine .discard yields_expect ((h.block _).bind fun consequence inside => .next ?_ ?_)
    · refine .discard yields_advance (.next ?_ ?_)
      · refine ih.bind fun more other => .spanFrom fun s => .pure ?_
        simp only [ShapedBranch, Branch.all, Otherwise.all] at other ⊢
        rw [shaped, inside, other]
        rfl
      · refine (h.block _).bind fun body other => .spanFrom fun s => .pure ?_
        rw [ShapedBranch, Branch.all, Otherwise.all, shaped, inside, other]
        rfl
    · refine .spanFrom fun s => .pure ?_
      rw [ShapedBranch, Branch.all, Otherwise.all, shaped, inside]
      rfl

theorem yields_choice (h : r.Shaped) : Yields (choice r n) ShapedStmt := by
  refine (yields_branch h n).bind fun b shaped => yields_expectEnd.bind fun _ _ => ?_
  obtain ⟨s, condition, consequence, alternative⟩ := b
  have closing : Yields (closed (.mk s condition consequence alternative)) ShapedBranch :=
    .spanFrom fun s => .pure shaped
  refine closing.bind fun b' shaped' => .pure ?_
  simp only [ShapedBranch] at shaped'
  rw [ShapedStmt, Stmt.all, shaped']
  rfl

theorem yields_whileLoop (h : r.Shaped) : Yields (whileLoop r) ShapedStmt := by
  refine .advance fun word => (h.expr 0).bind fun condition shaped => ?_
  refine (h.block _).bind fun body inside => yields_expectEnd.bind fun _ _ => ?_
  refine .spanFrom fun s => .pure ?_
  rw [ShapedStmt, Stmt.all, shaped, inside]
  rfl

theorem yields_repeatLoop (h : r.Shaped) : Yields (repeatLoop r) ShapedStmt := by
  refine .advance fun word => (h.block _).bind fun body inside => .discard yields_expect ?_
  refine (h.expr 0).bind fun condition shaped => .spanFrom fun s => .pure ?_
  rw [ShapedStmt, Stmt.all, shaped, inside]
  rfl

theorem yields_forBody (h : r.Shaped) : Yields (forBody r) ShapedBlock :=
  (h.block _).bind fun _ inside => yields_expectEnd.bind fun _ _ => .pure inside

theorem yields_forLoop (h : r.Shaped) : Yields (forLoop r) ShapedStmt := by
  have body := yields_forBody h
  refine .advance fun word => yields_name.bind fun name isName => ?_
  refine yields_peekKind.bind fun k _ => ?_
  split
  · refine .discard yields_advance ((h.expr 0).bind fun first low => .discard yields_expect ?_)
    refine (h.expr 0).bind fun last high => .next ?_ ?_
    · refine .discard yields_advance ((h.expr 0).bind fun step by_ => ?_)
      refine Yields.bind (P := fun o => o = some step) (.pure rfl) ?_
      rintro _ rfl
      refine body.bind fun b inside => .spanFrom fun s => .pure ?_
      rw [ShapedStmt, Stmt.all, Stmt.shaped, isName, low, high, Option.all_some, by_, inside]
      rfl
    · refine Yields.bind (P := fun o => o = none) (.pure rfl) ?_
      rintro _ rfl
      refine body.bind fun b inside => .spanFrom fun s => .pure ?_
      rw [ShapedStmt, Stmt.all, Stmt.shaped, isName, low, high, inside]
      rfl
  · refine .discard yields_advance ((h.expr 0).bind fun iterable shaped => ?_)
    refine body.bind fun b inside => .spanFrom fun s => .pure ?_
    rw [ShapedStmt, Stmt.all, Stmt.shaped, isName, shaped, inside]
    rfl
  · exact yields_unexpected

/-! Definitions. -/

theorem yields_fields (n : Nat) : Yields (fields n) fun names => names.all isName = true := by
  induction n with
  | zero => exact yields_exhausted
  | succ n ih =>
    have rest : ∀ name : String, isName name = true →
        Yields (skipNewlines >>= fun _ => fields n >>= fun names => pure (name :: names))
          fun names => names.all isName = true := by
      intro name known
      refine .skipNewlines (ih.bind fun names all => .pure ?_)
      rw [List.all_cons, known, all]
      rfl
    refine .nextIn (.pure rfl) (yields_name.bind fun field known => .skipType (.next ?_ ?_))
    · exact yields_advance.discarded.bind fun _ _ => rest _ known
    · exact yields_nextIn.bind fun b _ => .unless yields_unexpected fun _ => rest _ known

theorem yields_record : Yields (record n) ShapedStmt := by
  refine .advance fun word => yields_name.bind fun name known => .skipNewlines ?_
  refine (yields_fields n).bind fun names all => yields_expectEnd.bind fun _ _ => ?_
  refine .spanFrom fun s => .pure ?_
  rw [ShapedStmt, Stmt.all, Stmt.shaped, known, all]
  rfl

theorem yields_attempt (h : r.Shaped) : Yields (attempt r) ShapedStmt := by
  refine .advance fun word => (h.block _).bind fun body inside => .discard yields_expect ?_
  refine (h.block _).bind fun rescue after => yields_expectEnd.bind fun _ _ => ?_
  refine .spanFrom fun s => .pure ?_
  rw [ShapedStmt, Stmt.all, inside, after]
  rfl

theorem yields_params (n : Nat) :
    Yields (params n) fun ps => ps.all (fun p => isName p.name) = true := by
  induction n with
  | zero => exact yields_exhausted
  | succ n ih =>
    refine .next (.pure rfl) (yields_name.bind fun name known => .skipType (.skipNewlines ?_))
    refine .next (.discard yields_advance (.skipNewlines (ih.bind fun ps all => .pure ?_))) ?_
    · rw [List.all_cons, known, all]
      rfl
    · exact .pure (by rw [List.all_cons, known]; rfl)

theorem yields_routine (h : r.Shaped) : Yields (routine r n) ShapedRoutine := by
  have parameters : Yields (paramList n) fun ps => ps.all (fun p => isName p.name) = true := by
    refine .discard yields_expect (.skipNewlines ((yields_params n).bind fun ps all => ?_))
    exact .discard yields_expect (.pure all)
  refine .advance fun word => yields_name.bind fun name known => ?_
  refine parameters.bind fun ps all => (h.block _).bind fun body inside => ?_
  refine yields_expectEnd.bind fun _ _ => .spanFrom fun s => .pure ⟨?_, inside⟩
  rw [Routine.shaped, Routine.name, Routine.params, known, all]
  rfl

/-- A static field is a plain name with a value. -/
def ShapedMember : Assignment ⊕ Routine → Prop
  | .inl a => a.isStatic = true ∧ a.all Expr.shaped = true
  | .inr d => ShapedRoutine d

theorem yieldsAt_static (h : r.Shaped) : YieldsAt .identifier (static r) fun a =>
    a.isStatic = true ∧ a.all Expr.shaped = true := by
  refine yieldsAt_advance.bind fun t known => .skipType (.discard yields_expect ?_)
  refine (h.expr 0).bind fun value shaped => .spanFrom fun s => .pure ⟨?_, ?_⟩
  · rw [Assignment.isStatic, known.2.1 known.1]
    rfl
  · rw [Assignment.all, chainAll, shaped]
    rfl

theorem yields_member (h : r.Shaped) : Yields (member r n) ShapedMember := by
  refine .peekKind fun k => ?_
  split
  · exact (yields_routine h _).bind fun d shaped => .pure (P := ShapedMember) shaped
  · exact (yieldsAt_static h).bind fun a shaped => .pure (P := ShapedMember) shaped
  · exact yields_unexpected _

theorem yields_members (h : r.Shaped) (n : Nat) :
    Yields (members r n) fun ms => ∀ m ∈ ms, ShapedMember m := by
  induction n with
  | zero => exact yields_exhausted
  | succ n ih =>
    refine .skipNewlines (.nextIn (.pure (by simp)) ((yields_member h).bind fun m shaped => ?_))
    refine yields_nextIn.bind fun b _ => .unless yields_unexpected fun _ => ?_
    exact ih.bind fun ms all => .pure (List.forall_mem_cons.mpr ⟨shaped, all⟩)

theorem routinesAll_of_forall {ds : List Routine} (h : ∀ d ∈ ds, ShapedRoutine d) :
    routinesAll Expr.shaped Stmt.shaped ds = true := by
  induction ds with
  | nil => rfl
  | cons d ds ih =>
    obtain ⟨first, rest⟩ := List.forall_mem_cons.mp h
    rw [routinesAll, first.2, ih rest]
    rfl

theorem yields_classDef (h : r.Shaped) : Yields (classDef r n) ShapedStmt := by
  refine .advance fun word => yields_name.bind fun name known => ?_
  refine (yields_members h n).bind fun ms all => yields_expectEnd.bind fun _ _ => ?_
  refine .spanFrom fun s => .pure ?_
  have fields : ∀ a ∈ ms.filterMap Sum.getLeft?,
      a.isStatic = true ∧ a.all Expr.shaped = true := by
    intro a mem
    obtain ⟨m, listed, left⟩ := List.mem_filterMap.mp mem
    obtain rfl := Sum.getLeft?_eq_some_iff.mp left
    exact all _ listed
  have methods : ∀ d ∈ ms.filterMap Sum.getRight?, ShapedRoutine d := by
    intro d mem
    obtain ⟨m, listed, right⟩ := List.mem_filterMap.mp mem
    obtain rfl := Sum.getRight?_eq_some_iff.mp right
    exact all _ listed
  have statics := List.all_eq_true.mpr fun a mem => (fields a mem).1
  have values := List.all_eq_true.mpr fun a mem => (fields a mem).2
  have titles := List.all_eq_true.mpr fun d mem => (methods d mem).1
  rw [ShapedStmt, Stmt.all, Stmt.shaped, known, statics, titles, values,
    routinesAll_of_forall methods]
  rfl

theorem yields_load (h : r.Shaped) : Yields (load r) ShapedStmt := by
  refine .advance fun word => (h.expr 0).bind fun location shaped => ?_
  have known : ∀ s nickname, ShapedStmt (.load s location nickname) := by
    intro s nickname
    rw [ShapedStmt, Stmt.all, shaped]
    rfl
  refine .next (.discard yields_advance (.nextIn ?_ yields_unexpected)) ?_
  · exact .advance fun nickname => .spanFrom fun s => .pure (known s _)
  · exact .spanFrom fun s => .pure (known s _)

/-! ## Blocks and programs -/

theorem yields_statement (h : r.Shaped) : Yields (statement r n) ShapedStmt := by
  refine yields_peekKind.bind fun k _ => ?_
  split
  · exact yields_constant h
  · exact yields_named h
  · exact yields_choice h
  · exact yields_whileLoop h
  · exact yields_repeatLoop h
  · exact yields_forLoop h
  · exact yields_record
  · exact yields_attempt h
  · refine (yields_routine h).bind fun d shaped => .pure ?_
    rw [ShapedStmt, Stmt.all, Stmt.shaped, shaped.1, shaped.2]
    rfl
  · exact yields_classDef h
  · exact yields_load h
  · refine (h.expr 0).bind fun e shaped => .pure ?_
    rw [ShapedStmt, Stmt.all, shaped]
    rfl

theorem yields_atStop {closers : List Kind} : Yields (atStop closers) fun _ => True := by
  refine .next (.pure trivial) ?_
  unfold atBlockEnd
  split
  · exact .pure trivial
  · exact yields_nextIn

theorem yields_statements (h : r.Shaped) (closers : List Kind) (n : Nat) :
    Yields (statements r closers n) fun body => stmtsAll Expr.shaped Stmt.shaped body = true := by
  induction n with
  | zero => exact yields_exhausted
  | succ n ih =>
    refine .skipNewlines (yields_atStop.bind fun b _ => .ite (fun _ => .pure rfl) fun _ => ?_)
    refine (yields_statement h).bind fun s shaped => .next ?_ ?_
    · refine ih.bind fun body all => .pure ?_
      rw [stmtsAll, all, shaped]
      rfl
    · refine yields_atStop.bind fun b _ => .ite (fun _ => .pure ?_) fun _ => yields_unexpected
      rw [stmtsAll, shaped]
      rfl

theorem yields_block (h : r.Shaped) (closers : List Kind) :
    Yields (block r n closers) ShapedBlock := by
  refine yields_peek.bind fun t _ => (yields_statements h closers n).bind fun body all => ?_
  exact .spanFrom fun s => .pure all

theorem shaped_rules (n : Nat) : (rules n).Shaped := by
  induction n with
  | zero => exact ⟨fun _ => yields_exhausted, fun _ => yields_exhausted⟩
  | succ n ih => exact ⟨fun least => yields_expr ih least, fun closers => yields_block ih closers⟩

theorem grammatical_of_program {tokens : List Token} {b : Block} (named : Named tokens)
    (h : program tokens = .ok b) : b.Grammatical := by
  have whole : Yields (wholeProgram (depthBound tokens)) ShapedBlock := by
    refine ((shaped_rules _).block []).bind fun b shaped => .next (.pure shaped) ?_
    exact yields_unexpected
  have last : (endOf tokens).kind = .eof := by
    unfold endOf
    split <;> rfl
  unfold program at h
  split at h
  · next body c run =>
    cases h
    exact (whole _ _ _ _ _ last named rfl run).1
  · cases h
  · cases h

end Grammar

/-- What is read from a source text has the grammar's shape. -/
theorem grammatical_of_parse {source file : String} {b : Block}
    (h : parse source file = .ok b) : b.Grammatical := by
  unfold parse at h
  dsimp only at h
  split at h
  · cases h
  · unfold parseTokens at h
    split at h
    · next body read =>
      cases h
      refine Grammar.grammatical_of_program ?_ read
      intro t mem
      exact ⟨isName_of_mem_scanFrom mem, isDigit_of_mem_scanFrom mem⟩
    · cases h

end Pseudocode
