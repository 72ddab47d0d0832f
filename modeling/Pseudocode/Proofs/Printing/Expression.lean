import Pseudocode.Proofs.Printing.Print
import Pseudocode.Proofs.Printing.Reading
/-
# `Proofs.Printing.Expression` — expressions are read back

An expression is read in two ways: as a part of something else, where it may
stand in parentheses and what follows must bind less tightly than asked for
(`ReadsPart`), and on its own up to the end of the line or a parenthesis
(`ReadsWhole`).  Every production of the grammar has a lemma that reads its own
pieces, given that its parts are read; `readable` then goes over the constructors
and checks that a depth of nesting that exceeds the number of pieces suffices.
-/
namespace Pseudocode

/-! ## How expressions begin -/

/-- What an expression begins with that is part of something else. -/
def opens (k : Kind) : Bool :=
  [.identifier, .int, .real, .string, .boolean, .none, .leftParen, .leftBracket,
    .leftBrace].contains k

theorem Expr.enclosed_eq_cons (e : Expr) :
    ∃ q qs, e.enclosed = q :: qs ∧ opens q.kind = true := by
  cases e <;> exact ⟨_, _, rfl, rfl⟩

/-- What an expression begins with. -/
def starts (k : Kind) : Bool := opens k || [Kind.add, .sub, .not].contains k || k.isMagic

theorem Expr.pieces_eq_cons (e : Expr) : ∃ q qs, e.pieces = q :: qs ∧ starts q.kind = true := by
  cases e with
  | call _ callee _ | binary _ _ callee _ =>
    obtain ⟨q, qs, first, opening⟩ := callee.enclosed_eq_cons
    rw [Expr.pieces, Expr.enclose_pieces, first, List.cons_append]
    exact ⟨q, _, rfl, by simp [starts, opening]⟩
  | unary _ op operand => exact ⟨.unary op, _, rfl, by cases op <;> rfl⟩
  | magic _ word args => exact ⟨.mark word.kind, _, rfl, by cases word <;> rfl⟩
  | _ => exact ⟨_, _, rfl, rfl⟩

namespace Grammar

variable {r : Rules} {n : Nat} {q : Piece} {qs : List Piece}

/-- The parser reads the expression as a part of something else, wherever what
follows binds less tightly than asked for. -/
def Rules.ReadsPart (r : Rules) (e : Expr) : Prop :=
  ∀ least q qs, least ≤ unaryPower → leftPower q.kind ≤ least →
    Reads (r.expr least) (e.enclosed ++ q :: qs) (q :: qs) fun e' => e'.spanless = e.spanless

/-- The parser reads the expression on its own, up to the end of the line or a
closing parenthesis. -/
def Rules.ReadsWhole (r : Rules) (e : Expr) : Prop :=
  ∀ q qs, q.kind = .newline ∨ q.kind = .rightParen →
    Reads (r.expr 0) (e.pieces ++ q :: qs) (q :: qs) fun e' => e'.spanless = e.spanless

/-- The expression is read as an operand, wherever no index step follows. -/
def ReadsOperand (r : Rules) (n : Nat) (e : Expr) : Prop :=
  ∀ q qs, q.kind ≠ .dot → q.kind ≠ .leftBracket →
    Reads (operand r n) (e.enclosed ++ q :: qs) (q :: qs) fun e' => e'.spanless = e.spanless

/-- No line break stands before an expression. -/
theorem noBreak_part (e : Expr) : NoBreak (e.enclosed ++ qs) := by
  obtain ⟨q, ps, first, opening⟩ := e.enclosed_eq_cons
  rw [first]
  refine noBreak_cons ?_
  intro line
  rw [line] at opening
  cases opening

theorem noBreak_whole (e : Expr) : NoBreak (e.pieces ++ qs) := by
  obtain ⟨q, ps, first, start⟩ := e.pieces_eq_cons
  rw [first]
  refine noBreak_cons ?_
  intro line
  rw [line] at start
  cases start

/-- The pieces are read as the expression, wherever nothing that binds follows. -/
structure Rules.ReadsAs (r : Rules) (ps : List Piece) (e : Expr) : Prop where
  begins : ∃ q qs, ps = q :: qs ∧ starts q.kind = true
  reads : ∀ q qs, leftPower q.kind = 0 →
    Reads (r.expr 0) (ps ++ q :: qs) (q :: qs) fun e' => e'.spanless = e.spanless

theorem Rules.ReadsPart.readsAs {e : Expr} (h : r.ReadsPart e) : r.ReadsAs e.enclosed e where
  begins := by
    obtain ⟨q, qs, first, opening⟩ := e.enclosed_eq_cons
    exact ⟨q, qs, first, by simp [starts, opening]⟩
  reads q qs power := h 0 q qs (Nat.zero_le _) (Nat.le_of_eq power)

theorem Rules.ReadsAs.noBreak {ps : List Piece} {e : Expr} (h : r.ReadsAs ps e) :
    NoBreak (ps ++ qs) := by
  obtain ⟨q, rest, first, start⟩ := h.begins
  rw [first]
  refine noBreak_cons ?_
  intro line
  rw [line] at start
  cases start

/-- An expression does not begin with what closes a list. -/
theorem Rules.ReadsAs.notCloser {β : Type} {k : Kind} {p p' : Parser β} {Q : β → Prop}
    {ps rs : List Piece} {e : Expr} (h : r.ReadsAs ps e) (closer : starts k = false)
    (hp : Reads p' (ps ++ qs) rs Q) :
    Reads (next k >>= fun b => if b = true then p else p') (ps ++ qs) rs Q := by
  obtain ⟨q, rest, first, start⟩ := h.begins
  rw [first] at hp ⊢
  refine Reads.next_else ?_ hp
  rintro rfl
  rw [start] at closer
  cases closer

/-! ## Lists -/

theorem reads_chain (steps : List Index)
    (keys : ∀ s key, .subscript s key ∈ steps → r.ReadsPart key) (dot : q.kind ≠ .dot)
    (bracket : q.kind ≠ .leftBracket) (fuel : steps.length < n) :
    Reads (chain r n) (chainPieces steps ++ q :: qs) (q :: qs)
      fun steps' => chainSpanless steps' = chainSpanless steps := by
  induction steps generalizing n with
  | nil =>
    obtain ⟨n, rfl⟩ := Nat.exists_eq_add_one_of_ne_zero (Nat.ne_zero_of_lt fuel)
    refine reads_peek.bind ?_
    intro t ht
    have kind : t.kind = q.kind := congrArg Piece.kind ht
    split
    · next h => exact absurd (kind.symm.trans h) dot
    · next h => exact absurd (kind.symm.trans h) bracket
    · exact .pure rfl
  | cons i steps ih =>
    obtain ⟨n, rfl⟩ := Nat.exists_eq_add_one_of_ne_zero (Nat.ne_zero_of_lt fuel)
    have rest := ih (fun s key h => keys s key (List.mem_cons_of_mem i h))
      (Nat.lt_of_succ_lt_succ fuel)
    cases i with
    | property s name =>
      refine reads_peek.bind ?_
      intro t ht
      have kind : t.kind = .dot := congrArg Piece.kind ht
      rw [kind]
      refine .discard reads_advance ((reads_expect (k := .identifier) rfl).bind ?_)
      intro u hu
      refine .spanFrom fun s' => rest.bind ?_
      intro steps' same
      refine .pure ?_
      have word : u.lexeme = name := congrArg Piece.lexeme hu
      rw [chainSpanless, chainSpanless, same, word]
    | subscript s key =>
      rw [chainPieces, List.cons_append, List.append_assoc, List.cons_append, Expr.enclose_pieces]
      have part : r.ReadsPart key := keys s key List.mem_cons_self
      refine reads_peek.bind ?_
      intro t ht
      have kind : t.kind = .leftBracket := congrArg Piece.kind ht
      rw [kind]
      refine .discard reads_advance (.skip (noBreak_part key) ?_)
      refine (part 0 _ _ (by decide) (by decide)).bind ?_
      intro key' sameKey
      refine .skip (noBreak_cons (by decide)) (.discard (reads_expect rfl) (.spanFrom fun s' => rest.bind ?_))
      intro steps' same
      refine .pure ?_
      rw [chainSpanless, chainSpanless, same, sameKey]

theorem separated_cons_cons (ps ps' : List Piece) (pss : List (List Piece)) :
    separated (ps :: ps' :: pss) = ps ++ .mark .comma :: separated (ps' :: pss) := by
  simp [separated]

/-- Expressions between commas, each with the pieces it is written with. -/
theorem reads_exprList (qs : List Piece) (items : List (List Piece × Expr))
    (parts : ∀ i ∈ items, r.ReadsAs i.1 i.2) (closer : starts q.kind = false)
    (power : leftPower q.kind = 0) (line : q.kind ≠ .newline) (comma : q.kind ≠ .comma)
    (fuel : items.length < n) :
    Reads (exprList r q.kind n) (separated (items.map Prod.fst) ++ q :: qs) (q :: qs)
      fun es => exprsSpanless es = exprsSpanless (items.map Prod.snd) := by
  induction items generalizing n with
  | nil =>
    obtain ⟨n, rfl⟩ := Nat.exists_eq_add_one_of_ne_zero (Nat.ne_zero_of_lt fuel)
    exact .next_then rfl (.pure rfl)
  | cons i items ih =>
    obtain ⟨n, rfl⟩ := Nat.exists_eq_add_one_of_ne_zero (Nat.ne_zero_of_lt fuel)
    obtain ⟨part, others⟩ := List.forall_mem_cons.mp parts
    have rest := ih others (Nat.lt_of_succ_lt_succ fuel)
    -- The comma decides whether the list goes on, so the tail is split here.
    cases items with
    | nil =>
      rw [List.map_cons, List.map_nil, separated, List.flatMap_nil, List.append_nil]
      refine part.notCloser closer ((part.reads q qs power).bind ?_)
      intro e same
      refine .skip (noBreak_cons line) (.next_else comma (.pure ?_))
      simp only [exprsSpanless, List.map_cons, List.map_nil, same]
    | cons i₂ items =>
      obtain ⟨second, -⟩ := List.forall_mem_cons.mp others
      have follow : NoBreak (separated ((i₂ :: items).map Prod.fst) ++ q :: qs) := by
        rw [List.map_cons, separated, List.append_assoc]
        exact second.noBreak
      rw [List.map_cons, List.map_cons, separated_cons_cons, ← List.map_cons, List.append_assoc,
        List.cons_append]
      refine part.notCloser closer ((part.reads _ _ (by decide)).bind ?_)
      intro e same
      refine .skip (noBreak_cons (by decide)) (.next_then rfl (.discard reads_advance ?_))
      refine .skip follow (rest.bind ?_)
      intro es sameRest
      refine .pure ?_
      rw [exprsSpanless, List.map_cons, exprsSpanless, same, sameRest]

theorem reads_bracketed (items : List (List Piece × Expr))
    (parts : ∀ i ∈ items, r.ReadsAs i.1 i.2) (closer : starts q.kind = false)
    (power : leftPower q.kind = 0) (line : q.kind ≠ .newline) (comma : q.kind ≠ .comma)
    (fuel : items.length < n) :
    Reads (bracketed r n q.kind) (separated (items.map Prod.fst) ++ q :: qs) qs
      fun es => exprsSpanless es = exprsSpanless (items.map Prod.snd) := by
  have first : NoBreak (separated (items.map Prod.fst) ++ q :: qs) := by
    cases items with
    | nil => exact noBreak_cons line
    | cons i items =>
      rw [List.map_cons, separated, List.append_assoc]
      exact (parts i List.mem_cons_self).noBreak
  refine .skip first ((reads_exprList qs items parts closer power line comma fuel).bind ?_)
  intro es same
  exact .discard (reads_expect rfl) (.pure same)

/-- Parts of something else, with the pieces of parts. -/
def asParts (es : List Expr) : List (List Piece × Expr) := es.map fun e => (e.enclosed, e)

theorem map_fst_asParts (es : List Expr) : (asParts es).map Prod.fst = exprsPieces es := by
  rw [exprsPieces_eq_map, asParts, List.map_map]
  rfl

theorem map_snd_asParts (es : List Expr) : (asParts es).map Prod.snd = es := by
  rw [asParts, List.map_map]
  exact List.map_id es

theorem readsAs_asParts {es : List Expr} (parts : ∀ e ∈ es, r.ReadsPart e) :
    ∀ i ∈ asParts es, r.ReadsAs i.1 i.2 := by
  intro i mem
  obtain ⟨e, listed, rfl⟩ := List.mem_map.mp mem
  exact (parts e listed).readsAs

/-- The pieces of an expression behind a comma. -/
def commaPieces (e : Expr) : List Piece := .mark .comma :: e.enclosed

theorem separated_cons (e : Expr) (es : List Expr) :
    separated (exprsPieces (e :: es)) = e.enclosed ++ es.flatMap commaPieces := by
  rw [exprsPieces_eq_map, List.map_cons, separated, List.flatMap_map]
  rfl

/-- Behind an argument stands a comma or what follows them all. -/
theorem arguments_eq_cons (es : List Expr) (q : Piece) (qs : List Piece) :
    ∃ p ps, es.flatMap commaPieces ++ q :: qs = p :: ps ∧ (p.kind = .comma ∨ p.kind = q.kind) := by
  cases es with
  | nil => exact ⟨q, qs, rfl, .inr rfl⟩
  | cons e es => exact ⟨.mark .comma, _, rfl, .inl rfl⟩

theorem leftPower_eq_zero {k k' : Kind} (h : k = .comma ∨ k = k') (power : leftPower k' = 0) :
    leftPower k ≤ 0 := by
  rcases h with rfl | rfl
  · decide
  · exact Nat.le_of_eq power

theorem reads_moreArguments (qs : List Piece) (es : List Expr) (parts : ∀ e ∈ es, r.ReadsPart e)
    (power : leftPower q.kind = 0) (comma : q.kind ≠ .comma) (fuel : es.length < n) :
    Reads (moreArguments r n) (es.flatMap commaPieces ++ q :: qs) (q :: qs)
      fun es' => exprsSpanless es' = exprsSpanless es := by
  induction es generalizing n with
  | nil =>
    obtain ⟨n, rfl⟩ := Nat.exists_eq_add_one_of_ne_zero (Nat.ne_zero_of_lt fuel)
    exact .next_else comma (.pure rfl)
  | cons e es ih =>
    obtain ⟨n, rfl⟩ := Nat.exists_eq_add_one_of_ne_zero (Nat.ne_zero_of_lt fuel)
    have part : r.ReadsPart e := parts e List.mem_cons_self
    have rest := ih (fun e' h => parts e' (List.mem_cons_of_mem e h)) (Nat.lt_of_succ_lt_succ fuel)
    obtain ⟨p, ps, tail, follow⟩ := arguments_eq_cons es q qs
    rw [List.flatMap_cons, commaPieces, List.append_assoc, List.cons_append, tail]
    rw [tail] at rest
    refine .next_then rfl (.discard reads_advance ?_)
    refine (part 0 _ _ (by decide) (leftPower_eq_zero follow power)).bind ?_
    intro e' same
    refine rest.bind ?_
    intro es' sameRest
    refine .pure ?_
    simp only [exprsSpanless, same, sameRest]

theorem reads_arguments (es : List Expr) (parts : ∀ e ∈ es, r.ReadsPart e)
    (power : leftPower q.kind = 0) (comma : q.kind ≠ .comma)
    (stop : endsArguments q.kind = true) (fuel : es.length ≤ n) :
    Reads (arguments r n) (separated (exprsPieces es) ++ q :: qs) (q :: qs)
      fun es' => exprsSpanless es' = exprsSpanless es := by
  cases es with
  | nil =>
    refine (reads_peekKind rfl).bind ?_
    rintro _ rfl
    rw [if_pos stop]
    exact .pure rfl
  | cons e es =>
    have part : r.ReadsPart e := parts e List.mem_cons_self
    have rest := reads_moreArguments qs es (fun e' h => parts e' (List.mem_cons_of_mem e h))
      power comma (Nat.lt_of_succ_le fuel)
    obtain ⟨p, ps, tail, follow⟩ := arguments_eq_cons es q qs
    rw [separated_cons, List.append_assoc, tail]
    rw [tail] at rest
    obtain ⟨p₁, ps₁, first, opening⟩ := e.enclosed_eq_cons
    have begins : endsArguments p₁.kind = false := by
      revert opening
      generalize p₁.kind = k
      cases k <;> decide
    have read := part 0 p ps (by decide) (leftPower_eq_zero follow power)
    rw [first] at read ⊢
    refine (reads_peekKind rfl).bind ?_
    rintro _ rfl
    rw [if_neg (by simp [begins])]
    refine read.bind ?_
    intro e' same
    refine rest.bind ?_
    intro es' sameRest
    refine .pure ?_
    simp only [exprsSpanless, same, sameRest]

/-- An entry of a dictionary, with the pieces of its key and of its value. -/
structure Item where
  key : List Piece × Expr
  value : List Piece × Expr

def Item.pieces (i : Item) : List Piece := i.key.1 ++ .mark .colon :: i.value.1

def Item.entry (i : Item) : Entry := .mk i.key.2 i.value.2

def Item.Reads (r : Rules) (i : Item) : Prop :=
  r.ReadsAs i.key.1 i.key.2 ∧ r.ReadsAs i.value.1 i.value.2

theorem reads_entries (qs : List Piece) (items : List Item) (parts : ∀ i ∈ items, i.Reads r)
    (closer : q.kind = .rightBrace) (fuel : items.length < n) :
    Reads (entries r n) (separated (items.map Item.pieces) ++ q :: qs) (q :: qs)
      fun es => entriesSpanless es = entriesSpanless (items.map Item.entry) := by
  induction items generalizing n with
  | nil =>
    obtain ⟨n, rfl⟩ := Nat.exists_eq_add_one_of_ne_zero (Nat.ne_zero_of_lt fuel)
    exact .next_then closer (.pure rfl)
  | cons i items ih =>
    obtain ⟨n, rfl⟩ := Nat.exists_eq_add_one_of_ne_zero (Nat.ne_zero_of_lt fuel)
    obtain ⟨⟨key, value⟩, others⟩ := List.forall_mem_cons.mp parts
    have rest := ih others (Nat.lt_of_succ_lt_succ fuel)
    cases items with
    | nil =>
      rw [List.map_cons, List.map_nil, separated, List.flatMap_nil, List.append_nil, Item.pieces,
        List.append_assoc, List.cons_append]
      refine key.notCloser (by decide) ((key.reads _ _ (by decide)).bind ?_)
      intro k sameKey
      refine .skip (noBreak_cons (by decide)) (.discard (reads_expect rfl) (.skip value.noBreak ?_))
      refine (value.reads q qs (by rw [closer]; decide)).bind ?_
      intro v sameValue
      refine .skip (noBreak_cons (by rw [closer]; decide)) (.next_else (by rw [closer]; decide) ?_)
      refine .pure ?_
      simp only [entriesSpanless, List.map_cons, List.map_nil, Item.entry, sameKey, sameValue]
    | cons i₂ items =>
      obtain ⟨second, -⟩ := List.forall_mem_cons.mp others
      have follow : NoBreak (separated ((i₂ :: items).map Item.pieces) ++ q :: qs) := by
        rw [List.map_cons, separated, List.append_assoc, Item.pieces, List.append_assoc]
        exact second.1.noBreak
      rw [List.map_cons, List.map_cons, separated_cons_cons, ← List.map_cons, List.append_assoc,
        List.cons_append, Item.pieces, List.append_assoc, List.cons_append]
      refine key.notCloser (by decide) ((key.reads _ _ (by decide)).bind ?_)
      intro k sameKey
      refine .skip (noBreak_cons (by decide)) (.discard (reads_expect rfl) (.skip value.noBreak ?_))
      refine (value.reads _ _ (by decide)).bind ?_
      intro v sameValue
      refine .skip (noBreak_cons (by decide)) (.next_then rfl (.discard reads_advance ?_))
      refine .skip follow (rest.bind ?_)
      intro es sameRest
      refine .pure ?_
      rw [entriesSpanless, List.map_cons, Item.entry, entriesSpanless, sameKey, sameValue, sameRest]

/-- The pieces of an entry. -/
def entryPieces : Entry → List Piece
  | .mk k v => k.enclosed ++ .mark .colon :: v.enclosed

theorem entriesPieces_eq_map (es : List Entry) : entriesPieces es = es.map entryPieces := by
  induction es with
  | nil => rfl
  | cons e es ih =>
    obtain ⟨k, v⟩ := e
    rw [entriesPieces, ih, List.map_cons]
    rfl

/-- An entry whose key and value are written as parts. -/
def asItem (e : Entry) : Item := ⟨(e.key.enclosed, e.key), (e.value.enclosed, e.value)⟩

theorem map_pieces_asItem (es : List Entry) :
    (es.map asItem).map Item.pieces = entriesPieces es := by
  rw [entriesPieces_eq_map, List.map_map]
  refine List.map_congr_left ?_
  rintro ⟨k, v⟩ _
  rfl

theorem map_entry_asItem (es : List Entry) : (es.map asItem).map Item.entry = es := by
  rw [List.map_map]
  refine (List.map_congr_left ?_).trans (List.map_id es)
  rintro ⟨k, v⟩ _
  rfl

/-! ## Operands -/

/-- Parentheses leave no trace. -/
theorem reads_inParens {e : Expr} (whole : r.ReadsWhole e) :
    Reads (operand r n) (inParens e.pieces ++ qs) qs fun e' => e'.spanless = e.spanless := by
  rw [inParens, List.cons_append, List.append_assoc, List.singleton_append]
  refine reads_peek.bind ?_
  intro t ht
  have kind : t.kind = .leftParen := congrArg Piece.kind ht
  rw [kind]
  refine .discard reads_advance (.skip (noBreak_whole e) ((whole _ _ (.inr rfl)).bind ?_))
  intro e' same
  exact .skip (noBreak_cons (by decide)) (.discard (reads_expect rfl) (.pure same))

theorem digitsValue_repr (n : Nat) : Real.digitsValue 10 n.repr.toList = n := by
  have digit : ∀ c ∈ Nat.toDigits 10 n, (Real.digitIn? 10 c).getD 0 = c.toNat - '0'.toNat := by
    intro c hc
    have range : '0' ≤ c ∧ c ≤ '9' := by
      simpa [Scan.isDigit] using Piece.isDigit_of_mem_toDigits hc
    have small : c.toNat - 48 < 10 := by
      have high : c.toNat ≤ 57 := range.2
      omega
    simp [Real.digitIn?, Real.digitValue?, range, Option.filter, small]
  rw [Nat.toList_repr, Real.digitsValue]
  calc (Nat.toDigits 10 n).foldl (fun m c => m * 10 + (Real.digitIn? 10 c).getD 0) 0
      = (Nat.toDigits 10 n).foldl (fun m c => 10 * m + (c.toNat - '0'.toNat)) 0 := by
        refine List.foldl_rel (r := Eq) rfl ?_
        rintro c hc m _ rfl
        rw [digit c hc, Nat.mul_comm]
    _ = n := Nat.ofDigitChars_ten_toDigits

theorem intLiteral?_repr {value : Int} (low : 0 ≤ value) (high : value ≤ maxInt) :
    intLiteral? value.toNat.repr = some value := by
  have digits : value.toNat.repr.toList.all Scan.isDigit = true := by
    rw [Nat.toList_repr]
    exact List.all_eq_true.mpr fun _ => Piece.isDigit_of_mem_toDigits
  have range : Value.inRange value = true := by
    have high : value ≤ Value.maxInt := high
    have least : Value.minInt ≤ 0 := by decide
    simp only [Value.inRange, Bool.and_eq_true, decide_eq_true_eq]
    omega
  rw [intLiteral?_digits digits, digitsValue_repr, Int.toNat_of_nonneg low]
  simp [range]

theorem reads_target (name : String) (steps : List Index)
    (keys : ∀ s key, .subscript s key ∈ steps → r.ReadsPart key) (dot : q.kind ≠ .dot)
    (bracket : q.kind ≠ .leftBracket) (fuel : steps.length < n) :
    Reads (target r n) (.name name :: (chainPieces steps ++ q :: qs)) (q :: qs)
      fun t => t.name = name ∧ chainSpanless t.chain = chainSpanless steps := by
  refine (reads_expect (k := .identifier) rfl).bind ?_
  intro t ht
  refine (reads_chain steps keys dot bracket fuel).bind ?_
  intro steps' same
  exact .spanFrom fun s => .pure ⟨congrArg Piece.lexeme ht, same⟩

theorem readsOperand_var {s : Span} {name : String} {steps : List Index}
    (keys : ∀ s key, .subscript s key ∈ steps → r.ReadsPart key) (fuel : steps.length < n) :
    ReadsOperand r n (.var s name steps) := by
  intro q qs dot bracket
  refine reads_peek.bind ?_
  intro t ht
  have kind : t.kind = .identifier := congrArg Piece.kind ht
  rw [kind]
  refine (reads_target name steps keys dot bracket fuel).bind ?_
  rintro v ⟨sameName, same⟩
  refine .pure ?_
  rw [Expr.spanless, Expr.spanless, sameName, same]

theorem readsOperand_int {s : Span} {value : Int} (low : 0 ≤ value) (high : value ≤ maxInt) :
    ReadsOperand r n (.int s value) := by
  intro q qs _ _
  refine reads_peek.bind ?_
  intro t ht
  have kind : t.kind = .int := congrArg Piece.kind ht
  have digits : t.lexeme = value.toNat.repr := congrArg Piece.lexeme ht
  rw [kind, digits, intLiteral?_repr low high]
  exact .discard reads_advance (.pure rfl)

theorem readsOperand_string {s : Span} {value : String} :
    ReadsOperand r n (.string s value) := by
  intro q qs _ _
  refine reads_peek.bind ?_
  intro t ht
  have kind : t.kind = .string := congrArg Piece.kind ht
  have text : t.lexeme = value := congrArg Piece.lexeme ht
  rw [kind, text]
  exact .discard reads_advance (.pure rfl)

theorem readsOperand_bool {s : Span} {value : Bool} : ReadsOperand r n (.bool s value) := by
  intro q qs _ _
  refine reads_peek.bind ?_
  intro t ht
  have kind : t.kind = .boolean := congrArg Piece.kind ht
  have word : t.lexeme = if value then "True" else "False" := congrArg Piece.lexeme ht
  have meant : (t.lexeme == "True") = value := by
    rw [word]
    cases value <;> rfl
  rw [kind, meant]
  exact .discard reads_advance (.pure rfl)

theorem readsOperand_none {s : Span} : ReadsOperand r n (.none s) := by
  intro q qs _ _
  refine reads_peek.bind ?_
  intro t ht
  have kind : t.kind = .none := congrArg Piece.kind ht
  rw [kind]
  exact .discard reads_advance (.pure rfl)

theorem reads_arrayOperand (items : List (List Piece × Expr))
    (parts : ∀ i ∈ items, r.ReadsAs i.1 i.2) (fuel : items.length < n) :
    Reads (operand r n)
      (.mark .leftBracket :: (separated (items.map Prod.fst) ++ .mark .rightBracket :: qs)) qs
      fun e => e.spanless = .array default (exprsSpanless (items.map Prod.snd)) := by
  refine reads_peek.bind ?_
  intro t ht
  have kind : t.kind = .leftBracket := congrArg Piece.kind ht
  rw [kind]
  refine .discard reads_advance ?_
  refine (reads_bracketed items parts (q := .mark .rightBracket) (by decide) (by decide)
    (by decide) (by decide) fuel).bind ?_
  intro es same
  refine .spanFrom fun s => .pure ?_
  rw [Expr.spanless, same]

theorem readsOperand_array {s : Span} {es : List Expr} (parts : ∀ e ∈ es, r.ReadsPart e)
    (fuel : es.length < n) : ReadsOperand r n (.array s es) := by
  intro q qs _ _
  have shape : (Expr.array s es).enclosed ++ q :: qs = .mark .leftBracket ::
      (separated ((asParts es).map Prod.fst) ++ .mark .rightBracket :: q :: qs) := by
    simp [Expr.enclosed, Expr.enclose, Expr.isAtom, Expr.pieces, map_fst_asParts]
  rw [shape]
  refine (reads_arrayOperand (asParts es) (readsAs_asParts parts) (by simpa [asParts])).mono ?_
  intro e same
  rw [same, map_snd_asParts, Expr.spanless]

theorem reads_dictOperand (items : List Item) (parts : ∀ i ∈ items, i.Reads r)
    (fuel : items.length < n) :
    Reads (operand r n)
      (.mark .leftBrace :: (separated (items.map Item.pieces) ++ .mark .rightBrace :: qs)) qs
      fun e => e.spanless = .dict default (entriesSpanless (items.map Item.entry)) := by
  have first : NoBreak (separated (items.map Item.pieces) ++ .mark .rightBrace :: qs) := by
    cases items with
    | nil => exact noBreak_cons (by decide)
    | cons i items =>
      rw [List.map_cons, separated, List.append_assoc, Item.pieces, List.append_assoc]
      exact (parts i List.mem_cons_self).1.noBreak
  refine reads_peek.bind ?_
  intro t ht
  have kind : t.kind = .leftBrace := congrArg Piece.kind ht
  rw [kind]
  refine .discard reads_advance (.skip first ((reads_entries qs items parts rfl fuel).bind ?_))
  intro es same
  refine .discard (reads_expect rfl) (.spanFrom fun s => .pure ?_)
  rw [Expr.spanless, same]

theorem readsOperand_dict {s : Span} {es : List Entry}
    (parts : ∀ k v, .mk k v ∈ es → r.ReadsPart k ∧ r.ReadsPart v) (fuel : es.length < n) :
    ReadsOperand r n (.dict s es) := by
  intro q qs _ _
  have shape : (Expr.dict s es).enclosed ++ q :: qs = .mark .leftBrace ::
      (separated ((es.map asItem).map Item.pieces) ++ .mark .rightBrace :: q :: qs) := by
    rw [map_pieces_asItem]
    simp [Expr.enclosed, Expr.enclose, Expr.isAtom, Expr.pieces]
  have items : ∀ i ∈ es.map asItem, i.Reads r := by
    intro i mem
    obtain ⟨⟨k, v⟩, listed, rfl⟩ := List.mem_map.mp mem
    exact ⟨(parts k v listed).1.readsAs, (parts k v listed).2.readsAs⟩
  rw [shape]
  refine (reads_dictOperand (es.map asItem) items (by simpa)).mono ?_
  intro e same
  rw [same, map_entry_asItem, Expr.spanless]

/-! ## Extending an operand -/

theorem reads_extend_stop {left : Expr} {least : Nat} {P : Expr → Prop}
    (power : leftPower q.kind ≤ least) (fuel : 0 < n) (h : P left) :
    Reads (extend r least n left) (q :: qs) (q :: qs) P := by
  obtain ⟨n, rfl⟩ := Nat.exists_eq_add_one_of_ne_zero (Nat.ne_of_gt fuel)
  refine (reads_peekKind rfl).bind ?_
  rintro _ rfl
  rw [if_pos power]
  exact .pure h

theorem reads_extend_step {left : Expr} {least : Nat} {ps rs : List Piece} {P Q : Expr → Prop}
    (power : least < leftPower q.kind) (step : Reads (extension r n left) (q :: qs) ps P)
    (more : ∀ e, P e → Reads (extend r least n e) ps rs Q) :
    Reads (extend r least (n + 1) left) (q :: qs) rs Q := by
  refine (reads_peekKind rfl).bind ?_
  rintro _ rfl
  rw [if_neg (Nat.not_le_of_gt power)]
  exact step.bind more

/-- The end of a line and a closing parenthesis extend nothing. -/
theorem leftPower_stop {k : Kind} (h : k = .newline ∨ k = .rightParen) : leftPower k = 0 := by
  rcases h with rfl | rfl <;> rfl

theorem reads_part {e : Expr} {least : Nat} (operand : ReadsOperand r n e)
    (low : least ≤ unaryPower) (power : leftPower q.kind ≤ least) (fuel : 0 < n) :
    Reads (expr r n least) (e.enclosed ++ q :: qs) (q :: qs)
      fun e' => e'.spanless = e.spanless := by
  have dot : q.kind ≠ .dot := by
    intro h
    rw [h] at power
    exact absurd (Nat.le_trans power low) (by decide)
  have bracket : q.kind ≠ .leftBracket := by
    intro h
    rw [h] at power
    exact absurd (Nat.le_trans power low) (by decide)
  refine (operand q qs dot bracket).bind ?_
  intro e' same
  exact reads_extend_stop power fuel same

theorem reads_binary {s : Span} {op : BinaryOp} {left right : Expr}
    (operand : ReadsOperand r n left) (part : r.ReadsPart right) (fuel : 1 < n)
    (stop : q.kind = .newline ∨ q.kind = .rightParen) :
    Reads (expr r n 0) ((Expr.binary s op left right).pieces ++ q :: qs) (q :: qs)
      fun e' => e'.spanless = (Expr.binary s op left right).spanless := by
  obtain ⟨n, rfl⟩ := Nat.exists_eq_add_one_of_ne_zero (Nat.ne_zero_of_lt fuel)
  have power : leftPower q.kind = 0 := leftPower_stop stop
  rw [Expr.pieces, Expr.enclose_pieces, Expr.enclose_pieces, List.append_assoc, List.cons_append]
  refine (operand _ _ (by cases op <;> decide) (by cases op <;> decide)).bind ?_
  intro left' sameLeft
  have step : Reads (extension r n left') (.binary op :: (right.enclosed ++ q :: qs)) (q :: qs)
      fun e' => e'.spanless = (Expr.binary s op left right).spanless := by
    refine (reads_peekKind (k := op.kind) rfl).bind ?_
    rintro _ rfl
    split
    · next h => cases op <;> cases h
    · next h => cases op <;> cases h
    · next h => cases op <;> cases h
    · rw [BinaryOp.ofKind?_kind]
      refine .discard reads_advance (.skip (noBreak_part right) ?_)
      refine (part _ _ _ (by cases op <;> decide) (by simp [power])).bind ?_
      intro right' sameRight
      refine .spanFrom fun s' => .pure ?_
      rw [Expr.spanless, Expr.spanless, sameLeft, sameRight]
  refine reads_extend_step (by cases op <;> decide) step ?_
  intro e' same
  exact reads_extend_stop (Nat.le_of_eq power) (Nat.lt_of_succ_lt_succ fuel) same

theorem reads_call {s : Span} {callee : Expr} {args : List Expr}
    (operand : ReadsOperand r n callee) (parts : ∀ e ∈ args, r.ReadsPart e)
    (fuel : args.length + 1 < n) (stop : q.kind = .newline ∨ q.kind = .rightParen) :
    Reads (expr r n 0) ((Expr.call s callee args).pieces ++ q :: qs) (q :: qs)
      fun e' => e'.spanless = (Expr.call s callee args).spanless := by
  obtain ⟨n, rfl⟩ := Nat.exists_eq_add_one_of_ne_zero (Nat.ne_zero_of_lt fuel)
  have inner : args.length < n := Nat.lt_of_succ_lt_succ fuel
  have shape : (Expr.call s callee args).pieces ++ q :: qs = callee.enclosed ++ .mark .leftParen ::
      (separated (exprsPieces args) ++ .mark .rightParen :: q :: qs) := by
    simp [Expr.pieces, inParens]
  rw [shape]
  refine (operand _ _ (by decide) (by decide)).bind ?_
  intro callee' sameCallee
  have step : Reads (extension r n callee') (.mark .leftParen ::
      (separated (exprsPieces args) ++ .mark .rightParen :: q :: qs)) (q :: qs)
      fun e' => e'.spanless = (Expr.call s callee args).spanless := by
    refine (reads_peekKind (k := .leftParen) rfl).bind ?_
    rintro _ rfl
    refine .discard reads_advance ?_
    rw [← map_fst_asParts]
    refine (reads_bracketed (asParts args) (readsAs_asParts parts) (q := .mark .rightParen)
      (by decide) (by decide) (by decide) (by decide) (by simpa [asParts])).bind ?_
    intro args' sameArgs
    refine .spanFrom fun s' => .pure ?_
    rw [Expr.spanless, Expr.spanless, sameCallee, sameArgs, map_snd_asParts]
  refine reads_extend_step (by decide) step ?_
  intro e' same
  exact reads_extend_stop (Nat.le_of_eq (leftPower_stop stop)) (Nat.zero_lt_of_lt inner) same

theorem reads_unary {s : Span} {op : UnaryOp} {e : Expr} (part : r.ReadsPart e) (fuel : 0 < n)
    (power : leftPower q.kind = 0) :
    Reads (expr r n 0) ((Expr.unary s op e).pieces ++ q :: qs) (q :: qs)
      fun e' => e'.spanless = (Expr.unary s op e).spanless := by
  rw [Expr.pieces, Expr.enclose_pieces, List.cons_append]
  have head : Reads (operand r n) (.unary op :: (e.enclosed ++ q :: qs)) (q :: qs)
      fun e' => e'.spanless = (Expr.unary s op e).spanless := by
    refine reads_peek.bind ?_
    intro t ht
    have kind : t.kind = op.kind := congrArg Piece.kind ht
    have body : Reads (unary r op) (.unary op :: (e.enclosed ++ q :: qs)) (q :: qs)
        fun e' => e'.spanless = (Expr.unary s op e).spanless := by
      refine reads_advance.bind fun u _ => ?_
      refine (part _ _ _ (Nat.le_refl _) (by simp [power])).bind ?_
      intro e' same
      refine .spanFrom fun s' => .pure ?_
      rw [Expr.spanless, Expr.spanless, same]
    rw [kind]
    cases op <;> exact body
  refine head.bind ?_
  intro e' same
  exact reads_extend_stop (Nat.le_of_eq power) fuel same

theorem reads_magic {s : Span} {word : Magic} {args : List Expr}
    (parts : ∀ e ∈ args, r.ReadsPart e) (fuel : args.length < n)
    (stop : q.kind = .newline ∨ q.kind = .rightParen) :
    Reads (expr r n 0) ((Expr.magic s word args).pieces ++ q :: qs) (q :: qs)
      fun e' => e'.spanless = (Expr.magic s word args).spanless := by
  have power : leftPower q.kind = 0 := leftPower_stop stop
  rw [Expr.pieces, List.cons_append]
  have head : Reads (operand r n) (.mark word.kind :: (separated (exprsPieces args) ++ q :: qs))
      (q :: qs) fun e' => e'.spanless = (Expr.magic s word args).spanless := by
    refine reads_peek.bind ?_
    intro t ht
    have kind : t.kind = word.kind := congrArg Piece.kind ht
    have body : Reads (magic r n word)
        (.mark word.kind :: (separated (exprsPieces args) ++ q :: qs)) (q :: qs)
        fun e' => e'.spanless = (Expr.magic s word args).spanless := by
      refine reads_advance.bind fun u _ => ?_
      refine (reads_arguments args parts power ?_ ?_ (Nat.le_of_lt fuel)).bind ?_
      · rcases stop with h | h <;> rw [h] <;> decide
      · rcases stop with h | h <;> rw [h] <;> decide
      · intro args' same
        refine .spanFrom fun s' => .pure ?_
        rw [Expr.spanless, Expr.spanless, same]
    rw [kind]
    cases word <;> exact body
  refine head.bind ?_
  intro e' same
  exact reads_extend_stop (Nat.le_of_eq power) (Nat.zero_lt_of_lt fuel) same

theorem isItem_spanless (e : Expr) : e.spanless.isItem = e.isItem := by
  cases e <;> rfl

theorem reads_indexed {left : Expr} {steps : List Index} {ps : List Piece}
    (plain : left.isItem = false) :
    Reads (indexed left steps) ps ps fun e => ∃ s, e = .item s left steps := by
  unfold indexed
  split
  · cases plain
  · exact .spanFrom fun s => .pure ⟨s, rfl⟩

theorem reads_item {s : Span} {base : Expr} {steps : List Index} (whole : r.ReadsWhole base)
    (plain : base.isItem = false) (some : steps ≠ [])
    (keys : ∀ s key, .subscript s key ∈ steps → r.ReadsPart key) (fuel : steps.length + 1 < n)
    (stop : q.kind = .newline ∨ q.kind = .rightParen) :
    Reads (expr r n 0) ((Expr.item s base steps).pieces ++ q :: qs) (q :: qs)
      fun e' => e'.spanless = (Expr.item s base steps).spanless := by
  obtain ⟨n, rfl⟩ := Nat.exists_eq_add_one_of_ne_zero (Nat.ne_zero_of_lt fuel)
  have inner : steps.length < n := Nat.lt_of_succ_lt_succ fuel
  have dot : q.kind ≠ .dot := by rcases stop with h | h <;> rw [h] <;> decide
  have bracket : q.kind ≠ .leftBracket := by rcases stop with h | h <;> rw [h] <;> decide
  rw [Expr.pieces, List.append_assoc]
  refine (reads_inParens whole).bind ?_
  intro base' sameBase
  have plain' : base'.isItem = false := by
    rw [← isItem_spanless, sameBase, isItem_spanless, plain]
  have joined : Reads (chain r n >>= indexed base') (chainPieces steps ++ q :: qs) (q :: qs)
      fun e' => e'.spanless = (Expr.item s base steps).spanless := by
    refine (reads_chain steps keys dot bracket inner).bind ?_
    intro steps' sameSteps
    refine (reads_indexed plain').mono ?_
    rintro _ ⟨s', rfl⟩
    rw [Expr.spanless, Expr.spanless, sameBase, sameSteps]
  have stops : ∀ e' : Expr, e'.spanless = (Expr.item s base steps).spanless →
      Reads (extend r 0 n e') (q :: qs) (q :: qs)
        fun e' => e'.spanless = (Expr.item s base steps).spanless :=
    fun e' same => reads_extend_stop (Nat.le_of_eq (leftPower_stop stop))
      (Nat.zero_lt_of_lt inner) same
  cases steps with
  | nil => exact absurd rfl some
  | cons i steps =>
    cases i with
    | property s' name =>
      refine reads_extend_step (q := .mark .dot) (by decide) ?_ stops
      refine (reads_peekKind (k := .dot) rfl).bind ?_
      rintro _ rfl
      exact joined
    | subscript s' key =>
      refine reads_extend_step (q := .mark .leftBracket) (by decide) ?_ stops
      refine (reads_peekKind (k := .leftBracket) rfl).bind ?_
      rintro _ rfl
      exact joined

/-! ## The rules -/

/-- The expression is read in both ways by rules that nest deep enough. -/
structure Readable (e : Expr) : Prop where
  operand : ∀ {n}, e.enclosed.length ≤ n → ReadsOperand (rules n) n e
  whole : ∀ {n}, e.pieces.length < n → (rules n).ReadsWhole e

theorem length_enclosed_pos (e : Expr) : 0 < e.enclosed.length := by
  obtain ⟨q, qs, first, -⟩ := e.enclosed_eq_cons
  simp [first]

/-! Every part of a list is shorter than the list, and so is the number of parts. -/

theorem length_le_separated {pss : List (List Piece)} {ps : List Piece} (h : ps ∈ pss) :
    ps.length ≤ (separated pss).length := by
  cases pss with
  | nil => cases h
  | cons first rest =>
    rw [separated, List.length_append]
    rcases List.mem_cons.mp h with rfl | later
    · omega
    · have : (Piece.mark .comma :: ps).length ≤ (rest.flatMap (.mark .comma :: ·)).length :=
        (List.sublist_flatten_of_mem (List.mem_map_of_mem later)).length_le
      rw [List.length_cons] at this
      omega

theorem length_separated {pss : List (List Piece)} (some : ∀ ps ∈ pss, 0 < ps.length) :
    pss.length ≤ (separated pss).length := by
  have tail : ∀ rest : List (List Piece),
      rest.length ≤ (rest.flatMap (Piece.mark .comma :: ·)).length := by
    intro rest
    induction rest with
    | nil => exact Nat.le_refl 0
    | cons ps rest ih =>
      rw [List.flatMap_cons, List.length_append, List.length_cons, List.length_cons]
      omega
  cases pss with
  | nil => exact Nat.zero_le _
  | cons first rest =>
    have := some first List.mem_cons_self
    have := tail rest
    rw [separated, List.length_append, List.length_cons]
    omega

theorem length_part_le {e : Expr} {es : List Expr} (h : e ∈ es) :
    e.enclosed.length ≤ (separated (exprsPieces es)).length := by
  rw [exprsPieces_eq_map]
  exact length_le_separated (List.mem_map_of_mem h)

theorem length_parts_le (es : List Expr) : es.length ≤ (separated (exprsPieces es)).length := by
  have some : ∀ ps ∈ es.map Expr.enclosed, 0 < ps.length := by
    intro ps hps
    obtain ⟨e, -, rfl⟩ := List.mem_map.mp hps
    exact length_enclosed_pos e
  rw [exprsPieces_eq_map]
  simpa using length_separated some

theorem length_entry_le {k v : Expr} {es : List Entry} (h : .mk k v ∈ es) :
    k.enclosed.length + v.enclosed.length < (separated (entriesPieces es)).length := by
  rw [entriesPieces_eq_map]
  have whole := length_le_separated (List.mem_map_of_mem (f := entryPieces) h)
  rw [entryPieces, List.length_append, List.length_cons] at whole
  omega

theorem length_entries_le (es : List Entry) :
    es.length ≤ (separated (entriesPieces es)).length := by
  have some : ∀ ps ∈ es.map entryPieces, 0 < ps.length := by
    intro ps hps
    obtain ⟨⟨k, v⟩, -, rfl⟩ := List.mem_map.mp hps
    rw [entryPieces, List.length_append, List.length_cons]
    omega
  rw [entriesPieces_eq_map]
  simpa using length_separated some

theorem length_key_lt {s : Span} {key : Expr} {steps : List Index} (h : .subscript s key ∈ steps) :
    key.enclosed.length < (chainPieces steps).length := by
  induction steps with
  | nil => cases h
  | cons i steps ih =>
    rcases List.mem_cons.mp h with rfl | later
    · simp only [chainPieces, Expr.enclose_pieces, List.length_cons, List.length_append]
      omega
    · have := ih later
      cases i <;> simp only [chainPieces, List.length_cons, List.length_append] <;> omega

theorem length_steps_le (steps : List Index) : steps.length ≤ (chainPieces steps).length := by
  induction steps with
  | nil => exact Nat.le_refl 0
  | cons i steps ih =>
    cases i <;> simp only [chainPieces, List.length_cons, List.length_append] <;> omega

theorem Readable.part {e : Expr} (h : Readable e) (fuel : e.enclosed.length < n) :
    (rules n).ReadsPart e := by
  obtain ⟨n, rfl⟩ := Nat.exists_eq_add_one_of_ne_zero (Nat.ne_zero_of_lt fuel)
  intro least q qs low power
  have bound : e.enclosed.length ≤ n := Nat.le_of_lt_succ fuel
  exact reads_part (h.operand bound) low power (Nat.lt_of_lt_of_le (length_enclosed_pos e) bound)

theorem readable_of_isAtom {e : Expr} (atom : e.isAtom = true)
    (h : ∀ {n}, e.pieces.length ≤ n → ReadsOperand (rules n) n e) : Readable e := by
  have same : e.enclosed = e.pieces := by simp [Expr.enclosed, Expr.enclose, atom]
  refine ⟨fun fuel => h (by rwa [← same]), ?_⟩
  intro n fuel q qs stop
  obtain ⟨n, rfl⟩ := Nat.exists_eq_add_one_of_ne_zero (Nat.ne_zero_of_lt fuel)
  have bound : e.pieces.length ≤ n := Nat.le_of_lt_succ fuel
  have positive : 0 < n := by
    have := length_enclosed_pos e
    rw [same] at this
    omega
  have read : Reads (expr (rules n) n 0) (e.enclosed ++ q :: qs) (q :: qs) _ :=
    reads_part (h bound) (Nat.zero_le _) (Nat.le_of_eq (leftPower_stop stop)) positive
  rwa [same] at read

theorem readable_of_compound {e : Expr} (compound : e.isAtom = false)
    (h : ∀ {n q qs}, e.pieces.length ≤ n → (q.kind = .newline ∨ q.kind = .rightParen) →
      Reads (expr (rules n) n 0) (e.pieces ++ q :: qs) (q :: qs)
        fun e' => e'.spanless = e.spanless) : Readable e := by
  have whole : ∀ {n}, e.pieces.length < n → (rules n).ReadsWhole e := by
    intro n fuel q qs stop
    obtain ⟨n, rfl⟩ := Nat.exists_eq_add_one_of_ne_zero (Nat.ne_zero_of_lt fuel)
    exact h (Nat.le_of_lt_succ fuel) stop
  have parens : e.enclosed = inParens e.pieces := by
    rw [Expr.enclosed, Expr.enclose, compound, if_neg Bool.false_ne_true]
  refine ⟨?_, whole⟩
  intro n fuel q qs _ _
  rw [parens] at fuel ⊢
  have inside : e.pieces.length < n := by
    rw [inParens, List.length_cons, List.length_append] at fuel
    omega
  exact reads_inParens (whole inside)

mutual

theorem readable : ∀ e : Expr, e.all Expr.shaped = true → e.all Expr.exact = true → Readable e
  | .var s name steps, h, x => by
    simp only [Expr.all, Bool.and_eq_true] at h x
    have keys := readable_keys steps h.2 x.2
    refine readable_of_isAtom rfl ?_
    intro n fuel
    rw [Expr.pieces, List.length_cons] at fuel
    refine readsOperand_var (fun s' key mem => (keys s' key mem).part ?_) ?_
    · have := length_key_lt mem
      omega
    · have := length_steps_le steps
      omega
  | .item s base steps, h, x => by
    simp only [Expr.all, Expr.shaped, Bool.and_eq_true, Bool.not_eq_true', List.isEmpty_eq_false_iff]
      at h x
    have inner := readable base h.1.2 x.1.2
    have keys := readable_keys steps h.2 x.2
    refine readable_of_compound rfl ?_
    intro n q qs fuel stop
    simp only [Expr.pieces, inParens, List.length_cons, List.length_append, List.length_nil] at fuel
    refine reads_item (inner.whole (by omega)) h.1.1.1.1 h.1.1.1.2
      (fun s' key mem => (keys s' key mem).part ?_) ?_ stop
    · have := length_key_lt mem
      omega
    · have := length_steps_le steps
      omega
  | .call s callee args, h, x => by
    simp only [Expr.all, Bool.and_eq_true] at h x
    have inner := readable callee h.1.2 x.1.2
    have parts := readable_parts args h.2 x.2
    refine readable_of_compound rfl ?_
    intro n q qs fuel stop
    simp only [Expr.pieces, Expr.enclose_pieces, inParens, List.length_cons, List.length_append,
      List.length_nil] at fuel
    refine reads_call (inner.operand (by omega)) (fun e mem => (parts e mem).part ?_) ?_ stop
    · have := length_part_le mem
      omega
    · have := length_parts_le args
      omega
  | .binary s op left right, h, x => by
    simp only [Expr.all, Bool.and_eq_true] at h x
    have first := readable left h.1.2 x.1.2
    have second := readable right h.2 x.2
    refine readable_of_compound rfl ?_
    intro n q qs fuel stop
    simp only [Expr.pieces, Expr.enclose_pieces, List.length_cons, List.length_append] at fuel
    have := length_enclosed_pos left
    exact reads_binary (first.operand (by omega)) (second.part (by omega)) (by omega) stop
  | .unary s op operand, h, x => by
    simp only [Expr.all, Bool.and_eq_true] at h x
    have inner := readable operand h.2 x.2
    refine readable_of_compound rfl ?_
    intro n q qs fuel stop
    simp only [Expr.pieces, Expr.enclose_pieces, List.length_cons] at fuel
    exact reads_unary (inner.part (by omega)) (by omega) (leftPower_stop stop)
  | .magic s word args, h, x => by
    simp only [Expr.all, Bool.and_eq_true] at h x
    have parts := readable_parts args h.2 x.2
    refine readable_of_compound rfl ?_
    intro n q qs fuel stop
    simp only [Expr.pieces, List.length_cons] at fuel
    refine reads_magic (fun e mem => (parts e mem).part ?_) ?_ stop
    · have := length_part_le mem
      omega
    · have := length_parts_le args
      omega
  | .int s value, h, _ => by
    simp only [Expr.all, Expr.shaped, Bool.and_eq_true, decide_eq_true_eq] at h
    exact readable_of_isAtom rfl fun _ => readsOperand_int h.1 h.2
  | .real _ _, _, x => absurd x Bool.false_ne_true
  | .string _ _, _, _ => readable_of_isAtom rfl fun _ => readsOperand_string
  | .bool _ _, _, _ => readable_of_isAtom rfl fun _ => readsOperand_bool
  | .none _, _, _ => readable_of_isAtom rfl fun _ => readsOperand_none
  | .array s es, h, x => by
    simp only [Expr.all, Bool.and_eq_true] at h x
    have parts := readable_parts es h.2 x.2
    refine readable_of_isAtom rfl ?_
    intro n fuel
    simp only [Expr.pieces, List.length_cons, List.length_append, List.length_nil] at fuel
    refine readsOperand_array (fun e mem => (parts e mem).part ?_) ?_
    · have := length_part_le mem
      omega
    · have := length_parts_le es
      omega
  | .dict s es, h, x => by
    simp only [Expr.all, Bool.and_eq_true] at h x
    have parts := readable_entries es h.2 x.2
    refine readable_of_isAtom rfl ?_
    intro n fuel
    simp only [Expr.pieces, List.length_cons, List.length_append, List.length_nil] at fuel
    refine readsOperand_dict (fun k v mem => ?_) ?_
    · have := length_entry_le mem
      exact ⟨(parts k v mem).1.part (by omega), (parts k v mem).2.part (by omega)⟩
    · have := length_entries_le es
      omega

theorem readable_parts : ∀ es : List Expr, exprsAll Expr.shaped es = true →
    exprsAll Expr.exact es = true → ∀ e ∈ es, Readable e
  | [], _, _, _, mem => absurd mem List.not_mem_nil
  | e :: es, h, x, e', mem => by
    simp only [exprsAll, Bool.and_eq_true] at h x
    rcases List.mem_cons.mp mem with same | later
    · rw [same]
      exact readable e h.1 x.1
    · exact readable_parts es h.2 x.2 e' later

theorem readable_keys : ∀ steps : List Index, chainAll Expr.shaped steps = true →
    chainAll Expr.exact steps = true → ∀ s key, .subscript s key ∈ steps → Readable key
  | [], _, _, _, _, mem => absurd mem List.not_mem_nil
  | .subscript _ key₁ :: steps, h, x, s, key, mem => by
    simp only [chainAll, Bool.and_eq_true] at h x
    rcases List.mem_cons.mp mem with same | later
    · cases same
      exact readable key₁ h.1 x.1
    · exact readable_keys steps h.2 x.2 s key later
  | .property _ _ :: steps, h, x, s, key, mem => by
    rcases List.mem_cons.mp mem with same | later
    · cases same
    · exact readable_keys steps h x s key later

theorem readable_entries : ∀ es : List Entry, entriesAll Expr.shaped es = true →
    entriesAll Expr.exact es = true → ∀ k v, .mk k v ∈ es → Readable k ∧ Readable v
  | [], _, _, _, _, mem => absurd mem List.not_mem_nil
  | .mk k₁ v₁ :: es, h, x, k, v, mem => by
    simp only [entriesAll, Bool.and_eq_true] at h x
    rcases List.mem_cons.mp mem with same | later
    · cases same
      exact ⟨readable k₁ h.1.1 x.1.1, readable v₁ h.1.2 x.1.2⟩
    · exact readable_entries es h.2 x.2 k v later

end

end Grammar

end Pseudocode
