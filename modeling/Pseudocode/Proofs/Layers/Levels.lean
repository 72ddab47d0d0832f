import Pseudocode.Grammar.Expr
import Pseudocode.Proofs.Composition.Program
import Pseudocode.Proofs.Layers.Coincide
/-
# `Proofs.Layers.Levels` — binding powers are levels

`Layered` is the grammar of expressions as it is usually written, with one production for each
level of operators, from the loosest to the tightest: logic, comparisons, sums, products, powers,
signs, and steps after an operand.  No production knows of binding powers.  Magic words are left
out.  What stands in brackets is a whole expression again, and the productions for brackets are
those of `Grammar.Expr`, with a whole expression wherever they read one.

An expression that is read with a least power is an expression of one level: the operators that
bind more tightly than the least power are those of that level and of the tighter ones.

The loop that extends an operand with a low least power first does what it does with a higher
one (`coincide_split`), which is what the next tighter level is by induction.  What it does from
there on are the rounds of the level itself (`coincide_joined`).
-/
namespace Pseudocode.Grammar.Layered

/-! ## Operators between parts -/

/-- Operators of one level and parts, which group to the left. -/
def joined (operators : List BinaryOp) (part : Parser Expr) : Nat → Expr → Parser Expr
  | 0, _ => exhausted
  | n + 1, left => do
    match (BinaryOp.ofKind? (← peekKind)).filter operators.contains with
    | some op =>
      discard advance
      skipNewlines
      let right ← part
      let both := Expr.binary (← spanFrom left.span.start) op left right
      joined operators part n both
    | none => return left

/-- Parts with operators of one level between them. -/
def level (operators : List BinaryOp) (part : Parser Expr) (n : Nat) : Parser Expr := do
  let left ← part
  joined operators part n left

/-- Parts with `**` between them, which group to the right. -/
def power (part : Parser Expr) : Nat → Parser Expr
  | 0 => exhausted
  | n + 1 => do
    let left ← part
    if ← next .pow then
      discard advance
      skipNewlines
      let right ← power part n
      return .binary (← spanFrom left.span.start) .pow left right
    else return left

/-! ## Signs before a part -/

/-- The operator a token writes before an operand. -/
def signOf? : Kind → Option UnaryOp
  | .add => some .plus
  | .sub => some .minus
  | .not => some .not
  | _ => none

/-- A part behind as many signs as there are. -/
def signed (part : Parser Expr) : Nat → Parser Expr
  | 0 => exhausted
  | n + 1 => do
    match signOf? (← peekKind) with
    | some op =>
      let t ← advance
      let operand ← signed part n
      return .unary (← spanFrom t.span.start) op operand
    | none => part

/-! ## Operands and the steps after them -/

/-- Calls and index steps, as many as follow. -/
def stepped (r : Rules) : Nat → Expr → Parser Expr
  | 0, _ => exhausted
  | n + 1, left => do
    match ← peekKind with
    | .leftParen =>
      discard advance
      let args ← bracketed r n .rightParen
      let call := Expr.call (← spanFrom left.span.start) left args
      stepped r n call
    | .leftBracket | .dot =>
      let steps ← chain r n
      let item ← indexed left steps
      stepped r n item
    | _ => return left

/-- Literals, names, and what stands in brackets. -/
def primary (r : Rules) (n : Nat) : Parser Expr := do
  let t ← peek
  match t.kind with
  | .int =>
    discard advance
    match intLiteral? t.lexeme with
    | some v => return .int t.span v
    | none => refuse t .intOutOfRange
  | .real =>
    discard advance
    match realLiteral? t.lexeme with
    | some v => return .real t.span v
    | none => refuse t .badReal
  | .string =>
    discard advance
    return .string t.span t.lexeme
  | .boolean =>
    discard advance
    return .bool t.span (t.lexeme == "True")
  | .none =>
    discard advance
    return .none t.span
  | .identifier =>
    let v ← target r n
    return .var v.span v.name v.chain
  | .leftParen =>
    discard advance
    skipNewlines
    let e ← r.expr 0
    skipNewlines
    discard (expect .rightParen)
    return e
  | .leftBracket =>
    discard advance
    let es ← bracketed r n .rightBracket
    return .array (← spanFrom t.span.start) es
  | .leftBrace =>
    discard advance
    skipNewlines
    let es ← entries r n
    discard (expect .rightBrace)
    return .dict (← spanFrom t.span.start) es
  | _ => unexpected .expression

/-! ## The levels -/

section Levels

variable (r : Rules) (n : Nat)

/-- An operand with its calls and index steps. -/
def operands : Parser Expr := do
  let left ← primary r n
  stepped r n left

def signs : Parser Expr := signed (operands r n) n

def powers : Parser Expr := power (signs r n) n

def products : Parser Expr := level [.mul, .div, .intDiv, .mod] (powers r n) n

def sums : Parser Expr := level [.add, .sub] (products r n) n

def comparisons : Parser Expr := level [.eq, .ne, .lt, .le, .gt, .ge] (sums r n) n

def logic : Parser Expr := level [.and, .or] (comparisons r n) n

end Levels

/-- Expressions that nest at most so deep. -/
def whole : Nat → Parser Expr
  | 0 => exhausted
  | n + 1 => logic ⟨fun _ => whole n, fun _ => exhausted⟩ n

end Pseudocode.Grammar.Layered

/-! ## Binding powers -/

namespace Pseudocode.Grammar

open Layered

/-- A token that binds no more tightly. -/
abbrev Within (least : Nat) : Kind → Prop := fun k => leftPower k ≤ least

/-! ## Powers of tokens -/

theorem kind_of_ofKind? {k : Kind} {op : BinaryOp} (known : BinaryOp.ofKind? k = some op) :
    k = op.kind := by
  revert known
  cases k <;> simp [BinaryOp.ofKind?] <;> rintro rfl <;> rfl

/-- What is no operator between operands is a step or binds nothing. -/
theorem leftPower_of_ofKind? {k : Kind} (none : BinaryOp.ofKind? k = none) :
    leftPower k = 0 ∨ k = .leftParen ∨ k = .leftBracket ∨ k = .dot := by
  revert none
  cases k <;> simp [BinaryOp.ofKind?, leftPower]

theorem leftPower_kind_le (op : BinaryOp) : leftPower op.kind ≤ 50 := by cases op <;> decide

theorem step_of_leftPower {k : Kind} (tight : 50 < leftPower k) :
    k = .leftParen ∨ k = .leftBracket ∨ k = .dot := by
  cases known : BinaryOp.ofKind? k with
  | some op =>
    have low := leftPower_kind_le op
    rw [← kind_of_ofKind? known] at low
    omega
  | none => exact (leftPower_of_ofKind? known).resolve_left (by omega)

/-! ## One round of the loop -/

section Rounds

variable {r : Rules} {k : Kind} {n m m' m'' least tight : Nat} {left : Expr}

theorem becomes_extend_stop (low : leftPower k ≤ least) (left : Expr) :
    Becomes k (extend r least (m + 1) left) (pure left) :=
  becomes_peekKind.trans fun env c _ => by rw [if_pos low]

theorem becomes_extend_round (high : least < leftPower k) (left : Expr) :
    Becomes k (extend r least (m + 1) left) (extension r m left >>= extend r least m) :=
  becomes_peekKind.trans fun env c _ => by rw [if_neg (Nat.not_le.mpr high)]

theorem becomes_call (left : Expr) : Becomes .leftParen (extension r m left) (do
    discard advance
    let args ← bracketed r m .rightParen
    return .call (← spanFrom left.span.start) left args) := becomes_peekKind

theorem becomes_item (step : k = .leftBracket ∨ k = .dot) (left : Expr) :
    Becomes k (extension r m left) (chain r m >>= indexed left) := by
  rcases step with rfl | rfl <;> exact becomes_peekKind

theorem becomes_binary (op : BinaryOp) (left : Expr) : Becomes op.kind (extension r m left) (do
    discard advance
    skipNewlines
    let right ← r.expr (rightPower op)
    return .binary (← spanFrom left.span.start) op left right) := by
  cases op <;> exact becomes_peekKind

theorem coincide_stop (enough : n ≤ m) :
    Coincide (Within least) n 0 (extend r least m left) (pure left) (Within least) := by
  cases m with
  | zero => exact .vacuous (by omega)
  | succ m =>
    refine .cases fun k low => .becomes (becomes_extend_stop low left) (fun _ _ _ => rfl) ?_
    exact Coincide.pure.post fun j same => same ▸ low

/-- On fewer than `n` tokens the bounds on recursion make no difference for an expression. -/
def Rules.Steady (n : Nat) (r : Rules) : Prop :=
  ∀ least < 70, Coincide anything n 1 (r.expr least) (r.expr least) (Within least)

theorem Rules.Steady.less (h : r.Steady n) : r.Steady (n - 1) :=
  fun least low => (h least low).within (Nat.sub_le n 1)

theorem Rules.Steady.alike (h : r.Steady n) : r.Alike n r :=
  (h 0 (by decide)).post fun _ _ => trivial

theorem rightPower_lt (op : BinaryOp) : rightPower op < 70 := by cases op <;> decide

theorem coincide_indexed (left : Expr) (steps : List Index) :
    Coincide anything n 0 (indexed left steps) (indexed left steps) anything := by
  unfold indexed
  split <;> exact .spanFrom fun s => .pure

theorem coincide_extension (h : r.Steady (n - 1)) (enough : n ≤ m) (enough' : n ≤ m')
    (binds : 0 < leftPower k) (left : Expr) :
    Coincide (· = k) n 1 (extension r m left) (extension r m' left) anything := by
  have step : k = .leftParen ∨ k = .leftBracket ∨ k = .dot →
      Coincide (· = k) n 1 (extension r m left) (extension r m' left) anything := by
    rintro (rfl | bracket)
    · refine .becomes (becomes_call left) (becomes_call left) (.drop (by decide) ?_)
      exact (coincide_bracketed h.alike (by omega) (by omega) (by decide)).then fun args =>
        .spanFrom fun s => .pure
    · refine .becomes (becomes_item bracket left) (becomes_item bracket left) ?_
      exact (coincide_steps h.alike enough enough' bracket.symm).take fun steps =>
        coincide_indexed left steps
  cases known : BinaryOp.ofKind? k with
  | none => exact step ((leftPower_of_ofKind? known).resolve_left (by omega))
  | some op =>
    obtain rfl := kind_of_ofKind? known
    refine .becomes (becomes_binary op left) (becomes_binary op left) ?_
    refine .drop (by cases op <;> decide) (.skip ?_)
    refine ((h _ (rightPower_lt op)).loosen.post fun _ _ => trivial).then fun right => ?_
    exact .spanFrom fun s => .pure

/-- The bounds of the loop make no difference. -/
theorem coincide_extend (h : r.Steady (n - 1)) (enough : n < m) (enough' : n < m') (left : Expr) :
    Coincide anything n 0 (extend r least m left) (extend r least m' left) (Within least) := by
  induction m generalizing n m' left with
  | zero => exact absurd enough (Nat.not_lt_zero n)
  | succ m ih =>
    cases m' with
    | zero => exact .vacuous (by omega)
    | succ m' =>
      refine .cases fun k _ => ?_
      by_cases low : leftPower k ≤ least
      · refine .becomes (becomes_extend_stop low left) (becomes_extend_stop low left) ?_
        exact Coincide.pure.post fun j same => same ▸ low
      · have high := Nat.not_le.mp low
        refine .becomes (becomes_extend_round high left) (becomes_extend_round high left) ?_
        by_cases none : n = 0
        · exact .vacuous none
        have round := coincide_extension h (show n ≤ m by omega) (show n ≤ m' by omega)
          (show 0 < leftPower k by omega) left
        exact (round.take fun e => ih h.less (by omega) (by omega) e).loosen

/-- The loop first does what it does with a higher least power. -/
theorem coincide_split (h : r.Steady (n - 1)) (higher : least ≤ tight) (enough : n < m)
    (enough' : n < m') (enough'' : n < m'') (left : Expr) :
    Coincide anything n 0 (extend r least m left)
      (extend r tight m' left >>= extend r least m'') (Within least) := by
  induction m' generalizing n m left with
  | zero => exact .vacuous (by omega)
  | succ m' ih =>
    refine .cases fun k _ => ?_
    by_cases low : leftPower k ≤ tight
    · refine .becomes (fun _ _ _ => rfl) (becomes_extend_stop low left).bind ?_
      exact (coincide_extend h enough enough'' left).pre fun _ _ => trivial
    · have high := Nat.not_le.mp low
      cases m with
      | zero => exact .vacuous (by omega)
      | succ m =>
        refine .becomes (becomes_extend_round (by omega) left)
          (becomes_extend_round high left).bind ?_
        rw [bind_assoc]
        by_cases none : n = 0
        · exact .vacuous none
        have round := coincide_extension h (show n ≤ m by omega) (show n ≤ m' by omega)
          (show 0 < leftPower k by omega) left
        exact (round.take fun e => ih h.less (by omega) (by omega) (by omega) e).loosen

end Rounds

/-! ## Operands and the steps after them -/

section Operands

variable {r r' : Rules} {k : Kind} {n m m' j j' least : Nat} {part : Parser Expr}

theorem ne_eof_of_sign {op : UnaryOp} (sign : signOf? k = some op) : k ≠ .eof := by
  rintro rfl
  cases sign

theorem becomes_operand_sign {op : UnaryOp} (sign : signOf? k = some op) :
    Becomes k (operand r m) (unary r op) := by
  intro env c here
  rw [operand, run_bind_ok (run_peek env c), here]
  revert sign
  cases k <;> simp only [signOf?, Option.some.injEq, reduceCtorEq, false_implies] <;>
    rintro rfl <;> rfl

theorem coincide_primary (h : r.Alike (n - 1) r') (enough : n - 1 ≤ m) (enough' : n - 1 ≤ m') :
    Coincide (fun k => signOf? k = none) n 1 (operand r m) (primary r' m') anything := by
  refine .peek fun t sign word => ?_
  split
  case h_1 int =>
    simp only [int]
    refine .drop (by decide) ?_
    cases intLiteral? t.lexeme with
    | some v => exact .pure
    | none => exact .refuse
  case h_2 real =>
    simp only [real]
    refine .drop (by decide) ?_
    cases realLiteral? t.lexeme with
    | some v => exact .pure
    | none => exact .refuse
  case h_3 literal | h_4 literal | h_5 literal =>
    simp only [literal]
    exact .drop (by decide) .pure
  case h_6 name =>
    simp only [name]
    exact (coincide_target h enough enough').take fun v => .pure
  case h_7 paren =>
    simp only [paren]
    refine .drop (by decide) (.skip (h.part.then fun e => .skip ?_))
    exact (Coincide.expected (by decide)).loosen.discarded.then fun _ => .pure
  case h_8 op | h_9 op | h_10 op =>
    rw [op] at sign
    cases sign
  case h_11 bracket =>
    simp only [bracket]
    refine .drop (by decide) ((coincide_bracketed h enough enough' (by decide)).then fun es => ?_)
    exact .spanFrom fun s => .pure
  case h_12 brace =>
    simp only [brace]
    refine .drop (by decide) (.skip ((coincide_entries h enough enough').then fun es => ?_))
    exact (Coincide.expected (by decide)).loosen.discarded.then fun _ => .spanFrom fun s => .pure
  case h_13 magic | h_14 magic | h_15 magic | h_16 magic | h_17 magic =>
    rw [magic] at word
    cases word
  case h_18 =>
    split
    all_goals first | exact .unexpected | contradiction

/-- The bounds of an operand make no difference. -/
theorem coincide_operand (h : r.Steady (n - 1)) (enough : n - 1 ≤ m) :
    Coincide anything n 1 (operand r m) (operand r m) anything := by
  refine .cases fun k _ => ?_
  cases sign : signOf? k with
  | none =>
    have same := coincide_primary h.alike enough enough
    exact (same.trans same.symm).pre fun j next => by rw [next]; exact sign
  | some op =>
    refine .becomes (becomes_operand_sign sign) (becomes_operand_sign sign) ?_
    refine .advance (ne_eof_of_sign sign) fun t => ?_
    refine ((h unaryPower (by decide)).loosen.post fun _ _ => trivial).then fun e => ?_
    exact .spanFrom fun s => .pure

theorem becomes_stepped_call (left : Expr) : Becomes .leftParen (stepped r (m + 1) left) (do
    discard advance
    let args ← bracketed r m .rightParen
    let call := Expr.call (← spanFrom left.span.start) left args
    stepped r m call) := becomes_peekKind

theorem becomes_stepped_item (step : k = .leftBracket ∨ k = .dot) (left : Expr) :
    Becomes k (stepped r (m + 1) left)
      (chain r m >>= fun steps => indexed left steps >>= stepped r m) := by
  rcases step with rfl | rfl <;> exact becomes_peekKind

theorem becomes_stepped_stop (low : leftPower k < 70) (left : Expr) :
    Becomes k (stepped r (m + 1) left) (pure left) := by
  refine becomes_peekKind.trans fun env c _ => ?_
  split
  · exact absurd low (by decide)
  · exact absurd low (by decide)
  · exact absurd low (by decide)
  · rfl

/-- Calls and index steps, after any operand. -/
theorem coincide_stepped (h : r.Alike (n - 1) r') (enough : n < m) (enough' : n < m')
    (low : 50 ≤ least) (high : least < 70) (left : Expr) :
    Coincide anything n 0 (extend r least m left) (stepped r' m' left) (Within least) := by
  induction m generalizing n m' left with
  | zero => exact absurd enough (Nat.not_lt_zero n)
  | succ m ih =>
    cases m' with
    | zero => exact absurd enough' (Nat.not_lt_zero n)
    | succ m' =>
      by_cases none : n = 0
      · exact .vacuous none
      have more := ih h.less (show n - 1 < m by omega) (show n - 1 < m' by omega)
      refine .cases fun k _ => ?_
      by_cases stop : leftPower k ≤ least
      · refine .becomes (becomes_extend_stop stop left) (becomes_stepped_stop (by omega) left) ?_
        exact Coincide.pure.post fun j same => same ▸ stop
      · have round := @becomes_extend_round r k m least (Nat.not_le.mp stop) left
        rcases step_of_leftPower (show 50 < leftPower k by omega) with rfl | item
        · refine .becomes (round.trans (becomes_call left).bind) (becomes_stepped_call left) ?_
          simp only [bind_assoc, pure_bind]
          refine (Coincide.drop (by decide) ?_).loosen
          refine (coincide_bracketed h (by omega) (by omega) (by decide)).then fun args => ?_
          exact .spanFrom fun s => more _
        · refine .becomes (round.trans (becomes_item item left).bind)
            (becomes_stepped_item item left) ?_
          rw [bind_assoc]
          refine ((coincide_steps h (by omega) (by omega) item.symm).take fun steps => ?_).loosen
          exact (coincide_indexed left steps).then more

/-- An operand with its calls and index steps. -/
theorem coincide_operands (h : r.Alike (n - 1) r') (enough : n ≤ m) (enough' : n ≤ m')
    (low : 50 ≤ least) (high : least < 70) :
    Coincide (fun k => signOf? k = none) n 1 (expr r m least) (operands r' m') (Within least) := by
  by_cases none : n = 0
  · exact .vacuous none
  refine (coincide_primary h (by omega) (by omega)).take fun left => ?_
  exact coincide_stepped h.less (by omega) (by omega) low high left

/-! ## Signs -/

theorem becomes_signed_part (none : signOf? k = none) : Becomes k (signed part (j + 1)) part :=
  becomes_peekKind.trans fun env c _ => by rw [none]

theorem becomes_signed_sign {op : UnaryOp} (sign : signOf? k = some op) :
    Becomes k (signed part (j + 1)) (do
      let t ← advance
      let operand ← signed part j
      return .unary (← spanFrom t.span.start) op operand) :=
  becomes_peekKind.trans fun env c _ => by rw [sign]

/-- The bounds of a signed part make no difference. -/
theorem coincide_signed (h : Coincide (fun k => signOf? k = none) n 1 part part (Within least))
    (enough : n ≤ j) (enough' : n ≤ j') :
    Coincide anything n 1 (signed part j) (signed part j') (Within least) := by
  induction j generalizing n j' with
  | zero => exact .vacuous (by omega)
  | succ j ih =>
    cases j' with
    | zero => exact .vacuous (by omega)
    | succ j' =>
      have more := ih (h.within (Nat.sub_le n 1)) (by omega) (show n - 1 ≤ j' by omega)
      refine .cases fun k _ => ?_
      cases sign : signOf? k with
      | none =>
        refine .becomes (becomes_signed_part sign) (becomes_signed_part sign) ?_
        exact h.pre fun i next => by rw [next]; exact sign
      | some op =>
        refine .becomes (becomes_signed_sign sign) (becomes_signed_sign sign) ?_
        refine .advance (ne_eof_of_sign sign) fun t => ?_
        exact more.loosen.then fun e => .spanFrom fun s => .pure

/-- After a sign the loop has nothing left to do: the steps went to the operand. -/
theorem coincide_signs (enough : n ≤ m) (enough' : n ≤ j) (low : 50 ≤ least)
    (operands : Coincide (fun k => signOf? k = none) n 1 (expr r m least) part (Within least))
    (inner : Coincide anything (n - 1) 1 (r.expr unaryPower) (signed part (j - 1))
      (Within unaryPower)) :
    Coincide anything n 1 (expr r m least) (signed part j) (Within least) := by
  cases j with
  | zero => exact .vacuous (by omega)
  | succ j =>
    refine .cases fun k _ => ?_
    cases sign : signOf? k with
    | none =>
      refine .becomes (fun _ _ _ => rfl) (becomes_signed_part sign) ?_
      exact operands.pre fun i next => by rw [next]; exact sign
    | some op =>
      have within : ∀ i, Within unaryPower i → Within least i := by
        intro i known
        refine Nat.le_of_not_lt fun tight => ?_
        rcases step_of_leftPower (show 50 < leftPower i by omega) with rfl | rfl | rfl <;>
          exact absurd known (by decide)
      refine .becomes (becomes_operand_sign sign).bind (becomes_signed_sign sign) ?_
      rw [unary, bind_assoc]
      refine .advance (ne_eof_of_sign sign) fun t => ?_
      simp only [bind_assoc, pure_bind]
      refine inner.loosen.then fun e => .spanFrom fun s => ?_
      exact (coincide_stop (by omega)).pre within

end Operands

/-! ## Levels that group to the left -/

section Groups

variable {r r' : Rules} {k : Kind} {n m m' j j' least tight : Nat} {part : Parser Expr}
  {ops : List BinaryOp}

/-- The operators of a level are those that a context of some power lets bind and the parts of
the level do not. -/
structure Binds (ops : List BinaryOp) (least tight : Nat) : Prop where
  le : least ≤ tight
  within : ∀ op ∈ ops, least < leftPower op.kind ∧ leftPower op.kind ≤ tight ∧ rightPower op = tight
  others : ∀ op, op ∉ ops → leftPower op.kind ≤ least ∨ tight < leftPower op.kind

/-- All operators of one power are a level, if the others are ten below it or above it. -/
theorem binds_of_power (same : ∀ op ∈ ops, leftPower op.kind = tight ∧ rightPower op = tight)
    (others : ∀ op, op ∉ ops → leftPower op.kind + 10 ≤ tight ∨ tight < leftPower op.kind)
    (low : tight ≤ least + 10) (high : least < tight) : Binds ops least tight where
  le := Nat.le_of_lt high
  within op mem := by
    obtain ⟨left, right⟩ := same op mem
    exact ⟨left ▸ high, Nat.le_of_eq left, right⟩
  others op other := by
    rcases others op other with below | above
    · exact .inl (by omega)
    · exact .inr above

theorem Binds.filter_of_le (binds : Binds ops least tight) (low : leftPower k ≤ least) :
    (BinaryOp.ofKind? k).filter ops.contains = none := by
  refine Option.filter_eq_none_iff.mpr fun op known mem => ?_
  rw [kind_of_ofKind? known] at low
  have high := (binds.within op (List.contains_iff_mem.mp mem)).1
  omega

theorem Binds.exists_of_lt (binds : Binds ops least tight) (high : least < leftPower k)
    (low : leftPower k ≤ tight) (wide : tight < 70) : ∃ op ∈ ops, k = op.kind := by
  cases known : BinaryOp.ofKind? k with
  | none =>
    rcases leftPower_of_ofKind? known with zero | rfl | rfl | rfl <;> simp [leftPower] at * <;>
      omega
  | some op =>
    obtain rfl := kind_of_ofKind? known
    refine ⟨op, ?_, rfl⟩
    refine Classical.byContradiction fun other => ?_
    rcases binds.others op other with low' | high' <;> omega

theorem becomes_joined_stop (none : (BinaryOp.ofKind? k).filter ops.contains = none) (left : Expr) :
    Becomes k (joined ops part (m + 1) left) (pure left) :=
  becomes_peekKind.trans fun env c _ => by rw [none]

theorem becomes_joined_round {op : BinaryOp} (mem : op ∈ ops) (left : Expr) :
    Becomes op.kind (joined ops part (m + 1) left) (do
      discard advance
      skipNewlines
      let right ← part
      let both := Expr.binary (← spanFrom left.span.start) op left right
      joined ops part m both) := by
  refine becomes_peekKind.trans fun env c _ => ?_
  have known : (BinaryOp.ofKind? op.kind).filter ops.contains = some op := by
    rw [BinaryOp.ofKind?_kind, Option.filter_some, if_pos (List.contains_iff_mem.mpr mem)]
  rw [known]

/-- What the loop does after the parts of a level are the rounds of the level. -/
theorem coincide_joined (binds : Binds ops least tight) (wide : tight < 70)
    (h : Coincide anything (n - 1) 1 (r.expr tight) part (Within tight))
    (enough : n ≤ m) (enough' : n ≤ m') (left : Expr) :
    Coincide (Within tight) n 0 (extend r least m left) (joined ops part m' left)
      (Within least) := by
  induction m generalizing n m' left with
  | zero => exact .vacuous (by omega)
  | succ m ih =>
    cases m' with
    | zero => exact .vacuous (by omega)
    | succ m' =>
      have more := ih (h.within (Nat.sub_le (n - 1) 1)) (show n - 1 ≤ m by omega)
        (show n - 1 ≤ m' by omega)
      refine .cases fun k known => ?_
      by_cases low : leftPower k ≤ least
      · refine .becomes (becomes_extend_stop low left) (becomes_joined_stop ?_ left) ?_
        · exact binds.filter_of_le low
        · exact Coincide.pure.post fun i next => next ▸ low
      · obtain ⟨op, mem, rfl⟩ := binds.exists_of_lt (Nat.not_le.mp low) known wide
        have round := (becomes_extend_round (Nat.not_le.mp low) left).trans
          (becomes_binary (r := r) (m := m) op left).bind
        refine .becomes round (becomes_joined_round mem left) ?_
        simp only [bind_assoc, pure_bind, (binds.within op mem).2.2]
        refine (Coincide.drop (by cases op <;> decide) (.skip ?_)).loosen
        exact h.loosen.then fun right => .spanFrom fun s => more _

/-- The loop after an operand is the loop after a tighter expression. -/
theorem coincide_expr_split (steady : r.Steady (n - 1)) (higher : least ≤ tight) (enough : n ≤ m) :
    Coincide anything n 1 (expr r m least) (expr r m tight >>= extend r least m)
      (Within least) := by
  by_cases none : n = 0
  · exact .vacuous none
  rw [expr, expr, bind_assoc]
  refine (coincide_operand steady (by omega)).take fun left => ?_
  exact coincide_split steady.less higher (by omega) (by omega) (by omega) left

/-- A level is what its least power lets bind. -/
theorem coincide_level (binds : Binds ops least tight) (wide : tight < 70)
    (steady : r.Steady (n - 1)) (enough : n ≤ m) (enough' : n ≤ m')
    (tighter : Coincide anything n 1 (expr r m tight) part (Within tight))
    (h : Coincide anything (n - 1) 1 (r.expr tight) part (Within tight)) :
    Coincide anything n 1 (expr r m least) (level ops part m') (Within least) := by
  refine (coincide_expr_split steady binds.le enough).trans (tighter.take fun left => ?_)
  exact coincide_joined binds wide (h.within (Nat.sub_le (n - 1) 1)) (by omega) (by omega) left

end Groups

/-! ## Powers -/

section Powers

variable {r : Rules} {k : Kind} {n m j j' least : Nat} {part : Parser Expr}

theorem pow_of_leftPower (tight : 40 < leftPower k) (within : leftPower k ≤ unaryPower) :
    k = .pow := by
  revert tight within
  cases k <;> simp [leftPower, unaryPower]

/-- What is no `**` does not bind what a power ends with. -/
theorem within_of_ne_pow (within : Within unaryPower k) (other : k ≠ .pow) (low : 40 ≤ least) :
    Within least k :=
  Nat.le_of_not_lt fun tight => other (pow_of_leftPower (by omega) within)

/-- The bounds of a power make no difference. -/
theorem coincide_power_bounds (h : Coincide anything n 1 part part (Within unaryPower))
    (enough : n ≤ j) (enough' : n ≤ j') :
    Coincide anything n 1 (power part j) (power part j') (Within (rightPower .pow)) := by
  induction j generalizing n j' with
  | zero => exact .vacuous (by omega)
  | succ j ih =>
    cases j' with
    | zero => exact .vacuous (by omega)
    | succ j' =>
      have more := ih (h.within (Nat.sub_le n 1)) (by omega) (show n - 1 ≤ j' by omega)
      refine h.take fun left => .next (fun _ => ?_) ?_
      · refine (Coincide.drop (by decide) (.skip ?_)).loosen
        exact (more.within (by omega)).loosen.then fun right => .spanFrom fun s => .pure
      · exact Coincide.pure.post fun i here => within_of_ne_pow here.1 here.2 (by decide)

/-- After a part the loop takes one `**`, and what stands to its right takes the others. -/
theorem coincide_power (steady : r.Steady (n - 1)) (low : 40 ≤ least) (high : least < 50)
    (enough : n ≤ m) (enough' : n ≤ j)
    (tighter : Coincide anything n 1 (expr r m unaryPower) part (Within unaryPower))
    (right : Coincide anything (n - 1) 1 (r.expr (rightPower .pow)) (power part (j - 1))
      (Within (rightPower .pow))) :
    Coincide anything n 1 (expr r m least) (power part j) (Within least) := by
  cases j with
  | zero => exact .vacuous (by omega)
  | succ j =>
    refine (coincide_expr_split steady (show least ≤ 60 by omega) enough).trans ?_
    refine tighter.take fun left => .cases fun k known => ?_
    cases m with
    | zero => exact .vacuous (by omega)
    | succ m =>
      by_cases pow : k = .pow
      · subst pow
        have round := (becomes_extend_round (show least < leftPower .pow from high) left).trans
          (becomes_binary (r := r) (m := m) .pow left).bind
        refine .becomes round (becomes_next.trans fun _ _ _ => by rw [if_pos rfl]) ?_
        simp only [bind_assoc, pure_bind]
        refine (Coincide.drop (by decide) (.skip ?_)).loosen
        refine (right.within (Nat.sub_le _ 1)).loosen.then fun e => .spanFrom fun s => ?_
        refine (coincide_stop (by omega)).pre fun i (within : leftPower i ≤ 49) => ?_
        refine within_of_ne_pow (show leftPower i ≤ 60 by omega) ?_ low
        rintro rfl
        exact absurd within (by decide)
      · have stop : leftPower k ≤ least := within_of_ne_pow known pow low
        refine .becomes (becomes_extend_stop stop left)
          (becomes_next.trans fun _ _ _ => by rw [if_neg pow]) ?_
        exact Coincide.pure.post fun i next => next ▸ stop

end Powers

/-! ## All levels -/

/-- The level that a least power stands for. -/
def layer (r : Rules) (n least : Nat) : Parser Expr :=
  if least < 10 then logic r n
  else if least < 20 then comparisons r n
  else if least < 30 then sums r n
  else if least < 40 then products r n
  else if least < 50 then powers r n
  else signs r n

section Levels

variable {r r' : Rules} {n m m' low high : Nat} {part : Parser Expr} {ops : List BinaryOp}

/-- With least powers from `low` up to `high` the loop reads what the part reads. -/
def Serves (n m : Nat) (r : Rules) (low high : Nat) (part : Parser Expr) : Prop :=
  ∀ least, low ≤ least → least < high →
    Coincide anything n 1 (expr r m least) part (Within least)

/-- What is known of expressions on fewer tokens. -/
structure Inner (n m m' : Nat) (r r' : Rules) : Prop where
  enough : n ≤ m
  enough' : n ≤ m'
  alike : r.Alike (n - 1) r'
  parts : ∀ least < 70,
    Coincide anything (n - 1) 1 (r.expr least) (layer r' m' least) (Within least)

theorem Inner.steady (h : Inner n m m' r r') : r.Steady (n - 1) :=
  fun least low => (h.parts least low).trans (h.parts least low).symm

theorem Inner.signs (h : Inner n m m' r r') : Serves n m r 50 70 (signs r' m') := by
  intro least low high
  have operand : ∀ least, 50 ≤ least → least < 70 →
      Coincide (fun k => signOf? k = none) n 1 (expr r m least) (operands r' m') (Within least) :=
    fun least low high => coincide_operands h.alike h.enough h.enough' low high
  have part := operand unaryPower (by decide) (by decide)
  have bounds := coincide_signed (part.symm.trans part |>.within (Nat.sub_le n 1))
    (show n - 1 ≤ m' by have := h.enough'; omega) (show n - 1 ≤ m' - 1 by have := h.enough'; omega)
  refine coincide_signs h.enough h.enough' low (operand least low high) ?_
  exact (h.parts unaryPower (by decide)).trans bounds

theorem Inner.powers (h : Inner n m m' r r') : Serves n m r 40 50 (powers r' m') := by
  intro least low high
  have part := h.signs unaryPower (by decide) (by decide)
  have bounds := coincide_power_bounds (part.symm.trans part |>.within (Nat.sub_le n 1))
    (show n - 1 ≤ m' by have := h.enough'; omega) (show n - 1 ≤ m' - 1 by have := h.enough'; omega)
  refine coincide_power h.steady low high h.enough h.enough' part ?_
  exact (h.parts (rightPower .pow) (by decide)).trans bounds

/-- From the parts of a level to the level. -/
theorem Inner.level (h : Inner n m m' r r')
    (same : ∀ op ∈ ops, leftPower op.kind = low ∧ rightPower op = low)
    (others : ∀ op, op ∉ ops → leftPower op.kind + 10 ≤ low ∨ low < leftPower op.kind)
    (wide : low < high) (bound : high ≤ 70) (layered : layer r' m' low = part)
    (parts : Serves n m r low high part) : Serves n m r (low - 10) low (level ops part m') := by
  intro least below above
  have tighter := parts low (Nat.le_refl low) wide
  have inner := h.parts low (by omega)
  rw [layered] at inner
  exact coincide_level (binds_of_power same others (by omega) above) (by omega) h.steady h.enough
    h.enough' tighter inner

theorem Inner.products (h : Inner n m m' r r') : Serves n m r 30 40 (products r' m') :=
  h.level (by decide) (fun op => by cases op <;> decide) (by decide) (by decide) rfl h.powers

theorem Inner.sums (h : Inner n m m' r r') : Serves n m r 20 30 (sums r' m') :=
  h.level (by decide) (fun op => by cases op <;> decide) (by decide) (by decide) rfl h.products

theorem Inner.comparisons (h : Inner n m m' r r') : Serves n m r 10 20 (comparisons r' m') :=
  h.level (by decide) (fun op => by cases op <;> decide) (by decide) (by decide) rfl h.sums

theorem Inner.logic (h : Inner n m m' r r') : Serves n m r 0 10 (logic r' m') :=
  h.level (by decide) (fun op => by cases op <;> decide) (by decide) (by decide) rfl h.comparisons

theorem Inner.layer (h : Inner n m m' r r') {least : Nat} (bound : least < 70) :
    Coincide anything n 1 (expr r m least) (layer r' m' least) (Within least) := by
  unfold Grammar.layer
  split
  · exact h.logic least (Nat.zero_le _) ‹_›
  split
  · exact h.comparisons least (by omega) ‹_›
  split
  · exact h.sums least (by omega) ‹_›
  split
  · exact h.products least (by omega) ‹_›
  split
  · exact h.powers least (by omega) ‹_›
  · exact h.signs least (by omega) bound

end Levels

/-- The rules for brackets in an expression of levels. -/
def nested (n : Nat) : Rules := ⟨fun _ => whole n, fun _ => exhausted⟩

/-- An expression with a least power is one of the level that it stands for. -/
theorem coincide_layer {n m m' least : Nat} (enough : n < m) (enough' : n ≤ m')
    (bound : least < 70) :
    Coincide anything n 1 ((rules m).expr least) (layer (nested m') m' least) (Within least) := by
  induction n generalizing m m' least with
  | zero => exact .vacuous rfl
  | succ n ih =>
    obtain ⟨m, rfl⟩ := Nat.exists_eq_add_one_of_ne_zero (Nat.ne_zero_of_lt enough)
    have alike : (rules m).Alike n (nested m') := by
      obtain ⟨m', rfl⟩ := Nat.exists_eq_add_one_of_ne_zero (show m' ≠ 0 by omega)
      exact (@ih m m' 0 (by omega) (by omega) (by decide)).post fun _ _ => trivial
    have inner : Inner (n + 1) m m' (rules m) (nested m') :=
      ⟨by omega, enough', alike, fun least low => ih (by omega) (by omega) low⟩
    exact inner.layer bound

/-! ## Expressions of a program -/

/-- What a parser of expressions makes of the tokens from a place on. -/
def parseFrom (p : Nat → Parser Expr) (tokens : List Token) (i : Nat) :
    Except Halt (Expr × Cursor) :=
  ((p (depthBound tokens)).run (endOf tokens)).run ⟨(tokens.take i).getLast?, tokens.drop i⟩

theorem Ends.ne_exhausted {α : Type} {env : Token} {c : Cursor} {d : Nat} {Q : Kind → Prop}
    {x : Except Halt (α × Cursor)} (h : Ends env c d Q x) : x ≠ .error .exhausted := by
  cases h <;> exact nofun

/-- Binding powers give what the levels of the grammar give: the same tree and the same place
where it ends, or the same complaint about the same token. -/
theorem expr_eq_layered (tokens : List Token) (i : Nat)
    (wordless : ∀ t ∈ tokens, t.kind.isMagic = false) :
    parseFrom (fun n => (rules n).expr 0) tokens i = parseFrom whole tokens i ∧
      parseFrom whole tokens i ≠ .error .exhausted := by
  have few : (tokens.drop i).length + 1 ≤ tokens.length + 1 := by
    rw [List.length_drop]
    omega
  have both := @coincide_layer ((tokens.drop i).length + 1) (depthBound tokens) (tokens.length + 3) 0
    (by rw [depthBound]; omega) (by omega) (by decide)
  have rest : Wordless (tokens.drop i) := fun t mem => wordless t (List.mem_of_mem_drop mem)
  obtain ⟨same, ends⟩ := both (endOf tokens) ⟨(tokens.take i).getLast?, tokens.drop i⟩
    (kind_endOf tokens) rest (Nat.lt_succ_self _) trivial
  refine ⟨same, ?_⟩
  have levels : parseFrom whole tokens i = parseFrom (fun n => (rules n).expr 0) tokens i :=
    same.symm
  exact levels ▸ ends.ne_exhausted

/-- A sign binds more tightly than `**`, and `**` groups to the right. -/
theorem expr_eq_layered_powers :
    let token := fun k text => Token.mk k text .nowhere
    let tokens := [token .sub "-", token .identifier "a", token .pow "**", token .identifier "b",
      token .pow "**", token .identifier "c"]
    let letter := fun name => Expr.var .nowhere name []
    (∀ t ∈ tokens, t.kind.isMagic = false) ∧
      (parseFrom (fun n => (rules n).expr 0) tokens 0).map (·.1) =
        .ok (.binary .nowhere .pow (.unary .nowhere .minus (letter "a"))
          (.binary .nowhere .pow (letter "b") (letter "c"))) := by
  intro token tokens letter
  have wordless : ∀ t ∈ tokens, t.kind.isMagic = false := by decide
  refine ⟨wordless, ?_⟩
  rw [(expr_eq_layered tokens 0 wordless).1]
  rfl

end Pseudocode.Grammar
