import Mathlib.Tactic.Tauto
import Pseudocode.Program.Operator
import Pseudocode.Token.Basic
/-
# `Proofs.Reflow.Setting` — where line breaks are free

A line break ends a statement.  Behind what cannot end one, and in brackets around the items, it
means nothing.  Which places these are can be told from the tokens before them: from the brackets
that are open, and from what the last token is for the next one (`Setting`).  Two lists of tokens
are reflowed if they differ in the line breaks at such places only (`Reflowed`).

A sign is an operator behind an operand and belongs to the operand in front of one; only the first
joins what is around it.  A closing parenthesis is the end of an operand, but not that of a
parameter list, behind which a statement may start.
-/
namespace Pseudocode

/-- A bracket that has been opened. -/
inductive Bracket where
  /-- The parenthesis of a group or of the arguments of a call. -/
  | paren
  /-- The parenthesis of a parameter list. -/
  | params
  | bracket
  | brace
deriving Repr, DecidableEq

/-- What a token is for the next one. -/
inductive Role where
  /-- It may be the end of an operand. -/
  | ends
  /-- It is an opening bracket, a separator in brackets or an operator behind an operand. -/
  | joins
  /-- It is the word before the name of a subroutine. -/
  | defines
  /-- It is the name of a subroutine in its definition. -/
  | names
  | other
deriving Repr, DecidableEq

/-- The brackets that are open, the innermost first, and what the last token is. -/
structure Setting where
  stack : List Bracket
  role : Role
deriving Repr, DecidableEq

namespace Setting

/-- Before all tokens. -/
def start : Setting := ⟨[], .other⟩

/-- Behind one more token.  A line break leaves an operator what it is, and separates whatever else
stands before it from what follows. -/
def next (σ : Setting) : Kind → Setting
  | .newline => { σ with role := if σ.role = .joins then .joins else .other }
  | .int | .real | .string | .boolean | .none => { σ with role := .ends }
  | .identifier => { σ with role := if σ.role = .defines then .names else .ends }
  | .leftParen => ⟨(if σ.role = .names then .params else .paren) :: σ.stack, .joins⟩
  | .leftBracket => ⟨.bracket :: σ.stack, .joins⟩
  | .leftBrace => ⟨.brace :: σ.stack, .joins⟩
  | .rightParen => ⟨σ.stack.tail, if σ.stack.head? = some .params then .other else .ends⟩
  | .rightBracket | .rightBrace => ⟨σ.stack.tail, .ends⟩
  | .comma => { σ with role := if σ.stack = [] then .other else .joins }
  | .colon => { σ with role := if σ.stack.head? = some .brace then .joins else .other }
  | .kwSubroutine => { σ with role := .defines }
  | k => { σ with role := if (BinaryOp.ofKind? k).isSome ∧ σ.role = .ends then .joins else .other }

theorem next_newline (σ : Setting) :
    σ.next .newline = { σ with role := if σ.role = .joins then .joins else .other } := rfl

theorem next_identifier (σ : Setting) :
    σ.next .identifier = { σ with role := if σ.role = .defines then .names else .ends } := rfl

theorem next_leftParen (σ : Setting) :
    σ.next .leftParen = ⟨(if σ.role = .names then .params else .paren) :: σ.stack, .joins⟩ := rfl

theorem next_rightParen (σ : Setting) : σ.next .rightParen =
    ⟨σ.stack.tail, if σ.stack.head? = some .params then .other else .ends⟩ := rfl

theorem next_comma (σ : Setting) :
    σ.next .comma = { σ with role := if σ.stack = [] then .other else .joins } := rfl

theorem next_colon (σ : Setting) : σ.next .colon =
    { σ with role := if σ.stack.head? = some .brace then .joins else .other } := rfl

/-- Does this close or separate the items of the innermost bracket? -/
def parts (σ : Setting) (k : Kind) : Bool :=
  match σ.stack with
  | [] => false
  | b :: _ =>
    [.rightParen, .rightBracket, .rightBrace, .comma].contains k || b == .brace && k == .colon

end Setting

/-- The kind of the first token that is no line break. -/
def nextKind (ts : List Token) : Kind :=
  ((ts.dropWhile (·.kind == .newline)).head?.map Token.kind).getD .eof

/-- A line break means nothing before these tokens: behind an opening bracket, an operator between
two operands or a separator in brackets, and before a separator or a closing bracket. -/
def Setting.Free (σ : Setting) (ts : List Token) : Prop :=
  σ.role = .joins ∨ σ.parts (nextKind ts) = true

instance (σ : Setting) (ts : List Token) : Decidable (σ.Free ts) :=
  inferInstanceAs (Decidable (_ ∨ _))

/-- The tokens on the right are those on the left at other places, with line breaks taken away and
added where they mean nothing. -/
inductive Reflowed : Setting → List Token → List Token → Prop where
  | nil {σ : Setting} : Reflowed σ [] []
  | token {σ : Setting} {t t' : Token} {us vs : List Token} (kind : t'.kind = t.kind)
      (lexeme : t'.lexeme = t.lexeme) (rest : Reflowed (σ.next t.kind) us vs) :
      Reflowed σ (t :: us) (t' :: vs)
  | removed {σ : Setting} {t : Token} {us vs : List Token} (line : t.kind = .newline)
      (free : σ.Free us) (rest : Reflowed σ us vs) : Reflowed σ (t :: us) vs
  | added {σ : Setting} {t : Token} {us vs : List Token} (line : t.kind = .newline)
      (free : σ.Free vs) (rest : Reflowed σ us vs) : Reflowed σ us (t :: vs)

/-- No magic word stands in brackets. -/
def Setting.Plain : Setting → List Token → Prop
  | _, [] => True
  | σ, t :: ts => (t.kind.isMagic = true → σ.stack = []) ∧ (σ.next t.kind).Plain ts

/-! ## Behind a token -/

/-- How many brackets are open depends on the tokens alone. -/
theorem Setting.length_next {σ τ : Setting} (same : σ.stack.length = τ.stack.length) (k : Kind) :
    (σ.next k).stack.length = (τ.next k).stack.length := by
  have tail : σ.stack.tail.length = τ.stack.tail.length := by
    rw [List.length_tail, List.length_tail, same]
  cases k
  case rightParen | rightBracket | rightBrace => exact tail
  case leftParen | leftBracket | leftBrace => exact congrArg (· + 1) same
  all_goals exact same

theorem Setting.Plain.congr {ts : List Token} {σ τ : Setting}
    (same : σ.stack.length = τ.stack.length) (plain : σ.Plain ts) : τ.Plain ts := by
  induction ts generalizing σ τ with
  | nil => trivial
  | cons t ts ih =>
    refine ⟨fun magic => ?_, ih (Setting.length_next same t.kind) plain.2⟩
    rw [← List.length_eq_zero_iff, ← same, plain.1 magic]
    rfl

/-- A word or sign that neither ends an operand nor joins what is around it. -/
def Kind.isLone (k : Kind) : Bool :=
  (k.isKeyword && k != .kwSubroutine) || [assign, dot, not].contains k

theorem Setting.next_lone (σ : Setting) {k : Kind} (lone : k.isLone = true) :
    σ.next k = ⟨σ.stack, .other⟩ := by
  cases k <;> first | rfl | cases lone

/-- Neither the end of input nor a line break. -/
def Kind.isTaken (k : Kind) : Bool := k != .eof && k != .newline

theorem Kind.ne_of_isTaken {k : Kind} (taken : k.isTaken = true) : k ≠ .eof ∧ k ≠ .newline := by
  simpa [isTaken] using taken

theorem Kind.isTaken_of_isLone {k : Kind} (lone : k.isLone = true) : k.isTaken = true := by
  cases k <;> first | rfl | cases lone

theorem Kind.isTaken_of_operator {k : Kind} {op : BinaryOp}
    (operator : BinaryOp.ofKind? k = some op) : k.isTaken = true := by
  cases k <;> first | rfl | cases operator

theorem Setting.role_next_name (σ : Setting) : (σ.next .identifier).role ≠ .joins := by
  rw [next_identifier]
  split <;> exact nofun

theorem Setting.next_closer (σ : Setting) {k : Kind}
    (closes : k = .rightParen ∨ k = .rightBracket ∨ k = .rightBrace) :
    (σ.next k).stack = σ.stack.tail ∧ (σ.next k).role ≠ .joins := by
  rcases closes with rfl | rfl | rfl
  · refine ⟨rfl, ?_⟩
    rw [next_rightParen]
    split <;> exact nofun
  · exact ⟨rfl, nofun⟩
  · exact ⟨rfl, nofun⟩

theorem Setting.role_next_comma (σ : Setting) : (σ.next .comma).role ≠ .ends := by
  rw [next_comma]
  split <;> exact nofun

theorem Setting.role_next_colon (σ : Setting) : (σ.next .colon).role ≠ .ends := by
  rw [next_colon]
  split <;> exact nofun

theorem Setting.next_operator (σ : Setting) {k : Kind} {op : BinaryOp}
    (operator : BinaryOp.ofKind? k = some op) :
    (σ.next k).stack = σ.stack ∧ (σ.next k).role ≠ .ends := by
  cases k
  case eq | ne | lt | le | gt | ge | add | sub | mul | div | intDiv | mod | pow | and | or =>
    refine ⟨rfl, fun ends => ?_⟩
    change (if _ then Role.joins else Role.other) = .ends at ends
    split at ends <;> cases ends
  all_goals cases operator

/-! ## The next token -/

section Next

variable {σ : Setting} {k : Kind} {t : Token} {ts : List Token}

theorem nextKind_cons (t : Token) (ts : List Token) :
    nextKind (t :: ts) = if t.kind = .newline then nextKind ts else t.kind := by
  rw [nextKind, List.dropWhile_cons]
  by_cases line : t.kind = .newline
  · rw [if_pos (by simpa using line), if_pos line]
    rfl
  · rw [if_neg (by simpa using line), if_neg line]
    rfl

/-- A line break and what may stand behind it in brackets; in the tokens on the other side, one of
these is next as well. -/
def Setting.Soft (σ : Setting) (k : Kind) : Prop := k = .newline ∨ σ.parts k = true

theorem Setting.stack_of_parts (parts : σ.parts k = true) : σ.stack ≠ [] := by
  intro none
  rw [Setting.parts, none] at parts
  cases parts

theorem Setting.Soft.mem (soft : σ.Soft k) :
    k ∈ [Kind.newline, .rightParen, .rightBracket, .rightBrace, .comma, .colon] := by
  rcases soft with rfl | parts
  · exact List.mem_cons_self
  · obtain ⟨stack, role⟩ := σ
    cases stack with
    | nil => cases parts
    | cons b stack =>
      have found : (k = .rightParen ∨ k = .rightBracket ∨ k = .rightBrace ∨ k = .comma) ∨
          b = .brace ∧ k = .colon := by simpa [Setting.parts] using parts
      simp only [List.mem_cons, List.not_mem_nil, or_false]
      tauto

/-- What an item starts with is none of these. -/
theorem Setting.Soft.ne {j : Kind} (soft : σ.Soft k)
    (hard : j ∉ [Kind.newline, .rightParen, .rightBracket, .rightBrace, .comma, .colon]) :
    k ≠ j := by
  rintro rfl
  exact hard soft.mem

theorem Setting.Soft.brace (soft : σ.Soft .colon) : σ.stack.head? = some .brace := by
  rcases soft with line | parts
  · cases line
  · obtain ⟨stack, role⟩ := σ
    cases stack with
    | nil => cases parts
    | cons b stack => simpa [Setting.parts] using parts

/-- The next token is the first that is no line break, or a line break. -/
theorem Setting.Soft.head (parts : σ.parts (nextKind ts) = true) :
    ∃ t, ts.head? = some t ∧ σ.Soft t.kind := by
  cases ts with
  | nil =>
    obtain ⟨stack, role⟩ := σ
    cases stack <;> simp [Setting.parts, nextKind] at parts
  | cons t ts =>
    refine ⟨t, rfl, ?_⟩
    rw [nextKind_cons] at parts
    by_cases line : t.kind = .newline
    · exact .inl line
    · rw [if_neg line] at parts
      exact .inr parts

/-- If the next token is a sign, it stands in front of an operand. -/
def Setting.Clear (σ : Setting) (t : Token) : Prop := σ.role = .ends → t.kind ≠ .add ∧ t.kind ≠ .sub

theorem Setting.clear_newline (σ : Setting) (t : Token) : (σ.next .newline).Clear t := by
  intro ends
  rw [next_newline] at ends
  split at ends <;> cases ends

theorem Setting.clear_of_free (free : σ.Free ts) (t : Token) : σ.Clear (ts.head?.getD t) := by
  intro ends
  have parts := free.resolve_left (by rw [ends]; decide)
  obtain ⟨u, first, soft⟩ := Setting.Soft.head parts
  rw [first]
  exact ⟨soft.ne (by decide), soft.ne (by decide)⟩

end Next
end Pseudocode
