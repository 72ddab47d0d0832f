import Pseudocode.Grammar.Expr
import Pseudocode.Token.Scan
/-
# `Proofs.Printing.Tree` — program trees up to spans, and the well-formed ones

Two trees are equal up to spans when `spanless` sends them to the same tree.

A tree is well formed if its nodes are `shaped`, one by one, as the grammar
shapes them, and if there is no real literal in it.  `Block.all` asks a
question of every expression and every statement of a tree; both conditions
are instances of it.
-/
namespace Pseudocode

/-! ## Up to spans -/

mutual

/-- The expression without its spans. -/
def Expr.spanless : Expr → Expr
  | .var _ name chain => .var default name (chainSpanless chain)
  | .item _ base chain => .item default base.spanless (chainSpanless chain)
  | .call _ callee args => .call default callee.spanless (exprsSpanless args)
  | .binary _ op left right => .binary default op left.spanless right.spanless
  | .unary _ op operand => .unary default op operand.spanless
  | .magic _ word args => .magic default word (exprsSpanless args)
  | .int _ value => .int default value
  | .real _ value => .real default value
  | .string _ value => .string default value
  | .bool _ value => .bool default value
  | .none _ => .none default
  | .array _ elements => .array default (exprsSpanless elements)
  | .dict _ entries => .dict default (entriesSpanless entries)

def exprsSpanless : List Expr → List Expr
  | [] => []
  | e :: rest => e.spanless :: exprsSpanless rest

def chainSpanless : List Index → List Index
  | [] => []
  | .subscript _ key :: rest => .subscript default key.spanless :: chainSpanless rest
  | .property _ name :: rest => .property default name :: chainSpanless rest

def entriesSpanless : List Entry → List Entry
  | [] => []
  | .mk k v :: rest => .mk k.spanless v.spanless :: entriesSpanless rest

end

attribute [simp] Expr.spanless exprsSpanless chainSpanless entriesSpanless

def Target.spanless (t : Target) : Target := ⟨default, t.name, chainSpanless t.chain⟩

def Assignment.spanless (a : Assignment) : Assignment :=
  ⟨default, a.target.spanless, a.value.spanless, a.constant⟩

def Param.spanless (p : Param) : Param := ⟨default, p.name⟩

mutual

/-- The statement without its spans. -/
def Stmt.spanless : Stmt → Stmt
  | .expr e => .expr e.spanless
  | .assign a => .assign a.spanless
  | .subroutine d => .subroutine d.spanless
  | .branch b => .branch b.spanless
  | .whileLoop _ condition body => .whileLoop default condition.spanless body.spanless
  | .repeatLoop _ body condition => .repeatLoop default body.spanless condition.spanless
  | .forRange _ counter first last step body =>
    .forRange default counter first.spanless last.spanless (step.map Expr.spanless) body.spanless
  | .forEach _ counter iterable body => .forEach default counter iterable.spanless body.spanless
  | .record _ name fields => .record default name fields
  | .classDef _ name statics methods =>
    .classDef default name (statics.map Assignment.spanless) (routinesSpanless methods)
  | .attempt _ body rescue => .attempt default body.spanless rescue.spanless
  | .load _ location nickname => .load default location.spanless nickname

/-- The block without its spans. -/
def Block.spanless : Block → Block
  | .mk _ body => .mk default (stmtsSpanless body)

def stmtsSpanless : List Stmt → List Stmt
  | [] => []
  | s :: rest => s.spanless :: stmtsSpanless rest

def Branch.spanless : Branch → Branch
  | .mk _ condition consequence alternative =>
    .mk default condition.spanless consequence.spanless alternative.spanless

def Otherwise.spanless : Otherwise → Otherwise
  | .absent => .absent
  | .elseIf next => .elseIf next.spanless
  | .elseBlock body => .elseBlock body.spanless

def Routine.spanless : Routine → Routine
  | .mk _ name params body => .mk default name (params.map Param.spanless) body.spanless

def routinesSpanless : List Routine → List Routine
  | [] => []
  | d :: rest => d.spanless :: routinesSpanless rest

end

attribute [simp] Stmt.spanless Block.spanless stmtsSpanless Branch.spanless Otherwise.spanless
  Routine.spanless routinesSpanless

/-! ## Asking every node -/

mutual

/-- Does `p` hold of the expression and of every expression in it? -/
def Expr.all (p : Expr → Bool) : Expr → Bool
  | .var s name chain => p (.var s name chain) && chainAll p chain
  | .item s base chain => p (.item s base chain) && base.all p && chainAll p chain
  | .call s callee args => p (.call s callee args) && callee.all p && exprsAll p args
  | .binary s op left right => p (.binary s op left right) && left.all p && right.all p
  | .unary s op operand => p (.unary s op operand) && operand.all p
  | .magic s word args => p (.magic s word args) && exprsAll p args
  | .int s value => p (.int s value)
  | .real s value => p (.real s value)
  | .string s value => p (.string s value)
  | .bool s value => p (.bool s value)
  | .none s => p (.none s)
  | .array s elements => p (.array s elements) && exprsAll p elements
  | .dict s entries => p (.dict s entries) && entriesAll p entries

def exprsAll (p : Expr → Bool) : List Expr → Bool
  | [] => true
  | e :: rest => e.all p && exprsAll p rest

def chainAll (p : Expr → Bool) : List Index → Bool
  | [] => true
  | .subscript _ key :: rest => key.all p && chainAll p rest
  | .property _ _ :: rest => chainAll p rest

def entriesAll (p : Expr → Bool) : List Entry → Bool
  | [] => true
  | .mk k v :: rest => k.all p && v.all p && entriesAll p rest

end

attribute [simp] Expr.all exprsAll chainAll entriesAll

def Assignment.all (p : Expr → Bool) (a : Assignment) : Bool :=
  chainAll p a.target.chain && a.value.all p

mutual

/-- Does `p` hold of every expression in the statement, and `q` of the
statement and of every statement in it? -/
def Stmt.all (p : Expr → Bool) (q : Stmt → Bool) : Stmt → Bool
  | .expr e => q (.expr e) && e.all p
  | .assign a => q (.assign a) && a.all p
  | .subroutine d => q (.subroutine d) && d.all p q
  | .branch b => q (.branch b) && b.all p q
  | .whileLoop s condition body =>
    q (.whileLoop s condition body) && condition.all p && body.all p q
  | .repeatLoop s body condition =>
    q (.repeatLoop s body condition) && body.all p q && condition.all p
  | .forRange s counter first last step body =>
    q (.forRange s counter first last step body) && first.all p && last.all p &&
      step.all (Expr.all p) && body.all p q
  | .forEach s counter iterable body =>
    q (.forEach s counter iterable body) && iterable.all p && body.all p q
  | .record s name fields => q (.record s name fields)
  | .classDef s name statics methods =>
    q (.classDef s name statics methods) && statics.all (Assignment.all p) &&
      routinesAll p q methods
  | .attempt s body rescue => q (.attempt s body rescue) && body.all p q && rescue.all p q
  | .load s location nickname => q (.load s location nickname) && location.all p

/-- Does `p` hold of every expression of the block, and `q` of every statement? -/
def Block.all (p : Expr → Bool) (q : Stmt → Bool) : Block → Bool
  | .mk _ body => stmtsAll p q body

def stmtsAll (p : Expr → Bool) (q : Stmt → Bool) : List Stmt → Bool
  | [] => true
  | s :: rest => s.all p q && stmtsAll p q rest

def Branch.all (p : Expr → Bool) (q : Stmt → Bool) : Branch → Bool
  | .mk _ condition consequence alternative =>
    condition.all p && consequence.all p q && alternative.all p q

def Otherwise.all (p : Expr → Bool) (q : Stmt → Bool) : Otherwise → Bool
  | .absent => true
  | .elseIf next => next.all p q
  | .elseBlock body => body.all p q

def Routine.all (p : Expr → Bool) (q : Stmt → Bool) : Routine → Bool
  | .mk _ _ _ body => body.all p q

def routinesAll (p : Expr → Bool) (q : Stmt → Bool) : List Routine → Bool
  | [] => true
  | d :: rest => d.all p q && routinesAll p q rest

end

attribute [simp] Stmt.all Block.all stmtsAll Branch.all Otherwise.all Routine.all routinesAll

/-! ## What the grammar asks of a node -/

/-- Is this a word that is not reserved? -/
def isName (s : String) : Bool :=
  match s.toList with
  | [] => false
  | c :: rest =>
    Scan.isWordStart c && rest.all Scan.isWordPart && (Kind.reserved.lookup s).isNone

/-- A property step names a property; a subscript may have any key. -/
def Index.shaped : Index → Bool
  | .subscript _ _ => true
  | .property _ name => isName name

/-- Is this index steps after an expression that is no name? -/
def Expr.isItem : Expr → Bool
  | .item _ _ _ => true
  | _ => false

/-- Does the grammar have this node, whatever its operands are? -/
def Expr.shaped : Expr → Bool
  | .var _ name chain => isName name && chain.all Index.shaped
  | .item _ base chain => !base.isItem && !chain.isEmpty && chain.all Index.shaped
  | .int _ value => 0 ≤ value && value ≤ Grammar.maxInt
  | _ => true

/-- A constant has a plain name. -/
def Assignment.shaped (a : Assignment) : Bool :=
  isName a.target.name && a.target.chain.all Index.shaped &&
    (!a.constant || a.target.chain.isEmpty)

/-- A static field of a class is a variable with a plain name. -/
def Assignment.isStatic (a : Assignment) : Bool :=
  isName a.target.name && !a.constant && a.target.chain.isEmpty

def Routine.shaped (d : Routine) : Bool :=
  isName d.name && d.params.all fun p => isName p.name

/-- Does the grammar have this statement, whatever its parts are? -/
def Stmt.shaped : Stmt → Bool
  | .assign a => a.shaped
  | .subroutine d => d.shaped
  | .forRange _ counter _ _ _ _ => isName counter
  | .forEach _ counter _ _ => isName counter
  | .record _ name fields => isName name && fields.all isName
  | .classDef _ name statics methods =>
    isName name && statics.all Assignment.isStatic && methods.all Routine.shaped
  | _ => true

/-- Is this anything but a real literal? -/
def Expr.exact : Expr → Bool
  | .real _ _ => false
  | _ => true

/-! ## Well-formed programs -/

/-- Every node is one of the grammar. -/
def Block.Grammatical (b : Block) : Prop := b.all Expr.shaped Stmt.shaped

/-- There is no real literal in the program. -/
def Block.RealFree (b : Block) : Prop := b.all Expr.exact (fun _ => true)

/-- A program that can be written down without loss. -/
structure Block.WellFormed (b : Block) : Prop where
  grammatical : b.Grammatical
  realFree : b.RealFree

instance (b : Block) : Decidable b.Grammatical := inferInstanceAs (Decidable (_ = true))

instance (b : Block) : Decidable b.RealFree := inferInstanceAs (Decidable (_ = true))

instance (b : Block) : Decidable b.WellFormed :=
  decidable_of_iff (b.Grammatical ∧ b.RealFree)
    ⟨fun h => ⟨h.1, h.2⟩, fun h => ⟨h.grammatical, h.realFree⟩⟩

/-! ## Names and words -/

/-- No reserved word has the kind of a name. -/
theorem ofWord_eq_identifier {s : String} :
    Kind.ofWord s = .identifier ↔ Kind.reserved.lookup s = none := by
  constructor
  · intro h
    cases found : Kind.reserved.lookup s with
    | none => rfl
    | some k =>
      have kinds : ∀ pair ∈ Kind.reserved, pair.2 ≠ .identifier := by decide
      obtain ⟨before, after, split, -⟩ := List.lookup_eq_some_iff.mp found
      have same : k = .identifier := by simpa [Kind.ofWord, found] using h
      exact absurd same (kinds (s, k) (by simp [split]))
  · intro h
    simp [Kind.ofWord, h]

theorem isName_iff {s : String} :
    isName s = true ↔ ∃ c rest, s.toList = c :: rest ∧ Scan.isWordStart c = true ∧
      rest.all Scan.isWordPart = true ∧ Kind.ofWord s = .identifier := by
  unfold isName
  rw [ofWord_eq_identifier]
  cases s.toList with
  | nil => simp
  | cons c rest =>
    constructor
    · intro h
      simp only [Bool.and_eq_true, Option.isNone_iff_eq_none] at h
      exact ⟨c, rest, rfl, h.1.1, h.1.2, h.2⟩
    · rintro ⟨_, _, ⟨⟩, hstart, hparts, hfree⟩
      simp only [Bool.and_eq_true, Option.isNone_iff_eq_none]
      exact ⟨⟨hstart, hparts⟩, hfree⟩

end Pseudocode
