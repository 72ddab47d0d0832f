import Pseudocode.Grammar.Expr
/-
# `Grammar.Stmt` — statements and blocks

Statements stand on lines of their own.  One that starts with a name is an
assignment if an arrow follows its target, and is read again as an expression
otherwise.
-/
namespace Pseudocode.Grammar

/-! ## Assignments -/

/-- The value after the arrow of an assignment, with line breaks before it. -/
def assigned (r : Rules) : Parser Expr := do
  discard advance
  skipNewlines
  r.expr 0

/-- A constant declaration. -/
def constant (r : Rules) (n : Nat) : Parser Stmt := do
  let word ← advance
  let left ← target r n
  skipAnnotation
  if !(← next .assign) then unexpected .constantArrow
  let value ← assigned r
  if !left.chain.isEmpty then refuse word .constantTarget
  return .assign ⟨← spanFrom word.span.start, left, value, true⟩

/-- A statement that starts with a name. -/
def named (r : Rules) (n : Nat) : Parser Stmt := do
  let here ← get
  let left ← target r n
  skipAnnotation
  if ← next .assign then
    let value ← assigned r
    return .assign ⟨← spanFrom left.span.start, left, value, false⟩
  else
    set here
    return .expr (← r.expr 0)

/-! ## Choices and loops -/

/-- An `IF` with everything up to the terminator it shares with its `ELSE IF`s. -/
def branch (r : Rules) : Nat → Parser Branch
  | 0 => exhausted
  | n + 1 => do
    let word ← advance
    let condition ← r.expr 0
    skipNewlines
    discard (expect .kwThen)
    let consequence ← r.block [.kwEndIf, .kwElse]
    if ← next .kwElse then
      discard advance
      if ← next .kwIf then
        let more ← branch r n
        return .mk (← spanFrom word.span.start) condition consequence (.elseIf more)
      else
        let body ← r.block [.kwEndIf]
        return .mk (← spanFrom word.span.start) condition consequence (.elseBlock body)
    else return .mk (← spanFrom word.span.start) condition consequence .absent

/-- The same branch, ending where the token taken last ends. -/
def closed : Branch → Parser Branch
  | .mk s c t e => return .mk (← spanFrom s.start) c t e

/-- A whole `IF` statement. -/
def choice (r : Rules) (n : Nat) : Parser Stmt := do
  let b ← branch r n
  expectEnd .kwEndIf
  return .branch (← closed b)

/-- A `WHILE` loop. -/
def whileLoop (r : Rules) : Parser Stmt := do
  let word ← advance
  let condition ← r.expr 0
  let body ← r.block [.kwEndWhile]
  expectEnd .kwEndWhile
  return .whileLoop (← spanFrom word.span.start) condition body

/-- A `REPEAT` loop, which ends with its condition. -/
def repeatLoop (r : Rules) : Parser Stmt := do
  let word ← advance
  let body ← r.block [.kwUntil]
  discard (expect .kwUntil)
  let condition ← r.expr 0
  return .repeatLoop (← spanFrom word.span.start) body condition

/-- The body of a `FOR` loop with its terminator. -/
def forBody (r : Rules) : Parser Block := do
  let body ← r.block [.kwEndFor]
  expectEnd .kwEndFor
  return body

/-- A `FOR` loop over a range or over the elements of a value. -/
def forLoop (r : Rules) : Parser Stmt := do
  let word ← advance
  let name ← expect .identifier
  match ← peekKind with
  | .assign =>
    discard advance
    let first ← r.expr 0
    discard (expect .kwTo)
    let last ← r.expr 0
    let step ←
      if ← next .kwStep then
        discard advance
        pure (some (← r.expr 0))
      else pure none
    let body ← forBody r
    return .forRange (← spanFrom word.span.start) name.lexeme first last step body
  | .kwIn =>
    discard advance
    let iterable ← r.expr 0
    let body ← forBody r
    return .forEach (← spanFrom word.span.start) name.lexeme iterable body
  | _ => unexpected .loopForm

/-! ## Definitions -/

/-- The fields of a record, on lines of their own or between commas. -/
def fields : Nat → Parser (List String)
  | 0 => exhausted
  | n + 1 => do
    if ← nextIn [.kwEndRecord, .kwEnd, .eof] then return []
    let field ← expect .identifier
    skipAnnotation
    if ← next .comma then discard advance
    else if !(← nextIn [.newline, .kwEndRecord, .kwEnd]) then unexpected .endOfField
    skipNewlines
    return field.lexeme :: (← fields n)

/-- A record definition. -/
def record (n : Nat) : Parser Stmt := do
  let word ← advance
  let name ← expect .identifier
  skipNewlines
  let names ← fields n
  expectEnd .kwEndRecord
  return .record (← spanFrom word.span.start) name.lexeme names

/-- `TRY` with its `CATCH`. -/
def attempt (r : Rules) : Parser Stmt := do
  let word ← advance
  let body ← r.block [.kwCatch]
  discard (expect .kwCatch)
  let rescue ← r.block [.kwEndTry]
  expectEnd .kwEndTry
  return .attempt (← spanFrom word.span.start) body rescue

/-- Parameters up to the closing parenthesis. -/
def params : Nat → Parser (List Param)
  | 0 => exhausted
  | n + 1 => do
    if ← next .rightParen then return []
    let name ← expect .identifier
    skipAnnotation
    skipNewlines
    if ← next .comma then
      discard advance
      skipNewlines
      return ⟨name.span, name.lexeme⟩ :: (← params n)
    else return [⟨name.span, name.lexeme⟩]

/-- A parameter list in its parentheses. -/
def paramList (n : Nat) : Parser (List Param) := do
  discard (expect .leftParen)
  skipNewlines
  let ps ← params n
  discard (expect .rightParen)
  return ps

/-- A subroutine definition. -/
def routine (r : Rules) (n : Nat) : Parser Routine := do
  let word ← advance
  let name ← expect .identifier
  let ps ← paramList n
  let body ← r.block [.kwEndSubroutine]
  expectEnd .kwEndSubroutine
  return .mk (← spanFrom word.span.start) name.lexeme ps body

/-- A static field of a class. -/
def static (r : Rules) : Parser Assignment := do
  let name ← advance
  skipAnnotation
  discard (expect .assign)
  let value ← r.expr 0
  return ⟨← spanFrom name.span.start, ⟨name.span, name.lexeme, []⟩, value, false⟩

/-- One member of a class. -/
def member (r : Rules) (n : Nat) : Parser (Assignment ⊕ Routine) := do
  match ← peekKind with
  | .kwSubroutine => return .inr (← routine r n)
  | .identifier => return .inl (← static r)
  | _ => unexpected .classMember

/-- The members of a class, up to its terminator. -/
def members (r : Rules) : Nat → Parser (List (Assignment ⊕ Routine))
  | 0 => exhausted
  | n + 1 => do
    skipNewlines
    if ← nextIn [.kwEndClass, .kwEnd, .eof] then return []
    let m ← member r n
    if !(← nextIn [.newline, .kwEndClass, .kwEnd]) then unexpected .endOfMember
    return m :: (← members r n)

/-- A class definition. -/
def classDef (r : Rules) (n : Nat) : Parser Stmt := do
  let word ← advance
  let name ← expect .identifier
  let ms ← members r n
  expectEnd .kwEndClass
  return .classDef (← spanFrom word.span.start) name.lexeme (ms.filterMap Sum.getLeft?)
    (ms.filterMap Sum.getRight?)

/-- An import, whose alias may be a name or a string. -/
def load (r : Rules) : Parser Stmt := do
  let word ← advance
  let location ← r.expr 0
  if ← next .kwAs then
    discard advance
    if ← nextIn [.identifier, .string] then
      let nickname ← advance
      return .load (← spanFrom word.span.start) location nickname.lexeme
    else unexpected .importAlias
  else return .load (← spanFrom word.span.start) location ""

/-! ## Statements and blocks -/

/-- One statement. -/
def statement (r : Rules) (n : Nat) : Parser Stmt := do
  match ← peekKind with
  | .kwConstant => constant r n
  | .identifier => named r n
  | .kwIf => choice r n
  | .kwWhile => whileLoop r
  | .kwRepeat => repeatLoop r
  | .kwFor => forLoop r
  | .kwRecord => record n
  | .kwTry => attempt r
  | .kwSubroutine => return .subroutine (← routine r n)
  | .kwClass => classDef r n
  | .kwImport => load r
  | _ => return .expr (← r.expr 0)

/-- Does the next token close a block with these closers?  A block without
closers runs to the end of input. -/
def atBlockEnd (closers : List Kind) : Parser Bool := do
  if closers.isEmpty then return false
  nextIn (.kwEnd :: closers)

/-- Is there nothing more in the block? -/
def atStop (closers : List Kind) : Parser Bool := do
  if ← atEnd then return true
  atBlockEnd closers

/-- Statements up to the end of the block. -/
def statements (r : Rules) (closers : List Kind) : Nat → Parser (List Stmt)
  | 0 => exhausted
  | n + 1 => do
    skipNewlines
    if ← atStop closers then return []
    let s ← statement r n
    if ← next .newline then return s :: (← statements r closers n)
    else if ← atStop closers then return [s]
    else unexpected .endOfStatement

/-- A block, up to but without its closer. -/
def block (r : Rules) (n : Nat) (closers : List Kind) : Parser Block := do
  let start := (← peek).span.start
  let body ← statements r closers n
  return .mk (← spanFrom start) body

end Pseudocode.Grammar
