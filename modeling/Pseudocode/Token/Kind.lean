/-
# `Token.Kind` — the classes of tokens

The order of the constructors is part of the contract: it numbers the kinds,
and the families of keywords, terminators and comparisons are intervals of it.
-/
namespace Pseudocode

/-- The class of a token. -/
inductive Kind where
  | illegal
  | eof
  | newline
  /-- A run of digits with more than one point. -/
  | invalid
  | identifier
  | int
  | real
  | string
  | boolean
  | none
  | assign
  | eq
  | ne
  | lt
  | le
  | gt
  | ge
  | add
  | sub
  | mul
  | div
  | intDiv
  | mod
  | pow
  | not
  | and
  | or
  | leftParen
  | rightParen
  | leftBracket
  | rightBracket
  | leftBrace
  | rightBrace
  | comma
  | colon
  | dot
  | kwSubroutine
  | kwIf
  | kwThen
  | kwElse
  | kwWhile
  | kwRepeat
  | kwUntil
  | kwFor
  | kwTo
  | kwIn
  | kwStep
  | kwRecord
  | kwConstant
  | kwTry
  | kwCatch
  | kwClass
  | kwImport
  | kwAs
  | kwEnd
  | kwEndSubroutine
  | kwEndIf
  | kwEndWhile
  | kwEndFor
  | kwEndRecord
  | kwEndTry
  | kwEndClass
  | kwOutput
  | kwReturn
  | kwContinue
  | kwBreak
  | kwUserInput
deriving Repr, DecidableEq, Inhabited

namespace Kind

/-- Every kind, in order. -/
def all : List Kind :=
  [illegal, eof, newline, invalid, identifier, int, real, string, boolean, none,
   assign, eq, ne, lt, le, gt, ge, add, sub, mul, div, intDiv, mod, pow, not, and, or,
   leftParen, rightParen, leftBracket, rightBracket, leftBrace, rightBrace,
   comma, colon, dot,
   kwSubroutine, kwIf, kwThen, kwElse, kwWhile, kwRepeat, kwUntil, kwFor, kwTo, kwIn,
   kwStep, kwRecord, kwConstant, kwTry, kwCatch, kwClass, kwImport, kwAs,
   kwEnd, kwEndSubroutine, kwEndIf, kwEndWhile, kwEndFor, kwEndRecord, kwEndTry,
   kwEndClass, kwOutput, kwReturn, kwContinue, kwBreak, kwUserInput]

/-- The printed name of a kind. -/
def name : Kind → String
  | illegal => "ILLEGAL"
  | eof => "EOF"
  | newline => "NEWLINE"
  | invalid => "INVALID"
  | identifier => "ID"
  | int => "INT"
  | real => "FLOAT"
  | string => "STRING"
  | boolean => "BOOLEAN"
  | none => "NONE"
  | assign => "ASSIGN"
  | eq => "EQ"
  | ne => "NE"
  | lt => "LT"
  | le => "LE"
  | gt => "GT"
  | ge => "GE"
  | add => "ADD"
  | sub => "SUB"
  | mul => "MUL"
  | div => "DIV"
  | intDiv => "INT_DIV"
  | mod => "MOD"
  | pow => "POW"
  | not => "NOT"
  | and => "AND"
  | or => "OR"
  | leftParen => "("
  | rightParen => ")"
  | leftBracket => "["
  | rightBracket => "]"
  | leftBrace => "\x7b"
  | rightBrace => "\x7d"
  | comma => ","
  | colon => ":"
  | dot => "."
  | kwSubroutine => "SUBROUTINE"
  | kwIf => "IF"
  | kwThen => "THEN"
  | kwElse => "ELSE"
  | kwWhile => "WHILE"
  | kwRepeat => "REPEAT"
  | kwUntil => "UNTIL"
  | kwFor => "FOR"
  | kwTo => "TO"
  | kwIn => "IN"
  | kwStep => "STEP"
  | kwRecord => "RECORD"
  | kwConstant => "CONSTANT"
  | kwTry => "TRY"
  | kwCatch => "CATCH"
  | kwClass => "CLASS"
  | kwImport => "IMPORT"
  | kwAs => "AS"
  | kwEnd => "END"
  | kwEndSubroutine => "ENDSUBROUTINE"
  | kwEndIf => "ENDIF"
  | kwEndWhile => "ENDWHILE"
  | kwEndFor => "ENDFOR"
  | kwEndRecord => "ENDRECORD"
  | kwEndTry => "ENDTRY"
  | kwEndClass => "ENDCLASS"
  | kwOutput => "OUTPUT"
  | kwReturn => "RETURN"
  | kwContinue => "CONTINUE"
  | kwBreak => "BREAK"
  | kwUserInput => "USERINPUT"

/-- The number of a kind is its place among the constructors. -/
def number (k : Kind) : Nat := k.ctorIdx

/-- Keywords, block terminators and magic words. -/
def isKeyword (k : Kind) : Bool :=
  kwSubroutine.number ≤ k.number && k.number ≤ kwUserInput.number

/-- The END family. -/
def isTerminator (k : Kind) : Bool :=
  kwEnd.number ≤ k.number && k.number ≤ kwEndClass.number

/-- OUTPUT, RETURN, CONTINUE, BREAK and USERINPUT. -/
def isMagic (k : Kind) : Bool :=
  kwOutput.number ≤ k.number && k.number ≤ kwUserInput.number

/-- The six comparison operators. -/
def isComparison (k : Kind) : Bool :=
  eq.number ≤ k.number && k.number ≤ ge.number

/-- The words that are not identifiers.  Words are read whole before they are
looked up, so `ORDER` stays an identifier while `OR` is an operator. -/
def reserved : List (String × Kind) :=
  [("True", boolean), ("False", boolean), ("None", none),
   ("DIV", intDiv), ("MOD", mod), ("POW", pow), ("NOT", not), ("AND", and), ("OR", or),
   ("SUBROUTINE", kwSubroutine), ("IF", kwIf), ("THEN", kwThen), ("ELSE", kwElse),
   ("WHILE", kwWhile), ("REPEAT", kwRepeat), ("UNTIL", kwUntil), ("FOR", kwFor),
   ("TO", kwTo), ("IN", kwIn), ("STEP", kwStep), ("RECORD", kwRecord),
   ("CONSTANT", kwConstant), ("TRY", kwTry), ("CATCH", kwCatch), ("CLASS", kwClass),
   ("IMPORT", kwImport), ("AS", kwAs), ("END", kwEnd),
   ("ENDSUBROUTINE", kwEndSubroutine), ("ENDIF", kwEndIf), ("ENDWHILE", kwEndWhile),
   ("ENDFOR", kwEndFor), ("ENDRECORD", kwEndRecord), ("ENDTRY", kwEndTry),
   ("ENDCLASS", kwEndClass), ("OUTPUT", kwOutput), ("RETURN", kwReturn),
   ("CONTINUE", kwContinue), ("BREAK", kwBreak), ("USERINPUT", kwUserInput)]

/-- The kind of a word: its reserved kind, or an identifier. -/
def ofWord (word : String) : Kind := (reserved.lookup word).getD identifier

theorem ofWord_mem (word : String) : ofWord word ∈ identifier :: reserved.map Prod.snd := by
  unfold ofWord
  cases found : reserved.lookup word with
  | none => exact List.mem_cons_self
  | some k =>
    obtain ⟨before, after, split, -⟩ := List.lookup_eq_some_iff.mp found
    refine List.mem_cons_of_mem _ (List.mem_map.mpr ⟨(word, k), ?_, rfl⟩)
    simp [split]

/-- The kind with a given number, if there is one. -/
def ofNumber? (n : Nat) : Option Kind := all[n]?

/-- The printed name of a kind given by number; a number that belongs to no
kind is shown as such. -/
def nameOfNumber (n : Int) : String :=
  match n with
  | .ofNat m => ((ofNumber? m).map name).getD s!"Kind({m})"
  | .negSucc _ => s!"Kind({n})"

end Kind

end Pseudocode
