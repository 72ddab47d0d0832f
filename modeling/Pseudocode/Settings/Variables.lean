import Pseudocode.Text.Bytes
import Pseudocode.Text.Escaped
import Pseudocode.Value.Table
/-
# `Settings.Variables` — variables from a text

Lines of the form `NAME=value` or `NAME: value`, with comments and quotes.  A
value may refer to variables above it.
-/
namespace Pseudocode.Variables

/-- Why a text is no list of variables. -/
inductive Misread where
  /-- A byte that no name has, as a character, and the text from the name on. -/
  | inName (c : Char) (near : String)
  /-- The line of a quote that is not closed. -/
  | unclosed (line : String)
  /-- Nothing where a name should be. -/
  | noName
deriving Repr, DecidableEq

/-- The sentence about a text that is no list of variables. -/
def Misread.message : Misread → String
  | inName c near =>
    let shown := Text.escaped (String.ofList [c])
    s!"unexpected character {shown} in variable name near {Text.escaped near}"
  | unclosed line => "unterminated quoted value " ++ line
  | noName => "zero length string"

/-- White space within a line. -/
def isSpace (c : Char) : Bool :=
  c = ' ' || c = '\t' || c = '\x0b' || c = '\x0c' || c = '\r' || c = '\u0085' || c = '\u00A0'

/-- What follows a word at the start of a text. -/
def afterWord? : List Char → List Char → Option (List Char)
  | [], cs => some cs
  | _ :: _, [] => none
  | w :: ws, c :: cs => if w = c then afterWord? ws cs else none

/-! ## Statements -/

/-- The next statement, after white space and at most `n` comments. -/
def nextStatement : (n : Nat) → List Char → List Char
  | 0, cs => cs
  | n + 1, cs =>
    match cs.dropWhile Text.isBlank with
    | '#' :: rest => nextStatement n (rest.dropWhile (· != '\n'))
    | cs => cs

/-- A statement without the word `export` in front. -/
def dropExport (cs : List Char) : List Char :=
  match afterWord? "export".toList cs with
  | some rest => if (rest.head?.map isSpace).getD false then rest.dropWhile isSpace else cs
  | none => cs

/-- The bytes that are letters or numbers when each stands for the character
with its number, and the two of them that are blanks. -/
def isNameByte (b : Nat) : Bool :=
  (Char.ofNat b).isAlphanum || b = 0x5F || b = 0x2E || isSpace (Char.ofNat b)
    || [0xAA, 0xB2, 0xB3, 0xB5, 0xB9, 0xBA, 0xBC, 0xBD, 0xBE].contains b
    || (0xC0 ≤ b && b != 0xD7 && b != 0xF7)

/-- The first byte of a character that cannot be part of a name.  Names are
checked byte by byte. -/
def strayByte? (c : Char) : Option Char :=
  ((String.utf8EncodeChar c).find? fun b => !isNameByte b.toNat).map fun b => Char.ofNat b.toNat

/-- The name of a statement and what follows its mark; `near` is the whole
statement, and `done` the name so far, last character first.  A text without a
mark has an empty name. -/
def splitName (near : List Char) : (done rest : List Char) →
    Except Misread (List Char × List Char)
  | _, [] => .ok ([], near)
  | done, c :: rest =>
    if c = '=' || c = ':' then .ok (done.reverse, rest)
    else
      match strayByte? c with
      | none => splitName near (c :: done) rest
      | some b => .error (.inName b (String.ofList near))

/-! ## Values -/

/-- Can a character be part of the name of a variable in a value? -/
def isReferenceChar (c : Char) : Bool := c.isUpper || c.isDigit || c = '_'

/-- What follows a dollar sign: an opening bracket, an opening brace, a name and
a closing brace, each of which may be missing. -/
structure Reference where
  bracket : Bool
  brace : Bool
  name : List Char
  closing : Bool
  rest : List Char

/-- Reads what follows a dollar sign. -/
def reference (cs : List Char) : Reference :=
  let (bracket, cs) := if cs.head? = some '(' then (true, cs.drop 1) else (false, cs)
  let (brace, cs) := if cs.head? = some '\x7b' then (true, cs.drop 1) else (false, cs)
  let name := cs.takeWhile isReferenceChar
  let cs := cs.dropWhile isReferenceChar
  let closing := cs.head? = some '\x7d'
  ⟨bracket, brace, name, closing, if closing then cs.drop 1 else cs⟩

/-- The text of a reference as it stands. -/
def Reference.text (r : Reference) : List Char :=
  '$' :: ((if r.bracket then ['('] else []) ++ (if r.brace then ['\x7b'] else []) ++ r.name
    ++ (if r.closing then ['\x7d'] else []))

/-- A value with its references replaced, for at most `n` steps.  A backslash
keeps the dollar sign after it. -/
def expand (vars : Table String) : (n : Nat) → List Char → List Char
  | 0, cs => cs
  | _ + 1, [] => []
  | n + 1, '\\' :: '$' :: cs =>
    let r := reference cs
    r.text ++ expand vars n r.rest
  | n + 1, '$' :: cs =>
    let r := reference cs
    let here :=
      if r.name.isEmpty then r.text else ((vars.get? (String.ofList r.name)).getD "").toList
    here ++ expand vars n r.rest
  | n + 1, c :: cs => c :: expand vars n cs

/-- A value with its references replaced. -/
def expandAll (vars : Table String) (cs : List Char) : String :=
  String.ofList (expand vars (cs.length + 1) cs)

/-- Where the last comment of a line starts: at a number sign after white space.
`i` is the place of the text. -/
def lastComment? (i : Nat) (afterSpace : Bool) : List Char → Option Nat
  | [] => none
  | c :: rest =>
    match lastComment? (i + 1) (isSpace c) rest with
    | some k => some k
    | none => if c = '#' && afterSpace then some i else none

/-- The part of a line in front of its last comment. -/
def dropComment (line : List Char) : List Char :=
  match lastComment? 0 false line with
  | some k => line.take k
  | none => line

/-- Line breaks written as escapes become line breaks; any other escaped
character but the dollar sign stands for itself. -/
def unescape : List Char → List Char
  | '\\' :: 'n' :: rest => '\n' :: unescape rest
  | '\\' :: 'r' :: rest => '\r' :: unescape rest
  | '\\' :: '$' :: rest => '\\' :: '$' :: unescape rest
  | '\\' :: c :: rest => c :: unescape rest
  | c :: rest => c :: unescape rest
  | [] => []

/-- The inside of quotes and what follows; a quote after a backslash does not
close.  `none` if none does. -/
def quoted? (quote before : Char) : List Char → Option (List Char × List Char)
  | [] => none
  | c :: rest =>
    if c = quote && before != '\\' then some ([], rest)
    else (quoted? quote c rest).map fun (cs, rest) => (c :: cs, rest)

/-- Characters without quotes at either end. -/
def trimQuotes (quote : Char) (cs : List Char) : List Char := Text.trimBy (· = quote) cs

/-- Ends a line. -/
def isLineEnd (c : Char) : Bool := c = '\n' || c = '\r'

/-- A value and what follows. -/
def value (vars : Table String) (cs : List Char) : Except Misread (String × List Char) :=
  match cs with
  | '"' :: rest =>
    match quoted? '"' '"' rest with
    | some (inside, rest) => .ok (expandAll vars (unescape (trimQuotes '"' inside)), rest)
    | none => .error (.unclosed (String.ofList (cs.takeWhile (· != '\n'))))
  | '\'' :: rest =>
    match quoted? '\'' '\'' rest with
    | some (inside, rest) => .ok (String.ofList (trimQuotes '\'' inside), rest)
    | none => .error (.unclosed (String.ofList (cs.takeWhile (· != '\n'))))
  | cs =>
    let line := cs.takeWhile (!isLineEnd ·)
    .ok (expandAll vars (Text.trimBy isSpace (dropComment line)), cs.dropWhile (!isLineEnd ·))

/-! ## Texts -/

/-- Reads at most `n` statements. -/
def statements : (n : Nat) → Table String → List Char → Except Misread (Table String)
  | 0, vars, _ => .ok vars
  | n + 1, vars, cs =>
    match nextStatement (cs.length + 1) cs with
    | [] => .ok vars
    | cs => do
      let here := dropExport cs
      if here.isEmpty then throw .noName
      let (name, rest) ← splitName here [] here
      let (v, rest) ← value vars (rest.dropWhile isSpace)
      statements n (vars.put (Text.trim (String.ofList name)) v) rest

/-- The variables of a text; the last of several with one name counts. -/
def ofText (s : String) : Except Misread (Table String) :=
  let cs := (s.replace "\r\n" "\n").toList
  statements (cs.length + 1) [] cs

end Pseudocode.Variables
