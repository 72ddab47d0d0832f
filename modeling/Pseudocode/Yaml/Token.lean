import Pseudocode.Yaml.Node
import Pseudocode.Yaml.Scalar
/-
# `Yaml.Token` — the tokens of a text

Blocks have no brackets: where one starts and ends follows from the columns.  So
does which scalar is a key, for that shows only at the colon after it.  A
scanner therefore remembers for every bracket that is open the place where a key
may have started, and puts the token for the key in front of it once the colon
is found.  The tokens wait in a queue until it is certain that nothing will be
put in front of the first of them.
-/
namespace Pseudocode.Yaml

/-- The kinds of tokens. -/
inductive TokenKind where
  | textEnd
  | version (minor : Nat)
  | documentStart
  | documentEnd
  | listStart
  | mapStart
  | blockEnd
  | flowListStart
  | flowListEnd
  | flowMapStart
  | flowMapEnd
  | item
  | comma
  | key
  | value
  | same (name : String)
  | anchor (name : String)
  | tag (text : String)
  | scalar (style : Style) (text : String)
deriving Repr, DecidableEq

/-- A token and the line it starts on, counted from zero. -/
structure Token where
  kind : TokenKind
  line : Nat
deriving Repr, DecidableEq

/-- A place where a key may have started. -/
structure PendingKey where
  /-- May it still be a key? -/
  possible : Bool
  /-- Must it be one? -/
  required : Bool
  /-- The number of the token it starts with. -/
  number : Nat
  line : Nat
  column : Nat
  index : Nat

/-- No key. -/
def PendingKey.none : PendingKey := ⟨false, false, 0, 0, 0, 0⟩

/-- A text that is being cut into tokens. -/
structure Scanner where
  place : Place
  /-- The tokens that were found and not taken, the first one first. -/
  queue : List Token
  /-- The number of tokens taken. -/
  taken : Nat
  /-- The column of the innermost block, minus one outside of all. -/
  indent : Int
  /-- The columns of the blocks around it, the innermost first. -/
  indents : List Int
  /-- The pending key outside of all brackets. -/
  outer : PendingKey
  /-- The pending keys inside the open brackets, the innermost first. -/
  inner : List PendingKey
  /-- May a key start here? -/
  keyAllowed : Bool

namespace Scanner

/-- The scanner before a text. -/
def start (cs : List Char) : Scanner :=
  { place := .start cs, queue := [], taken := 0, indent := -1, indents := [],
    outer := .none, inner := [], keyAllowed := true }

/-- Is a bracket open? -/
def inFlow (s : Scanner) : Bool := !s.inner.isEmpty

/-- The pending key of the innermost bracket. -/
def pending (s : Scanner) : PendingKey := s.inner.headD s.outer

/-- Changes the pending key of the innermost bracket. -/
def setPending (k : PendingKey) (s : Scanner) : Scanner :=
  match s.inner with
  | [] => { s with outer := k }
  | _ :: rest => { s with inner := k :: rest }

/-- Adds a token to the end of the queue. -/
def push (kind : TokenKind) (line : Nat) (s : Scanner) : Scanner :=
  { s with queue := s.queue ++ [⟨kind, line⟩] }

/-- Puts a token in front of the one with a number. -/
def insert (number : Nat) (kind : TokenKind) (line : Nat) (s : Scanner) : Scanner :=
  let i := number - s.taken
  { s with queue := s.queue.take i ++ ⟨kind, line⟩ :: s.queue.drop i }

/-- A token of `size` characters. -/
def sign (kind : TokenKind) (size : Nat) (s : Scanner) : Scanner :=
  { s.push kind s.place.line with place := s.place.advance size }

/-- A fault at the place of the scanner. -/
def fault {α : Type} (s : Scanner) (context : Nat) (problem : Problem) : Except Fault α :=
  s.place.fault context problem

/-! ## Blocks -/

/-- The ends of the blocks that stand further in than a column. -/
def unroll (column : Int) (line : Nat) (s : Scanner) : Scanner :=
  let closed := if s.indent ≤ column then 0
    else 1 + (s.indents.takeWhile (column < ·)).length
  if s.inFlow || closed = 0 then s
  else
    { s with
      queue := s.queue ++ List.replicate closed ⟨.blockEnd, line⟩
      indent := (s.indents.drop (closed - 1)).headD (-1)
      indents := s.indents.drop closed }

/-- The start of a block at a column, in front of the token with a number or at the
end of the queue, unless such a block is open. -/
def roll (column : Nat) (number : Option Nat) (kind : TokenKind) (line : Nat) (s : Scanner) :
    Except Fault Scanner := do
  if s.inFlow || (column : Int) ≤ s.indent then return s
  let s := { s with indents := s.indent :: s.indents, indent := column }
  if 10000 < s.indents.length then s.fault line .tooDeep
  match number with
  | some n => return s.insert n kind line
  | none => return s.push kind line

/-! ## Keys -/

/-- Forgets the pending key.  One that must be a key has no colon. -/
def dropKey (s : Scanner) : Except Fault Scanner :=
  let k := s.pending
  if k.possible && k.required then s.fault k.line .noColon
  else .ok (s.setPending { k with possible := false })

/-- Remembers that a key may start here.  It must be one if it stands in the
column of the block. -/
def saveKey (s : Scanner) : Except Fault Scanner := do
  if !s.keyAllowed then return s
  let s' ← s.dropKey
  let p := s.place
  return s'.setPending
    ⟨true, !s.inFlow && s.indent = p.column, s.taken + s.queue.length, p.line, p.column, p.index⟩

/-- Is a pending key on a line above, or more than 1024 characters back? -/
def isStale (s : Scanner) (k : PendingKey) : Bool :=
  k.line < s.place.line || k.index + 1024 < s.place.index

/-- The scanner after what may start a key, after which none starts. -/
def afterKeyStart (s : Scanner) : Except Fault Scanner := do
  let s ← s.saveKey
  return { s with keyAllowed := false }

/-! ## Blanks and comments -/

/-- The scanner at the next content, after at most `n` lines.  A tab may not
stand where a key may start. -/
def skipBlanks : (n : Nat) → Scanner → Scanner
  | 0, s => s
  | n + 1, s =>
    let p := s.place
    let p := if p.column = 0 && p.rest.head? = some '\uFEFF' then p.next else p
    let p := p.skipWhile fun c => c = ' ' || (c = '\t' && (s.inFlow || !s.keyAllowed))
    let p := if p.rest.head? = some '#' then p.skipLine else p
    if startsWith isBreak p.rest then
      skipBlanks n { s with place := p.nextLine, keyAllowed := s.keyAllowed || !s.inFlow }
    else { s with place := p }

/-- The scanner after a comment that ends the line. -/
def skipComment (s : Scanner) : Scanner :=
  let p := s.place.skipWhile isBlank
  if p.rest.head? = some '#' then { s with place := p.skipLine } else s

/-! ## Tokens -/

/-- The end of the text.  It counts as the start of a line. -/
def textEnd (s : Scanner) : Except Fault Scanner := do
  let p := s.place
  let p := if p.column = 0 then p else { p with line := p.line + 1, column := 0 }
  let s ← ({ s with place := p }.unroll (-1) p.line).dropKey
  return { s with keyAllowed := false }.push .textEnd p.line

/-- A mark between documents. -/
def documentMark (kind : TokenKind) (s : Scanner) : Except Fault Scanner := do
  let s ← (s.unroll (-1) s.place.line).dropKey
  return { s with keyAllowed := false }.sign kind 3

/-- A directive: only the version of the language is known. -/
def directive (s : Scanner) : Except Fault Scanner := do
  let s ← (s.unroll (-1) s.place.line).dropKey
  let line := s.place.line
  match s.place.rest with
  | '%' :: 'Y' :: 'A' :: 'M' :: 'L' :: ' ' :: '1' :: '.' :: c :: rest =>
    let p := (s.place.advance 9).skipWhile isBlank
    if !c.isDigit || !(blankNext rest) then
      ({ s with place := p } : Scanner).fault line .badDirective
    let p := if p.rest.head? = some '#' then p.skipLine else p
    if !breakNext p.rest then ({ s with place := p } : Scanner).fault line .badDirective
    return { s with keyAllowed := false, place := p }.push (.version (c.toNat - '0'.toNat)) line
  | _ => s.fault line .unknownDirective

/-- An opening bracket. -/
def openBracket (kind : TokenKind) (s : Scanner) : Except Fault Scanner := do
  let s ← s.saveKey
  let s := { s with inner := .none :: s.inner, keyAllowed := true }
  if 10000 < s.inner.length then s.fault s.place.line .tooDeep
  return s.sign kind 1

/-- A closing bracket. -/
def closeBracket (kind : TokenKind) (s : Scanner) : Except Fault Scanner := do
  let s ← s.dropKey
  return { s with inner := s.inner.drop 1, keyAllowed := false }.sign kind 1

/-- A comma between items. -/
def comma (s : Scanner) : Except Fault Scanner := do
  let s ← s.dropKey
  return { s with keyAllowed := true }.sign .comma 1

/-- The dash of an item of a block. -/
def item (s : Scanner) : Except Fault Scanner := do
  let p := s.place
  if !s.inFlow && !s.keyAllowed then s.fault p.line .itemNotAllowed
  let s ← s.roll p.column none .listStart p.line
  let s ← s.dropKey
  return { s with keyAllowed := true }.sign .item 1

/-- The question mark of a key. -/
def key (s : Scanner) : Except Fault Scanner := do
  let p := s.place
  if !s.inFlow && !s.keyAllowed then s.fault p.line .keyNotAllowed
  let s ← s.roll p.column none .mapStart p.line
  let s ← s.dropKey
  return { s with keyAllowed := !s.inFlow }.sign .key 1

/-- The colon of a value.  If a key is pending it is one now. -/
def value (s : Scanner) : Except Fault Scanner := do
  let k := s.pending
  if k.possible && s.isStale k && k.required then s.fault k.line .noColon
  if k.possible && !s.isStale k then
    let s := s.insert k.number .key k.line
    let s ← s.roll k.column (some k.number) .mapStart k.line
    let s := s.setPending { k with possible := false }
    return { s with keyAllowed := false }.sign .value 1
  else
    let p := s.place
    let s := s.setPending { k with possible := false }
    if !s.inFlow && !s.keyAllowed then s.fault p.line .valueNotAllowed
    let s ← s.roll p.column none .mapStart p.line
    return { s with keyAllowed := !s.inFlow }.sign .value 1

/-- Can a character be part of the name of a node? -/
def isNameChar (c : Char) : Bool := c.isAlphanum || c = '_' || c = '-'

/-- Can a character follow the name of a node? -/
def endsName (cs : List Char) : Bool :=
  blankNext cs || startsWith (fun c => "?:,]\x7d%@\x60".toList.contains c) cs

/-- The name of a node, after its sign. -/
def name (kind : String → TokenKind) (s : Scanner) : Except Fault Scanner := do
  let s ← s.afterKeyStart
  let p := s.place
  let cs := (p.rest.drop 1).takeWhile isNameChar
  let q := p.advance (cs.length + 1)
  if cs.isEmpty || !endsName q.rest then ({ s with place := q } : Scanner).fault p.line .badName
  return { s.push (kind (String.ofList cs)) p.line with place := q }

/-- The tag of a node. -/
def tag (s : Scanner) : Except Fault Scanner := do
  let s ← s.afterKeyStart
  let p := s.place
  let cs := p.rest.takeWhile fun c => !(isBlank c || isBreak c || isFlowMark c)
  let q := p.advance cs.length
  if !blankNext q.rest then ({ s with place := q } : Scanner).fault p.line .badTagEnd
  return { s.push (.tag (String.ofList cs)) p.line with place := q }

/-- A scalar in a block of its own. -/
def block (literal : Bool) (s : Scanner) : Except Fault Scanner := do
  let s ← s.dropKey
  let (cs, q) ← blockScalar literal s.indent s.place
  return { s.push (.scalar .quoted (String.ofList cs)) s.place.line with
    place := q, keyAllowed := true }

/-- A scalar between quotes. -/
def quoted (quote : Char) (s : Scanner) : Except Fault Scanner := do
  let s ← s.afterKeyStart
  let (cs, q) ← quotedScalar quote s.place
  return { s.push (.scalar .quoted (String.ofList cs)) s.place.line with place := q }

/-- A plain scalar. -/
def plain (s : Scanner) : Except Fault Scanner := do
  let s ← s.afterKeyStart
  let (cs, broken, q) ← plainScalar s.inFlow s.indent s.place
  return { s.push (.scalar .plain (String.ofList cs)) s.place.line with
    place := q, keyAllowed := broken }

/-- The signs that no plain scalar starts with. -/
def isSign (c : Char) : Bool := "-?:,[]\x7b\x7d#&*!|>'\"%@\x60".toList.contains c

/-- Can a plain scalar start with this text? -/
def startsPlain (flow : Bool) : List Char → Bool
  | [] => false
  | c :: rest =>
    !(isBlank c || isBreak c || isSign c)
      || (c = '-' && !startsWith isBlank rest)
      || (!flow && (c = '?' || c = ':') && !blankNext rest)

/-- The token that starts with a character of the text. -/
def content (c : Char) (rest : List Char) (s : Scanner) : Except Fault Scanner :=
  let alone := s.inFlow || blankNext rest
  match c with
  | '[' => s.openBracket .flowListStart
  | '\x7b' => s.openBracket .flowMapStart
  | ']' => s.closeBracket .flowListEnd
  | '\x7d' => s.closeBracket .flowMapEnd
  | ',' => s.comma
  | '*' => s.name .same
  | '&' => s.name .anchor
  | '!' => s.tag
  | '\'' | '"' => s.quoted c
  | _ =>
    if c = '-' && blankNext rest then s.item
    else if c = '?' && alone then s.key
    else if c = ':' && alone then s.value
    else if (c = '|' || c = '>') && !s.inFlow then s.block (c = '|')
    else if startsPlain s.inFlow (c :: rest) then s.plain
    else s.fault s.place.line .noToken

/-- Does the queue end with the dash of an item?  A comment after it is left for
later. -/
def endsWithItem (s : Scanner) : Bool := (s.queue.getLast?.map (·.kind)) = some .item

/-- Finds the next token, and what goes with it. -/
def fetch (s : Scanner) : Except Fault Scanner := do
  let before := s.place.line
  let s := s.skipBlanks (s.place.rest.length + 1)
  let s := s.unroll s.place.column before
  match s.place.rest with
  | [] => s.textEnd
  | c :: rest =>
    if s.place.column = 0 && c = '%' then s.directive
    else if s.place.atMark '-' then s.documentMark .documentStart
    else if s.place.atMark '.' then s.documentMark .documentEnd
    else
      let s ← s.content c rest
      if s.endsWithItem || s.place.column = 0 then return s else return s.skipComment

/-! ## The queue -/

/-- The pending keys, and where they are. -/
def keyAt? (number : Nat) (s : Scanner) : Option PendingKey :=
  (s.outer :: s.inner).find? fun k => k.possible && k.number = number

/-- Forgets the pending key that starts with a token. -/
def forget (number : Nat) (s : Scanner) : Scanner :=
  let drop (k : PendingKey) := if k.number = number then { k with possible := false } else k
  { s with outer := drop s.outer, inner := s.inner.map drop }

/-- Finds tokens until three are waiting and the first of them is no pending key,
in at most `n` steps. -/
def fill : (n : Nat) → Scanner → Except Fault Scanner
  | 0, s => .ok s
  | n + 1, s => do
    if s.queue.length < 3 then fill n (← s.fetch)
    else
      match s.keyAt? s.taken with
      | none => return s
      | some k =>
        if !s.isStale k then fill n (← s.fetch)
        else if k.required then s.fault k.line .noColon
        else return s.forget k.number

/-- The next token, which is not taken. -/
def peek (s : Scanner) : Except Fault (Token × Scanner) := do
  let s ← s.fill (s.place.rest.length + 4)
  return (s.queue.headD ⟨.textEnd, s.place.line⟩, s)

/-- Takes the next token. -/
def skip (s : Scanner) : Scanner := { s with queue := s.queue.drop 1, taken := s.taken + 1 }

end Scanner

end Pseudocode.Yaml
