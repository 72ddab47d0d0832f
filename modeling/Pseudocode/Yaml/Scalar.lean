import Pseudocode.Yaml.Place
/-
# `Yaml.Scalar` — the text of scalars

Scalars are plain, between quotes, or in a block of their own below a header.
Each reader returns the text it read and the place after it.
-/
namespace Pseudocode.Yaml

/-! ## Quoted -/

/-- The character of an escape letter. -/
def escapeChar? : Char → Option Char
  | '0' => some '\x00'
  | 'a' => some '\x07'
  | 'b' => some '\x08'
  | 't' | '\t' => some '\t'
  | 'n' => some '\n'
  | 'v' => some '\x0b'
  | 'f' => some '\x0c'
  | 'r' => some '\r'
  | 'e' => some '\x1b'
  | ' ' => some ' '
  | '"' => some '"'
  | '\'' => some '\''
  | '\\' => some '\\'
  | 'N' => some '\u0085'
  | '_' => some '\u00A0'
  | 'L' => some '\u2028'
  | 'P' => some '\u2029'
  | _ => none

/-- The number of digits after an escape letter that wants a code. -/
def codeLength? : Char → Option Nat
  | 'x' => some 2
  | 'u' => some 4
  | 'U' => some 8
  | _ => none

/-- The value of a hexadecimal digit. -/
def hexValue? (c : Char) : Option Nat :=
  if '0' ≤ c && c ≤ '9' then some (c.toNat - '0'.toNat)
  else if 'a' ≤ c && c ≤ 'f' then some (c.toNat - 'a'.toNat + 10)
  else if 'A' ≤ c && c ≤ 'F' then some (c.toNat - 'A'.toNat + 10)
  else none

/-- The character that `count` hexadecimal digits at a place name. -/
def codeAt (context count : Nat) (p : Place) : Except Fault Char :=
  match (p.rest.take count).mapM hexValue? with
  | some ds =>
    let code := ds.foldl (fun n d => n * 16 + d) 0
    if ds.length < count then p.fault context .badHex
    else if code.isValidChar then .ok (Char.ofNat code)
    else p.fault context .badCode
  | none => p.fault context .badHex

/-- The character that the escape after a backslash stands for. -/
def escapeAt (context : Nat) (letter : Char) (p : Place) : Except Fault (Char × Place) :=
  match escapeChar? letter, codeLength? letter with
  | some c, _ => .ok (c, p.advance 2)
  | none, some count => do
    let c ← codeAt context count (p.advance 2)
    return (c, p.advance (2 + count))
  | none, none => p.fault context .unknownEscape

/-- A word of a scalar between quotes: what comes before a blank, a line break or
the quote.  The last part says whether it ends with an escaped line break. -/
def quotedWord (quote : Char) (context : Nat) : (n : Nat) → Place →
    Except Fault (List Char × Bool × Place)
  | 0, p => .ok ([], false, p)
  | n + 1, p => do
    let go (c : Char) (q : Place) : Except Fault (List Char × Bool × Place) := do
      let (cs, broken, r) ← quotedWord quote context n q
      return (c :: cs, broken, r)
    match p.rest with
    | '\'' :: '\'' :: _ =>
      if quote = '\'' then go '\'' (p.advance 2) else go '\'' p.next
    | '\\' :: rest =>
      if quote = '\'' then go '\\' p.next
      else if startsWith isBreak rest then return ([], true, p.next.nextLine)
      else
        let (c, q) ← escapeAt context (rest.headD '\x00') p
        go c q
    | c :: _ =>
      if c = quote || isBlank c || isBreak c then return ([], false, p) else go c p.next
    | [] => return ([], false, p)

/-- The inside of a scalar between quotes, after `done`, and the place after the
closing quote. -/
def quotedText (quote : Char) (context : Nat) : (n : Nat) → (done : List Char) → Place →
    Except Fault (List Char × Place)
  | 0, done, p => .ok (done, p)
  | n + 1, done, p => do
    if p.atDocumentMark then p.fault context .documentMark
    if p.rest.isEmpty then p.fault context .endOfText
    let (word, broken, q) ← quotedWord quote context (p.rest.length + 1) p
    if q.rest.head? = some quote then return (done ++ word, q.next)
    let gap := if broken then Gap.afterBreak else Gap.empty
    let (gap, r) ← gap.read context 0 (q.rest.length + 1) q
    quotedText quote context n (done ++ word ++ gap.text) r

/-- A scalar between quotes. -/
def quotedScalar (quote : Char) (p : Place) : Except Fault (List Char × Place) :=
  quotedText quote p.line (p.rest.length + 1) [] p.next

/-! ## Plain -/

/-- The characters that brackets and items are made of. -/
def isFlowMark (c : Char) : Bool :=
  c = ',' || c = '[' || c = ']' || c = '\x7b' || c = '\x7d'

/-- Does a plain scalar end before this text?  It ends at a colon before a blank,
and between brackets at their marks and at a question mark before a space. -/
def endsPlain (flow : Bool) : List Char → Bool
  | [] => true
  | c :: rest =>
    isBlank c || isBreak c || (c = ':' && blankNext rest)
      || (flow && (isFlowMark c || (c = '?' && (breakNext rest || rest.head? = some ' '))))

/-- The length of a word of a plain scalar. -/
def plainLength (flow : Bool) : List Char → Nat
  | [] => 0
  | c :: rest => if endsPlain flow (c :: rest) then 0 else plainLength flow rest + 1

/-- A plain scalar after `done` and a gap.  Its further lines stand at least at the
column `indent`, unless it is between brackets.  The last part but one says
whether a line break came after it. -/
def plainText (flow : Bool) (indent : Int) (context : Nat) : (n : Nat) → (done : List Char) →
    Gap → Place → Except Fault (List Char × Bool × Place)
  | 0, done, gap, p => .ok (done, gap.broken, p)
  | n + 1, done, gap, p => do
    if p.atDocumentMark || p.rest.head? = some '#' then return (done, gap.broken, p)
    let size := plainLength flow p.rest
    let q := p.advance size
    let done := if size = 0 then done else done ++ gap.text ++ p.rest.take size
    let broken := size = 0 && gap.broken
    if !startsWith (fun c => isBlank c || isBreak c) q.rest then return (done, broken, q)
    let (gap, r) ← Gap.empty.read context indent (q.rest.length + 1) q
    if !flow && (r.column : Int) < indent then return (done, gap.broken, r)
    plainText flow indent context n done gap r

/-- A plain scalar inside a block at the column `parent`. -/
def plainScalar (flow : Bool) (parent : Int) (p : Place) :
    Except Fault (List Char × Bool × Place) :=
  plainText flow (parent + 1) p.line (p.rest.length + 1) [] .empty p

/-! ## Blocks -/

/-- What becomes of the line breaks at the end of a block. -/
inductive Chomp where
  | strip
  | clip
  | keep
deriving Repr, DecidableEq

/-- The sign for what becomes of the line breaks at the end. -/
def chomp? : Char → Option Chomp
  | '-' => some .strip
  | '+' => some .keep
  | _ => none

/-- The column that a header asks for, relative to the block around. -/
def increment (context : Nat) (p : Place) : Except Fault (Nat × Place) :=
  match p.rest with
  | c :: _ =>
    if c = '0' then p.fault context .zeroIndent
    else if c.isDigit then .ok (c.toNat - '0'.toNat, p.next)
    else .ok (0, p)
  | [] => .ok (0, p)

/-- The header of a block: the sign for its end and its column, in any order. -/
def blockHeader (context : Nat) (p : Place) : Except Fault (Chomp × Nat × Place) := do
  match p.rest.head?.bind chomp? with
  | some c =>
    let (k, q) ← increment context p.next
    return (c, k, q)
  | none =>
    let (k, q) ← increment context p
    if k = 0 then return (.clip, 0, q)
    match q.rest.head?.bind chomp? with
    | some c => return (c, k, q.next)
    | none => return (.clip, k, q)

/-- The place after the rest of the line of a header, a comment at most. -/
def afterHeader (context : Nat) (p : Place) : Except Fault Place :=
  let q := p.skipWhile isBlank
  let q := if q.rest.head? = some '#' then q.skipLine else q
  if !breakNext q.rest then q.fault context .blockHeader
  else .ok (if q.rest.isEmpty then q else q.nextLine)

/-- The empty lines before the next line of a block at the column `indent`, the
greatest column seen, and the place of that line.  While the column is zero it
is not known yet. -/
def blockBreaks (context indent : Nat) : (n greatest : Nat) → Place →
    Except Fault (List Char × Nat × Place)
  | 0, greatest, p => .ok ([], greatest, p)
  | n + 1, greatest, p => do
    let spaces := (p.rest.takeWhile (· = ' ')).length
    let p := p.advance (if indent = 0 then spaces else min spaces (indent - p.column))
    let greatest := max greatest p.column
    if (indent = 0 || p.column < indent) && p.rest.head? = some '\t' then
      p.fault context .tabInBlock
    if !startsWith isBreak p.rest then return ([], greatest, p)
    let (more, greatest, q) ← blockBreaks context indent n greatest p.nextLine
    return (p.breakText ++ more, greatest, q)

/-- The lines of a block, after `done`: `first` is the line break before this
line and `more` are the empty lines after it; `blank` says whether the line before
starts with a blank. -/
def blockLines (literal : Bool) (context indent : Nat) : (n : Nat) →
    (done first more : List Char) → (blank : Bool) → Place →
    Except Fault (List Char × List Char × List Char × Place)
  | 0, done, first, more, _, p => .ok (done, first, more, p)
  | n + 1, done, first, more, blank, p => do
    if p.column != indent || p.rest.isEmpty then return (done, first, more, p)
    let here := startsWith isBlank p.rest
    let joint :=
      if !literal && !blank && !here && first = ['\n'] then
        (if more.isEmpty then [' '] else [])
      else first
    let q := p.skipLine
    let line := p.rest.take (q.index - p.index)
    let (first', q) := if q.rest.isEmpty then ([], q) else (q.breakText, q.nextLine)
    let (more', _, r) ← blockBreaks context indent (q.rest.length + 1) 0 q
    blockLines literal context indent n (done ++ joint ++ more ++ line) first' more' here r

/-- A scalar in a block of its own inside a block at the column `parent`. -/
def blockScalar (literal : Bool) (parent : Int) (p : Place) :
    Except Fault (List Char × Place) := do
  let context := p.line
  let (chomp, k, q) ← blockHeader context p.next
  let q ← afterHeader context q
  let asked := if k = 0 then 0 else (max parent 0).toNat + k
  let (more, greatest, q) ← blockBreaks context asked (q.rest.length + 1) 0 q
  let indent := if asked = 0 then max (max greatest (parent + 1).toNat) 1 else asked
  let (done, first, more, q) ←
    blockLines literal context indent (q.rest.length + 1) [] [] more false q
  let tail :=
    match chomp with
    | .strip => []
    | .clip => first
    | .keep => first ++ more
  return (done ++ tail, q)

end Pseudocode.Yaml
