import Pseudocode.Yaml.Node
/-
# `Yaml.Place` — places in a text

A place is what follows it, with the line and the column, both counted from
zero, and the number of characters before it.
-/
namespace Pseudocode.Yaml

/-- Ends a line. -/
def isBreak (c : Char) : Bool :=
  c = '\n' || c = '\r' || c = '\u0085' || c = '\u2028' || c = '\u2029'

/-- Blanks within a line. -/
def isBlank (c : Char) : Bool := c = ' ' || c = '\t'

/-- Does a text start with a character of a kind? -/
def startsWith (p : Char → Bool) (cs : List Char) : Bool := (cs.head?.map p).getD false

/-- Does a text start with a blank or a line break, or is it empty? -/
def blankNext (cs : List Char) : Bool :=
  cs.isEmpty || startsWith (fun c => isBlank c || isBreak c) cs

/-- Does a text start with a line break, or is it empty? -/
def breakNext (cs : List Char) : Bool := cs.isEmpty || startsWith isBreak cs

/-- A place in a text. -/
structure Place where
  rest : List Char
  line : Nat
  column : Nat
  index : Nat

namespace Place

/-- The place before a text. -/
def start (cs : List Char) : Place := ⟨cs, 0, 0, 0⟩

/-- The place after one character of the line. -/
def next (p : Place) : Place := ⟨p.rest.drop 1, p.line, p.column + 1, p.index + 1⟩

/-- The place after `n` characters of the line. -/
def advance (n : Nat) (p : Place) : Place :=
  ⟨p.rest.drop n, p.line, p.column + n, p.index + n⟩

/-- The place after a line break, which may be two characters. -/
def nextLine (p : Place) : Place :=
  match p.rest with
  | '\r' :: '\n' :: rest => ⟨rest, p.line + 1, 0, p.index + 2⟩
  | _ => ⟨p.rest.drop 1, p.line + 1, 0, p.index + 1⟩

/-- What a line break stands for: a separator of lines or paragraphs for itself,
the others for a line feed. -/
def breakText (p : Place) : List Char :=
  match p.rest with
  | '\u2028' :: _ => ['\u2028']
  | '\u2029' :: _ => ['\u2029']
  | _ => ['\n']

/-- The place after characters of a kind on the same line. -/
def skipWhile (kind : Char → Bool) (p : Place) : Place :=
  p.advance (p.rest.takeWhile kind).length

/-- The place at the end of the line. -/
def skipLine (p : Place) : Place := p.skipWhile (!isBreak ·)

/-- Does a mark of three characters stand here, at the start of a line? -/
def atMark (mark : Char) (p : Place) : Bool :=
  p.column = 0 &&
    match p.rest with
    | a :: b :: c :: rest => a = mark && b = mark && c = mark && blankNext rest
    | _ => false

/-- Does a mark between documents stand here? -/
def atDocumentMark (p : Place) : Bool := p.atMark '-' || p.atMark '.'

/-- A fault here, in a construct that starts on the line `context`. -/
def fault {α : Type} (p : Place) (context : Nat) (problem : Problem) : Except Fault α :=
  .error (.inText context p.line problem)

end Place

/-! ## Gaps

A gap is what stands between two words of a scalar: blanks, or line breaks with
the blanks around them. -/

/-- A gap between words. -/
structure Gap where
  /-- Blanks before any line break. -/
  blanks : List Char
  /-- Is there a line break? -/
  broken : Bool
  /-- The first line break. -/
  first : List Char
  /-- The further line breaks. -/
  more : List Char

namespace Gap

/-- No gap yet. -/
def empty : Gap := ⟨[], false, [], []⟩

/-- A gap after a line break that does not count. -/
def afterBreak : Gap := ⟨[], true, [], []⟩

/-- What a gap comes to.  One line feed is a blank, and further ones stand for
themselves. -/
def text (g : Gap) : List Char :=
  if !g.broken then g.blanks
  else if g.first = ['\n'] then (if g.more.isEmpty then [' '] else g.more)
  else g.first ++ g.more

/-- A gap with one more line break. -/
def push (g : Gap) (lineBreak : List Char) : Gap :=
  if g.broken then { g with more := g.more ++ lineBreak }
  else { g with blanks := [], broken := true, first := lineBreak }

/-- Reads a gap of at most `n` characters.  On the lines it starts, no tab may
stand before the column `indent`. -/
def read (context : Nat) (indent : Int) : (n : Nat) → Gap → Place → Except Fault (Gap × Place)
  | 0, g, p => .ok (g, p)
  | n + 1, g, p =>
    match p.rest with
    | [] => .ok (g, p)
    | c :: _ =>
      if isBlank c then
        if g.broken && (p.column : Int) < indent && c = '\t' then p.fault context .tabIndent
        else
          let g := if g.broken then g else { g with blanks := g.blanks ++ [c] }
          read context indent n g p.next
      else if isBreak c then read context indent n (g.push p.breakText) p.nextLine
      else .ok (g, p)

end Gap

end Pseudocode.Yaml
