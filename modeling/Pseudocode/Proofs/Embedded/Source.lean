import Pseudocode.Library.Embedded
import Pseudocode.Proofs.Composition.Lines
import Pseudocode.Proofs.Printing.Program
/-
# `Proofs.Embedded.Source` — the embedded library as program trees

Which program a given text is can be computed.  The scanner recurses on the length of what is
left of the text, which the kernel does not evaluate; `scanTo` takes the same steps a bounded
number of times, and looks words up by their letters.  The program that comes out is compared
with the expected one by the pieces both are written with: a program is read back from its
pieces, so they determine it up to spans (`parse_of_reads`).
-/
namespace Pseudocode

open Scan

/-! ## Texts by their letters -/

/-- The texts are made of these letters.  A literal is unified with `String.ofList`, which is much
faster than computing its characters. -/
inductive Spelled : List String → List (List Char) → Prop
  | nil : Spelled [] []
  | cons (letters : List Char) {texts : List String} {spelling : List (List Char)} :
      Spelled texts spelling → Spelled (String.ofList letters :: texts) (letters :: spelling)

theorem Spelled.map_toList {texts : List String} {spelling : List (List Char)}
    (h : Spelled texts spelling) : texts.map String.toList = spelling := by
  induction h with
  | nil => rfl
  | cons letters _ ih => rw [List.map_cons, ih, String.toList_ofList]

theorem Spelled.lookup {α : Type} {texts : List String} {spelling : List (List Char)}
    (h : Spelled texts spelling) (letters : List Char) : ∀ entries : List α,
      (spelling.zip entries).lookup letters = (texts.zip entries).lookup (String.ofList letters) := by
  induction h with
  | nil => exact fun _ => rfl
  | cons first _ ih =>
    intro entries
    cases entries with
    | nil => rfl
    | cons entry entries =>
      have same : (letters == first) = (String.ofList letters == String.ofList first) := by
        rw [Bool.eq_iff_iff, beq_iff_eq, beq_iff_eq, ← String.toList_inj, String.toList_ofList,
          String.toList_ofList]
      rw [List.zip_cons_cons, List.zip_cons_cons, List.lookup_cons, List.lookup_cons, same, ih]

/-- The kind of a word, given the reserved words by their letters. -/
def Kind.ofLetters (words : List (List Char)) (word : List Char) : Kind :=
  ((words.zip (Kind.reserved.map Prod.snd)).lookup word).getD .identifier

theorem Kind.ofLetters_eq {words : List (List Char)}
    (h : Spelled (Kind.reserved.map Prod.fst) words) (word : List Char) :
    Kind.ofLetters words word = Kind.ofWord (String.ofList word) := by
  have entries : (Kind.reserved.map Prod.fst).zip (Kind.reserved.map Prod.snd) = Kind.reserved := by
    rw [← List.unzip_fst, ← List.unzip_snd, List.zip_unzip]
  rw [Kind.ofLetters, Kind.ofWord, h.lookup, entries]

/-! ## Scanning in a bounded number of steps -/

namespace Scan

/-- Splits the first token off, with words looked up by their letters. -/
def lexemeBy (words : List (List Char)) (p : Position) (c : Char) (rest : List Char) :
    Lexeme :=
  if isWordStart c then
    let word := c :: rest.takeWhile isWordPart
    { kind := .ofLetters words word, value := word, taken := word,
      rest := rest.dropWhile isWordPart }
  else lexeme p c rest

theorem lexemeBy_eq {words : List (List Char)} (h : Spelled (Kind.reserved.map Prod.fst) words)
    (p : Position) (c : Char) (rest : List Char) :
    lexemeBy words p c rest = lexeme p c rest := by
  rw [lexemeBy]
  split
  · next word =>
    obtain ⟨line, quote, -, -⟩ := of_not_openers (by decide) word
    have digit := isDigit_of_isWordStart word
    rw [lexeme, if_neg line, if_neg (by simpa using quote), if_neg (by simpa using digit),
      if_pos word]
    simp only [Kind.ofLetters_eq h]
  · rfl

/-- The tokens of a text in at most the given number of steps; `none` if there are more, or if a
string literal is not closed. -/
def scanTo (words : List (List Char)) : Nat → Position → List Char → Option (List Token)
  | 0, _, _ => none
  | n + 1, p, cs =>
    let start := p.past (skipped cs).1
    match (skipped cs).2 with
    | [] => some [.endOfInput start]
    | c :: rest =>
      let l := lexemeBy words start c rest
      if l.closed then (scanTo words n (start.past l.taken) l.rest).map (l.token start :: ·)
      else none

theorem scanFrom_of_scanTo {words : List (List Char)}
    (spelled : Spelled (Kind.reserved.map Prod.fst) words) (source file : String) :
    ∀ {n : Nat} {p : Position} {cs : List Char} {tokens : List Token},
      scanTo words n p cs = some tokens →
      (scanFrom source file p cs).tokens = tokens ∧ (scanFrom source file p cs).failure = none
  | 0, _, _, _, h => nomatch h
  | n + 1, p, cs, tokens, h => by
    rw [scanTo] at h
    dsimp only at h
    split at h
    · next left =>
      cases h
      rw [scanFrom_end source file left]
      exact ⟨rfl, rfl⟩
    · next c rest left =>
      rw [lexemeBy_eq spelled] at h
      split at h
      · next closed =>
        obtain ⟨later, found, rfl⟩ := Option.map_eq_some_iff.mp h
        obtain ⟨first, failure, -⟩ := scanFrom_token source file (p := p) left rfl rfl closed
        obtain ⟨more, none⟩ := scanFrom_of_scanTo spelled source file found
        exact ⟨by rw [first, more], by rw [failure, none]⟩
      · cases h

end Scan

/-! ## Comparing programs by their pieces -/

/-- The token of a piece, in no place. -/
def Piece.token (q : Piece) : Token := ⟨q.kind, q.lexeme, default⟩

/-- Is the text of these lines a program that is written with the same pieces as another? -/
def reads (words lines : List (List Char)) (b : Block) : Bool :=
  let text := lines.flatMap (· ++ ['\n'])
  match scanTo words (text.length + 1) .start text with
  | none => false
  | some tokens =>
    match Grammar.program tokens with
    | .ok b' => b'.pieces = b.pieces ∧ b'.RealFree
    | .error _ => false

theorem toList_textOf (lines : List String) :
    (Embedded.textOf lines).toList = (lines.map String.toList).flatMap (· ++ ['\n']) := by
  rw [Embedded.textOf, String.toList_join]
  simp [List.flatMap_def, Function.comp_def]

/-- A text whose pieces are those of a program, which is read back from them, is this program up
to spans. -/
theorem parse_of_reads {lines : List String} {words letters : List (List Char)} {b : Block}
    (file : String) (again : Grammar.program ((b.pieces ++ [Piece.eof]).map Piece.token) = .ok b)
    (reserved : Spelled (Kind.reserved.map Prod.fst) words) (spelled : Spelled lines letters)
    (h : reads words letters b = true) :
    ∃ b', parse (Embedded.textOf lines) file = .ok b' ∧ b'.spanless = b.spanless := by
  rw [reads] at h
  split at h
  · cases h
  · next tokens scanned =>
    split at h
    · next b' read =>
      obtain ⟨pieces, realFree⟩ := of_decide_eq_true h
      rw [← spelled.map_toList, ← toList_textOf] at scanned
      obtain ⟨found, failure⟩ := scanFrom_of_scanTo reserved (Embedded.textOf lines) file scanned
      have parsed : parse (Embedded.textOf lines) file = .ok b' := by
        have scanned : (Scan.scan (Embedded.textOf lines) file).failure = none := failure
        rw [parse]
        simp only [scanned, parseTokens]
        rw [Scan.scan, found, read]
      have wellFormed : b'.WellFormed := ⟨grammatical_of_parse parsed, realFree⟩
      have written : ((b.pieces ++ [Piece.eof]).map Piece.token).map Token.piece =
          b'.pieces ++ [Piece.eof] := by
        rw [List.map_map, pieces]
        exact List.map_id _
      obtain ⟨b'', same, spans⟩ := Grammar.program_of_pieces wellFormed written
      rw [again] at same
      cases same
      exact ⟨b', parsed, spans.symm⟩
    · cases h

namespace Embedded

/-! ## Trees without spans -/

/-- A name. -/
def name (x : String) : Expr := .var default x []

/-- A property of what a name is bound to. -/
def member (x : String) (path : List String) : Expr :=
  .var default x (path.map (.property default))

/-- A call of a name. -/
def apply (f : String) (args : List Expr) : Expr := .call default (name f) args

/-- A binary operator. -/
def infixed (op : BinaryOp) (left right : Expr) : Expr := .binary default op left right

/-- An integer literal. -/
def number (n : Int) : Expr := .int default n

/-- A string literal. -/
def text (s : String) : Expr := .string default s

/-- `x ← e`. -/
def set (x : String) (e : Expr) : Stmt := .assign ⟨default, ⟨default, x, []⟩, e, false⟩

/-- `RETURN e`. -/
def give (e : Expr) : Stmt := .expr (.magic default .returns [e])

/-- `IF e THEN … ENDIF`. -/
def whenever (e : Expr) (body : List Stmt) : Stmt :=
  .branch (.mk default e (.mk default body) .absent)

/-- A subroutine. -/
def routine (name : String) (params : List String) (body : List Stmt) : Routine :=
  .mk default name (params.map fun p => ⟨default, p⟩) (.mk default body)

/-! ## Strings -/

def joinBody : List Stmt :=
  [set "result" (text ""),
   .forRange default "i" (number 0) (infixed .sub (apply "LEN" [name "items"]) (number 1)) none
    (.mk default
      [whenever (infixed .gt (name "i") (number 0))
        [set "result" (infixed .add (name "result") (name "separator"))],
       set "result" (infixed .add (name "result")
        (apply "String" [.var default "items" [.subscript default (name "i")]]))]),
   give (name "result")]

def splitBody : List Stmt :=
  [whenever (infixed .eq (name "separator") (text "")) [give (apply "Array" [name "text"])],
   set "parts" (.array default []),
   set "rest" (name "text"),
   set "pos" (apply "POSITION" [name "rest", name "separator"]),
   .whileLoop default (infixed .ge (name "pos") (number 0)) (.mk default
    [.expr (.call default (member "parts" ["append"])
      [apply "SUBSTRING" [number 0, infixed .sub (name "pos") (number 1), name "rest"]]),
     set "rest" (apply "SUBSTRING" [infixed .add (name "pos") (apply "LEN" [name "separator"]),
      infixed .sub (apply "LEN" [name "rest"]) (number 1), name "rest"]),
     set "pos" (apply "POSITION" [name "rest", name "separator"])]),
   .expr (.call default (member "parts" ["append"]) [name "rest"]),
   give (name "parts")]

def repeatBody : List Stmt := [give (infixed .mul (name "text") (name "count"))]

def reverseBody : List Stmt :=
  [set "result" (text ""),
   .forEach default "ch" (name "text") (.mk default
    [set "result" (infixed .add (name "ch") (name "result"))]),
   give (name "result")]

/-- The helpers for strings. -/
def stringRoutines : List Routine :=
  [routine "JOIN" ["items", "separator"] joinBody, routine "SPLIT" ["text", "separator"] splitBody,
   routine "REPEAT_STRING" ["text", "count"] repeatBody, routine "REVERSE" ["text"] reverseBody]

def stringsProgram : Block := .mk default (stringRoutines.map .subroutine)

set_option maxRecDepth 4000 in
theorem parse_strings (file : String) :
    ∃ b, parse (textOf strings) file = .ok b ∧ b.spanless = stringsProgram := by
  have again : Grammar.program ((stringsProgram.pieces ++ [Piece.eof]).map Piece.token) =
      .ok stringsProgram := by rfl
  apply parse_of_reads file again
  case reserved =>
    dsimp only [Kind.reserved, List.map]
    repeat' first | exact .nil | apply Spelled.cons
  case spelled =>
    dsimp only [strings]
    repeat' first | exact .nil | apply Spelled.cons
  case h => decide +kernel

/-! ## Containers -/

/-- What a container holds. -/
def held : Expr := member "this" ["items"]

/-- `LEN(this.items) = 0` -/
def emptyTest : Expr := infixed .eq (apply "LEN" [held]) (number 0)

/-- What a container returns of what it holds, or `None` if it holds nothing. -/
def unlessEmpty (e : Expr) : List Stmt := [whenever emptyTest [give (.none default)], give e]

/-- Which element is taken from a container: the one that was added last, or the one that was
added first. -/
inductive Discipline where
  | lifo
  | fifo

namespace Discipline

def className : Discipline → String
  | lifo => "Stack"
  | fifo => "Queue"

/-- The method that adds an element. -/
def adding : Discipline → String
  | lifo => "push"
  | fifo => "enqueue"

/-- The method that takes an element out. -/
def taking : Discipline → String
  | lifo => "pop"
  | fifo => "dequeue"

/-- Where the element stands that would be taken. -/
def index : Discipline → Expr
  | lifo => .unary default .minus (number 1)
  | fifo => number 0

/-- What is given to the method of the array that takes an element out. -/
def takeArgs : Discipline → List Expr
  | lifo => []
  | fifo => [number 0]

def addBody : List Stmt :=
  [.expr (.call default (member "this" ["items", "append"]) [name "value"])]

def takeBody (d : Discipline) : List Stmt :=
  unlessEmpty (.call default (member "this" ["items", "pop"]) d.takeArgs)

def peekBody (d : Discipline) : List Stmt :=
  unlessEmpty (.var default "this" [.property default "items", .subscript default d.index])

def textBody (d : Discipline) : List Stmt :=
  [give (infixed .add (infixed .add (text (d.className ++ "(")) (apply "String" [held])) (text ")"))]

/-- The methods of a container. -/
def routines (d : Discipline) : List Routine :=
  [routine d.adding ["value"] addBody, routine d.taking [] d.takeBody, routine "peek" [] d.peekBody,
   routine "size" [] [give (apply "LEN" [held])], routine "is_empty" [] [give emptyTest],
   routine "STR" [] d.textBody]

/-- The class of the containers. -/
def definition (d : Discipline) : Stmt :=
  .classDef default d.className
    [⟨default, ⟨default, "items", []⟩, .array default [], false⟩] d.routines

end Discipline

end Embedded

end Pseudocode
