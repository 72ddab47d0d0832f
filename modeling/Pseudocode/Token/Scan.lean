import Pseudocode.Source.Diagnostic
import Pseudocode.Token.Basic
/-
# `Token.Scan` — from source text to tokens

The scanner works on the characters that are left and the place they start at.
One step (`lexeme`) splits off the characters of the next token and says what
they are; the place after it is the place before it moved `past` exactly those
characters.  Blanks and comments are dropped between steps.  Only a string
literal that is not closed on its line stops the scan; an unknown escape inside
one is kept as it stands and reported as a warning.
-/
namespace Pseudocode.Scan

/-! ## Character classes -/

/-- The blanks that separate tokens.  A newline is a token of its own. -/
def isBlank (c : Char) : Bool := c = ' ' || c = '\t' || c = '\r' || c = '\x0c'

/-- A decimal digit. -/
def isDigit (c : Char) : Bool := '0' ≤ c && c ≤ '9'

/-- What a number is made of. -/
def isNumberPart (c : Char) : Bool := c = '.' || isDigit c

/-- What a word starts with: an ASCII letter or an underscore. -/
def isWordStart (c : Char) : Bool :=
  c = '_' || ('a' ≤ c && c ≤ 'z') || ('A' ≤ c && c ≤ 'Z')

/-- What a word is made of. -/
def isWordPart (c : Char) : Bool := isWordStart c || isDigit c

/-! ## String literals -/

/-- What the character after a backslash stands for; `none` for an unknown
escape. -/
def escapeValue : Char → Option Char
  | 'n' => some '\n'
  | 't' => some '\t'
  | 'r' => some '\r'
  | '0' => some '\x00'
  | '\\' => some '\\'
  | '"' => some '"'
  | '\'' => some '\''
  | _ => none

/-- The outcome of reading the inside of a string literal. -/
structure StringBody where
  /-- The value of the literal. -/
  value : List Char
  /-- The characters read, the closing quote included. -/
  taken : List Char
  rest : List Char
  /-- The unknown escapes, as spans and the characters after the backslash. -/
  unknown : List (Span × Char)
  /-- Was the closing quote found? -/
  closed : Bool
deriving Repr, DecidableEq

namespace StringBody

/-- The body that ends where it starts. -/
def unclosed (taken rest : List Char) : StringBody := ⟨[], taken, rest, [], false⟩

/-- Puts `read` in front of the characters read, with the value they gave. -/
def after (read value : List Char) (b : StringBody) : StringBody :=
  { b with value := value ++ b.value, taken := read ++ b.taken }

/-- Adds an unknown escape in front. -/
def noting (span : Span) (c : Char) (b : StringBody) : StringBody :=
  { b with unknown := (span, c) :: b.unknown }

end StringBody

/-- Reads the inside of a string literal that was opened by `quote`, up to the
closing quote or the end of the line. -/
def stringBody (quote : Char) (p : Position) : List Char → StringBody
  | [] => .unclosed [] []
  | '\\' :: [] => .unclosed ['\\'] []
  | '\\' :: '\n' :: rest => .unclosed ['\\'] ('\n' :: rest)
  | '\\' :: c :: rest =>
    let body := stringBody quote (p.past ['\\', c]) rest
    match escapeValue c with
    | some v => body.after ['\\', c] [v]
    | none => (body.after ['\\', c] ['\\', c]).noting ⟨p, p.past ['\\', c]⟩ c
  | c :: rest =>
    if c = quote then ⟨[], [c], rest, [], true⟩
    else if c = '\n' then .unclosed [] (c :: rest)
    else (stringBody quote (p.next c) rest).after [c] [c]

/-! ### Character by character -/

section Steps

variable {quote : Char} (p : Position) {c : Char} (rest : List Char)

/-- A backslash in front of another character, on one line. -/
theorem stringBody_escape (line : c ≠ '\n') :
    stringBody quote p ('\\' :: c :: rest) =
      match escapeValue c with
      | some v => (stringBody quote (p.past ['\\', c]) rest).after ['\\', c] [v]
      | none => ((stringBody quote (p.past ['\\', c]) rest).after ['\\', c] ['\\', c]).noting
          ⟨p, p.past ['\\', c]⟩ c := by
  rw [stringBody]
  exact line

/-- An escape that has a meaning. -/
theorem stringBody_known {v : Char} (known : escapeValue c = some v) :
    stringBody quote p ('\\' :: c :: rest) =
      (stringBody quote (p.past ['\\', c]) rest).after ['\\', c] [v] := by
  have notLine : c ≠ '\n' := by
    rintro rfl
    cases known
  rw [stringBody_escape p rest notLine, known]

/-- An escape that has none. -/
theorem stringBody_noted (line : c ≠ '\n') (new : escapeValue c = none) :
    stringBody quote p ('\\' :: c :: rest) =
      ((stringBody quote (p.past ['\\', c]) rest).after ['\\', c] ['\\', c]).noting
        ⟨p, p.past ['\\', c]⟩ c := by
  rw [stringBody_escape p rest line, new]

/-- A character that stands for itself. -/
theorem stringBody_plain (slash : c ≠ '\\') (other : c ≠ quote) (line : c ≠ '\n') :
    stringBody quote p (c :: rest) = (stringBody quote (p.next c) rest).after [c] [c] := by
  simp [stringBody, slash, other, line]

end Steps

theorem ne_backslash {c : Char} {rest : List Char} (last : c = '\\' → rest = [] → False)
    (pair : ∀ d ds, c = '\\' → rest = d :: ds → False) : c ≠ '\\' := by
  intro slash
  cases rest with
  | nil => exact last slash rfl
  | cons d ds => exact pair d ds slash rfl

/-! ## Operators and delimiters -/

/-- The kind of a single character that is neither a blank, a quote, a digit
nor part of a word. -/
def symbolKind : Char → Kind
  | '(' => .leftParen
  | ')' => .rightParen
  | '[' => .leftBracket
  | ']' => .rightBracket
  | '\x7b' => .leftBrace
  | '\x7d' => .rightBrace
  | ',' => .comma
  | '.' => .dot
  | ':' => .colon
  | '←' => .assign
  | '=' => .eq
  | '≠' => .ne
  | '<' => .lt
  | '≤' => .le
  | '>' => .gt
  | '≥' => .ge
  | '+' => .add
  | '-' => .sub
  | '–' => .sub
  | '*' => .mul
  | '/' => .div
  | '%' => .mod
  | _ => .illegal

/-- The kind of two characters that together form one operator. -/
def pairKind : Char → Char → Option Kind
  | ':', '=' => some .assign
  | '!', '=' => some .ne
  | '<', '=' => some .le
  | '>', '=' => some .ge
  | '*', '*' => some .pow
  | _, _ => none

/-- The kind of the operator at the start of `c :: rest`, and the characters it
is made of after `c`. -/
def symbol (c : Char) (rest : List Char) : Kind × List Char :=
  match rest with
  | d :: _ =>
    match pairKind c d with
    | some k => (k, [d])
    | none => (symbolKind c, [])
  | [] => (symbolKind c, [])

/-- The kinds of operators and delimiters, and of a character that is neither. -/
def symbolKinds : List Kind :=
  [.leftParen, .rightParen, .leftBracket, .rightBracket, .leftBrace, .rightBrace, .comma, .dot,
   .colon, .assign, .eq, .ne, .lt, .le, .gt, .ge, .add, .sub, .mul, .div, .mod, .pow, .illegal]

theorem symbol_mem (c : Char) (rest : List Char) : (symbol c rest).1 ∈ symbolKinds := by
  have single : symbolKind c ∈ symbolKinds := by
    unfold symbolKind
    split <;> decide
  unfold symbol
  split
  · next d _ =>
    split
    · next k pair =>
      unfold pairKind at pair
      split at pair <;> cases pair <;> decide
    · exact single
  · exact single

/-! ## One token -/

/-- The characters of one token and what they are. -/
structure Lexeme where
  kind : Kind
  /-- The text the token stands for. -/
  value : List Char
  /-- The characters read for it. -/
  taken : List Char
  rest : List Char
  unknown : List (Span × Char) := []
  /-- False only for a string literal without its closing quote. -/
  closed : Bool := true
deriving Repr, DecidableEq

/-- A number with no point is an integer, with one a real, with more invalid. -/
def numberKind (digits : List Char) : Kind :=
  match digits.count '.' with
  | 0 => .int
  | 1 => .real
  | _ => .invalid

theorem numberKind_mem (digits : List Char) : numberKind digits ∈ [.int, .real, .invalid] := by
  unfold numberKind
  split <;> decide

/-- Splits the first token off `c :: rest`, which starts at `p` with a character
that is no blank and opens no comment. -/
def lexeme (p : Position) (c : Char) (rest : List Char) : Lexeme :=
  if c = '\n' then
    { kind := .newline, value := ['\\', 'n'], taken := [c], rest }
  else if c = '"' || c = '\'' then
    let body := stringBody c (p.next c) rest
    { kind := .string, value := body.value, taken := c :: body.taken, rest := body.rest,
      unknown := body.unknown, closed := body.closed }
  else if isDigit c then
    let digits := c :: rest.takeWhile isNumberPart
    { kind := numberKind digits, value := digits, taken := digits,
      rest := rest.dropWhile isNumberPart }
  else if isWordStart c then
    let word := c :: rest.takeWhile isWordPart
    { kind := .ofWord (String.ofList word), value := word, taken := word,
      rest := rest.dropWhile isWordPart }
  else
    let s := symbol c rest
    { kind := s.1, value := c :: s.2, taken := c :: s.2, rest := rest.drop s.2.length }

/-! ## What is dropped between tokens -/

/-- Splits off the blanks and comments at the start of a text.  A comment runs
from `#` to the end of its line. -/
def skipped : List Char → List Char × List Char
  | [] => ([], [])
  | c :: rest =>
    if isBlank c then (c :: (skipped rest).1, (skipped rest).2)
    else if c = '#' then (c :: rest.takeWhile (· != '\n'), rest.dropWhile (· != '\n'))
    else ([], c :: rest)

/-! ## Nothing is lost -/

theorem stringBody_append (quote : Char) (p : Position) (cs : List Char) :
    (stringBody quote p cs).taken ++ (stringBody quote p cs).rest = cs := by
  fun_induction stringBody quote p cs with
  | case4 p c rest h body v hv ih =>
    simpa [StringBody.after, body] using ih
  | case5 p c rest h body hv ih =>
    simpa [StringBody.after, StringBody.noting, body] using ih
  | case8 p c rest h₁ h₂ h₃ hq hn ih =>
    simpa [StringBody.after] using ih
  | _ => rfl

theorem symbol_append (c : Char) (rest : List Char) :
    (symbol c rest).2 ++ rest.drop (symbol c rest).2.length = rest := by
  unfold symbol
  split
  · split <;> simp
  · simp

theorem lexeme_append (p : Position) (c : Char) (rest : List Char) :
    (lexeme p c rest).taken ++ (lexeme p c rest).rest = c :: rest := by
  unfold lexeme
  split
  · rfl
  · split
    · simp [stringBody_append]
    · split
      · simp
      · split
        · simp
        · simp [symbol_append]

theorem lexeme_taken_ne_nil (p : Position) (c : Char) (rest : List Char) :
    (lexeme p c rest).taken ≠ [] := by
  unfold lexeme
  split
  · simp
  · split
    · simp
    · split
      · simp
      · split <;> simp

/-- Every token uses up at least one character. -/
theorem lexeme_rest_length_le (p : Position) (c : Char) (rest : List Char) :
    (lexeme p c rest).rest.length ≤ rest.length := by
  have whole := congrArg List.length (lexeme_append p c rest)
  have some := List.length_pos_iff.mpr (lexeme_taken_ne_nil p c rest)
  simp at whole
  omega

/-- A token begins where a blank or a comment does not. -/
theorem skipped_stop {cs rest : List Char} {c : Char} (left : (skipped cs).2 = c :: rest) :
    isBlank c = false ∧ c ≠ '#' := by
  fun_induction skipped cs with
  | case1 => cases left
  | case2 d cs blank ih => exact ih left
  | case3 cs notBlank =>
    have line := List.head?_dropWhile_not (· != '\n') cs
    rw [show cs.dropWhile (· != '\n') = c :: rest from left] at line
    obtain rfl : c = '\n' := by simpa using line
    decide
  | case4 d cs notBlank notHash =>
    cases left
    exact ⟨by simpa using notBlank, notHash⟩

theorem skipped_append (cs : List Char) : (skipped cs).1 ++ (skipped cs).2 = cs := by
  fun_induction skipped cs with
  | case2 c rest hb ih => simpa using ih
  | case3 rest hb => simp
  | _ => rfl

/-! ## The whole text -/

/-- What a scan of a source text finds. -/
structure Report where
  /-- The tokens read; on success they end with the end of input. -/
  tokens : List Token
  warnings : List Diagnostic
  /-- The string literal that stopped the scan, if one did. -/
  failure : Option Diagnostic
deriving Repr, DecidableEq, Inhabited

/-- The warning about an unknown escape. -/
def unknownEscape (file : String) (e : Span × Char) : Diagnostic :=
  { Diagnostic.warning "E1002" e.1 s!"unknown escape sequence: \\{e.2}" with file }

/-- The error about a string literal that is not closed on its line. -/
def unterminated (source file : String) (span : Span) : Diagnostic :=
  { (Diagnostic.error "E1001" span "unterminated string literal").withSource source with file }

/-- Scans the characters `cs`, which start at `p` in `source`. -/
def scanFrom (source file : String) (p : Position) (cs : List Char) : Report :=
  let start := p.past (skipped cs).1
  match _left : (skipped cs).2 with
  | [] => { tokens := [.endOfInput start], warnings := [], failure := none }
  | c :: rest =>
    let l := lexeme start c rest
    let span : Span := ⟨start, start.past l.taken⟩
    let warnings := l.unknown.map (unknownEscape file)
    if l.closed then
      let more := scanFrom source file span.stop l.rest
      { tokens := ⟨l.kind, String.ofList l.value, span⟩ :: more.tokens
        warnings := warnings ++ more.warnings
        failure := more.failure }
    else
      { tokens := [], warnings, failure := some (unterminated source file span) }
termination_by cs.length
decreasing_by
  have whole := congrArg List.length (skipped_append cs)
  have step := lexeme_rest_length_le (p.past (skipped cs).1) c rest
  rw [_left] at whole
  simp at whole
  omega

/-! ### Case by case -/

section Cases

variable (source file : String) {p : Position} {cs : List Char} {c : Char} {rest : List Char}

theorem scanFrom_end (left : (skipped cs).2 = []) :
    scanFrom source file p cs = ⟨[.endOfInput (p.past (skipped cs).1)], [], none⟩ := by
  rw [scanFrom]
  split
  · rfl
  · next h => rw [left] at h; cases h

/-- The token that `lexeme` splits off at a place. -/
def Lexeme.token (l : Lexeme) (p : Position) : Token :=
  ⟨l.kind, String.ofList l.value, ⟨p, p.past l.taken⟩⟩

theorem scanFrom_token (left : (skipped cs).2 = c :: rest) {start : Position}
    (here : p.past (skipped cs).1 = start) {l : Lexeme} (read : lexeme start c rest = l)
    (closed : l.closed = true) :
    (scanFrom source file p cs).tokens =
        l.token start :: (scanFrom source file (start.past l.taken) l.rest).tokens ∧
      (scanFrom source file p cs).failure =
        (scanFrom source file (start.past l.taken) l.rest).failure ∧
      (scanFrom source file p cs).warnings =
        l.unknown.map (unknownEscape file) ++
          (scanFrom source file (start.past l.taken) l.rest).warnings := by
  subst here read
  rw [scanFrom]
  split
  · next h => rw [left] at h; cases h
  · next h =>
    rw [left] at h
    cases h
    rw [if_pos closed]
    exact ⟨rfl, rfl, rfl⟩

theorem scanFrom_unclosed (left : (skipped cs).2 = c :: rest) {start : Position}
    (here : p.past (skipped cs).1 = start) {l : Lexeme} (read : lexeme start c rest = l)
    (unclosed : l.closed = false) :
    (scanFrom source file p cs).tokens = [] ∧
      (scanFrom source file p cs).failure =
        some (unterminated source file ⟨start, start.past l.taken⟩) := by
  subst here read
  rw [scanFrom]
  split
  · next h => rw [left] at h; cases h
  · next h =>
    rw [left] at h
    cases h
    simp [unclosed]

end Cases

/-- Scans a whole source text.  `file` names it in messages. -/
def scan (source file : String) : Report := scanFrom source file .start source.toList

end Pseudocode.Scan
