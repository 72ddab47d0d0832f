import Pseudocode.Proofs.Printing.Tree
/-
# `Proofs.Printing.Piece` — tokens without their places, written and read back

A piece is the kind and the text of a token.  A list of pieces is written with
a blank before each of them, line breaks apart; `Legible` says of one piece
that the scanner reads it off its spelling, and `scan_written` follows for
lists by induction.  The blank in front is what makes the step lemma simple:
behind every spelling stands nothing, a blank or a line break, and none of the
three is part of a word, a number or an operator.

What stands between quotes is read character by character, and what a part of it
stands for does not depend on the rest (`StandsFor`).
-/
namespace Pseudocode

/-- A token without its place. -/
structure Piece where
  kind : Kind
  lexeme : String
deriving Repr, DecidableEq

def Token.piece (t : Token) : Piece := ⟨t.kind, t.lexeme⟩

namespace Piece

/-! ## The pieces of a program -/

def name (s : String) : Piece := ⟨.identifier, s⟩

def number (n : Nat) : Piece := ⟨.int, n.repr⟩

def quoted (s : String) : Piece := ⟨.string, s⟩

def truth (b : Bool) : Piece := ⟨.boolean, if b then "True" else "False"⟩

def nothing : Piece := ⟨.none, "None"⟩

/-- A delimiter or keyword, which is written as its kind is named. -/
def mark (k : Kind) : Piece := ⟨k, k.name⟩

def binary (op : BinaryOp) : Piece := ⟨op.kind, op.symbol⟩

def unary (op : UnaryOp) : Piece := ⟨op.kind, op.symbol⟩

def arrow : Piece := ⟨.assign, "←"⟩

def newline : Piece := ⟨.newline, "\\n"⟩

def eof : Piece := ⟨.eof, ""⟩

/-! ## Writing -/

/-- A character between double quotes. -/
def escape : Char → List Char
  | '\n' => ['\\', 'n']
  | '\t' => ['\\', 't']
  | '\r' => ['\\', 'r']
  | '\x00' => ['\\', '0']
  | '\\' => ['\\', '\\']
  | '"' => ['\\', '"']
  | c => [c]

/-- The characters of a piece. -/
def spelling (q : Piece) : List Char :=
  match q.kind with
  | .newline => ['\n']
  | .string => '"' :: (q.lexeme.toList.flatMap escape ++ ['"'])
  | _ => q.lexeme.toList

/-- A piece on the page: a line break, or the spelling with a blank before it. -/
def written (q : Piece) : List Char :=
  if q.kind = .newline then q.spelling else ' ' :: q.spelling

end Piece

/-! ## Reading one piece -/

open Scan

/-- Nothing, a blank or a line break. -/
def Apart (rest : List Char) : Prop := ∀ c ∈ rest.head?, c = ' ' ∨ c = '\n'

/-- What was split off is the piece, and `rest` is left. -/
structure Scan.Lexeme.Is (l : Lexeme) (q : Piece) (rest : List Char) : Prop where
  kind : l.kind = q.kind
  value : l.value = q.lexeme.toList
  rest : l.rest = rest
  closed : l.closed = true

/-- The scanner reads the piece off its spelling. -/
def Piece.Legible (q : Piece) : Prop :=
  ∃ c cs, q.spelling = c :: cs ∧ isBlank c = false ∧ c ≠ '#' ∧
    ∀ (p : Position) (rest : List Char), Apart rest → (Scan.lexeme p c (cs ++ rest)).Is q rest

/-- The characters that open a comment, a string or a line, and the blanks. -/
def openers : List Char := ['\n', '"', '\'', ' ', '\t', '\r', '\x0c', '#']

theorem of_not_openers {f : Char → Bool} {c : Char} (none : openers.any f = false)
    (h : f c = true) :
    c ≠ '\n' ∧ (c = '"' || c = '\'') = false ∧ isBlank c = false ∧ c ≠ '#' := by
  have outside : c ∉ openers := by
    intro inside
    rw [List.any_eq_true.mpr ⟨c, inside, h⟩] at none
    cases none
  simp only [openers, List.mem_cons, List.not_mem_nil, or_false, not_or] at outside
  simp [isBlank, outside]

theorem isDigit_of_isWordStart {c : Char} (h : isWordStart c = true) : isDigit c = false := by
  rw [← Bool.not_eq_true]
  intro digit
  simp only [isWordStart, isDigit, Bool.or_eq_true, Bool.and_eq_true, decide_eq_true_eq,
    Char.le_def, UInt32.le_iff_toNat_le] at h digit
  rcases h with (rfl | h) | h
  · exact absurd digit (by decide)
  · have : 97 ≤ c.val.toNat := h.1
    have : c.val.toNat ≤ 57 := digit.2
    omega
  · have : 65 ≤ c.val.toNat := h.1
    have : c.val.toNat ≤ 57 := digit.2
    omega

namespace Scan

/-- Between these quotes `w` is read as `v`, whatever follows.  `unknown p` are the escapes in it
that have no meaning, if it stands at `p`. -/
def StandsFor (quote : Char) (w v : List Char) (unknown : Position → List (Span × Char)) : Prop :=
  ∀ (p : Position) (rest : List Char),
    let later := stringBody quote (p.past w) rest
    stringBody quote p (w ++ rest) = { later.after w v with unknown := unknown p ++ later.unknown }

section StandsFor

variable {quote c d : Char} {w w' v v' : List Char} {unknown unknown' : Position → List (Span × Char)}

theorem StandsFor.nil : StandsFor quote [] [] fun _ => [] := fun _ _ => rfl

theorem StandsFor.append (first : StandsFor quote w v unknown)
    (second : StandsFor quote w' v' unknown') :
    StandsFor quote (w ++ w') (v ++ v') fun p => unknown p ++ unknown' (p.past w) := by
  intro p rest
  rw [List.append_assoc, first, second, Position.past_append]
  simp only [StringBody.after, List.append_assoc]

theorem standsFor_known (known : escapeValue d = some c) :
    StandsFor quote ['\\', d] [c] fun _ => [] :=
  fun p rest => stringBody_known p rest known

theorem standsFor_noted (line : c ≠ '\n') (new : escapeValue c = none) :
    StandsFor quote ['\\', c] ['\\', c] fun p => [(⟨p, p.past ['\\', c]⟩, c)] :=
  fun p rest => stringBody_noted p rest line new

theorem standsFor_plain (slash : c ≠ '\\') (other : c ≠ quote) (line : c ≠ '\n') :
    StandsFor quote [c] [c] fun _ => [] :=
  fun p rest => stringBody_plain p rest slash other line

/-- The literal between these quotes is read up to the closing one. -/
theorem StandsFor.lexeme (h : StandsFor quote w v unknown) (isQuote : quote = '"' ∨ quote = '\'')
    (p : Position) (rest : List Char) :
    Scan.lexeme p quote (w ++ quote :: rest) =
      { kind := .string, value := v, taken := quote :: (w ++ [quote]), rest
        unknown := unknown (p.next quote) } := by
  have slash : quote ≠ '\\' := by rcases isQuote with rfl | rfl <;> decide
  have line : quote ≠ '\n' := by rcases isQuote with rfl | rfl <;> decide
  have opens : (quote = '"' || quote = '\'') = true := by simpa using isQuote
  have body : stringBody quote (p.next quote) (w ++ quote :: rest) =
      ⟨v, w ++ [quote], rest, unknown (p.next quote), true⟩ := by
    rw [h]
    simp [stringBody, StringBody.after, slash]
  rw [Scan.lexeme, if_neg line, if_pos opens, body]

end StandsFor

end Scan

namespace Piece

theorem spelling_of_ne {k : Kind} {s : String} (line : k ≠ .newline) (text : k ≠ .string) :
    spelling ⟨k, s⟩ = s.toList := by
  unfold spelling
  split <;> simp_all

theorem takeWhile_stop {p : Char → Bool} {cs rest : List Char} (h : ∀ c ∈ cs, p c = true)
    (stop : ∀ c ∈ rest.head?, p c = false) :
    (cs ++ rest).takeWhile p = cs ∧ (cs ++ rest).dropWhile p = rest := by
  rw [List.takeWhile_append_of_pos h, List.dropWhile_append_of_pos h]
  cases rest with
  | nil => simp
  | cons c rest => simp [stop c rfl]

/-- A word is read up to the first character that cannot be part of it. -/
theorem lexeme_word (p : Position) {s : String} {c : Char} {cs rest : List Char}
    (chars : s.toList = c :: cs) (start : isWordStart c = true) (parts : cs.all isWordPart = true)
    (stop : ∀ d ∈ rest.head?, isWordPart d = false) :
    (Scan.lexeme p c (cs ++ rest)).Is ⟨Kind.ofWord s, s⟩ rest := by
  obtain ⟨notLine, notQuote, -, -⟩ := of_not_openers rfl start
  have notDigit : isDigit c = false := isDigit_of_isWordStart start
  obtain ⟨word, after⟩ := takeWhile_stop (List.all_eq_true.mp parts) stop
  have whole : String.ofList (c :: cs) = s := by rw [← chars, String.ofList_toList]
  constructor <;> simp [Scan.lexeme, notLine, notQuote, notDigit, start, word, after, chars, whole]

theorem stop_of_apart {f : Char → Bool} {rest : List Char} (apart : Apart rest)
    (blank : f ' ' = false) (line : f '\n' = false) : ∀ c ∈ rest.head?, f c = false := by
  intro c first
  rcases apart c first with rfl | rfl
  · exact blank
  · exact line

theorem legible_word {k : Kind} {s : String} {c : Char} {cs : List Char}
    (chars : s.toList = c :: cs) (start : isWordStart c = true)
    (parts : cs.all isWordPart = true) (kind : Kind.ofWord s = k) (line : k ≠ .newline)
    (text : k ≠ .string) : Legible ⟨k, s⟩ := by
  obtain ⟨-, -, notBlank, notHash⟩ := of_not_openers rfl start
  refine ⟨c, cs, by rw [spelling_of_ne line text, chars], notBlank, notHash, ?_⟩
  intro p rest apart
  rw [← kind]
  exact lexeme_word p chars start parts (stop_of_apart apart (by decide) (by decide))

theorem legible_name {s : String} (h : isName s = true) : (name s).Legible := by
  obtain ⟨c, cs, chars, start, parts, kind⟩ := isName_iff.mp h
  exact legible_word chars start parts kind (by decide) (by decide)

theorem isDigit_of_mem_toDigits {n : Nat} {c : Char} (h : c ∈ Nat.toDigits 10 n) :
    isDigit c = true := by
  have digit : c.isDigit = true := Nat.isDigit_of_mem_toDigits (by decide) (by decide) h
  simpa [Char.isDigit, isDigit, Char.le_def] using digit

/-- A numeral is read up to the first character that is neither digit nor point. -/
theorem lexeme_number (n : Nat) :
    ∃ c cs, n.repr.toList = c :: cs ∧ isBlank c = false ∧ c ≠ '#' ∧
      ∀ (p : Position) (rest : List Char), (∀ d ∈ rest.head?, isNumberPart d = false) →
        (Scan.lexeme p c (cs ++ rest)).Is (number n) rest := by
  have digits : ∀ c ∈ Nat.toDigits 10 n, isDigit c = true := fun _ => isDigit_of_mem_toDigits
  obtain ⟨c, cs, chars⟩ := List.exists_cons_of_ne_nil (Nat.toDigits_ne_nil (n := n) (b := 10))
  rw [chars] at digits
  have first : isDigit c = true := digits c List.mem_cons_self
  obtain ⟨notLine, notQuote, notBlank, notHash⟩ := of_not_openers rfl first
  have spelled : n.repr.toList = c :: cs := by rw [Nat.toList_repr, chars]
  refine ⟨c, cs, spelled, notBlank, notHash, ?_⟩
  intro p rest stop
  have parts : ∀ d ∈ cs, isNumberPart d = true := by
    intro d hd
    simp [isNumberPart, digits d (List.mem_cons_of_mem c hd)]
  obtain ⟨word, after⟩ := takeWhile_stop parts stop
  have noPoint : (c :: cs).count '.' = 0 := by
    rw [List.count_eq_zero]
    intro point
    exact absurd (digits _ point) (by decide)
  constructor <;>
    simp [Scan.lexeme, notLine, notQuote, first, word, after, numberKind, noPoint, chars, number]

theorem legible_number (n : Nat) : (number n).Legible := by
  obtain ⟨c, cs, chars, notBlank, notHash, reads⟩ := lexeme_number n
  refine ⟨c, cs, chars, notBlank, notHash, ?_⟩
  intro p rest apart
  exact reads p rest (stop_of_apart apart (by decide) (by decide))

/-- Between these quotes, the character is written by a backslash and one that
stands for it, or stands for itself. -/
def Escapes (quote : Char) (esc : Char → List Char) (c : Char) : Prop :=
  (∃ d, esc c = ['\\', d] ∧ escapeValue d = some c) ∨
    (esc c = [c] ∧ c ≠ '\\' ∧ c ≠ quote ∧ c ≠ '\n')

theorem escapes_escape (c : Char) : Escapes '"' escape c := by
  unfold Escapes escape
  split
  · exact .inl ⟨'n', rfl, rfl⟩
  · exact .inl ⟨'t', rfl, rfl⟩
  · exact .inl ⟨'r', rfl, rfl⟩
  · exact .inl ⟨'0', rfl, rfl⟩
  · exact .inl ⟨'\\', rfl, rfl⟩
  · exact .inl ⟨'"', rfl, rfl⟩
  · next line _ _ _ slash quote => exact .inr ⟨rfl, slash, quote, line⟩

theorem Escapes.standsFor {quote c : Char} {esc : Char → List Char} (h : Escapes quote esc c) :
    StandsFor quote (esc c) [c] fun _ => [] := by
  obtain ⟨d, written, value⟩ | ⟨written, notSlash, notQuote, notLine⟩ := h
  · rw [written]
    exact standsFor_known value
  · rw [written]
    exact standsFor_plain notSlash notQuote notLine

/-- The scanner undoes the escapes. -/
theorem standsFor_escaped {quote : Char} {esc : Char → List Char} {s : List Char}
    (h : ∀ c ∈ s, Escapes quote esc c) : StandsFor quote (s.flatMap esc) s fun _ => [] := by
  induction s with
  | nil => exact .nil
  | cons c s ih =>
    obtain ⟨here, later⟩ := List.forall_mem_cons.mp h
    exact here.standsFor.append (ih later)

/-- A string between quotes is read up to the closing one. -/
theorem lexeme_quoted (p : Position) {quote : Char} {esc : Char → List Char} {s : String}
    (isQuote : quote = '"' ∨ quote = '\'') (h : ∀ c ∈ s.toList, Escapes quote esc c)
    (rest : List Char) :
    (Scan.lexeme p quote (s.toList.flatMap esc ++ quote :: rest)).Is (quoted s) rest := by
  rw [(standsFor_escaped h).lexeme isQuote]
  exact ⟨rfl, rfl, rfl, rfl⟩

theorem legible_quoted (s : String) : (quoted s).Legible := by
  refine ⟨'"', s.toList.flatMap escape ++ ['"'], rfl, by decide, by decide, ?_⟩
  intro p rest _
  rw [List.append_assoc, List.singleton_append]
  exact lexeme_quoted p (.inl rfl) (fun c _ => escapes_escape c) rest

theorem legible_newline : newline.Legible := by
  refine ⟨'\n', [], rfl, by decide, by decide, ?_⟩
  intro p rest _
  constructor <;> simp [Scan.lexeme, newline]

/-- An operator or delimiter is read as such if what follows makes no longer operator
of it. -/
theorem lexeme_sign (p : Position) {k : Kind} {s : String} {c : Char} {cs rest : List Char}
    (chars : s.toList = c :: cs) (free : c ∉ openers) (notDigit : isDigit c = false)
    (notWord : isWordStart c = false) (sign : symbol c (cs ++ rest) = (k, cs)) :
    (Scan.lexeme p c (cs ++ rest)).Is ⟨k, s⟩ rest := by
  obtain ⟨notLine, notQuote, -, -⟩ :=
    of_not_openers (f := fun d => !openers.contains d) (c := c) rfl (by simpa using free)
  constructor <;> simp [Scan.lexeme, notLine, notQuote, notDigit, notWord, sign, chars]

/-- An operator or delimiter is legible if neither a blank nor a line break makes a
longer operator of it. -/
theorem legible_sign {k : Kind} {s : String} {c : Char} {cs : List Char}
    (chars : s.toList = c :: cs) (line : k ≠ .newline) (text : k ≠ .string)
    (free : c ∉ openers) (notDigit : isDigit c = false) (notWord : isWordStart c = false)
    (alone : symbol c cs = (k, cs))
    (before : ∀ d ∈ [' ', '\n'], ∀ rest, symbol c (cs ++ d :: rest) = (k, cs)) :
    Legible ⟨k, s⟩ := by
  obtain ⟨-, -, notBlank, notHash⟩ :=
    of_not_openers (f := fun d => !openers.contains d) (c := c) rfl (by simpa using free)
  refine ⟨c, cs, by rw [spelling_of_ne line text, chars], notBlank, notHash, ?_⟩
  intro p rest apart
  refine lexeme_sign p chars free notDigit notWord ?_
  cases rest with
  | nil => rwa [List.append_nil]
  | cons d rest => exact before d (by simpa using apart d rfl) rest

theorem legible_binary (op : BinaryOp) : (binary op).Legible := by
  cases op
  case intDiv => exact legible_word (c := 'D') rfl rfl rfl rfl (by decide) (by decide)
  case mod => exact legible_word (c := 'M') rfl rfl rfl rfl (by decide) (by decide)
  case and => exact legible_word (c := 'A') rfl rfl rfl rfl (by decide) (by decide)
  case or => exact legible_word (c := 'O') rfl rfl rfl rfl (by decide) (by decide)
  all_goals
    refine legible_sign rfl (by decide) (by decide) (by decide) rfl rfl rfl ?_
    intro d hd rest
    simp only [List.mem_cons, List.not_mem_nil, or_false] at hd
    rcases hd with rfl | rfl <;> rfl

theorem legible_unary (op : UnaryOp) : (unary op).Legible := by
  cases op with
  | plus => exact legible_binary .add
  | minus => exact legible_binary .sub
  | not => exact legible_word (c := 'N') rfl rfl rfl rfl (by decide) (by decide)

theorem legible_truth (b : Bool) : (truth b).Legible := by
  cases b with
  | false => exact legible_word (c := 'F') rfl rfl rfl rfl (by decide) (by decide)
  | true => exact legible_word (c := 'T') rfl rfl rfl rfl (by decide) (by decide)

theorem legible_nothing : nothing.Legible :=
  legible_word (c := 'N') rfl rfl rfl rfl (by decide) (by decide)

theorem legible_arrow : arrow.Legible := by
  refine legible_sign (c := '←') rfl (by decide) (by decide) (by decide) rfl rfl rfl ?_
  intro d _ rest
  rfl

/-- Parentheses, brackets, braces, comma, colon and dot. -/
def isDelimiter (k : Kind) : Bool :=
  Kind.leftParen.number ≤ k.number && k.number ≤ Kind.dot.number

theorem legible_mark_of_isDelimiter {k : Kind} (h : isDelimiter k = true) : (mark k).Legible := by
  cases k
  case leftParen | rightParen | leftBracket | rightBracket | leftBrace | rightBrace | comma |
      colon | dot =>
    refine legible_sign rfl (by decide) (by decide) (by decide) rfl rfl rfl ?_
    intro d hd rest
    simp only [List.mem_cons, List.not_mem_nil, or_false] at hd
    rcases hd with rfl | rfl <;> rfl
  all_goals cases h

/-- Keywords are written as they are named. -/
theorem ofWord_name {k : Kind} (h : k.isKeyword = true) :
    Kind.ofWord k.name = k ∧ k.name.toList.all isWordPart = true ∧
      (k.name.toList.head?.any isWordStart) = true := by
  have checked : ∀ j ∈ Kind.all, j.isKeyword = true →
      Kind.ofWord j.name = j ∧ j.name.toList.all isWordPart = true ∧
        (j.name.toList.head?.any isWordStart) = true := by decide +kernel
  exact checked k (by cases k <;> decide) h

theorem legible_mark_of_isKeyword {k : Kind} (h : k.isKeyword = true) : (mark k).Legible := by
  obtain ⟨kind, parts, start⟩ := ofWord_name h
  cases chars : k.name.toList with
  | nil => simp [chars] at start
  | cons c cs =>
    rw [chars] at parts start
    simp only [List.all_cons, Bool.and_eq_true] at parts
    refine legible_word chars (by simpa using start) parts.2 kind ?_ ?_
    · rintro rfl
      cases h
    · rintro rfl
      cases h

end Piece

/-! ## Reading a list of pieces -/

theorem skipped_written {q : Piece} {c : Char} {cs : List Char} (rest : List Char)
    (chars : q.spelling = c :: cs) (notBlank : isBlank c = false) (notHash : c ≠ '#') :
    (skipped (q.written ++ rest)).2 = c :: (cs ++ rest) := by
  have here : skipped (c :: (cs ++ rest)) = ([], c :: (cs ++ rest)) := by
    simp [skipped, notBlank, notHash]
  unfold Piece.written
  split
  · rw [chars, List.cons_append, here]
  · have blank : isBlank ' ' = true := rfl
    rw [List.cons_append, chars, List.cons_append, skipped, if_pos blank, here]

theorem apart_written {ps : List Piece} (legible : ∀ q ∈ ps, q.Legible) :
    Apart (ps.flatMap Piece.written) := by
  cases ps with
  | nil =>
    intro c hc
    cases hc
  | cons q ps =>
    intro c hc
    obtain ⟨d, ds, chars, -⟩ := legible q List.mem_cons_self
    rw [List.flatMap_cons] at hc
    unfold Piece.written at hc
    split at hc
    · next line =>
      have first : q.spelling = ['\n'] := by simp [Piece.spelling, line]
      rw [first] at hc
      exact .inr (by simpa using hc.symm)
    · exact .inl (by simpa using hc.symm)

/-- The step of the scan over one piece. -/
theorem scanFrom_step (source file : String) (p : Position) {q : Piece} {c : Char}
    {cs after rest : List Char} (left : (skipped cs).2 = c :: after)
    (reads : ∀ p, (Scan.lexeme p c after).Is q rest) :
    ∃ p' t, t.piece = q ∧
      (scanFrom source file p cs).tokens = t :: (scanFrom source file p' rest).tokens ∧
      (scanFrom source file p cs).failure = (scanFrom source file p' rest).failure := by
  obtain ⟨kind, value, remains, closed⟩ := reads (p.past (skipped cs).1)
  obtain ⟨tokens, failure, -⟩ := scanFrom_token source file left rfl rfl closed
  rw [tokens, failure, remains]
  refine ⟨_, _, ?_, rfl, rfl⟩
  simp [Lexeme.token, Token.piece, kind, value, String.ofList_toList]

theorem scanFrom_written (source file : String) (p : Position) {q : Piece} {rest : List Char}
    (legible : q.Legible) (apart : Apart rest) :
    ∃ p' t, t.piece = q ∧
      (scanFrom source file p (q.written ++ rest)).tokens =
        t :: (scanFrom source file p' rest).tokens ∧
      (scanFrom source file p (q.written ++ rest)).failure =
        (scanFrom source file p' rest).failure := by
  obtain ⟨c, cs, chars, notBlank, notHash, reads⟩ := legible
  exact scanFrom_step source file p (skipped_written rest chars notBlank notHash)
    fun p => reads p rest apart

/-- What is written is read: the pieces come back in order, and the end of the
input behind them. -/
theorem scan_written (source file : String) (p : Position) (ps : List Piece)
    (legible : ∀ q ∈ ps, q.Legible) :
    (scanFrom source file p (ps.flatMap Piece.written)).tokens.map Token.piece = ps ++ [Piece.eof] ∧
      (scanFrom source file p (ps.flatMap Piece.written)).failure = none := by
  induction ps generalizing p with
  | nil =>
    rw [List.flatMap_nil, scanFrom]
    exact ⟨rfl, rfl⟩
  | cons q ps ih =>
    rw [List.flatMap_cons]
    have later : ∀ r ∈ ps, r.Legible := fun r hr => legible r (List.mem_cons_of_mem q hr)
    obtain ⟨p', t, piece, tokens, failure⟩ :=
      scanFrom_written source file p (legible q List.mem_cons_self) (apart_written later)
    obtain ⟨restTokens, restFailure⟩ := ih p' later
    rw [tokens, failure, List.map_cons, piece, restTokens]
    exact ⟨rfl, restFailure⟩

/-! ## Names in a scan -/

theorem isName_of_lexeme {p : Position} {c : Char} {rest : List Char}
    (h : (lexeme p c rest).kind = .identifier) :
    isName (String.ofList (lexeme p c rest).value) = true := by
  unfold lexeme at h ⊢
  split at h
  · cases h
  · split at h
    · cases h
    · split at h
      · exact absurd h (ne_of_mem_of_not_mem (numberKind_mem _) (by decide))
      · split at h
        · next line quote digit start =>
          rw [if_neg line, if_neg quote, if_neg digit, if_pos start]
          refine isName_iff.mpr ⟨c, rest.takeWhile isWordPart, by simp, start, ?_, h⟩
          exact List.all_takeWhile
        · exact absurd h (ne_of_mem_of_not_mem (symbol_mem c rest) (by decide))

theorem isDigit_of_lexeme {p : Position} {c : Char} {rest : List Char}
    (h : (lexeme p c rest).kind = .int) : (lexeme p c rest).value.all isDigit = true := by
  unfold lexeme at h ⊢
  split at h
  · cases h
  · split at h
    · cases h
    · split at h
      · next line quote digit =>
        rw [if_neg line, if_neg quote, if_pos digit]
        have noPoint : '.' ∉ c :: rest.takeWhile isNumberPart := by
          intro point
          have some := List.count_pos_iff.mpr point
          dsimp only [numberKind] at h
          split at h
          · omega
          · cases h
          · cases h
        refine List.all_eq_true.mpr fun d mem => ?_
        rcases List.mem_cons.mp mem with rfl | later
        · exact digit
        · have part := List.all_eq_true.mp List.all_takeWhile d later
          have other : d ≠ '.' := by
            rintro rfl
            exact noPoint mem
          simpa [isNumberPart, other] using part
      · split at h
        · exact absurd h (ne_of_mem_of_not_mem (Kind.ofWord_mem _) (by decide))
        · exact absurd h (ne_of_mem_of_not_mem (symbol_mem c rest) (by decide))

/-- A token of a scan was split off somewhere, or it is the end of input. -/
theorem mem_scanFrom {source file : String} {p : Position} {cs : List Char} {t : Token}
    (mem : t ∈ (scanFrom source file p cs).tokens) :
    (∃ stop, t = .endOfInput stop) ∨ ∃ start c rest, t = (lexeme start c rest).token start := by
  fun_induction scanFrom source file p cs with
  | case1 p cs start left => exact .inl ⟨start, by simpa using mem⟩
  | case2 p cs start c rest left l span warnings closed more ih =>
    rcases List.mem_cons.mp mem with rfl | later
    · exact .inr ⟨start, c, rest, rfl⟩
    · exact ih later
  | case3 p cs start c rest left l span warnings unclosed => cases mem

section Found

variable {source file : String} {p : Position} {cs : List Char} {t : Token}

/-- A name that the scanner finds is no reserved word. -/
theorem isName_of_mem_scanFrom (mem : t ∈ (scanFrom source file p cs).tokens)
    (h : t.kind = .identifier) : isName t.lexeme = true := by
  obtain ⟨stop, rfl⟩ | ⟨start, c, rest, rfl⟩ := mem_scanFrom mem
  · cases h
  · exact isName_of_lexeme h

/-- An integer that the scanner finds is made of digits. -/
theorem isDigit_of_mem_scanFrom (mem : t ∈ (scanFrom source file p cs).tokens)
    (h : t.kind = .int) : t.lexeme.toList.all isDigit = true := by
  obtain ⟨stop, rfl⟩ | ⟨start, c, rest, rfl⟩ := mem_scanFrom mem
  · cases h
  · simpa [Lexeme.token] using isDigit_of_lexeme h

end Found

/-- Digits without a sign write no negative number. -/
theorem intLiteral?_digits {lexeme : String} (digits : lexeme.toList.all isDigit = true) :
    Grammar.intLiteral? lexeme =
      if lexeme.toList.isEmpty then none
      else (some (Real.digitsValue 10 lexeme.toList : Int)).filter Value.inRange := by
  have noSign : Real.splitSign lexeme.toList = (false, lexeme.toList) := by
    unfold Real.splitSign
    split
    · next minus =>
      rw [minus] at digits
      cases digits
    · next plus =>
      rw [plus] at digits
      cases digits
    · rfl
  have all : lexeme.toList.all (fun c => '0' ≤ c && c ≤ '9') = true := digits
  simp only [Grammar.intLiteral?, Value.readInt?, noSign, all]
  simp

end Pseudocode
