import Mathlib.Algebra.GroupWithZero.Nat
import Pseudocode.Proofs.Printing.Piece
import Pseudocode.Proofs.Scanning
/-
# `Proofs.Spacing` — blanks between tokens mean nothing

Take the texts of the tokens of a source out of it and put single blanks between
them: the scan of what comes out finds the same tokens (`scan_respaced`).  Where a
token ends is decided by the longest match, and the longest match looks at what
follows; so the one thing to prove is that a token which ends before some text
also ends before a blank (`separate_lexeme`).  Everything else is bookkeeping, for
which a `Part` keeps what a scan says of one token apart from where it stands.
A scan breaks its source into separate parts (`scanFrom_parts`), and separate parts
with blanks between them are scanned one by one (`scanFrom_spaced`).
-/
namespace Pseudocode

/-- The text of the source from the start to the stop of the span. -/
def Span.excerpt (source : String) (s : Span) : String :=
  (String.fromUTF8? (s.bytes source)).getD ""

theorem Span.Covers.excerpt {source text : String} {s : Span} (h : s.Covers source text) :
    s.excerpt source = text := by
  have valid : text.toByteArray.IsValidUTF8 := text.isValidUTF8
  rw [Span.excerpt, h.bytes, String.fromUTF8?, dif_pos valid]
  rfl

/-- The texts of the tokens, with a blank between each and the next. -/
def respaced (source : String) (tokens : List Token) : String :=
  " ".intercalate (tokens.map fun t => t.span.excerpt source)

namespace Scan

/-! ## A token before a blank -/

/-- A literal that is closed is read alike wherever it stands and whatever follows. -/
theorem stringBody_before {quote : Char} {p : Position} {cs : List Char}
    (closed : (stringBody quote p cs).closed = true) (p' : Position) (after : List Char) :
    let b := stringBody quote p cs
    let b' := stringBody quote p' (b.taken ++ after)
    b'.value = b.value ∧ b'.rest = after ∧ b'.closed = true ∧
      b'.unknown.length = b.unknown.length := by
  fun_induction stringBody quote p cs generalizing p' with
  | case1 | case2 | case3 | case7 => cases closed
  | case4 p c rest notLine body v known ih =>
    obtain ⟨value, remains, shut, unknown⟩ := ih closed (p'.past ['\\', c])
    simp only [StringBody.after, List.cons_append, List.nil_append]
    rw [stringBody_known _ _ known]
    exact ⟨congrArg (v :: ·) value, remains, shut, unknown⟩
  | case5 p c rest notLine body new ih =>
    obtain ⟨value, remains, shut, unknown⟩ := ih closed (p'.past ['\\', c])
    simp only [StringBody.after, StringBody.noting, List.cons_append, List.nil_append]
    rw [stringBody_noted _ _ notLine new]
    exact ⟨congrArg (['\\', c] ++ ·) value, remains, shut, congrArg (· + 1) unknown⟩
  | case6 p rest last _ pair =>
    have slash := ne_backslash last pair
    simp [stringBody, slash]
  | case8 p c rest last _ pair other line ih =>
    have slash := ne_backslash last pair
    obtain ⟨value, remains, shut, unknown⟩ := ih closed (p'.next c)
    simp only [StringBody.after, List.cons_append, List.nil_append]
    rw [stringBody_plain _ _ slash other line]
    exact ⟨congrArg (c :: ·) value, remains, shut, unknown⟩

/-- A run of characters ends before a blank if a blank is none of them. -/
theorem run_before {f : Char → Bool} (rest : List Char) {after : List Char} (apart : Apart after)
    (blank : f ' ' = false) (line : f '\n' = false) :
    (rest.takeWhile f ++ after).takeWhile f = rest.takeWhile f ∧
      (rest.takeWhile f ++ after).dropWhile f = after :=
  Piece.takeWhile_stop (List.all_eq_true.mp List.all_takeWhile)
    (Piece.stop_of_apart apart blank line)

/-- A blank makes no longer operator of any. -/
theorem symbol_before (c : Char) (rest : List Char) {after : List Char} (apart : Apart after) :
    symbol c ((symbol c rest).2 ++ after) = symbol c rest := by
  have alone : symbol c after = (symbolKind c, []) := by
    unfold symbol
    split
    · next d ds =>
      rcases apart d rfl with rfl | rfl <;> simp [pairKind]
    · rfl
  cases rest with
  | nil => exact alone
  | cons d ds =>
    cases pair : pairKind c d with
    | some k => simp [symbol, pair]
    | none => simpa [symbol, pair] using alone

/-- What a scan says of one token, apart from where it stands: its text in the source,
what it is, and the number of warnings about it. -/
structure Part where
  text : List Char
  piece : Piece
  warned : Nat

/-- The part is read off its text if nothing or a blank follows. -/
def Part.Separate (q : Part) : Prop :=
  ∃ c cs, q.text = c :: cs ∧ isBlank c = false ∧ c ≠ '#' ∧
    ∀ (p : Position) (after : List Char), Apart after →
      (lexeme p c (cs ++ after)).Is q.piece after ∧
        (lexeme p c (cs ++ after)).unknown.length = q.warned

def Lexeme.part (l : Lexeme) : Part :=
  ⟨l.taken, ⟨l.kind, String.ofList l.value⟩, l.unknown.length⟩

/-- A token that is complete ends before a blank as it did before what followed it. -/
theorem separate_lexeme {p : Position} {c : Char} {rest : List Char}
    (closed : (lexeme p c rest).closed = true) (notBlank : isBlank c = false)
    (notHash : c ≠ '#') : (lexeme p c rest).part.Separate := by
  unfold Lexeme.part
  by_cases line : c = '\n'
  · refine ⟨c, [], by simp [lexeme, line], notBlank, notHash, ?_⟩
    intro p' after _
    refine ⟨⟨?_, ?_, ?_, ?_⟩, ?_⟩ <;> simp [lexeme, line]
  by_cases quote : (c = '"' || c = '\'') = true
  · have shut : (stringBody c (p.next c) rest).closed = true := by
      simpa only [lexeme, if_neg line, if_pos quote] using closed
    refine ⟨c, (stringBody c (p.next c) rest).taken, ?_, notBlank, notHash, ?_⟩
    · simp only [lexeme, if_neg line, if_pos quote]
    · intro p' after _
      obtain ⟨value, remains, shut, unknown⟩ := stringBody_before shut (p'.next c) after
      simp only [lexeme, if_neg line, if_pos quote]
      exact ⟨⟨rfl, by simp [value], remains, shut⟩, unknown⟩
  by_cases digit : isDigit c = true
  · refine ⟨c, rest.takeWhile isNumberPart, ?_, notBlank, notHash, ?_⟩
    · simp only [lexeme, if_neg line, if_neg quote, if_pos digit]
    · intro p' after apart
      obtain ⟨taken, left⟩ := run_before (f := isNumberPart) rest apart (by decide) (by decide)
      simp only [lexeme, if_neg line, if_neg quote, if_pos digit, taken, left]
      exact ⟨⟨rfl, by simp, rfl, rfl⟩, trivial⟩
  by_cases word : isWordStart c = true
  · refine ⟨c, rest.takeWhile isWordPart, ?_, notBlank, notHash, ?_⟩
    · simp only [lexeme, if_neg line, if_neg quote, if_neg digit, if_pos word]
    · intro p' after apart
      obtain ⟨taken, left⟩ := run_before (f := isWordPart) rest apart (by decide) (by decide)
      simp only [lexeme, if_neg line, if_neg quote, if_neg digit, if_pos word, taken, left]
      exact ⟨⟨rfl, by simp, rfl, rfl⟩, trivial⟩
  · refine ⟨c, (symbol c rest).2, ?_, notBlank, notHash, ?_⟩
    · simp only [lexeme, if_neg line, if_neg quote, if_neg digit, if_neg word]
    · intro p' after apart
      simp only [lexeme, if_neg line, if_neg quote, if_neg digit, if_neg word,
        symbol_before c rest apart]
      exact ⟨⟨rfl, by simp, by simp, rfl⟩, trivial⟩

/-- Only a line end is a token of that kind. -/
theorem taken_of_newline {p : Position} {c : Char} {rest : List Char}
    (h : (lexeme p c rest).kind = .newline) : (lexeme p c rest).taken = ['\n'] := by
  unfold lexeme at h ⊢
  split
  · next line => rw [line]
  · next line =>
    rw [if_neg line] at h
    split at h
    · cases h
    · split at h
      · exact absurd h (ne_of_mem_of_not_mem (numberKind_mem _) (by decide))
      · split at h
        · exact absurd h (ne_of_mem_of_not_mem (Kind.ofWord_mem _) (by decide))
        · exact absurd h (ne_of_mem_of_not_mem (symbol_mem c rest) (by decide))

/-! ## A text of parts -/

/-- The texts with a blank between each and the next. -/
def spaced (texts : List (List Char)) : List Char := [' '].intercalate texts

theorem spaced_cons (text : List Char) (texts : List (List Char)) :
    ∃ after, spaced (text :: texts) = text ++ after ∧ Apart after ∧
      after ∈ [spaced texts, ' ' :: spaced texts] := by
  cases texts with
  | nil => exact ⟨[], by simp [spaced], by simp [Apart], by simp [spaced]⟩
  | cons next texts =>
    refine ⟨' ' :: spaced (next :: texts), ?_, by simp [Apart], by simp⟩
    simp [spaced, List.intercalate_cons_cons]

/-- A complete scan that finds the parts one after another. -/
structure Report.Finds (r : Report) (parts : List Part) : Prop where
  pieces : r.tokens.map Token.piece = parts.map Part.piece ++ [.eof]
  warnings : r.warnings.length = (parts.map Part.warned).sum
  failure : r.failure = none

/-- Separate parts with blanks between them are scanned one by one; `ending` may put a
last blank behind them. -/
theorem scanFrom_spaced (source file : String) {parts : List Part}
    (separate : ∀ q ∈ parts, q.Separate) {ending : List (List Char)} (last : ending ∈ [[], [[]]])
    (p : Position) {cs : List Char}
    (text : cs ∈ [spaced (parts.map Part.text ++ ending),
      ' ' :: spaced (parts.map Part.text ++ ending)]) :
    (scanFrom source file p cs).Finds parts := by
  induction parts generalizing p cs with
  | nil =>
    have left : (skipped cs).2 = [] := by
      have none : spaced ending = [] := by
        simp only [List.mem_cons, List.not_mem_nil, or_false] at last
        rcases last with rfl | rfl <;> rfl
      simp only [List.map_nil, List.nil_append, none, List.mem_cons, List.not_mem_nil,
        or_false] at text
      rcases text with rfl | rfl <;> rfl
    rw [scanFrom_end source file left]
    exact ⟨rfl, rfl, rfl⟩
  | cons q parts ih =>
    obtain ⟨here, later⟩ := List.forall_mem_cons.mp separate
    obtain ⟨c, ds, chars, notBlank, notHash, reads⟩ := here
    obtain ⟨after, whole, apart, continued⟩ :=
      spaced_cons q.text (parts.map Part.text ++ ending)
    have left : (skipped cs).2 = c :: (ds ++ after) := by
      rw [List.map_cons, List.cons_append, whole, chars] at text
      simp only [List.mem_cons, List.not_mem_nil, or_false] at text
      have blank : isBlank ' ' = true := rfl
      rcases text with rfl | rfl <;> simp [skipped, blank, notBlank, notHash]
    obtain ⟨⟨kind, value, remains, closed⟩, unknown⟩ := reads (p.past (skipped cs).1) after apart
    obtain ⟨first, failed, warned⟩ := scanFrom_token source file left rfl rfl closed
    rw [remains] at first failed warned
    have more := fun p' => ih later p' continued
    constructor
    · rw [first, List.map_cons, List.map_cons, List.cons_append, (more _).pieces]
      simp [Lexeme.token, Token.piece, kind, value]
    · rw [warned, List.length_append, List.length_map, unknown, (more _).warnings, List.map_cons,
        List.sum_cons]
    · rw [failed, (more _).failure]

/-! ## The parts of a text -/

/-- What stands behind `before` is broken into separate parts. -/
theorem scanFrom_parts (source file : String) (p : Position) (cs : List Char)
    (scanned : (scanFrom source file p cs).failure = none) :
    ∀ before : String, source = before ++ String.ofList cs → p.Counts before →
      ∃ parts : List Part, (∀ q ∈ parts, q.Separate) ∧ (scanFrom source file p cs).Finds parts ∧
        (scanFrom source file p cs).tokens.map (·.span.excerpt source) =
          parts.map (String.ofList ·.text) ++ [""] ∧
        ∀ t ∈ (scanFrom source file p cs).tokens, t.kind = .newline →
          t.span.excerpt source = "\n" := by
  fun_induction scanFrom source file p cs with
  | case1 p cs start left =>
    intro before whole here
    have covers : Span.Covers source ⟨start, start⟩ "" := by
      have split := skipped_append cs
      rw [left, ← List.append_nil (skipped cs).1] at split
      rw [← split] at whole
      simpa using covers_of_append whole here
    refine ⟨[], by simp, ⟨rfl, rfl, rfl⟩, ?_, ?_⟩
    · simpa [Token.endOfInput] using covers.excerpt
    · simp [Token.endOfInput]
  | case2 p cs start c rest left l span warnings closed more ih =>
    intro before whole here
    obtain ⟨before', behind, first, covers⟩ := covers_lexeme whole here left
    have later : source = before' ++ String.ofList l.taken ++ String.ofList l.rest := by
      rw [behind, ← lexeme_append start c rest, String.ofList_append, ← String.append_assoc]
    obtain ⟨parts, separate, finds, texts, lines⟩ := ih scanned _ later (first.past _)
    obtain ⟨notBlank, notHash⟩ := skipped_stop left
    refine ⟨l.part :: parts, ?_, ⟨?_, ?_, finds.failure⟩, ?_, ?_⟩
    · exact List.forall_mem_cons.mpr ⟨separate_lexeme closed notBlank notHash, separate⟩
    · rw [List.map_cons, finds.pieces]
      rfl
    · rw [List.length_append, finds.warnings, List.length_map]
      rfl
    · rw [List.map_cons, texts, covers.excerpt]
      rfl
    · refine List.forall_mem_cons.mpr ⟨?_, lines⟩
      intro kind
      rw [covers.excerpt, taken_of_newline kind]
  | case3 => cases scanned

end Scan

open Scan

/-- Blanks between tokens mean nothing: the texts of the tokens of a source with single
blanks between them, the empty text of the end of input behind them or not, are scanned
to the same tokens with as many warnings. -/
theorem scan_respaced {source file : String} (scanned : (scan source file).failure = none)
    (file' : String) :
    (∀ t ∈ (scan source file).tokens, t.kind = .newline → t.span.excerpt source = "\n") ∧
    ∀ tokens ∈ [(scan source file).tokens, (scan source file).tokens.dropLast],
      let again := scan (respaced source tokens) file'
      again.failure = none ∧
        again.tokens.map Token.piece = (scan source file).tokens.map Token.piece ∧
        again.warnings.length = (scan source file).warnings.length := by
  obtain ⟨parts, separate, finds, texts, lines⟩ := scanFrom_parts source file .start source.toList
    scanned "" (by rw [String.ofList_toList, String.empty_append]) Position.counts_start
  change (scan source file).tokens.map _ = _ at texts
  refine ⟨lines, ?_⟩
  intro tokens mem
  have excerpts : ∃ ending ∈ [[], [[]]], tokens.map (·.span.excerpt source) =
      (parts.map Part.text ++ ending).map String.ofList := by
    simp only [List.mem_cons, List.not_mem_nil, or_false] at mem
    rcases mem with rfl | rfl
    · exact ⟨[[]], by simp, by simp [texts, Function.comp_def]⟩
    · exact ⟨[], by simp, by simp [List.map_dropLast, texts, Function.comp_def]⟩
  obtain ⟨ending, last, excerpts⟩ := excerpts
  have text : (respaced source tokens).toList = spaced (parts.map Part.text ++ ending) := by
    rw [respaced, String.toList_intercalate, excerpts]
    simp [spaced, Function.comp_def]
  have again : (scan (respaced source tokens) file').Finds parts := by
    refine scanFrom_spaced _ _ separate last _ ?_
    rw [text]
    exact List.mem_cons_self
  exact ⟨again.failure, again.pieces.trans finds.pieces.symm,
    again.warnings.trans finds.warnings.symm⟩

/-- A text without blanks, with a comment and an unknown escape. -/
def tight : String := "x:=-1**2#c\n'\\q'<=n.a"

theorem scan_respaced_tight :
    (scan tight "").failure = none ∧
      respaced tight (scan tight "").tokens = "x := - 1 ** 2 \n '\\q' <= n . a " ∧
      (scan (respaced tight (scan tight "").tokens) "").failure = none ∧
      (scan (respaced tight (scan tight "").tokens) "").tokens.map Token.piece =
        (scan tight "").tokens.map Token.piece ∧
      (scan (respaced tight (scan tight "").tokens) "").warnings.length = 1 := by
  have scanned : (scan tight "").failure = none := by decide +kernel
  have warned : (scan tight "").warnings.length = 1 := by decide +kernel
  obtain ⟨failure, pieces, warnings⟩ := (scan_respaced scanned "").2 _ List.mem_cons_self
  exact ⟨scanned, by decide +kernel, failure, pieces, warnings.trans warned⟩

end Pseudocode
