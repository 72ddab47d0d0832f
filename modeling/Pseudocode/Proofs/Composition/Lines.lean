import Pseudocode.Proofs.Composition.Moved
import Pseudocode.Proofs.Scanning
/-
# `Proofs.Composition.Lines` — scanning two texts with a line end between them

No token reaches across a line end, so a text that scans without failure scans
in the same way when a line end and another text follow it (`scan_joined`).
The second text is scanned as if it stood alone, with its places moved
(`scanFrom_shifted`): the scanner looks at characters only, and uses the place
only to say where things are.
-/
namespace Pseudocode

namespace Scan

/-! ## The place does not matter -/

/-- What was read, without the places of the unknown escapes. -/
def StringBody.unplaced (b : StringBody) : StringBody := { b with unknown := [] }

/-- What was split off, without the places of the unknown escapes. -/
def Lexeme.unplaced (l : Lexeme) : Lexeme := { l with unknown := [] }

theorem stringBody_unplaced (quote : Char) (p q : Position) (cs : List Char) :
    (stringBody quote p cs).unplaced = (stringBody quote q cs).unplaced := by
  fun_induction stringBody quote p cs generalizing q with
  | case1 => rfl
  | case2 => rfl
  | case3 => rfl
  | case4 p c rest notLine body v known ih =>
    rw [stringBody_known _ _ known]
    exact congrArg (StringBody.after ['\\', c] [v]) (ih _)
  | case5 p c rest notLine body unknown ih =>
    rw [stringBody_noted _ _ notLine unknown]
    exact congrArg (StringBody.after ['\\', c] ['\\', c]) (ih _)
  | case6 p rest notEscape notLast notBroken => simp [stringBody]
  | case7 p rest notEscape notLast notBroken notQuote => simp [stringBody, notQuote]
  | case8 p c rest notLast _ notEscape notQuote notLine ih =>
    rw [stringBody_plain _ _ (ne_backslash notLast notEscape) notQuote notLine]
    exact congrArg (StringBody.after [c] [c]) (ih _)

theorem lexeme_unplaced (p q : Position) (c : Char) (rest : List Char) :
    (lexeme p c rest).unplaced = (lexeme q c rest).unplaced := by
  have body := stringBody_unplaced c (p.next c) (q.next c) rest
  simp only [StringBody.unplaced, StringBody.mk.injEq] at body
  unfold lexeme
  split
  · rfl
  · split
    · simp only [Lexeme.unplaced, body]
    · split
      · rfl
      · split <;> rfl

/-! ## The second text -/

theorem line_le_past (p : Position) (cs : List Char) : p.line ≤ (p.past cs).line := by
  induction cs generalizing p with
  | nil => exact Int.le_refl _
  | cons c cs ih =>
    have step : p.line ≤ (p.next c).line := by
      unfold Position.next
      split
      · show p.line ≤ p.line + 1
        omega
      · exact Int.le_refl _
    exact Int.le_trans step (ih _)

/-- A text further down is scanned as it is at its own start.  `same` says that
the two sources have the same lines there. -/
theorem scanFrom_shifted (d : Shift) {source source' : String} (file : String)
    (same : ∀ line, 1 ≤ line → lineText source' (line + d.lines) = lineText source line)
    (p : Position) (cs : List Char) (inText : 1 ≤ p.line) :
    (scanFrom source' file (d.apply p) cs).tokens =
        (scanFrom source file p cs).tokens.map (Token.moved d.apply) ∧
      (scanFrom source' file (d.apply p) cs).failure =
        (scanFrom source file p cs).failure.map (Diagnostic.moved d.apply) := by
  fun_induction scanFrom source file p cs with
  | case1 p cs start left =>
    rw [scanFrom_end _ _ left, ← d.apply_past]
    exact ⟨rfl, rfl⟩
  | case2 p cs start c rest left l span warnings closed more ih =>
    have further : 1 ≤ span.stop.line :=
      Int.le_trans (Int.le_trans inText (line_le_past p _)) (line_le_past _ _)
    obtain ⟨tokens, failure⟩ := ih further
    have read := lexeme_unplaced (d.apply start) start c rest
    simp only [Lexeme.unplaced, Lexeme.mk.injEq] at read
    obtain ⟨kind, value, taken, remains, -, isClosed⟩ := read
    obtain ⟨first, later, -⟩ := scanFrom_token source' file left
      (d.apply_past p _).symm rfl (isClosed.trans closed)
    rw [first, later, taken, remains, ← d.apply_past]
    refine ⟨?_, failure⟩
    rw [List.map_cons]
    refine congrArg₂ List.cons ?_ tokens
    rw [Lexeme.token, kind, value, taken, ← d.apply_past]
    rfl
  | case3 p cs start c rest left l span warnings unclosed =>
    have inText : 1 ≤ start.line := Int.le_trans inText (line_le_past p _)
    have read := lexeme_unplaced (d.apply start) start c rest
    simp only [Lexeme.unplaced, Lexeme.mk.injEq] at read
    obtain ⟨-, -, taken, -, -, isClosed⟩ := read
    have open_ : l.closed = false := by simpa using unclosed
    obtain ⟨first, later⟩ := scanFrom_unclosed source' file left
      (d.apply_past p _).symm rfl (isClosed.trans open_)
    rw [first, later, taken, ← d.apply_past]
    refine ⟨rfl, ?_⟩
    have line := same start.line inText
    simp only [unterminated, Diagnostic.withSource, Diagnostic.error, Diagnostic.moved,
      Option.map_some, Span.moved]
    rw [← line]
    rfl

/-! ## The first text -/

theorem takeWhile_line {f : Char → Bool} (stops : f '\n' = false) (cs bs : List Char) :
    (cs ++ '\n' :: bs).takeWhile f = cs.takeWhile f ∧
      (cs ++ '\n' :: bs).dropWhile f = cs.dropWhile f ++ '\n' :: bs := by
  induction cs with
  | nil => simp [stops]
  | cons c cs ih =>
    simp only [List.cons_append, List.takeWhile_cons, List.dropWhile_cons]
    split
    · exact ⟨congrArg _ ih.1, ih.2⟩
    · exact ⟨rfl, rfl⟩

theorem skipped_line (cs bs : List Char) :
    skipped (cs ++ '\n' :: bs) = ((skipped cs).1, (skipped cs).2 ++ '\n' :: bs) := by
  fun_induction skipped cs with
  | case1 => rw [List.nil_append, skipped, if_neg (by decide), if_neg (by decide)]
  | case2 c rest blank ih => rw [List.cons_append, skipped, if_pos blank, ih]
  | case3 rest notBlank =>
    obtain ⟨comment, after⟩ := takeWhile_line (f := (· != '\n')) rfl rest bs
    rw [List.cons_append, skipped, if_neg (by decide), if_pos rfl, comment, after]
  | case4 c rest notBlank notHash =>
    rw [List.cons_append, skipped, if_neg notBlank, if_neg notHash]

theorem stringBody_line (quote : Char) (p : Position) (cs bs : List Char)
    (closed : (stringBody quote p cs).closed = true) :
    stringBody quote p (cs ++ '\n' :: bs) =
      { stringBody quote p cs with rest := (stringBody quote p cs).rest ++ '\n' :: bs } := by
  fun_induction stringBody quote p cs with
  | case4 p c rest notLine body v known ih =>
    rw [List.cons_append, List.cons_append, stringBody_known _ _ known, ih closed]
    rfl
  | case5 p c rest notLine body unknown ih =>
    rw [List.cons_append, List.cons_append, stringBody_noted _ _ notLine unknown, ih closed]
    rfl
  | case6 p rest notLast _ notEscape =>
    have notBackslash := ne_backslash notLast notEscape
    simp [stringBody, notBackslash]
  | case8 p c rest notLast _ notEscape notQuote notLine ih =>
    have notBackslash := ne_backslash notLast notEscape
    rw [List.cons_append, stringBody_plain _ _ notBackslash notQuote notLine, ih closed]
    rfl
  | _ => cases closed

theorem pairKind_line (c : Char) : pairKind c '\n' = none := by
  unfold pairKind
  split <;> simp_all

theorem symbol_line (c : Char) (rest bs : List Char) :
    symbol c (rest ++ '\n' :: bs) = symbol c rest := by
  cases rest with
  | nil => simp only [symbol, List.nil_append, pairKind_line]
  | cons d rest => rfl

/-- A token that is closed does not reach across the line end behind it. -/
theorem lexeme_line (p : Position) (c : Char) (rest bs : List Char)
    (closed : (lexeme p c rest).closed = true) :
    lexeme p c (rest ++ '\n' :: bs) =
      { lexeme p c rest with rest := (lexeme p c rest).rest ++ '\n' :: bs } := by
  have number := takeWhile_line (f := isNumberPart) rfl rest bs
  have word := takeWhile_line (f := isWordPart) rfl rest bs
  unfold lexeme at closed ⊢
  split
  · rfl
  · next notLine =>
    rw [if_neg notLine] at closed
    split
    · next isQuote =>
      rw [if_pos isQuote] at closed
      simp only [stringBody_line _ _ _ _ closed]
    · split
      · simp only [number]
      · split
        · simp only [word]
        · have short : (symbol c rest).2.length ≤ rest.length := by
            have whole := congrArg List.length (symbol_append c rest)
            simp only [List.length_append, List.length_drop] at whole
            omega
          simp only [symbol_line, List.drop_append_of_le_length short]

/-- Only the end of input has the kind of it. -/
theorem lexeme_ne_eof (p : Position) (c : Char) (rest : List Char) :
    (lexeme p c rest).kind ≠ .eof := by
  unfold lexeme
  split
  · simp
  · split
    · simp
    · split
      · exact ne_of_mem_of_not_mem (numberKind_mem _) (by decide)
      · split
        · exact ne_of_mem_of_not_mem (Kind.ofWord_mem _) (by decide)
        · exact ne_of_mem_of_not_mem (symbol_mem c rest) (by decide)

/-- The token of a line end. -/
def lineEnd (p : Position) : Token := ⟨.newline, "\\n", ⟨p, p.next '\n'⟩⟩

/-- A text that is scanned without failure is scanned in the same way when a line
end and more follow, up to the end of input. -/
theorem scanFrom_joined (source source' file : String) (p : Position) (cs bs : List Char)
    (whole : (scanFrom source file p cs).failure = none) :
    ∃ (ts : List Token) (last : Token), (scanFrom source file p cs).tokens = ts ++ [last] ∧
      last.kind = .eof ∧ (∀ t ∈ ts, t.kind ≠ .eof) ∧
      (scanFrom source' file p (cs ++ '\n' :: bs)).tokens =
        ts ++ lineEnd (p.past cs) ::
          (scanFrom source' file (p.past (cs ++ ['\n'])) bs).tokens ∧
      (scanFrom source' file p (cs ++ '\n' :: bs)).failure =
        (scanFrom source' file (p.past (cs ++ ['\n'])) bs).failure := by
  fun_induction scanFrom source file p cs with
  | case1 p cs start left =>
    have all : (skipped cs).1 = cs := by
      have split := skipped_append cs
      rwa [left, List.append_nil] at split
    have split := skipped_line cs bs
    rw [left, all] at split
    obtain ⟨tokens, failure, -⟩ := scanFrom_token source' file (p := p)
      (congrArg Prod.snd split) (congrArg (p.past ·.1) split) rfl rfl
    refine ⟨[], _, rfl, rfl, fun t mem => absurd mem List.not_mem_nil, ?_, ?_⟩
    · rw [tokens, Position.past_append]
      rfl
    · rw [failure, Position.past_append]
      rfl
  | case2 p cs start c rest left l span warnings closed more ih =>
    obtain ⟨ts, last, before, eof, others, after, failed⟩ := ih whole
    have split := skipped_line cs bs
    rw [left] at split
    obtain ⟨tokens, failure, -⟩ := scanFrom_token source' file (p := p)
      (congrArg Prod.snd split) (congrArg (p.past ·.1) split) (lexeme_line _ _ _ bs closed) closed
    have read : ∀ ds, span.stop.past (l.rest ++ ds) = p.past (cs ++ ds) := by
      intro ds
      show (start.past l.taken).past (l.rest ++ ds) = p.past (cs ++ ds)
      rw [← Position.past_append, ← List.append_assoc, lexeme_append, ← left,
        ← Position.past_append, ← List.append_assoc, skipped_append]
    have here := read []
    rw [List.append_nil, List.append_nil] at here
    rw [here, read] at after
    rw [read] at failed
    refine ⟨l.token start :: ts, last, by rw [before]; rfl, eof, ?_, ?_, failure.trans failed⟩
    · exact List.forall_mem_cons.mpr ⟨lexeme_ne_eof _ _ _, others⟩
    · exact tokens.trans (congrArg (l.token start :: ·) after)
  | case3 p cs start c rest left l span warnings unclosed => cases whole

end Scan

/-! ## The lines of two texts -/

theorem splitLines_cons (c : Char) (cs : List Char) :
    splitLines (c :: cs) =
      if c = '\n' then [] :: splitLines cs
      else
        match splitLines cs with
        | [] => [[c]]
        | line :: more => (c :: line) :: more := rfl

theorem splitLines_ne_nil (cs : List Char) : splitLines cs ≠ [] := by
  cases cs with
  | nil => exact List.cons_ne_nil _ _
  | cons c cs =>
    rw [splitLines_cons]
    split
    · simp
    · split <;> simp

theorem splitLines_joined (cs bs : List Char) :
    splitLines (cs ++ '\n' :: bs) = splitLines cs ++ splitLines bs := by
  induction cs with
  | nil => rfl
  | cons c cs ih =>
    rw [List.cons_append, splitLines_cons, splitLines_cons, ih]
    split
    · rfl
    · cases found : splitLines cs with
      | nil => exact absurd found (splitLines_ne_nil cs)
      | cons line more => rfl

theorem length_splitLines (cs : List Char) :
    (splitLines cs).length = cs.count '\n' + 1 := by
  induction cs with
  | nil => rfl
  | cons c cs ih =>
    rw [splitLines_cons]
    split
    · next line =>
      subst line
      rw [List.length_cons, ih, List.count_cons_self]
    · next other =>
      have count : (c :: cs).count '\n' = cs.count '\n' :=
        List.count_cons_of_ne fun same => other same
      rw [count]
      cases found : splitLines cs with
      | nil => exact absurd found (splitLines_ne_nil cs)
      | cons line more =>
        rw [found] at ih
        exact ih

/-- A line of the second text, counted in the joined one. -/
theorem lineText_joined (a b : String) (line : Int) (inText : 1 ≤ line) :
    lineText (a ++ "\n" ++ b) (line + (Shift.below a).lines) = lineText b line := by
  have chars : (a ++ "\n" ++ b).toList = a.toList ++ '\n' :: b.toList := by simp
  have lines : (Shift.below a).lines = a.toList.count '\n' + 1 := rfl
  have index : (line + (Shift.below a).lines - 1).toNat =
      (splitLines a.toList).length + (line - 1).toNat := by
    rw [length_splitLines, lines]
    omega
  have later : ¬ line + (Shift.below a).lines < 1 := by
    rw [lines]
    omega
  rw [lineText, if_neg later, lineText, if_neg (by omega), chars, splitLines_joined, index,
    List.getElem?_append_right (Nat.le_add_right _ _), Nat.add_sub_cancel_left]

/-- The place where the second text starts. -/
theorem past_line (a : String) :
    Position.start.past (a.toList ++ ['\n']) = (Shift.below a).apply .start := by
  have counts := Position.counts_start.past a.toList
  rw [String.ofList_toList, String.empty_append] at counts
  have step : Position.start.past (a.toList ++ ['\n']) = (Position.start.past a.toList).next '\n' := by
    rw [Position.past_append]
    rfl
  rw [step, Position.next, if_pos rfl, counts.offset, counts.line]
  simp only [Shift.apply, Shift.below, Position.start, Position.mk.injEq, and_true]
  have size : ('\n' : Char).utf8Size = 1 := rfl
  omega

/-- What a scan of two texts with a line end between them finds: the tokens of
the first up to its end, the line end, and the tokens of the second, moved. -/
theorem Scan.scan_joined (a b file : String) (whole : (scan a file).failure = none) :
    ∃ (ts : List Token) (last : Token) (p : Position), (scan a file).tokens = ts ++ [last] ∧
      last.kind = .eof ∧ (∀ t ∈ ts, t.kind ≠ .eof) ∧
      (scan (a ++ "\n" ++ b) file).tokens =
        ts ++ lineEnd p :: (scan b file).tokens.map (Token.moved (Shift.below a).apply) ∧
      (scan (a ++ "\n" ++ b) file).failure =
        (scan b file).failure.map (Diagnostic.moved (Shift.below a).apply) := by
  have chars : (a ++ "\n" ++ b).toList = a.toList ++ '\n' :: b.toList := by simp
  have below := past_line a
  obtain ⟨ts, last, tokens, eof, others, joined, failure⟩ :=
    scanFrom_joined a (a ++ "\n" ++ b) file .start a.toList b.toList whole
  obtain ⟨moved, failed⟩ := scanFrom_shifted (Shift.below a) file (lineText_joined a b) .start
    b.toList (Int.le_refl 1)
  rw [below, moved] at joined
  rw [below, failed] at failure
  rw [← chars] at joined failure
  exact ⟨ts, last, _, tokens, eof, others, joined, failure⟩

end Pseudocode
