import Pseudocode.Proofs.Composition.Program
import Pseudocode.Proofs.Depth.Productions
/-
# `Proofs.Depth.Lines` — the blocks that are open at the end of a line

No token but a line end reaches to the next line, and so the tokens of the first lines of a
text are the first tokens of the text.  What they have opened and not closed are the
constructs of the program that are open there (`blockDepth_counts_open`).
-/
namespace Pseudocode

open Grammar

/-! ## Tokens stand on lines -/

theorem Skippable.flat {after gap : List Char} (h : Skippable after gap) : '\n' ∉ gap := by
  induction h with
  | nothing => exact List.not_mem_nil
  | blank known _ ih =>
    refine List.not_mem_cons_of_ne_of_not_mem ?_ ih
    rintro rfl
    exact absurd known (by decide)
  | comment flat _ => exact List.not_mem_cons_of_ne_of_not_mem (by decide) flat

theorem Position.line_past {cs : List Char} (flat : '\n' ∉ cs) (p : Position) :
    (p.past cs).line = p.line := by
  induction cs generalizing p with
  | nil => rfl
  | cons c cs ih =>
    rw [past_cons, ih (List.not_mem_of_not_mem_cons flat), next,
      if_neg (List.ne_of_not_mem_cons flat).symm]

namespace Scan

theorem flat_stringBody {quote : Char} (notLine : quote ≠ '\n') (p : Position) (cs : List Char) :
    '\n' ∉ (stringBody quote p cs).taken := by
  have escaped : ∀ {c : Char} {taken : List Char}, (c = '\n' → False) → '\n' ∉ taken →
      '\n' ∉ ['\\', c] ++ taken := fun other flat =>
    List.not_mem_cons_of_ne_of_not_mem (by decide)
      (List.not_mem_cons_of_ne_of_not_mem (fun same => other same.symm) flat)
  fun_induction stringBody quote p cs with
  | case1 => exact List.not_mem_nil
  | case2 => decide
  | case3 rest => exact fun mem => absurd (List.mem_singleton.mp mem) (by decide)
  | case4 p c rest other body v known ih => exact escaped other ih
  | case5 p c rest other body unknown ih => exact escaped other ih
  | case6 => exact fun mem => notLine (List.mem_singleton.mp mem).symm
  | case7 => exact List.not_mem_nil
  | case8 p c rest _ _ _ notQuote other ih =>
    exact List.not_mem_cons_of_ne_of_not_mem (Ne.symm other) ih

theorem flat_symbol (c : Char) (rest : List Char) : '\n' ∉ (symbol c rest).2 := by
  unfold symbol
  split
  next d _ =>
    split
    next k pair =>
      intro mem
      rw [← List.mem_singleton.mp mem, pairKind_line] at pair
      cases pair
    next => exact List.not_mem_nil
  next => exact List.not_mem_nil

theorem flat_takeWhile {f : Char → Bool} (stops : f '\n' = false) (cs : List Char) :
    '\n' ∉ cs.takeWhile f := by
  intro mem
  have known := List.all_eq_true.mp (List.all_takeWhile (p := f) (l := cs)) _ mem
  rw [stops] at known
  cases known

/-- Only a line end has one in it. -/
theorem flat_lexeme {p : Position} {c : Char} {rest : List Char}
    (other : (lexeme p c rest).kind ≠ .newline) : '\n' ∉ (lexeme p c rest).taken := by
  unfold lexeme at other ⊢
  split at other
  · exact absurd rfl other
  next notLine =>
    rw [if_neg notLine]
    split
    next quoted =>
      refine List.not_mem_cons_of_ne_of_not_mem (Ne.symm notLine) (flat_stringBody notLine _ _)
    next =>
      split
      · exact List.not_mem_cons_of_ne_of_not_mem (Ne.symm notLine) (flat_takeWhile rfl rest)
      · split
        · exact List.not_mem_cons_of_ne_of_not_mem (Ne.symm notLine) (flat_takeWhile rfl rest)
        · exact List.not_mem_cons_of_ne_of_not_mem (Ne.symm notLine) (flat_symbol c rest)

theorem aligned_scanFrom (source file : String) (p : Position) (cs : List Char) :
    Aligned (scanFrom source file p cs).tokens ∧
      (∀ t ∈ (scanFrom source file p cs).tokens.head?, t.span.start.line = p.line) ∧
      ∀ t ∈ (scanFrom source file p cs).tokens, t.span.start.line ≤ t.span.stop.line := by
  fun_induction scanFrom source file p cs with
  | case1 p cs start left =>
    have line : start.line = p.line := Position.line_past (skippable_skipped cs).flat p
    refine ⟨⟨List.isChain_singleton _, ?_⟩, ?_, ?_⟩
    · rintro t mem -
      rw [List.mem_singleton.mp mem]
      rfl
    · rintro _ ⟨⟩
      exact line
    · rintro t mem
      rw [List.mem_singleton.mp mem]
      exact Int.le_refl _
  | case2 p cs start c rest left l span warnings closed more ih =>
    obtain ⟨⟨next, level⟩, first, forward⟩ := ih
    have line : start.line = p.line := Position.line_past (skippable_skipped cs).flat p
    refine ⟨⟨List.isChain_cons.mpr ⟨fun u known => ⟨lexeme_ne_eof _ _ _, (first u known).symm⟩, next⟩,
      List.forall_mem_cons.mpr ⟨fun other => ?_, level⟩⟩, ?_, List.forall_mem_cons.mpr ⟨?_, forward⟩⟩
    · exact (Position.line_past (flat_lexeme other) start).symm
    · rintro _ ⟨⟩
      exact line
    · exact line_le_past start _
  | case3 p cs start c rest left l span warnings unclosed =>
    exact ⟨⟨.nil, List.forall_mem_nil _⟩, (fun _ mem => by cases mem), List.forall_mem_nil _⟩

/-- The name of a text does not matter for its tokens, nor what else there is of it. -/
theorem scanFrom_elsewhere (source source' file file' : String) (p : Position) (cs : List Char) :
    (scanFrom source' file' p cs).tokens = (scanFrom source file p cs).tokens ∧
      ((scanFrom source file p cs).failure = none → (scanFrom source' file' p cs).failure = none) := by
  fun_induction scanFrom source file p cs with
  | case1 p cs start left =>
    rw [scanFrom_end _ _ left]
    exact ⟨rfl, id⟩
  | case2 p cs start c rest left l span warnings closed more ih =>
    obtain ⟨tokens, failure, -⟩ := scanFrom_token source' file' left rfl rfl closed
    rw [tokens, failure]
    exact ⟨congrArg (l.token start :: ·) ih.1, ih.2⟩
  | case3 p cs start c rest left l span warnings unclosed =>
    obtain ⟨tokens, -⟩ := scanFrom_unclosed source' file' left rfl rfl (Bool.eq_false_iff.mpr unclosed)
    exact ⟨tokens, fun none => by cases none⟩

/-- A string literal that is not closed on its line is not closed later. -/
theorem stringBody_line_unclosed {quote : Char} (notLine : quote ≠ '\n') (p : Position)
    (cs bs : List Char) (unclosed : (stringBody quote p cs).closed = false) :
    (stringBody quote p (cs ++ '\n' :: bs)).closed = false := by
  fun_induction stringBody quote p cs with
  | case1 => simp [stringBody, notLine.symm, StringBody.unclosed]
  | case2 => rfl
  | case3 => rfl
  | case4 p c rest other body v known ih =>
    rw [List.cons_append, List.cons_append, stringBody_known _ _ known]
    exact ih unclosed
  | case5 p c rest other body unknown ih =>
    rw [List.cons_append, List.cons_append, stringBody_noted _ _ other unknown]
    exact ih unclosed
  | case6 => cases unclosed
  | case7 => simp [stringBody, notLine.symm, StringBody.unclosed]
  | case8 p c rest notLast _ notEscape notQuote other ih =>
    have notBackslash := ne_backslash notLast notEscape
    rw [List.cons_append, stringBody_plain _ _ notBackslash notQuote other]
    exact ih unclosed

theorem lexeme_line_unclosed (p : Position) (c : Char) (rest bs : List Char)
    (unclosed : (lexeme p c rest).closed = false) :
    (lexeme p c (rest ++ '\n' :: bs)).closed = false := by
  unfold lexeme at unclosed ⊢
  split at unclosed
  · cases unclosed
  next notLine =>
    rw [if_neg notLine]
    split at unclosed
    next quoted =>
      rw [if_pos quoted]
      exact stringBody_line_unclosed notLine _ _ bs unclosed
    next =>
      split at unclosed
      · cases unclosed
      · split at unclosed <;> cases unclosed

/-- If a text scans without failure, so do its first lines. -/
theorem scanFrom_first (source file : String) (p : Position) (cs bs : List Char)
    (whole : (scanFrom source file p (cs ++ '\n' :: bs)).failure = none) :
    (scanFrom source file p cs).failure = none := by
  fun_induction scanFrom source file p cs with
  | case1 => rfl
  | case2 p cs start c rest left l span warnings closed more ih =>
    have split := skipped_line cs bs
    rw [left] at split
    obtain ⟨-, failure, -⟩ := scanFrom_token source file (p := p)
      (congrArg Prod.snd split) (congrArg (p.past ·.1) split) (lexeme_line _ _ _ bs closed) closed
    exact ih (failure ▸ whole)
  | case3 p cs start c rest left l span warnings unclosed =>
    have split := skipped_line cs bs
    rw [left] at split
    obtain ⟨-, failure⟩ := scanFrom_unclosed source file (p := p) (congrArg Prod.snd split)
      (congrArg (p.past ·.1) split) rfl (lexeme_line_unclosed _ _ _ bs (Bool.eq_false_iff.mpr unclosed))
    rw [failure] at whole
    cases whole

end Scan

/-! ## Marks stand on lines -/

theorem Token.line_of_mem_marks {t : Token} {before : Kind} {m : Mark} (mem : m ∈ t.marks before) :
    m.line = t.span.start.line := by
  rw [marks] at mem
  split at mem
  · rw [List.mem_singleton.mp mem]
    rfl
  · split at mem
    · rw [List.mem_singleton.mp mem]
      rfl
    · cases mem

/-- A mark is that of a token. -/
theorem exists_of_mem_marksFrom {ts : List Token} {before : Kind} {m : Mark}
    (mem : m ∈ marksFrom before ts) : ∃ t ∈ ts, ∃ k, m ∈ t.marks k := by
  induction ts generalizing before with
  | nil => cases mem
  | cons t ts ih =>
    rcases List.mem_append.mp mem with here | later
    · exact ⟨t, List.mem_cons_self, before, here⟩
    · obtain ⟨u, known, k, mark⟩ := ih later
      exact ⟨u, List.mem_cons_of_mem _ known, k, mark⟩

/-- Tokens on lines in order have marks on lines in order. -/
theorem ordered_marksFrom {ts : List Token}
    (ordered : ts.Pairwise fun t u => t.span.start.line ≤ u.span.start.line) (before : Kind) :
    Ordered (marksFrom before ts) := by
  induction ts generalizing before with
  | nil => exact .nil
  | cons t ts ih =>
    obtain ⟨first, later⟩ := List.pairwise_cons.mp ordered
    refine List.pairwise_append.mpr ⟨?_, ih later t.kind, fun m here n after => ?_⟩
    · rw [Token.marks]
      split
      · exact List.pairwise_singleton _ _
      · split
        · exact List.pairwise_singleton _ _
        · exact .nil
    · obtain ⟨u, known, k, mark⟩ := exists_of_mem_marksFrom after
      rw [Token.line_of_mem_marks here, Token.line_of_mem_marks mark]
      exact first u known

/-- The tokens of a text are on lines in order. -/
theorem Scan.lines_scan (source file : String) :
    (scan source file).tokens.Pairwise fun t u => t.span.start.line ≤ u.span.start.line := by
  obtain ⟨aligned, -, forward⟩ := aligned_scanFrom source file .start source.toList
  have next := aligned.next
  rw [scan]
  generalize (scanFrom source file .start source.toList).tokens = ts at next forward
  induction ts with
  | nil => exact .nil
  | cons t ts ih =>
    obtain ⟨here, forward⟩ := List.forall_mem_cons.mp forward
    have later := ih next.tail forward
    refine List.pairwise_cons.mpr ⟨fun u mem => ?_, later⟩
    cases ts with
    | nil => cases mem
    | cons v ts =>
      have step := (List.isChain_cons_cons.mp next).1.2
      have beyond : v.span.start.line ≤ u.span.start.line := by
        rcases List.mem_cons.mp mem with rfl | mem
        · exact Int.le_refl _
        · exact (List.pairwise_cons.mp later).1 u mem
      omega

/-- The depth is what the marks add up to, if all of them are counted. -/
theorem depthFrom_eq {line : Int} {ts : List Token} (above : ∀ t ∈ ts, t.span.start.line ≤ line)
    (before : Kind) :
    depthFrom before (ts.map (·.kind)) = depthBy line (marksFrom before ts) := by
  induction ts generalizing before with
  | nil => rfl
  | cons t ts ih =>
    obtain ⟨first, later⟩ := List.forall_mem_cons.mp above
    rw [List.map_cons, depthFrom, ih later, marksFrom, depthBy_append]
    refine congrArg (· + _) ?_
    rw [Kind.depthChange, Token.marks]
    split
    · simp [depthBy, Mark.line, Mark.change, first]
    · split
      · simp [depthBy, Mark.line, Mark.change, first]
      · rfl

theorem depthBy_beyond {line : Int} {ms : List Mark} (beyond : ∀ m ∈ ms, line < m.line) :
    depthBy line ms = 0 := by
  induction ms with
  | nil => rfl
  | cons m ms ih =>
    obtain ⟨first, later⟩ := List.forall_mem_cons.mp beyond
    rw [← List.singleton_append, depthBy_append, ih later]
    simp [depthBy, Int.not_le.mpr first]

/-! ## The first lines of a text -/

/-- The first lines of a text, without the line end behind the last of them. -/
def firstLines (k : Nat) (source : String) : String :=
  String.ofList (['\n'].intercalate ((splitLines source.toList).take k))

theorem flat_splitLines (cs : List Char) : ∀ line ∈ splitLines cs, '\n' ∉ line := by
  induction cs with
  | nil => exact List.forall_mem_singleton.mpr List.not_mem_nil
  | cons c cs ih =>
    rw [splitLines_cons]
    split
    · exact List.forall_mem_cons.mpr ⟨List.not_mem_nil, ih⟩
    next other =>
      split
      next => simpa using fun same => other same.symm
      next line more found =>
        rw [found] at ih
        obtain ⟨first, later⟩ := List.forall_mem_cons.mp ih
        exact List.forall_mem_cons.mpr
          ⟨List.not_mem_cons_of_ne_of_not_mem (Ne.symm other) first, later⟩

/-- Lines with line ends between them are the lines of a text. -/
theorem intercalate_splitLines (cs : List Char) : ['\n'].intercalate (splitLines cs) = cs := by
  induction cs with
  | nil => rfl
  | cons c cs ih =>
    rw [splitLines_cons]
    cases found : splitLines cs with
    | nil => exact absurd found (splitLines_ne_nil cs)
    | cons line more =>
      rw [found] at ih
      split
      next same =>
        rw [List.intercalate_cons_cons, ih, same]
        rfl
      next =>
        dsimp only
        cases more with
        | nil =>
          rw [List.intercalate_singleton] at ih ⊢
          rw [ih]
        | cons next more =>
          rw [List.intercalate_cons_cons] at ih ⊢
          rw [← ih]
          rfl

theorem splitLines_intercalate {lines : List (List Char)} (some : lines ≠ [])
    (flat : ∀ line ∈ lines, '\n' ∉ line) : splitLines (['\n'].intercalate lines) = lines := by
  have single : ∀ line : List Char, '\n' ∉ line → splitLines line = [line] := by
    intro line flat
    induction line with
    | nil => rfl
    | cons c line ih =>
      rw [splitLines_cons, if_neg (List.ne_of_not_mem_cons flat).symm,
        ih (List.not_mem_of_not_mem_cons flat)]
  induction lines with
  | nil => exact absurd rfl some
  | cons line more ih =>
    obtain ⟨first, later⟩ := List.forall_mem_cons.mp flat
    cases more with
    | nil => rw [List.intercalate_singleton, single line first]
    | cons next more =>
      rw [List.intercalate_cons_cons, List.append_assoc, List.singleton_append, splitLines_joined,
        single line first, ih (List.cons_ne_nil _ _) later]
      rfl

theorem intercalate_append {lines more : List (List Char)} (some : lines ≠ []) (others : more ≠ []) :
    ['\n'].intercalate (lines ++ more) =
      ['\n'].intercalate lines ++ '\n' :: ['\n'].intercalate more := by
  induction lines with
  | nil => exact absurd rfl some
  | cons line lines ih =>
    cases lines with
    | nil =>
      cases more with
      | nil => exact absurd rfl others
      | cons next more =>
        rw [List.intercalate_singleton, List.singleton_append, List.intercalate_cons_cons,
          List.append_assoc, List.singleton_append]
    | cons next lines =>
      rw [List.cons_append, List.cons_append, List.intercalate_cons_cons, List.intercalate_cons_cons,
        ← List.cons_append, ih (List.cons_ne_nil _ _), List.append_assoc, List.append_assoc,
        List.append_assoc]

/-- A text is its first lines, if there are no more; otherwise a line end follows them. -/
theorem firstLines_cases (k : Nat) (source : String) :
    k = 0 ∨ (splitLines source.toList).length ≤ k ∧ firstLines k source = source ∨
      ∃ b, source = firstLines k source ++ "\n" ++ b ∧
        (firstLines k source).toList.count '\n' + 1 = k := by
  by_cases zero : k = 0
  · exact .inl zero
  refine .inr ?_
  by_cases all : (splitLines source.toList).length ≤ k
  · refine .inl ⟨all, ?_⟩
    rw [firstLines, List.take_of_length_le all, intercalate_splitLines, String.ofList_toList]
  · have length : ((splitLines source.toList).take k).length = k := by
      rw [List.length_take]
      omega
    have some : (splitLines source.toList).take k ≠ [] := fun none => zero (by rw [← length, none]; rfl)
    have others : (splitLines source.toList).drop k ≠ [] := fun none => by
      have short := List.drop_eq_nil_iff.mp none
      exact all short
    refine .inr ⟨String.ofList (['\n'].intercalate ((splitLines source.toList).drop k)), ?_, ?_⟩
    · apply String.toList_inj.mp
      have whole := intercalate_splitLines source.toList
      rw [← List.take_append_drop k (splitLines source.toList), intercalate_append some others] at whole
      simpa [firstLines] using whole.symm
    · rw [firstLines, String.toList_ofList, ← length_splitLines, splitLines_intercalate some, length]
      exact fun line mem => flat_splitLines _ line (List.mem_of_mem_take mem)

section Tokens

variable {source file : String}

/-- The tokens of a text stand on its lines. -/
theorem Scan.line_of_mem_scan {t : Token} (mem : t ∈ (scan source file).tokens) :
    1 ≤ t.span.start.line ∧ t.span.start.line ≤ source.toList.count '\n' + 1 := by
  obtain ⟨⟨before, after, whole, counts⟩, -⟩ := (lossless_start source file).placed t mem
  have count : before.toList.count '\n' ≤ source.toList.count '\n' := by
    rw [whole, String.toList_append, List.count_append]
    exact Nat.le_add_right _ _
  rw [counts.line]
  omega

/-- The depth of a text is what the marks of its tokens add up to. -/
theorem blockDepth_eq (scanned : (Scan.scan source file).failure = none) {line : Int}
    (all : source.toList.count '\n' + 1 ≤ line) :
    blockDepth source = depthBy line (marksFrom .newline (Scan.scan source file).tokens) := by
  obtain ⟨tokens, failure⟩ := Scan.scanFrom_elsewhere source source file "" .start source.toList
  have unnamed : (Scan.scan source "").tokens = (Scan.scan source file).tokens := tokens
  have scanned' : (Scan.scan source "").failure = none := failure scanned
  rw [blockDepth, scanned', unnamed]
  exact depthFrom_eq (fun t mem => Int.le_trans (Scan.line_of_mem_scan mem).2 all) _

theorem marksFrom_append (before : Kind) (ts us : List Token) :
    ∃ k, marksFrom before (ts ++ us) = marksFrom before ts ++ marksFrom k us := by
  induction ts generalizing before with
  | nil => exact ⟨before, rfl⟩
  | cons t ts ih =>
    obtain ⟨k, later⟩ := ih t.kind
    exact ⟨k, by rw [List.cons_append, marksFrom, later, marksFrom, List.append_assoc]⟩

/-- The end of input has no mark. -/
theorem marksFrom_final {last : Token} (eof : last.kind = .eof) (before : Kind) (ts : List Token) :
    marksFrom before (ts ++ [last]) = marksFrom before ts := by
  obtain ⟨k, split⟩ := marksFrom_append before ts [last]
  have none : last.marks k = [] := by
    rw [Token.marks, eof]
    rfl
  rw [split, marksFrom, none]
  exact List.append_nil _

/-- Nor has a line end. -/
theorem marksFrom_lineEnd (before : Kind) (ts us : List Token) (p : Position) :
    marksFrom before (ts ++ Scan.lineEnd p :: us) = marksFrom before ts ++ marksFrom .newline us := by
  obtain ⟨k, split⟩ := marksFrom_append before ts (Scan.lineEnd p :: us)
  rw [split]
  rfl

theorem Scan.scan_empty (file : String) : scan "" file = ⟨[.endOfInput .start], [], none⟩ :=
  scanFrom_end "" file rfl

/-- A line end at the end of a text opens and closes nothing. -/
theorem blockDepth_lineEnd {a : String} (scanned : (Scan.scan a file).failure = none) :
    blockDepth (a ++ "\n") = blockDepth a := by
  obtain ⟨ts, last, p, tokens, eof, -, joined, failure⟩ := Scan.scan_joined a "" file scanned
  rw [Scan.scan_empty, String.append_empty] at joined failure
  have count : (a ++ "\n").toList.count '\n' = a.toList.count '\n' + 1 := by simp
  have whole := @blockDepth_eq a file scanned ((a ++ "\n").toList.count '\n' + 1) (by omega)
  rw [blockDepth_eq failure (Int.le_refl _), whole, tokens, joined, marksFrom_final eof,
    marksFrom_lineEnd]
  exact congrArg _ (List.append_nil _)

/-- Where a text is cut at the end of a line, the tokens before it tell what is open there. -/
theorem blockDepth_cut {a b : String} (cut : source = a ++ "\n" ++ b)
    (scanned : (Scan.scan source file).failure = none) :
    (Scan.scan a file).failure = none ∧ blockDepth a = depthBy (a.toList.count '\n' + 1)
      (marksFrom .newline (Scan.scan source file).tokens) := by
  subst cut
  have first : (Scan.scan a file).failure = none := by
    have chars : (a ++ "\n" ++ b).toList = a.toList ++ '\n' :: b.toList := by simp
    rw [Scan.scan, chars] at scanned
    have first := Scan.scanFrom_first _ _ _ _ _ scanned
    exact (Scan.scanFrom_elsewhere _ a file file .start a.toList).2 first
  refine ⟨first, ?_⟩
  obtain ⟨ts, last, p, tokens, eof, -, joined, -⟩ := Scan.scan_joined a b file first
  rw [blockDepth_eq first (Int.le_refl _), tokens, marksFrom_final eof, joined, marksFrom_lineEnd,
    depthBy_append]
  refine (Int.add_zero _).symm.trans (congrArg _ (depthBy_beyond fun m mem => ?_).symm)
  obtain ⟨t, known, k, mark⟩ := exists_of_mem_marksFrom mem
  obtain ⟨u, inText, rfl⟩ := List.mem_map.mp known
  rw [Token.line_of_mem_marks mark]
  have below := (Scan.line_of_mem_scan inText).1
  show _ < u.span.start.line + (a.toList.count '\n' + 1 : Int)
  omega

/-- What is open at the end of a line, by the tokens up to there. -/
theorem blockDepth_firstLines (scanned : (Scan.scan source file).failure = none) (k : Nat) :
    (Scan.scan (firstLines k source) file).failure = none ∧ blockDepth (firstLines k source) =
      depthBy k (marksFrom .newline (Scan.scan source file).tokens) := by
  rcases firstLines_cases k source with rfl | ⟨all, whole⟩ | ⟨b, cut, count⟩
  · have empty : blockDepth "" = 0 := by
      rw [blockDepth, Scan.scan_empty]
      rfl
    have none : firstLines 0 source = "" := rfl
    rw [none, empty, Scan.scan_empty]
    refine ⟨rfl, (depthBy_beyond fun m mem => ?_).symm⟩
    obtain ⟨t, known, k, mark⟩ := exists_of_mem_marksFrom mem
    rw [Token.line_of_mem_marks mark]
    exact (Scan.line_of_mem_scan known).1
  · rw [length_splitLines] at all
    rw [whole]
    exact ⟨scanned, blockDepth_eq scanned (by omega)⟩
  · have line : (k : Int) = (firstLines k source).toList.count '\n' + 1 := by omega
    rw [line]
    exact blockDepth_cut cut scanned

end Tokens

/-! ## The blocks that are open -/

/-- The tokens between which a construct stands. -/
def Construct.Between (tokens : List Token) (c : Construct) : Prop :=
  (∃ t ∈ tokens, t.kind = c.word ∧ t.span.start = c.start) ∧
    ∃ t ∈ tokens, t.kind.closesBlock ∧ t.span.start.line = c.last

theorem Construct.Marked.between {before : Kind} {tokens : List Token} {c : Construct}
    (h : c.Marked (marksFrom before tokens)) : c.Between tokens := by
  constructor
  · obtain ⟨t, known, k, mark⟩ := exists_of_mem_marksFrom h.1
    refine ⟨t, known, ?_⟩
    rw [Token.marks] at mark
    split at mark
    · injection List.mem_singleton.mp mark with kind start
      exact ⟨kind.symm, start.symm⟩
    · split at mark
      · cases List.mem_singleton.mp mark
      · cases mark
  · obtain ⟨t, known, k, mark⟩ := exists_of_mem_marksFrom h.2
    refine ⟨t, known, ?_⟩
    rw [Token.marks] at mark
    split at mark
    · cases List.mem_singleton.mp mark
    · split at mark
      next closes =>
        injection List.mem_singleton.mp mark with line
        exact ⟨closes, line.symm⟩
      next => cases mark

/-- In a program nothing stays open, and after each of its lines the depth is the number of
constructs that have been opened up to there and are closed further down. -/
theorem blockDepth_counts_open {source file : String} {tree : Block}
    (parsed : parse source file = .ok tree) :
    blockDepth source = 0 ∧
      (∀ k : Nat, blockDepth (firstLines k source) = openAt k tree.constructs ∧
        blockDepth (firstLines k source ++ "\n") = openAt k tree.constructs) ∧
      ∀ c ∈ tree.constructs, c.Between (Scan.scan source file).tokens := by
  obtain ⟨scanned, accepted⟩ := parse_eq_ok parsed
  have marks := marks_of_program (Scan.aligned_scanFrom source file .start source.toList).1 accepted
  have between : ∀ c ∈ tree.constructs, c.Between (Scan.scan source file).tokens := by
    intro c mem
    have marked := tree.marked c mem
    rw [marks] at marked
    exact marked.between
  have counted : ∀ line, depthBy line (marksFrom .newline (Scan.scan source file).tokens) =
      openAt line tree.constructs := by
    intro line
    have ordered := ordered_marksFrom (Scan.lines_scan source file) .newline
    rw [Scan.scan, ← marks] at ordered ⊢
    exact tree.depthBy_marks ordered
  refine ⟨?_, fun k => ?_, between⟩
  · rw [blockDepth_eq scanned (Int.le_refl _), counted]
    refine congrArg _ (List.countP_eq_zero.mpr fun c mem open_ => ?_)
    obtain ⟨-, t, known, -, last⟩ := between c mem
    have inText := (Scan.line_of_mem_scan known).2
    have later := (of_decide_eq_true open_).2
    omega
  · obtain ⟨first, depth⟩ := blockDepth_firstLines scanned k
    rw [blockDepth_lineEnd first, depth]
    exact ⟨counted k, counted k⟩

/-- The `ELSE IF` does not count, nor does it matter that the `IF` ends with a plain `END`. -/
theorem blockDepth_counts_open_nested :
    let source := "FOR i ← 1 TO 2\n  IF i = 1 THEN OUTPUT i ELSE IF i = 2 THEN\n  END\nENDFOR"
    let constructs := [Construct.mk .kwFor .start 4, .mk .kwIf ⟨19, 2, 3⟩ 3]
    ∃ tree, parse source "" = .ok tree ∧ tree.constructs = constructs ∧ blockDepth source = 0 ∧
      ∀ k : Nat, blockDepth (firstLines k source) = openAt k constructs := by
  intro source constructs
  have found : (parse source "").toOption.map Block.constructs = some constructs := by decide +kernel
  cases parsed : parse source "" with
  | error e =>
    rw [parsed] at found
    cases found
  | ok tree =>
    rw [parsed] at found
    have same : tree.constructs = constructs := Option.some.inj found
    obtain ⟨whole, lines, -⟩ := blockDepth_counts_open parsed
    exact ⟨tree, rfl, same, whole, fun k => same ▸ (lines k).1⟩

end Pseudocode
