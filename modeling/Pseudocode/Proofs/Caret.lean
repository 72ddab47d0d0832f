import Pseudocode.Proofs.Composition.Program
/-
# `Proofs.Caret` — the caret stands under the character that is meant

A message about a text shows a line of it, and a caret under a column.  The scanner counts bytes,
lines and columns as it goes; the line is found by cutting the text at its line ends; the caret is
moved along the line character by character.  The three agree: the line is the one around the byte
at which the message points (`LineAround`), and unless the caret stands behind the line, the
character above it is the one that starts with this byte.
-/
namespace Pseudocode

open Grammar

/-! ## The line around a place -/

/-- The line of a source in which a byte stands, without its line end and one carriage return
before that.  The line end belongs to the line, and the end of the source to the last one. -/
def LineAround (source : String) (offset : Int) (line : String) : Prop :=
  ∃ before ending after : String, source = before ++ line ++ ending ++ after ∧
    (∀ c ∈ before.toList.getLast?, c = '\n') ∧ '\n' ∉ (line ++ ending).toList ∧
    (∀ c ∈ after.toList.head?, c = '\n') ∧
    (ending = "\r" ∨ ending = "" ∧ line.toList.getLast? ≠ some '\r') ∧
    before.utf8ByteSize ≤ offset ∧ offset ≤ (before ++ line ++ ending).utf8ByteSize

/-- What stands behind the last line end of a text. -/
def lastLine (cs : List Char) : List Char := (cs.reverse.takeWhile (· != '\n')).reverse

/-- What stands before the first line end of a text. -/
def firstLine (cs : List Char) : List Char := cs.takeWhile (· != '\n')

theorem not_mem_firstLine (cs : List Char) : '\n' ∉ firstLine cs := by
  intro line
  have free := List.all_eq_true.mp (List.all_takeWhile (p := (· != '\n')) (l := cs)) _ line
  exact absurd free (by decide)

theorem not_mem_lastLine (cs : List Char) : '\n' ∉ lastLine cs := by
  rw [lastLine, List.mem_reverse]
  exact not_mem_firstLine cs.reverse

theorem append_firstLine (cs : List Char) :
    ∃ rest, cs = firstLine cs ++ rest ∧ ∀ c ∈ rest.head?, c = '\n' := by
  refine ⟨cs.dropWhile (· != '\n'), List.takeWhile_append_dropWhile.symm, fun c first => ?_⟩
  have stopped := List.head?_dropWhile_not (· != '\n') cs
  rw [first] at stopped
  simpa using stopped

theorem append_lastLine (cs : List Char) :
    ∃ rest, cs = rest ++ lastLine cs ∧ ∀ c ∈ rest.getLast?, c = '\n' := by
  obtain ⟨rest, split, stops⟩ := append_firstLine cs.reverse
  refine ⟨rest.reverse, ?_, fun c last => stops c ?_⟩
  · rw [lastLine, ← firstLine, ← List.reverse_append, ← split, List.reverse_reverse]
  · rwa [List.getLast?_reverse] at last

theorem splitLines_head (cs : List Char) : (splitLines cs)[0]? = some (firstLine cs) := by
  induction cs with
  | nil => rfl
  | cons c cs ih =>
    rw [splitLines, firstLine, List.takeWhile_cons]
    by_cases line : c = '\n'
    · rw [if_pos line, line]
      rfl
    · rw [if_neg line, if_pos (by simpa using line)]
      cases found : splitLines cs with
      | nil => exact absurd found (splitLines_ne_nil cs)
      | cons first more =>
        rw [found] at ih
        obtain rfl := Option.some.inj ih
        rfl

/-- The line that a text ends in goes on in what follows. -/
theorem splitLines_append (cs ds : List Char) :
    (splitLines (cs ++ ds))[cs.count '\n']? = some (lastLine cs ++ firstLine ds) := by
  have joined : firstLine (lastLine cs ++ ds) = lastLine cs ++ firstLine ds := by
    refine List.takeWhile_append_of_pos fun c mem => ?_
    rw [bne_iff_ne]
    rintro rfl
    exact not_mem_lastLine cs mem
  obtain ⟨rest, split, stops⟩ := append_lastLine cs
  have count : cs.count '\n' = rest.count '\n' := by
    conv_lhs => rw [split]
    rw [List.count_append, List.count_eq_zero.mpr (not_mem_lastLine cs), Nat.add_zero]
  rw [count]
  conv_lhs => rw [split, List.append_assoc]
  rcases rest.eq_nil_or_concat' with rfl | ⟨lines, c, rfl⟩
  · rw [List.nil_append, List.count_nil, splitLines_head, joined]
  · obtain rfl := stops c List.getLast?_concat
    have index : (lines ++ ['\n']).count '\n' = (splitLines lines).length := by
      rw [length_splitLines, List.count_append]
      rfl
    rw [List.append_assoc, List.singleton_append, splitLines_joined, index,
      List.getElem?_append_right (Nat.le_refl _), Nat.sub_self, splitLines_head, joined]

theorem dropReturn_append (line : List Char) :
    ∃ ending, line = dropReturn line ++ ending ∧
      (ending = ['\r'] ∨ ending = [] ∧ (dropReturn line).getLast? ≠ some '\r') := by
  rw [dropReturn]
  split
  next last => exact ⟨['\r'], (List.dropLast_append_getLast? _ last).symm, .inl rfl⟩
  next other => exact ⟨[], (List.append_nil line).symm, .inr ⟨rfl, other⟩⟩

/-! ## Places -/

section Place

variable {before after : String} {p : Position}

theorem Position.Counts.lineText (h : p.Counts before) :
    lineText (before ++ after) p.line =
      String.ofList (dropReturn (lastLine before.toList ++ firstLine after.toList)) := by
  have inside : ¬ p.line < 1 := by
    rw [h.line]
    omega
  have index : (p.line - 1).toNat = before.toList.count '\n' := by
    rw [h.line]
    omega
  rw [Pseudocode.lineText, if_neg inside, index, String.toList_append, splitLines_append,
    Option.getD_some]

/-- The line that is shown for a place is the one around it. -/
theorem Position.Counts.lineAround (h : p.Counts before) :
    LineAround (before ++ after) p.offset (Pseudocode.lineText (before ++ after) p.line) := by
  obtain ⟨first, split, begins⟩ := append_lastLine before.toList
  obtain ⟨last, split', ends⟩ := append_firstLine after.toList
  have free : '\n' ∉ lastLine before.toList ++ firstLine after.toList := by
    rw [List.mem_append, not_or]
    exact ⟨not_mem_lastLine _, not_mem_firstLine _⟩
  have size : (before.utf8ByteSize : Int) = (String.ofList first).utf8ByteSize +
      (String.ofList (lastLine before.toList)).utf8ByteSize := by
    rw [← Int.natCast_add, ← String.utf8ByteSize_append, ← String.ofList_append, ← split,
      String.ofList_toList]
  rw [h.lineText]
  obtain ⟨ending, whole, cut⟩ :=
    dropReturn_append (lastLine before.toList ++ firstLine after.toList)
  refine ⟨.ofList first, .ofList ending, .ofList last, ?_, ?_, ?_, ?_, ?_, ?_, ?_⟩
  · rw [← String.ofList_append, ← String.ofList_append, ← String.ofList_append,
      List.append_assoc first, ← whole, ← List.append_assoc, ← split, List.append_assoc, ← split',
      String.ofList_append, String.ofList_toList, String.ofList_toList]
  · rwa [String.toList_ofList]
  · rwa [← String.ofList_append, ← whole, String.toList_ofList]
  · rwa [String.toList_ofList]
  · rcases cut with rfl | ⟨rfl, other⟩
    · exact .inl rfl
    · exact .inr ⟨rfl, by rwa [String.toList_ofList]⟩
  · rw [h.offset, size]
    omega
  · rw [h.offset, size, ← String.ofList_append, ← String.ofList_append, List.append_assoc, ← whole,
      ← List.append_assoc, String.ofList_append, String.ofList_append, String.utf8ByteSize_append,
      String.utf8ByteSize_append]
    omega

/-- The character in the column of a place, if the line that is shown goes on so far, starts at
the place. -/
theorem Position.Counts.char_at (h : p.Counts before) {c : Char}
    (found :
      (Pseudocode.lineText (before ++ after) p.line).toList[(p.column - 1).toNat]? = some c) :
    ∃ rest, after = String.ofList (c :: rest) := by
  have column : (p.column - 1).toNat = (lastLine before.toList).length := by
    rw [h.column, lastLine, List.length_reverse]
    omega
  obtain ⟨ending, whole, -⟩ :=
    dropReturn_append (lastLine before.toList ++ firstLine after.toList)
  obtain ⟨rest, split, -⟩ := append_firstLine after.toList
  rw [h.lineText, String.toList_ofList, column] at found
  have inLine :
      (lastLine before.toList ++ firstLine after.toList)[(lastLine before.toList).length]? =
        some c := by
    rw [whole, List.getElem?_append_left (List.getElem?_eq_some_iff.mp found).1, found]
  rw [List.getElem?_append_right (Nat.le_refl _), Nat.sub_self] at inLine
  cases first : firstLine after.toList with
  | nil =>
    rw [first] at inLine
    cases inLine
  | cons d line =>
    rw [first] at inLine split
    obtain rfl := Option.some.inj inLine
    exact ⟨line ++ rest, by rw [← List.cons_append, ← split, String.ofList_toList]⟩

end Place

/-! ## Messages -/

/-- The line that a message shows is that of its place. -/
theorem Scan.failure_source (source file : String) (p : Position) (cs : List Char) :
    ∀ d ∈ (scanFrom source file p cs).failure, d.source = lineText source d.span.start.line := by
  fun_induction scanFrom source file p cs with
  | case1 => rintro d ⟨⟩
  | case2 p cs start c rest left l span warnings closed more ih => exact ih
  | case3 =>
    rintro d ⟨⟩
    rfl

/-- A message about a text that does not parse stands at a place of the text, and shows its
line unless the text is empty. -/
theorem SourceError.placed {source file : String} {e : SourceError}
    (failed : parse source file = .error e) :
    e.diagnostic.span.start.Exact source ∧
      (e.diagnostic.source = "" ∨
        e.diagnostic.source = lineText source e.diagnostic.span.start.line) := by
  cases scanned : (Scan.scan source file).failure with
  | some d =>
    rw [parse_of_failure scanned] at failed
    injection failed with failed
    subst failed
    have listed := (Scan.scan_lossless source file).messages d
      (List.mem_append_left _ (by rw [scanned]; exact List.mem_singleton_self d))
    exact ⟨listed.1, .inr (Scan.failure_source source file _ _ d scanned)⟩
  | none =>
    rw [parse_of_scan scanned] at failed
    cases refused : program (Scan.scan source file).tokens with
    | ok body =>
      rw [refused] at failed
      cases failed
    | error r =>
      rw [refused] at failed
      injection failed with failed
      subst failed
      have place := (exact_of_refused scanned refused).1
      simp only [SourceError.diagnostic, Refusal.diagnostic]
      split
      · exact ⟨place, .inl rfl⟩
      · exact ⟨place, .inr rfl⟩

/-- The message about a text that does not parse, if it shows a line, shows the one around the
byte where it points.  The caret stands under the column of the place or right behind the line,
with tabs above tabs, and the character above it starts with this byte. -/
theorem caret_under_offender {source file : String} {e : SourceError}
    (failed : parse source file = .error e) (shown : e.diagnostic.source ≠ "") :
    let d := e.diagnostic
    let chars := d.source.toList
    let n := min (d.span.start.column - 1).toNat chars.length
    LineAround source d.span.start.offset d.source ∧
      d.render = d.text ++ "\n    " ++ d.source ++ "\n    " ++
        String.ofList ((chars.take n).map fun c => if c = '\t' then '\t' else ' ') ++ "^" ∧
      (n < chars.length → ∃ before c after, source = before ++ String.ofList (c :: after) ∧
        before.utf8ByteSize = d.span.start.offset ∧ chars[n]? = some c) := by
  intro d chars n
  obtain ⟨⟨before, after, whole, counts⟩, text⟩ := SourceError.placed failed
  have text := text.resolve_left shown
  refine ⟨?_, ?_, fun inside => ?_⟩
  · change LineAround source d.span.start.offset e.diagnostic.source
    rw [text, whole]
    exact counts.lineAround
  · rw [Diagnostic.render, if_neg shown, Diagnostic.caretIndent, ← List.take_eq_take_min]
    rfl
  · have column : n = (d.span.start.column - 1).toNat := by omega
    obtain ⟨c, above⟩ : ∃ c, chars[n]? = some c := ⟨_, List.getElem?_eq_getElem inside⟩
    have found := above
    rw [column] at found
    change e.diagnostic.source.toList[_]? = _ at found
    rw [text, whole] at found
    obtain ⟨rest, behind⟩ := counts.char_at found
    exact ⟨before, c, rest, by rw [whole, behind], counts.offset.symm, above⟩

/-- A wide character behind a tab, in a text with carriage returns. -/
theorem caret_under_accent :
    ∃ e, parse "x ← 'é'\r\n\té ← 2\r\n" "" = .error e ∧ e.diagnostic.source ≠ "" ∧
      LineAround "x ← 'é'\r\n\té ← 2\r\n" 13 "\té ← 2" ∧
      e.diagnostic.render =
        e.diagnostic.text ++ "\n    " ++ "\té ← 2" ++ "\n    " ++ "\t" ++ "^" ∧
      ∃ before after, "x ← 'é'\r\n\té ← 2\r\n" = before ++ String.ofList ('é' :: after) ∧
        before.utf8ByteSize = 13 := by
  have found : (match parse "x ← 'é'\r\n\té ← 2\r\n" "" with
      | .error e => e.diagnostic.source == "\té ← 2" && e.diagnostic.span.start == ⟨13, 2, 2⟩
      | .ok _ => false) = true := by
    decide +kernel
  cases failed : parse "x ← 'é'\r\n\té ← 2\r\n" "" with
  | ok body =>
    rw [failed] at found
    cases found
  | error e =>
    rw [failed] at found
    obtain ⟨line, place⟩ := (Bool.and_eq_true _ _).mp found
    have line := eq_of_beq line
    have place := eq_of_beq place
    have shown : e.diagnostic.source ≠ "" := by
      rw [line]
      decide
    obtain ⟨around, printed, above⟩ := caret_under_offender failed shown
    rw [line, place] at around printed above
    obtain ⟨before, c, after, whole, size, here⟩ := above (by decide)
    obtain rfl : 'é' = c := by simpa using here
    refine ⟨e, rfl, shown, around, ?_, before, after, whole, Int.ofNat.inj size⟩
    rw [printed]
    rfl

end Pseudocode
