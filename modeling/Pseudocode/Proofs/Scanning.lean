import Mathlib.Data.List.Chain
import Pseudocode.Token.Scan
/-
# `Proofs.Scanning` — nothing is lost between the tokens

A scan accounts for every byte of its source.  `Report.Lossless` lists what that
means: tokens follow one another, what stands between them is blanks and
comments, the end of input stands at the end, and a token has the bytes of its
span as its text, strings and line ends apart.  Every place that is reported, of
a token, of a warning or of an error, counts the bytes, lines and characters of
the text before it (`Position.Counts`).

The scanner moves places only by `Position.past`, so the counts are proved once,
for `past` (`counts_past`); what remains is which text lies before which place,
and the induction over the scan carries that.
-/
namespace Pseudocode

/-! ## What places count -/

/-- The place is the one after `before`: its offset is the number of bytes, its
line one more than the line ends, its column one more than the characters after
the last of them. -/
structure Position.Counts (p : Position) (before : String) : Prop where
  offset : p.offset = before.utf8ByteSize
  line : p.line = 1 + before.toList.count '\n'
  column : p.column = 1 + (before.toList.reverse.takeWhile (· != '\n')).length

theorem Position.counts_start : Position.start.Counts "" := ⟨rfl, rfl, rfl⟩

/-- One character more. -/
theorem Position.Counts.next {p : Position} {before : String} (h : p.Counts before) (c : Char) :
    (p.next c).Counts (before.push c) := by
  unfold Position.next
  split
  · next line =>
    subst line
    exact ⟨by simp [h.offset], by simp [h.line, Int.add_assoc], by simp⟩
  · next other =>
    refine ⟨by simp [h.offset], by simp [h.line, other], ?_⟩
    simp [h.column, other]
    omega

theorem Position.Counts.past {p : Position} {before : String} (h : p.Counts before)
    (cs : List Char) : (p.past cs).Counts (before ++ String.ofList cs) := by
  induction cs generalizing p before with
  | nil => simpa using h
  | cons c cs ih =>
    have more := ih (h.next c)
    have same : before.push c ++ String.ofList cs = before ++ String.ofList (c :: cs) := by
      apply String.toList_inj.mp
      simp
    rwa [same] at more

/-- The place lies in the source, and counts what stands before it. -/
def Position.Exact (source : String) (p : Position) : Prop :=
  ∃ before after, source = before ++ after ∧ p.Counts before

/-- The span covers this text of the source. -/
def Span.Covers (source : String) (s : Span) (text : String) : Prop :=
  ∃ before after, source = before ++ text ++ after ∧ s.start.Counts before ∧
    s.stop.Counts (before ++ text)

section Covers

variable {source text : String} {s : Span}

theorem Span.Covers.start (h : s.Covers source text) : s.start.Exact source := by
  obtain ⟨before, after, whole, first, -⟩ := h
  exact ⟨before, text ++ after, by rw [whole, String.append_assoc], first⟩

theorem Span.Covers.stop (h : s.Covers source text) : s.stop.Exact source := by
  obtain ⟨before, after, whole, -, last⟩ := h
  exact ⟨before ++ text, after, whole, last⟩

theorem Span.Covers.offset_le (h : s.Covers source text) : s.start.offset ≤ s.stop.offset := by
  obtain ⟨before, after, -, first, last⟩ := h
  rw [first.offset, last.offset, String.utf8ByteSize_append]
  omega

/-- The bytes of the source from the start to the stop of the span. -/
def Span.bytes (source : String) (s : Span) : ByteArray :=
  source.toByteArray.extract s.start.offset.toNat s.stop.offset.toNat

theorem Span.Covers.bytes (h : s.Covers source text) : s.bytes source = text.toByteArray := by
  obtain ⟨before, after, whole, first, last⟩ := h
  rw [Span.bytes, first.offset, last.offset, whole, String.append_assoc, String.toByteArray_append,
    String.toByteArray_append, String.utf8ByteSize_append, Int.toNat_natCast, Int.toNat_natCast,
    ← String.size_toByteArray, ← String.size_toByteArray]
  have behind := ByteArray.extract_append_size_add (a := before.toByteArray)
    (b := text.toByteArray ++ after.toByteArray) (i := 0) (j := text.toByteArray.size)
  rw [Nat.add_zero] at behind
  rw [behind]
  exact ByteArray.extract_append_eq_left rfl

end Covers

/-! ## What is dropped -/

/-- Blanks, and perhaps a comment behind them that reaches to the end of its
line; `after` is what follows. -/
inductive Skippable (after : List Char) : List Char → Prop where
  | nothing : Skippable after []
  | blank {c : Char} {gap : List Char} : c ∈ [' ', '\t', '\r', '\x0c'] → Skippable after gap →
      Skippable after (c :: gap)
  | comment {text : List Char} : '\n' ∉ text → (∀ c ∈ after.head?, c = '\n') →
      Skippable after ('#' :: text)

/-- Only blanks and comments stand between the two places. -/
def Gap (source : String) (p q : Position) : Prop :=
  ∃ before gap after, source = before ++ gap ++ after ∧ p.Counts before ∧
    q.Counts (before ++ gap) ∧ Skippable after.toList gap.toList

theorem Gap.offset_le {source : String} {p q : Position} (h : Gap source p q) :
    p.offset ≤ q.offset := by
  obtain ⟨before, gap, after, whole, first, last, -⟩ := h
  exact Span.Covers.offset_le (s := ⟨p, q⟩) ⟨before, after, whole, first, last⟩

namespace Scan

theorem skippable_skipped (cs : List Char) : Skippable (skipped cs).2 (skipped cs).1 := by
  fun_induction skipped cs with
  | case1 => exact .nothing
  | case2 c rest blank ih =>
    refine .blank ?_ ih
    simpa [isBlank, or_assoc] using blank
  | case3 rest notBlank =>
    refine .comment ?_ ?_
    · intro line
      have free := List.all_eq_true.mp (List.all_takeWhile (p := (· != '\n')) (l := rest)) _ line
      exact absurd free (by decide)
    · intro c first
      have stopped := List.head?_dropWhile_not (· != '\n') rest
      rw [first] at stopped
      simpa using stopped
  | case4 c rest notBlank notHash => exact .nothing

/-! ## One token -/

/-- Only for strings and line ends does a token stand for another text than its
own. -/
theorem lexeme_value {p : Position} {c : Char} {rest : List Char}
    (text : (lexeme p c rest).kind ≠ .string) (line : (lexeme p c rest).kind ≠ .newline) :
    (lexeme p c rest).value = (lexeme p c rest).taken := by
  unfold lexeme at text line ⊢
  by_cases isLine : c = '\n'
  · rw [if_pos isLine] at line
    exact absurd rfl line
  · rw [if_neg isLine] at text ⊢
    by_cases isQuote : (c = '"' || c = '\'') = true
    · rw [if_pos isQuote] at text
      exact absurd rfl text
    · rw [if_neg isQuote]
      split
      · rfl
      · split <;> rfl

/-- An unknown escape is reported where it stands. -/
theorem stringBody_unknown {quote : Char} {p : Position} {cs : List Char} {e : Span × Char}
    (h : e ∈ (stringBody quote p cs).unknown) :
    ∃ before text after, cs = before ++ text ++ after ∧
      e.1 = ⟨p.past before, p.past (before ++ text)⟩ := by
  fun_induction stringBody quote p cs with
  | case4 p c rest notLine body v known ih =>
    obtain ⟨before, text, after, whole, span⟩ := ih h
    refine ⟨'\\' :: c :: before, text, after, by rw [whole]; rfl, ?_⟩
    rw [span]
    rfl
  | case5 p c rest notLine body unknown ih =>
    rcases List.mem_cons.mp h with rfl | later
    · exact ⟨[], ['\\', c], rest, rfl, rfl⟩
    · obtain ⟨before, text, after, whole, span⟩ := ih later
      refine ⟨'\\' :: c :: before, text, after, by rw [whole]; rfl, ?_⟩
      rw [span]
      rfl
  | case8 p c rest _ _ _ notQuote notLine ih =>
    obtain ⟨before, text, after, whole, span⟩ := ih h
    refine ⟨c :: before, text, after, by rw [whole]; rfl, ?_⟩
    rw [span]
    rfl
  | _ => cases h

theorem lexeme_unknown {p : Position} {c : Char} {rest : List Char} {e : Span × Char}
    (h : e ∈ (lexeme p c rest).unknown) :
    ∃ before text after, c :: rest = before ++ text ++ after ∧
      e.1 = ⟨p.past before, p.past (before ++ text)⟩ := by
  unfold lexeme at h
  split at h
  · cases h
  · split at h
    · obtain ⟨before, text, after, whole, span⟩ := stringBody_unknown h
      refine ⟨c :: before, text, after, by rw [whole]; rfl, ?_⟩
      rw [span]
      rfl
    · split at h
      · cases h
      · split at h <;> cases h

/-! ## The whole text -/

/-- What a scan that goes on at `p` owes to the source. -/
structure Report.Lossless (source : String) (p : Position) (r : Report) : Prop where
  /-- Nothing but blanks and comments before the first token. -/
  leading : ∀ t ∈ r.tokens.head?, Gap source p t.span.start
  /-- Nothing but blanks and comments between a token and the next. -/
  between : r.tokens.IsChain fun t u => Gap source t.span.stop u.span.start
  /-- Tokens are in order and have no byte in common. -/
  ordered : r.tokens.Pairwise fun t u => t.span.stop.offset ≤ u.span.start.offset
  /-- No token ends before it starts. -/
  forward : ∀ t ∈ r.tokens, t.span.start.offset ≤ t.span.stop.offset
  /-- A scan that does not fail ends with the end of input, at the end. -/
  final : r.failure = none → ∃ t, r.tokens.getLast? = some t ∧ t.kind = .eof ∧
    t.span.start.offset = source.utf8ByteSize ∧ t.span.stop.offset = source.utf8ByteSize
  /-- Places are exact. -/
  placed : ∀ t ∈ r.tokens, t.span.start.Exact source ∧ t.span.stop.Exact source
  /-- The text of a token is that of its span. -/
  lexemes : ∀ t ∈ r.tokens, t.kind ∉ [.string, .newline, .eof] →
    t.span.bytes source = t.lexeme.toByteArray
  /-- So are the places of the messages. -/
  messages : ∀ d ∈ r.failure.toList ++ r.warnings,
    d.span.start.Exact source ∧ d.span.stop.Exact source

/-- All tokens stand behind the place where the scan goes on. -/
theorem Report.Lossless.beyond {source : String} {p : Position} {r : Report}
    (h : r.Lossless source p) : ∀ t ∈ r.tokens, p.offset ≤ t.span.start.offset := by
  obtain ⟨tokens, warnings, failure⟩ := r
  cases tokens with
  | nil =>
    intro t mem
    cases mem
  | cons first rest =>
    have start := (h.leading first rfl).offset_le
    refine List.forall_mem_cons.mpr ⟨start, ?_⟩
    intro t mem
    have later := (List.pairwise_cons.mp h.ordered).1 t mem
    have forward := h.forward first List.mem_cons_self
    omega

/-- A token that is read puts its own part in front of what follows. -/
theorem Report.Lossless.cons {source : String} {p : Position} {t : Token} {r : Report}
    {warnings : List Diagnostic} {text : String} (h : r.Lossless source t.span.stop)
    (gap : Gap source p t.span.start) (covers : t.span.Covers source text)
    (lexeme : t.kind ∉ [.string, .newline, .eof] → t.lexeme = text)
    (warned : ∀ d ∈ warnings, d.span.start.Exact source ∧ d.span.stop.Exact source) :
    Report.Lossless source p ⟨t :: r.tokens, warnings ++ r.warnings, r.failure⟩ where
  leading := by
    rintro _ ⟨⟩
    exact gap
  between := List.isChain_cons.mpr ⟨h.leading, h.between⟩
  ordered := by
    refine List.pairwise_cons.mpr ⟨?_, h.ordered⟩
    exact h.beyond
  forward := List.forall_mem_cons.mpr ⟨covers.offset_le, h.forward⟩
  final := by
    intro none
    obtain ⟨u, last, kind⟩ := h.final none
    exact ⟨u, by rw [List.getLast?_cons, last]; rfl, kind⟩
  placed := List.forall_mem_cons.mpr ⟨⟨covers.start, covers.stop⟩, h.placed⟩
  lexemes := by
    refine List.forall_mem_cons.mpr ⟨?_, h.lexemes⟩
    intro kind
    rw [covers.bytes, lexeme kind]
  messages := by
    intro d mem
    simp only [List.mem_append] at mem
    rcases mem with failed | warning | later
    · exact h.messages d (List.mem_append_left _ failed)
    · exact warned d warning
    · exact h.messages d (List.mem_append_right _ later)

/-- Before the next token there is only what is dropped. -/
theorem gap_skipped {source before : String} {p : Position} {cs : List Char}
    (whole : source = before ++ String.ofList cs) (here : p.Counts before) :
    Gap source p (p.past (skipped cs).1) := by
  refine ⟨before, String.ofList (skipped cs).1, String.ofList (skipped cs).2, ?_, here,
    here.past _, ?_⟩
  · rw [whole, String.append_assoc, ← String.ofList_append, skipped_append]
  · simpa using skippable_skipped cs

theorem covers_of_append {source before : String} {p : Position} {cs ds es : List Char}
    (whole : source = before ++ String.ofList (cs ++ ds ++ es)) (here : p.Counts before) :
    Span.Covers source ⟨p.past cs, p.past (cs ++ ds)⟩ (String.ofList ds) := by
  refine ⟨before ++ String.ofList cs, String.ofList es, ?_, here.past cs, ?_⟩
  · simp only [whole, String.ofList_append, String.append_assoc]
  · have last := here.past (cs ++ ds)
    rwa [String.ofList_append, ← String.append_assoc] at last

/-- The next token covers the characters that are taken for it. -/
theorem covers_lexeme {source before : String} {p : Position} {cs : List Char} {c : Char}
    {rest : List Char} (whole : source = before ++ String.ofList cs) (here : p.Counts before)
    (left : (skipped cs).2 = c :: rest) :
    ∃ before', source = before' ++ String.ofList (c :: rest) ∧
      (p.past (skipped cs).1).Counts before' ∧
      Span.Covers source
        ⟨p.past (skipped cs).1,
          (p.past (skipped cs).1).past (lexeme (p.past (skipped cs).1) c rest).taken⟩
        (String.ofList (lexeme (p.past (skipped cs).1) c rest).taken) := by
  have split := skipped_append cs
  rw [left] at split
  refine ⟨before ++ String.ofList (skipped cs).1, ?_, here.past _, ?_⟩
  · rw [String.append_assoc, ← String.ofList_append, split, whole]
  · rw [← split, ← lexeme_append (p.past (skipped cs).1) c rest, ← List.append_assoc] at whole
    have covers := covers_of_append whole here
    rwa [Position.past_append] at covers

/-- Unknown escapes are warned about at exact places. -/
theorem exact_unknownEscape {source before file : String} {p : Position} {c : Char}
    {rest : List Char} (whole : source = before ++ String.ofList (c :: rest))
    (here : p.Counts before) :
    ∀ d ∈ (lexeme p c rest).unknown.map (unknownEscape file),
      d.span.start.Exact source ∧ d.span.stop.Exact source := by
  intro d mem
  obtain ⟨e, listed, rfl⟩ := List.mem_map.mp mem
  obtain ⟨ds, text, es, split, span⟩ := lexeme_unknown listed
  rw [split] at whole
  have covers := covers_of_append whole here
  rw [← span] at covers
  exact ⟨covers.start, covers.stop⟩

/-- The end of input ends the list of tokens. -/
theorem lossless_endOfInput {source : String} {p stop : Position} (gap : Gap source p stop)
    (last : stop.Counts source) :
    Report.Lossless source p ⟨[.endOfInput stop], [], none⟩ where
  leading := by
    rintro _ ⟨⟩
    exact gap
  between := List.isChain_singleton _
  ordered := List.pairwise_singleton _ _
  forward := by
    intro t mem
    obtain rfl := List.mem_singleton.mp mem
    exact Int.le_refl _
  final := fun _ => ⟨_, rfl, rfl, last.offset, last.offset⟩
  placed := by
    intro t mem
    obtain rfl := List.mem_singleton.mp mem
    have exact_ : stop.Exact source := ⟨source, "", String.append_empty.symm, last⟩
    exact ⟨exact_, exact_⟩
  lexemes := by
    intro t mem kind
    obtain rfl := List.mem_singleton.mp mem
    exact absurd (show Kind.eof ∈ _ by decide) kind
  messages := by
    intro d mem
    cases mem

/-- What stands behind `before` is scanned without loss. -/
theorem lossless_scanFrom (source file : String) (p : Position) (cs : List Char) :
    ∀ before : String, source = before ++ String.ofList cs → p.Counts before →
      (scanFrom source file p cs).Lossless source p := by
  fun_induction scanFrom source file p cs with
  | case1 p cs start left =>
    intro before whole here
    have all : (skipped cs).1 = cs := by
      have split := skipped_append cs
      rwa [left, List.append_nil] at split
    have last : start.Counts source := by
      rw [whole]
      show (p.past (skipped cs).1).Counts _
      rw [all]
      exact here.past cs
    exact lossless_endOfInput (gap_skipped whole here) last
  | case2 p cs start c rest left l span warnings closed more ih =>
    intro before whole here
    obtain ⟨before', behind, first, covers⟩ := covers_lexeme whole here left
    have later : more.Lossless source span.stop := by
      refine ih (before' ++ String.ofList l.taken) ?_ (first.past _)
      rw [behind, ← lexeme_append start c rest, String.ofList_append, ← String.append_assoc]
    refine Report.Lossless.cons later (gap_skipped whole here) covers ?_
      (exact_unknownEscape behind first)
    intro kind
    simp only [List.mem_cons, List.not_mem_nil, or_false, not_or] at kind
    exact congrArg String.ofList (lexeme_value kind.1 kind.2.1)
  | case3 p cs start c rest left l span warnings unclosed =>
    intro before whole here
    obtain ⟨before', behind, first, covers⟩ := covers_lexeme whole here left
    refine ⟨by simp, by simp, by simp, by simp, by simp, by simp, by simp, ?_⟩
    intro d mem
    rcases List.mem_cons.mp mem with rfl | warning
    · exact ⟨covers.start, covers.stop⟩
    · exact exact_unknownEscape behind first d warning

theorem lossless_start (source file : String) :
    (scanFrom source file .start source.toList).Lossless source .start := by
  refine lossless_scanFrom source file .start source.toList "" ?_ Position.counts_start
  rw [String.ofList_toList, String.empty_append]

/-- There is an end of input at least. -/
theorem tokens_ne_nil {source file : String} (scanned : (scan source file).failure = none) :
    (scan source file).tokens ≠ [] := by
  obtain ⟨t, found, -⟩ := (lossless_start source file).final scanned
  intro none
  have same : scanFrom source file .start source.toList = scan source file := rfl
  rw [same, none] at found
  cases found

/-- A scan of any source accounts for all of it, with exact places. -/
theorem scan_lossless (source file : String) : (scan source file).Lossless source .start :=
  lossless_start source file

end Scan

end Pseudocode
