import Pseudocode.Proofs.Composition.Program
import Pseudocode.Proofs.Scanning
import Pseudocode.Proofs.Spans.Productions
/-
# `Proofs.Spans.Nesting` — the spans of a program nest

The productions lay a program out over the tokens of its text (`lays_rules`), and the tokens of a
text stand in order, each but the last over some bytes.  Together these are `spans_nest`.  Nothing
is lost when an `ELSE IF` is taken to end where its alternative does, but its block may be empty,
and such a block starts where the next token does: `ENDIF`, which belongs to the whole.
-/
namespace Pseudocode

/-! ## Tokens of a text -/

theorem Position.offset_lt_next (p : Position) (c : Char) : p.offset < (p.next c).offset := by
  have some := c.utf8Size_pos
  unfold Position.next
  split <;> exact Int.lt_add_of_pos_right _ (Int.natCast_pos.mpr some)

theorem Position.offset_le_past (p : Position) (cs : List Char) :
    p.offset ≤ (p.past cs).offset := by
  induction cs generalizing p with
  | nil => exact Int.le_refl _
  | cons c cs ih => exact Int.le_trans (Int.le_of_lt (p.offset_lt_next c)) (ih (p.next c))

namespace Scan

/-- A token stands over some bytes, unless it is the end of input. -/
theorem solid_scanFrom (source file : String) (p : Position) (cs : List Char) :
    ∀ t ∈ (scanFrom source file p cs).tokens, t.kind ≠ .eof →
      t.span.start.offset < t.span.stop.offset := by
  fun_induction scanFrom source file p cs with
  | case1 p cs start left =>
    intro t mem some
    obtain rfl := List.mem_singleton.mp mem
    exact absurd rfl some
  | case2 p cs start c rest left l span warnings closed more ih =>
    refine List.forall_mem_cons.mpr ⟨fun _ => ?_, ih⟩
    obtain ⟨first, taken, split⟩ := List.exists_cons_of_ne_nil (lexeme_taken_ne_nil start c rest)
    show start.offset < (start.past (lexeme start c rest).taken).offset
    rw [split]
    exact Int.lt_of_lt_of_le (start.offset_lt_next first) ((start.next first).offset_le_past taken)
  | case3 p cs start c rest left l span warnings unclosed =>
    intro t mem
    cases mem

end Scan

/-! ## Programs -/

namespace Grammar

/-- The tokens of a list, and the end of input behind them. -/
def tapeOf (tokens : List Token) : Tape := ⟨tokens, endOf tokens, kind_endOf tokens⟩

/-- A parser begins before the first token. -/
theorem stands_start (tokens : List Token) : (tapeOf tokens).Stands ⟨none, tokens⟩ 0 where
  rest := rfl
  last := rfl
  proper := fun _ below => absurd below (Nat.not_lt_zero _)

/-- A program is laid out over the first tokens of its text, none of which is the end of input. -/
theorem laid_of_program {tokens : List Token} {b : Block} (read : program tokens = .ok b) :
    ∃ n, Laid (tapeOf tokens) 0 n b.spanTree ∧ ∀ k < n, ((tapeOf tokens).token k).kind ≠ .eof := by
  have whole : (tapeOf tokens).Runs (wholeProgram (depthBound tokens)) 0 fun b k =>
      Laid (tapeOf tokens) 0 k b.spanTree := by
    refine ((lays_rules _ _).block [] 0).bind fun b k laid => ?_
    exact .next (fun _ => .pure laid) fun _ => .unexpected
  have ends := whole _ (stands_start tokens)
  unfold program at read
  split at read
  · next body c run =>
    cases read
    rw [show ((wholeProgram _).run (tapeOf tokens).last).run _ = _ from run] at ends
    cases ends with
    | done stands laid => exact ⟨_, laid, stands.proper⟩
  · cases read
  · cases read

end Grammar

variable {source file : String} {b : Block}

/-- In a program that was read from a text every node starts where a token starts, stops where one
stops, and stands over some bytes; its parts stand within it and have no byte in common.  Empty
blocks are the exception: an empty block stops and starts within its parent, but may stop before it
starts, and in the branch of an `ELSE IF` it may start with the token that ends the whole `IF`. -/
theorem spans_nest (accepted : parse source file = .ok b) :
    ∀ o, b.spanTree.Has o → o.Fits (Scan.scan source file).tokens := by
  intro o inside
  obtain ⟨-, read⟩ := parse_eq_ok accepted
  obtain ⟨n, laid, proper⟩ := Grammar.laid_of_program read
  have lossless := Scan.lossless_start source file
  have sorted : (Grammar.tapeOf (Scan.scan source file).tokens).Sorted n :=
    ⟨lossless.ordered, lossless.forward, Scan.solid_scanFrom source file _ _, proper⟩
  obtain ⟨i, j, -, below, there⟩ := laid.has inside
  exact there.fits sorted below

/-- The empty block of the `ELSE IF` starts at `END`, behind its branch and within the `IF`. -/
theorem spans_nest_elseIf :
    let source := "IF (a) THEN\n b[0].c ← [1, -2]\nELSE IF b THEN END"
    ∃ b, parse source "" = .ok b ∧ ∀ o, b.spanTree.Has o → o.Fits (Scan.scan source "").tokens := by
  intro source
  have isProgram : (parse source "").isOk = true := by decide +kernel
  cases accepted : parse source "" with
  | error e =>
    rw [accepted] at isProgram
    cases isProgram
  | ok b => exact ⟨b, rfl, spans_nest accepted⟩

/-- The branch of an `ELSE IF` ends at its `THEN` if its block is empty, which starts later. -/
theorem elseIf_ends_before_block :
    ∃ b o c, parse "IF a THEN ELSE IF b THEN ENDIF" "" = .ok b ∧ b.spanTree.Has o ∧ c ∈ o.parts ∧
      o.span.stop.offset < c.span.start.offset := by
  have found : (parse "IF a THEN ELSE IF b THEN ENDIF" "").toOption.any (fun b =>
      b.spanTree.parts.any fun p => p.parts.any fun o => o.parts.any fun c =>
        o.span.stop.offset < c.span.start.offset) = true := by decide +kernel
  cases accepted : parse "IF a THEN ELSE IF b THEN ENDIF" "" with
  | error e =>
    rw [accepted] at found
    cases found
  | ok b =>
    rw [accepted] at found
    obtain ⟨p, first, found⟩ := List.any_eq_true.mp found
    obtain ⟨o, second, found⟩ := List.any_eq_true.mp found
    obtain ⟨c, third, behind⟩ := List.any_eq_true.mp found
    exact ⟨b, o, c, rfl, .part first (.part second (.self o)), third, of_decide_eq_true behind⟩

end Pseudocode
