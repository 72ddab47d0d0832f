import Pseudocode.Proofs.Spans.Nesting
/-
# `Proofs.Halting` — every list of tokens is read to an end

The grammar recurs as deep as it is allowed to, and a bound that is used up is one way for it to
stop.  On no list of tokens does it come to that: with two bounds that are greater than the list
is long it does the same (`runOn_eq`), so that the result is that of a recursion without bounds.
This compares two runs on the same tokens, which is what `Follows` is for.

Where a run ends is a matter of the tokens that it takes (`Tape.Runs`).  No production takes the
end of input, be it a token in the middle of the list.  So a program that is read has taken the
tokens before the end of input and no other (`Tape.Stands.ended`), and a token that is refused is
one of these or the one behind them (`Tape.Reached.among`).
-/
namespace Pseudocode

namespace Grammar

/-- The tokens before the end of input, which may be a token of the list or behind it. -/
def inside (tokens : List Token) : List Token := tokens.takeWhile (·.kind != .eof)

/-- The end of input, if it is a token of the list, and the tokens behind it. -/
def outside (tokens : List Token) : List Token := tokens.dropWhile (·.kind != .eof)

end Grammar

open Grammar

/-! ## Places and tokens -/

namespace Tape

variable {T : Tape} {c : Cursor} {t : Token} {k : Nat}

theorem le_length (proper : ∀ l < k, (T.token l).kind ≠ .eof) : k ≤ T.tokens.length := by
  by_contra beyond
  refine proper T.tokens.length (Nat.lt_of_not_le beyond) ?_
  rw [token, List.getElem?_eq_none (Nat.le_refl _)]
  exact T.eof

/-- The tokens that were taken are inside. -/
theorem inside_eq (proper : ∀ l < k, (T.token l).kind ≠ .eof) :
    inside T.tokens = T.tokens.take k ++ inside (T.tokens.drop k) ∧
      outside T.tokens = outside (T.tokens.drop k) := by
  have all : ∀ t ∈ T.tokens.take k, (t.kind != .eof) = true := by
    intro t mem
    obtain ⟨l, below, rfl⟩ := List.mem_take_iff_getElem.mp mem
    have inner := proper l (by omega)
    rw [token_eq (by omega)] at inner
    exact bne_iff_ne.mpr inner
  have split := List.take_append_drop k T.tokens
  constructor
  · rw [inside, ← split, List.takeWhile_append_of_pos all, split]
    rfl
  · rw [outside, ← split, List.dropWhile_append_of_pos all, split]
    rfl

/-- Before the end of input nothing more is inside. -/
theorem drop_of_eof (eof : (T.token k).kind = .eof) :
    inside (T.tokens.drop k) = [] ∧ outside (T.tokens.drop k) = T.tokens.drop k := by
  rw [inside, outside]
  cases left : T.tokens.drop k with
  | nil => exact ⟨rfl, rfl⟩
  | cons t rest =>
    have first : T.token k = t := by rw [token, ← List.head?_drop, left]; rfl
    rw [first] at eof
    simp [eof]

/-- A parser that comes to the end of input has taken the tokens inside. -/
theorem Stands.ended (h : T.Stands c k) (eof : (T.token k).kind = .eof) :
    c = ⟨(inside T.tokens).getLast?, outside T.tokens⟩ := by
  obtain ⟨last, rest⟩ := c
  obtain ⟨taken, left⟩ := inside_eq h.proper
  obtain ⟨none, all⟩ := drop_of_eof eof
  rw [taken, left, none, all, List.append_nil, ← h.rest]
  refine congrArg (Cursor.mk · rest) (h.last.trans ?_)
  cases k with
  | zero => rfl
  | succ k =>
    have within := le_length h.proper
    rw [before, token_eq within, List.getLast?_take, if_neg (Nat.succ_ne_zero k),
      Nat.add_sub_cancel, List.getElem?_eq_getElem within]
    rfl

/-- A token that a parser comes to is inside, or the next one behind. -/
theorem Reached.among (h : T.Reached t) :
    t ∈ inside T.tokens ∨ t ∈ (outside T.tokens).head? ∨ outside T.tokens = [] ∧ t = T.last := by
  obtain ⟨k, rfl, proper⟩ := h
  by_cases eof : (T.token k).kind = .eof
  · obtain ⟨-, left⟩ := inside_eq proper
    rw [left, (drop_of_eof eof).2]
    by_cases within : k < T.tokens.length
    · refine .inr (.inl ?_)
      rw [List.head?_drop, List.getElem?_eq_getElem within, token_eq within]
      rfl
    · refine .inr (.inr ⟨List.drop_eq_nil_of_le (Nat.le_of_not_lt within), ?_⟩)
      rw [token, List.getElem?_eq_none (Nat.le_of_not_lt within)]
      rfl
  · refine .inl ?_
    have more : ∀ l < k + 1, (T.token l).kind ≠ .eof := by
      intro l below
      rcases Nat.eq_or_lt_of_le (Nat.le_of_lt_succ below) with rfl | before
      · exact eof
      · exact proper l before
    have within := le_length more
    rw [(inside_eq more).1, token_eq within]
    refine List.mem_append_left _ (List.mem_take_iff_getElem.mpr ⟨k, ?_, rfl⟩)
    omega

end Tape

/-! ## Programs -/

namespace Grammar

variable {tokens : List Token} {n n' : Nat}

/-- The run of the grammar on all of the tokens, with a bound on its recursion. -/
def runOn (n : Nat) (tokens : List Token) : Except Halt (Block × Cursor) :=
  ((wholeProgram n).run (endOf tokens)).run ⟨none, tokens⟩

theorem Pairing.Tokens.eq_self {us vs : List Token} (h : (Pairing.whole id).Tokens us vs) :
    vs = us := by
  induction h with
  | nil => rfl
  | last more => cases more
  | @cons t us vs _ _ ih => rw [ih]; rfl

/-- Two runs on the same tokens stand at the same place. -/
theorem Pairing.Alike.cursor_eq {env env' : Token} {c c' : Cursor}
    (h : (Pairing.whole id).Alike env env' c c') : c' = c := by
  obtain ⟨last, rest⟩ := c
  obtain ⟨last', rest'⟩ := c'
  obtain rfl : rest' = rest := h.rest.eq_self
  obtain rfl : last' = last := h.last.trans (by cases last <;> rfl)
  rfl

/-- The bound is not come to, and it does not matter. -/
theorem runOn_eq (enough : tokens.length + 2 < n) (enough' : tokens.length + 2 < n') :
    runOn n' tokens = runOn n tokens ∧ runOn n tokens ≠ .error .exhausted := by
  have alike : (Pairing.whole id).Alike (endOf tokens) (endOf tokens) ⟨none, tokens⟩
      ⟨none, tokens⟩ := by
    have same := Pairing.Tokens.whole id tokens
    rw [show tokens.map (Token.moved id) = tokens from List.map_id tokens] at same
    exact ⟨kind_endOf _, kind_endOf _, fun _ => rfl, rfl, fun more => absurd rfl more, same⟩
  have both := follows_wholeProgram enough enough' _ _ _ _ alike (Nat.lt_succ_self _) trivial
  change (Pairing.whole id).Answers _ _ _ _ _ _ (runOn n tokens) (runOn n' tokens) at both
  generalize runOn n tokens = x at both ⊢
  generalize runOn n' tokens = x' at both ⊢
  cases both with
  | @both a b c c' same alike taken =>
    have tree : b = a := same.trans ((Block.moved_eq_self a).mpr fun _ _ => rfl)
    rw [tree, alike.cursor_eq]
    exact ⟨rfl, nofun⟩
  | ended isSoft more => exact absurd rfl more
  | refused => exact ⟨rfl, nofun⟩
  | stopped more => exact absurd rfl more

/-- A program that is read ends before the end of input. -/
theorem runs_wholeProgram (T : Tape) (n : Nat) :
    T.Runs (wholeProgram n) 0 fun _ k => (T.token k).kind = .eof :=
  ((lays_rules T n).block [] 0).bind fun _ _ _ =>
    .next (fun ended => .pure ended) fun _ => .unexpected

end Grammar

/-- Every list of tokens is read to an end, whatever bound there is on the recursion, if it is
greater than the list is long.  Either it is a program; then all tokens before the end of input
have been taken, and no other.  Or one token is refused, which is one of these, or the end of
input: the next token, or the one that is made up where there is none. -/
theorem program_halts (tokens : List Token) :
    (∀ n, depthBound tokens ≤ n → runOn n tokens = runOn (depthBound tokens) tokens) ∧
    ((∃ body, program tokens = .ok body ∧ runOn (depthBound tokens) tokens =
        .ok (body, ⟨(inside tokens).getLast?, outside tokens⟩)) ∨
      ∃ r, program tokens = .error r ∧
        runOn (depthBound tokens) tokens = .error (.refused r) ∧
        (r.token ∈ inside tokens ∨ r.token ∈ (outside tokens).head? ∨
          outside tokens = [] ∧ r.token = endOf tokens)) := by
  have enough : tokens.length + 2 < depthBound tokens := by simp [depthBound]
  refine ⟨fun n more => (runOn_eq enough (enough.trans_le more)).1, ?_⟩
  have ended := runs_wholeProgram (tapeOf tokens) (depthBound tokens) _ (stands_start tokens)
  have never := (runOn_eq enough enough).2
  change (tapeOf tokens).Outcome _ (runOn (depthBound tokens) tokens) at ended
  rw [show program tokens = outcome (endOf tokens)
    ((runOn (depthBound tokens) tokens).map Prod.fst) from program_eq tokens]
  generalize runOn (depthBound tokens) tokens = x at ended never ⊢
  cases ended with
  | done stands eof => exact .inl ⟨_, rfl, by rw [stands.ended eof]; rfl⟩
  | refused reached => exact .inr ⟨_, rfl, rfl, reached.among⟩
  | exhausted => exact absurd rfl never

end Pseudocode
