import Pseudocode.Proofs.Composition.Program
import Pseudocode.Proofs.Reflow.Productions
/-
# `Proofs.Reflow.Program` — what a list of tokens need not have

A program is read off a list of tokens.  Two things in this list make no difference.  The end of
input may be left out, for behind the last token there is nothing but the end of input: what is
accepted stays the same, and so does what is refused, unless that is the end of input itself, which
then stands behind the last token (`end_of_input_redundant`).  And line breaks may be taken away
and added where they mean nothing: what is accepted stays the same up to its places
(`reflow_keeps_tree`).
-/
namespace Pseudocode.Grammar

variable {m : Regard} {σ : Setting} {t t' : Token} {n : Nat} {us vs : List Token}

/-- The two lists are both accepted, or both refused. -/
inductive Regard.Agree (m : Regard) : Except Refusal Block → Except Refusal Block → Prop where
  | accepted {b b' : Block} (same : m.Same Block.moved b b') : m.Agree (.ok b) (.ok b')
  | refused {r r' : Refusal} (complaint : r'.complaint = r.complaint)
      (twin : m.Twin r.token r'.token) : m.Agree (.error r) (.error r')
  /-- Nothing is said of a list that is refused on the left. -/
  | stopped {r : Refusal} {x : Except Refusal Block} (loose : m = .meaning) : m.Agree (.error r) x

theorem beside_wholeProgram (here : m.start [] σ t t')
    (start : m.view t.span.start = m.view t'.span.start) (n : Nat) :
    Beside m (only σ t t') (wholeProgram n) (wholeProgram n)
      (giving (m.Same Block.moved) m.line) := by
  have body : Beside m (only σ t t') ((rules n).block []) ((rules n).block [])
      (giving (m.Same Block.moved) m.line) := by
    cases n with
    | zero => exact .exhausted
    | succ n => exact beside_block_token (beside_rules n) here start
  refine body.then fun body body' same => .here fun τ u u' there => ?_
  refine .ask (w := atEnd) (asks_next .eof) there.twin (fun _ => ?_) fun _ => .unexpected there.2.1
  exact .at (.pure fun last => ⟨same, last⟩) there

/-- A bound on the nesting that is large enough may be larger. -/
theorem run_wholeProgram (tokens : List Token) (enough : depthBound tokens ≤ n) :
    (((wholeProgram n).run (endOf tokens)).run ⟨none, tokens⟩).map Prod.fst =
      (program tokens).mapError .refused := by
  have alike : (Pairing.whole id).Alike (endOf tokens) (endOf tokens) ⟨none, tokens⟩
      ⟨none, tokens⟩ := by
    refine ⟨kind_endOf _, kind_endOf _, fun _ => rfl, rfl, fun more => absurd rfl more, ?_⟩
    have same := Pairing.Tokens.whole id tokens
    rwa [show tokens.map (Token.moved id) = tokens from List.map_id tokens] at same
  have bound : tokens.length + 1 + 1 < depthBound tokens := by simp [depthBound]
  have both := follows_wholeProgram bound (show _ < n by omega) _ _ _ _ alike (Nat.lt_succ_self _)
    trivial
  rw [program_eq]
  generalize ((wholeProgram (depthBound tokens)).run (endOf tokens)).run ⟨none, tokens⟩ = x
    at both ⊢
  generalize ((wholeProgram n).run (endOf tokens)).run ⟨none, tokens⟩ = x' at both ⊢
  cases both with
  | @both a b c c' same =>
    have still : a.moved id = a := a.moved_eq_self.mpr fun _ _ => rfl
    rw [same]
    exact congrArg Except.ok still
  | ended isSoft more => exact absurd rfl more
  | refused => rfl
  | stopped more => exact absurd rfl more

theorem program_beside (alike : m.Alike (endOf us) (endOf vs) .start ⟨none, us⟩ ⟨none, vs⟩)
    (start : m.view ((Cursor.mk none us).head (endOf us)).span.start =
      m.view ((Cursor.mk none vs).head (endOf vs)).span.start) :
    m.Agree (program us) (program vs) := by
  have here : m.start [] .start ((Cursor.mk none us).head (endOf us))
      ((Cursor.mk none vs).head (endOf vs)) := ⟨rfl, alike.near (.inr nofun), nofun⟩
  have both := beside_wholeProgram here start (max (depthBound us) (depthBound vs)) _ _ _ _ _ alike
    ⟨rfl, rfl, rfl⟩
  have left := run_wholeProgram us (Nat.le_max_left (depthBound us) (depthBound vs))
  have right := run_wholeProgram vs (Nat.le_max_right (depthBound us) (depthBound vs))
  generalize ((wholeProgram _).run _).run ⟨none, us⟩ = x at both left
  generalize ((wholeProgram _).run _).run ⟨none, vs⟩ = x' at both right
  generalize program us = y at left ⊢
  generalize program vs = y' at right ⊢
  cases both with
  | both alike there =>
    cases y <;> cases left
    cases y' <;> cases right
    exact .accepted there.1
  | refused complaint twin =>
    cases y <;> cases left
    cases y' <;> cases right
    exact .refused complaint twin
  | stopped loose =>
    cases y <;> cases left
    exact .stopped loose
  | exhausted => cases y <;> cases left

/-! ## The end of input -/

theorem Regard.Tokens.ended {p : Position} (twin : Regard.all.Twin (.endOfInput p) t') :
    ∀ (us : List Token) (σ : Setting), Regard.all.Tokens t' σ (us ++ [Token.endOfInput p]) us
  | [], _ => .final rfl twin
  | _ :: us, _ => .token ⟨rfl, rfl, fun _ _ => rfl⟩ nofun (.ended twin us _)

/-- With or without an end of input behind the last token, a list of tokens is read alike. -/
theorem program_ended {p : Position} (t : Token) (token : t.kind ≠ .eof) (us : List Token) :
    Regard.all.Agree (program (t :: us ++ [Token.endOfInput p])) (program (t :: us)) := by
  have env : endOf (t :: us ++ [Token.endOfInput p]) = .endOfInput p := by
    rw [endOf, List.getLast?_concat]
    rfl
  have env' : ∃ q, endOf (t :: us) = .endOfInput q := by
    rw [endOf]
    split <;> exact ⟨_, rfl⟩
  obtain ⟨q, final⟩ := env'
  have twin : Regard.all.Twin (.endOfInput p) (.endOfInput q) :=
    ⟨rfl, rfl, fun _ token => absurd rfl token⟩
  refine program_beside ?_ rfl
  rw [env, final]
  exact ⟨rfl, twin, fun _ => rfl, fun _ _ => token, .ended twin (t :: us) .start⟩

theorem Regard.Twin.apart (twin : m.Twin t t') : t' = { t with span := t'.span } := by
  obtain ⟨kind, lexeme, span⟩ := t
  obtain ⟨kind', lexeme', span'⟩ := t'
  obtain ⟨rfl, rfl, -⟩ := twin
  rfl

/-- A refusal depends on its token, and the message on the place of it only for the line. -/
theorem Refusal.diagnostic_moved {r r' : Refusal} {source : String} (file : String)
    (text : source ≠ "") (complaint : r'.complaint = r.complaint)
    (twin : Regard.all.Twin r.token r'.token) :
    r'.diagnostic source file =
      { r.diagnostic source file with span := r'.token.span }.withSource source := by
  obtain ⟨⟨kind, lexeme, span⟩, complaint⟩ := r
  obtain ⟨⟨kind', lexeme', span'⟩, complaint'⟩ := r'
  obtain ⟨rfl, rfl, -⟩ := twin
  cases complaint
  rw [Refusal.diagnostic, Refusal.diagnostic, if_neg text, if_neg text]
  rfl

end Pseudocode.Grammar

namespace Pseudocode

open Grammar

theorem Scan.tokens_eq (source file : String) (p : Position) (cs : List Char)
    (scanned : (scanFrom source file p cs).failure = none) :
    ∃ ts q, (scanFrom source file p cs).tokens = ts ++ [Token.endOfInput q] ∧
      ∀ t ∈ ts, t.kind ≠ .eof := by
  fun_induction scanFrom source file p cs with
  | case1 p cs start left => exact ⟨[], start, rfl, fun t mem => absurd mem List.not_mem_nil⟩
  | case2 p cs start c rest left l span warnings closed more ih =>
    obtain ⟨ts, q, tokens, others⟩ := ih scanned
    refine ⟨⟨l.kind, String.ofList l.value, span⟩ :: ts, q, by rw [tokens]; rfl, ?_⟩
    exact List.forall_mem_cons.mpr ⟨lexeme_ne_eof _ _ _, others⟩
  | case3 => cases scanned

/-- The two results are the same.  Only what is said of the end of input may be said of another
place, with the line that is shown for it. -/
inductive SameButForEnd (source : String) :
    Except SourceError Block → Except SourceError Block → Prop where
  | accepted {tree : Block} : SameButForEnd source (.ok tree) (.ok tree)
  | refused {e : SourceError} : SameButForEnd source (.error e) (.error e)
  | ended {d : Diagnostic} {t : Token} {span : Span} (eof : t.kind = .eof) :
      SameButForEnd source (.error (.grammatical d t))
        (.error (.grammatical ({ d with span }.withSource source) { t with span }))

/-- The end of input that a scan ends with may be left out, if it is not all there is. -/
theorem end_of_input_redundant {source file : String} {ts : List Token} {last : Token}
    (scanned : (Scan.scan source file).failure = none)
    (tokens : (Scan.scan source file).tokens = ts ++ [last]) (some : ts ≠ []) :
    SameButForEnd source (parseTokens (ts ++ [last]) source file) (parseTokens ts source file) := by
  obtain ⟨us, p, split, others⟩ := Scan.tokens_eq source file .start source.toList scanned
  obtain ⟨rfl, ended⟩ := List.append_inj' (split.symm.trans tokens) rfl
  obtain rfl := List.singleton_inj.mp ended
  have text : source ≠ "" := by
    rintro rfl
    have short : (Scan.scan "" file).tokens = [] ++ [Token.endOfInput .start] := by
      rw [Scan.scan, Scan.scanFrom_end _ _ rfl]
      rfl
    exact some (List.append_inj' (tokens.symm.trans short) rfl).1
  obtain ⟨t, us, rfl⟩ := List.exists_cons_of_ne_nil some
  have both := program_ended (p := p) t (others t List.mem_cons_self) us
  unfold parseTokens
  generalize program (t :: us ++ [Token.endOfInput p]) = x at both ⊢
  generalize program (t :: us) = x' at both ⊢
  cases both with
  | @accepted b b' same =>
    have still : ∀ b : Block, b.moved id = b := fun b => b.moved_eq_self.mpr fun _ _ => rfl
    obtain rfl : b = b' := (still b).symm.trans (same.trans (still b'))
    exact .accepted
  | @refused r r' complaint twin =>
    by_cases eof : r.token.kind = .eof
    · have message := Refusal.diagnostic_moved file text complaint twin
      have elsewhere : SameButForEnd source
          (.error (.grammatical (r.diagnostic source file) r.token))
          (.error (.grammatical
            ({ r.diagnostic source file with span := r'.token.span }.withSource source)
            { r.token with span := r'.token.span })) := .ended eof
      rwa [← message, ← twin.apart] at elsewhere
    · have same : r' = r := by
        obtain ⟨token, complaint⟩ := r
        obtain rfl := twin.eq rfl eof
        cases complaint
        rfl
      rw [same]
      exact .refused
  | stopped loose => cases loose

/-- A parenthesis that is not closed before a comment, with the end of input behind that. -/
theorem end_of_input_redundant_unclosed :
    ∃ ts last, (Scan.scan "x ← (1 # one" "").tokens = ts ++ [last] ∧ ts ≠ [] ∧
      SameButForEnd "x ← (1 # one" (parseTokens (ts ++ [last]) "x ← (1 # one" "")
        (parseTokens ts "x ← (1 # one" "") := by
  have scanned : (Scan.scan "x ← (1 # one" "").failure = none := by decide +kernel
  have some : (Scan.scan "x ← (1 # one" "").tokens.dropLast ≠ [] := by decide +kernel
  have split := (List.dropLast_append_getLast (Scan.tokens_ne_nil scanned)).symm
  exact ⟨_, _, split, some, end_of_input_redundant scanned split some⟩

/-! ## Line breaks -/

theorem Reflowed.tokens {σ : Setting} {us vs : List Token} (env' : Token) (h : Reflowed σ us vs)
    (plain : σ.Plain us) : Regard.meaning.Tokens env' σ us vs := by
  induction h with
  | nil => exact .nil
  | token kind lexeme rest ih => exact .token ⟨kind, lexeme, nofun⟩ (fun _ => plain.1) (ih plain.2)
  | removed line free rest ih =>
    refine .removed rfl line free (ih (.congr ?_ plain.2))
    rw [line]
    rfl
  | added line free rest ih => exact .added rfl line free (ih plain)

/-- The same tree but for the places in it. -/
def Block.SameTree (a b : Block) : Prop := a.moved (fun _ => .nowhere) = b.moved (fun _ => .nowhere)

/-- Line breaks that mean nothing may be taken away and added: a program in which no magic word
stands in brackets stays the same, up to its places. -/
theorem reflow_keeps_tree {source file source' file' : String} {tree : Block}
    {tokens : List Token} (accepted : parse source file = .ok tree)
    (plain : Setting.start.Plain (Scan.scan source file).tokens)
    (reflowed : Reflowed .start (Scan.scan source file).tokens tokens) :
    ∃ tree', parseTokens tokens source' file' = .ok tree' ∧ tree.SameTree tree' := by
  obtain ⟨scanned, read⟩ := parse_eq_ok accepted
  have ends : ∀ us, (endOf us).lexeme = "" := fun us => by
    rw [endOf]
    split <;> rfl
  have twin : Regard.meaning.Twin (endOf (Scan.scan source file).tokens) (endOf tokens) :=
    ⟨(kind_endOf _).trans (kind_endOf _).symm, (ends _).trans (ends _).symm,
      fun all => absurd all (by decide)⟩
  have both := program_beside ⟨kind_endOf _, twin, fun all => absurd all (by decide),
    fun all => absurd all (by decide), reflowed.tokens _ plain⟩ rfl
  rw [read] at both
  unfold parseTokens
  generalize program tokens = x at both ⊢
  cases both with
  | accepted same => exact ⟨_, rfl, same⟩

/-- Line breaks behind a parenthesis and an operator, and before the closing parenthesis. -/
theorem reflow_keeps_tree_call :
    ∃ tree tokens tree', parse "f(1+2)" "" = .ok tree ∧
      Setting.start.Plain (Scan.scan "f(1+2)" "").tokens ∧
      Reflowed .start (Scan.scan "f(1+2)" "").tokens tokens ∧
      tokens.map Token.kind = [.identifier, .leftParen, .newline, .int, .add, .newline, .int,
        .newline, .rightParen, .eof] ∧
      parseTokens tokens "" "" = .ok tree' ∧ tree.SameTree tree' := by
  have isProgram : (parse "f(1+2)" "").isOk = true := by decide +kernel
  have scanned : (Scan.scan "f(1+2)" "").tokens =
      [⟨.identifier, "f", ⟨⟨0, 1, 1⟩, ⟨1, 1, 2⟩⟩⟩, ⟨.leftParen, "(", ⟨⟨1, 1, 2⟩, ⟨2, 1, 3⟩⟩⟩,
        ⟨.int, "1", ⟨⟨2, 1, 3⟩, ⟨3, 1, 4⟩⟩⟩, ⟨.add, "+", ⟨⟨3, 1, 4⟩, ⟨4, 1, 5⟩⟩⟩,
        ⟨.int, "2", ⟨⟨4, 1, 5⟩, ⟨5, 1, 6⟩⟩⟩, ⟨.rightParen, ")", ⟨⟨5, 1, 6⟩, ⟨6, 1, 7⟩⟩⟩,
        .endOfInput ⟨6, 1, 7⟩] := by decide +kernel
  have plain : Setting.start.Plain (Scan.scan "f(1+2)" "").tokens := by
    rw [scanned]
    exact ⟨nofun, nofun, nofun, nofun, nofun, nofun, nofun, trivial⟩
  let line : Token := ⟨.newline, "\\n", .nowhere⟩
  have reflowed : Reflowed .start (Scan.scan "f(1+2)" "").tokens
      [⟨.identifier, "f", .nowhere⟩, ⟨.leftParen, "(", .nowhere⟩, line, ⟨.int, "1", .nowhere⟩,
        ⟨.add, "+", .nowhere⟩, line, ⟨.int, "2", .nowhere⟩, line, ⟨.rightParen, ")", .nowhere⟩,
        .endOfInput .nowhere] := by
    rw [scanned]
    exact .token rfl rfl <| .token rfl rfl <| .added rfl (.inl rfl) <| .token rfl rfl <|
      .token rfl rfl <| .added rfl (.inl rfl) <| .token rfl rfl <| .added rfl (.inr rfl) <|
      .token rfl rfl <| .token rfl rfl .nil
  cases accepted : parse "f(1+2)" "" with
  | error e =>
    rw [accepted] at isProgram
    cases isProgram
  | ok tree =>
    obtain ⟨tree', same⟩ : ∃ tree', parseTokens _ "" "" = .ok tree' ∧ tree.SameTree tree' :=
      reflow_keeps_tree accepted plain reflowed
    exact ⟨tree, _, tree', rfl, plain, reflowed, rfl, same⟩

end Pseudocode
