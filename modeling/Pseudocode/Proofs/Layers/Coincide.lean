import Pseudocode.Proofs.Composition.Follows
/-
# `Proofs.Layers.Coincide` — two parsers that do the same

`Coincide P n d p q Q`: on fewer than `n` tokens, with no magic word among them and `P` true of
the next one, `p` and `q` give the same.  They do not come to the bound on their recursion, and if
they refuse nothing they take at least `d` tokens and stop before a token of which `Q` is true.

Two parsers made in the same way of parsers that coincide coincide themselves.  What stands in
brackets needs no more than that both read a whole expression alike.
-/
namespace Pseudocode.Grammar

/-- No magic word is among the tokens. -/
def Wordless (ts : List Token) : Prop := ∀ t ∈ ts, t.kind.isMagic = false

theorem Wordless.mono {ts us : List Token} (h : Wordless ts) (later : us <:+ ts) : Wordless us :=
  fun t mem => h t (later.subset mem)

/-- The next token is no magic word either. -/
theorem Wordless.head {env : Token} {c : Cursor} (h : Wordless c.rest) (eof : env.kind = .eof) :
    (c.head env).kind.isMagic = false := by
  obtain ⟨last, rest⟩ := c
  cases rest with
  | nil =>
    show env.kind.isMagic = false
    rw [eof]
    rfl
  | cons t rest => exact h t List.mem_cons_self

/-- How a parser ends that started at `c`. -/
inductive Ends {α : Type} (env : Token) (c : Cursor) (d : Nat) (Q : Kind → Prop) :
    Except Halt (α × Cursor) → Prop where
  | done {a : α} {c' : Cursor} (later : c'.rest <:+ c.rest)
      (taken : c'.rest.length + d ≤ c.rest.length) (before : Q (c'.head env).kind) :
      Ends env c d Q (.ok (a, c'))
  | refused {r : Refusal} : Ends env c d Q (.error (.refused r))

/-- Anything may be next. -/
abbrev anything : Kind → Prop := fun _ => True

/-- The two parsers do the same. -/
def Coincide {α : Type} (P : Kind → Prop) (n d : Nat) (p q : Parser α) (Q : Kind → Prop) : Prop :=
  ∀ (env : Token) (c : Cursor), env.kind = .eof → Wordless c.rest → c.rest.length < n →
    P (c.head env).kind →
    (p.run env).run c = (q.run env).run c ∧ Ends env c d Q ((p.run env).run c)

variable {α β : Type} {P P' Q Q' R : Kind → Prop} {n n' d e : Nat} {p p' p'' : Parser α}
  {q q' : α → Parser β} {k : Kind}

/-! ## Sequences and choices -/

theorem Ends.mono {env : Token} {c : Cursor} {x : Except Halt (α × Cursor)} (h : Ends env c d Q x)
    (less : e ≤ d) (weaker : ∀ k, Q k → Q' k) : Ends env c e Q' x := by
  cases h with
  | done later taken before => exact .done later (by omega) (weaker _ before)
  | refused => exact .refused

/-- What ends further on has ended as well from here. -/
theorem Ends.earlier {env : Token} {c c' : Cursor} {x : Except Halt (α × Cursor)}
    (h : Ends env c' e Q x) (later : c'.rest <:+ c.rest)
    (taken : c'.rest.length + d ≤ c.rest.length) : Ends env c (d + e) Q x := by
  cases h with
  | done later' taken' before => exact .done (later'.trans later) (by omega) before
  | refused => exact .refused

theorem Coincide.pure {a : α} : Coincide P n 0 (Pure.pure a) (Pure.pure a) P :=
  fun _ _ _ _ _ here => ⟨rfl, .done (List.suffix_refl _) (Nat.le_refl _) here⟩

theorem Coincide.refuse {t : Token} {complaint : Complaint} :
    Coincide P n d (Grammar.refuse t complaint : Parser α) (Grammar.refuse t complaint) Q :=
  fun _ _ _ _ _ _ => ⟨rfl, .refused⟩

theorem Coincide.unexpected {x : Expectation} :
    Coincide P n d (Grammar.unexpected x : Parser α) (Grammar.unexpected x) Q := by
  intro env c _ _ _ _
  rw [run_unexpected]
  exact ⟨rfl, .refused⟩

theorem Coincide.vacuous (none : n = 0) : Coincide P n d p p' Q := by
  subst none
  exact fun _ _ _ _ few => absurd few (Nat.not_lt_zero _)

theorem Coincide.mono (h : Coincide P n d p p' Q) (stronger : ∀ k, P' k → P k)
    (weaker : ∀ k, Q k → Q' k) :
    Coincide P' n d p p' Q' := by
  intro env c eof wordless few here
  obtain ⟨same, ends⟩ := h env c eof wordless few (stronger _ here)
  exact ⟨same, ends.mono (Nat.le_refl d) weaker⟩

theorem Coincide.pre (h : Coincide P n d p p' Q) (stronger : ∀ k, P' k → P k) :
    Coincide P' n d p p' Q :=
  h.mono stronger fun _ => id

theorem Coincide.post (h : Coincide P n d p p' Q) (weaker : ∀ k, Q k → Q' k) :
    Coincide P n d p p' Q' :=
  h.mono (fun _ => id) weaker

theorem Coincide.within (h : Coincide P n d p p' Q) (fewer : n' ≤ n) : Coincide P n' d p p' Q :=
  fun env c eof wordless few here => h env c eof wordless (by omega) here

/-- The tokens that are taken need not be counted. -/
theorem Coincide.loosen (h : Coincide P n d p p' Q) : Coincide P n 0 p p' Q := by
  intro env c eof wordless few here
  obtain ⟨same, ends⟩ := h env c eof wordless few here
  exact ⟨same, ends.mono (Nat.zero_le d) fun _ => id⟩

theorem Coincide.symm (h : Coincide P n d p p' Q) : Coincide P n d p' p Q := by
  intro env c eof wordless few here
  obtain ⟨same, ends⟩ := h env c eof wordless few here
  exact ⟨same.symm, same ▸ ends⟩

theorem Coincide.trans (h : Coincide P n d p p' Q) (h' : Coincide P n d p' p'' Q) :
    Coincide P n d p p'' Q := by
  intro env c eof wordless few here
  obtain ⟨same, ends⟩ := h env c eof wordless few here
  exact ⟨same.trans (h' env c eof wordless few here).1, ends⟩

/-- The first of two parsers takes `d` tokens, and the other finds as many less. -/
theorem Coincide.bind (hp : Coincide P n d p p' Q) (hq : ∀ a, Coincide Q (n - d) e (q a) (q' a) R) :
    Coincide P n (d + e) (p >>= q) (p' >>= q') R := by
  intro env c eof wordless few here
  obtain ⟨same, ends⟩ := hp env c eof wordless few here
  rw [run_bind_eq, run_bind_eq, ← same]
  generalize (p.run env).run c = x at ends ⊢
  cases ends with
  | @done a c' later taken before =>
    obtain ⟨same', ends'⟩ := hq a env c' eof (wordless.mono later) (by omega) before
    exact ⟨same', ends'.earlier later taken⟩
  | refused => exact ⟨rfl, .refused⟩

/-- The first parser need not take a token. -/
theorem Coincide.then (hp : Coincide P n 0 p p' Q) (hq : ∀ a, Coincide Q n d (q a) (q' a) R) :
    Coincide P n d (p >>= q) (p' >>= q') R := by
  have both := hp.bind hq
  rwa [Nat.zero_add] at both

/-- The first parser takes a token, and nothing is counted of what the other takes. -/
theorem Coincide.take (hp : Coincide P n 1 p p' Q) (hq : ∀ a, Coincide Q (n - 1) 0 (q a) (q' a) R) :
    Coincide P n 1 (p >>= q) (p' >>= q') R := hp.bind hq

theorem Coincide.discarded (hp : Coincide P n d p p' Q) :
    Coincide P n d (discard p) (discard p') Q := by
  have both := hp.bind fun _ => .pure (a := ())
  exact both

/-! ## Looking at tokens -/

theorem Coincide.peek {q q' : Token → Parser β}
    (hq : ∀ t, P t.kind → t.kind.isMagic = false → Coincide (· = t.kind) n d (q t) (q' t) Q) :
    Coincide P n d (Grammar.peek >>= q) (Grammar.peek >>= q') Q := by
  intro env c eof wordless few here
  rw [run_bind_ok (run_peek env c), run_bind_ok (run_peek env c)]
  exact hq _ here (wordless.head eof) env c eof wordless few rfl

/-- A question about the next token. -/
theorem Coincide.next {yes yes' no no' : Parser β} (hyes : P k → Coincide (· = k) n d yes yes' Q)
    (hno : Coincide (fun j => P j ∧ j ≠ k) n d no no' Q) :
    Coincide P n d (Grammar.next k >>= fun b => if b = true then yes else no)
      (Grammar.next k >>= fun b => if b = true then yes' else no') Q := by
  intro env c eof wordless few here
  rw [run_bind_ok (asks_next k env c), run_bind_ok (asks_next k env c)]
  by_cases same : (c.head env).kind = k
  · rw [if_pos (beq_iff_eq.mpr same), if_pos (beq_iff_eq.mpr same)]
    exact hyes (same ▸ here) env c eof wordless few same
  · rw [if_neg (by simpa using same), if_neg (by simpa using same)]
    exact hno env c eof wordless few ⟨here, same⟩

/-! ## Taking tokens -/

theorem Coincide.advanced (token : ∀ k, P k → k ≠ .eof) :
    Coincide P n 1 advance advance anything := by
  rintro env ⟨last, rest⟩ eof wordless few here
  cases rest with
  | nil => exact absurd eof (token _ here)
  | cons t rest => exact ⟨rfl, .done (List.suffix_cons t rest) (Nat.le_refl _) trivial⟩

/-- The next token is taken. -/
theorem Coincide.advance {q q' : Token → Parser β} (token : k ≠ .eof)
    (hq : ∀ t, Coincide anything (n - 1) 0 (q t) (q' t) Q) :
    Coincide (· = k) n 1 (Grammar.advance >>= q) (Grammar.advance >>= q') Q :=
  (Coincide.advanced fun _ same => by rw [same]; exact token).take hq

/-- The next token is taken and tells nothing. -/
theorem Coincide.drop {q q' : Unit → Parser β} (token : k ≠ .eof)
    (hq : Coincide anything (n - 1) 0 (q ()) (q' ()) Q) :
    Coincide (· = k) n 1 (discard Grammar.advance >>= q) (discard Grammar.advance >>= q') Q :=
  (Coincide.advanced fun _ same => by rw [same]; exact token).discarded.take fun _ => hq

theorem Coincide.expected (token : k ≠ .eof) : Coincide P n 1 (expect k) (expect k) anything :=
  .next (fun _ => .advanced fun _ same => by rw [same]; exact token) .unexpected

theorem Coincide.skip {q q' : Unit → Parser β} (hq : Coincide anything n d (q ()) (q' ()) Q) :
    Coincide P n d (skipNewlines >>= q) (skipNewlines >>= q') Q := by
  have skipped : Coincide P n 0 skipNewlines skipNewlines anything := by
    intro env c eof wordless few _
    have later : c.rest.dropWhile (·.kind == .newline) <:+ c.rest := List.dropWhile_suffix _
    exact ⟨rfl, .done later later.length_le trivial⟩
  exact skipped.then fun _ => hq

theorem Coincide.spanFrom {start : Position} {q q' : Span → Parser β}
    (hq : ∀ s, Coincide P n d (q s) (q' s) Q) :
    Coincide P n d (Grammar.spanFrom start >>= q) (Grammar.spanFrom start >>= q') Q := by
  intro env c eof wordless few here
  obtain ⟨s, run⟩ := run_spanFrom start env c
  rw [run_bind_ok run, run_bind_ok run]
  exact hq s env c eof wordless few here

/-! ## What is next decides -/

/-- Before a token of a kind the first parser does what the second one does. -/
def Becomes {α : Type} (k : Kind) (p q : Parser α) : Prop :=
  ∀ (env : Token) (c : Cursor), (c.head env).kind = k → (p.run env).run c = (q.run env).run c

theorem Becomes.bind (h : Becomes k p p') : Becomes k (p >>= q) (p' >>= q) := by
  intro env c here
  rw [run_bind_eq, run_bind_eq, h env c here]

theorem Becomes.trans (h : Becomes k p p') (h' : Becomes k p' p'') : Becomes k p p'' :=
  fun env c here => (h env c here).trans (h' env c here)

theorem becomes_peekKind {q : Kind → Parser β} : Becomes k (peekKind >>= q) (q k) := by
  intro env c here
  rw [run_bind_ok (run_peekKind env c), here]

theorem becomes_next {yes no : Parser β} {j : Kind} :
    Becomes k (next j >>= fun b => if b = true then yes else no) (if k = j then yes else no) := by
  intro env c here
  rw [run_bind_ok (asks_next j env c), here]
  by_cases same : k = j
  · rw [if_pos (beq_iff_eq.mpr same), if_pos same]
  · rw [if_neg (by simpa using same), if_neg same]

theorem Coincide.becomes {q q' : Parser α} (hp : Becomes k p p') (hq : Becomes k q q')
    (h : Coincide (· = k) n d p' q' Q) : Coincide (· = k) n d p q Q := by
  intro env c eof wordless few here
  rw [hp env c here, hq env c here]
  exact h env c eof wordless few here

/-- Whatever is next, the parsers coincide. -/
theorem Coincide.cases {q : Parser α} (h : ∀ k, P k → Coincide (· = k) n d p q Q) :
    Coincide P n d p q Q :=
  fun env c eof wordless few here => h _ here env c eof wordless few rfl

/-! ## Index chains, lists and entries -/

section Brackets

variable {r r' : Rules} {m m' : Nat} {closer : Kind}

/-- On fewer than `n` tokens both read a whole expression alike. -/
def Rules.Alike (n : Nat) (r r' : Rules) : Prop :=
  Coincide anything n 1 (r.expr 0) (r'.expr 0) anything

theorem Rules.Alike.within (h : r.Alike n r') (fewer : n' ≤ n) : r.Alike n' r' :=
  Coincide.within h fewer

theorem Rules.Alike.less (h : r.Alike n r') : r.Alike (n - 1) r' := h.within (Nat.sub_le n 1)

/-- A whole expression takes a token, which need not be counted. -/
theorem Rules.Alike.part (h : r.Alike n r') :
    Coincide P n 0 (r.expr 0) (r'.expr 0) anything :=
  (Coincide.loosen h).pre fun _ _ => trivial

theorem coincide_chain (h : r.Alike n r') (enough : n ≤ m) (enough' : n ≤ m') :
    Coincide anything n 0 (chain r m) (chain r' m') anything := by
  induction m generalizing n m' with
  | zero => exact .vacuous (by omega)
  | succ m ih =>
    cases m' with
    | zero => exact .vacuous (by omega)
    | succ m' =>
      have more := ih h.less (by omega) (show n - 1 ≤ m' by omega)
      refine .peek fun t _ _ => ?_
      split
      · next dot =>
        refine (Coincide.drop (by rw [dot]; decide) ?_).loosen
        refine (Coincide.expected (by decide)).loosen.then fun name => .spanFrom fun s => ?_
        exact more.then fun steps => .pure
      · next bracket =>
        refine (Coincide.drop (by rw [bracket]; decide) (.skip ?_)).loosen
        refine h.less.part.then fun key => .skip ?_
        refine (Coincide.expected (by decide)).loosen.discarded.then fun _ => .spanFrom fun s => ?_
        exact more.then fun steps => .pure
      · exact Coincide.pure.post fun _ _ => trivial

/-- Before a dot or a bracket there is a step. -/
theorem coincide_steps (h : r.Alike (n - 1) r') (enough : n ≤ m) (enough' : n ≤ m')
    (step : k = .dot ∨ k = .leftBracket) :
    Coincide (· = k) n 1 (chain r m) (chain r' m') anything := by
  cases m with
  | zero => exact .vacuous (by omega)
  | succ m =>
    cases m' with
    | zero => exact .vacuous (by omega)
    | succ m' =>
      have more := coincide_chain h (show n - 1 ≤ m by omega) (show n - 1 ≤ m' by omega)
      refine .peek fun t kind _ => ?_
      split
      · next dot =>
        refine .drop (by rw [dot]; decide) ?_
        refine (Coincide.expected (by decide)).loosen.then fun name => .spanFrom fun s => ?_
        exact more.then fun steps => .pure
      · next bracket =>
        refine .drop (by rw [bracket]; decide) (.skip (h.part.then fun key => .skip ?_))
        refine (Coincide.expected (by decide)).loosen.discarded.then fun _ => .spanFrom fun s => ?_
        exact more.then fun steps => .pure
      · next dot bracket =>
        rw [kind] at dot bracket
        exact (step.elim dot bracket).elim

theorem coincide_target (h : r.Alike (n - 1) r') (enough : n - 1 ≤ m) (enough' : n - 1 ≤ m') :
    Coincide P n 1 (target r m) (target r' m') anything := by
  refine (Coincide.expected (by decide)).take fun name => ?_
  exact (coincide_chain h enough enough').then fun steps => .spanFrom fun s => .pure

theorem coincide_exprList (h : r.Alike n r') (enough : n ≤ m) (enough' : n ≤ m') :
    Coincide anything n 0 (exprList r closer m) (exprList r' closer m') anything := by
  induction m generalizing n m' with
  | zero => exact .vacuous (by omega)
  | succ m ih =>
    cases m' with
    | zero => exact .vacuous (by omega)
    | succ m' =>
      have more := ih h.less (by omega) (show n - 1 ≤ m' by omega)
      refine .next (fun _ => Coincide.pure.post fun _ _ => trivial) (h.part.then fun x => .skip ?_)
      refine .next (fun _ => ?_) (Coincide.pure.post fun _ _ => trivial)
      exact (Coincide.drop (by decide) (.skip (more.then fun xs => .pure))).loosen

theorem coincide_bracketed (h : r.Alike n r') (enough : n ≤ m) (enough' : n ≤ m')
    (token : closer ≠ .eof) :
    Coincide P n 0 (bracketed r m closer) (bracketed r' m' closer) anything := by
  refine .skip ((coincide_exprList h enough enough').then fun xs => ?_)
  exact (Coincide.expected token).loosen.discarded.then fun _ => .pure

theorem coincide_entries (h : r.Alike n r') (enough : n ≤ m) (enough' : n ≤ m') :
    Coincide anything n 0 (entries r m) (entries r' m') anything := by
  induction m generalizing n m' with
  | zero => exact .vacuous (by omega)
  | succ m ih =>
    cases m' with
    | zero => exact .vacuous (by omega)
    | succ m' =>
      have more := ih h.less (by omega) (show n - 1 ≤ m' by omega)
      refine .next (fun _ => Coincide.pure.post fun _ _ => trivial) ?_
      refine h.part.then fun key => .skip ?_
      refine (Coincide.expected (by decide)).loosen.discarded.then fun _ => ?_
      refine .skip (h.part.then fun value => .skip (.next (fun _ => ?_) ?_))
      · exact (Coincide.drop (by decide) (.skip (more.then fun xs => .pure))).loosen
      · exact Coincide.pure.post fun _ _ => trivial

end Brackets

end Pseudocode.Grammar
