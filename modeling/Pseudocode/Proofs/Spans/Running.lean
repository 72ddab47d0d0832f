import Pseudocode.Proofs.Composition.Follows
import Pseudocode.Proofs.Depth.Passing
import Pseudocode.Proofs.Spans.Layout
/-
# `Proofs.Spans.Running` — a parser on the tokens of a text

A parser that has taken the first `k` tokens of a text stands at `k` (`Tape.Stands`).  It never
takes the end of input.  `T.Runs p k Q` says that the parser `p`, when it succeeds at `k` and
returns `a`, comes to a place `k'` where `Q a k'` holds, and that a token which it refuses is one
that it has come to.  There is one rule for each of the operations that the grammar is written in;
what is known of the next token is known of the token with the number `k`.
-/
namespace Pseudocode

open Grammar

namespace Tape

variable {α β : Type} {T : Tape} {c : Cursor} {k : Nat} {p : Parser α} {P : α → Nat → Prop}
  {Q : β → Nat → Prop}

/-! ## Where a parser stands -/

/-- The parser has taken the first tokens, up to a number. -/
structure Stands (T : Tape) (c : Cursor) (k : Nat) : Prop where
  rest : c.rest = T.tokens.drop k
  last : c.last = T.before k
  proper : ∀ l < k, (T.token l).kind ≠ .eof

namespace Stands

theorem head (h : T.Stands c k) : c.head T.last = T.token k := by
  rw [Cursor.head, h.rest, List.head?_drop, Tape.token]

theorem rest_eq (h : T.Stands c k) (some : (T.token k).kind ≠ .eof) :
    c.rest = T.token k :: T.tokens.drop (k + 1) := by
  obtain ⟨inside, found⟩ := List.getElem?_eq_some_iff.mp (getElem?_token some)
  rw [h.rest, List.drop_eq_getElem_cons inside, found]

/-- After the next token was taken. -/
theorem next (h : T.Stands c k) (some : (T.token k).kind ≠ .eof) :
    T.Stands ⟨T.token k, T.tokens.drop (k + 1)⟩ (k + 1) where
  rest := rfl
  last := rfl
  proper := by
    intro l below
    rcases Nat.eq_or_lt_of_le (Nat.le_of_lt_succ below) with rfl | before
    · exact some
    · exact h.proper l before

/-- After line breaks were skipped. -/
theorem skip (h : T.Stands c k) : ∃ k', k ≤ k' ∧ T.Stands c.skip k' := by
  induction left : c.rest.length generalizing c k with
  | zero =>
    obtain ⟨last, rest⟩ := c
    obtain rfl := List.length_eq_zero_iff.mp left
    exact ⟨k, Nat.le_refl k, h⟩
  | succ n ih =>
    by_cases breaks : (T.token k).kind = .newline
    · have some : (T.token k).kind ≠ .eof := by
        rw [breaks]
        exact nofun
      have rest := h.rest_eq some
      rw [rest] at left
      obtain ⟨k', later, there⟩ := ih (h.next some) (Nat.succ.inj left)
      refine ⟨k', Nat.le_of_succ_le later, ?_⟩
      rw [← Cursor.skip_newline breaks c.last, ← rest] at there
      exact there
    · refine ⟨k, Nat.le_refl k, ?_⟩
      obtain ⟨last, _ | ⟨t, rest⟩⟩ := c
      · cases left
      · have seen : t = T.token k := h.head
        rwa [Cursor.skip_other (by rwa [seen])]

/-- The end of the token taken last. -/
theorem place (h : T.Stands c k) : c.place T.last = T.stop k := by
  rw [Cursor.place, h.last, h.head, Tape.stop]

theorem secondKind (h : T.Stands c k) : c.secondKind T.last = (T.token (k + 1)).kind := by
  rw [Cursor.secondKind, Cursor.head, h.rest, List.tail_drop, List.head?_drop, Tape.token]

end Stands

theorem not_eof {s : Kind} (kind : (T.token k).kind = s) (proper : s ≠ .eof) :
    (T.token k).kind ≠ .eof := fun eof => proper (kind.symm.trans eof)

/-- The token has a number, and none before it is the end of input. -/
def Reached (T : Tape) (t : Token) : Prop := ∃ k, t = T.token k ∧ ∀ l < k, (T.token l).kind ≠ .eof

/-! ## Rules -/

/-- What may come out of a parser: a place where this holds of what it returns, or the refusal of
a token that it has come to. -/
inductive Outcome (T : Tape) (P : α → Nat → Prop) : Except Halt (α × Cursor) → Prop
  | done {a : α} {c : Cursor} {k : Nat} (stands : T.Stands c k) (here : P a k) :
      Outcome T P (.ok (a, c))
  | refused {r : Refusal} (reached : T.Reached r.token) : Outcome T P (.error (.refused r))
  | exhausted : Outcome T P (.error .exhausted)

/-- Where the parser succeeds it comes to a place where this holds of what it returns, and where
it refuses a token, it has come to it. -/
def Runs (T : Tape) (p : Parser α) (k : Nat) (P : α → Nat → Prop) : Prop :=
  ∀ c, T.Stands c k → T.Outcome P ((p.run T.last).run c)

namespace Runs

theorem pure {a : α} (h : P a k) : T.Runs (pure a) k P := fun _ stands => .done stands h

theorem bind {f : α → Parser β} (hp : T.Runs p k P) (hf : ∀ a k', P a k' → T.Runs (f a) k' Q) :
    T.Runs (p >>= f) k Q := by
  intro c stands
  have first := hp c stands
  rw [run_bind_eq]
  generalize (p.run T.last).run c = x at first ⊢
  cases first with
  | done stands₁ here => exact hf _ _ here _ stands₁
  | refused reached => exact .refused reached
  | exhausted => exact .exhausted

theorem mono {P' : α → Nat → Prop} (hp : T.Runs p k P) (weaker : ∀ a k', P a k' → P' a k') :
    T.Runs p k P' := by
  intro c stands
  have here := hp c stands
  generalize (p.run T.last).run c = x at here ⊢
  cases here with
  | done stands' here => exact .done stands' (weaker _ _ here)
  | refused reached => exact .refused reached
  | exhausted => exact .exhausted

/-- The tokens before the place where the parser stands have been taken. -/
theorem reaching (h : T.Reached (T.token k) → T.Runs p k P) : T.Runs p k P :=
  fun c stands => h ⟨k, rfl, stands.proper⟩ c stands

/-- A parser that succeeds. -/
theorem of_ok (h : ∀ c, T.Stands c k →
    ∃ a c' k', (p.run T.last).run c = .ok (a, c') ∧ T.Stands c' k' ∧ P a k') : T.Runs p k P := by
  intro c stands
  obtain ⟨a, c', k', run, stands', here⟩ := h c stands
  rw [run]
  exact .done stands' here

theorem exhausted : T.Runs (exhausted : Parser α) k P := fun _ _ => .exhausted

theorem refuse {t : Token} {complaint : Complaint} (reached : T.Reached t) :
    T.Runs (refuse t complaint : Parser α) k P := fun _ _ => .refused reached

theorem unexpected {e : Expectation} : T.Runs (unexpected e : Parser α) k P := by
  intro c stands
  rw [run_unexpected, stands.head]
  exact .refused ⟨k, rfl, stands.proper⟩

/-- A check that stops the parser if it is not passed. -/
theorem needs {b : Bool} {f : α → Parser β} {q : Parser β} (stops : T.Runs p k fun _ _ => False)
    (hq : b = true → T.Runs q k Q) : T.Runs (if (!b) = true then p >>= f else q) k Q := by
  cases b with
  | true => exact hq rfl
  | false => exact stops.bind fun _ _ absent => absent.elim

/-! Looking at the next token. -/

theorem peek {f : Token → Parser β} (hf : T.Runs (f (T.token k)) k Q) :
    T.Runs (peek >>= f) k Q := by
  have seen : T.Runs Grammar.peek k fun t k' => t = T.token k ∧ k' = k :=
    .of_ok fun c stands => ⟨_, c, k, run_peek T.last c, stands, stands.head, rfl⟩
  refine seen.bind ?_
  rintro _ _ ⟨rfl, rfl⟩
  exact hf

theorem peekKind {f : Kind → Parser β} (hf : T.Runs (f (T.token k).kind) k Q) :
    T.Runs (peekKind >>= f) k Q := by
  have seen : T.Runs Grammar.peekKind k fun s k' => s = (T.token k).kind ∧ k' = k :=
    .peek (.pure ⟨rfl, rfl⟩)
  refine seen.bind ?_
  rintro _ _ ⟨rfl, rfl⟩
  exact hf

/-- The question whether the next token is of a kind. -/
theorem asked {s : Kind} {f : Bool → Parser β} (hf : T.Runs (f ((T.token k).kind == s)) k Q) :
    T.Runs (Grammar.next s >>= f) k Q := by
  have seen : T.Runs (Grammar.next s) k fun b k' => b = ((T.token k).kind == s) ∧ k' = k :=
    .peekKind (.pure ⟨rfl, rfl⟩)
  refine seen.bind ?_
  rintro _ _ ⟨rfl, rfl⟩
  exact hf

theorem next {s : Kind} {q q' : Parser β} (hq : (T.token k).kind = s → T.Runs q k Q)
    (hq' : (T.token k).kind ≠ s → T.Runs q' k Q) :
    T.Runs (Grammar.next s >>= fun b => if b = true then q else q') k Q := by
  refine .asked ?_
  split
  next same => exact hq (beq_iff_eq.mp same)
  next other => exact hq' fun same => other (beq_iff_eq.mpr same)

theorem nextIn {ks : List Kind} {f : Bool → Parser β}
    (hf : T.Runs (f (ks.contains (T.token k).kind)) k Q) : T.Runs (nextIn ks >>= f) k Q := by
  have seen : T.Runs (Grammar.nextIn ks) k fun b k' =>
      b = ks.contains (T.token k).kind ∧ k' = k := .peekKind (.pure ⟨rfl, rfl⟩)
  refine seen.bind ?_
  rintro _ _ ⟨rfl, rfl⟩
  exact hf

theorem oneOf {ks : List Kind} {q q' : Parser β} (hq : (T.token k).kind ∈ ks → T.Runs q k Q)
    (hq' : T.Runs q' k Q) :
    T.Runs (Grammar.nextIn ks >>= fun b => if b = true then q else q') k Q := by
  refine .nextIn ?_
  split
  next among => exact hq (List.contains_iff_mem.mp among)
  next => exact hq'

/-! Taking tokens. -/

theorem advance (some : (T.token k).kind ≠ .eof) :
    T.Runs advance k fun t k' => t = T.token k ∧ k' = k + 1 := by
  refine .of_ok fun c stands => ⟨T.token k, _, k + 1, ?_, stands.next some, rfl, rfl⟩
  obtain ⟨last, rest⟩ := c
  obtain rfl : rest = _ := stands.rest_eq some
  rfl

theorem discard {f : Unit → Parser β} (hp : T.Runs p k P)
    (hf : ∀ a k', P a k' → T.Runs (f ()) k' Q) : T.Runs (discard p >>= f) k Q := by
  have same : (Functor.discard p >>= f) = p >>= fun _ => f () := bind_map_left _ p f
  rw [same]
  exact hp.bind hf

theorem take {f : Token → Parser β} (some : (T.token k).kind ≠ .eof)
    (hf : T.Runs (f (T.token k)) (k + 1) Q) : T.Runs (Grammar.advance >>= f) k Q := by
  refine (advance some).bind ?_
  rintro _ _ ⟨rfl, rfl⟩
  exact hf

theorem drop {f : Unit → Parser β} (some : (T.token k).kind ≠ .eof)
    (hf : T.Runs (f ()) (k + 1) Q) : T.Runs (Functor.discard Grammar.advance >>= f) k Q := by
  refine (advance some).discard ?_
  rintro _ _ ⟨rfl, rfl⟩
  exact hf

theorem expect {s : Kind} (proper : s ≠ .eof) :
    T.Runs (expect s) k fun t k' => t = T.token k ∧ k' = k + 1 := by
  refine .next (fun same => advance ?_) fun _ => .unexpected
  rwa [same]

/-- A token of a kind is asked for and taken. -/
theorem takeOf {s : Kind} {f : Token → Parser β} (proper : s ≠ .eof)
    (hf : T.Runs (f (T.token k)) (k + 1) Q) : T.Runs (Grammar.expect s >>= f) k Q := by
  refine (expect proper).bind ?_
  rintro _ _ ⟨rfl, rfl⟩
  exact hf

theorem dropOf {s : Kind} {f : Unit → Parser β} (proper : s ≠ .eof)
    (hf : T.Runs (f ()) (k + 1) Q) : T.Runs (Functor.discard (Grammar.expect s) >>= f) k Q := by
  refine (expect proper).discard ?_
  rintro _ _ ⟨rfl, rfl⟩
  exact hf

/-- The terminator of a block is asked for and taken. -/
theorem finish {s : Kind} {f : Unit → Parser β} (proper : s ≠ .eof)
    (hf : (T.token k).kind ≠ .eof → T.Runs (f ()) (k + 1) Q) : T.Runs (expectEnd s >>= f) k Q := by
  have taken : T.Runs (expectEnd s) k fun _ k' => (T.token k).kind ≠ .eof ∧ k' = k + 1 := by
    refine .oneOf (fun mem => ?_) .unexpected
    have some : (T.token k).kind ≠ .eof := by
      intro eof
      rw [eof] at mem
      rcases List.mem_cons.mp mem with same | later
      · exact proper same.symm
      · exact absurd later (by decide)
    have last := (advance some).discard (f := Pure.pure)
      (Q := fun _ k' => (T.token k).kind ≠ .eof ∧ k' = k + 1)
      fun _ k' here => .pure ⟨some, here.2⟩
    rwa [bind_pure] at last
  refine taken.bind ?_
  rintro _ _ ⟨some, rfl⟩
  exact hf some

/-! What changes no token. -/

theorem skip {f : Unit → Parser β} (hf : ∀ k', k ≤ k' → T.Runs (f ()) k' Q) :
    T.Runs (skipNewlines >>= f) k Q := by
  have skipped : T.Runs skipNewlines k fun _ k' => k ≤ k' := by
    refine .of_ok fun c stands => ?_
    obtain ⟨k', later, there⟩ := stands.skip
    exact ⟨(), _, k', rfl, there, later⟩
  exact skipped.bind fun _ k' later => hf k' later

theorem skipType {f : Unit → Parser β} (hf : ∀ k', k ≤ k' → T.Runs (f ()) k' Q) :
    T.Runs (Bind.bind skipAnnotation f) k Q := by
  have second : T.Runs peekSecondKind k fun s k' => s = (T.token (k + 1)).kind ∧ k' = k := by
    refine .of_ok fun ⟨last, rest⟩ stands => ?_
    have seen := stands.secondKind
    match rest with
    | [] | [_] | _ :: _ :: _ => exact ⟨_, _, k, rfl, stands, seen, rfl⟩
  have skipped : T.Runs skipAnnotation k fun _ k' => k ≤ k' := by
    refine .asked (second.bind ?_)
    rintro _ k ⟨rfl, rfl⟩
    split
    next both =>
      obtain ⟨colon, identifier⟩ := Bool.and_eq_true_iff.mp both
      have colon : (T.token k).kind = .colon := beq_iff_eq.mp colon
      have identifier : (T.token (k + 1)).kind = .identifier := beq_iff_eq.mp identifier
      refine .drop (not_eof colon nofun) ?_
      have last := (advance (k := k + 1) (not_eof identifier nofun)).discard (f := Pure.pure)
        (Q := fun _ k' => k ≤ k') fun _ k' here => .pure (by omega)
      rwa [bind_pure] at last
    next => exact .pure (Nat.le_refl k)
  exact skipped.bind fun _ k' later => hf k' later

/-- What was read ends where the token taken last does. -/
theorem close {f : Span → Parser β} {start : Position} (hf : T.Runs (f ⟨start, T.stop k⟩) k Q) :
    T.Runs (spanFrom start >>= f) k Q := by
  have closed : T.Runs (spanFrom start) k fun s k' => s = ⟨start, T.stop k⟩ ∧ k' = k := by
    refine .of_ok fun ⟨last, rest⟩ stands => ?_
    have place := stands.place
    match last, rest with
    | some _, _ | none, [] | none, _ :: _ =>
      exact ⟨_, _, k, rfl, stands, congrArg (Span.mk start) place, rfl⟩
  refine closed.bind ?_
  rintro _ _ ⟨rfl, rfl⟩
  exact hf

/-! Going back. -/

theorem get {f : Cursor → Parser β} (hf : ∀ c, T.Stands c k → T.Runs (f c) k Q) :
    T.Runs (get >>= f) k Q := fun c stands => hf c stands c stands

theorem set {f : PUnit → Parser β} {i : Nat} (there : T.Stands c i) (hf : T.Runs (f ⟨⟩) i Q) :
    T.Runs (set c >>= f) k Q := fun _ _ => hf c there

end Runs

end Tape

end Pseudocode
