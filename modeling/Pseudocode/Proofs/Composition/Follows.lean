import Pseudocode.Proofs.Composition.Moved
import Pseudocode.Proofs.Printing.Shape
/-
# `Proofs.Composition.Follows` — one parser run beside another

`Follows` compares a parser on the left with a parser on the right whose tokens
are those of the left with their places moved.  There are two ways for the
right to go on where the left ends (`Pairing`).  Either it ends there too; then
the two runs agree in everything, refusals included.  Or a line end and more
tokens stand there.  Then the left run matters only if it succeeds, and the
question is whether the right run stops where the left one stops.

Most parsers do: `firm`.  Those that skip line breaks at the end of what they
read do not, for the right run may go on into the next line; but then the left
run has come to the end of its tokens, and what follows decides.  A parser that
needs a token there refuses (`Fatal`), and one that needs none stays there
(`Sticks`).

Each judgement also says that the bound on recursion is not reached on fewer
than `n` tokens, and that at least `d` tokens are taken.
-/
namespace Pseudocode.Grammar

/-- How the tokens of two runs correspond. -/
structure Pairing where
  move : Position → Position
  /-- What stands on the right in place of the end of input, if anything does. -/
  tail : Option (List Token)
  starts : ∀ ts ∈ tail, ∃ t ∈ ts.head?, t.kind = .newline

/-- Tokens on the left and on the right. -/
inductive Pairing.Tokens (m : Pairing) : List Token → List Token → Prop where
  | nil (shut : m.tail = none) : m.Tokens [] []
  | last {t : Token} {ts : List Token} (more : m.tail = some ts) (eof : t.kind = .eof) :
      m.Tokens [t] ts
  | cons {t : Token} {us vs : List Token} (inside : m.tail = none ∨ t.kind ≠ .eof)
      (rest : m.Tokens us vs) : m.Tokens (t :: us) (t.moved m.move :: vs)

/-- Two runs stand at corresponding places. -/
structure Pairing.Alike (m : Pairing) (env env' : Token) (c c' : Cursor) : Prop where
  eof : env.kind = .eof
  eof' : env'.kind = .eof
  shut : m.tail = none → env' = env.moved m.move
  last : c'.last = c.last.map (Token.moved m.move)
  /-- Where the two runs may part, a token has been taken. -/
  begun : m.tail ≠ none → c.last ≠ none
  rest : m.Tokens c.rest c'.rest

/-- The next token is the end of input. -/
def Cursor.Ended (env : Token) (c : Cursor) : Prop := (c.head env).kind = .eof

/-- Where a judgement is made. -/
inductive Where where
  | anywhere
  /-- Not where the left run is at its end and the right one is not. -/
  | inside
  /-- Before a token. -/
  | before
  /-- Before a token of this kind. -/
  | seeing (k : Kind)
deriving DecidableEq

def Where.Holds (at_ : Where) (m : Pairing) (env : Token) (c : Cursor) : Prop :=
  match at_ with
  | .anywhere => True
  | .inside => m.tail = none ∨ ¬ c.Ended env
  | .before => ¬ c.Ended env
  | .seeing k => k ≠ .eof ∧ (c.head env).kind = k

/-- How two runs end.  The left one started with `size` tokens and takes `d`. -/
inductive Pairing.Answers (m : Pairing) (soft : Bool) (size d : Nat) (env env' : Token)
    {α β : Type} (g : α → β) :
    Except Halt (α × Cursor) → Except Halt (β × Cursor) → Prop where
  | both {a : α} {b : β} {c c' : Cursor} (same : b = g a) (alike : m.Alike env env' c c')
      (taken : c.rest.length + d ≤ size) :
      m.Answers soft size d env env' g (.ok (a, c)) (.ok (b, c'))
  /-- The left run has come to the end of its tokens. -/
  | ended {a : α} {c : Cursor} {x : Except Halt (β × Cursor)} (isSoft : soft = true)
      (more : m.tail ≠ none) (done : c.Ended env) (taken : c.rest.length + d ≤ size) :
      m.Answers soft size d env env' g (.ok (a, c)) x
  | refused {r : Refusal} : m.Answers soft size d env env' g (.error (.refused r))
      (.error (.refused (r.moved m.move)))
  /-- A left run that fails before the right one has to end says nothing. -/
  | stopped {r : Refusal} {x : Except Halt (β × Cursor)} (more : m.tail ≠ none) :
      m.Answers soft size d env env' g (.error (.refused r)) x

/-- The right run follows the left one: it gives `g` of what the left one gives.
Not if the left one is `soft` and comes to the end of its tokens. -/
def Follows (m : Pairing) (at_ : Where) (soft : Bool) (n d : Nat) {α β : Type} (p : Parser α)
    (p' : Parser β) (g : α → β) : Prop :=
  ∀ (env env' : Token) (c c' : Cursor), m.Alike env env' c c' → c.rest.length < n →
    at_.Holds m env c →
    m.Answers soft c.rest.length d env env' g ((p.run env).run c) ((p'.run env').run c')

/-- At the end of input the parser refuses. -/
def Fatal (n : Nat) {α : Type} (p : Parser α) : Prop :=
  ∀ (env : Token) (c : Cursor), env.kind = .eof → c.Ended env → c.rest.length < n →
    ∃ r, (p.run env).run c = .error (.refused r)

/-- At the end of input the parser refuses or stays. -/
def Sticks (n : Nat) {α : Type} (p : Parser α) : Prop :=
  ∀ (env : Token) (c : Cursor), env.kind = .eof → c.Ended env → c.rest.length < n →
    (∃ r, (p.run env).run c = .error (.refused r)) ∨
      ∃ a c₁, (p.run env).run c = .ok (a, c₁) ∧ c₁.Ended env ∧ c₁.rest.length ≤ c.rest.length

variable {α β γ δ : Type} {m : Pairing} {at_ : Where} {soft : Bool} {n n' d : Nat} {k : Kind}
  {p : Parser α} {p' : Parser β} {q : α → Parser γ} {q' : β → Parser δ} {g : α → β} {h : γ → δ}

/-! ## Sequences -/

theorem run_bind_eq (p : Parser α) (q : α → Parser γ) (env : Token) (c : Cursor) :
    ((p >>= q).run env).run c =
      (p.run env).run c >>= fun r => ((q r.1).run env).run r.2 := rfl

theorem run_bind_ok {q : α → Parser γ} {env : Token} {c c₁ : Cursor} {a : α}
    (run : (p.run env).run c = .ok (a, c₁)) :
    ((p >>= q).run env).run c = ((q a).run env).run c₁ := by
  rw [run_bind_eq, run]
  rfl

theorem run_bind_error {q : α → Parser γ} {env : Token} {c : Cursor} {e : Halt}
    (run : (p.run env).run c = .error e) : ((p >>= q).run env).run c = .error e := by
  rw [run_bind_eq, run]
  rfl

theorem Pairing.Answers.mono {size size' d' : Nat} {soft' : Bool} {env env' : Token}
    {x : Except Halt (α × Cursor)} {x' : Except Halt (β × Cursor)}
    (answers : m.Answers soft size d env env' g x x') (few : size + d' ≤ size' + d)
    (softer : soft = true → soft' = true) : m.Answers soft' size' d' env env' g x x' := by
  cases answers with
  | both same alike taken => exact .both same alike (by omega)
  | ended isSoft more done taken => exact .ended (softer isSoft) more done (by omega)
  | refused => exact .refused
  | stopped more => exact .stopped more

theorem Follows.pure {a : α} {b : β} (same : b = g a) :
    Follows m at_ soft n 0 (pure a) (pure b) g :=
  fun _ _ _ _ alike _ _ => .both same alike (Nat.le_refl _)

theorem Follows.loosen (hp : Follows m at_ soft n 1 p p' g) : Follows m at_ soft n 0 p p' g :=
  fun env env' c c' alike few here =>
    (hp env env' c c' alike few here).mono (by omega) fun isSoft => isSoft

theorem Follows.within (hp : Follows m at_ soft n d p p' g) (fewer : n' ≤ n) :
    Follows m at_ soft n' d p p' g :=
  fun env env' c c' alike few here => hp env env' c c' alike (by omega) here

theorem Follows.narrow (hp : Follows m .anywhere soft n d p p' g) :
    Follows m at_ soft n d p p' g :=
  fun env env' c c' alike few _ => hp env env' c c' alike few trivial

theorem Follows.seeing (hp : Follows m .before soft n d p p' g) :
    Follows m (.seeing k) soft n d p p' g := by
  intro env env' c c' alike few here
  refine hp env env' c c' alike few ?_
  intro done
  exact here.1 (here.2.symm.trans done)

theorem Follows.vacuous (none : n = 0) : Follows m at_ soft n d p p' g := by
  subst none
  exact fun _ _ _ _ _ few => absurd few (Nat.not_lt_zero _)

/-- The first of two parsers takes `d` tokens, and the other finds as many less. -/
theorem Follows.bind {e : Nat} (hp : Follows m at_ false n d p p' g)
    (hq : ∀ a, Follows m .anywhere soft (n - d) e (q a) (q' (g a)) h) :
    Follows m at_ soft n (d + e) (p >>= q) (p' >>= q') h := by
  intro env env' c c' alike few here
  have first := hp env env' c c' alike few here
  rw [run_bind_eq, run_bind_eq]
  generalize (p.run env).run c = x at first ⊢
  generalize (p'.run env').run c' = x' at first ⊢
  cases first with
  | @both a b c₁ c₁' same alike₁ taken =>
    subst same
    have second := hq a env env' c₁ c₁' alike₁ (by omega) trivial
    exact second.mono (by omega) id
  | ended isSoft => cases isSoft
  | refused => exact .refused
  | stopped more => exact .stopped more

/-- Nothing is counted of what the first parser takes. -/
theorem Follows.then (hp : Follows m at_ false n 0 p p' g)
    (hq : ∀ a, Follows m .anywhere soft n d (q a) (q' (g a)) h) :
    Follows m at_ soft n d (p >>= q) (p' >>= q') h := by
  have both := hp.bind (e := d) hq
  rwa [Nat.zero_add] at both

/-- The first parser takes a token, and nothing is counted of what the other takes. -/
theorem Follows.take (hp : Follows m at_ false n 1 p p' g)
    (hq : ∀ a, Follows m .anywhere soft (n - 1) 0 (q a) (q' (g a)) h) :
    Follows m at_ soft n 1 (p >>= q) (p' >>= q') h := hp.bind hq

/-- After a soft parser the other starts at corresponding places, or at the end
of the left tokens; `atEnd` says how it ends from there. -/
theorem Follows.bindSoft (hp : Follows m at_ true n 0 p p' g)
    (hq : ∀ a, Follows m .inside soft n d (q a) (q' (g a)) h)
    (atEnd : ∀ a (env env' : Token) (c : Cursor) (size : Nat) (x : Except Halt (δ × Cursor)),
      m.tail ≠ none → env.kind = .eof → c.Ended env → c.rest.length ≤ size → size < n →
      m.Answers soft size d env env' h (((q a).run env).run c) x) :
    Follows m at_ soft n d (p >>= q) (p' >>= q') h := by
  intro env env' c c' alike few here
  have first := hp env env' c c' alike few here
  rw [run_bind_eq, run_bind_eq]
  generalize (p.run env).run c = x at first ⊢
  generalize (p'.run env').run c' = x' at first ⊢
  cases first with
  | @both a b c₁ c₁' same alike₁ taken =>
    subst same
    by_cases here₁ : Where.inside.Holds m env c₁
    · exact (hq a env env' c₁ c₁' alike₁ (by omega) here₁).mono (by omega) id
    · obtain ⟨more, done⟩ := not_or.mp here₁
      exact atEnd a env env' c₁ _ _ more alike.eof (Classical.not_not.mp done) taken few
  | @ended a c₁ _ _ more done taken =>
    exact atEnd a env env' c₁ _ _ more alike.eof done taken few
  | refused => exact .refused
  | stopped more => exact .stopped more

/-- What follows a soft parser stays at the end. -/
theorem Follows.thenSoft (hp : Follows m at_ true n 0 p p' g)
    (hq : ∀ a, Follows m .inside true n 0 (q a) (q' (g a)) h) (hs : ∀ a, Sticks n (q a)) :
    Follows m at_ true n 0 (p >>= q) (p' >>= q') h := by
  refine hp.bindSoft hq ?_
  intro a env env' c size x more eof done fewer few
  rcases hs a env c eof done (by omega) with ⟨r, run⟩ | ⟨b, c₁, run, done₁, fewer₁⟩
  · rw [run]
    exact .stopped more
  · rw [run]
    exact .ended rfl more done₁ (by omega)

/-- What follows a soft parser needs a token. -/
theorem Follows.close (hp : Follows m at_ true n 0 p p' g)
    (hq : ∀ a, Follows m .inside soft n d (q a) (q' (g a)) h) (hf : ∀ a, Fatal n (q a)) :
    Follows m at_ soft n d (p >>= q) (p' >>= q') h := by
  refine hp.bindSoft hq ?_
  intro a env env' c size x more eof done fewer few
  obtain ⟨r, run⟩ := hf a env c eof done (by omega)
  rw [run]
  exact .stopped more

/-- A parser that needs a token follows anywhere if it does inside. -/
theorem Follows.outside (hp : Follows m .inside soft n d p p' g) (hf : Fatal n p) :
    Follows m at_ soft n d p p' g := by
  intro env env' c c' alike few _
  by_cases here : Where.inside.Holds m env c
  · exact hp env env' c c' alike few here
  · obtain ⟨more, done⟩ := not_or.mp here
    obtain ⟨r, run⟩ := hf env c alike.eof (Classical.not_not.mp done) few
    rw [run]
    exact .stopped more

/-- A soft parser that stays at the end follows anywhere if it does inside. -/
theorem Follows.sticking (hp : Follows m .inside true n 0 p p' g) (hs : Sticks n p) :
    Follows m at_ true n 0 p p' g := by
  intro env env' c c' alike few _
  by_cases here : Where.inside.Holds m env c
  · exact hp env env' c c' alike few here
  · obtain ⟨more, done⟩ := not_or.mp here
    rcases hs env c alike.eof (Classical.not_not.mp done) few with ⟨r, run⟩ | ⟨a, c₁, run, done₁, fewer⟩
    · rw [run]
      exact .stopped more
    · rw [run]
      exact .ended rfl more done₁ fewer

/-! At the end of input. -/

theorem Fatal.vacuous (none : n = 0) : Fatal n p := by
  subst none
  exact fun _ _ _ _ few => absurd few (Nat.not_lt_zero _)

theorem Fatal.sticks (hp : Fatal n p) : Sticks n p :=
  fun env c eof done few => .inl (hp env c eof done few)

theorem Sticks.vacuous (none : n = 0) : Sticks n p := (Fatal.vacuous none).sticks

theorem Fatal.bind (hp : Fatal n p) : Fatal n (p >>= q) := by
  intro env c eof done few
  obtain ⟨r, run⟩ := hp env c eof done few
  exact ⟨r, run_bind_error run⟩

theorem Fatal.after (hp : Sticks n p) (hq : ∀ a, Fatal n (q a)) : Fatal n (p >>= q) := by
  intro env c eof done few
  rcases hp env c eof done few with ⟨r, run⟩ | ⟨a, c₁, run, done₁, fewer⟩
  · exact ⟨r, run_bind_error run⟩
  · rw [run_bind_ok run]
    exact hq a env c₁ eof done₁ (by omega)

theorem Sticks.pure {a : α} : Sticks n (pure a : Parser α) :=
  fun _ c _ done _ => .inr ⟨a, c, rfl, done, Nat.le_refl _⟩

theorem Sticks.bind (hp : Sticks n p) (hq : ∀ a, Sticks n (q a)) : Sticks n (p >>= q) := by
  intro env c eof done few
  rcases hp env c eof done few with ⟨r, run⟩ | ⟨a, c₁, run, done₁, fewer⟩
  · exact .inl ⟨r, run_bind_error run⟩
  · rw [run_bind_ok run]
    rcases hq a env c₁ eof done₁ (by omega) with refused | ⟨b, c₂, run₂, done₂, fewer₂⟩
    · exact .inl refused
    · exact .inr ⟨b, c₂, run₂, done₂, by omega⟩

/-! ## Refusals -/

theorem Follows.refuse {t : Token} {complaint : Complaint} :
    Follows m at_ soft n d (refuse t complaint : Parser α)
      (refuse (t.moved m.move) complaint : Parser β) g :=
  fun _ _ _ _ _ _ _ => .refused

/-! ## The next token -/

/-- Corresponding places have the same next token, or else the left run is at its
end and the right one at the end of a line. -/
theorem Pairing.Alike.head {env env' : Token} {c c' : Cursor} (alike : m.Alike env env' c c') :
    Where.inside.Holds m env c ∧ c'.head env' = (c.head env).moved m.move ∨
      m.tail ≠ none ∧ c.Ended env ∧ (c'.head env').kind = .newline := by
  obtain ⟨-, -, shut, -, -, rest⟩ := alike
  obtain ⟨l, ts⟩ := c
  obtain ⟨l', ts'⟩ := c'
  cases rest with
  | nil isShut => exact .inl ⟨.inl isShut, shut isShut⟩
  | last more isEof =>
    obtain ⟨t, first, line⟩ := m.starts _ more
    refine .inr ⟨by rw [more]; simp, isEof, ?_⟩
    show (ts'.head?.getD env').kind = .newline
    rw [Option.mem_def.mp first]
    exact line
  | cons inside rest => exact .inl ⟨inside, rfl⟩

theorem Pairing.Alike.head_inside {env env' : Token} {c c' : Cursor}
    (alike : m.Alike env env' c c') (here : Where.inside.Holds m env c) :
    c'.head env' = (c.head env).moved m.move := by
  rcases alike.head with ⟨-, same⟩ | ⟨more, done, -⟩
  · exact same
  · exact absurd done (here.resolve_left more)

theorem Pairing.Alike.head_seeing {env env' : Token} {c c' : Cursor}
    (alike : m.Alike env env' c c') (here : (Where.seeing k).Holds m env c) :
    c'.head env' = (c.head env).moved m.move := by
  refine alike.head_inside (.inr ?_)
  intro done
  exact here.1 (here.2.symm.trans done)

/-- What is known of the next token is known where it is looked at. -/
theorem Follows.peekSeen {q : Token → Parser γ} {q' : Token → Parser δ}
    (hq : ∀ t, t.kind = k → Follows m (.seeing k) soft n d (q t) (q' (t.moved m.move)) h) :
    Follows m (.seeing k) soft n d (peek >>= q) (peek >>= q') h := by
  intro env env' c c' alike few here
  rw [run_bind_ok (run_peek env c), run_bind_ok (run_peek env' c'), alike.head_seeing here]
  exact hq _ here.2 env env' c c' alike few here

theorem Follows.peek {q : Token → Parser γ} {q' : Token → Parser δ}
    (token : ∀ t, t.kind ≠ .eof → Follows m .before soft n d (q t) (q' (t.moved m.move)) h)
    (final : ∀ t, t.kind = .eof → Follows m .inside soft n d (q t) (q' (t.moved m.move)) h) :
    Follows m .inside soft n d (peek >>= q) (peek >>= q') h := by
  intro env env' c c' alike few here
  rw [run_bind_ok (run_peek env c), run_bind_ok (run_peek env' c'), alike.head_inside here]
  by_cases eof : (c.head env).kind = .eof
  · exact final _ eof env env' c c' alike few here
  · exact token _ eof env env' c c' alike few eof

/-- The same where the left run may be at its end and the right one at the end of
a line. -/
theorem Follows.peekAnywhere {q : Token → Parser γ} {q' : Token → Parser δ}
    (token : ∀ t, t.kind ≠ .eof → Follows m .before soft n d (q t) (q' (t.moved m.move)) h)
    (final : ∀ t, t.kind = .eof → Follows m .inside soft n d (q t) (q' (t.moved m.move)) h)
    (line : ∀ t t', t.kind = .eof → t'.kind = .newline →
      Follows m .anywhere soft n d (q t) (q' t') h) :
    Follows m .anywhere soft n d (Grammar.peek >>= q) (Grammar.peek >>= q') h := by
  intro env env' c c' alike few _
  rcases alike.head with ⟨here, -⟩ | ⟨more, done, isLine⟩
  · exact Follows.peek token final env env' c c' alike few here
  · rw [run_bind_ok (run_peek env c), run_bind_ok (run_peek env' c')]
    exact line _ _ done isLine env env' c c' alike few trivial

theorem run_peekKind (env : Token) (c : Cursor) :
    (peekKind.run env).run c = .ok ((c.head env).kind, c) := by
  obtain ⟨_, rest⟩ := c
  cases rest <;> rfl

theorem Follows.peekKindSeen {q : Kind → Parser γ} {q' : Kind → Parser δ}
    (hq : Follows m (.seeing k) soft n d (q k) (q' k) h) :
    Follows m (.seeing k) soft n d (peekKind >>= q) (peekKind >>= q') h := by
  intro env env' c c' alike few here
  have same : (c'.head env').kind = k := by
    rw [alike.head_seeing here, Token.kind_moved, here.2]
  rw [run_bind_ok (run_peekKind env c), run_bind_ok (run_peekKind env' c'), same, here.2]
  exact hq env env' c c' alike few here

theorem Follows.peekKind {q : Kind → Parser γ} {q' : Kind → Parser δ}
    (token : ∀ k, k ≠ .eof → Follows m (.seeing k) soft n d (q k) (q' k) h)
    (final : Follows m .inside soft n d (q .eof) (q' .eof) h) :
    Follows m .inside soft n d (peekKind >>= q) (peekKind >>= q') h := by
  intro env env' c c' alike few here
  have same : (c'.head env').kind = (c.head env).kind := by
    rw [alike.head_inside here, Token.kind_moved]
  rw [run_bind_ok (run_peekKind env c), run_bind_ok (run_peekKind env' c'), same]
  by_cases eof : (c.head env).kind = .eof
  · rw [eof]
    exact final env env' c c' alike few here
  · exact token _ eof env env' c c' alike few ⟨eof, rfl⟩

theorem Follows.peekKindAnywhere {q : Kind → Parser γ} {q' : Kind → Parser δ}
    (token : ∀ k, k ≠ .eof → Follows m (.seeing k) soft n d (q k) (q' k) h)
    (final : Follows m .inside soft n d (q .eof) (q' .eof) h)
    (line : Follows m .anywhere soft n d (q .eof) (q' .newline) h) :
    Follows m .anywhere soft n d (Grammar.peekKind >>= q) (Grammar.peekKind >>= q') h := by
  intro env env' c c' alike few _
  rcases alike.head with ⟨here, -⟩ | ⟨more, done, isLine⟩
  · exact Follows.peekKind token final env env' c c' alike few here
  · rw [run_bind_ok (run_peekKind env c), run_bind_ok (run_peekKind env' c'), done, isLine]
    exact line env env' c c' alike few trivial

theorem Fatal.peekKind {q : Kind → Parser γ} (hq : Fatal n (q .eof)) :
    Fatal n (peekKind >>= q) := by
  intro env c eof done few
  rw [run_bind_ok (run_peekKind env c), done]
  exact hq env c eof done few

theorem Fatal.peek {q : Token → Parser γ} (hq : ∀ t, t.kind = .eof → Fatal n (q t)) :
    Fatal n (peek >>= q) := by
  intro env c eof done few
  rw [run_bind_ok (run_peek env c)]
  exact hq _ done env c eof done few

theorem sticks_peek : Sticks n peek :=
  fun env c _ done _ => .inr ⟨_, c, run_peek env c, done, Nat.le_refl _⟩

theorem fatal_refuse {t : Token} {complaint : Complaint} : Fatal n (refuse t complaint : Parser α) :=
  fun _ _ _ _ _ => ⟨_, rfl⟩

theorem fatal_unexpected {e : Expectation} : Fatal n (unexpected e : Parser α) :=
  .peek fun _ _ => fatal_refuse

theorem run_unexpected (e : Expectation) (env : Token) (c : Cursor) :
    ((unexpected e : Parser α).run env).run c =
      .error (.refused ⟨c.head env, .misplaced e⟩) := by
  rw [Grammar.unexpected, run_bind_ok (run_peek env c)]
  rfl

theorem Follows.unexpected {e : Expectation} :
    Follows m at_ soft n d (unexpected e : Parser α) (unexpected e : Parser β) g :=
  .outside (.peek (fun _ _ => .refuse) fun _ _ => .refuse) fatal_unexpected

/-! ## Questions about the next token -/

/-- The parser tells, from the kind of the next token alone, whether `f` holds of it. -/
def Asks (t : Parser Bool) (f : Kind → Bool) : Prop :=
  ∀ (env : Token) (c : Cursor), (t.run env).run c = .ok (f (c.head env).kind, c)

theorem asks_next (k : Kind) : Asks (next k) (· == k) := by
  intro env c
  rw [next, run_bind_ok (run_peekKind env c)]
  rfl

theorem asks_nextIn (ks : List Kind) : Asks (nextIn ks) ks.contains := by
  intro env c
  rw [nextIn, run_bind_ok (run_peekKind env c)]
  rfl

section Asking

variable {t : Parser Bool} {f : Kind → Bool} {yes no : Parser γ} {yes' no' : Parser δ}

/-- A question that neither the end of input nor the end of a line answers with yes. -/
theorem Follows.ask (asks : Asks t f) (eof : f .eof = false)
    (line : at_ = .anywhere → f .newline = false) (hyes : Follows m .before soft n d yes yes' h)
    (hno : Follows m at_ soft n d no no' h) :
    Follows m at_ soft n d (t >>= fun b => if b = true then yes else no)
      (t >>= fun b => if b = true then yes' else no') h := by
  intro env env' c c' alike few here
  rw [run_bind_ok (asks env c), run_bind_ok (asks env' c')]
  have same : f (c'.head env').kind = f (c.head env).kind := by
    rcases alike.head with ⟨-, same⟩ | ⟨more, done, isLine⟩
    · rw [same, Token.kind_moved]
    · cases at_ with
      | anywhere => rw [isLine, done, eof, line rfl]
      | inside => exact absurd done (here.resolve_left more)
      | before => exact absurd done here
      | seeing k => exact absurd (here.2.symm.trans done) here.1
  rw [same]
  cases answer : f (c.head env).kind with
  | false => exact hno env env' c c' alike few here
  | true =>
    refine hyes env env' c c' alike few ?_
    intro done
    rw [done, eof] at answer
    cases answer

/-- A question that the end of input answers with yes. -/
theorem Follows.askEnd (asks : Asks t f) (eof : f .eof = true)
    (hyes : Follows m .inside soft n d yes yes' h) (hno : Follows m .before soft n d no no' h) :
    Follows m .inside soft n d (t >>= fun b => if b = true then yes else no)
      (t >>= fun b => if b = true then yes' else no') h := by
  intro env env' c c' alike few here
  rw [run_bind_ok (asks env c), run_bind_ok (asks env' c'), alike.head_inside here,
    Token.kind_moved]
  cases answer : f (c.head env).kind with
  | true => exact hyes env env' c c' alike few here
  | false =>
    refine hno env env' c c' alike few ?_
    intro done
    rw [done, eof] at answer
    cases answer

/-- A question that has to be answered with yes. -/
theorem Follows.demand {e : Expectation} {w : α → Parser γ} {w' : β → Parser δ}
    (asks : Asks t f) (eof : f .eof = false) (hyes : Follows m .before soft n d yes yes' h) :
    Follows m at_ soft n d (t >>= fun b => if (!b) = true then Grammar.unexpected e >>= w else yes)
      (t >>= fun b => if (!b) = true then Grammar.unexpected e >>= w' else yes') h := by
  intro env env' c c' alike few here
  rw [run_bind_ok (asks env c), run_bind_ok (asks env' c')]
  rcases alike.head with ⟨inside, same⟩ | ⟨more, done, -⟩
  · rw [same, Token.kind_moved]
    cases answer : f (c.head env).kind with
    | true =>
      refine hyes env env' c c' alike few ?_
      intro done
      rw [done, eof] at answer
      cases answer
    | false =>
      rw [if_pos Bool.not_false, if_pos Bool.not_false, run_bind_error (run_unexpected e env c),
        run_bind_error (run_unexpected e env' c'), same]
      exact .refused
  · rw [done, eof, if_pos Bool.not_false, run_bind_error (run_unexpected e env c)]
    exact .stopped more

theorem Sticks.ask (asks : Asks t f) (hyes : f .eof = true → Sticks n yes)
    (hno : f .eof = false → Sticks n no) :
    Sticks n (t >>= fun b => if b = true then yes else no) := by
  intro env c eof done few
  rw [run_bind_ok (asks env c), done]
  cases answer : f .eof with
  | true => exact hyes answer env c eof done few
  | false => exact hno answer env c eof done few

theorem Fatal.ask (asks : Asks t f) (eof : f .eof = false) (hno : Fatal n no) :
    Fatal n (t >>= fun b => if b = true then yes else no) := by
  intro env c isEof done few
  rw [run_bind_ok (asks env c), done, eof]
  exact hno env c isEof done few

end Asking

/-! ## Taking tokens -/

theorem follows_advance : Follows m .before soft n 1 advance advance (Token.moved m.move) := by
  intro env env' c c' alike few here
  obtain ⟨eof, eof', shut, last, begun, rest⟩ := alike
  obtain ⟨l, ts⟩ := c
  obtain ⟨l', ts'⟩ := c'
  cases rest with
  | nil => exact absurd eof here
  | last more isEof => exact absurd isEof here
  | cons inside rest =>
    exact .both rfl ⟨eof, eof', shut, rfl, fun _ => by simp, rest⟩ (Nat.le_refl _)

theorem Follows.discarded {soft : Bool} (hp : Follows m at_ soft n d p p' g) :
    Follows m at_ soft n d (discard p) (discard p') id := by
  intro env env' c c' alike few here
  have first := hp env env' c c' alike few here
  have left : ((discard p).run env).run c = (fun r => ((), r.2)) <$> (p.run env).run c := rfl
  have right : ((discard p').run env').run c' = (fun r => ((), r.2)) <$> (p'.run env').run c' := rfl
  rw [left, right]
  generalize (p.run env).run c = x at first ⊢
  generalize (p'.run env').run c' = x' at first ⊢
  cases first with
  | both same alike taken => exact .both rfl alike taken
  | ended isSoft more done taken => exact .ended isSoft more done taken
  | refused => exact .refused
  | stopped more => exact .stopped more

theorem Fatal.discarded (hp : Fatal n p) : Fatal n (discard p) := by
  intro env c eof done few
  obtain ⟨r, run⟩ := hp env c eof done few
  refine ⟨r, ?_⟩
  have left : ((discard p).run env).run c = (fun r => ((), r.2)) <$> (p.run env).run c := rfl
  rw [left, run]
  rfl

/-- The next token is taken. -/
theorem Follows.advance {q : Token → Parser γ} {q' : Token → Parser δ}
    (hq : ∀ t, Follows m .anywhere soft (n - 1) 0 (q t) (q' (t.moved m.move)) h) :
    Follows m .before soft n 1 (advance >>= q) (advance >>= q') h :=
  follows_advance.take hq

/-- The next token is taken and tells nothing. -/
theorem Follows.drop {q : Unit → Parser γ} {q' : Unit → Parser δ}
    (hq : Follows m .anywhere soft (n - 1) 0 (q ()) (q' ()) h) :
    Follows m .before soft n 1 (discard Grammar.advance >>= q) (discard Grammar.advance >>= q') h :=
  follows_advance.discarded.take fun _ => hq

theorem follows_expect (eof : k ≠ .eof) (line : k ≠ .newline) :
    Follows m at_ soft n 1 (expect k) (expect k) (Token.moved m.move) := by
  have tok : ∀ j, j ≠ k → (j == k) = false := fun j other => by simpa using other
  refine .ask (asks_next k) (tok _ eof.symm) (fun _ => tok _ line.symm) follows_advance ?_
  exact .unexpected

theorem fatal_expect (eof : k ≠ .eof) : Fatal n (expect k) :=
  .ask (asks_next k) (by simpa using eof.symm) fatal_unexpected

theorem follows_expectEnd (eof : k ≠ .eof) (line : k ≠ .newline) :
    Follows m at_ soft n 1 (expectEnd k) (expectEnd k) id := by
  refine .ask (asks_nextIn _) ?_ (fun _ => ?_) follows_advance.discarded .unexpected
  · simpa using eof.symm
  · simpa using line.symm

theorem fatal_expectEnd (eof : k ≠ .eof) : Fatal n (expectEnd k) :=
  .ask (asks_nextIn _) (by simpa using eof.symm) fatal_unexpected

/-! ## Line breaks, annotations and spans -/

theorem Pairing.Tokens.skip {us vs : List Token} (tokens : m.Tokens us vs) :
    (m.tail ≠ none ∧ ∃ t : Token, us.dropWhile (·.kind == .newline) = [t] ∧ t.kind = .eof) ∨
      m.Tokens (us.dropWhile (·.kind == .newline)) (vs.dropWhile (·.kind == .newline)) ∧
        vs.takeWhile (·.kind == .newline) =
          (us.takeWhile (·.kind == .newline)).map (Token.moved m.move) := by
  induction tokens with
  | nil shut => exact .inr ⟨.nil shut, rfl⟩
  | @last t ts more eof =>
    refine .inl ⟨by rw [more]; simp, t, ?_, eof⟩
    rw [List.dropWhile_cons, if_neg (by rw [eof]; decide)]
  | @cons t us vs inside rest ih =>
    have isBreak : ∀ t : Token, ((t.moved m.move).kind == .newline) = (t.kind == .newline) :=
      fun _ => rfl
    rw [List.dropWhile_cons, List.dropWhile_cons, List.takeWhile_cons, List.takeWhile_cons]
    cases line : t.kind == .newline with
    | true =>
      rw [if_pos rfl, if_pos (by rw [isBreak, line]), isBreak, line]
      rcases ih with ended | ⟨tokens, lines⟩
      · exact .inl ended
      · exact .inr ⟨tokens, congrArg _ lines⟩
    | false =>
      rw [if_neg Bool.false_ne_true, if_neg (by rw [isBreak, line]; exact Bool.false_ne_true),
        isBreak, line]
      exact .inr ⟨.cons inside rest, rfl⟩

theorem follows_skipNewlines : Follows m at_ true n 0 skipNewlines skipNewlines id := by
  intro env env' c c' alike few _
  obtain ⟨eof, eof', shut, last, begun, rest⟩ := alike
  have fewer := (List.dropWhile_sublist (l := c.rest) (·.kind == .newline)).length_le
  rcases rest.skip with ⟨more, t, final, isEof⟩ | ⟨tokens, lines⟩
  · refine .ended rfl more ?_ fewer
    show ((c.rest.dropWhile (·.kind == .newline)).head?.getD env).kind = .eof
    rw [final]
    exact isEof
  · refine .both rfl ⟨eof, eof', shut, ?_, ?_, tokens⟩ fewer
    · show ((c'.rest.takeWhile (·.kind == .newline)).getLast?.or c'.last) = _
      rw [lines, last, List.getLast?_map, Option.map_or]
    · intro more none
      exact begun more (Option.or_eq_none_iff.mp none).2

theorem sticks_skipNewlines : Sticks n skipNewlines := by
  rintro env ⟨last, rest⟩ eof done few
  refine .inr ⟨(), _, rfl, ?_, (List.dropWhile_sublist _).length_le⟩
  cases rest with
  | nil => exact eof
  | cons t rest =>
    have isEof : t.kind = .eof := done
    show ((List.dropWhile (·.kind == .newline) (t :: rest)).head?.getD env).kind = .eof
    rw [List.dropWhile_cons_of_neg (by rw [isEof]; decide)]
    exact isEof

/-- Line breaks are skipped before something that needs a token. -/
theorem Follows.skip {q : Unit → Parser γ} {q' : Unit → Parser δ}
    (hq : Follows m .inside soft n d (q ()) (q' ()) h) (hf : Fatal n (q ())) :
    Follows m at_ soft n d (skipNewlines >>= q) (skipNewlines >>= q') h :=
  follows_skipNewlines.close (fun _ => hq) fun _ => hf

/-- Line breaks are skipped before something that may be missing. -/
theorem Follows.skipSoft {q : Unit → Parser γ} {q' : Unit → Parser δ}
    (hq : Follows m .inside true n 0 (q ()) (q' ()) h) (hs : Sticks n (q ())) :
    Follows m at_ true n 0 (skipNewlines >>= q) (skipNewlines >>= q') h :=
  follows_skipNewlines.thenSoft (fun _ => hq) fun _ => hs

theorem follows_spanFrom {start : Position} :
    Follows m at_ soft n 0 (spanFrom start) (spanFrom (m.move start)) (Span.moved m.move) := by
  intro env env' c c' alike few _
  have head := alike.head
  have last := alike.last
  have begun := alike.begun
  obtain ⟨l, ts⟩ := c
  obtain ⟨l', ts'⟩ := c'
  dsimp only at last begun
  subst last
  cases l with
  | some t => exact .both rfl alike (Nat.le_refl _)
  | none =>
    have place : ∀ start env ts, ((spanFrom start).run env).run ⟨none, ts⟩ =
        .ok (⟨start, ((Cursor.mk none ts).head env).span.start⟩, ⟨none, ts⟩) := by
      intro start env ts
      cases ts <;> rfl
    rcases head with ⟨-, same⟩ | ⟨more, -, -⟩
    · rw [place, Option.map_none, place]
      refine .both ?_ alike (Nat.le_refl _)
      rw [Option.map_none] at same
      rw [same]
      rfl
    · exact absurd rfl (begun more)

theorem run_spanFrom (start : Position) (env : Token) (c : Cursor) :
    ∃ s, ((spanFrom start).run env).run c = .ok (s, c) := by
  obtain ⟨last, rest⟩ := c
  cases last with
  | some t => exact ⟨_, rfl⟩
  | none => cases rest <;> exact ⟨_, rfl⟩

theorem sticks_spanFrom {start : Position} : Sticks n (spanFrom start) := by
  intro env c eof done few
  obtain ⟨s, run⟩ := run_spanFrom start env c
  exact .inr ⟨s, c, run, done, Nat.le_refl _⟩

theorem Follows.spanFrom {start : Position} {q : Span → Parser γ} {q' : Span → Parser δ}
    (hq : ∀ s, Follows m .anywhere soft n d (q s) (q' (s.moved m.move)) h) :
    Follows m at_ soft n d (spanFrom start >>= q) (spanFrom (m.move start) >>= q') h :=
  follows_spanFrom.then hq

/-- Where the parser stands after an annotation, if there is one. -/
def Cursor.pastType (c : Cursor) : Cursor :=
  match c.rest with
  | t :: u :: us => if t.kind = .colon ∧ u.kind = .identifier then ⟨some u, us⟩ else c
  | _ => c

theorem Cursor.pastType_of_ne {last : Option Token} {t : Token} {ts : List Token}
    (other : t.kind ≠ .colon) : (Cursor.mk last (t :: ts)).pastType = ⟨last, t :: ts⟩ := by
  cases ts with
  | nil => rfl
  | cons u us => exact if_neg fun both => other both.1

theorem run_skipType {env : Token} (eof : env.kind = .eof) (c : Cursor) :
    (ReaderT.run skipAnnotation env).run c = .ok ((), c.pastType) := by
  obtain ⟨last, rest⟩ := c
  have short : ∀ rest, rest.tail = [] →
      (ReaderT.run skipAnnotation env).run ⟨last, rest⟩ = .ok ((), ⟨last, rest⟩) := by
    intro rest single
    have second : (peekSecondKind.run env).run ⟨last, rest⟩ = .ok (.eof, ⟨last, rest⟩) := by
      rw [← eof]
      cases rest with
      | nil => rfl
      | cons t rest =>
        cases single
        rfl
    unfold skipAnnotation
    rw [run_bind_ok (asks_next .colon env _), run_bind_ok second, if_neg]
    · rfl
    · simp
  cases rest with
  | nil => exact short [] rfl
  | cons t rest =>
    cases rest with
    | nil => exact short [t] rfl
    | cons u us =>
      have second : (peekSecondKind.run env).run ⟨last, t :: u :: us⟩ =
          .ok (u.kind, ⟨last, t :: u :: us⟩) := rfl
      unfold skipAnnotation
      rw [run_bind_ok (asks_next .colon env _), run_bind_ok second]
      by_cases both : t.kind = .colon ∧ u.kind = .identifier
      · rw [if_pos (by simpa [Cursor.head] using both), Cursor.pastType]
        dsimp only
        rw [if_pos both]
        rfl
      · rw [if_neg (by simpa [Cursor.head] using both), Cursor.pastType]
        dsimp only
        rw [if_neg both]
        rfl

theorem follows_skipType : Follows m at_ soft n 0 skipAnnotation skipAnnotation id := by
  intro env env' c c' alike few _
  rw [run_skipType alike.eof, run_skipType alike.eof']
  have same := alike
  obtain ⟨eof, eof', shut, last, begun, rest⟩ := alike
  obtain ⟨l, ts⟩ := c
  obtain ⟨l', ts'⟩ := c'
  dsimp only at rest
  -- Only a colon with a name behind it is skipped, and neither ends the left tokens.
  have stays : ∀ {c c' : Cursor}, m.Alike env env' c c' → c.pastType = c →
      c'.pastType = c' → m.Answers soft c.rest.length 0 env env' id
        (.ok ((), c.pastType)) (.ok ((), c'.pastType)) := by
    intro c c' alike left right
    rw [left, right]
    exact .both rfl alike (Nat.le_refl _)
  cases rest with
  | nil => exact stays same rfl rfl
  | last more isEof =>
    refine stays same rfl ?_
    obtain ⟨u, first, line⟩ := m.starts _ more
    cases ts' with
    | nil => rfl
    | cons v vs =>
      obtain rfl : v = u := by simpa using first
      exact Cursor.pastType_of_ne (by rw [line]; decide)
  | @cons t us vs inside rest =>
    cases rest with
    | nil => exact stays same rfl rfl
    | @last u us more isEof =>
      obtain ⟨v, first, line⟩ := m.starts _ more
      cases vs with
      | nil => cases first
      | cons w vs =>
        obtain rfl : w = v := by simpa using first
        refine stays same (if_neg ?_) (if_neg ?_)
        · rintro ⟨-, name⟩
          rw [isEof] at name
          cases name
        · rintro ⟨-, name⟩
          rw [line] at name
          cases name
    | @cons u us vs inside' rest =>
      by_cases both : t.kind = .colon ∧ u.kind = .identifier
      · have left : (Cursor.mk l (t :: u :: us)).pastType = ⟨some u, us⟩ := if_pos both
        have right : (Cursor.mk l' (t.moved m.move :: u.moved m.move :: vs)).pastType =
            ⟨some (u.moved m.move), vs⟩ := if_pos both
        rw [left, right]
        exact .both rfl ⟨eof, eof', shut, rfl, fun _ => by simp, rest⟩ (Nat.le_add_right _ 2)
      · exact stays same (if_neg both) (if_neg both)

theorem Follows.skipType {q : Unit → Parser γ} {q' : Unit → Parser δ}
    (hq : Follows m .anywhere soft n d (q ()) (q' ()) h) :
    Follows m at_ soft n d (Bind.bind skipAnnotation q) (Bind.bind skipAnnotation q') h :=
  follows_skipType.then fun _ => hq

end Pseudocode.Grammar
