import Pseudocode.Proofs.Composition.Follows
import Pseudocode.Proofs.Reflow.Setting
/-
# `Proofs.Reflow.Beside` — a parser run beside itself

The same parser is run on two lists of tokens that are the same but for little.  There are two
kinds of little (`Regard`).  Either the end of input stands at different places, or at the end of
one list only; then everything else that the two runs give is the same, refusals included.  Or line
breaks stand on one side only, where they mean nothing; then the right run accepts what the left
one does, and the results are the same but for the places in them.

`Beside` is a judgement on the two runs with a `Spot` before and after them: what is known of the
brackets around, and of the next token on either side.  At most places the next tokens are twins.
Where a line break may stand or be missing they need not be, and then either one is a line break or
ends an item (`Near`).  No parser takes these for the start of something.
-/
namespace Pseudocode.Grammar

/-- What of two runs is compared. -/
inductive Regard where
  /-- Everything but the place of the end of input. -/
  | all
  /-- What accepted tokens mean, wherever they stand. -/
  | meaning
deriving DecidableEq

/-- How much of a place is compared. -/
def Regard.view : Regard → Position → Position
  | .all => id
  | .meaning => fun _ => .nowhere

/-- The same token, as far as it is compared. -/
structure Regard.Twin (m : Regard) (t t' : Token) : Prop where
  kind : t'.kind = t.kind
  lexeme : t'.lexeme = t.lexeme
  span : m = .all → t.kind ≠ .eof → t'.span = t.span

/-- The tokens of the two runs.  The end of input may be missing on the right. -/
inductive Regard.Tokens (m : Regard) (env' : Token) : Setting → List Token → List Token → Prop where
  | nil {σ : Setting} : m.Tokens env' σ [] []
  | final {σ : Setting} {t : Token} (eof : t.kind = .eof) (twin : m.Twin t env') :
      m.Tokens env' σ [t] []
  | token {σ : Setting} {t t' : Token} {us vs : List Token} (twin : m.Twin t t')
      (plain : m = .meaning → t.kind.isMagic = true → σ.stack = [])
      (rest : m.Tokens env' (σ.next t.kind) us vs) : m.Tokens env' σ (t :: us) (t' :: vs)
  | removed {σ : Setting} {t : Token} {us vs : List Token} (loose : m = .meaning)
      (line : t.kind = .newline) (free : σ.Free us) (rest : m.Tokens env' σ us vs) :
      m.Tokens env' σ (t :: us) vs
  | added {σ : Setting} {t : Token} {us vs : List Token} (loose : m = .meaning)
      (line : t.kind = .newline) (free : σ.Free vs) (rest : m.Tokens env' σ us vs) :
      m.Tokens env' σ us (t :: vs)

/-- The two runs stand at corresponding places.  Before the end of input, something was taken. -/
structure Regard.Alike (m : Regard) (env env' : Token) (σ : Setting) (c c' : Cursor) : Prop where
  eof : env.kind = .eof
  twin : m.Twin env env'
  last : m = .all → c'.last = c.last
  begun : m = .all → c.last = none → (c.head env).kind ≠ .eof
  rest : m.Tokens env' σ c.rest c'.rest

/-- What is known where two runs stand: the setting, and the next token of either. -/
abbrev Spot := Setting → Token → Token → Prop

/-- How two runs end. -/
inductive Regard.Answers (m : Regard) (env env' : Token) {α β : Type} (Q : α → β → Spot) :
    Except Halt (α × Cursor) → Except Halt (β × Cursor) → Prop where
  | both {a : α} {b : β} {σ : Setting} {c c' : Cursor} (alike : m.Alike env env' σ c c')
      (here : Q a b σ (c.head env) (c'.head env')) : m.Answers env env' Q (.ok (a, c)) (.ok (b, c'))
  | refused {r r' : Refusal} (complaint : r'.complaint = r.complaint)
      (twin : m.Twin r.token r'.token) :
      m.Answers env env' Q (.error (.refused r)) (.error (.refused r'))
  /-- What the right run does with tokens that the left one refuses does not matter. -/
  | stopped {r : Refusal} {x : Except Halt (β × Cursor)} (loose : m = .meaning) :
      m.Answers env env' Q (.error (.refused r)) x
  | exhausted {x : Except Halt (β × Cursor)} : m.Answers env env' Q (.error .exhausted) x

/-- From `P` on, the two parsers give results and come to places of which `Q` is true. -/
def Beside (m : Regard) (P : Spot) {α β : Type} (p : Parser α) (p' : Parser β)
    (Q : α → β → Spot) : Prop :=
  ∀ (env env' : Token) (σ : Setting) (c c' : Cursor), m.Alike env env' σ c c' →
    P σ (c.head env) (c'.head env') →
    m.Answers env env' Q ((p.run env).run c) ((p'.run env').run c')

/-- Exactly here. -/
def only (σ : Setting) (t t' : Token) : Spot := fun τ u u' => τ = σ ∧ u = t ∧ u' = t'

/-- The results are related, and what is known of the place does not depend on them. -/
def giving {α β : Type} (R : α → β → Prop) (Q : Spot) : α → β → Spot :=
  fun a b σ t t' => R a b ∧ Q σ t t'

/-- The same result, as far as places are compared. -/
abbrev Regard.Same (m : Regard) {α β : Type} (f : (Position → Position) → α → β) (a b : α) : Prop :=
  f m.view a = f m.view b

variable {α β γ δ : Type} {m : Regard} {P P' : Spot} {σ : Setting} {t t' : Token} {k : Kind}
  {p : Parser α} {p' : Parser β} {q : α → Parser γ} {q' : β → Parser δ} {R : α → β → Prop}
  {Q Q' : α → β → Spot} {Q₁ : Spot} {S : γ → δ → Spot}

/-! ## Sequences -/

theorem Beside.pure {a : α} {b : β} (here : ∀ {σ t t'}, P σ t t' → Q a b σ t t') :
    Beside m P (pure a) (pure b) Q :=
  fun _ _ _ _ _ alike spot => .both alike (here spot)

theorem Beside.bind (hp : Beside m P p p' Q) (hq : ∀ a b, Beside m (Q a b) (q a) (q' b) S) :
    Beside m P (p >>= q) (p' >>= q') S := by
  intro env env' σ c c' alike spot
  have first := hp env env' σ c c' alike spot
  rw [run_bind_eq, run_bind_eq]
  generalize (p.run env).run c = x at first ⊢
  generalize (p'.run env').run c' = x' at first ⊢
  cases first with
  | both alike₁ here => exact hq _ _ env env' _ _ _ alike₁ here
  | refused complaint twin => exact .refused complaint twin
  | stopped loose => exact .stopped loose
  | exhausted => exact .exhausted

/-- What is known of a place may be used like anything else. -/
theorem Beside.here (h : ∀ σ t t', P σ t t' → Beside m (only σ t t') p p' Q) :
    Beside m P p p' Q :=
  fun env env' σ c c' alike spot => h σ _ _ spot env env' σ c c' alike ⟨rfl, rfl, rfl⟩

/-- What may be done at some places may be done at one of them. -/
theorem Beside.at (hp : Beside m P p p' Q) (here : P σ t t') : Beside m (only σ t t') p p' Q := by
  rintro env env' σ c c' alike ⟨rfl, rfl, rfl⟩
  exact hp env env' σ c c' alike here

theorem Beside.from (hp : Beside m P' p p' Q) (here : ∀ {σ t t'}, P σ t t' → P' σ t t') :
    Beside m P p p' Q :=
  fun env env' σ c c' alike spot => hp env env' σ c c' alike (here spot)

theorem Beside.to (hp : Beside m P p p' Q)
    (there : ∀ {a b σ t t'}, Q a b σ t t' → Q' a b σ t t') : Beside m P p p' Q' := by
  intro env env' σ c c' alike spot
  have first := hp env env' σ c c' alike spot
  generalize (p.run env).run c = x at first ⊢
  generalize (p'.run env').run c' = x' at first ⊢
  cases first with
  | both alike₁ here => exact .both alike₁ (there here)
  | refused complaint twin => exact .refused complaint twin
  | stopped loose => exact .stopped loose
  | exhausted => exact .exhausted

/-- What is known of the results is known from then on. -/
theorem Beside.then (hp : Beside m P p p' (giving R Q₁))
    (hq : ∀ a b, R a b → Beside m Q₁ (q a) (q' b) S) : Beside m P (p >>= q) (p' >>= q') S :=
  hp.bind fun a b => .here fun _ _ _ ⟨related, here⟩ => (hq a b related).at here

/-- The results are dropped, but that there are some is known. -/
theorem Beside.discarded (hp : Beside m P p p' (giving R Q₁)) :
    Beside m P (discard p) (discard p') fun _ _ σ t t' => (∃ a b, R a b) ∧ Q₁ σ t t' := by
  have both : Beside m P (p >>= fun _ => Pure.pure ()) (p' >>= fun _ => Pure.pure ())
      fun _ _ σ t t' => (∃ a b, R a b) ∧ Q₁ σ t t' :=
    hp.then fun a b related => .pure fun here => ⟨⟨a, b, related⟩, here⟩
  exact both

theorem Beside.exhausted : Beside m P (exhausted : Parser α) p' Q := fun _ _ _ _ _ _ _ => .exhausted

theorem Beside.refuse {complaint : Complaint} (twin : m.Twin t t') :
    Beside m P (refuse t complaint : Parser α) (refuse t' complaint : Parser β) Q :=
  fun _ _ _ _ _ _ _ => .refused rfl twin

/-- What the left run refuses may be anything on the right. -/
theorem Beside.stop {x : Expectation} (loose : m = .meaning) :
    Beside m P (unexpected x : Parser α) p' Q := by
  intro env env' σ c c' _ _
  rw [run_unexpected]
  exact .stopped loose

/-! ## The next token -/

theorem Regard.Twin.eq (twin : m.Twin t t') (all : m = .all) (token : t.kind ≠ .eof) : t' = t := by
  obtain ⟨kind, lexeme, span⟩ := twin
  have span := span all token
  obtain ⟨k, l, s⟩ := t
  obtain ⟨k', l', s'⟩ := t'
  cases kind
  cases lexeme
  cases span
  rfl

theorem Regard.Twin.spans (twin : m.Twin t t') (token : t.kind ≠ .eof) :
    m.Same Span.moved t.span t'.span := by
  cases m with
  | all => rw [Same, twin.span rfl token]
  | meaning => rfl

theorem Regard.Twin.place (twin : m.Twin t t') (kind : t.kind = k) (taken : k.isTaken = true) :
    m.Same Span.moved t.span t'.span :=
  twin.spans (kind ▸ (Kind.ne_of_isTaken taken).1)

theorem Regard.Twin.start (twin : m.Twin t t') (kind : t.kind = k) (taken : k.isTaken = true) :
    m.view t.span.start = m.view t'.span.start :=
  congrArg Span.start (twin.place kind taken)

/-- The next tokens are twins, or either is a line break or ends an item in brackets. -/
def Regard.Near (m : Regard) (σ : Setting) (t t' : Token) : Prop :=
  m.Twin t t' ∨ m = .meaning ∧ σ.stack ≠ [] ∧ σ.Soft t.kind ∧ σ.Soft t'.kind

section Tokens

variable {env env' : Token} {us vs : List Token}

theorem Regard.Tokens.nextKind (tokens : m.Tokens env' σ us vs) :
    nextKind vs = nextKind us := by
  induction tokens with
  | nil => rfl
  | final eof =>
    rw [nextKind_cons, if_neg (by rw [eof]; decide), eof]
    rfl
  | token twin plain rest ih => rw [nextKind_cons, nextKind_cons, twin.kind, ih]
  | removed loose line free rest ih => rw [nextKind_cons, if_pos line, ih]
  | added loose line free rest ih => rw [nextKind_cons, if_pos line, ih]

/-- The next tokens are twins unless a line break is next. -/
theorem Regard.Tokens.head (tokens : m.Tokens env' σ us vs) (twin : m.Twin env env')
    (hard : ∀ t ∈ us.head?, t.kind ≠ .newline) (hard' : ∀ t ∈ vs.head?, t.kind ≠ .newline) :
    m.Twin (us.head?.getD env) (vs.head?.getD env') := by
  cases tokens with
  | nil => exact twin
  | final eof twin => exact twin
  | token twin => exact twin
  | removed loose line => exact absurd line (hard _ rfl)
  | added loose line => exact absurd line (hard' _ rfl)

/-- Only what joins has anything behind it. -/
theorem Regard.Tokens.near (tokens : m.Tokens env' σ us vs) (twin : m.Twin env env')
    (apart : m = .all ∨ σ.role ≠ .joins) :
    m.Near σ (us.head?.getD env) (vs.head?.getD env') := by
  have others := tokens.nextKind
  cases tokens with
  | nil => exact .inl twin
  | final eof twin => exact .inl twin
  | token twin => exact .inl twin
  | removed loose line free rest =>
    have parts := free.resolve_left (apart.resolve_left (by rw [loose]; decide))
    rw [← rest.nextKind] at parts
    obtain ⟨u, first, soft⟩ := Setting.Soft.head parts
    rw [first]
    exact .inr ⟨loose, σ.stack_of_parts parts, .inl line, soft⟩
  | added loose line free rest =>
    have parts := free.resolve_left (apart.resolve_left (by rw [loose]; decide))
    rw [rest.nextKind] at parts
    obtain ⟨u, first, soft⟩ := Setting.Soft.head parts
    rw [first]
    exact .inr ⟨loose, σ.stack_of_parts parts, soft, .inl line⟩

/-- Line breaks are skipped on either side.  A sign stands behind an operand then only if it stood
there before. -/
theorem Regard.Tokens.skip (env : Token) (tokens : m.Tokens env' σ us vs) :
    ∃ τ, m.Tokens env' τ (us.dropWhile (·.kind == .newline)) (vs.dropWhile (·.kind == .newline)) ∧
      τ.stack = σ.stack ∧
      (σ.Clear (us.head?.getD env) →
        τ.Clear ((us.dropWhile (·.kind == .newline)).head?.getD env)) ∧
      (m = .all →
        vs.takeWhile (·.kind == .newline) = us.takeWhile (·.kind == .newline)) := by
  have dropped : ∀ (t : Token) (ts : List Token), t.kind = .newline →
      (t :: ts).dropWhile (·.kind == .newline) = ts.dropWhile (·.kind == .newline) :=
    fun t ts line => List.dropWhile_cons_of_pos (by rw [line]; rfl)
  induction tokens with
  | nil => exact ⟨_, .nil, rfl, id, fun _ => rfl⟩
  | @final σ t eof twin =>
    have stays : [t].dropWhile (·.kind == .newline) = [t] :=
      List.dropWhile_cons_of_neg (by rw [eof]; decide)
    refine ⟨σ, ?_, rfl, ?_, fun _ => (List.takeWhile_cons_of_neg (by rw [eof]; decide)).symm⟩
    · rw [stays]
      exact .final eof twin
    · rw [stays]
      exact id
  | @token σ t t' us vs twin plain rest ih =>
    by_cases line : t.kind = .newline
    · obtain ⟨τ, tokens, stack, clear, same⟩ := ih
      rw [dropped t us line, dropped t' vs (twin.kind.trans line)]
      rw [line] at stack clear
      refine ⟨τ, tokens, stack, fun _ => clear (σ.clear_newline _), fun all => ?_⟩
      obtain rfl := twin.eq all (by rw [line]; decide)
      rw [List.takeWhile_cons_of_pos (by rw [line]; rfl),
        List.takeWhile_cons_of_pos (by rw [line]; rfl), same all]
    · have stays : ∀ (u : Token) (ts : List Token), u.kind = t.kind →
          (u :: ts).dropWhile (·.kind == .newline) = u :: ts ∧
            (u :: ts).takeWhile (·.kind == .newline) = [] := by
        intro u ts kind
        have other : ¬ (u.kind == .newline) = true := by simpa [kind] using line
        exact ⟨List.dropWhile_cons_of_neg other, List.takeWhile_cons_of_neg other⟩
      obtain ⟨left, taken⟩ := stays t us rfl
      obtain ⟨right, taken'⟩ := stays t' vs twin.kind
      rw [left, right, taken, taken']
      exact ⟨σ, .token twin plain rest, rfl, id, fun _ => rfl⟩
  | @removed σ t us vs loose line free rest ih =>
    obtain ⟨τ, tokens, stack, clear, -⟩ := ih
    rw [dropped t us line]
    refine ⟨τ, tokens, stack, fun _ => clear ?_, fun all => absurd loose (by rw [all]; decide)⟩
    exact σ.clear_of_free free _
  | @added σ t us vs loose line free rest ih =>
    obtain ⟨τ, tokens, stack, clear, -⟩ := ih
    rw [dropped t vs line]
    exact ⟨τ, tokens, stack, clear, fun all => absurd loose (by rw [all]; decide)⟩

end Tokens

/-! ## Spots -/

/-- Right behind a token.  A line break may stand or be missing there if the token joins. -/
def Regard.after (m : Regard) (τ : Setting) : Spot := fun σ t t' =>
  σ = τ ∧ (m = .all ∨ τ.role ≠ .joins → m.Near τ t t')

/-- In these brackets, before line breaks and an operand or whatever else is no sign. -/
def within (stack : List Bracket) : Spot := fun σ t _ => σ.stack = stack ∧ σ.Clear t

/-- In these brackets, before a token. -/
def Regard.level (m : Regard) (stack : List Bracket) : Spot := fun σ t t' =>
  σ.stack = stack ∧ m.Twin t t'

/-- In these brackets, before a token that starts or ends something. -/
def Regard.fresh (m : Regard) (stack : List Bracket) : Spot := fun σ t t' =>
  σ.stack = stack ∧ m.Twin t t' ∧ σ.Clear t

/-- In these brackets, before an operand or what is in its place. -/
def Regard.start (m : Regard) (stack : List Bracket) : Spot := fun σ t t' =>
  σ.stack = stack ∧ m.Near σ t t' ∧ σ.Clear t

/-- In these brackets, behind an operand that what follows does not bind more tightly. -/
def Regard.past (m : Regard) (stack : List Bracket) (least : Nat) : Spot := fun σ t t' =>
  σ.stack = stack ∧ m.Near σ t t' ∧ leftPower t.kind ≤ least

variable {S₀ : List Bracket} {least : Nat}

theorem leftPower_le (k : Kind) : leftPower k ≤ 70 := by cases k <;> decide

theorem leftPower_soft (soft : σ.Soft k) : leftPower k = 0 := by
  have mem := soft.mem
  revert mem
  cases k <;> decide

/-- Outside of brackets, the next tokens are twins. -/
theorem Regard.Near.twin (near : m.Near σ t t') (outside : m = .meaning → σ.stack = []) :
    m.Twin t t' :=
  near.resolve_right fun soft => soft.2.1 (outside soft.1)

/-- What no line break or end of an item can be is next on both sides or on none. -/
theorem Regard.Near.hard {j : Kind} (near : m.Near σ t t') (hard : ∀ {k}, σ.Soft k → k ≠ j) :
    (t.kind = j → m.Twin t t') ∧ (t'.kind = j → t.kind = j) := by
  rcases near with twin | ⟨-, -, soft, soft'⟩
  · exact ⟨fun _ => twin, fun kind => twin.kind.symm.trans kind⟩
  · exact ⟨fun kind => absurd kind (hard soft), fun kind => absurd kind (hard soft')⟩

theorem Regard.past.twin (here : m.past [] least σ t t') : m.Twin t t' :=
  here.2.1.twin fun _ => here.1

theorem Regard.start.twin (here : m.start [] σ t t') : m.Twin t t' := here.2.1.twin fun _ => here.1

theorem Regard.past.weaken (here : m.past S₀ least σ t t') : m.past S₀ 70 σ t t' :=
  ⟨here.1, here.2.1, leftPower_le _⟩

theorem Regard.past.within (here : m.past S₀ 0 σ t t') : within S₀ σ t t' := by
  refine ⟨here.1, fun _ => ⟨fun sign => ?_, fun sign => ?_⟩⟩
  · have power := here.2.2
    rw [sign] at power
    exact absurd power (by decide)
  · have power := here.2.2
    rw [sign] at power
    exact absurd power (by decide)

theorem Regard.past.start (here : m.past S₀ 0 σ t t') : m.start S₀ σ t t' :=
  ⟨here.1, here.2.1, here.within.2⟩

theorem Regard.start.within (here : m.start S₀ σ t t') : within S₀ σ t t' := ⟨here.1, here.2.2⟩

theorem Regard.start.past (here : m.start S₀ σ t t') : m.past S₀ 70 σ t t' :=
  ⟨here.1, here.2.1, leftPower_le _⟩

theorem Regard.fresh.start (here : m.fresh S₀ σ t t') : m.start S₀ σ t t' :=
  ⟨here.1, .inl here.2.1, here.2.2⟩

theorem Regard.fresh.level (here : m.fresh S₀ σ t t') : m.level S₀ σ t t' := ⟨here.1, here.2.1⟩

section After

variable {τ : Setting}

theorem Regard.after.within (here : m.after τ σ t t') (stack : τ.stack = S₀)
    (role : τ.role ≠ .ends) : within S₀ σ t t' := by
  obtain ⟨rfl, -⟩ := here
  exact ⟨stack, fun ends => absurd ends role⟩

theorem Regard.after.past (here : m.after τ σ t t') (stack : τ.stack = S₀)
    (role : m = .all ∨ τ.role ≠ .joins) : m.past S₀ 70 σ t t' := by
  obtain ⟨rfl, near⟩ := here
  exact ⟨stack, near role, leftPower_le _⟩

theorem Regard.after.start (here : m.after τ σ t t') (stack : τ.stack = S₀)
    (role : m = .all ∨ τ.role ≠ .joins) (role' : τ.role ≠ .ends) : m.start S₀ σ t t' :=
  ⟨(here.past stack role).1, (here.past stack role).2.1, (here.within stack role').2⟩

/-- Behind a token that is the end of an operand. -/
theorem Regard.after.ended (here : m.after ⟨S₀, .ends⟩ σ t t') : m.past S₀ 70 σ t t' :=
  here.past rfl (.inr nofun)

/-- Behind an opening bracket. -/
theorem Regard.after.opened (here : m.after ⟨S₀, .joins⟩ σ t t') : Grammar.within S₀ σ t t' :=
  here.within rfl nofun

/-- Behind a token that neither ends an operand nor joins what is around it. -/
theorem Regard.after.other (here : m.after ⟨S₀, .other⟩ σ t t') : m.start S₀ σ t t' :=
  here.start rfl (.inr nofun) nofun

end After

/-! ## Looking at the next token -/

section Here

variable {yes no : Parser γ} {yes' no' : Parser δ} {x : Expectation}

theorem Beside.peek {q : Token → Parser γ} {q' : Token → Parser δ}
    (hq : Beside m (only σ t t') (q t) (q' t') S) :
    Beside m (only σ t t') (peek >>= q) (peek >>= q') S := by
  rintro env env' σ c c' alike ⟨rfl, rfl, rfl⟩
  rw [run_bind_ok (run_peek env c), run_bind_ok (run_peek env' c')]
  exact hq env env' _ c c' alike ⟨rfl, rfl, rfl⟩

theorem Beside.peekKind {q : Kind → Parser γ} {q' : Kind → Parser δ}
    (hq : Beside m (only σ t t') (q t.kind) (q' t'.kind) S) :
    Beside m (only σ t t') (peekKind >>= q) (peekKind >>= q') S := by
  rintro env env' σ c c' alike ⟨rfl, rfl, rfl⟩
  rw [run_bind_ok (run_peekKind env c), run_bind_ok (run_peekKind env' c')]
  exact hq env env' _ c c' alike ⟨rfl, rfl, rfl⟩

/-- A refusal of the next token. -/
theorem Beside.unexpected (near : m.Near σ t t') :
    Beside m (only σ t t') (unexpected x : Parser α) (unexpected x : Parser β) Q := by
  rintro env env' σ c c' alike ⟨rfl, rfl, rfl⟩
  rw [run_unexpected, run_unexpected]
  rcases near with twin | ⟨loose, -⟩
  · exact .refused rfl twin
  · exact .stopped loose

variable {w : Parser Bool} {f : Kind → Bool}

/-- A question about the next token. -/
theorem Beside.ask (asks : Asks w f) (twin : m.Twin t t')
    (hyes : f t.kind = true → Beside m (only σ t t') yes yes' S)
    (hno : f t.kind = false → Beside m (only σ t t') no no' S) :
    Beside m (only σ t t') (w >>= fun b => if b = true then yes else no)
      (w >>= fun b => if b = true then yes' else no') S := by
  rintro env env' σ c c' alike ⟨rfl, rfl, rfl⟩
  rw [run_bind_ok (asks env c), run_bind_ok (asks env' c'), twin.kind]
  cases answer : f (c.head env).kind with
  | true => exact hyes answer env env' _ c c' alike ⟨rfl, rfl, rfl⟩
  | false => exact hno answer env env' _ c c' alike ⟨rfl, rfl, rfl⟩

/-- A question that has to be answered with yes. -/
theorem Beside.demand {v : α → Parser γ} {v' : β → Parser δ} (asks : Asks w f) (twin : m.Twin t t')
    (hyes : f t.kind = true → Beside m (only σ t t') yes yes' S) :
    Beside m (only σ t t')
      (w >>= fun b => if (!b) = true then Grammar.unexpected x >>= v else yes)
      (w >>= fun b => if (!b) = true then Grammar.unexpected x >>= v' else yes') S := by
  rintro env env' σ c c' alike ⟨rfl, rfl, rfl⟩
  rw [run_bind_ok (asks env c), run_bind_ok (asks env' c'), twin.kind]
  cases answer : f (c.head env).kind with
  | true => exact hyes answer env env' _ c c' alike ⟨rfl, rfl, rfl⟩
  | false =>
    rw [if_pos Bool.not_false, if_pos Bool.not_false, run_bind_error (run_unexpected x env c),
      run_bind_error (run_unexpected x env' c')]
    exact .refused rfl twin

end Here

/-! ## Taking tokens -/

theorem Regard.Alike.near {env env' : Token} {c c' : Cursor} (alike : m.Alike env env' σ c c')
    (apart : m = .all ∨ σ.role ≠ .joins) : m.Near σ (c.head env) (c'.head env') :=
  alike.rest.near alike.twin apart

theorem beside_advance (twin : m.Twin t t') (kind : t.kind = k) (taken : k.isTaken = true) :
    Beside m (only σ t t') advance advance
      (giving (fun a b => a = t ∧ b = t') (m.after (σ.next k))) := by
  rintro env env' _ ⟨last, rest⟩ ⟨last', rest'⟩ ⟨eof, twins, -, -, tokens⟩ ⟨rfl, here, here'⟩
  obtain ⟨token, line⟩ := Kind.ne_of_isTaken taken
  subst kind
  cases tokens with
  | nil =>
    subst here
    exact absurd eof token
  | final isEof =>
    subst here
    exact absurd isEof token
  | @token _ u u' us vs twin' plain tokens =>
    subst here here'
    have same : m = .all → some u' = some u := fun all => congrArg some (twin'.eq all token)
    have alike : m.Alike env env' _ ⟨some u, us⟩ ⟨some u', vs⟩ :=
      ⟨eof, twins, same, nofun, tokens⟩
    exact .both alike ⟨⟨rfl, rfl⟩, rfl, alike.near⟩
  | removed loose isLine =>
    subst here
    exact absurd isLine line
  | added loose isLine =>
    subst here'
    exact absurd (twin.kind.symm.trans isLine) line

/-- The next token is taken. -/
theorem Beside.take {q : Token → Parser γ} {q' : Token → Parser δ} (twin : m.Twin t t')
    (kind : t.kind = k) (taken : k.isTaken = true)
    (hq : Beside m (m.after (σ.next k)) (q t) (q' t') S) :
    Beside m (only σ t t') (advance >>= q) (advance >>= q') S := by
  refine (beside_advance twin kind taken).then ?_
  rintro _ _ ⟨rfl, rfl⟩
  exact hq

/-- The next token is taken and tells nothing. -/
theorem Beside.drop {q : Unit → Parser γ} {q' : Unit → Parser δ} (twin : m.Twin t t')
    (kind : t.kind = k) (taken : k.isTaken = true)
    (hq : Beside m (m.after (σ.next k)) (q ()) (q' ()) S) :
    Beside m (only σ t t') (discard advance >>= q) (discard advance >>= q') S :=
  (beside_advance twin kind taken).discarded.bind fun _ _ => hq.from (·.2)

/-- A magic word stands outside of brackets. -/
theorem Beside.plain (twin : m.Twin t t') (magic : t.kind.isMagic = true)
    (h : (m = .meaning → σ.stack = []) → Beside m (only σ t t') p p' Q) :
    Beside m (only σ t t') p p' Q := by
  rintro env env' σ ⟨last, rest⟩ ⟨last', rest'⟩ alike ⟨rfl, here, here'⟩
  refine h (fun loose => ?_) env env' _ _ _ alike ⟨rfl, here, here'⟩
  have eof := alike.eof
  have noMagic : ∀ j : Kind, j = .eof ∨ j = .newline → j.isMagic = false := by
    rintro j (rfl | rfl) <;> rfl
  subst here here'
  cases alike.rest with
  | nil => exact absurd (magic.symm.trans (noMagic _ (.inl eof))) (by decide)
  | final isEof => exact absurd (magic.symm.trans (noMagic _ (.inl isEof))) (by decide)
  | token twin' plain => exact plain loose magic
  | removed loose isLine => exact absurd (magic.symm.trans (noMagic _ (.inr isLine))) (by decide)
  | added loose isLine =>
    exact absurd (magic.symm.trans (noMagic _ (.inr (twin.kind.symm.trans isLine)))) (by decide)

theorem beside_expect (twin : m.Twin t t') (taken : k.isTaken = true) :
    Beside m (only σ t t') (expect k) (expect k)
      (giving (fun a b => t.kind = k ∧ a = t ∧ b = t') (m.after (σ.next k))) := by
  refine .ask (asks_next k) twin (fun yes => ?_) fun _ => .unexpected (.inl twin)
  have kind : t.kind = k := by simpa using yes
  exact (beside_advance twin kind taken).to fun ⟨same, here⟩ => ⟨⟨kind, same⟩, here⟩

/-- A name is no line break and ends no item. -/
theorem beside_name (near : m.Near σ t t') :
    Beside m (only σ t t') (expect .identifier) (expect .identifier)
      (giving (fun a b => a.kind = .identifier ∧ m.Twin a b) (m.after (σ.next .identifier))) := by
  rcases near with twin | ⟨loose, -, soft, -⟩
  · refine (beside_expect twin rfl).to ?_
    rintro _ _ _ _ _ ⟨⟨kind, rfl, rfl⟩, here⟩
    exact ⟨⟨kind, twin⟩, here⟩
  · have other : t.kind ≠ .identifier := soft.ne (by decide)
    rintro env env' σ c c' alike ⟨rfl, rfl, rfl⟩
    have left : ((expect .identifier).run env).run c =
        .error (.refused ⟨c.head env, .misplaced (.token .identifier)⟩) := by
      rw [expect, run_bind_ok (asks_next .identifier env c), if_neg (by simpa using other),
        run_unexpected]
    rw [left]
    exact .stopped loose

/-! ## Line breaks, annotations and spans -/

theorem head?_dropWhile_line (ts : List Token) :
    ∀ t ∈ (ts.dropWhile (·.kind == .newline)).head?, t.kind ≠ .newline := by
  intro t first line
  have stopped := List.head?_dropWhile_not (·.kind == .newline) ts
  rw [first] at stopped
  simp [line] at stopped

theorem beside_skipNewlines :
    Beside m (only σ t t') skipNewlines skipNewlines
      fun _ _ τ u u' => τ.stack = σ.stack ∧ m.Twin u u' ∧ (σ.Clear t → τ.Clear u) ∧
        (t.kind ≠ .newline → u = t) := by
  rintro env env' σ c c' ⟨eof, twin, last, begun, tokens⟩ ⟨rfl, rfl, rfl⟩
  obtain ⟨τ, skipped, stack, clear, same⟩ := tokens.skip env
  have twins := skipped.head twin (head?_dropWhile_line _) (head?_dropWhile_line _)
  refine .both ⟨eof, twin, fun all => ?_, fun all none => ?_, skipped⟩
    ⟨stack, twins, clear, fun hard => ?_⟩
  · rw [same all, last all]
  · -- Nothing was taken before, so nothing is skipped either.
    obtain ⟨lines, none⟩ := Option.or_eq_none_iff.mp none
    rw [List.getLast?_eq_none_iff] at lines
    have whole := List.takeWhile_append_dropWhile (p := (·.kind == .newline)) (l := c.rest)
    rw [lines, List.nil_append] at whole
    show ((c.rest.dropWhile (·.kind == .newline)).head?.getD env).kind ≠ .eof
    rw [whole]
    exact begun all none
  · obtain ⟨last, rest⟩ := c
    cases rest with
    | nil => rfl
    | cons u us =>
      have line : u.kind ≠ .newline := hard
      have stays : (u :: us).dropWhile (·.kind == .newline) = u :: us :=
        List.dropWhile_cons_of_neg (by simpa using line)
      show ((u :: us).dropWhile (·.kind == .newline)).head?.getD env = u
      rw [stays]
      rfl

/-- Line breaks are skipped before what separates or closes. -/
theorem Beside.skip {q : Unit → Parser γ} {q' : Unit → Parser δ} {S₀ : List Bracket}
    (here : ∀ {σ t t'}, P σ t t' → σ.stack = S₀) (hq : Beside m (m.level S₀) (q ()) (q' ()) S) :
    Beside m P (skipNewlines >>= q) (skipNewlines >>= q') S := by
  refine .here fun σ t t' spot => beside_skipNewlines.bind fun _ _ => hq.from ?_
  rintro τ u u' ⟨stack, twin, -⟩
  exact ⟨stack.trans (here spot), twin⟩

/-- Line breaks are skipped before an operand, or what closes if there is none. -/
theorem Beside.skipClear {q : Unit → Parser γ} {q' : Unit → Parser δ} {S₀ : List Bracket}
    (here : ∀ {σ t t'}, P σ t t' → within S₀ σ t t')
    (hq : Beside m (m.fresh S₀) (q ()) (q' ()) S) :
    Beside m P (skipNewlines >>= q) (skipNewlines >>= q') S := by
  refine .here fun σ t t' spot => beside_skipNewlines.bind fun _ _ => hq.from ?_
  rintro τ u u' ⟨stack, twin, clear, -⟩
  exact ⟨stack.trans (here spot).1, twin, clear (here spot).2⟩

/-- Behind an item, line breaks are skipped before a comma and behind it, or before what closes. -/
theorem Beside.separated {no : Parser γ} {no' : Parser δ} {q : Parser γ} {q' : Parser δ}
    {S₀ : List Bracket} (here : ∀ {σ t t'}, P σ t t' → σ.stack = S₀)
    (hq : Beside m (m.fresh S₀) q q' S) (hno : Beside m (m.level S₀) no no' S) :
    Beside m P
      (do skipNewlines
          if ← next .comma then
            discard advance
            skipNewlines
            q
          else no)
      (do skipNewlines
          if ← next .comma then
            discard advance
            skipNewlines
            q'
          else no') S := by
  refine .skip here (.here fun σ t t' there => ?_)
  refine .ask (asks_next .comma) there.2 (fun yes => ?_) fun _ => hno.at there
  refine .drop there.2 (by simpa using yes) rfl ?_
  exact .skipClear (fun here => here.within there.1 σ.role_next_comma) hq

theorem Cursor.pastType_eq_self (env : Token) {c : Cursor}
    (other : (c.head env).kind ≠ .colon ∨
      ((Cursor.mk c.last c.rest.tail).head env).kind ≠ .identifier) : c.pastType = c := by
  obtain ⟨last, ts⟩ := c
  match ts with
  | [] => rfl
  | [t] => rfl
  | t :: u :: us => exact if_neg fun both => other.elim (absurd both.1) (absurd both.2)

/-- The next token, if it is neither a line break nor the end of input. -/
theorem Regard.Alike.first {env env' : Token} {last last' : Option Token} {us vs : List Token}
    (alike : m.Alike env env' σ ⟨last, us⟩ ⟨last', vs⟩) (kind : (us.head?.getD env).kind = k)
    (kind' : (vs.head?.getD env').kind = k) (taken : k.isTaken = true) :
    ∃ t t' us' vs', us = t :: us' ∧ vs = t' :: vs' ∧ t.kind = k ∧
      m.Alike env env' (σ.next k) ⟨some t, us'⟩ ⟨some t', vs'⟩ := by
  obtain ⟨token, line⟩ := Kind.ne_of_isTaken taken
  obtain ⟨eof, twin, last, begun, tokens⟩ := alike
  dsimp only at tokens
  cases tokens with
  | nil => exact absurd (kind.symm.trans eof) token
  | final isEof => exact absurd (kind.symm.trans isEof) token
  | @token _ t t' us vs twin' plain tokens =>
    obtain rfl : t.kind = k := kind
    exact ⟨t, t', us, vs, rfl, rfl, rfl, eof, twin, fun all => congrArg some (twin'.eq all token),
      nofun, tokens⟩
  | removed loose isLine => exact absurd (kind.symm.trans isLine) line
  | added loose isLine => exact absurd (kind'.symm.trans isLine) line

/-- In brackets other than braces no line break is free before a colon or behind it, so what is an
annotation on one side is one on the other. -/
theorem beside_skipType {S₀ : List Bracket} (brace : S₀.head? ≠ some .brace) :
    Beside m (m.past S₀ 70) skipAnnotation skipAnnotation fun _ _ => m.past S₀ 70 := by
  rintro env env' σ ⟨last, us⟩ ⟨last', vs⟩ alike here
  rw [run_skipType alike.eof, run_skipType (alike.twin.kind.trans alike.eof)]
  obtain ⟨rfl, near, -⟩ := id here
  obtain ⟨twin, colon'⟩ := near.hard (j := .colon) fun soft isColon => brace (isColon ▸ soft).brace
  by_cases colon : (us.head?.getD env).kind = .colon
  · obtain ⟨t, t', us, vs, rfl, rfl, isColon, alike₁⟩ :=
      alike.first colon ((twin colon).kind.trans colon) rfl
    have role : (σ.next .colon).role = .other := if_neg brace
    obtain ⟨twin₁, name'⟩ := (alike₁.near (.inr (by rw [role]; decide))).hard (j := .identifier)
      fun soft => soft.ne (by decide)
    by_cases name : (us.head?.getD env).kind = .identifier
    · obtain ⟨u, u', us, vs, rfl, rfl, isName, alike₂⟩ :=
        alike₁.first name ((twin₁ name).kind.trans name) rfl
      have left : (Cursor.mk last (t :: u :: us)).pastType = ⟨some u, us⟩ :=
        if_pos ⟨isColon, isName⟩
      have right : (Cursor.mk last' (t' :: u' :: vs)).pastType = ⟨some u', vs⟩ :=
        if_pos ⟨(twin colon).kind.trans isColon, (twin₁ name).kind.trans isName⟩
      have role₂ : ((σ.next .colon).next .identifier).role = .ends :=
        if_neg (by rw [role]; decide)
      rw [left, right]
      exact .both alike₂ ⟨rfl, alike₂.near (.inr (by rw [role₂]; decide)), leftPower_le _⟩
    · have left : (Cursor.mk last (t :: us)).pastType = ⟨last, t :: us⟩ :=
        Cursor.pastType_eq_self env (.inr name)
      have right : (Cursor.mk last' (t' :: vs)).pastType = ⟨last', t' :: vs⟩ :=
        Cursor.pastType_eq_self env' (.inr fun isName => name (name' isName))
      rw [left, right]
      exact .both alike here
  · have left : (Cursor.mk last us).pastType = ⟨last, us⟩ :=
      Cursor.pastType_eq_self env (.inl colon)
    have right : (Cursor.mk last' vs).pastType = ⟨last', vs⟩ :=
      Cursor.pastType_eq_self env' (.inl fun isColon => colon (colon' isColon))
    rw [left, right]
    exact .both alike here

/-- A word that neither ends an operand nor joins what is around it is taken. -/
theorem Beside.word {q : Token → Parser γ} {q' : Token → Parser δ} {S₀ : List Bracket}
    (twin : m.Twin t t') (kind : t.kind = k) (lone : k.isLone = true) (stack : σ.stack = S₀)
    (hq : Beside m (m.start S₀) (q t) (q' t') S) :
    Beside m (only σ t t') (advance >>= q) (advance >>= q') S := by
  refine .take twin kind (Kind.isTaken_of_isLone lone) (hq.from fun here => ?_)
  rw [σ.next_lone lone, stack] at here
  exact here.other

theorem Beside.dropWord {q : Unit → Parser γ} {q' : Unit → Parser δ} {S₀ : List Bracket}
    (twin : m.Twin t t') (kind : t.kind = k) (lone : k.isLone = true) (stack : σ.stack = S₀)
    (hq : Beside m (m.start S₀) (q ()) (q' ()) S) :
    Beside m (only σ t t') (discard advance >>= q) (discard advance >>= q') S := by
  refine .drop twin kind (Kind.isTaken_of_isLone lone) (hq.from fun here => ?_)
  rw [σ.next_lone lone, stack] at here
  exact here.other

/-- A word has to stand here. -/
theorem Beside.expectWord {q : Unit → Parser γ} {q' : Unit → Parser δ} {S₀ : List Bracket}
    (twin : m.Twin t t') (lone : k.isLone = true) (stack : σ.stack = S₀)
    (hq : t.kind = k → Beside m (m.start S₀) (q ()) (q' ()) S) :
    Beside m (only σ t t') (discard (expect k) >>= q) (discard (expect k) >>= q') S := by
  refine (beside_expect twin (Kind.isTaken_of_isLone lone)).discarded.bind fun _ _ => .here ?_
  rintro τ u u' ⟨⟨_, _, kind, -⟩, here⟩
  rw [σ.next_lone lone, stack] at here
  exact (hq kind).at here.other

/-- The terminator of a block has to stand here. -/
theorem Beside.close {q : Unit → Parser γ} {q' : Unit → Parser δ} {S₀ : List Bracket}
    (twin : m.Twin t t') (lone : k.isLone = true) (stack : σ.stack = S₀)
    (hq : t.kind ≠ .eof → Beside m (m.start S₀) (q ()) (q' ()) S) :
    Beside m (only σ t t') (expectEnd k >>= q) (expectEnd k >>= q') S := by
  have taken : Beside m (only σ t t') (expectEnd k) (expectEnd k)
      fun _ _ τ u u' => t.kind ≠ .eof ∧ m.start S₀ τ u u' := by
    refine .ask (asks_nextIn _) twin (fun yes => ?_) fun _ => .unexpected (.inl twin)
    have lone : t.kind.isLone = true := by
      have mem : t.kind = k ∨ t.kind = .kwEnd := by simpa using yes
      rcases mem with kind | kind
      · rw [kind, lone]
      · rw [kind]
        rfl
    have taken := Kind.isTaken_of_isLone lone
    refine (beside_advance twin rfl taken).discarded.to fun ⟨_, here⟩ =>
      ⟨(Kind.ne_of_isTaken taken).1, ?_⟩
    rw [σ.next_lone lone, stack] at here
    exact here.other
  exact taken.bind fun _ _ => .here fun _ _ _ ⟨token, here⟩ => (hq token).at here

/-- A closing bracket has to stand here. -/
theorem beside_closing {b : Bracket} {S₀ : List Bracket}
    (closes : k = .rightParen ∨ k = .rightBracket ∨ k = .rightBrace) :
    Beside m (m.level (b :: S₀)) (discard (expect k)) (discard (expect k))
      fun _ _ => m.past S₀ 70 := by
  have taken : k.isTaken = true := by rcases closes with rfl | rfl | rfl <;> rfl
  refine .here fun σ t t' ⟨stack, twin⟩ => ?_
  refine (beside_expect twin taken).discarded.to fun ⟨_, here⟩ => ?_
  obtain ⟨tail, role⟩ := σ.next_closer closes
  exact here.past (by rw [tail, stack]; rfl) (.inr role)

/-- What was read ends alike on either side. -/
theorem beside_spanFrom {s s' : Position} (start : m.view s = m.view s') :
    Beside m P (spanFrom s) (spanFrom s') (giving (m.Same Span.moved) P) := by
  rintro env env' σ ⟨last, us⟩ ⟨last', vs⟩ alike here
  obtain ⟨x, run⟩ := run_spanFrom s env ⟨last, us⟩
  obtain ⟨x', run'⟩ := run_spanFrom s' env' ⟨last', vs⟩
  rw [run, run']
  refine .both alike ⟨?_, here⟩
  cases m with
  | meaning => rfl
  | all =>
    obtain rfl : s = s' := start
    obtain rfl : last = last' := (alike.last rfl).symm
    cases last with
    | some t =>
      cases run
      cases run'
      rfl
    | none =>
      have place : ∀ env us, ((spanFrom s).run env).run ⟨none, us⟩ =
          .ok (⟨s, ((Cursor.mk none us).head env).span.start⟩, ⟨none, us⟩) := by
        intro env us
        cases us <;> rfl
      have twin := (alike.near (.inl rfl)).resolve_right fun soft => absurd soft.1 (by decide)
      have same := twin.span rfl (alike.begun rfl rfl)
      rw [place] at run run'
      cases run
      cases run'
      rw [same]

/-- What is read at the end of input may start anywhere. -/
theorem beside_spanFrom_end {s s' : Position} :
    Beside m P (spanFrom s) (spanFrom s') fun _ _ => P := by
  intro env env' σ c c' alike here
  obtain ⟨x, run⟩ := run_spanFrom s env c
  obtain ⟨x', run'⟩ := run_spanFrom s' env' c'
  rw [run, run']
  exact .both alike here

theorem Beside.span {s s' : Position} {q : Span → Parser γ} {q' : Span → Parser δ}
    (start : m.view s = m.view s')
    (hq : ∀ x x', m.Same Span.moved x x' → Beside m P (q x) (q' x') S) :
    Beside m P (spanFrom s >>= q) (spanFrom s' >>= q') S :=
  (beside_spanFrom start).then hq

end Pseudocode.Grammar
