import Mathlib.Data.List.Chain
import Pseudocode.Proofs.Depth.Marks
import Pseudocode.Proofs.Printing.Shape
/-
# `Proofs.Depth.Passing` — the marks that a parser passes

`Passes P x p f Q`: if the parser `p` succeeds where `P` holds and returns `a`, then `Q a` holds
where it stops, and the marks `x` and those of the tokens it took are the marks `f a`.

An expression opens nothing and closes nothing, and no token of it is an `ELSE`: its parser is
`Plain`.  After an `ELSE` an `IF` opens nothing, so that is the one token before a parser that
it may have to know of.
-/
namespace Pseudocode

/-- A kind that opens nothing, closes nothing, and lets an `IF` open. -/
def Kind.isPlain (k : Kind) : Bool :=
  !k.closesBlock && !Kind.newline.opensBlock k && k != .kwElse && k != .eof

namespace Grammar

/-! ## Where a parser stands -/

/-- Tokens one after the other.  Only line ends reach to the next line, and nothing follows
the end of input. -/
structure Aligned (ts : List Token) : Prop where
  next : ts.IsChain fun t u => t.kind ≠ .eof ∧ t.span.stop.line = u.span.start.line
  level : ∀ t ∈ ts, t.kind ≠ .newline → t.span.start.line = t.span.stop.line

/-- The kind of the token taken last; at the start, as after a line end. -/
def Cursor.before (c : Cursor) : Kind := (c.last.map Token.kind).getD .newline

/-- The marks of the tokens that are left. -/
def Cursor.marks (c : Cursor) : List Mark := marksFrom c.before c.rest

/-- The end of what has just been read. -/
def Cursor.place (c : Cursor) (env : Token) : Position :=
  (c.last.map fun t => t.span.stop).getD (c.head env).span.start

def Cursor.Aligned (c : Cursor) : Prop := Grammar.Aligned (c.last.toList ++ c.rest)

/-- What holds where a parser stands. -/
abbrev Condition : Type := Token → Cursor → Prop

namespace Condition

def always : Condition := fun _ _ => True

/-- No `ELSE` was taken last. -/
def clear : Condition := fun _ c => c.before ≠ .kwElse

/-- An `IF` that is next opens a block. -/
def fresh : Condition := fun env c => c.before = .kwElse → (c.head env).kind ≠ .kwIf

/-- The next token is of a kind. -/
def seeing (I : Condition) (k : Kind) : Condition := fun env c => I env c ∧ (c.head env).kind = k

/-- The condition holds after every token but `ELSE`. -/
def Kept (I : Condition) : Prop := ∀ env c, clear env c → I env c

theorem kept_always : always.Kept := fun _ _ _ => trivial

theorem kept_clear : clear.Kept := fun _ _ h => h

theorem kept_fresh : fresh.Kept := fun _ _ h e => absurd e h

end Condition

open Condition

/-- The parser passes the marks that make `f a` of `x`. -/
def Passes {α : Type} (P : Condition) (x : List Mark) (p : Parser α) (f : α → List Mark)
    (Q : α → Condition) : Prop :=
  ∀ (env : Token) (c : Cursor) (a : α) (c' : Cursor), env.kind = .eof → c.Aligned → P env c →
    (p.run env).run c = .ok (a, c') → c'.Aligned ∧ x ++ c.marks = f a ++ c'.marks ∧ Q a env c'

/-- The parser passes no marks. -/
def Plain {α : Type} (p : Parser α) : Prop :=
  ∀ (I : Condition), I.Kept → ∀ x, Passes I x p (fun _ => x) fun _ => I

/-- The parser passes no marks at a token of a kind. -/
def PlainAt {α : Type} (k : Kind) (p : Parser α) : Prop :=
  ∀ (I : Condition), I.Kept → ∀ x, Passes (I.seeing k) x p (fun _ => x) fun _ => I

variable {α β : Type} {k : Kind} {P P' I : Condition} {x y : List Mark} {p : Parser α}
  {q : α → Parser β} {f : α → List Mark} {g : β → List Mark} {Q : α → Condition}
  {R : β → Condition}

/-! ## Sequences and choices -/

theorem run_discard {env : Token} {c c' : Cursor} {u : Unit}
    (run : ((discard p).run env).run c = .ok (u, c')) : ∃ a, (p.run env).run c = .ok (a, c') := by
  have step : ((discard p).run env).run c = (fun r => ((), r.2)) <$> (p.run env).run c := rfl
  rw [step] at run
  match found : (p.run env).run c with
  | .error e =>
    rw [found] at run
    cases run
  | .ok (a, c₁) =>
    rw [found] at run
    cases run
    exact ⟨a, rfl⟩

namespace Passes

theorem pure {a : α} (same : x = f a) (after : ∀ env c, P env c → Q a env c) :
    Passes P x (pure a) f Q := by
  intro env c a' c' _ aligned here run
  cases run
  exact ⟨aligned, congrArg (· ++ c.marks) same, after env c here⟩

theorem bind (hp : Passes P x p f Q) (hq : ∀ a, Passes (Q a) (f a) (q a) g R) :
    Passes P x (p >>= q) g R := by
  intro env c b c' eof aligned here run
  obtain ⟨a, c₁, first, second⟩ := run_bind run
  obtain ⟨aligned₁, passed, here₁⟩ := hp env c a c₁ eof aligned here first
  obtain ⟨aligned₂, passed', here₂⟩ := hq a env c₁ b c' eof aligned₁ here₁ second
  exact ⟨aligned₂, passed.trans passed', here₂⟩

theorem mono (hp : Passes P x p f Q) (weaker : ∀ env c, P' env c → P env c) :
    Passes P' x p f Q :=
  fun env c a c' eof aligned here run => hp env c a c' eof aligned (weaker env c here) run

theorem post {Q' : α → Condition} (hp : Passes P x p f Q)
    (weaker : ∀ a env c, Q a env c → Q' a env c) : Passes P x p f Q' := by
  intro env c a c' eof aligned here run
  obtain ⟨aligned', passed, after⟩ := hp env c a c' eof aligned here run
  exact ⟨aligned', passed, weaker a env c' after⟩

theorem of_error (h : ∀ env c, ∃ e, (p.run env).run c = .error e) : Passes P x p f Q := by
  intro env c a c' _ _ _ run
  obtain ⟨e, failed⟩ := h env c
  rw [failed] at run
  cases run

theorem exhausted : Passes P x (exhausted : Parser α) f Q := .of_error fun _ _ => ⟨_, rfl⟩

theorem refuse {t : Token} {complaint : Complaint} :
    Passes P x (refuse t complaint : Parser α) f Q := .of_error fun _ _ => ⟨_, rfl⟩

theorem unexpected {e : Expectation} : Passes P x (unexpected e : Parser α) f Q :=
  .of_error fun env c => by
    obtain ⟨last, rest⟩ := c
    cases rest with
    | nil => exact ⟨_, rfl⟩
    | cons t rest => exact ⟨_, rfl⟩

/-- What a parser returns is not used. -/
theorem discarded {y : List Mark} (hp : Passes P x p (fun _ => y) fun _ => I) :
    Passes P x (discard p) (fun _ => y) fun _ => I := by
  intro env c _ c' eof aligned here run
  obtain ⟨a, run⟩ := run_discard run
  exact hp env c a c' eof aligned here run

theorem ite {b : Bool} {p p' : Parser α} (hp : b = true → Passes P x p f Q)
    (hp' : b = false → Passes P x p' f Q) : Passes P x (if b = true then p else p') f Q := by
  cases b with
  | true => exact hp rfl
  | false => exact hp' rfl

/-! ## Looking at tokens -/

/-- The token that is seen is the next one. -/
theorem peek {q : Token → Parser β}
    (hq : ∀ t, Passes (fun env c => P env c ∧ t = c.head env) x (q t) g R) :
    Passes P x (peek >>= q) g R := by
  intro env c b c' eof aligned here run
  obtain ⟨t, c₁, first, second⟩ := run_bind run
  rw [run_peek] at first
  cases first
  exact hq _ env c b c' eof aligned ⟨here, rfl⟩ second

theorem peekKind {q : Kind → Parser β} (hq : ∀ k, Passes (P.seeing k) x (q k) g R) :
    Passes P x (peekKind >>= q) g R := by
  intro env c b c' eof aligned here run
  obtain ⟨k, c₁, first, second⟩ := run_bind run
  obtain ⟨t, c₂, seen, rest⟩ := run_bind first
  rw [run_peek] at seen
  cases seen
  cases rest
  exact hq _ env c b c' eof aligned ⟨here, rfl⟩ second

/-- A question about the next token. -/
theorem next {p p' : Parser β} (hp : Passes (P.seeing k) x p g R)
    (hp' : Passes (fun env c => P env c ∧ (c.head env).kind ≠ k) x p' g R) :
    Passes P x (next k >>= fun b => if b = true then p else p') g R := by
  refine .bind (f := fun _ => x) (Q := fun b env c => P env c ∧ ((c.head env).kind == k) = b)
    ?_ fun b => ?_
  · exact .peekKind fun k' => .pure rfl fun env c here => ⟨here.1, congrArg (· == k) here.2⟩
  · cases b with
    | true => exact hp.mono fun env c here => ⟨here.1, beq_iff_eq.mp here.2⟩
    | false =>
      refine hp'.mono fun env c here => ⟨here.1, fun same => ?_⟩
      rw [beq_iff_eq.mpr same] at here
      cases here.2

theorem nextIn {ks : List Kind} {q : Bool → Parser β}
    (hq : ∀ b, Passes (fun env c => P env c ∧ ks.contains (c.head env).kind = b) x (q b) g R) :
    Passes P x (nextIn ks >>= q) g R := by
  refine .bind (f := fun _ => x) ?_ hq
  exact .peekKind fun k' => .pure rfl fun env c here => ⟨here.1, congrArg ks.contains here.2⟩

/-- A question whether the next token is of one of some kinds. -/
theorem nextOne {ks : List Kind} {p p' : Parser β} (hp : ∀ k ∈ ks, Passes (P.seeing k) x p g R)
    (hp' : Passes P x p' g R) :
    Passes P x (Grammar.nextIn ks >>= fun b => if b = true then p else p') g R := by
  refine .nextIn fun b => ?_
  cases b with
  | true =>
    intro env c a c' eof aligned here run
    exact hp _ (List.contains_iff_mem.mp here.2) env c a c' eof aligned ⟨here.1, rfl⟩ run
  | false => exact hp'.mono fun _ _ here => here.1

/-- What was read ends where the parser stands. -/
theorem stopping {start : Position} : Passes P x (Grammar.spanFrom start) (fun _ => x)
    fun s env c => P env c ∧ s.start = start ∧ s.stop = c.place env := by
  rintro env ⟨last, rest⟩ s c' eof aligned here run
  cases last with
  | some t =>
    cases run
    exact ⟨aligned, rfl, here, rfl, rfl⟩
  | none =>
    cases rest with
    | nil =>
      cases run
      exact ⟨aligned, rfl, here, rfl, rfl⟩
    | cons t rest =>
      cases run
      exact ⟨aligned, rfl, here, rfl, rfl⟩

theorem spanFrom {q : Span → Parser β} {start : Position}
    (hq : ∀ s : Span, s.start = start → Passes P x (q s) g R) :
    Passes P x (Grammar.spanFrom start >>= q) g R := by
  refine stopping.bind fun s => ?_
  intro env c b c' eof aligned here run
  exact hq s here.2.1 env c b c' eof aligned here.1 run

end Passes

/-- A check that stops the parser if it is not passed. -/
theorem Passes.unless {b : Bool} {s : Parser α} {q : α → Parser β} {p' : Parser β}
    (stops : ∀ (Q : α → Condition), Passes P x s (fun _ => x) Q) (hp' : b = true → Passes P x p' g R) :
    Passes P x (if (!b) = true then s >>= q else p') g R := by
  cases b with
  | true => exact hp' rfl
  | false =>
    refine (stops fun _ _ _ => False).bind fun _ => ?_
    exact fun _ _ _ _ _ _ absent => absent.elim

/-- A check that the next token is of a kind. -/
theorem Passes.needs {e : Expectation} {p' : Parser β} {q : α → Parser β}
    (hp : Passes (P.seeing k) x p' g R) :
    Passes P x (Grammar.next k >>= fun b =>
      if (!b) = true then (Grammar.unexpected e : Parser α) >>= q else p') g R := by
  refine .bind (f := fun _ => x) (Q := fun b env c => P env c ∧ ((c.head env).kind == k) = b)
    (.peekKind fun k' => .pure rfl fun env c here => ⟨here.1, congrArg (· == k) here.2⟩) fun b => ?_
  refine .unless (fun _ => .unexpected) fun known => ?_
  subst known
  exact hp.mono fun env c here => ⟨here.1, beq_iff_eq.mp here.2⟩

/-- A check that the next token is of one of some kinds. -/
theorem Passes.needsOne {ks : List Kind} {e : Expectation} {p' : Parser β} {q : α → Parser β}
    (hp : Passes P x p' g R) :
    Passes P x (Grammar.nextIn ks >>= fun b =>
      if (!b) = true then (Grammar.unexpected e : Parser α) >>= q else p') g R :=
  .nextIn fun _ => .unless (fun _ => .unexpected) fun _ => hp.mono fun _ _ here => here.1

/-! ## Taking tokens -/

/-- A token that there is is taken. -/
theorem run_advance_some {env t : Token} {c c' : Cursor} (eof : env.kind = .eof)
    (some : (c.head env).kind ≠ .eof) (run : (advance.run env).run c = .ok (t, c')) :
    ∃ rest, c.rest = t :: rest ∧ c' = ⟨.some t, rest⟩ ∧ t = c.head env := by
  obtain ⟨last, tokens⟩ := c
  cases tokens with
  | nil => exact absurd eof some
  | cons u rest =>
    cases run
    exact ⟨rest, rfl, rfl, rfl⟩

theorem Cursor.Aligned.after {c : Cursor} {t : Token} {rest : List Token} (h : c.Aligned)
    (left : c.rest = t :: rest) : Cursor.Aligned ⟨some t, rest⟩ := by
  have suffix : (t :: rest) <:+ c.last.toList ++ c.rest := by
    rw [left]
    exact List.suffix_append _ _
  exact ⟨h.next.suffix suffix, fun u mem => h.level u (suffix.subset mem)⟩

theorem Cursor.marks_cons {c : Cursor} {t : Token} {rest : List Token} (left : c.rest = t :: rest) :
    c.marks = t.marks c.before ++ Cursor.marks ⟨some t, rest⟩ := by
  rw [marks, left]
  rfl

theorem passes_advance {f : Token → List Mark} {Q : Token → Condition}
    (some : ∀ env c, P env c → (c.head env).kind ≠ .eof)
    (marks : ∀ env c, P env c → x ++ (c.head env).marks c.before = f (c.head env))
    (after : ∀ env c rest, P env c → c.rest = c.head env :: rest →
      Q (c.head env) env ⟨.some (c.head env), rest⟩) :
    Passes P x advance f Q := by
  intro env c t c' eof aligned here run
  obtain ⟨rest, left, rfl, rfl⟩ := run_advance_some eof (some env c here) run
  refine ⟨aligned.after left, ?_, after env c rest here left⟩
  rw [Cursor.marks_cons left, ← List.append_assoc, marks env c here]

theorem marks_of_isPlain {t : Token} (plain : t.kind.isPlain = true) (before : Kind) :
    t.marks before = [] := by
  obtain ⟨k, text, span⟩ := t
  have opens : before.opensBlock k = false := by cases k <;> first | rfl | cases plain
  have closes : k.closesBlock = false := by cases k <;> first | rfl | cases plain
  rw [Token.marks, opens, closes]
  rfl

/-- A token of a plain kind is taken. -/
theorem passes_plain {R : Condition} (plain : k.isPlain = true)
    (here : ∀ env c, P env c → (c.head env).kind = k)
    (after : ∀ env c rest, P env c → c.rest = c.head env :: rest →
      clear env ⟨some (c.head env), rest⟩ → R env ⟨some (c.head env), rest⟩) :
    Passes P x advance (fun _ => x) fun _ => R := by
  refine passes_advance (fun env c at_ eof => ?_) (fun env c at_ => ?_) fun env c rest at_ left => ?_
  · rw [← here env c at_, eof] at plain
    cases plain
  · rw [marks_of_isPlain (here env c at_ ▸ plain), List.append_nil]
  · refine after env c rest at_ left fun isElse => ?_
    change (c.head env).kind = .kwElse at isElse
    rw [← here env c at_, isElse] at plain
    cases plain

theorem plainAt_advance (plain : k.isPlain = true) : PlainAt k advance := fun _ kept _ =>
  passes_plain plain (fun _ _ here => here.2) fun env _ _ _ _ clear => kept env _ clear

/-- A keyword that opens a construct. -/
theorem passes_opening (opens : Kind.newline.opensBlock k = true)
    (if_ : ∀ env c, P env c → (c.head env).kind = k ∧ (k = .kwIf → c.before ≠ .kwElse)) :
    Passes P x advance (fun t => x ++ [Mark.opens k t.span.start]) fun _ => clear := by
  refine passes_advance (fun env c here eof => ?_) (fun env c here => ?_) fun env c rest here left => ?_
  · rw [← (if_ env c here).1, eof] at opens
    cases opens
  · obtain ⟨kind, notElse⟩ := if_ env c here
    have known : c.before.opensBlock k = true := by
      generalize c.before = before at notElse
      cases k <;> first | exact bne_iff_ne.mpr (notElse rfl) | rfl | cases opens
    rw [Token.marks, kind, known]
    rfl
  · change (c.head env).kind ≠ .kwElse
    rw [(if_ env c here).1]
    rintro rfl
    cases opens

/-! ## Parsers that pass no marks -/

namespace Plain

theorem at_ (hp : Plain p) : PlainAt k p :=
  fun I kept x => (hp I kept x).mono fun _ _ here => here.1

theorem pure (a : α) : Plain (Pure.pure a : Parser α) := fun _ _ _ => .pure rfl fun _ _ h => h

theorem bind (hp : Plain p) (hq : ∀ a, Plain (q a)) : Plain (p >>= q) :=
  fun I kept x => (hp I kept x).bind fun a => hq a I kept x

theorem exhausted : Plain (Grammar.exhausted : Parser α) := fun _ _ _ => .exhausted

theorem refuse {t : Token} {complaint : Complaint} : Plain (refuse t complaint : Parser α) :=
  fun _ _ _ => .refuse

theorem unexpected {e : Expectation} : Plain (unexpected e : Parser α) :=
  fun _ _ _ => .unexpected

theorem discarded (hp : Plain p) : Plain (discard p) := fun I kept x => (hp I kept x).discarded

theorem discard {q : Unit → Parser β} (hp : Plain p) (hq : Plain (q ())) :
    Plain (discard p >>= q) := hp.discarded.bind fun _ => hq

theorem ite {b : Bool} {p p' : Parser α} (hp : Plain p) (hp' : Plain p') :
    Plain (if b = true then p else p') := by
  cases b with
  | true => exact hp
  | false => exact hp'

theorem next {p p' : Parser β} (hp : PlainAt k p) (hp' : Plain p') :
    Plain (next k >>= fun b => if b = true then p else p') :=
  fun I kept x => .next (hp I kept x) ((hp' I kept x).mono fun _ _ here => here.1)

theorem nextIn {ks : List Kind} {p p' : Parser β} (hp : ∀ k ∈ ks, PlainAt k p) (hp' : Plain p') :
    Plain (nextIn ks >>= fun b => if b = true then p else p') :=
  fun I kept x => .nextOne (fun k mem => hp k mem I kept x) (hp' I kept x)

theorem peekKind {q : Kind → Parser β} (hq : ∀ k, PlainAt k (q k)) : Plain (peekKind >>= q) :=
  fun I kept x => .peekKind fun k => hq k I kept x

theorem peek {q : Token → Parser β} (hq : ∀ t : Token, PlainAt t.kind (q t)) :
    Plain (peek >>= q) :=
  fun I kept x => .peek fun t => (hq t I kept x).mono fun _ _ here => ⟨here.1, here.2 ▸ rfl⟩

theorem spanFrom {q : Span → Parser β} {start : Position} (hq : ∀ s, Plain (q s)) :
    Plain (spanFrom start >>= q) :=
  fun I kept x => .spanFrom fun s _ => hq s I kept x

end Plain

namespace PlainAt

theorem bind (hp : PlainAt k p) (hq : ∀ a, Plain (q a)) : PlainAt k (p >>= q) :=
  fun I kept x => (hp I kept x).bind fun a => hq a I kept x

theorem discard {q : Unit → Parser β} (hp : PlainAt k p) (hq : Plain (q ())) :
    PlainAt k (discard p >>= q) :=
  fun I kept x => (hp I kept x).discarded.bind fun _ => hq I kept x

/-- The next token is taken. -/
theorem drop {q : Unit → Parser β} (plain : k.isPlain = true) (hq : Plain (q ())) :
    PlainAt k (Functor.discard advance >>= q) := (plainAt_advance plain).discard hq

end PlainAt

theorem passes_expect (plain : k.isPlain = true) : Passes P x (expect k) (fun _ => x) fun _ => clear :=
  .next (passes_plain plain (fun _ _ here => here.2) fun _ _ _ _ _ clear => clear) .unexpected

theorem plain_expect (plain : k.isPlain = true) : Plain (expect k) :=
  fun _ kept _ => (passes_expect plain).post fun _ env c => kept env c

/-- Behind the line breaks that come next. -/
def Cursor.skip (c : Cursor) : Cursor :=
  ⟨(c.rest.takeWhile (·.kind == .newline)).getLast?.or c.last, c.rest.dropWhile (·.kind == .newline)⟩

theorem Cursor.skip_newline {t : Token} (line : t.kind = .newline) (last : Option Token)
    (rest : List Token) : Cursor.skip ⟨last, t :: rest⟩ = Cursor.skip ⟨some t, rest⟩ := by
  have known : (t.kind == .newline) = true := beq_iff_eq.mpr line
  simp only [skip, List.takeWhile_cons, List.dropWhile_cons, known, if_true, List.getLast?_cons]
  cases (rest.takeWhile (·.kind == .newline)).getLast? <;> rfl

theorem Cursor.skip_other {t : Token} (other : t.kind ≠ .newline) (last : Option Token)
    (rest : List Token) : Cursor.skip ⟨last, t :: rest⟩ = ⟨last, t :: rest⟩ := by
  have known : (t.kind == .newline) = false := beq_eq_false_iff_ne.mpr other
  simp only [skip, List.takeWhile_cons, List.dropWhile_cons, known, Bool.false_eq_true, if_false]
  rfl

/-- Line breaks that are skipped are taken one after the other. -/
theorem plain_skipNewlines : Plain skipNewlines := by
  have skips : ∀ (I : Condition), I.Kept → ∀ (env : Token) (rest : List Token) (last : Option Token),
      Cursor.Aligned ⟨last, rest⟩ → I env ⟨last, rest⟩ →
        (Cursor.skip ⟨last, rest⟩).Aligned ∧
          Cursor.marks ⟨last, rest⟩ = (Cursor.skip ⟨last, rest⟩).marks ∧ I env (Cursor.skip ⟨last, rest⟩) := by
    intro I kept env rest
    induction rest with
    | nil => exact fun last aligned here => ⟨aligned, rfl, here⟩
    | cons t rest ih =>
      intro last aligned here
      by_cases line : t.kind = .newline
      · have clear : Condition.clear env ⟨some t, rest⟩ := by
          change t.kind ≠ .kwElse
          rw [line]
          decide
        obtain ⟨aligned', passed, after⟩ := ih (some t) (aligned.after rfl) (kept _ _ clear)
        rw [Cursor.skip_newline line, Cursor.marks_cons rfl, marks_of_isPlain (by rw [line]; rfl)]
        exact ⟨aligned', passed, after⟩
      · rw [Cursor.skip_other line]
        exact ⟨aligned, rfl, here⟩
  intro I kept x env c _ c' _ aligned here run
  cases run
  obtain ⟨aligned', passed, after⟩ := skips I kept env c.rest c.last aligned here
  exact ⟨aligned', congrArg (x ++ ·) passed, after⟩

theorem Plain.skip {q : Unit → Parser β} (hq : Plain (q ())) : Plain (skipNewlines >>= q) :=
  plain_skipNewlines.bind fun _ => hq

/-- The kind of the token after the next one. -/
def Cursor.secondKind (c : Cursor) (env : Token) : Kind := (Cursor.head ⟨c.last, c.rest.tail⟩ env).kind

theorem passes_peekSecondKind :
    Passes P x peekSecondKind (fun _ => x) fun k env c => P env c ∧ c.secondKind env = k := by
  rintro env ⟨last, rest⟩ k c' eof aligned here run
  match rest with
  | [] | [_] | _ :: _ :: _ =>
    cases run
    exact ⟨aligned, rfl, here, rfl⟩

/-- A declared type is a colon and a name. -/
theorem plain_skipAnnotation : Plain skipAnnotation := by
  intro I kept x
  refine .bind (f := fun _ => x) (Q := fun b env c => I env c ∧ ((c.head env).kind == .colon) = b)
    (.peekKind fun k => .pure rfl fun env c here => ⟨here.1, congrArg (· == .colon) here.2⟩) fun b => ?_
  refine passes_peekSecondKind.bind fun k => .ite (fun both => ?_) fun _ =>
    .pure rfl fun env c here => here.1.1
  obtain ⟨rfl, identifier⟩ := Bool.and_eq_true_iff.mp both
  obtain rfl := beq_iff_eq.mp identifier
  have colon : Passes (fun env c => (I env c ∧ ((c.head env).kind == .colon) = true) ∧
      c.secondKind env = .identifier) x advance (fun _ => x) fun _ => I.seeing .identifier :=
    passes_plain (k := .colon) rfl (fun env c here => beq_iff_eq.mp here.1.2)
      fun env c rest here left clear => ⟨kept env _ clear, by
        have second := here.2
        rw [Cursor.secondKind, left] at second
        exact second⟩
  exact colon.discarded.bind fun _ => (plainAt_advance (k := .identifier) rfl I kept x).discarded

theorem Plain.skipType {q : Unit → Parser β} (hq : Plain (q ())) :
    Plain (Bind.bind skipAnnotation q) :=
  plain_skipAnnotation.bind fun _ => hq

/-! ## Expressions -/

/-- Blocks pass their marks, and end where they stop. -/
structure Rules.Pass (r : Rules) : Prop where
  expr : ∀ least, Plain (r.expr least)
  block : ∀ closers x, Passes fresh x (r.block closers) (fun b => x ++ b.marks) fun b env c =>
    b.span.stop = c.place env

section Expressions

variable {r : Rules} (h : r.Pass) {n : Nat}

include h

theorem plain_chain : ∀ n, Plain (chain r n)
  | 0 => .exhausted
  | n + 1 => by
    refine .peek fun t => ?_
    split
    next dot =>
      rw [dot]
      refine .drop rfl ((plain_expect rfl).bind fun name => .spanFrom fun s => ?_)
      exact (plain_chain n).bind fun steps => .pure _
    next bracket =>
      rw [bracket]
      refine .drop rfl (.skip ((h.expr 0).bind fun key => .skip (.discard (plain_expect rfl) ?_)))
      exact .spanFrom fun s => (plain_chain n).bind fun steps => .pure _
    next => exact (Plain.pure _).at_

theorem plain_target : Plain (target r n) :=
  (plain_expect rfl).bind fun _ => (plain_chain h n).bind fun _ => .spanFrom fun _ => .pure _

theorem plain_exprList (closer : Kind) : ∀ n, Plain (exprList r closer n)
  | 0 => .exhausted
  | n + 1 => by
    refine .next (Plain.pure _).at_ ((h.expr 0).bind fun e => .skip (.next ?_ (.pure _)))
    exact .drop rfl (.skip ((plain_exprList closer n).bind fun es => .pure _))

theorem plain_bracketed {closer : Kind} (plain : closer.isPlain = true) : Plain (bracketed r n closer) :=
  .skip ((plain_exprList h closer n).bind fun _ => .discard (plain_expect plain) (.pure _))

theorem plain_entries : ∀ n, Plain (entries r n)
  | 0 => .exhausted
  | n + 1 => by
    refine .next (Plain.pure _).at_ ((h.expr 0).bind fun k => .skip (.discard (plain_expect rfl) ?_))
    refine .skip ((h.expr 0).bind fun v => .skip (.next ?_ (.pure _)))
    exact .drop rfl (.skip ((plain_entries n).bind fun es => .pure _))

theorem plain_moreArguments : ∀ n, Plain (moreArguments r n)
  | 0 => .exhausted
  | n + 1 => .next (.drop rfl ((h.expr 0).bind fun _ => (plain_moreArguments n).bind fun _ => .pure _))
      (.pure _)

theorem plainAt_magic (plain : k.isPlain = true) (word : Magic) : PlainAt k (magic r n word) := by
  have arguments : Plain (arguments r n) := .peekKind fun k => by
    refine (Plain.ite (.pure _) ?_).at_
    exact (h.expr 0).bind fun e => (plain_moreArguments h n).bind fun es => .pure _
  exact (plainAt_advance plain).bind fun t => arguments.bind fun es => .spanFrom fun s => .pure _

theorem plainAt_unary (plain : k.isPlain = true) (op : UnaryOp) : PlainAt k (unary r op) :=
  (plainAt_advance plain).bind fun _ => (h.expr unaryPower).bind fun _ => .spanFrom fun _ => .pure _

theorem plain_operand : Plain (operand r n) := by
  refine .peek fun t => ?_
  split
  all_goals rename_i kind; try rw [kind]
  case h_1 | h_2 =>
    refine .drop rfl ?_
    split
    · exact .pure _
    · exact .refuse
  case h_3 | h_4 | h_5 => exact .drop rfl (.pure _)
  case h_6 => exact ((plain_target h).bind fun v => .pure _).at_
  case h_7 =>
    exact .drop rfl (.skip ((h.expr 0).bind fun e => .skip (.discard (plain_expect rfl) (.pure _))))
  case h_8 | h_9 | h_10 => exact plainAt_unary h rfl _
  case h_11 => exact .drop rfl ((plain_bracketed h rfl).bind fun es => .spanFrom fun s => .pure _)
  case h_12 =>
    refine .drop rfl (.skip ((plain_entries h n).bind fun es => ?_))
    exact .discard (plain_expect rfl) (.spanFrom fun s => .pure _)
  case h_13 | h_14 | h_15 | h_16 | h_17 => exact plainAt_magic h rfl _
  case h_18 => exact Plain.unexpected.at_

theorem plain_extension (left : Expr) : Plain (extension r n left) := by
  have steps : Plain (chain r n >>= indexed left) := (plain_chain h n).bind fun steps => by
    cases left <;> exact .spanFrom fun s => .pure _
  refine .peekKind fun k => ?_
  split
  · exact .drop rfl ((plain_bracketed h rfl).bind fun args => .spanFrom fun s => .pure _)
  · exact steps.at_
  · exact steps.at_
  · split
    next op known =>
      have plain : k.isPlain = true := by cases k <;> first | rfl | cases known
      exact .drop plain (.skip ((h.expr _).bind fun right => .spanFrom fun s => .pure _))
    next => exact (Plain.pure _).at_

theorem plain_extend (least : Nat) : ∀ n left, Plain (extend r least n left)
  | 0, _ => .exhausted
  | n + 1, left => .peekKind fun k => by
    split
    · exact (Plain.pure left).at_
    · exact ((plain_extension h left).bind fun extended => plain_extend least n extended).at_

theorem plain_expr (least : Nat) : Plain (expr r n least) :=
  (plain_operand h).bind fun left => plain_extend h least n left

end Expressions

end Grammar

end Pseudocode
