import Pseudocode.Proofs.Printing.Piece
import Pseudocode.Grammar.Program
/-
# `Proofs.Printing.Reading` — parsers that are sure to succeed

`Reads p ps qs P`: at the pieces `ps`, the parser `p` does not fail, stops at
the pieces `qs` and returns something with the property `P`.  Places play no
part in it, neither those of the tokens nor the one before the first token; so
what is returned is known up to spans at best.

There is one rule for each of the operations that the grammar is written in.
-/
namespace Pseudocode.Grammar

def Cursor.pieces (c : Cursor) : List Piece := c.rest.map Token.piece

/-- At `ps`, the parser succeeds, stops at `qs` and returns something with `P`. -/
def Reads {α : Type} (p : Parser α) (ps qs : List Piece) (P : α → Prop) : Prop :=
  ∀ (env : Token) (c : Cursor), c.pieces = ps →
    ∃ a c', (p.run env).run c = .ok (a, c') ∧ c'.pieces = qs ∧ P a

variable {α β : Type} {q : Piece} {ps qs rs : List Piece} {P : α → Prop} {Q : β → Prop}

/-! ## Sequences and choices -/

theorem Reads.pure {a : α} (h : P a) : Reads (pure a) ps ps P := by
  intro env c hc
  exact ⟨a, c, rfl, hc, h⟩

theorem Reads.bind {p : Parser α} {f : α → Parser β} (hp : Reads p ps qs P)
    (hf : ∀ a, P a → Reads (f a) qs rs Q) : Reads (p >>= f) ps rs Q := by
  intro env c hc
  obtain ⟨a, c', run, hc', ha⟩ := hp env c hc
  obtain ⟨b, c'', run', hc'', hb⟩ := hf a ha env c' hc'
  refine ⟨b, c'', ?_, hc'', hb⟩
  have step : ((p >>= f).run env).run c =
      (p.run env).run c >>= fun r => ((f r.1).run env).run r.2 := rfl
  rw [step, run]
  exact run'

/-- A value at hand, used at once. -/
theorem Reads.given {a : α} {f : α → Parser β} (hf : Reads (f a) ps qs Q) :
    Reads (Pure.pure a >>= f) ps qs Q := by
  refine Reads.bind (Reads.pure rfl) ?_
  rintro _ rfl
  exact hf

theorem Reads.mono {p : Parser α} {R : α → Prop} (hp : Reads p ps qs P) (h : ∀ a, P a → R a) :
    Reads p ps qs R := by
  intro env c hc
  obtain ⟨a, c', run, hc', ha⟩ := hp env c hc
  exact ⟨a, c', run, hc', h a ha⟩

theorem Reads.dropped {p : Parser α} (hp : Reads p ps qs P) :
    Reads (discard p) ps qs fun _ => True := by
  intro env c hc
  obtain ⟨a, c', run, hc', -⟩ := hp env c hc
  refine ⟨(), c', ?_, hc', trivial⟩
  have step : ((discard p).run env).run c = (fun r => ((), r.2)) <$> (p.run env).run c := rfl
  rw [step, run]
  rfl

/-- A parser whose result is not used. -/
theorem Reads.discard {p : Parser α} {f : Unit → Parser β} (hp : Reads p ps qs P)
    (hf : Reads (f ()) qs rs Q) : Reads (discard p >>= f) ps rs Q :=
  hp.dropped.bind fun _ _ => hf

/-! ## Looking ahead -/

theorem Cursor.eq_of_pieces_eq_cons {c : Cursor} (h : c.pieces = q :: qs) :
    ∃ last t rest, c = ⟨last, t :: rest⟩ ∧ t.piece = q ∧ rest.map Token.piece = qs := by
  obtain ⟨last, tokens⟩ := c
  obtain ⟨t, rest, rfl, ht, hrest⟩ := List.map_eq_cons_iff.mp h
  exact ⟨last, t, rest, rfl, ht, hrest⟩

theorem reads_peek : Reads peek (q :: qs) (q :: qs) fun t => t.piece = q := by
  intro env c hc
  obtain ⟨last, t, rest, rfl, ht, -⟩ := c.eq_of_pieces_eq_cons hc
  exact ⟨t, _, rfl, hc, ht⟩

theorem reads_peekKind {k : Kind} (h : q.kind = k) :
    Reads peekKind (q :: qs) (q :: qs) fun k' => k' = k := by
  refine reads_peek.bind ?_
  rintro t rfl
  exact .pure h

theorem reads_next {k : Kind} :
    Reads (next k) (q :: qs) (q :: qs) fun b => b = (q.kind == k) := by
  refine (reads_peekKind rfl).bind ?_
  rintro _ rfl
  exact .pure rfl

/-- The next token is of the kind asked for. -/
theorem Reads.next_then {k : Kind} {p p' : Parser β} (h : q.kind = k)
    (hp : Reads p (q :: qs) rs Q) :
    Reads (next k >>= fun b => if b = true then p else p') (q :: qs) rs Q := by
  refine reads_next.bind ?_
  rintro _ rfl
  rwa [if_pos (beq_iff_eq.mpr h)]

/-- The next token is not of the kind asked for. -/
theorem Reads.next_else {k : Kind} {p p' : Parser β} (h : q.kind ≠ k)
    (hp : Reads p' (q :: qs) rs Q) :
    Reads (next k >>= fun b => if b = true then p else p') (q :: qs) rs Q := by
  refine reads_next.bind ?_
  rintro _ rfl
  rwa [if_neg (mt beq_iff_eq.mp h)]

theorem reads_nextIn {ks : List Kind} :
    Reads (nextIn ks) (q :: qs) (q :: qs) fun b => b = ks.contains q.kind := by
  refine (reads_peekKind rfl).bind ?_
  rintro _ rfl
  exact .pure rfl

theorem Reads.nextIn_then {ks : List Kind} {p p' : Parser β} (h : ks.contains q.kind = true)
    (hp : Reads p (q :: qs) rs Q) :
    Reads (nextIn ks >>= fun b => if b = true then p else p') (q :: qs) rs Q := by
  refine reads_nextIn.bind ?_
  rintro _ rfl
  rwa [if_pos h]

theorem Reads.nextIn_else {ks : List Kind} {p p' : Parser β} (h : ks.contains q.kind = false)
    (hp : Reads p' (q :: qs) rs Q) :
    Reads (nextIn ks >>= fun b => if b = true then p else p') (q :: qs) rs Q := by
  refine reads_nextIn.bind ?_
  rintro _ rfl
  rwa [h, if_neg Bool.false_ne_true]

/-- A check that is passed.  What is done otherwise does not matter. -/
theorem Reads.unless {b : Bool} {p p' : Parser β} (h : b = true) (hp : Reads p' ps qs Q) :
    Reads (if (!b) = true then p else p') ps qs Q := by
  rwa [h, if_neg (by decide)]

/-! ## Taking tokens -/

theorem reads_advance : Reads advance (q :: qs) qs fun t => t.piece = q := by
  intro env c hc
  obtain ⟨last, t, rest, rfl, ht, hrest⟩ := c.eq_of_pieces_eq_cons hc
  exact ⟨t, ⟨some t, rest⟩, rfl, hrest, ht⟩

theorem reads_expect {k : Kind} (h : q.kind = k) :
    Reads (expect k) (q :: qs) qs fun t => t.piece = q :=
  .next_then h reads_advance

theorem reads_expectEnd {k : Kind} (h : q.kind = k) :
    Reads (expectEnd k) (q :: qs) qs fun _ => True := by
  have own : [k, Kind.kwEnd].contains q.kind = true := by simp [h]
  exact .nextIn_then own reads_advance.dropped

theorem reads_skipNewlines :
    Reads skipNewlines ps (ps.dropWhile fun q => q.kind == .newline) fun _ => True := by
  intro env c hc
  refine ⟨(), _, rfl, ?_, trivial⟩
  subst hc
  exact (List.dropWhile_map (f := Token.piece) (p := fun q => q.kind == .newline)).symm

/-- The next piece is no line break. -/
def NoBreak (ps : List Piece) : Prop := ∀ p ∈ ps.head?, p.kind ≠ .newline

theorem noBreak_cons (h : q.kind ≠ .newline) : NoBreak (q :: qs) := by
  intro p hp
  rwa [← Option.some.inj hp]

/-- Within a line there is no line break to skip. -/
theorem Reads.skip {f : Unit → Parser β} (h : NoBreak ps) (hf : Reads (f ()) ps rs Q) :
    Reads (skipNewlines >>= f) ps rs Q := by
  have skip : Reads skipNewlines ps _ _ := reads_skipNewlines
  have same : ps.dropWhile (fun q => q.kind == .newline) = ps := by
    cases ps with
    | nil => rfl
    | cons q qs => exact List.dropWhile_cons_of_neg (by simpa using h q rfl)
  rw [same] at skip
  exact skip.bind fun _ _ => hf

/-- A line break before the next line is skipped. -/
theorem Reads.skipBreak {f : Unit → Parser β} (h : NoBreak ps) (hf : Reads (f ()) ps rs Q) :
    Reads (skipNewlines >>= f) (.newline :: ps) rs Q := by
  have skip : Reads skipNewlines (.newline :: ps) _ _ := reads_skipNewlines
  have same : (Piece.newline :: ps).dropWhile (fun q => q.kind == .newline) = ps := by
    cases ps with
    | nil => rfl
    | cons q qs =>
      rw [List.dropWhile_cons_of_pos (by decide)]
      exact List.dropWhile_cons_of_neg (by simpa using h q rfl)
  rw [same] at skip
  exact skip.bind fun _ _ => hf

/-- No type is declared where there is no colon. -/
theorem Reads.skipType {f : Unit → Parser β} (h : q.kind ≠ .colon)
    (hf : Reads (f ()) (q :: qs) rs Q) : Reads (Bind.bind skipAnnotation f) (q :: qs) rs Q := by
  have second : Reads peekSecondKind (q :: qs) (q :: qs) fun _ => True := by
    intro env c hc
    obtain ⟨last, t, rest, rfl, -⟩ := c.eq_of_pieces_eq_cons hc
    cases rest with
    | nil => exact ⟨_, _, rfl, hc, trivial⟩
    | cons u rest => exact ⟨_, _, rfl, hc, trivial⟩
  have none : Reads skipAnnotation (q :: qs) (q :: qs) fun _ => True := by
    refine reads_next.bind ?_
    rintro _ rfl
    refine second.bind fun k _ => ?_
    have other : (q.kind == Kind.colon && k == Kind.identifier) = false := by simp [h]
    rw [if_neg (by simp [other])]
    exact .pure trivial
  exact none.bind fun _ _ => hf

/-! ## Going back -/

theorem Reads.get {f : Cursor → Parser β} (hf : ∀ c : Cursor, c.pieces = ps → Reads (f c) ps qs Q) :
    Reads (get >>= f) ps qs Q := by
  have here : Reads (MonadState.get : Parser Cursor) ps ps fun c => c.pieces = ps := by
    intro env c hc
    exact ⟨c, c, rfl, hc, hc⟩
  exact here.bind hf

theorem Reads.set {f : PUnit → Parser β} {c : Cursor} (hc : c.pieces = ps)
    (hf : Reads (f ⟨⟩) ps rs Q) : Reads (set c >>= f) qs rs Q := by
  have back : Reads (MonadStateOf.set c : Parser PUnit) qs ps fun _ => True := by
    intro env c' _
    exact ⟨⟨⟩, c, rfl, hc, trivial⟩
  exact back.bind fun _ _ => hf

/-! ## Spans -/

theorem Reads.spanFrom {f : Span → Parser β} {p : Position} (hf : ∀ s, Reads (f s) ps qs Q) :
    Reads (spanFrom p >>= f) ps qs Q := by
  have span : Reads (Grammar.spanFrom p) ps ps fun _ => True := by
    rintro env ⟨last, tokens⟩ hc
    cases last with
    | some t => exact ⟨_, _, rfl, hc, trivial⟩
    | none =>
      cases tokens with
      | nil => exact ⟨_, _, rfl, hc, trivial⟩
      | cons t rest => exact ⟨_, _, rfl, hc, trivial⟩
  exact span.bind fun s _ => hf s

end Pseudocode.Grammar
