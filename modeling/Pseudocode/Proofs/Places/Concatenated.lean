import Pseudocode.Proofs.Places.Listed
/-
# `Proofs.Places.Concatenated` — two texts in a session, and the one text they make up
-/
namespace Pseudocode

open Grammar

/-! ## One text -/

/-- Two programs, one below the other, are a program: the statements of the one and then those
of the other, further down. -/
theorem parse_below {a b file : String} {first second : Block} (accepted : parse a file = .ok first)
    (accepted' : parse b file = .ok second) {f : Position → Position}
    (down : ∀ p : Position, 1 ≤ p.line → f p = (Shift.below a).apply p) :
    ∃ whole, parse (a ++ "\n" ++ b) file = .ok whole ∧
      whole.body = first.body ++ (second.moved f).body := by
  obtain ⟨scanned, read⟩ := parse_eq_ok accepted
  obtain ⟨scanned', read'⟩ := parse_eq_ok accepted'
  obtain ⟨ts, last, p, tokens, eof, inside, joined, failure⟩ := Scan.scan_joined a b file scanned
  have lossless := Scan.lossless_start b file
  have some := Scan.tokens_ne_nil scanned'
  have moved : (Scan.scan b file).tokens.map (Token.moved (Shift.below a).apply) =
      (Scan.scan b file).tokens.map (Token.moved f) := by
    refine List.map_congr_left fun t mem => ?_
    obtain ⟨start, stop⟩ := lossless.placed t mem
    rw [Token.moved, Token.moved, Span.moved, Span.moved, down _ start.inText, down _ stop.inText]
  rw [tokens] at read
  have whole := program_line (f := f) (t := Scan.lineEnd p) eof inside rfl some read
  rw [scanned'] at failure
  rw [parse_of_scan failure, joined, moved]
  rw [read'] at whole
  generalize program (ts ++ _ :: _) = x at whole ⊢
  cases x with
  | error r => cases whole
  | ok found =>
    injection whole with body
    refine ⟨found, rfl, body.trans ?_⟩
    cases second
    rfl

namespace Run

/-- Goes on where something ends normally. -/
def onNormal (next : Eval Flow) : Flow → Eval Flow
  | .normal => next
  | flow => pure flow

/-- Statements after one another. -/
theorem stmts_append (r : Recursor) (load : Span → Expr → String → Eval Unit) (n : Nat)
    (xs ys : List Stmt) :
    stmts r load n (xs ++ ys) = stmts r load n xs >>= onNormal (stmts r load n ys) := by
  induction xs with
  | nil => rfl
  | cons x xs ih =>
    rw [List.cons_append, stmts, stmts, bind_assoc]
    congr 1
    funext flow
    cases flow with
    | normal => exact ih
    | _ => rfl

/-- Runs a text, and tells with which signal it ended, if with one. -/
def flowSource (r : Recursor) (source : String) : Eval Flow := do
  match parse source (← Eval.self).name with
  | .error e => Eval.raise (.source e)
  | .ok program => inText source (r.block program)

variable {r : Recursor} {α β : Type}

theorem inUnit_bind (unit : Nat) (source : String) (x : Eval α) (f : α → Eval β) :
    inUnit unit source (x >>= f) = inUnit unit source x >>= f := by
  simp only [inUnit, bind_assoc]

theorem runSource_eq_flowSource (r : Recursor) (source : String) :
    runSource r source = discard (flowSource r source) := by
  rw [runSource_eq, flowSource, Eval.discard_eq, bind_assoc]
  congr 1
  funext i
  cases parse source i.name with
  | error e => rfl
  | ok program =>
    dsimp only
    rw [inText, inText, Eval.discard_eq, bind_assoc]
    congr 1
    funext unit
    exact inUnit_bind unit source (r.block program) fun _ => pure ()

/-- Where everything is settled, nothing has to be done to enter a text. -/
theorem inUnit_settled {unit : Nat} {source : String} (x : Eval α) {env : Env} {w : World}
    (settled : (w.row env.self.index).Settled)
    (here : (w.row env.self.index).frame.origin = ⟨unit, (w.row env.self.index).name, source⟩) :
    inUnit unit source x env w = x env w := by
  have same : ∀ f : Interpreter → Interpreter, f (w.row env.self.index) = w.row env.self.index →
      w.changing env.self f = w := by
    intro f stays
    have rows : w.interpreters.modify env.self.index f = w.interpreters := by
      apply Array.ext_getElem?
      intro i
      rw [Array.getElem?_modify]
      split
      next self =>
        subst self
        cases found : w.interpreters[env.self.index]? with
        | none => rfl
        | some j =>
          have row : w.row env.self.index = j := by
            rw [World.row, Array.getD_eq_getD_getElem?, found]
            rfl
          rw [row] at stays
          exact congrArg some stays
      next => rfl
    rw [World.changing, rows]
  obtain ⟨scope, pending⟩ := settled
  rw [inUnit, Eval.changeSelf_bind, same, prepare_bind, same, pending]
  · change x env (w.changing env.self _) = _
    rw [same]
    generalize w.row env.self.index = i at scope
    obtain ⟨root, frame, dir, name, importing, pending⟩ := i
    dsimp only at scope
    subst scope
    rfl
  · rw [← pending]
  · rw [← here]

end Run

/-! ## Where the code of the two texts is -/

namespace Renaming

/-- The text of a unit goes on in the second run. -/
def extending (unit : Nat) (whole : String) (numbered : 1 ≤ unit) : Renaming :=
  { identity with
    text := fun u text => if u = unit then whole else text
    text_zero := if_neg (by omega) }

/-- In the second run, a later unit is a part of the text of an earlier one. -/
def joining (unit next : Nat) (a whole : String) (numbered : 1 ≤ unit) (later : unit < next) :
    Renaming where
  unit u := if u < next then u else if u = next then unit else u - 1
  text u text := if u = unit ∨ u = next then whole else text
  shift u := if u = next then .below a else ⟨0, 0⟩
  lists _ _ := false
  mutes := false
  unit_zero := if_pos (by omega)
  text_zero := if_neg (by omega)
  down u := by
    split
    · exact Int.le_add_one (Int.natCast_nonneg _)
    · exact Int.le_refl 0

variable {unit next : Nat} {a whole : String} (numbered : 1 ≤ unit) (later : unit < next)

theorem agree_extending (whole : String) : Agree unit (extending unit whole numbered) identity :=
  ⟨fun _ _ => rfl, fun _ hu => funext fun _ => if_neg (Nat.ne_of_lt hu), fun _ _ => rfl,
    fun _ _ => rfl, rfl⟩

theorem agree_joining (a whole : String) :
    Agree next (joining unit next a whole numbered later) (extending unit whole numbered) where
  unit _ hu := if_pos hu
  text u hu := funext fun _ => by
    have other : u ≠ next := Nat.ne_of_lt hu
    simp only [joining, extending, other, or_false]
  shift _ hu := if_neg (Nat.ne_of_lt hu)
  lists _ _ := rfl
  mutes := rfl

theorem unit_joining (a whole : String) :
    (joining unit next a whole numbered later).unit next = unit := by
  change (if next < next then _ else _) = _
  rw [if_neg (Nat.lt_irrefl _), if_pos rfl]

theorem unit_joining_succ (a whole : String) :
    (joining unit next a whole numbered later).unit (next + 1) = next := by
  change (if next + 1 < next then _ else _) = _
  rw [if_neg (by omega), if_neg (by omega)]
  exact Nat.add_sub_cancel _ _

theorem place_joining (a whole : String) {p : Position} (inText : 1 ≤ p.line) :
    (joining unit next a whole numbered later).place next p = (Shift.below a).apply p := by
  rw [place_of_pos inText]
  exact congrArg (fun d : Shift => d.apply p) (if_pos rfl)

end Renaming

section Likenesses

variable (setup : Setup) (texts : List (String × String)) {unit : Nat} (whole : String)
  (numbered : 1 ≤ unit)

/-- Code that is written in texts, and in one of the units, in a certain one. -/
def Setup.WrittenIn (unit : Nat) (a : String) (o : Origin) (s : Span) : Prop :=
  setup.Written texts o s ∧ (o.unit = unit → o.text = a)

/-- The likeness of a run of a text to the run of a longer text that begins with it. -/
def Likeness.extending (a : String) : Likeness where
  setup := setup
  naming := .extending unit whole numbered
  spans := setup.WrittenIn texts unit a
  strict := False
  heard := True
  same := False
  expectation := .nothing
  home _ _ := True
  fresh := unit + 1
  lined _ _ h := h.1.start.inText
  apart o s o' s' _ _ := by
    simp only [Renaming.extending, Renaming.identity, id, Int.add_zero]
  unit_succ _ _ := rfl
  leaves u hu := ⟨⟨fun _ => if_neg (by omega), rfl⟩, fun _ => rfl⟩
  modules u _ _ tree hu offered parsed _ mem :=
    ⟨⟨.inr offered, tree, parsed, mem⟩, fun same => by change u = unit at same; omega⟩
  unit_same h := h.elim
  leaves_same h := h.elim
  awaits_same := Expectation.nothing_silent

/-- The likeness of the run of a second text to the run of the text that both make up. -/
def Likeness.joining {next : Nat} (later : unit < next) (a : String) : Likeness where
  setup := setup
  naming := .joining unit next a whole numbered later
  spans := setup.WrittenIn texts unit a
  strict := False
  heard := True
  same := False
  expectation := .nothing
  home _ _ := True
  fresh := next + 1
  lined _ _ h := h.1.start.inText
  apart o s o' s' h h' := by
    -- The first text ends before the second one begins.
    have inside : ∀ {o s}, setup.WrittenIn texts unit a o s →
        0 ≤ s.start.offset ∧ (o.unit = unit → s.start.offset ≤ a.utf8ByteSize) := fun h =>
      ⟨h.1.start.offset_nonneg, fun here => h.2 here ▸ h.1.start.offset_le⟩
    have bytes : ∀ u, ((Renaming.joining unit next a whole numbered later).shift u).bytes =
        if u = next then (a.utf8ByteSize : Int) + 1 else 0 := by
      intro u
      change (if u = next then Shift.below a else ⟨0, 0⟩ : Shift).bytes = _
      split <;> rfl
    obtain ⟨above, before⟩ := inside h
    obtain ⟨above', before'⟩ := inside h'
    rw [bytes, bytes]
    change (if o.unit < next then o.unit else if o.unit = next then unit else o.unit - 1) =
        (if o'.unit < next then o'.unit else if o'.unit = next then unit else o'.unit - 1) ∧ _ ↔ _
    generalize o.unit = u at before ⊢
    generalize o'.unit = u' at before' ⊢
    split_ifs <;> omega
  unit_succ u hu := by
    change (if u + 1 < next then _ else _) = (if u < next then _ else _) + 1
    rw [if_neg (by omega), if_neg (by omega), if_neg (by omega), if_neg (by omega)]
    omega
  leaves u hu := ⟨⟨fun _ => if_neg (by omega), if_neg (by omega)⟩, fun _ => rfl⟩
  modules u _ _ tree hu offered parsed _ mem :=
    ⟨⟨.inr offered, tree, parsed, mem⟩, fun same => by change u = unit at same; omega⟩
  unit_same h := h.elim
  leaves_same h := h.elim
  awaits_same := Expectation.nothing_silent

end Likenesses

/-! ## Faults without their places -/

/-- A diagnostic without its place and the line of text there. -/
def Diagnostic.bare (d : Diagnostic) : Diagnostic := { d with span := .nowhere, source := "" }

/-- A fault without the places of its diagnostics, and the lines of text there. -/
def Fault.bare : Fault → Fault
  | .runtime d none => .runtime d.bare none
  | .runtime d (some cause) => .runtime d.bare (some cause.bare)
  | .moduleNotFound d name searched => .moduleNotFound d.bare name searched
  | f => f

def Failure.bare : Failure → Failure
  | .fault f => .fault f.bare
  | .outOfFuel => .outOfFuel

theorem Likeness.Like.bare {ℓ : Likeness} {m : Marks} {d d' : Diagnostic} (h : ℓ.Like m d d') :
    d'.bare = d.bare := by
  cases h <;> rfl

theorem Likeness.Alike.bare {ℓ : Likeness} {m : Marks} {f f' : Fault} (h : ℓ.Alike m f f') :
    f'.bare = f.bare := by
  induction h with
  | runtime like => rw [Fault.bare, Fault.bare, like.bare]
  | caused like _ ih => rw [Fault.bare, Fault.bare, like.bare, ih]
  | missing name searched like => rw [Fault.bare, Fault.bare, like.bare]
  | _ => rfl

/-! ## Two texts and one -/

namespace Run

theorem flowSource_ok {r : Recursor} {env : Env} {w : World} {source : String} {tree : Block}
    (parsed : parse source (w.row env.self.index).name = .ok tree) :
    flowSource r source env w =
      inUnit w.nextUnit source (r.block tree) env { w with nextUnit := w.nextUnit + 1 } := by
  have self : Eval.self env w = .ok (w.row env.self.index) w := rfl
  rw [flowSource, Eval.bind_ok self, parsed]
  rfl

/-- A block is what the two parts of its body are, the second one if the first one ends
normally. -/
theorem block_append {n : Nat} {whole first second : Block}
    (body : whole.body = first.body ++ second.body) :
    (run (n + 1)).block whole =
      (run (n + 1)).block first >>= onNormal ((run (n + 1)).block second) := by
  change stmts (run n) (load (run n)) n whole.body = _
  rw [body]
  exact stmts_append (run n) (load (run n)) n first.body second.body

end Run

namespace Session

/-- The machine, stopped when code is written into a token. -/
noncomputable def heeded (n : Nat) : Recursor := Run.overseen (fun _ => Occasion.heedCode) n .outset

variable {s : Session} {texts : List (String × String)} {a b : String} {first second : Block}

/-- A block is executed in a unit as it is where the unit is found. -/
theorem mirrors_heeded {ℓ : Likeness} {S : Stand ℓ} (outset : S.course = .outset) (heard : ℓ.heard)
    (lax : ¬ ℓ.strict) (unlisted : ∀ u s, ℓ.naming.lists u s = false) {n : Nat} {o : Origin}
    {tree : Block} (reads : (S.within o).Reads tree.spans) (w : World) :
    Mirrors (S.within o) w True ((heeded n).block tree)
      ((Run.run n).block (ℓ.naming.block o.unit tree)) := by
  have mirroring := mirroring_overseen (Likeness.oversees_heedCode heard lax unlisted) (n := n)
    (.inl ⟨rfl, unlisted⟩) S
  rw [outset] at mirroring
  exact mirroring.block S.self o w tree reads

theorem Ran.numbered (ran : s.Ran texts) : 1 ≤ s.world.nextUnit := by
  have ready := ran.ready False False .nothing
  exact Nat.le_trans ready.numbered ready.units

/-- The likeness of the run of a text in a session to that of a longer one. -/
def Ran.extending (ran : s.Ran texts) (whole a : String) (more : List (String × String)) : Likeness :=
  .extending s.setup (((s.world.row main.index).name, a) :: more ++ texts) whole ran.numbered a

/-- The first text is entered alike in the session and in the text that both make up. -/
theorem entered_first (ran : s.Ran texts) (n : Nat) (whole : String) (more : List (String × String))
    (parsed : parse a (s.world.row main.index).name = .ok first) :
    ∃ w₀, (Stand.main (ran.extending whole a more) (s.world.row main.index).frame.origin).Entered
      ⟨s.world.nextUnit, (s.world.row main.index).name, a⟩
      { s.world with nextUnit := s.world.nextUnit + 1 } w₀ True
      (Run.flowSource (heeded n) a ⟨s.setup, main⟩ s.world)
      (Run.inUnit s.world.nextUnit whole ((Run.run n).block first) ⟨s.setup, main⟩
        { s.world with nextUnit := s.world.nextUnit + 1 }) := by
  let ℓ := ran.extending whole a more
  let o : Origin := ⟨s.world.nextUnit, (s.world.row main.index).name, a⟩
  let S : Stand ℓ := .main ℓ (s.world.row main.index).frame.origin
  let w := { s.world with nextUnit := s.world.nextUnit + 1 }
  have plain := ran.ready False True .nothing
  have ready : S.Ready w := plain.advance (Nat.le_succ _) rfl (Nat.le_refl _)
    (fun o s _ known written => ⟨written.mono (List.subset_append_right _ _),
      fun same => absurd same (Nat.ne_of_lt known)⟩) fun _ _ h => h
  have world : ℓ.naming.world w = w := by
    have same := plain.world_congr rfl (Renaming.agree_extending ran.numbered whole)
    rw [Renaming.world_identity] at same
    change { ℓ.naming.world s.world with nextUnit := s.world.nextUnit + 1 } = w
    exact congrArg (fun w : World => { w with nextUnit := s.world.nextUnit + 1 }) same
  have block : ℓ.naming.block o.unit first = first := (Renaming.leaves_muting false o.unit).block first
  have text : ℓ.naming.text o.unit a = whole := if_pos rfl
  have body : ∀ w', Mirrors (S.within o) w' True ((heeded n).block first)
      ((Run.run n).block (ℓ.naming.block o.unit first)) := mirrors_heeded rfl trivial id (fun _ _ => rfl)
    fun span mem => ⟨⟨⟨.inl List.mem_cons_self, first, parsed, mem⟩, fun _ => rfl⟩, ran.numbered⟩
  rw [block] at body
  obtain ⟨w₀, entered⟩ := entered_inUnit ready (Nat.lt_succ_self s.world.nextUnit) a fun w' _ => body w'
  rw [world, text] at entered
  rw [Run.flowSource_ok parsed]
  exact ⟨w₀, entered⟩

/-- What there is when the first text was run to its end, in a session and as the first part
of a longer text. -/
structure Ran.Begun (ran : s.Ran texts) (n : Nat) (whole a : String) (first : Block)
    (more : List (String × String)) (w₁ : World) : Prop where
  later : s.world.nextUnit < w₁.nextUnit
  ready : ((Stand.main (ran.extending whole a more) (s.world.row main.index).frame.origin).within
    ⟨s.world.nextUnit, (s.world.row main.index).name, a⟩).Ready w₁
  settled : (w₁.row main.index).Settled
  name : (w₁.row main.index).name = (s.world.row main.index).name
  runs : Run.inUnit s.world.nextUnit whole ((Run.run n).block first) ⟨s.setup, main⟩
    { s.world with nextUnit := s.world.nextUnit + 1 } =
      .ok .normal ((ran.extending whole a more).naming.world w₁)

theorem begun_first (ran : s.Ran texts) {n : Nat} (whole : String) (more : List (String × String))
    (parsed : parse a (s.world.row main.index).name = .ok first) {w₁ : World}
    (ends : Run.flowSource (heeded n) a ⟨s.setup, main⟩ s.world = .ok .normal w₁) :
    ran.Begun n whole a first more w₁ := by
  obtain ⟨w₀, led, ready₀, settled, ended⟩ := entered_first ran n whole more parsed
  rw [ends] at ended settled
  generalize runs : Run.inUnit s.world.nextUnit whole ((Run.run n).block first) ⟨s.setup, main⟩ _ = k
    at ended
  cases ended with
  | ok ready steps =>
    obtain ⟨settled, name⟩ := settled _ _ rfl
    have row : w₁.row main.index = w₀.row main.index := steps.row ready₀.self.2
    exact ⟨Nat.le_trans led.units steps.units, ready, row ▸ settled, row ▸ name, runs⟩

/-- Where the first part of the longer text ends, that text is entered already. -/
theorem Ran.Begun.inUnit_whole {ran : s.Ran texts} {n : Nat} {whole : String}
    {more : List (String × String)} {w₁ : World} (begun : ran.Begun n whole a first more w₁)
    {α : Type} (x : Eval α) :
    Run.inUnit s.world.nextUnit whole x ⟨s.setup, main⟩
        ((ran.extending whole a more).naming.world w₁) =
      x ⟨s.setup, main⟩ ((ran.extending whole a more).naming.world w₁) := by
  let ℓ := ran.extending whole a more
  let o : Origin := ⟨s.world.nextUnit, (s.world.row main.index).name, a⟩
  have row : (ℓ.naming.world w₁).row main.index = ℓ.naming.interpreter (w₁.row main.index) :=
    Renaming.row_world w₁ main.index
  have here : (w₁.row main.index).frame.origin = o := begun.ready.here
  have longer : ℓ.naming.origin o = ⟨s.world.nextUnit, o.name, whole⟩ :=
    congrArg (Origin.mk _ _) (if_pos rfl)
  have settled : ((ℓ.naming.world w₁).row main.index).Settled := by
    rw [row]
    exact ⟨begun.settled.scope, begun.settled.pending⟩
  refine Run.inUnit_settled x settled ?_
  change ((ℓ.naming.world w₁).row main.index).frame.origin =
    ⟨_, ((ℓ.naming.world w₁).row main.index).name, _⟩
  rw [row]
  change ℓ.naming.origin (w₁.row main.index).frame.origin = ⟨_, (w₁.row main.index).name, _⟩
  rw [here, longer, begun.name]

/-- The second text is run alike in the session and as the second part of the text that both
make up. -/
theorem Ran.Begun.ends_second {ran : s.Ran texts} {n : Nat} {whole : String}
    {more : List (String × String)} {w₁ : World} (begun : ran.Begun n whole a first more w₁)
    (mem : ((s.world.row main.index).name, b) ∈ more)
    (parsed : parse b (s.world.row main.index).name = .ok second) :
    let σ := Renaming.joining _ _ a whole ran.numbered begun.later
    ∃ (S : Stand (.joining s.setup (((s.world.row main.index).name, a) :: more ++ texts) whole
        ran.numbered begun.later a)) (w₂ : World),
      Ends S w₂ True (Run.flowSource (heeded n) b ⟨s.setup, main⟩ w₁)
        ((Run.run n).block (second.moved (σ.place w₁.nextUnit)) ⟨s.setup, main⟩
          ((ran.extending whole a more).naming.world w₁)) := by
  intro σ
  let ℓ₁ := ran.extending whole a more
  let ℓ : Likeness := .joining s.setup (((s.world.row main.index).name, a) :: more ++ texts) whole
    ran.numbered begun.later a
  let first : Origin := ⟨s.world.nextUnit, (s.world.row main.index).name, a⟩
  let o : Origin := ⟨w₁.nextUnit, (w₁.row main.index).name, b⟩
  let S : Stand ℓ := ((Stand.main ℓ₁ (s.world.row main.index).frame.origin).within first).of ℓ
  let w := { w₁ with nextUnit := w₁.nextUnit + 1 }
  have ready : S.Ready w := begun.ready.advance (Nat.le_succ _) rfl (Nat.le_refl _)
    (fun _ _ _ _ written => written) fun _ _ h => h
  -- Where the first text ends, the second one begins.
  have unit : ℓ.naming.unit w₁.nextUnit = s.world.nextUnit :=
    Renaming.unit_joining ran.numbered begun.later a whole
  have text : ∀ t, ℓ.naming.text w₁.nextUnit t = whole := fun _ => if_pos (.inr rfl)
  have world : ℓ.naming.world w = ℓ₁.naming.world w₁ := by
    have same := begun.ready.world_congr rfl
      (Renaming.agree_joining ran.numbered begun.later a whole)
    change { σ.world w₁ with nextUnit := σ.unit (w₁.nextUnit + 1) } = _
    rw [Renaming.unit_joining_succ]
    exact congrArg (fun w : World => { w with nextUnit := w₁.nextUnit }) same
  have block : ℓ.naming.block o.unit second = second.moved (σ.place w₁.nextUnit) :=
    congrArg (Block.moved (σ.place w₁.nextUnit)) (second.listed_unchosen fun _ => rfl)
  have named : parse b (w₁.row main.index).name = .ok second := begun.name.symm ▸ parsed
  have body : ∀ w', Mirrors (S.within o) w' True ((heeded n).block second)
      ((Run.run n).block (ℓ.naming.block o.unit second)) := by
    refine mirrors_heeded rfl trivial id (fun _ _ => rfl) fun span here => ?_
    refine ⟨⟨⟨.inl ?_, second, named, here⟩, fun same => ?_⟩, ?_⟩
    · change ((w₁.row main.index).name, b) ∈ _
      rw [begun.name]
      exact List.mem_cons_of_mem _ (List.mem_append_left _ mem)
    · exact absurd same (Nat.ne_of_gt begun.later)
    · exact Nat.le_trans ran.numbered (Nat.le_of_lt begun.later)
  rw [block] at body
  obtain ⟨w₀, entered⟩ := entered_inUnit ready (Nat.lt_succ_self w₁.nextUnit) b fun w' _ => body w'
  have ends := entered.ends
  rw [unit, text, world] at ends
  have already := begun.inUnit_whole ((Run.run n).block (second.moved (σ.place w₁.nextUnit)))
  change Ends _ _ _ _ (Run.inUnit s.world.nextUnit whole _ ⟨s.setup, main⟩ (ℓ₁.naming.world w₁)) at ends
  rw [already] at ends
  rw [Run.flowSource_ok named]
  exact ⟨_, w₀, ends⟩

/-- The text that both make up is run as the first one, and then goes on with the second. -/
theorem Ran.Begun.flowSource_whole {ran : s.Ran texts} {n : Nat} {whole : String}
    {more : List (String × String)} {w₁ : World} (begun : ran.Begun n whole a first more w₁)
    (runs : n ≠ 0) {tree : Block} (parsed : parse whole (s.world.row main.index).name = .ok tree)
    (body : tree.body = first.body ++ second.body) :
    Run.flowSource (Run.run n) whole ⟨s.setup, main⟩ s.world =
      (Run.run n).block second ⟨s.setup, main⟩ ((ran.extending whole a more).naming.world w₁) := by
  obtain ⟨k, rfl⟩ := Nat.exists_eq_succ_of_ne_zero runs
  rw [Run.flowSource_ok parsed, Run.block_append body, Run.inUnit_bind, Eval.bind_ok begun.runs]
  rfl

/-- Does the text come to its end in the session, and without a signal? -/
def completes (s : Session) (source : String) : Bool :=
  match (s.perform (Run.flowSource machine source)).1 with
  | .ok .normal => true
  | _ => false

theorem completes_iff {source : String} : s.completes source = true ↔
    ∃ w, Run.flowSource machine source ⟨s.setup, main⟩ s.world = .ok .normal w := by
  rw [completes, perform]
  generalize Run.flowSource machine source ⟨s.setup, main⟩ s.world = x
  cases x with
  | ok flow w => cases flow <;> simp
  | error e w => simp

theorem answer_run (s : Session) (r : Recursor) (source : String) : s.answer r (.run source) =
    ((s.perform (Run.flowSource r source)).1.map fun _ => (), (s.perform (Run.flowSource r source)).2) := by
  have action : Request.action r (.run source) = discard (Run.flowSource r source) :=
    Run.runSource_eq_flowSource r source
  rw [answer, action, perform, perform, Eval.discard_eq]
  cases ran : Run.flowSource r source ⟨s.setup, main⟩ s.world with
  | ok flow w => rw [Eval.bind_ok ran]; rfl
  | error e w => rw [Eval.bind_error ran]; rfl

/-- A text that comes to its end does so with an overseer, if it is not stopped. -/
theorem completes_heeded (ran : s.Ran texts) (parsed : parse a (s.world.row main.index).name = .ok first)
    (calm : (s.answer (heeded bound) (.run a)).1 ≠ .error .outOfFuel) {w₁ : World}
    (complete : Run.flowSource machine a ⟨s.setup, main⟩ s.world = .ok .normal w₁) :
    Run.flowSource (heeded bound) a ⟨s.setup, main⟩ s.world = .ok .normal w₁ := by
  let ℓ : Likeness := .plain s.setup (((s.world.row main.index).name, a) :: texts) False True .nothing
  let S : Stand ℓ := s.stand _ False True .nothing
  let o : Origin := ⟨s.world.nextUnit, (s.world.row main.index).name, a⟩
  have plain := ran.ready False True .nothing
  have ready : S.Ready s.world := plain.transfer rfl (Nat.zero_le _)
    (fun _ _ _ _ => .mono (List.subset_cons_self _ _)) fun _ _ h => h
  have block : ℓ.naming.block o.unit first = first := (Renaming.leaves_muting false o.unit).block first
  have body : ∀ w', Mirrors (S.within o) w' True ((heeded bound).block first)
      ((Run.run bound).block (ℓ.naming.block o.unit first)) := mirrors_heeded rfl trivial id
    (fun _ _ => rfl) fun span mem => ⟨⟨.inl List.mem_cons_self, first, parsed, mem⟩, ran.numbered⟩
  rw [block] at body
  have world : ∀ w, ℓ.naming.world w = w := Renaming.world_identity
  have once : ∀ r : Recursor, Run.flowSource r a ⟨s.setup, main⟩ s.world =
      Run.inText a (r.block first) ⟨s.setup, main⟩ s.world := fun r => by
    rw [Run.flowSource_ok parsed, Run.inText_eq]
  obtain ⟨w₀, entered⟩ := entered_inText ready a fun w' _ => body w'
  have ends := entered.ends
  change Ends _ _ _ (Run.inText a ((heeded bound).block first) ⟨s.setup, main⟩ s.world)
    (Run.inText a (machine.block first) ⟨s.setup, main⟩ (ℓ.naming.world s.world)) at ends
  rw [world, ← once, ← once, complete] at ends
  rw [answer_run, perform] at calm
  generalize Run.flowSource (heeded bound) a ⟨s.setup, main⟩ s.world = l at ends calm ⊢
  generalize same : EStateM.Result.ok Flow.normal w₁ = k at ends
  cases ends with
  | @ok flow w' =>
    injection same with normal
    rw [world]
    cases flow <;> first | rfl | cases normal
  | fault => cases same
  | stopped => exact absurd rfl calm

/-- How a request is answered that ends alike in two sessions, but for where it did. -/
theorem perform_alike {t : Session} {ℓ : Likeness} {S : Stand ℓ} {x y : Eval Flow} {p : Prop} {w : World}
    (builtins : t.builtins = s.builtins)
    (ends : Ends S w p (x ⟨s.setup, main⟩ s.world) (y ⟨t.setup, main⟩ t.world))
    (calm : (s.perform x).1.map (fun _ => ()) ≠ .error .outOfFuel) :
    ((t.perform y).1.map fun _ => ()).mapError Failure.bare =
      ((s.perform x).1.map fun _ => ()).mapError Failure.bare ∧ (s.perform x).2.Agree (t.perform y).2 := by
  rw [perform] at calm ⊢
  rw [perform]
  generalize x ⟨s.setup, main⟩ s.world = l at ends calm ⊢
  generalize y ⟨t.setup, main⟩ t.world = k at ends ⊢
  cases ends with
  | ok => exact ⟨rfl, agree_renamed rfl builtins⟩
  | fault _ _ alike => exact ⟨congrArg (Except.error <| Failure.fault ·) alike.bare, agree_renamed rfl builtins⟩
  | stopped => exact absurd rfl calm

end Session

open Session in
/-- Two texts are run in a session, one after the other, and the one text that both make up is
run instead.  Unless code is written into a token, the answer is the same, but for places and
lines of text, and so are the output, the bindings, the input that is left and the random
numbers; given that the first text comes to its end, and without a signal. -/
theorem texts_run_as_one {texts : List (String × String)} {s : Session} (ran : s.Ran texts)
    {a b : String} {first second : Block}
    (accepted : parse a (s.world.row main.index).name = .ok first)
    (accepted' : parse b (s.world.row main.index).name = .ok second)
    (complete : s.completes a = true)
    (calm : (s.answer (heeded bound) (.run a)).1 ≠ .error .outOfFuel)
    (calm' : ((s.answer machine (.run a)).2.answer (heeded bound) (.run b)).1 ≠ .error .outOfFuel) :
    let two := (s.answer machine (.run a)).2.answer machine (.run b)
    let one := s.answer machine (.run (a ++ "\n" ++ b))
    one.1.mapError Failure.bare = two.1.mapError Failure.bare ∧ two.2.Agree one.2 := by
  intro two one
  obtain ⟨w₁, complete⟩ := completes_iff.mp complete
  let s₁ : Session := { s with world := w₁ }
  have answered : s.answer machine (.run a) = (.ok (), s₁) := by
    rw [answer_run, perform, complete]
    rfl
  have ran₁ : s₁.Ran (((Request.run a).text? s).toList ++ texts) := by
    have after := Ran.answer (.run a) ran (.of_run a) (by rw [answered]; exact fun h => by cases h)
    rwa [answered] at after
  have oversees := Likeness.oversees_heedCode
    (ℓ := .plain s₁.setup (((Request.run b).text? s₁).toList ++
      (((Request.run a).text? s).toList ++ texts)) False True .nothing) trivial id fun _ _ => rfl
  rw [answered] at calm'
  have same : s₁.answer (heeded bound) (.run b) = two := by
    change _ = (s.answer machine (.run a)).2.answer machine (.run b)
    rw [answered]
    exact ran₁.answer_eq (.of_run b) oversees calm'
  let more := [((s.world.row main.index).name, b)]
  have begun := begun_first ran (a ++ "\n" ++ b) more accepted (completes_heeded ran accepted calm complete)
  obtain ⟨S, w₂, ends⟩ := begun.ends_second (List.mem_singleton_self _) accepted'
  obtain ⟨tree, parsed, body⟩ := parse_below accepted accepted'
    fun p hp => Renaming.place_joining ran.numbered begun.later a (a ++ "\n" ++ b) hp
  have whole := begun.flowSource_whole (by decide) parsed body
  rw [← whole] at ends
  rw [answer_run] at calm'
  have alike := perform_alike (s := s₁) (t := s) (x := Run.flowSource (heeded bound) b)
    (y := Run.flowSource machine (a ++ "\n" ++ b)) rfl ends calm'
  have one_eq : one = _ := answer_run s machine _
  rw [one_eq, ← same, answer_run]
  exact alike

open Session in
/-- A function is defined in the first text, and fails when it is called in the second one. -/
theorem texts_run_as_one_called :
    let o : Options := { (default : Options) with setup := { (default : Setup) with maxDepth := 1000 } }
    let a := "SUBROUTINE f(x)\n  OUTPUT x\n  RETURN x[0]\nENDSUBROUTINE"
    let b := "f([1])\nf(2)"
    let two := ((start o).answer machine (.run a)).2.answer machine (.run b)
    let one := (start o).answer machine (.run (a ++ "\n" ++ b))
    ((start o).completes a = true ∧
      ((start o).answer (heeded bound) (.run a)).1 ≠ .error .outOfFuel ∧
      (((start o).answer machine (.run a)).2.answer (heeded bound) (.run b)).1 ≠ .error .outOfFuel) ∧
    one.1.mapError Failure.bare = two.1.mapError Failure.bare ∧ two.2.Agree one.2 := by
  intro o a b
  -- The answers stay unnamed: names would have the session run again to compare them.
  dsimp only
  have tree : ∀ x : Except SourceError Block, x.toBool = true → ∃ t, x = .ok t := by
    rintro (e | t) h
    · cases h
    · exact ⟨t, rfl⟩
  obtain ⟨accepted, accepted', complete, calm, calm'⟩ :
      (parse a ((start o).world.row main.index).name).toBool = true ∧
      (parse b ((start o).world.row main.index).name).toBool = true ∧
      (start o).completes a = true ∧
      Failure.unanswered ((start o).answer (heeded bound) (.run a)).1 = false ∧
      Failure.unanswered (((start o).answer machine (.run a)).2.answer (heeded bound)
        (.run b)).1 = false := by decide +kernel
  obtain ⟨first, accepted⟩ := tree _ accepted
  obtain ⟨second, accepted'⟩ := tree _ accepted'
  have calm := mt Failure.unanswered_iff.mpr (Bool.eq_false_iff.mp calm)
  have calm' := mt Failure.unanswered_iff.mpr (Bool.eq_false_iff.mp calm')
  exact ⟨⟨complete, calm, calm'⟩, texts_run_as_one (.start o) accepted accepted' complete calm calm'⟩

open Session in
/-- A token that has the code of a subroutine in it shows where that stands. -/
theorem token_shows_place :
    let o : Options := { (default : Options) with
      preload := ["crypto"], setup := { (default : Setup) with maxDepth := 1000 } }
    let b := "SUBROUTINE f()\nENDSUBROUTINE\nOUTPUT crypto.sign_token(\x7bNone: f\x7d, \"\")"
    let two := ((start o).answer machine (.run "")).2.answer machine (.run b)
    let one := (start o).answer machine (.run ("" ++ "\n" ++ b))
    (start o).completes "" = true ∧ Failure.fault? two.1 = none ∧
      one.2.world.output ≠ two.2.world.output := by
  decide +kernel

end Pseudocode
