import Pseudocode.Proofs.Places.History
/-
# `Proofs.Places.Listed` — returning several values and returning an array of them

`RETURN a, b` returns an array, and so does `RETURN [a, b]`.  The array in brackets has copies
of the values for its elements; the other one has the values themselves, and if one of them is
an array or a dictionary, a change of what is returned is a change of what was returned
(`return_shares_array`).

Otherwise the two forms do the same.  `Session.Lists` says that one session ran texts that
return arrays in brackets where the other one returned several values.  Texts keep them alike
(`listed_returns_alike`), unless a value that would be copied is returned, or the code of a
subroutine, in which the two forms differ, is written into a token.

Between two requests, everything in the world of a session is in order.  So a renaming may be
replaced by another one that does the same to the units that there are, and one that leaves them
alone leaves the world as it is; this is shown first.
-/
namespace Pseudocode

/-! ## Recasts -/

section Recasts

variable {ρ ρ' : Recast} {P : Value → Prop} (agree : ∀ v, P v → v.recast ρ = v.recast ρ')

include agree

theorem Table.recast_congr {t : Table Value} (h : t.All P) : t.recast ρ = t.recast ρ' :=
  List.map_congr_left fun e he => by rw [agree e.2 (h e he)]

theorem Array.recast_congr {a : Array Value} (h : ∀ v ∈ a, P v) :
    a.map (Value.recast ρ) = a.map (Value.recast ρ') :=
  Array.map_congr_left fun v hv => agree v (h v hv)

theorem Slots.recast_congr {s : Slots} (h : s.All P) : s.recast ρ = s.recast ρ' := by
  refine Slots.ext_of (Array.recast_congr agree h.block) rfl rfl ?_
  exact Array.map_congr_left fun b hb => Array.recast_congr agree (h.former b hb)

theorem Dictionary.recast_congr {d : Dictionary} (h : d.All P) : d.recast ρ = d.recast ρ' := by
  have keys : ∀ v : Value, v.keyForm ≠ .unhashable → v.recast ρ = v.recast ρ' := by
    intro v hashable
    cases v with
    | subroutine f => exact absurd rfl hashable
    | _ => rfl
  rw [Dictionary.recast, Dictionary.recast, Slots.recast_congr keys h.keys,
    Array.recast_congr agree h.values]

end Recasts

/-- Cells of one kind are the same in two runs if each of them is. -/
theorem Store.Young.map_congr {α : Type} {P : α → Prop} {f g : α → α} {a : Array α} {m : Nat}
    (h : Store.Young m P a) (whole : m = 0) (same : ∀ x, P x → f x = g x) : a.map f = a.map g := by
  refine Array.map_congr_left fun x hx => same x ?_
  obtain ⟨i, hi⟩ := Array.mem_iff_getElem?.mp hx
  exact h.cells i x (whole ▸ Nat.zero_le i) hi

/-- Two recasts that agree on the subroutines of a realm agree on a heap that belongs to it
altogether. -/
theorem Realm.Tame.recast_congr {R : Realm} {h : Heap} {ρ ρ' : Recast} (t : R.Tame h)
    (whole : R.marks = .outset) (agree : ∀ f, R.code f → ρ.sub f = ρ'.sub f)
    (mutes : ρ.mutes = ρ'.mutes) : h.recast ρ = h.recast ρ' := by
  have values : ∀ v, R.Holds v → v.recast ρ = v.recast ρ' := by
    intro v hv
    cases v with
    | subroutine f => exact congrArg Value.subroutine (agree f hv.code)
    | _ => rfl
  have table : ∀ {t : Table Value}, t.All R.Holds → t.recast ρ = t.recast ρ' :=
    Table.recast_congr values
  have marks : ∀ (part : Marks → Nat), part .outset = 0 → part R.marks = 0 := fun part zero =>
    (congrArg part whole).trans zero
  rw [Heap.recast, Heap.recast,
    t.arrays.map_congr (marks Marks.arrays rfl) fun _ => Slots.recast_congr values,
    t.dicts.map_congr (marks Marks.dicts rfl) fun _ => Dictionary.recast_congr values,
    t.records.map_congr (marks Marks.records rfl) (g := Record.recast ρ') fun r hr =>
      congrArg (fun t => { r with fields := t }) (table hr),
    t.classes.map_congr (marks Marks.classes rfl) (g := Class.recast ρ') fun c hc =>
      congrArg (fun t => { c with props := t }) (table hc),
    t.objects.map_congr (marks Marks.objects rfl) (g := Object.recast ρ') fun o ho =>
      congrArg (fun t => { o with props := t }) (table ho),
    t.libraries.map_congr (marks Marks.libraries rfl) (g := Library.recast ρ') fun l hl =>
      congrArg (fun t => { l with members := t }) (table hl),
    t.scopes.map_congr (marks Marks.scopes rfl) (g := Scope.recast ρ') fun s hs => ?_]
  rw [Scope.recast, Scope.recast, table hs.bindings, mutes]

/-! ## Renamings -/

namespace Renaming

variable {σ τ : Renaming} {n : Nat}

/-- The renamings do the same to the units below a number. -/
structure Agree (n : Nat) (σ τ : Renaming) : Prop where
  unit : ∀ u < n, σ.unit u = τ.unit u
  text : ∀ u < n, σ.text u = τ.text u
  shift : ∀ u < n, σ.shift u = τ.shift u
  lists : ∀ u < n, σ.lists u = τ.lists u
  mutes : σ.mutes = τ.mutes

theorem Agree.origin (h : Agree n σ τ) {o : Origin} (known : o.unit < n) : σ.origin o = τ.origin o := by
  rw [Renaming.origin, Renaming.origin, h.unit o.unit known, h.text o.unit known]

theorem Agree.subroutine (h : Agree n σ τ) {f : Subroutine} (known : f.origin.unit < n) :
    σ.subroutine f = τ.subroutine f := by
  have place : σ.place f.origin.unit = τ.place f.origin.unit := by
    funext p
    rw [Renaming.place, Renaming.place, h.shift _ known]
  rw [Renaming.subroutine, Renaming.subroutine, h.origin known, h.shift _ known, block, block,
    h.lists _ known, place]

end Renaming

/-- Renamings that agree on the units that there are agree on the world, up to the number of
the next one. -/
theorem Stand.Ready.world_congr {ℓ : Likeness} {S : Stand ℓ} {w : World} (ready : S.Ready w)
    (whole : S.marks = .outset) {σ τ : Renaming} (agree : Renaming.Agree w.nextUnit σ τ) :
    σ.world w = { τ.world w with nextUnit := σ.unit w.nextUnit } := by
  have heap : w.heap.recast σ.recast = w.heap.recast τ.recast :=
    ready.tame.recast_congr whole (fun f hf => agree.subroutine hf.known) agree.mutes
  have rows : w.interpreters.map σ.interpreter = w.interpreters.map τ.interpreter := by
    refine ready.rows.map_congr (congrArg Marks.interpreters whole) fun i hi => ?_
    rw [Renaming.interpreter, Renaming.interpreter, Renaming.frame, Renaming.frame,
      agree.origin hi.unit]
  rw [Renaming.world, Renaming.world, heap, rows, agree.mutes]

/-! ## Occasions on which the forms differ -/

open Classical in
/-- Stops the run where a condition holds. -/
noncomputable def Eval.stopWhere (P : Env → World → Prop) : Eval Unit := do
  if P (← read) (← get) then Eval.outOfFuel else return ()

open Classical in
theorem Eval.stopWhere_eq (P : Env → World → Prop) (env : Env) (w : World) :
    stopWhere P env w = if P env w then .error .outOfFuel w else .ok () w := by
  change (if P env w then (Eval.outOfFuel : Eval Unit) else pure ()) env w = _
  split <;> rfl

/-- Stops the run when code is written into a token. -/
noncomputable def Occasion.heedCode : Occasion → Eval Unit
  | .calling (.builtin b) args =>
    if b.action = .crypto .signToken then
      Eval.stopWhere fun _ w => w.heap.Shows true (Builtins.arg args 0)
    else return ()
  | _ => return ()

/-- Stops the run when code is written into a token, and when an array or a dictionary is one
of several values that are returned where values are to be listed. -/
noncomputable def Occasion.heedListing (lists : Nat → Span → Bool) (_ : Course) :
    Occasion → Eval Unit
  | .returning span v =>
    if v.container? = none then return ()
    else Eval.stopWhere fun env w => lists (w.row env.self.index).frame.origin.unit span = true
  | o => o.heedCode

namespace Stand

variable {ℓ : Likeness} {S : Stand ℓ} {w : World}

theorem answers_stopWhere {P : Env → World → Prop} {o : Occasion} (heard : ℓ.heard)
    (passes : ¬ P S.env w → S.Passes w o) : S.Answers w o (Eval.stopWhere P S.env w) := by
  rw [Eval.stopWhere_eq]
  split
  next => exact .stops heard
  next other => exact .passes (passes other)

theorem answers_heedCode {o : Occasion} (heard : ℓ.heard) (lax : ¬ ℓ.strict)
    (others : ∀ span v, o ≠ .returning span v) : S.Answers w o (o.heedCode S.env w) := by
  cases o with
  | calling callee args =>
    cases callee with
    | builtin b =>
      rw [Occasion.heedCode]
      split
      next => exact answers_stopWhere heard fun hidden _ => .inr hidden
      next other => exact .passes fun token => absurd token other
    | _ => exact .passes trivial
  | undisplayed f => exact .passes fun strict => absurd strict lax
  | returning span v => exact absurd rfl (others span v)
  | _ => exact .passes trivial

end Stand

theorem Likeness.oversees_heedCode {ℓ : Likeness} (heard : ℓ.heard) (lax : ¬ ℓ.strict)
    (unlisted : ∀ u s, ℓ.naming.lists u s = false) : ℓ.Oversees fun _ => Occasion.heedCode := by
  intro S w o _ _
  cases o with
  | returning span v =>
    refine .passes fun listed => ?_
    rw [unlisted] at listed
    cases listed
  | _ => exact Stand.answers_heedCode heard lax fun _ _ h => by cases h

theorem Likeness.oversees_heedListing {ℓ : Likeness} (heard : ℓ.heard) (lax : ¬ ℓ.strict)
    (lists : Nat → Span → Bool)
    (listed : ∀ u s, ℓ.naming.lists u s = true → lists u s = true) :
    ℓ.Oversees (Occasion.heedListing lists) := by
  intro S w o ready _
  cases o with
  | returning span v =>
    rw [Occasion.heedListing]
    split
    next plain => exact .passes fun _ => plain
    next =>
      refine Stand.answers_stopWhere heard fun unlisted chosen => absurd ?_ unlisted
      change lists (w.row S.self.index).frame.origin.unit span = true
      rw [ready.here]
      exact listed _ _ chosen
  | _ => exact Stand.answers_heedCode heard lax fun _ _ h => by cases h

/-! ## Listings -/

namespace Renaming

/-- Some returns are listed, by the units they stand in. -/
def listing (lists : Nat → Span → Bool) : Renaming := { identity with lists }

variable {lists lists' : Nat → Span → Bool} {n : Nat}

theorem agree_listing (same : ∀ u < n, lists u = lists' u) : Agree n (listing lists) (listing lists') :=
  ⟨fun _ _ => rfl, fun _ _ => rfl, fun _ _ => rfl, same, rfl⟩

theorem fixes_listing (u : Nat) : (listing lists).Fixes u := ⟨fun _ => rfl, rfl⟩

theorem block_listing (u : Nat) (b : Block) : (listing lists).block u b = b.listed (lists u) :=
  (Block.moved_eq_self _).mpr fun s _ => (fixes_listing u).span s

end Renaming

/-- The likeness of a run to one in which some returns are listed, none of them in a unit that
is yet to come. -/
def Likeness.listing (setup : Setup) (texts : List (String × String)) (lists : Nat → Span → Bool)
    (next : Nat) (bounded : ∀ u, next ≤ u → ∀ s, lists u s = false) : Likeness where
  setup := setup
  naming := .listing lists
  spans := setup.Written texts
  strict := False
  heard := True
  same := False
  expectation := .nothing
  home _ _ := True
  fresh := next
  lined := setup.lined_written texts
  apart o s o' s' _ _ := by
    simp only [Renaming.listing, Renaming.identity, id, Int.add_zero]
  unit_succ _ _ := rfl
  leaves u hu := ⟨⟨fun _ => rfl, rfl⟩, bounded u hu⟩
  modules _ _ _ tree _ offered parsed _ mem := ⟨.inr offered, tree, parsed, mem⟩
  unit_same h := h.elim
  leaves_same h := h.elim
  awaits_same := Expectation.nothing_silent

/-- Runs a text as if its chosen returns listed their values. -/
def Run.runListed (r : Recursor) (chosen : Span → Bool) (source : String) : Eval Unit := do
  match parse source (← Eval.self).name with
  | .error e => Eval.raise (.source e)
  | .ok program => inText source (discard (r.block (program.listed chosen)))

namespace Session

/-- The second session is the first one, but for some returns in its code that are listed. -/
structure Lists (lists : Nat → Span → Bool) (s t : Session) : Prop where
  /-- They stand in units that there are. -/
  bounded : ∀ u, s.world.nextUnit ≤ u → ∀ span, lists u span = false
  setup : t.setup = s.setup
  builtins : t.builtins = s.builtins
  world : t.world = (Renaming.listing lists).world s.world

/-- The returns that are listed when a text was run with some more of them listed. -/
def listsAfter (lists : Nat → Span → Bool) (s : Session) (chosen : Span → Bool) (u : Nat) :
    Span → Bool :=
  if u = s.world.nextUnit then chosen else lists u

theorem Lists.refl (s : Session) : s.Lists (fun _ _ => false) s where
  bounded _ _ _ := rfl
  setup := rfl
  builtins := rfl
  world := (Renaming.world_identity s.world).symm

variable {lists : Nat → Span → Bool} {s t : Session} {texts : List (String × String)}
  {chosen : Span → Bool} {source : String}

/-- What happens when the text of a tree is run. -/
theorem runSource_ok {r : Recursor} {env : Env} {w : World} {tree : Block}
    (parsed : parse source (w.row env.self.index).name = .ok tree) :
    Run.runSource r source env w =
      Run.inUnit w.nextUnit source (discard (r.block tree)) env { w with nextUnit := w.nextUnit + 1 } := by
  have self : Eval.self env w = .ok (w.row env.self.index) w := rfl
  rw [Run.runSource_eq, Eval.bind_ok self, parsed]
  rfl

theorem runListed_ok {r : Recursor} {env : Env} {w : World} {tree : Block}
    (parsed : parse source (w.row env.self.index).name = .ok tree) :
    Run.runListed r chosen source env w =
      Run.inUnit w.nextUnit source (discard (r.block (tree.listed chosen))) env
        { w with nextUnit := w.nextUnit + 1 } := by
  have self : Eval.self env w = .ok (w.row env.self.index) w := rfl
  rw [Run.runListed, Eval.bind_ok self, parsed]
  rfl

theorem runSource_error {r : Recursor} {env : Env} {w : World} {e : SourceError}
    (parsed : parse source (w.row env.self.index).name = .error e) :
    Run.runSource r source env w = .error (.fault (.source e)) w := by
  have self : Eval.self env w = .ok (w.row env.self.index) w := rfl
  rw [Run.runSource_eq, Eval.bind_ok self, parsed]
  rfl

theorem runListed_error {r : Recursor} {env : Env} {w : World} {e : SourceError}
    (parsed : parse source (w.row env.self.index).name = .error e) :
    Run.runListed r chosen source env w = .error (.fault (.source e)) w := by
  have self : Eval.self env w = .ok (w.row env.self.index) w := rfl
  rw [Run.runListed, Eval.bind_ok self, parsed]
  rfl

theorem listsAfter_bounded (listed : s.Lists lists t) (u : Nat) (hu : s.world.nextUnit + 1 ≤ u)
    (span : Span) : s.listsAfter lists chosen u span = false := by
  rw [listsAfter, if_neg (by omega)]
  exact listed.bounded u (by omega) span

/-- The likeness of a run of a text to the run in which the chosen returns are listed. -/
def Lists.likeness (listed : s.Lists lists t) (texts : List (String × String))
    (chosen : Span → Bool) : Likeness :=
  .listing s.setup texts (s.listsAfter lists chosen) (s.world.nextUnit + 1)
    (listsAfter_bounded listed)

theorem Lists.name (listed : s.Lists lists t) :
    (t.world.row main.index).name = (s.world.row main.index).name := by
  rw [listed.world, Renaming.row_world]
  rfl

/-- A text ends alike whether its chosen returns are listed or not. -/
theorem ends_listed (chosen : Span → Bool) (ran : s.Ran texts) (listed : s.Lists lists t)
    {n m : Nat} (enough : 2 * n + 1 ≤ m) {tree : Block}
    (parsed : parse source (s.world.row main.index).name = .ok tree) :
    ∃ o w₀, Ends (Stand.main (listed.likeness (((s.world.row main.index).name, source) :: texts) chosen) o)
      w₀ True
      (Run.runSource (Run.overseen (Occasion.heedListing (s.listsAfter lists chosen)) n .outset)
        source ⟨s.setup, main⟩ s.world)
      (Run.runListed (Run.run m) chosen source ⟨t.setup, main⟩ t.world) := by
  let o : Origin := ⟨s.world.nextUnit, (s.world.row main.index).name, source⟩
  let ℓ := listed.likeness (((s.world.row main.index).name, source) :: texts) chosen
  let S : Stand ℓ := .main ℓ (s.world.row main.index).frame.origin
  let w := { s.world with nextUnit := s.world.nextUnit + 1 }
  have plain := ran.ready False True .nothing
  have ready : S.Ready w := plain.advance (Nat.le_succ _) rfl (Nat.le_refl _)
    (fun _ _ _ _ => .mono (List.subset_cons_self _ _)) fun _ _ h => h
  -- The second session is the first one, as it is found when the text is listed.
  have world : { t.world with nextUnit := t.world.nextUnit + 1 } = ℓ.naming.world w := by
    have agree : Renaming.Agree s.world.nextUnit (.listing lists)
        (.listing (s.listsAfter lists chosen)) := Renaming.agree_listing fun u hu => by
      rw [listsAfter, if_neg (Nat.ne_of_lt hu)]
    rw [listed.world, plain.world_congr rfl agree]
    rfl
  have unit : t.world.nextUnit = s.world.nextUnit := by
    rw [listed.world]
    rfl
  have block : ℓ.naming.block o.unit tree = tree.listed chosen := by
    have chosen : s.listsAfter lists chosen s.world.nextUnit = chosen := if_pos rfl
    rw [← chosen]
    exact Renaming.block_listing _ _
  have mirroring := mirroring_overseen (Likeness.oversees_heedListing (ℓ := ℓ) trivial id
    (s.listsAfter lists chosen) fun _ _ h => h) (.inr ⟨trivial, enough⟩) S
  have body : ∀ w', Mirrors (S.within o) w' True
      (discard ((Run.overseen (Occasion.heedListing (s.listsAfter lists chosen)) n .outset).block tree))
      (discard ((Run.run m).block (tree.listed chosen))) := by
    intro w'
    have mirrored := mirroring.block S.self o w' tree fun span mem =>
      ⟨⟨.inl List.mem_cons_self, tree, parsed, mem⟩, plain.units⟩
    rw [block] at mirrored
    exact (mirrored.mono fun _ => trivial).discard
  obtain ⟨w₀, entered⟩ := entered_inUnit ready (Nat.lt_succ_self _) source fun w' _ => body w'
  rw [runSource_ok parsed, runListed_ok (listed.name.symm ▸ parsed), world, unit, listed.setup]
  exact ⟨o, w₀, entered.ends⟩

/-- What two sessions show is the same. -/
structure Agree (s t : Session) : Prop where
  output : t.world.output = s.world.output
  bindings : t.bindings = s.bindings
  input : t.world.input = s.world.input
  random : t.world.random = s.world.random

theorem agree_renamed {σ : Renaming} (world : t.world = σ.world s.world)
    (builtins : t.builtins = s.builtins) : s.Agree t where
  output := by rw [world]; rfl
  bindings := bindings_renamed world builtins
  input := by rw [world]; rfl
  random := by rw [world]; rfl

/-- How a request is answered that ends alike in two sessions. -/
theorem perform_listed {x y : Eval Unit} {p : Prop} {w : World} (listed : s.Lists lists t)
    {S : Stand (listed.likeness texts chosen)}
    (ends : Ends S w p (x ⟨s.setup, main⟩ s.world) (y ⟨t.setup, main⟩ t.world))
    (heeded : (s.perform x).1 ≠ .error .outOfFuel) :
    (t.perform y).1 = (s.perform x).1 ∧
      (s.perform x).2.Lists (s.listsAfter lists chosen) (t.perform y).2 := by
  have after : ∀ w', S.Ready w' → Session.Lists (s.listsAfter lists chosen) { s with world := w' }
      { t with world := (listed.likeness texts chosen).naming.world w' } := fun w' ready =>
    ⟨fun u hu => listsAfter_bounded listed u (Nat.le_trans ready.fresh hu), listed.setup,
      listed.builtins, rfl⟩
  rw [perform] at heeded ⊢
  rw [perform]
  generalize x ⟨s.setup, main⟩ s.world = l at ends heeded ⊢
  generalize y ⟨t.setup, main⟩ t.world = k at ends ⊢
  cases ends with
  | ok ready => exact ⟨rfl, after _ ready⟩
  | fault ready _ alike =>
    rw [alike.eq fun u _ => Renaming.fixes_listing u]
    exact ⟨rfl, after _ ready⟩
  | stopped => exact absurd rfl heeded

end Session

open Session in
/-- A text is run in a session, and the same text with some of its returns listed in a session
that ran its texts so.  Then the answers are the same, and so are the output, the bindings, the
input that is left and the random numbers, and the sessions stay alike, unless an array or a
dictionary is one of several values that are returned where they are to be listed, or code is
written into a token. -/
theorem listed_returns_alike {texts : List (String × String)} {s t : Session}
    {lists : Nat → Span → Bool} (ran : s.Ran texts) (listed : s.Lists lists t)
    (source : String) (chosen : Span → Bool) {m : Nat} (enough : 2 * bound + 1 ≤ m)
    (heeded : (s.answer (Run.overseen (Occasion.heedListing (s.listsAfter lists chosen)) bound
      .outset) (.run source)).1 ≠ .error .outOfFuel) :
    let one := s.answer machine (.run source)
    let other := t.perform (Run.runListed (Run.run m) chosen source)
    other.1 = one.1 ∧ one.2.Agree other.2 ∧ ∃ lists', one.2.Lists lists' other.2 := by
  intro one other
  have oversees := Likeness.oversees_heedListing
    (ℓ := .plain s.setup (((s.world.row main.index).name, source) :: texts) False True .nothing)
    trivial id (s.listsAfter lists chosen) fun _ _ h => by cases h
  have same : s.answer (Run.overseen (Occasion.heedListing (s.listsAfter lists chosen)) bound .outset)
      (.run source) = one := ran.answer_eq (.of_run source) oversees heeded
  cases parsed : parse source (s.world.row main.index).name with
  | error e =>
    have first : one = (.error (.fault (.source e)), s) := by
      change s.perform (Run.runSource machine source) = _
      rw [perform, runSource_error parsed]
    have second : other = (.error (.fault (.source e)), t) := by
      change t.perform (Run.runListed (Run.run m) chosen source) = _
      rw [perform, runListed_error (listed.name.symm ▸ parsed)]
    rw [first, second]
    exact ⟨rfl, agree_renamed listed.world listed.builtins, lists, listed⟩
  | ok tree =>
    obtain ⟨o, w₀, ends⟩ := ends_listed chosen ran listed enough parsed
    obtain ⟨answer, after⟩ := perform_listed listed ends heeded
    rw [← same]
    exact ⟨answer, agree_renamed after.world after.builtins, _, after⟩

open Session in
/-- Two numbers are returned. -/
theorem listed_returns_alike_numbers :
    let o : Options := { (default : Options) with setup := { (default : Setup) with maxDepth := 1000 } }
    let source := "SUBROUTINE f()\n  RETURN 1, 2\nENDSUBROUTINE\nOUTPUT f()"
    let one := (start o).answer machine (.run source)
    let other := (start o).perform (Run.runListed (Run.run (2 * bound + 1)) (fun _ => true) source)
    ((start o).answer (Run.overseen
      (Occasion.heedListing ((start o).listsAfter (fun _ _ => false) fun _ => true)) bound .outset)
        (.run source)).1 ≠ .error .outOfFuel ∧ other.1 = one.1 ∧ one.2.Agree other.2 := by
  intro o source
  -- The answers stay unnamed: names would have the session run again to compare them.
  dsimp only
  have heeded : Failure.unanswered ((start o).answer (Run.overseen
      (Occasion.heedListing ((start o).listsAfter (fun _ _ => false) fun _ => true)) bound .outset)
        (.run source)).1 = false := by decide +kernel
  have heeded := mt Failure.unanswered_iff.mpr (Bool.eq_false_iff.mp heeded)
  have alike := listed_returns_alike (.start o) (.refl _) source (fun _ => true) (Nat.le_refl _) heeded
  exact ⟨heeded, alike.1, alike.2.1⟩

open Session in
/-- An array that is one of two values that are returned changes with what is returned; in
brackets it does not. -/
theorem return_shares_array :
    let o : Options := { (default : Options) with setup := { (default : Setup) with maxDepth := 1000 } }
    let source (returned : String) := "a ← [1]\nSUBROUTINE f()\n  RETURN " ++ returned ++
      "\nENDSUBROUTINE\nf()[0].append(2)\nOUTPUT a"
    ((start o).answer machine (.run (source "a, 1"))).2.world.output = "[1, 2]\n" ∧
      ((start o).answer machine (.run (source "[a, 1]"))).2.world.output = "[1]\n" := by
  decide +kernel

end Pseudocode
