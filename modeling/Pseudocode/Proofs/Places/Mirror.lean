import Pseudocode.Proofs.Places.Overseen
import Pseudocode.Proofs.Places.Renaming
import Pseudocode.Proofs.Places.Showing
/-
# `Proofs.Places.Mirror` — a logic of runs that differ in where their code stands

A `Likeness` is a renaming of source units together with the spans that code may have.
`Mirrors S w p x y` is a judgement about two actions, of which the first is overseen.
Started in a world `w` that is in order, `x` leaves a world in order, and what it returns or
raises is in order too; and `y`, started in the same world renamed, ends with the same,
renamed.  If `x` is stopped on the way, little is said (`Stand.Stops`): the bound on steps
was used up on both sides, or the overseer stopped it, and then, if a fault was waited for,
`y` fails with what is expected of it.

A diagnostic is in order if it has no place, or if it is at a span of a source unit
(`Likeness.Like`).  Where `p` holds, and the likeness is strict, faults have places.

A `Stand` says which interpreter executes, out of which source unit, in the course of which
imports, and what the run may reach: only cells, interpreters and units from its marks on.
An imported module stands behind marks of its own, so its faults are never at spans of the
units before.
-/
namespace Pseudocode

/-! ## Modules -/

/-- The texts that are offered as modules, with the names they are reported under. -/
def Setup.Offers (setup : Setup) (name text : String) : Prop :=
  setup.files.fileAt? name = some text ∨
    ∃ path, name = Run.embeddedDisplay path ∧ Embedded.files.lookup path = some text

/-- What modules are identified by: the places of files, and the paths of the embedded
library. -/
def Setup.Keys (setup : Setup) (key : String) : Prop :=
  (∃ name dir text,
    setup.files.fileAt? (Run.candidate (Run.moduleFile name) dir) = some text ∧
      key = Path.absolute setup.files.working (Run.candidate (Run.moduleFile name) dir)) ∨
    ∃ path text, Embedded.files.lookup path = some text ∧ key = "stdlib:" ++ path

/-- The imports in progress at an interpreter, innermost last, after the one that it may
have begun with. -/
def Setup.Chains (setup : Setup) (keys : List String) : Prop :=
  ∃ own rest, keys = own ++ rest ∧ own.length ≤ 1 ∧ ∀ k ∈ rest, setup.Keys k

/-- The directory of a module that is reported under a name. -/
def Setup.Lies (dir name : String) : Prop :=
  dir = Path.directory name ∨ dir = "" ∧ ∃ path, name = Run.embeddedDisplay path

/-- A module as it can be found. -/
structure Run.Found.Known (setup : Setup) (m : Run.Found) : Prop where
  offered : setup.Offers m.display m.text
  key : setup.Keys m.key
  dir : Setup.Lies m.dir m.display

/-! ## Faults -/

namespace Fault

/-- A fault that is no runtime error without a place. -/
def Located : Fault → Prop
  | .runtime d _ | .moduleNotFound d _ _ => 1 ≤ d.span.start.line
  | .unplaced _ => False
  | .source _ | .plain _ => True

/-- A runtime error with a place.  It stays as it is on its way up. -/
def Settled : Fault → Prop
  | .runtime d _ | .moduleNotFound d _ _ => 1 ≤ d.span.start.line
  | _ => False

end Fault

/-- What an import fails with, if the module failed. -/
def Site.failure (s : Site) (cause : Fault) : Fault :=
  let message := s!"error importing module '{s.nickname}': {Run.firstLine cause.text}"
  .runtime ((Diagnostic.error Code.importFailed.text s.span message).at s.origin s.span) (some cause)

/-- What a run is expected to fail with.  There may be a fault that is waited for, the
failure of a module in a certain course of imports; it is expected to be passed on from
one import to the next. -/
structure Expectation where
  /-- The fault that is waited for. -/
  awaits : Course → Fault → Prop
  /-- What fails in a course of imports, because that fault came up. -/
  expects : Course → Fault → Prop
  settled : ∀ c f, expects c f → f.Settled
  untried : ∀ c f, expects c f → c.tried = false
  circular : ∀ c s f, awaits (c.into s) f ∨ expects (c.into s) f → f.isCircular = true →
    f.Settled → expects c f
  wraps : ∀ c s f, awaits (c.into s) f ∨ expects (c.into s) f → f.isCircular = false →
    1 ≤ s.span.start.line → expects c (s.failure f)

/-! ## Likenesses -/

/-- How the source units of two runs correspond. -/
structure Likeness where
  setup : Setup
  naming : Renaming
  /-- The spans that code of a unit may have. -/
  spans : Origin → Span → Prop
  /-- Faults are asked to have places. -/
  strict : Prop
  /-- The overseer may stop the first run. -/
  heard : Prop
  /-- Both runs execute the same code in the same places. -/
  same : Prop
  expectation : Expectation
  /-- What is known of the directory and the name of the interpreter of the session. -/
  home : String → String → Prop
  /-- The units that are yet to come start here. -/
  fresh : Nat
  lined : ∀ o s, spans o s → 1 ≤ s.start.line
  /-- What stands apart in the first run does so in the second. -/
  apart : ∀ o s o' s', spans o s → spans o' s' →
    (naming.unit o.unit = naming.unit o'.unit ∧
        s.start.offset + (naming.shift o.unit).bytes =
          s'.start.offset + (naming.shift o'.unit).bytes ↔
      o.unit = o'.unit ∧ s.start.offset = s'.start.offset)
  unit_succ : ∀ u, fresh ≤ u → naming.unit (u + 1) = naming.unit u + 1
  leaves : ∀ u, fresh ≤ u → naming.Leaves u
  modules : ∀ u name text tree, fresh ≤ u → setup.Offers name text → parse text name = .ok tree →
    ∀ s ∈ tree.spans, spans ⟨u, name, text⟩ s
  unit_same : same → ∀ u, naming.unit u = u
  leaves_same : same → ∀ u, naming.Leaves u
  awaits_same : ∀ c f, expectation.awaits c f ∨ expectation.expects c f → same

namespace Likeness

variable (ℓ : Likeness)

/-- A subroutine that was defined by code of a unit from a mark on. -/
structure Defined (units next : Nat) (f : Subroutine) : Prop where
  body : ∀ s ∈ f.body.spans, ℓ.spans f.origin s
  offset : ∃ s, ℓ.spans f.origin s ∧ s.start.offset = f.offset
  old : units ≤ f.origin.unit
  known : f.origin.unit < next

/-- What may be reached from some marks on in a world. -/
def realm (m : Marks) (w : World) : Realm where
  marks := m
  recast := ℓ.naming.recast
  interpreters := w.interpreters.size
  code := ℓ.Defined m.units w.nextUnit
  bound _ _ h := ⟨h.body, h.offset, h.old, h.known⟩
  apart f g hf hg := by
    obtain ⟨s, hs, hoff⟩ := hf.offset
    obtain ⟨s', hs', hoff'⟩ := hg.offset
    have apart := ℓ.apart _ s _ s' hs hs'
    rw [hoff, hoff'] at apart
    exact apart

/-- Two diagnostics that differ in where they are, if they are anywhere. -/
inductive Like (m : Marks) : Diagnostic → Diagnostic → Prop
  | nowhere {d : Diagnostic} : d.span = .nowhere → d.source = "" → d.code ≠ Code.circular.text →
      Like m d d
  | placed (d : Diagnostic) {o : Origin} {s : Span} : ℓ.spans o s → m.units ≤ o.unit →
      Like m (d.at o s) (d.at (ℓ.naming.origin o) (s.moved (ℓ.naming.place o.unit)))

/-- Two faults that differ in where they and their causes are. -/
inductive Alike (m : Marks) : Fault → Fault → Prop
  | source (e : SourceError) : Alike m (.source e) (.source e)
  | plain (message : String) : Alike m (.plain message) (.plain message)
  | unplaced (t : Trouble) : t.Common → Alike m (.unplaced t) (.unplaced t)
  | runtime {d d' : Diagnostic} : ℓ.Like m d d' → Alike m (.runtime d none) (.runtime d' none)
  | caused {d d' : Diagnostic} {f f' : Fault} : ℓ.Like m d d' → Alike m f f' →
      Alike m (.runtime d (some f)) (.runtime d' (some f'))
  | missing {d d' : Diagnostic} (name : String) (searched : List String) : ℓ.Like m d d' →
      Alike m (.moduleNotFound d name searched) (.moduleNotFound d' name searched)

variable {ℓ} {m m' : Marks} {d d' : Diagnostic} {f f' : Fault}

theorem Like.mono (le : m'.units ≤ m.units) (h : ℓ.Like m d d') : ℓ.Like m' d d' := by
  cases h with
  | nowhere span source code => exact .nowhere span source code
  | placed d spans unit => exact .placed d spans (Nat.le_trans le unit)

theorem Alike.mono (le : m'.units ≤ m.units) (h : ℓ.Alike m f f') : ℓ.Alike m' f f' := by
  induction h with
  | source e => exact .source e
  | plain message => exact .plain message
  | unplaced t common => exact .unplaced t common
  | runtime h => exact .runtime (h.mono le)
  | caused h _ ih => exact .caused (h.mono le) ih
  | missing name searched h => exact .missing name searched (h.mono le)

/-- Diagnostics at spans of units that are left alone are the same. -/
theorem Like.eq (fixes : ∀ u, m.units ≤ u → ℓ.naming.Fixes u) (h : ℓ.Like m d d') : d' = d := by
  cases h with
  | nowhere => rfl
  | @placed d o s spans unit =>
    simp only [(fixes o.unit unit).span, Diagnostic.at, Renaming.origin, (fixes o.unit unit).text]

theorem Alike.eq (fixes : ∀ u, m.units ≤ u → ℓ.naming.Fixes u) (h : ℓ.Alike m f f') : f' = f := by
  induction h with
  | source e => rfl
  | plain message => rfl
  | unplaced t common => rfl
  | runtime h => rw [h.eq fixes]
  | caused h _ ih => rw [h.eq fixes, ih]
  | missing name searched h => rw [h.eq fixes]

theorem Alike.catchable (h : ℓ.Alike m f f') : f'.catchable = f.catchable := by
  cases h <;> rfl

theorem Like.circular (h : ℓ.Like m d d') (circular : d.code = Code.circular.text) :
    1 ≤ d.span.start.line := by
  cases h with
  | nowhere _ _ code => exact absurd circular code
  | placed d spans unit => exact ℓ.lined _ _ spans

/-- The error about modules that import each other has a place. -/
theorem Alike.settled (h : ℓ.Alike m f f') (circular : f.isCircular = true) : f.Settled := by
  have code : ∀ {d : Diagnostic}, (d.code == Code.circular.text) = true →
      d.code = Code.circular.text := fun h => beq_iff_eq.mp h
  cases h with
  | runtime h => exact h.circular (code circular)
  | caused h => exact h.circular (code circular)
  | missing name searched h => exact h.circular (code circular)
  | _ => cases circular

end Likeness

/-! ## Stands -/

/-- Where execution stands: the interpreter, the source unit, the course of imports, and
the marks that it does not get behind. -/
structure Stand (ℓ : Likeness) where
  self : InterpreterId
  here : Origin
  course : Course
  marks : Marks

/-- An interpreter that may be stood on. -/
structure Interpreter.Stable (setup : Setup) (home : String → String → Prop) (m : Marks) (next : Nat)
    (i : Interpreter) : Prop where
  root : m.scopes ≤ i.root.index
  scope : m.scopes ≤ i.frame.scope.index
  unit : i.frame.origin.unit < next
  /-- No module is imported by itself. -/
  acyclic : i.importing.Nodup
  nested : m.importing <+: i.importing
  chained : setup.Chains i.importing
  /-- The interpreter of a module stands in its directory. -/
  dir : Setup.Lies i.dir i.name ∨ home i.dir i.name
  /-- Out of calls, an interpreter executes its text, or one without a name. -/
  lexical : i.frame.depth = 0 →
    i.frame.origin.unit = 0 ∨ i.frame.origin.name = i.name ∨ i.frame.origin.name = ""

namespace Stand

variable {ℓ : Likeness} (S : Stand ℓ)

def env : Env := ⟨ℓ.setup, S.self⟩

theorem setup_env : S.env.setup = ℓ.setup := rfl

def realm (w : World) : Realm := ℓ.realm S.marks w

/-- Where a place of the executing unit is found in the second run. -/
def place : Position → Position := ℓ.naming.place S.here.unit

/-- A world in which execution may stand. -/
structure Ready (w : World) : Prop where
  tame : (S.realm w).Tame w.heap
  rows : Store.Young S.marks.interpreters (Interpreter.Stable ℓ.setup ℓ.home S.marks w.nextUnit)
    w.interpreters
  self : (S.realm w).Home S.self
  here : (w.row S.self.index).frame.origin = S.here
  fresh : ℓ.fresh ≤ w.nextUnit
  units : S.marks.units ≤ w.nextUnit
  /-- Every import in progress has a module of its own. -/
  level : S.course.sites.length ≤ S.marks.importing.length
  /-- No unit has the number 0. -/
  numbered : 1 ≤ S.marks.units

/-- What execution leaves as it was. -/
structure Steps (w w' : World) : Prop where
  kept : S.marks.Kept w.heap w'.heap
  rows : Store.Kept w.interpreters.size w.interpreters w'.interpreters
  size : w.interpreters.size ≤ w'.interpreters.size
  units : w.nextUnit ≤ w'.nextUnit

/-- A span that code of the executing unit may have. -/
def Admits (s : Span) : Prop := ℓ.spans S.here s ∧ S.marks.units ≤ S.here.unit

/-- A span that faults may be put at. -/
def Allows (p : Prop) (s : Span) : Prop := S.Admits s ∨ s = .nowhere ∧ ¬ p

/-- The stand of an action on another interpreter, out of another unit. -/
def on (id : InterpreterId) (o : Origin) : Stand ℓ := { S with self := id, here := o }

/-- The stand in another course. -/
def during (c : Course) : Stand ℓ := { S with course := c }

variable {S} {w w' w'' : World} {p : Prop}

theorem Steps.refl (S : Stand ℓ) (w : World) : S.Steps w w :=
  ⟨.refl _ _, .refl _ _, Nat.le_refl _, Nat.le_refl _⟩

theorem Steps.trans (h : S.Steps w w') (k : S.Steps w' w'') : S.Steps w w'' :=
  ⟨h.kept.trans k.kept, h.rows.trans (k.rows.of_le h.size), Nat.le_trans h.size k.size,
    Nat.le_trans h.units k.units⟩

theorem Steps.grows (h : S.Steps w w') : (S.realm w).Grows (S.realm w') :=
  ⟨rfl, h.size, fun _ hf =>
    ⟨hf.body, hf.offset, hf.old, Nat.lt_of_lt_of_le hf.known h.units⟩⟩

theorem Steps.good {α : Type} [Carried α] (h : S.Steps w w') {a : α}
    (ha : Carried.Good (S.realm w) a) : Carried.Good (S.realm w') a := Carried.mono h.grows ha

theorem Steps.holds (h : S.Steps w w') {v : Value} (hv : (S.realm w).Holds v) :
    (S.realm w').Holds v := h.grows.holds hv

theorem Steps.row (h : S.Steps w w') {i : Nat} (hi : i < w.interpreters.size) :
    w'.row i = w.row i := by
  rw [World.row, World.row, Array.getD_eq_getD_getElem?, Array.getD_eq_getD_getElem?, h.rows i hi]

/-- An interpreter that may be called back into may be stood on. -/
theorem Ready.row_home (hr : S.Ready w) {id : InterpreterId} (home : (S.realm w).Home id) :
    (w.row id.index).Stable ℓ.setup ℓ.home S.marks w.nextUnit := by
  obtain ⟨old, known⟩ := home
  refine hr.rows.cells id.index _ old ?_
  change id.index < w.interpreters.size at known
  rw [World.row, Array.getD_eq_getD_getElem?, Array.getElem?_eq_getElem known]
  rfl

theorem Ready.row (hr : S.Ready w) : (w.row S.self.index).Stable ℓ.setup ℓ.home S.marks w.nextUnit :=
  hr.row_home hr.self

theorem Admits.allows {s : Span} (h : S.Admits s) : S.Allows p s := .inl h

theorem allows_nowhere (hp : ¬ p) : S.Allows p .nowhere := .inr ⟨rfl, hp⟩

end Stand

/-- A loop makes as many rounds in both runs, or more in the second one if the first may be
stopped. -/
def Likeness.Rounds (ℓ : Likeness) (n m : Nat) : Prop := n = m ∨ n ≤ m ∧ ℓ.heard

namespace Likeness.Rounds

variable {ℓ : Likeness} {n m : Nat}

theorem zero (h : ℓ.Rounds 0 m) : m = 0 ∨ ℓ.heard := h.imp Eq.symm And.right

theorem succ (h : ℓ.Rounds (n + 1) m) : ∃ k, m = k + 1 ∧ ℓ.Rounds n k := by
  obtain rfl | ⟨le, heard⟩ := h
  · exact ⟨n, rfl, .inl rfl⟩
  · obtain ⟨k, rfl⟩ : ∃ k, m = k + 1 := ⟨m - 1, by omega⟩
    exact ⟨k, rfl, .inr ⟨Nat.le_of_succ_le_succ le, heard⟩⟩

end Likeness.Rounds

/-! ## Overseers -/

namespace Stand

variable {ℓ : Likeness} (S : Stand ℓ)

/-- What holds when the overseer is asked. -/
def Meets (w : World) : Occasion → Prop
  | .seeking _ => S.here.unit ≠ 0
  | .opening m => ∃ s sites, S.course.sites = s :: sites ∧
      m.key ∉ (w.row s.importer.index).importing ∧
      (w.row S.self.index).importing = (w.row s.importer.index).importing ++ [m.key]
  | _ => True

/-- What holds when the overseer lets the run go on: the data of a token shows no code, unless
code is the same in both runs; what could not be displayed is a fault with a place, if faults
are asked to have one; and values that are listed are no containers. -/
def Passes (w : World) : Occasion → Prop
  | .calling (.builtin b) args => b.action = .crypto .signToken →
      ℓ.same ∨ ¬ w.heap.Shows true (Builtins.arg args 0)
  | .undisplayed f => ℓ.strict → f.Located
  | .returning span v => ℓ.naming.lists S.here.unit span = true → v.container? = none
  | _ => True

/-- What the overseer may do. -/
inductive Answers (w : World) (o : Occasion) : EStateM.Result Failure World Unit → Prop
  | passes : S.Passes w o → Answers w o (.ok () w)
  | stops {w' : World} : ℓ.heard → Answers w o (.error .outOfFuel w')
  | trips {f : Fault} {w' : World} : o = .closing f → ℓ.expectation.awaits S.course f →
      Answers w o (.error .outOfFuel w')

end Stand

/-- The overseer does what it may do wherever execution may stand. -/
def Likeness.Oversees (ℓ : Likeness) (watch : Course → Occasion → Eval Unit) : Prop :=
  ∀ (S : Stand ℓ) (w : World) (o : Occasion), S.Ready w → S.Meets w o →
    S.Answers w o (watch S.course o S.env w)

/-! ## The judgement -/

instance : Carried Flow where
  carry ρ flow :=
    match flow with
    | .returned v => .returned (v.recast ρ)
    | flow => flow
  Good R flow := ∀ v, flow = .returned v → R.Holds v
  mono g h v hv := g.holds (h v hv)

/-- Only what is returned has to be good. -/
theorem Flow.good_of_not_returned {R : Realm} {flow : Flow}
    (stays : (flow matches .returned _) = false) : Carried.Good R flow := by
  intro v same
  rw [same] at stays
  cases stays

section Judgement

variable {ℓ : Likeness} {α β : Type} [Carried α] [Carried β]

/-- How the second action ends if the first is stopped. -/
inductive Stand.Stops (S : Stand ℓ) (w : World) : EStateM.Result Failure World α → Prop
  | fuel : Stops S w (.error .outOfFuel (ℓ.naming.world w))
  | heard {r : EStateM.Result Failure World α} : ℓ.heard → Stops S w r
  | tripped {f : Fault} {w' : World} : ℓ.expectation.expects S.course f →
      Stops S w (.error (.fault f) w')

/-- How two actions ended that were started in a world and in the same world renamed. -/
inductive Ends (S : Stand ℓ) (w : World) (p : Prop) :
    EStateM.Result Failure World α → EStateM.Result Failure World α → Prop
  | ok {a : α} {w' : World} : S.Ready w' → S.Steps w w' → Carried.Good (S.realm w') a →
      Ends S w p (.ok a w') (.ok (Carried.carry ℓ.naming.recast a) (ℓ.naming.world w'))
  | fault {f f' : Fault} {w' : World} : S.Ready w' → S.Steps w w' → ℓ.Alike S.marks f f' →
      (ℓ.strict → p → f.Located) →
      Ends S w p (.error (.fault f) w') (.error (.fault f') (ℓ.naming.world w'))
  | stopped {w' : World} {r : EStateM.Result Failure World α} : S.Stops w' r →
      Ends S w p (.error .outOfFuel w') r

/-- The second action does in the world renamed what the first does in the world. -/
def Mirrors (S : Stand ℓ) (w : World) (p : Prop) (x y : Eval α) : Prop :=
  S.Ready w → Ends S w p (x S.env w) (y S.env (ℓ.naming.world w))

variable {S : Stand ℓ} {w w' : World} {p q : Prop} {x y : Eval α} {f g : α → Eval β}

theorem Ends.mono {r r' : EStateM.Result Failure World α} (h : Ends S w p r r') (imp : q → p) :
    Ends S w q r r' := by
  cases h with
  | ok ready steps good => exact .ok ready steps good
  | fault ready steps alike located => exact .fault ready steps alike fun hs hq => located hs (imp hq)
  | stopped stops => exact .stopped stops

/-- What was led up to counts from where it began. -/
theorem Ends.after {r r' : EStateM.Result Failure World α} (h : Ends S w' p r r')
    (steps : S.Steps w w') : Ends S w p r r' := by
  cases h with
  | ok ready more good => exact .ok ready (steps.trans more) good
  | fault ready more alike located => exact .fault ready (steps.trans more) alike located
  | stopped stops => exact .stopped stops

omit [Carried α] [Carried β] in
/-- What follows a stop does not come about. -/
theorem Stand.Stops.bind {env : Env} (h : S.Stops w (y env w')) (g : α → Eval β) :
    S.Stops w ((y >>= g) env w') := by
  generalize hy : y env w' = r at h
  cases h with
  | fuel =>
    rw [Eval.bind_error hy]
    exact .fuel
  | heard h => exact .heard h
  | tripped expected =>
    rw [Eval.bind_error hy]
    exact .tripped expected

namespace Mirrors

theorem mono (h : Mirrors S w p x y) (imp : q → p) : Mirrors S w q x y := fun hr => (h hr).mono imp

/-- The world may be taken to be in order. -/
theorem ready (h : S.Ready w → Mirrors S w p x y) : Mirrors S w p x y := fun hr => h hr hr

theorem pure {a : α} (ha : Carried.Good (S.realm w) a) :
    Mirrors S w p (pure a) (pure (Carried.carry ℓ.naming.recast a)) :=
  fun hr => .ok hr (.refl S w) ha

theorem raise {f f' : Fault} (alike : ℓ.Alike S.marks f f') (located : ℓ.strict → p → f.Located) :
    Mirrors S w p (Eval.raise f : Eval α) (Eval.raise f') :=
  fun hr => .fault hr (.refl S w) alike located

theorem raise_bind {γ : Type} {f f' : Fault} {k k' : γ → Eval α} (alike : ℓ.Alike S.marks f f')
    (located : ℓ.strict → p → f.Located) :
    Mirrors S w p ((Eval.raise f : Eval γ) >>= k) ((Eval.raise f' : Eval γ) >>= k') :=
  fun hr => .fault hr (.refl S w) alike located

theorem outOfFuel : Mirrors S w p (Eval.outOfFuel : Eval α) Eval.outOfFuel :=
  fun _ => .stopped .fuel

theorem heard (h : ℓ.heard) : Mirrors S w p (Eval.outOfFuel : Eval α) y :=
  fun _ => .stopped (.heard h)

theorem bind (hx : Mirrors S w p x y)
    (hf : ∀ a w', S.Ready w' → S.Steps w w' → Carried.Good (S.realm w') a →
      Mirrors S w' p (f a) (g (Carried.carry ℓ.naming.recast a))) :
    Mirrors S w p (x >>= f) (y >>= g) := by
  intro hr
  have ends := hx hr
  generalize hl : x S.env w = l at ends
  generalize hk : y S.env (ℓ.naming.world w) = k at ends
  cases ends with
  | ok ready steps good =>
    rw [Eval.bind_ok hl, Eval.bind_ok hk]
    exact (hf _ _ ready steps good ready).after steps
  | fault ready steps alike located =>
    rw [Eval.bind_error hl, Eval.bind_error hk]
    exact .fault ready steps alike located
  | stopped stops =>
    rw [Eval.bind_error hl]
    rw [← hk] at stops
    exact .stopped (stops.bind g)

/-- Looking at the world comes first. -/
theorem look {γ γ' : Type} {z : Eval γ} {z' : Eval γ'} {a : γ} {b : γ'} {f : γ → Eval β}
    {g : γ' → Eval β} (hz : z S.env w = .ok a w)
    (hz' : z' S.env (ℓ.naming.world w) = .ok b (ℓ.naming.world w))
    (hf : Mirrors S w p (f a) (g b)) : Mirrors S w p (z >>= f) (z' >>= g) := by
  intro hr
  rw [Eval.bind_ok hz, Eval.bind_ok hz']
  exact hf hr

/-- A step that leaves the heap, the interpreters and the units alone. -/
theorem step {z z' : Eval α} {a : α} (hz : z S.env w = .ok a w')
    (hz' : z' S.env (ℓ.naming.world w) = .ok (Carried.carry ℓ.naming.recast a) (ℓ.naming.world w'))
    (heap : w'.heap = w.heap) (rows : w'.interpreters = w.interpreters)
    (units : w'.nextUnit = w.nextUnit) (good : Carried.Good (S.realm w) a) :
    Mirrors S w p z z' := by
  intro hr
  have realm : S.realm w' = S.realm w := by
    simp only [Stand.realm, Likeness.realm, rows, units]
  have ready : S.Ready w' := by
    refine { hr with tame := ?_, rows := ?_, self := ?_, here := ?_, fresh := ?_, units := ?_ }
    · rw [realm, heap]; exact hr.tame
    · rw [rows, units]; exact hr.rows
    · rw [realm]; exact hr.self
    · rw [World.row, rows]; exact hr.here
    · rw [units]; exact hr.fresh
    · rw [units]; exact hr.units
  rw [hz, hz']
  refine .ok ready ⟨?_, ?_, ?_, ?_⟩ ?_
  · rw [heap]; exact .refl _ _
  · rw [rows]; exact .refl _ _
  · exact Nat.le_of_eq (congrArg Array.size rows.symm)
  · exact Nat.le_of_eq units.symm
  · rw [realm]; exact good

/-- An operation on the heap. -/
theorem onHeap {z z' : StateM Heap α} (hz : S.Ready w → Turns (S.realm w) w.heap z z') :
    Mirrors S w p (Eval.onHeap z) (Eval.onHeap z') := by
  intro hr
  obtain ⟨tame, kept, good, same⟩ := hz hr hr.tame
  have left : Eval.onHeap z S.env w = .ok (z w.heap).1 { w with heap := (z w.heap).2 } := rfl
  have right : Eval.onHeap z' S.env (ℓ.naming.world w) =
      .ok (z' (ℓ.naming.world w).heap).1
        { ℓ.naming.world w with heap := (z' (ℓ.naming.world w).heap).2 } := rfl
  have same' : z' (ℓ.naming.world w).heap =
      (Carried.carry ℓ.naming.recast (z w.heap).1, (z w.heap).2.recast ℓ.naming.recast) := same
  rw [left, right, same']
  exact .ok { hr with tame := tame } ⟨kept, .refl _ _, Nat.le_refl _, Nat.le_refl _⟩ good

/-- An action may be judged in another course inside of the same imports.  What is expected
to come out of the second action there is handled as it is expected. -/
theorem tryCatchIn {c : Course} (sites : c.sites = S.course.sites) {k k' : Failure → Eval α}
    (hs : k .outOfFuel = Eval.outOfFuel) (hs' : k' .outOfFuel = Eval.outOfFuel)
    (expected : ∀ f w', ℓ.expectation.expects c f →
      ∃ f' w'', k' (.fault f) S.env w' = .error (.fault f') w'' ∧ ℓ.expectation.expects S.course f')
    (hx : Mirrors (S.during c) w q x y)
    (hk : ∀ f f' w', S.Ready w' → S.Steps w w' → ℓ.Alike S.marks f f' →
      (ℓ.strict → q → f.Located) → Mirrors S w' p (k (.fault f)) (k' (.fault f'))) :
    Mirrors S w p (tryCatch x k) (tryCatch y k') := by
  have back : ∀ {w' : World}, (S.during c).Ready w' → S.Ready w' := fun ready =>
    { ready with level := sites ▸ ready.level }
  intro hr
  have ends := hx { hr with level := sites ▸ hr.level }
  change Ends (S.during c) w q (x S.env w) (y S.env (ℓ.naming.world w)) at ends
  generalize hl : x S.env w = l at ends
  generalize hm : y S.env (ℓ.naming.world w) = m at ends
  cases ends with
  | ok ready steps good =>
    rw [Eval.tryCatch_ok hl, Eval.tryCatch_ok hm]
    exact .ok (back ready) ⟨steps.kept, steps.rows, steps.size, steps.units⟩ good
  | fault ready steps alike located =>
    have steps' : S.Steps w _ := ⟨steps.kept, steps.rows, steps.size, steps.units⟩
    rw [Eval.tryCatch_error hl, Eval.tryCatch_error hm]
    exact (hk _ _ _ (back ready) steps' alike located (back ready)).after steps'
  | stopped stops =>
    rw [Eval.tryCatch_error hl, hs]
    refine .stopped ?_
    cases stops with
    | fuel =>
      rw [Eval.tryCatch_error hm, hs']
      exact .fuel
    | heard h => exact .heard h
    | tripped h =>
      obtain ⟨f', w'', hk', expected⟩ := expected _ _ h
      rw [Eval.tryCatch_error hm, hk']
      exact .tripped expected

theorem tryCatch {k k' : Failure → Eval α} (hs : k .outOfFuel = Eval.outOfFuel)
    (hs' : k' .outOfFuel = Eval.outOfFuel)
    (expected : ∀ f w', ℓ.expectation.expects S.course f →
      ∃ f' w'', k' (.fault f) S.env w' = .error (.fault f') w'' ∧ ℓ.expectation.expects S.course f')
    (hx : Mirrors S w q x y)
    (hk : ∀ f f' w', S.Ready w' → S.Steps w w' → ℓ.Alike S.marks f f' →
      (ℓ.strict → q → f.Located) → Mirrors S w' p (k (.fault f)) (k' (.fault f'))) :
    Mirrors S w p (tryCatch x k) (tryCatch y k') :=
  tryCatchIn rfl hs hs' expected hx hk

/-- The overseer is asked before the first action. -/
theorem ask {watch : Course → Occasion → Eval Unit} (ho : ℓ.Oversees watch) {o : Occasion}
    (still : ∀ f, o ≠ .closing f) (meets : S.Ready w → S.Meets w o)
    (hx : S.Passes w o → Mirrors S w p x y) :
    Mirrors S w p (watch S.course o >>= fun _ => x) y := by
  intro hr
  have answers := ho S w o hr (meets hr)
  generalize hl : watch S.course o S.env w = l at answers
  cases answers with
  | passes passes =>
    rw [Eval.bind_ok hl]
    exact hx passes hr
  | stops h =>
    rw [Eval.bind_error hl]
    exact .stopped (.heard h)
  | trips closing => exact absurd closing (still _)

/-- The overseer is asked about the faults of the first action. -/
theorem overseeing {ask : Fault → Eval Unit} (hx : Mirrors S w q x y)
    (hask : ∀ f f' w', S.Ready w' → S.Steps w w' → ℓ.Alike S.marks f f' →
      (ℓ.strict → q → f.Located) →
        Mirrors S w' p (ask f >>= fun _ => (Eval.raise f : Eval α)) (Eval.raise f')) :
    Mirrors S w p (Eval.overseeing ask x) y := by
  rw [← Eval.overseeing_nothing y]
  exact .tryCatch rfl rfl (fun f w' expected => ⟨f, w', rfl, expected⟩) hx hask

theorem discard (hx : Mirrors S w p x y) : Mirrors S w p (discard x) (discard y) := by
  rw [Eval.discard_eq, Eval.discard_eq]
  exact hx.bind fun _ _ _ _ _ => .pure (a := ()) trivial

/-! ### Looking at the world -/

theorem frame {f g : Frame → Eval β}
    (hf : Mirrors S w p (f (w.row S.self.index).frame)
      (g (ℓ.naming.frame (w.row S.self.index).frame))) :
    Mirrors S w p (Eval.frame >>= f) (Eval.frame >>= g) := by
  refine look rfl ?_ hf
  change EStateM.Result.ok ((ℓ.naming.world w).row S.self.index).frame _ = _
  rw [Renaming.row_world]
  rfl

theorem scope {f g : ScopeRef → Eval β}
    (hf : Mirrors S w p (f (w.row S.self.index).frame.scope)
      (g (w.row S.self.index).frame.scope)) :
    Mirrors S w p (Eval.scope >>= f) (Eval.scope >>= g) := by
  refine look rfl ?_ hf
  change EStateM.Result.ok ((ℓ.naming.world w).row S.self.index).frame.scope _ = _
  rw [Renaming.row_world]
  rfl

theorem inHeap {γ γ' : Type} {u : Heap → γ} {u' : Heap → γ'} {f : γ → Eval β} {g : γ' → Eval β}
    (hf : Mirrors S w p (f (u w.heap)) (g (u' (w.heap.recast ℓ.naming.recast)))) :
    Mirrors S w p (Eval.inHeap u >>= f) (Eval.inHeap u' >>= g) :=
  look rfl rfl hf

end Mirrors

end Judgement

/-! ## Faults in their places -/

section Placing

variable {ℓ : Likeness} {S : Stand ℓ} {w : World} {p q : Prop} {span : Span}

theorem Stand.Allows.like (hs : S.Allows p span) {d : Diagnostic}
    (hd : d.code ≠ Code.circular.text) :
    ℓ.Like S.marks (d.at S.here span)
      (d.at (ℓ.naming.origin S.here) (span.moved S.place)) := by
  obtain ⟨spans, units⟩ | ⟨rfl, -⟩ := hs
  · exact .placed d spans units
  · exact .nowhere rfl rfl hd

theorem Trouble.Common.text {t : Trouble} (ht : t.Common) : t.code.text ≠ Code.circular.text := by
  intro same
  refine ht ?_
  cases hc : t.code <;> rw [hc] at same <;> first | rfl | exact absurd same (by decide)

theorem Stand.Allows.lined (hs : S.Allows p span) (hp : p) : 1 ≤ span.start.line := by
  obtain ⟨spans, -⟩ | ⟨-, no⟩ := hs
  · exact ℓ.lined _ _ spans
  · exact absurd hp no

theorem Eval.diagnose_at {env : Env} {o : Origin} (span : Span) (t : Trouble)
    (origin : (w.row env.self.index).frame.origin = o) :
    diagnose span t env w = .ok ((Diagnostic.error t.code.text span t.message).at o span) w := by
  change EStateM.Result.ok ((Diagnostic.error t.code.text span t.message).inText
    (w.row env.self.index).frame.origin.name (w.row env.self.index).frame.origin.text) w = _
  rw [origin, Diagnostic.inText_eq rfl]
  rfl

theorem Stand.Ready.diagnose (hr : S.Ready w) (span : Span) (t : Trouble) :
    Eval.diagnose span t S.env w =
      .ok ((Diagnostic.error t.code.text span t.message).at S.here span) w :=
  Eval.diagnose_at span t hr.here

theorem Stand.Ready.origin_world (hr : S.Ready w) :
    ((ℓ.naming.world w).row S.self.index).frame.origin = ℓ.naming.origin S.here := by
  rw [Renaming.row_world, ← hr.here]
  rfl

theorem Stand.Ready.diagnose_world (hr : S.Ready w) (span : Span) (t : Trouble) :
    Eval.diagnose span t S.env (ℓ.naming.world w) =
      .ok ((Diagnostic.error t.code.text span t.message).at (ℓ.naming.origin S.here) span)
        (ℓ.naming.world w) :=
  Eval.diagnose_at span t hr.origin_world

/-- Both runs diagnose a trouble, each in its place. -/
theorem Mirrors.diagnose {β : Type} [Carried β] {t : Trouble} {f g : Diagnostic → Eval β}
    (hf : Mirrors S w p (f ((Diagnostic.error t.code.text .nowhere t.message).at S.here span))
      (g ((Diagnostic.error t.code.text .nowhere t.message).at (ℓ.naming.origin S.here)
        (span.moved S.place)))) :
    Mirrors S w p (Eval.diagnose span t >>= f) (Eval.diagnose (span.moved S.place) t >>= g) :=
  .ready fun hr => .look (hr.diagnose span t) (hr.diagnose_world _ t) hf

theorem Mirrors.failAt {α : Type} [Carried α] {t : Trouble} (hs : S.Allows p span)
    (ht : t.Common) :
    Mirrors S w p (Eval.failAt span t : Eval α) (Eval.failAt (span.moved S.place) t) :=
  .diagnose (.raise (.runtime (hs.like ht.text)) fun _ => hs.lined)

theorem Mirrors.failAt_bind {α β : Type} [Carried β] {t : Trouble} {f g : α → Eval β}
    (hs : S.Allows p span) (ht : t.Common) :
    Mirrors S w p ((Eval.failAt span t : Eval α) >>= f) ((Eval.failAt (span.moved S.place) t) >>= g) := by
  rw [Eval.failAt, Eval.failAt, Eval.bind_assoc, Eval.bind_assoc]
  exact .diagnose (.raise_bind (.runtime (hs.like ht.text)) fun _ => hs.lined)

theorem Mirrors.fail {α : Type} [Carried α] {t : Trouble} (hp : ¬ p)
    (ht : t.Common) : Mirrors S w p (Eval.fail t : Eval α) (Eval.fail t) :=
  .raise (.unplaced t ht) fun _ h => absurd h hp

theorem Mirrors.fail_bind {α β : Type} [Carried β] {t : Trouble} {f g : α → Eval β} (hp : ¬ p)
    (ht : t.Common) :
    Mirrors S w p ((Eval.fail t : Eval α) >>= f) ((Eval.fail t : Eval α) >>= g) :=
  .raise_bind (.unplaced t ht) fun _ h => absurd h hp

theorem Stand.Ready.relocate (hr : S.Ready w) (hs : S.Allows p span) {d d' : Diagnostic}
    (hd : ℓ.Like S.marks d d') :
    ∃ e e', Eval.relocate span d S.env w = .ok e w ∧
      Eval.relocate (span.moved S.place) d' S.env (ℓ.naming.world w) = .ok e' (ℓ.naming.world w) ∧
      ℓ.Like S.marks e e' ∧ (p → 1 ≤ e.span.start.line) := by
  cases hd with
  | nowhere unplaced source code =>
    have isNowhere : d.span.isNowhere = true := by rw [unplaced]; rfl
    refine ⟨d.at S.here span, d.at (ℓ.naming.origin S.here) (span.moved S.place), ?_, ?_,
      hs.like code, hs.lined⟩
    · rw [Eval.relocate, if_pos isNowhere]
      change EStateM.Result.ok (Diagnostic.inText { d with span } (w.row S.self.index).frame.origin.name
        (w.row S.self.index).frame.origin.text) w = _
      rw [hr.here, Diagnostic.inText_eq (d := { d with span }) source]
      rfl
    · rw [Eval.relocate, if_pos isNowhere]
      change EStateM.Result.ok (Diagnostic.inText { d with span := span.moved S.place }
        ((ℓ.naming.world w).row S.self.index).frame.origin.name
        ((ℓ.naming.world w).row S.self.index).frame.origin.text) (ℓ.naming.world w) = _
      rw [hr.origin_world, Diagnostic.inText_eq (d := { d with span := span.moved S.place }) source]
      rfl
  | @placed d o s spans units =>
    have lined := ℓ.lined o s spans
    have somewhere : ∀ {t : Span}, 1 ≤ t.start.line → ∀ o, ¬ (d.at o t).span.isNowhere = true := by
      intro t ht o no
      change (t.start.line == 0) = true at no
      rw [beq_iff_eq] at no
      omega
    refine ⟨_, _, ?_, ?_, .placed d spans units, fun _ => lined⟩
    · rw [Eval.relocate, if_neg (somewhere lined o)]
      rfl
    · rw [Eval.relocate, if_neg (somewhere (Renaming.line_place lined) _)]
      rfl

theorem Stand.Ready.place (hr : S.Ready w) (hs : S.Allows p span) {f f' : Fault}
    (hf : ℓ.Alike S.marks f f') :
    ∃ g g', Eval.place span f S.env w = .ok g w ∧
      Eval.place (span.moved S.place) f' S.env (ℓ.naming.world w) = .ok g' (ℓ.naming.world w) ∧
      ℓ.Alike S.marks g g' ∧ (p → g.Located) := by
  have known : ∀ t : Trouble, _ := fun t => hr.diagnose span t
  have known' : ∀ t : Trouble, _ := fun t => hr.diagnose_world (span.moved S.place) t
  cases hf with
  | source e =>
    exact ⟨_, _, Eval.bind_ok (known _) _, Eval.bind_ok (known' _) _,
      .caused (hs.like (Trouble.Common.text (t := ⟨.native, ""⟩) (.of rfl))) (.source e), hs.lined⟩
  | plain message =>
    exact ⟨_, _, Eval.bind_ok (known _) _, Eval.bind_ok (known' _) _,
      .caused (hs.like (Trouble.Common.text (t := ⟨.native, ""⟩) (.of rfl))) (.plain message), hs.lined⟩
  | unplaced t common =>
    exact ⟨_, _, Eval.bind_ok (known _) _, Eval.bind_ok (known' _) _, .runtime (hs.like common.text),
      hs.lined⟩
  | runtime hd =>
    obtain ⟨e, e', he, he', alike, located⟩ := hr.relocate hs hd
    exact ⟨_, _, Eval.bind_ok he _, Eval.bind_ok he' _, .runtime alike, located⟩
  | caused hd hc =>
    obtain ⟨e, e', he, he', alike, located⟩ := hr.relocate hs hd
    exact ⟨_, _, Eval.bind_ok he _, Eval.bind_ok he' _, .caused alike hc, located⟩
  | missing name searched hd =>
    obtain ⟨e, e', he, he', alike, located⟩ := hr.relocate hs hd
    exact ⟨_, _, Eval.bind_ok he _, Eval.bind_ok he' _, .missing name searched alike, located⟩

/-- A fault that has a place stays there. -/
theorem Fault.Settled.place {f : Fault} (hf : f.Settled) (span : Span) (env : Env) (w : World) :
    Eval.place span f env w = .ok f w := by
  have stays : ∀ d : Diagnostic, 1 ≤ d.span.start.line → Eval.relocate span d env w = .ok d w := by
    intro d hd
    have somewhere : ¬ d.span.isNowhere = true := by
      intro no
      change (d.span.start.line == 0) = true at no
      rw [beq_iff_eq] at no
      omega
    rw [Eval.relocate, if_neg somewhere]
    rfl
  cases f with
  | runtime d cause => exact Eval.bind_ok (stays d hf) _
  | moduleNotFound d name searched => exact Eval.bind_ok (stays d hf) _
  | _ => exact hf.elim

/-- A fault that comes out of an action is put in its place. -/
theorem Mirrors.placed {α : Type} [Carried α] {x y : Eval α} (hs : S.Allows p span)
    (hx : Mirrors S w q x y) :
    Mirrors S w p (Eval.placed span x) (Eval.placed (span.moved S.place) y) := by
  refine .tryCatch rfl rfl (fun f w' expected => ⟨f, w', ?_, expected⟩) hx
    fun f f' w' ready _ alike _ => ?_
  · exact Eval.bind_ok ((ℓ.expectation.settled _ f expected).place _ _ _) _
  obtain ⟨g, g', hg, hg', placed, located⟩ := ready.place hs alike
  exact .look hg hg' (.raise placed fun _ => located)

theorem Mirrors.ofExcept {α : Type} [Carried α] {r : Except Trouble α} (hp : ¬ p)
    (hr : Carried.Good (S.realm w) r) :
    Mirrors S w p (Eval.ofExcept r) (Eval.ofExcept (r.map (Carried.carry ℓ.naming.recast))) := by
  cases r with
  | ok a => exact .pure hr
  | error t => exact .fail hp hr

theorem Mirrors.ofExceptAt {α : Type} [Carried α] {r : Except Trouble α} (hs : S.Allows p span)
    (hr : Carried.Good (S.realm w) r) :
    Mirrors S w p (Eval.ofExceptAt span r)
      (Eval.ofExceptAt (span.moved S.place) (r.map (Carried.carry ℓ.naming.recast))) := by
  cases r with
  | ok a => exact .pure hr
  | error t => exact .failAt hs hr

theorem Mirrors.ofHeapOp {α : Type} [Carried α] {z z' : HeapOp α} (hp : ¬ p)
    (hz : S.Ready w → HeapOp.Turns (S.realm w) w.heap z z') :
    Mirrors S w p (Eval.ofHeapOp z) (Eval.ofHeapOp z') :=
  (Mirrors.onHeap hz).bind fun _ _ _ _ good => .ofExcept hp good

theorem Mirrors.ofHeapOpAt {α : Type} [Carried α] {z z' : HeapOp α} (hs : S.Allows p span)
    (hz : S.Ready w → HeapOp.Turns (S.realm w) w.heap z z') :
    Mirrors S w p (Eval.ofHeapOpAt span z) (Eval.ofHeapOpAt (span.moved S.place) z') :=
  (Mirrors.onHeap hz).bind fun _ _ _ _ good => .ofExceptAt hs good

end Placing

end Pseudocode
