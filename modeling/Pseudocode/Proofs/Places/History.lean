import Pseudocode.Proofs.Composition.Program
import Pseudocode.Proofs.Execution.Session
import Pseudocode.Proofs.Places.Importing
import Pseudocode.Proofs.Places.Mirror
/-
# `Proofs.Places.History` — sessions and the texts they ran

`Session.Ran texts s` says that a session comes about when it runs these texts, and answers
other requests in between.  A request may name any value of the session; a subroutine among
them is written in one of the texts, or in a module.  No session goes on after a request
that gets no answer.

A session executes code that is written in the texts it ran, or in those of modules.
`Likeness.plain` is the likeness of a run to itself, in which code is written there.  Execution
may stand in a session between any two requests (`Ran.ready`), and a request is answered alike by
two machines that are alike (`opens_request`).
-/
namespace Pseudocode

/-! ## Places in a text -/

theorem Position.Exact.offset_nonneg {source : String} {p : Position} (h : p.Exact source) :
    0 ≤ p.offset := by
  obtain ⟨before, after, -, counts⟩ := h
  rw [counts.offset]
  omega

theorem Position.Exact.offset_le {source : String} {p : Position} (h : p.Exact source) :
    p.offset ≤ source.utf8ByteSize := by
  obtain ⟨before, after, rfl, counts⟩ := h
  rw [counts.offset, String.utf8ByteSize_append]
  omega

/-! ## What a session knows -/

/-- A span of code that is written in a text: in one of some texts, each with the name it
is read under, or in the text of a module. -/
def Setup.Written (setup : Setup) (texts : List (String × String)) (o : Origin) (s : Span) : Prop :=
  ((o.name, o.text) ∈ texts ∨ setup.Offers o.name o.text) ∧
    ∃ tree, parse o.text o.name = .ok tree ∧ s ∈ tree.spans

namespace Setup.Written

variable {setup : Setup} {texts texts' : List (String × String)} {o : Origin} {s : Span}

theorem start (h : setup.Written texts o s) : s.start.Exact o.text := by
  obtain ⟨-, tree, parsed, mem⟩ := h
  exact (exact_of_parse parsed s mem).1

theorem mono (sub : texts ⊆ texts') (h : setup.Written texts o s) : setup.Written texts' o s :=
  ⟨h.1.imp_left fun known => sub known, h.2⟩

end Setup.Written

theorem Setup.lined_written (setup : Setup) (texts : List (String × String)) (o : Origin)
    (s : Span) (h : setup.Written texts o s) : 1 ≤ s.start.line :=
  h.start.inText

/-! ## A run and itself -/

namespace Renaming

/-- Every unit stays what it is. -/
def identity : Renaming where
  unit := id
  text _ := id
  shift _ := ⟨0, 0⟩
  lists _ _ := false
  mutes := false
  unit_zero := rfl
  text_zero := rfl
  down _ := Int.le_refl 0

/-- Every unit stays what it is, and there may be no observers any more. -/
def muting (mutes : Bool) : Renaming := { identity with mutes }

theorem leaves_identity (u : Nat) : identity.Leaves u :=
  ⟨⟨fun _ => rfl, rfl⟩, fun _ => rfl⟩

theorem leaves_muting (mutes : Bool) (u : Nat) : (muting mutes).Leaves u :=
  ⟨⟨fun _ => rfl, rfl⟩, fun _ => rfl⟩

theorem still_muting (mutes : Bool) : (muting mutes).recast.Still :=
  still_recast (fun _ => rfl) (leaves_muting mutes)

theorem still_identity : identity.recast.Still := still_recast (fun _ => rfl) leaves_identity

@[simp] theorem origin_identity (o : Origin) : identity.origin o = o := rfl

@[simp] theorem world_identity (w : World) : identity.world w = w := by
  have rows : w.interpreters.map identity.interpreter = w.interpreters := Array.map_id _
  rw [world, Heap.recast_still still_identity rfl, rows]
  rfl

end Renaming

/-- No fault is waited for. -/
def Expectation.nothing : Expectation where
  awaits _ _ := False
  expects _ _ := False
  settled _ _ := False.elim
  untried _ _ := False.elim
  circular _ _ _ due := due.elim False.elim False.elim
  wraps _ _ _ due := due.elim False.elim False.elim

theorem Expectation.nothing_silent (c : Course) (f : Fault)
    (due : nothing.awaits c f ∨ nothing.expects c f) : False :=
  due.elim id id

/-- The likeness of a run to itself, or to the same run without observers. -/
def Likeness.along (setup : Setup) (texts : List (String × String)) (strict heard : Prop)
    (expectation : Expectation) (mutes : Bool) (home : String → String → Prop) : Likeness where
  setup := setup
  naming := .muting mutes
  spans := setup.Written texts
  strict := strict
  heard := heard
  same := True
  expectation := expectation
  home := home
  fresh := 0
  lined := setup.lined_written texts
  apart o s o' s' _ _ := by
    simp only [Renaming.muting, Renaming.identity, id, Int.add_zero]
  unit_succ _ _ := rfl
  leaves u _ := Renaming.leaves_muting mutes u
  modules _ _ _ tree _ offered parsed _ mem := ⟨.inr offered, tree, parsed, mem⟩
  unit_same _ _ := rfl
  leaves_same _ := Renaming.leaves_muting mutes
  awaits_same _ _ _ := trivial

/-- The likeness of a run to itself. -/
def Likeness.plain (setup : Setup) (texts : List (String × String)) (strict heard : Prop)
    (expectation : Expectation) : Likeness :=
  .along setup texts strict heard expectation false fun _ _ => True

/-! ## The interpreter of a session -/

/-- Everything is behind these marks. -/
def Marks.outset : Marks := ⟨0, 0, 0, 0, 0, 0, 0, 0, 1, []⟩

namespace Stand

variable {ℓ ℓ' : Likeness} {S : Stand ℓ} {w : World}

/-- The stand of the interpreter of a session. -/
def main (ℓ : Likeness) (here : Origin) : Stand ℓ := ⟨Session.main, here, .outset, .outset⟩

/-- The same stand, for another likeness. -/
def of (S : Stand ℓ) (ℓ' : Likeness) : Stand ℓ' := ⟨S.self, S.here, S.course, S.marks⟩

/-- Where execution may stand, it may stand for another likeness, if code has the same spans,
with some more units used up. -/
theorem Ready.advance (hr : S.Ready w) {next : Nat} (later : w.nextUnit ≤ next)
    (setup : ℓ'.setup = ℓ.setup) (fresh : ℓ'.fresh ≤ next)
    (spans : ∀ o s, S.marks.units ≤ o.unit → o.unit < w.nextUnit → ℓ.spans o s → ℓ'.spans o s)
    (home : ∀ dir name, ℓ.home dir name → ℓ'.home dir name) :
    (S.of ℓ').Ready { w with nextUnit := next } := by
  have grows : (S.realm w).Grows ((S.of ℓ').realm { w with nextUnit := next }) := by
    refine ⟨rfl, Nat.le_refl _, fun f hf => ⟨fun s hs => ?_, ?_, hf.old,
      Nat.lt_of_lt_of_le hf.known later⟩⟩
    · exact spans _ s hf.old hf.known (hf.body s hs)
    · obtain ⟨s, hs, offset⟩ := hf.offset
      exact ⟨s, spans _ s hf.old hf.known hs, offset⟩
  refine ⟨grows.tame hr.tame, ?_, hr.self, hr.here, fresh, Nat.le_trans hr.units later, hr.level,
    hr.numbered⟩
  rw [setup]
  exact hr.rows.mono fun i hi => { hi with
    unit := Nat.lt_of_lt_of_le hi.unit later
    dir := hi.dir.imp_right (home _ _) }

theorem Ready.transfer (hr : S.Ready w) (setup : ℓ'.setup = ℓ.setup) (fresh : ℓ'.fresh ≤ w.nextUnit)
    (spans : ∀ o s, S.marks.units ≤ o.unit → o.unit < w.nextUnit → ℓ.spans o s → ℓ'.spans o s)
    (home : ∀ dir name, ℓ.home dir name → ℓ'.home dir name) : (S.of ℓ').Ready w :=
  hr.advance (Nat.le_refl _) setup fresh spans home

end Stand

namespace Session

variable {s s' : Session} {texts texts' : List (String × String)} {q : Session.Request}
  {strict heard : Prop} {expectation : Expectation} {mutes : Bool}
  {home : String → String → Prop} {r r' : Recursor} {o : Options}

/-! ## Requests -/

/-- The text that a request runs in a session, with the name it is read under. -/
def Request.text? (q : Request) (s : Session) : Option (String × String) :=
  let name := (s.world.row main.index).name
  match q with
  | run source => some (name, source)
  | runFile path =>
    match s.setup.files.read path with
    | .ok text => some (if name = "" then path else name, text)
    | .error _ => none
  | _ => none

/-- A text is run. -/
def Request.Runs : Request → Prop
  | run _ | runFile _ => True
  | _ => False

/-- A subroutine of a session: it is written in one of the texts, or in a module. -/
structure Knows (s : Session) (texts : List (String × String)) (f : Subroutine) : Prop where
  body : ∀ span ∈ f.body.spans, s.setup.Written texts f.origin span
  offset : ∃ span, s.setup.Written texts f.origin span ∧ span.start.offset = f.offset
  unit : 1 ≤ f.origin.unit ∧ f.origin.unit < s.world.nextUnit

/-- What a request names is there in the session. -/
structure Request.Names (q : Request) (s : Session) (texts : List (String × String)) : Prop where
  good : q.Good s
  code : ∀ f, .subroutine f ∈ q.values → s.Knows texts f

/-- The session comes about, set up in this way, when it runs some texts, the last one first in the
list, and answers other requests in between. -/
inductive RanFrom (o : Options) : List (String × String) → Session → Prop
  | start : RanFrom o [] (start o)
  | answer {texts : List (String × String)} {s : Session} (q : Request) : RanFrom o texts s →
      q.Names s texts → (s.answer machine q).1 ≠ .error .outOfFuel →
      RanFrom o ((q.text? s).toList ++ texts) (s.answer machine q).2

/-- The session comes about when it runs some texts, however it was set up. -/
def Ran (texts : List (String × String)) (s : Session) : Prop := ∃ o, RanFrom o texts s

theorem RanFrom.ran (h : RanFrom o texts s) : Ran texts s := ⟨o, h⟩

theorem Ran.start (o : Options) : Ran [] (Session.start o) := RanFrom.start.ran

theorem Ran.answer (q : Request) (h : Ran texts s) (names : q.Names s texts)
    (answered : (s.answer machine q).1 ≠ .error .outOfFuel) :
    Ran ((q.text? s).toList ++ texts) (s.answer machine q).2 := by
  obtain ⟨o, h⟩ := h
  exact (h.answer q names answered).ran

theorem RanFrom.reachable (h : RanFrom o texts s) : s.Reachable := by
  induction h with
  | start => exact .start o
  | answer q _ names _ ih => exact .answer q ih names.good

theorem Ran.reachable (h : Ran texts s) : s.Reachable := by
  obtain ⟨o, h⟩ := h
  exact h.reachable

/-- A session that is set up at home stays there. -/
theorem RanFrom.atHome (h : RanFrom o texts s) (home : AtHome o.dir o.name) :
    AtHome (s.world.row main.index).dir (s.world.row main.index).name := by
  induction h with
  | start =>
    have row : (Session.start o).world.row main.index = (bareWorld o).row main.index := by
      rw [World.row, World.row, (start_fresh o).interpreters]
    rw [row]
    exact home
  | answer q ran names _ ih => exact ran.reachable.settled.atHome_answer names.good ih

/-- The stand of a session between two requests, for a run along with another one. -/
def standAlong (s : Session) (texts : List (String × String)) (strict heard : Prop)
    (expectation : Expectation) (mutes : Bool) (home : String → String → Prop) :
    Stand (.along s.setup texts strict heard expectation mutes home) :=
  .main _ (s.world.row main.index).frame.origin

/-- The stand of a session between two requests, for a run and itself. -/
def stand (s : Session) (texts : List (String × String)) (strict heard : Prop)
    (expectation : Expectation) : Stand (.plain s.setup texts strict heard expectation) :=
  s.standAlong texts strict heard expectation false fun _ _ => True

theorem Knows.defined (h : s.Knows texts f) :
    (Likeness.along s.setup texts strict heard expectation mutes home).Defined 1 s.world.nextUnit f :=
  ⟨h.body, h.offset, h.unit.1, h.unit.2⟩

/-- What a request names may be held. -/
theorem Request.Names.holds (h : q.Names s texts) {v : Value} (hv : v ∈ q.values) :
    ((s.standAlong texts strict heard expectation mutes home).realm s.world).Holds v := by
  have within := h.good v hv
  cases v with
  | builtin b =>
    obtain ⟨number, name, action⟩ := b
    have home : ∀ {id : InterpreterId}, id.index < s.world.interpreters.size →
        ((s.standAlong texts strict heard expectation mutes home).realm s.world).Home id :=
      fun known => ⟨Nat.zero_le _, known⟩
    cases action with
    | input id => exact home within
    | toText id => exact home within
    | probe f id counter => exact home within
    | arrayAppend a | arrayPop a | arrayInsert a | arrayLength a => exact Nat.zero_le _
    | dictKeys d | dictValues d | dictHas d | dictRemove d | dictLength d => exact Nat.zero_le _
    | _ => trivial
  | subroutine f =>
    refine ⟨(h.code f hv).defined, Nat.zero_le _, fun owner _ => ?_⟩
    cases owner <;> exact Nat.zero_le _
  | none | gap => trivial
  | bool b => trivial
  | int n => trivial
  | real x => trivial
  | string t => trivial
  | recordType t => trivial
  | _ => exact Nat.zero_le _

theorem all_dictOf {P : Value → Prop} : ∀ (entries : List (Value × Value)) {d : Dictionary}, d.All P →
    (∀ e ∈ entries, P e.2) →
      (entries.foldl (fun d e => (d.insert? e.1 e.2).getD d) d).All P
  | [], _, hd, _ => hd
  | e :: entries, d, hd, he => by
    refine all_dictOf entries ?_ fun a ha => he a (List.mem_cons_of_mem e ha)
    dsimp only
    cases inserted : d.insert? e.1 e.2 with
    | none => exact hd
    | some d' => exact hd.insert? (he e List.mem_cons_self) inserted

/-- A request that runs no text is answered alike. -/
theorem mirrors_ask (hr : Mirroring (s.standAlong texts strict heard expectation mutes home) r r')
    (names : q.Names s texts) (runs : ¬ q.Runs) :
    Mirrors (s.standAlong texts strict heard expectation mutes home) s.world q.Runs (q.action r) (q.action r') := by
  have still := Renaming.still_muting mutes
  have values : ∀ vs : List Value, vs.map (Value.recast (Renaming.muting mutes).recast) = vs := fun vs => by
    rw [Value.map_recast_still still, List.map_id]
  cases q with
  | run source => exact absurd trivial runs
  | runFile path => exact absurd trivial runs
  | call callee args =>
    have called := (hr.call_here (w := s.world) (p := False)
      (Stand.allows_nowhere id) (names.holds List.mem_cons_self)
      fun v hv => names.holds (List.mem_cons_of_mem callee hv)).discard
    change Mirrors _ _ _ _ (discard (r'.call (callee.recast (Renaming.muting mutes).recast)
      (args.map (Value.recast (Renaming.muting mutes).recast)) .nowhere)) at called
    rw [Value.recast_still still, values] at called
    exact called
  | str v =>
    have shown := (hr.str_here (names.holds List.mem_cons_self)).discard
    change Mirrors _ _ _ _ (discard (r'.str (v.recast (Renaming.muting mutes).recast))) at shown
    rwa [Value.recast_still still] at shown
  | repr v =>
    have shown := (hr.repr_here (names.holds List.mem_cons_self)).discard
    change Mirrors _ _ _ _ (discard (r'.repr (v.recast (Renaming.muting mutes).recast))) at shown
    rwa [Value.recast_still still] at shown
  | newArray elements =>
    have made := (Mirrors.newArray (S := s.standAlong texts strict heard expectation mutes home) (w := s.world)
      (p := False) fun v hv => names.holds hv).discard
    change Mirrors _ _ _ _
      (discard (Eval.newArray (elements.map (Value.recast (Renaming.muting mutes).recast)))) at made
    rw [values] at made
    exact made
  | newDict entries =>
    have made := (Mirrors.newDict (S := s.standAlong texts strict heard expectation mutes home) (w := s.world)
      (p := False) (all_dictOf entries Dictionary.All.empty fun e he =>
        names.holds (List.mem_map_of_mem he))).discard
    change Mirrors _ _ _ _
      (discard (Eval.newDict ((dictOf entries).recast (Renaming.muting mutes).recast))) at made
    rw [Dictionary.recast_still still] at made
    exact made
  | drain => cases mutes <;> exact .step (a := ()) rfl rfl rfl rfl rfl trivial

/-- The interpreter of a session when it runs a file. -/
def atFile (setup : Setup) (path : String) (i : Interpreter) : Interpreter :=
  { i with
    dir := if i.dir = "" then Path.directory path else i.dir
    name := if i.name = "" then path else i.name
    importing := [Path.absolute setup.files.working path] }

/-- To run a file is to run its text from there on. -/
theorem action_runFile {path text : String} (r : Recursor) (found : s.setup.files.read path = .ok text)
    (w : World) : (Request.runFile path).action r ⟨s.setup, main⟩ w =
      Run.runSource r text ⟨s.setup, main⟩ (w.changing main (atFile s.setup path)) := by
  have look : (read : Eval Env) ⟨s.setup, main⟩ w = .ok ⟨s.setup, main⟩ w := rfl
  rw [Request.action, Eval.bind_ok look]
  dsimp only
  rw [found]
  exact Eval.bind_ok look _

theorem action_runFile_error {path e : String} (r : Recursor)
    (found : s.setup.files.read path = .error e) (w : World) :
    (Request.runFile path).action r ⟨s.setup, main⟩ w =
      Eval.raise (.plain s!"read {path}: {e}") ⟨s.setup, main⟩ w := by
  have look : (read : Eval Env) ⟨s.setup, main⟩ w = .ok ⟨s.setup, main⟩ w := rfl
  rw [Request.action, Eval.bind_ok look]
  dsimp only
  rw [found]

/-- The interpreter of a session may begin with one file. -/
theorem ready_atFile (ready : (s.standAlong texts strict heard expectation mutes home).Ready s.world)
    (path : String)
    (homes : home (atFile s.setup path (s.world.row main.index)).dir
      (atFile s.setup path (s.world.row main.index)).name) :
    (s.standAlong texts strict heard expectation mutes home).Ready
      (s.world.changing main (atFile s.setup path)) := by
  refine ready.change (o := (s.world.row main.index).frame.origin) (fun hi =>
    { hi with
      acyclic := List.pairwise_singleton _ _
      nested := List.nil_prefix
      chained := ⟨_, [], (List.append_nil _).symm, Nat.le_refl _, List.forall_mem_nil _⟩
      dir := .inr homes
      lexical := fun outside => ?_ }) rfl
  rcases hi.lexical outside with none | own | unnamed
  · exact .inl none
  · by_cases unnamed : (s.world.row main.index).name = ""
    · exact .inr (.inr (own.trans unnamed))
    · exact .inr (.inl (own.trans (if_neg unnamed).symm))
  · exact .inr (.inr unnamed)

/-- A request is answered alike by two machines that are alike. -/
theorem opens_request (hr : Mirroring (s.standAlong texts strict heard expectation mutes home) r r')
    (ready : (s.standAlong texts strict heard expectation mutes home).Ready s.world)
    (names : q.Names s texts) (known : ∀ e, q.text? s = some e → e ∈ texts)
    (homes : ∀ path text, q = .runFile path → s.setup.files.read path = .ok text →
      home (atFile s.setup path (s.world.row main.index)).dir
        (atFile s.setup path (s.world.row main.index)).name) :
    (s.standAlong texts strict heard expectation mutes home).Opens s.world q.Runs
      (q.action r ⟨s.setup, main⟩ s.world)
      (q.action r' ⟨s.setup, main⟩ ((Renaming.muting mutes).world s.world)) := by
  by_cases runs : q.Runs
  · cases q with
    | run source =>
      exact opens_runSource (p := True) hr ready source fun tree parsed span mem =>
        ⟨.inl (known _ rfl), tree, parsed, mem⟩
    | runFile path =>
      dsimp only [Request.text?] at known
      cases found : s.setup.files.read path with
      | error e =>
        rw [action_runFile_error r found, action_runFile_error r' found]
        exact Mirrors.opens (p := True) (.raise (.plain _) fun _ _ => trivial) ready
      | ok text =>
        rw [found] at known
        have row : (s.world.changing main (atFile s.setup path)).row main.index =
            atFile s.setup path (s.world.row main.index) := World.row_changing _ ready.self.2 _
        rw [action_runFile r found, action_runFile r' found,
          ← Renaming.world_changing (f := atFile s.setup path) s.world main fun _ => rfl]
        have opened := opens_runSource (p := True) hr (ready_atFile ready path (homes path text rfl found))
          text fun tree parsed span mem => ⟨.inl ?_, tree, parsed, mem⟩
        · exact opened.before (Stand.leads_changing _ _)
        · change (((s.world.changing main (atFile s.setup path)).row main.index).name, text) ∈ texts
          rw [row]
          exact known _ rfl
    | _ => exact runs.elim
  · exact (mirrors_ask hr names runs).opens ready

/-! ## Between requests -/

theorem oversees_nothing {setup : Setup} (lax : ¬ strict) :
    (Likeness.along setup texts strict heard expectation mutes home).Oversees fun _ _ => pure () := by
  refine fun T w o _ _ => .passes ?_
  cases o with
  | calling callee args =>
    cases callee with
    | builtin b => exact fun _ => .inl trivial
    | _ => trivial
  | undisplayed f => exact fun h => absurd h lax
  | returning span v => exact fun h => absurd h Bool.false_ne_true
  | _ => trivial

/-- A machine does what it does. -/
theorem mirroring_machine (n : Nat) (S : Stand (.along s.setup texts strict heard expectation mutes home)) (lax : ¬ strict) :
    Mirroring S (Run.run n) (Run.run n) := by
  have mirrored := mirroring_overseen (oversees_nothing lax)
    (.inl ⟨rfl, fun _ _ => rfl⟩ : _ = n ∧ _ ∨ _) S
  rwa [Run.overseen_nothing] at mirrored

/-- Where a session stands after a request that was answered. -/
theorem ready_perform {x : Eval Unit} {y : EStateM.Result Failure World Unit} {p : Prop}
    (opens : (s.standAlong texts strict heard expectation mutes home).Opens s.world p (x ⟨s.setup, main⟩ s.world) y)
    (answered : (s.perform x).1 ≠ .error .outOfFuel) :
    ((s.perform x).2.standAlong texts strict heard expectation mutes home).Ready (s.perform x).2.world := by
  obtain ⟨o, w₀, -, -, ends⟩ := opens
  have stands : ∀ w', ((s.standAlong texts strict heard expectation mutes home).within o).Ready w' →
      (Session.standAlong { s with world := w' } texts strict heard expectation mutes home).Ready w' := by
    intro w' ready
    have here : (w'.row main.index).frame.origin = o := ready.here
    rw [standAlong, here]
    exact ready
  rw [perform] at answered ⊢
  generalize x ⟨s.setup, main⟩ s.world = l at ends answered ⊢
  cases ends with
  | ok ready => exact stands _ ready
  | fault ready => exact stands _ ready
  | stopped => exact absurd rfl answered

theorem ready_congr (ready : (s.standAlong texts strict heard expectation mutes home).Ready s.world)
    (setup : s'.setup = s.setup) (world : s'.world = s.world) :
    (s'.standAlong texts strict heard expectation mutes home).Ready s'.world := by
  obtain ⟨setup', world', builtins⟩ := s'
  cases setup
  cases world
  exact ready

theorem Request.Names.mono (h : q.Names s texts) (sub : texts ⊆ texts') : q.Names s texts' :=
  ⟨h.good, fun f hf =>
    have known := h.code f hf
    ⟨fun span hs => (known.body span hs).mono sub,
      known.offset.imp fun _ h => ⟨h.1.mono sub, h.2⟩, known.unit⟩⟩

/-- The builtin functions are installed, and the observer is told. -/
theorem complete_eq (observer : Option String) : complete observer =
    Run.install main ⟨0⟩ >>= fun _ => Eval.self >>= fun i =>
      Eval.changeHeap (Heap.modifyScope i.root fun sc => { sc with observer }) := by
  simp only [complete, Eval.discard_eq, bind_assoc, pure_bind]

theorem total_complete (observer : Option String) : (complete observer).Total := by
  rw [complete_eq]
  exact .bind (Run.total_install _ _) fun _ => .bind (fun _ _ => ⟨_, _, rfl⟩) fun _ _ _ => ⟨_, _, rfl⟩

/-- A session is founded like the interpreter of a module. -/
theorem ready_rootedWorld (mutes : Bool) (o : Options) (homes : home o.dir o.name) :
    ((rooted o).standAlong [] False False .nothing mutes home).Ready (rootedWorld o) :=
  Stand.Ready.newborn (ℓ := .along o.setup [] False False .nothing mutes home)
    (w := emptyWorld o.input o.seed) (c := .outset)
    (Nat.zero_le _) (Nat.le_refl _) List.nodup_nil ⟨[], [], rfl, Nat.zero_le _, List.forall_mem_nil _⟩
    (.inr homes) (Nat.le_refl _)

theorem mirrors_complete (o : Options) (homes : home o.dir o.name) :
    Mirrors ((rooted o).standAlong [] False False .nothing mutes home) (rootedWorld o) False
      (complete o.observer) (complete (if mutes then none else o.observer)) := by
  have ready := ready_rootedWorld mutes o homes
  rw [complete_eq, complete_eq]
  refine .bind (mirrors_install ready.self (Nat.zero_le _)) fun _ w _ _ _ => ?_
  refine .look (a := w.row main.index) (b := w.row main.index) rfl ?_ ?_
  · exact congrArg (EStateM.Result.ok · _) (Renaming.row_world w main.index)
  · refine .changeHeap (fun t => t.modifyScope _ fun _ hs => ⟨hs.bindings, hs.parent⟩)
      { Marks.Kept.refl _ _ with scopes := Store.kept_modify (Nat.zero_le _) _ } ?_
    exact (Heap.recast_modifyScope w.heap _ (f := fun sc => { sc with observer := o.observer })
      fun _ => rfl).symm

theorem setup_start (o : Options) : (start o).setup = o.setup := by
  simp only [start, setup_perform]

theorem ready_start (o : Options) (homes : home o.dir o.name) :
    ((start o).standAlong [] False False .nothing mutes home).Ready (start o).world := by
  have opened : ((rooted o).standAlong [] False False .nothing mutes home).Opens (rooted o).world False
      (complete o.observer ⟨(rooted o).setup, main⟩ (rooted o).world) _ :=
    (mirrors_complete o homes).opens (ready_rootedWorld _ o homes)
  have answered : ((rooted o).perform (complete o.observer)).1 ≠ .error .outOfFuel := by
    obtain ⟨a, w', done⟩ := total_complete o.observer ⟨(rooted o).setup, main⟩ (rooted o).world
    rw [perform, done]
    intro h
    cases h
  have started := setup_start o
  have founded := setup_perform (rooted o) (complete o.observer)
  have ready := ready_perform opened answered
  have world : (start o).world = ((rooted o).perform (complete o.observer)).2.world := by
    rw [world_start, rooted]
  exact ready_congr ready (started.trans founded.symm) world

/-- Execution may stand in a session between two requests. -/
theorem RanFrom.ready (h : RanFrom o texts s) (first : home o.dir o.name)
    (homes : ∀ {texts s}, RanFrom o texts s → ∀ path text, s.setup.files.read path = .ok text →
      home (atFile s.setup path (s.world.row main.index)).dir
        (atFile s.setup path (s.world.row main.index)).name) :
    (s.standAlong texts False False .nothing false home).Ready s.world := by
  induction h with
  | start => exact ready_start o first
  | @answer texts s q ran names answered ih =>
    have sub : texts ⊆ (q.text? s).toList ++ texts := List.subset_append_right _ _
    have more : (s.standAlong ((q.text? s).toList ++ texts) False False .nothing false home).Ready
        s.world := ih.transfer rfl (Nat.zero_le _) (fun _ _ _ _ => .mono sub) fun _ _ h => h
    refine ready_perform (opens_request (mirroring_machine _ _ id) more (names.mono sub)
      (fun e he => ?_) fun path text _ => homes ran path text) answered
    rw [he]
    exact List.mem_append_left _ (List.mem_singleton_self e)

theorem Ran.ready (h : Ran texts s) (strict heard : Prop) (expectation : Expectation) :
    (s.stand texts strict heard expectation).Ready s.world := by
  obtain ⟨o, h⟩ := h
  have anywhere : (fun _ _ : String => True) o.dir o.name := trivial
  have plain : (s.stand texts False False .nothing).Ready s.world :=
    h.ready anywhere fun _ _ _ _ => trivial
  exact plain.transfer rfl (Nat.zero_le _) (fun _ _ _ _ h => h) fun _ _ h => h

/-- In a session that is set up at home, all interpreters are. -/
theorem RanFrom.ready_atHome (h : RanFrom o texts s) (home : AtHome o.dir o.name) :
    (s.standAlong texts False False .nothing false AtHome).Ready s.world :=
  h.ready home fun ran _ _ found => (ran.atHome home).begin fun same =>
    FileTree.read_empty _ (same ▸ found)

/-- A request is answered alike by the machine with an overseer and without, within any bound. -/
theorem opens_overseen (n : Nat) {watch : Course → Occasion → Eval Unit}
    (oversees : (Likeness.along s.setup ((q.text? s).toList ++ texts) strict heard expectation mutes
      home).Oversees watch)
    (ready : (s.standAlong texts strict heard expectation mutes home).Ready s.world)
    (names : q.Names s texts)
    (homes : ∀ path text, q = .runFile path → s.setup.files.read path = .ok text →
      home (atFile s.setup path (s.world.row main.index)).dir
        (atFile s.setup path (s.world.row main.index)).name) :
    (s.standAlong ((q.text? s).toList ++ texts) strict heard expectation mutes home).Opens s.world
      q.Runs (q.action (Run.overseen watch n .outset) ⟨s.setup, main⟩ s.world)
      (q.action (Run.run n) ⟨s.setup, main⟩ ((Renaming.muting mutes).world s.world)) := by
  have sub : texts ⊆ (q.text? s).toList ++ texts := List.subset_append_right _ _
  have more : (s.standAlong ((q.text? s).toList ++ texts) strict heard expectation mutes home).Ready
      s.world := ready.transfer rfl (Nat.zero_le _) (fun _ _ _ _ => .mono sub) fun _ _ h => h
  have mirroring := mirroring_overseen oversees (n := n) (m := n) (.inl ⟨rfl, fun _ _ => rfl⟩)
    (s.standAlong _ strict heard expectation mutes home)
  refine opens_request mirroring more (names.mono sub) (fun e he => ?_) homes
  rw [he]
  exact List.mem_append_left _ (List.mem_singleton_self e)

theorem Ran.opens_within (n : Nat) (h : Ran texts s) (names : q.Names s texts)
    {watch : Course → Occasion → Eval Unit}
    (oversees : (Likeness.plain s.setup ((q.text? s).toList ++ texts) strict heard
      expectation).Oversees watch) :
    (s.stand ((q.text? s).toList ++ texts) strict heard expectation).Opens s.world q.Runs
      (q.action (Run.overseen watch n .outset) ⟨s.setup, main⟩ s.world)
      (q.action (Run.run n) ⟨s.setup, main⟩ s.world) := by
  have opened := opens_overseen n oversees (h.ready strict heard expectation) names
    fun _ _ _ _ => trivial
  rwa [show (Renaming.muting false).world s.world = s.world from Renaming.world_identity _] at opened

theorem Ran.opens (h : Ran texts s) (names : q.Names s texts)
    {watch : Course → Occasion → Eval Unit}
    (oversees : (Likeness.plain s.setup ((q.text? s).toList ++ texts) strict heard
      expectation).Oversees watch) :
    (s.stand ((q.text? s).toList ++ texts) strict heard expectation).Opens s.world q.Runs
      (q.action (Run.overseen watch bound .outset) ⟨s.setup, main⟩ s.world)
      (q.action machine ⟨s.setup, main⟩ s.world) := h.opens_within bound names oversees

section Plain

variable {S : Stand (.along s.setup texts strict heard expectation false home)} {w : World} {p : Prop}
  {l k : EStateM.Result Failure World Unit}

/-- A run and itself end in the same way, unless the first is stopped. -/
theorem ends_eq (ends : Ends S w p l k) :
    l = k ∨ ∃ w', l = .error .outOfFuel w' ∧ S.Stops w' k := by
  have same : ∀ w, (Likeness.along s.setup texts strict heard expectation false home).naming.world w = w :=
    Renaming.world_identity
  cases ends with
  | ok => exact .inl (by rw [same])
  | fault _ _ alike => exact .inl (by rw [same, alike.eq fun u _ => (Renaming.leaves_muting false u).toFixes])
  | stopped stops => exact .inr ⟨_, rfl, stops⟩

/-- If it may not be stopped, they end in the same way. -/
theorem ends_eq_undisturbed (ends : Ends S w p l k) (unheard : ¬ heard)
    (unexpected : ∀ c f, ¬ expectation.expects c f) : l = k := by
  have same : ∀ w, (Likeness.along s.setup texts strict heard expectation false home).naming.world w = w :=
    Renaming.world_identity
  obtain same' | ⟨w', rfl, stops⟩ := ends_eq ends
  · exact same'
  cases stops with
  | fuel => rw [same]
  | heard h => exact absurd h unheard
  | tripped expected => exact absurd expected (unexpected _ _)

end Plain

theorem answer_congr {q : Request}
    (same : q.action r ⟨s.setup, main⟩ s.world = q.action r' ⟨s.setup, main⟩ s.world) :
    s.answer r q = s.answer r' q := by
  rw [answer, answer, perform, perform, same]

theorem answer_outOfFuel {q : Request} {w' : World}
    (stopped : q.action r ⟨s.setup, main⟩ s.world = .error .outOfFuel w') :
    (s.answer r q).1 = .error .outOfFuel := by
  rw [answer, perform, stopped]

/-- Unless it is stopped, the machine with an overseer gives the same answer. -/
theorem Ran.answer_eq (h : Ran texts s) (names : q.Names s texts)
    {watch : Course → Occasion → Eval Unit}
    (oversees : (Likeness.plain s.setup ((q.text? s).toList ++ texts) strict heard
      expectation).Oversees watch)
    (calm : (s.answer (Run.overseen watch bound .outset) q).1 ≠ .error .outOfFuel) :
    s.answer (Run.overseen watch bound .outset) q = s.answer machine q := by
  obtain ⟨o, w₀, -, -, ends⟩ := h.opens names oversees
  obtain same | ⟨w', stopped, -⟩ := ends_eq ends
  · exact answer_congr same
  · exact absurd (answer_outOfFuel stopped) calm

/-- An overseer that may not stop the machine makes no difference. -/
theorem Ran.answer_undisturbed (n : Nat) (h : Ran texts s) (names : q.Names s texts)
    {watch : Course → Occasion → Eval Unit}
    (oversees : (Likeness.plain s.setup ((q.text? s).toList ++ texts) strict False
      .nothing).Oversees watch) :
    s.answer (Run.overseen watch n .outset) q = s.answer (Run.run n) q := by
  obtain ⟨o, w₀, -, -, ends⟩ := h.opens_within n names oversees
  exact answer_congr (ends_eq_undisturbed ends id fun _ _ => id)

/-! ## What a session shows -/

section Shown

variable {σ : Renaming} (world : s'.world = σ.world s.world) (builtins : s'.builtins = s.builtins)

include world

theorem root_renamed : s'.root = s.root := by
  have row : (σ.world s.world).row main.index = σ.interpreter (s.world.row main.index) :=
    Renaming.row_world s.world main.index
  have root : ((σ.world s.world).row main.index).root = (s.world.row main.index).root := by
    rw [row]
    rfl
  rw [Session.root, world]
  exact root

theorem get_renamed (name : String) : s'.get name = (s.get name).recast σ.recast := by
  rw [get, get, root_renamed world, world, Renaming.heap_world, Heap.lookup?_recast]
  cases s.world.heap.lookup? s.root name <;> rfl

include builtins

/-- The bindings of a session do not show where its code stands, nor who is told of writes. -/
theorem bindings_renamed : s'.bindings = s.bindings := by
  have root := root_renamed world
  have get := get_renamed world
  have same : ∀ u v : Value, sameBuiltin u (v.recast σ.recast) = sameBuiltin u v := by
    intro u v
    cases u <;> cases v <;> rfl
  have untouched : ∀ name, s'.untouched name = s.untouched name := by
    intro name
    simp only [Session.untouched, builtins, get, same, world, root, Renaming.heap_world,
      Heap.isConstant_recast]
  simp only [bindings, untouched, get, world, root, Renaming.heap_world, Heap.localNames_recast,
    Heap.typeName_recast, Heap.repr_recast, Heap.isConstant_recast]

end Shown

/-! ## What can be named -/

/-- A request to run a text names no value. -/
theorem Request.Names.of_run (source : String) : (Request.run source).Names s texts :=
  ⟨List.forall_mem_nil _, fun _ h => by cases h⟩

theorem Request.Names.of_runFile (path : String) : (Request.runFile path).Names s texts :=
  ⟨List.forall_mem_nil _, fun _ h => by cases h⟩

end Session

/-! ## Answers -/

namespace Failure

variable {answer : Except Failure Unit}

/-- The fault that there is instead of an answer. -/
def fault? : Except Failure Unit → Option Fault
  | .error (.fault f) => some f
  | _ => none

/-- Is there no answer within the bound? -/
def unanswered : Except Failure Unit → Bool
  | .error .outOfFuel => true
  | _ => false

theorem of_fault? {f : Fault} (h : fault? answer = some f) : answer = .error (.fault f) := by
  rw [fault?.eq_def] at h
  split at h
  · cases h
    rfl
  · cases h

theorem unanswered_iff : unanswered answer = true ↔ answer = .error .outOfFuel := by
  rw [unanswered.eq_def]
  split
  · exact iff_of_true rfl rfl
  next other => exact iff_of_false Bool.false_ne_true other

end Failure

end Pseudocode
