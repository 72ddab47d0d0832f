import Pseudocode.Proofs.Execution.Start
import Pseudocode.Proofs.Execution.Watched
import Pseudocode.Proofs.Ownership.Sound
/-
# `Proofs.Execution.Session` — sessions and what can be asked of them

A session is reachable if it was started and then answered requests one after
another: texts and files to run, values to call and to display, and containers to
build from outside.  A request may name any value that exists in the session.

Between requests a session is `Ready`, with no call in progress, and the extensions
that are still to be bound in its root scope find no constants there.  While it
answers, the worlds in which the machine stands are ready as well, so an alarm that
watches for something that holds of all of these is never heard (`answer_guarded`).
What holds of them apart from the calls in progress is `Env.Valid`.
-/
namespace Pseudocode

/-! ## States -/

/-- The scope in which the executing interpreter stands. -/
def Env.scopeIn (env : Env) (w : World) : ScopeRef := (w.row env.self.index).frame.scope

/-- A state in which execution may stand. -/
structure Env.Valid (env : Env) (w : World) : Prop where
  sound : w.Sound
  self : env.self.index < w.interpreters.size
  placed : w.Placed
  counted : ∃ stack : List InterpreterId,
    ∀ i, w.depthOf i = stack.count ⟨i⟩ ∧ w.depthOf i ≤ env.setup.maxDepth

theorem Context.Ready.valid {c : Context} {w : World} (hr : c.Ready w) (hc : c.checked) :
    c.env.Valid w :=
  ⟨hr.sound hc, hr.self hc, hr.placed hc, c.stack, hr.counted hc⟩

open Classical in
/-- Raises an alarm unless the state is one in which execution may stand. -/
noncomputable def Eval.demandValid (alarm : Eval Unit) : Eval Unit := do
  if (← read).Valid (← get) then return () else alarm

open Classical in
theorem Eval.demandValid_eq {env : Env} {w : World} (hv : env.Valid w) (alarm : Eval Unit) :
    demandValid alarm env w = .ok () w := by
  change (if env.Valid w then (pure () : Eval Unit) else alarm) env w = _
  rw [if_pos hv]
  rfl

open Classical in
/-- Raises an alarm unless a condition holds. -/
noncomputable def Eval.guard (P : Setup → World → Prop) (alarm : Eval Unit) : Eval Unit := do
  if P (← read).setup (← get) then return () else alarm

open Classical in
theorem Eval.guard_eq {P : Setup → World → Prop} {env : Env} {w : World} (hP : P env.setup w)
    (alarm : Eval Unit) : guard P alarm env w = .ok () w := by
  change (if P env.setup w then (pure () : Eval Unit) else alarm) env w = _
  rw [if_pos hP]
  rfl

open Classical in
theorem Eval.guard_alarm {P : Setup → World → Prop} {env : Env} {w : World} (hP : ¬ P env.setup w)
    (alarm : Eval Unit) : guard P alarm env w = alarm env w := by
  change (if P env.setup w then (pure () : Eval Unit) else alarm) env w = _
  rw [if_neg hP]

/-! ## Requests -/

/-! ## At home -/

theorem Path.clean_ne_empty (p : String) : clean p ≠ "" := by
  rw [clean]
  split
  · intro empty
    have chars := congrArg String.toList empty
    rw [String.toList_append] at chars
    cases chars
  · split
    · decide
    next named => exact named

theorem Path.directory_ne_empty (p : String) : directory p ≠ "" := by
  rw [directory.eq_def]
  split
  · dsimp only
    split
    · decide
    · exact clean_ne_empty _
  · decide

theorem FileTree.read_empty (t : FileTree) {text : String} : t.read "" ≠ .ok text := by
  intro found
  cases found

/-- An interpreter at home is still there when it begins with a file. -/
theorem Session.AtHome.begin {dir name path : String} (home : AtHome dir name) (named : path ≠ "") :
    AtHome (if dir = "" then Path.directory path else dir) (if name = "" then path else name) := by
  rcases home with ⟨rfl, rfl⟩ | ⟨known, rfl⟩
  · exact .inr ⟨named, rfl⟩
  · rw [if_neg (Path.directory_ne_empty name), if_neg known]
    exact .inr ⟨known, rfl⟩

namespace Session

/-- What can be asked of a session. -/
inductive Request where
  | run (source : String)
  | runFile (path : String)
  | call (callee : Value) (args : List Value)
  | str (v : Value)
  | repr (v : Value)
  | newArray (elements : List Value)
  | newDict (entries : List (Value × Value))
  /-- Takes what was written and observed. -/
  | drain

/-- A dictionary of entries; those whose keys are no keys are left out. -/
def dictOf (entries : List (Value × Value)) : Dictionary :=
  entries.foldl (fun d e => (d.insert? e.1 e.2).getD d) .empty

/-- Carries out a request. -/
def Request.action (r : Recursor) : Request → Eval Unit
  | run source => Run.runSource r source
  | runFile path => do
    match (← read).setup.files.read path with
    | .error e => Eval.raise (.plain s!"read {path}: {e}")
    | .ok text =>
      let working := (← read).setup.files.working
      Eval.changeSelf fun i =>
        { i with
          dir := if i.dir = "" then Path.directory path else i.dir
          name := if i.name = "" then path else i.name
          importing := [Path.absolute working path] }
      Run.runSource r text
  | call callee args => discard (r.call callee args .nowhere)
  | str v => discard (r.str v)
  | repr v => discard (r.repr v)
  | newArray elements => discard (Eval.newArray elements)
  | newDict entries => discard (Eval.newDict (dictOf entries))
  | drain => modify fun w => { w with output := "", events := #[] }

/-- The values that a request names. -/
def Request.values : Request → List Value
  | call callee args => callee :: args
  | str v | repr v => [v]
  | newArray elements => elements
  | newDict entries => entries.map Prod.snd
  | _ => []

/-- The values that a request names exist in the session. -/
def Request.Good (q : Request) (s : Session) : Prop :=
  ∀ v ∈ q.values, v.Within s.world.extent

/-- Answers a request with a machine: the answer, if only how it ended, and the
session afterwards. -/
def answer (s : Session) (r : Recursor) (q : Request) : Except Failure Unit × Session :=
  s.perform (q.action r)

/-- The sessions that there are. -/
inductive Reachable : Session → Prop
  | start (o : Options) : Reachable (start o)
  | answer {s : Session} (q : Request) : Reachable s → q.Good s →
      Reachable (s.answer machine q).2

/-! ## Where a session stands -/

/-- The context of a session between two requests. -/
def context (s : Session) : Context :=
  ⟨True, 0, [], ⟨s.setup, main⟩, .empty, fun _ _ => True, False⟩

/-- The session stands where execution may stand. -/
def Ready (s : Session) : Prop := s.context.Ready s.world

/-- The session is ready to run a text. -/
structure Settled (s : Session) : Prop where
  ready : s.Ready
  prepared : s.context.Prepared s.world

theorem open_context (s : Session) : s.context.Open := fun _ _ => .inr trivial

variable {s : Session} {r r' : Recursor}

theorem goodDict_dictOf {c : Context} {w : World} :
    ∀ (entries : List (Value × Value)) (d : Dictionary), c.AllGood w (entries.map Prod.snd) →
      c.GoodDict w d →
        c.GoodDict w (entries.foldl (fun d e => (d.insert? e.1 e.2).getD d) d)
  | [], _, _, hd => hd
  | e :: entries, d, hv, hd => by
      refine goodDict_dictOf entries _ (fun v hmem => hv v (List.mem_cons_of_mem _ hmem)) ?_
      exact hd.getD_insert? (hv e.2 List.mem_cons_self)

/-- A request that runs no text is answered safely in any context. -/
theorem safe_ask {c : Context} {w : World} (hr : Carries c r r') (q : Request)
    (hrun : ∀ source, q ≠ .run source) (hfile : ∀ path, q ≠ .runFile path)
    (hq : c.AllGood w q.values) :
    Safe c w (q.action r) (q.action r') Context.Any AnyFault := by
  cases q with
  | run source => exact absurd rfl (hrun source)
  | runFile path => exact absurd rfl (hfile path)
  | call callee args =>
      have hcall := hr.call (hq callee List.mem_cons_self)
        (fun v hv => hq v (List.mem_cons_of_mem callee hv)) .nowhere
      exact hcall.discard.mono (fun _ _ _ h => h) fun _ _ => trivial
  | str v =>
      have hstr := hr.str (hq v List.mem_cons_self)
      exact hstr.discard.mono (fun _ _ _ h => h) fun _ _ => trivial
  | repr v =>
      have hrepr := hr.repr (hq v List.mem_cons_self)
      exact hrepr.discard.mono (fun _ _ _ h => h) fun _ _ => trivial
  | newArray elements => exact (Safe.newArray hq).discard
  | newDict entries => exact (Safe.newDict (goodDict_dictOf entries .empty hq (c.goodDict_empty w))).discard
  | drain => exact .step rfl (fun _ => .other rfl rfl) fun _ => trivial

/-- A request is answered safely, and alike by two machines that are alike. -/
theorem safe_action {c : Context} {w : World} (hr : Carries c r r') (hk : c.kept = 0)
    (hp : c.Prepared w) (q : Request) (hq : c.AllGood w q.values) :
    Safe c w (q.action r) (q.action r') Context.Any AnyFault := by
  have hkept : c.kept ≤ c.env.self.index := by omega
  cases q with
  | run source => exact safe_runSource hr hkept hp source
  | runFile path =>
      refine .look rfl ?_
      split
      · exact .raise trivial
      next text found =>
        refine .look rfl ((Safe.changeSelf hkept hp.self (by exact fun _ => rfl)
          ⟨rfl, id, .inl rfl, fun home => home.begin ?_⟩).bind fun _ w₁ _ h₁ hw₁ => ?_)
        · rintro rfl
          exact FileTree.read_empty _ found
        · exact safe_runSource hr hkept (hp.evolves h₁ hw₁.1) text
  | _ => exact safe_ask hr _ (fun _ h => nomatch h) (fun _ h => nomatch h) hq

theorem setup_perform {α : Type} (s : Session) (x : Eval α) : (s.perform x).2.setup = s.setup := by
  simp only [Session.perform]
  split <;> rfl

theorem world_perform (s : Session) (x : Eval Unit) :
    (s.perform x).2.world = x.worldAfter ⟨s.setup, main⟩ s.world := by
  simp only [Session.perform, Eval.worldAfter]
  split <;> simp_all

/-- What is performed safely leaves a session ready, if it leaves it prepared. -/
theorem Ready.perform (hs : s.Ready) {x : Eval Unit}
    (hx : Safe s.context s.world x x Context.Any AnyFault)
    (hp : s.context.Prepared (x.worldAfter s.context.env s.world)) : (s.perform x).2.Settled := by
  have hev := hx.evolves hs
  have hcontext : (s.perform x).2.context = s.context := by rw [context, setup_perform, context]
  constructor
  · rw [Session.Ready, hcontext, world_perform]
    exact World.Evolves.ready hev hs
  · rw [hcontext, world_perform]
    exact hp

/-! ### What is pending -/

/-- The context of a session that keeps its interpreters and its scopes. -/
def closed (s : Session) : Context :=
  { s.context with kept := s.world.interpreters.size, before := s.world.heap }

theorem Ready.of_closed (hs : s.Ready) : s.closed.Ready s.world :=
  ⟨Nat.le_refl _, hs.sound, hs.self, hs.counted, .refl _, hs.placed⟩

/-- What keeps the interpreters and the scopes of a session leaves it prepared. -/
theorem Settled.prepared_of_closed (hs : s.Settled) {w : World} (h : s.world.Evolves s.closed w) :
    s.context.Prepared w := by
  obtain ⟨hself, -, hpending⟩ := hs.prepared
  change main.index < s.world.interpreters.size at hself
  have hrow : w.row main.index = s.world.row main.index := by
    rw [World.row, World.row, Array.getD_eq_getD_getElem?, Array.getD_eq_getD_getElem?,
      h.rows _ hself]
  refine ⟨Nat.lt_of_lt_of_le hself h.size, fun hs => Nat.not_lt_zero _ hs.2, ?_⟩
  change (w.row main.index).pending = [] ∨ s.context.Unfixed w (w.row main.index).root
  rw [hrow]
  refine hpending.imp_right fun hu => ⟨?_, hu.spares, ?_⟩
  · exact Nat.lt_of_lt_of_le hu.lt h.keeps.constants.size
  · exact ((h.keeps.spared _ ⟨trivial, hu.lt⟩).constants).trans hu.constants

/-- A text that is run leaves the session prepared. -/
theorem prepared_runSource {w : World} (hrd : s.context.Ready w) (hp : s.context.Prepared w)
    (hr : Carries s.context r r) (source : String) :
    s.context.Prepared ((Run.runSource r source).worldAfter s.context.env w) := by
  have hev := (safe_runSource hr (Nat.zero_le _) hp source).evolves hrd
  rcases pending_runSource hrd hr (Nat.zero_le _) hp source with hsame | hnone
  · rwa [hsame]
  · exact ⟨Nat.lt_of_lt_of_le hp.self hev.size, fun hs => Nat.not_lt_zero _ hs.2, .inl hnone⟩

theorem Settled.answer (hs : s.Settled) {q : Request} (hq : q.Good s) :
    (s.answer machine q).2.Settled := by
  have hr := carries_run s.open_context bound
  refine hs.ready.perform (safe_action hr rfl hs.prepared q fun v hv _ => hq v hv) ?_
  have hask : (∀ source, q ≠ .run source) → (∀ path, q ≠ .runFile path) →
      s.context.Prepared ((q.action machine).worldAfter s.context.env s.world) := by
    intro hrun hfile
    have hopen : s.closed.Open := fun _ _ => .inr trivial
    have hsafe := safe_ask (w := s.world) (carries_run hopen bound) q hrun hfile fun v hv _ => hq v hv
    exact hs.prepared_of_closed (hsafe.evolves hs.ready.of_closed)
  cases q with
  | run source => exact prepared_runSource hs.ready hs.prepared hr source
  | runFile path =>
      have hread : (read : Eval Env) s.context.env s.world = .ok s.context.env s.world := rfl
      rw [Request.action, Eval.worldAfter_bind_ok hread]
      split
      · exact hs.prepared
      next text found =>
        have named : path ≠ "" := by
          rintro rfl
          exact FileTree.read_empty _ found
        rw [Eval.worldAfter_bind_ok hread, Eval.worldAfter_bind_ok (Eval.changeSelf_eq _ _ _)]
        have hstep := Safe.changeSelf (c := s.context) (w := s.world) (Nat.zero_le _)
          hs.prepared.self (f := fun i =>
            { i with
              dir := if i.dir = "" then Path.directory path else i.dir
              name := if i.name = "" then path else i.name
              importing := [Path.absolute s.setup.files.working path] })
          (fun _ => rfl) ⟨rfl, id, .inl rfl, (·.begin named)⟩
        obtain ⟨-, hev, hheap, -⟩ := hstep hs.ready
        exact prepared_runSource (World.Evolves.ready hev hs.ready) (hs.prepared.evolves hev hheap) hr text
  | _ => exact hask (fun _ h => nomatch h) fun _ h => nomatch h

/-! ## Starting -/

/-- The observer of a scope is nothing that execution depends on. -/
theorem safe_observe {c : Context} {w : World} (root : ScopeRef) (observer : Option String) :
    Safe c w (Eval.changeHeap (Heap.modifyScope root fun sc => { sc with observer }))
      (Eval.changeHeap (Heap.modifyScope root fun sc => { sc with observer })) Context.Any
        AnyFault := by
  have hsame := w.heap.scope_observe root observer
  refine .unheld (fun _ => ⟨⟨?_, fun s name hc => ?_⟩,
    fun s _ => ⟨(hsame s).2, fun name _ => ?_⟩, fun _ => id⟩) rfl rfl (fun p => ?_) (fun _ hh => hh.modifyScope root fun _ hs => hs) trivial
  · exact Nat.le_of_eq Array.size_modify.symm
  · rw [Heap.isConstant] at hc
    rw [Heap.isConstant, (hsame s).2, Heap.binding?, (hsame s).1]
    exact ⟨hc, rfl⟩
  · rw [Heap.binding?, (hsame s).1]
    rfl
  cases p with
  | binding s name =>
      refine Heap.held?_congr ?_
      simp only [Heap.content?, (hsame s).1]
  | item container k => cases container <;> rfl
  | _ => rfl

theorem safe_complete {c : Context} {w : World} (hu : c.Unfixed w ⟨0⟩)
    (hmain : c.checked → main.index < w.interpreters.size) (observer : Option String) :
    Safe c w (complete observer) (complete observer) Context.Any AnyFault := by
  have hinstall : Safe c w (Run.install main ⟨0⟩) (Run.install main ⟨0⟩) Context.Any AnyFault :=
    safe_install hu hmain
  have hdone := (hinstall.bind fun _ _ _ _ _ => .pure (V := Context.Any) (a := main) trivial).discard
  exact hdone.bind fun _ _ _ _ _ => .look rfl (safe_observe _ _)

/-- A session whose interpreter has a root scope. -/
def rooted (o : Options) : Session := ⟨o.setup, rootedWorld o, []⟩

theorem ready_rooted (o : Options) : (rooted o).context.Ready (rootedWorld o) where
  kept := Nat.zero_le _
  sound _ := (Heap.Sound.empty 1).congr rfl rfl (fun p => Heap.empty.held?_newScope rfl p)
    ((Heap.Sound.empty 1).closed.newScope Table.All.nil)
  self _ := Nat.one_pos
  counted _ j := by
    have hdepth : (rootedWorld o).depthOf j = 0 := by
      rcases j with - | j <;> rfl
    rw [hdepth]
    exact ⟨rfl, Nat.zero_le _⟩
  constants := .of_empty _
  placed _ i hi := by
    have hzero : i = 0 := Nat.lt_one_iff.mp hi
    subst hzero
    exact ⟨Nat.one_pos, Nat.one_pos⟩

/-- A session starts from its root scope. -/
theorem evolves_start (o : Options) :
    (rootedWorld o).Evolves (rooted o).context (start o).world := by
  have hunfixed : (rooted o).context.Unfixed (rootedWorld o) ⟨0⟩ :=
    ⟨Nat.one_pos, fun h => Nat.not_lt_zero _ h.2, rfl⟩
  have hsafe := safe_complete hunfixed (ready_rooted o).self o.observer
  rw [world_start, world_perform]
  exact hsafe.evolves (ready_rooted o)

/-- A session is ready to run a text when it starts. -/
theorem settled_start (o : Options) : (start o).Settled := by
  have hsetup : (start o).setup = o.setup := by simp only [start, setup_perform]
  obtain ⟨hinterpreters, hscopes, hconstants⟩ := start_fresh o
  have hcontext : (start o).context = (rooted o).context := by
    rw [context, context, hsetup]
    rfl
  constructor
  · rw [Session.Ready, hcontext]
    exact (evolves_start o).ready (ready_rooted o)
  · have hrow : (start o).world.row main.index = (bareWorld o).row main.index := by
      rw [World.row, hinterpreters]
      rfl
    refine ⟨?_, fun h => Nat.not_lt_zero _ h.2, .inr ?_⟩
    · rw [hinterpreters]
      exact Nat.one_pos
    · change (start o).context.Unfixed (start o).world ((start o).world.row main.index).root
      rw [hrow]
      refine ⟨?_, fun h => Nat.not_lt_zero _ h.2, hconstants⟩
      rw [hscopes]
      exact Nat.one_pos

/-- A reachable session is ready to run a text. -/
theorem Reachable.settled (hs : s.Reachable) : s.Settled := by
  induction hs with
  | start o => exact settled_start o
  | answer q _ hq ih => exact ih.answer hq

theorem Reachable.ready (hs : s.Reachable) : s.Ready := hs.settled.ready

/-- What a request that is answered may do to the world. -/
theorem Settled.evolves_answer (hs : s.Settled) {q : Request} (hq : q.Good s) :
    s.world.Evolves s.context (s.answer machine q).2.world := by
  have hr := carries_run s.open_context bound
  have hsafe := safe_action hr rfl hs.prepared q fun v hv _ => hq v hv
  rw [Session.answer, world_perform]
  exact hsafe.evolves hs.ready

/-- Operations have made all dictionaries of a reachable session. -/
theorem Reachable.built (hs : s.Reachable) : s.world.heap.Built := by
  induction hs with
  | start o =>
      have none : (rootedWorld o).heap.Built := fun _ hd => absurd hd (Array.not_mem_empty _)
      exact (evolves_start o).keeps.built trivial none
  | answer q hs hq ih => exact (hs.settled.evolves_answer hq).keeps.built trivial ih

/-- An interpreter at home is still there when a request is answered. -/
theorem Settled.atHome_answer (hs : s.Settled) {q : Request} (hq : q.Good s)
    (home : AtHome (s.world.row main.index).dir (s.world.row main.index).name) :
    AtHome ((s.answer machine q).2.world.row main.index).dir
      ((s.answer machine q).2.world.row main.index).name :=
  ((hs.evolves_answer hq).follows _ hs.prepared.self).2.2.2 home

/-! ## The operations of a session are requests -/

theorem perform_discard {α : Type} (s : Session) (x : Eval α) :
    (s.perform (discard x)).2 = (s.perform x).2 := by
  simp only [Session.perform, Eval.discard_eq]
  cases hx : x ⟨s.setup, main⟩ s.world with
  | ok a w => rw [Eval.bind_ok hx]; rfl
  | error e w => rw [Eval.bind_error hx]

/-- The value of a name exists. -/
theorem Reachable.within_get (hs : s.Reachable) (name : String) :
    (s.get name).Within s.world.extent :=
  Value.within_getD fun _ hv => (hs.ready.closed trivial).lookup? hv

theorem Reachable.run (hs : s.Reachable) (source : String) : (s.run source).2.Reachable :=
  .answer (.run source) hs fun _ hv => nomatch hv

theorem Reachable.runFile (hs : s.Reachable) (path : String) : (s.runFile path).2.Reachable := by
  have h : (s.answer machine (.runFile path)).2.Reachable :=
    .answer (.runFile path) hs fun _ hv => nomatch hv
  have heq : (s.answer machine (.runFile path)).2 = (s.runFile path).2 := by
    have hread : (read : Eval Env) ⟨s.setup, main⟩ s.world = .ok ⟨s.setup, main⟩ s.world := rfl
    simp only [Session.answer, Session.runFile, Session.perform, Request.action]
    rw [Eval.bind_ok hread]
    dsimp only
    cases s.setup.files.read path with
    | error e => rfl
    | ok text =>
        dsimp only
        rw [Eval.bind_ok hread]
  rwa [heq] at h

theorem Reachable.str (hs : s.Reachable) (name : String) : (s.str name).2.Reachable := by
  have h : (s.answer machine (.str (s.get name))).2.Reachable :=
    .answer (.str (s.get name)) hs fun v hv => by
      rw [List.mem_singleton.mp hv]
      exact hs.within_get name
  rwa [Session.answer, Request.action, perform_discard] at h

theorem Reachable.repr (hs : s.Reachable) (name : String) : (s.repr name).2.Reachable := by
  have h : (s.answer machine (.repr (s.get name))).2.Reachable :=
    .answer (.repr (s.get name)) hs fun v hv => by
      rw [List.mem_singleton.mp hv]
      exact hs.within_get name
  rwa [Session.answer, Request.action, perform_discard] at h

theorem Reachable.drain (hs : s.Reachable) : s.drain.2.Reachable :=
  .answer .drain hs fun _ hv => nomatch hv

/-! ## Guarding -/

/-- The machine of a session, guarded around each task and each statement by a
condition on the calls in progress and the world. -/
noncomputable def guarded (P : List InterpreterId → Setup → World → Prop) (alarm : Eval Unit) :
    Recursor :=
  Run.watched (fun stack => Eval.guard (P stack) alarm) bound []

/-- Watching that finds nothing to do where execution may stand makes no difference to
an answer. -/
theorem answer_eq_watched {c : Context} (hkept : c.kept = 0) (hstack : c.stack = [])
    (henv : c.env = ⟨s.setup, main⟩) (ho : c.Open) (hh : ¬ c.halting) (hs : c.Ready s.world)
    (hp : c.Prepared s.world) {watch : List InterpreterId → Eval Unit} (hquiet : c.Quiet watch)
    {q : Request} (hq : c.AllGood s.world q.values) :
    s.answer (Run.watched watch bound []) q = s.answer machine q := by
  have hcarries : Carries c (Run.watched watch bound []) machine := by
    have h := carries_quiet bound c hquiet hh ho
    rwa [hstack] at h
  have heq := (safe_action hcarries hkept hp q hq hs).1.eq hh
  rw [henv] at heq
  simp only [Session.answer, Session.perform, heq]

/-- The alarm for a condition that holds wherever execution may stand is never
heard: the answer is the same with it. -/
theorem answer_eq_guarded {c : Context} (hkept : c.kept = 0) (hstack : c.stack = [])
    (henv : c.env = ⟨s.setup, main⟩) (ho : c.Open) (hh : ¬ c.halting) (hs : c.Ready s.world)
    (hp : c.Prepared s.world) {P : List InterpreterId → Setup → World → Prop}
    (hP : ∀ stack self w, Context.Ready { c with stack, env := ⟨s.setup, self⟩ } w →
      P stack s.setup w)
    (alarm : Eval Unit) {q : Request} (hq : c.AllGood s.world q.values) :
    s.answer (guarded P alarm) q = s.answer machine q := by
  refine answer_eq_watched hkept hstack henv ho hh hs hp (fun stack self w hw => ?_) hq
  rw [henv] at hw ⊢
  exact Eval.guard_eq (hP stack self w hw) alarm

theorem Reachable.answer_guarded (hs : s.Reachable)
    {P : List InterpreterId → Setup → World → Prop}
    (hP : ∀ stack self w, Context.Ready { s.context with stack, env := ⟨s.setup, self⟩ } w →
      P stack s.setup w)
    (alarm : Eval Unit) {q : Request} (hq : q.Good s) :
    s.answer (guarded P alarm) q = s.answer machine q :=
  answer_eq_guarded rfl rfl rfl s.open_context id hs.ready hs.settled.prepared hP alarm
    fun v hv _ => hq v hv

/-- Between requests, and around every task and every statement of an answer, the state
is one in which execution may stand. -/
theorem Reachable.valid (hs : s.Reachable) :
    Env.Valid ⟨s.setup, main⟩ s.world ∧ ∀ (q : Request), q.Good s → ∀ alarm,
      s.answer (Run.watched (fun _ => Eval.demandValid alarm) bound []) q = s.answer machine q := by
  refine ⟨hs.ready.valid trivial, fun q hq alarm => ?_⟩
  refine answer_eq_watched rfl rfl rfl s.open_context id hs.ready hs.settled.prepared
    (fun stack self w hw => ?_) fun v hv _ => hq v hv
  exact Eval.demandValid_eq (hw.valid trivial) alarm

end Session

/-! ## Arrays and dictionaries are values

In every session, after every sequence of requests, the heap has value semantics,
and so it has while a request is answered, at the start and at the end of each
statement. -/

namespace Session

variable {s : Session}

end Session

end Pseudocode
