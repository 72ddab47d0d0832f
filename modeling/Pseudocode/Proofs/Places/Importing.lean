import Pseudocode.Proofs.Execution.Frames
import Pseudocode.Proofs.Places.Opening
import Pseudocode.Run.Machine
/-
# `Proofs.Places.Importing` — imports, mirrored

A module runs behind marks of its own: it comes by nothing that was there before it, so its
faults are at spans of its own units, or of modules that it imports in its turn.  Those
units are left alone by the renaming, so the fault of a module is the same in both runs, and
so is the sentence about it in the fault of the import.

If a fault was waited for and the first run is stopped at it, the second one passes it on
from import to import, or lets it through if modules import each other.
-/
namespace Pseudocode

variable {ℓ : Likeness} {S T : Stand ℓ} {w w' w₁ w₂ : World} {p : Prop} {r r' : Recursor}

/-! ## Marks -/

/-- The marks behind which nothing stands yet. -/
def World.marks (w : World) (importing : List String) : Marks where
  arrays := w.heap.arrays.size
  dicts := w.heap.dicts.size
  records := w.heap.records.size
  classes := w.heap.classes.size
  objects := w.heap.objects.size
  libraries := w.heap.libraries.size
  scopes := w.heap.scopes.size
  interpreters := w.interpreters.size
  units := w.nextUnit
  importing := importing

/-- Marks that are further down. -/
structure Marks.Under (m m' : Marks) : Prop where
  arrays : m.arrays ≤ m'.arrays
  dicts : m.dicts ≤ m'.dicts
  records : m.records ≤ m'.records
  classes : m.classes ≤ m'.classes
  objects : m.objects ≤ m'.objects
  libraries : m.libraries ≤ m'.libraries
  scopes : m.scopes ≤ m'.scopes
  interpreters : m.interpreters ≤ m'.interpreters
  units : m.units ≤ m'.units

namespace Likeness

variable {m m' : Marks}

theorem carries_under (under : m.Under m') {a : Native} (ha : (ℓ.realm m' w).Carries a) :
    (ℓ.realm m w).Carries a := by
  have home : ∀ id, (ℓ.realm m' w).Home id → (ℓ.realm m w).Home id := fun id h =>
    ⟨Nat.le_trans under.interpreters h.1, h.2⟩
  cases a with
  | input id => exact home id ha
  | toText id => exact home id ha
  | probe f id counter => exact home id ha
  | arrayAppend a | arrayPop a | arrayInsert a | arrayLength a => exact Nat.le_trans under.arrays ha
  | dictKeys d | dictValues d | dictHas d | dictRemove d | dictLength d =>
    exact Nat.le_trans under.dicts ha
  | _ => trivial

theorem holds_under (under : m.Under m') {v : Value} (hv : (ℓ.realm m' w).Holds v) :
    (ℓ.realm m w).Holds v := by
  cases v with
  | array r => exact Nat.le_trans under.arrays hv
  | dict r => exact Nat.le_trans under.dicts hv
  | record r => exact Nat.le_trans under.records hv
  | classType r => exact Nat.le_trans under.classes hv
  | object r => exact Nat.le_trans under.objects hv
  | library r => exact Nat.le_trans under.libraries hv
  | module name s => exact Nat.le_trans under.scopes hv
  | builtin b => exact carries_under under hv
  | subroutine f =>
    obtain ⟨code, scope, this⟩ := hv
    refine ⟨⟨code.body, code.offset, Nat.le_trans under.units code.old, code.known⟩,
      Nat.le_trans under.scopes scope, fun owner ho => ?_⟩
    have from' := this owner ho
    cases owner with
    | ofClass r => exact Nat.le_trans under.classes from'
    | ofObject r => exact Nat.le_trans under.objects from'
  | _ => trivial

theorem encloses_under (under : m.Under m') {s : Scope} (hs : (ℓ.realm m' w).Encloses s) :
    (ℓ.realm m w).Encloses s :=
  ⟨hs.bindings.mono fun _ => holds_under under, fun q hq => Nat.le_trans under.scopes (hs.parent q hq)⟩

end Likeness

/-! ## Behind new marks, and back -/

namespace Stand

/-- A stand is behind new marks if it has those of a world, for a chain of imports that
begins with the one in progress. -/
structure Behind (S : Stand ℓ) (w : World) (T : Stand ℓ) : Prop where
  marks : T.marks = w.marks T.marks.importing
  nested : S.marks.importing <+: T.marks.importing
  self : T.self.index = w.interpreters.size

theorem Ready.under (hr : S.Ready w) (hb : S.Behind w T) : S.marks.Under T.marks := by
  rw [hb.marks]
  exact ⟨hr.tame.arrays.size, hr.tame.dicts.size, hr.tame.records.size, hr.tame.classes.size,
    hr.tame.objects.size, hr.tame.libraries.size, hr.tame.scopes.size, hr.rows.size, hr.units⟩

/-- What went on behind new marks leaves execution where it stood. -/
theorem Ready.back (hr : S.Ready w) (hb : S.Behind w T) {o : Origin}
    (ready : (T.within o).Ready w') (led : T.Leads w w') : S.Ready w' ∧ S.Steps w w' := by
  have under := hr.under hb
  obtain ⟨kept, others, size, units⟩ := led
  have rows : Store.Kept w.interpreters.size w.interpreters w'.interpreters := fun i hi =>
    others i hi (by rw [hb.self]; exact Nat.ne_of_lt hi)
  have steps : S.Steps w w' := by
    refine ⟨⟨kept.arrays.of_le under.arrays, kept.dicts.of_le under.dicts,
      kept.records.of_le under.records, kept.classes.of_le under.classes,
      kept.objects.of_le under.objects, kept.libraries.of_le under.libraries,
      kept.scopes.of_le under.scopes⟩, rows, size, units⟩
  have tame := steps.grows.tame hr.tame
  have young := ready.tame
  have holds : ∀ v, ((T.within o).realm w').Holds v → (S.realm w').Holds v := fun _ =>
    Likeness.holds_under under
  refine ⟨⟨?_, ?_, ⟨hr.self.1, Nat.lt_of_lt_of_le hr.self.2 size⟩, ?_, Nat.le_trans hr.fresh units,
    Nat.le_trans hr.units units, hr.level, hr.numbered⟩, steps⟩
  · exact
      { arrays := tame.arrays.lower under.arrays kept.arrays
          (young.arrays.mono fun _ => Slots.All.mono holds)
        dicts := tame.dicts.lower under.dicts kept.dicts
          (young.dicts.mono fun _ => Dictionary.All.mono holds)
        records := tame.records.lower under.records kept.records
          (young.records.mono fun _ => Table.All.mono holds)
        classes := tame.classes.lower under.classes kept.classes
          (young.classes.mono fun _ => Table.All.mono holds)
        objects := tame.objects.lower under.objects kept.objects
          (young.objects.mono fun _ => Table.All.mono holds)
        libraries := tame.libraries.lower under.libraries kept.libraries
          (young.libraries.mono fun _ => Table.All.mono holds)
        scopes := tame.scopes.lower under.scopes kept.scopes
          (young.scopes.mono fun _ => Likeness.encloses_under under) }
  · have old : Store.Young S.marks.interpreters (Interpreter.Stable ℓ.setup ℓ.home S.marks w'.nextUnit)
        w.interpreters := hr.rows.mono fun i hi => { hi with unit := Nat.lt_of_lt_of_le hi.unit units }
    have new : Store.Young T.marks.interpreters (Interpreter.Stable ℓ.setup ℓ.home S.marks w'.nextUnit)
        w'.interpreters := ready.rows.mono fun i hi =>
      { hi with
        root := Nat.le_trans under.scopes hi.root
        scope := Nat.le_trans under.scopes hi.scope
        nested := hb.nested.trans hi.nested }
    refine old.lower under.interpreters ?_ new
    rw [hb.marks]
    exact rows
  · rw [steps.row hr.self.2]
    exact hr.here

end Stand

/-! ## New interpreters -/

/-- The world with one more interpreter, in a root scope of its own. -/
def World.withInterpreter (w : World) (rootName : String) (i : Interpreter) : World :=
  { w with heap := (w.heap.rootScope rootName).2, interpreters := w.interpreters.push i }

/-- An interpreter as it is when it is new. -/
def World.newborn (w : World) (dir name : String) (importing pending : List String) : Interpreter where
  root := ⟨w.heap.scopes.size⟩
  frame := ⟨⟨w.heap.scopes.size⟩, default, 0⟩
  dir := dir
  name := name
  importing := importing
  pending := pending

theorem Run.newInterpreter_bind {α : Type} (rootName dir name : String)
    (importing pending : List String) (k : InterpreterId → Eval α) (env : Env) (w : World) :
    (newInterpreter rootName dir name importing pending >>= k) env w =
      (install ⟨w.interpreters.size⟩ ⟨w.heap.scopes.size⟩ >>= fun _ => k ⟨w.interpreters.size⟩) env
        (w.withInterpreter rootName (w.newborn dir name importing pending)) := by
  have rooted : Eval.onHeap (Heap.rootScope rootName) env w =
      .ok ⟨w.heap.scopes.size⟩ { w with heap := (w.heap.rootScope rootName).2 } := rfl
  have pushed : ∀ i : Interpreter, (modifyGet fun w =>
      (⟨w.interpreters.size⟩, { w with interpreters := w.interpreters.push i }) : Eval InterpreterId)
        env { w with heap := (w.heap.rootScope rootName).2 } =
      .ok ⟨w.interpreters.size⟩ (w.withInterpreter rootName i) := fun _ => rfl
  rw [newInterpreter, Eval.bind_assoc, Eval.bind_ok rooted]
  dsimp only
  rw [Eval.bind_assoc, Eval.bind_ok (pushed _), Eval.bind_assoc]
  simp only [pure_bind]
  rfl

namespace Eval

/-- An action that is the same whoever performs it. -/
def Impersonal {α : Type} (x : Eval α) : Prop :=
  ∀ (setup : Setup) (id id' : InterpreterId) (w : World), x ⟨setup, id⟩ w = x ⟨setup, id'⟩ w

variable {α β : Type} {x : Eval α} {f : α → Eval β}

theorem Impersonal.pure (a : α) : Impersonal (pure a : Eval α) := fun _ _ _ _ => rfl

theorem Impersonal.bind (hx : Impersonal x) (hf : ∀ a, Impersonal (f a)) :
    Impersonal (x >>= f) := by
  intro setup id id' w
  cases hl : x ⟨setup, id⟩ w with
  | ok a w' => rw [bind_ok hl, bind_ok ((hx setup id' id w).trans hl), hf a setup id id']
  | error e w' => rw [bind_error hl, bind_error ((hx setup id' id w).trans hl)]

theorem Impersonal.define (s : ScopeRef) (name : String) (v : Value) (constant : Bool) :
    Impersonal (define s name v constant) := by
  refine .bind (fun _ _ _ _ => rfl) fun _ => .bind (fun _ _ _ _ => rfl) fun e => ?_
  cases e with
  | none => exact .pure ()
  | some e => exact fun _ _ _ _ => rfl

end Eval

open Library in
theorem Run.impersonal_install (home : InterpreterId) (root : ScopeRef) :
    (install home root).Impersonal := by
  have members : ∀ (ms : List (String × Member)) (t : Table Value), (addMembers t ms).Impersonal := by
    intro ms
    induction ms with
    | nil => exact fun t => .pure t
    | cons m ms ih =>
      refine fun t => .bind ?_ fun v => ih _
      cases m.2 with
      | value v => exact .pure v
      | function a => exact fun _ _ _ _ => rfl
  have bound : ∀ t : Table Value, (bindAll root t).Impersonal := by
    intro t
    induction t with
    | nil => exact .pure ()
    | cons e t ih => exact .bind (.define root e.1 e.2 false) fun _ => ih
  refine .bind (members _ []) fun core => .bind (bound core) fun _ => .bind (fun _ _ _ _ => rfl)
    fun l => .bind (.define root "BUILTINS" l false) fun _ => .bind (members _ []) bound

namespace Stand

/-- The stand of an interpreter that is new in a world. -/
def newborn (ℓ : Likeness) (w : World) (c : Course) (importing : List String) : Stand ℓ where
  self := ⟨w.interpreters.size⟩
  here := default
  course := c
  marks := w.marks importing

theorem Ready.newborn {rootName dir name : String} {importing pending : List String} {c : Course}
    (fresh : ℓ.fresh ≤ w.nextUnit) (numbered : 1 ≤ w.nextUnit) (acyclic : importing.Nodup)
    (chained : ℓ.setup.Chains importing) (lies : Setup.Lies dir name ∨ ℓ.home dir name)
    (level : c.sites.length ≤ importing.length) :
    (Stand.newborn ℓ w c importing).Ready
      (w.withInterpreter rootName (w.newborn dir name importing pending)) := by
  have size : (w.interpreters.push (w.newborn dir name importing pending)).size =
      w.interpreters.size + 1 := Array.size_push ..
  have none : ∀ {α : Type} {P : α → Prop} (a : Array α), Store.Young a.size P a :=
    fun a => ⟨Nat.le_refl _, fun i x hi hx => by
      rw [Array.getElem?_eq_none hi] at hx
      cases hx⟩
  refine ⟨⟨none _, none _, none _, none _, none _, none _, ?_⟩, ?_, ⟨Nat.le_refl _, ?_⟩, ?_, fresh,
    Nat.le_refl _, level, numbered⟩
  · exact (none w.heap.scopes).push ⟨Table.All.nil, fun _ h => by cases h⟩
  · refine (none w.interpreters).push ?_
    exact
      { root := Nat.le_refl _
        scope := Nat.le_refl _
        unit := numbered
        acyclic := acyclic
        nested := List.prefix_refl _
        chained := chained
        dir := lies
        lexical := fun _ => .inl rfl }
  · exact Nat.lt_of_lt_of_eq (Nat.lt_succ_self _) size.symm
  · change ((w.withInterpreter rootName (w.newborn dir name importing pending)).row
      w.interpreters.size).frame.origin = default
    simp only [World.row, World.withInterpreter, Heap.getD_push, if_true]
    rfl

end Stand

theorem Renaming.world_withInterpreter {σ : Renaming} (w : World) (rootName dir name : String)
    (importing pending : List String) :
    σ.world (w.withInterpreter rootName (w.newborn dir name importing pending)) =
      (σ.world w).withInterpreter rootName ((σ.world w).newborn dir name importing pending) := by
  have root : (w.heap.recast σ.recast).rootScope rootName =
      (⟨w.heap.scopes.size⟩, (w.heap.rootScope rootName).2.recast σ.recast) := by
    have recast := Heap.recast_newScope (ρ := σ.recast) w.heap ⟨rootName, [], [], none, none⟩
    rwa [Scope.recast_unobserved rfl] at recast
  have size : (w.heap.recast σ.recast).scopes.size = w.heap.scopes.size := Array.size_map
  have newborn : σ.interpreter (w.newborn dir name importing pending) =
      (σ.world w).newborn dir name importing pending := by
    simp only [World.newborn, interpreter, frame, heap_world, size, origin_default]
  simp only [World.withInterpreter, heap_world, root, ← newborn]
  simp only [world, Array.map_push]

/-! ## Running modules -/

section Modules

variable {watch : Course → Occasion → Eval Unit} {machines : Course → Recursor}

/-- A text is run alike, in a unit that is left alone. -/
theorem opens_runSource (hr : Mirroring S r r') (ready : S.Ready w) (text : String)
    (written : ∀ tree, parse text (w.row S.self.index).name = .ok tree →
      ∀ s ∈ tree.spans, ℓ.spans ⟨w.nextUnit, (w.row S.self.index).name, text⟩ s) :
    S.Opens w p (Run.runSource r text S.env w)
      (Run.runSource r' text S.env (ℓ.naming.world w)) := by
  have self : Eval.self S.env w = .ok (w.row S.self.index) w := rfl
  have self' : Eval.self S.env (ℓ.naming.world w) =
      .ok (ℓ.naming.interpreter (w.row S.self.index)) (ℓ.naming.world w) := by
    change EStateM.Result.ok ((ℓ.naming.world w).row S.self.index) _ = _
    rw [Renaming.row_world]
  rw [Run.runSource_eq, Run.runSource_eq, Eval.bind_ok self, Eval.bind_ok self']
  have name : (ℓ.naming.interpreter (w.row S.self.index)).name = (w.row S.self.index).name := rfl
  rw [name]
  cases parsed : parse text (w.row S.self.index).name with
  | error e =>
    exact Mirrors.opens (.raise (.source e) fun _ _ => trivial) ready
  | ok program =>
    have leaves := ℓ.leaves w.nextUnit ready.fresh
    let o : Origin := ⟨w.nextUnit, (w.row S.self.index).name, text⟩
    have body : ∀ w', Mirrors (S.within o) w' p (r.block program) (r'.block program) := by
      intro w'
      have reads : (S.within o).Reads program.spans := fun s hs =>
        ⟨written _ parsed s hs, ready.units⟩
      have mirrored := hr.block S.self o w' program reads
      rw [leaves.block] at mirrored
      exact mirrored.mono fun _ => trivial
    obtain ⟨w₀, entered⟩ := entered_inText ready text fun w' _ => (body w').discard
    rw [leaves.text] at entered
    exact entered.opens

/-- How the text of a module ends. -/
inductive Stand.Closes (T : Stand ℓ) (w : World) :
    EStateM.Result Failure World Unit → EStateM.Result Failure World Unit → Prop
  | ok {o : Origin} {w' : World} : (T.within o).Ready w' → T.Leads w w' →
      Closes T w (.ok () w') (.ok () (ℓ.naming.world w'))
  | fault {o : Origin} {f : Fault} {w' : World} : (T.within o).Ready w' → T.Leads w w' →
      ℓ.Alike T.marks f f → Closes T w (.error (.fault f) w') (.error (.fault f) (ℓ.naming.world w'))
  | fuel {w' : World} : Closes T w (.error .outOfFuel w') (.error .outOfFuel (ℓ.naming.world w'))
  | heard {w' : World} {k : EStateM.Result Failure World Unit} : ℓ.heard →
      Closes T w (.error .outOfFuel w') k
  | tripped {f : Fault} {w' w'' : World} :
      ℓ.expectation.awaits T.course f ∨ ℓ.expectation.expects T.course f →
      (f.isCircular = true → f.Settled) →
      Closes T w (.error .outOfFuel w') (.error (.fault f) w'')

theorem closes_module (ho : ℓ.Oversees watch) (hr : Mirroring T (machines T.course) r')
    (ready : T.Ready w) (fresh : ℓ.fresh ≤ T.marks.units) {m : Run.Found}
    (offered : ℓ.setup.Offers (w.row T.self.index).name m.text) (meets : T.Meets w (.opening m)) :
    T.Closes w (Run.overseenModule watch machines T.course m T.env w)
      (Run.runSource r' m.text T.env (ℓ.naming.world w)) := by
  have answers := ho T w (.opening m) ready meets
  rw [Run.overseenModule]
  generalize hl : watch T.course (.opening m) T.env w = l at answers
  cases answers with
  | stops h =>
    rw [Eval.bind_error hl]
    exact .heard h
  | trips closing => cases closing
  | passes =>
    rw [Eval.bind_ok hl]
    obtain ⟨o, w₀, led, ready₀, ends⟩ := opens_runSource (p := True) hr ready m.text fun tree parsed =>
      ℓ.modules _ _ _ tree ready.fresh offered parsed
    generalize hx : Run.runSource (machines T.course) m.text T.env w = x at ends
    generalize Run.runSource r' m.text T.env (ℓ.naming.world w) = y at ends
    cases ends with
    | ok ready' steps _ =>
      rw [Eval.overseeing, Eval.tryCatch_ok hx]
      exact .ok ready' (led.trans steps.leads.of_within)
    | @fault f f' w' ready' steps alike located =>
      have fixes : ∀ u, T.marks.units ≤ u → ℓ.naming.Fixes u := fun u hu =>
        (ℓ.leaves u (Nat.le_trans fresh hu)).toFixes
      rw [Eval.overseeing, Eval.tryCatch_error hx, alike.eq fixes]
      have alike' : ℓ.Alike T.marks f f := by
        have same := alike.eq fixes
        rw [same] at alike
        exact alike
      -- The overseer is told of the fault.
      have answers := ho (T.within o) w' (.closing f) ready' trivial
      change Stand.Answers _ _ _ (watch T.course (.closing f) T.env w') at answers
      generalize hl : watch T.course (.closing f) T.env w' = l at answers
      dsimp only [Function.comp]
      cases answers with
      | passes _ =>
        rw [Eval.bind_ok hl]
        exact .fault ready' (led.trans steps.leads.of_within) alike'
      | stops h =>
        rw [Eval.bind_error hl]
        exact .heard h
      | trips closing awaits =>
        cases closing
        rw [Eval.bind_error hl]
        exact .tripped (.inl awaits) alike'.settled
    | stopped stops =>
      rw [Eval.overseeing, Eval.tryCatch_error hx]
      cases stops with
      | fuel => exact .fuel
      | heard h => exact .heard h
      | tripped expected => exact .tripped (.inr expected) fun _ => ℓ.expectation.settled _ _ expected

/-- A text that is run on a new interpreter leaves those before it where they stand. -/
theorem Run.rows_runSource (k : Nat) (text : String) {env : Env} {n : Nat} (old : n ≤ env.self.index)
    (known : env.self.index < w.interpreters.size)
    (settled : (w.row env.self.index).pending = []) {i : Nat} (hi : i < n) :
    ((runSource (run k) text).worldAfter env w).interpreters[i]? = w.interpreters[i]? := by
  let c : Context := ⟨False, n, [], env, w.heap, fun _ _ => True, False⟩
  have ready : c.Ready w := ⟨Nat.le_trans old (Nat.le_of_lt known), False.elim, False.elim,
    False.elim, .refl _, False.elim⟩
  have safe := safe_runSource (c := c) (carries_run (fun _ _ => .inr trivial) k) old
    ⟨known, c.not_spares id _, .inl settled⟩ text
  exact (safe.evolves ready).rows i hi

theorem mirrors_importFailed {α : Type} [Carried α] {span : Span} (hs : S.Admits span)
    (nickname : String) {f : Fault} (alike : ℓ.Alike S.marks f f) :
    Mirrors S w p (Run.importFailed nickname span f : Eval α)
      (Run.importFailed nickname (span.moved S.place) f) := by
  have allows : S.Allows p span := hs.allows
  refine .diagnose (.raise (.caused (allows.like ?_) alike) fun _ => allows.lined)
  exact Trouble.Common.text (t := ⟨.importFailed, ""⟩) (.of rfl)

theorem mirrors_importFailed_bind {α β : Type} [Carried β] {span : Span} (hs : S.Admits span)
    (nickname : String) {f : Fault} (alike : ℓ.Alike S.marks f f) {g g' : α → Eval β} :
    Mirrors S w p ((Run.importFailed nickname span f : Eval α) >>= g)
      ((Run.importFailed nickname (span.moved S.place) f : Eval α) >>= g') := by
  have allows : S.Allows p span := hs.allows
  rw [Run.importFailed, Run.importFailed, Eval.bind_assoc, Eval.bind_assoc]
  refine .diagnose (.raise_bind (.caused (allows.like ?_) alike) fun _ => allows.lined)
  exact Trouble.Common.text (t := ⟨.importFailed, ""⟩) (.of rfl)

/-- What an import does with the fault of its module. -/
def Run.rescue (nickname : String) (span : Span) : Failure → Eval Unit
  | .fault f => if f.isCircular then Eval.raise f else importFailed nickname span f
  | .outOfFuel => Eval.outOfFuel

/-- A fault that is caught, and what comes after it. -/
theorem Eval.tryCatch_error_bind {α β : Type} {x : Eval α} {env : Env} {e : Failure}
    (h : x env w = .error e w') (f : Failure → Eval α) (g : α → Eval β) :
    ((tryCatch x f : Eval α) >>= g) env w = (f e >>= g) env w' := by
  have caught := Eval.tryCatch_error h f
  cases hf : f e env w' with
  | ok a w'' => rw [Eval.bind_ok (caught.trans hf), Eval.bind_ok hf]
  | error e' w'' => rw [Eval.bind_error (caught.trans hf), Eval.bind_error hf]

/-- What becomes of a new interpreter: a module is run on it, and its root scope
is what the import gives. -/
def Run.moduleOn (exec : Eval Unit) (nickname : String) (span : Span) (child : InterpreterId) :
    Eval Value := do
  tryCatch (Eval.on child exec) (rescue nickname span)
  return .module nickname (← Eval.interpreter child).root

/-- What an import complains of whose module is being imported already. -/
def Run.circular (importing : List String) (key : String) : Trouble :=
  ⟨.circular, "circular import: " ++ " -> ".intercalate (importing ++ [key])⟩

theorem Eval.failAt_bind {α β : Type} (span : Span) (t : Trouble) (g : α → Eval β) :
    (failAt span t >>= g) = failAt span t := by
  rw [failAt, Eval.bind_assoc]
  rfl

theorem Run.runModuleWith_moduleOn (exec : Found → Eval Unit) (m : Found) (nickname : String) (span : Span) :
    runModuleWith exec m nickname span = Eval.self >>= fun i =>
      if i.importing.contains m.key then
        Eval.failAt span (circular i.importing m.key)
      else
        newInterpreter ("module:" ++ nickname) m.dir m.display (i.importing ++ [m.key]) [] >>=
          moduleOn (exec m) nickname span := by
  rw [runModuleWith]
  refine congrArg (bind _) (funext fun i => ?_)
  change (if i.importing.contains m.key then _ else _) = _
  split
  · exact Eval.failAt_bind _ _ _
  · refine congrArg (bind _) (funext fun child => ?_)
    rw [moduleOn]
    refine congrArg (· >>= _) (congrArg (tryCatch _) (funext fun e => ?_))
    cases e <;> rfl

/-- The fault of a module becomes one of the import in both runs. -/
theorem mirrors_rescue_bind {β : Type} [Carried β] {span : Span} (hs : S.Admits span)
    (nickname : String) {f : Fault} (alike : ℓ.Alike S.marks f f) {g g' : Unit → Eval β} :
    Mirrors S w p (Run.rescue nickname span (.fault f) >>= g)
      (Run.rescue nickname (span.moved S.place) (.fault f) >>= g') := by
  rw [Run.rescue, Run.rescue]
  split
  next circular =>
    refine .raise_bind alike fun _ _ => ?_
    have settled := alike.settled circular
    cases f with
    | runtime d cause => exact settled
    | moduleNotFound d name searched => exact settled
    | _ => exact settled.elim
  next => exact mirrors_importFailed_bind hs nickname alike

/-- The import of a module passes on a fault that was waited for, and that is waited for in its
turn. -/
theorem exists_rescue (nickname : String) {span : Span} (hs : S.Admits span) {f : Fault}
    (due : ℓ.expectation.awaits (S.course.into ⟨S.self, S.here, span, nickname⟩) f ∨
      ℓ.expectation.expects (S.course.into ⟨S.self, S.here, span, nickname⟩) f)
    (settled : f.isCircular = true → f.Settled)
    (stays : (w.row S.self.index).frame.origin = ℓ.naming.origin S.here) :
    ∃ g, Run.rescue nickname (span.moved S.place) (.fault f) S.env w = .error (.fault g) w ∧
      ℓ.expectation.expects S.course g := by
  by_cases circular : f.isCircular = true
  · refine ⟨f, ?_, ℓ.expectation.circular _ _ _ due circular (settled circular)⟩
    rw [Run.rescue, if_pos circular]
    rfl
  · -- What was waited for comes up only where both runs execute the same code.
    have same := ℓ.awaits_same _ _ due
    have leaves := ℓ.leaves_same same
    have here : ℓ.naming.origin S.here = S.here := by
      rw [Renaming.origin, ℓ.unit_same same, (leaves _).text]
    have place : span.moved S.place = span := (leaves _).span span
    refine ⟨_, ?_, ℓ.expectation.wraps _ _ _ due (Bool.eq_false_iff.mpr circular)
      (ℓ.lined _ _ hs.1)⟩
    rw [Run.rescue, if_neg circular, place]
    exact Eval.bind_ok (Eval.diagnose_at span _ (stays.trans here)) _

/-- The fault of a module becomes one of the import, whether it came up in both runs or was
waited for. -/
theorem ends_moduleOn (hr : S.Ready w) (hb : S.Behind w T) {nickname : String} {span : Span}
    (course : T.course = S.course.into ⟨S.self, S.here, span, nickname⟩) (hs : S.Admits span)
    {x y : Eval Unit} (led : T.Leads w w₁) (closes : T.Closes w₁ (x T.env w₁) (y T.env (ℓ.naming.world w₁)))
    (stays : ((y.worldAfter T.env (ℓ.naming.world w₁)).row S.self.index).frame.origin =
      ℓ.naming.origin S.here) :
    Ends S w True (Run.moduleOn x nickname span T.self S.env w₁)
      (Run.moduleOn y nickname (span.moved S.place) T.self S.env (ℓ.naming.world w₁)) := by
  have left : (Eval.on T.self x) S.env w₁ = x T.env w₁ := rfl
  have right : (Eval.on T.self y) S.env (ℓ.naming.world w₁) = y T.env (ℓ.naming.world w₁) := rfl
  generalize hx : x T.env w₁ = k at closes left
  generalize hy : y T.env (ℓ.naming.world w₁) = l at closes right
  rw [Run.moduleOn, Run.moduleOn]
  cases closes with
  | @ok o w' ready' led' =>
    obtain ⟨ready, steps⟩ := hr.back hb ready' (led.trans led')
    rw [Eval.bind_ok (Eval.tryCatch_ok left _), Eval.bind_ok (Eval.tryCatch_ok right _)]
    have home : ((T.within o).realm w').Home T.self := ready'.self
    have root : S.marks.scopes ≤ (w'.row T.self.index).root.index :=
      Nat.le_trans (hr.under hb).scopes (ready'.row_home home).root
    have found : Eval.interpreter T.self S.env (ℓ.naming.world w') =
        .ok (ℓ.naming.interpreter (w'.row T.self.index)) (ℓ.naming.world w') := by
      change EStateM.Result.ok ((ℓ.naming.world w').row T.self.index) _ = _
      rw [Renaming.row_world]
    rw [Eval.bind_ok found]
    exact .ok (a := Value.module nickname (w'.row T.self.index).root) ready steps root
  | @fault o f w' ready' led' alike =>
    obtain ⟨ready, steps⟩ := hr.back hb ready' (led.trans led')
    have alike' : ℓ.Alike S.marks f f := alike.mono (hr.under hb).units
    rw [Eval.tryCatch_error_bind left, Eval.tryCatch_error_bind right]
    exact (mirrors_rescue_bind hs nickname alike' ready).after steps
  | fuel =>
    rw [Eval.bind_error (Eval.tryCatch_error left _), Eval.bind_error (Eval.tryCatch_error right _)]
    exact .stopped .fuel
  | heard h =>
    rw [Eval.bind_error (Eval.tryCatch_error left _)]
    exact .stopped (.heard h)
  | @tripped f w' w'' due settled =>
    rw [Eval.bind_error (Eval.tryCatch_error left _)]
    rw [Eval.worldAfter_error hy] at stays
    rw [course] at due
    obtain ⟨g, rescued, expected⟩ := exists_rescue nickname hs due settled stays
    rw [Eval.bind_error ((Eval.tryCatch_error right _).trans rescued)]
    exact .stopped (.tripped expected)

/-- What a new interpreter is founded on leads nowhere else. -/
theorem Stand.leads_newborn {rootName : String} {i : Interpreter} {c : Course}
    {importing : List String} :
    (Stand.newborn ℓ w c importing).Leads w (w.withInterpreter rootName i) where
  kept := { Marks.Kept.refl _ _ with scopes := Store.kept_push (Nat.le_refl _) _ }
  rows j hj _ := Store.kept_push (Nat.le_refl _) i j hj
  size := by
    rw [World.withInterpreter, Array.size_push]
    exact Nat.le_succ _
  units := Nat.le_refl _

/-- A module, from where its interpreter is ready. -/
theorem ends_module (ho : ℓ.Oversees watch) {k : Nat}
    (hm : ∀ T : Stand ℓ, Mirroring T (machines T.course) (Run.run k)) (hr : S.Ready w)
    (hb : S.Behind w T) {nickname : String} {span : Span}
    (course : T.course = S.course.into ⟨S.self, S.here, span, nickname⟩) (hs : S.Admits span)
    {m : Run.Found} (known : m.Known ℓ.setup) (linear : m.key ∉ (w.row S.self.index).importing)
    (ready : T.Ready w₁) (led : T.Leads w w₁) (name : (w₁.row T.self.index).name = m.display)
    (importing : (w₁.row T.self.index).importing = (w.row S.self.index).importing ++ [m.key])
    (settled : (w₁.row T.self.index).pending = []) :
    Ends S w True
      (Run.moduleOn (Run.overseenModule watch machines
        (S.course.into ⟨S.self, S.here, span, nickname⟩) m) nickname span T.self S.env w₁)
      (Run.moduleOn (Run.runSource (Run.run k) m.text) nickname (span.moved S.place) T.self S.env
        (ℓ.naming.world w₁)) := by
  have old : S.self.index < w.interpreters.size := hr.self.2
  have other : S.self.index ≠ T.self.index := by
    rw [hb.self]
    exact Nat.ne_of_lt old
  have importer : w₁.row S.self.index = w.row S.self.index := by
    rw [World.row, World.row, Array.getD_eq_getD_getElem?, Array.getD_eq_getD_getElem?,
      led.rows _ old other]
  have meets : T.Meets w₁ (.opening m) := by
    refine ⟨_, _, congrArg Course.sites course, ?_, ?_⟩
    · rw [importer]
      exact linear
    · rw [importer]
      exact importing
  have fresh : ℓ.fresh ≤ T.marks.units := by
    rw [hb.marks]
    exact hr.fresh
  have offered : ℓ.setup.Offers (w₁.row T.self.index).name m.text := name ▸ known.offered
  have closes := closes_module ho (hm T) ready fresh offered meets
  rw [course] at closes
  have stays : (((Run.runSource (Run.run k) m.text).worldAfter T.env (ℓ.naming.world w₁)).row
      S.self.index).frame.origin = ℓ.naming.origin S.here := by
    have known : T.env.self.index < (ℓ.naming.world w₁).interpreters.size := by
      rw [Renaming.size_world]; exact ready.self.2
    have kept := Run.rows_runSource k m.text (Nat.le_refl _) known
      (by rw [Renaming.row_world]; exact settled) (hb.self ▸ old : S.self.index < T.self.index)
    rw [World.row, Array.getD_eq_getD_getElem?, kept, ← Array.getD_eq_getD_getElem?]
    change ((ℓ.naming.world w₁).row S.self.index).frame.origin = _
    rw [Renaming.row_world, importer, ← hr.here]
    rfl
  exact ends_moduleOn hr hb course hs led closes stays

/-- The interpreter of a module that is not being imported yet is ready when it is new. -/
theorem Stand.Ready.imported (ready : S.Ready w) {m : Run.Found} (known : m.Known ℓ.setup)
    (linear : m.key ∉ (w.row S.self.index).importing) (rootName : String) (site : Site) :
    (Stand.newborn ℓ w (S.course.into site) ((w.row S.self.index).importing ++ [m.key])).Ready
      (w.withInterpreter rootName
        (w.newborn m.dir m.display ((w.row S.self.index).importing ++ [m.key]) [])) := by
  have row := ready.row
  have chain : ((w.row S.self.index).importing ++ [m.key]).Nodup := by
    refine List.nodup_append.mpr ⟨row.acyclic, List.pairwise_singleton _ _, fun a ha b hb => ?_⟩
    rintro rfl
    rw [List.mem_singleton.mp hb] at ha
    exact linear ha
  refine Stand.Ready.newborn ready.fresh (Nat.le_trans ready.numbered ready.units) chain ?_
    (.inl known.dir) ?_
  · obtain ⟨own, rest, keys, short, all⟩ := row.chained
    refine ⟨own, rest ++ [m.key], by rw [keys, List.append_assoc], short, fun k hk => ?_⟩
    rcases List.mem_append.mp hk with hk | hk
    · exact all k hk
    · rw [List.mem_singleton.mp hk]
      exact known.key
  · have nested := row.nested.length_le
    have level := ready.level
    change S.course.sites.length + 1 ≤ _
    rw [List.length_append, List.length_singleton]
    omega

/-- The builtin functions of an interpreter are bound alike in both runs.  They are the same
whoever binds them. -/
theorem Stand.Ready.ends_install (ready : T.Ready w) (id : InterpreterId) {root : ScopeRef}
    (young : T.marks.scopes ≤ root.index) :
    Ends T w True (Run.install T.self root ⟨ℓ.setup, id⟩ w)
      (Run.install T.self root ⟨ℓ.setup, id⟩ (ℓ.naming.world w)) := by
  have personal := Run.impersonal_install T.self root ℓ.setup id T.self
  rw [personal, personal]
  exact mirrors_install ready.self young ready

theorem mirrors_runModule (ho : ℓ.Oversees watch) {k : Nat}
    (hm : ∀ T : Stand ℓ, Mirroring T (machines T.course) (Run.run k)) {m : Run.Found}
    (known : m.Known ℓ.setup) (nickname : String) {span : Span} (hs : S.Admits span) :
    Mirrors S w True
      (Run.runModuleWith (Run.overseenModule watch machines
        (S.course.into ⟨S.self, S.here, span, nickname⟩)) m nickname span)
      (Run.runModule (Run.run k) m nickname (span.moved S.place)) := by
  rw [Run.runModule_eq, Run.runModuleWith_moduleOn, Run.runModuleWith_moduleOn]
  refine .ready fun ready => .look (a := w.row S.self.index)
    (b := ℓ.naming.interpreter (w.row S.self.index)) rfl ?_ ?_
  · change EStateM.Result.ok ((ℓ.naming.world w).row S.self.index) _ = _
    rw [Renaming.row_world]
  change Mirrors S w True (if (w.row S.self.index).importing.contains m.key then _ else _)
    (if (w.row S.self.index).importing.contains m.key then _ else _)
  split
  next circular =>
    exact .diagnose (.raise (.runtime (.placed _ hs.1 hs.2)) fun _ _ => hs.allows.lined trivial)
  next linear =>
    intro _
    have linear : m.key ∉ (w.row S.self.index).importing := fun mem =>
      linear (List.contains_iff_mem.mpr mem)
    let T : Stand ℓ := Stand.newborn ℓ w (S.course.into ⟨S.self, S.here, span, nickname⟩)
      ((w.row S.self.index).importing ++ [m.key])
    let w₂ : World := w.withInterpreter ("module:" ++ nickname)
      (w.newborn m.dir m.display ((w.row S.self.index).importing ++ [m.key]) [])
    have behind : S.Behind w T :=
      ⟨rfl, ready.row.nested.trans (List.prefix_append _ _), rfl⟩
    have ready₂ : T.Ready w₂ := ready.imported known linear _ _
    have founded : T.Leads w w₂ := Stand.leads_newborn
    have newborn : w₂.row T.self.index =
        w.newborn m.dir m.display ((w.row S.self.index).importing ++ [m.key]) [] := by
      simp only [T, w₂, World.row, World.withInterpreter, Stand.newborn, Heap.getD_push, if_true]
    -- Until its text is run, the module is on the course of the import.
    have installed := Stand.Ready.ends_install (T := T.during S.course)
      { ready₂ with level := Nat.le_of_succ_le ready₂.level } S.self (Nat.le_refl _)
    rw [Run.newInterpreter_bind, Run.newInterpreter_bind]
    have importing : (ℓ.naming.interpreter (w.row S.self.index)).importing =
        (w.row S.self.index).importing := rfl
    rw [Renaming.size_world, Renaming.heap_world, Heap.size_scopes_recast, importing,
      ← Renaming.world_withInterpreter]
    change Ends (T.during S.course) w₂ True
      (Run.install ⟨w.interpreters.size⟩ ⟨w.heap.scopes.size⟩ S.env w₂)
      (Run.install ⟨w.interpreters.size⟩ ⟨w.heap.scopes.size⟩ S.env (ℓ.naming.world w₂)) at installed
    generalize hx : Run.install ⟨w.interpreters.size⟩ ⟨w.heap.scopes.size⟩ S.env w₂ = x at installed
    generalize hy : Run.install ⟨w.interpreters.size⟩ ⟨w.heap.scopes.size⟩ S.env
      (ℓ.naming.world w₂) = y at installed
    cases installed with
    | @ok _ w₃ ready₃ steps _ =>
      rw [Eval.bind_ok hx, Eval.bind_ok hy]
      have row₃ : w₃.row T.self.index =
          w.newborn m.dir m.display ((w.row S.self.index).importing ++ [m.key]) [] :=
        (steps.row ready₂.self.2).trans newborn
      have led : T.Leads w₂ w₃ := ⟨steps.kept, steps.leads.rows, steps.size, steps.units⟩
      exact ends_module ho hm ready behind rfl hs known linear { ready₃ with level := ready₂.level }
        (founded.trans led) (by rw [row₃]; rfl) (by rw [row₃]; rfl) (by rw [row₃]; rfl)
    | @fault f f' w₃ ready₃ steps alike located =>
      rw [Eval.bind_error hx, Eval.bind_error hy]
      have led : T.Leads w₂ w₃ := ⟨steps.kept, steps.leads.rows, steps.size, steps.units⟩
      obtain ⟨ready', steps'⟩ := ready.back behind (o := T.here) { ready₃ with level := ready₂.level }
        (founded.trans led)
      exact .fault ready' steps' (alike.mono (ready.under behind).units) located
    | stopped stops =>
      rw [Eval.bind_error hx]
      rw [← hy] at stops
      exact .stopped (Stand.Stops.bind (S := S) (stops.beside rfl) _)

/-! ## Finding modules -/

theorem Run.known_file {setup : Setup} {name dir path text : String}
    (candidate : path = Run.candidate (Run.moduleFile name) dir)
    (file : setup.files.fileAt? path = some text) :
    Found.Known setup
      ⟨Path.absolute setup.files.working path, Path.directory path, path, text⟩ where
  offered := .inl file
  key := .inl ⟨name, dir, text, candidate ▸ file, candidate ▸ rfl⟩
  dir := .inl rfl

theorem Run.findFile?_known {setup : Setup} {name : String} : ∀ {dirs : List String} {m : Run.Found},
    Run.findFile? setup.files (dirs.map (Run.candidate (Run.moduleFile name))) = some m →
      m.Known setup
  | [], _, found => by cases found
  | dir :: dirs, m, found => by
    rw [List.map_cons, Run.findFile?] at found
    split at found
    next text file =>
      obtain rfl := Option.some.inj found
      exact known_file rfl file
    next => exact findFile?_known found

theorem Run.findEmbedded?_known {setup : Setup} {path : String} {m : Run.Found}
    (found : Run.findEmbedded? path = some m) : m.Known setup := by
  obtain ⟨text, listed, rfl⟩ := Option.map_eq_some_iff.mp found
  exact ⟨.inr ⟨path, rfl, listed⟩, .inr ⟨path, text, listed, rfl⟩, .inr ⟨rfl, path, rfl⟩⟩

theorem mirrors_searchDirs {α : Type} [Carried α] {f g : List String → Eval α}
    (h : ∀ dirs, Mirrors S w p (f dirs) (g dirs)) :
    Mirrors S w p (Run.searchDirs >>= f) (Run.searchDirs >>= g) := by
  refine .look (b := (if (ℓ.naming.interpreter (w.row S.self.index)).dir = "" then "."
    else (ℓ.naming.interpreter (w.row S.self.index)).dir) :: ℓ.setup.search) rfl ?_ (h _)
  change EStateM.Result.ok ((if ((ℓ.naming.world w).row S.self.index).dir = "" then "."
    else ((ℓ.naming.world w).row S.self.index).dir) :: ℓ.setup.search) _ = _
  rw [Renaming.row_world]

theorem mirrors_importExtension {span : Span} (hs : S.Admits span) (name : String)
    (searched : List String) :
    Mirrors S w True (Run.importExtension name span searched)
      (Run.importExtension name (span.moved S.place) searched) := by
  refine .look rfl rfl ?_
  rw [Stand.setup_env]
  cases Extension.find? ℓ.setup name with
  | some e => exact mirrors_rescueExtension e (mirrors_importFailed hs name (.plain _))
  | none =>
    rw [Run.availableModules, Eval.bind_assoc, Eval.bind_assoc]
    refine .look rfl rfl ?_
    rw [Eval.bind_assoc, Eval.bind_assoc]
    refine mirrors_searchDirs fun dirs => ?_
    rw [pure_bind, pure_bind]
    refine .diagnose (.raise (.missing name searched ?_) fun _ _ => hs.allows.lined trivial)
    exact .placed { Diagnostic.error Code.moduleMissing.text .nowhere s!"module '{name}' not found" with
      hint := _ } hs.1 hs.2

/-! ## Imports -/

theorem mirrors_importWith {span : Span} (hs : S.Admits span) {runs runs' : Run.Found → Eval Value}
    (hruns : ∀ m w', m.Known ℓ.setup → Mirrors S w' True (runs m) (runs' m)) (name : String) :
    Mirrors S w True (Run.importWith runs name span) (Run.importWith runs' name (span.moved S.place)) := by
  refine .look rfl rfl (mirrors_searchDirs fun dirs => ?_)
  rw [Stand.setup_env]
  dsimp only
  cases found : Run.findFile? ℓ.setup.files (dirs.map (Run.candidate (Run.moduleFile name))) with
  | some m => exact hruns m w (Run.findFile?_known found)
  | none =>
    dsimp only
    cases embedded : (Run.embeddedPath? ℓ.setup (Run.moduleFile name)).bind Run.findEmbedded? with
    | some m =>
      obtain ⟨path, -, listed⟩ := Option.bind_eq_some_iff.mp embedded
      exact hruns m w (Run.findEmbedded?_known listed)
    | none => exact mirrors_importExtension hs name _

/-- Only the first action looks at the world. -/
theorem Mirrors.lookFirst {α γ : Type} [Carried α] {z : Eval γ} {a : γ} {f : γ → Eval α} {y : Eval α}
    (hz : z S.env w = .ok a w) (hf : Mirrors S w p (f a) y) : Mirrors S w p (z >>= f) y := by
  intro hr
  rw [Eval.bind_ok hz]
  exact hf hr

theorem mirrors_overseenImport (ho : ℓ.Oversees watch) {k : Nat}
    (hm : ∀ T : Stand ℓ, Mirroring T (machines T.course) (Run.run k)) {span : Span}
    (hs : S.Admits span) (name nickname : String) :
    Mirrors S w True (Run.overseenImport watch machines S.course span name nickname)
      (Run.importModule (Run.run k) name nickname (span.moved S.place)) := by
  refine .ready fun ready => .ask ho (fun _ h => by cases h) (fun _ => ?_) fun _ => ?_
  · have numbered := ready.numbered
    have units := hs.2
    change S.here.unit ≠ 0
    omega
  · refine .lookFirst (a := S.env) rfl (.lookFirst (a := (w.row S.self.index).frame) rfl ?_)
    have here : (w.row S.self.index).frame.origin = S.here := ready.here
    rw [Run.importModule_eq, here]
    exact mirrors_importWith hs (fun m w' known => mirrors_runModule ho hm known nickname hs) name

/-- An import is mirrored by what is mirrored of the machines. -/
theorem imports_of_mirroring (ho : ℓ.Oversees watch) {k : Nat}
    (hm : ∀ T : Stand ℓ, Mirroring T (machines T.course) (Run.run k)) :
    Imports S watch machines (Run.run k) := by
  intro span location nickname w hs hl
  rw [Run.load_eq_loadWith]
  refine ((hm S).expr_here hl).bind fun v w₁ _ _ hv => ?_
  have refused : Mirrors S w₁ True
      (Eval.inHeap (·.typeName v) >>= fun type =>
        (Eval.failAt location.span (.type s!"IMPORT location must be a String, got '{type}'") :
          Eval Unit))
      (Eval.inHeap (·.typeName (v.recast ℓ.naming.recast)) >>= fun type =>
        Eval.failAt (location.moved S.place).span
          (.type s!"IMPORT location must be a String, got '{type}'")) := by
    refine .inHeap ?_
    rw [Heap.typeName_recast, Expr.span_moved]
    exact .failAt (.inl (hl _ location.span_mem)) (.of rfl)
  cases v with
  | string name =>
    refine (mirrors_overseenImport ho hm hs name _).bind fun u w₂ _ _ hu => ?_
    exact .bindSelf hs.allows _ hu
  | _ => exact refused

end Modules

/-! ## The machines, mirrored

What each rule of execution does with its sub-tasks, the machine does with itself, one step
further down.  So the overseen machine is mirrored by the machine that runs, by induction on
the bound.  A list of values takes the second machine one step that the first one does not
take, wherever values are listed; so its bound is twice as large. -/

variable {ℓ : Likeness} {watch : Course → Occasion → Eval Unit}

/-- The bounds of two machines: the same one, if nothing is listed; or the second is large
enough for what is listed, and the first may be stopped. -/
def Likeness.Paces (ℓ : Likeness) (n m : Nat) : Prop :=
  (n = m ∧ ∀ u s, ℓ.naming.lists u s = false) ∨ (ℓ.heard ∧ 2 * n + 1 ≤ m)

namespace Likeness.Paces

variable {n m : Nat}

theorem zero (h : ℓ.Paces 0 m) : m = 0 ∨ ℓ.heard := h.imp (fun h => h.1.symm) And.left

theorem succ (h : ℓ.Paces (n + 1) m) : ∃ k, m = k + 1 ∧ ℓ.Paces n k ∧ ℓ.Rounds n k := by
  obtain ⟨rfl, unlisted⟩ | ⟨heard, le⟩ := h
  · exact ⟨n, rfl, .inl ⟨rfl, unlisted⟩, .inl rfl⟩
  · obtain ⟨k, rfl⟩ : ∃ k, m = k + 1 := ⟨m - 1, by omega⟩
    exact ⟨k, rfl, .inr ⟨heard, by omega⟩, .inr ⟨by omega, heard⟩⟩

/-- Where values are listed, a step is left over. -/
theorem listed (h : ℓ.Paces (n + 1) m) {u : Nat} {s : Span} (hs : ℓ.naming.lists u s = true) :
    ∃ k, m = k + 2 ∧ ℓ.Paces n k := by
  obtain ⟨-, unlisted⟩ | ⟨heard, le⟩ := h
  · exact absurd hs (by simp [unlisted])
  · obtain ⟨k, rfl⟩ : ∃ k, m = k + 2 := ⟨m - 2, by omega⟩
    exact ⟨k, rfl, .inr ⟨heard, by omega⟩⟩

end Likeness.Paces

/-- A machine that does nothing is mirrored by one that does nothing, or by any one, if it
counts as stopped. -/
theorem mirroring_zero {m : Nat} (hp : ℓ.Paces 0 m) (S : Stand ℓ) :
    Mirroring S (Run.overseen watch 0 S.course) (Run.run m) := by
  have stopped : ∀ {α : Type} [Carried α] (S : Stand ℓ) (w : World) (p : Prop) (t t' : Task α),
      Mirrors S w p (Run.overseen watch 0 S.course α t) (Run.run m α t') := by
    intro α _ S w p t t'
    obtain rfl | heard := hp.zero
    · exact .outOfFuel
    · exact .heard heard
  refine ⟨fun id o w e _ => ?_, fun id o w b _ => ?_, fun id o w p f args span _ _ _ => ?_,
    fun id o w v _ => ?_, fun id o w v _ => ?_, fun u s listed => ?_⟩
  iterate 5 exact stopped (S.on id o) _ _ _ _
  obtain ⟨-, unlisted⟩ | ⟨heard, le⟩ := hp
  · exact absurd listed (by simp [unlisted])
  · obtain ⟨k, rfl⟩ : ∃ k, m = k + 1 := ⟨m - 1, by omega⟩
    exact ⟨Run.run k, fun _ _ => rfl, fun id o w e _ => .heard heard⟩

/-- The overseen machine is mirrored by the machine that runs. -/
theorem mirroring_overseen (ho : ℓ.Oversees watch) : ∀ {n m : Nat}, ℓ.Paces n m → ∀ S : Stand ℓ,
    Mirroring S (Run.overseen watch n S.course) (Run.run m)
  | 0, _, hp, S => mirroring_zero hp S
  | n + 1, m, hp, S => by
    obtain ⟨k, rfl, pace, rounds⟩ := hp.succ
    have inner : ∀ T : Stand ℓ, Mirroring T (Run.overseen watch n T.course) (Run.run k) :=
      mirroring_overseen ho pace
    refine ⟨fun id o w e he => ?_, fun id o w b hb => ?_, fun id o w p f args span hs hf ha => ?_,
      fun id o w v hv => ?_, fun id o w v hv => ?_, fun u s listed => ?_⟩
    · exact mirrors_expr ho (inner (S.on id o)) he
    · obtain ⟨span, body⟩ := b
      exact mirrors_stmts ho (inner (S.on id o)) (inner _) (imports_of_mirroring ho inner) rounds body w
        fun s hs => hb s (List.mem_cons_of_mem _ hs)
    · refine .ask (S := S.on id o) ho (fun _ h => by cases h) (fun _ => trivial) fun passes => ?_
      refine mirrors_callWith (inner (S.on id o)) hf ha (fun b hb => ?_) hs
      subst hb
      exact mirrors_native (inner (S.on id o)) hf ha passes
    · exact mirrors_str (inner (S.on id o)) hv
    · exact mirrors_repr (inner (S.on id o)) hv
    · obtain ⟨j, same, pace'⟩ := hp.listed listed
      obtain rfl : k = j + 1 := by omega
      refine ⟨Run.run (j + 1), fun _ _ => rfl, fun id o w e he => ?_⟩
      exact mirrors_expr ho (mirroring_overseen ho pace' (S.on id o)) he

end Pseudocode
