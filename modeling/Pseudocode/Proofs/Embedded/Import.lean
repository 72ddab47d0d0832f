import Pseudocode.Proofs.Embedded.Steps
import Pseudocode.Proofs.Hosting.Exchange
/-
# `Proofs.Embedded.Import` — importing an embedded module

A module runs on an interpreter of its own, in a root scope in which the builtin functions are
bound (`newInterpreter_holding`).  If the text of the module leads from there to other bindings,
then these are what the module offers (`settles_runModule`), and nothing outside of it has changed
but for what is new.
-/
namespace Pseudocode

variable {env : Env} {w w' : World} {m m' : Memory}

/-! ## Bindings with different names -/

namespace Table

theorem get?_of_mem {α : Type} {x : String} {v : α} : ∀ {t : Table α}, t.names.Nodup →
    (x, v) ∈ t → t.get? x = some v
  | (y, u) :: t, once, mem => by
    rw [names, List.map_cons, List.nodup_cons] at once
    rcases List.mem_cons.mp mem with same | later
    · cases same
      exact if_pos rfl
    · have other : y ≠ x := by
        rintro rfl
        exact once.1 (List.mem_map.mpr ⟨_, later, rfl⟩)
      rw [get?, if_neg other]
      exact get?_of_mem once.2 later

theorem get?_of_not_mem {α : Type} {x : String} : ∀ {t : Table α}, x ∉ t.names → t.get? x = none
  | [], _ => rfl
  | (y, u) :: t, absent => by
    rw [names, List.map_cons, List.mem_cons, not_or] at absent
    rw [get?, if_neg (Ne.symm absent.1)]
    exact get?_of_not_mem absent.2

/-- Builtin functions with numbers from `k` on. -/
def builtins (k : Nat) (fs : List (String × Native)) : Table Value :=
  (fs.zipIdx k).map fun e => (e.1.1, .builtin ⟨e.2, e.1.1, e.1.2⟩)

theorem names_builtins (k : Nat) (fs : List (String × Native)) :
    (builtins k fs).names = fs.map Prod.fst := by
  induction fs generalizing k with
  | nil => rfl
  | cons f fs ih => exact congrArg (f.1 :: ·) (ih (k + 1))

theorem mem_builtins {f : String × Native} {fs : List (String × Native)} (mem : f ∈ fs) (k : Nat) :
    ∃ n, (f.1, Value.builtin ⟨n, f.1, f.2⟩) ∈ builtins k fs := by
  induction fs generalizing k with
  | nil => cases mem
  | cons g fs ih =>
    rcases List.mem_cons.mp mem with rfl | later
    · exact ⟨k, List.mem_cons_self⟩
    · obtain ⟨n, found⟩ := ih later (k + 1)
      exact ⟨n, List.mem_cons_of_mem _ found⟩

end Table

/-! ## The builtin functions -/

namespace Run

theorem addMembers_functions (env : Env) : ∀ (fs : List (String × Native)) (t : Table Value)
    (w : World), (t.names ++ fs.map Prod.fst).Nodup →
    Library.addMembers t (functions fs) env w =
      .ok (t ++ Table.builtins w.nextBuiltin fs)
        { w with nextBuiltin := w.nextBuiltin + fs.length }
  | [], t, w, _ => by
    rw [Table.builtins, List.zipIdx_nil, List.map_nil, List.append_nil]
    rfl
  | f :: fs, t, w, once => by
    have fresh : f.1 ∉ t.names := fun mem =>
      (List.nodup_append.mp once).2.2 _ mem _ List.mem_cons_self rfl
    have put := Table.put_of_not_mem (Value.builtin ⟨w.nextBuiltin, f.1, f.2⟩) fresh
    refine (Eval.bind_ok (x := Library.memberValue f.1 (.function f.2)) rfl _).trans ?_
    rw [put]
    refine (addMembers_functions env fs _ _ ?_).trans ?_
    · rw [Table.names, List.map_append]
      rwa [List.map_cons, List.append_cons] at once
    · rw [List.append_assoc, List.length_cons, Nat.add_assoc, Nat.add_comm 1]
      rfl

/-- Binding the entries of a table in the new scope. -/
theorem bindAll_holding (name : String) (parent : Option ScopeRef) (env : Env) (w : World) :
    ∀ (t : Table Value) (m : Memory),
    (m.vars ++ t).names.Nodup →
    bindAll ⟨w.heap.scopes.size⟩ t env (w.holding name parent m) =
      .ok () (w.holding name parent { m with vars := m.vars ++ t })
  | [], m, _ => by
    rw [List.append_nil]
    rfl
  | (x, v) :: t, m, once => by
    have fresh : x ∉ m.vars.names := by
      rw [Table.names, List.map_append, List.map_cons] at once
      exact fun mem => (List.nodup_append.mp once).2.2 _ mem _ List.mem_cons_self rfl
    refine (Eval.bind_ok (define_holding x v env w) _).trans ?_
    rw [Table.put_of_not_mem v fresh]
    refine (bindAll_holding name parent env w t _ ?_).trans ?_
    · rwa [List.append_cons] at once
    · rw [List.append_assoc]
      rfl

end Run

/-- The bindings of a new root scope. -/
def rootTable (home : InterpreterId) (k library : Nat) : Table Value :=
  Table.builtins k (Builtins.subroutines home) ++ [("BUILTINS", .library ⟨library⟩)] ++
    Table.builtins (k + 12) (Builtins.conversions home)

theorem names_rootTable (home : InterpreterId) (k library : Nat) :
    (rootTable home k library).names =
      (Builtins.subroutines default).map Prod.fst ++ ["BUILTINS"] ++
        (Builtins.conversions default).map Prod.fst := by
  simp only [rootTable, Table.names, List.map_append]
  rfl

/-- The scope holds the builtin functions under their names. -/
def Table.Offers (t : Table Value) (home : InterpreterId) : Prop :=
  ∀ f ∈ Builtins.subroutines home ++ Builtins.conversions home,
    ∃ n, t.get? f.1 = some (.builtin ⟨n, f.1, f.2⟩)

/-- The module of builtin functions. -/
def builtinsLibrary (home : InterpreterId) (k : Nat) : Library :=
  ⟨"BUILTINS", Table.builtins k (Builtins.subroutines home)⟩

/-- The heap with a library. -/
def World.withLibrary (w : World) (l : Library) : World :=
  { w with heap := { w.heap with libraries := w.heap.libraries.push l } }

theorem nodup_subroutines (home : InterpreterId) :
    ((Builtins.subroutines home).map Prod.fst).Nodup := by
  change ((Builtins.subroutines default).map Prod.fst).Nodup
  decide

theorem nodup_rootTable (home : InterpreterId) (k library : Nat) :
    (rootTable home k library).names.Nodup := by
  rw [names_rootTable]
  decide

/-- Binding further builtin functions in a new scope. -/
theorem bindFunctions_holding (name : String) (parent : Option ScopeRef) (env : Env) (w : World)
    (fs : List (String × Native)) (m : Memory) (once : (m.vars.names ++ fs.map Prod.fst).Nodup) :
    (Library.addMembers [] (Run.functions fs) >>= Run.bindAll ⟨w.heap.scopes.size⟩) env
        (w.holding name parent m) =
      .ok () (w.holding name parent
        { m with vars := m.vars ++ Table.builtins m.fresh fs, fresh := m.fresh + fs.length }) := by
  have members := Run.addMembers_functions env fs [] (w.holding name parent m)
    (List.nodup_append.mp once).2.1
  refine (Eval.bind_ok members _).trans ?_
  refine Run.bindAll_holding name parent env w (Table.builtins m.fresh fs)
    { m with fresh := m.fresh + fs.length } ?_
  rwa [Table.names, List.map_append, ← Table.names, ← Table.names, Table.names_builtins]

/-- Installing the builtin functions in a new scope. -/
theorem install_holding (home : InterpreterId) (name : String) (env : Env) (w : World)
    (arrays : Array Slots) (dicts : Array Dictionary) (classes : Array Class) (k : Nat) :
    Run.install home ⟨w.heap.scopes.size⟩ env (w.holding name none ⟨[], arrays, dicts, classes, k⟩) =
      .ok () ((w.withLibrary (builtinsLibrary home k)).holding name none
        ⟨rootTable home k w.heap.libraries.size, arrays, dicts, classes, k + 19⟩) := by
  let core := Table.builtins k (Builtins.subroutines home)
  have members := Run.addMembers_functions env (Builtins.subroutines home) []
    (w.holding name none ⟨[], arrays, dicts, classes, k⟩) (nodup_subroutines home)
  refine (Eval.bind_ok members _).trans ?_
  have bound := Run.bindAll_holding name none env w core
    ⟨[], arrays, dicts, classes, k + 12⟩ (by
      rw [List.nil_append, Table.names_builtins]
      exact nodup_subroutines home)
  refine (Eval.bind_ok bound _).trans ?_
  have library : Eval.onHeap (Heap.newLibrary (builtinsLibrary home k)) env
      (w.holding name none ⟨core, arrays, dicts, classes, k + 12⟩) =
      .ok (.library ⟨w.heap.libraries.size⟩) ((w.withLibrary (builtinsLibrary home k)).holding name
        none ⟨core, arrays, dicts, classes, k + 12⟩) := rfl
  refine (Eval.bind_ok library _).trans ?_
  have named : Eval.define ⟨w.heap.scopes.size⟩ "BUILTINS" (.library ⟨w.heap.libraries.size⟩) false
      env ((w.withLibrary (builtinsLibrary home k)).holding name none
        ⟨core, arrays, dicts, classes, k + 12⟩) =
      .ok () ((w.withLibrary (builtinsLibrary home k)).holding name none
        ⟨core.put "BUILTINS" (.library ⟨w.heap.libraries.size⟩), arrays, dicts, classes, k + 12⟩) :=
    define_holding ..
  have fresh : "BUILTINS" ∉ core.names := by
    rw [Table.names_builtins]
    change "BUILTINS" ∉ (Builtins.subroutines default).map Prod.fst
    decide
  rw [Table.put_of_not_mem _ fresh] at named
  refine (Eval.bind_ok named _).trans ?_
  have rest := bindFunctions_holding name none env
    (w.withLibrary (builtinsLibrary home k)) (Builtins.conversions home)
    ⟨core ++ [("BUILTINS", Value.library ⟨w.heap.libraries.size⟩)], arrays, dicts, classes, k + 12⟩
  have total : core ++ [("BUILTINS", Value.library ⟨w.heap.libraries.size⟩)] ++
      Table.builtins (k + 12) (Builtins.conversions home) =
        rootTable home k w.heap.libraries.size := rfl
  have count : k + 12 + (Builtins.conversions home).length = k + 19 := rfl
  rw [total, count] at rest
  refine rest ?_
  have once := nodup_rootTable home k w.heap.libraries.size
  rwa [rootTable, Table.names, List.map_append, ← Table.names, ← Table.names,
    Table.names_builtins (k + 12)] at once

/-! ## Running the text of a module -/

section Module

variable {xs : Array Interpreter} {i : Interpreter}

/-- The interpreter that was added last executes. -/
theorem self_of_push (env : Env) (hw : w.interpreters = xs.push i) (henv : env.self = ⟨xs.size⟩) :
    Eval.self env w = .ok i w := by
  change EStateM.Result.ok (w.interpreters.getD env.self.index default) w = _
  rw [hw, henv, Array.getD_eq_getD_getElem?, Array.getElem?_push_size, Option.getD_some]

theorem changeSelf_of_push (env : Env) (hw : w.interpreters = xs.push i) (henv : env.self = ⟨xs.size⟩)
    (f : Interpreter → Interpreter) :
    Eval.changeSelf f env w = .ok () { w with interpreters := xs.push (f i) } := by
  rw [Eval.changeSelf_eq, hw, henv, Heap.modify_push]

/-- There is nothing to be bound for a module. -/
theorem prepare_of_push (env : Env) (hw : w.interpreters = xs.push i) (henv : env.self = ⟨xs.size⟩)
    (none : i.pending = []) : Run.prepare env w = .ok () w := by
  refine (Eval.bind_ok (self_of_push env hw henv) _).trans ?_
  refine (Eval.bind_ok (changeSelf_of_push env hw henv _) _).trans ?_
  obtain ⟨root, frame, dir, name, importing, pending⟩ := i
  cases none
  rw [← hw]
  rfl

end Module

/-- The modules that are being imported while a module runs. -/
def moduleChain (env : Env) (w : World) (m : Run.Found) : List String :=
  (w.row env.self.index).importing ++ [m.key]

/-- The interpreter of a module that is about to run a text. -/
def moduleInterpreter (env : Env) (w : World) (m : Run.Found) (origin : Origin) : Interpreter :=
  ⟨⟨w.heap.scopes.size⟩, ⟨⟨w.heap.scopes.size⟩, origin, 0⟩, m.dir, m.display, moduleChain env w m, []⟩

/-- The world with an interpreter for a module and a library of the builtin functions. -/
def World.withModule (w : World) (i : Interpreter) : World :=
  { w.withLibrary (builtinsLibrary ⟨w.interpreters.size⟩ w.nextBuiltin) with
    interpreters := w.interpreters.push i }

/-- The memory in which the text of a module begins to run. -/
def World.moduleMemory (w : World) : Memory :=
  ⟨rootTable ⟨w.interpreters.size⟩ w.nextBuiltin w.heap.libraries.size, w.heap.arrays, w.heap.dicts,
    w.heap.classes, w.nextBuiltin + 19⟩

/-- Where the text of a module comes from. -/
def moduleOrigin (w : World) (m : Run.Found) : Origin := ⟨w.nextUnit, m.display, m.text⟩

/-- The room in which the text of a module runs. -/
def moduleRoom (env : Env) (w : World) (m : Run.Found) (nickname : String) : Room where
  env := { env with self := ⟨w.interpreters.size⟩ }
  outer := { w.withModule (moduleInterpreter env w m (moduleOrigin w m)) with
    nextUnit := w.nextUnit + 1 }
  name := "module:" ++ nickname
  parent := none
  inside _ mem := nomatch mem
  stands := by
    change ((w.interpreters.push (moduleInterpreter env w m (moduleOrigin w m))).getD
      w.interpreters.size default).frame.scope = _
    rw [Array.getD_eq_getD_getElem?, Array.getElem?_push_size]
    rfl

section Running

variable {f : Run.Found} {nickname : String} {b : Block} {flow : Flow} {span : Span}

theorem newInterpreter_holding (env : Env) (w : World) (f : Run.Found) (nickname : String) :
    Run.newInterpreter ("module:" ++ nickname) f.dir f.display (moduleChain env w f) [] env w =
      .ok ⟨w.interpreters.size⟩ ((w.withModule (moduleInterpreter env w f default)).holding
        ("module:" ++ nickname) none w.moduleMemory) := by
  rw [Session.newInterpreter_eq]
  have installed := install_holding ⟨w.interpreters.size⟩ ("module:" ++ nickname) env
    { w with interpreters := w.interpreters.push (moduleInterpreter env w f default) }
    w.heap.arrays w.heap.dicts w.heap.classes w.nextBuiltin
  exact Eval.bind_ok installed _

/-- The text of a module is read, and its statements run in the room of the module. -/
theorem settles_runSource (parsed : parse f.text f.display = .ok b)
    (runs : Settles (fun n => (Run.run n).block b) (moduleRoom env w f nickname).env
      ((moduleRoom env w f nickname).world w.moduleMemory) flow
      ((moduleRoom env w f nickname).world m)) :
    Settles (fun n => Eval.on ⟨w.interpreters.size⟩ (Run.runSource (Run.run n) f.text)) env
      ((w.withModule (moduleInterpreter env w f default)).holding ("module:" ++ nickname) none
        w.moduleMemory) () ((moduleRoom env w f nickname).world m) := by
  obtain ⟨least, result⟩ := runs
  refine ⟨least, fun n enough => ?_⟩
  let child : Env := { env with self := ⟨w.interpreters.size⟩ }
  let before := moduleInterpreter env w f default
  let after := moduleInterpreter env w f (moduleOrigin w f)
  have named : before.name = f.display := rfl
  change Run.runSource (Run.run n) f.text child _ = _
  refine (Eval.bind_ok (self_of_push child (i := before) rfl rfl) _).trans ?_
  simp only [named, parsed]
  refine (Eval.bind_ok (x := Run.newUnit) rfl _).trans ?_
  refine (Eval.bind_ok (changeSelf_of_push child (i := before) rfl rfl _) _).trans ?_
  refine (Eval.bind_ok (prepare_of_push child (i := after) rfl rfl rfl) _).trans ?_
  refine (Eval.bind_ok (changeSelf_of_push child (i := after) rfl rfl _) _).trans ?_
  rw [Eval.discard_eq]
  exact Eval.bind_ok (result n enough) _

/-- A module that is not being imported already is run, and what it offers are the bindings that
it leaves in its root scope. -/
theorem settles_runModule (parsed : parse f.text f.display = .ok b)
    (new : f.key ∉ (w.row env.self.index).importing)
    (runs : Settles (fun n => (Run.run n).block b) (moduleRoom env w f nickname).env
      ((moduleRoom env w f nickname).world w.moduleMemory) flow
      ((moduleRoom env w f nickname).world m)) :
    Settles (fun n => Run.runModule (Run.run n) f nickname span) env w
      (.module nickname ⟨w.heap.scopes.size⟩) ((moduleRoom env w f nickname).world m) := by
  obtain ⟨least, result⟩ := settles_runSource parsed runs
  refine ⟨least, fun n enough => ?_⟩
  have self : Eval.self env w = .ok (w.row env.self.index) w := rfl
  have once : (w.row env.self.index).importing.contains f.key = false := by
    rw [List.contains_eq_mem, decide_eq_false new]
  refine (Eval.bind_ok self _).trans ?_
  simp only [once, Bool.false_eq_true, if_false]
  refine (Eval.bind_ok (newInterpreter_holding env w f nickname) _).trans ?_
  refine (Eval.bind_ok (Eval.tryCatch_ok (result n enough) _) _).trans ?_
  let child : Env := { env with self := ⟨w.interpreters.size⟩ }
  let after := moduleInterpreter env w f (moduleOrigin w f)
  have left : Eval.interpreter ⟨w.interpreters.size⟩ env ((moduleRoom env w f nickname).world m) =
      .ok after ((moduleRoom env w f nickname).world m) :=
    self_of_push child (i := after) rfl rfl
  exact Eval.bind_ok left _

end Running

/-! ## Finding an embedded module -/

/-- A name means an embedded module: the embedded library is there, no file comes before it, and
the module is not being imported already. -/
structure MeansEmbedded (env : Env) (w : World) (name : String) : Prop where
  stdlib : env.setup.stdlib = true
  alone : Run.findFile? env.setup.files
    (((if (w.row env.self.index).dir = "" then "." else (w.row env.self.index).dir) ::
      env.setup.search).map (Run.candidate (Run.moduleFile name))) = none
  new : "stdlib:" ++ Run.moduleFile name ∉ (w.row env.self.index).importing

/-- What is found under a name that means an embedded module. -/
def embeddedModule (file text : String) : Run.Found :=
  ⟨"stdlib:" ++ file, "", Run.embeddedDisplay file, text⟩

theorem importModule_embedded {r : Recursor} {name nickname file text : String} {span : Span}
    (means : MeansEmbedded env w name) (called : Run.moduleFile name = file)
    (clean : Path.clean file = file) (inside : Path.isInside file = true)
    (found : Embedded.files.lookup file = some text) :
    Run.importModule r name nickname span env w =
      Run.runModule r (embeddedModule file text) nickname span env w := by
  subst called
  have path : Run.embeddedPath? env.setup (Run.moduleFile name) = some (Run.moduleFile name) := by
    simp only [Run.embeddedPath?, clean, means.stdlib, inside, Bool.and_self, if_true]
  have dirs : Run.searchDirs env w =
    .ok ((if (w.row env.self.index).dir = "" then "." else (w.row env.self.index).dir) ::
      env.setup.search) w := rfl
  have setup : (read : Eval Env) env w = .ok env w := rfl
  refine (Eval.bind_ok setup _).trans ?_
  refine (Eval.bind_ok dirs _).trans ?_
  simp only [means.alone, path, Option.bind_some, Run.findEmbedded?, found, Option.map_some]
  rfl

/-! ## Subroutines -/

/-- A subroutine is made of this definition, up to spans, in this scope. -/
structure Closes (f : Subroutine) (d : Routine) (scope : ScopeRef) (this : Option Owner) : Prop where
  name : f.name = d.name
  params : f.params = d.params.map (·.name)
  body : f.body.spanless = d.body
  scope : f.scope = scope
  this : f.this = this

namespace Room

variable (ρ : Room)

/-- The value of a definition. -/
def closure (d : Routine) (this : Option Owner) : Subroutine where
  name := d.name
  params := d.params.map (·.name)
  body := d.body
  scope := ρ.here
  this := this
  origin := (Eval.frameIn ρ.env ρ.outer).origin
  offset := d.span.start.offset

theorem closes_closure (d : Routine) (this : Option Owner) :
    Closes (ρ.closure d this) d.spanless ρ.here this := by
  obtain ⟨span, name, params, body⟩ := d
  refine ⟨rfl, ?_, rfl, rfl, rfl⟩
  change params.map (·.name) = (params.map Param.spanless).map (·.name)
  rw [List.map_map]
  rfl

theorem closure_eq (d : Routine) (this : Option Owner) (m : Memory) :
    Run.closure d this ρ.env (ρ.world m) = .ok (.subroutine (ρ.closure d this)) (ρ.world m) := by
  change EStateM.Result.ok (Value.subroutine
    ⟨d.name, d.params.map (·.name), d.body, (Eval.frameIn ρ.env ρ.outer).scope, this,
      (Eval.frameIn ρ.env ρ.outer).origin, d.span.start.offset⟩) (ρ.world m) = _
  rw [ρ.stands]
  rfl

/-- Defining subroutines one after the other. -/
theorem stmts_subroutines (r : Recursor) (load : Span → Expr → String → Eval Unit) (n : Nat) :
    ∀ (ds : List Routine) (m : Memory),
      (m.vars.names ++ ds.map (·.name)).Nodup →
      Run.stmts r load n (ds.map .subroutine) ρ.env (ρ.world m) = .ok .normal (ρ.world
        { m with vars := m.vars ++ ds.map fun d => (d.name, .subroutine (ρ.closure d none)) })
  | [], m, _ =>
    congrArg (fun vars => EStateM.Result.ok Flow.normal (ρ.world { m with vars }))
      (List.append_nil m.vars).symm
  | d :: ds, m, once => by
    have fresh : d.name ∉ m.vars.names := fun mem =>
      (List.nodup_append.mp once).2.2 _ mem _ List.mem_cons_self rfl
    have defined : Run.stmt r load n (.subroutine d) ρ.env (ρ.world m) = .ok .normal (ρ.world
        { m with vars := m.vars ++ [(d.name, Value.subroutine (ρ.closure d none))] }) := by
      rw [← Table.put_of_not_mem _ fresh]
      exact (Eval.bind_ok (ρ.closure_eq d none m) _).trans
        (Eval.bind_ok (ρ.bindSelf_eq d.span d.name _ m) _)
    refine (Eval.bind_ok defined _).trans ?_
    refine (stmts_subroutines r load n ds _ ?_).trans ?_
    · rw [Table.names, List.map_append]
      rwa [List.map_cons, List.append_cons] at once
    · rw [List.append_assoc]
      rfl

end Room

theorem exists_subroutines : ∀ {ds : List Routine} {ss : List Stmt},
    stmtsSpanless ss = ds.map .subroutine →
    ∃ ds' : List Routine, ss = ds'.map .subroutine ∧ ds'.map Routine.spanless = ds
  | [], [], _ => ⟨[], rfl, rfl⟩
  | [], s :: ss, h => nomatch h
  | d :: ds, [], h => nomatch h
  | d :: ds, s :: ss, h => by
    simp only [stmtsSpanless, List.map_cons, List.cons.injEq] at h
    obtain ⟨first, rest⟩ := h
    obtain ⟨ds', rfl, rfl⟩ := exists_subroutines rest
    cases s <;> simp only [Stmt.spanless, reduceCtorEq, Stmt.subroutine.injEq] at first
    next d' => exact ⟨d' :: ds', rfl, congrArg (· :: _) first⟩

/-- A scope in which the builtin functions and these subroutines are bound. -/
structure ModuleScope (sc : Scope) (root : ScopeRef) (ds : List Routine) : Prop where
  builtins : ∃ home, sc.bindings.Offers home
  routines : ∀ d ∈ ds, ∃ f, sc.bindings.get? d.name = some (.subroutine f) ∧ Closes f d root none

theorem offers_of_subset {t : Table Value} {home : InterpreterId} {k library : Nat}
    (once : t.names.Nodup) (some : rootTable home k library ⊆ t) : t.Offers home := by
  intro f mem
  have found : ∃ n, (f.1, Value.builtin ⟨n, f.1, f.2⟩) ∈ rootTable home k library := by
    rcases List.mem_append.mp mem with core | conversion
    · obtain ⟨n, found⟩ := Table.mem_builtins core k
      exact ⟨n, List.mem_append_left _ (List.mem_append_left _ found)⟩
    · obtain ⟨n, found⟩ := Table.mem_builtins conversion (k + 12)
      exact ⟨n, List.mem_append_right _ found⟩
  obtain ⟨n, found⟩ := found
  exact ⟨n, Table.get?_of_mem once (some found)⟩

/-- Importing an embedded module whose text runs like this. -/
theorem settles_import {name file text nickname : String} {span : Span} {b : Block} {flow : Flow}
    (means : MeansEmbedded env w name) (called : Run.moduleFile name = file)
    (clean : Path.clean file = file) (inside : Path.isInside file = true)
    (found : Embedded.files.lookup file = some text)
    (parsed : parse text (Run.embeddedDisplay file) = .ok b)
    (runs : Settles (fun n => (Run.run n).block b)
      (moduleRoom env w (embeddedModule file text) nickname).env
      ((moduleRoom env w (embeddedModule file text) nickname).world w.moduleMemory) flow
      ((moduleRoom env w (embeddedModule file text) nickname).world m)) :
    Settles (fun n => Run.importModule (Run.run n) name nickname span) env w
      (.module nickname ⟨w.heap.scopes.size⟩)
      ((moduleRoom env w (embeddedModule file text) nickname).world m) := by
  have new : (embeddedModule file text).key ∉ (w.row env.self.index).importing := called ▸ means.new
  exact (settles_runModule parsed new runs).of_eq fun n =>
    importModule_embedded means called clean inside found

/-- After an import, calls into the module can be made where calls could be made before. -/
theorem callable_import {f : Run.Found} {nickname : String}
    (self : env.self.index < w.interpreters.size)
    (shallow : (Eval.frameIn env w).depth < env.setup.maxDepth) (m : Memory) :
    Callable env ((moduleRoom env w f nickname).world m) ⟨w.heap.scopes.size⟩ where
  self := by
    change env.self.index < (w.interpreters.push _).size
    rw [Array.size_push]
    exact Nat.lt_succ_of_lt self
  shallow := by
    have same : Eval.frameIn env ((moduleRoom env w f nickname).world m) = Eval.frameIn env w := by
      change ((w.interpreters.push _).getD env.self.index default).frame = _
      rw [Eval.frameIn, Array.getD_eq_getD_getElem?, Array.getD_eq_getD_getElem?,
        Array.getElem?_push_lt self, Array.getElem?_eq_getElem self]
    rwa [same]
  inside := Nat.lt_of_lt_of_eq (Nat.lt_succ_self _) (Array.size_push ..).symm
  unobserved := congrArg Scope.observer ((moduleRoom env w f nickname).scope_here m)

/-- Importing an embedded module that defines subroutines. -/
theorem imports_subroutines {name file text nickname : String} {span : Span} {ds : List Routine}
    (means : MeansEmbedded env w name) (called : Run.moduleFile name = file)
    (clean : Path.clean file = file) (inside : Path.isInside file = true)
    (found : Embedded.files.lookup file = some text)
    (parses : ∃ b, parse text (Run.embeddedDisplay file) = .ok b ∧
      b.spanless = .mk default (ds.map .subroutine))
    (once : ((rootTable default 0 0).names ++ ds.map (·.name)).Nodup)
    (self : env.self.index < w.interpreters.size)
    (shallow : (Eval.frameIn env w).depth < env.setup.maxDepth) :
    ∃ root w₁, Settles (fun n => Run.importModule (Run.run n) name nickname span) env w
        (.module nickname root) w₁ ∧
      Callable env w₁ root ∧ ModuleScope (w₁.heap.scope root) root ds := by
  obtain ⟨⟨bspan, ss⟩, parsed, tree⟩ := parses
  simp only [Block.spanless, Block.mk.injEq, true_and] at tree
  obtain ⟨ds', rfl, rfl⟩ := exists_subroutines tree
  let ρ := moduleRoom env w (embeddedModule file text) nickname
  let vars := w.moduleMemory.vars ++ ds'.map fun d => (d.name, .subroutine (ρ.closure d none))
  have label (d : Routine) : d.spanless.name = d.name := by cases d; rfl
  have names : (w.moduleMemory.vars.names ++ ds'.map (·.name)).Nodup := by
    rw [List.map_map, names_rootTable] at once
    rw [World.moduleMemory, names_rootTable]
    simpa only [Function.comp_def, label] using once
  have runs : Settles (fun n => (Run.run n).block ⟨bspan, ds'.map .subroutine⟩) ρ.env
      (ρ.world w.moduleMemory) .normal (ρ.world { w.moduleMemory with vars }) :=
    .step (.always fun n => ρ.stmts_subroutines _ _ n ds' w.moduleMemory names)
  refine ⟨_, _, settles_import means called clean inside found parsed runs,
    callable_import self shallow _, ?_⟩
  have nodup : vars.names.Nodup := by
    rw [Table.names, List.map_append, List.map_map]
    exact names
  change ModuleScope ((ρ.world { w.moduleMemory with vars }).heap.scope ρ.here) ρ.here _
  rw [ρ.scope_here]
  refine ⟨⟨⟨w.interpreters.size⟩, offers_of_subset nodup (List.subset_append_left _ _)⟩, ?_⟩
  intro d mem
  obtain ⟨d', here, rfl⟩ := List.mem_map.mp mem
  refine ⟨ρ.closure d' none, ?_, ρ.closes_closure d' none⟩
  rw [label]
  exact Table.get?_of_mem nodup (List.mem_append_right _ (List.mem_map.mpr ⟨d', here, rfl⟩))

/-! ## Calling what a module offers -/

/-- A call of the member of a value settles. -/
def Calls (env : Env) (w : World) (v : Value) (name : String) (args : List Value) (result : Value)
    (w' : World) : Prop :=
  ∃ f, w.heap.storedProperty? v name = some f ∧
    ∀ span, Settles (fun n => (Run.run n).call f args span) env w result w'

/-- Calls can be made after a call as before. -/
theorem Callable.holding {root : ScopeRef} (callable : Callable env w root) (name : String)
    (parent : Option ScopeRef) (m : Memory) : Callable env (w.holding name parent m) root where
  self := callable.self
  shallow := callable.shallow
  inside := Nat.lt_of_lt_of_le callable.inside (Nat.le_of_lt (by
    rw [World.holding, Heap.holding, Array.size_push]
    exact Nat.lt_succ_self _))
  unobserved := by
    rw [World.holding, scope_holding_lt callable.inside]
    exact callable.unobserved

theorem lookup?_of_get? {h : Heap} {root : ScopeRef} {name : String} {v : Value}
    (inside : root.index < h.scopes.size) (bound : (h.scope root).bindings.get? name = some v) :
    h.lookup? root name = some v := by
  obtain ⟨k, more⟩ : ∃ k, h.scopes.size = k + 1 := ⟨h.scopes.size - 1, by omega⟩
  rw [Heap.lookup?, Heap.find?, more, Heap.findTo, bound]
  rfl

/-- Calling the subroutine that is stored under a name. -/
theorem Closes.calls {f : Subroutine} {d : Routine} {root : ScopeRef} {this : Option Owner} {v : Value}
    {args : List Value} {sp : Span} {body : List Stmt} {P : Flow → Memory → Prop}
    (closes : Closes f d root this) (callable : Callable env w root)
    (stored : w.heap.storedProperty? v d.name = some (.subroutine f))
    (arity : args.length = d.params.length)
    (binds : Binds w.heap d.name (some root) (w.memory (ownVars this))
      ((d.params.map (·.name)).zip args) m)
    (written : d.body = .mk sp body)
    (runs : ∀ origin, ∃ flow m', (callable.room d.name origin).Runs m body flow m' ∧ P flow m') :
    ∃ flow m', Calls env w v d.name args (Run.callResult flow) (w.holding d.name (some root) m') ∧
      P flow m' := by
  obtain ⟨name, params, fbody, scope, owner, origin, offset⟩ := f
  obtain ⟨rfl, rfl, same, rfl, rfl⟩ := closes
  obtain ⟨flow, m', runs, result⟩ := runs origin
  refine ⟨flow, m', ⟨_, stored, fun span => ?_⟩, result⟩
  exact settles_call callable (arity.trans (List.length_map _).symm) binds (same.trans written) runs

/-- A subroutine of a module is called by its name. -/
theorem ModuleScope.calls {root : ScopeRef} {ds : List Routine} {d : Routine} {nickname : String}
    {args : List Value} {sp : Span} {body : List Stmt} {P : Value → Memory → Prop}
    (module : ModuleScope (w.heap.scope root) root ds) (callable : Callable env w root) (mem : d ∈ ds)
    (arity : args.length = d.params.length)
    (binds : Binds w.heap d.name (some root) (w.memory []) ((d.params.map (·.name)).zip args) m)
    (written : d.body = .mk sp body)
    (runs : ∀ origin, ∃ v m', (callable.room d.name origin).Runs m body (.returned v) m' ∧ P v m') :
    ∃ v m', Calls env w (.module nickname root) d.name args v (w.holding d.name (some root) m') ∧
      P v m' := by
  obtain ⟨f, bound, closes⟩ := module.routines d mem
  have stored : w.heap.storedProperty? (.module nickname root) d.name = some (.subroutine f) :=
    lookup?_of_get? callable.inside bound
  obtain ⟨flow, m', calls, v, rfl, result⟩ := closes.calls (P := fun flow m' =>
    ∃ v, flow = .returned v ∧ P v m') callable stored arity binds written fun origin => by
      obtain ⟨v, m', runs, result⟩ := runs origin
      exact ⟨.returned v, m', runs, v, rfl, result⟩
  exact ⟨v, m', calls, result⟩

end Pseudocode
