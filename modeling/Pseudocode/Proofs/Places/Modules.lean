import Pseudocode.Proofs.Places.History
import Pseudocode.Proofs.Places.Keys
/-
# `Proofs.Places.Modules` — which modules run, and where they are looked for

Every interpreter has a list of the imports in progress that led to it.  A module is run by
an interpreter of its own, whose list is one longer than that of the importing one.  A
subroutine of one module may execute an import on the interpreter of another; it is the
list of the interpreter that counts.  The overseer sounds an alarm wherever the lists are not
as they should be.  No run ever hears it, whatever the alarm does (`imports_never_circular`).

An import looks into the directory of the interpreter that executes it.  An interpreter is
made for one file and has its directory, so outside of calls, and in the subroutines of its
own file, an import looks beside the file that it is written in
(`imports_searched_beside`).  A call takes the code of the callee along, but not its
directory: a subroutine of a module looks beside the file that calls it
(`import_in_subroutine_beside_caller`).
-/
namespace Pseudocode

/-- What holds of the imports in progress whenever the overseer is asked. -/
structure Occasion.Nested (c : Course) (o : Occasion) (env : Env) (w : World) : Prop where
  /-- No module is imported by itself. -/
  acyclic : (w.row env.self.index).importing.Nodup
  /-- No more modules run inside of each other than there are, and one file more. -/
  bounded : c.sites.length ≤ env.setup.files.modules.length + Embedded.files.length + 1
  /-- The interpreter of a module goes one further than the one that imports it. -/
  further : ∀ m, o = .opening m → ∃ s sites, c.sites = s :: sites ∧
    m.key ∉ (w.row s.importer.index).importing ∧
      (w.row env.self.index).importing = (w.row s.importer.index).importing ++ [m.key]

open Classical in
/-- Sounds an alarm unless imports are nested. -/
noncomputable def Occasion.heedImports (alarm : Eval Unit) (c : Course) (o : Occasion) : Eval Unit :=
  fun env w => if o.Nested c env w then .ok () w else alarm env w

/-- Wherever the overseer is asked, imports are nested. -/
theorem Stand.Ready.nested {ℓ : Likeness} {S : Stand ℓ} {w : World} (ready : S.Ready w)
    (rooted : Path.isAbsolute ℓ.setup.files.working = true) {o : Occasion} (meets : S.Meets w o) :
    o.Nested S.course S.env w where
  acyclic := ready.row.acyclic
  bounded := by
    have level := ready.level
    have nested := ready.row.nested.length_le
    have bounded := ready.row.chained.length_le rooted ready.row.acyclic
    change S.course.sites.length ≤ ℓ.setup.files.modules.length + Embedded.files.length + 1
    omega
  further m same := by
    subst same
    exact meets

theorem Occasion.oversees_heedImports (alarm : Eval Unit) {setup : Setup}
    (rooted : Path.isAbsolute setup.files.working = true) (texts : List (String × String)) :
    (Likeness.plain setup texts False False .nothing).Oversees (heedImports alarm) := by
  intro S w o ready meets
  have answers : S.Answers w o (.ok () w) := Session.oversees_nothing id S w o ready meets
  rw [heedImports, if_pos (ready.nested rooted meets)]
  exact answers

namespace Run

/-- The source module that an interpreter finds under a name: in a file, or in the embedded
library. -/
def sourceModule? (env : Env) (w : World) (name : String) : Option Found :=
  let dir := (w.row env.self.index).dir
  let dirs := (if dir = "" then "." else dir) :: env.setup.search
  (findFile? env.setup.files (dirs.map (candidate (moduleFile name)))).or
    ((embeddedPath? env.setup (moduleFile name)).bind findEmbedded?)

variable {env : Env} {w : World} {m : Found} {span : Span} {name nickname : String}

/-- To import a source module is to run it. -/
theorem importModule_found (r : Recursor) (found : sourceModule? env w name = some m) :
    importModule r name nickname span env w = runModule r m nickname span env w := by
  have look : (read : Eval Env) env w = .ok env w := rfl
  have search : searchDirs env w =
      .ok ((if (w.row env.self.index).dir = "" then "." else (w.row env.self.index).dir) ::
        env.setup.search) w := rfl
  rw [importModule, Eval.bind_ok look]
  dsimp only
  rw [Eval.bind_ok search]
  rw [sourceModule?] at found
  rcases Option.or_eq_some_iff.mp found with file | ⟨missing, embedded⟩
  · rw [file]
  · rw [missing]
    simp only [embedded]

/-- A module that is being imported is not run once more. -/
theorem runModule_circular (r : Recursor) (again : m.key ∈ (w.row env.self.index).importing) :
    ∃ d, runModule r m nickname span env w = .error (.fault (.runtime d none)) w ∧
      d.code = Code.circular.text ∧ d.message = "circular import: " ++
        " -> ".intercalate ((w.row env.self.index).importing ++ [m.key]) ∧ d.span = span := by
  have self : Eval.self env w = .ok (w.row env.self.index) w := rfl
  rw [runModule, Eval.bind_ok self]
  dsimp only
  rw [if_pos (List.elem_iff.mpr again)]
  refine ⟨_, rfl, ?_⟩
  rw [Diagnostic.inText]
  split <;> exact ⟨rfl, rfl, rfl⟩

end Run

/-- Imports are nested in every run: none is in progress twice, each one goes one further, and
they are no deeper than there are modules.  To import what is being imported fails, and runs
nothing of it. -/
theorem imports_never_circular {texts : List (String × String)} {s : Session}
    {q : Session.Request} (ran : s.Ran texts) (names : q.Names s texts)
    (rooted : Path.isAbsolute s.setup.files.working = true) (n : Nat) (alarm : Eval Unit) :
    s.answer (Run.overseen (Occasion.heedImports alarm) n .outset) q = s.answer (Run.run n) q ∧
      ∀ (r : Recursor) (env : Env) (w : World) (name nickname : String) (span : Span) (m : Run.Found),
        Run.sourceModule? env w name = some m → m.key ∈ (w.row env.self.index).importing →
          ∃ d, Run.importModule r name nickname span env w = .error (.fault (.runtime d none)) w ∧
            d.code = Code.circular.text ∧ d.message = "circular import: " ++
              " -> ".intercalate ((w.row env.self.index).importing ++ [m.key]) ∧ d.span = span := by
  constructor
  · exact ran.answer_undisturbed n names (Occasion.oversees_heedImports alarm rooted _)
  · intro r env w name nickname span m found again
    rw [Run.importModule_found r found]
    exact Run.runModule_circular r again

/-- A module that imports itself, on the way in which no alarm goes off. -/
theorem imports_never_circular_self :
    let s := Session.start
      { (default : Session.Options) with
        setup := { (default : Setup) with files := .ofList "/w" [("a.ecp", "IMPORT \"a\"")] } }
    s.answer (Run.overseen (Occasion.heedImports Eval.outOfFuel) Session.bound .outset)
        (.run "IMPORT \"a\"") = s.answer Session.machine (.run "IMPORT \"a\"") ∧
      (Failure.fault? (s.answer Session.machine (.run "IMPORT \"a\"")).1).any Fault.isCircular =
        true := by
  intro s
  have ran : s.Ran [] := .start _
  have rooted : Path.isAbsolute s.setup.files.working = true := by
    rw [Session.setup_start]
    rfl
  exact ⟨(imports_never_circular ran (.of_run _) rooted Session.bound Eval.outOfFuel).1, by decide +kernel⟩

/-! ## Directories -/

/-- The directory of the file that an import is written in comes first among those that are
searched.  The embedded library has no directories: there, the working directory comes first. -/
def Occasion.Beside (o : Occasion) (env : Env) (w : World) : Prop :=
  let i := w.row env.self.index
  ∀ name, o = .seeking name → i.frame.depth = 0 ∨ i.frame.origin.name = i.name →
    i.frame.origin.name ≠ "" → ∃ first, Run.searchDirs env w = .ok (first :: env.setup.search) w ∧
      (first = Path.directory i.frame.origin.name ∨
        first = "." ∧ ∃ path, i.frame.origin.name = Run.embeddedDisplay path)

open Classical in
/-- Sounds an alarm where an import does not look beside its file. -/
noncomputable def Occasion.heedSearch (alarm : Eval Unit) (_ : Course) (o : Occasion) : Eval Unit :=
  fun env w => if o.Beside env w then .ok () w else alarm env w

variable {texts : List (String × String)} {setup : Setup}

/-- Wherever the overseer is asked, imports look beside their files. -/
theorem Stand.Ready.beside {S : Stand (.along setup texts False False .nothing false Session.AtHome)}
    {w : World} (ready : S.Ready w) {o : Occasion} (meets : S.Meets w o) : o.Beside S.env w := by
  intro name same outside named
  subst same
  have search : Run.searchDirs S.env w =
      .ok ((if (w.row S.self.index).dir = "" then "." else (w.row S.self.index).dir) ::
        S.env.setup.search) w := rfl
  have stable := ready.row
  have here := ready.here
  change (w.row S.self.index).frame.depth = 0 ∨
    (w.row S.self.index).frame.origin.name = (w.row S.self.index).name at outside
  change (w.row S.self.index).frame.origin.name ≠ "" at named
  change ∃ first, _ ∧ (first = Path.directory (w.row S.self.index).frame.origin.name ∨
    first = "." ∧ ∃ path, (w.row S.self.index).frame.origin.name = Run.embeddedDisplay path)
  generalize w.row S.self.index = i at search stable here outside named ⊢
  have unit : i.frame.origin.unit ≠ 0 := by
    rw [here]
    exact meets
  have own : i.frame.origin.name = i.name := by
    rcases outside with outside | own
    · rcases stable.lexical outside with none | own | unnamed
      · exact absurd none unit
      · exact own
      · exact absurd unnamed named
    · exact own
  refine ⟨_, search, ?_⟩
  rw [own]
  have filed : ∀ {n : String}, i.dir = Path.directory n → ¬ i.dir = "" := by
    intro n dir empty
    exact Path.directory_ne_empty n (dir.symm.trans empty)
  rcases stable.dir with (dir | ⟨dir, path, embedded⟩) | ⟨-, unnamed⟩ | ⟨-, dir⟩
  · exact .inl ((if_neg (filed dir)).trans dir)
  · exact .inr ⟨if_pos dir, path, embedded⟩
  · exact absurd (own.trans unnamed) named
  · exact .inl ((if_neg (filed dir)).trans dir)

theorem Occasion.oversees_heedSearch (alarm : Eval Unit) :
    (Likeness.along setup texts False False .nothing false Session.AtHome).Oversees
      (heedSearch alarm) := by
  intro S w o ready meets
  have answers : S.Answers w o (.ok () w) := Session.oversees_nothing id S w o ready meets
  rw [heedSearch, if_pos (ready.beside meets)]
  exact answers

/-- If a session is set up with the directory of the file that it is named after, or with neither,
every import that is executed outside of calls, or in a subroutine of the file that the interpreter
runs, looks beside the file that it is written in before it looks anywhere else. -/
theorem imports_searched_beside {o : Session.Options} (home : Session.AtHome o.dir o.name)
    {s : Session} {q : Session.Request} (ran : Session.RanFrom o texts s) (names : q.Names s texts)
    (n : Nat) (alarm : Eval Unit) :
    s.answer (Run.overseen (Occasion.heedSearch alarm) n .outset) q = s.answer (Run.run n) q := by
  have opened := Session.opens_overseen n (Occasion.oversees_heedSearch alarm)
    (ran.ready_atHome home) names fun path text _ found => (ran.atHome home).begin fun same =>
      FileTree.read_empty _ (same ▸ found)
  obtain ⟨origin, w₀, -, -, ends⟩ := opened
  rw [show (Renaming.muting false).world s.world = s.world from Renaming.world_identity _] at ends
  exact Session.answer_congr (Session.ends_eq_undisturbed ends id fun _ _ => id)

/-- A file in a directory is run, and then a subroutine of it is called from a second text.  It
imports the module beside the file, and not the one in the working directory. -/
theorem imports_searched_beside_later :
    let get := "SUBROUTINE get()\n  IMPORT \"inner\"\n  RETURN inner.v\nENDSUBROUTINE\n"
    let files := [("pkg/main.ecp", get), ("pkg/inner.ecp", "v ← 1"), ("inner.ecp", "v ← 2")]
    let o : Session.Options :=
      { (default : Session.Options) with
        dir := "pkg"
        name := "pkg/main.ecp"
        setup := { (default : Setup) with maxDepth := 1000, files := .ofList "/w" files } }
    let s := ((Session.start o).answer Session.machine (.runFile "pkg/main.ecp")).2
    Session.AtHome o.dir o.name ∧ (∃ texts, Session.RanFrom o texts s) ∧
      s.answer (Run.overseen (Occasion.heedSearch Eval.outOfFuel) Session.bound .outset)
        (.run "OUTPUT get()") = s.answer Session.machine (.run "OUTPUT get()") ∧
      (s.answer Session.machine (.run "OUTPUT get()")).2.world.output = "1\n" := by
  intro get files o s
  have home : Session.AtHome o.dir o.name := .inr ⟨by decide, by decide +kernel⟩
  have answered : Failure.unanswered ((Session.start o).answer Session.machine
      (.runFile "pkg/main.ecp")).1 = false := by decide +kernel
  have ran := Session.RanFrom.start.answer (o := o) (.runFile "pkg/main.ecp") (.of_runFile _)
    (mt Failure.unanswered_iff.mpr (Bool.eq_false_iff.mp answered))
  exact ⟨home, ⟨_, ran⟩, imports_searched_beside home ran (.of_run _) Session.bound Eval.outOfFuel,
    by decide +kernel⟩

/-- A subroutine of a module, called from a text in the working directory, imports the module
there, and not the one beside its own file. -/
theorem import_in_subroutine_beside_caller :
    let lib := "SUBROUTINE get()\n  IMPORT \"inner\"\n  RETURN inner.v\nENDSUBROUTINE\n"
    let files := [("pkg/lib.ecp", lib), ("pkg/inner.ecp", "v ← 1\n"), ("inner.ecp", "v ← 2\n")]
    let o : Session.Options :=
      { (default : Session.Options) with
        setup := { (default : Setup) with maxDepth := 1000, files := .ofList "/w" files } }
    ((Session.start o).answer Session.machine
      (.run "IMPORT \"pkg/lib\"\nOUTPUT lib.get()")).2.world.output = "2\n" := by
  decide +kernel

end Pseudocode
