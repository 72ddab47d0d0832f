import Pseudocode.Proofs.Places.History
/-
# `Proofs.Places.Failures` — runtime errors, their places and their causes

Operators, builtin functions and display methods raise errors that have no place yet; a node
further out gives them one.  `OUTPUT` does not: an error that comes from displaying a value
passes it by as it is.  An overseer that stops the run there shows that this is the only way
for an error to come out of a text without a place.

A module that fails makes the import fail by which it was run, and so on outwards.
Each import adds an error of its own, at its own statement, with the fault it came by as
the cause; an error about modules that import each other goes out as it is.  The overseer
stops the run where the text of a module fails in a given course of imports, none of which a
`TRY` encloses.  If that comes about, the fault that the program ends with is known
(`import_failures_wrapped`).
-/
namespace Pseudocode

instance : DecidablePred Fault.Located := fun f =>
  match f with
  | .runtime d _ | .moduleNotFound d _ _ => inferInstanceAs (Decidable (1 ≤ d.span.start.line))
  | .unplaced _ => .isFalse id
  | .source _ | .plain _ => .isTrue trivial

/-- Stops the run when `OUTPUT` passes on an error that has no place. -/
def Occasion.heedDisplay (_ : Course) : Occasion → Eval Unit
  | .undisplayed f => if f.Located then pure () else Eval.outOfFuel
  | _ => pure ()

theorem Occasion.oversees_heedDisplay (setup : Setup) (texts : List (String × String)) :
    (Likeness.plain setup texts True True .nothing).Oversees heedDisplay := by
  intro S w o _ _
  cases o with
  | calling callee args =>
    refine .passes ?_
    cases callee with
    | builtin b => exact fun _ => .inl trivial
    | _ => trivial
  | undisplayed f =>
    rw [heedDisplay]
    split
    next located => exact .passes fun _ => located
    next => exact .stops trivial
  | returning span v => exact .passes fun h => absurd h Bool.false_ne_true
  | _ => exact .passes trivial

/-- Whenever a text is run, by itself or out of a file, a runtime error that comes out of it
has a place, unless `OUTPUT` came by an error without one when it displayed a value.  That takes a
display method that is no subroutine without parameters, or one whose call goes beyond the limit of
depth. -/
theorem located_unless_undisplayed {texts : List (String × String)} {s : Session}
    {q : Session.Request} {f : Fault} (ran : s.Ran texts) (names : q.Names s texts)
    (runs : q.Runs)
    (heeded : (s.answer (Run.overseen Occasion.heedDisplay Session.bound .outset) q).1 ≠
      .error .outOfFuel)
    (failed : (s.answer Session.machine q).1 = .error (.fault f)) : f.Located := by
  have oversees := Occasion.oversees_heedDisplay s.setup ((q.text? s).toList ++ texts)
  rw [← ran.answer_eq names oversees heeded, Session.answer, Session.perform] at failed
  obtain ⟨o, w₀, -, -, ends⟩ := ran.opens names oversees
  generalize q.action Session.machine ⟨s.setup, Session.main⟩ s.world = k at ends
  generalize q.action (Run.overseen Occasion.heedDisplay Session.bound .outset)
    ⟨s.setup, Session.main⟩ s.world = l at ends failed
  cases ends with
  | fault _ _ _ located =>
    cases failed
    exact located trivial runs
  | _ => cases failed

/-- A division by zero has a place. -/
theorem located_unless_undisplayed_division :
    ∃ f, ((Session.start default).answer Session.machine (.run "OUTPUT 1 / 0")).1 =
        .error (.fault f) ∧
      ((Session.start default).answer (Run.overseen Occasion.heedDisplay Session.bound .outset)
        (.run "OUTPUT 1 / 0")).1 ≠ .error .outOfFuel ∧ f.Located := by
  have fails : (Failure.fault? ((Session.start default).answer Session.machine
      (.run "OUTPUT 1 / 0")).1).isSome = true := by decide +kernel
  have heeded : Failure.unanswered ((Session.start default).answer
      (Run.overseen Occasion.heedDisplay Session.bound .outset) (.run "OUTPUT 1 / 0")).1 = false := by
    decide +kernel
  obtain ⟨f, fault⟩ := Option.isSome_iff_exists.mp fails
  have failed := Failure.of_fault? fault
  have heeded := mt Failure.unanswered_iff.mpr (Bool.eq_false_iff.mp heeded)
  exact ⟨f, failed, heeded, located_unless_undisplayed (.start default) (.of_run _) trivial heeded failed⟩

/-- A class whose display method is a number is reported without a place. -/
theorem undisplayed_without_place :
    ∃ f, ((Session.start default).answer Session.machine
        (.run "CLASS C\n  STR ← 5\nENDCLASS\nOUTPUT C")).1 = .error (.fault f) ∧ ¬ f.Located := by
  have fails : ((Failure.fault? ((Session.start default).answer Session.machine
      (.run "CLASS C\n  STR ← 5\nENDCLASS\nOUTPUT C")).1).any fun f => decide ¬ f.Located) = true := by
    decide +kernel
  obtain ⟨f, fault, unlocated⟩ := (Option.any_eq_true _ _).mp fails
  exact ⟨f, Failure.of_fault? fault, of_decide_eq_true unlocated⟩

/-! ## Diagnostics and their source units

A diagnostic has its span from a node, its file name and its line from where execution
stands.  Execution changes where it stands with every call, and faults that have no place
yet get one from a caller further out, maybe out of another unit.  Nevertheless all three
always belong together. -/

/-- The diagnostics of a fault and of the faults that led to it. -/
def Fault.diagnostics : Fault → List Diagnostic
  | .runtime d none => [d]
  | .runtime d (some cause) => d :: cause.diagnostics
  | .moduleNotFound d _ _ => [d]
  | _ => []

/-- The diagnostics of a fault are at spans of code, if they have places. -/
theorem Likeness.Alike.placed {ℓ : Likeness} {m : Marks} {f f' : Fault} (h : ℓ.Alike m f f')
    {d : Diagnostic} (mem : d ∈ f.diagnostics) (somewhere : d.span.isNowhere = false) :
    ∃ d₀ o s, d = Diagnostic.at d₀ o s ∧ ℓ.spans o s := by
  have here : ∀ {d d' : Diagnostic}, ℓ.Like m d d' → d.span.isNowhere = false →
      ∃ d₀ o s, d = Diagnostic.at d₀ o s ∧ ℓ.spans o s := by
    intro d d' like somewhere
    cases like with
    | nowhere span => rw [span] at somewhere; cases somewhere
    | @placed d₀ o s spans => exact ⟨d₀, o, s, rfl, spans⟩
  induction h with
  | source | plain | unplaced => cases mem
  | runtime like =>
    cases List.mem_singleton.mp mem
    exact here like somewhere
  | caused like _ ih =>
    rcases List.mem_cons.mp mem with rfl | mem
    · exact here like somewhere
    · exact ih mem
  | missing name searched like =>
    cases List.mem_singleton.mp mem
    exact here like somewhere

/-- Diagnostics never mix source units.  If a request to a session fails, every diagnostic
of the fault or of one that led to it, unless it has no place, has the span of a node of one
text, the name under which that text was read, and the line of that text in which the span
starts; and the text is one that the session ran, or that of a module. -/
theorem diagnostic_of_one_unit {texts : List (String × String)} {s : Session}
    {q : Session.Request} {f : Fault} {d : Diagnostic} (ran : s.Ran texts)
    (names : q.Names s texts) (failed : (s.answer Session.machine q).1 = .error (.fault f))
    (mem : d ∈ f.diagnostics) (somewhere : d.span.isNowhere = false) :
    ∃ name text tree,
      ((name, text) ∈ (q.text? s).toList ++ texts ∨ s.setup.Offers name text) ∧
        parse text name = .ok tree ∧ d.span ∈ tree.spans ∧ d.file = name ∧
          d.source = lineText text d.span.start.line := by
  have oversees : (Likeness.plain s.setup ((q.text? s).toList ++ texts) False False
      .nothing).Oversees fun _ _ => pure () := Session.oversees_nothing id
  obtain ⟨o, w₀, -, -, ends⟩ := ran.opens names oversees
  generalize q.action Session.machine ⟨s.setup, Session.main⟩ s.world = k at ends
  rw [Run.overseen_nothing] at ends
  rw [Session.answer, Session.perform] at failed
  change Ends _ _ _ (q.action Session.machine ⟨s.setup, Session.main⟩ s.world) _ at ends
  generalize q.action Session.machine ⟨s.setup, Session.main⟩ s.world = l at ends failed
  cases ends with
  | fault _ _ alike =>
    cases failed
    obtain ⟨d₀, o, span, rfl, ⟨known, tree, parsed, node⟩⟩ := alike.placed mem somewhere
    exact ⟨o.name, o.text, tree, known, parsed, node, rfl, rfl⟩
  | _ => cases failed

/-- A subroutine of a module is kept by one text, and fails when the next one calls it.  The
diagnostic belongs to the module. -/
theorem diagnostic_of_one_unit_kept :
    let half := "SUBROUTINE half(x)\n  RETURN 1 / x\nENDSUBROUTINE"
    let o : Session.Options :=
      { (default : Session.Options) with
        setup := { (default : Setup) with maxDepth := 1000, files := .ofList "/w" [("m.ecp", half)] } }
    let s := ((Session.start o).answer Session.machine (.run "IMPORT \"m\"\nf ← m.half")).2
    ∃ f d, (s.answer Session.machine (.run "\n\nOUTPUT f(0)")).1 = .error (.fault f) ∧
      d ∈ f.diagnostics ∧ d.span.isNowhere = false ∧ d.file = "m.ecp" ∧ d.source = "  RETURN 1 / x" ∧
      ∃ name text tree,
        ((name, text) ∈ [("", "\n\nOUTPUT f(0)"), ("", "IMPORT \"m\"\nf ← m.half")] ∨
          s.setup.Offers name text) ∧
          parse text name = .ok tree ∧ d.span ∈ tree.spans ∧ d.file = name ∧
            d.source = lineText text d.span.start.line := by
  intro half o s
  have answered : Failure.unanswered ((Session.start o).answer Session.machine
      (.run "IMPORT \"m\"\nf ← m.half")).1 = false := by decide +kernel
  have ran : s.Ran (((Session.Request.run "IMPORT \"m\"\nf ← m.half").text? (.start o)).toList ++ []) :=
    .answer _ (.start o) (.of_run _) (mt Failure.unanswered_iff.mpr (Bool.eq_false_iff.mp answered))
  have fails : ((Failure.fault? (s.answer Session.machine (.run "\n\nOUTPUT f(0)")).1).any
      fun f => f.diagnostics.any fun d => !d.span.isNowhere && decide (d.file = "m.ecp") &&
        decide (d.source = "  RETURN 1 / x")) = true := by decide +kernel
  have names : ((Session.start o).world.row Session.main.index).name = "" ∧
      (s.world.row Session.main.index).name = "" := by decide +kernel
  obtain ⟨f, fault, placed⟩ := (Option.any_eq_true _ _).mp fails
  obtain ⟨d, mem, placed⟩ := List.any_eq_true.mp placed
  simp only [Bool.and_eq_true, Bool.not_eq_true', decide_eq_true_eq] at placed
  obtain ⟨⟨somewhere, file⟩, source⟩ := placed
  have failed := Failure.of_fault? fault
  have unit := diagnostic_of_one_unit ran (.of_run _) failed mem somewhere
  rw [Session.Request.text?, Session.Request.text?, names.1, names.2] at unit
  exact ⟨f, d, failed, mem, somewhere, file, source, unit⟩

/-! ## What a program fails with when a module fails -/

/-! ## Faults around faults -/

/-- The error of an import, at its statement. -/
structure Site.Reports (s : Site) (d : Diagnostic) : Prop where
  code : d.code = Code.importFailed.text
  span : d.span = s.span
  file : d.file = s.origin.name
  source : d.source = lineText s.origin.text s.span.start.line

/-- A fault around another one: some imports failed because of it, innermost first, and each
fault but the first was caused by the one before. -/
inductive Fault.Around (e : Fault) : List Site → Fault → Prop
  | bare : Around e [] e
  | imported {sites : List Site} {s : Site} {f : Fault} {d : Diagnostic} :
      Around e sites f → s.Reports d → Around e (sites ++ [s]) (.runtime d (some f))

/-- What a fault of a module has become outside of some imports, innermost first. -/
def Fault.Leaves (e : Fault) (sites : List Site) (f : Fault) : Prop :=
  if e.isCircular then f = e else e.Around sites f

variable {e f : Fault} {sites : List Site} {s : Site}

theorem Fault.Around.failure (h : e.Around sites f) (s : Site) :
    e.Around (sites ++ [s]) (s.failure f) := .imported h ⟨rfl, rfl, rfl, rfl⟩

/-- Around an error that is not about modules that import each other, there is none. -/
theorem Fault.Around.not_circular (h : e.Around sites f) (he : e.isCircular = false) :
    f.isCircular = false := by
  cases h with
  | bare => exact he
  | imported _ reports =>
    rw [isCircular, reports.code]
    decide

namespace Fault.Leaves

theorem circular (h : e.Leaves sites f) (hf : f.isCircular = true) (s : Site) :
    e.Leaves (sites ++ [s]) f := by
  by_cases he : e.isCircular = true
  · rw [Leaves, if_pos he] at h ⊢
    exact h
  · rw [Leaves, if_neg he] at h
    exact absurd hf (Bool.eq_false_iff.mp (h.not_circular (Bool.eq_false_iff.mpr he)))

theorem failure (h : e.Leaves sites f) (hf : f.isCircular = false) (s : Site) :
    e.Leaves (sites ++ [s]) (s.failure f) := by
  by_cases he : e.isCircular = true
  · rw [Leaves, if_pos he] at h
    rw [h, he] at hf
    cases hf
  · rw [Leaves, if_neg he] at h ⊢
    exact h.failure s

end Fault.Leaves

/-! ## The fault that is waited for -/

section Failing

variable (sites : List Site) (fails : Fault → Prop)

/-- The text of a module is to fail in a course of imports outside of any `TRY`, and the fault
to be passed on. -/
def Expectation.failing : Expectation where
  awaits c f := c = ⟨sites, false⟩ ∧ fails f
  expects c f := f.Settled ∧ c.tried = false ∧
    ∃ e inner, fails e ∧ sites = inner ++ c.sites ∧ e.Leaves inner f
  settled _ _ h := h.1
  untried _ _ h := h.2.1
  circular := by
    rintro c s f (⟨course, failed⟩ | ⟨-, untried, e, inner, failed, rfl, leaves⟩) circular settled
    · obtain rfl : s :: c.sites = sites := congrArg Course.sites course
      refine ⟨settled, congrArg Course.tried course, f, [s], failed, rfl, ?_⟩
      rw [Fault.Leaves, if_pos circular]
    · refine ⟨settled, untried, e, inner ++ [s], failed, ?_, leaves.circular circular s⟩
      rw [List.append_assoc]
      rfl
  wraps := by
    rintro c s f (⟨course, failed⟩ | ⟨-, untried, e, inner, failed, rfl, leaves⟩) linear lined
    · obtain rfl : s :: c.sites = sites := congrArg Course.sites course
      refine ⟨lined, congrArg Course.tried course, f, [s], failed, rfl, ?_⟩
      rw [Fault.Leaves, if_neg (Bool.eq_false_iff.mp linear)]
      exact Fault.Around.bare.failure s
    · refine ⟨lined, untried, e, inner ++ [s], failed, ?_, leaves.failure linear s⟩
      rw [List.append_assoc]
      rfl

/-- Stops the run where the text of a module fails in a course of imports outside of any
`TRY`. -/
def Occasion.heedFailure [DecidablePred fails] (c : Course) : Occasion → Eval Unit
  | .closing f => if c = ⟨sites, false⟩ ∧ fails f then Eval.outOfFuel else pure ()
  | _ => pure ()

theorem Occasion.oversees_heedFailure [DecidablePred fails] (setup : Setup)
    (texts : List (String × String)) :
    (Likeness.plain setup texts False False (.failing sites fails)).Oversees
      (heedFailure sites fails) := by
  intro S w o _ _
  cases o with
  | calling callee args =>
    refine .passes ?_
    cases callee with
    | builtin b => exact fun _ => .inl trivial
    | _ => trivial
  | closing f =>
    rw [heedFailure]
    split
    next awaited => exact .trips rfl awaited
    next => exact .passes trivial
  | undisplayed f => exact .passes False.elim
  | returning span v => exact .passes fun h => absurd h Bool.false_ne_true
  | _ => exact .passes trivial

end Failing

/-- If the text of a module fails inside of some imports, none of which a `TRY` encloses, the
program fails: with the same fault, if that is about modules that import each other, and
otherwise with as many import errors around the fault as there are imports, each at its own
statement. -/
theorem import_failures_wrapped {texts : List (String × String)} {s : Session}
    {q : Session.Request} (ran : s.Ran texts) (names : q.Names s texts) (sites : List Site)
    (fails : Fault → Prop) [DecidablePred fails]
    (failed : (s.answer (Run.overseen (Occasion.heedFailure sites fails) Session.bound .outset) q).1 =
      .error .outOfFuel)
    (answered : (s.answer Session.machine q).1 ≠ .error .outOfFuel) :
    ∃ e f, fails e ∧ (s.answer Session.machine q).1 = .error (.fault f) ∧ e.Leaves sites f := by
  have oversees := Occasion.oversees_heedFailure sites fails s.setup ((q.text? s).toList ++ texts)
  obtain ⟨o, w₀, -, -, ends⟩ := ran.opens names oversees
  rw [Session.answer, Session.perform] at failed answered ⊢
  generalize q.action Session.machine ⟨s.setup, Session.main⟩ s.world = k at ends answered ⊢
  generalize q.action (Run.overseen (Occasion.heedFailure sites fails) Session.bound .outset)
    ⟨s.setup, Session.main⟩ s.world = l at ends failed
  cases ends with
  | ok => cases failed
  | fault => cases failed
  | stopped stops =>
    cases stops with
    | fuel => exact absurd rfl answered
    | heard unheard => exact unheard.elim
    | @tripped f w' expected =>
      obtain ⟨-, -, e, inner, fails_e, same, leaves⟩ := expected
      have same : sites = inner := same.trans (List.append_nil inner)
      exact ⟨e, f, fails_e, rfl, same ▸ leaves⟩

/-- A program imports a module, that imports another one, and that divides by zero. -/
theorem import_failures_wrapped_division :
    let files := [("a.ecp", "IMPORT \"b\""), ("b.ecp", "OUTPUT 1 / 0")]
    let s := Session.start
      { (default : Session.Options) with
        setup := { (default : Setup) with files := .ofList "/w" files } }
    let inner : Site := ⟨⟨1⟩, ⟨2, "a.ecp", "IMPORT \"b\""⟩, ⟨⟨0, 1, 1⟩, ⟨10, 1, 11⟩⟩, "b"⟩
    let outer : Site := ⟨⟨0⟩, ⟨1, "", "\nIMPORT \"a\""⟩, ⟨⟨1, 2, 1⟩, ⟨11, 2, 11⟩⟩, "a"⟩
    ∃ e f : Fault, e.isCircular = false ∧
      (s.answer Session.machine (.run "\nIMPORT \"a\"")).1 = .error (.fault f) ∧
        e.Around [inner, outer] f := by
  intro files s inner outer
  have failed : Failure.unanswered (s.answer (Run.overseen (Occasion.heedFailure [inner, outer]
      fun e => e.isCircular = false) Session.bound .outset) (.run "\nIMPORT \"a\"")).1 = true := by
    decide +kernel
  have answered : Failure.unanswered (s.answer Session.machine (.run "\nIMPORT \"a\"")).1 = false := by
    decide +kernel
  obtain ⟨e, f, linear, fails, leaves⟩ :=
    import_failures_wrapped (.start _) (.of_run _) [inner, outer] (fun e => e.isCircular = false)
      (Failure.unanswered_iff.mp failed) (mt Failure.unanswered_iff.mpr (Bool.eq_false_iff.mp answered))
  rw [Fault.Leaves, if_neg (Bool.eq_false_iff.mp linear)] at leaves
  exact ⟨e, f, linear, fails, leaves⟩

end Pseudocode
