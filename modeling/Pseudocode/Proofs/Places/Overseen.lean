import Pseudocode.Proofs.Execution.Confined
/-
# `Proofs.Places.Overseen` — execution with an overseer

`Run.overseen` is the machine with an action of our own in it, the overseer.  It is
performed on certain occasions: where a value is called, where `OUTPUT` fails to display a
value, where a value is one of several that are returned, and where a module is looked
for, opened, or has failed.  It is told where the run is (`Course`): which imports are in
progress, and whether the run is inside of a `TRY`.

An overseer that stops the machine on an occasion says, by that, that the occasion came
up.  One that does nothing makes no difference (`Run.overseen_nothing`).

The rules that are overseen are those of the machine with the actions on these occasions
as parameters, so each of them is followed by its equation.
-/
namespace Pseudocode

/-! ## Occasions -/

/-- An import in progress: who imports, and the statement that does. -/
structure Site where
  importer : InterpreterId
  origin : Origin
  span : Span
  nickname : String
deriving DecidableEq

/-- Where a run is. -/
structure Course where
  /-- The imports in progress, innermost first. -/
  sites : List Site
  /-- Is the run inside of a `TRY`? -/
  tried : Bool
deriving DecidableEq

namespace Course

/-- At the start. -/
def outset : Course := ⟨[], false⟩

/-- Inside of a `TRY`. -/
def trying (c : Course) : Course := { c with tried := true }

/-- Inside of one more import. -/
def into (c : Course) (s : Site) : Course := { c with sites := s :: c.sites }

end Course

/-- When the overseer is asked. -/
inductive Occasion where
  /-- A value is about to be called. -/
  | calling (callee : Value) (args : List Value)
  /-- `OUTPUT` failed to display a value. -/
  | undisplayed (f : Fault)
  /-- A value is one of several that a statement returns. -/
  | returning (span : Span) (v : Value)
  /-- A module is about to be looked for. -/
  | seeking (name : String)
  /-- The text of a module is about to be read, by an interpreter of its own. -/
  | opening (m : Run.Found)
  /-- The text of a module failed. -/
  | closing (f : Fault)

/-- Asks the overseer about a fault that comes out of an action. -/
def Eval.overseeing {α : Type} (ask : Fault → Eval Unit) (x : Eval α) : Eval α :=
  tryCatch x fun
    | .fault f => do
      ask f
      Eval.raise f
    | .outOfFuel => Eval.outOfFuel

theorem Eval.overseeing_nothing {α : Type} (x : Eval α) : overseeing (fun _ => pure ()) x = x := by
  funext env w
  rw [overseeing]
  cases hx : x env w with
  | ok a w' => exact tryCatch_ok hx _
  | error e w' =>
    rw [tryCatch_error hx]
    cases e <;> rfl

/-! Looking at what is not used makes no difference. -/

theorem Eval.unread {α : Type} (x : Eval α) : ((read : Eval Env) >>= fun _ => x) = x := rfl

theorem Eval.unframed {α : Type} (x : Eval α) : (frame >>= fun _ => x) = x := rfl

namespace Run

/-! ## Rules with their occasions -/

/-- `OUTPUT`, given how a value is displayed. -/
def outputWith (display : Value → Eval String) (r : Recursor) (args : List Expr) : Eval Value := do
  let vs ← r.exprs args
  let parts ← vs.mapM display
  Eval.write (" ".intercalate parts ++ "\n")
  return .none

/-- `RETURN`, given how the returned expressions are evaluated. -/
def returnWith (value : Expr → Eval Value) (args : List Expr) : Eval Flow := do
  return .returned (← returnValue (← args.mapM value))

theorem exprStmt_returns (r : Recursor) (span : Span) (args : List Expr) :
    exprStmt r (.magic span .returns args) = returnWith r.expr args := rfl

/-- `TRY` with its `CATCH`, each block with its recursor. -/
def attemptWith (tried r : Recursor) (body rescue : Block) : Eval Flow :=
  tryCatch (tried.block body) fun
    | .fault f => if f.catchable then r.block rescue else Eval.raise f
    | .outOfFuel => Eval.outOfFuel

/-- Runs a module on an interpreter of its own, given how its text is run there. -/
def runModuleWith (exec : Found → Eval Unit) (m : Found) (nickname : String) (span : Span) :
    Eval Value := do
  let importing := (← Eval.self).importing
  let chain := importing ++ [m.key]
  if importing.contains m.key then
    Eval.failAt span ⟨.circular, "circular import: " ++ " -> ".intercalate chain⟩
  let child ← newInterpreter ("module:" ++ nickname) m.dir m.display chain []
  tryCatch (Eval.on child (exec m)) fun
    | .fault f => if f.isCircular then Eval.raise f else importFailed nickname span f
    | .outOfFuel => Eval.outOfFuel
  return .module nickname (← Eval.interpreter child).root

theorem runModule_eq (r : Recursor) (m : Found) (nickname : String) (span : Span) :
    runModule r m nickname span = runModuleWith (fun m => runSource r m.text) m nickname span := rfl

/-- The module a name means, given how a module runs that is found. -/
def importWith (runs : Found → Eval Value) (name : String) (span : Span) : Eval Value := do
  let setup := (← read).setup
  let file := moduleFile name
  let candidates := (← searchDirs).map (candidate file)
  match findFile? setup.files candidates with
  | some m => runs m
  | none =>
    let path? := embeddedPath? setup file
    match path?.bind findEmbedded? with
    | some m => runs m
    | none => importExtension name span (candidates ++ (path?.map embeddedDisplay).toList)

theorem importModule_eq (r : Recursor) (name nickname : String) (span : Span) :
    importModule r name nickname span = importWith (runModule r · nickname span) name span := rfl

/-- `IMPORT`, given how the module is imported that it names. -/
def loadWith (imports : String → String → Eval Value) (r : Recursor) (span : Span)
    (location : Expr) (nickname : String) : Eval Unit := do
  match ← r.expr location with
  | .string name =>
    let nickname := aliasOf name nickname
    Eval.bindSelf span nickname (← imports name nickname)
  | v =>
    let type ← Eval.inHeap (·.typeName v)
    Eval.failAt location.span (.type s!"IMPORT location must be a String, got '{type}'")

theorem load_eq_loadWith (r : Recursor) (span : Span) (location : Expr) (nickname : String) :
    load r span location nickname =
      loadWith (fun name nickname => importModule r name nickname span) r span location nickname :=
  rfl

/-! ## The machine -/

section Overseen

variable (watch : Course → Occasion → Eval Unit) (machines : Course → Recursor) (c : Course)

/-- Evaluates an expression. -/
def overseenExpr (e : Expr) : Eval Value :=
  match e with
  | .magic _ .output args =>
    outputWith (fun v => Eval.overseeing (watch c ∘ .undisplayed) ((machines c).str v))
      (machines c) args
  | e => expr (machines c) e

/-- Reads the text of a module. -/
def overseenModule (m : Found) : Eval Unit := do
  watch c (.opening m)
  Eval.overseeing (watch c ∘ .closing) (runSource (machines c) m.text)

/-- Imports a module. -/
def overseenImport (span : Span) (name nickname : String) : Eval Value := do
  watch c (.seeking name)
  let site : Site := ⟨(← read).self, (← Eval.frame).origin, span, nickname⟩
  importWith (runModuleWith (overseenModule watch machines (c.into site)) · nickname span) name span

/-- Executes a statement. -/
def overseenStmt (n : Nat) (s : Stmt) : Eval Flow :=
  match s with
  | .expr (.magic span .returns args) =>
    if args.length < 2 then returnWith (machines c).expr args
    else
      returnWith (fun e => do
        let v ← (machines c).expr e
        watch c (.returning span v)
        return v) args
  | .attempt _ body rescue => attemptWith (machines c.trying) (machines c) body rescue
  | .load span location nickname => do
    loadWith (overseenImport watch machines c span) (machines c) span location nickname
    return .normal
  | s => stmt (machines c) (load (machines c)) n s

end Overseen

/-- Carries out a task within a bound, with an overseer. -/
def overseen (watch : Course → Occasion → Eval Unit) : (bound : Nat) → Course → Recursor
  | 0, _ => fun _ _ => Eval.outOfFuel
  | n + 1, c => fun _ task =>
    match task with
    | .expr e => overseenExpr watch (overseen watch n) c e
    | .block b => stmtsWith (overseenStmt watch (overseen watch n) c n) b.body
    | .call callee args span => do
      watch c (.calling callee args)
      call (overseen watch n c) (native (overseen watch n c)) callee args span
    | .str v => str (overseen watch n c) v
    | .repr v => repr (overseen watch n c) v

/-! ## An overseer that does nothing -/

section Nothing

variable {r : Recursor} {c : Course}

theorem overseenExpr_nothing (e : Expr) :
    overseenExpr (fun _ _ => pure ()) (fun _ => r) c e = expr r e := by
  have display : (fun v => Eval.overseeing ((fun _ : Occasion => (pure () : Eval Unit)) ∘
      Occasion.undisplayed) (r.str v)) = r.str := funext fun v => Eval.overseeing_nothing (r.str v)
  cases e with
  | magic span word args =>
    cases word with
    | output => exact congrArg (fun d => outputWith d r args) display
    | _ => rfl
  | _ => rfl

theorem overseenModule_nothing (c : Course) :
    overseenModule (fun _ _ => pure ()) (fun _ => r) c = fun m => runSource r m.text :=
  funext fun m => Eval.overseeing_nothing (runSource r m.text)

theorem overseenImport_nothing (span : Span) (name nickname : String) :
    overseenImport (fun _ _ => pure ()) (fun _ => r) c span name nickname =
      importModule r name nickname span := by
  have runs (site : Site) : (runModuleWith (overseenModule (fun _ _ => pure ()) (fun _ => r)
      (c.into site)) · nickname span) = (runModule r · nickname span) := by
    rw [overseenModule_nothing]
    rfl
  simp only [overseenImport, runs, pure_bind, Eval.unread, Eval.unframed, importModule_eq]

theorem overseenStmt_nothing (n : Nat) (s : Stmt) :
    overseenStmt (fun _ _ => pure ()) (fun _ => r) c n s = stmt r (load r) n s := by
  cases s with
  | expr e =>
    cases e with
    | magic span word args =>
      cases word with
      | returns =>
        have value : (fun e => r.expr e >>= fun v => (pure () : Eval Unit) >>= fun _ => pure v) =
            r.expr := funext fun e => bind_pure (r.expr e)
        rw [overseenStmt]
        split
        · rfl
        · exact congrArg (returnWith · args) value
      | _ => rfl
    | _ => rfl
  | load span location nickname =>
    have imports : overseenImport (fun _ _ => pure ()) (fun _ => r) c span =
        fun name nickname => importModule r name nickname span :=
      funext₂ (overseenImport_nothing span)
    rw [overseenStmt, imports]
    rfl
  | _ => rfl

/-- With an overseer that does nothing, the machine is the one that runs. -/
theorem overseen_nothing : ∀ (n : Nat) (c : Course), overseen (fun _ _ => pure ()) n c = run n
  | 0, _ => rfl
  | n + 1, c => by
    have inner : overseen (fun _ _ => pure ()) n = fun _ => run n := funext (overseen_nothing n)
    funext α task
    rw [overseen, inner]
    cases task with
    | expr e => exact overseenExpr_nothing e
    | block b =>
      have one : overseenStmt (fun _ _ => pure ()) (fun _ => run n) c n =
          stmt (run n) (load (run n)) n := funext (overseenStmt_nothing n)
      change stmtsWith (overseenStmt _ (fun _ => run n) c n) b.body = _
      rw [one]
      exact stmtsWith_stmt (run n) (load (run n)) n b.body
    | _ => rfl

end Nothing

end Run

end Pseudocode
