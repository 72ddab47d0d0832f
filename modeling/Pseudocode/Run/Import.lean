import Pseudocode.Library.Embedded
import Pseudocode.Run.Interpreter
import Pseudocode.Text.Hint
/-
# `Run.Import` — importing modules

A module is looked for in the directory of the importing program, along the
search path, in the embedded library, and among the extensions.  The text of a
module runs on an interpreter of its own at every import; modules that import
each other in a circle are refused.
-/
namespace Pseudocode.Run

variable (r : Recursor)

/-- The ending of files that hold modules. -/
def moduleEnding : String := ".ecp"

/-- The file that holds a module. -/
def moduleFile (name : String) : String := Path.dropEnding moduleEnding name ++ moduleEnding

/-- The name a module is bound to unless another one is given. -/
def defaultAlias (name : String) : String := Path.dropEnding moduleEnding (Path.base name)

/-! ## Where modules are -/

/-- The directories that are searched, in order. -/
def searchDirs : Eval (List String) := do
  let dir := (← Eval.self).dir
  return (if dir = "" then "." else dir) :: (← read).setup.search

/-- The path of a module's file in a directory. -/
def candidate (file dir : String) : String :=
  if Path.isAbsolute file then file else Path.join dir file

/-- A module text that was found. -/
structure Found where
  /-- What identifies the module. -/
  key : String
  dir : String
  /-- The name it is reported under. -/
  display : String
  text : String

/-- The first candidate that is a file. -/
def findFile? (files : FileTree) : List String → Option Found
  | [] => none
  | path :: rest =>
    match files.fileAt? path with
    | some text => some ⟨Path.absolute files.working path, Path.directory path, path, text⟩
    | none => findFile? files rest

/-- The path of a module's file in the embedded library, if it can have one. -/
def embeddedPath? (setup : Setup) (file : String) : Option String :=
  let path := Path.clean file
  if setup.stdlib && Path.isInside path then some path else none

/-- How paths of the embedded library are shown. -/
def embeddedDisplay (path : String) : String := "<stdlib>/" ++ path

/-- The text of a module in the embedded library. -/
def findEmbedded? (path : String) : Option Found :=
  (Embedded.files.lookup path).map fun text =>
    ⟨"stdlib:" ++ path, "", embeddedDisplay path, text⟩

/-- The names of the modules among the files of a directory. -/
def moduleNames (entries : List String) : List String :=
  (entries.filter (Path.endsIn moduleEnding)).map (Path.dropEnding moduleEnding)

/-- The modules that could be meant by an unknown name. -/
def availableModules : Eval (List String) := do
  let setup := (← read).setup
  let inFiles := (← searchDirs).flatMap fun dir => moduleNames (setup.files.entries dir)
  let embedded := if setup.stdlib then moduleNames (Embedded.files.map Prod.fst) else []
  return inFiles ++ embedded ++ Extension.names setup

/-! ## Running modules -/

/-- The text up to the first line break. -/
def firstLine (s : String) : String := String.ofList (s.toList.takeWhile (· != '\n'))

/-- An import that failed because of another fault. -/
def importFailed {α : Type} (name : String) (span : Span) (cause : Fault) : Eval α := do
  let message := s!"error importing module '{name}': {firstLine cause.text}"
  Eval.raise (.runtime (← Eval.diagnose span ⟨.importFailed, message⟩) (some cause))

/-- Runs the text of a module on an interpreter of its own. -/
def runModule (m : Found) (nickname : String) (span : Span) : Eval Value := do
  let importing := (← Eval.self).importing
  let chain := importing ++ [m.key]
  if importing.contains m.key then
    Eval.failAt span ⟨.circular, "circular import: " ++ " -> ".intercalate chain⟩
  let child ← newInterpreter ("module:" ++ nickname) m.dir m.display chain []
  tryCatch (Eval.on child (runSource r m.text)) fun
    | .fault f => if f.isCircular then Eval.raise f else importFailed nickname span f
    | .outOfFuel => Eval.outOfFuel
  return .module nickname (← Eval.interpreter child).root

/-- The module of an extension, or the report that there is no such module. -/
def importExtension (name : String) (span : Span) (searched : List String) : Eval Value := do
  match Extension.find? (← read).setup name with
  | some e =>
    tryCatch e.load fun
      | .fault f => importFailed name span f
      | .outOfFuel => Eval.outOfFuel
  | none =>
    let hint := Text.hint name (← availableModules)
    let d ← Eval.diagnose span ⟨.moduleMissing, s!"module '{name}' not found"⟩
    Eval.raise (.moduleNotFound { d with hint } name searched)

/-- The module a name means. -/
def importModule (name nickname : String) (span : Span) : Eval Value := do
  let setup := (← read).setup
  let file := moduleFile name
  let candidates := (← searchDirs).map (candidate file)
  match findFile? setup.files candidates with
  | some m => runModule r m nickname span
  | none =>
    let path? := embeddedPath? setup file
    match path?.bind findEmbedded? with
    | some m => runModule r m nickname span
    | none => importExtension name span (candidates ++ (path?.map embeddedDisplay).toList)

/-- `IMPORT` binds the module its location names. -/
def load (span : Span) (location : Expr) (nickname : String) : Eval Unit := do
  match ← r.expr location with
  | .string name =>
    let nickname := if nickname = "" then defaultAlias name else nickname
    Eval.bindSelf span nickname (← importModule r name nickname span)
  | v =>
    let type ← Eval.inHeap (·.typeName v)
    Eval.failAt location.span (.type s!"IMPORT location must be a String, got '{type}'")

end Pseudocode.Run
