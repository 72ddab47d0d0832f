import Pseudocode.Files.Tree
import Pseudocode.Settings.Document
import Pseudocode.Settings.Variables
import Pseudocode.Value.Basic
/-
# `Settings.Load` — the settings of a project

They come from a file in the directory of the project, from a file of variables
beside it, and from the environment.  Later ones win, and the environment wins
over the file of variables.  Files that are not there set nothing.
-/
namespace Pseudocode.Settings

/-- The name of the file of settings. -/
def fileName : String := "ecp.yml"

/-- The name of the file of variables. -/
def variablesName : String := ".env"

/-! ## The file of settings -/

/-- Relative directories of the search path are relative to the file. -/
def relativeTo (dir : String) (s : Settings) : Settings :=
  { s with searchPath := s.searchPath.map fun p =>
      if Path.isAbsolute p then p else Path.join dir p }

/-- The settings of the file in a directory. -/
def ofFile (files : FileTree) (dir : String) : Except String Settings :=
  let path := Path.join dir fileName
  match files.node path with
  | .error .noSuchFile => .ok initial
  | .error e => .error s!"config: open {path}: open {path}: {e.text}"
  | .ok .directory =>
    .error s!"config: parse {path}: yaml: input error: read {path}: is a directory"
  | .ok (.file text) =>
    match ofText initial text with
    | .ok s => .ok (s.relativeTo (Path.directory path))
    | .error r => .error s!"config: parse {path}: {r.message}"

/-- The variables of the file in a directory. -/
def variablesOf (files : FileTree) (dir : String) : Except String (Table String) :=
  let path := Path.join dir variablesName
  match files.node path with
  | .error .noSuchFile => .ok []
  | .error e => .error s!"config: read .env: open {path}: {e.text}"
  | .ok .directory => .error s!"config: read .env: read {path}: is a directory"
  | .ok (.file text) =>
    match Variables.ofText text with
    | .ok vars => .ok vars
    | .error e => .error s!"config: read .env: {e.message}"

/-! ## Variables -/

/-- The pieces of a text that are not empty. -/
def pieces (mark s : String) : List String := (s.splitOn mark).filter (· != "")

/-- An integer variable. -/
def intVariable (name v : String) : Except String Int :=
  match Value.readInt? (Text.trim v) with
  | some n => .ok n
  | none => .error s!"config: {name}: invalid integer {Text.escaped v}"

/-- A truth value in words. -/
def boolWord? (s : String) : Option Bool :=
  if ["1", "t", "T", "TRUE", "true", "True"].contains s then some true
  else if ["0", "f", "F", "FALSE", "false", "False"].contains s then some false
  else none

/-- A variable that is true or false. -/
def boolVariable (name v : String) : Except String Bool :=
  match boolWord? (Text.trim v) with
  | some b => .ok b
  | none => .error s!"config: {name}: invalid boolean {Text.escaped v}"

/-- Applies a variable that may be set. -/
def withVariable (vars : Table String) (name : String)
    (apply : String → Settings → Except String Settings) (s : Settings) :
    Except String Settings :=
  match vars.get? name with
  | some v => apply v s
  | none => .ok s

/-- Applies the variables, in a fixed order. -/
def withVariables (vars : Table String) (s : Settings) : Except String Settings := do
  let s ← withVariable vars "ECP_PATH"
    (fun v s => .ok { s with searchPath := pieces ":" v }) s
  let s ← withVariable vars "ECP_MAX_DEPTH"
    (fun v s => do return { s with maxDepth := ← intVariable "ECP_MAX_DEPTH" v }) s
  let s ← withVariable vars "ECP_SEED"
    (fun v s => do return { s with seed := ← intVariable "ECP_SEED" v }) s
  let s ← withVariable vars "ECP_TRACE"
    (fun v s => do return { s with trace := ← boolVariable "ECP_TRACE" v }) s
  withVariable vars "ECP_PRELOAD"
    (fun v s => .ok { s with preload := (pieces "," v).filterMap fun name =>
      let t := Text.trim name
      if t = "" then none else some t }) s

/-! ## Loading -/

/-- The settings of a project directory. -/
def load (files : FileTree) (env : Table String) (dir : String) : Except String Settings := do
  let s ← ofFile files dir
  let vars ← variablesOf files dir
  let s ← s.withVariables (env ++ vars)
  if s.maxDepth ≤ 0 then
    throw s!"config: max_depth must be positive, got {s.maxDepth}"
  return s

end Pseudocode.Settings
