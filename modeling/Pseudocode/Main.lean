import Std.Time.DateTime.Timestamp
import Pseudocode.Shell.Run
/-
# `Main` — the command line

The outermost layer: it reads the surroundings of the program, hands them to
`Shell.run`, and writes what comes back.  Files are those below the working
directory that the program can ask for; standard input is read to its end before
a program is executed.
-/
namespace Pseudocode.CommandLine

/-- How deep directories are searched. -/
def directoryDepth : Nat := 12

/-- Can the program ask for a file?  It reads modules, settings, variables and
what its arguments name. -/
def isWanted (args : List String) (path name : String) : Bool :=
  name.endsWith Run.moduleEnding || name = Settings.fileName || name = Settings.variablesName
    || args.any fun arg => Path.clean arg = path

/-- The wanted files at an entry of a directory, which has the path `above`.  What
cannot be read as text is left out. -/
def gather (args : List String) : (depth : Nat) → (above : String) → IO.FS.DirEntry →
    IO (List (String × String))
  | 0, _, _ => return []
  | n + 1, above, entry => do
    let path := above ++ entry.fileName
    if ← entry.path.isDir then
      let inside ← try entry.path.readDir catch _ => pure #[]
      let found ← inside.toList.mapM (gather args n (path ++ "/"))
      return (path ++ "/", "") :: found.flatten
    else if isWanted args path entry.fileName then
      try return [(path, ← IO.FS.readFile entry.path)] catch _ => return []
    else return []

/-- The files below the working directory. -/
def readFiles (args : List String) : IO FileTree := do
  let here ← IO.currentDir
  let found ← (← here.readDir).toList.mapM (gather args directoryDepth "")
  return .ofList here.toString found.flatten

/-- A variable and its value. -/
def binding? (text : String) : Option (String × String) :=
  match text.splitOn "=" with
  | name :: value@(_ :: _) => some (name, "=".intercalate value)
  | _ => none

/-- The environment variables, from where the system lists them. -/
def readEnvironment : IO (Table String) := do
  let listed ← try IO.FS.readFile "/proc/self/environ" catch _ => pure ""
  return (listed.splitOn "\x00").filterMap binding?

/-- Everything a program reads. -/
def readSurroundings (args : List String) : IO Shell.Surroundings := do
  let files ← readFiles args
  let env ← readEnvironment
  let input ← if Shell.executes args then (← IO.getStdin).readToEnd else pure ""
  let clock := (← Std.Time.Timestamp.now).toNanosecondsSinceUnixEpoch.val
  let chance ← IO.rand 0 0x4000000000000000
  return { files, env, input, clock, chance }

end Pseudocode.CommandLine

/-- Runs the command line. -/
def main (args : List String) : IO UInt32 := do
  let outcome := Pseudocode.Shell.run args (← Pseudocode.CommandLine.readSurroundings args)
  (← IO.getStdout).putStr outcome.output
  (← IO.getStderr).putStr outcome.errors
  return outcome.exit.toUInt32
