import Pseudocode.Run.Session
import Pseudocode.Settings.Load
import Pseudocode.Shell.Command
import Pseudocode.Shell.Report
/-
# `Shell.Run` — the program as a whole

Everything the program reads is given beforehand, and everything it writes is
returned: the outer layer only has to carry both across.
-/
namespace Pseudocode.Shell

/-- What the program reads. -/
structure Surroundings where
  files : FileTree
  env : Table String
  input : String
  /-- The time of day, in nanoseconds since the start of 1970. -/
  clock : Int
  /-- The seed of the random numbers of programs that set none. -/
  chance : Int
deriving Inhabited

/-- What the program leaves. -/
structure Outcome where
  exit : Nat
  output : String
  errors : String
deriving Repr, DecidableEq, Inhabited

/-- The exit code of success. -/
def exitOk : Nat := 0

/-- The exit code of failure. -/
def exitError : Nat := 1

/-- The exit code of a command line that makes no sense. -/
def exitUsage : Nat := 2

/-- A failure in words. -/
def failed (message : String) : Outcome := ⟨exitError, "", s!"error: {message}\n"⟩

/-- The outcome of a command line that leads nowhere. -/
def refused (r : Refusal) : Outcome := ⟨if r = .help then exitOk else exitUsage, "", r.text⟩

/-! ## Looking at sources -/

/-- Data as an outcome. -/
def printed (d : Datum) (exit : Nat) : Outcome :=
  match d.indentedJson with
  | .ok s => ⟨exit, s ++ "\n", ""⟩
  | .error u => failed s!"JSON encoding failed: {u.message}"

/-- Prints the tokens of a source. -/
def tokens (file source : String) (json : Bool) : Outcome :=
  let r := Scan.scan source file
  let diagnostics := r.warnings ++ r.failure.toList
  let exit := if r.failure.isSome then exitError else exitOk
  if json then printed (tokensDatum r.tokens diagnostics) exit
  else ⟨exit, String.join (r.tokens.map tokenLine), diagnosticsText diagnostics⟩

/-- Prints the tree of a source. -/
def tree (file source : String) : Outcome :=
  let result := parse source file
  printed (parseDatum result)
    (match result with
     | .ok _ => exitOk
     | .error _ => exitError)

/-- Does something with the text of a file. -/
def withSource (s : Surroundings) (file : String) (act : String → Outcome) : Outcome :=
  match s.files.read file with
  | .ok source => act source
  | .error e => failed s!"cannot read file {file}: {e}"

/-! ## Running -/

/-- The options of a session that nothing was asked for. -/
def bareOptions (s : Surroundings) (dir file : String) : Session.Options :=
  { setup :=
      { maxDepth := Session.Options.defaultDepth, search := [], stdlib := true, extensions := [],
        files := s.files, env := s.env, clock := s.clock }
    input := s.input, name := file, dir, seed := s.chance, preload := [], observer := none }

/-- Grants a wish. -/
def grant (o : Session.Options) : Settings.Wish → Session.Options
  | .searchPath dirs => { o with setup.search := dirs }
  | .maxDepth n => { o with setup.maxDepth := Session.Options.depthFor n }
  | .seed n => { o with seed := n }
  | .preload names => { o with preload := names }

/-- The options of a session for a file. -/
def sessionOptions (s : Surroundings) (settings : Settings) (trace : Bool) (dir file : String) :
    Session.Options :=
  { settings.wishes.foldl grant (bareOptions s dir file) with
    observer := if trace || settings.trace then some "" else none }

/-- What is reported about a write. -/
def traceLine (e : Event) : String := s!"trace: {e.name} = {e.repr}\n"

/-- Runs a file in a session. -/
def runSession (o : Session.Options) (file : String) : Outcome :=
  let (result, session) := (Session.start o).runFile file
  let ((output, events), _) := session.drain
  let trace := String.join (events.map traceLine)
  match result with
  | .ok _ => ⟨exitOk, output, trace⟩
  | .error (.fault f) => ⟨exitError, output, trace ++ faultText f⟩
  | .error .outOfFuel => ⟨exitError, output, trace ++ "error: out of steps\n"⟩

/-- Runs a file with the settings of its directory. -/
def runFile (s : Surroundings) (trace : Bool) (file : String) : Outcome :=
  match s.files.stat file with
  | .error e => failed s!"cannot read file {file}: {e}"
  | .ok _ =>
    let dir := Path.directory file
    match Settings.load s.files s.env dir with
    | .error e => failed e
    | .ok settings => runSession (sessionOptions s settings trace dir file) file

/-- Does a command line lead to the execution of a program, which may read input? -/
def executes (args : List String) : Bool :=
  match sortArguments ⟨false, false, []⟩ args >>= command with
  | .ok (.run _) => true
  | _ => false

/-- The program. -/
def run (args : List String) (s : Surroundings) : Outcome :=
  match sortArguments ⟨false, false, []⟩ args with
  | .error r => refused r
  | .ok a =>
    match command a with
    | .error r => refused r
    | .ok (.run file) => runFile s a.trace file
    | .ok (.tokens file json) => withSource s file (tokens file · json)
    | .ok (.parse file) => withSource s file (tree file)
    | .ok .repl => failed "no terminal to talk to"

end Pseudocode.Shell
