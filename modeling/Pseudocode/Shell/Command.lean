/-
# `Shell.Command` — the command line

Flags may stand anywhere.  The first argument that is no flag names the command;
a file of the language is a command by itself.
-/
namespace Pseudocode.Shell

/-- What the program is asked to do. -/
inductive Command where
  | run (file : String)
  | tokens (file : String) (json : Bool)
  | parse (file : String)
  | repl
deriving Repr, DecidableEq

/-- Why there is nothing to do. -/
inductive Refusal where
  /-- The user asked for the usage. -/
  | help
  /-- There is no command. -/
  | noCommand
  | unknownFlag (flag : String)
  | unknownCommand (command : String)
  | missingFile
deriving Repr, DecidableEq

/-- The arguments, sorted into flags and others. -/
structure Arguments where
  json : Bool
  trace : Bool
  positional : List String
deriving Repr, DecidableEq

/-- Sorts the arguments.  The first one that ends the matter counts. -/
def sortArguments : Arguments → List String → Except Refusal Arguments
  | a, [] => .ok { a with positional := a.positional.reverse }
  | a, arg :: rest =>
    match arg with
    | "--json" => sortArguments { a with json := true } rest
    | "--trace" => sortArguments { a with trace := true } rest
    | "-h" | "--help" => .error .help
    | arg =>
      if arg.startsWith "--" then .error (.unknownFlag arg)
      else sortArguments { a with positional := arg :: a.positional } rest

/-- The command of sorted arguments. -/
def command (a : Arguments) : Except Refusal Command :=
  let onFile (f : String → Command) (rest : List String) : Except Refusal Command :=
    match rest with
    | file :: _ => .ok (f file)
    | [] => .error .missingFile
  match a.positional with
  | [] => .error .noCommand
  | "tokens" :: rest => onFile (.tokens · a.json) rest
  | "parse" :: rest => onFile .parse rest
  | "run" :: rest => onFile .run rest
  | "repl" :: _ => .ok .repl
  | word :: _ => if word.endsWith ".ecp" then .ok (.run word) else .error (.unknownCommand word)

/-- How to use the program. -/
def usage : String :=
  "Usage:\n"
  ++ "  ecp run    <file> [--trace]      Run a source file\n"
  ++ "  ecp <file.ecp>                   Same as run\n"
  ++ "  ecp tokens <file> [--json]       Tokenize and print tokens\n"
  ++ "  ecp parse  <file>                Parse and print AST (JSON)\n"
  ++ "  ecp repl   [--trace]             Start interactive REPL\n"

/-- What is said when there is nothing to do. -/
def Refusal.text : Refusal → String
  | help | noCommand => usage
  | unknownFlag flag => s!"error: unknown flag '{flag}'\n{usage}"
  | unknownCommand word => s!"error: unknown command '{word}'\n{usage}"
  | missingFile => "error: missing file argument\n"

end Pseudocode.Shell
