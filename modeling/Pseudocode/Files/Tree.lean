/-
# `Files.Tree` — the files a program can read

Paths are divided by slashes; what stands under `Path` is about their text alone.
The files are a small tree of files and directories under the working directory,
and the questions that are asked about it.  Failures are worded as an operating
system words them.
-/
/-! ## Paths -/

namespace Pseudocode.Path

/-- Cuts a text at its slashes.  There is always at least one piece. -/
def split : List Char → List (List Char)
  | [] => [[]]
  | c :: rest =>
    if c = '/' then [] :: split rest
    else
      match split rest with
      | [] => [[c]]
      | piece :: more => (c :: piece) :: more

/-- The pieces of a path between its slashes. -/
def pieces (p : String) : List String := (split p.toList).map String.ofList

/-- Does a path start at the root? -/
def isAbsolute (p : String) : Bool := p.toList.head? = some '/'

/-- Does a text have an ending? -/
def endsIn (ending p : String) : Bool := ending.toList.isSuffixOf p.toList

/-- Takes one piece into account; `kept` are the pieces so far, last one first.
A step up undoes the piece before it; at the root there is nowhere to go. -/
def cleanStep (absolute : Bool) (kept : List String) (piece : String) : List String :=
  if piece = "" || piece = "." then kept
  else if piece = ".." then
    match kept with
    | [] => if absolute then [] else [".."]
    | last :: more => if last = ".." then ".." :: kept else more
  else piece :: kept

/-- The pieces of a path without those that lead nowhere. -/
def cleanPieces (p : String) : List String :=
  ((pieces p).foldl (cleanStep (isAbsolute p)) []).reverse

/-- The shortest path that means the same. -/
def clean (p : String) : String :=
  let ps := "/".intercalate (cleanPieces p)
  if isAbsolute p then "/" ++ ps else if ps = "" then "." else ps

/-- A path inside a directory. -/
def join (dir p : String) : String :=
  if dir = "" then (if p = "" then "" else clean p)
  else if p = "" then clean dir
  else clean (dir ++ "/" ++ p)

/-- The directory a path lies in. -/
def directory (p : String) : String :=
  match (pieces p).reverse with
  | _ :: before :: more =>
    let dir := "/".intercalate (before :: more).reverse
    if dir = "" then "/" else clean dir
  | _ => "."

/-- The last piece of a path. -/
def base (p : String) : String :=
  if p = "" then "."
  else
    match (pieces p).reverse.dropWhile (· = "") with
    | last :: _ => last
    | [] => "/"

/-- A path from the root on, for a working directory. -/
def absolute (working p : String) : String :=
  if isAbsolute p then clean p else join working p

/-- Can a clean path name something inside a closed tree of files? -/
def isInside (p : String) : Bool :=
  !isAbsolute p && (cleanPieces p).head? != some ".."

/-- A text without an ending, if it has it. -/
def dropEnding (ending p : String) : String :=
  if endsIn ending p then
    String.ofList (p.toList.take (p.toList.length - ending.toList.length))
  else p

end Pseudocode.Path

/-! ## The tree -/

namespace Pseudocode

/-- Files with their content, and directories, by their pieces under the working
directory.  The directories that files lie in are there too. -/
structure FileTree where
  /-- The absolute path of the working directory. -/
  working : String
  files : List (List String × String)
  directories : List (List String)
deriving Repr, Inhabited

namespace FileTree

/-- What stands at a place in the tree. -/
inductive Node where
  | file (content : String)
  | directory
deriving Repr, DecidableEq

/-- Why a path leads nowhere. -/
inductive Missing where
  | noSuchFile
  | notADirectory
deriving Repr, DecidableEq

/-- The operating system's words. -/
def Missing.text : Missing → String
  | .noSuchFile => "no such file or directory"
  | .notADirectory => "not a directory"

/-- The proper starts of a list of pieces, from the empty one on. -/
def starts : List String → List (List String)
  | [] => []
  | piece :: rest => [] :: (starts rest).map (piece :: ·)

/-- A tree from paths and contents; a path that ends with a slash is an empty
directory. -/
def ofList (working : String) (entries : List (String × String)) : FileTree :=
  entries.foldl
    (fun t (path, content) =>
      let ps := Path.cleanPieces path
      if Path.endsIn "/" path then { t with directories := ps :: starts ps ++ t.directories }
      else
        { t with files := (ps, content) :: t.files, directories := starts ps ++ t.directories })
    ⟨working, [], [[]]⟩

/-- The pieces of the working directory from the root. -/
def home (t : FileTree) : List String := Path.cleanPieces t.working

/-- What is left of a list of pieces after its start. -/
def after? : (start pieces : List String) → Option (List String)
  | [], ps => some ps
  | _ :: _, [] => none
  | s :: start, p :: ps => if s = p then after? start ps else none

/-- What stands at an absolute list of pieces.  Nothing is known outside of the
working directory but the way to it. -/
def nodeAt? (t : FileTree) (place : List String) : Option Node :=
  match after? t.home place with
  | some inside =>
    match t.files.lookup inside with
    | some content => some (.file content)
    | none => if t.directories.contains inside then some .directory else none
  | none => (after? place t.home).map fun _ => .directory

/-- Follows the pieces of a path from a directory on. -/
def follow (t : FileTree) (here : List String) : List String → Except Missing (List String)
  | [] => .ok here
  | piece :: rest =>
    match t.nodeAt? here with
    | none => .error .noSuchFile
    | some (.file _) => .error .notADirectory
    | some .directory =>
      if piece = "" || piece = "." then t.follow here rest
      else if piece = ".." then t.follow here.dropLast rest
      else t.follow (here ++ [piece]) rest

/-- The absolute pieces a path leads to. -/
def reach (t : FileTree) (path : String) : Except Missing (List String) :=
  t.follow (if Path.isAbsolute path then [] else t.home) (Path.pieces path)

/-- What a path leads to. -/
def node (t : FileTree) (path : String) : Except Missing Node := do
  if path = "" then throw .noSuchFile
  let here ← t.reach path
  match t.nodeAt? here with
  | some n => return n
  | none => throw .noSuchFile

/-- Is there a file at a path? -/
def fileAt? (t : FileTree) (path : String) : Option String :=
  match t.node path with
  | .ok (.file content) => some content
  | _ => none

/-- The content of a file, or why it cannot be read. -/
def read (t : FileTree) (path : String) : Except String String :=
  match t.node path with
  | .ok (.file content) => .ok content
  | .ok .directory => .error s!"read {path}: is a directory"
  | .error e => .error s!"open {path}: {e.text}"

/-- Looks whether a path leads to anything. -/
def stat (t : FileTree) (path : String) : Except String Unit :=
  match t.node path with
  | .ok _ => .ok ()
  | .error e => .error s!"stat {path}: {e.text}"

/-- The last piece of a path that is one piece longer than its start. -/
def child? (inside ps : List String) : Option String :=
  if ps.length = inside.length + 1 && ps.dropLast = inside then ps.getLast? else none

/-- The names in a directory, in ascending order; none if it is not there. -/
def entries (t : FileTree) (path : String) : List String :=
  match t.node path, (t.reach path).toOption.bind (after? t.home) with
  | .ok .directory, some inside =>
    let all := t.files.map Prod.fst ++ t.directories
    ((all.filterMap (child? inside)).mergeSort (fun a b => decide (a ≤ b))).eraseReps
  | _, _ => []

end FileTree

end Pseudocode
