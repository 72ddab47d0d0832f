import Pseudocode.Crypto.Bytes
import Pseudocode.Text.Escaped
import Pseudocode.Value.Basic
import Pseudocode.Yaml.Compose
import Pseudocode.Yaml.Meaning
/-
# `Settings.Document` — settings from a structured text

Each field takes its own kind of node.  What does not fit is collected, and a
document with misfits sets nothing.
-/
/-! ## What can be set -/

namespace Pseudocode

/-- The settings of the program. -/
structure Settings where
  /-- The directories searched for modules. -/
  searchPath : List String
  /-- The limit on nested calls. -/
  maxDepth : Int
  /-- The seed of the random numbers; zero leaves them to chance. -/
  seed : Int
  /-- Is every write reported? -/
  trace : Bool
  /-- The extensions bound before a program runs. -/
  preload : List String
deriving Repr, DecidableEq, Inhabited

namespace Settings

/-- The settings unless something else is said. -/
def initial : Settings := ⟨[], 1000, 0, false, []⟩

/-- What a session is asked for on behalf of the settings. -/
inductive Wish where
  | searchPath (dirs : List String)
  | maxDepth (n : Int)
  | seed (n : Int)
  | preload (names : List String)
deriving Repr, DecidableEq

/-- The wishes that settings stand for.  Random numbers are left to chance and
nothing is bound beforehand unless the settings say so. -/
def wishes (s : Settings) : List Wish :=
  ([.searchPath s.searchPath, .maxDepth s.maxDepth] : List Wish)
    ++ (if s.seed = 0 then [] else [.seed s.seed] : List Wish)
    ++ (if s.preload.isEmpty then [] else [.preload s.preload] : List Wish)

end Settings

namespace Settings

open Yaml

/-! ## Misfits -/

/-- Something in a document that does not fit. -/
inductive Misfit where
  /-- A node of the wrong kind; the text of a scalar is shown. -/
  | kind (line : Nat) (tag : String) (shown : Option String) (wanted : String)
  | unknownField (line : Nat) (name : String)
  | repeated (line : Nat) (key : String) (first : Nat)
deriving Repr, DecidableEq

/-- A text of at most ten bytes; a longer one is cut after seven. -/
def shortened (s : String) : String :=
  let bs := Crypto.bytesOf s
  if 10 < bs.length then Crypto.textOf (bs.take 7) ++ "..." else s

/-- The sentence about a misfit. -/
def Misfit.text : Misfit → String
  | kind line tag shown wanted =>
    let value := (shown.map fun s => " \x60" ++ shortened s ++ "\x60").getD ""
    s!"line {line}: cannot unmarshal {tag}{value} into {wanted}"
  | unknownField line name => s!"line {line}: field {name} not found in type config.Config"
  | repeated line key first =>
    s!"line {line}: mapping key {Text.escaped key} already defined at line {first}"

/-- The message about misfits. -/
def misfitsText (ms : List Misfit) : String :=
  "yaml: unmarshal errors:\n  " ++ "\n  ".intercalate (ms.map Misfit.text)

/-- The tag a scalar is shown with. -/
def shownTag (style : Style) (tag text : String) : Except Yaml.Fault String :=
  if tag = "" || tag = "!" then return (← meaning style tag text).tag else return shortTag tag

/-! ## Readings -/

/-- What a node says: a value, nothing, or something that does not fit. -/
inductive Reading (α : Type) where
  | value (a : α)
  | nothing
  | misfits (ms : List Misfit)

/-- What is said about keys that come again, in the order of their first
appearance. -/
def repeatedKeys : List Node → List Misfit
  | [] => []
  | k :: rest =>
    (rest.filter k.sameKey).map (fun n => .repeated n.line n.text k.line) ++ repeatedKeys rest

/-- A node that is not of the wanted kind.  Keys that come again are misfits of
their own. -/
def wrongKind {α : Type} (n : Node) (wanted : String) : Except Yaml.Fault (Reading α) :=
  match n with
  | .scalar line style tag s => do
    return .misfits [.kind line (← shownTag style tag s) (some s) wanted]
  | .list line _ => return .misfits [.kind line "!!seq" none wanted]
  | .map line entries =>
    match repeatedKeys (entries.map Prod.fst) with
    | [] => return .misfits [.kind line "!!map" none wanted]
    | ms => return .misfits ms
  | .same line _ _ => return .misfits [.kind line "!!null" none wanted]

/-- What a scalar says, by its meaning; `none` if it does not fit. -/
def readScalar {α : Type} (wanted : String) (read : Scalar → String → Option α) (n : Node) :
    Except Yaml.Fault (Reading α) :=
  match n.meant with
  | .scalar line style tag s => do
    match ← meaning style tag s with
    | .null => return .nothing
    | v =>
      match read v s with
      | some a => return .value a
      | none => wrongKind (.scalar line style tag s) wanted
  | n => wrongKind n wanted

/-- The whole number of a real, without its fraction. -/
def wholePart (x : Float) : Int :=
  let n := (Real.truncate? x).getD Value.minInt
  if Value.inRange n then n else Value.minInt

/-- The whole number that a scalar comes to. -/
def intOf? (v : Scalar) (_text : String) : Option Int :=
  match v with
  | .int k => if k ≤ Value.maxInt then some k else none
  | .real x => if x ≤ Real.ofInt Value.maxInt then some (wholePart x) else none
  | _ => none

/-- The words for true. -/
def trueWords : List String := ["y", "Y", "yes", "Yes", "YES", "on", "On", "ON"]

/-- The words for false. -/
def falseWords : List String := ["n", "N", "no", "No", "NO", "off", "Off", "OFF"]

/-- The truth value that a scalar comes to. -/
def boolOf? (v : Scalar) (_text : String) : Option Bool :=
  match v with
  | .bool b => some b
  | .text t =>
    if trueWords.contains t then some true
    else if falseWords.contains t then some false
    else none
  | _ => none

/-- A text: every scalar but nothing. -/
def readText : Node → Except Yaml.Fault (Reading String) :=
  readScalar "string" fun _ s => some s

/-- The texts of a list, and what does not fit in it. -/
def readItems : List Node → Except Yaml.Fault (List String × List Misfit)
  | [] => return ([], [])
  | n :: rest => do
    let here ← readText n
    let (texts, ms) ← readItems rest
    match here with
    | .value s => return (s :: texts, ms)
    | .nothing => return (texts, ms)
    | .misfits more => return (texts, more ++ ms)

/-- A list of texts.  Nothing is the empty list. -/
def readTexts (n : Node) : Except Yaml.Fault (Reading (List String)) := do
  match n.meant with
  | .list _ items =>
    match ← readItems items with
    | (texts, []) => return .value texts
    | (_, ms) => return .misfits ms
  | n =>
    match ← readScalar "[]string" (fun _ _ => none) n with
    | .nothing => return .value []
    | r => return r

/-! ## Documents -/

/-- Settings so far, and the misfits so far. -/
abbrev Progress := Settings × List Misfit

/-- Takes what a node says into account. -/
def take {α : Type} (r : Reading α) (set : Settings → α → Settings) (p : Progress) : Progress :=
  match r with
  | .value a => (set p.1 a, p.2)
  | .nothing => p
  | .misfits ms => (p.1, p.2 ++ ms)

/-- Sets a field. -/
def setField (line : Nat) (name : String) (n : Node) (p : Progress) :
    Except Yaml.Fault Progress := do
  match name with
  | "search_path" => return take (← readTexts n) (fun s xs => { s with searchPath := xs }) p
  | "max_depth" => return take (← readScalar "int" intOf? n) (fun s k => { s with maxDepth := k }) p
  | "seed" => return take (← readScalar "int64" intOf? n) (fun s k => { s with seed := k }) p
  | "trace" => return take (← readScalar "bool" boolOf? n) (fun s b => { s with trace := b }) p
  | "preload" => return take (← readTexts n) (fun s xs => { s with preload := xs }) p
  | name => return (p.1, p.2 ++ [.unknownField line name])

/-- Takes the entries of a mapping into account, except those whose names are in
`known`.  An entry under nothing is left alone. -/
def setEntries (known : List String) :
    List (Node × Node) → Progress → Except Yaml.Fault Progress
  | [], p => return p
  | (key, n) :: rest, p => do
    if key.isMerge then setEntries known rest p
    else
      match ← readText key with
      | .value name =>
        if known.contains name then setEntries known rest p
        else setEntries known rest (← setField key.line name n p)
      | .nothing => setEntries known rest p
      | .misfits ms => setEntries known rest (p.1, p.2 ++ ms)

/-- Is a node, or what it refers to, a mapping? -/
def isMap (n : Node) : Bool :=
  match n.meant with
  | .map _ _ => true
  | _ => false

/-- The names of the entries of a mapping. -/
def entryNames (n : Node) : List String :=
  match n.meant with
  | .map _ entries => entries.map (·.1.text)
  | _ => []

/-- The mappings that a mapping takes over: one, or a list of them. -/
def mergedMaps (n : Node) : Except Yaml.Fault (List Node) :=
  match n with
  | .list _ items => if items.all isMap then .ok items else .error (.nowhere .badMerge)
  | n => if isMap n then .ok [n] else .error (.nowhere .badMerge)

mutual

/-- The settings of a mapping, those in `known` apart, and after them those of the
mappings it takes over, in at most `n` steps. -/
def setMap : (n : Nat) → (known : List String) → Node → Progress → Except Yaml.Fault Progress
  | 0, _, _, p => return p
  | n + 1, known, node, p =>
    match node.meant with
    | .map _ entries => do
      match repeatedKeys (entries.map Prod.fst) with
      | [] =>
        let p ← setEntries known entries p
        match entries.reverse.find? (·.1.isMerge) with
        | none => return p
        | some (_, merged) => setMaps n (known ++ entryNames node) (← mergedMaps merged) p
      | ms => return (p.1, p.2 ++ ms)
    | _ => return p

/-- The settings of several mappings; what one of them sets the others do not. -/
def setMaps : (n : Nat) → (known : List String) → List Node → Progress →
    Except Yaml.Fault Progress
  | 0, _, _, p => return p
  | _ + 1, _, [], p => return p
  | n + 1, known, m :: rest, p => do
    setMaps n (known ++ entryNames m) rest (← setMap n known m p)

end

/-- The settings of a document on top of others; its mappings are taken over in at
most `steps` steps. -/
def ofNode (steps : Nat) (s : Settings) (n : Node) : Except Yaml.Fault Progress := do
  if isMap n then setMap steps [] n (s, [])
  else
    let r : Reading Unit ← readScalar "config.Config" (fun _ _ => none) n
    return take r (fun s _ => s) (s, [])

/-- The message about a text that sets nothing. -/
inductive Refusal where
  | fault (f : Yaml.Fault)
  | misfits (ms : List Misfit)

/-- The words of a refusal. -/
def Refusal.message : Refusal → String
  | fault f => f.message
  | misfits ms => misfitsText ms

/-- The settings of a text on top of others.  An empty text sets nothing. -/
def ofText (s : Settings) (text : String) : Except Refusal Settings := do
  match ← (Yaml.parse text).mapError .fault with
  | none => return s
  | some n =>
    match ← (ofNode (text.length + 1) s n).mapError .fault with
    | (t, []) => return t
    | (_, ms) => throw (.misfits ms)

end Settings

end Pseudocode
