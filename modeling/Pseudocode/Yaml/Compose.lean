import Pseudocode.Yaml.Token
/-
# `Yaml.Compose` — documents from tokens

Only the first document of a text is read.  Whatever is missing is an absent
scalar: an item without content, a key without value, a value without key.
-/
namespace Pseudocode.Yaml

/-- What is known while a document is read: the tokens to come, and the named
nodes; one that is still being read is not there yet. -/
structure Draft where
  scanner : Scanner
  named : List (String × Option Node)

/-- Reading a document. -/
abbrev Compose := StateT Draft (Except Fault)

namespace Compose

/-- The next token, which is not taken. -/
def peek : Compose Token := do
  let d ← get
  let (t, s) ← d.scanner.peek
  set { d with scanner := s }
  return t

/-- Takes the next token. -/
def skip : Compose Unit := modify fun d => { d with scanner := d.scanner.skip }

/-- Takes the next token and looks at the one after it. -/
def advance : Compose Token := do
  skip
  peek

/-- A problem of a token, in a construct that starts on the line `context`. -/
def fault {α : Type} (context : Nat) (t : Token) (p : Problem) : Compose α :=
  throw (.inTokens context t.line p)

/-- A scalar that is not there, on a line counted from zero. -/
def absent (line : Nat) : Node := .absent (line + 1)

/-- The node of a name. -/
def named (line : Nat) (name : String) : Compose Node := do
  match (← get).named.lookup name with
  | some (some n) => return .same (line + 1) name n
  | some none => throw (.nowhere (.selfReference name))
  | none => throw (.nowhere (.unknownAnchor name))

/-- Gives a node a name, if there is one. -/
def giveName (name : Option String) (n : Option Node) : Compose Unit :=
  match name with
  | some s => modify fun d => { d with named := (s, n) :: d.named }
  | none => return ()

/-- The name and the tag in front of a node, in any order, each at most once. -/
def properties (t : Token) : Compose (Option String × String) := do
  match t.kind with
  | .anchor a =>
    match (← advance).kind with
    | .tag text => do
      skip
      return (some a, text)
    | _ => return (some a, "")
  | .tag text =>
    match (← advance).kind with
    | .anchor a => do
      skip
      return (some a, text)
    | _ => return (none, text)
  | _ => return (none, "")

/-- The tokens before which an item of a block is absent. -/
def endsItem : TokenKind → Bool
  | .item | .blockEnd => true
  | _ => false

/-- The tokens before which a key or a value of a block is absent. -/
def endsEntry : TokenKind → Bool
  | .key | .value | .blockEnd => true
  | _ => false

mutual

/-- A node.  A block can only start where `block` is allowed, and a list whose
items stand in the column of the keys around it only where `loose` is. -/
def node : (n : Nat) → (block loose : Bool) → Compose Node
  | 0, _, _ => return absent 0
  | n + 1, block, loose => do
    let t ← peek
    match t.kind with
    | .same name => do
      skip
      named t.line name
    | _ =>
      let (name, tag) ← properties t
      giveName name none
      let result ← content n block loose t.line (name.isSome || tag != "") tag
      giveName name (some result)
      return result

/-- The content of a node that starts on a line.  After a name or a tag it may be
absent. -/
def content : (n : Nat) → (block loose : Bool) → (line : Nat) → (marked : Bool) →
    (tag : String) → Compose Node
  | 0, _, _, _, _, _ => return absent 0
  | n + 1, block, loose, line, marked, tag => do
    let t ← peek
    match t.kind, block, loose with
    | .item, _, true => return .list (line + 1) (← looseItems n)
    | .scalar style text, _, _ => do
      skip
      return .scalar (line + 1) style tag text
    | .flowListStart, _, _ => do
      skip
      return .list (line + 1) (← flowItems n t.line true)
    | .flowMapStart, _, _ => do
      skip
      return .map (line + 1) (← flowEntries n t.line true)
    | .listStart, true, _ => do
      skip
      return .list (line + 1) (← blockItems n t.line)
    | .mapStart, true, _ => do
      skip
      return .map (line + 1) (← blockEntries n t.line)
    | _, _, _ =>
      if marked then return .scalar (line + 1) .plain tag "" else fault line t .noContent

/-- The items of a block that starts on a line. -/
def blockItems : (n : Nat) → (context : Nat) → Compose (List Node)
  | 0, _ => return []
  | n + 1, context => do
    let t ← peek
    match t.kind with
    | .item => do
      let next ← advance
      let x ← if endsItem next.kind then pure (absent t.line) else node n true false
      return x :: (← blockItems n context)
    | .blockEnd => do
      skip
      return []
    | _ => fault context t .noItem

/-- The items of a list in the column of the keys around it. -/
def looseItems : (n : Nat) → Compose (List Node)
  | 0 => return []
  | n + 1 => do
    let t ← peek
    match t.kind with
    | .item => do
      let next ← advance
      let x ← if endsItem next.kind || endsEntry next.kind then pure (absent t.line)
        else node n true false
      return x :: (← looseItems n)
    | _ => return []

/-- The entries of a block that starts on a line. -/
def blockEntries : (n : Nat) → (context : Nat) → Compose (List (Node × Node))
  | 0, _ => return []
  | n + 1, context => do
    let t ← peek
    match t.kind with
    | .key => do
      let next ← advance
      let k ← if endsEntry next.kind then pure (absent t.line) else node n true true
      let v ← blockValue n
      return (k, v) :: (← blockEntries n context)
    | .blockEnd => do
      skip
      return []
    | _ => fault context t .noKey

/-- The value of an entry of a block. -/
def blockValue : (n : Nat) → Compose Node
  | 0 => return absent 0
  | n + 1 => do
    let t ← peek
    match t.kind with
    | .value => do
      let next ← advance
      if endsEntry next.kind then return absent t.line else node n true true
    | _ => return absent t.line

/-- The items of a list between brackets that starts on a line. -/
def flowItems : (n : Nat) → (context : Nat) → (first : Bool) → Compose (List Node)
  | 0, _, _ => return []
  | n + 1, context, first => do
    let t ← peek
    match t.kind, first with
    | .flowListEnd, _ => do
      skip
      return []
    | .comma, false => do
      let _ ← advance
      flowItem n context
    | _, true => flowItem n context
    | _, false => fault context t .noListSign

/-- An item of a list between brackets and those after it.  It may be an entry
without braces. -/
def flowItem : (n : Nat) → (context : Nat) → Compose (List Node)
  | 0, _ => return []
  | n + 1, context => do
    let t ← peek
    match t.kind with
    | .flowListEnd => do
      skip
      return []
    | .key => do
      let next ← advance
      let x ← flowPair n next
      return .map (t.line + 1) [x] :: (← flowItems n context false)
    | _ => do
      let x ← node n false false
      return x :: (← flowItems n context false)

/-- An entry without braces, at a token.  Where the key is absent the token is
taken with it. -/
def flowPair : (n : Nat) → Token → Compose (Node × Node)
  | 0, t => return (absent t.line, absent t.line)
  | n + 1, t => do
    let k ← match t.kind with
      | .value | .comma | .flowListEnd => do
        skip
        pure (absent t.line)
      | _ => node n false false
    let t ← peek
    match t.kind with
    | .value => do
      let next ← advance
      match next.kind with
      | .comma | .flowListEnd => return (k, absent next.line)
      | _ => return (k, ← node n false false)
    | _ => return (k, absent t.line)

/-- The entries of a mapping between braces that starts on a line. -/
def flowEntries : (n : Nat) → (context : Nat) → (first : Bool) → Compose (List (Node × Node))
  | 0, _, _ => return []
  | n + 1, context, first => do
    let t ← peek
    match t.kind, first with
    | .flowMapEnd, _ => do
      skip
      return []
    | .comma, false => do
      let _ ← advance
      flowEntry n context
    | _, true => flowEntry n context
    | _, false => fault context t .noMapSign

/-- An entry of a mapping between braces and those after it. -/
def flowEntry : (n : Nat) → (context : Nat) → Compose (List (Node × Node))
  | 0, _ => return []
  | n + 1, context => do
    let t ← peek
    match t.kind with
    | .flowMapEnd => do
      skip
      return []
    | .key => do
      let next ← advance
      let k ← match next.kind with
        | .value | .comma | .flowMapEnd => pure (absent next.line)
        | _ => node n false false
      let v ← flowValue n
      return (k, v) :: (← flowEntries n context false)
    | _ => do
      let k ← node n false false
      let next ← peek
      return (k, absent next.line) :: (← flowEntries n context false)

/-- The value of an entry between braces. -/
def flowValue : (n : Nat) → Compose Node
  | 0 => return absent 0
  | n + 1 => do
    let t ← peek
    match t.kind with
    | .value => do
      let next ← advance
      match next.kind with
      | .comma | .flowMapEnd => return absent next.line
      | _ => node n false false
    | _ => return absent t.line

end

/-- Takes the directives in front of a document. -/
def directives : (n : Nat) → Compose Unit
  | 0 => return ()
  | n + 1 => do
    let t ← peek
    match t.kind with
    | .version minor => do
      if minor != 1 then fault 0 t .badVersion
      skip
      directives n
    | _ => return ()

/-- The content of a document after its mark. -/
def afterMark (n : Nat) (t : Token) : Compose Node := do
  match t.kind with
  | .version _ | .documentStart | .documentEnd | .textEnd => return absent t.line
  | _ => node n true false

/-- The first document; `none` if there is nothing in the text. -/
def document (n : Nat) : Compose (Option Node) := do
  let t ← peek
  let result ← match t.kind with
    | .textEnd => pure none
    | .version _ | .documentStart => do
      directives n
      let t ← peek
      if t.kind != .documentStart then fault 0 t .noDocumentStart
      let t ← advance
      some <$> afterMark n t
    | _ => some <$> node n true false
  let _ ← peek
  return result

end Compose

/-- The characters a text may have. -/
def isAllowed (c : Char) : Bool :=
  c = '\t' || c = '\n' || c = '\r' || c = '\u0085' || (' ' ≤ c && c ≤ '~')
    || ('\u00A0' ≤ c && c ≤ '\uFFFD') || 0x10000 ≤ c.toNat

/-- The characters of a text without the mark that may stand before it. -/
def dropByteMark : List Char → List Char
  | '\uFEFF' :: rest => rest
  | cs => cs

/-- The first document of a text; `none` if there is nothing in it. -/
def parse (s : String) : Except Fault (Option Node) := do
  let cs := dropByteMark s.toList
  if !cs.all isAllowed then throw (.nowhere .controlCharacter)
  let draft : Draft := ⟨.start cs, []⟩
  return (← (Compose.document (4 * cs.length + 16)).run draft).1

end Pseudocode.Yaml
