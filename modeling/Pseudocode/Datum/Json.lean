import Pseudocode.Datum.Basic
import Pseudocode.Real.Display
import Pseudocode.Text.Escaped
/-
# `Datum.Json` — plain data as JSON

Two ways of writing, compact and indented, differ only in the white space
between tokens.  Characters that have a meaning in web pages are written as
escapes.  Infinite numbers and those that are none cannot be written.
-/
namespace Pseudocode

namespace Json

/-- A character as an escape of four hexadecimal digits. -/
def unicodeEscape (c : Char) : String := "\\u" ++ Text.hex 4 c.toNat

/-- A character inside a string. -/
def escapedChar (c : Char) : String :=
  match c with
  | '"' => "\\\""
  | '\\' => "\\\\"
  | '\n' => "\\n"
  | '\r' => "\\r"
  | '\t' => "\\t"
  | '\x08' => "\\b"
  | '\x0c' => "\\f"
  | '<' | '>' | '&' | '\u2028' | '\u2029' => unicodeEscape c
  | c => if c.toNat < 0x20 then unicodeEscape c else String.ofList [c]

/-- A string. -/
def string (s : String) : String := "\"" ++ String.join (s.toList.map escapedChar) ++ "\""

/-- What cannot be written. -/
inductive Unsupported where
  /-- An infinite number, or one that is none. -/
  | number (value : Float)
  /-- A kind of thing that is no data. -/
  | kind (name : String)
  /-- Something that is inside itself. -/
  | cycle (name : String)

/-- How a number that cannot be written is named. -/
def numberName (x : Float) : String :=
  if x.isNaN then "NaN" else if x < 0 then "-Inf" else "+Inf"

/-- The sentence about what cannot be written. -/
def Unsupported.message : Unsupported → String
  | number x => "json: unsupported value: " ++ numberName x
  | kind name => "json: unsupported type: " ++ name
  | cycle name => "json: unsupported value: encountered a cycle via " ++ name

/-- A number. -/
def real (x : Float) : Except Unsupported String :=
  match Real.jsonText? x with
  | some s => .ok s
  | none => .error (.number x)

/-- The white space of a way of writing: what stands between the tokens at a
depth of nesting, and what follows a colon. -/
structure Spacing where
  newline : Nat → String
  afterColon : String

/-- No white space at all. -/
def Spacing.compact : Spacing := ⟨fun _ => "", ""⟩

/-- A line for every element, two blanks further in for every depth. -/
def Spacing.indented : Spacing :=
  ⟨fun depth => "\n" ++ String.ofList (List.replicate (2 * depth) ' '), " "⟩

/-- Elements between brackets. -/
def Spacing.enclosed (s : Spacing) (opening closing : String) (depth : Nat)
    (parts : List String) : String :=
  if parts.isEmpty then opening ++ closing
  else
    let inner := s.newline (depth + 1)
    opening ++ inner ++ ("," ++ inner).intercalate parts ++ s.newline depth ++ closing

/-- A field of an object. -/
def Spacing.field (s : Spacing) (key value : String) : String :=
  string key ++ ":" ++ s.afterColon ++ value

mutual

/-- Data at a depth of nesting. -/
def write (s : Spacing) (depth : Nat) : Datum → Except Unsupported String
  | .null => .ok "null"
  | .bool b => .ok (if b then "true" else "false")
  | .int n => .ok (toString n)
  | .real x => real x
  | .text t => .ok (string t)
  | .list xs => do return s.enclosed "[" "]" depth (← writeItems s (depth + 1) xs)
  | .object fs => do return s.enclosed "\x7b" "\x7d" depth (← writeFields s (depth + 1) fs)

/-- The elements of a list. -/
def writeItems (s : Spacing) (depth : Nat) : List Datum → Except Unsupported (List String)
  | [] => .ok []
  | x :: rest => do
    let t ← write s depth x
    let ts ← writeItems s depth rest
    return t :: ts

/-- The fields of an object. -/
def writeFields (s : Spacing) (depth : Nat) :
    List (String × Datum) → Except Unsupported (List String)
  | [] => .ok []
  | (k, x) :: rest => do
    let t ← write s depth x
    let ts ← writeFields s depth rest
    return s.field k t :: ts

end

end Json

namespace Datum

/-- Data without white space. -/
def compactJson (d : Datum) : Except Json.Unsupported String := Json.write .compact 0 d

/-- Data with a line for every element. -/
def indentedJson (d : Datum) : Except Json.Unsupported String := Json.write .indented 0 d

/-- Puts a field in its place among sorted ones.  Of two fields with one name the
later one stays. -/
def insertField {α : Type} (key : String) (value : α) :
    List (String × α) → List (String × α)
  | [] => [(key, value)]
  | (k, v) :: rest =>
    if key < k then (key, value) :: (k, v) :: rest
    else if key = k then (k, value) :: rest
    else (k, v) :: insertField key value rest

/-- Fields in ascending order of their names. -/
def sortFields {α : Type} (fs : List (String × α)) : List (String × α) :=
  fs.foldl (fun done (k, v) => insertField k v done) []

mutual

/-- Data with the fields of all objects in ascending order. -/
def sorted : Datum → Datum
  | .list xs => .list (sortedItems xs)
  | .object fs => .object (sortFields (sortedFields fs))
  | d => d

/-- The elements of a list, each sorted. -/
def sortedItems : List Datum → List Datum
  | [] => []
  | x :: rest => x.sorted :: sortedItems rest

/-- The fields of an object, each sorted. -/
def sortedFields : List (String × Datum) → List (String × Datum)
  | [] => []
  | (k, x) :: rest => (k, x.sorted) :: sortedFields rest

end

end Datum

end Pseudocode
