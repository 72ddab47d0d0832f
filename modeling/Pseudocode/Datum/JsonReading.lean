import Pseudocode.Datum.Json
import Pseudocode.Real.Reading
/-
# `Datum.JsonReading` — reading JSON

A reader takes characters from the front and returns what is left.  Every number
becomes a real; of two fields with one name the later one stays, and fields come
in ascending order.
-/
namespace Pseudocode.Json

/-- Reads from the front of a text, or finds that it cannot. -/
abbrev Reader (α : Type) := List Char → Option (α × List Char)

/-- White space between tokens. -/
def isBlank (c : Char) : Bool := c = ' ' || c = '\t' || c = '\n' || c = '\r'

/-- The text after white space. -/
def skipBlanks (cs : List Char) : List Char := cs.dropWhile isBlank

/-- Is this a decimal digit? -/
def isDigit (c : Char) : Bool := '0' ≤ c && c ≤ '9'

/-- Four hexadecimal digits. -/
def readUnit : Reader Nat
  | a :: b :: c :: d :: rest => do
    let w ← Real.digitValue? a
    let x ← Real.digitValue? b
    let y ← Real.digitValue? c
    let z ← Real.digitValue? d
    return (((w * 16 + x) * 16 + y) * 16 + z, rest)
  | _ => none

/-- Is this the first half of a character outside the basic plane? -/
def isHighHalf (n : Nat) : Bool := 0xD800 ≤ n && n < 0xDC00

/-- Is this the second half? -/
def isLowHalf (n : Nat) : Bool := 0xDC00 ≤ n && n < 0xE000

/-- The character of a code point; the codes of lone halves give the replacement
character. -/
def charOfUnit (n : Nat) : Char := if n.isValidChar then Char.ofNat n else '\uFFFD'

/-- The character of an escape that starts with `unit`.  Two halves make one
character. -/
def joinHalves (unit : Nat) (rest : List Char) : Char × List Char :=
  match rest with
  | '\\' :: 'u' :: more =>
    match readUnit more with
    | some (low, more) =>
      if isHighHalf unit && isLowHalf low then
        (Char.ofNat ((unit - 0xD800) * 0x400 + (low - 0xDC00) + 0x10000), more)
      else (charOfUnit unit, rest)
    | none => (charOfUnit unit, rest)
  | _ => (charOfUnit unit, rest)

/-- The character after a backslash. -/
def readEscape : Reader Char
  | 'u' :: rest => do
    let (unit, rest) ← readUnit rest
    return joinHalves unit rest
  | '"' :: rest => some ('"', rest)
  | '\\' :: rest => some ('\\', rest)
  | '/' :: rest => some ('/', rest)
  | 'b' :: rest => some ('\x08', rest)
  | 'f' :: rest => some ('\x0c', rest)
  | 'n' :: rest => some ('\n', rest)
  | 'r' :: rest => some ('\r', rest)
  | 't' :: rest => some ('\t', rest)
  | _ => none

/-- The rest of a string after its opening quote, at most `n` characters. -/
def readChars : (n : Nat) → Reader (List Char)
  | 0, _ => none
  | _ + 1, [] => none
  | n + 1, c :: rest =>
    if c = '"' then some ([], rest)
    else if c.toNat < 0x20 then none
    else if c = '\\' then do
      let (d, rest) ← readEscape rest
      let (ds, rest) ← readChars n rest
      return (d :: ds, rest)
    else do
      let (ds, rest) ← readChars n rest
      return (c :: ds, rest)

/-- A string without its opening quote. -/
def readString : Reader String := fun cs => do
  let (ds, rest) ← readChars (cs.length + 1) cs
  return (String.ofList ds, rest)

/-- Digits, at least one. -/
def readDigits : Reader (List Char) := fun cs =>
  let ds := cs.takeWhile isDigit
  if ds.isEmpty then none else some (ds, cs.dropWhile isDigit)

/-- The whole part of a number: no zero in front of other digits. -/
def readWhole : Reader (List Char)
  | '0' :: rest => some (['0'], rest)
  | cs => readDigits cs

/-- The fraction of a number, if it has one. -/
def readFraction : Reader (List Char)
  | '.' :: rest => do
    let (ds, rest) ← readDigits rest
    return ('.' :: ds, rest)
  | cs => some ([], cs)

/-- The exponent of a number after its mark. -/
def readExponentDigits : Reader (List Char)
  | '+' :: rest => do
    let (ds, rest) ← readDigits rest
    return ('e' :: '+' :: ds, rest)
  | '-' :: rest => do
    let (ds, rest) ← readDigits rest
    return ('e' :: '-' :: ds, rest)
  | cs => do
    let (ds, rest) ← readDigits cs
    return ('e' :: ds, rest)

/-- The exponent of a number, if it has one. -/
def readExponent : Reader (List Char)
  | 'e' :: rest | 'E' :: rest => readExponentDigits rest
  | cs => some ([], cs)

/-- A number without its sign. -/
def readMagnitude : Reader (List Char) := fun cs => do
  let (whole, cs) ← readWhole cs
  let (fraction, cs) ← readFraction cs
  let (exponent, cs) ← readExponent cs
  return (whole ++ fraction ++ exponent, cs)

/-- A number within the range of reals. -/
def readNumber : Reader Datum := fun cs => do
  let (text, rest) ←
    match cs with
    | '-' :: more => (readMagnitude more).map fun (ds, rest) => ('-' :: ds, rest)
    | cs => readMagnitude cs
  let x ← Real.ofText? (String.ofList text)
  if x.isInf then none else some (.real x, rest)

mutual

/-- A value of at most `n` nested steps. -/
def readValue : (n : Nat) → Reader Datum
  | 0, _ => none
  | n + 1, cs =>
    match skipBlanks cs with
    | 'n' :: 'u' :: 'l' :: 'l' :: rest => some (.null, rest)
    | 't' :: 'r' :: 'u' :: 'e' :: rest => some (.bool true, rest)
    | 'f' :: 'a' :: 'l' :: 's' :: 'e' :: rest => some (.bool false, rest)
    | '"' :: rest => (readString rest).map fun (s, rest) => (.text s, rest)
    | '[' :: rest =>
      match skipBlanks rest with
      | ']' :: rest => some (.list [], rest)
      | rest => (readItems n rest).map fun (xs, rest) => (.list xs, rest)
    | '\x7b' :: rest =>
      match skipBlanks rest with
      | '\x7d' :: rest => some (.object [], rest)
      | rest => (readFields n rest).map fun (fs, rest) => (.object (Datum.sortFields fs), rest)
    | cs => readNumber cs

/-- The elements of a list, up to its closing bracket. -/
def readItems : (n : Nat) → Reader (List Datum)
  | 0, _ => none
  | n + 1, cs => do
    let (x, rest) ← readValue n cs
    match skipBlanks rest with
    | ',' :: rest =>
      let (xs, rest) ← readItems n rest
      return (x :: xs, rest)
    | ']' :: rest => return ([x], rest)
    | _ => none

/-- The fields of an object, up to its closing brace. -/
def readFields : (n : Nat) → Reader (List (String × Datum))
  | 0, _ => none
  | n + 1, cs => do
    match skipBlanks cs with
    | '"' :: rest =>
      let (key, rest) ← readString rest
      match skipBlanks rest with
      | ':' :: rest =>
        let (x, rest) ← readValue n rest
        match skipBlanks rest with
        | ',' :: rest =>
          let (fs, rest) ← readFields n rest
          return ((key, x) :: fs, rest)
        | '\x7d' :: rest => return ([(key, x)], rest)
        | _ => none
      | _ => none
    | _ => none

end

end Pseudocode.Json

namespace Pseudocode

/-- The data a text writes. -/
def Datum.ofJson? (s : String) : Option Datum :=
  let cs := s.toList
  match Json.readValue (2 * cs.length + 2) cs with
  | some (d, rest) => if (Json.skipBlanks rest).isEmpty then some d else none
  | none => none

end Pseudocode
