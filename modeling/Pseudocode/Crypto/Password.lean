import Pseudocode.Crypto.Bytes
import Pseudocode.Crypto.Blowfish
import Pseudocode.Text.Escaped
/-
# `Crypto.Password` — stored passwords

A stored password is `$2a$`, the cost in two digits, `$`, the salt and the hash.
The hash is a fixed text encrypted sixty-four times under the password; the cost
says how slow the setup of that cipher is.
-/
namespace Pseudocode.Crypto.Password

/-- The least cost. -/
def minCost : Nat := 4

/-- The greatest cost. -/
def maxCost : Nat := 31

/-- The cost unless another one is given. -/
def defaultCost : Nat := 10

/-- The greatest number of bytes of a password that can be stored. -/
def maxLength : Nat := 72

/-- The number of letters of a salt. -/
def saltLetters : Nat := 22

/-- The number of letters of a hash. -/
def hashLetters : Nat := 31

/-- What is encrypted. -/
def plaintext : Bytes := bytesOf "OrpheanBeholderScryDoubt"

/-- The hash of a password in letters. -/
def hash (cost : Nat) (salt password : Bytes) : String :=
  let c := Blowfish.slow cost (password ++ [0]) salt
  let blocks := (chunks 8 3 plaintext).flatMap fun b =>
    let (l, r) := c.encryptTimes 64
      (fromBigEndian (b.take 4)).toUInt32 (fromBigEndian (b.drop 4)).toUInt32
    bigEndian 4 l.toNat ++ bigEndian 4 r.toNat
  Alphabet.password.encode (blocks.take 23)

/-- A number in at least two digits. -/
def twoDigits (n : Nat) : String := if n < 10 then s!"0{n}" else s!"{n}"

/-- The stored form of a password under a salt of sixteen bytes. -/
def store (cost : Nat) (salt : Bytes) (password : String) : String :=
  s!"$2a${twoDigits cost}${Alphabet.password.encode salt}{hash cost salt (bytesOf password)}"

/-! ## Checking -/

/-- Why a text is no stored password. -/
inductive Malformed where
  | tooShort
  | firstByte (b : UInt8)
  | newer (version : UInt8)
  | costText (text : Bytes)
  | costRange (cost : Int)
  | saltByte (place : Nat)
deriving Repr, DecidableEq

/-- The one-byte character of a byte. -/
def byteChar (b : UInt8) : String := String.ofList [Char.ofNat b.toNat]

/-- Bytes between double quotes, with escapes.  A byte that belongs to no
character is written by its number. -/
def escapedBytes (bs : Bytes) : String :=
  "\"" ++ String.join ((pieces bs.length bs).map fun
    | .inl c => Text.escapeChar c
    | .inr b => "\\x" ++ Text.hex 2 b.toNat) ++ "\""

/-- The sentence about a text that is no stored password. -/
def Malformed.message : Malformed → String
  | tooShort => "crypto/bcrypt: hashedSecret too short to be a bcrypted password"
  | firstByte b =>
    "crypto/bcrypt: bcrypt hashes must start with '$', but hashedSecret started with '"
      ++ byteChar b ++ "'"
  | newer v =>
    "crypto/bcrypt: bcrypt algorithm version '" ++ byteChar v
      ++ "' requested is newer than current version '2'"
  | costText t => "strconv.Atoi: parsing " ++ escapedBytes t ++ ": invalid syntax"
  | costRange n => s!"crypto/bcrypt: cost {n} is outside allowed inclusive range 4..31"
  | saltByte i => s!"illegal base64 data at input byte {i}"

/-- A stored password taken apart. -/
structure Stored where
  cost : Nat
  salt : Bytes
  hash : Bytes

/-- A whole number of two characters, the first of which may be a sign. -/
def costOf (text : Bytes) : Except Malformed Int :=
  let digit? (b : UInt8) : Option Int :=
    if 0x30 ≤ b && b ≤ 0x39 then some (b.toNat - 0x30) else none
  match text with
  | [a, b] =>
    match digit? a, digit? b with
    | some x, some y => .ok (10 * x + y)
    | none, some y =>
      if a = 0x2B then .ok y else if a = 0x2D then .ok (-y) else .error (.costText text)
    | _, _ => .error (.costText text)
  | _ => .error (.costText text)

/-- The cost of a stored password. -/
def checkedCost (text : Bytes) : Except Malformed Nat := do
  let n ← costOf text
  if n < minCost || maxCost < n then throw (.costRange n)
  return n.toNat

/-- The bytes of a salt in letters, which are padded before they are read. -/
def saltOf (letters : Bytes) : Except Malformed Bytes :=
  let cs := letters.map fun b => Char.ofNat b.toNat
  (Alphabet.password.decodePadded (cs ++ ['=', '='])).mapError .saltByte

/-- The parts of a stored password: its version, its cost, its salt and its hash. -/
def parse (text : Bytes) : Except Malformed Stored := do
  if text.length < 59 then throw .tooShort
  let first := text.getD 0 0
  let version := text.getD 1 0
  if first != 0x24 then throw (.firstByte first)
  if 0x32 < version then throw (.newer version)
  let rest := text.drop (if text.getD 2 0 = 0x24 then 3 else 4)
  let cost ← checkedCost (rest.take 2)
  let rest := rest.drop 3
  let salt ← saltOf (rest.take saltLetters)
  return ⟨cost, salt, rest.drop saltLetters⟩

/-- Is this the password that was stored?  What follows the letters of the hash
does not count. -/
def verify (password stored : String) : Except Malformed Bool := do
  let s ← parse (bytesOf stored)
  return bytesOf (hash s.cost s.salt (bytesOf password)) = s.hash.take hashLetters

end Pseudocode.Crypto.Password
