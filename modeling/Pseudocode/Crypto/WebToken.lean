import Pseudocode.Crypto.Bytes
import Pseudocode.Crypto.Digest
import Pseudocode.Datum.JsonReading
import Pseudocode.Value.Basic
/-
# `Crypto.WebToken` — signed claims

A token has three parts, divided by points: a header that names the algorithm,
the claims, and the keyed digest of both.  Claims may say from when on and until
when they hold.
-/
namespace Pseudocode.Crypto.WebToken

/-- The algorithm a name means. -/
def algorithm? : String → Option Digest
  | "HS256" => some .sha256
  | "HS384" => some .sha384
  | "HS512" => some .sha512
  | _ => none

/-- The header of new tokens. -/
def header : Datum := .object [("alg", .text "HS256"), ("typ", .text "JWT")]

/-- A text as a part of a token. -/
def segment (s : String) : String := Alphabet.url.encode (bytesOf s)

/-- The text of a part of a token. -/
def ofSegment? (s : String) : Option String := (Alphabet.url.decode? s).map textOf

/-- The signature of the first two parts. -/
def signature (d : Digest) (secret content : String) : Bytes :=
  d.keyed (bytesOf secret) (bytesOf content)

/-- A token for claims. -/
def sign (claims : Datum) (secret : String) : Except Json.Unsupported String := do
  let head ← header.compactJson
  let body ← claims.compactJson
  let content := segment head ++ "." ++ segment body
  return content ++ "." ++ Alphabet.url.encode (signature .sha256 secret content)

/-! ## Checking -/

/-- The fields of a part of a token.  Null has none. -/
def fields? (part : String) : Option (List (String × Datum)) := do
  match ← (ofSegment? part).bind Datum.ofJson? with
  | .object fs => some fs
  | .null => some []
  | _ => none

/-- A point in time that claims name, in seconds: `none` if it is none, and
`some none` if there is no such claim or it is zero. -/
def instant? (claims : List (String × Datum)) (key : String) : Option (Option Int) :=
  match claims.lookup key with
  | none => some none
  | some (.real x) =>
    if x == 0 then some none
    else
      let seconds := (Real.truncate? x).getD Value.minInt
      some (some (if Value.inRange seconds then seconds else Value.minInt))
  | some _ => none

/-- Nanoseconds in a second. -/
def second : Int := 1000000000

/-- Do claims hold at a time in nanoseconds? -/
def holdsAt (now : Int) (claims : List (String × Datum)) : Bool :=
  match instant? claims "exp", instant? claims "nbf" with
  | some expiry, some start =>
    (expiry.all fun t => now < t * second) && (start.all fun t => t * second ≤ now)
  | _, _ => false

/-- The algorithm that a header names. -/
def headerAlgorithm? (part : String) : Option Digest := do
  match (← fields? part).lookup "alg" with
  | some (.text name) => algorithm? name
  | _ => none

/-- The claims of a token that is well formed, signed with the secret, and in
force. -/
def verify? (now : Int) (token secret : String) : Option Datum := do
  match token.splitOn "." with
  | [head, body, tail] =>
    let d ← headerAlgorithm? head
    let claims ← fields? body
    let given ← Alphabet.url.decode? tail
    if given = signature d secret (head ++ "." ++ body) && holdsAt now claims then
      some (.object claims)
    else none
  | _ => none

end Pseudocode.Crypto.WebToken
