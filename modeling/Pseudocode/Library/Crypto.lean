import Pseudocode.Crypto.Password
import Pseudocode.Crypto.WebToken
import Pseudocode.Builtin.Basic
import Pseudocode.Value.Json
import Pseudocode.Value.Plain
/-
# `Library.Crypto` — the `crypto` module

Stored passwords, signed tokens and digests.
-/
namespace Pseudocode.Library.CryptoModule

open Builtins Crypto

/-- A string argument at a place. -/
def text (fn : String) (args : List Value) (i : Nat) : Eval String := do
  match arg args i with
  | .string s => return s
  | v =>
    Eval.fail (.type s!"{fn}() argument {i + 1} must be a String, not '{← typeName v}'")

/-! ## Passwords -/

/-- The cost that the second argument asks for. -/
def costArg (args : List Value) : Option Nat :=
  match args with
  | [_, .int n] => if Password.minCost ≤ n && n ≤ Password.maxCost then some n.toNat else none
  | [_, _] => none
  | _ => some Password.defaultCost

/-- A salt that was not used before. -/
def newSalt : Eval Bytes :=
  modifyGet fun w =>
    ((Digest.sha256.hash (bigEndian 8 w.salts)).take 16, { w with salts := w.salts + 1 })

/-- The stored form of a password, at a cost. -/
def hashPassword (args : List Value) : Eval Value := do
  let fn := "hash_password"
  arity (.between 1 2) fn args
  let password ← text fn args 0
  match costArg args with
  | none =>
    let range := s!"{Password.minCost} and {Password.maxCost}"
    Eval.fail (.value s!"hash_password() cost must be an Int between {range}")
  | some cost =>
    if Password.maxLength < password.utf8ByteSize then
      Eval.fail (.value "hash_password() password is longer than 72 bytes")
    return .string (Password.store cost (← newSalt) password)

/-- Compares a password with a stored one. -/
def verifyPassword (args : List Value) : Eval Value := do
  let fn := "verify_password"
  arity (.exactly 2) fn args
  let password ← text fn args 0
  let stored ← text fn args 1
  match Password.verify password stored with
  | .ok b => return .bool b
  | .error e => Eval.fail (.value s!"verify_password() invalid hash: {e.message}")

/-! ## Tokens -/

/-- The claims of a dictionary. -/
def claimsArg (v : Value) : Eval (Table Value) := do
  match v with
  | .dict r => return Datum.sortFields (← Eval.inHeap (·.textEntries r))
  | v =>
    Eval.fail (.type s!"sign_token() claims must be a Dictionary, not '{← typeName v}'")

/-- The second at which a lifetime that starts now ends.  Its length in
nanoseconds is kept within 64 bits. -/
def expiry (now seconds : Int) : Int :=
  (now + (seconds * WebToken.second).bmod 0x10000000000000000) / WebToken.second

/-- Claims with the end of the lifetime that the third argument gives. -/
def withLifetime (args : List Value) (claims : Table Value) : Eval (Table Value) := do
  match args with
  | [_, _, .int n] =>
    return Datum.insertField "exp" (.int (expiry (← read).setup.clock n)) claims
  | [_, _, _] => Eval.fail (.type "sign_token() lifetime must be an Int number of seconds")
  | _ => return claims

/-- A token for claims. -/
def signToken (args : List Value) : Eval Value := do
  let fn := "sign_token"
  arity (.between 2 3) fn args
  let claims ← claimsArg (arg args 0)
  let secret ← text fn args 1
  let claims ← withLifetime args claims
  match (← Eval.inHeap (·.toJson claims)).bind (WebToken.sign · secret) with
  | .ok token => return .string token
  | .error u => Eval.raise (.plain s!"sign_token: {u.message}")

/-- The claims of a token, or `None` if it does not hold. -/
def verifyToken (args : List Value) : Eval Value := do
  let fn := "verify_token"
  arity (.exactly 2) fn args
  let token ← text fn args 0
  let secret ← text fn args 1
  match WebToken.verify? (← read).setup.clock token secret with
  | some claims => Eval.onHeap (Heap.ofPlain claims).run
  | none => return .none

/-! ## The module -/

/-- The digest of a text. -/
def digest (args : List Value) : Eval Value := do
  arity (.exactly 1) "sha256" args
  let s ← text "sha256" args 0
  return .string (hexText (Digest.sha256.hash (bytesOf s)))

/-- Carries out a function of the module. -/
def call (f : CryptoFunction) (args : List Value) : Eval Value :=
  match f with
  | .hashPassword => hashPassword args
  | .verifyPassword => verifyPassword args
  | .signToken => signToken args
  | .verifyToken => verifyToken args
  | .sha256 => digest args

/-- The members of the module. -/
def members : List (String × Member) :=
  [("hash_password", .function (.crypto .hashPassword)),
   ("verify_password", .function (.crypto .verifyPassword)),
   ("sign_token", .function (.crypto .signToken)),
   ("verify_token", .function (.crypto .verifyToken)),
   ("sha256", .function (.crypto .sha256))]

end Pseudocode.Library.CryptoModule
