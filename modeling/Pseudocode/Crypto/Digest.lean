import Pseudocode.Crypto.Bytes
/-
# `Crypto.Digest` — secure hash functions and keyed digests

The family of hash functions that work on blocks of sixteen words.  Its members
differ in the size of a word, the number of rounds and the amounts of rotation;
their constants are the first bits behind the point of roots of prime numbers.
-/
namespace Pseudocode.Crypto

/-! ## Constants -/

/-- The greatest number below `2 ^ bits` whose `k`-th power is at most `n`. -/
def root (k bits n : Nat) : Nat :=
  (List.range bits).foldr
    (fun i r =>
      let t := r + Nat.pow 2 i
      if Nat.pow t k ≤ n then t else r)
    0

/-- Has a number no divisor between 1 and itself? -/
def isPrime (n : Nat) : Bool := 2 ≤ n && (List.range n).all fun d => d < 2 || n % d != 0

/-- The prime numbers below 410, of which there are eighty. -/
def primes : List Nat := (List.range 410).filter isPrime

/-- The first `bits` bits behind the point of the `k`-th root of `n`. -/
def rootFraction (k bits n : Nat) : Nat :=
  root k (bits + 9) (n * Nat.pow 2 (k * bits)) % Nat.pow 2 bits

/-! ## Hash functions -/

/-- A member of the family. -/
structure Digest where
  wordBits : Nat
  rounds : Nat
  /-- The rotations that mix the first word of the state. -/
  mixFirst : Nat × Nat × Nat
  /-- The rotations that mix the fifth word of the state. -/
  mixFifth : Nat × Nat × Nat
  /-- The rotations and the shift of a word fifteen places back. -/
  mixEarly : Nat × Nat × Nat
  /-- The rotations and the shift of a word two places back. -/
  mixLate : Nat × Nat × Nat
  /-- The primes whose square roots start the state. -/
  seeds : List Nat
  /-- The number of bytes of a result. -/
  size : Nat

namespace Digest

/-- Thirty-two-bit words and a result of 256 bits. -/
def sha256 : Digest :=
  ⟨32, 64, (2, 13, 22), (6, 11, 25), (7, 18, 3), (17, 19, 10), primes.take 8, 32⟩

/-- Sixty-four-bit words and a result of 512 bits. -/
def sha512 : Digest :=
  ⟨64, 80, (28, 34, 39), (14, 18, 41), (1, 8, 7), (19, 61, 6), primes.take 8, 64⟩

/-- Sixty-four-bit words and a result of 384 bits. -/
def sha384 : Digest := { sha512 with seeds := (primes.drop 8).take 8, size := 48 }

variable (d : Digest)

/-- The number of bytes of a word. -/
def wordBytes : Nat := d.wordBits / 8

/-- The number of bytes of a block. -/
def blockBytes : Nat := 16 * d.wordBytes

/-- A sum of words. -/
def sum (xs : List Nat) : Nat := xs.foldl (· + ·) 0 % Nat.pow 2 d.wordBits

/-- A word turned to the right. -/
def rotate (n x : Nat) : Nat :=
  x / Nat.pow 2 n + x % Nat.pow 2 n * Nat.pow 2 (d.wordBits - n)

/-- Three rotations together. -/
def mixed (amounts : Nat × Nat × Nat) (x : Nat) : Nat :=
  d.rotate amounts.1 x ^^^ d.rotate amounts.2.1 x ^^^ d.rotate amounts.2.2 x

/-- Two rotations and a shift together. -/
def spread (amounts : Nat × Nat × Nat) (x : Nat) : Nat :=
  d.rotate amounts.1 x ^^^ d.rotate amounts.2.1 x ^^^ x / Nat.pow 2 amounts.2.2

/-- The bits of `y` where `x` has ones, and those of `z` elsewhere. -/
def choose (x y z : Nat) : Nat := (x &&& y) ^^^ (Nat.pow 2 d.wordBits - 1 - x) &&& z

/-- The bits that two of three words have. -/
def majority (x y z : Nat) : Nat := (x &&& y) ^^^ (x &&& z) ^^^ (y &&& z)

/-- The constants of the rounds. -/
def constants : List Nat := (primes.take d.rounds).map (rootFraction 3 d.wordBits)

/-- The state before the first block. -/
def initial : List Nat := d.seeds.map (rootFraction 2 d.wordBits)

/-- A message with a one, zeros, and its length in bits, in whole blocks. -/
def pad (message : Bytes) : Bytes :=
  let tail := 2 * d.wordBytes
  let used := (message.length + 1 + tail) % d.blockBytes
  message ++ 0x80 :: List.replicate ((d.blockBytes - used) % d.blockBytes) 0
    ++ bigEndian tail (8 * message.length)

/-- The word after those of a schedule. -/
def nextWord (ws : Array Nat) : Nat :=
  let back (i : Nat) : Nat := ws.getD (ws.size - i) 0
  d.sum [back 16, d.spread d.mixEarly (back 15), back 7, d.spread d.mixLate (back 2)]

/-- One word for every round: those of a block, and what follows from them. -/
def schedule (block : Bytes) : List Nat :=
  let words := ((chunks d.wordBytes 16 block).map fromBigEndian).toArray
  ((List.range (d.rounds - 16)).foldl (fun ws _ => ws.push (d.nextWord ws)) words).toList

/-- One round. -/
def round (state : List Nat) (k w : Nat) : List Nat :=
  match state with
  | [a, b, c, e, f, g, h, i] =>
    let t := d.sum [i, d.mixed d.mixFifth f, d.choose f g h, k, w]
    let u := d.sum [d.mixed d.mixFirst a, majority a b c]
    [d.sum [t, u], a, b, c, d.sum [e, t], f, g, h]
  | state => state

/-- Takes a block into a state. -/
def compress (constants state : List Nat) (block : Bytes) : List Nat :=
  let last := (constants.zip (d.schedule block)).foldl (fun s (k, w) => d.round s k w) state
  List.zipWith (fun x y => d.sum [x, y]) state last

/-- The hash of a message. -/
def hash (message : Bytes) : Bytes :=
  let padded := d.pad message
  let blocks := chunks d.blockBytes (padded.length / d.blockBytes) padded
  let state := blocks.foldl (d.compress d.constants) d.initial
  (state.flatMap (bigEndian d.wordBytes)).take d.size

/-! ## Keyed digests -/

/-- A key in one block: one that is too long is hashed first. -/
def blockKey (key : Bytes) : Bytes :=
  let k := if d.blockBytes < key.length then d.hash key else key
  k ++ List.replicate (d.blockBytes - k.length) 0

/-- The digest of a message under a key. -/
def keyed (key message : Bytes) : Bytes :=
  let k := d.blockKey key
  let inner := d.hash (k.map (· ^^^ 0x36) ++ message)
  d.hash (k.map (· ^^^ 0x5c) ++ inner)

end Digest

end Pseudocode.Crypto
