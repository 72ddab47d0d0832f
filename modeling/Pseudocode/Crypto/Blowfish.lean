import Pseudocode.Crypto.Bytes
/-
# `Crypto.Blowfish` — a block cipher with a slow key setup

The key of the cipher is a table of 1042 words: eighteen for the rounds and four
boxes of 256.  It starts as the bits of π behind the point.
-/
namespace Pseudocode.Crypto

/-! ## The bits of π -/

/-- The sum of the series for the angle with tangent `1 / x`, in units of
`1 / unit`, from the term `power / k` on. -/
def arctanTerms (x : Nat) : (count : Nat) → (power k : Nat) → Int
  | 0, _, _ => 0
  | n + 1, power, k =>
    if power = 0 then 0 else (power / k : Nat) - arctanTerms x n (power / (x * x)) (k + 2)

/-- The angle with tangent `1 / x`, in units of `1 / 2 ^ bits`. -/
def arctan (bits x : Nat) : Int := arctanTerms x bits (Nat.pow 2 bits / x) 1

/-- The first `bits` bits of π behind the point. -/
def piFraction (bits : Nat) : Nat :=
  let spare := 64
  let wide := bits + spare
  let pi := 16 * arctan wide 5 - 4 * arctan wide 239
  pi.toNat / Nat.pow 2 spare % Nat.pow 2 bits

/-! ## The cipher -/

/-- The table of words. -/
structure Blowfish where
  words : Array UInt32

namespace Blowfish

/-- The number of words for the rounds. -/
def roundWords : Nat := 18

/-- The number of words of the table. -/
def tableSize : Nat := roundWords + 4 * 256

/-- The table before any key. -/
def initial : Blowfish :=
  let bits := piFraction (32 * tableSize)
  ⟨((List.range tableSize).map fun i =>
      (bits / Nat.pow 2 (32 * (tableSize - 1 - i))).toUInt32).toArray⟩

/-- A word of the table. -/
@[inline] def word (c : Blowfish) (i : Nat) : UInt32 := c.words.getD i 0

/-- A word of a box. -/
@[inline] def box (c : Blowfish) (n : Nat) (x : UInt32) : UInt32 :=
  c.word (roundWords + 256 * n + (x &&& 0xFF).toNat)

/-- Mixes the four bytes of a half block through the boxes. -/
@[inline] def mix (c : Blowfish) (x : UInt32) : UInt32 :=
  ((c.box 0 (x >>> 24) + c.box 1 (x >>> 16)) ^^^ c.box 2 (x >>> 8)) + c.box 3 x

/-- The remaining rounds; `i` counts the words used. -/
def rounds (c : Blowfish) : (n : Nat) → (i : Nat) → UInt32 → UInt32 → UInt32 × UInt32
  | 0, i, l, r => (r ^^^ c.word i, l)
  | n + 1, i, l, r => c.rounds n (i + 1) (r ^^^ c.mix l ^^^ c.word i) l

/-- Encrypts a block of two halves. -/
def encrypt (c : Blowfish) (l r : UInt32) : UInt32 × UInt32 :=
  c.rounds 16 1 (l ^^^ c.word 0) r

/-- The words that bytes write when they are repeated without end. -/
def keyWords (count : Nat) (key : Bytes) : Array UInt32 :=
  let bs := key.toArray
  let byte (i : Nat) : UInt32 := (bs.getD (i % bs.size) 0).toUInt32
  ((List.range count).map fun i =>
    byte (4 * i) <<< 24 ||| byte (4 * i + 1) <<< 16 ||| byte (4 * i + 2) <<< 8
      ||| byte (4 * i + 3)).toArray

/-- Adds key words to the words of the rounds. -/
def addKey (c : Blowfish) (key : Array UInt32) : Blowfish :=
  ⟨(List.range roundWords).foldl
    (fun ws i => ws.setIfInBounds i (ws.getD i 0 ^^^ key.getD i 0)) c.words⟩

/-- Replaces the table pair by pair, from pair `i` on, by what encrypting yields;
`salt` is added before each step. -/
def refill (salt : Array UInt32) : (n : Nat) → (i : Nat) → UInt32 → UInt32 → Blowfish → Blowfish
  | 0, _, _, _, c => c
  | n + 1, i, l, r, c =>
    let a := l ^^^ salt.getD (2 * i % salt.size) 0
    let b := r ^^^ salt.getD ((2 * i + 1) % salt.size) 0
    let (l, r) := c.encrypt a b
    refill salt n (i + 1) l r ⟨(c.words.setIfInBounds (2 * i) l).setIfInBounds (2 * i + 1) r⟩

/-- Takes a key and a salt into the table. -/
def expand (key salt : Array UInt32) (c : Blowfish) : Blowfish :=
  refill salt (tableSize / 2) 0 0 0 (c.addKey key)

/-- Takes a key and a salt in by turns. -/
def alternate (key salt : Array UInt32) : (n : Nat) → Blowfish → Blowfish
  | 0, c => c
  | n + 1, c => alternate key salt n ((c.expand key #[]).expand salt #[])

/-- The cipher of a key and a salt of sixteen bytes after `2 ^ cost` turns. -/
def slow (cost : Nat) (key salt : Bytes) : Blowfish :=
  let k := keyWords roundWords key
  let s := keyWords roundWords salt
  alternate k s (Nat.pow 2 cost) (initial.expand k (s.extract 0 4))

/-- Encrypts a block several times. -/
def encryptTimes (c : Blowfish) : (n : Nat) → UInt32 → UInt32 → UInt32 × UInt32
  | 0, l, r => (l, r)
  | n + 1, l, r =>
    let (l, r) := c.encrypt l r
    c.encryptTimes n l r

end Blowfish

end Pseudocode.Crypto
