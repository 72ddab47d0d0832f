import Pseudocode.Run.World
/-
# `Builtin.Random` — random numbers

A permuted congruential generator with 128 bits of state: the state moves by a
multiplication and an addition, and each number is a scrambled form of it.
-/
namespace Pseudocode.Random

/-- The number of 64-bit words. -/
def wordSize : Nat := 0x10000000000000000

/-- The state for a seed. -/
def ofSeed (seed : Int) : Random :=
  let s := UInt64.ofNat (seed % wordSize).toNat
  ⟨s, s ^^^ 0x9e3779b97f4a7c15⟩

/-- The factor of one move of the state. -/
def multiplier : Nat := 2549297995355413924 * wordSize + 4865540595714422341

/-- What one move of the state adds. -/
def increment : Nat := 6364136223846793005 * wordSize + 1442695040888963407

/-- Moves the state. -/
def advance (g : Random) : Random :=
  let n := g.high.toNat * wordSize + g.low.toNat
  let m := (n * multiplier + increment) % (wordSize * wordSize)
  ⟨UInt64.ofNat (m / wordSize), UInt64.ofNat (m % wordSize)⟩

/-- The number that stands for a state. -/
def scramble (g : Random) : UInt64 :=
  let h := g.high
  let h := h ^^^ (h >>> 32)
  let h := h * 0xda942042e4dd58b5
  let h := h ^^^ (h >>> 48)
  h * (g.low ||| 1)

/-- The next number. -/
def next (g : Random) : UInt64 × Random :=
  let g := g.advance
  (g.scramble, g)

/-- Draws until the product with `n` leaves no bias, at most `tries` times. -/
def belowTo (n : Nat) : (tries : Nat) → Random → Nat × Random
  | 0, g => (0, g)
  | t + 1, g =>
    let (x, g) := g.next
    let product := x.toNat * n
    if product % wordSize < wordSize % n then belowTo n t g else (product / wordSize, g)

/-- A number below `n`, each equally likely.  A power of two takes the low bits
of one draw. -/
def below (n : Nat) (g : Random) : Nat × Random :=
  if n &&& (n - 1) = 0 then
    let (x, g) := g.next
    (x.toNat % n, g)
  else belowTo n 0x100000000 g

theorem belowTo_lt {n : Nat} (some : 0 < n) (tries : Nat) (g : Random) :
    (belowTo n tries g).1 < n := by
  induction tries generalizing g with
  | zero => exact some
  | succ t ih =>
    simp only [belowTo]
    split
    · exact ih _
    · exact Nat.div_lt_of_lt_mul (Nat.mul_lt_mul_of_pos_right g.next.1.toNat_lt some)

theorem below_lt {n : Nat} (some : 0 < n) (g : Random) : (below n g).1 < n := by
  simp only [below]
  split
  · exact Nat.mod_lt _ some
  · exact belowTo_lt some _ g

/-! ## Random integers -/

/-- A source of random words. -/
structure Source (G : Type) where
  /-- Any word. -/
  next : G → UInt64 × G
  /-- A word below a bound that is not zero. -/
  below : UInt64 → G → UInt64 × G
  below_lt : ∀ n g, 0 < n → (below n g).1 < n

/-- The number of integers from `low` to `high`, taken without sign.  That of all integers is no
word, and comes out as zero. -/
def width (low high : Int64) : UInt64 := high.toUInt64 - low.toUInt64 + 1

/-- An integer from `low` to `high`, each equally likely.  A word stands for its distance from
`low`, and if there is room for all words, for itself. -/
def Source.between {G : Type} (s : Source G) (low high : Int64) (g : G) : Int64 × G :=
  let n := width low high
  if n = 0 then
    let (x, g) := s.next g
    (x.toInt64, g)
  else
    let (x, g) := s.below n g
    ((low.toUInt64 + x).toInt64, g)

/-- The generator as a source. -/
def source : Source Random where
  next := next
  below n g :=
    let (x, g) := g.below n.toNat
    (.ofNat x, g)
  below_lt n g some := by
    have small := below_lt (UInt64.lt_iff_toNat_lt.mp some) g
    rw [UInt64.lt_iff_toNat_lt, UInt64.toNat_ofNat']
    exact Nat.lt_of_le_of_lt (Nat.mod_le _ _) small

/-- An integer from `low` to `high`, drawn from the generator. -/
def inRange (low high : Int) (g : Random) : Int × Random :=
  let (n, g) := source.between (.ofInt low) (.ofInt high) g
  (n.toInt, g)

end Pseudocode.Random
