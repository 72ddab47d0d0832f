/-
# `Value.Word` — whole-number operations on 64-bit words

The machine's own operations wrap around.  Each operation here looks at what the
wrapped result gives away and answers `none` when the true one has left the word.
-/
namespace Pseudocode.Word

/-- The sum.  Only numbers of one sign can leave the word, and then the sum has the
other sign. -/
def add? (l r : Int64) : Option Int64 :=
  let sum := l + r
  if (0 ≤ l ↔ 0 ≤ r) ∧ ¬(0 ≤ sum ↔ 0 ≤ l) then none else some sum

/-- The difference, which can leave the word only between numbers of two signs. -/
def sub? (l r : Int64) : Option Int64 :=
  let difference := l - r
  if ¬(0 ≤ l ↔ 0 ≤ r) ∧ ¬(0 ≤ difference ↔ 0 ≤ l) then none else some difference

/-- The distance from zero, which for the least word is a number only without sign. -/
def magnitude (a : Int64) : UInt64 := if a < 0 then (-a).toUInt64 else a.toUInt64

/-- The upper and the lower half of a full product. -/
def mulWide (x y : UInt64) : UInt64 × UInt64 :=
  (.ofNat (x.toNat * y.toNat / 0x10000000000000000), x * y)

/-- The product, by way of the magnitudes.  The magnitude of the least word is one
that only a negative product may have. -/
def mul? (a b : Int64) : Option Int64 :=
  if a = 0 ∨ b = 0 then some 0
  else
    let (high, low) := mulWide (magnitude a) (magnitude b)
    let negative := decide (a < 0) != decide (b < 0)
    if high ≠ 0 ∨ 0x8000000000000000 < low ∨ (low = 0x8000000000000000 ∧ negative = false) then
      none
    else if negative then some (-low).toInt64
    else some low.toInt64

/-- The quotient rounded down, from the one rounded towards zero.  Only the least
word divided by -1 leaves the word. -/
def floorDiv? (l r : Int64) : Option Int64 :=
  if l = Int64.minValue ∧ r = -1 then none
  else if l % r ≠ 0 ∧ ¬(l < 0 ↔ r < 0) then some (l / r - 1)
  else some (l / r)

/-- The remainder with the sign of the divisor, from the one with the sign of the
dividend. -/
def floorMod (l r : Int64) : Int64 :=
  let m := l % r
  if m ≠ 0 ∧ ¬(m < 0 ↔ r < 0) then m + r else m

/-- `result * base ^ exponent` by repeated squaring.  The base is squared only when
a digit of the exponent is left to use it. -/
def power? (result base : Int64) (exponent : Nat) : Option Int64 :=
  (if exponent % 2 = 1 then mul? result base else some result).bind fun result =>
    if exponent / 2 = 0 then some result
    else (mul? base base).bind fun square => power? result square (exponent / 2)
termination_by exponent

/-- The number with the other sign. -/
def neg? (a : Int64) : Option Int64 := if a = Int64.minValue then none else some (-a)

/-- What Euclid's algorithm leaves.  A remainder has the sign of the dividend, so this may be
negative. -/
def euclid (a b : Int64) : Int64 := if b = 0 then a else euclid b (a % b)
termination_by b.toInt.natAbs
decreasing_by
  next some =>
  rw [Int64.toInt_mod, Int.natAbs_tmod]
  exact Nat.mod_lt _ (Int.natAbs_pos.mpr fun none => some (Int64.toInt_inj.mp none))

/-- The greatest common divisor: what Euclid's algorithm leaves, without its sign, which the
least word keeps. -/
def gcd (a b : Int64) : Int64 :=
  let d := euclid a b
  if d < 0 then -d else d

end Pseudocode.Word
