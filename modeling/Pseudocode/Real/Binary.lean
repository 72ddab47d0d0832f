
/-
# `Real.Binary` — reals as whole numbers times powers of two

A real is a 64-bit binary floating-point number.  `parts` takes one apart into
sign, mantissa and exponent; `nearest` goes the other way, from an exact ratio
of natural numbers to the bit pattern of the number closest to it.  All of the
reading and writing of reals is whole-number arithmetic between these two.
-/
namespace Pseudocode.Real

/-- What a floating-point number is: not a number, infinite, or
`± mantissa * 2 ^ exponent`. -/
inductive Parts where
  | nan
  | infinite (negative : Bool)
  | finite (negative : Bool) (mantissa : Nat) (exponent : Int)
deriving Repr, DecidableEq

/-- A binary interchange format: the stored bits of the fraction, the exponent
of its smallest step, and the bit pattern of infinity. -/
structure Format where
  fractionBits : Nat
  leastExponent : Int
  infinity : Nat
deriving Repr, DecidableEq

/-- The 64-bit format, which reals have. -/
def Format.double : Format := ⟨52, -1074, 0x7FF0000000000000⟩

/-- The 32-bit format. -/
def Format.single : Format := ⟨23, -149, 0x7F800000⟩

/-- Takes apart the bit pattern of a number without its sign. -/
def Format.partsOf (f : Format) (negative : Bool) (bits : Nat) : Parts :=
  let fraction := bits % Nat.pow 2 f.fractionBits
  let biased := bits / Nat.pow 2 f.fractionBits
  if bits > f.infinity then .nan
  else if bits = f.infinity then .infinite negative
  else if biased = 0 then .finite negative fraction f.leastExponent
  else .finite negative (Nat.pow 2 f.fractionBits + fraction) (f.leastExponent + (biased - 1))

/-- Takes a real apart. -/
def parts (x : Float) : Parts :=
  let bits := x.toBits.toNat
  Format.double.partsOf (bits ≥ 0x8000000000000000) (bits % 0x8000000000000000)

/-- The quotient rounded to the nearest whole number, a half to the even one. -/
def roundDiv (num den : Nat) : Nat :=
  let q := num / den
  let r := num % den
  if den < 2 * r || (den == 2 * r && q % 2 == 1) then q + 1 else q

/-- `num / den * 2 ^ -e` as a ratio of natural numbers. -/
def scaleDown (num den : Nat) (e : Int) : Nat × Nat :=
  if 0 ≤ e then (num, den * Nat.pow 2 e.toNat) else (num * Nat.pow 2 (-e).toNat, den)

/-- The exponent of the greatest power of two that is at most `num / den`. -/
def floorLog2 (num den : Nat) : Int :=
  let guess : Int := (num.log2 : Int) - den.log2
  let (n, d) := scaleDown num den guess
  if d ≤ n then guess else guess - 1

/-- The bit pattern of the number closest to `num / den`, halves going to the
even mantissa, and infinity when it is too great. -/
def Format.nearest (f : Format) (num den : Nat) : Nat :=
  if num = 0 then 0
  else
    let e := max (floorLog2 num den - f.fractionBits) f.leastExponent
    let (n, d) := scaleDown num den e
    min ((e - f.leastExponent).toNat * Nat.pow 2 f.fractionBits + roundDiv n d) f.infinity

/-- The real with the given sign and magnitude bits. -/
def ofMagnitude (negative : Bool) (bits : Nat) : Float :=
  Float.ofBits (bits + (if negative then 0x8000000000000000 else 0)).toUInt64

/-- The real closest to `± num / den`. -/
def ofRatio (negative : Bool) (num den : Nat) : Float :=
  ofMagnitude negative (Format.double.nearest num den)

/-- The real closest to a number given by its parts. -/
def ofParts : Parts → Float
  | .nan => Float.ofBits 0x7FF8000000000001
  | .infinite negative => ofMagnitude negative Format.double.infinity
  | .finite negative m e =>
    if 0 ≤ e then ofRatio negative (m * Nat.pow 2 e.toNat) 1
    else ofRatio negative m (Nat.pow 2 (-e).toNat)

/-- A real that is a whole number, as that number. -/
def toInt? (x : Float) : Option Int :=
  match parts x with
  | .finite negative m e =>
    let magnitude : Option Nat :=
      if 0 ≤ e then some (m * Nat.pow 2 e.toNat)
      else if m % Nat.pow 2 (-e).toNat = 0 then some (m / Nat.pow 2 (-e).toNat)
      else none
    magnitude.map fun n => if negative then -(n : Int) else n
  | _ => none

/-- A finite real without its fraction; `none` for the others. -/
def truncate? (x : Float) : Option Int :=
  match parts x with
  | .finite negative m e =>
    let n := if 0 ≤ e then m * Nat.pow 2 e.toNat else m / Nat.pow 2 (-e).toNat
    some (if negative then -(n : Int) else n)
  | _ => none

/-- The real closest to a whole number. -/
def ofInt (n : Int) : Float := ofRatio (n < 0) n.natAbs 1

/-! ## Remainders and the length of a diagonal

The remainder of a division is exact: it is taken between whole numbers, on the
common scale of both operands, and needs no rounding. -/

/-- The remainder of `x / y` with the sign of `x`, for finite `x` and `y ≠ 0`. -/
def finiteMod (negative : Bool) (m : Nat) (e : Int) (n : Nat) (f : Int) : Float :=
  let least := min e f
  let a := m * Nat.pow 2 (e - least).toNat
  let b := n * Nat.pow 2 (f - least).toNat
  ofParts (.finite negative (a % b) least)

/-- The remainder of `x / y` that has the sign of `x` and is smaller than `y`. -/
def mod (x y : Float) : Float :=
  match parts x, parts y with
  | .finite negative m e, .finite _ n f =>
    if n = 0 then 0.0 / 0.0 else finiteMod negative m e n f
  | .finite _ _ _, .infinite _ => x
  | _, _ => 0.0 / 0.0

/-- The length of the hypotenuse over `x` and `y`. -/
def hypot (x y : Float) : Float :=
  if x.isInf || y.isInf then 1.0 / 0.0
  else if x.isNaN || y.isNaN then 0.0 / 0.0
  else
    let p := max x.abs y.abs
    let q := min x.abs y.abs
    if p == 0 then 0
    else
      let r := q / p
      p * Float.sqrt (1 + r * r)

end Pseudocode.Real
