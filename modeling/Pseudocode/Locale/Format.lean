import Pseudocode.Locale.Basic
import Pseudocode.Real.Binary
/-
# `Locale.Format` — numbers in the signs of a language

A number is first rounded to a whole number of units behind the point; its
digits are then grouped and written.  Numbers and percentages are rounded from
their exact value, a half to the even neighbour; amounts of money from their
first sixty digits, a half away from zero.
-/
namespace Pseudocode.Locale

/-- How many digits behind the point are written: trailing zeros beyond `least`
are left out. -/
structure Precision where
  least : Nat
  most : Nat
deriving Repr, DecidableEq

/-- Digits in groups from the right: the last three, then groups of `size`.
`digits` come last one first, `room` are left in the present group. -/
def groupDigits (mark : Char) (size : Nat) : (room : Nat) → (digits : List Char) → List Char
  | _, [] => []
  | 0, c :: rest => mark :: c :: groupDigits mark size (size - 1) rest
  | n + 1, c :: rest => c :: groupDigits mark size n rest

/-- The whole part of a number. -/
def whole (l : Locale) (n : Nat) : List Char :=
  (groupDigits l.group l.groupSize 3 (Nat.toDigits 10 n).reverse).reverse

/-- The digits of a fraction of `width` digits, without the zeros at its end
beyond `least`. -/
def fraction (least width n : Nat) : List Char :=
  let ds := Nat.toDigits 10 n
  let all := List.replicate (width - ds.length) '0' ++ ds
  let kept := if width = 0 then [] else (all.reverse.dropWhile (· = '0')).reverse
  kept ++ List.replicate (least - kept.length) '0'

/-- A number of units, of which `10 ^ most` are one. -/
def units (l : Locale) (p : Precision) (negative : Bool) (n : Nat) : String :=
  let scale := Nat.pow 10 p.most
  let behind := fraction p.least p.most (n % scale)
  String.ofList ((if negative then [l.minus] else []) ++ l.whole (n / scale)
    ++ (if behind.isEmpty then [] else l.decimal :: behind))

/-- `mantissa * 2 ^ exponent * 10 ^ places`, a half to the even neighbour. -/
def scaled (mantissa : Nat) (exponent : Int) (places : Nat) : Nat :=
  let n := mantissa * Nat.pow 10 places
  if 0 ≤ exponent then n * Nat.pow 2 exponent.toNat
  else Real.roundDiv n (Nat.pow 2 (-exponent).toNat)

/-- A number to its first sixty digits. -/
def leadingDigits (n : Nat) : Nat :=
  let unit := Nat.pow 10 ((Nat.toDigits 10 n).length - 60)
  Real.roundDiv n unit * unit

/-- `mantissa * 2 ^ exponent * 10 ^ places` from its first digits, a half away
from zero. -/
def scaledAway (mantissa : Nat) (exponent : Int) (places : Nat) : Nat :=
  if 0 ≤ exponent then leadingDigits (mantissa * Nat.pow 2 exponent.toNat) * Nat.pow 10 places
  else
    let unit := Nat.pow 2 (-exponent).toNat
    (2 * mantissa * Nat.pow 10 places + unit) / (2 * unit)

/-- A real, by the way its units are counted.  What is no number has a word of
its own and no `tail`. -/
def real (l : Locale) (p : Precision) (count : Nat → Int → Nat) (tail : String) (x : Float) :
    String :=
  match Real.parts x with
  | .nan => "NaN"
  | .infinite negative => (if negative then String.ofList [l.minus, '∞'] else "∞") ++ tail
  | .finite _ m e => l.units p (x < 0) (count m e) ++ tail

/-- A number, with at most three digits behind the point. -/
def number (l : Locale) (x : Float) : String := l.real ⟨0, 3⟩ (scaled · · 3) "" x

/-- A percentage without a fraction. -/
def percentage (l : Locale) (x : Float) : String := l.real ⟨0, 0⟩ (scaled · · 2) l.percent x

/-- A whole number. -/
def integer (l : Locale) (n : Int) : String := l.units ⟨0, 0⟩ (n < 0) n.natAbs

/-- How a language writes a currency in front of an amount. -/
def symbol (l : Locale) (c : Currency) : String := (l.signs.lookup c.code).getD c.symbol

/-- An amount in whole multiples of the smaller unit, a half going away from
zero.  The multiple is taken in floating point. -/
def roundAmount (digits : Nat) (x : Float) : Float :=
  let scale := Real.ofInt (Nat.pow 10 digits)
  (x * scale).round / scale

/-- An amount of money, after its sign. -/
def amount (l : Locale) (c : Currency) (x : Float) : String :=
  let number := l.real ⟨c.digits, c.digits⟩ (scaledAway · · c.digits) "" (roundAmount c.digits x)
  l.symbol c ++ " " ++ number

end Pseudocode.Locale
