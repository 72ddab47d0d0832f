import Pseudocode.Real.Binary
/-
# `Real.Display` — how reals are written

The decimal shown for a real is the shortest one that rounds to it, and among
those of the same length the one closest to it.  The reals that round to
`m * 2 ^ q` form an interval; with `n` digits, the only candidates worth trying
are the two multiples of the last digit's unit around the value, so the search
goes through `n = 1, 2, …` and stops at the first that has one inside.

A `Layout` says from which exponents on the digits are written as `d.ddde±xx` and
how; the two layouts of the program are the display form of the language and the
form of numbers in JSON.
-/
namespace Pseudocode.Real

/-! ## The fewest digits that read back -/

/-- The reals that round to a given one, scaled to whole numbers over a common
denominator. -/
structure Interval where
  low : Nat
  value : Nat
  high : Nat
  den : Nat
  /-- Do the ends themselves round to the value? -/
  closed : Bool
deriving Repr, DecidableEq

/-- The interval of `m * 2 ^ q`.  Below a power of two the gap to the next
smaller number is half as wide. -/
def Interval.around (m : Nat) (q : Int) : Interval :=
  let below := if m = Nat.pow 2 52 && Format.double.leastExponent < q then 1 else 2
  let e := q - 2
  let unit := if 0 ≤ e then Nat.pow 2 e.toNat else 1
  { low := (4 * m - below) * unit
    value := 4 * m * unit
    high := (4 * m + 2) * unit
    den := if 0 ≤ e then 1 else Nat.pow 2 (-e).toNat
    closed := m % 2 = 0 }

/-- Compares `c * 10 ^ t` with `num / den`. -/
def compareScaled (c : Nat) (t : Int) (num den : Nat) : Ordering :=
  if 0 ≤ t then compare (c * Nat.pow 10 t.toNat * den) num
  else compare (c * den) (num * Nat.pow 10 (-t).toNat)

/-- Is `c * 10 ^ t` one of the reals that round to the value? -/
def Interval.holds (i : Interval) (c : Nat) (t : Int) : Bool :=
  match compareScaled c t i.low i.den, compareScaled c t i.high i.den with
  | .gt, .lt => true
  | .eq, _ => i.closed
  | _, .eq => i.closed
  | _, _ => false

/-- The greatest `k` with `10 ^ k ≤ num / den`. -/
def floorLog10 (num den : Nat) : Int :=
  let guess := (floorLog2 num den * 78913).fdiv 262144
  if compareScaled 1 guess num den == .gt then guess - 1
  else if compareScaled 1 (guess + 1) num den == .gt then guess
  else guess + 1

/-- The multiples of `10 ^ t` on both sides of the value, the lower one first. -/
def Interval.neighbour (i : Interval) (t : Int) : Nat :=
  if 0 ≤ t then i.value / (i.den * Nat.pow 10 t.toNat)
  else i.value * Nat.pow 10 (-t).toNat / i.den

/-- Of two neighbours `c` and `c + 1` the closer one, and of two equally close
the even one. -/
def Interval.closer (i : Interval) (c : Nat) (t : Int) : Nat :=
  match compareScaled (2 * c + 1) t (2 * i.value) i.den with
  | .gt => c
  | .lt => c + 1
  | .eq => if c % 2 = 0 then c else c + 1

/-- Tries decimals with one more digit each time, whose last digit counts
`10 ^ t`, at most `fuel` times. -/
def Interval.search (i : Interval) : Nat → Int → Nat × Int
  | 0, t => (i.neighbour t, t)
  | fuel + 1, t =>
    let c := i.neighbour t
    match i.holds c t, i.holds (c + 1) t with
    | true, true => (i.closer c t, t)
    | true, false => (c, t)
    | false, true => (c + 1, t)
    | false, false => i.search fuel (t - 1)

/-- Digits after an implied leading point, and the place of that point:
`0.d₁d₂d₃… * 10 ^ point`. -/
structure Digits where
  digits : List Char
  point : Int
deriving Repr, DecidableEq

/-- Drops the zeros at the end of a digit string. -/
def trimZeros (ds : List Char) : List Char := (ds.reverse.dropWhile (· = '0')).reverse

/-- The digits of `c * 10 ^ t`. -/
def Digits.ofScaled (c : Nat) (t : Int) : Digits :=
  let ds := Nat.toDigits 10 c
  ⟨trimZeros ds, ds.length + t⟩

/-- The shortest digits that read back as `m * 2 ^ q`.  Seventeen always do. -/
def shortest (m : Nat) (q : Int) : Digits :=
  if m = 0 then ⟨[], 1⟩
  else
    let i := Interval.around m q
    let (c, t) := i.search 17 (floorLog10 i.value i.den)
    Digits.ofScaled c t

/-! ## Layouts -/

/-- Where and how to use an exponent. -/
structure Layout where
  /-- Scientific exponents below this are written out. -/
  least : Int
  /-- Scientific exponents from this on are written out. -/
  great : Int
  /-- The least number of digits of the exponent. -/
  exponentWidth : Nat
  /-- Does a whole number keep a point and a zero? -/
  keepPoint : Bool
deriving Repr, DecidableEq

/-- Positional from `0.0001` up to below `1e+16`; a real always shows a point
or an exponent. -/
def Layout.display : Layout := ⟨-4, 16, 2, true⟩

/-- Positional from `0.000001` up to below `1e+21`; whole numbers show no point. -/
def Layout.json : Layout := ⟨-6, 21, 1, false⟩

/-- Pads a digit string on the left with zeros. -/
def padZeros (width : Nat) (ds : List Char) : List Char :=
  List.replicate (width - ds.length) '0' ++ ds

/-- Digits with an exponent. -/
def Digits.scientific (d : Digits) (width : Nat) : List Char :=
  let x := d.point - 1
  let mantissa :=
    match d.digits with
    | [] => ['0']
    | [c] => [c]
    | c :: rest => c :: '.' :: rest
  mantissa ++ 'e' :: (if x < 0 then '-' else '+') ::
    padZeros width (Nat.toDigits 10 x.natAbs)

/-- Digits written out in place; a whole number gets `.0` if asked for. -/
def Digits.positional (d : Digits) (keepPoint : Bool) : List Char :=
  let ds := d.digits
  let whole :=
    if d.point ≤ 0 then ['0']
    else
      let n := d.point.toNat
      (ds.take n) ++ List.replicate (n - ds.length) '0'
  let fraction :=
    if d.point ≤ 0 then List.replicate (-d.point).toNat '0' ++ ds else ds.drop d.point.toNat
  match ds, fraction with
  | [], _ => if keepPoint then ['0', '.', '0'] else ['0']
  | _, [] => if keepPoint then whole ++ ['.', '0'] else whole
  | _, _ => whole ++ '.' :: fraction

/-- The digits of a non-negative number in a layout. -/
def Layout.write (l : Layout) (d : Digits) : List Char :=
  let x := d.point - 1
  if d.digits ≠ [] && (x < l.least || l.great ≤ x) then d.scientific l.exponentWidth
  else d.positional l.keepPoint

/-- The display form of a real. -/
def display (x : Float) : String :=
  match parts x with
  | .nan => "nan"
  | .infinite negative => if negative then "-inf" else "inf"
  | .finite negative m q =>
    let digits := Layout.display.write (shortest m q)
    String.ofList (if negative then '-' :: digits else digits)

/-- The JSON form of a real; `none` for what JSON cannot write. -/
def jsonText? (x : Float) : Option String :=
  match parts x with
  | .finite negative m q =>
    let digits := Layout.json.write (shortest m q)
    some (String.ofList (if negative then '-' :: digits else digits))
  | _ => none

end Pseudocode.Real
