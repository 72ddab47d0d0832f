import Pseudocode.Real.Binary
/-
# `Real.Reading` — reals from text

A real is written in decimal with an optional exponent, in hexadecimal with an
obligatory binary exponent, or as one of the words `inf`, `infinity`, `nan`.
Underscores may stand between digits.  The number read is the one closest to
the text; too great a number reads as an infinity, too small a one as zero.
Two limits show on texts of hundreds of digits: an exponent stops growing once
it has five digits or is 10000, and a decimal whole part is looked at for 800
digits only (`Format.longDecimal`).
-/
namespace Pseudocode.Real

/-- The value of a hexadecimal digit. -/
def digitValue? (c : Char) : Option Nat :=
  if '0' ≤ c && c ≤ '9' then some (c.toNat - '0'.toNat)
  else if 'a' ≤ c && c ≤ 'f' then some (c.toNat - 'a'.toNat + 10)
  else if 'A' ≤ c && c ≤ 'F' then some (c.toNat - 'A'.toNat + 10)
  else none

/-- The value of a digit in the given base. -/
def digitIn? (base : Nat) (c : Char) : Option Nat := (digitValue? c).filter (· < base)

/-- The number a string of digits writes; characters that are no digits count
as zero. -/
def digitsValue (base : Nat) (ds : List Char) : Nat :=
  ds.foldl (fun n c => n * base + (digitIn? base c).getD 0) 0

/-- Splits the digits of a base off the start of a text. -/
def spanDigits (base : Nat) (cs : List Char) : List Char × List Char :=
  (cs.takeWhile fun c => (digitIn? base c).isSome, cs.dropWhile fun c => (digitIn? base c).isSome)

/-- Splits a sign off; `true` for minus. -/
def splitSign : List Char → Bool × List Char
  | '-' :: rest => (true, rest)
  | '+' :: rest => (false, rest)
  | cs => (false, cs)

/-- The whole part and the fraction of a number, at least one of them not empty,
and what follows. -/
def splitPoint (base : Nat) (cs : List Char) : Option (List Char × List Char × List Char) :=
  let (whole, rest) := spanDigits base cs
  let (fraction, rest) :=
    match rest with
    | '.' :: more => spanDigits base more
    | _ => ([], rest)
  if whole.isEmpty && fraction.isEmpty then none else some (whole, fraction, rest)

/-- The exponent a string of digits writes.  One that has reached 10000 takes no
further digit, so none is greater than 99999. -/
def exponentValue (ds : List Char) : Nat :=
  ds.foldl (fun n c => if n < 10000 then n * 10 + (digitIn? 10 c).getD 0 else n) 0

/-- A signed decimal exponent that ends the text. -/
def exponent? (cs : List Char) : Option Int :=
  let (negative, rest) := splitSign cs
  let (ds, rest) := spanDigits 10 rest
  if ds.isEmpty || !rest.isEmpty then none
  else
    let n : Int := exponentValue ds
    some (if negative then -n else n)

/-- Past these decimal magnitudes every number is infinite or zero. -/
def beyond (digits : Nat) (e : Int) : Option Bool :=
  if 400 < (digits : Int) + e then some true
  else if (digits : Int) + e < -400 then some false
  else none

/-- The bits, in a format, of `n * 10 ^ e`. -/
def Format.decimal (f : Format) (n : Nat) (e : Int) : Nat :=
  if n = 0 then 0
  else
    match beyond (Nat.toDigits 10 n).length e with
    | some true => f.infinity
    | some false => 0
    | none =>
      if 0 ≤ e then f.nearest (n * Nat.pow 10 e.toNat) 1
      else f.nearest n (Nat.pow 10 (-e).toNat)

/-- The bits of `n * 2 ^ e`. -/
def Format.binary (f : Format) (n : Nat) (e : Int) : Nat :=
  if n = 0 then 0
  else if 5000 < e + n.log2 then f.infinity
  else if e + n.log2 < -5000 then 0
  else if 0 ≤ e then f.nearest (n * Nat.pow 2 e.toNat) 1
  else f.nearest n (Nat.pow 2 (-e).toNat)

/-- Are there digits other than zero? -/
def anyNonzero (ds : List Char) : Bool := ds.any (· ≠ '0')

/-- The bits of a decimal whose whole part has more than 800 digits, none of
the leading ones zero.  If the first nineteen digits and their successor come
to the same number, that is the number; otherwise the whole part ends at its
800th digit, and any digit other than zero after that tips a half upwards. -/
def Format.longDecimal (f : Format) (whole fraction : List Char) (e : Int) : Nat :=
  let ds := whole ++ fraction
  let lead := digitsValue 10 (ds.take 19)
  let scale := e + whole.length - 19
  let low := f.decimal lead scale
  if !anyNonzero (ds.drop 19) || f.decimal (lead + 1) scale = low then low
  else
    let kept := digitsValue 10 (ds.take 800)
    if anyNonzero (ds.drop 800) then f.decimal (kept * 10 + 1) (e - 1) else f.decimal kept e

/-- A decimal number without sign. -/
def Format.readDecimal? (f : Format) (cs : List Char) : Option Nat := do
  let (whole, fraction, rest) ← splitPoint 10 cs
  let e ←
    match rest with
    | [] => some 0
    | c :: more => if c = 'e' || c = 'E' then exponent? more else none
  let whole := whole.dropWhile (· = '0')
  if 800 < whole.length then some (f.longDecimal whole fraction e)
  else some (f.decimal (digitsValue 10 (whole ++ fraction)) (e - fraction.length))

/-- A hexadecimal number without sign, after its `0x`.  The exponent is binary
and has to be there. -/
def Format.readHex? (f : Format) (cs : List Char) : Option Nat := do
  let (whole, fraction, rest) ← splitPoint 16 cs
  match rest with
  | c :: more =>
    if c = 'p' || c = 'P' then
      let e ← exponent? more
      some (f.binary (digitsValue 16 (whole ++ fraction)) (e - 4 * fraction.length))
    else none
  | [] => none

/-- The bits of a number without sign and underscores. -/
def Format.readPlain? (f : Format) (cs : List Char) : Option Nat :=
  match cs with
  | '0' :: x :: rest =>
    if (x = 'x' || x = 'X') && !rest.isEmpty then f.readHex? rest else f.readDecimal? cs
  | _ => f.readDecimal? cs

/-- Does every underscore stand between two digits of the base?  `afterDigit`
says whether a digit stands right before the text. -/
def underscoresFit (base : Nat) (afterDigit : Bool) : List Char → Bool
  | [] => true
  | '_' :: rest =>
    afterDigit && (rest.head?.bind (digitIn? base)).isSome && underscoresFit base false rest
  | c :: rest => underscoresFit base (digitIn? base c).isSome rest

/-- Are the underscores of a number without sign well placed?  The mark of a
hexadecimal number counts as a digit. -/
def underscoresAllowed : List Char → Bool
  | '0' :: x :: rest =>
    if x = 'x' || x = 'X' then underscoresFit 16 true rest
    else underscoresFit 10 true (x :: rest)
  | cs => underscoresFit 10 false cs

/-- The bits of a number without sign. -/
def Format.readMagnitude? (f : Format) (cs : List Char) : Option Nat :=
  if !cs.contains '_' then f.readPlain? cs
  else if underscoresAllowed cs then f.readPlain? (cs.filter (· ≠ '_'))
  else none

/-- Do the characters behind the sign name the infinite? -/
def namesInfinity (cs : List Char) : Bool :=
  let word := String.ofList (cs.map Char.toLower)
  word = "inf" || word = "infinity"

/-- Sign and bits of the number a text writes, or `none` if it writes none. -/
def Format.read? (f : Format) (text : String) : Option Parts :=
  let (negative, cs) := splitSign text.toList
  if namesInfinity cs then some (.infinite negative)
  else if String.ofList (text.toList.map Char.toLower) = "nan" then some .nan
  else (f.readMagnitude? cs).map (f.partsOf negative)

/-- The real a text writes. -/
def ofText? (text : String) : Option Float := (Format.double.read? text).map ofParts

/-- The real a text writes, first rounded to 32 bits. -/
def ofTextSingle? (text : String) : Option Float := (Format.single.read? text).map ofParts

end Pseudocode.Real
