import Pseudocode.Real.Reading
import Pseudocode.Yaml.Node
/-
# `Yaml.Meaning` — what a scalar means

A plain scalar may be nothing, a truth value, a number or a point in time; a
quoted one is always text.  A tag says what a scalar has to be.
-/
namespace Pseudocode.Yaml

/-- The meaning of a scalar. -/
inductive Scalar where
  | null
  | bool (b : Bool)
  | int (n : Int)
  | real (x : Float)
  | time
  | merge
  | text (s : String)

/-- The name of the kind of a scalar. -/
def Scalar.tag : Scalar → String
  | null => "!!null"
  | bool _ => "!!bool"
  | int _ => "!!int"
  | real _ => "!!float"
  | time => "!!timestamp"
  | merge => "!!merge"
  | text _ => "!!str"

/-- The words with a meaning of their own. -/
def words : List (String × Scalar) :=
  let inf : Float := 1.0 / 0.0
  [("", .null), ("~", .null), ("null", .null), ("Null", .null), ("NULL", .null),
   ("true", .bool true), ("True", .bool true), ("TRUE", .bool true),
   ("false", .bool false), ("False", .bool false), ("FALSE", .bool false),
   (".nan", .real (0.0 / 0.0)), (".NaN", .real (0.0 / 0.0)), (".NAN", .real (0.0 / 0.0)),
   (".inf", .real inf), (".Inf", .real inf), (".INF", .real inf),
   ("+.inf", .real inf), ("+.Inf", .real inf), ("+.INF", .real inf),
   ("-.inf", .real (-inf)), ("-.Inf", .real (-inf)), ("-.INF", .real (-inf))]

/-- Digits of a base, at least one. -/
def digits? (base : Nat) (cs : List Char) : Option Nat :=
  if cs.isEmpty || !cs.all (fun c => (Real.digitIn? base c).isSome) then none
  else some (Real.digitsValue base cs)

/-- A natural number; what stands in front of its digits gives their base. -/
def natural? : List Char → Option Nat
  | '0' :: 'x' :: rest | '0' :: 'X' :: rest => digits? 16 rest
  | '0' :: 'b' :: rest | '0' :: 'B' :: rest => digits? 2 rest
  | '0' :: 'o' :: rest | '0' :: 'O' :: rest => digits? 8 rest
  | '0' :: c :: rest => digits? 8 (c :: rest)
  | cs => digits? 10 cs

/-- A whole number of 64 bits, with or without a sign bit. -/
def integer? (cs : List Char) : Option Int := do
  let (negative, ds) := Real.splitSign cs
  let n ← natural? ds
  let most := if negative then 0x8000000000000000
    else if ds.length = cs.length then 0xFFFFFFFFFFFFFFFF else 0x7FFFFFFFFFFFFFFF
  if n ≤ most then some (if negative then -(n : Int) else n) else none

/-- Digits with or without a point, and an exponent of ten. -/
def isDecimal (cs : List Char) : Bool :=
  let (_, cs) := Real.splitSign cs
  match Real.splitPoint 10 cs with
  | some (whole, fraction, rest) =>
    let exponent :=
      match rest with
      | [] => true
      | c :: more => (c = 'e' || c = 'E') && (Real.exponent? more).isSome
    exponent && (!whole.isEmpty || !fraction.isEmpty)
  | none => false

/-- A finite number. -/
def finite? (cs : List Char) : Option Scalar :=
  match Real.ofText? (String.ofList cs) with
  | some x => if x.isInf then none else some (.real x)
  | none => none

/-- The number of days of a month. -/
def daysOf (year month : Nat) : Nat :=
  if month = 2 then
    (if year % 4 = 0 && (year % 100 != 0 || year % 400 = 0) then 29 else 28)
  else if [4, 6, 9, 11].contains month then 30
  else 31

/-- A number of one or two digits at the front of a text. -/
def shortNumber? : List Char → Option (Nat × List Char)
  | a :: b :: rest =>
    if !a.isDigit then none
    else if b.isDigit then some (Real.digitsValue 10 [a, b], rest)
    else some (Real.digitsValue 10 [a], b :: rest)
  | [a] => if a.isDigit then some (Real.digitsValue 10 [a], []) else none
  | [] => none

/-- What follows a character at the front of a text. -/
def afterChar? (c : Char) : List Char → Option (List Char)
  | d :: rest => if c = d then some rest else none
  | [] => none

/-- What follows year, month and day, divided by dashes, if there is such a day. -/
def afterDate? (cs : List Char) : Option (List Char) := do
  let year := cs.takeWhile Char.isDigit
  let rest ← afterChar? '-' (cs.dropWhile Char.isDigit)
  let (month, rest) ← shortNumber? rest
  let rest ← afterChar? '-' rest
  let (day, rest) ← shortNumber? rest
  if year.length = 4 && 1 ≤ month && month ≤ 12 && 1 ≤ day
      && day ≤ daysOf (Real.digitsValue 10 year) month then some rest
  else none

/-- What follows a part of a second, if there is one. -/
def afterFraction : List Char → List Char
  | c :: d :: rest =>
    if (c = '.' || c = ',') && d.isDigit then rest.dropWhile Char.isDigit else c :: d :: rest
  | cs => cs

/-- What follows hour, minute and second, divided by colons. -/
def afterClock? (cs : List Char) : Option (List Char) := do
  let (hour, rest) ← shortNumber? cs
  let rest ← afterChar? ':' rest
  let (minute, rest) ← shortNumber? rest
  let rest ← afterChar? ':' rest
  let (second, rest) ← shortNumber? rest
  if hour < 24 && minute < 60 && second < 60 then some (afterFraction rest) else none

/-- Is this a time zone: `Z`, or a difference in hours and minutes? -/
def isZone : List Char → Bool
  | ['Z'] => true
  | [sign, h, i, ':', m, n] =>
    (sign = '+' || sign = '-') && [h, i, m, n].all Char.isDigit
      && Real.digitsValue 10 [h, i] ≤ 24 && Real.digitsValue 10 [m, n] ≤ 60
  | _ => false

/-- Is this a day, or a day and a time?  After a letter the time has a zone, after
blanks it has none. -/
def isTime (s : String) : Bool :=
  match afterDate? s.toList with
  | none => false
  | some [] => true
  | some (c :: rest) =>
    if c = 'T' || c = 't' then ((afterClock? rest).map isZone).getD false
    else if c = ' ' then afterClock? (rest.dropWhile (· = ' ')) = some []
    else false

/-- A number or a point in time. -/
def number? (s : String) : Option Scalar :=
  let cs := s.toList.filter (· != '_')
  if isTime s then some .time
  else
    match integer? cs with
    | some n => some (.int n)
    | none => if isDecimal cs then finite? cs else none

/-- The meaning of a plain scalar. -/
def plainMeaning (s : String) : Scalar :=
  match words.lookup s with
  | some v => v
  | none =>
    let number :=
      match s.toList with
      | '.' :: _ => finite? s.toList
      | c :: _ => if c = '+' || c = '-' || c.isDigit then number? s else none
      | [] => none
    number.getD (.text s)

/-- The tag of a scalar in its short form. -/
def shortTag (tag : String) : String :=
  let long := "!<tag:yaml.org,2002:"
  if tag.startsWith long && tag.endsWith ">" then
    "!!" ++ String.ofList ((tag.toList.drop long.length).dropLast)
  else tag

/-- The meaning of a scalar under a tag.  A number may be taken for a real one;
any other difference between tag and text is a fault. -/
def taggedMeaning (tag s : String) : Except Fault Scalar :=
  let v := plainMeaning s
  if tag = "!!str" then .ok (.text s)
  else if tag = v.tag then .ok v
  else
    match tag, v with
    | "!!float", .int n => .ok (.real (Real.ofInt n))
    | _, v => .error (.nowhere (.wrongTag v.tag s tag))

/-- The meaning of a scalar. -/
def meaning (style : Style) (tag s : String) : Except Fault Scalar :=
  if tag = "" || tag = "!" then
    match style with
    | .plain => .ok (if s = "<<" then .merge else plainMeaning s)
    | .quoted => .ok (.text s)
  else taggedMeaning (shortTag tag) s

end Pseudocode.Yaml
