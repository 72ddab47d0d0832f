/-
# `Locale.Basic` — how languages write numbers and amounts

What divides the fraction from the whole, what divides the groups of digits, the
minus sign and the percent sign; and the codes of currencies, how many digits of
a currency stand behind the point, and the few that are written with a sign of
their own.
-/
namespace Pseudocode

/-- A currency, by its code of three capitals. -/
structure Currency where
  code : String
deriving Repr, DecidableEq

namespace Currency

/-- The codes of currencies without a smaller unit. -/
def wholeCodes : List String :=
  ["AFN", "ALL", "BIF", "CLP", "DJF", "GNF", "IQD", "IRR", "ISK", "JPY", "KMF", "KPW", "KRW",
   "LAK", "LBP", "MGA", "MMK", "PYG", "RSD", "RWF", "SLL", "SOS", "SYP", "UGX", "UYI", "VND",
   "VUV", "XAF", "XOF", "XPF", "YER"]

/-- The codes of currencies with a smaller unit of one in a thousand. -/
def thousandthCodes : List String := ["BHD", "JOD", "KWD", "LYD", "OMR", "TND"]

/-- The codes of currencies with a smaller unit of one in a hundred. -/
def hundredthCodes : List String :=
  ["AED", "AMD", "ANG", "AOA", "ARS", "AUD", "AWG", "AZN", "BAM", "BBD", "BDT", "BGN", "BMD",
   "BND", "BOB", "BRL", "BSD", "BTN", "BWP", "BYN", "BZD", "CAD", "CDF", "CHF", "CNY", "COP",
   "CRC", "CUC", "CUP", "CVE", "CZK", "DKK", "DOP", "DZD", "EGP", "ERN", "ETB", "EUR", "FJD",
   "FKP", "GBP", "GEL", "GHS", "GIP", "GMD", "GTQ", "GYD", "HKD", "HNL", "HRK", "HTG", "HUF",
   "IDR", "ILS", "INR", "JMD", "KES", "KGS", "KHR", "KYD", "KZT", "LKR", "LRD", "LSL", "MAD",
   "MDL", "MKD", "MNT", "MOP", "MRU", "MUR", "MVR", "MWK", "MXN", "MYR", "MZN", "NAD", "NGN",
   "NIO", "NOK", "NPR", "NZD", "PAB", "PEN", "PGK", "PHP", "PKR", "PLN", "QAR", "RON", "RUB",
   "SAR", "SBD", "SCR", "SDG", "SEK", "SGD", "SHP", "SRD", "SSP", "STN", "SVC", "SZL", "THB",
   "TJS", "TMT", "TOP", "TRY", "TTD", "TWD", "TZS", "UAH", "USD", "UYU", "UZS", "VES", "WST",
   "XCD", "XXX", "ZAR", "ZMW"]

/-- Small letters as capitals. -/
def capitals (s : String) : String := String.ofList (s.toList.map Char.toUpper)

/-- The currency of a code, in capitals or small letters. -/
def ofCode? (code : String) : Option Currency :=
  let c := capitals code
  if wholeCodes.contains c || thousandthCodes.contains c || hundredthCodes.contains c then
    some ⟨c⟩
  else none

/-- The number of digits behind the point. -/
def digits (c : Currency) : Nat :=
  if wholeCodes.contains c.code then 0
  else if thousandthCodes.contains c.code then 3
  else 2

/-- The currencies with a sign of their own, by code. -/
def signs : List (String × String) :=
  [("USD", "$"), ("EUR", "€"), ("GBP", "£"), ("JPY", "¥"), ("AUD", "A$"), ("BRL", "R$"),
   ("CAD", "CA$"), ("CNY", "CN¥"), ("HKD", "HK$"), ("ILS", "₪"), ("INR", "₹"), ("KRW", "₩"),
   ("MXN", "MX$"), ("NZD", "NZ$"), ("TWD", "NT$"), ("VND", "₫"), ("XAF", "FCFA"),
   ("XCD", "EC$"), ("XOF", "CFA"), ("XPF", "CFPF")]

/-- How the currency is written in front of an amount. -/
def symbol (c : Currency) : String := (signs.lookup c.code).getD c.code

end Currency

/-- The signs of a language. -/
structure Locale where
  decimal : Char
  group : Char
  minus : Char
  /-- What follows the number of a percentage. -/
  percent : String
  /-- The number of digits of the groups left of the last three. -/
  groupSize : Nat
  /-- The currencies with a sign of their own, by code. -/
  signs : List (String × String)
deriving Repr, DecidableEq

namespace Locale

/-- A blank that does not break a line. -/
def hardSpace : Char := '\u00A0'

/-- A percent sign after such a blank. -/
def spacedPercent : String := String.ofList [hardSpace, '%']

/-- Point, comma, and groups of three. -/
def plain : Locale := ⟨'.', ',', '-', "%", 3, []⟩

/-- The languages that write numbers or money otherwise. -/
def table : List (String × Locale) :=
  [("hi", { plain with groupSize := 2, signs := [("JPY", "JP¥")] }),
   ("de", ⟨',', '.', '-', spacedPercent, 3, []⟩),
   ("es", ⟨',', '.', '-', spacedPercent, 3, [("USD", "US$"), ("GBP", "GBP"), ("JPY", "JPY")]⟩),
   ("fr", ⟨',', hardSpace, '-', spacedPercent, 3,
     [("USD", "$US"), ("GBP", "£GB"), ("JPY", "JPY")]⟩),
   ("de-ch", { plain with group := '\u2019', signs := [("EUR", "EUR")] }),
   ("sv", ⟨',', hardSpace, '\u2212', spacedPercent, 3, [("USD", "US$"), ("JPY", "JPY")]⟩)]

/-- Small letters, and dashes between the parts. -/
def normalTag (tag : String) : String :=
  String.ofList (tag.toList.map fun c => if c = '_' then '-' else c.toLower)

/-- Is this a part of a tag? -/
def isSubtag (s : String) : Bool :=
  1 ≤ s.length && s.length ≤ 8 && s.toList.all Char.isAlphanum

/-- Does a tag start with a language and go on with parts? -/
def isTag (tag : String) : Bool :=
  match tag.splitOn "-" with
  | language :: rest =>
    2 ≤ language.length && language.length ≤ 8 && language.toList.all Char.isAlpha
      && rest.all isSubtag
  | [] => false

/-- The entry for the longest start of a tag. -/
def longestMatch? : (parts : List String) → Option Locale
  | [] => none
  | part :: rest =>
    match table.lookup ("-".intercalate (part :: rest).reverse) with
    | some l => some l
    | none => longestMatch? rest

/-- The signs for a language tag; `none` if it is no tag. -/
def ofTag? (tag : String) : Option Locale :=
  let t := normalTag tag
  if isTag t then some ((longestMatch? (t.splitOn "-").reverse).getD plain) else none

end Locale

end Pseudocode
