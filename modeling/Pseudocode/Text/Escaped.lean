import Pseudocode.Text.Printable
/-
# `Text.Escaped` — quoted text, in messages and as the language displays it

Messages show a piece of source between double quotes.  Printable characters
stand for themselves; the named controls, the quote and the backslash are
escaped by a letter or themselves, other ASCII by `\x` and two digits, the rest
by `\u` and four digits or `\U` and eight.
-/
namespace Pseudocode.Text

/-- `n` in lower-case hexadecimal, padded with zeros to `width` digits. -/
def hex (width n : Nat) : String :=
  let digits := Nat.toDigits 16 n
  String.ofList (List.replicate (width - digits.length) '0' ++ digits)

/-- The written form of one character between double quotes. -/
def escapeChar (c : Char) : String :=
  if c = '"' then "\\\""
  else if c = '\\' then "\\\\"
  else if isPrintable c then c.toString
  else
    match c.toNat with
    | 7 => "\\a"
    | 8 => "\\b"
    | 12 => "\\f"
    | 10 => "\\n"
    | 13 => "\\r"
    | 9 => "\\t"
    | 11 => "\\v"
    | n =>
      if n < 0x20 || n == 0x7F then "\\x" ++ hex 2 n
      else if n < 0x10000 then "\\u" ++ hex 4 n
      else "\\U" ++ hex 8 n

/-- A text between double quotes, with escapes. -/
def escaped (s : String) : String :=
  "\"" ++ String.join (s.toList.map escapeChar) ++ "\""

/-! ## Strings as the language displays them

Inside containers a string is shown as a literal: between single quotes, or
between double quotes when it has a single quote and no double one.  The
backslash, the quote in use and tab, newline and return are escaped by a
backslash; the other controls are written `\x` and two digits. -/

/-- The quote a string is shown in. -/
def quoteFor (cs : List Char) : Char :=
  if cs.contains '\'' && !cs.contains '"' then '"' else '\''

/-- The written form of one character between quotes `q`. -/
def quoteChar (q c : Char) : List Char :=
  if c = '\\' then ['\\', '\\']
  else if c = '\n' then ['\\', 'n']
  else if c = '\t' then ['\\', 't']
  else if c = '\r' then ['\\', 'r']
  else if c = q then ['\\', c]
  else if c.toNat < 0x20 || c.toNat = 0x7F then '\\' :: 'x' :: (hex 2 c.toNat).toList
  else [c]

/-- A string as a literal of the language. -/
def quoted (s : String) : String :=
  let q := quoteFor s.toList
  String.ofList (q :: s.toList.flatMap (quoteChar q) ++ [q])

end Pseudocode.Text
