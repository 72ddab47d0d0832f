/-
# `Text.Bytes` — the characters and the bytes of a text

White space is what has the Unicode property White_Space.  The bytes of a text are those of UTF-8.
-/
namespace Pseudocode.Text

/-! ## White space -/

/-- Is this a white-space character? -/
def isBlank (c : Char) : Bool :=
  let n := c.toNat
  (9 ≤ n && n ≤ 13) || n == 0x20 || n == 0x85 || n == 0xA0 || n == 0x1680
    || (0x2000 ≤ n && n ≤ 0x200A) || n == 0x2028 || n == 0x2029 || n == 0x202F
    || n == 0x205F || n == 0x3000

/-- Drops the characters of a class from both ends. -/
def trimBy (p : Char → Bool) (cs : List Char) : List Char :=
  ((cs.dropWhile p).reverse.dropWhile p).reverse

/-- A text without the white space around it. -/
def trim (s : String) : String := String.ofList (trimBy isBlank s.toList)

/-! ## Bytes -/

/-- The bytes that write a text. -/
def bytes (s : String) : List UInt8 := s.toUTF8.data.toList

/-- The number of bytes of the character that bytes begin with.  A byte with which no character
begins stands for one. -/
def width (bs : List UInt8) : Nat :=
  (((bs.take 4).toByteArray.utf8DecodeChar? 0).map Char.utf8Size).getD 1

/-- The number of characters that bytes write, behind `k` bytes of one that is counted. -/
def charCount : Nat → List UInt8 → Nat
  | _, [] => 0
  | 0, b :: bs => charCount (width (b :: bs) - 1) bs + 1
  | k + 1, _ :: bs => charCount k bs

end Pseudocode.Text
