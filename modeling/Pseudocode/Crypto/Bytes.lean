/-
# `Crypto.Bytes` — bytes, words and text

Bytes are written in hexadecimal digits or in sixty-four letters.  There, three
bytes are four letters of six bits each; one or two bytes at the end are two or
three letters.  `encode` and `decode?` leave it at that; in padded text
(`decodePadded`) equal signs fill the last four places.  Line breaks between
letters never count.
-/
namespace Pseudocode.Crypto

/-! ## Words and text -/

/-- Bytes in order. -/
abbrev Bytes := List UInt8

/-- The bytes of a text. -/
def bytesOf (s : String) : Bytes := s.toUTF8.toList

/-- A number in `count` bytes, the greatest first. -/
def bigEndian (count n : Nat) : Bytes :=
  (List.range count).map fun i => (n / Nat.pow 256 (count - 1 - i)).toUInt8

/-- The number that bytes write, the greatest first. -/
def fromBigEndian (bs : Bytes) : Nat := bs.foldl (fun n b => n * 256 + b.toNat) 0

/-- Bytes in hexadecimal digits. -/
def hexText (bs : Bytes) : String :=
  String.ofList (bs.flatMap fun b => [b.toNat / 16, b.toNat % 16].map Nat.digitChar)

/-- The lists of `size` elements that a list consists of, for at most `count` of
them. -/
def chunks {α : Type} (size : Nat) : (count : Nat) → List α → List (List α)
  | 0, _ => []
  | n + 1, xs => if xs.isEmpty then [] else xs.take size :: chunks size n (xs.drop size)

/-! ## Text from bytes -/

/-- The number of bytes of a character that starts with a byte, and the bits of
its code in that byte. -/
def leadByte? (b : UInt8) : Option (Nat × Nat) :=
  let n := b.toNat
  if n < 0x80 then some (1, n)
  else if 0xC2 ≤ n && n < 0xE0 then some (2, n - 0xC0)
  else if 0xE0 ≤ n && n < 0xF0 then some (3, n - 0xE0)
  else if 0xF0 ≤ n && n < 0xF5 then some (4, n - 0xF0)
  else none

/-- Is this a byte inside a character? -/
def isInner (b : UInt8) : Bool := 0x80 ≤ b.toNat && b.toNat < 0xC0

/-- The least code that needs a number of bytes. -/
def leastCode : Nat → Nat
  | 3 => 0x800
  | 4 => 0x10000
  | _ => 0

/-- The character at the front of bytes, and how many it takes. -/
def firstChar? (bs : Bytes) : Option (Char × Nat) := do
  let (count, top) ← bs.head? >>= leadByte?
  let inner := (bs.drop 1).take (count - 1)
  if inner.length = count - 1 && inner.all isInner then
    let code := inner.foldl (fun n b => n * 64 + (b.toNat - 0x80)) top
    if leastCode count ≤ code && code.isValidChar then some (Char.ofNat code, count) else none
  else none

/-- The characters of at most `n` characters' bytes, and in their places the
bytes that belong to none. -/
def pieces : (n : Nat) → Bytes → List (Char ⊕ UInt8)
  | 0, _ => []
  | _ + 1, [] => []
  | n + 1, b :: bs =>
    match firstChar? (b :: bs) with
    | some (c, count) => .inl c :: pieces n ((b :: bs).drop count)
    | none => .inr b :: pieces n bs

/-- The characters of bytes.  A byte that belongs to none gives the replacement
character. -/
def charsOf (bs : Bytes) : List Char :=
  (pieces bs.length bs).map fun
    | .inl c => c
    | .inr _ => '\uFFFD'

/-- The text that bytes write. -/
def textOf (bs : Bytes) : String := String.ofList (charsOf bs)

/-! ## Sixty-four letters -/

/-- Sixty-four letters, in the order of their values. -/
structure Alphabet where
  letters : List Char

namespace Alphabet

/-- The letters from one to another. -/
def letterRange (first last : Char) : List Char :=
  (List.range (last.toNat - first.toNat + 1)).map fun i => Char.ofNat (first.toNat + i)

/-- Capitals, small letters, digits, dash and underscore. -/
def url : Alphabet :=
  ⟨letterRange 'A' 'Z' ++ letterRange 'a' 'z' ++ letterRange '0' '9' ++ ['-', '_']⟩

/-- Point and slash before capitals, small letters and digits. -/
def password : Alphabet :=
  ⟨['.', '/'] ++ letterRange 'A' 'Z' ++ letterRange 'a' 'z' ++ letterRange '0' '9'⟩

/-- The letter of a value. -/
def letter (a : Alphabet) (n : Nat) : Char := a.letters.getD n '='

/-- The value of a letter. -/
def value? (a : Alphabet) (c : Char) : Option Nat := a.letters.idxOf? c

/-- The letters of up to three bytes. -/
def encodeGroup (a : Alphabet) (group : Bytes) : List Char :=
  let n := fromBigEndian (group ++ List.replicate (3 - group.length) 0)
  ([n / 262144, n / 4096 % 64, n / 64 % 64, n % 64].map a.letter).take (group.length + 1)

/-- Bytes in letters. -/
def encode (a : Alphabet) (bs : Bytes) : String :=
  String.ofList ((chunks 3 bs.length bs).flatMap a.encodeGroup)

/-- The bytes of up to four values.  A single value is no byte. -/
def decodeGroup? (group : List Nat) : Option Bytes :=
  if group.length = 1 then none
  else
    let n := (group ++ List.replicate (4 - group.length) 0).foldl (fun n v => n * 64 + v) 0
    some ((bigEndian 3 n).take (group.length - 1))

/-- Ends a line. -/
def isLineEnd (c : Char) : Bool := c = '\n' || c = '\r'

/-- The bytes that letters write.  The bits left over at the end do not count. -/
def decode? (a : Alphabet) (s : String) : Option Bytes := do
  let letters := s.toList.filter (!isLineEnd ·)
  let values ← letters.mapM a.value?
  let groups ← (chunks 4 values.length values).mapM decodeGroup?
  return groups.flatten

/-! ## Padded text

A text is a list of characters with their places, without line breaks; `size` is
the number of places it had with them. -/

/-- What follows the first equal sign of a group of `count` letters.  Two letters
want a second one, and nothing may come after the padding.  `none` if all is
well, otherwise the place of the fault. -/
def paddingFault? (size count : Nat) (rest : List (Char × Nat)) : Option Nat :=
  match count, rest with
  | 2, [] => some size
  | 2, (c, i) :: rest => if c = '=' then rest.head?.map (·.2) else some (i - 1)
  | _, rest => rest.head?.map (·.2)

/-- The bytes of padded text after `group`, the values of the letters read since
the last whole group, or the place of the first fault. -/
def padded (a : Alphabet) (size : Nat) (group : List Nat) : List (Char × Nat) → Except Nat Bytes
  | [] => if group.isEmpty then .ok [] else .error (size - group.length)
  | (c, i) :: rest =>
    match a.value? c with
    | some v =>
      let group := group ++ [v]
      if group.length < 4 then padded a size group rest
      else (padded a size [] rest).map fun bs => (decodeGroup? group).getD [] ++ bs
    | none =>
      if c != '=' || group.length < 2 then .error i
      else
        match paddingFault? size group.length rest with
        | some place => .error place
        | none => .ok ((decodeGroup? group).getD [])

/-- The bytes that padded letters write, or the place of the first fault. -/
def decodePadded (a : Alphabet) (cs : List Char) : Except Nat Bytes :=
  a.padded cs.length [] (cs.zipIdx.filter fun (c, _) => !isLineEnd c)

end Alphabet

end Pseudocode.Crypto
