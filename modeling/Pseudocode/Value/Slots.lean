import Pseudocode.Value.Basic
/-
# `Value.Slots` — elements in a block of slots

The elements of an array stand at the front of a block that may have room for
more.  They are moved about within the block as long as it has room.  When it
has none left they go to a larger block, and the old one stays as it was left.

Who goes through the elements one by one keeps to the block and the number of
elements it began with: it sees what is written to that block meanwhile, and
nothing of what happens in a later one.
-/
namespace Pseudocode

/-! ## Sizes of blocks -/

namespace Room

/-- The bytes of the blocks up to 32 KiB. -/
def sizes : List Nat :=
  [16, 32, 48, 64, 80, 96, 112, 128, 144, 160, 176, 192, 208, 224, 240, 256, 288, 320, 352,
   384, 416, 448, 480, 512, 576, 640, 704, 768, 896, 1024, 1152, 1280, 1408, 1536, 1792, 2048,
   2304, 2688, 3072, 3200, 3456, 4096, 4864, 5120, 5376, 6144, 6528, 6784, 6912, 8192, 9472,
   9728, 10240, 10880, 12288, 13568, 14336, 16384, 18432, 19072, 20480, 21760, 24576, 27264,
   28672, 32768]

/-- Larger blocks are whole pages of this many bytes. -/
def page : Nat := 8192

/-- The bytes of a slot. -/
def slot : Nat := 16

/-- The bytes in front of the slots: small blocks need none. -/
def header (bytes : Nat) : Nat := if bytes ≤ 512 then 0 else 8

/-- The slots of the smallest block that holds so many elements; no elements need
no block. -/
def atLeast (count : Nat) : Nat :=
  let bytes := slot * count
  match sizes.find? fun size => bytes + header bytes ≤ size with
  | some size => if count = 0 then 0 else (size - header bytes) / slot
  | none => (bytes + page - 1) / page * page / slot

/-- The number of slots asked for when a block of `room` slots is full: twice as
many at first, and a quarter more when there are many. -/
def wanted (room : Nat) : Nat :=
  if room = 0 then 1 else if room < 256 then 2 * room else room + (room + 768) / 4

/-- The slots of the block that follows a full one. -/
def next (room : Nat) : Nat := atLeast (wanted room)

theorem le_atLeast (count : Nat) : count ≤ atLeast count := by
  simp only [atLeast]
  split
  · next size h =>
    have hs : slot * count + header (slot * count) ≤ size := by simpa using List.find?_some h
    simp only [slot] at hs ⊢
    split <;> omega
  · simp only [slot, page]
    omega

theorem lt_wanted (room : Nat) : room < wanted room := by
  simp only [wanted]
  split <;> (try split) <;> omega

theorem lt_next (room : Nat) : room < next room :=
  Nat.lt_of_lt_of_le (lt_wanted room) (le_atLeast _)

end Room

/-! ## Moving values within a block -/

/-- A block in which the slots after `p`, up to `size`, have come one forward.  The
last of them keeps what it held. -/
def forward (block : Array Value) (p size : Nat) : Array Value :=
  if p + 1 = size then block
  else block.extract 0 p ++ block.extract (p + 1) size ++ block.extract (size - 1) block.size

/-- A block in which the slots from `p` on, up to `size`, have gone one further,
over the slot at `size`.  The slot at `p` keeps what it held. -/
def backward (block : Array Value) (p size : Nat) : Array Value :=
  block.extract 0 (p + 1) ++ block.extract p size ++ block.extract (size + 1) block.size

theorem size_forward {block : Array Value} {p size : Nat} (hp : p < size)
    (hs : size ≤ block.size) : (forward block p size).size = block.size := by
  simp only [forward]
  split
  · rfl
  · simp only [Array.size_append, Array.size_extract]; omega

theorem getElem?_forward {block : Array Value} {p size i : Nat} (hp : p < size)
    (hs : size ≤ block.size) (hi : i < size - 1) :
    (forward block p size)[i]? = if i < p then block[i]? else block[i + 1]? := by
  simp only [forward]
  split
  · have : i < p := by omega
    simp [this]
  · rw [Array.getElem?_append_left (by simp only [Array.size_append, Array.size_extract]; omega)]
    split
    · next h =>
      rw [Array.getElem?_append_left (by simp only [Array.size_extract]; omega),
        Array.getElem?_extract, if_pos (by omega), Nat.zero_add]
    · next h =>
      rw [Array.getElem?_append_right (by simp only [Array.size_extract]; omega),
        Array.getElem?_extract, Array.size_extract, if_pos (by omega)]
      congr 1; omega

theorem size_backward {block : Array Value} {p size : Nat} (hp : p ≤ size)
    (hs : size < block.size) : (backward block p size).size = block.size := by
  simp only [backward, Array.size_append, Array.size_extract]; omega

theorem getElem?_backward {block : Array Value} {p size i : Nat} (hp : p ≤ size)
    (hs : size < block.size) (hi : i ≤ size) :
    (backward block p size)[i]? = if i ≤ p then block[i]? else block[i - 1]? := by
  simp only [backward]
  rw [Array.getElem?_append_left (by simp only [Array.size_append, Array.size_extract]; omega)]
  split
  · next h =>
    rw [Array.getElem?_append_left (by simp only [Array.size_extract]; omega),
      Array.getElem?_extract, if_pos (by omega), Nat.zero_add]
  · next h =>
    rw [Array.getElem?_append_right (by simp only [Array.size_extract]; omega),
      Array.getElem?_extract, Array.size_extract, if_pos (by omega)]
    congr 1; omega

/-! ## Slots -/

/-- The elements of an array and the block they stand in. -/
structure Slots where
  /-- The slots of the block that have been in use. -/
  block : Array Value
  /-- How many of them hold elements. -/
  size : Nat
  /-- How many slots the block has. -/
  room : Nat
  /-- The blocks that became too small, as they were left. -/
  former : Array (Array Value)
  size_le : size ≤ block.size
  block_le : block.size ≤ room

namespace Slots

/-- Elements in a block of at least their number of slots. -/
def within (elements : Array Value) (room : Nat) (h : elements.size ≤ room) : Slots :=
  ⟨elements, elements.size, room, #[], Nat.le_refl _, h⟩

/-- Elements in a block that they fill. -/
def ofArray (elements : Array Value) : Slots := within elements elements.size (Nat.le_refl _)

/-- Elements in the smallest block that holds them. -/
def packed (elements : Array Value) : Slots :=
  within elements (Room.atLeast elements.size) (Room.le_atLeast _)

/-- No elements. -/
def empty : Slots := ofArray #[]

instance : Inhabited Slots := ⟨empty⟩

/-- The elements. -/
def toArray (s : Slots) : Array Value :=
  if s.size = s.block.size then s.block else s.block.extract 0 s.size

/-- The element at a place. -/
def get? (s : Slots) (i : Nat) : Option Value := if i < s.size then s.block[i]? else none

theorem toArray_eq (s : Slots) : s.toArray = s.block.extract 0 s.size := by
  simp only [toArray]
  split
  · next h => simp [h]
  · rfl

@[simp] theorem size_toArray (s : Slots) : s.toArray.size = s.size := by
  have := s.size_le
  simp only [toArray_eq, Array.size_extract]; omega

@[simp] theorem getElem?_toArray (s : Slots) (i : Nat) : s.toArray[i]? = s.get? i := by
  have hs : min s.size s.block.size = s.size := Nat.min_eq_left s.size_le
  simp [toArray_eq, get?, Array.getElem?_extract, hs]

@[simp] theorem toArray_ofArray (elements : Array Value) :
    (ofArray elements).toArray = elements := by
  simp [toArray, ofArray, within]

/-! ## Changes -/

/-- Replaces the element at a place; there is none beyond the end. -/
def set (s : Slots) (i : Nat) (v : Value) : Slots :=
  if i < s.size then
    { s with
      block := s.block.setIfInBounds i v
      size_le := by simpa using s.size_le
      block_le := by simpa using s.block_le }
  else s

theorem get?_set (s : Slots) (i : Nat) (v : Value) (j : Nat) :
    (s.set i v).get? j = if i = j ∧ i < s.size then some v else s.get? j := by
  have := s.size_le
  by_cases hi : i < s.size
  · by_cases hj : i = j
    · subst hj
      have : i < s.block.size := by omega
      simp [set, get?, hi, this]
    · simp [set, get?, hi, hj, Array.getElem?_setIfInBounds_ne]
  · simp [set, hi]

/-- The same elements in the next larger block. -/
def moved (s : Slots) : Slots :=
  { s with
    room := Room.next s.room
    former := s.former.push s.block
    block_le := Nat.le_trans s.block_le (Nat.le_of_lt (Room.lt_next _)) }

@[simp] theorem toArray_moved (s : Slots) : s.moved.toArray = s.toArray := rfl

/-- Adds an element where there is room. -/
def pushWithin (s : Slots) (v : Value) (h : s.size < s.room) : Slots :=
  if hb : s.size < s.block.size then
    { s with
      block := s.block.set s.size v hb
      size := s.size + 1
      size_le := by simp only [Array.size_set]; omega
      block_le := by simpa using s.block_le }
  else
    { s with
      block := s.block.push v
      size := s.size + 1
      size_le := by have := s.size_le; simp only [Array.size_push]; omega
      block_le := by have := s.size_le; simp only [Array.size_push]; omega }

theorem get?_pushWithin (s : Slots) (v : Value) (h : s.size < s.room) (i : Nat) :
    (s.pushWithin v h).get? i = if i = s.size then some v else s.get? i := by
  have hb := s.size_le
  by_cases hi : i = s.size
  · subst hi
    by_cases hs : s.size < s.block.size
    · simp [pushWithin, get?, hs]
    · have : s.size = s.block.size := by omega
      simp [pushWithin, get?, this]
  · by_cases hs : s.size < s.block.size
    · have h1 : i < s.size + 1 ↔ i < s.size := by omega
      have h2 : ¬ s.size = i := by omega
      simp [pushWithin, get?, hs, hi, h1, h2]
    · have h1 : i < s.block.size + 1 ↔ i < s.block.size := by omega
      have h2 : s.size = s.block.size := by omega
      have h3 : ¬ i = s.block.size := by omega
      simp [pushWithin, get?, Array.getElem?_push, h1, h2, h3]

theorem toArray_pushWithin (s : Slots) (v : Value) (h : s.size < s.room) :
    (s.pushWithin v h).toArray = s.toArray.push v := by
  apply Array.ext_getElem?
  intro i
  simp only [getElem?_toArray, Array.getElem?_push, size_toArray, get?_pushWithin]

/-- Adds an element at the end, in a larger block if this one is full. -/
def push (s : Slots) (v : Value) : Slots :=
  if h : s.size < s.room then s.pushWithin v h
  else s.moved.pushWithin v (by
    have := Room.lt_next s.room
    have := s.size_le
    have := s.block_le
    simp only [moved]; omega)

@[simp] theorem size_push (s : Slots) (v : Value) : (s.push v).size = s.size + 1 := by
  simp only [push, pushWithin]
  split <;> split <;> rfl

@[simp] theorem toArray_push (s : Slots) (v : Value) : (s.push v).toArray = s.toArray.push v := by
  simp only [push]
  split <;> simp [toArray_pushWithin]

/-- Removes the element at a place.  Those after it come one slot forward; the
slot that becomes free keeps what it held. -/
def erase (s : Slots) (p : Nat) : Slots :=
  if h : p < s.size then
    { s with
      block := forward s.block p s.size
      size := s.size - 1
      size_le := by have := s.size_le; rw [size_forward h s.size_le]; omega
      block_le := by rw [size_forward h s.size_le]; exact s.block_le }
  else s

theorem get?_erase (s : Slots) {p : Nat} (h : p < s.size) (i : Nat) :
    (s.erase p).get? i = if i < p then s.get? i else s.get? (i + 1) := by
  simp only [erase, h, ↓reduceDIte, get?]
  by_cases hi : i < s.size - 1
  · have h1 : i < s.size := by omega
    have h2 : i + 1 < s.size := by omega
    simp [hi, h1, h2, getElem?_forward h s.size_le hi]
  · have h1 : ¬ i < p := by omega
    have h2 : ¬ i + 1 < s.size := by omega
    simp [hi, h1, h2]

/-- Makes room in front of a place: the elements from there on go one slot
further.  The room holds what stood there, or a gap at the end. -/
def openGap (s : Slots) (p : Nat) : Slots :=
  let t := s.push .gap
  if h : p < s.size then
    have hs : s.size < t.block.size := by
      have := t.size_le
      have : t.size = s.size + 1 := s.size_push .gap
      omega
    { t with
      block := backward t.block p s.size
      size_le := by rw [size_backward (Nat.le_of_lt h) hs]; exact t.size_le
      block_le := by rw [size_backward (Nat.le_of_lt h) hs]; exact t.block_le }
  else t

theorem get?_push (s : Slots) (v : Value) (i : Nat) :
    (s.push v).get? i = if i = s.size then some v else s.get? i := by
  rw [← getElem?_toArray, toArray_push, Array.getElem?_push, size_toArray, getElem?_toArray]

theorem get?_openGap (s : Slots) {p : Nat} (hp : p ≤ s.size) (i : Nat) :
    (s.openGap p).get? i =
      if i < p then s.get? i
      else if i = p then (if p < s.size then s.get? p else some .gap)
      else s.get? (i - 1) := by
  have hout : ∀ j, s.size ≤ j → s.get? j = none := fun j hj => by simp [get?, Nat.not_lt.mpr hj]
  by_cases h : p < s.size
  · have hs : s.size < (s.push .gap).block.size := by
      have := (s.push .gap).size_le
      rw [size_push] at this
      omega
    have hblock : ∀ j, j < s.size → (s.push .gap).block[j]? = s.get? j := by
      intro j hj
      have hg := s.get?_push .gap j
      rwa [get?, size_push, if_pos (by omega), if_neg (by omega)] at hg
    by_cases hi : i < s.size + 1
    · simp only [openGap, h, ↓reduceDIte, get?, size_push, hi, ↓reduceIte,
        getElem?_backward (Nat.le_of_lt h) hs (Nat.le_of_lt_succ hi)]
      by_cases h1 : i < p
      · rw [if_pos (by omega), if_pos h1, hblock i (by omega), get?]
      · by_cases h2 : i = p
        · subst h2
          rw [if_pos (by omega), if_neg h1, if_pos rfl, hblock i h, get?, if_pos h]
        · rw [if_neg (by omega), if_neg h1, if_neg h2, hblock (i - 1) (by omega), get?]
    · rw [if_neg (by omega), if_neg (by omega), hout (i - 1) (by omega)]
      simp only [openGap, h, ↓reduceDIte, get?, size_push, hi, ↓reduceIte]
  · have hps : p = s.size := by omega
    simp only [openGap, h, ↓reduceDIte, ↓reduceIte, get?_push]
    subst hps
    by_cases h1 : i < s.size
    · simp [h1, Nat.ne_of_lt h1]
    · by_cases h2 : i = s.size
      · simp [h2]
      · simp [h1, h2, hout i (by omega), hout (i - 1) (by omega)]

/-! ## Going through the elements -/

/-- What one goes through: a block by its number, and a number of elements. -/
structure View where
  block : Nat
  size : Nat

/-- The elements as they stand. -/
def view (s : Slots) : View := ⟨s.former.size, s.size⟩

/-- The value in a slot of a view. -/
def seen? (s : Slots) (v : View) (i : Nat) : Option Value :=
  if v.block = s.former.size then s.block[i]? else (s.former[v.block]?).bind (·[i]?)

/-- Until something changes, what is seen are the elements. -/
theorem seen?_view (s : Slots) {i : Nat} (h : i < s.size) : s.seen? s.view i = s.get? i := by
  simp [seen?, view, get?, h]

end Slots

end Pseudocode
