import Pseudocode.Text.CaseMap
/-
# `Text.Hint` — guessing what was meant

For an unknown name the closest of the known ones is offered.  A name that the
typed text abbreviates wins if little is left out; otherwise the one with the
smallest edit distance, if that is small for the length of the text.
-/
namespace Pseudocode.Text

/-- The next row of the table of edit distances: `above` is the row of the text
before `c`, whose first entry is `corner`; `left` is the entry to the left. -/
def distanceRow (c : Char) : (bs : List Char) → (above : List Nat) → (corner left : Nat) → List Nat
  | b :: bs, up :: above, corner, left =>
    let here := min (min (up + 1) (left + 1)) (if b = c then corner else corner + 1)
    here :: distanceRow c bs above up here
  | _, _, _, _ => []

/-- The number of single-character changes between two texts. -/
def editDistance (a b : List Char) : Nat :=
  let first := (List.range (b.length + 1))
  let last := a.foldl
    (fun row c =>
      match row with
      | corner :: above => (corner + 1) :: distanceRow c b above corner (corner + 1)
      | [] => [])
    first
  last.getLast?.getD 0

/-- Are the characters of the first text in the second, in that order? -/
def isSubsequence : List Char → List Char → Bool
  | [], _ => true
  | _, [] => false
  | a :: as, b :: bs => if a = b then isSubsequence as bs else isSubsequence (a :: as) bs

/-- Does the candidate abbreviate to the name, apart from case? -/
def abbreviates (name candidate : String) : Bool :=
  let n := lower name
  let c := lower candidate
  n.utf8ByteSize ≤ c.utf8ByteSize && isSubsequence n.toList c.toList

/-- The first of the items with the least measure. -/
def firstLeast {α : Type} (measure : α → Nat) : List α → Option (α × Nat)
  | [] => none
  | a :: rest =>
    match firstLeast measure rest with
    | none => some (a, measure a)
    | some (b, n) => if measure a ≤ n then some (a, measure a) else some (b, n)

/-- The known name that comes closest to an unknown one, if one is close enough. -/
def closest? (name : String) (candidates : List String) : Option String :=
  let near := firstLeast (fun c => editDistance name.toList c.toList)
    (candidates.filter (abbreviates name))
  match near with
  | some (c, n) => if n ≤ 2 then some c else byDistance
  | none => byDistance
where
  /-- The candidate with the least distance apart from case. -/
  byDistance : Option String :=
    match firstLeast (fun c => editDistance (lower name).toList (lower c).toList) candidates with
    | some (c, n) => if n < name.utf8ByteSize / 3 + 1 && c != "" then some c else none
    | none => none

/-- The hint about an unknown name; empty if nothing comes close. -/
def hint (name : String) (candidates : List String) : String :=
  match closest? name candidates with
  | some c => s!"did you mean '{c}'?"
  | none => ""

end Pseudocode.Text
