import Pseudocode.Value.Heap
/-
# `Value.Equality` — when two values are equal

Numbers are equal across their types; arrays, dictionaries, records and
instances are equal when their parts are.  Data can be cyclic through records
and instances, so a pair of cells that is already under comparison is taken to
be equal: two values differ only if a difference can be found.  Every descent
adds a pair that was not there before, which bounds the depth.
-/
namespace Pseudocode

/-- A heap cell whose parts decide equality. -/
inductive Cell where
  | array (r : ArrayRef)
  | dict (r : DictRef)
  | record (r : RecordRef)
  | object (r : ObjectRef)
deriving Repr, DecidableEq

/-- The cell of a value that has parts. -/
def Value.cell? : Value → Option Cell
  | .array r => some (.array r)
  | .dict r => some (.dict r)
  | .record r => some (.record r)
  | .object r => some (.object r)
  | _ => Option.none

/-- The pairs of cells that are under comparison or were found equal. -/
abbrev Seen := List (Cell × Cell)

/-- Equality of two numbers: exact between integers and booleans, otherwise as
reals. -/
def equalNumbers (a b : Value) : Bool :=
  match a.integral?, b.integral? with
  | some m, some n => m == n
  | _, _ =>
    match a.number?, b.number? with
    | some x, some y => x == y
    | _, _ => false

/-- Equality of values without parts, on identity where they have one. -/
def equalLeaves (a b : Value) : Bool :=
  match a, b with
  | .none, .none => true
  | .gap, .gap => true
  | .string s, .string t => s == t
  | .recordType r, .recordType q => r == q
  | .classType r, .classType q => r == q
  | .builtin f, .builtin g => f.number == g.number
  | .library r, .library q => r == q
  | .module _ s, .module _ t => s == t
  | .subroutine f, .subroutine g =>
    f.origin.unit == g.origin.unit && f.offset == g.offset && f.scope == g.scope
      && f.this == g.this
  | _, _ => (a.number?).isSome && (b.number?).isSome && equalNumbers a b

/-- The properties of an instance that count for equality: all but methods. -/
def dataProps (t : Table Value) : Table Value :=
  t.filter fun (_, v) =>
    match v with
    | .subroutine _ => false
    | _ => true

namespace Heap

/-- The pairs of parts that have to be equal for two cells to be; `none` if the
cells differ by themselves. -/
def parts? (h : Heap) : Cell → Cell → Option (List (Value × Value))
  | .array r, .array q =>
    let a := h.array r
    let b := h.array q
    if a.size = b.size then some (a.toList.zip b.toList) else none
  | .dict r, .dict q =>
    let d := h.dict r
    let e := h.dict q
    if d.size = e.size then
      d.toList.mapM fun (k, v) => (e.get? k).map fun w => (v, w)
    else none
  | .record r, .record q =>
    let a := h.record r
    let b := h.record q
    if a.type = b.type then
      (h.recordType a.type).fields.mapM fun f =>
        some ((a.fields.get? f).getD .none, (b.fields.get? f).getD .none)
    else none
  | .object r, .object q =>
    let a := h.object r
    let b := h.object q
    let ps := dataProps a.props
    let qs := dataProps b.props
    if a.type = b.type && ps.names.all qs.has && qs.names.all ps.has then
      ps.names.mapM fun name => do return (← ps.get? name, ← qs.get? name)
    else none
  | _, _ => none

/-- Compares two values, going less than `depth` cells deep.  The result is the
grown list of pairs, or `none` as soon as a difference is found. -/
def compareTo (h : Heap) : (depth : Nat) → Value → Value → Seen → Option Seen
  | 0, _, _, _ => none
  | n + 1, a, b, seen =>
    match a.cell?, b.cell? with
    | some x, some y =>
      if x = y || seen.contains (x, y) then some seen
      else
        match h.parts? x y with
        | some pairs =>
          pairs.foldlM (fun seen (v, w) => h.compareTo n v w seen) ((x, y) :: seen)
        | none => none
    | none, none => if equalLeaves a b then some seen else none
    | _, _ => none

/-- Are two values equal? -/
def equal (h : Heap) (a b : Value) : Bool :=
  (h.compareTo (h.comparables * h.comparables + 2) a b []).isSome

end Heap

end Pseudocode
