import Pseudocode.Real.Binary
import Pseudocode.Run.Trouble
import Pseudocode.Value.Equality
import Pseudocode.Value.Heap
import Pseudocode.Value.Text
import Pseudocode.Value.Word
/-
# `Value.Arithmetic` — the operators on values

Whole-number arithmetic works on 64-bit words: a result that does not fit in one is
an error, never a wrapped number.  Division and remainder round towards
minus infinity, so a remainder has the sign of the divisor.
-/
namespace Pseudocode

/-- An operation that may fail and may allocate. -/
abbrev HeapOp (α : Type) := ExceptT Trouble (StateM Heap) α

/-- Runs an operation that cannot fail. -/
def HeapOp.ofState {α : Type} (x : StateM Heap α) : HeapOp α := ExceptT.lift x

/-! ## Whole numbers -/

/-- The result of an operation on words, or the overflow of the operator. -/
def wordResult (symbol : String) : Option Int64 → Except Trouble Value
  | some w => .ok (.int w.toInt)
  | none => .error (.value s!"integer overflow in '{symbol}'")

/-- Division by zero, in words. -/
def zeroDivision (message : String) : Trouble := ⟨.zeroDivision, message⟩

/-- The power of two reals. -/
def realPower (x y : Float) : Except Trouble Value :=
  if x == 0 && y < 0 then .error (zeroDivision "0.0 cannot be raised to a negative power")
  else
    let z := x.pow y
    if z.isNaN && !x.isNaN && !y.isNaN then .error (.value "math domain error")
    else .ok (.real z)

/-- The arithmetic operators on whole numbers. -/
def intArith (op : BinaryOp) (l r : Int64) : Except Trouble Value :=
  match op with
  | .add => wordResult op.symbol (Word.add? l r)
  | .sub => wordResult op.symbol (Word.sub? l r)
  | .mul => wordResult op.symbol (Word.mul? l r)
  | .div =>
    if r = 0 then .error (zeroDivision "division by zero")
    else .ok (.real (Real.ofInt l.toInt / Real.ofInt r.toInt))
  | .intDiv =>
    if r = 0 then .error (zeroDivision "integer division or modulo by zero")
    else wordResult op.symbol (Word.floorDiv? l r)
  | .mod =>
    if r = 0 then .error (zeroDivision "integer division or modulo by zero")
    else .ok (.int (Word.floorMod l r).toInt)
  | .pow =>
    if 0 ≤ r then wordResult op.symbol (Word.power? 1 l r.toInt.toNat)
    else realPower (Real.ofInt l.toInt) (Real.ofInt r.toInt)
  | _ => .error (.type s!"unknown operator {op.kind.name}")

/-! ## Reals -/

/-- The remainder that has the sign of the divisor. -/
def flooredMod (x y : Float) : Float :=
  let m := Real.mod x y
  if m != 0 && (m < 0) != (y < 0) then m + y else m

/-- The arithmetic operators on reals. -/
def realArith (op : BinaryOp) (x y : Float) : Except Trouble Value :=
  match op with
  | .add => .ok (.real (x + y))
  | .sub => .ok (.real (x - y))
  | .mul => .ok (.real (x * y))
  | .div => if y == 0 then .error (zeroDivision "division by zero") else .ok (.real (x / y))
  | .intDiv =>
    if y == 0 then .error (zeroDivision "float floor division by zero")
    else .ok (.real (x / y).floor)
  | .mod =>
    if y == 0 then .error (zeroDivision "float modulo") else .ok (.real (flooredMod x y))
  | .pow => realPower x y
  | _ => .error (.type s!"unknown operator {op.kind.name}")

/-! ## Comparing -/

/-- What a comparison operator asks of an order. -/
def orderHolds (op : BinaryOp) (o : Ordering) : Bool :=
  match op with
  | .lt => o == .lt
  | .le => o != .gt
  | .gt => o == .gt
  | _ => o != .lt

/-- How two reals compare; `none` if one of them is not a number. -/
def realOrder (x y : Float) : Option Ordering :=
  if x < y then some .lt
  else if y < x then some .gt
  else if x == y then some .eq
  else none

/-- How two values compare; `none` if not at all, and `some none` if one of them
is not a number. -/
def order? (l r : Value) : Option (Option Ordering) :=
  match l, r with
  | .string s, .string t => some (some (compareOfLessAndEq s t))
  | _, _ =>
    match l.integral?, r.integral? with
    | some m, some n => some (some (compare m n))
    | _, _ =>
      match l.number?, r.number? with
      | some x, some y => some (realOrder x y)
      | _, _ => none

/-- A comparison of numbers or of strings. -/
def compareValues (h : Heap) (op : BinaryOp) (l r : Value) : Except Trouble Value :=
  match order? l r with
  | some o => .ok (.bool ((o.map (orderHolds op)).getD false))
  | none =>
    let l := h.typeName l
    let r := h.typeName r
    .error (.type s!"'{op.symbol}' not supported between instances of '{l}' and '{r}'")

/-! ## Repeating -/

/-- The greatest number of bytes or elements that repeating may make. -/
def maxRepeat : Nat := 0x10000000

/-- How often something of the given size is repeated. -/
def repeatCount (kind : String) (size : Nat) (n : Int) : Except Trouble Nat :=
  if n ≤ 0 || size = 0 then .ok 0
  else if (maxRepeat / size : Nat) < n then
    .error (.value s!"repeated {kind} would be too long ({size} x {n})")
  else .ok n.toNat

/-- A string several times over. -/
def repeatString (s : String) (n : Int) : Except Trouble Value := do
  let count ← repeatCount "String" s.utf8ByteSize n
  return .string (String.join (List.replicate count s))

/-- A new array with copies of the elements of another, several times over. -/
def repeatArray (r : ArrayRef) (n : Int) : HeapOp Value := do
  let elements := (← get).array r
  let count ← (repeatCount "Array" elements.size n : Except Trouble Nat)
  HeapOp.ofState do
    let copies ← (List.replicate count elements).mapM Heap.copyAll
    modifyGet (Heap.newArray (copies.foldl (· ++ ·) #[]))

/-- A new array with copies of the elements of two others. -/
def joinArrays (a b : ArrayRef) : HeapOp Value :=
  HeapOp.ofState do
    let h ← get
    let left ← Heap.copyAll (h.array a)
    let right ← Heap.copyAll (h.array b)
    modifyGet (Heap.newArray (left ++ right))

/-! ## The operators -/

/-- Operands an operator has no meaning for. -/
def unsupported (h : Heap) (op : BinaryOp) (l r : Value) : Trouble :=
  let l := h.typeName l
  let r := h.typeName r
  .type s!"unsupported operand type(s) for {op.symbol}: '{l}' and '{r}'"

/-- The arithmetic operators on any two values. -/
def arithmetic (op : BinaryOp) (l r : Value) : HeapOp Value := do
  match op, l, r with
  | .add, .string s, .string t => return .string (s ++ t)
  | .mul, .string s, .int n => (repeatString s n : Except Trouble Value)
  | .add, .array a, .array b => joinArrays a b
  | .mul, .array a, .int n => repeatArray a n
  | .mul, .int n, .string s => (repeatString s n : Except Trouble Value)
  | .mul, .int n, .array a => repeatArray a n
  | _, _, _ =>
    match l.integral?, r.integral? with
    | some m, some n => (intArith op (.ofInt m) (.ofInt n) : Except Trouble Value)
    | _, _ =>
      match l.number?, r.number? with
      | some x, some y => (realArith op x y : Except Trouble Value)
      | _, _ => throw (unsupported (← get) op l r)

/-- A binary operator on two values.  `AND` and `OR`, which may leave their
second operand unevaluated, are not among them. -/
def binaryOp (op : BinaryOp) (l r : Value) : HeapOp Value := do
  match op with
  | .eq => return .bool ((← get).equal l r)
  | .ne => return .bool (!(← get).equal l r)
  | .lt | .le | .gt | .ge => (compareValues (← get) op l r : Except Trouble Value)
  | _ => arithmetic op l r

/-- An operator before a value. -/
def unaryOp (h : Heap) (op : UnaryOp) (v : Value) : Except Trouble Value :=
  match op, v with
  | .not, _ => .ok (.bool (!h.truthy v))
  | .minus, .real x => .ok (.real (-x))
  | .plus, .real x => .ok (.real x)
  | _, _ =>
    match v.integral? with
    | some n =>
      wordResult op.symbol (if op = .minus then Word.neg? (.ofInt n) else some (.ofInt n))
    | none => .error (.type s!"bad operand type for unary {op.symbol}: '{h.typeName v}'")

end Pseudocode
