import Pseudocode.Proofs.Arithmetic.Word
import Pseudocode.Value.Arithmetic
/-
# `Proofs.Arithmetic.Exact` — whole-number arithmetic is exact or fails

Integers and booleans take part in whole-number arithmetic.  The number an operator
makes of two of them is that of unbounded arithmetic (`BinaryOp.whole?`); if it is no
word the operator fails, and it never answers another number.
-/
namespace Pseudocode

/-- The number that an operator makes of two whole numbers.  Division rounds towards
minus infinity. -/
def BinaryOp.whole? : BinaryOp → Int → Int → Option Int
  | .add, m, n => some (m + n)
  | .sub, m, n => some (m - n)
  | .mul, m, n => some (m * n)
  | .intDiv, m, n => if n = 0 then none else some (m.fdiv n)
  | .mod, m, n => if n = 0 then none else some (m.fmod n)
  | .pow, m, n => if 0 ≤ n then some (m ^ n.toNat) else none
  | _, _, _ => none

/-- An operator has a number for two words exactly as `whole?` says, if that number is a
word again. -/
theorem intArith_eq {op : BinaryOp} {l r : Int64} {k : Int}
    (hk : op.whole? l.toInt r.toInt = some k) :
    intArith op l r = wordResult op.symbol (Word.ofInt? k) := by
  cases op <;> simp only [BinaryOp.whole?, Option.some.injEq, reduceCtorEq,
    Option.ite_none_left_eq_some, Option.ite_none_right_eq_some] at hk
  case add => rw [intArith, Word.add?_eq, hk]
  case sub => rw [intArith, Word.sub?_eq, hk]
  case mul => rw [intArith, Word.mul?_eq, hk]
  case intDiv =>
    obtain ⟨hr, rfl⟩ := hk
    rw [intArith, if_neg (mt (congrArg Int64.toInt) hr), Word.floorDiv?_eq l r hr]
  case mod =>
    obtain ⟨hr, rfl⟩ := hk
    rw [intArith, if_neg (mt (congrArg Int64.toInt) hr), Word.ofInt?_of_eq (Word.floorMod_eq l r hr)]
    rfl
  case pow =>
    obtain ⟨hr, rfl⟩ := hk
    have hzero : 0 ≤ r := Int64.le_iff_toInt_le.mpr (Int64.toInt_zero.symm ▸ hr)
    rw [intArith, if_pos hzero, Word.power?_eq _ _ _ fun h => absurd h (by decide),
      Int64.toInt_one, Int.one_mul]

variable {l r : Value} {m n : Int}

theorem Value.eq_of_integral? {v : Value} (hv : v.integral? = some m) :
    v = .int m ∨ ∃ b, v = .bool b := by
  cases v with
  | int k => exact .inl (congrArg Value.int (Option.some.inj hv))
  | bool b => exact .inr ⟨b, rfl⟩
  | _ => cases hv

/-- Between integers and booleans the arithmetic operators work on words. -/
theorem arithmetic_integral (hl : l.integral? = some m) (hr : r.integral? = some n) (op : BinaryOp)
    (h : Heap) : (arithmetic op l r).run h = (intArith op (.ofInt m) (.ofInt n), h) := by
  have hlift : ∀ x : Except Trouble Value, (liftM x : HeapOp Value).run h = (x, h) := fun x => by
    cases x <;> rfl
  rcases Value.eq_of_integral? hl with rfl | ⟨b, rfl⟩ <;>
    rcases Value.eq_of_integral? hr with rfl | ⟨c, rfl⟩ <;> cases hl <;> cases hr <;>
    cases op <;> exact hlift _

/-- An operator with a number for the operands gives it if it is a word, and fails if
it is none. -/
theorem binaryOp_whole {op : BinaryOp} {k : Int} (hl : l.integral? = some m)
    (hr : r.integral? = some n) (hm : Value.inRange m = true) (hn : Value.inRange n = true)
    (hk : op.whole? m n = some k) (h : Heap) :
    (binaryOp op l r).run h = (wordResult op.symbol (Word.ofInt? k), h) := by
  have harith : binaryOp op l r = arithmetic op l r := by
    cases op <;> first | rfl | cases hk
  rw [harith, arithmetic_integral hl hr, intArith_eq]
  rw [Word.toInt_ofInt hm, Word.toInt_ofInt hn, hk]

theorem wordResult_of_inRange {symbol : String} {k : Int} (hk : Value.inRange k = true) :
    wordResult symbol (Word.ofInt? k) = .ok (.int k) := by
  rw [Word.ofInt?, if_pos hk, wordResult, Word.toInt_ofInt hk]

theorem wordResult_of_out {symbol : String} {k : Int} (hk : Value.inRange k = false) :
    wordResult symbol (Word.ofInt? k) = .error (.value s!"integer overflow in '{symbol}'") := by
  rw [Word.ofInt?, if_neg (by rw [hk]; exact Bool.false_ne_true), wordResult]

/-- The sign before an integer or a boolean. -/
theorem unaryOp_minus_integral (hl : l.integral? = some m) (hm : Value.inRange m = true)
    (h : Heap) : unaryOp h .minus l = wordResult "-" (Word.ofInt? (-m)) := by
  have hneg : unaryOp h .minus l = wordResult "-" (Word.neg? (.ofInt m)) := by
    rcases Value.eq_of_integral? hl with rfl | ⟨b, rfl⟩ <;> cases hl <;> rfl
  rw [hneg, Word.neg?_eq, Word.toInt_ofInt hm]

/-! ## The laws -/

/-- The outcome is the number if it is a word, and fails for want of room exactly if it
is none. -/
def Exact (outcome : Except Trouble Value) (k : Int) : Prop :=
  (Value.inRange k = true → outcome = .ok (.int k)) ∧
    ((∃ t, outcome = .error t ∧ t.code.text = "E3012") ↔ Value.inRange k = false)

theorem exact_wordResult (symbol : String) (k : Int) :
    Exact (wordResult symbol (Word.ofInt? k)) k := by
  cases hk : Value.inRange k with
  | true =>
      rw [wordResult_of_inRange hk]
      refine ⟨fun _ => rfl, ⟨?_, fun h => ?_⟩⟩
      · rintro ⟨t, ht, -⟩
        cases ht
      · cases hk.symm.trans h
  | false =>
      rw [wordResult_of_out hk]
      exact ⟨fun h => absurd (hk.symm.trans h) Bool.false_ne_true, fun _ => hk, fun _ => ⟨_, rfl, rfl⟩⟩

/-- Division by zero is the only one that fails as such. -/
theorem binaryOp_zeroDivision (hl : l.integral? = some m) (hr : r.integral? = some n)
    (hm : Value.inRange m = true) (hn : Value.inRange n = true) {op : BinaryOp}
    (hop : op = .intDiv ∨ op = .mod) (h : Heap) :
    (∃ t, ((binaryOp op l r).run h).1 = .error t ∧ t.code.text = "E3006") ↔ n = 0 := by
  by_cases hzero : n = 0
  · refine iff_of_true ⟨zeroDivision "integer division or modulo by zero", ?_, rfl⟩ hzero
    subst hzero
    rcases hop with rfl | rfl <;> exact congrArg Prod.fst (arithmetic_integral hl hr _ h)
  · refine iff_of_false ?_ hzero
    rintro ⟨t, ht, hcode⟩
    have hnumber : ∃ k, op.whole? m n = some k := by
      rcases hop with rfl | rfl <;> exact ⟨_, if_neg hzero⟩
    obtain ⟨k, hk⟩ := hnumber
    rw [binaryOp_whole hl hr hm hn hk] at ht
    cases hk : Value.inRange k with
    | true =>
        rw [wordResult_of_inRange hk] at ht
        cases ht
    | false =>
        rw [wordResult_of_out hk] at ht
        cases ht
        exact absurd hcode (show Code.value.text ≠ "E3006" by decide)

/-- Quotient and remainder make up the dividend, and the remainder is closer to zero
than the divisor and on the same side. -/
theorem fdiv_fmod_law (m : Int) (hn : n ≠ 0) :
    m = m.fdiv n * n + m.fmod n ∧ (m.fmod n = 0 ∨ (m.fmod n < 0 ↔ n < 0)) ∧
      (m.fmod n).natAbs < n.natAbs := by
  refine ⟨?_, ?_⟩
  · rw [Int.mul_comm, Int.mul_fdiv_add_fmod]
  · rcases lt_or_gt_of_ne hn with hneg | hpos
    · have := (Int.fdiv_fmod_unique' (a := m) hneg).mp ⟨rfl, rfl⟩
      omega
    · have := (Int.fdiv_fmod_unique (a := m) hpos).mp ⟨rfl, rfl⟩
      omega

/-- Arithmetic between integers and booleans is exact or fails: no number ever wraps
around. -/
theorem arithmetic_exact (h : Heap) (hl : l.integral? = some m) (hr : r.integral? = some n)
    (hm : Value.inRange m = true) (hn : Value.inRange n = true) :
    (∀ op k, op.whole? m n = some k →
      Exact ((binaryOp op l r).run h).1 k ∧ ((binaryOp op l r).run h).2 = h) ∧
    (∀ op, op = .intDiv ∨ op = .mod →
      ((∃ t, ((binaryOp op l r).run h).1 = .error t ∧ t.code.text = "E3006") ↔ n = 0)) ∧
    (n ≠ 0 → m = m.fdiv n * n + m.fmod n ∧ (m.fmod n = 0 ∨ (m.fmod n < 0 ↔ n < 0)) ∧
      (m.fmod n).natAbs < n.natAbs) ∧
    Exact (unaryOp h .minus l) (-m) := by
  refine ⟨fun op k hk => ?_, fun op hop => binaryOp_zeroDivision hl hr hm hn hop h,
    fun hn => fdiv_fmod_law m hn, ?_⟩
  · rw [binaryOp_whole hl hr hm hn hk]
    exact ⟨exact_wordResult _ _, rfl⟩
  · rw [unaryOp_minus_integral hl hm]
    exact exact_wordResult _ _

/-- The least word is a power, and one step further there is no room. -/
theorem power_at_the_edge :
    ((binaryOp .pow (.int (-2)) (.int 63)).run default).1 = .ok (.int Value.minInt) ∧
    (∃ t, ((binaryOp .pow (.int 2) (.int 63)).run default).1 = .error t ∧
      t.code.text = "E3012") := by
  have least := arithmetic_exact default (l := .int (-2)) (r := .int 63) rfl rfl (by decide)
    (by decide)
  have past := arithmetic_exact default (l := .int 2) (r := .int 63) rfl rfl (by decide) (by decide)
  exact ⟨(least.1 .pow _ rfl).1.1 (by decide), (past.1 .pow _ rfl).1.2.mpr (by decide)⟩

end Pseudocode
