import Mathlib.Algebra.Order.Ring.Int
import Mathlib.Tactic.Linarith
import Mathlib.Tactic.Ring
import Pseudocode.Value.Basic
import Pseudocode.Value.Word
/-
# `Proofs.Arithmetic.Word` — operations on words are exact or have no answer

`Word.ofInt? n` is the word that is the number `n`, if there is one.  Each operation
of `Value.Word` is shown to answer `ofInt?` of the number it stands for, whatever its
own test for leaving the word looks at.
-/
namespace Pseudocode.Word

/-- The word that is the number, if there is one. -/
def ofInt? (n : Int) : Option Int64 := if Value.inRange n then some (.ofInt n) else none

theorem inRange_iff {n : Int} :
    Value.inRange n = true ↔ -9223372036854775808 ≤ n ∧ n ≤ 9223372036854775807 := by
  simp only [Value.inRange, Bool.and_eq_true, decide_eq_true_eq]
  exact Iff.rfl

theorem le_toInt (w : Int64) : -9223372036854775808 ≤ w.toInt := w.le_toInt

theorem toInt_le (w : Int64) : w.toInt ≤ 9223372036854775807 := w.toInt_le

theorem inRange_toInt (w : Int64) : Value.inRange w.toInt = true :=
  inRange_iff.mpr ⟨le_toInt w, toInt_le w⟩

theorem toInt_ofInt {n : Int} (hn : Value.inRange n = true) : (Int64.ofInt n).toInt = n := by
  obtain ⟨hl, hr⟩ := inRange_iff.mp hn
  exact Int64.toInt_ofInt_of_le hl (by omega)

theorem ofInt?_of_eq {n : Int} {w : Int64} (h : w.toInt = n) : ofInt? n = some w := by
  rw [ofInt?, if_pos (h ▸ inRange_toInt w), ← h, Int64.ofInt_toInt]

theorem ofInt?_of_out {n : Int} (h : ¬(-9223372036854775808 ≤ n ∧ n ≤ 9223372036854775807)) :
    ofInt? n = none :=
  if_neg fun hn => h (inRange_iff.mp hn)

theorem toInt_of_ofInt? {n : Int} {w : Int64} (h : ofInt? n = some w) : w.toInt = n := by
  rw [ofInt?] at h
  split at h
  · cases h
    exact toInt_ofInt ‹_›
  · cases h

theorem out_of_ofInt? {n : Int} (h : ofInt? n = none) :
    ¬(-9223372036854775808 ≤ n ∧ n ≤ 9223372036854775807) := by
  intro hn
  rw [ofInt?, if_pos (inRange_iff.mpr hn)] at h
  cases h

/-- A wrapped number is off by a whole number of turns. -/
theorem bmod_cases (n : Int) (hl : -18446744073709551616 ≤ n) (hr : n < 18446744073709551616) :
    (n.bmod (2 ^ 64) = n ∧ -9223372036854775808 ≤ n ∧ n ≤ 9223372036854775807) ∨
      (n.bmod (2 ^ 64) = n - 18446744073709551616 ∧ 9223372036854775807 < n) ∨
      (n.bmod (2 ^ 64) = n + 18446744073709551616 ∧ n < -9223372036854775808) := by
  simp only [Int.bmod_def]
  omega

/-! ## Sums and differences -/

theorem toInt_add {l r : Int64} (h : Value.inRange (l.toInt + r.toInt) = true) :
    (l + r).toInt = l.toInt + r.toInt := by
  obtain ⟨hl, hr⟩ := inRange_iff.mp h
  rw [Int64.toInt_add]
  have := bmod_cases (l.toInt + r.toInt) (by omega) (by omega)
  omega

theorem add?_eq (l r : Int64) : add? l r = ofInt? (l.toInt + r.toInt) := by
  have hl := le_toInt l
  have hl' := toInt_le l
  have hr := le_toInt r
  have hr' := toInt_le r
  have hsum := bmod_cases (l.toInt + r.toInt) (by omega) (by omega)
  rw [← Int64.toInt_add] at hsum
  simp only [add?, Int64.le_iff_toInt_le, Int64.toInt_zero]
  split
  · exact (ofInt?_of_out (by omega)).symm
  · exact (ofInt?_of_eq (by omega)).symm

theorem sub?_eq (l r : Int64) : sub? l r = ofInt? (l.toInt - r.toInt) := by
  have hl := le_toInt l
  have hl' := toInt_le l
  have hr := le_toInt r
  have hr' := toInt_le r
  have hdifference := bmod_cases (l.toInt - r.toInt) (by omega) (by omega)
  rw [← Int64.toInt_sub] at hdifference
  simp only [sub?, Int64.le_iff_toInt_le, Int64.toInt_zero]
  split
  · exact (ofInt?_of_out (by omega)).symm
  · exact (ofInt?_of_eq (by omega)).symm

theorem neg?_eq (a : Int64) : neg? a = ofInt? (-a.toInt) := by
  have hl := le_toInt a
  have hr := toInt_le a
  have hneg := bmod_cases (-a.toInt) (by omega) (by omega)
  rw [← Int64.toInt_neg] at hneg
  rw [neg?]
  split
  next h => exact (ofInt?_of_out (by rw [h, Int64.toInt_minValue]; decide)).symm
  next h =>
      rw [← Int64.toInt_inj, Int64.toInt_minValue] at h
      exact (ofInt?_of_eq (by omega)).symm

/-! ## Products -/

theorem toInt_toInt64 (x : UInt64) : x.toInt64.toInt =
    if x.toNat < 9223372036854775808 then (x.toNat : Int)
    else (x.toNat : Int) - 18446744073709551616 := by
  change x.toBitVec.toInt = _
  rw [BitVec.toInt_eq_toNat_cond]
  simp only [UInt64.toNat_toBitVec]
  split <;> split <;> omega

theorem toNat_toUInt64 (a : Int64) : (a.toUInt64.toNat : Int) =
    if 0 ≤ a.toInt then a.toInt else a.toInt + 18446744073709551616 := by
  have h := toInt_toInt64 a.toUInt64
  have hlt := a.toUInt64.toNat_lt
  rw [Int64.toInt64_toUInt64] at h
  split at h <;> split <;> omega

theorem toNat_magnitude (a : Int64) : (magnitude a).toNat = a.toInt.natAbs := by
  have hl := le_toInt a
  have hr := toInt_le a
  have hneg := bmod_cases (-a.toInt) (by omega) (by omega)
  rw [← Int64.toInt_neg] at hneg
  simp only [magnitude, Int64.lt_iff_toInt_lt, Int64.toInt_zero]
  split
  · have h := toNat_toUInt64 (-a)
    split at h <;> omega
  · have h := toNat_toUInt64 a
    split at h <;> omega

/-- The two halves make up the product. -/
theorem mulWide_eq (x y : UInt64) :
    18446744073709551616 * (mulWide x y).1.toNat + (mulWide x y).2.toNat = x.toNat * y.toNat := by
  have hx := x.toNat_lt
  have hy := y.toNat_lt
  have hprod : x.toNat * y.toNat < 18446744073709551616 * 18446744073709551616 :=
    Nat.mul_lt_mul'' hx hy
  have hhigh : (mulWide x y).1.toNat = x.toNat * y.toNat / 18446744073709551616 := by
    rw [mulWide, UInt64.toNat_ofNat']
    exact Nat.mod_eq_of_lt (Nat.div_lt_of_lt_mul hprod)
  have hlow : (mulWide x y).2.toNat = x.toNat * y.toNat % 18446744073709551616 :=
    UInt64.toNat_mul x y
  rw [hhigh, hlow]
  exact Nat.div_add_mod _ _

theorem toInt_neg_toInt64 {x : UInt64} (hx : 0 < x.toNat) (hx' : x.toNat ≤ 9223372036854775808) :
    (-x).toInt64.toInt = -(x.toNat : Int) := by
  have hneg : (-x).toNat = 18446744073709551616 - x.toNat := by
    rw [UInt64.toNat_neg]
    exact Nat.mod_eq_of_lt (by change 18446744073709551616 - _ < 18446744073709551616; omega)
  rw [toInt_toInt64, hneg]
  split <;> omega

theorem signs_differ_iff {m n : Int} (hm : m ≠ 0) (hn : n ≠ 0) :
    (decide (m < 0) != decide (n < 0)) = decide (m * n < 0) := by
  rcases lt_or_gt_of_ne hm with hm' | hm' <;> rcases lt_or_gt_of_ne hn with hn' | hn'
  · simp [hm', hn', (mul_pos_of_neg_of_neg hm' hn').not_gt]
  · simp [hm', hn'.not_gt, mul_neg_of_neg_of_pos hm' hn']
  · simp [hm'.not_gt, hn', mul_neg_of_pos_of_neg hm' hn']
  · simp [hm'.not_gt, hn'.not_gt, (mul_pos hm' hn').not_gt]

theorem mul?_eq (a b : Int64) : mul? a b = ofInt? (a.toInt * b.toInt) := by
  rw [mul?]
  split
  next h =>
      refine (ofInt?_of_eq ?_).symm
      rcases h with rfl | rfl
      · rw [Int64.toInt_zero, Int.zero_mul]
      · rw [Int64.toInt_zero, Int.mul_zero]
  next h =>
      rw [not_or, ← Int64.toInt_inj, ← Int64.toInt_inj, Int64.toInt_zero] at h
      have hwide := mulWide_eq (magnitude a) (magnitude b)
      rw [toNat_magnitude, toNat_magnitude, ← Int.natAbs_mul] at hwide
      have hsign := signs_differ_iff h.1 h.2
      have hne : a.toInt * b.toInt ≠ 0 := mul_ne_zero h.1 h.2
      -- From here on only the product matters: its sign and the halves of its magnitude.
      simp only [Int64.lt_iff_toInt_lt, Int64.toInt_zero, hsign]
      generalize a.toInt * b.toInt = p at hwide hne ⊢
      generalize mulWide (magnitude a) (magnitude b) = halves at hwide ⊢
      obtain ⟨high, low⟩ := halves
      simp only [UInt64.lt_iff_toNat_lt, ← UInt64.toNat_inj, decide_eq_false_iff_not,
        decide_eq_true_eq, UInt64.toNat_ofNat, ne_eq] at hwide ⊢
      have hlow := low.toNat_lt
      split
      · exact (ofInt?_of_out (by omega)).symm
      · split
        · exact (ofInt?_of_eq (by rw [toInt_neg_toInt64] <;> omega)).symm
        · exact (ofInt?_of_eq (by rw [toInt_toInt64, if_pos] <;> omega)).symm

/-! ## Quotients and remainders -/

/-- A dividend is the divisor times the quotient towards zero, and a remainder that
has the dividend's sign. -/
theorem tdiv_tmod (l : Int) {r : Int} (hr : r ≠ 0) :
    r * l.tdiv r + l.tmod r = l ∧ (l.tmod r).natAbs < r.natAbs ∧
      (0 ≤ l → 0 ≤ l.tmod r) ∧ (l ≤ 0 → l.tmod r ≤ 0) := by
  refine ⟨Int.mul_tdiv_add_tmod l r, ?_, fun h => Int.tmod_nonneg r h, ?_⟩
  · rw [Int.natAbs_tmod]
    exact Nat.mod_lt _ (Int.natAbs_pos.mpr hr)
  · intro h
    have := Int.tmod_nonneg r (show 0 ≤ -l by omega)
    rw [Int.neg_tmod] at this
    omega

/-- Rounding down differs from rounding towards zero by one divisor, and only where
the remainder and the divisor have two signs. -/
theorem fdiv_fmod_eq (l : Int) {r : Int} (hr : r ≠ 0) :
    if l.tmod r ≠ 0 ∧ ¬(l.tmod r < 0 ↔ r < 0) then
      l.fdiv r = l.tdiv r - 1 ∧ l.fmod r = l.tmod r + r
    else l.fdiv r = l.tdiv r ∧ l.fmod r = l.tmod r := by
  obtain ⟨hmul, hsmall, -, -⟩ := tdiv_tmod l hr
  rcases lt_or_gt_of_ne hr with hneg | hpos
  · split
    · exact (Int.fdiv_fmod_unique' hneg).mpr ⟨by linarith [Int.mul_sub r (l.tdiv r) 1], by omega, by omega⟩
    · exact (Int.fdiv_fmod_unique' hneg).mpr ⟨by linarith, by omega, by omega⟩
  · split
    · exact (Int.fdiv_fmod_unique hpos).mpr ⟨by linarith [Int.mul_sub r (l.tdiv r) 1], by omega, by omega⟩
    · exact (Int.fdiv_fmod_unique hpos).mpr ⟨by linarith, by omega, by omega⟩

theorem floorMod_eq (l r : Int64) (hr : r.toInt ≠ 0) :
    (floorMod l r).toInt = l.toInt.fmod r.toInt := by
  have h := fdiv_fmod_eq l.toInt hr
  obtain ⟨-, hsmall, -, -⟩ := tdiv_tmod l.toInt hr
  have hl := le_toInt r
  have hr := toInt_le r
  simp only [floorMod, Int64.lt_iff_toInt_lt, ne_eq, ← Int64.toInt_inj, Int64.toInt_mod, Int64.toInt_zero] at h ⊢
  split at h
  next hc =>
    rw [if_pos hc, h.2, Int64.toInt_add, Int64.toInt_mod]
    have := bmod_cases (l.toInt.tmod r.toInt + r.toInt) (by omega) (by omega)
    omega
  next hc => rw [if_neg hc, h.2, Int64.toInt_mod]

/-- A quotient that has to be rounded is at most half as far from zero as the
dividend. -/
theorem tdiv_half {l r : Int} (hr : r ≠ 0) (hrest : l.tmod r ≠ 0) :
    2 * (l.tdiv r).natAbs ≤ l.natAbs := by
  have htwo : 2 ≤ r.natAbs := by
    obtain ⟨-, hsmall, -, -⟩ := tdiv_tmod l hr
    omega
  rw [Int.natAbs_tdiv]
  calc 2 * (l.natAbs / r.natAbs) ≤ r.natAbs * (l.natAbs / r.natAbs) := Nat.mul_le_mul_right _ htwo
    _ ≤ l.natAbs := Nat.mul_div_le _ _

/-- Only the least word divided by -1 has a quotient that is no word. -/
theorem toInt_tdiv {l r : Int64} (h : ¬(l = Int64.minValue ∧ r = -1)) :
    (l / r).toInt = l.toInt.tdiv r.toInt := by
  rcases not_and_or.mp h with hl | hr
  · exact Int64.toInt_div_of_ne_left l r hl
  · exact Int64.toInt_div_of_ne_right l r hr

theorem floorDiv?_eq (l r : Int64) (hr : r.toInt ≠ 0) :
    floorDiv? l r = ofInt? (l.toInt.fdiv r.toInt) := by
  rw [floorDiv?]
  split
  next hc =>
      rw [hc.1, hc.2]
      exact (ofInt?_of_out (by decide)).symm
  next hc =>
      have h := fdiv_fmod_eq l.toInt hr
      have hquotient := toInt_tdiv hc
      have hl := le_toInt l
      have hl' := toInt_le l
      have hhalf := tdiv_half (l := l.toInt) hr
      obtain ⟨-, -, hpos, hneg⟩ := tdiv_tmod l.toInt hr
      simp only [Int64.lt_iff_toInt_lt, ne_eq, ← Int64.toInt_inj, Int64.toInt_mod,
        Int64.toInt_zero] at h ⊢
      split
      next hround =>
          rw [if_pos (by omega)] at h
          have hless := bmod_cases (l.toInt.tdiv r.toInt - 1) (by omega) (by omega)
          rw [← hquotient, ← Int64.toInt_one, ← Int64.toInt_sub, hquotient, Int64.toInt_one] at hless
          exact (ofInt?_of_eq (by omega)).symm
      next hround =>
          rw [if_neg (by omega)] at h
          exact (ofInt?_of_eq (hquotient.trans h.1.symm)).symm

/-! ## Powers -/

/-- A multiple of what has left the word has left it as well. -/
theorem out_mul {n p : Int} (hp : 0 < p)
    (hn : ¬(-9223372036854775808 ≤ n ∧ n ≤ 9223372036854775807)) :
    ¬(-9223372036854775808 ≤ n * p ∧ n * p ≤ 9223372036854775807) := by
  by_cases h : 0 < n
  · have : n ≤ n * p := le_mul_of_one_le_right h.le (by omega)
    omega
  · have : n * p ≤ n := by nlinarith
    omega

/-- A square beyond the word is beyond it on both sides: it is not the magnitude of
the least word. -/
theorem square_out {b : Int}
    (hb : ¬(-9223372036854775808 ≤ b * b ∧ b * b ≤ 9223372036854775807)) :
    9223372036854775808 < b * b := by
  have hpos := mul_self_nonneg b
  by_contra hle
  have heq : b.natAbs * b.natAbs = 9223372036854775808 := by
    have := Int.natAbs_mul_self' b
    omega
  rcases Nat.lt_or_ge 3037000499 b.natAbs with h | h
  · have := Nat.mul_le_mul h h
    omega
  · have := Nat.mul_le_mul h h
    omega

theorem out_mul_square {n b : Int} (hn : n ≠ 0)
    (hb : ¬(-9223372036854775808 ≤ b * b ∧ b * b ≤ 9223372036854775807)) (k : Nat) :
    ¬(-9223372036854775808 ≤ n * (b * b) ^ (k + 1) ∧
      n * (b * b) ^ (k + 1) ≤ 9223372036854775807) := by
  have hsquare := square_out hb
  rw [Int.pow_succ', ← Int.mul_assoc]
  refine out_mul (Int.pow_pos (by omega)) ?_
  rcases lt_or_gt_of_ne hn with h | h
  · have : n * (b * b) ≤ -(b * b) := by nlinarith
    omega
  · have : b * b ≤ n * (b * b) := by nlinarith
    omega

/-- The loop keeps `result * base ^ exponent`, and a factor that has left the word
cannot come back: the factors still to come are positive. -/
theorem power?_eq (exponent : Nat) (result base : Int64)
    (hresult : result.toInt = 0 → base.toInt = 0) :
    power? result base exponent = ofInt? (result.toInt * base.toInt ^ exponent) := by
  induction exponent using Nat.strongRecOn generalizing result base with
  | ind exponent ih =>
  have hfirst : (if exponent % 2 = 1 then mul? result base else some result) =
      ofInt? (result.toInt * base.toInt ^ (exponent % 2)) := by
    split
    next h => rw [mul?_eq, h, Int.pow_one]
    next h =>
      rw [show exponent % 2 = 0 by omega, Int.pow_zero, Int.mul_one]
      exact (ofInt?_of_eq rfl).symm
  have hsplit : result.toInt * base.toInt ^ exponent =
      result.toInt * base.toInt ^ (exponent % 2) * (base.toInt * base.toInt) ^ (exponent / 2) := by
    rw [← pow_two, ← pow_mul, mul_assoc, ← pow_add, Nat.mod_add_div]
  rw [power?, hfirst, hsplit]
  have hkept : result.toInt * base.toInt ^ (exponent % 2) = 0 → base.toInt = 0 := by
    intro h
    rcases mul_eq_zero.mp h with h | h
    · exact hresult h
    · exact eq_zero_of_pow_eq_zero h
  have hnone : ofInt? (result.toInt * base.toInt ^ (exponent % 2)) = none → base.toInt ≠ 0 := by
    intro h hzero
    refine out_of_ofInt? h ?_
    rcases Nat.mod_two_eq_zero_or_one exponent with he | he
    · rw [he, pow_zero, mul_one]
      exact ⟨le_toInt result, toInt_le result⟩
    · rw [he, hzero, pow_one, mul_zero]
      decide
  generalize result.toInt * base.toInt ^ (exponent % 2) = y at hkept hnone ⊢
  cases hfit : ofInt? y with
  | none =>
    have hsquare : 0 < base.toInt * base.toInt := mul_self_pos.mpr (hnone hfit)
    exact (ofInt?_of_out (out_mul (pow_pos hsquare _) (out_of_ofInt? hfit))).symm
  | some result₁ =>
    obtain rfl := toInt_of_ofInt? hfit
    rw [Option.bind_some]
    split
    next hlast => rw [hlast, pow_zero, mul_one, hfit]
    next hmore =>
      rw [mul?_eq]
      cases hsquare : ofInt? (base.toInt * base.toInt) with
      | none =>
        have hout := out_of_ofInt? hsquare
        have hne : result₁.toInt ≠ 0 := fun h => hout (by rw [hkept h]; decide)
        obtain ⟨k, hk⟩ := Nat.exists_eq_succ_of_ne_zero hmore
        rw [hk]
        exact (ofInt?_of_out (out_mul_square hne hout k)).symm
      | some square =>
        rw [Option.bind_some, ← toInt_of_ofInt? hsquare]
        refine ih (exponent / 2) (by omega) result₁ square fun h => ?_
        rw [toInt_of_ofInt? hsquare, hkept h, mul_zero]

end Pseudocode.Word
