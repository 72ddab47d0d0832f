import Pseudocode.Proofs.Arithmetic.Word
import Pseudocode.Proofs.Execution.Safe
import Pseudocode.Run.Stmt
/-
# `Proofs.Execution.Range` — the counter of a `FOR` loop

The counter is a word, and a test after each round keeps it from wrapping around.
Between three words the loop is the one over the values that unbounded numbers would
give: `rangeValues`, as many as `rangeCount` says.
-/
namespace Pseudocode.Run

/-- How many values a range has. -/
def rangeCount (first last step : Int) : Nat :=
  if 0 < step then (if first ≤ last then ((last - first) / step).toNat + 1 else 0)
  else (if last ≤ first then ((first - last) / (-step)).toNat + 1 else 0)

/-- The values a `FOR` loop over a range gives its name. -/
def rangeValues (step : Int) : (count : Nat) → Int → List Value
  | 0, _ => []
  | k + 1, v => .int v :: rangeValues step k (v + step)

/-- A range that has reached its end is empty. -/
theorem rangeCount_eq_zero {first last step : Int}
    (h : ¬((0 < step ∧ first ≤ last) ∨ (step < 0 ∧ last ≤ first))) (hstep : step ≠ 0) :
    rangeCount first last step = 0 := by
  rw [rangeCount]
  split
  · exact if_neg (by omega)
  · exact if_neg (by omega)

/-- The steps that fit into a distance: one, and those that fit into the rest. -/
theorem steps_eq_succ {distance step : Int} (hstep : 0 < step) (hdistance : 0 ≤ distance) :
    (distance / step).toNat =
      if step ≤ distance then ((distance - step) / step).toNat + 1 else 0 := by
  split
  next h =>
    have hquotient : distance / step = (distance - step) / step + 1 := by
      rw [← Int.add_mul_ediv_right _ _ hstep.ne', Int.one_mul, Int.sub_add_cancel]
    have hrest : 0 ≤ (distance - step) / step := Int.ediv_nonneg (by omega) hstep.le
    omega
  next h => rw [Int.ediv_eq_zero_of_lt hdistance (by omega), Int.toNat_zero]

/-- A range that has not reached its end has one value more than what is left after a
step. -/
theorem rangeCount_eq_succ {first last step : Int}
    (h : (0 < step ∧ first ≤ last) ∨ (step < 0 ∧ last ≤ first)) :
    rangeCount first last step = rangeCount (first + step) last step + 1 := by
  rcases h with ⟨hpos, hle⟩ | ⟨hneg, hle⟩
  · rw [rangeCount, rangeCount, if_pos hpos, if_pos hpos, if_pos hle,
      steps_eq_succ hpos (by omega), Int.sub_sub]
    exact congrArg (· + 1) (if_congr (by omega) rfl rfl)
  · have hdown : ¬ 0 < step := by omega
    rw [rangeCount, rangeCount, if_neg hdown, if_neg hdown, if_pos hle,
      steps_eq_succ (by omega) (by omega), Int.sub_neg, sub_add_eq_add_sub]
    exact congrArg (· + 1) (if_congr (by omega) rfl rfl)

/-- The test after a round finds out whether the next value of the counter leaves the
word, without making that value. -/
theorem leaves_iff (step v : Int64) :
    ((0 < step ∧ Int64.maxValue - step < v) ∨ (step < 0 ∧ v < Int64.minValue - step)) ↔
      Value.inRange (v.toInt + step.toInt) = false := by
  have hv := Word.le_toInt v
  have hv' := Word.toInt_le v
  have hs := Word.le_toInt step
  have hs' := Word.toInt_le step
  have hmax : 0 < step.toInt →
      (Int64.maxValue - step).toInt = 2 ^ 63 - 1 - step.toInt := by
    intro hpos
    rw [Int64.toInt_sub, Int64.toInt_maxValue]
    have := Word.bmod_cases (2 ^ 63 - 1 - step.toInt) (by omega) (by omega)
    omega
  have hmin : step.toInt < 0 →
      (Int64.minValue - step).toInt = -2 ^ 63 - step.toInt := by
    intro hneg
    rw [Int64.toInt_sub, Int64.toInt_minValue]
    have := Word.bmod_cases (-2 ^ 63 - step.toInt) (by omega) (by omega)
    omega
  rw [← Bool.not_eq_true, Word.inRange_iff]
  simp only [Int64.lt_iff_toInt_lt, Int64.toInt_zero]
  omega

/-- The loop over a range is the loop over its values.  `n` rounds are enough if they
take the counter to the end of the word. -/
theorem rangeLoop_eq_eachLoop (r : Recursor) (span : Span) (name : String) (last step : Int64)
    (body : Block) (hstep : step.toInt ≠ 0) : ∀ (n : Nat) (v : Int64),
      (0 < step.toInt → 9223372036854775807 - v.toInt < n) →
      (step.toInt < 0 → v.toInt + 9223372036854775808 < n) →
      rangeLoop r span name last step body n v =
        eachLoop r span name body
          (rangeValues step.toInt (rangeCount v.toInt last.toInt step.toInt) v.toInt)
  | 0, v, hup, hdown => by
      have hv := Word.le_toInt v
      have hv' := Word.toInt_le v
      omega
  | n + 1, v, hup, hdown => by
      have hv := Word.le_toInt v
      have hv' := Word.toInt_le v
      have hlast := Word.le_toInt last
      have hlast' := Word.toInt_le last
      rw [rangeLoop]
      simp only [leaves_iff]
      simp only [Int64.lt_iff_toInt_lt, Int64.le_iff_toInt_le, Int64.toInt_zero]
      split
      next hgoes =>
          rw [rangeCount_eq_succ hgoes, rangeValues, eachLoop]
          refine congrArg (_ >>= ·) (funext fun _ => congrArg (_ >>= ·) (funext fun flow => ?_))
          split
          · rfl
          · split
            next hout =>
                -- The next value is no word, so it is past the last one, too.
                rw [← Bool.not_eq_true, Word.inRange_iff] at hout
                rw [rangeCount_eq_zero (by omega) hstep]
                rfl
            next hin =>
                have hsum : (v + step).toInt = v.toInt + step.toInt := by
                  rw [Bool.not_eq_false] at hin
                  exact Word.toInt_add hin
                rw [rangeLoop_eq_eachLoop r span name last step body hstep n (v + step)
                  (by omega) (by omega), hsum]
      next hends =>
          rw [rangeCount_eq_zero hends hstep]
          rfl

/-! ## The bounds -/

variable {r : Recursor} {env : Env} {w w' : World}

/-- A bound is a word. -/
theorem inRange_bound {e : Expr} {what : String} {n : Int} (h : bound r e what env w = .ok n w') :
    Value.inRange n = true := by
  rw [bound] at h
  cases hvalue : r.expr e env w with
  | error f w₁ =>
      rw [Eval.bind_error hvalue] at h
      cases h
  | ok v w₁ =>
      rw [Eval.bind_ok hvalue] at h
      cases v with
      | int m =>
          cases h
          exact Word.inRange_toInt _
      | _ => cases h

/-- A step is a word, and not zero. -/
theorem inRange_stepBound {step : Option Expr} {n : Int} (h : stepBound r step env w = .ok n w') :
    Value.inRange n = true ∧ n ≠ 0 := by
  cases step with
  | none =>
      cases h
      exact ⟨rfl, Int.one_ne_zero⟩
  | some e =>
      rw [stepBound] at h
      cases hbound : bound r e "step" env w with
      | error f w₁ =>
          rw [Eval.bind_error hbound] at h
          cases h
      | ok m w₁ =>
          rw [Eval.bind_ok hbound] at h
          by_cases hm : m = 0
          · rw [if_pos hm] at h
            cases h
          · rw [if_neg hm] at h
            cases h
            exact ⟨inRange_bound hbound, hm⟩

/-- With its bounds evaluated, the loop over a range goes over the values that unbounded
numbers give. -/
theorem rangeLoop_ofInt {a b k : Int} (ha : Value.inRange a = true) (hb : Value.inRange b = true)
    (hk : Value.inRange k = true ∧ k ≠ 0) (span : Span) (name : String) (body : Block) :
    rangeLoop r span name (.ofInt b) (.ofInt k) body rangeRounds (.ofInt a) =
      eachLoop r span name body (rangeValues k (rangeCount a b k) a) := by
  obtain ⟨hlow, hhigh⟩ := Word.inRange_iff.mp ha
  have hloop := rangeLoop_eq_eachLoop r span name (.ofInt b) (.ofInt k) body
    (by rw [Word.toInt_ofInt hk.1]; exact hk.2) rangeRounds (.ofInt a)
  rw [Word.toInt_ofInt ha, Word.toInt_ofInt hb, Word.toInt_ofInt hk.1] at hloop
  exact hloop (fun _ => by rw [rangeRounds]; omega) fun _ => by rw [rangeRounds]; omega

end Pseudocode.Run
