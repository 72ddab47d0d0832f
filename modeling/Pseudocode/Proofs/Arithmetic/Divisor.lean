import Pseudocode.Library.Math
import Pseudocode.Proofs.Arithmetic.Exact
import Pseudocode.Proofs.Execution.Start
/-
# `Proofs.Arithmetic.Divisor` — the greatest common divisor within a word

Euclid's algorithm keeps the greatest common divisor of the two words in every round, whatever
their signs (`natAbs_euclid`), and ends with it up to its own sign.  The sign is taken off within
the word.  One divisor has no room there, that of words which are all zero or least: the least
word stays as it is, and is what comes out (`toInt_gcd`).
-/
namespace Pseudocode

namespace Word

/-- A round leaves the greatest common divisor as it is, and the last one ends with it. -/
theorem natAbs_euclid (a b : Int64) : (euclid a b).toInt.natAbs = a.toInt.gcd b.toInt := by
  induction a, b using euclid.induct with
  | case1 a => rw [euclid, if_pos rfl, Int64.toInt_zero, Int.gcd_zero_right]
  | case2 a b some ih =>
    rw [euclid, if_neg some, ih, Int.gcd_def, Int64.toInt_mod, Int.natAbs_tmod, Int.gcd_def,
      Nat.gcd_comm b.toInt.natAbs, ← Nat.gcd_rec, Nat.gcd_comm]

/-- The greatest common divisor, if it is a word, and the least word otherwise. -/
theorem toInt_gcd (a b : Int64) : (gcd a b).toInt =
    if Value.inRange (a.toInt.gcd b.toInt) then (a.toInt.gcd b.toInt : Int) else Value.minInt := by
  have lower := le_toInt (euclid a b)
  have upper := toInt_le (euclid a b)
  have same := natAbs_euclid a b
  have negated := bmod_cases (-(euclid a b).toInt) (by omega) (by omega)
  rw [← Int64.toInt_neg] at negated
  have least : Value.minInt = -9223372036854775808 := rfl
  simp only [gcd, Int64.lt_iff_toInt_lt, Int64.toInt_zero, inRange_iff]
  split <;> split <;> omega

end Word

namespace Library.Math

variable {x y : Value} {a b : Int}

theorem gcd_eq (hx : x.integral? = some a) (hy : y.integral? = some b) (env : Env) (w : World) :
    gcd [x, y] env w = .ok (.int (Word.gcd (.ofInt a) (.ofInt b)).toInt) w := by
  rcases Value.eq_of_integral? hx with rfl | ⟨c, rfl⟩ <;>
    rcases Value.eq_of_integral? hy with rfl | ⟨d, rfl⟩ <;> cases hx <;> cases hy <;> rfl

/-- A divisor that leaves the word divides no words but zero and the least one. -/
theorem zero_or_least {d : Nat} (out : Value.maxInt < d) (word : Value.inRange a = true)
    (divides : d ∣ a.natAbs) : a = 0 ∨ a = Value.minInt := by
  obtain ⟨lower, upper⟩ := Word.inRange_iff.mp word
  have greatest : Value.maxInt = 9223372036854775807 := rfl
  have least : Value.minInt = -9223372036854775808 := rfl
  by_cases none : a = 0
  · exact .inl none
  · have le := Nat.le_of_dvd (Int.natAbs_pos.mpr none) divides
    exact .inr (by omega)

theorem maxInt_lt_gcd (ha : Value.inRange a = true) (hb : Value.inRange b = true) :
    Value.maxInt < (a.gcd b : Int) ↔
      (a = Value.minInt ∧ (b = Value.minInt ∨ b = 0)) ∨ (a = 0 ∧ b = Value.minInt) := by
  constructor
  · intro out
    rcases zero_or_least out ha (Nat.gcd_dvd_left ..) with rfl | rfl <;>
      rcases zero_or_least out hb (Nat.gcd_dvd_right ..) with rfl | rfl
    · exact absurd out (by decide)
    · exact .inr ⟨rfl, rfl⟩
    · exact .inl ⟨rfl, .inr rfl⟩
    · exact .inl ⟨rfl, .inl rfl⟩
  · rintro (⟨rfl, rfl | rfl⟩ | ⟨rfl, rfl⟩) <;> decide

/-- The greatest common divisor of two integers or booleans is returned if it is a word.  It is
none if one of them is the least integer and the other one the same or zero, and in no other case;
then the least integer is returned. -/
theorem gcd_greatest (hx : x.integral? = some a) (hy : y.integral? = some b)
    (ha : Value.inRange a = true) (hb : Value.inRange b = true) (env : Env) (w : World) :
    ((a.gcd b : Int) ≤ Value.maxInt → gcd [x, y] env w = .ok (.int (a.gcd b)) w) ∧
    (Value.maxInt < (a.gcd b : Int) → gcd [x, y] env w = .ok (.int Value.minInt) w) ∧
    (Value.maxInt < (a.gcd b : Int) ↔
      (a = Value.minInt ∧ (b = Value.minInt ∨ b = 0)) ∨ (a = 0 ∧ b = Value.minInt)) := by
  have outcome := gcd_eq hx hy env w
  rw [Word.toInt_gcd, Word.toInt_ofInt ha, Word.toInt_ofInt hb] at outcome
  have least : Value.minInt = -9223372036854775808 := rfl
  have greatest : Value.maxInt = 9223372036854775807 := rfl
  refine ⟨fun word => ?_, fun out => ?_, maxInt_lt_gcd ha hb⟩
  · rwa [if_pos (Word.inRange_iff.mpr (by omega))] at outcome
  · rwa [if_neg fun word => by have := (Word.inRange_iff.mp word).2; omega] at outcome

/-- The signs of the arguments do not matter. -/
theorem gcd_greatest_signs :
    gcd [.int (-12), .int 18] ⟨(default : Session.Options).setup, Session.main⟩
      (Session.rootedWorld default) = .ok (.int 6) (Session.rootedWorld default) :=
  (gcd_greatest (a := -12) (b := 18) rfl rfl (by decide) (by decide) _ _).1 (by decide)

/-- The greatest common divisor of the least integer and zero is no word, and the least integer is
returned for it. -/
theorem gcd_least_negative :
    Value.maxInt < (Value.minInt.gcd 0 : Int) ∧
      gcd [.int Value.minInt, .int 0] ⟨(default : Session.Options).setup, Session.main⟩
        (Session.rootedWorld default) = .ok (.int Value.minInt) (Session.rootedWorld default) ∧
      Value.minInt < 0 := by
  refine ⟨by decide, (gcd_eq rfl rfl _ _).trans ?_, by decide⟩
  have word : Value.inRange Value.minInt = true := by decide
  rw [Word.toInt_gcd, Word.toInt_ofInt word]
  rfl

end Library.Math

end Pseudocode
