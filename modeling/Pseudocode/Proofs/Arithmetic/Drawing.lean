import Mathlib.Data.Int.ConditionallyCompleteOrder
import Mathlib.Data.Set.Function
import Pseudocode.Builtin.Core
import Pseudocode.Proofs.Arithmetic.Word
/-
# `Proofs.Arithmetic.Drawing` — random integers reach their whole range

A draw is a word, and below the width of the range unless the width has no room in a word
(`draws`).  Of a source nothing is known but that it keeps to this (`Source.drawn`).  Adding a
draw to the lower bound wraps around the word for half of the ranges, and so does the width; both
times it is the range that brings the sum back (`toInt_placed`), so that the draws are as many as
the integers of the range and stand for one each (`bijOn_placed`).
-/
namespace Pseudocode

namespace Random

variable {low high : Int64} {x : UInt64}

/-- The words that are drawn for a range. -/
def draws (low high : Int64) : Set UInt64 := {x | width low high ≠ 0 → x < width low high}

/-- The integer that a draw stands for. -/
def placed (low high : Int64) (x : UInt64) : Int64 :=
  if width low high = 0 then x.toInt64 else (low.toUInt64 + x).toInt64

/-- What a source gives when it is asked for a range of a width. -/
def Source.draw {G : Type} (s : Source G) (n : UInt64) (g : G) : UInt64 × G :=
  if n = 0 then s.next g else s.below n g

theorem Source.between_eq {G : Type} (s : Source G) (g : G) :
    s.between low high g = (placed low high (s.draw (width low high) g).1,
      (s.draw (width low high) g).2) := by
  simp only [between, placed, draw]
  split <;> rfl

theorem Source.drawn {G : Type} (s : Source G) (g : G) :
    (s.draw (width low high) g).1 ∈ draws low high := by
  intro some
  rw [draw, if_neg some]
  exact s.below_lt _ g (UInt64.pos_iff_ne_zero.mpr some)

/-! ## Widths and sums within the word -/

theorem width_eq_zero : width low high = 0 ↔ (width low high).toNat = 0 := UInt64.toNat_inj.symm

theorem toNat_width (le : low ≤ high) : ((width low high).toNat : Int) =
    if high.toInt - low.toInt + 1 = 18446744073709551616 then 0
    else high.toInt - low.toInt + 1 := by
  have hlow := Word.toNat_toUInt64 low
  have hhigh := Word.toNat_toUInt64 high
  have := low.toUInt64.toNat_lt
  have := high.toUInt64.toNat_lt
  have := Word.le_toInt low
  have := Word.toInt_le high
  rw [Int64.le_iff_toInt_le] at le
  rw [width, UInt64.toNat_add, UInt64.toNat_sub]
  have one : (1 : UInt64).toNat = 1 := rfl
  rw [one]
  split_ifs at hlow hhigh ⊢ <;> omega

/-- A draw is a distance from the lower bound, or the integer itself if all are in the range. -/
theorem toInt_placed (le : low ≤ high) (mem : x ∈ draws low high) :
    (placed low high x).toInt =
      if width low high = 0 then x.toInt64.toInt else low.toInt + x.toNat := by
  have hwidth := toNat_width le
  have hsum := Word.toInt_toInt64 (low.toUInt64 + x)
  have hlow := Word.toNat_toUInt64 low
  have := low.toUInt64.toNat_lt
  have := Word.le_toInt low
  have := Word.toInt_le high
  rw [UInt64.toNat_add] at hsum
  rw [placed]
  split
  · rfl
  · next some =>
    have below := UInt64.lt_iff_toNat_lt.mp (mem some)
    split_ifs at hwidth hsum hlow <;> omega

section Range

variable (le : low ≤ high)

include le

theorem mapsTo_placed :
    Set.MapsTo (fun x => (placed low high x).toInt) (draws low high)
      (Set.Icc low.toInt high.toInt) := by
  intro x mem
  have hwidth := toNat_width le
  show low.toInt ≤ (placed low high x).toInt ∧ (placed low high x).toInt ≤ high.toInt
  rw [toInt_placed le mem]
  split
  · next all =>
    -- All integers are in the range.
    have ordered := Int64.le_iff_toInt_le.mp le
    have := Word.le_toInt low
    have := Word.toInt_le high
    have := Word.le_toInt x.toInt64
    have := Word.toInt_le x.toInt64
    rw [width_eq_zero] at all
    split_ifs at hwidth <;> omega
  · next some =>
    have below := UInt64.lt_iff_toNat_lt.mp (mem some)
    split_ifs at hwidth <;> omega

theorem injOn_placed :
    Set.InjOn (fun x => (placed low high x).toInt) (draws low high) := by
  intro x hx y hy same
  simp only [toInt_placed le hx, toInt_placed le hy] at same
  apply UInt64.toNat_inj.mp
  split at same
  · rw [Word.toInt_toInt64, Word.toInt_toInt64] at same
    have := x.toNat_lt
    have := y.toNat_lt
    split_ifs at same <;> omega
  · omega

theorem surjOn_placed :
    Set.SurjOn (fun x => (placed low high x).toInt) (draws low high)
      (Set.Icc low.toInt high.toInt) := by
  rintro n ⟨hlow, hhigh⟩
  have lower := Word.le_toInt low
  have upper := Word.toInt_le high
  by_cases all : width low high = 0
  · refine ⟨(Int64.ofInt n).toUInt64, fun some => absurd all some, ?_⟩
    simp only [placed, if_pos all, Int64.toInt64_toUInt64]
    exact Word.toInt_ofInt (Word.inRange_iff.mpr ⟨by omega, by omega⟩)
  · have value : (UInt64.ofNat (n - low.toInt).toNat).toNat = (n - low.toInt).toNat :=
      UInt64.toNat_ofNat_of_lt' (by rw [UInt64.size]; omega)
    have mem : UInt64.ofNat (n - low.toInt).toNat ∈ draws low high := by
      intro some
      have hwidth := toNat_width le
      rw [UInt64.lt_iff_toNat_lt, value]
      rw [ne_eq, width_eq_zero] at some
      split_ifs at hwidth <;> omega
    refine ⟨_, mem, ?_⟩
    simp only [toInt_placed le mem, if_neg all, value]
    omega

/-- The draws stand for the integers of the range, each for one. -/
theorem bijOn_placed :
    Set.BijOn (fun x => (placed low high x).toInt) (draws low high)
      (Set.Icc low.toInt high.toInt) :=
  ⟨mapsTo_placed le, injOn_placed le, surjOn_placed le⟩

end Range

end Random

open Pseudocode.Random

variable {low high : Int}

theorem Builtins.randomInt_eq (le : low ≤ high) (name : String) (env : Env) (w : World) :
    randomInt name [.int low, .int high] env w =
      .ok (.int (source.between (.ofInt low) (.ofInt high) w.random).1.toInt)
        { w with random := (source.between (.ofInt low) (.ofInt high) w.random).2 } := by
  have ordered : ¬ high < low := Int.not_lt.mpr le
  simp only [randomInt, arg, List.getD_cons_zero, List.getD_cons_succ, if_neg ordered]
  rfl

/-- The words that any source draws for the range between two bounds stand for the integers of
the range, each for one, however far the bounds are apart; and a random integer between them is
what the draw of the generator stands for. -/
theorem randomInt_reaches_range (hlow : Value.inRange low = true)
    (hhigh : Value.inRange high = true) (le : low ≤ high) :
    (∀ (G : Type) (s : Source G) (g : G),
      let drawn := s.draw (width (.ofInt low) (.ofInt high)) g
      drawn.1 ∈ draws (.ofInt low) (.ofInt high) ∧
        s.between (.ofInt low) (.ofInt high) g =
          (placed (.ofInt low) (.ofInt high) drawn.1, drawn.2)) ∧
    Set.BijOn (fun x => (placed (.ofInt low) (.ofInt high) x).toInt)
      (draws (.ofInt low) (.ofInt high)) (Set.Icc low high) ∧
    ∀ (name : String) (env : Env) (w : World), ∃ n : Int,
      n = (source.between (.ofInt low) (.ofInt high) w.random).1.toInt ∧ low ≤ n ∧ n ≤ high ∧
        Builtins.randomInt name [.int low, .int high] env w =
          .ok (.int n)
            { w with random := (source.between (.ofInt low) (.ofInt high) w.random).2 } := by
  have toLow := Word.toInt_ofInt hlow
  have toHigh := Word.toInt_ofInt hhigh
  have ordered : Int64.ofInt low ≤ Int64.ofInt high := by
    rwa [Int64.le_iff_toInt_le, toLow, toHigh]
  have reached := bijOn_placed ordered
  rw [toLow, toHigh] at reached
  refine ⟨fun G s g => ⟨s.drawn g, s.between_eq g⟩, reached, fun name env w => ?_⟩
  have drawn : (source.draw (width (.ofInt low) (.ofInt high)) w.random).1 ∈
      draws (.ofInt low) (.ofInt high) := source.drawn w.random
  have inside := reached.mapsTo drawn
  refine ⟨_, rfl, ?_, ?_, Builtins.randomInt_eq le name env w⟩
  · rw [source.between_eq]
    exact inside.1
  · rw [source.between_eq]
    exact inside.2

/-- All integers can come up, and so can those between two that are too far apart for an integer. -/
theorem randomInt_reaches_range_wide :
    (∃ n : Int, Value.minInt ≤ n ∧ n ≤ Value.maxInt ∧
      Builtins.randomInt "RANDOM_INT" [.int Value.minInt, .int Value.maxInt] ⟨default, ⟨0⟩⟩ default =
        .ok (.int n)
          { (default : World) with
            random := (source.between (.ofInt Value.minInt) (.ofInt Value.maxInt) default).2 }) ∧
    Set.BijOn (fun x => (placed (.ofInt (-5)) (.ofInt Value.maxInt) x).toInt)
      (draws (.ofInt (-5)) (.ofInt Value.maxInt)) (Set.Icc (-5) Value.maxInt) := by
  refine ⟨?_, (randomInt_reaches_range (by decide) (by decide) (by decide)).2.1⟩
  obtain ⟨n, -, lower, upper, outcome⟩ :=
    (@randomInt_reaches_range Value.minInt Value.maxInt (by decide) (by decide)
      (by decide)).2.2 "RANDOM_INT" ⟨default, ⟨0⟩⟩ default
  exact ⟨n, lower, upper, outcome⟩

end Pseudocode
