import Mathlib.Data.String.Basic
import Pseudocode.Proofs.Execution.Indexing
import Pseudocode.Proofs.Execution.Loops
import Pseudocode.Proofs.Execution.Methods
import Pseudocode.Proofs.Execution.Start
import Pseudocode.Proofs.Strings.Bytes
/-
# `Proofs.Strings.Positions` — what the builtins call a position of a text

`SUBSTRING` takes the characters from one position up to and including another.  It makes a
bound of its own from the last position, the one after it, and lets negative bounds count from
the end.  For positions that are not negative this is the inclusive slice (`slice_eq_between`),
also where they lie beyond the end of the text, with one exception: behind the greatest integer
comes the least one, which means no position, and nothing is left of the text.

`POSITION` looks for a text among bytes; `LEN`, `SUBSTRING`, an index, the array of the characters
and a loop go over characters.  They agree.  What `POSITION` finds is the first position from
which `SUBSTRING` reads as many characters as the text has and gets the text back, and it finds
none only if the text occurs nowhere.  At each position below the length an index, `SUBSTRING`,
the array and the loop give the same character (`positions_agree`).
-/
namespace Pseudocode.Builtins

/-! ## Slices -/

/-- The characters at the positions from the first up to and including the last, in order. -/
def between (cs : List Char) (first last : Int) : List Char :=
  (cs.zipIdx.filter fun e => first ≤ e.2 ∧ e.2 ≤ last).map Prod.fst

/-- Leaving out what stands before one position and from another one on, when the places of
the list are counted from `k`. -/
theorem filter_zipIdx_eq {α : Type} (a b : Nat) : ∀ (cs : List α) (k : Nat),
    ((cs.zipIdx k).filter fun e => a ≤ e.2 ∧ e.2 < b).map Prod.fst =
      (cs.drop (a - k)).take (b - max a k)
  | [], k => by simp
  | c :: cs, k => by
    have rest := filter_zipIdx_eq a b cs (k + 1)
    rw [List.zipIdx_cons]
    by_cases before : k < a
    · -- The first character is left out, and there is one less to leave out behind it.
      obtain ⟨m, hm⟩ : ∃ m, a - k = m + 1 := ⟨a - k - 1, by omega⟩
      have out : ¬(a ≤ k ∧ k < b) := by omega
      rw [List.filter_cons_of_neg (by simpa using out), rest, hm, List.drop_succ_cons,
        show a - (k + 1) = m by omega, Nat.max_eq_left (by omega), Nat.max_eq_left (by omega)]
    · rw [show a - k = 0 by omega, Nat.max_eq_right (by omega)]
      rw [show a - (k + 1) = 0 by omega, Nat.max_eq_right (by omega)] at rest
      by_cases inside : k < b
      · obtain ⟨m, hm⟩ : ∃ m, b - k = m + 1 := ⟨b - k - 1, by omega⟩
        rw [show b - (k + 1) = m by omega] at rest
        rw [List.filter_cons_of_pos (by simp; omega), List.map_cons, rest, hm]
        rfl
      · have out : ¬(a ≤ k ∧ k < b) := by omega
        rw [List.filter_cons_of_neg (by simpa using out), rest, show b - (k + 1) = 0 by omega,
          show b - k = 0 by omega, List.take_zero, List.take_zero]

/-- Positions that are not negative bound an inclusive slice, unless the last one is the greatest
integer. -/
theorem slice_eq_between {cs : List Char} {first last : Int} (hf : 0 ≤ first) (hl : 0 ≤ last)
    (below : last < Value.maxInt) : slice cs first last = between cs first last := by
  obtain ⟨a, rfl⟩ := Int.eq_ofNat_of_zero_le hf
  obtain ⟨b, rfl⟩ := Int.eq_ofNat_of_zero_le hl
  have positions : between cs a b = (cs.drop a).take (b + 1 - a) := by
    have all := filter_zipIdx_eq a (b + 1) cs 0
    rw [Nat.sub_zero, Nat.max_eq_left (Nat.zero_le a)] at all
    rw [between, ← all]
    refine congrArg _ (List.filter_congr fun e _ => decide_eq_decide.mpr ?_)
    omega
  have stop : wrapSucc (b : Int) = (b + 1 : Nat) := if_neg (Int.ne_of_lt below)
  have bound (n : Nat) : sliceBound cs.length (n : Int) = min n cs.length := by
    rw [sliceBound, if_neg (by omega), Int.toNat_natCast]
  -- Beyond the end there is nothing to take and nothing to drop.
  simp only [positions, slice, stop, bound]
  apply List.ext_getElem?
  intro i
  simp only [List.getElem?_take, List.getElem?_drop]
  by_cases inside : a + i < cs.length
  · rw [Nat.min_eq_left (show a ≤ cs.length by omega)]
    exact if_congr (by omega) rfl rfl
  · rw [List.getElem?_eq_none (show cs.length ≤ min a cs.length + i by omega),
      List.getElem?_eq_none (show cs.length ≤ a + i by omega), ite_self, ite_self]

/-- The position after the greatest integer is the least one, which lies before every text that
has no more characters than there are positions. -/
theorem slice_maxInt {cs : List Char} {first : Int} (short : cs.length ≤ Value.maxInt + 1) :
    slice cs first Value.maxInt = [] := by
  have stop : sliceBound cs.length (wrapSucc Value.maxInt) = 0 := by
    have wrapped : wrapSucc Value.maxInt = Value.minInt := if_pos rfl
    have small : (cs.length : Int) ≤ 9223372036854775808 := short
    rw [wrapped, sliceBound, if_pos (by decide), Value.minInt, Int.toNat_of_nonpos (by omega),
      Nat.zero_min]
  simp only [slice, stop, Nat.zero_sub, List.take_zero]

/-- As many characters as the places from one to the one before another, and none if this other one
is the first. -/
theorem slice_run {cs : List Char} {p n : Nat} (inside : p + n ≤ cs.length)
    (word : (cs.length : Int) ≤ Value.maxInt) :
    slice cs p ((p : Int) + n - 1) = (cs.drop p).take n := by
  have start : sliceBound cs.length (p : Int) = p := by
    rw [sliceBound, if_neg (by omega)]
    omega
  have stop : sliceBound cs.length (wrapSucc ((p : Int) + n - 1)) = p + n := by
    rw [wrapSucc, if_neg (by omega), sliceBound, if_neg (by omega)]
    omega
  rw [slice, start, stop, Nat.add_sub_cancel_left]

theorem substring_eq (name : String) (first last : Int) (s : String) (env : Env) (w : World) :
    substring name [.int first, .int last, .string s] env w =
      .ok (.string (String.ofList (slice s.toList first last))) w := rfl

/-- `SUBSTRING` returns the characters at the positions from the first to the last one, both
included, if neither is negative and the last one is not the greatest integer; if it is, then
nothing is returned. -/
theorem substring_inclusive (name s : String) (env : Env) (w : World) {first last : Int}
    (hf : 0 ≤ first) (hl : 0 ≤ last) :
    (last < Value.maxInt → substring name [.int first, .int last, .string s] env w =
      .ok (.string (String.ofList (between s.toList first last))) w) ∧
    (last = Value.maxInt → s.length ≤ Value.maxInt + 1 →
      substring name [.int first, .int last, .string s] env w = .ok (.string "") w) := by
  refine ⟨fun below => ?_, fun greatest short => ?_⟩
  · rw [substring_eq, slice_eq_between hf hl below]
  · subst greatest
    rw [substring_eq, slice_maxInt short]

/-- A last position far beyond the end of the text. -/
theorem substring_inclusive_beyond :
    substring "SUBSTRING" [.int 1, .int 9223372036854775806, .string "äbc"]
        ⟨(default : Session.Options).setup, Session.main⟩ (Session.rootedWorld default) =
      .ok (.string "bc") (Session.rootedWorld default) :=
  (substring_inclusive "SUBSTRING" "äbc" _ _ (by decide) (by decide)).1 (by decide)

/-- Up to the greatest integer there are three characters, and none of them is returned. -/
theorem substring_to_greatest_empty :
    between "abc".toList 0 Value.maxInt = ['a', 'b', 'c'] ∧
      substring "SUBSTRING" [.int 0, .int Value.maxInt, .string "abc"]
          ⟨(default : Session.Options).setup, Session.main⟩ (Session.rootedWorld default) =
        .ok (.string "") (Session.rootedWorld default) :=
  ⟨by decide, rfl⟩

end Pseudocode.Builtins

/-! ## Positions -/

namespace Pseudocode

open Run

namespace Builtins

/-! ## Occurrences and slices -/

/-- A text begins at a place if reading as many characters as it has gives it back. -/
theorem slice_eq_iff {cs us : List Char} {p : Nat} (inside : p + us.length ≤ cs.length)
    (word : (cs.length : Int) ≤ Value.maxInt) :
    slice cs p ((p : Int) + us.length - 1) = us ↔ us <+: cs.drop p := by
  rw [slice_run inside word, List.prefix_iff_eq_take, eq_comm]

theorem slice_single {cs : List Char} {i : Nat} (inside : i < cs.length)
    (word : (cs.length : Int) ≤ Value.maxInt) : slice cs i i = [cs[i]] := by
  have one := slice_run (p := i) (n := 1) inside word
  rw [Int.natCast_one, Int.add_sub_cancel, List.drop_eq_getElem_cons inside] at one
  exact one

/-- What is found is a place where the text begins, and it does not begin at an earlier one. -/
theorem occurrence?_eq_some {us cs : List Char} {p : Nat} (found : occurrence? 0 us cs = some p) :
    p + us.length ≤ cs.length ∧ us <+: cs.drop p ∧ ∀ q < p, ¬ us <+: cs.drop q := by
  obtain ⟨before, after, rfl, rfl, leftmost⟩ := leftmost_of_occurrence? found
  rw [Nat.zero_add]
  refine ⟨by simp only [List.length_append]; omega, ?_, ?_⟩
  · rw [List.append_assoc, List.drop_left]
    exact List.prefix_append us after
  · intro q earlier begins
    obtain ⟨rest, split⟩ := begins
    have first := leftmost ((before ++ us ++ after).take q) rest
      (by rw [List.append_assoc, split, List.take_append_drop])
    rw [List.length_take] at first
    omega

end Builtins

/-! ## Characters -/

theorem Heap.item_string_natCast (h : Heap) {s : String} {i : Nat} (inside : i < s.toList.length) :
    h.item (.string s) (.int i) = .ok (.string (String.ofList [s.toList[i]])) := by
  rcases Heap.item_string s (.int i) h with ⟨p, c, means, there, read⟩ | ⟨none, -⟩
  · obtain rfl := means.unique (.natCast inside)
    rw [List.getElem?_eq_getElem inside] at there
    rw [read, ← Option.some.inj there]
  · exact absurd ⟨i, .natCast inside⟩ none

theorem Heap.item_array_natCast {h : Heap} {a : ArrayRef} {vs : List Value} {i : Nat}
    (held : (h.array a).toList = vs) (inside : i < vs.length) :
    h.item (.array a) (.int i) = .ok vs[i] := by
  subst held
  have inside : i < (h.array a).size := inside
  rcases Heap.item_array a (.int i) h with ⟨p, x, means, there, read⟩ | ⟨none, -⟩
  · obtain rfl := means.unique (.natCast inside)
    rw [Array.getElem?_eq_getElem inside] at there
    rw [read, ← Option.some.inj there, Array.getElem_toList]
  · exact absurd ⟨i, .natCast inside⟩ none

/-- The characters of a text, each as a text. -/
def charactersOf (s : String) : List String := s.toList.map fun c => String.ofList [c]

theorem length_charactersOf (s : String) : (charactersOf s).length = s.length := by
  rw [charactersOf, List.length_map, String.length_toList]

theorem characters_eq (s : String) : Builtins.characters s = (charactersOf s).map .string := by
  rw [charactersOf, List.map_map]
  rfl

theorem getElem_charactersOf {s : String} {i : Nat} (h : i < (charactersOf s).length)
    (inside : i < s.toList.length) : (charactersOf s)[i] = String.ofList [s.toList[i]] :=
  List.getElem_map ..

/-! ## Agreement -/

section

variable (r : Recursor) (env : Env) (w : World)

/-- What `SUBSTRING` gives for as many positions as a text has characters, from this one on, is
that text. -/
def ReadsFrom (s u : String) (p : Int) : Prop :=
  nativeCall r "SUBSTRING" [.int p, .int (p + u.length - 1), .string s] .substring env w =
    .ok (.string u) w

variable {r env w}

theorem readsFrom_iff {s u : String} {p : Nat} (inside : p + u.length ≤ s.length)
    (word : (s.length : Int) ≤ Value.maxInt) :
    ReadsFrom r env w s u p ↔ u.toList <+: s.toList.drop p := by
  rw [← String.length_toList, ← String.length_toList] at inside
  rw [← String.length_toList] at word
  rw [← Builtins.slice_eq_iff inside word, ReadsFrom, nativeCall, Builtins.substring_eq,
    String.length_toList]
  simp only [EStateM.Result.ok.injEq, Value.string.injEq, and_true, String.ofList_eq]

variable (r env w)

/-- The builtins agree on the positions of a text.  What `POSITION` answers is the first position
from which `SUBSTRING` reads the text that was looked for, or -1 if it occurs nowhere.  There are
as many characters as `LEN` says, and an index, `SUBSTRING`, the array made of the text and a loop
over it give the same ones. -/
theorem positions_agree {s : String} (word : (s.length : Int) ≤ Value.maxInt) :
    (∀ u : String, ∃ p : Int,
      nativeCall r "POSITION" [.string s, .string u] .position env w = .ok (.int p) w ∧
      (p ≠ -1 → 0 ≤ p ∧ ReadsFrom r env w s u p ∧
        ∀ q, 0 ≤ q → q < p → ¬ ReadsFrom r env w s u q) ∧
      (p = -1 ↔ ¬ u.toList <:+: s.toList)) ∧
    ∃ cs : List String, nativeCall r "LEN" [.string s] .len env w = .ok (.int cs.length) w ∧
      (∀ i (h : i < cs.length), cs[i].length = 1 ∧
        w.heap.item (.string s) (.int i) = .ok (.string cs[i]) ∧
        nativeCall r "SUBSTRING" [.int i, .int i, .string s] .substring env w =
          .ok (.string cs[i]) w) ∧
      (∃ a h', nativeCall r "Array" [.string s] .toArray env w =
          .ok (.array a) { w with heap := h' } ∧
        (h'.array a).toList = cs.map .string ∧
        ∀ i (h : i < cs.length), h'.item (.array a) (.int i) = .ok (.string cs[i])) ∧
      ∀ span name iterable body w', r.expr iterable env w' = .ok (.string s) w →
        forEach r span name iterable body env w' =
          eachLoop r span name body (cs.map .string) env w := by
  have size : s.toList.length = s.length := String.length_toList
  refine ⟨fun u => ⟨Builtins.indexOf s u, rfl, ?_⟩, charactersOf s, ?_⟩
  · rw [Builtins.indexOf_eq]
    cases found : Builtins.occurrence? 0 u.toList s.toList with
    | none =>
      refine ⟨fun some => absurd rfl some, ?_⟩
      exact iff_of_true rfl (Builtins.not_infix_of_occurrence? found)
    | some p =>
      obtain ⟨inside, begins, first⟩ := Builtins.occurrence?_eq_some found
      rw [size, String.length_toList] at inside
      refine ⟨fun _ => ⟨Int.natCast_nonneg p, (readsFrom_iff inside word).mpr begins, ?_⟩, ?_⟩
      · intro q positive earlier reads
        obtain ⟨q, rfl⟩ := Int.eq_ofNat_of_zero_le positive
        have earlier : q < p := Int.ofNat_lt.mp earlier
        exact first q earlier ((readsFrom_iff (by omega) word).mp reads)
      · have occurs : u.toList <:+: s.toList := begins.isInfix.trans (List.drop_suffix p _).isInfix
        have found : Int.ofNat p ≠ -1 := nofun
        exact iff_of_false found fun absent => absent occurs
  · have held : ((w.heap.newArray (Builtins.characters s).toArray).2.array
        ⟨w.heap.arrays.size⟩).toList = (charactersOf s).map .string := by
      rw [Heap.array_newArray, characters_eq]
    refine ⟨by rw [length_charactersOf]; rfl, ?_, ⟨_, _, rfl, held, ?_⟩, ?_⟩
    · intro i inside
      have inside : i < s.toList.length := by rwa [length_charactersOf, ← size] at inside
      rw [getElem_charactersOf _ inside]
      refine ⟨String.length_ofList, Heap.item_string_natCast _ inside, ?_⟩
      rw [← size] at word
      rw [nativeCall, Builtins.substring_eq, Builtins.slice_single inside word]
    · intro i inside
      have inside' : i < ((charactersOf s).map Value.string).length := by rwa [List.length_map]
      have read := Heap.item_array_natCast held inside'
      rwa [List.getElem_map] at read
    · intro span name iterable body w' evaluated
      have looked : Eval.inHeap (items? · (.string s)) env w = .ok (some (Builtins.characters s)) w :=
        rfl
      rw [← characters_eq]
      exact (Eval.bind_ok evaluated _).trans (Eval.bind_ok looked _)

end

/-- The second character of a text begins a text of two, whose characters have three bytes and one;
it does not begin at the first one. -/
theorem positions_agree_wide :
    (("日b日b".length : Nat) : Int) ≤ Value.maxInt ∧
      ReadsFrom (run 0) ⟨(default : Session.Options).setup, Session.main⟩
        (Session.rootedWorld default) "日b日b" "b日" 1 ∧
      ¬ ReadsFrom (run 0) ⟨(default : Session.Options).setup, Session.main⟩
        (Session.rootedWorld default) "日b日b" "b日" 0 := by
  have word : (("日b日b".length : Nat) : Int) ≤ Value.maxInt := by decide
  obtain ⟨p, answer, found, -⟩ := (positions_agree (run 0)
    ⟨(default : Session.Options).setup, Session.main⟩ (Session.rootedWorld default) word).1 "b日"
  have place : Builtins.indexOf "日b日b" "b日" = 1 := by decide
  have same : p = 1 := by
    injection answer with value
    injection value with value
    rw [← value, place]
  subst same
  obtain ⟨-, reads, first⟩ := found (by decide)
  exact ⟨word, reads, first 0 (Int.le_refl 0) (by decide)⟩

end Pseudocode
