import Mathlib.Data.List.Infix
import Pseudocode.Builtin.Core
/-
# `Proofs.Strings.Bytes` — the occurrences of a text in another one

`Cuts s t parts` says that the parts are what is left of `t` when it is cut at the leftmost
occurrence of `s`, and the rest behind that at its leftmost occurrence, and so on.  Put together
again with `s` between them the parts are `t` (`Cuts.intercalate`), and none of them contains `s`
(`Cuts.not_infix`); there are no other such parts (`Cuts.unique`).  The place of the leftmost
occurrence is what `POSITION` looks for (`occurrence?_of_leftmost`, `occurrence?_eq_none`).

`POSITION` looks for bytes.  A byte with which a character begins stands nowhere else among the
bytes of a text (`Text.exists_boundary`), and no character is written by the first bytes of another
one.  Hence the bytes of a text occur among those of another one only where the text itself occurs
(`Text.exists_occurrence`), and `POSITION`, which counts the characters in front of them, finds the
place of the leftmost occurrence (`Builtins.indexOf_eq`).
-/
namespace Pseudocode

variable {α : Type} {s t before after : List α} {parts : List (List α)}

/-- There is no occurrence of `s` in `before ++ s ++ after` that begins earlier. -/
def Leftmost (before s after : List α) : Prop :=
  ∀ b a, b ++ s ++ a = before ++ s ++ after → before.length ≤ b.length

/-- The parts of a text cut at the leftmost occurrences that do not overlap. -/
inductive Cuts (s : List α) : List α → List (List α) → Prop
  | whole {t : List α} : ¬ s <:+: t → Cuts s t [t]
  | cut {before after : List α} {parts : List (List α)} :
      Leftmost before s after → Cuts s after parts → Cuts s (before ++ s ++ after) (before :: parts)

namespace Cuts

theorem ne_nil (h : Cuts s t parts) : parts ≠ [] := by
  cases h <;> exact List.cons_ne_nil _ _

/-- The text is the parts with the separator between them. -/
theorem intercalate (h : Cuts s t parts) : s.intercalate parts = t := by
  induction h with
  | whole _ => exact List.intercalate_singleton
  | @cut before after parts _ rest ih =>
    obtain ⟨p, ps, rfl⟩ := List.exists_cons_of_ne_nil rest.ne_nil
    rw [List.intercalate_cons_cons, ih, List.append_assoc]

/-- No part contains the separator: in front of the leftmost occurrence there is none. -/
theorem not_infix (some : s ≠ []) (h : Cuts s t parts) : ∀ p ∈ parts, ¬ s <:+: p := by
  induction h with
  | whole none => exact List.forall_mem_singleton.mpr none
  | @cut before after parts leftmost _ ih =>
    refine List.forall_mem_cons.mpr ⟨?_, ih⟩
    rintro ⟨b, a, rfl⟩
    have earlier := leftmost b (a ++ s ++ after) (by simp only [List.append_assoc])
    have positive := List.length_pos_iff.mpr some
    simp only [List.length_append] at earlier
    omega

/-- There is one way to cut a text. -/
theorem unique {ps qs : List (List α)} (h : Cuts s t ps) : ∀ {t'}, Cuts s t' qs → t = t' → ps = qs := by
  induction h generalizing qs with
  | whole none =>
    intro t' k same
    cases k with
    | whole _ => rw [same]
    | cut _ _ => exact absurd ⟨_, _, same.symm⟩ none
  | @cut before after ps leftmost _ ih =>
    intro t' k same
    cases k with
    | whole none => exact absurd ⟨_, _, same⟩ none
    | @cut before' after' qs leftmost' rest' =>
      have le := leftmost before' after' same.symm
      have ge := leftmost' before after same
      obtain ⟨front, rfl⟩ := List.append_inj same (by simp only [List.length_append]; omega)
      rw [List.append_cancel_right front, ih rest' rfl]

/-- There are no more parts than characters, but for one. -/
theorem length_le (some : s ≠ []) (h : Cuts s t parts) : parts.length ≤ t.length + 1 := by
  induction h with
  | whole _ => exact Nat.succ_le_succ (Nat.zero_le _)
  | cut _ _ ih =>
    have positive := List.length_pos_iff.mpr some
    simp only [List.length_cons, List.length_append] at ih ⊢
    omega

end Cuts

namespace Builtins

variable [DecidableEq α]

theorem startsWith_iff : ∀ {t s : List α}, startsWith t s = true ↔ s <+: t
  | _, [] => by simp [startsWith]
  | [], d :: s => by simp [startsWith]
  | c :: t, d :: s => by
    rw [startsWith, Bool.and_eq_true, startsWith_iff, decide_eq_true_eq, List.cons_prefix_cons,
      eq_comm]

/-- What is found is the leftmost occurrence. -/
theorem leftmost_of_occurrence? {s : List α} : ∀ {t : List α} {i p : Nat},
    occurrence? i s t = some p →
      ∃ before after, t = before ++ s ++ after ∧ p = i + before.length ∧ Leftmost before s after
  | [], i, p, h => by
    rw [occurrence?] at h
    split at h
    · next empty =>
      cases h
      rw [List.isEmpty_iff.mp empty]
      exact ⟨[], [], rfl, rfl, fun _ _ _ => Nat.zero_le _⟩
    · cases h
  | c :: t, i, p, h => by
    rw [occurrence?] at h
    split at h
    · next here =>
      cases h
      obtain ⟨after, split⟩ := startsWith_iff.mp here
      exact ⟨[], after, split.symm, rfl, fun _ _ _ => Nat.zero_le _⟩
    · next elsewhere =>
      obtain ⟨before, after, rfl, rfl, leftmost⟩ := leftmost_of_occurrence? h
      refine ⟨c :: before, after, rfl, by rw [List.length_cons]; omega, fun b a same => ?_⟩
      cases b with
      | nil =>
        have start : s <+: c :: (before ++ s ++ after) := ⟨a, same⟩
        exact absurd (startsWith_iff.mpr start) elsewhere
      | cons d b =>
        rw [List.length_cons, List.length_cons]
        exact Nat.succ_le_succ (leftmost b a (List.cons.inj same).2)

theorem not_infix_of_occurrence? {s : List α} : ∀ {t : List α} {i : Nat},
    occurrence? i s t = none → ¬ s <:+: t
  | [], i, h => by
    rw [occurrence?] at h
    split at h
    · cases h
    · next some =>
      rw [List.infix_nil]
      exact fun none => some (List.isEmpty_iff.mpr none)
  | c :: t, i, h => by
    rw [occurrence?] at h
    split at h
    · cases h
    · next elsewhere =>
      rw [List.infix_cons_iff, not_or]
      exact ⟨fun start => elsewhere (startsWith_iff.mpr start), not_infix_of_occurrence? h⟩

/-- The leftmost occurrence is found. -/
theorem occurrence?_of_leftmost {before s after : List α} (h : Leftmost before s after) :
    occurrence? 0 s (before ++ s ++ after) = some before.length := by
  cases found : occurrence? 0 s (before ++ s ++ after) with
  | none => exact absurd ⟨before, after, rfl⟩ (not_infix_of_occurrence? found)
  | some p =>
    obtain ⟨b, a, same, rfl, leftmost⟩ := leftmost_of_occurrence? found
    have le := h b a same.symm
    have ge := leftmost before after same
    exact congrArg some (by omega)

theorem occurrence?_eq_none {s t : List α} (h : ¬ s <:+: t) : occurrence? 0 s t = none := by
  cases found : occurrence? 0 s t with
  | none => rfl
  | some p =>
    obtain ⟨before, after, rfl, -⟩ := leftmost_of_occurrence? found
    exact absurd ⟨before, after, rfl⟩ h

/-- Every text can be cut. -/
theorem exists_cuts {s : List α} (some : s ≠ []) (t : List α) : ∃ parts, Cuts s t parts := by
  induction hn : t.length using Nat.strong_induction_on generalizing t with
  | _ n ih =>
    cases found : occurrence? 0 s t with
    | none => exact ⟨[t], .whole (not_infix_of_occurrence? found)⟩
    | some p =>
      obtain ⟨before, after, rfl, -, leftmost⟩ := leftmost_of_occurrence? found
      have positive := List.length_pos_iff.mpr some
      simp only [List.length_append] at hn
      obtain ⟨parts, rest⟩ := ih after.length (by omega) after rfl
      exact ⟨before :: parts, .cut leftmost rest⟩

end Builtins

/-! ## Bytes and characters -/

namespace Text

theorem bytes_eq (s : String) : bytes s = s.toList.flatMap String.utf8EncodeChar := by
  rw [bytes, String.toUTF8, ← String.utf8Encode_toList, List.utf8Encode,
    List.toList_data_toByteArray]

/-! ## Characters that bytes write -/

theorem width_utf8EncodeChar_append (c : Char) (x : List UInt8) :
    width (String.utf8EncodeChar c ++ x) = c.utf8Size := by
  have front : (String.utf8EncodeChar c ++ x).take 4 =
      String.utf8EncodeChar c ++ x.take (4 - c.utf8Size) := by
    rw [List.take_append, String.length_utf8EncodeChar, List.take_of_length_le]
    rw [String.length_utf8EncodeChar]
    exact Char.utf8Size_le_four c
  rw [width, front, List.toByteArray_append, ByteArray.utf8DecodeChar?_utf8EncodeChar_append]
  rfl

theorem charCount_append {k : Nat} {x : List UInt8} (y : List UInt8) (size : x.length = k) :
    charCount k (x ++ y) = charCount 0 y := by
  induction k generalizing x with
  | zero => rw [List.length_eq_zero_iff.mp size, List.nil_append]
  | succ k ih =>
    obtain ⟨b, x, rfl⟩ := List.exists_cons_of_length_eq_add_one size
    exact ih (Nat.succ.inj size)

/-- The bytes of a text write as many characters as it has. -/
theorem charCount_flatMap (cs : List Char) :
    charCount 0 (cs.flatMap String.utf8EncodeChar) = cs.length := by
  induction cs with
  | nil => rfl
  | cons c cs ih =>
    have width := width_utf8EncodeChar_append c (cs.flatMap String.utf8EncodeChar)
    have size := String.length_utf8EncodeChar c
    rw [List.flatMap_cons, List.length_cons]
    cases first : String.utf8EncodeChar c with
    | nil => exact absurd first String.utf8EncodeChar_ne_nil
    | cons b bs =>
      rw [first] at size width
      have others : bs.length = c.utf8Size - 1 := Nat.eq_sub_of_add_eq size
      rw [List.cons_append, charCount, ← List.cons_append, width, charCount_append _ others, ih]

/-! ## Where characters begin -/

/-- Of the bytes of a character only the first one can begin a character. -/
theorem isUTF8FirstByte_iff {c : Char} {b : UInt8} {x y : List UInt8}
    (written : String.utf8EncodeChar c = x ++ b :: y) : b.IsUTF8FirstByte ↔ x = [] := by
  have inside : x.length < (String.utf8EncodeChar c).length := by
    rw [written, List.length_append, List.length_cons]
    omega
  have here : (String.utf8EncodeChar c)[x.length] = b := by
    simp only [written, List.getElem_append_right (Nat.le_refl _), Nat.sub_self,
      List.getElem_cons_zero]
  rw [← here, UInt8.isUTF8FirstByte_getElem_utf8EncodeChar, List.length_eq_zero_iff]

/-- A byte that can begin a character stands only where one begins. -/
theorem exists_boundary {b : UInt8} (first : b.IsUTF8FirstByte) :
    ∀ {cs : List Char} {x y : List UInt8}, cs.flatMap String.utf8EncodeChar = x ++ b :: y →
      ∃ before after, cs = before ++ after ∧ x = before.flatMap String.utf8EncodeChar ∧
        b :: y = after.flatMap String.utf8EncodeChar
  | [], x, y, same => by
    rw [List.flatMap_nil] at same
    exact absurd same.symm (List.append_ne_nil_of_right_ne_nil x (List.cons_ne_nil b y))
  | c :: cs, x, y, same => by
    rw [List.flatMap_cons] at same
    rcases List.append_eq_append_iff.mp same with ⟨z, rfl, rest⟩ | ⟨z, written, rest⟩
    · obtain ⟨before, after, rfl, rfl, there⟩ := exists_boundary first rest
      exact ⟨c :: before, after, rfl, rfl, there⟩
    · cases z with
      | nil =>
        rw [List.append_nil] at written
        exact ⟨[c], cs, rfl, by rw [List.flatMap_singleton, written], rest⟩
      | cons d z =>
        -- Among the bytes of the character it can be the first one only.
        obtain ⟨rfl, rfl⟩ := List.cons.inj rest
        obtain rfl := (isUTF8FirstByte_iff written).mp first
        exact ⟨[], c :: cs, rfl, rfl, same.symm⟩

theorem utf8EncodeChar_append_inj {c d : Char} {x y : List UInt8}
    (same : String.utf8EncodeChar c ++ x = String.utf8EncodeChar d ++ y) : c = d ∧ x = y := by
  have read := congrArg (fun bs : List UInt8 => bs.toByteArray.utf8DecodeChar? 0) same
  simp only [List.toByteArray_append, ByteArray.utf8DecodeChar?_utf8EncodeChar_append,
    Option.some.injEq] at read
  subst read
  exact ⟨rfl, List.append_cancel_left same⟩

theorem prefix_of_flatMap : ∀ {u t : List Char},
    u.flatMap String.utf8EncodeChar <+: t.flatMap String.utf8EncodeChar → u <+: t
  | [], _, _ => List.nil_prefix
  | c :: u, [], h => by
    have none : (c :: u).flatMap String.utf8EncodeChar = [] := List.prefix_nil.mp h
    rw [List.flatMap_cons, List.append_eq_nil_iff] at none
    exact absurd none.1 String.utf8EncodeChar_ne_nil
  | c :: u, d :: t, ⟨z, same⟩ => by
    rw [List.flatMap_cons, List.flatMap_cons, List.append_assoc] at same
    obtain ⟨rfl, rest⟩ := utf8EncodeChar_append_inj same
    exact (List.prefix_cons_inj c).mpr (prefix_of_flatMap ⟨z, rest⟩)

/-! ## Occurrences -/

/-- Where the bytes of a text occur among those of another one, the text occurs itself. -/
theorem exists_occurrence {u t : List Char} (some : u ≠ []) {x y : List UInt8}
    (same : x ++ u.flatMap String.utf8EncodeChar ++ y = t.flatMap String.utf8EncodeChar) :
    ∃ before after, before ++ u ++ after = t ∧ x = before.flatMap String.utf8EncodeChar := by
  obtain ⟨c, u, rfl⟩ := List.exists_cons_of_ne_nil some
  obtain ⟨b, bs, written⟩ := List.exists_cons_of_ne_nil (String.utf8EncodeChar_ne_nil (c := c))
  have first : b.IsUTF8FirstByte := (isUTF8FirstByte_iff (x := []) written).mpr rfl
  have begins : (c :: u).flatMap String.utf8EncodeChar ++ y =
      b :: (bs ++ u.flatMap String.utf8EncodeChar ++ y) := by
    rw [List.flatMap_cons, written, List.cons_append, List.cons_append]
  rw [List.append_assoc, begins] at same
  obtain ⟨before, rest, rfl, rfl, there⟩ := exists_boundary first same.symm
  obtain ⟨after, rfl⟩ : c :: u <+: rest := prefix_of_flatMap ⟨y, begins.trans there⟩
  exact ⟨before, after, List.append_assoc .., rfl⟩

theorem infix_of_flatMap {u t : List Char}
    (h : u.flatMap String.utf8EncodeChar <:+: t.flatMap String.utf8EncodeChar) : u <:+: t := by
  by_cases some : u = []
  · rw [some]
    exact List.nil_infix
  · obtain ⟨x, y, same⟩ := h
    obtain ⟨before, after, split, -⟩ := exists_occurrence some same
    exact ⟨before, after, split⟩

end Text

/-- The bytes of the leftmost occurrence are the leftmost occurrence of the bytes. -/
theorem Leftmost.flatMap {before u after : List Char} (h : Leftmost before u after) :
    Leftmost (before.flatMap String.utf8EncodeChar) (u.flatMap String.utf8EncodeChar)
      (after.flatMap String.utf8EncodeChar) := by
  intro x y same
  rw [← List.flatMap_append, ← List.flatMap_append] at same
  by_cases some : u = []
  · subst some
    have empty : before = [] :=
      List.length_eq_zero_iff.mp (Nat.le_zero.mp (h [] (before ++ after) (by simp)))
    rw [empty]
    exact Nat.zero_le _
  · obtain ⟨b, a, split, rfl⟩ := Text.exists_occurrence some same
    obtain ⟨more, rfl⟩ : before <+: b := by
      refine List.prefix_of_prefix_length_le ⟨u ++ after, (List.append_assoc ..).symm⟩
        ⟨u ++ a, ?_⟩ (h b a split)
      rw [← split, List.append_assoc]
    rw [List.flatMap_append, List.length_append]
    exact Nat.le_add_right _ _

namespace Builtins

/-- The search among the bytes finds the place that the one among the characters finds. -/
theorem indexOf_eq (s u : String) :
    indexOf s u = ((occurrence? 0 u.toList s.toList).map Int.ofNat).getD (-1) := by
  rw [indexOf, Text.bytes_eq, Text.bytes_eq]
  cases found : occurrence? 0 u.toList s.toList with
  | none =>
    have absent := not_infix_of_occurrence? found
    rw [occurrence?_eq_none fun h => absent (Text.infix_of_flatMap h)]
    rfl
  | some p =>
    obtain ⟨before, after, split, rfl, leftmost⟩ := leftmost_of_occurrence? found
    have there := occurrence?_of_leftmost leftmost.flatMap
    rw [split, List.flatMap_append, List.flatMap_append, there, List.append_assoc]
    simp only [List.take_left, Text.charCount_flatMap, Nat.zero_add]
    rfl

end Builtins

end Pseudocode
