import Mathlib.Data.List.Nodup
import Mathlib.Order.Basic
import Pseudocode.Datum.Json
import Pseudocode.Proofs.Strings.Bytes
import Pseudocode.Value.Table
/-
# `Proofs.Hosting.Fields` — fields in the order of their names

Fields that are put in order ascend by their names (`sortFields_ascending`).  If their names
differ then none is lost (`sortFields_perm`), and so fields that ascend are left as they are.

Names are compared character by character.  Their bytes are in the same order
(`Text.bytes_lt`), since the first byte of a character grows with the number of its bytes, and
characters of as many bytes are written with their greatest digits first.
-/
namespace Pseudocode

/-! ## Bytes -/

namespace Text

/-- A lesser character is written by lesser bytes, whatever follows. -/
theorem utf8EncodeChar_append_lt {c d : Char} (less : c < d) (x y : List UInt8) :
    String.utf8EncodeChar c ++ x < String.utf8EncodeChar d ++ y := by
  have less : c.val.toNat < d.val.toNat := less
  have bound : d.val.toNat < 1114112 := by
    rcases d.valid with low | high
    · exact Nat.lt_trans low (by decide)
    · exact high.2
  -- The digits to the base 64, each from the rest that the one before has left.
  have fourth (n : Nat) : n / 262144 = n / 4096 / 64 := (Nat.div_div_eq_div_mul n 4096 64).symm
  have third (n : Nat) : n / 4096 = n / 64 / 64 := (Nat.div_div_eq_div_mul n 64 64).symm
  simp only [String.utf8EncodeChar, fourth, third]
  split_ifs <;>
    simp only [List.cons_append, List.nil_append, List.cons_lt_cons_iff, UInt8.lt_iff_toNat_lt,
      UInt8.toNat_ofNat', ← UInt8.toNat_inj] <;>
    omega

theorem flatMap_utf8EncodeChar_lt : ∀ {cs ds : List Char}, cs < ds →
    cs.flatMap String.utf8EncodeChar < ds.flatMap String.utf8EncodeChar
  | [], d :: ds, _ => by
    rw [List.flatMap_nil, List.flatMap_cons]
    cases first : String.utf8EncodeChar d with
    | nil => exact absurd first String.utf8EncodeChar_ne_nil
    | cons b bs => exact List.nil_lt_cons b _
  | c :: cs, d :: ds, less => by
    rw [List.flatMap_cons, List.flatMap_cons]
    rcases List.cons_lt_cons_iff.mp less with here | ⟨rfl, there⟩
    · exact utf8EncodeChar_append_lt here _ _
    · exact List.append_left_lt (flatMap_utf8EncodeChar_lt there)

/-- The bytes of texts are in the order of the texts. -/
theorem bytes_lt {a b : String} (less : a < b) : bytes a < bytes b := by
  rw [bytes_eq, bytes_eq]
  exact flatMap_utf8EncodeChar_lt (String.lt_iff.mp less)

end Text

/-! ## Fields in order -/

namespace Datum

variable {α β : Type}

theorem mem_insertField {key : String} {value : α} {fs : List (String × α)} {e : String × α}
    (he : e ∈ insertField key value fs) : e = (key, value) ∨ e ∈ fs := by
  induction fs with
  | nil => exact .inl (List.mem_singleton.mp he)
  | cons f rest ih =>
    obtain ⟨k, v⟩ := f
    rw [insertField] at he
    split at he
    · exact List.mem_cons.mp he
    · split at he
      next same =>
        subst same
        exact (List.mem_cons.mp he).imp_right (List.mem_cons_of_mem _)
      next =>
        rcases List.mem_cons.mp he with rfl | he
        · exact .inr List.mem_cons_self
        · exact (ih he).imp_right (List.mem_cons_of_mem _)

theorem sortFields_eq (fs : List (String × α)) :
    sortFields fs = fs.foldl (fun done e => insertField e.1 e.2 done) [] :=
  rfl

theorem mem_sortFields {fs : List (String × α)} {e : String × α} (he : e ∈ sortFields fs) :
    e ∈ fs := by
  have grown : ∀ (fs done : List (String × α)),
      e ∈ fs.foldl (fun done e => insertField e.1 e.2 done) done → e ∈ done ∨ e ∈ fs := by
    intro fs
    induction fs with
    | nil => exact fun done he => .inl he
    | cons f rest ih =>
      intro done he
      rcases ih _ he with he | he
      · rcases mem_insertField he with rfl | he
        · exact .inr List.mem_cons_self
        · exact .inl he
      · exact .inr (List.mem_cons_of_mem _ he)
  rw [sortFields_eq] at he
  exact (grown fs [] he).resolve_left List.not_mem_nil

/-- Putting fields in order does not look at their values. -/
theorem insertField_map (g : α → β) (key : String) (value : α) (fs : List (String × α)) :
    insertField key (g value) (fs.map fun e => (e.1, g e.2)) =
      (insertField key value fs).map fun e => (e.1, g e.2) := by
  induction fs with
  | nil => rfl
  | cons f rest ih =>
    obtain ⟨k, v⟩ := f
    simp only [List.map_cons, insertField, ih]
    split
    · rfl
    · split <;> rfl

theorem sortFields_map (g : α → β) (fs : List (String × α)) :
    sortFields (fs.map fun e => (e.1, g e.2)) = (sortFields fs).map fun e => (e.1, g e.2) := by
  have folded : ∀ (fs done : List (String × α)),
      (fs.map fun e => (e.1, g e.2)).foldl (fun done e => insertField e.1 e.2 done)
        (done.map fun e => (e.1, g e.2)) =
      (fs.foldl (fun done e => insertField e.1 e.2 done) done).map fun e => (e.1, g e.2) := by
    intro fs
    induction fs with
    | nil => exact fun _ => rfl
    | cons f rest ih =>
      intro done
      simp only [List.map_cons, List.foldl_cons]
      rw [insertField_map, ih]
  rw [sortFields_eq, sortFields_eq]
  exact folded fs []

/-- Each name is less than those that follow. -/
def Ascending (fs : List (String × α)) : Prop := fs.Pairwise fun e f => e.1 < f.1

theorem Ascending.names_nodup {fs : List (String × α)} (up : Ascending fs) :
    (fs.map Prod.fst).Nodup := by
  refine List.pairwise_map.mpr (up.imp fun {e f} less same => ?_)
  rw [same] at less
  exact String.lt_irrefl _ less

theorem ascending_insertField {key : String} {value : α} {fs : List (String × α)}
    (up : Ascending fs) : Ascending (insertField key value fs) := by
  induction fs with
  | nil => exact List.pairwise_singleton _ _
  | cons f rest ih =>
    obtain ⟨k, v⟩ := f
    obtain ⟨above, rest_up⟩ := List.pairwise_cons.mp up
    rw [insertField]
    split
    next less =>
      refine List.pairwise_cons.mpr ⟨List.forall_mem_cons.mpr ⟨less, fun e mem => ?_⟩, up⟩
      exact String.lt_trans less (above e mem)
    next not_less =>
      split
      next same =>
        subst same
        exact List.pairwise_cons.mpr ⟨above, rest_up⟩
      next other =>
        refine List.pairwise_cons.mpr ⟨fun e mem => ?_, ih rest_up⟩
        rcases mem_insertField mem with rfl | mem
        · exact Decidable.byContradiction fun not_more =>
            other (String.le_antisymm (String.not_lt.mp not_more) (String.not_lt.mp not_less))
        · exact above e mem

/-- The result of putting fields in order ascends, and a later field replaces an earlier one. -/
theorem sortFields_ascending (fs : List (String × α)) : Ascending (sortFields fs) := by
  have grown : ∀ fs done : List (String × α), Ascending done →
      Ascending (fs.foldl (fun done e => insertField e.1 e.2 done) done) := by
    intro fs
    induction fs with
    | nil => exact fun _ up => up
    | cons f rest ih => exact fun _ up => ih _ (ascending_insertField up)
  exact grown fs [] .nil

theorem insertField_perm {key : String} {value : α} {fs : List (String × α)}
    (fresh : key ∉ fs.map Prod.fst) : (insertField key value fs).Perm ((key, value) :: fs) := by
  induction fs with
  | nil => exact .refl _
  | cons f rest ih =>
    obtain ⟨k, v⟩ := f
    rw [List.map_cons, List.mem_cons, not_or] at fresh
    rw [insertField, if_neg fresh.1]
    split
    · exact .refl _
    · exact ((ih fresh.2).cons _).trans (.swap _ _ _)

/-- Fields with different names all stay. -/
theorem sortFields_perm {fs : List (String × α)} (once : (fs.map Prod.fst).Nodup) :
    (sortFields fs).Perm fs := by
  have grown : ∀ fs done : List (String × α), ((fs ++ done).map Prod.fst).Nodup →
      (fs.foldl (fun done e => insertField e.1 e.2 done) done).Perm (fs ++ done) := by
    intro fs
    induction fs with
    | nil => exact fun _ _ => .refl _
    | cons f rest ih =>
      intro done once
      have apart : f.1 ∉ done.map Prod.fst := by
        rw [List.cons_append, List.map_cons, List.nodup_cons, List.map_append] at once
        exact fun mem => once.1 (List.mem_append_right _ mem)
      have inserted := ((@insertField_perm _ f.1 f.2 done apart).append_left rest).trans
        List.perm_middle
      exact (ih _ ((inserted.map Prod.fst).nodup_iff.mpr once)).trans inserted
  have all := grown fs [] (by rwa [List.append_nil])
  rwa [List.append_nil] at all

/-- Fields that ascend are in order. -/
theorem sortFields_of_ascending {fs : List (String × α)} (up : Ascending fs) :
    sortFields fs = fs :=
  (sortFields_perm up.names_nodup).eq_of_pairwise
    (fun _ _ _ _ less less' => absurd less' (String.lt_asymm less)) (sortFields_ascending fs) up

end Datum

end Pseudocode
