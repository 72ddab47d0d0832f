import Mathlib.Data.Finset.Prod
import Mathlib.Data.Option.Basic
import Pseudocode.Value.Equality
/-
# `Proofs.Equality` — equality is bisimilarity

`Heap.equal` walks through two values with a list of the pairs of cells that it
has met; a pair that is met again counts as equal, and the list is never taken
back.  Two things are proved of it, for every heap, cyclic or not.

* It terminates.  The depth that `compareTo` is given is no part of the
  algorithm: `Compares` states the walk without it, and every walk from an empty
  list has a derivation, whose result is what `compareTo` returns.  The measure
  is the number of pairs of cells that have not been met.
* It is right.  A walk that finds no difference leaves a list whose pairs form a
  bisimulation, and no bisimulation relates two values between which a walk finds
  a difference.
-/
namespace Pseudocode

/-! ## Bisimulations -/

/-- Do two subroutines come from the same definition in the same text? -/
def Subroutine.SameDefinition (f g : Subroutine) : Prop :=
  f.origin.unit = g.origin.unit ∧ f.offset = g.offset

namespace Heap

/-- The value of a field of a record. -/
def field (h : Heap) (r : RecordRef) (name : String) : Value :=
  ((h.record r).fields.get? name).getD .none

/-- The property of an instance, unless it is a method. -/
def dataProperty? (h : Heap) (o : ObjectRef) (name : String) : Option Value :=
  (dataProps (h.object o).props).get? name

/-- Two values that are alike by themselves and whose parts are related. -/
inductive Agree (h : Heap) (R : Value → Value → Prop) : Value → Value → Prop
  | whole {a b : Value} {n : Int} : a.integral? = some n → b.integral? = some n → Agree h R a b
  | real {a b : Value} {x y : Float} : a.integral? = none ∨ b.integral? = none →
      a.number? = some x → b.number? = some y → (x == y) = true → Agree h R a b
  | string (s : String) : Agree h R (.string s) (.string s)
  | none : Agree h R .none .none
  | gap : Agree h R .gap .gap
  | array {r q : ArrayRef} : (h.array r).size = (h.array q).size →
      (∀ (i : Nat) (v w : Value), (h.array r)[i]? = some v → (h.array q)[i]? = some w → R v w) →
      Agree h R (.array r) (.array q)
  | dict {d e : DictRef} : (h.dict d).size = (h.dict e).size →
      (∀ k v, (k, v) ∈ (h.dict d).toList → ∃ w, (h.dict e).get? k = some w ∧ R v w) →
      Agree h R (.dict d) (.dict e)
  | record {r q : RecordRef} : (h.record r).type = (h.record q).type →
      (∀ f ∈ (h.recordType (h.record r).type).fields, R (h.field r f) (h.field q f)) →
      Agree h R (.record r) (.record q)
  | object {o p : ObjectRef} : (h.object o).type = (h.object p).type →
      (∀ name, Option.Rel R (h.dataProperty? o name) (h.dataProperty? p name)) →
      Agree h R (.object o) (.object p)
  | subroutine {f g : Subroutine} : f.SameDefinition g → f.scope = g.scope → f.this = g.this →
      Agree h R (.subroutine f) (.subroutine g)
  | recordType (r : RecordTypeRef) : Agree h R (.recordType r) (.recordType r)
  | classType (r : ClassRef) : Agree h R (.classType r) (.classType r)
  | builtin {f g : Builtin} : f.number = g.number → Agree h R (.builtin f) (.builtin g)
  | library (r : LibraryRef) : Agree h R (.library r) (.library r)
  | module (m n : String) (s : ScopeRef) : Agree h R (.module m s) (.module n s)

/-- Are two values references to the same array, dictionary, record or instance? -/
def SameCell (a b : Value) : Prop := ∃ c, a.cell? = some c ∧ b.cell? = some c

/-- Every related pair is one and the same cell, or agrees up to related parts. -/
def IsBisimulation (h : Heap) (R : Value → Value → Prop) : Prop :=
  ∀ a b, R a b → SameCell a b ∨ h.Agree R a b

/-! ## Parts -/

section Parts

variable {h : Heap} {R : Value → Value → Prop}

theorem mem_zip_toList {a b : Array Value} {v w : Value} :
    (v, w) ∈ a.toList.zip b.toList ↔ ∃ i : Nat, a[i]? = some v ∧ b[i]? = some w := by
  simp only [List.mem_iff_getElem?, List.getElem?_zip_eq_some, Array.getElem?_toList]

/-- Elements that all have an image, each with a property. -/
theorem exists_mapM_iff {α β : Type} {f : α → Option β} {P : β → Prop} :
    ∀ {l : List α}, (∃ ps, l.mapM f = some ps ∧ ∀ p ∈ ps, P p) ↔ ∀ x ∈ l, ∃ p, f x = some p ∧ P p
  | [] => by simp
  | x :: l => by
      simp only [List.mapM_cons, Option.bind_eq_bind, Option.bind_eq_some_iff, Option.pure_def,
        Option.some.injEq, List.forall_mem_cons, ← exists_mapM_iff (l := l)]
      constructor
      · rintro ⟨_, ⟨p, hp, ps, hps, rfl⟩, hP⟩
        exact ⟨⟨p, hp, hP p List.mem_cons_self⟩,
          ps, hps, fun q hq => hP q (List.mem_cons_of_mem p hq)⟩
      · rintro ⟨⟨p, hp, hP⟩, ps, hps, hPs⟩
        exact ⟨p :: ps, ⟨p, hp, ps, hps, rfl⟩, List.forall_mem_cons.mpr ⟨hP, hPs⟩⟩

theorem exists_array_parts {r q : ArrayRef} :
    (∃ ps, h.parts? (.array r) (.array q) = some ps ∧ ∀ p ∈ ps, R p.1 p.2) ↔
      h.Agree R (.array r) (.array q) := by
  simp only [parts?, Option.ite_none_right_eq_some, Option.some.injEq]
  constructor
  · rintro ⟨_, ⟨hs, rfl⟩, hR⟩
    exact .array hs fun i v w hv hw => hR (v, w) (mem_zip_toList.mpr ⟨i, hv, hw⟩)
  · intro ha
    cases ha with
    | whole hm => cases hm
    | real _ hx => cases hx
    | array hs hR =>
        refine ⟨_, ⟨hs, rfl⟩, fun p hp => ?_⟩
        obtain ⟨i, hv, hw⟩ := mem_zip_toList.mp hp
        exact hR i p.1 p.2 hv hw

theorem exists_dict_parts {d e : DictRef} :
    (∃ ps, h.parts? (.dict d) (.dict e) = some ps ∧ ∀ p ∈ ps, R p.1 p.2) ↔
      h.Agree R (.dict d) (.dict e) := by
  simp only [parts?, Option.ite_none_right_eq_some, and_assoc, exists_and_left, exists_mapM_iff]
  constructor
  · rintro ⟨hs, hR⟩
    refine .dict hs fun k v hkv => ?_
    obtain ⟨p, hp, hpR⟩ := hR (k, v) hkv
    obtain ⟨w, hw, rfl⟩ := Option.map_eq_some_iff.mp hp
    exact ⟨w, hw, hpR⟩
  · intro ha
    cases ha with
    | whole hm => cases hm
    | real _ hx => cases hx
    | dict hs hR =>
        refine ⟨hs, fun kv hkv => ?_⟩
        obtain ⟨w, hw, hvw⟩ := hR kv.1 kv.2 hkv
        exact ⟨(kv.2, w), by simp [hw], hvw⟩

theorem exists_record_parts {r q : RecordRef} :
    (∃ ps, h.parts? (.record r) (.record q) = some ps ∧ ∀ p ∈ ps, R p.1 p.2) ↔
      h.Agree R (.record r) (.record q) := by
  simp only [parts?, Option.ite_none_right_eq_some, and_assoc, exists_and_left, exists_mapM_iff]
  constructor
  · rintro ⟨ht, hR⟩
    refine .record ht fun f hf => ?_
    obtain ⟨p, hp, hpR⟩ := hR f hf
    cases hp
    exact hpR
  · intro ha
    cases ha with
    | whole hm => cases hm
    | real _ hx => cases hx
    | record ht hR => exact ⟨ht, fun f hf => ⟨_, rfl, hR f hf⟩⟩

/-- Related data properties are the same as: each name of one has a value in both,
and these are related. -/
theorem forall_rel_iff {t u : Table Value} :
    (∀ name, Option.Rel R (t.get? name) (u.get? name)) ↔
      t.names.all u.has ∧ u.names.all t.has ∧
        ∀ name ∈ t.names, ∃ p : Value × Value,
          (do return (← t.get? name, ← u.get? name)) = some p ∧ R p.1 p.2 := by
  simp only [List.all_eq_true, Table.mem_names_iff, Table.has, Option.isSome_iff_exists]
  constructor
  · intro hR
    refine ⟨fun name ht => ?_, fun name hu => ?_, fun name ht => ?_⟩
    · obtain ⟨v, hv⟩ := ht
      have hn := hR name
      rw [hv] at hn
      cases hw : u.get? name with
      | none => rw [hw] at hn; cases hn
      | some w => exact ⟨w, rfl⟩
    · obtain ⟨w, hw⟩ := hu
      have hn := hR name
      rw [hw] at hn
      cases hv : t.get? name with
      | none => rw [hv] at hn; cases hn
      | some v => exact ⟨v, rfl⟩
    · obtain ⟨v, hv⟩ := ht
      have hn := hR name
      rw [hv] at hn
      cases hw : u.get? name with
      | none => rw [hw] at hn; cases hn
      | some w =>
          rw [hw] at hn
          cases hn with
          | some hvw => exact ⟨(v, w), by simp [hv], hvw⟩
  · rintro ⟨-, hut, hR⟩ name
    cases hv : t.get? name with
    | none =>
        cases hw : u.get? name with
        | none => exact .none
        | some w =>
            obtain ⟨v, hv'⟩ := hut name ⟨w, hw⟩
            rw [hv] at hv'
            cases hv'
    | some v =>
        obtain ⟨p, hp, hpR⟩ := hR name ⟨v, hv⟩
        rw [hv] at hp
        cases hw : u.get? name with
        | none => rw [hw] at hp; cases hp
        | some w =>
            rw [hw] at hp
            cases hp
            exact .some hpR

theorem exists_object_parts {o p : ObjectRef} :
    (∃ ps, h.parts? (.object o) (.object p) = some ps ∧ ∀ p ∈ ps, R p.1 p.2) ↔
      h.Agree R (.object o) (.object p) := by
  simp only [parts?, Option.ite_none_right_eq_some, Bool.and_eq_true, decide_eq_true_eq, and_assoc,
    exists_and_left, exists_mapM_iff]
  constructor
  · rintro ⟨ht, hparts⟩
    exact .object ht (forall_rel_iff.mpr hparts)
  · intro ha
    cases ha with
    | whole hm => cases hm
    | real _ hx => cases hx
    | object ht hR => exact ⟨ht, forall_rel_iff.mp hR⟩

/-- The parts of two cells decide whether the cells agree. -/
theorem exists_parts_iff {a b : Value} {x y : Cell} (ha : a.cell? = some x)
    (hb : b.cell? = some y) :
    (∃ ps, h.parts? x y = some ps ∧ ∀ p ∈ ps, R p.1 p.2) ↔ h.Agree R a b := by
  cases a <;> cases ha <;> cases b <;> cases hb
  case array.refl.array.refl => exact exists_array_parts
  case dict.refl.dict.refl => exact exists_dict_parts
  case record.refl.record.refl => exact exists_record_parts
  case object.refl.object.refl => exact exists_object_parts
  -- cells of different kinds have no parts to compare
  all_goals
    constructor
    · rintro ⟨_, hps, -⟩
      cases hps
    · intro hag
      cases hag with
      | whole hm => cases hm
      | real _ hx => cases hx

theorem number?_isSome_of_integral? {a : Value} {n : Int} (ha : a.integral? = some n) :
    a.number?.isSome := by
  cases a <;> first | rfl | cases ha

theorem cell?_of_number? {a : Value} (ha : a.number?.isSome) : a.cell? = none := by
  cases a <;> first | rfl | cases ha

theorem equalLeaves_numbers {a b : Value} (ha : a.number?.isSome) (hb : b.number?.isSome) :
    equalLeaves a b = equalNumbers a b := by
  cases a <;> cases ha <;> cases b <;> cases hb <;> rfl

/-- Two numbers are equal as whole numbers if both are, and as reals otherwise. -/
theorem agree_of_equalNumbers {a b : Value} (he : equalNumbers a b = true) :
    h.Agree R a b := by
  unfold equalNumbers at he
  split at he
  · next m n hm hn =>
      rw [beq_iff_eq] at he
      exact .whole hm (he ▸ hn)
  · next hmn =>
      split at he
      · next x y hx hy =>
          refine .real ?_ hx hy he
          cases ha : a.integral? with
          | none => exact .inl rfl
          | some m =>
              cases hb : b.integral? with
              | none => exact .inr rfl
              | some n => exact absurd hb (hmn m n ha)
      · cases he

theorem equalNumbers_of_reals {a b : Value} {x y : Float}
    (hn : a.integral? = none ∨ b.integral? = none) (hx : a.number? = some x)
    (hy : b.number? = some y) (he : (x == y) = true) : equalNumbers a b = true := by
  unfold equalNumbers
  split
  · next m n hm hk => rcases hn with hn | hn <;> simp_all
  · simpa [hx, hy] using he

/-- Where two values have no parts, nothing is left to the relation. -/
theorem equalLeaves_iff {a b : Value} (ha : a.cell? = none) (hb : b.cell? = none) :
    equalLeaves a b = true ↔ h.Agree R a b := by
  constructor
  · intro he
    unfold equalLeaves at he
    split at he <;> try simp only [beq_iff_eq, Bool.and_eq_true] at he
    · exact .none
    · exact .gap
    · exact he ▸ .string _
    · exact he ▸ .recordType _
    · exact he ▸ .classType _
    · exact .builtin he
    · exact he ▸ .library _
    · exact he ▸ .module _ _ _
    · exact .subroutine ⟨he.1.1.1, he.1.1.2⟩ he.1.2 he.2
    · exact agree_of_equalNumbers he.2
  · intro hag
    cases hag with
    | whole hm hn =>
        rw [equalLeaves_numbers (number?_isSome_of_integral? hm) (number?_isSome_of_integral? hn)]
        simp [equalNumbers, hm, hn]
    | real hn hx hy hxy =>
        rw [equalLeaves_numbers (by simp [hx]) (by simp [hy])]
        exact equalNumbers_of_reals hn hx hy hxy
    | subroutine hd hs ht => simp [equalLeaves, hd.1, hd.2, hs, ht]
    | builtin hn => simp [equalLeaves, hn]
    | string | none | gap | recordType | classType | library | module => simp [equalLeaves]
    | array | dict | record | object => cases ha

/-- Values that agree have parts on both sides or on neither. -/
theorem Agree.cell?_isSome {a b : Value} (hag : h.Agree R a b) :
    a.cell?.isSome = b.cell?.isSome := by
  cases hag with
  | whole hm hn =>
      rw [cell?_of_number? (number?_isSome_of_integral? hm),
        cell?_of_number? (number?_isSome_of_integral? hn)]
  | real _ hx hy =>
      rw [cell?_of_number? (Option.isSome_of_eq_some hx),
        cell?_of_number? (Option.isSome_of_eq_some hy)]
  | _ => rfl

end Parts

/-! ## The walk without a depth -/

mutual

/-- `Compares h a b seen result`: comparing `a` with `b` when the pairs `seen` have been
met ends with `result`, the list of pairs met by then or `none` for a difference. -/
inductive Compares (h : Heap) : Value → Value → Seen → Option Seen → Prop
  | known {a b : Value} {x y : Cell} {seen : Seen} : a.cell? = some x → b.cell? = some y →
      x = y ∨ (x, y) ∈ seen → Compares h a b seen (some seen)
  | unlike {a b : Value} {x y : Cell} {seen : Seen} : a.cell? = some x → b.cell? = some y →
      ¬ (x = y ∨ (x, y) ∈ seen) → h.parts? x y = none → Compares h a b seen none
  | parts {a b : Value} {x y : Cell} {seen : Seen} {ps : List (Value × Value)}
      {result : Option Seen} : a.cell? = some x → b.cell? = some y →
      ¬ (x = y ∨ (x, y) ∈ seen) → h.parts? x y = some ps →
      ComparesAll h ps ((x, y) :: seen) result → Compares h a b seen result
  | leaves {a b : Value} {seen : Seen} : a.cell? = none → b.cell? = none →
      Compares h a b seen (if equalLeaves a b then some seen else none)
  | mixed {a b : Value} {seen : Seen} : a.cell?.isSome ≠ b.cell?.isSome →
      Compares h a b seen none

/-- The pairs of a list are compared in order, up to the first difference. -/
inductive ComparesAll (h : Heap) : List (Value × Value) → Seen → Option Seen → Prop
  | nil {seen : Seen} : ComparesAll h [] seen (some seen)
  | differ {v w : Value} {rest : List (Value × Value)} {seen : Seen} :
      Compares h v w seen none → ComparesAll h ((v, w) :: rest) seen none
  | cons {v w : Value} {rest : List (Value × Value)} {seen seen' : Seen}
      {result : Option Seen} : Compares h v w seen (some seen') →
      ComparesAll h rest seen' result → ComparesAll h ((v, w) :: rest) seen result

end

section Walk

variable {h : Heap}

mutual

/-- Nothing that has been met is forgotten. -/
theorem Compares.subset {a b : Value} {seen seen' : Seen} {result : Option Seen} :
    h.Compares a b seen result → result = some seen' → seen ⊆ seen'
  | .known _ _ _, hr => by cases hr; exact fun _ hp => hp
  | .unlike _ _ _ _, hr => by cases hr
  | .parts _ _ _ _ hall, hr => fun _ hp => hall.subset hr (List.mem_cons_of_mem _ hp)
  | .leaves _ _, hr => by
      rw [Option.ite_none_right_eq_some] at hr
      cases hr.2
      exact fun _ hp => hp
  | .mixed _, hr => by cases hr

theorem ComparesAll.subset {ps : List (Value × Value)} {seen seen' : Seen}
    {result : Option Seen} : h.ComparesAll ps seen result → result = some seen' → seen ⊆ seen'
  | .nil, hr => by cases hr; exact fun _ hp => hp
  | .differ _, hr => by cases hr
  | .cons hc hall, hr => fun _ hp => hall.subset hr (hc.subset rfl hp)

end

end Walk

/-! ## Termination -/

/-- The cells that equality looks into. -/
def cells (h : Heap) : List Cell :=
  (List.range h.arrays.size).map (fun i => Cell.array ⟨i⟩)
    ++ (List.range h.dicts.size).map (fun i => Cell.dict ⟨i⟩)
    ++ (List.range h.records.size).map (fun i => Cell.record ⟨i⟩)
    ++ (List.range h.objects.size).map (fun i => Cell.object ⟨i⟩)

theorem length_cells (h : Heap) : h.cells.length = h.comparables := by
  simp [cells, comparables, Nat.add_assoc]

/-- The number of pairs of cells that have not been met. -/
def unmet (h : Heap) (seen : Seen) : Nat :=
  (h.cells.toFinset ×ˢ h.cells.toFinset \ seen.toFinset).card

section Termination

variable {h : Heap} {seen seen' : Seen}

theorem unmet_le (h : Heap) (seen : Seen) : h.unmet seen ≤ h.comparables * h.comparables := by
  have hc : h.cells.toFinset.card ≤ h.comparables :=
    h.length_cells ▸ List.toFinset_card_le h.cells
  calc h.unmet seen
      ≤ (h.cells.toFinset ×ˢ h.cells.toFinset).card := Finset.card_le_card Finset.sdiff_subset
    _ = h.cells.toFinset.card * h.cells.toFinset.card := Finset.card_product _ _
    _ ≤ h.comparables * h.comparables := Nat.mul_le_mul hc hc

theorem unmet_mono (hs : seen ⊆ seen') : h.unmet seen' ≤ h.unmet seen := by
  apply Finset.card_le_card
  intro p hp
  simp only [Finset.mem_sdiff, List.mem_toFinset] at hp ⊢
  exact ⟨hp.1, fun hmem => hp.2 (hs hmem)⟩

theorem unmet_cons_lt {x y : Cell} (hx : x ∈ h.cells) (hy : y ∈ h.cells) (hn : (x, y) ∉ seen) :
    h.unmet ((x, y) :: seen) < h.unmet seen := by
  apply Finset.card_lt_card
  refine Finset.ssubset_iff_of_subset ?_ |>.mpr ⟨(x, y), ?_, ?_⟩
  · intro p hp
    simp only [Finset.mem_sdiff, List.mem_toFinset, List.mem_cons, not_or] at hp ⊢
    exact ⟨hp.1, hp.2.2⟩
  · simp [hx, hy, hn]
  · simp

theorem array_outside {r : ArrayRef} (hr : Cell.array r ∉ h.cells) : h.array r = #[] := by
  have hsize : h.arrays.size ≤ r.index :=
    Nat.le_of_not_lt fun hlt => hr (by simpa [cells] using ⟨r.index, hlt, rfl⟩)
  simp [array, slots, Array.getD, Nat.not_lt.mpr hsize, Slots.empty]

theorem dict_outside {d : DictRef} (hd : Cell.dict d ∉ h.cells) : h.dict d = .empty := by
  have hsize : h.dicts.size ≤ d.index :=
    Nat.le_of_not_lt fun hlt => hd (by simpa [cells] using ⟨d.index, hlt, rfl⟩)
  simp [dict, Array.getD, Nat.not_lt.mpr hsize]

theorem record_outside {r : RecordRef} (hr : Cell.record r ∉ h.cells) : h.record r = default := by
  have hsize : h.records.size ≤ r.index :=
    Nat.le_of_not_lt fun hlt => hr (by simpa [cells] using ⟨r.index, hlt, rfl⟩)
  simp [record, Array.getD, Nat.not_lt.mpr hsize]

theorem object_outside {o : ObjectRef} (ho : Cell.object o ∉ h.cells) : h.object o = default := by
  have hsize : h.objects.size ≤ o.index :=
    Nat.le_of_not_lt fun hlt => ho (by simpa [cells] using ⟨o.index, hlt, rfl⟩)
  simp [object, Array.getD, Nat.not_lt.mpr hsize]

/-- Where one of two cells is not in the heap, the parts of one of them are no cells. -/
theorem leaf_of_outside {x y : Cell} {ps : List (Value × Value)}
    (hxy : x ∉ h.cells ∨ y ∉ h.cells) (hps : h.parts? x y = some ps) :
    ∀ p ∈ ps, p.1.cell? = none ∨ p.2.cell? = none := by
  cases x <;> cases y <;> first | cases hps | skip
  case array.array r q =>
      simp only [parts?, Option.ite_none_right_eq_some, Option.some.injEq] at hps
      obtain ⟨hs, rfl⟩ := hps
      rcases hxy with hr | hq
      · simp [array_outside hr]
      · simp [array_outside hq]
  case dict.dict d e =>
      simp only [parts?, Option.ite_none_right_eq_some] at hps
      obtain ⟨hs, hps⟩ := hps
      have hempty : (h.dict d).toList = [] := by
        rcases hxy with hd | he
        · simp [dict_outside hd, Dictionary.toList, Dictionary.keys, Dictionary.empty, Slots.empty]
        · have hsize : (h.dict d).size = 0 := by rw [hs, dict_outside he]; rfl
          have hkeys : (h.dict d).keys = #[] := by
            apply Array.eq_empty_of_size_eq_zero
            simpa [Dictionary.keys, Dictionary.size] using hsize
          simp [Dictionary.toList, hkeys]
      rw [hempty] at hps
      cases hps
      simp
  case record.record r q =>
      simp only [parts?, Option.ite_none_right_eq_some] at hps
      have hfields : ∀ f, (h.field r f).cell? = none ∨ (h.field q f).cell? = none := by
        intro f
        rcases hxy with hr | hq
        · exact .inl (by rw [field, record_outside hr]; rfl)
        · exact .inr (by rw [field, record_outside hq]; rfl)
      obtain ⟨qs, hqs, hleaf⟩ := exists_mapM_iff
        (l := (h.recordType (h.record r).type).fields)
        (f := fun f => some (h.field r f, h.field q f))
        (P := fun p => p.1.cell? = none ∨ p.2.cell? = none) |>.mpr
        fun f _ => ⟨_, rfl, hfields f⟩
      cases hqs.symm.trans hps.2
      exact hleaf
  case object.object o p =>
      simp only [parts?, Option.ite_none_right_eq_some, Bool.and_eq_true] at hps
      obtain ⟨⟨⟨-, hop⟩, -⟩, hps⟩ := hps
      have hempty : (dataProps (h.object o).props).names = [] := by
        rcases hxy with ho | hp
        · rw [object_outside ho]; rfl
        · rw [object_outside hp] at hop
          refine List.eq_nil_iff_forall_not_mem.mpr fun name hname => ?_
          cases List.all_eq_true.mp hop name hname
      rw [hempty] at hps
      cases hps
      simp

/-- A comparison that need not go deeper. -/
theorem compares_leaf {a b : Value} {n : Nat} (hab : a.cell? = none ∨ b.cell? = none) :
    h.Compares a b seen (h.compareTo (n + 1) a b seen) := by
  simp only [compareTo]
  split
  · next x y hx hy => simp [hx, hy] at hab
  · next ha hb => exact .leaves ha hb
  · next hn _ => exact .mixed (by cases ha : a.cell? <;> cases hb : b.cell? <;> simp_all)

/-- Comparisons of pairs from a certain list of met pairs on make up that of a list. -/
theorem comparesAll_foldlM {n : Nat} :
    ∀ {ps : List (Value × Value)} {seen' : Seen}, seen ⊆ seen' →
      (∀ p ∈ ps, ∀ s, seen ⊆ s → h.Compares p.1 p.2 s (h.compareTo n p.1 p.2 s)) →
      h.ComparesAll ps seen' (ps.foldlM (fun s (v, w) => h.compareTo n v w s) seen')
  | [], _, _, _ => .nil
  | (v, w) :: rest, seen', hs, hps => by
      have hc := hps (v, w) List.mem_cons_self seen' hs
      simp only [List.foldlM_cons]
      cases hr : h.compareTo n v w seen' with
      | none => exact .differ (hr ▸ hc)
      | some s =>
          rw [hr] at hc
          exact .cons hc (comparesAll_foldlM (fun _ hp => hc.subset rfl (hs hp))
            fun p hp => hps p (List.mem_cons_of_mem _ hp))

/-- With room for every pair that has not been met, the depth is never used up.  Each descent
meets a new pair of cells of the heap, or goes into a cell that is not there and finds nothing
to descend into. -/
theorem compares_compareTo :
    ∀ {n : Nat} {a b : Value} {seen : Seen}, h.unmet seen + 2 ≤ n →
      h.Compares a b seen (h.compareTo n a b seen)
  | 0, _, _, _, hn => absurd hn (by omega)
  | n + 1, a, b, seen, hn => by
      cases ha : a.cell? with
      | none => exact compares_leaf (.inl ha)
      | some x =>
          cases hb : b.cell? with
          | none => exact compares_leaf (.inr hb)
          | some y =>
              simp only [compareTo, ha, hb]
              by_cases hk : x = y ∨ (x, y) ∈ seen
              · rw [if_pos (by simpa using hk)]
                exact .known ha hb hk
              · rw [if_neg (by simpa using hk)]
                cases hps : h.parts? x y with
                | none => exact .unlike ha hb hk hps
                | some ps =>
                    refine .parts ha hb hk hps (comparesAll_foldlM (fun _ hp => hp) ?_)
                    intro p hp s hs
                    by_cases hxy : x ∈ h.cells ∧ y ∈ h.cells
                    · have hlt := unmet_cons_lt hxy.1 hxy.2 (fun hm => hk (.inr hm))
                      have hle := unmet_mono (h := h) hs
                      exact compares_compareTo (by omega)
                    · obtain ⟨m, rfl⟩ : ∃ m, n = m + 1 := ⟨n - 1, by omega⟩
                      exact compares_leaf (leaf_of_outside (not_and_or.mp hxy) hps p hp)

end Termination

/-! ## Correctness -/

/-- The pairs of values that a list of met pairs counts as equal. -/
def Taken (seen : Seen) (a b : Value) : Prop :=
  SameCell a b ∨ (∃ x y, a.cell? = some x ∧ b.cell? = some y ∧ (x, y) ∈ seen) ∨
    (a.cell? = none ∧ b.cell? = none ∧ equalLeaves a b = true)

theorem Taken.mono {seen seen' : Seen} {a b : Value} (hs : seen ⊆ seen') :
    Taken seen a b → Taken seen' a b
  | .inl hc => .inl hc
  | .inr (.inl ⟨x, y, hx, hy, hm⟩) => .inr (.inl ⟨x, y, hx, hy, hs hm⟩)
  | .inr (.inr hl) => .inr (.inr hl)

/-- The parts of two cells are all counted as equal. -/
def Explained (h : Heap) (seen : Seen) (x y : Cell) : Prop :=
  ∃ ps, h.parts? x y = some ps ∧ ∀ p ∈ ps, Taken seen p.1 p.2

theorem Explained.mono {h : Heap} {seen seen' : Seen} {x y : Cell} (hs : seen ⊆ seen') :
    h.Explained seen x y → h.Explained seen' x y
  | ⟨ps, hps, ht⟩ => ⟨ps, hps, fun p hp => (ht p hp).mono hs⟩

section Correctness

variable {h : Heap}

-- A pair is noted before its parts are looked at, so it is explained only when the walk that
-- noted it is over; what is carried along is that every pair noted since then is explained.
mutual

theorem Compares.sound {a b : Value} {seen seen' : Seen} {result : Option Seen} :
    h.Compares a b seen result → result = some seen' →
      Taken seen' a b ∧ ∀ x y, (x, y) ∈ seen' → (x, y) ∈ seen ∨ h.Explained seen' x y
  | .known hx hy hk, hr => by
      cases hr
      refine ⟨?_, fun _ _ hm => .inl hm⟩
      rcases hk with rfl | hm
      · exact .inl ⟨_, hx, hy⟩
      · exact .inr (.inl ⟨_, _, hx, hy, hm⟩)
  | .unlike _ _ _ _, hr => by cases hr
  | .parts hx hy _ hps hall, hr => by
      obtain ⟨htaken, hnew⟩ := hall.sound hr
      refine ⟨.inr (.inl ⟨_, _, hx, hy, hall.subset hr List.mem_cons_self⟩), fun x' y' hm => ?_⟩
      rcases hnew x' y' hm with hm' | hex
      · rcases List.mem_cons.mp hm' with heq | hm''
        · cases heq
          exact .inr ⟨_, hps, htaken⟩
        · exact .inl hm''
      · exact .inr hex
  | .leaves ha hb, hr => by
      rw [Option.ite_none_right_eq_some] at hr
      obtain ⟨he, heq⟩ := hr
      cases heq
      exact ⟨.inr (.inr ⟨ha, hb, he⟩), fun _ _ hm => .inl hm⟩
  | .mixed _, hr => by cases hr

theorem ComparesAll.sound {ps : List (Value × Value)} {seen seen' : Seen}
    {result : Option Seen} : h.ComparesAll ps seen result → result = some seen' →
      (∀ p ∈ ps, Taken seen' p.1 p.2) ∧
        ∀ x y, (x, y) ∈ seen' → (x, y) ∈ seen ∨ h.Explained seen' x y
  | .nil, hr => by
      cases hr
      exact ⟨fun _ hp => absurd hp List.not_mem_nil, fun _ _ hm => .inl hm⟩
  | .differ _, hr => by cases hr
  | .cons hc hall, hr => by
      obtain ⟨hfirst, hnew⟩ := hc.sound rfl
      obtain ⟨hrest, hnew'⟩ := hall.sound hr
      have hsub := hall.subset hr
      refine ⟨List.forall_mem_cons.mpr ⟨hfirst.mono hsub, hrest⟩, fun x y hm => ?_⟩
      rcases hnew' x y hm with hm' | hex
      · rcases hnew x y hm' with hm'' | hex
        · exact .inl hm''
        · exact .inr (hex.mono hsub)
      · exact .inr hex

end

/-- The pairs met by a walk that finds no difference form a bisimulation. -/
theorem isBisimulation_taken {seen : Seen} (hs : ∀ x y, (x, y) ∈ seen → h.Explained seen x y) :
    h.IsBisimulation (Taken seen) := by
  rintro a b (hc | ⟨x, y, hx, hy, hm⟩ | ⟨ha, hb, he⟩)
  · exact .inl hc
  · exact .inr ((exists_parts_iff hx hy).mp (hs x y hm))
  · exact .inr ((equalLeaves_iff ha hb).mp he)

variable {R : Value → Value → Prop}

mutual

/-- A walk finds no difference between two values that a bisimulation relates. -/
theorem Compares.complete (hR : h.IsBisimulation R) {a b : Value} {seen : Seen}
    {result : Option Seen} : h.Compares a b seen result → R a b → result.isSome
  | .known _ _ _, _ => rfl
  | .unlike hx hy hk hps, hab => by
      rcases hR _ _ hab with ⟨c, hc, hc'⟩ | hag
      · cases hc.symm.trans hx
        cases hc'.symm.trans hy
        exact absurd (.inl rfl) hk
      · obtain ⟨ps, hps', -⟩ := (exists_parts_iff hx hy).mpr hag
        cases hps'.symm.trans hps
  | .parts hx hy hk hps hall, hab => by
      rcases hR _ _ hab with ⟨c, hc, hc'⟩ | hag
      · cases hc.symm.trans hx
        cases hc'.symm.trans hy
        exact absurd (.inl rfl) hk
      · obtain ⟨ps, hps', hRs⟩ := (exists_parts_iff hx hy).mpr hag
        cases hps'.symm.trans hps
        exact hall.complete hR hRs
  | .leaves ha hb, hab => by
      rcases hR _ _ hab with ⟨c, hc, -⟩ | hag
      · cases hc.symm.trans ha
      · rw [if_pos ((equalLeaves_iff ha hb).mpr hag)]
        rfl
  | .mixed hm, hab => by
      rcases hR _ _ hab with ⟨c, hc, hc'⟩ | hag
      · exact absurd (by rw [hc, hc']) hm
      · exact absurd hag.cell?_isSome hm

theorem ComparesAll.complete (hR : h.IsBisimulation R) {ps : List (Value × Value)}
    {seen : Seen} {result : Option Seen} :
    h.ComparesAll ps seen result → (∀ p ∈ ps, R p.1 p.2) → result.isSome
  | .nil, _ => rfl
  | .differ hc, hps => hc.complete hR (hps _ List.mem_cons_self)
  | .cons _ hall, hps => hall.complete hR fun p hp => hps p (List.mem_cons_of_mem _ hp)

end

theorem Compares.isSome_iff {a b : Value} {result : Option Seen}
    (hc : h.Compares a b [] result) :
    result.isSome ↔ ∃ R, h.IsBisimulation R ∧ R a b := by
  constructor
  · intro hr
    obtain ⟨seen, rfl⟩ := Option.isSome_iff_exists.mp hr
    obtain ⟨htaken, hnew⟩ := hc.sound rfl
    refine ⟨Taken seen, isBisimulation_taken fun x y hm => ?_, htaken⟩
    exact (hnew x y hm).resolve_left List.not_mem_nil
  · rintro ⟨R, hR, hab⟩
    exact hc.complete hR hab

end Correctness

/-- Comparing two values terminates, and they are equal exactly if a bisimulation relates
them. -/
theorem equal_terminates_and_iff_bisimilar (h : Heap) (a b : Value) :
    (∃ result, h.Compares a b [] result) ∧
      (∀ result, h.Compares a b [] result → h.equal a b = result.isSome) ∧
      (h.equal a b = true ↔ ∃ R, h.IsBisimulation R ∧ R a b) := by
  have hc : h.Compares a b [] (h.compareTo (h.comparables * h.comparables + 2) a b []) :=
    compares_compareTo (Nat.add_le_add_right (h.unmet_le []) 2)
  refine ⟨⟨_, hc⟩, fun result hr => ?_, hc.isSome_iff⟩
  exact Bool.eq_iff_iff.mpr (hc.isSome_iff.trans hr.isSome_iff.symm)

end Heap

/-! ## What every comparison has in common

Two values are equal if some bisimulation relates them (`equal_iff_bisimilar`).  To show that
values are equal is therefore to name a relation and to look at one level of the values.

On leaves the level is decided by numbers, and there by the comparison of reals: it is
symmetric, and it relates every real to itself except for the one that is not a number. -/

/-! ## Reals -/

section

open Float.Model

theorem compared_iff {e f : Int} {m n : Nat} :
    (compare e f).then (compare m n) = .eq ↔ e = f ∧ m = n := by
  rw [Ordering.then_eq_eq, Int.compare_eq_eq, Nat.compare_eq_eq]

-- Finite reals are equal when they have the same sign, the same exponent and the same mantissa.
-- What else is equal shows in the signs alone, from either side.
theorem beq_unpacked_symm {x y : UnpackedFloat} (same : x.beq y = true) : y.beq x = true := by
  cases x with
  | finite s m e _ =>
    cases y with
    | finite t n f _ =>
      have equal := beq_iff_eq.mp same
      cases s <;> cases t
      case negative.negative =>
        obtain ⟨rfl, rfl⟩ := compared_iff.mp (Ordering.swap_eq_eq.mp (Option.some.inj equal))
        exact same
      case positive.positive =>
        obtain ⟨rfl, rfl⟩ := compared_iff.mp (Option.some.inj equal)
        exact same
      all_goals exact same
    | infinity t => cases s <;> cases t <;> exact same
    | zero _ | notANumber => cases s <;> exact same
  | infinity s =>
    cases y with
    | infinity t | finite t => cases s <;> cases t <;> exact same
    | zero _ | notANumber => cases s <;> exact same
  | zero s =>
    cases y with
    | infinity t | finite t => cases t <;> exact same
    | zero _ | notANumber => exact same
  | notANumber => exact absurd same Bool.false_ne_true

theorem beq_unpacked_self {x : UnpackedFloat} (number : x.isNaN = false) : x.beq x = true := by
  cases x with
  | infinity s => cases s <;> rfl
  | notANumber => exact absurd number Bool.true_eq_false.mp
  | zero s => rfl
  | finite s m e _ =>
    have same : (compare e e).then (compare m m) = .eq := compared_iff.mpr ⟨rfl, rfl⟩
    cases s with
    | negative => exact beq_iff_eq.mpr (congrArg some (Ordering.swap_eq_eq.mpr same))
    | positive => exact beq_iff_eq.mpr (congrArg some same)

end

theorem beq_real_symm {x y : Float} (same : (x == y) = true) : (y == x) = true :=
  beq_unpacked_symm same

theorem beq_real_self {x : Float} (number : x.isNaN = false) : (x == x) = true :=
  beq_unpacked_self number

/-- Is the value the real that is not a number? -/
def Value.isNaN : Value → Bool
  | .real x => x.isNaN
  | _ => false

/-- A key equals something, itself at least, unless it is not a number. -/
theorem Value.keyForm_ne_unequal {v : Value} (number : v.isNaN = false) :
    v.keyForm ≠ .unequal := by
  cases v with
  | real x =>
    have hx : x.isNaN = false := number
    rw [Value.keyForm]
    split
    · exact nofun
    · rw [if_neg (by rw [hx]; exact Bool.false_ne_true)]
      exact nofun
  | _ => exact nofun

namespace Heap

variable {h : Heap} {R : Value → Value → Prop} {a b : Value}

/-- Two values are equal if a bisimulation relates them. -/
theorem equal_iff_bisimilar : h.equal a b = true ↔ ∃ R, h.IsBisimulation R ∧ R a b :=
  (compares_compareTo (Nat.add_le_add_right (h.unmet_le []) 2)).isSome_iff

/-- A value without parts agrees with itself, unless it is not a number. -/
theorem agree_self (number : a.isNaN = false) (leaf : a.cell? = none) : h.Agree R a a := by
  cases a with
  | none => exact .none
  | gap => exact .gap
  | bool b => exact .whole rfl rfl
  | int n => exact .whole rfl rfl
  | real x => exact .real (.inl rfl) rfl rfl (beq_real_self number)
  | string s => exact .string s
  | array r => cases leaf
  | dict r => cases leaf
  | recordType r => exact .recordType r
  | record r => cases leaf
  | classType r => exact .classType r
  | object r => cases leaf
  | subroutine s => exact .subroutine ⟨rfl, rfl⟩ rfl rfl
  | builtin f => exact .builtin rfl
  | library r => exact .library r
  | module name scope => exact .module name name scope

/-- A value is the same cell as itself, or agrees with itself, unless it is not a number. -/
theorem self_or_agree (number : a.isNaN = false) : SameCell a a ∨ h.Agree R a a := by
  cases leaf : a.cell? with
  | none => exact .inr (agree_self number leaf)
  | some c => exact .inl ⟨c, leaf, leaf⟩

end Heap

end Pseudocode
