import Mathlib.Data.List.Basic
import Pseudocode.Proofs.Ownership.Store
/-
# `Proofs.Dictionary.Entries` — a dictionary is the list of its entries

An entry is a key in its first form together with a value.  What stands under a key is
looked up from the front, by the normal forms of the keys, and `Entries` says for each
operation what it does to the list.

A dictionary finds its entries through an index.  It is `Sound` if the index gives every
key that equals itself its place and knows no other key.  Then the index finds what a
search from the front finds (`Sound.position?_eq`), so that every operation does to the
list of entries what `Entries` says, and leaves the dictionary sound.
-/
namespace Pseudocode

/-- Do two keys address the same entry?  A key that equals nothing addresses none. -/
def Value.meets (a b : Value) : Bool :=
  match a.keyForm, b.keyForm with
  | .found k, .found l => k = l
  | _, _ => false

theorem Value.meets_iff {a b : Value} :
    a.meets b = true ↔ ∃ k, a.keyForm = .found k ∧ b.keyForm = .found k := by
  rw [meets]
  split
  next k l hk hl => simp [hk, hl, eq_comm]
  next other =>
    constructor
    · intro h
      cases h
    · rintro ⟨k, hk, hl⟩
      exact absurd hl (other k k hk)

/-- A key in normal form addresses the entries whose keys have that form. -/
theorem Value.meets_of_found {a b : Value} {k : Key} (hb : b.keyForm = .found k) :
    a.meets b = true ↔ a.keyForm = .found k := by
  rw [meets_iff]
  constructor
  · rintro ⟨l, ha, hl⟩
    rw [ha, ← hl, hb]
  · intro ha
    exact ⟨k, ha, hb⟩

/-! ## Lists of entries -/

/-- The entries of a dictionary in order. -/
abbrev Entries := List (Value × Value)

namespace Entries

/-- The place of the entry under a key. -/
def place? (es : Entries) (key : Value) : Option Nat := es.findIdx? fun e => e.1.meets key

/-- The value under a key. -/
def get? (es : Entries) (key : Value) : Option Value :=
  (es.find? fun e => e.1.meets key).map Prod.snd

/-- Replaces the value under a key in its place, or adds an entry at the end; `none` if the
key cannot be one. -/
def set? (es : Entries) (key value : Value) : Option Entries :=
  if key.keyForm = .unhashable then none
  else
    match es.place? key with
    | some i => some (es.modify i fun e => (e.1, value))
    | none => some (es ++ [(key, value)])

/-- Removes the entry under a key; `none` if there is none. -/
def erase? (es : Entries) (key : Value) : Option Entries :=
  (es.place? key).map es.eraseIdx

/-- Nothing stands under a key that equals nothing, and nothing under what is no key. -/
theorem place?_of_not_found {es : Entries} {key : Value} (lost : ∀ k, key.keyForm ≠ .found k) :
    es.place? key = none := by
  rw [place?, List.findIdx?_eq_none_iff]
  intro e _
  rw [← Bool.not_eq_true, Value.meets_iff]
  rintro ⟨k, -, hk⟩
  exact lost k hk

theorem get?_eq_place? (es : Entries) (key : Value) :
    es.get? key = (es.place? key).bind fun i => es[i]?.map Prod.snd := by
  rw [get?, place?, List.find?_eq_bind_findIdx?_getElem?, Option.map_bind]
  rfl

end Entries

/-- Pairs of which one has another second part. -/
theorem zip_set {α β : Type} (v : β) : ∀ (ks : List α) (vs : List β) (i : Nat),
    ks.zip (vs.set i v) = (ks.zip vs).modify i fun e => (e.1, v)
  | [], _, i => by simp
  | _ :: _, [], i => by simp
  | _ :: _, _ :: _, 0 => rfl
  | k :: ks, w :: vs, i + 1 => congrArg ((k, w) :: ·) (zip_set v ks vs i)

/-- Pairs without one of them. -/
theorem zip_eraseIdx {α β : Type} : ∀ (ks : List α) (vs : List β) (i : Nat),
    (ks.eraseIdx i).zip (vs.eraseIdx i) = (ks.zip vs).eraseIdx i
  | [], _, i => by simp
  | _ :: _, [], i => by simp
  | _ :: _, _ :: _, 0 => rfl
  | k :: ks, v :: vs, i + 1 => congrArg ((k, v) :: ·) (zip_eraseIdx ks vs i)

/-! ## Sound dictionaries -/

namespace Dictionary

/-- The parts of a dictionary fit together. -/
structure Sound (d : Dictionary) : Prop where
  /-- There are as many values as keys. -/
  even : d.values.size = d.keys.size
  /-- The index gives the place of every key that equals itself, and knows no others. -/
  placed : ∀ k i, d.index[k]? = some i ↔ ∃ a : Value, d.keys[i]? = some a ∧ a.keyForm = .found k

/-- The entries of a dictionary. -/
def entries (d : Dictionary) : Entries := d.toList

variable {d : Dictionary}

theorem sound_empty : empty.Sound where
  even := rfl
  placed k i := by simp [empty, keys, Slots.empty]

/-! ## What the changes do to the parts -/

theorem entries_replace (d : Dictionary) (i : Nat) (value : Value) :
    ({ d with values := d.values.setIfInBounds i value } : Dictionary).entries =
      d.entries.modify i fun e => (e.1, value) := by
  rw [entries, toList, Array.toList_setIfInBounds, zip_set]
  rfl

theorem getElem?_keys_push (d : Dictionary) {key value a : Value} {i : Nat} :
    (d.push key value).keys[i]? = some a ↔
      d.keys[i]? = some a ∨ i = d.keys.size ∧ key = a := by
  rw [keys, push, Slots.toArray_push, ← keys, Array.getElem?_push]
  split
  next last =>
    rw [last, Array.getElem?_eq_none (Nat.le_refl _)]
    simp
  next inner => simp [inner]

/-- The index with one more place set. -/
def learn (index : Std.HashMap Key Nat) (e : Value × Nat) : Std.HashMap Key Nat :=
  match e.1.keyForm with
  | .found k => index.insert k e.2
  | _ => index

theorem getElem?_learn (index : Std.HashMap Key Nat) (e : Value × Nat) (k : Key) :
    (learn index e)[k]? = if e.1.keyForm = .found k then some e.2 else index[k]? := by
  rw [learn]
  cases form : e.1.keyForm with
  | found l => simp only [Std.HashMap.getElem?_insert, beq_iff_eq, KeyForm.found.injEq]
  | _ => simp

/-- What the index says of a key after some places were set: the place that was set for it,
and else what it said before. -/
theorem getElem?_learned (k : Key) (p : Nat) : ∀ (es : List (Value × Nat))
    (index : Std.HashMap Key Nat),
    (∀ e ∈ es, ∀ f ∈ es, e.1.keyForm = .found k → f.1.keyForm = .found k → e.2 = f.2) →
    ((es.foldl learn index)[k]? = some p ↔ (∃ e ∈ es, e.1.keyForm = .found k ∧ e.2 = p) ∨
      (∀ e ∈ es, e.1.keyForm ≠ .found k) ∧ index[k]? = some p)
  | [], index, _ => by simp
  | e :: es, index, once => by
    have later := getElem?_learned k p es (learn index e) fun f hf g hg =>
      once f (List.mem_cons_of_mem e hf) g (List.mem_cons_of_mem e hg)
    rw [List.foldl_cons, later, getElem?_learn]
    by_cases form : e.1.keyForm = .found k
    · rw [if_pos form]
      constructor
      · rintro (⟨f, hf, hk, hp⟩ | ⟨-, hp⟩)
        · exact .inl ⟨f, List.mem_cons_of_mem e hf, hk, hp⟩
        · exact .inl ⟨e, List.mem_cons_self, form, Option.some.inj hp⟩
      · rintro (⟨f, hf, hk, hp⟩ | ⟨none, -⟩)
        · by_cases again : ∃ g ∈ es, g.1.keyForm = .found k
          · obtain ⟨g, hg, hgk⟩ := again
            have same := once g (List.mem_cons_of_mem e hg) f hf hgk hk
            exact .inl ⟨g, hg, hgk, same.trans hp⟩
          · refine .inr ⟨fun g hg hgk => again ⟨g, hg, hgk⟩, congrArg some ?_⟩
            exact (once e List.mem_cons_self f hf form hk).trans hp
        · exact absurd form (none e List.mem_cons_self)
    · rw [if_neg form]
      simp only [List.mem_cons, exists_eq_or_imp, forall_eq_or_imp, form, false_and, false_or,
        ne_eq, not_false_eq_true, true_and]

theorem mem_drop_zipIdx {ks : List Value} {i p : Nat} {a : Value} :
    (a, p) ∈ ks.zipIdx.drop i ↔ i ≤ p ∧ ks[p]? = some a := by
  simp only [List.mem_iff_getElem?, List.getElem?_drop, List.getElem?_zipIdx,
    Option.map_eq_some_iff, Prod.mk.injEq]
  constructor
  · rintro ⟨n, b, hb, rfl, rfl⟩
    rw [Nat.zero_add]
    exact ⟨Nat.le_add_right i n, hb⟩
  · rintro ⟨above, ha⟩
    have split : i + (p - i) = p := Nat.add_sub_cancel' above
    exact ⟨p - i, a, (by rw [split, ha]), rfl, (by rw [split, Nat.zero_add])⟩

/-- What the index says of a key once the places from `i` on are set anew. -/
theorem getElem?_reindex {ks : Array Value} {k : Key}
    (once : ∀ (p q : Nat) (a b : Value), ks[p]? = some a → ks[q]? = some b → a.keyForm = .found k →
      b.keyForm = .found k → p = q) (index : Std.HashMap Key Nat) (i p : Nat) :
    (reindex ks index i)[k]? = some p ↔
      (i ≤ p ∧ ∃ a : Value, ks[p]? = some a ∧ a.keyForm = .found k) ∨
        (∀ q (a : Value), i ≤ q → ks[q]? = some a → a.keyForm ≠ .found k) ∧
          index[k]? = some p := by
  have listed : ∀ {q : Nat} {a : Value},
      (a, q) ∈ ks.toList.zipIdx.drop i ↔ i ≤ q ∧ ks[q]? = some a := by
    intro q a
    rw [mem_drop_zipIdx, Array.getElem?_toList]
  refine (getElem?_learned k p (ks.toList.zipIdx.drop i) index ?_).trans
    (or_congr ?_ (and_congr ?_ .rfl))
  · rintro ⟨a, p⟩ he ⟨b, q⟩ hf hk hl
    exact once p q a b (listed.mp he).2 (listed.mp hf).2 hk hl
  · constructor
    · rintro ⟨⟨a, q⟩, he, hk, rfl⟩
      exact ⟨(listed.mp he).1, a, (listed.mp he).2, hk⟩
    · rintro ⟨after, a, ha, hk⟩
      exact ⟨(a, p), listed.mpr ⟨after, ha⟩, hk, rfl⟩
  · constructor
    · intro none q a after ha
      exact none (a, q) (listed.mpr ⟨after, ha⟩)
    · rintro none ⟨a, q⟩ he
      exact none q a (listed.mp he).1 (listed.mp he).2

theorem keys_erase (d : Dictionary) {i : Nat} (inside : i < d.keys.size) (j : Nat) :
    (d.slots.erase i).toArray[j]? = if j < i then d.keys[j]? else d.keys[j + 1]? := by
  rw [keys, Slots.size_toArray] at inside
  rw [Slots.getElem?_toArray, Slots.get?_erase _ inside, keys, Slots.getElem?_toArray,
    Slots.getElem?_toArray]

theorem entries_erase (d : Dictionary) {i : Nat} (inside : i < d.keys.size)
    (index : Std.HashMap Key Nat) :
    entries ⟨d.slots.erase i, d.values.eraseIdxIfInBounds i, index⟩ = d.entries.eraseIdx i := by
  have keys : (d.slots.erase i).toArray.toList = d.keys.toList.eraseIdx i := by
    apply List.ext_getElem?
    intro j
    rw [Array.getElem?_toList, d.keys_erase inside, List.getElem?_eraseIdx,
      Array.getElem?_toList, Array.getElem?_toList]
  rw [entries, toList, Dictionary.keys, keys, Array.toList_eraseIdxIfInBounds, zip_eraseIdx]
  rfl

theorem keys_withValues (d : Dictionary) (values : Array Value) :
    (d.withValues values).keys = d.keys := by
  rw [Dictionary.withValues, Dictionary.keys, Slots.toArray, Slots.packed, Slots.within,
    if_pos rfl]

namespace Sound

theorem keys_entries (s : d.Sound) : d.entries.map Prod.fst = d.keys.toList :=
  List.map_fst_zip (Nat.le_of_eq s.even.symm)

theorem values_entries (s : d.Sound) : d.entries.map Prod.snd = d.values.toList :=
  List.map_snd_zip (Nat.le_of_eq s.even)

/-- No two places have keys that address the same entry. -/
theorem place_unique (s : d.Sound) {i j : Nat} {a b : Value} (hi : d.keys[i]? = some a)
    (hj : d.keys[j]? = some b) (meet : a.meets b = true) : i = j := by
  obtain ⟨k, ha, hb⟩ := Value.meets_iff.mp meet
  have first : d.index[k]? = some i := (s.placed k i).mpr ⟨a, hi, ha⟩
  have second : d.index[k]? = some j := (s.placed k j).mpr ⟨b, hj, hb⟩
  exact Option.some.inj (first.symm.trans second)

/-- The index finds what a search from the front finds. -/
theorem position?_eq (s : d.Sound) (key : Value) : d.position? key = d.entries.place? key := by
  have keyed : d.entries.place? key = d.keys.toList.findIdx? fun a => a.meets key := by
    rw [← s.keys_entries, List.findIdx?_map]
    rfl
  cases form : key.keyForm with
  | found k =>
    rw [position?, form, keyed]
    ext i
    rw [List.findIdx?_eq_some_iff_getElem]
    constructor
    · intro found
      obtain ⟨a, ha, hk⟩ := (s.placed k i).mp found
      obtain ⟨inside, same⟩ := Array.getElem?_eq_some_iff.mp ha
      refine ⟨inside, ?_, ?_⟩
      · rw [Array.getElem_toList, same]
        exact (Value.meets_of_found form).mpr hk
      · intro j before meet
        have there : j < d.keys.size := Nat.lt_trans before inside
        exact Nat.ne_of_lt before (s.place_unique (Array.getElem?_eq_getElem there) ha
          (Value.meets_iff.mpr ⟨k, (Value.meets_of_found form).mp meet, hk⟩))
    · rintro ⟨inside, meet, -⟩
      exact (s.placed k i).mpr
        ⟨d.keys[i], Array.getElem?_eq_getElem inside, (Value.meets_of_found form).mp meet⟩
  | unequal =>
    rw [position?, form, Entries.place?_of_not_found fun k h => by rw [form] at h; cases h]
  | unhashable =>
    rw [position?, form, Entries.place?_of_not_found fun k h => by rw [form] at h; cases h]

/-- A look-up finds the value of the first entry under the key. -/
theorem get?_eq (s : d.Sound) (key : Value) : d.get? key = d.entries.get? key := by
  rw [get?, s.position?_eq, Entries.get?_eq_place?]
  congr 1
  funext i
  rw [← List.getElem?_map, s.values_entries, Array.getElem?_toList]

/-! ## Insertion -/

/-- Other values in the places of the values. -/
theorem setValues (s : d.Sound) {values : Array Value} (even : values.size = d.values.size) :
    ({ d with values } : Dictionary).Sound where
  even := even.trans s.even
  placed := s.placed

theorem entries_push (s : d.Sound) (key value : Value) :
    (d.push key value).entries = d.entries ++ [(key, value)] := by
  have even : d.slots.toArray.toList.length = d.values.toList.length := s.even.symm
  rw [entries, toList, keys, push, Slots.toArray_push, Array.toList_push, Array.toList_push,
    List.zip_append even]
  rfl

theorem push_even (s : d.Sound) (key value : Value) :
    (d.push key value).values.size = (d.push key value).keys.size := by
  rw [keys, push, Slots.toArray_push, Array.size_push, Array.size_push, s.even]
  rfl

/-- A key that equals nothing goes to the end, and nobody looks for it. -/
theorem push_unequal (s : d.Sound) {key : Value} (form : key.keyForm = .unequal) (value : Value) :
    (d.push key value).Sound where
  even := s.push_even key value
  placed k i := by
    simp only [getElem?_keys_push]
    refine (s.placed k i).trans ⟨fun ⟨a, ha, hk⟩ => ⟨a, .inl ha, hk⟩, ?_⟩
    rintro ⟨a, ha | ⟨-, rfl⟩, hk⟩
    · exact ⟨a, ha, hk⟩
    · rw [form] at hk
      cases hk

/-- A new key goes to the end, and the index learns its place. -/
theorem push_found (s : d.Sound) {key : Value} {k : Key} (form : key.keyForm = .found k)
    (new : d.index[k]? = none) (value : Value) :
    ({ d.push key value with index := d.index.insert k d.keys.size } : Dictionary).Sound where
  even := s.push_even key value
  placed l i := by
    change (d.index.insert k d.keys.size)[l]? = some i ↔
      ∃ a : Value, (d.push key value).keys[i]? = some a ∧ a.keyForm = .found l
    simp only [getElem?_keys_push, Std.HashMap.getElem?_insert, beq_iff_eq]
    split
    next same =>
      subst same
      constructor
      · intro last
        exact ⟨key, .inr ⟨(Option.some.inj last).symm, rfl⟩, form⟩
      · rintro ⟨a, ha | ⟨last, -⟩, hk⟩
        · rw [(s.placed k i).mpr ⟨a, ha, hk⟩] at new
          cases new
        · rw [last]
    next other =>
      refine (s.placed l i).trans ⟨fun ⟨a, ha, hk⟩ => ⟨a, .inl ha, hk⟩, ?_⟩
      rintro ⟨a, ha | ⟨-, rfl⟩, hk⟩
      · exact ⟨a, ha, hk⟩
      · exact absurd (KeyForm.found.inj (form.symm.trans hk)) other

/-- An insertion leaves a sound dictionary, whose entries are those of the list after the
insertion. -/
theorem insert? (s : d.Sound) (key value : Value) :
    (∀ d', d.insert? key value = some d' → d'.Sound) ∧
      (d.insert? key value).map entries = d.entries.set? key value := by
  have place := s.position?_eq key
  rw [position?] at place
  rw [Dictionary.insert?, Entries.set?, ← place, Dictionary.insert]
  cases form : key.keyForm with
  | found k =>
    rw [if_neg (fun h => by cases h), if_neg (fun h => by cases h)]
    cases found : d.index[k]? with
    | some i =>
      simp only [found]
      refine ⟨fun d' made => ?_, congrArg some (entries_replace d i value)⟩
      rw [← Option.some.inj made]
      exact s.setValues Array.size_setIfInBounds
    | none =>
      simp only [found]
      refine ⟨fun d' made => ?_, congrArg some (s.entries_push key value)⟩
      rw [← Option.some.inj made]
      have sound := s.push_found form found value
      rwa [keys, Slots.size_toArray] at sound
  | unequal =>
    rw [if_neg (fun h => by cases h), if_neg (fun h => by cases h)]
    refine ⟨fun d' made => ?_, congrArg some (s.entries_push key value)⟩
    rw [← Option.some.inj made]
    exact s.push_unequal form value
  | unhashable =>
    rw [if_pos rfl, if_pos rfl]
    exact ⟨fun _ h => (by cases h), rfl⟩

/-! ## Removal -/

/-- Without one of its entries, and with the places after it set anew. -/
theorem without (s : d.Sound) {i : Nat} {k : Key} (found : d.index[k]? = some i) :
    (⟨d.slots.erase i, d.values.eraseIdxIfInBounds i,
      reindex (d.slots.erase i).toArray (d.index.erase k) i⟩ : Dictionary).Sound := by
  obtain ⟨key, there, form⟩ := (s.placed k i).mp found
  have inside : i < d.keys.size := (Array.getElem?_eq_some_iff.mp there).1
  have keys : ∀ j, (d.slots.erase i).toArray[j]? = d.keys[Heap.skip i j]? := by
    intro j
    rw [d.keys_erase inside, Heap.skip]
    split <;> rfl
  have even : (d.values.eraseIdxIfInBounds i).size = (d.slots.erase i).toArray.size := by
    have size : d.keys.size = d.slots.size := Slots.size_toArray _
    have held : i < d.slots.size := Nat.lt_of_lt_of_eq inside size
    have filled : i < d.values.size := Nat.lt_of_lt_of_eq inside s.even.symm
    rw [Array.eraseIdxIfInBounds, dif_pos filled, Array.size_eraseIdx, s.even, size,
      Slots.size_toArray, Slots.erase, dif_pos held]
  -- No two of the places that are left have keys of one form.
  have once : ∀ (l : Key) (p q : Nat) (a b : Value), (d.slots.erase i).toArray[p]? = some a →
      (d.slots.erase i).toArray[q]? = some b → a.keyForm = .found l → b.keyForm = .found l →
        p = q := by
    intro l p q a b ha hb hka hkb
    rw [keys] at ha hb
    exact Heap.skip_injective i (s.place_unique ha hb (Value.meets_iff.mpr ⟨l, hka, hkb⟩))
  refine ⟨even, fun l p => ?_⟩
  refine (getElem?_reindex (once l) (d.index.erase k) i p).trans ⟨?_, ?_⟩
  · rintro (⟨-, found⟩ | ⟨none, before⟩)
    · exact found
    · rw [Std.HashMap.getElem?_erase] at before
      split at before
      next => cases before
      next other =>
        obtain ⟨a, ha, hk⟩ := (s.placed l p).mp before
        have apart : p ≠ i := by
          rintro rfl
          rw [there] at ha
          rw [Option.some.inj ha, hk] at form
          exact other (beq_iff_eq.mpr (KeyForm.found.inj form).symm)
        by_cases below : p < i
        · exact ⟨a, (keys p).trans (by rw [Heap.skip, if_pos below, ha]), hk⟩
        · -- A key after the removed one is among those whose places were set.
          refine absurd hk (none (p - 1) a (by omega) ?_)
          rw [keys, Heap.skip, if_neg (by omega), Nat.sub_add_cancel (by omega), ha]
  · rintro ⟨a, ha, hk⟩
    by_cases above : i ≤ p
    · exact .inl ⟨above, a, ha, hk⟩
    · have stays : d.keys[p]? = some a := by
        have same := (keys p).symm.trans ha
        rwa [Heap.skip, if_pos (by omega)] at same
      refine .inr ⟨?_, ?_⟩
      · intro q b after hb hkb
        have := once l p q a b ha hb hk hkb
        omega
      · rw [Std.HashMap.getElem?_erase, if_neg, (s.placed l p).mpr ⟨a, stays, hk⟩]
        intro same
        rw [← beq_iff_eq.mp same] at hk
        have := s.place_unique stays there (Value.meets_iff.mpr ⟨k, hk, form⟩)
        omega

/-- A removal leaves a sound dictionary, whose entries are those of the list after the
removal. -/
theorem erase? (s : d.Sound) (key : Value) :
    (∀ d', d.erase? key = some d' → d'.Sound) ∧
      (d.erase? key).map entries = d.entries.erase? key := by
  have place := s.position?_eq key
  rw [position?] at place
  rw [Dictionary.erase?, Entries.erase?, ← place]
  cases form : key.keyForm with
  | found k =>
    cases found : d.index[k]? with
    | some i =>
      simp only [found]
      obtain ⟨a, there, -⟩ := (s.placed k i).mp found
      have inside : i < d.keys.size := (Array.getElem?_eq_some_iff.mp there).1
      refine ⟨fun d' made => ?_, congrArg some (d.entries_erase inside _)⟩
      rw [← Option.some.inj made]
      exact s.without found
    | none =>
      simp only [found]
      exact ⟨fun _ h => (by cases h), rfl⟩
  | unequal => exact ⟨fun _ h => (by cases h), rfl⟩
  | unhashable => exact ⟨fun _ h => (by cases h), rfl⟩

/-! ## Copying -/

/-- A dictionary with as many other values is sound, and has the same keys. -/
theorem withValues (s : d.Sound) {values : Array Value} (even : values.size = d.values.size) :
    (d.withValues values).Sound where
  even := by
    rw [keys_withValues]
    exact even.trans s.even
  placed k i := by
    rw [keys_withValues]
    exact s.placed k i

theorem entries_withValues (s : d.Sound) (values : Array Value) :
    (d.withValues values).entries = (d.entries.map Prod.fst).zip values.toList := by
  rw [entries, toList, keys_withValues, s.keys_entries]
  rfl

end Sound

end Dictionary

end Pseudocode
