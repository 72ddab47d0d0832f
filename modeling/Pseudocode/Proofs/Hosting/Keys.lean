import Mathlib.Algebra.BigOperators.Group.List.Basic
import Pseudocode.Crypto.Bytes
import Pseudocode.Proofs.Hosting.Order
import Pseudocode.Proofs.Strings.Bytes
/-
# `Proofs.Hosting.Keys` — keys of any bytes

A string of the embedding program is bytes, and they need not write a text.  What is shown of them
is the text that they write, with the replacement character for every byte that belongs to no
character (`Crypto.textOf`).  Bytes that do write a text are shown as that text
(`Crypto.textOf_bytes`).  Of others, two can be shown alike.

`HostData.keyedEntries` does with such keys what `HostData.boxKeyed` does with values: the entries
are boxed as they are met, and set in the order in which their keys are shown.  For keys that are
texts it gives the entries of the dictionary (`exists_keyedEntries_ofAtoms`).  The order in which
the entries are met makes no difference exactly if no two keys are shown alike
(`keyedEntries_perm_iff`): the sort leaves those that are as they were met, and the keys that are
strings come into the dictionary in the order in which they are set (`filter_collect`).  A sort that
is not stable may leave them otherwise, but it knows no more of them than what is shown: where two
are met in each other's places, they come out in each other's places.
-/
namespace Pseudocode

/-! ## Bytes that write a text -/

namespace Crypto

/-- A first byte with its number of inner bytes writes a character. -/
theorem firstChar?_of_lead (inner : Bytes) {b : UInt8} {rest : Bytes} {count top : Nat} {c : Char}
    (lead : leadByte? b = some (count, top)) (size : inner.length = count - 1)
    (all : inner.all isInner = true)
    (code : inner.foldl (fun n b => n * 64 + (b.toNat - 0x80)) top = c.toNat)
    (least : leastCode count ≤ c.toNat) :
    firstChar? (b :: (inner ++ rest)) = some (c, count) := by
  have front : (inner ++ rest).take (count - 1) = inner := by rw [← size, List.take_left]
  have valid : c.toNat.isValidChar := c.valid
  simp only [firstChar?, List.head?_cons, Option.bind_eq_bind, Option.bind_some, lead,
    List.drop_succ_cons, List.drop_zero, front, size, all, code, Char.ofNat_toNat]
  simp [least, valid]

section Leads

variable {n : Nat}

theorem toNat_byte (small : n < 256) : (UInt8.ofNat n).toNat = n := by
  rw [UInt8.toNat_ofNat', Nat.mod_eq_of_lt small]

theorem leadByte?_one (high : n < 0x80) : leadByte? (UInt8.ofNat n) = some (1, n) := by
  rw [leadByte?, toNat_byte (by omega), if_pos high]

theorem leadByte?_two (low : 0xC2 ≤ n) (high : n < 0xE0) :
    leadByte? (UInt8.ofNat n) = some (2, n - 0xC0) := by
  rw [leadByte?, toNat_byte (by omega), if_neg (by omega), if_pos (by simp [low, high])]

theorem leadByte?_three (low : 0xE0 ≤ n) (high : n < 0xF0) :
    leadByte? (UInt8.ofNat n) = some (3, n - 0xE0) := by
  rw [leadByte?, toNat_byte (by omega), if_neg (by omega), if_neg (by simp; omega),
    if_pos (by simp [low, high])]

theorem leadByte?_four (low : 0xF0 ≤ n) (high : n < 0xF5) :
    leadByte? (UInt8.ofNat n) = some (4, n - 0xF0) := by
  rw [leadByte?, toNat_byte (by omega), if_neg (by omega), if_neg (by simp; omega),
    if_neg (by simp; omega), if_pos (by simp [low, high])]

end Leads

theorem toNat_inner (n : Nat) : (UInt8.ofNat (n % 64 + 128)).toNat = n % 64 + 128 :=
  toNat_byte (by omega)

theorem isInner_inner (n : Nat) : isInner (UInt8.ofNat (n % 64 + 128)) = true := by
  rw [isInner, toNat_inner, Bool.and_eq_true, decide_eq_true_eq, decide_eq_true_eq]
  omega

/-- The character whose bytes stand at the front is read. -/
theorem firstChar?_utf8EncodeChar_append (c : Char) (rest : Bytes) :
    firstChar? (String.utf8EncodeChar c ++ rest) = some (c, c.utf8Size) := by
  have bound : c.val.toNat < 0x110000 := by
    have valid : c.toNat.isValidChar := c.valid
    change c.toNat < 0x110000
    simp only [Nat.isValidChar] at valid
    omega
  fun_cases String.utf8EncodeChar c with
  | case1 v one =>
    rw [Char.utf8Size_eq_one_iff.mpr (UInt32.le_iff_toNat_le.mpr one)]
    exact firstChar?_of_lead [] (leadByte?_one (by omega)) rfl rfl rfl (Nat.zero_le _)
  | case2 v one two =>
    rw [Char.utf8Size_eq_two_iff.mpr
      ⟨UInt32.lt_iff_toNat_lt.mpr (Nat.lt_of_not_le one), UInt32.le_iff_toNat_le.mpr two⟩]
    refine firstChar?_of_lead [_] (leadByte?_two (by omega) (by omega)) rfl ?_ ?_
      (Nat.zero_le _)
    · exact List.all_eq_true.mpr (List.forall_mem_singleton.mpr (isInner_inner v))
    · simp only [List.foldl_cons, List.foldl_nil, toNat_inner]
      show _ = v
      omega
  | case3 v one two three =>
    rw [Char.utf8Size_eq_three_iff.mpr
      ⟨UInt32.lt_iff_toNat_lt.mpr (Nat.lt_of_not_le two), UInt32.le_iff_toNat_le.mpr three⟩]
    refine firstChar?_of_lead [_, _] (leadByte?_three (by omega) (by omega)) rfl ?_ ?_ ?_
    · simp only [List.all_cons, List.all_nil, isInner_inner, Bool.and_true]
    · simp only [List.foldl_cons, List.foldl_nil, toNat_inner]
      show _ = v
      omega
    · exact Nat.lt_of_not_le two
  | case4 v one two three =>
    rw [Char.utf8Size_eq_four_iff.mpr (UInt32.lt_iff_toNat_lt.mpr (Nat.lt_of_not_le three))]
    refine firstChar?_of_lead [_, _, _] (leadByte?_four (by omega) (by omega)) rfl ?_ ?_ ?_
    · simp only [List.all_cons, List.all_nil, isInner_inner, Bool.and_true]
    · simp only [List.foldl_cons, List.foldl_nil, toNat_inner]
      show _ = v
      omega
    · exact Nat.lt_of_not_le three

theorem pieces_flatMap (cs : List Char) : ∀ {n : Nat}, cs.length ≤ n →
    pieces n (cs.flatMap String.utf8EncodeChar) = cs.map .inl := by
  induction cs with
  | nil =>
    intro n _
    cases n <;> rfl
  | cons c cs ih =>
    intro n room
    obtain ⟨n, rfl⟩ := Nat.exists_eq_add_one_of_ne_zero (Nat.ne_zero_of_lt room)
    have first := firstChar?_utf8EncodeChar_append c (cs.flatMap String.utf8EncodeChar)
    have rest : (String.utf8EncodeChar c ++ cs.flatMap String.utf8EncodeChar).drop c.utf8Size =
        cs.flatMap String.utf8EncodeChar := by
      rw [← String.length_utf8EncodeChar, List.drop_left]
    obtain ⟨b, bs, written⟩ := List.exists_cons_of_ne_nil (String.utf8EncodeChar_ne_nil (c := c))
    rw [List.flatMap_cons, written, List.cons_append, pieces, ← List.cons_append, ← written, first]
    change .inl c :: pieces n (List.drop _ _) = _
    rw [rest, ih (Nat.le_of_succ_le_succ room), List.map_cons]

/-- The bytes of a text write the text. -/
theorem textOf_bytes (s : String) : textOf (Text.bytes s) = s := by
  have room : s.toList.length ≤ (s.toList.flatMap String.utf8EncodeChar).length := by
    rw [List.length_flatMap, ← List.length_map fun c => (String.utf8EncodeChar c).length]
    refine List.length_le_sum_of_one_le _ (List.forall_mem_map.mpr fun c _ => ?_)
    exact List.length_pos_iff.mpr String.utf8EncodeChar_ne_nil
  rw [textOf, charsOf, Text.bytes_eq, pieces_flatMap _ room, List.map_map]
  exact (congrArg String.ofList (List.map_id _)).trans String.ofList_toList

end Crypto

/-! ## Keys -/

/-- A key of a map of the embedding program.  A string is any bytes. -/
inductive HostKey where
  | none
  | bool (b : Bool)
  | int (n : Int)
  | string (bs : Crypto.Bytes)
deriving DecidableEq

namespace HostKey

/-- What is shown of a key: of a string the text that its bytes write. -/
def atom : HostKey → Atom
  | .none => .none
  | .bool b => .bool b
  | .int n => .int n
  | .string bs => .string (Crypto.textOf bs)

/-- A key as it is shown. -/
def text (k : HostKey) : String := k.atom.text

/-- The normal form of a key.  A truth value addresses the entry of its number. -/
def form : HostKey → HostKey
  | .bool b => .int (Value.ofBool b)
  | k => k

def isString : HostKey → Bool
  | .string _ => true
  | _ => false

/-- The key of an atom. -/
def ofAtom : Atom → HostKey
  | .none => .none
  | .bool b => .bool b
  | .int n => .int n
  | .string s => .string (Text.bytes s)

theorem atom_ofAtom (a : Atom) : (ofAtom a).atom = a := by
  cases a with
  | string s => exact congrArg Atom.string (Crypto.textOf_bytes s)
  | _ => rfl

/-- Only strings are shown alike. -/
theorem isString_of_text {k l : HostKey} (same : k.text = l.text) (apart : k ≠ l) :
    k.isString = true ∧ l.isString = true := by
  have atoms : k.atom = l.atom := Atom.text_inj same
  cases k <;> cases l <;> simp_all [atom, isString]

/-- A string shares its entry with no other key. -/
theorem eq_of_form {k l : HostKey} (string : k.isString = true) (same : l.form = k.form) : l = k := by
  cases k <;> cases l <;> simp_all [form, isString]

end HostKey

namespace HostData

variable {h g g' l l' : Heap}

/-- Sets an entry.  Keys of one form address one entry, which keeps its first key. -/
def putKey (k : HostKey) (v : Value) : List (HostKey × Value) → List (HostKey × Value)
  | [] => [(k, v)]
  | (j, w) :: rest => if j.form = k.form then (j, v) :: rest else (j, w) :: putKey k v rest

/-- The entries of a dictionary in which entries are set one after the other. -/
def collect (es : List (HostKey × Value)) : List (HostKey × Value) :=
  es.foldl (fun t e => putKey e.1 e.2 t) []

/-- What makes the value of an entry. -/
def entryAction {κ : Type} (e : κ × HostData) : κ × Boxing Value := (e.1, e.2.box)

/-- The entries of the dictionary that is made of a map from keys of any bytes. -/
def keyedEntries (es : List (HostKey × HostData)) : Boxing (List (HostKey × Value)) :=
  boxInOrder (fun _ => HostKey.text) (fun made => return collect made) (es.map entryAction)

/-! ### Keys that come in -/

/-- Keys of strings come in at the end, as nothing else addresses their entries. -/
theorem filter_putKey {k : HostKey} {v : Value} : ∀ {t : List (HostKey × Value)},
    k ∉ t.map Prod.fst → ((putKey k v t).map Prod.fst).filter HostKey.isString =
      (t.map Prod.fst ++ [k]).filter HostKey.isString
  | [], _ => rfl
  | (j, w) :: rest, fresh => by
    rw [List.map_cons, List.mem_cons, not_or] at fresh
    rw [putKey]
    split
    next same =>
      have other : k.isString = false := Bool.eq_false_iff.mpr fun string =>
        fresh.1 (HostKey.eq_of_form string same).symm
      rw [List.filter_append, List.filter_singleton, other]
      exact (List.append_nil _).symm
    next =>
      rw [List.map_cons, List.map_cons, List.cons_append, List.filter_cons, List.filter_cons,
        filter_putKey fresh.2]

theorem mem_putKey {j k : HostKey} {v : Value} : ∀ {t : List (HostKey × Value)},
    j ∈ (putKey k v t).map Prod.fst → j ∈ t.map Prod.fst ∨ j = k
  | [], mem => .inr (List.mem_singleton.mp mem)
  | (i, w) :: rest, mem => by
    rw [putKey] at mem
    split at mem
    · exact .inl mem
    · rw [List.map_cons, List.mem_cons] at mem ⊢
      rcases mem with here | there
      · exact .inl (.inl here)
      · exact (mem_putKey there).imp_left .inr

/-- The strings among the keys of the dictionary stand in the order in which they are set. -/
theorem filter_collect {es : List (HostKey × Value)} (once : (es.map Prod.fst).Nodup) :
    ((collect es).map Prod.fst).filter HostKey.isString =
      (es.map Prod.fst).filter HostKey.isString := by
  suffices step : ∀ t : List (HostKey × Value), (∀ k ∈ t.map Prod.fst, k ∉ es.map Prod.fst) →
      ((es.foldl (fun t e => putKey e.1 e.2 t) t).map Prod.fst).filter HostKey.isString =
        (t.map Prod.fst ++ es.map Prod.fst).filter HostKey.isString from
    step [] fun k mem => absurd mem List.not_mem_nil
  induction es with
  | nil =>
    intro t _
    rw [List.map_nil, List.append_nil, List.foldl_nil]
  | cons e es ih =>
    intro t fresh
    rw [List.map_cons, List.nodup_cons] at once
    have new : e.1 ∉ t.map Prod.fst := fun mem => fresh e.1 mem List.mem_cons_self
    have later : ∀ k ∈ (putKey e.1 e.2 t).map Prod.fst, k ∉ es.map Prod.fst := by
      intro k mem there
      rcases mem_putKey mem with old | rfl
      · exact fresh k old (List.mem_cons_of_mem _ there)
      · exact once.1 there
    rw [List.foldl_cons, ih once.2 _ later, List.filter_append, filter_putKey new,
      ← List.filter_append, List.map_cons, List.append_assoc, List.singleton_append]

/-! ### Entries that match -/

theorem match_putKey {p p' : HostKey × Value} (same : Match h g g' p p')
    {t t' : List (HostKey × Value)} (all : List.Forall₂ (Match h g g') t t') :
    List.Forall₂ (Match h g g') (putKey p.1 p.2 t) (putKey p'.1 p'.2 t') := by
  obtain ⟨k, v⟩ := p
  obtain ⟨k', v'⟩ := p'
  obtain ⟨rfl, twins⟩ : k = k' ∧ h.Twins g g' v v' := same
  induction all with
  | nil => exact .cons ⟨rfl, twins⟩ .nil
  | @cons e e' t t' here there ih =>
    obtain ⟨j, w⟩ := e
    obtain ⟨j', w'⟩ := e'
    obtain ⟨rfl, twins'⟩ : j = j' ∧ h.Twins g g' w w' := here
    rw [putKey, putKey]
    split
    · exact .cons ⟨rfl, twins⟩ there
    · exact .cons ⟨rfl, twins'⟩ ih

theorem match_collect {ps ps' : List (HostKey × Value)}
    (all : List.Forall₂ (Match h g g') ps ps') :
    List.Forall₂ (Match h g g') (collect ps) (collect ps') := by
  suffices step : ∀ t t' : List (HostKey × Value), List.Forall₂ (Match h g g') t t' →
      List.Forall₂ (Match h g g') (ps.foldl (fun t e => putKey e.1 e.2 t) t)
        (ps'.foldl (fun t e => putKey e.1 e.2 t) t') from
    step [] [] .nil
  induction all with
  | nil => exact fun t t' same => same
  | cons here there ih => exact fun t t' same => ih _ _ (match_putKey here same)

/-! ### The order in which entries are met -/

/-- What is made of entries is sorted as they are. -/
theorem made_byShown {κ : Type} (shown : κ → String) {t : List (κ × Boxing Value)}
    {ps : List (κ × Value)} (made : List.Forall₂ (Made h l) t ps) :
    List.Forall₂ (Made h l) (t.mergeSort (byShown shown)) (ps.mergeSort (byShown shown)) :=
  forall₂_mergeSort made fun e p f q m m' => by rw [byShown, byShown, m.1, m'.1]

section Met

variable {es es' : List (HostKey × HostData)}

/-- Every entry is boxed, and they are set in the order in which their keys are shown. -/
theorem exists_keyedEntries (within : ∀ e ∈ es, e.2.Within h)
    (boxes : ∀ e ∈ es, ∃ p, e.2.box h = .ok p) :
    ∃ ps l, keyedEntries es h = .ok (collect (ps.mergeSort (byShown HostKey.text)), l) ∧
      List.Forall₂ (Made h l) (es.map entryAction) ps := by
  have steady : ∀ e ∈ es.map entryAction, Steady h e.2 :=
    List.forall_mem_map.mpr fun e mem => steady_box e.2 (within e mem)
  have each : ∀ e ∈ es.map entryAction, ∃ p, e.2 h = .ok p := List.forall_mem_map.mpr boxes
  obtain ⟨ps, l, run, -, made⟩ := exists_made steady each
  exact ⟨ps, l, boxInOrder_eq run, made⟩

/-- Where no two keys are shown alike the order makes no difference. -/
theorem keyedEntries_perm (apart : (es.map fun e => e.1.text).Nodup) (perm : es.Perm es')
    (within : ∀ e ∈ es, e.2.Within h) (boxes : ∀ e ∈ es, ∃ p, e.2.box h = .ok p) :
    ∃ t t' g g', keyedEntries es h = .ok (t, g) ∧ keyedEntries es' h = .ok (t', g') ∧
      List.Forall₂ (Match h g g') t t' := by
  obtain ⟨ps, l, run, made⟩ := exists_keyedEntries within boxes
  obtain ⟨ps', l', run', made'⟩ := exists_keyedEntries
    (fun e mem => within e (perm.mem_iff.mpr mem)) fun e mem => boxes e (perm.mem_iff.mpr mem)
  have sorted : (es.map entryAction).mergeSort (byShown HostKey.text) =
      (es'.map entryAction).mergeSort (byShown HostKey.text) := by
    refine mergeSort_byShown_perm ?_ (perm.map entryAction)
    rwa [List.map_map]
  have first := made_byShown HostKey.text made
  have second := made_byShown HostKey.text made'
  rw [← sorted] at second
  refine ⟨_, _, l, l', run, run', match_collect (forall₂_join first second ?_)⟩
  intro e mem p p' m m'
  obtain ⟨f, there, rfl⟩ := List.mem_map.mp (List.mem_mergeSort.mp mem)
  exact m.twins m' (steady_box f.2 (within f there))

/-- The strings among the keys of the dictionary stand in the order in which they are shown. -/
theorem filter_keyedEntries (once : (es.map Prod.fst).Nodup) (within : ∀ e ∈ es, e.2.Within h)
    (boxes : ∀ e ∈ es, ∃ p, e.2.box h = .ok p) {t : List (HostKey × Value)}
    (run : keyedEntries es h = .ok (t, g)) : (t.map Prod.fst).filter HostKey.isString =
      ((es.mergeSort (byShown HostKey.text)).map Prod.fst).filter HostKey.isString := by
  obtain ⟨ps, l, ran, made⟩ := exists_keyedEntries within boxes
  obtain ⟨rfl, -⟩ := Prod.mk.inj (Except.ok.inj (run.symm.trans ran))
  have sorted : (es.mergeSort (byShown HostKey.text)).map entryAction =
      (es.map entryAction).mergeSort (byShown HostKey.text) :=
    List.map_mergeSort fun e _ f _ => rfl
  have keys : (ps.mergeSort (byShown HostKey.text)).map Prod.fst =
      (es.mergeSort (byShown HostKey.text)).map Prod.fst := by
    have same := map_eq_map_of_forall₂ (made_byShown HostKey.text made)
      fun e _ p m => m.1
    rwa [← sorted, List.map_map] at same
  rw [← keys]
  refine filter_collect ?_
  rw [keys]
  exact ((List.mergeSort_perm es _).map Prod.fst).nodup_iff.mpr once

end Met

/-- Two elements of a list can be met first, in either order. -/
theorem exists_perm_pair {α : Type} {xs : List α} {x y : α} (hx : x ∈ xs) (hy : y ∈ xs)
    (apart : x ≠ y) : ∃ rest, xs.Perm (x :: y :: rest) := by
  obtain ⟨s, t, rfl⟩ := List.append_of_mem hx
  have other : y ∈ s ++ t := by
    rw [List.mem_append, List.mem_cons] at hy
    rw [List.mem_append]
    exact hy.imp_right fun either => either.resolve_left apart.symm
  obtain ⟨u, v, split⟩ := List.append_of_mem other
  refine ⟨u ++ v, List.perm_middle.trans (.cons x ?_)⟩
  rw [split]
  exact List.perm_middle

/-- In a list without repetitions one of two elements stands first. -/
theorem not_both_orders {α : Type} {xs : List α} (once : xs.Nodup) {x y : α}
    (before : [x, y].Sublist xs) : ¬ [y, x].Sublist xs := by
  intro after
  obtain ⟨s, t, rfl, hx, hy⟩ := List.cons_sublist_iff.mp before
  obtain ⟨u, v, split, hy', hx'⟩ := List.cons_sublist_iff.mp after
  rw [List.singleton_sublist] at hy hx'
  have disjoint := (List.nodup_append.mp once).2.2
  rw [split] at once
  have disjoint' := (List.nodup_append.mp once).2.2
  rcases List.append_eq_append_iff.mp split with ⟨w, rfl, rfl⟩ | ⟨w, rfl, rfl⟩
  · exact disjoint x hx x (List.mem_append_right w hx') rfl
  · exact disjoint' y hy' y (List.mem_append_right w hy) rfl

/-- Keys that are shown alike stay as they were met. -/
theorem pair_sublist_keyedEntries {e f : HostKey × HostData} {rest : List (HostKey × HostData)}
    (once : ((e :: f :: rest).map Prod.fst).Nodup) (within : ∀ x ∈ e :: f :: rest, x.2.Within h)
    (boxes : ∀ x ∈ e :: f :: rest, ∃ p, x.2.box h = .ok p) (alike : e.1.text = f.1.text)
    {t : List (HostKey × Value)} (run : keyedEntries (e :: f :: rest) h = .ok (t, g)) :
    [e.1, f.1].Sublist ((t.map Prod.fst).filter HostKey.isString) := by
  have apart : e.1 ≠ f.1 := by
    rw [List.map_cons, List.map_cons, List.nodup_cons] at once
    exact fun same => once.1 (same ▸ List.mem_cons_self)
  obtain ⟨string, string'⟩ := HostKey.isString_of_text alike apart
  have met : [e, f].Sublist (e :: f :: rest) := ((List.nil_sublist rest).cons_cons f).cons_cons e
  have stable : [e, f].Sublist ((e :: f :: rest).mergeSort (byShown HostKey.text)) :=
    List.pair_sublist_mergeSort (fun _ _ _ => byShown_trans) byShown_total (byShown_of_eq alike) met
  rw [filter_keyedEntries once within boxes run]
  have kept : ([e.1, f.1].filter HostKey.isString).Sublist _ :=
    (stable.map Prod.fst).filter HostKey.isString
  rwa [List.filter_cons_of_pos string, List.filter_cons_of_pos string', List.filter_nil] at kept

/-- The order in which the entries of a map are met makes no difference exactly if no two of its
keys are shown alike. -/
theorem settled_iff {es : List (HostKey × HostData)} (once : (es.map Prod.fst).Nodup)
    (within : ∀ e ∈ es, e.2.Within h) (boxes : ∀ e ∈ es, ∃ p, e.2.box h = .ok p) :
    (∀ es₁ es₂, es.Perm es₁ → es.Perm es₂ →
      ∃ t₁ t₂ g₁ g₂, keyedEntries es₁ h = .ok (t₁, g₁) ∧ keyedEntries es₂ h = .ok (t₂, g₂) ∧
        List.Forall₂ (Match h g₁ g₂) t₁ t₂) ↔
      (es.map fun e => e.1.text).Nodup := by
  constructor
  · intro settled
    rw [← Function.comp_def HostKey.text Prod.fst, ← List.map_map, List.nodup_map_iff_inj_on once]
    simp only [List.forall_mem_map]
    intro e he f hf alike
    by_contra apart
    obtain ⟨rest, perm⟩ := exists_perm_pair he hf fun same => apart (congrArg Prod.fst same)
    have swapped : es.Perm (f :: e :: rest) := perm.trans (.swap f e rest)
    obtain ⟨t₁, t₂, g₁, g₂, run₁, run₂, same⟩ := settled _ _ perm swapped
    have keys : t₂.map Prod.fst = t₁.map Prod.fst :=
      map_eq_map_of_forall₂ same fun p _ q m => m.1.symm
    have kept : ∀ {es'}, es.Perm es' → (es'.map Prod.fst).Nodup ∧ (∀ e ∈ es', e.2.Within h) ∧
        ∀ e ∈ es', ∃ p, e.2.box h = .ok p := fun perm =>
      ⟨(perm.map Prod.fst).nodup_iff.mp once, fun e mem => within e (perm.mem_iff.mpr mem),
        fun e mem => boxes e (perm.mem_iff.mpr mem)⟩
    obtain ⟨once₁, within₁, boxes₁⟩ := kept perm
    obtain ⟨once₂, within₂, boxes₂⟩ := kept swapped
    have first := pair_sublist_keyedEntries once₁ within₁ boxes₁ alike run₁
    have second := pair_sublist_keyedEntries once₂ within₂ boxes₂ alike.symm run₂
    rw [keys] at second
    refine not_both_orders ?_ first second
    rw [filter_keyedEntries once₁ within₁ boxes₁ run₁]
    exact (((List.mergeSort_perm _ _).map Prod.fst).nodup_iff.mpr once₁).filter _
  · intro apart es₁ es₂ perm₁ perm₂
    refine keyedEntries_perm ?_ (perm₁.symm.trans perm₂)
      (fun e mem => within e (perm₁.mem_iff.mpr mem)) fun e mem => boxes e (perm₁.mem_iff.mpr mem)
    exact (perm₁.map _).nodup_iff.mp apart

/-! ### Keys that are texts -/

/-- Entries under other keys. -/
def rekey {κ μ α : Type} (f : κ → μ) (es : List (κ × α)) : List (μ × α) :=
  es.map fun e => (f e.1, e.2)

theorem rekey_cons {κ μ α : Type} (f : κ → μ) (e : κ × α) (es : List (κ × α)) :
    rekey f (e :: es) = (f e.1, e.2) :: rekey f es := rfl

/-- Entries under other keys that are shown the same are sorted the same. -/
theorem mergeSort_rekey {κ μ α : Type} {f : κ → μ} {shown : κ → String} {shown' : μ → String}
    (same : ∀ k, shown' (f k) = shown k) (es : List (κ × α)) :
    (rekey f es).mergeSort (byShown shown') = rekey f (es.mergeSort (byShown shown)) := by
  refine (List.map_mergeSort fun e _ e' _ => ?_).symm
  rw [byShown, byShown, same, same]

theorem perform_rekey {κ μ : Type} (f : κ → μ) : ∀ {t : List (κ × Boxing Value)} {g l : Heap}
    {ps : List (κ × Value)}, perform t g = .ok (ps, l) →
    perform (rekey f t) g = .ok (rekey f ps, l)
  | [], _, _, _, run => by
    cases run
    rfl
  | (k, act) :: rest, g, l, ps, run => by
    obtain ⟨v, g₁, made, run⟩ := Boxing.of_bind_ok run
    obtain ⟨vs, g₂, made', run⟩ := Boxing.of_bind_ok run
    cases run
    rw [rekey_cons, perform, Boxing.bind_ok made, Boxing.bind_ok (perform_rekey f made')]
    rfl

theorem set?_cons {e : Value × Value} {t : Entries} {key value : Value}
    (hashable : key.keyForm ≠ .unhashable) : Entries.set? (e :: t) key value =
      if e.1.meets key then some ((e.1, value) :: t) else (t.set? key value).map (e :: ·) := by
  have place : Entries.place? (e :: t) key =
      if e.1.meets key then some 0 else (t.place? key).map (· + 1) := List.findIdx?_cons
  rw [Entries.set?, if_neg hashable, Entries.set?, if_neg hashable, place]
  cases e.1.meets key with
  | true => rfl
  | false => cases t.place? key <;> rfl

theorem meets_value {a b : Atom} :
    a.value.meets b.value = true ↔ (HostKey.ofAtom a).form = (HostKey.ofAtom b).form := by
  have texts : ∀ s t : String, Text.bytes s = Text.bytes t ↔ s = t := fun s t =>
    ⟨fun same => by rw [← Crypto.textOf_bytes s, same, Crypto.textOf_bytes], congrArg Text.bytes⟩
  cases a <;> cases b <;>
    simp [Value.meets, Value.keyForm, Atom.value, HostKey.ofAtom, HostKey.form, texts]

/-- An entry is set alike in a dictionary and among entries under keys of any bytes. -/
theorem exists_putKey_ofAtom (a : Atom) (v : Value) : ∀ T : List (Atom × Value),
    ∃ T' : List (Atom × Value), putKey (.ofAtom a) v (rekey .ofAtom T) = rekey .ofAtom T' ∧
      Entries.set? (rekey Atom.value T) a.value v = some (rekey Atom.value T')
  | [] => ⟨[(a, v)], rfl, if_neg (hashable_value a)⟩
  | (b, w) :: T => by
    rw [rekey_cons, rekey_cons, set?_cons (hashable_value a), putKey]
    split
    next same => exact ⟨(b, v) :: T, rfl, if_pos (meets_value.mpr same)⟩
    next apart =>
      obtain ⟨T', put, set⟩ := exists_putKey_ofAtom a v T
      refine ⟨(b, w) :: T', by rw [put]; rfl, ?_⟩
      rw [if_neg fun same => apart (meets_value.mp same), set]
      rfl

/-- And so are entries one after the other. -/
theorem exists_collect_ofAtom (S : List (Atom × Value)) :
    ∃ T : List (Atom × Value), collect (rekey .ofAtom S) = rekey .ofAtom T ∧
      setAll (rekey Atom.value S) [] = some (rekey Atom.value T) := by
  suffices step : ∀ T : List (Atom × Value), ∃ T' : List (Atom × Value),
      (rekey .ofAtom S).foldl (fun t e => putKey e.1 e.2 t) (rekey .ofAtom T) = rekey .ofAtom T' ∧
        setAll (rekey Atom.value S) (rekey Atom.value T) = some (rekey Atom.value T') from
    step []
  induction S with
  | nil => exact fun T => ⟨T, rfl, rfl⟩
  | cons e S ih =>
    intro T
    obtain ⟨T₁, put, set⟩ := exists_putKey_ofAtom e.1 e.2 T
    obtain ⟨T₂, puts, sets⟩ := ih T₁
    refine ⟨T₂, ?_, ?_⟩
    · rw [rekey_cons, List.foldl_cons, put, puts]
    · rw [rekey_cons, setAll, List.foldlM_cons, set]
      exact sets

/-- For keys that are texts, these are the entries of the dictionary that is made of the map. -/
theorem exists_keyedEntries_ofAtoms {as : List (Atom × HostData)} (once : (as.map Prod.fst).Nodup)
    (within : ∀ e ∈ as, e.2.Within h) (boxes : ∀ e ∈ as, ∃ p, e.2.box h = .ok p) :
    ∃ (T : List (Atom × Value)) (l g : Heap) (d : DictRef),
      keyedEntries (rekey .ofAtom as) h = .ok (rekey .ofAtom T, l) ∧
      (ofAtoms as).box h = .ok (.dict d, g) ∧ (g.dict d).entries = rekey Atom.value T := by
  have steady : ∀ e ∈ as.map entryAction, Steady h e.2 :=
    List.forall_mem_map.mpr fun e mem => steady_box e.2 (within e mem)
  have each : ∀ e ∈ as.map entryAction, ∃ p, e.2 h = .ok p := List.forall_mem_map.mpr boxes
  obtain ⟨qs, l, run, -, -⟩ := exists_made steady each
  obtain ⟨T, collected, set⟩ := exists_collect_ofAtom (qs.mergeSort (byShown Atom.text))
  have hashable : ∀ p ∈ rekey Atom.value (qs.mergeSort (byShown Atom.text)),
      p.1.keyForm ≠ .unhashable := List.forall_mem_map.mpr fun q _ => hashable_value q.1
  obtain ⟨d, g, done, -, -, entries⟩ :=
    boxEntries_of_hashable (g := l) Dictionary.sound_empty hashable
  refine ⟨T, l, g, d, ?_, ?_, Option.some.inj (entries.symm.trans set)⟩
  · have shown : ∀ a, (HostKey.ofAtom a).text = a.text := fun a => by
      rw [HostKey.text, HostKey.atom_ofAtom]
    have actions : (rekey HostKey.ofAtom as).map entryAction =
        rekey HostKey.ofAtom (as.map entryAction) := by
      rw [rekey, rekey, List.map_map, List.map_map]
      rfl
    rw [keyedEntries, actions, boxInOrder_eq (perform_rekey HostKey.ofAtom run),
      mergeSort_rekey shown, ← collected]
    rfl
  · have actions : rekey Atom.value (as.map entryAction) = keyTable (as.map action) := by
      rw [keyTable_map_action once, rekey, List.map_map]
      rfl
    have valued := perform_rekey Atom.value run
    rw [actions] at valued
    rw [ofAtoms, box, keyedActions_ofAtoms, boxKeyed_eq valued, mergeSort_rekey l.repr_value]
    exact done

/-- A map from keys of any bytes gives the same entries, in the same order and under the same keys,
however its own are met, exactly if no two of its keys are shown alike.

In particular it does if the keys are texts.  The dictionary that is then made has these entries,
and it is the same, with the same index, in whatever order they are met. -/
theorem keyedEntries_perm_iff {es : List (HostKey × HostData)} (once : (es.map Prod.fst).Nodup)
    (within : ∀ e ∈ es, e.2.Within h) (boxes : ∀ e ∈ es, ∃ p, e.2.box h = .ok p) :
    ((∀ es₁ es₂, es.Perm es₁ → es.Perm es₂ →
      ∃ t₁ t₂ g₁ g₂, keyedEntries es₁ h = .ok (t₁, g₁) ∧ keyedEntries es₂ h = .ok (t₂, g₂) ∧
        List.Forall₂ (Match h g₁ g₂) t₁ t₂) ↔
      (es.map fun e => e.1.text).Nodup) ∧
    ∀ as as' : List (Atom × HostData), rekey .ofAtom as = es → as.Perm as' →
      (es.map fun e => e.1.text).Nodup ∧
      ∃ (T : List (Atom × Value)) (d d' : DictRef) (l g g' : Heap),
        keyedEntries es h = .ok (rekey .ofAtom T, l) ∧
        (ofAtoms as).box h = .ok (.dict d, g) ∧ (g.dict d).entries = rekey Atom.value T ∧
        (ofAtoms as').box h = .ok (.dict d', g') ∧ h.Twins g g' (.dict d) (.dict d') := by
  refine ⟨settled_iff once within boxes, ?_⟩
  rintro as as' rfl perm
  have there : ∀ e ∈ as, (.ofAtom e.1, e.2) ∈ rekey HostKey.ofAtom as := fun e mem =>
    List.mem_map_of_mem mem
  have within' : ∀ e ∈ as, e.2.Within h := fun e mem => within _ (there e mem)
  have boxes' : ∀ e ∈ as, ∃ p, e.2.box h = .ok p := fun e mem => boxes _ (there e mem)
  have once' : (as.map Prod.fst).Nodup := by
    rw [rekey, List.map_map] at once
    refine List.Nodup.of_map HostKey.ofAtom ?_
    rwa [List.map_map]
  have shown : (rekey HostKey.ofAtom as).map (fun e => e.1.text) = (as.map Prod.fst).map Atom.text := by
    rw [rekey, List.map_map, List.map_map]
    refine List.map_congr_left fun e _ => ?_
    rw [Function.comp_apply, HostKey.text, HostKey.atom_ofAtom]
    rfl
  rw [shown]
  refine ⟨once'.map fun a b same => Atom.text_inj same, ?_⟩
  obtain ⟨T, l, g, d, entries, boxed, same⟩ := exists_keyedEntries_ofAtoms once' within' boxes'
  obtain ⟨d₁, d', g₁, g', boxed₁, boxed', -, -, twins, -⟩ :=
    box_ofAtoms_perm once' perm within' boxes'
  obtain ⟨⟨⟩, rfl⟩ := Prod.mk.inj (Except.ok.inj (boxed.symm.trans boxed₁))
  exact ⟨T, d, d', l, g, g', entries, boxed, same, boxed', twins⟩

/-- Keys that address one entry, a string that reads like one of them, and bytes that write no
text. -/
theorem keyedEntries_perm_iff_collapsing :
    let es : List (HostKey × HostData) := [(.bool true, .list [.int 2]), (.string [0xFF], .nothing),
      (.string (Text.bytes "'True'"), .text "n"), (.int 1, .values [])]
    ∀ es₁ es₂, es.Perm es₁ → es.Perm es₂ →
      ∃ t₁ t₂ g₁ g₂, keyedEntries es₁ .empty = .ok (t₁, g₁) ∧
        keyedEntries es₂ .empty = .ok (t₂, g₂) ∧ List.Forall₂ (Match .empty g₁ g₂) t₁ t₂ := by
  intro es
  have once : (es.map Prod.fst).Nodup := by decide
  have apart : (es.map fun e => e.1.text).Nodup := by
    have atoms : (es.map fun e => e.1.atom).Nodup := by decide
    have texts := atoms.map fun a b same => Atom.text_inj same
    rwa [List.map_map] at texts
  refine (keyedEntries_perm_iff once (by simp [es, Within, WithinAll]) ?_).1.mpr apart
  simp only [es, List.forall_mem_cons]
  exact ⟨⟨_, rfl⟩, ⟨_, rfl⟩, ⟨_, rfl⟩, ⟨_, rfl⟩, fun e mem => absurd mem List.not_mem_nil⟩

/-- Two strings of one byte each.  Neither byte belongs to a character, both are shown as the
replacement character, and the dictionary has them as they were met. -/
theorem keyedEntries_of_stray_bytes :
    ∃ t t' g g', keyedEntries [(.string [0xFF], .int 1), (.string [0xFE], .int 2)] .empty =
        .ok (t, g) ∧
      keyedEntries [(.string [0xFE], .int 2), (.string [0xFF], .int 1)] .empty = .ok (t', g') ∧
      t.map Prod.fst = [.string [0xFF], .string [0xFE]] ∧
      t'.map Prod.fst = [.string [0xFE], .string [0xFF]] := by
  have met : ∀ (b b' : UInt8) (m n : Int), (HostKey.string [b]).atom = (HostKey.string [b']).atom →
      keyedEntries [(.string [b], .int m), (.string [b'], .int n)] .empty =
        .ok (collect [(.string [b], .int m), (.string [b'], .int n)], .empty) := by
    intro b b' m n alike
    have texts : (HostKey.string [b]).text = (HostKey.string [b']).text := congrArg Atom.text alike
    have run : perform ([(HostKey.string [b], HostData.int m), (.string [b'], .int n)].map
        entryAction) .empty = .ok ([(.string [b], .int m), (.string [b'], .int n)], .empty) := rfl
    have sorted := List.mergeSort_of_pairwise (List.pairwise_pair.mpr
      (byShown_of_eq (a := (HostKey.string [b], Value.int m)) (b := (.string [b'], .int n)) texts))
    rw [keyedEntries, boxInOrder_eq run, sorted]
    rfl
  have replaced : (HostKey.string [0xFF]).atom = (HostKey.string [0xFE]).atom := by decide
  exact ⟨_, _, _, _, met _ _ _ _ replaced, met _ _ _ _ replaced.symm, rfl, rfl⟩

end HostData

end Pseudocode
