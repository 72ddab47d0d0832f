import Mathlib.Data.List.Forall2
import Pseudocode.Proofs.Display.Form
import Pseudocode.Proofs.Equality
import Pseudocode.Proofs.Execution.Inserting
/-
# `Proofs.Copying.Tree` — values that unfold to finite trees

A tree is what a value is made of, without the places in the heap where its arrays and
dictionaries happen to be.  Whatever is no container stands in it as it is, so two values
with the same tree have the same records, instances, classes and functions at their leaves.
A value unfolds to a tree in a heap (`Heap.Unfolds`) if the containers that it is made of
exist and hold the parts in order.  A container may occur several times, but not within
itself: a value with a cycle has no tree.

The tree of a value depends only on the containers that the value reaches
(`Unfolds.of_sameAt`), it is unique, and it is no higher than the heap has containers
(`Unfolds.height_le`).  The display form of a value is that of its tree
(`Unfolds.repr_eq_text`).
-/
namespace Pseudocode

/-! ## Trees -/

/-- The structure of a value down to what is no container. -/
inductive Tree where
  | leaf (v : Value)
  | array (elements : List Tree)
  | dict (keys : List Value) (index : Std.HashMap Key Nat) (values : List Tree)

namespace Tree

/-- What holds of a tree when it holds of its branches holds of every tree. -/
@[elab_as_elim]
theorem induct {P : Tree → Prop} (leaf : ∀ v, P (.leaf v))
    (array : ∀ ts : List Tree, (∀ t ∈ ts, P t) → P (.array ts))
    (dict : ∀ ks ix (ts : List Tree), (∀ t ∈ ts, P t) → P (.dict ks ix ts)) (t : Tree) : P t :=
  @Tree.rec P (fun ts => ∀ t ∈ ts, P t) leaf array dict (fun _ mem => nomatch mem)
    (fun _ _ here there => List.forall_mem_cons.mpr ⟨here, there⟩) t

mutual

/-- No key and no leaf is the real that is not a number. -/
def NaNFree : Tree → Prop
  | .leaf v => v.isNaN = false
  | .array ts => NaNFreeAll ts
  | .dict ks _ ts => (∀ k ∈ ks, k.isNaN = false) ∧ NaNFreeAll ts

def NaNFreeAll : List Tree → Prop
  | [] => True
  | t :: ts => t.NaNFree ∧ NaNFreeAll ts

end

theorem NaNFreeAll.forall : ∀ {ts : List Tree}, NaNFreeAll ts → ∀ t ∈ ts, t.NaNFree
  | [], _ => fun _ mem => nomatch mem
  | _ :: _, free => List.forall_mem_cons.mpr ⟨free.1, free.2.forall⟩

mutual

/-- The number of containers that are nested in one another. -/
def height : Tree → Nat
  | .leaf _ => 0
  | .array ts => heights ts + 1
  | .dict _ _ ts => heights ts + 1

def heights : List Tree → Nat
  | [] => 0
  | t :: ts => max t.height (heights ts)

end

theorem height_le_heights : ∀ {ts : List Tree} {t : Tree}, t ∈ ts → t.height ≤ heights ts
  | _ :: _, _, .head _ => Nat.le_max_left _ _
  | _ :: _, _, .tail _ mem => Nat.le_trans (height_le_heights mem) (Nat.le_max_right _ _)

/-- Branches are lower than what they belong to. -/
theorem height_le_of_mem {ts : List Tree} {t : Tree} {n : Nat} (mem : t ∈ ts)
    (high : heights ts + 1 ≤ n + 1) : t.height ≤ n :=
  Nat.le_trans (height_le_heights mem) (Nat.le_of_succ_le_succ high)

theorem exists_highest : ∀ ts : List Tree, heights ts = 0 ∨ ∃ t ∈ ts, t.height = heights ts
  | [] => .inl rfl
  | t :: ts => by
    refine .inr ?_
    rcases Nat.le_total (heights ts) t.height with le | le
    · exact ⟨t, List.mem_cons_self, by rw [heights, Nat.max_eq_left le]⟩
    · rcases exists_highest ts with none | ⟨u, mem, high⟩
      · exact ⟨t, List.mem_cons_self, by rw [heights]; omega⟩
      · exact ⟨u, List.mem_cons_of_mem t mem, by rw [heights]; omega⟩

end Tree

namespace Heap

mutual

/-- The value is made of this in the heap.  The keys of dictionaries are no containers. -/
def Unfolds (h : Heap) : Tree → Value → Prop
  | .leaf u, v => v = u ∧ u.container? = none
  | .array ts, v => ∃ r, v = .array r ∧ r.index < h.arrays.size ∧
      UnfoldsAll h ts (h.array r).toList
  | .dict ks ix ts, v => ∃ r, v = .dict r ∧ r.index < h.dicts.size ∧
      (h.dict r).keys.toList = ks ∧ (h.dict r).index = ix ∧ (∀ k ∈ ks, k.container? = none) ∧
      UnfoldsAll h ts (h.dict r).values.toList

/-- The values are made of these, in order. -/
def UnfoldsAll (h : Heap) : List Tree → List Value → Prop
  | [], [] => True
  | t :: ts, v :: vs => Unfolds h t v ∧ UnfoldsAll h ts vs
  | _, _ => False

end

theorem unfoldsAll_iff {h : Heap} : ∀ {ts : List Tree} {vs : List Value},
    h.UnfoldsAll ts vs ↔ List.Forall₂ h.Unfolds ts vs
  | [], [] => ⟨fun _ => .nil, fun _ => trivial⟩
  | [], _ :: _ => ⟨False.elim, fun all => nomatch all⟩
  | _ :: _, [] => ⟨False.elim, fun all => nomatch all⟩
  | _ :: _, _ :: _ => by
    rw [List.forall₂_cons, ← unfoldsAll_iff]
    exact .rfl

variable {h h' : Heap}

theorem unfolds_array {ts : List Tree} {v : Value} :
    h.Unfolds (.array ts) v ↔ ∃ r, v = .array r ∧ r.index < h.arrays.size ∧
      List.Forall₂ h.Unfolds ts (h.array r).toList := by
  simp only [← unfoldsAll_iff]
  exact .rfl

theorem unfolds_dict {ks : List Value} {ix : Std.HashMap Key Nat} {ts : List Tree} {v : Value} :
    h.Unfolds (.dict ks ix ts) v ↔ ∃ r, v = .dict r ∧ r.index < h.dicts.size ∧
      (h.dict r).keys.toList = ks ∧ (h.dict r).index = ix ∧ (∀ k ∈ ks, k.container? = none) ∧
      List.Forall₂ h.Unfolds ts (h.dict r).values.toList := by
  simp only [← unfoldsAll_iff]
  exact .rfl

theorem unfolds_of_leaf {v : Value} (hv : v.container? = none) : h.Unfolds (.leaf v) v :=
  ⟨rfl, hv⟩

end Heap

/-- Of two lists of which the one goes with the other, something else holds member by member. -/
theorem forall₂_of_mem {α β : Type} {R S : α → β → Prop} {as : List α} {bs : List β}
    (all : List.Forall₂ R as bs) (each : ∀ a ∈ as, ∀ b ∈ bs, R a b → S a b) :
    List.Forall₂ S as bs := by
  induction all with
  | nil => exact .nil
  | cons here _ ih =>
    exact .cons (each _ List.mem_cons_self _ List.mem_cons_self here) (ih fun a ha b hb =>
      each a (List.mem_cons_of_mem _ ha) b (List.mem_cons_of_mem _ hb))

/-- A member of one list has its counterpart in the other. -/
theorem exists_left_of_mem {α β : Type} {R : α → β → Prop} {as : List α} {bs : List β}
    (all : List.Forall₂ R as bs) : ∀ b ∈ bs, ∃ a ∈ as, R a b := by
  induction all with
  | nil => exact fun _ mem => nomatch mem
  | cons here _ ih =>
    refine List.forall_mem_cons.mpr ⟨⟨_, List.mem_cons_self, here⟩, fun b mem => ?_⟩
    obtain ⟨a, ha, hab⟩ := ih b mem
    exact ⟨a, List.mem_cons_of_mem _ ha, hab⟩

/-- What stands at a place of one list has its counterpart at that place of the other. -/
theorem exists_getElem?_left {α β : Type} {R : α → β → Prop} {as : List α} {bs : List β}
    (all : List.Forall₂ R as bs) {i : Nat} {b : β} (hb : bs[i]? = some b) :
    ∃ a, as[i]? = some a ∧ R a b := by
  induction all generalizing i with
  | nil => cases hb
  | cons here _ ih =>
    cases i with
    | zero =>
      cases hb
      exact ⟨_, rfl, here⟩
    | succ i => exact ih hb

/-- Images of things that go together are the same if they are for every pair. -/
theorem map_eq_map_of_forall₂ {α β γ : Type} {R : α → β → Prop} {f : α → γ} {g : β → γ}
    {as : List α} {bs : List β} (all : List.Forall₂ R as bs)
    (each : ∀ a ∈ as, ∀ b, R a b → g b = f a) : bs.map g = as.map f := by
  induction all with
  | nil => rfl
  | cons here _ ih =>
    rw [List.map_cons, List.map_cons, each _ List.mem_cons_self _ here,
      ih fun a mem => each a (List.mem_cons_of_mem _ mem)]

/-- Things that each go with something go with a list. -/
theorem exists_forall₂ {α β : Type} {R : α → β → Prop} : ∀ {bs : List β},
    (∀ b ∈ bs, ∃ a, R a b) → ∃ as, List.Forall₂ R as bs
  | [], _ => ⟨[], .nil⟩
  | b :: bs, each => by
    obtain ⟨a, hab⟩ := each b List.mem_cons_self
    obtain ⟨as, all⟩ := exists_forall₂ fun c mem => each c (List.mem_cons_of_mem b mem)
    exact ⟨a :: as, .cons hab all⟩

namespace Heap

variable {h h' : Heap}

/-! ## A value has one tree -/

theorem forall₂_unique {α β : Type} {R : α → β → Prop} {as as' : List α} {bs : List β}
    (all : List.Forall₂ R as bs) (once : ∀ a ∈ as, ∀ a' b, R a b → R a' b → a = a')
    (all' : List.Forall₂ R as' bs) : as = as' := by
  induction all generalizing as' with
  | nil => cases all'; rfl
  | cons here there ih =>
    cases all' with
    | cons here' there' =>
      rw [once _ List.mem_cons_self _ _ here here',
        ih (fun a mem => once a (List.mem_cons_of_mem _ mem)) there']

theorem unfolds_unique {t : Tree} : ∀ {t' : Tree} {v : Value}, h.Unfolds t v → h.Unfolds t' v →
    t = t' := by
  induction t using Tree.induct with
  | leaf u =>
    rintro t' v ⟨rfl, hv⟩ ht'
    cases t' with
    | leaf u => rw [ht'.1]
    | array ts => obtain ⟨r, rfl, -⟩ := ht'; cases hv
    | dict ks ix ts => obtain ⟨r, rfl, -⟩ := ht'; cases hv
  | array ts ih =>
    intro t' v ht ht'
    obtain ⟨r, rfl, -, all⟩ := unfolds_array.mp ht
    cases t' with
    | leaf u => obtain ⟨rfl, hu⟩ := ht'; cases hu
    | array ts' =>
      obtain ⟨r', same, -, all'⟩ := unfolds_array.mp ht'
      cases same
      rw [forall₂_unique all (fun t mem t' b => ih t mem) all']
    | dict ks ix ts' => obtain ⟨r', same, -⟩ := ht'; cases same
  | dict ks ix ts ih =>
    intro t' v ht ht'
    obtain ⟨r, rfl, -, hk, hi, -, all⟩ := unfolds_dict.mp ht
    cases t' with
    | leaf u => obtain ⟨rfl, hu⟩ := ht'; cases hu
    | array ts' => obtain ⟨r', same, -⟩ := ht'; cases same
    | dict ks' ix' ts' =>
      obtain ⟨r', same, -, hk', hi', -, all'⟩ := unfolds_dict.mp ht'
      cases same
      rw [← hk, ← hi, ← hk', ← hi', forall₂_unique all (fun t mem t' b => ih t mem) all']

/-! ## What a value reaches -/

/-- The second heap has the container as the first has it. -/
def SameAt (h h' : Heap) : Container → Prop
  | .array r => h'.arrays[r.index]? = h.arrays[r.index]?
  | .dict r => h'.dicts[r.index]? = h.dicts[r.index]?

namespace SameAt

variable {c : Container}

theorem refl (h : Heap) (c : Container) : h.SameAt h c := by
  cases c <;> rfl

theorem symm (s : h.SameAt h' c) : h'.SameAt h c := by
  cases c <;> exact Eq.symm s

theorem trans {h'' : Heap} (s : h.SameAt h' c) (s' : h'.SameAt h'' c) : h.SameAt h'' c := by
  cases c <;> exact Eq.trans s' s

theorem slots {r : ArrayRef} (s : h.SameAt h' (.array r)) : h'.slots r = h.slots r := by
  rw [Heap.slots, Heap.slots, Array.getD_eq_getD_getElem?, Array.getD_eq_getD_getElem?, s]

theorem array {r : ArrayRef} (s : h.SameAt h' (.array r)) : h'.array r = h.array r :=
  congrArg Slots.toArray s.slots

theorem dict {r : DictRef} (s : h.SameAt h' (.dict r)) : h'.dict r = h.dict r := by
  rw [Heap.dict, Heap.dict, Array.getD_eq_getD_getElem?, Array.getD_eq_getD_getElem?, s]

theorem isIn (s : h.SameAt h' c) : c.In h' ↔ c.In h := by
  cases c <;>
  · rw [SameAt] at s
    rw [Container.In, Container.In, ← Nat.not_le, ← Nat.not_le, ← Array.getElem?_eq_none_iff,
      ← Array.getElem?_eq_none_iff, s]

theorem content? (s : h.SameAt h' c) (i : Nat) :
    h'.content? (.item c i) = h.content? (.item c i) := by
  cases c with
  | array r => rw [Heap.content?, Heap.content?, s.slots]
  | dict r => rw [Heap.content?, Heap.content?, s.dict]

end SameAt

theorem isIn_modifyArray {a : ArrayRef} {f : Slots → Slots} {c : Container} :
    c.In (h.modifyArray a f) ↔ c.In h :=
  @Container.in_congr h (h.modifyArray a f) Array.size_modify rfl c

theorem isIn_modifyDict {d : DictRef} {f : Dictionary → Dictionary} {c : Container} :
    c.In (h.modifyDict d f) ↔ c.In h :=
  @Container.in_congr h (h.modifyDict d f) rfl Array.size_modify c

/-- A change of one container leaves the others. -/
theorem sameAt_modifyArray {a : ArrayRef} {f : Slots → Slots} {c : Container}
    (other : c ≠ .array a) : h.SameAt (h.modifyArray a f) c := by
  match c with
  | .array r =>
    have apart : ¬ a.index = r.index := fun same => by
      cases a
      cases r
      cases same
      exact other rfl
    exact (Array.getElem?_modify ..).trans (if_neg apart)
  | .dict r => rfl

theorem sameAt_modifyDict {d : DictRef} {f : Dictionary → Dictionary} {c : Container}
    (other : c ≠ .dict d) : h.SameAt (h.modifyDict d f) c := by
  match c with
  | .array r => rfl
  | .dict r =>
    have apart : ¬ d.index = r.index := fun same => by
      cases d
      cases r
      cases same
      exact other rfl
    exact (Array.getElem?_modify ..).trans (if_neg apart)

namespace Reaches

variable {c : Container} {v : Value}

/-- What is reached through a container of another heap, if what is on the way there is the same
in both. -/
theorem of_sameAt (reach : h'.Reaches c v) (same : ∀ d, h.Reaches d v → h.SameAt h' d) :
    h.Reaches c v := by
  induction reach with
  | here hv => exact .here hv
  | within hv hi _ ih =>
    rw [(same _ (.here hv)).content?] at hi
    exact .within hv hi (ih fun d hd => same d (.within hv hi hd))

/-- A container is reached from another one through its contents. -/
theorem iff_array {r : ArrayRef} : h.Reaches c (.array r) ↔
    c = .array r ∨ ∃ x ∈ (h.array r).toList, h.Reaches c x := by
  constructor
  · intro reach
    cases reach with
    | here hv => exact .inl (Option.some.inj hv).symm
    | @within _ _ _ i hv hi hx =>
      cases hv
      refine .inr ⟨_, List.mem_iff_getElem?.mpr ⟨i, ?_⟩, hx⟩
      rwa [Array.getElem?_toList, Heap.array, Slots.getElem?_toArray]
  · rintro (rfl | ⟨x, mem, hx⟩)
    · exact .here rfl
    · exact .of_array mem hx

theorem iff_dict {r : DictRef} : h.Reaches c (.dict r) ↔
    c = .dict r ∨ ∃ x ∈ (h.dict r).values.toList, h.Reaches c x := by
  constructor
  · intro reach
    cases reach with
    | here hv => exact .inl (Option.some.inj hv).symm
    | @within _ _ _ i hv hi hx =>
      cases hv
      refine .inr ⟨_, List.mem_iff_getElem?.mpr ⟨i, ?_⟩, hx⟩
      rwa [Array.getElem?_toList]
  · rintro (rfl | ⟨x, mem, hx⟩)
    · exact .here rfl
    · exact .of_dict mem hx

theorem of_leaf (hv : v.container? = none) : ¬ h.Reaches c v := by
  intro reach
  cases reach with
  | here same => rw [hv] at same; cases same
  | within same _ _ => rw [hv] at same; cases same

end Reaches

namespace Unfolds

variable {t : Tree} {v : Value}

/-- The containers of which a value is made exist. -/
theorem isIn : ∀ {v : Value}, h.Unfolds t v → ∀ {c : Container}, h.Reaches c v → c.In h := by
  induction t using Tree.induct with
  | leaf u =>
    rintro v ⟨rfl, hv⟩ c reach
    exact absurd reach (Reaches.of_leaf hv)
  | array ts ih =>
    intro v ht c reach
    obtain ⟨r, rfl, inside, all⟩ := unfolds_array.mp ht
    rcases Reaches.iff_array.mp reach with rfl | ⟨x, mem, hx⟩
    · exact inside
    · obtain ⟨t, ht, hu⟩ := exists_left_of_mem all x mem
      exact ih t ht hu hx
  | dict ks ix ts ih =>
    intro v ht c reach
    obtain ⟨r, rfl, inside, -, -, -, all⟩ := unfolds_dict.mp ht
    rcases Reaches.iff_dict.mp reach with rfl | ⟨x, mem, hx⟩
    · exact inside
    · obtain ⟨t, ht, hu⟩ := exists_left_of_mem all x mem
      exact ih t ht hu hx

/-- The tree of a value depends on the containers that it reaches. -/
theorem of_sameAt : ∀ {v : Value}, h.Unfolds t v → (∀ c, h.Reaches c v → h.SameAt h' c) →
    h'.Unfolds t v := by
  induction t using Tree.induct with
  | leaf u => exact fun ht _ => ht
  | array ts ih =>
    intro v ht same
    obtain ⟨r, rfl, inside, all⟩ := unfolds_array.mp ht
    have self := same _ (.here rfl)
    refine unfolds_array.mpr ⟨r, rfl, self.isIn.mpr inside, ?_⟩
    rw [self.array]
    exact forall₂_of_mem all fun t ht x hx hu =>
      ih t ht hu fun c reach => same c (.of_array hx reach)
  | dict ks ix ts ih =>
    intro v ht same
    obtain ⟨r, rfl, inside, hk, hi, hkeys, all⟩ := unfolds_dict.mp ht
    have self := same _ (.here rfl)
    refine unfolds_dict.mpr ⟨r, rfl, self.isIn.mpr inside, ?_⟩
    rw [self.dict]
    exact ⟨hk, hi, hkeys, forall₂_of_mem all fun t ht x hx hu =>
      ih t ht hu fun c reach => same c (.of_dict hx reach)⟩

/-! ## No tree is higher than there are containers -/

/-- A tree with a height belongs to a container, one level above its highest branch. -/
theorem part (ht : h.Unfolds t v) : t.height = 0 ∨ ∃ c, v.container? = some c ∧ c.In h ∧
    (t.height = 1 ∨ ∃ u x, h.Unfolds u x ∧ t.height = u.height + 1) := by
  cases t with
  | leaf u => exact .inl rfl
  | array ts =>
    obtain ⟨r, rfl, inside, all⟩ := unfolds_array.mp ht
    refine .inr ⟨.array r, rfl, inside, ?_⟩
    rcases Tree.exists_highest ts with none | ⟨u, mem, high⟩
    · exact .inl (by rw [Tree.height, none])
    · obtain ⟨x, -, hx⟩ := exists_left_of_mem all.flip u mem
      exact .inr ⟨u, x, hx, by rw [Tree.height, high]⟩
  | dict ks ix ts =>
    obtain ⟨r, rfl, inside, -, -, -, all⟩ := unfolds_dict.mp ht
    refine .inr ⟨.dict r, rfl, inside, ?_⟩
    rcases Tree.exists_highest ts with none | ⟨u, mem, high⟩
    · exact .inl (by rw [Tree.height, none])
    · obtain ⟨x, -, hx⟩ := exists_left_of_mem all.flip u mem
      exact .inr ⟨u, x, hx, by rw [Tree.height, high]⟩

/-- On the way down to a deepest part every container is met once: the tree of one
that is met later is lower, and a container has one tree. -/
theorem exists_path (ht : h.Unfolds t v) : ∃ cs : List Container, cs.Nodup ∧
    t.height ≤ cs.length ∧
      ∀ c ∈ cs, c.In h ∧ ∃ u x, h.Unfolds u x ∧ x.container? = some c ∧ u.height ≤ t.height := by
  induction height : t.height using Nat.strongRecOn generalizing t v with
  | _ n ih =>
    subst height
    rcases ht.part with low | ⟨c, hc, inside, low | ⟨u, x, hx, high⟩⟩
    · exact ⟨[], List.nodup_nil, Nat.le_of_eq low, fun _ mem => nomatch mem⟩
    · exact ⟨[c], List.nodup_singleton c, Nat.le_of_eq low,
        List.forall_mem_singleton.mpr ⟨inside, t, v, ht, hc, Nat.le_refl _⟩⟩
    · obtain ⟨cs, once, long, below⟩ := ih u.height (by omega) hx rfl
      refine ⟨c :: cs, List.nodup_cons.mpr ⟨?_, once⟩, by rw [List.length_cons]; omega, ?_⟩
      · intro again
        obtain ⟨-, t', v', ht', same, lower⟩ := below c again
        obtain rfl := container?_inj hc same
        obtain rfl := unfolds_unique ht ht'
        omega
      · refine List.forall_mem_cons.mpr ⟨⟨inside, t, v, ht, hc, Nat.le_refl _⟩, ?_⟩
        intro d mem
        obtain ⟨inside', t', v', ht', same, lower⟩ := below d mem
        exact ⟨inside', t', v', ht', same, by omega⟩

theorem height_le (ht : h.Unfolds t v) : t.height ≤ h.containers := by
  obtain ⟨cs, once, long, all⟩ := ht.exists_path
  exact Nat.le_trans long (length_le_containers once fun c mem => (all c mem).1)

end Unfolds

end Heap

/-! ## Display forms -/

namespace Heap

/-- The display form of what is no container, as inside containers. -/
def leafRepr (h : Heap) : Value → String
  | .string s => Text.quoted s
  | v => h.leafText v

theorem reprTo_eq_leafRepr {h : Heap} {v : Value} (hv : v.container? = none) (n : Nat) :
    h.reprTo (n + 1) v = h.leafRepr v := by
  cases v <;> first | rfl | cases hv

end Heap

namespace Tree

mutual

/-- The display form of a tree with leaves in a heap. -/
def text (h : Heap) : Tree → String
  | .leaf v => h.leafRepr v
  | .array ts => bracketed (texts h ts)
  | .dict ks _ ts => braced ((ks.zip (texts h ts)).map fun e => entryText (h.leafRepr e.1) e.2)

def texts (h : Heap) : List Tree → List String
  | [] => []
  | t :: ts => t.text h :: texts h ts

end

theorem texts_eq (h : Heap) : ∀ ts, texts h ts = ts.map (text h)
  | [] => rfl
  | t :: ts => congrArg (t.text h :: ·) (texts_eq h ts)

/-- The display form depends on those of the leaves. -/
theorem text_congr {h h' : Heap} (leaves : h'.leafRepr = h.leafRepr) (t : Tree) :
    t.text h' = t.text h := by
  induction t using Tree.induct with
  | leaf v => exact congrFun leaves v
  | array ts ih => rw [text, text, texts_eq, texts_eq, List.map_congr_left ih]
  | dict ks ix ts ih => rw [text, text, texts_eq, texts_eq, List.map_congr_left ih, leaves]

end Tree

namespace Heap.Unfolds

variable {h : Heap} {t : Tree} {v : Value}

theorem reprTo_eq_text : ∀ {v : Value} {n : Nat}, h.Unfolds t v → t.height ≤ n →
    h.reprTo (n + 1) v = t.text h := by
  induction t using Tree.induct with
  | leaf u =>
    rintro v n ⟨rfl, hv⟩ -
    exact reprTo_eq_leafRepr hv n
  | array ts ih =>
    intro v n ht high
    obtain ⟨r, rfl, -, all⟩ := unfolds_array.mp ht
    obtain ⟨n, rfl⟩ := Nat.exists_eq_add_one_of_ne_zero (Nat.ne_zero_of_lt high)
    have parts := map_eq_map_of_forall₂ all fun t mem x hx =>
      ih t mem hx (Tree.height_le_of_mem mem high)
    rw [Tree.text, Tree.texts_eq, ← parts]
    rfl
  | dict ks ix ts ih =>
    intro v n ht high
    obtain ⟨r, rfl, -, rfl, -, hkeys, all⟩ := unfolds_dict.mp ht
    obtain ⟨n, rfl⟩ := Nat.exists_eq_add_one_of_ne_zero (Nat.ne_zero_of_lt high)
    have parts := map_eq_map_of_forall₂ all fun t mem x hx =>
      ih t mem hx (Tree.height_le_of_mem mem high)
    rw [Tree.text, Tree.texts_eq, ← parts, List.zip_map_right, List.map_map]
    refine congrArg braced (List.map_congr_left fun e he => ?_)
    exact congrArg (entryText · _) (reprTo_eq_leafRepr (hkeys e.1 (List.of_mem_zip he).1) n)

theorem repr_eq_text (ht : h.Unfolds t v) : h.repr v = t.text h :=
  ht.reprTo_eq_text (Nat.le_succ_of_le ht.height_le)

end Heap.Unfolds

end Pseudocode
