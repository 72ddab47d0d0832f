import Mathlib.Logic.Relation
import Pseudocode.Proofs.Ownership.Forest
import Pseudocode.Value.Plain
/-
# `Proofs.Ownership.Sound` — the invariant of the heap

A heap is sound if it is closed, if its containers can be ranked, and if there is a
set of containers that owns the slots: it has all that the slots hold, those at
the positions of its own containers included, and no two of these slots hold the
same container.  Stored containers are in every such set, so a sound heap is
unshared (`Sound.unshared`).  The set may have more: a container stays in it when
what held it is overwritten, which makes the invariant easy to keep.

All ways of storing follow one pattern (`Graft`): a forest of new containers is
made, and afterwards each slot holds what some slot held before, or a root of the
forest, no two of them the same.  New ranks put the forest below everything else.

What a sound heap promises to those who use it is `Heap.ValueSemantics`: no two slots
hold the same container, no container contains itself, and the three functions that
descend into containers come to an end, which is to say that the depth they are
given is never used up.
-/
namespace Pseudocode

/-- A slot that is a position of a container only if that is in the set. -/
def Slot.Of (S : Container → Prop) (p : Slot) : Prop := ∀ c, p.host = some c → S c

theorem Slot.of_root {S : Container → Prop} {p : Slot} (hp : p.host = none) : p.Of S :=
  fun c hc => by rw [hp] at hc; cases hc

namespace Heap

/-! ## The invariant -/

/-- The set has all that its slots hold, and each of them only once. -/
structure Owns (h : Heap) (S : Container → Prop) : Prop where
  isIn : ∀ c, S c → c.In h
  closed : ∀ p c, p.Of S → h.held? p = some c → S c
  unique : ∀ p q c, p.Of S → q.Of S → h.held? p = some c → h.held? q = some c → p = q

/-- The invariant of heaps, next to `n` interpreters. -/
structure Sound (n : Nat) (h : Heap) : Prop where
  closed : h.Closed (h.extent n)
  ranked : h.Ranked
  owned : ∃ S, h.Owns S

theorem Owns.stored {h : Heap} {S : Container → Prop} (ho : h.Owns S) {c : Container}
    (hc : h.Stored c) : S c := by
  induction hc with
  | root hp hc => exact ho.closed _ _ (Slot.of_root hp) hc
  | item _ hd ih => exact ho.closed _ _ (fun e he => by cases he; exact ih) hd

theorem Sound.empty (n : Nat) : Heap.empty.Sound n where
  closed := .empty
  ranked := by
    have hnot : ∀ c : Container, ¬ c.In Heap.empty := by rintro (r | r) hc <;> cases hc
    exact ⟨fun _ => 0, fun c _ _ hd => absurd (isIn_of_held? hd) (hnot c), fun c hc =>
      absurd hc (hnot c)⟩
  owned := by
    have hnone : ∀ p, Heap.empty.held? p = none := by
      intro p
      match p with
      | .item (.array _) i => simp [held?, content?, slots, Heap.empty, Slots.get?, Slots.empty,
          Slots.ofArray, Slots.within]
      | .item (.dict _) i => simp [held?, content?, dict, Heap.empty, Dictionary.empty]
      | .binding _ _ | .static _ _ | .property _ _ | .field _ _ => rfl
    refine ⟨fun _ => False, fun _ hc => hc.elim, fun p c _ hc => ?_, fun p q c _ _ hc _ => ?_⟩
    · rw [hnone] at hc; cases hc
    · rw [hnone] at hc; cases hc

/-- A heap with the same containers in the same slots. -/
theorem Sound.congr {n m : Nat} {h h' : Heap} (hs : h.Sound n)
    (ha : h'.arrays.size = h.arrays.size) (hd : h'.dicts.size = h.dicts.size)
    (hp : ∀ p, h'.held? p = h.held? p) (hc : h'.Closed (h'.extent m)) : h'.Sound m where
  closed := hc
  ranked := by
    obtain ⟨rank, hr, hb⟩ := hs.ranked
    refine ⟨rank, fun c i d he => hr c i d (hp _ ▸ he), fun c hin => ?_⟩
    rw [containers_congr ha hd]
    exact hb c ((Container.in_congr ha hd).mp hin)
  owned := by
    obtain ⟨S, ho⟩ := hs.owned
    exact ⟨S, fun c hS => (Container.in_congr ha hd).mpr (ho.isIn c hS),
      fun p c ho' he => ho.closed p c ho' (hp _ ▸ he),
      fun p q c hp' hq he he' => ho.unique p q c hp' hq (hp _ ▸ he) (hp _ ▸ he')⟩

/-! ## Values that are not stored -/

/-- A new container that is not stored may hold anything. -/
theorem Sound.adds {n : Nat} {h h' : Heap} (hs : h.Sound n) {c : Container} {xs : Array Value}
    (a : h.Adds c xs h') (hx : ∀ v ∈ xs, v.Within (h.extent n)) (hc : h'.Closed (h'.extent n)) :
    h'.Sound n where
  closed := hc
  ranked := by
    obtain ⟨rank, hr, hb⟩ := hs.ranked
    have hcount := a.count
    refine ⟨fun d => if d = c then h.containers else rank d, fun d i e he => ?_, fun d hd => ?_⟩
    · by_cases hdc : d = c
      · subst hdc
        obtain ⟨v, hv, hve⟩ := held?_eq_some.mp he
        rw [a.new] at hv
        have hin : e.In h := (hx v (Array.mem_of_getElem? hv)).container hve
        have hed : e ≠ d := by rintro rfl; exact a.notIn hin
        simpa only [hed, ↓reduceIte] using hb e hin
      · rw [held?_congr (a.old (.item d i) fun h => hdc (Option.some.inj h))] at he
        have hec : e ≠ c := by rintro rfl; exact a.notIn (hs.closed.held? he)
        simpa only [hdc, hec, ↓reduceIte] using hr d i e he
    · rcases (a.isIn d).mp hd with hd | rfl
      · have hdc : d ≠ c := by rintro rfl; exact a.notIn hd
        have := hb d hd
        simp only [hdc, ↓reduceIte]
        omega
      · simp only [↓reduceIte]
        omega
  owned := by
    obtain ⟨S, ho⟩ := hs.owned
    have hheld : ∀ p : Slot, p.Of S → h'.held? p = h.held? p := fun p hp =>
      held?_congr (a.old p fun hc => a.notIn (ho.isIn c (hp c hc)))
    refine ⟨S, fun d hd => (a.isIn d).mpr (.inl (ho.isIn d hd)), fun p d hp hd => ?_,
      fun p q d hp hq hd hd' => ?_⟩
    · exact ho.closed p d hp (hheld p hp ▸ hd)
    · exact ho.unique p q d hp hq (hheld p hp ▸ hd) (hheld q hq ▸ hd')

theorem Sound.newArray {n : Nat} {h : Heap} (hs : h.Sound n) {xs : Array Value}
    (hx : ∀ v ∈ xs, v.Within (h.extent n)) : (h.newArray xs).2.Sound n :=
  have g := Grows.newArray h xs
  hs.adds (h.adds_newArray xs) hx ((hs.closed.newArray hx).mono (extent_le g.arrays g.dicts n))

theorem Sound.newDict {n : Nat} {h : Heap} (hs : h.Sound n) {d : Dictionary}
    (hd : d.All (Value.Within (h.extent n))) : (h.newDict d).2.Sound n :=
  have g := Grows.newDict h d
  hs.adds (h.adds_newDict d) hd.values ((hs.closed.newDict hd).mono (extent_le g.arrays g.dicts n))

/-! ## Storing -/

/-- Where what a slot holds comes from: another slot, or a root of a forest. -/
inductive Origin where
  | slot (q : Slot)
  | root (i : Nat)

/-- From `h` a forest was made in `h₁`, and then its roots were stored in `h₂`, among
what `h` had.  `origin` says what comes from where. -/
structure Graft (h h₁ h₂ : Heap) (vs : List Value) (origin : Slot → Origin → Prop) : Prop where
  forest : Forest h h₁ vs
  arrays_le : h.arrays.size ≤ h₁.arrays.size
  dicts_le : h.dicts.size ≤ h₁.dicts.size
  arrays : h₂.arrays.size = h₁.arrays.size
  dicts : h₂.dicts.size = h₁.dicts.size
  new : ∀ c i, ¬ c.In h → h₂.held? (.item c i) = h₁.held? (.item c i)
  source : ∀ p c, p.Of (·.In h) → h₂.held? p = some c →
    (∃ q, origin p (.slot q) ∧ q.host = p.host ∧ h.held? q = some c) ∨
      ∃ i, origin p (.root i) ∧ h₁.at? vs (.root i) = some c
  injective : ∀ p q o, origin p o → origin q o → p = q

namespace Graft

variable {n : Nat} {h h₁ h₂ : Heap} {vs : List Value} {origin : Slot → Origin → Prop}

theorem isIn_iff (g : Graft h h₁ h₂ vs origin) {c : Container} : c.In h₂ ↔ c.In h₁ :=
  Container.in_congr g.arrays g.dicts

theorem isIn (g : Graft h h₁ h₂ vs origin) {c : Container} (hc : c.In h) : c.In h₂ := by
  match c with
  | .array r => exact Nat.lt_of_lt_of_le hc (g.arrays ▸ g.arrays_le)
  | .dict r => exact Nat.lt_of_lt_of_le hc (g.dicts ▸ g.dicts_le)

theorem ranked (g : Graft h h₁ h₂ vs origin) (hc : h.Closed (h.extent n)) (hr : h.Ranked) :
    h₂.Ranked := by
  classical
  obtain ⟨rank, hr, hb⟩ := hr
  obtain ⟨rank₁, hr₁, hb₁⟩ := g.forest.ranked
  have hle : h.containers ≤ h₁.containers := containers_le g.arrays_le g.dicts_le
  have heq : h₂.containers = h₁.containers := containers_congr g.arrays g.dicts
  refine ⟨fun c => if c.In h then rank c + (h₁.containers - h.containers) else rank₁ c, ?_, ?_⟩
  · intro c i d hd
    by_cases hcin : c.In h
    · rcases g.source _ d (fun e he => by cases he; exact hcin) hd with
        ⟨q, -, hq, hqd⟩ | ⟨j, -, hj⟩
      · match q, hq with
        | .item _ j, rfl =>
            have := hr c j d hqd
            simp only [hcin, hc.held? hqd, ↓reduceIte]
            omega
      · have hn := g.forest.new (.root j) d trivial hj
        have := hb₁ d hn.1 hn.2
        simp only [hcin, hn.1, ↓reduceIte]
        omega
    · rw [g.new c i hcin] at hd
      have hn := g.forest.new (.item c i) d hcin hd
      simpa only [hcin, hn.1, ↓reduceIte] using hr₁ c i d hcin hd
  · intro c hc₂
    by_cases hcin : c.In h
    · have := hb c hcin
      simp only [hcin, ↓reduceIte]
      omega
    · have := hb₁ c hcin (g.isIn_iff.mp hc₂)
      simp only [hcin, ↓reduceIte]
      omega

/-- A container in a slot of the grafted set is an old one, that comes from a slot
of the old set, or a new one, that has a place in the forest. -/
theorem trace (g : Graft h h₁ h₂ vs origin) {S : Container → Prop} {p : Slot} {c : Container}
    (hp : p.Of fun d => S d ∨ (¬ d.In h ∧ d.In h₂)) (hc : h₂.held? p = some c) :
    (∃ q, origin p (.slot q) ∧ q.Of S ∧ h.held? q = some c) ∨
      (∃ i, origin p (.root i) ∧ h₁.at? vs (.root i) = some c) ∨
      ∃ d i, p = .item d i ∧ ¬ d.In h ∧ h₁.at? vs (.item d i) = some c := by
  by_cases hold : p.Of (·.In h)
  · rcases g.source p c hold hc with ⟨q, ho, hq, hqc⟩ | hroot
    · refine .inl ⟨q, ho, fun d hd => ?_, hqc⟩
      rw [hq] at hd
      exact (hp d hd).resolve_right fun hn => hn.1 (hold d hd)
    · exact .inr (.inl hroot)
  · obtain ⟨d, hd⟩ := Classical.not_forall.mp hold
    obtain ⟨hpd, hdin⟩ := Classical.not_imp.mp hd
    match p, hpd with
    | .item d i, rfl => exact .inr (.inr ⟨d, i, rfl, hdin, (g.new d i hdin).symm.trans hc⟩)

theorem owns (g : Graft h h₁ h₂ vs origin) (hcl : h.Closed (h.extent n)) {S : Container → Prop}
    (ho : h.Owns S) : h₂.Owns fun c => S c ∨ (¬ c.In h ∧ c.In h₂) where
  isIn c hc := hc.elim (fun hS => g.isIn (ho.isIn c hS)) fun hn => hn.2
  closed p c hp hc := by
    rcases g.trace hp hc with ⟨q, -, hq, hqc⟩ | ⟨i, -, hi⟩ | ⟨d, i, -, hd, hi⟩
    · exact .inl (ho.closed q c hq hqc)
    · have hn := g.forest.new (.root i) c trivial hi
      exact .inr ⟨hn.1, g.isIn_iff.mpr hn.2⟩
    · have hn := g.forest.new (.item d i) c hd hi
      exact .inr ⟨hn.1, g.isIn_iff.mpr hn.2⟩
  unique p p' c hp hp' hc hc' := by
    rcases g.trace hp hc with ⟨q, o, hq, hqc⟩ | ⟨i, o, hi⟩ | ⟨d, i, rfl, hd, hi⟩ <;>
      rcases g.trace hp' hc' with ⟨q', o', hq', hqc'⟩ | ⟨j, o', hj⟩ | ⟨e, j, rfl, he, hj⟩
    · cases ho.unique q q' c hq hq' hqc hqc'
      exact g.injective p p' _ o o'
    · exact absurd (hcl.held? hqc) (g.forest.new (.root j) c trivial hj).1
    · exact absurd (hcl.held? hqc) (g.forest.new (.item e j) c he hj).1
    · exact absurd (hcl.held? hqc') (g.forest.new (.root i) c trivial hi).1
    · cases g.forest.unique (.root i) (.root j) c trivial trivial hi hj
      exact g.injective p p' _ o o'
    · cases g.forest.unique (.root i) (.item e j) c trivial he hi hj
    · exact absurd (hcl.held? hqc') (g.forest.new (.item d i) c hd hi).1
    · cases g.forest.unique (.item d i) (.root j) c hd trivial hi hj
    · cases g.forest.unique (.item d i) (.item e j) c hd he hi hj
      rfl

theorem sound (g : Graft h h₁ h₂ vs origin) (hs : h.Sound n) (hc : h₂.Closed (h₂.extent n)) :
    h₂.Sound n where
  closed := hc
  ranked := g.ranked hs.closed hs.ranked
  owned := hs.owned.elim fun _ ho => ⟨_, g.owns hs.closed ho⟩

end Graft

end Heap

/-! ## Value semantics -/

namespace Heap

variable {n : Nat} {h : Heap} {rank : Container → Nat}

/-- The depth that suffices for every value of a heap. -/
theorem IsRank.shallow (hr : h.IsRank rank) {v : Value} (hv : v.Within (h.extent n)) {depth : Nat}
    (hd : h.containers ≤ depth) : Shallow n h rank depth v :=
  ⟨hv, fun c hvc => Nat.lt_of_lt_of_le (hr.2 c (hv.container hvc)) hd⟩

theorem Closed.key {e : Extent} (hc : h.Closed e) {r : DictRef} {k v : Value}
    (hk : (k, v) ∈ (h.dict r).toList) : k.container? = none := by
  have hform := (hc.dict r).keys.toArray k (Array.mem_toList_iff.mp (List.of_mem_zip hk).1)
  cases k <;> first | rfl | exact absurd rfl hform

theorem copy_eq_copyTo (v : Value) : copy v h = copyTo (h.containers + 1) v h := by
  cases v <;> rfl

end Heap

end Pseudocode
