import Pseudocode.Proofs.Ownership.Sound
import Pseudocode.Run.Call
/-
# `Proofs.Ownership.Store` — every way of storing keeps the heap sound

One lemma for each: writing a copy to a slot, removing and inserting elements,
building a record from copies of the arguments, and an instance from copies of the
properties of its class.
-/
namespace Pseudocode.Heap

variable {n : Nat} {h h₁ h₂ : Heap}

/-! ## Copies -/

/-- A copy that is not stored anywhere yet. -/
theorem Sound.copied (hs : h.Sound n) {vs : List Value} (k : Copied n h vs h₁) : h₁.Sound n := by
  have g : Graft h h₁ h₁ vs fun p o => o = .slot p :=
    { forest := k.forest, arrays_le := k.grows.arrays, dicts_le := k.grows.dicts
      arrays := rfl, dicts := rfl, new := fun _ _ _ => rfl
      source := fun p c hp hc => .inl ⟨p, rfl, rfl, held?_congr (k.grows.content p hp) ▸ hc⟩
      injective := fun p q o hp hq => by cases hp; cases hq; rfl }
  exact g.sound hs k.closed

theorem Sound.copy (hs : h.Sound n) {v : Value} (hv : v.Within (h.extent n)) :
    Copied n h [(Heap.copy v h).1] (Heap.copy v h).2 :=
  copied_copy hs.closed hs.ranked v h hv (.refl h) hs.closed

/-- A copy is written to a slot that was there before it was made. -/
theorem Sound.write (hs : h.Sound n) {v : Value} (k : Copied n h [v] h₁) {p : Slot}
    (hw : h₁.Writes p v h₂) (hp : p.Of (·.In h)) (hc : h₂.Closed (h₂.extent n)) : h₂.Sound n := by
  have g : Graft h h₁ h₂ [v]
      fun q o => (q = p ∧ o = .root 0) ∨ (q ≠ p ∧ o = .slot q) :=
    { forest := k.forest, arrays_le := k.grows.arrays, dicts_le := k.grows.dicts
      arrays := hw.arrays, dicts := hw.dicts
      new := fun c i hc => held?_congr (hw.other _ fun he => hc (hp c (he ▸ rfl)))
      source := fun q c hq hc => by
        by_cases hqp : q = p
        · subst hqp
          obtain ⟨x, hx, hxc⟩ := held?_eq_some.mp hc
          rw [hw.self x hx] at hxc
          exact .inr ⟨0, .inl ⟨rfl, rfl⟩, by simpa [at?] using hxc⟩
        · rw [held?_congr (hw.other q hqp), held?_congr (k.grows.content q hq)] at hc
          exact .inl ⟨q, .inr ⟨hqp, rfl⟩, rfl, hc⟩
      injective := by
        rintro q q' o (⟨rfl, rfl⟩ | ⟨hq, rfl⟩) (⟨rfl, ho⟩ | ⟨hq', ho⟩)
        · rfl
        · cases ho
        · cases ho
        · cases ho; rfl }
  exact g.sound hs hc

/-! ## Removing -/

/-- The positions of a container are filled anew with what stood at others of them,
no two with the same. -/
theorem Sound.rearrange (hs : h.Sound n) {c : Container} (hcin : c.In h)
    (ha : h₂.arrays.size = h.arrays.size) (hd : h₂.dicts.size = h.dicts.size) {f : Nat → Nat}
    (hf : f.Injective) (hitem : ∀ i, h₂.content? (.item c i) = h.content? (.item c (f i)))
    (hother : ∀ p : Slot, p.host ≠ some c → h₂.content? p = h.content? p)
    (hc : h₂.Closed (h₂.extent n)) : h₂.Sound n := by
  have g : Graft h h h₂ [] fun q o =>
      (∃ i, q = .item c i ∧ o = .slot (.item c (f i))) ∨ (q.host ≠ some c ∧ o = .slot q) :=
    { forest := .nil h, arrays_le := Nat.le_refl _, dicts_le := Nat.le_refl _
      arrays := ha, dicts := hd
      new := fun d i hd => held?_congr (hother _ fun he => hd (Option.some.inj he ▸ hcin))
      source := fun q d _ hqd => by
        by_cases hq : q.host = some c
        · obtain ⟨i, rfl⟩ := Slot.host_eq_some.mp hq
          exact .inl ⟨.item c (f i), .inl ⟨i, rfl, rfl⟩, rfl, held?_congr (hitem i) ▸ hqd⟩
        · exact .inl ⟨q, .inr ⟨hq, rfl⟩, rfl, held?_congr (hother q hq) ▸ hqd⟩
      injective := by
        rintro q q' o (⟨i, rfl, rfl⟩ | ⟨hq, rfl⟩) (⟨j, rfl, ho⟩ | ⟨hq', ho⟩)
        · simp only [Origin.slot.injEq, Slot.item.injEq, true_and] at ho
          rw [hf ho]
        · cases ho
          exact absurd rfl hq'
        · cases ho
          exact absurd rfl hq
        · cases ho; rfl }
  exact g.sound hs hc

/-- The place that what stands at `i` had before the place `p` was closed. -/
def skip (p i : Nat) : Nat := if i < p then i else i + 1

theorem skip_injective (p : Nat) : (skip p).Injective := by
  intro i j hij
  simp only [skip] at hij
  split at hij <;> split at hij <;> omega

theorem Sound.erase (hs : h.Sound n) {a : ArrayRef} (ha : a.index < h.arrays.size) {p : Nat}
    (hp : p < (h.slots a).size) : (h.modifyArray a (·.erase p)).Sound n := by
  have hsize : (h.modifyArray a (·.erase p)).arrays.size = h.arrays.size := Array.size_modify
  refine hs.rearrange (c := .array a) ha hsize rfl (skip_injective p) (fun i => ?_)
    (fun q hq => h.content?_modifyArray a _ q hq) ?_
  · simp only [content?, slots_modifyArray h a _ ha, Slots.get?_erase _ hp, skip]
    split <;> rfl
  · rw [extent_congr hsize rfl]
    exact hs.closed.modifyArray a fun _ hs => hs.erase

theorem getElem?_eraseIdxIfInBounds {xs : Array Value} {i : Nat} (hi : i < xs.size) (j : Nat) :
    (xs.eraseIdxIfInBounds i)[j]? = xs[skip i j]? := by
  simp only [Array.eraseIdxIfInBounds, hi, ↓reduceDIte, skip, Array.getElem?_eraseIdx hi]
  split <;> rfl

theorem Sound.remove (hs : h.Sound n) {d : DictRef} (hd : d.index < h.dicts.size) {key : Value}
    {rest : Dictionary} (he : (h.dict d).erase? key = some rest) :
    (h.modifyDict d fun _ => rest).Sound n := by
  have hsize : (h.modifyDict d fun _ => rest).dicts.size = h.dicts.size := Array.size_modify
  obtain ⟨f, hf, hrest⟩ : ∃ f : Nat → Nat, f.Injective ∧
      ∀ i, rest.values[i]? = (h.dict d).values[f i]? := by
    simp only [Dictionary.erase?] at he
    split at he
    · split at he
      next i _ =>
        cases he
        by_cases hi : i < (h.dict d).values.size
        · exact ⟨skip i, skip_injective i, getElem?_eraseIdxIfInBounds hi⟩
        · exact ⟨id, Function.injective_id, fun j => by simp [Array.eraseIdxIfInBounds, hi]⟩
      next => cases he
    · cases he
  refine hs.rearrange (c := .dict d) hd rfl hsize hf (fun i => ?_)
    (fun q hq => h.content?_modifyDict d _ q hq) ?_
  · simp only [content?, dict_modifyDict h d _ hd, hrest]
  · have hext : (h.modifyDict d fun _ => rest).extent n = h.extent n := by
      simp only [extent, hsize, show (h.modifyDict d fun _ => rest).arrays = h.arrays from rfl]
    rw [hext]
    exact hs.closed.modifyDict d fun _ _ => (hs.closed.dict d).erase? he

/-! ## Inserting -/

theorem content?_openGap {a : ArrayRef} (ha : a.index < h.arrays.size) {p : Nat}
    (hp : p ≤ (h.slots a).size) {i : Nat} (hi : i ≠ p) :
    (h.modifyArray a (·.openGap p)).content? (.item (.array a) i) =
      h.content? (.item (.array a) (if i < p then i else i - 1)) := by
  simp only [content?, slots_modifyArray h a _ ha, Slots.get?_openGap _ hp, hi, ↓reduceIte]
  split <;> rfl

/-- What stands in the room itself stood there before, or it is no container. -/
theorem held?_openGap {a : ArrayRef} (ha : a.index < h.arrays.size) {p : Nat}
    (hp : p ≤ (h.slots a).size) {d : Container}
    (hd : (h.modifyArray a (·.openGap p)).held? (.item (.array a) p) = some d) :
    h.held? (.item (.array a) p) = some d := by
  simp only [held?, content?, slots_modifyArray h a _ ha, Slots.get?_openGap _ hp,
    Nat.lt_irrefl, ↓reduceIte] at hd ⊢
  split at hd
  · exact hd
  · cases hd

theorem Ranked.openGap (hr : h.Ranked) {a : ArrayRef} (ha : a.index < h.arrays.size) {p : Nat}
    (hp : p ≤ (h.slots a).size) : (h.modifyArray a (·.openGap p)).Ranked := by
  obtain ⟨rank, hr, hb⟩ := hr
  have hsize : (h.modifyArray a (·.openGap p)).arrays.size = h.arrays.size := Array.size_modify
  have hother : ∀ c i, c ≠ .array a →
      (h.modifyArray a (·.openGap p)).held? (.item c i) = h.held? (.item c i) := fun c i hc =>
    held?_congr (h.content?_modifyArray a _ (.item c i) fun he => hc (Option.some.inj he))
  refine ⟨rank, fun c i d hd => ?_, fun c hc => ?_⟩
  · by_cases hca : c = .array a
    · subst hca
      by_cases hi : i = p
      · subst hi
        exact hr _ i d (held?_openGap ha hp hd)
      · exact hr _ _ d (held?_congr (content?_openGap ha hp hi) ▸ hd)
    · exact hr c i d (hother c i hca ▸ hd)
  · rw [containers_congr hsize rfl]
    exact hb c ((Container.in_congr hsize rfl).mp hc)

/-- A copy that is taken when room was made in an array. -/
theorem Sound.copy_openGap (hs : h.Sound n) {a : ArrayRef} (ha : a.index < h.arrays.size) {p : Nat}
    (hp : p ≤ (h.slots a).size) {v : Value} (hv : v.Within (h.extent n)) :
    Copied n (h.modifyArray a (·.openGap p)) [(Heap.copy v (h.modifyArray a (·.openGap p))).1]
      (Heap.copy v (h.modifyArray a (·.openGap p))).2 := by
  have hsize : (h.modifyArray a (·.openGap p)).arrays.size = h.arrays.size := Array.size_modify
  have hext : (h.modifyArray a (·.openGap p)).extent n = h.extent n := extent_congr hsize rfl n
  have hclosed : (h.modifyArray a (·.openGap p)).Closed
      ((h.modifyArray a (·.openGap p)).extent n) := by
    rw [hext]
    exact hs.closed.modifyArray a fun _ hs => hs.openGap trivial
  exact copied_copy hclosed (hs.ranked.openGap ha hp) v _ (hext ▸ hv) (.refl _) hclosed

/-- Room is made in an array, and then a copy is taken and put there. -/
theorem Sound.insert (hs : h.Sound n) {a : ArrayRef} (ha : a.index < h.arrays.size) {p : Nat}
    (hp : p ≤ (h.slots a).size) {v c : Value} (hv : v.Within (h.extent n))
    (hcopy : Heap.copy v (h.modifyArray a (·.openGap p)) = (c, h₁)) :
    (h₁.modifyArray a (·.set p c)).Sound n ∧ h.arrays.size ≤ h₁.arrays.size ∧
      h.dicts.size ≤ h₁.dicts.size := by
  have hsize : (h.modifyArray a (·.openGap p)).arrays.size = h.arrays.size := Array.size_modify
  have k := hs.copy_openGap ha hp hv
  rw [hcopy] at k
  have hle : h.arrays.size ≤ h₁.arrays.size := hsize ▸ k.grows.arrays
  have ha₁ : a.index < h₁.arrays.size := Nat.lt_of_lt_of_le ha hle
  have hw := h₁.writes_set a ha₁ p c
  have g : Graft h h₁ (h₁.modifyArray a (·.set p c)) [c] fun q o =>
      (q = .item (.array a) p ∧ o = .root 0) ∨
      (∃ i, i ≠ p ∧ q = .item (.array a) i ∧
        o = .slot (.item (.array a) (if i < p then i else i - 1))) ∨
      (q.host ≠ some (.array a) ∧ o = .slot q) :=
    { forest := k.forest.congr hsize rfl
      arrays_le := hle, dicts_le := k.grows.dicts, arrays := hw.arrays, dicts := hw.dicts
      new := fun d i hd => held?_congr (hw.other _ fun he => by cases he; exact hd ha)
      source := fun q d hq hqd => by
        have hq' : q.Of (·.In (h.modifyArray a (·.openGap p))) := fun e he =>
          (Container.in_congr hsize rfl).mpr (hq e he)
        by_cases hqp : q = .item (.array a) p
        · subst hqp
          obtain ⟨x, hx, hxd⟩ := held?_eq_some.mp hqd
          rw [hw.self x hx] at hxd
          exact .inr ⟨0, .inl ⟨rfl, rfl⟩, by simpa [at?] using hxd⟩
        · rw [held?_congr (hw.other q hqp), held?_congr (k.grows.content q hq')] at hqd
          left
          by_cases hqa : q.host = some (.array a)
          · obtain ⟨i, rfl⟩ := Slot.host_eq_some.mp hqa
            have hi : i ≠ p := by rintro rfl; exact hqp rfl
            exact ⟨_, .inr (.inl ⟨i, hi, rfl, rfl⟩), rfl,
              held?_congr (content?_openGap ha hp hi) ▸ hqd⟩
          · exact ⟨q, .inr (.inr ⟨hqa, rfl⟩), rfl,
              held?_congr (h.content?_modifyArray a _ q hqa) ▸ hqd⟩
      injective := by
        rintro q q' o (⟨rfl, rfl⟩ | ⟨i, hi, rfl, rfl⟩ | ⟨hq, rfl⟩)
          (⟨rfl, ho⟩ | ⟨j, hj, rfl, ho⟩ | ⟨hq', ho⟩)
        · rfl
        · cases ho
        · cases ho
        · cases ho
        · have : i = j := by
            simp only [Origin.slot.injEq, Slot.item.injEq, true_and] at ho
            split at ho <;> split at ho <;> omega
          rw [this]
        · cases ho
          exact absurd rfl hq'
        · cases ho
        · cases ho
          exact absurd rfl hq
        · cases ho; rfl }
  refine ⟨g.sound hs ?_, hle, k.grows.dicts⟩
  rw [extent_congr hw.arrays hw.dicts]
  exact k.closed.modifyArray a fun _ hs => hs.set (k.within c (by simp))

/-! ## Records and instances -/

/-- The roots of a forest are stored under names, each in a slot that holds nothing
else. -/
theorem Sound.fill (hs : h.Sound n) {vs : List Value} (k : Copied n h vs h₁)
    (ha : h₂.arrays.size = h₁.arrays.size) (hd : h₂.dicts.size = h₁.dicts.size)
    (f : String → Slot) (hf : ∀ name, (f name).host = none) (names : List String)
    (hnew : ∀ name c, h₂.held? (f name) = some c →
      ∃ i : Nat, names[i]? = some name ∧ h₁.at? vs (.root i) = some c)
    (hother : ∀ p, (∀ name, p ≠ f name) → h₂.content? p = h₁.content? p)
    (hc : h₂.Closed (h₂.extent n)) : h₂.Sound n := by
  have g : Graft h h₁ h₂ vs fun q o =>
      (∃ name i, q = f name ∧ names[i]? = some name ∧ o = .root i) ∨
      ((∀ name, q ≠ f name) ∧ o = .slot q) :=
    { forest := k.forest, arrays_le := k.grows.arrays, dicts_le := k.grows.dicts
      arrays := ha, dicts := hd
      new := fun c i _ => held?_congr (hother _ fun name he => by
        have := hf name
        rw [← he] at this
        cases this)
      source := fun q c hq hqc => by
        by_cases hqf : ∃ name, q = f name
        · obtain ⟨name, rfl⟩ := hqf
          obtain ⟨i, hi, hic⟩ := hnew name c hqc
          exact .inr ⟨i, .inl ⟨name, i, rfl, hi, rfl⟩, hic⟩
        · have hqf' : ∀ name, q ≠ f name := fun name hname => hqf ⟨name, hname⟩
          rw [held?_congr (hother q hqf'), held?_congr (k.grows.content q hq)] at hqc
          exact .inl ⟨q, .inr ⟨hqf', rfl⟩, rfl, hqc⟩
      injective := by
        rintro q q' o (⟨name, i, rfl, hi, rfl⟩ | ⟨hq, rfl⟩) (⟨name', j, rfl, hj, ho⟩ | ⟨hq', ho⟩)
        · cases ho
          rw [hi] at hj
          cases hj
          rfl
        · cases ho
        · cases ho
        · cases ho; rfl }
  exact g.sound hs hc

/-- Copies of several values, in order. -/
theorem Sound.copies (hs : h.Sound n) {vs : List Value} (hv : ∀ v ∈ vs, v.Within (h.extent n)) :
    Copied n h ((vs.mapM Heap.copy).run h).1 ((vs.mapM Heap.copy).run h).2 :=
  copied_mapM (fun v h' hv hg hc => copied_copy hs.closed hs.ranked v h' hv hg hc) vs h hv
    (.refl h) hs.closed

/-- An entry of the table that a list of names and values gives comes from one place
of the list. -/
theorem get?_foldl_put {names : List String} {vs : List Value} {name : String} {v : Value}
    (hv : ((names.zip vs).foldl (fun (t : Table Value) (f, v) => t.put f v) []).get? name = some v) :
    ∃ i : Nat, names[i]? = some name ∧ vs[i]? = some v := by
  suffices H : ∀ (es : List (String × Value)) (t : Table Value),
      (es.foldl (fun (t : Table Value) (f, v) => t.put f v) t).get? name = some v →
        (name, v) ∈ es ∨ t.get? name = some v by
    rcases H _ [] hv with hmem | hnil
    · obtain ⟨i, hi⟩ := List.mem_iff_getElem?.mp hmem
      exact ⟨i, List.getElem?_zip_eq_some.mp hi⟩
    · cases hnil
  intro es
  induction es with
  | nil => exact fun t ht => .inr ht
  | cons e es ih =>
      intro t ht
      rcases ih _ ht with hmem | hput
      · exact .inl (List.mem_cons_of_mem e hmem)
      · rw [get?_put] at hput
        split at hput
        next hname =>
          cases hput
          exact .inl (hname ▸ List.mem_cons_self)
        next => exact .inr hput

theorem all_foldl_put {P : Value → Prop} {es : List (String × Value)} (he : ∀ e ∈ es, P e.2) :
    ∀ {t : Table Value}, t.All P → (es.foldl (fun (t : Table Value) (f, v) => t.put f v) t).All P := by
  induction es with
  | nil => exact fun ht => ht
  | cons e es ih =>
      intro t ht
      exact ih (fun x hx => he x (List.mem_cons_of_mem e hx)) (ht.put (he e List.mem_cons_self))

theorem Sound.newRecord (hs : h.Sound n) {names : List String} {vs : List Value}
    (k : Copied n h vs h₁) (t : RecordTypeRef) :
    (h₁.newRecord ⟨t, (names.zip vs).foldl (fun (t : Table Value) (f, v) => t.put f v) []⟩).2.Sound
      n := by
  refine hs.fill k rfl rfl (.field ⟨h₁.records.size⟩) (fun _ => rfl) names (fun name c hc => ?_)
    (fun p hp => ?_) (k.closed.newRecord (all_foldl_put (fun e he => ?_) Table.All.nil))
  · obtain ⟨v, hv, hvc⟩ := held?_eq_some.mp hc
    simp only [content?, record, Heap.newRecord, getD_push, ↓reduceIte] at hv
    obtain ⟨i, hi, hvi⟩ := get?_foldl_put hv
    exact ⟨i, hi, by simp only [at?, hvi, Option.bind_some, hvc]⟩
  · cases p with
    | field r name =>
        have hj : r.index ≠ h₁.records.size := by
          rcases r with ⟨j⟩
          rintro rfl
          exact hp name rfl
        simp only [content?, record, Heap.newRecord, getD_push, hj, ↓reduceIte]
    | item c i => cases c <;> rfl
    | _ => rfl
  · exact k.within e.2 (List.of_mem_zip he).2

/-- Copies of the values of a table. -/
theorem copied_copyTable {h₀ : Heap} (hc₀ : h₀.Closed (h₀.extent n)) (hr : h₀.Ranked) :
    ∀ (t : Table Value) (h : Heap), t.All (Value.Within (h₀.extent n)) → h₀.Grows h →
      h.Closed (h.extent n) →
      Copied n h (((copyTable t).run h).1.map Prod.snd) ((copyTable t).run h).2
  | [], h, _, _, hc => .nil hc
  | (name, v) :: t, h, ht, hg, hc => by
      have k := copied_copy hc₀ hr v h (ht (name, v) List.mem_cons_self) hg hc
      have l := copied_copyTable hc₀ hr t (Heap.copy v h).2
        (fun e he => ht e (List.mem_cons_of_mem _ he)) (hg.trans k.grows) k.closed
      have hrun : (copyTable ((name, v) :: t)).run h =
          ((name, (Heap.copy v h).1) :: ((copyTable t).run (Heap.copy v h).2).1,
            ((copyTable t).run (Heap.copy v h).2).2) := by
        simp only [copyTable, List.mapM_cons, StateT.run_bind, StateT.run_pure]
        rfl
      rw [hrun]
      exact k.append l

theorem container?_rebind (c : ClassRef) (o : ObjectRef) (v : Value) :
    (Run.rebind c o v).container? = v.container? := by
  cases v with
  | subroutine f => simp only [Run.rebind]; split <;> rfl
  | _ => rfl

theorem within_rebind (c : ClassRef) (o : ObjectRef) {v : Value} {e : Extent} (hv : v.Within e) :
    (Run.rebind c o v).Within e := by
  cases v with
  | subroutine f => simp only [Run.rebind]; split <;> trivial
  | _ => exact hv

theorem exists_getElem?_of_get? {t : Table Value} {name : String} {v : Value}
    (hv : t.get? name = some v) : ∃ i : Nat, t[i]? = some (name, v) := by
  induction t with
  | nil => cases hv
  | cons e t ih =>
      simp only [Table.get?] at hv
      split at hv
      next hname =>
        cases hv
        exact ⟨0, by simp [← hname]⟩
      next =>
        obtain ⟨i, hi⟩ := ih hv
        exact ⟨i + 1, hi⟩

theorem modify_push {α : Type} (a : Array α) (x : α) (f : α → α) :
    (a.push x).modify a.size f = a.push (f x) := by
  apply Array.ext_getElem?
  intro i
  simp only [Array.getElem?_modify, Array.getElem?_push]
  by_cases hi : i = a.size
  · simp [hi]
  · simp [hi, Ne.symm hi]

/-- A new instance is made as if its object had its properties from the start. -/
theorem newInstance_eq {c : ClassRef} {props : Table Value}
    (hcopy : (copyTable (h.classType c).props).run h = (props, h₁)) :
    (Run.newInstance c h).2 =
      (h₁.newObject ⟨c, props.map fun e => (e.1, Run.rebind c ⟨h₁.objects.size⟩ e.2)⟩).2 := by
  simp only [Run.newInstance, hcopy, newObject, modifyObject, modify_push]

theorem Sound.newInstance (hs : h.Sound n) (c : ClassRef) :
    (Run.newInstance c h).2.Sound n ∧ h.extent n ≤ (Run.newInstance c h).2.extent n := by
  have k := copied_copyTable hs.closed hs.ranked (h.classType c).props h
    (hs.closed.classType c) (.refl h) hs.closed
  cases hcopy : (copyTable (h.classType c).props).run h with
  | mk props h₁ =>
  rw [hcopy] at k
  rw [newInstance_eq hcopy]
  refine ⟨hs.fill k rfl rfl (.property ⟨h₁.objects.size⟩) (fun _ => rfl) (props.map Prod.fst)
    (fun name d hd => ?_) (fun p hp => ?_) (k.closed.newObject fun e he => ?_),
    extent_le k.grows.arrays k.grows.dicts n⟩
  · obtain ⟨v, hv, hvd⟩ := held?_eq_some.mp hd
    simp only [content?, object, newObject, getD_push, ↓reduceIte] at hv
    obtain ⟨i, hi⟩ := exists_getElem?_of_get? hv
    simp only [List.getElem?_map, Option.map_eq_some_iff, Prod.mk.injEq, Prod.exists] at hi
    obtain ⟨_, u, hi, rfl, rfl⟩ := hi
    rw [container?_rebind] at hvd
    exact ⟨i, by simp [hi], by simp [at?, hi, hvd]⟩
  · cases p with
    | property o name =>
        have hj : o.index ≠ h₁.objects.size := by
          rcases o with ⟨j⟩
          rintro rfl
          exact hp name rfl
        simp only [content?, object, newObject, getD_push, hj, ↓reduceIte]
    | item c i => cases c <;> rfl
    | _ => rfl
  · obtain ⟨x, hx, rfl⟩ := List.mem_map.mp he
    exact within_rebind c _ (k.within x.2 (List.mem_map_of_mem hx))

end Pseudocode.Heap
