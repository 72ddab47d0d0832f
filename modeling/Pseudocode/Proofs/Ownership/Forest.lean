import Pseudocode.Proofs.Ownership.Slot
/-
# `Proofs.Ownership.Forest` — what copying makes

A copy consists of new containers, each of which has one place: it is a root, the
copy itself, or it stands at one position of another new container.  `Forest h h' vs`
says this of the containers that `h'` has and `h` has not, with `vs` as roots.

Copying gives a forest (`Copied`) whatever the original shares, since every
occurrence of a container is copied by itself.  It needs that the original is not
nested deeper than the bound of `copyTo`.  The number of containers is such a bound
in a heap whose containers can be ranked: each stands below those that hold it.
-/
namespace Pseudocode.Heap

/-! ## Forests -/

/-- A place of a forest: a root by its number, or a position of a container. -/
inductive Place where
  | root (i : Nat)
  | item (c : Container) (i : Nat)

/-- The place is a root, or a position of a container that `h` does not have. -/
def Place.New (h : Heap) : Place → Prop
  | root _ => True
  | item c _ => ¬ c.In h

/-- The place in a forest after `n` more roots were put in front. -/
def Place.after (n : Nat) : Place → Place
  | root i => root (n + i)
  | item c i => item c i

/-- The place once the container `c` has taken the roots. -/
def Place.inside (c : Container) : Place → Place
  | root i => item c i
  | item d i => item d i

/-- The container at a place, for the given roots. -/
def at? (h : Heap) (vs : List Value) : Place → Option Container
  | .root i => (vs[i]?).bind Value.container?
  | .item c i => h.held? (.item c i)

/-- The containers that `h'` has and `h` has not form a forest with roots `vs`. -/
structure Forest (h h' : Heap) (vs : List Value) : Prop where
  new : ∀ q c, q.New h → h'.at? vs q = some c → ¬ c.In h ∧ c.In h'
  unique : ∀ q q' c, q.New h → q'.New h → h'.at? vs q = some c → h'.at? vs q' = some c → q = q'
  ranked : ∃ rank : Container → Nat,
    (∀ c i d, ¬ c.In h → h'.held? (.item c i) = some d → rank d < rank c) ∧
    ∀ c, ¬ c.In h → c.In h' → rank c < h'.containers - h.containers

/-- Containers are added, and what was there stays as it is. -/
structure Grows (h h' : Heap) : Prop where
  arrays : h.arrays.size ≤ h'.arrays.size
  dicts : h.dicts.size ≤ h'.dicts.size
  content : ∀ p : Slot, (∀ c, p.host = some c → c.In h) → h'.content? p = h.content? p

theorem containers_le {h h' : Heap} (ha : h.arrays.size ≤ h'.arrays.size)
    (hd : h.dicts.size ≤ h'.dicts.size) : h.containers ≤ h'.containers :=
  Nat.add_le_add ha hd

theorem containers_congr {h h' : Heap} (ha : h'.arrays.size = h.arrays.size)
    (hd : h'.dicts.size = h.dicts.size) : h'.containers = h.containers :=
  congrArg₂ (· + ·) ha hd

theorem extent_congr {h h' : Heap} (ha : h'.arrays.size = h.arrays.size)
    (hd : h'.dicts.size = h.dicts.size) (n : Nat) : h'.extent n = h.extent n := by
  simp only [extent, ha, hd]

theorem extent_le {h h' : Heap} (ha : h.arrays.size ≤ h'.arrays.size)
    (hd : h.dicts.size ≤ h'.dicts.size) (n : Nat) : h.extent n ≤ h'.extent n :=
  ⟨ha, hd, Nat.le_refl n⟩

namespace Grows

variable {h h' h'' : Heap}

theorem refl (h : Heap) : h.Grows h := ⟨Nat.le_refl _, Nat.le_refl _, fun _ _ => rfl⟩

theorem isIn (g : h.Grows h') {c : Container} (hc : c.In h) : c.In h' := by
  match c with
  | .array r => exact Nat.lt_of_lt_of_le hc g.arrays
  | .dict r => exact Nat.lt_of_lt_of_le hc g.dicts

theorem trans (g : h.Grows h') (k : h'.Grows h'') : h.Grows h'' where
  arrays := Nat.le_trans g.arrays k.arrays
  dicts := Nat.le_trans g.dicts k.dicts
  content p hp := (k.content p fun c hc => g.isIn (hp c hc)).trans (g.content p hp)

theorem containers (g : h.Grows h') : h.containers ≤ h'.containers :=
  containers_le g.arrays g.dicts

theorem held? (g : h.Grows h') {c : Container} (hc : c.In h) (i : Nat) :
    h'.held? (.item c i) = h.held? (.item c i) :=
  held?_congr (g.content _ fun d hd => by cases hd; exact hc)

theorem newArray (h : Heap) (xs : Array Value) : h.Grows (h.newArray xs).2 where
  arrays := by simp [Heap.newArray]
  dicts := Nat.le_refl _
  content p hp := (h.adds_newArray xs).old p fun hc => (h.adds_newArray xs).notIn (hp _ hc)

theorem newDict (h : Heap) (d : Dictionary) : h.Grows (h.newDict d).2 where
  arrays := Nat.le_refl _
  dicts := by simp [Heap.newDict]
  content p hp := (h.adds_newDict d).old p fun hc => (h.adds_newDict d).notIn (hp _ hc)

end Grows

namespace Forest

variable {h h' h'' : Heap} {vs us : List Value}

theorem nil (h : Heap) : Forest h h [] where
  new q c hq hc := by
    match q with
    | .root i => cases hc
    | .item d i => exact absurd (isIn_of_held? hc) hq
  unique q q' c hq _ hc _ := by
    match q with
    | .root i => cases hc
    | .item d i => exact absurd (isIn_of_held? hc) hq
  ranked :=
    ⟨fun _ => 0, fun _ _ _ hn hd => absurd (isIn_of_held? hd) hn, fun _ hn hc => absurd hc hn⟩

/-- A value that is no container is a forest by itself. -/
theorem leaf (h : Heap) {v : Value} (hv : v.container? = none) : Forest h h [v] where
  new q c hq hc := by
    match q with
    | .root 0 => simp [at?, hv] at hc
    | .root (i + 1) => cases hc
    | .item d i => exact absurd (isIn_of_held? hc) hq
  unique q q' c hq _ hc _ := by
    match q with
    | .root 0 => simp [at?, hv] at hc
    | .root (i + 1) => cases hc
    | .item d i => exact absurd (isIn_of_held? hc) hq
  ranked := (nil h).ranked

/-- Of the first heap only matters which containers it has. -/
theorem congr {k : Heap} (f : Forest k h' vs) (ha : k.arrays.size = h.arrays.size)
    (hd : k.dicts.size = h.dicts.size) : Forest h h' vs := by
  have hin : ∀ c : Container, c.In k ↔ c.In h := fun _ => Container.in_congr ha hd
  have hnew : ∀ q : Place, q.New k ↔ q.New h := by
    intro q
    cases q <;> simp only [Place.New, hin]
  have hcount : k.containers = h.containers := containers_congr ha hd
  obtain ⟨rank, hr, hb⟩ := f.ranked
  refine ⟨fun q c hq => ?_, fun q q' c hq hq' => ?_, rank, fun c i d hc => ?_, fun c hc => ?_⟩
  · simpa only [hin] using f.new q c ((hnew q).mpr hq)
  · exact f.unique q q' c ((hnew q).mpr hq) ((hnew q').mpr hq')
  · exact hr c i d fun hk => hc ((hin c).mp hk)
  · simpa only [hcount] using hb c fun hk => hc ((hin c).mp hk)

/-- A place of two forests is one of the first or one of the second. -/
theorem at?_append (g : h'.Grows h'') {q : Place} {c : Container} (hq : q.New h)
    (hc : h''.at? (vs ++ us) q = some c) :
    h'.at? vs q = some c ∨
      ∃ q', q = q'.after vs.length ∧ q'.New h' ∧ h''.at? us q' = some c := by
  match q with
  | .root i =>
      by_cases hi : i < vs.length
      · left
        simpa only [at?, List.getElem?_append_left hi] using hc
      · refine .inr ⟨.root (i - vs.length), ?_, trivial, ?_⟩
        · exact congrArg Place.root (by omega)
        · simpa only [at?, List.getElem?_append_right (Nat.not_lt.mp hi)] using hc
  | .item d i =>
      by_cases hd : d.In h'
      · left
        simpa only [at?, g.held? hd] using hc
      · exact .inr ⟨.item d i, rfl, hd, hc⟩

theorem append (f : Forest h h' vs) (g₁ : h.Grows h') (g₂ : h'.Grows h'') (k : Forest h' h'' us) :
    Forest h h'' (vs ++ us) where
  new q c hq hc := by
    rcases at?_append g₂ hq hc with h₁ | ⟨q₂, -, hq₂, h₂⟩
    · have hn := f.new q c hq h₁
      exact ⟨hn.1, g₂.isIn hn.2⟩
    · have hn := k.new q₂ c hq₂ h₂
      exact ⟨fun hc => hn.1 (g₁.isIn hc), hn.2⟩
  unique q q' c hq hq' hc hc' := by
    rcases at?_append g₂ hq hc with h₁ | ⟨q₂, rfl, hq₂, h₂⟩ <;>
      rcases at?_append g₂ hq' hc' with h₁' | ⟨q₂', rfl, hq₂', h₂'⟩
    · exact f.unique q q' c hq hq' h₁ h₁'
    · exact absurd (f.new q c hq h₁).2 (k.new q₂' c hq₂' h₂').1
    · exact absurd (f.new q' c hq' h₁').2 (k.new q₂ c hq₂ h₂).1
    · rw [k.unique q₂ q₂' c hq₂ hq₂' h₂ h₂']
  ranked := by
    classical
    obtain ⟨rank₁, hr₁, hb₁⟩ := f.ranked
    obtain ⟨rank₂, hr₂, hb₂⟩ := k.ranked
    have hle₁ := g₁.containers
    have hle₂ := g₂.containers
    -- the containers of the second forest come above those of the first
    refine ⟨fun c => if c.In h' then rank₁ c else (h'.containers - h.containers) + rank₂ c, ?_, ?_⟩
    · intro c i d hc hd
      by_cases hc' : c.In h'
      · have hd' : h'.held? (.item c i) = some d := by rwa [g₂.held? hc'] at hd
        have hdin := (f.new (.item c i) d hc hd').2
        simpa only [hc', hdin, ↓reduceIte] using hr₁ c i d hc hd'
      · have hdin := (k.new (.item c i) d hc' hd).1
        have := hr₂ c i d hc' hd
        simp only [hc', hdin, ↓reduceIte]
        omega
    · intro c hc hc''
      by_cases hc' : c.In h'
      · have := hb₁ c hc hc'
        simp only [hc', ↓reduceIte]
        omega
      · have := hb₂ c hc' hc''
        simp only [hc', ↓reduceIte]
        omega

/-- A new container that takes the roots of a forest becomes its one root. -/
theorem enclose (f : Forest h h' vs) (g : h.Grows h') {c : Container} {xs : Array Value}
    (a : h'.Adds c xs h'') (hx : xs.toList = vs) {v : Value} (hv : v.container? = some c) :
    Forest h h'' [v] := by
  have hcn : ¬ c.In h := fun hc => a.notIn (g.isIn hc)
  have hnew : ∀ i, h''.held? (.item c i) = h'.at? vs (.root i) := by
    intro i
    simp only [held?, a.new, at?, ← hx, Array.getElem?_toList]
  have hold : ∀ d i, d ≠ c → h''.held? (.item d i) = h'.held? (.item d i) := by
    intro d i hd
    exact held?_congr (a.old _ fun he => hd (Option.some.inj he))
  -- every place but the new root is a place of the old forest
  have hplace : ∀ q e, q.New h → h''.at? [v] q = some e →
      (q = .root 0 ∧ e = c) ∨
        ∃ q', q'.New h ∧ h'.at? vs q' = some e ∧
          q = q'.inside c := by
    intro q e hq he
    rcases q with (- | i) | ⟨d, i⟩
    · left
      simp only [at?, List.getElem?_cons_zero, Option.bind_some, hv, Option.some.injEq] at he
      exact ⟨rfl, he.symm⟩
    · cases he
    · right
      by_cases hd : d = c
      · subst hd
        exact ⟨.root i, trivial, (hnew i).symm.trans he, rfl⟩
      · exact ⟨.item d i, hq, (hold d i hd).symm.trans he, rfl⟩
  refine ⟨fun q e hq he => ?_, fun q q' e hq hq' he he' => ?_, ?_⟩
  · rcases hplace q e hq he with ⟨rfl, rfl⟩ | ⟨q', hq', he', -⟩
    · exact ⟨hcn, (a.isIn e).mpr (.inr rfl)⟩
    · have hn := f.new q' e hq' he'
      exact ⟨hn.1, (a.isIn e).mpr (.inl hn.2)⟩
  · rcases hplace q e hq he with ⟨rfl, rfl⟩ | ⟨p, hp, hpe, rfl⟩ <;>
      rcases hplace q' _ hq' he' with ⟨rfl, h1⟩ | ⟨p', hp', hpe', rfl⟩
    · rfl
    · exact absurd (f.new p' _ hp' hpe').2 a.notIn
    · subst h1
      exact absurd (f.new p _ hp hpe).2 a.notIn
    · rw [f.unique p p' e hp hp' hpe hpe']
  · classical
    obtain ⟨rank, hr, hb⟩ := f.ranked
    have hcount := a.count
    have hle := g.containers
    refine ⟨fun d => if d = c then h'.containers - h.containers else rank d, ?_, ?_⟩
    · intro d i e hd he
      by_cases hdc : d = c
      · subst hdc
        have hn := f.new (.root i) e trivial ((hnew i).symm.trans he)
        have hec : e ≠ d := by rintro rfl; exact a.notIn hn.2
        simpa only [hec, ↓reduceIte] using hb e hn.1 hn.2
      · rw [hold d i hdc] at he
        have hn := f.new (.item d i) e hd he
        have hec : e ≠ c := by rintro rfl; exact a.notIn hn.2
        simpa only [hdc, hec, ↓reduceIte] using hr d i e hd he
    · intro d hd hd''
      by_cases hdc : d = c
      · simp only [hdc, ↓reduceIte]
        omega
      · have := hb d hd (((a.isIn d).mp hd'').resolve_right hdc)
        simp only [hdc, ↓reduceIte]
        omega

end Forest

/-! ## Copies -/

/-- The second heap is the first with a forest of new containers, and closed. -/
structure Copied (n : Nat) (h : Heap) (vs : List Value) (h' : Heap) : Prop where
  grows : h.Grows h'
  forest : Forest h h' vs
  closed : h'.Closed (h'.extent n)
  within : ∀ v ∈ vs, v.Within (h'.extent n)

namespace Copied

variable {n : Nat} {h h' h'' : Heap} {vs us : List Value}

theorem nil (hh : h.Closed (h.extent n)) : Copied n h [] h :=
  ⟨.refl h, .nil h, hh, fun _ hv => nomatch hv⟩

theorem leaf (hh : h.Closed (h.extent n)) {v : Value} (hv : v.container? = none)
    (hw : v.Within (h.extent n)) : Copied n h [v] h :=
  ⟨.refl h, .leaf h hv, hh, by simpa using hw⟩

theorem append (k : Copied n h vs h') (l : Copied n h' us h'') : Copied n h (vs ++ us) h'' where
  grows := k.grows.trans l.grows
  forest := k.forest.append k.grows l.grows l.forest
  closed := l.closed
  within v hv := by
    rcases List.mem_append.mp hv with hv | hv
    · exact (k.within v hv).mono (extent_le l.grows.arrays l.grows.dicts n)
    · exact l.within v hv

theorem newArray (k : Copied n h vs h') {xs : Array Value} (hx : xs.toList = vs) :
    Copied n h [(h'.newArray xs).1] (h'.newArray xs).2 := by
  have g := Grows.newArray h' xs
  have hw : ∀ v ∈ xs, v.Within (h'.extent n) := fun v hv => k.within v (hx ▸ Array.mem_toList_iff.mpr hv)
  refine ⟨k.grows.trans g, k.forest.enclose k.grows (h'.adds_newArray xs) hx rfl,
    (k.closed.newArray hw).mono (extent_le g.arrays g.dicts n), fun v hv => ?_⟩
  rw [List.mem_singleton.mp hv]
  exact ((h'.adds_newArray xs).isIn _).mpr (.inr rfl)

theorem newDict (k : Copied n h vs h') {d : Dictionary} (hd : d.values.toList = vs)
    (hk : d.slots.All fun k => k.keyForm ≠ .unhashable) :
    Copied n h [(h'.newDict d).1] (h'.newDict d).2 := by
  have g := Grows.newDict h' d
  have hw : d.All (Value.Within (h'.extent n)) :=
    ⟨hk, fun v hv => k.within v (hd ▸ Array.mem_toList_iff.mpr hv)⟩
  refine ⟨k.grows.trans g, k.forest.enclose k.grows (h'.adds_newDict d) hd rfl,
    (k.closed.newDict hw).mono (extent_le g.arrays g.dicts n), fun v hv => ?_⟩
  rw [List.mem_singleton.mp hv]
  exact ((h'.adds_newDict d).isIn _).mpr (.inr rfl)

end Copied

/-- Containers stand below those that hold them, and the ranks count no more than
there are containers. -/
def IsRank (h : Heap) (rank : Container → Nat) : Prop :=
  (∀ c i d, h.held? (.item c i) = some d → rank d < rank c) ∧ ∀ c, c.In h → rank c < h.containers

/-- The containers of the heap can be ranked. -/
def Ranked (h : Heap) : Prop := ∃ rank, h.IsRank rank

section Copying

variable {n : Nat} {h₀ : Heap}

/-- Actions one after another, each of which copies. -/
theorem copied_mapM {f : Value → StateM Heap Value} {P : Value → Prop}
    (hf : ∀ v h, P v → h₀.Grows h → h.Closed (h.extent n) → Copied n h [(f v h).1] (f v h).2) :
    ∀ (vs : List Value) (h : Heap), (∀ v ∈ vs, P v) → h₀.Grows h → h.Closed (h.extent n) →
      Copied n h ((vs.mapM f).run h).1 ((vs.mapM f).run h).2
  | [], h, _, _, hc => .nil hc
  | v :: vs, h, hp, hg, hc => by
      have k := hf v h (hp v List.mem_cons_self) hg hc
      have l := copied_mapM hf vs (f v h).2 (fun w hw => hp w (List.mem_cons_of_mem v hw))
        (hg.trans k.grows) k.closed
      have hrun : ((v :: vs).mapM f).run h =
          ((f v h).1 :: ((vs.mapM f).run (f v h).2).1, ((vs.mapM f).run (f v h).2).2) := by
        simp only [List.mapM_cons, StateT.run_bind, StateT.run_pure]
        rfl
      rw [hrun]
      exact k.append l

/-- The value belongs to `h₀`, and if it is a container, its rank is less than `depth`. -/
def Shallow (n : Nat) (h₀ : Heap) (rank : Container → Nat) (depth : Nat) (v : Value) : Prop :=
  v.Within (h₀.extent n) ∧ ∀ c, v.container? = some c → rank c < depth

section Shallow

variable {rank : Container → Nat} {depth : Nat} {h : Heap}

theorem Shallow.container? {v : Value} (hv : Shallow n h₀ rank 0 v) : v.container? = none := by
  cases hvc : v.container? with
  | none => rfl
  | some c => exact absurd (hv.2 c hvc) (Nat.not_lt_zero _)

/-- What stands at the positions of a container has a lower rank, and still does when
other containers were added. -/
theorem Shallow.item (hc₀ : h₀.Closed (h₀.extent n)) (hr : h₀.IsRank rank) (hg : h₀.Grows h)
    {v : Value} (hv : Shallow n h₀ rank (depth + 1) v) {c : Container} (hvc : v.container? = some c)
    {i : Nat} {x : Value} (hx : h.content? (.item c i) = some x) : Shallow n h₀ rank depth x := by
  have hin : c.In h₀ := hv.1.container hvc
  have hx₀ : h₀.content? (.item c i) = some x := by
    rwa [hg.content _ fun d hd => by cases hd; exact hin] at hx
  refine ⟨hc₀.content? hx₀, fun d hxd => ?_⟩
  have := hr.1 c i d (held?_eq_some.mpr ⟨x, hx₀, hxd⟩)
  have := hv.2 c hvc
  omega

theorem Shallow.array (hc₀ : h₀.Closed (h₀.extent n)) (hr : h₀.IsRank rank) (hg : h₀.Grows h)
    {r : ArrayRef} (hv : Shallow n h₀ rank (depth + 1) (.array r)) :
    ∀ x ∈ (h.array r).toList, Shallow n h₀ rank depth x := by
  intro x hx
  obtain ⟨i, hi⟩ := List.mem_iff_getElem?.mp hx
  refine hv.item hc₀ hr hg (c := .array r) (i := i) rfl ?_
  rwa [Array.getElem?_toList, Heap.array, Slots.getElem?_toArray] at hi

theorem Shallow.dict (hc₀ : h₀.Closed (h₀.extent n)) (hr : h₀.IsRank rank) (hg : h₀.Grows h)
    {r : DictRef} (hv : Shallow n h₀ rank (depth + 1) (.dict r)) :
    ∀ x ∈ (h.dict r).values.toList, Shallow n h₀ rank depth x := by
  intro x hx
  obtain ⟨i, hi⟩ := List.mem_iff_getElem?.mp hx
  refine hv.item hc₀ hr hg (c := .dict r) (i := i) rfl ?_
  rwa [Array.getElem?_toList] at hi

end Shallow

theorem copyTo_array (depth : Nat) (r : ArrayRef) (h : Heap) :
    copyTo (depth + 1) (.array r) h =
      (((h.array r).toList.mapM (copyTo depth)).run h).2.newArray
        (((h.array r).toList.mapM (copyTo depth)).run h).1.toArray := by
  simp only [copyTo, Array.mapM_eq_mapM_toList]
  rfl

theorem copyTo_dict (depth : Nat) (r : DictRef) (h : Heap) :
    copyTo (depth + 1) (.dict r) h =
      (((h.dict r).values.toList.mapM (copyTo depth)).run h).2.newDict
        ((h.dict r).withValues
          (((h.dict r).values.toList.mapM (copyTo depth)).run h).1.toArray) := by
  simp only [copyTo, Array.mapM_eq_mapM_toList]
  rfl

/-- The copy of a container of `h₀` that is nested less than `depth`, taken when
other containers may have been added. -/
theorem copied_copyTo (hc₀ : h₀.Closed (h₀.extent n)) {rank : Container → Nat}
    (hr : h₀.IsRank rank) :
    ∀ (depth : Nat) (v : Value) (h : Heap), Shallow n h₀ rank depth v →
      h₀.Grows h → h.Closed (h.extent n) → Copied n h [(copyTo depth v h).1] (copyTo depth v h).2 := by
  intro depth
  induction depth with
  | zero =>
      intro v h hv hg hc
      exact .leaf hc hv.container? (hv.1.mono (extent_le hg.arrays hg.dicts n))
  | succ depth ih =>
      intro v h hv hg hc
      cases v with
      | array r =>
          rw [copyTo_array]
          exact (copied_mapM ih (h.array r).toList h (hv.array hc₀ hr hg) hg hc).newArray rfl
      | dict r =>
          rw [copyTo_dict]
          exact (copied_mapM ih (h.dict r).values.toList h (hv.dict hc₀ hr hg) hg hc).newDict rfl
            ((hc.dict r).withValues (Q := fun _ => True) fun _ _ => trivial).keys
      | _ => exact .leaf hc rfl (hv.1.mono (extent_le hg.arrays hg.dicts n))

/-- Copying a value of a closed heap with ranked containers, when others may have
been added. -/
theorem copied_copy (hc₀ : h₀.Closed (h₀.extent n)) (hr : h₀.Ranked) (v : Value) (h : Heap)
    (hv : v.Within (h₀.extent n)) (hg : h₀.Grows h) (hc : h.Closed (h.extent n)) :
    Copied n h [(copy v h).1] (copy v h).2 := by
  obtain ⟨rank, hrank⟩ := hr
  have hshallow : Shallow n h₀ rank (h.containers + 1) v := by
    refine ⟨hv, fun c hvc => ?_⟩
    have := hrank.2 c (hv.container hvc)
    have := hg.containers
    omega
  have hcopy := copied_copyTo hc₀ hrank (h.containers + 1) v h hshallow hg hc
  cases v with
  | array r => exact hcopy
  | dict r => exact hcopy
  | _ => exact .leaf hc rfl (hv.mono (extent_le hg.arrays hg.dicts n))

end Copying

end Pseudocode.Heap
