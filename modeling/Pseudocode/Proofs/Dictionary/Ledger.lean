import Pseudocode.Proofs.Dictionary.Entries
import Pseudocode.Proofs.Ownership.Forest
/-
# `Proofs.Dictionary.Ledger` — dictionaries that are set, read and copied

A ledger holds the containers of a heap with each dictionary as nothing but the list of its
entries.  Whatever is done to the dictionaries of a heap, one action after another, can be
done to its ledger: the answers are the same, and what is left is the ledger of the heap
that is left (`Recorded`).  The index never shows, and stays exact.

A ledger also tells what a copy shares with its original, which is nothing: an action changes
the one list that it names (`Spares`), and a copy is made of lists that no action before could
name (`Made`).
-/
namespace Pseudocode

/-- The arrays and dictionaries of a heap as lists. -/
structure Ledger where
  arrays : Array (List Value)
  dicts : Array Entries

namespace Ledger

/-- No containers. -/
def empty : Ledger := ⟨#[], #[]⟩

/-- The elements of an array. -/
def array (l : Ledger) (r : ArrayRef) : List Value := l.arrays.getD r.index []

/-- The entries of a dictionary. -/
def entries (l : Ledger) (r : DictRef) : Entries := l.dicts.getD r.index []

/-- A new array. -/
def newArray (elements : List Value) (l : Ledger) : Value × Ledger :=
  (.array ⟨l.arrays.size⟩, { l with arrays := l.arrays.push elements })

/-- A new dictionary. -/
def newDict (es : Entries) (l : Ledger) : Value × Ledger :=
  (.dict ⟨l.dicts.size⟩, { l with dicts := l.dicts.push es })

/-- Copies containers nested less than `depth`.  The keys stay as they are. -/
def copyTo : (depth : Nat) → Value → StateM Ledger Value
  | 0, v => pure v
  | n + 1, v => do
    match v with
    | .array r =>
      let elements ← ((← get).array r).mapM (copyTo n)
      modifyGet (newArray elements)
    | .dict r =>
      let es := (← get).entries r
      let values ← (es.map Prod.snd).mapM (copyTo n)
      modifyGet (newDict ((es.map Prod.fst).zip values))
    | v => pure v

/-- A copy of a dictionary. -/
def copy (r : DictRef) : StateM Ledger Value := do
  copyTo ((← get).arrays.size + (← get).dicts.size + 1) (.dict r)

end Ledger

/-! ## Actions -/

namespace Dictionary

/-- What is done to the dictionaries of a heap. -/
inductive Action where
  | make
  | set (r : DictRef) (key value : Value)
  | delete (r : DictRef) (key : Value)
  | get (r : DictRef) (key : Value)
  | clone (r : DictRef)

/-- Is this the dictionary that the action changes? -/
def Action.Changes (r : DictRef) : Action → Prop
  | .set q _ _ => q = r
  | .delete q _ => q = r
  | _ => False

/-- What is answered. -/
inductive Answer where
  /-- A dictionary that is new. -/
  | made (v : Value)
  /-- Could the key be one, or was it there? -/
  | done (b : Bool)
  | found (v : Option Value)

end Dictionary

open Dictionary (Action Answer)

/-- A dictionary in place of another, if there is one. -/
def Heap.replace (r : DictRef) : Option Dictionary → Heap → Answer × Heap
  | some d, h => (.done true, h.modifyDict r fun _ => d)
  | none, h => (.done false, h)

/-- An action on the dictionaries of a heap. -/
def Heap.act : Action → StateM Heap Answer
  | .make => return .made (← modifyGet (Heap.newDict .empty))
  | .set r key value => modifyGet fun h => h.replace r ((h.dict r).insert? key value)
  | .delete r key => modifyGet fun h => h.replace r ((h.dict r).erase? key)
  | .get r key => return .found (((← get).dict r).get? key)
  | .clone r => return .made (← Heap.copy (.dict r))

/-- Other entries for a dictionary, if there are any. -/
def Ledger.replace (r : DictRef) : Option Entries → Ledger → Answer × Ledger
  | some es, l => (.done true, { l with dicts := l.dicts.modify r.index fun _ => es })
  | none, l => (.done false, l)

/-- The action on the lists of entries. -/
def Ledger.act : Action → StateM Ledger Answer
  | .make => return .made (← modifyGet (Ledger.newDict []))
  | .set r key value => modifyGet fun l => l.replace r ((l.entries r).set? key value)
  | .delete r key => modifyGet fun l => l.replace r ((l.entries r).erase? key)
  | .get r key => return .found (((← get).entries r).get? key)
  | .clone r => return .made (← Ledger.copy r)

/-! ## The ledger of a heap -/

namespace Heap

/-- The arrays and dictionaries of a heap as lists. -/
def ledger (h : Heap) : Ledger where
  arrays := h.arrays.map fun s => s.toArray.toList
  dicts := h.dicts.map Dictionary.entries

/-- All dictionaries are sound. -/
def Ordered (h : Heap) : Prop := ∀ d ∈ h.dicts, d.Sound

theorem ordered_empty : Heap.empty.Ordered := fun _ hd => absurd hd (Array.not_mem_empty _)

variable {h : Heap}

theorem Ordered.dict (o : h.Ordered) (r : DictRef) : (h.dict r).Sound :=
  getD_of_forall o Dictionary.sound_empty

theorem array_ledger (h : Heap) (r : ArrayRef) : h.ledger.array r = (h.array r).toList := by
  simp only [Ledger.array, ledger, Heap.array, slots, Array.getD_eq_getD_getElem?,
    Array.getElem?_map]
  cases h.arrays[r.index]? <;> rfl

theorem entries_ledger (h : Heap) (r : DictRef) : h.ledger.entries r = (h.dict r).entries := by
  simp only [Ledger.entries, ledger, Heap.dict, Array.getD_eq_getD_getElem?, Array.getElem?_map]
  cases h.dicts[r.index]? <;> rfl

theorem ledger_newArray (h : Heap) (elements : List Value) :
    h.ledger.newArray elements =
      ((h.newArray elements.toArray).1, (h.newArray elements.toArray).2.ledger) := by
  simp [Ledger.newArray, newArray, ledger]

theorem ledger_newDict (h : Heap) (d : Dictionary) :
    h.ledger.newDict d.entries = ((h.newDict d).1, (h.newDict d).2.ledger) := by
  simp [Ledger.newDict, newDict, ledger]

theorem Ordered.newDict (o : h.Ordered) {d : Dictionary} (s : d.Sound) : (h.newDict d).2.Ordered :=
  forall_mem_push o s

/-- A sound dictionary in place of another has its entries in place of the others. -/
theorem Ordered.replace (o : h.Ordered) (r : DictRef) {made : Option Dictionary}
    (sound : ∀ d, made = some d → d.Sound) :
    (h.replace r made).2.Ordered ∧ h.ledger.replace r (made.map Dictionary.entries) =
      ((h.replace r made).1, (h.replace r made).2.ledger) := by
  cases made with
  | none => exact ⟨o, rfl⟩
  | some d =>
    refine ⟨forall_mem_modify o fun _ _ => sound d rfl, congrArg (Prod.mk _) ?_⟩
    have same : (h.dicts.map Dictionary.entries).modify r.index (fun _ => d.entries) =
        (h.dicts.modify r.index fun _ => d).map Dictionary.entries := by
      apply Array.ext_getElem?
      intro i
      simp only [Array.getElem?_modify, Array.getElem?_map]
      split <;> cases h.dicts[i]? <;> rfl
    rw [ledger, same]
    rfl

/-! ## What an action does to the ledger -/

/-- On heaps whose dictionaries are sound, the one action does what the other does to the
ledger, and the dictionaries stay sound. -/
def Recorded {α : Type} (x : StateM Heap α) (y : StateM Ledger α) : Prop :=
  ∀ h : Heap, h.Ordered →
    (x.run h).2.Ordered ∧ y.run h.ledger = ((x.run h).1, (x.run h).2.ledger)

/-- As many results as there were things to act on. -/
theorem length_mapM {σ γ δ : Type} (f : γ → StateM σ δ) : ∀ (cs : List γ) (s : σ),
    ((cs.mapM f).run s).1.length = cs.length
  | [], _ => by
    rw [List.mapM_nil]
    rfl
  | c :: cs, s => by
    rw [List.mapM_cons]
    exact congrArg (· + 1) (length_mapM f cs ((f c).run s).2)

namespace Recorded

variable {α β : Type} {x : StateM Heap α} {y : StateM Ledger α}

theorem pure (a : α) : Recorded (Pure.pure a) (Pure.pure a) := fun _ o => ⟨o, rfl⟩

theorem bind (hx : Recorded x y) {f : α → StateM Heap β} {g : α → StateM Ledger β}
    (hf : ∀ a, Recorded (f a) (g a)) : Recorded (x >>= f) (y >>= g) := by
  intro h o
  obtain ⟨ordered, same⟩ := hx h o
  have rest := hf (x.run h).1 (x.run h).2 ordered
  refine ⟨rest.1, ?_⟩
  rw [StateT.run_bind, same]
  exact rest.2

theorem mapM {γ : Type} {f : γ → StateM Heap α} {g : γ → StateM Ledger α}
    (hf : ∀ c, Recorded (f c) (g c)) : ∀ cs : List γ, Recorded (cs.mapM f) (cs.mapM g)
  | [] => by
    rw [List.mapM_nil, List.mapM_nil]
    exact pure []
  | c :: cs => by
    rw [List.mapM_cons, List.mapM_cons]
    exact (hf c).bind fun a => (mapM hf cs).bind fun as => pure (a :: as)

/-- A copy is a copy in the ledger. -/
theorem copyTo (n : Nat) (v : Value) : Recorded (Heap.copyTo n v) (Ledger.copyTo n v) := by
  induction n generalizing v with
  | zero => exact pure v
  | succ n ih =>
    cases v with
    | array r =>
      intro h o
      obtain ⟨ordered, same⟩ := mapM ih (h.array r).toList h o
      rw [StateT.run, copyTo_array]
      refine ⟨ordered, ?_⟩
      rw [← ledger_newArray]
      change (((h.ledger.array r).mapM (Ledger.copyTo n)).run h.ledger).2.newArray
        (((h.ledger.array r).mapM (Ledger.copyTo n)).run h.ledger).1 = _
      rw [array_ledger, same]
    | dict r =>
      intro h o
      have sound := o.dict r
      obtain ⟨ordered, same⟩ := mapM ih (h.dict r).values.toList h o
      have even : (((h.dict r).values.toList.mapM (Heap.copyTo n)).run h).1.toArray.size =
          (h.dict r).values.size := length_mapM _ _ h
      rw [StateT.run, copyTo_dict]
      refine ⟨ordered.newDict (sound.withValues even), ?_⟩
      rw [← ledger_newDict, sound.entries_withValues]
      change (((((h.ledger.entries r).map Prod.snd).mapM (Ledger.copyTo n)).run h.ledger).2.newDict
        (((h.ledger.entries r).map Prod.fst).zip
          ((((h.ledger.entries r).map Prod.snd).mapM (Ledger.copyTo n)).run h.ledger).1)) = _
      rw [entries_ledger, sound.values_entries, same]
    | _ => exact pure _

theorem copy (r : DictRef) : Recorded (Heap.copy (.dict r)) (Ledger.copy r) := by
  intro h o
  have copied := copyTo (h.containers + 1) (.dict r) h o
  refine ⟨copied.1, ?_⟩
  change (Ledger.copyTo (h.ledger.arrays.size + h.ledger.dicts.size + 1) (.dict r)).run h.ledger = _
  rw [ledger, Array.size_map, Array.size_map]
  exact copied.2

theorem act (a : Action) : Recorded (Heap.act a) (Ledger.act a) := by
  intro h o
  cases a with
  | make =>
    refine ⟨o.newDict Dictionary.sound_empty, ?_⟩
    exact congrArg (fun made => (Answer.made made.1, made.2)) (ledger_newDict h .empty)
  | set r key value =>
    obtain ⟨sound, entries⟩ := (o.dict r).insert? key value
    rw [← entries_ledger] at entries
    have replaced := o.replace r sound
    rwa [entries] at replaced
  | delete r key =>
    obtain ⟨sound, entries⟩ := (o.dict r).erase? key
    rw [← entries_ledger] at entries
    have replaced := o.replace r sound
    rwa [entries] at replaced
  | get r key =>
    refine ⟨o, ?_⟩
    change ((Answer.found ((h.ledger.entries r).get? key), h.ledger) : Answer × Ledger) =
      (Answer.found ((h.dict r).get? key), h.ledger)
    rw [entries_ledger, (o.dict r).get?_eq]
  | clone r => exact (copy r).bind (fun v => pure (Answer.made v)) h o

end Recorded

end Heap

/-! ## What an action leaves alone -/

namespace Ledger

/-- Nothing is lost, the arrays are as they were, and so are the dictionaries that `P` speaks
of. -/
structure Spares (P : DictRef → Prop) (l l' : Ledger) : Prop where
  arrays : l.arrays.size ≤ l'.arrays.size
  dicts : l.dicts.size ≤ l'.dicts.size
  array : ∀ r : ArrayRef, r.index < l.arrays.size → l'.array r = l.array r
  entries : ∀ r, P r → r.index < l.dicts.size → l'.entries r = l.entries r

theorem array_newArray (l : Ledger) (elements : List Value) :
    (l.newArray elements).2.array ⟨l.arrays.size⟩ = elements := by
  simp [array, newArray]

theorem entries_newDict (l : Ledger) (es : Entries) :
    (l.newDict es).2.entries ⟨l.dicts.size⟩ = es := by
  simp [entries, newDict]

namespace Spares

variable {P : DictRef → Prop} {l l' l'' : Ledger}

theorem refl (l : Ledger) : l.Spares P l :=
  ⟨Nat.le_refl _, Nat.le_refl _, fun _ _ => rfl, fun _ _ _ => rfl⟩

theorem trans (h : l.Spares P l') (k : l'.Spares P l'') : l.Spares P l'' where
  arrays := Nat.le_trans h.arrays k.arrays
  dicts := Nat.le_trans h.dicts k.dicts
  array r old := (k.array r (Nat.lt_of_lt_of_le old h.arrays)).trans (h.array r old)
  entries r hr old :=
    (k.entries r hr (Nat.lt_of_lt_of_le old h.dicts)).trans (h.entries r hr old)

theorem newArray (l : Ledger) (elements : List Value) : l.Spares P (l.newArray elements).2 where
  arrays := by
    rw [Ledger.newArray, Array.size_push]
    exact Nat.le_succ _
  dicts := Nat.le_refl _
  array r old := by
    rw [Ledger.array, Ledger.array, Ledger.newArray, Array.getD_eq_getD_getElem?,
      Array.getElem?_push, if_neg (Nat.ne_of_lt old), Array.getD_eq_getD_getElem?]
  entries _ _ _ := rfl

theorem newDict (l : Ledger) (es : Entries) : l.Spares P (l.newDict es).2 where
  arrays := Nat.le_refl _
  dicts := by
    rw [Ledger.newDict, Array.size_push]
    exact Nat.le_succ _
  array _ _ := rfl
  entries r _ old := by
    rw [Ledger.entries, Ledger.entries, Ledger.newDict, Array.getD_eq_getD_getElem?,
      Array.getElem?_push, if_neg (Nat.ne_of_lt old), Array.getD_eq_getD_getElem?]

theorem mapM {γ α : Type} {f : γ → StateM Ledger α} : ∀ (cs : List γ) (l : Ledger),
    (∀ c ∈ cs, ∀ l : Ledger, l.Spares P ((f c).run l).2) → l.Spares P ((cs.mapM f).run l).2
  | [], l, _ => by
    rw [List.mapM_nil]
    exact refl l
  | c :: cs, l, hf => by
    rw [List.mapM_cons]
    exact (hf c List.mem_cons_self l).trans
      (mapM cs ((f c).run l).2 fun d hd => hf d (List.mem_cons_of_mem c hd))

/-- A copy leaves everything as it was. -/
theorem copyTo (n : Nat) (v : Value) (l : Ledger) : l.Spares P ((Ledger.copyTo n v).run l).2 := by
  induction n generalizing v l with
  | zero => exact refl l
  | succ n ih =>
    cases v with
    | array r => exact (mapM (l.array r) l fun c _ => ih c).trans (newArray _ _)
    | dict r =>
      exact (mapM ((l.entries r).map Prod.snd) l fun c _ => ih c).trans (newDict _ _)
    | _ => exact refl l

theorem replace (l : Ledger) (r : DictRef) (es : Option Entries) (hr : ¬ P r) :
    l.Spares P (l.replace r es).2 := by
  cases es with
  | none => exact refl l
  | some es =>
    refine ⟨Nat.le_refl _, Nat.le_of_eq Array.size_modify.symm, fun _ _ => rfl, ?_⟩
    intro q hq old
    have apart : ¬ (r.index = q.index ∧ r.index < l.dicts.size) := by
      rintro ⟨same, -⟩
      have named : r = q := congrArg DictRef.mk same
      exact hr (named ▸ hq)
    exact (Heap.getD_modify _ _ _ _ _).trans (if_neg apart)

/-- An action spares every dictionary that it does not change. -/
theorem act (a : Action) (apart : ∀ r, P r → ¬ a.Changes r) (l : Ledger) :
    l.Spares P ((Ledger.act a).run l).2 := by
  cases a with
  | make => exact newDict l []
  | set r key value => exact replace l r _ fun hr => apart r hr rfl
  | delete r key => exact replace l r _ fun hr => apart r hr rfl
  | get r key => exact refl l
  | clone r => exact copyTo (l.arrays.size + l.dicts.size + 1) (.dict r) l

end Spares

/-! ## What a copy is made of -/

/-- All containers of the value are in `l`, none is in `l₀`, and they nest at most `n` deep. -/
def Made (l₀ l : Ledger) : (n : Nat) → Value → Prop
  | 0, v => v.container? = none
  | n + 1, .array r =>
    l₀.arrays.size ≤ r.index ∧ r.index < l.arrays.size ∧ ∀ v ∈ l.array r, Made l₀ l n v
  | n + 1, .dict r =>
    l₀.dicts.size ≤ r.index ∧ r.index < l.dicts.size ∧
      ∀ v ∈ (l.entries r).map Prod.snd, Made l₀ l n v
  | _ + 1, _ => True

namespace Made

variable {l₀ l l' : Ledger} {n : Nat} {v : Value}

/-- What is made of containers that nothing changes stays so made. -/
theorem spared (m : Made l₀ l n v) (s : l.Spares (fun _ => True) l') : Made l₀ l' n v := by
  induction n generalizing v with
  | zero => exact m
  | succ n ih =>
    cases v with
    | array r =>
      obtain ⟨new, there, within⟩ := m
      refine ⟨new, Nat.lt_of_lt_of_le there s.arrays, ?_⟩
      rw [s.array r there]
      exact fun u hu => ih (within u hu)
    | dict r =>
      obtain ⟨new, there, within⟩ := m
      refine ⟨new, Nat.lt_of_lt_of_le there s.dicts, ?_⟩
      rw [s.entries r trivial there]
      exact fun u hu => ih (within u hu)
    | _ => trivial

/-- What is made of later containers is made of containers that are not earlier. -/
theorem since (m : Made l' l n v) (s : l₀.Spares (fun _ => True) l') : Made l₀ l n v := by
  induction n generalizing v with
  | zero => exact m
  | succ n ih =>
    cases v with
    | array r =>
      exact ⟨Nat.le_trans s.arrays m.1, m.2.1, fun u hu => ih (m.2.2 u hu)⟩
    | dict r =>
      exact ⟨Nat.le_trans s.dicts m.1, m.2.1, fun u hu => ih (m.2.2 u hu)⟩
    | _ => trivial

/-- The copies of several values, one after another. -/
theorem mapM {f : Value → StateM Ledger Value}
    (spares : ∀ v l, Spares (fun _ => True) l ((f v).run l).2)
    (new : ∀ v l, Made l₀ l n v → Made l ((f v).run l).2 n ((f v).run l).1) :
    ∀ (vs : List Value) (l : Ledger), (∀ v ∈ vs, Made l₀ l n v) →
      ∀ u ∈ ((vs.mapM f).run l).1, Made l ((vs.mapM f).run l).2 n u
  | [], l, _ => by
    rw [List.mapM_nil]
    exact fun u hu => absurd hu List.not_mem_nil
  | v :: vs, l, within => by
    rw [List.mapM_cons]
    have first := new v l (within v List.mem_cons_self)
    have rest := mapM spares new vs ((f v).run l).2 fun w hw =>
      (within w (List.mem_cons_of_mem v hw)).spared (spares v l)
    intro u hu
    rcases List.mem_cons.mp hu with rfl | hu
    · exact first.spared (.mapM vs _ fun w _ => spares w)
    · exact (rest u hu).since (spares v l)

/-- A copy is made of new containers. -/
theorem copyTo (n : Nat) (v : Value) (l : Ledger) (m : Made l₀ l n v) :
    Made l ((Ledger.copyTo n v).run l).2 n ((Ledger.copyTo n v).run l).1 := by
  induction n generalizing v l with
  | zero => exact m
  | succ n ih =>
    have spares (v : Value) (l : Ledger) := Spares.copyTo (P := fun _ => True) n v l
    cases v with
    | array r =>
      have within := mapM spares ih (l.array r) l m.2.2
      have grown := Spares.mapM (P := fun _ => True) (l.array r) l fun v _ => spares v
      refine ⟨grown.arrays, ?_, ?_⟩
      · exact Nat.lt_of_lt_of_eq (Nat.lt_succ_self _) (Array.size_push _).symm
      · intro u hu
        rw [show ((Ledger.copyTo (n + 1) (.array r)).run l).2.array _ = _ from
          array_newArray _ _] at hu
        exact (within u hu).spared (.newArray _ _)
    | dict r =>
      have within := mapM spares ih ((l.entries r).map Prod.snd) l m.2.2
      have grown := Spares.mapM (P := fun _ => True) ((l.entries r).map Prod.snd) l
        fun v _ => spares v
      refine ⟨grown.dicts, ?_, ?_⟩
      · exact Nat.lt_of_lt_of_eq (Nat.lt_succ_self _) (Array.size_push _).symm
      · intro u hu
        rw [show ((Ledger.copyTo (n + 1) (.dict r)).run l).2.entries _ = _ from
          entries_newDict _ _] at hu
        obtain ⟨e, he, rfl⟩ := List.mem_map.mp hu
        exact (within e.2 (List.of_mem_zip he).2).spared (.newDict _ _)
    | _ => trivial

end Made

/-- A copy is a dictionary that was not there before. -/
theorem exists_copy (l : Ledger) (r : DictRef) :
    ∃ q, ((copy r).run l).1 = .dict q ∧ l.dicts.size ≤ q.index := by
  let values := (((l.entries r).map Prod.snd).mapM (copyTo (l.arrays.size + l.dicts.size))).run l
  refine ⟨⟨values.2.dicts.size⟩, rfl, ?_⟩
  have spares : l.Spares (fun _ => False) values.2 := .mapM _ l fun v _ => Spares.copyTo _ v
  exact spares.dicts

end Ledger

/-- Dictionaries that are made, set, read, cleared of keys and copied, in any order, behave as
lists of entries that are looked up from the front; their indexes stay exact.  What no action
changes keeps its entries, and a copy is a new dictionary, made of new containers if the
original does not contain itself: what becomes of the one is nothing to the other. -/
theorem dictionaries_keep_entries (h : Heap) (ordered : h.Ordered) (actions : List Action) :
    let after := (actions.mapM Heap.act).run h
    after.2.Ordered ∧ (actions.mapM Ledger.act).run h.ledger = (after.1, after.2.ledger) ∧
      (∀ r, r.index < h.dicts.size → (∀ a ∈ actions, ¬ a.Changes r) →
        (after.2.dict r).entries = (h.dict r).entries) ∧
      ∀ r, let copied := (Heap.copy (.dict r)).run after.2
        (∃ q, copied.1 = .dict q ∧ after.2.dicts.size ≤ q.index) ∧
          (Ledger.Made .empty after.2.ledger (after.2.containers + 1) (.dict r) →
            Ledger.Made after.2.ledger copied.2.ledger (after.2.containers + 1) copied.1) := by
  intro after
  obtain ⟨sound, same⟩ := Heap.Recorded.mapM Heap.Recorded.act actions h ordered
  refine ⟨sound, same, fun r old apart => ?_, fun r => ?_⟩
  · have spares : h.ledger.Spares (· = r) ((actions.mapM Ledger.act).run h.ledger).2 :=
      .mapM actions h.ledger fun a ha => .act a fun q hq => hq ▸ apart a ha
    rw [same] at spares
    rw [← Heap.entries_ledger, ← Heap.entries_ledger]
    exact spares.entries r rfl (Nat.lt_of_lt_of_eq old Array.size_map.symm)
  · intro copied
    obtain ⟨q, made, new⟩ := after.2.ledger.exists_copy r
    have copy : (Ledger.copyTo (after.2.containers + 1) (.dict r)).run after.2.ledger =
        (copied.1, copied.2.ledger) :=
      (Heap.Recorded.copyTo (after.2.containers + 1) (.dict r) after.2 sound).2
    have answer := (Heap.Recorded.copy r after.2 sound).2
    rw [answer] at made
    refine ⟨⟨q, made, Nat.le_trans (Nat.le_of_eq Array.size_map.symm) new⟩, fun whole => ?_⟩
    have fresh := Ledger.Made.copyTo _ _ _ whole
    rwa [copy] at fresh

/-- A key is first set as a number and then as a truth value, a key that equals nothing is set
twice, the dictionary is copied, and the entry under the real of the same value is removed from
the original alone. -/
theorem dictionaries_keep_entries_mixed :
    let nan : Value := .real (0.0 / 0.0)
    let d : DictRef := ⟨0⟩
    let actions : List Action := [.make, .set d (.int 1) (.string "a"), .set d nan .none,
      .set d (.bool true) (.string "b"), .set d nan .none, .clone d, .delete d (.real 1),
      .set ⟨1⟩ (.array ⟨0⟩) .none, .get ⟨1⟩ (.int 1)]
    Heap.empty.Ordered ∧
      ((actions.mapM Heap.act).run Heap.empty).2.Ordered ∧
      ((actions.mapM Ledger.act).run Heap.empty.ledger).2.dicts.map
          (fun es => es.map fun e => (e.1.keyForm, e.2.keyForm)) =
        #[[(.unequal, .found .none), (.unequal, .found .none)],
          [(.found (.int 1), .found (.string "b")), (.unequal, .found .none),
            (.unequal, .found .none)]] :=
  ⟨Heap.ordered_empty, (dictionaries_keep_entries Heap.empty Heap.ordered_empty _).1, by
    decide +kernel⟩

/-! ## Dictionaries that operations have made

A dictionary is built from the empty one by setting and removing entries and by copying.
Such a dictionary is sound, and its keys can be keys, so that its index gives the place of
every key except of one that equals nothing (`Built.indexed`).  A session has no others
(`Session.Reachable.built`). -/

namespace Dictionary

/-- The operations of dictionaries have made this one. -/
inductive Built : Dictionary → Prop
  | empty : Built empty
  | insert {d e : Dictionary} {key value : Value} : Built d → d.insert? key value = some e → Built e
  | erase {d e : Dictionary} {key : Value} : Built d → d.erase? key = some e → Built e
  /-- A copy has the same keys and as many values. -/
  | copy {d : Dictionary} {values : Array Value} : Built d → values.size = d.values.size →
      Built (d.withValues values)

namespace Built

variable {d : Dictionary}

theorem insert_of_key (built : d.Built) {key : Value} (hashable : key.keyForm ≠ .unhashable)
    (value : Value) : (d.insert key value).Built :=
  .insert built (if_neg hashable)

theorem sound (built : d.Built) : d.Sound := by
  induction built with
  | empty => exact sound_empty
  | insert _ made ih => exact (ih.insert? _ _).1 _ made
  | erase _ made ih => exact (ih.erase? _).1 _ made
  | copy _ even ih => exact ih.withValues even

/-- What stands in the place of a key can be one. -/
theorem all (built : d.Built) : d.All fun _ => True := by
  induction built with
  | empty => exact .empty
  | insert _ made ih => exact ih.insert? trivial made
  | erase _ made ih => exact ih.erase? made
  | copy _ _ ih => exact ih.withValues fun _ _ => trivial

/-- The index gives the place of every key, except for one that equals nothing. -/
theorem indexed (built : d.Built) {i : Nat} {k : Value} (there : d.keys[i]? = some k)
    (equals : k.keyForm ≠ .unequal) :
    ∃ form, k.keyForm = .found form ∧ d.index[form]? = some i := by
  cases form : k.keyForm with
  | found l => exact ⟨l, rfl, (built.sound.placed l i).mpr ⟨k, there, form⟩⟩
  | unequal => exact absurd form equals
  | unhashable => exact absurd form (built.all.keys.toArray k (Array.mem_of_getElem? there))

end Built

end Dictionary

namespace Heap

/-- The operations of dictionaries have made every dictionary of the heap. -/
def Built (h : Heap) : Prop := ∀ d ∈ h.dicts, d.Built

variable {h : Heap} {d : Dictionary}

theorem Built.dict (built : h.Built) (r : DictRef) : (h.dict r).Built :=
  getD_of_forall built .empty

theorem Built.newDict (built : h.Built) (hd : d.Built) : (h.newDict d).2.Built :=
  forall_mem_push built hd

theorem Built.modifyDict (built : h.Built) (r : DictRef) {f : Dictionary → Dictionary}
    (hf : ∀ d : Dictionary, d.Built → (f d).Built) : (h.modifyDict r f).Built :=
  forall_mem_modify built fun d hd => hf d (built d hd)

end Heap

end Pseudocode
