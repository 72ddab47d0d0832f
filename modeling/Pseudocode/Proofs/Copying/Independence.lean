import Pseudocode.Proofs.Copying.Copy
import Pseudocode.Proofs.Execution.Methods
/-
# `Proofs.Copying.Independence` — a copy goes its own way

The language changes containers in place by assigning to an element, and by the methods that
add, remove and insert (`Edit`).  Whatever such changes are made within a value, one after
another (`Edited`), the copy of the value shows as the value did before, and the other way
round (`copy_deep_and_independent`).

The argument keeps two sets of containers apart: those that are to stay as they are, which
are the ones that the one value reaches, and those that the other value reaches, which avoid
them (`Heap.Spares`).  A change puts copies into a container of the second kind, and a copy
consists of containers that were not there before.
-/
namespace Pseudocode

/-! ## Changes in place -/

/-- The container as a value. -/
def Container.value : Container → Value
  | array r => .array r
  | dict r => .dict r

/-- A change of a container in place. -/
inductive Edit where
  /-- An assignment to an element. -/
  | assign (span : Span) (container : Container) (key x : Value)
  | append (a : ArrayRef) (args : List Value)
  | pop (a : ArrayRef) (args : List Value)
  | insert (a : ArrayRef) (args : List Value)
  | remove (d : DictRef) (args : List Value)

namespace Edit

/-- The container that is changed. -/
def target : Edit → Container
  | assign _ container _ _ => container
  | append a _ | pop a _ | insert a _ => .array a
  | remove d _ => .dict d

/-- The values of which copies may be stored. -/
def stored : Edit → List Value
  | assign _ _ _ x => [x]
  | append _ args | insert _ args => args
  | pop _ _ | remove _ _ => []

/-- Carries out the change. -/
def run : Edit → Eval Value
  | assign span container key x => do
    let c ← Eval.copy x
    Eval.ofHeapOpAt span (Heap.setItem container.value key c)
    return .none
  | append a args => Builtins.arrayAppend a "append" args
  | pop a args => Builtins.arrayPop a "pop" args
  | insert a args => Builtins.arrayInsert a "insert" args
  | remove d args => Builtins.dictRemove d "remove" args

end Edit

/-- Changes within a value, one after another.  A change may fail, and each one finds its
container within the value as it is by then. -/
inductive Edited (v : Value) : World → World → Prop
  | refl (w : World) : Edited v w w
  | step {w w' : World} (e : Edit) (env : Env) : w.heap.Reaches e.target v →
      (∀ x ∈ e.stored, ∃ t, w.heap.Unfolds t x) → Edited v (e.run.worldAfter env w) w' →
      Edited v w w'

namespace Heap

/-! ## Containers that are avoided -/

/-- The value reaches containers that exist, and none of these. -/
def Avoids (h : Heap) (P : Container → Prop) (v : Value) : Prop :=
  ∀ c, h.Reaches c v → c.In h ∧ ¬ P c

section Avoids

variable {P : Container → Prop} {h h₀ h' : Heap} {v x : Value}

theorem avoids_leaf (hv : v.container? = none) : h.Avoids P v :=
  fun _ reach => absurd reach (Reaches.of_leaf hv)

/-- After a change of one container a value avoids what it did, if what was put into the
container does. -/
theorem Avoids.change {d : Container} (avoids : h.Avoids P v)
    (grows : ∀ c : Container, c.In h → c.In h')
    (other : ∀ p : Slot, p.host ≠ some d → h'.content? p = h.content? p)
    (item : ∀ i x, h'.content? (.item d i) = some x →
      (∃ j, h.content? (.item d j) = some x) ∨ h.Avoids P x) : h'.Avoids P v := by
  intro c reach
  induction reach with
  | here hv => exact ⟨grows c (avoids c (.here hv)).1, (avoids c (.here hv)).2⟩
  | @within v u e i hv hi _ ih =>
    by_cases same : e = d
    · subst same
      rcases item i u hi with ⟨j, hj⟩ | new
      · exact ih fun c reach => avoids c (.within hv hj reach)
      · exact ih new
    · rw [other (.item e i) fun host => same (Option.some.inj host)] at hi
      exact ih fun c reach => avoids c (.within hv hi reach)

/-- A heap in which certain containers are as they were, and which a value avoids. -/
structure Spares (P : Container → Prop) (h₀ h : Heap) (v : Value) : Prop where
  inside : ∀ c, P c → c.In h₀
  kept : ∀ c, P c → h₀.SameAt h c
  leaves : h.leafRepr = h₀.leafRepr
  avoids : h.Avoids P v

namespace Spares

/-- A copy may be made. -/
theorem copy (s : Spares P h₀ h v) {t : Tree} (ht : h.Unfolds t x) :
    Spares P h₀ (Heap.copy x h).2 v ∧ (Heap.copy x h).2.Avoids P (Heap.copy x h).1 := by
  have k := ht.copy
  have isIn : ∀ c, P c → c.In h := fun c hc => (s.kept c hc).isIn.mpr (s.inside c hc)
  refine ⟨⟨s.inside, fun c hc => (s.kept c hc).trans (k.appends.same c (isIn c hc)),
    k.appends.leafRepr.trans s.leaves, fun c reach => ?_⟩, fun c reach => ?_⟩
  · have before := s.avoids c (reach.of_sameAt fun d hd => k.appends.same d (s.avoids d hd).1)
    exact ⟨k.appends.isIn before.1, before.2⟩
  · have new := k.fresh _ List.mem_cons_self c reach
    exact ⟨k.head.isIn reach, fun hc => new (isIn c hc)⟩

/-- An array that is avoided may be changed, if what is put into it avoids the same. -/
theorem modifyArray (s : Spares P h₀ h v) {a : ArrayRef} (inside : a.index < h.arrays.size)
    (apart : ¬ P (.array a)) {f : Slots → Slots} (item : ∀ i x, (f (h.slots a)).get? i = some x →
      (∃ j, (h.slots a).get? j = some x) ∨ h.Avoids P x) :
    Spares P h₀ (h.modifyArray a f) v where
  inside := s.inside
  kept c hc := (s.kept c hc).trans (sameAt_modifyArray fun same => apart (same ▸ hc))
  leaves := by
    rw [← s.leaves]
    funext v
    cases v <;> rfl
  avoids := by
    refine s.avoids.change (d := .array a) (fun c => isIn_modifyArray.mpr)
      (fun p hp => h.content?_modifyArray a f p hp) fun i x hx => item i x ?_
    rwa [content?, h.slots_modifyArray a f inside] at hx

/-- An element of such an array may be replaced. -/
theorem set (s : Spares P h₀ h v) {a : ArrayRef} (inside : a.index < h.arrays.size)
    (apart : ¬ P (.array a)) (p : Nat) (new : h.Avoids P x) :
    Spares P h₀ (h.modifyArray a (·.set p x)) v := by
  refine s.modifyArray inside apart fun i y hy => ?_
  rw [Slots.get?_set] at hy
  split at hy
  · exact .inr (Option.some.inj hy ▸ new)
  · exact .inl ⟨i, hy⟩

theorem modifyDict (s : Spares P h₀ h v) {d : DictRef} (inside : d.index < h.dicts.size)
    (apart : ¬ P (.dict d)) {f : Dictionary → Dictionary}
    (item : ∀ (i : Nat) (x : Value), (f (h.dict d)).values[i]? = some x →
      (∃ j : Nat, (h.dict d).values[j]? = some x) ∨ h.Avoids P x) :
    Spares P h₀ (h.modifyDict d f) v where
  inside := s.inside
  kept c hc := (s.kept c hc).trans (sameAt_modifyDict fun same => apart (same ▸ hc))
  leaves := by
    rw [← s.leaves]
    funext v
    cases v <;> rfl
  avoids := by
    refine s.avoids.change (d := .dict d) (fun c => isIn_modifyDict.mpr)
      (fun p hp => h.content?_modifyDict d f p hp) fun i x hx => item i x ?_
    rwa [content?, h.dict_modifyDict d f inside] at hx

end Spares

end Avoids

/-! ## Room in an array -/

/-- Where room is made, there is an element that was there before, or nothing. -/
theorem of_get?_openGap {xs : Slots} {n : Nat} (room : n ≤ xs.size) {i : Nat} {y : Value}
    (hy : (xs.openGap n).get? i = some y) :
    (∃ j, xs.get? j = some y) ∨ y.container? = none := by
  rw [Slots.get?_openGap _ room] at hy
  repeat' split at hy
  · exact .inl ⟨_, hy⟩
  · exact .inl ⟨_, hy⟩
  · exact .inr (Option.some.inj hy ▸ rfl)
  · exact .inl ⟨_, hy⟩

/-- A value that unfolds still does after a change of one array that only moves elements
about or puts in what is no container. -/
theorem Unfolds.exists_modifyArray {h : Heap} {a : ArrayRef} {f : Slots → Slots}
    (inside : a.index < h.arrays.size) (item : ∀ i x, (f (h.slots a)).get? i = some x →
      (∃ j, (h.slots a).get? j = some x) ∨ x.container? = none) {t : Tree} :
    ∀ {v : Value}, h.Unfolds t v → ∃ u, (h.modifyArray a f).Unfolds u v := by
  induction t using Tree.induct with
  | leaf u => exact fun ht => ⟨.leaf u, ht⟩
  | array ts ih =>
    intro v ht
    obtain ⟨r, rfl, there, all⟩ := unfolds_array.mp ht
    have each : ∀ x ∈ (h.array r).toList, ∃ u, (h.modifyArray a f).Unfolds u x := by
      intro x mem
      obtain ⟨t, ht, hx⟩ := exists_left_of_mem all x mem
      exact ih t ht hx
    have each' : ∀ x ∈ ((h.modifyArray a f).array r).toList,
        ∃ u, (h.modifyArray a f).Unfolds u x := by
      by_cases same : r = a
      · subst same
        rw [array, slots_modifyArray h r f inside]
        intro x mem
        obtain ⟨i, hi⟩ := List.mem_iff_getElem?.mp mem
        rw [Array.getElem?_toList, Slots.getElem?_toArray] at hi
        rcases item i x hi with ⟨j, hj⟩ | leaf
        · refine each x (List.mem_iff_getElem?.mpr ⟨j, ?_⟩)
          rwa [Array.getElem?_toList, array, Slots.getElem?_toArray]
        · exact ⟨.leaf x, unfolds_of_leaf leaf⟩
      · rwa [array, slots_modifyArray_of_ne same]
    obtain ⟨us, all'⟩ := exists_forall₂ each'
    exact ⟨.array us, unfolds_array.mpr
      ⟨r, rfl, (@isIn_modifyArray h a f (.array r)).mpr there, all'⟩⟩
  | dict ks ix ts ih =>
    intro v ht
    obtain ⟨r, rfl, there, hk, hi, keys, all⟩ := unfolds_dict.mp ht
    obtain ⟨us, all'⟩ := exists_forall₂ fun x mem => by
      obtain ⟨t, ht, hx⟩ := exists_left_of_mem all x mem
      exact ih t ht hx
    exact ⟨.dict ks ix us, unfolds_dict.mpr ⟨r, rfl, there, hk, hi, keys, all'⟩⟩

end Heap

/-! ## Every change spares what is avoided -/

/-- What a dictionary holds after a removal it held before. -/
theorem Dictionary.exists_of_erase? {d rest : Dictionary} {key : Value}
    (removed : d.erase? key = some rest) {i : Nat} {x : Value} (hx : rest.values[i]? = some x) :
    ∃ j : Nat, d.values[j]? = some x := by
  rw [erase?] at removed
  split at removed
  · split at removed
    next k _ p _ =>
      cases removed
      by_cases inside : p < d.values.size
      · rw [Heap.getElem?_eraseIdxIfInBounds inside] at hx
        exact ⟨_, hx⟩
      · rw [Array.eraseIdxIfInBounds, dif_neg inside] at hx
        exact ⟨_, hx⟩
    next => cases removed
  · cases removed

namespace Heap.Spares

variable {P : Container → Prop} {h₀ : Heap} {v : Value} {w : World}

theorem assign (s : Spares P h₀ w.heap v) {c : Container} (inside : c.In w.heap)
    (apart : ¬ P c) {x : Value} {t : Tree} (ht : w.heap.Unfolds t x) (span : Span) (key : Value)
    (env : Env) : Spares P h₀ ((Edit.assign span c key x).run.worldAfter env w).heap v := by
  obtain ⟨s', new⟩ := s.copy ht
  have inside' := ht.copy.appends.isIn inside
  rw [Edit.run, Eval.worldAfter_bind_ok (Eval.copy_eq x env w)]
  rcases Stores.setItem_cases c.value key (Heap.copy x w.heap).1 (Heap.copy x w.heap).2 with
    ⟨t, run⟩ | ⟨a, p, target, run⟩ | ⟨d, target, hashable, run⟩
  · obtain ⟨f, run⟩ := Eval.ofHeapOpAt_error (w := { w with heap := _ }) run span env
    rwa [Eval.worldAfter_bind_error run]
  · obtain rfl : c = .array a := by cases c <;> cases target; rfl
    rw [Eval.worldAfter_bind_ok (Eval.ofHeapOpAt_ok (w := { w with heap := _ }) run span)]
    exact s'.set inside' apart p new
  · obtain rfl : c = .dict d := by cases c <;> cases target; rfl
    rw [Eval.worldAfter_bind_ok (Eval.ofHeapOpAt_ok (w := { w with heap := _ }) run span)]
    refine s'.modifyDict inside' apart fun i y hy => ?_
    by_cases place : ((Heap.copy x w.heap).2.dict d).place key = i
    · subst place
      exact .inr (Dictionary.getElem?_insert_place _ hashable hy ▸ new)
    · rw [Dictionary.getElem?_insert_of_ne _ place] at hy
      exact .inl ⟨i, hy⟩

variable {a : ArrayRef} {args : List Value}

theorem append (s : Spares P h₀ w.heap v) (inside : (Container.array a).In w.heap)
    (apart : ¬ P (.array a)) (stored : ∀ x ∈ args, ∃ t, w.heap.Unfolds t x) (env : Env) :
    Spares P h₀ ((Edit.append a args).run.worldAfter env w).heap v := by
  rcases Builtins.arrayAppend_cases a "append" args env w with ⟨-, f, run⟩ | ⟨x, rfl, run⟩
  · rwa [Edit.run, Eval.worldAfter_error run]
  · rw [Edit.run, Eval.worldAfter_ok run]
    obtain ⟨t, ht⟩ := stored x List.mem_cons_self
    obtain ⟨s', new⟩ := s.copy ht
    refine s'.modifyArray (ht.copy.appends.isIn inside) apart fun i y hy => ?_
    rw [Slots.get?_push] at hy
    split at hy
    · exact .inr (Option.some.inj hy ▸ new)
    · exact .inl ⟨i, hy⟩

theorem pop (s : Spares P h₀ w.heap v) (inside : (Container.array a).In w.heap)
    (apart : ¬ P (.array a)) (env : Env) :
    Spares P h₀ ((Edit.pop a args).run.worldAfter env w).heap v := by
  rcases Builtins.arrayPop_cases a "pop" args env w with ⟨-, f, run⟩ | ⟨p, -, means, run⟩
  · rwa [Edit.run, Eval.worldAfter_error run]
  · rw [Edit.run, Eval.worldAfter_ok run]
    refine s.modifyArray inside apart fun i y hy => .inl ?_
    rw [Slots.get?_erase _ means.lt] at hy
    split at hy <;> exact ⟨_, hy⟩

/-- Room is made first, and then a copy is made of what the value has become by that. -/
theorem insert (s : Spares P h₀ w.heap v) (inside : (Container.array a).In w.heap)
    (apart : ¬ P (.array a)) (stored : ∀ x ∈ args, ∃ t, w.heap.Unfolds t x) (env : Env) :
    Spares P h₀ ((Edit.insert a args).run.worldAfter env w).heap v := by
  rcases Builtins.arrayInsert_cases a args env w with
    ⟨f, run⟩ | ⟨i, x, n, c, h, rfl, -, copied, run⟩
  · rwa [Edit.run, Eval.worldAfter_error run]
  · have room : Builtins.insertPlace n (w.heap.slots a).size ≤ (w.heap.slots a).size :=
      Nat.min_le_right _ _
    obtain ⟨t, ht⟩ := stored x (List.mem_cons_of_mem i List.mem_cons_self)
    obtain ⟨u, hu⟩ := ht.exists_modifyArray (f := (·.openGap _)) inside
      fun _ _ => of_get?_openGap room
    obtain ⟨s', new⟩ := (s.modifyArray inside apart fun i y hy =>
      (of_get?_openGap room hy).imp_right avoids_leaf).copy hu
    have inside' := hu.copy.appends.isIn (isIn_modifyArray.mpr inside)
    rw [copied] at s' new inside'
    rw [Edit.run, Eval.worldAfter_ok run]
    exact s'.set inside' apart _ new

theorem remove (s : Spares P h₀ w.heap v) {d : DictRef} (inside : (Container.dict d).In w.heap)
    (apart : ¬ P (.dict d)) (env : Env) :
    Spares P h₀ ((Edit.remove d args).run.worldAfter env w).heap v := by
  rcases Builtins.dictRemove_cases d "remove" args env w with
    ⟨f, run⟩ | ⟨key, x, rest, rfl, -, removed, run⟩
  · rwa [Edit.run, Eval.worldAfter_error run]
  · rw [Edit.run, Eval.worldAfter_ok run]
    exact s.modifyDict inside apart fun i y hy => .inl (Dictionary.exists_of_erase? removed hy)

/-- A change within the value. -/
theorem edit (s : Spares P h₀ w.heap v) (e : Edit) (env : Env) (reach : w.heap.Reaches e.target v)
    (stored : ∀ x ∈ e.stored, ∃ t, w.heap.Unfolds t x) :
    Spares P h₀ (e.run.worldAfter env w).heap v := by
  obtain ⟨inside, apart⟩ := s.avoids _ reach
  cases e with
  | assign span c key x =>
    obtain ⟨t, ht⟩ := stored x List.mem_cons_self
    exact s.assign inside apart ht span key env
  | append a args => exact s.append inside apart stored env
  | pop a args => exact s.pop inside apart env
  | insert a args => exact s.insert inside apart stored env
  | remove d args => exact s.remove inside apart env

/-- Any number of changes within the value. -/
theorem edited {w' : World} (edits : Edited v w w') (s : Spares P h₀ w.heap v) :
    Spares P h₀ w'.heap v := by
  induction edits with
  | refl w => exact s
  | step e env reach stored _ ih => exact ih (s.edit e env reach stored)

end Heap.Spares

namespace Heap

/-- Whatever is changed within one value, another value that shares no container with it
keeps its tree and its display form. -/
theorem Unfolds.edited {t : Tree} {u v : Value} {w w' : World} (hu : w.heap.Unfolds t u)
    (apart : ∀ c, w.heap.Reaches c v → c.In w.heap ∧ ¬ w.heap.Reaches c u) (edits : Edited v w w') :
    w'.heap.Unfolds t u ∧ w'.heap.repr u = w.heap.repr u := by
  have start : Spares (fun c => w.heap.Reaches c u) w.heap w.heap v :=
    ⟨fun c reach => hu.isIn reach, fun c _ => .refl w.heap c, rfl, apart⟩
  have s := start.edited edits
  have hu' := hu.of_sameAt s.kept
  refine ⟨hu', ?_⟩
  rw [hu'.repr_eq_text, hu.repr_eq_text, Tree.text_congr s.leaves]

/-- The copy of a value that unfolds to a tree adds containers to the heap and changes none; it
unfolds to the same tree, and every container that it reaches is new.  So it shows as the value
does, and is equal to it if no part is `nan`.  Changes within the value do not show in the copy,
nor do changes within the copy in the value. -/
theorem copy_deep_and_independent {h h' : Heap} {t : Tree} {v c : Value} (ht : h.Unfolds t v)
    (copied : Heap.copy v h = (c, h')) :
    h.Appends h' ∧ h'.Unfolds t c ∧ (∀ d, h'.Reaches d c → ¬ d.In h) ∧ h'.repr c = h.repr v ∧
      (h.Built → t.NaNFree → h'.equal v c = true) ∧
      (∀ w w', w.heap = h' → Edited v w w' → w'.heap.repr c = h.repr v) ∧
      (∀ w w', w.heap = h' → Edited c w w' → w'.heap.repr v = h.repr v) := by
  have k := ht.copy
  have shows := ht.repr_copy
  rw [copied] at k shows
  have new : ∀ d, h'.Reaches d c → ¬ d.In h := k.fresh c List.mem_cons_self
  have old : ∀ d, h'.Reaches d v → d.In h := fun d reach => ht.isIn (k.appends.reaches ht reach)
  have hv := k.appends.unfolds ht
  refine ⟨k.appends, k.head, new, shows, fun built free => ?_, fun w w' start edits => ?_,
    fun w w' start edits => ?_⟩
  · exact equal_of_unfolds (k.built built) free hv k.head
  · subst start
    exact ((k.head.edited (fun d reach => ⟨hv.isIn reach, fun other => new d other (old d reach)⟩)
      edits).2).trans shows
  · subst start
    exact ((hv.edited (fun d reach => ⟨k.head.isIn reach, fun other => new d reach (old d other)⟩)
      edits).2).trans (k.appends.repr ht)

/-- An array holds another one, once itself and once under a key of a dictionary.  The copy is
equal to it, and does not show that something is added to the inner array. -/
theorem copy_deep_and_independent_nested :
    ∃ (h h' : Heap) (c : Value), Heap.copy (.array ⟨1⟩) h = (c, h') ∧
      (h.array ⟨1⟩).toList = [.array ⟨0⟩, .dict ⟨0⟩] ∧ (h.dict ⟨0⟩).values.toList = [.array ⟨0⟩] ∧
      h'.repr c = h.repr (.array ⟨1⟩) ∧ h'.equal (.array ⟨1⟩) c = true ∧
      ((Edit.append ⟨0⟩ [.int 2]).run.worldAfter
        ⟨(default : Session.Options).setup, Session.main⟩
        { Session.rootedWorld default with heap := h' }).heap.repr c = h.repr (.array ⟨1⟩) := by
  let d := Dictionary.empty.insert (.string "k") (.array ⟨0⟩)
  let h := (((Heap.empty.newArray #[.int 1]).2.newDict d).2.newArray #[.array ⟨0⟩, .dict ⟨0⟩]).2
  have values : d.values = #[.array ⟨0⟩] := by
    simp [d, Dictionary.insert, Value.keyForm, Dictionary.empty, Dictionary.push]
  have keys : d.keys = #[.string "k"] := by
    simp [d, Dictionary.insert, Value.keyForm, Dictionary.empty, Dictionary.push, Dictionary.keys,
      Slots.empty]
  have inner : h.Unfolds (.array [.leaf (.int 1)]) (.array ⟨0⟩) :=
    unfolds_array.mpr ⟨⟨0⟩, rfl, by decide, .cons (unfolds_of_leaf rfl) .nil⟩
  have entry : h.Unfolds (.dict [.string "k"] d.index [.array [.leaf (.int 1)]]) (.dict ⟨0⟩) := by
    refine unfolds_dict.mpr ⟨⟨0⟩, rfl, by decide, congrArg Array.toList keys, rfl,
      List.forall_mem_singleton.mpr rfl, ?_⟩
    rw [show (h.dict ⟨0⟩).values = d.values from rfl, values]
    exact .cons inner .nil
  have whole : h.Unfolds (.array [.array [.leaf (.int 1)], .dict [.string "k"] d.index
      [.array [.leaf (.int 1)]]]) (.array ⟨1⟩) :=
    unfolds_array.mpr ⟨⟨1⟩, rfl, by decide, .cons inner (.cons entry .nil)⟩
  have built : h.Built := by
    intro e mem
    obtain rfl := Array.mem_singleton.mp mem
    exact .insert_of_key .empty (by decide) _
  obtain ⟨c, h', copied⟩ : ∃ c h', Heap.copy (.array ⟨1⟩) h = (c, h') := ⟨_, _, rfl⟩
  obtain ⟨appends, -, -, shows, equal, within, -⟩ := copy_deep_and_independent whole copied
  have reach : h'.Reaches (.array ⟨0⟩) (.array ⟨1⟩) :=
    appends.reached whole (.of_array List.mem_cons_self (.here rfl))
  have added : Edited (.array ⟨1⟩) { Session.rootedWorld default with heap := h' }
      ((Edit.append ⟨0⟩ [.int 2]).run.worldAfter ⟨(default : Session.Options).setup, Session.main⟩
        { Session.rootedWorld default with heap := h' }) :=
    .step (.append ⟨0⟩ [.int 2]) _ reach
      (List.forall_mem_singleton.mpr ⟨.leaf (.int 2), unfolds_of_leaf rfl⟩) (.refl _)
  refine ⟨h, h', c, copied, rfl, congrArg Array.toList values, shows, equal built ?_,
    within _ _ rfl added⟩
  simp [Tree.NaNFree, Tree.NaNFreeAll, Value.isNaN]

end Heap

end Pseudocode
