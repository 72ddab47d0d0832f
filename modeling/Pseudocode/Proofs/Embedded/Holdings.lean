import Pseudocode.Proofs.Copying.Independence
import Pseudocode.Proofs.Embedded.Import
import Pseudocode.Proofs.Execution.Indexing
/-
# `Proofs.Embedded.Holdings` — what belongs to the containers of a library

The classes of containers and their instances each have an array in which their elements are.
What an array reaches belongs to its owner, and nothing belongs to two owners (`Heap.Houses`).
So what is done to one instance leaves the others and the classes as they are: if everything else
is left alone, then only what the instance itself has become must be looked at
(`Houses.replace`).  Adding an element, taking one out and making a new instance are such changes.
-/
namespace Pseudocode

open Embedded (Discipline)

/-! ## What is asked of a container -/

namespace Embedded

namespace Discipline

variable {α β : Type}

/-- The element that is taken next. -/
def next? : Discipline → List α → Option α
  | lifo, xs => xs.getLast?
  | fifo, xs => xs.head?

/-- What is left then. -/
def rest : Discipline → List α → List α
  | lifo, xs => xs.dropLast
  | fifo, xs => xs.tail

/-- Where the element stands that is taken next. -/
def place : Discipline → Nat → Nat
  | lifo, n => n - 1
  | fifo, _ => 0

theorem place_lt (d : Discipline) {n : Nat} (some : 0 < n) : d.place n < n := by
  cases d with
  | lifo => exact Nat.sub_one_lt some.ne'
  | fifo => exact some

theorem next?_eq (d : Discipline) (xs : List α) : d.next? xs = xs[d.place xs.length]? := by
  cases d with
  | lifo => exact List.getLast?_eq_getElem?
  | fifo => exact List.head?_eq_getElem?

theorem rest_eq (d : Discipline) (xs : List α) : d.rest xs = xs.eraseIdx (d.place xs.length) := by
  cases d with
  | lifo => exact List.eraseIdx_length_sub_one.symm
  | fifo => exact List.eraseIdx_zero.symm

end Discipline

/-- What is asked of a container: to add a value that is made like this, to take an element out, to
look at the one that would be taken, for the number of elements, and whether there are none. -/
inductive Operation where
  | add (t : Tree)
  | take
  | peek
  | size
  | isEmpty

namespace Operation

/-- The method that does it. -/
def method (d : Discipline) : Operation → String
  | add _ => d.adding
  | take => d.taking
  | peek => "peek"
  | size => "size"
  | isEmpty => "is_empty"

/-- What it leaves of a list. -/
def after (d : Discipline) : Operation → List Tree → List Tree
  | add t, ts => ts ++ [t]
  | take, ts => d.rest ts
  | _, ts => ts

/-- What it answers for a list. -/
def answer (d : Discipline) : Operation → List Tree → Tree
  | add _, _ => .leaf .none
  | take, ts | peek, ts => (d.next? ts).getD (.leaf .none)
  | size, ts => .leaf (.int ts.length)
  | isEmpty, ts => .leaf (.bool ts.isEmpty)

/-- The parameters of the method. -/
def params : Operation → List String
  | add _ => ["value"]
  | _ => []

/-- The body of the method. -/
def body (d : Discipline) : Operation → List Stmt
  | add _ => Discipline.addBody
  | take => d.takeBody
  | peek => d.peekBody
  | size => [give (apply "LEN" [held])]
  | isEmpty => [give emptyTest]

theorem routine_mem (d : Discipline) (op : Operation) :
    routine (op.method d) op.params (op.body d) ∈ d.routines := by
  cases op <;> simp [Discipline.routines, method, params, body]

/-- The arguments with which it is called. -/
def Given (h : Heap) : Operation → List Value → Prop
  | add t, args => ∃ v, args = [v] ∧ h.Unfolds t v
  | _, args => args = []

end Operation

end Embedded

/-! ## Arrays do not contain themselves -/

namespace Heap

variable {h h' : Heap} {root : ScopeRef}

/-- What a value reaches has no higher tree than the value. -/
theorem Unfolds.height_of_reaches {t u : Tree} {c : Container} : ∀ {v : Value}, h.Unfolds t v →
    h.Reaches c v → h.Unfolds u c.value → u.height ≤ t.height := by
  induction t using Tree.induct with
  | leaf x =>
    rintro v ⟨rfl, hv⟩ reach -
    exact absurd reach (Reaches.of_leaf hv)
  | array ts ih =>
    intro v ht reach hu
    obtain ⟨r, rfl, -, all⟩ := unfolds_array.mp ht
    rcases Reaches.iff_array.mp reach with rfl | ⟨x, mem, hx⟩
    · rw [unfolds_unique hu ht]
    · obtain ⟨t, here, made⟩ := exists_left_of_mem all x mem
      exact (ih t here made hx hu).trans ((Tree.height_le_heights here).trans (Nat.le_succ _))
  | dict ks ix ts ih =>
    intro v ht reach hu
    obtain ⟨r, rfl, -, -, -, -, all⟩ := unfolds_dict.mp ht
    rcases Reaches.iff_dict.mp reach with rfl | ⟨x, mem, hx⟩
    · rw [unfolds_unique hu ht]
    · obtain ⟨t, here, made⟩ := exists_left_of_mem all x mem
      exact (ih t here made hx hu).trans ((Tree.height_le_heights here).trans (Nat.le_succ _))

theorem Unfolds.array {ts : List Tree} {a : ArrayRef} (ht : h.Unfolds (.array ts) (.array a)) :
    a.index < h.arrays.size ∧ List.Forall₂ h.Unfolds ts (h.array a).toList := by
  obtain ⟨r, same, inside, all⟩ := unfolds_array.mp ht
  cases same
  exact ⟨inside, all⟩

theorem Unfolds.not_within {ts : List Tree} {a : ArrayRef} {x : Value}
    (ht : h.Unfolds (.array ts) (.array a)) (mem : x ∈ (h.array a).toList) :
    ¬ h.Reaches (.array a) x := by
  intro reach
  obtain ⟨t, here, made⟩ := exists_left_of_mem ht.array.2 x mem
  have low := made.height_of_reaches reach ht
  have high := Tree.height_le_heights here
  rw [Tree.height] at low
  omega

theorem forall₂_eraseIdx {α β : Type} {R : α → β → Prop} {as : List α} {bs : List β}
    (all : List.Forall₂ R as bs) (i : Nat) : List.Forall₂ R (as.eraseIdx i) (bs.eraseIdx i) := by
  induction all generalizing i with
  | nil => exact .nil
  | cons here rest ih =>
    cases i with
    | zero => exact rest
    | succ i => exact .cons here (ih i)

/-! ## What belongs to whom -/

/-- The properties of a class or an instance. -/
def members (h : Heap) : Owner → Table Value
  | .ofClass c => (h.classType c).props
  | .ofObject o => (h.object o).props

/-- The container belongs to the class or the instance. -/
def Possesses (h : Heap) (o : Owner) (c : Container) : Prop :=
  ∃ v, (h.members o).get? "items" = some v ∧ h.Reaches c v

/-- The member is the method that is defined like this. -/
def Defines (root : ScopeRef) (o : Owner) (r : Routine) (e : String × Value) : Prop :=
  ∃ f, e = (r.name, .subroutine f) ∧ Closes f r root (some o)

/-- A class or an instance is a container with these elements and its methods, and has nothing
else. -/
def Embodies (h : Heap) (root : ScopeRef) (d : Discipline) (o : Owner) (ts : List Tree) : Prop :=
  ∃ a ms, h.members o = ("items", .array a) :: ms ∧ List.Forall₂ (Defines root o) d.routines ms ∧
    h.Unfolds (.array ts) (.array a)

end Heap

/-- The elements of the classes and instances that are containers. -/
abbrev Contents := Owner → Option (Discipline × List Tree)

namespace Contents

/-- The classes, which hold nothing. -/
def start (c : Discipline → ClassRef) : Contents
  | .ofClass k =>
    if k = c .lifo then some (.lifo, []) else if k = c .fifo then some (.fifo, []) else none
  | .ofObject _ => none

theorem start_eq_some {o : Owner} {d : Discipline} {ts : List Tree} {c : Discipline → ClassRef}
    (contents : start c o = some (d, ts)) :
    o = .ofClass (c d) ∧ ts = [] := by
  cases o with
  | ofClass k =>
    rw [start] at contents
    split at contents
    · next here =>
      cases contents
      exact ⟨congrArg _ here, rfl⟩
    · split at contents
      · next here =>
        cases contents
        exact ⟨congrArg _ here, rfl⟩
      · cases contents
  | ofObject x => cases contents

theorem start_class {c : Discipline → ClassRef} (different : c .fifo ≠ c .lifo)
    (d : Discipline) : start c (.ofClass (c d)) = some (d, []) := by
  cases d with
  | lifo => exact if_pos rfl
  | fifo => exact (if_neg different).trans (if_pos rfl)

end Contents

namespace Heap

variable {h h' : Heap} {root : ScopeRef} {s : Contents} {o : Owner} {d : Discipline}
  {ts : List Tree}

/-- The container belongs to one of the owners. -/
def Held (h : Heap) (s : Contents) (c : Container) : Prop :=
  ∃ o, s o ≠ none ∧ h.Possesses o c

/-- The module that is rooted in the scope has its classes, which hold nothing, and its instances
have these elements.  No container belongs to two of them. -/
structure Houses (h : Heap) (root : ScopeRef) (s : Contents) : Prop where
  builtins : ∃ home, (h.scope root).bindings.Offers home
  classes : ∀ d : Discipline, ∃ c,
    (h.scope root).bindings.get? d.className = some (.classType c) ∧ s (.ofClass c) = some (d, [])
  embodied : ∀ o d ts, s o = some (d, ts) → h.Embodies root d o ts
  apart : ∀ o o' c, s o ≠ none → s o' ≠ none → h.Possesses o c → h.Possesses o' c → o = o'

/-- The module and what belongs to its classes and instances is as it was. -/
structure Leaves (root : ScopeRef) (s : Contents) (h h' : Heap) : Prop where
  scope : h'.scope root = h.scope root
  members : ∀ o, s o ≠ none → h'.members o = h.members o
  same : ∀ c, h.Held s c → h.SameAt h' c

theorem Possesses.of_members {v : Value} {c : Container} {t : Table Value}
    (own : h.members o = ("items", v) :: t) (reach : h.Reaches c v) : h.Possesses o c :=
  ⟨v, by rw [own]; rfl, reach⟩

theorem Possesses.reaches {v : Value} {c : Container} {t : Table Value}
    (own : h.members o = ("items", v) :: t) (possessed : h.Possesses o c) : h.Reaches c v := by
  obtain ⟨u, hu, reach⟩ := possessed
  rw [own] at hu
  cases hu
  exact reach

/-- A container is found in an array. -/
theorem Embodies.isIn {c : Container} (e : h.Embodies root d o ts) (possessed : h.Possesses o c) :
    c.In h := by
  obtain ⟨a, ms, own, -, ht⟩ := e
  exact ht.isIn (possessed.reaches own)

namespace Houses

variable (st : h.Houses root s)

include st

theorem isIn {c : Container} (held : h.Held s c) : c.In h := by
  obtain ⟨o, there, possessed⟩ := held
  obtain ⟨⟨d, ts⟩, contents⟩ := Option.ne_none_iff_exists'.mp there
  exact (st.embodied o d ts contents).isIn possessed

/-- The array of an owner. -/
theorem array (contents : s o = some (d, ts)) :
    ∃ a, (h.members o).get? "items" = some (.array a) := by
  obtain ⟨a, ms, own, -⟩ := st.embodied o d ts contents
  exact ⟨a, by rw [own]; rfl⟩

theorem unfolds (contents : s o = some (d, ts)) {v : Value}
    (own : (h.members o).get? "items" = some v) : h.Unfolds (.array ts) v := by
  obtain ⟨a, ms, members, -, ht⟩ := st.embodied o d ts contents
  rw [members] at own
  cases own
  exact ht

/-- The element that is taken next, and its place in the array. -/
theorem next {a : ArrayRef} (contents : s o = some (d, ts))
    (own : (h.members o).get? "items" = some (.array a)) (nonempty : ts ≠ []) :
    ∃ t v, d.next? ts = some t ∧ 0 < (h.array a).toList.length ∧
      (h.array a).toList[d.place (h.array a).toList.length]? = some v ∧ h.Unfolds t v := by
  have all := (st.unfolds contents own).array.2
  have some : 0 < (h.array a).toList.length := by
    rw [← all.length_eq]
    exact List.length_pos_of_ne_nil nonempty
  have there := List.getElem?_eq_getElem (d.place_lt some)
  obtain ⟨t, here, made⟩ := exists_getElem?_left all there
  rw [← all.length_eq, ← d.next?_eq] at here
  exact ⟨t, _, here, some, there, made⟩

/-- There are no instances but those that the heap has. -/
theorem inside {o : ObjectRef} (there : s (.ofObject o) ≠ none) : o.index < h.objects.size := by
  obtain ⟨⟨d, ts⟩, contents⟩ := Option.ne_none_iff_exists'.mp there
  obtain ⟨a, ms, own, -⟩ := st.embodied _ d ts contents
  by_contra outside
  rw [members, object, Array.getD_eq_getD_getElem?,
    Array.getElem?_eq_none (Nat.le_of_not_lt outside)] at own
  cases own

end Houses

/-! ## Before there are instances -/

theorem unfolds_empty {a : ArrayRef} (there : h.arrays[a.index]? = some (.ofArray #[])) :
    h.Unfolds (.array []) (.array a) ∧ ∀ c, h.Reaches c (.array a) → c = .array a := by
  have elements : (h.array a).toList = [] := by
    rw [array, slots, Array.getD_eq_getD_getElem?, there, Option.getD_some, Slots.toArray_ofArray]
  refine ⟨unfolds_array.mpr ⟨a, rfl, (Array.getElem?_eq_some_iff.mp there).1, ?_⟩, fun c reach => ?_⟩
  · rw [elements]
    exact .nil
  · rcases Reaches.iff_array.mp reach with here | ⟨x, mem, -⟩
    · exact here
    · rw [elements] at mem
      cases mem

/-- The classes have been defined, each with an empty array of its own. -/
theorem Houses.start {c : Discipline → ClassRef} {a : Discipline → ArrayRef}
    {ms : Discipline → Table Value} (builtins : ∃ home, (h.scope root).bindings.Offers home)
    (different : c .fifo ≠ c .lifo) (different' : a .fifo ≠ a .lifo)
    (bound : ∀ d : Discipline,
      (h.scope root).bindings.get? d.className = some (.classType (c d)))
    (own : ∀ d, h.members (.ofClass (c d)) = ("items", .array (a d)) :: ms d)
    (methods : ∀ d, List.Forall₂ (Defines root (.ofClass (c d))) d.routines (ms d))
    (empty : ∀ d, h.arrays[(a d).index]? = some (.ofArray #[])) :
    h.Houses root (Contents.start c) where
  builtins := builtins
  classes d := ⟨c d, bound d, Contents.start_class different d⟩
  embodied o d ts contents := by
    obtain ⟨rfl, rfl⟩ := Contents.start_eq_some contents
    exact ⟨a d, ms d, own d, methods d, (unfolds_empty (empty d)).1⟩
  apart o o' e there there' possessed possessed' := by
    obtain ⟨⟨d, ts⟩, contents⟩ := Option.ne_none_iff_exists'.mp there
    obtain ⟨⟨d', ts'⟩, contents'⟩ := Option.ne_none_iff_exists'.mp there'
    obtain ⟨rfl, -⟩ := Contents.start_eq_some contents
    obtain ⟨rfl, -⟩ := Contents.start_eq_some contents'
    have here := (unfolds_empty (empty d)).2 e (possessed.reaches (own d))
    have here' := (unfolds_empty (empty d')).2 e (possessed'.reaches (own d'))
    have same : a d = a d' := Container.array.inj (here.symm.trans here')
    cases d <;> cases d'
    · rfl
    · exact absurd same.symm different'
    · exact absurd same different'
    · rfl

/-! ## What is left alone -/

theorem sameAt_of_stores (arrays : h'.arrays = h.arrays) (dicts : h'.dicts = h.dicts)
    (c : Container) : h.SameAt h' c := by
  cases c with
  | array a => exact congrArg (·[a.index]?) arrays
  | dict d => exact congrArg (·[d.index]?) dicts

namespace Leaves

variable {h'' : Heap}

theorem reaches_iff (l : Leaves root s h h') {v : Value} {c : Container} (there : s o ≠ none)
    (own : (h.members o).get? "items" = some v) : h'.Reaches c v ↔ h.Reaches c v := by
  have back (c : Container) (reach : h'.Reaches c v) : h.Reaches c v :=
    reach.of_sameAt fun e he => l.same e ⟨o, there, v, own, he⟩
  exact ⟨back c, fun reach => reach.of_sameAt fun e he =>
    (l.same e ⟨o, there, v, own, back e he⟩).symm⟩

theorem possesses_iff (l : Leaves root s h h') {c : Container} (there : s o ≠ none) :
    h'.Possesses o c ↔ h.Possesses o c := by
  rw [Possesses, Possesses, l.members o there]
  exact exists_congr fun v => and_congr_right fun own => l.reaches_iff there own

theorem held_iff (l : Leaves root s h h') {c : Container} : h'.Held s c ↔ h.Held s c :=
  exists_congr fun _ => and_congr_right fun there => l.possesses_iff there

theorem refl (h : Heap) : Leaves root s h h := ⟨rfl, fun _ _ => rfl, fun c _ => .refl h c⟩

theorem trans (l : Leaves root s h h') (l' : Leaves root s h' h'') : Leaves root s h h'' where
  scope := l'.scope.trans l.scope
  members o there := (l'.members o there).trans (l.members o there)
  same c held := (l.same c held).trans (l'.same c (l.held_iff.mpr held))

theorem embodies (l : Leaves root s h h') (e : h.Embodies root d o ts) (there : s o ≠ none) :
    h'.Embodies root d o ts := by
  obtain ⟨a, ms, own, methods, ht⟩ := e
  refine ⟨a, ms, (l.members o there).trans own, methods, ht.of_sameAt fun c reach => ?_⟩
  exact l.same c ⟨o, there, .of_members own reach⟩

/-- Whatever else there is, the module's scope and all that belongs to values is the same. -/
theorem of_stores (scope : h'.scope root = h.scope root) (arrays : h'.arrays = h.arrays)
    (dicts : h'.dicts = h.dicts) (classes : h'.classes = h.classes)
    (objects : h'.objects = h.objects) : Leaves root s h h' where
  scope := scope
  members o _ := by
    cases o with
    | ofClass c => exact congrArg (fun cs => (cs.getD c.index default).props) classes
    | ofObject x => exact congrArg (fun os => (os.getD x.index default).props) objects
  same c _ := sameAt_of_stores arrays dicts c

/-- Only arrays and dictionaries were added. -/
theorem of_appends (st : h.Houses root s) (g : h.Appends h') : Leaves root s h h' where
  scope := by rw [g.rest]; rfl
  members o _ := by rw [g.rest]; cases o <;> rfl
  same c held := g.same c (st.isIn held)

end Leaves

/-- What is left alone stays as it was. -/
theorem Houses.of_leaves (st : h.Houses root s) (l : Leaves root s h h') : h'.Houses root s where
  builtins := l.scope ▸ st.builtins
  classes := l.scope ▸ st.classes
  embodied o d ts contents := l.embodies (st.embodied o d ts contents) (contents.trans_ne (Option.some_ne_none _))
  apart o o' c there there' possessed possessed' :=
    st.apart o o' c there there' ((l.possesses_iff there).mp possessed)
      ((l.possesses_iff there').mp possessed')

/-- What an instance has become, if everything else is left alone and nothing that belongs to
others has come to it. -/
theorem Houses.replace {x : ObjectRef} (st : h.Houses root s)
    (l : Leaves root (Function.update s (.ofObject x) none) h h')
    (new : h'.Embodies root d (.ofObject x) ts)
    (apart : ∀ o c, o ≠ .ofObject x → s o ≠ none → h'.Possesses (.ofObject x) c →
      ¬ h.Possesses o c) :
    h'.Houses root (Function.update s (.ofObject x) (some (d, ts))) := by
  have other {o : Owner} (ne : o ≠ .ofObject x) (u : Option (Discipline × List Tree)) :
      Function.update s (.ofObject x) u o = s o := Function.update_of_ne ne u s
  have alone {o : Owner} (ne : o ≠ .ofObject x) (there : s o ≠ none) :
      Function.update s (.ofObject x) none o ≠ none := by rwa [other ne]
  have different {o : Owner} (ne : o ≠ .ofObject x) (there : s o ≠ none) {c : Container}
      (possessed : h'.Possesses o c) : ¬ h'.Possesses (.ofObject x) c := fun own =>
    apart o c ne there own ((l.possesses_iff (alone ne there)).mp possessed)
  refine ⟨l.scope ▸ st.builtins, ?_, ?_, ?_⟩
  · rw [l.scope]
    intro d
    obtain ⟨c, bound, contents⟩ := st.classes d
    exact ⟨c, bound, (other (by nofun) _).trans contents⟩
  · intro o d' ts' contents
    by_cases self : o = .ofObject x
    · subst self
      rw [Function.update_self] at contents
      cases contents
      exact new
    · rw [other self] at contents
      have there : s o ≠ none := contents.trans_ne (Option.some_ne_none _)
      exact l.embodies (st.embodied o d' ts' contents) (alone self there)
  · intro o o' c there there' possessed possessed'
    by_cases self : o = .ofObject x <;> by_cases self' : o' = .ofObject x
    · rw [self, self']
    · rw [other self'] at there'
      subst self
      exact absurd possessed (different self' there' possessed')
    · rw [other self] at there
      subst self'
      exact absurd possessed' (different self there possessed)
    · rw [other self] at there
      rw [other self'] at there'
      exact st.apart o o' c there there' ((l.possesses_iff (alone self there)).mp possessed)
        ((l.possesses_iff (alone self' there')).mp possessed')

/-- What belonged to nobody is as it was, and does not belong to anybody now. -/
structure Secludes (s s' : Contents) (h h' : Heap) : Prop where
  grows : ∀ c : Container, c.In h → c.In h'
  kept : ∀ c : Container, c.In h → ¬ h.Held s c → h.SameAt h' c
  new : ∀ c : Container, c.In h → h'.Held s' c → h.Held s c

namespace Secludes

variable {s' s'' : Contents} {h'' : Heap}

theorem of_leaves (l : Leaves root s h h') (same : ∀ c : Container, c.In h → h.SameAt h' c) :
    Secludes s s h h' :=
  ⟨fun c inside => (same c inside).isIn.mpr inside, fun c inside _ => same c inside,
    fun _ _ held => l.held_iff.mp held⟩

theorem trans (k : Secludes s s' h h') (k' : Secludes s' s'' h' h'') : Secludes s s'' h h'' where
  grows c inside := k'.grows c (k.grows c inside)
  kept c inside free := by
    have same := k.kept c inside free
    exact same.trans (k'.kept c (k.grows c inside) fun held => free (k.new c inside held))
  new c inside held := by
    exact k.new c inside (k'.new c (k.grows c inside) held)

/-- A value that has nothing in common with the containers still has nothing. -/
theorem avoids (k : Secludes s s' h h') {v : Value} (free : h.Avoids (h.Held s) v) :
    h'.Avoids (h'.Held s') v := by
  intro c reach
  have kept (e : Container) (he : h.Reaches e v) : h.SameAt h' e :=
    k.kept e (free e he).1 (free e he).2
  have before := reach.of_sameAt kept
  obtain ⟨inside, out⟩ := free c before
  exact ⟨k.grows c inside, fun held => out (k.new c inside held)⟩

end Secludes

/-! ## Changes of an array -/

section Change

variable {x : ObjectRef} {a : ArrayRef} {f : Slots → Slots} {us : List Tree} {vs : List Value}

theorem members_modifyArray (h : Heap) (a : ArrayRef) (f : Slots → Slots) (o : Owner) :
    (h.modifyArray a f).members o = h.members o := by
  cases o <;> rfl

/-- What an owner has belongs to nobody else, and its array is not within its elements. -/
theorem Houses.free (st : h.Houses root s) (there : s o ≠ none)
    (own : (h.members o).get? "items" = some (.array a)) {v : Value} (mem : v ∈ (h.array a).toList)
    {c : Container} (reach : h.Reaches c v) :
    c ≠ .array a ∧ ∀ o', s o' ≠ none → h.Possesses o' c → o' = o := by
  obtain ⟨⟨d, ts⟩, contents⟩ := Option.ne_none_iff_exists'.mp there
  refine ⟨?_, fun o' there' possessed =>
    st.apart o' o c there' there possessed ⟨_, own, .of_array mem reach⟩⟩
  rintro rfl
  exact (st.unfolds contents own).not_within mem reach

/-- The array of an instance holds other values, which nobody else has. -/
theorem Houses.change (st : h.Houses root s) (contents : s (.ofObject x) = some (d, ts))
    (own : (h.members (.ofObject x)).get? "items" = some (.array a))
    (elements : ((h.modifyArray a f).array a).toList = vs) (made : List.Forall₂ h.Unfolds us vs)
    (free : ∀ v ∈ vs, ∀ c, h.Reaches c v → c ≠ .array a ∧
      ∀ o, s o ≠ none → h.Possesses o c → o = .ofObject x) :
    (h.modifyArray a f).Houses root (Function.update s (.ofObject x) (some (d, us))) ∧
      ∀ c, (h.modifyArray a f).Held (Function.update s (.ofObject x) (some (d, us))) c →
        h.Held s c ∨ ∃ v ∈ vs, h.Reaches c v := by
  obtain ⟨b, ms, members, methods, ht⟩ := st.embodied _ d ts contents
  obtain rfl : b = a := by
    rw [members] at own
    cases own
    rfl
  have there : s (.ofObject x) ≠ none := contents.trans_ne (Option.some_ne_none _)
  have mine : h.Possesses (.ofObject x) (.array b) := ⟨_, own, .here rfl⟩
  have inside : b.index < h.arrays.size := ht.isIn (.here rfl)
  have members' := (members_modifyArray h b f (.ofObject x)).trans members
  have same {v : Value} (mem : v ∈ vs) {c : Container} (reach : h.Reaches c v) :
      h.SameAt (h.modifyArray b f) c := sameAt_modifyArray (free v mem c reach).1
  have inner {c : Container} (possessed : (h.modifyArray b f).Possesses (.ofObject x) c) :
      c = .array b ∨ ∃ v ∈ vs, h.Reaches c v := by
    refine (Reaches.iff_array.mp (possessed.reaches members')).imp_right ?_
    rw [elements]
    rintro ⟨v, mem, reach⟩
    exact ⟨v, mem, reach.of_sameAt fun e he => same mem he⟩
  have others : Leaves root (Function.update s (.ofObject x) none) h (h.modifyArray b f) := by
    refine ⟨rfl, fun o _ => members_modifyArray h b f o, ?_⟩
    rintro c ⟨o, there', possessed⟩
    refine sameAt_modifyArray ?_
    rintro rfl
    have ne : o ≠ .ofObject x := by
      rintro rfl
      exact there' (Function.update_self ..)
    rw [Function.update_of_ne ne] at there'
    exact ne (st.apart o _ _ there' there possessed mine)
  constructor
  · refine st.replace others ⟨b, ms, members', methods, ?_⟩ fun o c ne there' possessed before => ?_
    · refine unfolds_array.mpr
        ⟨b, rfl, (isIn_modifyArray (c := .array b)).mpr inside, ?_⟩
      rw [elements]
      exact forall₂_of_mem made fun u _ v mem hu => hu.of_sameAt fun c reach => same mem reach
    · rcases inner possessed with rfl | ⟨v, mem, reach⟩
      · exact ne (st.apart o _ _ there' there before mine)
      · exact ne ((free v mem c reach).2 o there' before)
  · rintro c ⟨o, there', possessed⟩
    by_cases self : o = .ofObject x
    · subst self
      rcases inner possessed with rfl | within
      · exact .inl ⟨_, there, mine⟩
      · exact .inr within
    · rw [Function.update_of_ne self] at there'
      refine .inl ⟨o, there', (others.possesses_iff ?_).mp possessed⟩
      rwa [Function.update_of_ne self]

/-- An element is taken out of an instance. -/
theorem Houses.erase (st : h.Houses root s) (contents : s (.ofObject x) = some (d, ts))
    (own : (h.members (.ofObject x)).get? "items" = some (.array a)) {p : Nat}
    (place : p < ts.length) :
    (h.modifyArray a (·.erase p)).Houses root
        (Function.update s (.ofObject x) (some (d, ts.eraseIdx p))) ∧
      Secludes s (Function.update s (.ofObject x) (some (d, ts.eraseIdx p))) h
        (h.modifyArray a (·.erase p)) := by
  have there : s (.ofObject x) ≠ none := contents.trans_ne (Option.some_ne_none _)
  obtain ⟨inside, all⟩ := (st.unfolds contents own).array
  have size : p < (h.slots a).size := by
    rwa [← Slots.size_toArray, ← Array.length_toList, ← Heap.array, ← all.length_eq]
  have left {v : Value} (mem : v ∈ (h.array a).toList.eraseIdx p) : v ∈ (h.array a).toList :=
    List.mem_of_mem_eraseIdx mem
  obtain ⟨houses, held⟩ := st.change contents own (toList_erase inside size)
    (forall₂_eraseIdx all p) fun v mem c reach => st.free there own (left mem) reach
  refine ⟨houses, fun c => isIn_modifyArray.mpr, fun c _ free => ?_, fun c _ after => ?_⟩
  · refine sameAt_modifyArray ?_
    rintro rfl
    exact free ⟨_, there, _, own, .here rfl⟩
  · rcases held c after with before | ⟨v, mem, reach⟩
    · exact before
    · exact ⟨_, there, _, own, .of_array (left mem) reach⟩

/-- What an instance has got last reaches nothing that was there before. -/
def AddsNew (x : ObjectRef) (h h' : Heap) : Prop :=
  ∃ a c, (h'.members (.ofObject x)).get? "items" = some (.array a) ∧
    (h'.array a).toList.getLast? = some c ∧ ∀ e : Container, h'.Reaches e c → ¬ e.In h

/-- A copy is added to an instance. -/
theorem Houses.push (st : h.Houses root s) (contents : s (.ofObject x) = some (d, ts))
    (own : (h.members (.ofObject x)).get? "items" = some (.array a)) {t : Tree} {c : Value}
    (k : Planted h [t] [c] h') :
    (h'.modifyArray a (·.push c)).Houses root
        (Function.update s (.ofObject x) (some (d, ts ++ [t]))) ∧
      Secludes s (Function.update s (.ofObject x) (some (d, ts ++ [t]))) h
        (h'.modifyArray a (·.push c)) ∧
      AddsNew x h (h'.modifyArray a (·.push c)) := by
  have there : s (.ofObject x) ≠ none := contents.trans_ne (Option.some_ne_none _)
  have l := Leaves.of_appends st k.appends
  have st' := st.of_leaves l
  have own' : (h'.members (.ofObject x)).get? "items" = some (.array a) := by
    rw [l.members _ there, own]
  have mine : h.Held s (.array a) := ⟨_, there, _, own, .here rfl⟩
  have new {e : Container} (reach : h'.Reaches e c) : ¬ e.In h :=
    k.fresh c List.mem_cons_self e reach
  obtain ⟨inside, all⟩ := (st'.unfolds contents own').array
  obtain ⟨houses, held⟩ := st'.change contents own' (toList_push inside c)
    (List.rel_append all k.unfolds) fun v mem e reach => by
      rcases List.mem_append.mp mem with old | added
      · exact st'.free there own' old reach
      · obtain rfl := List.mem_singleton.mp added
        refine ⟨fun same => new reach (same ▸ st.isIn mine), fun o there' possessed => ?_⟩
        exact absurd (st.isIn ⟨o, there', (l.possesses_iff there').mp possessed⟩) (new reach)
  refine ⟨houses, ⟨fun e inside' => isIn_modifyArray.mpr (k.appends.isIn inside'),
    fun e inside' free => ?_, fun e inside' after => ?_⟩, a, c, ?_, ?_, fun e reach => ?_⟩
  · refine (k.appends.same e inside').trans (sameAt_modifyArray ?_)
    rintro rfl
    exact free mine
  · rcases held e after with before | ⟨v, mem, reach⟩
    · exact l.held_iff.mp before
    · rcases List.mem_append.mp mem with old | added
      · exact l.held_iff.mp ⟨_, there, _, own', .of_array old reach⟩
      · obtain rfl := List.mem_singleton.mp added
        exact absurd inside' (new reach)
  · rw [members_modifyArray, own']
  · rw [toList_push inside c, List.getLast?_concat]
  · refine new (reach.of_sameAt fun e' here => sameAt_modifyArray ?_)
    rintro rfl
    exact new here (st.isIn mine)

end Change

/-! ## Methods -/

/-- The methods of an owner by their names. -/
theorem names_of_defines {rs : List Routine} {ms : Table Value}
    (all : List.Forall₂ (Defines root o) rs ms) : ms.names = rs.map (·.name) :=
  map_eq_map_of_forall₂ all fun r _ e defined => by
    obtain ⟨f, rfl, -⟩ := defined
    rfl

theorem nodup_routines (d : Discipline) : ("items" :: d.routines.map (·.name)).Nodup := by
  cases d <;> decide

/-- The containers are made without arguments. -/
theorem init_not_mem (d : Discipline) : "INIT" ∉ "items" :: d.routines.map (·.name) := by
  cases d <;> decide

theorem Embodies.method (e : h.Embodies root d o ts) {r : Routine} (mem : r ∈ d.routines) :
    ∃ f, (h.members o).get? r.name = some (.subroutine f) ∧ Closes f r root (some o) := by
  obtain ⟨a, ms, own, all, -⟩ := e
  obtain ⟨m, here, f, rfl, closes⟩ := exists_left_of_mem all.flip r mem
  refine ⟨f, ?_, closes⟩
  rw [own]
  refine Table.get?_of_mem ?_ (List.mem_cons_of_mem _ here)
  rw [Table.names, List.map_cons, ← Table.names, names_of_defines all]
  exact nodup_routines d

/-! ## New instances -/

theorem copyTable_cons (x : String) (v : Value) (t : Table Value) (h : Heap) :
    (Heap.copyTable ((x, v) :: t)).run h =
      ((x, (Heap.copy v h).1) :: ((Heap.copyTable t).run (Heap.copy v h).2).1,
        ((Heap.copyTable t).run (Heap.copy v h).2).2) := by
  rw [Heap.copyTable, List.mapM_cons]
  rfl

theorem copyTable_plain : ∀ {t : Table Value} {h : Heap}, (∀ e ∈ t, e.2.container? = none) →
    (Heap.copyTable t).run h = (t, h)
  | [], _, _ => rfl
  | (x, v) :: t, h, plain => by
    have here : Heap.copy v h = (v, h) := by
      have leaf := plain (x, v) List.mem_cons_self
      cases v <;> first | rfl | cases leaf
    rw [copyTable_cons, here,
      copyTable_plain (h := h) fun e mem => plain e (List.mem_cons_of_mem _ mem)]

/-- The methods of a class, bound to an instance. -/
theorem defines_rebind {c : ClassRef} {rs : List Routine} {ms : Table Value}
    (all : List.Forall₂ (Defines root (.ofClass c)) rs ms) (x : ObjectRef) :
    List.Forall₂ (Defines root (.ofObject x)) rs
      (ms.map fun e => (e.1, Run.rebind c x e.2)) := by
  rw [List.forall₂_map_right_iff]
  refine all.imp fun r e defined => ?_
  obtain ⟨f, rfl, closes⟩ := defined
  have mine : Run.rebind c x (.subroutine f) =
      .subroutine { f with this := some (.ofObject x) } := if_pos closes.this
  exact ⟨{ f with this := some (.ofObject x) }, congrArg (Prod.mk r.name) mine, closes.name,
    closes.params, closes.body, closes.scope, rfl⟩

theorem newInstance_container {c : ClassRef} {h h₁ : Heap} {a b : ArrayRef} {ms : Table Value}
    (own : h.members (.ofClass c) = ("items", .array a) :: ms)
    (plain : ∀ e ∈ ms, e.2.container? = none)
    (copied : Heap.copy (.array a) h = (.array b, h₁)) :
    Run.newInstance c h = h₁.newObject
      ⟨c, ("items", .array b) :: ms.map fun e => (e.1, Run.rebind c ⟨h₁.objects.size⟩ e.2)⟩ := by
  have split : (Heap.copyTable (h.classType c).props).run h = (("items", .array b) :: ms, h₁) := by
    rw [show (h.classType c).props = _ from own, copyTable_cons, copied, copyTable_plain plain]
  refine Prod.ext ?_ (newInstance_eq split)
  rw [Run.newInstance, split]
  rfl

/-- Another instance does not change what is there. -/
theorem Leaves.newObject (st : h.Houses root s) (x : Object) :
    Leaves root s h (h.newObject x).2 where
  scope := rfl
  members o there := by
    cases o with
    | ofClass c => rfl
    | ofObject o =>
      have inside := st.inside there
      simp only [Heap.members, object, Heap.newObject, Array.getD_eq_getD_getElem?]
      rw [Array.getElem?_push_lt inside, Array.getElem?_eq_getElem inside]
  same c _ := by cases c <;> rfl

theorem members_newObject (h : Heap) (x : Object) :
    (h.newObject x).2.members (.ofObject ⟨h.objects.size⟩) = x.props := by
  simp only [members, object, Heap.newObject, Array.getD_eq_getD_getElem?, Array.getElem?_push_size,
    Option.getD_some]

/-- A new instance of a class is empty. -/
theorem Houses.create {c : ClassRef} (st : h.Houses root s)
    (contents : s (.ofClass c) = some (d, [])) :
    let x := (Run.newInstance c h).1
    let h' := (Run.newInstance c h).2
    s (.ofObject x) = none ∧ (h'.members (.ofObject x)).get? "INIT" = none ∧
      h'.Houses root (Function.update s (.ofObject x) (some (d, []))) ∧
      Secludes s (Function.update s (.ofObject x) (some (d, []))) h h' := by
  obtain ⟨a, ms, own, methods, ht⟩ := st.embodied _ d [] contents
  obtain ⟨v, h₁, copied⟩ : ∃ v h₁, Heap.copy (.array a) h = (v, h₁) := ⟨_, _, rfl⟩
  have k := ht.copy
  rw [copied] at k
  obtain ⟨b, rfl, -, -⟩ := unfolds_array.mp k.head
  have plain : ∀ e ∈ ms, e.2.container? = none := by
    intro e mem
    obtain ⟨r, -, f, rfl, -⟩ := exists_left_of_mem methods e mem
    rfl
  rw [newInstance_container own plain copied]
  let x : ObjectRef := ⟨h₁.objects.size⟩
  let methods' : Table Value := ms.map fun e => (e.1, Run.rebind c x e.2)
  let props : Table Value := ("items", .array b) :: methods'
  let h' := (h₁.newObject ⟨c, props⟩).2
  let s' := Function.update s (.ofObject x) (some (d, []))
  change s (.ofObject x) = none ∧ (h'.members (.ofObject x)).get? "INIT" = none ∧
    h'.Houses root s' ∧ Secludes s s' h h'
  have l := Leaves.of_appends st k.appends
  have st₁ := st.of_leaves l
  have l' := l.trans (Leaves.newObject st₁ ⟨c, props⟩)
  have free : s (.ofObject x) = none := by
    by_contra there
    exact absurd (st₁.inside there) (Nat.lt_irrefl _)
  have members' : h'.members (.ofObject x) = props := members_newObject ..
  have bound := defines_rebind methods x
  have same (e : Container) : h₁.SameAt h' e := by cases e <;> rfl
  have new {e : Container} (possessed : h'.Possesses (.ofObject x) e) : ¬ e.In h :=
    k.fresh _ List.mem_cons_self e ((possessed.reaches members').of_sameAt fun e _ => same e)
  have alone : Function.update s (.ofObject x) none = s := by rw [← free, Function.update_eq_self]
  refine ⟨free, ?_, ?_, ?_, ?_, ?_⟩
  · rw [members']
    refine Table.get?_of_not_mem ?_
    rw [Table.names, List.map_cons, ← Table.names, names_of_defines bound]
    exact init_not_mem d
  · refine st.replace (by rw [alone]; exact l') ⟨b, methods', members', bound, ?_⟩ ?_
    · exact k.head.of_sameAt fun e _ => same e
    · intro o e ne there possessed before
      exact new possessed (st.isIn ⟨o, there, before⟩)
  · exact fun e inside => (same e).isIn.mpr (k.appends.isIn inside)
  · exact fun e inside _ => (k.appends.same e inside).trans (same e)
  · rintro e inside ⟨o, there, possessed⟩
    by_cases self : o = .ofObject x
    · subst self
      exact absurd inside (new possessed)
    · have there' : s o ≠ none := by rwa [← Function.update_of_ne self (some (d, [])) s]
      exact ⟨o, there', (l'.possesses_iff there').mp possessed⟩

end Heap

/-! ## Changes elsewhere -/

namespace Edit

/-- The second heap has other arrays and dictionaries at most. -/
def SameRest (h h' : Heap) : Prop := h' = { h with arrays := h'.arrays, dicts := h'.dicts }

theorem SameRest.trans {h h' h'' : Heap} (same : SameRest h h') (same' : SameRest h' h'') :
    SameRest h h'' := by
  rw [SameRest, same', same]

/-- A change of a container leaves everything else. -/
theorem sameRest (e : Edit) (env : Env) (w : World) :
    SameRest w.heap (e.run.worldAfter env w).heap := by
  cases e with
  | assign span c key x =>
    have copied : SameRest w.heap (Heap.copy x w.heap).2 := (Heap.Appends.copy x w.heap).rest
    rw [run, Eval.worldAfter_bind_ok (Eval.copy_eq x env w)]
    rcases Stores.setItem_cases c.value key (Heap.copy x w.heap).1 (Heap.copy x w.heap).2 with
      ⟨t, set⟩ | ⟨a, p, -, set⟩ | ⟨d, -, -, set⟩
    · obtain ⟨f, set⟩ := Eval.ofHeapOpAt_error (w := { w with heap := _ }) set span env
      rwa [Eval.worldAfter_bind_error set]
    all_goals
      rw [Eval.worldAfter_bind_ok (Eval.ofHeapOpAt_ok (w := { w with heap := _ }) set span)]
      exact copied.trans rfl
  | append a args =>
    rcases Builtins.arrayAppend_cases a "append" args env w with ⟨-, f, ended⟩ | ⟨x, rfl, ended⟩
    · rw [run, Eval.worldAfter_error ended]
      rfl
    · rw [run, Eval.worldAfter_ok ended]
      exact SameRest.trans (Heap.Appends.copy x w.heap).rest rfl
  | pop a args =>
    rcases Builtins.arrayPop_cases a "pop" args env w with ⟨-, f, ended⟩ | ⟨p, -, -, ended⟩
    · rw [run, Eval.worldAfter_error ended]
      rfl
    · rw [run, Eval.worldAfter_ok ended]
      rfl
  | insert a args =>
    rcases Builtins.arrayInsert_cases a args env w with
      ⟨f, ended⟩ | ⟨i, x, n, c, h, -, -, copied, ended⟩
    · rw [run, Eval.worldAfter_error ended]
      rfl
    · rw [run, Eval.worldAfter_ok ended]
      have made := (Heap.Appends.copy x (w.heap.modifyArray a
        (·.openGap (Builtins.insertPlace n (w.heap.slots a).size)))).rest
      rw [copied] at made
      have opened : SameRest w.heap (w.heap.modifyArray a
        (·.openGap (Builtins.insertPlace n (w.heap.slots a).size))) := rfl
      exact opened.trans (SameRest.trans made rfl)
  | remove d args =>
    rcases Builtins.dictRemove_cases d "remove" args env w with
      ⟨f, ended⟩ | ⟨key, x, rest, -, -, -, ended⟩
    · rw [run, Eval.worldAfter_error ended]
      rfl
    · rw [run, Eval.worldAfter_ok ended]
      rfl

end Edit

end Pseudocode
