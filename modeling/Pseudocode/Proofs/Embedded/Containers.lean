import Pseudocode.Proofs.Embedded.Builtins
import Pseudocode.Proofs.Embedded.Holdings
/-
# `Proofs.Embedded.Containers` — the containers of the embedded library behave as lists

Each method of a container is run step by step: it does to the array of its instance what is
asked of the list (`Performed`), and nothing else that could be told.  A call adds a scope and
copies of the arguments to that, making an instance adds its array, and neither touches what
belongs to other instances or to the classes.  So every instance goes on as its own list does,
however calls on several of them follow one another (`History`), and whatever else happens in
between that leaves the module and its instances alone.
-/
namespace Pseudocode

open Embedded (Discipline Operation)

/-! ## What a method does -/

/-- What was asked of an instance has been done and answered. -/
structure Performed (op : Operation) (root : ScopeRef) (s : Contents) (x : ObjectRef)
    (d : Discipline) (ts : List Tree) (h h' : Heap) (v : Value) : Prop where
  houses : h'.Houses root (Function.update s (.ofObject x) (some (d, op.after d ts)))
  secludes : Heap.Secludes s (Function.update s (.ofObject x) (some (d, op.after d ts))) h h'
  answer : h'.Unfolds (op.answer d ts) v
  fresh : ∀ t, op = .add t → Heap.AddsNew x h h'

section Performed

variable {op : Operation} {root : ScopeRef} {s : Contents} {x : ObjectRef} {d : Discipline}
  {ts : List Tree} {h h₁ h' : Heap} {v : Value}

/-- What is only looked at stays as it is. -/
theorem Performed.unchanged (st : h.Houses root s) (contents : s (.ofObject x) = some (d, ts))
    (same : op.after d ts = ts) (answer : h.Unfolds (op.answer d ts) v) :
    Performed op root s x d ts h h v := by
  have update : Function.update s (.ofObject x) (some (d, op.after d ts)) = s := by
    rw [same, ← contents, Function.update_eq_self]
  refine ⟨?_, ?_, answer, ?_⟩
  · rwa [update]
  · rw [update]
    have same : Heap.Leaves root s h h := .refl h
    exact .of_leaves same fun c _ => .refl h c
  · rintro t rfl
    have longer : (ts ++ [t]).length = ts.length := congrArg List.length same
    rw [List.length_append, List.length_singleton] at longer
    omega

theorem Performed.after (p : Performed op root s x d ts h₁ h' v)
    (before : Heap.Secludes s s h h₁) : Performed op root s x d ts h h' v := by
  refine ⟨p.houses, before.trans p.secludes, p.answer, fun t adds => ?_⟩
  obtain ⟨a, c, own, last, new⟩ := p.fresh t adds
  exact ⟨a, c, own, last, fun e reach inside => new e reach (before.grows e inside)⟩

end Performed

namespace Room

variable {ρ : Room} {root : ScopeRef} {s : Contents} {x : ObjectRef} {d : Discipline}
  {ts : List Tree} {m m₁ m' : Memory} {a : ArrayRef}

variable (ρ) in
/-- A method of an instance runs in the room. -/
structure Serves (root : ScopeRef) (s : Contents) (x : ObjectRef) (d : Discipline) (ts : List Tree)
    (m : Memory) : Prop where
  houses : (ρ.world m).heap.Houses root s
  contents : s (.ofObject x) = some (d, ts)
  this : m.vars.get? "this" = some (.object x)
  around : ∃ home, ρ.globals.Offers home
  free : m.vars.get? "LEN" = none

theorem evals_minus_one : ρ.Evals m (.unary default .minus (Embedded.number 1)) (.int (-1)) m := by
  intro e' h
  cases e' <;> simp only [Expr.spanless, reduceCtorEq, Expr.unary.injEq, true_and] at h
  next span op e =>
  obtain ⟨rfl, h⟩ := h
  have done : Settles (fun n => (Run.run n).expr e >>= fun v =>
      Eval.inHeap (unaryOp · .minus v) >>= Eval.ofExceptAt span) ρ.env (ρ.world m) (.int (-1))
      (ρ.world m) := (evals_number 1 e h).bind (.always fun n => rfl)
  exact .step (done.of_eq fun n => rfl)

/-- The index of the element that is taken next. -/
theorem evals_index (d : Discipline) : ∃ key, ρ.Evals m d.index key m ∧
    ∀ n, 0 < n → key.Means n (d.place n) := by
  cases d with
  | lifo =>
    refine ⟨.int (-1), evals_minus_one, fun n some => ?_⟩
    obtain ⟨k, rfl⟩ := Nat.exists_eq_add_one_of_ne_zero some.ne'
    exact .last k
  | fifo => exact ⟨.int 0, evals_number 0, fun n some => ⟨0, rfl, by omega, by omega, rfl⟩⟩

theorem evalsAll_takeArgs (d : Discipline) : ∃ args, ρ.EvalsAll m d.takeArgs args m ∧
    args.length ≤ 1 ∧ ∀ n, 0 < n → (args.headD (.int (-1))).Means n (d.place n) := by
  cases d with
  | lifo =>
    refine ⟨[], evalsAll_nil, Nat.zero_le 1, fun n some => ?_⟩
    obtain ⟨k, rfl⟩ := Nat.exists_eq_add_one_of_ne_zero some.ne'
    exact .last k
  | fifo =>
    exact ⟨[.int 0], evalsAll_cons (evals_number 0) evalsAll_nil, Nat.le_refl 1,
      fun n some => ⟨0, rfl, by omega, by omega, rfl⟩⟩

namespace Serves

variable (sv : ρ.Serves root s x d ts m)

include sv

/-- The array of the instance. -/
theorem items : ∃ a, ((ρ.world m).heap.members (.ofObject x)).get? "items" = some (.array a) :=
  sv.houses.array sv.contents

theorem walks {chain : List Index} {v : Value}
    (own : ((ρ.world m).heap.members (.ofObject x)).get? "items" = some (.array a))
    (rest : ρ.Walks m (.array a) chain v m') :
    ρ.Evals m (.var default "this" (.property default "items" :: chain)) v m' :=
  evals_var (finds_local sv.this) (walks_property (property_stored own) rest)

theorem evals_held
    (own : ((ρ.world m).heap.members (.ofObject x)).get? "items" = some (.array a)) :
    ρ.Evals m Embedded.held (.array a) m :=
  sv.walks own (walks_nil _)

theorem evals_arrayMethod {name : String} {action : Native}
    (own : ((ρ.world m).heap.members (.ofObject x)).get? "items" = some (.array a))
    (method : arrayMethod? a name = some action) :
    ρ.Evals m (Embedded.member "this" ["items", name]) (.builtin ⟨m.fresh, name, action⟩)
      { m with fresh := m.fresh + 1 } :=
  sv.walks own (walks_property (property_method (fun _ => rfl) method) (walks_nil _))

theorem evals_size : ρ.Evals m (Embedded.apply "LEN" [Embedded.held]) (.int ts.length) m := by
  obtain ⟨a, own⟩ := sv.items
  obtain ⟨home, around⟩ := sv.around
  obtain ⟨inside, all⟩ := (sv.houses.unfolds sv.contents own).array
  have known : ("LEN", Native.len) ∈ Builtins.subroutines home ++ Builtins.conversions home := by
    simp [Builtins.subroutines]
  have held : m.Holds a ((ρ.world m).heap.array a).toList := .of_inside inside ..
  rw [all.length_eq]
  exact evals_len_array (offers_global around known sv.free) (sv.evals_held own) held

theorem evals_isEmpty : ρ.Evals m Embedded.emptyTest (.bool ts.isEmpty) m := by
  have compared : equalLeaves (.int ts.length) (.int 0) = ts.isEmpty := by
    cases ts <;> rfl
  rw [← compared]
  exact evals_binary rfl sv.evals_size (evals_number 0)
    fun h => binaryOp_eq_leaves h rfl rfl

/-- Methods that return nothing of an empty container. -/
theorem runs_empty (e : Expr) (empty : ts = []) :
    ρ.Runs m (Embedded.unlessEmpty e) (.returned .none) m := by
  subst empty
  exact runs_returned (execs_whenever sv.evals_isEmpty rfl
    (runs_returned (execs_give evals_none) [])) _

theorem runs_unlessEmpty {e : Expr} {v : Value} (nonempty : ts ≠ []) (value : ρ.Evals m e v m') :
    ρ.Runs m (Embedded.unlessEmpty e) (.returned v) m' := by
  have falsy : ts.isEmpty = false := List.isEmpty_eq_false_iff.mpr nonempty
  exact runs_cons (execs_whenever_not sv.evals_isEmpty falsy)
    (runs_returned (execs_give value) [])

/-! ### The methods -/

variable (ρ root s x d ts m) in
/-- The body of a method does what is asked of the instance. -/
def Does (op : Operation) (body : List Stmt) : Prop :=
  ∃ flow m', ρ.Runs m body flow m' ∧
    Performed op root s x d ts (ρ.world m).heap (ρ.world m').heap (Run.callResult flow)

theorem does_size :
    Does ρ root s x d ts m .size [Embedded.give (Embedded.apply "LEN" [Embedded.held])] :=
  ⟨_, m, runs_returned (execs_give sv.evals_size) [],
    .unchanged sv.houses sv.contents rfl ⟨rfl, rfl⟩⟩

theorem does_isEmpty : Does ρ root s x d ts m .isEmpty [Embedded.give Embedded.emptyTest] :=
  ⟨_, m, runs_returned (execs_give sv.evals_isEmpty) [],
    .unchanged sv.houses sv.contents rfl ⟨rfl, rfl⟩⟩

theorem does_peek : Does ρ root s x d ts m .peek d.peekBody := by
  by_cases empty : ts = []
  · subst empty
    refine ⟨_, m, sv.runs_empty _ rfl, .unchanged sv.houses sv.contents rfl ?_⟩
    cases d <;> exact ⟨rfl, rfl⟩
  · obtain ⟨a, own⟩ := sv.items
    obtain ⟨t, v, next, place, there, made⟩ := sv.houses.next sv.contents own empty
    obtain ⟨key, index, means⟩ := evals_index (ρ := ρ) (m := m) d
    have inside := (sv.houses.unfolds sv.contents own).array.1
    have item : (ρ.world m).heap.item (.array a) key = .ok v :=
      Memory.Holds.item (.of_inside inside ..) (means _ place) there ..
    refine ⟨_, m, sv.runs_unlessEmpty empty (sv.walks own (walks_subscript index item (walks_nil v))),
      .unchanged sv.houses sv.contents rfl ?_⟩
    rw [Operation.answer, next]
    exact made

theorem does_take : Does ρ root s x d ts m .take d.takeBody := by
  by_cases empty : ts = []
  · subst empty
    refine ⟨_, m, sv.runs_empty _ rfl, .unchanged sv.houses sv.contents ?_ ?_⟩
    · cases d <;> rfl
    · cases d <;> exact ⟨rfl, rfl⟩
  · obtain ⟨a, own⟩ := sv.items
    obtain ⟨t, v, next, place, there, made⟩ := sv.houses.next sv.contents own empty
    obtain ⟨args, arguments, few, means⟩ :=
      evalsAll_takeArgs (ρ := ρ) (m := { m with fresh := m.fresh + 1 }) d
    have taken := evals_pop (sv.evals_arrayMethod own rfl) arguments few (means _ place) there
    have all := (sv.houses.unfolds sv.contents own).array.2
    let p := d.place ((ρ.world m).heap.array a).toList.length
    have left : ts.eraseIdx p = d.rest ts := by rw [d.rest_eq, all.length_eq]
    have within : p < ts.length := Nat.lt_of_lt_of_eq (d.place_lt place) all.length_eq.symm
    obtain ⟨houses, secludes⟩ := sv.houses.erase sv.contents own within
    rw [left] at houses secludes
    have mine : s (.ofObject x) ≠ none := sv.contents.trans_ne (Option.some_ne_none _)
    have still : ((ρ.world m).heap.modifyArray a (·.erase p)).Unfolds t v :=
      made.of_sameAt fun c reach =>
        Heap.sameAt_modifyArray (sv.houses.free mine own (List.mem_of_getElem? there) reach).1
    refine ⟨_, _, sv.runs_unlessEmpty empty taken, houses, secludes, ?_, nofun⟩
    rw [Operation.answer, next]
    exact still

theorem does_add {v : Value} {t : Tree} (bound : m.vars.get? "value" = some v)
    (made : (ρ.world m).heap.Unfolds t v) : Does ρ root s x d ts m (.add t) Discipline.addBody := by
  obtain ⟨a, own⟩ := sv.items
  have callee : ρ.Evals m (Embedded.member "this" ["items", "append"])
      (.builtin ⟨m.fresh, "append", .arrayAppend a⟩) { m with fresh := m.fresh + 1 } :=
    sv.evals_arrayMethod own rfl
  have value : ρ.Evals { m with fresh := m.fresh + 1 } (Embedded.name "value") v
    { m with fresh := m.fresh + 1 } := evals_name (finds_local bound)
  obtain ⟨c, m₁, copied, -, k⟩ := exists_copies ρ.outer.heap ρ.name ρ.parent
    { m with fresh := m.fresh + 1 } v
  obtain ⟨houses, secludes, fresh⟩ := sv.houses.push sv.contents own (k t made)
  exact ⟨.normal, _, runs_cons (execs_append callee value copied) runs_nil, houses, secludes,
    ⟨rfl, rfl⟩, fun _ _ => fresh⟩

/-- Every method does what is asked. -/
theorem does {op : Operation}
    (bound : ∀ t, op = .add t → ∃ v, m.vars.get? "value" = some v ∧ (ρ.world m).heap.Unfolds t v) :
    Does ρ root s x d ts m op (op.body d) := by
  cases op with
  | add t =>
    obtain ⟨v, bound, made⟩ := bound t rfl
    exact sv.does_add bound made
  | take => exact sv.does_take
  | peek => exact sv.does_peek
  | size => exact sv.does_size
  | isEmpty => exact sv.does_isEmpty

end Serves

end Room

/-! ## Calls -/

section Calls

variable {env : Env} {w : World} {root : ScopeRef} {s : Contents} {x : ObjectRef} {d : Discipline}
  {ts : List Tree} {op : Operation} {args : List Value} {nickname : String} {h : Heap}

/-- A method has been entered: its parameters are bound to copies of the arguments. -/
structure Enters (callable : Callable env w root) (s : Contents) (x : ObjectRef) (d : Discipline)
    (ts : List Tree) (op : Operation) (args : List Value) (m : Memory) : Prop where
  binds : Binds w.heap (op.method d) (some root) (w.memory [("this", .object x)])
    (op.params.zip args) m
  arity : op.params.length = args.length
  secludes : Heap.Secludes s s w.heap (w.heap.holding (op.method d) (some root) m)
  serves : ∀ origin, (callable.room (op.method d) origin).Serves root s x d ts m
  bound : ∀ t, op = .add t → ∃ v, m.vars.get? "value" = some v ∧
    (w.heap.holding (op.method d) (some root) m).Unfolds t v

theorem Heap.Leaves.entered (callable : Callable env w root) (name : String) (vars : Table Value) :
    Leaves root s w.heap (w.heap.holding name (some root) (w.memory vars)) :=
  .of_stores (scope_holding_lt callable.inside) rfl rfl rfl rfl

theorem enters_plain (st : w.heap.Houses root s) (callable : Callable env w root)
    (contents : s (.ofObject x) = some (d, ts)) (other : ∀ t, op ≠ .add t) (none : op.params = []) :
    Enters callable s x d ts op [] (w.memory [("this", .object x)]) := by
  obtain ⟨home, offers⟩ := st.builtins
  have entered := Heap.Leaves.entered (s := s) callable (op.method d) [("this", .object x)]
  refine ⟨?_, by rw [none]; rfl, .of_leaves entered fun c _ => Heap.sameAt_of_stores rfl rfl c,
    fun origin => ⟨st.of_leaves entered, contents, rfl, ⟨home, offers⟩, rfl⟩,
    fun t same => absurd same (other t)⟩
  rw [none]
  exact .nil

theorem exists_enters_add (st : w.heap.Houses root s) (callable : Callable env w root)
    (contents : s (.ofObject x) = some (d, ts)) {t : Tree} {v : Value} (made : w.heap.Unfolds t v) :
    ∃ m, Enters callable s x d ts (.add t) [v] m := by
  obtain ⟨home, offers⟩ := st.builtins
  have entered := Heap.Leaves.entered (s := s) callable d.adding [("this", .object x)]
  have st₀ := st.of_leaves entered
  have same (e : Container) :
      w.heap.SameAt (w.heap.holding d.adding (some root) (w.memory [("this", .object x)])) e :=
    Heap.sameAt_of_stores rfl rfl e
  obtain ⟨c, m₁, copied, kept, planted⟩ :=
    exists_copies w.heap d.adding (some root) (w.memory [("this", .object x)]) v
  have k := planted t (made.of_sameAt fun c _ => same c)
  have copies := Heap.Leaves.of_appends st₀ k.appends
  let m : Memory := { m₁ with vars := m₁.vars.put "value" c }
  have values : m.vars = [("this", .object x), ("value", c)] := by
    rw [show m.vars = m₁.vars.put "value" c from rfl, kept]
    rfl
  have bound : Heap.Leaves root s (w.heap.holding d.adding (some root) m₁)
      (w.heap.holding d.adding (some root) m) :=
    .of_stores ((scope_holding_lt callable.inside).trans (scope_holding_lt callable.inside).symm)
      rfl rfl rfl rfl
  have same' (e : Container) : (w.heap.holding d.adding (some root) m₁).SameAt
      (w.heap.holding d.adding (some root) m) e := Heap.sameAt_of_stores rfl rfl e
  refine ⟨m, .cons copied .nil, rfl, ?_, fun origin => ⟨?_, contents, ?_, ⟨home, offers⟩, ?_⟩, ?_⟩
  · exact ((Heap.Secludes.of_leaves entered fun e _ => same e).trans
      (.of_leaves copies k.appends.same)).trans (.of_leaves bound fun e _ => same' e)
  · exact (st₀.of_leaves copies).of_leaves bound
  · rw [values]
    rfl
  · rw [values]
    rfl
  · rintro t' again
    cases again
    exact ⟨c, by rw [values]; rfl, k.head.of_sameAt fun e _ => same' e⟩

theorem exists_enters (st : w.heap.Houses root s) (callable : Callable env w root)
    (contents : s (.ofObject x) = some (d, ts)) (given : op.Given w.heap args) :
    ∃ m, Enters callable s x d ts op args m := by
  cases op with
  | add t =>
    obtain ⟨v, rfl, made⟩ := given
    exact exists_enters_add st callable contents made
  | take | peek | size | isEmpty =>
    cases given
    exact ⟨_, enters_plain st callable contents nofun rfl⟩

/-- A call of a method does what is asked. -/
theorem calls_operation (st : w.heap.Houses root s) (callable : Callable env w root)
    (contents : s (.ofObject x) = some (d, ts)) (given : op.Given w.heap args) :
    ∃ v w', Calls env w (.object x) (op.method d) args v w' ∧ Callable env w' root ∧
      Performed op root s x d ts w.heap w'.heap v := by
  obtain ⟨m, entered⟩ := exists_enters st callable contents given
  obtain ⟨f, own, closes⟩ := (st.embodied _ d ts contents).method (op.routine_mem d)
  have params : (op.params.map fun p => (⟨default, p⟩ : Param)).map (·.name) = op.params := by
    rw [List.map_map]
    exact List.map_id _
  have runs (origin : Pseudocode.Origin) : ∃ flow m',
      (callable.room (op.method d) origin).Runs m (op.body d) flow m' ∧
        Performed op root s x d ts w.heap (w.heap.holding (op.method d) (some root) m')
          (Run.callResult flow) := by
    obtain ⟨flow, m', runs, done⟩ := (entered.serves origin).does entered.bound
    exact ⟨flow, m', runs, done.after entered.secludes⟩
  have stored : w.heap.storedProperty? (.object x) (op.method d) = some (.subroutine f) := own
  obtain ⟨flow, m', calls, done⟩ := closes.calls callable stored
    (entered.arity.symm.trans (List.length_map _).symm) (params.symm ▸ entered.binds) rfl runs
  exact ⟨_, _, calls, callable.holding .., done⟩

/-- Calling a class makes an empty instance. -/
theorem calls_class (st : w.heap.Houses root s) (callable : Callable env w root) (d : Discipline) :
    ∃ x w', s (.ofObject x) = none ∧
      Calls env w (.module nickname root) d.className [] (.object x) w' ∧ Callable env w' root ∧
      w'.heap.Houses root (Function.update s (.ofObject x) (some (d, []))) ∧
      Heap.Secludes s (Function.update s (.ofObject x) (some (d, []))) w.heap w'.heap := by
  obtain ⟨c, bound, contents⟩ := st.classes d
  obtain ⟨free, init, houses, secludes⟩ := st.create contents
  let x := (Run.newInstance c w.heap).1
  let w' : World := { w with heap := (Run.newInstance c w.heap).2 }
  have scopes : w'.heap.scopes = w.heap.scopes := scopes_newInstance c w.heap
  have callable' : Callable env w' root := by
    refine ⟨callable.self, callable.shallow, ?_, ?_⟩
    · rw [scopes]
      exact callable.inside
    · rw [show w'.heap.scope root = w.heap.scope root from
        congrArg (fun cells : Array Scope => cells.getD root.index default) scopes]
      exact callable.unobserved
  refine ⟨x, w', free, ⟨_, lookup?_of_get? callable.inside bound, fun span => ?_⟩, callable', houses,
    secludes⟩
  refine .step (.always fun n => ?_)
  have made : Eval.onHeap (Run.newInstance c) env w = .ok x w' := rfl
  refine (Eval.bind_ok made _).trans ?_
  rw [Eval.inHeap_bind, show (w'.heap.object x).props.get? "INIT" = none from init]
  rfl

end Calls

/-! ## The module -/

namespace Room

variable {ρ : Room} {m : Memory} {d : Discipline}

/-- What a class definition leaves. -/
def defined (m : Memory) (d : Discipline) (ms : Table Value) : Memory where
  vars := m.vars ++ [(d.className, .classType ⟨m.classes.size⟩)]
  arrays := (m.arrays.push (.ofArray #[])).push (.ofArray #[])
  dicts := m.dicts
  classes := m.classes.push ⟨d.className, ("items", .array ⟨m.arrays.size + 1⟩) :: ms⟩
  fresh := m.fresh

end Room

section Module

variable {env : Env} {w : World} {nickname : String} {span : Span}

/-- One thing for stacks and another one for queues. -/
def Embedded.Discipline.choose {α : Type} (stack queue : α) : Discipline → α
  | .lifo => stack
  | .fifo => queue

end Module

/-! ## Histories -/

theorem Calls.unique {env : Env} {w w' w'' : World} {u v v' : Value} {name : String}
    {args : List Value} (calls : Calls env w u name args v w')
    (calls' : Calls env w u name args v' w'') :
    v = v' ∧ w' = w'' := by
  obtain ⟨f, stored, settles⟩ := calls
  obtain ⟨f', stored', settles'⟩ := calls'
  rw [stored] at stored'
  cases stored'
  exact (settles default).unique (settles' default)

/-- What the instances of a module hold after any number of events: instances are made, methods are
called on them, each from wherever calls can be made, and anything else may happen in between that
leaves the module and its instances alone. -/
inductive History (nickname : String) (root : ScopeRef) (w₁ : World) (s₁ : Contents) :
    World → Contents → Prop
  | start : History nickname root w₁ s₁ w₁ s₁
  | create {env : Env} {w w' : World} {s : Contents} {d : Discipline} {x : ObjectRef} :
      History nickname root w₁ s₁ w s → Callable env w root →
      Calls env w (.module nickname root) d.className [] (.object x) w' →
      History nickname root w₁ s₁ w' (Function.update s (.ofObject x) (some (d, [])))
  | call {env : Env} {w w' : World} {s : Contents} {x : ObjectRef} {d : Discipline}
      {ts : List Tree} {op : Operation} {args : List Value} {v : Value} :
      History nickname root w₁ s₁ w s → Callable env w root → s (.ofObject x) = some (d, ts) →
      op.Given w.heap args → Calls env w (.object x) (op.method d) args v w' →
      History nickname root w₁ s₁ w' (Function.update s (.ofObject x) (some (d, op.after d ts)))
  | other {w w' : World} {s : Contents} :
      History nickname root w₁ s₁ w s → Heap.Leaves root s w.heap w'.heap →
      History nickname root w₁ s₁ w' s

section History

variable {env : Env} {w w₁ : World} {nickname : String} {span : Span} {root : ScopeRef}
  {s s₁ : Contents}

/-- However events follow one another, every instance has its own list, and the classes have
nothing. -/
theorem History.houses (history : History nickname root w₁ s₁ w s)
    (start : w₁.heap.Houses root s₁) : w.heap.Houses root s := by
  induction history with
  | start => exact start
  | create _ callable calls ih =>
    obtain ⟨x, w', -, made, -, houses, -⟩ := calls_class ih callable _
    obtain ⟨same, rfl⟩ := made.unique calls
    cases same
    exact houses
  | call _ callable contents given calls ih =>
    obtain ⟨v, w', made, -, done⟩ := calls_operation ih callable contents given
    obtain ⟨-, rfl⟩ := made.unique calls
    exact done.houses
  | other _ leaves ih => exact ih.of_leaves leaves

theorem History.class {k : ClassRef} (history : History nickname root w₁ s₁ w s) :
    s (.ofClass k) = s₁ (.ofClass k) := by
  induction history with
  | start => rfl
  | create _ _ _ ih => exact (Function.update_of_ne (by nofun) ..).trans ih
  | call _ _ _ _ _ ih => exact (Function.update_of_ne (by nofun) ..).trans ih
  | other _ _ ih => exact ih

end History

end Pseudocode
