import Pseudocode.Proofs.Arithmetic.Word
import Pseudocode.Proofs.Display.Reading
import Pseudocode.Proofs.Execution.Frames
import Pseudocode.Proofs.Ownership.Sound
/-
# `Proofs.Display.Evaluation` — literals are evaluated to their form

Evaluating a literal never fails: it adds containers to the heap, leaves everything
else as it is, and returns a value of the form that the literal writes (`makes_form`).
What is stored meanwhile are copies, and a copy has the form of what was copied.

Together with `Proofs.Display.Reading` this gives the round trip: a value that is
displayed, and whose display form is assigned to a name in a fresh session, comes back
as a value of the same form (`display_reads_back`).
-/
namespace Pseudocode

namespace Heap

/-! ## Growing heaps -/

/-- The containers are there and hold what they held. -/
structure Keeps (h h' : Heap) : Prop where
  arrays : ∀ r : ArrayRef, r.index < h.arrays.size →
    r.index < h'.arrays.size ∧ h'.array r = h.array r
  dicts : ∀ r : DictRef, r.index < h.dicts.size →
    r.index < h'.dicts.size ∧ h'.dict r = h.dict r

/-- Containers may be added, and no name is bound anew. -/
structure Extends (h h' : Heap) : Prop extends Keeps h h' where
  scopes : h'.scopes = h.scopes

variable {h h' h'' : Heap}

theorem Extends.refl (h : Heap) : h.Extends h :=
  ⟨⟨fun _ inside => ⟨inside, rfl⟩, fun _ inside => ⟨inside, rfl⟩⟩, rfl⟩

theorem Extends.trans (first : h.Extends h') (second : h'.Extends h'') : h.Extends h'' where
  arrays r inside := by
    obtain ⟨inside', same⟩ := first.arrays r inside
    obtain ⟨inside'', same'⟩ := second.arrays r inside'
    exact ⟨inside'', same'.trans same⟩
  dicts r inside := by
    obtain ⟨inside', same⟩ := first.dicts r inside
    obtain ⟨inside'', same'⟩ := second.dicts r inside'
    exact ⟨inside'', same'.trans same⟩
  scopes := second.scopes.trans first.scopes

theorem extends_newArray (xs : Array Value) : h.Extends (h.newArray xs).2 where
  arrays r inside := by
    refine ⟨?_, ?_⟩
    · simp only [newArray, Array.size_push]
      omega
    · simp only [array, slots, newArray, getD_push]
      rw [if_neg (Nat.ne_of_lt inside)]
  dicts _ inside := ⟨inside, rfl⟩
  scopes := rfl

theorem extends_newDict (d : Dictionary) : h.Extends (h.newDict d).2 where
  arrays _ inside := ⟨inside, rfl⟩
  dicts r inside := by
    refine ⟨?_, ?_⟩
    · simp only [newDict, Array.size_push]
      omega
    · simp only [dict, newDict, getD_push]
      rw [if_neg (Nat.ne_of_lt inside)]
  scopes := rfl

mutual

/-- A value keeps its form. -/
theorem Keeps.holds (more : h.Keeps h') : ∀ (f : Form) {v : Value}, h.Holds f v → h'.Holds f v
  | .atom _, _, hv => hv
  | .array fs, _, hv => by
    obtain ⟨r, rfl, inside, all⟩ := hv
    obtain ⟨inside', same⟩ := more.arrays r inside
    exact ⟨r, rfl, inside', by rw [same]; exact more.holdsAll fs all⟩
  | .dict es, _, hv => by
    obtain ⟨r, rfl, inside, all⟩ := hv
    obtain ⟨inside', same⟩ := more.dicts r inside
    exact ⟨r, rfl, inside', by rw [same]; exact more.holdsPairs es all⟩

theorem Keeps.holdsAll (more : h.Keeps h') : ∀ (fs : List Form) {vs : List Value},
    h.HoldsAll fs vs → h'.HoldsAll fs vs
  | [], [], _ => trivial
  | f :: fs, _ :: _, all => ⟨more.holds f all.1, more.holdsAll fs all.2⟩

theorem Keeps.holdsPairs (more : h.Keeps h') : ∀ (es : List Pair) {keys vs : List Value},
    h.HoldsPairs es keys vs → h'.HoldsPairs es keys vs
  | [], [], [], _ => trivial
  | .mk _ f :: es, _ :: _, _ :: _, all =>
    ⟨all.1, more.holds f all.2.1, more.holdsPairs es all.2.2⟩

end

theorem keeps_bind (s : ScopeRef) (name : String) (v : Value) (constant : Bool) :
    h.Keeps (h.bind s name v constant) :=
  ⟨fun _ inside => ⟨inside, rfl⟩, fun _ inside => ⟨inside, rfl⟩⟩

theorem holds_newArray {fs : List Form} {vs : List Value} (all : h.HoldsAll fs vs) :
    (h.newArray vs.toArray).2.Holds (.array fs) (h.newArray vs.toArray).1 := by
  refine ⟨⟨h.arrays.size⟩, rfl, by simp [newArray], ?_⟩
  have found : (h.newArray vs.toArray).2.array ⟨h.arrays.size⟩ = vs.toArray := by
    simp only [array, slots, newArray, getD_push, if_true, Slots.toArray_ofArray]
  rw [found]
  exact (extends_newArray vs.toArray).holdsAll fs all

theorem holds_newDict {es : List Pair} {d : Dictionary}
    (all : h.HoldsPairs es d.keys.toList d.values.toList) :
    (h.newDict d).2.Holds (.dict es) (h.newDict d).1 := by
  refine ⟨⟨h.dicts.size⟩, rfl, by simp [newDict], ?_⟩
  have found : (h.newDict d).2.dict ⟨h.dicts.size⟩ = d := by
    simp only [dict, newDict, getD_push, if_true]
  rw [found]
  exact (extends_newDict d).holdsPairs es all

/-! ## Copies -/

/-- What is left has the form, and the heap has grown. -/
structure Gives (f : Form) (h : Heap) (r : Value × Heap) : Prop where
  more : h.Extends r.2
  holds : r.2.Holds f r.1

theorem holdsPairs_values : ∀ (es : List Pair) {keys vs : List Value}, h.HoldsPairs es keys vs →
    ∃ fs, h.HoldsAll fs vs ∧
      ∀ {h' : Heap} {us : List Value}, h'.HoldsAll fs us → h'.HoldsPairs es keys us
  | [], [], [], _ => ⟨[], trivial, fun {_ us} all => match us, all with | [], _ => trivial⟩
  | .mk _ f :: es, _ :: _, _ :: _, all => by
    obtain ⟨fs, rest, back⟩ := holdsPairs_values es all.2.2
    refine ⟨f :: fs, ⟨all.2.1, rest⟩, ?_⟩
    intro h' us held
    match us, held with
    | _ :: _, held => exact ⟨all.1, held.1, back held.2⟩

theorem mapM_holds {g : Value → StateM Heap Value}
    (each : ∀ f v h, h.Holds f v → Gives f h (g v h)) :
    ∀ (fs : List Form) (vs : List Value) (h : Heap), h.HoldsAll fs vs →
      h.Extends ((vs.mapM g).run h).2 ∧
        ((vs.mapM g).run h).2.HoldsAll fs ((vs.mapM g).run h).1
  | [], [], h, _ => ⟨.refl h, trivial⟩
  | f :: fs, v :: vs, h, all => by
    obtain ⟨more, holds⟩ := each f v h all.1
    obtain ⟨more', holds'⟩ := mapM_holds each fs vs (g v h).2 (more.holdsAll fs all.2)
    have run : ((v :: vs).mapM g).run h =
        ((g v h).1 :: ((vs.mapM g).run (g v h).2).1, ((vs.mapM g).run (g v h).2).2) := by
      simp only [List.mapM_cons, StateT.run_bind, StateT.run_pure]
      rfl
    rw [run]
    exact ⟨more.trans more', more'.holds f holds, holds'⟩

/-- A copy has the form of what was copied, whatever the depth. -/
theorem gives_copyTo (n : Nat) : ∀ (f : Form) (v : Value) (h : Heap), h.Holds f v →
    Gives f h (copyTo n v h) := by
  induction n with
  | zero => exact fun f v h hv => ⟨.refl h, hv⟩
  | succ n ih =>
    intro f v h hv
    cases f with
    | atom s =>
      obtain rfl : v = s.value := hv
      cases s <;> exact ⟨.refl h, rfl⟩
    | array fs =>
      obtain ⟨r, rfl, -, all⟩ := hv
      rw [copyTo_array]
      obtain ⟨more, holds⟩ := mapM_holds ih fs _ h all
      exact ⟨more.trans (extends_newArray _), holds_newArray holds⟩
    | dict es =>
      obtain ⟨r, rfl, -, all⟩ := hv
      rw [copyTo_dict]
      obtain ⟨fs, values, back⟩ := holdsPairs_values es all
      obtain ⟨more, holds⟩ := mapM_holds ih fs _ h values
      refine ⟨more.trans (extends_newDict _), holds_newDict ?_⟩
      have keys : ((h.dict r).withValues
          (((h.dict r).values.toList.mapM (copyTo n)).run h).1.toArray).keys = (h.dict r).keys := by
        simp [Dictionary.withValues, Dictionary.keys, Slots.packed, Slots.within, Slots.toArray]
      rw [keys]
      exact back holds

theorem gives_copy {f : Form} {v : Value} (hv : h.Holds f v) : Gives f h (copy v h) := by
  rw [copy_eq_copyTo]
  exact gives_copyTo _ f v h hv

end Heap

/-! ## Literals -/

/-- The action adds containers, leaves all else as it is, and returns a value of the
form. -/
def Makes (x : Eval Value) (f : Form) : Prop :=
  ∀ env w, ∃ v h, x env w = .ok v { w with heap := h } ∧ w.heap.Extends h ∧ h.Holds f v

theorem makes_copy {f : Form} {x : Eval Value} (hx : Makes x f) :
    Makes (do Eval.copy (← x)) f := by
  intro env w
  obtain ⟨v, h, run, more, holds⟩ := hx env w
  obtain ⟨more', holds'⟩ := Heap.gives_copy holds
  exact ⟨_, _, (Eval.bind_ok run _).trans (Eval.copy_eq v env _), more.trans more', holds'⟩

theorem unaryOp_minus {h : Heap} {k : Nat} (bound : (k : Int) ≤ Value.maxInt) :
    unaryOp h .minus (.int k) = .ok (.int (-k)) := by
  have small : (k : Int) ≤ 9223372036854775807 := bound
  have range : Value.inRange k = true := Word.inRange_iff.mpr (by omega)
  have negated : Word.neg? (.ofInt k) = some (.ofInt (-k)) := by
    rw [Word.neg?_eq, Word.toInt_ofInt range]
    exact if_pos (Word.inRange_iff.mpr (by omega))
  have whole : (Int64.ofInt (-k)).toInt = -k :=
    Word.toInt_ofInt (Word.inRange_iff.mpr (by omega))
  change wordResult "-" (Word.neg? (.ofInt k)) = _
  rw [negated, wordResult, whole]

/-- A sign takes one step more than the digits behind it. -/
theorem makes_negative {k : Nat} (bound : (k : Int) ≤ Value.maxInt) (span span' : Span) (n : Nat) :
    Makes ((Run.run (n + 2)).expr (.unary span .minus (.int span' k))) (.atom (.int (-k))) := by
  intro env w
  have digits : (Run.run (n + 1)).expr (.int span' k) env w = .ok (.int k) w := rfl
  have look : Eval.inHeap (unaryOp · .minus (.int k)) env w = .ok (.ok (.int (-k))) w := by
    rw [← unaryOp_minus bound]
    rfl
  exact ⟨_, w.heap, (Eval.bind_ok digits _).trans (Eval.bind_ok look _), .refl _, rfl⟩

theorem makes_atom {s : Atom} (readable : s.readable = true) {e : Expr}
    (same : e.spanless = s.literal.spanless) (n : Nat) :
    Makes ((Run.run (n + 2)).expr e) (.atom s) := by
  cases s with
  | none | bool | string =>
    cases e <;> simp only [Atom.literal, Expr.spanless, reduceCtorEq] at same
    first
      | exact fun env w => ⟨_, w.heap, rfl, .refl _, rfl⟩
      | (cases same; exact fun env w => ⟨_, w.heap, rfl, .refl _, rfl⟩)
  | int i =>
    cases i with
    | ofNat k =>
      cases e <;> simp only [Atom.literal, Expr.spanless, reduceCtorEq] at same
      cases same
      exact fun env w => ⟨_, w.heap, rfl, .refl _, rfl⟩
    | negSucc k =>
      have bound : ((k + 1 : Nat) : Int) ≤ Value.maxInt := by
        simp only [Atom.readable, Bool.and_eq_true, decide_eq_true_eq] at readable
        simp only [Value.minInt, Value.maxInt] at readable ⊢
        omega
      cases e with
      | unary span op operand =>
        simp only [Atom.literal, Expr.spanless, Expr.unary.injEq, true_and] at same
        obtain ⟨rfl, same⟩ := same
        cases operand with
        | int span' value =>
          simp only [Expr.spanless, Expr.int.injEq, true_and] at same
          rw [same]
          exact makes_negative bound span span' n
        | _ => simp only [Expr.spanless, reduceCtorEq] at same
      | _ => simp only [Atom.literal, Expr.spanless, reduceCtorEq] at same

/-! ## Dictionaries -/

/-- The dictionary holds these pairs, and no other key is found in it. -/
structure Filled (h : Heap) (done : List Pair) (d : Dictionary) : Prop where
  holds : h.HoldsPairs done d.keys.toList d.values.toList
  free : ∀ k, .found k ∉ done.map (·.key.value.keyForm) → d.index[k]? = none

theorem filled_empty (h : Heap) : Filled h [] .empty where
  holds := trivial
  free _ _ := Std.HashMap.getElem?_empty

theorem Heap.HoldsPairs.snoc {h : Heap} {k : Atom} {f : Form} {v : Value} (hv : h.Holds f v) :
    ∀ {es : List Pair} {keys vs : List Value}, h.HoldsPairs es keys vs →
      h.HoldsPairs (es ++ [Pair.mk k f]) (keys ++ [k.value]) (vs ++ [v])
  | [], [], [], _ => ⟨rfl, hv, trivial⟩
  | .mk _ _ :: _, _ :: _, _ :: _, all => ⟨all.1, all.2.1, snoc hv all.2.2⟩

theorem Atom.exists_keyForm (s : Atom) : ∃ k, s.value.keyForm = .found k := by
  cases s <;> exact ⟨_, rfl⟩

/-- A new key goes to the end. -/
theorem Filled.insert {h : Heap} {done : List Pair} {d : Dictionary} (hd : Filled h done d)
    {k : Atom} {f : Form} {v : Value} (hv : h.Holds f v)
    (new : k.value.keyForm ∉ done.map (·.key.value.keyForm)) :
    ∃ d', d.insert? k.value v = some d' ∧ Filled h (done ++ [Pair.mk k f]) d' := by
  obtain ⟨key, form⟩ := k.exists_keyForm
  rw [form] at new
  have absent : d.index[key]? = none := hd.free key new
  refine ⟨{ d.push k.value v with index := d.index.insert key d.size }, ?_, ?_, ?_⟩
  · simp [Dictionary.insert?, Dictionary.insert, form, absent]
  · simpa [Dictionary.push, Dictionary.keys] using hd.holds.snoc hv
  · intro other notDone
    simp only [List.map_append, List.map_cons, List.map_nil, List.mem_append, List.mem_singleton,
      not_or, Pair.key, form] at notDone
    have different : key ≠ other := fun same => notDone.2 (by rw [same])
    simp only [Std.HashMap.getElem?_insert, beq_iff_eq, different, if_false]
    exact hd.free other notDone.1

/-! ## Forms -/

mutual

/-- An expression that writes a readable form is evaluated to a value of that form. -/
theorem makes_form : ∀ (f : Form) {n : Nat} {e : Expr}, f.readable = true →
    e.spanless = f.literal.spanless → f.height < n → Makes ((Run.run n).expr e) f
  | .atom s, n, e, readable, same, high => by
    obtain ⟨n, rfl⟩ := Nat.exists_eq_add_of_le high
    rw [Form.height, Nat.add_comm]
    exact makes_atom readable same n
  | .array fs, n, e, readable, same, high => by
    rw [Form.height] at high
    obtain ⟨n, rfl⟩ := Nat.exists_eq_add_one_of_ne_zero (Nat.ne_zero_of_lt high)
    cases e with
    | array span es =>
      simp only [Form.literal, Expr.spanless, Expr.array.injEq, true_and] at same
      have each := makes_forms fs readable same (Nat.lt_of_succ_lt_succ high)
      intro env w
      obtain ⟨vs, h, run, more, holds⟩ := each env w
      exact ⟨_, _, Eval.bind_ok run _, more.trans (Heap.extends_newArray vs.toArray),
        Heap.holds_newArray holds⟩
    | _ => simp only [Form.literal, Expr.spanless, reduceCtorEq] at same
  | .dict es, n, e, readable, same, high => by
    rw [Form.height] at high
    obtain ⟨n, rfl⟩ := Nat.exists_eq_add_one_of_ne_zero (Nat.ne_zero_of_lt high)
    simp only [Form.readable, distinctKeys, Bool.and_eq_true, decide_eq_true_eq] at readable
    cases e with
    | dict span entries =>
      simp only [Form.literal, Expr.spanless, Expr.dict.injEq, true_and] at same
      intro env w
      obtain ⟨d, h, run, more, holds⟩ := makes_pairs es [] readable.2 readable.1 same
        (Nat.lt_of_succ_lt_succ high) env w (filled_empty w.heap)
      exact ⟨_, _, Eval.bind_ok run _, more.trans (Heap.extends_newDict d),
        Heap.holds_newDict holds⟩
    | _ => simp only [Form.literal, Expr.spanless, reduceCtorEq] at same

/-- The elements of an array literal, which are copied one by one. -/
theorem makes_forms : ∀ (fs : List Form) {n : Nat} {es : List Expr}, formsReadable fs = true →
    exprsSpanless es = exprsSpanless (formsLiterals fs) → formsHeight fs < n → ∀ env w,
      ∃ vs h, (es.mapM fun e => do Eval.copy (← (Run.run n).expr e)) env w =
        .ok vs { w with heap := h } ∧ w.heap.Extends h ∧ h.HoldsAll fs vs
  | [], n, es, _, same, _, env, w => by
    cases es with
    | nil => exact ⟨[], w.heap, rfl, .refl _, trivial⟩
    | cons e es => simp only [formsLiterals, exprsSpanless, reduceCtorEq] at same
  | f :: fs, n, es, readable, same, high, env, w => by
    simp only [formsReadable, Bool.and_eq_true] at readable
    rw [formsHeight] at high
    cases es with
    | nil => simp only [formsLiterals, exprsSpanless, reduceCtorEq] at same
    | cons e es =>
      simp only [formsLiterals, exprsSpanless, List.cons.injEq] at same
      have first := makes_copy (makes_form f readable.1 same.1 (by omega : f.height < n))
      obtain ⟨v, h, run, more, holds⟩ := first env w
      obtain ⟨vs, h', run', more', holds'⟩ :=
        makes_forms fs readable.2 same.2 (by omega : formsHeight fs < n) env { w with heap := h }
      refine ⟨v :: vs, h', ?_, more.trans more', more'.holds f holds, holds'⟩
      rw [List.mapM_cons, Eval.bind_ok run, Eval.bind_ok run']
      rfl

/-- The entries of a dictionary literal, added to a dictionary that holds those before. -/
theorem makes_pairs : ∀ (es done : List Pair) {d : Dictionary} {n : Nat}
    {entries : List Entry}, pairsReadable es = true →
    ((done ++ es).map (·.key.value.keyForm)).Nodup →
    entriesSpanless entries = entriesSpanless (pairsLiterals es) → pairsHeight es < n → ∀ env w,
      Filled w.heap done d →
      ∃ d' h, Run.addEntries (Run.run n) d entries env w = .ok d' { w with heap := h } ∧
        w.heap.Extends h ∧ h.HoldsPairs (done ++ es) d'.keys.toList d'.values.toList
  | [], done, d, n, entries, _, _, same, _, env, w, filled => by
    cases entries with
    | nil => exact ⟨d, w.heap, rfl, .refl _, by rw [List.append_nil]; exact filled.holds⟩
    | cons entry entries =>
      obtain ⟨k, v⟩ := entry
      simp only [pairsLiterals, entriesSpanless, reduceCtorEq] at same
  | .mk k f :: es, done, d, n, entries, readable, distinct, same, high, env, w, filled => by
    simp only [pairsReadable, Bool.and_eq_true] at readable
    rw [pairsHeight] at high
    have low := Heap.one_le_height f
    cases entries with
    | nil => simp only [pairsLiterals, entriesSpanless, reduceCtorEq] at same
    | cons entry entries =>
      obtain ⟨keyExpr, valueExpr⟩ := entry
      simp only [pairsLiterals, entriesSpanless, List.cons.injEq, Entry.mk.injEq] at same
      obtain ⟨m, rfl⟩ := Nat.exists_eq_add_of_le (by omega : 2 ≤ n)
      rw [Nat.add_comm] at high ⊢
      obtain ⟨key, h₁, run₁, more₁, rfl⟩ := makes_atom readable.1.1 same.1.1 m env w
      obtain ⟨v, h₂, run₂, more₂, holds₂⟩ :=
        makes_form f readable.1.2 same.1.2 (by omega : f.height < m + 2) env { w with heap := h₁ }
      obtain ⟨more₃, holds₃⟩ := Heap.gives_copy holds₂
      have before : Filled (Heap.copy v h₂).2 done d :=
        ⟨((more₁.trans more₂).trans more₃).holdsPairs done filled.holds, filled.free⟩
      have new : k.value.keyForm ∉ done.map (·.key.value.keyForm) := by
        rw [List.map_append, List.map_cons] at distinct
        intro old
        exact (List.nodup_append.mp distinct).2.2 _ old _ List.mem_cons_self rfl
      obtain ⟨d', inserted, filled'⟩ := before.insert holds₃ new
      have regroup : done ++ .mk k f :: es = done ++ [Pair.mk k f] ++ es := by simp
      rw [regroup] at distinct ⊢
      obtain ⟨d'', h₄, run₄, more₄, holds₄⟩ := makes_pairs es _ readable.2 distinct same.2
        (by omega : pairsHeight es < m + 2) env { w with heap := (Heap.copy v h₂).2 } filled'
      refine ⟨d'', h₄, ?_, ((more₁.trans more₂).trans more₃).trans more₄, holds₄⟩
      refine (Eval.bind_ok run₁ _).trans ((Eval.bind_ok run₂ _).trans ?_)
      refine (Eval.bind_ok (Eval.copy_eq v env _) _).trans ?_
      rw [inserted]
      exact run₄

end

/-! ## The round trip -/

section Alone

variable {env : Env} {w : World} {i : Interpreter}

/-! A session that has imported nothing has one interpreter. -/

theorem self_eq (one : w.interpreters = #[i]) (main : env.self = Session.main) :
    Eval.self env w = .ok i w := by
  change EStateM.Result.ok (w.interpreters.getD env.self.index default) w = _
  rw [one, main]
  rfl

theorem changeSelf_eq (one : w.interpreters = #[i]) (main : env.self = Session.main)
    (f : Interpreter → Interpreter) :
    Eval.changeSelf f env w = .ok () { w with interpreters := #[f i] } := by
  change EStateM.Result.ok () { w with interpreters := w.interpreters.modify env.self.index f } = _
  rw [one, main]
  rfl

theorem prepare_eq (one : w.interpreters = #[i]) (main : env.self = Session.main)
    (pending : i.pending = []) :
    Run.prepare env w = .ok () { w with interpreters := #[{ i with pending := [] }] } := by
  rw [Run.prepare, Eval.bind_ok (self_eq one main), Eval.bind_ok (changeSelf_eq one main _), pending]
  rfl

/-- Where a program starts. -/
def atRoot (w : World) (i : Interpreter) (source : String) : World :=
  { w with
    interpreters := #[{ i with frame := ⟨i.root, ⟨w.nextUnit, i.name, source⟩, i.frame.depth⟩,
                               pending := [] }]
    nextUnit := w.nextUnit + 1 }

theorem runSource_eq (r : Recursor) (one : w.interpreters = #[i]) (main : env.self = Session.main)
    (pending : i.pending = []) {source : String} {b : Block}
    (parsed : parse source i.name = .ok b) :
    Run.runSource r source env w = (discard (r.block b) : Eval Unit) env (atRoot w i source) := by
  have unit : Run.newUnit env w = .ok w.nextUnit { w with nextUnit := w.nextUnit + 1 } := rfl
  let named := { i with frame.origin := ⟨w.nextUnit, i.name, source⟩ }
  rw [Run.runSource, Eval.bind_ok (self_eq one main), parsed]
  refine (Eval.bind_ok unit _).trans ?_
  refine (Eval.bind_ok
    (changeSelf_eq (w := { w with nextUnit := w.nextUnit + 1 }) one main _) _).trans ?_
  refine (Eval.bind_ok (prepare_eq (i := named) rfl main pending) _).trans ?_
  exact (Eval.bind_ok (changeSelf_eq (i := { named with pending := [] }) rfl main _) _).trans rfl

end Alone

/-- The assignment binds `x` in the current scope to a value of the form. -/
theorem block_assignsX {f : Form} {b : Block} (assigns : AssignsX f b)
    (readable : f.readable = true) {n : Nat} (high : f.height < n) (env : Env) {w : World}
    {s : ScopeRef} (here : ∀ h, Eval.scope env { w with heap := h } = .ok s { w with heap := h })
    (inside : s.index < w.heap.scopes.size) (free : w.heap.isConstant s "x" = false) :
    ∃ w', (Run.run (n + 1)).block b env w = .ok .normal w' ∧ w'.interpreters = w.interpreters ∧
      w'.heap.scopes.size = w.heap.scopes.size ∧
      ∃ u, (w'.heap.scope s).bindings.get? "x" = some u ∧ w'.heap.Holds f u := by
  obtain ⟨s₁, s₂, e, body, same⟩ := assigns
  obtain ⟨v, h, value, more, holds⟩ := makes_form f readable same high env w
  obtain ⟨more', holds'⟩ := Heap.gives_copy holds
  have scopes : (Heap.copy v h).2.scopes = w.heap.scopes := (more.trans more').scopes
  have free' : (Heap.copy v h).2.isConstant s "x" = false := by
    rw [Heap.isConstant, Heap.scope, scopes]
    exact free
  obtain ⟨w', define, heap, interpreters⟩ := Eval.define_eq s "x" (Heap.copy v h).1 false env
    { w with heap := (Heap.copy v h).2 }
  have assign := (Eval.assign_eq_define (w := { w with heap := (Heap.copy v h).2 }) free'
    (Heap.copy v h).1 env).trans define
  have bound : Eval.bindCopy s₁ "x" v env { w with heap := h } = .ok () w' := by
    rw [Eval.bindCopy, Eval.bind_ok (Eval.copy_eq v env _), Eval.bindSelf, Eval.bind_ok (here _)]
    exact Eval.tryCatch_ok assign _
  refine ⟨w', ?_, interpreters, ?_, (Heap.copy v h).1, ?_, ?_⟩
  · change Run.stmts (Run.run n) (Run.load (Run.run n)) n b.body env w = _
    have step : Run.stmt (Run.run n) (Run.load (Run.run n)) n
        (.assign ⟨s₁, ⟨s₂, "x", []⟩, e, false⟩) env w = .ok .normal w' := by
      have assigned : Run.assign (Run.run n) ⟨s₁, ⟨s₂, "x", []⟩, e, false⟩ env w = .ok () w' :=
        (Eval.bind_ok value _).trans bound
      exact Eval.bind_ok assigned _
    rw [body, Run.stmts, Eval.bind_ok step]
    rfl
  · rw [heap, Heap.bind, Heap.modifyScope, Array.size_modify, scopes]
  · rw [heap, Heap.bind, Heap.scope, Heap.modifyScope, Heap.getD_modify, scopes]
    simp [inside]
  · rw [heap]
    exact (Heap.keeps_bind s "x" _ false).holds f holds'

/-- Reading the display form of a form in a session with one interpreter, in whose root
scope `x` is no constant. -/
theorem reads_back {s : Session} {i : Interpreter} (one : s.world.interpreters = #[i])
    (pending : i.pending = []) (inside : i.root.index < s.world.heap.scopes.size)
    (free : s.world.heap.isConstant i.root "x" = false) {f : Form} (readable : f.readable = true)
    {bound : Nat} (high : f.height + 2 ≤ bound) :
    ∃ s', s.perform (Run.runSource (Run.run bound) (assignmentOf f.text)) = (.ok (), s') ∧
      (s'.world.heap.scope s'.root).bindings.get? "x" = some (s'.get "x") ∧
      s'.world.heap.Holds f (s'.get "x") := by
  obtain ⟨n, rfl⟩ := Nat.exists_eq_add_one_of_ne_zero (n := bound) (by omega)
  obtain ⟨b, parsed, assigns⟩ := parse_assignmentOf readable i.name
  obtain ⟨w, block, interpreters, scopes, u, binding, holds⟩ :=
    block_assignsX assigns readable (by omega : f.height < n) ⟨s.setup, Session.main⟩
      (w := atRoot s.world i (assignmentOf f.text)) (s := i.root) (fun _ => rfl) inside free
  have source : Run.runSource (Run.run (n + 1)) (assignmentOf f.text) ⟨s.setup, Session.main⟩
      s.world = .ok () w := by
    rw [runSource_eq _ one rfl pending parsed, Eval.discard_eq, Eval.bind_ok block]
    rfl
  have root : (w.interpreters.getD Session.main.index default).root = i.root := by
    rw [interpreters]
    rfl
  have found : Session.get { s with world := w } "x" = u := by
    obtain ⟨k, some⟩ := Nat.exists_eq_add_one_of_ne_zero (Nat.ne_zero_of_lt inside)
    rw [Session.get, Session.root, root, Heap.lookup?, Heap.find?, scopes, atRoot, some,
      Heap.findTo, binding]
    rfl
  refine ⟨{ s with world := w }, ?_, ?_, ?_⟩
  · rw [Session.perform, source]
  · rw [found, Session.root, root]
    exact binding
  · rw [found]
    exact holds

/-- A value of a readable form is displayed as a text that a fresh session reads back:
assigning it to `x` succeeds, within any bound that exceeds the height of the form by
two, and binds `x` to a value of the same form.  `Session.run` is the case of the bound
of sessions. -/
theorem display_reads_back {h : Heap} {v : Value} {f : Form} (hv : h.Holds f v)
    (readable : f.readable = true) (o : Session.Options) (plain : o.preload = []) {bound : Nat}
    (high : f.height + 2 ≤ bound) :
    ∃ s, (Session.start o).perform
        (Run.runSource (Run.run bound) (assignmentOf (h.repr v))) = (.ok (), s) ∧
      (s.world.heap.scope s.root).bindings.get? "x" = some (s.get "x") ∧
      s.world.heap.Holds f (s.get "x") := by
  obtain ⟨interpreters, scopes, constants⟩ := Session.start_fresh o
  rw [Heap.repr_eq_text hv]
  refine reads_back interpreters plain ?_ ?_ readable high
  · rw [scopes]
    exact Nat.one_pos
  · rw [Heap.isConstant, constants]
    rfl

/-- An array of nothing and a dictionary, whose keys are a string with both quotes and a
truth value. -/
def sampleHeap : Heap :=
  { Heap.empty with
    arrays := #[.ofArray #[.int 0, .string "é\n"], .ofArray #[.none, .dict ⟨0⟩]]
    dicts := #[{ slots := .ofArray #[.string "it's \"5\\6\"", .bool true]
                 values := #[.int (-7), .array ⟨0⟩]
                 index := .ofList [(.string "it's \"5\\6\"", 0), (.int 1, 1)] }] }

def sampleForm : Form :=
  .array [.atom .none, .dict [.mk (.string "it's \"5\\6\"") (.atom (.int (-7))),
    .mk (.bool true) (.array [.atom (.int 0), .atom (.string "é\n")])]]

theorem display_reads_back_nested :
    sampleHeap.repr (.array ⟨1⟩) = "[None, \x7b'it\\'s \"5\\\\6\"': -7, True: [0, 'é\\n']\x7d]" ∧
    ∃ s, (Session.start default).run (assignmentOf (sampleHeap.repr (.array ⟨1⟩))) = (.ok (), s) ∧
      s.world.heap.Holds sampleForm (s.get "x") := by
  have holds : sampleHeap.Holds sampleForm (.array ⟨1⟩) :=
    ⟨⟨1⟩, rfl, by decide, rfl, ⟨⟨0⟩, rfl, by decide, rfl, rfl, rfl,
      ⟨⟨0⟩, rfl, by decide, rfl, rfl, trivial⟩, trivial⟩, trivial⟩
  obtain ⟨s, run, -, same⟩ :=
    display_reads_back holds (by decide) default rfl (by decide : _ ≤ Session.bound)
  refine ⟨?_, s, run, same⟩
  rw [Heap.repr_eq_text holds]
  rfl

end Pseudocode
