import Pseudocode.Proofs.Places.Executing
import Pseudocode.Run.Call
import Pseudocode.Run.Display
/-
# `Proofs.Places.Calling` — calls and display forms, mirrored

The body of a subroutine runs out of the source unit that defined it, so it is judged from
a stand in that unit.  Builtin functions are carried out by a parameter of the rule, and
what is asked of it is left open here.  Display forms call methods without a place, so
their faults have none either.
-/
namespace Pseudocode

variable {ℓ : Likeness} {S : Stand ℓ} {w : World} {p : Prop} {r r' : Recursor}

/-! ## The scope of a call -/

/-- An argument and the parameter it is for. -/
def recastArgument (ρ : Recast) (e : String × Value) : String × Value := (e.1, e.2.recast ρ)

/-- The parameters of a call are bound to copies of the arguments. -/
theorem mirrors_bindParams {scope : ScopeRef} (hs : S.marks.scopes ≤ scope.index) :
    ∀ (es : List (String × Value)) (w : World), (∀ e ∈ es, (S.realm w).Holds e.2) →
      Mirrors S w p
        (forIn es PUnit.unit fun e _ => do
          let v ← Eval.copy e.2
          Eval.define scope e.1 v false
          pure (ForInStep.yield PUnit.unit))
        (forIn (es.map (recastArgument ℓ.naming.recast)) PUnit.unit fun e _ => do
          let v ← Eval.copy e.2
          Eval.define scope e.1 v false
          pure (ForInStep.yield PUnit.unit))
  | [], _, _ => .pure (a := ()) trivial
  | e :: es, w, hes => by
    rw [List.map_cons, List.forIn_cons, List.forIn_cons, Eval.bind_assoc, Eval.bind_assoc]
    refine (Mirrors.copy (hes e List.mem_cons_self)).bind fun v w₁ _ steps hv => ?_
    rw [Eval.bind_assoc, Eval.bind_assoc]
    refine (Mirrors.define hs e.1 hv false).bind fun _ w₂ _ more _ => ?_
    exact mirrors_bindParams hs es w₂ fun a ha =>
      (steps.trans more).holds (hes a (List.mem_cons_of_mem e ha))

theorem mirrors_callScope {f : Subroutine} (hf : (S.realm w).Defines f) {args : List Value}
    (ha : ∀ v ∈ args, (S.realm w).Holds v) :
    Mirrors S w p (Run.callScope f args)
      (Run.callScope (ℓ.naming.subroutine f) (args.map (Value.recast ℓ.naming.recast))) := by
  have zipped : (ℓ.naming.subroutine f).params.zip (args.map (Value.recast ℓ.naming.recast)) =
      (f.params.zip args).map (recastArgument ℓ.naming.recast) := List.zip_map_right
  have params : ∀ (scope : ScopeRef) (w₁ : World), S.marks.scopes ≤ scope.index → S.Steps w w₁ →
      Mirrors S w₁ p
        (do
          forIn (f.params.zip args) PUnit.unit fun e _ => do
            let v ← Eval.copy e.2
            Eval.define scope e.1 v false
            pure (ForInStep.yield PUnit.unit)
          pure scope)
        (do
          forIn ((f.params.zip args).map (recastArgument ℓ.naming.recast)) PUnit.unit fun e _ => do
            let v ← Eval.copy e.2
            Eval.define scope e.1 v false
            pure (ForInStep.yield PUnit.unit)
          pure scope) := by
    intro scope w₁ hs steps
    refine (mirrors_bindParams hs _ w₁ fun e he => ?_).bind fun _ w₂ _ _ _ => .pure (a := scope) hs
    exact steps.holds (ha e.2 (List.of_mem_zip he).2)
  refine (Mirrors.childScope f.name hf.scope).bind fun scope w₁ _ steps hs => ?_
  rw [zipped]
  have this : (ℓ.naming.subroutine f).this = f.this := rfl
  rw [this]
  change S.marks.scopes ≤ scope.index at hs
  cases owner : f.this with
  | none => exact params scope w₁ hs steps
  | some o =>
    have held : (S.realm w₁).Holds (.ofOwner o) := Realm.holds_ofOwner (hf.this o owner)
    have bound := Mirrors.define (p := p) hs "this" held false
    rw [Value.recast_ofOwner] at bound
    exact bound.bind fun _ w₂ _ more _ => params scope w₂ hs (steps.trans more)

/-! ## Subroutines, records and classes -/

theorem good_callResult {R : Realm} {flow : Flow} (h : Carried.Good R flow) :
    R.Holds (Run.callResult flow) := by
  cases flow with
  | returned v => exact h v rfl
  | _ => trivial

theorem callResult_carry (ρ : Recast) (flow : Flow) :
    Run.callResult (Carried.carry ρ flow) = (Run.callResult flow).recast ρ := by
  cases flow <;> rfl

theorem mirrors_callSubroutine (hr : Mirroring S r r') {f : Subroutine}
    (hf : (S.realm w).Defines f) {args : List Value} (ha : ∀ v ∈ args, (S.realm w).Holds v)
    {span : Span} (hs : S.Allows p span) :
    Mirrors S w p (Run.callSubroutine r f args span)
      (Run.callSubroutine r' (ℓ.naming.subroutine f) (args.map (Value.recast ℓ.naming.recast))
        (span.moved S.place)) := by
  simp only [Run.callSubroutine, List.length_map]
  change Mirrors S w p (if args.length != f.params.length then _ else _)
    (if args.length != f.params.length then _ else _)
  split
  · exact .failAt_bind hs (.of rfl)
  · refine .frame (.look rfl rfl ?_)
    change Mirrors S w p (if ℓ.setup.maxDepth ≤ (w.row S.self.index).frame.depth then _ else _)
      (if ℓ.setup.maxDepth ≤ (w.row S.self.index).frame.depth then _ else _)
    split
    · exact .failAt_bind hs (.of rfl)
    · refine (mirrors_callScope hf ha).bind fun scope w₁ _ steps hscope => ?_
      have code : ℓ.Defined S.marks.units w.nextUnit f := hf.code
      -- The body runs out of the unit of its definition.
      have body : Mirrors S w₁ p
          (Eval.withFrame ⟨scope, f.origin, (w.row S.self.index).frame.depth + 1⟩ (r.block f.body))
          (Eval.withFrame
            (ℓ.naming.frame ⟨scope, f.origin, (w.row S.self.index).frame.depth + 1⟩)
            (r'.block (ℓ.naming.block f.origin.unit f.body))) :=
        .withFrame hscope (fun _ => Nat.lt_of_lt_of_le code.known steps.units) (Nat.succ_ne_zero _)
          ((hr.block S.self f.origin _ f.body fun s hs => ⟨code.body s hs, code.old⟩).mono
            fun _ => trivial)
      refine body.bind fun flow w₂ _ _ hflow => ?_
      rw [callResult_carry]
      exact .pure (good_callResult hflow)

theorem holds_putAll {R : Realm} : ∀ (es : List (String × Value)) {t : Table Value},
    t.All R.Holds → (∀ e ∈ es, R.Holds e.2) →
      (es.foldl (fun (t : Table Value) (f, v) => t.put f v) t).All R.Holds
  | [], _, ht, _ => ht
  | e :: es, _, ht, he => holds_putAll es (ht.put (he e List.mem_cons_self))
      fun a ha => he a (List.mem_cons_of_mem e ha)

theorem recast_putAll (ρ : Recast) : ∀ (es : List (String × Value)) (t : Table Value),
    (es.map (recastArgument ρ)).foldl (fun (t : Table Value) (f, v) => t.put f v) (t.recast ρ) =
      (es.foldl (fun (t : Table Value) (f, v) => t.put f v) t).recast ρ
  | [], _ => rfl
  | e :: es, t => by
    rw [List.map_cons, List.foldl_cons, List.foldl_cons, ← recast_putAll ρ es, Table.recast_put]
    rfl

theorem mirrors_buildRecord {t : RecordTypeRef} {args : List Value}
    (ha : ∀ v ∈ args, (S.realm w).Holds v) {span : Span} (hs : S.Allows p span) :
    Mirrors S w p (Run.buildRecord t args span)
      (Run.buildRecord t (args.map (Value.recast ℓ.naming.recast)) (span.moved S.place)) := by
  refine .inHeap ?_
  rw [Heap.recordType_recast, List.length_map]
  dsimp only
  split
  · exact .failAt_bind hs (.of rfl)
  · refine (Mirrors.copies ha).bind fun vs w₁ _ _ hvs => ?_
    have zipped : ((w.heap.recordType t).fields.zip (Carried.carry ℓ.naming.recast vs)) =
        ((w.heap.recordType t).fields.zip vs).map (recastArgument ℓ.naming.recast) :=
      List.zip_map_right
    have fields := recast_putAll ℓ.naming.recast ((w.heap.recordType t).fields.zip vs) []
    rw [zipped]
    refine Eq.subst (motive := fun fs => Mirrors S w₁ p _ (Eval.onHeap (Heap.newRecord ⟨t, fs⟩)))
      fields.symm ?_
    refine .newRecord (holds_putAll _ Table.All.nil fun e he => ?_)
    exact hvs e.2 (List.of_mem_zip he).2

theorem mirrors_instantiate (hr : Mirroring S r r') {c : ClassRef}
    (hc : S.marks.classes ≤ c.index) {args : List Value} (ha : ∀ v ∈ args, (S.realm w).Holds v)
    {span : Span} (hs : S.Allows p span) :
    Mirrors S w p (Run.instantiate r c args span)
      (Run.instantiate r' c (args.map (Value.recast ℓ.naming.recast)) (span.moved S.place)) := by
  refine (Mirrors.onHeap fun _ => turns_newInstance hc).bind fun o w₁ ready steps ho => .inHeap ?_
  change S.marks.objects ≤ o.index at ho
  rw [show Carried.carry ℓ.naming.recast o = o from rfl, Heap.object_recast, Object.recast,
    Table.get?_recast]
  cases init : (w₁.heap.object o).props.get? "INIT" with
  | some m =>
    have hm : (S.realm w₁).Holds m := (ready.tame.object ho).get? init
    exact (hr.call_here hs hm fun v hv => steps.holds (ha v hv)).discard.bind
      fun _ _ _ _ _ => .pure (a := Value.object o) ho
  | none =>
    have none : (args.map (Value.recast ℓ.naming.recast)).isEmpty = args.isEmpty := by
      cases args <;> rfl
    dsimp only [Option.map_none]
    rw [none]
    split
    · refine .inHeap ?_
      rw [Heap.classType_recast]
      exact .failAt_bind hs (.of rfl)
    · exact .pure (a := Value.object o) ho

/-- Calls a value, given how builtin functions are carried out. -/
theorem mirrors_callWith (hr : Mirroring S r r') {native native' : Builtin → List Value → Eval Value}
    {callee : Value} (hf : (S.realm w).Holds callee) {args : List Value}
    (ha : ∀ v ∈ args, (S.realm w).Holds v)
    (hn : ∀ b, callee = .builtin b →
      Mirrors S w False (native b args) (native' b (args.map (Value.recast ℓ.naming.recast))))
    {span : Span} (hs : S.Allows p span) :
    Mirrors S w p (Run.call r native callee args span)
      (Run.call r' native' (callee.recast ℓ.naming.recast) (args.map (Value.recast ℓ.naming.recast))
        (span.moved S.place)) := by
  have refused : Mirrors S w p
      (Eval.inHeap (·.typeName callee) >>= fun type =>
        (Eval.failAt span ⟨.notCallable, s!"'{type}' object is not callable"⟩ : Eval Value))
      (Eval.inHeap (·.typeName (callee.recast ℓ.naming.recast)) >>= fun type =>
        Eval.failAt (span.moved S.place) ⟨.notCallable, s!"'{type}' object is not callable"⟩) := by
    refine .inHeap ?_
    rw [Heap.typeName_recast]
    exact .failAt hs (.of rfl)
  cases callee with
  | subroutine f => exact mirrors_callSubroutine hr hf ha hs
  | builtin b => exact .placed hs (hn b rfl)
  | recordType t => exact mirrors_buildRecord ha hs
  | classType c => exact mirrors_instantiate hr hf ha hs
  | none => exact .failAt hs (.of rfl)
  | _ => exact refused

/-! ## Display forms -/

theorem Value.recast_getD {ρ : Recast} (v : Option Value) :
    (v.map (Value.recast ρ)).getD .none = (v.getD .none).recast ρ := by
  cases v <;> rfl

theorem mirrors_callDisplay (hr : Mirroring S r r') {m : Value} (hm : (S.realm w).Holds m) :
    Mirrors S w False (Run.callDisplay r m) (Run.callDisplay r' (m.recast ℓ.naming.recast)) := by
  have called := hr.call_here (w := w) (p := False)
    (Stand.allows_nowhere id) hm (List.forall_mem_nil _)
  refine called.bind fun v w₁ _ _ hv => ?_
  cases v with
  | string s => exact .pure (a := s) trivial
  | _ => exact hr.str_here hv

theorem mirrors_reprElements (hr : Mirroring S r r') {a : ArrayRef}
    (ha : (S.realm w).Holds (.array a)) :
    Mirrors S w False (Run.reprElements r a) (Run.reprElements r' a) := by
  refine .inHeap ?_
  rw [Heap.slots_recast, Slots.recast, Slots.view_map]
  refine .mapM _ fun i _ w₁ ready steps => .inHeap ?_
  rw [Heap.slots_recast, Slots.recast, Slots.seen?_map, Value.recast_getD]
  exact hr.repr_here (Realm.holds_getD fun v hv => (ready.tame.slots (steps.holds ha)).seen? hv)

theorem mirrors_reprEntries (hr : Mirroring S r r') {d : DictRef}
    (hd : (S.realm w).Holds (.dict d)) :
    Mirrors S w False (Run.reprEntries r d) (Run.reprEntries r' d) := by
  refine .inHeap ?_
  rw [Heap.dict_recast]
  have view : ((w.heap.dict d).recast ℓ.naming.recast).slots.view = (w.heap.dict d).slots.view :=
    Slots.view_map _
  rw [view]
  refine .mapM _ fun i _ w₁ ready steps => .inHeap ?_
  rw [Heap.dict_recast, Dictionary.slots_recast, Slots.recast, Slots.seen?_map, Value.recast_getD]
  have key : (S.realm w₁).Holds
      (((w₁.heap.dict d).slots.seen? (w.heap.dict d).slots.view i).getD .none) :=
    Realm.holds_getD fun v hv =>
      Realm.holds_of_hashable ((ready.tame.dict (steps.holds hd)).keys.seen? hv)
  refine (hr.repr_here key).bind fun k w₂ ready more _ => .inHeap ?_
  rw [Heap.dict_recast, Dictionary.values_recast,
    Heap.getD_map (f := Value.recast ℓ.naming.recast) _ _ rfl]
  have value : (S.realm w₂).Holds ((w₂.heap.dict d).values.getD i .none) :=
    getD_of_forall (ready.tame.dict ((steps.trans more).holds hd)).values trivial
  exact (hr.repr_here value).bind fun v _ _ _ _ => .pure (a := entryText k v) trivial

theorem mirrors_strContainer (hr : Mirroring S r r') {v : Value} (hv : (S.realm w).Holds v) :
    Mirrors S w False (Run.strContainer r v) (Run.strContainer r' (v.recast ℓ.naming.recast)) := by
  have shown : Mirrors S w False (Eval.inHeap (·.text v))
      (Eval.inHeap (·.text (v.recast ℓ.naming.recast))) := by
    refine .step (a := w.heap.text v) rfl ?_ rfl rfl rfl trivial
    change EStateM.Result.ok ((w.heap.recast ℓ.naming.recast).text (v.recast ℓ.naming.recast)) _ = _
    rw [Heap.text_recast]
    rfl
  cases v with
  | array a =>
    refine (mirrors_reprElements hr hv).bind fun es _ _ _ _ => ?_
    rw [Carried.carry_strings]
    exact .pure (a := bracketed es) trivial
  | dict d =>
    refine (mirrors_reprEntries hr hv).bind fun es _ _ _ _ => ?_
    rw [Carried.carry_strings]
    exact .pure (a := braced es) trivial
  | _ => exact shown

theorem mirrors_str (hr : Mirroring S r r') {v : Value} (hv : (S.realm w).Holds v) :
    Mirrors S w False (Run.str r v) (Run.str r' (v.recast ℓ.naming.recast)) := by
  refine .ready fun ready => .inHeap ?_
  rw [Heap.displayMethod?_recast]
  cases method : Run.displayMethod? w.heap v "STR" with
  | some m => exact mirrors_callDisplay hr (ready.tame.displayMethod? hv method)
  | none => exact mirrors_strContainer hr hv

theorem mirrors_reprMethod (hr : Mirroring S r r') {v : Value} (hv : (S.realm w).Holds v) :
    Mirrors S w False
      (Eval.inHeap (Run.displayMethod? · v "REPR") >>= fun m? =>
        match m? with
        | some m => Run.callDisplay r m
        | none => Run.str r v)
      (Eval.inHeap (Run.displayMethod? · (v.recast ℓ.naming.recast) "REPR") >>= fun m? =>
        match m? with
        | some m => Run.callDisplay r' m
        | none => Run.str r' (v.recast ℓ.naming.recast)) := by
  refine .ready fun ready => .inHeap ?_
  rw [Heap.displayMethod?_recast]
  cases method : Run.displayMethod? w.heap v "REPR" with
  | some m => exact mirrors_callDisplay hr (ready.tame.displayMethod? hv method)
  | none => exact mirrors_str hr hv

theorem mirrors_repr (hr : Mirroring S r r') {v : Value} (hv : (S.realm w).Holds v) :
    Mirrors S w False (Run.repr r v) (Run.repr r' (v.recast ℓ.naming.recast)) := by
  cases v with
  | string s => exact .pure (a := Text.quoted s) trivial
  | _ => exact mirrors_reprMethod hr hv

end Pseudocode
