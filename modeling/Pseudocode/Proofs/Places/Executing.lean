import Pseudocode.Proofs.Places.Evaluating
/-
# `Proofs.Places.Executing` — executing statements, mirrored

One lemma for each rule of statements.  Loops are followed round by round.  A definition
makes a subroutine that stands where the executing code stands, so in the second run it is
the subroutine renamed.  A `TRY` is judged in the course that says so, in which no fault is
waited for.
-/
namespace Pseudocode

variable {ℓ : Likeness} {S : Stand ℓ} {w : World} {p : Prop} {r r' : Recursor}

/-! ## The flow -/

namespace Mirrors

theorem normal : Mirrors S w p (Pure.pure Flow.normal) (Pure.pure Flow.normal) :=
  .pure (a := Flow.normal) (Flow.good_of_not_returned rfl)

/-- The flow is normal after any action. -/
theorem finish {α : Type} [Carried α] {x y : Eval α} (hx : Mirrors S w p x y) :
    Mirrors S w p (x >>= fun _ => Pure.pure Flow.normal) (y >>= fun _ => Pure.pure Flow.normal) :=
  hx.bind fun _ _ _ _ _ => .normal

end Mirrors

/-! ## Assignments -/

theorem mem_chainSpans {chain : List Index} {i : Index} (hi : i ∈ chain) {s : Span}
    (hs : s ∈ chainSpans [i]) : s ∈ chainSpans chain := by
  induction chain with
  | nil => cases hi
  | cons j chain ih =>
    rw [chainSpans_cons, List.mem_append]
    rcases List.mem_cons.mp hi with rfl | hi
    · exact .inl hs
    · exact .inr (ih hi)

/-- A part of a chain has no spans of its own. -/
theorem Stand.Reads.chain {chain part : List Index} (h : S.Reads (chainSpans chain))
    (sub : ∀ i ∈ part, i ∈ chain) : S.Reads (chainSpans part) := by
  intro s hs
  induction part with
  | nil => cases hs
  | cons i part ih =>
    rw [chainSpans_cons, List.mem_append] at hs
    rcases hs with hs | hs
    · exact h s (mem_chainSpans (sub i List.mem_cons_self) hs)
    · exact ih (fun j hj => sub j (List.mem_cons_of_mem i hj)) hs

theorem Realm.Tame.find? {R : Realm} {h : Heap} (t : R.Tame h) {s owner : ScopeRef} {name : String}
    {v : Value} (hs : R.marks.scopes ≤ s.index) (found : h.find? s name = some (owner, v)) :
    R.Holds v := (t.findTo hs found).2

theorem mirrors_assignIndexed (hr : Mirroring S r r') {t : Target} (ht : S.Reads t.spans)
    {v : Value} (hv : (S.realm w).Holds v) :
    Mirrors S w p (Run.assignIndexed r t v)
      (Run.assignIndexed r' (t.moved S.place) (v.recast ℓ.naming.recast)) := by
  simp only [Target.spans, Stand.Reads, List.mem_cons] at ht
  have chain : S.Reads (chainSpans t.chain) := fun s hs => ht s (.inr hs)
  refine .ready fun ready => .scope (.inHeap ?_)
  rw [Target.moved, Heap.find?_recast]
  cases found : w.heap.find? (w.row S.self.index).frame.scope t.name with
  | none => exact mirrors_nameError (.inl (ht t.span (.inl rfl))) t.name
  | some e =>
    obtain ⟨owner, base⟩ := e
    have hbase : (S.realm w).Holds base := ready.tame.find? ready.row.scope found
    have last : (chainMoved S.place t.chain).dropLast = chainMoved S.place t.chain.dropLast := by
      rw [chainMoved_eq_map, chainMoved_eq_map, List.map_dropLast]
    have final : (chainMoved S.place t.chain).getLast? = t.chain.getLast?.map (Index.moved S.place) := by
      rw [chainMoved_eq_map, List.getLast?_map]
    dsimp only [Option.map_some]
    rw [last, final]
    refine (mirrors_walk hr _ hbase (chain.chain fun i hi => List.dropLast_subset _ hi)).bind
      fun container w₁ _ steps hcontainer => ?_
    have told : ∀ w', Mirrors S w' p
        (Eval.inHeap (·.touched? owner t.name) >>= Eval.tell)
        (Eval.inHeap (·.touched? owner t.name) >>= Eval.tell) := fun w' => .inHeap <| by
      rw [Heap.touched?_recast]
      exact .tell _
    cases hlast : t.chain.getLast? with
    | none => exact told w₁
    | some i =>
      have hi : S.Reads (chainSpans [i]) := chain.chain fun j hj => by
        rw [List.mem_singleton.mp hj]
        exact List.mem_of_getLast? hlast
      exact (mirrors_writeAt hr hcontainer hi (steps.holds hv)).bind fun _ w₂ _ _ _ => told w₂

theorem mirrors_declare {span : Span} (hs : S.Allows p span) (name : String) {v : Value}
    (hv : (S.realm w).Holds v) :
    Mirrors S w p (Run.declare span name v)
      (Run.declare (span.moved S.place) name (v.recast ℓ.naming.recast)) := by
  refine .ready fun ready => .scope (.inHeap ?_)
  rw [Heap.isConstant_recast]
  split
  · exact .failAt_bind hs (.of rfl)
  · exact (Mirrors.copy hv).bind fun c w₁ _ _ hc => .define ready.row.scope name hc true

theorem mirrors_assign (hr : Mirroring S r r') {a : Assignment} (ha : S.Reads a.spans) :
    Mirrors S w p (Run.assign r a) (Run.assign r' (a.moved S.place)) := by
  simp only [Assignment.spans, Stand.Reads, List.mem_cons, List.mem_append] at ha
  have hspan : S.Allows p a.span := .inl (ha _ (.inl rfl))
  refine (hr.expr_here fun s hs => ha s (.inr (.inr hs))).bind fun v w₁ _ _ hv => ?_
  have empty : ((a.moved S.place).target.chain).isEmpty = a.target.chain.isEmpty :=
    isEmpty_chainMoved _
  rw [empty]
  split
  · exact mirrors_assignIndexed hr (fun s hs => ha s (.inr (.inl hs))) hv
  · change Mirrors S w₁ p (if a.constant then _ else _) (if a.constant then _ else _)
    split
    · exact mirrors_declare hspan a.target.name hv
    · exact .bindCopy hspan a.target.name hv

/-! ## Choices -/

/-- A choice by the truth of a value. -/
theorem mirrors_truth {α : Type} [Carried α] {x x' y y' : Eval α} {e : Expr}
    (hr : Mirroring S r r') (he : S.Reads e.spans) (hx : ∀ w, Mirrors S w p x x')
    (hy : ∀ w, Mirrors S w p y y') :
    Mirrors S w p
      (do
        let c ← r.expr e
        if ← Eval.inHeap (·.truthy c) then x else y)
      (do
        let c ← r'.expr (e.moved S.place)
        if ← Eval.inHeap (·.truthy c) then x' else y') := by
  refine (hr.expr_here he).bind fun c w₁ _ _ _ => .inHeap ?_
  rw [show Carried.carry ℓ.naming.recast c = c.recast ℓ.naming.recast from rfl, Heap.truthy_recast]
  split
  · exact hx w₁
  · exact hy w₁

theorem mirrors_branch (hr : Mirroring S r r') : ∀ (n m : Nat) (b : Branch) (w : World),
    ℓ.Rounds n m → S.Reads b.spans →
      Mirrors S w p (Run.branch r n b) (Run.branch r' m (ℓ.naming.branch S.here.unit b))
  | 0, m, _, _, hn, _ => by
    rcases hn.zero with rfl | h
    · exact .outOfFuel
    · exact .heard h
  | n + 1, m, .mk span condition consequence alternative, w, hn, hb => by
    obtain ⟨m, rfl, hk⟩ := hn.succ
    simp only [Branch.spans, Stand.Reads, List.mem_cons, List.mem_append] at hb
    have hyes : S.Reads consequence.spans := fun s hs => hb s (.inr (.inl (.inr hs)))
    refine mirrors_truth hr (fun s hs => hb s (.inr (.inl (.inl hs)))) (fun _ => hr.block_here hyes)
      fun w => ?_
    cases alternative with
    | absent => exact .normal
    | elseIf next => exact mirrors_branch hr n m next w hk fun s hs => hb s (.inr (.inr hs))
    | elseBlock body => exact hr.block_here fun s hs => hb s (.inr (.inr hs))

/-! ## Loops -/

/-- A round of a loop, and the rounds after it. -/
theorem mirrors_round (hr : Mirroring S r r') {body : Block} (hb : S.Reads body.spans)
    {next next' : Eval Flow} (hn : ∀ w', S.Steps w w' → Mirrors S w' p next next') :
    Mirrors S w p
      (do
        match Run.loopEnd? (← r.block body) with
        | some flow => return flow
        | none => next)
      (do
        match Run.loopEnd? (← r'.block (ℓ.naming.block S.here.unit body)) with
        | some flow => return flow
        | none => next') := by
  refine (hr.block_here hb).bind fun flow w₁ _ steps hflow => ?_
  cases flow with
  | normal => exact hn w₁ steps
  | continued => exact hn w₁ steps
  | broke => exact .normal
  | returned v => exact .pure (a := Flow.returned v) hflow

theorem mirrors_whileLoop (hr : Mirroring S r r') {condition : Expr} {body : Block}
    (hc : S.Reads condition.spans) (hb : S.Reads body.spans) : ∀ (n m : Nat) (w : World),
      ℓ.Rounds n m → Mirrors S w p (Run.whileLoop r condition body n)
        (Run.whileLoop r' (condition.moved S.place) (ℓ.naming.block S.here.unit body) m)
  | 0, m, _, hn => by
    rcases hn.zero with rfl | h
    · exact .outOfFuel
    · exact .heard h
  | n + 1, m, w, hn => by
    obtain ⟨m, rfl, hk⟩ := hn.succ
    refine mirrors_truth hr hc (fun w => ?_) fun w => .normal
    exact mirrors_round hr hb fun w' _ => mirrors_whileLoop hr hc hb n m w' hk

theorem mirrors_repeatLoop (hr : Mirroring S r r') {condition : Expr} {body : Block}
    (hc : S.Reads condition.spans) (hb : S.Reads body.spans) : ∀ (n m : Nat) (w : World),
      ℓ.Rounds n m → Mirrors S w p (Run.repeatLoop r body condition n)
        (Run.repeatLoop r' (ℓ.naming.block S.here.unit body) (condition.moved S.place) m)
  | 0, m, _, hn => by
    rcases hn.zero with rfl | h
    · exact .outOfFuel
    · exact .heard h
  | n + 1, m, w, hn => by
    obtain ⟨m, rfl, hk⟩ := hn.succ
    refine mirrors_round hr hb fun w' _ => ?_
    refine mirrors_truth hr hc (fun w => .normal) fun w => ?_
    exact mirrors_repeatLoop hr hc hb n m w hk

theorem mirrors_bound (hr : Mirroring S r r') {e : Expr} (he : S.Reads e.spans) (what : String) :
    Mirrors S w p (Run.bound r e what) (Run.bound r' (e.moved S.place) what) := by
  refine (hr.expr_here he).bind fun v w₁ _ _ _ => ?_
  have refused : Mirrors S w₁ p
      (Eval.inHeap (·.typeName v) >>= fun type =>
        (Eval.failAt e.span (.type s!"FOR {what} must be an Int, got '{type}'") : Eval Int))
      (Eval.inHeap (·.typeName (v.recast ℓ.naming.recast)) >>= fun type =>
        Eval.failAt (e.moved S.place).span (.type s!"FOR {what} must be an Int, got '{type}'")) := by
    refine .inHeap ?_
    rw [Heap.typeName_recast, Expr.span_moved]
    exact .failAt (.inl (he _ e.span_mem)) (.of rfl)
  cases v with
  | int n => exact .pure (a := (Int64.ofInt n).toInt) trivial
  | _ => exact refused

theorem mirrors_stepBound (hr : Mirroring S r r') {step : Option Expr}
    (hs : S.Reads (step.toList.flatMap Expr.spans)) :
    Mirrors S w p (Run.stepBound r step) (Run.stepBound r' (step.map (Expr.moved S.place))) := by
  cases step with
  | none => exact .pure (a := (1 : Int)) trivial
  | some e =>
    have he : S.Reads e.spans := by simpa using hs
    refine (mirrors_bound hr he "step").bind fun n w₁ _ _ _ => ?_
    change Mirrors S w₁ p (if n = 0 then _ else _) (if n = 0 then _ else _)
    split
    · rw [Expr.span_moved]
      exact .failAt_bind (.inl (he _ e.span_mem)) (.of rfl)
    · exact .pure (a := (n : Int)) trivial

theorem mirrors_rangeLoop (hr : Mirroring S r r') {span : Span} (hs : S.Allows p span)
    (name : String) (last step : Int64) {body : Block} (hb : S.Reads body.spans) :
    ∀ (n : Nat) (v : Int64) (w : World),
      Mirrors S w p (Run.rangeLoop r span name last step body n v)
        (Run.rangeLoop r' (span.moved S.place) name last step (ℓ.naming.block S.here.unit body) n v)
  | 0, _, _ => .outOfFuel
  | n + 1, v, _ => by
    rw [Run.rangeLoop, Run.rangeLoop]
    split
    · refine (Mirrors.bindCopy (v := .int v.toInt) hs name trivial).bind fun _ _ _ _ _ =>
        mirrors_round hr hb fun w' _ => ?_
      split
      · exact .normal
      · exact mirrors_rangeLoop hr hs name last step hb n (v + step) w'
    · exact .normal

theorem mirrors_forRange (hr : Mirroring S r r') {span : Span} (hs : S.Allows p span)
    (name : String) {first last : Expr} (hf : S.Reads first.spans) (hl : S.Reads last.spans)
    {step : Option Expr} (ht : S.Reads (step.toList.flatMap Expr.spans)) {body : Block}
    (hb : S.Reads body.spans) :
    Mirrors S w p (Run.forRange r span name first last step body)
      (Run.forRange r' (span.moved S.place) name (first.moved S.place) (last.moved S.place)
        (step.map (Expr.moved S.place)) (ℓ.naming.block S.here.unit body)) := by
  refine (mirrors_bound hr hf "start").bind fun a w₁ _ _ _ => ?_
  refine (mirrors_bound hr hl "end").bind fun b w₂ _ _ _ => ?_
  refine (mirrors_stepBound hr ht).bind fun s w₃ _ _ _ => ?_
  exact mirrors_rangeLoop hr hs name (.ofInt b) (.ofInt s) hb Run.rangeRounds (.ofInt a) w₃

theorem mirrors_eachLoop (hr : Mirroring S r r') {span : Span} (hs : S.Allows p span)
    (name : String) {body : Block} (hb : S.Reads body.spans) : ∀ (vs : List Value) (w : World),
      (∀ v ∈ vs, (S.realm w).Holds v) →
        Mirrors S w p (Run.eachLoop r span name body vs)
          (Run.eachLoop r' (span.moved S.place) name (ℓ.naming.block S.here.unit body)
            (vs.map (Value.recast ℓ.naming.recast)))
  | [], _, _ => .normal
  | v :: vs, w, hv => by
    refine (Mirrors.bindCopy hs name (hv v List.mem_cons_self)).bind fun _ w₁ _ steps _ => ?_
    refine mirrors_round hr hb fun w' more => mirrors_eachLoop hr hs name hb vs w' fun u hu => ?_
    exact (steps.trans more).holds (hv u (List.mem_cons_of_mem v hu))

theorem mirrors_forEach (hr : Mirroring S r r') {span : Span} (hs : S.Allows p span)
    (name : String) {iterable : Expr} (hi : S.Reads iterable.spans) {body : Block}
    (hb : S.Reads body.spans) :
    Mirrors S w p (Run.forEach r span name iterable body)
      (Run.forEach r' (span.moved S.place) name (iterable.moved S.place)
        (ℓ.naming.block S.here.unit body)) := by
  refine (hr.expr_here hi).bind fun v w₁ ready _ hv => .inHeap ?_
  rw [show Carried.carry ℓ.naming.recast v = v.recast ℓ.naming.recast from rfl, Heap.items?_recast]
  cases items : Run.items? w₁.heap v with
  | some vs => exact mirrors_eachLoop hr hs name hb vs w₁ (ready.tame.items? hv items)
  | none =>
    refine .inHeap ?_
    rw [Heap.typeName_recast, Expr.span_moved]
    exact .failAt (.inl (hi _ iterable.span_mem)) (.of rfl)

/-! ## Definitions -/

theorem Routine.params_routine (d : Routine) (chosen : Span → Bool) (f : Position → Position) :
    ((d.listed chosen).moved f).params.map Param.name = d.params.map Param.name := by
  obtain ⟨span, name, params, body⟩ := d
  simp only [Routine.listed, Routine.moved, Routine.params, List.map_map]
  rfl

/-- A definition makes the same subroutine, renamed. -/
theorem mirrors_closure {d : Routine} (hd : S.Reads d.spans) {t : Option Owner}
    (ht : ∀ o, t = some o → o.From S.marks) :
    Mirrors S w p (Run.closure d t) (Run.closure (ℓ.naming.routine S.here.unit d) t) := by
  refine .ready fun ready => .frame ?_
  have here : (w.row S.self.index).frame.origin = S.here := ready.here
  have params := d.params_routine (ℓ.naming.lists S.here.unit) (ℓ.naming.place S.here.unit)
  obtain ⟨span, name, ps, body⟩ := d
  simp only [Routine.spans, Stand.Reads, List.mem_cons, List.mem_append] at hd
  obtain ⟨spans, units⟩ := hd span (.inl rfl)
  let f : Subroutine := ⟨name, ps.map (·.name), body, (w.row S.self.index).frame.scope, t,
    (w.row S.self.index).frame.origin, span.start.offset⟩
  have made : (S.realm w).Defines f := by
    refine ⟨⟨fun s hs => ?_, ⟨span, ?_, rfl⟩, ?_, ?_⟩, ready.row.scope, ht⟩
    · change ℓ.spans (w.row S.self.index).frame.origin s
      rw [here]
      exact (hd s (.inr (.inr hs))).1
    · change ℓ.spans (w.row S.self.index).frame.origin span
      rw [here]
      exact spans
    · change S.marks.units ≤ (w.row S.self.index).frame.origin.unit
      rw [here]
      exact units
    · exact ready.row.unit
  have place : (ℓ.naming.place S.here.unit span.start).offset =
      span.start.offset + (ℓ.naming.shift S.here.unit).bytes := by
    rw [Renaming.place_of_pos (ℓ.lined _ _ spans)]
    rfl
  have same : (Value.subroutine f).recast ℓ.naming.recast = .subroutine
      { name := (ℓ.naming.routine S.here.unit (.mk span name ps body)).name
        params := (ℓ.naming.routine S.here.unit (.mk span name ps body)).params.map (·.name)
        body := (ℓ.naming.routine S.here.unit (.mk span name ps body)).body
        scope := (w.row S.self.index).frame.scope
        this := t
        origin := ℓ.naming.origin (w.row S.self.index).frame.origin
        offset := (ℓ.naming.routine S.here.unit (.mk span name ps body)).span.start.offset } := by
    change Value.subroutine (ℓ.naming.subroutine f) = _
    simp only [Renaming.subroutine, f, here]
    congr 2
    · exact params.symm
    · exact place.symm
  have result := Mirrors.pure (S := S) (w := w) (p := p) (a := Value.subroutine f) made
  rw [show Carried.carry ℓ.naming.recast (Value.subroutine f) = (Value.subroutine f).recast _ from rfl,
    same] at result
  exact result

theorem mirrors_statics (hr : Mirroring S r r') {owner : ClassRef} (ho : S.marks.classes ≤ owner.index) :
    ∀ (as : List Assignment) (w : World), S.Reads (as.flatMap Assignment.spans) →
      Mirrors S w p (Run.statics r owner as) (Run.statics r' owner (as.map (Assignment.moved S.place)))
  | [], _, _ => .pure (a := ()) trivial
  | a :: as, w, ha => by
    rw [List.flatMap_cons] at ha
    have value : S.Reads a.value.spans := fun s hs => ha s (List.mem_append_left _ (by
      rw [Assignment.spans]
      exact List.mem_cons_of_mem _ (List.mem_append_right _ hs)))
    refine (hr.expr_here value).bind fun v w₁ _ _ hv => ?_
    refine (Mirrors.copy hv).bind fun c w₂ _ _ hc => ?_
    have stored : Mirrors S w₂ p (Eval.setProperty (.classType owner) a.target.name c)
        (Eval.setProperty (.classType owner) a.target.name (c.recast ℓ.naming.recast)) := by
      refine .changeHeap (fun t => t.modifyClass owner fun _ hp => hp.put hc)
        { Marks.Kept.refl _ _ with classes := Store.kept_modify ho _ } ?_
      exact (Heap.recast_modifyClass _ owner fun x => by
        simp only [Class.recast, Table.recast_put]).symm
    exact stored.bind fun _ w₃ _ _ _ =>
      mirrors_statics hr ho as w₃ fun s hs => ha s (List.mem_append_right _ hs)

theorem mirrors_methods {owner : ClassRef} (ho : S.marks.classes ≤ owner.index) :
    ∀ (ds : List Routine) (w : World), S.Reads (routinesSpans ds) →
      Mirrors S w p (Run.methods owner ds)
        (Run.methods owner (routinesMoved S.place (routinesListed (ℓ.naming.lists S.here.unit) ds)))
  | [], _, _ => .pure (a := ()) trivial
  | d :: ds, w, hd => by
    rw [routinesSpans] at hd
    have routine : S.Reads d.spans := fun s hs => hd s (List.mem_append_left _ hs)
    refine (mirrors_closure (t := some (.ofClass owner)) routine fun o h => by
      cases h; exact ho).bind fun m w₁ _ _ hm => ?_
    have name : (ℓ.naming.routine S.here.unit d).name = d.name := by
      cases d
      rfl
    have stored : Mirrors S w₁ p (Eval.setProperty (.classType owner) d.name m)
        (Eval.setProperty (.classType owner) (ℓ.naming.routine S.here.unit d).name
          (m.recast ℓ.naming.recast)) := by
      rw [name]
      refine .changeHeap (fun t => t.modifyClass owner fun _ hp => hp.put hm)
        { Marks.Kept.refl _ _ with classes := Store.kept_modify ho _ } ?_
      exact (Heap.recast_modifyClass _ owner fun x => by
        simp only [Class.recast, Table.recast_put]).symm
    exact stored.bind fun _ w₂ _ _ _ =>
      mirrors_methods ho ds w₂ fun s hs => hd s (List.mem_append_right _ hs)

theorem mirrors_defineClass (hr : Mirroring S r r') {span : Span} (hs : S.Allows p span)
    (name : String) {fields : List Assignment} (hf : S.Reads (fields.flatMap Assignment.spans))
    {routines : List Routine} (hd : S.Reads (routinesSpans routines)) :
    Mirrors S w p (Run.defineClass r span name fields routines)
      (Run.defineClass r' (span.moved S.place) name (fields.map (Assignment.moved S.place))
        (routinesMoved S.place (routinesListed (ℓ.naming.lists S.here.unit) routines))) := by
  refine (Mirrors.newClass name).bind fun c w₁ _ _ hc => ?_
  refine (mirrors_statics hr hc fields w₁ hf).bind fun _ w₂ _ _ _ => ?_
  refine (mirrors_methods hc routines w₂ hd).bind fun _ w₃ _ steps _ => ?_
  exact .bindSelf (v := .classType c) hs name hc

/-! ## Signals and errors -/

theorem mirrors_returnValue {vs : List Value} (hv : ∀ v ∈ vs, (S.realm w).Holds v) :
    Mirrors S w p (Run.returnValue vs)
      (Run.returnValue (vs.map (Value.recast ℓ.naming.recast))) := by
  match vs, hv with
  | [], _ => exact .pure (a := Value.none) trivial
  | [v], hv => exact .pure (hv v List.mem_cons_self)
  | v :: u :: vs, hv => exact .newArray hv

theorem mirrors_returnWith {value value' : Expr → Eval Value} {args : List Expr}
    (ha : S.Reads (exprsSpans args))
    (hv : ∀ e w, S.Reads e.spans → Mirrors S w p (value e) (value' (e.moved S.place))) :
    Mirrors S w p (Run.returnWith value args) (Run.returnWith value' (exprsMoved S.place args)) := by
  refine (mirrors_exprsWith ha hv).bind fun vs w₁ _ _ hvs => ?_
  refine (mirrors_returnValue hvs).bind fun v w₂ _ _ hv => ?_
  exact .pure (a := Flow.returned v) fun u hu => by cases hu; exact hv

/-- Several values are returned as an array of them. -/
theorem Run.returnWith_several (value : Expr → Eval Value) {args : List Expr} (ha : 2 ≤ args.length) :
    returnWith value args = args.mapM value >>= fun vs => Eval.newArray vs >>= fun v =>
      pure (.returned v) := by
  match args, ha with
  | a :: b :: args, _ =>
    simp only [returnWith, List.mapM_cons, bind_assoc, pure_bind]
    rfl

theorem Value.recast_container? {ρ : Recast} (v : Value) :
    (v.recast ρ).container? = v.container? := by
  cases v <;> rfl

theorem Eval.copy_of_container? {v : Value} (hv : v.container? = none) : Eval.copy v = pure v := by
  cases v <;> first | rfl | cases hv

/-- Values that are listed are copied into the array; but they are no containers. -/
theorem mirrors_listed {watch : Course → Occasion → Eval Unit} (ho : ℓ.Oversees watch)
    (hr : Mirroring S r r') {span : Span} {args : List Expr} (ha : S.Reads (exprsSpans args))
    (several : 2 ≤ args.length) (listed : ℓ.naming.lists S.here.unit span = true) :
    Mirrors S w p
      (Run.returnWith (fun e => do
        let v ← r.expr e
        watch S.course (.returning span v)
        return v) args)
      (Run.returnWith r'.expr [.array (span.moved S.place) (exprsMoved S.place args)]) := by
  obtain ⟨r'', literal, evaluates⟩ := hr.lists _ _ listed
  have single : Run.returnWith r'.expr [.array (span.moved S.place) (exprsMoved S.place args)] =
      ((exprsMoved S.place args).mapM fun e => do Eval.copy (← r''.expr e)) >>= fun vs =>
        Eval.newArray vs >>= fun v => pure (.returned v) := by
    simp only [Run.returnWith, List.mapM_cons, List.mapM_nil, literal, Run.arrayLiteral, bind_assoc,
      pure_bind]
    rfl
  rw [Run.returnWith_several _ several, single]
  refine (mirrors_exprsWith ha fun e w' he => ?_).bind fun vs w₁ _ _ hvs => ?_
  · refine ((evaluates S.self S.here w' e he).mono fun _ => trivial).bind fun v w₂ _ _ hv => ?_
    refine .ask ho (fun _ h => by cases h) (fun _ => trivial) fun passes => ?_
    have leaf : (v.recast ℓ.naming.recast).container? = none := by
      rw [Value.recast_container?]
      exact passes listed
    rw [show Carried.carry ℓ.naming.recast v = v.recast ℓ.naming.recast from rfl,
      Eval.copy_of_container? leaf]
    exact .pure hv
  · refine (Mirrors.newArray hvs).bind fun v w₂ _ _ hv => ?_
    exact .pure (a := Flow.returned v) fun u hu => by cases hu; exact hv

/-- An expression as a statement, unless it returns something. -/
theorem mirrors_exprStmt (hr : Mirroring S r r') {e : Expr} (he : S.Reads e.spans) :
    Mirrors S w p (Run.exprStmt r e) (Run.exprStmt r' (e.moved S.place)) := by
  have plain : Mirrors S w p (discard (r.expr e) >>= fun _ => (pure .normal : Eval Flow))
      (discard (r'.expr (e.moved S.place)) >>= fun _ => pure .normal) :=
    (hr.expr_here he).discard.finish
  cases e with
  | magic span word args =>
    simp only [Expr.spans, Stand.Reads, List.mem_cons] at he
    cases word with
    | returns =>
      rw [Expr.moved, Run.exprStmt_returns, Run.exprStmt_returns]
      exact mirrors_returnWith (fun s hs => he s (.inr hs)) fun _ _ he => hr.expr_here he
    | breaks => exact .pure (a := Flow.broke) (Flow.good_of_not_returned rfl)
    | continues => exact .pure (a := Flow.continued) (Flow.good_of_not_returned rfl)
    | _ => exact plain
  | _ => exact plain

/-- No fault that comes out of a `TRY` is waited for. -/
theorem mirrors_attemptWith {tried : Recursor} (hr : Mirroring S r r')
    (ht : Mirroring (S.during S.course.trying) tried r') {body rescue : Block}
    (hb : S.Reads body.spans) (hc : S.Reads rescue.spans) :
    Mirrors S w p (Run.attemptWith tried r body rescue)
      (Run.attempt r' (ℓ.naming.block S.here.unit body) (ℓ.naming.block S.here.unit rescue)) := by
  refine .tryCatchIn (q := True) (c := S.course.trying) rfl rfl rfl (fun f w' expected => ?_)
    (ht.block_here hb) fun f f' w' _ _ alike located => ?_
  · exact absurd (ℓ.expectation.untried _ _ expected) (Bool.false_ne_true ∘ Eq.symm)
  · dsimp only
    rw [alike.catchable]
    split
    · exact hr.block_here hc
    · exact .raise alike fun hs _ => located hs trivial

/-! ## Statements -/

section Statements

variable {watch : Course → Occasion → Eval Unit} {machines : Course → Recursor}

/-- An `IMPORT` statement. -/
def Imports (S : Stand ℓ) (watch : Course → Occasion → Eval Unit) (machines : Course → Recursor)
    (r' : Recursor) : Prop :=
  ∀ (span : Span) (location : Expr) (nickname : String) (w : World), S.Admits span →
    S.Reads location.spans →
      Mirrors S w True
        (Run.loadWith (Run.overseenImport watch machines S.course span) (machines S.course) span
          location nickname)
        (Run.load r' (span.moved S.place) (location.moved S.place) nickname)

/-- An expression as a statement.  Only `RETURN` is overseen, and listed. -/
theorem mirrors_overseenExpr (ho : ℓ.Oversees watch) (hr : Mirroring S (machines S.course) r')
    {n m : Nat} {e : Expr} (he : S.Reads e.spans) :
    Mirrors S w p (Run.overseenStmt watch machines S.course n (.expr e))
      (Run.stmt r' (Run.load r') m (ℓ.naming.stmt S.here.unit (.expr e))) := by
  have plain : Mirrors S w p (Run.exprStmt (machines S.course) e)
      (Run.exprStmt r' (e.moved S.place)) := mirrors_exprStmt hr he
  cases e with
  | magic span word args =>
    cases word with
    | returns =>
      simp only [Expr.spans, Stand.Reads, List.mem_cons] at he
      have ha : S.Reads (exprsSpans args) := fun t h => he t (.inr h)
      simp only [Run.overseenStmt, Renaming.stmt, Stmt.listed, Expr.listed, Stmt.moved, Run.stmt]
      split
      next few =>
        rw [if_neg fun h => absurd h.2 (Nat.not_le_of_lt few)]
        exact plain
      next several =>
        split
        next listed => exact mirrors_listed ho hr ha listed.2 listed.1
        next =>
          refine mirrors_returnWith ha fun e w he => ?_
          rw [← bind_pure (r'.expr (e.moved S.place))]
          refine (hr.expr_here he).bind fun v w₁ _ _ hv => ?_
          exact .ask ho (fun _ h => by cases h) (fun _ => trivial) fun _ => .pure hv
    | _ => exact plain
  | _ => exact plain

/-- The definition of a subroutine binds its name. -/
theorem mirrors_routine {d : Routine} (hd : S.Reads d.spans) :
    Mirrors S w p
      (Run.closure d none >>= fun v => Eval.bindSelf d.span d.name v >>= fun _ => pure Flow.normal)
      (Run.closure (ℓ.naming.routine S.here.unit d) none >>= fun v =>
        Eval.bindSelf (ℓ.naming.routine S.here.unit d).span (ℓ.naming.routine S.here.unit d).name v >>=
          fun _ => pure Flow.normal) := by
  have name : (ℓ.naming.routine S.here.unit d).name = d.name := by cases d; rfl
  have span : (ℓ.naming.routine S.here.unit d).span = d.span.moved S.place := by cases d; rfl
  have mem : d.span ∈ d.spans := by
    cases d
    exact List.mem_cons_self
  rw [name, span]
  refine (mirrors_closure (t := none) hd fun _ h => by cases h).bind fun v w₁ _ _ hv => ?_
  exact (Mirrors.bindSelf (.inl (hd _ mem)) d.name hv).finish

theorem mirrors_stmt (ho : ℓ.Oversees watch) (hr : Mirroring S (machines S.course) r')
    (ht : Mirroring (S.during S.course.trying) (machines S.course.trying) r')
    (hl : Imports S watch machines r') {n m : Nat} (hn : ℓ.Rounds n m) {s : Stmt}
    (hs : S.Reads s.spans) :
    Mirrors S w p (Run.overseenStmt watch machines S.course n s)
      (Run.stmt r' (Run.load r') m (ℓ.naming.stmt S.here.unit s)) := by
  cases s with
  | expr e =>
    rw [Stmt.spans] at hs
    exact mirrors_overseenExpr ho hr hs
  | assign a =>
    exact (mirrors_assign hr hs).finish
  | subroutine d => exact mirrors_routine hs
  | branch b => exact mirrors_branch hr n m b w hn hs
  | whileLoop span condition body =>
    simp only [Stmt.spans, Stand.Reads, List.mem_cons, List.mem_append] at hs
    exact mirrors_whileLoop hr (fun t h => hs t (.inr (.inl h))) (fun t h => hs t (.inr (.inr h))) n m w hn
  | repeatLoop span body condition =>
    simp only [Stmt.spans, Stand.Reads, List.mem_cons, List.mem_append] at hs
    exact mirrors_repeatLoop hr (fun t h => hs t (.inr (.inr h))) (fun t h => hs t (.inr (.inl h))) n m w hn
  | forRange span name first last step body =>
    simp only [Stmt.spans, Stand.Reads, List.mem_cons, List.mem_append] at hs
    exact mirrors_forRange hr (.inl (hs span (.inl rfl))) name
      (fun t h => hs t (.inr (.inl (.inl (.inl h))))) (fun t h => hs t (.inr (.inl (.inl (.inr h)))))
      (fun t h => hs t (.inr (.inl (.inr h)))) fun t h => hs t (.inr (.inr h))
  | forEach span name iterable body =>
    simp only [Stmt.spans, Stand.Reads, List.mem_cons, List.mem_append] at hs
    exact mirrors_forEach hr (.inl (hs span (.inl rfl))) name (fun t h => hs t (.inr (.inl h)))
      fun t h => hs t (.inr (.inr h))
  | record span name fields =>
    refine (Mirrors.newRecordType ⟨name, fields⟩).bind fun t w₁ _ _ ht => ?_
    exact (Mirrors.bindSelf (.inl (hs span List.mem_cons_self)) name ht).finish
  | classDef span name fields routines =>
    simp only [Stmt.spans, Stand.Reads, List.mem_cons, List.mem_append] at hs
    refine (mirrors_defineClass hr (.inl (hs span (.inl rfl))) name (fun t h => hs t (.inr (.inl h)))
      fun t h => hs t (.inr (.inr h))).finish
  | attempt span body rescue =>
    simp only [Stmt.spans, Stand.Reads, List.mem_cons, List.mem_append] at hs
    exact mirrors_attemptWith hr ht (fun t h => hs t (.inr (.inl h))) fun t h => hs t (.inr (.inr h))
  | load span location nickname =>
    simp only [Stmt.spans, Stand.Reads, List.mem_cons] at hs
    have loaded := hl span location nickname w (hs span (.inl rfl)) fun t h => hs t (.inr h)
    exact (loaded.mono fun _ => trivial).finish

theorem mirrors_stmts (ho : ℓ.Oversees watch) (hr : Mirroring S (machines S.course) r')
    (ht : Mirroring (S.during S.course.trying) (machines S.course.trying) r')
    (hl : Imports S watch machines r') {n m : Nat} (hn : ℓ.Rounds n m) :
    ∀ (ss : List Stmt) (w : World), S.Reads (stmtsSpans ss) →
      Mirrors S w p (Run.stmtsWith (Run.overseenStmt watch machines S.course n) ss)
        (Run.stmts r' (Run.load r') m
          (stmtsMoved S.place (stmtsListed (ℓ.naming.lists S.here.unit) ss)))
  | [], _, _ => .normal
  | s :: ss, w, hs => by
    rw [stmtsSpans] at hs
    refine (mirrors_stmt ho hr ht hl hn fun t h => hs t (List.mem_append_left _ h)).bind
      fun flow w₁ _ _ hflow => ?_
    cases flow with
    | normal =>
      exact mirrors_stmts ho hr ht hl hn ss w₁ fun t h => hs t (List.mem_append_right _ h)
    | returned v => exact .pure (a := Flow.returned v) hflow
    | broke => exact .pure (a := Flow.broke) (Flow.good_of_not_returned rfl)
    | continued => exact .pure (a := Flow.continued) (Flow.good_of_not_returned rfl)

end Statements

end Pseudocode
