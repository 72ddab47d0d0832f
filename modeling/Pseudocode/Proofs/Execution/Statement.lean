import Pseudocode.Proofs.Execution.Rules
import Pseudocode.Run.Call
/-
# `Proofs.Execution.Statement` — statements, calls and display forms are safe

The rules that run blocks and call values.  A subroutine call is the one place
where the context changes: its body is carried out with the caller on the stack,
by recursors that are safe there.
-/
namespace Pseudocode

variable {c : Context} {r r' : Recursor} {w : World} {E : Fault → Prop}

/-- A copy is made and stored at once, and then execution goes on. -/
theorem Safe.copyThen_bind {β : Type} {V : World → β → Prop} {v : Value} (hv : c.Good w v)
    {x : Value → Eval Unit} (hx : ∀ u, Stores c w u (x u) E) {k k' : Eval β}
    (hk : ∀ w', c.Ready w → w.Evolves c w' → Safe c w' k k' V E) :
    Safe c w (Eval.copy v >>= fun u => x u >>= fun _ => k)
      (Eval.copy v >>= fun u => x u >>= fun _ => k') V E := by
  rw [← Eval.bind_assoc, ← Eval.bind_assoc]
  exact (Safe.copyThen hv hx).bind fun _ w' hr h _ => hk w' hr h

/-! ## Assignments -/

theorem safe_tell (e : Option Event) : Safe c w (Eval.tell e) (Eval.tell e) Context.Any E := by
  obtain ⟨w', htell, hheap, hi⟩ := Eval.tell_eq e c.env w
  exact .step htell (fun _ => .other hheap hi) fun _ => trivial

/-- Every property of a module may be bound. -/
def Context.Open (c : Context) : Prop := ∀ s name, ¬ c.Spares s ∨ c.exposed s name

/-- Writes through an index chain, with something done first when it has come to the
container. -/
def Run.assignIndexedWith (first : Value → Index → Eval Unit) (r : Recursor) (t : Target)
    (v : Value) : Eval Unit := do
  let scope ← Eval.scope
  match ← Eval.inHeap (·.find? scope t.name) with
  | none => nameError t.span t.name
  | some (owner, base) =>
    let container ← walk r base t.chain.dropLast
    match t.chain.getLast? with
    | some last =>
      first container last
      writeAt r container last v
    | none => pure ()
    Eval.tell (← Eval.inHeap (·.touched? owner t.name))

theorem safe_assignIndexedWith {first first' : Value → Index → Eval Unit} (hr : Carries c r r')
    (hfirst : ∀ container last w, Safe c w (first container last) (first' container last)
      (fun _ _ => c.Opens container last) Catchable) (t : Target) {v : Value} (hv : c.Good w v) :
    Safe c w (Run.assignIndexedWith first r t v) (Run.assignIndexedWith first' r' t v) Context.Any
      Catchable := by
  refine .ready fun hrd => .look rfl (.look rfl ?_)
  split
  next => exact safe_nameError _ _
  next owner base hfind =>
    have hbase : c.Good w base := fun hc => (hrd.closed hc).findTo hfind
    refine (safe_walk hr t.chain.dropLast hbase).bind fun container w₁ _ h₁ hcont => ?_
    split
    next last _ =>
      refine (hfirst container last w₁).bind fun _ w₂ hrd₁ h₂ ho => ?_
      have hv₂ := h₂.good hrd₁ (h₁.good hrd hv)
      exact (safe_writeAt hr (h₂.good hrd₁ hcont) hv₂ ho).bind fun _ _ _ _ _ =>
        .look rfl (safe_tell _)
    next => exact .look rfl (safe_tell _)

theorem safe_assignIndexed (hr : Carries c r r') (ho : c.Open) (t : Target) {v : Value}
    (hv : c.Good w v) :
    Safe c w (Run.assignIndexed r t v) (Run.assignIndexed r' t v) Context.Any Catchable := by
  have hfirst : ∀ container last w, Safe c w (pure () : Eval Unit) (pure ())
      (fun _ _ => c.Opens container last) Catchable :=
    fun _ _ _ => .pure fun _ s _ name _ _ => ho s name
  exact safe_assignIndexedWith hr hfirst t hv

theorem safe_declare (hst : c.Stands w) (span : Span) (name : String) {v : Value}
    (hv : c.Good w v) :
    Safe c w (Run.declare span name v) (Run.declare span name v) Context.Any Catchable := by
  refine .look rfl (.look rfl ?_)
  dsimp only
  split
  · exact .failAt_bind
  next hn => exact .copyThen hv fun u => .define hst (Bool.eq_false_iff.mpr hn) true

theorem safe_bindCopy (hst : c.Stands w) (span : Span) (name : String) {v : Value} (hv : c.Good w v) :
    Safe c w (Eval.bindCopy span name v) (Eval.bindCopy span name v) Context.Any Catchable :=
  .copyThen hv fun _ => .bindSelf hst span name

theorem safe_assign (hr : Carries c r r') {a : Assignment} (ho : a.target.chain ≠ [] → c.Open) (hst : c.Stands w) :
    Safe c w (Run.assign r a) (Run.assign r' a) Context.Any Catchable := by
  refine (hr.expr a.value).bind fun v w₁ hrd h₁ hv => ?_
  have hst₁ := h₁.stands hrd hst
  split
  next hchain => exact safe_assignIndexed hr (ho (by simpa using hchain)) a.target hv
  next =>
    split
    · exact safe_declare hst₁ a.span a.target.name hv
    · exact safe_bindCopy hst₁ a.span a.target.name hv

/-! ## Choices and loops -/

theorem safe_branch (hr : Carries c r r') : ∀ (n : Nat) (b : Branch) (w : World), c.Stands w →
    Safe c w (Run.branch r n b) (Run.branch r' n b) c.GoodFlow Catchable
  | 0, _, _, _ => .outOfFuel
  | n + 1, .mk _ condition consequence alternative, w, hst => by
      refine (hr.expr condition).bind fun v w₁ hrd h₁ _ => .look rfl ?_
      have hst₁ := h₁.stands hrd hst
      split
      · exact hr.block hst₁ consequence
      · cases alternative with
        | absent => exact .pure trivial
        | elseIf next => exact safe_branch hr n next w₁ hst₁
        | elseBlock body => exact hr.block hst₁ body

theorem goodFlow_loopEnd? {flow end_ : Flow} (hflow : c.GoodFlow w flow)
    (h : Run.loopEnd? flow = some end_) : c.GoodFlow w end_ := by
  cases flow <;> cases h
  · exact hflow
  · trivial

theorem safe_whileLoop (hr : Carries c r r') (condition : Expr) (body : Block) :
    ∀ (n : Nat) (w : World), c.Stands w → Safe c w (Run.whileLoop r condition body n)
      (Run.whileLoop r' condition body n) c.GoodFlow Catchable
  | 0, _, _ => .outOfFuel
  | n + 1, w, hst => by
      refine (hr.expr condition).bind fun v w₁ hrd h₁ _ => .look rfl ?_
      have hst₁ := h₁.stands hrd hst
      split
      · refine (hr.block hst₁ body).bind fun flow w₂ hrd₁ h₂ hflow => ?_
        split
        next end_ hend => exact .pure (goodFlow_loopEnd? hflow hend)
        next => exact safe_whileLoop hr condition body n w₂ (h₂.stands hrd₁ hst₁)
      · exact .pure trivial

theorem safe_repeatLoop (hr : Carries c r r') (body : Block) (condition : Expr) :
    ∀ (n : Nat) (w : World), c.Stands w → Safe c w (Run.repeatLoop r body condition n)
      (Run.repeatLoop r' body condition n) c.GoodFlow Catchable
  | 0, _, _ => .outOfFuel
  | n + 1, w, hst => by
      refine (hr.block hst body).bind fun flow w₁ hrd h₁ hflow => ?_
      split
      next end_ hend => exact .pure (goodFlow_loopEnd? hflow hend)
      next =>
        refine (hr.expr condition).bind fun v w₂ hrd₁ h₂ _ => .look rfl ?_
        split
        · exact .pure trivial
        · exact safe_repeatLoop hr body condition n w₂ (h₂.stands hrd₁ (h₁.stands hrd hst))

theorem safe_bound (hr : Carries c r r') (e : Expr) (what : String) :
    Safe c w (Run.bound r e what) (Run.bound r' e what) Context.Any Catchable := by
  refine (hr.expr e).bind fun v w₁ _ _ _ => ?_
  split
  · exact .pure trivial
  · exact .look rfl .failAt

theorem safe_stepBound (hr : Carries c r r') (step : Option Expr) :
    Safe c w (Run.stepBound r step) (Run.stepBound r' step) Context.Any Catchable := by
  cases step with
  | none => exact .pure trivial
  | some e =>
      refine (safe_bound hr e "step").bind fun n w₁ _ _ _ => ?_
      dsimp only
      split
      · exact .failAt_bind
      · exact .pure trivial

theorem safe_rangeLoop (hr : Carries c r r') (span : Span) (name : String) (last step : Int64)
    (body : Block) : ∀ (n : Nat) (v : Int64) (w : World), c.Stands w →
      Safe c w (Run.rangeLoop r span name last step body n v)
        (Run.rangeLoop r' span name last step body n v) c.GoodFlow Catchable
  | 0, _, _, _ => .outOfFuel
  | n + 1, v, w, hst => by
      rw [Run.rangeLoop, Run.rangeLoop]
      split
      · refine (safe_bindCopy (v := .int v.toInt) hst span name fun _ => trivial).bind
          fun _ w₁ hrd h₁ _ => ?_
        have hst₁ := h₁.stands hrd hst
        refine (hr.block hst₁ body).bind fun flow w₂ hrd₁ h₂ hflow => ?_
        split
        next end_ hend => exact .pure (goodFlow_loopEnd? hflow hend)
        next =>
          split
          · exact .pure trivial
          · exact safe_rangeLoop hr span name last step body n (v + step) w₂
              (h₂.stands hrd₁ hst₁)
      · exact .pure trivial

theorem safe_forRange (hr : Carries c r r') (hst : c.Stands w) (span : Span) (name : String) (first last : Expr)
    (step : Option Expr) (body : Block) :
    Safe c w (Run.forRange r span name first last step body)
      (Run.forRange r' span name first last step body) c.GoodFlow Catchable :=
  (safe_bound hr first "start").bind fun a _ hrd h₁ _ => (safe_bound hr last "end").bind
    fun b _ hrd₁ h₂ _ => (safe_stepBound hr step).bind fun s w' hrd₂ h₃ _ =>
      safe_rangeLoop hr span name (.ofInt b) (.ofInt s) body Run.rangeRounds (.ofInt a) w'
        (h₃.stands hrd₂ (h₂.stands hrd₁ (h₁.stands hrd hst)))

theorem safe_eachLoop (hr : Carries c r r') (span : Span) (name : String) (body : Block) :
    ∀ (vs : List Value) (w : World), c.Stands w → c.AllGood w vs →
      Safe c w (Run.eachLoop r span name body vs) (Run.eachLoop r' span name body vs) c.GoodFlow
        Catchable
  | [], _, _, _ => .pure trivial
  | v :: vs, w, hst, hvs => by
      refine (safe_bindCopy hst span name (hvs v List.mem_cons_self)).bind fun _ w₁ hrd h₁ _ => ?_
      have hst₁ := h₁.stands hrd hst
      refine (hr.block hst₁ body).bind fun flow w₂ hrd₁ h₂ hflow => ?_
      split
      next end_ hend => exact .pure (goodFlow_loopEnd? hflow hend)
      next =>
        refine safe_eachLoop hr span name body vs w₂ (h₂.stands hrd₁ hst₁)
          (h₂.allGood hrd₁ (h₁.allGood hrd ?_))
        exact fun u hu => hvs u (List.mem_cons_of_mem v hu)

theorem within_items? {h : Heap} {e : Extent} (hc : h.Closed e) {v : Value} {vs : List Value}
    (hvs : Run.items? h v = some vs) : ∀ u ∈ vs, u.Within e := by
  cases v with
  | array a =>
      cases hvs
      exact fun u hu => hc.array a u (Array.mem_toList_iff.mp hu)
  | dict d =>
      cases hvs
      exact fun u hu => hc.keys d u (Array.mem_toList_iff.mp hu)
  | string s =>
      cases hvs
      exact allWithin_characters e s
  | _ => cases hvs

theorem safe_forEach (hr : Carries c r r') (hst : c.Stands w) (span : Span) (name : String) (iterable : Expr)
    (body : Block) :
    Safe c w (Run.forEach r span name iterable body) (Run.forEach r' span name iterable body)
      c.GoodFlow Catchable := by
  refine (hr.expr iterable).bind fun v w₁ hrd h₁ _ => .look rfl ?_
  split
  next vs hvs =>
    exact safe_eachLoop hr span name body vs w₁ (h₁.stands hrd hst) fun u hu hc =>
      within_items? ((h₁.ready hrd).closed hc) hvs u hu
  next => exact .look rfl .failAt

/-! ## Definitions -/

theorem safe_closure (d : Routine) (this : Option Owner) :
    Safe c w (Run.closure d this) (Run.closure d this) (fun _ v => ∃ f, v = .subroutine f) E :=
  .look rfl (.pure ⟨_, rfl⟩)

theorem safe_statics (hr : Carries c r r') (owner : ClassRef) : ∀ (as : List Assignment) (w : World),
    Safe c w (Run.statics r owner as) (Run.statics r' owner as) Context.Any Catchable
  | [], _ => .pure trivial
  | a :: as, _ =>
      (hr.expr a.value).bind fun _ _ _ _ hv =>
        .copyThen_bind hv (fun _ => .static owner a.target.name) fun w₂ _ _ =>
          safe_statics hr owner as w₂

theorem safe_methods (owner : ClassRef) : ∀ (ds : List Routine) (w : World),
    Safe c w (Run.methods owner ds) (Run.methods owner ds) Context.Any Catchable
  | [], _ => .pure trivial
  | d :: ds, w => by
      refine (safe_closure d (some (.ofClass owner))).bind fun v w₁ _ _ hv => ?_
      obtain ⟨f, rfl⟩ := hv
      exact (Safe.store (v := .subroutine f) (fun _ => trivial) rfl (.static owner d.name)).bind
        fun _ w₂ _ _ _ => safe_methods owner ds w₂

/-- A value that is no container is bound to a name. -/
theorem safe_bindSelf (hst : c.Stands w) (span : Span) (name : String) {v : Value}
    (hv : v.Plain) :
    Safe c w (Eval.bindSelf span name v) (Eval.bindSelf span name v) Context.Any Catchable :=
  .store (fun _ => hv.within) hv.container? (.bindSelf hst span name)

theorem safe_defineClass (hr : Carries c r r') (hst : c.Stands w) (span : Span) (name : String)
    (fields : List Assignment) (routines : List Routine) :
    Safe c w (Run.defineClass r span name fields routines)
      (Run.defineClass r' span name fields routines) Context.Any Catchable :=
  Safe.newClass.bind fun o w₁ hrd h₁ _ => (safe_statics hr o fields w₁).bind fun _ w₂ hrd₁ h₂ _ =>
    (safe_methods o routines w₂).bind fun _ _ hrd₂ h₃ _ =>
      safe_bindSelf (h₃.stands hrd₂ (h₂.stands hrd₁ (h₁.stands hrd hst))) span name trivial

/-! ## Signals and errors -/

theorem safe_returnValue {vs : List Value} (hvs : c.AllGood w vs) :
    Safe c w (Run.returnValue vs) (Run.returnValue vs) c.Good E := by
  match vs, hvs with
  | [], _ => exact .pure fun _ => trivial
  | [v], hvs => exact .pure (hvs v List.mem_cons_self)
  | v :: u :: vs, hvs => exact .newArray hvs

theorem safe_exprStmt (hr : Carries c r r') (e : Expr) :
    Safe c w (Run.exprStmt r e) (Run.exprStmt r' e) c.GoodFlow Catchable := by
  have hplain : Safe c w (do discard (r.expr e); return Flow.normal)
      (do discard (r'.expr e); return Flow.normal) c.GoodFlow Catchable :=
    (hr.expr e).discard.bind fun _ _ _ _ _ => .pure trivial
  cases e with
  | magic span word args =>
      cases word with
      | returns =>
          exact (hr.exprs args).bind fun vs _ _ _ hvs =>
            (safe_returnValue hvs).bind fun _ _ _ _ hv => .pure hv
      | breaks => exact .pure trivial
      | continues => exact .pure trivial
      | _ => exact hplain
  | _ => exact hplain

theorem safe_attempt (hr : Carries c r r') (hst : c.Stands w) (body rescue : Block) :
    Safe c w (Run.attempt r body rescue) (Run.attempt r' body rescue) c.GoodFlow Catchable := by
  refine .tryCatch rfl (hr.block hst body) fun e w' hrd h₁ hE => ?_
  cases e with
  | fault f =>
      dsimp only
      split
      · exact hr.block (h₁.stands hrd hst) rescue
      next hf => exact absurd (hE f rfl) hf
  | outOfFuel => exact .outOfFuel

/-! ## Statements -/

/-- Two ways of carrying out imports are safe and alike. -/
def Loads (c : Context) (load load' : Span → Expr → String → Eval Unit) : Prop :=
  ∀ span location nickname w, c.Stands w →
    Safe c w (load span location nickname) (load' span location nickname) Context.Any Catchable

/-- A statement that assigns through an index chain. -/
def Stmt.Indexed : Stmt → Prop
  | .assign a => a.target.chain ≠ []
  | _ => False

theorem safe_stmt (hr : Carries c r r') {load load' : Span → Expr → String → Eval Unit}
    (hl : Loads c load load') (n : Nat) {s : Stmt} (ho : s.Indexed → c.Open) (hst : c.Stands w) :
    Safe c w (Run.stmt r load n s) (Run.stmt r' load' n s) c.GoodFlow Catchable := by
  cases s with
  | expr e => exact safe_exprStmt hr e
  | assign a => exact (safe_assign hr ho hst).bind fun _ _ _ _ _ => .pure trivial
  | subroutine d =>
      refine (safe_closure d none).bind fun v _ hrd h₁ hv => ?_
      obtain ⟨f, rfl⟩ := hv
      exact (safe_bindSelf (v := .subroutine f) (h₁.stands hrd hst) d.span d.name trivial).bind
        fun _ _ _ _ _ => .pure trivial
  | branch b => exact safe_branch hr n b w hst
  | whileLoop _ condition body => exact safe_whileLoop hr condition body n w hst
  | repeatLoop _ body condition => exact safe_repeatLoop hr body condition n w hst
  | forRange span name first last step body =>
      exact safe_forRange hr hst span name first last step body
  | forEach span name iterable body => exact safe_forEach hr hst span name iterable body
  | record span name fields =>
      refine Safe.newRecordType.bind fun v _ hrd h₁ hv => ?_
      obtain ⟨t, rfl⟩ := hv
      exact (safe_bindSelf (v := .recordType t) (h₁.stands hrd hst) span name trivial).bind
        fun _ _ _ _ _ => .pure trivial
  | classDef span name fields routines =>
      exact (safe_defineClass hr hst span name fields routines).bind fun _ _ _ _ _ => .pure trivial
  | attempt _ body rescue => exact safe_attempt hr hst body rescue
  | load span location nickname =>
      exact (hl span location nickname w hst).bind fun _ _ _ _ _ => .pure trivial

/-! ## Calls -/

/-- The parameters of a call are bound to copies of the arguments. -/
theorem safe_bindParams (scope : ScopeRef) : ∀ (es : List (String × Value)) (w : World),
    c.AllGood w (es.map Prod.snd) →
      c.Unfixed w scope →
      Safe c w
        (forIn es PUnit.unit fun e _ => do
          let v ← Eval.copy e.2
          Eval.define scope e.1 v false
          pure (ForInStep.yield PUnit.unit))
        (forIn es PUnit.unit fun e _ => do
          let v ← Eval.copy e.2
          Eval.define scope e.1 v false
          pure (ForInStep.yield PUnit.unit)) (fun w' _ => c.Unfixed w' scope) E
  | [], _, _, hu => .pure hu
  | e :: es, w, hes, hu => by
      rw [List.forIn_cons]
      have hI := Context.Unfixed.unaffected c scope
      have hone := Safe.copyThen_bind (V := fun _ s => s = ForInStep.yield PUnit.unit) (E := E)
        (k := pure (ForInStep.yield PUnit.unit)) (hes e.2 List.mem_cons_self)
        (fun u => .define (v := u) hu.spares (hu.isConstant e.1) false) fun _ _ _ => .pure rfl
      refine (hone.keeping (I := fun w => c.Unfixed w scope) hu ?_).bind fun s w₁ hrd h₁ hs => ?_
      · exact (hI.copy e.2).bind fun v => (hI.define scope e.1 v).bind fun _ => .pure _
      · obtain ⟨rfl, hu₁⟩ := hs
        refine safe_bindParams scope es w₁ (h₁.allGood hrd fun v hv => ?_) hu₁
        exact hes v (List.mem_cons_of_mem e.2 hv)

/-- The scope of a call is a new one. -/
theorem safe_callScope (f : Subroutine) {args : List Value} (ha : c.AllGood w args) :
    Safe c w (Run.callScope f args) (Run.callScope f args) c.Unfixed E := by
  have hparams : ∀ scope w₁, c.Ready w → w.Evolves c w₁ → c.Unfixed w₁ scope →
      Safe c w₁
        (do
          forIn (f.params.zip args) PUnit.unit fun e _ => do
            let v ← Eval.copy e.2
            Eval.define scope e.1 v false
            pure (ForInStep.yield PUnit.unit)
          pure scope)
        (do
          forIn (f.params.zip args) PUnit.unit fun e _ => do
            let v ← Eval.copy e.2
            Eval.define scope e.1 v false
            pure (ForInStep.yield PUnit.unit)
          pure scope) c.Unfixed E := by
    intro scope w₁ hrd h₁ hu
    refine (safe_bindParams scope _ w₁ (h₁.allGood hrd fun v hv => ?_) hu).bind
      fun _ _ _ _ hu' => .pure hu'
    obtain ⟨e, he, rfl⟩ := List.mem_map.mp hv
    exact ha e.2 (List.of_mem_zip he).2
  refine (Safe.newScope rfl rfl).bind fun scope w₁ hrd h₁ hu => ?_
  dsimp only
  split
  next owner _ =>
    have howner : (Value.ofOwner owner).Plain := by cases owner <;> trivial
    have hthis := Safe.store (c := c) (w := w₁) (E := E) (fun _ => howner.within) howner.container?
      (.define hu.spares (hu.isConstant "this") false)
    exact (hthis.keeping (I := fun w => c.Unfixed w scope) hu
      ((Context.Unfixed.unaffected c scope).define _ _ _)).bind
      fun _ w₂ _ h₂ hu' => hparams scope w₂ hrd (h₁.trans h₂) hu'.2
  next => exact hparams scope w₁ hrd h₁ hu

theorem goodFlow_callResult {flow : Flow} (h : c.GoodFlow w flow) : c.Good w (Run.callResult flow) := by
  cases flow with
  | returned v => exact h
  | _ => exact fun _ => trivial

theorem goodFlow_setFrame {flow : Flow} (h : c.GoodFlow w flow) (id : InterpreterId) (f : Frame) :
    c.GoodFlow (w.setFrame id f) flow := by
  cases flow with
  | returned v => exact fun hc => (w.extent_setFrame id f).symm ▸ h hc
  | _ => trivial

/-- A call is safe if its body is, with the caller on the stack. -/
theorem safe_callSubroutine (hr : Carries c.push r r') (f : Subroutine) {args : List Value}
    (ha : c.AllGood w args) (span : Span) :
    Safe c w (Run.callSubroutine r f args span) (Run.callSubroutine r' f args span) c.Good
      Catchable := by
  simp only [Run.callSubroutine]
  split
  · exact .failAt_bind
  · refine .look rfl (.look rfl ?_)
    split
    · exact .failAt_bind
    next hdepth =>
      refine (safe_callScope f ha).bind fun scope w₁ hrd h₁ hu => ?_
      have hsame := h₁.depth c.env.self.index
      refine (Safe.withFrame (V := c.GoodFlow) hu.lt ?_ ?_ (fun _ _ _ _ h => goodFlow_setFrame h _ _)
        (hr.block ((h₁.ready hrd).stands_push hu.spares) f.body)).bind
          fun flow w₂ _ _ hflow => .pure (goodFlow_callResult hflow)
      · rw [hsame]
        rfl
      · rw [hsame]
        exact Nat.not_le.mp hdepth

theorem safe_buildRecord (t : RecordTypeRef) {args : List Value} (ha : c.AllGood w args)
    (span : Span) :
    Safe c w (Run.buildRecord t args span) (Run.buildRecord t args span) c.Good Catchable := by
  refine .look rfl ?_
  dsimp only
  split
  · exact .failAt_bind
  · exact .newRecord ha rfl

theorem safe_instantiate (hr : Carries c r r') (o : ClassRef) {args : List Value}
    (ha : c.AllGood w args) (span : Span) :
    Safe c w (Run.instantiate r o args span) (Run.instantiate r' o args span) c.Good Catchable := by
  refine Safe.newInstance.bind fun p w₁ hrd h₁ _ => .look rfl ?_
  dsimp only
  split
  next init hinit =>
    refine (hr.call (fun hc => ?_) (h₁.allGood hrd ha) span).discard.bind fun _ _ _ _ _ =>
      .pure fun _ => trivial
    exact (((h₁.ready hrd).closed hc).object p).get? hinit
  next =>
    split
    · exact .look rfl .failAt_bind
    · exact .pure fun _ => trivial

/-- Calls of anything but a subroutine. -/
theorem safe_call (hr : Carries c r r') {native native' : Builtin → List Value → Eval Value}
    {callee : Value} {args : List Value} (hf : c.Good w callee) (ha : c.AllGood w args)
    (hsub : ∀ f, callee ≠ .subroutine f)
    (hn : ∀ b, c.Good w (.builtin b) → Safe c w (native b args) (native' b args) c.Good AnyFault)
    (span : Span) :
    Safe c w (Run.call r native callee args span) (Run.call r' native' callee args span) c.Good
      Catchable := by
  cases callee with
  | subroutine f => exact absurd rfl (hsub f)
  | builtin b => exact .placed (hn b hf)
  | recordType t => exact safe_buildRecord t ha span
  | classType o => exact safe_instantiate hr o ha span
  | none => exact .failAt
  | _ => exact .look rfl .failAt

/-! ## Display forms -/

theorem good_displayMethod? (hrd : c.Ready w) {v m : Value} {name : String}
    (hm : Run.displayMethod? w.heap v name = some m) : c.Good w m := by
  intro hc
  cases v with
  | classType o => exact ((hrd.closed hc).classType o).get? hm
  | object o => exact ((hrd.closed hc).object o).get? hm
  | _ => cases hm

theorem safe_callDisplay (hr : Carries c r r') {m : Value} (hm : c.Good w m) :
    Safe c w (Run.callDisplay r m) (Run.callDisplay r' m) Context.Any Catchable := by
  refine (hr.call hm (c.allGood_nil w) .nowhere).bind fun v w₁ _ _ hv => ?_
  split
  · exact .pure trivial
  · exact hr.str hv

theorem safe_reprElements (hr : Carries c r r') (a : ArrayRef) :
    Safe c w (Run.reprElements r a) (Run.reprElements r' a) Context.Any Catchable := by
  refine .look rfl (.weaken (.mapM (V := Context.Any) (fun _ _ _ _ _ _ => trivial) _ w
    fun i _ w₁ hrd h₁ => ?_) fun _ _ _ => trivial)
  refine .look rfl (hr.repr fun hc => Value.within_getD fun v hv => ?_)
  exact (((h₁.ready hrd).closed hc).slots a).seen? hv

theorem safe_reprEntries (hr : Carries c r r') (d : DictRef) :
    Safe c w (Run.reprEntries r d) (Run.reprEntries r' d) Context.Any Catchable := by
  refine .look rfl (.weaken (.mapM (V := Context.Any) (fun _ _ _ _ _ _ => trivial) _ w
    fun i _ w₁ hrd h₁ => ?_) fun _ _ _ => trivial)
  refine .look rfl ((hr.repr fun hc => Value.within_getD fun k hk => ?_).bind
    fun _ w₂ hrd₁ h₂ _ => .look rfl ((hr.repr fun hc => ?_).bind fun _ _ _ _ _ => .pure trivial))
  · exact Value.within_of_hashable ((((h₁.ready hrd).closed hc).dict d).keys.seen? hk)
  · exact getD_of_forall (((h₂.ready hrd₁).closed hc).dict d).values trivial

theorem safe_strContainer (hr : Carries c r r') (v : Value) :
    Safe c w (Run.strContainer r v) (Run.strContainer r' v) Context.Any Catchable := by
  cases v with
  | array a => exact (safe_reprElements hr a).bind fun _ _ _ _ _ => .pure trivial
  | dict d => exact (safe_reprEntries hr d).bind fun _ _ _ _ _ => .pure trivial
  | _ => exact .step rfl (fun _ => .refl c w) fun _ => trivial

theorem safe_str (hr : Carries c r r') (v : Value) :
    Safe c w (Run.str r v) (Run.str r' v) Context.Any Catchable := by
  refine .ready fun hrd => .look rfl ?_
  split
  next m hm => exact safe_callDisplay hr (good_displayMethod? hrd hm)
  next => exact safe_strContainer hr v

theorem safe_repr (hr : Carries c r r') (v : Value) :
    Safe c w (Run.repr r v) (Run.repr r' v) Context.Any Catchable := by
  simp only [Run.repr]
  split
  · exact .pure trivial
  · refine .ready fun hrd => .look rfl ?_
    split
    next m hm => exact safe_callDisplay hr (good_displayMethod? hrd hm)
    next => exact safe_str hr _

end Pseudocode
