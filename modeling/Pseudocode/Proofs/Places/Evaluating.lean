import Pseudocode.Proofs.Places.Changing
import Pseudocode.Run.Expr
/-
# `Proofs.Places.Evaluating` — evaluating expressions, mirrored

`Mirroring S r r'` says that a recursor does in worlds renamed, on code moved, what another
one does, on any interpreter and out of any source unit that can be reached from a stand.
Every rule of execution hands its sub-tasks to a recursor, and is mirrored if that recursor
is; there is one lemma for each rule, and each follows the definition of the rule from step
to step.  Here are those for index chains and for expressions.
-/
namespace Pseudocode

variable {ℓ : Likeness}

/-- Code with these spans may be executed. -/
def Stand.Reads (S : Stand ℓ) (spans : List Span) : Prop := ∀ s ∈ spans, S.Admits s

/-- Expressions are evaluated alike. -/
def Evaluates (S : Stand ℓ) (r r' : Recursor) : Prop :=
  ∀ (id : InterpreterId) (o : Origin) (w : World) (e : Expr), (S.on id o).Reads e.spans →
    Mirrors (S.on id o) w True (r.expr e) (r'.expr (e.moved (S.on id o).place))

/-- Two recursors carry out tasks alike, on any interpreter and out of any unit. -/
structure Mirroring (S : Stand ℓ) (r r' : Recursor) : Prop where
  expr : Evaluates S r r'
  block : ∀ (id : InterpreterId) (o : Origin) (w : World) (b : Block), (S.on id o).Reads b.spans →
    Mirrors (S.on id o) w True (r.block b) (r'.block (ℓ.naming.block o.unit b))
  call : ∀ (id : InterpreterId) (o : Origin) (w : World) (p : Prop) (callee : Value)
    (args : List Value) (span : Span), (S.on id o).Allows p span → (S.realm w).Holds callee →
    (∀ v ∈ args, (S.realm w).Holds v) →
      Mirrors (S.on id o) w p (r.call callee args span)
        (r'.call (callee.recast ℓ.naming.recast) (args.map (Value.recast ℓ.naming.recast))
          (span.moved (S.on id o).place))
  str : ∀ (id : InterpreterId) (o : Origin) (w : World) (v : Value), (S.realm w).Holds v →
    Mirrors (S.on id o) w False (r.str v) (r'.str (v.recast ℓ.naming.recast))
  repr : ∀ (id : InterpreterId) (o : Origin) (w : World) (v : Value), (S.realm w).Holds v →
    Mirrors (S.on id o) w False (r.repr v) (r'.repr (v.recast ℓ.naming.recast))
  /-- Where returns are listed, array literals are evaluated alike as well. -/
  lists : ∀ u s, ℓ.naming.lists u s = true → ∃ r'' : Recursor,
    (∀ t es, r'.expr (.array t es) = Run.arrayLiteral r'' es) ∧ Evaluates S r r''

variable {S : Stand ℓ} {w : World} {p : Prop} {r r' : Recursor}

namespace Mirroring

theorem expr_here (hr : Mirroring S r r') {e : Expr} (he : S.Reads e.spans) :
    Mirrors S w p (r.expr e) (r'.expr (e.moved S.place)) :=
  (hr.expr S.self S.here w e he).mono fun _ => trivial

theorem block_here (hr : Mirroring S r r') {b : Block} (hb : S.Reads b.spans) :
    Mirrors S w p (r.block b) (r'.block (ℓ.naming.block S.here.unit b)) :=
  (hr.block S.self S.here w b hb).mono fun _ => trivial

theorem call_here (hr : Mirroring S r r') {callee : Value} {args : List Value} {span : Span}
    (hs : S.Allows p span) (hf : (S.realm w).Holds callee) (ha : ∀ v ∈ args, (S.realm w).Holds v) :
    Mirrors S w p (r.call callee args span)
      (r'.call (callee.recast ℓ.naming.recast) (args.map (Value.recast ℓ.naming.recast))
        (span.moved S.place)) :=
  hr.call S.self S.here w p callee args span hs hf ha

theorem str_here (hr : Mirroring S r r') {v : Value} (hv : (S.realm w).Holds v) :
    Mirrors S w False (r.str v) (r'.str (v.recast ℓ.naming.recast)) :=
  hr.str S.self S.here w v hv

theorem repr_here (hr : Mirroring S r r') {v : Value} (hv : (S.realm w).Holds v) :
    Mirrors S w False (r.repr v) (r'.repr (v.recast ℓ.naming.recast)) :=
  hr.repr S.self S.here w v hv

end Mirroring

theorem exprsMoved_eq_map (f : Position → Position) (es : List Expr) :
    exprsMoved f es = es.map (Expr.moved f) := by
  induction es with
  | nil => rfl
  | cons e es ih => rw [exprsMoved, ih, List.map_cons]

theorem mem_exprsSpans {es : List Expr} {e : Expr} (he : e ∈ es) {s : Span} (hs : s ∈ e.spans) :
    s ∈ exprsSpans es := by
  induction es with
  | nil => cases he
  | cons d es ih =>
    rw [exprsSpans, List.mem_append]
    rcases List.mem_cons.mp he with rfl | he
    · exact .inl hs
    · exact .inr (ih he)

/-- Expressions are evaluated in order, each in the same way. -/
theorem mirrors_exprsWith {α : Type} [Carried α] {f g : Expr → Eval α} {es : List Expr}
    (hes : S.Reads (exprsSpans es))
    (hf : ∀ e w', S.Reads e.spans → Mirrors S w' p (f e) (g (e.moved S.place))) :
    Mirrors S w p (es.mapM f) ((exprsMoved S.place es).mapM g) := by
  rw [exprsMoved_eq_map, List.mapM_map]
  exact .mapM es fun e he w' _ _ => hf e w' fun s hs => hes s (mem_exprsSpans he hs)

theorem mirrors_exprs (hr : Mirroring S r r') {es : List Expr} (hes : S.Reads (exprsSpans es)) :
    Mirrors S w p (r.exprs es) (r'.exprs (exprsMoved S.place es)) :=
  mirrors_exprsWith hes fun _ _ he => hr.expr_here he

def Index.moved (f : Position → Position) : Index → Index
  | .subscript s key => .subscript (s.moved f) (key.moved f)
  | .property s name => .property (s.moved f) name

theorem chainMoved_eq_map (f : Position → Position) (chain : List Index) :
    chainMoved f chain = chain.map (Index.moved f) := by
  induction chain with
  | nil => rfl
  | cons i chain ih => cases i <;> rw [chainMoved, ih, List.map_cons, Index.moved]

theorem chainSpans_cons (i : Index) (chain : List Index) :
    chainSpans (i :: chain) = chainSpans [i] ++ chainSpans chain := by
  cases i <;> simp

theorem Expr.span_mem (e : Expr) : e.span ∈ e.spans := by
  cases e <;> simp [Expr.span]

/-! ## Index chains -/

theorem Realm.carries_builtinMethod? {R : Realm} {v : Value} (hv : R.Holds v) {name : String}
    {a : Native} (ha : builtinMethod? v name = some a) : R.Carries a := by
  cases v with
  | array r =>
    simp only [builtinMethod?, arrayMethod?] at ha
    split at ha <;> cases ha <;> exact hv
  | dict r =>
    simp only [builtinMethod?, dictMethod?] at ha
    split at ha <;> cases ha <;> exact hv
  | string s =>
    simp only [builtinMethod?, stringMethod?] at ha
    split at ha <;> cases ha <;> trivial
  | _ => cases ha

theorem Heap.common_item {h : Heap} {v key : Value} {t : Trouble} (ht : h.item v key = .error t) :
    t.Common := by
  cases v with
  | array r =>
    simp only [Heap.item] at ht
    cases hp : position (h.typeName key) key (h.slots r).size "array" with
    | error e =>
      rw [hp] at ht
      cases ht
      exact common_position hp
    | ok p => rw [hp] at ht; cases ht
  | string s =>
    simp only [Heap.item] at ht
    cases hp : position (h.typeName key) key s.toList.length "string" with
    | error e =>
      rw [hp] at ht
      cases ht
      exact common_position hp
    | ok p => rw [hp] at ht; cases ht
  | dict r =>
    simp only [Heap.item] at ht
    split at ht
    · cases ht
      exact .of rfl
    · cases hg : (h.dict r).get? key <;> rw [hg] at ht <;> cases ht
      exact .of rfl
  | _ =>
    cases ht
    exact .of rfl

theorem mirrors_property {v : Value} (hv : (S.realm w).Holds v) (name : String) (hp : ¬ p) :
    Mirrors S w p (Eval.property v name) (Eval.property (v.recast ℓ.naming.recast) name) := by
  refine .ready fun ready => .inHeap ?_
  rw [Heap.storedProperty?_recast]
  cases found : w.heap.storedProperty? v name with
  | some u => exact .pure (ready.tame.storedProperty? hv found)
  | none =>
    dsimp only [Option.map_none]
    rw [Value.builtinMethod?_recast]
    cases method : builtinMethod? v name with
    | some a => exact .newBuiltin name (Realm.carries_builtinMethod? hv method)
    | none =>
      refine .inHeap ?_
      rw [Heap.noProperty_recast]
      refine .fail hp ?_
      cases v <;> exact .of rfl

theorem mirrors_step (hr : Mirroring S r r') {v : Value} (hv : (S.realm w).Holds v) {i : Index}
    (hi : S.Reads (chainSpans [i])) :
    Mirrors S w p (Run.step r v i) (Run.step r' (v.recast ℓ.naming.recast) (i.moved S.place)) := by
  cases i with
  | subscript span key =>
    simp only [chainSpans, Stand.Reads, List.mem_cons, List.append_nil] at hi
    refine (hr.expr_here fun s hs => hi s (.inr hs)).bind fun k w₁ ready steps hk => .inHeap ?_
    rw [show Carried.carry ℓ.naming.recast k = k.recast ℓ.naming.recast from rfl, Heap.item_recast]
    refine .ofExceptAt (.inl (hi span (.inl rfl))) ?_
    cases item : w₁.heap.item v k with
    | ok x => exact ready.tame.item (steps.holds hv) item
    | error t => exact Heap.common_item item
  | property span name =>
    exact .placed (q := False) (.inl (hi span List.mem_cons_self)) (mirrors_property hv name id)

theorem mirrors_walk (hr : Mirroring S r r') (chain : List Index) {v : Value}
    (hv : (S.realm w).Holds v) (hc : S.Reads (chainSpans chain)) :
    Mirrors S w p (Run.walk r v chain)
      (Run.walk r' (v.recast ℓ.naming.recast) (chainMoved S.place chain)) := by
  rw [chainMoved_eq_map]
  induction chain generalizing w v with
  | nil => exact .pure hv
  | cons i chain ih =>
    rw [chainSpans_cons] at hc
    simp only [Run.walk, List.map_cons, List.foldlM_cons]
    refine (mirrors_step hr hv fun s hs => hc s (List.mem_append_left _ hs)).bind
      fun u w₁ _ _ hu => ?_
    exact ih hu fun s hs => hc s (List.mem_append_right _ hs)

theorem mirrors_setProperty {container v : Value} (hcontainer : (S.realm w).Holds container)
    (name : String) (hv : (S.realm w).Holds v) (hp : ¬ p) :
    Mirrors S w p (Eval.setProperty container name v)
      (Eval.setProperty (container.recast ℓ.naming.recast) name (v.recast ℓ.naming.recast)) := by
  have refused : Mirrors S w p
      (Eval.inHeap (·.typeName container) >>= fun type =>
        (Eval.fail (.type s!"cannot set property '{name}' on '{type}'") : Eval Unit))
      (Eval.inHeap (·.typeName (container.recast ℓ.naming.recast)) >>= fun type =>
        Eval.fail (.type s!"cannot set property '{name}' on '{type}'")) := by
    refine .inHeap ?_
    rw [Heap.typeName_recast]
    exact .fail hp (.of rfl)
  cases container with
  | object r =>
    refine .changeHeap (fun t => t.modifyObject r fun _ ho => ho.put hv)
      { Marks.Kept.refl _ _ with objects := Store.kept_modify hcontainer _ } ?_
    exact (Heap.recast_modifyObject _ r fun o => by
      simp only [Object.recast, Table.recast_put]).symm
  | classType r =>
    refine .changeHeap (fun t => t.modifyClass r fun _ hc => hc.put hv)
      { Marks.Kept.refl _ _ with classes := Store.kept_modify hcontainer _ } ?_
    exact (Heap.recast_modifyClass _ r fun c => by
      simp only [Class.recast, Table.recast_put]).symm
  | record r =>
    refine .inHeap ?_
    rw [Heap.record_recast, Heap.recordType_recast]
    change Mirrors S w p (if (w.heap.recordType (w.heap.record r).type).fields.contains name then _ else _)
      (if (w.heap.recordType (w.heap.record r).type).fields.contains name then _ else _)
    split
    · refine .changeHeap (fun t => t.modifyRecord r fun _ hq => hq.put hv)
        { Marks.Kept.refl _ _ with records := Store.kept_modify hcontainer _ } ?_
      exact (Heap.recast_modifyRecord _ r fun q => by
        simp only [Record.recast, Table.recast_put]).symm
    · exact .fail hp (.of rfl)
  | module m s => exact .assign hcontainer name hv hp
  | _ => exact refused

theorem mirrors_writeAt (hr : Mirroring S r r') {container v : Value}
    (hcontainer : (S.realm w).Holds container) {last : Index} (hl : S.Reads (chainSpans [last]))
    (hv : (S.realm w).Holds v) :
    Mirrors S w p (Run.writeAt r container last v)
      (Run.writeAt r' (container.recast ℓ.naming.recast) (last.moved S.place)
        (v.recast ℓ.naming.recast)) := by
  cases last with
  | subscript span key =>
    simp only [chainSpans, Stand.Reads, List.mem_cons, List.append_nil] at hl
    refine (hr.expr_here fun s hs => hl s (.inr hs)).bind fun k w₁ _ steps hk => ?_
    refine (Mirrors.copy (steps.holds hv)).bind fun c w₂ _ more hc => ?_
    refine .ofHeapOpAt (.inl (hl span (.inl rfl))) fun _ => ?_
    exact turns_setItem (more.holds (steps.holds hcontainer)) hc
  | property span name =>
    refine (Mirrors.copy hv).bind fun c w₁ _ steps hc => ?_
    exact .placed (q := False) (.inl (hl span List.mem_cons_self))
      (mirrors_setProperty (steps.holds hcontainer) name hc id)

/-! ## Names -/

theorem mirrors_nameError {α : Type} [Carried α] {span : Span} (hs : S.Allows p span)
    (name : String) :
    Mirrors S w p (Run.nameError (α := α) span name)
      (Run.nameError (span.moved S.place) name) := by
  refine .scope (.inHeap ?_)
  rw [Heap.visibleNames_recast]
  refine .diagnose (.raise (.runtime ?_) fun _ => hs.lined)
  exact hs.like (d := { Diagnostic.error Code.name.text .nowhere s!"name '{name}' is not defined" with
    hint := _ }) (Trouble.Common.text (t := ⟨.name, ""⟩) (.of rfl))

theorem mirrors_named (hr : Mirroring S r r') {span : Span} (hs : S.Allows p span) (name : String)
    {chain : List Index} (hc : S.Reads (chainSpans chain)) :
    Mirrors S w p (Run.named r span name chain)
      (Run.named r' (span.moved S.place) name (chainMoved S.place chain)) := by
  refine .ready fun ready => .scope (.inHeap ?_)
  rw [Heap.lookup?_recast]
  cases found : w.heap.lookup? (w.row S.self.index).frame.scope name with
  | some v => exact mirrors_walk hr chain (ready.tame.lookup? ready.row.scope found) hc
  | none => exact mirrors_nameError hs name

/-! ## Operators and literals -/

theorem mirrors_binary (hr : Mirroring S r r') {span : Span} (hs : S.Allows p span) (op : BinaryOp)
    {left right : Expr} (hl : S.Reads left.spans) (ht : S.Reads right.spans) :
    Mirrors S w p (Run.binary r span op left right)
      (Run.binary r' (span.moved S.place) op (left.moved S.place) (right.moved S.place)) := by
  refine (hr.expr_here hl).bind fun l w₁ _ _ hl => ?_
  have operate : ∀ op, Mirrors S w₁ p
      (r.expr right >>= fun v => Eval.ofHeapOpAt span (binaryOp op l v))
      (r'.expr (right.moved S.place) >>= fun v =>
        Eval.ofHeapOpAt (span.moved S.place) (binaryOp op (l.recast ℓ.naming.recast) v)) := fun op =>
    (hr.expr_here ht).bind fun v w₂ _ steps hv =>
      .ofHeapOpAt hs fun _ => turns_binaryOp op (steps.holds hl) hv
  cases op with
  | and =>
    refine .inHeap ?_
    rw [show Carried.carry ℓ.naming.recast l = l.recast ℓ.naming.recast from rfl, Heap.truthy_recast]
    split
    · exact hr.expr_here ht
    · exact .pure hl
  | or =>
    refine .inHeap ?_
    rw [show Carried.carry ℓ.naming.recast l = l.recast ℓ.naming.recast from rfl, Heap.truthy_recast]
    split
    · exact .pure hl
    · exact hr.expr_here ht
  | _ => exact operate _

theorem mirrors_unary (hr : Mirroring S r r') {span : Span} (hs : S.Allows p span) (op : UnaryOp)
    {operand : Expr} (ho : S.Reads operand.spans) :
    Mirrors S w p (Run.unary r span op operand)
      (Run.unary r' (span.moved S.place) op (operand.moved S.place)) := by
  refine (hr.expr_here ho).bind fun v w₁ _ _ hv => .inHeap ?_
  rw [show Carried.carry ℓ.naming.recast v = v.recast ℓ.naming.recast from rfl, Heap.unaryOp_recast]
  have leaf := LeafResult.unaryOp w₁.heap op v
  have good : Carried.Good (S.realm w₁) (unaryOp w₁.heap op v) := by
    cases result : unaryOp w₁.heap op v with
    | ok u => rw [result] at leaf; exact Value.Leaf.holds leaf
    | error t => rw [result] at leaf; exact leaf
  have same : (unaryOp w₁.heap op v).map (Carried.carry ℓ.naming.recast) = unaryOp w₁.heap op v :=
    leaf.map_recast
  have ends := Mirrors.ofExceptAt (w := w₁) hs good
  rwa [same] at ends

theorem mirrors_arrayLiteral {es : List Expr} (he : Evaluates S r r')
    (hes : S.Reads (exprsSpans es)) :
    Mirrors S w p (Run.arrayLiteral r es) (Run.arrayLiteral r' (exprsMoved S.place es)) := by
  refine (mirrors_exprsWith hes fun e w' reads => ?_).bind fun vs w₁ _ _ hvs => .newArray hvs
  exact ((he S.self S.here w' e reads).mono fun _ => trivial).bind fun v w₂ _ _ hv => .copy hv

theorem mirrors_addEntries (hr : Mirroring S r r') : ∀ (es : List Entry) {d : Dictionary} {w : World},
    d.All (S.realm w).Holds → S.Reads (entriesSpans es) →
      Mirrors S w p (Run.addEntries r d es)
        (Run.addEntries r' (d.recast ℓ.naming.recast) (entriesMoved S.place es))
  | [], _, _, hd, _ => .pure hd
  | .mk key value :: es, d, w, hd, hes => by
    simp only [entriesSpans, Stand.Reads, List.mem_append] at hes
    refine (hr.expr_here fun s hs => hes s (.inl (.inl hs))).bind fun k w₁ _ steps hk => ?_
    refine (hr.expr_here fun s hs => hes s (.inl (.inr hs))).bind fun v w₂ _ more hv => ?_
    refine (Mirrors.copy hv).bind fun c w₃ _ rest hc => ?_
    have kept : d.All (S.realm w₃).Holds :=
      hd.mono fun _ => ((steps.trans more).trans rest).holds
    have inserted := Dictionary.recast_insert? (ρ := ℓ.naming.recast) d k c
    simp only [Carried.carry]
    rw [inserted]
    cases into : d.insert? k c with
    | some d' => exact mirrors_addEntries hr es (kept.insert? hc into) fun s hs => hes s (.inr hs)
    | none =>
      refine .inHeap ?_
      rw [Heap.typeName_recast]
      have hspan : S.Admits key.span := hes _ (.inl (.inl key.span_mem))
      change Mirrors S w₃ p (Eval.failAt key.span _) (Eval.failAt (key.moved S.place).span _)
      rw [Expr.span_moved]
      exact .failAt (.inl hspan) (.of rfl)

theorem mirrors_dictLiteral (hr : Mirroring S r r') {es : List Entry} (hes : S.Reads (entriesSpans es)) :
    Mirrors S w p (Run.dictLiteral r es) (Run.dictLiteral r' (entriesMoved S.place es)) := by
  have added := mirrors_addEntries (p := p) (w := w) hr es Dictionary.All.empty hes
  rw [Dictionary.recast_empty] at added
  exact added.bind fun d w₁ _ _ hd => .newDict hd

/-! ## Magic words -/

theorem mirrors_outputWith {display display' : Value → Eval String} (hr : Mirroring S r r')
    {args : List Expr} (ha : S.Reads (exprsSpans args))
    (hd : ∀ w v, (S.realm w).Holds v →
      Mirrors S w p (display v) (display' (v.recast ℓ.naming.recast))) :
    Mirrors S w p (Run.outputWith display r args)
      (Run.outputWith display' r' (exprsMoved S.place args)) := by
  refine (mirrors_exprs hr ha).bind fun vs w₁ _ _ hvs => ?_
  have shown : Mirrors S w₁ p (vs.mapM display)
      ((vs.map (Value.recast ℓ.naming.recast)).mapM display') := by
    rw [List.mapM_map]
    exact .mapM vs fun v hv w' _ steps => hd w' v (steps.holds (hvs v hv))
  refine shown.bind fun parts w₂ _ _ _ => ?_
  rw [Carried.carry_strings]
  exact (Mirrors.write _).bind fun _ _ _ _ _ => .pure (a := Value.none) trivial

/-- A magic word other than `OUTPUT`. -/
theorem mirrors_magicValue {span : Span} (hs : S.Allows p span) {word : Magic}
    (hw : word ≠ .output) (args : List Expr) :
    Mirrors S w p (Run.magicValue r span word args)
      (Run.magicValue r' (span.moved S.place) word (exprsMoved S.place args)) := by
  cases word with
  | output => exact absurd rfl hw
  | userInput =>
    simp only [Run.magicValue, exprsMoved_eq_map, List.isEmpty_map]
    split
    · exact .readLine hs
    · exact .failAt hs (.of rfl)
  | _ => exact .failAt hs (.of rfl)

/-! ## Expressions -/

section Overseen

variable {watch : Course → Occasion → Eval Unit} {machines : Course → Recursor}

/-- `OUTPUT` displays its values; the overseer is asked where it fails to. -/
theorem mirrors_output (ho : ℓ.Oversees watch) (hr : Mirroring S r r') {args : List Expr}
    (ha : S.Reads (exprsSpans args)) :
    Mirrors S w p
      (Run.outputWith (fun v => Eval.overseeing (watch S.course ∘ .undisplayed) (r.str v)) r args)
      (Run.output r' (exprsMoved S.place args)) := by
  refine mirrors_outputWith hr ha fun w v hv => (hr.str_here hv).overseeing
    fun f f' w' _ _ alike _ => ?_
  exact .ask ho (fun _ h => by cases h) (fun _ => trivial) fun passes => .raise alike fun hs _ => passes hs

theorem mirrors_expr (ho : ℓ.Oversees watch) (hr : Mirroring S (machines S.course) r') {e : Expr}
    (he : S.Reads e.spans) :
    Mirrors S w p (Run.overseenExpr watch machines S.course e) (Run.expr r' (e.moved S.place)) := by
  have allows : S.Allows p e.span := .inl (he _ e.span_mem)
  cases e with
  | int s n => exact .pure (a := Value.int n) trivial
  | real s x => exact .pure (a := Value.real x) trivial
  | string s t => exact .pure (a := Value.string t) trivial
  | bool s b => exact .pure (a := Value.bool b) trivial
  | none s => exact .pure (a := Value.none) trivial
  | var s name chain =>
    simp only [Expr.spans, Stand.Reads, List.mem_cons] at he
    exact mirrors_named hr allows name fun t ht => he t (.inr ht)
  | item s base chain =>
    simp only [Expr.spans, Stand.Reads, List.mem_cons, List.mem_append] at he
    refine (hr.expr_here fun t ht => he t (.inr (.inl ht))).bind fun v w₁ _ _ hv => ?_
    exact mirrors_walk hr chain hv fun t ht => he t (.inr (.inr ht))
  | call s callee args =>
    simp only [Expr.spans, Stand.Reads, List.mem_cons, List.mem_append] at he
    refine (hr.expr_here fun t ht => he t (.inr (.inl ht))).bind fun f w₁ _ _ hf => ?_
    refine (mirrors_exprs hr fun t ht => he t (.inr (.inr ht))).bind fun vs w₂ _ steps hvs => ?_
    exact hr.call_here allows (steps.holds hf) hvs
  | binary s op left right =>
    simp only [Expr.spans, Stand.Reads, List.mem_cons, List.mem_append] at he
    exact mirrors_binary hr allows op (fun t ht => he t (.inr (.inl ht))) fun t ht => he t (.inr (.inr ht))
  | unary s op operand =>
    simp only [Expr.spans, Stand.Reads, List.mem_cons] at he
    exact mirrors_unary hr allows op fun t ht => he t (.inr ht)
  | magic s word args =>
    simp only [Expr.spans, Stand.Reads, List.mem_cons] at he
    by_cases hw : word = .output
    · subst hw
      exact mirrors_output ho hr fun t ht => he t (.inr ht)
    · have plain : Run.overseenExpr watch machines S.course (.magic s word args) =
          Run.magicValue (machines S.course) s word args := by
        cases word <;> first | rfl | exact absurd rfl hw
      rw [plain]
      exact mirrors_magicValue allows hw args
  | array s es =>
    simp only [Expr.spans, Stand.Reads, List.mem_cons] at he
    exact mirrors_arrayLiteral hr.expr fun t ht => he t (.inr ht)
  | dict s es =>
    simp only [Expr.spans, Stand.Reads, List.mem_cons] at he
    exact mirrors_dictLiteral hr fun t ht => he t (.inr ht)

end Overseen

end Pseudocode
