import Pseudocode.Proofs.Execution.Session
import Pseudocode.Proofs.Input.Native
/-
# `Proofs.Input.Session` — sessions read their input line by line

What a machine carries out can be followed (`traceable_run`): the main program, the
subroutines it calls, and the modules it imports in the middle of a statement, whatever
fails on the way and whatever of that is caught.  So the reads of a session are answered
with the lines of its input, each of them once and in order, and after the last of them
every read fails (`Session.reads_lines`).
-/
namespace Pseudocode

variable {r : Recursor}

/-! ## Index chains -/

theorem Eval.Traceable.property (v : Value) (name : String) : (Eval.property v name).Traceable := by
  refine .bind (.inHeap _) fun stored => ?_
  split
  · exact .pure _
  · split
    · exact .newBuiltin _ _
    · exact .bind (.inHeap _) fun _ => .fail _

theorem Eval.Traceable.setProperty (container : Value) (name : String) (v : Value) :
    (Eval.setProperty container name v).Traceable := by
  cases container with
  | object o => exact .changeHeap _
  | classType c => exact .changeHeap _
  | record q => exact .bind (.inHeap _) fun _ => .ite (.changeHeap _) (.fail _)
  | module _ s => exact .assign s name v
  | _ => exact .bind (.inHeap _) fun _ => .fail _

section Rules

variable (hr : r.Traceable)

include hr

theorem traceable_step (v : Value) (i : Index) : (Run.step r v i).Traceable := by
  cases i with
  | subscript span key => exact .bind (hr _ _) fun _ => .bind (.inHeap _) fun _ => .ofExceptAt span _
  | property span name => exact .placed span (.property v name)

theorem traceable_walk (v : Value) (chain : List Index) : (Run.walk r v chain).Traceable :=
  .foldlM (traceable_step hr) chain v

theorem traceable_writeAt (container : Value) (last : Index) (v : Value) :
    (Run.writeAt r container last v).Traceable := by
  cases last with
  | subscript span key =>
    exact .bind (hr _ _) fun _ => .bind (.copy v) fun _ => .ofHeapOpAt span _
  | property span name =>
    exact .bind (.copy v) fun _ => .placed span (.setProperty container name _)

/-! ## Expressions -/

omit hr in
theorem traceable_nameError {α : Type} (span : Span) (name : String) :
    (Run.nameError span name : Eval α).Traceable :=
  .bind .scope fun _ => .bind (.inHeap _) fun _ => .bind (.diagnose span _) fun _ => .raise _

theorem traceable_named (span : Span) (name : String) (chain : List Index) :
    (Run.named r span name chain).Traceable := by
  refine .bind .scope fun s => .bind (.inHeap _) fun found => ?_
  cases found with
  | some v => exact traceable_walk hr v chain
  | none => exact traceable_nameError span name

theorem traceable_binary (span : Span) (op : BinaryOp) (left right : Expr) :
    (Run.binary r span op left right).Traceable := by
  refine .bind (hr _ _) fun l => ?_
  cases op with
  | and => exact .bind (.inHeap _) fun _ => .ite (hr _ _) (.pure l)
  | or => exact .bind (.inHeap _) fun _ => .ite (.pure l) (hr _ _)
  | _ => exact .bind (hr _ _) fun v => .ofHeapOpAt span _

theorem traceable_unary (span : Span) (op : UnaryOp) (operand : Expr) :
    (Run.unary r span op operand).Traceable :=
  .bind (hr _ _) fun _ => .bind (.inHeap _) fun _ => .ofExceptAt span _

theorem traceable_exprs (es : List Expr) : (r.exprs es).Traceable := .mapM (fun _ => hr _ _) es

theorem traceable_arrayLiteral (es : List Expr) : (Run.arrayLiteral r es).Traceable :=
  .bind (.mapM (fun _ => .bind (hr _ _) fun v => .copy v) es) fun vs => .newArray vs

theorem traceable_addEntries : ∀ (entries : List Entry) (d : Dictionary),
    (Run.addEntries r d entries).Traceable
  | [], d => .pure d
  | entry :: rest, d => by
    refine .bind (hr _ _) fun k => .bind (hr _ _) fun v => .bind (.copy v) fun c => ?_
    split
    · exact traceable_addEntries rest _
    · exact .bind (.inHeap _) fun _ => .failAt _ _

theorem traceable_dictLiteral (entries : List Entry) : (Run.dictLiteral r entries).Traceable :=
  .bind (traceable_addEntries hr entries .empty) fun d => .newDict d

theorem traceable_output (args : List Expr) : (Run.output r args).Traceable :=
  .bind (traceable_exprs hr args) fun vs => .bind (.mapM (fun _ => hr _ _) vs) fun _ =>
    .bind (.write _) fun _ => .pure _

theorem traceable_magicValue (span : Span) (word : Magic) (args : List Expr) :
    (Run.magicValue r span word args).Traceable := by
  cases word with
  | output => exact traceable_output hr args
  | userInput => exact .ite (.readLine span) (.failAt span _)
  | _ => exact .failAt span _

theorem traceable_expr (e : Expr) : (Run.expr r e).Traceable := by
  cases e with
  | var span name chain => exact traceable_named hr span name chain
  | item span base chain => exact .bind (hr _ _) fun v => traceable_walk hr v chain
  | call span callee args =>
    exact .bind (hr _ _) fun f => .bind (traceable_exprs hr args) fun vs => hr _ _
  | binary span op left right => exact traceable_binary hr span op left right
  | unary span op operand => exact traceable_unary hr span op operand
  | magic span word args => exact traceable_magicValue hr span word args
  | array span es => exact traceable_arrayLiteral hr es
  | dict span entries => exact traceable_dictLiteral hr entries
  | _ => exact .pure _

/-! ## Calls -/

omit hr in
theorem traceable_bindParams (scope : ScopeRef) (es : List (String × Value)) :
    (do
      forIn es PUnit.unit fun (e : String × Value) _ => do
        let v ← Eval.copy e.2
        Eval.define scope e.1 v false
        pure (ForInStep.yield PUnit.unit)
      pure scope : Eval ScopeRef).Traceable := by
  refine .bind (.forIn (fun e _ => ?_) es PUnit.unit) fun _ => .pure scope
  exact .bind (.copy e.2) fun v => .bind (.define scope e.1 v false) fun _ => .pure _

omit hr in
theorem traceable_callScope (f : Subroutine) (args : List Value) :
    (Run.callScope f args).Traceable := by
  refine .bind (.onHeap _) fun scope => ?_
  dsimp only
  split
  · exact .bind (.define scope _ _ _) fun _ => traceable_bindParams scope _
  · exact traceable_bindParams scope _

theorem traceable_callSubroutine (f : Subroutine) (args : List Value) (span : Span) :
    (Run.callSubroutine r f args span).Traceable := by
  unfold Run.callSubroutine
  exact .guard (.failAt span _) fun _ => .bind .frame fun _ => .bind .read fun _ =>
    .guard (.failAt span _) fun _ => .bind (traceable_callScope f args) fun _ =>
      .bind (.withFrame _ (hr _ _)) fun _ => .pure _

omit hr in
theorem traceable_buildRecord (t : RecordTypeRef) (args : List Value) (span : Span) :
    (Run.buildRecord t args span).Traceable :=
  .bind (.inHeap _) fun _ => .guard (.failAt span _) fun _ => .bind (.mapM .copy args) fun _ =>
    .onHeap _

theorem traceable_instantiate (c : ClassRef) (args : List Value) (span : Span) :
    (Run.instantiate r c args span).Traceable := by
  refine .bind (.onHeap _) fun o => .bind (.inHeap _) fun _ => ?_
  dsimp only
  split
  · exact .bind (.discard (hr _ _)) fun _ => .pure _
  · exact .ite (.bind (.inHeap _) fun _ => .bind (.failAt span _) fun _ => .pure _) (.pure _)

theorem traceable_call (callee : Value) (args : List Value) (span : Span) :
    (Run.call r (Run.native r) callee args span).Traceable := by
  cases callee with
  | subroutine f => exact traceable_callSubroutine hr f args span
  | builtin b => exact .placed span (traceable_nativeCall b.name args hr b.action)
  | recordType t => exact traceable_buildRecord t args span
  | classType c => exact traceable_instantiate hr c args span
  | none => exact .failAt span _
  | _ => exact .bind (.inHeap _) fun _ => .failAt span _

/-! ## Display -/

theorem traceable_callDisplay (method : Value) : (Run.callDisplay r method).Traceable := by
  refine .bind (hr _ _) fun v => ?_
  cases v with
  | string s => exact .pure s
  | _ => exact hr _ _

theorem traceable_reprElements (a : ArrayRef) : (Run.reprElements r a).Traceable :=
  .bind (.inHeap _) fun _ => .mapM (fun _ => .bind (.inHeap _) fun _ => hr _ _) _

theorem traceable_reprEntries (d : DictRef) : (Run.reprEntries r d).Traceable :=
  .bind (.inHeap _) fun _ => .mapM (fun _ => .bind (.inHeap _) fun _ => .bind (hr _ _) fun _ =>
    .bind (.inHeap _) fun _ => .bind (hr _ _) fun _ => .pure _) _

theorem traceable_strContainer (v : Value) : (Run.strContainer r v).Traceable := by
  cases v with
  | array a => exact .bind (traceable_reprElements hr a) fun _ => .pure _
  | dict d => exact .bind (traceable_reprEntries hr d) fun _ => .pure _
  | _ => exact .inHeap fun h => h.text _

theorem traceable_str (v : Value) : (Run.str r v).Traceable := by
  refine .bind (.inHeap _) fun method => ?_
  cases method with
  | some m => exact traceable_callDisplay hr m
  | none => exact traceable_strContainer hr v

theorem traceable_repr (v : Value) : (Run.repr r v).Traceable := by
  unfold Run.repr
  split
  · exact .pure _
  · refine .bind (.inHeap _) fun method => ?_
    cases method with
    | some m => exact traceable_callDisplay hr m
    | none => exact traceable_str hr _

/-! ## Assignments and definitions -/

theorem traceable_assignIndexed (t : Target) (v : Value) : (Run.assignIndexed r t v).Traceable := by
  refine .bind .scope fun s => .bind (.inHeap _) fun found => ?_
  cases found with
  | none => exact traceable_nameError t.span t.name
  | some found =>
    refine .bind (traceable_walk hr found.2 _) fun container => ?_
    have told : (do Eval.tell (← Eval.inHeap (·.touched? found.1 t.name))).Traceable :=
      .bind (.inHeap _) fun e => .tell e
    dsimp only
    split
    · exact .bind (traceable_writeAt hr container _ v) fun _ => told
    · exact told

omit hr in
theorem traceable_declare (span : Span) (name : String) (v : Value) :
    (Run.declare span name v).Traceable :=
  .bind .scope fun s => .bind (.inHeap _) fun _ => .guard (.failAt span _) fun _ =>
    .bind (.copy v) fun c => .define s name c true

theorem traceable_assign (a : Assignment) : (Run.assign r a).Traceable :=
  .bind (hr _ _) fun v => .ite (traceable_assignIndexed hr a.target v)
    (.ite (traceable_declare a.span a.target.name v) (.bindCopy a.span a.target.name v))

omit hr in
theorem traceable_closure (d : Routine) (this : Option Owner) : (Run.closure d this).Traceable :=
  .bind .frame fun _ => .pure _

theorem traceable_statics (owner : ClassRef) : ∀ fields : List Assignment,
    (Run.statics r owner fields).Traceable
  | [] => .pure ()
  | _ :: rest => .bind (hr _ _) fun v => .bind (.copy v) fun c => .bind (.setProperty _ _ c) fun _ =>
      traceable_statics owner rest

omit hr in
theorem traceable_methods (owner : ClassRef) (routines : List Routine) :
    (Run.methods owner routines).Traceable := by
  induction routines with
  | nil => exact .pure ()
  | cons d rest ih =>
    exact .bind (traceable_closure d _) fun m => .bind (.setProperty _ _ m) fun _ => ih

theorem traceable_defineClass (span : Span) (name : String) (fields : List Assignment)
    (routines : List Routine) : (Run.defineClass r span name fields routines).Traceable :=
  .bind (.onHeap _) fun c => .bind (traceable_statics hr c fields) fun _ =>
    .bind (traceable_methods c routines) fun _ => .bindSelf span name _

/-! ## Choices and loops -/

theorem traceable_branch : ∀ (n : Nat) (b : Branch), (Run.branch r n b).Traceable
  | 0, _ => .outOfFuel
  | n + 1, .mk _ condition consequence alternative => by
    refine .bind (hr _ _) fun c => .bind (.inHeap _) fun _ => .ite (hr _ _) ?_
    cases alternative with
    | absent => exact .pure _
    | elseIf next => exact traceable_branch n next
    | elseBlock body => exact hr _ _

theorem traceable_whileLoop (condition : Expr) (body : Block) : ∀ n : Nat,
    (Run.whileLoop r condition body n).Traceable
  | 0 => .outOfFuel
  | n + 1 => by
    refine .bind (hr _ _) fun c => .bind (.inHeap _) fun _ =>
      .ite (.bind (hr _ _) fun flow => ?_) (.pure _)
    split
    · exact .pure _
    · exact traceable_whileLoop condition body n

theorem traceable_repeatLoop (body : Block) (condition : Expr) : ∀ n : Nat,
    (Run.repeatLoop r body condition n).Traceable
  | 0 => .outOfFuel
  | n + 1 => by
    refine .bind (hr _ _) fun flow => ?_
    split
    · exact .pure _
    · exact .bind (hr _ _) fun c => .bind (.inHeap _) fun _ =>
        .ite (.pure _) (traceable_repeatLoop body condition n)

theorem traceable_bound (e : Expr) (what : String) : (Run.bound r e what).Traceable := by
  refine .bind (hr _ _) fun v => ?_
  cases v with
  | int n => exact .pure _
  | _ => exact .bind (.inHeap _) fun _ => .failAt e.span _

theorem traceable_stepBound (step : Option Expr) : (Run.stepBound r step).Traceable := by
  cases step with
  | none => exact .pure _
  | some e => exact .bind (traceable_bound hr e _) fun n => .guard (.failAt e.span _) fun _ => .pure n

theorem traceable_rangeLoop (span : Span) (name : String) (last step : Int64) (body : Block) :
    ∀ (n : Nat) (v : Int64), (Run.rangeLoop r span name last step body n v).Traceable
  | 0, _ => .outOfFuel
  | n + 1, v => by
    refine .ite (.bind (.bindCopy span name _) fun _ => .bind (hr _ _) fun flow => ?_) (.pure _)
    split
    · exact .pure _
    · exact .ite (.pure _) (traceable_rangeLoop span name last step body n _)

theorem traceable_forRange (span : Span) (name : String) (first last : Expr) (step : Option Expr)
    (body : Block) : (Run.forRange r span name first last step body).Traceable :=
  .bind (traceable_bound hr first _) fun _ => .bind (traceable_bound hr last _) fun _ =>
    .bind (traceable_stepBound hr step) fun _ => traceable_rangeLoop hr span name _ _ body _ _

theorem traceable_eachLoop (span : Span) (name : String) (body : Block) : ∀ vs : List Value,
    (Run.eachLoop r span name body vs).Traceable
  | [] => .pure _
  | v :: rest => by
    refine .bind (.bindCopy span name v) fun _ => .bind (hr _ _) fun flow => ?_
    split
    · exact .pure _
    · exact traceable_eachLoop span name body rest

theorem traceable_forEach (span : Span) (name : String) (iterable : Expr) (body : Block) :
    (Run.forEach r span name iterable body).Traceable := by
  refine .bind (hr _ _) fun v => .bind (.inHeap _) fun items => ?_
  cases items with
  | some vs => exact traceable_eachLoop hr span name body vs
  | none => exact .bind (.inHeap _) fun _ => .failAt iterable.span _

/-! ## Statements -/

omit hr in
theorem traceable_returnValue (vs : List Value) : (Run.returnValue vs).Traceable := by
  unfold Run.returnValue
  split
  · exact .pure _
  · exact .pure _
  · exact .newArray _

theorem traceable_exprStmt (e : Expr) : (Run.exprStmt r e).Traceable := by
  unfold Run.exprStmt
  split
  · exact .bind (traceable_exprs hr _) fun vs => .bind (traceable_returnValue vs) fun _ => .pure _
  · exact .pure _
  · exact .pure _
  · exact .bind (.discard (hr _ _)) fun _ => .pure _

/-- What a caught error leaves of the input is read on. -/
theorem traceable_attempt (body rescue : Block) : (Run.attempt r body rescue).Traceable := by
  refine .tryCatch (hr _ _) fun e => ?_
  cases e with
  | fault f => exact .ite (hr _ _) (.raise f)
  | outOfFuel => exact .outOfFuel

theorem traceable_stmt {load : Span → Expr → String → Eval Unit}
    (hload : ∀ span location nickname, (load span location nickname).Traceable) (n : Nat) (s : Stmt) :
    (Run.stmt r load n s).Traceable := by
  cases s with
  | expr e => exact traceable_exprStmt hr e
  | assign a => exact .bind (traceable_assign hr a) fun _ => .pure _
  | subroutine d =>
    exact .bind (traceable_closure d none) fun f => .bind (.bindSelf d.span d.name f) fun _ => .pure _
  | branch b => exact traceable_branch hr n b
  | whileLoop _ condition body => exact traceable_whileLoop hr condition body n
  | repeatLoop _ body condition => exact traceable_repeatLoop hr body condition n
  | forRange span name first last step body =>
    exact traceable_forRange hr span name first last step body
  | forEach span name iterable body => exact traceable_forEach hr span name iterable body
  | record span name fields =>
    exact .bind (.onHeap _) fun t => .bind (.bindSelf span name t) fun _ => .pure _
  | classDef span name fields routines =>
    exact .bind (traceable_defineClass hr span name fields routines) fun _ => .pure _
  | attempt _ body rescue => exact traceable_attempt hr body rescue
  | load span location nickname => exact .bind (hload span location nickname) fun _ => .pure _

theorem traceable_stmts {load : Span → Expr → String → Eval Unit}
    (hload : ∀ span location nickname, (load span location nickname).Traceable) (n : Nat)
    (ss : List Stmt) : (Run.stmts r load n ss).Traceable := by
  induction ss with
  | nil => exact .pure _
  | cons s rest ih =>
    refine .bind (traceable_stmt hr hload n s) fun flow => ?_
    cases flow with
    | normal => exact ih
    | _ => exact .pure _

end Rules

/-! ## New interpreters

A new interpreter reads nothing until it is given a text to run. -/

theorem still_memberValue (name : String) (m : Member) : (Library.memberValue name m).Still := by
  cases m with
  | value v => exact .pure v
  | function action => exact .newBuiltin name action

theorem still_addMembers : ∀ (ms : List (String × Member)) (t : Table Value),
    (Library.addMembers t ms).Still
  | [], t => .pure t
  | (name, m) :: ms, t => .bind (still_memberValue name m) fun v => still_addMembers ms (t.put name v)

theorem still_bindAll (root : ScopeRef) : ∀ t : Table Value, (Run.bindAll root t).Still
  | [] => .pure ()
  | (name, v) :: t => .bind (.define root name v false) fun _ => still_bindAll root t

theorem still_install (home : InterpreterId) (root : ScopeRef) : (Run.install home root).Still :=
  .bind (still_addMembers _ _) fun core => .bind (still_bindAll root core) fun _ =>
    .bind (.onHeap _) fun library => .bind (.define root _ library false) fun _ =>
      .bind (still_addMembers _ _) fun t => still_bindAll root t

theorem still_newInterpreter (rootName dir name : String) (importing pending : List String) :
    (Run.newInterpreter rootName dir name importing pending).Still :=
  .bind (.onHeap _) fun root => .bind (fun _ _ _ => rfl) fun id =>
    .bind (still_install id root) fun _ => .pure id

/-! ## Modules -/

theorem traceable_build (name : String) (members : List (String × Member)) :
    (Library.build name members).Traceable :=
  .bind (.still (still_addMembers members [])) fun _ => .onHeap _

theorem traceable_load (e : Extension) : e.load.Traceable := by
  cases e with
  | probe =>
    exact .bind (.still fun _ _ _ => rfl) fun counter => .bind .read fun env => traceable_build _ _
  | broken => exact .raise _
  | _ => exact traceable_build _ _

theorem traceable_bindExtension (name : String) : (Run.bindExtension name).Traceable := by
  refine .bind .read fun env => ?_
  split
  · exact .raise _
  next e _ =>
    refine .bind (.tryCatch (traceable_load e) fun failure => ?_) fun v =>
      .bind .self fun i => .define i.root name v false
    cases failure with
    | fault f => exact .raise _
    | outOfFuel => exact .outOfFuel

theorem traceable_prepare : Run.prepare.Traceable :=
  .bind .self fun i => .bind (.changeSelf _) fun _ => .forM traceable_bindExtension i.pending

theorem traceable_runSource (hr : r.Traceable) (source : String) :
    (Run.runSource r source).Traceable := by
  refine .bind .self fun i => ?_
  split
  · exact .raise _
  · exact .bind (.still fun _ _ _ => rfl) fun unit => .bind (.changeSelf _) fun _ =>
      .bind traceable_prepare fun _ => .bind (.changeSelf _) fun _ => .discard (hr _ _)

theorem traceable_searchDirs : Run.searchDirs.Traceable :=
  .bind .self fun _ => .bind .read fun _ => .pure _

theorem traceable_importFailed {α : Type} (name : String) (span : Span) (cause : Fault) :
    (Run.importFailed name span cause : Eval α).Traceable :=
  .bind (.diagnose span _) fun _ => .raise _

/-- A module reads on where the importing program stands, and that one where the module
stopped, also when it fails. -/
theorem traceable_runModule (hr : r.Traceable) (m : Run.Found) (nickname : String) (span : Span) :
    (Run.runModule r m nickname span).Traceable := by
  unfold Run.runModule
  refine .bind .self fun i => .guard (.failAt span _) fun _ =>
    .bind (.still (still_newInterpreter _ _ _ _ _)) fun child =>
      .bind (.tryCatch (.on child (traceable_runSource hr m.text)) fun e => ?_) fun _ =>
        .bind (.still (.interpreter child)) fun _ => .pure _
  cases e with
  | fault f => exact .ite (.raise f) (traceable_importFailed nickname span f)
  | outOfFuel => exact .outOfFuel

theorem traceable_importExtension (name : String) (span : Span) (searched : List String) :
    (Run.importExtension name span searched).Traceable := by
  refine .bind .read fun env => ?_
  split
  next e _ =>
    refine .tryCatch (traceable_load e) fun failure => ?_
    cases failure with
    | fault f => exact traceable_importFailed name span f
    | outOfFuel => exact .outOfFuel
  next =>
    have available : Run.availableModules.Traceable :=
      .bind .read fun _ => .bind traceable_searchDirs fun _ => .pure _
    exact .bind available fun _ => .bind (.diagnose span _) fun _ => .raise _

theorem traceable_importModule (hr : r.Traceable) (name nickname : String) (span : Span) :
    (Run.importModule r name nickname span).Traceable := by
  refine .bind .read fun env => .bind traceable_searchDirs fun dirs => ?_
  dsimp only
  split
  · exact traceable_runModule hr _ nickname span
  · split
    · exact traceable_runModule hr _ nickname span
    · exact traceable_importExtension name span _

theorem traceable_import (hr : r.Traceable) (span : Span) (location : Expr) (nickname : String) :
    (Run.load r span location nickname).Traceable := by
  refine .bind (hr _ _) fun v => ?_
  cases v with
  | string name =>
    exact .bind (traceable_importModule hr name _ span) fun m => .bindSelf span _ m
  | _ => exact .bind (.inHeap _) fun _ => .failAt location.span _

/-! ## The machine -/

theorem traceable_carryOut (hr : r.Traceable) (n : Nat) : (Run.carryOut n r).Traceable := by
  intro α task
  cases task with
  | expr e => exact traceable_expr hr e
  | block b => exact traceable_stmts hr (traceable_import hr) n b.body
  | call callee args span => exact traceable_call hr callee args span
  | str v => exact traceable_str hr v
  | repr v => exact traceable_repr hr v

/-- What the machine carries out can be followed. -/
theorem traceable_run : ∀ n : Nat, (Run.run n).Traceable
  | 0 => fun _ _ => .outOfFuel
  | n + 1 => traceable_carryOut (traceable_run n) n

namespace Session

/-! ## Sessions -/

theorem traceable_action (hr : r.Traceable) (q : Request) : (q.action r).Traceable := by
  cases q with
  | run source => exact traceable_runSource hr source
  | runFile path =>
    refine .bind .read fun env => ?_
    split
    · exact .raise _
    · exact .bind .read fun _ => .bind (.changeSelf _) fun _ => traceable_runSource hr _
  | call callee args => exact .discard (hr _ _)
  | str v | repr v => exact .discard (hr _ _)
  | newArray elements => exact .discard (.newArray elements)
  | newDict entries => exact .discard (.newDict _)
  | drain => exact .still fun _ _ _ => rfl

/-- The session after requests. -/
def after (s : Session) (qs : List Request) : Session :=
  qs.foldl (fun s q => (s.answer machine q).2) s

/-- The session can be followed while it answers requests, and its reads of the input on
the way were answered so, in this order. -/
inductive Reads : Session → List Request → List (Option String) → Prop
  | nil (s : Session) : Reads s [] []
  | cons {s : Session} {q : Request} {qs : List Request} {first second : List (Option String)} :
      (q.action machine).Reads ⟨s.setup, main⟩ s.world first →
        Reads (s.answer machine q).2 qs second → Reads s (q :: qs) (first ++ second)

theorem exists_reads (s : Session) (qs : List Request) : ∃ answers, s.Reads qs answers := by
  induction qs generalizing s with
  | nil => exact ⟨[], .nil s⟩
  | cons q qs ih =>
    obtain ⟨first, hfirst⟩ := traceable_action (traceable_run bound) q ⟨s.setup, main⟩ s.world
    obtain ⟨second, hsecond⟩ := ih (s.answer machine q).2
    exact ⟨first ++ second, .cons hfirst hsecond⟩

theorem Reads.answers {s : Session} {qs : List Request} {rs : List (Option String)}
    (h : s.Reads qs rs) : Input.Answers s.world.input rs (s.after qs).world.input := by
  induction h with
  | nil s => exact .nil _
  | cons h _ ih =>
    have first := h.answers
    rw [← world_perform] at first
    exact first.append ih

/-- What a session does when it starts. -/
def opening (o : Options) : Eval Unit := do
  discard (Run.newInterpreter "global" o.dir o.name [] o.preload)
  Eval.changeHeap (Heap.modifyScope (← Eval.self).root fun sc => { sc with observer := o.observer })

theorem still_opening (o : Options) : (opening o).Still := by
  rw [opening, Eval.discard_eq]
  exact .bind (.bind (still_newInterpreter _ _ _ _ _) fun _ => .pure ()) fun _ =>
    .bind .self fun _ => .changeHeap _

/-- A session that starts has all of its input before it. -/
theorem start_input (o : Options) : (start o).world.input = o.input.toList := by
  let blank : Session := ⟨o.setup, emptyWorld o.input o.seed, []⟩
  have opened : (start o).world = (blank.perform (opening o)).2.world := by
    simp only [start, opening, blank]
  rw [opened, world_perform]
  exact (still_opening o).input _ _

/-- `USERINPUT` and `INPUT` are one and the same read, that of `INPUT` in the interpreter it
belongs to and after its prompt.  The reads of a session, in the order of execution, are
answered with the lines of its input, each of them once and in order, and with errors after
the last of them.  What is left of the input are the lines that were not read, and nothing
is left of it if and only if there were as many reads as there are lines. -/
theorem reads_lines :
    (∀ (r : Recursor) (span : Span),
      Run.expr r (.magic span .userInput []) = Eval.readLine span) ∧
    (∀ (r : Recursor) (home : InterpreterId) (name : String),
      Builtins.input r home name [] = Eval.on home (Eval.readLine .nowhere) ∧
        ∀ prompt, Builtins.input r home name [prompt] = Eval.on home (do
          Eval.write (← r.str prompt)
          Eval.readLine .nowhere)) ∧
    ∀ (o : Options) (qs : List Request),
      (∃ answers, (start o).Reads qs answers) ∧
        ∀ answers, (start o).Reads qs answers →
          (∀ i (h : i < answers.length), answers[i] = (Input.lines o.input.toList)[i]?) ∧
            Input.lines ((start o).after qs).world.input =
              (Input.lines o.input.toList).drop answers.length ∧
            (((start o).after qs).world.input = [] ↔
              (Input.lines o.input.toList).length ≤ answers.length) := by
  refine ⟨fun r span => rfl, fun r home name => ⟨rfl, fun prompt => rfl⟩, fun o qs => ?_⟩
  refine ⟨exists_reads _ qs, fun answers h => ?_⟩
  have answered := h.answers
  rw [start_input] at answered
  refine ⟨answered.each, answered.rest, ?_⟩
  rw [← Input.lines_eq_nil, answered.rest, List.drop_eq_nil_iff]

end Session

end Pseudocode
