import Mathlib.Data.List.Forall2
import Pseudocode.Program.Outline
/-
# `Proofs.Outline` — the outline of a program loses nothing

An outline is plain data, and plain data is compared as such (`Datum.Alike`): the fields of an
object have names and no order.  Every node names its kind and its span, so alike outlines belong
to nodes of one kind, which then agree part by part.  A part that may be missing shows by its name,
and what stands in the place of an `ELSE` shows by its kind.
-/
namespace Pseudocode

/-! ## Plain data without the order of fields -/

/-- The same data, but for the order in which the fields of objects are named. -/
inductive Datum.Alike : Datum → Datum → Prop
  | null : Alike .null .null
  | bool (value : Bool) : Alike (.bool value) (.bool value)
  | int (value : Int) : Alike (.int value) (.int value)
  | real (value : Float) : Alike (.real value) (.real value)
  | text (value : String) : Alike (.text value) (.text value)
  | list {xs ys : List Datum} (items : List.Forall₂ Alike xs ys) : Alike (.list xs) (.list ys)
  | object {xs ys : List (String × Datum)}
      (fields : ∀ name, Option.Rel Alike (xs.lookup name) (ys.lookup name)) :
      Alike (.object xs) (.object ys)

mutual

theorem Datum.alike_self : ∀ d : Datum, d.Alike d
  | .null => .null
  | .bool b => .bool b
  | .int n => .int n
  | .real x => .real x
  | .text s => .text s
  | .list xs => .list (items_alike_self xs)
  | .object xs => .object (fields_alike_self xs)

theorem items_alike_self : ∀ xs : List Datum, List.Forall₂ Datum.Alike xs xs
  | [] => .nil
  | x :: xs => .cons x.alike_self (items_alike_self xs)

theorem fields_alike_self : ∀ (xs : List (String × Datum)) (name : String),
    Option.Rel Datum.Alike (xs.lookup name) (xs.lookup name)
  | [], _ => .none
  | (k, x) :: xs, name => by
    rw [List.lookup_cons]
    cases name == k with
    | true => exact .some x.alike_self
    | false => exact fields_alike_self xs name

end

namespace Datum.Alike

theorem bool_eq {a b : Bool} (h : (Datum.bool a).Alike (.bool b)) : a = b := by
  cases h
  rfl

theorem int_eq {a b : Int} (h : (Datum.int a).Alike (.int b)) : a = b := by
  cases h
  rfl

theorem real_eq {a b : Float} (h : (Datum.real a).Alike (.real b)) : a = b := by
  cases h
  rfl

theorem text_eq {a b : String} (h : (Datum.text a).Alike (.text b)) : a = b := by
  cases h
  rfl

theorem items {xs ys : List Datum} (h : (Datum.list xs).Alike (.list ys)) :
    List.Forall₂ Alike xs ys := by
  cases h
  assumption

variable {xs ys : List (String × Datum)} {x y : Datum}

/-- A field that one of two objects has the other has too. -/
theorem fields (h : (Datum.object xs).Alike (.object ys)) (name : String) :
    Option.Rel Alike (xs.lookup name) (ys.lookup name) := by
  cases h
  apply_assumption

theorem field (h : (Datum.object xs).Alike (.object ys)) (name : String)
    (left : xs.lookup name = some x) (right : ys.lookup name = some y) : x.Alike y := by
  have found := h.fields name
  rw [left, right] at found
  cases found
  assumption

variable {k k' : String} {s s' : Span}

theorem position_eq {p q : Position} (h : p.outline.Alike q.outline) : p = q := by
  have offset := (h.field "offset" rfl rfl).int_eq
  have line := (h.field "line" rfl rfl).int_eq
  have column := (h.field "column" rfl rfl).int_eq
  cases p
  cases q
  cases offset
  cases line
  cases column
  rfl

/-- Nodes that are alike are of one kind … -/
theorem kind_eq (h : (node k s xs).Alike (node k' s' ys)) : k = k' :=
  (h.field "kind" rfl rfl).text_eq

/-- … and stand at one place. -/
theorem span_eq (h : (node k s xs).Alike (node k' s' ys)) : s = s' := by
  have span := h.field "span" rfl rfl
  have start := (span.field "start" rfl rfl).position_eq
  have stop := (span.field "end" rfl rfl).position_eq
  cases s
  cases s'
  cases start
  cases stop
  rfl

end Datum.Alike

/-! ## Expressions -/

/-- Names by which everything in a list is found tell things apart. -/
theorem eq_of_name {α : Type} (name : α → String) (all : List α)
    (found : ∀ a, all.find? (name · == name a) = some a) {a b : α} (same : name a = name b) :
    a = b := by
  have both := found a
  rw [same, found b] at both
  exact (Option.some.inj both).symm

theorem BinaryOp.eq_of_name {op op' : BinaryOp} (same : op.kind.name = op'.kind.name) :
    op = op' :=
  Pseudocode.eq_of_name (·.kind.name)
    [.add, .sub, .mul, .div, .intDiv, .mod, .pow, .eq, .ne, .lt, .le, .gt, .ge, .and, .or]
    (fun op => by cases op <;> rfl) same

theorem UnaryOp.eq_of_name {op op' : UnaryOp} (same : op.kind.name = op'.kind.name) : op = op' :=
  Pseudocode.eq_of_name (·.kind.name) [.plus, .minus, .not] (fun op => by cases op <;> rfl) same

theorem Magic.eq_of_name {word word' : Magic} (same : word.kind.name = word'.kind.name) :
    word = word' :=
  Pseudocode.eq_of_name (·.kind.name) [.output, .returns, .continues, .breaks, .userInput]
    (fun word => by cases word <;> rfl) same

/-- The kinds of expressions, in the order of the constructors. -/
def Expr.kindNames : List String :=
  ["Var", "IndexedItem", "SubroutineCall", "BinOp", "UnaryOp", "Magic", "IntLiteral",
   "FloatLiteral", "StringLiteral", "BoolLiteral", "NoneLiteral", "ArrayLiteral", "DictLiteral"]

theorem Expr.exists_outline (e : Expr) :
    ∃ k xs, e.outline = node k e.span xs ∧ Expr.kindNames.idxOf k = e.ctorIdx := by
  cases e <;> exact ⟨_, _, rfl, rfl⟩

/-- Expressions with alike outlines are of one kind. -/
theorem Expr.ctorIdx_eq {e e' : Expr} (h : e.outline.Alike e'.outline) :
    e.ctorIdx = e'.ctorIdx := by
  obtain ⟨k, xs, shown, index⟩ := e.exists_outline
  obtain ⟨k', xs', shown', index'⟩ := e'.exists_outline
  rw [shown, shown'] at h
  rw [← index, ← index', h.kind_eq]

mutual

theorem Expr.eq_of_alike : ∀ {e e' : Expr}, e.outline.Alike e'.outline → e = e'
  | .var s name chain, e', h => by
    cases e' with
    | var s' name' chain' =>
      obtain rfl := h.span_eq
      obtain rfl := (h.field "name" rfl rfl).text_eq
      obtain rfl := chain_eq_of_alike (h.field "chain" rfl rfl).items
      rfl
    | _ => nomatch Expr.ctorIdx_eq h
  | .item s base chain, e', h => by
    cases e' with
    | item s' base' chain' =>
      obtain rfl := h.span_eq
      obtain rfl := Expr.eq_of_alike (h.field "base" rfl rfl)
      obtain rfl := chain_eq_of_alike (h.field "chain" rfl rfl).items
      rfl
    | _ => nomatch Expr.ctorIdx_eq h
  | .call s callee args, e', h => by
    cases e' with
    | call s' callee' args' =>
      obtain rfl := h.span_eq
      obtain rfl := Expr.eq_of_alike (h.field "callee" rfl rfl)
      obtain rfl := exprs_eq_of_alike (h.field "args" rfl rfl).items
      rfl
    | _ => nomatch Expr.ctorIdx_eq h
  | .binary s op left right, e', h => by
    cases e' with
    | binary s' op' left' right' =>
      obtain rfl := h.span_eq
      obtain rfl := BinaryOp.eq_of_name (h.field "op" rfl rfl).text_eq
      obtain rfl := Expr.eq_of_alike (h.field "left" rfl rfl)
      obtain rfl := Expr.eq_of_alike (h.field "right" rfl rfl)
      rfl
    | _ => nomatch Expr.ctorIdx_eq h
  | .unary s op operand, e', h => by
    cases e' with
    | unary s' op' operand' =>
      obtain rfl := h.span_eq
      obtain rfl := UnaryOp.eq_of_name (h.field "op" rfl rfl).text_eq
      obtain rfl := Expr.eq_of_alike (h.field "operand" rfl rfl)
      rfl
    | _ => nomatch Expr.ctorIdx_eq h
  | .magic s word args, e', h => by
    cases e' with
    | magic s' word' args' =>
      obtain rfl := h.span_eq
      obtain rfl := Magic.eq_of_name (h.field "magic" rfl rfl).text_eq
      obtain rfl := exprs_eq_of_alike (h.field "args" rfl rfl).items
      rfl
    | _ => nomatch Expr.ctorIdx_eq h
  | .int s value, e', h => by
    cases e' with
    | int s' value' =>
      obtain rfl := h.span_eq
      obtain rfl := (h.field "value" rfl rfl).int_eq
      rfl
    | _ => nomatch Expr.ctorIdx_eq h
  | .real s value, e', h => by
    cases e' with
    | real s' value' =>
      obtain rfl := h.span_eq
      obtain rfl := (h.field "value" rfl rfl).real_eq
      rfl
    | _ => nomatch Expr.ctorIdx_eq h
  | .string s value, e', h => by
    cases e' with
    | string s' value' =>
      obtain rfl := h.span_eq
      obtain rfl := (h.field "value" rfl rfl).text_eq
      rfl
    | _ => nomatch Expr.ctorIdx_eq h
  | .bool s value, e', h => by
    cases e' with
    | bool s' value' =>
      obtain rfl := h.span_eq
      obtain rfl := (h.field "value" rfl rfl).bool_eq
      rfl
    | _ => nomatch Expr.ctorIdx_eq h
  | .none s, e', h => by
    cases e' with
    | none s' =>
      obtain rfl := h.span_eq
      rfl
    | _ => nomatch Expr.ctorIdx_eq h
  | .array s elements, e', h => by
    cases e' with
    | array s' elements' =>
      obtain rfl := h.span_eq
      obtain rfl := exprs_eq_of_alike (h.field "elements" rfl rfl).items
      rfl
    | _ => nomatch Expr.ctorIdx_eq h
  | .dict s entries, e', h => by
    cases e' with
    | dict s' entries' =>
      obtain rfl := h.span_eq
      obtain rfl := entries_eq_of_alike (h.field "entries" rfl rfl).items
      rfl
    | _ => nomatch Expr.ctorIdx_eq h
termination_by structural x => x

theorem exprs_eq_of_alike : ∀ {es es' : List Expr},
    List.Forall₂ Datum.Alike (outlineExprs es) (outlineExprs es') → es = es'
  | [], [], _ => rfl
  | e :: es, e' :: es', .cons first rest => by
    rw [Expr.eq_of_alike first, exprs_eq_of_alike rest]
termination_by structural x => x

theorem chain_eq_of_alike : ∀ {steps steps' : List Index},
    List.Forall₂ Datum.Alike (outlineChain steps) (outlineChain steps') → steps = steps'
  | [], [], _ => rfl
  | i :: steps, i' :: steps', .cons first rest => by
    rw [Index.eq_of_alike first, chain_eq_of_alike rest]
termination_by structural x => x

theorem Index.eq_of_alike : ∀ {i i' : Index}, i.outline.Alike i'.outline → i = i'
  | .subscript s key, i', h => by
    cases i' with
    | subscript s' key' =>
      obtain rfl := h.span_eq
      obtain rfl := Expr.eq_of_alike (h.field "expr" rfl rfl)
      rfl
    | _ => nomatch h.kind_eq
  | .property s name, i', h => by
    cases i' with
    | property s' name' =>
      obtain rfl := h.span_eq
      obtain rfl := (h.field "name" rfl rfl).text_eq
      rfl
    | _ => nomatch h.kind_eq
termination_by structural x => x

theorem entries_eq_of_alike : ∀ {es es' : List Entry},
    List.Forall₂ Datum.Alike (outlineEntries es) (outlineEntries es') → es = es'
  | [], [], _ => rfl
  | [], .mk _ _ :: _, h => nomatch h
  | .mk _ _ :: _, [], h => nomatch h
  | .mk k v :: es, .mk k' v' :: es', .cons first rest => by
    rw [Expr.eq_of_alike (first.field "key" rfl rfl),
      Expr.eq_of_alike (first.field "value" rfl rfl), entries_eq_of_alike rest]
termination_by structural x => x

end

/-! ## Statements -/

theorem Target.eq_of_alike {t t' : Target} (h : t.outline.Alike t'.outline) : t = t' := by
  obtain ⟨s, name, chain⟩ := t
  obtain ⟨s', name', chain'⟩ := t'
  obtain rfl := h.span_eq
  obtain rfl := (h.field "name" rfl rfl).text_eq
  obtain rfl := chain_eq_of_alike (h.field "chain" rfl rfl).items
  rfl

theorem Assignment.eq_of_alike {a a' : Assignment} (h : a.outline.Alike a'.outline) : a = a' := by
  obtain ⟨s, target, value, constant⟩ := a
  obtain ⟨s', target', value', constant'⟩ := a'
  obtain rfl := h.span_eq
  obtain rfl := Target.eq_of_alike (h.field "target" rfl rfl)
  obtain rfl := Expr.eq_of_alike (h.field "value" rfl rfl)
  obtain rfl := (h.field "constant" rfl rfl).bool_eq
  rfl

theorem Param.eq_of_alike {p p' : Param} (h : p.outline.Alike p'.outline) : p = p' := by
  obtain ⟨s, name⟩ := p
  obtain ⟨s', name'⟩ := p'
  obtain rfl := h.span_eq
  obtain rfl := (h.field "name" rfl rfl).text_eq
  rfl

theorem map_eq_of_alike {α : Type} {shown : α → Datum} {as bs : List α}
    (inj : ∀ {a b}, (shown a).Alike (shown b) → a = b)
    (h : List.Forall₂ Datum.Alike (as.map shown) (bs.map shown)) : as = bs := by
  rw [List.forall₂_map_left_iff, List.forall₂_map_right_iff] at h
  exact List.forall₂_eq_eq_eq ▸ h.imp fun _ _ => inj

/-- A record without fields shows null, which is no list. -/
theorem fields_eq_of_alike {names names' : List String}
    (h : (outlineFields names).Alike (outlineFields names')) : names = names' := by
  cases names with
  | nil =>
    cases names' with
    | nil => rfl
    | cons => nomatch h
  | cons name names =>
    cases names' with
    | nil => nomatch h
    | cons name' names' => exact map_eq_of_alike Datum.Alike.text_eq h.items

theorem step_eq_of_alike {step step' : Option Expr}
    (h : Option.Rel Datum.Alike ((step.map fun e => ("step", e.outline)).toList.lookup "step")
      ((step'.map fun e => ("step", e.outline)).toList.lookup "step")) : step = step' := by
  cases step with
  | none =>
    cases step' with
    | none => rfl
    | some => nomatch h
  | some e =>
    cases step' with
    | none => nomatch h
    | some e' =>
      cases h with
      | some here => rw [Expr.eq_of_alike here]

/-- The kinds of statements that are no expressions. -/
def Stmt.kindNames : List String :=
  ["Assign", "SubroutineDefinition", "IfStatement", "WhileStatement", "RepeatUntilStatement",
   "ForLoop", "RecordDefinition", "ClassDefinition", "TryCatch", "Import"]

/-- The place of a statement's kind among these.  Loops over a range and loops over the elements of
a value are of one kind. -/
def Stmt.kindIndex : Stmt → Nat
  | .assign _ => 0
  | .subroutine _ => 1
  | .branch _ => 2
  | .whileLoop _ _ _ => 3
  | .repeatLoop _ _ _ => 4
  | .forRange _ _ _ _ _ _ => 5
  | .forEach _ _ _ _ => 5
  | .record _ _ _ => 6
  | .classDef _ _ _ _ => 7
  | .attempt _ _ _ => 8
  | .load _ _ _ => 9
  | .expr _ => 10

theorem Stmt.exists_outline (x : Stmt) :
    ∃ k xs, x.outline = node k x.span xs ∧ Stmt.kindNames.idxOf k = x.kindIndex := by
  cases x with
  | expr e => cases e <;> exact ⟨_, _, rfl, rfl⟩
  | subroutine d =>
    cases d
    exact ⟨_, _, rfl, rfl⟩
  | branch b =>
    cases b
    exact ⟨_, _, rfl, rfl⟩
  | _ => exact ⟨_, _, rfl, rfl⟩

/-- Statements with alike outlines are of one kind. -/
theorem Stmt.kindIndex_eq {x x' : Stmt} (h : x.outline.Alike x'.outline) :
    x.kindIndex = x'.kindIndex := by
  obtain ⟨k, xs, shown, index⟩ := x.exists_outline
  obtain ⟨k', xs', shown', index'⟩ := x'.exists_outline
  rw [shown, shown'] at h
  rw [← index, ← index', h.kind_eq]

mutual

theorem Stmt.eq_of_alike : ∀ {x x' : Stmt}, x.outline.Alike x'.outline → x = x'
  | .expr e, x', h => by
    cases x' with
    | expr e' => rw [Expr.eq_of_alike h]
    | _ => nomatch Stmt.kindIndex_eq h
  | .assign a, x', h => by
    cases x' with
    | assign a' => rw [Assignment.eq_of_alike h]
    | _ => nomatch Stmt.kindIndex_eq h
  | .subroutine d, x', h => by
    cases x' with
    | subroutine d' => rw [Routine.eq_of_alike h]
    | _ => nomatch Stmt.kindIndex_eq h
  | .branch b, x', h => by
    cases x' with
    | branch b' => rw [Branch.eq_of_alike h]
    | _ => nomatch Stmt.kindIndex_eq h
  | .whileLoop s condition body, x', h => by
    cases x' with
    | whileLoop s' condition' body' =>
      obtain rfl := h.span_eq
      obtain rfl := Expr.eq_of_alike (h.field "condition" rfl rfl)
      obtain rfl := Block.eq_of_alike (h.field "body" rfl rfl)
      rfl
    | _ => nomatch Stmt.kindIndex_eq h
  | .repeatLoop s body condition, x', h => by
    cases x' with
    | repeatLoop s' body' condition' =>
      obtain rfl := h.span_eq
      obtain rfl := Block.eq_of_alike (h.field "body" rfl rfl)
      obtain rfl := Expr.eq_of_alike (h.field "condition" rfl rfl)
      rfl
    | _ => nomatch Stmt.kindIndex_eq h
  | .forRange s counter first last step body, x', h => by
    cases x' with
    | forRange s' counter' first' last' step' body' =>
      obtain rfl := h.span_eq
      obtain rfl := (h.field "variable" rfl rfl).text_eq
      obtain rfl := Block.eq_of_alike (h.field "body" rfl rfl)
      obtain rfl := Expr.eq_of_alike (h.field "start" rfl rfl)
      obtain rfl := Expr.eq_of_alike (h.field "end" rfl rfl)
      obtain rfl := step_eq_of_alike (h.fields "step")
      rfl
    | forEach => nomatch h.fields "start"
    | _ => nomatch Stmt.kindIndex_eq h
  | .forEach s counter iterable body, x', h => by
    cases x' with
    | forEach s' counter' iterable' body' =>
      obtain rfl := h.span_eq
      obtain rfl := (h.field "variable" rfl rfl).text_eq
      obtain rfl := Block.eq_of_alike (h.field "body" rfl rfl)
      obtain rfl := Expr.eq_of_alike (h.field "iterable" rfl rfl)
      rfl
    | forRange => nomatch h.fields "start"
    | _ => nomatch Stmt.kindIndex_eq h
  | .record s name fields, x', h => by
    cases x' with
    | record s' name' fields' =>
      obtain rfl := h.span_eq
      obtain rfl := (h.field "name" rfl rfl).text_eq
      obtain rfl := fields_eq_of_alike (h.field "fields" rfl rfl)
      rfl
    | _ => nomatch Stmt.kindIndex_eq h
  | .classDef s name statics methods, x', h => by
    cases x' with
    | classDef s' name' statics' methods' =>
      obtain rfl := h.span_eq
      obtain rfl := (h.field "name" rfl rfl).text_eq
      obtain rfl := map_eq_of_alike Assignment.eq_of_alike (h.field "statics" rfl rfl).items
      obtain rfl := routines_eq_of_alike (h.field "methods" rfl rfl).items
      rfl
    | _ => nomatch Stmt.kindIndex_eq h
  | .attempt s body rescue, x', h => by
    cases x' with
    | attempt s' body' rescue' =>
      obtain rfl := h.span_eq
      obtain rfl := Block.eq_of_alike (h.field "body" rfl rfl)
      obtain rfl := Block.eq_of_alike (h.field "catch" rfl rfl)
      rfl
    | _ => nomatch Stmt.kindIndex_eq h
  | .load s location nickname, x', h => by
    cases x' with
    | load s' location' nickname' =>
      obtain rfl := h.span_eq
      obtain rfl := Expr.eq_of_alike (h.field "location" rfl rfl)
      obtain rfl := (h.field "alias" rfl rfl).text_eq
      rfl
    | _ => nomatch Stmt.kindIndex_eq h
termination_by structural x => x

theorem Block.eq_of_alike : ∀ {b b' : Block}, b.outline.Alike b'.outline → b = b'
  | .mk s body, .mk s' body', h => by
    obtain rfl := h.span_eq
    obtain rfl := stmts_eq_of_alike (h.field "body" rfl rfl).items
    rfl
termination_by structural x => x

theorem stmts_eq_of_alike : ∀ {body body' : List Stmt},
    List.Forall₂ Datum.Alike (outlineStmts body) (outlineStmts body') → body = body'
  | [], [], _ => rfl
  | x :: body, x' :: body', .cons first rest => by
    rw [Stmt.eq_of_alike first, stmts_eq_of_alike rest]
termination_by structural x => x

theorem Branch.eq_of_alike : ∀ {b b' : Branch}, b.outline.Alike b'.outline → b = b'
  | .mk s condition consequence alternative, .mk s' condition' consequence' alternative', h => by
    obtain rfl := h.span_eq
    obtain rfl := Expr.eq_of_alike (h.field "condition" rfl rfl)
    obtain rfl := Block.eq_of_alike (h.field "consequence" rfl rfl)
    obtain rfl := Otherwise.eq_of_alike (h.fields "else")
    rfl
termination_by structural x => x

/-- What is done otherwise is a further branch or a block, and these are of two kinds. -/
theorem Otherwise.eq_of_alike : ∀ {o o' : Otherwise},
    Option.Rel Datum.Alike (o.outline.lookup "else") (o'.outline.lookup "else") → o = o'
  | .absent, o', h => by
    cases o' with
    | absent => rfl
    | _ => nomatch h
  | .elseIf b, o', h => by
    cases o' with
    | absent => nomatch h
    | elseIf b' =>
      cases h with
      | some here => rw [Branch.eq_of_alike here]
    | elseBlock b' =>
      cases b
      cases b'
      cases h with
      | some here => nomatch here.kind_eq
  | .elseBlock b, o', h => by
    cases o' with
    | absent => nomatch h
    | elseIf b' =>
      cases b
      cases b'
      cases h with
      | some here => nomatch here.kind_eq
    | elseBlock b' =>
      cases h with
      | some here => rw [Block.eq_of_alike here]
termination_by structural x => x

theorem Routine.eq_of_alike : ∀ {d d' : Routine}, d.outline.Alike d'.outline → d = d'
  | .mk s name params body, .mk s' name' params' body', h => by
    obtain rfl := h.span_eq
    obtain rfl := (h.field "name" rfl rfl).text_eq
    obtain rfl := map_eq_of_alike Param.eq_of_alike (h.field "params" rfl rfl).items
    obtain rfl := Block.eq_of_alike (h.field "body" rfl rfl)
    rfl
termination_by structural x => x

theorem routines_eq_of_alike : ∀ {ds ds' : List Routine},
    List.Forall₂ Datum.Alike (outlineRoutines ds) (outlineRoutines ds') → ds = ds'
  | [], [], _ => rfl
  | d :: ds, d' :: ds', .cons first rest => by
    rw [Routine.eq_of_alike first, routines_eq_of_alike rest]
termination_by structural x => x

end

/-- Two programs show alike outlines only if they are the same program, spans included: nothing in
a program is left out of its outline, and no two things in it look the same there. -/
theorem Block.outline_alike_iff (p q : Block) : p.outline.Alike q.outline ↔ p = q := by
  constructor
  · exact Block.eq_of_alike
  · rintro rfl
    exact p.outline.alike_self

end Pseudocode
