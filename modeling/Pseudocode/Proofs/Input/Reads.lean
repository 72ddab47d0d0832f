import Pseudocode.Proofs.Execution.Safe
import Mathlib.Data.List.DropRight
/-
# `Proofs.Input.Reads` — reads of the input, in the order of execution

`Reads x env w answers` says that the action `x`, started in the world `w`, can be
followed step by step, and that the reads of the input on the way were answered so:
with a line each, or, when the input was at its end, with the error E3014.  There is
nothing else in such a course than reads of a line and steps in which the input has no
part (`Still`); such a step leaves the input alone and does the same whatever the input
is, so no read can hide in it.

Two facts are proved of courses.  The answers are the lines of the input one after
another, and errors from then on (`Reads.answers`).  And every course of an action that is
put together from such steps can be followed (`Traceable`, with one rule for each way of
putting actions together).
-/
namespace Pseudocode

/-! ## The lines of a text -/

namespace Input

/-- The lines of a text, without their newlines and the returns in front of them.  What
follows the last newline is a line unless it is empty. -/
def lines (text : List Char) : List String :=
  let pieces := text.splitOn '\n'
  (if pieces.getLast? = some [] then pieces.dropLast else pieces).map fun piece =>
    String.ofList (piece.rdropWhile (· = '\r'))

theorem lines_nil : lines [] = [] := by simp [lines, List.splitOn_nil]

/-- A text is a line and the lines of what follows its newline. -/
theorem lines_line {piece : List Char} (h : '\n' ∉ piece) (rest : List Char) :
    lines (piece ++ '\n' :: rest) = String.ofList (piece.rdropWhile (· = '\r')) :: lines rest := by
  obtain ⟨next, more, hrest⟩ := List.exists_cons_of_ne_nil (List.splitOn_ne_nil '\n' rest)
  simp only [lines, List.splitOn_append_cons_self_of_not_mem h, hrest, List.getLast?_cons_cons,
    List.dropLast_cons_cons]
  split <;> rfl

/-- A text without a newline is one line, unless it is empty. -/
theorem lines_rest {piece : List Char} (h : '\n' ∉ piece) (more : piece ≠ []) :
    lines piece = [String.ofList (piece.rdropWhile (· = '\r'))] := by
  simp [lines, List.splitOn_eq_singleton h, more]

example : lines "a\r\r\n\nb".toList = ["a", "", "b"] := by decide

/-- Without newlines in it, only returns are dropped from the end of a line. -/
theorem dropLineEnd_eq {line : List Char} (h : '\n' ∉ line) :
    Eval.dropLineEnd line = line.rdropWhile (· = '\r') := by
  have same : ∀ cs : List Char, '\n' ∉ cs →
      cs.dropWhile (fun c => c = '\r' || c = '\n') = cs.dropWhile (· = '\r') := by
    intro cs hcs
    induction cs with
    | nil => rfl
    | cons c cs ih =>
      rw [List.mem_cons, not_or] at hcs
      simp [List.dropWhile_cons, ih hcs.2, Ne.symm hcs.1]
  rw [Eval.dropLineEnd, same _ (by simpa using h), List.rdropWhile]

/-- What a read takes from a text is its first line, and the other lines are left. -/
theorem lines_eq_cons {text : List Char} (more : text ≠ []) :
    lines text = String.ofList (Eval.dropLineEnd (text.takeWhile (· != '\n'))) ::
      lines ((text.dropWhile (· != '\n')).drop 1) := by
  have hline : '\n' ∉ text.takeWhile (· != '\n') := fun mem => by
    simpa using List.mem_takeWhile_imp mem
  rw [dropLineEnd_eq hline]
  cases hdrop : text.dropWhile (· != '\n') with
  | nil =>
    -- There is no newline: the text is one line, and nothing is left of it.
    have hall : text.takeWhile (· != '\n') = text := by
      have whole := List.takeWhile_append_dropWhile (p := (· != '\n')) (l := text)
      rwa [hdrop, List.append_nil] at whole
    rw [hall] at hline ⊢
    rw [lines_rest hline more, List.drop_nil, lines_nil]
  | cons c rest =>
    have hc : c = '\n' := by
      have stop := List.head_dropWhile_not (· != '\n') (w := by rw [hdrop]; exact List.cons_ne_nil _ _)
      simpa [hdrop] using stop
    have whole := List.takeWhile_append_dropWhile (p := (· != '\n')) (l := text)
    rw [hdrop, hc] at whole
    conv_lhs => rw [← whole]
    exact lines_line hline rest

theorem lines_eq_nil {text : List Char} : lines text = [] ↔ text = [] := by
  constructor
  · intro none
    by_contra more
    rw [lines_eq_cons more] at none
    exact List.cons_ne_nil _ _ none
  · rintro rfl
    exact lines_nil

/-- The answers are the lines of a text, one after another, and errors after the last. -/
def Gives (text : List Char) (answers : List (Option String)) : Prop :=
  ∀ i (h : i < answers.length), answers[i] = (lines text)[i]?

/-- Reads of a text were answered with its lines, and this is the rest of the text. -/
structure Answers (text : List Char) (answers : List (Option String)) (rest : List Char) :
    Prop where
  each : Gives text answers
  rest : lines rest = (lines text).drop answers.length

section

variable {text middle rest : List Char} {first second : List (Option String)}

namespace Answers

theorem nil (text : List Char) : Answers text [] text where
  each _ h := nomatch h
  rest := rfl

theorem append (h : Answers text first middle) (k : Answers middle second rest) :
    Answers text (first ++ second) rest where
  each i hi := by
    rw [List.getElem_append]
    split
    · exact h.each i _
    · next beyond =>
      rw [k.each, h.rest, List.getElem?_drop]
      congr 1
      omega
  rest := by rw [k.rest, h.rest, List.drop_drop, List.length_append]

/-- One read of a text that is not at its end. -/
theorem line (more : text ≠ []) :
    Answers text [some (String.ofList (Eval.dropLineEnd (text.takeWhile (· != '\n'))))]
      ((text.dropWhile (· != '\n')).drop 1) := by
  have hlines := lines_eq_cons more
  refine ⟨fun i hi => ?_, by rw [hlines]; rfl⟩
  obtain rfl : i = 0 := by simpa using hi
  rw [hlines]
  rfl

/-- One read of a text that is at its end. -/
theorem ended : Answers [] [none] [] := by
  refine ⟨fun i hi => ?_, by rw [lines_nil]; rfl⟩
  obtain rfl : i = 0 := by simpa using hi
  rw [lines_nil]
  rfl

end Answers

end

end Input

/-! ## Courses -/

namespace Eval

variable {α β : Type} {x : Eval α} {f : α → Eval β} {env : Env} {w w' : World}

/-- A result that leaves another rest of the input. -/
def leaving (input : List Char) : EStateM.Result Failure World α → EStateM.Result Failure World α
  | .ok a w => .ok a { w with input }
  | .error e w => .error e { w with input }

theorem input_worldAfter {rest : List Char} {result : EStateM.Result Failure World α}
    (h : x env w = leaving rest result) : (x.worldAfter env w).input = rest := by
  rw [worldAfter, h]
  cases result <;> rfl

/-- The input has no part in the action: it is left alone, and the action does the same
whatever it is. -/
def Still (x : Eval α) : Prop :=
  ∀ env w input, x env { w with input } = leaving input (x env w)

theorem Still.input (h : x.Still) (env : Env) (w : World) :
    (x.worldAfter env w).input = w.input :=
  input_worldAfter (h env w w.input)

/-- The action can be followed, and the reads of the input on the way were answered so, in
this order: with a line, or with the error at the end of the input. -/
inductive Reads : {α : Type} → Eval α → Env → World → List (Option String) → Prop
  | still {α : Type} {x : Eval α} {env : Env} {w : World} : x.Still → Reads x env w []
  | line {env : Env} {w w' : World} {span : Span} {s : String} :
      readLine span env w = .ok (.string s) w' → Reads (readLine span) env w [some s]
  | ended {env : Env} {w w' : World} {span : Span} {d : Diagnostic} :
      readLine span env w = .error (.fault (.runtime d none)) w' → d.code = "E3014" →
        Reads (readLine span) env w [none]
  | bind {α β : Type} {x : Eval α} {f : α → Eval β} {env : Env} {w w' : World} {a : α}
      {first second : List (Option String)} : x env w = .ok a w' → Reads x env w first →
        Reads (f a) env w' second → Reads (x >>= f) env w (first ++ second)
  | stop {α β : Type} {x : Eval α} {f : α → Eval β} {env : Env} {w w' : World} {e : Failure}
      {first : List (Option String)} : x env w = .error e w' → Reads x env w first →
        Reads (x >>= f) env w first
  | uncaught {α : Type} {x : Eval α} {f : Failure → Eval α} {env : Env} {w w' : World} {a : α}
      {first : List (Option String)} : x env w = .ok a w' → Reads x env w first →
        Reads (tryCatch x f) env w first
  | caught {α : Type} {x : Eval α} {f : Failure → Eval α} {env : Env} {w w' : World} {e : Failure}
      {first second : List (Option String)} : x env w = .error e w' → Reads x env w first →
        Reads (f e) env w' second → Reads (tryCatch x f) env w (first ++ second)
  /-- What another interpreter reads is read from the same input. -/
  | on {α : Type} {x : Eval α} {id : InterpreterId} {env : Env} {w : World}
      {answers : List (Option String)} : Reads x { env with self := id } w answers →
        Reads (on id x) env w answers

/-- Reading a line of input that is not at its end. -/
theorem readLine_more (span : Span) (env : Env) (more : w.input ≠ []) : readLine span env w =
    .ok (.string (String.ofList (dropLineEnd (w.input.takeWhile (· != '\n')))))
      { w with input := (w.input.dropWhile (· != '\n')).drop 1 } := by
  have hempty : w.input.isEmpty = false := by simpa using more
  change (if w.input.isEmpty then _ else _ : Eval Value) env w = _
  rw [hempty]
  rfl

/-- Reading a line of input that is at its end fails, and leaves it there. -/
theorem readLine_ended (span : Span) (env : Env) (ended : w.input = []) : ∃ d : Diagnostic,
    readLine span env w = .error (.fault (.runtime d none)) w ∧ d.code = "E3014" := by
  have hempty : w.input.isEmpty = true := by simpa using ended
  let origin := (w.interpreters.getD env.self.index default).frame.origin
  refine ⟨(Diagnostic.error Code.endOfInput.text span "EOF when reading a line").inText origin.name
    origin.text, ?_, ?_⟩
  · change (if w.input.isEmpty then _ else _ : Eval Value) env w = _
    rw [hempty]
    rfl
  · simp only [Diagnostic.inText]
    split <;> rfl

theorem more_of_readLine_ok {span : Span} {v : Value} (h : readLine span env w = .ok v w') :
    w.input ≠ [] := by
  intro ended
  obtain ⟨d, failed, -⟩ := readLine_ended span env ended
  rw [failed] at h
  cases h

theorem ended_of_readLine_error {span : Span} {e : Failure} (h : readLine span env w = .error e w') :
    w.input = [] ∧ w' = w := by
  by_cases ended : w.input = []
  · obtain ⟨d, failed, -⟩ := readLine_ended span env ended
    rw [failed] at h
    cases h
    exact ⟨ended, rfl⟩
  · rw [readLine_more span env ended] at h
    cases h

/-- Reads are answered with the lines of the input, one after another, and with errors
after the last. -/
theorem Reads.answers {answers : List (Option String)} (h : Reads x env w answers) :
    Input.Answers w.input answers (x.worldAfter env w).input := by
  induction h with
  | still h =>
    rw [h.input]
    exact .nil _
  | @line env w w' span s h =>
    have more := more_of_readLine_ok h
    rw [worldAfter_ok h]
    rw [readLine_more span env more] at h
    cases h
    exact .line more
  | ended h _ =>
    obtain ⟨ended, rfl⟩ := ended_of_readLine_error h
    rw [worldAfter_error h, ended]
    exact .ended
  | bind h _ _ ihx ihf =>
    rw [worldAfter_ok h] at ihx
    rw [worldAfter_bind_ok h]
    exact ihx.append ihf
  | stop h _ ih =>
    rw [worldAfter_error h] at ih
    rwa [worldAfter_bind_error h]
  | uncaught h _ ih =>
    rw [worldAfter_ok h] at ih
    rwa [worldAfter_ok (tryCatch_ok h _)]
  | caught h _ _ ihx ihf =>
    rw [worldAfter_error h] at ihx
    rw [worldAfter, tryCatch_error h, ← worldAfter]
    exact ihx.append ihf
  | on _ ih => exact ih

/-! ## Steps in which the input has no part -/

namespace Still

theorem pure (a : α) : Still (Pure.pure a) := fun _ _ _ => rfl

theorem bind (hx : x.Still) (hf : ∀ a, (f a).Still) : (x >>= f).Still := by
  intro env w input
  have first := hx env w input
  cases h : x env w with
  | ok a w' =>
    rw [h] at first
    rw [bind_ok first, bind_ok h]
    exact hf a env w' input
  | error e w' =>
    rw [h] at first
    rw [bind_error first, bind_error h]
    rfl

theorem inHeap (g : Heap → α) : (Eval.inHeap g).Still := fun _ _ _ => rfl

theorem onHeap (g : Heap → α × Heap) : (Eval.onHeap g).Still := fun _ _ _ => rfl

theorem changeHeap (g : Heap → Heap) : (Eval.changeHeap g).Still := fun _ _ _ => rfl

theorem newBuiltin (name : String) (action : Native) : (Eval.newBuiltin name action).Still :=
  fun _ _ _ => rfl

theorem read : (MonadReader.read : Eval Env).Still := fun _ _ _ => rfl

theorem interpreter (id : InterpreterId) : (Eval.interpreter id).Still := fun _ _ _ => rfl

theorem self : Still Eval.self := fun _ _ _ => rfl

theorem changeSelf (g : Interpreter → Interpreter) : (Eval.changeSelf g).Still := fun _ _ _ => rfl

theorem frame : Still Eval.frame := fun _ _ _ => rfl

theorem scope : Still Eval.scope := fun _ _ _ => rfl

theorem throw (e : Failure) : (MonadExcept.throw e : Eval α).Still := fun _ _ _ => rfl

theorem diagnose (span : Span) (t : Trouble) : (Eval.diagnose span t).Still := fun _ _ _ => rfl

theorem write (s : String) : (Eval.write s).Still := fun _ _ _ => rfl

theorem tell (e : Option Event) : (Eval.tell e).Still := by
  cases e with
  | none => exact pure ()
  | some e => exact fun _ _ _ => rfl

theorem define (s : ScopeRef) (name : String) (v : Value) (constant : Bool) :
    (Eval.define s name v constant).Still :=
  (changeHeap _).bind fun _ => (inHeap _).bind tell

end Still

/-! ## Following actions -/

/-- Every course of the action can be followed. -/
def Traceable (x : Eval α) : Prop := ∀ env w, ∃ answers, Reads x env w answers

namespace Traceable

variable {y : Eval α}

theorem still (h : x.Still) : Traceable x := fun _ _ => ⟨[], .still h⟩

theorem pure (a : α) : Traceable (Pure.pure a) := .still (.pure a)

theorem raise (f : Fault) : Traceable (Eval.raise f : Eval α) := .still (.throw _)

theorem outOfFuel : Traceable (Eval.outOfFuel : Eval α) := .still (.throw _)

theorem bind (hx : Traceable x) (hf : ∀ a, Traceable (f a)) : Traceable (x >>= f) := by
  intro env w
  obtain ⟨first, hfirst⟩ := hx env w
  cases h : x env w with
  | ok a w' =>
    obtain ⟨second, hsecond⟩ := hf a env w'
    exact ⟨first ++ second, .bind h hfirst hsecond⟩
  | error e w' => exact ⟨first, .stop h hfirst⟩

theorem tryCatch {h : Failure → Eval α} (hx : Traceable x) (hh : ∀ e, Traceable (h e)) :
    Traceable (tryCatch x h) := by
  intro env w
  obtain ⟨first, hfirst⟩ := hx env w
  cases hres : x env w with
  | ok a w' => exact ⟨first, .uncaught hres hfirst⟩
  | error e w' =>
    obtain ⟨second, hsecond⟩ := hh e env w'
    exact ⟨first ++ second, .caught hres hfirst hsecond⟩

theorem on (id : InterpreterId) (hx : Traceable x) : Traceable (Eval.on id x) := by
  intro env w
  obtain ⟨answers, h⟩ := hx { env with self := id } w
  exact ⟨answers, .on h⟩

theorem readLine (span : Span) : Traceable (Eval.readLine span) := by
  intro env w
  by_cases h : w.input = []
  · obtain ⟨d, failed, code⟩ := readLine_ended span env h
    exact ⟨_, .ended failed code⟩
  · exact ⟨_, .line (readLine_more span env h)⟩

theorem ite {p : Prop} [Decidable p] (hx : Traceable x) (hy : Traceable y) :
    Traceable (if p then x else y) := by
  split
  · exact hx
  · exact hy

/-- Something is done first if a condition holds. -/
theorem guard {p : Prop} [Decidable p] {x : Eval Unit} {k : Unit → Eval α} (hx : Traceable x)
    (hk : ∀ u, Traceable (k u)) : Traceable (if p then x >>= k else k ()) :=
  .ite (hx.bind hk) (hk ())

theorem discard (hx : Traceable x) : Traceable (discard x) := by
  rw [discard_eq]
  exact hx.bind fun _ => .pure ()

section Loops

variable {κ : Type}

theorem mapM {g : κ → Eval α} (hg : ∀ k, Traceable (g k)) : ∀ ks : List κ, Traceable (ks.mapM g)
  | [] => .pure []
  | k :: ks => by
    rw [List.mapM_cons]
    exact (hg k).bind fun a => (mapM hg ks).bind fun as => .pure (a :: as)

theorem forM {g : κ → Eval PUnit} (hg : ∀ k, Traceable (g k)) : ∀ ks : List κ, Traceable (ks.forM g)
  | [] => .pure _
  | k :: ks => (hg k).bind fun _ => forM hg ks

theorem foldlM {g : α → κ → Eval α} (hg : ∀ a k, Traceable (g a k)) :
    ∀ (ks : List κ) (a : α), Traceable (ks.foldlM g a)
  | [], a => .pure a
  | k :: ks, a => by
    rw [List.foldlM_cons]
    exact (hg a k).bind fun b => foldlM hg ks b

theorem forIn {g : κ → α → Eval (ForInStep α)} (hg : ∀ k a, Traceable (g k a)) :
    ∀ (ks : List κ) (a : α), Traceable (forIn ks a g)
  | [], a => .pure a
  | k :: ks, a => by
    rw [List.forIn_cons]
    refine (hg k a).bind fun step => ?_
    cases step with
    | done b => exact .pure b
    | yield b => exact forIn hg ks b

end Loops

/-! ### The steps execution is made of -/

theorem inHeap (g : Heap → α) : Traceable (Eval.inHeap g) := .still (.inHeap g)

theorem onHeap (g : Heap → α × Heap) : Traceable (Eval.onHeap g) := .still (.onHeap g)

theorem changeHeap (g : Heap → Heap) : Traceable (Eval.changeHeap g) := .still (.changeHeap g)

theorem read : Traceable (MonadReader.read : Eval Env) := .still .read

theorem self : Traceable Eval.self := .still .self

theorem frame : Traceable Eval.frame := .still .frame

theorem scope : Traceable Eval.scope := .still .scope

theorem changeSelf (g : Interpreter → Interpreter) : Traceable (Eval.changeSelf g) :=
  .still (.changeSelf g)

theorem newBuiltin (name : String) (action : Native) : Traceable (Eval.newBuiltin name action) :=
  .still (.newBuiltin name action)

theorem write (s : String) : Traceable (Eval.write s) := .still (.write s)

theorem tell (e : Option Event) : Traceable (Eval.tell e) := .still (.tell e)

theorem define (s : ScopeRef) (name : String) (v : Value) (constant : Bool) :
    Traceable (Eval.define s name v constant) := .still (.define s name v constant)

theorem diagnose (span : Span) (t : Trouble) : Traceable (Eval.diagnose span t) :=
  .still (.diagnose span t)

theorem copy (v : Value) : Traceable (Eval.copy v) := by
  cases v with
  | array r => exact .onHeap (Heap.copy (.array r))
  | dict r => exact .onHeap (Heap.copy (.dict r))
  | _ => exact .pure _

theorem newArray (elements : List Value) : Traceable (Eval.newArray elements) := .onHeap _

theorem newDict (d : Dictionary) : Traceable (Eval.newDict d) := .onHeap _

theorem withFrame (fr : Frame) (hx : Traceable x) : Traceable (Eval.withFrame fr x) :=
  .bind .frame fun _ => .bind (.changeSelf _) fun _ =>
    .bind (.tryCatch hx fun e => .bind (.changeSelf _) fun _ => .still (.throw e)) fun _ =>
      .bind (.changeSelf _) fun _ => .pure _

theorem fail (t : Trouble) : Traceable (Eval.fail t : Eval α) := .raise _

theorem failAt (span : Span) (t : Trouble) : Traceable (Eval.failAt span t : Eval α) :=
  .bind (.diagnose span t) fun _ => .raise _

theorem relocate (span : Span) (d : Diagnostic) : Traceable (Eval.relocate span d) :=
  .ite (.bind .frame fun _ => .pure _) (.pure _)

theorem place (span : Span) (fault : Fault) : Traceable (Eval.place span fault) := by
  cases fault with
  | runtime d cause => exact .bind (.relocate span d) fun _ => .pure _
  | moduleNotFound d name searched => exact .bind (.relocate span d) fun _ => .pure _
  | unplaced t => exact .bind (.diagnose span t) fun _ => .pure _
  | _ => exact .bind (.diagnose span _) fun _ => .pure _

theorem placed (span : Span) (hx : Traceable x) : Traceable (Eval.placed span x) := by
  refine .tryCatch hx fun e => ?_
  cases e with
  | fault fault => exact .bind (.place span fault) fun _ => .raise _
  | outOfFuel => exact .outOfFuel

theorem ofExcept (result : Except Trouble α) : Traceable (Eval.ofExcept result) := by
  cases result with
  | ok a => exact .pure a
  | error t => exact .fail t

theorem ofExceptAt (span : Span) (result : Except Trouble α) :
    Traceable (Eval.ofExceptAt span result) := by
  cases result with
  | ok a => exact .pure a
  | error t => exact .failAt span t

theorem ofHeapOp (op : HeapOp α) : Traceable (Eval.ofHeapOp op) :=
  .bind (.onHeap _) fun result => .ofExcept result

theorem ofHeapOpAt (span : Span) (op : HeapOp α) : Traceable (Eval.ofHeapOpAt span op) :=
  .bind (.onHeap _) fun result => .ofExceptAt span result

theorem assign (s : ScopeRef) (name : String) (v : Value) : Traceable (Eval.assign s name v) :=
  .bind (.inHeap _) fun _ => .guard (.fail _) fun _ => .define s name v false

theorem bindSelf (span : Span) (name : String) (v : Value) : Traceable (Eval.bindSelf span name v) :=
  .bind .scope fun s => .placed span (.assign s name v)

theorem bindCopy (span : Span) (name : String) (v : Value) : Traceable (Eval.bindCopy span name v) :=
  .bind (.copy v) fun u => .bindSelf span name u

end Traceable

end Eval

end Pseudocode
