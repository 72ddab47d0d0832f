import Pseudocode.Proofs.Embedded.Builtins
import Pseudocode.Proofs.Strings.Positions
/-
# `Proofs.Embedded.Strings` — the helpers for strings do what they are for

The module `strings` is written in the language itself.  Its subroutines are run here, as they
stand in the embedded library, with the rules of execution.  The loop of `SPLIT` cuts the text at
the leftmost occurrence of the separator and goes on with the rest (`Splitting`); that of `JOIN`
puts the parts together with the separator between them (`Joining`); that of `REVERSE` puts each
character in front of those before it (`Reversing`).  In every world in which the module has been
imported, a text that is split and joined again is what it was (`strings_imported_correct`).
-/
namespace Pseudocode

/-! ## Slices from the start and to the end -/

namespace Builtins

variable {cs : List Char} {p : Nat}

theorem slice_to (inside : p ≤ cs.length) (word : (cs.length : Int) ≤ Value.maxInt) :
    slice cs 0 ((p : Int) - 1) = cs.take p := by
  have front := slice_run (p := 0) (n := p) (by rwa [Nat.zero_add]) word
  rwa [Int.natCast_zero, Int.zero_add, List.drop_zero] at front

theorem slice_from (inside : p ≤ cs.length) (word : (cs.length : Int) ≤ Value.maxInt) :
    slice cs p ((cs.length : Int) - 1) = cs.drop p := by
  have back := slice_run (p := p) (n := cs.length - p) (by omega) word
  rwa [← Int.natCast_add, Nat.add_sub_cancel' inside,
    List.take_of_length_le (by rw [List.length_drop])] at back

end Builtins

/-- Strings as values. -/
def texts (ps : List (List Char)) : List Value := ps.map fun p => .string (String.ofList p)

/-! ## Splitting -/

/-- What `POSITION` answers. -/
def place (s rest : List Char) : Int := ((Builtins.occurrence? 0 s rest).map Int.ofNat).getD (-1)

/-- The loop of `SPLIT` has cut off these parts, and this is the rest. -/
structure Splitting (k : Nat) (s : String) (done : List (List Char)) (rest : List Char)
    (m : Memory) : Prop where
  parts : m.vars.get? "parts" = some (.array ⟨k⟩)
  separator : m.vars.get? "separator" = some (.string s)
  left : m.vars.get? "rest" = some (.string (String.ofList rest))
  pos : m.vars.get? "pos" = some (.int (place s.toList rest))
  builtins : ∀ f ∈ ["LEN", "POSITION", "SUBSTRING"], m.vars.get? f = none
  held : m.Holds ⟨k⟩ (texts done)

open Embedded in
/-- A round of the loop of `SPLIT`. -/
def splitRound : List Stmt :=
  [.expr (.call default (member "parts" ["append"])
      [apply "SUBSTRING" [number 0, infixed .sub (name "pos") (number 1), name "rest"]]),
    set "rest" (apply "SUBSTRING" [infixed .add (name "pos") (apply "LEN" [name "separator"]),
      infixed .sub (apply "LEN" [name "rest"]) (number 1), name "rest"]),
    set "pos" (apply "POSITION" [name "rest", name "separator"])]

namespace Splitting

open Room

variable {ρ : Room} {home : InterpreterId} {m : Memory} {k : Nat} {s : String}
  {done : List (List Char)} {before after rest : List Char}

/-- Whatever is allocated besides, the variables and what they hold stay. -/
theorem skip (st : Splitting k s done rest m) (n : Nat) :
    Splitting k s done rest { m with fresh := n } :=
  ⟨st.parts, st.separator, st.left, st.pos, st.builtins, st.held⟩

theorem push (st : Splitting k s done rest m) (part : List Char) :
    Splitting k s (done ++ [part]) rest
      { m with arrays := m.arrays.modify k (·.push (.string (String.ofList part))) } := by
  refine ⟨st.parts, st.separator, st.left, st.pos, st.builtins, ?_⟩
  rw [texts, List.map_append]
  exact st.held.push _ _ _

theorem pos_of_leftmost (leftmost : Leftmost before s.toList after)
    (st : Splitting k s done (before ++ s.toList ++ after) m) :
    m.vars.get? "pos" = some (.int before.length) := by
  rw [st.pos, place, Builtins.occurrence?_of_leftmost leftmost]
  rfl

/-- The part in front of the separator. -/
theorem evals_front (around : ρ.globals.Offers home) (leftmost : Leftmost before s.toList after)
    (word : ((before ++ s.toList ++ after).length : Int) ≤ Value.maxInt)
    (st : Splitting k s done (before ++ s.toList ++ after) m) :
    ρ.Evals m (Embedded.apply "SUBSTRING" [Embedded.number 0,
        Embedded.infixed .sub (Embedded.name "pos") (Embedded.number 1), Embedded.name "rest"])
      (.string (String.ofList before)) m := by
  have sizes : (before ++ s.toList ++ after).length =
      before.length + s.toList.length + after.length := by
    rw [List.length_append, List.length_append]
  have upper : ρ.Evals m (Embedded.infixed .sub (Embedded.name "pos") (Embedded.number 1))
      (.int (before.length - 1)) m :=
    evals_binary rfl (evals_name (finds_local (st.pos_of_leftmost leftmost))) (evals_number 1)
      fun h => binaryOp_sub h (inRange_of_le (by omega) (by omega)) rfl
        (inRange_of_le (by omega) (by omega))
  have part := evals_substring (offers_global (m := m) around (by simp [Builtins.subroutines])
    (st.builtins "SUBSTRING" (by simp))) (evals_number 0) upper (evals_name (finds_local st.left))
  rwa [String.toList_ofList, Builtins.slice_to (by omega) word, List.append_assoc,
    List.take_left] at part

/-- The rest behind the separator. -/
theorem evals_behind (around : ρ.globals.Offers home) (leftmost : Leftmost before s.toList after)
    (word : ((before ++ s.toList ++ after).length : Int) ≤ Value.maxInt)
    (st : Splitting k s done (before ++ s.toList ++ after) m) :
    ρ.Evals m (Embedded.apply "SUBSTRING"
        [Embedded.infixed .add (Embedded.name "pos") (Embedded.apply "LEN" [Embedded.name "separator"]),
          Embedded.infixed .sub (Embedded.apply "LEN" [Embedded.name "rest"]) (Embedded.number 1),
          Embedded.name "rest"])
      (.string (String.ofList after)) m := by
  have length : (String.ofList (before ++ s.toList ++ after)).length =
      (before ++ s.toList ++ after).length := String.length_ofList
  have sizes : (before ++ s.toList ++ after).length =
      before.length + s.toList.length + after.length := by
    rw [List.length_append, List.length_append]
  have size : s.toList.length = s.length := String.length_toList
  have len : ρ.Offers m "LEN" .len :=
    offers_global around (by simp [Builtins.subroutines]) (st.builtins "LEN" (by simp))
  have text : ρ.Evals m (Embedded.name "rest")
      (.string (String.ofList (before ++ s.toList ++ after))) m :=
    evals_name (finds_local st.left)
  have lower : ρ.Evals m (Embedded.infixed .add (Embedded.name "pos")
      (Embedded.apply "LEN" [Embedded.name "separator"])) (.int (before.length + s.length)) m :=
    evals_binary rfl (evals_name (finds_local (st.pos_of_leftmost leftmost)))
      (evals_len_text len (evals_name (finds_local st.separator))) fun h =>
      binaryOp_add h (inRange_of_le (by omega) (by omega)) (inRange_of_le (by omega) (by omega))
        (inRange_of_le (by omega) (by omega))
  have upper : ρ.Evals m (Embedded.infixed .sub (Embedded.apply "LEN" [Embedded.name "rest"])
      (Embedded.number 1)) (.int ((before ++ s.toList ++ after).length - 1)) m := by
    rw [← length]
    exact evals_binary rfl (evals_len_text len text) (evals_number 1) fun h =>
      binaryOp_sub h (inRange_of_le (by omega) (by omega)) rfl (inRange_of_le (by omega) (by omega))
  have remains := evals_substring (offers_global (m := m) around (by simp [Builtins.subroutines])
    (st.builtins "SUBSTRING" (by simp))) lower upper text
  have behind : Builtins.slice (before ++ s.toList ++ after) (before.length + s.length)
      ((before ++ s.toList ++ after).length - 1) = after := by
    rw [← size, ← Int.natCast_add, ← List.length_append,
      Builtins.slice_from (by simp) word, List.drop_left]
  rwa [String.toList_ofList, behind] at remains

theorem round (around : ρ.globals.Offers home) (leftmost : Leftmost before s.toList after)
    (word : ((before ++ s.toList ++ after).length : Int) ≤ Value.maxInt)
    (st : Splitting k s done (before ++ s.toList ++ after) m) :
    ∃ m', ρ.Runs m splitRound .normal m' ∧ Splitting k s (done ++ [before]) after m' := by
  have st₁ := st.skip (m.fresh + 1)
  have method : ρ.Evals m (Embedded.member "parts" ["append"])
      (.builtin ⟨m.fresh, "append", .arrayAppend ⟨k⟩⟩) { m with fresh := m.fresh + 1 } :=
    evals_method (finds_local st.parts) rfl
  have first := execs_append method (st₁.evals_front around leftmost word) (copies_plain rfl _)
  have st₂ := st₁.push before
  have second := execs_set_plain (x := "rest") rfl (st₂.evals_behind around leftmost word)
  -- Where the separator occurs in what is left.
  let m₂ : Memory := { m with
    arrays := m.arrays.modify k (·.push (.string (String.ofList before)))
    fresh := m.fresh + 1 }
  let m₃ : Memory := { m₂ with vars := m.vars.put "rest" (.string (String.ofList after)) }
  have left : m₃.vars.get? "rest" = some (.string (String.ofList after)) := Table.get?_put_self ..
  have other {x : String} (differs : "rest" ≠ x) : m₃.vars.get? x = m.vars.get? x :=
    Table.get?_put_of_ne _ _ differs
  have found := evals_position (offers_global (m := m₃) around (by simp [Builtins.subroutines])
    ((other (by decide)).trans (st.builtins "POSITION" (by simp)))) (evals_name (finds_local left))
    (evals_name (finds_local ((other (by decide)).trans st.separator)))
  rw [String.toList_ofList] at found
  refine ⟨_, runs_cons first (runs_cons second (runs_cons (execs_set_plain rfl found) runs_nil)), ?_⟩
  have last {x : String} (differs : "pos" ≠ x) (differs' : "rest" ≠ x) :
      (m₃.vars.put "pos" (.int (place s.toList after))).get? x = m.vars.get? x :=
    (Table.get?_put_of_ne _ _ differs).trans (other differs')
  refine ⟨(last (by decide) (by decide)).trans st.parts,
    (last (by decide) (by decide)).trans st.separator,
    (Table.get?_put_of_ne _ _ (by decide)).trans left, Table.get?_put_self .., ?_, st₂.held⟩
  intro f mem
  refine (last ?_ ?_).trans (st.builtins f mem) <;>
  · rintro rfl
    simp at mem

/-- The loop goes on until the separator does not occur any more. -/
theorem loops (around : ρ.globals.Offers home) {parts : List (List Char)}
    (cuts : Cuts s.toList rest parts) (word : (rest.length : Int) ≤ Value.maxInt)
    (st : Splitting k s done rest m) :
    ∃ m' qs last, parts = qs ++ [last] ∧
      ρ.Loops m (Embedded.infixed .ge (Embedded.name "pos") (Embedded.number 0)) splitRound .normal
        m' ∧ Splitting k s (done ++ qs) last m' := by
  have test (m : Memory) {n : Int} (pos : m.vars.get? "pos" = some (.int n)) :
      ρ.Evals m (Embedded.infixed .ge (Embedded.name "pos") (Embedded.number 0))
        (.bool (decide (0 ≤ n))) m :=
    evals_binary rfl (evals_name (finds_local pos)) (evals_number 0)
      fun h => binaryOp_ge h n 0
  induction cuts generalizing m done with
  | @whole rest none =>
    have pos := st.pos
    rw [place, Builtins.occurrence?_eq_none none] at pos
    refine ⟨m, [], rest, rfl, loops_done (test m pos) rfl, ?_⟩
    rwa [List.append_nil]
  | @cut before after parts leftmost _ ih =>
    have pos := st.pos
    rw [place, Builtins.occurrence?_of_leftmost leftmost] at pos
    have holds : decide ((0 : Int) ≤ before.length) = true := decide_eq_true (Int.natCast_nonneg _)
    obtain ⟨m₁, runs, st₁⟩ := st.round around leftmost word
    simp only [List.length_append] at word
    obtain ⟨m', qs, last, rfl, rest, st'⟩ := ih (by omega) st₁
    refine ⟨m', before :: qs, last, rfl, loops_round (test m pos) holds runs rest, ?_⟩
    rwa [List.append_assoc] at st'

end Splitting

section Split

open Room

variable {ρ : Room} {home : InterpreterId} {m : Memory} {s t : String}

/-- The variables of a call of `SPLIT` in the beginning. -/
def splitVars (t s : String) : Table Value := [("text", .string t), ("separator", .string s)]

theorem evals_noSeparator (vars : m.vars = splitVars t s) :
    ρ.Evals m (Embedded.infixed .eq (Embedded.name "separator") (Embedded.text ""))
      (.bool (equalLeaves (.string s) (.string ""))) m :=
  evals_binary rfl (evals_name (finds_local (by rw [vars]; rfl))) (evals_text "")
    fun h => binaryOp_eq_leaves h rfl rfl

/-- Without a separator the parts are the characters. -/
theorem runs_split_empty (around : ρ.globals.Offers home) (vars : m.vars = splitVars t "") :
    ∃ m' k, ρ.Runs m Embedded.splitBody (.returned (.array ⟨k⟩)) m' ∧
      m'.Holds ⟨k⟩ (texts (t.toList.map fun c => [c])) := by
  have offered : ρ.Offers m "Array" .toArray :=
    offers_global around (by simp [Builtins.conversions]) (by rw [vars]; rfl)
  have value : ρ.Evals m (Embedded.name "text") (.string t) m :=
    evals_name (finds_local (by rw [vars]; rfl))
  have given := execs_give (evals_characters offered value)
  refine ⟨_, m.arrays.size, runs_returned (execs_whenever (evals_noSeparator vars) rfl
    (runs_returned given [])) _, .ofArray (Builtins.characters t).toArray,
    Array.getElem?_push_size, ?_⟩
  rw [Slots.toArray_ofArray, List.toList_toArray, Builtins.characters, texts, List.map_map]
  rfl

theorem runs_split (around : ρ.globals.Offers home) (some : s ≠ "")
    (word : (t.length : Int) ≤ Value.maxInt) {parts : List (List Char)}
    (cuts : Cuts s.toList t.toList parts) (vars : m.vars = splitVars t s) :
    ∃ m' k, ρ.Runs m Embedded.splitBody (.returned (.array ⟨k⟩)) m' ∧
      m'.Holds ⟨k⟩ (texts parts) := by
  obtain ⟨table, arrays, dicts, classes, fresh⟩ := m
  cases vars
  -- Neither the literal nor its copy has any elements.
  let empty := Slots.ofArray #[]
  let k := (arrays.push empty).size
  let memory (vars : Table Value) : Memory :=
    ⟨vars, (arrays.push empty).push empty, dicts, classes, fresh⟩
  let made : String × Value := ("parts", .array ⟨k⟩)
  let left : String × Value := ("rest", .string t)
  let found : String × Value := ("pos", .int (place s.toList t.toList))
  have skips : ρ.Execs ⟨splitVars t s, arrays, dicts, classes, fresh⟩
      (Embedded.whenever (Embedded.infixed .eq (Embedded.name "separator") (Embedded.text ""))
        [Embedded.give (Embedded.apply "Array" [Embedded.name "text"])]) .normal
      ⟨splitVars t s, arrays, dicts, classes, fresh⟩ :=
    execs_whenever_not (evals_noSeparator rfl) (beq_false_of_ne some)
  have parts₁ : ρ.Execs ⟨splitVars t s, arrays, dicts, classes, fresh⟩
      (Embedded.set "parts" (.array default [])) .normal
      (memory (splitVars t s ++ [made])) :=
    execs_set evals_emptyArray
      (copies_array (.new ⟨_, arrays, dicts, classes, _⟩ [] _ _) (List.forall_mem_nil _) ..)
  have rest₁ : ρ.Execs (memory (splitVars t s ++ [made]))
      (Embedded.set "rest" (Embedded.name "text")) .normal
      (memory (splitVars t s ++ [made, left])) :=
    execs_set_plain rfl (evals_name (finds_local rfl))
  have pos₁ : ρ.Execs (memory (splitVars t s ++ [made, left]))
      (Embedded.set "pos" (Embedded.apply "POSITION" [Embedded.name "rest", Embedded.name "separator"]))
      .normal (memory (splitVars t s ++ [made, left, found])) :=
    execs_set_plain rfl (evals_position
      (offers_global around (by simp [Builtins.subroutines]) rfl)
      (evals_name (finds_local rfl)) (evals_name (finds_local rfl)))
  have start : Splitting k s [] t.toList (memory (splitVars t s ++ [made, left, found])) := by
    refine ⟨rfl, rfl, ?_, rfl, ?_, empty, Array.getElem?_push_size, ?_⟩
    · rw [String.ofList_toList]
      rfl
    · simp [memory, splitVars, made, left, found, Table.get?]
    · rfl
  rw [← String.length_toList] at word
  obtain ⟨m', qs, last, rfl, loops, st⟩ := start.loops around cuts word
  have method : ρ.Evals m' (Embedded.member "parts" ["append"])
      (.builtin ⟨m'.fresh, "append", .arrayAppend ⟨k⟩⟩) { m' with fresh := m'.fresh + 1 } :=
    evals_method (finds_local st.parts) rfl
  have final := execs_append method (evals_name (finds_local st.left)) (copies_plain rfl _)
  let m'' : Memory := { m' with
    arrays := m'.arrays.modify k (·.push (.string (String.ofList last)))
    fresh := m'.fresh + 1 }
  have given : ρ.Execs m'' (Embedded.give (Embedded.name "parts")) (.returned (.array ⟨k⟩)) m'' :=
    execs_give (evals_name (finds_local st.parts))
  refine ⟨m'', k, runs_cons skips (runs_cons parts₁ (runs_cons rest₁ (runs_cons pos₁
    (runs_cons (execs_while loops) (runs_cons final (runs_returned given [])))))), ?_⟩
  exact (st.push last).held

end Split

/-! ## Joining -/

section Join

open Room

variable {ρ : Room} {home : InterpreterId} {m : Memory} {s : String} {ps : List (List Char)}

/-- One more part, with a separator in front of it. -/
theorem intercalate_concat {α : Type} (s p : List α) : ∀ {qs : List (List α)}, qs ≠ [] →
    s.intercalate (qs ++ [p]) = s.intercalate qs ++ s ++ p
  | [q], _ => by
    rw [List.singleton_append, List.intercalate_cons_cons, List.intercalate_singleton,
      List.intercalate_singleton]
  | q :: r :: qs, _ => by
    have rest := intercalate_concat s p (List.cons_ne_nil r qs)
    rw [List.cons_append, List.cons_append, List.intercalate_cons_cons, ← List.cons_append, rest,
      List.intercalate_cons_cons]
    simp only [List.append_assoc]

theorem intercalate_characters {α : Type} : ∀ cs : List α,
    [].intercalate (cs.map fun c => [c]) = cs
  | [] => rfl
  | [_] => rfl
  | c :: d :: cs => by
    have rest := intercalate_characters (d :: cs)
    rw [List.map_cons] at rest
    rw [List.map_cons, List.map_cons, List.intercalate_cons_cons, rest]
    rfl

/-- The loop of `JOIN` has put together the first parts. -/
structure Joining (a : ArrayRef) (s : String) (ps : List (List Char)) (j : Nat) (m : Memory) :
    Prop where
  items : m.vars.get? "items" = some (.array a)
  separator : m.vars.get? "separator" = some (.string s)
  result : m.vars.get? "result" = some (.string (String.ofList (s.toList.intercalate (ps.take j))))
  builtins : m.vars.get? "String" = none
  held : m.Holds a (texts ps)

open Embedded in
/-- A round of the loop of `JOIN`. -/
def joinRound : List Stmt :=
  [whenever (infixed .gt (name "i") (number 0))
      [set "result" (infixed .add (name "result") (name "separator"))],
    set "result" (infixed .add (name "result")
      (apply "String" [.var default "items" [.subscript default (name "i")]]))]

namespace Joining

variable {a : ArrayRef} {j : Nat}

/-- The separator is put in front of every part but the first. -/
theorem separate (st : Joining a s ps j m) (h : j < ps.length) (i : m.vars.get? "i" = some (.int j)) :
    ∃ vars text, ρ.Execs m (Embedded.whenever
        (Embedded.infixed .gt (Embedded.name "i") (Embedded.number 0))
        [Embedded.set "result"
          (Embedded.infixed .add (Embedded.name "result") (Embedded.name "separator"))]) .normal
        { m with vars } ∧
      (∀ x, "result" ≠ x → vars.get? x = m.vars.get? x) ∧
      vars.get? "result" = some (.string text) ∧
      text.toList ++ ps[j] = s.toList.intercalate (ps.take (j + 1)) := by
  have test : ρ.Evals m (Embedded.infixed .gt (Embedded.name "i") (Embedded.number 0))
      (.bool (decide ((0 : Int) < j))) m :=
    evals_binary rfl (evals_name (finds_local i)) (evals_number 0)
      fun h => binaryOp_gt h j 0
  rw [List.take_succ_eq_append_getElem h]
  cases j with
  | zero => exact ⟨m.vars, _, execs_whenever_not test rfl, fun _ _ => rfl, st.result, by simp⟩
  | succ j =>
    have some : ps.take (j + 1) ≠ [] := by
      rw [Ne, List.take_eq_nil_iff, not_or]
      exact ⟨Nat.succ_ne_zero j, List.ne_nil_of_length_pos (by omega)⟩
    have holds : decide ((0 : Int) < (j + 1 : Nat)) = true := decide_eq_true (by omega)
    have value : ρ.Evals m (Embedded.infixed .add (Embedded.name "result")
        (Embedded.name "separator"))
        (.string (String.ofList (s.toList.intercalate (ps.take (j + 1))) ++ s)) m :=
      evals_binary rfl (evals_name (finds_local st.result))
        (evals_name (finds_local st.separator)) fun h => binaryOp_append h _ _
    refine ⟨_, _, execs_whenever test holds (runs_cons (execs_set_plain rfl value) runs_nil),
      fun x other => Table.get?_put_of_ne _ _ other, Table.get?_put_self .., ?_⟩
    rw [String.toList_append, String.toList_ofList, intercalate_concat _ _ some]

theorem round (around : ρ.globals.Offers home) (h : j < ps.length) (st : Joining a s ps j m) :
    ∃ m', ρ.Runs { m with vars := m.vars.put "i" (.int j) } joinRound .normal m' ∧
      Joining a s ps (j + 1) m' := by
  let m₁ : Memory := { m with vars := m.vars.put "i" (.int j) }
  have counter : m₁.vars.get? "i" = some (.int j) := Table.get?_put_self ..
  have other (x : String) (differs : "i" ≠ x) : m₁.vars.get? x = m.vars.get? x :=
    Table.get?_put_of_ne _ _ differs
  have st₁ : Joining a s ps j m₁ :=
    ⟨(other _ (by decide)).trans st.items, (other _ (by decide)).trans st.separator,
      (other _ (by decide)).trans st.result, (other _ (by decide)).trans st.builtins, st.held⟩
  obtain ⟨vars, text, first, same, result, joined⟩ := st₁.separate (ρ := ρ) h counter
  let m₂ : Memory := { m₁ with vars }
  have part : (texts ps)[j]? = some (.string (String.ofList ps[j])) := by
    rw [texts, List.getElem?_map, List.getElem?_eq_getElem h]
    rfl
  have means : (Value.int j).Means (texts ps).length j :=
    .natCast (by rwa [texts, List.length_map])
  have item : ρ.Evals m₂ (.var default "items" [.subscript default (Embedded.name "i")])
      (.string (String.ofList ps[j])) m₂ :=
    evals_var (finds_local ((same _ (by decide)).trans st₁.items))
      (walks_subscript (evals_name (finds_local ((same _ (by decide)).trans counter)))
        (st.held.item means part ρ.outer.heap ρ.name ρ.parent) (walks_nil _))
  have offered : ρ.Offers m₂ "String" (.toText home) :=
    offers_global around (by simp [Builtins.conversions])
      ((same _ (by decide)).trans st₁.builtins)
  have value : ρ.Evals m₂ (Embedded.infixed .add (Embedded.name "result")
      (Embedded.apply "String" [.var default "items" [.subscript default (Embedded.name "i")]]))
      (.string (text ++ String.ofList ps[j])) m₂ :=
    evals_binary rfl (evals_name (finds_local result))
      (evals_string offered item)
      fun h => binaryOp_append h _ _
  have after (x : String) (differs : "result" ≠ x) :
      (vars.put "result" (.string (text ++ String.ofList ps[j]))).get? x = m₁.vars.get? x :=
    (Table.get?_put_of_ne _ _ differs).trans (same x differs)
  refine ⟨_, runs_cons first (runs_cons (execs_set_plain rfl value) runs_nil),
    (after _ (by decide)).trans st₁.items, (after _ (by decide)).trans st₁.separator, ?_,
    (after _ (by decide)).trans st₁.builtins, st.held⟩
  rw [← joined, String.ofList_append, String.ofList_toList]
  exact Table.get?_put_self ..

end Joining

/-- The range of the places in a list. -/
theorem rangeValues_places (n : Nat) :
    Run.rangeValues 1 (Run.rangeCount 0 ((n : Int) - 1) 1) 0 =
      (List.range n).map fun j : Nat => .int j := by
  have count : Run.rangeCount 0 ((n : Int) - 1) 1 = n := by
    rw [Run.rangeCount, if_pos Int.one_pos]
    split <;> omega
  rw [count, Run.rangeValues_eq]
  exact List.map_congr_left fun j _ => by rw [Int.mul_one, Int.zero_add]

/-- The variables of a call of `JOIN` in the beginning. -/
def joinVars (a : ArrayRef) (s : String) : Table Value :=
  [("items", .array a), ("separator", .string s)]

theorem runs_join (around : ρ.globals.Offers home) {a : ArrayRef} (vars : m.vars = joinVars a s)
    (held : m.Holds a (texts ps)) (word : (ps.length : Int) ≤ Value.maxInt) :
    ∃ m', ρ.Runs m Embedded.joinBody
      (.returned (.string (String.ofList (s.toList.intercalate ps)))) m' := by
  obtain ⟨table, arrays, dicts, classes, fresh⟩ := m
  cases vars
  let m₁ : Memory := ⟨joinVars a s ++ [("result", Value.string "")], arrays, dicts, classes, fresh⟩
  have first : ρ.Execs ⟨joinVars a s, arrays, dicts, classes, fresh⟩
      (Embedded.set "result" (Embedded.text "")) .normal m₁ :=
    execs_set_plain rfl (evals_text "")
  have start : Joining a s ps 0 m₁ := ⟨rfl, rfl, by rw [List.take_zero]; rfl, rfl, held⟩
  have size : (texts ps).length = ps.length := List.length_map _
  have upper : ρ.Evals m₁ (Embedded.infixed .sub
      (Embedded.apply "LEN" [Embedded.name "items"]) (Embedded.number 1))
      (.int (ps.length - 1)) m₁ := by
    rw [← size] at word ⊢
    exact evals_binary rfl
      (evals_len_array (offers_global (m := m₁) around (by simp [Builtins.subroutines]) rfl)
        (evals_name (finds_local rfl)) held) (evals_number 1) fun h =>
      binaryOp_sub h (inRange_of_le (by omega) word) rfl (inRange_of_le (by omega) (by omega))
  let places : List Value := (List.range ps.length).map fun j : Nat => .int j
  have count : places.length = ps.length := by rw [List.length_map, List.length_range]
  have plain : ∀ v ∈ places, v.container? = none := fun v mem => by
    obtain ⟨j, -, rfl⟩ := List.mem_map.mp mem
    rfl
  have rounds : ∃ m₂, ρ.Goes m₁ "i" joinRound places m₂ ∧ Joining a s ps places.length m₂ := by
    refine goes_of_step plain (fun j h m st => ?_) start
    rw [List.getElem_map, List.getElem_range]
    exact st.round around (Nat.lt_of_lt_of_eq h count)
  obtain ⟨m₂, goes, done⟩ := rounds
  rw [count] at done
  have loop := execs_forRange (evals_number 0) upper rfl (inRange_of_le (by omega) (by omega))
    (by rwa [rangeValues_places])
  have given : ρ.Execs m₂ (Embedded.give (Embedded.name "result"))
      (.returned (.string (String.ofList (s.toList.intercalate ps)))) m₂ := by
    have result := done.result
    rw [List.take_length] at result
    exact execs_give (evals_name (finds_local result))
  exact ⟨m₂, runs_cons first (runs_cons loop (runs_returned given []))⟩

end Join

/-! ## Reversing -/

section Reverse

open Room

variable {ρ : Room} {m : Memory} {t : String}

/-- The loop of `REVERSE` has put the first characters in front of each other. -/
def Reversing (cs : List Char) (j : Nat) (m : Memory) : Prop :=
  m.vars.get? "result" = some (.string (String.ofList (cs.take j).reverse))

open Embedded in
/-- A round of the loop of `REVERSE`. -/
def reverseRound : List Stmt := [set "result" (infixed .add (name "ch") (name "result"))]

theorem Reversing.round {cs : List Char} {j : Nat} (st : Reversing cs j m) (h : j < cs.length) :
    ∃ m', ρ.Runs { m with vars := m.vars.put "ch" (.string (String.ofList [cs[j]])) } reverseRound
      .normal m' ∧ Reversing cs (j + 1) m' := by
  let m₁ : Memory := { m with vars := m.vars.put "ch" (.string (String.ofList [cs[j]])) }
  have char : m₁.vars.get? "ch" = some (.string (String.ofList [cs[j]])) := Table.get?_put_self ..
  have result : m₁.vars.get? "result" = some (.string (String.ofList (cs.take j).reverse)) :=
    (Table.get?_put_of_ne _ _ (by decide)).trans st
  have value : ρ.Evals m₁ (Embedded.infixed .add (Embedded.name "ch") (Embedded.name "result"))
      (.string (String.ofList [cs[j]] ++ String.ofList (cs.take j).reverse)) m₁ :=
    evals_binary rfl (evals_name (finds_local char)) (evals_name (finds_local result))
      fun h => binaryOp_append h _ _
  refine ⟨_, runs_cons (execs_set_plain rfl value) runs_nil, ?_⟩
  rw [Reversing, List.take_succ_eq_append_getElem h, List.reverse_append, String.ofList_append]
  exact Table.get?_put_self ..

theorem runs_reverse (vars : m.vars = [("text", .string t)]) :
    ∃ m', ρ.Runs m Embedded.reverseBody
      (.returned (.string (String.ofList t.toList.reverse))) m' := by
  obtain ⟨table, arrays, dicts, classes, fresh⟩ := m
  cases vars
  let m₁ : Memory := ⟨[("text", .string t), ("result", .string "")], arrays, dicts, classes, fresh⟩
  have first : ρ.Execs ⟨[("text", .string t)], arrays, dicts, classes, fresh⟩
      (Embedded.set "result" (Embedded.text "")) .normal m₁ :=
    execs_set_plain rfl (evals_text "")
  let chars : List Value := t.toList.map fun c => .string (String.ofList [c])
  have count : chars.length = t.toList.length := List.length_map _
  have plain : ∀ v ∈ chars, v.container? = none := fun v mem => by
    obtain ⟨c, -, rfl⟩ := List.mem_map.mp mem
    rfl
  have rounds : ∃ m₂, ρ.Goes m₁ "ch" reverseRound chars m₂ ∧ Reversing t.toList chars.length m₂ := by
    refine goes_of_step plain (fun j h m st => ?_) (by rw [Reversing, List.take_zero]; rfl)
    rw [List.getElem_map]
    exact st.round (Nat.lt_of_lt_of_eq h count)
  obtain ⟨m₂, goes, done⟩ := rounds
  rw [count, Reversing, List.take_length] at done
  have text : ρ.Evals m₁ (Embedded.name "text") (.string t) m₁ := evals_name (finds_local rfl)
  have given : ρ.Execs m₂ (Embedded.give (Embedded.name "result"))
      (.returned (.string (String.ofList t.toList.reverse))) m₂ :=
    execs_give (evals_name (finds_local done))
  exact ⟨m₂, runs_cons first (runs_cons (execs_forEach text rfl goes) (runs_returned given []))⟩

end Reverse

/-! ## The module -/

section Module

variable {env : Env} {w : World} {root : ScopeRef} {nickname : String} {s t : String}

/-- These are the parts of a text at a separator: the texts between its leftmost occurrences, none
of which contains it, or the characters, if it is empty. -/
def Splits (t s : String) (parts : List String) : Prop :=
  if s = "" then parts = t.toList.map fun c => String.ofList [c]
  else Cuts s.toList t.toList (parts.map String.toList) ∧ ∀ p ∈ parts, ¬ s.toList <:+: p.toList

theorem splits_empty (t : String) : Splits t "" ((t.toList.map fun c => [c]).map String.ofList) := by
  rw [Splits, if_pos rfl, List.map_map]
  rfl

theorem splits_of_cuts (some : s ≠ "") {ps : List (List Char)} (cuts : Cuts s.toList t.toList ps) :
    Splits t s (ps.map String.ofList) := by
  have back : (ps.map String.ofList).map String.toList = ps := by
    rw [List.map_map]
    exact (List.map_congr_left fun p _ => String.toList_ofList).trans (List.map_id ps)
  rw [Splits, if_neg some, back]
  refine ⟨cuts, fun p mem => ?_⟩
  obtain ⟨q, inside, rfl⟩ := List.mem_map.mp mem
  rw [String.toList_ofList]
  exact cuts.not_infix (fun none => some (String.toList_eq_nil_iff.mp none)) q inside

/-- What `SPLIT` leaves: a new array of the parts. -/
def HoldsParts (t s : String) (v : Value) (m : Memory) : Prop :=
  ∃ k ps, v = .array ⟨k⟩ ∧ m.Holds ⟨k⟩ (texts ps) ∧ Splits t s (ps.map String.ofList) ∧
    s.toList.intercalate ps = t.toList ∧ (ps.length : Int) ≤ Value.maxInt

theorem runs_splitBody {ρ : Room} {home : InterpreterId} (around : ρ.globals.Offers home)
    (word : (t.length : Int) < Value.maxInt) {m : Memory} (vars : m.vars = splitVars t s) :
    ∃ v m', ρ.Runs m Embedded.splitBody (.returned v) m' ∧ HoldsParts t s v m' := by
  rw [← String.length_toList] at word
  by_cases empty : s = ""
  · subst empty
    obtain ⟨m', k, runs, held⟩ := runs_split_empty around vars
    refine ⟨_, m', runs, k, _, rfl, held, splits_empty t, ?_, ?_⟩
    · exact intercalate_characters t.toList
    · rw [List.length_map]
      exact word.le
  · have some : s.toList ≠ [] := fun none => empty (String.toList_eq_nil_iff.mp none)
    obtain ⟨ps, cuts⟩ := Builtins.exists_cuts some t.toList
    obtain ⟨m', k, runs, held⟩ := runs_split around empty
      (String.length_toList (s := t) ▸ word.le) cuts vars
    have count := cuts.length_le some
    exact ⟨_, m', runs, k, ps, rfl, held, splits_of_cuts empty cuts, cuts.intercalate, by omega⟩

theorem calls_split (module : ModuleScope (w.heap.scope root) root Embedded.stringRoutines)
    (callable : Callable env w root) (word : (t.length : Int) < Value.maxInt) :
    ∃ v m, Calls env w (.module nickname root) "SPLIT" [.string t, .string s] v
        (w.holding "SPLIT" (some root) m) ∧ HoldsParts t s v m := by
  obtain ⟨home, offers⟩ := module.builtins
  have binds : Binds w.heap "SPLIT" (some root) (w.memory [])
      [("text", .string t), ("separator", .string s)] (w.memory (splitVars t s)) :=
    .cons (copies_plain rfl _) (.cons (copies_plain rfl _) .nil)
  have runs (origin : Origin) : ∃ v m', (callable.room "SPLIT" origin).Runs
      (w.memory (splitVars t s)) Embedded.splitBody (.returned v) m' ∧ HoldsParts t s v m' :=
    runs_splitBody (ρ := callable.room "SPLIT" origin) offers word rfl
  have defined : Embedded.routine "SPLIT" ["text", "separator"] Embedded.splitBody ∈
      Embedded.stringRoutines := by
    simp [Embedded.stringRoutines]
  exact module.calls callable defined rfl binds rfl runs

/-- `JOIN` puts strings together. -/
theorem calls_join (module : ModuleScope (w.heap.scope root) root Embedded.stringRoutines)
    (callable : Callable env w root) {a : ArrayRef} {ps : List (List Char)}
    (held : (w.memory []).Holds a (texts ps)) (word : (ps.length : Int) ≤ Value.maxInt) :
    ∃ w', Calls env w (.module nickname root) "JOIN" [.array a, .string s]
      (.string (String.ofList (s.toList.intercalate ps))) w' := by
  obtain ⟨home, offers⟩ := module.builtins
  have plain : ∀ v ∈ texts ps, v.container? = none := fun v mem => by
    obtain ⟨p, -, rfl⟩ := List.mem_map.mp mem
    rfl
  let copied : ArrayRef := ⟨w.heap.arrays.size⟩
  let m : Memory := { w.memory (joinVars copied s) with
    arrays := w.heap.arrays.push (.ofArray (texts ps).toArray) }
  have binds : Binds w.heap "JOIN" (some root) (w.memory [])
      [("items", .array a), ("separator", .string s)] m :=
    .cons (copies_array held plain ..) (.cons (copies_plain rfl _) .nil)
  have runs (origin : Origin) : ∃ v m', (callable.room "JOIN" origin).Runs m Embedded.joinBody
      (.returned v) m' ∧ v = .string (String.ofList (s.toList.intercalate ps)) := by
    obtain ⟨m', runs⟩ := runs_join (ρ := callable.room "JOIN" origin) (m := m) offers rfl
      (.new (w.memory []) (texts ps) _ _) word
    exact ⟨_, m', runs, rfl⟩
  have defined : Embedded.routine "JOIN" ["items", "separator"] Embedded.joinBody ∈
      Embedded.stringRoutines := by
    simp [Embedded.stringRoutines]
  have called : ∃ v m', Calls env w (.module nickname root) "JOIN" [.array a, .string s] v
      (w.holding "JOIN" (some root) m') ∧ v = .string (String.ofList (s.toList.intercalate ps)) :=
    module.calls callable defined rfl binds rfl runs
  obtain ⟨v, m', calls, rfl⟩ := called
  exact ⟨_, calls⟩

/-- `REVERSE` turns a string around. -/
theorem calls_reverse (module : ModuleScope (w.heap.scope root) root Embedded.stringRoutines)
    (callable : Callable env w root) (t : String) :
    ∃ w', Calls env w (.module nickname root) "REVERSE" [.string t]
      (.string (String.ofList t.toList.reverse)) w' := by
  have binds : Binds w.heap "REVERSE" (some root) (w.memory []) [("text", .string t)]
      (w.memory [("text", .string t)]) :=
    .cons (copies_plain rfl _) .nil
  have runs (origin : Origin) : ∃ v m', (callable.room "REVERSE" origin).Runs
      (w.memory [("text", .string t)]) Embedded.reverseBody (.returned v) m' ∧
        v = .string (String.ofList t.toList.reverse) := by
    obtain ⟨m', runs⟩ := runs_reverse (ρ := callable.room "REVERSE" origin)
      (m := w.memory [("text", .string t)]) rfl
    exact ⟨_, m', runs, rfl⟩
  have defined : Embedded.routine "REVERSE" ["text"] Embedded.reverseBody ∈
      Embedded.stringRoutines := by
    simp [Embedded.stringRoutines]
  have called : ∃ v m', Calls env w (.module nickname root) "REVERSE" [.string t] v
      (w.holding "REVERSE" (some root) m') ∧ v = .string (String.ofList t.toList.reverse) :=
    module.calls callable defined rfl binds rfl runs
  obtain ⟨v, m', calls, rfl⟩ := called
  exact ⟨_, calls⟩

/-- The module that is imported has these subroutines. -/
theorem imports_strings (means : MeansEmbedded env w "strings")
    (self : env.self.index < w.interpreters.size)
    (shallow : (Eval.frameIn env w).depth < env.setup.maxDepth) (nickname : String) (span : Span) :
    ∃ root w₁, Settles (fun n => Run.importModule (Run.run n) "strings" nickname span) env w
        (.module nickname root) w₁ ∧
      Callable env w₁ root ∧ ModuleScope (w₁.heap.scope root) root Embedded.stringRoutines := by
  have called : Run.moduleFile "strings" = "strings.ecp" := by decide +kernel
  have clean : Path.clean "strings.ecp" = "strings.ecp" := by decide +kernel
  have inside : Path.isInside "strings.ecp" = true := by decide +kernel
  have found : Embedded.files.lookup "strings.ecp" = some (Embedded.textOf Embedded.strings) := by
    simp [Embedded.files, List.lookup_cons]
  exact imports_subroutines means called clean inside found (Embedded.parse_strings _) (by decide)
    self shallow

/-- The helpers for strings do what they are for, in every world in which the module has been
imported and its bindings are as they were: `SPLIT` returns the parts of a text, `JOIN` makes the
text of them again, and `REVERSE` turns it around.  One call level is enough. -/
theorem strings_imported_correct (means : MeansEmbedded env w "strings")
    (self : env.self.index < w.interpreters.size)
    (shallow : (Eval.frameIn env w).depth < env.setup.maxDepth) (nickname : String) (span : Span) :
    ∃ root w₁, Settles (fun n => Run.importModule (Run.run n) "strings" nickname span) env w
        (.module nickname root) w₁ ∧ Callable env w₁ root ∧
      ∀ env' w', w'.heap.scope root = w₁.heap.scope root → Callable env' w' root →
        ∀ t s : String, (t.length : Int) < Value.maxInt →
          (∃ a parts w₂ w₃,
            Calls env' w' (.module nickname root) "SPLIT" [.string t, .string s] (.array a) w₂ ∧
            (w₂.heap.array a).toList = parts.map .string ∧ Splits t s parts ∧
            Calls env' w₂ (.module nickname root) "JOIN" [.array a, .string s] (.string t) w₃) ∧
          ∃ w₂, Calls env' w' (.module nickname root) "REVERSE" [.string t]
            (.string (String.ofList t.toList.reverse)) w₂ := by
  obtain ⟨root, w₁, settles, callable₁, module₁⟩ := imports_strings means self shallow nickname span
  refine ⟨root, w₁, settles, callable₁, fun env' w' same callable t s word => ?_⟩
  have module : ModuleScope (w'.heap.scope root) root Embedded.stringRoutines := same ▸ module₁
  refine ⟨?_, calls_reverse module callable t⟩
  obtain ⟨v, m, split, k, ps, rfl, held, splits, joined, count⟩ :=
    calls_split module callable word
  let w₂ := w'.holding "SPLIT" (some root) m
  have kept : w₂.heap.scope root = w'.heap.scope root := scope_holding_lt callable.inside
  obtain ⟨w₃, join⟩ := calls_join (w := w₂) (kept ▸ module) (callable.holding ..) held count
  rw [joined, String.ofList_toList] at join
  refine ⟨⟨k⟩, ps.map String.ofList, w₂, w₃, split, ?_, splits, join⟩
  rw [List.map_map]
  exact held.array ..

/-- The parts of a text in which the separator overlaps itself, after an import in a new session. -/
theorem strings_imported_correct_overlapping :
    let env : Env := ⟨{ (default : Setup) with stdlib := true, maxDepth := 1 }, Session.main⟩
    ∃ root w₁ a parts w₂ w₃,
      Settles (fun n => Run.importModule (Run.run n) "strings" "strings" default) env
        (Session.rootedWorld default) (.module "strings" root) w₁ ∧
      Calls env w₁ (.module "strings" root) "SPLIT" [.string "ababab", .string "abab"] (.array a) w₂ ∧
      (w₂.heap.array a).toList = parts.map .string ∧ Splits "ababab" "abab" parts ∧
      Calls env w₂ (.module "strings" root) "JOIN" [.array a, .string "abab"] (.string "ababab")
        w₃ := by
  have means : MeansEmbedded ⟨{ (default : Setup) with stdlib := true, maxDepth := 1 }, Session.main⟩
      (Session.rootedWorld default) "strings" := ⟨rfl, by rfl, nofun⟩
  obtain ⟨root, w₁, settles, callable, correct⟩ :=
    strings_imported_correct means (by decide) (by decide) "strings" default
  obtain ⟨⟨a, parts, w₂, w₃, split, elements, splits, join⟩, -⟩ :=
    correct _ w₁ rfl callable "ababab" "abab" (by decide)
  exact ⟨root, w₁, a, parts, w₂, w₃, settles, split, elements, splits, join⟩

end Module

end Pseudocode
